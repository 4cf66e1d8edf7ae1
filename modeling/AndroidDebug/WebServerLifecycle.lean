import AndroidDebug.TransitionSystem
import Mathlib.Logic.Function.Basic
import Mathlib.Data.List.Basic
import Mathlib.Tactic.Common

/-! KeepAliveService and the web servers it opens one after the other. All of them share the
static isLoop, and onError is not told which server calls it. A step is one access to isLoop,
to webServer under its lock, or to errCount; closeWebServer is two, since close() writes isLoop
before it closes the socket. `closed` records that close() was called; the code keeps no such
mark. -/
namespace WebServerLifecycle

open TransitionSystem

def RESUME_COUNT : ℕ := 3

/-- What a thread inside onError does next. -/
inductive OnError where
  | closing | counting | resuming
  deriving DecidableEq, Repr

/-- What a server's own thread does next; `portInUse` and `reporting` are its two calls of
onError. -/
inductive Run where
  | absent | starting | binding | configuring | opening | checking | accepting | dispatching
  | failed | portInUse (p : OnError) | reporting (p : OnError) | clearing | finishing | ended
  deriving DecidableEq, Repr

inductive Worker where
  | absent | checking | handling | reporting (p : OnError) | ended
  deriving DecidableEq, Repr

inductive ServerSocket where
  | null | opened | closed
  deriving DecidableEq, Repr

def ServerSocket.close : ServerSocket → ServerSocket
  | .null => .null
  | _ => .closed

structure Server where
  run : Run := .absent
  serverSocket : ServerSocket := .null
  closed : Bool := false
  spawned : ℕ := 0
  worker : ℕ → Worker := fun _ => .absent

/-- How handleRequest ends: it returns, a template is missing, or it throws something else. -/
inductive Response where
  | returned | templateMissing | thrown
  deriving DecidableEq, Repr

/-- A step of one of a server's threads outside onError. -/
inductive Action where
  | isLocalPortInUse (inUse : Bool)
  | newServerSocket (ok : Bool)
  | setReuseAddress (ok : Bool)
  | enterLoop
  | checkLoop
  | accept (ok : Bool)
  | dispatch (ok : Bool)
  | catchIOException
  | clearLoop
  | finish
  | workerCheck (w : ℕ) (isOpen : Bool)
  | handleRequest (w : ℕ) (r : Response)
  deriving DecidableEq, Repr

/-- A closed socket refuses both setReuseAddress and accept. -/
def Server.Enabled (x : Server) : Action → Prop
  | .isLocalPortInUse _ => x.run = .starting
  | .newServerSocket _ => x.run = .binding
  | .setReuseAddress ok => x.run = .configuring ∧ (ok = true → x.serverSocket = .opened)
  | .enterLoop => x.run = .opening
  | .checkLoop => x.run = .checking
  | .accept ok => x.run = .accepting ∧ (ok = true → x.serverSocket = .opened)
  | .dispatch _ => x.run = .dispatching
  | .catchIOException => x.run = .failed
  | .clearLoop => x.run = .clearing
  | .finish => x.run = .finishing
  | .workerCheck w _ => x.worker w = .checking
  | .handleRequest w _ => x.worker w = .handling

instance (x : Server) : ∀ a, Decidable (x.Enabled a)
  | .setReuseAddress _ | .accept _ => inferInstanceAs (Decidable (_ ∧ (_ → _)))
  | .isLocalPortInUse _ | .newServerSocket _ | .enterLoop | .checkLoop | .dispatch _
  | .catchIOException | .clearLoop | .finish | .workerCheck .. | .handleRequest .. =>
    inferInstanceAs (Decidable (_ = _))

def Server.setWorker (x : Server) (w : ℕ) (y : Worker) : Server :=
  { x with worker := Function.update x.worker w y }

/-- What the step does to the server whose thread takes it, by the value of isLoop. -/
def Server.act (x : Server) (isLoop : Bool) : Action → Server
  | .isLocalPortInUse inUse => { x with run := if inUse then .portInUse .closing else .binding }
  | .newServerSocket true => { x with run := .configuring, serverSocket := .opened }
  | .newServerSocket false => { x with run := .failed }
  | .setReuseAddress ok => { x with run := if ok then .opening else .failed }
  | .enterLoop => { x with run := .checking }
  | .checkLoop => { x with run := if isLoop then .accepting else .finishing }
  | .accept ok => { x with run := if ok then .dispatching else .failed }
  | .dispatch true =>
    { x with run := .checking
             spawned := x.spawned + 1
             worker := Function.update x.worker x.spawned .checking }
  | .dispatch false => { x with run := .failed }
  | .catchIOException => { x with run := if isLoop then .reporting .closing else .finishing }
  | .clearLoop => { x with run := .finishing }
  | .finish => { x with run := .ended, serverSocket := x.serverSocket.close }
  | .workerCheck w isOpen => x.setWorker w (if isLoop && isOpen then .handling else .ended)
  | .handleRequest w .returned => x.setWorker w .checking
  | .handleRequest w .templateMissing => x.setWorker w (.reporting .closing)
  | .handleRequest w .thrown => x.setWorker w .ended

def Action.writes (isLoop : Bool) : Action → Bool
  | .enterLoop => true
  | .clearLoop => false
  | _ => isLoop

inductive Thread where
  | run | worker (w : ℕ)
  deriving DecidableEq, Repr

def Server.point (x : Server) : Thread → Option OnError
  | .run =>
    match x.run with
    | .portInUse p | .reporting p => some p
    | _ => none
  | .worker w =>
    match x.worker w with
    | .reporting p => some p
    | _ => none

def Server.setPoint (x : Server) (p : OnError) : Thread → Server
  | .run =>
    { x with run := match x.run with
        | .portInUse _ => .portInUse p
        | _ => .reporting p }
  | .worker w => x.setWorker w (.reporting p)

/-- onError returns: run goes to its finally clause or to `isLoop = false`. -/
def Server.returned (x : Server) : Thread → Server
  | .run =>
    { x with run := match x.run with
        | .portInUse _ => .finishing
        | _ => .clearing }
  | .worker w => x.setWorker w .ended

inductive Caller where
  | onDestroy | thread (k : ℕ) (t : Thread)
  deriving DecidableEq, Repr

/-- `openers` counts the threads that openWebServer started and that have still to take the
lock; `lock` names the caller between the two steps of its closeWebServer. -/
structure State where
  isLoop : Bool
  webServer : Option ℕ
  errCount : ℕ
  resetTask : Bool
  openers : ℕ
  lock : Option Caller
  destroyed : Bool
  started : ℕ
  server : ℕ → Server

def initial : State := ⟨false, none, 0, false, 0, none, false, 0, fun _ => {}⟩

def State.modify (s : State) (k : ℕ) (x : Server) : State :=
  { s with server := Function.update s.server k x }

@[simp] theorem modify_self (s : State) (k : ℕ) (x : Server) : (s.modify k x).server k = x :=
  Function.update_self ..

@[simp] theorem modify_other (s : State) {j k : ℕ} (x : Server) (h : j ≠ k) :
    (s.modify k x).server j = s.server j :=
  Function.update_of_ne h ..

def State.point (s : State) : Caller → Option OnError
  | .onDestroy => if s.destroyed then none else some .closing
  | .thread k t => (s.server k).point t

def State.setPoint (s : State) (p : OnError) : Caller → State
  | .onDestroy => { s with destroyed := true }
  | .thread k t => s.modify k ((s.server k).setPoint p t)

def State.returned (s : State) : Caller → State
  | .onDestroy => s
  | .thread k t => s.modify k ((s.server k).returned t)

def openWebServer (s : State) : State := { s with openers := s.openers + 1 }

/-- The thread of openWebServer, under the lock; the constructor resets isLoop. -/
def opener (s : State) : State :=
  match s.webServer with
  | some _ => { s with openers := s.openers - 1 }
  | none =>
    { s with openers := s.openers - 1
             isLoop := false
             webServer := some s.started
             started := s.started + 1
             server := Function.update s.server s.started { run := .starting } }

def closeBegin (s : State) (c : Caller) : State :=
  match s.webServer with
  | none => s.setPoint .counting c
  | some j =>
    { s.modify j { s.server j with closed := true } with
      isLoop := false
      lock := some c }

def closeSocket (s : State) : State :=
  match s.webServer with
  | none => s
  | some j => s.modify j { s.server j with serverSocket := (s.server j).serverSocket.close }

def closeEnd (s : State) (c : Caller) : State :=
  { closeSocket s with webServer := none, lock := none }.setPoint .counting c

/-- `errCount++` and restartResetTask. -/
def countError (s : State) (c : Caller) : State :=
  { s.setPoint .resuming c with errCount := s.errCount + 1, resetTask := true }

def resume (s : State) (c : Caller) : State :=
  if s.errCount ≤ RESUME_COUNT then openWebServer (s.returned c)
  else { s.returned c with errCount := 0, resetTask := false }

inductive Event where
  | onStartCommand
  | opener
  | resetTask
  | closeBegin (c : Caller)
  | closeEnd (c : Caller)
  | countError (c : Caller)
  | resume (c : Caller)
  | act (k : ℕ) (a : Action)
  deriving DecidableEq, Repr

/-- onStartCommand and onDestroy both run on the main thread. -/
def Enabled (s : State) : Event → Prop
  | .onStartCommand => s.destroyed = false ∧ s.lock ≠ some .onDestroy
  | .opener => 0 < s.openers ∧ s.lock = none
  | .resetTask => s.resetTask = true
  | .closeBegin c => s.point c = some .closing ∧ s.lock = none
  | .closeEnd c => s.lock = some c
  | .countError c => s.point c = some .counting
  | .resume c => s.point c = some .resuming
  | .act k a => (s.server k).Enabled a

instance (s : State) : ∀ e, Decidable (Enabled s e)
  | .onStartCommand | .opener | .closeBegin _ => inferInstanceAs (Decidable (_ ∧ _))
  | .resetTask | .closeEnd _ | .countError _ | .resume _ => inferInstanceAs (Decidable (_ = _))
  | .act k a => inferInstanceAs (Decidable ((s.server k).Enabled a))

def next (s : State) : Event → State
  | .onStartCommand => if s.webServer = none then openWebServer s else s
  | .opener => opener s
  | .resetTask => { s with errCount := 0, resetTask := false }
  | .closeBegin c => closeBegin s c
  | .closeEnd c => closeEnd s c
  | .countError c => countError s c
  | .resume c => resume s c
  | .act k a =>
    { s.modify k ((s.server k).act s.isLoop a) with isLoop := a.writes s.isLoop }

def system : System State Event where
  initial s := s = initial
  Enabled := Enabled
  next := next

instance (s : State) (e : Event) : Decidable (system.Enabled s e) :=
  inferInstanceAs (Decidable (Enabled s e))

/-- The catch clause of a server on which close() was called calls onError. -/
def ReportsAfterClose (s : State) : Event → Prop
  | .act k .catchIOException => s.isLoop = true ∧ (s.server k).closed = true
  | _ => False

/-- An error of a server's accept loop or of one of its workers closes a later server. -/
def ClosesSuccessor (s : State) : Event → Prop
  | .closeBegin (.thread k t) =>
    (t = .run → (s.server k).run = .reporting .closing) ∧ ∃ j ∈ s.webServer, k < j
  | _ => False

instance (s : State) : ∀ e, Decidable (ReportsAfterClose s e)
  | .act _ .catchIOException => inferInstanceAs (Decidable (_ ∧ _))
  | .act _ (.isLocalPortInUse _) | .act _ (.newServerSocket _) | .act _ (.setReuseAddress _)
  | .act _ .enterLoop | .act _ .checkLoop | .act _ (.accept _) | .act _ (.dispatch _)
  | .act _ .clearLoop | .act _ .finish | .act _ (.workerCheck ..) | .act _ (.handleRequest ..)
  | .onStartCommand | .opener | .resetTask | .closeBegin _ | .closeEnd _ | .countError _
  | .resume _ => isFalse id

instance (s : State) : ∀ e, Decidable (ClosesSuccessor s e)
  | .closeBegin (.thread _ _) => inferInstanceAs (Decidable ((_ → _) ∧ _))
  | .closeBegin .onDestroy | .act .. | .onStartCommand | .opener | .resetTask | .closeEnd _
  | .countError _ | .resume _ => isFalse id

/-- The thread may still call onError from its catch clause. -/
def Run.canReport : Run → Bool
  | .starting | .binding | .configuring | .opening | .checking | .accepting | .dispatching
  | .failed | .reporting .closing => true
  | _ => false

def Worker.canReport : Worker → Bool
  | .checking | .handling | .reporting .closing => true
  | _ => false

/-- No error of the server's accept loop or of a worker of it is still to close a server. -/
def Quiet (x : Server) : Prop :=
  x.run.canReport = false ∧ ∀ w < x.spawned, (x.worker w).canReport = false

instance (x : Server) : Decidable (Quiet x) :=
  inferInstanceAs (Decidable (_ ∧ ∀ w < _, _))

/-- A server is created only when all earlier ones are quiet, and enters its loop only if
close() has not been called on it. -/
def Orderly (s : State) : Event → Prop
  | .opener => s.webServer = none → ∀ k < s.started, Quiet (s.server k)
  | .act k .enterLoop => (s.server k).closed = false
  | _ => True

instance (s : State) : ∀ e, Decidable (Orderly s e)
  | .opener => inferInstanceAs (Decidable (_ → ∀ k < _, Quiet _))
  | .act _ .enterLoop => inferInstanceAs (Decidable (_ = _))
  | .act _ .catchIOException
  | .act _ (.isLocalPortInUse _) | .act _ (.newServerSocket _) | .act _ (.setReuseAddress _)
  | .act _ .checkLoop | .act _ (.accept _) | .act _ (.dispatch _)
  | .act _ .clearLoop | .act _ .finish | .act _ (.workerCheck ..) | .act _ (.handleRequest ..)
  | .onStartCommand | .resetTask | .closeBegin _ | .closeEnd _ | .countError _
  | .resume _ => isTrue trivial

/-! What a step leaves of a server. -/

/-- Worker numbers are handed out in order. -/
def Numbered (x : Server) : Prop := ∀ w, x.worker w ≠ .absent → w < x.spawned

/-- The thread is the server's own or a worker it has spawned. -/
def Server.Has (x : Server) : Thread → Prop
  | .run => True
  | .worker w => w < x.spawned

/-- A thread that can no longer report stays so, and none that can comes to a quiet server. -/
structure Evolves (x y : Server) : Prop where
  run : x.run.canReport = false → y.run.canReport = false
  quiet : Quiet x → Quiet y
  numbered : Numbered x → Numbered y
  spawned : x.spawned ≤ y.spawned

theorem Evolves.refl (x : Server) : Evolves x x := ⟨id, id, id, Nat.le_refl _⟩

theorem Evolves.has {x y : Server} (h : Evolves x y) {t : Thread} (ht : x.Has t) : y.Has t := by
  cases t with
  | run => trivial
  | worker w => exact Nat.lt_of_lt_of_le ht h.spawned

theorem evolves_setRun {x : Server} {r : Run} (so : ServerSocket)
    (h : x.run.canReport = true ∨ r.canReport = false) :
    Evolves x { x with run := r, serverSocket := so } := by
  have hrun : x.run.canReport = false → r.canReport = false := by
    intro hx
    rcases h with h | h
    · rw [hx] at h
      cases h
    · exact h
  exact ⟨hrun, fun hq => ⟨hrun hq.1, hq.2⟩, id, Nat.le_refl _⟩

theorem evolves_setWorker {x : Server} {w : ℕ} {y : Worker} (hw : Numbered x → w < x.spawned)
    (h : (x.worker w).canReport = true ∨ y.canReport = false) : Evolves x (x.setWorker w y) := by
  refine ⟨id, ?_, ?_, Nat.le_refl _⟩
  · intro hq
    refine ⟨hq.1, fun v hv => ?_⟩
    have hold := hq.2 v hv
    by_cases hvw : v = w
    · subst hvw
      rcases h with h | h
      · rw [hold] at h
        cases h
      · simpa [Server.setWorker] using h
    · simpa [Server.setWorker, hvw] using hold
  · intro hn v hv
    by_cases hvw : v = w
    · subst hvw
      exact hw hn
    · exact hn v (by simpa [Server.setWorker, hvw] using hv)

/-- Only the thread in its accept loop spawns a worker. -/
theorem evolves_dispatch {x : Server} (h : x.run = .dispatching) (isLoop ok : Bool) :
    Evolves x (x.act isLoop (.dispatch ok)) := by
  have hr : x.run.canReport = true := by
    rw [h]
    rfl
  cases ok with
  | false => exact evolves_setRun _ (Or.inl hr)
  | true =>
    refine ⟨?_, ?_, ?_, Nat.le_succ _⟩
    · intro hx
      rw [hr] at hx
      cases hx
    · intro hq
      have hx := hq.1
      rw [hr] at hx
      cases hx
    · intro hn v hv
      by_cases hvs : v = x.spawned
      · exact hvs ▸ Nat.lt_succ_self _
      · exact Nat.lt_succ_of_lt (hn v (by simpa [Server.act, hvs] using hv))

theorem evolves_act {x : Server} {a : Action} (ha : x.Enabled a) (isLoop : Bool) :
    Evolves x (x.act isLoop a) := by
  have hrun : ∀ {r : Run}, x.run = r → r.canReport = true → x.run.canReport = true := by
    intro r h hr
    rw [h, hr]
  have hworker : ∀ {w : ℕ} {y : Worker}, x.worker w = y → y ≠ .absent →
      Numbered x → w < x.spawned := by
    intro w y h hy hn
    exact hn w (h ▸ hy)
  cases a with
  | isLocalPortInUse inUse => exact evolves_setRun _ (Or.inl (hrun ha rfl))
  | newServerSocket ok => cases ok <;> exact evolves_setRun _ (Or.inl (hrun ha rfl))
  | setReuseAddress ok => exact evolves_setRun _ (Or.inl (hrun ha.1 rfl))
  | enterLoop => exact evolves_setRun _ (Or.inl (hrun ha rfl))
  | checkLoop => exact evolves_setRun _ (Or.inl (hrun ha rfl))
  | accept ok => exact evolves_setRun _ (Or.inl (hrun ha.1 rfl))
  | dispatch ok => exact evolves_dispatch ha isLoop ok
  | catchIOException => exact evolves_setRun _ (Or.inl (hrun ha rfl))
  | clearLoop => exact evolves_setRun _ (Or.inr rfl)
  | finish => exact evolves_setRun _ (Or.inr rfl)
  | workerCheck w isOpen =>
    have hw : x.worker w = .checking := ha
    exact evolves_setWorker (hworker hw (by decide)) (Or.inl (by rw [hw]; rfl))
  | handleRequest w r =>
    have hw : x.worker w = .handling := ha
    cases r <;> exact evolves_setWorker (hworker hw (by decide)) (Or.inl (by rw [hw]; rfl))

theorem act_closed (x : Server) (isLoop : Bool) (a : Action) :
    (x.act isLoop a).closed = x.closed := by
  cases a with
  | newServerSocket ok | dispatch ok => cases ok <;> rfl
  | handleRequest w r => cases r <;> rfl
  | _ => rfl

theorem Numbered.has {x : Server} (h : Numbered x) {t : Thread} {p : OnError}
    (ht : x.point t = some p) : x.Has t := by
  cases t with
  | run => trivial
  | worker w =>
    refine h w fun habs => ?_
    simp [Server.point, habs] at ht

theorem evolves_setPoint {x : Server} {t : Thread} (ht : x.Has t) {p : OnError}
    (hp : p ≠ .closing) : Evolves x (x.setPoint p t) := by
  cases t with
  | run =>
    refine evolves_setRun _ (Or.inr ?_)
    cases p <;> cases x.run <;> first | rfl | exact absurd rfl hp
  | worker w =>
    refine evolves_setWorker (fun _ => ht) (Or.inr ?_)
    cases p <;> first | rfl | exact absurd rfl hp

theorem evolves_returned {x : Server} {t : Thread} (ht : x.Has t) : Evolves x (x.returned t) := by
  cases t with
  | run =>
    refine evolves_setRun _ (Or.inr ?_)
    cases x.run <;> rfl
  | worker w => exact evolves_setWorker (fun _ => ht) (Or.inr rfl)

theorem setPoint_closed (x : Server) (p : OnError) (t : Thread) :
    (x.setPoint p t).closed = x.closed := by
  cases t <;> rfl

theorem returned_closed (x : Server) (t : Thread) : (x.returned t).closed = x.closed := by
  cases t <;> rfl

/-! Every run. -/

/-- The caller is a thread of a server that was started. -/
def State.Has (s : State) : Caller → Prop
  | .onDestroy => True
  | .thread k t => k < s.started ∧ (s.server k).Has t

/-- The current server is the last one started, every earlier one has been closed, and while
the lock is held so has the current one. -/
structure Known (s : State) : Prop where
  fresh : ∀ k, s.started ≤ k → s.server k = {}
  current : ∀ j, s.webServer = some j → s.started = j + 1
  superseded : ∀ k < s.started, (s.server k).closed = true ∨ s.webServer = some k
  locked : s.lock ≠ none → ∀ j, s.webServer = some j → (s.server j).closed = true
  holder : ∀ c, s.lock = some c → s.Has c
  numbered : ∀ k, Numbered (s.server k)

theorem known_initial : Known initial := by
  constructor <;> simp [initial, Numbered]

/-- A step that opens and closes no server. -/
structure Proceeds (s t : State) : Prop where
  webServer : t.webServer = s.webServer
  started : t.started = s.started
  lock : t.lock = s.lock
  fresh : ∀ k, s.started ≤ k → t.server k = s.server k
  closed : ∀ k, (t.server k).closed = (s.server k).closed
  evolves : ∀ k, Evolves (s.server k) (t.server k)

theorem Proceeds.of_server {s t : State} (hw : t.webServer = s.webServer)
    (hs : t.started = s.started) (hl : t.lock = s.lock) (h : t.server = s.server) :
    Proceeds s t := by
  refine ⟨hw, hs, hl, fun k _ => congrFun h k, fun k => ?_, fun k => ?_⟩
  · rw [h]
  · rw [h]
    exact Evolves.refl _

theorem Proceeds.modify {s t : State} {k : ℕ} {x : Server} (hw : t.webServer = s.webServer)
    (hs : t.started = s.started) (hl : t.lock = s.lock) (h : t.server = (s.modify k x).server)
    (hk : k < s.started) (hc : x.closed = (s.server k).closed) (hx : Evolves (s.server k) x) :
    Proceeds s t := by
  have hother : ∀ j, j ≠ k → t.server j = s.server j := by
    intro j hj
    rw [h, modify_other s x hj]
  have hself : t.server k = x := by
    rw [h, modify_self]
  refine ⟨hw, hs, hl, fun j hj => hother j (by omega), fun j => ?_, fun j => ?_⟩
  · by_cases hjk : j = k
    · rw [hjk, hself, hc]
    · rw [hother j hjk]
  · by_cases hjk : j = k
    · rw [hjk, hself]
      exact hx
    · rw [hother j hjk]
      exact Evolves.refl _

theorem Proceeds.has {s t : State} (p : Proceeds s t) {c : Caller} (h : s.Has c) : t.Has c := by
  cases c with
  | onDestroy => trivial
  | thread k t =>
    rw [State.Has, p.started]
    exact ⟨h.1, (p.evolves k).has h.2⟩

theorem Known.proceeds {s t : State} (h : Known s) (p : Proceeds s t) : Known t := by
  refine ⟨?_, ?_, ?_, ?_, ?_, fun k => (p.evolves k).numbered (h.numbered k)⟩
  · intro k hk
    rw [p.started] at hk
    rw [p.fresh k hk, h.fresh k hk]
  · intro j hj
    rw [p.started]
    exact h.current j (p.webServer ▸ hj)
  · intro k hk
    rw [p.closed, p.webServer]
    exact h.superseded k (p.started ▸ hk)
  · intro hl j hj
    rw [p.closed]
    exact h.locked (p.lock ▸ hl) j (p.webServer ▸ hj)
  · intro c hl
    exact p.has (h.holder c (p.lock ▸ hl))

theorem Known.lt_of_enabled {s : State} (h : Known s) {k : ℕ} {a : Action}
    (ha : (s.server k).Enabled a) : k < s.started := by
  by_contra hk
  rw [h.fresh k (by omega)] at ha
  cases a <;> simp [Server.Enabled] at ha

theorem Known.lt_of_point {s : State} (h : Known s) {k : ℕ} {t : Thread} {p : OnError}
    (ht : s.point (.thread k t) = some p) : k < s.started := by
  by_contra hk
  rw [State.point, h.fresh k (by omega)] at ht
  cases t <;> simp [Server.point] at ht

theorem Known.has {s : State} (h : Known s) {c : Caller} {p : OnError}
    (hc : s.point c = some p) : s.Has c := by
  cases c with
  | onDestroy => trivial
  | thread k t => exact ⟨h.lt_of_point hc, (h.numbered k).has hc⟩

theorem proceeds_setPoint {s : State} {c : Caller} (hc : s.Has c) {p : OnError}
    (hp : p ≠ .closing) : Proceeds s (s.setPoint p c) := by
  cases c with
  | onDestroy => exact Proceeds.of_server rfl rfl rfl rfl
  | thread k t =>
    exact Proceeds.modify rfl rfl rfl rfl hc.1 (setPoint_closed ..) (evolves_setPoint hc.2 hp)

theorem proceeds_returned {s : State} {c : Caller} (hc : s.Has c) :
    Proceeds s (s.returned c) := by
  cases c with
  | onDestroy => exact Proceeds.of_server rfl rfl rfl rfl
  | thread k t =>
    exact Proceeds.modify rfl rfl rfl rfl hc.1 (returned_closed ..) (evolves_returned hc.2)

theorem Proceeds.fields {s t u : State} (p : Proceeds s t) (hw : u.webServer = t.webServer)
    (hs : u.started = t.started) (hl : u.lock = t.lock) (h : u.server = t.server) :
    Proceeds s u := by
  refine ⟨hw.trans p.webServer, hs.trans p.started, hl.trans p.lock, ?_, ?_, ?_⟩
  · rw [h]
    exact p.fresh
  · rw [h]
    exact p.closed
  · rw [h]
    exact p.evolves

/-- What a step can do: it opens a server, it is a step of a close(), or it does neither. -/
theorem step_cases {s : State} (h : Known s) {e : Event} (he : Enabled s e) :
    (e = .opener ∧ s.webServer = none) ∨
    (∃ c j, e = .closeBegin c ∧ s.webServer = some j) ∨
    (∃ c, e = .closeEnd c) ∨
    Proceeds s (next s e) := by
  cases e with
  | onStartCommand =>
    right; right; right
    show Proceeds s (if s.webServer = none then openWebServer s else s)
    split <;> exact Proceeds.of_server rfl rfl rfl rfl
  | opener =>
    cases hw : s.webServer with
    | none => exact Or.inl ⟨rfl, rfl⟩
    | some j =>
      right; right; right
      simp only [next, opener, hw]
      exact Proceeds.of_server hw.symm rfl rfl rfl
  | resetTask => exact Or.inr (Or.inr (Or.inr (Proceeds.of_server rfl rfl rfl rfl)))
  | closeBegin c =>
    cases hw : s.webServer with
    | some j => exact Or.inr (Or.inl ⟨c, j, rfl, rfl⟩)
    | none =>
      right; right; right
      simp only [next, closeBegin, hw]
      exact proceeds_setPoint (h.has he.1) (by decide)
  | closeEnd c => exact Or.inr (Or.inr (Or.inl ⟨c, rfl⟩))
  | countError c =>
    right; right; right
    exact (proceeds_setPoint (h.has he) (by decide)).fields rfl rfl rfl rfl
  | resume c =>
    right; right; right
    have hp := proceeds_returned (h.has he)
    show Proceeds s (if s.errCount ≤ RESUME_COUNT then _ else _)
    split
    · exact hp.fields rfl rfl rfl rfl
    · exact hp.fields rfl rfl rfl rfl
  | act k a =>
    right; right; right
    exact Proceeds.modify rfl rfl rfl rfl (h.lt_of_enabled he) (act_closed ..) (evolves_act he _)

/-- A thread of openWebServer that finds no server creates one. -/
theorem opener_creates {s : State} (hw : s.webServer = none) :
    next s .opener =
      { s with openers := s.openers - 1
               isLoop := false
               webServer := some s.started
               started := s.started + 1
               server := Function.update s.server s.started { run := .starting } } := by
  simp only [next, opener, hw]

theorem Known.opener {s : State} (h : Known s) (hw : s.webServer = none) (hl : s.lock = none) :
    Known (next s .opener) := by
  rw [opener_creates hw]
  have hother : ∀ k, k ≠ s.started →
      Function.update s.server s.started { run := .starting } k = s.server k :=
    fun k hk => Function.update_of_ne hk ..
  refine ⟨?_, ?_, ?_, fun hne => absurd hl hne, ?_, ?_⟩
  · intro k hk
    replace hk : s.started + 1 ≤ k := hk
    exact (hother k (by omega)).trans (h.fresh k (by omega))
  · rintro _ ⟨⟩
    rfl
  · intro k hk
    replace hk : k < s.started + 1 := hk
    by_cases hks : k = s.started
    · exact Or.inr (congrArg some hks.symm)
    · left
      simp only [hother k hks]
      rcases h.superseded k (by omega) with hc | hc
      · exact hc
      · rw [hw] at hc
        cases hc
  · intro c hc
    rw [hl] at hc
    cases hc
  · intro k
    by_cases hks : k = s.started
    · subst hks
      simp only [Function.update_self]
      exact fun w hne => absurd rfl hne
    · simp only [hother k hks]
      exact h.numbered k

theorem Known.closeBegin {s : State} (h : Known s) {j : ℕ} (hw : s.webServer = some j)
    {c : Caller} (hc : s.Has c) : Known (next s (.closeBegin c)) := by
  have hj := h.current j hw
  simp only [next, WebServerLifecycle.closeBegin, hw]
  refine ⟨?_, h.current, ?_, ?_, ?_, ?_⟩
  · intro k hk
    have hkj : k ≠ j := by
      have : s.started ≤ k := hk
      omega
    rw [← h.fresh k hk]
    exact modify_other s _ hkj
  · intro k hk
    by_cases hkj : k = j
    · exact Or.inr (hkj ▸ hw)
    · simp only [modify_other s _ hkj]
      exact h.superseded k hk
  · intro _ i hi
    have hij : j = i := Option.some.inj (hw.symm.trans hi)
    subst hij
    simp
  · intro d hd
    cases hd
    cases c with
    | onDestroy => trivial
    | thread k t =>
      refine ⟨hc.1, ?_⟩
      by_cases hkj : k = j
      · subst hkj
        simp only [modify_self]
        exact hc.2
      · simp only [modify_other s _ hkj]
        exact hc.2
  · intro k
    by_cases hkj : k = j
    · subst hkj
      simp only [modify_self]
      exact h.numbered k
    · simp only [modify_other s _ hkj]
      exact h.numbered k

theorem proceeds_closeSocket {s : State} (h : Known s) : Proceeds s (closeSocket s) := by
  cases hw : s.webServer with
  | none =>
    simp only [closeSocket, hw]
    exact Proceeds.of_server rfl rfl rfl rfl
  | some j =>
    have hj := h.current j hw
    simp only [closeSocket, hw]
    exact Proceeds.modify rfl rfl rfl rfl (by omega) rfl
      ⟨id, id, id, Nat.le_refl _⟩

/-- Once the lock is released, every server started has been closed. -/
theorem Known.release {s : State} (h : Known s) (hl : s.lock ≠ none) :
    Known { s with webServer := none, lock := none } := by
  refine ⟨h.fresh, ?_, ?_, fun hne => absurd rfl hne, ?_, h.numbered⟩
  · intro j hj
    cases hj
  · intro k hk
    rcases h.superseded k hk with hc | hc
    · exact Or.inl hc
    · exact Or.inl (h.locked hl k hc)
  · intro c hc
    cases hc

theorem proceeds_closeEnd {s : State} (h : Known s) {c : Caller} (hc : s.lock = some c) :
    Proceeds { closeSocket s with webServer := none, lock := none } (next s (.closeEnd c)) := by
  have hhas := (proceeds_closeSocket h).has (h.holder c hc)
  apply proceeds_setPoint _ (by decide)
  cases c with
  | onDestroy => trivial
  | thread k t => exact hhas

theorem Known.closeEnd {s : State} (h : Known s) {c : Caller} (hc : s.lock = some c) :
    Known (next s (.closeEnd c)) := by
  have hsock := proceeds_closeSocket h
  have hlock : (closeSocket s).lock ≠ none := by
    rw [hsock.lock, hc]
    exact Option.some_ne_none c
  exact ((h.proceeds hsock).release hlock).proceeds (proceeds_closeEnd h hc)

theorem reachable_known {s : State} (h : Reachable system s) : Known s := by
  apply Reachable.invariant _ _ h
  · rintro s rfl
    exact known_initial
  · intro s e hk he
    rcases step_cases hk he with ⟨rfl, hw⟩ | ⟨c, j, rfl, hw⟩ | ⟨c, rfl⟩ | hp
    · exact hk.opener hw he.2
    · exact hk.closeBegin hw (hk.has he.1)
    · exact hk.closeEnd he
    · exact hk.proceeds hp

/-! Runs whose steps are all orderly. -/

/-- Servers older than the current one are quiet, and while isLoop is set no closed server
can report. -/
structure Settled (s : State) : Prop where
  quiet : ∀ j, s.webServer = some j → ∀ k < j, Quiet (s.server k)
  silent : s.isLoop = true → ∀ k, (s.server k).closed = true →
    (s.server k).run.canReport = false

theorem settled_initial : Settled initial := by
  constructor <;> simp [initial]

theorem Settled.proceeds {s t : State} (h : Settled s) (p : Proceeds s t)
    (hloop : t.isLoop = true → s.isLoop = true) : Settled t := by
  constructor
  · intro j hj k hk
    exact (p.evolves k).quiet (h.quiet j (p.webServer ▸ hj) k hk)
  · intro ht k hc
    rw [p.closed] at hc
    exact (p.evolves k).run (h.silent (hloop ht) k hc)

/-- A server that enters its loop while open is the current one. -/
theorem Settled.enterLoop {s : State} (h : Settled s) (hn : Known s) {k : ℕ}
    (he : (s.server k).Enabled .enterLoop) (hc : (s.server k).closed = false)
    (p : Proceeds s (next s (.act k .enterLoop))) : Settled (next s (.act k .enterLoop)) := by
  have hcur : s.webServer = some k := by
    rcases hn.superseded k (hn.lt_of_enabled he) with hk | hk
    · rw [hc] at hk
      cases hk
    · exact hk
  constructor
  · intro j hj i hi
    exact (p.evolves i).quiet (h.quiet j (p.webServer ▸ hj) i hi)
  · intro _ i hi
    rw [p.closed] at hi
    have hlt : i < s.started := by
      by_contra hi'
      rw [hn.fresh i (by omega)] at hi
      cases hi
    have hne : i ≠ k := by
      rintro rfl
      rw [hc] at hi
      cases hi
    have hk := hn.current k hcur
    exact (p.evolves i).run (h.quiet k hcur i (by omega)).1

theorem setPoint_isLoop (s : State) (p : OnError) (c : Caller) :
    (s.setPoint p c).isLoop = s.isLoop := by
  cases c <;> rfl

theorem returned_isLoop (s : State) (c : Caller) : (s.returned c).isLoop = s.isLoop := by
  cases c <;> rfl

theorem closeSocket_isLoop (s : State) : (closeSocket s).isLoop = s.isLoop := by
  unfold closeSocket
  split <;> rfl

/-- Only a server that enters its loop sets isLoop. -/
theorem isLoop_next {s : State} {e : Event} (h : (next s e).isLoop = true) :
    s.isLoop = true ∨ ∃ k, e = .act k .enterLoop := by
  cases e with
  | onStartCommand =>
    simp only [next] at h
    split at h <;> exact Or.inl h
  | opener =>
    simp only [next, opener] at h
    split at h
    · exact Or.inl h
    · cases h
  | resetTask => exact Or.inl h
  | closeBegin c =>
    simp only [next, closeBegin] at h
    split at h
    · exact Or.inl (setPoint_isLoop s _ c ▸ h)
    · cases h
  | closeEnd c =>
    left
    rw [next, closeEnd, setPoint_isLoop] at h
    exact closeSocket_isLoop s ▸ h
  | countError c => exact Or.inl (setPoint_isLoop s _ c ▸ h)
  | resume c =>
    simp only [next, resume] at h
    split at h <;> exact Or.inl (returned_isLoop s c ▸ h)
  | act k a =>
    cases a with
    | enterLoop => exact Or.inr ⟨k, rfl⟩
    | clearLoop => cases h
    | _ => exact Or.inl h

theorem Settled.opener {s : State} (hw : s.webServer = none)
    (ho : Orderly s .opener) : Settled (next s .opener) := by
  rw [opener_creates hw]
  constructor
  · rintro _ ⟨⟩ k hk
    simp only [Function.update_of_ne (Nat.ne_of_lt hk)]
    exact ho hw k hk
  · rintro ⟨⟩

theorem Settled.closeBegin {s : State} (h : Settled s) {j : ℕ} (hw : s.webServer = some j)
    (c : Caller) : Settled (next s (.closeBegin c)) := by
  simp only [next, WebServerLifecycle.closeBegin, hw]
  constructor
  · intro i hi k hk
    have hij : j = i := Option.some.inj (hw.symm.trans hi)
    subst hij
    simp only [modify_other s _ (Nat.ne_of_lt hk)]
    exact h.quiet j hw k hk
  · intro hloop
    cases hloop

theorem Settled.closeEnd {s : State} (h : Settled s) (hn : Known s) {c : Caller}
    (hc : s.lock = some c) : Settled (next s (.closeEnd c)) := by
  have hsock := h.proceeds (proceeds_closeSocket hn)
    (by rw [closeSocket_isLoop]; exact id)
  have hopen : Settled { closeSocket s with webServer := none, lock := none } := by
    constructor
    · intro j hj
      cases hj
    · exact hsock.silent
  refine hopen.proceeds (proceeds_closeEnd hn hc) fun hloop => ?_
  rw [next, WebServerLifecycle.closeEnd, setPoint_isLoop] at hloop
  exact hloop

theorem settled_step {s : State} (hn : Known s) (h : Settled s) {e : Event} (he : Enabled s e)
    (ho : Orderly s e) : Settled (next s e) := by
  rcases step_cases hn he with ⟨rfl, hw⟩ | ⟨c, j, rfl, hw⟩ | ⟨c, rfl⟩ | hp
  · exact Settled.opener hw ho
  · exact h.closeBegin hw c
  · exact h.closeEnd hn he
  · by_cases hk : ∃ k, e = .act k .enterLoop
    · obtain ⟨k, rfl⟩ := hk
      exact h.enterLoop hn he ho hp
    · exact h.proceeds hp fun hloop => (isLoop_next hloop).resolve_right hk

theorem reachable_settled {s : State} (h : ReachableWhere system Orderly s) : Settled s := by
  apply ReachableWhere.invariant_with (fun _ => reachable_known) _ _ h
  · rintro s rfl
    exact settled_initial
  · exact fun s e hn hs he ho => settled_step hn hs he ho

theorem Settled.silent_after_close {s : State} (h : Settled s) {e : Event} (he : Enabled s e) :
    ¬ ReportsAfterClose s e := by
  cases e with
  | act k a =>
    cases a with
    | catchIOException =>
      rintro ⟨hloop, hc⟩
      have hrun : (s.server k).run = .failed := he
      have := h.silent hloop k hc
      rw [hrun] at this
      cases this
    | _ => exact id
  | _ => exact id

theorem Settled.spares_successor {s : State} (h : Settled s) (hn : Known s) {e : Event}
    (he : Enabled s e) : ¬ ClosesSuccessor s e := by
  cases e with
  | closeBegin c =>
    cases c with
    | onDestroy => exact id
    | thread k t =>
      rintro ⟨hrun, j, hj, hk⟩
      have hq := h.quiet j hj k hk
      cases t with
      | run =>
        have := hq.1
        rw [hrun rfl] at this
        cases this
      | worker w =>
        have hw := hq.2 w (hn.has he.1).2
        have hpoint : (s.server k).point (.worker w) = some .closing := he.1
        simp only [Server.point] at hpoint
        split at hpoint
        · rename_i p hp
          cases hpoint
          rw [hp] at hw
          cases hw
        · cases hpoint
  | _ => exact id

/-! What a step that is not orderly can lead to. -/

/-- Steps of server `k`'s own threads lead from `s` to `t`. -/
structure Onward (k : ℕ) (s t : State) : Prop where
  run : Execution system s t
  webServer : t.webServer = s.webServer
  lock : t.lock = s.lock
  closed : (t.server k).closed = (s.server k).closed
  others : ∀ i, i ≠ k → t.server i = s.server i

theorem Onward.refl (k : ℕ) (s : State) : Onward k s s := ⟨.refl s, rfl, rfl, rfl, fun _ _ => rfl⟩

theorem next_act (s : State) (k : ℕ) (a : Action) :
    (next s (.act k a)).server k = (s.server k).act s.isLoop a :=
  modify_self ..

theorem Onward.step {k : ℕ} {s : State} {a : Action} (ha : (s.server k).Enabled a) :
    Onward k s (next s (.act k a)) := by
  refine ⟨.one (M := system) (e := .act k a) ha trivial, rfl, rfl, ?_, ?_⟩
  · rw [next_act, act_closed]
  · exact fun i hi => modify_other s _ hi

theorem Onward.trans {k : ℕ} {s t u : State} (h : Onward k s t) (h' : Onward k t u) :
    Onward k s u := by
  refine ⟨h.run.trans h'.run, h'.webServer.trans h.webServer, h'.lock.trans h.lock,
    h'.closed.trans h.closed, ?_⟩
  intro i hi
  rw [h'.others i hi, h.others i hi]

theorem Onward.cons {k : ℕ} {s t : State} {a : Action} (ha : (s.server k).Enabled a)
    (h : Onward k (next s (.act k a)) t) : Onward k s t := (Onward.step ha).trans h

/-- Server `k` comes to its catch clause while isLoop is set. -/
def CanFail (k : ℕ) (s : State) : Prop :=
  ∃ t, Onward k s t ∧ t.isLoop = true ∧ (t.server k).run = .failed

theorem CanFail.cons {k : ℕ} {s : State} {a : Action} (ha : (s.server k).Enabled a)
    (h : CanFail k (next s (.act k a))) : CanFail k s := by
  obtain ⟨t, ht, hloop, hrun⟩ := h
  exact ⟨t, ht.cons ha, hloop, hrun⟩

theorem CanFail.last {k : ℕ} {s : State} {a : Action} (ha : (s.server k).Enabled a)
    (hloop : a.writes s.isLoop = true) (h : ((s.server k).act s.isLoop a).run = .failed) :
    CanFail k s := by
  refine ⟨_, .step ha, hloop, ?_⟩
  rw [next_act]
  exact h

theorem canFail_accepting {k : ℕ} {s : State} (hloop : s.isLoop = true)
    (h : (s.server k).run = .accepting) : CanFail k s :=
  CanFail.last (a := .accept false) ⟨h, fun hf => absurd hf (by decide)⟩ hloop rfl

theorem canFail_checking {k : ℕ} {s : State} (hloop : s.isLoop = true)
    (h : (s.server k).run = .checking) : CanFail k s := by
  refine CanFail.cons (a := .checkLoop) h (canFail_accepting hloop ?_)
  rw [next_act, hloop]
  rfl

theorem canFail_binding {k : ℕ} {s : State} (hloop : s.isLoop = true)
    (h : (s.server k).run = .binding) : CanFail k s :=
  CanFail.last (a := .newServerSocket false) h hloop rfl

/-- A server that may still report and has not yet failed can fail now. -/
theorem canFail {k : ℕ} {s : State} (hloop : s.isLoop = true)
    (h : (s.server k).run.canReport = true) (hne : (s.server k).run ≠ .reporting .closing) :
    CanFail k s := by
  cases hr : (s.server k).run with
  | starting =>
    refine CanFail.cons (a := .isLocalPortInUse false) hr (canFail_binding hloop ?_)
    rw [next_act]
    rfl
  | binding => exact canFail_binding hloop hr
  | configuring =>
    exact CanFail.last (a := .setReuseAddress false) ⟨hr, fun hf => absurd hf (by decide)⟩
      hloop rfl
  | opening =>
    refine CanFail.cons (a := .enterLoop) hr (canFail_checking rfl ?_)
    rw [next_act]
    rfl
  | checking => exact canFail_checking hloop hr
  | accepting => exact canFail_accepting hloop hr
  | dispatching => exact CanFail.last (a := .dispatch false) hr hloop rfl
  | failed => exact ⟨s, .refl k s, hloop, hr⟩
  | reporting p =>
    cases p with
    | closing => exact absurd hr hne
    | counting | resuming => simp [hr, Run.canReport] at h
  | absent | portInUse | clearing | finishing | ended => simp [hr, Run.canReport] at h

theorem run_reports {k : ℕ} {s : State} (hloop : s.isLoop = true)
    (h : (s.server k).run.canReport = true) :
    ∃ t, Onward k s t ∧ (t.server k).run = .reporting .closing := by
  by_cases hrep : (s.server k).run = .reporting .closing
  · exact ⟨s, .refl k s, hrep⟩
  · obtain ⟨t, ht, hloop', hfail⟩ := canFail hloop h hrep
    refine ⟨_, ht.trans (.step (a := .catchIOException) hfail), ?_⟩
    rw [next_act, hloop']
    rfl

theorem worker_reports {k w : ℕ} {s : State} (hloop : s.isLoop = true)
    (h : ((s.server k).worker w).canReport = true) :
    ∃ t, Onward k s t ∧ (t.server k).worker w = .reporting .closing := by
  have hhandling : ∀ u, (u.server k).worker w = .handling →
      ∃ t, Onward k u t ∧ (t.server k).worker w = .reporting .closing := by
    intro u hu
    refine ⟨_, .step (a := .handleRequest w .templateMissing) hu, ?_⟩
    rw [next_act]
    simp [Server.act, Server.setWorker]
  cases hw : (s.server k).worker w with
  | handling => exact hhandling s hw
  | checking =>
    have hnext : ((next s (.act k (.workerCheck w true))).server k).worker w = .handling := by
      rw [next_act]
      simp [Server.act, Server.setWorker, hloop]
    obtain ⟨t, ht, hrep⟩ := hhandling _ hnext
    exact ⟨t, Onward.cons (a := .workerCheck w true) hw ht, hrep⟩
  | reporting p =>
    cases p with
    | closing => exact ⟨s, .refl k s, hw⟩
    | counting | resuming => simp [hw, Worker.canReport] at h
  | absent | ended => simp [hw, Worker.canReport] at h

/-- While isLoop is set, an older server that is not quiet can close the current one. -/
theorem unquiet_closes {s : State} {j k : ℕ} (hloop : s.isLoop = true) (hl : s.lock = none)
    (hw : s.webServer = some j) (hk : k < j) (hq : ¬ Quiet (s.server k)) :
    ∃ t f, Execution system s t ∧ Enabled t f ∧ ClosesSuccessor t f := by
  have hclose : ∀ t x, Onward k s t → (t.server k).point x = some .closing →
      (x = .run → (t.server k).run = .reporting .closing) →
      ∃ t f, Execution system s t ∧ Enabled t f ∧ ClosesSuccessor t f := by
    intro t x ht hx hrun
    exact ⟨t, .closeBegin (.thread k x), ht.run, ⟨hx, ht.lock.trans hl⟩, hrun, j,
      ht.webServer.trans hw, hk⟩
  by_cases hr : (s.server k).run.canReport = true
  · obtain ⟨t, ht, hrep⟩ := run_reports hloop hr
    exact hclose t .run ht (by rw [Server.point, hrep]) fun _ => hrep
  · have hex : ∃ w, ((s.server k).worker w).canReport = true := by
      by_contra hno
      simp only [not_exists, Bool.not_eq_true] at hno hr
      exact hq ⟨hr, fun w _ => hno w⟩
    obtain ⟨w, hworker⟩ := hex
    obtain ⟨t, ht, hrep⟩ := worker_reports hloop hworker
    refine hclose t (.worker w) ht (by rw [Server.point, hrep]) fun hx => ?_
    cases hx

/-- A server just started can enter its loop. -/
theorem starting_enters_loop {s : State} {j : ℕ} (h : s.server j = { run := .starting }) :
    ∃ t, Onward j s t ∧ t.isLoop = true := by
  have hport : (s.server j).Enabled (.isLocalPortInUse false) := by
    rw [h]
    rfl
  refine ⟨_, .cons hport (.cons (a := .newServerSocket true) ?_
    (.cons (a := .setReuseAddress true) ?_ (.step (a := .enterLoop) ?_))), rfl⟩
  · rw [next_act]
    rfl
  · rw [next_act]
    exact ⟨rfl, fun _ => rfl⟩
  · simp only [next_act]
    rfl

theorem early_open_closes {s : State} (hl : s.lock = none) (ho : ¬ Orderly s .opener) :
    ∃ t f, Execution system (next s .opener) t ∧ Enabled t f ∧ ClosesSuccessor t f := by
  simp only [Orderly, Classical.not_imp, not_forall] at ho
  obtain ⟨hw, k, hk, hq⟩ := ho
  have hne : k ≠ s.started := Nat.ne_of_lt hk
  have hnew : (next s .opener).server s.started = { run := .starting } := by
    rw [opener_creates hw]
    exact Function.update_self ..
  obtain ⟨t, ht, hloop⟩ := starting_enters_loop hnew
  rw [opener_creates hw] at ht ⊢
  have hq' : ¬ Quiet (t.server k) := by
    rw [ht.others k hne]
    simp only [Function.update_of_ne hne]
    exact hq
  obtain ⟨u, f, hu, hf, hc⟩ := unquiet_closes hloop (ht.lock.trans hl) ht.webServer hk hq'
  exact ⟨u, f, ht.run.trans hu, hf, hc⟩

theorem late_loop_reports {s : State} {k : ℕ} (hc : (s.server k).closed = true) :
    ∃ t f, Execution system (next s (.act k .enterLoop)) t ∧ Enabled t f ∧
      ReportsAfterClose t f := by
  have hrun : ((next s (.act k .enterLoop)).server k).run = .checking := by
    rw [next_act]
    rfl
  obtain ⟨t, ht, hloop, hfail⟩ := canFail_checking rfl hrun
  refine ⟨t, .act k .catchIOException, ht.run, hfail, hloop, ?_⟩
  rw [ht.closed, next_act, act_closed]
  exact hc

/-- In runs whose steps are all orderly, no server reports from its catch clause after its
close() and no error of a server closes a later one; any other step can be followed by one
that does. -/
theorem old_servers_stay_silent (s : State) (e : Event) :
    (ReachableWhere system Orderly s → system.Enabled s e →
      ¬ ReportsAfterClose s e ∧ ¬ ClosesSuccessor s e) ∧
    (system.Enabled s e → ¬ Orderly s e →
      ∃ t f, Execution system (next s e) t ∧ system.Enabled t f ∧
        (ReportsAfterClose t f ∨ ClosesSuccessor t f)) := by
  constructor
  · intro h he
    have hs := reachable_settled h
    exact ⟨hs.silent_after_close he, hs.spares_successor (reachable_known h.reachable) he⟩
  · intro he ho
    cases e with
    | opener =>
      obtain ⟨t, f, ht, hf, hc⟩ := early_open_closes he.2 ho
      exact ⟨t, f, ht, hf, Or.inr hc⟩
    | act k a =>
      cases a with
      | enterLoop =>
        obtain ⟨t, f, ht, hf, hr⟩ := late_loop_reports (Bool.not_eq_false _ ▸ ho)
        exact ⟨t, f, ht, hf, Or.inl hr⟩
      | _ => exact absurd trivial ho
    | _ => exact absurd trivial ho

/-- A worker of server 0 finds its template missing; the server that replaces it sets isLoop
before the accept loop of server 0 has looked at it. -/
def replaced : List Event :=
  [.onStartCommand, .opener, .act 0 (.isLocalPortInUse false), .act 0 (.newServerSocket true),
    .act 0 (.setReuseAddress true), .act 0 .enterLoop, .act 0 .checkLoop, .act 0 (.accept true),
    .act 0 (.dispatch true), .act 0 .checkLoop, .act 0 (.workerCheck 0 true),
    .act 0 (.handleRequest 0 .templateMissing), .closeBegin (.thread 0 (.worker 0)),
    .closeEnd (.thread 0 (.worker 0)), .countError (.thread 0 (.worker 0)),
    .resume (.thread 0 (.worker 0)), .opener, .act 1 (.isLocalPortInUse false),
    .act 1 (.newServerSocket true), .act 1 (.setReuseAddress true), .act 1 .enterLoop,
    .act 0 (.accept false)]

theorem old_server_closes_successor :
    (¬ ∀ s, Reachable system s → ∀ e, system.Enabled s e → ¬ ReportsAfterClose s e) ∧
    ¬ ∀ s, Reachable system s → ∀ e, system.Enabled s e → ¬ ClosesSuccessor s e := by
  constructor
  · intro h
    have hv : ValidTrace system Unrestricted initial replaced := by decide +kernel
    exact h _ (validTrace_reachable rfl hv) (.act 0 .catchIOException) (by decide +kernel)
      (by decide +kernel)
  · intro h
    have hv : ValidTrace system Unrestricted initial
        (replaced ++ [.act 0 .catchIOException]) := by decide +kernel
    exact h _ (validTrace_reachable rfl hv) (.closeBegin (.thread 0 .run)) (by decide +kernel)
      (by decide +kernel)

/-- The accept loop of server 0 has ended before its successor is created. -/
def replacedInTurn : List Event :=
  replaced.take 16 ++ [.act 0 (.accept false), .act 0 .catchIOException, .act 0 .finish, .opener,
    .act 1 (.isLocalPortInUse false), .act 1 (.newServerSocket true),
    .act 1 (.setReuseAddress true), .act 1 .enterLoop, .act 1 .checkLoop, .act 1 (.accept false)]

theorem old_servers_stay_silent_in_turn :
    (¬ ReportsAfterClose (runTrace system initial replacedInTurn) (.act 1 .catchIOException) ∧
      ¬ ClosesSuccessor (runTrace system initial replacedInTurn) (.act 1 .catchIOException)) ∧
    ∃ t f, Execution system (next (runTrace system initial (replaced.take 16)) .opener) t ∧
      system.Enabled t f ∧ (ReportsAfterClose t f ∨ ClosesSuccessor t f) := by
  constructor
  · exact (old_servers_stay_silent _ _).1 (validTrace_reachable rfl (by decide +kernel))
      (by decide +kernel)
  · exact (old_servers_stay_silent (runTrace system initial (replaced.take 16)) .opener).2
      (by decide +kernel) (by decide +kernel)

end WebServerLifecycle
