import AndroidDebug.TransitionSystem
import Mathlib.Logic.Function.Basic
import Mathlib.Algebra.Ring.Int.Defs
import Mathlib.Data.List.Basic
import Mathlib.Tactic.Common

/-! The terminal's sockets. ser_fd and conn are one for the process, while every open request
that gets a port starts a WebSocketThread of its own. `session` records which descriptors were
made for each thread, `openFds` and `listening` which exist; the code has neither. -/
namespace WebSocketSessions

open TransitionSystem

def ERROR_FD : ℤ := -999
def ERROR_PORT : ℤ := -999
def default_port : ℤ := 11000

/-- The thread reads ser_fd when it calls accept. -/
inductive Stage where
  | absent | created | accepting (fd : ℤ) | running | ended
  deriving DecidableEq, Repr

structure Session where
  stage : Stage := .absent
  listening : ℤ := ERROR_FD
  connection : ℤ := ERROR_FD
  deriving DecidableEq, Repr

structure State where
  ser_fd : ℤ
  conn : ℤ
  nextFd : ℕ
  openFds : List ℤ
  listening : List ℤ
  started : ℕ
  session : ℕ → Session

def initial : State := ⟨ERROR_FD, ERROR_FD, 0, [], [], 0, fun _ => {}⟩

/-- How far socket and passive_server get; bind is tried until a port is free. -/
inductive Outcome where
  | socketFails | setsockoptFails | listenFails | listening (port : ℕ)
  deriving DecidableEq, Repr

/-- A descriptor that cannot be set up is closed again, and one that cannot listen still has
the default port returned for it. -/
def passive_server (s : State) : Outcome → State × ℤ
  | .socketFails => ({ s with ser_fd := -1 }, ERROR_PORT)
  | .setsockoptFails => ({ s with ser_fd := s.nextFd, nextFd := s.nextFd + 1 }, ERROR_PORT)
  | .listenFails => ({ s with ser_fd := s.nextFd, nextFd := s.nextFd + 1 }, default_port)
  | .listening port =>
    ({ s with ser_fd := s.nextFd
              nextFd := s.nextFd + 1
              openFds := (s.nextFd : ℤ) :: s.openFds
              listening := (s.nextFd : ℤ) :: s.listening }, port)

def startThread (s : State) : State :=
  { s with session := Function.update s.session s.started
             { stage := .created, listening := s.ser_fd }
           started := s.started + 1 }

def openTerminalResponse (s : State) (o : Outcome) : State :=
  let (t, port) := passive_server s o
  if port = ERROR_PORT then t else startThread t

def setStage (s : State) (k : ℕ) (x : Stage) : State :=
  { s with session := Function.update s.session k { s.session k with stage := x } }

/-- `conn` becomes a fresh descriptor or -1. -/
def acceptReturn (s : State) (k : ℕ) (ok : Bool) : State :=
  let fd : ℤ := if ok then s.nextFd else -1
  { s with conn := fd
           nextFd := if ok then s.nextFd + 1 else s.nextFd
           openFds := if ok then fd :: s.openFds else s.openFds
           session := Function.update s.session k
             { s.session k with stage := .running, connection := fd } }

/-- The descriptors that the end of TermWebSocket_run closes. -/
def closes (s : State) : List ℤ :=
  (if s.conn = ERROR_FD then [] else [s.conn]) ++ (if s.ser_fd = ERROR_FD then [] else [s.ser_fd])

def runEnd (s : State) (k : ℕ) : State :=
  { setStage s k .ended with
    conn := ERROR_FD
    ser_fd := ERROR_FD
    openFds := s.openFds.filter fun fd => fd ∉ closes s }

inductive Event where
  | openTerminal (o : Outcome)
  | acceptCall (k : ℕ)
  | acceptReturn (k : ℕ) (ok : Bool)
  | runEnd (k : ℕ)
  deriving DecidableEq, Repr

def Stage.isAccepting : Stage → Bool
  | .accepting _ => true
  | _ => false

def Enabled (s : State) : Event → Prop
  | .openTerminal _ => True
  | .acceptCall k => (s.session k).stage = .created
  | .acceptReturn k _ => (s.session k).stage.isAccepting = true
  | .runEnd k => (s.session k).stage = .running

instance (s : State) : ∀ e, Decidable (Enabled s e)
  | .openTerminal _ => isTrue trivial
  | .acceptCall _ => inferInstanceAs (Decidable (_ = _))
  | .acceptReturn .. => inferInstanceAs (Decidable (_ = _))
  | .runEnd _ => inferInstanceAs (Decidable (_ = _))

def next (s : State) : Event → State
  | .openTerminal o => openTerminalResponse s o
  | .acceptCall k => setStage s k (.accepting s.ser_fd)
  | .acceptReturn k ok => acceptReturn s k ok
  | .runEnd k => runEnd s k

def system : System State Event where
  initial s := s = initial
  Enabled := Enabled
  next := next

instance (s : State) (e : Event) : Decidable (system.Enabled s e) :=
  inferInstanceAs (Decidable (Enabled s e))

/-- The thread has still to end its run. -/
def Stage.live : Stage → Bool
  | .absent | .ended => false
  | _ => true

/-- The end of the session's run closes its own two descriptors. -/
def ClosesOwn (s : State) (k : ℕ) : Prop :=
  closes s = [(s.session k).connection, (s.session k).listening]

instance (s : State) (k : ℕ) : Decidable (ClosesOwn s k) :=
  inferInstanceAs (Decidable (_ = _))

/-- Every open listening socket is referenced by ser_fd or belongs to a thread that has
still to end. -/
def NoneLeaked (s : State) : Prop :=
  ∀ fd ∈ s.listening, fd ∈ s.openFds →
    s.ser_fd = fd ∨ ∃ k, (s.session k).stage.live = true ∧ (s.session k).listening = fd

/-- A request for a socket comes only when every earlier session has ended. -/
def OpensAlone (s : State) : Event → Prop
  | .openTerminal _ => ∀ k < s.started, (s.session k).stage.live = false
  | _ => True

instance (s : State) : ∀ e, Decidable (OpensAlone s e)
  | .openTerminal _ => inferInstanceAs (Decidable (∀ k < s.started, _))
  | .acceptCall _ | .acceptReturn .. | .runEnd _ => isTrue trivial

/-! What holds of the descriptors in every run. -/

/-- The descriptors handed out so far are the numbers below `nextFd`. -/
structure Known (s : State) : Prop where
  listening : ∀ fd ∈ s.listening, 0 ≤ fd ∧ fd < s.nextFd
  own : ∀ k, (s.session k).stage.live = true →
    0 ≤ (s.session k).listening ∧ (s.session k).listening < s.nextFd
  started : ∀ k, (s.session k).stage.live = true → k < s.started

theorem known_initial : Known initial := by
  constructor <;> simp [initial, Stage.live]

/-- No port is mistaken for the error code. -/
theorem openTerminal_listening (s : State) (port : ℕ) :
    openTerminalResponse s (.listening port) =
      startThread (passive_server s (.listening port)).1 := by
  have hport : (port : ℤ) ≠ ERROR_PORT := by
    unfold ERROR_PORT
    omega
  simp only [openTerminalResponse, passive_server]
  exact if_neg hport

/-- An open request is refused, and changes no table, or makes one descriptor and one thread. -/
theorem openTerminal_cases (s : State) (o : Outcome) :
    ((openTerminalResponse s o).session = s.session ∧
      (openTerminalResponse s o).started = s.started ∧
      (openTerminalResponse s o).listening = s.listening ∧
      (openTerminalResponse s o).openFds = s.openFds) ∨
    ((openTerminalResponse s o).session =
        Function.update s.session s.started { stage := .created, listening := s.nextFd } ∧
      (openTerminalResponse s o).started = s.started + 1 ∧
      (openTerminalResponse s o).nextFd = s.nextFd + 1 ∧
      (openTerminalResponse s o).ser_fd = s.nextFd ∧
      ∀ fd ∈ (openTerminalResponse s o).listening, fd ∈ (openTerminalResponse s o).openFds →
        fd = s.nextFd ∨ fd ∈ s.listening ∧ fd ∈ s.openFds) := by
  cases o with
  | socketFails => exact Or.inl ⟨rfl, rfl, rfl, rfl⟩
  | setsockoptFails => exact Or.inl ⟨rfl, rfl, rfl, rfl⟩
  | listenFails => exact Or.inr ⟨rfl, rfl, rfl, rfl, fun fd hl ho => Or.inr ⟨hl, ho⟩⟩
  | listening port =>
    right
    rw [openTerminal_listening]
    refine ⟨rfl, rfl, rfl, rfl, ?_⟩
    intro fd hl ho
    rcases List.mem_cons.mp hl with rfl | hl
    · exact Or.inl rfl
    · rcases List.mem_cons.mp ho with rfl | ho
      · exact Or.inl rfl
      · exact Or.inr ⟨hl, ho⟩

theorem openTerminal_ser_fd (s : State) (o : Outcome) :
    (openTerminalResponse s o).ser_fd = s.nextFd ∨ (openTerminalResponse s o).ser_fd = -1 := by
  cases o with
  | socketFails => exact Or.inr rfl
  | setsockoptFails => exact Or.inl rfl
  | listenFails => exact Or.inl rfl
  | listening port =>
    left
    rw [openTerminal_listening]
    rfl

theorem openTerminal_nextFd (s : State) (o : Outcome) :
    s.nextFd ≤ (openTerminalResponse s o).nextFd ∧
      ∀ fd ∈ (openTerminalResponse s o).listening, fd ∈ s.listening ∨
        fd = s.nextFd ∧ (openTerminalResponse s o).nextFd = s.nextFd + 1 := by
  cases o with
  | socketFails => exact ⟨Nat.le_refl _, fun fd h => Or.inl h⟩
  | setsockoptFails => exact ⟨Nat.le_succ _, fun fd h => Or.inl h⟩
  | listenFails => exact ⟨Nat.le_succ _, fun fd h => Or.inl h⟩
  | listening port =>
    rw [openTerminal_listening]
    refine ⟨Nat.le_succ _, fun fd h => ?_⟩
    rcases List.mem_cons.mp h with rfl | h
    · exact Or.inr ⟨rfl, rfl⟩
    · exact Or.inl h

theorem Known.openTerminal {s : State} (h : Known s) (o : Outcome) :
    Known (openTerminalResponse s o) := by
  obtain ⟨hle, hlist⟩ := openTerminal_nextFd s o
  have hlistening : ∀ fd ∈ (openTerminalResponse s o).listening,
      0 ≤ fd ∧ fd < (openTerminalResponse s o).nextFd := by
    intro fd hfd
    rcases hlist fd hfd with hold | ⟨rfl, hn⟩
    · have := h.listening fd hold
      omega
    · omega
  rcases openTerminal_cases s o with ⟨hsession, hstarted, -, -⟩ | ⟨hsession, hstarted, hn, -, -⟩
  · refine ⟨hlistening, ?_, ?_⟩
    · intro k hk
      rw [hsession] at hk ⊢
      have := h.own k hk
      omega
    · intro k hk
      rw [hsession] at hk
      rw [hstarted]
      exact h.started k hk
  · refine ⟨hlistening, ?_, ?_⟩
    · intro k hk
      rw [hsession] at hk ⊢
      by_cases hks : k = s.started
      · subst hks
        simp only [Function.update_self]
        omega
      · rw [Function.update_of_ne hks] at hk ⊢
        have := h.own k hk
        omega
    · intro k hk
      rw [hsession] at hk
      rw [hstarted]
      by_cases hks : k = s.started
      · exact hks ▸ Nat.lt_succ_self _
      · rw [Function.update_of_ne hks] at hk
        exact Nat.lt_succ_of_lt (h.started k hk)

/-- A step of a thread: its own session goes on, the others are left, and no listening socket
is made. -/
theorem session_step {s : State} {e : Event} (he : Enabled s e)
    (hopen : ∀ o, e ≠ .openTerminal o) :
    (next s e).started = s.started ∧ (next s e).listening = s.listening ∧
      s.nextFd ≤ (next s e).nextFd ∧
      ∀ k, ((next s e).session k).listening = (s.session k).listening ∧
        (((next s e).session k).stage.live = true → (s.session k).stage.live = true) := by
  have hkeep : ∀ (j : ℕ) (x : Session), x.listening = (s.session j).listening →
      (s.session j).stage.live = true → ∀ k,
      (Function.update s.session j x k).listening = (s.session k).listening ∧
        ((Function.update s.session j x k).stage.live = true →
          (s.session k).stage.live = true) := by
    intro j x hx hj k
    by_cases hkj : k = j
    · subst hkj
      simp [hx, hj]
    · simp [hkj]
  cases e with
  | openTerminal o => exact absurd rfl (hopen o)
  | acceptCall j =>
    have hj : (s.session j).stage = .created := he
    exact ⟨rfl, rfl, Nat.le_refl _, hkeep j _ rfl (by rw [hj]; rfl)⟩
  | acceptReturn j ok =>
    have hj : (s.session j).stage.live = true := by
      have hacc : (s.session j).stage.isAccepting = true := he
      cases hs : (s.session j).stage with
      | accepting fd => rfl
      | absent | created | running | ended => rw [hs] at hacc; cases hacc
    refine ⟨rfl, rfl, ?_, hkeep j _ rfl hj⟩
    cases ok
    · exact Nat.le_refl _
    · exact Nat.le_succ _
  | runEnd j =>
    have hj : (s.session j).stage = .running := he
    exact ⟨rfl, rfl, Nat.le_refl _, hkeep j _ rfl (by rw [hj]; rfl)⟩

theorem known_step {s : State} (h : Known s) {e : Event} (he : Enabled s e) :
    Known (next s e) := by
  by_cases hopen : ∃ o, e = .openTerminal o
  · obtain ⟨o, rfl⟩ := hopen
    exact h.openTerminal o
  · obtain ⟨hstarted, hlistening, hle, hsession⟩ :=
      session_step he fun o ho => hopen ⟨o, ho⟩
    refine ⟨?_, ?_, ?_⟩
    · intro fd hfd
      rw [hlistening] at hfd
      have := h.listening fd hfd
      omega
    · intro k hk
      rw [(hsession k).1]
      have := h.own k ((hsession k).2 hk)
      omega
    · intro k hk
      rw [hstarted]
      exact h.started k ((hsession k).2 hk)

theorem reachable_known {s : State} (h : Reachable system s) : Known s := by
  apply Reachable.invariant _ _ h
  · rintro s rfl
    exact known_initial
  · exact fun s e hk he => known_step hk he

/-! Runs in which each request comes alone. -/

/-- Only the last session can be live; ser_fd and conn are its own, and so is every listening
socket that is open. -/
structure Solo (s : State) : Prop where
  last : ∀ k, (s.session k).stage.live = true →
    s.started = k + 1 ∧ s.ser_fd = (s.session k).listening
  connected : ∀ k, (s.session k).stage = .running →
    s.conn = (s.session k).connection ∧ s.conn ≠ ERROR_FD
  accounted : ∀ fd ∈ s.listening, fd ∈ s.openFds →
    ∃ k, (s.session k).stage.live = true ∧ (s.session k).listening = fd

theorem Solo.unique {s : State} (h : Solo s) {j k : ℕ} (hj : (s.session j).stage.live = true)
    (hk : (s.session k).stage.live = true) : j = k := by
  have := (h.last j hj).1
  have := (h.last k hk).1
  omega

theorem live_of_running {x : Session} (h : x.stage = .running) : x.stage.live = true := by
  rw [h]
  rfl

theorem not_error_fd {fd : ℤ} (h : -1 ≤ fd) : fd ≠ ERROR_FD := by
  unfold ERROR_FD
  omega

theorem Solo.closesOwn {s : State} (h : Solo s) (hk : Known s) {k : ℕ}
    (hrun : (s.session k).stage = .running) : ClosesOwn s k := by
  obtain ⟨hconn, hne⟩ := h.connected k hrun
  have hlive := live_of_running hrun
  have hser := (h.last k hlive).2
  have hown := (hk.own k hlive).1
  have hne' : s.ser_fd ≠ ERROR_FD := not_error_fd (by omega)
  rw [ClosesOwn, closes, if_neg hne, if_neg hne', hconn, hser]
  rfl

theorem Solo.noneLeaked {s : State} (h : Solo s) : NoneLeaked s := by
  intro fd hl ho
  obtain ⟨k, hk, rfl⟩ := h.accounted fd hl ho
  exact Or.inl (h.last k hk).2

theorem Solo.openTerminal {s : State} (h : Solo s) (hk : Known s)
    (ha : ∀ k < s.started, (s.session k).stage.live = false) (o : Outcome) :
    Solo (openTerminalResponse s o) := by
  have hnone : ∀ k, (s.session k).stage.live ≠ true := by
    intro k hlive
    rw [ha k (hk.started k hlive)] at hlive
    cases hlive
  have hold : ∀ fd ∈ s.listening, fd ∉ s.openFds := by
    intro fd hl ho
    obtain ⟨k, hlive, -⟩ := h.accounted fd hl ho
    exact hnone k hlive
  rcases openTerminal_cases s o with
    ⟨hsession, -, hl, ho⟩ | ⟨hsession, hstarted, -, hser, hopen⟩
  · refine ⟨?_, ?_, ?_⟩
    · intro k hlive
      exact absurd (hsession ▸ hlive) (hnone k)
    · intro k hrun
      exact absurd (hsession ▸ live_of_running hrun) (hnone k)
    · intro fd hfd hfo
      exact absurd (ho ▸ hfo) (hold fd (hl ▸ hfd))
  · have hother : ∀ k, k ≠ s.started →
        ((openTerminalResponse s o).session k).stage.live ≠ true := by
      intro k hks
      rw [hsession, Function.update_of_ne hks]
      exact hnone k
    have hnew : (openTerminalResponse s o).session s.started =
        { stage := .created, listening := s.nextFd } := by
      rw [hsession, Function.update_self]
    refine ⟨?_, ?_, ?_⟩
    · intro k hlive
      by_cases hks : k = s.started
      · subst hks
        rw [hnew]
        exact ⟨hstarted, hser⟩
      · exact absurd hlive (hother k hks)
    · intro k hrun
      by_cases hks : k = s.started
      · subst hks
        rw [hnew] at hrun
        cases hrun
      · exact absurd (live_of_running hrun) (hother k hks)
    · intro fd hfd hfo
      rcases hopen fd hfd hfo with rfl | ⟨hl, ho⟩
      · exact ⟨s.started, by rw [hnew]; rfl, by rw [hnew]⟩
      · exact absurd ho (hold fd hl)

theorem Solo.acceptCall {s : State} (h : Solo s) {k : ℕ} (he : Enabled s (.acceptCall k)) :
    Solo (next s (.acceptCall k)) := by
  obtain ⟨hstarted, -, -, hsession⟩ := session_step he (by simp)
  have hcreated : (s.session k).stage = .created := he
  have hlive : (s.session k).stage.live = true := by rw [hcreated]; rfl
  refine ⟨?_, ?_, ?_⟩
  · intro j hj
    rw [(hsession j).1, hstarted]
    exact h.last j ((hsession j).2 hj)
  · intro j hj
    by_cases hjk : j = k
    · subst hjk
      simp [next, setStage] at hj
    · simp only [next, setStage, Function.update_of_ne hjk] at hj ⊢
      exact h.connected j hj
  · intro fd hl ho
    obtain ⟨j, hj, hfd⟩ := h.accounted fd hl ho
    obtain rfl := h.unique hj hlive
    exact ⟨j, by simp [next, setStage, Stage.live], (hsession j).1.trans hfd⟩

theorem Solo.acceptReturn {s : State} (h : Solo s) (hn : Known s) {k : ℕ} {ok : Bool}
    (he : Enabled s (.acceptReturn k ok)) : Solo (next s (.acceptReturn k ok)) := by
  obtain ⟨hstarted, -, -, hsession⟩ := session_step he (by simp)
  have hlive : (s.session k).stage.live = true := by
    apply (hsession k).2
    simp [next, WebSocketSessions.acceptReturn, Stage.live]
  refine ⟨?_, ?_, ?_⟩
  · intro j hj
    rw [(hsession j).1, hstarted]
    exact h.last j ((hsession j).2 hj)
  · intro j hj
    obtain rfl := h.unique ((hsession j).2 (live_of_running hj)) hlive
    have hne : (if ok = true then (s.nextFd : ℤ) else -1) ≠ ERROR_FD := by
      apply not_error_fd
      split <;> omega
    exact ⟨by simp [next, WebSocketSessions.acceptReturn], hne⟩
  · intro fd hl ho
    have hold : fd ∈ s.openFds := by
      cases ok with
      | false => exact ho
      | true =>
        rcases List.mem_cons.mp ho with rfl | ho
        · have := hn.listening _ hl
          simp only [ite_true] at this
          omega
        · exact ho
    obtain ⟨j, hj, hfd⟩ := h.accounted fd hl hold
    obtain rfl := h.unique hj hlive
    exact ⟨j, by simp [next, WebSocketSessions.acceptReturn, Stage.live],
      (hsession j).1.trans hfd⟩

theorem Solo.runEnd {s : State} (h : Solo s) (hn : Known s) {k : ℕ}
    (he : Enabled s (.runEnd k)) : Solo (next s (.runEnd k)) := by
  obtain ⟨-, -, -, hsession⟩ := session_step he (by simp)
  have hrun : (s.session k).stage = .running := he
  have hnone : ∀ j, ((next s (.runEnd k)).session j).stage.live ≠ true := by
    intro j hj
    obtain rfl := h.unique ((hsession j).2 hj) (live_of_running hrun)
    simp [next, WebSocketSessions.runEnd, setStage, Stage.live] at hj
  refine ⟨fun j hj => absurd hj (hnone j),
    fun j hj => absurd (live_of_running hj) (hnone j), ?_⟩
  intro fd hl ho
  -- the one live session's listening socket is among the descriptors just closed
  obtain ⟨hopen, hkept⟩ := List.mem_filter.mp ho
  obtain ⟨j, hj, rfl⟩ := h.accounted fd hl hopen
  obtain rfl := h.unique hj (live_of_running hrun)
  have hcloses : closes s = _ := h.closesOwn hn hrun
  simp [hcloses] at hkept

theorem reachable_solo {s : State} (h : ReachableWhere system OpensAlone s) : Solo s := by
  apply ReachableWhere.invariant_with (fun s hs => reachable_known hs) _ _ h
  · rintro s rfl
    constructor <;> simp [initial, Stage.live]
  · intro s e hk hs he ha
    cases e with
    | openTerminal o => exact hs.openTerminal hk ha o
    | acceptCall k => exact hs.acceptCall he
    | acceptReturn k ok => exact hs.acceptReturn hk he
    | runEnd k => exact hs.runEnd hk he

/-! A request that does not come alone. -/

theorem not_closesOwn {s : State} {k : ℕ} (hser : s.ser_fd ≠ ERROR_FD)
    (hne : s.ser_fd ≠ (s.session k).listening) : ¬ ClosesOwn s k := by
  intro h
  rw [ClosesOwn, closes, if_neg hser] at h
  by_cases hconn : s.conn = ERROR_FD
  · simp [hconn] at h
  · rw [if_neg hconn] at h
    have hlist : s.conn = (s.session k).connection ∧ s.ser_fd = (s.session k).listening := by
      simpa using h
    exact hne hlist.2

/-- A live thread can go on to the end of its run with ser_fd and its socket as they are. -/
theorem live_ends {s : State} {k : ℕ} (hk : (s.session k).stage.live = true) :
    ∃ t, Execution system s t ∧ Enabled t (.runEnd k) ∧ t.ser_fd = s.ser_fd ∧
      (t.session k).listening = (s.session k).listening := by
  have haccepting : ∀ u : State, (u.session k).stage.isAccepting = true →
      ∃ t, Execution system u t ∧ Enabled t (.runEnd k) ∧ t.ser_fd = u.ser_fd ∧
        (t.session k).listening = (u.session k).listening := by
    intro u hu
    refine ⟨next u (.acceptReturn k true),
      .one (M := system) (e := .acceptReturn k true) hu trivial, ?_, rfl, ?_⟩
    · simp [Enabled, next, acceptReturn]
    · simp [next, acceptReturn]
  cases hs : (s.session k).stage with
  | absent => simp [hs, Stage.live] at hk
  | ended => simp [hs, Stage.live] at hk
  | running => exact ⟨s, .refl s, hs, rfl, rfl⟩
  | accepting fd => exact haccepting s (by rw [hs]; rfl)
  | created =>
    obtain ⟨t, ht, hend, hser, hlist⟩ := haccepting (next s (.acceptCall k))
      (by simp [next, setStage, Stage.isAccepting])
    refine ⟨t, .head (e := .acceptCall k) hs trivial ht, hend, hser, hlist.trans ?_⟩
    simp [next, setStage]

theorem early_request_misdirects {s : State} (hn : Known s) {o : Outcome}
    (ha : ¬ OpensAlone s (.openTerminal o)) :
    ∃ t k, Execution system (next s (.openTerminal o)) t ∧ Enabled t (.runEnd k) ∧
      ¬ ClosesOwn t k := by
  simp only [OpensAlone, not_forall, Bool.not_eq_false] at ha
  obtain ⟨k, hlt, hlive⟩ := ha
  have hsame : (next s (.openTerminal o)).session k = s.session k := by
    rcases openTerminal_cases s o with ⟨hsession, -⟩ | ⟨hsession, -⟩
    · exact congrFun hsession k
    · exact (congrFun hsession k).trans (Function.update_of_ne (Nat.ne_of_lt hlt) _ _)
  obtain ⟨t, ht, hend, hser, hlist⟩ := live_ends (s := next s (.openTerminal o)) (k := k)
    (by rw [hsame]; exact hlive)
  have hown := hn.own k hlive
  have hfd : t.ser_fd = s.nextFd ∨ t.ser_fd = -1 := by
    rw [hser]
    exact openTerminal_ser_fd s o
  refine ⟨t, k, ht, hend, not_closesOwn (not_error_fd ?_) ?_⟩
  · rcases hfd with h | h <;> omega
  · rw [hlist, hsame]
    rcases hfd with h | h <;> omega

/-- In runs whose requests come alone, a session ends by closing its own two descriptors and
no listening socket is leaked; any other request can be followed by the end of a session that
closes something else. -/
theorem sessions_close_their_own (s : State) :
    (ReachableWhere system OpensAlone s →
      (∀ k, system.Enabled s (.runEnd k) → ClosesOwn s k) ∧ NoneLeaked s) ∧
    (Reachable system s → ∀ o, ¬ OpensAlone s (.openTerminal o) →
      ∃ t k, Execution system (next s (.openTerminal o)) t ∧ system.Enabled t (.runEnd k) ∧
        ¬ ClosesOwn t k) := by
  constructor
  · intro h
    have hs := reachable_solo h
    have hn := reachable_known h.reachable
    exact ⟨fun k hk => hs.closesOwn hn hk, hs.noneLeaked⟩
  · exact fun h o ha => early_request_misdirects (reachable_known h) ha

/-- Two terminals opened one after the other while the first still waits for its browser. -/
def twoTerminals : List Event :=
  [.openTerminal (.listening 11001), .acceptCall 0, .openTerminal (.listening 11002),
    .acceptCall 1, .acceptReturn 0 true, .acceptReturn 1 true]

theorem sessions_close_each_other :
    (¬ ∀ s, Reachable system s → ∀ k, system.Enabled s (.runEnd k) → ClosesOwn s k) ∧
    ¬ ∀ s, Reachable system s → NoneLeaked s := by
  constructor
  · intro h
    have hv : ValidTrace system Unrestricted initial twoTerminals := by decide +kernel
    exact absurd (h _ (validTrace_reachable rfl hv) 0 (by decide +kernel)) (by decide +kernel)
  · intro h
    have hv : ValidTrace system Unrestricted initial
        (twoTerminals ++ [.runEnd 0, .runEnd 1]) := by decide +kernel
    rcases h _ (validTrace_reachable rfl hv) 0 (by decide +kernel) (by decide +kernel) with
      hser | ⟨k, hlive, hfd⟩
    · exact absurd hser (by decide +kernel)
    · have hlt := (reachable_known (validTrace_reachable rfl hv)).started k hlive
      have hstarted : (runTrace system initial (twoTerminals ++ [.runEnd 0, .runEnd 1])).started
          = 2 := by decide +kernel
      rw [hstarted] at hlt
      have hdead : ∀ j < 2, ((runTrace system initial
          (twoTerminals ++ [.runEnd 0, .runEnd 1])).session j).stage.live = false := by
        decide +kernel
      rw [hdead k hlt] at hlive
      cases hlive

/-- The second terminal is opened after the first has ended. -/
def oneAfterTheOther : List Event :=
  [.openTerminal (.listening 11001), .acceptCall 0, .acceptReturn 0 true, .runEnd 0,
    .openTerminal (.listening 11002), .acceptCall 1, .acceptReturn 1 true]

theorem sessions_close_their_own_in_turn :
    ((∀ k, system.Enabled (runTrace system initial oneAfterTheOther) (.runEnd k) →
        ClosesOwn (runTrace system initial oneAfterTheOther) k) ∧
      NoneLeaked (runTrace system initial oneAfterTheOther)) ∧
    ∃ t k, Execution system
        (next (runTrace system initial (twoTerminals.take 2)) (.openTerminal .socketFails)) t ∧
      system.Enabled t (.runEnd k) ∧ ¬ ClosesOwn t k := by
  constructor
  · exact (sessions_close_their_own _).1 (validTrace_reachable rfl (by decide +kernel))
  · exact (sessions_close_their_own (runTrace system initial (twoTerminals.take 2))).2
      (validTrace_reachable rfl (by decide +kernel)) .socketFails (by decide +kernel)

end WebSocketSessions
