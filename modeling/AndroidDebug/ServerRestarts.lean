import AndroidDebug.WebServerLifecycle
import Mathlib.Data.List.Induction

/-! The restarts of the web server by onError, one callback after the other, with the firings of
the reset timer and the threads that open the server in any order between them. -/
namespace ServerRestarts

open TransitionSystem
open WebServerLifecycle (RESUME_COUNT)

/-- `openers` counts the threads of openWebServer that have still to run. -/
structure Service where
  errCount : ℕ
  resetTask : Bool
  openers : ℕ
  webServer : Bool
  deriving DecidableEq, Repr

inductive Event where
  | onError
  | resetTask
  | opener
  deriving DecidableEq, Repr

def openWebServer (s : Service) : Service := { s with openers := s.openers + 1 }

def closeWebServer (s : Service) : Service := { s with webServer := false }

def cancelResetTask (s : Service) : Service := { s with resetTask := false }

def restartResetTask (s : Service) : Service := { cancelResetTask s with resetTask := true }

def onError (s : Service) : Service :=
  let s := closeWebServer s
  let s := restartResetTask { s with errCount := s.errCount + 1 }
  if s.errCount ≤ RESUME_COUNT then openWebServer s
  else cancelResetTask { s with errCount := 0 }

/-- After onStartCommand on a new service. -/
def started : Service := openWebServer ⟨0, false, 0, false⟩

def Enabled (s : Service) : Event → Prop
  | .onError => True
  | .resetTask => s.resetTask = true
  | .opener => 0 < s.openers

instance (s : Service) : ∀ e, Decidable (Enabled s e)
  | .onError => isTrue trivial
  | .resetTask => inferInstanceAs (Decidable (_ = _))
  | .opener => inferInstanceAs (Decidable (_ < _))

def next (s : Service) : Event → Service
  | .onError => onError s
  | .resetTask => { s with errCount := 0, resetTask := false }
  | .opener => { s with openers := s.openers - 1, webServer := true }

def system : System Service Event where
  initial s := s = started
  Enabled := Enabled
  next := next

instance (s : Service) (e : Event) : Decidable (system.Enabled s e) :=
  inferInstanceAs (Decidable (Enabled s e))

abbrev run (es : List Event) : Service := runTrace system started es

def opens (s : Service) : List Event → ℕ
  | [] => 0
  | .onError :: es => (if s.errCount + 1 ≤ RESUME_COUNT then 1 else 0) + opens (next s .onError) es
  | e :: es => opens (next s e) es

/-- At most three restarts without a firing of the timer, and no server after an error that
follows three of them. -/
structure Bounded (es : List Event) : Prop where
  restarts : ∀ before between after, es = before ++ between ++ after → .resetTask ∉ between →
    opens (run before) between ≤ RESUME_COUNT
  down : ∀ before between after later, es = before ++ between ++ .onError :: (after ++ later) →
    .resetTask ∉ between → RESUME_COUNT ≤ opens (run before) between →
      (run (before ++ between ++ .onError :: after)).webServer = false

/-- The errors since the timer last fired. -/
def errors : List Event → ℕ :=
  List.foldl (fun n e => match e with
    | .onError => n + 1
    | .resetTask => 0
    | .opener => n) 0

/-! What one event does. -/

variable {s : Service} {es : List Event}

theorem onError_retries (h : s.errCount < RESUME_COUNT) :
    onError s = ⟨s.errCount + 1, true, s.openers + 1, false⟩ := by
  simp [onError, closeWebServer, restartResetTask, cancelResetTask, openWebServer,
    Nat.succ_le_of_lt h]

theorem onError_gives_up (h : RESUME_COUNT ≤ s.errCount) :
    onError s = ⟨0, false, s.openers, false⟩ := by
  have hnot : ¬s.errCount + 1 ≤ RESUME_COUNT := by omega
  simp [onError, closeWebServer, restartResetTask, cancelResetTask, hnot]

theorem errors_concat (e : Event) : errors (es ++ [e]) = match e with
    | .onError => errors es + 1
    | .resetTask => 0
    | .opener => errors es := by
  rw [errors, List.foldl_append]
  cases e <;> rfl

theorem run_concat (e : Event) : run (es ++ [e]) = next (run es) e :=
  runTrace_append system started es [e]

theorem opens_append (a b : List Event) :
    opens s (a ++ b) = opens s a + opens (runTrace system s a) b := by
  induction a generalizing s with
  | nil => exact (Nat.zero_add _).symm
  | cons e a ih =>
    cases e with
    | onError =>
      simp only [List.cons_append, opens, ih, Nat.add_assoc]
      rfl
    | resetTask => exact ih
    | opener => exact ih

theorem opens_concat (before between : List Event) (e : Event) :
    opens (run before) (between ++ [e]) = opens (run before) between +
      if e = .onError ∧ (run (before ++ between)).errCount < RESUME_COUNT then 1 else 0 := by
  rw [opens_append, ← runTrace_append]
  cases e with
  | onError =>
    simp only [opens, Nat.add_zero, Nat.add_one_le_iff, true_and]
  | resetTask => simp [opens]
  | opener => simp [opens]

theorem errCount_le (es : List Event) : (run es).errCount ≤ RESUME_COUNT := by
  induction es using List.reverseRecOn with
  | nil => exact Nat.zero_le _
  | append_singleton es e ih =>
    rw [run_concat]
    cases e with
    | onError =>
      rcases Nat.lt_or_ge (run es).errCount RESUME_COUNT with hlt | hge
      · rw [next, onError_retries hlt]
        exact hlt
      · rw [next, onError_gives_up hge]
        exact Nat.zero_le _
    | resetTask => exact Nat.zero_le _
    | opener => exact ih

/-- The count is the number of restarts since the timer fired or onError gave up. -/
theorem exists_restarts (es : List Event) :
    ∃ before between, es = before ++ between ∧ .resetTask ∉ between ∧
      opens (run before) between = (run es).errCount := by
  induction es using List.reverseRecOn with
  | nil => exact ⟨[], [], rfl, List.not_mem_nil, rfl⟩
  | append_singleton es e ih =>
    obtain ⟨before, between, rfl, hreset, hopens⟩ := ih
    have hfresh : (run (before ++ between ++ [e])).errCount = 0 →
        ∃ before' between', before ++ between ++ [e] = before' ++ between' ∧
          .resetTask ∉ between' ∧
            opens (run before') between' = (run (before ++ between ++ [e])).errCount :=
      fun hzero => ⟨_, [], (List.append_nil _).symm, List.not_mem_nil, hzero.symm⟩
    have hmore := opens_concat before between e
    rw [hopens] at hmore
    cases e with
    | onError =>
      rcases Nat.lt_or_ge (run (before ++ between)).errCount RESUME_COUNT with hlt | hge
      · refine ⟨before, between ++ [.onError], List.append_assoc .., by simp [hreset], ?_⟩
        rw [hmore, if_pos ⟨rfl, hlt⟩, run_concat, next, onError_retries hlt]
      · apply hfresh
        rw [run_concat, next, onError_gives_up hge]
    | resetTask =>
      apply hfresh
      rw [run_concat]
      rfl
    | opener =>
      refine ⟨before, between ++ [.opener], List.append_assoc .., by simp [hreset], ?_⟩
      rw [hmore, run_concat]
      rfl

/-- While onError does not give up and the timer does not fire, each error is a restart. -/
theorem errCount_restarts {before between : List Event} (hreset : .resetTask ∉ between)
    (h : ∀ a c, between = a ++ .onError :: c → (run (before ++ a)).errCount < RESUME_COUNT) :
    (run (before ++ between)).errCount = (run before).errCount + opens (run before) between := by
  induction between using List.reverseRecOn with
  | nil =>
    rw [List.append_nil]
    rfl
  | append_singleton between e ih =>
    have hbefore := ih (fun hmem => hreset (List.mem_append_left _ hmem)) fun a c heq =>
      h a (c ++ [e]) (by rw [heq, List.append_assoc]; rfl)
    rw [← List.append_assoc, run_concat, opens_concat, ← Nat.add_assoc, ← hbefore]
    cases e with
    | onError =>
      have hlt := h between [] rfl
      rw [next, onError_retries hlt, if_pos ⟨rfl, hlt⟩]
    | resetTask => exact absurd (List.mem_append_right _ (List.mem_singleton_self _)) hreset
    | opener => rfl

theorem errCount_eq (h : ∀ a c, es = a ++ .onError :: c → (run a).errCount < RESUME_COUNT) :
    (run es).errCount = errors es := by
  induction es using List.reverseRecOn with
  | nil => rfl
  | append_singleton es e ih =>
    have hbefore := ih fun a c heq => h a (c ++ [e]) (by rw [heq, List.append_assoc]; rfl)
    rw [run_concat, errors_concat]
    cases e with
    | onError =>
      rw [next, onError_retries (h es [] rfl), hbefore]
    | resetTask => rfl
    | opener => exact hbefore

/-! The callbacks of the server's life cycle, each taken without a pause. -/

section Lifecycle

open WebServerLifecycle (State Thread Caller Server OnError)

def view (s : State) : Service := ⟨s.errCount, s.resetTask, s.openers, s.webServer.isSome⟩

def onErrorSteps (s : State) (c : Caller) : List WebServerLifecycle.Event :=
  .closeBegin c ::
    ((if s.webServer.isSome then [.closeEnd c] else []) ++ [.countError c, .resume c])

theorem point_setPoint {x : Server} {t : Thread} {p : OnError} (h : x.point t = some p)
    (q : OnError) : (x.setPoint q t).point t = some q := by
  cases t with
  | run =>
    simp only [Server.point] at h
    split at h <;> simp_all [Server.point, Server.setPoint]
  | worker w => simp [Server.point, Server.setPoint, Server.setWorker]

/-- Where a server's threads are does not depend on its socket. -/
theorem point_modify {s : State} {j k : ℕ} {t : Thread} {x : Server}
    (hrun : x.run = (s.server j).run) (hworker : x.worker = (s.server j).worker) :
    ((s.modify j x).server k).point t = (s.server k).point t := by
  by_cases h : k = j
  · subst h
    cases t <;> simp [Server.point, hrun, hworker]
  · simp [h]

/-- The server is closed and the rest of onError is to come. -/
theorem counted_and_resumed {s u : State} {k : ℕ} {t : Thread}
    (hcounting : u.point (.thread k t) = some .counting)
    (hview : view u = closeWebServer (view s)) :
    ValidTrace WebServerLifecycle.system Unrestricted u
        [.countError (.thread k t), .resume (.thread k t)] ∧
      view (runTrace WebServerLifecycle.system u
        [.countError (.thread k t), .resume (.thread k t)]) = next (view s) .onError := by
  have hresuming : (WebServerLifecycle.countError u (.thread k t)).point (.thread k t) =
      some .resuming := by
    simpa [WebServerLifecycle.countError, State.setPoint, State.point] using
      point_setPoint hcounting .resuming
  refine ⟨⟨⟨hcounting, trivial⟩, ⟨hresuming, trivial⟩, trivial⟩, ?_⟩
  simp only [view, closeWebServer, Service.mk.injEq] at hview
  obtain ⟨hcount, -, hopeners, hserver⟩ := hview
  have hcounted : (WebServerLifecycle.countError u (.thread k t)).errCount = s.errCount + 1 :=
    congrArg (· + 1) hcount
  change view (WebServerLifecycle.resume
    (WebServerLifecycle.countError u (.thread k t)) (.thread k t)) = onError (view s)
  rcases Nat.lt_or_ge s.errCount RESUME_COUNT with hlt | hge
  · rw [WebServerLifecycle.resume, if_pos (by omega), onError_retries hlt]
    change Service.mk (u.errCount + 1) true (u.openers + 1) u.webServer.isSome = _
    rw [hcount, hopeners, hserver]
    rfl
  · rw [WebServerLifecycle.resume, if_neg (by omega), onError_gives_up hge]
    change Service.mk 0 false u.openers u.webServer.isSome = _
    rw [hopeners, hserver]
    rfl

theorem onError_uninterrupted {s : State} {k : ℕ} {t : Thread}
    (hpoint : s.point (.thread k t) = some .closing) (hlock : s.lock = none) :
    ValidTrace WebServerLifecycle.system Unrestricted s (onErrorSteps s (.thread k t)) ∧
      view (runTrace WebServerLifecycle.system s (onErrorSteps s (.thread k t))) =
        next (view s) .onError := by
  cases hserver : s.webServer with
  | none =>
    have hbegin : WebServerLifecycle.closeBegin s (.thread k t) =
        s.setPoint .counting (.thread k t) := by
      rw [WebServerLifecycle.closeBegin, hserver]
    have hclosed : (s.setPoint .counting (.thread k t)).point (.thread k t) = some .counting := by
      simpa [State.setPoint, State.point] using point_setPoint hpoint .counting
    have hview : view (s.setPoint .counting (.thread k t)) = closeWebServer (view s) := by
      change Service.mk s.errCount s.resetTask s.openers s.webServer.isSome = _
      rw [hserver]
      rfl
    obtain ⟨hvalid, hend⟩ := counted_and_resumed hclosed hview
    rw [← hbegin] at hvalid hend
    have hsteps : onErrorSteps s (.thread k t) = [.closeBegin (.thread k t),
        .countError (.thread k t), .resume (.thread k t)] := by
      simp [onErrorSteps, hserver]
    rw [hsteps]
    exact ⟨⟨⟨⟨hpoint, hlock⟩, trivial⟩, hvalid⟩, hend⟩
  | some j =>
    have hbegin : WebServerLifecycle.closeBegin s (.thread k t) =
        { s.modify j { s.server j with closed := true } with
          isLoop := false
          lock := some (.thread k t) } := by
      rw [WebServerLifecycle.closeBegin, hserver]
    have hlocked : (WebServerLifecycle.closeBegin s (.thread k t)).lock = some (.thread k t) := by
      rw [hbegin]
    have hsocket : ((WebServerLifecycle.closeSocket
        (WebServerLifecycle.closeBegin s (.thread k t))).server k).point t = some .closing := by
      have hother : (WebServerLifecycle.closeBegin s (.thread k t)).webServer = some j := by
        rw [hbegin]
        exact hserver
      have hbefore : ((WebServerLifecycle.closeBegin s (.thread k t)).server k).point t =
          some .closing := by
        rw [hbegin]
        exact (point_modify (x := { s.server j with closed := true }) rfl rfl).trans hpoint
      generalize WebServerLifecycle.closeBegin s (.thread k t) = u at hother hbefore ⊢
      rw [WebServerLifecycle.closeSocket, hother]
      exact (point_modify (x := { u.server j with
        serverSocket := (u.server j).serverSocket.close }) rfl rfl).trans hbefore
    have hclosed : (WebServerLifecycle.closeEnd (WebServerLifecycle.closeBegin s (.thread k t))
        (.thread k t)).point (.thread k t) = some .counting := by
      simpa [WebServerLifecycle.closeEnd, State.setPoint, State.point] using
        point_setPoint hsocket .counting
    have hview : view (WebServerLifecycle.closeEnd
        (WebServerLifecycle.closeBegin s (.thread k t)) (.thread k t)) =
          closeWebServer (view s) := by
      simp [WebServerLifecycle.closeEnd, WebServerLifecycle.closeSocket, hbegin, State.modify,
        State.setPoint, hserver, view, closeWebServer]
    obtain ⟨hvalid, hend⟩ := counted_and_resumed hclosed hview
    have hsteps : onErrorSteps s (.thread k t) = [.closeBegin (.thread k t),
        .closeEnd (.thread k t), .countError (.thread k t), .resume (.thread k t)] := by
      simp [onErrorSteps, hserver]
    rw [hsteps]
    exact ⟨⟨⟨⟨hpoint, hlock⟩, trivial⟩, ⟨hlocked, trivial⟩, hvalid⟩, hend⟩

theorem view_resetTask (s : State) :
    view (WebServerLifecycle.next s .resetTask) = next (view s) .resetTask := rfl

theorem view_opener (s : State) :
    view (WebServerLifecycle.next s .opener) = next (view s) .opener := by
  cases hserver : s.webServer <;>
    simp [WebServerLifecycle.next, WebServerLifecycle.opener, view, next, hserver]

theorem view_started : view (WebServerLifecycle.next WebServerLifecycle.initial .onStartCommand) =
    started := rfl

end Lifecycle

/-! Giving up. -/

/-- Once onError has given up, the next event breaks the bound. -/
theorem Bounded.errCount_lt (h : Bounded es) (hvalid : ValidTrace system Unrestricted started es)
    {a c : List Event} {e : Event} (heq : es = a ++ .onError :: e :: c) :
    (run a).errCount < RESUME_COUNT := by
  by_contra hnot
  have hge := Nat.le_of_not_lt hnot
  obtain ⟨before, between, rfl, hreset, hopens⟩ := exists_restarts a
  have hgaveUp : run (before ++ between ++ [.onError]) =
      ⟨0, false, (run (before ++ between)).openers, false⟩ := by
    rw [run_concat, next, onError_gives_up hge]
  have hsplit : before ++ between ++ .onError :: e :: c =
      before ++ between ++ [.onError] ++ e :: c := by simp
  rw [heq, hsplit, validTrace_append_iff] at hvalid
  have hen : Enabled (run (before ++ between ++ [.onError])) e := hvalid.2.1.1
  cases e with
  | onError =>
    have hmany := h.restarts before (between ++ [.onError, .onError]) c (by rw [heq]; simp)
      (by simp [hreset])
    have hlast : opens (run (before ++ between)) [.onError, .onError] = 1 := by
      have hstep : next (run (before ++ between)) .onError =
          run (before ++ between ++ [.onError]) := (run_concat _).symm
      rw [opens, if_neg (by omega), hstep, hgaveUp]
      rfl
    rw [opens_append, ← runTrace_append, hlast, hopens] at hmany
    omega
  | resetTask =>
    rw [hgaveUp] at hen
    cases hen
  | opener =>
    have hdown := h.down before between [.opener] c (by rw [heq]; simp) hreset
      (by rw [hopens]; exact hge)
    have hup : before ++ between ++ .onError :: [.opener] =
        before ++ between ++ [.onError] ++ [.opener] := by simp
    rw [hup, run_concat] at hdown
    cases hdown

/-- By the errors alone: onError gives up at the last event at most. -/
theorem errCount_lt_of_errors
    (h : ∀ a e c, es = a ++ .onError :: e :: c → errors a < RESUME_COUNT) {a c : List Event}
    {e : Event} (heq : es = a ++ .onError :: e :: c) : (run a).errCount < RESUME_COUNT := by
  induction hlength : a.length using Nat.strongRecOn generalizing a c e with
  | _ n ih =>
    rw [errCount_eq]
    · exact h a e c heq
    · intro a' c' hsplit
      have hlater : c' ++ .onError :: e :: c ≠ [] := by simp
      obtain ⟨e', rest, hrest⟩ := List.exists_cons_of_ne_nil hlater
      refine ih a'.length ?_ (c := rest) (e := e') ?_ rfl
      · rw [← hlength, hsplit, List.length_append, List.length_cons]
        omega
      · rw [heq, hsplit, ← hrest]
        simp

/-- Between two firings there are at most three restarts and the server stays down after the
error that follows them, just when nothing comes after a fourth error without a firing. -/
theorem bounded_iff (hvalid : ValidTrace system Unrestricted started es) :
    Bounded es ↔ ∀ a e c, es = a ++ .onError :: e :: c → errors a < RESUME_COUNT := by
  constructor
  · intro h a e c heq
    rw [← errCount_eq]
    · exact h.errCount_lt hvalid heq
    · rintro a' c' rfl
      have hlater : c' ++ .onError :: e :: c ≠ [] := by simp
      obtain ⟨e', rest, hrest⟩ := List.exists_cons_of_ne_nil hlater
      apply h.errCount_lt hvalid (e := e') (c := rest)
      rw [heq, ← hrest]
      simp
  · intro h
    have hlt : ∀ a c, c ≠ [] → es = a ++ .onError :: c → (run a).errCount < RESUME_COUNT := by
      intro a c hne heq
      obtain ⟨e, rest, rfl⟩ := List.exists_cons_of_ne_nil hne
      exact errCount_lt_of_errors h heq
    constructor
    · intro before between after heq hreset
      rcases List.eq_nil_or_concat' between with rfl | ⟨b, e, rfl⟩
      · exact Nat.zero_le _
      · have hcount : (run (before ++ b)).errCount =
            (run before).errCount + opens (run before) b := by
          apply errCount_restarts fun hmem => hreset (List.mem_append_left _ hmem)
          intro a c hb
          exact hlt (before ++ a) (c ++ [e] ++ after) (by simp) (by rw [heq, hb]; simp)
        have hle := errCount_le (before ++ b)
        rw [opens_concat]
        split
        next hretry =>
          have := hretry.2
          omega
        next => omega
    · intro before between after later heq hreset hopens
      have hcount := errCount_restarts hreset fun a c hb =>
        hlt (before ++ a) (c ++ .onError :: (after ++ later)) (by simp) (by rw [heq, hb]; simp)
      have hge : RESUME_COUNT ≤ (run (before ++ between)).errCount := by omega
      have hlast : after ++ later = [] := by
        by_contra hne
        have := hlt (before ++ between) _ hne heq
        omega
      rw [List.append_eq_nil_iff] at hlast
      rw [hlast.1, run_concat, next, onError_gives_up hge]

theorem errors_le_length (es : List Event) : errors es ≤ es.length := by
  induction es using List.reverseRecOn with
  | nil => exact Nat.zero_le _
  | append_singleton es e ih =>
    rw [errors_concat, List.length_append, List.length_singleton]
    cases e with
    | onError => exact Nat.succ_le_succ ih
    | resetTask => exact Nat.zero_le _
    | opener => exact Nat.le_succ_of_le ih

theorem one_error_bounded : Bounded [.opener, .onError, .opener] := by
  refine (bounded_iff (by decide)).mpr fun a e c heq => ?_
  have hlength := congrArg List.length heq
  have hle := errors_le_length a
  simp only [List.length_append, List.length_cons, List.length_nil] at hlength
  have hcount : RESUME_COUNT = 3 := rfl
  omega

/-- Four restarts in a row, since the count starts anew when onError gives up. -/
theorem five_errors_unbounded :
    ValidTrace system Unrestricted started
      [.opener, .onError, .opener, .onError, .opener, .onError, .opener, .onError, .onError] ∧
    ¬Bounded
      [.opener, .onError, .opener, .onError, .opener, .onError, .opener, .onError, .onError] := by
  refine ⟨by decide, fun h => ?_⟩
  exact absurd (h.restarts [] _ [] (List.append_nil _).symm (by decide)) (by decide)

end ServerRestarts
