import AndroidDebug.TransitionSystem
import Mathlib.Logic.Function.Basic
import Mathlib.Data.Nat.Notation

/-! The terminal's shell sessions. A session is numbered by the start that opened its
descriptors; the fields of TerminalHelper hold the session whose process or stream they
refer to. Each watcher and each reader issues one onExit, and so does the service. -/
namespace TerminalSessions

open TransitionSystem

/-- The watcher reads mProcId when it first runs, not when it is created. -/
inductive Watcher where
  | absent | created | waiting (p : Option ℕ) | returned | done
  deriving DecidableEq, Repr

inductive Reader where
  | absent | reading | ended | done
  deriving DecidableEq, Repr

inductive Worker where
  | watcher | reader
  deriving DecidableEq, Repr

/-- `mProcId = none` stands for -999. -/
structure State where
  mTermFd : Option ℕ
  mTermOut : Option ℕ
  mTermIn : Option ℕ
  socketOut : Option ℕ
  mProcId : Option ℕ
  isRunning : Bool
  started : ℕ
  alive : ℕ → Bool
  watcher : ℕ → Watcher
  reader : ℕ → Reader

/-- start throws when /dev/ptmx does not open or no process can be forked. -/
inductive Outcome where
  | openFails | forkFails | spawned
  deriving DecidableEq, Repr

structure CloseFailure where
  fd : Bool
  input : Bool
  output : Bool
  deriving DecidableEq, Repr

inductive Effect where
  | stopped
  | signal (k : ℕ)
  | close (k : ℕ)
  deriving DecidableEq, Repr

def initial : State :=
  ⟨none, none, none, none, none, false, 0, fun _ => false, fun _ => .absent, fun _ => .absent⟩

def openStreams (s : State) : State :=
  { s with mTermFd := some s.started
           mTermOut := some s.started
           mTermIn := some s.started
           socketOut := some s.started
           started := s.started + 1 }

def start (s : State) : Outcome → State
  | .openFails => s
  | .forkFails => openStreams s
  | .spawned =>
    { openStreams s with mProcId := some s.started
                         isRunning := true
                         alive := Function.update s.alive s.started true
                         watcher := Function.update s.watcher s.started .created
                         reader := Function.update s.reader s.started .reading }

/-- The new state and what was done to which session. A field whose close throws stays. -/
def onExit (s : State) (f : CloseFailure) : State × List Effect :=
  ({ s with isRunning := false
            mProcId := none
            mTermFd := if f.fd then s.mTermFd else none
            mTermIn := if f.input then s.mTermIn else none
            mTermOut := if f.output then s.mTermOut else none },
    .stopped :: (s.mProcId.toList.map .signal ++ s.mTermFd.toList.map .close ++
      s.mTermIn.toList.map .close ++ s.mTermOut.toList.map .close))

inductive Event where
  | start (o : Outcome)
  | destroy (f : CloseFailure)
  | dies (k : ℕ)
  | watcherReads (k : ℕ)
  | watcherReturns (k : ℕ)
  | readerEnds (k : ℕ)
  | exits (w : Worker) (k : ℕ) (f : CloseFailure)
  deriving DecidableEq, Repr

/-- waitFor returns once the process is gone, and at once for -999. -/
def Watcher.mayReturn (alive : ℕ → Bool) : Watcher → Bool
  | .waiting none => true
  | .waiting (some p) => !alive p
  | _ => false

def Due (s : State) (k : ℕ) : Worker → Prop
  | .watcher => s.watcher k = .returned
  | .reader => s.reader k = .ended

instance (s : State) (k : ℕ) : ∀ w, Decidable (Due s k w)
  | .watcher => inferInstanceAs (Decidable (_ = _))
  | .reader => inferInstanceAs (Decidable (_ = _))

def Enabled (s : State) : Event → Prop
  | .start _ => s.isRunning = false
  | .destroy _ => True
  | .dies k => s.alive k = true
  | .watcherReads k => s.watcher k = .created
  | .watcherReturns k => (s.watcher k).mayReturn s.alive = true
  | .readerEnds k => s.reader k = .reading
  | .exits w k _ => Due s k w

instance (s : State) : ∀ e, Decidable (Enabled s e)
  | .start _ => inferInstanceAs (Decidable (_ = _))
  | .destroy _ => isTrue trivial
  | .dies _ => inferInstanceAs (Decidable (_ = _))
  | .watcherReads _ => inferInstanceAs (Decidable (_ = _))
  | .watcherReturns _ => inferInstanceAs (Decidable (_ = _))
  | .readerEnds _ => inferInstanceAs (Decidable (_ = _))
  | .exits w k _ => inferInstanceAs (Decidable (Due s k w))

def finish (s : State) (k : ℕ) : Worker → State
  | .watcher => { s with watcher := Function.update s.watcher k .done }
  | .reader => { s with reader := Function.update s.reader k .done }

def next (s : State) : Event → State
  | .start o => start s o
  | .destroy f => (onExit s f).1
  | .dies k => { s with alive := Function.update s.alive k false }
  | .watcherReads k => { s with watcher := Function.update s.watcher k (.waiting s.mProcId) }
  | .watcherReturns k => { s with watcher := Function.update s.watcher k .returned }
  | .readerEnds k => { s with reader := Function.update s.reader k .ended }
  | .exits w k f => finish (onExit s f).1 k w

def system : System State Event where
  initial s := s = initial
  Enabled := Enabled
  next := next

instance (s : State) (e : Event) : Decidable (system.Enabled s e) :=
  inferInstanceAs (Decidable (Enabled s e))

/-- The onExit of session `k` leaves later sessions alone. -/
structure Spares (s : State) (k : ℕ) (f : CloseFailure) : Prop where
  signal : ∀ j, k < j → .signal j ∉ (onExit s f).2
  close : ∀ j, k < j → .close j ∉ (onExit s f).2
  running : ∀ j, k < j → s.alive j = true → .stopped ∉ (onExit s f).2

def Watcher.pending : Watcher → Bool
  | .absent | .done => false
  | _ => true

def Reader.pending : Reader → Bool
  | .absent | .done => false
  | _ => true

/-- Every worker of the sessions so far has made its onExit. -/
def Alone (s : State) : Prop :=
  ∀ k < s.started, (s.watcher k).pending = false ∧ (s.reader k).pending = false

instance (s : State) : Decidable (Alone s) :=
  inferInstanceAs (Decidable (∀ k < s.started, _))

/-- A start that opens descriptors finds no worker of an earlier session. -/
def StartsAlone (s : State) : Event → Prop
  | .start .openFails => True
  | .start _ => Alone s
  | _ => True

instance (s : State) : ∀ e, Decidable (StartsAlone s e)
  | .start .openFails => isTrue trivial
  | .start .forkFails => inferInstanceAs (Decidable (Alone s))
  | .start .spawned => inferInstanceAs (Decidable (Alone s))
  | .destroy _ | .dies _ | .watcherReads _ | .watcherReturns _ | .readerEnds _ | .exits .. =>
    isTrue trivial

theorem mem_effects_signal {s : State} {f : CloseFailure} {j : ℕ} :
    .signal j ∈ (onExit s f).2 ↔ s.mProcId = some j := by
  simp [onExit]

theorem mem_effects_close {s : State} {f : CloseFailure} {j : ℕ} :
    .close j ∈ (onExit s f).2 ↔
      s.mTermFd = some j ∨ s.mTermIn = some j ∨ s.mTermOut = some j := by
  simp [onExit]

/-- Fields, processes and workers are those of sessions that were started. -/
structure Known (s : State) : Prop where
  fd : ∀ j, s.mTermFd = some j → j < s.started
  input : ∀ j, s.mTermIn = some j → j < s.started
  output : ∀ j, s.mTermOut = some j → j < s.started
  proc : ∀ j, s.mProcId = some j → j < s.started
  alive : ∀ j, s.alive j = true → j < s.started
  watcher : ∀ j, (s.watcher j).pending = true → j < s.started
  reader : ∀ j, (s.reader j).pending = true → j < s.started

/-- A worker that has still to make its onExit belongs to the last session. -/
structure Last (s : State) : Prop where
  watcher : ∀ k, (s.watcher k).pending = true → s.started ≤ k + 1
  reader : ∀ k, (s.reader k).pending = true → s.started ≤ k + 1

theorem known_initial : Known initial := by
  constructor <;> simp [initial, Watcher.pending, Reader.pending]

theorem last_initial : Last initial := by
  constructor <;> simp [initial, Watcher.pending, Reader.pending]

theorem Known.openStreams {s : State} (h : Known s) : Known (openStreams s) := by
  have hnew : ∀ j, some s.started = some j → j < s.started + 1 := by
    intro j hj
    cases hj
    exact Nat.lt_succ_self _
  exact ⟨hnew, hnew, hnew, fun j hj => Nat.lt_succ_of_lt (h.proc j hj),
    fun j hj => Nat.lt_succ_of_lt (h.alive j hj), fun j hj => Nat.lt_succ_of_lt (h.watcher j hj),
    fun j hj => Nat.lt_succ_of_lt (h.reader j hj)⟩

theorem Known.onExit {s : State} (h : Known s) (f : CloseFailure) : Known (onExit s f).1 where
  fd j hj := by
    cases hf : f.fd <;> simp [TerminalSessions.onExit, hf] at hj
    exact h.fd j hj
  input j hj := by
    cases hf : f.input <;> simp [TerminalSessions.onExit, hf] at hj
    exact h.input j hj
  output j hj := by
    cases hf : f.output <;> simp [TerminalSessions.onExit, hf] at hj
    exact h.output j hj
  proc j hj := by cases hj
  alive := h.alive
  watcher := h.watcher
  reader := h.reader

/-- A watcher changes its stage only while it is pending. -/
theorem watcher_moved {s : State} {e : Event} (he : Enabled s e)
    (hstart : ∀ o, e ≠ .start o) (k : ℕ) (hp : ((next s e).watcher k).pending = true) :
    (s.watcher k).pending = true := by
  cases e with
  | start o => exact absurd rfl (hstart o)
  | destroy f => exact hp
  | dies j => exact hp
  | watcherReads j =>
    by_cases hk : k = j
    · have hc : s.watcher j = .created := he
      rw [hk, hc]
      rfl
    · simpa [next, hk] using hp
  | watcherReturns j =>
    by_cases hk : k = j
    · have hm : (s.watcher j).mayReturn s.alive = true := he
      rw [hk]
      cases hw : s.watcher j with
      | waiting p => rfl
      | absent | created | returned | done => rw [hw] at hm; cases hm
    · simpa [next, hk] using hp
  | readerEnds j => exact hp
  | exits w j f =>
    cases w with
    | reader => exact hp
    | watcher =>
      by_cases hk : k = j
      · simp [next, finish, hk, Watcher.pending] at hp
      · simpa [next, finish, onExit, hk] using hp

theorem reader_moved {s : State} {e : Event} (he : Enabled s e)
    (hstart : ∀ o, e ≠ .start o) (k : ℕ) (hp : ((next s e).reader k).pending = true) :
    (s.reader k).pending = true := by
  cases e with
  | start o => exact absurd rfl (hstart o)
  | destroy f => exact hp
  | dies j => exact hp
  | watcherReads j => exact hp
  | watcherReturns j => exact hp
  | readerEnds j =>
    by_cases hk : k = j
    · have hr : s.reader j = .reading := he
      rw [hk, hr]
      rfl
    · simpa [next, hk] using hp
  | exits w j f =>
    cases w with
    | watcher => exact hp
    | reader =>
      by_cases hk : k = j
      · simp [next, finish, hk, Reader.pending] at hp
      · simpa [next, finish, onExit, hk] using hp

theorem known_step {s : State} (h : Known s) {e : Event} (he : Enabled s e) :
    Known (next s e) := by
  cases e with
  | start o =>
    cases o with
    | openFails => exact h
    | forkFails => exact h.openStreams
    | spawned =>
      have ho := h.openStreams
      refine ⟨ho.fd, ho.input, ho.output, ho.fd, ?_, ?_, ?_⟩
      all_goals
        intro j hj
        by_cases hk : j = s.started
        · subst hk
          exact Nat.lt_succ_self _
      · exact ho.alive j (by simpa [next, start, openStreams, hk] using hj)
      · exact ho.watcher j (by simpa [next, start, openStreams, hk] using hj)
      · exact ho.reader j (by simpa [next, start, openStreams, hk] using hj)
  | destroy f => exact h.onExit f
  | dies k =>
    refine ⟨h.fd, h.input, h.output, h.proc, ?_, h.watcher, h.reader⟩
    intro j hj
    by_cases hk : j = k
    · simp [next, hk] at hj
    · exact h.alive j (by simpa [next, hk] using hj)
  | watcherReads k =>
    exact ⟨h.fd, h.input, h.output, h.proc, h.alive,
      fun j hj => h.watcher j (watcher_moved he (by simp) j hj), h.reader⟩
  | watcherReturns k =>
    exact ⟨h.fd, h.input, h.output, h.proc, h.alive,
      fun j hj => h.watcher j (watcher_moved he (by simp) j hj), h.reader⟩
  | readerEnds k =>
    exact ⟨h.fd, h.input, h.output, h.proc, h.alive, h.watcher,
      fun j hj => h.reader j (reader_moved he (by simp) j hj)⟩
  | exits w k f =>
    have ho := h.onExit f
    have hw := fun j hj => h.watcher j (watcher_moved he (by simp) j hj)
    have hr := fun j hj => h.reader j (reader_moved he (by simp) j hj)
    cases w <;> exact ⟨ho.fd, ho.input, ho.output, ho.proc, ho.alive, hw, hr⟩

theorem reachable_known {s : State} (h : Reachable system s) : Known s := by
  apply Reachable.invariant _ _ h
  · rintro s rfl
    exact known_initial
  · exact fun s e hk he => known_step hk he

theorem started_kept {s : State} {e : Event} (hstart : ∀ o, e ≠ .start o) :
    (next s e).started = s.started := by
  cases e with
  | start o => exact absurd rfl (hstart o)
  | exits w k f => cases w <;> rfl
  | _ => rfl

theorem Alone.nothing_pending {s : State} (h : Alone s) (hk : Known s) (k : ℕ) :
    (s.watcher k).pending = false ∧ (s.reader k).pending = false := by
  by_cases hlt : k < s.started
  · exact h k hlt
  · constructor
    · by_contra hp
      exact hlt (hk.watcher k (by simpa using hp))
    · by_contra hp
      exact hlt (hk.reader k (by simpa using hp))

theorem last_step {s : State} (hk : Known s) (h : Last s) {e : Event} (he : Enabled s e)
    (ha : StartsAlone s e) : Last (next s e) := by
  by_cases hstart : ∃ o, e = .start o
  · obtain ⟨o, rfl⟩ := hstart
    cases o with
    | openFails => exact h
    | forkFails =>
      have hn := Alone.nothing_pending ha hk
      constructor
      · intro k hp
        exact absurd hp (by simp [next, start, openStreams, (hn k).1])
      · intro k hp
        exact absurd hp (by simp [next, start, openStreams, (hn k).2])
    | spawned =>
      have hn := Alone.nothing_pending ha hk
      constructor
      · intro k hp
        by_cases hks : k = s.started
        · subst hks
          exact Nat.le_refl _
        · simp [next, start, openStreams, hks, (hn k).1] at hp
      · intro k hp
        by_cases hks : k = s.started
        · subst hks
          exact Nat.le_refl _
        · simp [next, start, openStreams, hks, (hn k).2] at hp
  · have hne : ∀ o, e ≠ .start o := fun o ho => hstart ⟨o, ho⟩
    constructor
    · intro k hp
      rw [started_kept hne]
      exact h.watcher k (watcher_moved he hne k hp)
    · intro k hp
      rw [started_kept hne]
      exact h.reader k (reader_moved he hne k hp)

theorem reachable_last {s : State} (h : ReachableWhere system StartsAlone s) : Last s := by
  apply ReachableWhere.invariant_with (fun s hs => reachable_known hs) _ _ h
  · rintro s rfl
    exact last_initial
  · exact fun s e hk hl he ha => last_step hk hl he ha

/-- No session later than the last one is known, so an onExit of the last one spares all. -/
theorem Last.spares {s : State} (h : Last s) (hk : Known s) {w : Worker} {k : ℕ}
    (hdue : Due s k w) (f : CloseFailure) : Spares s k f := by
  have hlast : s.started ≤ k + 1 := by
    cases w with
    | watcher =>
      have hw : s.watcher k = .returned := hdue
      exact h.watcher k (by rw [hw]; rfl)
    | reader =>
      have hr : s.reader k = .ended := hdue
      exact h.reader k (by rw [hr]; rfl)
  constructor
  · intro j hj hm
    have := hk.proc j (mem_effects_signal.mp hm)
    omega
  · intro j hj hm
    have hlt : j < s.started := by
      rcases mem_effects_close.mp hm with hfd | hin | hout
      · exact hk.fd j hfd
      · exact hk.input j hin
      · exact hk.output j hout
    omega
  · intro j hj ha
    have := hk.alive j ha
    omega

/-- A pending watcher can go on to its onExit, whatever the fields hold. -/
theorem watcher_comes_due {s : State} {k : ℕ} (hp : (s.watcher k).pending = true) :
    ∃ t, Execution system s t ∧ Due t k .watcher ∧ t.mTermFd = s.mTermFd := by
  have hwaits : ∀ u : State, (∃ p, u.watcher k = .waiting p) →
      ∃ t, Execution system u t ∧ Due t k .watcher ∧ t.mTermFd = u.mTermFd := by
    rintro u ⟨p, hu⟩
    have hreturn : ∀ v : State, (v.watcher k).mayReturn v.alive = true →
        ∃ t, Execution system v t ∧ Due t k .watcher ∧ t.mTermFd = v.mTermFd := fun v hv =>
      ⟨next v (.watcherReturns k), .one (M := system) (e := .watcherReturns k) hv trivial,
        by simp [Due, next], rfl⟩
    by_cases hm : (u.watcher k).mayReturn u.alive = true
    · exact hreturn u hm
    · cases p with
      | none => simp [hu, Watcher.mayReturn] at hm
      | some j =>
        have hj : u.alive j = true := by simpa [hu, Watcher.mayReturn] using hm
        obtain ⟨t, ht, hdue, hfd⟩ := hreturn (next u (.dies j)) (by
          simp [next, hu, Watcher.mayReturn])
        exact ⟨t, .head (e := .dies j) hj trivial ht, hdue, hfd⟩
  cases hw : s.watcher k with
  | absent => simp [hw, Watcher.pending] at hp
  | done => simp [hw, Watcher.pending] at hp
  | returned => exact ⟨s, .refl s, hw, rfl⟩
  | waiting p => exact hwaits s ⟨p, hw⟩
  | created =>
    obtain ⟨t, ht, hdue, hfd⟩ := hwaits (next s (.watcherReads k)) ⟨s.mProcId, by simp [next]⟩
    exact ⟨t, .head (e := .watcherReads k) hw trivial ht, hdue, hfd⟩

theorem reader_comes_due {s : State} {k : ℕ} (hp : (s.reader k).pending = true) :
    ∃ t, Execution system s t ∧ Due t k .reader ∧ t.mTermFd = s.mTermFd := by
  cases hr : s.reader k with
  | absent => simp [hr, Reader.pending] at hp
  | done => simp [hr, Reader.pending] at hp
  | ended => exact ⟨s, .refl s, hr, rfl⟩
  | reading =>
    exact ⟨next s (.readerEnds k), .one (M := system) (e := .readerEnds k) hr trivial,
      by simp [Due, next], rfl⟩

/-- A worker of an earlier session that is pending when the descriptors of a new one are
opened can still close them. -/
theorem late_worker_strikes {s : State} {o : Outcome} (hstart : ¬ StartsAlone s (.start o)) :
    ∃ t k w, Execution system (next s (.start o)) t ∧ Due t k w ∧ ∀ f, ¬ Spares t k f := by
  have hopens : (next s (.start o)).mTermFd = some s.started ∧
      ∀ k < s.started, (next s (.start o)).watcher k = s.watcher k ∧
        (next s (.start o)).reader k = s.reader k := by
    cases o with
    | openFails => exact absurd trivial hstart
    | forkFails => exact ⟨rfl, fun _ _ => ⟨rfl, rfl⟩⟩
    | spawned =>
      refine ⟨rfl, fun k hk => ?_⟩
      have hne : k ≠ s.started := Nat.ne_of_lt hk
      simp [next, start, openStreams, hne]
  have hnot : ¬ Alone s := by
    cases o with
    | openFails => exact absurd trivial hstart
    | forkFails => exact hstart
    | spawned => exact hstart
  obtain ⟨hfd, hkept⟩ := hopens
  simp only [Alone, not_forall] at hnot
  obtain ⟨k, hk, hpending⟩ := hnot
  have hstrikes : ∀ t : State, t.mTermFd = some s.started → ∀ f, ¬ Spares t k f := fun t ht f hs =>
    hs.close s.started hk (mem_effects_close.mpr (Or.inl ht))
  by_cases hw : (s.watcher k).pending = true
  · obtain ⟨t, ht, hdue, hsame⟩ := watcher_comes_due (s := next s (.start o)) (k := k)
      (by rw [(hkept k hk).1]; exact hw)
    exact ⟨t, k, .watcher, ht, hdue, hstrikes t (hsame.trans hfd)⟩
  · have hr : (s.reader k).pending = true := by
      by_contra hr
      exact hpending ⟨by simpa using hw, by simpa using hr⟩
    obtain ⟨t, ht, hdue, hsame⟩ := reader_comes_due (s := next s (.start o)) (k := k)
      (by rw [(hkept k hk).2]; exact hr)
    exact ⟨t, k, .reader, ht, hdue, hstrikes t (hsame.trans hfd)⟩

/-- Runs whose sessions each start alone spare every later session, and any other start can
be followed by an onExit that closes the descriptors just opened. -/
theorem finished_session_spares_later (s : State) :
    (ReachableWhere system StartsAlone s →
      ∀ w k f, system.Enabled s (.exits w k f) → Spares s k f) ∧
    (Reachable system s → ∀ o, system.Enabled s (.start o) → ¬ StartsAlone s (.start o) →
      ∃ t w k f, Execution system (next s (.start o)) t ∧ system.Enabled t (.exits w k f) ∧
        ¬ Spares t k f) := by
  constructor
  · intro hs w k f hdue
    exact (reachable_last hs).spares (reachable_known hs.reachable) hdue f
  · intro _ o _ hstart
    obtain ⟨t, k, w, ht, hdue, hstrikes⟩ := late_worker_strikes hstart
    exact ⟨t, w, k, ⟨false, false, false⟩, ht, hdue, hstrikes _⟩

def closes : CloseFailure := ⟨false, false, false⟩

/-- The first shell ends and its watcher comes first; its reader is slow. -/
def slowReader : List Event :=
  [.start .spawned, .watcherReads 0, .dies 0, .watcherReturns 0, .exits .watcher 0 closes]

/-- The second session starts before the reader of the first has noticed. -/
def restartBeforeReader : List Event :=
  slowReader ++ [.start .spawned, .readerEnds 0]

/-- It starts after that. -/
def restartAfterReader : List Event :=
  slowReader ++ [.readerEnds 0, .exits .reader 0 closes, .start .spawned, .readerEnds 1]

theorem finished_session_spares_later_restarts :
    Spares (runTrace system initial restartAfterReader) 1 closes ∧
      ∃ t w k f, Execution system (runTrace system initial (slowReader ++ [.start .spawned])) t ∧
        system.Enabled t (.exits w k f) ∧ ¬ Spares t k f := by
  constructor
  · exact (finished_session_spares_later _).1 (validTrace_reachable rfl (by decide +kernel))
      .reader 1 closes (by decide +kernel)
  · have h := (finished_session_spares_later (runTrace system initial slowReader)).2
      (validTrace_reachable rfl (by decide +kernel)) .spawned (by decide +kernel)
      (by decide +kernel)
    exact h

/-- The reader of the first session signals the second, whose shell is alive, closes its
descriptors and clears isRunning. -/
theorem finished_session_spares_later_fails :
    ∃ s, Reachable system s ∧ system.Enabled s (.exits .reader 0 closes) ∧ s.alive 1 = true ∧
      s.isRunning = true ∧ .signal 1 ∈ (onExit s closes).2 ∧ .close 1 ∈ (onExit s closes).2 ∧
      (next s (.exits .reader 0 closes)).isRunning = false ∧ ¬ Spares s 0 closes := by
  refine ⟨runTrace system initial restartBeforeReader,
    validTrace_reachable rfl (by decide +kernel), by decide +kernel, by decide +kernel,
    by decide +kernel, by decide +kernel, by decide +kernel, by decide +kernel, ?_⟩
  intro h
  exact h.signal 1 (by decide) (by decide +kernel)

end TerminalSessions
