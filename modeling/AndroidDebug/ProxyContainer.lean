import AndroidDebug.TransitionSystem
import AndroidDebug.JavaText

/-! Starting, stopping and reconnecting the proxy client: ContainerHelper,
ProxyClientContainer and Utils.checkKey. A thread is one run of ContainerHelper.start or
stop, of the listener of a failed connect, or of channelInactive of a command channel; it
stands before the statement it is named after. `stopped` records that a stop has completed
and no start was called since; no code reads it. -/
namespace ProxyContainer

open TransitionSystem JavaText

abbrev GroupId := ℕ
abbrev ContainerId := ℕ
abbrev ThreadId := ℕ
abbrev ChannelId := ℕ

def KEY_EXIST : JString := ofString "1"

inductive Caller where
  | start | connectProxyServer | channelInactive
  deriving DecidableEq, Repr

inductive Thread where
  | setRunning
  | startContainers
  | stopContainers
  | clearRunning
  | reconnectWait (k : ContainerId) (caller : Caller)
  | waiting (k : ContainerId) (caller : Caller)
  | queryKey (k : ContainerId) (caller : Caller)
  | sleep (k : ContainerId) (caller : Caller)
  | stop (k : ContainerId)
  | init (k : ContainerId)
  | connectProxyServer (k : ContainerId)
  | done
  deriving DecidableEq, Repr

structure Container where
  workerGroup : GroupId
  sleepTimeMill : ℕ := 1000
  deriving DecidableEq, Repr

inductive Life where
  | connecting | active | closed | inactive | failed
  deriving DecidableEq, Repr

structure Channel where
  container : ContainerId
  workerGroup : GroupId
  life : Life := .connecting
  deriving DecidableEq, Repr

/-- `groups` says of each worker group whether its shutdown was requested. -/
structure State where
  running : Bool
  cachedContainers : Option ContainerId
  containers : List Container
  groups : List Bool
  channels : List Channel
  cmdChannel : Option ChannelId
  threads : List Thread
  stopped : Bool
  deriving DecidableEq, Repr

def initial : State := ⟨false, none, [], [], [], none, [], false⟩

def State.spawn (s : State) (x : Thread) : State := { s with threads := s.threads ++ [x] }

def State.goOn (s : State) (t : ThreadId) (x : Thread) : State :=
  { s with threads := s.threads.set t x }

def State.setLife (s : State) (c : ChannelId) (l : Life) : State :=
  { s with channels := s.channels.modify c fun x => { x with life := l } }

/-- The constructor, whose init makes the worker group. -/
def newContainer (s : State) : State :=
  { s with containers := s.containers ++ [{ workerGroup := s.groups.length }]
           groups := s.groups ++ [false] }

def init (s : State) (k : ContainerId) : State :=
  { s with
    containers := s.containers.modify k fun x => { x with workerGroup := s.groups.length }
    groups := s.groups ++ [false] }

def stop (s : State) (k : ContainerId) : State :=
  match s.containers[k]? with
  | none => s
  | some x => { s with groups := s.groups.set x.workerGroup true }

/-- The back-off is set to a second again when it has passed a minute, then doubled. -/
def reconnectWait (s : State) (k : ContainerId) : State :=
  { s with containers := s.containers.modify k fun x =>
      { x with sleepTimeMill := (if x.sleepTimeMill > 60000 then 1000 else x.sleepTimeMill) * 2 } }

/-- What a thread does when checkKey has returned true. -/
def keyExists (k : ContainerId) : Caller → Thread
  | .start => .connectProxyServer k
  | .connectProxyServer => .connectProxyServer k
  | .channelInactive => .stop k

def checkKey (k : ContainerId) (caller : Caller) (res : Option JString) : Thread :=
  if res = some KEY_EXIST then keyExists k caller else .sleep k caller

/-- `bootstrap.connect` over the group the bootstrap was built with. -/
def connectProxyServer (s : State) (k : ContainerId) : State :=
  match s.containers[k]? with
  | none => s
  | some x => { s with channels := s.channels ++ [⟨k, x.workerGroup, .connecting⟩] }

def connected (s : State) (c : ChannelId) (k : ContainerId) : State :=
  { s.setLife c .active with
    cmdChannel := some c
    containers := s.containers.modify k fun x => { x with sleepTimeMill := 1000 } }

/-- Only the command channel tells the container. -/
def channelInactive (s : State) (c : ChannelId) (k : ContainerId) : State :=
  if s.cmdChannel = some c then
    { (s.setLife c .inactive).spawn (.reconnectWait k .channelInactive) with cmdChannel := none }
  else s.setLife c .inactive

inductive Event where
  | start (initialized : Bool)
  | setRunning (t : ThreadId)
  | startContainers (t : ThreadId)
  | stop
  | stopContainers (t : ThreadId)
  | clearRunning (t : ThreadId)
  | reconnectWait (t : ThreadId) (k : ContainerId) (caller : Caller)
  | waited (t : ThreadId) (k : ContainerId) (caller : Caller)
  | queryKey (t : ThreadId) (k : ContainerId) (caller : Caller) (res : Option JString)
  | slept (t : ThreadId) (k : ContainerId) (caller : Caller)
  | stopContainer (t : ThreadId) (k : ContainerId)
  | init (t : ThreadId) (k : ContainerId)
  | connectProxyServer (t : ThreadId) (k : ContainerId)
  | connected (c : ChannelId) (k : ContainerId)
  | connectFailed (c : ChannelId) (k : ContainerId)
  | peerClose (c : ChannelId)
  | groupClose (c : ChannelId)
  | channelInactive (c : ChannelId) (k : ContainerId)
  deriving DecidableEq, Repr

/-- The channel of container `k` is at this point of its life. -/
def Lives (s : State) (c : ChannelId) (k : ContainerId) (l : Life) : Prop :=
  ∃ x ∈ s.channels[c]?, x.container = k ∧ x.life = l

instance (s : State) (c : ChannelId) (k : ContainerId) (l : Life) : Decidable (Lives s c k l) :=
  inferInstanceAs (Decidable (∃ x ∈ s.channels[c]?, _))

/-- A group that is shutting down closes its channels; the other end may do so at any time. -/
def Enabled (s : State) : Event → Prop
  | .start _ => True
  | .setRunning t => s.threads[t]? = some .setRunning
  | .startContainers t => s.threads[t]? = some .startContainers
  | .stop => True
  | .stopContainers t => s.threads[t]? = some .stopContainers
  | .clearRunning t => s.threads[t]? = some .clearRunning
  | .reconnectWait t k caller => s.threads[t]? = some (.reconnectWait k caller)
  | .waited t k caller => s.threads[t]? = some (.waiting k caller)
  | .queryKey t k caller _ => s.threads[t]? = some (.queryKey k caller)
  | .slept t k caller => s.threads[t]? = some (.sleep k caller)
  | .stopContainer t k => s.threads[t]? = some (.stop k)
  | .init t k => s.threads[t]? = some (.init k)
  | .connectProxyServer t k => s.threads[t]? = some (.connectProxyServer k)
  | .connected c k => Lives s c k .connecting
  | .connectFailed c k => Lives s c k .connecting
  | .peerClose c => ∃ x ∈ s.channels[c]?, x.life = .active
  | .groupClose c => ∃ x ∈ s.channels[c]?, x.life = .active ∧ s.groups[x.workerGroup]? = some true
  | .channelInactive c k => Lives s c k .closed

instance (s : State) : ∀ e, Decidable (Enabled s e)
  | .start _ | .stop => isTrue trivial
  | .setRunning _ | .startContainers _ | .stopContainers _ | .clearRunning _
  | .reconnectWait .. | .waited .. | .queryKey .. | .slept .. | .stopContainer .. | .init ..
  | .connectProxyServer .. => inferInstanceAs (Decidable (_ = _))
  | .connected c k | .connectFailed c k => inferInstanceAs (Decidable (Lives s c k .connecting))
  | .peerClose _ | .groupClose _ => inferInstanceAs (Decidable (∃ _ ∈ _, _))
  | .channelInactive c k => inferInstanceAs (Decidable (Lives s c k .closed))

/-- A start whose initialize fails makes no thread; a stop before any start dies of the
null list of containers. -/
def effect (s : State) : Event → State
  | .start initialized =>
    if initialized then { s.spawn .setRunning with stopped := false } else s
  | .setRunning t => { s.goOn t .startContainers with running := true }
  | .startContainers t =>
    { (newContainer s).goOn t (.queryKey s.containers.length .start) with
      cachedContainers := some s.containers.length }
  | .stop => s.spawn .stopContainers
  | .stopContainers t =>
    match s.cachedContainers with
    | none => s.goOn t .done
    | some k => (stop s k).goOn t .clearRunning
  | .clearRunning t => { s.goOn t .done with running := false, stopped := true }
  | .reconnectWait t k caller => (reconnectWait s k).goOn t (.waiting k caller)
  | .waited t k caller => s.goOn t (.queryKey k caller)
  | .queryKey t k caller res => s.goOn t (checkKey k caller res)
  | .slept t k caller => s.goOn t (if s.running then .queryKey k caller else .done)
  | .stopContainer t k => (stop s k).goOn t (.init k)
  | .init t k => (init s k).goOn t (.connectProxyServer k)
  | .connectProxyServer t k => (connectProxyServer s k).goOn t .done
  | .connected c k => connected s c k
  | .connectFailed c k => (s.setLife c .failed).spawn (.reconnectWait k .connectProxyServer)
  | .peerClose c => s.setLife c .closed
  | .groupClose c => s.setLife c .closed
  | .channelInactive c k => channelInactive s c k

def client : System State Event where
  initial s := s = initial
  Enabled := Enabled
  next := effect

instance (s : State) (e : Event) : Decidable (client.Enabled s e) :=
  inferInstanceAs (Decidable (Enabled s e))

/-- checkKey has returned true to the thread, which has yet to connect. -/
def Thread.keyAccepted : Thread → Bool
  | .stop _ => true
  | .init _ => true
  | .connectProxyServer _ => true
  | _ => false

/-- While the client is stopped no query is answered with the key, and when a stop completes
no thread is on its way from checkKey to connectProxyServer. -/
def KeyWithheld (s : State) : Event → Prop
  | .queryKey _ _ _ res => s.stopped = true → res ≠ some KEY_EXIST
  | .clearRunning _ => ∀ x ∈ s.threads, x.keyAccepted = false
  | _ => True

instance (s : State) : ∀ e, Decidable (KeyWithheld s e)
  | .queryKey .. => inferInstanceAs (Decidable (_ → _))
  | .clearRunning _ => inferInstanceAs (Decidable (∀ _ ∈ _, _))
  | .start _ | .setRunning _ | .startContainers _ | .stop | .stopContainers _
  | .reconnectWait .. | .waited .. | .slept .. | .stopContainer .. | .init ..
  | .connectProxyServer .. | .connected .. | .connectFailed .. | .peerClose _ | .groupClose _
  | .channelInactive .. => isTrue trivial

/-- The event is no connect of a stopped client. -/
def QuietWhenStopped (s : State) (e : Event) : Prop :=
  s.stopped = true → ∀ t k, e ≠ .connectProxyServer t k

def NoStart (_ : State) (e : Event) : Prop := ∀ b, e ≠ .start b

/-! What one step can do to the threads and to the two flags. -/

@[simp] theorem setLife_threads (s : State) (c : ChannelId) (l : Life) :
    (s.setLife c l).threads = s.threads := rfl
@[simp] theorem setLife_stopped (s : State) (c : ChannelId) (l : Life) :
    (s.setLife c l).stopped = s.stopped := rfl
@[simp] theorem goOn_stopped (s : State) (t : ThreadId) (x : Thread) :
    (s.goOn t x).stopped = s.stopped := rfl
@[simp] theorem spawn_stopped (s : State) (x : Thread) : (s.spawn x).stopped = s.stopped := rfl

@[simp] theorem stop_keeps (s : State) (k : ContainerId) :
    (stop s k).threads = s.threads ∧ (stop s k).stopped = s.stopped := by
  unfold stop
  split <;> exact ⟨rfl, rfl⟩

@[simp] theorem connectProxyServer_keeps (s : State) (k : ContainerId) :
    (connectProxyServer s k).threads = s.threads ∧
      (connectProxyServer s k).stopped = s.stopped := by
  unfold connectProxyServer
  split <;> exact ⟨rfl, rfl⟩

/-- The threads after an event: one may have moved, or one may be new. -/
inductive ThreadChange (s : State) : Event → List Thread → Prop where
  | same {e} : ThreadChange s e s.threads
  | spawned {e x} : x.keyAccepted = false → ThreadChange s e (s.threads ++ [x])
  | moved {e t x} : x.keyAccepted = false → ThreadChange s e (s.threads.set t x)
  | accepted {t k caller x} : ThreadChange s (.queryKey t k caller (some KEY_EXIST))
      (s.threads.set t x)
  | advanced {e t x y} : s.threads[t]? = some y → y.keyAccepted = true →
      ThreadChange s e (s.threads.set t x)

theorem thread_change {s : State} {e : Event} (he : Enabled s e) :
    ThreadChange s e (effect s e).threads := by
  cases e with
  | start initialized =>
    cases initialized with
    | false => exact .same
    | true => exact .spawned rfl
  | setRunning t => exact .moved rfl
  | startContainers t => exact .moved rfl
  | stop => exact .spawned rfl
  | stopContainers t =>
    simp only [effect]
    split
    · exact .moved rfl
    · simpa [State.goOn] using ThreadChange.moved rfl
  | clearRunning t => exact .moved rfl
  | reconnectWait t k caller => exact .moved rfl
  | waited t k caller => exact .moved rfl
  | queryKey t k caller res =>
    by_cases hres : res = some KEY_EXIST
    · subst hres
      exact .accepted
    · apply ThreadChange.moved
      simp [checkKey, hres, Thread.keyAccepted]
  | slept t k caller =>
    apply ThreadChange.moved
    cases s.running <;> rfl
  | stopContainer t k =>
    simpa [effect, State.goOn] using ThreadChange.advanced he rfl
  | init t k => exact .advanced he rfl
  | connectProxyServer t k =>
    simpa [effect, State.goOn] using ThreadChange.moved rfl
  | connected c k => exact .same
  | connectFailed c k => exact .spawned rfl
  | peerClose c => exact .same
  | groupClose c => exact .same
  | channelInactive c k =>
    simp only [effect, channelInactive]
    split
    · exact .spawned rfl
    · exact .same

/-- checkKey returns true to a thread only by an answer with the key. -/
theorem accepted_back {s : State} {e : Event} (he : Enabled s e) {x : Thread}
    (hx : x ∈ (effect s e).threads) (ha : x.keyAccepted = true) :
    (∃ y ∈ s.threads, y.keyAccepted = true) ∨
    ∃ t k caller, e = .queryKey t k caller (some KEY_EXIST) := by
  have hc := thread_change he
  generalize (effect s e).threads = l at hc hx
  have hset : ∀ {t : ThreadId} {z : Thread}, x ∈ s.threads.set t z → z.keyAccepted = false →
      ∃ y ∈ s.threads, y.keyAccepted = true := by
    intro t z hmem hz
    rcases List.mem_or_eq_of_mem_set hmem with hold | rfl
    · exact ⟨x, hold, ha⟩
    · rw [hz] at ha
      cases ha
  cases hc with
  | same => exact Or.inl ⟨x, hx, ha⟩
  | spawned hz =>
    rcases List.mem_append.mp hx with hold | hnew
    · exact Or.inl ⟨x, hold, ha⟩
    · rw [List.mem_singleton.mp hnew, hz] at ha
      cases ha
  | moved hz => exact Or.inl (hset hx hz)
  | accepted => exact Or.inr ⟨_, _, _, rfl⟩
  | advanced hy hya => exact Or.inl ⟨_, List.mem_of_getElem? hy, hya⟩

theorem stopped_back {s : State} {e : Event} (h : (effect s e).stopped = true) :
    s.stopped = true ∨ ∃ t, e = .clearRunning t := by
  cases e with
  | clearRunning t => exact Or.inr ⟨t, rfl⟩
  | start initialized =>
    cases initialized with
    | false => exact Or.inl h
    | true => cases h
  | stopContainers t =>
    left
    simp only [effect] at h
    split at h
    · exact h
    · simpa using h
  | channelInactive c k =>
    left
    simp only [effect, channelInactive] at h
    split at h <;> exact h
  | stopContainer t k => exact Or.inl (by simpa [effect] using h)
  | connectProxyServer t k => exact Or.inl (by simpa [effect] using h)
  | _ => exact Or.inl h

theorem reachable_withheld {s : State} (h : ReachableWhere client KeyWithheld s)
    (hs : s.stopped = true) : ∀ x ∈ s.threads, x.keyAccepted = false := by
  refine ReachableWhere.invariant
    (I := fun s => s.stopped = true → ∀ x ∈ s.threads, x.keyAccepted = false) ?_ ?_ h hs
  · rintro _ rfl hi
    cases hi
  · intro s e ih he hp hs' x hx
    by_contra ha
    have hbefore : ∀ y ∈ s.threads, y.keyAccepted = false := by
      rcases stopped_back hs' with hold | ⟨t, rfl⟩
      · exact ih hold
      · exact hp
    rcases accepted_back he hx (by simpa using ha) with ⟨y, hy, hya⟩ | ⟨t, k, caller, rfl⟩
    · rw [hbefore y hy] at hya
      cases hya
    · rcases stopped_back hs' with hold | ⟨t', ht'⟩
      · exact hp hold rfl
      · cases ht'

/-! The way on from checkKey. -/

/-- A thread that checkKey has let pass can go on to connect, whatever has happened to the
flag it no longer reads. -/
theorem accepted_connects {s : State} {t : ThreadId} {x : Thread} (hx : s.threads[t]? = some x)
    (ha : x.keyAccepted = true) (hs : s.stopped = true) :
    ∃ u k, RunWhere client NoStart s u ∧ Enabled u (.connectProxyServer t k) ∧
      u.stopped = true := by
  have hlt : t < s.threads.length := (List.getElem?_eq_some_iff.mp hx).1
  have hinit : ∀ v : State, ∀ k, v.threads[t]? = some (.init k) → v.stopped = true →
      ∃ u k, RunWhere client NoStart v u ∧ Enabled u (.connectProxyServer t k) ∧
        u.stopped = true := by
    intro v k hv hvs
    have hvt : t < v.threads.length := (List.getElem?_eq_some_iff.mp hv).1
    refine ⟨effect v (.init t k), k,
      .one (M := client) (e := .init t k) hv (by simp [NoStart]), ?_, hvs⟩
    simp [Enabled, effect, State.goOn, init, hvt]
  cases x with
  | connectProxyServer k => exact ⟨s, k, .refl s, hx, hs⟩
  | init k => exact hinit s k hx hs
  | stop k =>
    obtain ⟨u, j, hr, hu⟩ := hinit (effect s (.stopContainer t k)) k
      (by simp [effect, State.goOn, hlt]) (by simpa [effect] using hs)
    exact ⟨u, j, .head (e := .stopContainer t k) hx (by simp [NoStart]) hr, hu⟩
  | _ => cases ha

/-- When the condition is broken, a thread past checkKey is left behind while stopped. -/
theorem not_withheld {s : State} {e : Event} (he : Enabled s e) (hp : ¬ KeyWithheld s e) :
    (effect s e).stopped = true ∧
      ∃ (t : ThreadId) (x : Thread), (effect s e).threads[t]? = some x ∧ x.keyAccepted = true := by
  cases e with
  | queryKey t k caller res =>
    simp only [KeyWithheld, Classical.not_imp, not_not] at hp
    obtain ⟨hs, rfl⟩ := hp
    have hlt : t < s.threads.length := (List.getElem?_eq_some_iff.mp he).1
    refine ⟨hs, t, keyExists k caller, ?_, by cases caller <;> rfl⟩
    simp [effect, State.goOn, checkKey, hlt]
  | clearRunning t =>
    simp only [KeyWithheld, not_forall] at hp
    obtain ⟨x, hx, ha⟩ := hp
    obtain ⟨j, hj⟩ := List.mem_iff_getElem?.mp hx
    have hne : t ≠ j := by
      rintro rfl
      rw [he] at hj
      cases hj
      exact ha rfl
    refine ⟨rfl, j, x, ?_, by simpa using ha⟩
    simp [effect, State.goOn, List.getElem?_set_ne hne, hj]
  | _ => exact absurd trivial hp

/-- Runs that meet the condition never connect while stopped, and a step that breaks it can
be followed by such a connect before any further start. -/
theorem stopped_client_stays_stopped (s : State) :
    (ReachableWhere client KeyWithheld s → ∀ e, client.Enabled s e → QuietWhenStopped s e) ∧
    (Reachable client s → ∀ e, client.Enabled s e → ¬ KeyWithheld s e →
      ∃ u t k, RunWhere client NoStart (effect s e) u ∧
        client.Enabled u (.connectProxyServer t k) ∧
        ¬ QuietWhenStopped u (.connectProxyServer t k)) := by
  constructor
  · rintro hr e he hs t k rfl
    have := reachable_withheld hr hs _ (List.mem_of_getElem? he)
    cases this
  · intro _ e he hp
    obtain ⟨hs, t, x, hx, ha⟩ := not_withheld he hp
    obtain ⟨u, k, hrun, hu, hus⟩ := accepted_connects hx ha hs
    exact ⟨u, t, k, hrun, hu, fun hq => hq hus t k rfl⟩

/-- A client that is connected to the proxy server. -/
def connectedClient : List Event :=
  [.start true, .setRunning 0, .startContainers 0, .queryKey 0 0 .start (some KEY_EXIST),
    .connectProxyServer 0 0, .connected 0 0]

/-- The group closes the command channel once the stop is complete. -/
def stoppedClient : List Event :=
  [.stop, .stopContainers 1, .clearRunning 1, .groupClose 0, .channelInactive 0 0,
    .reconnectWait 2 0 .channelInactive, .waited 2 0 .channelInactive]

def reconnecting : List Event :=
  [.queryKey 2 0 .channelInactive (some KEY_EXIST), .stopContainer 2 0, .init 2 0]

theorem stopped_client_connects : ¬ ∀ s e, Reachable client s → client.Enabled s e →
    QuietWhenStopped s e := by
  intro h
  have hv : ValidTrace client Unrestricted initial
      (connectedClient ++ stoppedClient ++ reconnecting) := by decide +kernel
  have hq := h _ (.connectProxyServer 2 0) (validTrace_reachable rfl hv) (by decide +kernel)
  exact hq (by decide +kernel) 2 0 rfl

/-- The key server forgets the key: the inactive channel's thread sleeps and gives up. -/
theorem stopped_client_stays_stopped_without_key :
    QuietWhenStopped (runTrace client initial (connectedClient ++ stoppedClient ++
      [.queryKey 2 0 .channelInactive none])) (.slept 2 0 .channelInactive) ∧
    ∃ u t k, RunWhere client NoStart (effect (runTrace client initial
        (connectedClient ++ stoppedClient)) (.queryKey 2 0 .channelInactive (some KEY_EXIST))) u ∧
      client.Enabled u (.connectProxyServer t k) ∧
      ¬ QuietWhenStopped u (.connectProxyServer t k) := by
  constructor
  · exact (stopped_client_stays_stopped _).1 (validTrace_reachable rfl (by decide +kernel)) _
      (by decide +kernel)
  · exact (stopped_client_stays_stopped (runTrace client initial
      (connectedClient ++ stoppedClient))).2 (validTrace_reachable rfl (by decide +kernel)) _
      (by decide +kernel) (by decide +kernel)

end ProxyContainer
