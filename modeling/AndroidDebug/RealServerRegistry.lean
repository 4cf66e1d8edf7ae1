import AndroidDebug.ProxyChannelBinding
import AndroidDebug.ProxyConnect

/-! The map of real-server channels and the user ids set on them, against the order in which
the success callback of a borrow and channelInactive of the channel reach them. -/
namespace RealServerRegistry

open TransitionSystem Custody JavaText ProxyMessageCodec ProxyClient ProxyChannelUse
open ProxyChannelBinding ProxyConnect

variable {rt : Runtime} {s : State} {e : Event}

/-! How far the success callback is. -/

def position : BindStep → ℕ
  | .bindProxy => 0
  | .bindReal => 1
  | .sendConnect => 2
  | .enableRead => 3
  | .addRealServerChannel => 4
  | .setUserId => 5

/-- The success callback that binds `r` and `c` has run the statement. -/
def Ran (p : Phase) (step : BindStep) (r : RealId) (c : ProxyId) : Prop :=
  p = .bound r c ∨ ∃ pending, p = .binding r c pending ∧ position step < position pending

theorem Ran.realServer {p : Phase} {step : BindStep} {r : RealId} {c : ProxyId}
    (h : Ran p step r c) : realServerOf p = some r := by
  rcases h with rfl | ⟨pending, rfl, -⟩ <;> rfl

theorem Ran.not_idle {p : Phase} {step : BindStep} {r : RealId} {c : ProxyId}
    (h : Ran p step r c) : p ≠ .idle := by
  rcases h with rfl | ⟨pending, rfl, -⟩ <;> simp

theorem ran_setUserId {p : Phase} {r : RealId} {c : ProxyId} :
    Ran p .setUserId r c ↔ p = .bound r c := by
  constructor
  · rintro (h | ⟨pending, -, hlt⟩)
    · exact h
    · cases pending <;> simp [position] at hlt
  · exact Or.inl

theorem Ran.earlier {p : Phase} {step step' : BindStep} {r : RealId} {c : ProxyId}
    (h : Ran p step r c) (hle : position step' ≤ position step) : Ran p step' r c := by
  rcases h with rfl | ⟨pending, rfl, hlt⟩
  · exact Or.inl rfl
  · exact Or.inr ⟨pending, rfl, Nat.lt_of_le_of_lt hle hlt⟩

theorem ran_after_statement (step pending : BindStep) (r : RealId) (c : ProxyId) :
    Ran (pending.after r c) step r c ↔ position step ≤ position pending := by
  cases pending <;> cases step <;> simp [BindStep.after, Ran, position]

theorem ran_of_after {step pending : BindStep} {r r' : RealId} {c c' : ProxyId}
    (h : Ran (pending.after r' c') step r c) : r' = r ∧ c' = c := by
  rcases h with h | ⟨next, h, -⟩ <;> cases pending <;> cases h <;> exact ⟨rfl, rfl⟩

/-- A statement that has run either had run before or is the one that just ran. -/
theorem ran_back (rt : Runtime) (he : Enabled s e) {q : RequestId} {step : BindStep}
    {r : RealId} {c : ProxyId} (h : Ran ((effect rt s e).request q).phase step r c) :
    Ran (s.request q).phase step r c ∨ e = .success q r c step := by
  rcases request_change rt he q with heq | hadv
  · exact Or.inl (heq ▸ h)
  · generalize (s.request q).phase = p at hadv
    generalize ((effect rt s e).request q).phase = p' at h hadv
    cases hadv with
    | success =>
      rename_i r' c' pending
      obtain ⟨rfl, rfl⟩ := ran_of_after h
      have hle := (ran_after_statement step pending r' c').mp h
      rcases Nat.lt_or_eq_of_le hle with hlt | heq
      · exact Or.inl (Or.inr ⟨pending, rfl, hlt⟩)
      · right
        cases step <;> cases pending <;> first | rfl | cases heq
    | received hm =>
      rcases phaseOfData_cases rt _ with ⟨ip, port, hd⟩ | ⟨x, -, hd⟩ <;> rw [hd] at h <;>
        rcases h with h | ⟨pending, h, -⟩ <;> cases h
    | pooled hl =>
      rcases h with h | ⟨pending, h, hlt⟩
      · cases h
      · cases h
        cases hlt
    | proxyConnected hu =>
      rcases h with h | ⟨pending, h, hlt⟩
      · cases h
      · cases h
        cases hlt
    | _ => rcases h with h | ⟨pending, h, -⟩ <;> cases h

theorem ran_kept (rt : Runtime) (he : Enabled s e) {q : RequestId} {step : BindStep}
    {r : RealId} {c : ProxyId} (h : Ran (s.request q).phase step r c) :
    Ran ((effect rt s e).request q).phase step r c := by
  rcases request_change rt he q with heq | hadv
  · exact heq ▸ h
  · generalize (s.request q).phase = p at h hadv
    generalize ((effect rt s e).request q).phase = p' at hadv
    cases hadv with
    | success =>
      rcases h with h | ⟨pending, h, hlt⟩
      · cases h
      · cases h
        exact (ran_after_statement step _ r c).mpr hlt.le
    | _ => rcases h with h | ⟨pending, h, -⟩ <;> cases h

theorem ran_owner (ho : Owned s) {q : RequestId} {step : BindStep} {r : RealId} {c : ProxyId}
    (h : Ran (s.request q).phase step r c) : (s.real r).openedFor = some q :=
  (ho.owner q r).mp h.realServer

/-- Only one request's callback works on a channel. -/
theorem ran_unique (ho : Owned s) {q p : RequestId} {step step' : BindStep} {r : RealId}
    {c y : ProxyId} (h : Ran (s.request q).phase step r c)
    (k : Ran (s.request p).phase step' r y) : q = p := by
  have hq := ran_owner ho h
  have hp := ran_owner ho k
  exact Option.some.inj (hq.symm.trans hp)

theorem ran_userId (rt : Runtime) (he : Enabled s e) {q : RequestId} {step : BindStep}
    {r : RealId} {c : ProxyId} (h : Ran (s.request q).phase step r c) :
    ((effect rt s e).request q).userId = (s.request q).userId :=
  (request_captured rt he h.not_idle).1

/-! What one step does to the user ids and to the map. -/

/-- Whether a real-server channel has a user id and whether it has gone inactive, after an
event. -/
inductive StandingChange (s : State) (r : RealId) : Event → RealServerChannel → Prop where
  | same {e x} : x.userId = (s.real r).userId →
      (x.life = .inactive → (s.real r).life = .inactive) → StandingChange s r e x
  | userIdSet {q c} : StandingChange s r (.success q r c .setUserId)
      { s.real r with userId := some (s.request q).userId }
  | wentInactive : StandingChange s r (.realInactive r) { s.real r with life := .inactive }

theorem StandingChange.frame {x : RealServerChannel} (hu : x.userId = (s.real r).userId)
    (hl : x.life = (s.real r).life) : StandingChange s r e x :=
  .same hu fun h => hl ▸ h

theorem standing_change (rt : Runtime) (s : State) (e : Event) (r : RealId) :
    StandingChange s r e ((effect rt s e).real r) := by
  cases e with
  | success q z c step =>
    by_cases h : r = z
    · subst h
      cases step with
      | setUserId => simpa [effect, success] using StandingChange.userIdSet
      | _ => exact .frame (by simp [effect, success]) (by simp [effect, success])
    · cases step <;> exact .frame (by simp [effect, success, h]) (by simp [effect, success, h])
  | realInactive z =>
    by_cases h : r = z
    · subst h
      simpa [effect] using StandingChange.wentInactive
    · exact .frame (by simp [effect, h]) (by simp [effect, h])
  | channelRead c m q =>
    by_cases hc : m.type = TYPE_CONNECT
    · simpa [effect_connect hc] using StandingChange.frame rfl rfl
    · by_cases hd : m.type = TYPE_DISCONNECT
      · simpa [effect_disconnect hd] using StandingChange.frame rfl rfl
      · simpa [effect_otherMessage hc hd] using StandingChange.frame rfl rfl
  | realConnected q z =>
    by_cases h : r = z
    · exact .same (by simp [effect, h]) (by simp [effect, h])
    · exact .frame (by simp [effect, h]) (by simp [effect, h])
  | closeRealServer c z =>
    by_cases h : r = z <;>
      exact .frame (by simp [effect, closeRealServer, h]) (by simp [effect, closeRealServer, h])
  | realClose z =>
    by_cases h : r = z
    · exact .same (by simp [effect, h]) (by simp [effect, h])
    · exact .frame (by simp [effect, h]) (by simp [effect, h])
  | realWritable z b =>
    by_cases h : r = z <;> exact .frame (by simp [effect, h]) (by simp [effect, h])
  | proxyInactive c =>
    rcases proxyInactive_real s c r with h | h <;>
      exact .frame (by simp [effect, h]) (by simp [effect, h])
  | realRead z bytes =>
    simp only [effect]
    split
    · by_cases h : r = z
      · refine .same (by simp [h]) ?_
        cases hl : (s.real z).life <;> simp [h, hl, Life.close]
      · exact .frame (by simp [h]) (by simp [h])
    · exact .frame rfl rfl
  | realWritabilityChanged z =>
    simp only [effect]
    split <;> by_cases h : r = z <;> exact .frame (by simp [h]) (by simp [h])
  | proxyWritabilityChanged c =>
    simp only [effect]
    split
    · exact .frame rfl rfl
    · rename_i z _
      by_cases h : r = z <;> exact .frame (by simp [h]) (by simp [h])
  | _ => simpa [effect] using StandingChange.frame rfl rfl

theorem userId_change (rt : Runtime) (s : State) (e : Event) (r : RealId) :
    ((effect rt s e).real r).userId = (s.real r).userId ∨
    ∃ q c, e = .success q r c .setUserId := by
  have hx := standing_change rt s e r
  generalize (effect rt s e).real r = x at hx
  cases hx with
  | same hu => exact Or.inl hu
  | userIdSet => exact Or.inr ⟨_, _, rfl⟩
  | wentInactive => exact Or.inl rfl

theorem inactive_back (rt : Runtime) {r : RealId}
    (h : ((effect rt s e).real r).life = .inactive) :
    (s.real r).life = .inactive ∨ e = .realInactive r := by
  have hx := standing_change rt s e r
  generalize (effect rt s e).real r = x at hx h
  cases hx with
  | same _ hl => exact Or.inl (hl h)
  | userIdSet => exact Or.inl h
  | wentInactive => exact Or.inr rfl

inductive RegistryChange (s : State) : Event → List (JString × RealId) → Prop where
  | same (d) : RegistryChange s d s.realServerChannels
  | added {q r c} : RegistryChange s (.success q r c .addRealServerChannel)
      (((s.request q).userId, r) ::
        s.realServerChannels.filter fun p => p.1 ≠ (s.request q).userId)
  | removed {r u} : (s.real r).userId = some u → RegistryChange s (.realInactive r)
      (s.realServerChannels.filter fun p => p.1 ≠ u)
  | cleared {c} : RegistryChange s (.proxyInactive c) []

theorem RegistryChange.unchanged {t : State}
    (h : t.realServerChannels = s.realServerChannels) :
    RegistryChange s e t.realServerChannels := by
  rw [h]
  exact .same e

theorem registry_change (rt : Runtime) (s : State) (e : Event) :
    RegistryChange s e (effect rt s e).realServerChannels := by
  cases e with
  | success q r c step =>
    cases step with
    | addRealServerChannel => exact .added
    | _ => exact .unchanged rfl
  | realInactive r =>
    simp only [effect, realInactive]
    split
    · exact .unchanged rfl
    · rename_i u hu
      exact .removed hu
  | proxyInactive c =>
    simp only [effect, proxyInactive]
    split
    · exact .cleared
    · split
      · exact .unchanged rfl
      · split <;> exact .unchanged rfl
  | channelRead c m q =>
    by_cases hc : m.type = TYPE_CONNECT
    · rw [effect_connect hc]
      exact .unchanged rfl
    · by_cases hd : m.type = TYPE_DISCONNECT
      · rw [effect_disconnect hd]
        unfold handleDisconnectMessage
        split <;> exact .unchanged rfl
      · rw [effect_otherMessage hc hd]
        exact .same _
  | returnProxyChanel c r =>
    simp only [effect, returnProxyChanel]
    split <;> exact .unchanged rfl
  | borrowProxyChanel q r =>
    simp only [effect, borrowProxyChanel]
    split <;> exact .unchanged rfl
  | realRead r bytes =>
    simp only [effect]
    split <;> exact .unchanged rfl
  | realWritabilityChanged r =>
    simp only [effect]
    split <;> exact .unchanged rfl
  | proxyWritabilityChanged c =>
    simp only [effect]
    split <;> exact .unchanged rfl
  | _ => exact .unchanged rfl

theorem registry_added {u : JString} {r : RealId} (rt : Runtime)
    (h : (u, r) ∈ (effect rt s e).realServerChannels) :
    (u, r) ∈ s.realServerChannels ∨
    ∃ q c, e = .success q r c .addRealServerChannel ∧ (s.request q).userId = u := by
  have hx := registry_change rt s e
  generalize (effect rt s e).realServerChannels = l at hx h
  cases hx with
  | same => exact Or.inl h
  | added =>
    rcases List.mem_cons.mp h with heq | hmem
    · cases heq
      exact Or.inr ⟨_, _, rfl, rfl⟩
    · exact Or.inl (List.mem_of_mem_filter hmem)
  | removed hu => exact Or.inl (List.mem_of_mem_filter h)
  | cleared => cases h

/-- What has been recorded so far about the channels whose callbacks are under way. -/
structure Recorded (s : State) : Prop where
  nextChannel : ∀ q r c, Ran (s.request q).phase .bindReal r c →
    (s.real r).nextChannel = some c
  userId : ∀ q r c, Ran (s.request q).phase .setUserId r c →
    (s.real r).userId = some (s.request q).userId
  setBy : ∀ r u, (s.real r).userId = some u → ∃ q c, Ran (s.request q).phase .setUserId r c
  entry : ∀ u r, (u, r) ∈ s.realServerChannels →
    ∃ q c, (s.request q).userId = u ∧ Ran (s.request q).phase .addRealServerChannel r c

theorem recorded_nextChannel (rt : Runtime) (ho : Owned s) (h : Recorded s) (he : Enabled s e)
    (q : RequestId) (r : RealId) (c : ProxyId)
    (hq : Ran ((effect rt s e).request q).phase .bindReal r c) :
    ((effect rt s e).real r).nextChannel = some c := by
  rcases ran_back rt he hq with hran | rfl
  · have hn := h.nextChannel q r c hran
    have hx := real_change rt he r
    generalize (effect rt s e).real r = x at hx
    cases hx with
    | same hs => exact hs.nextChannel.trans hn
    | opened => exact hn
    | bound =>
      rename_i p y
      have hp : (s.request p).phase = .binding r y .bindReal := he
      obtain rfl : q = p := by
        have howner : (s.real r).openedFor = some p := (ho.owner p r).mp (by rw [hp]; rfl)
        exact Option.some.inj ((ran_owner ho hran).symm.trans howner)
      rcases hran with hb | ⟨pending, hb, hlt⟩
      · rw [hp] at hb
        cases hb
      · rw [hp] at hb
        cases hb
        cases hlt.ne rfl
  · simp [effect, success]

theorem recorded_userId (rt : Runtime) (ho : Owned s) (h : Recorded s) (he : Enabled s e)
    (q : RequestId) (r : RealId) (c : ProxyId)
    (hq : Ran ((effect rt s e).request q).phase .setUserId r c) :
    ((effect rt s e).real r).userId = some ((effect rt s e).request q).userId := by
  rcases ran_back rt he hq with hran | rfl
  · rw [ran_userId rt he hran]
    rcases userId_change rt s e r with heq | ⟨p, y, rfl⟩
    · exact heq.trans (h.userId q r c hran)
    · have hp : (s.request p).phase = .binding r y .setUserId := he
      obtain rfl : q = p := by
        have howner : (s.real r).openedFor = some p := (ho.owner p r).mp (by rw [hp]; rfl)
        exact Option.some.inj ((ran_owner ho hran).symm.trans howner)
      rw [ran_setUserId, hp] at hran
      cases hran
  · simp [effect, success]

theorem Recorded.step (rt : Runtime) (ho : Owned s) (h : Recorded s) (he : Enabled s e) :
    Recorded (effect rt s e) := by
  refine ⟨recorded_nextChannel rt ho h he, recorded_userId rt ho h he, ?_, ?_⟩
  · intro r u hu
    rcases userId_change rt s e r with heq | ⟨q, c, rfl⟩
    · rw [heq] at hu
      obtain ⟨q, c, hq⟩ := h.setBy r u hu
      exact ⟨q, c, ran_kept rt he hq⟩
    · exact ⟨q, c, Or.inl (by simp [effect, success])⟩
  · intro u r hmem
    rcases registry_added rt hmem with hold | ⟨q, c, rfl, hu⟩
    · obtain ⟨q, c, hu, hq⟩ := h.entry u r hold
      exact ⟨q, c, (ran_userId rt he hq).trans hu, ran_kept rt he hq⟩
    · refine ⟨q, c, by simpa [effect, success] using hu, Or.inr ⟨.setUserId, ?_, by decide⟩⟩
      simp [effect, success]

theorem reachable_recorded {rt : Runtime} {s : State} (h : Reachable (client rt) s) :
    Recorded s := by
  refine ReachableWhere.invariant_with (J := Owned) (I := Recorded)
    (fun _ => reachable_owned) ?_ ?_ h
  · rintro _ rfl
    constructor <;> simp [initial, Ran]
  · intro s e ho hr he _
    have := hr.step rt ho he
    exact ⟨this.nextChannel, this.userId, this.setBy, this.entry⟩

/-! The contract of the registry. -/

/-- The channel whose channelInactive the event runs. -/
def inactiveOn : Event → Option RealId
  | .realInactive r => some r
  | _ => none

def isBound : Phase → Bool
  | .bound _ _ => true
  | _ => false

/-- channelInactive of a real-server channel runs only when the success callback of the
request that opened it has run to its end. -/
def ClosesBound (s : State) (e : Event) : Prop :=
  ∀ r ∈ inactiveOn e, ∃ q ∈ (s.real r).openedFor, isBound (s.request q).phase = true

instance (s : State) (e : Event) : Decidable (ClosesBound s e) :=
  inferInstanceAs (Decidable (∀ _ ∈ _, _))

/-- removeRealServerChannel is not called with a null user id. -/
def RemovesByUserId (s : State) (e : Event) : Prop :=
  ∀ r ∈ inactiveOn e, (s.real r).userId ≠ none

/-- The channel is in no entry of the map, and the proxy channel it used has been told. -/
def SignedOff (s : State) (r : RealId) : Prop :=
  (∀ u, (u, r) ∉ s.realServerChannels) ∧
  ∃ q c, (s.real r).openedFor = some q ∧
    (s.real r).userId = some (s.request q).userId ∧ (s.real r).nextChannel = some c ∧
    .proxyMessage c (disconnectMessage (s.request q).userId) (.realServer r) ∈ s.sent

/-- The step keeps every entry and every message away from a channel signed off before. -/
theorem SignedOff.step (rt : Runtime) (ho : Owned s) (h : Recorded s) (he : Enabled s e)
    {r : RealId} (hs : SignedOff s r) : SignedOff ((client rt).next s e) r := by
  obtain ⟨hout, q, c, howner, hu, hn, hsent⟩ := hs
  obtain ⟨p, y, hp⟩ := h.setBy r _ hu
  obtain rfl : q = p := Option.some.inj (howner.symm.trans (ran_owner ho hp))
  obtain rfl : c = y := by
    have := h.nextChannel q r y (hp.earlier (by decide))
    exact Option.some.inj (hn.symm.trans this)
  have hp' := ran_kept rt he hp
  have hr' := h.step rt ho he
  refine ⟨?_, q, c, openedFor_mono rt ho he howner, hr'.userId q r c hp',
    hr'.nextChannel q r c (hp'.earlier (by decide)), ?_⟩
  · intro u hmem
    rcases registry_added rt hmem with hold | ⟨z, x, rfl, -⟩
    · exact hout u hold
    · have hz : (s.request z).phase = .binding r x .addRealServerChannel := he
      obtain rfl : q = z := by
        have := (ho.owner z r).mp (by rw [hz]; rfl)
        exact Option.some.inj (howner.symm.trans this)
      rw [ran_setUserId, hz] at hp
      cases hp
  · have huser : ((effect rt s e).request q).userId = (s.request q).userId :=
      ran_userId rt he hp
    change _ ∈ s.sent ++ writes rt s e
    simp only [client, huser]
    exact List.mem_append_left _ hsent

/-- channelInactive itself signs the channel off when the callback is through. -/
theorem signedOff_by_inactive (rt : Runtime) (ho : Owned s) (h : Recorded s) {r : RealId}
    (hc : ClosesBound s (.realInactive r)) :
    SignedOff ((client rt).next s (.realInactive r)) r := by
  obtain ⟨q, howner, hb⟩ := hc r rfl
  have hr := (ho.owner q r).mpr howner
  cases hq : (s.request q).phase with
  | bound z c =>
    rw [hq] at hr
    obtain rfl : z = r := Option.some.inj hr
    have hran : Ran (s.request q).phase .setUserId z c := Or.inl hq
    have hu := h.userId q z c hran
    have hn := h.nextChannel q z c (hran.earlier (by decide))
    refine ⟨?_, q, c, ?_, ?_, ?_, ?_⟩
    · intro u hmem
      have hkept : (u, z) ∈ s.realServerChannels ∧ u ≠ (s.request q).userId := by
        simpa [client, effect, realInactive, hu] using hmem
      obtain ⟨p, y, hpu, hp⟩ := h.entry u z hkept.1
      obtain rfl : q = p := ran_unique ho hran hp
      exact hkept.2 hpu.symm
    · simpa [client, effect] using howner
    · simpa [client, effect] using hu
    · simpa [client, effect] using hn
    · simp [client, effect, writes, hu, hn]
  | _ =>
    rw [hq] at hb
    cases hb

theorem reachable_signedOff {rt : Runtime} {s : State}
    (h : ReachableWhere (client rt) ClosesBound s) {r : RealId}
    (hl : (s.real r).life = .inactive) : SignedOff s r := by
  refine ReachableWhere.invariant_with (J := fun s => Owned s ∧ Recorded s)
    (I := fun s => ∀ r, (s.real r).life = .inactive → SignedOff s r)
    (fun _ hr => ⟨reachable_owned hr, reachable_recorded hr⟩) ?_ ?_ h r hl
  · rintro _ rfl r hl
    cases hl
  · rintro s e ⟨ho, hr⟩ hs he hc r hl
    rcases inactive_back rt hl with hold | rfl
    · exact (hs r hold).step rt ho hr he
    · exact signedOff_by_inactive rt ho hr hc

theorem removesByUserId_iff (ho : Owned s) (h : Recorded s) :
    RemovesByUserId s e ↔ ClosesBound s e := by
  constructor
  · intro hu r hr
    obtain ⟨u, hu⟩ := Option.ne_none_iff_exists'.mp (hu r hr)
    obtain ⟨q, c, hq⟩ := h.setBy r u hu
    refine ⟨q, ran_owner ho hq, ?_⟩
    rw [ran_setUserId.mp hq]
    rfl
  · intro hc r hr
    obtain ⟨q, howner, hb⟩ := hc r hr
    have hreal := (ho.owner q r).mpr howner
    cases hq : (s.request q).phase with
    | bound z c =>
      rw [hq] at hreal
      obtain rfl : z = r := Option.some.inj hreal
      rw [h.userId q z c (Or.inl hq)]
      exact Option.some_ne_none _
    | _ =>
      rw [hq] at hb
      cases hb

/-- When the condition holds of every step, no channel that has gone inactive is registered
and each has told its proxy channel; a step that breaks the condition is exactly one that
removes by a null user id. -/
theorem registry_follows_channels {rt : Runtime} {s : State}
    (h : ReachableWhere (client rt) ClosesBound s) :
    (∀ r, (s.real r).life = .inactive → SignedOff s r) ∧
    ∀ e, Enabled s e → (RemovesByUserId s e ↔ ClosesBound s e) := by
  refine ⟨fun r hl => reachable_signedOff h hl, fun e _ => ?_⟩
  exact removesByUserId_iff (reachable_owned h.reachable) (reachable_recorded h.reachable)

/-- The real server hangs up as soon as it is read from. -/
def hangUpBeforeAdd : List Event :=
  [.cmdConnected 0, .channelRead 0 (connectRequest "u1" "h:1") 0, .realConnected 0 0,
    .borrowProxyChanel 0 0, .proxyConnected 0 0 1] ++ (bindSteps 0 0 1).take 4 ++
  [.realClose 0, .realInactive 0] ++ (bindSteps 0 0 1).drop 4

theorem registry_keeps_dead_channel :
    (¬ ∀ s, Reachable (client device) s → ∀ e, Enabled s e → RemovesByUserId s e) ∧
    ¬ ∀ s, Reachable (client device) s → ∀ r, (s.real r).life = .inactive → SignedOff s r := by
  constructor
  · intro h
    have hv : ValidTrace (client device) Unrestricted initial (hangUpBeforeAdd.take 10) := by
      decide
    exact h _ (validTrace_reachable rfl hv) (.realInactive 0) (by decide) 0 rfl (by decide)
  · intro h
    have hv : ValidTrace (client device) Unrestricted initial hangUpBeforeAdd := by decide
    have hs := h _ (validTrace_reachable rfl hv) 0 (by decide)
    exact hs.1 (ofString "u1") (by decide)

/-- The first user's real server hangs up once everything is in place. -/
theorem registry_follows_channels_hang_up :
    SignedOff (runTrace (client device) initial
      (firstConnection ++ [.realClose 0, .realInactive 0])) 0 :=
  (registry_follows_channels (validTrace_reachable rfl (by decide))).1 0 (by decide)

end RealServerRegistry
