import AndroidDebug.RealServerRegistry

/-! Back-pressure of the proxy client: a channel is read while the one it is bound to is
writable. AUTO_READ is written by the callbacks of both channels, on binding and on return to the
pool. -/
namespace BackPressure

open TransitionSystem Custody JavaText ProxyMessageCodec ProxyClient ProxyChannelUse
open ProxyChannelBinding RealServerRegistry

/-- AUTO_READ, `isWritable` and whether channelWritabilityChanged has yet to run. -/
structure Flow where
  autoRead : Bool
  writable : Bool
  pending : Bool
  deriving DecidableEq, Repr

def proxyFlow (x : ProxyChannel) : Flow := ⟨x.autoRead, x.writable, x.writabilityChanged⟩

def realFlow (x : RealServerChannel) : Flow := ⟨x.autoRead, x.writable, x.writabilityChanged⟩

/-- The success callback has bound the two and let the real server be read, and nothing has
parted them. -/
structure Paired (s : State) (c : ProxyId) (r : RealId) : Prop where
  proxy : (s.proxy c).nextChannel = some r
  real : (s.real r).nextChannel = some c
  enabled : ∃ q, Ran (s.request q).phase .enableRead r c

def Live (s : State) (c : ProxyId) (r : RealId) : Prop :=
  (s.proxy c).life = .active ∧ (s.real r).life = .active

def Quiet (s : State) : Prop :=
  (∀ c, (s.proxy c).writabilityChanged = false) ∧ ∀ r, (s.real r).writabilityChanged = false

structure Coupled (s : State) : Prop where
  real : ∀ c r, Paired s c r → Live s c r → (s.real r).autoRead = (s.proxy c).writable
  proxy : ∀ c r, Paired s c r → Live s c r → (s.proxy c).autoRead = (s.real r).writable
  pooled : ∀ c ∈ s.proxyChannelPool, (s.proxy c).autoRead = true

def isReturning : Option Remaining → Bool
  | some (.returnProxyChanel _) => true
  | _ => false

/-- AUTO_READ of the channel counts: it is in the pool, or active, not on its way back there and
not bound to a real server that has gone. -/
def Watched (s : State) (c : ProxyId) : Prop :=
  c ∈ s.proxyChannelPool ∨
    (s.proxy c).life = .active ∧ isReturning (s.proxy c).remaining = false ∧
      ∀ r ∈ (s.proxy c).nextChannel, (s.real r).life = .active

/-- Two live channels are writable when they are bound, or the callback that tells otherwise is
still to come; and a real server's callback writes to the channel bound to it, or to one where
that changes nothing that counts. -/
def InTime (s : State) : Event → Prop
  | .success _ r c .bindReal =>
    (s.proxy c).nextChannel = some r → Live s c r →
      (s.real r).writable = true ∨ (s.real r).writabilityChanged = true
  | .success _ r c .enableRead =>
    (s.proxy c).nextChannel = some r → Live s c r →
      (s.proxy c).writable = true ∨ (s.proxy c).writabilityChanged = true
  | .realWritabilityChanged r =>
    ∀ c ∈ (s.real r).nextChannel, Watched s c → (s.proxy c).nextChannel = some r ∨
      (s.proxy c).autoRead = (s.real r).writable
  | _ => True

instance (s : State) (c : ProxyId) (r : RealId) : Decidable (Live s c r) :=
  inferInstanceAs (Decidable (_ ∧ _))

instance (s : State) (c : ProxyId) : Decidable (Watched s c) :=
  inferInstanceAs (Decidable (_ ∨ _ ∧ _ ∧ ∀ _ ∈ _, _))

instance (s : State) : (e : Event) → Decidable (InTime s e)
  | .success _ r c .bindReal =>
    inferInstanceAs (Decidable (_ → Live s c r → (s.real r).writable = true ∨ _))
  | .success _ r c .enableRead =>
    inferInstanceAs (Decidable (_ → Live s c r → (s.proxy c).writable = true ∨ _))
  | .realWritabilityChanged r => inferInstanceAs (Decidable (∀ c ∈ (s.real r).nextChannel, _))
  | .success _ _ _ .bindProxy | .success _ _ _ .sendConnect
  | .success _ _ _ .addRealServerChannel | .success _ _ _ .setUserId
  | .cmdConnected _ | .channelRead _ _ _ | .returnProxyChanel _ _ | .closeRealServer _ _
  | .realConnected _ _ | .realConnectFailed _ | .borrowProxyChanel _ _ | .proxyConnected _ _ _
  | .proxyConnectFailed _ _ | .realRead _ _ | .realClose _ | .realInactive _ | .proxyClose _
  | .proxyInactive _ | .removeProxyChanel _ | .realWritable _ _ | .proxyWritable _ _
  | .proxyWritabilityChanged _ => isTrue trivial

variable {rt : Runtime} {s : State} {e : Event}

/-! What one step does to the reading and writing of a channel. -/

/-- A proxy channel after an event, by what the event did to its flow. -/
inductive ProxyFlow (s : State) (c : ProxyId) : Event → ProxyChannel → Prop where
  | same {e x} : proxyFlow x = proxyFlow (s.proxy c) → ProxyFlow s c e x
  | returned {r x} : x.nextChannel = none →
      proxyFlow x = { proxyFlow (s.proxy c) with autoRead := true } →
      ProxyFlow s c (.returnProxyChanel c r) x
  | written {r x} : (s.real r).nextChannel = some c →
      proxyFlow x = { proxyFlow (s.proxy c) with autoRead := (s.real r).writable } →
      ProxyFlow s c (.realWritabilityChanged r) x
  | flipped {b x} : proxyFlow x = ⟨(s.proxy c).autoRead, b, true⟩ →
      ProxyFlow s c (.proxyWritable c b) x
  | called {x} : proxyFlow x = { proxyFlow (s.proxy c) with pending := false } →
      ProxyFlow s c (.proxyWritabilityChanged c) x

theorem proxyFlow_setProxy {y : ProxyId} {x : ProxyChannel}
    (h : proxyFlow x = proxyFlow (s.proxy y)) (c : ProxyId) :
    proxyFlow ((s.setProxy y x).proxy c) = proxyFlow (s.proxy c) := by
  by_cases hc : c = y
  · subst hc
    simpa using h
  · simp [hc]

theorem proxy_flow (rt : Runtime) (s : State) (e : Event) (c : ProxyId) :
    ProxyFlow s c e ((effect rt s e).proxy c) := by
  cases e with
  | channelRead x m q =>
    apply ProxyFlow.same
    by_cases hc : m.type = TYPE_CONNECT
    · simp [effect_connect hc]
    by_cases hm : m.type = TYPE_DISCONNECT
    · rw [effect_disconnect hm]
      by_cases h : c = x
      · subst h
        unfold handleDisconnectMessage
        split <;> simp [proxyFlow]
      · rw [handleDisconnectMessage_other _ _ _ h]
    · rw [effect_otherMessage hc hm]
  | returnProxyChanel x r =>
    by_cases h : c = x
    · subst h
      by_cases hp : s.proxyChannelPool.length > MAX_POOL_SIZE
      · apply ProxyFlow.same
        simp [effect, returnProxyChanel, hp, proxyFlow]
      · apply ProxyFlow.returned <;> simp [effect, returnProxyChanel, hp, proxyFlow]
    · apply ProxyFlow.same
      simp only [effect, returnProxyChanel]
      split <;> simp [h]
  | success q r x step =>
    apply ProxyFlow.same
    by_cases h : c = x <;> cases step <;> simp [effect, success, h, proxyFlow]
  | realRead r bytes =>
    apply ProxyFlow.same
    simp only [effect]
    split <;> simp
  | realWritabilityChanged r =>
    cases hn : (s.real r).nextChannel with
    | none =>
      apply ProxyFlow.same
      simp [effect, hn]
    | some x =>
      by_cases h : c = x
      · subst h
        apply ProxyFlow.written hn
        simp [effect, hn, proxyFlow]
      · apply ProxyFlow.same
        simp [effect, hn, h]
  | proxyWritable x b =>
    by_cases h : c = x
    · subst h
      apply ProxyFlow.flipped
      simp [effect, proxyFlow]
    · apply ProxyFlow.same
      simp [effect, h]
  | proxyWritabilityChanged x =>
    have hproxy : (effect rt s (.proxyWritabilityChanged x)).proxy c =
        if c = x then { s.proxy x with writabilityChanged := false } else s.proxy c := by
      simp only [effect]
      split <;> simp
    rw [hproxy]
    by_cases h : c = x
    · subst h
      apply ProxyFlow.called
      simp [proxyFlow]
    · apply ProxyFlow.same
      rw [if_neg h]
  | closeRealServer x r =>
    apply ProxyFlow.same
    by_cases h : c = x <;> simp [effect, closeRealServer, h, proxyFlow]
  | cmdConnected x => exact .same (proxyFlow_setProxy (by rfl) c)
  | proxyConnected q r x => exact .same (proxyFlow_setProxy (by rfl) c)
  | proxyClose x => exact .same (proxyFlow_setProxy (by rfl) c)
  | removeProxyChanel x => exact .same (proxyFlow_setProxy (by rfl) c)
  | proxyInactive x =>
    apply ProxyFlow.same
    by_cases h : c = x <;> simp [effect, h, proxyFlow]
  | _ => exact .same (by simp [effect])

inductive RealFlow (s : State) (r : RealId) : Event → RealServerChannel → Prop where
  | same {e x} : realFlow x = realFlow (s.real r) → RealFlow s r e x
  | opened {q x} : realFlow x = { realFlow (s.real r) with autoRead := false } →
      RealFlow s r (.realConnected q r) x
  | enabled {q c x} : realFlow x = { realFlow (s.real r) with autoRead := true } →
      RealFlow s r (.success q r c .enableRead) x
  | written {c x} : (s.proxy c).nextChannel = some r →
      realFlow x = { realFlow (s.real r) with autoRead := (s.proxy c).writable } →
      RealFlow s r (.proxyWritabilityChanged c) x
  | flipped {b x} : realFlow x = ⟨(s.real r).autoRead, b, true⟩ →
      RealFlow s r (.realWritable r b) x
  | called {x} : realFlow x = { realFlow (s.real r) with pending := false } →
      RealFlow s r (.realWritabilityChanged r) x

theorem realFlow_setReal {z : RealId} {x : RealServerChannel}
    (h : realFlow x = realFlow (s.real z)) (r : RealId) :
    realFlow ((s.setReal z x).real r) = realFlow (s.real r) := by
  by_cases hr : r = z
  · subst hr
    simpa using h
  · simp [hr]

theorem real_flow (rt : Runtime) (s : State) (e : Event) (r : RealId) :
    RealFlow s r e ((effect rt s e).real r) := by
  cases e with
  | channelRead c m q =>
    apply RealFlow.same
    by_cases hc : m.type = TYPE_CONNECT
    · simp [effect_connect hc]
    by_cases hm : m.type = TYPE_DISCONNECT
    · simp [effect_disconnect hm]
    · rw [effect_otherMessage hc hm]
  | realConnected q z =>
    by_cases h : r = z
    · subst h
      apply RealFlow.opened
      simp [effect, realFlow]
    · apply RealFlow.same
      simp [effect, h]
  | success q z c step =>
    by_cases h : r = z
    · subst h
      cases step with
      | enableRead =>
        apply RealFlow.enabled
        simp [effect, success, realFlow]
      | _ =>
        apply RealFlow.same
        simp [effect, success, realFlow]
    · apply RealFlow.same
      cases step <;> simp [effect, success, h]
  | realRead z bytes =>
    apply RealFlow.same
    simp only [effect]
    split
    · by_cases h : r = z <;> simp [h, realFlow]
    · rfl
  | proxyInactive c =>
    apply RealFlow.same
    rcases proxyInactive_real s c r with h | h <;> simp [effect, h, realFlow]
  | realWritable z b =>
    by_cases h : r = z
    · subst h
      apply RealFlow.flipped
      simp [effect, realFlow]
    · apply RealFlow.same
      simp [effect, h]
  | realWritabilityChanged z =>
    have hreal : (effect rt s (.realWritabilityChanged z)).real r =
        if r = z then { s.real z with writabilityChanged := false } else s.real r := by
      simp only [effect]
      split <;> simp
    rw [hreal]
    by_cases h : r = z
    · subst h
      apply RealFlow.called
      simp [realFlow]
    · apply RealFlow.same
      rw [if_neg h]
  | proxyWritabilityChanged c =>
    cases hn : (s.proxy c).nextChannel with
    | none =>
      apply RealFlow.same
      simp [effect, hn]
    | some z =>
      by_cases h : r = z
      · subst h
        apply RealFlow.written hn
        simp [effect, hn, realFlow]
      · apply RealFlow.same
        simp [effect, hn, h]
  | closeRealServer c z => exact .same (realFlow_setReal (by rfl) r)
  | realClose z => exact .same (realFlow_setReal (by rfl) r)
  | realInactive z =>
    apply RealFlow.same
    by_cases h : r = z <;> simp [effect, h, realFlow]
  | _ => exact .same (by simp [effect])

theorem close_ne_active (l : Life) : l.close ≠ .active := by
  cases l <;> simp [Life.close]

/-- A channel is opened once. -/
theorem proxy_active_before (rt : Runtime) (he : Enabled s e) {c : ProxyId}
    (hopened : (s.proxy c).life ≠ .unopened)
    (h : ((effect rt s e).proxy c).life = .active) : (s.proxy c).life = .active := by
  cases e with
  | cmdConnected x =>
    by_cases hx : c = x
    · subst hx
      exact absurd he hopened
    · simpa [effect, hx] using h
  | proxyConnected q r x =>
    by_cases hx : c = x
    · subst hx
      exact absurd he.2 hopened
    · simpa [effect, hx] using h
  | proxyClose x =>
    by_cases hx : c = x
    · subst hx
      exact he
    · simpa [effect, hx] using h
  | proxyInactive x =>
    by_cases hx : c = x
    · subst hx
      simp [effect] at h
    · simpa [effect, hx] using h
  | returnProxyChanel x r =>
    by_cases hx : c = x
    · subst hx
      simp only [effect, returnProxyChanel] at h
      split at h
      · simp [close_ne_active] at h
      · simpa using h
    · simp only [effect, returnProxyChanel] at h
      split at h <;> simpa [hx] using h
  | channelRead x m q =>
    by_cases hc : m.type = TYPE_CONNECT
    · simpa [effect_connect hc] using h
    by_cases hm : m.type = TYPE_DISCONNECT
    · rw [effect_disconnect hm] at h
      by_cases hx : c = x
      · subst hx
        unfold handleDisconnectMessage at h
        split at h <;> simpa using h
      · rwa [handleDisconnectMessage_other _ _ _ hx] at h
    · rwa [effect_otherMessage hc hm] at h
  | success q r x step =>
    by_cases hx : c = x <;> cases step <;> simpa [effect, success, hx] using h
  | realRead r bytes =>
    simp only [effect] at h
    split at h <;> simpa using h
  | realWritabilityChanged r =>
    simp only [effect] at h
    split at h
    · simpa using h
    · rename_i x _
      by_cases hx : c = x <;> simpa [hx] using h
  | proxyWritabilityChanged x =>
    simp only [effect] at h
    by_cases hx : c = x <;> split at h <;> simpa [hx] using h
  | closeRealServer x r =>
    by_cases hx : c = x <;> simpa [effect, closeRealServer, hx] using h
  | removeProxyChanel x =>
    by_cases hx : c = x <;> simpa [effect, hx] using h
  | proxyWritable x b =>
    by_cases hx : c = x <;> simpa [effect, hx] using h
  | _ => simpa [effect] using h

theorem real_active_before (rt : Runtime) (he : Enabled s e) {r : RealId}
    (hopened : (s.real r).life ≠ .unopened)
    (h : ((effect rt s e).real r).life = .active) : (s.real r).life = .active := by
  cases e with
  | realConnected q z =>
    by_cases hz : r = z
    · subst hz
      exact absurd he.2 hopened
    · simpa [effect, hz] using h
  | realClose z =>
    by_cases hz : r = z
    · subst hz
      exact he.1
    · simpa [effect, hz] using h
  | realInactive z =>
    by_cases hz : r = z
    · subst hz
      simp [effect] at h
    · simpa [effect, hz] using h
  | realRead z bytes =>
    simp only [effect] at h
    split at h
    · by_cases hz : r = z
      · subst hz
        simp [close_ne_active] at h
      · simpa [hz] using h
    · exact h
  | channelRead c m q =>
    by_cases hc : m.type = TYPE_CONNECT
    · simpa [effect_connect hc] using h
    by_cases hm : m.type = TYPE_DISCONNECT
    · simpa [effect_disconnect hm] using h
    · rwa [effect_otherMessage hc hm] at h
  | success q z c step =>
    by_cases hz : r = z <;> cases step <;> simpa [effect, success, hz] using h
  | proxyInactive c =>
    rcases proxyInactive_real s c r with hr | hr <;> simpa [effect, hr] using h
  | realWritabilityChanged z =>
    simp only [effect] at h
    by_cases hz : r = z <;> split at h <;> simpa [hz] using h
  | proxyWritabilityChanged c =>
    simp only [effect] at h
    split at h
    · simpa using h
    · rename_i z _
      by_cases hz : r = z <;> simpa [hz] using h
  | closeRealServer c z =>
    by_cases hz : r = z <;> simpa [effect, closeRealServer, hz] using h
  | realWritable z b =>
    by_cases hz : r = z <;> simpa [effect, hz] using h
  | _ => simpa [effect] using h

/-! Who set the two links. -/

structure Linked (s : State) : Prop where
  real : ∀ r c, (s.real r).nextChannel = some c → ∃ q, Ran (s.request q).phase .bindReal r c
  proxy : ∀ c r, (s.proxy c).nextChannel = some r → ∃ q, Ran (s.request q).phase .bindProxy r c
  opened : ∀ q r c, Ran (s.request q).phase .bindProxy r c → (s.proxy c).life ≠ .unopened

theorem opened_stays (rt : Runtime) (he : Enabled s e) {c : ProxyId}
    (h : (s.proxy c).life ≠ .unopened) : ((effect rt s e).proxy c).life ≠ .unopened := by
  have hx := proxy_change rt he c
  generalize (effect rt s e).proxy c = x at hx
  cases hx with
  | same hs => exact fun hl => h (hs.unopened.mp hl)
  | cmdConnected => simp
  | connected => simp
  | _ => exact h

theorem held_opened {d : Desk ProxyId RequestId} (hd : Ledger s d) {q : RequestId} {c : ProxyId}
    (h : Held s q c) : (s.proxy c).life ≠ .unopened := by
  intro hl
  have hplace := (hd.booked c).unborn.mp hl
  rw [((hd.booked c).held q).mp h] at hplace
  cases hplace

theorem ran_of_success (rt : Runtime) {q : RequestId} {r : RealId} {c : ProxyId}
    (step : BindStep) :
    Ran ((effect rt s (.success q r c step)).request q).phase step r c := by
  cases step <;> simp [effect, success, Ran, position]

theorem Linked.step (rt : Runtime) {d : Desk ProxyId RequestId} (hd : Ledger s d) (h : Linked s)
    (he : Enabled s e) : Linked (effect rt s e) := by
  constructor
  · intro r c hr
    have hx := real_change rt he r
    generalize (effect rt s e).real r = x at hx hr
    cases hx with
    | same hs =>
      obtain ⟨q, hq⟩ := h.real r c (hs.nextChannel ▸ hr)
      exact ⟨q, ran_kept rt he hq⟩
    | opened =>
      obtain ⟨q, hq⟩ := h.real r c hr
      exact ⟨q, ran_kept rt he hq⟩
    | bound =>
      cases hr
      exact ⟨_, ran_of_success rt .bindReal⟩
  · intro c r hc
    have hx := proxy_change rt he c
    generalize (effect rt s e).proxy c = x at hx hc
    have hkept : (s.proxy c).nextChannel = some r →
        ∃ q, Ran ((effect rt s e).request q).phase .bindProxy r c := by
      intro hold
      obtain ⟨q, hq⟩ := h.proxy c r hold
      exact ⟨q, ran_kept rt he hq⟩
    cases hx with
    | same hs => exact hkept (hs.nextChannel ▸ hc)
    | cmdConnected => exact hkept hc
    | connected => exact hkept hc
    | disconnected => cases hc
    | returned => cases hc
    | bound =>
      cases hc
      exact ⟨_, ran_of_success rt .bindProxy⟩
  · intro q r c hq
    apply opened_stays rt he
    rcases ran_back rt he hq with hran | rfl
    · exact h.opened q r c hran
    · exact held_opened hd ⟨r, he⟩

theorem reachable_linked {rt : Runtime} {s : State} (h : Reachable (client rt) s) :
    Linked s := by
  refine ReachableWhere.invariant_with (J := fun s => ∃ d, Sound d ∧ Ledger s d) (I := Linked)
    (fun _ => reachable_ledger) ?_ ?_ h
  · rintro _ rfl
    constructor <;> simp [initial, Ran]
  · rintro s e ⟨d, -, hd⟩ hl he -
    have := hl.step rt hd he
    exact ⟨this.real, this.proxy, this.opened⟩

/-! What the callbacks leave behind. -/

structure Known (s : State) : Prop where
  owned : Owned s
  exclusive : ExclusiveUse s
  linked : Linked s
  recorded : Recorded s
  heldOpened : ∀ q c, Held s q c → (s.proxy c).life ≠ .unopened
  heldStays : ∀ q c, Held s q c → isReturning (s.proxy c).remaining = false
  boundStays : ∀ c r, (s.proxy c).nextChannel = some r →
    isReturning (s.proxy c).remaining = false

theorem not_returning {d : Desk ProxyId RequestId} (hd : Ledger s d) {c : ProxyId}
    (h : d.place c ≠ .away) : isReturning (s.proxy c).remaining = false := by
  unfold isReturning
  split
  · rename_i r hr
    exact absurd ((hd.booked c).returning r hr) h
  · rfl

theorem reachable_known {rt : Runtime} {s : State} (h : Reachable (client rt) s) : Known s := by
  obtain ⟨d, hs, hd⟩ := reachable_ledger h
  refine ⟨reachable_owned h, hd.exclusiveUse hs, reachable_linked h, reachable_recorded h,
    fun q c => held_opened hd, ?_, ?_⟩
  · intro q c hq
    apply not_returning hd
    rw [((hd.booked c).held q).mp hq]
    simp
  · intro c r hr
    obtain ⟨q, -, hq⟩ := (hd.booked c).bound r hr
    apply not_returning hd
    rw [hq]
    simp

theorem owner_unique (ho : Owned s) {q p : RequestId} {r : RealId}
    (hq : realServerOf (s.request q).phase = some r)
    (hp : realServerOf (s.request p).phase = some r) : q = p :=
  Option.some.inj (((ho.owner q r).mp hq).symm.trans ((ho.owner p r).mp hp))

theorem next_before (rt : Runtime) (he : Enabled s e) {c : ProxyId} {r : RealId}
    (h : ((effect rt s e).proxy c).nextChannel = some r) :
    (s.proxy c).nextChannel = some r ∨ ∃ q, e = .success q r c .bindProxy := by
  have hx := proxy_change rt he c
  generalize (effect rt s e).proxy c = x at hx h
  cases hx with
  | same hs => exact Or.inl (hs.nextChannel ▸ h)
  | cmdConnected => exact Or.inl h
  | connected => exact Or.inl h
  | disconnected => cases h
  | returned => cases h
  | bound =>
    cases h
    exact Or.inr ⟨_, rfl⟩

theorem live_before (rt : Runtime) (hk : Known s) (he : Enabled s e) {c : ProxyId} {r : RealId}
    (hc : (s.proxy c).nextChannel = some r) (h : Live (effect rt s e) c r) : Live s c r := by
  obtain ⟨q, hq⟩ := hk.linked.proxy c r hc
  constructor
  · exact proxy_active_before rt he (hk.linked.opened q r c hq) h.1
  · exact real_active_before rt he (hk.owned.opened r q (ran_owner hk.owned hq)) h.2

theorem Watched.of_live (hk : Known s) {c : ProxyId} {r : RealId}
    (hc : (s.proxy c).nextChannel = some r) (h : Live s c r) : Watched s c := by
  refine Or.inr ⟨h.1, hk.boundStays c r hc, ?_⟩
  intro z hz
  obtain rfl : r = z := Option.some.inj (hc.symm.trans hz)
  exact h.2

theorem Watched.of_held (hk : Known s) {q : RequestId} {c : ProxyId} (hq : Held s q c)
    (h : (s.proxy c).life = .active) : Watched s c := by
  refine Or.inr ⟨h, hk.heldStays q c hq, ?_⟩
  simp [hk.exclusive.held_unbound q c hq]

/-- AUTO_READ of a channel that is watched changes on its return, or by the callback of the real
server that it is bound to. -/
theorem autoRead_after (rt : Runtime) (ht : InTime s e) {c : ProxyId} (hw : Watched s c) :
    ((effect rt s e).proxy c).autoRead = (s.proxy c).autoRead ∨
    ((effect rt s e).proxy c).nextChannel = none ∧ ((effect rt s e).proxy c).autoRead = true ∨
    ∃ r, e = .realWritabilityChanged r ∧ (s.proxy c).nextChannel = some r ∧
      (s.real r).nextChannel = some c ∧
      ((effect rt s e).proxy c).autoRead = (s.real r).writable := by
  have hx := proxy_flow rt s e c
  generalize (effect rt s e).proxy c = x at hx
  cases hx with
  | same hflow => exact Or.inl (congrArg Flow.autoRead hflow)
  | returned hnext hflow => exact Or.inr (Or.inl ⟨hnext, congrArg Flow.autoRead hflow⟩)
  | written hn hflow =>
    rename_i r
    have hread : x.autoRead = (s.real r).writable := congrArg Flow.autoRead hflow
    rcases ht c hn hw with hbound | heq
    · exact Or.inr (Or.inr ⟨r, rfl, hbound, hn, hread⟩)
    · exact Or.inl (hread.trans heq.symm)
  | flipped hflow => exact Or.inl (congrArg Flow.autoRead hflow)
  | called hflow => exact Or.inl (congrArg Flow.autoRead hflow)

theorem proxy_quiet_before (rt : Runtime) (s : State) (e : Event) {c : ProxyId}
    (h : ((effect rt s e).proxy c).writabilityChanged = false) :
    ((effect rt s e).proxy c).writable = (s.proxy c).writable ∧
      ((s.proxy c).writabilityChanged = false ∨ e = .proxyWritabilityChanged c) := by
  have hx := proxy_flow rt s e c
  generalize (effect rt s e).proxy c = x at hx h
  cases hx with
  | same hflow =>
    exact ⟨congrArg Flow.writable hflow, Or.inl ((congrArg Flow.pending hflow).symm.trans h)⟩
  | returned _ hflow =>
    exact ⟨congrArg Flow.writable hflow, Or.inl ((congrArg Flow.pending hflow).symm.trans h)⟩
  | written _ hflow =>
    exact ⟨congrArg Flow.writable hflow, Or.inl ((congrArg Flow.pending hflow).symm.trans h)⟩
  | flipped hflow => cases (congrArg Flow.pending hflow).symm.trans h
  | called hflow => exact ⟨congrArg Flow.writable hflow, Or.inr rfl⟩

theorem real_quiet_before (rt : Runtime) (s : State) (e : Event) {r : RealId}
    (h : ((effect rt s e).real r).writabilityChanged = false) :
    ((effect rt s e).real r).writable = (s.real r).writable ∧
      ((s.real r).writabilityChanged = false ∨ e = .realWritabilityChanged r) := by
  have hx := real_flow rt s e r
  generalize (effect rt s e).real r = x at hx h
  cases hx with
  | same hflow =>
    exact ⟨congrArg Flow.writable hflow, Or.inl ((congrArg Flow.pending hflow).symm.trans h)⟩
  | opened hflow =>
    exact ⟨congrArg Flow.writable hflow, Or.inl ((congrArg Flow.pending hflow).symm.trans h)⟩
  | enabled hflow =>
    exact ⟨congrArg Flow.writable hflow, Or.inl ((congrArg Flow.pending hflow).symm.trans h)⟩
  | written _ hflow =>
    exact ⟨congrArg Flow.writable hflow, Or.inl ((congrArg Flow.pending hflow).symm.trans h)⟩
  | flipped hflow => cases (congrArg Flow.pending hflow).symm.trans h
  | called hflow => exact ⟨congrArg Flow.writable hflow, Or.inr rfl⟩

/-! The invariant. -/

structure InStep (s : State) : Prop where
  pooled : ∀ c ∈ s.proxyChannelPool, (s.proxy c).autoRead = true
  unopened : ∀ c, (s.proxy c).life = .unopened → (s.proxy c).autoRead = true
  held : ∀ q c, Held s q c → (s.proxy c).life = .active → (s.proxy c).autoRead = true
  halfBound : ∀ c r, (s.proxy c).nextChannel = some r → (s.real r).nextChannel = none →
    Live s c r → (s.proxy c).autoRead = true
  proxy : ∀ c r, (s.proxy c).nextChannel = some r → (s.real r).nextChannel = some c →
    Live s c r → (s.real r).writabilityChanged = false →
    (s.proxy c).autoRead = (s.real r).writable
  real : ∀ q c r, (s.proxy c).nextChannel = some r → Ran (s.request q).phase .enableRead r c →
    Live s c r → (s.proxy c).writabilityChanged = false →
    (s.real r).autoRead = (s.proxy c).writable

theorem pool_before (rt : Runtime) (s : State) (e : Event) {c : ProxyId}
    (h : c ∈ (effect rt s e).proxyChannelPool) :
    c ∈ s.proxyChannelPool ∨ ((effect rt s e).proxy c).autoRead = true := by
  have hx := pool_change rt s e
  generalize hp : (effect rt s e).proxyChannelPool = pool at hx h
  generalize (effect rt s e).history = history at hx
  cases hx with
  | same => exact Or.inl h
  | returned =>
    rename_i y r
    rcases List.mem_append.mp h with hold | hnew
    · exact Or.inl hold
    · obtain rfl := List.mem_singleton.mp hnew
      by_cases hfull : s.proxyChannelPool.length > MAX_POOL_SIZE
      · simp [effect, returnProxyChanel, hfull] at hp
      · right
        simp [effect, returnProxyChanel, hfull]
  | pooled hl =>
    left
    rw [hl]
    exact List.mem_cons_of_mem _ h
  | connected => exact Or.inl h
  | removed => exact Or.inl (List.mem_of_mem_erase h)

theorem InStep.step_pooled (rt : Runtime) (hk : Known s) (h : InStep s) (ht : InTime s e)
    (c : ProxyId) (hc : c ∈ (effect rt s e).proxyChannelPool) :
    ((effect rt s e).proxy c).autoRead = true := by
  rcases pool_before rt s e hc with hold | hread
  · rcases autoRead_after rt ht (Or.inl hold) with heq | ⟨-, hread⟩ | ⟨r, -, hn, -, -⟩
    · exact heq.trans (h.pooled c hold)
    · exact hread
    · rw [hk.exclusive.pool_unbound c hold] at hn
      cases hn
  · exact hread

theorem InStep.step_unopened (rt : Runtime) (hk : Known s) (h : InStep s) (he : Enabled s e)
    (c : ProxyId) (hl : ((effect rt s e).proxy c).life = .unopened) :
    ((effect rt s e).proxy c).autoRead = true := by
  have hunopened : (s.proxy c).life = .unopened := by
    by_contra hopened
    exact opened_stays rt he hopened hl
  have hread := h.unopened c hunopened
  have hx := proxy_flow rt s e c
  generalize (effect rt s e).proxy c = x at hx
  cases hx with
  | same hflow => exact (congrArg Flow.autoRead hflow).trans hread
  | returned _ hflow => exact congrArg Flow.autoRead hflow
  | written hn hflow =>
    -- no real server is bound to a channel that is not open yet
    obtain ⟨q, hq⟩ := hk.linked.real _ c hn
    exact absurd hunopened (hk.linked.opened q _ c (hq.earlier (by decide)))
  | flipped hflow => exact (congrArg Flow.autoRead hflow).trans hread
  | called hflow => exact (congrArg Flow.autoRead hflow).trans hread

theorem InStep.step_held (rt : Runtime) (hk : Known s) (h : InStep s) (he : Enabled s e)
    (ht : InTime s e) (q : RequestId) (c : ProxyId) (hq : Held (effect rt s e) q c)
    (hl : ((effect rt s e).proxy c).life = .active) :
    ((effect rt s e).proxy c).autoRead = true := by
  rcases held_after rt he hq with hold | ⟨r, pool, rfl, hpool⟩ | ⟨r, rfl⟩
  · have hactive := proxy_active_before rt he (hk.heldOpened q c hold) hl
    rcases autoRead_after rt ht (.of_held hk hold hactive) with heq | ⟨-, hread⟩ | ⟨r, -, hn, -, -⟩
    · exact heq.trans (h.held q c hold hactive)
    · exact hread
    · rw [hk.exclusive.held_unbound q c hold] at hn
      cases hn
  · have hread := h.pooled c (by rw [hpool]; simp)
    simpa [effect] using hread
  · have hread := h.unopened c he.2
    simpa [effect] using hread

/-- Until the real server's link is set, the channel is read. -/
theorem InStep.step_halfBound (rt : Runtime) (hk : Known s) (h : InStep s) (he : Enabled s e)
    (ht : InTime s e) (c : ProxyId) (r : RealId)
    (hc : ((effect rt s e).proxy c).nextChannel = some r)
    (hr : ((effect rt s e).real r).nextChannel = none) (hl : Live (effect rt s e) c r) :
    ((effect rt s e).proxy c).autoRead = true := by
  have hnone : (s.real r).nextChannel = none := by
    have hx := real_change rt he r
    generalize (effect rt s e).real r = x at hx hr
    cases hx with
    | same hs => exact hs.nextChannel ▸ hr
    | opened => exact hr
    | bound => cases hr
  rcases next_before rt he hc with hold | ⟨q, rfl⟩
  · have hlive := live_before rt hk he hold hl
    rcases autoRead_after rt ht (.of_live hk hold hlive) with
      heq | ⟨-, htrue⟩ | ⟨z, rfl, hz, hback, -⟩
    · exact heq.trans (h.halfBound c r hold hnone hlive)
    · exact htrue
    · obtain rfl : r = z := Option.some.inj (hold.symm.trans hz)
      rw [hnone] at hback
      cases hback
  · have hheld : Held s q c := ⟨r, he⟩
    have hactive := proxy_active_before rt he (hk.heldOpened q c hheld) hl.1
    simpa [effect, success] using h.held q c hheld hactive

theorem unlinked_before (hk : Known s) {q : RequestId} {r : RealId} {c : ProxyId}
    {step : BindStep} (hq : (s.request q).phase = .binding r c step)
    (hstep : position step ≤ position .bindReal) : (s.real r).nextChannel = none := by
  by_contra hne
  obtain ⟨y, hy⟩ := Option.ne_none_iff_exists'.mp hne
  obtain ⟨p, hp⟩ := hk.linked.real r y hy
  obtain rfl : q = p := owner_unique hk.owned (by rw [hq]; rfl) hp.realServer
  rcases hp with hp | ⟨pending, hp, hlt⟩ <;> rw [hq] at hp <;> cases hp
  exact absurd hlt (Nat.not_lt.mpr hstep)

theorem InStep.step_proxy (rt : Runtime) (hk : Known s) (h : InStep s) (he : Enabled s e)
    (ht : InTime s e) (c : ProxyId) (r : RealId)
    (hc : ((effect rt s e).proxy c).nextChannel = some r)
    (hr : ((effect rt s e).real r).nextChannel = some c) (hl : Live (effect rt s e) c r)
    (hq : ((effect rt s e).real r).writabilityChanged = false) :
    ((effect rt s e).proxy c).autoRead = ((effect rt s e).real r).writable := by
  obtain ⟨hwritable, hquiet⟩ := real_quiet_before rt s e hq
  have hx := real_change rt he r
  have hlinked : (s.real r).nextChannel = some c ∨ ∃ q, e = .success q r c .bindReal := by
    generalize (effect rt s e).real r = x at hx hr
    cases hx with
    | same hs => exact Or.inl (hs.nextChannel ▸ hr)
    | opened => exact Or.inl hr
    | bound =>
      cases hr
      exact Or.inr ⟨_, rfl⟩
  rcases hlinked with hback | ⟨q, rfl⟩
  · have hold : (s.proxy c).nextChannel = some r := by
      rcases next_before rt he hc with hold | ⟨q, rfl⟩
      · exact hold
      · rw [unlinked_before hk he (by decide)] at hback
        cases hback
    have hlive := live_before rt hk he hold hl
    rw [hwritable]
    rcases hquiet with hquiet | rfl
    · rcases autoRead_after rt ht (.of_live hk hold hlive) with
        heq | ⟨hnone, -⟩ | ⟨z, -, hz, -, hread⟩
      · exact heq.trans (h.proxy c r hold hback hlive hquiet)
      · rw [hnone] at hc
        cases hc
      · obtain rfl : r = z := Option.some.inj (hold.symm.trans hz)
        exact hread
    · simp [effect, hback]
  · -- the link is new: the channel is still read, as it was since it was bound
    have hold : (s.proxy c).nextChannel = some r := by simpa [effect, success] using hc
    have hlive := live_before rt hk he hold hl
    have hread := h.halfBound c r hold (unlinked_before hk he (by decide)) hlive
    have hnow : (s.real r).writabilityChanged = false := by simpa [effect, success] using hq
    have hopen : (s.real r).writable = true := by
      rcases ht hold hlive with hopen | hpending
      · exact hopen
      · rw [hnow] at hpending
        cases hpending
    simp [effect, success, hread, hopen]

/-- What may have written AUTO_READ of a real-server channel. -/
theorem real_autoRead_after (rt : Runtime) (s : State) (e : Event) (r : RealId) :
    ((effect rt s e).real r).autoRead = (s.real r).autoRead ∨
    (∃ q, e = .realConnected q r) ∨ (∃ q c, e = .success q r c .enableRead) ∨
    ∃ c, e = .proxyWritabilityChanged c ∧ (s.proxy c).nextChannel = some r := by
  have hx := real_flow rt s e r
  generalize (effect rt s e).real r = x at hx
  cases hx with
  | same hflow => exact Or.inl (congrArg Flow.autoRead hflow)
  | opened => exact Or.inr (Or.inl ⟨_, rfl⟩)
  | enabled => exact Or.inr (Or.inr (Or.inl ⟨_, _, rfl⟩))
  | written hn => exact Or.inr (Or.inr (Or.inr ⟨_, rfl, hn⟩))
  | flipped hflow => exact Or.inl (congrArg Flow.autoRead hflow)
  | called hflow => exact Or.inl (congrArg Flow.autoRead hflow)

theorem InStep.step_real (rt : Runtime) (hk : Known s) (h : InStep s) (he : Enabled s e)
    (ht : InTime s e) (q : RequestId) (c : ProxyId) (r : RealId)
    (hc : ((effect rt s e).proxy c).nextChannel = some r)
    (hran : Ran ((effect rt s e).request q).phase .enableRead r c)
    (hl : Live (effect rt s e) c r)
    (hq : ((effect rt s e).proxy c).writabilityChanged = false) :
    ((effect rt s e).real r).autoRead = ((effect rt s e).proxy c).writable := by
  obtain ⟨hwritable, hquiet⟩ := proxy_quiet_before rt s e hq
  rcases ran_back rt he hran with hdone | rfl
  · have hback := hk.recorded.nextChannel q r c (hdone.earlier (by decide))
    have hold : (s.proxy c).nextChannel = some r := by
      rcases next_before rt he hc with hold | ⟨p, rfl⟩
      · exact hold
      · rw [unlinked_before hk he (by decide)] at hback
        cases hback
    have hlive := live_before rt hk he hold hl
    rw [hwritable]
    rcases hquiet with hquiet | rfl
    · have hbefore := h.real q c r hold hdone hlive hquiet
      rcases real_autoRead_after rt s e r with heq | ⟨p, rfl⟩ | ⟨p, y, rfl⟩ | ⟨y, rfl, hy⟩
      · exact heq.trans hbefore
      · exact absurd he.2 (hk.owned.opened r q (ran_owner hk.owned hdone))
      · -- its own statement has run
        have hp : (s.request p).phase = .binding r y .enableRead := he
        obtain rfl : q = p := owner_unique hk.owned hdone.realServer (by rw [hp]; rfl)
        rcases hdone with hb | ⟨pending, hb, hlt⟩ <;> rw [hp] at hb <;> cases hb
        cases hlt.ne rfl
      · obtain rfl : y = c := hk.exclusive.bound_once y c r hy hold
        simp [effect, hy]
    · simp [effect, hold]
  · have hold : (s.proxy c).nextChannel = some r := by simpa [effect, success] using hc
    have hlive := live_before rt hk he hold hl
    have hnow : (s.proxy c).writabilityChanged = false := by simpa [effect, success] using hq
    have hopen : (s.proxy c).writable = true := by
      rcases ht hold hlive with hopen | hpending
      · exact hopen
      · rw [hnow] at hpending
        cases hpending
    simp [effect, success, hopen]

theorem InStep.step (rt : Runtime) (hk : Known s) (h : InStep s) (he : Enabled s e)
    (ht : InTime s e) : InStep (effect rt s e) where
  pooled := h.step_pooled rt hk ht
  unopened := h.step_unopened rt hk he
  held := h.step_held rt hk he ht
  halfBound := h.step_halfBound rt hk he ht
  proxy := h.step_proxy rt hk he ht
  real := h.step_real rt hk he ht

theorem reachable_inStep {rt : Runtime} {s : State}
    (h : ReachableWhere (client rt) InTime s) : InStep s := by
  refine ReachableWhere.invariant_with (J := Known) (I := InStep) (fun _ => reachable_known)
    ?_ ?_ h
  · rintro _ rfl
    constructor <;> simp [initial, Held, Ran]
  · intro s e hk hi he ht
    have := hi.step rt hk he ht
    exact ⟨this.pooled, this.unopened, this.held, this.halfBound, this.proxy, this.real⟩

/-- Once the callbacks have run, each of two bound channels is read while the other is writable. -/
theorem quiet_channels_coupled {rt : Runtime} {s : State}
    (h : ReachableWhere (client rt) InTime s) (hquiet : Quiet s) : Coupled s := by
  have hi := reachable_inStep h
  constructor
  · intro c r hpaired hlive
    obtain ⟨q, hq⟩ := hpaired.enabled
    exact hi.real q c r hpaired.proxy hq hlive (hquiet.1 c)
  · intro c r hpaired hlive
    exact hi.proxy c r hpaired.proxy hpaired.real hlive (hquiet.2 r)
  · exact hi.pooled

/-- Both channels of the second connection turn unwritable and writable again. -/
def wavering : List Event :=
  [.proxyWritable 1 false, .realWritable 1 false, .proxyWritabilityChanged 1,
    .realWritabilityChanged 1, .proxyWritable 1 true, .proxyWritabilityChanged 1]

theorem quiet_channels_coupled_wavering : Coupled (runTrace (client device) initial
    (firstConnection ++ orderlyClose ++ secondConnection ++ wavering)) := by
  refine quiet_channels_coupled (validTrace_reachable rfl (by decide +kernel)) ⟨?_, ?_⟩
  · rintro (_ | _ | c) <;> rfl
  · rintro (_ | _ | r) <;> rfl

/-- A channel that is unwritable when it is borrowed again leaves its real server being read. -/
theorem enabling_unwritable_uncouples (rt : Runtime) (hk : Known s) {q : RequestId} {r : RealId}
    {c : ProxyId} (he : Enabled s (.success q r c .enableRead))
    (hc : (s.proxy c).nextChannel = some r) (hl : Live s c r)
    (hw : (s.proxy c).writable = false) :
    ¬Coupled (effect rt s (.success q r c .enableRead)) := by
  intro h
  have hback := hk.recorded.nextChannel q r c (Or.inr ⟨.enableRead, he, by decide⟩)
  have hread := h.real c r ⟨by simpa [effect, success] using hc,
    by simpa [effect, success] using hback, q, ran_of_success rt .enableRead⟩
    ⟨by simpa [effect, success] using hl.1, by simpa [effect, success] using hl.2⟩
  simp [effect, success, hw] at hread

/-- A real server's late callback stops the reading of the channel that it has given back. -/
theorem late_callback_uncouples (rt : Runtime) {r : RealId} {c : ProxyId}
    (hr : (s.real r).nextChannel = some c) (hc : c ∈ s.proxyChannelPool)
    (hw : (s.real r).writable = false) :
    ¬Coupled (effect rt s (.realWritabilityChanged r)) := by
  intro h
  have hread := h.pooled c (by simpa [effect, hr] using hc)
  simp [effect, hr, hw] at hread

/-- The channel turns unwritable, goes back to the pool and is lent to the second user. -/
def unwritableLoan : List Event :=
  firstConnection ++ [.proxyWritable 1 false, .proxyWritabilityChanged 1] ++ returnOfFirst ++
    secondConnection

theorem unwritable_loan_uncoupled : ¬∀ s, Reachable (client device) s → Quiet s → Coupled s := by
  intro h
  have hreach : Reachable (client device) (runTrace (client device) initial unwritableLoan) :=
    validTrace_reachable rfl (by decide +kernel)
  have hquiet : Quiet (runTrace (client device) initial unwritableLoan) := by
    constructor
    · rintro (_ | _ | c) <;> rfl
    · rintro (_ | _ | r) <;> rfl
  have hread := (h _ hreach hquiet).real 1 1
    ⟨by decide +kernel, by decide +kernel, 1, Or.inl (by decide +kernel)⟩ (by decide +kernel)
  revert hread
  decide +kernel

end BackPressure
