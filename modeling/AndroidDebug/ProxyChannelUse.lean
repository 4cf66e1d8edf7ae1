import AndroidDebug.ProxyClientSteps

/-! Which request a proxy channel serves. The manager's pool is simulated by a lending desk
on which every channel is at one place, and exclusive use of the channels is read off the
desk. -/
namespace ProxyChannelUse

open TransitionSystem Custody JavaText ProxyMessageCodec ProxyClient

/-- The channel is out on a borrow whose success callback has not set NEXT_CHANNEL. -/
def Held (s : State) (q : RequestId) (c : ProxyId) : Prop :=
  ∃ r, (s.request q).phase = .binding r c .bindProxy

/-- The request has been handed a proxy channel. -/
def handed : Phase → Bool
  | .idle => false
  | .connecting _ _ => false
  | .aborted _ => false
  | .borrowing _ => false
  | .dialing _ => false
  | .binding _ _ _ => true
  | .bound _ _ => true
  | .refused _ => false

def realServerOf : Phase → Option RealId
  | .idle => none
  | .connecting _ _ => none
  | .aborted _ => none
  | .borrowing r => some r
  | .dialing r => some r
  | .binding r _ _ => some r
  | .bound r _ => some r
  | .refused r => r

theorem realServerOf_phaseOfData (rt : Runtime) (data : List UInt8) :
    realServerOf (phaseOfData rt data) = none := by
  rcases phaseOfData_cases rt data with ⟨ip, port, hd⟩ | ⟨x, -, hd⟩ <;> rw [hd] <;> rfl

theorem realServerOf_after (r : RealId) (c : ProxyId) (step : BindStep) :
    realServerOf (step.after r c) = some r := by
  cases step <;> rfl

theorem handed_after (r : RealId) (c : ProxyId) (step : BindStep) :
    handed (step.after r c) = true := by
  cases step <;> rfl

/-- Every real-server channel a request works with was opened for it, and conversely. -/
structure Owned (s : State) : Prop where
  owner : ∀ q r, realServerOf (s.request q).phase = some r ↔ (s.real r).openedFor = some q
  opened : ∀ r q, (s.real r).openedFor = some q → (s.real r).life ≠ .unopened

variable {rt : Runtime} {s : State} {e : Event}

theorem openedFor_effect (rt : Runtime) (he : Enabled s e) (r : RealId) :
    ((effect rt s e).real r).openedFor = (s.real r).openedFor ∨
    ∃ q, e = .realConnected q r ∧ ((effect rt s e).real r).openedFor = some q := by
  have h := real_change rt he r
  generalize (effect rt s e).real r = x at h
  cases h with
  | same hs => exact Or.inl hs.openedFor
  | opened => exact Or.inr ⟨_, rfl, rfl⟩
  | bound => exact Or.inl rfl

theorem openedFor_mono (rt : Runtime) (ho : Owned s) (he : Enabled s e) {r : RealId}
    {q : RequestId} (h : (s.real r).openedFor = some q) :
    ((effect rt s e).real r).openedFor = some q := by
  rcases openedFor_effect rt he r with heq | ⟨p, rfl, -⟩
  · exact heq.trans h
  · exact absurd he.2 (ho.opened r q h)

/-- Only its own connect opens a real-server channel for a request. -/
theorem openedFor_iff (rt : Runtime) (ho : Owned s) (he : Enabled s e) {q : RequestId}
    (hne : ∀ r, e ≠ .realConnected q r) (r : RealId) :
    ((effect rt s e).real r).openedFor = some q ↔ (s.real r).openedFor = some q := by
  constructor
  · intro h
    rcases openedFor_effect rt he r with heq | ⟨p, rfl, hp⟩
    · exact heq ▸ h
    · obtain rfl : p = q := Option.some.inj (hp.symm.trans h)
      exact absurd rfl (hne r)
  · exact openedFor_mono rt ho he

theorem Advance.realServer {q : RequestId} {p p' : Phase} (h : Advance rt s q e p p') :
    (realServerOf p' = realServerOf p ∧ ∀ r, e ≠ .realConnected q r) ∨
    ∃ r, e = .realConnected q r ∧ realServerOf p = none ∧ realServerOf p' = some r := by
  cases h with
  | received hm => exact Or.inl ⟨realServerOf_phaseOfData rt _, by simp⟩
  | realConnected hu => exact Or.inr ⟨_, rfl, rfl, rfl⟩
  | success => exact Or.inl ⟨realServerOf_after _ _ _, by simp⟩
  | _ => exact Or.inl ⟨rfl, by simp⟩

theorem owned_step (rt : Runtime) (ho : Owned s) (he : Enabled s e) :
    Owned (effect rt s e) := by
  constructor
  · intro q r
    rcases request_change rt he q with heq | hadv
    · rw [heq, openedFor_iff rt ho he _ r]
      · exact ho.owner q r
      · rintro z rfl
        have hc : (s.request q).phase = .borrowing z := by
          rw [← heq]
          simp [effect]
        have := he.1
        rw [hc] at this
        cases this
    · rcases Advance.realServer hadv with ⟨heq, hne⟩ | ⟨z, rfl, hnone, hsome⟩
      · rw [heq, openedFor_iff rt ho he hne r]
        exact ho.owner q r
      · rw [hsome]
        by_cases h : r = z
        · subst h
          simp [effect]
        · have hz : (s.real r).openedFor ≠ some q := by
            intro hq
            have := (ho.owner q r).mpr hq
            rw [hnone] at this
            cases this
          simpa [effect, h, Ne.symm h] using hz
  · intro r q hq
    have h := real_change rt he r
    generalize (effect rt s e).real r = x at h hq
    cases h with
    | same hs => exact fun hl => ho.opened r q (hs.openedFor ▸ hq) (hs.unopened.mp hl)
    | opened => simp
    | bound => exact ho.opened r q hq

theorem reachable_owned {rt : Runtime} {s : State} (h : Reachable (client rt) s) : Owned s := by
  refine Reachable.invariant (I := Owned) ?_ ?_ h
  · rintro _ rfl
    constructor
    · intro q r
      simp [initial, realServerOf]
    · intro r q hq
      cases hq
  · intro s e ho he
    have := owned_step rt ho he
    exact ⟨this.owner, this.opened⟩

theorem held_after (rt : Runtime) (he : Enabled s e) {q : RequestId} {c : ProxyId}
    (h : Held (effect rt s e) q c) : Held s q c ∨
    (∃ r pool, e = .borrowProxyChanel q r ∧ s.proxyChannelPool = c :: pool) ∨
    ∃ r, e = .proxyConnected q r c := by
  obtain ⟨r, hr⟩ := h
  rcases request_change rt he q with heq | hadv
  · exact Or.inl ⟨r, by rw [← heq, hr]⟩
  · rw [hr] at hadv
    rcases hadv.to_binding with ⟨-, ⟨pool, rfl, hl⟩ | rfl⟩ | ⟨previous, -, hprevious⟩
    · exact Or.inr (Or.inl ⟨r, pool, rfl, hl⟩)
    · exact Or.inr (Or.inr ⟨r, rfl⟩)
    · cases previous <;> cases hprevious

theorem held_before (rt : Runtime) (he : Enabled s e) {q : RequestId} {c : ProxyId}
    (h : Held s q c) : Held (effect rt s e) q c ∨ ∃ r, e = .success q r c .bindProxy := by
  obtain ⟨r, hr⟩ := h
  rcases request_change rt he q with heq | hadv
  · exact Or.inl ⟨r, by rw [heq, hr]⟩
  · rw [hr] at hadv
    generalize ((effect rt s e).request q).phase = p' at hadv
    cases hadv with
    | success => exact Or.inr ⟨r, rfl⟩

/-- What the desk's place for a channel says about the channel. -/
structure Booked (s : State) (c : ProxyId) (p : Place RequestId) : Prop where
  pooled : c ∈ s.proxyChannelPool ↔ p = .free
  held : ∀ q, Held s q c ↔ p = .held q
  bound : ∀ r, (s.proxy c).nextChannel = some r →
    ∃ q, (s.real r).openedFor = some q ∧ p = .attached q
  attached : ∀ q, p = .attached q → (s.proxy c).nextChannel ≠ none
  unborn : (s.proxy c).life = .unopened ↔ p = .unborn
  returning : ∀ r, (s.proxy c).remaining = some (.returnProxyChanel r) → p = .away

structure Ledger (s : State) (d : Desk ProxyId RequestId) : Prop where
  booked : ∀ c, Booked s c (d.place c)
  nodup : s.proxyChannelPool.Nodup
  served : ∀ q, d.served q = true → handed (s.request q).phase = true
  history : d.history = s.history

/-- The channel whose place an event may change. -/
def touched (s : State) : Event → Option ProxyId
  | .cmdConnected c => some c
  | .channelRead c _ _ => some c
  | .returnProxyChanel c _ => some c
  | .borrowProxyChanel _ _ => s.proxyChannelPool.head?
  | .proxyConnected _ _ c => some c
  | .success _ _ c .bindProxy => some c
  | .removeProxyChanel c => some c
  | _ => none

theorem Booked.frame {t : State} {c : ProxyId} {p : Place RequestId} (h : Booked s c p)
    (hp : c ∈ t.proxyChannelPool ↔ c ∈ s.proxyChannelPool)
    (hh : ∀ q, Held t q c ↔ Held s q c) (hu : SameUse (s.proxy c) (t.proxy c))
    (ho : ∀ r q, (s.real r).openedFor = some q → (t.real r).openedFor = some q) :
    Booked t c p where
  pooled := hp.trans h.pooled
  held q := (hh q).trans (h.held q)
  bound r hr := by
    obtain ⟨q, hq, hpl⟩ := h.bound r (hu.nextChannel ▸ hr)
    exact ⟨q, ho r q hq, hpl⟩
  attached q hq := by
    rw [hu.nextChannel]
    exact h.attached q hq
  unborn := hu.unopened.trans h.unborn
  returning r hr := h.returning r (hu.returning r hr)

theorem sameUse_untouched (rt : Runtime) (he : Enabled s e) {c : ProxyId}
    (hc : touched s e ≠ some c) : SameUse (s.proxy c) ((effect rt s e).proxy c) := by
  have h := proxy_change rt he c
  generalize (effect rt s e).proxy c = x at h
  cases h with
  | same hs => exact hs
  | _ => exact absurd rfl hc

theorem pool_untouched (rt : Runtime) {c : ProxyId}
    (hc : touched s e ≠ some c) :
    c ∈ (effect rt s e).proxyChannelPool ↔ c ∈ s.proxyChannelPool := by
  have h := pool_change rt s e
  generalize (effect rt s e).proxyChannelPool = l at h
  generalize (effect rt s e).history = k at h
  cases h with
  | same => exact Iff.rfl
  | returned =>
    have hne : _ ≠ c := fun h => hc (congrArg some h)
    simp [hne.symm]
  | pooled hl =>
    have hne : _ ≠ c := fun h => hc (by rw [touched, hl]; exact congrArg some h)
    simp [hl, hne.symm]
  | connected => exact Iff.rfl
  | removed =>
    have hne : _ ≠ c := fun h => hc (congrArg some h)
    exact List.mem_erase_of_ne hne.symm

theorem held_untouched (rt : Runtime) (he : Enabled s e) {c : ProxyId}
    (hc : touched s e ≠ some c) (q : RequestId) : Held (effect rt s e) q c ↔ Held s q c := by
  constructor
  · intro h
    rcases held_after rt he h with h | ⟨r, pool, rfl, hl⟩ | ⟨r, rfl⟩
    · exact h
    · exact absurd (by rw [touched, hl]; rfl) hc
    · exact absurd rfl hc
  · intro h
    rcases held_before rt he h with h | ⟨r, rfl⟩
    · exact h
    · exact absurd rfl hc

theorem booked_untouched (rt : Runtime) (ho : Owned s) {d : Desk ProxyId RequestId}
    (h : Ledger s d) (he : Enabled s e) {c : ProxyId} (hc : touched s e ≠ some c) :
    Booked (effect rt s e) c (d.place c) :=
  (h.booked c).frame (pool_untouched rt hc) (held_untouched rt he hc)
    (sameUse_untouched rt he hc) fun _ _ => openedFor_mono rt ho he

theorem Advance.handed {q : RequestId} {p p' : Phase} (h : Advance rt s q e p p')
    (hp : handed p = true) : ProxyChannelUse.handed p' = true := by
  cases h with
  | success => exact handed_after _ _ _
  | pooled => rfl
  | proxyConnected => rfl
  | _ => cases hp

theorem handed_step (rt : Runtime) (he : Enabled s e) {q : RequestId}
    (h : handed (s.request q).phase = true) :
    handed ((effect rt s e).request q).phase = true := by
  rcases request_change rt he q with heq | hadv
  · rw [heq]
    exact h
  · exact Advance.handed hadv h

/-- An event after which the touched channel is still booked at its place. -/
theorem Ledger.stay (rt : Runtime) {d : Desk ProxyId RequestId} (ho : Owned s) (h : Ledger s d)
    (he : Enabled s e) (hc : ∀ c, touched s e = some c → Booked (effect rt s e) c (d.place c))
    (hp : (effect rt s e).proxyChannelPool = s.proxyChannelPool)
    (hh : (effect rt s e).history = s.history) : Ledger (effect rt s e) d where
  booked c := by
    by_cases ht : touched s e = some c
    · exact hc c ht
    · exact booked_untouched rt ho h he ht
  nodup := hp ▸ h.nodup
  served q hq := handed_step rt he (h.served q hq)
  history := h.history.trans hh.symm

/-- An event that moves the touched channel to another place. -/
theorem Ledger.move (rt : Runtime) {d : Desk ProxyId RequestId} (ho : Owned s) (h : Ledger s d)
    (he : Enabled s e) {c : ProxyId} {p : Place RequestId} (ht : touched s e = some c)
    (hb : Booked (effect rt s e) c p) (hn : (effect rt s e).proxyChannelPool.Nodup)
    {sv : RequestId → Bool}
    (hs : ∀ q, sv q = true → handed ((effect rt s e).request q).phase = true)
    {k : List (Handover ProxyId RequestId)} (hk : k = (effect rt s e).history) :
    Ledger (effect rt s e) ⟨Function.update d.place c p, sv, k⟩ where
  booked x := by
    by_cases hx : x = c
    · subst hx
      simpa using hb
    · simpa [hx] using booked_untouched rt ho h he (c := x) (by
        rw [ht]
        simpa using Ne.symm hx)
  nodup := hn
  served := hs
  history := hk

theorem Ledger.cmdConnected (rt : Runtime) {d : Desk ProxyId RequestId} (ho : Owned s)
    (h : Ledger s d) {c : ProxyId} (he : Enabled s (.cmdConnected c)) :
    d.place c = .unborn ∧ Ledger (effect rt s (.cmdConnected c)) (d.put c .away) := by
  have hb := h.booked c
  have hu := hb.unborn.mp he
  rw [hu] at hb
  refine ⟨hu, h.move rt ho he rfl ?_ h.nodup (fun q hq => handed_step rt he (h.served q hq))
    h.history⟩
  refine ⟨?_, ?_, ?_, ?_, ?_, ?_⟩
  · simpa [effect] using hb.pooled
  · intro q
    simpa [effect, Held] using hb.held q
  · intro r hr
    obtain ⟨q, -, hq⟩ := hb.bound r (by simpa [effect] using hr)
    cases hq
  · simp
  · simp [effect]
  · simp

theorem Ledger.disconnected (rt : Runtime) {d : Desk ProxyId RequestId} (ho : Owned s)
    (h : Ledger s d) {c : ProxyId} {m : ProxyMessage} {q : RequestId}
    (he : Enabled s (.channelRead c m q)) (hm : m.type = TYPE_DISCONNECT) {r : RealId}
    (hr : (s.proxy c).nextChannel = some r) :
    (∀ p, d.place c ≠ .held p) ∧
      Ledger (effect rt s (.channelRead c m q)) (d.put c .away) := by
  have hb := h.booked c
  obtain ⟨p, -, hp⟩ := hb.bound r hr
  rw [hp] at hb
  have hx : ((handleDisconnectMessage s c).proxy c) =
      { s.proxy c with nextChannel := none, remaining := some (.returnProxyChanel r) } := by
    simp [handleDisconnectMessage, hr]
  have hreq : (handleDisconnectMessage s c).request = s.request :=
    (handleDisconnectMessage_keeps s c).2.1
  refine ⟨by simp [hp], h.move rt ho he rfl ?_ ?_ (fun q hq => handed_step rt he (h.served q hq))
    ?_⟩
  · rw [effect_disconnect hm]
    refine ⟨?_, ?_, ?_, ?_, ?_, ?_⟩
    · simpa using hb.pooled
    · intro q
      simpa [Held, hreq] using hb.held q
    · simp [hx]
    · simp
    · simpa [hx] using hb.unborn
    · simp
  · simpa [effect_disconnect hm] using h.nodup
  · simpa [effect_disconnect hm] using h.history

theorem Ledger.returned (rt : Runtime) {d : Desk ProxyId RequestId} (ho : Owned s)
    (h : Ledger s d) {c : ProxyId} {r : RealId} (he : Enabled s (.returnProxyChanel c r)) :
    d.place c = .away ∧ (Ledger (effect rt s (.returnProxyChanel c r)) d ∨
      Ledger (effect rt s (.returnProxyChanel c r))
        { d.put c .free with history := d.history ++ [.returned c] }) := by
  have hb := h.booked c
  have hp := hb.returning r he
  rw [hp] at hb
  have hnone : (s.proxy c).nextChannel = none := by
    cases hn : (s.proxy c).nextChannel with
    | none => rfl
    | some z =>
      obtain ⟨q, -, hq⟩ := hb.bound z hn
      cases hq
  have hreq : (returnProxyChanel s c r).request = s.request := (returnProxyChanel_keeps s c r).2
  refine ⟨hp, ?_⟩
  by_cases hl : s.proxyChannelPool.length > MAX_POOL_SIZE
  · left
    apply h.stay rt ho he
    · rintro _ ⟨⟩
      rw [hp]
      refine ⟨?_, ?_, ?_, ?_, ?_, ?_⟩
      · simpa [effect, returnProxyChanel, hl] using hb.pooled
      · intro q
        simpa [effect, Held, hreq] using hb.held q
      · simp [effect, returnProxyChanel, hl, hnone]
      · simp
      · simpa [effect, returnProxyChanel, hl, Life.close_eq_unopened] using hb.unborn
      · simp
    · simp [effect, returnProxyChanel, hl]
    · simp [effect, returnProxyChanel, hl]
  · right
    have hc : c ∉ s.proxyChannelPool := by simpa using hb.pooled
    refine h.move rt ho he rfl ?_ ?_ (fun q hq => handed_step rt he (h.served q hq)) ?_
    · refine ⟨?_, ?_, ?_, ?_, ?_, ?_⟩
      · simp [effect, returnProxyChanel, hl]
      · intro q
        simpa [effect, Held, hreq] using hb.held q
      · simp [effect, returnProxyChanel, hl]
      · simp
      · simpa [effect, returnProxyChanel, hl] using hb.unborn
      · simp [effect, returnProxyChanel, hl]
    · simpa [effect, returnProxyChanel, hl, List.nodup_append] using
        ⟨h.nodup, fun a ha hac => hc (hac ▸ ha)⟩
    · simp [effect, returnProxyChanel, hl, h.history]

theorem Ledger.removed (rt : Runtime) {d : Desk ProxyId RequestId} (ho : Owned s)
    (h : Ledger s d) {c : ProxyId} (he : Enabled s (.removeProxyChanel c)) :
    Ledger (effect rt s (.removeProxyChanel c)) d ∨
      (d.place c = .free ∧ Ledger (effect rt s (.removeProxyChanel c)) (d.put c .away)) := by
  have hb := h.booked c
  by_cases hc : c ∈ s.proxyChannelPool
  · right
    have hp := hb.pooled.mp hc
    rw [hp] at hb
    refine ⟨hp, h.move rt ho he rfl ?_ (h.nodup.erase c)
      (fun q hq => handed_step rt he (h.served q hq)) h.history⟩
    refine ⟨?_, ?_, ?_, ?_, ?_, ?_⟩
    · simp [effect, h.nodup.not_mem_erase]
    · intro q
      simpa [effect, Held] using hb.held q
    · intro r hr
      obtain ⟨q, -, hq⟩ := hb.bound r (by simpa [effect] using hr)
      cases hq
    · simp
    · simpa [effect] using hb.unborn
    · simp
  · left
    have herase : s.proxyChannelPool.erase c = s.proxyChannelPool := List.erase_of_not_mem hc
    apply h.stay rt ho he
    · rintro _ ⟨⟩
      refine hb.frame (by simp [effect, herase]) (fun q => by simp [effect, Held]) ?_
        fun _ _ => openedFor_mono rt ho he
      exact ⟨by simp [effect], by simp [effect], by simp [effect]⟩
    · exact herase
    · rfl

/-- Handing out a channel nobody has: the one polled or the one just connected. -/
theorem Ledger.lent (rt : Runtime) {d : Desk ProxyId RequestId} (ho : Owned s)
    (h : Ledger s d) (he : Enabled s e) {c : ProxyId} {q : RequestId} {r : RealId}
    (ht : touched s e = some c) (hp : d.place c = .free ∨ d.place c = .unborn)
    (hreq : ∀ p, ((effect rt s e).request p).phase =
      if p = q then .binding r c .bindProxy else (s.request p).phase)
    (hq : handed (s.request q).phase = false)
    (hx : ((effect rt s e).proxy c).nextChannel = (s.proxy c).nextChannel ∧
      ((effect rt s e).proxy c).remaining = (s.proxy c).remaining ∧
      ((effect rt s e).proxy c).life ≠ .unopened)
    (hc : c ∉ (effect rt s e).proxyChannelPool) (hn : (effect rt s e).proxyChannelPool.Nodup)
    (hh : (effect rt s e).history = s.history ++ [.borrowed c q]) :
    d.served q = false ∧ Ledger (effect rt s e) (d.lend c q) := by
  have hserved : d.served q = false := by
    by_contra hs
    have := h.served q (by simpa using hs)
    rw [hq] at this
    cases this
  have hb := h.booked c
  refine ⟨hserved, h.move rt ho he ht ?_ hn ?_ (by rw [hh, h.history])⟩
  · refine ⟨?_, ?_, ?_, ?_, ?_, ?_⟩
    · simpa using hc
    · intro p
      by_cases hpq : p = q
      · subst hpq
        simp [Held, hreq]
      · have hnot : ¬ Held s p c := by
          rw [hb.held p]
          rcases hp with hp | hp <;> simp [hp]
        simpa [Held, hreq, hpq, Ne.symm hpq] using hnot
    · intro z hz
      obtain ⟨p, -, hz⟩ := hb.bound z (hx.1 ▸ hz)
      rcases hp with hp | hp <;> rw [hp] at hz <;> cases hz
    · simp
    · simpa using hx.2.2
    · intro z hz
      have := hb.returning z (hx.2.1 ▸ hz)
      rcases hp with hp | hp <;> rw [hp] at this <;> cases this
  · intro p hs
    by_cases hpq : p = q
    · simp [hreq, hpq, ProxyChannelUse.handed]
    · rw [hreq p, if_neg hpq]
      exact h.served p (by simpa [hpq] using hs)

theorem Ledger.pooled (rt : Runtime) {d : Desk ProxyId RequestId} (ho : Owned s)
    (h : Ledger s d) {q : RequestId} {r : RealId} (he : Enabled s (.borrowProxyChanel q r))
    {c : ProxyId} {pool : List ProxyId} (hl : s.proxyChannelPool = c :: pool) :
    d.place c = .free ∧ d.served q = false ∧
      Ledger (effect rt s (.borrowProxyChanel q r)) (d.lend c q) := by
  have hphase : (s.request q).phase = .borrowing r := he
  have hb := h.booked c
  have hp : d.place c = .free := hb.pooled.mp (by simp [hl])
  have hd := h.nodup
  rw [hl, List.nodup_cons] at hd
  refine ⟨hp, h.lent rt ho he (r := r) (by simp [touched, hl]) (Or.inl hp) ?_ ?_ ?_ ?_ ?_ ?_⟩
  · intro p
    by_cases hpq : p = q <;> simp [effect, borrowProxyChanel, hl, hpq]
  · simp [hphase, handed]
  · refine ⟨?_, ?_, ?_⟩
    · simp [effect]
    · simp [effect]
    · simp [effect, hb.unborn, hp]
  · simpa [effect, borrowProxyChanel, hl] using hd.1
  · simpa [effect, borrowProxyChanel, hl] using hd.2
  · simp [effect, borrowProxyChanel, hl]

theorem Ledger.connected (rt : Runtime) {d : Desk ProxyId RequestId} (ho : Owned s)
    (h : Ledger s d) {q : RequestId} {r : RealId} {c : ProxyId}
    (he : Enabled s (.proxyConnected q r c)) :
    d.place c = .unborn ∧ d.served q = false ∧
      Ledger (effect rt s (.proxyConnected q r c)) (d.lend c q) := by
  have hb := h.booked c
  have hp : d.place c = .unborn := hb.unborn.mp he.2
  have hc : c ∉ s.proxyChannelPool := by simp [hb.pooled, hp]
  refine ⟨hp, h.lent rt ho he (r := r) rfl (Or.inr hp) ?_ ?_ ?_ ?_ ?_ ?_⟩
  · intro p
    by_cases hpq : p = q <;> simp [effect, hpq]
  · simp [he.1, handed]
  · simp [effect]
  · simpa [effect] using hc
  · simpa [effect] using h.nodup
  · simp [effect]

theorem Ledger.bound (rt : Runtime) {d : Desk ProxyId RequestId} (ho : Owned s)
    (h : Ledger s d) {q : RequestId} {r : RealId} {c : ProxyId}
    (he : Enabled s (.success q r c .bindProxy)) :
    d.place c = .held q ∧
      Ledger (effect rt s (.success q r c .bindProxy)) (d.put c (.attached q)) := by
  have hphase : (s.request q).phase = .binding r c .bindProxy := he
  have hb := h.booked c
  have hp : d.place c = .held q := (hb.held q).mp ⟨r, he⟩
  have howner : (s.real r).openedFor = some q := (ho.owner q r).mp (by simp [hphase, realServerOf])
  rw [hp] at hb
  refine ⟨hp, h.move rt ho he rfl ?_ (by simpa [effect] using h.nodup)
    (fun q hq => handed_step rt he (h.served q hq)) (by simpa [effect] using h.history)⟩
  refine ⟨?_, ?_, ?_, ?_, ?_, ?_⟩
  · simpa [effect] using hb.pooled
  · intro p
    by_cases hpq : p = q
    · subst hpq
      simp [Held, effect, success]
    · have hnot : ¬ Held s p c := by
        rw [hb.held p]
        simpa using Ne.symm hpq
      simpa [Held, effect, success, hpq] using hnot
  · intro z hz
    obtain rfl : r = z := by simpa [effect, success] using hz
    exact ⟨q, by simpa [effect, success] using howner, rfl⟩
  · simp [effect, success]
  · simpa [effect, success] using hb.unborn
  · intro z hz
    have := hb.returning z (by simpa [effect, success] using hz)
    cases this

theorem untouched_pool (rt : Runtime) (h : touched s e = none) :
    (effect rt s e).proxyChannelPool = s.proxyChannelPool ∧
      (effect rt s e).history = s.history := by
  have hp := pool_change rt s e
  generalize (effect rt s e).proxyChannelPool = l at hp
  generalize (effect rt s e).history = k at hp
  cases hp with
  | same => exact ⟨rfl, rfl⟩
  | pooled hl =>
    rw [touched, hl] at h
    cases h
  | _ => cases h

theorem Ledger.untouched (rt : Runtime) {d : Desk ProxyId RequestId} (ho : Owned s)
    (h : Ledger s d) (he : Enabled s e) (ht : touched s e = none) : Ledger (effect rt s e) d := by
  obtain ⟨hp, hh⟩ := untouched_pool rt ht
  refine h.stay rt ho he ?_ hp hh
  intro c hc
  rw [ht] at hc
  cases hc

/-- Messages other than a DISCONNECT on a bound channel move no channel. -/
theorem Ledger.read (rt : Runtime) {d : Desk ProxyId RequestId} (ho : Owned s)
    (h : Ledger s d) {c : ProxyId} {m : ProxyMessage} {q : RequestId}
    (he : Enabled s (.channelRead c m q))
    (hm : m.type ≠ TYPE_DISCONNECT ∨ (s.proxy c).nextChannel = none) :
    Ledger (effect rt s (.channelRead c m q)) d := by
  have hx : (effect rt s (.channelRead c m q)).proxy c = s.proxy c := by
    by_cases hc : m.type = TYPE_CONNECT
    · simp [effect_connect hc]
    · by_cases hd : m.type = TYPE_DISCONNECT
      · rcases hm with hm | hm
        · exact absurd hd hm
        · simp [effect_disconnect hd, handleDisconnectMessage, hm]
      · simp [effect_otherMessage hc hd]
  have hp := pool_change rt s (.channelRead c m q)
  generalize hl : (effect rt s (.channelRead c m q)).proxyChannelPool = l at hp
  generalize hk : (effect rt s (.channelRead c m q)).history = k at hp
  cases hp with
  | same =>
    refine h.stay rt ho he ?_ hl hk
    rintro _ ⟨⟩
    refine (h.booked c).frame (by rw [hl]) ?_ (by rw [hx]; exact .refl _)
      fun _ _ => openedFor_mono rt ho he
    intro p
    constructor
    · intro hheld
      rcases held_after rt he hheld with h | ⟨r, pool, hne, -⟩ | ⟨r, hne⟩
      · exact h
      · cases hne
      · cases hne
    · intro hheld
      rcases held_before rt he hheld with h | ⟨r, hne⟩
      · exact h
      · cases hne

theorem Ledger.step (rt : Runtime) {d : Desk ProxyId RequestId} (ho : Owned s)
    (h : Ledger s d) (he : Enabled s e) : Ledger (effect rt s e) d ∨
      ∃ m, (desk ProxyId RequestId).Enabled d m ∧
        Ledger (effect rt s e) ((desk ProxyId RequestId).next d m) := by
  cases e with
  | cmdConnected c =>
    obtain ⟨hp, hl⟩ := h.cmdConnected rt ho he
    exact Or.inr ⟨.withdraw c, by simp [desk, hp], hl⟩
  | channelRead c m q =>
    by_cases hm : m.type = TYPE_DISCONNECT
    · cases hr : (s.proxy c).nextChannel with
      | none => exact Or.inl (h.read rt ho he (Or.inr hr))
      | some r =>
        obtain ⟨hp, hl⟩ := h.disconnected rt ho he hm hr
        exact Or.inr ⟨.withdraw c, hp, hl⟩
    · exact Or.inl (h.read rt ho he (Or.inl hm))
  | returnProxyChanel c r =>
    obtain ⟨hp, hl | hl⟩ := h.returned rt ho he
    · exact Or.inl hl
    · exact Or.inr ⟨.giveBack c, hp, hl⟩
  | borrowProxyChanel q r =>
    cases hl : s.proxyChannelPool with
    | nil => exact Or.inl (h.untouched rt ho he (by simp [touched, hl]))
    | cons c pool =>
      obtain ⟨hp, hs, hl⟩ := h.pooled rt ho he hl
      exact Or.inr ⟨.borrow c q, ⟨hp, hs⟩, hl⟩
  | proxyConnected q r c =>
    obtain ⟨hp, hs, hl⟩ := h.connected rt ho he
    exact Or.inr ⟨.create c q, ⟨hp, hs⟩, hl⟩
  | success q r c step =>
    cases step with
    | bindProxy =>
      obtain ⟨hp, hl⟩ := h.bound rt ho he
      exact Or.inr ⟨.attach c q, hp, hl⟩
    | _ => exact Or.inl (h.untouched rt ho he rfl)
  | removeProxyChanel c =>
    rcases h.removed rt ho he with hl | ⟨hp, hl⟩
    · exact Or.inl hl
    · exact Or.inr ⟨.withdraw c, by simp [desk, hp], hl⟩
  | _ => exact Or.inl (h.untouched rt ho he rfl)

theorem Ledger.sent {d : Desk ProxyId RequestId} (h : Ledger s d) (out : List Output) :
    Ledger { s with sent := out } d :=
  ⟨fun c => ⟨(h.booked c).pooled, (h.booked c).held, (h.booked c).bound, (h.booked c).attached,
    (h.booked c).unborn, (h.booked c).returning⟩, h.nodup, h.served, h.history⟩

theorem ledger_initial : Ledger initial ⟨fun _ => .unborn, fun _ => false, []⟩ := by
  refine ⟨?_, List.nodup_nil, ?_, rfl⟩
  · intro c
    constructor <;> simp [initial, Held]
  · intro q hq
    cases hq

/-- The manager's pool is a lending desk. -/
def deskSimulation (rt : Runtime) :
    Simulation (client rt) (desk ProxyId RequestId) Owned where
  Rel := Ledger
  initial s hs := ⟨_, rfl, by rw [hs]; exact ledger_initial⟩
  step s d e ho h he := by
    rcases h.step rt ho he with hl | ⟨m, hm, hl⟩
    · exact Or.inl (hl.sent _)
    · exact Or.inr ⟨m, hm, hl.sent _⟩

theorem reachable_ledger {rt : Runtime} {s : State} (h : Reachable (client rt) s) :
    ∃ d, Sound d ∧ Ledger s d := by
  obtain ⟨d, hd, hl⟩ := (deskSimulation rt).reachable (fun _ => reachable_owned) h
  exact ⟨d, reachable_sound hd, hl⟩

/-- Each data channel is in the pool once, out on one borrow, or bound for one real server. -/
structure ExclusiveUse (s : State) : Prop where
  pool_nodup : s.proxyChannelPool.Nodup
  pool_unbound : ∀ c ∈ s.proxyChannelPool, (s.proxy c).nextChannel = none
  pool_not_held : ∀ c ∈ s.proxyChannelPool, ∀ q, ¬ Held s q c
  held_unbound : ∀ q c, Held s q c → (s.proxy c).nextChannel = none
  held_once : ∀ q p c, Held s q c → Held s p c → q = p
  bound_once : ∀ c x r, (s.proxy c).nextChannel = some r → (s.proxy x).nextChannel = some r → c = x
  handovers : Exclusive s.history

theorem Ledger.exclusiveUse {d : Desk ProxyId RequestId} (hs : Sound d) (h : Ledger s d) :
    ExclusiveUse s where
  pool_nodup := h.nodup
  pool_unbound c hc := by
    by_contra hn
    obtain ⟨r, hr⟩ := Option.ne_none_iff_exists'.mp hn
    obtain ⟨q, -, hq⟩ := (h.booked c).bound r hr
    rw [(h.booked c).pooled.mp hc] at hq
    cases hq
  pool_not_held c hc q hq := by
    have := ((h.booked c).held q).mp hq
    rw [(h.booked c).pooled.mp hc] at this
    cases this
  held_unbound q c hq := by
    by_contra hn
    obtain ⟨r, hr⟩ := Option.ne_none_iff_exists'.mp hn
    obtain ⟨p, -, hp⟩ := (h.booked c).bound r hr
    rw [((h.booked c).held q).mp hq] at hp
    cases hp
  held_once q p c hq hp := by
    have := ((h.booked c).held p).mp hp
    rw [((h.booked c).held q).mp hq] at this
    exact Place.held.inj this
  bound_once c x r hc hx := by
    obtain ⟨q, hq, hcq⟩ := (h.booked c).bound r hc
    obtain ⟨p, hp, hxp⟩ := (h.booked x).bound r hx
    obtain rfl : q = p := Option.some.inj (hq.symm.trans hp)
    exact hs.keeper_unique c x q (by rw [hcq]; rfl) (by rw [hxp]; rfl)
  handovers := h.history ▸ hs.exclusive

theorem exclusive_use_of_proxy_channels {rt : Runtime} {s : State}
    (h : Reachable (client rt) s) : ExclusiveUse s := by
  obtain ⟨d, hs, hl⟩ := reachable_ledger h
  exact hl.exclusiveUse hs

/-- Only a DISCONNECT message parts a bound channel from its real server. -/
theorem bound_until_disconnect (rt : Runtime) {d : Desk ProxyId RequestId} (h : Ledger s d)
    (he : Enabled s e) {c : ProxyId} {r : RealId} (hr : (s.proxy c).nextChannel = some r) :
    ((effect rt s e).proxy c).nextChannel = some r ∨
    ∃ m q, e = .channelRead c m q ∧ m.type = TYPE_DISCONNECT := by
  have hx := proxy_change rt he c
  generalize (effect rt s e).proxy c = x at hx
  obtain ⟨p, -, hp⟩ := (h.booked c).bound r hr
  cases hx with
  | same hs => exact Or.inl (hs.nextChannel.trans hr)
  | cmdConnected => exact Or.inl hr
  | disconnected hm hn => exact Or.inr ⟨_, _, rfl, hm⟩
  | returned hl =>
    have := (h.booked c).returning _ he
    rw [hp] at this
    cases this
  | connected => exact Or.inl hr
  | bound =>
    have := ((h.booked c).held _).mp ⟨_, he⟩
    rw [hp] at this
    cases this

/-- The channel on which the event handles a DISCONNECT message. -/
def disconnectOn : Event → Option ProxyId
  | .channelRead c m _ => if m.type = TYPE_DISCONNECT then some c else none
  | _ => none

theorem disconnectOn_channelRead {c : ProxyId} {m : ProxyMessage} {q : RequestId}
    (hm : m.type = TYPE_DISCONNECT) : c ∈ disconnectOn (.channelRead c m q) := by
  simp [disconnectOn, hm]

def device : Runtime := ⟨fun _ => [], ofString "key"⟩

def connectRequest (userId data : String) : ProxyMessage :=
  { type := TYPE_CONNECT, uri := some (ofString userId), data := some (getBytes (ofString data)) }

def disconnectRequest : ProxyMessage := { type := TYPE_DISCONNECT, uri := some [], data := some [] }

def bindSteps (q : RequestId) (r : RealId) (c : ProxyId) : List Event :=
  [.success q r c .bindProxy, .success q r c .bindReal, .success q r c .sendConnect,
    .success q r c .enableRead, .success q r c .addRealServerChannel, .success q r c .setUserId]

/-- The first user's connection over the newly dialed proxy channel 1. -/
def firstConnection : List Event :=
  [.cmdConnected 0, .channelRead 0 (connectRequest "u1" "h:1") 0, .realConnected 0 0,
    .borrowProxyChanel 0 0, .proxyConnected 0 0 1] ++ bindSteps 0 0 1

def returnOfFirst : List Event :=
  [.channelRead 1 disconnectRequest 5, .returnProxyChanel 1 0, .closeRealServer 1 0]

/-- The second user's connection over the channel returned to the pool. -/
def secondConnection : List Event :=
  [.channelRead 0 (connectRequest "u2" "h:1") 1, .realConnected 1 1, .borrowProxyChanel 1 1] ++
    bindSteps 1 1 1

instance (rt : Runtime) (s : State) (e : Event) : Decidable ((client rt).Enabled s e) :=
  inferInstanceAs (Decidable (Enabled s e))

/-- The first channel is out on its second borrow. -/
theorem exclusive_use_of_proxy_channels_reborrowed : ExclusiveUse
    (runTrace (client device) initial
      (firstConnection ++ returnOfFirst ++ secondConnection.take 3)) :=
  exclusive_use_of_proxy_channels (validTrace_reachable rfl (by decide))

end ProxyChannelUse
