import AndroidDebug.ProxyChannelUse

/-! Whether a real-server channel still writes to the channel it is bound to. That depends on
when the proxy server sends its DISCONNECT messages. -/
namespace ProxyChannelBinding

open TransitionSystem Custody JavaText ProxyMessageCodec ProxyClient ProxyChannelUse

variable {rt : Runtime} {s : State} {e : Event}

theorem inactive_stays (rt : Runtime) (he : Enabled s e) {r : RealId}
    (h : (s.real r).life = .inactive) : ((effect rt s e).real r).life = .inactive := by
  have hx := real_change rt he r
  generalize (effect rt s e).real r = x at hx
  cases hx with
  | same hs => exact hs.inactive h
  | opened =>
    have := he.2
    rw [h] at this
    cases this
  | bound => exact h

/-- A DISCONNECT message on a bound channel answers the close of its real server, whose
channelInactive has run. -/
def AnswersClose (s : State) (e : Event) : Prop :=
  ∀ c ∈ disconnectOn e, ∀ r ∈ (s.proxy c).nextChannel, (s.real r).life = .inactive

instance (s : State) (e : Event) : Decidable (AnswersClose s e) :=
  inferInstanceAs (Decidable (∀ _ ∈ _, _))

/-- A real-server channel that has not gone inactive is bound back by the channel it uses. -/
structure Attended (s : State) : Prop where
  realServer : ∀ r c, (s.real r).nextChannel = some c → (s.real r).life ≠ .inactive →
    (s.proxy c).nextChannel = some r
  halfBound : ∀ q r c, (s.request q).phase = .binding r c .bindReal →
    (s.real r).life ≠ .inactive → (s.proxy c).nextChannel = some r

theorem still_bound (rt : Runtime) {d : Desk ProxyId RequestId} (h : Ledger s d)
    (he : Enabled s e) (hc : AnswersClose s e) {c : ProxyId} {r : RealId}
    (hl : (s.real r).life ≠ .inactive) (hr : (s.proxy c).nextChannel = some r) :
    ((effect rt s e).proxy c).nextChannel = some r := by
  rcases bound_until_disconnect rt h he hr with hr' | ⟨m, q, rfl, hm⟩
  · exact hr'
  · exact absurd (hc c (disconnectOn_channelRead hm) r hr) hl

theorem Attended.step (rt : Runtime) {d : Desk ProxyId RequestId} (h : Ledger s d)
    (ha : Attended s) (he : Enabled s e) (hc : AnswersClose s e) : Attended (effect rt s e) := by
  constructor
  · intro r c hr hl
    have hlive : (s.real r).life ≠ .inactive := fun hi => hl (inactive_stays rt he hi)
    have hx := real_change rt he r
    generalize (effect rt s e).real r = x at hx hr
    cases hx with
    | same hs =>
      exact still_bound rt h he hc hlive (ha.realServer r c (hs.nextChannel ▸ hr) hlive)
    | opened => exact still_bound rt h he hc hlive (ha.realServer r c hr hlive)
    | bound =>
      cases hr
      exact still_bound rt h he hc hlive (ha.halfBound _ r c he hlive)
  · intro q r c hq hl
    have hlive : (s.real r).life ≠ .inactive := fun hi => hl (inactive_stays rt he hi)
    rcases request_change rt he q with heq | hadv
    · exact still_bound rt h he hc hlive (ha.halfBound q r c (heq ▸ hq) hlive)
    · rw [hq] at hadv
      rcases hadv.to_binding with ⟨hstep, -⟩ | ⟨previous, rfl, hprevious⟩
      · cases hstep
      · cases previous <;> cases hprevious
        simp [effect, success]

theorem reachable_attended {rt : Runtime} {s : State}
    (h : ReachableWhere (client rt) AnswersClose s) : Attended s := by
  refine ReachableWhere.invariant_with (J := fun s => ∃ d, Sound d ∧ Ledger s d) (I := Attended)
    (fun _ => reachable_ledger) ?_ ?_ h
  · rintro _ rfl
    constructor
    · intro r c hr
      cases hr
    · intro q r c hq
      cases hq
  · rintro s e ⟨d, -, hd⟩ ha he hc
    have := ha.step rt hd he hc
    exact ⟨this.realServer, this.halfBound⟩

/-- Whatever the event `e` makes a real-server channel write goes to a channel bound to it,
so to no channel in the pool or on its way to another user. -/
def WritesWhileBound (rt : Runtime) (s : State) (e : Event) : Prop :=
  ∀ c m r, Output.proxyMessage c m (.realServer r) ∈ writes rt s e →
    (s.proxy c).nextChannel = some r ∧ c ∉ s.proxyChannelPool ∧ ∀ q, ¬ Held s q c

theorem realServer_writes {c : ProxyId} {m : ProxyMessage} {r : RealId} (he : Enabled s e)
    (hw : Output.proxyMessage c m (.realServer r) ∈ writes rt s e) :
    (s.real r).nextChannel = some c ∧ (s.real r).life ≠ .inactive := by
  cases e with
  | realRead z bytes =>
    simp only [writes] at hw
    split at hw
    · cases hw
    · rename_i x hx
      obtain ⟨rfl, -, rfl⟩ : c = x ∧ m = _ ∧ r = z := by simpa using hw
      refine ⟨hx, ?_⟩
      rcases he.1 with hl | hl <;> simp [hl]
  | realInactive z =>
    have hl : (s.real z).life = .closed := he
    simp only [writes] at hw
    split at hw
    · rename_i u x hu hx
      obtain ⟨rfl, -, rfl⟩ : c = x ∧ m = _ ∧ r = z := by simpa using hw
      exact ⟨hx, by simp [hl]⟩
    · cases hw
  | channelRead x n q =>
    simp only [writes] at hw
    split at hw
    · split at hw <;> simp at hw
    · cases hw
  | success q z x step => cases step <;> simp [writes] at hw
  | _ => simp [writes, refusal] at hw

theorem writes_while_bound {rt : Runtime} {s : State} {e : Event}
    (h : ReachableWhere (client rt) AnswersClose s) (he : Enabled s e) :
    WritesWhileBound rt s e := by
  intro c m r hw
  obtain ⟨hr, hl⟩ := realServer_writes he hw
  obtain ⟨d, hs, hd⟩ := reachable_ledger h.reachable
  have hx := hd.exclusiveUse hs
  have hn := (reachable_attended h).realServer r c hr hl
  refine ⟨hn, ?_, ?_⟩
  · intro hc
    rw [hx.pool_unbound c hc] at hn
    cases hn
  · intro q hq
    rw [hx.held_unbound q c hq] at hn
    cases hn

/-- The condition is needed: a DISCONNECT that comes earlier lets the next bytes of the real
server go to a channel that is no longer bound to it. -/
theorem early_disconnect_strays (rt : Runtime) {c : ProxyId} {m : ProxyMessage} {q : RequestId}
    {r : RealId} (hm : m.type = TYPE_DISCONNECT) (hc : (s.proxy c).nextChannel = some r)
    (hr : (s.real r).nextChannel = some c) (hread : Enabled s (.realRead r [])) :
    Enabled ((client rt).next s (.channelRead c m q)) (.realRead r []) ∧
      ¬ WritesWhileBound rt ((client rt).next s (.channelRead c m q)) (.realRead r []) := by
  have hreal : (effect rt s (.channelRead c m q)).real = s.real := by
    rw [effect_disconnect hm]
    exact (handleDisconnectMessage_keeps s c).1
  have hn : ((effect rt s (.channelRead c m q)).proxy c).nextChannel = none := by
    rw [effect_disconnect hm]
    simp [handleDisconnectMessage, hc]
  constructor
  · simpa [client, Enabled, hreal] using hread
  · intro h
    have := (h c (transferMessage (s.real r).userId []) r (by simp [writes, client, hreal, hr])).1
    simp [client, hn] at this

theorem writes_while_bound_strays : ¬ ∀ s e, Reachable (client device) s → Enabled s e →
    WritesWhileBound device s e := by
  intro h
  have hv : ValidTrace (client device) Unrestricted initial
      (firstConnection ++ returnOfFirst ++ secondConnection) := by decide
  have hw := h _ (.realRead 0 [42]) (validTrace_reachable rfl hv) (by decide)
  exact absurd (hw 1 (transferMessage (some (ofString "u1")) [42]) 0 (by decide)).1 (by decide)

/-- The real server closes first and the DISCONNECT message answers its notice. -/
def orderlyClose : List Event :=
  [.realClose 0, .realInactive 0, .channelRead 1 disconnectRequest 5, .returnProxyChanel 1 0,
    .closeRealServer 1 0]

theorem writes_while_bound_second_user : WritesWhileBound device
    (runTrace (client device) initial (firstConnection ++ orderlyClose ++ secondConnection))
    (.realRead 1 [42]) :=
  writes_while_bound (validTrace_reachable rfl (by decide)) (by decide)

end ProxyChannelBinding
