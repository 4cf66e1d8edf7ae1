import AndroidDebug.ProxyChannelUse

/-! The answer to a CONNECT request. How many replies a request has got is a function of its
phase; which connects end in a phase with the right reply depends on the message data, on the
proxy server being reachable and on when it sends its DISCONNECT messages. -/
namespace ProxyConnect

open TransitionSystem Custody JavaText ProxyMessageCodec ProxyClient ProxyChannelUse

variable {rt : Runtime} {s : State} {e : Event}

def isReplyTo (q : RequestId) : Output → Bool
  | .proxyMessage _ _ source => source = .request q
  | .serverData _ _ => false

def repliesTo (q : RequestId) (out : List Output) : List Output := out.filter (isReplyTo q)

def acceptance (rt : Runtime) (s : State) (q : RequestId) (c : ProxyId) : Output :=
  .proxyMessage c (connectMessage rt (s.request q).userId) (.request q)

/-- The CONNECT has been written before this statement of the success callback. -/
def BindStep.announced : BindStep → Bool
  | .bindProxy => false
  | .bindReal => false
  | .sendConnect => false
  | .enableRead => true
  | .addRealServerChannel => true
  | .setUserId => true

def expectedReplies (rt : Runtime) (s : State) (q : RequestId) : List Output :=
  match (s.request q).phase with
  | .binding _ c step => if BindStep.announced step then [acceptance rt s q c] else []
  | .bound _ c => [acceptance rt s q c]
  | .refused _ => [refusal s q]
  | _ => []

/-- The user id and the command channel are those of the CONNECT message for good. -/
theorem request_captured (rt : Runtime) (he : Enabled s e) {q : RequestId}
    (hq : (s.request q).phase ≠ .idle) :
    ((effect rt s e).request q).userId = (s.request q).userId ∧
    ((effect rt s e).request q).cmdChannel = (s.request q).cmdChannel := by
  cases e with
  | channelRead c m p =>
    by_cases hc : m.type = TYPE_CONNECT
    · have hqp : q ≠ p := by
        rintro rfl
        exact hq he.2.2.2
      simp [effect_connect hc, handleConnectMessage, hqp]
    · by_cases hd : m.type = TYPE_DISCONNECT
      · simp [effect_disconnect hd]
      · simp [effect_otherMessage hc hd]
  | borrowProxyChanel p r =>
    cases hl : s.proxyChannelPool <;> by_cases h : q = p <;>
      simp [effect, borrowProxyChanel, hl, h]
  | success p r c step =>
    cases step <;> by_cases h : q = p <;> simp [effect, success, h]
  | realConnected p r => by_cases h : q = p <;> simp [effect, h]
  | realConnectFailed p => by_cases h : q = p <;> simp [effect, h]
  | proxyConnected p r c => by_cases h : q = p <;> simp [effect, h]
  | proxyConnectFailed p r => by_cases h : q = p <;> simp [effect, h]
  | realRead r bytes =>
    simp only [effect]
    split <;> simp
  | realWritabilityChanged r =>
    simp only [effect]
    split <;> simp
  | proxyWritabilityChanged c =>
    simp only [effect]
    split <;> simp
  | closeRealServer c r => simp [effect, closeRealServer]
  | _ => simp [effect]

/-- A request that does not move gets no reply. -/
theorem no_reply_unmoved (rt : Runtime) (he : Enabled s e) {q : RequestId}
    (h : (effect rt s e).request q = s.request q) : repliesTo q (writes rt s e) = [] := by
  cases e with
  | channelRead c m p =>
    simp only [writes]
    split
    · split <;> rfl
    · rfl
  | realConnectFailed p =>
    by_cases hp : p = q
    · subst hp
      have hc : (s.request p).phase.isConnecting = true := he
      rw [← h] at hc
      simp [effect, Phase.isConnecting] at hc
    · simp [writes, repliesTo, refusal, isReplyTo, hp]
  | proxyConnectFailed p r =>
    by_cases hp : p = q
    · subst hp
      have hc : (s.request p).phase = .dialing r := he
      rw [← h] at hc
      simp [effect] at hc
    · simp [writes, repliesTo, refusal, isReplyTo, hp]
  | success p r c step =>
    by_cases hp : p = q
    · subst hp
      have hc : (s.request p).phase = .binding r c step := he
      rw [← h] at hc
      cases step <;> simp [effect, success] at hc
    · cases step <;> simp [writes, repliesTo, isReplyTo, hp]
  | realRead r bytes =>
    simp only [writes]
    split <;> simp [repliesTo, isReplyTo]
  | realInactive r =>
    simp only [writes]
    split <;> simp [repliesTo, isReplyTo]
  | cmdConnected c => simp [writes, repliesTo, isReplyTo]
  | _ => rfl

theorem reply_step (rt : Runtime) (he : Enabled s e) (q : RequestId) :
    expectedReplies rt (effect rt s e) q =
      expectedReplies rt s q ++ repliesTo q (writes rt s e) := by
  rcases request_change rt he q with heq | hadv
  · rw [no_reply_unmoved rt he heq, List.append_nil]
    simp only [expectedReplies, acceptance, refusal, heq]
  · have hcap := request_captured rt (q := q) he
    unfold expectedReplies acceptance refusal
    generalize hp : (s.request q).phase = p at hadv hcap
    generalize ((effect rt s e).request q).phase = p' at hadv
    cases hadv with
    | received hm =>
      rename_i c m
      rcases phaseOfData_cases rt (m.data.getD []) with ⟨ip, port, hd⟩ | ⟨x, -, hd⟩ <;>
        simp [hd, writes, hm, TYPE_CONNECT, P_TYPE_TRANSFER, repliesTo]
    | realConnectFailed =>
      have := hcap (by simp)
      simp [writes, refusal, repliesTo, isReplyTo, this]
    | proxyConnectFailed =>
      have := hcap (by simp)
      simp [writes, refusal, repliesTo, isReplyTo, this]
    | success =>
      rename_i r c step
      have := hcap (by simp)
      cases step <;>
        simp [BindStep.after, BindStep.announced, writes, repliesTo, isReplyTo, this]
    | _ => simp [BindStep.announced, writes, repliesTo]

theorem replies_expected {rt : Runtime} {s : State} (h : Reachable (client rt) s)
    (q : RequestId) : repliesTo q s.sent = expectedReplies rt s q := by
  refine Reachable.invariant (I := fun s => repliesTo q s.sent = expectedReplies rt s q) ?_ ?_ h
  · rintro _ rfl
    rfl
  · intro s e hs he
    have := reply_step rt he q
    calc repliesTo q (s.sent ++ writes rt s e)
        = repliesTo q s.sent ++ repliesTo q (writes rt s e) := List.filter_append ..
      _ = expectedReplies rt (effect rt s e) q := by rw [hs, this]

/-- The data of a CONNECT message that the event handles. -/
def connectData : Event → Option (List UInt8)
  | .channelRead _ m _ => if m.type = TYPE_CONNECT then some (m.data.getD []) else none
  | _ => none

def dialFails : Event → Bool
  | .proxyConnectFailed _ _ => true
  | _ => false

/-- The message data of a CONNECT names a host and a port, the proxy server accepts the
connections dialed for a borrow, and no DISCONNECT message comes between the binding of a
channel and the CONNECT written on it. -/
def Answerable (rt : Runtime) (s : State) (e : Event) : Prop :=
  (∀ data ∈ connectData e, (serverInfo rt data).isOk = true) ∧
  dialFails e = false ∧
  (∀ c ∈ disconnectOn e, ∀ r ∈ (s.proxy c).nextChannel, ∀ q ∈ (s.real r).openedFor,
    (s.request q).phase ≠ .binding r c .bindReal ∧
    (s.request q).phase ≠ .binding r c .sendConnect)

instance (rt : Runtime) (s : State) (e : Event) : Decidable (Answerable rt s e) :=
  inferInstanceAs (Decidable (_ ∧ _ ∧ _))

structure Announcing (s : State) : Prop where
  half : ∀ q r c, (s.request q).phase = .binding r c .bindReal → (s.proxy c).nextChannel = some r
  full : ∀ q r c, (s.request q).phase = .binding r c .sendConnect →
    (s.proxy c).nextChannel = some r ∧ (s.real r).nextChannel = some c
  readable : ∀ q x, (s.request q).phase ≠ .aborted x
  dialed : ∀ q r, (s.request q).phase ≠ .refused (some r)

theorem still_announcing (rt : Runtime) {d : Desk ProxyId RequestId} (ho : Owned s)
    (h : Ledger s d) (he : Enabled s e) (hc : Answerable rt s e) {q : RequestId} {r : RealId}
    {c : ProxyId} (hq : (s.request q).phase = .binding r c .bindReal ∨
      (s.request q).phase = .binding r c .sendConnect)
    (hr : (s.proxy c).nextChannel = some r) :
    ((effect rt s e).proxy c).nextChannel = some r := by
  rcases bound_until_disconnect rt h he hr with hr' | ⟨m, p, rfl, hm⟩
  · exact hr'
  · have howner : (s.real r).openedFor = some q := by
      apply (ho.owner q r).mp
      rcases hq with hq | hq <;> rw [hq] <;> rfl
    obtain ⟨hhalf, hfull⟩ := hc.2.2 c (disconnectOn_channelRead hm) r hr q howner
    rcases hq with hq | hq
    · exact absurd hq hhalf
    · exact absurd hq hfull

theorem Announcing.half_step (rt : Runtime) {d : Desk ProxyId RequestId} (ho : Owned s)
    (h : Ledger s d) (ha : Announcing s) (he : Enabled s e) (hc : Answerable rt s e)
    (q : RequestId) (r : RealId) (c : ProxyId)
    (hq : ((effect rt s e).request q).phase = .binding r c .bindReal) :
    ((effect rt s e).proxy c).nextChannel = some r := by
  rcases request_change rt he q with heq | hadv
  · rw [heq] at hq
    exact still_announcing rt ho h he hc (Or.inl hq) (ha.half q r c hq)
  · rw [hq] at hadv
    rcases hadv.to_binding with ⟨hstep, -⟩ | ⟨previous, rfl, hprevious⟩
    · cases hstep
    · cases previous <;> cases hprevious
      simp [effect, success]

theorem Announcing.full_step (rt : Runtime) {d : Desk ProxyId RequestId} (ho : Owned s)
    (h : Ledger s d) (ha : Announcing s) (he : Enabled s e) (hc : Answerable rt s e)
    (q : RequestId) (r : RealId) (c : ProxyId)
    (hq : ((effect rt s e).request q).phase = .binding r c .sendConnect) :
    ((effect rt s e).proxy c).nextChannel = some r ∧
      ((effect rt s e).real r).nextChannel = some c := by
  rcases request_change rt he q with heq | hadv
  · rw [heq] at hq
    obtain ⟨hn, hr⟩ := ha.full q r c hq
    refine ⟨still_announcing rt ho h he hc (Or.inr hq) hn, ?_⟩
    have howner : (s.real r).openedFor = some q := (ho.owner q r).mp (by rw [hq]; rfl)
    have hx := real_change rt he r
    generalize (effect rt s e).real r = x at hx
    cases hx with
    | same hs => exact hs.nextChannel.trans hr
    | opened => exact hr
    | bound =>
      rename_i p x
      have hp : (s.request p).phase = .binding r x .bindReal := he
      have : (s.real r).openedFor = some p := (ho.owner p r).mp (by rw [hp]; rfl)
      obtain rfl : q = p := Option.some.inj (howner.symm.trans this)
      rw [hq] at hp
      cases hp
  · rw [hq] at hadv
    rcases hadv.to_binding with ⟨hstep, -⟩ | ⟨previous, rfl, hprevious⟩
    · cases hstep
    · cases previous <;> cases hprevious
      constructor
      · simpa [effect, success] using ha.half q r c he
      · simp [effect, success]

theorem Announcing.step (rt : Runtime) {d : Desk ProxyId RequestId} (ho : Owned s)
    (h : Ledger s d) (ha : Announcing s) (he : Enabled s e) (hc : Answerable rt s e) :
    Announcing (effect rt s e) := by
  refine ⟨ha.half_step rt ho h he hc, ha.full_step rt ho h he hc, ?_, ?_⟩
  · intro q x hq
    rcases request_change rt he q with heq | hadv
    · exact ha.readable q x (heq ▸ hq)
    · rw [hq] at hadv
      obtain ⟨c, m, rfl, hm, hx⟩ := hadv.to_aborted
      have hread := hc.1 (m.data.getD []) (by simp [connectData, hm])
      rw [hx] at hread
      cases hread
  · intro q r hq
    rcases request_change rt he q with heq | hadv
    · exact ha.dialed q r (heq ▸ hq)
    · rw [hq] at hadv
      obtain rfl := hadv.to_refused
      cases hc.2.1

theorem reachable_announcing {rt : Runtime} {s : State}
    (h : ReachableWhere (client rt) (Answerable rt) s) : Announcing s := by
  refine ReachableWhere.invariant_with
    (J := fun s => Owned s ∧ ∃ d, Sound d ∧ Ledger s d) (I := Announcing)
    (fun _ hr => ⟨reachable_owned hr, reachable_ledger hr⟩) ?_ ?_ h
  · rintro _ rfl
    constructor <;> simp [initial]
  · rintro s e ⟨ho, d, -, hd⟩ ha he hc
    have := ha.step rt ho hd he hc
    exact ⟨this.half, this.full, this.readable, this.dialed⟩

/-- The command channel takes no part in the lending. -/
structure CommandApart (s : State) (c : ProxyId) : Prop where
  opened : (s.proxy c).life ≠ .unopened
  unbound : (s.proxy c).nextChannel = none
  unpooled : c ∉ s.proxyChannelPool
  unheld : ∀ q, ¬ Held s q c
  unreturned : ∀ r, (s.proxy c).remaining ≠ some (.returnProxyChanel r)

theorem cmdChannel_change (rt : Runtime) (s : State) (e : Event) :
    (effect rt s e).cmdChannel = s.cmdChannel ∨ (effect rt s e).cmdChannel = none ∨
      ∃ c, e = .cmdConnected c ∧ (effect rt s e).cmdChannel = some c := by
  cases e with
  | cmdConnected c => exact Or.inr (Or.inr ⟨c, rfl, rfl⟩)
  | channelRead c m q =>
    left
    by_cases hc : m.type = TYPE_CONNECT
    · rw [effect_connect hc]
      rfl
    · by_cases hd : m.type = TYPE_DISCONNECT
      · rw [effect_disconnect hd]
        unfold handleDisconnectMessage
        split <;> rfl
      · rw [effect_otherMessage hc hd]
  | returnProxyChanel c r =>
    left
    simp only [effect, returnProxyChanel]
    split <;> rfl
  | borrowProxyChanel q r =>
    left
    simp only [effect, borrowProxyChanel]
    split <;> rfl
  | success q r c step =>
    left
    cases step <;> rfl
  | realRead r bytes =>
    left
    simp only [effect]
    split <;> rfl
  | realInactive r =>
    left
    simp only [effect, realInactive]
    split <;> rfl
  | proxyInactive c =>
    simp only [effect, proxyInactive]
    split
    · exact Or.inr (Or.inl rfl)
    · left
      split
      · rfl
      · split <;> rfl
  | realWritabilityChanged r =>
    left
    simp only [effect]
    split <;> rfl
  | proxyWritabilityChanged c =>
    left
    simp only [effect]
    split <;> rfl
  | _ => exact Or.inl rfl

theorem CommandApart.step (rt : Runtime) {c : ProxyId} (h : CommandApart s c)
    (he : Enabled s e) : CommandApart (effect rt s e) c := by
  have hx := proxy_change rt he c
  have hp := pool_change rt s e
  refine ⟨?_, ?_, ?_, ?_, ?_⟩
  · generalize (effect rt s e).proxy c = x at hx
    cases hx with
    | same hs => exact fun hl => h.opened (hs.unopened.mp hl)
    | cmdConnected => simp
    | connected => simp
    | _ => exact h.opened
  · generalize (effect rt s e).proxy c = x at hx
    cases hx with
    | same hs => exact hs.nextChannel.trans h.unbound
    | disconnected => rfl
    | returned => rfl
    | bound => exact absurd ⟨_, he⟩ (h.unheld _)
    | _ => exact h.unbound
  · generalize (effect rt s e).proxyChannelPool = l at hp
    generalize (effect rt s e).history = k at hp
    have hc := h.unpooled
    cases hp with
    | same => exact hc
    | returned =>
      rename_i x r
      have hne : c ≠ x := by
        rintro rfl
        exact h.unreturned r he
      simp [hc, hne]
    | pooled hl =>
      rw [hl] at hc
      exact fun hm => hc (List.mem_cons_of_mem _ hm)
    | connected => exact hc
    | removed => exact fun hm => hc (List.mem_of_mem_erase hm)
  · intro q hq
    rcases held_after rt he hq with hq | ⟨r, pool, rfl, hl⟩ | ⟨r, rfl⟩
    · exact h.unheld q hq
    · exact h.unpooled (by simp [hl])
    · exact h.opened he.2
  · intro r hr
    generalize (effect rt s e).proxy c = x at hx hr
    cases hx with
    | same hs => exact h.unreturned r (hs.returning r hr)
    | disconnected _ hn =>
      rw [h.unbound] at hn
      cases hn
    | returned => cases hr
    | _ => exact h.unreturned r hr

theorem reachable_commandApart {rt : Runtime} {s : State} (h : Reachable (client rt) s) :
    ∀ c, s.cmdChannel = some c → CommandApart s c := by
  refine ReachableWhere.invariant_with (J := fun s => ∃ d, Sound d ∧ Ledger s d)
    (I := fun s => ∀ c, s.cmdChannel = some c → CommandApart s c)
    (fun _ => reachable_ledger) ?_ ?_ h
  · rintro _ rfl c hc
    cases hc
  · rintro s e ⟨d, -, hd⟩ hI he - c hc
    have key : CommandApart (effect rt s e) c := by
      rcases cmdChannel_change rt s e with heq | hnone | ⟨x, rfl, hx⟩
      · exact (hI c (heq ▸ hc)).step rt he
      · rw [show (effect rt s e).cmdChannel = some c from hc] at hnone
        cases hnone
      · obtain rfl : x = c := Option.some.inj (hx.symm.trans hc)
        have hb := hd.booked x
        have hu := hb.unborn.mp he
        rw [hu] at hb
        refine ⟨by simp [effect], ?_, ?_, ?_, ?_⟩
        · cases hn : (s.proxy x).nextChannel with
          | none => simp [effect, hn]
          | some r =>
            obtain ⟨q, -, hq⟩ := hb.bound r hn
            cases hq
        · simpa [effect] using hb.pooled
        · intro q
          simpa [effect, Held] using hb.held q
        · intro r hr
          have := hb.returning r (by simpa [effect] using hr)
          cases this
    exact ⟨key.opened, key.unbound, key.unpooled, key.unheld, key.unreturned⟩

/-- handleConnectMessage and the callbacks it registered have all run. -/
def Complete : Phase → Prop
  | .aborted _ => True
  | .bound _ _ => True
  | .refused _ => True
  | _ => False

def LeftOpen (s : State) (r : RealId) : Prop :=
  (s.real r).life = .active ∧ (s.real r).closing = false

/-- One reply: a CONNECT on a proxy channel, or a DISCONNECT on the command channel with
nothing left open. -/
def AnsweredOnce (rt : Runtime) (s : State) (q : RequestId) : Prop :=
  (∃ c, repliesTo q s.sent = [acceptance rt s q c]) ∨
  (repliesTo q s.sent = [refusal s q] ∧ ∀ r, (s.real r).openedFor = some q → ¬ LeftOpen s r)

/-- A CONNECT is written on a data channel bound both ways to the request's real server. -/
def AcceptsBound (rt : Runtime) (s : State) (e : Event) : Prop :=
  ∀ c m q, Output.proxyMessage c m (.request q) ∈ writes rt s e → m.type = TYPE_CONNECT →
    s.cmdChannel ≠ some c ∧ ∃ r, (s.real r).openedFor = some q ∧
      (s.proxy c).nextChannel = some r ∧ (s.real r).nextChannel = some c

theorem connect_written {c : ProxyId} {m : ProxyMessage} {q : RequestId}
    (hw : Output.proxyMessage c m (.request q) ∈ writes rt s e) (hm : m.type = TYPE_CONNECT) :
    ∃ r, e = .success q r c .sendConnect := by
  cases e with
  | channelRead x n p =>
    simp only [writes] at hw
    split at hw
    · split at hw <;> simp at hw
    · cases hw
  | realConnectFailed p =>
    obtain ⟨-, rfl, -⟩ : c = _ ∧ m = disconnectMessage _ ∧ q = p := by
      simpa [writes, refusal] using hw
    cases hm
  | proxyConnectFailed p r =>
    obtain ⟨-, rfl, -⟩ : c = _ ∧ m = disconnectMessage _ ∧ q = p := by
      simpa [writes, refusal] using hw
    cases hm
  | success p r x step =>
    cases step with
    | sendConnect =>
      obtain ⟨rfl, -, rfl⟩ : c = x ∧ m = _ ∧ q = p := by simpa [writes] using hw
      exact ⟨r, rfl⟩
    | _ => cases hw
  | realRead r bytes =>
    simp only [writes] at hw
    split at hw <;> simp at hw
  | realInactive r =>
    simp only [writes] at hw
    split at hw <;> simp at hw
  | _ => simp [writes] at hw

theorem connect_answered_once {rt : Runtime} {s : State}
    (h : ReachableWhere (client rt) (Answerable rt) s) :
    (∀ q, Complete (s.request q).phase → AnsweredOnce rt s q) ∧
    (∀ e, Enabled s e → AcceptsBound rt s e) := by
  have ha := reachable_announcing h
  have ho := reachable_owned h.reachable
  constructor
  · intro q hq
    unfold AnsweredOnce
    rw [replies_expected h.reachable q]
    unfold expectedReplies
    cases hp : (s.request q).phase with
    | aborted x => exact absurd hp (ha.readable q x)
    | bound r c => exact Or.inl ⟨c, rfl⟩
    | refused o =>
      refine Or.inr ⟨rfl, ?_⟩
      intro r hr
      rw [← ho.owner q r, hp] at hr
      obtain rfl : o = some r := hr
      exact absurd hp (ha.dialed q r)
    | _ =>
      rw [hp] at hq
      cases hq
  · intro e he c m q hw hm
    obtain ⟨r, rfl⟩ := connect_written hw hm
    have hp : (s.request q).phase = .binding r c .sendConnect := he
    obtain ⟨hn, hr⟩ := ha.full q r c hp
    refine ⟨?_, r, (ho.owner q r).mp (by rw [hp]; rfl), hn, hr⟩
    intro hc
    rw [(reachable_commandApart h.reachable c hc).unbound] at hn
    cases hn

/-- A first request is served, a second one refused by its real server. -/
def servedAndRefused : State :=
  runTrace (client device) initial
    (firstConnection ++ [.channelRead 0 (connectRequest "u2" "h:2") 1, .realConnectFailed 1])

theorem connect_answered_once_served_and_refused :
    (∀ q, Complete (servedAndRefused.request q).phase → AnsweredOnce device servedAndRefused q) ∧
    (∀ e, Enabled servedAndRefused e → AcceptsBound device servedAndRefused e) :=
  connect_answered_once (validTrace_reachable rfl (by decide))

/-- Data without a colon: `serverInfo[1]` throws and nobody is told. -/
theorem connect_answered_once_fails_malformed :
    ¬ ∀ s, Reachable (client device) s → ∀ q, Complete (s.request q).phase →
      AnsweredOnce device s q := by
  intro h
  have hv : ValidTrace (client device) Unrestricted initial
      [.cmdConnected 0, .channelRead 0 (connectRequest "u1" "host") 0] := by decide
  have hphase : ((runTrace (client device) initial
      [.cmdConnected 0, .channelRead 0 (connectRequest "u1" "host") 0]).request 0).phase =
        .aborted .arrayIndexOutOfBounds := by decide
  have hnone : repliesTo 0 (runTrace (client device) initial
      [.cmdConnected 0, .channelRead 0 (connectRequest "u1" "host") 0]).sent = [] := by decide
  rcases h _ (validTrace_reachable rfl hv) 0 (by rw [hphase]; trivial) with ⟨c, hc⟩ | ⟨hc, -⟩
  · rw [hnone] at hc
    cases hc
  · rw [hnone] at hc
    cases hc

end ProxyConnect
