import AndroidDebug.ProxyClient

/-! What one step of the proxy client can do to each part of its state. -/
namespace ProxyClient

open TransitionSystem Custody JavaText ProxyMessageCodec

section Updates

variable (s : State) (c y : ProxyId) (r z : RealId) (q p : RequestId)

@[simp] theorem setProxy_proxy (x : ProxyChannel) :
    (s.setProxy c x).proxy y = if y = c then x else s.proxy y := Function.update_apply _ _ _ _
@[simp] theorem setProxy_real (x : ProxyChannel) : (s.setProxy c x).real = s.real := rfl
@[simp] theorem setProxy_request (x : ProxyChannel) : (s.setProxy c x).request = s.request := rfl
@[simp] theorem setProxy_pool (x : ProxyChannel) :
    (s.setProxy c x).proxyChannelPool = s.proxyChannelPool := rfl
@[simp] theorem setProxy_history (x : ProxyChannel) : (s.setProxy c x).history = s.history := rfl
@[simp] theorem setReal_real (x : RealServerChannel) :
    (s.setReal r x).real z = if z = r then x else s.real z := Function.update_apply _ _ _ _
@[simp] theorem setReal_proxy (x : RealServerChannel) : (s.setReal r x).proxy = s.proxy := rfl
@[simp] theorem setReal_request (x : RealServerChannel) :
    (s.setReal r x).request = s.request := rfl
@[simp] theorem setReal_pool (x : RealServerChannel) :
    (s.setReal r x).proxyChannelPool = s.proxyChannelPool := rfl
@[simp] theorem setReal_history (x : RealServerChannel) :
    (s.setReal r x).history = s.history := rfl
@[simp] theorem setPhase_request (x : Phase) : (s.setPhase q x).request p =
    if p = q then { s.request q with phase := x } else s.request p := Function.update_apply _ _ _ _
@[simp] theorem setPhase_proxy (x : Phase) : (s.setPhase q x).proxy = s.proxy := rfl
@[simp] theorem setPhase_real (x : Phase) : (s.setPhase q x).real = s.real := rfl
@[simp] theorem setPhase_pool (x : Phase) :
    (s.setPhase q x).proxyChannelPool = s.proxyChannelPool := rfl
@[simp] theorem setPhase_history (x : Phase) : (s.setPhase q x).history = s.history := rfl

/-! What each handler leaves alone. -/

@[simp] theorem handleConnectMessage_keeps (rt : Runtime) (m : ProxyMessage) :
    (handleConnectMessage rt s c m q).proxy = s.proxy ∧
    (handleConnectMessage rt s c m q).real = s.real ∧
    (handleConnectMessage rt s c m q).proxyChannelPool = s.proxyChannelPool ∧
    (handleConnectMessage rt s c m q).history = s.history := ⟨rfl, rfl, rfl, rfl⟩

@[simp] theorem handleDisconnectMessage_keeps :
    (handleDisconnectMessage s c).real = s.real ∧
    (handleDisconnectMessage s c).request = s.request ∧
    (handleDisconnectMessage s c).proxyChannelPool = s.proxyChannelPool ∧
    (handleDisconnectMessage s c).history = s.history := by
  unfold handleDisconnectMessage
  split <;> simp

theorem handleDisconnectMessage_other (h : y ≠ c) :
    (handleDisconnectMessage s c).proxy y = s.proxy y := by
  unfold handleDisconnectMessage
  split <;> simp [h]

@[simp] theorem returnProxyChanel_keeps :
    (returnProxyChanel s c r).real = s.real ∧
    (returnProxyChanel s c r).request = s.request := by
  unfold returnProxyChanel
  split <;> simp

@[simp] theorem borrowProxyChanel_keeps :
    (borrowProxyChanel s q r).proxy = s.proxy ∧ (borrowProxyChanel s q r).real = s.real := by
  unfold borrowProxyChanel
  split <;> simp

@[simp] theorem success_keeps (step : BindStep) :
    (success s q r c step).proxyChannelPool = s.proxyChannelPool ∧
    (success s q r c step).history = s.history := by
  cases step <;> simp [success]

@[simp] theorem realInactive_keeps :
    (realInactive s r).proxy = s.proxy ∧ (realInactive s r).request = s.request ∧
    (realInactive s r).proxyChannelPool = s.proxyChannelPool ∧
    (realInactive s r).history = s.history := by
  unfold realInactive
  split <;> simp

@[simp] theorem realInactive_real : (realInactive s r).real z =
    if z = r then { s.real r with life := .inactive } else s.real z := by
  unfold realInactive
  split <;> simp

@[simp] theorem proxyInactive_keeps :
    (proxyInactive s c).request = s.request ∧
    (proxyInactive s c).proxyChannelPool = s.proxyChannelPool ∧
    (proxyInactive s c).history = s.history := by
  unfold proxyInactive clearRealServerChannels
  split
  · simp
  · split
    · simp
    · split <;> simp

@[simp] theorem proxyInactive_proxy : (proxyInactive s c).proxy y =
    if y = c then { s.proxy c with life := .inactive, remaining := some .removeProxyChanel }
    else s.proxy y := by
  unfold proxyInactive clearRealServerChannels
  split
  · simp
  · split
    · simp
    · split <;> simp

/-- An inactive proxy channel can only request closes. -/
theorem proxyInactive_real :
    (proxyInactive s c).real r = s.real r ∨
      (proxyInactive s c).real r = { s.real r with closing := true } := by
  unfold proxyInactive clearRealServerChannels
  split
  · exact (ite_eq_or_eq _ _ _).symm
  · split
    · exact Or.inl rfl
    · split
      · rename_i r' _ _
        by_cases h : r = r' <;> simp [h]
      · exact Or.inl rfl

end Updates

/-! What one step can do to each part of the state. -/

variable {rt : Runtime} {s : State} {e : Event}

theorem effect_connect {c : ProxyId} {m : ProxyMessage} {q : RequestId}
    (hm : m.type = TYPE_CONNECT) :
    effect rt s (.channelRead c m q) = handleConnectMessage rt s c m q := if_pos hm

theorem effect_disconnect {c : ProxyId} {m : ProxyMessage} {q : RequestId}
    (hm : m.type = TYPE_DISCONNECT) :
    effect rt s (.channelRead c m q) = handleDisconnectMessage s c := by
  have hne : m.type ≠ TYPE_CONNECT := by
    rw [hm]
    decide
  rw [effect, if_neg hne, if_pos hm]

theorem effect_otherMessage {c : ProxyId} {m : ProxyMessage} {q : RequestId}
    (hc : m.type ≠ TYPE_CONNECT) (hd : m.type ≠ TYPE_DISCONNECT) :
    effect rt s (.channelRead c m q) = s := by
  rw [effect, if_neg hc, if_neg hd]

/-- What a proxy channel is used for is unchanged. -/
structure SameUse (x y : ProxyChannel) : Prop where
  nextChannel : y.nextChannel = x.nextChannel
  unopened : y.life = .unopened ↔ x.life = .unopened
  returning : ∀ r, y.remaining = some (.returnProxyChanel r) →
    x.remaining = some (.returnProxyChanel r)

@[simp] theorem SameUse.refl (x : ProxyChannel) : SameUse x x :=
  ⟨rfl, Iff.rfl, fun _ h => h⟩

/-- The proxy channel `c` after an event, by what the event did to it. -/
inductive ProxyChange (s : State) (c : ProxyId) : Event → ProxyChannel → Prop where
  | same {e x} : SameUse (s.proxy c) x → ProxyChange s c e x
  | cmdConnected : ProxyChange s c (.cmdConnected c) { s.proxy c with life := .active }
  | disconnected {m q r} : m.type = TYPE_DISCONNECT → (s.proxy c).nextChannel = some r →
      ProxyChange s c (.channelRead c m q)
        { s.proxy c with nextChannel := none, remaining := some (.returnProxyChanel r) }
  | returned {r} : s.proxyChannelPool.length ≤ MAX_POOL_SIZE →
      ProxyChange s c (.returnProxyChanel c r)
        { s.proxy c with
          autoRead := true, nextChannel := none, remaining := some (.closeRealServer r) }
  | connected {q r} : ProxyChange s c (.proxyConnected q r c) { s.proxy c with life := .active }
  | bound {q r} : ProxyChange s c (.success q r c .bindProxy)
      { s.proxy c with nextChannel := some r }

theorem Life.close_eq_unopened (l : Life) : l.close = .unopened ↔ l = .unopened := by
  cases l <;> simp [Life.close]

theorem proxy_change (rt : Runtime) (he : Enabled s e) (c : ProxyId) :
    ProxyChange s c e ((effect rt s e).proxy c) := by
  cases e with
  | cmdConnected x =>
    by_cases h : c = x
    · subst h
      simpa [effect] using ProxyChange.cmdConnected
    · exact .same (by simp [effect, h])
  | channelRead x m q =>
    by_cases hc : m.type = TYPE_CONNECT
    · exact .same (by simp [effect_connect hc])
    by_cases hm : m.type = TYPE_DISCONNECT
    · rw [effect_disconnect hm]
      by_cases h : c = x
      · subst h
        cases hn : (s.proxy c).nextChannel with
        | none => exact .same (by simp [handleDisconnectMessage, hn])
        | some r => simpa [handleDisconnectMessage, hn] using ProxyChange.disconnected hm hn
      · exact .same (by simp [handleDisconnectMessage_other, h])
    · exact .same (by simp [effect_otherMessage hc hm])
  | returnProxyChanel x r =>
    by_cases h : c = x
    · subst h
      by_cases hp : s.proxyChannelPool.length ≤ MAX_POOL_SIZE
      · simpa [effect, returnProxyChanel, Nat.not_lt.mpr hp] using ProxyChange.returned hp
      · refine .same ⟨?_, ?_, ?_⟩ <;>
          simp [effect, returnProxyChanel, Nat.lt_of_not_le hp, Life.close_eq_unopened]
    · refine .same ?_
      simp only [effect, returnProxyChanel]
      split <;> simp [h]
  | proxyConnected q r x =>
    by_cases h : c = x
    · subst h
      simpa [effect] using ProxyChange.connected
    · exact .same (by simp [effect, h])
  | success q r x step =>
    by_cases h : c = x ∧ step = .bindProxy
    · obtain ⟨rfl, rfl⟩ := h
      simpa [effect, success] using ProxyChange.bound
    · refine .same ?_
      cases step <;> simp_all [effect, success]
  | realRead r bytes =>
    refine .same ?_
    simp only [effect]
    split <;> simp
  | realWritabilityChanged r =>
    refine .same ?_
    simp only [effect]
    split
    · simp
    · rename_i x _
      by_cases h : c = x <;> simp [h]
      exact ⟨rfl, Iff.rfl, fun _ h => h⟩
  | proxyWritabilityChanged x =>
    refine .same ?_
    simp only [effect]
    by_cases h : c = x
    · subst h
      split <;> simpa using ⟨rfl, Iff.rfl, fun _ h => h⟩
    · split <;> simp [h]
  | closeRealServer x r =>
    refine .same ?_
    by_cases h : c = x
    · subst h
      exact ⟨by simp [effect, closeRealServer], by simp [effect, closeRealServer],
        by simp [effect, closeRealServer]⟩
    · simp [effect, closeRealServer, h]
  | proxyClose x =>
    refine .same ?_
    have hl : (s.proxy x).life = .active := he
    by_cases h : c = x
    · subst h
      exact ⟨by simp [effect], by simp [effect, hl], by simp [effect]⟩
    · simp [effect, h]
  | proxyInactive x =>
    refine .same ?_
    have hl : (s.proxy x).life = .closed := he.1
    by_cases h : c = x
    · subst h
      exact ⟨by simp [effect], by simp [effect, hl], by simp [effect]⟩
    · simp [effect, h]
  | removeProxyChanel x =>
    refine .same ?_
    by_cases h : c = x
    · subst h
      exact ⟨by simp [effect], by simp [effect], by simp [effect]⟩
    · simp [effect, h]
  | proxyWritable x b =>
    refine .same ?_
    by_cases h : c = x
    · subst h
      exact ⟨by simp [effect], by simp [effect], by simp [effect]⟩
    · simp [effect, h]
  | _ => exact .same (by simp [effect])

/-- Whom a real-server channel belongs to is unchanged; inactive it stays. -/
structure SameOwner (x y : RealServerChannel) : Prop where
  nextChannel : y.nextChannel = x.nextChannel
  openedFor : y.openedFor = x.openedFor
  unopened : y.life = .unopened ↔ x.life = .unopened
  inactive : x.life = .inactive → y.life = .inactive

@[simp] theorem SameOwner.refl (x : RealServerChannel) : SameOwner x x :=
  ⟨rfl, rfl, Iff.rfl, id⟩

theorem SameOwner.of_life {x y : RealServerChannel} (hn : y.nextChannel = x.nextChannel)
    (ho : y.openedFor = x.openedFor) (hl : y.life = x.life) : SameOwner x y :=
  ⟨hn, ho, by rw [hl], fun h => hl.trans h⟩

inductive RealChange (s : State) (r : RealId) : Event → RealServerChannel → Prop where
  | same {e x} : SameOwner (s.real r) x → RealChange s r e x
  | opened {q} : RealChange s r (.realConnected q r)
      { s.real r with life := .active, autoRead := false, openedFor := some q }
  | bound {q c} : RealChange s r (.success q r c .bindReal)
      { s.real r with nextChannel := some c }

theorem real_change (rt : Runtime) (he : Enabled s e) (r : RealId) :
    RealChange s r e ((effect rt s e).real r) := by
  cases e with
  | realConnected q z =>
    by_cases h : r = z
    · subst h
      simpa [effect] using RealChange.opened
    · exact .same (by simp [effect, h])
  | success q z c step =>
    by_cases h : r = z
    · subst h
      cases step with
      | bindReal => simpa [effect, success] using RealChange.bound
      | enableRead => exact .same (by simpa [effect, success] using .of_life rfl rfl rfl)
      | setUserId => exact .same (by simpa [effect, success] using .of_life rfl rfl rfl)
      | _ => exact .same (by simp [effect, success])
    · refine .same ?_
      cases step <;> simp [effect, success, h]
  | channelRead c m q =>
    refine .same ?_
    by_cases hc : m.type = TYPE_CONNECT
    · simp [effect_connect hc]
    · by_cases hm : m.type = TYPE_DISCONNECT
      · simp [effect_disconnect hm]
      · simp [effect_otherMessage hc hm]
  | closeRealServer c z =>
    refine .same ?_
    by_cases h : r = z
    · subst h
      simpa [effect, closeRealServer] using .of_life rfl rfl rfl
    · simp [effect, closeRealServer, h]
  | realRead z bytes =>
    refine .same ?_
    simp only [effect]
    split
    · by_cases h : r = z
      · subst h
        refine ⟨by simp, by simp, by simp [Life.close_eq_unopened], fun hl => ?_⟩
        simp [hl, Life.close]
      · simp [h]
    · simp
  | realClose z =>
    refine .same ?_
    have hl : (s.real z).life = .active := he.1
    by_cases h : r = z
    · subst h
      exact ⟨by simp [effect], by simp [effect], by simp [effect, hl], by simp [hl]⟩
    · simp [effect, h]
  | realInactive z =>
    refine .same ?_
    have hl : (s.real z).life = .closed := he
    by_cases h : r = z
    · subst h
      exact ⟨by simp [effect], by simp [effect], by simp [effect, hl], by simp [effect]⟩
    · simp [effect, h]
  | proxyInactive c =>
    refine .same ?_
    rcases proxyInactive_real s c r with h | h
    · simp [effect, h]
    · simpa [effect, h] using .of_life rfl rfl rfl
  | realWritable z b =>
    refine .same ?_
    by_cases h : r = z
    · subst h
      simpa [effect] using .of_life rfl rfl rfl
    · simp [effect, h]
  | realWritabilityChanged z =>
    refine .same ?_
    simp only [effect]
    by_cases h : r = z
    · subst h
      split <;> simpa using .of_life rfl rfl rfl
    · split <;> simp [h]
  | proxyWritabilityChanged c =>
    refine .same ?_
    simp only [effect]
    split
    · simp
    · rename_i z _
      by_cases h : r = z
      · subst h
        simpa using .of_life rfl rfl rfl
      · simp [h]
  | _ => exact .same (by simp [effect])

/-- The phase after a statement of the success callback. -/
def BindStep.after (r : RealId) (c : ProxyId) : BindStep → Phase
  | .bindProxy => .binding r c .bindReal
  | .bindReal => .binding r c .sendConnect
  | .sendConnect => .binding r c .enableRead
  | .enableRead => .binding r c .addRealServerChannel
  | .addRealServerChannel => .binding r c .setUserId
  | .setUserId => .bound r c

/-- One move of the request `q`: event, phase before, phase after. -/
inductive Advance (rt : Runtime) (s : State) (q : RequestId) : Event → Phase → Phase → Prop where
  | received {c m} : m.type = TYPE_CONNECT →
      Advance rt s q (.channelRead c m q) .idle (phaseOfData rt (m.data.getD []))
  | realConnected {r ip port} : (s.real r).life = .unopened →
      Advance rt s q (.realConnected q r) (.connecting ip port) (.borrowing r)
  | realConnectFailed {ip port} :
      Advance rt s q (.realConnectFailed q) (.connecting ip port) (.refused none)
  | pooled {r c pool} : s.proxyChannelPool = c :: pool →
      Advance rt s q (.borrowProxyChanel q r) (.borrowing r) (.binding r c .bindProxy)
  | poolEmpty {r} : s.proxyChannelPool = [] →
      Advance rt s q (.borrowProxyChanel q r) (.borrowing r) (.dialing r)
  | proxyConnected {r c} : (s.proxy c).life = .unopened →
      Advance rt s q (.proxyConnected q r c) (.dialing r) (.binding r c .bindProxy)
  | proxyConnectFailed {r} :
      Advance rt s q (.proxyConnectFailed q r) (.dialing r) (.refused (some r))
  | success {r c step} :
      Advance rt s q (.success q r c step) (.binding r c step) (step.after r c)

theorem phaseOfData_cases (rt : Runtime) (data : List UInt8) :
    (∃ ip port, phaseOfData rt data = .connecting ip port) ∨
    ∃ e, serverInfo rt data = .error e ∧ phaseOfData rt data = .aborted e := by
  unfold phaseOfData
  cases serverInfo rt data with
  | ok p => exact Or.inl ⟨p.1, p.2, rfl⟩
  | error e => exact Or.inr ⟨e, rfl, rfl⟩

theorem Phase.connecting_of_isConnecting {p : Phase} (h : p.isConnecting = true) :
    ∃ ip port, p = .connecting ip port := by
  cases p with
  | connecting ip port => exact ⟨ip, port, rfl⟩
  | _ => cases h

theorem request_change (rt : Runtime) (he : Enabled s e) (q : RequestId) :
    (effect rt s e).request q = s.request q ∨
      Advance rt s q e (s.request q).phase ((effect rt s e).request q).phase := by
  cases e with
  | channelRead c m p =>
    by_cases hc : m.type = TYPE_CONNECT
    · rw [effect_connect hc]
      by_cases h : q = p
      · subst h
        right
        rw [he.2.2.2]
        simpa [handleConnectMessage] using Advance.received hc
      · exact Or.inl (by simp [handleConnectMessage, h])
    · left
      by_cases hm : m.type = TYPE_DISCONNECT
      · simp [effect_disconnect hm]
      · rw [effect_otherMessage hc hm]
  | realConnected p r =>
    by_cases h : q = p
    · subst h
      right
      obtain ⟨ip, port, hp⟩ := Phase.connecting_of_isConnecting he.1
      rw [hp]
      simpa [effect] using Advance.realConnected he.2
    · exact Or.inl (by simp [effect, h])
  | realConnectFailed p =>
    by_cases h : q = p
    · subst h
      right
      obtain ⟨ip, port, hp⟩ := Phase.connecting_of_isConnecting he
      rw [hp]
      simpa [effect] using Advance.realConnectFailed
    · exact Or.inl (by simp [effect, h])
  | borrowProxyChanel p r =>
    have hp : (s.request p).phase = .borrowing r := he
    by_cases h : q = p
    · subst h
      right
      rw [hp]
      cases hl : s.proxyChannelPool with
      | nil => simpa [effect, borrowProxyChanel, hl] using Advance.poolEmpty hl
      | cons c pool => simpa [effect, borrowProxyChanel, hl] using Advance.pooled hl
    · left
      cases hl : s.proxyChannelPool <;> simp [effect, borrowProxyChanel, hl, h]
  | proxyConnected p r c =>
    by_cases h : q = p
    · subst h
      right
      rw [he.1]
      simpa [effect] using Advance.proxyConnected he.2
    · exact Or.inl (by simp [effect, h])
  | proxyConnectFailed p r =>
    have hp : (s.request p).phase = .dialing r := he
    by_cases h : q = p
    · subst h
      right
      rw [hp]
      simpa [effect] using Advance.proxyConnectFailed
    · exact Or.inl (by simp [effect, h])
  | success p r c step =>
    have hp : (s.request p).phase = .binding r c step := he
    by_cases h : q = p
    · subst h
      right
      rw [hp]
      have key : ((ProxyClient.success s q r c step).request q).phase = step.after r c := by
        cases step <;> simp [ProxyClient.success, BindStep.after]
      exact key ▸ Advance.success
    · left
      cases step <;> simp [effect, ProxyClient.success, h]
  | returnProxyChanel c r => exact Or.inl (by simp [effect])
  | closeRealServer c r => exact Or.inl (by simp [effect, closeRealServer])
  | realRead r bytes =>
    left
    simp only [effect]
    split <;> simp
  | realWritabilityChanged r =>
    left
    simp only [effect]
    split <;> simp
  | proxyWritabilityChanged c =>
    left
    simp only [effect]
    split <;> simp
  | _ => exact Or.inl (by simp [effect])

/-! What a request did that is now in a given phase. -/

/-- It was handed the channel, or ran the statement before. -/
theorem Advance.to_binding {q : RequestId} {p : Phase} {r : RealId} {c : ProxyId}
    {step : BindStep} (h : Advance rt s q e p (.binding r c step)) :
    (step = .bindProxy ∧ ((∃ pool, e = .borrowProxyChanel q r ∧ s.proxyChannelPool = c :: pool) ∨
      e = .proxyConnected q r c)) ∨
    ∃ previous, e = .success q r c previous ∧ previous.after r c = .binding r c step := by
  generalize hp' : Phase.binding r c step = p' at h
  cases h with
  | received hm =>
    rcases phaseOfData_cases rt _ with ⟨ip, port, hd⟩ | ⟨x, -, hd⟩ <;> rw [hd] at hp' <;> cases hp'
  | pooled hl =>
    cases hp'
    exact Or.inl ⟨rfl, Or.inl ⟨_, rfl, hl⟩⟩
  | proxyConnected hu =>
    cases hp'
    exact Or.inl ⟨rfl, Or.inr rfl⟩
  | success =>
    rename_i r' c' previous
    right
    cases previous <;> cases hp' <;> exact ⟨_, rfl, rfl⟩
  | _ => cases hp'

theorem Advance.to_aborted {q : RequestId} {p : Phase} {x : ServerInfoError}
    (h : Advance rt s q e p (.aborted x)) :
    ∃ c m, e = .channelRead c m q ∧ m.type = TYPE_CONNECT ∧
      serverInfo rt (m.data.getD []) = .error x := by
  generalize hp' : Phase.aborted x = p' at h
  cases h with
  | received hm =>
    rename_i c m
    rcases phaseOfData_cases rt (m.data.getD []) with ⟨ip, port, hd⟩ | ⟨y, hy, hd⟩
    · rw [hd] at hp'
      cases hp'
    · rw [hd] at hp'
      obtain rfl := Phase.aborted.inj hp'
      exact ⟨c, m, rfl, hm, hy⟩
  | success =>
    rename_i r c step
    cases step <;> cases hp'
  | _ => cases hp'

theorem Advance.to_refused {q : RequestId} {p : Phase} {r : RealId}
    (h : Advance rt s q e p (.refused (some r))) : e = .proxyConnectFailed q r := by
  generalize hp' : Phase.refused (some r) = p' at h
  cases h with
  | received hm =>
    rcases phaseOfData_cases rt _ with ⟨ip, port, hd⟩ | ⟨x, -, hd⟩ <;> rw [hd] at hp' <;> cases hp'
  | proxyConnectFailed =>
    cases hp'
    rfl
  | success =>
    rename_i r' c step
    cases step <;> cases hp'
  | _ => cases hp'

/-- The pool and the handovers after an event. -/
inductive PoolChange (s : State) :
    Event → List ProxyId → List (Handover ProxyId RequestId) → Prop where
  | same (d) : PoolChange s d s.proxyChannelPool s.history
  | returned {c r} : PoolChange s (.returnProxyChanel c r)
      (s.proxyChannelPool ++ [c]) (s.history ++ [.returned c])
  | pooled {q r c pool} : s.proxyChannelPool = c :: pool →
      PoolChange s (.borrowProxyChanel q r) pool (s.history ++ [.borrowed c q])
  | connected {q r c} : PoolChange s (.proxyConnected q r c)
      s.proxyChannelPool (s.history ++ [.borrowed c q])
  | removed {c} : PoolChange s (.removeProxyChanel c) (s.proxyChannelPool.erase c) s.history

theorem PoolChange.unchanged {t : State} (hp : t.proxyChannelPool = s.proxyChannelPool)
    (hh : t.history = s.history) : PoolChange s e t.proxyChannelPool t.history := by
  rw [hp, hh]
  exact .same e

theorem pool_change (rt : Runtime) (s : State) (e : Event) :
    PoolChange s e (effect rt s e).proxyChannelPool (effect rt s e).history := by
  cases e with
  | returnProxyChanel c r =>
    simp only [effect, returnProxyChanel]
    split
    · exact .unchanged rfl rfl
    · exact .returned
  | borrowProxyChanel q r =>
    cases hl : s.proxyChannelPool with
    | nil =>
      apply PoolChange.unchanged <;> simp [effect, borrowProxyChanel, hl]
    | cons c pool => simpa [effect, borrowProxyChanel, hl] using PoolChange.pooled hl
  | proxyConnected q r c => exact .connected
  | removeProxyChanel c => exact .removed
  | channelRead c m q =>
    by_cases hc : m.type = TYPE_CONNECT
    · rw [effect_connect hc]
      exact .unchanged (by simp) (by simp)
    · by_cases hm : m.type = TYPE_DISCONNECT
      · rw [effect_disconnect hm]
        exact .unchanged (by simp) (by simp)
      · rw [effect_otherMessage hc hm]
        exact .same _
  | realRead r bytes =>
    simp only [effect]
    split <;> exact .unchanged rfl rfl
  | realWritabilityChanged r =>
    simp only [effect]
    split <;> exact .unchanged rfl rfl
  | proxyWritabilityChanged c =>
    simp only [effect]
    split <;> exact .unchanged rfl rfl
  | _ => exact .unchanged (by simp [effect, closeRealServer]) (by simp [effect, closeRealServer])

end ProxyClient
