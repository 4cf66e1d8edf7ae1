import AndroidDebug.Custody
import AndroidDebug.ProxyMessageCodec

/-! The remote proxy client: ClientChannelHandler, RealServerChannelHandler and
ClientChannelMannager over their channels. Handlers of one channel run one at a time, those
of different channels interleave; the success callback advances statement by statement.
`openedFor`, `history` and `sent` record what happened and are read by no handler. -/
namespace ProxyClient

open TransitionSystem Custody JavaText ProxyMessageCodec

abbrev ProxyId := ℕ
abbrev RealId := ℕ
abbrev RequestId := ℕ

/-- The text a runtime puts for malformed UTF-8, and `Utils.CLIENT_KEY`. -/
structure Runtime where
  malformed : List UInt8 → JString
  clientKey : JString

/-- A closed channel is no longer active, but its channelInactive has yet to run. -/
inductive Life where
  | unopened | active | closed | inactive
  deriving DecidableEq, Repr

def Life.close : Life → Life
  | .active => .closed
  | l => l

/-- What is left of the handler that a proxy channel's event loop is running. -/
inductive Remaining where
  | returnProxyChanel (r : RealId)
  | closeRealServer (r : RealId)
  | removeProxyChanel
  deriving DecidableEq, Repr

structure ProxyChannel where
  life : Life := .unopened
  nextChannel : Option RealId := none
  autoRead : Bool := true
  writable : Bool := true
  writabilityChanged : Bool := false
  remaining : Option Remaining := none
  deriving DecidableEq, Repr

/-- `reading`: AUTO_READ has been on, so reads and the peer's close can be seen.
`closing`: a close has been requested and will be carried out later. -/
structure RealServerChannel where
  life : Life := .unopened
  nextChannel : Option ProxyId := none
  userId : Option JString := none
  autoRead : Bool := true
  writable : Bool := true
  writabilityChanged : Bool := false
  reading : Bool := false
  closing : Bool := false
  openedFor : Option RequestId := none
  deriving DecidableEq, Repr

inductive ServerInfoError where
  | arrayIndexOutOfBounds | numberFormat | illegalArgument
  deriving DecidableEq, Repr

/-- The statements of the success callback, in order. -/
inductive BindStep where
  | bindProxy | bindReal | sendConnect | enableRead | addRealServerChannel | setUserId
  deriving DecidableEq, Repr

inductive Phase where
  | idle
  | connecting (ip : JString) (port : ℕ)
  | aborted (e : ServerInfoError)
  | borrowing (r : RealId)
  | dialing (r : RealId)
  | binding (r : RealId) (c : ProxyId) (step : BindStep)
  | bound (r : RealId) (c : ProxyId)
  | refused (r : Option RealId)
  deriving DecidableEq, Repr

def Phase.isConnecting : Phase → Bool
  | .connecting _ _ => true
  | _ => false

/-- One run of handleConnectMessage: the locals its callbacks capture and how far it is. -/
structure Request where
  userId : JString := []
  cmdChannel : ProxyId := 0
  phase : Phase := .idle
  deriving DecidableEq, Repr

inductive Source where
  | container
  | request (q : RequestId)
  | realServer (r : RealId)
  deriving DecidableEq, Repr

inductive Output where
  | proxyMessage (c : ProxyId) (m : ProxyMessage) (source : Source)
  | serverData (r : RealId) (data : List UInt8)
  deriving DecidableEq, Repr

structure State where
  proxy : ProxyId → ProxyChannel
  real : RealId → RealServerChannel
  request : RequestId → Request
  proxyChannelPool : List ProxyId
  realServerChannels : List (JString × RealId)
  cmdChannel : Option ProxyId
  history : List (Handover ProxyId RequestId)
  sent : List Output

def initial : State :=
  ⟨fun _ => {}, fun _ => {}, fun _ => {}, [], [], none, [], []⟩

def MAX_POOL_SIZE : ℕ := 100

def State.setProxy (s : State) (c : ProxyId) (x : ProxyChannel) : State :=
  { s with proxy := Function.update s.proxy c x }

def State.setReal (s : State) (r : RealId) (x : RealServerChannel) : State :=
  { s with real := Function.update s.real r x }

def State.setPhase (s : State) (q : RequestId) (p : Phase) : State :=
  { s with request := Function.update s.request q { s.request q with phase := p } }

/-- `serverInfo[0]` and `serverInfo[1]` as an address that `bootstrap.connect` accepts. -/
def serverInfo (rt : Runtime) (data : List UInt8) : Except ServerInfoError (JString × ℕ) :=
  match splitPieces 0x3A (newString rt.malformed data) with
  | ip :: port :: _ =>
    match parseInt (port.map UInt16.toNat) with
    | none => .error .numberFormat
    | some n => if 0 ≤ n ∧ n ≤ 65535 then .ok (ip, n.toNat) else .error .illegalArgument
  | _ => .error .arrayIndexOutOfBounds

/-- An exception while the data is read leaves the request without a callback. -/
def phaseOfData (rt : Runtime) (data : List UInt8) : Phase :=
  match serverInfo rt data with
  | .ok (ip, port) => .connecting ip port
  | .error e => .aborted e

def handleConnectMessage (rt : Runtime) (s : State) (c : ProxyId) (m : ProxyMessage)
    (q : RequestId) : State :=
  let request : Request := ⟨m.uri.getD [], c, phaseOfData rt (m.data.getD [])⟩
  { s with request := Function.update s.request q request }

/-- Up to the call of `returnProxyChanel`. -/
def handleDisconnectMessage (s : State) (c : ProxyId) : State :=
  match (s.proxy c).nextChannel with
  | none => s
  | some r => s.setProxy c
      { s.proxy c with nextChannel := none, remaining := some (.returnProxyChanel r) }

def returnProxyChanel (s : State) (c : ProxyId) (r : RealId) : State :=
  if s.proxyChannelPool.length > MAX_POOL_SIZE then
    s.setProxy c { s.proxy c with
      life := (s.proxy c).life.close, remaining := some (.closeRealServer r) }
  else
    { s.setProxy c { s.proxy c with
        autoRead := true, nextChannel := none, remaining := some (.closeRealServer r) } with
      proxyChannelPool := s.proxyChannelPool ++ [c]
      history := s.history ++ [.returned c] }

def closeRealServer (s : State) (c : ProxyId) (r : RealId) : State :=
  (s.setProxy c { s.proxy c with remaining := none }).setReal r
    { s.real r with closing := true }

/-- `poll` and the branch on its result. -/
def borrowProxyChanel (s : State) (q : RequestId) (r : RealId) : State :=
  match s.proxyChannelPool with
  | [] => s.setPhase q (.dialing r)
  | c :: pool =>
    { s.setPhase q (.binding r c .bindProxy) with
      proxyChannelPool := pool
      history := s.history ++ [.borrowed c q] }

def success (s : State) (q : RequestId) (r : RealId) (c : ProxyId) : BindStep → State
  | .bindProxy => (s.setProxy c { s.proxy c with nextChannel := some r }).setPhase q
      (.binding r c .bindReal)
  | .bindReal => (s.setReal r { s.real r with nextChannel := some c }).setPhase q
      (.binding r c .sendConnect)
  | .sendConnect => s.setPhase q (.binding r c .enableRead)
  | .enableRead => (s.setReal r { s.real r with autoRead := true, reading := true }).setPhase q
      (.binding r c .addRealServerChannel)
  | .addRealServerChannel =>
    { s.setPhase q (.binding r c .setUserId) with
      realServerChannels := ((s.request q).userId, r) ::
        s.realServerChannels.filter fun p => p.1 ≠ (s.request q).userId }
  | .setUserId => (s.setReal r { s.real r with userId := some (s.request q).userId }).setPhase q
      (.bound r c)

/-- A null user id makes `removeRealServerChannel` throw, and nothing else is done. -/
def realInactive (s : State) (r : RealId) : State :=
  let t := s.setReal r { s.real r with life := .inactive }
  match (s.real r).userId with
  | none => t
  | some u => { t with realServerChannels := s.realServerChannels.filter fun p => p.1 ≠ u }

def clearRealServerChannels (s : State) : State :=
  { s with
    real := fun r =>
      if (s.real r).life = .active ∧ r ∈ s.realServerChannels.map Prod.snd
      then { s.real r with closing := true } else s.real r
    realServerChannels := [] }

/-- `channelInactive` of a proxy channel up to `removeProxyChanel`. -/
def proxyInactive (s : State) (c : ProxyId) : State :=
  let t := s.setProxy c
    { s.proxy c with life := .inactive, remaining := some .removeProxyChanel }
  if s.cmdChannel = some c then clearRealServerChannels { t with cmdChannel := none }
  else
    match (s.proxy c).nextChannel with
    | none => t
    | some r =>
      if (s.real r).life = .active then t.setReal r { s.real r with closing := true } else t

inductive Event where
  | cmdConnected (c : ProxyId)
  | channelRead (c : ProxyId) (m : ProxyMessage) (q : RequestId)
  | returnProxyChanel (c : ProxyId) (r : RealId)
  | closeRealServer (c : ProxyId) (r : RealId)
  | realConnected (q : RequestId) (r : RealId)
  | realConnectFailed (q : RequestId)
  | borrowProxyChanel (q : RequestId) (r : RealId)
  | proxyConnected (q : RequestId) (r : RealId) (c : ProxyId)
  | proxyConnectFailed (q : RequestId) (r : RealId)
  | success (q : RequestId) (r : RealId) (c : ProxyId) (step : BindStep)
  | realRead (r : RealId) (bytes : List UInt8)
  | realClose (r : RealId)
  | realInactive (r : RealId)
  | proxyClose (c : ProxyId)
  | proxyInactive (c : ProxyId)
  | removeProxyChanel (c : ProxyId)
  | realWritable (r : RealId) (b : Bool)
  | realWritabilityChanged (r : RealId)
  | proxyWritable (c : ProxyId) (b : Bool)
  | proxyWritabilityChanged (c : ProxyId)
  deriving DecidableEq, Repr

/-- Messages come from the decoder, which leaves no null uri and no null data. -/
def Enabled (s : State) : Event → Prop
  | .cmdConnected c => (s.proxy c).life = .unopened
  | .channelRead c m q =>
    ((s.proxy c).life = .active ∨ (s.proxy c).life = .closed) ∧
      (s.proxy c).remaining = none ∧ m.normalize = m ∧ (s.request q).phase = .idle
  | .returnProxyChanel c r => (s.proxy c).remaining = some (.returnProxyChanel r)
  | .closeRealServer c r => (s.proxy c).remaining = some (.closeRealServer r)
  | .realConnected q r => (s.request q).phase.isConnecting = true ∧ (s.real r).life = .unopened
  | .realConnectFailed q => (s.request q).phase.isConnecting = true
  | .borrowProxyChanel q r => (s.request q).phase = .borrowing r
  | .proxyConnected q r c => (s.request q).phase = .dialing r ∧ (s.proxy c).life = .unopened
  | .proxyConnectFailed q r => (s.request q).phase = .dialing r
  | .success q r c step => (s.request q).phase = .binding r c step
  | .realRead r _ =>
    ((s.real r).life = .active ∨ (s.real r).life = .closed) ∧ (s.real r).reading = true
  | .realClose r =>
    (s.real r).life = .active ∧ ((s.real r).closing = true ∨ (s.real r).reading = true)
  | .realInactive r => (s.real r).life = .closed
  | .proxyClose c => (s.proxy c).life = .active
  | .proxyInactive c => (s.proxy c).life = .closed ∧ (s.proxy c).remaining = none
  | .removeProxyChanel c => (s.proxy c).remaining = some .removeProxyChanel
  | .realWritable r b => (s.real r).life = .active ∧ (s.real r).writable ≠ b
  | .realWritabilityChanged r => (s.real r).writabilityChanged = true
  | .proxyWritable c b => (s.proxy c).life = .active ∧ (s.proxy c).writable ≠ b
  | .proxyWritabilityChanged c =>
    (s.proxy c).writabilityChanged = true ∧ (s.proxy c).remaining = none

instance (s : State) (e : Event) : Decidable (Enabled s e) := by
  cases e <;> simp only [Enabled] <;> infer_instance

def effect (rt : Runtime) (s : State) : Event → State
  | .cmdConnected c =>
    { s.setProxy c { s.proxy c with life := .active } with cmdChannel := some c }
  | .channelRead c m q =>
    if m.type = TYPE_CONNECT then handleConnectMessage rt s c m q
    else if m.type = TYPE_DISCONNECT then handleDisconnectMessage s c
    else s
  | .returnProxyChanel c r => returnProxyChanel s c r
  | .closeRealServer c r => closeRealServer s c r
  | .realConnected q r =>
    (s.setReal r { s.real r with
      life := .active, autoRead := false, openedFor := some q }).setPhase q (.borrowing r)
  | .realConnectFailed q => s.setPhase q (.refused none)
  | .borrowProxyChanel q r => borrowProxyChanel s q r
  | .proxyConnected q r c =>
    { (s.setProxy c { s.proxy c with life := .active }).setPhase q (.binding r c .bindProxy) with
      history := s.history ++ [.borrowed c q] }
  | .proxyConnectFailed q r => s.setPhase q (.refused (some r))
  | .success q r c step => success s q r c step
  | .realRead r _ =>
    match (s.real r).nextChannel with
    | none => s.setReal r { s.real r with life := (s.real r).life.close }
    | some _ => s
  | .realClose r => s.setReal r { s.real r with life := .closed }
  | .realInactive r => realInactive s r
  | .proxyClose c => s.setProxy c { s.proxy c with life := .closed }
  | .proxyInactive c => proxyInactive s c
  | .removeProxyChanel c =>
    { s.setProxy c { s.proxy c with remaining := none } with
      proxyChannelPool := s.proxyChannelPool.erase c }
  | .realWritable r b =>
    s.setReal r { s.real r with writable := b, writabilityChanged := true }
  | .realWritabilityChanged r =>
    let t := s.setReal r { s.real r with writabilityChanged := false }
    match (s.real r).nextChannel with
    | none => t
    | some c => t.setProxy c { s.proxy c with autoRead := (s.real r).writable }
  | .proxyWritable c b =>
    s.setProxy c { s.proxy c with writable := b, writabilityChanged := true }
  | .proxyWritabilityChanged c =>
    let t := s.setProxy c { s.proxy c with writabilityChanged := false }
    match (s.proxy c).nextChannel with
    | none => t
    | some r => t.setReal r { s.real r with autoRead := (s.proxy c).writable }

def connectMessage (rt : Runtime) (userId : JString) : ProxyMessage :=
  { type := TYPE_CONNECT, uri := some (userId ++ ofString "@" ++ rt.clientKey) }

def disconnectMessage (userId : JString) : ProxyMessage :=
  { type := TYPE_DISCONNECT, uri := some userId }

def transferMessage (userId : Option JString) (bytes : List UInt8) : ProxyMessage :=
  { type := P_TYPE_TRANSFER, uri := userId, data := some bytes }

/-- The reply both failure callbacks write. -/
def refusal (s : State) (q : RequestId) : Output :=
  .proxyMessage (s.request q).cmdChannel (disconnectMessage (s.request q).userId) (.request q)

/-- The calls of writeAndFlush that carry data. -/
def writes (rt : Runtime) (s : State) : Event → List Output
  | .cmdConnected c =>
    [.proxyMessage c { type := C_TYPE_AUTH, uri := some rt.clientKey } .container]
  | .channelRead c m _ =>
    if m.type = P_TYPE_TRANSFER then
      match (s.proxy c).nextChannel with
      | none => []
      | some r => [.serverData r (m.data.getD [])]
    else []
  | .realConnectFailed q => [refusal s q]
  | .proxyConnectFailed q _ => [refusal s q]
  | .success q _ c .sendConnect =>
    [.proxyMessage c (connectMessage rt (s.request q).userId) (.request q)]
  | .realRead r bytes =>
    match (s.real r).nextChannel with
    | none => []
    | some c => [.proxyMessage c (transferMessage (s.real r).userId bytes) (.realServer r)]
  | .realInactive r =>
    match (s.real r).userId, (s.real r).nextChannel with
    | some u, some c => [.proxyMessage c (disconnectMessage u) (.realServer r)]
    | _, _ => []
  | _ => []

def client (rt : Runtime) : System State Event where
  initial s := s = initial
  Enabled := Enabled
  next s e := { effect rt s e with sent := s.sent ++ writes rt s e }

end ProxyClient
