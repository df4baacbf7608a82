import NetSiege.Network.RpcDispatcher
import NetSiege.Network.UdpConnection
import NetSiege.Network.WorldState

/-!
# The server (`networkserver.cpp`, `clientsession.cpp`)

A `NetworkServer` keeps one session for each endpoint it hears of. A session has a client id of 64
bits, counted up from 0; whoever hands it on cuts it to 16 bits, and to `remoteProcedureCall` 0
means all sessions. `step` is what may happen to a server: a datagram arrives, the timer of `sync`
expires, a script registers handlers, calls, or changes the world. Which sessions a step touches is
said by `Calm` (none, but for their connections), `activate` and the lemmas about the two
handlers.
-/

namespace NetSiege

open Lib UdpConnection

/-- `RPC_ID_JOIN_SERVER_REQ`. -/
def rpcIdJoinServerReq : RpcId := 0

/-- `RPC_ARGS_JOIN_SERVER_REQ`. -/
def rpcArgsJoinServerReq : List Char := ['i', 'L']

/-- `RPC_ID_JOIN_SERVER_RESP`. -/
def rpcIdJoinServerResp : RpcId := 1

/-- `RPC_ARGS_JOIN_SERVER_RESP`. -/
def rpcArgsJoinServerResp : List Char := ['i', 'i', 'c', 'L', 'i']

/-- `RPC_ID_JOIN_SERVER_ACK`. -/
def rpcIdJoinServerAck : RpcId := 2

/-- `RPC_ARGS_JOIN_SERVER_ACK`. -/
def rpcArgsJoinServerAck : List Char := ['c']

/-- `ClientSession`. -/
structure ClientSession (ε : Type) extends UdpConnection ε where
  clientId : UInt64
  isActive : Bool := false

/-- The handlers of the server itself. -/
inductive ServerCallback where
  | joinRequest
  | joinAcknowledge
deriving DecidableEq

/-- `NetworkServer`. -/
structure NetworkServer (ε σ : Type) [LinearOrder ε] extends RPCDispatcher ServerCallback where
  clients : OrdMap ε (ClientSession ε) := ∅
  nextClientId : UInt64 := 0
  objectManager : Option (ObjectManager σ) := none

/-- Packages, with the key of the session that sends them. -/
abbrev Outgoing (ε : Type) := List (ε × Message WorldStateUpdate)

/-- The session is called under the client id: 0 is all active sessions. -/
def ClientSession.isAddressed {ε : Type} (client : ClientSession ε) (clientId : UInt16) : Bool :=
  client.isActive && (clientId == 0 || client.clientId == clientId.toUInt64)

/-- The packages of `handle_joinRequest`: player id, server version, player accepted, map name, map
version. -/
def joinResponse (clientId : UInt16) : Except Trap RPCPackage :=
  [.u32 clientId.toUInt32, .u32 0, .u8 1, .str [116, 101, 115, 116], .u32 0].foldlM
    (fun response arg => (response.push arg).map (·.2)) (.make rpcIdJoinServerResp)

namespace NetworkServer

variable {ε σ V : Type} [LinearOrder ε]

/-- `NetworkServer::RegisterNetworkSystem`, of a server with the given world. -/
def registerNetworkSystem (objectManager : Option (ObjectManager σ)) : NetworkServer ε σ :=
  let d : RPCDispatcher ServerCallback := {}
  let d := (d.addRpcHandlerCpp 0 rpcIdJoinServerReq .joinRequest rpcArgsJoinServerReq).2
  let d := (d.addRpcHandlerCpp 0 rpcIdJoinServerAck .joinAcknowledge rpcArgsJoinServerAck).2
  { toRPCDispatcher := d, objectManager }

/-- `NetworkServer::remoteProcedureCall`. `now e` is the clock reading of the call in `e`. -/
def remoteProcedureCall (s : NetworkServer ε σ) (now : ε → Time) (clientId : UInt16)
    (package : RPCPackage) : Except Trap (NetworkServer ε σ × Outgoing ε) := do
  let addressed := s.clients.entries.filter fun kv => kv.2.isAddressed clientId
  -- each call asks the package for its size
  let dataSize ← (if addressed.isEmpty then .ok 0 else package.dataSize)
  let call (e : ε) (client : ClientSession ε) : UdpConnection ε × Message WorldStateUpdate :=
    client.remoteProcedureCall package.rpcId package.data dataSize (now e)
  .ok ({ s with
      clients := s.clients.mapVal fun e client =>
        if client.isAddressed clientId then
          { client with toUdpConnection := (call e client).1 }
        else client },
    addressed.map fun kv => (kv.1, (call kv.1 kv.2).2))

/-- `kv.second->isActive(true)` for the sessions with the client id. -/
def activate (s : NetworkServer ε σ) (clientId : UInt16) : NetworkServer ε σ :=
  { s with
    clients := s.clients.mapVal fun _ client =>
      if client.clientId = clientId.toUInt64 then { client with isActive := true } else client }

/-- `NetworkServer::handle_joinRequest`. -/
def handleJoinRequest (s : NetworkServer ε σ) (now : ε → Time) (clientId : UInt16)
    (package : RPCPackage) : Except Trap (NetworkServer ε σ × Outgoing ε) := do
  let (_clientVersion, package) ← package.popValue 4
  let (_clientName, _) ← package.popString
  let response ← joinResponse clientId
  let (s, sent) ← (s.activate clientId).remoteProcedureCall now clientId response
  if response.argString ≠ rpcArgsJoinServerResp then .error .assertion
  .ok (s, sent)

/-- The session `handle_joinAcknowledge` finds: the last one with the client id. -/
def findClient (s : NetworkServer ε σ) (clientId : UInt16) : Option (ε × ClientSession ε) :=
  (s.clients.entries.filter fun kv => kv.2.clientId = clientId.toUInt64).getLast?

/-- `NetworkServer::handle_joinAcknowledge`, where the message with all objects is small enough for
the assertion in `sendPackage`. -/
def handleJoinAcknowledge (H : ScriptHost σ V) (s : NetworkServer ε σ) (clientId : UInt16)
    (package : RPCPackage) : Except Trap (NetworkServer ε σ × Outgoing ε) := do
  let (accepted, _) ← package.popValue 1
  match s.findClient clientId with
  | none => .error .nullPointer
  | some (e, client) =>
    if accepted ≠ 0 then
      match s.objectManager with
      | none => .error .nullPointer
      | some m => do
        let updatedObjects ← m.serializeFull H
        let (conn, msg) := client.sendPackage { body := some { updatedObjects } }
        .ok ({ s with
          clients := s.clients.insert e { client with toUdpConnection := conn, isActive := true } },
          [(e, msg)])
    else .ok ({ s with clients := s.clients.erase client.remoteEndpoint }, [])

/-- The first lines of `NetworkServer::handle_receive`: a session for a new endpoint. -/
def connect (s : NetworkServer ε σ) (e : ε) : NetworkServer ε σ × ClientSession ε :=
  match s.clients.find? e with
  | some client => (s, client)
  | none =>
    let client : ClientSession ε := { remoteEndpoint := e, clientId := s.nextClientId }
    ({ s with clients := s.clients.insert e client, nextClientId := s.nextClientId + 1 }, client)

/-- The server when `parsePackage` comes to the received call, with the packages sent until then. -/
def parse (P : Platform) (s : NetworkServer ε σ) (e : ε) (msg : Message Unit) (clk : SteadyClock) :
    NetworkServer ε σ × Outgoing ε × Option ReceivedCall :=
  let (s, client) := s.connect e
  let (pass, call) := client.parsePackage P clk msg client.clientId.toUInt16
  ({ s with clients := s.clients.insert e { client with toUdpConnection := pass.conn } },
    pass.sent.map (e, ·), call)

/-- The invocation of a C++ handler. What a script handler does are steps of its own. -/
def invoke (H : ScriptHost σ V) (s : NetworkServer ε σ) (now : ε → Time) :
    Option (Invocation ServerCallback) → Except Trap (NetworkServer ε σ × Outgoing ε)
  | some (.cpp .joinRequest senderId package) => s.handleJoinRequest now senderId package
  | some (.cpp .joinAcknowledge senderId package) => s.handleJoinAcknowledge H senderId package
  | _ => .ok (s, [])

/-- What `handle_receive` invokes. -/
def received (P : Platform) (s : NetworkServer ε σ) (e : ε) (msg : Message Unit) (stack : RpcData)
    (clk : SteadyClock) : Except Trap (Option (Invocation ServerCallback)) :=
  let (s, _, call) := s.parse P e msg clk
  match call with
  | none => .ok none
  | some call => s.executeReceivedCall call.senderId call.rpcId call.rpcData stack

/-- `NetworkServer::handle_receive` of a datagram from the endpoint `e`. -/
def handleReceive (P : Platform) (H : ScriptHost σ V) (s : NetworkServer ε σ) (e : ε)
    (msg : Message Unit) (stack : RpcData) (clk : SteadyClock) (now : ε → Time) :
    Except Trap (NetworkServer ε σ × Outgoing ε) := do
  let invocation ← s.received P e msg stack clk
  let (s, resent, _) := s.parse P e msg clk
  let (s, sent) ← s.invoke H now invocation
  .ok (s, resent ++ sent)

/-- `NetworkServer::closeDeadConnections`. Erasing the entry the loop stands on leaves open which
dead sessions it still meets: these are `closed`. -/
def closeDeadConnections (s : NetworkServer ε σ) (now : Time) (closed : List ε) :
    NetworkServer ε σ :=
  { s with clients := closed.foldl (fun clients e =>
      match clients.find? e with
      | some client =>
        if floatSeconds (now - client.timeOfLastAck) > connectionTimeout then clients.erase e
        else clients
      | none => clients) s.clients }

/-- `NetworkServer::sync`, where the update is small enough for the assertion in `sendPackage`. -/
def sync (H : ScriptHost σ V) (s : NetworkServer ε σ) (now : Time) (closed : List ε) :
    Except Trap (NetworkServer ε σ × Outgoing ε) :=
  match s.objectManager with
  | none => .error .nullPointer
  | some m => do
    let active := s.clients.entries.filter fun kv => kv.2.isActive
    let send (client : ClientSession ε) (update : WorldStateUpdate) :=
      client.sendPackage { body := some update }
    if s.clients.entries.isEmpty then
      .ok ({ s with objectManager := some m.flushUpdateCache }.closeDeadConnections now closed, [])
    else do
      let update ← m.worldStateUpdate H
      .ok ({ s with
          clients := s.clients.mapVal fun _ client =>
            if client.isActive then { client with toUdpConnection := (send client update).1 }
            else client
          objectManager := some m.flushUpdateCache }.closeDeadConnections now closed,
        active.map fun kv => (kv.1, (send kv.2 update).2))

/-- What may happen to a server. -/
inductive Input (ε σ : Type) where
  | receive (e : ε) (msg : Message Unit) (stack : RpcData) (clk : SteadyClock) (now : ε → Time)
  | sync (now : Time) (closed : List ε)
  | addRpcHandlerFunc (M : ScriptModule) (clientId : UInt16) (id : RpcId) (funcname : String)
  | addRpcHandlerMethod (M : ScriptModule) (clientId : UInt16) (id : RpcId)
      (object : Option ScriptObjectRef) (funcname : String) (argspec : List Char)
  | registerRpc (M : ScriptModule) (id : RpcId) (name : String) (argspec : List Char)
  | call (clientId : UInt16) (name : String) (slots : List Arg) (now : ε → Time)
  | world (op : ObjectManager.StoreOp σ)

/-- The server after a step, with the packages it sends. -/
def next (P : Platform) (H : ScriptHost σ V) (s : NetworkServer ε σ) :
    Input ε σ → Except Trap (NetworkServer ε σ × Outgoing ε)
  | .receive e msg stack clk now => s.handleReceive P H e msg stack clk now
  | .sync now closed => s.sync H now closed
  | .addRpcHandlerFunc M clientId id funcname => do
    let (_, d) ← s.addRpcHandlerFunc M clientId id funcname
    .ok ({ s with toRPCDispatcher := d }, [])
  | .addRpcHandlerMethod M clientId id object funcname argspec =>
    let (_, d) := s.addRpcHandlerMethod M clientId id object funcname argspec
    .ok ({ s with toRPCDispatcher := d }, [])
  | .registerRpc M id name argspec => do
    let (_, d) ← s.registerRpc M id name argspec
    .ok ({ s with toRPCDispatcher := d }, [])
  | .call clientId name slots now => do
    let (package, d) ← s.buildCall name slots
    { s with toRPCDispatcher := d }.remoteProcedureCall now clientId package
  | .world op =>
    match s.objectManager.bind (·.step H op) with
    | none => .error .assertion
    | some m => .ok ({ s with objectManager := some m }, [])

/-- The server after a step, if it comes through. -/
def step (P : Platform) (H : ScriptHost σ V) (s : NetworkServer ε σ) (i : Input ε σ) :
    Option (NetworkServer ε σ) :=
  (s.next P H i).toOption.map (·.1)

/-! ## The join response -/

/-- The response holds what `RPC_ARGS_JOIN_SERVER_RESP` promises. -/
theorem joinResponse_filled (clientId : UInt16) : ∃ p bs, joinResponse clientId = .ok p ∧
    p.Filled bs rpcArgsJoinServerResp := by
  have hlen : (encodeArgs [.u32 clientId.toUInt32, .u32 0, .u8 1, .str [116, 101, 115, 116],
      .u32 0]).length = 19 := by
    simp [Arg.encode]
  obtain ⟨p, hp, hfill, _⟩ := (RPCPackage.filled_make rpcIdJoinServerResp).foldlM_push _
    (by rw [hlen]; decide)
  exact ⟨p, _, hp, hfill⟩

/-! ## What a step does to the sessions -/

variable {P : Platform} {H : ScriptHost σ V} {s s' : NetworkServer ε σ} {e : ε}

/-- All sessions of `clients'` are sessions of `clients`, with the same id and as active. -/
def Calm (clients clients' : OrdMap ε (ClientSession ε)) : Prop :=
  ∀ e c', clients'.find? e = some c' →
    ∃ c, clients.find? e = some c ∧ c'.clientId = c.clientId ∧ c'.isActive = c.isActive

section
variable {clients clients' : OrdMap ε (ClientSession ε)}

theorem Calm.refl : Calm clients clients := fun _ c hc => ⟨c, hc, rfl, rfl⟩

theorem Calm.trans {clients'' : OrdMap ε (ClientSession ε)} (h : Calm clients clients')
    (h' : Calm clients' clients'') : Calm clients clients'' := by
  intro e c'' hc''
  obtain ⟨c', hc', hid', hact'⟩ := h' e c'' hc''
  obtain ⟨c, hc, hid, hact⟩ := h e c' hc'
  exact ⟨c, hc, hid'.trans hid, hact'.trans hact⟩

theorem calm_erase (e : ε) : Calm clients (clients.erase e) := by
  intro e' c' hc'
  rw [OrdMap.find?_erase] at hc'
  split at hc'
  · cases hc'
  · exact ⟨c', hc', rfl, rfl⟩

theorem calm_mapVal {f : ε → ClientSession ε → ClientSession ε}
    (h : ∀ e c, (f e c).clientId = c.clientId ∧ (f e c).isActive = c.isActive) :
    Calm clients (clients.mapVal f) := by
  intro e c' hc'
  rw [OrdMap.find?_mapVal] at hc'
  obtain ⟨c, hc, rfl⟩ := Option.map_eq_some_iff.1 hc'
  exact ⟨c, hc, h e c⟩

end

theorem calm_closeDeadConnections (now : Time) (closed : List ε) :
    Calm s.clients (s.closeDeadConnections now closed).clients := by
  simp only [closeDeadConnections]
  generalize s.clients = clients
  induction closed generalizing clients with
  | nil => exact .refl
  | cons e closed ih =>
    rw [List.foldl_cons]
    refine Calm.trans ?_ (ih _)
    split
    · split
      · exact calm_erase e
      · exact .refl
    · exact .refl

/-- The sessions that are called, and that only connections change. -/
theorem remoteProcedureCall_spec {now : ε → Time} {clientId : UInt16} {package : RPCPackage}
    {sent : Outgoing ε} (h : s.remoteProcedureCall now clientId package = .ok (s', sent)) :
    Calm s.clients s'.clients ∧
      ∀ e, e ∈ sent.map (·.1) ↔ ∃ c, s.clients.find? e = some c ∧ c.isAddressed clientId := by
  obtain ⟨dataSize, _, heq⟩ := bind_eq_ok.1 h
  cases heq
  refine ⟨calm_mapVal fun e c => ?_, fun e => ?_⟩
  · dsimp only
    split <;> exact ⟨rfl, rfl⟩
  · simp only [List.map_map, List.mem_map, List.mem_filter, Prod.exists, Function.comp_apply,
      OrdMap.mem_entries, exists_and_right, exists_eq_right]

theorem remoteProcedureCall_of (s : NetworkServer ε σ) (now : ε → Time) (clientId : UInt16)
    {package : RPCPackage} {n : Nat} (hsize : package.dataSize = .ok n) :
    ∃ r, s.remoteProcedureCall now clientId package = .ok r := by
  simp only [remoteProcedureCall, hsize]
  split <;> exact ⟨_, rfl⟩

/-- The sessions are all still there after a call. -/
theorem remoteProcedureCall_find? {now : ε → Time} {clientId : UInt16} {package : RPCPackage}
    {sent : Outgoing ε} {c : ClientSession ε}
    (h : s.remoteProcedureCall now clientId package = .ok (s', sent))
    (hc : s.clients.find? e = some c) :
    ∃ c', s'.clients.find? e = some c' ∧ c'.isActive = c.isActive := by
  obtain ⟨dataSize, _, heq⟩ := bind_eq_ok.1 h
  cases heq
  refine ⟨_, by rw [OrdMap.find?_mapVal, hc]; rfl, ?_⟩
  dsimp only
  split <;> rfl

theorem calm_sync {now : Time} {closed : List ε} {sent : Outgoing ε}
    (h : s.sync H now closed = .ok (s', sent)) : Calm s.clients s'.clients := by
  unfold sync at h
  split at h
  · cases h
  · next m hm =>
    dsimp only at h
    split at h
    · cases h
      exact calm_closeDeadConnections _ _
    · obtain ⟨update, _, heq⟩ := bind_eq_ok.1 h
      cases heq
      refine Calm.trans (calm_mapVal fun e c => ?_) (calm_closeDeadConnections _ _)
      split <;> exact ⟨rfl, rfl⟩

theorem step_eq_some {i : Input ε σ} (h : step P H s i = some s') :
    ∃ r, s.next P H i = .ok r ∧ r.1 = s' := by
  obtain ⟨r, hr, rfl⟩ := Option.map_eq_some_iff.1 h
  cases hnext : s.next P H i with
  | error => rw [hnext] at hr; cases hr
  | ok r' =>
    rw [hnext] at hr
    cases hr
    exact ⟨r, rfl, rfl⟩

/-- Only an incoming datagram touches the sessions. -/
theorem calm_of_not_receive {i : Input ε σ}
    (hi : ∀ e msg stack clk now, i ≠ .receive e msg stack clk now) (h : step P H s i = some s') :
    Calm s.clients s'.clients := by
  obtain ⟨⟨s', sent⟩, hnext, rfl⟩ := step_eq_some h
  cases i with
  | receive e msg stack clk now => exact absurd rfl (hi e msg stack clk now)
  | sync now closed => exact calm_sync hnext
  | addRpcHandlerFunc M clientId id funcname =>
    obtain ⟨_, _, heq⟩ := bind_eq_ok.1 hnext
    cases heq
    exact .refl
  | addRpcHandlerMethod =>
    cases hnext
    exact .refl
  | registerRpc =>
    obtain ⟨_, _, heq⟩ := bind_eq_ok.1 hnext
    cases heq
    exact .refl
  | call =>
    obtain ⟨⟨package, d⟩, _, hcall⟩ := bind_eq_ok.1 hnext
    exact (remoteProcedureCall_spec hcall).1
  | world op =>
    simp only [next] at hnext
    split at hnext
    · cases hnext
    · cases hnext
      exact .refl

/-! ## A datagram -/

/-- The sessions once the endpoint has one. -/
theorem connect_find? (s : NetworkServer ε σ) (e : ε) :
    (s.connect e).1.clients.find? e = some (s.connect e).2 ∧
      ∀ e', e' ≠ e → (s.connect e).1.clients.find? e' = s.clients.find? e' := by
  unfold connect
  cases h : s.clients.find? e with
  | some client => exact ⟨h, fun _ _ => rfl⟩
  | none => exact ⟨OrdMap.find?_insert_self, fun e' hne => OrdMap.find?_insert_of_ne hne⟩

/-- A session that is there stays, a new one is not active. -/
theorem connect_session (s : NetworkServer ε σ) (e : ε) :
    s.clients.find? e = some (s.connect e).2 ∨
      s.clients.find? e = none ∧ (s.connect e).2.isActive = false := by
  unfold connect
  cases h : s.clients.find? e with
  | some client => exact .inl rfl
  | none => exact .inr ⟨rfl, rfl⟩

/-- The connection of the session at `e` is all that parsing changes after that. -/
theorem parse_find? (s : NetworkServer ε σ) (e : ε) (msg : Message Unit) (clk : SteadyClock) :
    (∃ conn, (s.parse P e msg clk).1.clients.find? e =
        some { (s.connect e).2 with toUdpConnection := conn }) ∧
      ∀ e', e' ≠ e → (s.parse P e msg clk).1.clients.find? e' = s.clients.find? e' := by
  refine ⟨⟨_, OrdMap.find?_insert_self⟩, fun e' hne => ?_⟩
  exact (OrdMap.find?_insert_of_ne hne).trans ((connect_find? s e).2 e' hne)

/-- A session that is active while the datagram is handled was so before it came. -/
theorem parse_active {msg : Message Unit} {clk : SteadyClock} {e' : ε} {c : ClientSession ε}
    (hc : (s.parse P e msg clk).1.clients.find? e' = some c) (hact : c.isActive = true) :
    ∃ c0, s.clients.find? e' = some c0 ∧ c0.isActive = true ∧ c0.clientId = c.clientId := by
  obtain ⟨⟨conn, hself⟩, hother⟩ := parse_find? (P := P) s e msg clk
  obtain rfl | hne := eq_or_ne e' e
  · rw [hself] at hc
    cases hc
    obtain hold | ⟨_, hidle⟩ := connect_session s e'
    · exact ⟨_, hold, hact, rfl⟩
    · exact absurd (hidle.symm.trans hact) Bool.false_ne_true
  · exact ⟨c, (hother e' hne).symm.trans hc, hact, rfl⟩

theorem executeReceivedCall_cpp {γ : Type} {d : RPCDispatcher γ} {senderId senderId' : UInt16}
    {id : RpcId} {data : List UInt8} {stack : RpcData} {callback : γ} {package : RPCPackage}
    (h : d.executeReceivedCall senderId id data stack =
      .ok (some (.cpp callback senderId' package))) :
    senderId' = senderId ∧ package.readOffset = 0 := by
  unfold RPCDispatcher.executeReceivedCall at h
  split at h
  · cases h
  obtain ⟨arrayData, _, h⟩ := bind_eq_ok.1 h
  unfold RPCDispatcher.executePackage at h
  split at h
  · cases h
  split at h
  · obtain ⟨args, _, heq⟩ := bind_eq_ok.1 h
    cases heq
  · cases h
    exact ⟨rfl, rfl⟩
  · cases h

/-- A C++ handler gets the client id of the session, cut to 16 bits, and a package to read from the
beginning. -/
theorem received_cpp {msg : Message Unit} {stack : RpcData} {clk : SteadyClock}
    {callback : ServerCallback} {senderId : UInt16} {package : RPCPackage}
    (h : s.received P e msg stack clk = .ok (some (.cpp callback senderId package))) :
    senderId = (s.connect e).2.clientId.toUInt16 ∧ package.readOffset = 0 := by
  simp only [received, parse, parsePackage] at h
  cases hrpc : msg.rpc with
  | none => simp [hrpc] at h
  | some rpc =>
    simp only [hrpc, Option.map_some] at h
    exact executeReceivedCall_cpp h

/-! ## The handlers of the server -/

section
variable {now : ε → Time} {clientId : UInt16} {package : RPCPackage} {sent : Outgoing ε}

theorem popString_of {p : RPCPackage} (h : p.readOffset + 2 ≤ maxRpcDataSize) :
    ∃ r, p.popString = .ok r := by
  simp only [RPCPackage.popString, RPCPackage.popValue_eq h]
  exact ⟨_, rfl⟩

theorem activate_find? (s : NetworkServer ε σ) (clientId : UInt16) (e : ε) :
    (s.activate clientId).clients.find? e = (s.clients.find? e).map fun client =>
      if client.clientId = clientId.toUInt64 then { client with isActive := true } else client :=
  OrdMap.find?_mapVal ..

/-- A join request is always answered: to the sessions that are called under the client id, once
those with the id are active. -/
theorem handleJoinRequest_spec (s : NetworkServer ε σ) (now : ε → Time) (clientId : UInt16)
    (hread : package.readOffset = 0) :
    ∃ s' sent, s.handleJoinRequest now clientId package = .ok (s', sent) ∧
      Calm (s.activate clientId).clients s'.clients ∧
      ∀ e, e ∈ sent.map (·.1) ↔ ∃ c, s.clients.find? e = some c ∧
        (c.isActive = true ∨ c.clientId = clientId.toUInt64) ∧
          (clientId = 0 ∨ c.clientId = clientId.toUInt64) := by
  obtain ⟨response, bs, hresponse, hfill⟩ := joinResponse_filled clientId
  obtain ⟨⟨s', sent⟩, hcall⟩ := remoteProcedureCall_of (s.activate clientId) now clientId
    hfill.dataSize
  obtain ⟨hcalm, hsent⟩ := remoteProcedureCall_spec hcall
  refine ⟨s', sent, ?_, hcalm, fun e => ?_⟩
  · have hversion : package.readOffset + 4 ≤ maxRpcDataSize := by rw [hread]; decide
    have hname : package.readOffset + 4 + 2 ≤ maxRpcDataSize := by rw [hread]; decide
    obtain ⟨name, hpop⟩ := popString_of (p := { package with readOffset := _ }) hname
    refine bind_eq_ok.2 ⟨_, RPCPackage.popValue_eq hversion, bind_eq_ok.2 ⟨name, hpop,
      bind_eq_ok.2 ⟨response, hresponse, bind_eq_ok.2 ⟨(s', sent), hcall, ?_⟩⟩⟩⟩
    simp only [hfill.argString, ne_eq, not_true_eq_false, if_false]
  · rw [hsent]
    simp only [activate_find?, Option.map_eq_some_iff]
    constructor
    · rintro ⟨_, ⟨c, hc, rfl⟩, haddr⟩
      refine ⟨c, hc, ?_⟩
      by_cases heq : c.clientId = clientId.toUInt64
      · exact ⟨.inr heq, .inr heq⟩
      · simpa [ClientSession.isAddressed, heq] using haddr
    · rintro ⟨c, hc, hact, hid⟩
      refine ⟨_, ⟨c, hc, rfl⟩, ?_⟩
      by_cases heq : c.clientId = clientId.toUInt64
      · simp [ClientSession.isAddressed, heq]
      · simpa [ClientSession.isAddressed, heq] using And.intro hact hid

/-- A join request leaves the sessions with the client id active. -/
theorem handleJoinRequest_active {c : ClientSession ε}
    (h : s.handleJoinRequest now clientId package = .ok (s', sent))
    (hc : s.clients.find? e = some c) (hid : c.clientId = clientId.toUInt64) :
    ∃ c', s'.clients.find? e = some c' ∧ c'.isActive = true := by
  obtain ⟨_, _, h⟩ := bind_eq_ok.1 h
  obtain ⟨_, _, h⟩ := bind_eq_ok.1 h
  obtain ⟨response, _, h⟩ := bind_eq_ok.1 h
  obtain ⟨⟨s1, sent1⟩, hcall, h⟩ := bind_eq_ok.1 h
  have hactive : (s.activate clientId).clients.find? e = some { c with isActive := true } := by
    rw [activate_find?, hc, Option.map_some, if_pos hid]
  dsimp only at h
  split at h
  · cases h
  · cases h
    exact remoteProcedureCall_find? hcall hactive

/-- The session a join acknowledgement is taken for is the last one with the client id. -/
theorem findClient_eq_some {c : ClientSession ε} :
    s.findClient clientId = some (e, c) ↔
      (s.clients.find? e = some c ∧ c.clientId = clientId.toUInt64) ∧
        ∀ e' c', s.clients.find? e' = some c' → c'.clientId = clientId.toUInt64 → e' ≤ e := by
  rw [findClient, OrdMap.getLast?_eq_some_iff (s.clients.sorted.filter _)]
  simp only [List.mem_filter, OrdMap.mem_entries, decide_eq_true_eq, Prod.forall, and_imp]

/-- What a join acknowledgement does: an accepting one activates the session it is taken for and
sends the full state in it, a refusing one ends that session. -/
theorem handleJoinAcknowledge_cases
    (h : s.handleJoinAcknowledge H clientId package = .ok (s', sent)) :
    ∃ accepted p e c, package.popValue 1 = .ok (accepted, p) ∧
      s.findClient clientId = some (e, c) ∧
      (accepted ≠ 0 ∧ sent.map (·.1) = [e] ∧
          (∃ m updatedObjects, s.objectManager = some m ∧
            m.serializeFull H = .ok updatedObjects) ∧
          (∃ conn, s'.clients =
            s.clients.insert e { c with toUdpConnection := conn, isActive := true }) ∨
        accepted = 0 ∧ sent = [] ∧ Calm s.clients s'.clients) := by
  obtain ⟨⟨accepted, p⟩, hpop, h⟩ := bind_eq_ok.1 h
  dsimp only at h
  split at h
  · cases h
  next e c hfound =>
  refine ⟨accepted, p, e, c, hpop, hfound, ?_⟩
  split at h
  · next haccepted =>
    split at h
    · cases h
    · next m hm =>
      obtain ⟨updatedObjects, hserialize, heq⟩ := bind_eq_ok.1 h
      cases heq
      exact .inl ⟨haccepted, rfl, ⟨m, updatedObjects, hm, hserialize⟩, _, rfl⟩
  · next hrefused =>
    cases h
    exact .inr ⟨not_not.1 hrefused, rfl, calm_erase _⟩

/-- An accepting join acknowledgement for a session, when the full state can be serialized. -/
theorem handleJoinAcknowledge_of {accepted : Nat} {p : RPCPackage} {c : ClientSession ε}
    {m : ObjectManager σ} {updatedObjects : List ProtoGameObject}
    (hpop : package.popValue 1 = .ok (accepted, p)) (haccepted : accepted ≠ 0)
    (hfound : s.findClient clientId = some (e, c)) (hm : s.objectManager = some m)
    (hserialize : m.serializeFull H = .ok updatedObjects) :
    ∃ s' sent, s.handleJoinAcknowledge H clientId package = .ok (s', sent) ∧
      sent.map (·.1) = [e] := by
  simp only [handleJoinAcknowledge, hpop, hfound, hm, hserialize, bind, Except.bind,
    if_pos haccepted]
  exact ⟨_, _, rfl, rfl⟩

/-- What a datagram does to the sessions, besides connections: a join request activates those with
the sender's client id, an accepting join acknowledgement the one it is taken for. -/
theorem handleReceive_cases {msg : Message Unit} {stack : RpcData} {clk : SteadyClock}
    (h : s.handleReceive P H e msg stack clk now = .ok (s', sent)) :
    Calm (s.parse P e msg clk).1.clients s'.clients ∨
      (∃ senderId package,
        s.received P e msg stack clk = .ok (some (.cpp .joinRequest senderId package)) ∧
          Calm ((s.parse P e msg clk).1.activate senderId).clients s'.clients) ∨
      ∃ senderId package accepted p e' c conn,
        s.received P e msg stack clk = .ok (some (.cpp .joinAcknowledge senderId package)) ∧
          package.popValue 1 = .ok (accepted, p) ∧ accepted ≠ 0 ∧
            (s.parse P e msg clk).1.findClient senderId = some (e', c) ∧
              s'.clients = (s.parse P e msg clk).1.clients.insert e'
                { c with toUdpConnection := conn, isActive := true } := by
  obtain ⟨invocation, hreceived, h⟩ := bind_eq_ok.1 h
  obtain ⟨⟨s1, sent1⟩, hinvoke, heq⟩ := bind_eq_ok.1 h
  cases heq
  unfold invoke at hinvoke
  split at hinvoke
  · next senderId package =>
    obtain ⟨_, hread⟩ := received_cpp hreceived
    obtain ⟨s2, sent2, hhandle, hcalm, _⟩ :=
      handleJoinRequest_spec (s.parse P e msg clk).1 now senderId hread
    obtain ⟨rfl, rfl⟩ := Prod.mk.inj (Except.ok.inj (hhandle.symm.trans hinvoke))
    exact .inr (.inl ⟨senderId, package, hreceived, hcalm⟩)
  · next senderId package =>
    obtain ⟨accepted, p, e', c, hpop, hfound, ⟨haccepted, _, _, conn, hclients⟩ | ⟨_, _, hcalm⟩⟩ :=
      handleJoinAcknowledge_cases hinvoke
    · exact .inr (.inr ⟨senderId, package, accepted, p, e', c, conn, hreceived, hpop, haccepted,
        hfound, hclients⟩)
    · exact .inl hcalm
  · cases hinvoke
    exact .inl .refl

end

end NetworkServer

end NetSiege
