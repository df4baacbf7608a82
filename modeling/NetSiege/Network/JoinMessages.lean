import NetSiege.Network.KnownCalls
import NetSiege.Network.ReceivedArguments
import NetSiege.Network.SessionIds

/-!
# The messages of the handshake (`networkserver.cpp`, `networkclient.cpp`)

What either side makes of the three messages a client joins with, as the other side sends them: a
join request activates the session and is answered, a join response is answered with what the join
handler says, and an accepting join acknowledgement is answered with the full state. The handlers of
these messages have to be in place (`HearsJoins`, `HearsResponses`).
-/

namespace NetSiege

open Lib ObjectManager UdpConnection

/-! ## Callbacks -/

namespace RPCDispatcher

variable {γ : Type} {d : RPCDispatcher γ} {senderId senderId' : UInt16} {id : RpcId} {callback : γ}

/-- The calls with the id come to the callback. -/
def CallsBack (d : RPCDispatcher γ) (senderId : UInt16) (id : RpcId) (callback : γ) : Prop :=
  ∃ handler, d.findRpcHandler senderId id = some handler ∧ handler.function = none ∧
    handler.cppFunction = some callback

/-- What a callback gets. -/
theorem CallsBack.executed (h : d.CallsBack senderId id callback) (data : List UInt8)
    (stack : RpcData) :
    ∃ argSpec, d.executeReceivedCall senderId id data stack =
      .ok (some (.cpp callback senderId (packageOf id argSpec data stack))) := by
  obtain ⟨handler, hfind, hfunction, hcallback⟩ := h
  have hid : (packageOf id handler.argSpec data stack).rpcId = id := rfl
  refine ⟨handler.argSpec, ?_⟩
  simp only [executeReceivedCall_eq hfind, executePackage, hid, hfind, hfunction, hcallback]

theorem callsBack_of_executed {data : List UInt8} {stack : RpcData} {package : RPCPackage}
    (h : d.executeReceivedCall senderId id data stack =
      .ok (some (.cpp callback senderId' package))) : d.CallsBack senderId id callback := by
  cases hfind : d.findRpcHandler senderId id with
  | none =>
    simp only [executeReceivedCall, hfind] at h
    cases h
  | some handler =>
    have hid : (packageOf id handler.argSpec data stack).rpcId = id := rfl
    simp only [executeReceivedCall_eq hfind, executePackage, hid, hfind] at h
    split at h
    · obtain ⟨_, _, heq⟩ := bind_eq_ok.1 h
      cases heq
    · next hfunction hcallback =>
      cases h
      exact ⟨handler, hfind, hfunction, hcallback⟩
    · cases h

end RPCDispatcher

open RPCDispatcher

/-- Among the packages is one with a call with the id. -/
def OnTheWay {β : Type} (msgs : List (Message β)) (id : RpcId) : Prop :=
  ∃ msg ∈ msgs, ∃ rpc ∈ msg.rpc, rpc.rpcId.toUInt16 = id

/-- If the call is a join response, it is one the server makes. -/
def Genuine (rpc : RPC) : Prop :=
  rpc.rpcId.toUInt16 = rpcIdJoinServerResp →
    ∃ msgSeqId playerId, rpc = joinResponseCall msgSeqId playerId

/-- If the call is a join acknowledgement, it is an accepting one. -/
def Accepting (rpc : RPC) : Prop :=
  rpc.rpcId.toUInt16 = rpcIdJoinServerAck → ∃ msgSeqId, rpc = joinAcknowledgeCall msgSeqId true

/-! ## What the packages read as -/

/-- The package a callback gets begins with the received bytes. -/
theorem bytes_packageOf (id : RpcId) (argSpec : List Char) (data : List UInt8) (stack : RpcData)
    (h : data.length ≤ maxRpcDataSize) :
    (packageOf id argSpec data stack).data.bytes = data ++ stack.bytes.drop data.length := by
  simp only [packageOf, RPCPackage.makeFrom, overwrite, List.take_zero, List.nil_append,
    Nat.zero_add, List.take_of_length_le h]

/-- The join handler accepts whom the server accepts. -/
def AcceptsJoin (callback : JoinAcceptCallback) : Prop :=
  ∀ playerId mapVersion, callback playerId 0 true [116, 101, 115, 116] mapVersion = true

/-- What the join handler is asked when a join response arrives. The map version it gets is not the
one that was sent: the body of the map name stands there. -/
theorem joinAnswer_joinResponse (callback : JoinAcceptCallback) (id : RpcId) (argSpec : List Char)
    (playerId : UInt16) (stack : RpcData) :
    joinAnswer callback (packageOf id argSpec (encodeArgs (joinResponseArgs playerId)) stack) =
      .ok (callback playerId.toUInt32 0 true [116, 101, 115, 116] 0x74736574) := by
  have hlen := length_joinResponseArgs playerId
  have hbytes := bytes_packageOf id argSpec (encodeArgs (joinResponseArgs playerId)) stack
    (by rw [hlen]; decide)
  rw [hlen] at hbytes
  have hread :
      (packageOf id argSpec (encodeArgs (joinResponseArgs playerId)) stack).readOffset = 0 := rfl
  generalize packageOf id argSpec (encodeArgs (joinResponseArgs playerId)) stack = p
    at hbytes hread ⊢
  obtain ⟨data, rpcId, readOffset, packageSize, validPackage, isSizeCached, argString⟩ := p
  dsimp only at hbytes hread
  subst hread
  have hpop : ∀ off n, off + n ≤ 512 → RPCPackage.popValue
      ⟨data, rpcId, off, packageSize, validPackage, isSizeCached, argString⟩ n =
        .ok (ofLeBytes (slice data.bytes off n),
          ⟨data, rpcId, off + n, packageSize, validPackage, isSizeCached, argString⟩) :=
    fun off n h => RPCPackage.popValue_eq h
  have hplayer : ofLeBytes (slice data.bytes 0 4) = playerId.toUInt32.toNat := by
    have hslice : slice data.bytes 0 4 = leBytes 4 playerId.toUInt32.toNat := by
      rw [hbytes]
      rfl
    rw [hslice, ofLeBytes_leBytes playerId.toUInt32.toNat_lt]
  have hversion : ofLeBytes (slice data.bytes 4 4) = 0 := by
    rw [hbytes]
    rfl
  have haccepted : ofLeBytes (slice data.bytes 8 1) = 1 := by
    rw [hbytes]
    rfl
  have hlength : ofLeBytes (slice data.bytes 9 2) = 4 := by
    rw [hbytes]
    rfl
  have hname : slice data.bytes 11 4 = [116, 101, 115, 116] := by
    rw [hbytes]
    rfl
  have hmap : ofLeBytes (slice data.bytes 11 4) = 0x74736574 := by
    rw [hname]
    rfl
  have hstring : RPCPackage.popString
      ⟨data, rpcId, 9, packageSize, validPackage, isSizeCached, argString⟩ =
        .ok ([116, 101, 115, 116],
          ⟨data, rpcId, 11, packageSize, validPackage, isSizeCached, argString⟩) := by
    simp only [RPCPackage.popString, hpop 9 2 (by omega), hlength, bind, Except.bind]
    rw [if_neg (by decide), hname]
  simp only [joinAnswer, hpop 0 4 (by omega), hpop 4 4 (by omega), hpop 8 1 (by omega), hstring,
    hpop 11 4 (by omega), hplayer, hversion, haccepted, hmap, bind, Except.bind]
  rw [UInt32.ofNat_toNat]
  rfl

/-- The first byte of an accepting join acknowledgement. -/
theorem popValue_joinAcknowledge (id : RpcId) (argSpec : List Char) (stack : RpcData) :
    ∃ p, (packageOf id argSpec [1] stack).popValue 1 = .ok (1, p) := by
  have hread : (packageOf id argSpec [1] stack).readOffset = 0 := rfl
  have hpop := RPCPackage.popValue_eq (p := packageOf id argSpec [1] stack) (n := 1)
    (by rw [hread]; decide)
  have hbytes := bytes_packageOf id argSpec [1] stack
    (by rw [List.length_singleton]; decide)
  rw [hbytes, hread] at hpop
  exact ⟨_, hpop⟩

/-! ## The server -/

namespace NetworkServer

variable {ε σ V : Type} [LinearOrder ε] {P : Platform} {H : ScriptHost σ V}
  {s : NetworkServer ε σ} {e : ε} {r : NetworkServer ε σ × Outgoing ε} {msg : Message Unit}
  {rpc : RPC} {stack : RpcData} {clk : SteadyClock} {now : ε → Time}

/-- Join requests and join acknowledgements, and nothing else, come to their handlers. -/
def HearsJoins (s : NetworkServer ε σ) : Prop :=
  ∀ senderId id, (s.CallsBack senderId id .joinRequest ↔ id = rpcIdJoinServerReq) ∧
    (s.CallsBack senderId id .joinAcknowledge ↔ id = rpcIdJoinServerAck)

/-- What a package with a call invokes. -/
theorem received_eq (P : Platform) (clk : SteadyClock) (hrpc : msg.rpc = some rpc) :
    s.received P e msg stack clk =
      s.executeReceivedCall (s.connect e).2.clientId.toUInt16 rpc.rpcId.toUInt16 rpc.rpcData
        stack := by
  simp only [received, parse, parsePackage, hrpc, Option.map_some]
  unfold connect
  split <;> rfl

theorem received_of_no_call (hrpc : msg.rpc = none) : s.received P e msg stack clk = .ok none := by
  simp only [received, parse, parsePackage, hrpc, Option.map_none]

/-- Every package of a call carries it. -/
theorem remoteProcedureCall_carries {clientId : UInt16} {package : RPCPackage}
    (h : s.remoteProcedureCall now clientId package = .ok r) :
    ∀ out ∈ r.2, ∃ rpc, out.2.rpc = some rpc ∧ rpc.rpcId = package.rpcId.toUInt32 := by
  obtain ⟨_, _, heq⟩ := bind_eq_ok.1 h
  cases heq
  intro out hout
  obtain ⟨kv, _, rfl⟩ := List.mem_map.1 hout
  exact ⟨_, rfl, rfl⟩

theorem handleJoinRequest_carries {clientId : UInt16} {package : RPCPackage}
    (h : s.handleJoinRequest now clientId package = .ok r) :
    ∀ out ∈ r.2, ∃ rpc, out.2.rpc = some rpc ∧ rpc.rpcId.toUInt16 = rpcIdJoinServerResp := by
  obtain ⟨_, _, h⟩ := bind_eq_ok.1 h
  obtain ⟨_, _, h⟩ := bind_eq_ok.1 h
  obtain ⟨response, hmake, h⟩ := bind_eq_ok.1 h
  obtain ⟨r1, hcall, h⟩ := bind_eq_ok.1 h
  dsimp only at h
  split at h
  · cases h
  cases h
  intro out hout
  obtain ⟨rpc, hrpc, hid⟩ := remoteProcedureCall_carries hcall out hout
  refine ⟨rpc, hrpc, ?_⟩
  rw [hid, (joinResponse_made hmake).2]
  rfl

theorem parse_objectManager_eq (P : Platform) (e : ε) (msg : Message Unit) (clk : SteadyClock) :
    (s.parse P e msg clk).1.objectManager = s.objectManager :=
  (quiet_parse (e := e) s e msg clk).objectManager

theorem handleReceive_of {invocation : Option (Invocation ServerCallback)}
    (hreceived : s.received P e msg stack clk = .ok invocation)
    (hinvoke : (s.parse P e msg clk).1.invoke H now invocation = .ok r) :
    s.handleReceive P H e msg stack clk now = .ok (r.1, (s.parse P e msg clk).2.1 ++ r.2) :=
  bind_eq_ok.2 ⟨invocation, hreceived, bind_eq_ok.2 ⟨r, hinvoke, rfl⟩⟩

/-- A join request activates the session it comes from and is answered. -/
theorem answers_joinRequest (hhears : s.HearsJoins) (hs : s.Numbered)
    (hfew : s.nextClientId < 65536) (hrpc : msg.rpc = some rpc)
    (hid : rpc.rpcId.toUInt16 = rpcIdJoinServerReq) (stack : RpcData) (clk : SteadyClock)
    (now : ε → Time) :
    ∃ r, s.handleReceive P H e msg stack clk now = .ok r ∧ Serves r.1 e ∧
      r.1.objectManager = s.objectManager ∧
        OnTheWay (r.2.to e) rpcIdJoinServerResp := by
  obtain ⟨argSpec, hexecuted⟩ := ((hhears (s.connect e).2.clientId.toUInt16 _).1.2 hid).executed
    rpc.rpcData stack
  have hreceived := (received_eq P clk hrpc).trans hexecuted
  obtain ⟨c, hc, _, hfound⟩ := hs.findClient_parse (P := P) hfew e msg clk
  have hclient := (findClient_eq_some.1 hfound).1.2
  have hread : (packageOf rpc.rpcId.toUInt16 argSpec rpc.rpcData stack).readOffset = 0 := rfl
  obtain ⟨s', sent, hhandle, _, hsent⟩ := handleJoinRequest_spec (s.parse P e msg clk).1 now
    (s.connect e).2.clientId.toUInt16 hread
  have hreceive : s.handleReceive P H e msg stack clk now = .ok _ :=
    handleReceive_of hreceived hhandle
  have hquiet : s.Quiet e _ := quiet_handleReceive hreceive fun _ _ h => by
    cases hreceived.symm.trans h
  refine ⟨_, hreceive, handleJoinRequest_active hhandle hc hclient, hquiet.objectManager, ?_⟩
  obtain ⟨⟨e', out⟩, hout, rfl⟩ :=
    List.mem_map.1 ((hsent e).2 ⟨c, hc, .inr hclient, .inr hclient⟩)
  obtain ⟨rpc', hrpc', hid'⟩ := handleJoinRequest_carries hhandle _ hout
  refine ⟨out, ?_, rpc', hrpc', hid'⟩
  rw [Outgoing.to_append]
  exact List.mem_append_right _ (Outgoing.mem_to.2 hout)

theorem handleJoinAcknowledge_accepts {clientId : UInt16} {package p : RPCPackage}
    {c : ClientSession ε} {m : ObjectManager σ} {updatedObjects : List ProtoGameObject}
    (hpop : package.popValue 1 = .ok (1, p)) (hfound : s.findClient clientId = some (e, c))
    (hm : s.objectManager = some m) (hserialize : m.serializeFull H = .ok updatedObjects) :
    ∃ s' out, s.handleJoinAcknowledge H clientId package = .ok (s', [(e, out)]) ∧ Serves s' e ∧
      out.body = some { updatedObjects } := by
  simp only [handleJoinAcknowledge, hpop, hfound, hm, hserialize, bind, Except.bind,
    if_pos Nat.one_ne_zero]
  exact ⟨_, _, rfl, ⟨_, OrdMap.find?_insert_self, rfl⟩, rfl⟩

/-- An accepting join acknowledgement leaves the session it comes from active, and is answered with
the full state. -/
theorem answers_joinAcknowledge {m : ObjectManager σ} {updatedObjects : List ProtoGameObject}
    (hhears : s.HearsJoins) (hs : s.Numbered) (hfew : s.nextClientId < 65536)
    (hm : s.objectManager = some m) (hserialize : m.serializeFull H = .ok updatedObjects)
    {msgSeqId : UInt32} (hrpc : msg.rpc = some (joinAcknowledgeCall msgSeqId true))
    (stack : RpcData) (clk : SteadyClock) (now : ε → Time) :
    ∃ r, s.handleReceive P H e msg stack clk now = .ok r ∧ Serves r.1 e ∧
      ∃ out ∈ r.2.to e, out.body = some { updatedObjects } := by
  obtain ⟨argSpec, hexecuted⟩ := ((hhears (s.connect e).2.clientId.toUInt16 _).2.2 rfl).executed
    [1] stack
  have hreceived := (received_eq P clk hrpc).trans hexecuted
  obtain ⟨c, hc, _, hfound⟩ := hs.findClient_parse (P := P) hfew e msg clk
  obtain ⟨p, hpop⟩ := popValue_joinAcknowledge rpcIdJoinServerAck argSpec stack
  have hm' := (parse_objectManager_eq P e msg clk).trans hm
  obtain ⟨s', out, hhandle, hserves, hbody⟩ :=
    handleJoinAcknowledge_accepts hpop hfound hm' hserialize
  refine ⟨_, handleReceive_of hreceived hhandle, hserves, out, ?_, hbody⟩
  rw [Outgoing.to_append]
  exact List.mem_append_right _ (Outgoing.mem_to.2 (List.mem_singleton_self _))

/-- An accepting join acknowledgement does not come through without a world that can be written. -/
theorem exists_world_of_joinAcknowledge (hhears : s.HearsJoins) {msgSeqId : UInt32}
    (hrpc : msg.rpc = some (joinAcknowledgeCall msgSeqId true))
    (hreceive : s.handleReceive P H e msg stack clk now = .ok r) :
    ∃ m updatedObjects, s.objectManager = some m ∧ m.serializeFull H = .ok updatedObjects := by
  obtain ⟨argSpec, hexecuted⟩ := ((hhears (s.connect e).2.clientId.toUInt16 _).2.2 rfl).executed
    [1] stack
  obtain ⟨invocation, hreceived, hinvoke⟩ := bind_eq_ok.1 hreceive
  cases hreceived.symm.trans ((received_eq P clk hrpc).trans hexecuted)
  obtain ⟨r1, hhandle, _⟩ := bind_eq_ok.1 hinvoke
  obtain ⟨p, hpop⟩ := popValue_joinAcknowledge rpcIdJoinServerAck argSpec stack
  obtain ⟨accepted, p', _, _, hpop', _, ⟨_, _, ⟨m, updatedObjects, hm, hserialize⟩, _⟩ | ⟨hzero, _⟩⟩
    := handleJoinAcknowledge_cases hhandle
  · exact ⟨m, updatedObjects, (parse_objectManager_eq P e msg clk).symm.trans hm, hserialize⟩
  · cases hpop.symm.trans hpop'
    cases hzero

/-- No package of the endpoint takes back that its session is active, if all its join
acknowledgements are accepting. -/
theorem Serves.handleReceive (h : Serves s e) (hhears : s.HearsJoins) (hs : s.Numbered)
    (hfew : s.nextClientId < 65536)
    (haccepts : ∀ rpc ∈ msg.rpc, Accepting rpc)
    (hreceive : s.handleReceive P H e msg stack clk now = .ok r) : Serves r.1 e := by
  obtain ⟨invocation, hreceived, hinvoke⟩ := bind_eq_ok.1 hreceive
  by_cases hack : ∃ senderId package, invocation = some (.cpp .joinAcknowledge senderId package)
  · obtain ⟨senderId, package, rfl⟩ := hack
    obtain ⟨r1, hhandle, heq⟩ := bind_eq_ok.1 hinvoke
    cases heq
    cases hrpc : msg.rpc with
    | none => cases (received_of_no_call hrpc).symm.trans hreceived
    | some rpc =>
      have hexecuted := (received_eq P clk hrpc).symm.trans hreceived
      have hid := (hhears _ _).2.1 (callsBack_of_executed hexecuted)
      obtain ⟨msgSeqId, rfl⟩ := haccepts rpc hrpc hid
      obtain ⟨argSpec, hexecuted'⟩ := (callsBack_of_executed hexecuted).executed [1] stack
      cases hexecuted.symm.trans hexecuted'
      obtain ⟨p, hpop⟩ := popValue_joinAcknowledge rpcIdJoinServerAck argSpec stack
      obtain ⟨c, _, _, hfound⟩ := hs.findClient_parse (P := P) hfew e msg clk
      obtain ⟨accepted, p', e', c', hpop', hfound', ⟨_, _, _, conn, hclients⟩ | ⟨hzero, _⟩⟩ :=
        handleJoinAcknowledge_cases hhandle
      · cases hfound.symm.trans hfound'
        rw [Serves, hclients]
        exact ⟨_, OrdMap.find?_insert_self, rfl⟩
      · cases hpop.symm.trans hpop'
        cases hzero
  · refine (quiet_handleReceive hreceive fun senderId package h => ?_).serves h
    cases hreceived.symm.trans h
    exact absurd ⟨senderId, package, rfl⟩ hack

end NetworkServer

/-! ## The client -/

namespace ClientProcess

variable {ε σ V : Type} {P : Platform} {H : ScriptHost σ V} {alloc : Allocator σ}
  {c : ClientProcess ε σ} {callback : JoinAcceptCallback} {e : ε} {msg : Message WorldStateUpdate}
  {stack : RpcData} {clk : SteadyClock} {now : Time}

/-- Join responses come to their handler. -/
def HearsResponses (c : ClientProcess ε σ) : Prop :=
  c.CallsBack 0 rpcIdJoinServerResp .joinResponse

/-- Nothing else comes to the handler of join responses. -/
def HearsOnlyResponses (c : ClientProcess ε σ) : Prop :=
  ∀ id, c.CallsBack 0 id .joinResponse → id = rpcIdJoinServerResp

/-- A filled package is sent. -/
theorem remoteProcedureCall_carries (client : NetworkClient ε σ) {package : RPCPackage}
    {bytes : List UInt8} {args : List Char} (hfill : package.Filled bytes args) (now : Time) :
    ∃ r, client.remoteProcedureCall package now = .ok r ∧
      ∃ out ∈ r.2, ∃ rpc ∈ out.rpc, rpc.rpcId = package.rpcId.toUInt32 := by
  simp only [NetworkClient.remoteProcedureCall, remoteProcedureCallPackage, hfill.dataSize, bind,
    Except.bind]
  exact ⟨_, rfl, _, List.mem_singleton_self _, _, rfl, rfl⟩

theorem handleJoinResponse_carries (client : NetworkClient ε σ) {package : RPCPackage}
    {loadSuccessfull : Bool} (hjoin : joinAnswer callback package = .ok loadSuccessfull)
    (now : Time) :
    ∃ r, client.handleJoinResponse (some callback) package now = .ok r ∧
      OnTheWay r.2 rpcIdJoinServerAck := by
  obtain ⟨a1, h1, hjoin⟩ := bind_eq_ok.1 hjoin
  obtain ⟨a2, h2, hjoin⟩ := bind_eq_ok.1 hjoin
  obtain ⟨a3, h3, hjoin⟩ := bind_eq_ok.1 hjoin
  obtain ⟨a4, h4, hjoin⟩ := bind_eq_ok.1 hjoin
  obtain ⟨a5, h5, _⟩ := bind_eq_ok.1 hjoin
  obtain ⟨rpc, hpush, hfill, hid⟩ := push_joinAcknowledge
    (callback (.ofNat a1.1) (.ofNat a2.1) (a3.1 != 0) a4.1 (.ofNat a5.1))
  obtain ⟨r, hcall, out, hout, rpc', hrpc', hid'⟩ :=
    remoteProcedureCall_carries client hfill now
  refine ⟨r, ?_, out, hout, rpc', hrpc', by rw [hid', hid]; rfl⟩
  simp only [NetworkClient.handleJoinResponse, h1, h2, h3, h4, h5, hpush, bind, Except.bind]
  rw [if_neg (not_not.2 hfill.argString)]
  exact hcall

theorem parsePackage_joinResponse (conn : UdpConnection ε) (clk : SteadyClock)
    {msgSeqId : UInt32} {playerId : UInt16}
    (hrpc : msg.rpc = some (joinResponseCall msgSeqId playerId)) :
    (conn.parsePackage P clk msg 0 : AckPass ε Unit × _).2 =
      some ⟨0, rpcIdJoinServerResp, encodeArgs (joinResponseArgs playerId)⟩ := by
  rw [parsePackage, hrpc]
  rfl

/-- A join response is answered. -/
theorem answers_joinResponse (hhears : c.HearsResponses)
    (hcallback : c.acceptCallback = some callback) {msgSeqId : UInt32} {playerId : UInt16}
    (hrpc : msg.rpc = some (joinResponseCall msgSeqId playerId)) (e : ε) (stack : RpcData)
    (clk : SteadyClock) (now : Time) :
    ∃ r, c.receive P H alloc e msg stack clk now = .ok r ∧ OnTheWay r.2 rpcIdJoinServerAck := by
  obtain ⟨argSpec, hexecuted⟩ := hhears.executed (encodeArgs (joinResponseArgs playerId)) stack
  have hjoin := joinAnswer_joinResponse callback rpcIdJoinServerResp argSpec playerId stack
  let pass : AckPass ε Unit :=
    ({ c.toUdpConnection with remoteEndpoint := e }.parsePackage P clk msg 0).1
  obtain ⟨r, hhandle, out, hout, hcarries⟩ := handleJoinResponse_carries
    { toUdpConnection := pass.conn, objectManager := c.objectManager } hjoin now
  refine ⟨({ c with toNetworkClient := r.1 }, pass.sent ++ r.2), ?_, out,
    List.mem_append_right _ hout, hcarries⟩
  have hcall := parsePackage_joinResponse (P := P)
    { c.toUdpConnection with remoteEndpoint := e } clk hrpc
  have hexecute : c.execute stack now ⟨0, rpcIdJoinServerResp,
      encodeArgs (joinResponseArgs playerId)⟩
      { toUdpConnection := pass.conn, objectManager := c.objectManager } = .ok r := by
    simp only [execute, hexecuted, hcallback, bind, Except.bind]
    exact hhandle
  simp only [receive, NetworkClient.handleReceive, hcall, bind, Except.bind]
  rw [hexecute]

/-- A join response does not come through without a join handler. -/
theorem exists_handler_of_joinResponse (hhears : c.HearsResponses) {msgSeqId : UInt32}
    {playerId : UInt16} (hrpc : msg.rpc = some (joinResponseCall msgSeqId playerId))
    {r : ClientProcess ε σ × List (Message Unit)}
    (hreceive : c.receive P H alloc e msg stack clk now = .ok r) :
    ∃ callback, c.acceptCallback = some callback := by
  obtain ⟨argSpec, hexecuted⟩ := hhears.executed (encodeArgs (joinResponseArgs playerId)) stack
  obtain ⟨_, hreceive, _⟩ := bind_eq_ok.1 hreceive
  have hcall := parsePackage_joinResponse (P := P)
    { c.toUdpConnection with remoteEndpoint := e } clk hrpc
  simp only [NetworkClient.handleReceive, hcall] at hreceive
  obtain ⟨_, hexecute, _⟩ := bind_eq_ok.1 hreceive
  simp only [execute, hexecuted, bind, Except.bind] at hexecute
  obtain ⟨callback, _, _, hcallback, _⟩ := NetworkClient.handleJoinResponse_eq_ok hexecute
  exact ⟨callback, hcallback⟩

/-- The join handler is willing. -/
theorem AnswersIn.accepted {loadSuccessfull : Bool}
    (h : c.AnswersIn loadSuccessfull (.receive e msg stack clk now))
    (hhears : c.HearsOnlyResponses)
    (haccepts : ∀ callback, c.acceptCallback = some callback → AcceptsJoin callback)
    (hgenuine : ∀ rpc ∈ msg.rpc, Genuine rpc) : loadSuccessfull = true := by
  obtain ⟨rpc, hrpc, senderId, package, callback, hexecuted, hcallback, hjoin⟩ := h
  have hcalls := callsBack_of_executed hexecuted
  obtain ⟨msgSeqId, playerId, rfl⟩ := hgenuine rpc hrpc (hhears _ hcalls)
  obtain ⟨argSpec, hexecuted'⟩ := hcalls.executed (encodeArgs (joinResponseArgs playerId)) stack
  cases hexecuted.symm.trans hexecuted'
  have hjoin' := joinAnswer_joinResponse callback rpcIdJoinServerResp argSpec playerId stack
  cases hjoin.symm.trans hjoin'
  exact haccepts callback hcallback _ _

/-- A join request. -/
theorem sendJoinRequest_carries {r : ClientProcess ε σ × List (Message Unit)}
    (h : c.sendJoinRequest now = .ok r) : OnTheWay r.2 rpcIdJoinServerReq := by
  obtain ⟨⟨_, package1⟩, hpush1, h⟩ := bind_eq_ok.1 h
  obtain ⟨⟨_, package⟩, hpush, h⟩ := bind_eq_ok.1 h
  dsimp only at h
  split at h
  · cases h
  obtain ⟨r1, hcall, heq⟩ := bind_eq_ok.1 h
  cases heq
  obtain ⟨out, hout, heq⟩ := bind_eq_ok.1 hcall
  obtain ⟨n, _, heq'⟩ := bind_eq_ok.1 hout
  cases heq'
  cases heq
  have hid : package.rpcId = rpcIdJoinServerReq :=
    (RPCPackage.push_rpcId hpush).trans (RPCPackage.push_rpcId hpush1)
  refine ⟨_, List.mem_singleton_self _, _, rfl, ?_⟩
  rw [hid]
  rfl

end ClientProcess

end NetSiege
