import NetSiege.Network.CallBooks
import NetSiege.Network.ClientProcess
import NetSiege.Network.NetworkServer

/-!
# The origin of calls (`udpconnection.h`, `networkserver.cpp`, `networkclient.cpp`)

Which calls a server and its clients send. A connection sends again only what is in its memory, so
that everything is said by the calls a step makes anew: the server answers join requests, a client
asks to join and answers join responses, and both call what their scripts call. What these calls
have in common, all calls have that are ever sent (`NetworkServer.honest_next`,
`ClientProcess.honest_next`).
-/

namespace NetSiege

open Lib ObjectManager UdpConnection

/-- A call a script made: the procedure it named, as the caller's dispatcher knew it, and what it
passed. -/
structure ScriptCall where
  procedure : Procedure
  slots : List Arg

/-- A package has the call in it. -/
def ScriptCall.CarriedBy (call : ScriptCall) (rpc : RPC) : Prop :=
  ∃ package n, pushArgs (.make call.procedure.id) call.procedure.argSpec call.slots = .ok package ∧
    package.dataSize = .ok n ∧ rpc.rpcId = call.procedure.id.toUInt32 ∧
      rpc.rpcData = package.data.bytes.take n

/-- What `buildCall` makes of a call is sent as that call. -/
theorem carriedBy_of_buildCall {γ : Type} {d d' : RPCDispatcher γ} {name : String}
    {slots : List Arg} {package : RPCPackage} (h : d.buildCall name slots = .ok (package, d'))
    {n : Nat} (hsize : package.dataSize = .ok n) (msgSeqId : UInt32) :
    ScriptCall.CarriedBy ⟨(d.procedures.find? name).getD {}, slots⟩
      ⟨msgSeqId, package.rpcId.toUInt32, package.data.bytes.take n⟩ := by
  obtain ⟨package', hpush, h⟩ := bind_eq_ok.1 h
  dsimp only at h
  split at h
  · cases h
  cases h
  exact ⟨package, n, hpush, hsize, congrArg UInt16.toUInt32 (pushArgs_rpcId hpush), rfl⟩

/-! ## The calls of the handshake -/

/-- The arguments of a join response. -/
def joinResponseArgs (playerId : UInt16) : List Arg :=
  [.u32 playerId.toUInt32, .u32 0, .u8 1, .str [116, 101, 115, 116], .u32 0]

/-- A join response. -/
def joinResponseCall (msgSeqId : UInt32) (playerId : UInt16) : RPC :=
  ⟨msgSeqId, rpcIdJoinServerResp.toUInt32, encodeArgs (joinResponseArgs playerId)⟩

/-- A join acknowledgement. -/
def joinAcknowledgeCall (msgSeqId : UInt32) (loadSuccessfull : Bool) : RPC :=
  ⟨msgSeqId, rpcIdJoinServerAck.toUInt32, [if loadSuccessfull then 1 else 0]⟩

theorem length_joinResponseArgs (playerId : UInt16) :
    (encodeArgs (joinResponseArgs playerId)).length = 19 := by
  simp [joinResponseArgs, Arg.encode]

theorem joinResponse_made {playerId : UInt16} {p : RPCPackage} (h : joinResponse playerId = .ok p) :
    p.Filled (encodeArgs (joinResponseArgs playerId)) rpcArgsJoinServerResp ∧
      p.rpcId = rpcIdJoinServerResp := by
  obtain ⟨p', hp', hfill, hid⟩ :=
    (RPCPackage.filled_make rpcIdJoinServerResp).foldlM_push (joinResponseArgs playerId)
      (by rw [length_joinResponseArgs]; decide)
  obtain rfl := Except.ok.inj (h.symm.trans hp')
  exact ⟨hfill, hid⟩

/-- What `joinResponse` makes is sent as a join response. -/
theorem joinResponse_eq {playerId : UInt16} {p : RPCPackage} {n : Nat}
    (h : joinResponse playerId = .ok p) (hsize : p.dataSize = .ok n) (msgSeqId : UInt32) :
    (⟨msgSeqId, p.rpcId.toUInt32, p.data.bytes.take n⟩ : RPC) =
      joinResponseCall msgSeqId playerId := by
  obtain ⟨hfill, hid⟩ := joinResponse_made h
  obtain rfl := Except.ok.inj (hsize.symm.trans hfill.dataSize)
  rw [hfill.bytes, hid]
  rfl

/-- The package of a join acknowledgement. -/
theorem push_joinAcknowledge (loadSuccessfull : Bool) :
    ∃ rpc, (RPCPackage.make rpcIdJoinServerAck).push (.u8 (if loadSuccessfull then 1 else 0)) =
        .ok (true, rpc) ∧
      rpc.Filled [if loadSuccessfull then 1 else 0] rpcArgsJoinServerAck ∧
      rpc.rpcId = rpcIdJoinServerAck := by
  have hencode : (Arg.u8 (if loadSuccessfull then 1 else 0)).encode =
      [if loadSuccessfull then 1 else 0] := by
    cases loadSuccessfull <;> rfl
  obtain ⟨rpc, hpush, hfill, hid⟩ := (RPCPackage.filled_make rpcIdJoinServerAck).push
    (.u8 (if loadSuccessfull then 1 else 0)) (by rw [hencode, List.length_singleton]; decide)
  rw [hencode] at hfill
  exact ⟨rpc, hpush, hfill, hid⟩

/-- What the join handler says to a package, as `handleJoinResponse` reads it. -/
def joinAnswer (acceptCallback : JoinAcceptCallback) (package : RPCPackage) :
    Except Trap Bool := do
  let (playerId, package) ← package.popValue 4
  let (serverVersion, package) ← package.popValue 4
  let (playerAccepted, package) ← package.popValue 1
  let (mapName, package) ← package.popString
  let (mapVersion, _) ← package.popValue 4
  .ok (acceptCallback (.ofNat playerId) (.ofNat serverVersion) (playerAccepted != 0) mapName
    (.ofNat mapVersion))

/-- A join response is answered with what the join handler says. -/
theorem NetworkClient.handleJoinResponse_eq_ok {ε σ : Type} {c : NetworkClient ε σ}
    {acceptCallback : Option JoinAcceptCallback} {package : RPCPackage} {now : Time}
    {r : NetworkClient ε σ × List (Message Unit)}
    (h : c.handleJoinResponse acceptCallback package now = .ok r) :
    ∃ callback loadSuccessfull rpc, acceptCallback = some callback ∧
      joinAnswer callback package = .ok loadSuccessfull ∧
      rpc.Filled [if loadSuccessfull then 1 else 0] rpcArgsJoinServerAck ∧
      rpc.rpcId = rpcIdJoinServerAck ∧ c.remoteProcedureCall rpc now = .ok r := by
  cases acceptCallback with
  | none => cases h
  | some callback =>
    obtain ⟨a1, h1, h⟩ := bind_eq_ok.1 h
    obtain ⟨a2, h2, h⟩ := bind_eq_ok.1 h
    obtain ⟨a3, h3, h⟩ := bind_eq_ok.1 h
    obtain ⟨a4, h4, h⟩ := bind_eq_ok.1 h
    obtain ⟨a5, h5, h⟩ := bind_eq_ok.1 h
    have hjoin : joinAnswer callback package = .ok _ := bind_eq_ok.2 ⟨a1, h1,
      bind_eq_ok.2 ⟨a2, h2, bind_eq_ok.2 ⟨a3, h3, bind_eq_ok.2 ⟨a4, h4,
        bind_eq_ok.2 ⟨a5, h5, rfl⟩⟩⟩⟩⟩
    obtain ⟨⟨_, rpc⟩, hpush, h⟩ := bind_eq_ok.1 h
    obtain ⟨rpc', hpush', hfill, hid⟩ := push_joinAcknowledge _
    cases hpush.symm.trans hpush'
    dsimp only at h
    rw [if_neg (not_not.2 hfill.argString)] at h
    exact ⟨callback, _, rpc, rfl, hjoin, hfill, hid, h⟩

/-! ## A connection -/

namespace UdpConnection

variable {ε β β' : Type} {c : UdpConnection ε}
  {Q Q' : RPC → Prop}

/-- The calls the connection waits for, and may send again, are of a kind. -/
def Waits (Q : RPC → Prop) (c : UdpConnection ε) : Prop :=
  ∀ info ∈ c.rpcMemory, Q info.rpc

theorem Waits.mono (h : c.Waits Q) (hQ : ∀ rpc, Q rpc → Q' rpc) : c.Waits Q' :=
  fun info hinfo => hQ _ (h info hinfo)

/-- A pass sends and keeps what was in the memory. -/
theorem Waits.parsePackage (h : c.Waits Q) (P : Platform) (clk : SteadyClock) (β : Type)
    (msg : Message β') (srcClientId : UInt16) :
    (c.parsePackage P clk msg srcClientId : AckPass ε β × _).1.conn.Waits Q ∧
      ∀ sent ∈ (c.parsePackage P clk msg srcClientId : AckPass ε β × _).1.sent,
        ∀ rpc ∈ sent.rpc, Q rpc := by
  have hpass := parsePackage_balanced (β := β) P clk c msg srcClientId
  have hmemory : ∀ call ∈ c.rpcMemory.map RpcInfo.issued, Q call.rpc := by
    intro call hcall
    obtain ⟨info, hinfo, rfl⟩ := List.mem_map.1 hcall
    exact h info hinfo
  refine ⟨fun info hinfo => hmemory _ (hpass.mem_calls hinfo), fun sent hsent rpc hrpc => ?_⟩
  obtain ⟨call, hcall, heq⟩ := hpass.resent sent hsent
  rw [heq] at hrpc
  cases hrpc
  exact hmemory call hcall

/-- A new call. -/
theorem Waits.remoteProcedureCall (h : c.Waits Q) {procedureId : RpcId} {data : RpcData}
    {dataSize : Nat} (now : Time)
    (hcall : ∀ msgSeqId, Q ⟨msgSeqId, procedureId.toUInt32, data.bytes.take dataSize⟩) :
    (c.remoteProcedureCall procedureId data dataSize now : _ × Message β).1.Waits Q := by
  intro info hinfo
  rcases List.mem_append.1 hinfo with hinfo | hinfo
  · exact h info hinfo
  · cases List.mem_singleton.1 hinfo
    exact hcall _

end UdpConnection

/-! ## The server -/

namespace NetworkServer

variable {ε σ V : Type} [LinearOrder ε] {P : Platform} {H : ScriptHost σ V}
  {s s1 : NetworkServer ε σ} {e : ε} {r : NetworkServer ε σ × Outgoing ε} {sent : Outgoing ε}
  {Q Q' : ε → RPC → Prop}

/-- The calls every session waits for are of a kind, by the session. -/
def Waits (Q : ε → RPC → Prop) (s : NetworkServer ε σ) : Prop :=
  ∀ e c, s.clients.find? e = some c → c.toUdpConnection.Waits (Q e)

/-- The server afterwards waits for calls of the kind, and has sent only such. -/
structure Honest (Q : ε → RPC → Prop) (r : NetworkServer ε σ × Outgoing ε) : Prop where
  waits : r.1.Waits Q
  sent : ∀ out ∈ r.2, ∀ rpc ∈ out.2.rpc, Q out.1 rpc

theorem Waits.insert (h : s.Waits Q) {c : ClientSession ε}
    (hc : c.toUdpConnection.Waits (Q e)) :
    Waits Q { s with clients := s.clients.insert e c } := by
  intro e' c' hc'
  rw [OrdMap.find?_insert] at hc'
  split at hc'
  · next heq =>
    cases hc'
    exact heq ▸ hc
  · exact h e' c' hc'

theorem Waits.erase (h : s.Waits Q) (e : ε) :
    Waits Q { s with clients := s.clients.erase e } := by
  intro e' c' hc'
  rw [OrdMap.find?_erase] at hc'
  split at hc'
  · cases hc'
  · exact h e' c' hc'

theorem waits_mapVal {f : ε → ClientSession ε → ClientSession ε}
    (hf : ∀ e c, s.clients.find? e = some c → (f e c).toUdpConnection.Waits (Q e)) :
    Waits Q { s with clients := s.clients.mapVal f } := by
  intro e c' hc'
  rw [OrdMap.find?_mapVal] at hc'
  obtain ⟨c, hc, rfl⟩ := Option.map_eq_some_iff.1 hc'
  exact hf e c hc

theorem honest_remoteProcedureCall {now : ε → Time} {clientId : UInt16} {package : RPCPackage}
    (hs : s.Waits Q) (h : s.remoteProcedureCall now clientId package = .ok r)
    (hcall : ∀ n, package.dataSize = .ok n → ∀ e ∈ r.2.map (·.1), ∀ msgSeqId,
      Q e ⟨msgSeqId, package.rpcId.toUInt32, package.data.bytes.take n⟩) :
    Honest Q r := by
  obtain ⟨dataSize, hsize, heq⟩ := bind_eq_ok.1 h
  have haddressed := (remoteProcedureCall_spec h).2
  cases heq
  have hcalled : ∀ e c, s.clients.find? e = some c → c.isAddressed clientId = true → ∀ msgSeqId,
      Q e ⟨msgSeqId, package.rpcId.toUInt32, package.data.bytes.take dataSize⟩ := by
    intro e c hc haddr
    have hmem := (haddressed e).2 ⟨c, hc, haddr⟩
    refine hcall dataSize ?_ e hmem
    have hsome : (s.clients.entries.filter fun kv => kv.2.isAddressed clientId) ≠ [] :=
      List.ne_nil_of_mem (List.mem_filter.2 ⟨OrdMap.mem_entries.2 hc, haddr⟩)
    rwa [if_neg (by simpa using hsome)] at hsize
  refine ⟨waits_mapVal fun e c hc => ?_, fun out hout => ?_⟩
  · split
    · next haddr => exact (hs e c hc).remoteProcedureCall (now e) (hcalled e c hc haddr)
    · exact hs e c hc
  · obtain ⟨⟨e, c⟩, hmem, rfl⟩ := List.mem_map.1 hout
    obtain ⟨hc, haddr⟩ := List.mem_filter.1 hmem
    intro rpc hrpc
    cases hrpc
    exact hcalled e c (OrdMap.mem_entries.1 hc) haddr _

theorem honest_handleJoinRequest {now : ε → Time} {clientId : UInt16} {package : RPCPackage}
    (hs : s.Waits Q) (h : s.handleJoinRequest now clientId package = .ok r)
    (hresponse : ∀ e msgSeqId playerId, Q e (joinResponseCall msgSeqId playerId)) :
    Honest Q r := by
  obtain ⟨_, _, h⟩ := bind_eq_ok.1 h
  obtain ⟨_, _, h⟩ := bind_eq_ok.1 h
  obtain ⟨response, hmake, h⟩ := bind_eq_ok.1 h
  obtain ⟨r1, hcall, h⟩ := bind_eq_ok.1 h
  dsimp only at h
  split at h
  · cases h
  cases h
  have hactivate : (s.activate clientId).Waits Q := waits_mapVal fun e c hc => by
    split <;> exact hs e c hc
  refine honest_remoteProcedureCall hactivate hcall fun n hsize e _ msgSeqId => ?_
  rw [joinResponse_eq hmake hsize]
  exact hresponse e msgSeqId clientId

theorem honest_handleJoinAcknowledge {clientId : UInt16} {package : RPCPackage}
    (hs : s.Waits Q) (h : s.handleJoinAcknowledge H clientId package = .ok r) :
    Honest Q r := by
  obtain ⟨_, _, h⟩ := bind_eq_ok.1 h
  dsimp only at h
  split at h
  · cases h
  next found c hfound =>
  have hc := (findClient_eq_some.1 hfound).1.1
  split at h
  · split at h
    · cases h
    obtain ⟨_, _, heq⟩ := bind_eq_ok.1 h
    cases heq
    refine ⟨hs.insert fun info hinfo => hs found c hc info hinfo, fun out hout rpc hrpc => ?_⟩
    cases List.mem_singleton.1 hout
    cases hrpc
  · cases h
    exact ⟨hs.erase _, List.forall_mem_nil _⟩

theorem honest_parse (hs : s.Waits Q) (e : ε) (msg : Message Unit) (clk : SteadyClock) :
    Honest Q ((s.parse P e msg clk).1, (s.parse P e msg clk).2.1) := by
  have hconnect : (s.connect e).1.Waits Q ∧
      (s.connect e).2.toUdpConnection.Waits (Q e) := by
    have hfresh : UdpConnection.Waits (Q e) ({ remoteEndpoint := e } : UdpConnection ε) := nofun
    unfold connect
    split
    · next client hclient => exact ⟨hs, hs e client hclient⟩
    · exact ⟨hs.insert hfresh, hfresh⟩
  have hparse := hconnect.2.parsePackage P clk WorldStateUpdate msg
    (s.connect e).2.clientId.toUInt16
  refine ⟨hconnect.1.insert hparse.1, fun out hout => ?_⟩
  obtain ⟨msg', hmsg', rfl⟩ := List.mem_map.1 hout
  exact hparse.2 msg' hmsg'

theorem honest_handleReceive {msg : Message Unit} {stack : RpcData} {clk : SteadyClock}
    {now : ε → Time} (hs : s.Waits Q) (h : s.handleReceive P H e msg stack clk now = .ok r)
    (hresponse : ∀ e msgSeqId playerId, Q e (joinResponseCall msgSeqId playerId)) :
    Honest Q r := by
  obtain ⟨invocation, _, h⟩ := bind_eq_ok.1 h
  obtain ⟨r1, hinvoke, heq⟩ := bind_eq_ok.1 h
  cases heq
  have hparse := honest_parse (P := P) hs e msg clk
  have hinvoked : Honest Q r1 := by
    unfold invoke at hinvoke
    split at hinvoke
    · exact honest_handleJoinRequest hparse.waits hinvoke hresponse
    · exact honest_handleJoinAcknowledge hparse.waits hinvoke
    · cases hinvoke
      exact ⟨hparse.waits, List.forall_mem_nil _⟩
  refine ⟨hinvoked.waits, fun out hout => ?_⟩
  rcases List.mem_append.1 hout with hout | hout
  · exact hparse.sent out hout
  · exact hinvoked.sent out hout

theorem find?_of_closeDeadConnections {now : Time} {closed : List ε} {c : ClientSession ε}
    (hc : (s.closeDeadConnections now closed).clients.find? e = some c) :
    s.clients.find? e = some c := by
  simp only [closeDeadConnections] at hc
  generalize s.clients = clients at hc ⊢
  induction closed generalizing clients with
  | nil => exact hc
  | cons e' closed ih =>
    have hrest := ih _ hc
    dsimp only at hrest
    split at hrest
    · split at hrest
      · rw [OrdMap.find?_erase] at hrest
        split at hrest
        · cases hrest
        · exact hrest
      · exact hrest
    · exact hrest

theorem honest_sync {now : Time} {closed : List ε} (hs : s.Waits Q)
    (h : s.sync H now closed = .ok r) : Honest Q r := by
  unfold sync at h
  split at h
  · cases h
  next m _ =>
  dsimp only at h
  split at h
  · cases h
    exact ⟨fun e c hc => hs e c (find?_of_closeDeadConnections hc), List.forall_mem_nil _⟩
  · obtain ⟨update, _, heq⟩ := bind_eq_ok.1 h
    cases heq
    have hsent : Waits Q { s with
        clients := s.clients.mapVal fun _ client =>
          if client.isActive then
            { client with
              toUdpConnection :=
                (client.sendPackage ({ body := some update } : Message WorldStateUpdate)).1 }
          else client
        objectManager := some m.flushUpdateCache } := waits_mapVal fun e c hc => by
      split
      · exact fun info hinfo => hs e c hc info hinfo
      · exact hs e c hc
    refine ⟨fun e c hc => hsent e c (find?_of_closeDeadConnections hc), fun out hout rpc hrpc => ?_⟩
    obtain ⟨kv, _, rfl⟩ := List.mem_map.1 hout
    cases hrpc

/-- The call a script makes in a step. -/
def scriptCall (s : NetworkServer ε σ) : Input ε σ → Option ScriptCall
  | .call _ name slots _ => some ⟨(s.procedures.find? name).getD {}, slots⟩
  | _ => none

/-- In every step: what the join responses have in common, and the calls of the script to those it
calls. -/
theorem honest_next {i : Input ε σ} (hs : s.Waits Q) (h : s.next P H i = .ok r)
    (hresponse : ∀ e msgSeqId playerId, Q e (joinResponseCall msgSeqId playerId))
    (hscript : ∀ call, s.scriptCall i = some call → ∀ e ∈ r.2.map (·.1), ∀ rpc,
      call.CarriedBy rpc → Q e rpc) : Honest Q r := by
  cases i with
  | receive e msg stack clk now => exact honest_handleReceive hs h hresponse
  | sync now closed => exact honest_sync hs h
  | addRpcHandlerFunc M clientId id funcname =>
    obtain ⟨_, _, heq⟩ := bind_eq_ok.1 h
    cases heq
    exact ⟨hs, List.forall_mem_nil _⟩
  | addRpcHandlerMethod M clientId id object funcname argspec =>
    cases h
    exact ⟨hs, List.forall_mem_nil _⟩
  | registerRpc M id name argspec =>
    obtain ⟨_, _, heq⟩ := bind_eq_ok.1 h
    cases heq
    exact ⟨hs, List.forall_mem_nil _⟩
  | call clientId name slots now =>
    obtain ⟨⟨package, d⟩, hbuild, h⟩ := bind_eq_ok.1 h
    exact honest_remoteProcedureCall (s := { s with toRPCDispatcher := d }) hs h
      fun n hsize e he msgSeqId =>
        hscript _ rfl e he _ (carriedBy_of_buildCall hbuild hsize msgSeqId)
  | world op =>
    simp only [next] at h
    split at h
    · cases h
    · cases h
      exact ⟨hs, List.forall_mem_nil _⟩

end NetworkServer

/-! ## A client -/

namespace NetworkClient

variable {ε σ V : Type} {c : NetworkClient ε σ} {r : NetworkClient ε σ × List (Message Unit)}
  {Q : RPC → Prop} {now : Time}

/-- The client afterwards waits for calls of the kind, and has sent only such. -/
structure Honest (Q : RPC → Prop) (r : NetworkClient ε σ × List (Message Unit)) :
    Prop where
  waits : r.1.toUdpConnection.Waits Q
  sent : ∀ msg ∈ r.2, ∀ rpc ∈ msg.rpc, Q rpc

theorem honest_remoteProcedureCall {package : RPCPackage} (hc : c.toUdpConnection.Waits Q)
    (h : c.remoteProcedureCall package now = .ok r)
    (hsent : ∀ n, package.dataSize = .ok n → ∀ msgSeqId,
      Q ⟨msgSeqId, package.rpcId.toUInt32, package.data.bytes.take n⟩) :
    Honest Q r := by
  obtain ⟨out, hcall, heq⟩ := bind_eq_ok.1 h
  obtain ⟨n, hsize, hout⟩ := bind_eq_ok.1 hcall
  cases hout
  cases heq
  refine ⟨hc.remoteProcedureCall now (hsent n hsize), fun msg hmsg rpc hrpc => ?_⟩
  cases List.mem_singleton.1 hmsg
  cases hrpc
  exact hsent n hsize _

theorem honest_handleJoinResponse {acceptCallback : Option JoinAcceptCallback}
    {package : RPCPackage} (hc : c.toUdpConnection.Waits Q)
    (h : c.handleJoinResponse acceptCallback package now = .ok r)
    (hanswer : ∀ callback loadSuccessfull, acceptCallback = some callback →
      joinAnswer callback package = .ok loadSuccessfull →
        ∀ msgSeqId, Q (joinAcknowledgeCall msgSeqId loadSuccessfull)) : Honest Q r := by
  obtain ⟨callback, loadSuccessfull, rpc, hcallback, hjoin, hfill, hid, hcall⟩ :=
    handleJoinResponse_eq_ok h
  refine honest_remoteProcedureCall hc hcall fun n hsize msgSeqId => ?_
  obtain rfl := Except.ok.inj (hsize.symm.trans hfill.dataSize)
  rw [hfill.bytes, hid]
  exact hanswer callback loadSuccessfull hcallback hjoin msgSeqId

end NetworkClient

namespace ClientProcess

variable {ε σ V : Type} {P : Platform} {H : ScriptHost σ V} {alloc : Allocator σ}
  {c : ClientProcess ε σ} {r : ClientProcess ε σ × List (Message Unit)}
  {Q Q' : RPC → Prop}

/-- The client afterwards waits for calls of the kind, and has sent only such. -/
structure Honest (Q : RPC → Prop) (r : ClientProcess ε σ × List (Message Unit)) :
    Prop where
  waits : r.1.toUdpConnection.Waits Q
  sent : ∀ msg ∈ r.2, ∀ rpc ∈ msg.rpc, Q rpc

/-- The client runs its join handler for a received call, and this is what the handler says. -/
def Answers (c : ClientProcess ε σ) (stack : RpcData) (call : ReceivedCall)
    (loadSuccessfull : Bool) : Prop :=
  ∃ senderId package callback,
    c.executeReceivedCall call.senderId call.rpcId call.rpcData stack =
        .ok (some (.cpp .joinResponse senderId package)) ∧
      c.acceptCallback = some callback ∧ joinAnswer callback package = .ok loadSuccessfull

/-- What the join handler says in a step. -/
def AnswersIn (c : ClientProcess ε σ) (loadSuccessfull : Bool) : Input ε σ → Prop
  | .receive _ msg stack _ _ => ∃ rpc ∈ msg.rpc,
      c.Answers stack ⟨0, rpc.rpcId.toUInt16, rpc.rpcData⟩ loadSuccessfull
  | _ => False

theorem honest_execute {stack : RpcData} {now : Time} {call : ReceivedCall}
    {client : NetworkClient ε σ} {r : NetworkClient ε σ × List (Message Unit)}
    (hclient : client.toUdpConnection.Waits Q) (h : c.execute stack now call client = .ok r)
    (hanswer : ∀ loadSuccessfull, c.Answers stack call loadSuccessfull →
      ∀ msgSeqId, Q (joinAcknowledgeCall msgSeqId loadSuccessfull)) :
    NetworkClient.Honest Q r := by
  obtain ⟨invocation, hinvocation, h⟩ := bind_eq_ok.1 h
  split at h
  · next senderId package =>
    exact NetworkClient.honest_handleJoinResponse hclient h
      fun callback loadSuccessfull hcallback hjoin =>
        hanswer loadSuccessfull ⟨senderId, package, callback, hinvocation, hcallback, hjoin⟩
  · cases h
    exact ⟨hclient, List.forall_mem_nil _⟩

theorem honest_receive {e : ε} {msg : Message WorldStateUpdate} {stack : RpcData}
    {clk : SteadyClock} {now : Time} (hc : c.toUdpConnection.Waits Q)
    (h : c.receive P H alloc e msg stack clk now = .ok r)
    (hanswer : ∀ loadSuccessfull, c.AnswersIn loadSuccessfull (.receive e msg stack clk now) →
      ∀ msgSeqId, Q (joinAcknowledgeCall msgSeqId loadSuccessfull)) : Honest Q r := by
  obtain ⟨⟨client, sent⟩, hreceive, heq⟩ := bind_eq_ok.1 h
  cases heq
  have hpass := UdpConnection.Waits.parsePackage
    (c := { c.toUdpConnection with remoteEndpoint := e }) hc P clk Unit msg 0
  simp only [NetworkClient.handleReceive] at hreceive
  split at hreceive
  · next hcall =>
    obtain ⟨rpc, hrpc, rfl⟩ := Option.map_eq_some_iff.1 hcall
    obtain ⟨⟨client, answered⟩, hexecute, heq⟩ := bind_eq_ok.1 hreceive
    cases heq
    have hexecuted := honest_execute hpass.1 hexecute fun loadSuccessfull h =>
      hanswer loadSuccessfull ⟨rpc, hrpc, h⟩
    refine ⟨hexecuted.waits, fun msg' hmsg' => ?_⟩
    rcases List.mem_append.1 hmsg' with hmsg' | hmsg'
    · exact hpass.2 msg' hmsg'
    · exact hexecuted.sent msg' hmsg'
  · split at hreceive
    · obtain ⟨m, _, heq⟩ := bind_eq_ok.1 hreceive
      cases heq
      exact ⟨hpass.1, hpass.2⟩
    · cases hreceive
      exact ⟨hpass.1, hpass.2⟩

/-- The call a script makes in a step. -/
def scriptCall (c : ClientProcess ε σ) : Input ε σ → Option ScriptCall
  | .call name slots _ => some ⟨(c.procedures.find? name).getD {}, slots⟩
  | _ => none

/-- In every step: what the join requests have in common, the join acknowledgements that say what
the join handler says, and the calls of the script. -/
theorem honest_next {i : Input ε σ} (hc : c.toUdpConnection.Waits Q)
    (h : c.next P H alloc i = .ok r)
    (hrequest : ∀ rpc : RPC, rpc.rpcId = rpcIdJoinServerReq.toUInt32 → Q rpc)
    (hanswer : ∀ loadSuccessfull, c.AnswersIn loadSuccessfull i →
      ∀ msgSeqId, Q (joinAcknowledgeCall msgSeqId loadSuccessfull))
    (hscript : ∀ call, c.scriptCall i = some call → ∀ rpc, call.CarriedBy rpc → Q rpc) :
    Honest Q r := by
  cases i with
  | receive e msg stack clk now => exact honest_receive hc h hanswer
  | sendJoinRequest now =>
    obtain ⟨⟨_, package1⟩, hpush1, h⟩ := bind_eq_ok.1 h
    obtain ⟨⟨_, package⟩, hpush, h⟩ := bind_eq_ok.1 h
    dsimp only at h
    split at h
    · cases h
    obtain ⟨r1, hcall1, heq⟩ := bind_eq_ok.1 h
    cases heq
    have hid : package.rpcId = rpcIdJoinServerReq :=
      (RPCPackage.push_rpcId hpush).trans (RPCPackage.push_rpcId hpush1)
    have hhonest := NetworkClient.honest_remoteProcedureCall hc hcall1 fun n _ msgSeqId =>
      hrequest _ (congrArg UInt16.toUInt32 hid)
    exact ⟨hhonest.waits, hhonest.sent⟩
  | call name slots now =>
    obtain ⟨⟨package, d⟩, hbuild, h⟩ := bind_eq_ok.1 h
    obtain ⟨r1, hcall1, heq⟩ := bind_eq_ok.1 h
    cases heq
    have hhonest := NetworkClient.honest_remoteProcedureCall hc hcall1 fun n hsize msgSeqId =>
      hscript _ rfl _ (carriedBy_of_buildCall hbuild hsize msgSeqId)
    exact ⟨hhonest.waits, hhonest.sent⟩
  | register r' =>
    simp only [next] at h
    split at h
    · cases h
    · cases h
      exact ⟨hc, List.forall_mem_nil _⟩
  | setJoinAcceptHandler callback =>
    cases h
    exact ⟨hc, List.forall_mem_nil _⟩
  | setObjectManager manager =>
    cases h
    exact ⟨hc, List.forall_mem_nil _⟩
  | world op =>
    simp only [next] at h
    split at h
    · cases h
    · cases h
      exact ⟨hc, List.forall_mem_nil _⟩

end ClientProcess

end NetSiege
