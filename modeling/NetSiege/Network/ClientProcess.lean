import NetSiege.Network.NetworkClient
import NetSiege.Network.NetworkServer
import NetSiege.Network.Registrations

/-!
# The client with its dispatcher (`networkclient.cpp`)

`ClientProcess` is a `NetworkClient` with its base `RPCDispatcher`, the player's name and the join
handler; `next` is what one event does to it. The socket receives into the inherited
`m_remoteEndpoint`, which is also where `sendPackage` sends: the client talks to whoever it heard
last (`Conversation.talksOnlyTo_iff`).
-/

namespace NetSiege

open Lib ObjectManager UdpConnection

/-- The handlers of the client itself. -/
inductive ClientCallback where
  | joinResponse
deriving DecidableEq

/-- `join_accept_callback_t`: player id, server version, player accepted, map name, map version. -/
abbrev JoinAcceptCallback := UInt32 → UInt32 → Bool → List UInt8 → UInt32 → Bool

/-- `NetworkClient`, with both its bases. -/
structure ClientProcess (ε σ : Type) extends NetworkClient ε σ, RPCDispatcher ClientCallback where
  name : List UInt8
  acceptCallback : Option JoinAcceptCallback := none

namespace NetworkClient

variable {ε σ : Type}

/-- `NetworkClient::remoteProcedureCall`, which does not look at the receiver's client id. -/
def remoteProcedureCall (c : NetworkClient ε σ) (package : RPCPackage) (now : Time) :
    Except Trap (NetworkClient ε σ × List (Message Unit)) := do
  let (conn, msg) ← c.remoteProcedureCallPackage package now
  .ok ({ c with toUdpConnection := conn }, [msg])

/-- `NetworkClient::handleJoinResponse`. -/
def handleJoinResponse (c : NetworkClient ε σ) (acceptCallback : Option JoinAcceptCallback)
    (package : RPCPackage) (now : Time) :
    Except Trap (NetworkClient ε σ × List (Message Unit)) :=
  match acceptCallback with
  | none => .error .assertion
  | some acceptCallback => do
    let (playerId, package) ← package.popValue 4
    let (serverVersion, package) ← package.popValue 4
    let (playerAccepted, package) ← package.popValue 1
    let (mapName, package) ← package.popString
    let (mapVersion, _) ← package.popValue 4
    let loadSuccessfull := acceptCallback (.ofNat playerId) (.ofNat serverVersion)
      (playerAccepted != 0) mapName (.ofNat mapVersion)
    let (_, rpc) ← (RPCPackage.make rpcIdJoinServerAck).push
      (.u8 (if loadSuccessfull then 1 else 0))
    if rpc.argString ≠ rpcArgsJoinServerAck then .error .assertion
    c.remoteProcedureCall rpc now

end NetworkClient

namespace ClientProcess

variable {ε σ V : Type}

/-- `NetworkClient::RegisterNetworkSystem` and `initProcess`, of a client for the server at the
endpoint. -/
def registerNetworkSystem (serverEndpoint : ε) (playerName : List UInt8) : ClientProcess ε σ :=
  let d : RPCDispatcher ClientCallback := {}
  let d := (d.addRpcHandlerCpp 0 rpcIdJoinServerResp .joinResponse rpcArgsJoinServerResp).2
  { toRPCDispatcher := d, remoteEndpoint := serverEndpoint, name := playerName }

/-- The dispatcher executes a received call. What a script handler does are steps of its own. -/
def execute (c : ClientProcess ε σ) (stack : RpcData) (now : Time) (call : ReceivedCall)
    (client : NetworkClient ε σ) : Except Trap (NetworkClient ε σ × List (Message Unit)) := do
  match ← c.executeReceivedCall call.senderId call.rpcId call.rpcData stack with
  | some (.cpp .joinResponse _ package) =>
    client.handleJoinResponse c.acceptCallback package now
  | _ => .ok (client, [])

/-- A datagram from the endpoint `e` arrives: the socket stores `e` in `m_remoteEndpoint`. -/
def receive (P : Platform) (H : ScriptHost σ V) (alloc : Allocator σ) (c : ClientProcess ε σ)
    (e : ε) (msg : Message WorldStateUpdate) (stack : RpcData) (clk : SteadyClock) (now : Time) :
    Except Trap (ClientProcess ε σ × List (Message Unit)) := do
  let (client, sent) ← { c.toNetworkClient with remoteEndpoint := e }.handleReceive P H alloc
    (c.execute stack now) clk msg
  .ok ({ c with toNetworkClient := client }, sent)

/-- `NetworkClient::sendJoinRequest`. -/
def sendJoinRequest (c : ClientProcess ε σ) (now : Time) :
    Except Trap (ClientProcess ε σ × List (Message Unit)) := do
  let (_, package) ← (RPCPackage.make rpcIdJoinServerReq).push (.u32 0)
  let (_, package) ← package.push (.str c.name)
  if package.argString ≠ rpcArgsJoinServerReq then .error .assertion
  let (client, sent) ← c.toNetworkClient.remoteProcedureCall package now
  .ok ({ c with toNetworkClient := client }, sent)

/-- What may happen to a client. -/
inductive Input (ε σ : Type) where
  | receive (e : ε) (msg : Message WorldStateUpdate) (stack : RpcData) (clk : SteadyClock)
      (now : Time)
  | sendJoinRequest (now : Time)
  | call (name : String) (slots : List Arg) (now : Time)
  | register (r : Registration ClientCallback)
  | setJoinAcceptHandler (callback : JoinAcceptCallback)
  | setObjectManager (manager : ObjectManager σ)
  | world (op : ObjectManager.StoreOp σ)

/-- The client after a step, with the packages it hands to `send`. -/
def next (P : Platform) (H : ScriptHost σ V) (alloc : Allocator σ) (c : ClientProcess ε σ) :
    Input ε σ → Except Trap (ClientProcess ε σ × List (Message Unit))
  | .receive e msg stack clk now => c.receive P H alloc e msg stack clk now
  | .sendJoinRequest now => c.sendJoinRequest now
  | .call name slots now => do
    let (package, d) ← c.buildCall name slots
    let (client, sent) ← c.toNetworkClient.remoteProcedureCall package now
    .ok ({ c with toNetworkClient := client, toRPCDispatcher := d }, sent)
  | .register r =>
    match c.register r with
    | none => .error .assertion
    | some d => .ok ({ c with toRPCDispatcher := d }, [])
  | .setJoinAcceptHandler callback => .ok ({ c with acceptCallback := some callback }, [])
  | .setObjectManager manager => .ok ({ c with objectManager := some manager }, [])
  | .world op =>
    match c.objectManager.bind (·.step H op) with
    | none => .error .assertion
    | some m => .ok ({ c with objectManager := some m }, [])

/-- The client after a step, if it comes through. -/
def step (P : Platform) (H : ScriptHost σ V) (alloc : Allocator σ) (c : ClientProcess ε σ)
    (i : Input ε σ) : Option (ClientProcess ε σ) :=
  (c.next P H alloc i).toOption.map (·.1)

/-- The endpoint a datagram comes from. -/
def Input.sender : Input ε σ → Option ε
  | .receive e .. => some e
  | _ => none

/-- Every package a step hands to `send`, with the endpoint it is addressed to. A step that does not
come through may have resent calls before. -/
def handedToSend (P : Platform) (H : ScriptHost σ V) (alloc : Allocator σ) (c : ClientProcess ε σ)
    (i : Input ε σ) : List (ε × Message Unit) :=
  match c.next P H alloc i with
  | .ok (c', sent) => sent.map (c'.remoteEndpoint, ·)
  | .error _ =>
    match i with
    | .receive e msg _ clk _ =>
      let pass : AckPass ε Unit :=
        ({ c.toUdpConnection with remoteEndpoint := e }.parsePackage P clk msg 0).1
      pass.sent.map (pass.conn.remoteEndpoint, ·)
    | _ => []

end ClientProcess

/-! ## Who the client talks to -/

theorem UdpConnection.parsePackage_endpoint {ε β β' : Type} (P : Platform) (clk : SteadyClock)
    (c : UdpConnection ε) (msg : Message β') (srcClientId : UInt16) :
    (c.parsePackage P clk msg srcClientId : AckPass ε β × _).1.conn.remoteEndpoint =
      c.remoteEndpoint :=
  (refresh_inv P clk c msg.seqId.toUInt16 msg.ackSeqId.toUInt16
    (BitVec.ofNat 16 msg.ackMask.toNat)).remoteEndpoint

namespace NetworkClient

variable {ε σ V : Type} {c c' : NetworkClient ε σ} {sent : List (Message Unit)} {now : Time}

theorem remoteProcedureCall_endpoint {package : RPCPackage}
    (h : c.remoteProcedureCall package now = .ok (c', sent)) :
    c'.remoteEndpoint = c.remoteEndpoint := by
  obtain ⟨⟨conn, msg⟩, hcall, h⟩ := bind_eq_ok.1 h
  obtain ⟨dataSize, -, hcall⟩ := bind_eq_ok.1 hcall
  cases hcall
  cases h
  rfl

theorem handleJoinResponse_endpoint {acceptCallback : Option JoinAcceptCallback}
    {package : RPCPackage} (h : c.handleJoinResponse acceptCallback package now = .ok (c', sent)) :
    c'.remoteEndpoint = c.remoteEndpoint := by
  cases acceptCallback with
  | none => cases h
  | some acceptCallback =>
    obtain ⟨_, -, h⟩ := bind_eq_ok.1 h
    obtain ⟨_, -, h⟩ := bind_eq_ok.1 h
    obtain ⟨_, -, h⟩ := bind_eq_ok.1 h
    obtain ⟨_, -, h⟩ := bind_eq_ok.1 h
    obtain ⟨_, -, h⟩ := bind_eq_ok.1 h
    obtain ⟨_, -, h⟩ := bind_eq_ok.1 h
    dsimp only at h
    split at h
    · cases h
    · exact remoteProcedureCall_endpoint h

theorem handleReceive_endpoint {P : Platform} {H : ScriptHost σ V} {alloc : Allocator σ}
    {execute : ReceivedCall → NetworkClient ε σ →
      Except Trap (NetworkClient ε σ × List (Message Unit))} {clk : SteadyClock}
    {msg : Message WorldStateUpdate}
    (hexecute : ∀ call c c' sent, execute call c = .ok (c', sent) →
      c'.remoteEndpoint = c.remoteEndpoint)
    (h : c.handleReceive P H alloc execute clk msg = .ok (c', sent)) :
    c'.remoteEndpoint = c.remoteEndpoint := by
  have hpass : (c.parsePackage P clk msg 0 : AckPass ε Unit × _).1.conn.remoteEndpoint =
      c.remoteEndpoint := parsePackage_endpoint P clk c.toUdpConnection msg 0
  rw [handleReceive] at h
  dsimp only at h
  split at h
  · obtain ⟨⟨c1, sent1⟩, hcall, h⟩ := bind_eq_ok.1 h
    cases h
    exact (hexecute _ _ _ _ hcall).trans hpass
  · split at h
    · obtain ⟨m, -, h⟩ := bind_eq_ok.1 h
      cases h
      exact hpass
    · cases h
      exact hpass

end NetworkClient

namespace ClientProcess

variable {ε σ V : Type} {P : Platform} {H : ScriptHost σ V} {alloc : Allocator σ}
  {c c' : ClientProcess ε σ} {sent : List (Message Unit)} {i : Input ε σ}

theorem execute_endpoint {stack : RpcData} {now : Time} {call : ReceivedCall}
    {client client' : NetworkClient ε σ}
    (h : c.execute stack now call client = .ok (client', sent)) :
    client'.remoteEndpoint = client.remoteEndpoint := by
  obtain ⟨invocation, -, h⟩ := bind_eq_ok.1 h
  split at h
  · exact NetworkClient.handleJoinResponse_endpoint h
  · cases h
    rfl

/-- A step changes the remote endpoint to the sender of a datagram, and not otherwise. -/
theorem next_endpoint (h : c.next P H alloc i = .ok (c', sent)) :
    c'.remoteEndpoint = i.sender.getD c.remoteEndpoint := by
  cases i with
  | receive e msg stack clk now =>
    obtain ⟨⟨client, sent1⟩, hreceive, h⟩ := bind_eq_ok.1 h
    cases h
    exact NetworkClient.handleReceive_endpoint (fun _ _ _ _ => execute_endpoint) hreceive
  | sendJoinRequest now =>
    obtain ⟨_, -, h⟩ := bind_eq_ok.1 h
    obtain ⟨_, -, h⟩ := bind_eq_ok.1 h
    dsimp only at h
    split at h
    · cases h
    · obtain ⟨⟨client, sent1⟩, hcall, h⟩ := bind_eq_ok.1 h
      cases h
      exact NetworkClient.remoteProcedureCall_endpoint hcall
  | call name slots now =>
    obtain ⟨⟨package, d⟩, -, h⟩ := bind_eq_ok.1 h
    obtain ⟨⟨client, sent1⟩, hcall, h⟩ := bind_eq_ok.1 h
    cases h
    exact NetworkClient.remoteProcedureCall_endpoint hcall
  | register r =>
    rw [next] at h
    split at h <;> cases h
    rfl
  | setJoinAcceptHandler callback | setObjectManager manager =>
    cases h
    rfl
  | world op =>
    rw [next] at h
    split at h <;> cases h
    rfl

/-- Packages go to the sender of the datagram that is handled, or else to the endpoint heard
before. -/
theorem handedToSend_endpoint {p : ε × Message Unit} (hp : p ∈ c.handedToSend P H alloc i) :
    p.1 = i.sender.getD c.remoteEndpoint := by
  unfold handedToSend at hp
  split at hp
  · next h =>
    obtain ⟨msg, -, rfl⟩ := List.mem_map.1 hp
    exact next_endpoint h
  · split at hp
    · obtain ⟨msg, -, rfl⟩ := List.mem_map.1 hp
      exact parsePackage_endpoint ..
    · cases hp

end ClientProcess

/-- A client and the endpoint of the last datagram it received. -/
structure Conversation (ε σ : Type) where
  client : ClientProcess ε σ
  lastFrom : Option ε := none

namespace Conversation

variable {ε σ V : Type}

/-- The sender of the last datagram, after one more input. -/
def hear (lastFrom : Option ε) (i : ClientProcess.Input ε σ) : Option ε := i.sender.or lastFrom

section
variable (P : Platform) (H : ScriptHost σ V) (alloc : Allocator σ)

/-- A step of the client. -/
def step (s : Conversation ε σ) (i : ClientProcess.Input ε σ) : Option (Conversation ε σ) :=
  (s.client.step P H alloc i).map fun client => { client, lastFrom := hear s.lastFrom i }

/-- Every package handed to `send` in a step is addressed to the server. -/
def TalksOnlyTo (serverEndpoint : ε) (s : Conversation ε σ) (i : ClientProcess.Input ε σ) : Prop :=
  ∀ p ∈ s.client.handedToSend P H alloc i, p.1 = serverEndpoint

/-- If a package is handed to `send` in a step, the last datagram, if there was any, came from the
server. -/
def HeardLast (serverEndpoint : ε) (s : Conversation ε σ) (i : ClientProcess.Input ε σ) : Prop :=
  s.client.handedToSend P H alloc i ≠ [] → ∀ e, hear s.lastFrom i = some e → e = serverEndpoint

end

variable {P : Platform} {H : ScriptHost σ V} {alloc : Allocator σ}

theorem step_endpoint {serverEndpoint : ε} {s s' : Conversation ε σ}
    {i : ClientProcess.Input ε σ}
    (hs : s.client.remoteEndpoint = s.lastFrom.getD serverEndpoint)
    (h : s.step P H alloc i = some s') :
    s'.client.remoteEndpoint = s'.lastFrom.getD serverEndpoint := by
  obtain ⟨client, hclient, rfl⟩ := Option.map_eq_some_iff.1 h
  obtain ⟨⟨client', sent⟩, hnext, rfl⟩ := toOption_map_eq_some.1 hclient
  dsimp only
  rw [ClientProcess.next_endpoint hnext, hs, hear]
  cases i.sender <;> rfl

/-- **The client talks to whoever it heard last.** Every package of a run is addressed to the server
if and only if the client hands packages to `send` only while the last datagram it received came
from the server, or before any did. -/
theorem talksOnlyTo_iff (serverEndpoint : ε) (playerName : List UInt8)
    (is : List (ClientProcess.Input ε σ)) :
    Along (step P H alloc) (TalksOnlyTo P H alloc serverEndpoint)
        { client := .registerNetworkSystem serverEndpoint playerName } is ↔
      Along (step P H alloc) (HeardLast P H alloc serverEndpoint)
        { client := .registerNetworkSystem serverEndpoint playerName } is := by
  refine Along.iff_of_invariant
    (fun s => s.client.remoteEndpoint = s.lastFrom.getD serverEndpoint)
    (fun _ _ _ hs _ h => step_endpoint hs h) (fun s i hs => ?_) rfl
  have hto : ∀ p ∈ s.client.handedToSend P H alloc i,
      p.1 = (hear s.lastFrom i).getD serverEndpoint := by
    intro p hp
    rw [ClientProcess.handedToSend_endpoint hp, hs, hear]
    cases i.sender <;> rfl
  constructor
  · intro H' hne e he
    obtain ⟨p, hp⟩ := List.exists_mem_of_ne_nil _ hne
    rw [← H' p hp, hto p hp, he, Option.getD_some]
  · intro H' p hp
    rw [hto p hp]
    cases he : hear s.lastFrom i with
    | none => rfl
    | some e => exact H' (List.ne_nil_of_mem hp) e he

/-- A datagram from elsewhere, and the join request goes there. -/
theorem joinRequest_to_stranger :
    ¬ Along (step .x86 testModule.host nextFree) (TalksOnlyTo .x86 testModule.host nextFree 0)
      { client := .registerNetworkSystem 0 [110] }
      [.receive 1 {} .zero (.still 0) 0, .sendJoinRequest 0] := by
  intro H
  have hrun : run (step .x86 testModule.host nextFree)
      { client := .registerNetworkSystem 0 [110] }
      [.receive 1 {} .zero (.still 0) 0] = some _ := rfl
  have hsecond := along_iff_forall_split.1 H [_] _ [] rfl _ hrun
  have hto := hsecond _ List.mem_cons_self
  revert hto
  decide

end Conversation

end NetSiege
