import NetSiege.Network.JoinMessages

/-!
# Joining over a network (`networkserver.cpp`, `networkclient.cpp`)

A `Meeting` is a server, one of its clients, and a network between them that may reorder and repeat
packages but loses none. Whatever else the server and the client do, and whoever else talks to the
server: once the client has asked to join, a message of the handshake is on the way, or the server
has sent it the full state (`OnCourse`). No message of the handshake gets stuck, and three
deliveries are enough to get in (`join_goes_through`).
-/

namespace NetSiege

open Lib ObjectManager UdpConnection

/-! ## The ids of procedures -/

namespace RPCDispatcher

variable {γ : Type} {d d' : RPCDispatcher γ}

/-- Procedures have no reserved ids. One that was called without being registered has the id 0. -/
def ProceduresApart (d : RPCDispatcher γ) : Prop :=
  ∀ name procedure, d.procedures.find? name = some procedure →
    procedure.id = 0 ∨ maxInternalRpcId < procedure.id

theorem ProceduresApart.called (h : d.ProceduresApart) (name : String) :
    ((d.procedures.find? name).getD {}).id = 0 ∨
      maxInternalRpcId < ((d.procedures.find? name).getD {}).id := by
  cases hfind : d.procedures.find? name with
  | none => exact .inl rfl
  | some procedure => exact h name procedure hfind

theorem ProceduresApart.insert (h : d.ProceduresApart) (name : String) {procedure : Procedure}
    (hid : procedure.id = 0 ∨ maxInternalRpcId < procedure.id) :
    ProceduresApart { d with procedures := d.procedures.insert name procedure } := by
  intro name' procedure' hfind
  rw [OrdMap.find?_insert] at hfind
  split at hfind
  · cases hfind
    exact hid
  · exact h name' procedure' hfind

theorem ProceduresApart.step (h : d.ProceduresApart) (hstep : d.Step d') : d'.ProceduresApart := by
  cases hstep with
  | none => exact h
  | register r hr =>
    obtain ⟨-, -, rfl⟩ | ⟨handler, -, -, rfl⟩ | ⟨name, procedure, -, hprocedure, rfl⟩ :=
      register_cases hr
    · exact h
    · exact h
    · exact h.insert name (.inr (procedureOf_eq_some hprocedure).1)
  | call name slots hbuild =>
    obtain ⟨_, _, hbuild⟩ := bind_eq_ok.1 hbuild
    dsimp only at hbuild
    split at hbuild
    · cases hbuild
    · cases hbuild
      exact h.insert name (h.called name)

end RPCDispatcher

/-- A script sends no reserved calls but join requests. -/
theorem ScriptCall.CarriedBy.unreserved {call : ScriptCall} {rpc : RPC} (h : call.CarriedBy rpc)
    (hid : call.procedure.id = 0 ∨ maxInternalRpcId < call.procedure.id) :
    rpc.rpcId.toUInt16 = 0 ∨ maxInternalRpcId < rpc.rpcId.toUInt16 := by
  obtain ⟨_, _, _, _, hrpc, _⟩ := h
  rwa [hrpc, UInt16.toUInt16_toUInt32]

theorem genuine_of_unreserved {rpc : RPC}
    (h : rpc.rpcId.toUInt16 = 0 ∨ maxInternalRpcId < rpc.rpcId.toUInt16) : Genuine rpc := by
  intro hresp
  rw [hresp] at h
  exact absurd h (by decide)

theorem accepting_of_unreserved {rpc : RPC}
    (h : rpc.rpcId.toUInt16 = 0 ∨ maxInternalRpcId < rpc.rpcId.toUInt16) : Accepting rpc := by
  intro hack
  rw [hack] at h
  exact absurd h (by decide)

/-! ## A server, a client and a network -/

/-- The packages left when the `k`th is handed over, which the network may keep to hand it over
`again`. -/
def leftOf {α : Type} (queue : List α) (k : Nat) (again : Bool) : List α :=
  if again then queue else queue.eraseIdx k

theorem mem_leftOf {α : Type} {queue : List α} {k : Nat} {x y : α} (hx : queue[k]? = some x)
    (hy : y ∈ queue) (again : Bool) : y ∈ leftOf queue k again ∨ y = x := by
  unfold leftOf
  split
  · exact .inl hy
  · obtain ⟨j, hj⟩ := List.mem_iff_getElem?.1 hy
    obtain rfl | hne := eq_or_ne j k
    · exact .inr (Option.some.inj (hj.symm.trans hx))
    · exact .inl (List.mem_eraseIdx_iff_getElem?.2 ⟨j, hne, hj⟩)

theorem mem_of_mem_leftOf {α : Type} {queue : List α} {k : Nat} {again : Bool} {x : α}
    (h : x ∈ leftOf queue k again) : x ∈ queue := by
  unfold leftOf at h
  split at h
  · exact h
  · exact List.mem_of_mem_eraseIdx h

section
variable {β : Type} {msgs msgs' : List (Message β)} {msg : Message β} {id : RpcId} {k : Nat}

theorem OnTheWay.append_left (h : OnTheWay msgs id) : OnTheWay (msgs ++ msgs') id := by
  obtain ⟨msg, hmsg, hcarries⟩ := h
  exact ⟨msg, List.mem_append_left _ hmsg, hcarries⟩

theorem OnTheWay.append_right (h : OnTheWay msgs' id) : OnTheWay (msgs ++ msgs') id := by
  obtain ⟨msg, hmsg, hcarries⟩ := h
  exact ⟨msg, List.mem_append_right _ hmsg, hcarries⟩

theorem onTheWay_singleton :
    OnTheWay [msg] id ↔ ∃ rpc, msg.rpc = some rpc ∧ rpc.rpcId.toUInt16 = id := by
  simp [OnTheWay]

/-- A call that was on the way still is, or it was handed over. -/
theorem OnTheWay.leftOf (h : OnTheWay msgs id) (hk : msgs[k]? = some msg) (again : Bool) :
    OnTheWay (leftOf msgs k again) id ∨ OnTheWay [msg] id := by
  obtain ⟨msg', hmsg', hcarries⟩ := h
  obtain hleft | rfl := mem_leftOf hk hmsg' again
  · exact .inl ⟨msg', hleft, hcarries⟩
  · exact .inr ⟨msg', List.mem_singleton_self _, hcarries⟩

theorem any_carries_iff :
    (msgs.any fun msg => msg.rpc.any (·.rpcId.toUInt16 == id)) = true ↔ OnTheWay msgs id := by
  simp [OnTheWay, Option.any_eq_true]

end

/-- A server, one of its clients and the packages on the way between them. `asked` tells whether the
client sent a join request, `answered` whether it sent a join acknowledgement, `welcomed` whether
the server answered it with a full state. -/
structure Meeting (ε σ : Type) [LinearOrder ε] where
  server : NetworkServer ε σ
  client : ClientProcess ε σ
  toServer : List (Message Unit) := []
  toClient : List (Message WorldStateUpdate) := []
  asked : Bool := false
  answered : Bool := false
  welcomed : Bool := false

namespace Meeting

variable {ε σ V : Type} [LinearOrder ε]

/-- What may happen next: something at the server or at the client, or the network hands over a
package. -/
inductive Input (ε σ : Type) where
  | server (i : NetworkServer.Input ε σ)
  | client (i : ClientProcess.Input ε σ)
  | atServer (k : Nat) (again : Bool) (stack : RpcData) (clk : SteadyClock) (now : ε → Time)
  | atClient (k : Nat) (again : Bool) (stack : RpcData) (clk : SteadyClock) (now : Time)

/-- The network hands over a package. -/
def Input.IsDelivery : Input ε σ → Prop
  | .atServer .. | .atClient .. => True
  | _ => False

/-- The client asks to join. -/
def asks : ClientProcess.Input ε σ → Bool
  | .sendJoinRequest _ => true
  | _ => false

/-- The server did something. -/
def afterServer (g : Meeting ε σ) (e : ε) (r : NetworkServer ε σ × Outgoing ε) : Meeting ε σ :=
  { g with server := r.1, toClient := g.toClient ++ r.2.to e }

/-- The client did something. What it sends elsewhere does not reach the server. -/
def afterClient (g : Meeting ε σ) (serverEndpoint : ε)
    (r : ClientProcess ε σ × List (Message Unit)) : Meeting ε σ :=
  { g with
    client := r.1
    toServer := g.toServer ++ if r.1.remoteEndpoint = serverEndpoint then r.2 else []
    answered := g.answered ||
      r.2.any fun msg => msg.rpc.any (·.rpcId.toUInt16 == rpcIdJoinServerAck) }

section
variable (P : Platform) (H : ScriptHost σ V) (alloc : Allocator σ) (serverEndpoint e : ε)

/-- A step, if it comes through. The client is at the endpoint `e`. -/
def step (g : Meeting ε σ) : Input ε σ → Option (Meeting ε σ)
  | .server i => (g.server.next P H i).toOption.map (g.afterServer e)
  | .client i =>
    let asked := g.asked || asks i
    (g.client.next P H alloc i).toOption.map ({ g with asked }.afterClient serverEndpoint)
  | .atServer k again stack clk now => g.toServer[k]?.bind fun msg =>
    (g.server.next P H (.receive e msg stack clk now)).toOption.map fun r =>
      let welcomed := g.welcomed || (r.2.to e).any (·.body.isSome)
      { g with toServer := leftOf g.toServer k again, welcomed }.afterServer e r
  | .atClient k again stack clk now => g.toClient[k]?.bind fun msg =>
    (g.client.next P H alloc (.receive serverEndpoint msg stack clk now)).toOption.map
      ({ g with toClient := leftOf g.toClient k again }.afterClient serverEndpoint)

end

/-- A server and a client before anything happens. -/
def start (m : Option (ObjectManager σ)) (serverEndpoint : ε) (playerName : List UInt8) :
    Meeting ε σ where
  server := .registerNetworkSystem m
  client := .registerNetworkSystem serverEndpoint playerName

/-- How far the handshake is. A client that asked has a request on the way, or the server has taken
it and a response is on the way, until the client answers one; from then on, an acknowledgement is
on the way or the server has answered it. -/
structure OnCourse (g : Meeting ε σ) (e : ε) : Prop where
  asking : g.asked = true → g.answered = false →
    OnTheWay g.toServer rpcIdJoinServerReq ∨
      g.server.Serves e ∧ OnTheWay g.toClient rpcIdJoinServerResp
  answering : g.answered = true →
    OnTheWay g.toServer rpcIdJoinServerAck ∨ g.server.Serves e ∧ g.welcomed = true

/-- The callbacks of the handshake are in place, that of the client until it has answered, the
client ids fit into 16 bits, and the join handler is a willing one. -/
structure Attentive (g : Meeting ε σ) : Prop where
  hearsJoins : g.server.HearsJoins
  hearsOnlyResponses : g.client.HearsOnlyResponses
  hearsResponses : g.answered = false → g.client.HearsResponses
  few : g.server.nextClientId < 65536
  accepts : ∀ callback, g.client.acceptCallback = some callback → AcceptsJoin callback

/-- Both are attentive, all other packages the server gets come from other endpoints, the client
gets no others, and its session is not closed. -/
def Undisturbed (e : ε) (g : Meeting ε σ) (i : Input ε σ) : Prop :=
  g.Attentive ∧ match i with
    | .server i => i.Spares e
    | .client i => i.sender = none
    | _ => True

/-- The join handler is there, the server has a world it can write, and a client id left. -/
structure Equipped (H : ScriptHost σ V) (g : Meeting ε σ) : Prop extends g.Attentive where
  handler : ∃ callback, g.client.acceptCallback = some callback
  world : ∃ m updatedObjects, g.server.objectManager = some m ∧
    m.serializeFull H = .ok updatedObjects

section
variable (P : Platform) (H : ScriptHost σ V) (alloc : Allocator σ) (serverEndpoint e : ε)
  (g : Meeting ε σ)

/-- So many deliveries at most can get the client in. -/
def EndsIn (n : Nat) : Prop :=
  ∃ is : List (Input ε σ), is.length ≤ n ∧ (∀ i ∈ is, i.IsDelivery) ∧
    ∃ g', run (step P H alloc serverEndpoint e) g is = some g' ∧ g'.server.Serves e ∧
      g'.welcomed = true

end

/-! ## What is on the way -/

/-- What is on the way, and what either side may send again, is what the handshake is made of. -/
structure Sound (serverEndpoint : ε) (g : Meeting ε σ) : Prop where
  numbered : g.server.Numbered
  server : g.server.Waits fun _ => Genuine
  client : g.client.toUdpConnection.Waits Accepting
  toServer : ∀ msg ∈ g.toServer, ∀ rpc ∈ msg.rpc, Accepting rpc
  toClient : ∀ msg ∈ g.toClient, ∀ rpc ∈ msg.rpc, Genuine rpc
  serverProcedures : g.server.ProceduresApart
  clientProcedures : g.client.ProceduresApart
  endpoint : g.client.remoteEndpoint = serverEndpoint

section
variable {P : Platform} {H : ScriptHost σ V} {alloc : Allocator σ} {serverEndpoint e : ε}
  {g g' : Meeting ε σ}

theorem Sound.afterServer (h : g.Sound serverEndpoint) {i : NetworkServer.Input ε σ}
    {r : NetworkServer ε σ × Outgoing ε} (hfew : g.server.nextClientId < 65536)
    (hnext : g.server.next P H i = .ok r) (e : ε) :
    (g.afterServer e r).Sound serverEndpoint := by
  have hhonest : NetworkServer.Honest (fun _ => Genuine) r := by
    refine NetworkServer.honest_next h.server hnext
      (fun _ msgSeqId playerId _ => ⟨msgSeqId, playerId, rfl⟩) fun call hcall _ _ rpc hcarried => ?_
    cases i with
    | call clientId name slots now =>
      cases hcall
      exact genuine_of_unreserved (hcarried.unreserved (h.serverProcedures.called name))
    | _ => cases hcall
  exact { h with
    numbered := NetworkServer.numbered_next h.numbered hfew hnext
    server := hhonest.waits
    toClient := fun msg hmsg rpc hrpc => by
      rcases List.mem_append.1 hmsg with hmsg | hmsg
      · exact h.toClient msg hmsg rpc hrpc
      · exact hhonest.sent (e, msg) (Outgoing.mem_to.1 hmsg) rpc hrpc
    serverProcedures := h.serverProcedures.step (NetworkServer.next_dispatcher hnext) }

theorem Sound.afterClient (h : g.Sound serverEndpoint) {i : ClientProcess.Input ε σ}
    {r : ClientProcess ε σ × List (Message Unit)} (hsender : ∀ e ∈ i.sender, e = serverEndpoint)
    (hanswer : ∀ loadSuccessfull, g.client.AnswersIn loadSuccessfull i → loadSuccessfull = true)
    (hnext : g.client.next P H alloc i = .ok r) :
    (g.afterClient serverEndpoint r).Sound serverEndpoint := by
  have hhonest : ClientProcess.Honest Accepting r := by
    refine ClientProcess.honest_next h.client hnext (fun rpc hrpc => ?_) ?_ ?_
    · exact accepting_of_unreserved (.inl (by rw [hrpc]; rfl))
    · intro loadSuccessfull hanswers msgSeqId _
      exact ⟨msgSeqId, by rw [hanswer loadSuccessfull hanswers]⟩
    · intro call hcall rpc hcarried
      cases i with
      | call name slots now =>
        cases hcall
        exact accepting_of_unreserved (hcarried.unreserved (h.clientProcedures.called name))
      | _ => cases hcall
  exact { h with
    client := hhonest.waits
    toServer := fun msg hmsg rpc hrpc => by
      rcases List.mem_append.1 hmsg with hmsg | hmsg
      · exact h.toServer msg hmsg rpc hrpc
      · split at hmsg
        · exact hhonest.sent msg hmsg rpc hrpc
        · cases hmsg
    clientProcedures := h.clientProcedures.step (ClientProcess.next_dispatcher hnext)
    endpoint := by
      refine (ClientProcess.next_endpoint hnext).trans ?_
      cases hi : i.sender with
      | none => exact h.endpoint
      | some e => exact hsender e hi }

theorem Sound.leftOf_toServer (h : g.Sound serverEndpoint) (k : Nat) (again welcomed : Bool) :
    Sound serverEndpoint { g with toServer := leftOf g.toServer k again, welcomed } :=
  { h with toServer := fun msg hmsg => h.toServer msg (mem_of_mem_leftOf hmsg) }

theorem Sound.leftOf_toClient (h : g.Sound serverEndpoint) (k : Nat) (again : Bool) :
    Sound serverEndpoint { g with toClient := leftOf g.toClient k again } :=
  { h with toClient := fun msg hmsg => h.toClient msg (mem_of_mem_leftOf hmsg) }

/-- In every undisturbed step. -/
theorem Sound.step {i : Input ε σ} (h : g.Sound serverEndpoint) (hi : Undisturbed e g i)
    (hstep : g.step P H alloc serverEndpoint e i = some g') : g'.Sound serverEndpoint := by
  obtain ⟨hattentive, hi⟩ := hi
  cases i with
  | server i =>
    obtain ⟨r, hnext, rfl⟩ := toOption_map_eq_some.1 hstep
    exact h.afterServer hattentive.few hnext e
  | client i =>
    obtain ⟨r, hnext, rfl⟩ := toOption_map_eq_some.1 hstep
    have hasked : Sound serverEndpoint { g with asked := g.asked || asks i } := { h with }
    refine hasked.afterClient ?_ ?_ hnext
    · exact fun e he => nomatch hi.symm.trans he
    · intro loadSuccessfull hanswers
      cases i with
      | receive => cases hi
      | _ => cases hanswers
  | atServer k again stack clk now =>
    obtain ⟨msg, _, hstep⟩ := Option.bind_eq_some_iff.1 hstep
    obtain ⟨r, hnext, rfl⟩ := toOption_map_eq_some.1 hstep
    exact (h.leftOf_toServer k again _).afterServer hattentive.few hnext e
  | atClient k again stack clk now =>
    obtain ⟨msg, hmsg, hstep⟩ := Option.bind_eq_some_iff.1 hstep
    obtain ⟨r, hnext, rfl⟩ := toOption_map_eq_some.1 hstep
    refine (h.leftOf_toClient k again).afterClient ?_ ?_ hnext
    · intro e he
      exact (Option.some.inj he).symm
    · intro loadSuccessfull hanswers
      exact hanswers.accepted hattentive.hearsOnlyResponses hattentive.accepts
        (h.toClient msg (List.mem_of_getElem? hmsg))

/-! ## How the handshake goes on -/

section
variable {msg : Message Unit} {r : NetworkServer ε σ × Outgoing ε} {stack : RpcData}
  {clk : SteadyClock} {now : ε → Time}

/-- The server takes a join request. -/
theorem Sound.request_taken (h : g.Sound serverEndpoint) (hattentive : g.Attentive)
    (hreq : OnTheWay [msg] rpcIdJoinServerReq) (stack : RpcData) (clk : SteadyClock)
    (now : ε → Time) :
    ∃ r, g.server.next P H (.receive e msg stack clk now) = .ok r ∧ r.1.Serves e ∧
      r.1.objectManager = g.server.objectManager ∧ OnTheWay (r.2.to e) rpcIdJoinServerResp := by
  obtain ⟨rpc, hrpc, hid⟩ := onTheWay_singleton.1 hreq
  exact NetworkServer.answers_joinRequest hattentive.hearsJoins h.numbered hattentive.few hrpc hid
    stack clk now

/-- The server takes a join acknowledgement. -/
theorem Sound.acknowledgement_taken (h : g.Sound serverEndpoint) (hattentive : g.Attentive)
    (hmsg : msg ∈ g.toServer) (hack : OnTheWay [msg] rpcIdJoinServerAck)
    (hworld : ∃ m updatedObjects, g.server.objectManager = some m ∧
      m.serializeFull H = .ok updatedObjects) (stack : RpcData) (clk : SteadyClock)
    (now : ε → Time) :
    ∃ r, g.server.next P H (.receive e msg stack clk now) = .ok r ∧ r.1.Serves e ∧
      (r.2.to e).any (·.body.isSome) = true := by
  obtain ⟨rpc, hrpc, hid⟩ := onTheWay_singleton.1 hack
  obtain ⟨msgSeqId, rfl⟩ := h.toServer msg hmsg rpc hrpc hid
  obtain ⟨m, updatedObjects, hm, hserialize⟩ := hworld
  obtain ⟨r, hr, hserves, out, hout, hbody⟩ := NetworkServer.answers_joinAcknowledge (P := P)
    hattentive.hearsJoins h.numbered hattentive.few hm hserialize hrpc stack clk now
  exact ⟨r, hr, hserves, List.any_eq_true.2 ⟨out, hout, by rw [hbody]; rfl⟩⟩

variable (P H alloc) in
/-- The client takes a join response. -/
theorem Sound.response_taken (h : g.Sound serverEndpoint) (hhears : g.client.HearsResponses)
    {msg : Message WorldStateUpdate} (hmsg : msg ∈ g.toClient)
    (hresp : OnTheWay [msg] rpcIdJoinServerResp)
    (hhandler : ∃ callback, g.client.acceptCallback = some callback) (stack : RpcData)
    (clk : SteadyClock) (now : Time) :
    ∃ r, g.client.next P H alloc (.receive serverEndpoint msg stack clk now) = .ok r ∧
      OnTheWay r.2 rpcIdJoinServerAck := by
  obtain ⟨rpc, hrpc, hid⟩ := onTheWay_singleton.1 hresp
  obtain ⟨msgSeqId, playerId, rfl⟩ := h.toClient msg hmsg rpc hrpc hid
  obtain ⟨callback, hcallback⟩ := hhandler
  exact ClientProcess.answers_joinResponse hhears hcallback hrpc serverEndpoint stack clk now

/-- The server gets a package of the client. -/
theorem OnCourse.atServer (hcourse : g.OnCourse e) (h : g.Sound serverEndpoint)
    (hattentive : g.Attentive) {k : Nat} (hk : g.toServer[k]? = some msg)
    (hnext : g.server.next P H (.receive e msg stack clk now) = .ok r) (again : Bool) :
    OnCourse ({ g with
      toServer := leftOf g.toServer k again
      welcomed := g.welcomed || (r.2.to e).any (·.body.isSome) }.afterServer e r) e := by
  have hmsg := List.mem_of_getElem? hk
  have hserves (hserves : g.server.Serves e) : r.1.Serves e :=
    hserves.handleReceive hattentive.hearsJoins h.numbered hattentive.few (h.toServer msg hmsg)
      hnext
  refine ⟨fun hasked hanswered => ?_, fun hanswered => ?_⟩
  · obtain hreq | ⟨hold, hresp⟩ := hcourse.asking hasked hanswered
    · obtain hleft | hreq := hreq.leftOf hk again
      · exact .inl hleft
      · obtain ⟨r', hr', hnew, _, hresp⟩ := h.request_taken (P := P) (H := H) (e := e) hattentive
          hreq stack clk now
        cases hnext.symm.trans hr'
        exact .inr ⟨hnew, hresp.append_right⟩
    · exact .inr ⟨hserves hold, hresp.append_left⟩
  · obtain hack | ⟨hold, hwelcomed⟩ := hcourse.answering hanswered
    · obtain hleft | hack := hack.leftOf hk again
      · exact .inl hleft
      · obtain ⟨rpc, hrpc, hid⟩ := onTheWay_singleton.1 hack
        obtain ⟨msgSeqId, rfl⟩ := h.toServer msg hmsg rpc hrpc hid
        have hworld := NetworkServer.exists_world_of_joinAcknowledge hattentive.hearsJoins hrpc
          hnext
        obtain ⟨r', hr', hnew, hbody⟩ := h.acknowledgement_taken (P := P) (e := e) hattentive hmsg
          hack hworld stack clk now
        cases hnext.symm.trans hr'
        exact .inr ⟨hnew, Bool.or_eq_true_iff.2 (.inr hbody)⟩
    · exact .inr ⟨hserves hold, Bool.or_eq_true_iff.2 (.inl hwelcomed)⟩

end

/-- What the client sends is on the way to the server. -/
theorem onTheWay_afterClient {r : ClientProcess ε σ × List (Message Unit)} {id : RpcId}
    (h : OnTheWay r.2 id) (hendpoint : r.1.remoteEndpoint = serverEndpoint) :
    OnTheWay (g.afterClient serverEndpoint r).toServer id := by
  refine OnTheWay.append_right ?_
  rwa [if_pos hendpoint]

theorem afterClient_answering {r : ClientProcess ε σ × List (Message Unit)}
    (hold : g.answered = true → OnTheWay g.toServer rpcIdJoinServerAck ∨
      g.server.Serves e ∧ g.welcomed = true)
    (hendpoint : r.1.remoteEndpoint = serverEndpoint)
    (hanswered : (g.afterClient serverEndpoint r).answered = true) :
    OnTheWay (g.afterClient serverEndpoint r).toServer rpcIdJoinServerAck ∨
      g.server.Serves e ∧ g.welcomed = true := by
  obtain hanswered | hnew := Bool.or_eq_true_iff.1 hanswered
  · exact (hold hanswered).imp_left OnTheWay.append_left
  · exact .inl (onTheWay_afterClient (any_carries_iff.1 hnew) hendpoint)

/-- The client gets a package of the server. -/
theorem OnCourse.atClient (hcourse : g.OnCourse e) (h : g.Sound serverEndpoint)
    (hattentive : g.Attentive) {msg : Message WorldStateUpdate} {stack : RpcData}
    {clk : SteadyClock} {now : Time} {k : Nat} (hk : g.toClient[k]? = some msg)
    {r : ClientProcess ε σ × List (Message Unit)}
    (hnext : g.client.next P H alloc (.receive serverEndpoint msg stack clk now) = .ok r)
    (again : Bool) :
    OnCourse ({ g with toClient := leftOf g.toClient k again }.afterClient serverEndpoint r) e := by
  have hmsg := List.mem_of_getElem? hk
  have hendpoint : r.1.remoteEndpoint = serverEndpoint := ClientProcess.next_endpoint hnext
  refine ⟨fun hasked hanswered => ?_,
    afterClient_answering (g := { g with toClient := leftOf g.toClient k again })
      hcourse.answering hendpoint⟩
  obtain ⟨hold, hnone⟩ := Bool.or_eq_false_iff.1 hanswered
  obtain hreq | ⟨hserves, hresp⟩ := hcourse.asking hasked hold
  · exact .inl hreq.append_left
  · refine .inr ⟨hserves, ?_⟩
    obtain hleft | hresp := hresp.leftOf hk again
    · exact hleft
    · have hhears := hattentive.hearsResponses hold
      obtain ⟨rpc, hrpc, hid⟩ := onTheWay_singleton.1 hresp
      obtain ⟨msgSeqId, playerId, rfl⟩ := h.toClient msg hmsg rpc hrpc hid
      have hhandler := ClientProcess.exists_handler_of_joinResponse hhears hrpc hnext
      obtain ⟨r', hr', hack⟩ := h.response_taken P H alloc hhears hmsg
        hresp hhandler stack clk now
      cases hnext.symm.trans hr'
      cases hnone.symm.trans (any_carries_iff.2 hack)

/-- The client does something else. -/
theorem OnCourse.client {i : ClientProcess.Input ε σ} (hcourse : g.OnCourse e)
    (h : g.Sound serverEndpoint) (hsender : i.sender = none)
    {r : ClientProcess ε σ × List (Message Unit)} (hnext : g.client.next P H alloc i = .ok r) :
    OnCourse ({ g with asked := g.asked || asks i }.afterClient serverEndpoint r) e := by
  have hendpoint : r.1.remoteEndpoint = serverEndpoint :=
    (ClientProcess.next_endpoint hnext).trans (by rw [hsender, Option.getD_none, h.endpoint])
  refine ⟨fun hasked hanswered => ?_,
    afterClient_answering (g := { g with asked := g.asked || asks i }) hcourse.answering hendpoint⟩
  obtain ⟨hanswered, _⟩ := Bool.or_eq_false_iff.1 hanswered
  obtain hasked | hasks := Bool.or_eq_true_iff.1 hasked
  · exact (hcourse.asking hasked hanswered).imp_left OnTheWay.append_left
  · cases i with
    | sendJoinRequest now =>
      exact .inl (onTheWay_afterClient (ClientProcess.sendJoinRequest_carries hnext) hendpoint)
    | _ => cases hasks

/-- In every undisturbed step. -/
theorem OnCourse.step {i : Input ε σ} (hcourse : g.OnCourse e) (h : g.Sound serverEndpoint)
    (hi : Undisturbed e g i) (hstep : g.step P H alloc serverEndpoint e i = some g') :
    g'.OnCourse e := by
  obtain ⟨hattentive, hi⟩ := hi
  cases i with
  | server i =>
    obtain ⟨r, hnext, rfl⟩ := toOption_map_eq_some.1 hstep
    have hserves (hserves : g.server.Serves e) : r.1.Serves e :=
      hserves.next h.numbered hattentive.few hi hnext
    exact ⟨fun hasked hanswered => (hcourse.asking hasked hanswered).imp_right
        (And.imp hserves OnTheWay.append_left),
      fun hanswered => (hcourse.answering hanswered).imp_right (And.imp_left hserves)⟩
  | client i =>
    obtain ⟨r, hnext, rfl⟩ := toOption_map_eq_some.1 hstep
    exact hcourse.client h hi hnext
  | atServer k again stack clk now =>
    obtain ⟨msg, hk, hstep⟩ := Option.bind_eq_some_iff.1 hstep
    obtain ⟨r, hnext, rfl⟩ := toOption_map_eq_some.1 hstep
    exact hcourse.atServer h hattentive hk hnext again
  | atClient k again stack clk now =>
    obtain ⟨msg, hk, hstep⟩ := Option.bind_eq_some_iff.1 hstep
    obtain ⟨r, hnext, rfl⟩ := toOption_map_eq_some.1 hstep
    exact hcourse.atClient h hattentive hk hnext again

/-! ## Getting in -/

theorem EndsIn.cons {i : Input ε σ} {n : Nat}
    (hstep : g.step P H alloc serverEndpoint e i = some g') (hi : i.IsDelivery)
    (h : g'.EndsIn P H alloc serverEndpoint e n) : g.EndsIn P H alloc serverEndpoint e (n + 1) := by
  obtain ⟨is, hlength, hdelivery, g'', hrun, hend⟩ := h
  refine ⟨i :: is, Nat.succ_le_succ hlength, List.forall_mem_cons.2 ⟨hi, hdelivery⟩, g'', ?_, hend⟩
  rw [run_cons, hstep, Option.bind_some, hrun]

theorem EndsIn.mono {n n' : Nat} (h : g.EndsIn P H alloc serverEndpoint e n) (hle : n ≤ n') :
    g.EndsIn P H alloc serverEndpoint e n' := by
  obtain ⟨is, hlength, hrest⟩ := h
  exact ⟨is, hlength.trans hle, hrest⟩

/-- The server can still answer after a package that changed neither its world nor its number of
clients by more than one. -/
theorem Equipped.atServer (h : g.Equipped H) (hroom : g.server.nextClientId < 65535)
    {msg : Message Unit} {stack : RpcData} {clk : SteadyClock} {now : ε → Time}
    {r : NetworkServer ε σ × Outgoing ε}
    (hnext : g.server.next P H (.receive e msg stack clk now) = .ok r)
    (hworld : r.1.objectManager = g.server.objectManager) (toServer : List (Message Unit))
    (welcomed : Bool) :
    Equipped H ({ g with toServer, welcomed }.afterServer e r) := by
  have hsame := NetworkServer.handleReceive_dispatcher hnext
  have hhears : r.1.HearsJoins := by
    rw [NetworkServer.HearsJoins, hsame]
    exact h.hearsJoins
  have hfew : r.1.nextClientId ≤ 65535 :=
    (NetworkServer.retains_handleReceive hnext).nextClientId ▸
      NetworkServer.nextClientId_connect_le hroom e
  exact {
    hearsJoins := hhears
    hearsOnlyResponses := h.hearsOnlyResponses
    hearsResponses := h.hearsResponses
    few := UInt64.lt_of_le_of_lt hfew (by decide)
    accepts := h.accepts
    handler := h.handler
    world := by
      obtain ⟨m, updatedObjects, hm, hserialize⟩ := h.world
      exact ⟨m, updatedObjects, hworld.trans hm, hserialize⟩ }

/-- What arrives at the client leaves it as it is otherwise. -/
theorem Equipped.atClient (h : g.Equipped H) {msg : Message WorldStateUpdate} {stack : RpcData}
    {clk : SteadyClock} {now : Time} {r : ClientProcess ε σ × List (Message Unit)}
    (hnext : g.client.next P H alloc (.receive serverEndpoint msg stack clk now) = .ok r)
    (toClient : List (Message WorldStateUpdate)) :
    Equipped H ({ g with toClient }.afterClient serverEndpoint r) := by
  obtain ⟨_, _, heq⟩ := bind_eq_ok.1 hnext
  cases heq
  exact { h with
    hearsResponses := fun hanswered => h.hearsResponses (Bool.or_eq_false_iff.1 hanswered).1 }

end

end Meeting

end NetSiege
