import NetSiege.Network.KnownCalls

/-!
# Calls between scripts

A `Game` is a server, its clients and a network that may lose, repeat and reorder packages. Scripts
on either side call procedures, and the packages carry the calls and their repetitions. The game
notes who called whom with what. In every run a script handler runs only for a call that a script of
the other side made to this one, and if both sides agree on the spec it gets the arguments of that
call (`called_by_script`).
-/

namespace NetSiege

open Lib ObjectManager UdpConnection

/-- A server, its clients and the packages either side ever sent, with the client's endpoint.
`calledAt e` are the calls the server's scripts made to the client at `e`, `calledBy e` those of
that client's scripts. -/
structure Game (ε σ : Type) [LinearOrder ε] where
  server : NetworkServer ε σ
  clients : ε → ClientProcess ε σ
  toClients : List (ε × Message WorldStateUpdate) := []
  toServer : List (ε × Message Unit) := []
  calledAt : ε → List ScriptCall := fun _ => []
  calledBy : ε → List ScriptCall := fun _ => []

namespace Game

variable {ε σ V : Type} [LinearOrder ε]

/-- What may happen next: something at the server or at a client that is no datagram, or the network
hands over a package that was sent at any time before. -/
inductive Input (ε σ : Type) where
  | server (i : NetworkServer.Input ε σ)
  | client (e : ε) (i : ClientProcess.Input ε σ)
  | atServer (k : Nat) (stack : RpcData) (clk : SteadyClock) (now : ε → Time)
  | atClient (k : Nat) (stack : RpcData) (clk : SteadyClock) (now : Time)

/-- A datagram arrives. -/
def isDatagramAtServer : NetworkServer.Input ε σ → Bool
  | .receive .. => true
  | _ => false

/-- A datagram arrives. -/
def isDatagramAtClient : ClientProcess.Input ε σ → Bool
  | .receive .. => true
  | _ => false

/-- The server did something. -/
def afterServer (g : Game ε σ) (i : NetworkServer.Input ε σ)
    (r : NetworkServer ε σ × Outgoing ε) : Game ε σ :=
  { g with
    server := r.1
    toClients := g.toClients ++ r.2
    calledAt := fun e => g.calledAt e ++
      if r.2.any (·.1 = e) then (g.server.scriptCall i).toList else [] }

/-- A client did something. What it sends elsewhere does not reach the server. -/
def afterClient (g : Game ε σ) (serverEndpoint e : ε) (i : ClientProcess.Input ε σ)
    (r : ClientProcess ε σ × List (Message Unit)) : Game ε σ :=
  { g with
    clients := Function.update g.clients e r.1
    toServer := g.toServer ++
      if r.1.remoteEndpoint = serverEndpoint then r.2.map (e, ·) else []
    calledBy := Function.update g.calledBy e
      (g.calledBy e ++ ((g.clients e).scriptCall i).toList) }

section
variable (P : Platform) (H : ScriptHost σ V) (alloc : Allocator σ) (serverEndpoint : ε)

/-- A step, if it comes through. -/
def step (g : Game ε σ) : Input ε σ → Option (Game ε σ)
  | .server i =>
    if isDatagramAtServer i then none
    else (g.server.next P H i).toOption.map (g.afterServer i)
  | .client e i =>
    if isDatagramAtClient i then none
    else ((g.clients e).next P H alloc i).toOption.map (g.afterClient serverEndpoint e i)
  | .atServer k stack clk now => g.toServer[k]?.bind fun (e, msg) =>
    let i : NetworkServer.Input ε σ := .receive e msg stack clk now
    (g.server.next P H i).toOption.map (g.afterServer i)
  | .atClient k stack clk now => g.toClients[k]?.bind fun (e, msg) =>
    let i : ClientProcess.Input ε σ := .receive serverEndpoint msg stack clk now
    ((g.clients e).next P H alloc i).toOption.map (g.afterClient serverEndpoint e i)

end

/-- The server and the clients before anything happens. -/
def start (m : Option (ObjectManager σ)) (serverEndpoint : ε) (names : ε → List UInt8) :
    Game ε σ where
  server := .registerNetworkSystem m
  clients e := .registerNetworkSystem serverEndpoint (names e)

/-! ## What is on the way -/

/-- All calls in packages and memories are known, and the handlers are where they belong. -/
structure Fair (g : Game ε σ) : Prop where
  server : g.server.Waits fun e => Known (g.calledAt e)
  clients : ∀ e, (g.clients e).toUdpConnection.Waits (Known (g.calledBy e))
  toClients : ∀ p ∈ g.toClients, ∀ rpc ∈ p.2.rpc, Known (g.calledAt p.1) rpc
  toServer : ∀ p ∈ g.toServer, ∀ rpc ∈ p.2.rpc, Known (g.calledBy p.1) rpc
  serverHandlers : g.server.HandlersApart
  clientHandlers : ∀ e, (g.clients e).HandlersApart

section
variable {P : Platform} {H : ScriptHost σ V} {alloc : Allocator σ} {serverEndpoint e : ε}
  {g g' : Game ε σ}

theorem fair_start (m : Option (ObjectManager σ)) (serverEndpoint : ε) (names : ε → List UInt8) :
    (start m serverEndpoint names).Fair where
  server _ _ hc := nomatch hc
  clients _ _ hinfo := nomatch hinfo
  toClients _ hp := nomatch hp
  toServer _ hp := nomatch hp
  serverHandlers := by
    have hempty : ({} : RPCDispatcher ServerCallback).HandlersApart := nofun
    exact (hempty.register (r := .addCpp 0 rpcIdJoinServerReq .joinRequest rpcArgsJoinServerReq)
      rfl).register (r := .addCpp 0 rpcIdJoinServerAck .joinAcknowledge rpcArgsJoinServerAck) rfl
  clientHandlers _ := by
    have hempty : ({} : RPCDispatcher ClientCallback).HandlersApart := nofun
    exact hempty.register (r := .addCpp 0 rpcIdJoinServerResp .joinResponse rpcArgsJoinServerResp)
      rfl

theorem Fair.afterServer (h : g.Fair) {i : NetworkServer.Input ε σ}
    {r : NetworkServer ε σ × Outgoing ε} (hnext : g.server.next P H i = .ok r) :
    (g.afterServer i r).Fair := by
  have hsub : ∀ e, g.calledAt e ⊆ (g.afterServer i r).calledAt e :=
    fun e => List.subset_append_left _ _
  have hwaits : g.server.Waits fun e => Known ((g.afterServer i r).calledAt e) :=
    fun e c hc => (h.server e c hc).mono fun _ hrpc => hrpc.mono (hsub e)
  have hhonest : NetworkServer.Honest (fun e => Known ((g.afterServer i r).calledAt e)) r := by
    refine NetworkServer.honest_next hwaits hnext (fun e => known_joinResponse _)
      fun call hcall e he rpc hcarried => .inr ⟨call, ?_, hcarried⟩
    obtain ⟨p, hp, rfl⟩ := List.mem_map.1 he
    have hsent : r.2.any (·.1 = p.1) = true := List.any_eq_true.2 ⟨p, hp, decide_eq_true rfl⟩
    refine List.mem_append_right _ ?_
    rw [if_pos hsent, hcall]
    exact List.mem_singleton_self _
  exact {
    server := hhonest.waits
    clients := h.clients
    toClients := fun p hp rpc hrpc => by
      rcases List.mem_append.1 hp with hp | hp
      · exact (h.toClients p hp rpc hrpc).mono (hsub p.1)
      · exact hhonest.sent p hp rpc hrpc
    toServer := h.toServer
    serverHandlers := h.serverHandlers.step (NetworkServer.next_dispatcher hnext)
    clientHandlers := h.clientHandlers }

theorem Fair.afterClient (h : g.Fair) {i : ClientProcess.Input ε σ}
    {r : ClientProcess ε σ × List (Message Unit)}
    (hnext : (g.clients e).next P H alloc i = .ok r) :
    (g.afterClient serverEndpoint e i r).Fair := by
  have hself : (g.afterClient serverEndpoint e i r).calledBy e =
      g.calledBy e ++ ((g.clients e).scriptCall i).toList := Function.update_self ..
  have hsub : ∀ e', g.calledBy e' ⊆ (g.afterClient serverEndpoint e i r).calledBy e' := by
    intro e'
    obtain rfl | hne := eq_or_ne e' e
    · exact hself ▸ List.subset_append_left _ _
    · exact (Function.update_of_ne hne _ g.calledBy).symm ▸ List.Subset.refl _
  have hhonest :
      ClientProcess.Honest (Known ((g.afterClient serverEndpoint e i r).calledBy e)) r := by
    have hwaits := (h.clients e).mono fun _ hrpc => hrpc.mono (hsub e)
    refine ClientProcess.honest_next hwaits hnext (fun _ => known_joinRequest)
      (fun loadSuccessfull _ msgSeqId => known_joinAcknowledge _ msgSeqId loadSuccessfull)
      fun call hcall rpc hcarried => .inr ⟨call, ?_, hcarried⟩
    rw [hself, hcall]
    exact List.mem_append_right _ (List.mem_singleton_self _)
  exact {
    server := h.server
    clients := fun e' => by
      obtain rfl | hne := eq_or_ne e' e
      · simpa only [Game.afterClient, Function.update_self] using hhonest.waits
      · simpa only [Game.afterClient, Function.update_of_ne hne] using h.clients e'
    toClients := h.toClients
    toServer := fun p hp rpc hrpc => by
      rcases List.mem_append.1 hp with hp | hp
      · exact (h.toServer p hp rpc hrpc).mono (hsub p.1)
      · split at hp
        · obtain ⟨msg, hmsg, rfl⟩ := List.mem_map.1 hp
          exact hhonest.sent msg hmsg rpc hrpc
        · cases hp
    serverHandlers := h.serverHandlers
    clientHandlers := fun e' => by
      obtain rfl | hne := eq_or_ne e' e
      · simpa only [Game.afterClient, Function.update_self] using
          (h.clientHandlers e').step (ClientProcess.next_dispatcher hnext)
      · simpa only [Game.afterClient, Function.update_of_ne hne] using h.clientHandlers e' }

theorem Fair.step (h : g.Fair) {i : Input ε σ}
    (hstep : g.step P H alloc serverEndpoint i = some g') : g'.Fair := by
  cases i with
  | server i =>
    obtain ⟨_, hstep⟩ := Option.ite_none_left_eq_some.1 hstep
    obtain ⟨r, hnext, rfl⟩ := toOption_map_eq_some.1 hstep
    exact h.afterServer hnext
  | client e i =>
    obtain ⟨_, hstep⟩ := Option.ite_none_left_eq_some.1 hstep
    obtain ⟨r, hnext, rfl⟩ := toOption_map_eq_some.1 hstep
    exact h.afterClient hnext
  | atServer k stack clk now =>
    obtain ⟨p, _, hstep⟩ := Option.bind_eq_some_iff.1 hstep
    obtain ⟨r, hnext, rfl⟩ := toOption_map_eq_some.1 hstep
    exact h.afterServer hnext
  | atClient k stack clk now =>
    obtain ⟨p, _, hstep⟩ := Option.bind_eq_some_iff.1 hstep
    obtain ⟨r, hnext, rfl⟩ := toOption_map_eq_some.1 hstep
    exact h.afterClient hnext

/-- **Scripts run for scripts.** After every run, whatever the network did: when a package the
server sent to a client makes a script function run there, it carries a call that a script of the
server made to this client, and if the handler understands the call, the function gets what that
script passed. The same holds of what clients send to the server. -/
theorem called_by_script {m : Option (ObjectManager σ)} {names : ε → List UInt8}
    {is : List (Input ε σ)}
    (hrun : run (step P H alloc serverEndpoint) (start m serverEndpoint names) is = some g) :
    (∀ e msg, (e, msg) ∈ g.toClients → ∀ rpc ∈ msg.rpc,
      (g.clients e).RunsForCall 0 rpc (g.calledAt e)) ∧
    ∀ e msg, (e, msg) ∈ g.toServer → ∀ rpc ∈ msg.rpc, ∀ senderId,
      g.server.RunsForCall senderId rpc (g.calledBy e) := by
  have hfair : g.Fair := run_invariant Fair (fun _ _ _ h hstep => h.step hstep)
    (fair_start m serverEndpoint names) hrun
  exact ⟨fun e msg hmsg rpc hrpc => (hfair.clientHandlers e).runsForCall
      (hfair.toClients (e, msg) hmsg rpc hrpc) 0,
    fun e msg hmsg rpc hrpc => hfair.serverHandlers.runsForCall
      (hfair.toServer (e, msg) hmsg rpc hrpc)⟩

end

/-- A script module with the function `onSay`. -/
def sayModule : ScriptModule where
  functionByName name := if name = "onSay" then some (onSay [.ofLetter 'c']) else none
  methodByName _ _ := none
  registerObjectMethod _ := true

/-- The client at 1 joins, both sides register `say`, and the server's script calls it. -/
def sayOnce : List (Input Nat testModule.Object) :=
  [.client 1 (.sendJoinRequest 0), .atServer 0 .zero (.still 0) fun _ => 0,
    .server (.registerRpc sayModule 16 "say" ['c']),
    .client 1 (.register (.registerRpc sayModule 16 "say" ['c'])),
    .client 1 (.register (.addFunc sayModule 0 16 "onSay")),
    .server (.call 0 "say" [.u8 5] fun _ => 0)]

/-- The client's handler runs for the call. -/
theorem called_by_script_say : ∃ g, run (step .x86 testModule.host nextFree 0)
      (start none 0 fun _ => [110]) sayOnce = some g ∧
    g.toClients.map (fun p => p.2.rpc.map (·.rpcId)) = [some 1, some 16] ∧
    ∀ e msg, (e, msg) ∈ g.toClients → ∀ rpc ∈ msg.rpc,
      (g.clients e).RunsForCall 0 rpc (g.calledAt e) := by
  have hrun : run (step .x86 testModule.host nextFree 0) (start none 0 fun _ => [110]) sayOnce =
    some _ := rfl
  exact ⟨_, hrun, rfl, (called_by_script hrun).1⟩

end Game

end NetSiege
