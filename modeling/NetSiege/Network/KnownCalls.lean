import NetSiege.Network.CallOrigins

/-!
# Known calls (`rpcdispatcher.cpp`, `networkserver.cpp`, `networkclient.cpp`)

`Known calls` is said of a call that has a reserved id or that is one of the calls scripts made.
The handlers with reserved ids are callbacks and all others are script functions
(`HandlersApart.step`), so that when a script function runs for a known call, a script made that
call (`HandlersApart.runsForCall`).
-/

namespace NetSiege

open Lib ObjectManager UdpConnection

/-- The call has an id of the C++ side, or is one of these. -/
def Known (calls : List ScriptCall) (rpc : RPC) : Prop :=
  rpc.rpcId.toUInt16 ≤ maxInternalRpcId ∨ ∃ call ∈ calls, call.CarriedBy rpc

theorem Known.mono {calls calls' : List ScriptCall} {rpc : RPC} (h : Known calls rpc)
    (hsub : calls ⊆ calls') : Known calls' rpc :=
  h.imp_right fun ⟨call, hcall, hcarried⟩ => ⟨call, hsub hcall, hcarried⟩

theorem known_joinResponse (calls : List ScriptCall) (msgSeqId : UInt32) (playerId : UInt16) :
    Known calls (joinResponseCall msgSeqId playerId) :=
  .inl (by decide : rpcIdJoinServerResp.toUInt32.toUInt16 ≤ maxInternalRpcId)

theorem known_joinAcknowledge (calls : List ScriptCall) (msgSeqId : UInt32)
    (loadSuccessfull : Bool) : Known calls (joinAcknowledgeCall msgSeqId loadSuccessfull) :=
  .inl (by decide : rpcIdJoinServerAck.toUInt32.toUInt16 ≤ maxInternalRpcId)

theorem known_joinRequest {calls : List ScriptCall} {rpc : RPC}
    (h : rpc.rpcId = rpcIdJoinServerReq.toUInt32) : Known calls rpc :=
  .inl (h ▸ (by decide : rpcIdJoinServerReq.toUInt32.toUInt16 ≤ maxInternalRpcId))

/-! ## The dispatchers -/

/-- The handler understands the call: it has the spec of the procedure, its function takes the
arguments, and these are of the spec's types, fit, and are readable in place. -/
structure ScriptCall.Understood (call : ScriptCall) (handler : Handler γ) : Prop where
  argSpec : handler.argSpec = call.procedure.argSpec
  takes : ∀ function, handler.function = some function → function.Takes call.slots
  letters : call.procedure.argSpec = call.slots.map Arg.letter
  fits : (encodeArgs call.slots).length ≤ maxRpcDataSize
  readable : ReadableInPlace call.slots

/-- A package that carries a call with arguments of the procedure's types holds their encoding. -/
theorem ScriptCall.CarriedBy.rpcData_eq {call : ScriptCall} {rpc : RPC} (h : call.CarriedBy rpc)
    (hletters : call.procedure.argSpec = call.slots.map Arg.letter)
    (hfits : (encodeArgs call.slots).length ≤ maxRpcDataSize) :
    rpc.rpcData = encodeArgs call.slots := by
  obtain ⟨package, n, hpush, hsize, _, hdata⟩ := h
  obtain ⟨package', hpush', hfill, _⟩ :=
    (RPCPackage.filled_make call.procedure.id).foldlM_push call.slots (by simpa using hfits)
  rw [hletters, pushArgs_eq_foldlM] at hpush
  obtain rfl := Except.ok.inj (hpush.symm.trans hpush')
  rw [List.nil_append, List.nil_append] at hfill
  obtain rfl := Except.ok.inj (hsize.symm.trans hfill.dataSize)
  rw [hdata, hfill.bytes]

namespace RPCDispatcher

variable {γ : Type} {d d' : RPCDispatcher γ}

/-- C++ callbacks have reserved ids, script functions others. -/
def HandlersApart (d : RPCDispatcher γ) : Prop :=
  ∀ k handler, d.handlers.find? k = some handler → handler.KeptApart

theorem HandlersApart.register {r : Registration γ} (h : d.HandlersApart)
    (hr : d.register r = some d') : d'.HandlersApart := by
  obtain ⟨-, -, rfl⟩ | ⟨handler, hhandler, -, rfl⟩ | ⟨_, _, -, -, rfl⟩ := register_cases hr
  · exact h
  · intro k handler' hfind
    dsimp only [enter] at hfind
    rw [OrdMap.find?_insert] at hfind
    split at hfind
    · cases hfind
      exact handlerOf_keptApart hhandler
    · exact h k handler' hfind
  · exact h

theorem buildCall_handlers {name : String} {slots : List Arg} {package : RPCPackage}
    (h : d.buildCall name slots = .ok (package, d')) : d'.handlers = d.handlers := by
  obtain ⟨_, _, h⟩ := bind_eq_ok.1 h
  dsimp only at h
  split at h
  · cases h
  · cases h
    rfl

/-- A script function runs for a call that is no reserved one. -/
theorem HandlersApart.script (h : d.HandlersApart) {senderId senderId' : UInt16} {id : RpcId}
    {data : List UInt8} {stack : RpcData} {function : ScriptFunction}
    {object : Option ScriptObjectRef} {args : List ParamValue}
    (hrun : d.executeReceivedCall senderId id data stack =
      .ok (some (.script function object senderId' args))) :
    maxInternalRpcId < id ∧ ∃ handler, d.findRpcHandler senderId id = some handler ∧
      handler.function = some function := by
  -- which procedures are registered does not matter to a received call
  have hapart : ReservedApart { d with procedures := ∅ } := ⟨h, fun _ _ hfind => nomatch hfind⟩
  refine ⟨hapart.executeReceivedCall hrun, ?_⟩
  unfold executeReceivedCall at hrun
  split at hrun
  · cases hrun
  next handler hfind =>
  obtain ⟨arrayData, _, hrun⟩ := bind_eq_ok.1 hrun
  refine ⟨handler, hfind, ?_⟩
  have hfind' : d.findRpcHandler senderId (RPCPackage.makeFrom id arrayData handler.argSpec).rpcId =
      some handler := hfind
  rw [executePackage, hfind'] at hrun
  dsimp only at hrun
  split at hrun
  · next hfunction =>
    obtain ⟨_, _, heq⟩ := bind_eq_ok.1 hrun
    cases heq
    exact hfunction
  · cases hrun
  · cases hrun

/-- A handler that understands a call gets its arguments. -/
theorem args_of_understood {senderId senderId' : UInt16} {rpc : RPC} {stack : RpcData}
    {function : ScriptFunction} {object : Option ScriptObjectRef} {args : List ParamValue}
    {call : ScriptCall} {handler : Handler γ}
    (hrun : d.executeReceivedCall senderId rpc.rpcId.toUInt16 rpc.rpcData stack =
      .ok (some (.script function object senderId' args)))
    (hcarried : call.CarriedBy rpc)
    (hfind : d.findRpcHandler senderId rpc.rpcId.toUInt16 = some handler)
    (hfunction : handler.function = some function) (hunderstood : call.Understood handler) :
    args = call.slots.map .arg := by
  rw [hcarried.rpcData_eq hunderstood.letters hunderstood.fits] at hrun
  have hgets := (executeReceivedCall_iff hfind hfunction
    (hunderstood.argSpec.trans hunderstood.letters) hunderstood.fits stack).2
    ⟨hunderstood.takes function hfunction, hunderstood.readable⟩
  rw [hrun] at hgets
  cases hgets
  rfl

/-- When a package with this call makes a script function run, the call is one of `calls`, and if
the handler understands it, the function gets its arguments. -/
def RunsForCall (d : RPCDispatcher γ) (senderId : UInt16) (rpc : RPC) (calls : List ScriptCall) :
    Prop :=
  ∀ stack function object senderId' args,
    d.executeReceivedCall senderId rpc.rpcId.toUInt16 rpc.rpcData stack =
        .ok (some (.script function object senderId' args)) →
      ∃ call ∈ calls, call.CarriedBy rpc ∧ ∃ handler,
        d.findRpcHandler senderId rpc.rpcId.toUInt16 = some handler ∧
          (call.Understood handler → args = call.slots.map .arg)

theorem HandlersApart.runsForCall (h : d.HandlersApart) {rpc : RPC} {calls : List ScriptCall}
    (hknown : Known calls rpc) (senderId : UInt16) : d.RunsForCall senderId rpc calls := by
  intro stack function object senderId' args hrun
  obtain ⟨hid, handler, hfind, hfunction⟩ := h.script hrun
  obtain hreserved | ⟨call, hcall, hcarried⟩ := hknown
  · exact absurd hreserved (UInt16.not_le.2 hid)
  · exact ⟨call, hcall, hcarried, handler, hfind,
      args_of_understood hrun hcarried hfind hfunction⟩

/-- What a step of a server or a client can do to its dispatcher. -/
inductive Step (d : RPCDispatcher γ) : RPCDispatcher γ → Prop
  | none : Step d d
  | register (r : Registration γ) {d' : RPCDispatcher γ} (h : d.register r = some d') : Step d d'
  | call (name : String) (slots : List Arg) {package : RPCPackage} {d' : RPCDispatcher γ}
      (h : d.buildCall name slots = .ok (package, d')) : Step d d'

theorem step_of_eq (h : d' = d) : d.Step d' := h ▸ .none

theorem HandlersApart.step (h : d.HandlersApart) (hstep : d.Step d') : d'.HandlersApart := by
  cases hstep with
  | none => exact h
  | register r hr => exact h.register hr
  | call name slots hbuild =>
    intro k handler hfind
    exact h k handler (buildCall_handlers hbuild ▸ hfind)

end RPCDispatcher

open RPCDispatcher (step_of_eq)

/-! ## The dispatcher after a step -/

namespace NetworkServer

variable {ε σ V : Type} [LinearOrder ε] {P : Platform} {H : ScriptHost σ V}
  {s : NetworkServer ε σ} {e : ε} {r : NetworkServer ε σ × Outgoing ε}

theorem remoteProcedureCall_dispatcher {now : ε → Time} {clientId : UInt16} {package : RPCPackage}
    (h : s.remoteProcedureCall now clientId package = .ok r) :
    r.1.toRPCDispatcher = s.toRPCDispatcher := by
  obtain ⟨_, _, heq⟩ := bind_eq_ok.1 h
  cases heq
  rfl

theorem invoke_dispatcher {now : ε → Time} {invocation : Option (Invocation ServerCallback)}
    (h : s.invoke H now invocation = .ok r) : r.1.toRPCDispatcher = s.toRPCDispatcher := by
  unfold invoke at h
  split at h
  · obtain ⟨_, _, h⟩ := bind_eq_ok.1 h
    obtain ⟨_, _, h⟩ := bind_eq_ok.1 h
    obtain ⟨_, _, h⟩ := bind_eq_ok.1 h
    obtain ⟨r2, hcall, h⟩ := bind_eq_ok.1 h
    dsimp only at h
    split at h
    · cases h
    · cases h
      exact remoteProcedureCall_dispatcher (s := s.activate _) hcall
  · obtain ⟨_, _, h⟩ := bind_eq_ok.1 h
    dsimp only at h
    split at h
    · cases h
    split at h
    · split at h
      · cases h
      · obtain ⟨_, _, heq⟩ := bind_eq_ok.1 h
        cases heq
        rfl
    · cases h
      rfl
  · cases h
    rfl

/-- A datagram registers nothing. -/
theorem handleReceive_dispatcher {msg : Message Unit} {stack : RpcData} {clk : SteadyClock}
    {now : ε → Time} (h : s.handleReceive P H e msg stack clk now = .ok r) :
    r.1.toRPCDispatcher = s.toRPCDispatcher := by
  obtain ⟨invocation, _, h⟩ := bind_eq_ok.1 h
  obtain ⟨r1, hinvoke, heq⟩ := bind_eq_ok.1 h
  cases heq
  have hparse : (s.parse P e msg clk).1.toRPCDispatcher = s.toRPCDispatcher := by
    simp only [parse, connect]
    split <;> rfl
  exact (invoke_dispatcher hinvoke).trans hparse

theorem sync_dispatcher {now : Time} {closed : List ε} (h : s.sync H now closed = .ok r) :
    r.1.toRPCDispatcher = s.toRPCDispatcher := by
  unfold sync at h
  split at h
  · cases h
  dsimp only at h
  split at h
  · cases h
    rfl
  · obtain ⟨_, _, heq⟩ := bind_eq_ok.1 h
    cases heq
    rfl

theorem next_dispatcher {i : Input ε σ} (h : s.next P H i = .ok r) :
    s.toRPCDispatcher.Step r.1.toRPCDispatcher := by
  cases i with
  | receive e msg stack clk now => exact step_of_eq (handleReceive_dispatcher h)
  | sync now closed => exact step_of_eq (sync_dispatcher h)
  | addRpcHandlerFunc M clientId id funcname =>
    obtain ⟨⟨_, d⟩, hd, heq⟩ := bind_eq_ok.1 h
    cases heq
    exact .register (.addFunc M clientId id funcname) (toOption_map_eq_some.2 ⟨_, hd, rfl⟩)
  | addRpcHandlerMethod M clientId id object funcname argspec =>
    cases h
    exact .register (.addMethod M clientId id object funcname argspec) rfl
  | registerRpc M id name argspec =>
    obtain ⟨⟨_, d⟩, hd, heq⟩ := bind_eq_ok.1 h
    cases heq
    exact .register (.registerRpc M id name argspec) (toOption_map_eq_some.2 ⟨_, hd, rfl⟩)
  | call clientId name slots now =>
    obtain ⟨⟨package, d⟩, hbuild, h⟩ := bind_eq_ok.1 h
    obtain ⟨_, _, heq⟩ := bind_eq_ok.1 h
    cases heq
    exact .call name slots hbuild
  | world op =>
    simp only [next] at h
    split at h
    · cases h
    · cases h
      exact .none

end NetworkServer

namespace ClientProcess

variable {ε σ V : Type} {P : Platform} {H : ScriptHost σ V} {alloc : Allocator σ}
  {c : ClientProcess ε σ} {r : ClientProcess ε σ × List (Message Unit)}

theorem next_dispatcher {i : Input ε σ} (h : c.next P H alloc i = .ok r) :
    c.toRPCDispatcher.Step r.1.toRPCDispatcher := by
  cases i with
  | receive e msg stack clk now =>
    obtain ⟨_, _, heq⟩ := bind_eq_ok.1 h
    cases heq
    exact .none
  | sendJoinRequest now =>
    obtain ⟨_, _, h⟩ := bind_eq_ok.1 h
    obtain ⟨_, _, h⟩ := bind_eq_ok.1 h
    dsimp only at h
    split at h
    · cases h
    · obtain ⟨_, _, heq⟩ := bind_eq_ok.1 h
      cases heq
      exact .none
  | call name slots now =>
    obtain ⟨⟨package, d⟩, hbuild, h⟩ := bind_eq_ok.1 h
    obtain ⟨_, _, heq⟩ := bind_eq_ok.1 h
    cases heq
    exact .call name slots hbuild
  | register r' =>
    simp only [next] at h
    split at h
    · cases h
    · next hr =>
      cases h
      exact .register r' hr
  | setJoinAcceptHandler callback =>
    cases h
    exact .none
  | setObjectManager manager =>
    cases h
    exact .none
  | world op =>
    simp only [next] at h
    split at h
    · cases h
    · cases h
      exact .none

end ClientProcess

end NetSiege
