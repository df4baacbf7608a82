import NetSiege.Lib.Run
import NetSiege.Network.RpcDispatcher

/-!
# Registrations of calls and handlers (`rpcdispatcher.cpp`)

A history of a dispatcher is a list of calls of `registerRpc` and of the overloads of
`addRpcHandler`. `register_cases` says once what such a call can do: nothing, enter one handler, or
enter one procedure. Three properties of histories follow from it: whether registered handlers stay
(`handlers_kept_iff`), whether both ends of a call agree on its arguments (`argSpecs_agree_iff`),
and that reserved ids stay with the C++ side (`reserved_ids_kept_apart`).
-/

namespace NetSiege

open Lib

variable {γ : Type}

/-- A call of `registerRpc` or of an overload of `addRpcHandler`, with the script module it asks. -/
inductive Registration (γ : Type) where
  | registerRpc (M : ScriptModule) (id : RpcId) (name : String) (argspec : List Char)
  | addCpp (clientId : UInt16) (id : RpcId) (function : γ) (argspec : List Char)
  | addFunc (M : ScriptModule) (clientId : UInt16) (id : RpcId) (funcname : String)
  | addMethod (M : ScriptModule) (clientId : UInt16) (id : RpcId)
      (object : Option ScriptObjectRef) (funcname : String) (argspec : List Char)

/-- Whether a handler is a C++ callback. -/
def Handler.isCpp (handler : Handler γ) : Bool := handler.cppFunction.isSome

/-- A C++ callback with a reserved id or a script function with another id. -/
inductive Handler.KeptApart (handler : Handler γ) : Prop
  | cpp (hid : handler.id ≤ maxInternalRpcId) (hfunction : handler.function = none)
      (hcpp : handler.isCpp = true)
  | script (hid : maxInternalRpcId < handler.id) (hfunction : handler.function.isSome = true)
      (hcpp : handler.isCpp = false)

namespace RPCDispatcher

/-- The dispatcher after a call, `none` when an assertion fails in it. -/
def register (d : RPCDispatcher γ) : Registration γ → Option (RPCDispatcher γ)
  | .registerRpc M id name argspec => (d.registerRpc M id name argspec).toOption.map (·.2)
  | .addCpp clientId id function argspec =>
    some (d.addRpcHandlerCpp clientId id function argspec).2
  | .addFunc M clientId id funcname =>
    (d.addRpcHandlerFunc M clientId id funcname).toOption.map (·.2)
  | .addMethod M clientId id object funcname argspec =>
    some (d.addRpcHandlerMethod M clientId id object funcname argspec).2

/-- The handler a call enters, `none` when it is rejected. -/
def handlerOf (d : RPCDispatcher γ) : Registration γ → Option (Handler γ)
  | .registerRpc .. => none
  | .addCpp clientId id function argspec =>
    if id ≤ maxInternalRpcId then
      some { id, cppFunction := some function, argSpec := argspec, clientId }
    else none
  | .addFunc M clientId id funcname =>
    if maxInternalRpcId < id then
      (M.functionByName funcname).bind fun function =>
        if argSpecFromFunction function = some (d.getArgSpecForRpc id) then
          some { id, function := some function, argSpec := d.getArgSpecForRpc id, clientId }
        else none
    else none
  | .addMethod M clientId id object funcname argspec =>
    if maxInternalRpcId < id then
      object.bind fun object => (M.methodByName object.typeName funcname).map fun function =>
        { id, function := some function, object := some object, argSpec := argspec, clientId }
    else none

/-- The procedure a call enters under a name that is not known yet. -/
def procedureOf (d : RPCDispatcher γ) : Registration γ → Option (String × Procedure)
  | .registerRpc M id name argspec =>
    (argSpec2decl name argspec).toOption.bind fun decl =>
      if maxInternalRpcId < id ∧ d.procedures.find? name = none ∧
          M.registerObjectMethod decl = true then
        some (name, { id, argSpec := argspec })
      else none
  | _ => none

/-- The key of a new handler: the RPC id for a C++ callback, the next handler id for a script. -/
def slotOf (d : RPCDispatcher γ) (handler : Handler γ) : HandlerId :=
  if handler.isCpp then Fin.ofNat _ handler.id.toNat else d.nextHandlerId

/-- The dispatcher with a new handler. -/
def enter (d : RPCDispatcher γ) (handler : Handler γ) : RPCDispatcher γ :=
  { d with
    handlers := d.handlers.insert (d.slotOf handler) handler
    nextHandlerId := if handler.isCpp then d.nextHandlerId else d.nextHandlerId + 1 }

/-- What a call does. -/
inductive Effect (d : RPCDispatcher γ) (r : Registration γ) (d' : RPCDispatcher γ) : Prop
  | nothing (hhandler : d.handlerOf r = none) (hprocedure : d.procedureOf r = none) (heq : d' = d)
  | handler (handler : Handler γ) (hhandler : d.handlerOf r = some handler)
      (hprocedure : d.procedureOf r = none) (heq : d' = d.enter handler)
  | procedure (name : String) (procedure : Procedure) (hhandler : d.handlerOf r = none)
      (hprocedure : d.procedureOf r = some (name, procedure))
      (heq : d' = { d with procedures := d.procedures.insert name procedure })

variable {d d' : RPCDispatcher γ} {r : Registration γ} {handler : Handler γ}

theorem registerRpc_effect {M : ScriptModule} {id : RpcId} {name : String} {argspec : List Char}
    {b : Bool} (h : d.registerRpc M id name argspec = .ok (b, d')) :
    d.Effect (.registerRpc M id name argspec) d' := by
  obtain ⟨decl, hdecl, h⟩ := bind_eq_ok.1 h
  split at h
  · next hid =>
    cases h
    exact .nothing rfl (by simp [procedureOf, hdecl, UInt16.not_lt.2 hid]) rfl
  · next hid =>
    split at h
    · next procedure hfind =>
      cases h
      exact .nothing rfl (by simp [procedureOf, hdecl, hfind]) rfl
    · next hfind =>
      split at h
      · cases h
      · next hmethod =>
        cases h
        exact .procedure name { id, argSpec := argspec } rfl
          (by simp_all [procedureOf, UInt16.not_le.1 hid, Except.toOption]) rfl

theorem addRpcHandlerFunc_effect {M : ScriptModule} {clientId : UInt16} {id : RpcId}
    {funcname : String} {k : HandlerId}
    (h : d.addRpcHandlerFunc M clientId id funcname = .ok (k, d')) :
    d.Effect (.addFunc M clientId id funcname) d' := by
  rw [addRpcHandlerFunc] at h
  split at h
  · next hid =>
    cases h
    exact .nothing (by simp [handlerOf, UInt16.not_lt.2 hid]) rfl rfl
  · next hid =>
    have hid := UInt16.not_le.1 hid
    split at h
    · next hfind =>
      cases h
      exact .nothing (by simp [handlerOf, hfind]) rfl rfl
    · next function hfind =>
      dsimp only at h
      split at h
      · next hspec =>
        obtain ⟨-, -, h⟩ := bind_eq_ok.1 h
        cases h
        exact .nothing (by simp [handlerOf, hfind, hspec]) rfl rfl
      · next hspec =>
        cases h
        exact .handler _ (by simp [handlerOf, hfind, hid, not_not.1 hspec]; rfl) rfl rfl

/-- What a registration can do. -/
theorem register_cases (h : d.register r = some d') : d.Effect r d' := by
  cases r with
  | registerRpc M id name argspec =>
    obtain ⟨⟨b, _⟩, hr, rfl⟩ := toOption_map_eq_some.1 h
    exact registerRpc_effect hr
  | addCpp clientId id function argspec =>
    cases h
    rw [addRpcHandlerCpp]
    split
    · next hid => exact .nothing (by simp [handlerOf, UInt16.not_le.2 hid]) rfl rfl
    · next hid => exact .handler _ (by simp [handlerOf, UInt16.not_lt.1 hid]; rfl) rfl rfl
  | addFunc M clientId id funcname =>
    obtain ⟨⟨k, _⟩, hr, rfl⟩ := toOption_map_eq_some.1 h
    exact addRpcHandlerFunc_effect hr
  | addMethod M clientId id object funcname argspec =>
    cases h
    cases object with
    | none => exact .nothing (by simp [handlerOf]) rfl rfl
    | some object =>
      dsimp only [addRpcHandlerMethod]
      split
      · next hid => exact .nothing (by simp [handlerOf, UInt16.not_lt.2 hid]) rfl rfl
      · next hid =>
        have hid := UInt16.not_le.1 hid
        split
        · next hfind => exact .nothing (by simp [handlerOf, hfind]) rfl rfl
        · next function hfind => exact .handler _ (by simp [handlerOf, hfind, hid]; rfl) rfl rfl

theorem handlerOf_keptApart (h : d.handlerOf r = some handler) : handler.KeptApart := by
  cases r with
  | registerRpc M id name argspec => cases h
  | addCpp clientId id function argspec =>
    obtain ⟨hid, h⟩ := Option.ite_none_right_eq_some.1 h
    cases h
    exact .cpp hid rfl rfl
  | addFunc M clientId id funcname =>
    obtain ⟨hid, h⟩ := Option.ite_none_right_eq_some.1 h
    obtain ⟨function, -, h⟩ := Option.bind_eq_some_iff.1 h
    obtain ⟨-, h⟩ := Option.ite_none_right_eq_some.1 h
    cases h
    exact .script hid rfl rfl
  | addMethod M clientId id object funcname argspec =>
    obtain ⟨hid, h⟩ := Option.ite_none_right_eq_some.1 h
    obtain ⟨object, -, h⟩ := Option.bind_eq_some_iff.1 h
    obtain ⟨function, -, h⟩ := Option.map_eq_some_iff.1 h
    cases h
    exact .script hid rfl rfl

theorem procedureOf_eq_some {name : String} {procedure : Procedure}
    (h : d.procedureOf r = some (name, procedure)) :
    maxInternalRpcId < procedure.id ∧ d.procedures.find? name = none := by
  cases r with
  | registerRpc M id name argspec =>
    obtain ⟨decl, -, h⟩ := Option.bind_eq_some_iff.1 h
    obtain ⟨⟨hid, hfind, -⟩, h⟩ := Option.ite_none_right_eq_some.1 h
    cases h
    exact ⟨hid, hfind⟩
  | addCpp | addFunc | addMethod => cases h

/-! ## Reserved ids -/

/-- The C++ side has the reserved ids to itself. -/
structure ReservedApart (d : RPCDispatcher γ) : Prop where
  handlers : ∀ k handler, d.handlers.find? k = some handler → handler.KeptApart
  procedures : ∀ name procedure, d.procedures.find? name = some procedure →
    maxInternalRpcId < procedure.id

theorem reservedApart_empty : ({} : RPCDispatcher γ).ReservedApart :=
  ⟨(fun _ _ h => nomatch h), fun _ _ h => nomatch h⟩

theorem ReservedApart.register (H : d.ReservedApart) (h : d.register r = some d') :
    d'.ReservedApart := by
  obtain ⟨-, -, rfl⟩ | ⟨handler, hhandler, -, rfl⟩ | ⟨name, procedure, -, hprocedure, rfl⟩ :=
    register_cases h
  · exact H
  · refine ⟨fun k handler' hfind => ?_, H.procedures⟩
    dsimp only [enter] at hfind
    rw [OrdMap.find?_insert] at hfind
    split at hfind
    · cases hfind
      exact handlerOf_keptApart hhandler
    · exact H.handlers k handler' hfind
  · refine ⟨H.handlers, fun name' procedure' hfind => ?_⟩
    dsimp only at hfind
    rw [OrdMap.find?_insert] at hfind
    split at hfind
    · cases hfind
      exact (procedureOf_eq_some hprocedure).1
    · exact H.procedures name' procedure' hfind

theorem ReservedApart.run {calls : List (Registration γ)} (H : d.ReservedApart)
    (h : Lib.run RPCDispatcher.register d calls = some d') : d'.ReservedApart :=
  run_invariant ReservedApart (fun _ _ _ H h => H.register h) H h

/-- What runs for a call with this id: a C++ callback for a reserved id, a script function for
another. -/
def RunsFor (id : RpcId) : Invocation γ → Prop
  | .script .. => maxInternalRpcId < id
  | .cpp .. => id ≤ maxInternalRpcId

theorem ReservedApart.found (H : d.ReservedApart) {senderId : UInt16} {id : RpcId}
    {handler : Handler γ} (h : d.findRpcHandler senderId id = some handler) :
    handler.id = id ∧ handler.KeptApart := by
  obtain ⟨k, ⟨hmem, hid, -⟩, -⟩ := findRpcHandler_eq_some.1 h
  exact ⟨hid, H.handlers k handler hmem⟩

theorem ReservedApart.executePackage (H : d.ReservedApart) {senderId : UInt16}
    {package : RPCPackage} {invocation : Invocation γ}
    (h : d.executePackage senderId package = .ok (some invocation)) :
    RunsFor package.rpcId invocation := by
  rw [RPCDispatcher.executePackage] at h
  split at h
  · cases h
  · next handler hfind =>
    obtain ⟨hid, hapart⟩ := H.found hfind
    rw [← hid]
    cases hapart with
    | cpp hle hfunction hcpp =>
      obtain ⟨callback, hcallback⟩ := Option.isSome_iff_exists.1 hcpp
      rw [hfunction, hcallback] at h
      cases h
      exact hle
    | script hlt hfunction _ =>
      obtain ⟨function, hfunction⟩ := Option.isSome_iff_exists.1 hfunction
      rw [hfunction] at h
      obtain ⟨args, -, h⟩ := bind_eq_ok.1 h
      cases h
      exact hlt

theorem ReservedApart.executeReceivedCall (H : d.ReservedApart) {senderId : UInt16} {id : RpcId}
    {data : List UInt8} {stack : RpcData} {invocation : Invocation γ}
    (h : d.executeReceivedCall senderId id data stack = .ok (some invocation)) :
    RunsFor id invocation := by
  rw [RPCDispatcher.executeReceivedCall] at h
  split at h
  · cases h
  · obtain ⟨arrayData, -, h⟩ := bind_eq_ok.1 h
    exact H.executePackage h

end RPCDispatcher

theorem pushArgs_rpcId {argSpec : List Char} {slots : List Arg} {package package' : RPCPackage}
    (h : pushArgs package argSpec slots = .ok package') : package'.rpcId = package.rpcId := by
  induction argSpec generalizing package slots with
  | nil =>
    cases h
    rfl
  | cons c argSpec ih =>
    obtain ⟨arg, -, h⟩ := bind_eq_ok.1 h
    obtain ⟨⟨pushed, package1⟩, hpush, h⟩ := bind_eq_ok.1 h
    exact (ih h).trans (RPCPackage.push_rpcId hpush)

namespace RPCDispatcher

/-- The package of a call has the id of its procedure. -/
theorem buildCall_rpcId {d d' : RPCDispatcher γ} {slots : List Arg} {package : RPCPackage}
    {procedure : Procedure} (hfind : d.procedures.find? name = some procedure)
    (h : d.buildCall name slots = .ok (package, d')) : package.rpcId = procedure.id := by
  obtain ⟨package1, hpush, h⟩ := bind_eq_ok.1 h
  rw [hfind, Option.getD_some] at hpush
  dsimp only at h
  split at h
  · cases h
  · cases h
    exact pushArgs_rpcId hpush

/-- **Scripts can neither answer nor forge reserved calls.** After every history of registrations, a
call with a reserved id never runs a script function and a call with another id never runs a C++
callback, nor is such a handler found for a call that traps while its arguments are popped; and the
packages of registered procedures have no reserved id. -/
theorem reserved_ids_kept_apart {calls : List (Registration γ)} {d : RPCDispatcher γ}
    (h : Lib.run register {} calls = some d) :
    (∀ senderId id handler, d.findRpcHandler senderId id = some handler →
      handler.id = id ∧ handler.KeptApart) ∧
    (∀ senderId package invocation,
      d.executePackage senderId package = .ok (some invocation) →
        RunsFor package.rpcId invocation) ∧
    (∀ senderId id data stack invocation,
      d.executeReceivedCall senderId id data stack = .ok (some invocation) →
        RunsFor id invocation) ∧
    ∀ name procedure slots package d', d.procedures.find? name = some procedure →
      d.buildCall name slots = .ok (package, d') → maxInternalRpcId < package.rpcId := by
  have H : d.ReservedApart := reservedApart_empty.run h
  refine ⟨fun _ _ _ => H.found, fun _ _ _ => H.executePackage,
    fun _ _ _ _ _ => H.executeReceivedCall, ?_⟩
  intro name procedure slots package d' hfind hbuild
  rw [buildCall_rpcId hfind hbuild]
  exact H.procedures name procedure hfind

/-- A script module whose only method is `f`, without parameters but the sender. -/
def oneMethod : ScriptModule where
  functionByName _ := none
  methodByName _ _ := some ⟨"f", [.ofLetter 's']⟩
  registerObjectMethod _ := true

/-- The handler of the server's join acknowledgement. -/
def joinAcknowledge : Handler Bool :=
  { id := 2, cppFunction := some true, argSpec := ['c'], clientId := 0 }

/-- The method `f` of a script object, as handler of a call. -/
def methodHandler (id : RpcId) (argSpec : List Char) : Handler Bool where
  id
  function := some ⟨"f", [.ofLetter 's']⟩
  object := some ⟨"Chat", 1⟩
  argSpec
  clientId := 0

/-- A server with the join acknowledgement, the procedure `f` and its handler. -/
def chatServer : RPCDispatcher Bool where
  handlers := ((∅ : OrdMap HandlerId (Handler Bool)).insert 2 joinAcknowledge).insert 1
    (methodHandler 16 [])
  procedures := (∅ : OrdMap String Procedure).insert "f" { id := 16 }
  nextHandlerId := 2

theorem reserved_ids_kept_apart_chatServer :
    Lib.run register {} [.addCpp 0 2 true ['c'], .registerRpc oneMethod 16 "f" [],
        .addMethod oneMethod 0 16 (some ⟨"Chat", 1⟩) "f" []] = some chatServer ∧
      ∀ senderId id data stack invocation,
        chatServer.executeReceivedCall senderId id data stack = .ok (some invocation) →
          RunsFor id invocation := by
  have hrun : Lib.run register {} [.addCpp 0 2 true ['c'], .registerRpc oneMethod 16 "f" [],
      .addMethod oneMethod 0 16 (some ⟨"Chat", 1⟩) "f" []] = some chatServer := rfl
  exact ⟨hrun, (reserved_ids_kept_apart hrun).2.2.1⟩

/-! ## Argument specs -/

/-- Some procedure has this id, and every procedure that has it has this argument spec. -/
def Declares (d : RPCDispatcher γ) (id : RpcId) (argSpec : List Char) : Prop :=
  (∃ name procedure, d.procedures.find? name = some procedure ∧ procedure.id = id) ∧
    ∀ name procedure, d.procedures.find? name = some procedure → procedure.id = id →
      procedure.argSpec = argSpec

/-- The argument spec of a handler is that of the procedures and that of its own function. -/
def SpecAgrees (d : RPCDispatcher γ) (handler : Handler γ) : Prop :=
  d.Declares handler.id handler.argSpec ∧
    ∀ function, handler.function = some function →
      argSpecFromFunction function = some handler.argSpec

/-- Both ends of every call with a script handler agree on its arguments. -/
def ArgSpecsAgree (d : RPCDispatcher γ) : Prop :=
  ∀ k handler, d.handlers.find? k = some handler → handler.isCpp = false → d.SpecAgrees handler

/-- What the calls would have to check. A new procedure must have the argument spec of the handlers
with its id; the id of a handler must belong to some procedure and to no two with different
argument specs; and the argument spec of a method must be that of its parameters. -/
def ChecksSpec (d : RPCDispatcher γ) : Registration γ → Prop
  | .registerRpc M id name argspec =>
    d.procedureOf (.registerRpc M id name argspec) ≠ none →
      ∀ k handler, d.handlers.find? k = some handler → handler.isCpp = false →
        handler.id = id → argspec = handler.argSpec
  | .addCpp .. => True
  | .addFunc M clientId id funcname =>
    d.handlerOf (.addFunc M clientId id funcname) ≠ none → d.Declares id (d.getArgSpecForRpc id)
  | .addMethod M clientId id object funcname argspec =>
    ∀ handler, d.handlerOf (.addMethod M clientId id object funcname argspec) = some handler →
      d.Declares id argspec ∧
        ∀ function, handler.function = some function → argSpecFromFunction function = some argspec

section
variable {d d' : RPCDispatcher γ} {r : Registration γ} {handler : Handler γ}

theorem register_of_handlerOf (h : d.handlerOf r = some handler) :
    d.register r = some (d.enter handler) := by
  cases hr : d.register r with
  | none =>
    cases r with
    | registerRpc M id name argspec => cases h
    | addCpp clientId id function argspec => cases hr
    | addFunc M clientId id funcname =>
      obtain ⟨hid, h⟩ := Option.ite_none_right_eq_some.1 h
      obtain ⟨function, hfind, h⟩ := Option.bind_eq_some_iff.1 h
      obtain ⟨hspec, -⟩ := Option.ite_none_right_eq_some.1 h
      simp [register, addRpcHandlerFunc, UInt16.not_le.2 hid, hfind, hspec, Except.toOption] at hr
    | addMethod M clientId id object funcname argspec => cases hr
  | some d' =>
    cases register_cases hr with
    | nothing hhandler => cases h.symm.trans hhandler
    | handler handler' hhandler _ heq =>
      cases h.symm.trans hhandler
      rw [heq]
    | procedure _ _ hhandler => cases h.symm.trans hhandler

theorem register_of_procedureOf {name : String} {procedure : Procedure}
    (h : d.procedureOf r = some (name, procedure)) :
    d.register r = some { d with procedures := d.procedures.insert name procedure } := by
  cases r with
  | registerRpc M id name argspec =>
    obtain ⟨decl, hdecl, h⟩ := Option.bind_eq_some_iff.1 h
    obtain ⟨⟨hid, hfind, hmethod⟩, h⟩ := Option.ite_none_right_eq_some.1 h
    cases h
    cases hd : argSpec2decl name argspec with
    | error e => simp [hd, Except.toOption] at hdecl
    | ok decl' =>
      simp only [hd, Except.toOption, Option.some.injEq] at hdecl
      simp [register, registerRpc, hd, hdecl, UInt16.not_le.2 hid, hfind, hmethod, bind,
        Except.bind, Except.toOption]
  | addCpp | addFunc | addMethod => cases h

theorem ArgSpecsAgree.enter_iff (H : d.ArgSpecsAgree) :
    (d.enter handler).ArgSpecsAgree ↔ (handler.isCpp = false → d.SpecAgrees handler) := by
  constructor
  · intro H' hscript
    exact H' (d.slotOf handler) handler OrdMap.find?_insert_self hscript
  · intro hnew k handler' hfind hscript
    dsimp only [enter] at hfind
    rw [OrdMap.find?_insert] at hfind
    split at hfind
    · cases hfind
      exact hnew hscript
    · exact H k handler' hfind hscript

theorem ArgSpecsAgree.insert_iff (H : d.ArgSpecsAgree) {name : String} {procedure : Procedure}
    (hfresh : d.procedures.find? name = none) :
    ({ d with procedures := d.procedures.insert name procedure } : RPCDispatcher γ).ArgSpecsAgree ↔
      ∀ k handler, d.handlers.find? k = some handler → handler.isCpp = false →
        handler.id = procedure.id → procedure.argSpec = handler.argSpec := by
  constructor
  · intro H' k handler hfind hscript hid
    exact (H' k handler hfind hscript).1.2 name procedure OrdMap.find?_insert_self hid.symm
  · intro hnew k handler hfind hscript
    obtain ⟨⟨⟨name1, procedure1, hfind1, hid1⟩, hall⟩, hfunction⟩ := H k handler hfind hscript
    have hne : name1 ≠ name := by
      rintro rfl
      rw [hfresh] at hfind1
      cases hfind1
    refine ⟨⟨⟨name1, procedure1, (OrdMap.find?_insert_of_ne hne).trans hfind1, hid1⟩, ?_⟩,
      hfunction⟩
    intro name2 procedure2 hfind2 hid2
    dsimp only at hfind2
    rw [OrdMap.find?_insert] at hfind2
    split at hfind2
    · cases hfind2
      exact hnew k handler hfind hscript hid2.symm
    · exact hall name2 procedure2 hfind2 hid2

/-- One call keeps the argument specs in agreement if and only if it checks them. -/
theorem ArgSpecsAgree.register_iff (H : d.ArgSpecsAgree) :
    (∀ d', d.register r = some d' → d'.ArgSpecsAgree) ↔
      (∀ handler, d.handlerOf r = some handler → handler.isCpp = false → d.SpecAgrees handler) ∧
      ∀ name procedure, d.procedureOf r = some (name, procedure) →
        ∀ k handler, d.handlers.find? k = some handler → handler.isCpp = false →
          handler.id = procedure.id → procedure.argSpec = handler.argSpec := by
  constructor
  · intro H'
    refine ⟨fun handler hhandler => ?_, fun name procedure hprocedure => ?_⟩
    · exact H.enter_iff.1 (H' _ (register_of_handlerOf hhandler))
    · exact (H.insert_iff (procedureOf_eq_some hprocedure).2).1
        (H' _ (register_of_procedureOf hprocedure))
  · intro hchecks d' h
    obtain ⟨-, -, rfl⟩ | ⟨handler, hhandler, -, rfl⟩ | ⟨name, procedure, -, hprocedure, rfl⟩ :=
      register_cases h
    · exact H
    · exact H.enter_iff.2 (hchecks.1 handler hhandler)
    · exact (H.insert_iff (procedureOf_eq_some hprocedure).2).2
        (hchecks.2 name procedure hprocedure)

theorem procedureOf_registerRpc {M : ScriptModule} {id : RpcId} {name name' : String}
    {argspec : List Char} {procedure : Procedure}
    (h : d.procedureOf (.registerRpc M id name argspec) = some (name', procedure)) :
    procedure = { id, argSpec := argspec } := by
  obtain ⟨decl, -, h⟩ := Option.bind_eq_some_iff.1 h
  obtain ⟨-, h⟩ := Option.ite_none_right_eq_some.1 h
  cases h
  rfl

/-- The overload for functions takes the argument spec of the function it has checked. -/
theorem handlerOf_addFunc {M : ScriptModule} {clientId : UInt16} {id : RpcId} {funcname : String}
    (h : d.handlerOf (.addFunc M clientId id funcname) = some handler) :
    handler.isCpp = false ∧
      (d.SpecAgrees handler ↔ d.Declares id (d.getArgSpecForRpc id)) := by
  obtain ⟨-, h⟩ := Option.ite_none_right_eq_some.1 h
  obtain ⟨function, -, h⟩ := Option.bind_eq_some_iff.1 h
  obtain ⟨hspec, h⟩ := Option.ite_none_right_eq_some.1 h
  cases h
  refine ⟨rfl, and_iff_left ?_⟩
  intro function' hfunction
  cases hfunction
  exact hspec

theorem handlerOf_addMethod {M : ScriptModule} {clientId : UInt16} {id : RpcId}
    {object : Option ScriptObjectRef} {funcname : String} {argspec : List Char}
    (h : d.handlerOf (.addMethod M clientId id object funcname argspec) = some handler) :
    handler.isCpp = false ∧ handler.id = id ∧ handler.argSpec = argspec := by
  obtain ⟨-, h⟩ := Option.ite_none_right_eq_some.1 h
  obtain ⟨object, -, h⟩ := Option.bind_eq_some_iff.1 h
  obtain ⟨function, -, h⟩ := Option.map_eq_some_iff.1 h
  cases h
  exact ⟨rfl, rfl, rfl⟩

theorem checksSpec_iff :
    d.ChecksSpec r ↔
      (∀ handler, d.handlerOf r = some handler → handler.isCpp = false → d.SpecAgrees handler) ∧
      ∀ name procedure, d.procedureOf r = some (name, procedure) →
        ∀ k handler, d.handlers.find? k = some handler → handler.isCpp = false →
          handler.id = procedure.id → procedure.argSpec = handler.argSpec := by
  cases r with
  | registerRpc M id name argspec =>
    refine ⟨fun H => ⟨(fun _ h => nomatch h), fun name' procedure hprocedure => ?_⟩, fun H h => ?_⟩
    · cases procedureOf_registerRpc hprocedure
      exact H (by simp [hprocedure])
    · obtain ⟨⟨name', procedure⟩, hprocedure⟩ := Option.ne_none_iff_exists'.1 h
      cases procedureOf_registerRpc hprocedure
      exact H.2 name' _ hprocedure
  | addCpp clientId id function argspec =>
    refine ⟨fun _ => ⟨fun handler h hscript => ?_, fun _ _ h => nomatch h⟩, fun _ => trivial⟩
    obtain ⟨-, h⟩ := Option.ite_none_right_eq_some.1 h
    cases h
    cases hscript
  | addFunc M clientId id funcname =>
    refine ⟨fun H => ⟨fun handler h _ => ?_, fun _ _ h => nomatch h⟩, fun H h => ?_⟩
    · exact (handlerOf_addFunc h).2.2 (H (by simp [h]))
    · obtain ⟨handler, hhandler⟩ := Option.ne_none_iff_exists'.1 h
      obtain ⟨hscript, hiff⟩ := handlerOf_addFunc hhandler
      exact hiff.1 (H.1 handler hhandler hscript)
  | addMethod M clientId id object funcname argspec =>
    refine ⟨fun H => ⟨fun handler h _ => ?_, fun _ _ h => nomatch h⟩, fun H handler h => ?_⟩
    · obtain ⟨-, hid, hspec⟩ := handlerOf_addMethod h
      have hchecks := H handler h
      rw [← hid, ← hspec] at hchecks
      exact hchecks
    · obtain ⟨hscript, hid, hspec⟩ := handlerOf_addMethod h
      have hagrees := H.1 handler h hscript
      rw [SpecAgrees, hid, hspec] at hagrees
      exact hagrees

theorem argSpecsAgree_empty : ({} : RPCDispatcher γ).ArgSpecsAgree := fun _ _ h => nomatch h

/-- **Both ends agree on arguments.** In every state of a history of registrations the argument spec
of every script handler is that of the procedures with its id and that of its own function, if and
only if every call of the history makes the checks of `ChecksSpec`. -/
theorem argSpecs_agree_iff (calls : List (Registration γ)) :
    (∀ pre d, pre <+: calls → Lib.run register {} pre = some d → d.ArgSpecsAgree) ↔
      Along register ChecksSpec ({} : RPCDispatcher γ) calls := by
  rw [forall_prefix_iff_along argSpecsAgree_empty]
  exact Along.iff_of_invariant ArgSpecsAgree (fun _ _ d' _ H h => H d' h)
    (fun _ _ H => H.register_iff.trans checksSpec_iff.symm) argSpecsAgree_empty

/-- The method `f` has no parameter for the number its registration announces. -/
theorem argSpecs_agree_method :
    ¬ ∀ pre d, pre <+: [.addMethod oneMethod 0 16 (some ⟨"Chat", 1⟩) "f" ['i']] →
      Lib.run register ({} : RPCDispatcher Bool) pre = some d → d.ArgSpecsAgree := by
  intro H
  have hagrees := H _ _ List.prefix_rfl rfl 1 (methodHandler 16 ['i']) rfl rfl
  have hspec := hagrees.2 _ rfl
  revert hspec
  decide

end

/-- A received call whose handler is a callback reaches it, whatever its bytes are. -/
theorem executeReceivedCall_of_callback {d : RPCDispatcher γ} {senderId : UInt16} {id : RpcId}
    {handler : Handler γ} {callback : γ} (hfind : d.findRpcHandler senderId id = some handler)
    (hfunction : handler.function = none) (hcallback : handler.cppFunction = some callback)
    (data : List UInt8) (stack : RpcData) :
    ∃ package, d.executeReceivedCall senderId id data stack =
      .ok (some (.cpp callback senderId package)) := by
  obtain ⟨arrayData, harray, -⟩ := RPCPackage.write_eq_ok stack 0 (data.take maxRpcDataSize)
    (by rw [List.length_take]; omega)
  refine ⟨.makeFrom id arrayData handler.argSpec, ?_⟩
  have hid : (RPCPackage.makeFrom id arrayData handler.argSpec).rpcId = id := rfl
  simp only [executeReceivedCall, hfind, harray, bind, Except.bind, executePackage, hid,
    hfunction, hcallback]

end RPCDispatcher

/-! ## Lost handlers -/

open RPCDispatcher

/-- A dispatcher, the handlers it registered under their keys, and the number of script handlers
among them. A callback registered again takes the place of the earlier one for its id. -/
structure Registry (γ : Type) where
  dispatcher : RPCDispatcher γ := {}
  registered : List (HandlerId × Handler γ) := []
  scripts : Nat := 0

/-- Two callbacks for the same reserved id. -/
def Handler.replaces (handler old : Handler γ) : Bool :=
  handler.isCpp && old.isCpp && old.id == handler.id

namespace Registry

/-- A new handler. -/
def add (s : Registry γ) (handler : Handler γ) (d : RPCDispatcher γ) : Registry γ where
  dispatcher := d
  registered := (s.dispatcher.slotOf handler, handler) ::
    s.registered.filter fun e => !handler.replaces e.2
  scripts := if handler.isCpp then s.scripts else s.scripts + 1

/-- One call. -/
def step (s : Registry γ) (r : Registration γ) : Option (Registry γ) :=
  (s.dispatcher.register r).map fun d =>
    match s.dispatcher.handlerOf r with
    | none => { s with dispatcher := d }
    | some handler => s.add handler d

/-- No registered handler is lost, and calls reach the registered callbacks. -/
structure Kept (s : Registry γ) : Prop where
  stored : ∀ e ∈ s.registered, s.dispatcher.handlers.find? e.1 = some e.2
  reached : ∀ e ∈ s.registered, ∀ callback, e.2.cppFunction = some callback →
    ∀ senderId, e.2.clientId = 0 ∨ e.2.clientId = senderId → ∀ data stack, ∃ package,
      s.dispatcher.executeReceivedCall senderId e.2.id data stack =
        .ok (some (.cpp callback senderId package))

/-- The numbers of script handlers and the reserved ids do not meet: a callback for an id other than
0 is registered while fewer script handlers are, and the next script handler comes while no callback
has its number as id. Only histories with fewer than `2 ^ 32` script handlers are considered. -/
def NumbersApart (s : Registry γ) (r : Registration γ) : Prop :=
  ∀ handler, s.dispatcher.handlerOf r = some handler →
    if handler.isCpp then
      s.scripts < 2 ^ 32 → handler.id = 0 ∨ s.scripts < handler.id.toNat
    else
      s.scripts + 1 < 2 ^ 32 →
        ∀ e ∈ s.registered, e.2.isCpp = true → e.2.id.toNat ≠ s.scripts + 1

/-- The keys of the registered handlers, while their number does not wrap. -/
structure Inv (s : Registry γ) : Prop where
  apart : s.dispatcher.ReservedApart
  callbackKey : ∀ k handler, s.dispatcher.handlers.find? k = some handler → handler.isCpp = true →
    k = Fin.ofNat _ handler.id.toNat
  next : s.dispatcher.nextHandlerId = Fin.ofNat _ (s.scripts + 1)
  cppKey : ∀ e ∈ s.registered, e.2.isCpp = true →
    e.1 = Fin.ofNat _ e.2.id.toNat ∧ e.2.id ≤ maxInternalRpcId
  scriptKey : ∀ e ∈ s.registered, e.2.isCpp = false → 1 ≤ e.1.val ∧ e.1.val ≤ s.scripts
  numbered : ∀ n, 1 ≤ n → n ≤ s.scripts → ∃ e ∈ s.registered, e.2.isCpp = false ∧ e.1.val = n
  stored : ∀ e ∈ s.registered, s.dispatcher.handlers.find? e.1 = some e.2

variable {s s' : Registry γ} {r : Registration γ} {handler : Handler γ}

theorem inv_empty : ({} : Registry γ).Inv :=
  ⟨reservedApart_empty, (fun _ _ h => nomatch h), rfl, (fun _ h => nomatch h),
    (fun _ h => nomatch h), (fun _ h1 h2 => absurd h1 (Nat.not_le.2 (Nat.lt_succ_of_le h2))),
    fun _ h => nomatch h⟩

/-- What a call does to the history. -/
theorem step_cases (h : s.step r = some s') :
    (s.dispatcher.handlerOf r = none ∧ s.dispatcher.register r = some s'.dispatcher ∧
      s' = { s with dispatcher := s'.dispatcher } ∧
      s'.dispatcher.handlers = s.dispatcher.handlers ∧
      s'.dispatcher.nextHandlerId = s.dispatcher.nextHandlerId) ∨
    ∃ handler, s.dispatcher.handlerOf r = some handler ∧
      s.dispatcher.register r = some (s.dispatcher.enter handler) ∧
      s' = s.add handler (s.dispatcher.enter handler) := by
  obtain ⟨d, hd, rfl⟩ := Option.map_eq_some_iff.1 h
  cases register_cases hd with
  | nothing hhandler _ heq =>
    rw [hhandler]
    subst heq
    exact .inl ⟨rfl, hd, rfl, rfl, rfl⟩
  | handler handler hhandler _ heq =>
    rw [hhandler]
    subst heq
    exact .inr ⟨handler, rfl, hd, rfl⟩
  | procedure _ _ hhandler _ heq =>
    rw [hhandler]
    subst heq
    exact .inl ⟨rfl, hd, rfl, rfl, rfl⟩

/-- The new handler's key is that of no handler that stays registered. -/
def FreshSlot (s : Registry γ) (handler : Handler γ) : Prop :=
  ∀ e ∈ s.registered, handler.replaces e.2 = false → e.1 ≠ s.dispatcher.slotOf handler

theorem Inv.slotOf_script (H : s.Inv) (hscript : handler.isCpp = false) :
    s.dispatcher.slotOf handler = Fin.ofNat _ (s.scripts + 1) := by
  rw [slotOf, hscript, if_neg Bool.false_ne_true, H.next]

theorem Inv.slotOf_script_val (H : s.Inv) (hscript : handler.isCpp = false)
    (hmore : s.scripts + 1 < 2 ^ 32) : (s.dispatcher.slotOf handler).val = s.scripts + 1 := by
  rw [H.slotOf_script hscript, Fin.val_ofNat, Nat.mod_eq_of_lt hmore]

theorem val_ofNat_id (id : RpcId) : (Fin.ofNat (2 ^ 32) id.toNat).val = id.toNat := by
  have := id.toNat_lt
  rw [Fin.val_ofNat]
  omega

theorem Inv.freshSlot_of_numbersApart (H : s.Inv) (hscripts : s.scripts < 2 ^ 32)
    (hmore : handler.isCpp = false → s.scripts + 1 < 2 ^ 32)
    (hhandler : s.dispatcher.handlerOf r = some handler) (hapart : s.NumbersApart r) :
    s.FreshSlot handler := by
  intro e he hstays heq
  have hnumbers := hapart handler hhandler
  cases hcpp : handler.isCpp with
  | true =>
    rw [if_pos hcpp] at hnumbers
    rw [slotOf, if_pos hcpp] at heq
    have hkey := congrArg Fin.val heq
    rw [val_ofNat_id] at hkey
    cases hold : e.2.isCpp with
    | true =>
      obtain ⟨hk, -⟩ := H.cppKey e he hold
      have hid := congrArg Fin.val (hk.symm.trans heq)
      rw [val_ofNat_id, val_ofNat_id, UInt16.toNat_inj] at hid
      simp [Handler.replaces, hcpp, hold, hid] at hstays
    | false =>
      obtain ⟨hpos, hle⟩ := H.scriptKey e he hold
      obtain hzero | hlt := hnumbers hscripts
      · simp only [hzero, UInt16.toNat_zero] at hkey
        omega
      · omega
  | false =>
    rw [if_neg (by simp [hcpp])] at hnumbers
    have hmore := hmore hcpp
    have hkey := congrArg Fin.val heq
    rw [H.slotOf_script_val hcpp hmore] at hkey
    cases hold : e.2.isCpp with
    | true =>
      obtain ⟨hk, -⟩ := H.cppKey e he hold
      rw [hk, val_ofNat_id] at hkey
      exact hnumbers hmore e he hold hkey
    | false =>
      have := (H.scriptKey e he hold).2
      omega

/-- A handler that takes no registered handler's place keeps the invariant. -/
theorem Inv.enter (H : s.Inv) (hmore : handler.isCpp = false → s.scripts + 1 < 2 ^ 32)
    (hhandler : s.dispatcher.handlerOf r = some handler)
    (hregister : s.dispatcher.register r = some (s.dispatcher.enter handler))
    (hfresh : s.FreshSlot handler) :
    (s.add handler (s.dispatcher.enter handler)).Inv where
  apart := H.apart.register hregister
  callbackKey := by
    intro k handler' hfind hcpp
    dsimp only [add, RPCDispatcher.enter] at hfind
    rw [OrdMap.find?_insert] at hfind
    split at hfind
    · next heq =>
      cases hfind
      rw [heq, slotOf, if_pos hcpp]
    · exact H.callbackKey k handler' hfind hcpp
  next := by
    dsimp only [add, RPCDispatcher.enter]
    rw [H.next]
    split
    · rfl
    · simp [Fin.ext_iff, Fin.val_add]
  cppKey := by
    intro e he hcpp
    obtain rfl | he := List.mem_cons.1 he
    · refine ⟨by dsimp only; rw [slotOf, if_pos hcpp], ?_⟩
      cases handlerOf_keptApart hhandler with
      | cpp hid => exact hid
      | script _ _ hscript => exact absurd hcpp (by simp [hscript])
    · exact H.cppKey e (List.mem_filter.1 he).1 hcpp
  scriptKey := by
    intro e he hscript
    obtain rfl | he := List.mem_cons.1 he
    · have hscript : handler.isCpp = false := hscript
      simp [add, H.slotOf_script_val hscript (hmore hscript), hscript]
    · obtain ⟨hpos, hle⟩ := H.scriptKey e (List.mem_filter.1 he).1 hscript
      refine ⟨hpos, hle.trans ?_⟩
      dsimp only [add]
      split <;> omega
  numbered := by
    intro n hpos hle
    dsimp only [add] at hle ⊢
    obtain hold | hnew := Nat.lt_or_ge s.scripts n
    · cases hcpp : handler.isCpp with
      | true =>
        rw [if_pos hcpp] at hle
        omega
      | false =>
        rw [if_neg (by simp [hcpp])] at hle
        refine ⟨_, List.mem_cons_self, hcpp, ?_⟩
        dsimp only
        rw [H.slotOf_script_val hcpp (hmore hcpp)]
        omega
    · obtain ⟨e, he, hscript, hkey⟩ := H.numbered n hpos hnew
      refine ⟨e, List.mem_cons_of_mem _ (List.mem_filter.2 ⟨he, ?_⟩), hscript, hkey⟩
      simp [Handler.replaces, hscript]
  stored := by
    intro e he
    dsimp only [add, RPCDispatcher.enter]
    obtain rfl | he := List.mem_cons.1 he
    · exact OrdMap.find?_insert_self
    · obtain ⟨he, hstays⟩ := List.mem_filter.1 he
      rw [OrdMap.find?_insert_of_ne (hfresh e he (by simpa using hstays))]
      exact H.stored e he

/-- A new handler leaves the registered ones in place only if the numbers are apart. -/
theorem Inv.numbersApart_of_stored (H : s.Inv) (hhandler : s.dispatcher.handlerOf r = some handler)
    (hstored : (if handler.isCpp then s.scripts else s.scripts + 1) < 2 ^ 32 →
      ∀ e ∈ s.registered, handler.replaces e.2 = false →
        (s.dispatcher.enter handler).handlers.find? e.1 = some e.2) : s.NumbersApart r := by
  intro handler' hhandler'
  cases hhandler.symm.trans hhandler'
  have hkept : (if handler.isCpp then s.scripts else s.scripts + 1) < 2 ^ 32 →
      ∀ e ∈ s.registered, e.1 = s.dispatcher.slotOf handler → handler.replaces e.2 = false →
        e.2 = handler := by
    intro hfew e he hslot hstays
    have hfind := hstored hfew e he hstays
    rw [hslot, RPCDispatcher.enter, OrdMap.find?_insert_self] at hfind
    exact (Option.some.inj hfind).symm
  cases hcpp : handler.isCpp with
  | true =>
    rw [if_pos rfl]
    intro hfew
    obtain hzero | hpos := Nat.eq_zero_or_pos handler.id.toNat
    · exact .inl (UInt16.toNat_inj.1 hzero)
    · refine .inr (Nat.lt_of_not_ge fun hle => ?_)
      obtain ⟨e, he, hscript, hkey⟩ := H.numbered handler.id.toNat hpos hle
      have hslot : e.1 = s.dispatcher.slotOf handler := by
        rw [slotOf, if_pos hcpp, Fin.ext_iff, hkey, val_ofNat_id]
      have heq := hkept (by rwa [if_pos hcpp]) e he hslot (by simp [Handler.replaces, hscript])
      rw [heq, hcpp] at hscript
      cases hscript
  | false =>
    rw [if_neg Bool.false_ne_true]
    intro hmore e he hold hid
    have hslot : e.1 = s.dispatcher.slotOf handler := by
      rw [H.slotOf_script hcpp, (H.cppKey e he hold).1, hid]
    have heq := hkept (by simpa [hcpp] using hmore) e he hslot (by simp [Handler.replaces, hcpp])
    rw [heq, hcpp] at hold
    cases hold

/-- Calls reach the registered callbacks: a reserved id has no other handler. -/
theorem Inv.kept (H : s.Inv) : s.Kept := by
  refine ⟨H.stored, fun e he callback hcallback senderId hclient data stack => ?_⟩
  have hcpp : e.2.isCpp = true := by simp [Handler.isCpp, hcallback]
  obtain ⟨hkey, hreserved⟩ := H.cppKey e he hcpp
  have hfind : s.dispatcher.findRpcHandler senderId e.2.id = some e.2 := by
    rw [findRpcHandler_eq_some]
    refine ⟨e.1, ⟨H.stored e he, rfl, hclient⟩, fun k handler hk hhandler => ?_⟩
    cases H.apart.handlers k handler hk with
    | cpp _ _ hcpp' => rw [H.callbackKey k handler hk hcpp', hhandler.1, hkey]
    | script hid => exact absurd (hhandler.1 ▸ hid) (UInt16.not_lt.2 hreserved)
  have hfunction : e.2.function = none := by
    cases H.apart.handlers e.1 e.2 (H.stored e he) with
    | cpp _ hfunction _ => exact hfunction
    | script _ _ hscript => exact absurd hcpp (by simp [hscript])
  exact executeReceivedCall_of_callback hfind hfunction hcallback data stack

/-- One call whose numbers are apart keeps the invariant, while script handlers are few. -/
theorem inv_step (H : s.scripts < 2 ^ 32 → s.Inv) (hapart : s.NumbersApart r)
    (h : s.step r = some s') (hfew : s'.scripts < 2 ^ 32) : s'.Inv := by
  obtain ⟨-, hregister, heq, hhandlers, hnext⟩ | ⟨handler, hhandler, hregister, rfl⟩ :=
    step_cases h
  · have hregistered : s'.registered = s.registered := by rw [heq]
    have hscripts : s'.scripts = s.scripts := by rw [heq]
    obtain ⟨apart, callbackKey, next, cppKey, scriptKey, numbered, stored⟩ := H (hscripts ▸ hfew)
    exact ⟨apart.register hregister, by rwa [hhandlers], by rw [hnext, next, hscripts],
      by rwa [hregistered], by rwa [hregistered, hscripts], by rwa [hregistered, hscripts],
      by rwa [hregistered, hhandlers]⟩
  · dsimp only [add] at hfew
    have hscripts : s.scripts < 2 ^ 32 := by split at hfew <;> omega
    have hmore : handler.isCpp = false → s.scripts + 1 < 2 ^ 32 := by
      intro hscript
      simpa [hscript] using hfew
    have hInv := H hscripts
    exact hInv.enter hmore hhandler hregister
      (hInv.freshSlot_of_numbersApart hscripts hmore hhandler hapart)

/-- **Registered handlers and script numbers.** In every history with fewer than `2 ^ 32` script
handlers, no registered handler is lost and calls reach the registered callbacks, if and only if the
numbers of script handlers never meet the ids of callbacks. -/
theorem handlers_kept_iff (calls : List (Registration γ)) :
    (∀ pre s, pre <+: calls → Lib.run step {} pre = some s → s.scripts < 2 ^ 32 → s.Kept) ↔
      Along step NumbersApart ({} : Registry γ) calls := by
  rw [forall_prefix_iff_along fun _ => inv_empty.kept]
  have hiff : ∀ (s : Registry γ) r, (s.scripts < 2 ^ 32 → s.Inv) →
      ((∀ s', s.step r = some s' → s'.scripts < 2 ^ 32 → s'.Kept) ↔ s.NumbersApart r) := by
    refine fun s r H => ⟨fun hkept => ?_, fun hapart s' h hfew => (inv_step H hapart h hfew).kept⟩
    intro handler hhandler
    have hstep : s.step r = some (s.add handler (s.dispatcher.enter handler)) := by
      simp [step, register_of_handlerOf hhandler, hhandler]
    obtain hfew | hmany := Nat.lt_or_ge s.scripts (2 ^ 32)
    · refine (H hfew).numbersApart_of_stored hhandler (fun hfew' e he hstays => ?_) handler hhandler
      refine (hkept _ hstep hfew').stored e (List.mem_cons_of_mem _ (List.mem_filter.2 ⟨he, ?_⟩))
      rw [hstays, Bool.not_false]
    · split
      · exact fun hfew => absurd hfew (Nat.not_lt.2 hmany)
      · exact fun hfew => absurd (Nat.lt_of_succ_lt hfew) (Nat.not_lt.2 hmany)
  refine Along.iff_of_invariant (fun s => s.scripts < 2 ^ 32 → s.Inv) ?_ hiff fun _ => inv_empty
  intro s r s' H hkept h hfew
  exact inv_step H ((hiff s r H).1 hkept) h hfew

/-- A server registers its two callbacks, and scripts two methods: the second method takes the place
of the join acknowledgement. -/
theorem handlers_kept_join_acknowledge :
    ¬ ∀ pre s, pre <+: [.addCpp 0 0 false ['i', 'L'], .addCpp 0 2 true ['c'],
        .addMethod oneMethod 0 16 (some ⟨"Chat", 1⟩) "f" [],
        .addMethod oneMethod 0 17 (some ⟨"Chat", 1⟩) "f" []] →
      Lib.run step ({} : Registry Bool) pre = some s → s.scripts < 2 ^ 32 → s.Kept := by
  intro H
  have hkept := H _ _ List.prefix_rfl rfl (by decide)
  have hstored := hkept.stored (2, joinAcknowledge) (by decide)
  revert hstored
  decide

end Registry

end NetSiege
