import NetSiege.Lib.OrdMap
import NetSiege.Network.RpcPackage
import Mathlib.Data.Nat.Basic
import Mathlib.Data.String.Basic
import Mathlib.Order.Fin.Basic

/-!
# RPC dispatch (`rpcdispatcher.h`, `rpcdispatcher.cpp`)

`RPCDispatcher` keeps the handlers of received calls and the procedures scripts may call.
`buildCall` encodes a call of a procedure, `executeReceivedCall` selects a handler, decodes the
arguments in the order of the handler's spec and sets them as the arguments of its function, whose
parameters need not be those of the spec. `receiveCall_iff` says when a call arrives as it was made:
the function takes arguments of these types by value, and since `popString` leaves the body of a
string unread, every argument is also readable at the offset that ignores the bodies of all strings
before it.
-/

namespace NetSiege

open Lib

/-- The AngelScript parameter types: those `argSpecFromFunction` tells apart, the other primitive
types by their size, and the other object types. -/
inductive ParamType where
  | uint8
  | int8
  | uint16
  | int16
  | uint32
  | int32
  | float
  | double
  | string
  | primitive (size : Nat)
  | object
deriving DecidableEq, Repr

/-- A parameter: its type, and whether it is a reference as in `const string &in`. -/
structure Param where
  type : ParamType
  isReference : Bool := false
deriving DecidableEq, Repr

/-- `asIScriptFunction`: its name and its parameters. -/
structure ScriptFunction where
  name : String
  params : List Param
deriving DecidableEq, Repr

/-- `asIScriptObject`, the target of a method handler. -/
structure ScriptObjectRef where
  typeName : String
  address : Nat
deriving DecidableEq, Repr

/-- What the dispatcher asks the script engine: functions of the module, methods of a class, and
whether a method declaration can be registered. -/
structure ScriptModule where
  functionByName : String → Option ScriptFunction
  methodByName : String → String → Option ScriptFunction
  registerObjectMethod : String → Bool

/-- `MAX_INTERNAL_RPC_ID`. -/
def maxInternalRpcId : RpcId := 15

/-- `handler_id_t`. -/
abbrev HandlerId := Fin (2 ^ 32)

/-- `handler_t`; `γ` are the C++ callbacks. -/
structure Handler (γ : Type) where
  id : RpcId
  function : Option ScriptFunction := none
  object : Option ScriptObjectRef := none
  cppFunction : Option γ := none
  argSpec : List Char
  clientId : UInt16
deriving DecidableEq

/-- `procedure_t`. -/
structure Procedure where
  id : RpcId := 0
  argSpec : List Char := []
deriving DecidableEq, Repr

/-- `RPCDispatcher`, after `RegisterDispatcher` gave it an engine. -/
structure RPCDispatcher (γ : Type) where
  handlers : OrdMap HandlerId (Handler γ) := ∅
  procedures : OrdMap String Procedure := ∅
  nextHandlerId : HandlerId := 1

/-- What a script function finds in the place of a parameter: a value of one of the wire types, the
bytes of another primitive type, a reference to a string that is gone, or zeros. -/
inductive ParamValue where
  | arg (value : Arg)
  | bytes (bs : List UInt8)
  | dangling
  | unset
deriving DecidableEq, Repr

/-- What `executeReceivedCall` runs. The arguments are those behind the sender's id. -/
inductive Invocation (γ : Type) where
  | script (function : ScriptFunction) (object : Option ScriptObjectRef) (senderId : UInt16)
      (args : List ParamValue)
  | cpp (callback : γ) (senderId : UInt16) (package : RPCPackage)
deriving DecidableEq

/-- The parameter type `argSpec2decl` writes for a letter. -/
def paramDecl : Char → Except Trap String
  | 'c' => .ok "uint8"
  | 'C' => .ok "int8"
  | 's' => .ok "uint16"
  | 'S' => .ok "int16"
  | 'i' => .ok "uint32"
  | 'I' => .ok "int32"
  | 'f' => .ok "float"
  | 'd' => .ok "double"
  | 'L' => .ok "string"
  | _ => .error .assertion

/-- `RPCDispatcher::argSpec2decl`. -/
def argSpec2decl (funcname : String) (argSpec : List Char) : Except Trap String := do
  let decl ← argSpec.foldlM (fun decl c => do
    let param ← paramDecl c
    .ok (decl ++ ", " ++ param)) ("void " ++ funcname ++ "(uint16")
  .ok (decl ++ ")")

/-- The letter `argSpecFromFunction` gives a parameter type. -/
def ParamType.letter : ParamType → Option Char
  | uint8 => some 'c'
  | int8 => some 'C'
  | uint16 => some 's'
  | int16 => some 'S'
  | uint32 => some 'i'
  | int32 => some 'I'
  | float => some 'f'
  | double => some 'd'
  | string => some 'L'
  | primitive _ | object => none

/-- `RPCDispatcher::argSpecFromFunction`, `none` for `(false, _)`. `GetParam` reports the type alone
in the type id, not whether it is passed as a reference. -/
def argSpecFromFunction (function : ScriptFunction) : Option (List Char) :=
  match function.params.map Param.type with
  | .uint16 :: types => types.mapM ParamType.letter
  | _ => none

/-- The value `buildCall` reads from an argument of the generic call interface. The getters check
the size of the argument's type and return 0 when it is another; a missing string is a null
pointer. -/
def genericArg (c : Char) (slot : Option Arg) : Except Trap Arg :=
  let getArgByte : UInt8 := match slot with
    | some (.u8 v) => v
    | some (.i8 v) => v.toUInt8
    | _ => 0
  let getArgWord : UInt16 := match slot with
    | some (.u16 v) => v
    | some (.i16 v) => v.toUInt16
    | _ => 0
  let getArgDWord : UInt32 := match slot with
    | some (.u32 v) | some (.f32 v) => v
    | some (.i32 v) => v.toUInt32
    | _ => 0
  let getArgQWord : UInt64 := match slot with
    | some (.f64 v) => v
    | _ => 0
  match c with
  | 'c' => .ok (.u8 getArgByte)
  | 'C' => .ok (.i8 getArgByte.toInt8)
  | 's' => .ok (.u16 getArgWord)
  | 'S' => .ok (.i16 getArgWord.toInt16)
  | 'i' => .ok (.u32 getArgDWord)
  | 'I' => .ok (.i32 getArgDWord.toInt32)
  | 'f' => .ok (.f32 getArgDWord)
  | 'd' => .ok (.f64 getArgQWord)
  | 'L' => match slot with
    | some (.str v) => .ok (.str v)
    | _ => .error .nullPointer
  | _ => .error .assertion

/-- The loop of `buildCall`: one `push` per letter, its result dropped. -/
def pushArgs (package : RPCPackage) : List Char → List Arg → Except Trap RPCPackage
  | [], _ => .ok package
  | c :: cs, slots => do
    let arg ← genericArg c slots.head?
    let (_, package) ← package.push arg
    pushArgs package cs slots.tail

/-- A reader that pops one argument per letter. -/
def popArgs : List Char → RPCPackage → Except Trap (List Arg)
  | [], _ => .ok []
  | c :: cs, package => do
    let (arg, package) ← package.popArg c
    let args ← popArgs cs package
    .ok (arg :: args)

/-! ## The arguments of a script function -/

/-- `asCDataType::GetSizeInMemoryBytes` of a primitive type. -/
def ParamType.size : ParamType → Nat
  | uint8 | int8 => 1
  | uint16 | int16 => 2
  | uint32 | int32 | float => 4
  | double => 8
  | primitive size => size
  | string | object => 0

/-- `asCDataType::IsObject`. -/
def ParamType.isObject : ParamType → Bool
  | string | object => true
  | _ => false

/-- `asCDataType::GetSizeOnStackDWords` of a primitive type. -/
def ParamType.stackDWords (type : ParamType) : Nat := (type.size + 3) / 4

/-- The check of `SetArgByte`, `SetArgWord`, `SetArgDWord`, `SetArgFloat`, `SetArgDouble` or
`SetArgObject`, whichever this letter selects, on the parameter. -/
def Param.accepts (param : Param) (argType : Char) : Bool :=
  let isPrimitive := !param.type.isObject && !param.isReference
  match argType with
  | 'c' | 'C' => isPrimitive && param.type.size == 1
  | 's' | 'S' => isPrimitive && param.type.size == 2
  | 'i' | 'I' => isPrimitive && param.type.size == 4
  | 'f' => isPrimitive && param.type.stackDWords == 1
  | 'd' => isPrimitive && param.type.stackDWords == 2
  | 'L' => param.type.isObject
  | _ => false

/-- The parameter an argument of this type is set for; its check is asserted. An object passed by
value is copied, as the string it is not when its type is another. -/
def checkParam (param : Option Param) (argType : Char) : Except Trap Param :=
  match param with
  | none => .error .assertion
  | some param =>
    if !param.accepts argType then .error .assertion
    else if param.type = .object ∧ param.isReference = false then .error .wildPointer
    else .ok param

/-- The value a pop of an arithmetic type builds from its number. -/
def argOfNum : Char → Nat → Arg
  | 'c', v => .u8 (.ofNat v)
  | 'C', v => .i8 (UInt8.ofNat v).toInt8
  | 's', v => .u16 (.ofNat v)
  | 'S', v => .i16 (UInt16.ofNat v).toInt16
  | 'i', v => .u32 (.ofNat v)
  | 'I', v => .i32 (UInt32.ofNat v).toInt32
  | 'f', v => .f32 (.ofNat v)
  | _, v => .f64 (.ofNat v)

/-- What the function reads of an argument that was set for the parameter: as many bytes as its type
has. The string a reference is set to is a local of the loop. -/
def Param.read (param : Param) (arg : Arg) : ParamValue :=
  if param.isReference then .dangling
  else
    match param.type.letter with
    | none => .bytes (arg.encode.take param.type.size)
    | some 'L' => .arg arg
    | some c => .arg (argOfNum c (ofLeBytes (arg.encode.take param.type.size)))

/-- The loop of `executeReceivedCall`: one pop and one `SetArg` per letter. `Prepare` set the other
arguments to 0. -/
def setArgs : List Char → List Param → RPCPackage → Except Trap (List ParamValue)
  | [], params, _ => .ok (params.map fun _ => .unset)
  | c :: cs, params, package => do
    let (arg, package) ← package.popArg c
    let param ← checkParam params.head? c
    let values ← setArgs cs params.tail package
    .ok (param.read arg :: values)

/-- The arguments `executeReceivedCall` sets behind the sender's id, as `Execute` finds them. -/
def ScriptFunction.setArgs (function : ScriptFunction) (argSpec : List Char)
    (package : RPCPackage) : Except Trap (List ParamValue) := do
  let _ ← checkParam function.params.head? 's'
  let values ← NetSiege.setArgs argSpec function.params.tail package
  if .dangling ∈ values then .error .wildPointer
  .ok values

namespace RPCDispatcher

variable {γ : Type}

/-- `RPCDispatcher::findRpcHandler`. -/
def findRpcHandler (d : RPCDispatcher γ) (senderId : UInt16) (rpcId : RpcId) :
    Option (Handler γ) :=
  (d.handlers.entries.find? fun kv =>
    kv.2.id == rpcId && (kv.2.clientId == 0 || kv.2.clientId == senderId)).map (·.2)

/-- `RPCDispatcher::getArgSpecForRpc`. -/
def getArgSpecForRpc (d : RPCDispatcher γ) (id : RpcId) : List Char :=
  ((d.procedures.entries.find? (·.2.id == id)).map (·.2.argSpec)).getD []

/-- `RPCDispatcher::addRpcHandler` for a C++ function. -/
def addRpcHandlerCpp (d : RPCDispatcher γ) (clientId : UInt16) (id : RpcId) (function : γ)
    (argspec : List Char) : Bool × RPCDispatcher γ :=
  if id > maxInternalRpcId then (false, d)
  else
    let handler : Handler γ := { id, cppFunction := some function, argSpec := argspec, clientId }
    (true, { d with handlers := d.handlers.insert (Fin.ofNat _ id.toNat) handler })

/-- `RPCDispatcher::addRpcHandler` for a function of the script module. On a mismatch the error
message spells out the expected prototype. -/
def addRpcHandlerFunc (M : ScriptModule) (d : RPCDispatcher γ) (clientId : UInt16) (id : RpcId)
    (funcname : String) : Except Trap (HandlerId × RPCDispatcher γ) :=
  if id ≤ maxInternalRpcId then .ok (0, d)
  else
    match M.functionByName funcname with
    | none => .ok (0, d)
    | some function =>
      let argspec := d.getArgSpecForRpc id
      if argSpecFromFunction function ≠ some argspec then do
        let _ ← argSpec2decl funcname argspec
        .ok (0, d)
      else
        let handler : Handler γ := { id, function := some function, argSpec := argspec, clientId }
        .ok (d.nextHandlerId, { d with
          handlers := d.handlers.insert d.nextHandlerId handler
          nextHandlerId := d.nextHandlerId + 1 })

/-- `RPCDispatcher::addRpcHandler` for a method of a script object, `none` for a handle without
one. -/
def addRpcHandlerMethod (M : ScriptModule) (d : RPCDispatcher γ) (clientId : UInt16) (id : RpcId)
    (object : Option ScriptObjectRef) (funcname : String) (argspec : List Char) :
    HandlerId × RPCDispatcher γ :=
  match object with
  | none => (0, d)
  | some object =>
    if id ≤ maxInternalRpcId then (0, d)
    else
      match M.methodByName object.typeName funcname with
      | none => (0, d)
      | some function =>
        let handler : Handler γ :=
          { id, function := some function, object := some object, argSpec := argspec, clientId }
        (d.nextHandlerId, { d with
          handlers := d.handlers.insert d.nextHandlerId handler
          nextHandlerId := d.nextHandlerId + 1 })

/-- `RPCDispatcher::registerRpc`. -/
def registerRpc (M : ScriptModule) (d : RPCDispatcher γ) (id : RpcId) (name : String)
    (argspec : List Char) : Except Trap (Bool × RPCDispatcher γ) := do
  let decl ← argSpec2decl name argspec
  if id ≤ maxInternalRpcId then .ok (false, d)
  else
    match d.procedures.find? name with
    | some procedure => .ok (procedure.id == id && procedure.argSpec == argspec, d)
    | none =>
      if !M.registerObjectMethod decl then .error .assertion
      .ok (true, { d with procedures := d.procedures.insert name { id, argSpec := argspec } })

/-- `RPCDispatcher::buildCall`: the package handed to the send function, and the dispatcher, whose
`m_procedures[name]` creates a missing entry. -/
def buildCall (d : RPCDispatcher γ) (name : String) (slots : List Arg) :
    Except Trap (RPCPackage × RPCDispatcher γ) := do
  let handler := (d.procedures.find? name).getD {}
  let d := { d with procedures := d.procedures.insert name handler }
  let package ← pushArgs (.make handler.id) handler.argSpec slots
  if handler.argSpec ≠ package.argString then .error .assertion
  .ok (package, d)

/-- `RPCDispatcher::executeReceivedCall` of a package, `none` when there is no handler. -/
def executePackage (d : RPCDispatcher γ) (senderId : UInt16) (package : RPCPackage) :
    Except Trap (Option (Invocation γ)) :=
  match d.findRpcHandler senderId package.rpcId with
  | none => .ok none
  | some handler =>
    match handler.function, handler.cppFunction with
    | some function, _ => do
      let args ← function.setArgs handler.argSpec package.reset
      .ok (some (.script function handler.object senderId args))
    | none, some cppFunction => .ok (some (.cpp cppFunction senderId package))
    | none, none => .error .assertion

/-- `RPCDispatcher::executeReceivedCall` of an id and the received bytes. The local `arrayData` is
not initialised: `stack` is its content before the `memcpy`. -/
def executeReceivedCall (d : RPCDispatcher γ) (senderId : UInt16) (id : RpcId) (data : List UInt8)
    (stack : RpcData) : Except Trap (Option (Invocation γ)) :=
  match d.findRpcHandler senderId id with
  | none => .ok none
  | some handler => do
    let arrayData ← stack.write 0 (data.take maxRpcDataSize)
    d.executePackage senderId (.makeFrom id arrayData handler.argSpec)

/-! ## The handler for a call -/

/-- The handler for a call, in the order of the handler ids: the first one registered for its RPC id
and for the client id 0 or that of the sender. -/
def FirstFor (d : RPCDispatcher γ) (senderId : UInt16) (rpcId : RpcId) (handler : Handler γ) :
    Prop :=
  ∃ id, (d.handlers.find? id = some handler ∧
      handler.id = rpcId ∧ (handler.clientId = 0 ∨ handler.clientId = senderId)) ∧
    ∀ id' handler', d.handlers.find? id' = some handler' →
      handler'.id = rpcId ∧ (handler'.clientId = 0 ∨ handler'.clientId = senderId) → id ≤ id'

theorem findRpcHandler_eq_some {d : RPCDispatcher γ} {senderId : UInt16} {rpcId : RpcId}
    {handler : Handler γ} :
    d.findRpcHandler senderId rpcId = some handler ↔ d.FirstFor senderId rpcId handler := by
  rw [findRpcHandler, ← List.head?_filter, Option.map_eq_some_iff, Prod.exists]
  simp only [OrdMap.head?_eq_some_iff (d.handlers.sorted.filter _), List.mem_filter,
    OrdMap.mem_entries, Bool.and_eq_true, Bool.or_eq_true, beq_iff_eq, Prod.forall, and_imp,
    exists_eq_right, FirstFor]

end RPCDispatcher

/-! ## The round trip of a call -/

theorem genericArg_letter (a : Arg) : genericArg a.letter (some a) = .ok a := by
  cases a <;> rfl

/-- The loop of `buildCall` pushes the arguments it is given. -/
theorem pushArgs_eq_foldlM (p : RPCPackage) (args : List Arg) :
    pushArgs p (args.map Arg.letter) args =
      args.foldlM (fun p arg => (RPCPackage.push p arg).map (·.2)) p := by
  induction args generalizing p with
  | nil => rfl
  | cons a args ih =>
    rw [List.map_cons, pushArgs, List.head?_cons, genericArg_letter, List.foldlM_cons]
    cases hpush : p.push a with
    | error e => simp [bind, Except.bind, hpush, Except.map]
    | ok r => simp [bind, Except.bind, hpush, Except.map, ih]

/-- The offset at which the reader looks for what follows these arguments. -/
def headerSizes (args : List Arg) : Nat := (args.map Arg.headerSize).sum

@[simp] theorem headerSizes_nil : headerSizes [] = 0 := rfl

@[simp] theorem headerSizes_cons :
    headerSizes (a :: args) = a.headerSize + headerSizes args := by
  simp [headerSizes]

theorem Arg.headerSize_le (a : Arg) : a.headerSize ≤ a.encode.length := by
  cases a <;> simp [Arg.headerSize, Arg.encode]

theorem headerSizes_le (args : List Arg) : headerSizes args ≤ (encodeArgs args).length := by
  induction args with
  | nil => simp
  | cons a args ih =>
    have := a.headerSize_le
    rw [headerSizes_cons, encodeArgs_cons, List.length_append]
    omega

/-- The condition on each argument of a list, split at the head. -/
theorem forall_split_cons {P : List Arg → Arg → Prop} {a : Arg} {args : List Arg} :
    (∀ pre b post, a :: args = pre ++ b :: post → P pre b) ↔
      P [] a ∧ ∀ pre b post, args = pre ++ b :: post → P (a :: pre) b := by
  constructor
  · exact fun H => ⟨H [] a args rfl, fun pre b post h => H (a :: pre) b post (by rw [h]; rfl)⟩
  · rintro ⟨h0, H⟩ pre b post h
    cases pre with
    | nil =>
      cases h
      exact h0
    | cons c pre =>
      cases h
      exact H pre b post rfl

/-- The reader from an offset that is not ahead of the writer's: it returns the arguments if and
only if each is readable where the reader looks. -/
theorem popArgs_iff (p : RPCPackage) (written : Nat) (args : List Arg)
    (hle : p.readOffset ≤ written) (hfits : written + (encodeArgs args).length ≤ maxRpcDataSize)
    (hdata : encodeArgs args <+: p.data.bytes.drop written) :
    popArgs (args.map Arg.letter) p = .ok args ↔ ∀ pre a post, args = pre ++ a :: post →
      a.encode <+: p.data.bytes.drop (p.readOffset + headerSizes pre) := by
  induction args generalizing p written with
  | nil => simp [popArgs]
  | cons a args ih =>
    rw [encodeArgs_cons, List.length_append] at hfits
    rw [encodeArgs_cons, append_prefix_drop_iff] at hdata
    have hstrict : p.readOffset + a.encode.length < maxRpcDataSize ∨
        a.encode <+: p.data.bytes.drop p.readOffset := by
      rcases Nat.lt_or_eq_of_le hle with hlt | heq
      · exact .inl (by omega)
      · exact .inr (heq ▸ hdata.1)
    obtain ⟨v, hv, hiff⟩ := RPCPackage.popArg_iff a (by omega) hstrict
    have hhead := a.headerSize_le
    have hrest := ih { p with readOffset := p.readOffset + a.headerSize }
      (written + a.encode.length) (by dsimp only; omega) (by omega) hdata.2
    simp only [forall_split_cons (P := fun pre b =>
      b.encode <+: p.data.bytes.drop (p.readOffset + headerSizes pre)), headerSizes_nil,
      headerSizes_cons, Nat.add_zero, ← Nat.add_assoc]
    rw [← hiff, ← hrest, List.map_cons, popArgs, hv]
    simp only [bind, Except.bind]
    cases popArgs (args.map Arg.letter) { p with readOffset := p.readOffset + a.headerSize } with
    | error e => simp
    | ok vs => simp

/-! ## The parameters of the handler -/

/-- The type a letter stands for. -/
def ParamType.ofLetter : Char → ParamType
  | 'c' => .uint8
  | 'C' => .int8
  | 's' => .uint16
  | 'S' => .int16
  | 'i' => .uint32
  | 'I' => .int32
  | 'f' => .float
  | 'd' => .double
  | 'L' => .string
  | _ => .object

/-- A parameter of the type a letter stands for, by value. -/
def Param.ofLetter (c : Char) : Param where
  type := .ofLetter c

/-- The function takes exactly such arguments: behind a parameter of two bytes for the sender's id
it has one for each of them, of its type and by value. -/
def ScriptFunction.Takes (function : ScriptFunction) (args : List Arg) : Prop :=
  ∃ sender : Param, sender.accepts 's' = true ∧
    function.params = sender :: args.map fun a => .ofLetter a.letter

theorem ParamType.eq_ofLetter {type : ParamType} {c : Char} (h : type.letter = some c) :
    type = .ofLetter c := by
  cases type <;> cases h <;> rfl

theorem argOfNum_encode {a : Arg} (h : a.letter ≠ 'L') :
    argOfNum a.letter (ofLeBytes a.encode) = a := by
  cases a with
  | u8 val =>
    have hlt : val.toNat < 256 ^ 1 := val.toNat_lt
    simp [argOfNum, Arg.letter, Arg.encode, ofLeBytes_leBytes hlt]
  | i8 val =>
    have hlt : val.toUInt8.toNat < 256 ^ 1 := val.toUInt8.toNat_lt
    simp [argOfNum, Arg.letter, Arg.encode, ofLeBytes_leBytes hlt]
  | u16 val =>
    have hlt : val.toNat < 256 ^ 2 := val.toNat_lt
    simp [argOfNum, Arg.letter, Arg.encode, ofLeBytes_leBytes hlt]
  | i16 val =>
    have hlt : val.toUInt16.toNat < 256 ^ 2 := val.toUInt16.toNat_lt
    simp [argOfNum, Arg.letter, Arg.encode, ofLeBytes_leBytes hlt]
  | u32 val =>
    have hlt : val.toNat < 256 ^ 4 := val.toNat_lt
    simp [argOfNum, Arg.letter, Arg.encode, ofLeBytes_leBytes hlt]
  | i32 val =>
    have hlt : val.toUInt32.toNat < 256 ^ 4 := val.toUInt32.toNat_lt
    simp [argOfNum, Arg.letter, Arg.encode, ofLeBytes_leBytes hlt]
  | f32 bits =>
    have hlt : bits.toNat < 256 ^ 4 := bits.toNat_lt
    simp [argOfNum, Arg.letter, Arg.encode, ofLeBytes_leBytes hlt]
  | f64 bits =>
    have hlt : bits.toNat < 256 ^ 8 := bits.toNat_lt
    simp [argOfNum, Arg.letter, Arg.encode, ofLeBytes_leBytes hlt]
  | str val => exact absurd rfl h

theorem read_ofLetter (a : Arg) : (Param.ofLetter a.letter).read a = .arg a := by
  have hnum := @argOfNum_encode a
  cases a with
  | str val => rfl
  | _ => exact congrArg ParamValue.arg (hnum (by simp [Arg.letter]))

theorem checkParam_eq_ok {param : Option Param} {c : Char} {q : Param} :
    checkParam param c = .ok q ↔
      param = some q ∧ q.accepts c = true ∧ (q.type = .object → q.isReference = true) := by
  cases param with
  | none => simp [checkParam]
  | some param =>
    rw [checkParam]
    split
    · next hrefused =>
      have hrefused : param.accepts c = false := by simpa using hrefused
      simp only [reduceCtorEq, Option.some.injEq, false_iff, not_and]
      rintro rfl haccepts
      exact absurd (hrefused.symm.trans haccepts) Bool.false_ne_true
    · next haccepts =>
      have haccepts : param.accepts c = true := by simpa using haccepts
      split
      · next hobject =>
        simp only [reduceCtorEq, Option.some.injEq, false_iff, not_and]
        rintro rfl - hreference
        exact absurd (hobject.2.symm.trans (hreference hobject.1)) Bool.false_ne_true
      · next hobject =>
        rw [Except.ok.injEq, Option.some.injEq]
        refine ⟨?_, fun h => h.1⟩
        rintro rfl
        exact ⟨rfl, haccepts, fun htype => by simpa [htype] using hobject⟩

theorem checkParam_ofLetter (a : Arg) :
    checkParam (some (.ofLetter a.letter)) a.letter = .ok (.ofLetter a.letter) := by
  refine checkParam_eq_ok.2 ⟨rfl, ?_, fun htype => ?_⟩
  · cases a <;> simp [Param.accepts, Param.ofLetter, ParamType.ofLetter, Arg.letter,
      ParamType.isObject, ParamType.size, ParamType.stackDWords]
  · cases a <;> cases htype

theorem argOfNum_letter {type : ParamType} {c : Char} (h : type.letter = some c) (hstr : c ≠ 'L')
    (n : Nat) : (argOfNum c n).letter = c := by
  cases type <;> cases h <;> first
    | rfl
    | exact absurd rfl hstr

/-- Only strings are set for objects. -/
theorem eq_string_of_accepts {param : Param} {c : Char} (hobject : param.type.isObject = true)
    (haccepts : param.accepts c = true) : c = 'L' := by
  unfold Param.accepts at haccepts
  split at haccepts <;> simp_all

/-- The function reads the argument that was set only for a parameter of its type by value. -/
theorem read_eq_arg_iff {param : Param} {v a : Arg} (hletter : v.letter = a.letter)
    (haccepts : param.accepts a.letter = true) :
    param.read v = .arg a ↔ param = .ofLetter a.letter ∧ v = a := by
  constructor
  · intro hread
    have hparam : param = .ofLetter a.letter := by
      obtain ⟨type, isReference⟩ := param
      rw [Param.read] at hread
      split at hread
      · cases hread
      next hvalue =>
      have hvalue : isReference = false := by simpa using hvalue
      rw [hvalue]
      split at hread
      · cases hread
      · next hstring =>
        have htype := ParamType.eq_ofLetter hstring
        have hisString := eq_string_of_accepts (by rw [htype]; rfl) haccepts
        rw [Param.ofLetter, hisString, ← htype]
      · next c hnotString hc =>
        have htype := ParamType.eq_ofLetter hc
        cases hread
        rw [Param.ofLetter, argOfNum_letter hc fun h => hnotString (h ▸ rfl), ← htype]
    refine ⟨hparam, ?_⟩
    rw [hparam, ← hletter, read_ofLetter] at hread
    exact ParamValue.arg.inj hread
  · rintro ⟨rfl, rfl⟩
    exact read_ofLetter v

theorem popArg_letter {p p' : RPCPackage} {c : Char} {v : Arg} (h : p.popArg c = .ok (v, p')) :
    v.letter = c := by
  unfold RPCPackage.popArg at h
  split at h
  all_goals first
    | cases h
    | obtain ⟨r, -, h⟩ := bind_eq_ok.1 h
      cases h
      rfl

/-- The function reads the arguments of the call if and only if its parameters are of their types by
value and a reader that pops them gets them. -/
theorem setArgs_iff {params : List Param} {args : List Arg} {p : RPCPackage} :
    setArgs (args.map Arg.letter) params p = .ok (args.map .arg) ↔
      params = args.map (fun a => .ofLetter a.letter) ∧
        popArgs (args.map Arg.letter) p = .ok args := by
  induction args generalizing params p with
  | nil => simp [setArgs, popArgs]
  | cons a args ih =>
    simp only [List.map_cons, setArgs, popArgs]
    constructor
    · intro h
      obtain ⟨⟨v, p'⟩, hpop, h⟩ := bind_eq_ok.1 h
      obtain ⟨param, hparam, h⟩ := bind_eq_ok.1 h
      obtain ⟨values, hvalues, h⟩ := bind_eq_ok.1 h
      obtain ⟨hread, hrest⟩ := List.cons.inj (Except.ok.inj h)
      obtain ⟨hhead, haccepts, -⟩ := checkParam_eq_ok.1 hparam
      obtain ⟨rfl, rfl⟩ := (read_eq_arg_iff (popArg_letter hpop) haccepts).1 hread
      obtain ⟨htail, hargs⟩ := ih.1 (hrest ▸ hvalues)
      refine ⟨?_, bind_eq_ok.2 ⟨_, hpop, bind_eq_ok.2 ⟨_, hargs, rfl⟩⟩⟩
      rw [← htail, List.cons_head?_tail hhead]
    · rintro ⟨rfl, h⟩
      obtain ⟨⟨v, p'⟩, hpop, h⟩ := bind_eq_ok.1 h
      obtain ⟨args', hargs, h⟩ := bind_eq_ok.1 h
      obtain ⟨rfl, rfl⟩ := List.cons.inj (Except.ok.inj h)
      refine bind_eq_ok.2 ⟨_, hpop, bind_eq_ok.2 ⟨_, checkParam_ofLetter v,
        bind_eq_ok.2 ⟨_, ih.2 ⟨rfl, hargs⟩, ?_⟩⟩⟩
      rw [read_ofLetter]

theorem ScriptFunction.setArgs_iff {function : ScriptFunction} {args : List Arg}
    {p : RPCPackage} :
    function.setArgs (args.map Arg.letter) p = .ok (args.map .arg) ↔
      function.Takes args ∧ popArgs (args.map Arg.letter) p = .ok args := by
  have hnone : ParamValue.dangling ∉ args.map ParamValue.arg := by simp
  constructor
  · intro h
    obtain ⟨sender, hsender, h⟩ := bind_eq_ok.1 h
    obtain ⟨values, hvalues, h⟩ := bind_eq_ok.1 h
    dsimp only at h
    split at h
    · cases h
    · cases h
      obtain ⟨hhead, haccepts, -⟩ := checkParam_eq_ok.1 hsender
      obtain ⟨htail, hargs⟩ := NetSiege.setArgs_iff.1 hvalues
      exact ⟨⟨sender, haccepts, by rw [← htail, List.cons_head?_tail hhead]⟩, hargs⟩
  · rintro ⟨⟨sender, haccepts, hparams⟩, hargs⟩
    have hsender : checkParam function.params.head? 's' = .ok sender := by
      refine checkParam_eq_ok.2 ⟨by rw [hparams]; rfl, haccepts, fun htype => ?_⟩
      exact absurd (eq_string_of_accepts (by rw [htype]; rfl) haccepts) (by decide)
    have hvalues : NetSiege.setArgs (args.map Arg.letter) function.params.tail p =
        .ok (args.map .arg) := by
      rw [hparams]
      exact NetSiege.setArgs_iff.2 ⟨rfl, hargs⟩
    refine bind_eq_ok.2 ⟨sender, hsender, bind_eq_ok.2 ⟨_, hvalues, ?_⟩⟩
    dsimp only
    rw [if_neg hnone]

/-- Every argument's encoding stands in the encoded call also at the offset that leaves out the
bodies of the strings before it. -/
def ReadableInPlace (args : List Arg) : Prop :=
  ∀ pre a post, args = pre ++ a :: post →
    a.encode <+: (encodeArgs args).drop (headerSizes pre)

variable {γ γ' : Type}

/-- What the receiver runs when the caller's package for a call of the procedure `name` with these
argument slots arrives as its `data()`/`dataSize()` bytes. -/
def receiveCall (caller : RPCDispatcher γ) (receiver : RPCDispatcher γ') (name : String)
    (slots : List Arg) (senderId : UInt16) (stack : RpcData) :
    Except Trap (Option (Invocation γ')) := do
  let (package, _) ← caller.buildCall name slots
  let dataSize ← package.dataSize
  receiver.executeReceivedCall senderId package.rpcId (package.data.bytes.take dataSize) stack

/-- The package of a call that fits, sent with its `dataSize()`. -/
theorem buildCall_filled {caller : RPCDispatcher γ} {rpcId : RpcId} {args : List Arg}
    (hproc : caller.procedures.find? name = some ⟨rpcId, args.map Arg.letter⟩)
    (hfits : (encodeArgs args).length ≤ maxRpcDataSize) :
    ∃ p d, caller.buildCall name args = .ok (p, d) ∧ p.rpcId = rpcId ∧
      p.dataSize = .ok (encodeArgs args).length ∧
      p.data.bytes.take (encodeArgs args).length = encodeArgs args := by
  obtain ⟨p, hp, hfill, hid⟩ := (RPCPackage.filled_make rpcId).foldlM_push args
    (by simpa using hfits)
  rw [← pushArgs_eq_foldlM] at hp
  rw [List.nil_append, List.nil_append] at hfill
  refine ⟨p, { caller with
    procedures := caller.procedures.insert name ⟨rpcId, args.map Arg.letter⟩ }, ?_, hid,
    hfill.dataSize, hfill.bytes⟩
  have hspec : ¬ args.map Arg.letter ≠ p.argString := by simp [hfill.argString]
  simp only [RPCDispatcher.buildCall, hproc, Option.getD_some, hp, bind, Except.bind,
    if_neg hspec]

/-- A script handler that decodes the received bytes gets exactly the arguments if and only if its
function takes them and they are readable in place. -/
theorem executeReceivedCall_iff {receiver : RPCDispatcher γ'} {handler : Handler γ'}
    {function : ScriptFunction} {senderId : UInt16} {rpcId : RpcId} {args : List Arg}
    (hfind : receiver.findRpcHandler senderId rpcId = some handler)
    (hfunction : handler.function = some function)
    (hspec : handler.argSpec = args.map Arg.letter)
    (hfits : (encodeArgs args).length ≤ maxRpcDataSize) (stack : RpcData) :
    receiver.executeReceivedCall senderId rpcId (encodeArgs args) stack =
        .ok (some (.script function handler.object senderId (args.map .arg))) ↔
      function.Takes args ∧ ReadableInPlace args := by
  have htake : (encodeArgs args).take maxRpcDataSize = encodeArgs args :=
    List.take_of_length_le hfits
  obtain ⟨d, hd, hbytes⟩ := RPCPackage.write_eq_ok stack 0 (encodeArgs args) (by omega)
  have hfront : d.bytes.take (encodeArgs args).length = encodeArgs args := by
    simpa using hbytes
  have hpop := popArgs_iff (RPCPackage.makeFrom rpcId d handler.argSpec).reset 0 args
    (Nat.le_refl 0) (by omega) (by
      change encodeArgs args <+: d.bytes.drop 0
      rw [List.drop_zero, List.prefix_iff_eq_take, hfront])
  have hinplace : (∀ pre a post, args = pre ++ a :: post →
      a.encode <+: d.bytes.drop (0 + headerSizes pre)) ↔ ReadableInPlace args := by
    refine forall_congr' fun pre => forall_congr' fun a => forall_congr' fun post =>
      forall_congr' fun hsplit => ?_
    have hle := headerSizes_le pre
    rw [Nat.zero_add, ← prefix_drop_take_iff (n := (encodeArgs args).length), hfront]
    rw [hsplit, encodeArgs_append, encodeArgs_cons, List.length_append, List.length_append]
    omega
  rw [← hinplace]
  refine Iff.trans ?_ (and_congr_right fun _ => hpop)
  have hid : (RPCPackage.makeFrom rpcId d handler.argSpec).rpcId = rpcId := rfl
  simp only [RPCDispatcher.executeReceivedCall, hfind, htake, hd, bind, Except.bind,
    RPCDispatcher.executePackage, hid, hfunction]
  rw [hspec, ← ScriptFunction.setArgs_iff]
  cases function.setArgs (args.map Arg.letter) _ with
  | error e => simp
  | ok vs => simp

/-- A call that fits reaches the receiver as the encoding of its arguments. -/
theorem receiveCall_eq {caller : RPCDispatcher γ} {receiver : RPCDispatcher γ'} {rpcId : RpcId}
    {args : List Arg} (hproc : caller.procedures.find? name = some ⟨rpcId, args.map Arg.letter⟩)
    (hfits : (encodeArgs args).length ≤ maxRpcDataSize) (senderId : UInt16) (stack : RpcData) :
    receiveCall caller receiver name args senderId stack =
      receiver.executeReceivedCall senderId rpcId (encodeArgs args) stack := by
  obtain ⟨p, d, hp, hid, hsize, hbytes⟩ := buildCall_filled hproc hfits
  simp only [receiveCall, hp, hsize, hid, hbytes, bind, Except.bind]

/-- **The round trip of a call.** When the caller's procedure and the receiver's script handler
carry the same argument spec and the arguments fit, the handler gets exactly the arguments, whatever
the uninitialised buffer held, if and only if its function takes them and they are readable in
place. -/
theorem receiveCall_iff {caller : RPCDispatcher γ} {receiver : RPCDispatcher γ'}
    {handler : Handler γ'} {function : ScriptFunction} {senderId : UInt16} {rpcId : RpcId}
    {args : List Arg} (hproc : caller.procedures.find? name = some ⟨rpcId, args.map Arg.letter⟩)
    (hfind : receiver.findRpcHandler senderId rpcId = some handler)
    (hfunction : handler.function = some function)
    (hspec : handler.argSpec = args.map Arg.letter)
    (hfits : (encodeArgs args).length ≤ maxRpcDataSize) :
    (∀ stack, receiveCall caller receiver name args senderId stack =
      .ok (some (.script function handler.object senderId (args.map .arg)))) ↔
      function.Takes args ∧ ReadableInPlace args := by
  simp only [receiveCall_eq hproc hfits, executeReceivedCall_iff hfind hfunction hspec hfits]
  exact ⟨fun h => h .zero, fun h _ => h⟩

theorem headerSizes_eq_length {args : List Arg}
    (h : ∀ a ∈ args, a.headerSize = a.encode.length) :
    headerSizes args = (encodeArgs args).length := by
  induction args with
  | nil => rfl
  | cons a args ih =>
    obtain ⟨ha, hargs⟩ := List.forall_mem_cons.1 h
    rw [headerSizes_cons, encodeArgs_cons, List.length_append, ha, ih hargs]

/-- Arguments are readable in place when no string with a body is followed by another argument. -/
theorem readableInPlace_of_no_body_inside {args : List Arg}
    (h : ∀ pre a post, args = pre ++ a :: post → post ≠ [] → a.headerSize = a.encode.length) :
    ReadableInPlace args := by
  intro pre a post hsplit
  have hpre : headerSizes pre = (encodeArgs pre).length := by
    refine headerSizes_eq_length fun b hb => ?_
    obtain ⟨pre1, pre2, rfl⟩ := List.append_of_mem hb
    exact h pre1 b (pre2 ++ a :: post) (by rw [hsplit]; simp) (by simp)
  rw [hpre, hsplit, encodeArgs_append, encodeArgs_cons, List.drop_left]
  exact List.prefix_append _ _

/-- A caller that knows the procedure `say`. -/
def sayCaller (argSpec : List Char) : RPCDispatcher Unit where
  procedures := (∅ : OrdMap String Procedure).insert "say" { id := 16, argSpec }

/-- The script function that is to handle `say`. -/
def onSay (params : List Param) : ScriptFunction where
  name := "onSay"
  params := .ofLetter 's' :: params

/-- The handler of `say`, for every client. -/
def sayHandler (argSpec : List Char) (params : List Param) : Handler Unit :=
  { id := 16, function := some (onSay params), argSpec, clientId := 0 }

/-- A receiver with that handler. -/
def sayReceiver (argSpec : List Char) (params : List Param) : RPCDispatcher Unit where
  handlers := (∅ : OrdMap HandlerId (Handler Unit)).insert 1 (sayHandler argSpec params)

/-- A number and then a string with a body. -/
theorem receiveCall_number_string :
    receiveCall (sayCaller ['c', 'L']) (sayReceiver ['c', 'L'] [.ofLetter 'c', .ofLetter 'L'])
      "say" [.u8 5, .str [97]] 7 .zero =
        .ok (some (.script (onSay [.ofLetter 'c', .ofLetter 'L']) none 7
          [.arg (.u8 5), .arg (.str [97])])) := by
  have hfind : (sayReceiver ['c', 'L'] [.ofLetter 'c', .ofLetter 'L']).findRpcHandler 7 16 =
      some (sayHandler ['c', 'L'] [.ofLetter 'c', .ofLetter 'L']) := rfl
  refine (receiveCall_iff rfl hfind rfl rfl (by decide)).2
    ⟨⟨_, rfl, rfl⟩, readableInPlace_of_no_body_inside ?_⟩ .zero
  rintro (_ | ⟨b, pre⟩) a post hsplit hpost
  · cases hsplit
    rfl
  · have hlen := congrArg List.length hsplit
    have hpos := List.length_pos_of_ne_nil hpost
    simp at hlen
    omega

/-- A string with a body and then a number, which is read from the body. -/
theorem receiveCall_string_number :
    ¬ ∀ stack, receiveCall (sayCaller ['L', 'c'])
      (sayReceiver ['L', 'c'] [.ofLetter 'L', .ofLetter 'c']) "say" [.str [97], .u8 5] 7 stack =
        .ok (some (.script (onSay [.ofLetter 'L', .ofLetter 'c']) none 7
          [.arg (.str [97]), .arg (.u8 5)])) := by
  intro H
  have hproc : (sayCaller ['L', 'c']).procedures.find? "say" = some ⟨16, ['L', 'c']⟩ := rfl
  have hfind : (sayReceiver ['L', 'c'] [.ofLetter 'L', .ofLetter 'c']).findRpcHandler 7 16 =
      some (sayHandler ['L', 'c'] [.ofLetter 'L', .ofLetter 'c']) := rfl
  have hzero := H .zero
  rw [receiveCall_eq hproc (by decide)] at hzero
  obtain ⟨-, hread⟩ := (executeReceivedCall_iff hfind rfl rfl (by decide) .zero).1 hzero
  have hlast := hread [.str [97]] (.u8 5) [] rfl
  revert hlast
  decide

end NetSiege
