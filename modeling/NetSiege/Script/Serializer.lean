import Mathlib.Data.List.Nodup
import Mathlib.Data.List.Sigma
import NetSiege.Lib.Bytes
import NetSiege.Network.RpcPackage

/-!
# Script property serialization (`serializer.cpp`, `script.proto`)

A script object keeps its properties as consecutive byte ranges of one memory: primitives and plain
values in place, strings, arrays, objects and handles as pointers to what is kept beside it. A copy
that overwrites one of these pointers is a trap (`ScriptInstance.write`), so that an instance never
has a broken one. `serializeObject` writes a `Property` for each listed property, and
`deserializeObject` looks the properties up by name and writes them back. Both dispatch on the type
id, the declaration and the element type of a property. `serializeProperty_spec` says what one
property becomes on the way: 64-bit primitives fail an assertion, arrays arrive empty.
-/

namespace NetSiege

open Lib

/-- The primitive types of the script language, in the order of their type ids. -/
inductive PrimType where
  | bool
  | int8
  | int16
  | int32
  | int64
  | uint8
  | uint16
  | uint32
  | uint64
  | float
  | double
deriving DecidableEq, Repr

namespace PrimType

/-- `asTYPEID_BOOL`, ..., `asTYPEID_DOUBLE`. -/
def typeId : PrimType → UInt32
  | bool => 1
  | int8 => 2
  | int16 => 3
  | int32 => 4
  | int64 => 5
  | uint8 => 6
  | uint16 => 7
  | uint32 => 8
  | uint64 => 9
  | float => 10
  | double => 11

/-- The size in bytes. -/
def size : PrimType → Nat
  | bool | int8 | uint8 => 1
  | int16 | uint16 => 2
  | int32 | uint32 | float => 4
  | int64 | uint64 | double => 8

/-- The declaration of the type. -/
def decl : PrimType → String
  | bool => "bool"
  | int8 => "int8"
  | int16 => "int16"
  | int32 => "int"
  | int64 => "int64"
  | uint8 => "uint8"
  | uint16 => "uint16"
  | uint32 => "uint"
  | uint64 => "uint64"
  | float => "float"
  | double => "double"

end PrimType

/-- The size of a pointer, `4 * AS_PTR_SIZE`. -/
def pointerSize : Nat := 8

/-- The types a property of a script class may have. Registered value types of plain data, like
`vec3`, come with their size. -/
inductive ScriptType where
  | prim (type : PrimType)
  | string
  | enum (name : String)
  | pod (name : String) (size : Nat)
  | object (name : String)
  | handle (name : String)
  | array (element : ScriptType)
deriving DecidableEq, Repr

namespace ScriptType

/-- `GetTypeDeclaration`. -/
def decl : ScriptType → String
  | prim type => type.decl
  | string => "string"
  | enum name | pod name _ | object name => name
  | handle name => name ++ "@"
  | array element => element.decl ++ "[]"

/-- The bytes of the object's memory a property of the type takes, `propSize` of
`asCObjectType::AddPropertyToClass`: a pointer, unless the value is kept in place. -/
def width : ScriptType → Nat
  | prim type => type.size
  | enum _ => 4
  | pod _ size => size
  | string | object _ | handle _ | array _ => pointerSize

/-- The object's memory has a pointer to the value. -/
def IsPointer : ScriptType → Prop
  | string | object _ | handle _ | array _ => True
  | prim _ | enum _ | pod _ _ => False

instance : DecidablePred IsPointer := fun type => by
  cases type <;> unfold IsPointer <;> infer_instance

theorem width_of_isPointer {type : ScriptType} (h : type.IsPointer) : type.width = pointerSize := by
  cases type with
  | string | object | handle | array => rfl
  | prim | enum | pod => exact h.elim

/-- No 64-bit primitive. -/
def Narrow : ScriptType → Prop
  | prim type => type.size < 8
  | _ => True

instance : DecidablePred Narrow := fun type => by
  cases type <;> unfold Narrow <;> infer_instance

/-- The kinds of properties the serializer is made for: primitives, strings, and arrays of
these. -/
def Serializable : ScriptType → Prop
  | prim _ | string | array (prim _) | array string => True
  | _ => False

end ScriptType

/-- What the serializer asks the script engine: the type ids. `stack` is the content of an
uninitialised local variable. -/
structure TypeIds where
  typeId : ScriptType → UInt32
  typeId_prim : ∀ type, typeId (.prim type) = type.typeId
  typeId_other : ∀ type, (∀ p, type ≠ .prim p) → PrimType.double.typeId < typeId type
  stack : List UInt8

/-- `typeId > asTYPEID_VOID && typeId <= asTYPEID_DOUBLE`. -/
def isPrimitiveTypeId (typeId : UInt32) : Bool := typeId > 0 && typeId ≤ PrimType.double.typeId

/-- `GetSizeOfPrimitiveType`: 0 for everything else. -/
def getSizeOfPrimitiveType (typeId : UInt32) : Nat :=
  match typeId.toNat with
  | 1 | 2 | 6 => 1
  | 3 | 7 => 2
  | 4 | 8 | 10 => 4
  | 5 | 9 | 11 => 8
  | _ => 0

/-- A property of a script class. -/
structure PropertyInfo where
  name : String
  type : ScriptType
deriving DecidableEq, Repr

/-- A script class, as the list of its properties. -/
structure ScriptClass where
  properties : List PropertyInfo
  nodup : (properties.map (·.name)).Nodup

/-- `prop->byteOffset` in `asCObjectType::AddPropertyToClass`, for a property of `propSize` bytes
added to `size` bytes. The script object's own fields, a multiple of 4 bytes, are not counted. -/
def byteOffset (size propSize : Nat) : Nat :=
  if propSize = 2 ∧ size % 2 ≠ 0 then size + 1
  else if 2 < propSize ∧ size % 4 ≠ 0 then size + (4 - size % 4)
  else size

/-- `size` after the properties were added one after the other. -/
def sizeOfProperties (properties : List PropertyInfo) : Nat :=
  properties.foldl (fun size p => byteOffset size p.type.width + p.type.width) 0

/-- Where the bytes of the `i`-th property begin. -/
def ScriptClass.address (c : ScriptClass) (i : Nat) : Nat :=
  byteOffset (sizeOfProperties (c.properties.take i))
    ((c.properties[i]?.map (·.type.width)).getD 0)

/-- The size of the memory of an object of the class. -/
def ScriptClass.size (c : ScriptClass) : Nat := sizeOfProperties c.properties

/-- Among the `n` bytes from `off` on there is one of a pointer. -/
def ScriptClass.CoversPointer (c : ScriptClass) (off n : Nat) : Prop :=
  ∃ x ∈ c.properties.zipIdx, x.1.type.IsPointer ∧
    off < c.address x.2 + pointerSize ∧ c.address x.2 < off + n

instance (c : ScriptClass) (off n : Nat) : Decidable (c.CoversPointer off n) :=
  inferInstanceAs (Decidable (∃ x ∈ _, _))

/-- The `i`-th property of the class is `info`, and its name is in the list. -/
def ScriptClass.Listed (c : ScriptClass) (properties : List String) (i : Nat)
    (info : PropertyInfo) : Prop :=
  c.properties[i]? = some info ∧ info.name ∈ properties

/-- `asIScriptObject`: an object of a script class. Strings and arrays are found under the index of
their property; the elements of an array are bytes, of a string or of a primitive. What bytes the
pointers to them have in the memory is of no account. -/
structure ScriptInstance (c : ScriptClass) where
  memory : List UInt8
  size_eq : memory.length = c.size
  strings : Nat → List UInt8
  arrays : Nat → List (List UInt8)

/-- `pb::Property`. -/
structure Property where
  name : String
  decl : String
  primitiveSize : UInt32 := 0
  primitiveDat : List UInt64 := []
  stringDat : List (List UInt8) := []
deriving DecidableEq, Repr

/-- `pb::ScriptObject`. -/
structure ScriptObject where
  objectType : String := ""
  properties : List Property := []
deriving DecidableEq, Repr

/-- The value of a property. Nested objects and handles are none of the serializer's business. -/
inductive PropertyValue where
  | bytes (bs : List UInt8)
  | string (s : List UInt8)
  | array (elements : List (List UInt8))
  | nested
deriving DecidableEq, Repr

namespace ScriptInstance

variable {c : ScriptClass}

/-- The value of the `i`-th property, taken to be of the given type. -/
def valueAs (o : ScriptInstance c) (i : Nat) : ScriptType → PropertyValue
  | .prim type => .bytes (slice o.memory (c.address i) type.size)
  | .enum _ => .bytes (slice o.memory (c.address i) 4)
  | .pod _ size => .bytes (slice o.memory (c.address i) size)
  | .string => .string (o.strings i)
  | .array _ => .array (o.arrays i)
  | .object _ | .handle _ => .nested

/-- The value of the `i`-th property. -/
def value (o : ScriptInstance c) (i : Nat) : Option PropertyValue :=
  c.properties[i]?.map fun info => o.valueAs i info.type

/-- `memcpy` into the object's memory. -/
def write (o : ScriptInstance c) (off : Nat) (bs : List UInt8) : Except Trap (ScriptInstance c) :=
  if h : off + bs.length ≤ o.memory.length then
    if c.CoversPointer off bs.length then .error .wildPointer
    else .ok { o with
      memory := overwrite o.memory off bs
      size_eq := by rw [length_overwrite h, o.size_eq] }
  else .error .outOfBounds

end ScriptInstance

/-- `decl[decl.length()-2]=='[' && decl[decl.length()-1]==']'`, for a shorter declaration an access
out of bounds. -/
def isArrayDecl (decl : String) : Except Trap Bool :=
  match decl.toList.reverse with
  | ']' :: '[' :: _ => .ok true
  | _ :: _ :: _ => .ok false
  | _ => .error .outOfBounds

/-- `array->GetElementTypeId()`, of a property that is no array an invalid access. -/
def ScriptType.element : ScriptType → Except Trap ScriptType
  | array element => .ok element
  | _ => .error .outOfBounds

section
variable {c : ScriptClass} (E : TypeIds)

/-- One turn of the loop of `Serializer::serializeObject`, for a listed property. -/
def serializeProperty (o : ScriptInstance c) (i : Nat) (info : PropertyInfo) :
    Except Trap (List Property) :=
  let typeId := E.typeId info.type
  let decl := info.type.decl
  let property : Property := { name := info.name, decl }
  if isPrimitiveTypeId typeId then
    let size := getSizeOfPrimitiveType typeId
    if size < 8 then
      let data := UInt64.ofNat (ofLeBytes (slice o.memory (c.address i) size))
      .ok [{ property with primitiveSize := UInt32.ofNat size, primitiveDat := [data] }]
    else .error .assertion
  else if decl = "string" then .ok [{ property with stringDat := [o.strings i] }]
  else if decl = "string[]" then .ok [{ property with stringDat := o.arrays i }]
  else do
    if ← isArrayDecl decl then
      let element ← info.type.element
      if isPrimitiveTypeId (E.typeId element) then
        -- the size asked for is that of the array type
        let size := getSizeOfPrimitiveType typeId
        if size < 8 then
          let data := (o.arrays i).map fun bs => UInt64.ofNat (ofLeBytes (bs.take size))
          .ok [{ property with primitiveSize := UInt32.ofNat size, primitiveDat := data }]
        else .error .assertion
      else .ok []
    else .ok []

/-- The loop of `Serializer::serializeObject` over properties with their indices. -/
def serializeProperties (o : ScriptInstance c) (properties : List String) :
    List (PropertyInfo × Nat) → Except Trap (List Property)
  | [] => .ok []
  | (info, i) :: rest =>
    if info.name ∈ properties then do
      let ps ← serializeProperty E o i info
      let qs ← serializeProperties o properties rest
      .ok (ps ++ qs)
    else serializeProperties o properties rest

/-- `Serializer::serializeObject`. -/
def serializeObject (o : ScriptInstance c) (properties : List String) :
    Except Trap (List Property) :=
  serializeProperties E o properties c.properties.zipIdx

/-- `decodePrimitive`: the bytes it writes, `none` where it returns false. -/
def decodePrimitive (src : Property) (index : Nat) : Option (List UInt8) :=
  match src.primitiveDat[index]? with
  | none => none
  | some data =>
    let size := src.primitiveSize.toNat
    if size > 8 then none else some ((leBytes 8 data.toNat).take size)

/-- `decodeString`: the string it assigns, `none` where it returns false. -/
def decodeString (src : Property) (index : Nat) : Option (List UInt8) := src.stringDat[index]?

/-- `deserializeSingular`. -/
def deserializeSingular (src : Property) (o : ScriptInstance c) (i : Nat) (decl : String)
    (typeId : UInt32) : Except Trap (Bool × ScriptInstance c) :=
  if isPrimitiveTypeId typeId then
    match decodePrimitive src 0 with
    | none => .ok (false, o)
    | some bs => (o.write (c.address i) bs).map (true, ·)
  else if decl = "string" then
    match decodeString src 0 with
    | none => .ok (false, o)
    | some s => .ok (true, { o with strings := Function.update o.strings i s })
  else .ok (false, o)

/-- The elements `deserializeArray` appends, and whether it returns true. The bytes it does not
decode stay as they were on the stack. -/
def decodeElements (src : Property) (decl : String) (typeId : UInt32) (width : Nat) :
    Bool × List (List UInt8) :=
  let upTo (decoded : List (Option (List UInt8))) : Bool × List (List UInt8) :=
    (decoded.all (·.isSome), (decoded.takeWhile (·.isSome)).reduceOption)
  if isPrimitiveTypeId typeId then
    upTo ((List.range src.primitiveDat.length).map fun i =>
      (decodePrimitive src i).map fun bs => (bs ++ E.stack.drop bs.length).take width)
  else if decl = "string" then
    upTo ((List.range src.stringDat.length).map (decodeString src))
  else (true, [])

/-- `deserializeArray`. -/
def deserializeArray (src : Property) (o : ScriptInstance c) (i : Nat) (decl : String)
    (typeId : UInt32) (element : ScriptType) : Bool × ScriptInstance c :=
  let (done, elements) := decodeElements E src decl typeId element.width
  (done, { o with arrays := Function.update o.arrays i elements })

/-- `Serializer::deserializeProperty`. There is no name for an index past the last property. -/
def deserializeProperty (source : Property) (o : ScriptInstance c) (propertyIndex : Nat) :
    Except Trap (Bool × ScriptInstance c) :=
  match c.properties[propertyIndex]? with
  | none => .error .outOfBounds
  | some info =>
    if info.name ≠ source.name then .error .assertion
    else if info.type.decl ≠ source.decl then .ok (false, o)
    else do
      let typeId := E.typeId info.type
      if ← isArrayDecl info.type.decl then
        let element ← info.type.element
        .ok (deserializeArray E source o propertyIndex info.type.decl typeId element)
      else deserializeSingular source o propertyIndex info.type.decl typeId

/-- `Serializer::deserializeObject`. -/
def deserializeObject : List Property → ScriptInstance c → Except Trap (Bool × ScriptInstance c)
  | [], o => .ok (true, o)
  | source :: rest, o => do
    let propIndex := c.properties.findIdx (·.name = source.name)
    let (done, o) ← deserializeProperty E source o propIndex
    if done then deserializeObject rest o else .ok (false, o)

end

/-! ## What the dispatch sees -/

theorem isPrimitiveTypeId_prim (E : TypeIds) (type : PrimType) :
    isPrimitiveTypeId (E.typeId (.prim type)) = true := by
  rw [E.typeId_prim]
  cases type <;> rfl

theorem getSizeOfPrimitiveType_prim (E : TypeIds) (type : PrimType) :
    getSizeOfPrimitiveType (E.typeId (.prim type)) = type.size := by
  rw [E.typeId_prim]
  cases type <;> rfl

theorem isPrimitiveTypeId_other (E : TypeIds) {type : ScriptType} (h : ∀ p, type ≠ .prim p) :
    isPrimitiveTypeId (E.typeId type) = false := by
  have hlt := E.typeId_other type h
  rw [isPrimitiveTypeId, Bool.and_eq_false_iff]
  exact .inr (decide_eq_false (UInt32.not_le.2 hlt))

theorem isPrimitiveTypeId_iff (E : TypeIds) {type : ScriptType} :
    isPrimitiveTypeId (E.typeId type) = true ↔ ∃ p, type = .prim p := by
  refine ⟨fun h => ?_, fun ⟨p, hp⟩ => hp ▸ isPrimitiveTypeId_prim E p⟩
  by_contra hother
  rw [isPrimitiveTypeId_other E fun p hp => hother ⟨p, hp⟩] at h
  cases h

theorem getSizeOfPrimitiveType_other (E : TypeIds) {type : ScriptType}
    (h : ∀ p, type ≠ .prim p) : getSizeOfPrimitiveType (E.typeId type) = 0 := by
  have hlt := UInt32.lt_iff_toNat_lt.1 (E.typeId_other type h)
  have hdouble : PrimType.double.typeId.toNat = 11 := rfl
  unfold getSizeOfPrimitiveType
  split <;> omega

theorem isArrayDecl_array (element : ScriptType) :
    isArrayDecl (ScriptType.array element).decl = .ok true := by
  simp [isArrayDecl, ScriptType.decl, String.toList_append]

theorem isArrayDecl_prim (type : PrimType) : isArrayDecl type.decl = .ok false := by
  cases type <;> rfl

theorem decl_prim_ne_string (type : PrimType) : (ScriptType.prim type).decl ≠ "string" := by
  cases type <;> decide

theorem decl_array_ne_string (element : ScriptType) :
    (ScriptType.array element).decl ≠ "string" := by
  intro h
  have harray := isArrayDecl_array element
  rw [h] at harray
  cases harray

/-! ## The memory of an object -/

namespace ScriptClass

variable {c : ScriptClass} {info : PropertyInfo}

theorem le_byteOffset (size propSize : Nat) : size ≤ byteOffset size propSize := by
  unfold byteOffset
  split
  · exact Nat.le_succ _
  split
  · exact Nat.le_add_right _ _
  · exact Nat.le_refl _

theorem sizeOfProperties_take_succ (h : c.properties[i]? = some info) :
    sizeOfProperties (c.properties.take (i + 1)) = c.address i + info.type.width := by
  simp [sizeOfProperties, address, List.take_add_one, h, List.foldl_append]

theorem sizeOfProperties_take_le_address (c : ScriptClass) (i : Nat) :
    sizeOfProperties (c.properties.take i) ≤ c.address i := le_byteOffset _ _

theorem sizeOfProperties_take_mono (h : i ≤ j) :
    sizeOfProperties (c.properties.take i) ≤ sizeOfProperties (c.properties.take j) := by
  induction h with
  | refl => exact Nat.le_refl _
  | @step j _ ih =>
    refine Nat.le_trans ih ?_
    cases hinfo : c.properties[j]? with
    | none => simp [List.take_add_one, hinfo]
    | some info =>
      rw [sizeOfProperties_take_succ hinfo]
      exact Nat.le_trans (sizeOfProperties_take_le_address c j) (Nat.le_add_right _ _)

theorem address_add_width_le_address (h : c.properties[i]? = some info) (hlt : i < j) :
    c.address i + info.type.width ≤ c.address j := by
  rw [← sizeOfProperties_take_succ h]
  exact Nat.le_trans (sizeOfProperties_take_mono hlt) (sizeOfProperties_take_le_address c j)

/-- The ranges of two properties do not overlap. -/
theorem address_disjoint {info' : PropertyInfo} (h : c.properties[i]? = some info)
    (h' : c.properties[j]? = some info') (hne : j ≠ i) :
    c.address j + info'.type.width ≤ c.address i ∨
      c.address i + info.type.width ≤ c.address j := by
  rcases Nat.lt_or_gt_of_ne hne with hlt | hlt
  · exact .inl (address_add_width_le_address h' hlt)
  · exact .inr (address_add_width_le_address h hlt)

theorem address_add_width_le (h : c.properties[i]? = some info) :
    c.address i + info.type.width ≤ c.size := by
  obtain ⟨hi, -⟩ := List.getElem?_eq_some_iff.1 h
  have hall : c.properties.take c.properties.length = c.properties := List.take_length
  rw [← sizeOfProperties_take_succ h, size, ← congrArg sizeOfProperties hall]
  exact sizeOfProperties_take_mono hi

/-- The bytes of a property that is no pointer are no pointer's. -/
theorem not_coversPointer (h : c.properties[i]? = some info) (hplain : ¬ info.type.IsPointer) :
    ¬ c.CoversPointer (c.address i) info.type.width := by
  rintro ⟨⟨info', j⟩, hmem, hpointer, hlow, hhigh⟩
  have hj : c.properties[j]? = some info' := List.mem_zipIdx_iff_getElem?.1 hmem
  by_cases hne : j = i
  · subst hne
    obtain rfl : info' = info := Option.some.inj (hj.symm.trans h)
    exact hplain hpointer
  · have hdisjoint := address_disjoint h hj hne
    rw [ScriptType.width_of_isPointer hpointer] at hdisjoint
    dsimp only at hlow hhigh
    omega

/-- A property is found under its name. -/
theorem findIdx_name (h : c.properties[i]? = some info) :
    c.properties.findIdx (·.name = info.name) = i := by
  obtain ⟨hi, rfl⟩ := List.getElem?_eq_some_iff.1 h
  refine (List.findIdx_eq hi).2 ⟨by simp, fun j hj => ?_⟩
  have hne := List.pairwise_iff_getElem.1 c.nodup j i (by simp; omega) (by simpa using hi) hj
  simp only [List.getElem_map] at hne
  exact decide_eq_false hne

end ScriptClass

namespace ScriptInstance

variable {c : ScriptClass} {o : ScriptInstance c} {info : PropertyInfo}

/-- The value of a property is made of its bytes and of what is kept beside the memory. -/
theorem value_congr {o' : ScriptInstance c}
    (hmemory : ∀ info, c.properties[j]? = some info →
      slice o'.memory (c.address j) info.type.width = slice o.memory (c.address j) info.type.width)
    (hstrings : o'.strings j = o.strings j) (harrays : o'.arrays j = o.arrays j) :
    o'.value j = o.value j := by
  rw [value, value]
  cases hinfo : c.properties[j]? with
  | none => rfl
  | some info =>
    have hslice := hmemory info hinfo
    rw [Option.map_some, Option.map_some, Option.some.injEq]
    cases htype : info.type with
    | prim | enum | pod =>
      rw [htype] at hslice
      exact congrArg _ hslice
    | string => exact congrArg _ hstrings
    | array => exact congrArg _ harrays
    | object | handle => rfl

/-- Writing the range of one property leaves the others alone. -/
theorem write_property (h : c.properties[i]? = some info) (hplain : ¬ info.type.IsPointer)
    (hlen : bs.length = info.type.width) :
    ∃ o', o.write (c.address i) bs = .ok o' ∧ slice o'.memory (c.address i) bs.length = bs ∧
      ∀ j, j ≠ i → o'.value j = o.value j := by
  have hfits : c.address i + bs.length ≤ o.memory.length := by
    rw [hlen, o.size_eq]
    exact ScriptClass.address_add_width_le h
  have hclear : ¬ c.CoversPointer (c.address i) bs.length :=
    hlen ▸ ScriptClass.not_coversPointer h hplain
  refine ⟨_, by rw [write, dif_pos hfits, if_neg hclear], slice_overwrite_self hfits,
    fun j hj => ?_⟩
  refine value_congr (fun info' hinfo' => ?_) rfl rfl
  rcases ScriptClass.address_disjoint h hinfo' hj with hbefore | hafter
  · exact slice_overwrite_before hfits hbefore
  · exact slice_overwrite_after hfits (hlen ▸ hafter)

theorem value_update_strings (s : List UInt8) (hj : j ≠ i) :
    { o with strings := Function.update o.strings i s }.value j = o.value j :=
  value_congr (fun _ _ => rfl) (Function.update_of_ne hj _ _) rfl

theorem value_update_arrays (elements : List (List UInt8)) (hj : j ≠ i) :
    { o with arrays := Function.update o.arrays i elements }.value j = o.value j :=
  value_congr (fun _ _ => rfl) rfl (Function.update_of_ne hj _ _)

end ScriptInstance

/-! ## One property -/

section
variable {c : ScriptClass} {E : TypeIds} {o : ScriptInstance c} {info : PropertyInfo}

/-- What arrives of a property: all of it, unless it is an array. -/
def ScriptInstance.transferred (o : ScriptInstance c) (i : Nat) : ScriptType → PropertyValue
  | .array _ => .array []
  | type => o.valueAs i type

/-- `p` stands for the `i`-th property of `o`: writing it to any object of the class sets that
property to what arrives of it, and no other. -/
structure Carries (E : TypeIds) (o : ScriptInstance c) (i : Nat) (info : PropertyInfo)
    (p : Property) : Prop where
  name : p.name = info.name
  deserialize : ∀ o' : ScriptInstance c, ∃ o'', deserializeProperty E p o' i = .ok (true, o'') ∧
    o''.valueAs i info.type = o.transferred i info.type ∧ ∀ j, j ≠ i → o''.value j = o'.value j

/-- A 64-bit primitive fails the assertion on its size. -/
theorem serializeProperty_wide (h : info.type = .prim type) (hwide : ¬ type.size < 8) :
    serializeProperty E o i info = .error .assertion := by
  simp only [serializeProperty, h, isPrimitiveTypeId_prim, getSizeOfPrimitiveType_prim, if_true,
    if_neg hwide]

/-- The bytes of a primitive survive the `uint64` they travel in. -/
theorem decodePrimitive_bytes {p : Property} {bs : List UInt8} (hlen : bs.length < 8)
    (hsize : p.primitiveSize = UInt32.ofNat bs.length)
    (hdat : p.primitiveDat = [UInt64.ofNat (ofLeBytes bs)]) : decodePrimitive p 0 = some bs := by
  have hnum : p.primitiveSize.toNat = bs.length := by
    rw [hsize, UInt32.toNat_ofNat_of_lt' (by simp only [UInt32.size]; omega)]
  have hlt : ofLeBytes bs < UInt64.size :=
    Nat.lt_of_lt_of_le (ofLeBytes_lt bs) (Nat.pow_le_pow_right (by decide) (Nat.le_of_lt hlen))
  have hle : ¬ bs.length > 8 := by omega
  simp only [decodePrimitive, hdat, List.getElem?_cons_zero, hnum, if_neg hle,
    UInt64.toNat_ofNat_of_lt' hlt, take_leBytes (Nat.le_of_lt hlen), leBytes_ofLeBytes]

theorem length_slice_property (hinfo : c.properties[i]? = some info) :
    (slice o.memory (c.address i) info.type.width).length = info.type.width := by
  rw [length_slice]
  rw [o.size_eq]
  exact ScriptClass.address_add_width_le hinfo

theorem carries_prim (hinfo : c.properties[i]? = some info) (h : info.type = .prim type)
    {p : Property} (hname : p.name = info.name) (hdecl : p.decl = info.type.decl)
    (hdecode : decodePrimitive p 0 = some (slice o.memory (c.address i) info.type.width)) :
    Carries E o i info p := by
  refine ⟨hname, fun o' => ?_⟩
  obtain ⟨o'', hwrite, hslice, hframe⟩ :=
    o'.write_property hinfo (by simp [h, ScriptType.IsPointer])
      (length_slice_property (o := o) hinfo)
  have harray : isArrayDecl info.type.decl = .ok false := by
    rw [h]
    exact isArrayDecl_prim type
  have hprim : isPrimitiveTypeId (E.typeId info.type) = true := by
    rw [h]
    exact isPrimitiveTypeId_prim E type
  refine ⟨o'', ?_, ?_, hframe⟩
  · simp only [deserializeProperty, hinfo, hname, hdecl, ne_eq, not_true_eq_false, if_false, harray,
      bind, Except.bind, Bool.false_eq_true, deserializeSingular, hprim, if_true, hdecode, hwrite]
    rfl
  · rw [length_slice_property hinfo, h] at hslice
    rw [h]
    exact congrArg _ hslice

theorem serializeProperty_prim (hinfo : c.properties[i]? = some info) (h : info.type = .prim type)
    (hsmall : info.type.Narrow) :
    ∃ p, serializeProperty E o i info = .ok [p] ∧ Carries E o i info p := by
  have hwidth : info.type.width = type.size := by rw [h]; rfl
  have hlen := length_slice_property (o := o) hinfo
  have hsize : type.size < 8 := by rwa [h] at hsmall
  refine ⟨{
    name := info.name
    decl := info.type.decl
    primitiveSize := UInt32.ofNat info.type.width
    primitiveDat := [UInt64.ofNat (ofLeBytes (slice o.memory (c.address i) info.type.width))] },
    ?_, carries_prim hinfo h rfl rfl
      (decodePrimitive_bytes (by rwa [hlen, hwidth]) (by rw [hlen]) rfl)⟩
  rw [hwidth]
  simp only [serializeProperty, h, isPrimitiveTypeId_prim, getSizeOfPrimitiveType_prim, if_true,
    if_pos hsize]

theorem serializeProperty_string (hinfo : c.properties[i]? = some info)
    (h : info.type = .string) :
    ∃ p, serializeProperty E o i info = .ok [p] ∧ Carries E o i info p := by
  have hprim : isPrimitiveTypeId (E.typeId info.type) = false :=
    isPrimitiveTypeId_other E (by simp [h])
  have hstring : info.type.decl = "string" := by rw [h]; rfl
  have harray : isArrayDecl "string" = .ok false := rfl
  refine ⟨{ name := info.name, decl := info.type.decl, stringDat := [o.strings i] }, ?_, rfl,
    fun o' => ?_⟩
  · simp only [serializeProperty, hprim, Bool.false_eq_true, if_false, hstring, if_true]
  refine ⟨{ o' with strings := Function.update o'.strings i (o.strings i) }, ?_, ?_,
    fun j hj => ScriptInstance.value_update_strings _ hj⟩
  · simp only [deserializeProperty, hinfo, ne_eq, not_true_eq_false, if_false, hstring, harray,
      bind, Except.bind, Bool.false_eq_true, deserializeSingular, hprim, if_true, decodeString,
      List.getElem?_cons_zero]
  · rw [h]
    exact congrArg _ (Function.update_self _ _ _)

/-- Whatever it holds, a property whose declaration is that of an array empties the array. -/
theorem carries_array (hinfo : c.properties[i]? = some info) (h : info.type = .array element)
    (p : Property) (hname : p.name = info.name) (hdecl : p.decl = info.type.decl) :
    Carries E o i info p := by
  refine ⟨hname, fun o' => ?_⟩
  have hprim : isPrimitiveTypeId (E.typeId (.array element)) = false :=
    isPrimitiveTypeId_other E (by simp)
  refine ⟨{ o' with arrays := Function.update o'.arrays i [] }, ?_, ?_,
    fun j hj => ScriptInstance.value_update_arrays _ hj⟩
  · simp only [deserializeProperty, hinfo, hname, hdecl, ne_eq, not_true_eq_false, if_false, h,
      isArrayDecl_array, bind, Except.bind, if_true, ScriptType.element, deserializeArray,
      decodeElements, hprim, Bool.false_eq_true, if_neg (decl_array_ne_string element)]
  · rw [h]
    exact congrArg _ (Function.update_self _ _ _)

theorem serializeProperty_array (hinfo : c.properties[i]? = some info)
    (h : info.type = .array element) (hser : info.type.Serializable) :
    ∃ p, serializeProperty E o i info = .ok [p] ∧ Carries E o i info p := by
  have hprim : isPrimitiveTypeId (E.typeId (.array element)) = false :=
    isPrimitiveTypeId_other E (by simp)
  have hsize : getSizeOfPrimitiveType (E.typeId (.array element)) = 0 :=
    getSizeOfPrimitiveType_other E (by simp)
  rw [h] at hser
  cases element with
  | string =>
    refine ⟨{ name := info.name, decl := info.type.decl, stringDat := o.arrays i }, ?_,
      carries_array hinfo h _ rfl rfl⟩
    simp only [serializeProperty, h, hprim, Bool.false_eq_true, if_false, ScriptType.decl]
    rfl
  | prim type =>
    refine ⟨{
      name := info.name
      decl := info.type.decl
      primitiveSize := UInt32.ofNat 0
      primitiveDat := (o.arrays i).map fun bs => UInt64.ofNat (ofLeBytes (bs.take 0)) }, ?_,
      carries_array hinfo h _ rfl rfl⟩
    have hstrings : (ScriptType.array (.prim type)).decl ≠ "string[]" := by
      cases type <;> decide
    simp only [serializeProperty, h, hprim, Bool.false_eq_true, if_false, hsize, if_neg hstrings,
      if_neg (decl_array_ne_string _), isArrayDecl_array, bind, Except.bind, if_true,
      ScriptType.element, isPrimitiveTypeId_prim]
    rfl
  | enum | pod | object | handle | array => exact absurd hser (by simp [ScriptType.Serializable])

/-- Of a listed property that the serializer is made for, one entry is written, except of 64-bit
primitives. -/
theorem serializeProperty_spec (hinfo : c.properties[i]? = some info)
    (hser : info.type.Serializable) (hsmall : info.type.Narrow) :
    ∃ p, serializeProperty E o i info = .ok [p] ∧ Carries E o i info p := by
  cases h : info.type with
  | prim type => exact serializeProperty_prim hinfo h hsmall
  | string => exact serializeProperty_string hinfo h
  | array element => exact serializeProperty_array hinfo h hser
  | enum | pod | object | handle => exact absurd hser (by simp [h, ScriptType.Serializable])

end

/-! ## A whole object -/

section
variable {c : ScriptClass} {E : TypeIds} {o : ScriptInstance c} {properties : List String}
  {info : PropertyInfo}

theorem ScriptInstance.value_eq (h : c.properties[i]? = some info) :
    o.value i = some (o.valueAs i info.type) := by
  rw [value, h, Option.map_some]

/-- The properties that are written one after the other arrive, and nothing else changes. -/
theorem serializeProperties_spec (l : List (PropertyInfo × Nat)) (hnodup : (l.map (·.2)).Nodup)
    (hl : ∀ x ∈ l, c.properties[x.2]? = some x.1)
    (hser : ∀ x ∈ l, x.1.name ∈ properties → x.1.type.Serializable ∧ x.1.type.Narrow) :
    ∃ ps, serializeProperties E o properties l = .ok ps ∧
      ∀ o' : ScriptInstance c, ∃ o'', deserializeObject E ps o' = .ok (true, o'') ∧
        (∀ x ∈ l, x.1.name ∈ properties →
          o''.valueAs x.2 x.1.type = o.transferred x.2 x.1.type) ∧
        ∀ j, (∀ x ∈ l, x.1.name ∈ properties → x.2 ≠ j) → o''.value j = o'.value j := by
  induction l with
  | nil => exact ⟨[], rfl, fun o' => ⟨o', rfl, by simp, fun _ _ => rfl⟩⟩
  | cons x l ih =>
    obtain ⟨info, i⟩ := x
    obtain ⟨hi, hnodup⟩ := List.nodup_cons.1 hnodup
    obtain ⟨hinfo, hl⟩ := List.forall_mem_cons.1 hl
    obtain ⟨hser1, hser⟩ := List.forall_mem_cons.1 hser
    obtain ⟨ps, hps, hread⟩ := ih hnodup hl hser
    by_cases hlisted : info.name ∈ properties
    · obtain ⟨hkind, hsmall⟩ := hser1 hlisted
      obtain ⟨p, hp, hcarries⟩ := serializeProperty_spec (E := E) (o := o) hinfo hkind hsmall
      refine ⟨p :: ps, ?_, fun o' => ?_⟩
      · simp only [serializeProperties, if_pos hlisted, hp, hps, bind, Except.bind]
        rfl
      obtain ⟨o1, hfirst, hvalue, hframe1⟩ := hcarries.deserialize o'
      obtain ⟨o'', hrest, hvalues, hframe⟩ := hread o1
      refine ⟨o'', ?_, List.forall_mem_cons.2 ⟨fun _ => ?_, hvalues⟩, fun j hj => ?_⟩
      · simp only [deserializeObject, hcarries.name, ScriptClass.findIdx_name hinfo, hfirst, bind,
          Except.bind, if_true, hrest]
      · have hkeep : o''.value i = o1.value i :=
          hframe i fun x hx _ heq => hi (List.mem_map.2 ⟨x, hx, heq⟩)
        rw [ScriptInstance.value_eq hinfo, ScriptInstance.value_eq hinfo] at hkeep
        rw [Option.some.inj hkeep, hvalue]
      · obtain ⟨hne, hj⟩ := List.forall_mem_cons.1 hj
        rw [hframe j hj, hframe1 j (Ne.symm (hne hlisted))]
    · refine ⟨ps, by rw [serializeProperties, if_neg hlisted, hps], fun o' => ?_⟩
      obtain ⟨o'', hrest, hvalues, hframe⟩ := hread o'
      exact ⟨o'', hrest, List.forall_mem_cons.2 ⟨fun h => absurd h hlisted, hvalues⟩,
        fun j hj => hframe j (List.forall_mem_cons.1 hj).2⟩

/-- A completed serialization failed no assertion on the way. -/
theorem serializeProperties_ok {l : List (PropertyInfo × Nat)} {ps : List Property}
    (h : serializeProperties E o properties l = .ok ps) :
    ∀ x ∈ l, x.1.name ∈ properties → ∃ qs, serializeProperty E o x.2 x.1 = .ok qs := by
  induction l generalizing ps with
  | nil => simp
  | cons x l ih =>
    obtain ⟨info, i⟩ := x
    rw [serializeProperties] at h
    split at h
    · next hlisted =>
      cases hp : serializeProperty E o i info with
      | error e => simp [hp, bind, Except.bind] at h
      | ok qs =>
        cases hrest : serializeProperties E o properties l with
        | error e => simp [hp, hrest, bind, Except.bind] at h
        | ok rs => exact List.forall_mem_cons.2 ⟨fun _ => ⟨qs, hp⟩, ih hrest⟩
    · next hlisted => exact List.forall_mem_cons.2 ⟨fun hl => absurd hl hlisted, ih h⟩

/-- `serializeObject` of `o` fails no assertion, and `deserializeObject` of its output into `o'`
succeeds, gives every listed property its value in `o` and leaves the others unchanged. -/
def RoundTrips (E : TypeIds) (o o' : ScriptInstance c) (properties : List String) : Prop :=
  ∃ ps o'', serializeObject E o properties = .ok ps ∧ deserializeObject E ps o' = .ok (true, o'') ∧
    ∀ i info, c.properties[i]? = some info →
      o''.value i = if info.name ∈ properties then o.value i else o'.value i

theorem mem_zipIdx_iff {x : PropertyInfo × Nat} :
    x ∈ c.properties.zipIdx ↔ c.properties[x.2]? = some x.1 := by
  simp [List.mem_zipIdx_iff_getElem?]

theorem serializeObject_spec (hser : ∀ i info, c.Listed properties i info →
      info.type.Serializable ∧ info.type.Narrow) :
    ∃ ps, serializeObject E o properties = .ok ps ∧
      ∀ o' : ScriptInstance c, ∃ o'', deserializeObject E ps o' = .ok (true, o'') ∧
        ∀ i (info : PropertyInfo), c.properties[i]? = some info → o''.value i =
          if info.name ∈ properties then some (o.transferred i info.type) else o'.value i := by
  have hnodup : (c.properties.zipIdx.map (·.2)).Nodup := List.nodup_zipIdx_map_snd _
  obtain ⟨ps, hps, hread⟩ := serializeProperties_spec (E := E) (o := o) c.properties.zipIdx hnodup
    (fun x hx => mem_zipIdx_iff.1 hx) (fun x hx hx' => hser x.2 x.1 ⟨mem_zipIdx_iff.1 hx, hx'⟩)
  refine ⟨ps, hps, fun o' => ?_⟩
  obtain ⟨o'', hread, hvalues, hframe⟩ := hread o'
  refine ⟨o'', hread, fun i info hinfo => ?_⟩
  split
  · next hlisted =>
    rw [ScriptInstance.value_eq hinfo, hvalues (info, i) (mem_zipIdx_iff.2 hinfo) hlisted]
  · next hlisted =>
    refine hframe i fun x hx hx_listed heq => hlisted ?_
    have hinfo' := mem_zipIdx_iff.1 hx
    rw [heq, hinfo] at hinfo'
    rwa [Option.some.inj hinfo']

theorem prim_of_wide (hser : info.type.Serializable) (hwide : ¬ info.type.Narrow) :
    ∃ type, info.type = .prim type ∧ ¬ type.size < 8 := by
  cases h : info.type with
  | prim type => exact ⟨type, rfl, by rwa [h] at hwide⟩
  | string | array | object | handle | pod => simp [h, ScriptType.Narrow] at hwide
  | enum name => simp [h, ScriptType.Serializable] at hser

/-- The serializer writes no 64-bit primitive. -/
theorem narrow_of_serializeObject {ps : List Property}
    (hser : ∀ i info, c.Listed properties i info → info.type.Serializable)
    (hps : serializeObject E o properties = .ok ps) {i : Nat} {info : PropertyInfo}
    (hlisted : c.Listed properties i info) : info.type.Narrow := by
  by_contra hwide
  obtain ⟨type, htype, hsize⟩ := prim_of_wide (hser i info hlisted) hwide
  obtain ⟨qs, hqs⟩ := serializeProperties_ok hps (info, i) (mem_zipIdx_iff.2 hlisted.1) hlisted.2
  rw [serializeProperty_wide htype hsize] at hqs
  cases hqs

/-- What arrives of a property is what it was, except of an array with elements. -/
theorem ScriptInstance.transferred_eq_iff {type : ScriptType} :
    o.transferred i type = o.valueAs i type ↔
      ∀ element, type = .array element → o.arrays i = [] := by
  cases type with
  | array element =>
    rw [transferred, valueAs, PropertyValue.array.injEq]
    exact ⟨fun h _ _ => h.symm, fun h => (h element rfl).symm⟩
  | prim | string | enum | pod | object | handle => simp [transferred]

/-- **The round trip of an object's properties.** Properties of the kinds the serializer is made for
survive if and only if none of the listed ones is a 64-bit primitive and all listed arrays are
empty. -/
theorem roundTrips_iff {o' : ScriptInstance c}
    (hser : ∀ i info, c.Listed properties i info → info.type.Serializable) :
    RoundTrips E o o' properties ↔ ∀ i info, c.Listed properties i info →
      info.type.Narrow ∧ ∀ element, info.type = .array element → o.arrays i = [] := by
  constructor
  · rintro ⟨ps, o'', hps, hread, hvalues⟩
    have hsmall : ∀ i info, c.Listed properties i info →
        info.type.Serializable ∧ info.type.Narrow := fun i info hlisted =>
      ⟨hser i info hlisted, narrow_of_serializeObject hser hps hlisted⟩
    obtain ⟨ps', hps', hspec⟩ := serializeObject_spec (E := E) (o := o) hsmall
    obtain rfl : ps = ps' := Except.ok.inj (hps.symm.trans hps')
    obtain ⟨o1, hread', hvalues'⟩ := hspec o'
    obtain rfl : o'' = o1 := (Prod.mk.inj (Except.ok.inj (hread.symm.trans hread'))).2
    intro i info hlisted
    refine ⟨(hsmall i info hlisted).2, ScriptInstance.transferred_eq_iff.1 ?_⟩
    have hvalue := (hvalues i info hlisted.1).symm.trans (hvalues' i info hlisted.1)
    rw [if_pos hlisted.2, if_pos hlisted.2, ScriptInstance.value_eq hlisted.1] at hvalue
    exact (Option.some.inj hvalue).symm
  · intro H
    obtain ⟨ps, hps, hspec⟩ := serializeObject_spec (E := E) (o := o) fun i info hlisted =>
      ⟨hser i info hlisted, (H i info hlisted).1⟩
    obtain ⟨o'', hread, hvalues⟩ := hspec o'
    refine ⟨ps, o'', hps, hread, fun i info hinfo => ?_⟩
    rw [hvalues i info hinfo]
    split
    · next hlisted =>
      rw [ScriptInstance.value_eq hinfo,
        ScriptInstance.transferred_eq_iff.2 (H i info ⟨hinfo, hlisted⟩).2]
    · rfl

end

/-! ## The class of the test campaign -/

/-- Type ids as an engine with the test campaign's types hands them out. -/
def testTypeIds : TypeIds where
  typeId
    | .prim type => type.typeId
    | .enum _ => 12
    | .pod _ _ => 0x08000010
    | .string => 0x0400000D
    | .object _ => 0x0800000E
    | .handle _ => 0x4800000E
    | .array _ => 0x5000000F
  typeId_prim _ := rfl
  typeId_other type h := by
    cases type with
    | prim p => exact absurd rfl (h p)
    | string | enum | pod | object | handle | array =>
      dsimp only
      decide
  stack := List.replicate 8 0

/-- `Character` of the test campaign. -/
def characterClass : ScriptClass where
  properties := [⟨"timeOut", .prim .float⟩, ⟨"bla", .prim .int32⟩, ⟨"foo", .string⟩,
    ⟨"blup", .array .string⟩, ⟨"constants", .array (.prim .double)⟩,
    ⟨"m_objectId", .prim .uint32⟩]
  nodup := by decide

/-- A character with the number 1337, the given name and the given strings. -/
def character (foo : List UInt8) (blup : List (List UInt8)) : ScriptInstance characterClass where
  memory := [0, 0, 0x20, 0x41, 0x39, 0x05, 0, 0] ++ List.replicate 28 0
  size_eq := rfl
  strings i := if i = 2 then foo else []
  arrays i := if i = 3 then blup else []

theorem listed_bla_foo {i : Nat} {info : PropertyInfo}
    (h : characterClass.Listed ["bla", "foo"] i info) :
    info.type = .prim .int32 ∨ info.type = .string := by
  obtain ⟨hinfo, hname⟩ := h
  rcases i with _ | _ | _ | _ | _ | _ | i <;> cases hinfo <;> simp at hname ⊢

/-- Its number and its name survive. -/
theorem roundTrips_bla_foo :
    RoundTrips testTypeIds (character [72, 105] [[65]]) (character [] []) ["bla", "foo"] := by
  refine (roundTrips_iff fun i info h => ?_).2 fun i info h => ?_
  · rcases listed_bla_foo h with htype | htype <;> rw [htype] <;> trivial
  · rcases listed_bla_foo h with htype | htype <;> rw [htype] <;> exact ⟨by decide, nofun⟩

/-- The strings it synchronises do not. -/
theorem not_roundTrips_blup :
    ¬ RoundTrips testTypeIds (character [72, 105] [[65]]) (character [] []) ["blup"] := by
  rintro ⟨ps, o'', hps, hread, hvalues⟩
  cases hps
  cases hread
  have hblup := hvalues 3 _ rfl
  revert hblup
  decide

end NetSiege
