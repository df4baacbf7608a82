import NetSiege.Lib.Except
import NetSiege.Script.Serializer

/-!
# What decoding a property touches (`serializer.cpp`)

`deserializeProperty` refuses a property, copies the bytes of a primitive, assigns a string or
empties an array (`deserializeProperty_eq_ok`). `deserializeObject` stops at the first refused
property and takes none of the writes before it back (`deserializeObject_rejected`). How many bytes
of a primitive are copied is the message's choice, so that a write stays inside its property only
for one size (`writesOnly_iff`). Whether a list of properties can be read at all is a matter of the
class, not of the object (`deserializeObject_ok_iff`).
-/

namespace NetSiege

open Lib

/-! ## One property -/

section
variable {c : ScriptClass} {E : TypeIds} {src : Property} {o o' : ScriptInstance c}
  {info : PropertyInfo}

/-- `o'` is `o` with the `i`-th property written from a received one. -/
inductive Decoded (src : Property) (o : ScriptInstance c) (i : Nat) (info : PropertyInfo)
    (o' : ScriptInstance c) : Prop where
  | primitive (type : PrimType) (htype : info.type = .prim type) (bs : List UInt8)
    (hdecode : decodePrimitive src 0 = some bs) (hwrite : o.write (c.address i) bs = .ok o')
  | string (hstring : info.type.decl = "string") (s : List UInt8)
    (hdecode : decodeString src 0 = some s)
    (hset : o' = { o with strings := Function.update o.strings i s })
  | array (element : ScriptType) (htype : info.type = .array element)
    (hset : o' = { o with arrays := Function.update o.arrays i [] })

theorem deserializeSingular_eq_ok (h : deserializeSingular src o i info.type.decl
      (E.typeId info.type) = .ok (done, o')) :
    done = false ∧ o' = o ∨ done = true ∧ Decoded src o i info o' := by
  rw [deserializeSingular] at h
  split at h
  · next hprim =>
    obtain ⟨type, htype⟩ := (isPrimitiveTypeId_iff E).1 hprim
    cases hdecode : decodePrimitive src 0 with
    | none =>
      rw [hdecode] at h
      cases h
      exact .inl ⟨rfl, rfl⟩
    | some bs =>
      cases hwrite : o.write (c.address i) bs with
      | error e =>
        simp only [hdecode, hwrite] at h
        cases h
      | ok o1 =>
        simp only [hdecode, hwrite] at h
        cases h
        exact .inr ⟨rfl, .primitive type htype bs hdecode hwrite⟩
  split at h
  · next hstring =>
    cases hdecode : decodeString src 0 with
    | none =>
      rw [hdecode] at h
      cases h
      exact .inl ⟨rfl, rfl⟩
    | some s =>
      rw [hdecode] at h
      cases h
      exact .inr ⟨rfl, .string hstring s hdecode rfl⟩
  · cases h
    exact .inl ⟨rfl, rfl⟩

/-- The type id handed to `deserializeArray` is that of the array, so that nothing is read. -/
theorem deserializeArray_array (E : TypeIds) (src : Property) (o : ScriptInstance c) (i : Nat)
    (element : ScriptType) :
    deserializeArray E src o i (ScriptType.array element).decl (E.typeId (.array element)) element =
      (true, { o with arrays := Function.update o.arrays i [] }) := by
  have hprim : isPrimitiveTypeId (E.typeId (.array element)) = false :=
    isPrimitiveTypeId_other E (by simp)
  simp only [deserializeArray, decodeElements, hprim, Bool.false_eq_true, if_false,
    if_neg (decl_array_ne_string element)]

/-- What a completed `deserializeProperty` did. -/
theorem deserializeProperty_eq_ok (h : deserializeProperty E src o i = .ok (done, o')) :
    ∃ info, c.properties[i]? = some info ∧ info.name = src.name ∧
      (done = false ∧ o' = o ∨
        done = true ∧ info.type.decl = src.decl ∧ Decoded src o i info o') := by
  rw [deserializeProperty] at h
  cases hinfo : c.properties[i]? with
  | none =>
    rw [hinfo] at h
    cases h
  | some info =>
    simp only [hinfo, ne_eq, ite_not] at h
    split at h
    · next hname =>
      refine ⟨info, rfl, hname, ?_⟩
      split at h
      · next hdecl =>
        obtain ⟨isArray, -, h⟩ := bind_eq_ok.1 h
        split at h
        · obtain ⟨element, helement, h⟩ := bind_eq_ok.1 h
          have htype : info.type = .array element := by
            unfold ScriptType.element at helement
            split at helement
            · next htype =>
              cases helement
              exact htype
            · cases helement
          rw [htype, deserializeArray_array] at h
          cases h
          exact .inr ⟨rfl, hdecl, .array element htype rfl⟩
        · rcases deserializeSingular_eq_ok h with hrejected | ⟨hdone, hdecoded⟩
          · exact .inl hrejected
          · exact .inr ⟨hdone, hdecl, hdecoded⟩
      · cases h
        exact .inl ⟨rfl, rfl⟩
    · cases h

/-- A refused property changes nothing. -/
theorem eq_of_deserializeProperty_rejected (h : deserializeProperty E src o i = .ok (false, o')) :
    o' = o := by
  obtain ⟨info, -, -, ⟨-, heq⟩ | ⟨hdone, -⟩⟩ := deserializeProperty_eq_ok h
  · exact heq
  · cases hdone

end

/-! ## A whole object -/

/-- The property that a received one is looked up under. -/
def ScriptClass.indexOf (c : ScriptClass) (src : Property) : Nat :=
  c.properties.findIdx (·.name = src.name)

/-- Writing a received property may change the `j`-th one: it is the one named, or has a byte among
those that are copied to the address of the one named. -/
def ScriptClass.Reaches (c : ScriptClass) (src : Property) (j : Nat) : Prop :=
  j = c.indexOf src ∨ ∃ info type info' k,
    c.properties[c.indexOf src]? = some info ∧ info.type = .prim type ∧
      c.properties[j]? = some info' ∧
      (c.address j ≤ k ∧ k < c.address j + info'.type.width) ∧
      c.address (c.indexOf src) ≤ k ∧ k < c.address (c.indexOf src) + src.primitiveSize.toNat

/-- A list of properties is applied whole or not at all. -/
def Atomic (E : TypeIds) (c : ScriptClass) : Prop :=
  ∀ (ps : List Property) (o o' : ScriptInstance c), deserializeObject E ps o = .ok (false, o') →
    ∀ i, o'.value i = o.value i

section
variable {c : ScriptClass} {E : TypeIds} {src : Property} {o o' : ScriptInstance c}
  {info : PropertyInfo}

theorem deserializeObject_cons_eq_ok {rest : List Property} :
    deserializeObject E (src :: rest) o = .ok (done, o') ↔
      ∃ first o1, deserializeProperty E src o (c.indexOf src) = .ok (first, o1) ∧
        (if first then deserializeObject E rest o1 else .ok (false, o1)) = .ok (done, o') := by
  rw [deserializeObject, bind_eq_ok]
  exact Prod.exists

/-- A primitive that is decoded is the low bytes of its number. -/
theorem decodePrimitive_eq_some_iff : decodePrimitive src index = some bs ↔
    ∃ data, src.primitiveDat[index]? = some data ∧ src.primitiveSize.toNat ≤ 8 ∧
      bs = leBytes src.primitiveSize.toNat data.toNat := by
  rw [decodePrimitive]
  cases hdata : src.primitiveDat[index]? with
  | none => simp
  | some data =>
    dsimp only
    split
    · next hlarge => simp [Nat.not_le.2 hlarge]
    · next hsize =>
      have hle := Nat.le_of_not_lt hsize
      simp [hle, take_leBytes hle, eq_comm]

/-- There are no data, or the size is more than a number has. -/
theorem decodePrimitive_eq_none_iff : decodePrimitive src 0 = none ↔
    src.primitiveDat = [] ∨ 8 < src.primitiveSize.toNat := by
  rw [Option.eq_none_iff_forall_ne_some]
  refine ⟨fun h => ?_, fun h bs hbs => ?_⟩
  · cases hdat : src.primitiveDat with
    | nil => exact .inl rfl
    | cons data rest =>
      refine .inr (Nat.lt_of_not_le fun hsize => ?_)
      have hdata : src.primitiveDat[0]? = some data := by rw [hdat]; rfl
      exact h _ (decodePrimitive_eq_some_iff.2 ⟨data, hdata, hsize, rfl⟩)
  · obtain ⟨data, hdata, hsize, -⟩ := decodePrimitive_eq_some_iff.1 hbs
    rcases h with hnil | hlarge
    · rw [hnil] at hdata
      cases hdata
    · exact Nat.not_le.2 hlarge hsize

theorem length_decodePrimitive (h : decodePrimitive src index = some bs) :
    bs.length = src.primitiveSize.toNat := by
  obtain ⟨data, -, -, rfl⟩ := decodePrimitive_eq_some_iff.1 h
  exact length_leBytes _ _

theorem write_eq_ok (h : o.write off bs = .ok o') :
    (off + bs.length ≤ o.memory.length ∧ ¬ c.CoversPointer off bs.length) ∧
      o'.memory = overwrite o.memory off bs ∧ o'.strings = o.strings ∧ o'.arrays = o.arrays := by
  rw [ScriptInstance.write] at h
  split at h
  · next hfits =>
    split at h
    · cases h
    · next hclear =>
      cases h
      exact ⟨⟨hfits, hclear⟩, rfl, rfl, rfl⟩
  · cases h

theorem exists_write (hfits : off + bs.length ≤ o.memory.length)
    (hclear : ¬ c.CoversPointer off bs.length) : ∃ o', o.write off bs = .ok o' :=
  ⟨_, by rw [ScriptInstance.write, dif_pos hfits, if_neg hclear]⟩

theorem value_of_decoded (hinfo : c.properties[c.indexOf src]? = some info)
    (h : Decoded src o (c.indexOf src) info o') (hj : ¬ c.Reaches src j) :
    o'.value j = o.value j := by
  have hne : j ≠ c.indexOf src := fun heq => hj (.inl heq)
  cases h with
  | primitive type htype bs hdecode hwrite =>
    obtain ⟨⟨hfits, -⟩, hmemory, hstrings, harrays⟩ := write_eq_ok hwrite
    refine ScriptInstance.value_congr (fun info' hinfo' => ?_) (by rw [hstrings]) (by rw [harrays])
    refine slice_congr fun k hlow hhigh => ?_
    rw [hmemory]
    refine getElem?_overwrite_of_outside hfits ?_
    have hk : ¬ (c.address (c.indexOf src) ≤ k ∧
        k < c.address (c.indexOf src) + src.primitiveSize.toNat) := fun hk =>
      hj (.inr ⟨info, type, info', k, hinfo, htype, hinfo', ⟨hlow, hhigh⟩, hk⟩)
    rw [length_decodePrimitive hdecode]
    omega
  | string _ s _ hset => exact hset ▸ ScriptInstance.value_update_strings s hne
  | array _ _ hset => exact hset ▸ ScriptInstance.value_update_arrays [] hne

/-- A property none of the received ones reaches keeps its value. -/
theorem value_of_deserializeObject {ps : List Property}
    (h : deserializeObject E ps o = .ok (done, o')) (hj : ∀ p ∈ ps, ¬ c.Reaches p j) :
    o'.value j = o.value j := by
  induction ps generalizing o with
  | nil =>
    cases h
    rfl
  | cons src rest ih =>
    obtain ⟨hfirst, hrest⟩ := List.forall_mem_cons.1 hj
    obtain ⟨first, o1, hone, h⟩ := deserializeObject_cons_eq_ok.1 h
    have hkeep : o1.value j = o.value j := by
      obtain ⟨info, hinfo, -, ⟨-, rfl⟩ | ⟨-, -, hdecoded⟩⟩ := deserializeProperty_eq_ok hone
      · rfl
      · exact value_of_decoded hinfo hdecoded hfirst
    cases first with
    | true => rw [ih h hrest, hkeep]
    | false =>
      cases h
      exact hkeep

/-- **What a rejected update leaves behind.** The object is as the properties before the first
refused one left it, and nothing that none of these reaches has changed. -/
theorem deserializeObject_rejected {ps : List Property}
    (h : deserializeObject E ps o = .ok (false, o')) :
    ∃ accepted src rest, ps = accepted ++ src :: rest ∧
      deserializeObject E accepted o = .ok (true, o') ∧
      deserializeProperty E src o' (c.indexOf src) = .ok (false, o') ∧
      ∀ j, (∀ p ∈ accepted, ¬ c.Reaches p j) → o'.value j = o.value j := by
  suffices ∃ accepted src rest, ps = accepted ++ src :: rest ∧
      deserializeObject E accepted o = .ok (true, o') ∧
      deserializeProperty E src o' (c.indexOf src) = .ok (false, o') by
    obtain ⟨accepted, src, rest, hps, haccepted, hrefused⟩ := this
    exact ⟨accepted, src, rest, hps, haccepted, hrefused,
      fun j => value_of_deserializeObject haccepted⟩
  induction ps generalizing o with
  | nil => cases h
  | cons src rest ih =>
    obtain ⟨first, o1, hone, h⟩ := deserializeObject_cons_eq_ok.1 h
    cases first with
    | true =>
      obtain ⟨accepted, refused, rest', rfl, haccepted, hrefused⟩ := ih h
      exact ⟨src :: accepted, refused, rest', rfl,
        deserializeObject_cons_eq_ok.2 ⟨true, o1, hone, haccepted⟩, hrefused⟩
    | false =>
      cases h
      obtain rfl := eq_of_deserializeProperty_rejected hone
      exact ⟨[], src, rest, rfl, rfl, hone⟩

end

/-- A new number for a character, and its name as a number. -/
def mistypedUpdate : List Property :=
  [{ name := "bla", decl := "int", primitiveSize := 4, primitiveDat := [7] },
    { name := "foo", decl := "int", primitiveSize := 4, primitiveDat := [7] }]

theorem deserializeObject_mistypedUpdate :
    (deserializeObject testTypeIds mistypedUpdate (character [] [])).map
        (fun r => (r.1, r.2.value 1)) =
      .ok (false, some (.bytes [7, 0, 0, 0])) := rfl

/-- The number is rejected in one piece: the character has it all the same. -/
theorem not_atomic_character : ¬ Atomic testTypeIds characterClass := by
  intro h
  have hupdate := deserializeObject_mistypedUpdate
  cases hread : deserializeObject testTypeIds mistypedUpdate (character [] []) with
  | error e =>
    rw [hread] at hupdate
    cases hupdate
  | ok r =>
    obtain ⟨done, o'⟩ := r
    rw [hread] at hupdate
    obtain ⟨hdone, hvalue⟩ := Prod.mk.inj (Except.ok.inj hupdate)
    obtain rfl : done = false := hdone
    have hsame := h _ _ _ hread 1
    rw [show o'.value 1 = _ from hvalue] at hsame
    revert hsame
    decide

/-- What of it reaches neither the time-out nor the name. -/
theorem deserializeObject_rejected_mistypedUpdate :
    ∃ accepted src rest, mistypedUpdate = accepted ++ src :: rest ∧
      ∃ o', deserializeObject testTypeIds accepted (character [] []) = .ok (true, o') ∧
        ∀ j, (∀ p ∈ accepted, ¬ characterClass.Reaches p j) →
          o'.value j = (character [] []).value j := by
  obtain ⟨o', ho'⟩ : ∃ o', deserializeObject testTypeIds mistypedUpdate (character [] []) =
      .ok (false, o') := ⟨_, rfl⟩
  obtain ⟨accepted, src, rest, hps, haccepted, -, hkeep⟩ := deserializeObject_rejected ho'
  exact ⟨accepted, src, rest, hps, o', haccepted, hkeep⟩

/-! ## Staying inside the property -/

/-- The type is an array. -/
def ScriptType.isArray : ScriptType → Bool
  | array _ => true
  | _ => false

/-- Whatever the object, the received property is decoded into the `i`-th one alone, and where
`true` is returned for a primitive all of its bytes are the message's. -/
def WritesOnly (E : TypeIds) (c : ScriptClass) (src : Property) (i : Nat) (info : PropertyInfo) :
    Prop :=
  ∀ o : ScriptInstance c, ∃ done o', deserializeProperty E src o i = .ok (done, o') ∧
    (∀ k, ¬ (c.address i ≤ k ∧ k < c.address i + info.type.width) →
      o'.memory[k]? = o.memory[k]?) ∧
    (∀ j, j ≠ i → o'.value j = o.value j) ∧
    (done = true → ∀ type, info.type = .prim type → ∃ data ∈ src.primitiveDat.head?,
      slice o'.memory (c.address i) type.size = leBytes type.size data.toNat)

/-- An object of the class with one byte all over its memory. -/
def ScriptInstance.filled (c : ScriptClass) (b : UInt8) : ScriptInstance c where
  memory := List.replicate c.size b
  size_eq := List.length_replicate
  strings _ := []
  arrays _ := []

theorem exists_byte_ne (x : Option UInt8) : ∃ b, x ≠ some b := by
  by_cases hzero : x = some 0
  · exact ⟨1, by rw [hzero]; decide⟩
  · exact ⟨0, hzero⟩

theorem PrimType.size_le (type : PrimType) : type.size ≤ 8 := by
  cases type <;> decide

section
variable {c : ScriptClass} {E : TypeIds} {src : Property} {o o' : ScriptInstance c}
  {info : PropertyInfo}

/-- The dispatch of a property whose name and declaration match. -/
theorem deserializeProperty_of (hinfo : c.properties[i]? = some info)
    (hname : src.name = info.name) (hdecl : src.decl = info.type.decl) :
    deserializeProperty E src o i = isArrayDecl info.type.decl >>= fun isArray =>
      if isArray then info.type.element >>= fun element =>
        .ok (deserializeArray E src o i info.type.decl (E.typeId info.type) element)
      else deserializeSingular src o i info.type.decl (E.typeId info.type) := by
  simp only [deserializeProperty, hinfo, hname, hdecl, ne_eq, not_true_eq_false, if_false]

theorem deserializeProperty_prim (hinfo : c.properties[i]? = some info)
    (htype : info.type = .prim type) (hname : src.name = info.name)
    (hdecl : src.decl = info.type.decl) :
    deserializeProperty E src o i = match decodePrimitive src 0 with
      | none => .ok (false, o)
      | some bs => (o.write (c.address i) bs).map (true, ·) := by
  have harray : isArrayDecl (ScriptType.prim type).decl = .ok false := isArrayDecl_prim type
  rw [deserializeProperty_of hinfo hname hdecl, htype, harray]
  change deserializeSingular src o i (ScriptType.prim type).decl (E.typeId (.prim type)) = _
  exact if_pos (isPrimitiveTypeId_prim E type)

/-- A declaration that is told apart from an array's is decoded to the end. -/
theorem exists_deserializeProperty_other (hinfo : c.properties[i]? = some info)
    (hother : ∀ type, info.type ≠ .prim type) (hname : src.name = info.name)
    (hdecl : src.decl = info.type.decl) (htold : isArrayDecl info.type.decl = .ok info.type.isArray)
    (o : ScriptInstance c) : ∃ done o', deserializeProperty E src o i = .ok (done, o') := by
  have hprim := isPrimitiveTypeId_other E hother
  rw [deserializeProperty_of hinfo hname hdecl, htold]
  cases htype : info.type with
  | array element => exact ⟨_, _, rfl⟩
  | prim type => exact absurd htype (hother type)
  | string | enum | pod | object | handle =>
    rw [htype] at hprim
    simp only [bind, Except.bind, ScriptType.isArray, Bool.false_eq_true, if_false,
      deserializeSingular, hprim]
    split
    · split <;> exact ⟨_, _, rfl⟩
    · exact ⟨_, _, rfl⟩

/-- What is decoded into anything but a primitive leaves the memory alone. -/
theorem memory_of_decoded (h : Decoded src o i info o') (hother : ∀ type, info.type ≠ .prim type) :
    o'.memory = o.memory := by
  cases h with
  | primitive type htype => exact absurd htype (hother type)
  | string _ _ _ hset => rw [hset]
  | array _ _ hset => rw [hset]

theorem told_of_ok (hinfo : c.properties[i]? = some info) (hname : src.name = info.name)
    (hdecl : src.decl = info.type.decl) (h : deserializeProperty E src o i = .ok (done, o')) :
    isArrayDecl info.type.decl = .ok info.type.isArray := by
  rw [deserializeProperty_of hinfo hname hdecl] at h
  obtain ⟨isArray, hisArray, h⟩ := bind_eq_ok.1 h
  cases htype : info.type with
  | array element => exact isArrayDecl_array element
  | prim type => exact isArrayDecl_prim type
  | string | enum | pod | object | handle =>
    rw [htype] at h hisArray
    cases isArray with
    | false => exact hisArray
    | true => cases h

theorem map_true_eq_ok {ε α : Type} {x : Except ε α} {a : α} :
    x.map (true, ·) = .ok (done, a) ↔ x = .ok a ∧ done = true := by
  cases x with
  | error e => simp [Except.map]
  | ok b => simp [Except.map, and_comm, eq_comm]

/-- What is asked of a copy into an object with one byte all over its memory. -/
theorem WritesOnly.filled (h : WritesOnly E c src i info) (hinfo : c.properties[i]? = some info)
    (htype : info.type = .prim type) (hname : src.name = info.name)
    (hdecl : src.decl = info.type.decl) (hdata : src.primitiveDat[0]? = some data)
    (hsize : src.primitiveSize.toNat ≤ 8) (b : UInt8) : ∃ o' : ScriptInstance c,
      (ScriptInstance.filled c b).write (c.address i)
        (leBytes src.primitiveSize.toNat data.toNat) = .ok o' ∧
      (∀ k, ¬ (c.address i ≤ k ∧ k < c.address i + type.size) →
        o'.memory[k]? = (ScriptInstance.filled c b).memory[k]?) ∧
      slice o'.memory (c.address i) type.size = leBytes type.size data.toNat := by
  have hwidth : info.type.width = type.size := by rw [htype]; rfl
  obtain ⟨done, o', hread, houtside, -, hset⟩ := h (.filled c b)
  rw [deserializeProperty_prim hinfo htype hname hdecl,
    decodePrimitive_eq_some_iff.2 ⟨data, hdata, hsize, rfl⟩, map_true_eq_ok] at hread
  obtain ⟨d, hd, hslice⟩ := hset hread.2 type htype
  rw [List.head?_eq_getElem?] at hd
  obtain rfl : d = data := Option.some.inj (hd.symm.trans hdata)
  exact ⟨o', hread.1, hwidth ▸ houtside, hslice⟩

theorem getElem?_filled (c : ScriptClass) (b : UInt8) {k : Nat} (hk : k < c.size) :
    (ScriptInstance.filled c b).memory[k]? = some b :=
  List.getElem?_replicate_of_lt hk

/-- An object whose bytes all differ from the one at the end of the property, or at the end of the
copy, shows where the two are not the same. -/
theorem primitiveSize_of_writesOnly (hinfo : c.properties[i]? = some info)
    (htype : info.type = .prim type) (hname : src.name = info.name)
    (hdecl : src.decl = info.type.decl) (h : WritesOnly E c src i info)
    (hdata : src.primitiveDat[0]? = some data) (hsize : src.primitiveSize.toNat ≤ 8) :
    src.primitiveSize.toNat = type.size := by
  have hwidth : info.type.width = type.size := by rw [htype]; rfl
  have hroom := hwidth ▸ ScriptClass.address_add_width_le hinfo
  rcases Nat.lt_trichotomy src.primitiveSize.toNat type.size with hshort | heq | hlong
  · obtain ⟨b, hb⟩ := exists_byte_ne (leBytes type.size data.toNat)[src.primitiveSize.toNat]?
    obtain ⟨o', hwrite, -, hslice⟩ := h.filled hinfo htype hname hdecl hdata hsize b
    obtain ⟨⟨hfits, -⟩, hmemory, -⟩ := write_eq_ok hwrite
    refine absurd ?_ hb
    rw [← hslice, getElem?_slice hshort, hmemory,
      getElem?_overwrite_of_outside hfits (.inr (by rw [length_leBytes])),
      getElem?_filled c b (by omega)]
  · exact heq
  · obtain ⟨b, hb⟩ := exists_byte_ne (leBytes src.primitiveSize.toNat data.toNat)[type.size]?
    obtain ⟨o', hwrite, houtside, -⟩ := h.filled hinfo htype hname hdecl hdata hsize b
    obtain ⟨⟨hfits, -⟩, hmemory, -⟩ := write_eq_ok hwrite
    have hcopied := slice_overwrite_self hfits
    rw [length_leBytes] at hfits hcopied
    have hsize_eq := (ScriptInstance.filled c b).size_eq
    refine absurd ?_ hb
    rw [← hcopied, getElem?_slice hlong, ← hmemory, houtside _ (by omega),
      getElem?_filled c b (by omega)]

/-- A primitive of its own size, or one that is refused. -/
theorem writesOnly_of_size (hinfo : c.properties[i]? = some info) (htype : info.type = .prim type)
    (hname : src.name = info.name) (hdecl : src.decl = info.type.decl)
    (h : src.primitiveDat = [] ∨ 8 < src.primitiveSize.toNat ∨
      src.primitiveSize.toNat = type.size) : WritesOnly E c src i info := by
  intro o
  have hwidth : info.type.width = type.size := by rw [htype]; rfl
  rw [deserializeProperty_prim hinfo htype hname hdecl]
  cases hdecode : decodePrimitive src 0 with
  | none => exact ⟨false, o, rfl, fun _ _ => rfl, fun _ _ => rfl, nofun⟩
  | some bs =>
    have hnot : ¬ (src.primitiveDat = [] ∨ 8 < src.primitiveSize.toNat) := fun hnone => by
      rw [decodePrimitive_eq_none_iff.2 hnone] at hdecode
      cases hdecode
    have heq : src.primitiveSize.toNat = type.size := (or_assoc.2 h).resolve_left hnot
    obtain ⟨data, hdata, -, rfl⟩ := decodePrimitive_eq_some_iff.1 hdecode
    have hlen : (leBytes src.primitiveSize.toNat data.toNat).length = info.type.width := by
      rw [length_leBytes, heq, hwidth]
    obtain ⟨o', hwrite, hslice, hothers⟩ :=
      o.write_property hinfo (by simp [htype, ScriptType.IsPointer]) hlen
    obtain ⟨⟨hfits, -⟩, hmemory, -⟩ := write_eq_ok hwrite
    refine ⟨true, o', map_true_eq_ok.2 ⟨hwrite, rfl⟩, fun k hk => ?_, hothers,
      fun _ type' htype' => ?_⟩
    · rw [hmemory]
      exact getElem?_overwrite_of_outside hfits (by omega)
    · obtain rfl : type = type' := ScriptType.prim.inj (htype.symm.trans htype')
      rw [length_leBytes, heq] at hslice
      exact ⟨data, by rwa [List.head?_eq_getElem?], hslice⟩

/-- Whatever is no primitive has a place of its own. -/
theorem writesOnly_of_other (hinfo : c.properties[i]? = some info)
    (hother : ∀ type, info.type ≠ .prim type) (hname : src.name = info.name)
    (hdecl : src.decl = info.type.decl)
    (htold : isArrayDecl info.type.decl = .ok info.type.isArray) :
    WritesOnly E c src i info := by
  intro o
  obtain ⟨done, o', hread⟩ := exists_deserializeProperty_other hinfo hother hname hdecl htold o
  obtain ⟨info', hinfo', -, hcases⟩ := deserializeProperty_eq_ok hread
  obtain rfl : info = info' := Option.some.inj (hinfo.symm.trans hinfo')
  refine ⟨done, o', hread, ?_, ?_, fun _ type htype => absurd htype (hother type)⟩
  · rcases hcases with ⟨-, rfl⟩ | ⟨-, -, hdecoded⟩
    · exact fun _ _ => rfl
    · exact fun k _ => by rw [memory_of_decoded hdecoded hother]
  · rcases hcases with ⟨-, rfl⟩ | ⟨-, -, hdecoded⟩
    · exact fun _ _ => rfl
    · intro j hj
      cases hdecoded with
      | primitive type htype => exact absurd htype (hother type)
      | string _ s _ hset => exact hset ▸ ScriptInstance.value_update_strings s hj
      | array _ _ hset => exact hset ▸ ScriptInstance.value_update_arrays [] hj

/-- **Decoding writes one property and nothing else** exactly where the message's size, if it is
looked at, is that of the primitive (and the declaration is told apart from an array's by its last
two characters). -/
theorem writesOnly_iff (hinfo : c.properties[i]? = some info) (hname : src.name = info.name)
    (hdecl : src.decl = info.type.decl) :
    WritesOnly E c src i info ↔ isArrayDecl info.type.decl = .ok info.type.isArray ∧
      ∀ type, info.type = .prim type → src.primitiveDat = [] ∨ 8 < src.primitiveSize.toNat ∨
        src.primitiveSize.toNat = type.size := by
  refine ⟨fun h => ?_, fun ⟨htold, hprim⟩ => ?_⟩
  · obtain ⟨done, o', hread, -⟩ := h (.filled c 0)
    refine ⟨told_of_ok hinfo hname hdecl hread, fun type htype => ?_⟩
    cases hdata : src.primitiveDat with
    | nil => exact .inl rfl
    | cons data rest =>
      refine .inr (Or.imp_right (fun hsize => ?_) (Nat.lt_or_ge 8 src.primitiveSize.toNat))
      exact primitiveSize_of_writesOnly hinfo htype hname hdecl h (by rw [hdata]; rfl) hsize
  · by_cases htype : ∃ type, info.type = .prim type
    · obtain ⟨type, htype⟩ := htype
      exact writesOnly_of_size hinfo htype hname hdecl (hprim type htype)
    · exact writesOnly_of_other hinfo (fun type h => htype ⟨type, h⟩) hname hdecl htold

end

/-- A number of eight bytes for a property of four. -/
def wideUpdate : Property :=
  { name := "timeOut", decl := "float", primitiveSize := 8, primitiveDat := [0] }

/-- The time-out of a character takes its number with it. -/
theorem not_writesOnly_wideUpdate :
    ¬ WritesOnly testTypeIds characterClass wideUpdate 0 ⟨"timeOut", .prim .float⟩ := by
  intro h
  obtain ⟨done, o', hread, -, hothers, -⟩ := h (character [] [])
  cases hread
  have hbla := hothers 1 (by decide)
  revert hbla
  decide

/-- A number of its own size stays where it belongs. -/
theorem writesOnly_bla :
    WritesOnly testTypeIds characterClass (mistypedUpdate.head (by decide)) 1
      ⟨"bla", .prim .int32⟩ :=
  (writesOnly_iff rfl rfl rfl).2 ⟨rfl, fun type htype => by cases htype; exact .inr (.inr rfl)⟩

/-! ## Which received properties are taken -/

namespace ScriptClass

/-- Every object of the class takes the received property. -/
inductive Takes (c : ScriptClass) (src : Property) : Prop where
  | primitive {info : PropertyInfo} {type : PrimType}
    (hinfo : c.properties[c.indexOf src]? = some info) (hdecl : src.decl = info.type.decl)
    (htype : info.type = .prim type) (hdat : src.primitiveDat ≠ [])
    (hsize : src.primitiveSize.toNat ≤ 8)
    (hroom : c.address (c.indexOf src) + src.primitiveSize.toNat ≤ c.size)
    (hclear : ¬ c.CoversPointer (c.address (c.indexOf src)) src.primitiveSize.toNat)
  | string {info : PropertyInfo} (hinfo : c.properties[c.indexOf src]? = some info)
    (hdecl : src.decl = info.type.decl) (hother : ∀ type, info.type ≠ .prim type)
    (hstring : info.type.decl = "string") (hdat : src.stringDat ≠ [])
  | array {info : PropertyInfo} {element : ScriptType}
    (hinfo : c.properties[c.indexOf src]? = some info) (hdecl : src.decl = info.type.decl)
    (htype : info.type = .array element)

/-- Every object of the class refuses the received property, which names one of its own. -/
inductive Refuses (c : ScriptClass) (src : Property) : Prop where
  | declaration {info : PropertyInfo} (hinfo : c.properties[c.indexOf src]? = some info)
    (hdecl : src.decl ≠ info.type.decl)
  | primitive {info : PropertyInfo} {type : PrimType}
    (hinfo : c.properties[c.indexOf src]? = some info) (hdecl : src.decl = info.type.decl)
    (htype : info.type = .prim type)
    (hdat : src.primitiveDat = [] ∨ 8 < src.primitiveSize.toNat)
  | string {info : PropertyInfo} (hinfo : c.properties[c.indexOf src]? = some info)
    (hdecl : src.decl = info.type.decl) (hother : ∀ type, info.type ≠ .prim type)
    (hstring : info.type.decl = "string") (hdat : src.stringDat = [])
  | kind {info : PropertyInfo} (hinfo : c.properties[c.indexOf src]? = some info)
    (hdecl : src.decl = info.type.decl) (hother : ∀ type, info.type ≠ .prim type)
    (hstring : info.type.decl ≠ "string") (htold : isArrayDecl info.type.decl = .ok false)

/-- Every property up to the first one that is refused is taken. -/
inductive Reads (c : ScriptClass) : List Property → Prop where
  | nil : c.Reads []
  | refused {src : Property} {rest : List Property} (h : c.Refuses src) : c.Reads (src :: rest)
  | taken {src : Property} {rest : List Property} (h : c.Takes src) (hrest : c.Reads rest) :
    c.Reads (src :: rest)

variable {c : ScriptClass} {src : Property} {info : PropertyInfo}

theorem name_of_indexOf (h : c.properties[c.indexOf src]? = some info) : src.name = info.name := by
  obtain ⟨hi, rfl⟩ := List.getElem?_eq_some_iff.1 h
  exact (of_decide_eq_true (List.findIdx_getElem (w := hi))).symm

end ScriptClass

section
variable {c : ScriptClass} {E : TypeIds} {src : Property} {o : ScriptInstance c}
  {info : PropertyInfo}

/-- The dispatch of what is neither a primitive nor taken for an array. -/
theorem deserializeProperty_other (hinfo : c.properties[i]? = some info)
    (hother : ∀ type, info.type ≠ .prim type) (hname : src.name = info.name)
    (hdecl : src.decl = info.type.decl) (htold : isArrayDecl info.type.decl = .ok false) :
    deserializeProperty E src o i = if info.type.decl = "string" then
      match src.stringDat[0]? with
      | none => .ok (false, o)
      | some s => .ok (true, { o with strings := Function.update o.strings i s })
    else .ok (false, o) := by
  have hprim := isPrimitiveTypeId_other E hother
  rw [deserializeProperty_of hinfo hname hdecl, htold]
  change deserializeSingular src o i info.type.decl (E.typeId info.type) = _
  exact if_neg (ne_true_of_eq_false hprim)

theorem ScriptClass.Takes.deserialize (h : c.Takes src) (o : ScriptInstance c) :
    ∃ o', deserializeProperty E src o (c.indexOf src) = .ok (true, o') := by
  cases h with
  | @primitive info type hinfo hdecl htype hdat hsize hroom hclear =>
    obtain ⟨data, rest, hcons⟩ := List.exists_cons_of_ne_nil hdat
    have hdata : src.primitiveDat[0]? = some data := by rw [hcons]; rfl
    have hdecode := decodePrimitive_eq_some_iff.2 ⟨data, hdata, hsize, rfl⟩
    rw [deserializeProperty_prim hinfo htype (ScriptClass.name_of_indexOf hinfo) hdecl, hdecode]
    have hlen := length_leBytes src.primitiveSize.toNat data.toNat
    rw [← hlen] at hroom hclear
    obtain ⟨o', hwrite⟩ := exists_write (o.size_eq ▸ hroom) hclear
    exact ⟨o', map_true_eq_ok.2 ⟨hwrite, rfl⟩⟩
  | @string info hinfo hdecl hother hstring hdat =>
    obtain ⟨s, rest, hcons⟩ := List.exists_cons_of_ne_nil hdat
    rw [deserializeProperty_other hinfo hother (ScriptClass.name_of_indexOf hinfo) hdecl
      (by rw [hstring]; rfl), if_pos hstring, hcons]
    exact ⟨_, rfl⟩
  | @array info element hinfo hdecl htype =>
    rw [deserializeProperty_of hinfo (ScriptClass.name_of_indexOf hinfo) hdecl, htype,
      isArrayDecl_array]
    exact ⟨_, congrArg _ (deserializeArray_array E src o _ element)⟩

theorem ScriptClass.Refuses.deserialize (h : c.Refuses src) (o : ScriptInstance c) :
    deserializeProperty E src o (c.indexOf src) = .ok (false, o) := by
  cases h with
  | @declaration info hinfo hdecl =>
    simp only [deserializeProperty, hinfo, ScriptClass.name_of_indexOf hinfo, ne_eq,
      not_true_eq_false, if_false, Ne.symm hdecl, not_false_eq_true, if_true]
  | @primitive info type hinfo hdecl htype hdat =>
    rw [deserializeProperty_prim hinfo htype (ScriptClass.name_of_indexOf hinfo) hdecl,
      decodePrimitive_eq_none_iff.2 hdat]
  | @string info hinfo hdecl hother hstring hdat =>
    rw [deserializeProperty_other hinfo hother (ScriptClass.name_of_indexOf hinfo) hdecl
      (by rw [hstring]; rfl), if_pos hstring, hdat]
    rfl
  | @kind info hinfo hdecl hother hstring htold =>
    rw [deserializeProperty_other hinfo hother (ScriptClass.name_of_indexOf hinfo) hdecl htold,
      if_neg hstring]

theorem takes_or_refuses (h : deserializeProperty E src o (c.indexOf src) = .ok (done, o')) :
    c.Takes src ∨ c.Refuses src := by
  obtain ⟨info, hinfo, hname, -⟩ := deserializeProperty_eq_ok h
  by_cases hdecl : src.decl = info.type.decl
  swap
  · exact .inr (.declaration hinfo hdecl)
  have htold := told_of_ok hinfo hname.symm hdecl h
  cases htype : info.type with
  | prim type =>
    rw [deserializeProperty_prim hinfo htype hname.symm hdecl] at h
    cases hdecode : decodePrimitive src 0 with
    | none => exact .inr (.primitive hinfo hdecl htype (decodePrimitive_eq_none_iff.1 hdecode))
    | some bs =>
      obtain ⟨data, hdata, hsize, rfl⟩ := decodePrimitive_eq_some_iff.1 hdecode
      rw [hdecode, map_true_eq_ok] at h
      obtain ⟨⟨hfits, hclear⟩, -⟩ := write_eq_ok h.1
      rw [length_leBytes] at hfits hclear
      rw [o.size_eq] at hfits
      refine .inl (.primitive hinfo hdecl htype (fun hnil => ?_) hsize hfits hclear)
      rw [hnil] at hdata
      cases hdata
  | array element => exact .inl (.array hinfo hdecl htype)
  | string | enum | pod | object | handle =>
    have hother : ∀ p, info.type ≠ .prim p := by simp [htype]
    by_cases hstring : info.type.decl = "string"
    · by_cases hdat : src.stringDat = []
      · exact .inr (.string hinfo hdecl hother hstring hdat)
      · exact .inl (.string hinfo hdecl hother hstring hdat)
    · refine .inr (.kind hinfo hdecl hother hstring (htold.trans ?_))
      rw [htype]
      rfl

/-- A list of properties is read to the end, or to a property that is refused, whatever the object
holds. -/
theorem deserializeObject_ok_iff {ps : List Property} (o : ScriptInstance c) :
    (∃ r, deserializeObject E ps o = .ok r) ↔ c.Reads ps := by
  constructor
  · rintro ⟨⟨done, o'⟩, h⟩
    induction ps generalizing o with
    | nil => exact .nil
    | cons src rest ih =>
      obtain ⟨first, o1, hone, h⟩ := deserializeObject_cons_eq_ok.1 h
      rcases takes_or_refuses hone with htakes | hrefuses
      · obtain ⟨o2, htaken⟩ := htakes.deserialize (E := E) o
        cases hone.symm.trans htaken
        exact .taken htakes (ih o1 h)
      · exact .refused hrefuses
  · intro h
    induction h generalizing o with
    | nil => exact ⟨_, rfl⟩
    | refused hrefuses =>
      exact ⟨_, deserializeObject_cons_eq_ok.2 ⟨false, o, hrefuses.deserialize o, rfl⟩⟩
    | taken htakes _ ih =>
      obtain ⟨o1, hone⟩ := htakes.deserialize (E := E) o
      obtain ⟨⟨done, o'⟩, hrest⟩ := ih o1
      exact ⟨_, deserializeObject_cons_eq_ok.2 ⟨true, o1, hone, hrest⟩⟩

end

end NetSiege
