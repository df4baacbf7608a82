import NetSiege.Script.Decoding

/-!
# Received and stored values (`serializer.cpp`)

A received property brings values to some places of an object: bytes of a number to its memory, a
string, or an empty array. Where several properties bring something to one place, the last of them
counts (`stored_deserializeObject`), so that reading properties leaves an object as it is if and
only if the object has what they bring already (`deserializeObject_self_iff`).
-/

namespace NetSiege

open Lib

/-- A place of a script object: a byte of its memory, or the string or the array of a property. -/
inductive Place where
  | byte (k : Nat)
  | string (i : Nat)
  | array (i : Nat)

/-- What an object has at a place. -/
def ScriptInstance.stored {c : ScriptClass} (o : ScriptInstance c) : Place → Option PropertyValue
  | .byte k => o.memory[k]?.map fun b => .bytes [b]
  | .string i => some (.string (o.strings i))
  | .array i => some (.array (o.arrays i))

/-- What a received property brings to a place, if it is taken for the `i`-th one, of this type and
with its bytes from `address` on: a number its bytes, a string itself, and nothing to an array. -/
def ScriptType.brings (type : ScriptType) (address i : Nat) (src : Property) :
    Place → Option PropertyValue
  | .byte k =>
    match type with
    | .prim _ =>
      if address ≤ k then
        (leBytes src.primitiveSize.toNat (src.primitiveDat.headD 0).toNat)[k - address]?.map
          fun b => .bytes [b]
      else none
    | _ => none
  | .string j =>
    if type.decl = "string" ∧ j = i then src.stringDat.head?.map .string else none
  | .array j =>
    match type with
    | .array _ => if j = i then some (.array []) else none
    | _ => none

namespace ScriptClass

/-- What a received property that is taken brings to a place. -/
def brings (c : ScriptClass) (src : Property) (place : Place) : Option PropertyValue :=
  c.properties[c.indexOf src]?.bind fun info =>
    info.type.brings (c.address (c.indexOf src)) (c.indexOf src) src place

/-- What the last of several received properties brings to a place. -/
def lastBrought (c : ScriptClass) : List Property → Place → Option PropertyValue
  | [], _ => none
  | src :: rest, place => (c.lastBrought rest place).or (c.brings src place)

end ScriptClass

/-- The object has what the properties bring, up to the first one that is refused. -/
def ScriptInstance.Has {c : ScriptClass} (o : ScriptInstance c) (ps : List Property) : Prop :=
  ∃ taken rest, ps = taken ++ rest ∧ (∀ src ∈ taken, c.Takes src) ∧
    (∀ src, rest.head? = some src → c.Refuses src) ∧
    ∀ place value, c.lastBrought taken place = some value → o.stored place = some value

/-! ## One property -/

section
variable {c : ScriptClass} {E : TypeIds} {src : Property} {o o' : ScriptInstance c}
  {info : PropertyInfo}

theorem ScriptInstance.ext_stored (h : ∀ place, o'.stored place = o.stored place) : o' = o := by
  have hmemory : o'.memory = o.memory := by
    refine List.ext_getElem? fun k => ?_
    have hinj : Function.Injective fun b : UInt8 => PropertyValue.bytes [b] := fun a b hab =>
      (List.cons.inj (PropertyValue.bytes.inj hab)).1
    exact Option.map_injective hinj (h (.byte k))
  have hstrings : o'.strings = o.strings := by
    funext i
    exact PropertyValue.string.inj (Option.some.inj (h (.string i)))
  have harrays : o'.arrays = o.arrays := by
    funext i
    exact PropertyValue.array.inj (Option.some.inj (h (.array i)))
  cases o
  cases o'
  cases hmemory
  cases hstrings
  cases harrays
  rfl

theorem stored_of_write {off : Nat} {bs : List UInt8} (h : o.write off bs = .ok o') (k : Nat) :
    o'.stored (.byte k) = (if off ≤ k then bs[k - off]?.map fun b => .bytes [b] else none).or
      (o.stored (.byte k)) := by
  obtain ⟨⟨hfits, -⟩, hmemory, -⟩ := write_eq_ok h
  rw [ScriptInstance.stored, ScriptInstance.stored, hmemory]
  by_cases hin : off ≤ k ∧ k < off + bs.length
  · obtain ⟨hlow, hhigh⟩ := hin
    have hslice : (slice (overwrite o.memory off bs) off bs.length)[k - off]? = bs[k - off]? := by
      rw [slice_overwrite_self hfits]
    rw [getElem?_slice (by omega), Nat.add_sub_cancel' hlow] at hslice
    rw [hslice, if_pos hlow, List.getElem?_eq_getElem (by omega), Option.map_some, Option.some_or]
  · rw [getElem?_overwrite_of_outside hfits (by omega)]
    split
    · rw [List.getElem?_eq_none (by omega : bs.length ≤ k - off), Option.map_none, Option.none_or]
    · rw [Option.none_or]

/-- A decoded number has its bytes where they are copied, and nothing else is new. -/
theorem stored_of_primitive (htype : info.type = .prim type)
    (hdecode : decodePrimitive src 0 = some bs) (hwrite : o.write (c.address i) bs = .ok o')
    (place : Place) : o'.stored place =
      (info.type.brings (c.address i) i src place).or (o.stored place) := by
  obtain ⟨data, hdata, -, rfl⟩ := decodePrimitive_eq_some_iff.1 hdecode
  have hhead : src.primitiveDat.headD 0 = data := by
    rw [List.headD_eq_head?_getD, List.head?_eq_getElem?, hdata, Option.getD_some]
  obtain ⟨-, -, hstrings, harrays⟩ := write_eq_ok hwrite
  rw [htype]
  cases place with
  | byte k =>
    rw [stored_of_write hwrite k]
    simp only [ScriptType.brings, hhead]
  | string j =>
    simp only [ScriptType.brings, decl_prim_ne_string, false_and, if_false, Option.none_or,
      ScriptInstance.stored, hstrings]
  | array j => simp only [ScriptType.brings, Option.none_or, ScriptInstance.stored, harrays]

/-- An assigned string is the new one, and nothing else is new. -/
theorem stored_of_string (hstring : info.type.decl = "string")
    (hdecode : decodeString src 0 = some s) (place : Place) :
    ScriptInstance.stored { o with strings := Function.update o.strings i s } place =
      (info.type.brings (c.address i) i src place).or (o.stored place) := by
  have hhead : src.stringDat.head? = some s := by
    rw [List.head?_eq_getElem?]
    exact hdecode
  cases place with
  | byte k =>
    have hnone : info.type.brings (c.address i) i src (.byte k) = none := by
      cases htype : info.type with
      | prim type => exact absurd (htype ▸ hstring) (decl_prim_ne_string type)
      | _ => rfl
    rw [hnone, Option.none_or]
    rfl
  | string j =>
    simp only [ScriptType.brings, hstring, true_and, hhead, Option.map_some, ScriptInstance.stored,
      Function.update_apply]
    split
    · rw [Option.some_or]
    · rw [Option.none_or]
  | array j =>
    have hnone : info.type.brings (c.address i) i src (.array j) = none := by
      cases htype : info.type with
      | array element => exact absurd (htype ▸ hstring) (decl_array_ne_string element)
      | _ => rfl
    rw [hnone, Option.none_or]
    rfl

/-- An emptied array is empty, and nothing else is new. -/
theorem stored_of_array (htype : info.type = .array element) (place : Place) :
    ScriptInstance.stored { o with arrays := Function.update o.arrays i [] } place =
      (info.type.brings (c.address i) i src place).or (o.stored place) := by
  rw [htype]
  cases place with
  | byte k => rfl
  | string j =>
    simp only [ScriptType.brings, decl_array_ne_string, false_and, if_false, Option.none_or,
      ScriptInstance.stored]
  | array j =>
    simp only [ScriptType.brings, ScriptInstance.stored, Function.update_apply]
    split
    · rw [Option.some_or]
    · rw [Option.none_or]

/-- A decoded property puts what it brings over what was stored. -/
theorem stored_of_decoded (hinfo : c.properties[c.indexOf src]? = some info)
    (h : Decoded src o (c.indexOf src) info o') (place : Place) :
    o'.stored place = (c.brings src place).or (o.stored place) := by
  rw [ScriptClass.brings, hinfo, Option.bind_some]
  cases h with
  | primitive type htype bs hdecode hwrite => exact stored_of_primitive htype hdecode hwrite place
  | string hstring s hdecode hset => exact hset ▸ stored_of_string hstring hdecode place
  | array element htype hset => exact hset ▸ stored_of_array htype place

/-- Of a taken property the object has what it brings. -/
theorem ScriptClass.Takes.stored (h : c.Takes src) (o : ScriptInstance c) :
    ∃ o', deserializeProperty E src o (c.indexOf src) = .ok (true, o') ∧
      ∀ place, o'.stored place = (c.brings src place).or (o.stored place) := by
  obtain ⟨o', hread⟩ := h.deserialize (E := E) o
  obtain ⟨info, hinfo, -, ⟨hdone, -⟩ | ⟨-, -, hdecoded⟩⟩ := deserializeProperty_eq_ok hread
  · cases hdone
  · exact ⟨o', hread, stored_of_decoded hinfo hdecoded⟩

/-! ## A list of properties -/

theorem deserializeObject_of_taken {taken rest : List Property}
    (htaken : ∀ src ∈ taken, c.Takes src) (hrest : ∀ src, rest.head? = some src → c.Refuses src)
    (o : ScriptInstance c) : ∃ done o', deserializeObject E (taken ++ rest) o = .ok (done, o') ∧
      ∀ place, o'.stored place = (c.lastBrought taken place).or (o.stored place) := by
  induction taken generalizing o with
  | nil =>
    cases rest with
    | nil => exact ⟨true, o, rfl, fun _ => rfl⟩
    | cons src rest =>
      have hrefused := (hrest src rfl).deserialize (E := E) o
      exact ⟨false, o, deserializeObject_cons_eq_ok.2 ⟨false, o, hrefused, rfl⟩, fun _ => rfl⟩
  | cons src taken ih =>
    obtain ⟨htakes, htaken⟩ := List.forall_mem_cons.1 htaken
    obtain ⟨o1, hone, hstored⟩ := htakes.stored (E := E) o
    obtain ⟨done, o', hread, hlast⟩ := ih htaken o1
    refine ⟨done, o', deserializeObject_cons_eq_ok.2 ⟨true, o1, hone, hread⟩, fun place => ?_⟩
    rw [hlast, hstored, ScriptClass.lastBrought, Option.or_assoc]

/-- A list that is read ends in a refused property, or is taken whole. -/
theorem ScriptClass.Reads.split {ps : List Property} (h : c.Reads ps) :
    ∃ taken rest, ps = taken ++ rest ∧ (∀ src ∈ taken, c.Takes src) ∧
      ∀ src, rest.head? = some src → c.Refuses src := by
  induction h with
  | nil => exact ⟨[], [], rfl, List.forall_mem_nil _, fun _ hsrc => nomatch hsrc⟩
  | @refused src rest hrefuses =>
    refine ⟨[], src :: rest, rfl, List.forall_mem_nil _, fun src' hsrc' => ?_⟩
    cases hsrc'
    exact hrefuses
  | @taken src rest htakes _ ih =>
    obtain ⟨taken, rest', rfl, htaken, hrest⟩ := ih
    exact ⟨src :: taken, rest', rfl, List.forall_mem_cons.2 ⟨htakes, htaken⟩, hrest⟩

/-- **What reading leaves behind.** At every place the object has what the last property brings
there, of those before the first refused one, and what it had where none of them brings
anything. -/
theorem stored_deserializeObject {ps : List Property} {done : Bool}
    (h : deserializeObject E ps o = .ok (done, o')) :
    ∃ taken rest, ps = taken ++ rest ∧ (∀ src ∈ taken, c.Takes src) ∧
      (∀ src, rest.head? = some src → c.Refuses src) ∧
      ∀ place, o'.stored place = (c.lastBrought taken place).or (o.stored place) := by
  obtain ⟨taken, rest, rfl, htaken, hrest⟩ := ((deserializeObject_ok_iff o).1 ⟨_, h⟩).split
  obtain ⟨done', o1, hread, hstored⟩ := deserializeObject_of_taken (E := E) htaken hrest o
  cases h.symm.trans hread
  exact ⟨taken, rest, rfl, htaken, hrest, hstored⟩

/-- Reading properties leaves an object as it is if and only if it has what they bring. -/
theorem deserializeObject_self_iff {ps : List Property} :
    (∃ done, deserializeObject E ps o = .ok (done, o)) ↔ o.Has ps := by
  constructor
  · rintro ⟨done, h⟩
    obtain ⟨taken, rest, hps, htaken, hrest, hstored⟩ := stored_deserializeObject h
    refine ⟨taken, rest, hps, htaken, hrest, fun place value hvalue => ?_⟩
    rw [hstored, hvalue, Option.some_or]
  · rintro ⟨taken, rest, rfl, htaken, hrest, hhas⟩
    obtain ⟨done, o', hread, hstored⟩ := deserializeObject_of_taken (E := E) htaken hrest o
    have hsame : o' = o := by
      refine ScriptInstance.ext_stored fun place => ?_
      rw [hstored]
      cases hlast : c.lastBrought taken place with
      | none => rw [Option.none_or]
      | some value => rw [Option.some_or, hhas place value hlast]
    exact ⟨done, hsame ▸ hread⟩

end

end NetSiege
