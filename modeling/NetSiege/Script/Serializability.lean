import NetSiege.Script.Decoding

/-!
# The check of a property list (`serializer.cpp`)

`isSerializableType` says before anything is sent whether the listed properties of an object can be.
`serializeObject` and `deserializeProperty` have the last word: a property gets across if it is a
primitive below 64 bits, a string, or an array of strings or primitives (`transfers_iff`). The check
also lets through what only has the type id of an object, and 64-bit primitives
(`checkTellsTruth_iff`).
-/

namespace NetSiege

open Lib

/-- `asTYPEID_MASK_OBJECT`. -/
def maskObject : UInt32 := 0x1C000000

/-- The type is registered as an object, a script class or a template. -/
def ScriptType.isObject : ScriptType → Bool
  | string | pod _ _ | object _ | handle _ | array _ => true
  | prim _ | enum _ => false

/-- Type ids with the bits of the kind of an object type: enumerations have none. -/
structure ObjectTypeIds extends TypeIds where
  masked : ∀ type, (typeId type &&& maskObject ≠ 0) ↔ type.isObject = true

section
variable (E : ObjectTypeIds) {c : ScriptClass}

/-- `Serializer::isSerializableProperty`. -/
def isSerializableProperty (type : ScriptType) : Except Trap Bool :=
  let typeId := E.typeId type
  let decl := type.decl
  if isPrimitiveTypeId typeId then .ok true
  else if decl = "string" then .ok true
  else if decl = "string[]" then .ok true
  -- one character is compared with both brackets; with a name of one letter it is the byte in front
  else if decl.toList.reverse[1]?.any (fun d => d = '[' && d = ']') then .ok true
  else .ok (typeId &&& maskObject ≠ 0)

/-- The loop of `Serializer::isSerializableType`. -/
def isSerializableProperties (properties : List String) : List PropertyInfo → Except Trap Bool
  | [] => .ok true
  | info :: rest =>
    if info.name ∈ properties then do
      if ← isSerializableProperty E info.type then isSerializableProperties properties rest
      else .ok false
    else isSerializableProperties properties rest

/-- `Serializer::isSerializableType`. Only the class of the object is looked at. -/
def isSerializableType (c : ScriptClass) (properties : List String) : Except Trap Bool :=
  isSerializableProperties E properties c.properties

end

/-- What gets across: primitives below 64 bits, strings, and arrays of strings or primitives. -/
inductive ScriptType.Transferable : ScriptType → Prop where
  | prim (hsmall : type.size < 8) : Transferable (.prim type)
  | string (h : type.decl = "string") : Transferable type
  | strings {elem : ScriptType} (h : elem.decl = "string") : Transferable (.array elem)
  | prims : Transferable (.array (.prim type))

/-- What the check does not let through: enumerations. -/
def ScriptType.Refused (type : ScriptType) : Prop :=
  ∃ name, type = .enum name ∧ name ≠ "string" ∧ name ≠ "string[]"

section
variable {c : ScriptClass} {E : ObjectTypeIds} {o : ScriptInstance c} {properties : List String}
  {info : PropertyInfo}

/-- One entry is written for the property, and taken by every object of the class. -/
def Transfers (E : TypeIds) (o : ScriptInstance c) (i : Nat) (info : PropertyInfo) : Prop :=
  ∃ p, serializeProperty E o i info = .ok [p] ∧
    ∀ o' : ScriptInstance c, ∃ o'', deserializeProperty E p o' i = .ok (true, o'')

/-- `serializeObject` fails no assertion and writes exactly one entry for each listed property,
which every object of the class takes. -/
def AllTransferred (E : TypeIds) (o : ScriptInstance c) (properties : List String) : Prop :=
  ∃ ps, serializeObject E o properties = .ok ps ∧ ∀ i info, c.Listed properties i info →
    ∃ p, ps.filter (·.name = info.name) = [p] ∧
      ∀ o' : ScriptInstance c, ∃ o'', deserializeProperty E p o' i = .ok (true, o'')

/-- The check returns true for what gets across, and for nothing else. -/
def CheckTellsTruth (E : ObjectTypeIds) (o : ScriptInstance c) (properties : List String) : Prop :=
  isSerializableType E c properties = .ok true ↔ AllTransferred E.toTypeIds o properties

/-! ## The check -/

theorem not_string_prim (type : PrimType) : (ScriptType.prim type).decl ≠ "string" := by
  cases type <;> decide

/-- A declaration is never taken for that of an array: the mask decides. -/
theorem isSerializableProperty_other {type : ScriptType} (hother : ∀ p, type ≠ .prim p)
    (hstring : type.decl ≠ "string") (hstrings : type.decl ≠ "string[]") :
    isSerializableProperty E type = .ok type.isObject := by
  have hprim := isPrimitiveTypeId_other E.toTypeIds hother
  have hbrackets : type.decl.toList.reverse[1]?.any (fun d => d = '[' && d = ']') = false := by
    refine (Option.any_eq_false _ _).2 fun d _ => ?_
    grind
  simp only [isSerializableProperty, hprim, Bool.false_eq_true, if_false, if_neg hstring,
    if_neg hstrings, hbrackets]
  exact congrArg _ (Bool.eq_iff_iff.2 (by simpa using E.masked type))

/-- What the check says of a single property. -/
theorem isSerializableProperty_iff {type : ScriptType} :
    isSerializableProperty E type = .ok true ↔ ¬ type.Refused := by
  by_cases hprim : ∃ p, type = .prim p
  · obtain ⟨p, rfl⟩ := hprim
    refine iff_of_true ?_ ?_
    · rw [isSerializableProperty, if_pos (isPrimitiveTypeId_prim E.toTypeIds p)]
    · rintro ⟨name, hname, -⟩
      cases hname
  have hother : ∀ p, type ≠ .prim p := fun p hp => hprim ⟨p, hp⟩
  have hnone := isPrimitiveTypeId_other E.toTypeIds hother
  by_cases hstring : type.decl = "string" ∨ type.decl = "string[]"
  · refine iff_of_true ?_ ?_
    · rcases hstring with hstring | hstrings
      · simp only [isSerializableProperty, hnone, hstring, Bool.false_eq_true, if_false, if_true]
      · simp only [isSerializableProperty, hnone, hstrings, Bool.false_eq_true, if_true, ite_self]
    · rintro ⟨name, rfl, hne, hne'⟩
      exact hstring.elim hne hne'
  obtain ⟨hstring, hstrings⟩ := not_or.1 hstring
  rw [isSerializableProperty_other hother hstring hstrings]
  cases type with
  | prim p => exact absurd rfl (hother p)
  | enum name => exact iff_of_false nofun (not_not.2 ⟨name, rfl, hstring, hstrings⟩)
  | string | pod | object | handle | array => exact iff_of_true rfl fun ⟨_, h, _⟩ => nomatch h

theorem isSerializableProperties_iff {l : List PropertyInfo} :
    isSerializableProperties E properties l = .ok true ↔
      ∀ info ∈ l, info.name ∈ properties → ¬ info.type.Refused := by
  induction l with
  | nil => simp [isSerializableProperties]
  | cons info l ih =>
    rw [isSerializableProperties, List.forall_mem_cons]
    split
    · next hlisted =>
      rw [bind_eq_ok, forall_prop_of_true hlisted, ← isSerializableProperty_iff (E := E), ← ih]
      refine ⟨fun ⟨b, hb, h⟩ => ?_, fun ⟨hb, h⟩ => ⟨true, hb, h⟩⟩
      cases b with
      | true => exact ⟨hb, h⟩
      | false => cases h
    · next hlisted => rw [ih, forall_prop_of_false hlisted, true_and]

theorem forall_mem_iff_listed {p : PropertyInfo → Prop} :
    (∀ info ∈ c.properties, info.name ∈ properties → p info) ↔
      ∀ i info, c.Listed properties i info → p info := by
  refine ⟨fun h i info hlisted => ?_, fun h info hinfo hlisted => ?_⟩
  · exact h info (List.mem_of_getElem? hlisted.1) hlisted.2
  · obtain ⟨i, hi⟩ := List.getElem?_of_mem hinfo
    exact h i info ⟨hi, hlisted⟩

/-- The check of a property list. -/
theorem isSerializableType_iff : isSerializableType E c properties = .ok true ↔
    ∀ i info, c.Listed properties i info → ¬ info.type.Refused := by
  rw [isSerializableType, isSerializableProperties_iff, forall_mem_iff_listed]

/-! ## What gets across -/

/-- A property of a declaration `string` gets across, whatever its type. -/
theorem transfers_string (hinfo : c.properties[i]? = some info)
    (hother : ∀ p, info.type ≠ .prim p) (hstring : info.type.decl = "string") :
    Transfers E.toTypeIds o i info := by
  have hprim := isPrimitiveTypeId_other E.toTypeIds hother
  have harray : isArrayDecl "string" = .ok false := rfl
  refine ⟨{ name := info.name, decl := info.type.decl, stringDat := [o.strings i] }, ?_,
    fun o' => ⟨{ o' with strings := Function.update o'.strings i (o.strings i) }, ?_⟩⟩
  · simp only [serializeProperty, hprim, Bool.false_eq_true, if_false, hstring, if_true]
  · rw [deserializeProperty_of hinfo rfl rfl, hstring, harray]
    simp only [bind, Except.bind, Bool.false_eq_true, if_false, deserializeSingular, hprim, if_true,
      decodeString, List.getElem?_cons_zero]

theorem decl_array_eq_strings_iff {elem : ScriptType} :
    (ScriptType.array elem).decl = "string[]" ↔ elem.decl = "string" := by
  rw [ScriptType.decl, show "string[]" = "string" ++ "[]" from rfl]
  exact String.append_left_inj _

/-- An array is written where its elements are strings or primitives. -/
theorem serializeProperty_array_iff {elem : ScriptType} (htype : info.type = .array elem) :
    (∃ p, serializeProperty E.toTypeIds o i info = .ok [p]) ↔
      (ScriptType.array elem).Transferable := by
  have hprim : isPrimitiveTypeId (E.typeId (.array elem)) = false :=
    isPrimitiveTypeId_other E.toTypeIds (by simp)
  have hsize : getSizeOfPrimitiveType (E.typeId (.array elem)) = 0 :=
    getSizeOfPrimitiveType_other E.toTypeIds (by simp)
  have hstring := decl_array_ne_string elem
  by_cases hstrings : (ScriptType.array elem).decl = "string[]"
  · refine iff_of_true ⟨{ name := info.name, decl := "string[]", stringDat := o.arrays i }, ?_⟩
      (.strings (decl_array_eq_strings_iff.1 hstrings))
    simp only [serializeProperty, htype, hprim, Bool.false_eq_true, if_false, hstrings, if_true]
    rfl
  simp only [serializeProperty, htype, hprim, Bool.false_eq_true, if_false, if_neg hstring,
    if_neg hstrings, isArrayDecl_array, bind, Except.bind, if_true, ScriptType.element, hsize]
  by_cases helem : ∃ type, elem = .prim type
  · obtain ⟨type, rfl⟩ := helem
    rw [if_pos (isPrimitiveTypeId_prim E.toTypeIds type)]
    exact iff_of_true ⟨_, rfl⟩ .prims
  · have hother : ∀ p, elem ≠ .prim p := fun p hp => helem ⟨p, hp⟩
    rw [isPrimitiveTypeId_other E.toTypeIds hother]
    refine iff_of_false ?_ fun htransferable => ?_
    · rintro ⟨p, hp⟩
      cases hp
    · cases htransferable with
      | string h => exact hstring h
      | strings h => exact hstrings (decl_array_eq_strings_iff.2 h)
      | prims => exact helem ⟨_, rfl⟩

/-- What is written for a property names it and its type. -/
theorem name_decl_of_serializeProperty {qs : List Property}
    (h : serializeProperty E.toTypeIds o i info = .ok qs) :
    ∀ q ∈ qs, q.name = info.name ∧ q.decl = info.type.decl := by
  unfold serializeProperty at h
  dsimp only at h
  split at h
  · split at h <;> cases h
    simp
  split at h
  · cases h
    simp
  split at h
  · cases h
    simp
  obtain ⟨isArray, -, h⟩ := bind_eq_ok.1 h
  split at h
  · obtain ⟨elem, -, h⟩ := bind_eq_ok.1 h
    split at h
    · split at h <;> cases h
      simp
    · cases h
      simp
  · cases h
    simp

theorem transfers_prim_iff (hinfo : c.properties[i]? = some info)
    (htype : info.type = .prim type) :
    Transfers E.toTypeIds o i info ↔ (ScriptType.prim type).Transferable := by
  by_cases hsmall : type.size < 8
  · obtain ⟨p, hp, hcarries⟩ := serializeProperty_prim (E := E.toTypeIds) (o := o) hinfo htype
      (by rwa [htype])
    refine iff_of_true ⟨p, hp, fun o' => ?_⟩ (.prim hsmall)
    obtain ⟨o'', hread, -⟩ := hcarries.deserialize o'
    exact ⟨o'', hread⟩
  · refine iff_of_false (fun ⟨p, hp, _⟩ => ?_) fun htransferable => ?_
    · rw [serializeProperty_wide htype hsmall] at hp
      cases hp
    · cases htransferable with
      | prim h => exact hsmall h
      | string h => exact not_string_prim type h

/-- Whatever is written for an array is taken. -/
theorem transfers_array_iff {elem : ScriptType} (hinfo : c.properties[i]? = some info)
    (htype : info.type = .array elem) :
    Transfers E.toTypeIds o i info ↔ (ScriptType.array elem).Transferable := by
  rw [← serializeProperty_array_iff (E := E) (o := o) (i := i) htype]
  refine ⟨fun ⟨p, hp, _⟩ => ⟨p, hp⟩, fun ⟨p, hp⟩ => ⟨p, hp, fun o' => ?_⟩⟩
  obtain ⟨hname, hdecl⟩ := name_decl_of_serializeProperty hp p List.mem_cons_self
  obtain ⟨o'', hread, -⟩ :=
    (carries_array (E := E.toTypeIds) (o := o) hinfo htype p hname hdecl).deserialize o'
  exact ⟨o'', hread⟩

/-- Whatever is decoded is a primitive, a string or an array. -/
theorem not_transfers (hinfo : c.properties[i]? = some info)
    (hprim : ∀ p, info.type ≠ .prim p) (hstring : info.type.decl ≠ "string")
    (harray : ∀ elem, info.type ≠ .array elem) : ¬ Transfers E.toTypeIds o i info := by
  intro htransfers
  obtain ⟨p, -, hread⟩ := htransfers
  obtain ⟨o'', hread⟩ := hread o
  obtain ⟨info', hinfo', -, ⟨hdone, -⟩ | ⟨-, -, hdecoded⟩⟩ := deserializeProperty_eq_ok hread
  · cases hdone
  obtain rfl : info = info' := Option.some.inj (hinfo.symm.trans hinfo')
  cases hdecoded with
  | primitive type htype => exact hprim type htype
  | string h => exact hstring h
  | array elem htype => exact harray elem htype

/-- **What gets across.** The encoder and the decoder agree on primitives below 64 bits, strings,
and arrays of strings or primitives. -/
theorem transfers_iff (hinfo : c.properties[i]? = some info) :
    Transfers E.toTypeIds o i info ↔ info.type.Transferable := by
  by_cases hstring : info.type.decl = "string"
  · refine iff_of_true (transfers_string hinfo (fun p hp => ?_) hstring) (.string hstring)
    rw [hp] at hstring
    exact not_string_prim p hstring
  cases htype : info.type with
  | prim type => exact transfers_prim_iff hinfo htype
  | array elem => exact transfers_array_iff hinfo htype
  | string | enum | pod | object | handle =>
    have hnot : ¬ Transfers E.toTypeIds o i info :=
      not_transfers hinfo (by simp [htype]) hstring (by simp [htype])
    refine iff_of_false hnot fun htransferable => ?_
    cases htransferable with
    | string h => exact hstring (htype ▸ h)

/-! ## The list -/

theorem names_of_serializeProperties {l : List (PropertyInfo × Nat)} {ps : List Property}
    (h : serializeProperties E.toTypeIds o properties l = .ok ps) :
    ∀ p ∈ ps, p.name ∈ l.map (·.1.name) := by
  induction l generalizing ps with
  | nil =>
    cases h
    simp
  | cons x l ih =>
    obtain ⟨info, i⟩ := x
    rw [serializeProperties] at h
    split at h
    · obtain ⟨qs, hqs, h⟩ := bind_eq_ok.1 h
      obtain ⟨rs, hrs, h⟩ := bind_eq_ok.1 h
      cases h
      intro p hp
      rcases List.mem_append.1 hp with hp | hp
      · exact List.mem_cons.2 (.inl (name_decl_of_serializeProperty hqs p hp).1)
      · exact List.mem_cons_of_mem _ (ih hrs p hp)
    · exact fun p hp => List.mem_cons_of_mem _ (ih h p hp)

/-- The entries under a listed name are those that were written for its property. -/
theorem filter_serializeProperties {l : List (PropertyInfo × Nat)} {ps : List Property}
    (hnodup : (l.map (·.1.name)).Nodup)
    (h : serializeProperties E.toTypeIds o properties l = .ok ps) :
    ∀ x ∈ l, x.1.name ∈ properties → ∃ qs, serializeProperty E.toTypeIds o x.2 x.1 = .ok qs ∧
      ps.filter (·.name = x.1.name) = qs := by
  induction l generalizing ps with
  | nil => simp
  | cons x l ih =>
    obtain ⟨info, i⟩ := x
    obtain ⟨hfresh, hnodup⟩ := List.nodup_cons.1 hnodup
    change info.name ∉ l.map (·.1.name) at hfresh
    rw [serializeProperties] at h
    split at h
    · obtain ⟨qs, hqs, h⟩ := bind_eq_ok.1 h
      obtain ⟨rs, hrs, h⟩ := bind_eq_ok.1 h
      cases h
      have hqs_name := fun q hq => (name_decl_of_serializeProperty hqs q hq).1
      refine List.forall_mem_cons.2 ⟨fun _ => ⟨qs, hqs, ?_⟩, fun x hx hx' => ?_⟩
      · have hnone : rs.filter (·.name = info.name) = [] := by
          refine List.filter_eq_nil_iff.2 fun p hp heq => hfresh ?_
          rw [← of_decide_eq_true heq]
          exact names_of_serializeProperties hrs p hp
        rw [List.filter_append, hnone, List.append_nil, List.filter_eq_self]
        exact fun q hq => decide_eq_true (hqs_name q hq)
      · obtain ⟨ts, hts, hfilter⟩ := ih hnodup hrs x hx hx'
        have hnone : qs.filter (·.name = x.1.name) = [] := by
          refine List.filter_eq_nil_iff.2 fun q hq heq => hfresh ?_
          rw [← hqs_name q hq, of_decide_eq_true heq]
          exact List.mem_map_of_mem hx
        exact ⟨ts, hts, by rw [List.filter_append, hnone, List.nil_append, hfilter]⟩
    · next hlisted =>
      exact List.forall_mem_cons.2 ⟨fun h => absurd h hlisted, ih hnodup h⟩

theorem exists_serializeProperties {l : List (PropertyInfo × Nat)}
    (h : ∀ x ∈ l, x.1.name ∈ properties → ∃ qs, serializeProperty E.toTypeIds o x.2 x.1 = .ok qs) :
    ∃ ps, serializeProperties E.toTypeIds o properties l = .ok ps := by
  induction l with
  | nil => exact ⟨[], rfl⟩
  | cons x l ih =>
    obtain ⟨info, i⟩ := x
    obtain ⟨hfirst, hrest⟩ := List.forall_mem_cons.1 h
    obtain ⟨ps, hps⟩ := ih hrest
    rw [serializeProperties]
    split
    · next hlisted =>
      obtain ⟨qs, hqs⟩ := hfirst hlisted
      exact ⟨qs ++ ps, bind_eq_ok.2 ⟨qs, hqs, bind_eq_ok.2 ⟨ps, hps, rfl⟩⟩⟩
    · exact ⟨ps, hps⟩

theorem nodup_zipIdx_names : (c.properties.zipIdx.map (·.1.name)).Nodup := by
  have hcomp : (fun x : PropertyInfo × Nat => x.1.name) = PropertyInfo.name ∘ Prod.fst := rfl
  rw [hcomp, ← List.map_map, List.zipIdx_map_fst]
  exact c.nodup

/-- What `serializeObject` emits under the name of a listed property is what is written for it. -/
theorem filter_serializeObject {ps : List Property}
    (h : serializeObject E.toTypeIds o properties = .ok ps) (hlisted : c.Listed properties i info) :
    serializeProperty E.toTypeIds o i info = .ok (ps.filter (·.name = info.name)) := by
  obtain ⟨qs, hqs, rfl⟩ := filter_serializeProperties nodup_zipIdx_names h (info, i)
    (mem_zipIdx_iff.2 hlisted.1) hlisted.2
  exact hqs

/-- The encoder and the decoder, together, over the list. -/
theorem allTransferred_iff : AllTransferred E.toTypeIds o properties ↔
    ∀ i info, c.Listed properties i info → info.type.Transferable := by
  refine ⟨fun ⟨ps, hps, h⟩ i info hlisted => ?_, fun h => ?_⟩
  · obtain ⟨p, hp, hread⟩ := h i info hlisted
    have hwritten := filter_serializeObject hps hlisted
    rw [hp] at hwritten
    exact (transfers_iff hlisted.1).1 ⟨p, hwritten, hread⟩
  · have htransfers : ∀ i info, c.Listed properties i info → Transfers E.toTypeIds o i info :=
      fun i info hlisted => (transfers_iff hlisted.1).2 (h i info hlisted)
    obtain ⟨ps, hps⟩ : ∃ ps, serializeObject E.toTypeIds o properties = .ok ps := by
      apply exists_serializeProperties
      intro x hx hx'
      obtain ⟨p, hp, -⟩ := htransfers x.2 x.1 ⟨mem_zipIdx_iff.1 hx, hx'⟩
      exact ⟨[p], hp⟩
    refine ⟨ps, hps, fun i info hlisted => ?_⟩
    obtain ⟨p, hp, hread⟩ := htransfers i info hlisted
    have hwritten := filter_serializeObject hps hlisted
    exact ⟨p, Except.ok.inj (hwritten.symm.trans hp), hread⟩

theorem ScriptType.Transferable.not_refused {type : ScriptType} (h : type.Transferable) :
    ¬ type.Refused := by
  intro hrefused
  obtain ⟨name, rfl, hne, -⟩ := hrefused
  cases h with
  | string h => exact hne h

/-- **The check tells the truth** exactly where all that is listed gets across, or one of the listed
properties is an enumeration, which the check does not let through. -/
theorem checkTellsTruth_iff : CheckTellsTruth E o properties ↔
    (∀ i info, c.Listed properties i info → info.type.Transferable) ∨
      ∃ i info, c.Listed properties i info ∧ info.type.Refused := by
  rw [CheckTellsTruth, isSerializableType_iff, allTransferred_iff]
  refine ⟨fun h => ?_, fun h => ?_⟩
  · by_cases hrefused : ∃ i info, c.Listed properties i info ∧ info.type.Refused
    · exact .inr hrefused
    · exact .inl (h.1 fun i info hlisted hr => hrefused ⟨i, info, hlisted, hr⟩)
  · rcases h with h | ⟨i, info, hlisted, hrefused⟩
    · exact iff_of_true (fun i info hlisted => (h i info hlisted).not_refused) h
    · exact iff_of_false (fun h => h i info hlisted hrefused)
        fun h => (h i info hlisted).not_refused hrefused

end

/-- Type ids as an engine with the test campaign's types hands them out. -/
def testObjectTypeIds : ObjectTypeIds where
  toTypeIds := testTypeIds
  masked type := by
    cases type with
    | prim p => cases p <;> decide
    | enum =>
      refine iff_of_false ?_ nofun
      dsimp only [testTypeIds]
      decide
    | string | pod | object | handle | array =>
      refine iff_of_true ?_ rfl
      dsimp only [testTypeIds]
      decide

/-- A class with a 64-bit number. -/
def clockClass : ScriptClass where
  properties := [⟨"elapsed", .prim .double⟩]
  nodup := by decide

/-- Its number passes the check and fails the assertion of the encoder. -/
theorem not_checkTellsTruth_clock :
    ¬ CheckTellsTruth testObjectTypeIds (ScriptInstance.filled clockClass 0) ["elapsed"] := by
  intro h
  have hcheck : isSerializableType testObjectTypeIds clockClass ["elapsed"] = .ok true := rfl
  obtain ⟨ps, hps, -⟩ := h.1 hcheck
  cases hps

end NetSiege
