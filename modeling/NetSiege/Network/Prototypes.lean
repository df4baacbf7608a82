import Mathlib.Data.List.Forall2
import NetSiege.Network.RpcDispatcher

/-!
# Specs and prototypes (`rpcdispatcher.cpp`, `angelscript.h`)

`argSpec2decl` writes the prototype of a spec, and `argSpecFromFunction` reads the spec off the type
ids of a function's parameters. `argSpecFromFunction_iff` says that they are inverse to each other:
a spec is read exactly from the functions that have its prototype.
-/

namespace NetSiege

/-! ## Type ids -/

/-- `asTYPEID_INT8`. -/
def asTypeidInt8 : Int := 2

/-- `asTYPEID_INT16`. -/
def asTypeidInt16 : Int := 3

/-- `asTYPEID_INT32`. -/
def asTypeidInt32 : Int := 4

/-- `asTYPEID_UINT8`. -/
def asTypeidUint8 : Int := 6

/-- `asTYPEID_UINT16`. -/
def asTypeidUint16 : Int := 7

/-- `asTYPEID_UINT32`. -/
def asTypeidUint32 : Int := 8

/-- `asTYPEID_FLOAT`. -/
def asTypeidFloat : Int := 10

/-- `asTYPEID_DOUBLE`, the last of the primitive types. -/
def asTypeidDouble : Int := 11

/-- `asIScriptEngine`: the type id of a declaration, and that of the type string literals have. -/
structure ScriptEngine where
  getTypeIdByDecl : String → Int
  getStringFactoryReturnTypeId : Int

namespace ScriptEngine

/-- The names of the primitive types have their ids, `string` is the type of string literals, and
that is no primitive type. -/
structure MapsTypes (E : ScriptEngine) : Prop where
  int8 : E.getTypeIdByDecl "int8" = asTypeidInt8
  int16 : E.getTypeIdByDecl "int16" = asTypeidInt16
  int32 : E.getTypeIdByDecl "int32" = asTypeidInt32
  uint8 : E.getTypeIdByDecl "uint8" = asTypeidUint8
  uint16 : E.getTypeIdByDecl "uint16" = asTypeidUint16
  uint32 : E.getTypeIdByDecl "uint32" = asTypeidUint32
  float : E.getTypeIdByDecl "float" = asTypeidFloat
  double : E.getTypeIdByDecl "double" = asTypeidDouble
  string : E.getTypeIdByDecl "string" = E.getStringFactoryReturnTypeId
  object : asTypeidDouble < E.getStringFactoryReturnTypeId

/-- The letter of a type id in the loop of `argSpecFromFunction`. -/
def letter (E : ScriptEngine) (type : Int) : Option Char :=
  if type = asTypeidUint8 then some 'c'
  else if type = asTypeidInt8 then some 'C'
  else if type = asTypeidUint16 then some 's'
  else if type = asTypeidInt16 then some 'S'
  else if type = asTypeidUint32 then some 'i'
  else if type = asTypeidInt32 then some 'I'
  else if type = asTypeidFloat then some 'f'
  else if type = asTypeidDouble then some 'd'
  else if type = E.getStringFactoryReturnTypeId then some 'L'
  else none

/-- The loop of `argSpecFromFunction`. -/
def argSpecLoop (E : ScriptEngine) (argSpec : List Char) : List Int → Bool × List Char
  | [] => (true, argSpec)
  | type :: types =>
    match E.letter type with
    | some c => E.argSpecLoop (argSpec ++ [c]) types
    | none => (false, [])

/-- `RPCDispatcher::argSpecFromFunction` on the type ids `GetParam` gives for the parameters. -/
def argSpecFromFunction (E : ScriptEngine) (params : List Int) : Bool × List Char :=
  match params with
  | [] => (false, [])
  | typeId :: types =>
    if typeId ≠ asTypeidUint16 then (false, []) else E.argSpecLoop [] types

/-- The parameter type of a type id. `size` is `GetSizeOfPrimitiveType`, 0 for an object. -/
def paramType (E : ScriptEngine) (size : Int → Nat) (type : Int) : ParamType :=
  if type = asTypeidUint8 then .uint8
  else if type = asTypeidInt8 then .int8
  else if type = asTypeidUint16 then .uint16
  else if type = asTypeidInt16 then .int16
  else if type = asTypeidUint32 then .uint32
  else if type = asTypeidInt32 then .int32
  else if type = asTypeidFloat then .float
  else if type = asTypeidDouble then .double
  else if type = E.getStringFactoryReturnTypeId then .string
  else if size type = 0 then .object
  else .primitive (size type)

end ScriptEngine

/-! ## Prototypes -/

/-- The declaration of a function without a result. -/
def prototype (funcname : String) (types : List String) : String :=
  "void " ++ funcname ++ "(" ++ ", ".intercalate types ++ ")"

/-- A name of a type, as it can stand in a list of parameters. -/
def IsTypeName (type : String) : Prop := type ≠ "" ∧ ',' ∉ type.toList

/-- A declaration of a function gives it parameters with these type ids. -/
def ScriptEngine.Declares (E : ScriptEngine) (funcname decl : String) (params : List Int) : Prop :=
  ∃ types, decl = prototype funcname types ∧ (∀ type ∈ types, IsTypeName type) ∧
    params = types.map E.getTypeIdByDecl

/-- A spec over the nine letters. -/
def IsSpec (argSpec : List Char) : Prop :=
  ∀ c ∈ argSpec, c ∈ ['c', 'C', 's', 'S', 'i', 'I', 'f', 'd', 'L']

/-! ## A prototype has one list of types -/

theorem append_comma_inj {t u r r' : List Char} (ht : ',' ∉ t) (hu : ',' ∉ u)
    (h : t ++ ',' :: r = u ++ ',' :: r') : t = u ∧ r = r' := by
  induction t generalizing u with
  | nil =>
    cases u with
    | nil => exact ⟨rfl, (List.cons.inj h).2⟩
    | cons d u =>
      rw [List.nil_append, List.cons_append, List.cons.injEq] at h
      exact absurd (h.1 ▸ List.mem_cons_self) hu
  | cons c t ih =>
    cases u with
    | nil =>
      rw [List.nil_append, List.cons_append, List.cons.injEq] at h
      exact absurd (h.1 ▸ List.mem_cons_self) ht
    | cons d u =>
      rw [List.cons_append, List.cons_append, List.cons.injEq] at h
      obtain ⟨rfl, hrest⟩ := h
      obtain ⟨rfl, heq⟩ := ih (fun hmem => ht (List.mem_cons_of_mem _ hmem))
        (fun hmem => hu (List.mem_cons_of_mem _ hmem)) hrest
      exact ⟨rfl, heq⟩

/-- The separator of a list of parameters tells the types apart. -/
theorem intercalate_comma_inj {ts us : List (List Char)} (ht : ∀ t ∈ ts, t ≠ [] ∧ ',' ∉ t)
    (hu : ∀ u ∈ us, u ≠ [] ∧ ',' ∉ u)
    (h : [',', ' '].intercalate ts = [',', ' '].intercalate us) : ts = us := by
  induction ts generalizing us with
  | nil =>
    cases us with
    | nil => rfl
    | cons u us =>
      have hne := (hu u List.mem_cons_self).1
      cases us with
      | nil => simp [hne.symm] at h
      | cons u' us => simp [List.intercalate_cons_cons] at h
  | cons t ts ih =>
    obtain ⟨⟨hne, hcomma⟩, hts⟩ := List.forall_mem_cons.1 ht
    cases us with
    | nil =>
      cases ts with
      | nil => simp [hne] at h
      | cons t' ts => simp [List.intercalate_cons_cons] at h
    | cons u us =>
      obtain ⟨⟨hne', hcomma'⟩, hus⟩ := List.forall_mem_cons.1 hu
      cases ts with
      | nil =>
        cases us with
        | nil => simpa using h
        | cons u' us =>
          rw [List.intercalate_singleton, List.intercalate_cons_cons] at h
          exact absurd (by simp [h]) hcomma
      | cons t' ts =>
        cases us with
        | nil =>
          rw [List.intercalate_singleton, List.intercalate_cons_cons] at h
          exact absurd (by simp [← h]) hcomma'
        | cons u' us =>
          rw [List.intercalate_cons_cons, List.intercalate_cons_cons] at h
          simp only [List.append_assoc, List.cons_append, List.nil_append] at h
          obtain ⟨rfl, hrest⟩ := append_comma_inj hcomma hcomma' h
          rw [ih hts hus (List.cons.inj hrest).2]

theorem prototype_inj {funcname : String} {ts us : List String} (ht : ∀ t ∈ ts, IsTypeName t)
    (hu : ∀ u ∈ us, IsTypeName u) (h : prototype funcname ts = prototype funcname us) :
    ts = us := by
  have hlist := congrArg String.toList h
  simp only [prototype, String.toList_append, String.toList_intercalate] at hlist
  rw [List.append_left_inj, List.append_right_inj] at hlist
  have hchars : ∀ {ts : List String}, (∀ t ∈ ts, IsTypeName t) →
      ∀ t ∈ ts.map String.toList, t ≠ [] ∧ ',' ∉ t := by
    intro ts hts
    rw [List.forall_mem_map]
    intro t htmem
    obtain ⟨hne, hcomma⟩ := hts t htmem
    exact ⟨fun hnil => hne (String.toList_inj.1 hnil), hcomma⟩
  have hmap := intercalate_comma_inj (hchars ht) (hchars hu) hlist
  exact List.map_injective_iff.2 (fun _ _ heq => String.toList_inj.1 heq) hmap

/-! ## What `argSpec2decl` writes -/

/-- The loop of `argSpec2decl` appends the types of the letters. -/
theorem foldlM_paramDecl_iff {argSpec : List Char} {acc decl : String} :
    argSpec.foldlM (fun decl c => do
      let param ← paramDecl c
      .ok (decl ++ ", " ++ param)) acc = Except.ok decl ↔
    ∃ types, List.Forall₂ (fun c type => paramDecl c = .ok type) argSpec types ∧
      decl = types.foldl (fun decl type => decl ++ ", " ++ type) acc := by
  induction argSpec generalizing acc with
  | nil => simp [pure, Except.pure, eq_comm]
  | cons c argSpec ih =>
    rw [List.foldlM_cons]
    cases hparam : paramDecl c with
    | error e =>
      simp [bind, Except.bind, hparam, List.forall₂_cons_left_iff]
    | ok param =>
      simp only [bind, Except.bind] at ih ⊢
      rw [ih]
      refine ⟨fun ⟨types, htypes, heq⟩ => ⟨param :: types, .cons hparam htypes, heq⟩,
        fun ⟨types, htypes, heq⟩ => ?_⟩
      obtain ⟨type, rest, htype, hrest, rfl⟩ := List.forall₂_cons_left_iff.1 htypes
      cases hparam.symm.trans htype
      exact ⟨rest, hrest, heq⟩

theorem foldl_comma (types : List String) (acc type : String) :
    types.foldl (fun decl type => decl ++ ", " ++ type) (acc ++ type) =
      acc ++ ", ".intercalate (type :: types) := by
  induction types generalizing acc type with
  | nil => rw [List.foldl_nil, String.intercalate_singleton]
  | cons type' types ih =>
    rw [List.foldl_cons, ih, String.intercalate_cons_cons]
    simp only [String.append_assoc]

/-- A spec has a prototype if and only if its letters have types. -/
theorem argSpec2decl_iff {funcname : String} {argSpec : List Char} {decl : String} :
    argSpec2decl funcname argSpec = .ok decl ↔
      ∃ types, List.Forall₂ (fun c type => paramDecl c = .ok type) argSpec types ∧
        decl = prototype funcname ("uint16" :: types) := by
  have hstart : "void " ++ funcname ++ "(uint16" = "void " ++ funcname ++ "(" ++ "uint16" := by
    simp only [String.append_assoc]
    rfl
  have hloop : argSpec2decl funcname argSpec = .ok decl ↔ ∃ body,
      argSpec.foldlM (fun decl c => do
        let param ← paramDecl c
        .ok (decl ++ ", " ++ param)) ("void " ++ funcname ++ "(uint16") = Except.ok body ∧
      decl = body ++ ")" := by
    rw [argSpec2decl]
    cases argSpec.foldlM (fun decl c => do
      let param ← paramDecl c
      .ok (decl ++ ", " ++ param)) ("void " ++ funcname ++ "(uint16") with
    | error e => simp [bind, Except.bind]
    | ok body => simp [bind, Except.bind, eq_comm]
  rw [hloop]
  refine ⟨fun ⟨body, hbody, heq⟩ => ?_, fun ⟨types, htypes, heq⟩ => ?_⟩
  · obtain ⟨types, htypes, rfl⟩ := foldlM_paramDecl_iff.1 hbody
    rw [hstart, foldl_comma] at heq
    exact ⟨types, htypes, heq⟩
  · refine ⟨_, foldlM_paramDecl_iff.2 ⟨types, htypes, rfl⟩, ?_⟩
    rw [heq, hstart, foldl_comma, prototype]

/-! ## Letters and types -/

/-- The letters with their types. -/
inductive LetterType : Char → String → Prop
  | uint8 : LetterType 'c' "uint8"
  | int8 : LetterType 'C' "int8"
  | uint16 : LetterType 's' "uint16"
  | int16 : LetterType 'S' "int16"
  | uint32 : LetterType 'i' "uint32"
  | int32 : LetterType 'I' "int32"
  | float : LetterType 'f' "float"
  | double : LetterType 'd' "double"
  | string : LetterType 'L' "string"

theorem letterType_of_paramDecl {c : Char} {type : String} (h : paramDecl c = .ok type) :
    LetterType c type := by
  unfold paramDecl at h
  split at h
  all_goals cases h
  all_goals constructor

theorem LetterType.mem {c : Char} {type : String} (h : LetterType c type) :
    c ∈ ['c', 'C', 's', 'S', 'i', 'I', 'f', 'd', 'L'] := by
  cases h
  all_goals repeat first | exact .head _ | apply List.Mem.tail

theorem exists_paramDecl {c : Char} (h : c ∈ ['c', 'C', 's', 'S', 'i', 'I', 'f', 'd', 'L']) :
    ∃ type, paramDecl c = .ok type := by
  simp only [List.mem_cons, List.not_mem_nil, or_false] at h
  rcases h with rfl | rfl | rfl | rfl | rfl | rfl | rfl | rfl | rfl
  all_goals exact ⟨_, rfl⟩

theorem isTypeName_of_paramDecl {c : Char} {type : String} (h : paramDecl c = .ok type) :
    IsTypeName type := by
  cases letterType_of_paramDecl h
  all_goals exact ⟨by decide, by decide⟩

namespace ScriptEngine

variable {E : ScriptEngine}

/-- The two tables are inverse to each other. -/
theorem letter_iff (hE : E.MapsTypes) {c : Char} {typeId : Int} : E.letter typeId = some c ↔
    ∃ type, paramDecl c = .ok type ∧ E.getTypeIdByDecl type = typeId := by
  have hobject := hE.object
  refine ⟨fun h => ?_, fun ⟨type, htype, heq⟩ => ?_⟩
  · unfold letter at h
    repeat' split at h
    all_goals cases h
    · next heq => exact ⟨_, rfl, hE.uint8.trans heq.symm⟩
    · next heq => exact ⟨_, rfl, hE.int8.trans heq.symm⟩
    · next heq => exact ⟨_, rfl, hE.uint16.trans heq.symm⟩
    · next heq => exact ⟨_, rfl, hE.int16.trans heq.symm⟩
    · next heq => exact ⟨_, rfl, hE.uint32.trans heq.symm⟩
    · next heq => exact ⟨_, rfl, hE.int32.trans heq.symm⟩
    · next heq => exact ⟨_, rfl, hE.float.trans heq.symm⟩
    · next heq => exact ⟨_, rfl, hE.double.trans heq.symm⟩
    · next heq => exact ⟨_, rfl, hE.string.trans heq.symm⟩
  · rw [← heq]
    cases letterType_of_paramDecl htype with
    | uint8 => rw [hE.uint8]; rfl
    | int8 => rw [hE.int8]; rfl
    | uint16 => rw [hE.uint16]; rfl
    | int16 => rw [hE.int16]; rfl
    | uint32 => rw [hE.uint32]; rfl
    | int32 => rw [hE.int32]; rfl
    | float => rw [hE.float]; rfl
    | double => rw [hE.double]; rfl
    | string =>
      -- no primitive type has the id of `string`
      rw [hE.string]
      simp only [asTypeidDouble] at hobject
      have hne : ∀ typeId ≤ 11, E.getStringFactoryReturnTypeId ≠ typeId := by
        intro typeId hle
        omega
      simp only [letter, hne asTypeidUint8 (by decide), hne asTypeidInt8 (by decide),
        hne asTypeidUint16 (by decide), hne asTypeidInt16 (by decide),
        hne asTypeidUint32 (by decide), hne asTypeidInt32 (by decide),
        hne asTypeidFloat (by decide), hne asTypeidDouble (by decide), if_false, if_true]

/-- The loop of `argSpecFromFunction` appends the letters of the types. -/
theorem argSpecLoop_iff {params : List Int} {acc argSpec : List Char} :
    E.argSpecLoop acc params = (true, argSpec) ↔
      ∃ letters, List.Forall₂ (fun c typeId => E.letter typeId = some c) letters params ∧
        argSpec = acc ++ letters := by
  induction params generalizing acc with
  | nil => simp [argSpecLoop, eq_comm]
  | cons typeId params ih =>
    rw [argSpecLoop]
    cases hletter : E.letter typeId with
    | none => simp [List.forall₂_cons_right_iff, hletter]
    | some c =>
      rw [ih]
      refine ⟨fun ⟨letters, hletters, heq⟩ => ⟨c :: letters, .cons hletter hletters, ?_⟩,
        fun ⟨letters, hletters, heq⟩ => ?_⟩
      · rw [heq, List.append_assoc]
        rfl
      · obtain ⟨c', rest, hc', hrest, rfl⟩ := List.forall₂_cons_right_iff.1 hletters
        cases hletter.symm.trans hc'
        refine ⟨rest, hrest, ?_⟩
        rw [heq, List.append_assoc]
        rfl

/-- What `argSpecFromFunction` reads has the types of the parameters behind the first. -/
theorem argSpecFromFunction_eq_true {params : List Int} {argSpec : List Char} :
    E.argSpecFromFunction params = (true, argSpec) ↔ ∃ types, params = asTypeidUint16 :: types ∧
      List.Forall₂ (fun c typeId => E.letter typeId = some c) argSpec types := by
  cases params with
  | nil => simp [argSpecFromFunction]
  | cons typeId types =>
    rw [argSpecFromFunction]
    by_cases htype : typeId = asTypeidUint16
    · subst htype
      rw [if_neg (not_not.2 rfl), argSpecLoop_iff]
      simp
    · simp [htype]

/-- The letters of a spec and the types of its prototype. -/
theorem forall₂_letter_iff (hE : E.MapsTypes) {argSpec : List Char} {typeIds : List Int} :
    List.Forall₂ (fun c typeId => E.letter typeId = some c) argSpec typeIds ↔
      ∃ types, List.Forall₂ (fun c type => paramDecl c = .ok type) argSpec types ∧
        typeIds = types.map E.getTypeIdByDecl := by
  induction argSpec generalizing typeIds with
  | nil => simp
  | cons c argSpec ih =>
    refine ⟨fun h => ?_, fun ⟨types, htypes, heq⟩ => ?_⟩
    · obtain ⟨typeId, rest, hletter, hrest, rfl⟩ := List.forall₂_cons_left_iff.1 h
      obtain ⟨type, htype, rfl⟩ := (letter_iff hE).1 hletter
      obtain ⟨types, htypes, rfl⟩ := ih.1 hrest
      exact ⟨type :: types, .cons htype htypes, rfl⟩
    · obtain ⟨type, rest, htype, hrest, rfl⟩ := List.forall₂_cons_left_iff.1 htypes
      rw [heq, List.map_cons]
      exact .cons ((letter_iff hE).2 ⟨type, htype, rfl⟩) (ih.2 ⟨rest, hrest, rfl⟩)

theorem isTypeName_of_forall₂ {argSpec : List Char} {types : List String}
    (h : List.Forall₂ (fun c type => paramDecl c = .ok type) argSpec types) :
    ∀ type ∈ types, IsTypeName type := by
  induction h with
  | nil => exact nofun
  | cons htype _ ih => exact List.forall_mem_cons.2 ⟨isTypeName_of_paramDecl htype, ih⟩

/-- A letter has one type. -/
theorem forall₂_paramDecl_unique {argSpec : List Char} {types types' : List String}
    (h : List.Forall₂ (fun c type => paramDecl c = .ok type) argSpec types)
    (h' : List.Forall₂ (fun c type => paramDecl c = .ok type) argSpec types') : types = types' := by
  induction h generalizing types' with
  | nil => exact (List.forall₂_nil_left_iff.1 h').symm
  | cons htype _ ih =>
    obtain ⟨type', rest', htype', hrest', rfl⟩ := List.forall₂_cons_left_iff.1 h'
    cases htype.symm.trans htype'
    rw [ih hrest']

/-- The functions with the prototype of a spec. -/
theorem declares_iff {funcname decl : String} {argSpec : List Char} {params : List Int}
    (hdecl : argSpec2decl funcname argSpec = .ok decl) : E.Declares funcname decl params ↔
      ∃ types, List.Forall₂ (fun c type => paramDecl c = .ok type) argSpec types ∧
        params = ("uint16" :: types).map E.getTypeIdByDecl := by
  obtain ⟨types, htypes, rfl⟩ := argSpec2decl_iff.1 hdecl
  have hnames : ∀ type ∈ "uint16" :: types, IsTypeName type :=
    List.forall_mem_cons.2 ⟨⟨by decide, by decide⟩, isTypeName_of_forall₂ htypes⟩
  refine ⟨fun ⟨types', heq, hnames', hparams⟩ => ?_, fun ⟨types', htypes', hparams⟩ => ?_⟩
  · rw [← prototype_inj hnames hnames' heq] at hparams
    exact ⟨types, htypes, hparams⟩
  · cases forall₂_paramDecl_unique htypes htypes'
    exact ⟨"uint16" :: types, rfl, hnames, hparams⟩

/-- The specs that have a prototype. -/
theorem exists_argSpec2decl_iff {funcname : String} {argSpec : List Char} :
    (∃ decl, argSpec2decl funcname argSpec = .ok decl) ↔ IsSpec argSpec := by
  have htypes : (∃ types, List.Forall₂ (fun c type => paramDecl c = .ok type) argSpec types) ↔
      IsSpec argSpec := by
    induction argSpec with
    | nil => exact ⟨fun _ => nofun, fun _ => ⟨[], .nil⟩⟩
    | cons c argSpec ih =>
      rw [IsSpec, List.forall_mem_cons]
      refine ⟨fun ⟨types, h⟩ => ?_, fun ⟨hc, hrest⟩ => ?_⟩
      · obtain ⟨type, rest, htype, hrest, rfl⟩ := List.forall₂_cons_left_iff.1 h
        exact ⟨(letterType_of_paramDecl htype).mem, ih.1 ⟨rest, hrest⟩⟩
      · obtain ⟨type, htype⟩ := exists_paramDecl hc
        obtain ⟨types, h⟩ := ih.2 hrest
        exact ⟨type :: types, .cons htype h⟩
  rw [← htypes]
  refine ⟨fun ⟨decl, hdecl⟩ => ?_, fun ⟨types, h⟩ => ⟨_, argSpec2decl_iff.2 ⟨types, h, rfl⟩⟩⟩
  obtain ⟨types, h, -⟩ := argSpec2decl_iff.1 hdecl
  exact ⟨types, h⟩

/-- A spec is read from a function, if and only if the function has its prototype. -/
theorem argSpecFromFunction_iff (hE : E.MapsTypes) (funcname : String) {argSpec : List Char}
    {params : List Int} : E.argSpecFromFunction params = (true, argSpec) ↔
      ∃ decl, argSpec2decl funcname argSpec = .ok decl ∧ E.Declares funcname decl params := by
  rw [argSpecFromFunction_eq_true]
  simp only [forall₂_letter_iff hE]
  refine ⟨fun ⟨typeIds, hparams, types, htypes, heq⟩ => ?_, fun ⟨decl, hdecl, hdeclares⟩ => ?_⟩
  · have hdecl : argSpec2decl funcname argSpec = .ok (prototype funcname ("uint16" :: types)) :=
      argSpec2decl_iff.2 ⟨types, htypes, rfl⟩
    refine ⟨_, hdecl, (declares_iff hdecl).2 ⟨types, htypes, ?_⟩⟩
    rw [hparams, heq, List.map_cons, hE.uint16]
  · obtain ⟨types, htypes, hparams⟩ := (declares_iff hdecl).1 hdeclares
    refine ⟨types.map E.getTypeIdByDecl, ?_, types, htypes, rfl⟩
    rw [hparams, List.map_cons, hE.uint16]

/-- **Specs and prototypes.** A spec has a prototype and is read back from the functions with it;
what is read from a function is the spec of its prototype; and nothing is read from any other
function. -/
theorem argSpec_inverse (E : ScriptEngine) (hE : E.MapsTypes) (funcname : String) :
    (∀ argSpec, IsSpec argSpec → ∃ decl, argSpec2decl funcname argSpec = .ok decl ∧
      (∃ params, E.Declares funcname decl params) ∧
      ∀ params, E.Declares funcname decl params → E.argSpecFromFunction params = (true, argSpec)) ∧
    (∀ params argSpec, E.argSpecFromFunction params = (true, argSpec) → IsSpec argSpec ∧
      ∃ decl, argSpec2decl funcname argSpec = .ok decl ∧ E.Declares funcname decl params) ∧
    ∀ params, (∀ argSpec decl, argSpec2decl funcname argSpec = .ok decl →
      ¬ E.Declares funcname decl params) → (E.argSpecFromFunction params).1 = false := by
  refine ⟨fun argSpec hspec => ?_, fun params argSpec h => ?_, fun params hnone => ?_⟩
  · obtain ⟨decl, hdecl⟩ := exists_argSpec2decl_iff.2 hspec
    refine ⟨decl, hdecl, ?_, fun params hdeclares => ?_⟩
    · obtain ⟨types, htypes, -⟩ := argSpec2decl_iff.1 hdecl
      exact ⟨_, (declares_iff hdecl).2 ⟨types, htypes, rfl⟩⟩
    · exact (argSpecFromFunction_iff hE funcname).2 ⟨decl, hdecl, hdeclares⟩
  · obtain ⟨decl, hdecl, hdeclares⟩ := (argSpecFromFunction_iff hE funcname).1 h
    exact ⟨exists_argSpec2decl_iff.1 ⟨decl, hdecl⟩, decl, hdecl, hdeclares⟩
  · by_contra htrue
    rw [Bool.not_eq_false] at htrue
    have hpair : E.argSpecFromFunction params = (true, (E.argSpecFromFunction params).2) := by
      rw [← htrue]
    obtain ⟨decl, hdecl, hdeclares⟩ := (argSpecFromFunction_iff hE funcname).1 hpair
    exact hnone _ decl hdecl hdeclares

/-- An engine with the types of the nine letters. -/
def standard : ScriptEngine where
  getTypeIdByDecl
    | "int8" => asTypeidInt8
    | "int16" => asTypeidInt16
    | "int32" => asTypeidInt32
    | "uint8" => asTypeidUint8
    | "uint16" => asTypeidUint16
    | "uint32" => asTypeidUint32
    | "float" => asTypeidFloat
    | "double" => asTypeidDouble
    | "string" => 67108876
    | _ => -1
  getStringFactoryReturnTypeId := 67108876

theorem mapsTypes_standard : standard.MapsTypes :=
  ⟨rfl, rfl, rfl, rfl, rfl, rfl, rfl, rfl, rfl, by decide⟩

/-- The spec of a function with a byte and a string. -/
theorem argSpec_inverse_say : ∃ decl, argSpec2decl "say" ['c', 'L'] = .ok decl ∧
    ∀ params, standard.Declares "say" decl params →
      standard.argSpecFromFunction params = (true, ['c', 'L']) := by
  obtain ⟨decl, hdecl, -, hread⟩ := (argSpec_inverse standard mapsTypes_standard "say").1 ['c', 'L']
    (by simp [IsSpec])
  exact ⟨decl, hdecl, hread⟩

/-! ## The parameter types of the dispatcher -/

section
variable (size : Int → Nat)

theorem letter_paramType (typeId : Int) : (E.paramType size typeId).letter = E.letter typeId := by
  simp only [paramType, apply_ite ParamType.letter, letter]
  simp only [ParamType.letter, ite_self]

theorem paramType_eq_uint16_iff {typeId : Int} :
    E.paramType size typeId = .uint16 ↔ typeId = asTypeidUint16 := by
  refine ⟨fun h => ?_, fun h => by rw [h]; rfl⟩
  unfold paramType at h
  repeat' split at h
  all_goals first
    | assumption
    | cases h

theorem mapM_letter_iff {types : List Int} {argSpec : List Char} :
    (types.map (E.paramType size)).mapM ParamType.letter = some argSpec ↔
      List.Forall₂ (fun c typeId => E.letter typeId = some c) argSpec types := by
  induction types generalizing argSpec with
  | nil => simp [eq_comm]
  | cons typeId types ih =>
    rw [List.map_cons, List.mapM_cons, letter_paramType, List.forall₂_cons_right_iff,
      Option.bind_eq_bind, Option.bind_eq_some_iff]
    simp only [Option.bind_eq_bind, Option.bind_eq_some_iff, Option.pure_def, Option.some.injEq, ih]
    refine ⟨fun ⟨c, hc, rest, hrest, heq⟩ => ⟨c, rest, hc, hrest, heq.symm⟩,
      fun ⟨c, rest, hc, hrest, heq⟩ => ⟨c, hc, rest, hrest, heq.symm⟩⟩

/-- The dispatcher's function on parameters is the one on the ids `GetParam` gives for them. -/
theorem argSpecFromFunction_map (name : String) {params : List Param} {types : List Int}
    (hparams : params.map Param.type = types.map (E.paramType size)) {argSpec : List Char} :
    NetSiege.argSpecFromFunction ⟨name, params⟩ = some argSpec ↔
      E.argSpecFromFunction types = (true, argSpec) := by
  rw [argSpecFromFunction_eq_true, NetSiege.argSpecFromFunction, hparams]
  cases types with
  | nil => simp
  | cons typeId types =>
    rw [List.map_cons]
    by_cases htype : typeId = asTypeidUint16
    · rw [(paramType_eq_uint16_iff size).2 htype]
      dsimp only
      rw [mapM_letter_iff]
      simp [htype]
    · have hne := (paramType_eq_uint16_iff (E := E) size).not.2 htype
      split
      · next heq => exact absurd (List.cons.inj heq).1 hne
      · simp [htype]

end

end ScriptEngine

end NetSiege
