import NetSiege.Network.RpcDispatcher

/-!
# The arguments of a received call (`rpcdispatcher.cpp`, `rpcpackage.cpp`)

`executeReceivedCall` copies the received bytes into a local array that is not initialised, pops the
arguments from the whole array and sets them for the parameters of the handler. `layout` places
every parameter in the array; `setArgs_eq` reads them there. The arguments depend on the received
bytes alone exactly where every parameter lies in the bytes copied (`arguments_determined_iff`).
-/

namespace NetSiege

open Lib

/-- The bytes a pop of this letter moves over. -/
def argSize : Char → Option Nat
  | 'c' | 'C' => some 1
  | 's' | 'S' | 'L' => some 2
  | 'i' | 'I' | 'f' => some 4
  | 'd' => some 8
  | _ => none

/-- The number of bytes of a string whose length prefix stands at an offset, clamped to the
buffer. -/
def bodyLength (bytes : List UInt8) (off : Nat) : Nat :=
  min (ofLeBytes (slice bytes off 2)) (maxRpcDataSize - (off + 2))

/-- The value a pop reads at an offset. -/
def readArg (bytes : List UInt8) (c : Char) (off : Nat) : Arg :=
  if c = 'L' then .str (slice bytes (off + 2) (bodyLength bytes off))
  else argOfNum c (ofLeBytes (slice bytes off ((argSize c).getD 0)))

/-- The value a parameter has when its argument is read at an offset. -/
def readParam (bytes : List UInt8) (param : Param) (off : Nat) : ParamValue :=
  if param.isReference then .dangling
  else
    match param.type.letter with
    | none => .bytes (slice bytes off param.type.size)
    | some c => .arg (readArg bytes c off)

/-- The parameters the arguments of a spec are set for, and the offsets at which these are read. -/
def layout : List Char → List Param → Nat → Except Trap (List (Param × Nat))
  | [], _, _ => .ok []
  | c :: cs, params, off =>
    match argSize c with
    | none => .error .assertion
    | some n =>
      if off + n ≤ maxRpcDataSize then do
        let param ← checkParam params.head? c
        let places ← layout cs params.tail (off + n)
        .ok ((param, off) :: places)
      else .error .outOfBounds

theorem argSize_le {c : Char} (h : argSize c = some n) : 0 < n ∧ n ≤ 8 := by
  unfold argSize at h
  split at h <;> simp at h <;> omega

theorem popString_eq {p : RPCPackage} (h : p.readOffset + 2 ≤ maxRpcDataSize) :
    p.popString = .ok (slice p.data.bytes (p.readOffset + 2) (bodyLength p.data.bytes p.readOffset),
      { p with readOffset := p.readOffset + 2 }) := by
  have hclamp : ∀ n, (if p.readOffset + 2 + n > maxRpcDataSize then
      maxRpcDataSize - (p.readOffset + 2) else n) =
        min n (maxRpcDataSize - (p.readOffset + 2)) := by
    intro n
    split <;> omega
  rw [RPCPackage.popString, RPCPackage.popValue_eq h, bodyLength, ← hclamp]
  rfl

theorem popArg_eq {p : RPCPackage} {c : Char} (hc : argSize c = some n)
    (h : p.readOffset + n ≤ maxRpcDataSize) :
    p.popArg c = .ok (readArg p.data.bytes c p.readOffset,
      { p with readOffset := p.readOffset + n }) := by
  unfold argSize at hc
  split at hc <;> cases hc
  case h_5 => rw [RPCPackage.popArg, popString_eq h]; rfl
  all_goals
    rw [RPCPackage.popArg, RPCPackage.popValue_eq h]
    rfl

theorem popArg_of_unknown {p : RPCPackage} {c : Char} (hc : argSize c = none) :
    p.popArg c = .error .assertion := by
  unfold argSize at hc
  split at hc <;> try cases hc
  simp_all [RPCPackage.popArg]

theorem popValue_beyond {p : RPCPackage} (hle : p.readOffset ≤ maxRpcDataSize) (hn : n ≤ 8)
    (h : ¬ p.readOffset + n ≤ maxRpcDataSize) : p.popValue n = .error .outOfBounds := by
  have hmax : ¬ p.readOffset + n > maxPackageSize := by
    simp only [maxRpcDataSize, maxPackageSize] at *
    omega
  rw [RPCPackage.popValue, if_neg hmax, RPCPackage.readAt, if_neg h]
  rfl

theorem popArg_beyond {p : RPCPackage} {c : Char} (hc : argSize c = some n)
    (hle : p.readOffset ≤ maxRpcDataSize) (h : ¬ p.readOffset + n ≤ maxRpcDataSize) :
    p.popArg c = .error .outOfBounds := by
  have hread := popValue_beyond hle (argSize_le hc).2 h
  unfold argSize at hc
  split at hc <;> cases hc
  case h_5 => rw [RPCPackage.popArg, RPCPackage.popString, hread]; rfl
  all_goals
    rw [RPCPackage.popArg, hread]
    rfl

/-- The value built from a number is written as the bytes of the number. -/
theorem encode_argOfNum {c : Char} (hc : argSize c = some n) (hstr : c ≠ 'L') (hv : v < 256 ^ n) :
    (argOfNum c v).encode = leBytes n v := by
  unfold argSize at hc
  split at hc <;> cases hc
  case h_5 => exact absurd rfl hstr
  all_goals
    simp only [Nat.reducePow] at hv
    simp [argOfNum, Arg.encode, Nat.mod_eq_of_lt hv]

/-- A number is set for a primitive of at most its size. -/
theorem size_of_accepts {param : Param} {c : Char} (hc : argSize c = some n) (hstr : c ≠ 'L')
    (h : param.accepts c = true) : 0 < param.type.size ∧ param.type.size ≤ n ∧
      param.type.isObject = false ∧ param.isReference = false := by
  unfold argSize at hc
  split at hc <;> cases hc
  case h_5 => exact absurd rfl hstr
  all_goals
    simp only [Param.accepts, ParamType.stackDWords, Bool.and_eq_true, Bool.not_eq_true',
      beq_iff_eq] at h
    exact ⟨by omega, by omega, h.1⟩

theorem argSize_of_letter {type : ParamType} {c : Char} (h : type.letter = some c)
    (hobject : type.isObject = false) : argSize c = some type.size := by
  cases type <;> cases h <;> first
    | rfl
    | cases hobject

/-- The bytes of a number stand where it was read. -/
theorem encode_readArg {bytes : List UInt8} {c : Char} {off : Nat} (hc : argSize c = some n)
    (hstr : c ≠ 'L') (hfits : off + n ≤ bytes.length) :
    (readArg bytes c off).encode = slice bytes off n := by
  have hlen := length_slice hfits
  have hlt := ofLeBytes_lt (slice bytes off n)
  have hback := leBytes_ofLeBytes (slice bytes off n)
  rw [hlen] at hlt hback
  rw [readArg, if_neg hstr, hc, Option.getD_some, encode_argOfNum hc hstr hlt, hback]

/-- The function reads the bytes of its parameter where the argument was popped. -/
theorem read_readArg {bytes : List UInt8} {param : Param} {c : Char} {off : Nat}
    (hc : argSize c = some n) (haccepts : param.accepts c = true)
    (hfits : off + n ≤ bytes.length) :
    param.read (readArg bytes c off) = readParam bytes param off := by
  obtain ⟨type, isReference⟩ := param
  obtain rfl | hstr := eq_or_ne c 'L'
  · cases type with
    | string => cases isReference <;> rfl
    | object => cases isReference <;> rfl
    | _ => cases haccepts
  · obtain ⟨-, hsize, hobject, rfl⟩ := size_of_accepts hc hstr haccepts
    have hbytes : (readArg bytes c off).encode.take type.size = slice bytes off type.size := by
      rw [encode_readArg hc hstr hfits, slice, List.take_take, Nat.min_eq_left hsize, slice]
    rw [Param.read, readParam, if_neg (by simp), if_neg (by simp), hbytes]
    dsimp only at hobject ⊢
    split
    · next hletter => rw [hletter]
    · next hletter =>
      have htype := ParamType.eq_ofLetter hletter
      rw [htype] at hobject
      cases hobject
    · next c' hne hletter =>
      have hstr' : c' ≠ 'L' := fun h => hne (h ▸ rfl)
      rw [hletter]
      dsimp only
      rw [readArg, if_neg hstr', argSize_of_letter hletter hobject, Option.getD_some]

/-- The loop of `executeReceivedCall` reads every parameter in its place. -/
theorem setArgs_eq {argSpec : List Char} {params : List Param} {p : RPCPackage}
    (hle : p.readOffset ≤ maxRpcDataSize) :
    setArgs argSpec params p = (layout argSpec params p.readOffset).map fun places =>
      (places.map fun place => readParam p.data.bytes place.1 place.2) ++
        (params.drop argSpec.length).map fun _ => .unset := by
  induction argSpec generalizing params p with
  | nil => rfl
  | cons c argSpec ih =>
    rw [setArgs, layout]
    cases hc : argSize c with
    | none =>
      rw [popArg_of_unknown hc]
      rfl
    | some n =>
      dsimp only
      split
      · next hfits =>
        have hrest := @ih params.tail { p with readOffset := p.readOffset + n } hfits
        rw [popArg_eq hc hfits]
        simp only [bind, Except.bind]
        cases hparam : checkParam params.head? c with
        | error e => rfl
        | ok param =>
          obtain ⟨hhead, haccepts, -⟩ := checkParam_eq_ok.1 hparam
          have hread := read_readArg hc haccepts (hfits.trans_eq p.data.size_eq.symm)
          have hdrop : params.drop (argSpec.length + 1) = params.tail.drop argSpec.length := by
            rw [List.drop_tail]
          simp only [hrest]
          cases layout argSpec params.tail (p.readOffset + n) with
          | error e => rfl
          | ok places =>
            simp only [Except.map, List.map_cons, List.cons_append, List.length_cons, hread, hdrop]
      · next hbeyond =>
        rw [popArg_beyond hc hle hbeyond]
        rfl

/-- The arguments a reader pops are those of parameters of the spec's own types. -/
theorem setArgs_ofLetter (argSpec : List Char) (p : RPCPackage) :
    setArgs argSpec (argSpec.map .ofLetter) p =
      (popArgs argSpec p).map fun args => args.map .arg := by
  induction argSpec generalizing p with
  | nil => rfl
  | cons c argSpec ih =>
    rw [List.map_cons, setArgs, popArgs]
    cases hpop : p.popArg c with
    | error e => rfl
    | ok r =>
      obtain rfl := popArg_letter hpop
      simp only [bind, Except.bind, List.head?_cons, checkParam_ofLetter, List.tail_cons, ih,
        read_ofLetter]
      cases popArgs argSpec r.2 with
      | error e => rfl
      | ok args => rfl

/-- A parameter in the buffer: an argument of some type that is set for it. -/
structure Placed (place : Param × Nat) (c : Char) (n : Nat) : Prop where
  size : argSize c = some n
  fits : place.2 + n ≤ maxRpcDataSize
  accepts : place.1.accepts c = true
  object : place.1.type = .object → place.1.isReference = true

theorem layout_placed {argSpec : List Char} {params : List Param} {off : Nat}
    {places : List (Param × Nat)} (h : layout argSpec params off = .ok places)
    {place : Param × Nat} (hplace : place ∈ places) : ∃ c n, Placed place c n := by
  induction argSpec generalizing params off places with
  | nil =>
    cases h
    cases hplace
  | cons c argSpec ih =>
    rw [layout] at h
    split at h
    · cases h
    · next n hc =>
      split at h
      · next hfits =>
        obtain ⟨param, hparam, h⟩ := bind_eq_ok.1 h
        obtain ⟨places', hplaces, h⟩ := bind_eq_ok.1 h
        cases h
        obtain rfl | hplace := List.mem_cons.1 hplace
        · obtain ⟨-, haccepts, hobject⟩ := checkParam_eq_ok.1 hparam
          exact ⟨c, n, hc, hfits, haccepts, hobject⟩
        · exact ih hplaces hplace
      · cases h

theorem checkParam_error {param : Option Param} {c : Char} {trap : Trap}
    (h : checkParam param c = .error trap) : trap = .assertion ∨ trap = .wildPointer := by
  unfold checkParam at h
  repeat' split at h
  all_goals cases h
  · exact .inl rfl
  · exact .inl rfl
  · exact .inr rfl

theorem layout_error {argSpec : List Char} {params : List Param} {off : Nat} {trap : Trap}
    (h : layout argSpec params off = .error trap) :
    trap = .assertion ∨ trap = .outOfBounds ∨ trap = .wildPointer := by
  induction argSpec generalizing params off with
  | nil => cases h
  | cons c argSpec ih =>
    rw [layout] at h
    split at h
    · cases h
      exact .inl rfl
    · next n _ =>
      split at h
      · cases hparam : checkParam params.head? c with
        | error trap' =>
          rw [hparam] at h
          cases h
          exact (checkParam_error hparam).imp_right .inr
        | ok param =>
          rw [hparam] at h
          cases hrest : layout argSpec params.tail (off + n) with
          | error trap' =>
            simp only [bind, Except.bind, hrest] at h
            cases h
            exact ih hrest
          | ok places =>
            simp only [bind, Except.bind, hrest] at h
            cases h
      · cases h
        exact .inr (.inl rfl)

/-! ## What an argument depends on -/

/-- The bytes an argument depends on are among the received ones. -/
def ArgReceived (bs : List UInt8) (c : Char) (off : Nat) : Prop :=
  if c = 'L' then
    -- at the end of the buffer every length is clamped to 0
    off + 2 = maxRpcDataSize ∨
      off + 2 ≤ bs.length ∧ off + 2 + bodyLength bs off ≤ bs.length
  else off + (argSize c).getD 0 ≤ bs.length

/-- The bytes a parameter depends on are among the received ones. -/
def ParamReceived (bs : List UInt8) (param : Param) (off : Nat) : Prop :=
  match param.type.letter with
  | none => off + param.type.size ≤ bs.length
  | some c => ArgReceived bs c off

theorem argOfNum_inj {c : Char} (hc : argSize c = some n) (hstr : c ≠ 'L') (hv : v < 256 ^ n)
    (hw : w < 256 ^ n) : argOfNum c v = argOfNum c w ↔ v = w := by
  refine ⟨fun h => ?_, fun h => h ▸ rfl⟩
  have hbytes := congrArg Arg.encode h
  rw [encode_argOfNum hc hstr hv, encode_argOfNum hc hstr hw] at hbytes
  rw [← ofLeBytes_leBytes hv, hbytes, ofLeBytes_leBytes hw]

theorem getElem?_of_slice_eq {bs bs' : List UInt8} {off n j : Nat}
    (h : slice bs off n = slice bs' off n) (hj : off ≤ j) (hj' : j < off + n) :
    bs[j]? = bs'[j]? := by
  have hget := congrArg (·[j - off]?) h
  simp only [slice, List.getElem?_take, List.getElem?_drop] at hget
  rwa [if_pos (by omega), if_pos (by omega), Nat.add_sub_cancel' hj] at hget

/-- An array whose first bytes are the received ones. -/
def Holds (bytes bs : List UInt8) : Prop := bytes.length = maxRpcDataSize ∧ bs <+: bytes

theorem slice_of_holds {bs bytes : List UInt8} (h : Holds bytes bs) (hfits : off + n ≤ bs.length) :
    slice bytes off n = slice bs off n := by
  obtain ⟨rest, rfl⟩ := h.2
  exact slice_append_left hfits

theorem ofLeBytes_slice_lt {bs bytes : List UInt8} (h : Holds bytes bs)
    (hfits : off + n ≤ maxRpcDataSize) :
    ofLeBytes (slice bytes off n) < 256 ^ n := by
  have hlt := ofLeBytes_lt (slice bytes off n)
  rwa [length_slice (h.1.symm ▸ hfits)] at hlt

/-- A length whose high byte is 255 is clamped. -/
theorem bodyLength_of_high_byte {bytes : List UInt8} (hfits : off + 2 ≤ maxRpcDataSize)
    (hsize : bytes.length = maxRpcDataSize) (hbyte : bytes[off + 1]? = some 255) :
    bodyLength bytes off = maxRpcDataSize - (off + 2) := by
  obtain ⟨h1, hhigh⟩ := List.getElem?_eq_some_iff.1 hbyte
  have hslice : slice bytes off 2 = [bytes[off], 255] := by
    rw [slice, List.drop_eq_getElem_cons (by omega), List.drop_eq_getElem_cons h1, hhigh]
    rfl
  have hlong : maxRpcDataSize ≤ ofLeBytes (slice bytes off 2) := by
    rw [hslice]
    simp only [ofLeBytes, maxRpcDataSize, UInt8.reduceToNat]
    omega
  rw [bodyLength]
  omega

/-- The received bytes in an array of ones. -/
def onesAfter (bs : List UInt8) : List UInt8 :=
  bs ++ List.replicate (maxRpcDataSize - bs.length) 255

section
variable {bs bytes : List UInt8} {c : Char} {n off j : Nat} (hbs : bs.length ≤ maxRpcDataSize)
include hbs

theorem holds_onesAfter : Holds (onesAfter bs) bs := by
  refine ⟨?_, List.prefix_append _ _⟩
  rw [onesAfter, List.length_append, List.length_replicate]
  omega

theorem getElem?_onesAfter (hj : bs.length ≤ j) (hj' : j < maxRpcDataSize) :
    (onesAfter bs)[j]? = some 255 := by
  rw [onesAfter, List.getElem?_append_right hj, List.getElem?_replicate, if_pos (by omega)]

/-- A byte behind the received ones can be another. -/
theorem holds_set (hj : bs.length ≤ j) : Holds ((onesAfter bs).set j 0) bs := by
  obtain ⟨hlen, -⟩ := holds_onesAfter hbs
  refine ⟨by rw [List.length_set, hlen], ?_⟩
  rw [onesAfter, List.set_append_right _ _ hj]
  exact List.prefix_append _ _

theorem slice_set_ne (hj : bs.length ≤ j) (hj' : j < maxRpcDataSize) (hoff : off ≤ j)
    (hoff' : j < off + n) :
    slice (onesAfter bs) off n ≠ slice ((onesAfter bs).set j 0) off n := by
  intro h
  obtain ⟨hlen, -⟩ := holds_onesAfter hbs
  have hget := getElem?_of_slice_eq h hoff hoff'
  rw [getElem?_onesAfter hbs hj hj', List.getElem?_set_self (by omega)] at hget
  cases hget

/-- Bytes of the buffer depend on the received ones alone if and only if they are among them. -/
theorem slice_determined_iff (hpos : 0 < n) (hfits : off + n ≤ maxRpcDataSize) :
    (∀ bytes bytes', Holds bytes bs → Holds bytes' bs →
      slice bytes off n = slice bytes' off n) ↔ off + n ≤ bs.length := by
  constructor
  · intro H
    by_contra hmissing
    have hj : bs.length ≤ off + n - 1 := by omega
    exact slice_set_ne hbs hj (by omega) (by omega) (by omega)
      (H _ _ (holds_onesAfter hbs) (holds_set hbs hj))
  · intro hreceived bytes bytes' h h'
    rw [slice_of_holds h hreceived, slice_of_holds h' hreceived]

/-- A number depends on the received bytes alone if and only if all its bytes are received. -/
theorem number_determined_iff (hc : argSize c = some n) (hstr : c ≠ 'L')
    (hfits : off + n ≤ maxRpcDataSize) :
    (∀ bytes bytes', Holds bytes bs → Holds bytes' bs →
      readArg bytes c off = readArg bytes' c off) ↔ off + n ≤ bs.length := by
  have hread : ∀ bytes bytes', Holds bytes bs → Holds bytes' bs →
      (readArg bytes c off = readArg bytes' c off ↔ slice bytes off n = slice bytes' off n) := by
    intro bytes bytes' h h'
    rw [readArg, readArg, if_neg hstr, if_neg hstr, hc, Option.getD_some,
      argOfNum_inj hc hstr (ofLeBytes_slice_lt h hfits) (ofLeBytes_slice_lt h' hfits),
      ofLeBytes_inj]
    rw [length_slice (h.1.symm ▸ hfits), length_slice (h'.1.symm ▸ hfits)]
  rw [← slice_determined_iff hbs (argSize_le hc).1 hfits]
  exact forall₂_congr fun bytes bytes' => forall₂_congr fun h h' => hread bytes bytes' h h'

/-- A string depends on the received bytes alone if and only if they contain its length and what is
left of its body, or the buffer has no room for a body. -/
theorem string_determined_iff (hfits : off + 2 ≤ maxRpcDataSize) :
    (∀ bytes bytes', Holds bytes bs → Holds bytes' bs →
      readArg bytes 'L' off = readArg bytes' 'L' off) ↔ ArgReceived bs 'L' off := by
  have hread : ∀ bytes, readArg bytes 'L' off =
      .str (slice bytes (off + 2) (bodyLength bytes off)) := fun _ => rfl
  have hbody : ∀ bytes, Holds bytes bs → off + 2 ≤ bs.length →
      bodyLength bytes off = bodyLength bs off := by
    intro bytes h hlen
    rw [bodyLength, bodyLength, slice_of_holds h hlen]
  rw [ArgReceived, if_pos rfl]
  constructor
  · intro H
    by_contra hmissing
    rw [not_or, not_and_or] at hmissing
    obtain ⟨hend, hmissing⟩ := hmissing
    obtain hlen | hlen := Nat.lt_or_ge bs.length (off + 2)
    · -- the length is not received: with the high byte 255 it is clamped to the rest of the buffer
      have hj : bs.length ≤ off + 2 := by omega
      have hones := holds_onesAfter hbs
      have hset := holds_set hbs hj
      have hbyte : (onesAfter bs)[off + 1]? = some 255 :=
        getElem?_onesAfter hbs (by omega) (by omega)
      have heq := H _ _ hones hset
      rw [hread, hread, Arg.str.injEq, bodyLength_of_high_byte hfits hones.1 hbyte,
        bodyLength_of_high_byte hfits hset.1
          (by rw [List.getElem?_set_ne (by omega), hbyte])] at heq
      exact slice_set_ne hbs hj (by omega) (by omega) (by omega) heq
    · have hmissing := hmissing.resolve_left (by omega)
      have hle : bodyLength bs off ≤ maxRpcDataSize - (off + 2) := Nat.min_le_right _ _
      have hj : bs.length ≤ off + 2 + bodyLength bs off - 1 := by omega
      have hones := holds_onesAfter hbs
      have hset := holds_set hbs hj
      have heq := H _ _ hones hset
      rw [hread, hread, Arg.str.injEq, hbody _ hones hlen, hbody _ hset hlen] at heq
      exact slice_set_ne hbs hj (by omega) (by omega) (by omega) heq
  · rintro (hend | ⟨hlen, hreceived⟩) bytes bytes' h h'
    · have hzero : ∀ bytes, bodyLength bytes off = 0 := by
        intro bytes
        rw [bodyLength, hend, Nat.sub_self, Nat.min_zero]
      rw [hread, hread, hzero, hzero, slice, slice, List.take_zero, List.take_zero]
    · rw [hread, hread, hbody bytes h hlen, hbody bytes' h' hlen, slice_of_holds h hreceived,
        slice_of_holds h' hreceived]

/-- One argument depends on the received bytes alone if and only if they are received. -/
theorem readArg_determined_iff (hc : argSize c = some n) (hfits : off + n ≤ maxRpcDataSize) :
    (∀ bytes bytes', Holds bytes bs → Holds bytes' bs →
      readArg bytes c off = readArg bytes' c off) ↔ ArgReceived bs c off := by
  obtain rfl | hstr := eq_or_ne c 'L'
  · cases hc
    exact string_determined_iff hbs hfits
  · rw [number_determined_iff hbs hc hstr hfits, ArgReceived, if_neg hstr, hc, Option.getD_some]

/-- What a parameter by value depends on is received if and only if the received bytes alone
determine it. -/
theorem readParam_determined_iff {place : Param × Nat} (h : Placed place c n)
    (hvalue : place.1.isReference = false) :
    (∀ bytes bytes', Holds bytes bs → Holds bytes' bs →
      readParam bytes place.1 place.2 = readParam bytes' place.1 place.2) ↔
        ParamReceived bs place.1 place.2 := by
  obtain ⟨⟨type, isReference⟩, off⟩ := place
  obtain ⟨hc, hfits, haccepts, hobject⟩ := h
  dsimp only at hvalue hfits hobject ⊢
  subst hvalue
  simp only [readParam, ParamReceived, Bool.false_eq_true, if_false]
  cases hletter : type.letter with
  | none =>
    have hstr : c ≠ 'L' := by
      rintro rfl
      cases type with
      | object => exact Bool.false_ne_true (hobject rfl)
      | string => cases hletter
      | _ => cases haccepts
    obtain ⟨hpos, hsize, -⟩ := size_of_accepts hc hstr haccepts
    simp only [ParamValue.bytes.injEq]
    dsimp only at hpos hsize
    exact slice_determined_iff hbs hpos (by omega)
  | some c' =>
    simp only [ParamValue.arg.injEq]
    obtain rfl | hstr := eq_or_ne c 'L'
    · obtain rfl : c' = 'L' := by
        cases type with
        | string => exact (Option.some.inj hletter).symm
        | object => cases hletter
        | _ => cases haccepts
      exact readArg_determined_iff hbs hc hfits
    · obtain ⟨-, hsize, hprimitive, -⟩ := size_of_accepts hc hstr haccepts
      dsimp only at hsize hprimitive
      exact readArg_determined_iff hbs (argSize_of_letter hletter hprimitive) (by omega)

end

/-! ## What a call passes to its handler -/

/-- The parameters of a handler: those of the script function behind the sender's id; a callback
pops values of the types its argument spec names. -/
def Handler.params {γ : Type} (handler : Handler γ) : Except Trap (List Param) :=
  match handler.function with
  | some function => do
    let _ ← checkParam function.params.head? 's'
    .ok function.params.tail
  | none => .ok (handler.argSpec.map .ofLetter)

/-- The parameters of a handler that are set, in their places. -/
def Handler.places {γ : Type} (handler : Handler γ) :
    Except Trap (List (Param × Nat)) := do
  let params ← handler.params
  layout handler.argSpec params 0

namespace RPCDispatcher

variable {γ : Type} {d : RPCDispatcher γ} {senderId : UInt16} {id : RpcId} {data : List UInt8}

/-- The arguments a received call passes to its handler: those of the script function, or those a
callback pops from its package in the order of the argument spec. -/
def passedArgs (d : RPCDispatcher γ) (senderId : UInt16) (id : RpcId) (data : List UInt8)
    (stack : RpcData) : Except Trap (Option (List ParamValue)) := do
  match ← d.executeReceivedCall senderId id data stack with
  | none => .ok none
  | some (.script _ _ _ args) => .ok (some args)
  | some (.cpp _ _ package) => do
    let args ← popArgs package.argString package
    .ok (some (args.map .arg))

/-- A call that reaches no handler. After an access outside the buffer, or with a pointer to what is
no string any more, the call goes on with whatever the memory there holds. -/
def Rejected : Except Trap (Option (List ParamValue)) → Prop
  | .ok args => args = none
  | .error trap => trap ≠ .outOfBounds ∧ trap ≠ .wildPointer

/-- Two runs of a call that are both rejected or pass the same arguments. -/
def SameArgs (r r' : Except Trap (Option (List ParamValue))) : Prop :=
  Rejected r ∧ Rejected r' ∨ ∃ args, r = .ok (some args) ∧ r' = .ok (some args)

/-- The handler's argument spec runs into an unknown letter or a parameter that does not take it
before it leaves the buffer, or all its parameters are passed by value and lie in the received
bytes. -/
def ArgsReceived (d : RPCDispatcher γ) (senderId : UInt16) (id : RpcId) (data : List UInt8) :
    Prop :=
  ∀ handler, d.findRpcHandler senderId id = some handler →
    handler.function = none ∧ handler.cppFunction = none ∨
    handler.places = .error .assertion ∨
    ∃ places, handler.places = .ok places ∧ ∀ place ∈ places,
      place.1.isReference = false ∧
        ParamReceived (data.take maxRpcDataSize) place.1 place.2

/-- The package a handler gets. -/
def packageOf (id : RpcId) (argSpec : List Char) (data : List UInt8) (stack : RpcData) :
    RPCPackage :=
  .makeFrom id ⟨overwrite stack.bytes 0 (data.take maxRpcDataSize), by
    rw [length_overwrite (by rw [List.length_take, stack.size_eq]; omega), stack.size_eq]⟩ argSpec

theorem executeReceivedCall_eq {handler : Handler γ}
    (hfind : d.findRpcHandler senderId id = some handler) (stack : RpcData) :
    d.executeReceivedCall senderId id data stack =
      d.executePackage senderId (packageOf id handler.argSpec data stack) := by
  have hlen : 0 + (data.take maxRpcDataSize).length ≤ maxRpcDataSize := by
    rw [List.length_take]
    omega
  simp only [executeReceivedCall, hfind, RpcData.write, dif_pos hlen, bind, Except.bind, packageOf]

theorem dangling_mem_iff {bytes : List UInt8} {places : List (Param × Nat)} {rest : List Param} :
    .dangling ∈ (places.map fun place => readParam bytes place.1 place.2) ++
        rest.map (fun _ => .unset) ↔ ∃ place ∈ places, place.1.isReference = true := by
  have hread : ∀ place : Param × Nat,
      readParam bytes place.1 place.2 = .dangling ↔ place.1.isReference = true := by
    intro place
    rw [readParam]
    split
    · next href => simp [href]
    · next hvalue =>
      split <;> simpa using hvalue
  simp [List.mem_append, List.mem_map, hread]

/-- The values of parameters are read in their places in the array. -/
theorem setArgs_packageOf (id : RpcId) (argSpec : List Char) (params : List Param)
    (data : List UInt8) (stack : RpcData) :
    setArgs argSpec params (packageOf id argSpec data stack) =
      (layout argSpec params 0).map fun places => (places.map fun place => readParam
        (overwrite stack.bytes 0 (data.take maxRpcDataSize)) place.1 place.2) ++
          (params.drop argSpec.length).map fun _ => .unset :=
  setArgs_eq (Nat.zero_le _)

/-- The arguments of a script function. -/
theorem passedArgs_of_function {handler : Handler γ} {function : ScriptFunction}
    (hfind : d.findRpcHandler senderId id = some handler)
    (hfunction : handler.function = some function) (data : List UInt8) (stack : RpcData) :
    d.passedArgs senderId id data stack = handler.places.bind fun places =>
      if ∃ place ∈ places, place.1.isReference = true then .error .wildPointer
      else .ok (some ((places.map fun place => readParam
        (overwrite stack.bytes 0 (data.take maxRpcDataSize)) place.1 place.2) ++
          (function.params.tail.drop handler.argSpec.length).map fun _ => .unset)) := by
  have hpackage : (packageOf id handler.argSpec data stack).rpcId = id := rfl
  have hreset : (packageOf id handler.argSpec data stack).reset =
      packageOf id handler.argSpec data stack := rfl
  rw [Handler.places, Handler.params, hfunction]
  simp only [passedArgs, executeReceivedCall_eq hfind, executePackage, hpackage, hfind, hfunction,
    hreset, ScriptFunction.setArgs, setArgs_packageOf]
  cases checkParam function.params.head? 's' with
  | error e => rfl
  | ok sender =>
    simp only [bind, Except.bind]
    cases layout handler.argSpec function.params.tail 0 with
    | error e => rfl
    | ok places =>
      by_cases hreference : ∃ place ∈ places, place.1.isReference = true
      · simp only [Except.map, dangling_mem_iff, if_pos hreference]
      · simp only [Except.map, dangling_mem_iff, if_neg hreference]

/-- The arguments of a callback: what it pops is what a function with these parameters gets. -/
theorem passedArgs_of_callback {handler : Handler γ} {callback : γ}
    (hfind : d.findRpcHandler senderId id = some handler) (hfunction : handler.function = none)
    (hcallback : handler.cppFunction = some callback) (data : List UInt8) (stack : RpcData) :
    d.passedArgs senderId id data stack = handler.places.bind fun places =>
      if ∃ place ∈ places, place.1.isReference = true then .error .wildPointer
      else .ok (some ((places.map fun place => readParam
        (overwrite stack.bytes 0 (data.take maxRpcDataSize)) place.1 place.2) ++
          ((handler.argSpec.map Param.ofLetter).drop handler.argSpec.length).map
            fun _ => .unset)) := by
  have hpackage : (packageOf id handler.argSpec data stack).rpcId = id := rfl
  have hargString : (packageOf id handler.argSpec data stack).argString = handler.argSpec := rfl
  have hpop := (setArgs_ofLetter handler.argSpec _).symm.trans
    (setArgs_packageOf id handler.argSpec (handler.argSpec.map .ofLetter) data stack)
  rw [Handler.places, Handler.params, hfunction]
  simp only [passedArgs, executeReceivedCall_eq hfind, executePackage, hpackage, hfind, hfunction,
    hcallback, bind, Except.bind, hargString]
  revert hpop
  cases popArgs handler.argSpec (packageOf id handler.argSpec data stack) with
  | error e =>
    cases layout handler.argSpec (handler.argSpec.map .ofLetter) 0 with
    | error e' => exact fun hpop => congrArg Except.error (Except.error.inj hpop)
    | ok places =>
      intro hpop
      cases hpop
  | ok args =>
    cases layout handler.argSpec (handler.argSpec.map .ofLetter) 0 with
    | error e' =>
      intro hpop
      cases hpop
    | ok places =>
      intro hpop
      have hargs := Except.ok.inj hpop
      dsimp only at hargs
      have hnone : ¬ ∃ place ∈ places, place.1.isReference = true := by
        rw [← dangling_mem_iff, ← hargs]
        simp
      dsimp only
      rw [if_neg hnone, ← hargs]

/-- The arguments of a call are read in the places of its handler's parameters, where none is a
reference. -/
theorem passedArgs_eq {handler : Handler γ} (hfind : d.findRpcHandler senderId id = some handler)
    (hkind : ¬ (handler.function = none ∧ handler.cppFunction = none)) (data : List UInt8) :
    ∃ rest, ∀ stack, d.passedArgs senderId id data stack = handler.places.bind fun places =>
      if ∃ place ∈ places, place.1.isReference = true then .error .wildPointer
      else .ok (some ((places.map fun place => readParam
        (overwrite stack.bytes 0 (data.take maxRpcDataSize)) place.1 place.2) ++ rest)) := by
  cases hfunction : handler.function with
  | some function => exact ⟨_, passedArgs_of_function hfind hfunction data⟩
  | none =>
    obtain ⟨callback, hcallback⟩ :=
      Option.ne_none_iff_exists'.1 fun hcallback => hkind ⟨hfunction, hcallback⟩
    exact ⟨_, passedArgs_of_callback hfind hfunction hcallback data⟩

/-- The arrays a stack can leave are those that hold the received bytes. -/
theorem holds_overwrite (stack : RpcData) :
    Holds (overwrite stack.bytes 0 (data.take maxRpcDataSize)) (data.take maxRpcDataSize) := by
  have hlen : 0 + (data.take maxRpcDataSize).length ≤ stack.bytes.length := by
    rw [stack.size_eq, List.length_take]
    omega
  refine ⟨(length_overwrite hlen).trans stack.size_eq, ?_⟩
  rw [overwrite, List.take_zero, List.nil_append]
  exact List.prefix_append _ _

theorem overwrite_of_holds {bytes : List UInt8} (h : Holds bytes (data.take maxRpcDataSize)) :
    overwrite bytes 0 (data.take maxRpcDataSize) = bytes := by
  obtain ⟨rest, hrest⟩ := h.2
  rw [overwrite, List.take_zero, List.nil_append, Nat.zero_add, ← hrest, List.drop_left]

theorem sameArgs_ok {args args' : List ParamValue} :
    SameArgs (.ok (some args)) (.ok (some args')) ↔ args = args' := by
  simp [SameArgs, Rejected, eq_comm]

theorem places_error {handler : Handler γ} {trap : Trap} (h : handler.places = .error trap) :
    trap = .assertion ∨ trap = .outOfBounds ∨ trap = .wildPointer := by
  rw [Handler.places, Handler.params] at h
  cases hfunction : handler.function with
  | none =>
    rw [hfunction] at h
    exact layout_error h
  | some function =>
    simp only [hfunction, bind, Except.bind] at h
    cases hsender : checkParam function.params.head? 's' with
    | error trap' =>
      rw [hsender] at h
      cases h
      exact (checkParam_error hsender).imp_right .inr
    | ok sender =>
      rw [hsender] at h
      exact layout_error h

theorem places_placed {handler : Handler γ} {places : List (Param × Nat)}
    (h : handler.places = .ok places) {place : Param × Nat} (hplace : place ∈ places) :
    ∃ c n, Placed place c n := by
  obtain ⟨params, -, hlayout⟩ := bind_eq_ok.1 h
  exact layout_placed hlayout hplace

/-- The parameters at the same places of all arrays a stack can leave. -/
theorem places_determined_iff (data : List UInt8) (rest : List ParamValue)
    {places : List (Param × Nat)}
    (hplaced : ∀ place ∈ places, ∃ c n, Placed place c n)
    (hvalue : ∀ place ∈ places, place.1.isReference = false) :
    (∀ stack stack' : RpcData,
      (places.map fun place => readParam
        (overwrite stack.bytes 0 (data.take maxRpcDataSize)) place.1 place.2) ++ rest =
      (places.map fun place => readParam
        (overwrite stack'.bytes 0 (data.take maxRpcDataSize)) place.1 place.2) ++ rest) ↔
      ∀ place ∈ places, ParamReceived (data.take maxRpcDataSize) place.1 place.2 := by
  have hbs : (data.take maxRpcDataSize).length ≤ maxRpcDataSize := List.length_take_le _ _
  simp only [List.append_cancel_right_eq, List.map_inj_left]
  constructor
  · intro H place hplace
    obtain ⟨c, n, h⟩ := hplaced place hplace
    refine (readParam_determined_iff hbs h (hvalue place hplace)).1 fun bytes bytes' h h' => ?_
    have hplace := H ⟨bytes, h.1⟩ ⟨bytes', h'.1⟩ place hplace
    rwa [overwrite_of_holds h, overwrite_of_holds h'] at hplace
  · intro H stack stack' place hplace
    obtain ⟨c, n, h⟩ := hplaced place hplace
    exact (readParam_determined_iff hbs h (hvalue place hplace)).2 (H place hplace) _ _
      (holds_overwrite stack) (holds_overwrite stack')

/-- What reaches a handler that runs something is determined if and only if its parameters are
refused, or are passed by value and lie in the received bytes. -/
theorem sameArgs_handler_iff {handler : Handler γ}
    (hfind : d.findRpcHandler senderId id = some handler)
    (hkind : ¬ (handler.function = none ∧ handler.cppFunction = none)) (data : List UInt8) :
    (∀ stack stack', SameArgs (d.passedArgs senderId id data stack)
      (d.passedArgs senderId id data stack')) ↔
        handler.places = .error .assertion ∨
        ∃ places, handler.places = .ok places ∧ ∀ place ∈ places,
          place.1.isReference = false ∧
            ParamReceived (data.take maxRpcDataSize) place.1 place.2 := by
  obtain ⟨rest, hpassed⟩ := passedArgs_eq hfind hkind data
  simp only [hpassed]
  cases hplaces : handler.places with
  | error trap =>
    obtain rfl | hundefined := places_error hplaces
    · simp [SameArgs, Rejected, Except.bind]
    · have hdiffer : ¬ SameArgs (.error trap) (.error trap) := by
        obtain rfl | rfl := hundefined <;> simp [SameArgs, Rejected]
      have hne : trap ≠ .assertion := by
        obtain rfl | rfl := hundefined <;> decide
      exact iff_of_false (fun H => hdiffer (H .zero .zero)) (by simp [hne])
  | ok places =>
    simp only [reduceCtorEq, Except.ok.injEq, exists_eq_left', false_or]
    by_cases hreference : ∃ place ∈ places, place.1.isReference = true
    · have hdiffer : ¬ SameArgs (.error .wildPointer) (.error .wildPointer) := by
        simp [SameArgs, Rejected]
      simp only [Except.bind, if_pos hreference]
      refine iff_of_false (fun H => hdiffer (H .zero .zero)) fun h => ?_
      obtain ⟨place, hplace, hreference⟩ := hreference
      exact Bool.false_ne_true ((h place hplace).1.symm.trans hreference)
    · have hvalue : ∀ place ∈ places, place.1.isReference = false := by
        simpa using hreference
      have hdetermined := places_determined_iff data rest (fun _ => places_placed hplaces) hvalue
      simp only [Except.bind, if_neg hreference, sameArgs_ok, hdetermined]
      exact forall₂_congr fun place hplace => (and_iff_right (hvalue place hplace)).symm

/-- **Arguments and received bytes.** Whatever the uninitialised array holds, a received call is
rejected in every run or passes the same arguments in every run, if and only if its handler's
parameters are passed by value and lie in the received bytes. -/
theorem arguments_determined_iff (d : RPCDispatcher γ) (senderId : UInt16) (id : RpcId)
    (data : List UInt8) :
    (∀ stack stack', SameArgs (d.passedArgs senderId id data stack)
      (d.passedArgs senderId id data stack')) ↔ d.ArgsReceived senderId id data := by
  cases hfind : d.findRpcHandler senderId id with
  | none =>
    have hnone : ∀ stack, d.passedArgs senderId id data stack = .ok none := by
      intro stack
      rw [passedArgs, executeReceivedCall, hfind]
      rfl
    have hreceived : d.ArgsReceived senderId id data := by
      intro handler hhandler
      cases hfind.symm.trans hhandler
    refine ⟨fun _ => hreceived, fun _ stack stack' => .inl ⟨?_, ?_⟩⟩ <;> rw [hnone, Rejected]
  | some handler =>
    rw [ArgsReceived]
    simp only [hfind, Option.some.injEq, forall_eq']
    by_cases hkind : handler.function = none ∧ handler.cppFunction = none
    · have htrap : ∀ stack, d.passedArgs senderId id data stack = .error .assertion := by
        intro stack
        have hpackage : (packageOf id handler.argSpec data stack).rpcId = id := rfl
        simp only [passedArgs, executeReceivedCall_eq hfind, executePackage, hpackage, hfind,
          hkind.1, hkind.2]
        rfl
      refine ⟨fun _ => .inl hkind, fun _ stack stack' => .inl ⟨?_, ?_⟩⟩ <;>
        simp [htrap, Rejected]
    · rw [or_iff_right hkind]
      exact sameArgs_handler_iff hfind hkind data

/-- A handler of one number gets whatever the array held when no byte is received. -/
theorem arguments_determined_no_data :
    ¬ ∀ stack stack', SameArgs ((sayReceiver ['c'] [.ofLetter 'c']).passedArgs 7 16 [] stack)
      ((sayReceiver ['c'] [.ofLetter 'c']).passedArgs 7 16 [] stack') := by
  intro H
  have hfind : (sayReceiver ['c'] [.ofLetter 'c']).findRpcHandler 7 16 =
      some (sayHandler ['c'] [.ofLetter 'c']) := rfl
  have hplaces : (sayHandler ['c'] [.ofLetter 'c']).places = .ok [(.ofLetter 'c', 0)] := rfl
  obtain ⟨rest, hpassed⟩ := passedArgs_eq hfind (by decide) []
  have hargs := H .zero ⟨List.replicate maxRpcDataSize 1, List.length_replicate⟩
  rw [hpassed, hpassed, hplaces] at hargs
  have hvalue : ¬ ∃ place ∈ [(Param.ofLetter 'c', 0)], place.1.isReference = true := by decide
  simp only [Except.bind, if_neg hvalue, sameArgs_ok, List.append_cancel_right_eq] at hargs
  cases hargs

end RPCDispatcher

end NetSiege
