import Mathlib.Tactic.Common
import NetSiege.Lib.Bytes
import NetSiege.Lib.Except

/-!
# RPC packages (`rpcpackage.h`, `rpcpackage.cpp`)

An `RPCPackage` is a 512 byte buffer with a write position (`packageSize`), a read position
(`readOffset`) and the letters of the arguments pushed so far. A push that fits appends the encoding
of its argument in one piece, strings included (`push_of_fits`), and one that does not fit only
marks the package (`push_of_not_fits`). `Filled` describes a package that holds exactly some bytes
under some letters; `Filled.push` keeps it. The reader is described by `popArg_iff`: at a read
position that is not ahead of the position the writer used, popping gives back the argument if and
only if its encoding stands there.
-/

namespace NetSiege

open Lib

/-- `MAX_RPC_DATA_SIZE`. -/
def maxRpcDataSize : Nat := 512

/-- `MAX_PACKAGE_SIZE`. -/
def maxPackageSize : Nat := 32000

/-- `rpc_id_t`. -/
abbrev RpcId := UInt16

/-- How a call can fail to return: an `overflow_exception`, an access outside a buffer, a null
pointer, a pointer that was written over, an assertion. -/
inductive Trap where
  | overflowException
  | outOfBounds
  | nullPointer
  | wildPointer
  | assertion
deriving DecidableEq, Repr

/-- `rpc_data_t`, an array of `MAX_RPC_DATA_SIZE` bytes. -/
structure RpcData where
  bytes : List UInt8
  size_eq : bytes.length = maxRpcDataSize
deriving DecidableEq

/-- `std::array<char, MAX_RPC_DATA_SIZE>()`. -/
def RpcData.zero : RpcData := ⟨List.replicate maxRpcDataSize 0, List.length_replicate⟩

/-- `memcpy` into the array. -/
def RpcData.write (d : RpcData) (off : Nat) (bs : List UInt8) : Except Trap RpcData :=
  if h : off + bs.length ≤ maxRpcDataSize then
    .ok ⟨overwrite d.bytes off bs, by rw [length_overwrite (d.size_eq.symm ▸ h), d.size_eq]⟩
  else .error .outOfBounds

/-- A value of one of the nine wire types, floating point numbers as their bits. -/
inductive Arg where
  | u8 (val : UInt8)
  | i8 (val : Int8)
  | u16 (val : UInt16)
  | i16 (val : Int16)
  | u32 (val : UInt32)
  | i32 (val : Int32)
  | f32 (bits : UInt32)
  | f64 (bits : UInt64)
  | str (val : List UInt8)
deriving DecidableEq, Repr

namespace Arg

/-- The letter of the type in an argument spec. -/
def letter : Arg → Char
  | u8 _ => 'c'
  | i8 _ => 'C'
  | u16 _ => 's'
  | i16 _ => 'S'
  | u32 _ => 'i'
  | i32 _ => 'I'
  | f32 _ => 'f'
  | f64 _ => 'd'
  | str _ => 'L'

/-- The bytes a `push` of the value writes. -/
def encode : Arg → List UInt8
  | u8 val => leBytes 1 val.toNat
  | i8 val => leBytes 1 val.toUInt8.toNat
  | u16 val => leBytes 2 val.toNat
  | i16 val => leBytes 2 val.toUInt16.toNat
  | u32 val => leBytes 4 val.toNat
  | i32 val => leBytes 4 val.toUInt32.toNat
  | f32 bits => leBytes 4 bits.toNat
  | f64 bits => leBytes 8 bits.toNat
  | str val => leBytes 2 val.length ++ val

/-- The bytes of the encoding without the body of a string. -/
def headerSize : Arg → Nat
  | str _ => 2
  | a => a.encode.length

end Arg

/-- The encodings of a list of arguments, one after the other. -/
def encodeArgs (args : List Arg) : List UInt8 := args.flatMap Arg.encode

@[simp] theorem encodeArgs_nil : encodeArgs [] = [] := rfl

@[simp] theorem encodeArgs_cons : encodeArgs (a :: args) = a.encode ++ encodeArgs args := rfl

@[simp] theorem encodeArgs_append :
    encodeArgs (args ++ args') = encodeArgs args ++ encodeArgs args' := List.flatMap_append

/-- `RPCPackage`. The reference count is left to the smart pointers. -/
structure RPCPackage where
  data : RpcData
  rpcId : RpcId
  readOffset : Nat := 0
  packageSize : Nat := 0
  validPackage : Bool := true
  isSizeCached : Bool := false
  argString : List Char := []
deriving DecidableEq

namespace RPCPackage

/-- `RPCPackage::make(id)`. -/
def make (id : RpcId) : RPCPackage := { data := .zero, rpcId := id }

/-- `RPCPackage::make(id, data, argString)`. -/
def makeFrom (id : RpcId) (data : RpcData) (argString : List Char) : RPCPackage :=
  { data, rpcId := id, argString }

/-- A value of `n` bytes at an address of the buffer. -/
def readAt (p : RPCPackage) (off n : Nat) : Except Trap Nat :=
  if off + n ≤ maxRpcDataSize then .ok (ofLeBytes (slice p.data.bytes off n))
  else .error .outOfBounds

/-- `RPCPackage::calculateDataSize`. -/
def calculateDataSize (p : RPCPackage) : Except Trap Nat :=
  p.argString.foldlM (fun size c =>
    match c with
    | 'c' | 'C' => .ok (size + 1)
    | 's' | 'S' => .ok (size + 2)
    | 'i' | 'I' | 'f' => .ok (size + 4)
    | 'd' => .ok (size + 8)
    | 'L' => do
      -- read the length of the string and add this to the offset
      let strlen ← p.readAt size 2
      .ok (size + strlen)
    | _ => .error .assertion) 0

/-- `RPCPackage::cachePackageSize`. -/
def cachePackageSize (p : RPCPackage) : Except Trap RPCPackage := do
  let packageSize ← p.calculateDataSize
  .ok { p with isSizeCached := true, packageSize }

/-- `RPCPackage::dataSize`. The size calculated without a cache is dropped. -/
def dataSize (p : RPCPackage) : Except Trap Nat := do
  if !p.isSizeCached then
    let _ ← p.calculateDataSize
  .ok p.packageSize

/-- `RPCPackage::reset`. -/
def reset (p : RPCPackage) : RPCPackage := { p with readOffset := 0 }

/-- `RPCPackage::clear`. -/
def clear (p : RPCPackage) : RPCPackage :=
  { p with isSizeCached := true, packageSize := 0, validPackage := true, argString := [] }

/-- The first lines of every `push`. -/
def ensureSizeCached (p : RPCPackage) : Except Trap RPCPackage :=
  if !p.isSizeCached then p.cachePackageSize else .ok p

/-- `RPCPackage::pushGeneric`, with the bytes of the value. `none` is the letter `'\0'`. -/
def pushGeneric (p : RPCPackage) (val : List UInt8) (argChar : Option Char) :
    Except Trap (Bool × RPCPackage) := do
  let p ← p.ensureSizeCached
  let newSize := p.packageSize + val.length
  if newSize > maxRpcDataSize then .ok (false, { p with validPackage := false })
  else
    let data ← p.data.write p.packageSize val
    .ok (true, { p with
      data, packageSize := newSize, argString := p.argString ++ argChar.toList })

/-- `RPCPackage::push(const std::string)`. -/
def pushString (p : RPCPackage) (val : List UInt8) : Except Trap (Bool × RPCPackage) := do
  let p ← p.ensureSizeCached
  let newSize := p.packageSize + val.length + 2
  if newSize > maxRpcDataSize then .ok (false, { p with validPackage := false })
  else
    let (r, p) ← p.pushGeneric (leBytes 2 val.length) none
    if !r then .error .assertion
    if p.packageSize + val.length ≠ newSize then .error .assertion
    let data ← p.data.write p.packageSize val
    .ok (true, { p with data, packageSize := newSize, argString := p.argString ++ ['L'] })

/-- The overloads of `RPCPackage::push`. -/
def push (p : RPCPackage) : Arg → Except Trap (Bool × RPCPackage)
  | .str val => p.pushString val
  | a => p.pushGeneric a.encode (some a.letter)

/-- `RPCPackage::popValue<T>` with `n = sizeof(T)`, as the number its bytes spell. -/
def popValue (p : RPCPackage) (n : Nat) : Except Trap (Nat × RPCPackage) :=
  if p.readOffset + n > maxPackageSize then .error .overflowException
  else do
    let val ← p.readAt p.readOffset n
    .ok (val, { p with readOffset := p.readOffset + n })

/-- `RPCPackage::popString`. The read position stays behind the length prefix. -/
def popString (p : RPCPackage) : Except Trap (List UInt8 × RPCPackage) := do
  let (strlen, p) ← p.popValue 2
  let strlen := if p.readOffset + strlen > maxRpcDataSize then maxRpcDataSize - p.readOffset
    else strlen
  .ok (slice p.data.bytes p.readOffset strlen, p)

/-- The pop an argument letter selects in `RPCDispatcher::executeReceivedCall`. -/
def popArg (p : RPCPackage) (argType : Char) : Except Trap (Arg × RPCPackage) :=
  match argType with
  | 'c' => do let (v, p) ← p.popValue 1; .ok (.u8 (.ofNat v), p)
  | 'C' => do let (v, p) ← p.popValue 1; .ok (.i8 (UInt8.ofNat v).toInt8, p)
  | 's' => do let (v, p) ← p.popValue 2; .ok (.u16 (.ofNat v), p)
  | 'S' => do let (v, p) ← p.popValue 2; .ok (.i16 (UInt16.ofNat v).toInt16, p)
  | 'i' => do let (v, p) ← p.popValue 4; .ok (.u32 (.ofNat v), p)
  | 'I' => do let (v, p) ← p.popValue 4; .ok (.i32 (UInt32.ofNat v).toInt32, p)
  | 'd' => do let (v, p) ← p.popValue 8; .ok (.f64 (.ofNat v), p)
  | 'f' => do let (v, p) ← p.popValue 4; .ok (.f32 (.ofNat v), p)
  | 'L' => do let (str, p) ← p.popString; .ok (.str str, p)
  | _ => .error .assertion

/-! ## What one push does -/

variable {p q : RPCPackage} {a : Arg} {val : List UInt8} {d d' : RpcData}

/-- What is written within the bounds stands behind what was there before. -/
theorem write_eq_ok (d : RpcData) (off : Nat) (bs : List UInt8)
    (h : off + bs.length ≤ maxRpcDataSize) :
    ∃ d', d.write off bs = .ok d' ∧
      d'.bytes.take (off + bs.length) = d.bytes.take off ++ bs := by
  have hlen : off + bs.length ≤ d.bytes.length := d.size_eq.symm ▸ h
  exact ⟨_, by rw [RpcData.write, dif_pos h], take_overwrite hlen⟩

theorem bytes_of_write (hd : d.write off val = .ok d') :
    off + val.length ≤ maxRpcDataSize ∧ d'.bytes = overwrite d.bytes off val := by
  rw [RpcData.write] at hd
  split at hd
  · next h =>
    cases hd
    exact ⟨h, rfl⟩
  · cases hd

/-- Two writes one behind the other are one write. -/
theorem write_append (hd : d.write off val = .ok d') (bs : List UInt8)
    (h : off + val.length + bs.length ≤ maxRpcDataSize) :
    d'.write (off + val.length) bs = d.write off (val ++ bs) := by
  obtain ⟨hval, hbytes⟩ := bytes_of_write hd
  have hboth : off + (val ++ bs).length ≤ maxRpcDataSize := by
    rw [List.length_append]
    omega
  rw [RpcData.write, RpcData.write, dif_pos h, dif_pos hboth, Except.ok.injEq, RpcData.mk.injEq,
    hbytes]
  exact overwrite_append (d.size_eq.symm ▸ hval)

theorem take_of_write (hd : d.write off val = .ok d') :
    d'.bytes.take (off + val.length) = d.bytes.take off ++ val := by
  obtain ⟨hval, hbytes⟩ := bytes_of_write hd
  rw [hbytes, take_overwrite (d.size_eq.symm ▸ hval)]

theorem ensureSizeCached_of_cached (h : p.isSizeCached = true) : p.ensureSizeCached = .ok p := by
  simp [ensureSizeCached, h]

/-- Caching the size changes the size and the flag only. -/
theorem ensureSizeCached_eq (h : p.ensureSizeCached = .ok q) :
    q = { p with isSizeCached := true, packageSize := q.packageSize } := by
  rw [ensureSizeCached] at h
  split at h
  · obtain ⟨size, -, h⟩ := bind_eq_ok.1 h
    cases h
    rfl
  · next hcached =>
    cases h
    cases p
    simp_all

theorem pushGeneric_of_fits (argChar : Option Char) (hq : p.ensureSizeCached = .ok q)
    (hfits : q.packageSize + val.length ≤ maxRpcDataSize)
    (hd : q.data.write q.packageSize val = .ok d) :
    p.pushGeneric val argChar = .ok (true, { q with
      data := d, packageSize := q.packageSize + val.length,
      argString := q.argString ++ argChar.toList }) := by
  have hle : ¬ q.packageSize + val.length > maxRpcDataSize := by omega
  simp only [pushGeneric, hq, bind, Except.bind, if_neg hle, hd]

theorem pushGeneric_of_not_fits (argChar : Option Char) (hq : p.ensureSizeCached = .ok q)
    (h : maxRpcDataSize < q.packageSize + val.length) :
    p.pushGeneric val argChar = .ok (false, { q with validPackage := false }) := by
  simp only [pushGeneric, hq, bind, Except.bind, if_pos h]

/-- A push that fits writes the whole encoding behind what is there. -/
theorem push_of_fits (hq : p.ensureSizeCached = .ok q)
    (hfits : q.packageSize + a.encode.length ≤ maxRpcDataSize) :
    ∃ d, q.data.write q.packageSize a.encode = .ok d ∧
      p.push a = .ok (true, { q with
        data := d, packageSize := q.packageSize + a.encode.length,
        argString := q.argString ++ [a.letter] }) := by
  obtain ⟨d, hd, -⟩ := write_eq_ok q.data q.packageSize a.encode hfits
  refine ⟨d, hd, ?_⟩
  cases a with
  | str val =>
    -- the length prefix is written first, the body behind it
    have hlen : (Arg.str val).encode.length = val.length + 2 := by
      simp only [Arg.encode, List.length_append, length_leBytes]
      omega
    rw [hlen, ← Nat.add_assoc] at hfits ⊢
    have hheadFits : q.packageSize + (leBytes 2 val.length).length ≤ maxRpcDataSize := by
      rw [length_leBytes]
      omega
    obtain ⟨d1, hd1, -⟩ := write_eq_ok q.data q.packageSize (leBytes 2 val.length) hheadFits
    have hcached : q.isSizeCached = true := by rw [ensureSizeCached_eq hq]
    have hhead := pushGeneric_of_fits none (ensureSizeCached_of_cached hcached)
      hheadFits hd1
    have hbody := write_append hd1 val (by rw [length_leBytes]; omega)
    rw [← Arg.encode, hd, length_leBytes] at hbody
    rw [length_leBytes] at hhead
    have hle : ¬ q.packageSize + val.length + 2 > maxRpcDataSize := by omega
    have hagree : ¬ q.packageSize + 2 + val.length ≠ q.packageSize + val.length + 2 := by omega
    simp only [push, pushString, hq, bind, Except.bind, if_neg hle, hhead, if_neg hagree, hbody,
      Bool.not_true, Bool.false_eq_true, if_false, Option.toList_none, List.append_nil,
      Arg.letter]
  | _ => exact pushGeneric_of_fits (some _) hq hfits hd

/-- A push that does not fit marks the package and changes nothing else. -/
theorem push_of_not_fits (hq : p.ensureSizeCached = .ok q)
    (h : maxRpcDataSize < q.packageSize + a.encode.length) :
    p.push a = .ok (false, { q with validPackage := false }) := by
  cases a with
  | str val =>
    have hgt : q.packageSize + val.length + 2 > maxRpcDataSize := by
      simp only [Arg.encode, List.length_append, length_leBytes] at h
      omega
    simp only [push, pushString, hq, bind, Except.bind, if_pos hgt]
  | _ => exact pushGeneric_of_not_fits (some _) hq h

theorem push_of_error (h : p.ensureSizeCached = .error e) : p.push a = .error e := by
  cases a <;> simp [push, pushString, pushGeneric, h, bind, Except.bind]

/-- What a push that answers has done. -/
theorem push_cases {b : Bool} (h : p.push a = .ok (b, q)) :
    ∃ p1, p.ensureSizeCached = .ok p1 ∧
      ((∃ d, q = { p1 with
        data := d, packageSize := p1.packageSize + a.encode.length,
        argString := p1.argString ++ [a.letter] }) ∨ q = { p1 with validPackage := false }) := by
  cases h1 : p.ensureSizeCached with
  | error e =>
    rw [push_of_error h1] at h
    cases h
  | ok p1 =>
    refine ⟨p1, rfl, ?_⟩
    by_cases hfits : p1.packageSize + a.encode.length ≤ maxRpcDataSize
    · obtain ⟨d, -, hpush⟩ := push_of_fits h1 hfits
      rw [hpush] at h
      cases h
      exact .inl ⟨d, rfl⟩
    · rw [push_of_not_fits h1 (Nat.not_le.1 hfits)] at h
      cases h
      exact .inr rfl

/-- No push changes the id of the package, whether it fits or not. -/
theorem push_rpcId {b : Bool} (h : p.push a = .ok (b, q)) : q.rpcId = p.rpcId := by
  obtain ⟨p1, h1, hq⟩ := push_cases h
  have hid : p1.rpcId = p.rpcId := by rw [ensureSizeCached_eq h1]
  obtain ⟨d, rfl⟩ | rfl := hq
  · exact hid
  · exact hid

/-! ## The writer -/

/-- `p` holds the bytes `bs` and has the argument letters `letters`. -/
structure Filled (p : RPCPackage) (bs : List UInt8) (letters : List Char) : Prop where
  size : p.packageSize = bs.length
  bytes : p.data.bytes.take bs.length = bs
  argString : p.argString = letters
  cached : p.isSizeCached = true ∨ bs = [] ∧ letters = []

theorem filled_make (id : RpcId) : (make id).Filled [] [] :=
  ⟨rfl, rfl, rfl, .inr ⟨rfl, rfl⟩⟩

variable {bs : List UInt8} {letters : List Char}

theorem Filled.nil_of_not_cached (h : p.Filled bs letters) (hc : p.isSizeCached = false) :
    bs = [] ∧ letters = [] ∧ p.calculateDataSize = .ok 0 := by
  obtain ⟨rfl, rfl⟩ := h.cached.resolve_left (by simp [hc])
  refine ⟨rfl, rfl, ?_⟩
  rw [calculateDataSize, h.argString]
  rfl

/-- Caching the size of a package whose content is known changes nothing else. -/
theorem Filled.ensureSizeCached (h : p.Filled bs letters) :
    ∃ q, p.ensureSizeCached = .ok q ∧ q.Filled bs letters ∧ q.isSizeCached = true ∧
      q.rpcId = p.rpcId := by
  unfold RPCPackage.ensureSizeCached
  cases hc : p.isSizeCached with
  | true => exact ⟨p, rfl, h, hc, rfl⟩
  | false =>
    obtain ⟨rfl, rfl, hcalc⟩ := h.nil_of_not_cached hc
    refine ⟨{ p with isSizeCached := true, packageSize := 0 }, ?_, ⟨rfl, h.bytes, h.argString,
      .inl rfl⟩, rfl, rfl⟩
    simp [cachePackageSize, hcalc, bind, Except.bind]

theorem Filled.dataSize (h : p.Filled bs letters) : p.dataSize = .ok bs.length := by
  cases hc : p.isSizeCached with
  | true => simp [RPCPackage.dataSize, hc, h.size]
  | false =>
    obtain ⟨-, -, hcalc⟩ := h.nil_of_not_cached hc
    simp [RPCPackage.dataSize, hc, h.size, hcalc, bind, Except.bind]

theorem Filled.push (h : p.Filled bs letters) (a : Arg)
    (hfits : bs.length + a.encode.length ≤ maxRpcDataSize) :
    ∃ p', p.push a = .ok (true, p') ∧ p'.Filled (bs ++ a.encode) (letters ++ [a.letter]) ∧
      p'.rpcId = p.rpcId := by
  obtain ⟨q, hq, hfill, hcached, hid⟩ := h.ensureSizeCached
  rw [← hfill.size] at hfits
  obtain ⟨d, hd, hpush⟩ := push_of_fits hq hfits
  have hbytes := take_of_write hd
  rw [hfill.size] at hbytes hpush
  refine ⟨_, hpush, ⟨List.length_append.symm, ?_, ?_, .inl hcached⟩, hid⟩
  · rw [List.length_append, hbytes, hfill.bytes]
  · rw [hfill.argString]

/-- Arguments pushed one after the other. -/
theorem Filled.foldlM_push (h : p.Filled bs letters) (args : List Arg)
    (hfits : bs.length + (encodeArgs args).length ≤ maxRpcDataSize) :
    ∃ p', args.foldlM (fun p arg => (RPCPackage.push p arg).map (·.2)) p = .ok p' ∧
      p'.Filled (bs ++ encodeArgs args) (letters ++ args.map Arg.letter) ∧ p'.rpcId = p.rpcId := by
  induction args generalizing p bs letters with
  | nil => exact ⟨p, rfl, by simpa using h, rfl⟩
  | cons a args ih =>
    rw [encodeArgs_cons, List.length_append] at hfits
    obtain ⟨q, hq, hfill, hid⟩ := h.push a (by omega)
    obtain ⟨q', hq', hfill', hid'⟩ := ih hfill (by rw [List.length_append]; omega)
    exact ⟨q', foldlM_cons_eq_ok.2 ⟨q, by rw [hq]; rfl, hq'⟩, by simpa using hfill',
      hid'.trans hid⟩

/-! ## The reader -/

theorem readAt_eq (h : off + n ≤ maxRpcDataSize) :
    p.readAt off n = .ok (ofLeBytes (slice p.data.bytes off n)) := by
  rw [readAt, if_pos h]

theorem popValue_eq (h : p.readOffset + n ≤ maxRpcDataSize) :
    p.popValue n = .ok (ofLeBytes (slice p.data.bytes p.readOffset n),
      { p with readOffset := p.readOffset + n }) := by
  have hmax : ¬ p.readOffset + n > maxPackageSize := by
    simp only [maxRpcDataSize, maxPackageSize] at *
    omega
  rw [popValue, if_neg hmax, readAt_eq h]
  rfl

/-- A number of `n` bytes read back is the number written if and only if its bytes stand there. -/
theorem ofLeBytes_slice_eq_iff {l : List UInt8} (hv : v < 256 ^ n) (hl : off + n ≤ l.length) :
    ofLeBytes (slice l off n) = v ↔ leBytes n v <+: l.drop off := by
  rw [← slice_eq_iff_drop (length_leBytes n v), ← ofLeBytes_inj (by simp [length_slice hl]),
    ofLeBytes_leBytes hv]

/-- A pop of an arithmetic type with `n` bytes, where `ofNum` builds the value from its number and
`num` is the number a push writes. -/
theorem popNumber_iff {α : Type} {ofNum : Nat → α} (mk : α → Arg) (num : α → Nat) {val : α}
    (hnum : ∀ k < 256 ^ n, ofNum k = val ↔ k = num val) (hlt : num val < 256 ^ n)
    (hmk : ∀ a b, mk a = mk b ↔ a = b)
    (hfits : p.readOffset + (leBytes n (num val)).length ≤ maxRpcDataSize) :
    ∃ v, (p.popValue n).bind (fun r => .ok (mk (ofNum r.1), r.2)) =
        .ok (v, { p with readOffset := p.readOffset + (leBytes n (num val)).length }) ∧
      (v = mk val ↔ leBytes n (num val) <+: p.data.bytes.drop p.readOffset) := by
  rw [length_leBytes] at hfits ⊢
  have hlen : p.readOffset + n ≤ p.data.bytes.length := p.data.size_eq.symm ▸ hfits
  have hread : ofLeBytes (slice p.data.bytes p.readOffset n) < 256 ^ n := by
    simpa [length_slice hlen] using ofLeBytes_lt (slice p.data.bytes p.readOffset n)
  refine ⟨_, by rw [popValue_eq hfits]; rfl, ?_⟩
  rw [hmk, hnum _ hread, ofLeBytes_slice_eq_iff hlt hlen]

theorem popString_iff (val : List UInt8)
    (hfits : p.readOffset + (val.length + 2) ≤ maxRpcDataSize)
    (hstrict : p.readOffset + (val.length + 2) < maxRpcDataSize ∨
      leBytes 2 val.length ++ val <+: p.data.bytes.drop p.readOffset) :
    ∃ v, p.popString = .ok (v, { p with readOffset := p.readOffset + 2 }) ∧
      (v = val ↔ leBytes 2 val.length ++ val <+: p.data.bytes.drop p.readOffset) := by
  have hsize := p.data.size_eq
  have hhead : p.readOffset + 2 ≤ maxRpcDataSize := by omega
  have hlt : val.length < 256 ^ 2 := by
    simp only [maxRpcDataSize] at hfits
    omega
  refine ⟨_, by rw [popString, popValue_eq hhead]; rfl, ?_⟩
  dsimp only
  generalize hn : ofLeBytes (slice p.data.bytes p.readOffset 2) = strlen
  rw [append_prefix_drop_iff, ← ofLeBytes_slice_eq_iff hlt (hsize.symm ▸ hhead), length_leBytes,
    hn]
  constructor
  · intro heq
    have hbody := congrArg List.length heq
    by_cases hclamp : p.readOffset + 2 + strlen > maxRpcDataSize
    · -- a clamped string has the right length only if it ends the buffer
      rw [if_pos hclamp, length_slice (by omega)] at hbody
      have hprefix := hstrict.resolve_left (by omega)
      rw [append_prefix_drop_iff, ← ofLeBytes_slice_eq_iff hlt (hsize.symm ▸ hhead),
        length_leBytes, hn] at hprefix
      exact hprefix
    · rw [if_neg hclamp] at heq hbody
      rw [length_slice (by omega)] at hbody
      exact ⟨hbody, (slice_eq_iff_drop hbody.symm).1 heq⟩
  · rintro ⟨rfl, hbody⟩
    rw [if_neg (by omega)]
    exact (slice_eq_iff_drop rfl).2 hbody

theorem uint8_ofNat_eq_iff {v : UInt8} (h : k < 256 ^ 1) : UInt8.ofNat k = v ↔ k = v.toNat := by
  rw [UInt8.ofNat_eq_iff_mod_eq_toNat]
  omega

theorem uint16_ofNat_eq_iff {v : UInt16} (h : k < 256 ^ 2) :
    UInt16.ofNat k = v ↔ k = v.toNat := by
  rw [UInt16.ofNat_eq_iff_mod_eq_toNat]
  omega

theorem uint32_ofNat_eq_iff {v : UInt32} (h : k < 256 ^ 4) :
    UInt32.ofNat k = v ↔ k = v.toNat := by
  rw [UInt32.ofNat_eq_iff_mod_eq_toNat]
  omega

theorem uint64_ofNat_eq_iff {v : UInt64} (h : k < 256 ^ 8) :
    UInt64.ofNat k = v ↔ k = v.toNat := by
  rw [UInt64.ofNat_eq_iff_mod_eq_toNat]
  omega

theorem toInt8_eq_iff {a : UInt8} {v : Int8} : a.toInt8 = v ↔ a = v.toUInt8 :=
  ⟨fun h => h ▸ rfl, fun h => h ▸ rfl⟩

theorem toInt16_eq_iff {a : UInt16} {v : Int16} : a.toInt16 = v ↔ a = v.toUInt16 :=
  ⟨fun h => h ▸ rfl, fun h => h ▸ rfl⟩

theorem toInt32_eq_iff {a : UInt32} {v : Int32} : a.toInt32 = v ↔ a = v.toUInt32 :=
  ⟨fun h => h ▸ rfl, fun h => h ▸ rfl⟩

/-- What a pop reads, for an argument that fits behind the read position: the position moves over
the argument without the body of a string, and the value is the argument if and only if its encoding
stands at the position. For a string that would end the buffer, a wrong length prefix could be
clamped to the right length; `hstrict` excludes that. -/
theorem popArg_iff (a : Arg) (hfits : p.readOffset + a.encode.length ≤ maxRpcDataSize)
    (hstrict : p.readOffset + a.encode.length < maxRpcDataSize ∨
      a.encode <+: p.data.bytes.drop p.readOffset) :
    ∃ v, p.popArg a.letter = .ok (v, { p with readOffset := p.readOffset + a.headerSize }) ∧
      (v = a ↔ a.encode <+: p.data.bytes.drop p.readOffset) := by
  cases a with
  | u8 val =>
    exact popNumber_iff .u8 (·.toNat) (fun k hk => uint8_ofNat_eq_iff hk) val.toNat_lt
      (by simp) hfits
  | i8 val =>
    exact popNumber_iff .i8 (fun v => v.toUInt8.toNat)
      (fun k hk => toInt8_eq_iff.trans (uint8_ofNat_eq_iff hk)) val.toUInt8.toNat_lt (by simp)
      hfits
  | u16 val =>
    exact popNumber_iff .u16 (·.toNat) (fun k hk => uint16_ofNat_eq_iff hk) val.toNat_lt
      (by simp) hfits
  | i16 val =>
    exact popNumber_iff .i16 (fun v => v.toUInt16.toNat)
      (fun k hk => toInt16_eq_iff.trans (uint16_ofNat_eq_iff hk)) val.toUInt16.toNat_lt (by simp)
      hfits
  | u32 val =>
    exact popNumber_iff .u32 (·.toNat) (fun k hk => uint32_ofNat_eq_iff hk) val.toNat_lt
      (by simp) hfits
  | i32 val =>
    exact popNumber_iff .i32 (fun v => v.toUInt32.toNat)
      (fun k hk => toInt32_eq_iff.trans (uint32_ofNat_eq_iff hk)) val.toUInt32.toNat_lt (by simp)
      hfits
  | f32 bits =>
    exact popNumber_iff .f32 (·.toNat) (fun k hk => uint32_ofNat_eq_iff hk) bits.toNat_lt
      (by simp) hfits
  | f64 bits =>
    exact popNumber_iff .f64 (·.toNat) (fun k hk => uint64_ofNat_eq_iff hk) bits.toNat_lt
      (by simp) hfits
  | str val =>
    have hlen : (Arg.str val).encode.length = val.length + 2 := by
      simp [Arg.encode]
      omega
    rw [hlen] at hfits hstrict
    obtain ⟨v, hv, hiff⟩ := popString_iff val hfits hstrict
    exact ⟨.str v, by rw [Arg.letter, popArg, hv]; rfl, by rw [Arg.str.injEq]; exact hiff⟩

end RPCPackage

end NetSiege
