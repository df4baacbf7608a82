import NetSiege.Lib.Run
import NetSiege.Network.PackageEncoder
import NetSiege.Network.UdpConnection

/-!
# Calls on a package (`rpcpackage.h`, `rpcpackage.cpp`)

`afterCall` is a package as a state machine over the calls of its class. `popValue` compares the
read position with `MAX_PACKAGE_SIZE`, `calculateDataSize` compares nothing, and `staysInside_iff`
says in which runs both stay inside the buffer all the same. `clear` leaves the read position where
it is (`blankAfterClear_iff`), and the size of a package rebuilt from its bytes is counted without
the length prefixes and then dropped (`sizesAgree_iff`).
-/

namespace NetSiege

open Lib

/-- The letters of the nine wire types. -/
def wireLetters : List Char := ['c', 'C', 's', 'S', 'i', 'I', 'f', 'd', 'L']

theorem Arg.letter_mem (a : Arg) : a.letter ∈ wireLetters := by
  cases a <;> simp [letter, wireLetters]

theorem Arg.length_encode_pos (a : Arg) : 0 < a.encode.length := by
  cases a with
  | str val =>
    simp only [encode, List.length_append, length_leBytes]
    omega
  | _ => simp [encode]

namespace RPCPackage

/-- A call on a package; `popValue` is told apart by the size of its type. -/
inductive Call where
  | push (a : Arg)
  | popValue (n : Nat)
  | popString
  | reset
  | argString
  | isValidPackage
  | dataSize
  | calculateDataSize
deriving DecidableEq

/-- What a call returns. -/
inductive Answer where
  | done
  | bool (b : Bool)
  | number (n : Nat)
  | string (s : List UInt8)
  | letters (l : List Char)
deriving DecidableEq

/-- A call, with its answer. -/
def call (p : RPCPackage) : Call → Except Trap (Answer × RPCPackage)
  | .push a => do let (r, p) ← p.push a; .ok (.bool r, p)
  | .popValue n => do let (val, p) ← p.popValue n; .ok (.number val, p)
  | .popString => do let (str, p) ← p.popString; .ok (.string str, p)
  | .reset => .ok (.done, p.reset)
  | .argString => .ok (.letters p.argString, p)
  | .isValidPackage => .ok (.bool p.validPackage, p)
  | .dataSize => do let size ← p.dataSize; .ok (.number size, p)
  | .calculateDataSize => do let size ← p.calculateDataSize; .ok (.number size, p)

/-- The package after a call. `overflow_exception` is thrown before anything is changed, and the
caller may go on. -/
def afterCall (p : RPCPackage) (c : Call) : Option RPCPackage :=
  match p.call c with
  | .ok (_, q) => some q
  | .error .overflowException => some p
  | .error _ => none

/-- The answers to a sequence of calls. It ends with the first failure that is no exception. -/
def answers (p : RPCPackage) : List Call → List (Except Trap Answer)
  | [] => []
  | c :: cs =>
    match p.call c with
    | .ok (ans, q) => .ok ans :: q.answers cs
    | .error .overflowException => .error .overflowException :: p.answers cs
    | .error e => [.error e]

/-- The number of bytes `popString` takes for the body of a string. -/
def clampedLength (p : RPCPackage) (strlen : Nat) : Nat :=
  if p.readOffset + strlen > maxRpcDataSize then maxRpcDataSize - p.readOffset else strlen

/-- What `calculateDataSize` adds for a letter at offset `size`: for a string, the length that
stands there. -/
def letterSize (bytes : List UInt8) (size : Nat) : Char → Nat
  | 'c' | 'C' => 1
  | 's' | 'S' => 2
  | 'i' | 'I' | 'f' => 4
  | 'd' => 8
  | 'L' => ofLeBytes (slice bytes size 2)
  | _ => 0

/-- The offsets at which `calculateDataSize` expects the length of a string. -/
def lengthOffsets (bytes : List UInt8) : Nat → List Char → List Nat
  | _, [] => []
  | size, c :: cs =>
    let rest := lengthOffsets bytes (size + letterSize bytes size c) cs
    if c = 'L' then size :: rest else rest

/-- One turn of the loop of `calculateDataSize`. -/
def sizeStep (p : RPCPackage) (size : Nat) (c : Char) : Except Trap Nat :=
  match c with
  | 'c' | 'C' => .ok (size + 1)
  | 's' | 'S' => .ok (size + 2)
  | 'i' | 'I' | 'f' => .ok (size + 4)
  | 'd' => .ok (size + 8)
  | 'L' => do
    let strlen ← p.readAt size 2
    .ok (size + strlen)
  | _ => .error .assertion

theorem calculateDataSize_eq (p : RPCPackage) :
    p.calculateDataSize = p.argString.foldlM p.sizeStep 0 := rfl

theorem popString_eq (p : RPCPackage) : p.popString = (do
    let (strlen, p) ← p.popValue 2
    .ok (slice p.data.bytes p.readOffset (p.clampedLength strlen), p)) := rfl

variable {p q : RPCPackage} {a : Arg}

/-! ## Staying inside the buffer -/

theorem sizeStep_eq (hc : c ∈ wireLetters) (hin : c = 'L' → size + 2 ≤ maxRpcDataSize) :
    p.sizeStep size c = .ok (size + letterSize p.data.bytes size c) := by
  simp only [wireLetters, List.mem_cons, List.not_mem_nil, or_false] at hc
  rcases hc with rfl | rfl | rfl | rfl | rfl | rfl | rfl | rfl | rfl
  case inr.inr.inr.inr.inr.inr.inr.inr =>
    rw [sizeStep, readAt_eq (hin rfl)]
    rfl
  all_goals rfl

theorem foldlM_sizeStep_iff {cs : List Char} (hcs : ∀ c ∈ cs, c ∈ wireLetters) (size : Nat) :
    cs.foldlM p.sizeStep size ≠ .error .outOfBounds ↔
      ∀ off ∈ lengthOffsets p.data.bytes size cs, off + 2 ≤ maxRpcDataSize := by
  induction cs generalizing size with
  | nil => simp [lengthOffsets, pure, Except.pure]
  | cons c cs ih =>
    obtain ⟨hc, hcs⟩ := List.forall_mem_cons.1 hcs
    rw [List.foldlM_cons, lengthOffsets]
    by_cases hL : c = 'L'
    · rw [if_pos hL, List.forall_mem_cons]
      by_cases hin : size + 2 ≤ maxRpcDataSize
      · rw [sizeStep_eq hc fun _ => hin]
        exact (ih hcs _).trans (and_iff_right hin).symm
      · subst hL
        refine iff_of_false (not_not_intro ?_) fun hall => hin hall.1
        rw [sizeStep, readAt, if_neg hin]
        rfl
    · rw [if_neg hL, sizeStep_eq hc fun h => absurd h hL]
      exact ih hcs _

/-- The offsets `calculateDataSize` reads at, for the package as it is. -/
def LengthsInside (p : RPCPackage) : Prop :=
  ∀ off ∈ lengthOffsets p.data.bytes 0 p.argString, off + 2 ≤ maxRpcDataSize

theorem calculateDataSize_iff (hp : ∀ c ∈ p.argString, c ∈ wireLetters) :
    p.calculateDataSize ≠ .error .outOfBounds ↔ p.LengthsInside :=
  foldlM_sizeStep_iff hp 0

theorem dataSize_iff (hp : ∀ c ∈ p.argString, c ∈ wireLetters) :
    p.dataSize ≠ .error .outOfBounds ↔ p.isSizeCached = true ∨ p.LengthsInside := by
  rw [← calculateDataSize_iff hp]
  cases hcached : p.isSizeCached with
  | true => simp [dataSize, hcached]
  | false =>
    cases hcalc : p.calculateDataSize <;> simp [dataSize, hcached, hcalc, bind, Except.bind]

theorem ensureSizeCached_iff (hp : ∀ c ∈ p.argString, c ∈ wireLetters) :
    p.ensureSizeCached ≠ .error .outOfBounds ↔ p.isSizeCached = true ∨ p.LengthsInside := by
  rw [← calculateDataSize_iff hp]
  cases hcached : p.isSizeCached with
  | true => simp [ensureSizeCached, hcached]
  | false =>
    cases hcalc : p.calculateDataSize <;>
      simp [ensureSizeCached, cachePackageSize, hcached, hcalc, bind, Except.bind]

/-- Once the size is known, a push answers. -/
theorem push_of_ensureSizeCached (hq : p.ensureSizeCached = .ok q) (a : Arg) :
    ∃ r, p.push a = .ok r := by
  by_cases hfits : q.packageSize + a.encode.length ≤ maxRpcDataSize
  · obtain ⟨d, -, hpush⟩ := push_of_fits hq hfits
    exact ⟨_, hpush⟩
  · exact ⟨_, push_of_not_fits hq (by omega)⟩

theorem push_ne_iff : p.push a ≠ .error e ↔ p.ensureSizeCached ≠ .error e := by
  cases h : p.ensureSizeCached with
  | error e' => rw [push_of_error h]; simp
  | ok q =>
    obtain ⟨r, hr⟩ := push_of_ensureSizeCached h a
    simp [hr]

theorem popValue_iff : p.popValue n ≠ .error .outOfBounds ↔
    p.readOffset + n ≤ maxRpcDataSize ∨ maxPackageSize < p.readOffset + n := by
  rw [popValue]
  split
  · next h => simp [h]
  · next h =>
    by_cases hin : p.readOffset + n ≤ maxRpcDataSize
    · simp [readAt_eq hin, hin, bind, Except.bind]
    · simp [readAt, hin, h, bind, Except.bind]

/-- What a pop that answers has done. -/
theorem popValue_eq_ok {val : Nat} (h : p.popValue n = .ok (val, q)) :
    p.readOffset + n ≤ maxRpcDataSize ∧ q = { p with readOffset := p.readOffset + n } := by
  by_cases hin : p.readOffset + n ≤ maxRpcDataSize
  · rw [popValue_eq hin] at h
    cases h
    exact ⟨hin, rfl⟩
  · rw [popValue] at h
    split at h
    · cases h
    · rw [readAt, if_neg hin] at h
      cases h

/-- A call throws or touches the buffer inside its bounds; in particular what `popString` takes the
clamped length from is not negative, and the body it returns ends with the buffer. -/
structure StaysInside (p : RPCPackage) (c : Call) : Prop where
  inBounds : p.call c ≠ .error .outOfBounds
  remaining : c = .popString → p.readOffset + 2 ≤ maxPackageSize →
    0 ≤ (maxRpcDataSize : Int) - (p.readOffset + 2 : Nat)
  body : c = .popString → ∀ strlen q, p.popValue 2 = .ok (strlen, q) →
    q.readOffset + q.clampedLength strlen ≤ maxRpcDataSize

/-- A pop that is not thrown out ends inside the buffer, and a size that has to be calculated meets
every length prefix inside it. -/
def ReadsFit (p : RPCPackage) : Call → Prop
  | .popValue n => p.readOffset + n ≤ maxRpcDataSize ∨ maxPackageSize < p.readOffset + n
  | .popString => p.readOffset + 2 ≤ maxRpcDataSize ∨ maxPackageSize < p.readOffset + 2
  | .push _ | .dataSize => p.isSizeCached = true ∨ p.LengthsInside
  | .calculateDataSize => p.LengthsInside
  | .reset | .argString | .isValidPackage => True

theorem clampedLength_le (h : p.readOffset ≤ maxRpcDataSize) (strlen : Nat) :
    p.readOffset + p.clampedLength strlen ≤ maxRpcDataSize := by
  rw [clampedLength]
  split <;> omega

theorem call_iff (hp : ∀ c ∈ p.argString, c ∈ wireLetters) (c : Call) :
    p.call c ≠ .error .outOfBounds ↔ p.ReadsFit c := by
  cases c with
  | push a => exact bind_ok_ne_error_iff.trans (push_ne_iff.trans (ensureSizeCached_iff hp))
  | popValue n => exact bind_ok_ne_error_iff.trans popValue_iff
  | popString => exact bind_ok_ne_error_iff.trans (bind_ok_ne_error_iff.trans popValue_iff)
  | dataSize => exact bind_ok_ne_error_iff.trans (dataSize_iff hp)
  | calculateDataSize => exact bind_ok_ne_error_iff.trans (calculateDataSize_iff hp)
  | reset | argString | isValidPackage => simp [call, ReadsFit]

theorem staysInside_call_iff (hp : ∀ c ∈ p.argString, c ∈ wireLetters) (c : Call) :
    p.StaysInside c ↔ p.ReadsFit c := by
  refine ⟨fun h => (call_iff hp c).1 h.inBounds, fun h => ⟨(call_iff hp c).2 h, ?_, ?_⟩⟩
  · rintro rfl hmax
    have hin : p.readOffset + 2 ≤ maxRpcDataSize := h.resolve_right (by omega)
    omega
  · rintro rfl strlen q hpop
    obtain ⟨hin, rfl⟩ := popValue_eq_ok hpop
    exact clampedLength_le hin strlen

theorem argString_of_push {r : Bool} (h : p.push a = .ok (r, q)) :
    q.argString = p.argString ∨ q.argString = p.argString ++ [a.letter] := by
  obtain ⟨p1, h1, hq⟩ := push_cases h
  have hletters : p1.argString = p.argString := by rw [ensureSizeCached_eq h1]
  obtain ⟨d, rfl⟩ | rfl := hq
  · exact .inr (congrArg (· ++ [a.letter]) hletters)
  · exact .inl hletters

/-- No call but a push changes the argument string. -/
theorem argString_of_call {c : Call} {ans : Answer} (h : p.call c = .ok (ans, q)) :
    q.argString = p.argString ∨ ∃ a, q.argString = p.argString ++ [Arg.letter a] := by
  cases c with
  | push a =>
    obtain ⟨⟨r, q'⟩, hpush, heq⟩ := bind_eq_ok.1 h
    cases heq
    exact (argString_of_push hpush).imp_right fun h => ⟨a, h⟩
  | popValue n =>
    obtain ⟨⟨val, q'⟩, hpop, heq⟩ := bind_eq_ok.1 h
    cases heq
    obtain ⟨-, rfl⟩ := popValue_eq_ok hpop
    exact .inl rfl
  | popString =>
    obtain ⟨⟨str, q'⟩, hpop, heq⟩ := bind_eq_ok.1 h
    obtain ⟨⟨strlen, q''⟩, hval, heq'⟩ := bind_eq_ok.1 hpop
    cases heq
    cases heq'
    obtain ⟨-, rfl⟩ := popValue_eq_ok hval
    exact .inl rfl
  | dataSize | calculateDataSize =>
    obtain ⟨size, -, heq⟩ := bind_eq_ok.1 h
    cases heq
    exact .inl rfl
  | reset | argString | isValidPackage =>
    cases h
    exact .inl rfl

theorem wireLetters_of_afterCall {c : Call} (hp : ∀ c ∈ p.argString, c ∈ wireLetters)
    (h : p.afterCall c = some q) : ∀ c ∈ q.argString, c ∈ wireLetters := by
  rw [afterCall] at h
  split at h
  · next ans q' hcall =>
    cases h
    rcases argString_of_call hcall with heq | ⟨a, heq⟩
    · rwa [heq]
    · rw [heq]
      intro c hc
      rcases List.mem_append.1 hc with hc | hc
      · exact hp c hc
      · rw [List.mem_singleton.1 hc]
        exact a.letter_mem
  · cases h
    exact hp
  · cases h

/-- The calls of a run stay inside the buffer if and only if every pop they make ends inside it or
is thrown out, and every size they have calculated meets the length prefixes inside it. -/
theorem staysInside_iff (hp : ∀ c ∈ p.argString, c ∈ wireLetters) (calls : List Call) :
    Along afterCall StaysInside p calls ↔ Along afterCall ReadsFit p calls :=
  Along.iff_of_invariant (fun p => ∀ c ∈ p.argString, c ∈ wireLetters)
    (fun _ _ _ hp _ => wireLetters_of_afterCall hp) (fun _ c hp => staysInside_call_iff hp c) hp

/-- A received package of two strings whose first length is 65535: the second length is looked for
behind the buffer. -/
def longLengths : RPCPackage :=
  makeFrom 16 ⟨List.replicate maxRpcDataSize 255, List.length_replicate⟩ ['L', 'L']

theorem staysInside_reset_iff :
    Along afterCall StaysInside longLengths [.reset, .popString] ↔
      Along afterCall ReadsFit longLengths [.reset, .popString] :=
  staysInside_iff (by simp [longLengths, makeFrom, wireLetters]) _

/-- Its size is calculated outside the buffer. -/
theorem not_staysInside_dataSize : ¬ Along afterCall StaysInside longLengths [.dataSize] := by
  intro H
  have hcall := H.1.inBounds
  revert hcall
  decide

/-! ## A cleared package -/

/-- A call of a blank package's user: no pop reads behind what was pushed, and the size is not
calculated, which looks at the bytes behind it. -/
def WithinPushed (p : RPCPackage) : Call → Prop
  | .popValue n => p.readOffset + n ≤ p.packageSize
  | .popString => p.readOffset + 2 ≤ p.packageSize ∧ ∀ strlen q, p.popValue 2 = .ok (strlen, q) →
      q.readOffset + q.clampedLength strlen ≤ q.packageSize
  | .calculateDataSize => False
  | .push _ | .reset | .argString | .isValidPackage | .dataSize => True

/-- After `clear`, the package answers like a fresh one. -/
def BlankAfterClear (p : RPCPackage) : Prop :=
  ∀ calls, Along afterCall WithinPushed (make p.rpcId) calls →
    p.clear.answers calls = (make p.rpcId).answers calls

/-- `p` and `q` differ in the bytes behind the data only, and in whether the size is cached while
there is no data. -/
structure SameFront (p q : RPCPackage) : Prop where
  front : p.data.bytes.take p.packageSize = q.data.bytes.take p.packageSize
  readOffset : p.readOffset = q.readOffset
  packageSize : p.packageSize = q.packageSize
  validPackage : p.validPackage = q.validPackage
  argString : p.argString = q.argString
  size_le : p.packageSize ≤ maxRpcDataSize
  cached : p.isSizeCached = true
  blank : q.isSizeCached = true ∨ q.packageSize = 0 ∧ q.argString = []

namespace SameFront

theorem slice_eq (h : SameFront p q) (hin : off + n ≤ p.packageSize) :
    slice p.data.bytes off n = slice q.data.bytes off n := by
  rw [← slice_take hin, h.front, slice_take hin]

theorem calculateDataSize (h : SameFront p q) (hq : q.isSizeCached = false) :
    q.calculateDataSize = .ok 0 := by
  obtain ⟨-, hletters⟩ := h.blank.resolve_left (by simp [hq])
  rw [calculateDataSize_eq, hletters]
  rfl

theorem ensureSizeCached (h : SameFront p q) :
    ∃ q1, q.ensureSizeCached = .ok q1 ∧ SameFront p q1 := by
  cases hq : q.isSizeCached with
  | true => exact ⟨q, ensureSizeCached_of_cached hq, h⟩
  | false =>
    obtain ⟨hsize, -⟩ := h.blank.resolve_left (by simp [hq])
    refine ⟨{ q with isSizeCached := true, packageSize := 0 }, ?_,
      { h with packageSize := h.packageSize.trans hsize, blank := .inl rfl }⟩
    simp [RPCPackage.ensureSizeCached, cachePackageSize, hq, h.calculateDataSize hq, bind,
      Except.bind]

theorem dataSize (h : SameFront p q) : q.dataSize = p.dataSize := by
  cases hq : q.isSizeCached with
  | true => simp [RPCPackage.dataSize, hq, h.cached, h.packageSize]
  | false =>
    simp [RPCPackage.dataSize, hq, h.cached, h.packageSize, h.calculateDataSize hq, bind,
      Except.bind]

theorem push (h : SameFront p q) (a : Arg) :
    ∃ r p' q', p.push a = .ok (r, p') ∧ q.push a = .ok (r, q') ∧ SameFront p' q' := by
  obtain ⟨q1, hq1, h1⟩ := h.ensureSizeCached
  have hp1 := ensureSizeCached_of_cached h.cached
  by_cases hfits : p.packageSize + a.encode.length ≤ maxRpcDataSize
  · obtain ⟨d, hd, hpush⟩ := push_of_fits hp1 hfits
    obtain ⟨d', hd', hpush'⟩ := push_of_fits hq1 (h1.packageSize ▸ hfits)
    have hfront := take_of_write hd
    have hfront' := take_of_write hd'
    rw [← h1.packageSize, ← h1.front, ← hfront] at hfront'
    exact ⟨true, _, _, hpush, hpush', ⟨hfront'.symm, h1.readOffset,
      congrArg (· + a.encode.length) h1.packageSize, h1.validPackage,
      congrArg (· ++ [a.letter]) h1.argString, hfits, h1.cached,
      .inl (by rw [ensureSizeCached_eq hq1])⟩⟩
  · rw [Nat.not_le] at hfits
    exact ⟨false, _, _, push_of_not_fits hp1 hfits,
      push_of_not_fits hq1 (h1.packageSize ▸ hfits), { h1 with validPackage := rfl }⟩

theorem popValue (h : SameFront p q) (hin : q.readOffset + n ≤ q.packageSize) :
    ∃ val, p.popValue n = .ok (val, { p with readOffset := p.readOffset + n }) ∧
      q.popValue n = .ok (val, { q with readOffset := q.readOffset + n }) := by
  rw [← h.readOffset, ← h.packageSize] at hin
  have hle := Nat.le_trans hin h.size_le
  refine ⟨_, popValue_eq hle, ?_⟩
  rw [h.slice_eq hin]
  rw [h.readOffset] at hle ⊢
  exact popValue_eq hle

theorem advance (h : SameFront p q) (n : Nat) :
    SameFront { p with readOffset := p.readOffset + n } { q with readOffset := q.readOffset + n } :=
  { h with readOffset := congrArg (· + n) h.readOffset }

/-- A call a blank package allows has one answer, and keeps what the packages share. -/
theorem call (h : SameFront p q) {c : Call} (hc : q.WithinPushed c) :
    ∃ ans p' q', p.call c = .ok (ans, p') ∧ q.call c = .ok (ans, q') ∧ SameFront p' q' := by
  cases c with
  | push a =>
    obtain ⟨r, p', q', hp, hq, h'⟩ := h.push a
    exact ⟨.bool r, p', q', bind_eq_ok.2 ⟨_, hp, rfl⟩, bind_eq_ok.2 ⟨_, hq, rfl⟩, h'⟩
  | popValue n =>
    obtain ⟨val, hp, hq⟩ := h.popValue hc
    exact ⟨.number val, _, _, bind_eq_ok.2 ⟨_, hp, rfl⟩, bind_eq_ok.2 ⟨_, hq, rfl⟩, h.advance n⟩
  | popString =>
    obtain ⟨strlen, hp, hq⟩ := h.popValue hc.1
    have hbody := hc.2 _ _ hq
    refine ⟨.string _, _, _, bind_eq_ok.2 ⟨_, bind_eq_ok.2 ⟨_, hp, rfl⟩, rfl⟩,
      bind_eq_ok.2 ⟨_, bind_eq_ok.2 ⟨_, hq, rfl⟩, ?_⟩, h.advance 2⟩
    simp only [clampedLength, ← h.readOffset, ← h.packageSize] at hbody
    simp only [← h.readOffset]
    rw [h.slice_eq hbody]
  | reset => exact ⟨.done, _, _, rfl, rfl, { h with readOffset := rfl }⟩
  | argString => exact ⟨.letters p.argString, p, q, rfl, by rw [h.argString]; rfl, h⟩
  | isValidPackage => exact ⟨.bool p.validPackage, p, q, rfl, by rw [h.validPackage]; rfl, h⟩
  | dataSize =>
    have hsize : p.dataSize = .ok p.packageSize := by simp [RPCPackage.dataSize, h.cached]
    exact ⟨.number p.packageSize, p, q, bind_eq_ok.2 ⟨_, hsize, rfl⟩,
      bind_eq_ok.2 ⟨_, h.dataSize.trans hsize, rfl⟩, h⟩
  | calculateDataSize => exact hc.elim

/-- Any sequence of them has the same answers. -/
theorem answers (h : SameFront p q) (hcalls : Along afterCall WithinPushed q calls) :
    p.answers calls = q.answers calls := by
  induction calls generalizing p q with
  | nil => rfl
  | cons c calls ih =>
    obtain ⟨hc, hrest⟩ := along_cons.1 hcalls
    obtain ⟨ans, p', q', hp, hq, h'⟩ := h.call hc
    have hafter : q.afterCall c = some q' := by rw [afterCall, hq]
    simp only [RPCPackage.answers, hp, hq, ih h' (hrest q' hafter)]

end SameFront

/-- A cleared package whose read position is put back answers like a fresh one. -/
theorem sameFront_clear (p : RPCPackage) :
    SameFront { p.clear with readOffset := 0 } (make p.rpcId) :=
  ⟨rfl, rfl, rfl, rfl, rfl, Nat.zero_le _, rfl, .inr ⟨rfl, rfl⟩⟩

theorem call_push_ok {r : Bool} (h : p.push a = .ok (r, q)) :
    p.call (.push a) = .ok (.bool r, q) := bind_eq_ok.2 ⟨_, h, rfl⟩

theorem answers_cons_ok {c : Call} {ans : Answer} (h : p.call c = .ok (ans, q)) :
    p.answers (c :: calls) = .ok ans :: q.answers calls := by
  simp only [answers, h]

theorem answers_popValue (h : p.readOffset + n ≤ maxRpcDataSize) :
    p.answers [.popValue n] =
      [.ok (.number (ofLeBytes (slice p.data.bytes p.readOffset n)))] :=
  answers_cons_ok (bind_eq_ok.2 ⟨_, popValue_eq h, rfl⟩)

theorem answers_popValue_outside (h : maxRpcDataSize < p.readOffset + n) :
    ∃ e, p.answers [.popValue n] = [.error e] := by
  by_cases hmax : p.readOffset + n > maxPackageSize
  · exact ⟨.overflowException, by simp [answers, call, popValue, hmax, bind, Except.bind]⟩
  · have hin : ¬ p.readOffset + n ≤ maxRpcDataSize := by omega
    exact ⟨.outOfBounds, by simp [answers, call, popValue, readAt, hmax, hin, bind, Except.bind]⟩

/-- A byte pushed on a cleared package. -/
theorem push_clear_byte {v : UInt8} {d : RpcData} (hd : p.data.write 0 [v] = .ok d) (r : Nat) :
    { p.clear with readOffset := r }.push (.u8 v) =
      .ok (true, ⟨d, p.rpcId, r, 1, true, true, ['c']⟩) := by
  have hencode : (Arg.u8 v).encode = [v] := by simp [Arg.encode, leBytes]
  change pushGeneric _ (Arg.u8 v).encode (some 'c') = _
  rw [hencode]
  exact pushGeneric_of_fits (some 'c') (ensureSizeCached_of_cached rfl)
    (Nat.succ_le_of_lt (Nat.zero_lt_succ _)) hd

/-- The byte is what a pop at the front gives back. -/
theorem answers_clear_byte {v : UInt8} {d : RpcData} (hd : p.data.write 0 [v] = .ok d) :
    { p.clear with readOffset := 0 }.answers [.push (.u8 v), .popValue 1] =
      [.ok (.bool true), .ok (.number v.toNat)] := by
  obtain ⟨hin, hbytes⟩ := bytes_of_write hd
  have hread : slice d.bytes 0 1 = [v] := by
    rw [hbytes]
    exact slice_overwrite_self (p.data.size_eq.symm ▸ hin)
  have hval : ofLeBytes [v] = v.toNat := by simp [ofLeBytes]
  rw [answers_cons_ok (call_push_ok (push_clear_byte hd 0)), answers_popValue hin, hread, hval]

/-- `clear` gives back a blank package if and only if the read position is at the front: it is the
one field `clear` leaves as it was. -/
theorem blankAfterClear_iff (p : RPCPackage) : BlankAfterClear p ↔ p.readOffset = 0 := by
  constructor
  · intro hblank
    by_contra hro
    -- a byte other than the one at the old read position
    obtain ⟨v, hv⟩ : ∃ v : UInt8, ofLeBytes (slice p.data.bytes p.readOffset 1) ≠ v.toNat := by
      by_cases h0 : ofLeBytes (slice p.data.bytes p.readOffset 1) = 0
      · exact ⟨1, by rw [h0]; decide⟩
      · exact ⟨0, h0⟩
    obtain ⟨d, hd, -⟩ := write_eq_ok p.data 0 [v] (Nat.succ_le_of_lt (Nat.zero_lt_succ _))
    obtain ⟨hfits, hbytes⟩ := bytes_of_write hd
    have hcalls : Along afterCall WithinPushed (make p.rpcId) [.push (.u8 v), .popValue 1] := by
      refine ⟨trivial, fun q hq => ⟨?_, fun _ _ => trivial⟩⟩
      obtain ⟨r, p', q', hp', hq', h'⟩ := (sameFront_clear p).push (.u8 v)
      rw [push_clear_byte hd 0] at hp'
      cases hp'
      have hafter : (make p.rpcId).afterCall (.push (.u8 v)) = some q' := by
        rw [afterCall, call_push_ok hq']
      cases hafter.symm.trans hq
      exact Nat.le_of_eq (by rw [← h'.readOffset, ← h'.packageSize])
    have hfresh := (sameFront_clear p).answers hcalls
    rw [answers_clear_byte hd] at hfresh
    have hclear : p.clear.answers [.push (.u8 v), .popValue 1] = .ok (.bool true) :: _ :=
      answers_cons_ok (call_push_ok (push_clear_byte hd p.readOffset))
    have heq := hclear.symm.trans ((hblank _ hcalls).trans hfresh.symm)
    have hpop := (List.cons.inj heq).2
    by_cases hin : p.readOffset + 1 ≤ maxRpcDataSize
    · have hread : slice d.bytes p.readOffset 1 = slice p.data.bytes p.readOffset 1 := by
        rw [hbytes]
        exact slice_overwrite_after (p.data.size_eq.symm ▸ hfits) (Nat.pos_of_ne_zero hro)
      rw [answers_popValue (p := ⟨d, p.rpcId, p.readOffset, 1, true, true, ['c']⟩) hin,
        hread] at hpop
      simp [hv] at hpop
    · obtain ⟨e, he⟩ := answers_popValue_outside
        (p := ⟨d, p.rpcId, p.readOffset, 1, true, true, ['c']⟩) (Nat.not_le.1 hin)
      rw [he] at hpop
      simp at hpop
  · intro hro calls hcalls
    have hclear : p.clear = { p.clear with readOffset := 0 } := by
      rw [← hro]
      rfl
    rw [hclear]
    exact (sameFront_clear p).answers hcalls

/-- A byte was read before `clear`: of the two bytes pushed afterwards, the second is popped
first. -/
theorem not_blankAfterClear_read : ∃ p,
    run afterCall (make 16) [.push (.u8 5), .popValue 1] = some p ∧ ¬ BlankAfterClear p := by
  refine ⟨_, rfl, fun hblank => ?_⟩
  have hcalls : Along afterCall WithinPushed (make 16) [.push (.u16 513), .popValue 1] := by
    refine ⟨trivial, fun q hq => ⟨?_, fun _ _ => trivial⟩⟩
    change q.readOffset + 1 ≤ q.packageSize
    cases hq
    decide
  have hanswers := congrArg (·.map Except.toOption) (hblank _ hcalls)
  revert hanswers
  decide

/-! ## A rebuilt package -/

/-- `RPCPackage::make(id, data(), argString())` of a package. -/
def rebuilt (p : RPCPackage) : RPCPackage := makeFrom p.rpcId p.data p.argString

/-- A package and the one rebuilt from it know that they hold `n` bytes, and a connection sends the
same for them, also after further pushes. -/
structure SizesAgree (p : RPCPackage) (n : Nat) : Prop where
  tracked : p.dataSize = .ok n
  calculated : p.calculateDataSize = .ok n
  rebuilt_calculated : p.rebuilt.calculateDataSize = .ok n
  rebuilt_dataSize : p.rebuilt.dataSize = .ok n
  transmits : ∀ more results p', p.pushAll more = .ok (results, p') →
    ∃ q', p.rebuilt.pushAll more = .ok (results, q') ∧
      ∀ {ε β : Type} (c : UdpConnection ε) (now : Time),
        (c.remoteProcedureCallPackage q' now : Except Trap (UdpConnection ε × Message β)) =
          c.remoteProcedureCallPackage p' now

/-- The size a rebuilt package calculates is dropped. -/
theorem rebuilt_dataSize_eq_ok (h : p.rebuilt.dataSize = .ok n) : n = 0 := by
  obtain ⟨_, -, h⟩ := bind_eq_ok.1 h
  cases h
  rfl

/-- The sizes agree if and only if nothing was pushed. -/
theorem sizesAgree_iff {id : RpcId} {args : List Arg} {results : List Bool}
    (h : (make id).pushAll args = .ok (results, p)) (hall : ∀ r ∈ results, r = true) :
    p.SizesAgree (encodeArgs args).length ↔ args = [] := by
  constructor
  · intro hagree
    have hlen := rebuilt_dataSize_eq_ok hagree.rebuilt_dataSize
    cases args with
    | nil => rfl
    | cons a args =>
      have ha := a.length_encode_pos
      rw [encodeArgs_cons, List.length_append] at hlen
      omega
  · rintro rfl
    cases h
    exact ⟨rfl, rfl, rfl, rfl, fun more results p' h => ⟨p', h, fun _ _ => rfl⟩⟩

theorem sizesAgree_byte_iff : ∃ p, (make 16).pushAll [.u8 7] = .ok ([true], p) ∧
    (p.SizesAgree (encodeArgs [.u8 7]).length ↔ [Arg.u8 7] = []) :=
  ⟨_, rfl, sizesAgree_iff (show _ = Except.ok ([true], _) from rfl) (by simp)⟩

/-- One byte pushed: the rebuilt package has no data to send. -/
theorem not_sizesAgree_byte : ∃ p,
    (make 16).pushAll [.u8 7] = .ok ([true], p) ∧ ¬ p.SizesAgree (encodeArgs [.u8 7]).length := by
  refine ⟨_, rfl, fun hagree => ?_⟩
  have hsize := hagree.rebuilt_dataSize
  revert hsize
  decide

end RPCPackage

end NetSiege
