import NetSiege.Lib.IStream
import NetSiege.Network.RpcDispatcher

/-!
# The table of procedures (`rpcdispatcher.cpp`, `rpc.tab`)

`loadRpcHandlerSpec` reads a record from the front of the text, skips the rest of the line and
registers what it has read, as long as `eof()` is not set. Neither of its loops asks whether an
extraction has failed: a line without a number keeps the inner one from ending
(`loadTerminates_iff`), and a newline behind the last line makes for one more record
(`readAsWritten_iff`).
-/

namespace NetSiege

open Lib

/-- A call of `registerRpc`, with an indeterminate id as `none`. -/
structure RpcCall where
  id : Option RpcId
  function : List Char
  argSpec : List Char
deriving DecidableEq

/-- `rpcConfig >> rpc.id >> function >> rpc.argSpec`, into new variables. -/
def readRecord (rpcConfig : IStream) : RpcCall × IStream :=
  let (id, rpcConfig) := rpcConfig.extractUnsigned 65535 none
  let (function, rpcConfig) := rpcConfig.extractString []
  let (argSpec, rpcConfig) := rpcConfig.extractString []
  ({ id := id.map UInt16.ofNat, function, argSpec }, rpcConfig)

/-- At most so many turns of `while(!rpcConfig.eof() && rpcConfig.get() != '\n')`. -/
def skipLine : Nat → IStream → Option IStream
  | 0, _ => none
  | n + 1, rpcConfig =>
    if rpcConfig.eof then some rpcConfig
    else
      let (c, rpcConfig) := rpcConfig.get
      if c = some '\n' then some rpcConfig else skipLine n rpcConfig

/-- At most so many turns of each of the two loops: the calls of `registerRpc`. -/
def loadLoop : Nat → IStream → Option (List RpcCall)
  | 0, _ => none
  | n + 1, rpcConfig =>
    if rpcConfig.eof then some []
    else
      let (call, rpcConfig) := readRecord rpcConfig
      (skipLine n rpcConfig).bind fun rpcConfig => (loadLoop n rpcConfig).map (call :: ·)

/-- `RPCDispatcher::loadRpcHandlerSpec`, of a file with the given code. -/
def loadRpcHandlerSpec (n : Nat) (code : List Char) : Option (List RpcCall) :=
  loadLoop n { rest := code }

/-- The loops end. -/
def LoadTerminates (code : List Char) : Prop := ∃ n calls, loadRpcHandlerSpec n code = some calls

/-- What is behind the three fields of the record at the front of the text. -/
def afterFields (text : List Char) : List Char := afterWord (afterWord (splitNumber text).2)

/-- The text from the next newline on. -/
def restOfText (text : List Char) : List Char := text.dropWhile (· ≠ '\n')

/-- The text ends before or with the number at its front, or that is one of 16 bits. -/
def NumberFits (text : List Char) : Prop :=
  (splitNumber text).2 = [] ∨
    (splitNumber text).1 ≠ [] ∧ Nat.ofDigitChars 10 (splitNumber text).1 0 ≤ 65535

/-- Wherever a record is looked for, there is a number, or the end of the text. -/
inductive Readable : List Char → Prop where
  | record {text : List Char} (hnumber : NumberFits text)
    (hrest : ∀ rest, restOfText (afterFields text) = '\n' :: rest → Readable rest) : Readable text

/-! ## One record -/

section
variable {s s' : IStream} {text rest : List Char} {calls : List RpcCall}

/-- Up to the end of the record the stream is read word by word. -/
theorem settled_readRecord (hgood : s.good = true) (hnumber : NumberFits s.rest) :
    (readRecord s).2.Settled ∧ (readRecord s).2.rest = afterFields s.rest := by
  obtain ⟨hrest, heof, hfail⟩ := IStream.extractUnsigned_of_good hgood 65535 none
  have hsettled : (s.extractUnsigned 65535 none).2.Settled := by
    rcases hnumber with hnil | ⟨hdigits, hmax⟩
    · exact .inr ⟨by rw [heof, hnil]; rfl, hrest.trans hnil⟩
    · cases hbehind : (splitNumber s.rest).2 with
      | nil => exact .inr ⟨by rw [heof, hbehind]; rfl, hrest.trans hbehind⟩
      | cons c behind =>
        refine .inl (IStream.good_iff.2 ⟨by rw [heof, hbehind]; rfl, ?_⟩)
        rw [hfail]
        simp [hdigits, Nat.not_lt.2 hmax]
  obtain ⟨hfirst, hrest1⟩ := IStream.settled_extractString hsettled []
  obtain ⟨hsecond, hrest2⟩ := IStream.settled_extractString hfirst []
  exact ⟨hsecond, by rw [readRecord, hrest2, hrest1, hrest, afterFields]⟩

/-- What is no number fails, without a look at the end of the text. -/
theorem failed_readRecord (hgood : s.good = true) (hnumber : ¬ NumberFits s.rest) :
    (readRecord s).2.eof = false ∧ (readRecord s).2.fail = true := by
  obtain ⟨hbehind, hbad⟩ := not_or.1 hnumber
  obtain ⟨-, heof, hfail⟩ := IStream.extractUnsigned_of_good hgood 65535 none
  have heof : (s.extractUnsigned 65535 none).2.eof = false := by simpa [heof] using hbehind
  have hfail : (s.extractUnsigned 65535 none).2.fail = true := by
    rw [hfail, Bool.or_eq_true, List.isEmpty_iff, decide_eq_true_eq]
    by_contra h
    obtain ⟨hdigits, hmax⟩ := not_or.1 h
    exact hbad ⟨hdigits, Nat.not_lt.1 hmax⟩
  have hnot : (s.extractUnsigned 65535 none).2.good = false := by simp [IStream.good, hfail]
  simp only [readRecord, IStream.extractString_of_not_good hnot]
  rw [IStream.extractString_of_not_good (by simp [IStream.good])]
  exact ⟨heof, rfl⟩

/-! ## The rest of the line -/

theorem skipLine_of_eof (heof : s.eof = true) : skipLine (n + 1) s = some s := by
  rw [skipLine, if_pos heof]

/-- The inner loop stands still on a stream that has failed before the end of the text. -/
theorem skipLine_of_failed (heof : s.eof = false) (hfail : s.fail = true) (n : Nat) :
    skipLine n s = none := by
  induction n with
  | zero => rfl
  | succ n ih =>
    have hsame : { s with fail := true } = s := by rw [← hfail]
    rw [skipLine, heof, IStream.get_of_not_good (by simp [IStream.good, hfail]), hsame]
    exact ih

/-- The end of the line, or of the text. -/
def endOfLine (text : List Char) : IStream :=
  match restOfText text with
  | [] => { rest := [], eof := true, fail := true }
  | _ :: rest => { rest }

theorem skipLine_text (hn : text.length + 1 < n) :
    skipLine n { rest := text } = some (endOfLine text) := by
  obtain ⟨n, rfl⟩ : ∃ m, n = m + 1 := ⟨n - 1, by omega⟩
  induction text generalizing n with
  | nil =>
    obtain ⟨n, rfl⟩ : ∃ m, n = m + 1 := ⟨n - 1, by simp at hn; omega⟩
    rfl
  | cons c text ih =>
    obtain ⟨n, rfl⟩ : ∃ m, n = m + 1 := ⟨n - 1, by simp at hn; omega⟩
    by_cases hc : c = '\n'
    · subst hc
      rfl
    · have hnext := ih n (by simp at hn; omega)
      have hsame : endOfLine (c :: text) = endOfLine text := by
        rw [endOfLine, endOfLine, restOfText, restOfText, List.dropWhile_cons_of_pos (by simpa)]
      have hc' : ¬ some c = some '\n' := by simpa using hc
      rw [skipLine, hsame, ← hnext]
      exact if_neg hc'

theorem skipLine_settled (h : s.Settled) :
    ∃ n s', skipLine n s = some s' ∧ (restOfText s.rest = [] → s'.eof = true) ∧
      ∀ rest, restOfText s.rest = '\n' :: rest → s' = { rest } := by
  rcases h with hgood | ⟨heof, hrest⟩
  · refine ⟨s.rest.length + 2, endOfLine s.rest, ?_, fun hnil => ?_, fun rest hr => ?_⟩
    · rw [IStream.eq_of_good hgood]
      exact skipLine_text (Nat.lt_succ_self _)
    · rw [endOfLine, hnil]
    · rw [endOfLine, hr]
  · refine ⟨1, s, skipLine_of_eof heof, fun _ => heof, fun rest hr => ?_⟩
    rw [hrest] at hr
    cases hr

theorem skipLine_mono (h : skipLine n s = some s') (hn : n ≤ m) : skipLine m s = some s' := by
  induction n generalizing s m with
  | zero => cases h
  | succ n ih =>
    obtain ⟨m, rfl⟩ : ∃ k, m = k + 1 := ⟨m - 1, by omega⟩
    rw [skipLine] at h ⊢
    split at h
    · next heof => rw [if_pos heof, h]
    · next heof =>
      rw [if_neg heof]
      dsimp only at h ⊢
      split at h
      · next hc => rw [if_pos hc, h]
      · next hc => rw [if_neg hc, ih h (by omega)]

theorem skipLine_unique {s1 s2 : IStream} (h : skipLine n s = some s1)
    (h' : skipLine m s = some s2) : s1 = s2 :=
  Option.some.inj ((skipLine_mono h (Nat.le_max_left n m)).symm.trans
    (skipLine_mono h' (Nat.le_max_right n m)))

/-! ## The loop over the records -/

theorem loadLoop_succ (n : Nat) (text : List Char) :
    loadLoop (n + 1) { rest := text } =
      (skipLine n (readRecord { rest := text }).2).bind fun s =>
        (loadLoop n s).map ((readRecord { rest := text }).1 :: ·) := by
  rw [loadLoop, if_neg Bool.false_ne_true]

theorem loadLoop_mono (h : loadLoop n s = some calls) (hn : n ≤ m) : loadLoop m s = some calls := by
  induction n generalizing s m calls with
  | zero => cases h
  | succ n ih =>
    obtain ⟨m, rfl⟩ : ∃ k, m = k + 1 := ⟨m - 1, by omega⟩
    rw [loadLoop] at h ⊢
    split at h
    · next heof => rw [if_pos heof, h]
    · next heof =>
      rw [if_neg heof]
      dsimp only at h ⊢
      obtain ⟨s', hskip, hloop⟩ := Option.bind_eq_some_iff.1 h
      obtain ⟨rest, hrest, heq⟩ := Option.map_eq_some_iff.1 hloop
      rw [skipLine_mono hskip (by omega : n ≤ m), Option.bind_some, ih hrest (by omega),
        Option.map_some, heq]

theorem loadLoop_unique {calls' : List RpcCall} (h : loadLoop n s = some calls)
    (h' : loadLoop m s = some calls') : calls = calls' :=
  Option.some.inj ((loadLoop_mono h (Nat.le_max_left n m)).symm.trans
    (loadLoop_mono h' (Nat.le_max_right n m)))

/-- Behind a record with a number, the loop gets to the next line, or to the end of the text. -/
theorem skipLine_readRecord (hnumber : NumberFits text) :
    ∃ n s', skipLine n (readRecord { rest := text }).2 = some s' ∧
      (restOfText (afterFields text) = [] → s'.eof = true) ∧
      ∀ rest, restOfText (afterFields text) = '\n' :: rest → s' = { rest } := by
  obtain ⟨hsettled, hrest⟩ := settled_readRecord (s := { rest := text }) rfl hnumber
  obtain ⟨n, s', hskip, heof, hs'⟩ := skipLine_settled hsettled
  rw [hrest] at heof hs'
  exact ⟨n, s', hskip, heof, hs'⟩

/-- A record on the last line. -/
theorem exists_loadLoop_last (hnumber : NumberFits text)
    (hlast : restOfText (afterFields text) = []) :
    ∃ n, loadLoop n { rest := text } = some [(readRecord { rest := text }).1] := by
  obtain ⟨n, s', hskip, heof, -⟩ := skipLine_readRecord hnumber
  refine ⟨n + 1 + 1, ?_⟩
  rw [loadLoop_succ, skipLine_mono hskip (Nat.le_succ n), Option.bind_some, loadLoop,
    if_pos (heof hlast), Option.map_some]

/-- A record with a line behind it. -/
theorem exists_loadLoop_cons (hnumber : NumberFits text)
    (hnext : restOfText (afterFields text) = '\n' :: rest)
    (h : loadLoop n { rest } = some calls) :
    ∃ m, loadLoop m { rest := text } = some ((readRecord { rest := text }).1 :: calls) := by
  obtain ⟨m, s', hskip, -, hs'⟩ := skipLine_readRecord hnumber
  obtain rfl := hs' rest hnext
  refine ⟨max n m + 1, ?_⟩
  rw [loadLoop_succ, skipLine_mono hskip (Nat.le_max_right n m), Option.bind_some,
    loadLoop_mono h (Nat.le_max_left n m), Option.map_some]

/-- What a completed load has found at the front of the text. -/
theorem loadLoop_eq_some (h : loadLoop n { rest := text } = some calls) : NumberFits text ∧
    ∀ rest, restOfText (afterFields text) = '\n' :: rest →
      ∃ m calls', m < n ∧ loadLoop m { rest } = some calls' := by
  obtain _ | n := n
  · cases h
  rw [loadLoop_succ] at h
  obtain ⟨s', hskip, hloop⟩ := Option.bind_eq_some_iff.1 h
  obtain ⟨calls', hcalls, -⟩ := Option.map_eq_some_iff.1 hloop
  by_cases hnumber : NumberFits text
  · obtain ⟨m, s'', hskip', -, hs''⟩ := skipLine_readRecord hnumber
    refine ⟨hnumber, fun rest hnext => ⟨n, calls', Nat.lt_succ_self n, ?_⟩⟩
    obtain rfl := skipLine_unique hskip hskip'
    rwa [hs'' rest hnext] at hcalls
  · obtain ⟨heof, hfail⟩ := failed_readRecord (s := { rest := text }) rfl hnumber
    rw [skipLine_of_failed heof hfail] at hskip
    cases hskip

/-- The first newline of what is left, if there is one. -/
theorem restOfText_cases (text : List Char) :
    restOfText text = [] ∨ ∃ rest, restOfText text = '\n' :: rest := by
  cases h : restOfText text with
  | nil => exact .inl rfl
  | cons c rest =>
    have hc := not_of_dropWhile_eq_cons h
    exact .inr ⟨rest, by simpa using hc⟩

/-- **Loading a table ends** exactly where there is a number wherever a record is looked for, or the
end of the text. -/
theorem loadTerminates_iff {code : List Char} : LoadTerminates code ↔ Readable code := by
  refine ⟨fun h => ?_, fun h => ?_⟩
  · obtain ⟨n, calls, h⟩ := h
    induction n using Nat.strong_induction_on generalizing code calls with
    | _ n ih =>
      obtain ⟨hnumber, hrest⟩ := loadLoop_eq_some h
      refine .record hnumber fun rest hnext => ?_
      obtain ⟨m, calls', hm, hload⟩ := hrest rest hnext
      exact ih m hm calls' hload
  · induction h with
    | @record text hnumber _ ih =>
      rcases restOfText_cases (afterFields text) with hlast | ⟨rest, hnext⟩
      · obtain ⟨n, hload⟩ := exists_loadLoop_last hnumber hlast
        exact ⟨n, _, hload⟩
      · obtain ⟨n, calls, hload⟩ := ih rest hnext
        obtain ⟨m, hload⟩ := exists_loadLoop_cons hnumber hnext hload
        exact ⟨m, _, hload⟩

end

/-- A line with a comment only keeps the loader from ending. -/
theorem not_loadTerminates_comment : ¬ LoadTerminates "# id name spec\n".toList := by
  intro h
  obtain ⟨n, calls, hload⟩ := h
  rcases (loadLoop_eq_some hload).1 with hnil | ⟨hdigits, -⟩
  · revert hnil
    decide
  · exact hdigits (by decide)

/-! ## Tables as they are written -/

/-- A letter, a digit or an underscore. -/
def isIdentChar (c : Char) : Bool := c.isAlpha || c.isDigit || c = '_'

/-- Tabs and spaces between two fields. -/
def IsGap (gap : List Char) : Prop := gap ≠ [] ∧ ∀ c ∈ gap, c = ' ' ∨ c = '\t'

/-- A line of a table: a record, the gaps between its fields, and the comment behind it with the gap
before it. -/
structure TableLine where
  id : RpcId
  name : List Char
  spec : List Char
  nameGap : List Char
  specGap : List Char
  comment : Option (List Char × List Char)
  id_free : maxInternalRpcId < id
  name_ne : name ≠ []
  name_head : ∀ c ∈ name.head?, c.isDigit = false
  name_ident : ∀ c ∈ name, isIdentChar c = true
  spec_ne : spec ≠ []
  spec_letters : ∀ c ∈ spec, ∃ param, paramDecl c = .ok param
  isGap_name : IsGap nameGap
  isGap_spec : IsGap specGap
  isGap_comment : ∀ gap text, comment = some (gap, text) → IsGap gap
  comment_line : ∀ gap text, comment = some (gap, text) → '\n' ∉ text

namespace TableLine

/-- The comment as it is printed. -/
def printComment (line : TableLine) : List Char :=
  match line.comment with
  | none => []
  | some (gap, text) => gap ++ '#' :: text

/-- The line as it is printed, without its newline. -/
def print (line : TableLine) : List Char :=
  Nat.toDigits 10 line.id.toNat ++
    (line.nameGap ++ (line.name ++ (line.specGap ++ (line.spec ++ line.printComment))))

/-- The call of `registerRpc` for the record. -/
def call (line : TableLine) : RpcCall where
  id := some line.id
  function := line.name
  argSpec := line.spec

end TableLine

/-- A table as it is printed, with a newline behind its last line or without. -/
def printTable (finalNewline : Bool) : List TableLine → List Char
  | [] => []
  | [line] => line.print ++ if finalNewline then ['\n'] else []
  | line :: lines => line.print ++ '\n' :: printTable finalNewline lines

/-- Loading the printed table registers its records in order, and nothing else. -/
def ReadAsWritten (finalNewline : Bool) (lines : List TableLine) : Prop :=
  ∃ n, loadRpcHandlerSpec n (printTable finalNewline lines) = some (lines.map (·.call))

section
variable {text : List Char}

theorem isSpace_of_mem_gap {gap : List Char} (h : IsGap gap) : ∀ c ∈ gap, isSpace c = true := by
  intro c hc
  rcases h.2 c hc with rfl | rfl <;> decide

/-- A gap ends the field before it. -/
theorem isSpace_head_gap {gap : List Char} (h : IsGap gap) :
    ∀ c ∈ (gap ++ text).head?, isSpace c = true := by
  obtain ⟨d, gap, rfl⟩ := List.exists_cons_of_ne_nil h.1
  intro c hc
  obtain rfl : d = c := Option.some.inj hc
  exact isSpace_of_mem_gap h d List.mem_cons_self

theorem isSpace_of_isAlpha (h : c.isAlpha = true) : isSpace c = false := by
  rcases Bool.or_eq_true_iff.1 h with hupper | hlower
  · have hlow : 'A' ≤ c := Char.le_def.2 (of_decide_eq_true hupper).1
    exact isSpace_of_lt (lt_of_lt_of_le (by decide) hlow)
  · have hlow : 'a' ≤ c := Char.le_def.2 (of_decide_eq_true (Bool.and_eq_true_iff.1 hlower).1)
    exact isSpace_of_lt (lt_of_lt_of_le (by decide) hlow)

theorem isSpace_of_isIdentChar (h : isIdentChar c = true) : isSpace c = false := by
  simp only [isIdentChar, Bool.or_eq_true, decide_eq_true_eq] at h
  rcases h with (halpha | hdigit) | rfl
  · exact isSpace_of_isAlpha halpha
  · exact isSpace_of_isDigit hdigit
  · rfl

theorem isSpace_of_paramDecl (h : paramDecl c = .ok param) : isSpace c = false := by
  unfold paramDecl at h
  split at h <;> first | rfl | cases h

/-- The rest of a text behind a line: nothing, or a newline and more lines. -/
def IsTail (text : List Char) : Prop := ∀ c ∈ text.head?, c = '\n'

/-- What is behind the specification ends it. -/
theorem isSpace_head_comment (line : TableLine) (htail : IsTail text) :
    ∀ c ∈ (line.printComment ++ text).head?, isSpace c = true := by
  cases hcomment : line.comment with
  | none =>
    rw [TableLine.printComment, hcomment]
    intro c hc
    rw [htail c hc]
    rfl
  | some comment =>
    obtain ⟨gap, comment⟩ := comment
    rw [TableLine.printComment, hcomment]
    dsimp only
    rw [List.append_assoc]
    exact isSpace_head_gap (line.isGap_comment gap comment hcomment)

theorem isEmpty_gap_append {gap : List Char} (h : IsGap gap) (text : List Char) :
    (gap ++ text).isEmpty = false := by
  simp [h.1]

theorem extractUnsigned_print (line : TableLine) (text : List Char) :
    IStream.extractUnsigned 65535 none { rest := line.print ++ text } = (some line.id.toNat,
      { rest := line.nameGap ++ (line.name ++ (line.specGap ++ (line.spec ++
          (line.printComment ++ text)))) }) := by
  have hprint : line.print ++ text = Nat.toDigits 10 line.id.toNat ++ (line.nameGap ++
      (line.name ++ (line.specGap ++ (line.spec ++ (line.printComment ++ text))))) := by
    simp [TableLine.print]
  have hend : ∀ c ∈ (line.nameGap ++ (line.name ++ (line.specGap ++ (line.spec ++
      (line.printComment ++ text))))).head?, c.isDigit = false := fun c hc => by
    have hspace := isSpace_head_gap line.isGap_name c hc
    by_contra hdigit
    rw [isSpace_of_isDigit (Bool.eq_true_of_not_eq_false hdigit)] at hspace
    cases hspace
  rw [IStream.extractUnsigned_toDigits (s := { rest := line.print ++ text }) rfl hprint hend
    (Nat.le_of_lt_succ line.id.toNat_lt), isEmpty_gap_append line.isGap_name]

theorem isSpace_of_mem_spec (line : TableLine) : ∀ c ∈ line.spec, isSpace c = false := by
  intro c hc
  obtain ⟨param, hparam⟩ := line.spec_letters c hc
  exact isSpace_of_paramDecl hparam

/-- A record is read as it is printed. -/
theorem readRecord_print (line : TableLine) (htail : IsTail text) :
    readRecord { rest := line.print ++ text } =
      (line.call, { rest := line.printComment ++ text
                    eof := (line.printComment ++ text).isEmpty }) := by
  have hname := IStream.extractString_word (s := { rest := line.nameGap ++ (line.name ++
      (line.specGap ++ (line.spec ++ (line.printComment ++ text)))) }) rfl rfl
    (isSpace_of_mem_gap line.isGap_name)
    (fun c hc => isSpace_of_isIdentChar (line.name_ident c hc)) line.name_ne
    (isSpace_head_gap line.isGap_spec) []
  rw [isEmpty_gap_append line.isGap_spec] at hname
  have hspec := IStream.extractString_word (s := { rest := line.specGap ++ (line.spec ++
      (line.printComment ++ text)) }) rfl rfl (isSpace_of_mem_gap line.isGap_spec)
    (isSpace_of_mem_spec line) line.spec_ne (isSpace_head_comment line htail) []
  simp only [readRecord, extractUnsigned_print, hname, hspec, TableLine.call, Option.map_some,
    UInt16.ofNat_toNat]

theorem numberFits_print (line : TableLine) (htail : IsTail text) :
    NumberFits (line.print ++ text) := by
  by_contra hnumber
  obtain ⟨-, hfail⟩ := failed_readRecord (s := { rest := line.print ++ text }) rfl hnumber
  rw [readRecord_print line htail] at hfail
  cases hfail

theorem restOfText_print (line : TableLine) (htail : IsTail text) :
    restOfText (afterFields (line.print ++ text)) = text := by
  obtain ⟨-, hrest⟩ := settled_readRecord (s := { rest := line.print ++ text }) rfl
    (numberFits_print line htail)
  rw [readRecord_print line htail] at hrest
  rw [← hrest, restOfText, List.dropWhile_append_of_pos, dropWhile_eq_self]
  · exact fun c hc => by simp [htail c hc]
  · intro c hc
    rw [decide_eq_true_eq]
    rintro rfl
    cases hcomment : line.comment with
    | none => simp [TableLine.printComment, hcomment] at hc
    | some comment =>
      obtain ⟨gap, comment⟩ := comment
      have hgap := (line.isGap_comment gap comment hcomment).2 '\n'
      have hline := line.comment_line gap comment hcomment
      simp [TableLine.printComment, hcomment, hline] at hc
      rcases hgap hc with h | h <;> cases h

/-- What a record that is not there is registered as. -/
def spuriousCall : RpcCall := { id := none, function := [], argSpec := [] }

theorem exists_loadLoop_nil : ∃ n, loadLoop n { rest := [] } = some [spuriousCall] :=
  exists_loadLoop_last (.inl rfl) rfl

/-- All records of a table are registered, and one more if a newline is behind the last. -/
theorem exists_loadLoop_printTable (finalNewline : Bool) (line : TableLine)
    (lines : List TableLine) :
    ∃ n, loadLoop n { rest := printTable finalNewline (line :: lines) } =
      some ((line :: lines).map (·.call) ++ if finalNewline then [spuriousCall] else []) := by
  induction lines generalizing line with
  | nil =>
    have htail : IsTail (if finalNewline then ['\n'] else []) := by
      cases finalNewline with
      | false => exact nofun
      | true => exact fun c hc => (Option.some.inj hc).symm
    have hread := readRecord_print line htail
    have hrest := restOfText_print line htail
    cases finalNewline with
    | false =>
      obtain ⟨n, hload⟩ := exists_loadLoop_last (numberFits_print line htail) hrest
      exact ⟨n, by rw [printTable, hload, hread]; rfl⟩
    | true =>
      obtain ⟨m, hnil⟩ := exists_loadLoop_nil
      obtain ⟨n, hload⟩ := exists_loadLoop_cons (numberFits_print line htail) hrest hnil
      exact ⟨n, by rw [printTable, hload, hread]; rfl⟩
  | cons next lines ih =>
    obtain ⟨m, hlines⟩ := ih next
    have htail : IsTail ('\n' :: printTable finalNewline (next :: lines)) :=
      fun c hc => (Option.some.inj hc).symm
    obtain ⟨n, hload⟩ :=
      exists_loadLoop_cons (numberFits_print line htail) (restOfText_print line htail) hlines
    refine ⟨n, ?_⟩
    rw [printTable, hload, readRecord_print line htail]
    · rfl
    · exact List.cons_ne_nil _ _

/-- **Tables are read as they are written** exactly where there is a last line and it ends with the
text. -/
theorem readAsWritten_iff {finalNewline : Bool} {lines : List TableLine} :
    ReadAsWritten finalNewline lines ↔ lines ≠ [] ∧ finalNewline = false := by
  cases lines with
  | nil =>
    refine iff_of_false (fun ⟨n, hload⟩ => ?_) fun h => h.1 rfl
    obtain ⟨m, hnil⟩ := exists_loadLoop_nil
    cases loadLoop_unique hload hnil
  | cons line lines =>
    obtain ⟨m, htable⟩ := exists_loadLoop_printTable finalNewline line lines
    cases finalNewline with
    | false =>
      refine iff_of_true ⟨m, ?_⟩ ⟨List.cons_ne_nil _ _, rfl⟩
      rwa [if_neg Bool.false_ne_true, List.append_nil] at htable
    | true =>
      refine iff_of_false (fun ⟨n, hload⟩ => ?_) nofun
      have hlength := congrArg List.length (loadLoop_unique hload htable)
      simp at hlength

end

/-- `sendChatMessage` of the test campaign's table. -/
def chatLine : TableLine where
  id := 16
  name := "sendChatMessage".toList
  spec := ['L']
  nameGap := ['\t', '\t']
  specGap := ['\t']
  comment := some (['\t'], " Chat Message".toList)
  id_free := by decide
  name_ne := by simp
  name_head := by simp
  name_ident := by simp [isIdentChar]
  spec_ne := by simp
  spec_letters := by simp [paramDecl]
  isGap_name := by simp [IsGap]
  isGap_spec := by simp [IsGap]
  isGap_comment := by simp [IsGap]
  comment_line := by simp

/-- With a newline behind it, a record without an id is registered as well. -/
theorem not_readAsWritten_chatLine : ¬ ReadAsWritten true [chatLine] := by
  intro h
  obtain ⟨n, hload⟩ := h
  obtain ⟨m, htable⟩ := exists_loadLoop_printTable true chatLine []
  have hlength := congrArg List.length (loadLoop_unique hload htable)
  simp at hlength

end NetSiege
