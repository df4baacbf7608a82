import Mathlib.Data.Char
import Mathlib.Data.List.TakeWhile

/-!
# Formatted input from a text

An `IStream` is what is left of a text, with the two flags of `std::istream`. The extractions set
them as the standard says: the sentry fails at the end of the text, a number that is none fails
without reading on, and a stream that is not good gives nothing and is not read. `Settled` is what
holds between extractions none of which failed before the end.
-/

namespace Lib

/-- `isspace` of the classic locale. -/
def isSpace (c : Char) : Bool := c = ' ' || '\t' ≤ c && c ≤ '\r'

section
variable {text word : List Char}

/-- All blanks are among the first characters. -/
theorem isSpace_of_lt (h : ' ' < c) : isSpace c = false := by
  have hle : ¬ c ≤ '\r' := fun hle => absurd (lt_of_lt_of_le h hle) (by decide)
  have hne : c ≠ ' ' := by
    rintro rfl
    exact absurd h (by decide)
  simp [isSpace, hle, hne]

theorem isSpace_of_isDigit (h : c.isDigit = true) : isSpace c = false := by
  simp only [Char.isDigit, Bool.and_eq_true, decide_eq_true_eq] at h
  exact isSpace_of_lt (lt_of_lt_of_le (by decide) (Char.le_def.2 h.1))

theorem not_of_dropWhile_eq_cons {p : Char → Bool} (h : text.dropWhile p = c :: word) :
    p c = false := by
  have hne : text.dropWhile p ≠ [] := by rw [h]; exact List.cons_ne_nil _ _
  have hhead := List.head_dropWhile_not p hne
  simpa only [h, List.head_cons] using hhead

theorem dropWhile_eq_self {p : Char → Bool} (h : ∀ c ∈ text.head?, p c = false) :
    text.dropWhile p = text := by
  cases text with
  | nil => rfl
  | cons c text => simp [h c rfl]

theorem takeWhile_eq_nil {p : Char → Bool} (h : ∀ c ∈ text.head?, p c = false) :
    text.takeWhile p = [] := by
  cases text with
  | nil => rfl
  | cons c text => simp [h c rfl]

end

/-- `text` without the blanks before it and the word behind them. -/
def afterWord (text : List Char) : List Char := (text.dropWhile isSpace).dropWhile (!isSpace ·)

/-- The sign a number may have, and what is behind it. -/
def splitSign : List Char → Bool × List Char
  | '-' :: text => (true, text)
  | '+' :: text => (false, text)
  | text => (false, text)

/-- The digits of the number that `text` begins with, and what is behind them. -/
def splitNumber (text : List Char) : List Char × List Char :=
  let field := (splitSign (text.dropWhile isSpace)).2
  (field.takeWhile Char.isDigit, field.dropWhile Char.isDigit)

/-- `std::istream`: the text not read yet, `eofbit` and `failbit`. -/
structure IStream where
  rest : List Char
  eof : Bool := false
  fail : Bool := false
deriving DecidableEq

namespace IStream

variable {s : IStream} {text word blanks : List Char}

def good (s : IStream) : Bool := !s.eof && !s.fail

/-- The sentry of a formatted extraction. -/
def sentry (s : IStream) : IStream :=
  if s.good then
    let rest := s.rest.dropWhile isSpace
    { rest, eof := rest.isEmpty, fail := rest.isEmpty }
  else { s with fail := true }

/-- `get()`, `none` for `EOF`. -/
def get (s : IStream) : Option Char × IStream :=
  if s.good then
    match s.rest with
    | [] => (none, { s with eof := true, fail := true })
    | c :: rest => (some c, { s with rest })
  else (none, { s with fail := true })

/-- `>>` into a string that holds `old`. -/
def extractString (old : List Char) (s : IStream) : List Char × IStream :=
  let s := s.sentry
  if s.good then
    let word := s.rest.takeWhile (!isSpace ·)
    let rest := s.rest.dropWhile (!isSpace ·)
    (word, { rest, eof := rest.isEmpty, fail := word.isEmpty })
  else (old, s)

/-- `>>` into an unsigned integer up to `max` that holds `old`, `none` for an indeterminate
value. -/
def extractUnsigned (max : Nat) (old : Option Nat) (s : IStream) : Option Nat × IStream :=
  let s := s.sentry
  if s.good then
    let (negative, field) := splitSign s.rest
    let digits := field.takeWhile Char.isDigit
    let rest := field.dropWhile Char.isDigit
    let n := Nat.ofDigitChars 10 digits 0
    let value := if max < n then max else if negative then (max + 1 - n) % (max + 1) else n
    (some value, { rest, eof := rest.isEmpty, fail := digits.isEmpty || decide (max < n) })
  else (old, s)

/-- The stream is good, or has come to the end of the text and knows it. -/
def Settled (s : IStream) : Prop := s.good = true ∨ s.eof = true ∧ s.rest = []

theorem good_iff : s.good = true ↔ s.eof = false ∧ s.fail = false := by
  simp [good]

theorem eq_of_good (h : s.good = true) : s = { rest := s.rest } := by
  obtain ⟨rest, eof, fail⟩ := s
  obtain ⟨rfl, rfl⟩ := good_iff.1 h
  rfl

/-- A stream that is not good stays so, unread. -/
theorem sentry_of_not_good (h : s.good = false) : s.sentry = { s with fail := true } := by
  rw [sentry, h]
  rfl

theorem extractString_of_not_good (h : s.good = false) (old : List Char) :
    s.extractString old = (old, { s with fail := true }) := by
  rw [extractString, sentry_of_not_good h]
  simp [good]

theorem get_of_not_good (h : s.good = false) : s.get = (none, { s with fail := true }) := by
  rw [get, h]
  rfl

/-- A word is read up to the next blank. -/
theorem extractString_of_good (h : s.good = true) (old : List Char) :
    s.extractString old =
      if s.rest.dropWhile isSpace = [] then (old, { rest := [], eof := true, fail := true })
      else ((s.rest.dropWhile isSpace).takeWhile (!isSpace ·),
        { rest := afterWord s.rest, eof := (afterWord s.rest).isEmpty }) := by
  rw [extractString, sentry, if_pos h]
  cases hrest : s.rest.dropWhile isSpace with
  | nil => simp [good]
  | cons c rest =>
    have hc := not_of_dropWhile_eq_cons hrest
    simp [good, hc, afterWord, hrest]

/-- Between words a stream does not fail before the end of the text. -/
theorem settled_extractString (h : s.Settled) (old : List Char) :
    (s.extractString old).2.Settled ∧ (s.extractString old).2.rest = afterWord s.rest := by
  rcases h with hgood | ⟨heof, hrest⟩
  · rw [extractString_of_good hgood]
    split
    · next hnil => exact ⟨.inr ⟨rfl, rfl⟩, by rw [afterWord, hnil]; rfl⟩
    · refine ⟨?_, rfl⟩
      cases hafter : afterWord s.rest with
      | nil => exact .inr ⟨rfl, rfl⟩
      | cons c rest => exact .inl rfl
  · rw [extractString_of_not_good (by simp [good, heof])]
    exact ⟨.inr ⟨heof, hrest⟩, by rw [hrest]; rfl⟩

/-- A number is read up to the first character that is no digit. -/
theorem extractUnsigned_of_good (h : s.good = true) (max : Nat) (old : Option Nat) :
    (s.extractUnsigned max old).2.rest = (splitNumber s.rest).2 ∧
      (s.extractUnsigned max old).2.eof = (splitNumber s.rest).2.isEmpty ∧
      (s.extractUnsigned max old).2.fail = ((splitNumber s.rest).1.isEmpty ||
        decide (max < Nat.ofDigitChars 10 (splitNumber s.rest).1 0)) := by
  rw [extractUnsigned, sentry, if_pos h, splitNumber]
  cases hrest : s.rest.dropWhile isSpace with
  | nil => simp [good, splitSign]
  | cons c rest => simp [good]

/-! ## What was printed -/

/-- A word between blanks. -/
theorem extractString_word (hgood : s.good = true) (hrest : s.rest = blanks ++ (word ++ text))
    (hblanks : ∀ c ∈ blanks, isSpace c = true) (hword : ∀ c ∈ word, isSpace c = false)
    (hne : word ≠ []) (hnext : ∀ c ∈ text.head?, isSpace c = true) (old : List Char) :
    s.extractString old = (word, { rest := text, eof := text.isEmpty }) := by
  have hskip : s.rest.dropWhile isSpace = word ++ text := by
    rw [hrest, List.dropWhile_append_of_pos hblanks]
    refine dropWhile_eq_self fun c hc => ?_
    obtain ⟨d, word, rfl⟩ := List.exists_cons_of_ne_nil hne
    obtain rfl : d = c := Option.some.inj hc
    exact hword d List.mem_cons_self
  have hword' : ∀ c ∈ word, (!isSpace c) = true := fun c hc => by simp [hword c hc]
  have hnext' : ∀ c ∈ text.head?, (!isSpace c) = false := fun c hc => by simp [hnext c hc]
  have hafter : afterWord s.rest = text := by
    rw [afterWord, hskip, List.dropWhile_append_of_pos hword', dropWhile_eq_self hnext']
  rw [extractString_of_good hgood, if_neg (by rw [hskip]; simp [hne]), hafter, hskip,
    List.takeWhile_append_of_pos hword', takeWhile_eq_nil hnext', List.append_nil]

/-- A number in decimal. -/
theorem extractUnsigned_toDigits {n max : Nat} (hgood : s.good = true)
    (hrest : s.rest = Nat.toDigits 10 n ++ text)
    (hnext : ∀ c ∈ text.head?, c.isDigit = false) (hn : n ≤ max) (old : Option Nat) :
    s.extractUnsigned max old = (some n, { rest := text, eof := text.isEmpty }) := by
  have hdigits : ∀ c ∈ Nat.toDigits 10 n, c.isDigit = true := fun c hc =>
    Nat.isDigit_of_mem_toDigits (by decide) (by decide) hc
  obtain ⟨d, ds, hcons⟩ := List.exists_cons_of_ne_nil (Nat.toDigits_ne_nil (n := n) (b := 10))
  have hd : d.isDigit = true := hdigits d (by rw [hcons]; exact List.mem_cons_self)
  have hskip : s.rest.dropWhile isSpace = s.rest := by
    refine dropWhile_eq_self fun c hc => ?_
    rw [hrest, hcons] at hc
    cases hc
    exact isSpace_of_isDigit hd
  have hsign : splitSign s.rest = (false, s.rest) := by
    rw [hrest, hcons, List.cons_append]
    unfold splitSign
    split
    · next h => cases h; cases hd
    · next h => cases h; cases hd
    · rfl
  have htake : s.rest.takeWhile Char.isDigit = Nat.toDigits 10 n := by
    rw [hrest, List.takeWhile_append_of_pos hdigits, takeWhile_eq_nil hnext, List.append_nil]
  have hdrop : s.rest.dropWhile Char.isDigit = text := by
    rw [hrest, List.dropWhile_append_of_pos hdigits, dropWhile_eq_self hnext]
  have hnonempty : s.rest.isEmpty = false := by rw [hrest, hcons]; rfl
  have hmax : ¬ max < n := Nat.not_lt.2 hn
  simp only [extractUnsigned, sentry, hgood, if_true, hskip, hnonempty]
  simp [good, hsign, htake, hdrop, hmax]

end IStream

end Lib
