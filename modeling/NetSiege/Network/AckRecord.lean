import Mathlib.Data.List.Induction
import NetSiege.Network.SeqId

/-!
# The receive record of a connection (`UdpConnection::refresh`)

`m_remoteSeqId` and `m_ackMask` summarise which package ids were received. `AckRecord.record` is
the part of `refresh` that updates them. Its three cases are described by what the reader
`isSeqIdAcknowledged` says afterwards: `acknowledges_record_ahead` (a more recent id within the
width of the shift), `record_wide` (a more recent id whose shift count is not below the operand
width) and `acknowledges_record_behind` (an id that is not more recent).
-/

namespace NetSiege

/-- What the language leaves open and the platform decides: the outcome of `m_ackMask <<= n` for a
count not below the 32 bits of the promoted operand, and where a list iterator stands after
`end()` was incremented, as an index into a list of the given length. -/
structure Platform where
  wideShift : AckMask → Nat → AckMask
  pastEnd : Nat → Nat

/-- `m <<= n` on a promoted `uint16_t`. -/
def Platform.shiftLeft (P : Platform) (m : AckMask) (n : Nat) : AckMask :=
  if n < 32 then m <<< n else P.wideShift m n

/-- The shift instruction takes the count modulo 32, and a list is a ring through `end()`. -/
def Platform.x86 : Platform where
  wideShift m n := m <<< (n % 32)
  pastEnd _ := 0

/-- A platform whose shifts by 32 and more leave every bit set. -/
def Platform.allOnes : Platform where
  wideShift _ _ := BitVec.allOnes 16
  pastEnd _ := 0

/-- `m_remoteSeqId` and `m_ackMask`, with their initial values. -/
structure AckRecord where
  remoteSeqId : SeqId := 0
  ackMask : AckMask := 0
deriving DecidableEq, Repr

namespace AckRecord

/-- `UdpConnection::isSeqIdAcknowledged`. -/
def acknowledges (r : AckRecord) (seqId : SeqId) : Bool :=
  isSeqIdAcknowledged r.ackMask r.remoteSeqId seqId

/-- The update of the record in `UdpConnection::refresh`. The comparison `maskOffset-1 < NUM_ACKS`
is one of `int`s; the offset is never 0 there. -/
def record (P : Platform) (r : AckRecord) (remoteSeqId : SeqId) : AckRecord :=
  if isSeqIdMoreRecent remoteSeqId r.remoteSeqId then
    let maskOffset := remoteSeqId - r.remoteSeqId
    -- handle seq id wrap
    let maskOffset := if remoteSeqId < r.remoteSeqId then maxSeqId - maskOffset else maskOffset
    let ackMask := P.shiftLeft r.ackMask maskOffset.toNat
    let ackMask :=
      if maskOffset.toNat - 1 < numAcks then ackMask ||| 1#16 <<< (maskOffset.toNat - 1)
      else ackMask
    { remoteSeqId, ackMask }
  else
    let maskOffset := r.remoteSeqId - remoteSeqId
    -- handle seq id wrap
    let maskOffset := if remoteSeqId > r.remoteSeqId then maxSeqId - maskOffset else maskOffset
    if maskOffset.toNat < numAcks then
      { r with ackMask := r.ackMask ||| 1#16 <<< maskOffset.toNat }
    else r

variable {P : Platform} {r : AckRecord} {s x : SeqId}

theorem acknowledges_iff : r.acknowledges x = true ↔ x = r.remoteSeqId ∨
    1 ≤ seqDistance r.remoteSeqId x ∧ seqDistance r.remoteSeqId x < 16 ∧
      r.ackMask.getLsbD (seqDistance r.remoteSeqId x - 1) = true :=
  isSeqIdAcknowledged_iff

theorem remoteSeqId_record : (r.record P s).remoteSeqId =
    if isSeqIdMoreRecent s r.remoteSeqId then s else r.remoteSeqId := by
  unfold record
  split
  · rfl
  · simp only [apply_ite AckRecord.remoteSeqId, ite_self]

/-- The corrected offset after a wrap: `MAX_SEQ_ID` minus a distance of at most half the circle. -/
theorem toNat_maxSeqId_sub {a b : SeqId} (h : seqDistance a b ≤ 32768) :
    (maxSeqId - (a - b)).toNat = 65535 - seqDistance a b := by
  have hmax : maxSeqId.toNat = 65535 := rfl
  rw [seqDistance] at *
  rw [UInt16.toNat_sub, hmax]
  omega

/-- The mask after a shift by `d` below 32: old bits move up by `d`, bit `d - 1` is the previous
most recent id. -/
def aheadMask (m : AckMask) (d : Nat) : AckMask :=
  m <<< d ||| if d ≤ 16 then 1#16 <<< (d - 1) else 0#16

theorem getLsbD_aheadMask (m : AckMask) (hd : 1 ≤ d) (hi : i < 16) :
    (aheadMask m d).getLsbD i = true ↔ d ≤ i ∧ m.getLsbD (i - d) = true ∨ i + 1 = d := by
  simp only [aheadMask, BitVec.getLsbD_or, BitVec.getLsbD_shiftLeft, Bool.or_eq_true,
    Bool.and_eq_true, Bool.not_eq_true', decide_eq_true_eq, decide_eq_false_iff_not, Nat.not_lt,
    hi, true_and]
  refine or_congr_right ?_
  split
  · rw [getLsbD_one_shiftLeft]
    simp only [Bool.and_eq_true, decide_eq_true_eq]
    omega
  · simp only [BitVec.getLsbD_zero, Bool.false_eq_true, false_iff]
    omega

theorem record_ahead (hrec : isSeqIdMoreRecent s r.remoteSeqId = true)
    (hlt : r.remoteSeqId < s) (hd : seqDistance s r.remoteSeqId < 32) :
    r.record P s = ⟨s, aheadMask r.ackMask (seqDistance s r.remoteSeqId)⟩ := by
  have hnot : ¬ s < r.remoteSeqId := by
    rw [UInt16.lt_iff_toNat_lt] at *
    omega
  have hoff : (s - r.remoteSeqId).toNat = seqDistance s r.remoteSeqId := rfl
  have hpos := (seqDistance_of_moreRecent hrec).1
  simp only [record, hrec, if_true, if_neg hnot, hoff, Platform.shiftLeft, if_pos hd, numAcks,
    aheadMask]
  by_cases h16 : seqDistance s r.remoteSeqId ≤ 16
  · rw [if_pos h16, if_pos (by omega)]
  · rw [if_neg h16, if_neg (by omega), BitVec.or_zero]

/-- After a more recent id, with a shift count the operand allows, the record acknowledges the new
id and what it acknowledged before within the window. -/
theorem acknowledges_record_ahead (hrec : isSeqIdMoreRecent s r.remoteSeqId = true)
    (hlt : r.remoteSeqId < s) (hd : seqDistance s r.remoteSeqId < 32) :
    (r.record P s).acknowledges x = true ↔ x = s ∨
      seqDistance s r.remoteSeqId ≤ seqDistance s x ∧ seqDistance s x < 16 ∧
        r.acknowledges x = true := by
  have hpos := (seqDistance_of_moreRecent hrec).1
  rw [record_ahead hrec hlt hd, acknowledges_iff, acknowledges_iff, ← seqDistance_eq_zero,
    ← seqDistance_inj (r := s) (s := x)]
  generalize hd' : seqDistance s r.remoteSeqId = d at *
  have hrx : d ≤ seqDistance s x → seqDistance r.remoteSeqId x = seqDistance s x - d := by
    rw [← hd']
    exact seqDistance_of_le
  generalize seqDistance s x = D at *
  constructor
  · rintro (h | ⟨h1, h2, hbit⟩)
    · exact .inl h
    rw [getLsbD_aheadMask _ hpos (by omega)] at hbit
    rcases hbit with ⟨hle, hbit⟩ | heq
    · rw [hrx (by omega), show D - 1 - d = D - d - 1 by omega] at *
      exact .inr ⟨by omega, h2, .inr ⟨by omega, by omega, hbit⟩⟩
    · exact .inr ⟨by omega, h2, .inl (by omega)⟩
  · rintro (h | ⟨hle, hlt16, hacked⟩)
    · exact .inl h
    refine .inr ⟨by omega, hlt16, (getLsbD_aheadMask _ hpos (by omega)).2 ?_⟩
    rcases hacked with heq | ⟨h1, _, hbit⟩
    · exact .inr (by omega)
    · rw [hrx hle] at h1 hbit
      rw [show D - d - 1 = D - 1 - d by omega] at hbit
      exact .inl ⟨by omega, hbit⟩

/-- A more recent id after a numeric wrap, or too far ahead, leaves the mask to the platform. -/
theorem record_wide (hrec : isSeqIdMoreRecent s r.remoteSeqId = true)
    (hwide : ¬ (r.remoteSeqId < s ∧ seqDistance s r.remoteSeqId < 32)) :
    ∃ n, 32 ≤ n ∧ r.record P s = ⟨s, P.wideShift r.ackMask n⟩ := by
  have hdist := seqDistance_of_moreRecent hrec
  simp only [record, hrec, if_true]
  by_cases hwrap : s < r.remoteSeqId
  · refine ⟨65535 - seqDistance s r.remoteSeqId, by omega, ?_⟩
    rw [if_pos hwrap, toNat_maxSeqId_sub hdist.2, if_neg (by simp only [numAcks]; omega),
      Platform.shiftLeft, if_neg (by omega)]
  · have hlt : r.remoteSeqId < s := by
      have hne : s ≠ r.remoteSeqId := fun h => by simp [h] at hdist
      exact UInt16.lt_of_le_of_ne (UInt16.not_lt.1 hwrap) (Ne.symm hne)
    have hfar : 32 ≤ seqDistance s r.remoteSeqId := by
      by_contra hnear
      exact hwide ⟨hlt, by omega⟩
    refine ⟨seqDistance s r.remoteSeqId, hfar, ?_⟩
    have hoff : (s - r.remoteSeqId).toNat = seqDistance s r.remoteSeqId := rfl
    rw [if_neg hwrap, hoff, if_neg (by simp only [numAcks]; omega), Platform.shiftLeft,
      if_neg (by omega)]

/-- The mask after an id that is not more recent: the bit of its distance is set, if it is in the
window and no numeric wrap lies between. -/
def behindMask (r : AckRecord) (s : SeqId) : AckMask :=
  if s ≤ r.remoteSeqId ∧ seqDistance r.remoteSeqId s < numAcks then
    r.ackMask ||| 1#16 <<< seqDistance r.remoteSeqId s
  else r.ackMask

theorem record_behind (hrec : isSeqIdMoreRecent s r.remoteSeqId = false) :
    r.record P s = { r with ackMask := r.behindMask s } := by
  have hdist := seqDistance_of_not_moreRecent hrec
  have hoff : (r.remoteSeqId - s).toNat = seqDistance r.remoteSeqId s := rfl
  simp only [record, hrec, Bool.false_eq_true, if_false, behindMask]
  by_cases hwrap : s > r.remoteSeqId
  · have hnle : ¬ s ≤ r.remoteSeqId := UInt16.not_le.2 hwrap
    rw [if_pos hwrap, toNat_maxSeqId_sub hdist, if_neg (by simp only [numAcks]; omega)]
    simp [hnle]
  · have hle : s ≤ r.remoteSeqId := UInt16.not_lt.1 hwrap
    rw [if_neg hwrap, hoff]
    simp only [hle, true_and]
    split <;> rfl

/-- The reader takes the bit for that of the predecessor. -/
theorem acknowledges_record_behind (hrec : isSeqIdMoreRecent s r.remoteSeqId = false) :
    (r.record P s).acknowledges x = true ↔ r.acknowledges x = true ∨
      s ≤ r.remoteSeqId ∧ seqDistance r.remoteSeqId s < 15 ∧
        seqDistance r.remoteSeqId x = seqDistance r.remoteSeqId s + 1 := by
  rw [record_behind hrec, acknowledges_iff, acknowledges_iff]
  dsimp only
  rw [behindMask]
  generalize seqDistance r.remoteSeqId s = d at *
  by_cases hd : s ≤ r.remoteSeqId ∧ d < numAcks
  · have h16 : d < 16 := hd.2
    rw [if_pos hd]
    simp only [hd.1, true_and, BitVec.getLsbD_or, getLsbD_one_shiftLeft, Bool.or_eq_true,
      Bool.and_eq_true, decide_eq_true_eq]
    constructor
    · rintro (h | ⟨h1, h2, hbit | ⟨_, heq⟩⟩)
      · exact .inl (.inl h)
      · exact .inl (.inr ⟨h1, h2, hbit⟩)
      · exact .inr ⟨by omega, by omega⟩
    · rintro ((h | ⟨h1, h2, hbit⟩) | ⟨h15, heq⟩)
      · exact .inl h
      · exact .inr ⟨h1, h2, .inl hbit⟩
      · exact .inr ⟨by omega, by omega, .inr ⟨by omega, by omega⟩⟩
  · have hout : ¬ (s ≤ r.remoteSeqId ∧ d < 15 ∧ seqDistance r.remoteSeqId x = d + 1) := by
      rintro ⟨hle, h15, _⟩
      exact hd ⟨hle, Nat.lt_succ_of_lt h15⟩
    rw [if_neg hd, or_iff_left hout]

/-! ## False acknowledgements -/

/-- Every id the record acknowledges is in the list of received ids. -/
def NoFalseAck (r : AckRecord) (received : List SeqId) : Prop :=
  ∀ x, r.acknowledges x = true → x ∈ received

/-- The step condition under which recording `s` after the ids `received`, the most recent of which
is `newest`, acknowledges nothing else than what was received:
* a more recent id comes with a shift count below 32 (it is numerically larger by less than 32),
  and as the very first id it pushes the bit of the initial `m_remoteSeqId = 0`, which was never
  received, out of the 15 bits that are read;
* with a larger shift count, where the platform decides about the mask, nothing but receipt of all
  15 ids behind `s` helps;
* an id that is not more recent is not the first, and if it is less than 15 behind without a
  numeric wrap, the id before it, whose bit it sets, was received. -/
def MarksOnlyReceived (received : List SeqId) (newest s : SeqId) : Prop :=
  if isSeqIdMoreRecent s newest then
    if newest < s ∧ seqDistance s newest < 32 then
      received = [] → 16 ≤ seqDistance s newest
    else
      ∀ x, 1 ≤ seqDistance s x → seqDistance s x < 16 → x ∈ received
  else
    received ≠ [] ∧ (s ≤ newest → seqDistance newest s < 15 → s - 1 ∈ received)

variable {received : List SeqId}

theorem mem_of_mem_append_singleton (h : x ∈ received ++ [s]) (hx : 1 ≤ seqDistance s x) :
    x ∈ received := by
  rcases List.mem_append.1 h with h | h
  · exact h
  · cases List.mem_singleton.1 h
    simp at hx

/-- The step condition is enough on every platform. -/
theorem NoFalseAck.record (h : received ≠ [] → r.NoFalseAck received)
    (hmarks : MarksOnlyReceived received r.remoteSeqId s) :
    (r.record P s).NoFalseAck (received ++ [s]) := by
  intro x hx
  rw [List.mem_append, List.mem_singleton]
  unfold MarksOnlyReceived at hmarks
  cases hrec : isSeqIdMoreRecent s r.remoteSeqId with
  | true =>
    rw [if_pos hrec] at hmarks
    by_cases hshift : r.remoteSeqId < s ∧ seqDistance s r.remoteSeqId < 32
    · rw [if_pos hshift] at hmarks
      rcases (acknowledges_record_ahead hrec hshift.1 hshift.2).1 hx with rfl | ⟨hle, hlt, hold⟩
      · exact .inr rfl
      by_cases hnil : received = []
      · have := hmarks hnil
        omega
      · exact .inl (h hnil x hold)
    · rw [if_neg hshift] at hmarks
      obtain ⟨n, _, hn⟩ := record_wide (P := P) hrec hshift
      rw [hn, acknowledges_iff] at hx
      rcases hx with rfl | ⟨h1, h16, _⟩
      · exact .inr rfl
      · exact .inl (hmarks x h1 h16)
  | false =>
    rw [if_neg (by simp [hrec])] at hmarks
    rcases (acknowledges_record_behind hrec).1 hx with hold | ⟨hle, hd, hpred⟩
    · exact .inl (h hmarks.1 x hold)
    · have hx' : x = s - 1 := by
        rw [← seqDistance_inj (r := r.remoteSeqId), hpred, seqDistance_pred (by omega)]
      exact .inl (hx' ▸ hmarks.2 hle hd)

/-- The step condition is needed, on the platform that leaves the most bits behind. -/
theorem NoFalseAck.marksOnlyReceived (hfresh : received = [] → r = {})
    (hrecord : (r.record Platform.allOnes s).NoFalseAck (received ++ [s])) :
    MarksOnlyReceived received r.remoteSeqId s := by
  unfold MarksOnlyReceived
  cases hrec : isSeqIdMoreRecent s r.remoteSeqId with
  | true =>
    have hpos := (seqDistance_of_moreRecent hrec).1
    rw [if_pos rfl]
    by_cases hshift : r.remoteSeqId < s ∧ seqDistance s r.remoteSeqId < 32
    · rw [if_pos hshift]
      intro hnil
      by_contra hnear
      -- the initial id 0 is still in the window
      have hzero : (r.record Platform.allOnes s).acknowledges r.remoteSeqId = true :=
        (acknowledges_record_ahead hrec hshift.1 hshift.2).2
          (.inr ⟨Nat.le_refl _, by omega, acknowledges_iff.2 (.inl rfl)⟩)
      have hmem := mem_of_mem_append_singleton (hrecord _ hzero) hpos
      simp [hnil] at hmem
    · rw [if_neg hshift]
      intro x h1 h16
      obtain ⟨n, _, hn⟩ := record_wide (P := Platform.allOnes) hrec hshift
      refine mem_of_mem_append_singleton (hrecord x ?_) h1
      rw [hn, acknowledges_iff]
      have hbit : (BitVec.allOnes 16).getLsbD (seqDistance s x - 1) = true := by
        rw [BitVec.getLsbD_allOnes, decide_eq_true_eq]
        omega
      exact .inr ⟨h1, h16, hbit⟩
  | false =>
    rw [if_neg (by simp)]
    have hpred : s ≤ r.remoteSeqId → seqDistance r.remoteSeqId s < 15 → s - 1 ∈ received := by
      intro hle hd
      have hacked : (r.record Platform.allOnes s).acknowledges (s - 1) = true :=
        (acknowledges_record_behind hrec).2 (.inr ⟨hle, hd, seqDistance_pred (by omega)⟩)
      refine mem_of_mem_append_singleton (hrecord _ hacked) ?_
      rw [seqDistance_pred (by simp)]
      omega
    refine ⟨fun hnil => ?_, hpred⟩
    -- a fresh record claims the id 0, and the first id 0 claims the id before it
    have hr := hfresh hnil
    have hzero : (r.record Platform.allOnes s).acknowledges r.remoteSeqId = true :=
      (acknowledges_record_behind hrec).2 (.inl (acknowledges_iff.2 (.inl rfl)))
    have hmem := hrecord _ hzero
    simp only [hnil, List.nil_append, List.mem_singleton] at hmem
    have := hpred (by simp [hmem]) (by simp [hmem])
    simp [hnil] at this

/-- The most recent of the ids received so far, 0 before the first. -/
def newest (ids : List SeqId) : SeqId :=
  ids.foldl (fun r s => if isSeqIdMoreRecent s r then s else r) 0

/-- The record after a list of incoming ids. -/
def recordAll (P : Platform) (ids : List SeqId) : AckRecord := ids.foldl (record P) {}

theorem remoteSeqId_recordAll (P : Platform) (ids : List SeqId) :
    (recordAll P ids).remoteSeqId = newest ids := by
  induction ids using List.reverseRecOn with
  | nil => rfl
  | append_singleton ids s ih =>
    simp only [recordAll, newest, List.foldl_append, List.foldl_cons, List.foldl_nil] at ih ⊢
    rw [remoteSeqId_record, ih]

theorem recordAll_snoc (P : Platform) (ids : List SeqId) (s : SeqId) :
    recordAll P (ids ++ [s]) = (recordAll P ids).record P s := by
  simp [recordAll]

/-! ## What a history of ids claims -/

/-- Receiving `s` when `newest` is the most recent id lets `x` count as received: a more recent id
does so for itself, and with a shift count of 32 or more perhaps for all 15 ids behind it, and an id
that is less than 15 late for the one before it. -/
def MayMark (newest s x : SeqId) : Prop :=
  if isSeqIdMoreRecent s newest then
    x = s ∨ ¬ (newest < s ∧ seqDistance s newest < 32) ∧ seqDistance s x < 16
  else s ≤ newest ∧ seqDistance newest s < 15 ∧ x = s - 1

/-- After the ids, `x` may count as received: it is the initial 0 or was marked by one of them, and
since then it was one of the last 16 ids up to the most recent one. -/
inductive Claims : List SeqId → SeqId → Prop where
  | initial : Claims [] 0
  | marked {ids : List SeqId} {s x : SeqId} : MayMark (newest ids) s x → Claims (ids ++ [s]) x
  | kept {ids : List SeqId} {s x : SeqId} : Claims ids x →
      seqDistance (newest (ids ++ [s])) x < 16 → Claims (ids ++ [s]) x

theorem seqDistance_of_acknowledges (h : r.acknowledges x = true) :
    seqDistance r.remoteSeqId x < 16 := by
  rcases acknowledges_iff.1 h with rfl | ⟨_, hlt, _⟩
  · simp
  · exact hlt

/-- Distances up to an id in the window add up. -/
theorem seqDistance_add {r s x : SeqId} (hr : seqDistance s r ≤ 32768)
    (hx : seqDistance r x < 16) : seqDistance s x = seqDistance s r + seqDistance r x := by
  have hr' := r.toNat_lt
  have hs' := s.toNat_lt
  have hx' := x.toNat_lt
  simp only [seqDistance, UInt16.toNat_sub] at *
  omega

theorem acknowledges_allOnes_iff (hwide : r.ackMask = BitVec.allOnes 16) :
    r.acknowledges x = true ↔ seqDistance r.remoteSeqId x < 16 := by
  refine ⟨seqDistance_of_acknowledges, fun hlt => acknowledges_iff.2 ?_⟩
  rcases Nat.eq_zero_or_pos (seqDistance r.remoteSeqId x) with hzero | hpos
  · exact .inl (seqDistance_eq_zero.1 hzero)
  · refine .inr ⟨hpos, hlt, ?_⟩
    rw [hwide, BitVec.getLsbD_allOnes, decide_eq_true_eq]
    omega

/-- What a record acknowledges after one more id, it acknowledged before and still has in its
window, or was marked. -/
theorem acknowledges_record_cases (h : (r.record P s).acknowledges x = true) :
    MayMark r.remoteSeqId s x ∨ r.acknowledges x = true := by
  unfold MayMark
  cases hrec : isSeqIdMoreRecent s r.remoteSeqId with
  | true =>
    rw [if_pos rfl]
    by_cases hshift : r.remoteSeqId < s ∧ seqDistance s r.remoteSeqId < 32
    · rcases (acknowledges_record_ahead hrec hshift.1 hshift.2).1 h with heq | ⟨_, _, hold⟩
      · exact .inl (.inl heq)
      · exact .inr hold
    · obtain ⟨n, _, hn⟩ := record_wide (P := P) hrec hshift
      rw [hn] at h
      exact .inl (.inr ⟨hshift, seqDistance_of_acknowledges h⟩)
  | false =>
    rw [if_neg (by simp)]
    rcases (acknowledges_record_behind hrec).1 h with hold | ⟨hle, hd, hpred⟩
    · exact .inr hold
    · refine .inl ⟨hle, hd, ?_⟩
      rw [← seqDistance_inj (r := r.remoteSeqId), hpred, seqDistance_pred (by omega)]

/-- On the platform that leaves the most bits behind, all of this is acknowledged. -/
theorem acknowledges_record_allOnes (h : MayMark r.remoteSeqId s x ∨ r.acknowledges x = true ∧
      seqDistance (r.record Platform.allOnes s).remoteSeqId x < 16) :
    (r.record Platform.allOnes s).acknowledges x = true := by
  rw [remoteSeqId_record] at h
  unfold MayMark at h
  cases hrec : isSeqIdMoreRecent s r.remoteSeqId with
  | true =>
    rw [if_pos hrec, if_pos hrec] at h
    by_cases hshift : r.remoteSeqId < s ∧ seqDistance s r.remoteSeqId < 32
    · refine (acknowledges_record_ahead hrec hshift.1 hshift.2).2 ?_
      rcases h with (heq | ⟨hwide, _⟩) | ⟨hold, hlt⟩
      · exact .inl heq
      · exact absurd hshift hwide
      · have hsum := seqDistance_add (r := r.remoteSeqId) (s := s) (x := x)
          (seqDistance_of_moreRecent hrec).2 (seqDistance_of_acknowledges hold)
        exact .inr ⟨by omega, hlt, hold⟩
    · obtain ⟨n, _, hn⟩ := record_wide (P := Platform.allOnes) hrec hshift
      rw [hn]
      refine (acknowledges_allOnes_iff rfl).2 ?_
      rcases h with (rfl | ⟨_, hlt⟩) | ⟨_, hlt⟩
      · simp
      · exact hlt
      · exact hlt
  | false =>
    rw [hrec, if_neg (by simp), if_neg (by simp)] at h
    refine (acknowledges_record_behind hrec).2 ?_
    rcases h with ⟨hle, hd, rfl⟩ | ⟨hold, _⟩
    · exact .inr ⟨hle, hd, seqDistance_pred (by omega)⟩
    · exact .inl hold

theorem Claims.of_acknowledges {ids : List SeqId}
    (h : (recordAll P ids).acknowledges x = true) : Claims ids x := by
  induction ids using List.reverseRecOn with
  | nil =>
    have hx : x = 0 := by
      rcases acknowledges_iff.1 h with heq | ⟨_, _, hbit⟩
      · exact heq
      · simp [recordAll] at hbit
    exact hx ▸ .initial
  | append_singleton ids s ih =>
    have hwindow := seqDistance_of_acknowledges h
    rw [remoteSeqId_recordAll] at hwindow
    rw [recordAll_snoc] at h
    rcases acknowledges_record_cases h with hmark | hold
    · rw [remoteSeqId_recordAll] at hmark
      exact .marked hmark
    · exact .kept (ih hold) hwindow

theorem Claims.acknowledges {ids : List SeqId} (h : Claims ids x) :
    (recordAll .allOnes ids).acknowledges x = true := by
  induction h with
  | initial => exact acknowledges_iff.2 (.inl rfl)
  | @marked ids s x hmark =>
    rw [recordAll_snoc]
    rw [← remoteSeqId_recordAll .allOnes ids] at hmark
    exact acknowledges_record_allOnes (.inl hmark)
  | @kept ids s x _ hwindow ih =>
    rw [← remoteSeqId_recordAll .allOnes, recordAll_snoc] at hwindow
    rw [recordAll_snoc]
    exact acknowledges_record_allOnes (.inr ⟨ih, hwindow⟩)

/-- **What a history claims** is what the record of some platform acknowledges after it. -/
theorem claims_iff {ids : List SeqId} :
    Claims ids x ↔ ∃ P, (recordAll P ids).acknowledges x = true :=
  ⟨fun h => ⟨.allOnes, h.acknowledges⟩, fun ⟨_, h⟩ => .of_acknowledges h⟩

/-! ## Lists without false acknowledgements -/

/-- No record along the list acknowledges falsely, whatever the platform, if and only if every id
of the list meets the step condition. -/
theorem noFalseAck_recordAll_iff {ids : List SeqId} :
    (∀ P pre, pre <+: ids → pre ≠ [] → (recordAll P pre).NoFalseAck pre) ↔
      ∀ pre s, pre ++ [s] <+: ids → MarksOnlyReceived pre (newest pre) s := by
  constructor
  · intro H pre s hpre
    have hlast := H .allOnes (pre ++ [s]) hpre (by simp)
    rw [recordAll_snoc] at hlast
    rw [← remoteSeqId_recordAll .allOnes pre]
    refine NoFalseAck.marksOnlyReceived (fun hnil => ?_) hlast
    rw [hnil]
    rfl
  · intro H P pre
    induction pre using List.reverseRecOn with
    | nil => exact fun _ hne => absurd rfl hne
    | append_singleton pre s ih =>
      intro hpre _
      have hstep := H pre s hpre
      rw [← remoteSeqId_recordAll P pre] at hstep
      rw [recordAll_snoc]
      exact NoFalseAck.record (ih ((List.prefix_append _ _).trans hpre)) hstep

end AckRecord

end NetSiege
