import Mathlib.Tactic.Common

/-!
# Sequence ids (`network.h`, `network.cpp`)

Package sequence ids are 16-bit counters compared around the circle; `ack_mask` records which of
the ids behind the most recent one were received. `seqDistance` is the circular distance the three
functions of `network.cpp` compute with, and `isSeqIdMoreRecent_iff` and `isSeqIdAcknowledged_iff`
read them as statements about it.
-/

namespace NetSiege

/-- `seq_id_t`. -/
abbrev SeqId := UInt16

/-- `MAX_SEQ_ID`. -/
def maxSeqId : SeqId := 0xFFFF

/-- `ack_mask_t`. -/
abbrev AckMask := BitVec 16

/-- `NUM_ACKS = sizeof(ack_mask_t)*8`. -/
def numAcks : Nat := 16

/-- `isSeqIdMoreRecent`. The differences are taken in `int`, after the operands are known to be
in order. -/
def isSeqIdMoreRecent (seqId1 seqId2 : SeqId) : Bool :=
  (seqId1 > seqId2 && seqId1.toNat - seqId2.toNat ≤ maxSeqId.toNat / 2) ||
  (seqId2 > seqId1 && seqId2.toNat - seqId1.toNat > maxSeqId.toNat / 2)

/-- `seqIdDifference`. -/
def seqIdDifference (seqId1 seqId2 : SeqId) : SeqId :=
  if isSeqIdMoreRecent seqId1 seqId2 then seqId1 - seqId2 else seqId2 - seqId1

/-- `isSeqIdAcknowledged`. -/
def isSeqIdAcknowledged (ackMask : AckMask) (remoteSeqId seqId : SeqId) : Bool :=
  if seqId = remoteSeqId then true
  else if isSeqIdMoreRecent seqId remoteSeqId then false
  else
    let diff := seqIdDifference seqId remoteSeqId
    if diff.toNat ≥ numAcks then false
    else ackMask &&& (1#16 <<< (diff.toNat - 1)) != 0#16

/-- How far `s` lies behind `r`, going back around the circle. -/
def seqDistance (r s : SeqId) : Nat := (r - s).toNat

theorem seqDistance_eq (r s : SeqId) :
    seqDistance r s = if s ≤ r then r.toNat - s.toNat else 65536 + r.toNat - s.toNat := by
  have hr := r.toNat_lt
  have hs := s.toNat_lt
  simp only [seqDistance, UInt16.toNat_sub, UInt16.le_iff_toNat_le]
  split <;> omega

theorem seqDistance_lt (r s : SeqId) : seqDistance r s < 65536 := (r - s).toNat_lt

@[simp] theorem seqDistance_self (r : SeqId) : seqDistance r r = 0 := by simp [seqDistance]

/-- The id a given distance behind. -/
theorem eq_sub_seqDistance (r s : SeqId) : s = r - UInt16.ofNat (seqDistance r s) := by
  rw [seqDistance, UInt16.ofNat_toNat]
  grind

theorem seqDistance_inj {r s t : SeqId} : seqDistance r s = seqDistance r t ↔ s = t := by
  constructor
  · intro h
    rw [eq_sub_seqDistance r s, h]
    exact (eq_sub_seqDistance r t).symm
  · rintro rfl
    rfl

theorem seqDistance_eq_zero {r s : SeqId} : seqDistance r s = 0 ↔ s = r := by
  rw [← seqDistance_self r, seqDistance_inj]

/-- One step further back. -/
theorem seqDistance_pred {r s : SeqId} (h : seqDistance r s < 65535) :
    seqDistance r (s - 1) = seqDistance r s + 1 := by
  have hs := s.toNat_lt
  have h1 : (1 : SeqId).toNat = 1 := rfl
  simp only [seqDistance, UInt16.toNat_sub, h1] at *
  omega

/-- Distances from one id subtract. -/
theorem seqDistance_of_le {a b c : SeqId} (h : seqDistance a b ≤ seqDistance a c) :
    seqDistance b c = seqDistance a c - seqDistance a b := by
  have hb := b.toNat_lt
  have hc := c.toNat_lt
  simp only [seqDistance, UInt16.toNat_sub] at *
  omega

/-- `s` is more recent than `r` when it lies at most half the circle ahead. At exactly half, the
numerically smaller of the two is. -/
theorem isSeqIdMoreRecent_iff {s r : SeqId} : isSeqIdMoreRecent s r = true ↔
    1 ≤ seqDistance s r ∧
      (seqDistance s r < 32768 ∨ seqDistance s r = 32768 ∧ s.toNat < r.toNat) := by
  have hr := r.toNat_lt
  have hs := s.toNat_lt
  have hmax : maxSeqId.toNat = 65535 := rfl
  rw [seqDistance_eq]
  simp only [isSeqIdMoreRecent, hmax, gt_iff_lt, Bool.or_eq_true, Bool.and_eq_true,
    decide_eq_true_eq, UInt16.lt_iff_toNat_lt, UInt16.le_iff_toNat_le]
  split <;> omega

theorem seqDistance_of_moreRecent {s r : SeqId} (h : isSeqIdMoreRecent s r = true) :
    1 ≤ seqDistance s r ∧ seqDistance s r ≤ 32768 := by
  have := isSeqIdMoreRecent_iff.1 h
  omega

theorem seqDistance_swap {r s : SeqId} (h : s ≠ r) :
    seqDistance r s + seqDistance s r = 65536 := by
  have hr := r.toNat_lt
  have hs := s.toNat_lt
  have hne : s.toNat ≠ r.toNat := fun e => h (UInt16.toNat_inj.1 e)
  rw [seqDistance_eq, seqDistance_eq]
  simp only [UInt16.le_iff_toNat_le]
  split <;> split <;> omega

/-- An id that is not more recent lies at most half the circle behind. -/
theorem seqDistance_of_not_moreRecent {s r : SeqId} (h : isSeqIdMoreRecent s r = false) :
    seqDistance r s ≤ 32768 := by
  by_cases hsr : s = r
  · simp [hsr]
  · have hswap := seqDistance_swap hsr
    have hlt := seqDistance_lt r s
    have hnot : ¬ isSeqIdMoreRecent s r = true := by simp [h]
    rw [isSeqIdMoreRecent_iff] at hnot
    omega

theorem getLsbD_one_shiftLeft (k i : Nat) :
    (1#16 <<< k).getLsbD i = (decide (i < 16) && decide (i = k)) := by
  rw [BitVec.getLsbD_shiftLeft, BitVec.getLsbD_one, Bool.eq_iff_iff]
  simp only [Bool.and_eq_true, Bool.not_eq_true', decide_eq_true_eq, decide_eq_false_iff_not]
  omega

/-- Masking with one bit tests it. -/
theorem and_one_shiftLeft_ne_zero (m : AckMask) {k : Nat} (hk : k < 16) :
    (m &&& (1#16 <<< k) != 0#16) = m.getLsbD k := by
  have hbits : ∀ i, (m &&& (1#16 <<< k)).getLsbD i = (m.getLsbD i && decide (i = k)) := by
    intro i
    rw [BitVec.getLsbD_and, getLsbD_one_shiftLeft]
    by_cases hi : i = k
    · simp [hi, hk]
    · simp [hi]
  cases hm : m.getLsbD k with
  | false =>
    have hzero : m &&& (1#16 <<< k) = 0#16 := by
      apply BitVec.eq_of_getLsbD_eq
      intro i _
      rw [hbits]
      by_cases hi : i = k
      · simp [hi, hm]
      · simp [hi]
    simp [hzero]
  | true =>
    have hne : m &&& (1#16 <<< k) ≠ 0#16 := by
      intro h0
      have hk' := hbits k
      simp [h0, hm] at hk'
    simpa using hne

/-- Setting a bit that is set already changes nothing. -/
theorem or_one_shiftLeft_eq_iff (m : AckMask) {k : Nat} (hk : k < numAcks) :
    m ||| 1#16 <<< k = m ↔ m.getLsbD k = true := by
  constructor
  · intro h
    rw [← h, BitVec.getLsbD_or, getLsbD_one_shiftLeft]
    simp only [numAcks] at hk
    simp [hk]
  · intro h
    apply BitVec.eq_of_getLsbD_eq
    intro i _
    rw [BitVec.getLsbD_or, getLsbD_one_shiftLeft]
    obtain rfl | hne := eq_or_ne i k
    · rw [h, Bool.true_or]
    · simp [hne]

/-- The reader's bit layout: the most recent id itself, or one of the 15 ids behind it whose bit
is set. -/
theorem isSeqIdAcknowledged_iff {m : AckMask} {r s : SeqId} :
    isSeqIdAcknowledged m r s = true ↔ s = r ∨
      1 ≤ seqDistance r s ∧ seqDistance r s < 16 ∧ m.getLsbD (seqDistance r s - 1) = true := by
  unfold isSeqIdAcknowledged
  by_cases hsr : s = r
  · simp [hsr]
  have hpos : 1 ≤ seqDistance r s := Nat.one_le_iff_ne_zero.2 (mt seqDistance_eq_zero.1 hsr)
  cases hrec : isSeqIdMoreRecent s r with
  | true =>
    have h1 := seqDistance_of_moreRecent hrec
    have h2 := seqDistance_swap hsr
    simp only [hsr, if_false, if_true, false_or]
    simp
    omega
  | false =>
    have hdiff : (seqIdDifference s r).toNat = seqDistance r s := by
      simp [seqIdDifference, hrec, seqDistance]
    simp only [hsr, if_false, false_or, hdiff, numAcks, Bool.false_eq_true]
    by_cases hfar : 16 ≤ seqDistance r s
    · have hnlt : ¬ seqDistance r s < 16 := by omega
      simp [hfar, hnlt]
    · have hlt : seqDistance r s < 16 := by omega
      rw [if_neg hfar, and_one_shiftLeft_ne_zero m (by omega)]
      simp [hpos, hlt]

/-! ## Ids of counters -/

/-- The distance of two counters that are less than a circle apart. -/
theorem seqDistance_ofNat {m n : Nat} (hle : n ≤ m) (hlt : m - n < 65536) :
    seqDistance (UInt16.ofNat m) (UInt16.ofNat n) = m - n := by
  simp only [seqDistance, UInt16.toNat_sub, UInt16.toNat_ofNat']
  omega

/-- The difference is the distance back from the more recent id. -/
theorem toNat_seqIdDifference (r s : SeqId) : (seqIdDifference r s).toNat =
    if isSeqIdMoreRecent r s then seqDistance r s else seqDistance s r := by
  unfold seqIdDifference
  split
  · rfl
  · rfl

/-- Of two different ids exactly one is the more recent. -/
theorem isSeqIdMoreRecent_swap {r s : SeqId} (h : r ≠ s) :
    isSeqIdMoreRecent s r = !isSeqIdMoreRecent r s := by
  have hswap := seqDistance_swap h
  have hrs := seqDistance_lt r s
  have hsr := seqDistance_lt s r
  have hne : r.toNat ≠ s.toNat := fun heq => h (UInt16.toNat_inj.1 heq)
  have hiff : isSeqIdMoreRecent s r = true ↔ ¬ isSeqIdMoreRecent r s = true := by
    rw [isSeqIdMoreRecent_iff, isSeqIdMoreRecent_iff]
    omega
  cases hrecent : isSeqIdMoreRecent r s with
  | true => simpa [hrecent] using hiff
  | false => simpa [hrecent] using hiff

/-- A counter is the more recent of two that are less than half the circle apart, if and only if it
is the greater. -/
theorem isSeqIdMoreRecent_ofNat {m n : Nat} (h : ((m : Int) - n).natAbs ≤ 32767) :
    isSeqIdMoreRecent (UInt16.ofNat m) (UInt16.ofNat n) = true ↔ n < m := by
  rw [isSeqIdMoreRecent_iff]
  obtain hle | hlt := Nat.lt_or_ge m n |>.symm
  · rw [seqDistance_ofNat hle (by omega)]
    omega
  · have hback := seqDistance_ofNat (m := n) (n := m) (Nat.le_of_lt hlt) (by omega)
    have hne : UInt16.ofNat m ≠ UInt16.ofNat n := by
      intro heq
      rw [heq, seqDistance_self] at hback
      omega
    have hswap := seqDistance_swap hne
    omega

theorem toNat_seqIdDifference_ofNat {m n : Nat} (h : ((m : Int) - n).natAbs ≤ 32767) :
    (seqIdDifference (UInt16.ofNat m) (UInt16.ofNat n)).toNat = ((m : Int) - n).natAbs := by
  rw [toNat_seqIdDifference]
  split
  · next hrecent =>
    have hlt := (isSeqIdMoreRecent_ofNat h).1 hrecent
    rw [seqDistance_ofNat (Nat.le_of_lt hlt) (by omega)]
    omega
  · next hrecent =>
    have hle := (isSeqIdMoreRecent_ofNat h).not.1 hrecent
    rw [seqDistance_ofNat (Nat.le_of_not_lt hle) (by omega)]
    omega

/-- **Sequence arithmetic.** Ids of counters less than half the circle apart compare as the counters
do, and differ by their distance; of any two different ids exactly one is the more recent. -/
theorem seqId_arithmetic (m n : Nat) (h : ((m : Int) - n).natAbs ≤ 32767) :
    (isSeqIdMoreRecent (UInt16.ofNat m) (UInt16.ofNat n) = true ↔ n < m) ∧
      (seqIdDifference (UInt16.ofNat m) (UInt16.ofNat n)).toNat = ((m : Int) - n).natAbs ∧
      (seqIdDifference (UInt16.ofNat n) (UInt16.ofNat m)).toNat = ((m : Int) - n).natAbs ∧
      ∀ r s : SeqId, r ≠ s → isSeqIdMoreRecent s r = !isSeqIdMoreRecent r s := by
  have h' : ((n : Int) - m).natAbs ≤ 32767 := by omega
  have hcomm : ((n : Int) - m).natAbs = ((m : Int) - n).natAbs := by omega
  exact ⟨isSeqIdMoreRecent_ofNat h, toNat_seqIdDifference_ofNat h,
    (toNat_seqIdDifference_ofNat h').trans hcomm, fun _ _ => isSeqIdMoreRecent_swap⟩

/-- A counter that has come around the circle, and one just behind it. -/
theorem seqId_arithmetic_around :
    isSeqIdMoreRecent (UInt16.ofNat 65540) (UInt16.ofNat 65530) = true ∧
      (seqIdDifference (UInt16.ofNat 65540) (UInt16.ofNat 65530)).toNat = 10 :=
  have h := seqId_arithmetic 65540 65530 (by decide)
  ⟨h.1.2 (by decide), h.2.1⟩

end NetSiege
