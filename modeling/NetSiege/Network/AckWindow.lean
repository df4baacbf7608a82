import Mathlib.Data.List.Chain
import NetSiege.Network.UdpConnection

/-!
# The window of the receive record (`udpconnection.h`, `network.cpp`)

What `refresh` and `isSeqIdAcknowledged` agree on. `received_acknowledged_iff` says when every
received id in the window is acknowledged, `wrapInvisible_iff` when a record moved around the circle
behaves the same, and `stream_recorded` that a stream which arrives in order, with gaps, is
recorded exactly.
-/

namespace NetSiege

namespace AckRecord

variable {P : Platform} {r : AckRecord} {received : List SeqId} {s x k : SeqId}

/-! ## Received ids stay acknowledged -/

/-- The most recent of the ids received so far. -/
def mostRecent : List SeqId → Option SeqId
  | [] => none
  | s :: ids => some (ids.foldl (fun r s => if isSeqIdMoreRecent s r then s else r) s)

/-- Every received id that is at most `NUM_ACKS` behind the most recent one is acknowledged. -/
def AcknowledgesReceived (r : AckRecord) (received : List SeqId) : Prop :=
  ∀ m, mostRecent received = some m → ∀ x ∈ received, seqDistance m x ≤ numAcks →
    r.acknowledges x = true

/-- The step condition under which recording `s` after the ids `received` leaves all received ids in
the window acknowledged:
* an id more recent than `m_remoteSeqId` comes without a numeric wrap and with a shift count below
  32, no received id lies between the two, and none exactly 16 behind `s`; or there is no received
  id in the window of `s`;
* an id that is not more recent is acknowledged already, or is not the first and out of the
  window. -/
def StaysInWindow (r : AckRecord) (received : List SeqId) (s : SeqId) : Prop :=
  if isSeqIdMoreRecent s r.remoteSeqId then
    ∀ x ∈ received, seqDistance s x ≤ numAcks → x = s ∨
      (r.remoteSeqId < s ∧ seqDistance s r.remoteSeqId < 32) ∧
        seqDistance s r.remoteSeqId ≤ seqDistance s x ∧ seqDistance s x < numAcks
  else r.acknowledges s = true ∨ received ≠ [] ∧ numAcks < seqDistance r.remoteSeqId s

/-- The received ids in the window of `m_remoteSeqId` are acknowledged. -/
def CoversWindow (r : AckRecord) (received : List SeqId) : Prop :=
  ∀ x ∈ received, seqDistance r.remoteSeqId x ≤ numAcks → r.acknowledges x = true

theorem CoversWindow.record (h : r.CoversWindow received) (hs : r.StaysInWindow received s) :
    (r.record P s).CoversWindow (received ++ [s]) := by
  intro x hx hdist
  rw [List.mem_append, List.mem_singleton] at hx
  rw [remoteSeqId_record] at hdist
  unfold StaysInWindow at hs
  cases hrec : isSeqIdMoreRecent s r.remoteSeqId with
  | true =>
    rw [if_pos hrec] at hs hdist
    have hself : (r.record P s).acknowledges s = true :=
      acknowledges_iff.2 (.inl (by rw [remoteSeqId_record, if_pos hrec]))
    obtain hx | rfl := hx
    · obtain rfl | ⟨⟨hlt, hshift⟩, hle, hnear⟩ := hs x hx hdist
      · exact hself
      · have hold : r.acknowledges x = true := by
          refine h x hx ?_
          rw [seqDistance_of_le hle]
          omega
        exact (acknowledges_record_ahead hrec hlt hshift).2 (.inr ⟨hle, hnear, hold⟩)
    · exact hself
  | false =>
    rw [if_neg (by simp [hrec])] at hs hdist
    refine (acknowledges_record_behind hrec).2 (.inl ?_)
    obtain hx | rfl := hx
    · exact h x hx hdist
    · obtain hacked | ⟨_, hfar⟩ := hs
      · exact hacked
      · omega

/-- A platform whose shifts by 32 and more clear the mask. -/
def clearing : Platform where
  wideShift _ _ := 0
  pastEnd _ := 0

theorem StaysInWindow.of_ahead (hrec : isSeqIdMoreRecent s r.remoteSeqId = true)
    (h : (r.record P s).CoversWindow (received ++ [s]))
    (hclear : ∃ r0 : AckRecord, r0.remoteSeqId = r.remoteSeqId ∧
      (r0.record clearing s).CoversWindow (received ++ [s])) : r.StaysInWindow received s := by
  rw [StaysInWindow, if_pos hrec]
  intro x hx hdist
  have hx' : x ∈ received ++ [s] := List.mem_append_left _ hx
  by_cases hshift : r.remoteSeqId < s ∧ seqDistance s r.remoteSeqId < 32
  · have hacked := h x hx' (by rw [remoteSeqId_record, if_pos hrec]; exact hdist)
    obtain rfl | ⟨hle, hnear, _⟩ :=
      (acknowledges_record_ahead hrec hshift.1 hshift.2).1 hacked
    · exact .inl rfl
    · exact .inr ⟨hshift, hle, hnear⟩
  · obtain ⟨r0, hr0, h0⟩ := hclear
    rw [← hr0] at hrec hshift
    have hacked := h0 x hx' (by rw [remoteSeqId_record, if_pos hrec]; exact hdist)
    obtain ⟨n, _, hn⟩ := record_wide (P := clearing) hrec hshift
    rw [hn, acknowledges_iff] at hacked
    obtain rfl | ⟨_, _, hbit⟩ := hacked
    · exact .inl rfl
    · simp [clearing] at hbit

theorem StaysInWindow.of_behind (hrec : isSeqIdMoreRecent s r.remoteSeqId = false)
    (h : seqDistance r.remoteSeqId s ≤ numAcks ∨ received = [] →
      (r.record P s).acknowledges s = true) : r.StaysInWindow received s := by
  rw [StaysInWindow, if_neg (by simp [hrec])]
  by_cases hnear : seqDistance r.remoteSeqId s ≤ numAcks ∨ received = []
  · obtain hacked | ⟨_, _, hself⟩ := (acknowledges_record_behind hrec).1 (h hnear)
    · exact .inl hacked
    · omega
  · rw [not_or, Nat.not_le] at hnear
    exact .inr ⟨hnear.2, hnear.1⟩

/-- The first id becomes the most recent one. -/
theorem StaysInWindow.newest_eq (h : ({} : AckRecord).StaysInWindow [] s) : newest [s] = s := by
  change (if isSeqIdMoreRecent s 0 then s else 0) = s
  rw [StaysInWindow] at h
  split
  · rfl
  · next hrec =>
    rw [if_neg hrec] at h
    obtain hacked | ⟨hne, _⟩ := h
    · obtain h0 | ⟨_, _, hbit⟩ := acknowledges_iff.1 hacked
      · exact h0.symm
      · simp at hbit
    · exact absurd rfl hne

theorem mostRecent_eq {ids : List SeqId} (h : newest [s] = s) :
    mostRecent (s :: ids) = some (newest (s :: ids)) := by
  have hfold : newest (s :: ids) =
      ids.foldl (fun r s => if isSeqIdMoreRecent s r then s else r) (newest [s]) := rfl
  rw [hfold, h]
  rfl

theorem acknowledgesReceived_iff {ids : List SeqId} (hne : ids ≠ [])
    (h : ∀ s, ids.head? = some s → newest [s] = s) :
    (recordAll P ids).AcknowledgesReceived ids ↔ (recordAll P ids).CoversWindow ids := by
  obtain ⟨s, rest, rfl⟩ := List.exists_cons_of_ne_nil hne
  simp only [AcknowledgesReceived, CoversWindow, mostRecent_eq (h s rfl), Option.some.injEq,
    remoteSeqId_recordAll, forall_eq']

theorem newest_head {ids : List SeqId}
    (h : ∀ P pre s, pre ++ [s] <+: ids → (recordAll P pre).StaysInWindow pre s)
    (hs : ids.head? = some s) : newest [s] = s := by
  obtain ⟨rest, rfl⟩ := List.head?_eq_some_iff.1 hs
  exact (h .x86 [] s ⟨rest, rfl⟩).newest_eq

theorem staysInWindow_first (h : (recordAll P [s]).AcknowledgesReceived [s]) :
    ({} : AckRecord).StaysInWindow [] s := by
  cases hrec : isSeqIdMoreRecent s ({} : AckRecord).remoteSeqId with
  | true =>
    rw [StaysInWindow, if_pos hrec]
    exact fun x hx => absurd hx List.not_mem_nil
  | false =>
    apply StaysInWindow.of_behind (P := P) hrec
    intro _
    exact h s rfl s (List.mem_singleton_self s) (by simp)

/-- A step behind which the window is covered on every platform. -/
theorem staysInWindow_of_covers {ids : List SeqId} (hne : ids ≠ [])
    (h : ∀ P, ((recordAll P ids).record P s).CoversWindow (ids ++ [s])) (P : Platform) :
    (recordAll P ids).StaysInWindow ids s := by
  cases hrec : isSeqIdMoreRecent s (recordAll P ids).remoteSeqId with
  | true =>
    refine .of_ahead hrec (h P) ⟨recordAll clearing ids, ?_, h clearing⟩
    rw [remoteSeqId_recordAll, remoteSeqId_recordAll]
  | false =>
    refine .of_behind (P := P) hrec fun hnear => ?_
    apply h P s (List.mem_append_right _ (List.mem_singleton_self s))
    rw [remoteSeqId_record, if_neg (by simp [hrec])]
    exact hnear.resolve_right hne

/-- Steps that meet the condition keep the window covered. -/
theorem coversWindow_recordAll {ids pre : List SeqId}
    (h : ∀ P pre s, pre ++ [s] <+: ids → (recordAll P pre).StaysInWindow pre s)
    (hpre : pre <+: ids) : (recordAll P pre).CoversWindow pre := by
  induction pre using List.reverseRecOn with
  | nil => exact fun x hx => absurd hx List.not_mem_nil
  | append_singleton pre s ih =>
    rw [recordAll_snoc]
    exact (ih ((List.prefix_append _ _).trans hpre)).record (h P pre s hpre)

/-- Every record along the list acknowledges the received ids in its window, whatever the platform,
if and only if every id of the list meets the step condition. -/
theorem acknowledgesReceived_recordAll_iff {ids : List SeqId} :
    (∀ P pre, pre <+: ids → (recordAll P pre).AcknowledgesReceived pre) ↔
      ∀ P pre s, pre ++ [s] <+: ids → (recordAll P pre).StaysInWindow pre s := by
  refine ⟨fun H P pre s hpre => ?_, fun H P pre hpre => ?_⟩
  · cases pre with
    | nil => exact staysInWindow_first (H P [s] hpre)
    | cons a rest =>
      have ha : newest [a] = a :=
        (staysInWindow_first (H P [a] (.trans ⟨rest ++ [s], rfl⟩ hpre))).newest_eq
      refine staysInWindow_of_covers (List.cons_ne_nil a rest) (fun P => ?_) P
      rw [← recordAll_snoc]
      refine (acknowledgesReceived_iff (by simp) fun b hb => ?_).1 (H P _ hpre)
      cases hb
      exact ha
  · have hcovers := coversWindow_recordAll (P := P) H hpre
    cases pre with
    | nil =>
      intro m hm
      cases hm
    | cons a rest =>
      refine (acknowledgesReceived_iff (by simp) fun b hb => newest_head H ?_).2 hcovers
      obtain ⟨post, rfl⟩ := hpre
      exact hb

/-! ## Moving around the circle -/

/-- The counts of the shifts in `UdpConnection::refresh`, in their order. -/
def shiftCounts (r : AckRecord) (remoteSeqId : SeqId) : List Nat :=
  if isSeqIdMoreRecent remoteSeqId r.remoteSeqId then
    let maskOffset := remoteSeqId - r.remoteSeqId
    let maskOffset := if remoteSeqId < r.remoteSeqId then maxSeqId - maskOffset else maskOffset
    if maskOffset.toNat - 1 < numAcks then [maskOffset.toNat, maskOffset.toNat - 1]
    else [maskOffset.toNat]
  else
    let maskOffset := r.remoteSeqId - remoteSeqId
    let maskOffset := if remoteSeqId > r.remoteSeqId then maxSeqId - maskOffset else maskOffset
    if maskOffset.toNat < numAcks then [maskOffset.toNat] else []

/-- The platform has no say where all counts are below 32. -/
theorem record_eq_of_shiftCounts {P' : Platform} (h : ∀ n ∈ r.shiftCounts s, n < 32) :
    r.record P s = r.record P' s := by
  cases hrec : isSeqIdMoreRecent s r.remoteSeqId with
  | true =>
    simp only [shiftCounts, record, hrec, if_true] at h ⊢
    generalize (if s < r.remoteSeqId then maxSeqId - (s - r.remoteSeqId)
      else s - r.remoteSeqId).toNat = n at h ⊢
    have hlt : n < 32 := h n (by split <;> exact List.mem_cons_self)
    simp only [Platform.shiftLeft, if_pos hlt]
  | false => rw [record_behind hrec, record_behind hrec]

/-- The record moved on by `k` around the circle. -/
def rotate (r : AckRecord) (k : SeqId) : AckRecord := { r with remoteSeqId := r.remoteSeqId + k }

theorem seqDistance_rotate : seqDistance (s + k) (x + k) = seqDistance s x := by
  rw [seqDistance, seqDistance]
  congr 1
  grind

theorem isSeqIdMoreRecent_rotate (h : seqDistance s x ≠ 32768) :
    isSeqIdMoreRecent (s + k) (x + k) = isSeqIdMoreRecent s x := by
  rw [Bool.eq_iff_iff, isSeqIdMoreRecent_iff, isSeqIdMoreRecent_iff, seqDistance_rotate]
  omega

/-- The counts for a more recent id are below 32 only without a numeric wrap and for a distance
below 32. -/
theorem shiftCounts_ahead (hrec : isSeqIdMoreRecent s r.remoteSeqId = true) :
    (∀ n ∈ r.shiftCounts s, n < 32) ↔
      r.remoteSeqId < s ∧ seqDistance s r.remoteSeqId < 32 := by
  have hdist := seqDistance_of_moreRecent hrec
  have hoff : (s - r.remoteSeqId).toNat = seqDistance s r.remoteSeqId := rfl
  have hne : s ≠ r.remoteSeqId := fun h => by simp [h] at hdist
  simp only [shiftCounts, hrec, if_true]
  by_cases hwrap : s < r.remoteSeqId
  · have hnot : ¬ r.remoteSeqId < s := UInt16.lt_asymm hwrap
    rw [if_pos hwrap, toNat_maxSeqId_sub hdist.2, if_neg (by simp only [numAcks]; omega)]
    simp only [hnot, false_and, iff_false, List.mem_singleton, forall_eq]
    omega
  · have hlt : r.remoteSeqId < s := UInt16.lt_of_le_of_ne (UInt16.not_lt.1 hwrap) (Ne.symm hne)
    rw [if_neg hwrap, hoff]
    simp only [hlt, true_and]
    constructor
    · intro H
      exact H _ (by split <;> exact List.mem_cons_self)
    · intro h n hn
      split at hn
      · simp only [List.mem_cons, List.not_mem_nil, or_false] at hn
        omega
      · rw [List.mem_singleton] at hn
        omega

theorem shiftCounts_behind (hrec : isSeqIdMoreRecent s r.remoteSeqId = false) :
    ∀ n ∈ r.shiftCounts s, n < 32 := by
  simp only [shiftCounts, hrec, Bool.false_eq_true, if_false]
  generalize (if s > r.remoteSeqId then maxSeqId - (r.remoteSeqId - s)
    else r.remoteSeqId - s).toNat = d
  intro n hn
  split at hn
  · next hlt =>
    rw [List.mem_singleton] at hn
    simp only [numAcks] at hlt
    omega
  · cases hn

/-- How far two ids are apart, the shorter way around the circle. -/
def circularDistance (r s : SeqId) : Nat := min (seqDistance r s) (seqDistance s r)

theorem ne_half_of_circularDistance (h1 : 1 ≤ circularDistance x s)
    (hd : circularDistance x s < 2 ^ 15) : seqDistance s x ≠ 32768 := by
  rw [circularDistance] at h1 hd
  have hne : s ≠ x := by
    rintro rfl
    simp at h1
  have hswap := seqDistance_swap hne
  omega

/-- The condition under which a record does not notice that it and the incoming id `s` are moved on
by `k`: a more recent id is numerically larger by less than 32 before and after; an id that is not
more recent is numerically smaller before and after or neither, or has no bit, or its bit is set. -/
def KeepsOrder (r : AckRecord) (s k : SeqId) : Prop :=
  if isSeqIdMoreRecent s r.remoteSeqId then
    (r.remoteSeqId < s ∧ seqDistance s r.remoteSeqId < 32) ∧ r.remoteSeqId + k < s + k
  else
    (s ≤ r.remoteSeqId ↔ s + k ≤ r.remoteSeqId + k) ∨ numAcks ≤ seqDistance r.remoteSeqId s ∨
      r.ackMask.getLsbD (seqDistance r.remoteSeqId s) = true

theorem behindMask_rotate_iff : (r.rotate k).behindMask (s + k) = r.behindMask s ↔
    (s ≤ r.remoteSeqId ↔ s + k ≤ r.remoteSeqId + k) ∨ numAcks ≤ seqDistance r.remoteSeqId s ∨
      r.ackMask.getLsbD (seqDistance r.remoteSeqId s) = true := by
  simp only [behindMask, rotate, seqDistance_rotate]
  obtain hfar | hnear := Nat.lt_or_ge (seqDistance r.remoteSeqId s) numAcks
  · have hset := or_one_shiftLeft_eq_iff r.ackMask hfar
    simp only [hfar, and_true, Nat.not_le.2 hfar, false_or]
    by_cases hle : s ≤ r.remoteSeqId <;> by_cases hle' : s + k ≤ r.remoteSeqId + k
    · simp only [hle, hle', if_true, true_or]
    · simp only [hle, hle', if_true, if_false, iff_false, not_true, false_or, ← hset, eq_comm]
    · simp only [hle, hle', if_true, if_false, iff_true, false_or, ← hset]
    · simp only [hle, hle', if_false, true_or]
  · simp only [Nat.not_lt.2 hnear, hnear, and_false, if_false, true_or, or_true]

theorem record_rotate_iff (hhalf : seqDistance s r.remoteSeqId ≠ 32768) :
    ((∀ P, (r.rotate k).record P (s + k) = (r.record P s).rotate k) ∧
      (∀ n ∈ r.shiftCounts s, n < 32) ∧ ∀ n ∈ (r.rotate k).shiftCounts (s + k), n < 32) ↔
    r.KeepsOrder s k := by
  have hrotate : isSeqIdMoreRecent (s + k) (r.rotate k).remoteSeqId =
      isSeqIdMoreRecent s r.remoteSeqId := isSeqIdMoreRecent_rotate hhalf
  have hdist : seqDistance (s + k) (r.rotate k).remoteSeqId = seqDistance s r.remoteSeqId :=
    seqDistance_rotate
  rw [KeepsOrder]
  cases hrec : isSeqIdMoreRecent s r.remoteSeqId with
  | true =>
    rw [hrec] at hrotate
    rw [if_pos rfl, shiftCounts_ahead hrec, shiftCounts_ahead hrotate, hdist]
    constructor
    · rintro ⟨_, h, h', _⟩
      exact ⟨h, h'⟩
    · rintro ⟨h, h'⟩
      refine ⟨fun P => ?_, h, h', h.2⟩
      rw [record_ahead hrec h.1 h.2, record_ahead hrotate h' (hdist.symm ▸ h.2), hdist]
      rfl
  | false =>
    rw [hrec] at hrotate
    rw [if_neg (by simp), ← behindMask_rotate_iff]
    constructor
    · rintro ⟨h, _⟩
      have hrecord := h .x86
      rw [record_behind hrec, record_behind hrotate] at hrecord
      exact congrArg AckRecord.ackMask hrecord
    · intro h
      refine ⟨fun P => ?_, shiftCounts_behind hrec, shiftCounts_behind hrotate⟩
      rw [record_behind hrec, record_behind hrotate, h]
      rfl

/-! ## Streams that arrive in order -/

/-- A strictly increasing stream of ids from 0 on, with gaps below 32. -/
structure InOrder (ids : List SeqId) : Prop where
  head : ids.head? = some 0
  gaps : ids.IsChain fun a b => a.toNat < b.toNat ∧ b.toNat - a.toNat < 32

/-- The record after a stream in order: bit `i` stands for the id `i + 1` behind the last one, and
the bit that the very first id has set for the id before it. -/
structure Follows (r : AckRecord) (ids : List SeqId) : Prop where
  last : ids.getLast? = some r.remoteSeqId
  le : ∀ x ∈ ids, x.toNat ≤ r.remoteSeqId.toNat
  bit : ∀ i < 16, r.ackMask.getLsbD i = true ↔
    (∃ x ∈ ids, x.toNat + (i + 1) = r.remoteSeqId.toNat) ∨ i = r.remoteSeqId.toNat

theorem follows_first : (({} : AckRecord).record P 0).Follows [0] := by
  rw [record_behind (by decide)]
  refine ⟨rfl, by simp, fun i hi => ?_⟩
  have hmask : ({} : AckRecord).behindMask 0 = 1#16 <<< 0 := by decide
  rw [hmask, getLsbD_one_shiftLeft]
  simp [hi]

theorem isSeqIdMoreRecent_of_gap (hlt : x.toNat < s.toNat) (hgap : s.toNat - x.toNat < 32) :
    isSeqIdMoreRecent s x = true ∧ seqDistance s x = s.toNat - x.toNat := by
  have hdist : seqDistance s x = s.toNat - x.toNat := by
    rw [seqDistance_eq, if_pos (UInt16.le_iff_toNat_le.2 (Nat.le_of_lt hlt))]
  refine ⟨isSeqIdMoreRecent_iff.2 ?_, hdist⟩
  omega

/-- The next id of the stream shifts the mask by its gap. -/
theorem Follows.record {ids : List SeqId} (h : r.Follows ids)
    (hlt : r.remoteSeqId.toNat < s.toNat) (hgap : s.toNat - r.remoteSeqId.toNat < 32) :
    (r.record P s).Follows (ids ++ [s]) := by
  obtain ⟨hrec, hdist⟩ := isSeqIdMoreRecent_of_gap hlt hgap
  have hmem : r.remoteSeqId ∈ ids := List.mem_of_getLast? h.last
  rw [record_ahead hrec (UInt16.lt_iff_toNat_lt.2 hlt) (hdist ▸ hgap), hdist]
  refine ⟨List.getLast?_concat, fun x hx => ?_, fun i hi => ?_⟩
  · rw [List.mem_append, List.mem_singleton] at hx
    obtain hx | rfl := hx
    · exact Nat.le_trans (h.le x hx) (Nat.le_of_lt hlt)
    · exact Nat.le_refl _
  dsimp only
  rw [getLsbD_aheadMask _ (by omega) hi]
  constructor
  · rintro (⟨hle, hbit⟩ | hprev)
    · obtain ⟨x, hx, hsum⟩ | hfirst := (h.bit _ (by omega)).1 hbit
      · exact .inl ⟨x, List.mem_append_left _ hx, by omega⟩
      · exact .inr (by omega)
    · exact .inl ⟨r.remoteSeqId, List.mem_append_left _ hmem, by omega⟩
  · rintro (⟨x, hx, hsum⟩ | hfirst)
    · rw [List.mem_append, List.mem_singleton] at hx
      obtain hx | rfl := hx
      · -- no id of the stream lies between the last one and `s`
        have hle := h.le x hx
        by_cases hprev : i + 1 = s.toNat - r.remoteSeqId.toNat
        · exact .inr hprev
        · exact .inl ⟨by omega, (h.bit _ (by omega)).2 (.inl ⟨x, hx, by omega⟩)⟩
      · omega
    · exact .inl ⟨by omega, (h.bit _ (by omega)).2 (.inr (by omega))⟩

theorem follows_recordAll {ids : List SeqId} (h : InOrder ids) : (recordAll P ids).Follows ids := by
  induction ids using List.reverseRecOn with
  | nil => cases h.head
  | append_singleton ids s ih =>
    rw [recordAll_snoc]
    by_cases hnil : ids = []
    · subst hnil
      cases h.head
      exact follows_first
    · obtain ⟨hgaps, _, hlast⟩ := List.isChain_append.1 h.gaps
      have hstart : InOrder ids := ⟨by rw [← h.head, List.head?_append_of_ne_nil _ hnil], hgaps⟩
      have hfollows := ih hstart
      obtain ⟨hlt, hgap⟩ := hlast _ hfollows.last s rfl
      exact hfollows.record hlt hgap

/-- The record is exact about the stream: the last id, the 16 bits, and the 15 ids that are read. -/
structure Exact (r : AckRecord) (ids : List SeqId) : Prop where
  last : ids.getLast? = some r.remoteSeqId
  bit : ∀ k, 1 ≤ k → k ≤ 16 → k ≤ r.remoteSeqId.toNat →
    (r.ackMask.getLsbD (k - 1) = true ↔ UInt16.ofNat (r.remoteSeqId.toNat - k) ∈ ids)
  acknowledged : ∀ k, 1 ≤ k → k ≤ 15 → k ≤ r.remoteSeqId.toNat →
    (r.acknowledges (UInt16.ofNat (r.remoteSeqId.toNat - k)) = true ↔
      UInt16.ofNat (r.remoteSeqId.toNat - k) ∈ ids)

theorem Follows.exact {ids : List SeqId} (h : r.Follows ids) : r.Exact ids := by
  have hlt := r.remoteSeqId.toNat_lt
  have hval : ∀ k, (UInt16.ofNat (r.remoteSeqId.toNat - k)).toNat = r.remoteSeqId.toNat - k := by
    intro k
    rw [UInt16.toNat_ofNat']
    omega
  have hbit : ∀ k, 1 ≤ k → k ≤ 16 → k ≤ r.remoteSeqId.toNat →
      (r.ackMask.getLsbD (k - 1) = true ↔ UInt16.ofNat (r.remoteSeqId.toNat - k) ∈ ids) := by
    intro k hk1 hk16 hk
    rw [h.bit _ (by omega)]
    constructor
    · rintro (⟨x, hx, hsum⟩ | hfirst)
      · have hxk : x = UInt16.ofNat (r.remoteSeqId.toNat - k) := by
          apply UInt16.toNat_inj.1
          rw [hval]
          omega
        exact hxk ▸ hx
      · omega
    · intro hmem
      refine .inl ⟨_, hmem, ?_⟩
      rw [hval]
      omega
  refine ⟨h.last, hbit, fun k hk1 hk15 hk => ?_⟩
  have hdist : seqDistance r.remoteSeqId (UInt16.ofNat (r.remoteSeqId.toNat - k)) = k := by
    rw [seqDistance_eq, if_pos (UInt16.le_iff_toNat_le.2 (by rw [hval]; omega)), hval]
    omega
  rw [← hbit k hk1 (by omega) hk, acknowledges_iff, hdist]
  have hne : UInt16.ofNat (r.remoteSeqId.toNat - k) ≠ r.remoteSeqId := by
    intro heq
    rw [heq, seqDistance_self] at hdist
    omega
  simp only [hne, false_or, hk1, true_and, and_iff_right (show k < 16 by omega)]

end AckRecord

namespace UdpConnection

open AckRecord

variable {ε : Type}

/-- **Received packages stay acknowledged** by a fresh connection after every `refresh`, on every
platform, if and only if every incoming id meets the step condition. -/
theorem received_acknowledged_iff (β : Type) (remoteEndpoint : ε) (inputs : List Refresh) :
    (∀ P pre, pre <+: inputs → (refreshAll P β { remoteEndpoint } pre).AcknowledgesReceived
      (pre.map (·.remoteSeqId))) ↔
    ∀ P pre s, pre ++ [s] <+: inputs.map (·.remoteSeqId) →
      (recordAll P pre).StaysInWindow pre s := by
  rw [← acknowledgesReceived_recordAll_iff]
  exact forall_prefix_refreshAll

/-- The id 1 arrives after the id 2: its own bit is not set, that of the id 0 is. -/
theorem not_acknowledged_late :
    ¬ (refreshAll .x86 Unit { remoteEndpoint := () }
      [⟨.still 0, 2, 0, 0⟩, ⟨.still 0, 1, 0, 0⟩]).AcknowledgesReceived [2, 1] := by
  intro H
  have hlate := H 2 rfl 1 (by decide) (by decide)
  revert hlate
  decide

/-- `refresh` treats a record and an incoming id that were moved on by `k` around the circle as it
treats the record and the id themselves, and no shift has a count of 32 or more. -/
def WrapInvisible (β : Type) (c : UdpConnection ε) (remoteSeqId k : SeqId) : Prop :=
  (∀ (P : Platform) (clk clk' : SteadyClock) (c' : UdpConnection ε) (ack ack' : SeqId)
      (ackMask ackMask' : AckMask), c'.toAckRecord = c.rotate k →
    (c'.refresh P clk' (remoteSeqId + k) ack' ackMask' : AckPass ε β).conn.toAckRecord =
      (c.refresh P clk remoteSeqId ack ackMask : AckPass ε β).conn.rotate k) ∧
  (∀ n ∈ c.shiftCounts remoteSeqId, n < 32) ∧
    ∀ n ∈ (c.rotate k).shiftCounts (remoteSeqId + k), n < 32

theorem toAckRecord_refresh {β : Type} (P : Platform) (clk : SteadyClock) (c : UdpConnection ε)
    (remoteSeqId ack : SeqId) (ackMask : AckMask) :
    (c.refresh P clk remoteSeqId ack ackMask : AckPass ε β).conn.toAckRecord =
      c.record P remoteSeqId :=
  (refresh_inv ..).record

/-- **Sequence wrap is invisible to `refresh`** for an id less than half the circle away, if and
only if moving on keeps the numeric order that the correction after a wrap looks at. -/
theorem wrapInvisible_iff (β : Type) (c : UdpConnection ε) (remoteSeqId k : SeqId)
    (h1 : 1 ≤ circularDistance c.remoteSeqId remoteSeqId)
    (hd : circularDistance c.remoteSeqId remoteSeqId < 2 ^ 15) :
    c.WrapInvisible β remoteSeqId k ↔ c.KeepsOrder remoteSeqId k := by
  rw [← record_rotate_iff (ne_half_of_circularDistance h1 hd), WrapInvisible]
  simp only [toAckRecord_refresh]
  refine and_congr_left fun _ => ?_
  constructor
  · intro H P
    exact H P (.still 0) (.still 0) { c with toAckRecord := c.rotate k } 0 0 0 0 rfl
  · intro H P _ _ c' _ _ _ _ hc'
    rw [hc']
    exact H P

/-- From 5 on to 7, moved on by 100. -/
theorem wrapInvisible_gap :
    WrapInvisible Unit { remoteEndpoint := (), remoteSeqId := 5, ackMask := 1 } 7 100 := by
  refine (wrapInvisible_iff Unit _ 7 100 (by decide) (by decide)).2 ?_
  rw [KeepsOrder, if_pos (by decide)]
  decide

/-- From 0 on to 1, moved back by 1: the shift count after the wrap is 65534. -/
theorem not_wrapInvisible : ¬ WrapInvisible Unit { remoteEndpoint := () } 1 65535 := by
  intro H
  have hcount := H.2.2 65534 (by decide)
  omega

/-- **Lossy streams in order are recorded exactly** by a fresh connection. -/
theorem stream_recorded (P : Platform) (β : Type) (remoteEndpoint : ε) (inputs : List Refresh)
    (h : InOrder (inputs.map (·.remoteSeqId))) :
    (refreshAll P β { remoteEndpoint } inputs).Exact (inputs.map (·.remoteSeqId)) := by
  rw [toAckRecord_refreshAll]
  exact (follows_recordAll h).exact

/-- A stream with a gap that empties the mask. -/
theorem stream_recorded_gap :
    (refreshAll .x86 Unit { remoteEndpoint := () }
      [⟨.still 0, 0, 0, 0⟩, ⟨.still 0, 1, 0, 0⟩, ⟨.still 0, 20, 0, 0⟩]).Exact [0, 1, 20] :=
  stream_recorded .x86 Unit () _ ⟨rfl, by decide⟩

end UdpConnection

end NetSiege
