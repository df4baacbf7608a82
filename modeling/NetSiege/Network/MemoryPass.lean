import Mathlib.Data.List.Nodup
import NetSiege.Network.UdpConnection

/-!
# What the acknowledgement pass examines (`udpconnection.h`)

`processRpcAcknowledges` erases from the list it walks over and appends to it. `TracedPass` is the
pass with a number for every node of the list. Since `erase` leaves the iterator at the next node
and the loop moves on from there, the node behind an erased one is never examined, and `end()` is
moved on when the last one is erased. Besides, an entry older than the timeout is not always taken
for lost (`allWorkDone_iff`).
-/

namespace NetSiege

open Lib

namespace UdpConnection

variable {ε β : Type}

/-- The pass, the nodes of `m_rpcMemory` by their numbers, the number of the next node that is
made, and the nodes examined so far. -/
structure TracedPass (ε β : Type) where
  pass : AckPass ε β
  nodes : List Nat
  next : Nat
  examined : List Nat := []

namespace TracedPass

/-- One turn of the loop: an erased entry takes its node along, a resent one gets a new node. -/
def turn (P : Platform) (clk : SteadyClock) (now : Time) (s : TracedPass ε β) :
    Option (TracedPass ε β) :=
  let it := s.pass.it
  let examined := s.examined ++ (s.nodes[it]?).toList
  match s.pass.conn.rpcMemory[it]? with
  | none => none
  | some info =>
    if s.pass.conn.acknowledges info.seqId then some { s with
      pass := (s.pass.drop info).advance P
      nodes := s.nodes.eraseIdx it
      examined }
    else if timedOut now info then some {
      pass := (s.pass.resend clk info).advance P
      nodes := (s.nodes ++ [s.next]).eraseIdx it
      next := s.next + 1
      examined }
    else some { s with pass := s.pass.advance P, examined }

/-- The pass at the entry `it` of the memory, when no entry before it called for anything. -/
def atEntry (reads : Nat) (c : UdpConnection ε) (it : Nat) : TracedPass ε β where
  pass := { conn := c, it, reads := reads + 1 }
  nodes := List.range c.rpcMemory.length
  next := c.rpcMemory.length
  examined := List.range it

end TracedPass

/-- `UdpConnection::processRpcAcknowledges` with its trace. -/
def tracedPass (P : Platform) (clk : SteadyClock) (reads : Nat) (c : UdpConnection ε) :
    TracedPass ε β :=
  let now := clk.read reads
  loop (TracedPass.turn P clk now) (fun s => s.pass.measure now) (.atEntry reads c 0)

/-- The entry is older than `PACKAGE_LOSS_TIMEOUT`. -/
def isOverdue (now : Time) (info : RpcInfo) : Bool :=
  ExceedsTimeout packageLossTimeout (now - info.timeOfSend)

/-- The entries for which the pass has nothing to do, where `late` tells which are too old. -/
def waiting (c : UdpConnection ε) (late : RpcInfo → Bool) : List RpcInfo :=
  c.rpcMemory.filter fun info => !c.acknowledges info.seqId && !late info

/-- The entries whose package has to be sent again. -/
def overdue (c : UdpConnection ε) (late : RpcInfo → Bool) : List RpcInfo :=
  c.rpcMemory.filter fun info => !c.acknowledges info.seqId && late info

/-- Two entries for the same call. -/
structure SameCall (info new : RpcInfo) : Prop where
  msgId : new.msgId = info.msgId
  rpcId : new.rpcId = info.rpcId
  data : new.data = info.data
  dataSize : new.dataSize = info.dataSize

/-- The pass that started from `c` did all its work: it ended without moving on from `end()`, has
examined every entry exactly once, has sent every overdue call once under a fresh id, and has left
the waiting entries, in their order, and one entry for each call it sent. -/
structure AllWorkDone (late : RpcInfo → Bool) (P : Platform) (clk : SteadyClock) (now : Time)
    (c : UdpConnection ε) (s : TracedPass ε β) : Prop where
  ended : s.turn P clk now = none
  inBounds : s.pass.overran = false
  examined : ∀ node < c.rpcMemory.length, s.examined.count node = 1
  memory : ∃ new : List RpcInfo, List.Forall₂ SameCall (c.overdue late) new ∧
    new.map (·.seqId) = (List.range new.length).map (fun k => c.seqId + UInt16.ofNat k) ∧
    s.pass.sent.map (fun msg => (msg.seqId, msg.rpc)) =
      new.map (fun info => (info.seqId.toUInt32, some info.rpc)) ∧
    (c.waiting late).Sublist s.pass.conn.rpcMemory ∧
    s.pass.conn.rpcMemory.Perm (c.waiting late ++ new)

/-- No entry is acknowledged, and none but the last is resent. -/
structure AtMostLast (c : UdpConnection ε) (now : Time) : Prop where
  unacknowledged : ∀ info ∈ c.rpcMemory, c.acknowledges info.seqId = false
  inTime : ∀ info ∈ c.rpcMemory.dropLast, timedOut now info = false

/-- No entry is acknowledged, none but the last is overdue, and if the last is, the comparison of
`float`s says so. -/
structure Quiet (c : UdpConnection ε) (now : Time) : Prop where
  unacknowledged : ∀ info ∈ c.rpcMemory, c.acknowledges info.seqId = false
  inTime : ∀ info ∈ c.rpcMemory.dropLast, isOverdue now info = false
  noticed : ∀ info ∈ c.rpcMemory.getLast?, isOverdue now info = true →
    300000016 < now - info.timeOfSend

/-! ## The trace -/

section
variable {P : Platform} {clk : SteadyClock} {now : Time} {reads : Nat} {c : UdpConnection ε}
  {s s' : TracedPass ε β} {info : RpcInfo} {i node : Nat}

theorem TracedPass.pass_turn (s : TracedPass ε β) :
    (s.turn P clk now).map (·.pass) = s.pass.turn P clk now := by
  rw [turn, AckPass.turn]
  cases s.pass.conn.rpcMemory[s.pass.it]? with
  | none => rfl
  | some info =>
    dsimp only
    split
    · rfl
    · split <;> rfl

/-- Without its trace, the traced pass is the pass. -/
theorem pass_tracedPass (P : Platform) (clk : SteadyClock) (reads : Nat) (c : UdpConnection ε) :
    (c.tracedPass P clk reads : TracedPass ε β).pass = c.processRpcAcknowledges P clk reads :=
  map_loop (f := TracedPass.pass) TracedPass.pass_turn (fun _ => rfl) _

theorem TracedPass.turn_eq_none :
    s.turn P clk now = none ↔ s.pass.conn.rpcMemory.length ≤ s.pass.it := by
  rw [← List.getElem?_eq_none_iff, turn]
  cases s.pass.conn.rpcMemory[s.pass.it]? with
  | none => exact iff_of_true rfl rfl
  | some info =>
    refine iff_of_false (fun h => ?_) (Option.some_ne_none info)
    dsimp only at h
    split at h
    · cases h
    · split at h <;> cases h

/-- What a turn does to the trace. -/
theorem TracedPass.turn_cases (h : s.turn P clk now = some s') :
    s'.examined = s.examined ++ (s.nodes[s.pass.it]?).toList ∧
      (s'.nodes = s.nodes.eraseIdx s.pass.it ∧ s'.next = s.next ∨
        s'.nodes = (s.nodes ++ [s.next]).eraseIdx s.pass.it ∧ s'.next = s.next + 1 ∨
        s'.nodes = s.nodes ∧ s'.next = s.next) ∧
      ∃ p : AckPass ε β, p.it = s.pass.it ∧ p.overran = s.pass.overran ∧ s'.pass = p.advance P := by
  rw [turn] at h
  cases hinfo : s.pass.conn.rpcMemory[s.pass.it]? with
  | none => simp [hinfo] at h
  | some info =>
    rw [hinfo] at h
    dsimp only at h
    split at h
    · cases h
      exact ⟨rfl, .inl ⟨rfl, rfl⟩, s.pass.drop info, rfl, rfl, rfl⟩
    split at h
    · cases h
      exact ⟨rfl, .inr (.inl ⟨rfl, rfl⟩), s.pass.resend clk info, rfl, rfl, rfl⟩
    · cases h
      exact ⟨rfl, .inr (.inr ⟨rfl, rfl⟩), s.pass, rfl, rfl, rfl⟩

/-! ## Nodes that are missed -/

/-- The iterator is past the node, which was not examined. -/
structure TracedPass.Missed (node : Nat) (s : TracedPass ε β) : Prop where
  nodup : s.nodes.Nodup
  lt_next : ∀ m ∈ s.nodes, m < s.next
  passed : ∃ i < s.pass.it, s.nodes[i]? = some node
  unexamined : node ∉ s.examined

/-- The pass moved on from `end()`, or missed an entry. -/
def TracedPass.Spoiled (c : UdpConnection ε) (s : TracedPass ε β) : Prop :=
  s.pass.overran = true ∨ ∃ node < c.rpcMemory.length, s.Missed node

theorem advance_of_lt {p : AckPass ε β} (h : p.it < p.conn.rpcMemory.length) :
    p.advance P = { p with it := p.it + 1 } := by
  rw [AckPass.advance]
  simp only [if_pos h, decide_eq_false (Nat.not_le.2 h), Bool.or_false]

theorem advance_end {p : AckPass ε β} (h : p.conn.rpcMemory.length ≤ p.it) :
    (p.advance P).overran = true := by
  rw [AckPass.advance]
  simp only [decide_eq_true h, Bool.or_true]

/-- A node that was missed stays missed, as long as the pass stays within the list. -/
theorem TracedPass.Spoiled.turn (h : s.Spoiled c) (hturn : s.turn P clk now = some s') :
    s'.Spoiled c := by
  obtain ⟨hexamined, hnodes, p, hit, hoverran, hpass⟩ := TracedPass.turn_cases hturn
  obtain hin | hend := Nat.lt_or_ge p.it p.conn.rpcMemory.length
  case inr => exact .inl (hpass ▸ advance_end hend)
  rw [advance_of_lt hin] at hpass
  obtain h | ⟨node, hnode, h⟩ := h
  · exact .inl (by rw [hpass, ← h, ← hoverran])
  obtain ⟨i, hi, hget⟩ := h.passed
  refine .inr ⟨node, hnode, ?_⟩
  have hne : ∀ m, s.nodes[s.pass.it]? = some m → node ≠ m := by
    rintro m hm rfl
    have := (List.getElem?_inj (List.getElem?_eq_some_iff.1 hget).1 h.nodup).1 (hget.trans hm.symm)
    omega
  have hlt : i < s.nodes.length := (List.getElem?_eq_some_iff.1 hget).1
  have hfresh : (s.nodes ++ [s.next]).Nodup := by
    refine List.nodup_append.2 ⟨h.nodup, List.nodup_singleton _, fun m hm m' hm' => ?_⟩
    rw [List.mem_singleton.1 hm']
    exact Nat.ne_of_lt (h.lt_next m hm)
  have hkept : s'.nodes.Nodup ∧ (∀ m ∈ s'.nodes, m < s'.next) ∧ s'.nodes[i]? = some node := by
    obtain ⟨hnodes, hnext⟩ | ⟨hnodes, hnext⟩ | ⟨hnodes, hnext⟩ := hnodes
    · rw [hnodes, hnext, List.getElem?_eraseIdx_of_lt hi]
      exact ⟨h.nodup.eraseIdx _, fun m hm => h.lt_next m (List.mem_of_mem_eraseIdx hm), hget⟩
    · rw [hnodes, hnext, List.getElem?_eraseIdx_of_lt hi, List.getElem?_append_left hlt]
      refine ⟨hfresh.eraseIdx _, fun m hm => ?_, hget⟩
      obtain hm | hm := List.mem_append.1 (List.mem_of_mem_eraseIdx hm)
      · exact Nat.lt_succ_of_lt (h.lt_next m hm)
      · rw [List.mem_singleton.1 hm]
        exact Nat.lt_succ_self _
    · rw [hnodes, hnext]
      exact ⟨h.nodup, h.lt_next, hget⟩
  refine ⟨hkept.1, hkept.2.1, ⟨i, by rw [hpass, hit]; exact Nat.lt_succ_of_lt hi, hkept.2.2⟩, ?_⟩
  rw [hexamined, List.mem_append]
  rintro (hmem | hmem)
  · exact h.unexamined hmem
  · exact hne _ (Option.mem_toList.1 hmem) rfl

theorem TracedPass.Spoiled.not_done (h : s.Spoiled c) : ¬ AllWorkDone late P clk now c s := by
  intro hdone
  obtain hover | ⟨node, hnode, hmissed⟩ := h
  · rw [hdone.inBounds] at hover
    cases hover
  · have hcount := hdone.examined node hnode
    rw [List.count_eq_zero_of_not_mem hmissed.unexamined] at hcount
    cases hcount

/-! ## The first entry that calls for something -/

theorem atEntry_examined (hinfo : c.rpcMemory[i]? = some info) :
    (List.range i ++ ((List.range c.rpcMemory.length)[i]?).toList) = List.range (i + 1) := by
  have hlt := (List.getElem?_eq_some_iff.1 hinfo).1
  rw [List.getElem?_range hlt, List.range_succ]
  rfl

theorem turn_waiting (hinfo : c.rpcMemory[i]? = some info)
    (hack : c.acknowledges info.seqId = false) (htime : timedOut now info = false) :
    (TracedPass.atEntry reads c i : TracedPass ε β).turn P clk now =
      some (.atEntry reads c (i + 1)) := by
  have hadvance : AckPass.advance P ({ conn := c, it := i, reads := reads + 1 } : AckPass ε β) =
      { conn := c, it := i + 1, reads := reads + 1 } :=
    advance_of_lt (List.getElem?_eq_some_iff.1 hinfo).1
  simp only [TracedPass.turn, TracedPass.atEntry, hinfo, hack, htime, Bool.false_eq_true, if_false,
    atEntry_examined hinfo, hadvance]

theorem turn_acknowledged (hinfo : c.rpcMemory[i]? = some info)
    (hack : c.acknowledges info.seqId = true) :
    (TracedPass.atEntry reads c i : TracedPass ε β).turn P clk now = some {
      pass := ((TracedPass.atEntry reads c i).pass.drop info).advance P
      nodes := (List.range c.rpcMemory.length).eraseIdx i
      next := c.rpcMemory.length
      examined := List.range (i + 1) } := by
  simp only [TracedPass.turn, TracedPass.atEntry, hinfo, hack, if_true, atEntry_examined hinfo]

theorem turn_overdue (hinfo : c.rpcMemory[i]? = some info)
    (hack : c.acknowledges info.seqId = false) (htime : timedOut now info = true) :
    (TracedPass.atEntry reads c i : TracedPass ε β).turn P clk now = some {
      pass := ((TracedPass.atEntry reads c i).pass.resend clk info).advance P
      nodes := (List.range c.rpcMemory.length ++ [c.rpcMemory.length]).eraseIdx i
      next := c.rpcMemory.length + 1
      examined := List.range (i + 1) } := by
  simp only [TracedPass.turn, TracedPass.atEntry, hinfo, hack, htime, Bool.false_eq_true, if_false,
    if_true, atEntry_examined hinfo]

theorem spoiled_of_next {s : TracedPass ε β} (hnext : i + 1 < c.rpcMemory.length)
    (hex : s.examined = List.range (i + 1)) (hit : s.pass.it = i + 1)
    (hnodes : s.nodes.Sublist (List.range s.next)) (hget : s.nodes[i]? = some (i + 1)) :
    s.Spoiled c := by
  refine .inr ⟨i + 1, hnext, List.nodup_range.sublist hnodes, fun m hm => ?_,
    ⟨i, hit ▸ Nat.lt_succ_self i, hget⟩, ?_⟩
  · exact List.mem_range.1 (hnodes.subset hm)
  · rw [hex, List.mem_range]
    exact Nat.lt_irrefl _

/-- Behind an erased entry the next one is missed, or there is none to move on from. -/
theorem turn_spoiled (hinfo : c.rpcMemory[i]? = some info)
    (hcause : c.acknowledges info.seqId = true ∨
      timedOut now info = true ∧ i + 1 < c.rpcMemory.length) :
    ∃ s', (TracedPass.atEntry reads c i : TracedPass ε β).turn P clk now = some s' ∧
      s'.Spoiled c := by
  have hlt : i < c.rpcMemory.length := (List.getElem?_eq_some_iff.1 hinfo).1
  have hget : i + 1 < c.rpcMemory.length →
      ((List.range c.rpcMemory.length).eraseIdx i)[i]? = some (i + 1) := by
    intro hnext
    rw [List.getElem?_eraseIdx_of_ge (Nat.le_refl i), List.getElem?_range hnext]
  cases hack : c.acknowledges info.seqId with
  | true =>
    refine ⟨_, turn_acknowledged hinfo hack, ?_⟩
    have hlen : (c.rpcMemory.eraseIdx i).length = c.rpcMemory.length - 1 :=
      List.length_eraseIdx_of_lt hlt
    obtain hnext | hlast := Nat.lt_or_ge (i + 1) c.rpcMemory.length
    · refine spoiled_of_next hnext rfl ?_ (List.eraseIdx_sublist _ _) (hget hnext)
      have hin : i < (c.rpcMemory.eraseIdx i).length := by omega
      rw [advance_of_lt hin]
      rfl
    · refine .inl (advance_end ?_)
      change (c.rpcMemory.eraseIdx i).length ≤ i
      omega
  | false =>
    obtain ⟨htime, hnext⟩ := hcause.resolve_left (by simp [hack])
    refine ⟨_, turn_overdue hinfo hack htime, ?_⟩
    have hlen : (List.range c.rpcMemory.length).length = c.rpcMemory.length := List.length_range
    refine spoiled_of_next hnext rfl ?_ ?_ ?_
    · rw [AckPass.resend_eq hlt, advance_of_lt]
      · rfl
      · change i < (c.rpcMemory.eraseIdx i ++ [_]).length
        rw [List.length_append, List.length_singleton, List.length_eraseIdx_of_lt hlt]
        omega
    · rw [← List.range_succ]
      exact List.eraseIdx_sublist _ _
    · rw [List.eraseIdx_append_of_lt_length (by omega), List.getElem?_append_left, hget hnext]
      rw [List.length_eraseIdx_of_lt (by omega)]
      omega

/-! ## Passes that do all their work -/

/-- The entries before the iterator called for nothing. -/
def WaitingBefore (c : UdpConnection ε) (now : Time) (i : Nat) : Prop :=
  ∀ j < i, ∀ info, c.rpcMemory[j]? = some info →
    c.acknowledges info.seqId = false ∧ timedOut now info = false

theorem WaitingBefore.atMostLast (h : c.WaitingBefore now i) (hi : c.rpcMemory.length ≤ i + 1)
    (hlast : ∀ info, c.rpcMemory[i]? = some info → c.acknowledges info.seqId = false) :
    c.AtMostLast now := by
  constructor
  · intro info hinfo
    obtain ⟨j, hj⟩ := List.mem_iff_getElem?.1 hinfo
    have hlt := (List.getElem?_eq_some_iff.1 hj).1
    obtain hji | rfl := Nat.lt_or_eq_of_le (show j ≤ i by omega)
    · exact (h j hji info hj).1
    · exact hlast info hj
  · intro info hinfo
    obtain ⟨j, hj⟩ := List.mem_iff_getElem?.1 hinfo
    have hlt := (List.getElem?_eq_some_iff.1 hj).1
    rw [List.length_dropLast] at hlt
    rw [List.getElem?_dropLast, if_pos hlt] at hj
    exact (h j (by omega) info hj).2

theorem not_atMostLast_of_cause (hinfo : c.rpcMemory[i]? = some info)
    (hcause : c.acknowledges info.seqId = true ∨
      timedOut now info = true ∧ i + 1 < c.rpcMemory.length) : ¬ c.AtMostLast now := by
  intro h
  obtain hack | ⟨htime, hnext⟩ := hcause
  · rw [h.unacknowledged info (List.mem_of_getElem? hinfo)] at hack
    cases hack
  · have hmem : info ∈ c.rpcMemory.dropLast := by
      refine List.mem_of_getElem? (i := i) ?_
      rw [List.getElem?_dropLast, if_pos (by omega), hinfo]
    rw [h.inTime info hmem] at htime
    cases htime

theorem count_range {n : Nat} (h : node < n) : (List.range n).count node = 1 :=
  List.count_eq_one_of_mem List.nodup_range (List.mem_range.2 h)

theorem WaitingBefore.take (h : c.WaitingBefore now i) : ∀ e ∈ c.rpcMemory.take i,
    c.acknowledges e.seqId = false ∧ timedOut now e = false := by
  intro e he
  obtain ⟨j, hj⟩ := List.mem_iff_getElem?.1 he
  have hji : j < i := by
    have hlt := (List.getElem?_eq_some_iff.1 hj).1
    rw [List.length_take] at hlt
    omega
  rw [List.getElem?_take_of_lt hji] at hj
  exact h j hji e hj

/-- Where nothing is to be done, nothing is done. -/
theorem allWorkDone_waiting (h : c.WaitingBefore now c.rpcMemory.length) :
    AllWorkDone (timedOut now) P clk now c
      (.atEntry reads c c.rpcMemory.length : TracedPass ε β) := by
  have hall := h.take
  rw [List.take_length] at hall
  have hwaiting : c.waiting (timedOut now) = c.rpcMemory := by
    refine List.filter_eq_self.2 fun info hinfo => ?_
    simp [hall info hinfo]
  have hoverdue : c.overdue (timedOut now) = [] := by
    refine List.filter_eq_nil_iff.2 fun info hinfo => ?_
    simp [hall info hinfo]
  refine ⟨TracedPass.turn_eq_none.2 (Nat.le_refl _), rfl, fun node hnode => count_range hnode, [],
    ?_⟩
  rw [hwaiting, hoverdue]
  exact ⟨.nil, rfl, rfl, .refl _, by rw [List.append_nil]; exact .refl _⟩

/-- The pass behind the last entry, when that was resent: the iterator is at its new node. -/
theorem advance_resend_last (hlast : i + 1 = c.rpcMemory.length) :
    ((TracedPass.atEntry reads c i : TracedPass ε β).pass.resend clk info).advance P =
      { conn := { c with
          seqId := c.seqId + 1
          rpcMemory := c.rpcMemory.take i ++ [c.resent info (clk.read (reads + 1))] }
        it := i + 1
        reads := reads + 1 + 1
        sent := [c.resendMessage info] } := by
  have herase : c.rpcMemory.eraseIdx i = c.rpcMemory.take i := by
    rw [List.eraseIdx_eq_take_drop_succ, List.drop_of_length_le (by omega), List.append_nil]
  rw [AckPass.resend_eq (by simp only [TracedPass.atEntry]; omega), advance_of_lt]
  · simp only [TracedPass.atEntry, herase, List.nil_append]
  · change i < (c.rpcMemory.eraseIdx i ++ [_]).length
    rw [herase, List.length_append, List.length_take, List.length_singleton]
    omega

/-- What is waiting and what is overdue, when only the last entry calls for something. -/
theorem WaitingBefore.last (h : c.WaitingBefore now i) (hlast : i + 1 = c.rpcMemory.length)
    (hinfo : c.rpcMemory[i]? = some info) (hack : c.acknowledges info.seqId = false)
    (htime : timedOut now info = true) :
    c.waiting (timedOut now) = c.rpcMemory.take i ∧ c.overdue (timedOut now) = [info] := by
  obtain ⟨hlt, heq⟩ := List.getElem?_eq_some_iff.1 hinfo
  have hmemory : c.rpcMemory = c.rpcMemory.take i ++ [info] := by
    conv_lhs => rw [← List.take_append_drop i c.rpcMemory]
    rw [List.drop_eq_getElem_cons hlt, heq, List.drop_of_length_le (by omega)]
  constructor
  · rw [waiting, hmemory, List.filter_append, ← hmemory, List.filter_eq_self.2]
    · simp [hack, htime]
    · intro e he
      simp [h.take e he]
  · rw [overdue, hmemory, List.filter_append, List.filter_eq_nil_iff.2]
    · simp [hack, htime]
    · intro e he
      simp [h.take e he]

/-- The last entry is resent: its new node is skipped, and the pass is over. -/
theorem allWorkDone_last (h : c.WaitingBefore now i) (hlast : i + 1 = c.rpcMemory.length)
    (hinfo : c.rpcMemory[i]? = some info) (hack : c.acknowledges info.seqId = false)
    (htime : timedOut now info = true) :
    ∃ s', (TracedPass.atEntry reads c i : TracedPass ε β).turn P clk now = some s' ∧
      AllWorkDone (timedOut now) P clk now c s' := by
  obtain ⟨hwaiting, hoverdue⟩ := h.last hlast hinfo hack htime
  refine ⟨_, turn_overdue hinfo hack htime, ?_⟩
  rw [advance_resend_last hlast]
  refine ⟨?_, rfl, fun node hnode => count_range (hlast ▸ hnode),
    [c.resent info (clk.read (reads + 1))], ?_⟩
  · apply TracedPass.turn_eq_none.2
    change (c.rpcMemory.take i ++ [c.resent info (clk.read (reads + 1))]).length ≤ i + 1
    rw [List.length_append, List.length_take, List.length_singleton]
    omega
  · rw [hwaiting, hoverdue]
    refine ⟨.cons ⟨rfl, rfl, rfl, rfl⟩ .nil, ?_, rfl, List.sublist_append_left _ _, .refl _⟩
    simp [resent]

/-- Along the pass: it is spoiled, or nothing called for anything yet, or all is done. -/
inductive TracedPass.Stage (P : Platform) (clk : SteadyClock) (now : Time) (reads : Nat)
    (c : UdpConnection ε) : TracedPass ε β → Prop
  | spoiled {s : TracedPass ε β} : s.Spoiled c → ¬ c.AtMostLast now → Stage P clk now reads c s
  | atEntry {i : Nat} : i ≤ c.rpcMemory.length → c.WaitingBefore now i →
      Stage P clk now reads c (.atEntry reads c i)
  | done {s : TracedPass ε β} : AllWorkDone (timedOut now) P clk now c s → c.AtMostLast now →
      Stage P clk now reads c s

theorem TracedPass.Stage.turn (h : s.Stage P clk now reads c)
    (hturn : s.turn P clk now = some s') : s'.Stage P clk now reads c := by
  cases h with
  | spoiled hspoiled hlast => exact .spoiled (hspoiled.turn hturn) hlast
  | done hdone _ =>
    rw [hdone.ended] at hturn
    cases hturn
  | @atEntry i hi hbefore =>
    obtain hlt | rfl := Nat.lt_or_eq_of_le hi
    case inr =>
      rw [TracedPass.turn_eq_none.2 (Nat.le_refl _)] at hturn
      cases hturn
    obtain ⟨info, hinfo⟩ : ∃ info, c.rpcMemory[i]? = some info := ⟨_, List.getElem?_eq_getElem hlt⟩
    by_cases hcause : c.acknowledges info.seqId = true ∨
        timedOut now info = true ∧ i + 1 < c.rpcMemory.length
    · obtain ⟨s1, hs1, hspoiled⟩ : ∃ s1,
          (TracedPass.atEntry reads c i : TracedPass ε β).turn P clk now = some s1 ∧
            s1.Spoiled c := turn_spoiled hinfo hcause
      cases hs1.symm.trans hturn
      exact .spoiled hspoiled (not_atMostLast_of_cause hinfo hcause)
    rw [not_or, Bool.not_eq_true] at hcause
    obtain ⟨hack, hlast⟩ := hcause
    cases htime : timedOut now info with
    | true =>
      have hend : i + 1 = c.rpcMemory.length := by
        have := mt (And.intro htime) hlast
        omega
      obtain ⟨s1, hs1, hdone⟩ := allWorkDone_last hbefore hend hinfo hack htime
      cases hs1.symm.trans hturn
      refine .done hdone (hbefore.atMostLast (Nat.le_of_eq hend.symm) fun info' hinfo' => ?_)
      cases hinfo.symm.trans hinfo'
      exact hack
    | false =>
      cases (turn_waiting hinfo hack htime).symm.trans hturn
      refine .atEntry hlt fun j hj info' hinfo' => ?_
      obtain hji | rfl := Nat.lt_or_eq_of_le (Nat.le_of_lt_succ hj)
      · exact hbefore j hji info' hinfo'
      · cases hinfo.symm.trans hinfo'
        exact ⟨hack, htime⟩

/-- A pass is spoiled where another entry than the last calls for something, and does the work that
the comparison of `float`s asks for elsewhere. -/
theorem tracedPass_cases (β : Type) (P : Platform) (clk : SteadyClock) (reads : Nat)
    (c : UdpConnection ε) :
    (c.tracedPass P clk reads : TracedPass ε β).Spoiled c ∧ ¬ c.AtMostLast (clk.read reads) ∨
      AllWorkDone (timedOut (clk.read reads)) P clk (clk.read reads) c
        (c.tracedPass P clk reads : TracedPass ε β) ∧ c.AtMostLast (clk.read reads) := by
  have hexit : (c.tracedPass P clk reads : TracedPass ε β).turn P clk (clk.read reads) = none := by
    rw [← Option.map_eq_none_iff, TracedPass.pass_turn, pass_tracedPass]
    exact processRpcAcknowledges_exit P clk reads c
  have hstage :
      (c.tracedPass P clk reads : TracedPass ε β).Stage P clk (clk.read reads) reads c := by
    rw [tracedPass]
    refine loop_invariant (fun _ _ => TracedPass.Stage.turn) (.atEntry (Nat.zero_le _) ?_)
    exact fun j hj => absurd hj (Nat.not_lt_zero j)
  generalize c.tracedPass P clk reads = s at hexit hstage
  cases hstage with
  | spoiled hspoiled hlast => exact .inl ⟨hspoiled, hlast⟩
  | done hdone hlast => exact .inr ⟨hdone, hlast⟩
  | @atEntry i hi hbefore =>
    obtain rfl : i = c.rpcMemory.length := Nat.le_antisymm hi (TracedPass.turn_eq_none.1 hexit)
    refine .inr ⟨allWorkDone_waiting hbefore,
      hbefore.atMostLast (Nat.le_succ _) fun info hinfo => ?_⟩
    rw [List.getElem?_eq_none (Nat.le_refl _)] at hinfo
    cases hinfo

/-! ## Entries that are overdue and not taken for lost -/

theorem isOverdue_of_timedOut (h : timedOut now info = true) : isOverdue now info = true := by
  rw [timedOut, decide_eq_true_iff, gt_iff_lt, packageLossTimeout_lt_iff] at h
  rw [isOverdue, decide_eq_true_iff, exceedsTimeout_packageLoss_iff]
  exact Nat.lt_trans (by decide) h

theorem timedOut_eq_false (h : isOverdue now info = false) : timedOut now info = false := by
  rw [← Bool.not_eq_true] at h ⊢
  exact mt isOverdue_of_timedOut h

/-- A pass that did the work the comparison of `float`s asks for did all work if and only if the
comparison tells which entries are overdue. -/
theorem AllWorkDone.isOverdue_iff (h : AllWorkDone (timedOut now) P clk now c s) :
    AllWorkDone (isOverdue now) P clk now c s ↔ ∀ info ∈ c.rpcMemory,
      c.acknowledges info.seqId = false → isOverdue now info = timedOut now info := by
  refine ⟨fun hdone info hinfo hack => ?_, fun hsame => ?_⟩
  · obtain ⟨new, hcalls, -, hsent, -⟩ := h.memory
    obtain ⟨new', hcalls', -, hsent', -⟩ := hdone.memory
    have hlength := congrArg List.length (hsent.symm.trans hsent')
    rw [List.length_map, List.length_map, ← hcalls.length_eq, ← hcalls'.length_eq] at hlength
    have hsublist : (c.overdue (timedOut now)).Sublist (c.overdue (isOverdue now)) := by
      refine List.monotone_filter_right _ fun info hinfo => ?_
      rw [Bool.and_eq_true] at hinfo ⊢
      exact ⟨hinfo.1, isOverdue_of_timedOut hinfo.2⟩
    cases hlate : isOverdue now info with
    | false => exact (timedOut_eq_false hlate).symm
    | true =>
      have hmem : info ∈ c.overdue (isOverdue now) :=
        List.mem_filter.2 ⟨hinfo, by rw [hack, hlate]; rfl⟩
      rw [← hsublist.eq_of_length hlength] at hmem
      have htime := (List.mem_filter.1 hmem).2
      rw [Bool.and_eq_true] at htime
      exact htime.2.symm
  · have hoverdue : c.overdue (isOverdue now) = c.overdue (timedOut now) := by
      refine List.filter_congr fun info hinfo => ?_
      cases hack : c.acknowledges info.seqId with
      | true => simp only [Bool.not_true, Bool.false_and]
      | false => rw [hsame info hinfo hack]
    have hwaiting : c.waiting (isOverdue now) = c.waiting (timedOut now) := by
      refine List.filter_congr fun info hinfo => ?_
      cases hack : c.acknowledges info.seqId with
      | true => simp only [Bool.not_true, Bool.false_and]
      | false => rw [hsame info hinfo hack]
    exact ⟨h.ended, h.inBounds, h.examined, by rw [hoverdue, hwaiting]; exact h.memory⟩

theorem mem_dropLast_or_getLast? {l : List RpcInfo} (h : info ∈ l) :
    info ∈ l.dropLast ∨ info ∈ l.getLast? := by
  obtain ⟨rest, last, rfl⟩ := List.eq_nil_or_concat l |>.resolve_left (List.ne_nil_of_mem h)
  rw [List.concat_eq_append] at h ⊢
  rcases List.mem_append.1 h with hrest | hlast
  · exact .inl (by rwa [List.dropLast_concat])
  · rw [List.mem_singleton.1 hlast]
    exact .inr (by simp)

theorem Quiet.atMostLast (h : c.Quiet now) : c.AtMostLast now := by
  exact ⟨h.unacknowledged, fun info hinfo => timedOut_eq_false (h.inTime info hinfo)⟩

theorem AtMostLast.quiet_iff (h : c.AtMostLast now) : c.Quiet now ↔ ∀ info ∈ c.rpcMemory,
    c.acknowledges info.seqId = false → isOverdue now info = timedOut now info := by
  refine ⟨fun hquiet info hinfo _ => ?_, fun hsame => ⟨h.unacknowledged, fun info hinfo => ?_,
    fun info hinfo hlate => ?_⟩⟩
  · rcases mem_dropLast_or_getLast? hinfo with hrest | hlast
    · rw [hquiet.inTime info hrest, h.inTime info hrest]
    · cases hlate : isOverdue now info with
      | true => exact (timedOut_iff.2 (hquiet.noticed info hlast hlate)).symm
      | false => exact (timedOut_eq_false hlate).symm
  · have hmem := List.dropLast_subset _ hinfo
    rw [hsame info hmem (h.unacknowledged info hmem)]
    exact h.inTime info hinfo
  · have hmem := List.mem_of_getLast? hinfo
    rw [hsame info hmem (h.unacknowledged info hmem)] at hlate
    exact timedOut_iff.1 hlate

/-- **One acknowledgement pass does all its work**, whatever the memory, the acknowledgement state,
the clock and the platform, if and only if no entry is acknowledged, none but the last is overdue,
and if the last one is, by the five nanoseconds that the comparison needs to notice. -/
theorem allWorkDone_iff (β : Type) (P : Platform) (clk : SteadyClock) (reads : Nat)
    (c : UdpConnection ε) :
    AllWorkDone (isOverdue (clk.read reads)) P clk (clk.read reads) c
        (c.tracedPass P clk reads : TracedPass ε β) ↔
      c.Quiet (clk.read reads) := by
  rcases tracedPass_cases β P clk reads c with ⟨hspoiled, hnot⟩ | ⟨hdone, hlast⟩
  · exact iff_of_false hspoiled.not_done fun hquiet => hnot hquiet.atMostLast
  · rw [hdone.isOverdue_iff, hlast.quiet_iff]

/-- A single acknowledged entry: `end()` is moved on. -/
theorem not_allWorkDone_acknowledged :
    ¬ AllWorkDone (isOverdue 0) .x86 (.still 0) 0
      { remoteEndpoint := (), rpcMemory := [⟨0, 0, 16, .zero, 0, 0⟩] }
      (tracedPass .x86 (.still 0) 0
        { remoteEndpoint := (), rpcMemory := [⟨0, 0, 16, .zero, 0, 0⟩] } :
        TracedPass Unit Unit) := by
  intro h
  have hin := h.inBounds
  revert hin
  decide

end

end UdpConnection

end NetSiege
