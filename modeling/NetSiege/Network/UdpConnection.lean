import Mathlib.Data.List.Perm.Basic
import NetSiege.Lib.Loop
import NetSiege.Network.AckRecord
import NetSiege.Network.RpcPackage
import NetSiege.Network.SteadyTime

/-!
# Connections (`udpconnection.h`, `network.proto`)

`UdpConnection` is one end of a connection: its receive record, its counters and `m_rpcMemory`, the
sent calls it waits for. `refresh` records an incoming id and then passes over the memory
(`processRpcAcknowledges`), erasing what counts as acknowledged and resending what timed out.
`AckPass.Inv` is the invariant of that pass. `refresh` does not read its arguments `ack` and
`ackMask`: the pass looks an entry's id up in the record of what this end *received*.
-/

namespace NetSiege

open Lib

/-- `PROTOCOL_ID = PROTOCOL_BASE_ID + PROTOCOL_VERSION`. -/
def protocolId : UInt16 := 0xcd40 + 15

/-- `pb::RPC`. -/
structure RPC where
  msgSeqId : UInt32
  rpcId : UInt32
  rpcData : List UInt8
deriving DecidableEq, Repr

/-- `pb::S2CMessage` and `pb::C2SMessage`: header, call, and the rest of the message in `β`. -/
structure Message (β : Type) where
  protocolId : UInt32 := 0
  seqId : UInt32 := 0
  ackSeqId : UInt32 := 0
  ackMask : UInt32 := 0
  rpc : Option RPC := none
  body : Option β := none
deriving DecidableEq, Repr

/-- `UdpConnection::rpc_info_t`. -/
structure RpcInfo where
  msgId : SeqId
  seqId : SeqId
  rpcId : RpcId
  data : RpcData
  dataSize : Nat
  timeOfSend : Time
deriving DecidableEq

/-- The call an entry of the memory stands for. -/
def RpcInfo.rpc (info : RpcInfo) : RPC :=
  ⟨info.msgId.toUInt32, info.rpcId.toUInt32, info.data.bytes.take info.dataSize⟩

/-- `UdpConnection`, with its initial values. -/
structure UdpConnection (ε : Type) extends AckRecord where
  remoteEndpoint : ε
  timeOfLastAck : Time := 0
  seqId : SeqId := 0
  nextMsgId : SeqId := 0
  rpcMemory : List RpcInfo := []
deriving DecidableEq

/-- The arguments of `RPCDispatcher::executeReceivedCall`. -/
structure ReceivedCall where
  senderId : UInt16
  rpcId : RpcId
  rpcData : List UInt8
deriving DecidableEq

namespace UdpConnection

variable {ε β β' : Type}

/-- `UdpConnection::sendPackage`: fill in the header. The package goes to the remote endpoint. The
assertion that it is smaller than `MAX_PACKAGE_SIZE` is a matter of its own
(`NetworkServer.alwaysFit_iff`). -/
def sendPackage (c : UdpConnection ε) (msg : Message β) : UdpConnection ε × Message β :=
  ({ c with seqId := c.seqId + 1 },
    { msg with
      protocolId := NetSiege.protocolId.toUInt32
      seqId := c.seqId.toUInt32
      ackSeqId := c.remoteSeqId.toUInt32
      ackMask := UInt32.ofNat c.ackMask.toNat })

/-- The private `UdpConnection::remoteProcedureCall` that is given the message id. -/
def remoteProcedureCallAs (c : UdpConnection ε) (messageId : SeqId) (procedureId : RpcId)
    (data : RpcData) (dataSize : Nat) (now : Time) : UdpConnection ε × Message β :=
  let rpc : RPC := ⟨messageId.toUInt32, procedureId.toUInt32, data.bytes.take dataSize⟩
  let (c, msg) := c.sendPackage { rpc := some rpc }
  let info : RpcInfo :=
    { msgId := rpc.msgSeqId.toUInt16, seqId := msg.seqId.toUInt16, rpcId := procedureId, data,
      dataSize, timeOfSend := now }
  ({ c with rpcMemory := c.rpcMemory ++ [info] }, msg)

/-- `UdpConnection::remoteProcedureCall`, with `m_nextMsgId++` for the message id. -/
def remoteProcedureCall (c : UdpConnection ε) (procedureId : RpcId) (data : RpcData)
    (dataSize : Nat) (now : Time) : UdpConnection ε × Message β :=
  { c with nextMsgId := c.nextMsgId + 1 }.remoteProcedureCallAs c.nextMsgId procedureId data
    dataSize now

/-- `UdpConnection::remoteProcedureCall` of a package. -/
def remoteProcedureCallPackage (c : UdpConnection ε) (rpc : RPCPackage) (now : Time) :
    Except Trap (UdpConnection ε × Message β) := do
  let dataSize ← rpc.dataSize
  .ok (c.remoteProcedureCall rpc.rpcId rpc.data dataSize now)

/-- The state of the pass over `m_rpcMemory`: the connection, the iterator, how many readings of
the clock were taken, and what happened so far: the packages sent, the entries erased as
acknowledged, and whether `end()` was incremented. -/
structure AckPass (ε β : Type) where
  conn : UdpConnection ε
  it : Nat := 0
  reads : Nat
  sent : List (Message β) := []
  acknowledged : List RpcInfo := []
  overran : Bool := false

/-- The `it++` of the loop. -/
def AckPass.advance (P : Platform) (s : AckPass ε β) : AckPass ε β :=
  let len := s.conn.rpcMemory.length
  { s with
    it := if s.it < len then s.it + 1 else min (P.pastEnd len) len
    overran := s.overran || decide (len ≤ s.it) }

/-- `m_rpcMemory.erase(it)`, which leaves the iterator at the next entry. -/
def AckPass.eraseIt (s : AckPass ε β) : AckPass ε β :=
  { s with conn := { s.conn with rpcMemory := s.conn.rpcMemory.eraseIdx s.it } }

/-- `time_span.count() > PACKAGE_LOSS_TIMEOUT`: the entry's package counts as lost. -/
def timedOut (now : Time) (info : RpcInfo) : Bool :=
  floatSeconds (now - info.timeOfSend) > packageLossTimeout

/-- The acknowledged entry at the iterator is erased. -/
def AckPass.drop (s : AckPass ε β) (info : RpcInfo) : AckPass ε β :=
  { s.eraseIt with acknowledged := s.acknowledged ++ [info] }

/-- The call of the entry at the iterator is sent again, which appends an entry for it, and the
entry is erased. -/
def AckPass.resend (clk : SteadyClock) (s : AckPass ε β) (info : RpcInfo) : AckPass ε β :=
  let (conn, msg) :=
    s.conn.remoteProcedureCallAs info.msgId info.rpcId info.data info.dataSize (clk.read s.reads)
  { s with conn, reads := s.reads + 1, sent := s.sent ++ [msg] }.eraseIt

/-- One turn of the loop of `processRpcAcknowledges`. -/
def AckPass.turn (P : Platform) (clk : SteadyClock) (now : Time) (s : AckPass ε β) :
    Option (AckPass ε β) :=
  match s.conn.rpcMemory[s.it]? with
  | none => none
  | some info =>
    if s.conn.acknowledges info.seqId then some ((s.drop info).advance P)
    else if timedOut now info then some ((s.resend clk info).advance P)
    else some (s.advance P)

/-- The entries that still count as lost. -/
def lost (now : Time) (c : UdpConnection ε) : Nat := c.rpcMemory.countP (timedOut now)

/-- Every turn of the pass decreases this: an erased entry is gone or was lost and is resent in
time, and between two erasures the iterator moves on. -/
def AckPass.measure (now : Time) (s : AckPass ε β) : Nat :=
  (s.conn.rpcMemory.length + s.conn.lost now) * (s.conn.rpcMemory.length + 2) +
    (s.conn.rpcMemory.length - s.it)

/-- `UdpConnection::processRpcAcknowledges`, from the given reading of the clock. -/
def processRpcAcknowledges (P : Platform) (clk : SteadyClock) (reads : Nat)
    (c : UdpConnection ε) : AckPass ε β :=
  let now := clk.read reads
  loop (AckPass.turn P clk now) (AckPass.measure now) { conn := c, reads := reads + 1 }

/-- The connection of `refresh` when its pass begins. -/
def recordPackage (P : Platform) (now : Time) (c : UdpConnection ε) (remoteSeqId : SeqId) :
    UdpConnection ε :=
  { c with toAckRecord := c.record P remoteSeqId, timeOfLastAck := now }

/-- `UdpConnection::refresh`. -/
def refresh (P : Platform) (clk : SteadyClock) (c : UdpConnection ε) (remoteSeqId _ack : SeqId)
    (_ackMask : AckMask) : AckPass ε β :=
  processRpcAcknowledges P clk 1 (c.recordPackage P (clk.read 0) remoteSeqId)

/-- `UdpConnection::parsePackage`. The call, if the message has one, is the dispatcher's to
execute; the result of the source is whether there is one. -/
def parsePackage (P : Platform) (clk : SteadyClock) (c : UdpConnection ε) (msg : Message β')
    (srcClientId : UInt16) : AckPass ε β × Option ReceivedCall :=
  let pass := c.refresh P clk msg.seqId.toUInt16 msg.ackSeqId.toUInt16
    (BitVec.ofNat 16 msg.ackMask.toNat)
  (pass, msg.rpc.map fun rpc => ⟨srcClientId, rpc.rpcId.toUInt16, rpc.rpcData⟩)

/-! ## The pass over the memory -/

section
variable {P : Platform} {clk : SteadyClock} {now : Time} {c : UdpConnection ε}
  {s s' : AckPass ε β} {info : RpcInfo}

/-- The entry a resend leaves in the memory. -/
def resent (c : UdpConnection ε) (info : RpcInfo) (now : Time) : RpcInfo :=
  { info with seqId := c.seqId, timeOfSend := now }

/-- The package of a resend. -/
def resendMessage (c : UdpConnection ε) (info : RpcInfo) : Message β :=
  (c.sendPackage { rpc := some info.rpc }).2

theorem remoteProcedureCallAs_info :
    c.remoteProcedureCallAs info.msgId info.rpcId info.data info.dataSize now =
      ({ c with seqId := c.seqId + 1, rpcMemory := c.rpcMemory ++ [c.resent info now] },
        (c.resendMessage info : Message β)) := by
  simp [remoteProcedureCallAs, sendPackage, resent, resendMessage, RpcInfo.rpc]

theorem AckPass.resend_eq (hit : s.it < s.conn.rpcMemory.length) : s.resend clk info = { s with
    conn := { s.conn with
      seqId := s.conn.seqId + 1
      rpcMemory := s.conn.rpcMemory.eraseIdx s.it ++ [s.conn.resent info (clk.read s.reads)] }
    reads := s.reads + 1
    sent := s.sent ++ [s.conn.resendMessage info] } := by
  rw [resend, remoteProcedureCallAs_info]
  simp only [eraseIt, List.eraseIdx_append_of_lt_length hit]

/-- What a turn can do with the entry at the iterator: erase it, resend it, or keep it. -/
theorem AckPass.turn_cases (h : s.turn P clk now = some s') :
    ∃ info, s.conn.rpcMemory[s.it]? = some info ∧
      (s.conn.acknowledges info.seqId = true ∧ s' = (s.drop info).advance P ∨
        timedOut now info = true ∧ s' = (s.resend clk info).advance P ∨
        s' = s.advance P) := by
  unfold turn at h
  split at h
  · cases h
  next info hinfo =>
  refine ⟨info, hinfo, ?_⟩
  split at h
  · next hacked => exact .inl ⟨hacked, (Option.some.inj h).symm⟩
  split at h
  · next hlost => exact .inr (.inl ⟨hlost, (Option.some.inj h).symm⟩)
  · exact .inr (.inr (Option.some.inj h).symm)

theorem timedOut_iff : timedOut now info = true ↔ 300000016 < now - info.timeOfSend := by
  rw [timedOut, decide_eq_true_iff]
  exact packageLossTimeout_lt_iff

theorem timedOut_of_le (h : now ≤ info.timeOfSend) : timedOut now info = false := by
  rw [← Bool.not_eq_true, timedOut_iff, Nat.sub_eq_zero_of_le h]
  decide

theorem perm_eraseIdx {l : List RpcInfo} {i : Nat} (h : l[i]? = some info) :
    l.Perm (info :: l.eraseIdx i) := by
  obtain ⟨hi, rfl⟩ := List.getElem?_eq_some_iff.1 h
  exact (List.getElem_cons_eraseIdx_perm hi).symm

theorem lost_eq_add (now : Time) {i : Nat} (h : c.rpcMemory[i]? = some info) : c.lost now =
    (c.rpcMemory.eraseIdx i).countP (timedOut now) + if timedOut now info then 1 else 0 := by
  rw [lost, (perm_eraseIdx h).countP_eq, List.countP_cons]

/-- The ids under which the pass from `c` may look entries up: those in the memory, and those it
gives to the entries that count as lost. -/
def MayLookUp (c : UdpConnection ε) (now : Time) (x : SeqId) : Prop :=
  (∃ info ∈ c.rpcMemory, info.seqId = x) ∨ ∃ k < c.lost now, x = c.seqId + UInt16.ofNat k

/-- The invariant of the pass that started from `c` at the clock reading `now`. -/
structure AckPass.Inv (clk : SteadyClock) (now : Time) (c : UdpConnection ε)
    (s : AckPass ε β) : Prop where
  record : s.conn.toAckRecord = c.toAckRecord
  remoteEndpoint : s.conn.remoteEndpoint = c.remoteEndpoint
  reads : now ≤ clk.read s.reads
  /-- Every entry is resent at most once. -/
  budget : s.sent.length + s.conn.lost now ≤ c.lost now
  seqId : s.conn.seqId = c.seqId + UInt16.ofNat s.sent.length
  memory : ∀ info ∈ s.conn.rpcMemory, c.MayLookUp now info.seqId
  acknowledged : ∀ info ∈ s.acknowledged,
    c.acknowledges info.seqId = true ∧ c.MayLookUp now info.seqId
  /-- No entry leaves the memory unnoticed. -/
  complete : ∀ info ∈ c.rpcMemory, info ∈ s.conn.rpcMemory ∨ info ∈ s.acknowledged ∨
    ∃ msg ∈ s.sent, msg.rpc = some info.rpc
  /-- Only calls are sent. -/
  sent : ∀ msg ∈ s.sent, msg.body = none

theorem AckPass.Inv.init (h : now ≤ clk.read n) :
    AckPass.Inv clk now c ({ conn := c, reads := n } : AckPass ε β) where
  record := rfl
  remoteEndpoint := rfl
  reads := h
  budget := by simp
  seqId := by simp
  memory info hinfo := .inl ⟨info, hinfo, rfl⟩
  acknowledged _ h := nomatch h
  complete _ hinfo := .inl hinfo
  sent _ h := nomatch h

theorem AckPass.Inv.mayLookUp (H : s.Inv clk now c)
    (h : info ∈ s.conn.rpcMemory.eraseIdx s.it) : c.MayLookUp now info.seqId :=
  H.memory info (List.mem_of_mem_eraseIdx h)

theorem AckPass.Inv.drop (H : s.Inv clk now c) (hinfo : s.conn.rpcMemory[s.it]? = some info)
    (hacked : s.conn.acknowledges info.seqId = true) : (s.drop info).Inv clk now c where
  record := H.record
  remoteEndpoint := H.remoteEndpoint
  reads := H.reads
  budget := by
    have hbudget := H.budget
    rw [lost_eq_add now hinfo] at hbudget
    change s.sent.length + (s.conn.rpcMemory.eraseIdx s.it).countP (timedOut now) ≤ _
    omega
  seqId := H.seqId
  memory _ he := H.mayLookUp he
  acknowledged e he := by
    rcases List.mem_append.1 he with he | he
    · exact H.acknowledged e he
    · cases List.mem_singleton.1 he
      rw [← H.record]
      exact ⟨hacked, H.memory _ (List.mem_of_getElem? hinfo)⟩
  complete e he := by
    rcases H.complete e he with he | he | he
    · rcases List.mem_cons.1 ((perm_eraseIdx hinfo).mem_iff.1 he) with rfl | he
      · exact .inr (.inl (List.mem_append_right _ (List.mem_singleton_self _)))
      · exact .inl he
    · exact .inr (.inl (List.mem_append_left _ he))
    · exact .inr (.inr he)
  sent := H.sent

theorem AckPass.Inv.resend (H : s.Inv clk now c) (hinfo : s.conn.rpcMemory[s.it]? = some info)
    (htimeout : timedOut now info = true) : (s.resend clk info).Inv clk now c := by
  have hlost := lost_eq_add now hinfo
  rw [if_pos htimeout] at hlost
  have hbudget := H.budget
  have hfresh : timedOut now (s.conn.resent info (clk.read s.reads)) = false :=
    timedOut_of_le H.reads
  rw [AckPass.resend_eq (List.getElem?_eq_some_iff.1 hinfo).1]
  exact {
    record := H.record
    remoteEndpoint := H.remoteEndpoint
    reads := Nat.le_trans H.reads (clk.mono (Nat.le_succ _))
    budget := by
      simp only [lost, List.countP_append, List.countP_singleton, hfresh, List.length_append,
        List.length_singleton, Bool.false_eq_true, if_false] at hlost hbudget ⊢
      omega
    seqId := by
      simp only [H.seqId, List.length_append, List.length_singleton, UInt16.ofNat_add,
        UInt16.add_assoc]
      rfl
    memory := by
      intro e he
      rcases List.mem_append.1 he with he | he
      · exact H.mayLookUp he
      · cases List.mem_singleton.1 he
        exact .inr ⟨s.sent.length, by omega, H.seqId⟩
    acknowledged := H.acknowledged
    complete := by
      intro e he
      rcases H.complete e he with he | he | ⟨msg, hmsg, hrpc⟩
      · rcases List.mem_cons.1 ((perm_eraseIdx hinfo).mem_iff.1 he) with rfl | he
        · exact .inr (.inr ⟨_, List.mem_append_right _ (List.mem_singleton_self _), rfl⟩)
        · exact .inl (List.mem_append_left _ he)
      · exact .inr (.inl he)
      · exact .inr (.inr ⟨msg, List.mem_append_left _ hmsg, hrpc⟩)
    sent := by
      intro msg hmsg
      rcases List.mem_append.1 hmsg with hmsg | hmsg
      · exact H.sent msg hmsg
      · cases List.mem_singleton.1 hmsg
        rfl }

/-- The invariant does not depend on the iterator. -/
theorem AckPass.Inv.advance (H : s.Inv clk now c) : (s.advance P).Inv clk now c where
  __ := H

/-- Every turn keeps the invariant. -/
theorem AckPass.Inv.turn (H : s.Inv clk now c) (h : s.turn P clk now = some s') :
    s'.Inv clk now c := by
  obtain ⟨info, hinfo, ⟨hacked, rfl⟩ | ⟨htimeout, rfl⟩ | rfl⟩ := turn_cases h
  · exact (H.drop hinfo hacked).advance
  · exact (H.resend hinfo htimeout).advance
  · exact H.advance

theorem AckPass.measure_advance_le (s : AckPass ε β) : (s.advance P).measure now ≤
    (s.conn.rpcMemory.length + s.conn.lost now) * (s.conn.rpcMemory.length + 2) +
      s.conn.rpcMemory.length :=
  Nat.add_le_add_left (Nat.sub_le _ _) _

theorem mul_add_lt_mul {a a' l l' : Nat} (ha : a' < a) (hl : l' ≤ l) :
    a' * (l' + 2) + l' < a * (l + 2) := by
  calc a' * (l' + 2) + l'
    _ < a' * (l' + 2) + (l' + 2) := by omega
    _ = (a' + 1) * (l' + 2) := by rw [Nat.add_mul, Nat.one_mul]
    _ ≤ a * (l + 2) := Nat.mul_le_mul ha (by omega)

/-- Every turn comes closer to the end of the pass. -/
theorem AckPass.Inv.measure_lt (H : s.Inv clk now c) (h : s.turn P clk now = some s') :
    s'.measure now < s.measure now := by
  obtain ⟨info, hinfo, hcases⟩ := turn_cases h
  have hit : s.it < s.conn.rpcMemory.length := (List.getElem?_eq_some_iff.1 hinfo).1
  have hlen := (perm_eraseIdx hinfo).length_eq
  have hlost := lost_eq_add now hinfo
  rw [List.length_cons] at hlen
  rcases hcases with ⟨hacked, rfl⟩ | ⟨htimeout, rfl⟩ | rfl
  · refine Nat.lt_of_le_of_lt (measure_advance_le _)
      (Nat.lt_add_right _ (mul_add_lt_mul ?_ ?_))
    · simp only [AckPass.drop, eraseIt, lost] at hlost ⊢
      omega
    · simp only [AckPass.drop, eraseIt]
      omega
  · have hfresh : timedOut now (s.conn.resent info (clk.read s.reads)) = false :=
      timedOut_of_le H.reads
    rw [if_pos htimeout] at hlost
    refine Nat.lt_of_le_of_lt (measure_advance_le _)
      (Nat.lt_add_right _ (mul_add_lt_mul ?_ ?_))
    · simp only [AckPass.resend_eq hit, lost, List.countP_append, List.countP_singleton, hfresh,
        List.length_append, List.length_singleton, Bool.false_eq_true, if_false] at hlost ⊢
      omega
    · simp only [AckPass.resend_eq hit, List.length_append, List.length_singleton]
      omega
  · simp only [measure, AckPass.advance, if_pos hit]
    omega

theorem processRpcAcknowledges_inv (P : Platform) (clk : SteadyClock) (reads : Nat)
    (c : UdpConnection ε) :
    (c.processRpcAcknowledges P clk reads : AckPass ε β).Inv clk (clk.read reads) c :=
  loop_invariant (fun _ _ => AckPass.Inv.turn) (.init (clk.mono (Nat.le_succ _)))

/-- The pass ends, with the iterator at `end()`. -/
theorem processRpcAcknowledges_exit (P : Platform) (clk : SteadyClock) (reads : Nat)
    (c : UdpConnection ε) :
    (c.processRpcAcknowledges P clk reads : AckPass ε β).turn P clk (clk.read reads) = none :=
  loop_exit (fun _ _ H h => ⟨H.turn h, H.measure_lt h⟩)
    (AckPass.Inv.init (c := c) (clk.mono (Nat.le_succ _)))

theorem refresh_inv (P : Platform) (clk : SteadyClock) (c : UdpConnection ε)
    (remoteSeqId ack : SeqId) (ackMask : AckMask) :
    (c.refresh P clk remoteSeqId ack ackMask : AckPass ε β).Inv clk (clk.read 1)
      (c.recordPackage P (clk.read 0) remoteSeqId) :=
  processRpcAcknowledges_inv ..

end

/-! ## Acknowledgements along a run -/

/-- The arguments of one call of `refresh`, with the clock it reads. -/
structure Refresh where
  clk : SteadyClock
  remoteSeqId : SeqId
  ack : SeqId
  ackMask : AckMask

/-- The connection after a sequence of incoming packages. -/
def refreshAll (P : Platform) (β : Type) (c : UdpConnection ε) (inputs : List Refresh) :
    UdpConnection ε :=
  inputs.foldl (fun c i => (c.refresh P i.clk i.remoteSeqId i.ack i.ackMask : AckPass ε β).conn) c

theorem toAckRecord_refreshAll (P : Platform) (β : Type) (remoteEndpoint : ε)
    (inputs : List Refresh) : (refreshAll P β { remoteEndpoint } inputs).toAckRecord =
      .recordAll P (inputs.map (·.remoteSeqId)) := by
  induction inputs using List.reverseRecOn with
  | nil => rfl
  | append_singleton inputs i ih =>
    simp only [refreshAll, AckRecord.recordAll, List.foldl_append, List.foldl_cons,
      List.foldl_nil, List.map_append, List.map_cons, List.map_nil] at ih ⊢
    rw [← ih]
    exact (refresh_inv ..).record

/-- What holds of the records along a list of incoming ids holds of the connections that `refresh`
with them. -/
theorem forall_prefix_refreshAll {Q : Platform → AckRecord → List SeqId → Prop} {β : Type}
    {remoteEndpoint : ε} {inputs : List Refresh} :
    (∀ P pre, pre <+: inputs → Q P (refreshAll P β { remoteEndpoint } pre).toAckRecord
      (pre.map (·.remoteSeqId))) ↔
    ∀ P ids, ids <+: inputs.map (·.remoteSeqId) → Q P (.recordAll P ids) ids := by
  simp only [toAckRecord_refreshAll]
  constructor
  · intro H P ids hids
    obtain ⟨n, rfl⟩ : ∃ n, ids = (inputs.take n).map (·.remoteSeqId) := by
      rw [List.prefix_iff_eq_take] at hids
      exact ⟨ids.length, by rw [List.map_take, ← hids]⟩
    exact H P _ (List.take_prefix _ _)
  · intro H P pre hpre
    exact H P _ (hpre.map _)

/-- **No false acknowledgement.** After every `refresh` of a fresh connection, on every platform,
only received ids are acknowledged, if and only if every incoming id marks only received ids. -/
theorem noFalseAck_iff (β : Type) (remoteEndpoint : ε) (inputs : List Refresh) :
    (∀ P pre, pre <+: inputs → pre ≠ [] →
      (refreshAll P β { remoteEndpoint } pre).NoFalseAck (pre.map (·.remoteSeqId))) ↔
    ∀ pre s, pre ++ [s] <+: inputs.map (·.remoteSeqId) →
      AckRecord.MarksOnlyReceived pre (AckRecord.newest pre) s := by
  rw [← AckRecord.noFalseAck_recordAll_iff]
  have hprefix : (∀ P pre, pre <+: inputs → pre.map (·.remoteSeqId) ≠ [] →
      (refreshAll P β { remoteEndpoint } pre).NoFalseAck (pre.map (·.remoteSeqId))) ↔ _ :=
    forall_prefix_refreshAll (Q := fun _ r ids => ids ≠ [] → r.NoFalseAck ids)
  simpa only [ne_eq, List.map_eq_nil_iff] using hprefix

/-- A first package with the id 0 is taken for a late one, and marks the id before it. -/
theorem falseAck_of_first_zero :
    ¬ (refreshAll .x86 Unit { remoteEndpoint := () } [⟨.still 0, 0, 0, 0⟩]).NoFalseAck [0] := by
  intro H
  have hlast := H 65535 (by decide)
  simp at hlast

end UdpConnection

end NetSiege
