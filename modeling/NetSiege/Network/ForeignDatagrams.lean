import NetSiege.Network.ClientIds
import NetSiege.Network.ClientProcess

/-!
# Foreign and malformed datagrams (`udpconnection.h`, `clientsession.cpp`, `networkclient.cpp`)

Nothing reads `protocol_id` on arrival, and the result of `ParseFromArray` is dropped: a foreign
datagram is handled like any other. `parsePackage_untouched_iff` says when handling one leaves a
connection as it was, and `foreign_inert_iff` when it leaves a server or a client as it was.
-/

namespace NetSiege

open Lib ObjectManager

namespace AckRecord

variable {P : Platform} {r : AckRecord} {s : SeqId}

/-- The bit of an id that is not more recent, with the correction after a wrap. -/
def behindOffset (r : AckRecord) (remoteSeqId : SeqId) : Nat :=
  let maskOffset := r.remoteSeqId - remoteSeqId
  (if remoteSeqId > r.remoteSeqId then maxSeqId - maskOffset else maskOffset).toNat

/-- An id that the record need not be changed for: not more recent, and its bit is set or there is
no bit for it. -/
def Recorded (r : AckRecord) (remoteSeqId : SeqId) : Prop :=
  isSeqIdMoreRecent remoteSeqId r.remoteSeqId = false ∧
    (numAcks ≤ r.behindOffset remoteSeqId ∨
      r.ackMask.getLsbD (r.behindOffset remoteSeqId) = true)

theorem isSeqIdMoreRecent_self (s : SeqId) : isSeqIdMoreRecent s s = false := by
  simp [isSeqIdMoreRecent]

theorem record_eq_self_iff : r.record P s = r ↔ r.Recorded s := by
  cases hrecent : isSeqIdMoreRecent s r.remoteSeqId with
  | true =>
    refine iff_of_false (fun h => ?_) (fun h => ?_)
    · have hid := congrArg AckRecord.remoteSeqId h
      rw [remoteSeqId_record, if_pos hrecent] at hid
      rw [hid, isSeqIdMoreRecent_self] at hrecent
      cases hrecent
    · exact absurd (hrecent.symm.trans h.1) (by decide)
  | false =>
    have hrecord : r.record P s =
        if r.behindOffset s < numAcks then
          { r with ackMask := r.ackMask ||| 1#16 <<< r.behindOffset s }
        else r := by
      rw [record, if_neg (by rw [hrecent]; decide)]
      rfl
    rw [hrecord, Recorded, and_iff_right hrecent]
    obtain hlt | hge := Nat.lt_or_ge (r.behindOffset s) numAcks
    · rw [if_pos hlt, or_iff_right (Nat.not_le.2 hlt), ← or_one_shiftLeft_eq_iff _ hlt]
      exact ⟨fun h => congrArg AckRecord.ackMask h, fun h => by rw [h]⟩
    · rw [if_neg (Nat.not_lt.2 hge)]
      exact iff_of_true rfl (.inl hge)

end AckRecord

namespace UdpConnection

variable {ε β : Type} {P : Platform} {clk : SteadyClock} {now : Time} {c : UdpConnection ε}
  {s s' : AckPass ε β} {info : RpcInfo}

/-- An entry of the memory that the pass keeps. -/
def Settled (now : Time) (c : UdpConnection ε) (info : RpcInfo) : Prop :=
  c.acknowledges info.seqId = false ∧ timedOut now info = false

/-- What a turn does with the entry at the iterator, as the source decides it. -/
theorem AckPass.turn_eq (hinfo : s.conn.rpcMemory[s.it]? = some info) :
    s.turn P clk now = some
      (if s.conn.acknowledges info.seqId then (s.drop info).advance P
      else if timedOut now info then (s.resend clk info).advance P
      else s.advance P) := by
  rw [turn, hinfo]
  dsimp only
  split
  · rfl
  · split <;> rfl

/-- The pass from `c` has changed nothing yet, or the memory and its lost entries have become
less. -/
def AckPass.KeptSoFar (now : Time) (c : UdpConnection ε) (s : AckPass ε β) : Prop :=
  s.conn = c ∧ s.it ≤ c.rpcMemory.length ∧ (∀ info ∈ c.rpcMemory.take s.it, Settled now c info) ∨
    s.conn.rpcMemory.length + s.conn.lost now < c.rpcMemory.length + c.lost now

theorem AckPass.Inv.drop_less (hinfo : s.conn.rpcMemory[s.it]? = some info) :
    (s.drop info).conn.rpcMemory.length + (s.drop info).conn.lost now <
      s.conn.rpcMemory.length + s.conn.lost now := by
  have hlen := (perm_eraseIdx hinfo).length_eq
  have hlost := lost_eq_add now hinfo
  rw [List.length_cons] at hlen
  simp only [AckPass.drop, eraseIt, lost] at hlost ⊢
  omega

theorem AckPass.Inv.resend_less (H : s.Inv clk now c)
    (hinfo : s.conn.rpcMemory[s.it]? = some info) (htimeout : timedOut now info = true) :
    (s.resend clk info).conn.rpcMemory.length + (s.resend clk info).conn.lost now <
      s.conn.rpcMemory.length + s.conn.lost now := by
  have hlen := (perm_eraseIdx hinfo).length_eq
  have hlost := lost_eq_add now hinfo
  have hfresh : timedOut now (s.conn.resent info (clk.read s.reads)) = false :=
    timedOut_of_le H.reads
  rw [List.length_cons] at hlen
  rw [if_pos htimeout] at hlost
  simp only [AckPass.resend_eq (List.getElem?_eq_some_iff.1 hinfo).1, lost, List.countP_append,
    List.countP_singleton, hfresh, List.length_append, List.length_singleton, Bool.false_eq_true,
    if_false] at hlost ⊢
  omega

/-- Every turn either changes nothing or makes the memory and its lost entries less. -/
theorem AckPass.KeptSoFar.turn (hInv : s.Inv clk now c) (hkept : s.KeptSoFar now c)
    (h : s.turn P clk now = some s') : s'.KeptSoFar now c := by
  have hle : s.conn.rpcMemory.length + s.conn.lost now ≤ c.rpcMemory.length + c.lost now := by
    obtain ⟨hconn, -, -⟩ | hless := hkept
    · rw [hconn]
    · exact hless.le
  cases hinfo : s.conn.rpcMemory[s.it]? with
  | none =>
    rw [AckPass.turn, hinfo] at h
    cases h
  | some info =>
    rw [turn_eq hinfo, Option.some.injEq] at h
    split at h
    · subst h
      exact .inr ((AckPass.Inv.drop_less hinfo).trans_le hle)
    · next hacked =>
      split at h
      · next htimeout =>
        subst h
        exact .inr ((hInv.resend_less hinfo htimeout).trans_le hle)
      · next htimeout =>
        subst h
        obtain ⟨hconn, hit, hsettled⟩ | hless := hkept
        · obtain ⟨hlt, hget⟩ := List.getElem?_eq_some_iff.1 hinfo
          have hit : s.it < c.rpcMemory.length := hconn ▸ hlt
          have hadvance : (s.advance P).it = s.it + 1 := by
            rw [advance]
            exact if_pos hlt
          refine .inl ⟨hconn, by rw [hadvance]; exact hit, fun e he => ?_⟩
          rw [hadvance, List.take_add_one, List.mem_append] at he
          obtain he | he := he
          · exact hsettled e he
          · rw [← hconn, hinfo, Option.toList_some, List.mem_singleton] at he
            rw [he, Settled, ← hconn]
            exact ⟨Bool.eq_false_iff.2 hacked, Bool.eq_false_iff.2 htimeout⟩
        · exact .inr hless

theorem processRpcAcknowledges_keptSoFar (P : Platform) (clk : SteadyClock) (reads : Nat)
    (c : UdpConnection ε) :
    (c.processRpcAcknowledges P clk reads : AckPass ε β).KeptSoFar (clk.read reads) c := by
  have hinit : AckPass.Inv clk (clk.read reads) c
      ({ conn := c, reads := reads + 1 } : AckPass ε β) := .init (clk.mono (Nat.le_succ _))
  have hkept : AckPass.KeptSoFar (clk.read reads) c
      ({ conn := c, reads := reads + 1 } : AckPass ε β) :=
    .inl ⟨rfl, Nat.zero_le _, fun _ hinfo => nomatch hinfo⟩
  have hturn : ∀ s s' : AckPass ε β,
      s.Inv clk (clk.read reads) c ∧ s.KeptSoFar (clk.read reads) c →
        s.turn P clk (clk.read reads) = some s' →
          s'.Inv clk (clk.read reads) c ∧ s'.KeptSoFar (clk.read reads) c :=
    fun _ _ H h => ⟨H.1.turn h, H.2.turn H.1 h⟩
  exact (loop_invariant hturn ⟨hinit, hkept⟩).2

theorem AckPass.conn_of_settled (hsettled : ∀ info ∈ c.rpcMemory, Settled now c info)
    (hconn : s.conn = c) (h : s.turn P clk now = some s') : s'.conn = c := by
  cases hinfo : s.conn.rpcMemory[s.it]? with
  | none =>
    rw [AckPass.turn, hinfo] at h
    cases h
  | some info =>
    obtain ⟨hacked, htimeout⟩ := hsettled info (hconn ▸ List.mem_of_getElem? hinfo)
    rw [turn_eq hinfo, hconn, hacked, htimeout, if_neg Bool.false_ne_true,
      if_neg Bool.false_ne_true, Option.some.injEq] at h
    rw [← h]
    exact hconn

/-- The pass leaves the memory as it is if and only if it keeps every entry. -/
theorem processRpcAcknowledges_memory_iff {reads : Nat} :
    (c.processRpcAcknowledges P clk reads : AckPass ε β).conn.rpcMemory = c.rpcMemory ↔
      ∀ info ∈ c.rpcMemory, Settled (clk.read reads) c info := by
  constructor
  · intro hmemory
    obtain ⟨hconn, hit, hsettled⟩ | hless :=
      processRpcAcknowledges_keptSoFar (β := β) P clk reads c
    · -- the iterator is at the end, so all entries are before it
      have hexit := processRpcAcknowledges_exit (β := β) P clk reads c
      have hend : c.rpcMemory.length ≤ (c.processRpcAcknowledges P clk reads : AckPass ε β).it := by
        rw [← List.getElem?_eq_none_iff]
        cases hinfo : c.rpcMemory[(c.processRpcAcknowledges P clk reads : AckPass ε β).it]? with
        | none => rfl
        | some info =>
          rw [← hmemory] at hinfo
          rw [AckPass.turn_eq hinfo] at hexit
          cases hexit
      rwa [List.take_of_length_le hend] at hsettled
    · rw [lost, lost, hmemory] at hless
      exact absurd hless (Nat.lt_irrefl _)
  · intro hsettled
    have hconn : (c.processRpcAcknowledges P clk reads : AckPass ε β).conn = c :=
      loop_invariant (fun _ _ => AckPass.conn_of_settled hsettled) rfl
    rw [hconn]

theorem AckPass.turn_timeOfLastAck (h : s.turn P clk now = some s') :
    s'.conn.timeOfLastAck = s.conn.timeOfLastAck := by
  obtain ⟨info, hinfo, ⟨-, rfl⟩ | ⟨-, rfl⟩ | rfl⟩ := AckPass.turn_cases h
  · rfl
  · rw [AckPass.resend_eq (List.getElem?_eq_some_iff.1 hinfo).1]
    rfl
  · rfl

theorem processRpcAcknowledges_timeOfLastAck (P : Platform) (clk : SteadyClock) (reads : Nat)
    (c : UdpConnection ε) :
    (c.processRpcAcknowledges P clk reads : AckPass ε β).conn.timeOfLastAck = c.timeOfLastAck := by
  have hturn : ∀ s s' : AckPass ε β, s.conn.timeOfLastAck = c.timeOfLastAck →
      s.turn P clk (clk.read reads) = some s' → s'.conn.timeOfLastAck = c.timeOfLastAck :=
    fun _ _ H h => (AckPass.turn_timeOfLastAck h).trans H
  exact loop_invariant hturn rfl

/-- `m_remoteSeqId`, `m_ackMask`, `m_rpcMemory` and `m_timeOfLastAck` are as they were. -/
structure Untouched (c c' : UdpConnection ε) : Prop where
  record : c'.toAckRecord = c.toAckRecord
  memory : c'.rpcMemory = c.rpcMemory
  timeOfLastAck : c'.timeOfLastAck = c.timeOfLastAck

/-- A package with this id comes at the time of the last one, its id need not be recorded, and no
sent call is acknowledged or counts as lost. -/
structure NothingToDo (clk : SteadyClock) (c : UdpConnection ε) (remoteSeqId : SeqId) : Prop where
  timeOfLastAck : clk.read 0 = c.timeOfLastAck
  recorded : c.toAckRecord.Recorded remoteSeqId
  settled : ∀ info ∈ c.rpcMemory, Settled (clk.read 1) c info

/-- Parsing a message leaves a connection untouched if and only if it finds nothing to do. -/
theorem parsePackage_untouched_iff {β' : Type} (P : Platform) (clk : SteadyClock)
    (c : UdpConnection ε) (msg : Message β') (srcClientId : UInt16) :
    c.Untouched (c.parsePackage P clk msg srcClientId : AckPass ε β × _).1.conn ↔
      c.NothingToDo clk msg.seqId.toUInt16 := by
  have hInv := refresh_inv (β := β) P clk c msg.seqId.toUInt16 msg.ackSeqId.toUInt16
    (BitVec.ofNat 16 msg.ackMask.toNat)
  have hrecord : (c.parsePackage P clk msg srcClientId : AckPass ε β × _).1.conn.toAckRecord =
      c.record P msg.seqId.toUInt16 := hInv.record
  have htime : (c.parsePackage P clk msg srcClientId : AckPass ε β × _).1.conn.timeOfLastAck =
      clk.read 0 := processRpcAcknowledges_timeOfLastAck P clk 1 _
  have hmemory : (c.parsePackage P clk msg srcClientId : AckPass ε β × _).1.conn.rpcMemory =
      c.rpcMemory ↔ ∀ info ∈ c.rpcMemory,
        Settled (clk.read 1) (c.recordPackage P (clk.read 0) msg.seqId.toUInt16) info :=
    processRpcAcknowledges_memory_iff
  have hsettled : c.record P msg.seqId.toUInt16 = c.toAckRecord → ∀ info,
      (Settled (clk.read 1) (c.recordPackage P (clk.read 0) msg.seqId.toUInt16) info ↔
        Settled (clk.read 1) c info) := by
    intro hsame info
    rw [Settled, Settled, recordPackage, hsame]
  constructor
  · intro H
    have hsame := hrecord.symm.trans H.record
    refine ⟨htime.symm.trans H.timeOfLastAck, AckRecord.record_eq_self_iff.1 hsame, ?_⟩
    intro info hinfo
    exact (hsettled hsame info).1 (hmemory.1 H.memory info hinfo)
  · intro H
    have hsame := AckRecord.record_eq_self_iff (P := P).2 H.recorded
    refine ⟨hrecord.trans hsame, hmemory.2 fun info hinfo => ?_, htime.trans H.timeOfLastAck⟩
    exact (hsettled hsame info).2 (H.settled info hinfo)

end UdpConnection

/-! ## Servers and clients -/

namespace RPCDispatcher

variable {γ : Type} {d : RPCDispatcher γ} {senderId : UInt16} {id : RpcId}

theorem findRpcHandler_eq_none : d.findRpcHandler senderId id = none ↔
    ∀ k handler, d.handlers.find? k = some handler → handler.id = id →
      handler.clientId ≠ 0 ∧ handler.clientId ≠ senderId := by
  rw [findRpcHandler, Option.map_eq_none_iff, List.find?_eq_none]
  simp only [Prod.forall, OrdMap.mem_entries, Bool.and_eq_true, Bool.or_eq_true, beq_iff_eq,
    not_and, not_or]

theorem executePackage_eq_none {package : RPCPackage} :
    d.executePackage senderId package = .ok none ↔
      d.findRpcHandler senderId package.rpcId = none := by
  constructor
  · intro h
    unfold executePackage at h
    split at h
    · assumption
    · split at h
      · obtain ⟨args, -, h⟩ := bind_eq_ok.1 h
        cases h
      · cases h
      · cases h
  · intro h
    rw [executePackage, h]

/-- A received call runs nothing if and only if it finds no handler. -/
theorem executeReceivedCall_eq_none {data : List UInt8} {stack : RpcData} :
    d.executeReceivedCall senderId id data stack = .ok none ↔
      d.findRpcHandler senderId id = none := by
  constructor
  · intro h
    unfold executeReceivedCall at h
    split at h
    · assumption
    · obtain ⟨arrayData, -, h⟩ := bind_eq_ok.1 h
      exact executePackage_eq_none.1 h
  · intro h
    rw [executeReceivedCall, h]

end RPCDispatcher

/-- A message that is foreign or malformed; the flag is the result of `ParseFromArray`. -/
def Foreign {β : Type} (parsed : Bool) (msg : Message β) : Prop :=
  parsed = false ∨ msg.protocolId ≠ protocolId.toUInt32

namespace NetworkServer

variable {ε σ V : Type} [LinearOrder ε] {P : Platform} {H : ScriptHost σ V}

section
variable (P : Platform) (H : ScriptHost σ V)

/-- A datagram runs no handler, and leaves the sessions and the objects as they were. -/
def Inert (s : NetworkServer ε σ) (e : ε) (msg : Message Unit) (stack : RpcData)
    (clk : SteadyClock) (now : ε → Time) : Prop :=
  s.received P e msg stack clk = .ok none ∧
    ∃ s' sent, s.handleReceive P H e msg stack clk now = .ok (s', sent) ∧
      s'.objectManager = s.objectManager ∧
      ∀ e' c, s.clients.find? e' = some c → ∃ c', s'.clients.find? e' = some c' ∧
        c.toUdpConnection.Untouched c'.toUdpConnection

/-- The client id a datagram from the endpoint is parsed with. -/
def senderId (s : NetworkServer ε σ) (e : ε) : UInt16 :=
  (((s.clients.find? e).map (·.clientId)).getD s.nextClientId).toUInt16

/-- No handler is registered for the call of a datagram, and it finds nothing to do in the session
of its endpoint, if there is one. -/
def Unheeded (s : NetworkServer ε σ) (e : ε) (msg : Message Unit) (clk : SteadyClock) : Prop :=
  (∀ rpc, msg.rpc = some rpc → ∀ k handler, s.handlers.find? k = some handler →
    handler.id = rpc.rpcId.toUInt16 →
      handler.clientId ≠ 0 ∧ handler.clientId ≠ s.senderId e) ∧
  ∀ c, s.clients.find? e = some c → c.toUdpConnection.NothingToDo clk msg.seqId.toUInt16

end

variable {s : NetworkServer ε σ} {e : ε} {msg : Message Unit} {stack : RpcData} {clk : SteadyClock}
  {now : ε → Time}

theorem senderId_eq (s : NetworkServer ε σ) (e : ε) :
    s.senderId e = (s.connect e).2.clientId.toUInt16 := by
  unfold senderId connect
  cases s.clients.find? e with
  | none => rfl
  | some client => rfl

theorem received_eq_none : s.received P e msg stack clk = .ok none ↔
    ∀ rpc, msg.rpc = some rpc → ∀ k handler, s.handlers.find? k = some handler →
      handler.id = rpc.rpcId.toUInt16 →
        handler.clientId ≠ 0 ∧ handler.clientId ≠ s.senderId e := by
  have hdispatcher : (s.connect e).1.toRPCDispatcher = s.toRPCDispatcher := by
    unfold connect
    cases s.clients.find? e <;> rfl
  simp only [received, parse, UdpConnection.parsePackage, senderId_eq]
  cases hrpc : msg.rpc with
  | none => simp
  | some rpc =>
    simp only [Option.map_some, hdispatcher, RPCDispatcher.executeReceivedCall_eq_none,
      RPCDispatcher.findRpcHandler_eq_none, Option.some.injEq, forall_eq']

/-- What a datagram that no handler hears does to the server. -/
theorem handleReceive_of_unheard (h : s.received P e msg stack clk = .ok none) :
    s.handleReceive P H e msg stack clk now =
      .ok ((s.parse P e msg clk).1, (s.parse P e msg clk).2.1 ++ []) := by
  simp only [handleReceive, h, bind, Except.bind, invoke]

theorem parse_objectManager : (s.parse P e msg clk).1.objectManager = s.objectManager := by
  unfold parse connect
  cases s.clients.find? e <;> rfl

/-- The session of the endpoint after parsing. -/
theorem parse_session (P : Platform) (msg : Message Unit) (clk : SteadyClock)
    {c : ClientSession ε} (hc : s.clients.find? e = some c) :
    ∃ pass : UdpConnection.AckPass ε WorldStateUpdate,
      pass = (c.parsePackage P clk msg c.clientId.toUInt16).1 ∧
      (s.parse P e msg clk).1.clients.find? e = some { c with toUdpConnection := pass.conn } := by
  refine ⟨_, rfl, ?_⟩
  simp only [parse, connect, hc]
  exact OrdMap.find?_insert_self

/-- A datagram is inert for the server if and only if nobody heeds it. -/
theorem inert_iff : s.Inert P H e msg stack clk now ↔ s.Unheeded e msg clk := by
  refine (and_congr_right fun hreceived => ?_).trans (and_congr_left' received_eq_none)
  rw [handleReceive_of_unheard hreceived]
  constructor
  · rintro ⟨s', sent, hs', -, hsessions⟩ c hc
    cases hs'
    obtain ⟨c', hc', huntouched⟩ := hsessions e c hc
    obtain ⟨pass, rfl, hsession⟩ := parse_session P msg clk hc
    rw [hsession, Option.some.injEq] at hc'
    subst hc'
    exact (UdpConnection.parsePackage_untouched_iff ..).1 huntouched
  · intro hnothing
    refine ⟨_, _, rfl, parse_objectManager, fun e' c hc => ?_⟩
    obtain rfl | hne := eq_or_ne e' e
    · obtain ⟨pass, rfl, hsession⟩ := parse_session P msg clk hc
      refine ⟨_, hsession, ?_⟩
      exact (UdpConnection.parsePackage_untouched_iff ..).2 (hnothing c hc)
    · exact ⟨c, ((parse_find? s e msg clk).2 e' hne).trans hc, rfl, rfl, rfl⟩

end NetworkServer

namespace ClientProcess

variable {ε σ V : Type} {P : Platform} {H : ScriptHost σ V} {alloc : Allocator σ}
  {M : CampaignModule}

section
variable (P : Platform) (H : ScriptHost σ V) (alloc : Allocator σ)

/-- A datagram runs no handler, and leaves the connection and the objects as they were; none of the
descriptions it brings creates or changes an object on the way. -/
def Inert (c : ClientProcess ε σ) (e : ε) (msg : Message WorldStateUpdate) (stack : RpcData)
    (clk : SteadyClock) (now : Time) : Prop :=
  (∀ rpc, msg.rpc = some rpc →
    c.executeReceivedCall 0 rpc.rpcId.toUInt16 rpc.rpcData stack = .ok none) ∧
  ∃ c' sent, c.receive P H alloc e msg stack clk now = .ok (c', sent) ∧
    c.toUdpConnection.Untouched c'.toUdpConnection ∧
    (∀ id, c'.toNetworkClient.lookup id = c.toNetworkClient.lookup id) ∧
    ∀ update m, c.toNetworkClient.updateOf msg = some update → c.objectManager = some m →
      m.Unchanging H alloc update.updatedObjects

end

/-- No handler is registered for the call of a datagram, it finds nothing to do in the connection,
and the update it brings, if it has no call, tells the world nothing new. -/
def Unheeded (c : ClientProcess ε M.Object) (msg : Message WorldStateUpdate) (clk : SteadyClock) :
    Prop :=
  (∀ rpc, msg.rpc = some rpc → ∀ k handler, c.handlers.find? k = some handler →
    handler.id = rpc.rpcId.toUInt16 → handler.clientId ≠ 0) ∧
  c.toUdpConnection.NothingToDo clk msg.seqId.toUInt16 ∧
  ∀ update m, c.toNetworkClient.updateOf msg = some update → c.objectManager = some m →
    m.NothingNew update

variable {c : ClientProcess ε σ} {e : ε} {msg : Message WorldStateUpdate} {stack : RpcData}
  {clk : SteadyClock} {now : Time}

theorem unheard_iff :
    (∀ rpc, msg.rpc = some rpc →
      c.executeReceivedCall 0 rpc.rpcId.toUInt16 rpc.rpcData stack = .ok none) ↔
    ∀ rpc, msg.rpc = some rpc → ∀ k handler, c.handlers.find? k = some handler →
      handler.id = rpc.rpcId.toUInt16 → handler.clientId ≠ 0 := by
  simp only [RPCDispatcher.executeReceivedCall_eq_none, RPCDispatcher.findRpcHandler_eq_none,
    and_self]

/-- The connection after a datagram was parsed. -/
def parsedConnection (P : Platform) (clk : SteadyClock) (c : ClientProcess ε σ) (e : ε)
    (msg : Message WorldStateUpdate) : UdpConnection.AckPass ε Unit :=
  ({ c.toUdpConnection with remoteEndpoint := e }.parsePackage P clk msg 0).1

theorem parsedConnection_untouched_iff :
    c.toUdpConnection.Untouched (c.parsedConnection P clk e msg).conn ↔
      c.toUdpConnection.NothingToDo clk msg.seqId.toUInt16 := by
  have hiff := UdpConnection.parsePackage_untouched_iff (β := Unit) P clk
    { c.toUdpConnection with remoteEndpoint := e } msg 0
  exact ⟨fun H => have H' := hiff.1 ⟨H.record, H.memory, H.timeOfLastAck⟩
      ⟨H'.timeOfLastAck, H'.recorded, H'.settled⟩,
    fun H => have H' := hiff.2 ⟨H.timeOfLastAck, H.recorded, H.settled⟩
      ⟨H'.record, H'.memory, H'.timeOfLastAck⟩⟩

/-- The client after a datagram that no handler hears and that brings no update. -/
theorem receive_of_no_update
    (hunheard : ∀ rpc, msg.rpc = some rpc →
      c.executeReceivedCall 0 rpc.rpcId.toUInt16 rpc.rpcData stack = .ok none)
    (hupdate : c.toNetworkClient.updateOf msg = none) :
    ∃ sent, c.receive P H alloc e msg stack clk now = .ok ({ c with
      toNetworkClient := { c.toNetworkClient with
        toUdpConnection := (c.parsedConnection P clk e msg).conn } }, sent) := by
  unfold receive NetworkClient.handleReceive
  cases hrpc : msg.rpc with
  | some rpc =>
    simp only [UdpConnection.parsePackage, hrpc, Option.map_some, execute, hunheard rpc hrpc, bind,
      Except.bind, parsedConnection]
    exact ⟨_, rfl⟩
  | none =>
    cases hbody : msg.body with
    | none =>
      simp only [UdpConnection.parsePackage, hrpc, Option.map_none, bind, Except.bind,
        parsedConnection]
      exact ⟨_, rfl⟩
    | some update =>
      have hm : c.objectManager = none := by
        cases hm : c.objectManager with
        | none => rfl
        | some m => simp [NetworkClient.updateOf, hrpc, hbody, hm] at hupdate
      simp only [UdpConnection.parsePackage, hrpc, Option.map_none, hm, bind, Except.bind,
        parsedConnection]
      exact ⟨_, rfl⟩

/-- The client after a datagram that brings an update. -/
theorem receive_of_update {update : WorldStateUpdate} {m : ObjectManager σ}
    (hupdate : c.toNetworkClient.updateOf msg = some update) (hm : c.objectManager = some m) :
    c.receive P H alloc e msg stack clk now = (m.applyUpdate H alloc update).map fun m' =>
      ({ c with toNetworkClient := { c.toNetworkClient with
          toUdpConnection := (c.parsedConnection P clk e msg).conn, objectManager := some m' } },
        (c.parsedConnection P clk e msg).sent) := by
  obtain ⟨hrpc, hbody, -⟩ := NetworkClient.updateOf_eq_some hupdate
  unfold receive NetworkClient.handleReceive
  simp only [UdpConnection.parsePackage, hrpc, Option.map_none, hbody, hm, bind, Except.bind,
    parsedConnection]
  cases m.applyUpdate H alloc update <;> rfl

/-- A datagram is inert for the client if and only if the client does not heed it. -/
theorem inert_iff {c : ClientProcess ε M.Object} {alloc : Allocator M.Object} :
    c.Inert P M.host alloc e msg stack clk now ↔ c.Unheeded msg clk := by
  refine (and_congr_right fun hunheard => ?_).trans (and_congr_left' unheard_iff)
  rw [← parsedConnection_untouched_iff (P := P) (e := e)]
  cases hupdate : c.toNetworkClient.updateOf msg with
  | none =>
    obtain ⟨sent, hreceive⟩ : ∃ sent, c.receive P M.host alloc e msg stack clk now = .ok ({ c with
        toNetworkClient := { c.toNetworkClient with
          toUdpConnection := (c.parsedConnection P clk e msg).conn } }, sent) :=
      receive_of_no_update hunheard hupdate
    rw [hreceive]
    constructor
    · rintro ⟨c', sent', hc', huntouched, -⟩
      cases hc'
      exact ⟨huntouched, fun _ _ h => nomatch h⟩
    · intro h
      exact ⟨_, _, rfl, h.1, fun _ => rfl, fun _ _ h => nomatch h⟩
  | some update =>
    obtain ⟨-, -, m, hm⟩ := NetworkClient.updateOf_eq_some hupdate
    have hlookup : ∀ id, c.toNetworkClient.lookup id = m.objects.lookup id := by
      intro id
      rw [NetworkClient.lookup, hm, Option.bind_some]
    have hthis : ∀ p : WorldStateUpdate → ObjectManager M.Object → Prop,
        (∀ update' m', some update = some update' → c.objectManager = some m' → p update' m') ↔
          p update m := fun p => by
      simp [hm]
    simp only [hthis, ← nothingNew_iff alloc]
    rw [receive_of_update hupdate hm]
    cases happly : m.applyUpdate M.host alloc update with
    | error trap =>
      refine iff_of_false ?_ ?_
      · rintro ⟨c', sent, hc', -⟩
        cases hc'
      · rintro ⟨-, -, m', hm', -⟩
        cases hm'
    | ok m' =>
      constructor
      · rintro ⟨c', sent, hc', huntouched, hsame, hunchanging⟩
        cases hc'
        exact ⟨huntouched, hunchanging, m', rfl, fun id => (hsame id).trans (hlookup id)⟩
      · rintro ⟨huntouched, hunchanging, m1, hm1, hsame⟩
        cases hm1
        exact ⟨_, _, rfl, huntouched, fun id => (hsame id).trans (hlookup id).symm, hunchanging⟩

end ClientProcess

/-! ## Foreign datagrams along a run -/

/-- Every foreign datagram that arrives at the server is inert. Each input comes with the result of
`ParseFromArray`. -/
def NetworkServer.ForeignInert {ε σ V : Type} [LinearOrder ε] (P : Platform) (H : ScriptHost σ V)
    (s : NetworkServer ε σ) : Bool × NetworkServer.Input ε σ → Prop
  | (parsed, .receive e msg stack clk now) => Foreign parsed msg → s.Inert P H e msg stack clk now
  | _ => True

/-- The server heeds no foreign datagram. -/
def NetworkServer.ForeignUnheeded {ε σ : Type} [LinearOrder ε] (s : NetworkServer ε σ) :
    Bool × NetworkServer.Input ε σ → Prop
  | (parsed, .receive e msg _ clk _) => Foreign parsed msg → s.Unheeded e msg clk
  | _ => True

/-- Every foreign datagram that arrives at the client is inert. -/
def ClientProcess.ForeignInert {ε σ V : Type} (P : Platform) (H : ScriptHost σ V)
    (alloc : Allocator σ) (c : ClientProcess ε σ) : Bool × ClientProcess.Input ε σ → Prop
  | (parsed, .receive e msg stack clk now) =>
    Foreign parsed msg → c.Inert P H alloc e msg stack clk now
  | _ => True

/-- The client heeds no foreign datagram. -/
def ClientProcess.ForeignUnheeded {ε : Type} {M : CampaignModule} (c : ClientProcess ε M.Object) :
    Bool × ClientProcess.Input ε M.Object → Prop
  | (parsed, .receive _ msg _ clk _) => Foreign parsed msg → c.Unheeded msg clk
  | _ => True

/-- **Foreign and malformed datagrams.** In a run of a server, and in a run of a client, every
foreign datagram is inert if and only if none is heeded. -/
theorem foreign_inert_iff {ε : Type} [LinearOrder ε] (P : Platform) (M : CampaignModule)
    (alloc : Allocator M.Object) :
    (∀ (m : Option (ObjectManager M.Object)) (is : List (Bool × NetworkServer.Input ε M.Object)),
      Along (fun s i => NetworkServer.step P M.host s i.2) (NetworkServer.ForeignInert P M.host)
          (.registerNetworkSystem m) is ↔
        Along (fun s i => NetworkServer.step P M.host s i.2) NetworkServer.ForeignUnheeded
          (.registerNetworkSystem m) is) ∧
    ∀ (serverEndpoint : ε) (playerName : List UInt8)
        (is : List (Bool × ClientProcess.Input ε M.Object)),
      Along (fun c i => ClientProcess.step P M.host alloc c i.2)
          (ClientProcess.ForeignInert P M.host alloc)
          (.registerNetworkSystem serverEndpoint playerName) is ↔
        Along (fun c i => ClientProcess.step P M.host alloc c i.2) ClientProcess.ForeignUnheeded
          (.registerNetworkSystem serverEndpoint playerName) is := by
  constructor
  · intro m is
    refine Along.iff_of_invariant (fun _ => True) (fun _ _ _ _ _ _ => trivial)
      (fun s i _ => ?_) trivial
    obtain ⟨parsed, i⟩ := i
    cases i with
    | receive e msg stack clk now => exact imp_congr_right fun _ => NetworkServer.inert_iff
    | _ => exact .rfl
  · intro serverEndpoint playerName is
    refine Along.iff_of_invariant (fun _ => True) (fun _ _ _ _ _ _ => trivial)
      (fun c i _ => ?_) trivial
    obtain ⟨parsed, i⟩ := i
    cases i with
    | receive e msg stack clk now => exact imp_congr_right fun _ => ClientProcess.inert_iff
    | _ => exact .rfl

/-- A join request with the wrong protocol id is answered. -/
theorem foreign_joinRequest_heard :
    ¬ Along (fun s i => NetworkServer.step .x86 testModule.host s i.2)
      (NetworkServer.ForeignInert .x86 testModule.host)
      (.registerNetworkSystem (some ObjectManager.emptyWorld))
      [(true, NetworkServer.joinServerReq 0)] := by
  intro H
  have hinert := H.1 (.inr (by decide))
  have hreceived := hinert.1
  revert hreceived
  decide

end NetSiege
