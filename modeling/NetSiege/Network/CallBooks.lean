import NetSiege.Network.Link

/-!
# The books of reliable calls (`udpconnection.h`)

What the two ends of a link know of the calls they made. Beside the link, `Books` keeps the calls
each end was asked for and those its passes erased as acknowledged. In every run, whatever the
network does, each call is in the memory once or was given up once (`calls_accounted`), a received
call is one the other end was asked for (`received_issued`), and the memory lists, in the order in
which they were sent, packages under whose ids the calls went out (`memory_backed`).
-/

namespace NetSiege

open Lib UdpConnection

/-- A call as `remoteProcedureCall` was asked for it, with its message id. -/
structure IssuedCall where
  msgId : SeqId
  rpcId : RpcId
  data : RpcData
  dataSize : Nat
deriving DecidableEq

/-- What a package with the call carries. -/
def IssuedCall.rpc (call : IssuedCall) : RPC :=
  ⟨call.msgId.toUInt32, call.rpcId.toUInt32, call.data.bytes.take call.dataSize⟩

/-- The call an entry of the memory is for. -/
def RpcInfo.issued (info : RpcInfo) : IssuedCall :=
  ⟨info.msgId, info.rpcId, info.data, info.dataSize⟩

/-- The id of the package an entry waits for, and the call in it. -/
def RpcInfo.awaited (info : RpcInfo) : UInt32 × Option RPC :=
  (info.seqId.toUInt32, some info.issued.rpc)

/-- The id of a package, and the call in it. -/
def Message.carried {β : Type} (msg : Message β) : UInt32 × Option RPC := (msg.seqId, msg.rpc)

/-- The ids of `n` packages from the id `first` on. -/
def seqIdsFrom (first : SeqId) (n : Nat) : List UInt32 :=
  (List.range n).map fun k => (first + UInt16.ofNat k).toUInt32

theorem seqIdsFrom_append (first : SeqId) (m n : Nat) :
    seqIdsFrom first m ++ seqIdsFrom (first + UInt16.ofNat m) n = seqIdsFrom first (m + n) := by
  rw [seqIdsFrom, seqIdsFrom, seqIdsFrom, List.range_add, List.map_append, List.map_map]
  congr 1
  refine List.map_congr_left fun k _ => ?_
  rw [Function.comp_apply, UInt16.ofNat_add, UInt16.add_assoc]

theorem nodup_seqIdsFrom {n : Nat} (h : n ≤ 2 ^ 16) (first : SeqId) :
    (seqIdsFrom first n).Nodup := by
  refine (List.nodup_range).map_on fun j hj k hk heq => ?_
  have hsum := (UInt16.add_right_inj first).1 (UInt16.toUInt32_inj.1 heq)
  have hval := congrArg UInt16.toNat hsum
  rw [List.mem_range] at hj hk
  rwa [UInt16.toNat_ofNat_of_lt' (Nat.lt_of_lt_of_le hj h),
    UInt16.toNat_ofNat_of_lt' (Nat.lt_of_lt_of_le hk h)] at hval

@[simp] theorem seqIdsFrom_one (first : SeqId) : seqIdsFrom first 1 = [first.toUInt32] := by
  simp [seqIdsFrom]

/-! ## One pass -/

namespace UdpConnection

variable {ε β : Type} {P : Platform} {clk : SteadyClock} {now : Time} {c : UdpConnection ε}
  {s s' : AckPass ε β} {info : RpcInfo}

/-- What the pass that started from `c` keeps of the calls in its memory. -/
structure AckPass.Balanced (c : UdpConnection ε) (s : AckPass ε β) : Prop where
  nextMsgId : s.conn.nextMsgId = c.nextMsgId
  seqId : s.conn.seqId = c.seqId + UInt16.ofNat s.sent.length
  numbered : s.sent.map (·.seqId) = seqIdsFrom c.seqId s.sent.length
  calls : (s.acknowledged.map RpcInfo.issued ++ s.conn.rpcMemory.map RpcInfo.issued).Perm
    (c.rpcMemory.map RpcInfo.issued)
  backed : (s.conn.rpcMemory.map RpcInfo.awaited).Sublist
    (c.rpcMemory.map RpcInfo.awaited ++ s.sent.map Message.carried)
  resent : ∀ msg ∈ s.sent, ∃ call ∈ c.rpcMemory.map RpcInfo.issued, msg.rpc = some call.rpc

theorem AckPass.Balanced.init (c : UdpConnection ε) (n : Nat) :
    AckPass.Balanced c ({ conn := c, reads := n } : AckPass ε β) where
  nextMsgId := rfl
  seqId := by simp
  numbered := rfl
  calls := .refl _
  backed := by simp
  resent _ h := nomatch h

/-- A call of the memory is one the pass started with. -/
theorem AckPass.Balanced.mem_calls (H : s.Balanced c) (h : info ∈ s.conn.rpcMemory) :
    info.issued ∈ c.rpcMemory.map RpcInfo.issued :=
  H.calls.mem_iff.1 (List.mem_append_right _ (List.mem_map_of_mem h))

theorem AckPass.Balanced.drop (H : s.Balanced c) (hinfo : s.conn.rpcMemory[s.it]? = some info) :
    (s.drop info).Balanced c where
  nextMsgId := H.nextMsgId
  seqId := H.seqId
  numbered := H.numbered
  calls := by
    have herase := (perm_eraseIdx hinfo).map RpcInfo.issued
    refine .trans ?_ H.calls
    simp only [AckPass.drop, eraseIt, List.map_append, List.map_cons, List.map_nil,
      List.append_assoc, List.singleton_append] at herase ⊢
    exact herase.symm.append_left _
  backed := ((List.eraseIdx_sublist _ _).map _).trans H.backed
  resent := H.resent

theorem AckPass.Balanced.resend (H : s.Balanced c) (hinfo : s.conn.rpcMemory[s.it]? = some info) :
    (s.resend clk info).Balanced c := by
  rw [AckPass.resend_eq (List.getElem?_eq_some_iff.1 hinfo).1]
  exact {
    nextMsgId := H.nextMsgId
    seqId := by
      simp only [H.seqId, List.length_append, List.length_singleton, UInt16.ofNat_add,
        UInt16.add_assoc]
      rfl
    numbered := by
      rw [List.map_append, H.numbered, List.length_append, List.length_singleton,
        ← seqIdsFrom_append, ← H.seqId, seqIdsFrom_one]
      rfl
    calls := by
      have herase := (perm_eraseIdx hinfo).map RpcInfo.issued
      refine .trans ?_ H.calls
      simp only [List.map_append, List.map_cons, List.map_nil] at herase ⊢
      exact ((List.perm_append_singleton _ _).trans herase.symm).append_left _
    backed := by
      simp only [List.map_append, List.map_cons, List.map_nil, ← List.append_assoc]
      exact (((List.eraseIdx_sublist _ _).map _).trans H.backed).append (.refl _)
    resent := by
      intro msg hmsg
      rcases List.mem_append.1 hmsg with hmsg | hmsg
      · exact H.resent msg hmsg
      · cases List.mem_singleton.1 hmsg
        exact ⟨info.issued, H.mem_calls (List.mem_of_getElem? hinfo), rfl⟩ }

theorem AckPass.Balanced.advance (H : s.Balanced c) : (s.advance P).Balanced c where
  __ := H

/-- Every turn keeps the books. -/
theorem AckPass.Balanced.turn (H : s.Balanced c) (h : s.turn P clk now = some s') :
    s'.Balanced c := by
  obtain ⟨info, hinfo, ⟨-, rfl⟩ | ⟨-, rfl⟩ | rfl⟩ := AckPass.turn_cases h
  · exact (H.drop hinfo).advance
  · exact (H.resend hinfo).advance
  · exact H.advance

/-- The pass of a package that is parsed keeps the books. -/
theorem parsePackage_balanced {β' : Type} (P : Platform) (clk : SteadyClock)
    (c : UdpConnection ε) (msg : Message β') (srcClientId : UInt16) :
    (c.parsePackage P clk msg srcClientId : AckPass ε β × _).1.Balanced
      (c.recordPackage P (clk.read 0) msg.seqId.toUInt16) :=
  loop_invariant (fun _ _ => AckPass.Balanced.turn) (.init _ _)

end UdpConnection

/-! ## Whole runs -/

/-- A link with the calls each end was asked for, and those its passes erased as acknowledged, in
order. -/
structure Books (β : Type) where
  link : Link β
  issued : Side → List IssuedCall := fun _ => []
  givenUp : Side → List IssuedCall := fun _ => []

namespace Books

variable {β : Type} {P : Platform} {b b' : Books β} {i : LinkInput β} {clientId : UInt16}
  {s : Side}

/-- The books of two fresh connections. -/
def opened (clientId : UInt16) : Books β := { link := .fresh clientId }

/-- The calls an end waits for, in the order of its memory. -/
def pending (b : Books β) (s : Side) : List IssuedCall :=
  (b.link s).conn.rpcMemory.map RpcInfo.issued

/-- The call an input asks an end for. -/
def asked (l : Link β) : LinkInput β → Side → List IssuedCall
  | .call t procedureId data dataSize _, s =>
    if s = t then [⟨(l t).conn.nextMsgId, procedureId, data, dataSize⟩] else []
  | _, _ => []

/-- The calls an end gives up in the pass of an input. -/
def dropped (P : Platform) (l : Link β) : LinkInput β → Side → List IssuedCall
  | .deliver t k clk, s =>
    if s = t then ((l t.peer).sent[k]?.map fun msg =>
      (Link.pass P clk (l t) msg).acknowledged.map RpcInfo.issued).getD []
    else []
  | _, _ => []

/-- A step of the link, with its entries in the books. -/
def step (P : Platform) (b : Books β) (i : LinkInput β) : Option (Books β) :=
  (Link.step P b.link i).map fun link => {
    link
    issued := fun s => b.issued s ++ asked b.link i s
    givenUp := fun s => b.givenUp s ++ dropped P b.link i s }

/-- The books of one end are right: message ids and package ids count calls and packages, every call
was given up or waits, the memory lists packages that were sent, and only calls it was asked for
went out. -/
structure Ledger (p : Party β) (issued givenUp : List IssuedCall) : Prop where
  nextMsgId : p.conn.nextMsgId = UInt16.ofNat issued.length
  msgIds : issued.map (·.msgId.toUInt32) = seqIdsFrom 0 issued.length
  seqId : p.conn.seqId = UInt16.ofNat p.sent.length
  numbered : p.sent.map (·.seqId) = seqIdsFrom 0 p.sent.length
  calls : (givenUp ++ p.conn.rpcMemory.map RpcInfo.issued).Perm issued
  backed : (p.conn.rpcMemory.map RpcInfo.awaited).Sublist (p.sent.map Message.carried)
  sent : ∀ msg ∈ p.sent, ∀ rpc ∈ msg.rpc, ∃ call ∈ issued, rpc = call.rpc

theorem ledger_opened (clientId : UInt16) (s : Side) :
    Ledger (Link.fresh (β := β) clientId s) [] [] := by
  cases s <;> exact {
    nextMsgId := rfl
    msgIds := rfl
    seqId := rfl
    numbered := rfl
    calls := .refl _
    backed := .refl _
    sent := nofun }

section
variable {p : Party β} {issued givenUp : List IssuedCall}

theorem seqIdsFrom_concat (n : Nat) :
    seqIdsFrom 0 n ++ [(UInt16.ofNat n).toUInt32] = seqIdsFrom 0 (n + 1) := by
  rw [← seqIdsFrom_append, seqIdsFrom_one, UInt16.zero_add]

/-- A package that is sent takes the next id. -/
theorem Ledger.numbered_concat (h : Ledger p issued givenUp) {msg : Message β}
    (hmsg : msg.seqId = p.conn.seqId.toUInt32) :
    (p.sent ++ [msg]).map (·.seqId) = seqIdsFrom 0 (p.sent ++ [msg]).length := by
  rw [List.map_append, h.numbered, List.map_singleton, hmsg, h.seqId, seqIdsFrom_concat,
    List.length_append, List.length_singleton]

theorem Ledger.send (h : Ledger p issued givenUp) (body : β) :
    let out := p.conn.sendPackage { body := some body }
    Ledger { p with conn := out.1, sent := p.sent ++ [out.2] } issued givenUp where
  nextMsgId := h.nextMsgId
  msgIds := h.msgIds
  seqId := by
    simp only [sendPackage, h.seqId, List.length_append, List.length_singleton, UInt16.ofNat_add]
    rfl
  numbered := h.numbered_concat rfl
  calls := h.calls
  backed := by
    rw [List.map_append]
    exact h.backed.trans (List.sublist_append_left _ _)
  sent := by
    intro msg hmsg rpc hrpc
    rcases List.mem_append.1 hmsg with hmsg | hmsg
    · exact h.sent msg hmsg rpc hrpc
    · cases List.mem_singleton.1 hmsg
      cases hrpc

theorem Ledger.call (h : Ledger p issued givenUp) (procedureId : RpcId) (data : RpcData)
    (dataSize : Nat) (now : Time) :
    let out := p.conn.remoteProcedureCall procedureId data dataSize now
    Ledger { p with conn := out.1, sent := p.sent ++ [out.2] }
      (issued ++ [⟨p.conn.nextMsgId, procedureId, data, dataSize⟩]) givenUp where
  nextMsgId := by
    simp only [remoteProcedureCall, remoteProcedureCallAs, sendPackage, h.nextMsgId,
      List.length_append, List.length_singleton, UInt16.ofNat_add]
    rfl
  msgIds := by
    rw [List.map_append, h.msgIds, List.map_singleton, h.nextMsgId, seqIdsFrom_concat,
      List.length_append, List.length_singleton]
  seqId := by
    simp only [remoteProcedureCall, remoteProcedureCallAs, sendPackage, h.seqId,
      List.length_append, List.length_singleton, UInt16.ofNat_add]
    rfl
  numbered := h.numbered_concat rfl
  calls := by
    simp only [remoteProcedureCall, remoteProcedureCallAs, sendPackage, List.map_append,
      List.map_singleton, ← List.append_assoc]
    refine (h.calls.append_right _).trans (.of_eq ?_)
    simp [RpcInfo.issued]
  backed := by
    simp only [remoteProcedureCall, remoteProcedureCallAs, sendPackage, List.map_append,
      List.map_singleton]
    refine h.backed.append ?_
    simp [RpcInfo.awaited, RpcInfo.issued, IssuedCall.rpc, Message.carried]
  sent := by
    intro msg hmsg rpc hrpc
    rcases List.mem_append.1 hmsg with hmsg | hmsg
    · obtain ⟨call, hcall, heq⟩ := h.sent msg hmsg rpc hrpc
      exact ⟨call, List.mem_append_left _ hcall, heq⟩
    · cases List.mem_singleton.1 hmsg
      cases hrpc
      exact ⟨_, List.mem_append_right _ (List.mem_singleton_self _), rfl⟩

theorem Ledger.receive (h : Ledger p issued givenUp) (P : Platform) (clk : SteadyClock)
    (msg : Message β) (received : List (Message β)) (executed : List UInt32) :
    let pass := Link.pass P clk p msg
    Ledger { p with conn := pass.conn, sent := p.sent ++ pass.sent, received, executed } issued
      (givenUp ++ pass.acknowledged.map RpcInfo.issued) := by
  intro pass
  have hpass : pass.Balanced (p.conn.recordPackage P (clk.read 0) msg.seqId.toUInt16) :=
    parsePackage_balanced P clk p.conn msg p.srcClientId
  exact {
    nextMsgId := hpass.nextMsgId.trans h.nextMsgId
    msgIds := h.msgIds
    seqId := by
      refine hpass.seqId.trans ?_
      change p.conn.seqId + _ = _
      rw [h.seqId, List.length_append, UInt16.ofNat_add]
    numbered := by
      rw [List.map_append, h.numbered, hpass.numbered, List.length_append, ← seqIdsFrom_append]
      change _ ++ seqIdsFrom p.conn.seqId _ = _
      rw [h.seqId, UInt16.zero_add]
    calls := by
      rw [List.append_assoc]
      exact (hpass.calls.append_left _).trans h.calls
    backed := by
      rw [List.map_append]
      exact hpass.backed.trans (h.backed.append (.refl _))
    sent := by
      intro msg' hmsg' rpc hrpc
      rcases List.mem_append.1 hmsg' with hmsg' | hmsg'
      · exact h.sent msg' hmsg' rpc hrpc
      · obtain ⟨call, hcall, heq⟩ := hpass.resent msg' hmsg'
        rw [heq] at hrpc
        cases hrpc
        exact ⟨call, h.calls.mem_iff.1 (List.mem_append_right _ hcall), rfl⟩ }

end

/-- The books of both ends are right, and the network makes up no package. -/
structure Sound (b : Books β) : Prop where
  ledger : ∀ s, Ledger (b.link s) (b.issued s) (b.givenUp s)
  received : ∀ s, ∀ msg ∈ (b.link s).received, msg ∈ (b.link s.peer).sent

theorem sound_opened (clientId : UInt16) : (opened (β := β) clientId).Sound where
  ledger := ledger_opened clientId
  received s := by cases s <;> exact nofun

/-- The end that parses a package. -/
theorem receive_eq (l : Link β) (s : Side) (clk : SteadyClock) (msg : Message β) :
    ∃ executed, Link.receive P clk l s msg s = { l s with
      conn := (Link.pass P clk (l s) msg).conn
      sent := (l s).sent ++ (Link.pass P clk (l s) msg).sent
      received := (l s).received ++ [msg]
      executed } :=
  ⟨_, Function.update_self s _ l⟩

/-- What a step does to one end: it calls, sends, parses a package the other end sent, or stays as
it is. -/
theorem step_cases (h : b.step P i = some b') (s : Side) :
    (∃ procedureId data dataSize now,
      b'.link s = Link.send b.link s
          ((b.link s).conn.remoteProcedureCall procedureId data dataSize now) s ∧
        b'.issued s = b.issued s ++ [⟨(b.link s).conn.nextMsgId, procedureId, data, dataSize⟩] ∧
        b'.givenUp s = b.givenUp s) ∨
      (∃ body, b'.link s =
          Link.send b.link s ((b.link s).conn.sendPackage { body := some body }) s ∧
        b'.issued s = b.issued s ∧ b'.givenUp s = b.givenUp s) ∨
      (∃ clk, ∃ msg ∈ (b.link s.peer).sent, b'.link s = Link.receive P clk b.link s msg s ∧
        b'.issued s = b.issued s ∧
        b'.givenUp s =
          b.givenUp s ++ (Link.pass P clk (b.link s) msg).acknowledged.map RpcInfo.issued) ∨
      b'.link s = b.link s ∧ b'.issued s = b.issued s ∧ b'.givenUp s = b.givenUp s := by
  obtain ⟨link, hlink, rfl⟩ := Option.map_eq_some_iff.1 h
  cases i with
  | call t procedureId data dataSize now =>
    cases hlink
    by_cases hst : s = t
    · subst hst
      exact .inl ⟨procedureId, data, dataSize, now, rfl, by simp [asked], by simp [dropped]⟩
    · exact .inr (.inr (.inr ⟨Function.update_of_ne hst _ _, by simp [asked, hst],
        by simp [dropped]⟩))
  | send t body =>
    cases hlink
    by_cases hst : s = t
    · subst hst
      exact .inr (.inl ⟨body, rfl, by simp [asked], by simp [dropped]⟩)
    · exact .inr (.inr (.inr ⟨Function.update_of_ne hst _ _, by simp [asked], by simp [dropped]⟩))
  | deliver t k clk =>
    obtain ⟨msg, hmsg, rfl⟩ := Option.map_eq_some_iff.1 hlink
    by_cases hst : s = t
    · subst hst
      exact .inr (.inr (.inl ⟨clk, msg, List.mem_of_getElem? hmsg, rfl, by simp [asked],
        by simp [dropped, hmsg]⟩))
    · exact .inr (.inr (.inr ⟨Function.update_of_ne hst _ _, by simp [asked],
        by simp [dropped, hst]⟩))

/-- What an end sent stays sent. -/
theorem sent_extends (h : b.step P i = some b') (s : Side) :
    (b.link s).sent <+: (b'.link s).sent := by
  obtain ⟨_, _, _, _, hlink, -⟩ | ⟨_, hlink, -⟩ | ⟨clk, msg, -, hlink, -⟩ | ⟨hlink, -⟩ :=
    step_cases h s
  · rw [hlink, Link.send, Function.update_self]
    exact List.prefix_append _ _
  · rw [hlink, Link.send, Function.update_self]
    exact List.prefix_append _ _
  · obtain ⟨executed, heq⟩ := receive_eq b.link s clk msg
    rw [hlink, heq]
    exact List.prefix_append _ _
  · exact hlink ▸ List.prefix_refl _

theorem ledger_step (hs : b.Sound) (h : b.step P i = some b') (s : Side) :
    Ledger (b'.link s) (b'.issued s) (b'.givenUp s) := by
  obtain ⟨procedureId, data, dataSize, now, hlink, hissued, hgiven⟩ |
    ⟨body, hlink, hissued, hgiven⟩ | ⟨clk, msg, -, hlink, hissued, hgiven⟩ |
    ⟨hlink, hissued, hgiven⟩ := step_cases h s
  · rw [hlink, hissued, hgiven, Link.send, Function.update_self]
    exact (hs.ledger s).call procedureId data dataSize now
  · rw [hlink, hissued, hgiven, Link.send, Function.update_self]
    exact (hs.ledger s).send body
  · obtain ⟨executed, heq⟩ := receive_eq b.link s clk msg
    rw [hlink, hissued, hgiven, heq]
    exact (hs.ledger s).receive P clk msg _ _
  · rw [hlink, hissued, hgiven]
    exact hs.ledger s

theorem received_step (hs : b.Sound) (h : b.step P i = some b') (s : Side) {msg : Message β}
    (hmsg : msg ∈ (b'.link s).received) : msg ∈ (b'.link s.peer).sent := by
  refine (sent_extends h s.peer).subset ?_
  obtain ⟨_, _, _, _, hlink, -⟩ | ⟨_, hlink, -⟩ | ⟨clk, msg', hsent, hlink, -⟩ | ⟨hlink, -⟩ :=
    step_cases h s
  · rw [hlink, Link.send, Function.update_self] at hmsg
    exact hs.received s msg hmsg
  · rw [hlink, Link.send, Function.update_self] at hmsg
    exact hs.received s msg hmsg
  · rw [hlink, Link.receive_self.1] at hmsg
    rcases List.mem_append.1 hmsg with hmsg | hmsg
    · exact hs.received s msg hmsg
    · rwa [List.mem_singleton.1 hmsg]
  · rw [hlink] at hmsg
    exact hs.received s msg hmsg

/-- The books are right after every run. -/
theorem sound_of_run {is : List (LinkInput β)} (h : run (step P) (opened clientId) is = some b) :
    b.Sound :=
  run_invariant Sound (fun _ _ _ hs hstep => ⟨ledger_step hs hstep, fun s _ =>
    received_step hs hstep s⟩) (sound_opened clientId) h

/-- Message ids tell the calls of an end apart, unless they went round. -/
theorem Ledger.nodup_msgIds {p : Party β} {issued givenUp : List IssuedCall}
    (h : Ledger p issued givenUp) (hfew : issued.length ≤ 2 ^ 16) :
    (issued.map (·.msgId.toUInt32)).Nodup :=
  h.msgIds ▸ nodup_seqIdsFrom hfew 0

/-- **No call is lost or counted twice.** After every run in which an end was asked for no more
calls than there are message ids, each of them is in the memory exactly once or was given up exactly
once, and there are no others. -/
theorem calls_accounted {is : List (LinkInput β)} (h : run (step P) (opened clientId) is = some b)
    (s : Side) (hfew : (b.issued s).length ≤ 2 ^ 16) :
    (∀ call ∈ b.issued s, (b.pending s).count call + (b.givenUp s).count call = 1) ∧
      ∀ call, call ∈ b.pending s ∨ call ∈ b.givenUp s → call ∈ b.issued s := by
  have hledger := (sound_of_run h).ledger s
  have hnodup : (b.issued s).Nodup := .of_map _ (hledger.nodup_msgIds hfew)
  refine ⟨fun call hcall => ?_, fun call hcall => ?_⟩
  · rw [Nat.add_comm, ← List.count_append]
    exact (hledger.calls.count_eq call).trans (List.count_eq_one_of_mem hnodup hcall)
  · exact hledger.calls.mem_iff.1 (List.mem_append.2 hcall.symm)

/-- A call the server got and acknowledged is given up, the one made after it waits. -/
theorem calls_accounted_two : ∃ b, run (step .x86) (opened (β := Unit) 1)
      [.call .client 16 .zero 0 0, .deliver .server 0 (.still 0), .send .server (),
        .deliver .client 0 (.still 0), .call .client 16 .zero 0 0] = some b ∧
    ∀ call ∈ b.issued .client,
      (b.pending .client).count call + (b.givenUp .client).count call = 1 := by
  have hrun : run (step .x86) (opened (β := Unit) 1)
      [.call .client 16 .zero 0 0, .deliver .server 0 (.still 0), .send .server (),
        .deliver .client 0 (.still 0), .call .client 16 .zero 0 0] = some _ := rfl
  exact ⟨_, hrun, (calls_accounted hrun .client (by decide)).1⟩

/-- **Nothing is received that was not asked for.** After every run, each call an end received is
one its peer was asked for, with the same message id, RPC id and data; and two received calls with
one message id are the same call, unless the peer's message ids went round. -/
theorem received_issued {is : List (LinkInput β)} (h : run (step P) (opened clientId) is = some b)
    (s : Side) :
    (∀ msg ∈ (b.link s).received, ∀ rpc ∈ msg.rpc, ∃ call ∈ b.issued s.peer, rpc = call.rpc) ∧
      ((b.issued s.peer).length ≤ 2 ^ 16 →
        ∀ msg ∈ (b.link s).received, ∀ msg' ∈ (b.link s).received, ∀ rpc ∈ msg.rpc,
          ∀ rpc' ∈ msg'.rpc, rpc.msgSeqId = rpc'.msgSeqId → rpc = rpc') := by
  have hs := sound_of_run h
  have horigin : ∀ msg ∈ (b.link s).received, ∀ rpc ∈ msg.rpc, ∃ call ∈ b.issued s.peer,
      rpc = call.rpc := fun msg hmsg => (hs.ledger s.peer).sent msg (hs.received s msg hmsg)
  refine ⟨horigin, fun hfew msg hmsg msg' hmsg' rpc hrpc rpc' hrpc' heq => ?_⟩
  obtain ⟨call, hcall, rfl⟩ := horigin msg hmsg rpc hrpc
  obtain ⟨call', hcall', rfl⟩ := horigin msg' hmsg' rpc' hrpc'
  rw [List.inj_on_of_nodup_map ((hs.ledger s.peer).nodup_msgIds hfew) hcall hcall' heq]

/-- A call that reaches the server twice. -/
theorem received_issued_twice : ∃ b, run (step .x86) (opened (β := Unit) 1)
      [.call .client 16 .zero 0 0, .deliver .server 0 (.still 0),
        .deliver .server 0 (.still 0)] = some b ∧
    ∀ msg ∈ (b.link .server).received, ∀ rpc ∈ msg.rpc,
      ∃ call ∈ b.issued .client, rpc = call.rpc := by
  have hrun : run (step .x86) (opened (β := Unit) 1)
      [.call .client 16 .zero 0 0, .deliver .server 0 (.still 0),
        .deliver .server 0 (.still 0)] = some _ := rfl
  exact ⟨_, hrun, (received_issued hrun .server).1⟩

/-- **The memory waits for packages that went out.** After every run, the entries of the memory, in
order, are calls in packages that were sent in this order under the ids the entries wait for; and no
two entries wait for one id, unless the package ids went round. -/
theorem memory_backed {is : List (LinkInput β)} (h : run (step P) (opened clientId) is = some b)
    (s : Side) :
    ((b.link s).conn.rpcMemory.map RpcInfo.awaited).Sublist ((b.link s).sent.map Message.carried) ∧
      ((b.link s).sent.length ≤ 2 ^ 16 → ((b.link s).conn.rpcMemory.map (·.seqId)).Nodup) := by
  have hledger := (sound_of_run h).ledger s
  refine ⟨hledger.backed, fun hfew => ?_⟩
  have hids := hledger.backed.map Prod.fst
  rw [List.map_map, List.map_map] at hids
  have hnodup : ((b.link s).conn.rpcMemory.map fun info => info.seqId.toUInt32).Nodup :=
    hids.nodup (hledger.numbered ▸ nodup_seqIdsFrom hfew 0)
  exact .of_map UInt16.toUInt32 (by rwa [List.map_map])

/-- The call that is sent again waits under a new id. -/
theorem memory_backed_resent : ∃ b, run (step .x86) (opened (β := Unit) 1)
      [.send .server (), .send .server (), .call .client 16 .zero 0 0,
        .deliver .client 1 (.still 400000000)] = some b ∧
    ((b.link .client).conn.rpcMemory.map RpcInfo.awaited).Sublist
      ((b.link .client).sent.map Message.carried) := by
  have hrun : run (step .x86) (opened (β := Unit) 1)
      [.send .server (), .send .server (), .call .client 16 .zero 0 0,
        .deliver .client 1 (.still 400000000)] = some _ := rfl
  exact ⟨_, hrun, (memory_backed hrun .client).1⟩

end Books

end NetSiege
