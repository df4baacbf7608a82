import Mathlib.Data.List.Nodup
import NetSiege.Lib.Run
import NetSiege.Network.UdpConnection

/-!
# Two connections and the network between them

A `Link` is a client and the server's session for it. Either end may call, send other packages and
be delivered a package the other end sent at any time before: packages the network loses are never
delivered, others may arrive late, repeatedly and in any order, and the clock readings of a delivery
are arbitrary. Two properties of such runs are settled: when a call is given up without having
arrived (`noSilentLoss_of_idsAgree`), and when a call is executed twice
(`executedOnce_iff`).
-/

namespace NetSiege

open Lib UdpConnection

/-- The two ends of a link. -/
inductive Side where
  | client
  | server
deriving DecidableEq, Repr

/-- The other end. -/
def Side.peer : Side → Side
  | client => server
  | server => client

/-- One end of a link: its connection, what it passes to `parsePackage` as `srcClientId`, and the
history of packages it handed to `send`, packages it parsed, and message ids of the calls
`parsePackage` passed on to the dispatcher. -/
structure Party (β : Type) where
  conn : UdpConnection Side
  srcClientId : UInt16 := 0
  sent : List (Message β) := []
  received : List (Message β) := []
  executed : List UInt32 := []

/-- The ids of the packages a party parsed. -/
def Party.receivedIds (p : Party β) : List SeqId := p.received.map (·.seqId.toUInt16)

/-- The state of both ends. -/
abbrev Link (β : Type) := Side → Party β

/-- What may happen next. `deliver s k clk` hands `s` the `k`-th package its peer ever sent. -/
inductive LinkInput (β : Type) where
  | call (s : Side) (procedureId : RpcId) (data : RpcData) (dataSize : Nat) (now : Time)
  | send (s : Side) (body : β)
  | deliver (s : Side) (k : Nat) (clk : SteadyClock)

namespace Link

variable {β : Type}

/-- The message id of the call in a package, if it has one. -/
def callId (msg : Message β) : Option UInt32 := msg.rpc.map (·.msgSeqId)

/-- Two fresh connections; the session's client id is the server's. -/
def fresh (clientId : UInt16) : Link β
  | .client => { conn := { remoteEndpoint := .server } }
  | .server => { conn := { remoteEndpoint := .client }, srcClientId := clientId }

/-- A party sends. -/
def send (l : Link β) (s : Side) (out : UdpConnection Side × Message β) : Link β :=
  Function.update l s { l s with conn := out.1, sent := (l s).sent ++ [out.2] }

/-- A party parses a package. -/
def receive (P : Platform) (clk : SteadyClock) (l : Link β) (s : Side) (msg : Message β) : Link β :=
  let (pass, call) := (l s).conn.parsePackage P clk msg (l s).srcClientId
  Function.update l s { l s with
    conn := pass.conn
    sent := (l s).sent ++ pass.sent
    received := (l s).received ++ [msg]
    executed := (l s).executed ++ (call.bind fun _ => callId msg).toList }

/-- One step of the link. -/
def step (P : Platform) (l : Link β) : LinkInput β → Option (Link β)
  | .call s procedureId data dataSize now =>
    some (l.send s ((l s).conn.remoteProcedureCall procedureId data dataSize now))
  | .send s body => some (l.send s ((l s).conn.sendPackage { body := some body }))
  | .deliver s k clk => (l s.peer).sent[k]?.map (l.receive P clk s)

/-! ## Calls given up -/

/-- The pass over the memory when a party parses a package. -/
def pass (P : Platform) (clk : SteadyClock) (p : Party β) (msg : Message β) : AckPass Side β :=
  (p.conn.parsePackage P clk msg p.srcClientId).1

/-- The pass of a delivery erases no entry without resending it, unless the peer parsed a package
with the entry's id. `AckPass.Inv.complete` says that no others than those listed are erased so. -/
def NoSilentLoss (P : Platform) (l : Link β) : LinkInput β → Prop
  | .deliver s k clk => ∀ msg ∈ (l s.peer).sent[k]?,
      ∀ info ∈ (pass P clk (l s) msg).acknowledged, info.seqId ∈ (l s.peer).receivedIds
  | _ => True

/-- Of the ids the pass of a delivery may look up, those that the ids this party received claim,
the delivered one among them, the peer received too. -/
def IdsAgree (l : Link β) : LinkInput β → Prop
  | .deliver s k clk => ∀ msg ∈ (l s.peer).sent[k]?, ∀ x, (l s).conn.MayLookUp (clk.read 1) x →
      AckRecord.Claims ((l s).receivedIds ++ [msg.seqId.toUInt16]) x → x ∈ (l s.peer).receivedIds
  | _ => True

/-- The record of either party is that of the ids it received. -/
def RecordsReceived (P : Platform) (l : Link β) : Prop :=
  ∀ s, (l s).conn.toAckRecord = AckRecord.recordAll P (l s).receivedIds

theorem recordsReceived_fresh (P : Platform) (clientId : UInt16) :
    RecordsReceived P (fresh (β := β) clientId) := by
  intro s
  cases s <;> rfl

theorem RecordsReceived.send {P : Platform} {l : Link β} {out : UdpConnection Side × Message β}
    (h : RecordsReceived P l) (hout : out.1.toAckRecord = (l t).conn.toAckRecord) :
    RecordsReceived P (l.send t out) := by
  intro s
  by_cases hst : s = t
  · subst hst
    simp only [Link.send, Function.update_self]
    exact hout.trans (h s)
  · simp only [Link.send, Function.update_of_ne hst]
    exact h s

theorem RecordsReceived.receive {P : Platform} {l : Link β} {clk : SteadyClock}
    {msg : Message β} (h : RecordsReceived P l) (t : Side) :
    RecordsReceived P (l.receive P clk t msg) := by
  intro s
  by_cases hst : s = t
  · subst hst
    have hrecord := (refresh_inv (β := β) P clk (l s).conn msg.seqId.toUInt16
      msg.ackSeqId.toUInt16 (BitVec.ofNat 16 msg.ackMask.toNat)).record
    simp only [Link.receive, Function.update_self, Party.receivedIds, List.map_append,
      List.map_cons, List.map_nil, AckRecord.recordAll_snoc]
    refine hrecord.trans ?_
    simp only [recordPackage, h s, Party.receivedIds]
  · simp only [Link.receive, Function.update_of_ne hst]
    exact h s

theorem RecordsReceived.step {P : Platform} {l l' : Link β} {i : LinkInput β}
    (h : RecordsReceived P l) (hstep : step P l i = some l') : RecordsReceived P l' := by
  cases i with
  | call | send =>
    cases hstep
    exact h.send rfl
  | deliver s k clk =>
    obtain ⟨msg, _, rfl⟩ := Option.map_eq_some_iff.1 hstep
    exact h.receive s

theorem noSilentLoss_step {P : Platform} {l : Link β} {i : LinkInput β}
    (hrecords : RecordsReceived P l) (h : IdsAgree l i) : NoSilentLoss P l i := by
  cases i with
  | call | send => trivial
  | deliver s k clk =>
    intro msg hmsg info hinfo
    obtain ⟨hacked, hlookup⟩ := (refresh_inv P clk (l s).conn msg.seqId.toUInt16
      msg.ackSeqId.toUInt16 (BitVec.ofNat 16 msg.ackMask.toNat)).acknowledged info hinfo
    refine h msg hmsg info.seqId hlookup (.of_acknowledges (P := P) ?_)
    rw [AckRecord.recordAll_snoc, ← hrecords s]
    exact hacked

/-- **Calls are not lost silently**, in any run in which, of the ids that are looked up, what the
ids an end received claim was received by its peer too. -/
theorem noSilentLoss_of_idsAgree {P : Platform} {clientId : UInt16} {is : List (LinkInput β)}
    (H : Along (step P) IdsAgree (fresh clientId) is) :
    Along (step P) (NoSilentLoss P) (fresh clientId) is :=
  H.imp_of_invariant (RecordsReceived P) (fun _ _ _ hrecords _ => hrecords.step)
    (fun _ _ => noSilentLoss_step) (recordsReceived_fresh P clientId)

/-- A client that calls twice and whose server then sends a first package: it has the id 0, like
the client's first call, which is given up although the server parsed nothing. -/
theorem silentLoss_after_send :
    ¬ Along (step .x86) (NoSilentLoss .x86) (fresh (β := Unit) 1)
      [.call .client 0 .zero 0 0, .call .client 0 .zero 0 0, .send .server (),
        .deliver .client 0 (.still 0)] := by
  intro H
  have hlast := (((H.2 _ rfl).2 _ rfl).2 _ rfl).1
  have hnil := hlast _ rfl _ (List.mem_singleton_self _)
  cases hnil

/-- The same exchange after the server got the first call. -/
theorem noSilentLoss_after_delivery :
    Along (step .x86) (NoSilentLoss .x86) (fresh (β := Unit) 1)
      [.call .client 0 .zero 0 0, .deliver .server 0 (.still 0), .send .server (),
        .deliver .client 0 (.still 0)] := by
  apply noSilentLoss_of_idsAgree
  have hlost : ∀ c : UdpConnection Side, lost 0 c = 0 := fun c =>
    List.countP_eq_zero.2 fun info _ => by simp [timedOut_of_le (Nat.zero_le info.timeOfSend)]
  refine ⟨trivial, ?_⟩
  rintro _ ⟨⟩
  refine ⟨?_, ?_⟩
  · rintro msg ⟨⟩ x (⟨info, hinfo, _⟩ | ⟨k, hk, _⟩)
    · cases hinfo
    · exact absurd (hlost _ ▸ hk) (Nat.not_lt_zero k)
  rintro _ ⟨⟩
  refine ⟨trivial, ?_⟩
  rintro _ ⟨⟩
  refine ⟨?_, fun _ _ => trivial⟩
  rintro msg ⟨⟩ x (⟨info, hinfo, rfl⟩ | ⟨k, hk, _⟩) _
  · cases List.mem_singleton.1 hinfo
    decide
  · exact absurd (hlost _ ▸ hk) (Nat.not_lt_zero k)

/-! ## Calls executed twice -/

/-- The message ids of the calls a party was delivered, in order. -/
def deliveredCalls (p : Party β) : List UInt32 := p.received.filterMap callId

/-- No call is delivered to `s` under a message id that was delivered to it before, be it the same
package or one the sender sent again. -/
def FreshCall (s : Side) (l : Link β) : LinkInput β → Prop
  | .deliver t k _ => t = s → ∀ msg ∈ (l s.peer).sent[k]?, ∀ rpc ∈ msg.rpc,
      rpc.msgSeqId ∉ deliveredCalls (l s)
  | _ => True

theorem receive_self {P : Platform} {clk : SteadyClock} {l : Link β} {s : Side} {msg : Message β} :
    (l.receive P clk s msg s).received = (l s).received ++ [msg] ∧
      (l.receive P clk s msg s).executed = (l s).executed ++ (callId msg).toList := by
  simp only [receive, Function.update_self, parsePackage, callId, true_and]
  cases msg.rpc <;> rfl

/-- One step appends at most one delivered call to either history, the same to both. -/
theorem step_executed {P : Platform} {l l' : Link β} {i : LinkInput β} (s : Side)
    (h : step P l i = some l') :
    (∃ k clk msg, i = .deliver s k clk ∧ (l s.peer).sent[k]? = some msg ∧
        (l' s).received = (l s).received ++ [msg] ∧
        (l' s).executed = (l s).executed ++ (callId msg).toList) ∨
      (∀ k clk, i ≠ .deliver s k clk) ∧ (l' s).received = (l s).received ∧
        (l' s).executed = (l s).executed := by
  cases i with
  | call t | send t =>
    cases h
    refine .inr ⟨nofun, ?_⟩
    by_cases hts : s = t
    · subst hts
      simp [send]
    · simp [send, Function.update_of_ne hts]
  | deliver t k clk =>
    obtain ⟨msg, hmsg, rfl⟩ := Option.map_eq_some_iff.1 h
    by_cases hts : s = t
    · subst hts
      exact .inl ⟨k, clk, msg, rfl, hmsg, receive_self⟩
    · refine .inr ⟨fun k' clk' heq => hts (by cases heq; rfl), ?_⟩
      simp [receive, Function.update_of_ne hts]

theorem deliveredCalls_append {p p' : Party β} {msg : Message β}
    (h : p'.received = p.received ++ [msg]) :
    deliveredCalls p' = deliveredCalls p ++ (callId msg).toList := by
  rw [deliveredCalls, deliveredCalls, h, List.filterMap_append, List.filterMap_cons]
  cases callId msg <;> rfl

theorem executed_eq_step {P : Platform} {l l' : Link β} {i : LinkInput β} {s : Side}
    (hinv : (l s).executed = deliveredCalls (l s)) (h : step P l i = some l') :
    (l' s).executed = deliveredCalls (l' s) := by
  obtain ⟨k, clk, msg, rfl, _, hreceived, hexecuted⟩ | ⟨_, hreceived, hexecuted⟩ :=
    step_executed s h
  · rw [hexecuted, hinv, deliveredCalls_append hreceived]
  · rw [hexecuted, hinv, deliveredCalls, deliveredCalls, hreceived]

/-- A step keeps the executed message ids distinct if and only if it delivers no message id
again. -/
theorem nodup_executed_step {P : Platform} {l : Link β} {i : LinkInput β} {s : Side}
    (hinv : (l s).executed = deliveredCalls (l s)) (hnodup : (l s).executed.Nodup) :
    (∀ l', step P l i = some l' → (l' s).executed.Nodup) ↔ FreshCall s l i := by
  constructor
  · intro H
    cases i with
    | call | send => trivial
    | deliver t k clk =>
      rintro rfl msg hmsg rpc hrpc
      have hmap : step P l (.deliver t k clk) = some (l.receive P clk t msg) :=
        Option.map_eq_some_iff.2 ⟨msg, hmsg, rfl⟩
      have hnodup' := H _ hmap
      rw [receive_self.2, callId, Option.mem_def.1 hrpc, hinv] at hnodup'
      exact (List.nodup_cons.1 (List.nodup_append_comm.1 hnodup')).1
  · intro H l' h
    obtain ⟨k, clk, msg, rfl, hmsg, _, hexecuted⟩ | ⟨_, _, hexecuted⟩ := step_executed s h
    · rw [hexecuted, callId]
      cases hrpc : msg.rpc with
      | none => simpa using hnodup
      | some rpc =>
        have hfresh := H rfl msg hmsg rpc hrpc
        rw [← hinv] at hfresh
        exact List.nodup_append_comm.2 (List.nodup_cons.2 ⟨hfresh, hnodup⟩)
    · rw [hexecuted]
      exact hnodup

/-- **Calls are executed at most once** throughout a run, if and only if no message id is delivered
twice in it. -/
theorem executedOnce_iff {P : Platform} {clientId : UInt16} {is : List (LinkInput β)} (s : Side) :
    (∀ pre l', pre <+: is → run (step P) (fresh clientId) pre = some l' →
      (l' s).executed.Nodup) ↔ Along (step P) (FreshCall s) (fresh clientId) is := by
  have hinit : (fresh (β := β) clientId s).executed = [] ∧
      deliveredCalls (fresh (β := β) clientId s) = [] := by
    cases s <;> exact ⟨rfl, rfl⟩
  rw [forall_prefix_iff_along (Q := fun l : Link β => (l s).executed.Nodup) (by simp [hinit])]
  refine Along.iff_of_invariant
    (fun l => (l s).executed = deliveredCalls (l s) ∧ (l s).executed.Nodup) ?_ ?_ ?_
  · exact fun l i l' hinv hpost h => ⟨executed_eq_step hinv.1 h, hpost l' h⟩
  · exact fun l i hinv => nodup_executed_step hinv.1 hinv.2
  · simp [hinit]

/-- The network duplicates the package of a call. -/
theorem executedTwice_of_duplicate :
    ¬ ∀ pre l', pre <+: [.call .client 0 .zero 0 0, .deliver .server 0 (.still 0),
        .deliver .server 0 (.still 0)] →
      run (step .x86) (fresh (β := Unit) 1) pre = some l' → (l' .server).executed.Nodup := by
  intro H
  have hlast := H _ _ (List.prefix_refl _) rfl
  revert hlast
  decide

end Link

end NetSiege
