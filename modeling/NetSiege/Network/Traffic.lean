import NetSiege.Network.CallBooks
import NetSiege.Network.SessionIds

/-!
# What passes through one connection (`udpconnection.h`, `networkserver.cpp`, `networkclient.cpp`)

Of a step of a server or a client, a connection only notices the package that arrives for it and
the calls and packages it is asked for. This is `Traffic`. It depends neither on where the other end
is nor on what messages carry besides a call (`Traffic.map`), and what passes through an end of a
link is a run of the link (`Traffic.run`).
-/

namespace NetSiege

open Lib ObjectManager UdpConnection

/-- What a connection may be asked for. -/
inductive Order (β : Type) where
  | call (procedureId : RpcId) (data : RpcData) (dataSize : Nat) (now : Time)
  | send (body : β)

section
variable {β β' ε ε' : Type}

/-- The message with another body. -/
def Message.mapBody (f : β → β') (msg : Message β) : Message β' where
  protocolId := msg.protocolId
  seqId := msg.seqId
  ackSeqId := msg.ackSeqId
  ackMask := msg.ackMask
  rpc := msg.rpc
  body := msg.body.map f

/-- The order with another body. -/
def Order.map (f : β → β') : Order β → Order β'
  | .call procedureId data dataSize now => .call procedureId data dataSize now
  | .send body => .send (f body)

namespace UdpConnection

/-- The connection, to another endpoint. -/
def toward (c : UdpConnection ε) (x : ε') : UdpConnection ε' where
  toAckRecord := c.toAckRecord
  remoteEndpoint := x
  timeOfLastAck := c.timeOfLastAck
  seqId := c.seqId
  nextMsgId := c.nextMsgId
  rpcMemory := c.rpcMemory

/-- The connection after an order, and the package it sends. -/
def perform (c : UdpConnection ε) : Order β → UdpConnection ε × Message β
  | .call procedureId data dataSize now => c.remoteProcedureCall procedureId data dataSize now
  | .send body => c.sendPackage { body := some body }

/-- The connection after the orders, and the packages it sends. -/
def performAll (c : UdpConnection ε) : List (Order β) → UdpConnection ε × List (Message β)
  | [] => (c, [])
  | order :: orders =>
    let (c, msg) := c.perform order
    let (c, sent) := c.performAll orders
    (c, msg :: sent)

/-- The connection after what arrives, if something does, and the calls it sends again. -/
def arrive (P : Platform) (c : UdpConnection ε) :
    Option (Message β' × SteadyClock) → UdpConnection ε × List (Message β)
  | none => (c, [])
  | some (msg, clk) =>
    let pass : AckPass ε β := (c.parsePackage P clk msg 0).1
    (pass.conn, pass.sent)

/-- A connection got what arrived, and then did what it was asked. -/
def Traffic (P : Platform) (arrival : Option (Message β' × SteadyClock)) (c c' : UdpConnection ε)
    (sent : List (Message β)) : Prop :=
  ∃ c1 resent orders answers, c.arrive P arrival = (c1, resent) ∧
    c1.performAll orders = (c', answers) ∧ sent = resent ++ answers

variable {P : Platform} {clk : SteadyClock} {now : Time} {c c' : UdpConnection ε}
  {sent : List (Message β)} {arrival : Option (Message β' × SteadyClock)}

theorem performAll_append (c : UdpConnection ε) (orders orders' : List (Order β)) :
    c.performAll (orders ++ orders') = (((c.performAll orders).1.performAll orders').1,
      (c.performAll orders).2 ++ ((c.performAll orders).1.performAll orders').2) := by
  induction orders generalizing c with
  | nil => rfl
  | cons order orders ih =>
    simp only [List.cons_append, performAll, ih]

/-- Nothing arrived. -/
theorem traffic_of_orders {orders : List (Order β)} (h : c.performAll orders = (c', sent)) :
    Traffic P (none : Option (Message β' × SteadyClock)) c c' sent :=
  ⟨c, [], orders, sent, rfl, h, rfl⟩

theorem traffic_refl (P : Platform) (c : UdpConnection ε) :
    Traffic P (none : Option (Message β' × SteadyClock)) c c ([] : List (Message β)) :=
  ⟨c, [], [], [], rfl, rfl, rfl⟩

/-! ## Another endpoint, and other bodies -/

@[simp] theorem toward_toward (c : UdpConnection ε) (x : ε') {ε'' : Type} (y : ε'') :
    (c.toward x).toward y = c.toward y := rfl

/-- The pass over the memory of a connection to another endpoint. -/
def AckPass.map (x : ε') (f : β → β') (s : AckPass ε β) : AckPass ε' β' where
  conn := s.conn.toward x
  it := s.it
  reads := s.reads
  sent := s.sent.map (·.mapBody f)
  acknowledged := s.acknowledged
  overran := s.overran

theorem AckPass.map_resend (x : ε') (f : β → β') {s : AckPass ε β} {info : RpcInfo} :
    (s.resend clk info).map x f = (s.map x f).resend clk info := by
  simp only [resend, remoteProcedureCallAs, sendPackage, eraseIt, map, List.map_append]
  rfl

theorem AckPass.map_turn (x : ε') (f : β → β') (s : AckPass ε β) :
    (s.turn P clk now).map (·.map x f) = (s.map x f).turn P clk now := by
  have hentry : (s.map x f).conn.rpcMemory[(s.map x f).it]? = s.conn.rpcMemory[s.it]? := rfl
  unfold turn
  rw [hentry]
  cases s.conn.rpcMemory[s.it]? with
  | none => rfl
  | some info =>
    have hrecord : (s.map x f).conn.acknowledges info.seqId = s.conn.acknowledges info.seqId := rfl
    dsimp only
    rw [hrecord, ← map_resend]
    split
    · rfl
    · split <;> rfl

theorem map_processRpcAcknowledges (P : Platform) (clk : SteadyClock) (x : ε') (f : β → β')
    (c : UdpConnection ε) (reads : Nat) :
    AckPass.map x f (c.processRpcAcknowledges P clk reads) =
      (c.toward x).processRpcAcknowledges P clk reads := by
  have hmeasure : ∀ s : AckPass ε β,
      s.measure (clk.read reads) = (s.map x f).measure (clk.read reads) := fun _ => rfl
  exact map_loop (AckPass.map x f) (AckPass.map_turn x f) hmeasure { conn := c, reads := reads + 1 }

/-- What is read of a package is its header and its call. -/
theorem map_parsePackage {β₁ β₂ : Type} (P : Platform) (clk : SteadyClock) (x : ε') (f : β → β')
    (g : β₁ → β₂) (c : UdpConnection ε) (msg : Message β₁) (srcClientId srcClientId' : UInt16) :
    AckPass.map x f (c.parsePackage P clk msg srcClientId).1 =
      ((c.toward x).parsePackage P clk (msg.mapBody g) srcClientId').1 :=
  map_processRpcAcknowledges P clk x f (c.recordPackage P (clk.read 0) msg.seqId.toUInt16) 1

theorem map_perform (x : ε') (f : β → β') (c : UdpConnection ε) (order : Order β) :
    (c.toward x).perform (order.map f) =
      ((c.perform order).1.toward x, (c.perform order).2.mapBody f) := by
  cases order <;> rfl

theorem map_performAll (x : ε') (f : β → β') (c : UdpConnection ε) (orders : List (Order β)) :
    (c.toward x).performAll (orders.map (Order.map f)) =
      ((c.performAll orders).1.toward x, (c.performAll orders).2.map (·.mapBody f)) := by
  induction orders generalizing c with
  | nil => rfl
  | cons order orders ih => simp only [List.map_cons, performAll, map_perform, ih]

theorem map_arrive {β₁ β₂ : Type} (x : ε') (f : β → β') (g : β₁ → β₂) (c : UdpConnection ε)
    (arrival : Option (Message β₁ × SteadyClock)) :
    (c.toward x).arrive P (arrival.map fun a => (a.1.mapBody g, a.2)) =
      ((c.arrive P arrival : _ × List (Message β)).1.toward x,
        (c.arrive P arrival).2.map (·.mapBody f)) := by
  cases arrival with
  | none => rfl
  | some a =>
    have hpass := map_parsePackage P a.2 x f g c a.1 0 0
    simp only [Option.map_some, arrive, ← hpass]
    rfl

/-- What passes through a connection would pass through one to another endpoint. -/
theorem Traffic.map {β₁ β₂ : Type} {arrival : Option (Message β₁ × SteadyClock)}
    (h : Traffic P arrival c c' sent) (x : ε') (f : β → β') (g : β₁ → β₂) :
    Traffic P (arrival.map fun a => (a.1.mapBody g, a.2)) (c.toward x) (c'.toward x)
      (sent.map (·.mapBody f)) := by
  obtain ⟨c1, resent, orders, answers, harrive, hperform, rfl⟩ := h
  refine ⟨c1.toward x, _, orders.map (Order.map f), _, ?_, ?_, List.map_append⟩
  · rw [map_arrive x f g, harrive]
  · rw [map_performAll, hperform]

end UdpConnection

end

/-! ## An end of a link -/

namespace Books

variable {β : Type} {P : Platform} {b : Books β} {t : Side}

/-- The end has done this and was asked for these calls, and the other end nothing. -/
structure Moved (b b' : Books β) (t : Side) (c : UdpConnection Side) (sent : List (Message β))
    (asked : List IssuedCall) : Prop where
  conn : (b'.link t).conn = c
  sent : (b'.link t).sent = (b.link t).sent ++ sent
  issued : b'.issued t = b.issued t ++ asked
  peer : b'.link t.peer = b.link t.peer
  issuedPeer : b'.issued t.peer = b.issued t.peer

/-- The input that is the order. -/
def inputOf (t : Side) : Order β → LinkInput β
  | .call procedureId data dataSize now => .call t procedureId data dataSize now
  | .send body => .send t body

theorem peer_ne (t : Side) : t.peer ≠ t := by cases t <;> exact nofun

theorem moved_refl (b : Books β) (t : Side) : Moved b b t (b.link t).conn [] [] where
  conn := rfl
  sent := (List.append_nil _).symm
  issued := (List.append_nil _).symm
  peer := rfl
  issuedPeer := rfl

theorem Moved.trans {b' b'' : Books β} {c c' : UdpConnection Side} {sent sent' : List (Message β)}
    {asked asked' : List IssuedCall} (h : Moved b b' t c sent asked)
    (h' : Moved b' b'' t c' sent' asked') :
    Moved b b'' t c' (sent ++ sent') (asked ++ asked') where
  conn := h'.conn
  sent := by rw [h'.sent, h.sent, List.append_assoc]
  issued := by rw [h'.issued, h.issued, List.append_assoc]
  peer := h'.peer.trans h.peer
  issuedPeer := h'.issuedPeer.trans h.issuedPeer

/-- A call goes out in the package that is sent for it. -/
theorem step_order (b : Books β) (t : Side) (order : Order β) :
    ∃ b' asked, b.step P (inputOf t order) = some b' ∧
      Moved b b' t ((b.link t).conn.perform order).1 [((b.link t).conn.perform order).2] asked ∧
      asked.map IssuedCall.rpc = [((b.link t).conn.perform order).2].filterMap (·.rpc) := by
  cases order with
  | call procedureId data dataSize now =>
    refine ⟨_, [⟨(b.link t).conn.nextMsgId, procedureId, data, dataSize⟩], rfl, ?_, rfl⟩
    exact {
      conn := by simp only [Link.send, Function.update_self]; rfl
      sent := by simp only [Link.send, Function.update_self]; rfl
      issued := by simp [asked, inputOf]
      peer := Function.update_of_ne (peer_ne t) _ _
      issuedPeer := by simp [asked, inputOf, peer_ne] }
  | send body =>
    refine ⟨_, [], rfl, ?_, rfl⟩
    exact {
      conn := by simp only [Link.send, Function.update_self]; rfl
      sent := by simp only [Link.send, Function.update_self]; rfl
      issued := rfl
      peer := Function.update_of_ne (peer_ne t) _ _
      issuedPeer := List.append_nil _ }

theorem run_orders {orders : List (Order β)} {c : UdpConnection Side} {sent : List (Message β)}
    (h : (b.link t).conn.performAll orders = (c, sent)) :
    ∃ b' asked, run (step P) b (orders.map (inputOf t)) = some b' ∧ Moved b b' t c sent asked ∧
      asked.map IssuedCall.rpc = sent.filterMap (·.rpc) := by
  induction orders generalizing b c sent with
  | nil =>
    cases h
    exact ⟨b, [], rfl, moved_refl b t, rfl⟩
  | cons order orders ih =>
    cases h
    obtain ⟨b1, asked1, hstep, hmoved1, hasked1⟩ := step_order (P := P) b t order
    obtain ⟨b', asked, hrun, hmoved, hasked⟩ := ih (b := b1) (Prod.eta _).symm
    rw [hmoved1.conn] at hmoved hasked
    refine ⟨b', asked1 ++ asked, ?_, hmoved1.trans hmoved, ?_⟩
    · rw [List.map_cons, run_cons, hstep, Option.bind_some, hrun]
    · rw [List.map_append, hasked1, hasked, ← List.filterMap_append]
      rfl

/-- A package of the other end is parsed. -/
theorem step_deliver {msg : Message β} (hmsg : msg ∈ (b.link t.peer).sent) (clk : SteadyClock)
    {c : UdpConnection Side} {resent : List (Message β)}
    (h : (b.link t).conn.arrive P (some (msg, clk)) = (c, resent)) :
    ∃ i b', b.step P i = some b' ∧ Moved b b' t c resent [] := by
  cases h
  obtain ⟨k, hk⟩ := List.mem_iff_getElem?.1 hmsg
  refine ⟨.deliver t k clk, _, by rw [step, Link.step, hk]; rfl, ?_⟩
  exact {
    conn := by simp only [Link.receive, Function.update_self]; rfl
    sent := by simp only [Link.receive, Function.update_self]; rfl
    issued := rfl
    peer := Function.update_of_ne (peer_ne t) _ _
    issuedPeer := List.append_nil _ }

/-- What passes through an end of a link, if it comes from the other end, is a run of the link. If
nothing arrives, the calls that go out are those the end is asked for. -/
theorem run_traffic {arrival : Option (Message β × SteadyClock)} {c : UdpConnection Side}
    {sent : List (Message β)} (h : Traffic P arrival (b.link t).conn c sent)
    (hfrom : ∀ a ∈ arrival, a.1 ∈ (b.link t.peer).sent) :
    ∃ js b' asked, run (step P) b js = some b' ∧ Moved b b' t c sent asked ∧
      (arrival = none → asked.map IssuedCall.rpc = sent.filterMap (·.rpc)) := by
  obtain ⟨c1, resent, orders, answers, harrive, hperform, rfl⟩ := h
  cases arrival with
  | none =>
    cases harrive
    obtain ⟨b', asked, hrun, hmoved, hasked⟩ := run_orders (P := P) hperform
    exact ⟨_, b', asked, hrun, hmoved, fun _ => hasked⟩
  | some a =>
    obtain ⟨i, b1, hstep, hmoved1⟩ := step_deliver (hfrom a rfl) a.2 harrive
    obtain ⟨b', asked, hrun, hmoved, _⟩ := run_orders (P := P) (hmoved1.conn ▸ hperform)
    refine ⟨i :: orders.map (inputOf t), b', asked, ?_, hmoved1.trans hmoved, nofun⟩
    rw [run_cons, hstep, Option.bind_some, hrun]

end Books

/-! ## The server -/

theorem Outgoing.to_map_self {ε : Type} [LinearOrder ε] (msgs : List (Message WorldStateUpdate))
    (e : ε) : Outgoing.to (msgs.map (e, ·)) e = msgs := by
  simp [Outgoing.to, List.filter_map, Function.comp_def]

/-- What goes to the sessions of a kind, for one of them. -/
theorem Outgoing.to_map_entries {ε : Type} [LinearOrder ε] (clients : OrdMap ε (ClientSession ε))
    (p : ClientSession ε → Bool) (f : ε × ClientSession ε → Message WorldStateUpdate) (e : ε) :
    Outgoing.to ((clients.entries.filter fun kv => p kv.2).map fun kv => (kv.1, f kv)) e =
      (((clients.find? e).filter p).map fun c => f (e, c)).toList := by
  have hto : Outgoing.to ((clients.entries.filter fun kv => p kv.2).map fun kv => (kv.1, f kv)) e =
      ((clients.entries.filter fun kv => kv.1 = e).filter fun kv => p kv.2).map f := by
    simp only [Outgoing.to, List.filter_map, List.map_map, List.filter_filter, Bool.and_comm]
    rfl
  rw [hto]
  cases hc : clients.find? e with
  | none =>
    have hempty : (clients.entries.filter fun kv => kv.1 = e) = [] := by
      refine List.filter_eq_nil_iff.2 fun kv hkv heq => ?_
      cases of_decide_eq_true heq
      cases hc.symm.trans (OrdMap.mem_entries.1 hkv)
    rw [hempty]
    rfl
  | some c =>
    rw [OrdMap.filter_entries_of_find? hc]
    cases hp : p c <;> simp [hp, Option.filter]

namespace NetworkServer

variable {ε σ V : Type} [LinearOrder ε] {P : Platform} {H : ScriptHost σ V}
  {s s' : NetworkServer ε σ} {e : ε} {r : NetworkServer ε σ × Outgoing ε}

/-- The server did something else than parsing a package. It made no session for the endpoint, and
the one there is, if it still is, was asked for what was sent to it. -/
structure Asks (s : NetworkServer ε σ) (e : ε) (r : NetworkServer ε σ × Outgoing ε) : Prop where
  absent : s.clients.find? e = none → r.1.clients.find? e = none ∧ r.2.to e = []
  present : ∀ c c', s.clients.find? e = some c → r.1.clients.find? e = some c' →
    ∃ orders, c.performAll orders = (c'.toUdpConnection, r.2.to e)

/-- Nothing was sent to the endpoint, whose session is as it was. -/
theorem asks_of_other (h : r.1.clients.find? e = s.clients.find? e) (hsent : r.2.to e = []) :
    Asks s e r where
  absent hnone := ⟨h.trans hnone, hsent⟩
  present c c' hc hc' := by
    cases (h.symm.trans hc').symm.trans hc
    exact ⟨[], by rw [hsent]; rfl⟩

theorem asks_of_find? (h : s'.clients.find? e = s.clients.find? e) : Asks s e (s', []) :=
  asks_of_other h rfl

theorem Asks.trans {sent : Outgoing ε} (h : Asks s e (s', sent)) (h' : Asks s' e r) :
    Asks s e (r.1, sent ++ r.2) where
  absent hnone := by
    obtain ⟨hnone', hsent⟩ := h.absent hnone
    obtain ⟨hnone'', hsent'⟩ := h'.absent hnone'
    exact ⟨hnone'', by rw [Outgoing.to_append, hsent, hsent', List.append_nil]⟩
  present c c'' hc hc'' := by
    cases hmid : s'.clients.find? e with
    | none => cases (h'.absent hmid).1.symm.trans hc''
    | some c' =>
      obtain ⟨orders, hperform⟩ := h.present c c' hc hmid
      obtain ⟨orders', hperform'⟩ := h'.present c' c'' hmid hc''
      refine ⟨orders ++ orders', ?_⟩
      simp only [performAll_append, hperform, hperform', Outgoing.to_append]

/-- Sessions may be closed afterwards. -/
theorem Asks.closed (h : Asks s e r)
    (hclosed : ∀ c, s'.clients.find? e = some c → r.1.clients.find? e = some c) :
    Asks s e (s', r.2) where
  absent hnone := by
    obtain ⟨hnone', hsent⟩ := h.absent hnone
    refine ⟨Option.eq_none_iff_forall_not_mem.2 fun c hc => ?_, hsent⟩
    cases hnone'.symm.trans (hclosed c hc)
  present c c' hc hc' := h.present c c' hc (hclosed c' hc')

/-- Each session of a kind is asked for the same, and sends its package. -/
theorem asks_mapVal (p : ClientSession ε → Bool) (order : ε → Order WorldStateUpdate)
    (hclients : s'.clients = s.clients.mapVal fun e c =>
      if p c then { c with toUdpConnection := (c.perform (order e)).1 } else c) :
    Asks s e (s', (s.clients.entries.filter fun kv => p kv.2).map fun kv =>
      (kv.1, (kv.2.perform (order kv.1)).2)) := by
  have hfind : s'.clients.find? e = (s.clients.find? e).map fun c =>
      if p c then { c with toUdpConnection := (c.perform (order e)).1 } else c := by
    rw [hclients, OrdMap.find?_mapVal]
  constructor
  · intro hnone
    refine ⟨by rw [hfind, hnone, Option.map_none], ?_⟩
    rw [Outgoing.to_map_entries, hnone]
    rfl
  · intro c c' hc hc'
    rw [hfind, hc, Option.map_some] at hc'
    cases hc'
    rw [Outgoing.to_map_entries, hc]
    cases hp : p c with
    | false => exact ⟨[], by simp [hp, performAll, Option.filter]⟩
    | true => exact ⟨[order e], by simp [hp, performAll, Option.filter]⟩

theorem asks_remoteProcedureCall {now : ε → Time} {clientId : UInt16} {package : RPCPackage}
    (h : s.remoteProcedureCall now clientId package = .ok r) : Asks s e r := by
  obtain ⟨dataSize, _, heq⟩ := bind_eq_ok.1 h
  cases heq
  exact asks_mapVal (·.isAddressed clientId)
    (fun e => .call package.rpcId package.data dataSize (now e)) rfl

theorem asks_activate (s : NetworkServer ε σ) (clientId : UInt16) :
    Asks s e (s.activate clientId, []) where
  absent hnone := ⟨by rw [activate_find?, hnone, Option.map_none], rfl⟩
  present c c' hc hc' := by
    rw [activate_find?, hc, Option.map_some] at hc'
    cases hc'
    refine ⟨[], ?_⟩
    split <;> rfl

theorem asks_handleJoinRequest {now : ε → Time} {clientId : UInt16} {package : RPCPackage}
    (h : s.handleJoinRequest now clientId package = .ok r) : Asks s e r := by
  obtain ⟨_, _, h⟩ := bind_eq_ok.1 h
  obtain ⟨_, _, h⟩ := bind_eq_ok.1 h
  obtain ⟨_, _, h⟩ := bind_eq_ok.1 h
  obtain ⟨r1, hcall, h⟩ := bind_eq_ok.1 h
  dsimp only at h
  split at h
  · cases h
  cases h
  exact (asks_activate s clientId).trans (asks_remoteProcedureCall hcall)

theorem asks_handleJoinAcknowledge {clientId : UInt16} {package : RPCPackage}
    (h : s.handleJoinAcknowledge H clientId package = .ok r) : Asks s e r := by
  obtain ⟨_, _, h⟩ := bind_eq_ok.1 h
  dsimp only at h
  split at h
  · cases h
  next found c hfound =>
  have hc := (findClient_eq_some.1 hfound).1.1
  split at h
  · split at h
    · cases h
    obtain ⟨updatedObjects, _, heq⟩ := bind_eq_ok.1 h
    cases heq
    obtain rfl | hne := eq_or_ne e found
    · constructor
      · intro hnone
        cases hnone.symm.trans hc
      · intro c1 c' hc1 hc'
        cases hc.symm.trans hc1
        cases OrdMap.find?_insert_self.symm.trans hc'
        exact ⟨[.send { updatedObjects }], by rw [Outgoing.to_singleton]; rfl⟩
    · have hto : Outgoing.to [(found,
          (c.sendPackage ({ body := some { updatedObjects } } : Message WorldStateUpdate)).2)] e =
          [] := by
        simp [Outgoing.to, hne.symm]
      refine asks_of_other ?_ hto
      exact OrdMap.find?_insert_of_ne hne
  · cases h
    refine (asks_of_find? (s := s) rfl).closed fun c1 hc1 => ?_
    rw [OrdMap.find?_erase] at hc1
    split at hc1
    · cases hc1
    · exact hc1

theorem asks_invoke {now : ε → Time} {invocation : Option (Invocation ServerCallback)}
    (h : s.invoke H now invocation = .ok r) : Asks s e r := by
  unfold invoke at h
  split at h
  · exact asks_handleJoinRequest h
  · exact asks_handleJoinAcknowledge h
  · cases h
    exact asks_of_find? rfl

theorem asks_sync {now : Time} {closed : List ε} (h : s.sync H now closed = .ok r) :
    Asks s e r := by
  unfold sync at h
  split at h
  · cases h
  dsimp only at h
  split at h
  · cases h
    exact (asks_of_find? (s := s) rfl).closed fun c hc => find?_of_closeDeadConnections hc
  · obtain ⟨update, _, heq⟩ := bind_eq_ok.1 h
    cases heq
    exact (asks_mapVal (s := s) (·.isActive) (fun _ => .send update) rfl).closed fun c hc =>
      find?_of_closeDeadConnections hc

/-- The connection to an endpoint, as it will be when there is none yet. -/
def connectionTo (s : NetworkServer ε σ) (e : ε) : UdpConnection ε :=
  ((s.clients.find? e).map (·.toUdpConnection)).getD { remoteEndpoint := e }

/-- The package that arrives from an endpoint. -/
def Input.arrivalFrom (e : ε) : Input ε σ → Option (Message Unit × SteadyClock)
  | .receive e' msg _ clk _ => if e' = e then some (msg, clk) else none
  | _ => none

/-- What a server did is not that it closed the session at an endpoint. -/
def Keeps (s : NetworkServer ε σ) (e : ε) (i : Input ε σ) (s' : NetworkServer ε σ) : Prop :=
  (s.clients.find? e).isSome ∨ (i.arrivalFrom e).isSome → (s'.clients.find? e).isSome

theorem connectionTo_of_find? {c : ClientSession ε} (h : s.clients.find? e = some c) :
    s.connectionTo e = c.toUdpConnection := by
  rw [connectionTo, h, Option.map_some, Option.getD_some]

/-- What the server did without parsing a package. -/
theorem Asks.traffic (h : Asks s e r)
    (hkept : (s.clients.find? e).isSome → (r.1.clients.find? e).isSome) :
    Traffic P (none : Option (Message Unit × SteadyClock)) (s.connectionTo e) (r.1.connectionTo e)
      (r.2.to e) := by
  cases hc : s.clients.find? e with
  | none =>
    obtain ⟨hnone, hsent⟩ := h.absent hc
    rw [connectionTo, connectionTo, hc, hnone, hsent]
    exact traffic_refl P _
  | some c =>
    obtain ⟨c', hc'⟩ := Option.isSome_iff_exists.1 (hkept (hc ▸ rfl))
    obtain ⟨orders, hperform⟩ := h.present c c' hc hc'
    rw [connectionTo_of_find? hc, connectionTo_of_find? hc']
    exact traffic_of_orders hperform

/-- A package is parsed in the connection to its sender. -/
theorem parse_connectionTo (s : NetworkServer ε σ) (e : ε) (msg : Message Unit)
    (clk : SteadyClock) :
    (s.connectionTo e).arrive P (some (msg, clk)) =
      ((s.parse P e msg clk).1.connectionTo e, (s.parse P e msg clk).2.1.to e) := by
  have hconnect : s.connectionTo e = (s.connect e).2.toUdpConnection := by
    unfold connectionTo connect
    cases s.clients.find? e <;> rfl
  have hsent : (s.parse P e msg clk).2.1.to e =
      ((s.connect e).2.parsePackage P clk msg 0 : AckPass ε WorldStateUpdate × _).1.sent :=
    Outgoing.to_map_self _ e
  rw [hsent, hconnect, connectionTo_of_find? (s := (s.parse P e msg clk).1)
    OrdMap.find?_insert_self]
  rfl

/-- A datagram, to the connection it arrives for and to the others. -/
theorem traffic_handleReceive {e' : ε} {msg : Message Unit} {stack : RpcData} {clk : SteadyClock}
    {now : ε → Time} (h : s.handleReceive P H e' msg stack clk now = .ok r)
    (hkeeps : s.Keeps e (.receive e' msg stack clk now) r.1) :
    Traffic P ((Input.receive e' msg stack clk now : Input ε σ).arrivalFrom e) (s.connectionTo e)
      (r.1.connectionTo e) (r.2.to e) := by
  obtain ⟨invocation, _, h⟩ := bind_eq_ok.1 h
  obtain ⟨r1, hinvoke, heq⟩ := bind_eq_ok.1 h
  obtain rfl : r = (r1.1, (s.parse P e' msg clk).2.1 ++ r1.2) := (Except.ok.inj heq).symm
  have hasks : Asks (s.parse P e' msg clk).1 e r1 := asks_invoke hinvoke
  obtain ⟨⟨conn, hself⟩, hother⟩ := parse_find? (P := P) s e' msg clk
  obtain rfl | hne := eq_or_ne e' e
  · have harrival : (Input.receive e' msg stack clk now : Input ε σ).arrivalFrom e' =
        some (msg, clk) := if_pos rfl
    have hkept := hkeeps (.inr (harrival ▸ rfl))
    obtain ⟨c', hc'⟩ := Option.isSome_iff_exists.1 hkept
    obtain ⟨orders, hperform⟩ := hasks.present _ _ hself hc'
    refine ⟨_, _, orders, r1.2.to e', harrival ▸ parse_connectionTo s e' msg clk, ?_,
      Outgoing.to_append ..⟩
    rw [connectionTo_of_find? hself, connectionTo_of_find? hc', hperform]
  · have harrival : (Input.receive e' msg stack clk now : Input ε σ).arrivalFrom e = none :=
      if_neg hne
    have hsent : (s.parse P e' msg clk).2.1.to e = [] := by
      simp [parse, Outgoing.to, List.filter_map, hne]
    have hbefore : Asks s e ((s.parse P e' msg clk).1, []) := asks_of_find? (hother e hne.symm)
    rw [harrival, Outgoing.to_append, hsent]
    exact (hbefore.trans hasks).traffic fun hsome => hkeeps (.inl hsome)

/-- What a script calls goes out as that call, once to each endpoint it goes to. -/
theorem sent_scriptCall {i : Input ε σ} {call : ScriptCall} (h : s.next P H i = .ok r)
    (hcall : s.scriptCall i = some call) (e : ε) :
    i.arrivalFrom e = none ∧ (r.2.to e = [] ∨
      ∃ rpc, (r.2.to e).filterMap (·.rpc) = [rpc] ∧ call.CarriedBy rpc) := by
  cases i with
  | call clientId name slots now =>
    cases hcall
    refine ⟨rfl, ?_⟩
    obtain ⟨⟨package, d⟩, hbuild, h⟩ := bind_eq_ok.1 h
    obtain ⟨dataSize, hsize, heq⟩ := bind_eq_ok.1 h
    cases heq
    rw [Outgoing.to_map_entries s.clients (·.isAddressed clientId)]
    cases hc : (s.clients.find? e).filter (·.isAddressed clientId) with
    | none => exact .inl rfl
    | some c =>
      have hne : (s.clients.entries.filter fun kv =>
          kv.2.isAddressed clientId).isEmpty = false := by
        obtain ⟨hfind, haddressed⟩ := Option.filter_eq_some_iff.1 hc
        rw [List.isEmpty_eq_false_iff]
        exact List.ne_nil_of_mem (List.mem_filter.2 ⟨OrdMap.mem_entries.2 hfind, haddressed⟩)
      dsimp only at hsize
      rw [hne] at hsize
      exact .inr ⟨_, rfl, carriedBy_of_buildCall hbuild hsize _⟩
  | _ => cases hcall

/-- Every step of the server, as the connection to an endpoint sees it. -/
theorem traffic_next {i : Input ε σ} (h : s.next P H i = .ok r) (hkeeps : s.Keeps e i r.1) :
    Traffic P (i.arrivalFrom e) (s.connectionTo e) (r.1.connectionTo e) (r.2.to e) := by
  cases i with
  | receive e' msg stack clk now => exact traffic_handleReceive h hkeeps
  | sync now closed => exact (asks_sync h).traffic fun hsome => hkeeps (.inl hsome)
  | addRpcHandlerFunc M clientId id funcname =>
    obtain ⟨_, _, heq⟩ := bind_eq_ok.1 h
    cases heq
    exact traffic_refl P _
  | addRpcHandlerMethod M clientId id object funcname argspec =>
    cases h
    exact traffic_refl P _
  | registerRpc M id name argspec =>
    obtain ⟨_, _, heq⟩ := bind_eq_ok.1 h
    cases heq
    exact traffic_refl P _
  | call clientId name slots now =>
    obtain ⟨⟨package, d⟩, _, hcall⟩ := bind_eq_ok.1 h
    have hasks : Asks { s with toRPCDispatcher := d } e r := asks_remoteProcedureCall hcall
    exact hasks.traffic fun hsome => hkeeps (.inl hsome)
  | world op =>
    simp only [next] at h
    split at h
    · cases h
    · cases h
      exact traffic_refl P _

end NetworkServer

/-! ## A client -/

namespace ClientProcess

variable {ε σ V : Type} {P : Platform} {H : ScriptHost σ V} {alloc : Allocator σ}
  {c : ClientProcess ε σ} {r : ClientProcess ε σ × List (Message Unit)}

/-- The package that arrives. -/
def Input.arrival : Input ε σ → Option (Message WorldStateUpdate × SteadyClock)
  | .receive _ msg _ clk _ => some (msg, clk)
  | _ => none

theorem performs_remoteProcedureCall {client : NetworkClient ε σ} {package : RPCPackage}
    {now : Time} {r : NetworkClient ε σ × List (Message Unit)}
    (h : client.remoteProcedureCall package now = .ok r) :
    ∃ orders, client.performAll orders = (r.1.toUdpConnection, r.2) := by
  obtain ⟨⟨conn, msg⟩, hcall, heq⟩ := bind_eq_ok.1 h
  obtain ⟨dataSize, _, hconn⟩ := bind_eq_ok.1 hcall
  cases hconn
  cases heq
  exact ⟨[.call package.rpcId package.data dataSize now], rfl⟩

theorem performs_execute {stack : RpcData} {now : Time} {call : ReceivedCall}
    {client : NetworkClient ε σ} {r : NetworkClient ε σ × List (Message Unit)}
    (h : c.execute stack now call client = .ok r) :
    ∃ orders, client.performAll orders = (r.1.toUdpConnection, r.2) := by
  obtain ⟨invocation, _, h⟩ := bind_eq_ok.1 h
  split at h
  · unfold NetworkClient.handleJoinResponse at h
    split at h
    · cases h
    obtain ⟨_, _, h⟩ := bind_eq_ok.1 h
    obtain ⟨_, _, h⟩ := bind_eq_ok.1 h
    obtain ⟨_, _, h⟩ := bind_eq_ok.1 h
    obtain ⟨_, _, h⟩ := bind_eq_ok.1 h
    obtain ⟨_, _, h⟩ := bind_eq_ok.1 h
    obtain ⟨_, _, h⟩ := bind_eq_ok.1 h
    dsimp only at h
    split at h
    · cases h
    · exact performs_remoteProcedureCall h
  · cases h
    exact ⟨[], rfl⟩

theorem traffic_receive {e : ε} {msg : Message WorldStateUpdate} {stack : RpcData}
    {clk : SteadyClock} {now : Time} (h : c.receive P H alloc e msg stack clk now = .ok r) :
    Traffic P (some (msg, clk)) (c.toUdpConnection.toward e) r.1.toUdpConnection r.2 := by
  obtain ⟨⟨client, sent⟩, hreceive, heq⟩ := bind_eq_ok.1 h
  cases heq
  unfold NetworkClient.handleReceive at hreceive
  dsimp only at hreceive
  split at hreceive
  · obtain ⟨r1, hexecute, heq⟩ := bind_eq_ok.1 hreceive
    cases heq
    obtain ⟨orders, hperform⟩ := performs_execute hexecute
    exact ⟨_, _, orders, r1.2, rfl, hperform, rfl⟩
  · split at hreceive
    · obtain ⟨m, _, heq⟩ := bind_eq_ok.1 hreceive
      cases heq
      exact ⟨_, _, [], [], rfl, rfl, (List.append_nil _).symm⟩
    · cases hreceive
      exact ⟨_, _, [], [], rfl, rfl, (List.append_nil _).symm⟩

/-- What a script calls goes out as that call. -/
theorem sent_scriptCall {i : Input ε σ} {call : ScriptCall} (h : c.next P H alloc i = .ok r)
    (hcall : c.scriptCall i = some call) :
    i.arrival = none ∧ ∃ rpc, r.2.filterMap (·.rpc) = [rpc] ∧ call.CarriedBy rpc := by
  cases i with
  | call name slots now =>
    cases hcall
    refine ⟨rfl, ?_⟩
    obtain ⟨⟨package, d⟩, hbuild, h⟩ := bind_eq_ok.1 h
    obtain ⟨⟨client, sent⟩, hsend, heq⟩ := bind_eq_ok.1 h
    cases heq
    obtain ⟨⟨conn, msg⟩, hpackage, heq⟩ := bind_eq_ok.1 hsend
    obtain ⟨dataSize, hsize, heq'⟩ := bind_eq_ok.1 hpackage
    cases heq'
    cases heq
    exact ⟨_, rfl, carriedBy_of_buildCall hbuild hsize _⟩
  | _ => cases hcall

/-- Every step of a client. -/
theorem traffic_next {i : Input ε σ} (h : c.next P H alloc i = .ok r) :
    Traffic P i.arrival (c.toUdpConnection.toward (i.sender.getD c.remoteEndpoint))
      r.1.toUdpConnection r.2 := by
  cases i with
  | receive e msg stack clk now => exact traffic_receive h
  | sendJoinRequest now =>
    obtain ⟨_, _, h⟩ := bind_eq_ok.1 h
    obtain ⟨_, _, h⟩ := bind_eq_ok.1 h
    dsimp only at h
    split at h
    · cases h
    · obtain ⟨r1, hcall, heq⟩ := bind_eq_ok.1 h
      cases heq
      obtain ⟨orders, hperform⟩ := performs_remoteProcedureCall hcall
      exact traffic_of_orders hperform
  | call name slots now =>
    obtain ⟨⟨package, d⟩, _, h⟩ := bind_eq_ok.1 h
    obtain ⟨r1, hcall, heq⟩ := bind_eq_ok.1 h
    cases heq
    obtain ⟨orders, hperform⟩ := performs_remoteProcedureCall hcall
    exact traffic_of_orders hperform
  | register r' =>
    simp only [next] at h
    split at h
    · cases h
    · cases h
      exact traffic_refl P _
  | setJoinAcceptHandler callback =>
    cases h
    exact traffic_refl P _
  | setObjectManager manager =>
    cases h
    exact traffic_refl P _
  | world op =>
    simp only [next] at h
    split at h
    · cases h
    · cases h
      exact traffic_refl P _

end ClientProcess

end NetSiege
