import NetSiege.Network.ClientIds

/-!
# The join handshake

A client joins with three messages: `JOIN_SERVER_REQ`, answered with `JOIN_SERVER_RESP`, answered
with `JOIN_SERVER_ACK`. `JoinStage` is how far a session is by the messages it exchanged with the
server; a `Handshake` is a server with the stages of its sessions. The server itself keeps only
`isActive`, and both handlers set it. `kept_iff` says when that flag and the full world state come
to sessions in their time.
-/

namespace NetSiege

open Lib

/-- How far the handshake of a session is. -/
inductive JoinStage where
  | connected
  | requested
  | answered
  | acknowledged
deriving DecidableEq

namespace JoinStage

/-- The session's join request was handled, and answered or not. -/
def request (answered : Bool) : JoinStage → JoinStage
  | .connected | .requested => if answered then .answered else .requested
  | stage => stage

/-- The session's join acknowledgement came, not zero. -/
def acknowledge : JoinStage → JoinStage
  | .answered => .acknowledged
  | stage => stage

/-- What the session sent was handled by the invocation, which sent something back or not. -/
def hear (stage : JoinStage) (answered : Bool) : Option (Invocation ServerCallback) → JoinStage
  | some (.cpp .joinRequest _ _) => stage.request answered
  | some (.cpp .joinAcknowledge _ package) =>
    match package.popValue 1 with
    | .ok (accepted, _) => if accepted ≠ 0 then stage.acknowledge else stage
    | .error _ => stage
  | _ => stage

theorem request_ne_connected {stage : JoinStage} {answered : Bool} :
    stage.request answered ≠ .connected := by
  cases stage <;> cases answered <;> decide

theorem acknowledge_ne_connected {stage : JoinStage} (h : stage ≠ .connected) :
    stage.acknowledge ≠ .connected := by
  cases stage with
  | connected => exact absurd rfl h
  | _ => nofun

theorem acknowledge_eq_acknowledged {stage : JoinStage} :
    stage.acknowledge = .acknowledged ↔ stage = .answered ∨ stage = .acknowledged := by
  cases stage <;> decide

/-- No message takes the handshake back to its beginning. -/
theorem hear_ne_connected {stage : JoinStage} {answered : Bool}
    {invocation : Option (Invocation ServerCallback)} (h : stage ≠ .connected) :
    stage.hear answered invocation ≠ .connected := by
  unfold hear
  split
  · exact request_ne_connected
  · split
    · split
      · exact acknowledge_ne_connected h
      · exact h
    · exact h
  · exact h

end JoinStage

/-- A server, with the stages of its sessions. -/
structure Handshake (ε σ : Type) [LinearOrder ε] where
  server : NetworkServer ε σ
  stage : ε → JoinStage := fun _ => .connected

namespace Handshake

open NetworkServer

variable {ε σ V : Type} [LinearOrder ε]

/-- The stage of the session at an endpoint that is heard of. A new session begins anew. -/
def connect (h : Handshake ε σ) (e : ε) : JoinStage :=
  if (h.server.clients.find? e).isSome then h.stage e else .connected

/-- The sessions the handler for a datagram sends to. -/
def sentTo (P : Platform) (H : ScriptHost σ V) (s : NetworkServer ε σ) (e : ε) (msg : Message Unit)
    (clk : SteadyClock) (now : ε → Time) (invocation : Option (Invocation ServerCallback)) :
    List ε :=
  match (s.parse P e msg clk).1.invoke H now invocation with
  | .ok (_, sent) => sent.map (·.1)
  | .error _ => []

/-- The stages after a step, by what the session said and heard. -/
def record (P : Platform) (H : ScriptHost σ V) (h : Handshake ε σ) : Input ε σ → ε → JoinStage
  | .receive e msg stack clk now, e' =>
    if e' = e then
      let invocation := (h.server.received P e msg stack clk).toOption.join
      (h.connect e).hear (e ∈ sentTo P H h.server e msg clk now invocation) invocation
    else h.stage e'
  | _, e' => h.stage e'

/-- A step of the server. -/
def step (P : Platform) (H : ScriptHost σ V) (h : Handshake ε σ) (i : Input ε σ) :
    Option (Handshake ε σ) :=
  (h.server.step P H i).map fun server => { server, stage := h.record P H i }

/-- Only sessions that sent a join request are active. -/
def Requested (h : Handshake ε σ) : Prop :=
  ∀ e c, h.server.clients.find? e = some c → c.isActive = true → h.stage e ≠ .connected

/-- The sessions `handle_joinAcknowledge` sends the full world state to. -/
def fullStateTo (P : Platform) (H : ScriptHost σ V) (s : NetworkServer ε σ) : Input ε σ → List ε
  | .receive e msg stack clk now =>
    match s.received P e msg stack clk with
    | .ok (some (.cpp .joinAcknowledge senderId package)) =>
      sentTo P H s e msg clk now (some (.cpp .joinAcknowledge senderId package))
    | _ => []
  | _ => []

/-- After the step only sessions that sent a join request are active, and the full world state went
only to sessions that acknowledged the answer to theirs. -/
def Kept (P : Platform) (H : ScriptHost σ V) (h : Handshake ε σ) (i : Input ε σ) : Prop :=
  (∀ h', h.step P H i = some h' → h'.Requested) ∧
    ∀ e ∈ fullStateTo P H h.server i, h.record P H i e = .acknowledged

/-- The session a client id leads a join acknowledgement to: the last one that has it. -/
def LastWith (s : NetworkServer ε σ) (clientId : UInt16) (e : ε) : Prop :=
  (∃ c, s.clients.find? e = some c ∧ c.clientId = clientId.toUInt64) ∧
    ∀ e' c', s.clients.find? e' = some c' → c'.clientId = clientId.toUInt64 → e' ≤ e

/-- A join request from `e` comes in order, if every other session that has the client id sent one
itself. -/
def RequestInOrder (h : Handshake ε σ) (s : NetworkServer ε σ) (e : ε) (clientId : UInt16) : Prop :=
  ∀ e' c, s.clients.find? e' = some c → c.clientId = clientId.toUInt64 → e' ≠ e →
    h.stage e' ≠ .connected

/-- An accepting join acknowledgement from `e` comes in order, if the last session that has the
client id is the sender, and its request was answered, or is another, and acknowledged itself; or if
the full world state cannot be serialized. -/
def AcknowledgeInOrder (H : ScriptHost σ V) (h : Handshake ε σ) (s : NetworkServer ε σ) (e : ε)
    (clientId : UInt16) (package : RPCPackage) : Prop :=
  ∀ accepted p m updatedObjects e', package.popValue 1 = .ok (accepted, p) → accepted ≠ 0 →
    s.objectManager = some m → m.serializeFull H = .ok updatedObjects → LastWith s clientId e' →
      if e' = e then h.connect e = .answered ∨ h.connect e = .acknowledged
      else h.stage e' = .acknowledged

/-- The join requests and acknowledgements come in order. The client id is the sender's, cut to 16
bits. -/
def InOrder (P : Platform) (H : ScriptHost σ V) (h : Handshake ε σ) : Input ε σ → Prop
  | .receive e msg stack clk _ =>
    let s := (h.server.parse P e msg clk).1
    match h.server.received P e msg stack clk with
    | .ok (some (.cpp .joinRequest clientId _)) => h.RequestInOrder s e clientId
    | .ok (some (.cpp .joinAcknowledge clientId package)) =>
      h.AcknowledgeInOrder H s e clientId package
    | _ => True
  | _ => True

variable {P : Platform} {H : ScriptHost σ V} {h h' : Handshake ε σ} {e e' : ε}

theorem step_eq_some {i : Input ε σ} (hstep : h.step P H i = some h') :
    h.server.step P H i = some h'.server ∧ h'.stage = h.record P H i := by
  obtain ⟨server, hserver, rfl⟩ := Option.map_eq_some_iff.1 hstep
  exact ⟨hserver, rfl⟩

theorem step_of {i : Input ε σ} {r : NetworkServer ε σ × Outgoing ε}
    (hnext : h.server.next P H i = .ok r) :
    h.step P H i = some { server := r.1, stage := h.record P H i } := by
  rw [step, NetworkServer.step, hnext]
  rfl

/-! ## A datagram -/

section
variable {msg : Message Unit} {stack : RpcData} {clk : SteadyClock} {now : ε → Time}
  {invocation : Option (Invocation ServerCallback)}

theorem record_self (hreceived : h.server.received P e msg stack clk = .ok invocation) :
    h.record P H (.receive e msg stack clk now) e =
      (h.connect e).hear (e ∈ sentTo P H h.server e msg clk now invocation) invocation := by
  rw [record, if_pos rfl, hreceived]
  rfl

theorem record_of_ne (hne : e' ≠ e) :
    h.record P H (.receive e msg stack clk now) e' = h.stage e' := if_neg hne

/-- A session that is active when the handler is called has sent a join request, also after it. -/
theorem record_ne_connected (hinv : h.Requested) {c : ClientSession ε}
    (hc : (h.server.parse P e msg clk).1.clients.find? e' = some c) (hact : c.isActive = true) :
    h.record P H (.receive e msg stack clk now) e' ≠ .connected := by
  obtain ⟨c0, hc0, hact0, _⟩ := parse_active hc hact
  have hstage := hinv e' c0 hc0 hact0
  obtain rfl | hne := eq_or_ne e' e
  · have hconnect : h.connect e' = h.stage e' := by rw [connect, hc0]; rfl
    rw [record, if_pos rfl, hconnect]
    exact JoinStage.hear_ne_connected hstage
  · rwa [record_of_ne hne]

/-- The handler activates no session: only those that sent a join request are active after it. -/
theorem requested_of_calm (hinv : h.Requested)
    (hstage : h'.stage = h.record P H (.receive e msg stack clk now))
    (hcalm : Calm (h.server.parse P e msg clk).1.clients h'.server.clients) : h'.Requested := by
  intro e' c hc hact
  obtain ⟨c0, hc0, _, hact0⟩ := hcalm e' c hc
  rw [hstage]
  exact record_ne_connected hinv hc0 (hact0 ▸ hact)

/-- What a step on a datagram is, by the invocation of its handler. -/
theorem step_receive (hreceived : h.server.received P e msg stack clk = .ok invocation) :
    h.step P H (.receive e msg stack clk now) = some h' ↔
      (∃ sent, (h.server.parse P e msg clk).1.invoke H now invocation = .ok (h'.server, sent)) ∧
        h'.stage = h.record P H (.receive e msg stack clk now) := by
  constructor
  · intro hstep
    obtain ⟨hserver, hstage⟩ := step_eq_some hstep
    obtain ⟨⟨_, _⟩, hnext, rfl⟩ := NetworkServer.step_eq_some hserver
    obtain ⟨invocation', hreceived', hrest⟩ := bind_eq_ok.1 hnext
    obtain rfl : invocation = invocation' := Except.ok.inj (hreceived.symm.trans hreceived')
    obtain ⟨⟨_, sent⟩, hinvoke, heq⟩ := bind_eq_ok.1 hrest
    cases heq
    exact ⟨⟨sent, hinvoke⟩, hstage⟩
  · rintro ⟨⟨sent, hinvoke⟩, hstage⟩
    have hnext : h.server.next P H (.receive e msg stack clk now) =
        .ok (h'.server, (h.server.parse P e msg clk).2.1 ++ sent) :=
      bind_eq_ok.2 ⟨invocation, hreceived, bind_eq_ok.2 ⟨_, hinvoke, rfl⟩⟩
    rw [step_of hnext, ← hstage]

/-! ## The handlers -/

variable {senderId : UInt16} {package : RPCPackage}

/-- A join request keeps to the handshake, if and only if it activates no session but the sender's
that sent none. -/
theorem kept_joinRequest_iff (hinv : h.Requested)
    (hreceived : h.server.received P e msg stack clk =
      .ok (some (.cpp .joinRequest senderId package))) :
    h.Kept P H (.receive e msg stack clk now) ↔
      h.RequestInOrder (h.server.parse P e msg clk).1 e senderId := by
  obtain ⟨_, hread⟩ := received_cpp hreceived
  obtain ⟨s', sent, hhandle, hcalm, _⟩ :=
    handleJoinRequest_spec (h.server.parse P e msg clk).1 now senderId hread
  constructor
  · rintro ⟨hrequested, _⟩ e' c hc hid hne
    obtain ⟨c', hc', hact⟩ := handleJoinRequest_active hhandle hc hid
    have hstep : h.step P H (.receive e msg stack clk now) =
        some ⟨s', h.record P H (.receive e msg stack clk now)⟩ :=
      (step_receive hreceived).2 ⟨⟨sent, hhandle⟩, rfl⟩
    have hne' : h.record P H (.receive e msg stack clk now) e' ≠ .connected :=
      hrequested _ hstep e' c' hc' hact
    rwa [record_of_ne hne] at hne'
  · intro H'
    refine ⟨fun h' hstep e' c' hc' hact => ?_, ?_⟩
    · obtain ⟨⟨_, hinvoke⟩, hstage⟩ := (step_receive hreceived).1 hstep
      obtain ⟨rfl, rfl⟩ := Prod.mk.inj (Except.ok.inj (hhandle.symm.trans hinvoke))
      obtain ⟨c1, hc1, _, hact1⟩ := hcalm e' c' hc'
      rw [activate_find?] at hc1
      obtain ⟨c, hc, rfl⟩ := Option.map_eq_some_iff.1 hc1
      rw [hstage]
      by_cases heq : e' = e
      · subst heq
        rw [record_self hreceived]
        exact JoinStage.request_ne_connected
      by_cases hid : c.clientId = senderId.toUInt64
      · rw [record_of_ne heq]
        exact H' e' c hc hid heq
      · rw [if_neg hid] at hact1
        exact record_ne_connected hinv hc (hact1.symm.trans hact)
    · intro e' he'
      rw [fullStateTo, hreceived] at he'
      cases he'

/-- The stages an accepting join acknowledgement leaves acknowledged. -/
theorem record_eq_acknowledged {accepted : Nat} {p : RPCPackage}
    (hreceived : h.server.received P e msg stack clk =
      .ok (some (.cpp .joinAcknowledge senderId package)))
    (hpop : package.popValue 1 = .ok (accepted, p)) (haccepted : accepted ≠ 0) :
    h.record P H (.receive e msg stack clk now) e' = .acknowledged ↔
      if e' = e then h.connect e = .answered ∨ h.connect e = .acknowledged
      else h.stage e' = .acknowledged := by
  split
  · next heq =>
    subst heq
    rw [record_self hreceived]
    simp only [JoinStage.hear, hpop, if_pos haccepted, JoinStage.acknowledge_eq_acknowledged]
  · next hne => rw [record_of_ne hne]

theorem lastWith_of_findClient {s : NetworkServer ε σ} {c : ClientSession ε}
    (hfound : s.findClient senderId = some (e, c)) : LastWith s senderId e := by
  obtain ⟨hc, hlast⟩ := findClient_eq_some.1 hfound
  exact ⟨⟨c, hc⟩, hlast⟩

/-- A join acknowledgement keeps to the handshake, if and only if the full world state goes to none
but a session that acknowledged. -/
theorem kept_joinAcknowledge_iff (hinv : h.Requested)
    (hreceived : h.server.received P e msg stack clk =
      .ok (some (.cpp .joinAcknowledge senderId package))) :
    h.Kept P H (.receive e msg stack clk now) ↔
      h.AcknowledgeInOrder H (h.server.parse P e msg clk).1 e senderId package := by
  have hto : fullStateTo P H h.server (.receive e msg stack clk now) =
      sentTo P H h.server e msg clk now (some (.cpp .joinAcknowledge senderId package)) := by
    rw [fullStateTo, hreceived]
  constructor
  · rintro ⟨_, hacknowledged⟩ accepted p m updatedObjects e' hpop haccepted hm hserialize
      ⟨⟨c, hc⟩, hlast⟩
    obtain ⟨s', sent, hhandle, hsent⟩ := handleJoinAcknowledge_of hpop haccepted
      (findClient_eq_some.2 ⟨hc, hlast⟩) hm hserialize
    have hmem : e' ∈ fullStateTo P H h.server (.receive e msg stack clk now) := by
      simp only [hto, sentTo, invoke, hhandle, hsent, List.mem_singleton]
    exact (record_eq_acknowledged hreceived hpop haccepted).1 (hacknowledged e' hmem)
  · intro H'
    refine ⟨fun h' hstep => ?_, fun e' he' => ?_⟩
    · obtain ⟨⟨sent, hinvoke⟩, hstage⟩ := (step_receive hreceived).1 hstep
      obtain ⟨accepted, p, e', c, hpop, hfound,
        ⟨haccepted, _, ⟨m, updatedObjects, hm, hserialize⟩, conn, hclients⟩ | ⟨_, _, hcalm⟩⟩ :=
        handleJoinAcknowledge_cases hinvoke
      · have hdone := H' accepted p m updatedObjects e' hpop haccepted hm hserialize
          (lastWith_of_findClient hfound)
        intro e1 c1 hc1 hact
        rw [hclients, OrdMap.find?_insert] at hc1
        rw [hstage]
        split at hc1
        · next heq =>
          rw [heq, (record_eq_acknowledged hreceived hpop haccepted).2 hdone]
          decide
        · exact record_ne_connected hinv hc1 hact
      · exact requested_of_calm hinv hstage hcalm
    · simp only [hto, sentTo, invoke] at he'
      split at he'
      · next s' sent hhandle =>
        obtain ⟨accepted, p, e1, c, hpop, hfound,
          ⟨haccepted, hsent, ⟨m, updatedObjects, hm, hserialize⟩, _⟩ | ⟨_, hnone, _⟩⟩ :=
          handleJoinAcknowledge_cases hhandle
        · rw [hsent, List.mem_singleton] at he'
          subst he'
          exact (record_eq_acknowledged hreceived hpop haccepted).2 (H' accepted p m updatedObjects
            e' hpop haccepted hm hserialize (lastWith_of_findClient hfound))
        · rw [hnone] at he'
          cases he'
      · cases he'

end

/-! ## Runs -/

/-- A step keeps to the handshake, if and only if what it receives comes in order. -/
theorem kept_step_iff (hinv : h.Requested) (i : Input ε σ) : h.Kept P H i ↔ h.InOrder P H i := by
  cases i with
  | receive e msg stack clk now =>
    cases hreceived : h.server.received P e msg stack clk with
    | error err =>
      have hstep : h.step P H (.receive e msg stack clk now) = none := by
        simp only [step, NetworkServer.step, next, handleReceive, hreceived, bind, Except.bind]
        rfl
      simp [Kept, InOrder, hstep, hreceived, fullStateTo]
    | ok invocation =>
      have hidle : (∀ clk', (h.server.parse P e msg clk).1.invoke H clk' invocation =
            .ok ((h.server.parse P e msg clk).1, [])) →
          ∀ h', h.step P H (.receive e msg stack clk now) = some h' → h'.Requested := by
        intro hinvoke h' hstep
        obtain ⟨⟨sent, hinvoke'⟩, hstage⟩ := (step_receive hreceived).1 hstep
        obtain ⟨hserver, _⟩ := Prod.mk.inj (Except.ok.inj ((hinvoke now).symm.trans hinvoke'))
        exact requested_of_calm hinv hstage (hserver ▸ .refl)
      rcases invocation with _ | ⟨function, object, senderId, args⟩ | ⟨_ | _, senderId, package⟩
      · simp only [Kept, InOrder, hreceived, fullStateTo]
        exact ⟨fun _ => trivial, fun _ => ⟨hidle fun _ => rfl, fun _ hsent => by cases hsent⟩⟩
      · simp only [Kept, InOrder, hreceived, fullStateTo]
        exact ⟨fun _ => trivial, fun _ => ⟨hidle fun _ => rfl, fun _ hsent => by cases hsent⟩⟩
      · rw [kept_joinRequest_iff hinv hreceived, InOrder, hreceived]
      · rw [kept_joinAcknowledge_iff hinv hreceived, InOrder, hreceived]
  | _ =>
    refine ⟨fun _ => trivial, fun _ => ⟨fun h' hstep e c' hc' hact => ?_, fun _ hsent => by
      cases hsent⟩⟩
    obtain ⟨hserver, hstage⟩ := step_eq_some hstep
    have hcalm := calm_of_not_receive (fun _ _ _ _ _ heq => by cases heq) hserver
    obtain ⟨c, hc, _, hact'⟩ := hcalm e c' hc'
    rw [hstage]
    exact hinv e c hc (hact'.symm.trans hact)

/-- **Join handshake safety** holds along a run, if and only if the join requests and
acknowledgements of the run come in order. -/
theorem kept_iff (m : Option (ObjectManager σ)) (is : List (Input ε σ)) :
    Along (step P H) (Kept P H) { server := registerNetworkSystem m } is ↔
      Along (step P H) (InOrder P H) { server := registerNetworkSystem m } is :=
  Along.iff_of_invariant Requested (fun _ _ h' _ hkept hstep => hkept.1 h' hstep)
    (fun _ i hinv => kept_step_iff hinv i) (fun _ _ hc => nomatch hc)

/-- An accepting join acknowledgement is the first that the server hears of a client. -/
theorem fullStateSent_unasked :
    ¬ Along (step .x86 testModule.host) (Kept .x86 testModule.host)
      { server := registerNetworkSystem (some ObjectManager.emptyWorld) }
      [callDatagram 0 rpcIdJoinServerAck [.u8 1]] := by
  intro H
  have hstage := H.1.2 0 (by decide)
  revert hstage
  decide

end Handshake

end NetSiege
