import NetSiege.Network.ScriptCalls
import NetSiege.Network.Traffic

/-!
# A game is made of links

What is proved of the two ends of a link holds of a server's session and its client, for each of the
clients a server has: in every run of a game that does not close the session of a client, the
client, the session and the packages sent between them are those of a run of a link
(`linked_of_run`), whatever the other clients do. The calls of scripts are in the books of that
link, one entry for each (`script_calls_accounted`).
-/

namespace NetSiege

open Lib ObjectManager UdpConnection

@[simp] theorem Message.mapBody_id {β : Type} (msg : Message β) : msg.mapBody id = msg := by
  simp [mapBody]

theorem filterMap_rpc_mapBody {β β' : Type} (f : β → β') (sent : List (Message β)) :
    (sent.map (·.mapBody f)).filterMap (·.rpc) = sent.filterMap (·.rpc) := by
  rw [List.filterMap_map]
  rfl

/-- The books have an entry of its own for each of the calls, in the order they were made. -/
def Entered (calls : List ScriptCall) (issued : List IssuedCall) : Prop :=
  ∃ entries, entries.Sublist issued ∧
    List.Forall₂ (fun call entry => call.CarriedBy entry.rpc) calls entries

theorem entered_nil (issued : List IssuedCall) : Entered [] issued :=
  ⟨[], List.nil_sublist _, .nil⟩

theorem entered_of_rpc {call : ScriptCall} {asked : List IssuedCall} {rpc : RPC}
    (hrpc : asked.map IssuedCall.rpc = [rpc]) (h : call.CarriedBy rpc) : Entered [call] asked := by
  obtain ⟨entry, rfl, rfl⟩ := List.map_eq_singleton_iff.1 hrpc
  exact ⟨[entry], .refl _, .cons h .nil⟩

theorem Entered.append {calls calls' : List ScriptCall} {issued issued' : List IssuedCall}
    (h : Entered calls issued) (h' : Entered calls' issued') :
    Entered (calls ++ calls') (issued ++ issued') := by
  obtain ⟨entries, hsub, hcarried⟩ := h
  obtain ⟨entries', hsub', hcarried'⟩ := h'
  exact ⟨entries ++ entries', hsub.append hsub', List.rel_append hcarried hcarried'⟩

namespace Game

variable {ε σ V : Type} [LinearOrder ε]

/-- The packages a client sent to the server. -/
def sentBy (g : Game ε σ) (e : ε) : List (Message Unit) :=
  (g.toServer.filter fun p => p.1 = e).map (·.2)

/-- The link stands for what is between the server and the client at the endpoint. Clients send
nothing but calls, so that the other content of their packages is immaterial. -/
structure Mirrors (b : Books WorldStateUpdate) (g : Game ε σ) (e : ε) : Prop where
  client : (b.link .client).conn = (g.clients e).toUdpConnection.toward .server
  server : (b.link .server).conn = (g.server.connectionTo e).toward .client
  byClient : (b.link .client).sent = (g.sentBy e).map (·.mapBody fun _ => {})
  byServer : (b.link .server).sent = Outgoing.to g.toClients e

/-- What scripts called for the client, and what its own script called, is in the books. -/
structure Recorded (b : Books WorldStateUpdate) (g : Game ε σ) (e : ε) : Prop where
  atServer : Entered (g.calledAt e) (b.issued .server)
  byClient : Entered (g.calledBy e) (b.issued .client)

section
variable (P : Platform) (H : ScriptHost σ V) (alloc : Allocator σ) (serverEndpoint e : ε)

/-- What the server does in a step. -/
def serverInput (g : Game ε σ) : Input ε σ → Option (NetworkServer.Input ε σ)
  | .server i => some i
  | .atServer k stack clk now => g.toServer[k]?.map fun p => .receive p.1 p.2 stack clk now
  | _ => none

/-- The step does not close the session of the client. -/
def Keeps (g : Game ε σ) (i : Input ε σ) : Prop :=
  ∀ j ∈ g.serverInput i, ∀ r, g.server.next P H j = .ok r → g.server.Keeps e j r.1

end

variable {P : Platform} {H : ScriptHost σ V} {alloc : Allocator σ} {serverEndpoint e : ε}
  {g g' : Game ε σ} {b : Books WorldStateUpdate} {clientId : UInt16}

theorem mem_sentBy {msg : Message Unit} : msg ∈ g.sentBy e ↔ (e, msg) ∈ g.toServer := by
  simp [sentBy]

theorem mirrors_start (m : Option (ObjectManager σ)) (serverEndpoint : ε) (names : ε → List UInt8)
    (e : ε) (clientId : UInt16) :
    Mirrors (.opened clientId) (start m serverEndpoint names) e where
  client := rfl
  server := rfl
  byClient := rfl
  byServer := rfl

/-- What a script of the server calls is entered for the clients it goes to. -/
theorem entered_server {i : NetworkServer.Input ε σ} {r : NetworkServer ε σ × Outgoing ε}
    (hnext : g.server.next P H i = .ok r) {asked : List IssuedCall}
    (hasked : i.arrivalFrom e = none →
      asked.map IssuedCall.rpc = (r.2.to e).filterMap (·.rpc)) :
    Entered (if r.2.any (·.1 = e) then (g.server.scriptCall i).toList else []) asked := by
  split
  · next hany =>
    cases hcall : g.server.scriptCall i with
    | none => exact entered_nil _
    | some call =>
      obtain ⟨harrival, hnone | ⟨rpc, hrpc, hcarried⟩⟩ :=
        NetworkServer.sent_scriptCall hnext hcall e
      · obtain ⟨p, hp, heq⟩ := List.any_eq_true.1 hany
        cases of_decide_eq_true heq
        have hmem : p.2 ∈ r.2.to p.1 := Outgoing.mem_to.2 hp
        rw [hnone] at hmem
        cases hmem
      · exact entered_of_rpc ((hasked harrival).trans hrpc) hcarried
  · exact entered_nil _

/-- What the server does. -/
theorem Mirrors.afterServer (h : Mirrors b g e) {i : NetworkServer.Input ε σ}
    {r : NetworkServer ε σ × Outgoing ε} (hnext : g.server.next P H i = .ok r)
    (hkeeps : g.server.Keeps e i r.1) (hsent : ∀ a ∈ i.arrivalFrom e, a.1 ∈ g.sentBy e)
    (hrecorded : Recorded b g e) :
    ∃ js b', run (Books.step P) b js = some b' ∧ Mirrors b' (g.afterServer i r) e ∧
      Recorded b' (g.afterServer i r) e := by
  have htraffic := (NetworkServer.traffic_next hnext hkeeps).map Side.client id
    fun _ => ({} : WorldStateUpdate)
  rw [← h.server, List.map_id'' Message.mapBody_id] at htraffic
  obtain ⟨js, b', asked, hrun, hmoved, hasked⟩ :=
    Books.run_traffic (t := .server) htraffic fun a ha => by
      obtain ⟨a, harrived, rfl⟩ := Option.map_eq_some_iff.1 ha
      exact h.byClient ▸ List.mem_map_of_mem (hsent a harrived)
  have hpeer : b'.link .client = b.link .client := hmoved.peer
  have hissued : b'.issued .client = b.issued .client := hmoved.issuedPeer
  refine ⟨js, b', hrun, ⟨hpeer ▸ h.client, hmoved.conn, hpeer ▸ h.byClient, ?_⟩, ?_,
    hissued ▸ hrecorded.byClient⟩
  · rw [hmoved.sent, h.byServer]
    exact (Outgoing.to_append ..).symm
  · rw [hmoved.issued]
    exact hrecorded.atServer.append (entered_server hnext fun hnone =>
      hasked (by rw [hnone, Option.map_none]))

theorem clients_afterClient {e' : ε} {i : ClientProcess.Input ε σ}
    {r : ClientProcess ε σ × List (Message Unit)} :
    (g.afterClient serverEndpoint e' i r).clients e = if e = e' then r.1 else g.clients e := by
  simp only [Game.afterClient, Function.update_apply]

theorem sentBy_afterClient {e' : ε} {i : ClientProcess.Input ε σ}
    {r : ClientProcess ε σ × List (Message Unit)}
    (hendpoint : r.1.remoteEndpoint = serverEndpoint) :
    (g.afterClient serverEndpoint e' i r).sentBy e =
      g.sentBy e ++ if e' = e then r.2 else [] := by
  simp only [sentBy, Game.afterClient, if_pos hendpoint, List.filter_append, List.map_append,
    List.filter_map, List.map_map]
  split
  · next heq => simp [Function.comp_def, heq]
  · next hne => simp [Function.comp_def, hne]

theorem calledBy_afterClient {e' : ε} {i : ClientProcess.Input ε σ}
    {r : ClientProcess ε σ × List (Message Unit)} :
    (g.afterClient serverEndpoint e' i r).calledBy e =
      g.calledBy e ++ if e = e' then ((g.clients e').scriptCall i).toList else [] := by
  simp only [Game.afterClient, Function.update_apply]
  split
  · next heq => rw [heq]
  · rw [List.append_nil]

/-- What a script of the client calls is entered. -/
theorem entered_client {i : ClientProcess.Input ε σ} {r : ClientProcess ε σ × List (Message Unit)}
    (hnext : (g.clients e).next P H alloc i = .ok r) {asked : List IssuedCall}
    (hasked : i.arrival = none → asked.map IssuedCall.rpc = r.2.filterMap (·.rpc)) :
    Entered ((g.clients e).scriptCall i).toList asked := by
  cases hcall : (g.clients e).scriptCall i with
  | none => exact entered_nil _
  | some call =>
    obtain ⟨harrival, rpc, hrpc, hcarried⟩ := ClientProcess.sent_scriptCall hnext hcall
    exact entered_of_rpc ((hasked harrival).trans hrpc) hcarried

/-- What a client does. -/
theorem Mirrors.afterClient (h : Mirrors b g e) {e' : ε} {i : ClientProcess.Input ε σ}
    {r : ClientProcess ε σ × List (Message Unit)}
    (hnext : (g.clients e').next P H alloc i = .ok r)
    (hendpoint : r.1.remoteEndpoint = serverEndpoint)
    (hsent : ∀ a ∈ i.arrival, (e', a.1) ∈ g.toClients) (hrecorded : Recorded b g e) :
    ∃ js b', run (Books.step P) b js = some b' ∧
      Mirrors b' (g.afterClient serverEndpoint e' i r) e ∧
      Recorded b' (g.afterClient serverEndpoint e' i r) e := by
  obtain rfl | hne := eq_or_ne e' e
  · have htraffic := (ClientProcess.traffic_next hnext).map Side.server
      (fun _ => ({} : WorldStateUpdate)) id
    rw [toward_toward, ← h.client] at htraffic
    obtain ⟨js, b', asked, hrun, hmoved, hasked⟩ :=
      Books.run_traffic (t := .client) htraffic fun a ha => by
        obtain ⟨a, harrived, rfl⟩ := Option.map_eq_some_iff.1 ha
        rw [Message.mapBody_id]
        exact h.byServer ▸ Outgoing.mem_to.2 (hsent a harrived)
    have hpeer : b'.link .server = b.link .server := hmoved.peer
    have hissued : b'.issued .server = b.issued .server := hmoved.issuedPeer
    refine ⟨js, b', hrun, ⟨?_, hpeer ▸ h.server, ?_, hpeer ▸ h.byServer⟩,
      hissued ▸ hrecorded.atServer, ?_⟩
    · rw [hmoved.conn, clients_afterClient, if_pos rfl]
    · rw [hmoved.sent, h.byClient, sentBy_afterClient hendpoint, if_pos rfl, List.map_append]
    · rw [hmoved.issued, calledBy_afterClient, if_pos rfl]
      refine hrecorded.byClient.append (entered_client hnext fun hnone => ?_)
      rw [← filterMap_rpc_mapBody (fun _ => ({} : WorldStateUpdate)), hasked]
      rw [hnone, Option.map_none]
  · refine ⟨[], b, rfl, ⟨?_, h.server, ?_, h.byServer⟩, hrecorded.atServer, ?_⟩
    · rw [h.client, clients_afterClient, if_neg hne.symm]
    · rw [h.byClient, sentBy_afterClient hendpoint, if_neg hne, List.append_nil]
    · rw [calledBy_afterClient, if_neg hne.symm, List.append_nil]
      exact hrecorded.byClient

/-- The clients talk to the server, and a run of a link, with the calls of scripts in its books,
stands for what is between the server and the client at the endpoint. -/
structure Linked (P : Platform) (clientId : UInt16) (serverEndpoint e : ε) (g : Game ε σ) :
    Prop where
  endpoint : ∀ e, (g.clients e).remoteEndpoint = serverEndpoint
  link : ∃ js b, run (Books.step P) (Books.opened clientId) js = some b ∧ Mirrors b g e ∧
    Recorded b g e

theorem Linked.afterServer (h : g.Linked P clientId serverEndpoint e)
    {i : NetworkServer.Input ε σ} {r : NetworkServer ε σ × Outgoing ε}
    (hnext : g.server.next P H i = .ok r) (hkeeps : g.server.Keeps e i r.1)
    (hsent : ∀ a ∈ i.arrivalFrom e, a.1 ∈ g.sentBy e) :
    (g.afterServer i r).Linked P clientId serverEndpoint e := by
  obtain ⟨js, b, hrun, hmirrors, hrecorded⟩ := h.link
  obtain ⟨js', b', hrun', hmirrors'⟩ := hmirrors.afterServer hnext hkeeps hsent hrecorded
  exact ⟨h.endpoint, js ++ js', b', by rw [run_append, hrun, Option.bind_some, hrun'], hmirrors'⟩

theorem Linked.afterClient (h : g.Linked P clientId serverEndpoint e) {e' : ε}
    {i : ClientProcess.Input ε σ} {r : ClientProcess ε σ × List (Message Unit)}
    (hnext : (g.clients e').next P H alloc i = .ok r)
    (hsender : i.sender.getD serverEndpoint = serverEndpoint)
    (hsent : ∀ a ∈ i.arrival, (e', a.1) ∈ g.toClients) :
    (g.afterClient serverEndpoint e' i r).Linked P clientId serverEndpoint e := by
  have hendpoint : r.1.remoteEndpoint = serverEndpoint := by
    rw [ClientProcess.next_endpoint hnext, h.endpoint, hsender]
  obtain ⟨js, b, hrun, hmirrors, hrecorded⟩ := h.link
  obtain ⟨js', b', hrun', hmirrors'⟩ := hmirrors.afterClient hnext hendpoint hsent hrecorded
  refine ⟨fun e1 => ?_, js ++ js', b', by rw [run_append, hrun, Option.bind_some, hrun'],
    hmirrors'⟩
  rw [clients_afterClient]
  split
  · exact hendpoint
  · exact h.endpoint e1

theorem Linked.step (h : g.Linked P clientId serverEndpoint e) {i : Input ε σ}
    (hkeeps : g.Keeps P H e i) (hstep : g.step P H alloc serverEndpoint i = some g') :
    g'.Linked P clientId serverEndpoint e := by
  cases i with
  | server i =>
    obtain ⟨hno, hstep⟩ := Option.ite_none_left_eq_some.1 hstep
    obtain ⟨r, hnext, rfl⟩ := toOption_map_eq_some.1 hstep
    refine h.afterServer hnext (hkeeps i rfl r hnext) fun a ha => ?_
    cases i with
    | receive => exact absurd rfl hno
    | _ => cases ha
  | client e' i =>
    obtain ⟨hno, hstep⟩ := Option.ite_none_left_eq_some.1 hstep
    obtain ⟨r, hnext, rfl⟩ := toOption_map_eq_some.1 hstep
    cases i with
    | receive => exact absurd rfl hno
    | _ => exact h.afterClient hnext rfl fun a ha => by cases ha
  | atServer k stack clk now =>
    obtain ⟨⟨e', msg⟩, hp, hstep⟩ := Option.bind_eq_some_iff.1 hstep
    obtain ⟨r, hnext, rfl⟩ := toOption_map_eq_some.1 hstep
    refine h.afterServer hnext (hkeeps _ (by rw [serverInput, hp]; rfl) r hnext) fun a ha => ?_
    simp only [NetworkServer.Input.arrivalFrom, Option.mem_def] at ha
    split at ha
    · next heq =>
      cases ha
      exact mem_sentBy.2 (heq ▸ List.mem_of_getElem? hp)
    · cases ha
  | atClient k stack clk now =>
    obtain ⟨⟨e', msg⟩, hp, hstep⟩ := Option.bind_eq_some_iff.1 hstep
    obtain ⟨r, hnext, rfl⟩ := toOption_map_eq_some.1 hstep
    refine h.afterClient hnext rfl fun a ha => ?_
    cases ha
    exact List.mem_of_getElem? hp

theorem linked_start (m : Option (ObjectManager σ)) (serverEndpoint : ε) (names : ε → List UInt8)
    (e : ε) : (start m serverEndpoint names).Linked P clientId serverEndpoint e where
  endpoint _ := rfl
  link := ⟨[], _, rfl, mirrors_start m serverEndpoint names e clientId, entered_nil _,
    entered_nil _⟩

/-- Every run, in which the session was not closed, is linked. -/
theorem linked_run {m : Option (ObjectManager σ)} {names : ε → List UInt8} {is : List (Input ε σ)}
    (hrun : run (step P H alloc serverEndpoint) (start m serverEndpoint names) is = some g)
    (hkeeps : Along (step P H alloc serverEndpoint) (Keeps P H e) (start m serverEndpoint names)
      is) : g.Linked P clientId serverEndpoint e :=
  hkeeps.invariant (Linked P clientId serverEndpoint e)
    (fun _ _ _ h hkeeps hstep => h.step hkeeps hstep) (linked_start m serverEndpoint names e) hrun

/-- **A game is made of links.** After every run of a server with any number of clients, whatever
the network did, in which the session of a client was not closed: the client, the connection of its
session and the packages either sent to the other are the two ends of a run of a link, and their
books are right. -/
theorem linked_of_run {m : Option (ObjectManager σ)} {names : ε → List UInt8}
    {is : List (Input ε σ)}
    (hrun : run (step P H alloc serverEndpoint) (start m serverEndpoint names) is = some g)
    (hkeeps : Along (step P H alloc serverEndpoint) (Keeps P H e) (start m serverEndpoint names)
      is) :
    ∃ js b, run (Books.step P) (Books.opened clientId) js = some b ∧ b.Sound ∧ Mirrors b g e := by
  obtain ⟨js, b, hlink, hmirrors, _⟩ := (linked_run hrun hkeeps).link
  exact ⟨js, b, hlink, Books.sound_of_run hlink, hmirrors⟩

/-- Two clients ask to join, and the server gets the later request first. -/
def bothAsk : List (Input Nat testModule.Object) :=
  [.client 1 (.sendJoinRequest 0), .client 2 (.sendJoinRequest 0),
    .atServer 1 .zero (.still 0) fun _ => 0, .atServer 0 .zero (.still 0) fun _ => 0]

/-- The link of the client at 1, whose answer is the second. -/
theorem linked_of_run_both : ∃ g, run (step .x86 testModule.host nextFree 0)
      (start none 0 fun _ => [110]) bothAsk = some g ∧ g.toClients.map (·.1) = [2, 1] ∧
    ∃ js b, run (Books.step .x86) (Books.opened 0) js = some b ∧ b.Sound ∧ Mirrors b g 1 := by
  have hkeeps : Along (step .x86 testModule.host nextFree 0) (Keeps .x86 testModule.host 1)
      (start none 0 fun _ => [110]) bothAsk := by
    refine ⟨nofun, ?_⟩
    rintro _ ⟨⟩
    refine ⟨nofun, ?_⟩
    rintro _ ⟨⟩
    refine ⟨?_, ?_⟩
    · rintro _ ⟨⟩ _ ⟨⟩ hthere
      exact hthere.elim id id
    rintro _ ⟨⟩
    refine ⟨?_, fun _ _ => trivial⟩
    rintro _ ⟨⟩ _ ⟨⟩ _
    rfl
  have hrun : run (step .x86 testModule.host nextFree 0) (start none 0 fun _ => [110]) bothAsk =
    some _ := rfl
  exact ⟨_, hrun, rfl, linked_of_run hrun hkeeps⟩

/-- **What scripts call is accounted for.** After every such run, the books of the link have an
entry of its own for each call a script of the server made for the client and for each its own
script made, in the order they were made, and every entry waits once in the memory of its
connection or was given up once, after it was acknowledged. -/
theorem script_calls_accounted {m : Option (ObjectManager σ)} {names : ε → List UInt8}
    {is : List (Input ε σ)}
    (hrun : run (step P H alloc serverEndpoint) (start m serverEndpoint names) is = some g)
    (hkeeps : Along (step P H alloc serverEndpoint) (Keeps P H e) (start m serverEndpoint names)
      is) :
    ∃ js b, run (Books.step P) (Books.opened clientId) js = some b ∧ Mirrors b g e ∧
      Entered (g.calledAt e) (b.issued .server) ∧ Entered (g.calledBy e) (b.issued .client) ∧
      (b.givenUp .server ++ (g.server.connectionTo e).rpcMemory.map RpcInfo.issued).Perm
        (b.issued .server) ∧
      (b.givenUp .client ++ (g.clients e).rpcMemory.map RpcInfo.issued).Perm
        (b.issued .client) := by
  obtain ⟨js, b, hlink, hmirrors, hrecorded⟩ := (linked_run hrun hkeeps).link
  have hledger := (Books.sound_of_run hlink).ledger
  have hserver := (hledger .server).calls
  have hclient := (hledger .client).calls
  rw [hmirrors.server] at hserver
  rw [hmirrors.client] at hclient
  exact ⟨js, b, hlink, hmirrors, hrecorded.atServer, hrecorded.byClient, hserver, hclient⟩

/-- The call of the server's script is in the books of the client at 1. -/
theorem script_calls_accounted_say : ∃ g, run (step .x86 testModule.host nextFree 0)
      (start none 0 fun _ => [110]) sayOnce = some g ∧ (g.calledAt 1).length = 1 ∧
    ∃ js b, run (Books.step .x86) (Books.opened 0) js = some b ∧ Mirrors b g 1 ∧
      Entered (g.calledAt 1) (b.issued .server) ∧ Entered (g.calledBy 1) (b.issued .client) ∧
      (b.givenUp .server ++ (g.server.connectionTo 1).rpcMemory.map RpcInfo.issued).Perm
        (b.issued .server) ∧
      (b.givenUp .client ++ (g.clients 1).rpcMemory.map RpcInfo.issued).Perm
        (b.issued .client) := by
  have hkeeps : Along (step .x86 testModule.host nextFree 0) (Keeps .x86 testModule.host 1)
      (start none 0 fun _ => [110]) sayOnce := by
    refine ⟨nofun, ?_⟩
    rintro _ ⟨⟩
    refine ⟨?_, ?_⟩
    · rintro _ ⟨⟩ _ ⟨⟩ _
      rfl
    rintro _ ⟨⟩
    refine ⟨?_, ?_⟩
    · rintro _ ⟨⟩ _ ⟨⟩ _
      rfl
    rintro _ ⟨⟩
    refine ⟨nofun, ?_⟩
    rintro _ ⟨⟩
    refine ⟨nofun, ?_⟩
    rintro _ ⟨⟩
    refine ⟨?_, fun _ _ => trivial⟩
    rintro _ ⟨⟩ _ ⟨⟩ _
    rfl
  have hrun : run (step .x86 testModule.host nextFree 0) (start none 0 fun _ => [110]) sayOnce =
    some _ := rfl
  exact ⟨_, hrun, rfl, script_calls_accounted hrun hkeeps⟩

end Game

end NetSiege
