import NetSiege.Network.CallOrigins
import NetSiege.Network.ClientIds
import NetSiege.Network.WorldFeed

/-!
# The sessions over a run (`networkserver.cpp`)

The server counts the sessions it makes. As long as the count fits into 16 bits, a client id stands
for one session (`numbered_next`), the messages of the handshake are taken for the session they come
from (`Numbered.findClient`), and what other endpoints send leaves a session alone (`Serves.next`).
-/

namespace NetSiege

open Lib ObjectManager UdpConnection

namespace NetworkServer

variable {ε σ V : Type} [LinearOrder ε] {P : Platform} {H : ScriptHost σ V}
  {s s' : NetworkServer ε σ} {e : ε} {r : NetworkServer ε σ × Outgoing ε}

/-- The sessions have the endpoints they are kept under, and client ids of their own that were
counted. -/
structure Numbered (s : NetworkServer ε σ) : Prop where
  endpoint : ∀ e c, s.clients.find? e = some c → c.remoteEndpoint = e
  below : ∀ e c, s.clients.find? e = some c → c.clientId < s.nextClientId
  unique : ∀ e e' c c', s.clients.find? e = some c → s.clients.find? e' = some c' →
    c.clientId = c'.clientId → e = e'

/-- No session was made, and those that are left have their ids and endpoints. -/
structure Retains (s s' : NetworkServer ε σ) : Prop where
  nextClientId : s'.nextClientId = s.nextClientId
  session : ∀ e c', s'.clients.find? e = some c' → ∃ c, s.clients.find? e = some c ∧
    c'.clientId = c.clientId ∧ c'.remoteEndpoint = c.remoteEndpoint

theorem numbered_registerNetworkSystem (m : Option (ObjectManager σ)) :
    (registerNetworkSystem m : NetworkServer ε σ).Numbered where
  endpoint _ _ h := nomatch h
  below _ _ h := nomatch h
  unique _ _ _ _ h := nomatch h

theorem Numbered.retains (h : s.Numbered) (hr : s.Retains s') : s'.Numbered where
  endpoint e c' hc' := by
    obtain ⟨c, hc, _, hendpoint⟩ := hr.session e c' hc'
    exact hendpoint.trans (h.endpoint e c hc)
  below e c' hc' := by
    obtain ⟨c, hc, hid, _⟩ := hr.session e c' hc'
    rw [hid, hr.nextClientId]
    exact h.below e c hc
  unique e e' c1 c2 hc1 hc2 heq := by
    obtain ⟨c, hc, hid, _⟩ := hr.session e c1 hc1
    obtain ⟨c', hc', hid', _⟩ := hr.session e' c2 hc2
    exact h.unique e e' c c' hc hc' (hid.symm.trans (heq.trans hid'))

/-- A new session gets the next id. -/
theorem Numbered.connect (h : s.Numbered) (hfew : s.nextClientId < 65536) (e : ε) :
    (s.connect e).1.Numbered := by
  unfold NetworkServer.connect
  split
  · exact h
  have hnext : s.nextClientId < s.nextClientId + 1 := by
    rw [UInt64.lt_iff_toNat_lt] at hfew ⊢
    rw [UInt64.toNat_add]
    simp at hfew ⊢
    omega
  refine ⟨fun e' c' hc' => ?_, fun e' c' hc' => ?_, fun e1 e2 c1 c2 hc1 hc2 heq => ?_⟩
  · rw [OrdMap.find?_insert] at hc'
    split at hc'
    · next heq =>
      cases hc'
      exact heq.symm
    · exact h.endpoint e' c' hc'
  · rw [OrdMap.find?_insert] at hc'
    split at hc'
    · cases hc'
      exact hnext
    · exact UInt64.lt_trans (h.below e' c' hc') hnext
  · rw [OrdMap.find?_insert] at hc1 hc2
    split at hc1
    · next heq1 =>
      cases hc1
      split at hc2
      · next heq2 => exact heq1.trans heq2.symm
      · exact absurd heq.symm (UInt64.ne_of_lt (h.below e2 c2 hc2))
    · split at hc2
      · cases hc2
        exact absurd heq (UInt64.ne_of_lt (h.below e1 c1 hc1))
      · exact h.unique e1 e2 c1 c2 hc1 hc2 heq

/-! ## Steps that make no session -/

theorem retains_of_clients (hclients : s'.clients = s.clients)
    (hnext : s'.nextClientId = s.nextClientId) : s.Retains s' :=
  ⟨hnext, fun _ c hc => ⟨c, hclients ▸ hc, rfl, rfl⟩⟩

theorem Retains.trans {s'' : NetworkServer ε σ} (h : s.Retains s') (h' : s'.Retains s'') :
    s.Retains s'' where
  nextClientId := h'.nextClientId.trans h.nextClientId
  session e c'' hc'' := by
    obtain ⟨c', hc', hid', hendpoint'⟩ := h'.session e c'' hc''
    obtain ⟨c, hc, hid, hendpoint⟩ := h.session e c' hc'
    exact ⟨c, hc, hid'.trans hid, hendpoint'.trans hendpoint⟩

theorem retains_mapVal {f : ε → ClientSession ε → ClientSession ε}
    (hf : ∀ e c, (f e c).clientId = c.clientId ∧ (f e c).remoteEndpoint = c.remoteEndpoint) :
    s.Retains { s with clients := s.clients.mapVal f } := by
  refine ⟨rfl, fun e c' hc' => ?_⟩
  rw [OrdMap.find?_mapVal] at hc'
  obtain ⟨c, hc, rfl⟩ := Option.map_eq_some_iff.1 hc'
  exact ⟨c, hc, hf e c⟩

theorem retains_insert {c c' : ClientSession ε} (hc : s.clients.find? e = some c)
    (hid : c'.clientId = c.clientId) (hendpoint : c'.remoteEndpoint = c.remoteEndpoint) :
    s.Retains { s with clients := s.clients.insert e c' } := by
  refine ⟨rfl, fun e1 c1 hc1 => ?_⟩
  rw [OrdMap.find?_insert] at hc1
  split at hc1
  · next heq =>
    cases hc1
    exact ⟨c, heq ▸ hc, hid, hendpoint⟩
  · exact ⟨c1, hc1, rfl, rfl⟩

theorem retains_erase (e : ε) : s.Retains { s with clients := s.clients.erase e } := by
  refine ⟨rfl, fun e' c' hc' => ?_⟩
  rw [OrdMap.find?_erase] at hc'
  split at hc'
  · cases hc'
  · exact ⟨c', hc', rfl, rfl⟩

theorem Retains.closeDeadConnections (h : s.Retains s') (now : Time) (closed : List ε) :
    s.Retains (s'.closeDeadConnections now closed) :=
  ⟨h.nextClientId, fun e c hc => h.session e c (find?_of_closeDeadConnections hc)⟩

theorem retains_remoteProcedureCall {now : ε → Time} {clientId : UInt16} {package : RPCPackage}
    (h : s.remoteProcedureCall now clientId package = .ok r) : s.Retains r.1 := by
  obtain ⟨_, _, heq⟩ := bind_eq_ok.1 h
  cases heq
  refine retains_mapVal fun e c => ?_
  split <;> exact ⟨rfl, rfl⟩

theorem retains_handleJoinRequest {now : ε → Time} {clientId : UInt16} {package : RPCPackage}
    (h : s.handleJoinRequest now clientId package = .ok r) : s.Retains r.1 := by
  obtain ⟨_, _, h⟩ := bind_eq_ok.1 h
  obtain ⟨_, _, h⟩ := bind_eq_ok.1 h
  obtain ⟨_, _, h⟩ := bind_eq_ok.1 h
  obtain ⟨r1, hcall, h⟩ := bind_eq_ok.1 h
  dsimp only at h
  split at h
  · cases h
  cases h
  have hactivate : s.Retains (s.activate clientId) := retains_mapVal fun e c => by
    split <;> exact ⟨rfl, rfl⟩
  exact hactivate.trans (retains_remoteProcedureCall hcall)

theorem retains_handleJoinAcknowledge {clientId : UInt16} {package : RPCPackage}
    (h : s.handleJoinAcknowledge H clientId package = .ok r) : s.Retains r.1 := by
  obtain ⟨_, _, h⟩ := bind_eq_ok.1 h
  dsimp only at h
  split at h
  · cases h
  next found c hfound =>
  split at h
  · split at h
    · cases h
    obtain ⟨_, _, heq⟩ := bind_eq_ok.1 h
    cases heq
    exact retains_insert (findClient_eq_some.1 hfound).1.1 rfl rfl
  · cases h
    exact retains_erase _

theorem retains_parse (s : NetworkServer ε σ) (e : ε) (msg : Message Unit) (clk : SteadyClock) :
    (s.connect e).1.Retains (s.parse P e msg clk).1 :=
  retains_insert (connect_find? s e).1 rfl
    (parsePackage_endpoint P clk _ msg (s.connect e).2.clientId.toUInt16)

theorem retains_invoke {now : ε → Time} {invocation : Option (Invocation ServerCallback)}
    (h : s.invoke H now invocation = .ok r) : s.Retains r.1 := by
  unfold invoke at h
  split at h
  · exact retains_handleJoinRequest h
  · exact retains_handleJoinAcknowledge h
  · cases h
    exact retains_of_clients rfl rfl

theorem retains_handleReceive {msg : Message Unit} {stack : RpcData} {clk : SteadyClock}
    {now : ε → Time} (h : s.handleReceive P H e msg stack clk now = .ok r) :
    (s.connect e).1.Retains r.1 := by
  obtain ⟨invocation, _, h⟩ := bind_eq_ok.1 h
  obtain ⟨r1, hinvoke, heq⟩ := bind_eq_ok.1 h
  cases heq
  have hinvoked : (s.parse P e msg clk).1.Retains r1.1 := retains_invoke hinvoke
  exact (retains_parse s e msg clk).trans hinvoked

theorem retains_sync {now : Time} {closed : List ε} (h : s.sync H now closed = .ok r) :
    s.Retains r.1 := by
  unfold sync at h
  split at h
  · cases h
  next m _ =>
  dsimp only at h
  split at h
  · cases h
    have hflushed : s.Retains { s with objectManager := some m.flushUpdateCache } :=
      retains_of_clients rfl rfl
    exact hflushed.closeDeadConnections now closed
  · obtain ⟨update, _, heq⟩ := bind_eq_ok.1 h
    cases heq
    have hsent : s.Retains { s with
        clients := s.clients.mapVal fun _ client =>
          if client.isActive then
            { client with
              toUdpConnection :=
                (client.sendPackage ({ body := some update } : Message WorldStateUpdate)).1 }
          else client
        objectManager := some m.flushUpdateCache } := by
      refine ⟨rfl, (retains_mapVal fun e c => ?_).session⟩
      split <;> exact ⟨rfl, rfl⟩
    exact hsent.closeDeadConnections now closed

/-- The server once the sender of what arrives has a session. -/
def met (s : NetworkServer ε σ) : Input ε σ → NetworkServer ε σ
  | .receive e .. => (s.connect e).1
  | _ => s

/-- In every step, but for the session of a sender that is new. -/
theorem retains_next {i : Input ε σ} (h : s.next P H i = .ok r) : (s.met i).Retains r.1 := by
  cases i with
  | receive e msg stack clk now => exact retains_handleReceive h
  | sync now closed => exact retains_sync h
  | addRpcHandlerFunc M clientId id funcname =>
    obtain ⟨_, _, heq⟩ := bind_eq_ok.1 h
    cases heq
    exact retains_of_clients rfl rfl
  | addRpcHandlerMethod M clientId id object funcname argspec =>
    cases h
    exact retains_of_clients rfl rfl
  | registerRpc M id name argspec =>
    obtain ⟨_, _, heq⟩ := bind_eq_ok.1 h
    cases heq
    exact retains_of_clients rfl rfl
  | call clientId name slots now =>
    obtain ⟨⟨package, d⟩, _, hcall⟩ := bind_eq_ok.1 h
    have hd : s.Retains { s with toRPCDispatcher := d } := retains_of_clients rfl rfl
    exact hd.trans (retains_remoteProcedureCall hcall)
  | world op =>
    simp only [next] at h
    split at h
    · cases h
    · cases h
      exact retains_of_clients rfl rfl

theorem Numbered.met (hs : s.Numbered) (hfew : s.nextClientId < 65536) (i : Input ε σ) :
    (s.met i).Numbered := by
  cases i with
  | receive e => exact hs.connect hfew e
  | _ => exact hs

/-- In every step, while the ids fit. -/
theorem numbered_next {i : Input ε σ} (hs : s.Numbered) (hfew : s.nextClientId < 65536)
    (h : s.next P H i = .ok r) : r.1.Numbered :=
  (hs.met hfew i).retains (retains_next h)

/-! ## Whose message it is -/

/-- The session with the client id is found. -/
theorem Numbered.findClient (hs : s.Numbered) (hfew : s.nextClientId ≤ 65536)
    {c : ClientSession ε} (hc : s.clients.find? e = some c) :
    s.findClient c.clientId.toUInt16 = some (e, c) := by
  have hid : c.clientId = c.clientId.toUInt16.toUInt64 :=
    eq_toUInt64_iff.2 (UInt64.lt_of_lt_of_le (hs.below e c hc) hfew)
  refine findClient_eq_some.2 ⟨⟨hc, hid⟩, fun e' c' hc' heq => ?_⟩
  exact le_of_eq (hs.unique e' e c' c hc' hc (heq.trans hid.symm))

theorem nextClientId_connect_le {n : UInt64} (hfew : s.nextClientId < n) (e : ε) :
    (s.connect e).1.nextClientId ≤ n := by
  unfold connect
  split
  · exact UInt64.le_of_lt hfew
  · rw [UInt64.lt_iff_toNat_lt] at hfew
    rw [UInt64.le_iff_toNat_le, UInt64.toNat_add]
    have hbound := n.toNat_lt
    simp only [UInt64.toNat_one]
    omega

/-- The session a datagram comes from is the one found by the client id the handlers get. -/
theorem Numbered.findClient_parse (hs : s.Numbered) (hfew : s.nextClientId < 65536) (e : ε)
    (msg : Message Unit) (clk : SteadyClock) :
    ∃ c, (s.parse P e msg clk).1.clients.find? e = some c ∧ c.remoteEndpoint = e ∧
      (s.parse P e msg clk).1.findClient (s.connect e).2.clientId.toUInt16 = some (e, c) := by
  have hparse := (hs.connect hfew e).retains (retains_parse (P := P) s e msg clk)
  obtain ⟨⟨conn, hself⟩, _⟩ := parse_find? (P := P) s e msg clk
  exact ⟨_, hself, hparse.endpoint e _ hself,
    hparse.findClient (nextClientId_connect_le hfew e) hself⟩

/-- A join acknowledgement of another endpoint is taken for the session there. -/
theorem Numbered.acknowledgesOther (hs : s.Numbered) (hfew : s.nextClientId < 65536) {e' : ε}
    (hne : e' ≠ e) (msg : Message Unit) (stack : RpcData) (clk : SteadyClock) (now : ε → Time) :
    s.AcknowledgesOther P e (.receive e' msg stack clk now) := by
  intro senderId package hreceived found c hfound
  obtain ⟨rfl, _⟩ := received_cpp hreceived
  obtain ⟨c', _, hendpoint, hown⟩ := hs.findClient_parse (P := P) hfew e' msg clk
  cases hfound.symm.trans hown
  exact ⟨hne, hendpoint ▸ hne⟩

/-- What happens is no datagram from the endpoint, and does not close its session. -/
def Input.Spares (e : ε) : Input ε σ → Prop
  | .receive e' .. => e' ≠ e
  | .sync _ closed => e ∉ closed
  | _ => True

/-- What others do leaves a session active. -/
theorem Serves.next {i : Input ε σ} (h : Serves s e) (hs : s.Numbered)
    (hfew : s.nextClientId < 65536) (hi : i.Spares e) (hnext : s.next P H i = .ok r) :
    Serves r.1 e := by
  cases i with
  | receive e' msg stack clk now =>
    have hother := hs.acknowledgesOther (P := P) hfew hi msg stack clk now
    exact (quiet_handleReceive hnext hother).serves h
  | sync now closed =>
    simp only [NetworkServer.next, sync] at hnext
    split at hnext
    · cases hnext
    split at hnext
    · cases hnext
      exact Serves.closeDeadConnections h now hi
    · obtain ⟨update, _, heq⟩ := bind_eq_ok.1 hnext
      cases heq
      obtain ⟨c, hc, hact⟩ := h
      refine Serves.closeDeadConnections ⟨_, (OrdMap.find?_mapVal ..).trans (by rw [hc]; rfl), ?_⟩
        now hi
      simp only [hact, if_true]
  | addRpcHandlerFunc M clientId id funcname =>
    obtain ⟨_, _, heq⟩ := bind_eq_ok.1 hnext
    cases heq
    exact h
  | addRpcHandlerMethod M clientId id object funcname argspec =>
    cases hnext
    exact h
  | registerRpc M id name argspec =>
    obtain ⟨_, _, heq⟩ := bind_eq_ok.1 hnext
    cases heq
    exact h
  | call clientId name slots now =>
    obtain ⟨⟨package, d⟩, _, hcall⟩ := bind_eq_ok.1 hnext
    exact (quiet_remoteProcedureCall hcall).serves h
  | world op =>
    simp only [NetworkServer.next] at hnext
    split at hnext
    · cases hnext
    · cases hnext
      exact h

end NetworkServer

end NetSiege
