import NetSiege.Network.SessionIds
import NetSiege.Network.Traffic

/-!
# What clients do to each other (`networkserver.cpp`)

The server takes the datagrams of all its clients into one world and one table of handlers. What one
client sends is nothing to another: if the datagrams of all others are left out of a run, the server
sends the client the same packages, and its session, the handlers and the world end up the same
(`unaffected_of_run`). There is one exception, a join request of the session with the id 0: its
response goes to all active sessions.
-/

namespace NetSiege

open Lib ObjectManager UdpConnection

section
variable {p q : RPCPackage} {bs : List UInt8} {letters : List Char}

/-- A package built by pushes knows what it holds, whether or not all of them fitted. -/
theorem RPCPackage.Filled.pushArgs (h : p.Filled bs letters) {argSpec : List Char}
    {slots : List Arg} (hpush : pushArgs p argSpec slots = .ok q) :
    ∃ bs letters, q.Filled bs letters := by
  induction argSpec generalizing p bs letters slots with
  | nil =>
    cases hpush
    exact ⟨bs, letters, h⟩
  | cons c argSpec ih =>
    obtain ⟨arg, _, hpush⟩ := bind_eq_ok.1 hpush
    obtain ⟨⟨b, p'⟩, hp', hpush⟩ := bind_eq_ok.1 hpush
    obtain hfits | hfull := le_or_gt (bs.length + arg.encode.length) maxRpcDataSize
    · obtain ⟨p1, hp1, hfill, _⟩ := h.push arg hfits
      cases hp1.symm.trans hp'
      exact ih hfill hpush
    · obtain ⟨p1, hcached, hfill, hsize, _⟩ := h.ensureSizeCached
      rw [← hfill.size] at hfull
      cases (push_of_not_fits hcached hfull).symm.trans hp'
      have hfill' : RPCPackage.Filled { p1 with validPackage := false } bs letters :=
        ⟨hfill.size, hfill.bytes, hfill.argString, .inl hsize⟩
      exact ih hfill' hpush

/-- The size of a call that a script makes is always known. -/
theorem RPCDispatcher.dataSize_of_buildCall {γ : Type} {d d' : RPCDispatcher γ} {name : String}
    {slots : List Arg} (h : d.buildCall name slots = .ok (p, d')) : ∃ n, p.dataSize = .ok n := by
  obtain ⟨p', hpush, h⟩ := bind_eq_ok.1 h
  dsimp only at h
  split at h
  · cases h
  cases h
  obtain ⟨bs, letters, hfill⟩ := (RPCPackage.filled_make _).pushArgs hpush
  exact ⟨bs.length, hfill.dataSize⟩

end

namespace NetworkServer

variable {ε σ V : Type} [LinearOrder ε] {P : Platform} {H : ScriptHost σ V}
  {s s' t t' : NetworkServer ε σ} {e e' : ε} {r : NetworkServer ε σ × Outgoing ε}

/-- Two servers are the same to a client at an endpoint. -/
structure SameTo (e : ε) (s t : NetworkServer ε σ) : Prop where
  toRPCDispatcher : t.toRPCDispatcher = s.toRPCDispatcher
  objectManager : t.objectManager = s.objectManager
  session : t.clients.find? e = s.clients.find? e

/-- What another server does is the same to a client, as far as the first one comes through. -/
def DoesSame (e : ε) (x y : Except Trap (NetworkServer ε σ × Outgoing ε)) : Prop :=
  ∀ r, x = .ok r → ∃ r', y = .ok r' ∧ SameTo e r.1 r'.1 ∧ r'.2.to e = r.2.to e

/-- What a server did is nothing to a client. -/
structure Unseen (e : ε) (s : NetworkServer ε σ) (r : NetworkServer ε σ × Outgoing ε) : Prop
    extends SameTo e s r.1 where
  sent : r.2.to e = []

/-- The check of one session leaves those of all other endpoints. -/
theorem closeDeadConnections_find?_of_ne (s : NetworkServer ε σ) (hne : e' ≠ e) (now : Time) :
    (s.closeDeadConnections now [e']).clients.find? e = s.clients.find? e := by
  simp only [closeDeadConnections, List.foldl_cons, List.foldl_nil]
  split
  · split
    · rw [OrdMap.find?_erase, if_neg hne.symm]
    · rfl
  · rfl

namespace SameTo

theorem refl (e : ε) (s : NetworkServer ε σ) : SameTo e s s := ⟨rfl, rfl, rfl⟩

theorem symm (h : SameTo e s t) : SameTo e t s :=
  ⟨h.toRPCDispatcher.symm, h.objectManager.symm, h.session.symm⟩

theorem trans (h : SameTo e s s') (h' : SameTo e s' t) : SameTo e s t :=
  ⟨h'.toRPCDispatcher.trans h.toRPCDispatcher, h'.objectManager.trans h.objectManager,
    h'.session.trans h.session⟩

/-! ## The same input to both -/

theorem mapVal (h : SameTo e s t) (f : ε → ClientSession ε → ClientSession ε) :
    SameTo e { s with clients := s.clients.mapVal f }
      { t with clients := t.clients.mapVal f } :=
  ⟨h.toRPCDispatcher, h.objectManager, by
    rw [OrdMap.find?_mapVal, OrdMap.find?_mapVal, h.session]⟩

theorem mapVal_flushed (h : SameTo e s t) (f : ε → ClientSession ε → ClientSession ε)
    (m : Option (ObjectManager σ)) :
    SameTo e { s with clients := s.clients.mapVal f, objectManager := m }
      { t with clients := t.clients.mapVal f, objectManager := m } :=
  ⟨h.toRPCDispatcher, rfl, (h.mapVal f).session⟩

theorem insert (h : SameTo e s t) (e' : ε) (c : ClientSession ε) :
    SameTo e { s with clients := s.clients.insert e' c }
      { t with clients := t.clients.insert e' c } :=
  ⟨h.toRPCDispatcher, h.objectManager, by
    rw [OrdMap.find?_insert, OrdMap.find?_insert, h.session]⟩

theorem erase (h : SameTo e s t) (e' : ε) :
    SameTo e { s with clients := s.clients.erase e' } { t with clients := t.clients.erase e' } :=
  ⟨h.toRPCDispatcher, h.objectManager, by
    rw [OrdMap.find?_erase, OrdMap.find?_erase, h.session]⟩

theorem closeDeadConnections (h : SameTo e s t) (now : Time) (closed : List ε) :
    SameTo e (s.closeDeadConnections now closed) (t.closeDeadConnections now closed) := by
  refine ⟨h.toRPCDispatcher, h.objectManager, ?_⟩
  have hsession := h.session
  simp only [NetworkServer.closeDeadConnections]
  generalize s.clients = clients at hsession ⊢
  generalize t.clients = clients' at hsession ⊢
  induction closed generalizing clients clients' with
  | nil => exact hsession
  | cons e' closed ih =>
    rw [List.foldl_cons, List.foldl_cons]
    refine ih _ _ ?_
    -- only the closing of the session itself matters
    obtain rfl | hne := eq_or_ne e' e
    · rw [hsession]
      split
      · split
        · rw [OrdMap.find?_erase, OrdMap.find?_erase]
          simp
        · assumption
      · assumption
    · have hkept := closeDeadConnections_find?_of_ne { s with clients } hne now
      have hkept' := closeDeadConnections_find?_of_ne { t with clients := clients' } hne now
      exact hkept'.trans (hsession.trans hkept.symm)

end SameTo

/-- What a call does to one session. -/
theorem remoteProcedureCall_session {now : ε → Time} {clientId : UInt16} {package : RPCPackage}
    {n : Nat} (hsize : package.dataSize = .ok n)
    (h : s.remoteProcedureCall now clientId package = .ok r) (e : ε) :
    let call (c : ClientSession ε) : UdpConnection ε × Message WorldStateUpdate :=
      c.remoteProcedureCall package.rpcId package.data n (now e)
    r.1.clients.find? e = (s.clients.find? e).map (fun c =>
        if c.isAddressed clientId then { c with toUdpConnection := (call c).1 } else c) ∧
      r.2.to e =
        (((s.clients.find? e).filter (·.isAddressed clientId)).map fun c => (call c).2).toList := by
  obtain ⟨n', hn', heq⟩ := bind_eq_ok.1 h
  cases heq
  dsimp only at hn' ⊢
  have hsame : ∀ c, s.clients.find? e = some c → c.isAddressed clientId = true → n' = n := by
    intro c hc haddressed
    have hmem : (e, c) ∈ s.clients.entries.filter fun kv => kv.2.isAddressed clientId :=
      List.mem_filter.2 ⟨OrdMap.mem_entries.2 hc, haddressed⟩
    rw [List.isEmpty_eq_false_iff.2 (List.ne_nil_of_mem hmem)] at hn'
    exact Except.ok.inj (hn'.symm.trans hsize)
  rw [Outgoing.to_map_entries s.clients (·.isAddressed clientId), OrdMap.find?_mapVal]
  cases hc : s.clients.find? e with
  | none => exact ⟨rfl, rfl⟩
  | some c =>
    cases haddressed : c.isAddressed clientId with
    | false => simp [haddressed, Option.filter]
    | true =>
      cases hsame c hc haddressed
      simp [haddressed, Option.filter]

theorem remoteProcedureCall_rest {now : ε → Time} {clientId : UInt16} {package : RPCPackage}
    (h : s.remoteProcedureCall now clientId package = .ok r) :
    r.1.toRPCDispatcher = s.toRPCDispatcher ∧ r.1.objectManager = s.objectManager := by
  obtain ⟨_, _, heq⟩ := bind_eq_ok.1 h
  cases heq
  exact ⟨rfl, rfl⟩

namespace SameTo

theorem remoteProcedureCall (h : SameTo e s t) (now : ε → Time) (clientId : UInt16)
    {package : RPCPackage} {n : Nat} (hsize : package.dataSize = .ok n) :
    DoesSame e (s.remoteProcedureCall now clientId package)
      (t.remoteProcedureCall now clientId package) := by
  intro r hr
  obtain ⟨r', hr'⟩ := remoteProcedureCall_of t now clientId hsize
  obtain ⟨hsession, hsent⟩ := remoteProcedureCall_session hsize hr e
  obtain ⟨hsession', hsent'⟩ := remoteProcedureCall_session hsize hr' e
  obtain ⟨hdispatcher, hmanager⟩ := remoteProcedureCall_rest hr
  obtain ⟨hdispatcher', hmanager'⟩ := remoteProcedureCall_rest hr'
  refine ⟨r', hr', ⟨?_, ?_, ?_⟩, ?_⟩
  · rw [hdispatcher', hdispatcher, h.toRPCDispatcher]
  · rw [hmanager', hmanager, h.objectManager]
  · rw [hsession', hsession, h.session]
  · rw [hsent', hsent, h.session]

theorem handleJoinRequest (h : SameTo e s t) (now : ε → Time) (clientId : UInt16)
    (package : RPCPackage) :
    DoesSame e (s.handleJoinRequest now clientId package)
      (t.handleJoinRequest now clientId package) := by
  intro r hr
  obtain ⟨version, hversion, hr⟩ := bind_eq_ok.1 hr
  obtain ⟨name, hname, hr⟩ := bind_eq_ok.1 hr
  obtain ⟨response, hresponse, hr⟩ := bind_eq_ok.1 hr
  obtain ⟨r1, hcall, hr⟩ := bind_eq_ok.1 hr
  obtain ⟨p, bs, hp, hfill⟩ := joinResponse_filled clientId
  cases hp.symm.trans hresponse
  have hactive : SameTo e (s.activate clientId) (t.activate clientId) := h.mapVal _
  obtain ⟨r1', hcall', hsame, hsent⟩ :=
    hactive.remoteProcedureCall now clientId hfill.dataSize r1 hcall
  simp only [hfill.argString, ne_eq, not_true_eq_false, if_false] at hr
  cases hr
  refine ⟨r1', ?_, hsame, hsent⟩
  refine bind_eq_ok.2 ⟨version, hversion, bind_eq_ok.2 ⟨name, hname, bind_eq_ok.2 ⟨response,
    hresponse, bind_eq_ok.2 ⟨r1', hcall', ?_⟩⟩⟩⟩
  simp only [hfill.argString, ne_eq, not_true_eq_false, if_false]

/-- A join acknowledgement that is taken for the same session by both. -/
theorem handleJoinAcknowledge (h : SameTo e s t) (clientId : UInt16) (package : RPCPackage)
    (hfound : t.findClient clientId = s.findClient clientId) :
    DoesSame e (s.handleJoinAcknowledge H clientId package)
      (t.handleJoinAcknowledge H clientId package) := by
  intro r hr
  obtain ⟨⟨accepted, p⟩, hpop, hr⟩ := bind_eq_ok.1 hr
  dsimp only at hr
  split at hr
  · cases hr
  next found c heq =>
  have hfound' := hfound.trans heq
  split at hr
  · next haccepted =>
    split at hr
    · cases hr
    next m hm =>
    obtain ⟨updatedObjects, hserialize, heq⟩ := bind_eq_ok.1 hr
    cases heq
    refine ⟨(_, _), ?_, h.insert found _, rfl⟩
    simp only [NetworkServer.handleJoinAcknowledge, hpop, hfound', h.objectManager.trans hm,
      hserialize, bind, Except.bind, if_pos haccepted]
  · next hrefused =>
    cases hr
    refine ⟨(_, _), ?_, h.erase _, rfl⟩
    simp only [NetworkServer.handleJoinAcknowledge, hpop, hfound', bind, Except.bind,
      if_neg hrefused]

theorem invoke (h : SameTo e s t) (now : ε → Time)
    (invocation : Option (Invocation ServerCallback))
    (hfound : ∀ senderId package, invocation = some (.cpp .joinAcknowledge senderId package) →
      t.findClient senderId = s.findClient senderId) :
    DoesSame e (s.invoke H now invocation) (t.invoke H now invocation) := by
  unfold NetworkServer.invoke
  split
  · next senderId package => exact h.handleJoinRequest now senderId package
  · next senderId package =>
    exact h.handleJoinAcknowledge senderId package (hfound senderId package rfl)
  · intro r hr
    cases hr
    exact ⟨(t, []), rfl, h, rfl⟩

/-- Both parse a package from the client in the same way. -/
theorem parse (h : SameTo e s t) {c : ClientSession ε} (hc : s.clients.find? e = some c)
    (msg : Message Unit) (clk : SteadyClock) :
    SameTo e (s.parse P e msg clk).1 (t.parse P e msg clk).1 ∧
      (t.parse P e msg clk).2 = (s.parse P e msg clk).2 := by
  simp only [NetworkServer.parse, connect, hc, h.session.trans hc]
  exact ⟨h.insert e _, trivial⟩

theorem received (h : SameTo e s t) {c : ClientSession ε} (hc : s.clients.find? e = some c)
    (msg : Message Unit) (stack : RpcData) (clk : SteadyClock) :
    t.received P e msg stack clk = s.received P e msg stack clk := by
  obtain ⟨hsame, hcall⟩ := h.parse (P := P) hc msg clk
  simp only [NetworkServer.received, hcall, hsame.toRPCDispatcher]

/-- A datagram from the client, if client ids stand for sessions. -/
theorem handleReceive (h : SameTo e s t) {c : ClientSession ε} (hc : s.clients.find? e = some c)
    (hs : s.Numbered) (ht : t.Numbered) (hsfew : s.nextClientId < 65536)
    (htfew : t.nextClientId < 65536) (msg : Message Unit) (stack : RpcData) (clk : SteadyClock)
    (now : ε → Time) :
    DoesSame e (s.handleReceive P H e msg stack clk now)
      (t.handleReceive P H e msg stack clk now) := by
  intro r hr
  obtain ⟨invocation, hreceived, hr⟩ := bind_eq_ok.1 hr
  obtain ⟨r1, hinvoke, heq⟩ := bind_eq_ok.1 hr
  obtain rfl : r = (r1.1, (s.parse P e msg clk).2.1 ++ r1.2) := (Except.ok.inj heq).symm
  obtain ⟨hparse, hsent⟩ := h.parse (P := P) hc msg clk
  have hfound : ∀ senderId package, invocation = some (.cpp .joinAcknowledge senderId package) →
      (t.parse P e msg clk).1.findClient senderId =
        (s.parse P e msg clk).1.findClient senderId := by
    rintro senderId package rfl
    obtain ⟨hid, _⟩ := received_cpp hreceived
    obtain ⟨hid', _⟩ := received_cpp ((h.received hc msg stack clk).trans hreceived)
    obtain ⟨c1, hc1, _, hfind⟩ := hs.findClient_parse (P := P) hsfew e msg clk
    obtain ⟨c1', hc1', _, hfind'⟩ := ht.findClient_parse (P := P) htfew e msg clk
    cases (hc1'.symm.trans hparse.session).trans hc1
    rw [hid', hfind', ← hid', hid, hfind]
  obtain ⟨r1', hinvoke', hsame, hto⟩ := hparse.invoke now invocation hfound r1 hinvoke
  refine ⟨(r1'.1, (t.parse P e msg clk).2.1 ++ r1'.2), ?_, hsame, ?_⟩
  · refine bind_eq_ok.2 ⟨invocation, (h.received hc msg stack clk).trans hreceived, ?_⟩
    exact bind_eq_ok.2 ⟨r1', hinvoke', rfl⟩
  · rw [Outgoing.to_append, Outgoing.to_append, hsent, hto]

/-- A `sync`, of servers that have sessions. -/
theorem sync (h : SameTo e s t) {c : ClientSession ε} (hc : s.clients.find? e = some c)
    (now : Time) (closed : List ε) :
    DoesSame e (s.sync H now closed) (t.sync H now closed) := by
  have hnonempty {s : NetworkServer ε σ} (hc : s.clients.find? e = some c) :
      s.clients.entries.isEmpty = false :=
    List.isEmpty_eq_false_iff.2 (List.ne_nil_of_mem (OrdMap.mem_entries.2 hc))
  intro r hr
  cases hm : s.objectManager with
  | none =>
    simp only [NetworkServer.sync, hm] at hr
    cases hr
  | some m =>
    simp only [NetworkServer.sync, hm, hnonempty hc, Bool.false_eq_true, if_false] at hr
    obtain ⟨update, hupdate, heq⟩ := bind_eq_ok.1 hr
    cases heq
    simp only [NetworkServer.sync, h.objectManager.trans hm, hnonempty (h.session.trans hc),
      Bool.false_eq_true, if_false, hupdate, bind, Except.bind]
    refine ⟨_, rfl, (h.mapVal_flushed _ _).closeDeadConnections now closed, ?_⟩
    rw [Outgoing.to_map_entries t.clients (·.isActive) fun kv => (kv.2.sendPackage _).2,
      Outgoing.to_map_entries s.clients (·.isActive) fun kv => (kv.2.sendPackage _).2, h.session]

end SameTo

/-! ## A datagram of another client -/

/-- What arrives is no datagram of another endpoint. -/
def Input.concerns (e : ε) : Input ε σ → Bool
  | .receive e' .. => e' = e
  | _ => true

/-- What arrives is a join request that is answered to all active sessions. -/
def RequestsForAll (P : Platform) (s : NetworkServer ε σ) : Input ε σ → Prop
  | .receive e msg stack clk _ =>
    ∃ package, s.received P e msg stack clk = .ok (some (.cpp .joinRequest 0 package))
  | _ => False

theorem Unseen.trans (h : Unseen e s (s', [])) (h' : Unseen e s' r) : Unseen e s r :=
  ⟨h.toSameTo.trans h'.toSameTo, h'.sent⟩

theorem unseen_remoteProcedureCall {now : ε → Time} {clientId : UInt16} {package : RPCPackage}
    {n : Nat} (hsize : package.dataSize = .ok n)
    (h : s.remoteProcedureCall now clientId package = .ok r)
    (hother : ∀ c, s.clients.find? e = some c → c.isAddressed clientId = false) :
    Unseen e s r := by
  obtain ⟨hsession, hsent⟩ := remoteProcedureCall_session hsize h e
  obtain ⟨hdispatcher, hmanager⟩ := remoteProcedureCall_rest h
  refine ⟨⟨hdispatcher, hmanager, ?_⟩, ?_⟩
  · rw [hsession]
    cases hc : s.clients.find? e with
    | none => rfl
    | some c => simp [hother c hc]
  · rw [hsent]
    cases hc : s.clients.find? e with
    | none => rfl
    | some c => simp [hother c hc, Option.filter]

/-- A join request of a session with another client id that is not 0. -/
theorem unseen_handleJoinRequest {now : ε → Time} {clientId : UInt16} {package : RPCPackage}
    (h : s.handleJoinRequest now clientId package = .ok r) (hzero : clientId ≠ 0)
    (hother : ∀ c, s.clients.find? e = some c → c.clientId ≠ clientId.toUInt64) :
    Unseen e s r := by
  obtain ⟨_, _, h⟩ := bind_eq_ok.1 h
  obtain ⟨_, _, h⟩ := bind_eq_ok.1 h
  obtain ⟨response, hresponse, h⟩ := bind_eq_ok.1 h
  obtain ⟨r1, hcall, h⟩ := bind_eq_ok.1 h
  obtain ⟨p, bs, hp, hfill⟩ := joinResponse_filled clientId
  cases hp.symm.trans hresponse
  simp only [hfill.argString, ne_eq, not_true_eq_false, if_false] at h
  cases h
  have hactive : (s.activate clientId).clients.find? e = s.clients.find? e := by
    rw [activate_find?]
    cases hc : s.clients.find? e with
    | none => rfl
    | some c => rw [Option.map_some, if_neg (hother c hc)]
  have hbefore : Unseen e s (s.activate clientId, []) := ⟨⟨rfl, rfl, hactive⟩, rfl⟩
  refine hbefore.trans (unseen_remoteProcedureCall hfill.dataSize hcall fun c hc => ?_)
  have hid := hother c (hactive.symm.trans hc)
  simp [ClientSession.isAddressed, hzero, hid]

/-- A join acknowledgement that is taken for another session. -/
theorem unseen_handleJoinAcknowledge {clientId : UInt16} {package : RPCPackage}
    {c : ClientSession ε} (h : s.handleJoinAcknowledge H clientId package = .ok r)
    (hfound : s.findClient clientId = some (e', c)) (hendpoint : c.remoteEndpoint = e')
    (hne : e' ≠ e) : Unseen e s r := by
  obtain ⟨_, _, h⟩ := bind_eq_ok.1 h
  simp only [hfound, hendpoint] at h
  split at h
  · split at h
    · cases h
    obtain ⟨_, _, heq⟩ := bind_eq_ok.1 h
    cases heq
    exact ⟨⟨rfl, rfl, OrdMap.find?_insert_of_ne hne.symm⟩, by simp [Outgoing.to, hne]⟩
  · cases h
    exact ⟨⟨rfl, rfl, (OrdMap.find?_erase ..).trans (if_neg hne.symm)⟩, rfl⟩

theorem unseen_parse (s : NetworkServer ε σ) (hne : e' ≠ e) (msg : Message Unit)
    (clk : SteadyClock) :
    Unseen e s ((s.parse P e' msg clk).1, (s.parse P e' msg clk).2.1) := by
  have hworld := (quiet_parse (P := P) (e := e) s e' msg clk).objectManager
  have hother := (parse_find? (P := P) s e' msg clk).2 e hne.symm
  refine ⟨⟨?_, hworld, hother⟩, ?_⟩
  · unfold parse connect
    cases s.clients.find? e' <;> rfl
  · simp [parse, Outgoing.to, List.filter_map, hne]

/-- In the states in which client ids stand for sessions. -/
theorem unseen_handleReceive (hs : s.Numbered) (hfew : s.nextClientId < 65536) (hne : e' ≠ e)
    {msg : Message Unit} {stack : RpcData} {clk : SteadyClock} {now : ε → Time}
    (hrequest : ¬ s.RequestsForAll P (.receive e' msg stack clk now))
    (h : s.handleReceive P H e' msg stack clk now = .ok r) : Unseen e s r := by
  obtain ⟨invocation, hreceived, h⟩ := bind_eq_ok.1 h
  obtain ⟨r1, hinvoke, heq⟩ := bind_eq_ok.1 h
  obtain rfl : r = (r1.1, (s.parse P e' msg clk).2.1 ++ r1.2) := (Except.ok.inj heq).symm
  have hparse := unseen_parse (P := P) s hne msg clk
  have hnumbered := (hs.connect hfew e').retains (retains_parse (P := P) s e' msg clk)
  obtain ⟨c', hc', hendpoint, hfound⟩ := hs.findClient_parse (P := P) hfew e' msg clk
  have hinvoked : Unseen e (s.parse P e' msg clk).1 r1 := by
    unfold invoke at hinvoke
    split at hinvoke
    · next senderId package =>
      obtain ⟨rfl, _⟩ := received_cpp hreceived
      have hzero : (s.connect e').2.clientId.toUInt16 ≠ 0 := fun hzero =>
        hrequest ⟨package, by rw [hreceived, hzero]⟩
      refine unseen_handleJoinRequest hinvoke hzero fun c hc hid => hne ?_
      exact hnumbered.unique e' e c' c hc' hc ((findClient_eq_some.1 hfound).1.2.trans hid.symm)
    · next senderId package =>
      obtain ⟨rfl, _⟩ := received_cpp hreceived
      exact unseen_handleJoinAcknowledge hinvoke hfound hendpoint hne
    · cases hinvoke
      exact ⟨.refl e _, rfl⟩
  refine ⟨hparse.toSameTo.trans hinvoked.toSameTo, ?_⟩
  rw [Outgoing.to_append, hparse.sent, hinvoked.sent, List.nil_append]

/-! ## Every step, every run -/

/-- What the server sends a client in a step. -/
def sentTo (P : Platform) (H : ScriptHost σ V) (e : ε) (s : NetworkServer ε σ) (i : Input ε σ) :
    List (Message WorldStateUpdate) :=
  ((s.next P H i).toOption.map (·.2.to e)).getD []

/-- The sessions made so far fit into 16 bits, the client has one, and no other session asks to join
with the id 0. -/
structure Undisturbed (P : Platform) (e : ε) (s : NetworkServer ε σ) (i : Input ε σ) : Prop where
  few : s.nextClientId < 65536
  connected : (s.clients.find? e).isSome
  request : i.concerns e = false → ¬ s.RequestsForAll P i

/-- Two servers are the same to a client, and client ids stand for sessions. -/
structure Alike (e : ε) (s t : NetworkServer ε σ) : Prop extends SameTo e s t where
  numbered : s.Numbered
  numbered' : t.Numbered
  few : t.nextClientId < 65536

/-- What concerns a client is done to it in the same way. -/
theorem SameTo.next (h : Alike e s t) {i : Input ε σ} (hi : s.Undisturbed P e i)
    (hconcerns : i.concerns e = true) : DoesSame e (s.next P H i) (t.next P H i) := by
  obtain ⟨c, hc⟩ := Option.isSome_iff_exists.1 hi.connected
  cases i with
  | receive e' msg stack clk now =>
    cases of_decide_eq_true hconcerns
    exact h.handleReceive hc h.numbered h.numbered' hi.few h.few msg stack clk now
  | sync now closed => exact h.sync hc now closed
  | addRpcHandlerFunc M clientId id funcname =>
    intro r hr
    obtain ⟨⟨_, d⟩, hd, heq⟩ := bind_eq_ok.1 hr
    cases heq
    simp only [NetworkServer.next, h.toRPCDispatcher, hd, bind, Except.bind]
    exact ⟨_, rfl, ⟨rfl, h.objectManager, h.session⟩, rfl⟩
  | addRpcHandlerMethod M clientId id object funcname argspec =>
    intro r hr
    cases hr
    simp only [NetworkServer.next, h.toRPCDispatcher]
    exact ⟨_, rfl, ⟨rfl, h.objectManager, h.session⟩, rfl⟩
  | registerRpc M id name argspec =>
    intro r hr
    obtain ⟨⟨_, d⟩, hd, heq⟩ := bind_eq_ok.1 hr
    cases heq
    simp only [NetworkServer.next, h.toRPCDispatcher, hd, bind, Except.bind]
    exact ⟨_, rfl, ⟨rfl, h.objectManager, h.session⟩, rfl⟩
  | call clientId name slots now =>
    intro r hr
    obtain ⟨⟨package, d⟩, hbuild, hcall⟩ := bind_eq_ok.1 hr
    obtain ⟨n, hsize⟩ := RPCDispatcher.dataSize_of_buildCall hbuild
    have hd : SameTo e { s with toRPCDispatcher := d } { t with toRPCDispatcher := d } :=
      ⟨rfl, h.objectManager, h.session⟩
    obtain ⟨r', hcall', hsame⟩ := hd.remoteProcedureCall now clientId hsize r hcall
    refine ⟨r', bind_eq_ok.2 ⟨(package, d), ?_, hcall'⟩, hsame⟩
    rw [h.toRPCDispatcher, hbuild]
  | world op =>
    intro r hr
    simp only [NetworkServer.next, h.objectManager] at hr ⊢
    split at hr
    · cases hr
    next m hm =>
    cases hr
    exact ⟨_, rfl, ⟨h.toRPCDispatcher, rfl, h.session⟩, rfl⟩

/-- A client that has a session is not counted again. -/
theorem nextClientId_next {i : Input ε σ} (hconnected : (s.clients.find? e).isSome)
    (hconcerns : i.concerns e = true) (h : s.next P H i = .ok r) :
    r.1.nextClientId = s.nextClientId := by
  refine (retains_next h).nextClientId.trans ?_
  cases i with
  | receive e' msg stack clk now =>
    cases of_decide_eq_true hconcerns
    obtain ⟨c, hc⟩ := Option.isSome_iff_exists.1 hconnected
    simp only [met, connect, hc]
  | _ => rfl

theorem Alike.step_of_concerns (s t : NetworkServer ε σ) (i : Input ε σ) (s' : NetworkServer ε σ)
    (h : Alike e s t) (hi : s.Undisturbed P e i) (hconcerns : i.concerns e = true)
    (hstep : step P H s i = some s') :
    ∃ t', step P H t i = some t' ∧ Alike e s' t' ∧ sentTo P H e t i = sentTo P H e s i := by
  obtain ⟨r, hr, rfl⟩ := step_eq_some hstep
  obtain ⟨r', hr', hsame, hsent⟩ := SameTo.next h hi hconcerns r hr
  have hconnected : (t.clients.find? e).isSome := h.session ▸ hi.connected
  refine ⟨r'.1, by rw [step, hr']; rfl, ⟨hsame, numbered_next h.numbered hi.few hr,
    numbered_next h.numbered' h.few hr', ?_⟩, ?_⟩
  · rw [nextClientId_next hconnected hconcerns hr']
    exact h.few
  · rw [sentTo, sentTo, hr, hr']
    exact hsent

theorem Alike.step_of_other (s t : NetworkServer ε σ) (i : Input ε σ) (s' : NetworkServer ε σ)
    (h : Alike e s t) (hi : s.Undisturbed P e i) (hother : i.concerns e = false)
    (hstep : step P H s i = some s') : Alike e s' t ∧ sentTo P H e s i = [] := by
  obtain ⟨r, hr, rfl⟩ := step_eq_some hstep
  cases i with
  | receive e' msg stack clk now =>
    have hunseen := unseen_handleReceive h.numbered hi.few (of_decide_eq_false hother)
      (hi.request hother) hr
    refine ⟨⟨hunseen.symm.trans h.toSameTo, numbered_next h.numbered hi.few hr, h.numbered',
      h.few⟩, ?_⟩
    rw [sentTo, hr]
    exact hunseen.sent
  | _ => cases hother

/-- **What others send is nothing to a client.** Let a server, in a state it came to, go on with
any inputs, while the client has its session, fewer than 2^16 sessions were made and no other one
asks to join with the id 0. If the datagrams of all others are left out, the server comes through as
well, sends the client the same packages in the same order, and ends with the same handlers, the
same world and the same session of the client. -/
theorem unaffected_of_run (m : Option (ObjectManager σ)) {before is : List (Input ε σ)}
    (hfew : Along (step P H) (fun s _ => s.nextClientId < 65536) (registerNetworkSystem m) before)
    (hbefore : run (step P H) (registerNetworkSystem m) before = some s)
    (hundisturbed : Along (step P H) (Undisturbed P e) s is)
    (hrun : run (step P H) s is = some s') :
    ∃ t, run (step P H) s (is.filter (·.concerns e)) = some t ∧ SameTo e s' t ∧
      outputs (step P H) (sentTo P H e) s (is.filter (·.concerns e)) =
        outputs (step P H) (sentTo P H e) s is := by
  have hnumbered : s.Numbered := hfew.invariant Numbered (fun s i s' hs hi hstep => by
    obtain ⟨r, hr, rfl⟩ := step_eq_some hstep
    exact numbered_next hs hi hr) (numbered_registerNetworkSystem m) hbefore
  cases is with
  | nil =>
    cases hrun
    exact ⟨s, rfl, .refl e s, rfl⟩
  | cons i is =>
    have halike : Alike e s s := ⟨.refl e s, hnumbered, hnumbered, hundisturbed.1.few⟩
    obtain ⟨t, ht, halike', hsent⟩ := hundisturbed.unwind (Alike e) (·.concerns e)
      (fun s t i s' => Alike.step_of_concerns s t i s')
      (fun s t i s' => Alike.step_of_other s t i s') halike hrun
    exact ⟨t, ht, halike'.toSameTo, hsent⟩

/-- The server that the clients at 0 and 1 have asked to join. -/
def twoRequested : NetworkServer Nat testModule.Object :=
  (run (step .x86 testModule.host) (registerNetworkSystem (some emptyWorld))
    [joinServerReq 0, joinServerReq 1]).getD {}

/-- One client refuses, another one asks to join: the client at 1 is answered all the same. -/
theorem unaffected_of_run_request :
    ∃ s' t, run (step .x86 testModule.host) twoRequested
        [callDatagram 0 rpcIdJoinServerAck [.u8 0], joinServerReq 2, joinServerReq 1] = some s' ∧
      run (step .x86 testModule.host) twoRequested [joinServerReq 1] = some t ∧
      SameTo 1 s' t := by
  have hbefore : run (step .x86 testModule.host) (registerNetworkSystem (some emptyWorld))
      [joinServerReq 0, joinServerReq 1] = some twoRequested := rfl
  have hfew : Along (step .x86 testModule.host) (fun s _ => s.nextClientId < 65536)
      (registerNetworkSystem (some emptyWorld)) [joinServerReq 0, joinServerReq 1] := by
    refine ⟨by decide, ?_⟩
    rintro _ ⟨⟩
    exact ⟨by decide, fun _ _ => trivial⟩
  have hrun : run (step .x86 testModule.host) twoRequested
      [callDatagram 0 rpcIdJoinServerAck [.u8 0], joinServerReq 2, joinServerReq 1] =
    some _ := rfl
  have hundisturbed : Along (step .x86 testModule.host) (Undisturbed .x86 1) twoRequested
      [callDatagram 0 rpcIdJoinServerAck [.u8 0], joinServerReq 2, joinServerReq 1] := by
    refine ⟨⟨by decide, rfl, ?_⟩, ?_⟩
    · rintro _ ⟨_, ⟨⟩⟩
    rintro _ ⟨⟩
    refine ⟨⟨by decide, rfl, ?_⟩, ?_⟩
    · rintro _ ⟨_, ⟨⟩⟩
    rintro _ ⟨⟩
    exact ⟨⟨by decide, rfl, nofun⟩, fun _ _ => trivial⟩
  obtain ⟨t, ht, hsame, _⟩ := unaffected_of_run _ hfew hbefore hundisturbed hrun
  exact ⟨_, t, hrun, ht, hsame⟩

end NetworkServer

end NetSiege
