import NetSiege.Network.Following
import NetSiege.Network.NetworkClient
import NetSiege.Network.NetworkServer

/-!
# The feed of a client (`networkserver.cpp`, `networkclient.cpp`)

What a client that joined sees of the server's world, over a network that keeps the order of
packages and loses none. The server does what it likes: the world changes, other clients come and
go, calls are made and resent. `Feed` keeps the packages on the way to the client, and what either
end had of the world each time the server told of it. While the server is `Orderly`, the worlds the
client sees are those the server told of, in order, and they level once nothing is on the way
(`follows_after_join`).
-/

namespace NetSiege

open Lib ObjectManager UdpConnection

/-! ## What the client makes of one package -/

namespace NetworkClient

variable {ε σ V : Type} {P : Platform} {H : ScriptHost σ V} {alloc : Allocator σ}
  {execute : ReceivedCall → NetworkClient ε σ →
    Except Trap (NetworkClient ε σ × List (Message Unit))}
  {clk : SteadyClock} {c : NetworkClient ε σ} {msg : Message WorldStateUpdate}
  {r : NetworkClient ε σ × List (Message Unit)} {world world' : ObjectManager σ}

/-- Executing a call leaves the client's world alone. -/
def SparesWorld (execute : ReceivedCall → NetworkClient ε σ →
    Except Trap (NetworkClient ε σ × List (Message Unit))) : Prop :=
  ∀ call c r, execute call c = .ok r → r.1.objectManager = c.objectManager

/-- What a client makes of a package without news. -/
theorem handleReceive_kept (hexecute : SparesWorld execute) (hbody : msg.body = none)
    (h : c.handleReceive P H alloc execute clk msg = .ok r) :
    r.1.objectManager = c.objectManager := by
  simp only [handleReceive] at h
  split at h
  · next call _ =>
    obtain ⟨r1, hcall, heq⟩ := bind_eq_ok.1 h
    cases heq
    have hkept := hexecute call _ r1 hcall
    exact hkept
  · rw [hbody] at h
    cases h
    rfl

variable (P execute clk) in
/-- What a client makes of an update. -/
theorem handleReceive_update {update : WorldStateUpdate} (hrpc : msg.rpc = none)
    (hbody : msg.body = some update) (hworld : c.objectManager = some world)
    (happly : world.applyUpdate H alloc update = .ok world') :
    ∃ r, c.handleReceive P H alloc execute clk msg = .ok r ∧
      r.1.objectManager = some world' ∧ c.updateOf msg = some update := by
  have hcall : (c.parsePackage P clk msg 0 : AckPass ε Unit × _).2 = none := by
    rw [parsePackage, hrpc]
    rfl
  let pass : AckPass ε Unit := (c.parsePackage P clk msg 0).1
  refine ⟨({ toUdpConnection := pass.conn, objectManager := some world' }, pass.sent), ?_, rfl, ?_⟩
  · simp only [handleReceive, hcall, hbody, hworld, happly, bind, Except.bind]
    rfl
  · simp only [updateOf, hrpc, hworld, hbody, Option.isNone_none, Option.isSome_some,
      and_self, if_true]

theorem updateOf_of_body_none (hbody : msg.body = none) : c.updateOf msg = none := by
  simp [updateOf, hbody]

end NetworkClient

variable {ε σ V : Type} [LinearOrder ε]

/-- The packages for an endpoint. -/
def Outgoing.to (sent : Outgoing ε) (e : ε) : List (Message WorldStateUpdate) :=
  (sent.filter fun out => out.1 = e).map (·.2)

/-- What a world shows under each id. -/
abbrev Shown (V : Type) := ObjectId → Option (ObjectView V)

/-- A server, one of its clients and the packages on the way to it. `told` is what the server's
world showed each time it sent an update to the client, `seen` what the client's world showed each
time it had applied one. -/
structure Feed (ε σ V : Type) [LinearOrder ε] where
  server : NetworkServer ε σ
  client : NetworkClient ε σ
  wire : List (Message WorldStateUpdate) := []
  told : List (Shown V) := []
  seen : List (Shown V) := []

/-! ## What the server sends to one client -/

theorem Outgoing.mem_to {sent : Outgoing ε} {e : ε} {msg : Message WorldStateUpdate} :
    msg ∈ sent.to e ↔ (e, msg) ∈ sent := by
  simp [Outgoing.to]

theorem Outgoing.to_append (sent sent' : Outgoing ε) (e : ε) :
    Outgoing.to (sent ++ sent') e = sent.to e ++ sent'.to e := by
  simp [Outgoing.to]

theorem Outgoing.to_singleton (e : ε) (msg : Message WorldStateUpdate) :
    Outgoing.to [(e, msg)] e = [msg] := by
  simp [Outgoing.to]

/-- What goes to all sessions of a kind goes to each of them once. -/
theorem Outgoing.to_map_filter {clients : OrdMap ε (ClientSession ε)} {e : ε} {c : ClientSession ε}
    (hc : clients.find? e = some c) {p : ClientSession ε → Bool} (hp : p c = true)
    (f : ClientSession ε → Message WorldStateUpdate) :
    Outgoing.to ((clients.entries.filter fun kv => p kv.2).map fun kv => (kv.1, f kv.2)) e =
      [f c] := by
  have hone := OrdMap.filter_entries_of_find? hc
  rw [Outgoing.to, List.filter_map, List.map_map, List.filter_filter]
  simp only [Function.comp_apply, Bool.and_comm]
  rw [← List.filter_filter]
  simp [hone, hp]

namespace NetworkServer

variable {P : Platform} {H : ScriptHost σ V} {s s1 : NetworkServer ε σ} {e e' : ε}
  {r : NetworkServer ε σ × Outgoing ε} {sent : Outgoing ε}

/-- The session at the endpoint is active. -/
def Serves (s : NetworkServer ε σ) (e : ε) : Prop :=
  ∃ c, s.clients.find? e = some c ∧ c.isActive = true

/-- Whatever the server did, the session at the endpoint was told nothing of the world, which is as
it was. -/
structure Quiet (s : NetworkServer ε σ) (e : ε) (r : NetworkServer ε σ × Outgoing ε) : Prop where
  serves : Serves s e → Serves r.1 e
  objectManager : r.1.objectManager = s.objectManager
  sent : ∀ msg ∈ r.2.to e, msg.body = none

theorem Quiet.refl (s : NetworkServer ε σ) (e : ε) : Quiet s e (s, []) :=
  ⟨id, rfl, nofun⟩

theorem Quiet.trans (h : Quiet s e (s1, sent)) (h' : Quiet s1 e r) :
    Quiet s e (r.1, sent ++ r.2) where
  serves hs := h'.serves (h.serves hs)
  objectManager := h'.objectManager.trans h.objectManager
  sent msg hmsg := by
    rw [Outgoing.to_append] at hmsg
    exact (List.mem_append.1 hmsg).elim (h.sent msg) (h'.sent msg)

theorem quiet_remoteProcedureCall {now : ε → Time} {clientId : UInt16} {package : RPCPackage}
    (h : s.remoteProcedureCall now clientId package = .ok r) : Quiet s e r where
  serves := by
    rintro ⟨c, hc, hact⟩
    obtain ⟨c', hc', hact'⟩ := remoteProcedureCall_find? h hc
    exact ⟨c', hc', hact'.trans hact⟩
  objectManager := by
    obtain ⟨_, _, heq⟩ := bind_eq_ok.1 h
    cases heq
    rfl
  sent msg hmsg := by
    obtain ⟨_, _, heq⟩ := bind_eq_ok.1 h
    cases heq
    obtain ⟨_, _, heq⟩ := List.mem_map.1 (Outgoing.mem_to.1 hmsg)
    rw [← (Prod.mk.inj heq).2]
    rfl

theorem quiet_handleJoinRequest {now : ε → Time} {clientId : UInt16} {package : RPCPackage}
    (h : s.handleJoinRequest now clientId package = .ok r) : Quiet s e r := by
  obtain ⟨_, _, h⟩ := bind_eq_ok.1 h
  obtain ⟨_, _, h⟩ := bind_eq_ok.1 h
  obtain ⟨response, _, h⟩ := bind_eq_ok.1 h
  obtain ⟨r1, hcall, h⟩ := bind_eq_ok.1 h
  dsimp only at h
  split at h
  · cases h
  cases h
  have hactivate : Quiet s e (s.activate clientId, []) := by
    refine ⟨fun ⟨c, hc, hact⟩ => ⟨_, (activate_find? s clientId e).trans (by rw [hc]; rfl), ?_⟩,
      rfl, nofun⟩
    dsimp only
    split
    · rfl
    · exact hact
  exact hactivate.trans (quiet_remoteProcedureCall hcall)

/-- A join acknowledgement that is taken for another session. -/
theorem quiet_handleJoinAcknowledge {clientId : UInt16} {package : RPCPackage}
    (h : s.handleJoinAcknowledge H clientId package = .ok r)
    (hother : ∀ found c, s.findClient clientId = some (found, c) →
      found ≠ e ∧ c.remoteEndpoint ≠ e) : Quiet s e r := by
  obtain ⟨_, _, h⟩ := bind_eq_ok.1 h
  dsimp only at h
  split at h
  · cases h
  next found c hfound =>
  obtain ⟨hne, hne'⟩ := hother found c hfound
  split at h
  · split at h
    · cases h
    obtain ⟨_, _, heq⟩ := bind_eq_ok.1 h
    cases heq
    refine ⟨fun ⟨c', hc', hact⟩ => ⟨c', ?_, hact⟩, rfl, fun msg hmsg => ?_⟩
    · exact (OrdMap.find?_insert_of_ne hne.symm).trans hc'
    · cases List.mem_singleton.1 (Outgoing.mem_to.1 hmsg)
      exact absurd rfl hne
  · cases h
    refine ⟨fun ⟨c', hc', hact⟩ => ⟨c', ?_, hact⟩, rfl, nofun⟩
    exact (OrdMap.find?_erase ..).trans ((if_neg hne'.symm).trans hc')

/-- Parsing a package only resends calls. -/
theorem quiet_parse (s : NetworkServer ε σ) (e' : ε) (msg : Message Unit) (clk : SteadyClock) :
    Quiet s e ((s.parse P e' msg clk).1, (s.parse P e' msg clk).2.1) where
  serves := by
    rintro ⟨c, hc, hact⟩
    obtain ⟨⟨conn, hself⟩, hrest⟩ := parse_find? (P := P) s e' msg clk
    obtain rfl | hne := eq_or_ne e e'
    · refine ⟨_, hself, ?_⟩
      obtain hold | ⟨hnone, _⟩ := connect_session s e
      · rw [hc] at hold
        exact Option.some.inj hold ▸ hact
      · exact nomatch hc.symm.trans hnone
    · exact ⟨c, (hrest e hne).trans hc, hact⟩
  objectManager := by
    simp only [parse, connect]
    split <;> rfl
  sent msg' hmsg' := by
    obtain ⟨msg1, hmsg1, heq⟩ := List.mem_map.1 (Outgoing.mem_to.1 hmsg')
    rw [← (Prod.mk.inj heq).2]
    exact (refresh_inv P clk (s.connect e').2.toUdpConnection _ _ _).sent msg1 hmsg1

/-- A join acknowledgement that arrives is taken for another session than that at `e`. -/
def AcknowledgesOther (P : Platform) (s : NetworkServer ε σ) (e : ε) : Input ε σ → Prop
  | .receive e' msg stack clk _ => ∀ senderId package,
      s.received P e' msg stack clk = .ok (some (.cpp .joinAcknowledge senderId package)) →
        ∀ found c, (s.parse P e' msg clk).1.findClient senderId = some (found, c) →
          found ≠ e ∧ c.remoteEndpoint ≠ e
  | _ => True

theorem quiet_handleReceive {msg : Message Unit} {stack : RpcData} {clk : SteadyClock}
    {now : ε → Time} (h : s.handleReceive P H e' msg stack clk now = .ok r)
    (hother : AcknowledgesOther P s e (.receive e' msg stack clk now)) : Quiet s e r := by
  obtain ⟨invocation, hreceived, h⟩ := bind_eq_ok.1 h
  obtain ⟨r1, hinvoke, heq⟩ := bind_eq_ok.1 h
  cases heq
  refine (quiet_parse s e' msg clk).trans ?_
  unfold invoke at hinvoke
  split at hinvoke
  · exact quiet_handleJoinRequest hinvoke
  · next senderId package =>
    exact quiet_handleJoinAcknowledge hinvoke (hother senderId package hreceived)
  · cases hinvoke
    exact .refl _ _

theorem Serves.closeDeadConnections (h : Serves s e) (now : Time) {closed : List ε}
    (hclosed : e ∉ closed) : Serves (s.closeDeadConnections now closed) e := by
  obtain ⟨c, hc, hact⟩ := h
  refine ⟨c, ?_, hact⟩
  simp only [NetworkServer.closeDeadConnections]
  generalize s.clients = clients at hc ⊢
  induction closed generalizing clients with
  | nil => exact hc
  | cons e' closed ih =>
    rw [List.mem_cons, not_or] at hclosed
    rw [List.foldl_cons]
    refine ih hclosed.2 _ ?_
    split
    · split
      · rw [OrdMap.find?_erase, if_neg hclosed.1, hc]
      · exact hc
    · exact hc

/-- A `sync` sends an active session the update of the world, and what was pending is flushed. -/
theorem sync_serves {m : ObjectManager σ} {update : WorldStateUpdate} (hs : Serves s e)
    (hm : s.objectManager = some m) (hupdate : m.worldStateUpdate H = .ok update) (now : Time)
    (closed : List ε) :
    ∃ r msg, s.sync H now closed = .ok r ∧ (e ∉ closed → Serves r.1 e) ∧
      r.1.objectManager = some m.flushUpdateCache ∧ r.2.to e = [msg] ∧ msg.rpc = none ∧
      msg.body = some update := by
  obtain ⟨c, hc, hact⟩ := hs
  have hempty : s.clients.entries.isEmpty = false := by
    rw [List.isEmpty_eq_false_iff]
    exact List.ne_nil_of_mem (OrdMap.mem_entries.2 hc)
  simp only [sync, hm, hempty, hupdate, bind, Except.bind, Bool.false_eq_true, if_false]
  refine ⟨_, _, rfl, Serves.closeDeadConnections ⟨_, OrdMap.find?_mapVal .. |>.trans (by
    rw [hc]; rfl), ?_⟩ now, rfl, Outgoing.to_map_filter hc hact fun client =>
      (client.sendPackage { body := some update }).2, rfl, rfl⟩
  simp only [hact, if_true]

end NetworkServer

namespace Feed

/-- What happens next: to the server, or the client gets the first package on the way. -/
inductive Input (ε σ : Type) where
  | server (i : NetworkServer.Input ε σ)
  | deliver (clk : SteadyClock)

/-- What a world shows, if there is one. -/
def shown (H : ScriptHost σ V) (objectManager : Option (ObjectManager σ)) : Shown V :=
  fun id => objectManager.bind (·.view H id)

/-- What an update in a package leaves behind. -/
def note (shown : Shown V) (update : Option WorldStateUpdate) : List (Shown V) :=
  (update.map fun _ => shown).toList

section
variable (P : Platform) (H : ScriptHost σ V) (alloc : Allocator σ)
  (execute : ReceivedCall → NetworkClient ε σ →
    Except Trap (NetworkClient ε σ × List (Message Unit))) (e : ε)

/-- The server, whose client has the endpoint `e`, did something. -/
def afterServer (f : Feed ε σ V) (r : NetworkServer ε σ × Outgoing ε) : Feed ε σ V :=
  { f with
    server := r.1
    wire := f.wire ++ r.2.to e
    told := f.told ++ (r.2.to e).flatMap fun msg => note (shown H r.1.objectManager) msg.body }

/-- A step. What the client sends goes astray. -/
def step (f : Feed ε σ V) : Input ε σ → Option (Feed ε σ V)
  | .server i => (f.server.next P H i).toOption.map (f.afterServer H e)
  | .deliver clk =>
    match f.wire with
    | [] => none
    | msg :: wire =>
      (f.client.handleReceive P H alloc execute clk msg).toOption.map fun r => { f with
        client := r.1
        wire
        seen := f.seen ++ note (shown H r.1.objectManager) (f.client.updateOf msg) }

/-- The client is on its way: it saw the worlds the server told of, up to those in the packages that
are on the way; the next package comes through if it is no call, and so does the next `sync`; its
world is the last one it saw; and when nothing is on the way or pending, it is the server's. -/
structure Follows (f : Feed ε σ V) : Prop where
  told : ∃ rest, f.told = f.seen ++ rest ∧ rest.length = f.wire.countP (·.body.isSome)
  delivers : ∀ msg wire clk, f.wire = msg :: wire → msg.rpc = none →
    ∃ f', step P H alloc execute e f (.deliver clk) = some f'
  syncs : ∀ now closed, ∃ f', step P H alloc execute e f (.server (.sync now closed)) = some f'
  shows : ∀ v ∈ f.seen.getLast?, shown H f.client.objectManager = v
  level : (∀ msg ∈ f.wire, msg.body = none) → ∀ m, f.server.objectManager = some m →
    (∀ p, ¬ m.IsPending p) → m.removedIds.keys = [] →
    shown H f.client.objectManager = shown H f.server.objectManager

end

/-! ## The packages on the way -/

section
variable {H : ScriptHost σ V} {alloc : Allocator σ} {base base' world : ObjectManager σ}
  {wire wire' : List (Message WorldStateUpdate)} {rest rest' : List (Shown V)}

/-- The packages on the way take a client's world to `base`, by way of the worlds `rest`. -/
inductive Leads (H : ScriptHost σ V) (alloc : Allocator σ) (base : ObjectManager σ) :
    ObjectManager σ → List (Message WorldStateUpdate) → List (Shown V) → Prop
  | done {world : ObjectManager σ} (h : InStep H base world) : Leads H alloc base world [] []
  | call {world : ObjectManager σ} {msg : Message WorldStateUpdate}
      {wire : List (Message WorldStateUpdate)} {rest : List (Shown V)} (hbody : msg.body = none)
      (h : Leads H alloc base world wire rest) : Leads H alloc base world (msg :: wire) rest
  | update {world world' : ObjectManager σ} {msg : Message WorldStateUpdate}
      {update : WorldStateUpdate} {wire : List (Message WorldStateUpdate)} {rest : List (Shown V)}
      (hrpc : msg.rpc = none) (hbody : msg.body = some update)
      (happly : world.applyUpdate H alloc update = .ok world')
      (h : Leads H alloc base world' wire rest) :
      Leads H alloc base world (msg :: wire) (world'.view H :: rest)

/-- More packages go behind those on the way. -/
theorem Leads.append (h : Leads H alloc base world wire rest)
    (hmore : ∀ world', InStep H base world' → Leads H alloc base' world' wire' rest') :
    Leads H alloc base' world (wire ++ wire') (rest ++ rest') := by
  induction h with
  | done hstep => exact hmore _ hstep
  | call hbody _ ih => exact .call hbody ih
  | update hrpc hbody happly _ ih => exact .update hrpc hbody happly ih

theorem Leads.length_eq (h : Leads H alloc base world wire rest) :
    rest.length = wire.countP (·.body.isSome) := by
  induction h with
  | done => rfl
  | call hbody _ ih => rw [ih, List.countP_cons_of_neg (by simp [hbody])]
  | update _ hbody _ _ ih =>
    rw [List.length_cons, ih, List.countP_cons_of_pos (by simp [hbody])]

end

/-! ## Runs -/

section
variable {P : Platform} {H : ScriptHost σ V} {alloc : Allocator σ}
  {execute : ReceivedCall → NetworkClient ε σ →
    Except Trap (NetworkClient ε σ × List (Message Unit))} {e : ε} {f f' : Feed ε σ V}
  {i : Input ε σ}

/-- The server's world is some orderly steps past the one the packages on the way lead to. -/
structure Inv (H : ScriptHost σ V) (alloc : Allocator σ) (e : ε) (f : Feed ε σ V)
    (m base world : ObjectManager σ) (rest : List (Shown V)) : Prop where
  serves : f.server.Serves e
  server : f.server.objectManager = some m
  client : f.client.objectManager = some world
  told : f.told = f.seen ++ rest
  leads : Leads H alloc base world f.wire rest
  since : Since H base m
  typed : base.Typed H
  roundTrips : H.RoundTrips base.registeredTypes
  shows : ∀ v ∈ f.seen.getLast?, shown H f.client.objectManager = v

variable {m base world world' : ObjectManager σ} {rest : List (Shown V)}
  {r : NetworkServer ε σ × Outgoing ε}

theorem note_none (v : Shown V) : note v none = [] := rfl

theorem note_some (v : Shown V) (update : WorldStateUpdate) : note v (some update) = [v] := rfl

theorem Leads.exists_inStep {wire : List (Message WorldStateUpdate)}
    (h : Leads H alloc base world wire rest) : ∃ world', InStep H base world' := by
  induction h with
  | done hstep => exact ⟨_, hstep⟩
  | call _ _ ih => exact ih
  | update _ _ _ _ ih => exact ih

/-- The update of a world brings a client that is in step with the last one to it. -/
theorem leads_sync {update : WorldStateUpdate} {msg : Message WorldStateUpdate}
    (hsince : Since H base m) (htyped : base.Typed H) (hrt : H.RoundTrips base.registeredTypes)
    (hupdate : m.worldStateUpdate H = .ok update) (hrpc : msg.rpc = none)
    (hbody : msg.body = some update) (hworld : InStep H base world) :
    Leads H alloc m.flushUpdateCache world [msg] [m.flushUpdateCache.view H] := by
  obtain ⟨update', world', hupdate', happly, hstep⟩ := hsince.follow alloc htyped hrt hworld
  obtain rfl := Except.ok.inj (hupdate.symm.trans hupdate')
  have hflush : InStep H m.flushUpdateCache world' :=
    ⟨⟨hstep.typed, hstep.registeredTypes, hstep.view⟩, hstep.nextId⟩
  have hview : world'.view H = m.flushUpdateCache.view H := funext hflush.view
  exact hview ▸ .update hrpc hbody happly (.done hflush)

/-- A `sync` puts the update of the world on the way, which is what the next ones start from. -/
theorem Inv.sync (h : f.Inv H alloc e m base world rest) (now : Time) (closed : List ε) :
    ∃ r, f.server.sync H now closed = .ok r ∧ (e ∉ closed →
      (f.afterServer H e r).Inv H alloc e m.flushUpdateCache m.flushUpdateCache world
        (rest ++ [m.flushUpdateCache.view H])) := by
  obtain ⟨world', hstep⟩ := h.leads.exists_inStep
  obtain ⟨update, _, hupdate, _⟩ := h.since.follow alloc h.typed h.roundTrips hstep
  obtain ⟨r, msg, hr, hserves, hserver, hsent, hrpc, hbody⟩ :=
    NetworkServer.sync_serves h.serves h.server hupdate now closed
  refine ⟨r, hr, fun hclosed => ?_⟩
  exact {
    serves := hserves hclosed
    server := hserver
    client := h.client
    told := by
      rw [afterServer, hsent, List.flatMap_singleton, hbody, note_some, hserver, h.told,
        List.append_assoc]
      rfl
    leads := by
      rw [afterServer, hsent]
      exact h.leads.append fun _ hworld =>
        leads_sync h.since h.typed h.roundTrips hupdate hrpc hbody hworld
    since := since_refl h.since.settled.flushUpdateCache
    typed := h.since.settled.flushUpdateCache.typed
    roundTrips := by
      obtain ⟨_, htracks, _⟩ := h.since.tracks
      exact htracks.registeredTypes ▸ h.roundTrips
    shows := h.shows }

/-- A delivery keeps the client on its way. -/
theorem Inv.deliver (h : f.Inv H alloc e m base world rest)
    (hexecute : NetworkClient.SparesWorld execute) {clk : SteadyClock}
    (hstep : step P H alloc execute e f (.deliver clk) = some f') :
    ∃ world' rest', f'.Inv H alloc e m base world' rest' := by
  have hleads := h.leads
  simp only [step] at hstep
  split at hstep
  · cases hstep
  next msg wire hwire =>
  obtain ⟨r, hr, rfl⟩ := toOption_map_eq_some.1 hstep
  rw [hwire] at hleads
  cases hleads with
  | call hbody hleads =>
    have hkept := NetworkClient.handleReceive_kept hexecute hbody hr
    have hseen : f.seen ++ note (shown H r.1.objectManager) (f.client.updateOf msg) = f.seen := by
      rw [NetworkClient.updateOf_of_body_none hbody, note_none, List.append_nil]
    refine ⟨world, rest, ⟨h.serves, h.server, hkept.trans h.client, hseen.symm ▸ h.told, hleads,
      h.since, h.typed, h.roundTrips, ?_⟩⟩
    rw [hseen, hkept]
    exact h.shows
  | @update _ world' _ update _ rest hrpc hbody happly hleads =>
    obtain ⟨r', hr', hworld', hupdate⟩ :=
      NetworkClient.handleReceive_update P execute clk hrpc hbody h.client happly
    obtain rfl := Except.ok.inj (hr.symm.trans hr')
    have hseen : f.seen ++ note (shown H r.1.objectManager) (f.client.updateOf msg) =
        f.seen ++ [world'.view H] := by
      rw [hupdate, note_some, hworld']
      rfl
    refine ⟨world', rest, ⟨h.serves, h.server, hworld', ?_, hleads, h.since, h.typed, h.roundTrips,
      ?_⟩⟩
    · rw [hseen, h.told, List.append_assoc]
      rfl
    · rw [hseen, List.getLast?_concat, hworld']
      rintro _ ⟨⟩
      rfl

end

end Feed

end NetSiege
