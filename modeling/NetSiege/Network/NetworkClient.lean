import NetSiege.Network.UdpConnection
import NetSiege.Network.UpdateNews

/-!
# The client (`networkclient.cpp`)

A `NetworkClient` is a connection and a world. `handleReceive` records an incoming package in the
connection and applies the world state update it carries to the world, in whatever order packages
arrive: the ids the connection compares are not asked. A stale update is harmless where it tells
nothing new (`storeKept_iff`).
-/

namespace NetSiege

open Lib ObjectManager UdpConnection

/-- `NetworkClient`. -/
structure NetworkClient (ε σ : Type) extends UdpConnection ε where
  objectManager : Option (ObjectManager σ) := none

namespace NetworkClient

variable {ε σ V : Type} {H : ScriptHost σ V} {alloc : Allocator σ} {m m' : ObjectManager σ}

/-- The update `handle_receive` applies when it gets the package: one with a call is the
dispatcher's. -/
def updateOf (c : NetworkClient ε σ) (msg : Message WorldStateUpdate) : Option WorldStateUpdate :=
  if msg.rpc.isNone ∧ c.objectManager.isSome then msg.body else none

/-- `NetworkClient::handle_receive`, with the packages it sends. Executing a received call is left
to `execute`. -/
def handleReceive (P : Platform) (H : ScriptHost σ V) (alloc : Allocator σ)
    (execute : ReceivedCall → NetworkClient ε σ →
      Except Trap (NetworkClient ε σ × List (Message Unit)))
    (clk : SteadyClock) (c : NetworkClient ε σ) (msg : Message WorldStateUpdate) :
    Except Trap (NetworkClient ε σ × List (Message Unit)) := do
  let (pass, call) := c.parsePackage P clk msg 0
  let c := { c with toUdpConnection := pass.conn }
  match call with
  | some call =>
    let (c, sent) ← execute call c
    .ok (c, pass.sent ++ sent)
  | none =>
    match msg.body, c.objectManager with
    | some update, some m =>
      let m ← m.applyUpdate H alloc update
      .ok ({ c with objectManager := some m }, pass.sent)
    | _, _ => .ok (c, pass.sent)

/-- A client and the ids of the packages whose updates it applied. -/
structure History (ε σ : Type) where
  client : NetworkClient ε σ
  applied : List SeqId := []

/-- A package that arrives, with the clock the client reads. -/
structure Delivery where
  clk : SteadyClock
  msg : Message WorldStateUpdate

/-- The id of the package. -/
def Delivery.seqId (d : Delivery) : SeqId := d.msg.seqId.toUInt16

section
variable (P : Platform) (H : ScriptHost σ V) (alloc : Allocator σ)
  (execute : ReceivedCall → NetworkClient ε σ →
    Except Trap (NetworkClient ε σ × List (Message Unit)))

/-- A client gets a package. -/
def receive (h : History ε σ) (d : Delivery) : Except Trap (History ε σ) := do
  let (client, _) ← h.client.handleReceive P H alloc execute d.clk d.msg
  .ok {
    client
    applied := h.applied ++ ((h.client.updateOf d.msg).map fun _ => d.seqId).toList }

/-- The client after a package, if it comes through. -/
def step (h : History ε σ) (d : Delivery) : Option (History ε σ) :=
  (receive P H alloc execute h d).toOption

end

/-- The object under an id in the client's world. -/
def lookup (c : NetworkClient ε σ) (id : ObjectId) : Option (GameObject σ) :=
  c.objectManager.bind (·.objects.lookup id)

/-- The package brings an update that is not more recent than one the client applied. -/
def Stale (h : History ε σ) (d : Delivery) : Prop :=
  (h.client.updateOf d.msg).isSome ∧ ∃ a ∈ h.applied, ¬ isSeqIdMoreRecent d.seqId a

/-- A stale package leaves the client's world as it is. -/
def StoreKept (P : Platform) (H : ScriptHost σ V) (alloc : Allocator σ)
    (execute : ReceivedCall → NetworkClient ε σ →
      Except Trap (NetworkClient ε σ × List (Message Unit)))
    (h : History ε σ) (d : Delivery) : Prop :=
  Stale h d → ∃ h', step P H alloc execute h d = some h' ∧
    ∀ id, h'.client.lookup id = h.client.lookup id

/-- A stale package leaves the client's world as it is, and none of its descriptions creates or
changes an object on the way. -/
def KeptThroughout (P : Platform) (H : ScriptHost σ V) (alloc : Allocator σ)
    (execute : ReceivedCall → NetworkClient ε σ →
      Except Trap (NetworkClient ε σ × List (Message Unit)))
    (h : History ε σ) (d : Delivery) : Prop :=
  StoreKept P H alloc execute h d ∧ (Stale h d → ∀ update m,
    h.client.updateOf d.msg = some update → h.client.objectManager = some m →
      m.Unchanging H alloc update.updatedObjects)

/-- A stale package tells nothing new: the objects it describes are there as it describes them, and
those it removes are gone. -/
def TellsNothingNew {M : CampaignModule} (h : History ε M.Object) (d : Delivery) : Prop :=
  Stale h d → ∀ update m, h.client.updateOf d.msg = some update →
    h.client.objectManager = some m → m.NothingNew update

/-! ## Stale packages -/

section
variable {P : Platform} {execute : ReceivedCall → NetworkClient ε σ →
  Except Trap (NetworkClient ε σ × List (Message Unit))} {h : History ε σ} {d : Delivery}

theorem updateOf_eq_some {c : NetworkClient ε σ} {msg : Message WorldStateUpdate}
    {update : WorldStateUpdate} (hu : c.updateOf msg = some update) :
    msg.rpc = none ∧ msg.body = some update ∧ ∃ m, c.objectManager = some m := by
  unfold updateOf at hu
  split at hu
  · next hcond =>
    exact ⟨Option.isNone_iff_eq_none.1 hcond.1, hu, Option.isSome_iff_exists.1 hcond.2⟩
  · cases hu

/-- A package with an update is recorded in the connection, and the update applied. -/
theorem step_of_updateOf {update : WorldStateUpdate} (hm : h.client.objectManager = some m)
    (hu : h.client.updateOf d.msg = some update) :
    (step P H alloc execute h d).map (·.client.objectManager) =
      (m.applyUpdate H alloc update).toOption.map some := by
  obtain ⟨hrpc, hbody, _⟩ := updateOf_eq_some hu
  have hcall : (h.client.parsePackage P d.clk d.msg 0 : AckPass ε Unit × _).2 = none := by
    rw [parsePackage, hrpc]
    rfl
  simp only [step, receive, handleReceive, hcall, hbody, hm, bind, Except.bind]
  cases m.applyUpdate H alloc update <;> rfl

/-- A stale package leaves the world as it is if and only if its update does. -/
theorem storeKept_iff_applyUpdate {update : WorldStateUpdate} (hstale : Stale h d)
    (hm : h.client.objectManager = some m) (hu : h.client.updateOf d.msg = some update) :
    StoreKept P H alloc execute h d ↔
      ∃ m', m.applyUpdate H alloc update = .ok m' ∧ SameObjects m m' := by
  have hlookup : ∀ id, h.client.lookup id = m.objects.lookup id := fun id => by
    rw [lookup, hm, Option.bind_some]
  have hstep : (step P H alloc execute h d).map (·.client.objectManager) =
      (m.applyUpdate H alloc update).toOption.map some := step_of_updateOf hm hu
  rw [StoreKept, imp_iff_right hstale]
  constructor
  · rintro ⟨h', hh', hsame⟩
    rw [hh', Option.map_some] at hstep
    cases happly : m.applyUpdate H alloc update with
    | error trap =>
      rw [happly] at hstep
      cases hstep
    | ok m' =>
      rw [happly] at hstep
      refine ⟨m', rfl, fun id => ?_⟩
      rw [← hlookup, ← hsame, lookup, Option.some.inj hstep, Option.bind_some]
  · rintro ⟨m', happly, hsame⟩
    rw [happly] at hstep
    obtain ⟨h', hh', hm'⟩ := Option.map_eq_some_iff.1 hstep
    refine ⟨h', hh', fun id => ?_⟩
    rw [hlookup, lookup, hm', Option.bind_some, hsame]

end

/-- **World state does not go backwards** exactly in the runs in which the stale packages tell
nothing new: none of them changes the client's world. -/
theorem storeKept_iff {M : CampaignModule} (P : Platform) (alloc : Allocator M.Object)
    (execute : ReceivedCall → NetworkClient ε M.Object →
      Except Trap (NetworkClient ε M.Object × List (Message Unit)))
    (c : NetworkClient ε M.Object) (ds : List Delivery) :
    Along (step P M.host alloc execute) (KeptThroughout P M.host alloc execute) { client := c } ds ↔
      Along (step P M.host alloc execute) TellsNothingNew { client := c } ds := by
  refine Along.iff_of_invariant (fun _ => True) (fun _ _ _ _ _ _ => trivial)
    (fun h d _ => ?_) trivial
  by_cases hstale : Stale h d
  swap
  · exact iff_of_true ⟨fun h => absurd h hstale, fun h => absurd h hstale⟩
      fun h => absurd h hstale
  obtain ⟨update, hu⟩ := Option.isSome_iff_exists.1 hstale.1
  obtain ⟨_, _, m, hm⟩ := updateOf_eq_some hu
  have hthis : ∀ p : WorldStateUpdate → ObjectManager M.Object → Prop, (∀ update' m',
      h.client.updateOf d.msg = some update' → h.client.objectManager = some m' → p update' m') ↔
        p update m := fun p => by
    simp [hu, hm]
  rw [KeptThroughout, TellsNothingNew, imp_iff_right hstale, imp_iff_right hstale, hthis, hthis,
    storeKept_iff_applyUpdate hstale hm hu, and_comm, nothingNew_iff alloc]

/-- A client whose world has one character. -/
def oneCharacterClient : NetworkClient Unit testModule.Object where
  remoteEndpoint := ()
  objectManager := some (oneCharacter 0)

/-- No calls are executed. -/
def noCalls (_ : ReceivedCall) (c : NetworkClient Unit testModule.Object) :
    Except Trap (NetworkClient Unit testModule.Object × List (Message Unit)) := .ok (c, [])

/-- A package of the server with an update. -/
def worldStatePackage (seqId : UInt32) (update : WorldStateUpdate) : Delivery where
  clk := .still 0
  msg := { seqId, body := some update }

/-- What the server tells about the character. -/
def geyloardMessage : ProtoGameObject where
  id := 0
  name := some "geyloard"
  position := List.replicate 16 0
  isVisible := some false
  data := {
    objectType := "Character"
    properties := [
      { name := "bla", decl := "int", primitiveSize := 4, primitiveDat := [1337] },
      { name := "foo", decl := "string", stringDat := [[72, 105]] }] }

/-- The package that removes the character comes before the one that described it, and the character
rises again. -/
theorem resurrected_by_late_package :
    ¬ Along (step .x86 testModule.host nextFree noCalls)
      (StoreKept .x86 testModule.host nextFree noCalls) { client := oneCharacterClient }
      [worldStatePackage 2 { removedIds := [0] },
        worldStatePackage 1 { updatedObjects := [geyloardMessage] }] := by
  intro H
  obtain ⟨h', hstep, hsame⟩ := (H.2 _ rfl).1 ⟨rfl, 2, List.mem_singleton_self _, by decide⟩
  cases hstep
  have hrisen := congrArg Option.isSome (hsame 1)
  revert hrisen
  decide

/-- The same package again tells nothing new. -/
theorem storeKept_duplicate_removal :
    Along (step .x86 testModule.host nextFree noCalls)
      (KeptThroughout .x86 testModule.host nextFree noCalls) { client := oneCharacterClient }
      [worldStatePackage 2 { removedIds := [0] }, worldStatePackage 2 { removedIds := [0] }] := by
  refine (storeKept_iff _ _ _ _ _).2 ⟨fun hstale => ?_, ?_⟩
  · obtain ⟨_, _, ha, _⟩ := hstale
    cases ha
  rintro _ ⟨⟩
  refine ⟨?_, fun _ _ => trivial⟩
  rintro _ _ _ ⟨⟩ ⟨⟩
  refine ⟨List.forall_mem_nil _, fun id hid => ?_⟩
  cases List.mem_singleton.1 hid
  rfl

end NetworkClient

end NetSiege
