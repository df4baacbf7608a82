import NetSiege.Lib.Run
import NetSiege.Network.NetworkServer

/-!
# Client ids

While a server handles a package from a session, client ids stand for sessions: the join response,
the acknowledged session and the handler are looked up by the session's id, cut to 16 bits, and 0
means all. `addressesOne_iff` says when they lead to that session and to no other.
-/

namespace NetSiege

open Lib

namespace NetworkServer

variable {ε σ V : Type} [LinearOrder ε] {P : Platform} {H : ScriptHost σ V}
  {s s' : NetworkServer ε σ} {e : ε}

/-- Something holds of all sessions but that at `e`. -/
def Others (s : NetworkServer ε σ) (e : ε) (Q : ClientSession ε → Prop) : Prop :=
  ∀ e' c, s.clients.find? e' = some c → e' ≠ e → Q c

/-- What an invocation looks up by client id is the session at `e`, in the state `s` in which it
happens. -/
def LeadsTo (s : NetworkServer ε σ) (e : ε) (now : ε → Time) : Invocation ServerCallback → Prop
  | .cpp .joinRequest senderId package => ∃ s' sent,
      s.handleJoinRequest now senderId package = .ok (s', sent) ∧ ∀ e', e' ∈ sent.map (·.1) ↔ e' = e
  | .cpp .joinAcknowledge senderId _ => ∃ c, s.findClient senderId = some (e, c)
  | .script .. => True

/-- While a package from a session is handled: the join response goes to that session only, a join
acknowledgement is taken for that session, and the handler is not one for the client id of another
session. -/
def AddressesOne (P : Platform) (s : NetworkServer ε σ) : Input ε σ → Prop
  | .receive e msg stack clk now =>
    (∀ invocation, s.received P e msg stack clk = .ok (some invocation) →
        LeadsTo (s.parse P e msg clk).1 e now invocation) ∧
      ∀ rpc ∈ msg.rpc, ∀ handler,
        s.findRpcHandler (s.connect e).2.clientId.toUInt16 rpc.rpcId.toUInt16 = some handler →
          Others (s.connect e).1 e (·.clientId ≠ handler.clientId.toUInt64)
  | _ => True

/-- The client id `n` of the session at `e` fits into 16 bits and is that of no other session; the
id 0, which addresses every active session, is that of the only active one. -/
structure AnswersOne (s : NetworkServer ε σ) (e : ε) (n : UInt64) : Prop where
  small : n < 65536
  unique : Others s e (·.clientId ≠ n)
  alone : n = 0 → Others s e (·.isActive = false)

/-- The client id `n` of the session at `e` fits into 16 bits, and no session at a greater endpoint
has it. -/
structure FoundByAck (s : NetworkServer ε σ) (e : ε) (n : UInt64) : Prop where
  small : n < 65536
  last : ∀ e' c, s.clients.find? e' = some c → e < e' → c.clientId ≠ n

/-- When client ids are unambiguous, for a package from a session with the id `n`: if it is a join
request, if it is a join acknowledgement, and if the first handler for its call is one for the
client id 0 or one for `n`, cut to 16 bits. -/
def Unambiguous (P : Platform) (s : NetworkServer ε σ) : Input ε σ → Prop
  | .receive e msg stack clk _ =>
    let n := (s.connect e).2.clientId
    (∀ senderId package,
        s.received P e msg stack clk = .ok (some (.cpp .joinRequest senderId package)) →
          AnswersOne (s.connect e).1 e n) ∧
      (∀ senderId package,
        s.received P e msg stack clk = .ok (some (.cpp .joinAcknowledge senderId package)) →
          FoundByAck (s.connect e).1 e n) ∧
      ∀ rpc ∈ msg.rpc, ∀ handler, s.FirstFor n.toUInt16 rpc.rpcId.toUInt16 handler →
        if handler.clientId = 0 then Others (s.connect e).1 e (·.clientId ≠ 0)
        else Others (s.connect e).1 e (·.clientId ≠ n % 65536)
  | _ => True

/-! ## Client ids of 16 bits -/

theorem toUInt64_toUInt16 (n : UInt64) : n.toUInt16.toUInt64 = n % 65536 := by
  apply UInt64.toNat.inj
  simp

theorem toUInt64_lt (n : UInt16) : n.toUInt64 < 65536 := by
  rw [UInt64.lt_iff_toNat_lt, UInt16.toNat_toUInt64]
  exact n.toNat_lt

theorem eq_toUInt64_iff {n : UInt64} : n = n.toUInt16.toUInt64 ↔ n < 65536 := by
  rw [toUInt64_toUInt16, UInt64.lt_iff_toNat_lt, ← UInt64.toNat_inj]
  simp
  omega

theorem toUInt16_eq_zero_iff {n : UInt64} (h : n < 65536) : n.toUInt16 = 0 ↔ n = 0 := by
  have hback := eq_toUInt64_iff.2 h
  constructor
  · intro hzero
    rw [hback, hzero]
    rfl
  · rintro rfl
    rfl

/-! ## The sessions while a datagram is handled -/

section
variable {msg : Message Unit} {clk : SteadyClock} {n : UInt64}

theorem parse_find?_of_ne {e' : ε} (h : e' ≠ e) :
    (s.parse P e msg clk).1.clients.find? e' = (s.connect e).1.clients.find? e' :=
  ((parse_find? s e msg clk).2 e' h).trans ((connect_find? s e).2 e' h).symm

theorem others_parse {Q : ClientSession ε → Prop} :
    Others (s.parse P e msg clk).1 e Q ↔ Others (s.connect e).1 e Q := by
  constructor
  · exact fun h e' c hc hne => h e' c ((parse_find?_of_ne hne).trans hc) hne
  · exact fun h e' c hc hne => h e' c ((parse_find?_of_ne hne).symm.trans hc) hne

theorem answersOne_parse :
    AnswersOne (s.parse P e msg clk).1 e n ↔ AnswersOne (s.connect e).1 e n := by
  constructor
  · rintro ⟨hsmall, hunique, halone⟩
    exact ⟨hsmall, others_parse.1 hunique, fun hzero => others_parse.1 (halone hzero)⟩
  · rintro ⟨hsmall, hunique, halone⟩
    exact ⟨hsmall, others_parse.2 hunique, fun hzero => others_parse.2 (halone hzero)⟩

theorem foundByAck_parse :
    FoundByAck (s.parse P e msg clk).1 e n ↔ FoundByAck (s.connect e).1 e n := by
  constructor
  · exact fun ⟨hsmall, hlast⟩ =>
      ⟨hsmall, fun e' c hc hlt => hlast e' c ((parse_find?_of_ne hlt.ne').trans hc) hlt⟩
  · exact fun ⟨hsmall, hlast⟩ =>
      ⟨hsmall, fun e' c hc hlt => hlast e' c ((parse_find?_of_ne hlt.ne').symm.trans hc) hlt⟩

end

/-- Only sessions whose id fits into 16 bits are ever active. -/
def ActiveSmall (s : NetworkServer ε σ) : Prop :=
  ∀ e c, s.clients.find? e = some c → c.isActive = true → c.clientId < 65536

theorem activeSmall_registerNetworkSystem (m : Option (ObjectManager σ)) :
    ActiveSmall (registerNetworkSystem (ε := ε) m) := fun _ _ hc => nomatch hc

theorem ActiveSmall.calm {clients : OrdMap ε (ClientSession ε)}
    (h : ∀ e c, clients.find? e = some c → c.isActive = true → c.clientId < 65536)
    (hcalm : Calm clients s'.clients) : ActiveSmall s' := by
  intro e c' hc' hact
  obtain ⟨c, hc, hid, hact'⟩ := hcalm e c' hc'
  rw [hid]
  exact h e c hc (hact' ▸ hact)

theorem ActiveSmall.parse (h : ActiveSmall s) {msg : Message Unit} {clk : SteadyClock} :
    ActiveSmall (s.parse P e msg clk).1 := by
  intro e' c hc hact
  obtain ⟨c0, hc0, hact0, hid⟩ := parse_active hc hact
  exact hid ▸ h e' c0 hc0 hact0

theorem ActiveSmall.activate (h : ActiveSmall s) (clientId : UInt16) :
    ActiveSmall (s.activate clientId) := by
  intro e c' hc' hact
  rw [activate_find?] at hc'
  obtain ⟨c, hc, rfl⟩ := Option.map_eq_some_iff.1 hc'
  split at hact
  · next hid =>
    rw [if_pos hid, hid]
    exact toUInt64_lt clientId
  · next hid =>
    rw [if_neg hid]
    exact h e c hc hact

theorem ActiveSmall.step (h : ActiveSmall s) {i : Input ε σ} (hstep : step P H s i = some s') :
    ActiveSmall s' := by
  cases i with
  | receive e msg stack clk now =>
    obtain ⟨⟨_, sent⟩, hnext, rfl⟩ := step_eq_some hstep
    have hparse : ActiveSmall (s.parse P e msg clk).1 := h.parse
    obtain hcalm | ⟨senderId, _, _, hcalm⟩ |
      ⟨senderId, _, _, _, e', c, conn, _, _, _, hfound, hclients⟩ := handleReceive_cases hnext
    · exact .calm hparse hcalm
    · exact .calm (hparse.activate senderId) hcalm
    · intro e1 c1 hc1 hact
      rw [hclients, OrdMap.find?_insert] at hc1
      split at hc1
      · cases hc1
        rw [(findClient_eq_some.1 hfound).1.2]
        exact toUInt64_lt senderId
      · exact hparse e1 c1 hc1 hact
  | _ => exact .calm h (calm_of_not_receive (fun _ _ _ _ _ heq => by cases heq) hstep)

/-! ## The lookups -/

/-- The response goes to the session only, if and only if its id is unambiguous. -/
theorem leadsTo_joinRequest_iff (hsmall : ActiveSmall s) {c : ClientSession ε}
    (hc : s.clients.find? e = some c) {now : ε → Time} {package : RPCPackage}
    (hread : package.readOffset = 0) :
    LeadsTo s e now (.cpp .joinRequest c.clientId.toUInt16 package) ↔
      AnswersOne s e c.clientId := by
  obtain ⟨s', sent, hhandle, _, hsent⟩ :=
    handleJoinRequest_spec s now c.clientId.toUInt16 hread
  have hleads : LeadsTo s e now (.cpp .joinRequest c.clientId.toUInt16 package) ↔
      ∀ e', e' ∈ sent.map (·.1) ↔ e' = e := by
    constructor
    · rintro ⟨s2, sent2, hhandle2, h⟩
      obtain ⟨rfl, rfl⟩ := Prod.mk.inj (Except.ok.inj (hhandle.symm.trans hhandle2))
      exact h
    · exact fun h => ⟨s', sent, hhandle, h⟩
  rw [hleads]
  constructor
  · intro h
    obtain ⟨c1, hc1, hact, -⟩ := (hsent e).1 ((h e).2 rfl)
    obtain rfl : c = c1 := Option.some.inj (hc.symm.trans hc1)
    have hlt : c.clientId < 65536 := hact.elim (hsmall e c hc) eq_toUInt64_iff.1
    have hid := eq_toUInt64_iff.2 hlt
    refine ⟨hlt, fun e' c' hc' hne heq => hne ((h e').1 ((hsent e').2 ?_)),
      fun hzero e' c' hc' hne => ?_⟩
    · rw [← hid]
      exact ⟨c', hc', .inr heq, .inr heq⟩
    · by_contra hact'
      have hcid := (toUInt16_eq_zero_iff hlt).2 hzero
      exact hne ((h e').1 ((hsent e').2 ⟨c', hc', .inl (by simpa using hact'), .inl hcid⟩))
  · rintro ⟨hlt, hunique, halone⟩ e'
    have hid := eq_toUInt64_iff.2 hlt
    rw [hsent, ← hid]
    constructor
    · rintro ⟨c', hc', hact, haddr⟩
      by_contra hne
      have hother := hunique e' c' hc' hne
      have hzero := (toUInt16_eq_zero_iff hlt).1 (haddr.resolve_right hother)
      have hidle := halone hzero e' c' hc' hne
      rw [hidle] at hact
      exact hact.elim Bool.false_ne_true hother
    · rintro rfl
      exact ⟨c, hc, .inr rfl, .inr rfl⟩

/-- The acknowledgement is taken for the session, if and only if the session is found first. -/
theorem leadsTo_joinAcknowledge_iff {c : ClientSession ε} (hc : s.clients.find? e = some c)
    {now : ε → Time} {package : RPCPackage} :
    LeadsTo s e now (.cpp .joinAcknowledge c.clientId.toUInt16 package) ↔
      FoundByAck s e c.clientId := by
  constructor
  · rintro ⟨c1, hfound⟩
    obtain ⟨⟨hc1, hid⟩, hlast⟩ := findClient_eq_some.1 hfound
    obtain rfl : c = c1 := Option.some.inj (hc.symm.trans hc1)
    exact ⟨eq_toUInt64_iff.1 hid, fun e' c' hc' hlt heq =>
      not_le_of_gt hlt (hlast e' c' hc' (heq.trans hid))⟩
  · rintro ⟨hlt, hlast⟩
    have hid := eq_toUInt64_iff.2 hlt
    exact ⟨c, findClient_eq_some.2 ⟨⟨hc, hid⟩, fun e' c' hc' heq =>
      not_lt.1 fun hlt => hlast e' c' hc' hlt (heq.trans hid.symm)⟩⟩

/-- The first handler for a call is not one for another session, if and only if the client id it is
registered for, 0 or that of the session, is that of no other. -/
theorem others_firstFor_iff {d : RPCDispatcher ServerCallback} {n : UInt64} {rpcId : RpcId}
    {handler : Handler ServerCallback} (h : d.FirstFor n.toUInt16 rpcId handler) :
    Others s e (·.clientId ≠ handler.clientId.toUInt64) ↔
      if handler.clientId = 0 then Others s e (·.clientId ≠ 0)
      else Others s e (·.clientId ≠ n % 65536) := by
  obtain ⟨_, ⟨_, _, hclient⟩, _⟩ := h
  split
  · next hzero =>
    rw [hzero]
    rfl
  · next hne =>
    rw [hclient.resolve_left hne, toUInt64_toUInt16]

/-! ## Runs -/

/-- What a package leads to is the session it comes from, if and only if its id is unambiguous. -/
theorem addressesOne_step_iff (hsmall : ActiveSmall s) (i : Input ε σ) :
    AddressesOne P s i ↔ Unambiguous P s i := by
  cases i with
  | receive e msg stack clk now =>
    obtain ⟨⟨conn, hself⟩, _⟩ := parse_find? (P := P) s e msg clk
    have hrequest : ∀ {senderId package},
        s.received P e msg stack clk = .ok (some (.cpp .joinRequest senderId package)) →
          (LeadsTo (s.parse P e msg clk).1 e now (.cpp .joinRequest senderId package) ↔
            AnswersOne (s.connect e).1 e (s.connect e).2.clientId) := by
      intro senderId package hreceived
      obtain ⟨rfl, hread⟩ := received_cpp hreceived
      exact (leadsTo_joinRequest_iff hsmall.parse hself hread).trans answersOne_parse
    have hack : ∀ {senderId package},
        s.received P e msg stack clk = .ok (some (.cpp .joinAcknowledge senderId package)) →
          (LeadsTo (s.parse P e msg clk).1 e now (.cpp .joinAcknowledge senderId package) ↔
            FoundByAck (s.connect e).1 e (s.connect e).2.clientId) := by
      intro senderId package hreceived
      obtain ⟨rfl, _⟩ := received_cpp hreceived
      exact (leadsTo_joinAcknowledge_iff hself).trans foundByAck_parse
    constructor
    · rintro ⟨hleads, hhandler⟩
      refine ⟨fun senderId package h => (hrequest h).1 (hleads _ h),
        fun senderId package h => (hack h).1 (hleads _ h), fun rpc hrpc handler hfirst => ?_⟩
      have hother := hhandler rpc hrpc handler (RPCDispatcher.findRpcHandler_eq_some.2 hfirst)
      exact (others_firstFor_iff hfirst).1 hother
    · rintro ⟨hanswers, hfound, hfirst⟩
      refine ⟨fun invocation h => ?_, fun rpc hrpc handler hhandler => ?_⟩
      · match invocation with
        | .cpp .joinRequest senderId package => exact (hrequest h).2 (hanswers _ _ h)
        | .cpp .joinAcknowledge senderId package => exact (hack h).2 (hfound _ _ h)
        | .script .. => trivial
      · have hf := RPCDispatcher.findRpcHandler_eq_some.1 hhandler
        exact (others_firstFor_iff hf).2 (hfirst rpc hrpc handler hf)
  | _ => exact .rfl

/-- Client ids address exactly one session along a run, if and only if they are unambiguous along
it. -/
theorem addressesOne_iff (m : Option (ObjectManager σ)) (is : List (Input ε σ)) :
    Along (step P H) (AddressesOne P) (registerNetworkSystem m) is ↔
      Along (step P H) (Unambiguous P) (registerNetworkSystem m) is := by
  refine Along.iff_of_invariant ActiveSmall (fun s i s' hsmall _ hstep => hsmall.step hstep)
    (fun s i hsmall => addressesOne_step_iff hsmall i) (activeSmall_registerNetworkSystem m)

/-- A datagram with a call. -/
def callDatagram {σ : Type} (e : Nat) (rpcId : RpcId) (args : List Arg) : Input Nat σ :=
  .receive e { rpc := some ⟨0, rpcId.toUInt32, encodeArgs args⟩ } .zero (.still 0) fun _ => 0

/-- The join request of a client called `n`. -/
def joinServerReq {σ : Type} (e : Nat) : Input Nat σ :=
  callDatagram e rpcIdJoinServerReq [.u32 0, .str [110]]

/-- The first client's request is resent once the second client has joined, and the second client is
answered too. -/
theorem joinAnswered_to_both :
    ¬ Along (step .x86 testModule.host) (AddressesOne .x86)
      (registerNetworkSystem (some ObjectManager.emptyWorld))
      [joinServerReq 0, joinServerReq 1, joinServerReq 0] := by
  intro H
  have hrun : run (step .x86 testModule.host)
      (registerNetworkSystem (some ObjectManager.emptyWorld))
      [joinServerReq 0, joinServerReq 1] = some _ := rfl
  have hsmall := run_invariant ActiveSmall (fun s i s' h hstep => h.step hstep)
    (activeSmall_registerNetworkSystem _) hrun
  have hthird := along_iff_forall_split.1 H [_, _] _ [] rfl _ hrun
  have hunambiguous := (addressesOne_step_iff hsmall _).1 hthird
  have hidle := (hunambiguous.1 _ _ rfl).alone rfl 1 _ rfl (by decide)
  cases hidle

end NetworkServer

end NetSiege
