import NetSiege.Network.ClientProcess
import NetSiege.Network.PackageEncoder

/-!
# Calls that do not fit a package (`rpcdispatcher.cpp`, `networkclient.cpp`)

`buildCall` and `sendJoinRequest` drop the results of their pushes and then assert that the argument
string is the spec. `sendsWhole_iff` says when that goes well: exactly when the arguments fit.
-/

namespace NetSiege

open Lib

/-- A call of the arguments ends without a failing assertion, what it sends is a valid package with
all of them, and it sends nothing if they do not fit. `sends r p` says that on the result `r` the
package `p` was handed over. -/
structure SendsWhole {α : Type} (args : List Arg) (call : Except Trap α)
    (sends : α → RPCPackage → Prop) : Prop where
  noAssertion : call ≠ .error .assertion
  whole : ∀ r p, call = .ok r → sends r p → p.validPackage = true ∧
    p.argString = args.map Arg.letter ∧ p.packageSize = (encodeArgs args).length ∧
    p.data.bytes.take p.packageSize = encodeArgs args
  refused : maxRpcDataSize < (encodeArgs args).length → ∀ r p, call = .ok r → ¬ sends r p

variable {γ ε σ : Type} {args : List Arg}

/-- The loop of `buildCall` is a sequence of pushes. -/
theorem pushArgs_eq_pushAll (p : RPCPackage) (args : List Arg) :
    pushArgs p (args.map Arg.letter) args = (p.pushAll args).map (·.2) := by
  rw [pushArgs_eq_foldlM]
  induction args generalizing p with
  | nil => rfl
  | cons a args ih =>
    rw [List.foldlM_cons, RPCPackage.pushAll]
    cases hpush : p.push a with
    | error e => rfl
    | ok r =>
      refine (ih r.2).trans ?_
      simp only [bind, Except.bind]
      cases r.2.pushAll args <;> rfl

/-- The package of a call before the assertion: it is valid and complete if the arguments fit, and
has too few letters otherwise. -/
theorem pushAll_make_cases (id : RpcId) (args : List Arg) :
    ∃ results p, (RPCPackage.make id).pushAll args = .ok (results, p) ∧
      (p.argString = args.map Arg.letter ↔ (encodeArgs args).length ≤ maxRpcDataSize) ∧
      ((encodeArgs args).length ≤ maxRpcDataSize → p.validPackage = true ∧
        p.Filled (encodeArgs args) (args.map Arg.letter)) := by
  obtain ⟨p, hp, henc, hvalid, -⟩ := (RPCPackage.encodes_make id).pushAll args
  refine ⟨_, p, hp, ?_, fun hfits => ?_⟩
  · rw [henc.argString]
    exact FittingArgs.letters_pushAll_iff
  · have hall := (FittingArgs.pushAll_all_iff (c := .empty)).2 hfits
    have hargs : (FittingArgs.empty.pushAll args).2.args = args := by
      rw [FittingArgs.args_pushAll, accepted_of_all FittingArgs.length_pushAll hall]
      rfl
    rw [← hargs]
    refine ⟨?_, henc.toFilled⟩
    rw [hvalid]
    simpa [RPCPackage.make] using hall

/-- `RPCDispatcher::buildCall`; the send function gets the package it returns. -/
theorem buildCall_sendsWhole_iff {d : RPCDispatcher γ} {name : String} {procedure : Procedure}
    (hproc : d.procedures.find? name = some procedure)
    (hargs : args.map Arg.letter = procedure.argSpec) :
    SendsWhole args (d.buildCall name args) (fun r p => r.1 = p) ↔
      (encodeArgs args).length ≤ maxRpcDataSize := by
  obtain ⟨results, p, hp, hspec, hfilled⟩ := pushAll_make_cases procedure.id args
  have hloop : pushArgs (.make procedure.id) procedure.argSpec args = .ok p := by
    rw [← hargs, pushArgs_eq_pushAll, hp]
    rfl
  rw [hargs] at hspec
  constructor
  · intro h
    by_contra hfits
    have hne : procedure.argSpec ≠ p.argString := fun heq => hfits (hspec.1 heq.symm)
    refine h.noAssertion ?_
    simp only [RPCDispatcher.buildCall, hproc, Option.getD_some, hloop, bind, Except.bind,
      if_pos hne]
  · intro hfits
    obtain ⟨hvalid, hfill⟩ := hfilled hfits
    have heq : ¬ procedure.argSpec ≠ p.argString := not_not_intro (hspec.2 hfits).symm
    have hcall : d.buildCall name args =
        .ok (p, { d with procedures := d.procedures.insert name procedure }) := by
      simp only [RPCDispatcher.buildCall, hproc, Option.getD_some, hloop, bind, Except.bind,
        if_neg heq]
    rw [hcall]
    refine ⟨by simp, ?_, fun hlarge => absurd hfits (Nat.not_le.2 hlarge)⟩
    rintro _ _ ⟨⟩ rfl
    exact ⟨hvalid, hfill.argString, hfill.size, by rw [hfill.size, hfill.bytes]⟩

namespace ClientProcess

/-- The package of `NetworkClient::sendJoinRequest`. -/
def joinPackage (name : List UInt8) : Except Trap RPCPackage := do
  let (_, package) ← (RPCPackage.make rpcIdJoinServerReq).push (.u32 0)
  let (_, package) ← package.push (.str name)
  if package.argString ≠ rpcArgsJoinServerReq then .error .assertion
  .ok package

theorem sendJoinRequest_eq (c : ClientProcess ε σ) (now : Time) :
    c.sendJoinRequest now = (do
      let package ← joinPackage c.name
      let (client, sent) ← c.toNetworkClient.remoteProcedureCall package now
      .ok ({ c with toNetworkClient := client }, sent)) := by
  simp only [sendJoinRequest, joinPackage, bind_assoc]
  congr 1
  funext r1
  congr 1
  funext r2
  split <;> rfl

/-- The request package, once the pushes are known. -/
theorem joinPackage_eq {name : List UInt8} {results : List Bool} {p : RPCPackage}
    (hp : (RPCPackage.make rpcIdJoinServerReq).pushAll [.u32 0, .str name] = .ok (results, p)) :
    joinPackage name =
      if p.argString ≠ rpcArgsJoinServerReq then .error .assertion else .ok p := by
  obtain ⟨⟨r1, p1⟩, h1, hp⟩ := bind_eq_ok.1 hp
  obtain ⟨⟨rs, p3⟩, hp, heq⟩ := bind_eq_ok.1 hp
  obtain ⟨⟨r2, p2⟩, h2, heq'⟩ := bind_eq_ok.1 hp
  cases heq'
  cases heq
  simp only [joinPackage, h1, h2, bind, Except.bind]

/-- `NetworkClient::sendJoinRequest`; the package is the one given to `remoteProcedureCall`. -/
theorem sendJoinRequest_sendsWhole_iff (c : ClientProcess ε σ) (now : Time) :
    SendsWhole [.u32 0, .str c.name] (c.sendJoinRequest now) (fun r p =>
      joinPackage c.name = .ok p ∧
        c.toNetworkClient.remoteProcedureCall p now = .ok (r.1.toNetworkClient, r.2)) ↔
      c.name.length ≤ 506 := by
  obtain ⟨results, p, hp, hspec, hfilled⟩ :=
    pushAll_make_cases rpcIdJoinServerReq [.u32 0, .str c.name]
  have hlen : (encodeArgs [.u32 0, .str c.name]).length ≤ maxRpcDataSize ↔
      c.name.length ≤ 506 := by
    simp only [encodeArgs_cons, encodeArgs_nil, Arg.encode, List.length_append, length_leBytes,
      List.length_nil, maxRpcDataSize]
    omega
  have hletters : [Arg.u32 0, .str c.name].map Arg.letter = rpcArgsJoinServerReq := rfl
  have hjoin := joinPackage_eq hp
  rw [hletters] at hspec
  rw [← hlen]
  constructor
  · intro h
    by_contra hfits
    refine h.noAssertion ?_
    rw [sendJoinRequest_eq, hjoin, if_pos fun heq => hfits (hspec.1 heq)]
    rfl
  · intro hfits
    obtain ⟨hvalid, hfill⟩ := hfilled hfits
    rw [if_neg (not_not_intro (hspec.2 hfits))] at hjoin
    refine ⟨?_, ?_, fun hlarge => absurd hfits (Nat.not_le.2 hlarge)⟩
    · simp [sendJoinRequest_eq, hjoin, NetworkClient.remoteProcedureCall,
        UdpConnection.remoteProcedureCallPackage, hfill.dataSize, bind, Except.bind]
    · rintro r q - ⟨hq, -⟩
      cases hjoin.symm.trans hq
      exact ⟨hvalid, hfill.argString, hfill.size, by rw [hfill.size, hfill.bytes]⟩

end ClientProcess

/-- Calls of scripts and the join request: no assertion fails and nothing incomplete or oversized is
sent if and only if the arguments fit a package. -/
theorem sendsWhole_iff {d : RPCDispatcher γ} {name : String} {procedure : Procedure}
    (hproc : d.procedures.find? name = some procedure)
    (hargs : args.map Arg.letter = procedure.argSpec) :
    (SendsWhole args (d.buildCall name args) (fun r p => r.1 = p) ↔
      (encodeArgs args).length ≤ maxRpcDataSize) ∧
    ∀ (c : ClientProcess ε σ) (now : Time),
      SendsWhole [.u32 0, .str c.name] (c.sendJoinRequest now) (fun r p =>
        ClientProcess.joinPackage c.name = .ok p ∧
          c.toNetworkClient.remoteProcedureCall p now = .ok (r.1.toNetworkClient, r.2)) ↔
        c.name.length ≤ 506 :=
  ⟨buildCall_sendsWhole_iff hproc hargs, ClientProcess.sendJoinRequest_sendsWhole_iff⟩

theorem sendsWhole_say :
    (SendsWhole [.str [97]] ((sayCaller ['L']).buildCall "say" [.str [97]]) (fun r p => r.1 = p) ↔
      (encodeArgs [.str [97]]).length ≤ maxRpcDataSize) ∧
    ∀ (c : ClientProcess Unit Unit) (now : Time),
      SendsWhole [.u32 0, .str c.name] (c.sendJoinRequest now) (fun r p =>
        ClientProcess.joinPackage c.name = .ok p ∧
          c.toNetworkClient.remoteProcedureCall p now = .ok (r.1.toNetworkClient, r.2)) ↔
        c.name.length ≤ 506 :=
  sendsWhole_iff
    (show (sayCaller ['L']).procedures.find? "say" = some ⟨16, ['L']⟩ from rfl) rfl

/-- A string of 511 bytes does not fit behind its length. -/
theorem not_sendsWhole_long :
    ¬ SendsWhole [.str (List.replicate 511 97)]
      ((sayCaller ['L']).buildCall "say" [.str (List.replicate 511 97)]) (fun r p => r.1 = p) := by
  have hproc : (sayCaller ['L']).procedures.find? "say" = some ⟨16, ['L']⟩ := rfl
  rw [buildCall_sendsWhole_iff hproc rfl]
  simp only [encodeArgs_cons, encodeArgs_nil, Arg.encode, List.length_append, length_leBytes,
    List.length_replicate, List.length_nil, maxRpcDataSize]
  omega

end NetSiege
