import NetSiege.Network.RpcPackage

/-!
# What a package encodes (`rpcpackage.h`, `rpcpackage.cpp`)

`FittingArgs` says what a package is for: a list of arguments whose encodings fit the buffer
together. `Encodes.pushAll` is the refinement: a package made by `make` encodes the arguments that
fitted and gives the same answers, whatever is pushed.
-/

namespace NetSiege

open Lib

/-- The arguments whose push was answered with `true`. -/
def accepted (args : List Arg) (results : List Bool) : List Arg :=
  ((args.zip results).filter (·.2)).map (·.1)

theorem accepted_of_all (hlen : results.length = args.length) (h : ∀ r ∈ results, r = true) :
    accepted args results = args := by
  have hall : ∀ kv ∈ args.zip results, kv.2 = true := fun kv hkv =>
    h kv.2 (List.of_mem_zip hkv).2
  rw [accepted, List.filter_eq_self.2 hall, List.map_fst_zip (by omega)]

theorem accepted_sublist (hlen : results.length = args.length) :
    (accepted args results).Sublist args := by
  have hsub := (List.filter_sublist (p := (·.2)) (l := args.zip results)).map Prod.fst
  rwa [List.map_fst_zip (by omega)] at hsub

/-! ## Arguments that fit -/

/-- Arguments whose encodings fit a package together. -/
structure FittingArgs where
  args : List Arg
  fits : (encodeArgs args).length ≤ maxRpcDataSize

namespace FittingArgs

variable {c : FittingArgs} {a : Arg} {args : List Arg}

/-- No arguments. -/
def empty : FittingArgs := ⟨[], Nat.zero_le _⟩

/-- An argument is added if there is space for it. -/
def push (c : FittingArgs) (a : Arg) : Bool × FittingArgs :=
  if h : (encodeArgs (c.args ++ [a])).length ≤ maxRpcDataSize then (true, ⟨c.args ++ [a], h⟩)
  else (false, c)

/-- One push after the other, each with its answer. -/
def pushAll (c : FittingArgs) : List Arg → List Bool × FittingArgs
  | [] => ([], c)
  | a :: args =>
    let (r, c) := c.push a
    let (rs, c) := c.pushAll args
    (r :: rs, c)

theorem pushAll_cons : c.pushAll (a :: args) =
    ((c.push a).1 :: ((c.push a).2.pushAll args).1, ((c.push a).2.pushAll args).2) := rfl

theorem push_of_fits (h : (encodeArgs (c.args ++ [a])).length ≤ maxRpcDataSize) :
    c.push a = (true, ⟨c.args ++ [a], h⟩) := dif_pos h

theorem push_of_not_fits (h : ¬ (encodeArgs (c.args ++ [a])).length ≤ maxRpcDataSize) :
    c.push a = (false, c) := dif_neg h

theorem length_pushAll : (c.pushAll args).1.length = args.length := by
  induction args generalizing c with
  | nil => rfl
  | cons a args ih => simp [pushAll_cons, ih]

/-- The contents are the arguments of the accepted pushes, in order. -/
theorem args_pushAll :
    (c.pushAll args).2.args = c.args ++ accepted args (c.pushAll args).1 := by
  induction args generalizing c with
  | nil => exact (List.append_nil _).symm
  | cons a args ih =>
    by_cases h : (encodeArgs (c.args ++ [a])).length ≤ maxRpcDataSize
    · simp [pushAll_cons, push_of_fits h, ih, accepted]
    · simp [pushAll_cons, push_of_not_fits h, ih, accepted]

/-- Every push is accepted if and only if all arguments fit together. -/
theorem pushAll_all_iff : (∀ r ∈ (c.pushAll args).1, r = true) ↔
    (encodeArgs (c.args ++ args)).length ≤ maxRpcDataSize := by
  induction args generalizing c with
  | nil => simpa [pushAll] using c.fits
  | cons a args ih =>
    rw [pushAll_cons, List.forall_mem_cons]
    by_cases h : (encodeArgs (c.args ++ [a])).length ≤ maxRpcDataSize
    · rw [push_of_fits h, ih, List.append_assoc]
      exact and_iff_right rfl
    · rw [push_of_not_fits h]
      refine iff_of_false (fun hall => absurd hall.1 Bool.false_ne_true) fun hall => h ?_
      simp only [encodeArgs_append, encodeArgs_cons, encodeArgs_nil, List.length_append,
        List.length_nil] at hall ⊢
      omega

/-- The letters of all arguments are there if and only if all arguments fit together. -/
theorem letters_pushAll_iff :
    (empty.pushAll args).2.args.map Arg.letter = args.map Arg.letter ↔
      (encodeArgs args).length ≤ maxRpcDataSize := by
  have hargs : (empty.pushAll args).2.args = accepted args (empty.pushAll args).1 := args_pushAll
  constructor
  · intro hletters
    have hlen := congrArg List.length hletters
    rw [List.length_map, List.length_map, hargs] at hlen
    have hall := (accepted_sublist (length_pushAll (c := empty))).eq_of_length hlen
    have hfits := (empty.pushAll args).2.fits
    rwa [hargs, hall] at hfits
  · intro hfits
    rw [hargs, accepted_of_all length_pushAll ((pushAll_all_iff (c := empty)).2 hfits)]

end FittingArgs

namespace RPCPackage

variable {p q : RPCPackage} {a : Arg}

/-! ## The package and its contents -/

/-- One push after the other, each with its answer. -/
def pushAll (p : RPCPackage) : List Arg → Except Trap (List Bool × RPCPackage)
  | [] => .ok ([], p)
  | a :: args => do
    let (r, p) ← p.push a
    let (rs, p) ← p.pushAll args
    .ok (r :: rs, p)

/-- `p` holds the encoding of the contents, and zeros behind it. -/
structure Encodes (p : RPCPackage) (c : FittingArgs) : Prop
    extends p.Filled (encodeArgs c.args) (c.args.map Arg.letter) where
  rest : p.data.bytes.drop p.packageSize = List.replicate (maxRpcDataSize - p.packageSize) 0

variable {c : FittingArgs} {args : List Arg}

theorem encodes_make (id : RpcId) : (make id).Encodes .empty :=
  { filled_make id with rest := rfl }

theorem Encodes.push (h : p.Encodes c) (a : Arg) :
    ∃ q, p.push a = .ok ((c.push a).1, q) ∧ q.Encodes (c.push a).2 ∧
      q.validPackage = (p.validPackage && (c.push a).1) ∧ q.rpcId = p.rpcId := by
  obtain ⟨p1, h1, hfill, hcached, hid⟩ := h.toFilled.ensureSizeCached
  have heq := ensureSizeCached_eq h1
  have hvalid : p1.validPackage = p.validPackage := by rw [heq]
  have hrest : p1.data.bytes.drop p1.packageSize =
      List.replicate (maxRpcDataSize - p1.packageSize) 0 := by
    rw [heq, hfill.size, ← h.size, h.rest]
  have hlen : (encodeArgs (c.args ++ [a])).length = p1.packageSize + a.encode.length := by
    simp [hfill.size]
  by_cases hfits : (encodeArgs (c.args ++ [a])).length ≤ maxRpcDataSize
  · rw [FittingArgs.push_of_fits hfits]
    rw [hlen] at hfits
    obtain ⟨d, hd, hpush⟩ := push_of_fits h1 hfits
    rw [RpcData.write, dif_pos hfits] at hd
    cases hd
    have hbound : p1.packageSize + a.encode.length ≤ p1.data.bytes.length :=
      p1.data.size_eq.symm ▸ hfits
    refine ⟨_, hpush, ⟨⟨hlen.symm, ?_, ?_, .inl hcached⟩, ?_⟩, by simp [hvalid], hid⟩
    · rw [hlen, take_overwrite hbound, hfill.size, hfill.bytes]
      simp
    · simp [hfill.argString]
    · change (overwrite p1.data.bytes p1.packageSize a.encode).drop
        (p1.packageSize + a.encode.length) = _
      rw [drop_overwrite hbound (Nat.le_refl _), ← List.drop_drop, hrest, List.drop_replicate,
        Nat.sub_sub]
  · rw [FittingArgs.push_of_not_fits hfits]
    rw [hlen, Nat.not_le] at hfits
    exact ⟨_, push_of_not_fits h1 hfits, ⟨⟨hfill.size, hfill.bytes, hfill.argString, .inl hcached⟩,
      hrest⟩, by simp, hid⟩

/-- The package refines its contents over any number of pushes. -/
theorem Encodes.pushAll (h : p.Encodes c) (args : List Arg) :
    ∃ q, p.pushAll args = .ok ((c.pushAll args).1, q) ∧ q.Encodes (c.pushAll args).2 ∧
      q.validPackage = (p.validPackage && (c.pushAll args).1.all id) ∧ q.rpcId = p.rpcId := by
  induction args generalizing p c with
  | nil => exact ⟨p, rfl, h, by simp [FittingArgs.pushAll], rfl⟩
  | cons a args ih =>
    obtain ⟨p1, h1, henc, hvalid, hid⟩ := h.push a
    obtain ⟨q, hq, henc', hvalid', hid'⟩ := ih henc
    refine ⟨q, ?_, henc', ?_, hid'.trans hid⟩
    · simp only [RPCPackage.pushAll, h1, hq, bind, Except.bind, FittingArgs.pushAll_cons]
    · rw [hvalid', hvalid, FittingArgs.pushAll_cons, List.all_cons, Bool.and_assoc]
      rfl

/-- The pushes of `args` gave `results` and left a package that holds exactly what was accepted. -/
structure HoldsExactly (p : RPCPackage) (args : List Arg) (results : List Bool) : Prop where
  answered : results.length = args.length
  size_le : p.packageSize ≤ maxRpcDataSize
  size : p.packageSize = (encodeArgs (accepted args results)).length
  bytes : p.data.bytes.take p.packageSize = encodeArgs (accepted args results)
  rest : p.data.bytes.drop p.packageSize = List.replicate (maxRpcDataSize - p.packageSize) 0
  argString : p.argString = (accepted args results).map Arg.letter
  valid : p.validPackage = true ↔ ∀ r ∈ results, r = true
  next : ∀ a, ∃ q, p.push a = .ok (decide (p.packageSize + a.encode.length ≤ maxRpcDataSize), q)

/-- After any pushes on a package made by `make`, those that did not fit included, the package holds
exactly the accepted arguments, and the next push is accepted if and only if it fits in the space
left. -/
theorem pushAll_exact (id : RpcId) (args : List Arg) :
    ∃ results p, (make id).pushAll args = .ok (results, p) ∧ p.HoldsExactly args results := by
  obtain ⟨p, hp, henc, hvalid, -⟩ := (encodes_make id).pushAll args
  have hargs : (FittingArgs.empty.pushAll args).2.args =
      accepted args (FittingArgs.empty.pushAll args).1 := FittingArgs.args_pushAll
  refine ⟨_, p, hp, FittingArgs.length_pushAll, ?_, ?_, ?_, henc.rest, ?_, ?_, fun a => ?_⟩
  · rw [henc.size]
    exact (FittingArgs.empty.pushAll args).2.fits
  · rw [henc.size, hargs]
  · rw [henc.size, henc.bytes, hargs]
  · rw [henc.argString, hargs]
  · rw [hvalid]
    simp [make]
  · obtain ⟨q, hq, -⟩ := henc.push a
    have hlen : (encodeArgs ((FittingArgs.empty.pushAll args).2.args ++ [a])).length =
        p.packageSize + a.encode.length := by
      simp [henc.size]
    refine ⟨q, ?_⟩
    rw [hq]
    by_cases hfits : p.packageSize + a.encode.length ≤ maxRpcDataSize
    · rw [FittingArgs.push_of_fits (hlen.symm ▸ hfits), decide_eq_true hfits]
    · rw [FittingArgs.push_of_not_fits (hlen.symm ▸ hfits), decide_eq_false hfits]

end RPCPackage

end NetSiege
