import NetSiege.Lib.Loop
import NetSiege.Lib.MapIterator
import NetSiege.Network.NetworkServer

/-!
# The sweep over dead connections (`networkserver.cpp`)

`closeDeadConnections` walks over `m_clients` and erases what it stands on. `Sweep` is the loop with
its iterator, which an erasure invalidates: the loop cannot go on from the first dead session it
meets (`sweptExactly_iff`).
-/

namespace NetSiege

open Lib

variable {ε σ : Type} [LinearOrder ε]

/-- The last sign of life is older than `CONNECTION_TIMEOUT`. -/
def ClientSession.isDead (now : Time) (client : ClientSession ε) : Bool :=
  ExceedsTimeout connectionTimeout (now - client.timeOfLastAck)

/-- `time_span.count() > CONNECTION_TIMEOUT`. -/
def ClientSession.timedOut (now : Time) (client : ClientSession ε) : Bool :=
  floatSeconds (now - client.timeOfLastAck) > connectionTimeout

omit [LinearOrder ε] in
/-- The comparison is late by some nanoseconds, never early. -/
theorem ClientSession.timedOut_eq_false {now : Time} {client : ClientSession ε}
    (h : client.isDead now = false) : client.timedOut now = false := by
  have halive := of_decide_eq_false h
  rw [exceedsTimeout_connection_iff] at halive
  refine decide_eq_false fun hlate => halive ?_
  exact Nat.lt_trans (by decide) (connectionTimeout_lt_iff.1 hlate)

/-- `closeDeadConnections` in progress, with the endpoints of the sessions closed so far. -/
structure Sweep (ε : Type) [LinearOrder ε] where
  clients : OrdMap ε (ClientSession ε)
  it : Iter ε
  closed : List ε := []

namespace Sweep

/-- The loop at its beginning. -/
def start (clients : OrdMap ε (ClientSession ε)) : Sweep ε where
  clients
  it := .begin clients

/-- One turn of the loop: its body, and the `++` of the iterator if it still is one. There is none
at `end()`, and none from an erased entry. -/
def turn (now : Time) (s : Sweep ε) : Option (Sweep ε) :=
  if s.it.valid then
    match s.it.key with
    | none => none
    | some e =>
      match s.clients.find? e with
      | none => none
      | some client =>
        if client.timedOut now then some {
          clients := s.clients.erase e
          it := s.it.erase (· = e)
          closed := s.closed ++ [e] }
        else some { s with it := .next s.clients e }
  else none

variable {now : Time} {s s' : Sweep ε} {clients : OrdMap ε (ClientSession ε)}

/-- What a turn does. -/
theorem turn_cases (h : s.turn now = some s') : s.it.valid = true ∧ ∃ e client,
    s.it.key = some e ∧ s.clients.find? e = some client ∧
    (client.timedOut now = true ∧ s'.it.valid = false ∧ s'.clients = s.clients.erase e ∧
        s'.closed = s.closed ++ [e] ∨
      client.timedOut now = false ∧ s' = { s with it := .next s.clients e }) := by
  unfold turn at h
  split at h
  · next hvalid =>
    split at h
    · cases h
    · next e he =>
      split at h
      · cases h
      · next client hclient =>
        refine ⟨hvalid, e, client, he, hclient, ?_⟩
        split at h
        · next hdead =>
          cases h
          exact .inl ⟨hdead, by simp [Iter.erase, he], rfl, rfl⟩
        · next halive =>
          cases h
          exact .inr ⟨eq_false_of_ne_true halive, rfl⟩
  · cases h

end Sweep

namespace NetworkServer

/-- `NetworkServer::closeDeadConnections`, up to where its iterator leads. -/
def sweep (s : NetworkServer ε σ) (now : Time) : Sweep ε :=
  turns (Sweep.turn now) s.clients.keys.length (.start s.clients)

/-- The sweep comes to `end()` with an iterator that is one, has closed and erased the dead
sessions, each once, and has left all others in place. -/
structure SweptExactly (s : NetworkServer ε σ) (now : Time) : Prop where
  valid : (s.sweep now).it.valid = true
  ended : (s.sweep now).it.key = none
  closed : ∀ e, e ∈ (s.sweep now).closed ↔
    ∃ client, s.clients.find? e = some client ∧ client.isDead now = true
  once : (s.sweep now).closed.Nodup
  clients : ∀ e, (s.sweep now).clients.find? e = (s.clients.find? e).filter (!·.isDead now)

variable {s : NetworkServer ε σ} {now : Time}

/-- What the sweep has erased is what `closeDeadConnections` erases of the sessions it closed; there
are none as long as its iterator is valid. -/
structure Swept (s : NetworkServer ε σ) (now : Time) (r : Sweep ε) : Prop where
  clients : r.clients = (s.closeDeadConnections now r.closed).clients
  closed : r.it.valid = true → r.closed = []

theorem Swept.turn {r r' : Sweep ε} (hr : s.Swept now r) (h : r.turn now = some r') :
    s.Swept now r' := by
  obtain ⟨hvalid, e, client, _, hclient, ⟨hdead, hinvalid, hclients, hclosed⟩ | ⟨_, rfl⟩⟩ :=
    Sweep.turn_cases h
  · refine ⟨?_, fun hvalid' => absurd hvalid' (by simp [hinvalid])⟩
    have hmet := hr.clients
    rw [hclients, hclosed]
    simp only [closeDeadConnections, List.foldl_append, List.foldl_cons, List.foldl_nil] at hmet ⊢
    rw [← hmet, hclient]
    simp only [of_decide_eq_true hdead, if_true]
  · exact ⟨hr.clients, fun _ => hr.closed hvalid⟩

theorem swept_sweep (s : NetworkServer ε σ) (now : Time) : s.Swept now (s.sweep now) := by
  have hturn : ∀ r r', s.Swept now r → r.turn now = some r' → s.Swept now r' :=
    fun _ _ hr h => hr.turn h
  exact turns_invariant hturn _ ⟨rfl, fun _ => rfl⟩

/-- What the sweep erases is what `closeDeadConnections` erases of the sessions it meets. -/
theorem clients_sweep (s : NetworkServer ε σ) (now : Time) :
    (s.sweep now).clients = (s.closeDeadConnections now (s.sweep now).closed).clients :=
  (swept_sweep s now).clients

/-- Without dead sessions, every turn of the sweep moves on to the next one. -/
theorem turns_of_alive {m n : Nat}
    (halive : ∀ e client, s.clients.find? e = some client → client.isDead now = false)
    (hn : n + m = s.clients.keys.length) :
    turns (Sweep.turn now) m ⟨s.clients, ⟨s.clients.keys[n]?, true⟩, []⟩ =
      ⟨s.clients, ⟨none, true⟩, []⟩ := by
  induction m generalizing n with
  | zero =>
    rw [List.getElem?_eq_none (by omega)]
    rfl
  | succ m ih =>
    have hlt : n < s.clients.keys.length := by omega
    have hkey := List.getElem?_eq_getElem hlt
    obtain ⟨client, hclient⟩ := OrdMap.mem_keys.1 (List.getElem_mem hlt)
    have hturn : Sweep.turn now ⟨s.clients, ⟨s.clients.keys[n]?, true⟩, []⟩ =
        some ⟨s.clients, ⟨s.clients.keys[n + 1]?, true⟩, []⟩ := by
      have hstill := ClientSession.timedOut_eq_false (halive _ _ hclient)
      rw [← OrdMap.nextKey?_getElem hkey, hkey]
      simp only [Sweep.turn, if_true, hclient, hstill, Bool.false_eq_true, if_false]
      rfl
    rw [turns, hturn]
    exact ih (by omega)

/-- The sweep over sessions that are all alive. -/
theorem sweep_of_alive
    (halive : ∀ e client, s.clients.find? e = some client → client.isDead now = false) :
    s.sweep now = ⟨s.clients, ⟨none, true⟩, []⟩ := by
  have hstart : Sweep.start s.clients = ⟨s.clients, ⟨s.clients.keys[0]?, true⟩, []⟩ := by
    rw [← List.head?_eq_getElem?]
    rfl
  rw [sweep, hstart]
  exact turns_of_alive halive (Nat.zero_add _)

/-- **Dead connections.** The sweep closes the dead sessions and no others if and only if there are
no dead sessions. -/
theorem sweptExactly_iff (s : NetworkServer ε σ) (now : Time) :
    s.SweptExactly now ↔
      ∀ e client, s.clients.find? e = some client → client.isDead now = false := by
  refine ⟨fun h e client hclient => ?_, fun halive => ?_⟩
  · have hclosed := (swept_sweep s now).closed h.valid
    apply eq_false_of_ne_true
    intro hdead
    have hmem := (h.closed e).2 ⟨client, hclient, hdead⟩
    rw [hclosed] at hmem
    cases hmem
  · have hsweep := sweep_of_alive halive
    exact {
      valid := by rw [hsweep]
      ended := by rw [hsweep]
      closed := fun e => by
        rw [hsweep]
        refine iff_of_false List.not_mem_nil fun ⟨client, hclient, hdead⟩ => ?_
        rw [halive e client hclient] at hdead
        cases hdead
      once := by
        rw [hsweep]
        exact .nil
      clients := fun e => by
        rw [hsweep]
        change s.clients.find? e = _
        cases hclient : s.clients.find? e with
        | none => rfl
        | some client => rw [Option.filter_some_pos (by rw [halive e client hclient]; rfl)] }

/-- The only session of a server, with a last sign of life at time 0. -/
def oneSession : NetworkServer Nat Unit where
  clients := (∅ : OrdMap _ _).insert 1 { remoteEndpoint := 1, clientId := 0 }

/-- After eleven seconds it is closed, and the loop goes on from its entry. -/
theorem not_sweptExactly_eleven : ¬ oneSession.SweptExactly 11000000000 := by
  intro h
  have hvalid := h.valid
  revert hvalid
  decide

end NetworkServer

end NetSiege
