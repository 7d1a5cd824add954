import UDPing.Server.Refinement

/-!
# Conservation of datagrams

* `Point keepalive as m`: `m` is a state of an admissible run, between two calls or inside
  `receivePing` before its sweep, and `as` are the arrivals so far.
* `Accounts st as`: the statistics `st` are those of exactly the packets `as`.
* **`datagrams_conserved`**: the packets that carried a GUID fall into consecutive periods, one for
  each report of the GUID and one for its live session, and each accounts for its period. Hence the
  balance of the sums, and of the counts as long as no session overflows its `int`. No entry of the
  table is null, and a sweep reports exactly what it removes (`SweepExact`).
* `count_overflows`: a session that has seen `2 ^ 31` packets holds a negative count.
-/

namespace UDPing.Server

open Lib ServerSessionManager
open Std (ExtTreeMap)

/-! ## Statistics of a list of packets -/

/-- The statistics are those of exactly the packets `as`, of which there is at least one. `count`
is a C `int`.
Source: none: abstract model
Kind: D -/
structure Accounts (st : Stats) (as : List Arrival) : Prop where
  /-- The number of packets, as an `int` holds it. -/
  count : st.count = cInt as.length
  /-- The sum of the latencies. -/
  sum : st.sum = (as.map Arrival.latency).sum
  /-- The sum of their squares. -/
  sumOfSquares : st.sumOfSquares = (as.map fun a => a.latency ^ 2).sum
  /-- The greatest latency. -/
  max : IsGreatest {x | ∃ a ∈ as, a.latency = x} st.max

/-- One more value. Source: `stats.cc`, `Stats::addDataPoint`. Kind: L -/
theorem foldl_addDataPoint_concat (st : Stats) (xs : List ℚ) (x : ℚ) :
    (xs ++ [x]).foldl Stats.addDataPoint st = (xs.foldl Stats.addDataPoint st).addDataPoint x :=
  List.foldl_append

/-- The sums and the count after a list of values.
Source: `stats.cc`, `Stats::addDataPoint`
Kind: L -/
theorem foldl_addDataPoint_sums (xs : List ℚ) :
    (xs.foldl Stats.addDataPoint Stats.new).count = cInt xs.length ∧
      (xs.foldl Stats.addDataPoint Stats.new).sum = xs.sum ∧
      (xs.foldl Stats.addDataPoint Stats.new).sumOfSquares = (xs.map fun x => x ^ 2).sum := by
  induction xs using List.reverseRecOn with
  | nil => exact ⟨by decide, rfl, rfl⟩
  | append_singleton xs x ih =>
      obtain ⟨hcount, hsum, hsq⟩ := ih
      rw [foldl_addDataPoint_concat]
      refine ⟨?_, ?_, ?_⟩
      · simp only [Stats.addDataPoint, hcount, cInt_add_one]
        simp
      · simp only [Stats.addDataPoint, hsum]
        simp
      · simp only [Stats.addDataPoint, hsq]
        simp [pow_two]

/-- The maximum after a list of values is an upper bound, and one of them or the initial value.
Source: `stats.cc`, `Stats::addDataPoint`
Kind: L -/
theorem foldl_addDataPoint_max (xs : List ℚ) :
    (∀ x ∈ xs, x ≤ (xs.foldl Stats.addDataPoint Stats.new).max) ∧
      ((xs.foldl Stats.addDataPoint Stats.new).max ∈ xs ∨
        (xs.foldl Stats.addDataPoint Stats.new).max = -dblMax) := by
  induction xs using List.reverseRecOn with
  | nil => exact ⟨fun x hx => absurd hx List.not_mem_nil, Or.inr rfl⟩
  | append_singleton xs x ih =>
      obtain ⟨hub, hmem⟩ := ih
      rw [foldl_addDataPoint_concat]
      simp only [Stats.addDataPoint, List.mem_append, List.mem_singleton]
      split_ifs with hlt
      · refine ⟨?_, Or.inl (Or.inr rfl)⟩
        rintro y (hy | rfl)
        · exact (hub y hy).trans hlt.le
        · exact le_rfl
      · refine ⟨?_, hmem.imp_left Or.inl⟩
        rintro y (hy | rfl)
        · exact hub y hy
        · exact not_lt.mp hlt

/-- **A session accounts for the packets it has absorbed.**
Source: `serversession.cc`, `receivePing`; `stats.cc`
Kind: P -/
theorem Batch.accounts {g : Bytes} (b : Batch g) : Accounts b.session.stats b.arrivals := by
  obtain ⟨hcount, hsum, hsq⟩ := foldl_addDataPoint_sums (b.arrivals.map Arrival.latency)
  obtain ⟨hub, hmem⟩ := foldl_addDataPoint_max (b.arrivals.map Arrival.latency)
  rw [← b.session_stats] at hcount hsum hsq hub hmem
  refine ⟨by simpa using hcount, hsum, by simpa [Function.comp_def] using hsq, ?_, ?_⟩
  · rcases hmem with hmem | hmin
    · exact List.mem_map.mp hmem
    · -- the initial value lies below the first latency
      have hfirst : b.first.latency ≤ b.session.stats.max :=
        hub _ (List.mem_map_of_mem List.mem_cons_self)
      have := neg_dblMax_lt_elapsed b.first.ph b.first.rcvd
      exact absurd hfirst (by rw [hmin]; exact not_le.mpr this)
  · rintro x ⟨a, ha, rfl⟩
    exact hub _ (List.mem_map_of_mem ha)

/-! ## What a run has accounted for -/

/-- The states of the admissible runs, with the arrivals so far: between two events, and inside
`receivePing` before its sweep.
Source: `serversession.cc`, `ServerSessionManager`
Kind: D -/
inductive Point (keepalive : ℤ) : List Arrival → ServerSessionManager → Prop
  | between {es : List Event} (hes : Admissible keepalive es) :
      Point keepalive (arrivals es) ((machine keepalive).run es)
  | beforeSweep {es : List Event} {a : Arrival} {mem : Memory} (hes : Admissible keepalive es)
      (hfree : ((machine keepalive).run es).heap mem.addr = none) :
      Point keepalive (arrivals es ++ [a]) (((machine keepalive).run es).recordPing a mem)

/-- The calls that carried `g`. Source: none: abstract model. Kind: D -/
def carrying (as : List Arrival) (g : Bytes) : List Arrival := as.filter fun a => a.ph.guid = g

/-- The reports written for `g`. Source: none: abstract model. Kind: D -/
def reportsOf (m : ServerSessionManager) (g : Bytes) : List Report :=
  m.written.filter fun r => r.guid = g

/-- All statistics kept for `g`: those reported, in order, and those of the live session.
Source: none: abstract model
Kind: D -/
def statsOf (m : ServerSessionManager) (g : Bytes) : List Stats :=
  (reportsOf m g).map Report.stats ++ ((m.session g).map ServerSession.stats).toList

/-- The total of a statistic over the reports written for `g`, plus that of the live session (`0`
if there is none).
Source: none: abstract model
Kind: D -/
def total {α : Type*} [AddMonoid α] (f : Stats → α) (m : ServerSessionManager) (g : Bytes) : α :=
  ((reportsOf m g).map fun r => f r.stats).sum + (m.session g).elim 0 fun s => f s.stats

theorem total_eq {α : Type*} [AddMonoid α] (f : Stats → α) (m : ServerSessionManager) (g : Bytes) :
    total f m g = ((statsOf m g).map f).sum := by
  unfold total statsOf
  rw [List.map_append, List.sum_append, List.map_map]
  cases m.session g <;> simp [Function.comp_def]

namespace Point

variable {keepalive : ℤ} {as : List Arrival} {m : ServerSessionManager}

theorem wf (h : Point keepalive as m) : WF m := by
  cases h with
  | between hes => exact wf_run hes
  | beforeSweep hes hfree => exact (wf_run hes).recordPing hfree

theorem keepalive_eq (h : Point keepalive as m) : m.keepalive = keepalive := by
  cases h with
  | between hes => exact keepalive_run hes
  | beforeSweep hes hfree => exact (recordPing_keepalive ..).trans (keepalive_run hes)

/-- At every point a ledger shows where each packet is. Source: none: abstract model. Kind: L -/
theorem exists_segments (h : Point keepalive as m) :
    ∃ L, Refines m L ∧ ∀ g, carrying as g = (L.closedOf g).flatten ++ L.pendingOf g := by
  cases h with
  | between hes =>
      obtain ⟨hrun, href⟩ := ledgerOf_spec hes
      exact ⟨_, href, hrun.segments⟩
  | @beforeSweep es a mem hes hfree =>
      obtain ⟨hrun, href⟩ := ledgerOf_spec hes
      refine ⟨(ledgerOf keepalive es).receive a, href.recordPing (wf_run hes) a hfree, fun g => ?_⟩
      rw [Ledger.segments_receive, ← hrun.segments]
      exact List.filter_append ..

/-- The state a sweep starts from is a point of its run.
Source: `serversession.cc`, `receivePing`, `handleAlarm`
Kind: L -/
theorem of_sweep {es : List Event} {e : Event} {x : ServerSessionManager × Time}
    (hes : Admissible keepalive (es ++ [e])) (hx : x ∈ e.sweep? ((machine keepalive).run es)) :
    Point keepalive (arrivals (es ++ [e])) x.1 := by
  obtain ⟨hpre, he⟩ := ((machine keepalive).always_concat ..).mp hes
  have hsame : e.arrival? = none → Point keepalive (arrivals (es ++ [e]))
      ((machine keepalive).run es) := by
    intro hnone
    rw [arrivals, List.filterMap_append, List.filterMap_cons_none hnone, List.filterMap_nil,
      List.append_nil]
    exact .between hpre
  rcases e with ⟨a, mem, now⟩ | now | now
  · obtain rfl : (_, _) = x := by simpa [Event.sweep?] using hx
    rw [arrivals, List.filterMap_append]
    exact .beforeSweep hpre he
  · unfold Event.sweep? at hx
    split_ifs at hx
    · obtain rfl : (_, _) = x := by simpa using hx
      exact hsame rfl
    · cases hx
  · obtain rfl : (_, _) = x := by simpa [Event.sweep?] using hx
    exact hsame rfl

end Point

/-- A report carries its batch's GUID and accounts for its packets.
Source: `serversession.cc`, `writeStats`
Kind: L -/
theorem ReportOf.accounts {r : Report} {b : Σ g, Batch g} (h : ReportOf r b) :
    r.guid = b.1 ∧ Accounts r.stats b.2.arrivals := by
  obtain ⟨tail, now, rfl⟩ := h
  have hacc := b.2.accounts
  have hguid : b.2.session.guid = b.1 := by
    rw [ServerSession.guid, b.2.session_statsWriters]
    exact b.2.carries _ List.mem_cons_self
  cases tail with
  | none => exact ⟨hguid, hacc.count, hacc.sum, hacc.sumOfSquares, hacc.max⟩
  | some q =>
      simp only [ServerSession.closeWith, Option.elim, ServerSession.recordSeq_eq]
      exact ⟨hguid, hacc.count, hacc.sum, hacc.sumOfSquares, hacc.max⟩

/-- The label of a report is the source of its first packet.
Source: `statswriter.cc`, `StatsWriterSet::writeStats`
Kind: L -/
theorem ReportOf.label {r : Report} {b : Σ g, Batch g} (h : ReportOf r b) :
    r.peer = b.2.first.peer ∧ r.port = b.2.first.port := by
  obtain ⟨tail, now, rfl⟩ := h
  rw [← ServerSession.closeWith_forget_writeStats]
  have hlabel : (b.2.session.forget.closeWith tail).statsWriters = b.2.session.statsWriters := by
    rcases tail with _ | q
    · rfl
    · simp only [ServerSession.closeWith, Option.elim, ServerSession.recordSeq_eq]
      rfl
  unfold ServerSession.writeStats StatsWriterSet.writeStats
  rw [hlabel, b.2.session_statsWriters]
  exact ⟨rfl, rfl⟩

/-- The statistics kept for a GUID account, one by one, for its batches.
Source: none: abstract model
Kind: L -/
theorem Refines.accounts {m : ServerSessionManager} {L : Ledger} (h : Refines m L) (g : Bytes) :
    List.Forall₂ Accounts (statsOf m g) (L.closedOf g ++ ((L.pending g).map Batch.arrivals).toList) := by
  have hfilter : List.Forall₂ ReportOf (reportsOf m g) (L.closed.filter fun b => b.1 = g) := by
    refine List.rel_filter ?_ h.reports
    intro r b hrb
    simp [hrb.accounts.1]
  refine List.rel_append ?_ ?_
  · rw [Ledger.closedOf, List.forall₂_map_left_iff, List.forall₂_map_right_iff]
    exact hfilter.imp fun r b hrb => hrb.accounts.2
  · cases hs : m.session g with
    | none =>
        have hnone := h.pending g
        rw [hs, Option.map_none, eq_comm, Option.map_eq_none_iff] at hnone
        rw [hnone]
        exact List.Forall₂.nil
    | some s =>
        obtain ⟨b, hb, hsb⟩ := h.pending_of_session hs
        have hstats : s.stats = b.session.stats := by
          rw [← hsb]
          rfl
        rw [hb, Option.map_some, Option.map_some, hstats]
        exact List.Forall₂.cons b.accounts List.Forall₂.nil

/-! ## Balances -/

section balance

variable {sts : List Stats} {periods : List (List Arrival)}

/-- The sums of the periods add up. Source: none: infrastructure. Kind: L -/
theorem sums_of_accounts (h : List.Forall₂ Accounts sts periods) :
    (sts.map Stats.sum).sum = (periods.flatten.map Arrival.latency).sum ∧
      (sts.map Stats.sumOfSquares).sum = (periods.flatten.map fun a => a.latency ^ 2).sum := by
  induction h with
  | nil => exact ⟨rfl, rfl⟩
  | cons hacc _ ih =>
      simp only [List.map_cons, List.sum_cons, List.flatten_cons, List.map_append, List.sum_append,
        hacc.sum, hacc.sumOfSquares, ih.1, ih.2, and_self]

/-- The counts of the periods add up modulo `2 ^ 32`. Source: none: infrastructure. Kind: L -/
theorem count_emod_of_accounts (h : List.Forall₂ Accounts sts periods) :
    (sts.map Stats.count).sum % 2 ^ 32 = (periods.flatten.length : ℤ) % 2 ^ 32 := by
  induction h with
  | nil => rfl
  | @cons st as _ _ hacc _ ih =>
      have hst := cInt_emod as.length
      rw [← hacc.count] at hst
      simp only [List.map_cons, List.sum_cons, List.flatten_cons, List.length_append, Nat.cast_add]
      omega

/-- The counts of the periods add up when none overflows. Source: none: infrastructure. Kind: L -/
theorem count_of_accounts (h : List.Forall₂ Accounts sts periods)
    (hlt : ∀ as ∈ periods, as.length < 2 ^ 31) :
    (sts.map Stats.count).sum = (periods.flatten.length : ℤ) := by
  induction h with
  | nil => rfl
  | @cons st as _ _ hacc _ ih =>
      have has : as.length < 2 ^ 31 := hlt as List.mem_cons_self
      have hst : st.count = as.length := by
        rw [hacc.count]
        exact cInt_of_range (by omega) (by omega)
      simp only [List.map_cons, List.sum_cons, List.flatten_cons, List.length_append, Nat.cast_add,
        ih fun as' h' => hlt as' (List.mem_cons_of_mem _ h'), hst]

end balance

/-- The counts kept for a GUID add up to its packets, if there are fewer than `2 ^ 31`.
Source: `stats.cc`, `Stats::addDataPoint`
Kind: L -/
theorem Point.total_count {keepalive : ℤ} {as : List Arrival} {m : ServerSessionManager}
    (h : Point keepalive as m) {g : Bytes} (hlt : (carrying as g).length < 2 ^ 31) :
    total Stats.count m g = (carrying as g).length := by
  obtain ⟨L, href, hseg⟩ := h.exists_segments
  have hflat : carrying as g =
      (L.closedOf g ++ ((L.pending g).map Batch.arrivals).toList).flatten := by
    rw [hseg, List.flatten_append, Ledger.pendingOf]
    cases L.pending g <;> simp
  rw [total_eq, hflat, count_of_accounts (href.accounts g)]
  intro p hp
  refine lt_of_le_of_lt ?_ hlt
  rw [hflat]
  exact (List.sublist_flatten_of_mem hp).length_le

/-! ## What a sweep reports -/

/-- A sweep at `now` took `m` to `m'`: it reported each session it removed, once, and nothing
else; exactly the sessions that are not older than the keepalive remain; no entry is null.
Source: `serversession.cc`, `sweepServerSessions`
Kind: D -/
structure SweepExact (now : Time) (m m' : ServerSessionManager) : Prop where
  /-- The new reports are those of the removed sessions, one each. -/
  reported : ∃ rs, m'.written = m.written ++ rs ∧ (rs.map Report.guid).Nodup ∧
    ∀ g, g ∈ rs.map Report.guid ↔ g ∈ m.sessionMap ∧ g ∉ m'.sessionMap
  /-- The sessions left. -/
  remaining : ∀ g s, m'.session g = some s ↔
    m.session g = some s ∧ now - m.keepalive ≤ s.lastArrival
  /-- No entry is null. -/
  nonnull : ∀ g : Bytes, m'.sessionMap[g]? ≠ some none

/-- The reports of a sweep are those of the expired entries, in key order.
Source: `serversession.cc`, `sweepServerSessions`
Kind: L -/
theorem guid_sweepReports {m : ServerSessionManager} (h : WF m) (now : Time) :
    (m.sweepReports now).map Report.guid =
      (m.sessionMap.toList.filter fun e => m.expired now e.1).map Prod.fst := by
  have hall : ∀ e ∈ m.sessionMap.toList.filter fun e => m.expired now e.1,
      (m.finalReport now e.1).map Report.guid = some e.1 := by
    rintro ⟨g, p⟩ he
    obtain ⟨a, s, rfl, hs, hsg⟩ :=
      h.entry (ExtTreeMap.mem_toList_iff_getElem?_eq_some.mp (List.mem_filter.mp he).1)
    have hsess : m.session g = some s := hsg ▸ h.session_of_heap hs
    rw [finalReport, hsess, Option.map_some, Option.map_some]
    cases m.finalTail now g s with
    | none => exact congrArg some hsg
    | some q =>
        simp only [ServerSession.closeWith, Option.elim, ServerSession.recordSeq_eq]
        exact congrArg some hsg
  unfold sweepReports
  rw [List.map_filterMap, List.filterMap_congr hall]
  exact congrFun List.filterMap_eq_map' _

/-- **A sweep is exact.** Source: `serversession.cc`, `sweepServerSessions`. Kind: P -/
theorem ServerSessionManager.WF.sweepExact {m : ServerSessionManager} (h : WF m) (now : Time) :
    SweepExact now m (m.sweepServerSessions now) := by
  have hmap : (m.sweepServerSessions now).sessionMap = (m.without (m.expired now)).sessionMap := by
    rw [h.sweep_eq]
  refine ⟨⟨m.sweepReports now, by rw [h.sweep_eq], ?_, fun g => ?_⟩, fun g s => ?_,
    (h.sweep now).nonnull⟩
  · rw [guid_sweepReports h]
    have hkeys : (m.sessionMap.toList.map Prod.fst).Nodup := by
      rw [ExtTreeMap.map_fst_toList_eq_keys]
      exact ExtTreeMap.nodup_keys
    exact hkeys.sublist (List.filter_sublist.map _)
  · rw [guid_sweepReports h, hmap]
    simp only [ExtTreeMap.mem_iff_isSome_getElem?, without_sessionMap, List.mem_map,
      List.mem_filter, Prod.exists, ExtTreeMap.mem_toList_iff_getElem?_eq_some]
    constructor
    · rintro ⟨g', p, ⟨hp, hexp⟩, rfl⟩
      simp [hp, hexp]
    · rintro ⟨hmem, hgone⟩
      obtain ⟨p, hp⟩ := Option.isSome_iff_exists.mp hmem
      by_cases hexp : m.expired now g
      · exact ⟨g, p, ⟨hp, hexp⟩, rfl⟩
      · simp [hexp, hp] at hgone
  · rw [h.session_sweep]
    cases hs : m.session g with
    | none => simp
    | some t =>
        simp only [expired, hs, Option.elim_some, decide_eq_true_eq, ite_eq_iff, reduceCtorEq,
          and_false, false_or, Option.some.injEq, not_lt]
        constructor
        · rintro ⟨hle, rfl⟩
          exact ⟨rfl, hle⟩
        · rintro ⟨rfl, hle⟩
          exact ⟨hle, rfl⟩

/-! ## The result -/

/-- **Conservation of datagrams.** At every point of every admissible run, for every GUID `g`: the
calls that carried `g` fall, in order, into one period for each report of `g` and one for the live
session, each of which accounts for exactly its period. So the sums balance, the counts balance
modulo `2 ^ 32`, and exactly when no period has `2 ^ 31` packets. No entry of the table is null, a
packet removes and reports nothing, and a sweep reports exactly what it removes and leaves exactly
what is not older than the keepalive.
Source: `serversession.cc`, `receivePing`, `getServerSession`, `sweepServerSessions`; `stats.cc`
Kind: P -/
theorem datagrams_conserved {keepalive : ℤ} {as : List Arrival} {m : ServerSessionManager}
    (h : Point keepalive as m) :
    (∀ g, ∃ periods : List (List Arrival),
      carrying as g = periods.flatten ∧
      List.Forall₂ Accounts (statsOf m g) periods ∧
      total Stats.sum m g = ((carrying as g).map Arrival.latency).sum ∧
      total Stats.sumOfSquares m g = ((carrying as g).map fun a => a.latency ^ 2).sum ∧
      total Stats.count m g % 2 ^ 32 = (carrying as g).length % 2 ^ 32 ∧
      ((∀ p ∈ periods, p.length < 2 ^ 31) → total Stats.count m g = (carrying as g).length)) ∧
    m.keepalive = keepalive ∧
    (∀ g : Bytes, m.sessionMap[g]? ≠ some none) ∧
    (∀ a mem, (m.recordPing a mem).written = m.written ∧
      ∀ g ∈ m.sessionMap, g ∈ (m.recordPing a mem).sessionMap) ∧
    ∀ now, SweepExact now m (m.sweepServerSessions now) := by
  refine ⟨fun g => ?_, h.keepalive_eq, h.wf.nonnull, fun a mem => ?_, h.wf.sweepExact⟩
  · obtain ⟨L, href, hseg⟩ := h.exists_segments
    have hacc := href.accounts g
    have hflat : carrying as g =
        (L.closedOf g ++ ((L.pending g).map Batch.arrivals).toList).flatten := by
      rw [hseg, List.flatten_append, Ledger.pendingOf]
      cases L.pending g <;> simp
    obtain ⟨hsum, hsq⟩ := sums_of_accounts hacc
    refine ⟨_, hflat, hacc, ?_, ?_, ?_, fun hlt => ?_⟩
    · rw [total_eq, hflat, hsum]
    · rw [total_eq, hflat, hsq]
    · rw [total_eq, hflat, count_emod_of_accounts hacc]
    · rw [total_eq, hflat, count_of_accounts hacc hlt]
  · refine ⟨recordPing_written m a mem, fun g hg => ?_⟩
    rw [mem_recordPing_sessionMap]
    exact Or.inr hg

/-- A GUID that comes again after its session has been reported.
Source: `serversession.cc`, `receivePing`, `sweepServerSessions`
Kind: D -/
def recurringRun : List Event :=
  [.receivePing (probe (ascii "a") 0 0) ⟨0, 0⟩ 0, .receivePing (probe (ascii "a") 1 10) ⟨1, 0⟩ 10,
    .receivePing (probe (ascii "b") 0 20) ⟨1, 0⟩ 20, .sweep 75,
    .receivePing (probe (ascii "a") 2 78) ⟨0, 0⟩ 78]

theorem datagrams_conserved_recurringRun :
    (statsOf ((machine 60).run recurringRun) (ascii "a")).map Stats.count = [2, 1] ∧
      ((machine 60).run recurringRun).written.length = 1 ∧
      total Stats.count ((machine 60).run recurringRun) (ascii "a") = 3 := by
  have hpoint : Point 60 (arrivals recurringRun) ((machine 60).run recurringRun) :=
    .between (by decide)
  obtain ⟨periods, hflat, -, -, -, -, hcount⟩ := (datagrams_conserved hpoint).1 (ascii "a")
  have hthree : (carrying (arrivals recurringRun) (ascii "a")).length = 3 := by decide
  refine ⟨by decide, by decide, ?_⟩
  rw [hcount, hthree]
  · rfl
  · intro p hp
    have hle : p.length ≤ periods.flatten.length := by
      rw [List.length_flatten]
      exact List.le_sum_of_mem (List.mem_map_of_mem hp)
    rw [← hflat, hthree] at hle
    omega

/-! ### Runs of one steady client -/

/-- A probe of the period `a`. Source: `protocol.h`, `packet`. Kind: D -/
def probeA : Arrival := probe (ascii "a") 0 0

/-- A client that sends the same probe `n` times more, within the keepalive.
Source: `serversession.cc`, `receivePing`
Kind: D -/
def steadyRun (n : ℕ) : List Event :=
  .receivePing probeA ⟨0, 0⟩ 0 :: List.replicate n (.receivePing probeA ⟨1, 0⟩ 0)

/-- The state of a steady client's server after `n` probes.
Source: `serversession.cc`, `receivePing`
Kind: D -/
structure Steady (m : ServerSessionManager) (n : ℕ) : Prop where
  wf : WF m
  keepalive : m.keepalive = 60
  free : m.heap 1 = none
  written : m.written = []
  session : ∃ s, (∀ g, m.session g = if ascii "a" = g then some s else none) ∧
    s.lastArrival = 0 ∧ s.stats.count = cInt n

/-- One probe more. Source: `serversession.cc`, `receivePing`. Kind: L -/
theorem Steady.step {m : ServerSessionManager} {n : ℕ} (h : Steady m n) :
    Steady (m.receivePing probeA ⟨1, 0⟩ 0) (n + 1) := by
  obtain ⟨s, hs, hlast, hcount⟩ := h.session
  have hlive : m.session probeA.ph.guid = some s := (hs _).trans (if_pos rfl)
  have hmem : probeA.ph.guid ∈ m.sessionMap := (h.wf.mem_iff _).mpr ⟨s, hlive⟩
  have hwf : WF (m.recordPing probeA ⟨1, 0⟩) := h.wf.recordPing h.free
  have hs' : ∀ g, (m.recordPing probeA ⟨1, 0⟩).session g =
      if ascii "a" = g then some (s.absorb probeA) else none := by
    intro g
    split_ifs with hg
    · subst hg
      exact recordPing_session_live h.wf hlive
    · rw [recordPing_session_other h.wf h.free hg, if_neg fun hc => hc.1 hmem, hs, if_neg hg]
  have hsweep : m.receivePing probeA ⟨1, 0⟩ 0 = m.recordPing probeA ⟨1, 0⟩ := by
    refine hwf.sweep_of_not_expired fun g => ?_
    rw [expired, hs', recordPing_keepalive, h.keepalive, ServerSession.absorb_eq]
    split_ifs
    · simp [probeA, probe]
    · rfl
  rw [hsweep]
  refine ⟨hwf, ?_, ?_, ?_, s.absorb probeA, hs', ?_, ?_⟩
  · rw [recordPing_keepalive, h.keepalive]
  · rw [recordPing_of_mem _ hmem, modify_heap]
    change (if _ then (m.heap 1).map _ else m.heap 1) = none
    rw [h.free]
    split_ifs <;> rfl
  · rw [recordPing_written, h.written]
  · rw [ServerSession.absorb_eq]
    rfl
  · rw [ServerSession.absorb_eq]
    change cInt (s.stats.count + 1) = _
    rw [hcount, cInt_add_one]
    rfl

/-- The first probe. Source: `serversession.cc`, `receivePing`. Kind: L -/
theorem steady_zero : Steady ((machine 60).run (steadyRun 0)) 1 := by
  obtain ⟨hwf, hs, hheap⟩ := new_recordPing 60 probeA ⟨0, 0⟩
  have hsweep : (machine 60).run (steadyRun 0) =
      (ServerSessionManager.new 60).recordPing probeA ⟨0, 0⟩ := new_receivePing (by decide) _
  rw [hsweep]
  refine ⟨hwf, ?_, hheap 1 (by decide), ?_, _, hs, rfl, by decide⟩
  · rw [recordPing_keepalive]
    rfl
  · rw [recordPing_written]
    rfl

theorem steadyRun_succ (n : ℕ) :
    steadyRun (n + 1) = steadyRun n ++ [.receivePing probeA ⟨1, 0⟩ 0] := by
  rw [steadyRun, List.replicate_succ']
  rfl

/-- A steady client's run, by induction on its length. Source: `serversession.cc`, `receivePing`.
Kind: L -/
theorem steady_run (n : ℕ) :
    Admissible 60 (steadyRun n) ∧ Steady ((machine 60).run (steadyRun n)) (n + 1) ∧
      (carrying (arrivals (steadyRun n)) (ascii "a")).length = n + 1 := by
  induction n with
  | zero => exact ⟨⟨rfl, trivial⟩, steady_zero, by decide⟩
  | succ n ih =>
      obtain ⟨hadm, hsteady, hlen⟩ := ih
      rw [steadyRun_succ, EventMachine.run_concat]
      refine ⟨((machine 60).always_concat ..).mpr ⟨hadm, hsteady.free⟩, hsteady.step, ?_⟩
      rw [arrivals, List.filterMap_append, carrying, List.filter_append, List.length_append]
      exact congrArg (· + 1) hlen

/-- **The count of a session can be wrong**: after `2 ^ 31` packets in one session, none of which
was ever reported, the session's count is `-2 ^ 31`.
Source: `stats.h`, `Stats` (`int count`); `stats.cc`, `Stats::addDataPoint`
Kind: C -/
theorem count_overflows :
    Point 60 (arrivals (steadyRun (2 ^ 31 - 1))) ((machine 60).run (steadyRun (2 ^ 31 - 1))) ∧
      (carrying (arrivals (steadyRun (2 ^ 31 - 1))) (ascii "a")).length = 2 ^ 31 ∧
      total Stats.count ((machine 60).run (steadyRun (2 ^ 31 - 1))) (ascii "a") = -2 ^ 31 := by
  obtain ⟨hadm, hsteady, hlen⟩ := steady_run (2 ^ 31 - 1)
  refine ⟨.between hadm, by rw [hlen]; norm_num, ?_⟩
  obtain ⟨s, hs, -, hcount⟩ := hsteady.session
  rw [total, reportsOf, hsteady.written, hs, if_pos rfl]
  change 0 + s.stats.count = _
  rw [hcount]
  decide

end UDPing.Server
