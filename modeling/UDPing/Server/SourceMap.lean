import UDPing.Server.Refinement

/-!
# References to deleted sessions

`sourceMap` aliases the sessions of `sessionMap`, and the sweep erases from `sessionMap` only.

* `SourcesLive`: every session that `sourceMap` references is still stored in `sessionMap`.
* `NoDeletedReference`: moreover, no packet makes `getServerSession` read or link a deleted
  session, and no session is its own successor.
* **`noDeletedReference_iff`**: it holds at every point of a run exactly when no sweep of the run
  removes a session that `sourceMap` references (`Event.KeepsSources`).
* `session_own_successor`: one flush, and a new period of the same source whose session is given
  the freed address, make a session its own successor.
-/

namespace UDPing.Server

open Lib ServerSessionManager
open Std (ExtTreeMap)

namespace ServerSessionManager

variable {m : ServerSessionManager} {a : Arrival} {mem : Memory}

/-! ## The property -/

/-- Every session that `sourceMap` references is stored in `sessionMap`.
Source: `serversession.h`, `sessionMap`, `sourceMap`
Kind: D -/
def SourcesLive (m : ServerSessionManager) : Prop :=
  ∀ (source : Bytes) (b : Addr), m.sourceMap[source]? = some (some b) →
    ∃ g : Bytes, m.sessionMap[g]? = some (some b)

/-- No session is recorded as its own successor. The session of the empty GUID is left out: the empty
GUID is also what stands for no successor, which every session has until `setSuccessor` is called.
Source: `serversession.h`, `successor`
Kind: D -/
def NoSelfSuccessor (m : ServerSessionManager) : Prop :=
  ∀ g s, m.session g = some s → s.successor = g → g = []

/-- **No reference to a deleted session.** `link`: a packet with a new GUID sets its successor link
on a stored session of another GUID. `stale`: what a read through a dangling pointer would yield
does not matter, because there is no such read.
Source: `serversession.cc`, `getServerSession`
Kind: D -/
structure NoDeletedReference (m : ServerSessionManager) : Prop where
  /-- The references of `sourceMap`. -/
  live : SourcesLive m
  /-- The session that is linked. -/
  link : ∀ (a : Arrival) (mem : Memory) (b : Addr), m.heap mem.addr = none →
    a.ph.guid ∉ m.sessionMap → m.predecessorOf a mem = some b →
    ∃ g : Bytes, g ≠ a.ph.guid ∧ m.sessionMap[g]? = some (some b)
  /-- No dangling pointer is read. -/
  stale : ∀ (a : Arrival) (mem : Memory) (t : Time), m.heap mem.addr = none →
    m.recordPing a { mem with stale := t } = m.recordPing a mem
  /-- No session succeeds itself. -/
  noSelf : NoSelfSuccessor m

/-- The sweep at `now` removes no session that `sourceMap` references.
Source: `serversession.cc`, `sweepServerSessions`
Kind: D -/
def KeepsSources (m : ServerSessionManager) (now : Time) : Prop :=
  ∀ (source : Bytes) (b : Addr) (s : ServerSession), m.sourceMap[source]? = some (some b) →
    m.heap b = some s → now - m.keepalive ≤ s.lastArrival

instance (m : ServerSessionManager) : Decidable (SourcesLive m) :=
  decidable_of_iff (∀ e ∈ m.sourceMap.toList, ∀ b ∈ e.2, ∃ e' ∈ m.sessionMap.toList,
      e'.2 = some b) <| by
    simp only [SourcesLive, Prod.forall, Prod.exists, ExtTreeMap.mem_toList_iff_getElem?_eq_some,
      Option.mem_def]
    refine ⟨fun h source b hb => ?_, fun h source p hp b hb => ?_⟩
    · obtain ⟨g, p, hg, rfl⟩ := h source _ hb b rfl
      exact ⟨g, hg⟩
    · subst hb
      obtain ⟨g, hg⟩ := h source b hp
      exact ⟨g, _, hg, rfl⟩

instance (m : ServerSessionManager) (now : Time) : Decidable (KeepsSources m now) :=
  decidable_of_iff (∀ e ∈ m.sourceMap.toList, ∀ b ∈ e.2, ∀ s ∈ m.heap b,
      now - m.keepalive ≤ s.lastArrival) <| by
    simp only [KeepsSources, Prod.forall, ExtTreeMap.mem_toList_iff_getElem?_eq_some,
      Option.mem_def]
    refine ⟨fun h source b s hb hs => h source _ hb b rfl s hs, fun h source p hp b hb s hs => ?_⟩
    subst hb
    exact h source b s hp hs

/-! ## Which addresses hold a session -/

/-- The addresses stored in the table are those that hold a session.
Source: none: infrastructure
Kind: L -/
theorem WF.stored_iff (h : WF m) (b : Addr) :
    (∃ g : Bytes, m.sessionMap[g]? = some (some b)) ↔ ∃ s, m.heap b = some s := by
  constructor
  · rintro ⟨g, hg⟩
    obtain ⟨s, hs, -⟩ := (h.stored g b).mp hg
    exact ⟨s, hs⟩
  · rintro ⟨s, hs⟩
    exact ⟨s.guid, (h.stored s.guid b).mpr ⟨s, hs, rfl⟩⟩

/-- A packet frees no address, and takes the new one for a new GUID.
Source: `serversession.cc`, `receivePing`
Kind: L -/
theorem exists_heap_recordPing (m : ServerSessionManager) (a : Arrival) (mem : Memory) (b : Addr) :
    (∃ s, (m.recordPing a mem).heap b = some s) ↔
      (∃ s, m.heap b = some s) ∨ (a.ph.guid ∉ m.sessionMap ∧ b = mem.addr) := by
  have hmodify : ∀ (m : ServerSessionManager) (p : Ptr) (f : ServerSession → ServerSession),
      (∃ s, (m.modify p f).heap b = some s) ↔ ∃ s, m.heap b = some s := by
    intro m p f
    rw [modify_heap]
    split_ifs
    · simp
    · rfl
  by_cases hg : a.ph.guid ∈ m.sessionMap
  · rw [recordPing_of_mem mem hg, hmodify]
    simp only [hg, not_true_eq_false, false_and, or_false]
    rfl
  · rw [recordPing_of_not_mem mem hg, hmodify, hmodify]
    change (∃ s, Function.update m.heap mem.addr _ b = some s) ↔ _
    by_cases hb : b = mem.addr
    · simp [hb, hg]
    · rw [Function.update_of_ne hb]
      simp [hb]

/-- The memory after a sweep. Source: `serversession.cc`, `sweepServerSessions`. Kind: L -/
theorem WF.exists_heap_sweep (h : WF m) (now : Time) (b : Addr) :
    (∃ s, (m.sweepServerSessions now).heap b = some s) ↔
      ∃ s, m.heap b = some s ∧ now - m.keepalive ≤ s.lastArrival := by
  rw [h.sweep_eq]
  change (∃ s, (m.heap b).filter (fun s => !m.expired now s.guid) = some s) ↔ _
  simp only [Option.filter_eq_some_iff, Bool.not_eq_true']
  refine exists_congr fun s => and_congr_right fun hs => ?_
  rw [expired, h.session_of_heap hs, Option.elim_some, decide_eq_false_iff_not, not_lt]

/-! ## One step -/

/-- With live references the linked session is one that was stored before the packet.
Source: `serversession.cc`, `getServerSession`
Kind: L -/
theorem SourcesLive.predecessorOf (hl : SourcesLive m) (h : WF m) (hfree : m.heap mem.addr = none)
    {b : Addr} (hb : m.predecessorOf a mem = some b) :
    ∃ s, m.heap b = some s ∧ subscript m.sourceMap (sourceKey a.peer a.port) = some b ∧
      s.clientStartTime = a.ph.clientStartTime.toNat := by
  rcases hsub : subscript m.sourceMap (sourceKey a.peer a.port) with _ | b'
  · rw [predecessorOf_none mem hsub] at hb
    cases hb
  · obtain ⟨s, hs⟩ := (h.stored_iff b').mp (hl _ _ (subscript_eq_some.mp hsub))
    rw [predecessorOf_of_heap hsub hs hfree] at hb
    split_ifs at hb with hstart
    rw [Option.some.injEq] at hb
    subst hb
    exact ⟨s, hs, rfl, hstart⟩

/-- A packet keeps the references live. Source: `serversession.cc`, `getServerSession`. Kind: L -/
theorem SourcesLive.recordPing (hl : SourcesLive m) (h : WF m) (hfree : m.heap mem.addr = none) :
    SourcesLive (m.recordPing a mem) := by
  intro source b hb
  rw [(h.recordPing hfree).stored_iff, exists_heap_recordPing]
  rw [recordPing_sourceMap] at hb
  by_cases hg : a.ph.guid ∈ m.sessionMap
  · rw [if_pos hg] at hb
    exact Or.inl ((h.stored_iff b).mp (hl source b hb))
  · rw [if_neg hg, ExtTreeMap.getElem?_insert] at hb
    split_ifs at hb
    · rw [Option.some.injEq, Option.some.injEq] at hb
      exact Or.inr ⟨hg, hb.symm⟩
    · exact Or.inl ((h.stored_iff b).mp (hl source b hb))

/-- **A sweep keeps the references live exactly when it removes none of them.**
Source: `serversession.cc`, `sweepServerSessions`
Kind: P -/
theorem WF.sourcesLive_sweep_iff (h : WF m) (hl : SourcesLive m) (now : Time) :
    SourcesLive (m.sweepServerSessions now) ↔ KeepsSources m now := by
  have hsource : (m.sweepServerSessions now).sourceMap = m.sourceMap := by
    rw [h.sweep_eq]
    rfl
  unfold SourcesLive KeepsSources
  rw [hsource]
  constructor
  · intro hl' source b s hb hs
    have hstored := hl' source b hb
    rw [(h.sweep now).stored_iff, h.exists_heap_sweep] at hstored
    obtain ⟨s', hs', hkept⟩ := hstored
    rw [hs, Option.some.injEq] at hs'
    rwa [hs']
  · intro hkeeps source b hb
    rw [(h.sweep now).stored_iff, h.exists_heap_sweep]
    obtain ⟨s, hs⟩ := (h.stored_iff b).mp (hl source b hb)
    exact ⟨s, hs, hkeeps source b s hb hs⟩

/-- A packet makes no session its own successor while the references are live.
Source: `serversession.cc`, `getServerSession`
Kind: L -/
theorem NoSelfSuccessor.recordPing (hn : NoSelfSuccessor m) (hl : SourcesLive m) (h : WF m)
    (hfree : m.heap mem.addr = none) : NoSelfSuccessor (m.recordPing a mem) := by
  intro g s hs hsucc
  by_cases hg : a.ph.guid = g
  · subst hg
    by_cases hmem : a.ph.guid ∈ m.sessionMap
    · obtain ⟨s₀, hs₀⟩ := (h.mem_iff _).mp hmem
      rw [recordPing_session_live h hs₀, Option.some.injEq] at hs
      subst hs
      rw [ServerSession.absorb_eq] at hsucc
      exact hn _ _ hs₀ hsucc
    · -- the new session is not linked to itself: its address was free
      have hpred : m.predecessorOf a mem ≠ some mem.addr := by
        intro hc
        obtain ⟨s', hs', -⟩ := hl.predecessorOf h hfree hc
        rw [hfree] at hs'
        cases hs'
      rw [recordPing_session_new h hfree hmem, if_neg hpred, Option.some.injEq] at hs
      subst hs
      rw [ServerSession.absorb_eq] at hsucc
      exact hsucc.symm
  · rw [recordPing_session_other h hfree hg] at hs
    split_ifs at hs
    · obtain ⟨s₀, -, rfl⟩ := Option.map_eq_some_iff.mp hs
      exact absurd hsucc hg
    · exact hn g s hs hsucc

/-- A sweep makes no session its own successor. Source: `serversession.cc`,
`sweepServerSessions`. Kind: L -/
theorem NoSelfSuccessor.sweep (hn : NoSelfSuccessor m) (h : WF m) (now : Time) :
    NoSelfSuccessor (m.sweepServerSessions now) := by
  intro g s hs
  rw [h.session_sweep] at hs
  split_ifs at hs
  exact hn g s hs

/-- Live references and no self-successor are all that is needed.
Source: `serversession.cc`, `getServerSession`
Kind: L -/
theorem WF.noDeletedReference (h : WF m) (hl : SourcesLive m) (hn : NoSelfSuccessor m) :
    NoDeletedReference m where
  live := hl
  link := by
    intro a mem b hfree hg hb
    obtain ⟨s, hs, -⟩ := hl.predecessorOf h hfree hb
    have hstored := (h.stored s.guid b).mpr ⟨s, hs, rfl⟩
    refine ⟨s.guid, ?_, hstored⟩
    rintro hsg
    exact hg ((h.mem_iff _).mpr ⟨s, hsg ▸ h.session_of_heap hs⟩)
  stale := by
    intro a mem t hfree
    by_cases hg : a.ph.guid ∈ m.sessionMap
    · rw [recordPing_of_mem _ hg, recordPing_of_mem _ hg]
    · have hpred : m.predecessorOf a { mem with stale := t } = m.predecessorOf a mem := by
        rcases hsub : subscript m.sourceMap (sourceKey a.peer a.port) with _ | b
        · rw [predecessorOf_none _ hsub, predecessorOf_none _ hsub]
        · obtain ⟨s, hs⟩ := (h.stored_iff b).mp (hl _ _ (subscript_eq_some.mp hsub))
          rw [predecessorOf_of_heap hsub hs hfree]
          exact predecessorOf_of_heap hsub hs hfree
      rw [recordPing_of_not_mem _ hg, recordPing_of_not_mem _ hg, hpred]
      rfl
  noSelf := hn

end ServerSessionManager

/-! ## Runs -/

/-- The sweep of an event, if it makes one, removes no session that `sourceMap` references.
Source: `serversession.cc`, `receivePing`, `handleAlarm`, `sweepServerSessions`
Kind: D -/
def Event.KeepsSources (m : ServerSessionManager) (e : Event) : Prop :=
  ∀ x ∈ e.sweep? m, x.1.KeepsSources x.2

instance (m : ServerSessionManager) (e : Event) : Decidable (e.KeepsSources m) :=
  inferInstanceAs (Decidable (∀ x ∈ e.sweep? m, x.1.KeepsSources x.2))

/-- What one event does to the references. Source: `serversession.cc`. Kind: P -/
theorem sourcesLive_step_iff {m : ServerSessionManager} (h : WF m) (hl : SourcesLive m)
    (hn : NoSelfSuccessor m) (e : Event) (he : e.Allocates m) :
    (SourcesLive (m.step e) ∧ NoSelfSuccessor (m.step e)) ↔ e.KeepsSources m := by
  unfold Event.KeepsSources
  rcases e with ⟨a, mem, now⟩ | now | now
  · have hl' : SourcesLive (m.recordPing a mem) := hl.recordPing h he
    have hn' : NoSelfSuccessor (m.recordPing a mem) := hn.recordPing hl h he
    have hiff := (h.recordPing he).sourcesLive_sweep_iff hl' now
    simp only [Event.sweep?, Option.mem_def, Option.some.injEq, forall_eq']
    exact ⟨fun hs => hiff.mp hs.1, fun hk => ⟨hiff.mpr hk, hn'.sweep (h.recordPing he) now⟩⟩
  · have hiff := h.sourcesLive_sweep_iff hl now
    unfold ServerSessionManager.step handleAlarm Event.sweep?
    by_cases hz : m.intervalPacketsReceived = 0
    · simp only [if_pos hz, Option.mem_def, Option.some.injEq, forall_eq']
      exact ⟨fun hs => hiff.mp hs.1, fun hk => ⟨hiff.mpr hk, hn.sweep h now⟩⟩
    · simp only [if_neg hz, Option.mem_def, reduceCtorEq, false_implies, implies_true, iff_true]
      exact ⟨hl, hn⟩
  · have hiff := h.sourcesLive_sweep_iff hl now
    simp only [Event.sweep?, Option.mem_def, Option.some.injEq, forall_eq']
    exact ⟨fun hs => hiff.mp hs.1, fun hk => ⟨hiff.mpr hk, hn.sweep h now⟩⟩

/-- **When no reference to a deleted session exists**: at every point of an admissible run exactly
if no sweep of the run removes a session that `sourceMap` references.
Source: `serversession.cc`, `getServerSession`, `sweepServerSessions`
Kind: P -/
theorem noDeletedReference_iff {keepalive : ℤ} {es : List Event} (hes : Admissible keepalive es) :
    (∀ pre, pre <+: es → NoDeletedReference ((machine keepalive).run pre)) ↔
      (machine keepalive).Always Event.KeepsSources es := by
  have hexact := (machine keepalive).forall_prefix_iff_always (d := Event.KeepsSources)
    (P := fun es => SourcesLive ((machine keepalive).run es) ∧
      NoSelfSuccessor ((machine keepalive).run es))
    ⟨fun source b hb => by simp [machine, ServerSessionManager.new] at hb,
      fun g s hs => by simp [machine, ServerSessionManager.new, session, subscript] at hs⟩
    (fun es e hes he hp => by
      rw [EventMachine.run_concat]
      exact sourcesLive_step_iff (wf_run hes) hp.1 hp.2 e he) es hes
  rw [← hexact]
  refine forall_congr' fun pre => forall_congr' fun hpre => ?_
  have hwf : WF ((machine keepalive).run pre) := wf_run (hes.of_prefix _ hpre)
  exact ⟨fun h => ⟨h.live, h.noSelf⟩, fun h => hwf.noDeletedReference h.1 h.2⟩

/-! ### One flush and one new period -/

/-- A new period that begins before the one before it is flushed.
Source: `serversession.cc`, `getServerSession`, `sweepServerSessions`
Kind: D -/
def handoverRun : List Event :=
  [.receivePing (probe (ascii "a") 0 0) ⟨0, 0⟩ 0, .receivePing (probe (ascii "b") 0 50) ⟨1, 0⟩ 50,
    .handleAlarm 70, .handleAlarm 100]

theorem noDeletedReference_handover :
    NoDeletedReference ((machine 60).run handoverRun) ∧
      ((machine 60).run handoverRun).written.length = 1 := by
  have hadm : Admissible 60 handoverRun := by decide
  exact ⟨(noDeletedReference_iff hadm).mpr (by decide) _ List.prefix_rfl, by decide⟩

/-- The period `a` is flushed by the alarm; the session of the period `b` is then given the address
that the session of `a` had.
Source: `serversession.cc`, `getServerSession`, `sweepServerSessions`
Kind: D -/
def reuseRun : List Event :=
  [.receivePing (probe (ascii "a") 0 0) ⟨0, 0⟩ 0, .handleAlarm 50, .handleAlarm 100,
    .receivePing (probe (ascii "b") 0 100) ⟨0, 0⟩ 100]

/-- **A session that is its own successor**: after the flush `sourceMap` references a deleted
session, and the next period's session takes its place.
Source: `serversession.cc`, `getServerSession`, `sweepServerSessions`
Kind: C -/
theorem session_own_successor :
    Admissible 60 reuseRun ∧
      ¬ SourcesLive ((machine 60).run (reuseRun.take 3)) ∧
      (((machine 60).run reuseRun).session (ascii "b")).map ServerSession.successor =
        some (ascii "b") := by
  decide

end UDPing.Server
