import UDPing.Server.Ledger

/-!
# The manager refines the ledger

`Refines m L` ties a manager to a ledger: up to the successor links, the live session under a GUID
is the one its pending batch builds, and the reports written are, in order, reports of the closed
batches. A packet and a sweep of the manager are matched by one of the ledger
(`Refines.recordPing`, `Refines.sweep`), so every admissible run is matched by a run of the ledger
(`ledgerOf_spec`). On the way, `wf_run`: the table stays well formed.
-/

namespace UDPing.Server

open Lib Std ServerSessionManager

/-- A report of a batch: the statistics of its packets, and the window they leave after, perhaps,
one more recorded number.
Source: `serversession.cc`, `sweepServerSessions`, `writeStats`
Kind: D -/
def ReportOf (r : Report) (b : Σ g, Batch g) : Prop :=
  ∃ tail now, r = (b.2.session.closeWith tail).writeStats now

/-- The manager's state shows the ledger's. Source: none: abstract model. Kind: D -/
structure Refines (m : ServerSessionManager) (L : Ledger) : Prop where
  /-- The live sessions are built by the pending batches. -/
  pending : ∀ g, (m.session g).map ServerSession.forget = (L.pending g).map Batch.session
  /-- The reports are those of the closed batches. -/
  reports : List.Forall₂ ReportOf m.written L.closed

namespace Refines

variable {m : ServerSessionManager} {L : Ledger}

/-- The session of a pending batch. Source: none: infrastructure. Kind: L -/
theorem session_of_pending (h : Refines m L) {g : Bytes} {b : Batch g} (hb : L.pending g = some b) :
    ∃ s, m.session g = some s ∧ s.forget = b.session := by
  have hg := h.pending g
  rw [hb] at hg
  exact Option.map_eq_some_iff.mp hg

/-- The pending batch of a session. Source: none: infrastructure. Kind: L -/
theorem pending_of_session (h : Refines m L) {g : Bytes} {s : ServerSession}
    (hs : m.session g = some s) : ∃ b, L.pending g = some b ∧ s.forget = b.session := by
  have hg := h.pending g
  rw [hs] at hg
  obtain ⟨b, hb, hbs⟩ := Option.map_eq_some_iff.mp hg.symm
  exact ⟨b, hb, hbs.symm⟩

/-- A session has expired exactly when its batch has. Source: none: infrastructure. Kind: L -/
theorem expired_iff (h : Refines m L) {g : Bytes} {b : Batch g} (hb : L.pending g = some b)
    (now : Time) : m.expired now g = true ↔ b.Expired m.keepalive now := by
  obtain ⟨s, hs, hsb⟩ := h.session_of_pending hb
  have hlast : s.lastArrival = b.last.stamp := by
    rw [← b.session_lastArrival, ← hsb]
    rfl
  rw [expired, hs, Option.elim_some, decide_eq_true_eq, hlast]
  rfl

/-- The fresh manager shows the empty ledger. Source: none: infrastructure. Kind: L -/
theorem new (keepalive : ℤ) : Refines (ServerSessionManager.new keepalive) Ledger.empty where
  pending := fun g => by
    simp [ServerSessionManager.new, session, subscript, Ledger.empty]
  reports := List.Forall₂.nil

/-- **A packet**: the ledger files it.
Source: `serversession.cc`, `receivePing`
Kind: P -/
theorem recordPing (h : Refines m L) (hwf : WF m) (a : Arrival) {mem : Memory}
    (hfree : m.heap mem.addr = none) : Refines (m.recordPing a mem) (L.receive a) where
  pending := fun g => by
    rw [recordPing_forget hwf hfree]
    by_cases hg : a.ph.guid = g
    · subst hg
      rw [if_pos rfl, h.pending, Ledger.pending_receive_self, Option.map_some]
      cases L.pending a.ph.guid with
      | none => rfl
      | some b => simp only [Option.map_some, Option.getD_some, Option.elim_some, b.session_add]
    · rw [if_neg hg, h.pending, Ledger.pending_receive_of_ne L hg]
  reports := by
    rw [recordPing_written]
    exact h.reports

/-- The entries a sweep removes, as batches. Source: none: infrastructure. Kind: D -/
def swept (m : ServerSessionManager) (L : Ledger) (now : Time) : List (Σ g, Batch g) :=
  (m.sessionMap.toList.filter fun e => m.expired now e.1).filterMap fun e =>
    (L.pending e.1).map (Sigma.mk e.1)

/-- Two lists read off one list, related entry by entry. Source: none: infrastructure. Kind: L -/
theorem forall₂_filterMap {α β γ : Type*} {R : β → γ → Prop} {f : α → Option β} {f' : α → Option γ}
    (l : List α)
    (hR : ∀ x ∈ l, (f x = none ∧ f' x = none) ∨ ∃ y z, f x = some y ∧ f' x = some z ∧ R y z) :
    List.Forall₂ R (l.filterMap f) (l.filterMap f') := by
  induction l with
  | nil => exact List.Forall₂.nil
  | cons x l ih =>
      have ih' := ih fun x' hx' => hR x' (List.mem_cons_of_mem _ hx')
      rcases hR x List.mem_cons_self with ⟨hf, hf'⟩ | ⟨y, z, hf, hf', hyz⟩
      · rw [List.filterMap_cons_none hf, List.filterMap_cons_none hf']
        exact ih'
      · rw [List.filterMap_cons_some hf, List.filterMap_cons_some hf']
        exact List.Forall₂.cons hyz ih'

/-- An entry is swept exactly when its batch is pending and has expired.
Source: none: infrastructure
Kind: L -/
theorem mem_swept (h : Refines m L) (now : Time) (g : Bytes) (b : Batch g) :
    ⟨g, b⟩ ∈ swept m L now ↔ L.pending g = some b ∧ b.Expired m.keepalive now := by
  simp only [swept, List.mem_filterMap, List.mem_filter, Option.map_eq_some_iff]
  constructor
  · rintro ⟨⟨g', p⟩, ⟨-, hexp⟩, b', hb', heq⟩
    obtain ⟨rfl, hbb⟩ := Sigma.mk.inj heq
    obtain rfl := eq_of_heq hbb
    exact ⟨hb', (h.expired_iff hb' now).mp hexp⟩
  · rintro ⟨hb, hexp⟩
    obtain ⟨s, hs, -⟩ := h.session_of_pending hb
    obtain ⟨a, ha, -⟩ := session_eq_some.mp hs
    exact ⟨(g, some a), ⟨ExtTreeMap.mem_toList_iff_getElem?_eq_some.mpr ha,
      (h.expired_iff hb now).mpr hexp⟩, b, hb, rfl⟩

/-- No entry is swept twice. Source: none: infrastructure. Kind: L -/
theorem nodup_swept (m : ServerSessionManager) (L : Ledger) (now : Time) :
    ((swept m L now).map Sigma.fst).Nodup := by
  have hnd : (m.sessionMap.toList.map Prod.fst).Nodup := by
    rw [ExtTreeMap.map_fst_toList_eq_keys]
    exact ExtTreeMap.nodup_keys
  have hsub : ((swept m L now).map Sigma.fst).Sublist (m.sessionMap.toList.map Prod.fst) := by
    have h : ∀ l : List (Bytes × Ptr),
        ((l.filterMap fun e => (L.pending e.1).map (Sigma.mk e.1)).map Sigma.fst).Sublist
          (l.map Prod.fst) := by
      intro l
      induction l with
      | nil => exact List.Sublist.refl _
      | cons e l ih =>
          cases he : L.pending e.1 with
          | none =>
              rw [List.filterMap_cons_none (by rw [he]; rfl)]
              exact ih.cons _
          | some b =>
              rw [List.filterMap_cons_some (b := ⟨e.1, b⟩) (by rw [he]; rfl)]
              exact ih.cons_cons _
    exact (h _).trans (List.filter_sublist.map _)
  exact hnd.sublist hsub

/-- The ledger after the sweep of `m` at `now`. Source: none: abstract model. Kind: D -/
def sweepAs (m : ServerSessionManager) (L : Ledger) (now : Time) : Ledger where
  pending := fun g => if m.expired now g then none else L.pending g
  closed := L.closed ++ swept m L now

/-- **A sweep**: the ledger closes the expired batches, and the manager reports them.
Source: `serversession.cc`, `sweepServerSessions`
Kind: P -/
theorem sweep (h : Refines m L) (hwf : WF m) (now : Time) :
    Ledger.Sweeps m.keepalive now L (sweepAs m L now) (swept m L now) ∧
      Refines (m.sweepServerSessions now) (sweepAs m L now) := by
  refine ⟨⟨rfl, nodup_swept m L now, h.mem_swept now, fun g b => ?_⟩, fun g => ?_, ?_⟩
  · unfold sweepAs
    dsimp only
    constructor
    · intro hb
      split_ifs at hb with hexp
      exact ⟨hb, fun hc => hexp ((h.expired_iff hb now).mpr hc)⟩
    · rintro ⟨hb, hne⟩
      rw [if_neg fun hc => hne ((h.expired_iff hb now).mp hc), hb]
  · rw [hwf.session_sweep]
    unfold sweepAs
    dsimp only
    split_ifs
    · rfl
    · exact h.pending g
  · rw [hwf.sweep_eq]
    refine List.rel_append h.reports (forall₂_filterMap _ fun e he => ?_)
    have hexp := (List.mem_filter.mp he).2
    cases hs : m.session e.1 with
    | none => simp [expired, hs] at hexp
    | some s =>
        obtain ⟨b, hb, hsb⟩ := h.pending_of_session hs
        refine Or.inr ⟨_, ⟨e.1, b⟩, by rw [finalReport, hs]; rfl, by rw [hb]; rfl, ?_⟩
        exact ⟨m.finalTail now e.1 s, now, by
          rw [← hsb, ServerSession.closeWith_forget_writeStats]⟩

end Refines

/-! ## Runs -/

variable {keepalive : ℤ}

/-- The keepalive never changes. Source: `serversession.h`. Kind: L -/
theorem keepalive_step {m : ServerSessionManager} (h : WF m) (e : Event)
    (he : e.Allocates m) : (m.step e).keepalive = m.keepalive := by
  cases e with
  | receivePing a mem now =>
      change ((m.recordPing a mem).sweepServerSessions now).keepalive = _
      rw [(h.recordPing he).sweep_eq]
      exact recordPing_keepalive m a mem
  | handleAlarm now =>
      change (if m.intervalPacketsReceived = 0 then m.sweepServerSessions now else m).keepalive = _
      split_ifs
      · rw [h.sweep_eq]; rfl
      · rfl
  | sweep now =>
      change (m.sweepServerSessions now).keepalive = _
      rw [h.sweep_eq]; rfl

/-- Every event keeps the table well formed. Source: `serversession.cc`. Kind: P -/
theorem wf_step {m : ServerSessionManager} (h : WF m) (e : Event) (he : e.Allocates m) :
    WF (m.step e) := by
  cases e with
  | receivePing a mem now => exact (h.recordPing he).sweep now
  | handleAlarm now =>
      change WF { (if m.intervalPacketsReceived = 0 then m.sweepServerSessions now else m) with
        intervalPacketsReceived := 0 }
      split_ifs
      · exact ⟨(h.sweep now).nonnull, (h.sweep now).stored⟩
      · exact ⟨h.nonnull, h.stored⟩
  | sweep now => exact h.sweep now

/-- **The table of every admissible run is well formed.** Source: `serversession.cc`. Kind: C -/
theorem wf_run {es : List Event} (hes : Admissible keepalive es) :
    WF ((machine keepalive).run es) := by
  refine (machine keepalive).history_induction (P := fun es => WF ((machine keepalive).run es))
    (wf_new keepalive) (fun es e _ he h => ?_) es hes
  rw [EventMachine.run_concat]
  exact wf_step h e he

/-- The keepalive of every admissible run. Source: `serversession.h`. Kind: C -/
theorem keepalive_run {es : List Event} (hes : Admissible keepalive es) :
    ((machine keepalive).run es).keepalive = keepalive := by
  refine (machine keepalive).history_induction
    (P := fun es => ((machine keepalive).run es).keepalive = keepalive) rfl
    (fun es e hes he h => ?_) es hes
  rw [EventMachine.run_concat]
  exact (keepalive_step (wf_run hes) e he).trans h

/-! ## The ledger of a run -/

/-- What an event of the manager `m` does to the ledger.
Source: none: abstract model
Kind: D -/
def Ledger.next (m : ServerSessionManager) (L : Ledger) (e : Event) : Ledger :=
  let L := e.arrival?.elim L L.receive
  (e.sweep? m).elim L fun x => Refines.sweepAs x.1 L x.2

/-- The manager with its ledger. Source: none: abstract model. Kind: D -/
def audited (keepalive : ℤ) : EventMachine (ServerSessionManager × Ledger) Event where
  init := (ServerSessionManager.new keepalive, Ledger.empty)
  step := fun x e => (x.1.step e, Ledger.next x.1 x.2 e)

/-- The ledger of a run. Source: none: abstract model. Kind: D -/
def ledgerOf (keepalive : ℤ) (es : List Event) : Ledger := ((audited keepalive).run es).2

/-- Auditing does not disturb the manager. Source: none: infrastructure. Kind: L -/
theorem audited_fst (keepalive : ℤ) (es : List Event) :
    ((audited keepalive).run es).1 = (machine keepalive).run es := by
  induction es using List.reverseRecOn with
  | nil => rfl
  | append_singleton es e ih =>
      rw [EventMachine.run_concat, EventMachine.run_concat, ← ih]
      rfl

theorem ledgerOf_concat (keepalive : ℤ) (es : List Event) (e : Event) :
    ledgerOf keepalive (es ++ [e]) =
      Ledger.next ((machine keepalive).run es) (ledgerOf keepalive es) e := by
  unfold ledgerOf
  rw [EventMachine.run_concat, ← audited_fst]
  rfl

/-- One event is matched by the ledger. Source: `serversession.cc`. Kind: P -/
theorem Refines.step {m : ServerSessionManager} {L : Ledger} (h : Refines m L) (hwf : WF m)
    (e : Event) (he : e.Allocates m) :
    Ledger.Step m.keepalive L e (Ledger.next m L e) ∧
      Refines (m.step e) (Ledger.next m L e) := by
  rcases e with ⟨a, mem, now⟩ | now | now
  · obtain ⟨hs, hr⟩ := (h.recordPing hwf a he).sweep (hwf.recordPing he) now
    rw [recordPing_keepalive] at hs
    exact ⟨⟨_, hs⟩, hr⟩
  · unfold ServerSessionManager.step handleAlarm Ledger.next Event.sweep?
    by_cases hz : m.intervalPacketsReceived = 0
    · obtain ⟨hs, hr⟩ := h.sweep hwf now
      simp only [if_pos hz]
      exact ⟨Or.inr ⟨_, hs⟩, hr.pending, hr.reports⟩
    · simp only [if_neg hz]
      exact ⟨Or.inl rfl, h.pending, h.reports⟩
  · obtain ⟨hs, hr⟩ := h.sweep hwf now
    exact ⟨⟨_, hs⟩, hr⟩

/-- **The server refines the ledger**: every admissible run of the manager is matched by a run of
the ledger on the same events.
Source: `serversession.cc`
Kind: P -/
theorem ledgerOf_spec {es : List Event} (hes : Admissible keepalive es) :
    Ledger.Run keepalive es (ledgerOf keepalive es) ∧
      Refines ((machine keepalive).run es) (ledgerOf keepalive es) := by
  refine (machine keepalive).history_induction
    (P := fun es => Ledger.Run keepalive es (ledgerOf keepalive es) ∧
      Refines ((machine keepalive).run es) (ledgerOf keepalive es))
    ⟨.empty, .new keepalive⟩ (fun es e hes he ih => ?_) es hes
  obtain ⟨hrun, href⟩ := ih
  obtain ⟨hstep, href'⟩ := href.step (wf_run hes) e he
  rw [keepalive_run hes] at hstep
  rw [EventMachine.run_concat, ledgerOf_concat]
  exact ⟨hrun.step hstep, href'⟩

end UDPing.Server
