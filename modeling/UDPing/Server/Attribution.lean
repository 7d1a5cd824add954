import UDPing.Client.Guid
import UDPing.Server.Conservation

/-!
# Source attribution

A session is looked up by GUID alone, and its label is fixed by the packet that created it.

* `Attributed`: every report counts only packets of the source it is labelled with, the live
  sessions will do so too, and so every packet received is counted under its own source.
* **`attributed_iff`**: a run ends so exactly when no packet of it carried the GUID of a session
  that another source had created and that was still live (`OwnSession`).
* `guid_collision`: whatever the C library's `rand` is, two processes on two hosts with the same
  `time(0) + getpid()` draw the same GUID, and the second host's packets are counted as the first's.
-/

namespace UDPing.Server

open Lib ServerSessionManager Client

/-! ## The property -/

/-- Every packet is counted under its own source: `reports` and `live` say that a report, or a live
session, has only packets of its label; `counted` that every packet received is in one of these.
Source: `statswriter.h`, `StatsWriterSet`
Kind: D -/
structure Attributed (as : List Arrival) (m : ServerSessionManager) (L : Ledger) : Prop where
  /-- The reports, with their packets. -/
  reports : List.Forall₂ (fun r b => ∀ a ∈ b.2.arrivals, a.peer = r.peer ∧ a.port = r.port)
    m.written L.closed
  /-- The live sessions, with their packets. -/
  live : ∀ g s b, m.session g = some s → L.pending g = some b → ∀ a ∈ b.arrivals,
    a.peer = s.statsWriters.peer ∧ a.port = s.statsWriters.port
  /-- Every packet is in a report or a live session labelled with its source. -/
  counted : ∀ a ∈ as,
    (∃ r b, (r, b) ∈ m.written.zip L.closed ∧ a ∈ b.2.arrivals ∧ r.peer = a.peer ∧
      r.port = a.port) ∨
    ∃ s b, m.session a.ph.guid = some s ∧ L.pending a.ph.guid = some b ∧ a ∈ b.arrivals ∧
      s.statsWriters.peer = a.peer ∧ s.statsWriters.port = a.port

/-- The packet of the event, if its GUID has a live session, comes from the source that created it.
Source: `serversession.cc`, `getServerSession`
Kind: D -/
def OwnSession (m : ServerSessionManager) (e : Event) : Prop :=
  ∀ a ∈ e.arrival?, ∀ s ∈ m.session a.ph.guid,
    s.statsWriters.peer = a.peer ∧ s.statsWriters.port = a.port

instance (m : ServerSessionManager) (e : Event) : Decidable (OwnSession m e) :=
  inferInstanceAs (Decidable (∀ a ∈ e.arrival?, ∀ s ∈ m.session a.ph.guid,
    s.statsWriters.peer = a.peer ∧ s.statsWriters.port = a.port))

/-! ## Uniform batches -/

/-- All packets are of the first one's source. Source: none: abstract model. Kind: D -/
def Batch.Uniform {g : Bytes} (b : Batch g) : Prop :=
  ∀ a ∈ b.arrivals, a.peer = b.first.peer ∧ a.port = b.first.port

/-- All batches are uniform. Source: none: abstract model. Kind: D -/
structure Ledger.Uniform (L : Ledger) : Prop where
  closed : ∀ b ∈ L.closed, b.2.Uniform
  pending : ∀ g b, L.pending g = some b → b.Uniform

namespace Ledger.Uniform

variable {m : ServerSessionManager} {L : Ledger}

/-- Filing a packet keeps the batches uniform exactly when it joins none of another source.
Source: none: abstract model
Kind: L -/
theorem receive_iff (h : L.Uniform) (a : Arrival) :
    (L.receive a).Uniform ↔
      ∀ b, L.pending a.ph.guid = some b → a.peer = b.first.peer ∧ a.port = b.first.port := by
  constructor
  · intro h' b hb
    have hpending := L.pending_receive_self a
    rw [hb, Option.elim_some] at hpending
    exact h'.pending _ _ hpending a (List.mem_append_right b.arrivals (List.mem_singleton_self a))
  · intro hb
    refine ⟨h.closed, fun g b hgb => ?_⟩
    by_cases hg : a.ph.guid = g
    · subst hg
      rw [L.pending_receive_self, Option.some.injEq] at hgb
      rcases hold : L.pending a.ph.guid with _ | b₀
      · rw [hold, Option.elim_none] at hgb
        subst hgb
        intro a' ha'
        rw [List.mem_singleton.mp ha']
        exact ⟨rfl, rfl⟩
      · rw [hold, Option.elim_some] at hgb
        subst hgb
        intro a' ha'
        rw [Batch.arrivals_add, List.mem_append, List.mem_singleton] at ha'
        rcases ha' with ha' | rfl
        · exact h.pending _ b₀ hold a' ha'
        · exact hb b₀ hold
    · rw [L.pending_receive_of_ne hg] at hgb
      exact h.pending g b hgb

/-- A sweep moves batches and changes none. Source: none: abstract model. Kind: L -/
theorem sweepAs_iff (href : Refines m L) (now : Time) :
    (Refines.sweepAs m L now).Uniform ↔ L.Uniform := by
  constructor
  · intro h
    refine ⟨fun b hb => h.closed b (List.mem_append_left _ hb), fun g b hb => ?_⟩
    by_cases hexp : m.expired now g
    · apply h.closed ⟨g, b⟩
      exact List.mem_append_right _
        ((href.mem_swept now g b).mpr ⟨hb, (href.expired_iff hb now).mp hexp⟩)
    · apply h.pending g b
      exact (if_neg hexp).trans hb
  · intro h
    refine ⟨fun b hb => ?_, fun g b hb => ?_⟩
    · rcases List.mem_append.mp hb with hb | hb
      · exact h.closed b hb
      · exact h.pending b.1 b.2 ((href.mem_swept now b.1 b.2).mp hb).1
    · unfold Refines.sweepAs at hb
      dsimp only at hb
      split_ifs at hb
      exact h.pending g b hb

end Ledger.Uniform

/-- The label of a live session is the source of its first packet.
Source: `serversession.cc`, `ServerSession::ServerSession`
Kind: L -/
theorem Refines.label {m : ServerSessionManager} {L : Ledger} (h : Refines m L) {g : Bytes}
    {s : ServerSession} {b : Batch g} (hs : m.session g = some s) (hb : L.pending g = some b) :
    s.statsWriters.peer = b.first.peer ∧ s.statsWriters.port = b.first.port := by
  obtain ⟨b', hb', hsb⟩ := h.pending_of_session hs
  rw [hb, Option.some.injEq] at hb'
  subst hb'
  have hlabel : s.statsWriters = b.session.statsWriters := by
    rw [← hsb]
    rfl
  rw [hlabel, b.session_statsWriters]
  exact ⟨rfl, rfl⟩

/-- One event keeps the batches uniform exactly when its packet joins its own source's session.
Source: `serversession.cc`, `getServerSession`
Kind: P -/
theorem uniform_next_iff {m : ServerSessionManager} {L : Ledger} (href : Refines m L) (hwf : WF m)
    (h : L.Uniform) (e : Event) (he : e.Allocates m) :
    (Ledger.next m L e).Uniform ↔ OwnSession m e := by
  have hquiet : e.arrival? = none → OwnSession m e := by
    intro hnone a ha
    rw [hnone] at ha
    cases ha
  rcases e with ⟨a, mem, now⟩ | now | now
  · have hreceive : (Ledger.next m L (.receivePing a mem now)).Uniform ↔ (L.receive a).Uniform :=
      Ledger.Uniform.sweepAs_iff (href.recordPing hwf a he) now
    rw [hreceive, h.receive_iff]
    simp only [OwnSession, Event.arrival?, Option.mem_def, Option.some.injEq, forall_eq']
    constructor
    · intro hb s hs
      obtain ⟨b, hpending, -⟩ := href.pending_of_session hs
      obtain ⟨hpeer, hport⟩ := href.label hs hpending
      obtain ⟨hpeer', hport'⟩ := hb b hpending
      exact ⟨hpeer.trans hpeer'.symm, hport.trans hport'.symm⟩
    · intro hs b hpending
      obtain ⟨s, hsess, -⟩ := href.session_of_pending hpending
      obtain ⟨hpeer, hport⟩ := href.label hsess hpending
      obtain ⟨hpeer', hport'⟩ := hs s hsess
      exact ⟨hpeer'.symm.trans hpeer, hport'.symm.trans hport⟩
  · refine iff_of_true ?_ (hquiet rfl)
    unfold Ledger.next Event.sweep?
    split_ifs
    · exact (Ledger.Uniform.sweepAs_iff href now).mpr h
    · exact h
  · exact iff_of_true ((Ledger.Uniform.sweepAs_iff href now).mpr h) (hquiet rfl)

/-- **The batches of a run are uniform exactly when every packet joined its own source's session.**
Source: `serversession.cc`, `getServerSession`
Kind: P -/
theorem uniform_ledgerOf_iff {keepalive : ℤ} {es : List Event} (hes : Admissible keepalive es) :
    (∀ pre, pre <+: es → (ledgerOf keepalive pre).Uniform) ↔
      (machine keepalive).Always OwnSession es := by
  refine (machine keepalive).forall_prefix_iff_always
    (P := fun es => (ledgerOf keepalive es).Uniform) ?_ ?_ es hes
  · exact ⟨fun b hb => absurd hb List.not_mem_nil, fun g b hb => by cases hb⟩
  · intro es e hes he h
    rw [ledgerOf_concat]
    exact uniform_next_iff (ledgerOf_spec hes).2 (wf_run hes) h e he

/-! ## The result -/

/-- The partner of a member of the second of two related lists.
Source: none: infrastructure
Kind: L -/
theorem exists_zip_of_mem {α β : Type*} {R : α → β → Prop} {l : List α} {l' : List β}
    (h : List.Forall₂ R l l') {y : β} (hy : y ∈ l') : ∃ x, (x, y) ∈ l.zip l' ∧ R x y := by
  induction h with
  | nil => cases hy
  | @cons x y' l l' hxy _ ih =>
      rw [List.zip_cons_cons]
      rcases List.mem_cons.mp hy with rfl | hy
      · exact ⟨x, List.mem_cons_self, hxy⟩
      · obtain ⟨x', hx', hR⟩ := ih hy
        exact ⟨x', List.mem_cons_of_mem _ hx', hR⟩

/-- Packets are counted under their own sources exactly when the batches are uniform.
Source: `statswriter.h`, `StatsWriterSet`
Kind: L -/
theorem attributed_iff_uniform {keepalive : ℤ} {es : List Event} (hes : Admissible keepalive es) :
    Attributed (arrivals es) ((machine keepalive).run es) (ledgerOf keepalive es) ↔
      (ledgerOf keepalive es).Uniform := by
  obtain ⟨hrun, href⟩ := ledgerOf_spec hes
  constructor
  · intro h
    refine ⟨fun b hb => ?_, fun g b hb => ?_⟩
    · obtain ⟨r, hrb, hr⟩ := exists_zip_of_mem href.reports hb
      have hown := (List.forall₂_iff_zip.mp h.reports).2 hrb
      rw [hr.label.1, hr.label.2] at hown
      exact hown
    · obtain ⟨s, hs, -⟩ := href.session_of_pending hb
      have hown := h.live g s b hs hb
      rw [(href.label hs hb).1, (href.label hs hb).2] at hown
      exact hown
  · intro h
    refine ⟨List.forall₂_iff_zip.mpr ⟨href.reports.length_eq, ?_⟩, ?_, fun a ha => ?_⟩
    · intro r b hrb
      have hr := (List.forall₂_iff_zip.mp href.reports).2 hrb
      rw [hr.label.1, hr.label.2]
      exact h.closed b (List.of_mem_zip hrb).2
    · intro g s b hs hb
      rw [(href.label hs hb).1, (href.label hs hb).2]
      exact h.pending g b hb
    · have hseg : a ∈ ((ledgerOf keepalive es).closedOf a.ph.guid).flatten ++
          (ledgerOf keepalive es).pendingOf a.ph.guid := by
        rw [← hrun.segments]
        exact List.mem_filter.mpr ⟨ha, decide_eq_true rfl⟩
      rcases List.mem_append.mp hseg with hclosed | hpending
      · left
        obtain ⟨as, has, haas⟩ := List.mem_flatten.mp hclosed
        obtain ⟨b, hb, rfl⟩ := List.mem_map.mp has
        have hb' := (List.mem_filter.mp hb).1
        obtain ⟨r, hrb, hr⟩ := exists_zip_of_mem href.reports hb'
        obtain ⟨hpeer, hport⟩ := h.closed b hb' a haas
        exact ⟨r, b, hrb, haas, hr.label.1.trans hpeer.symm, hr.label.2.trans hport.symm⟩
      · right
        unfold Ledger.pendingOf at hpending
        rcases hb : (ledgerOf keepalive es).pending a.ph.guid with _ | b
        · rw [hb] at hpending
          cases hpending
        · rw [hb] at hpending
          obtain ⟨s, hs, -⟩ := href.session_of_pending hb
          obtain ⟨hpeer, hport⟩ := h.pending _ b hb a hpending
          exact ⟨s, b, hs, rfl, hpending, (href.label hs hb).1.trans hpeer.symm,
            (href.label hs hb).2.trans hport.symm⟩

/-- **When every packet is counted under its own source**: at every point of an admissible run
exactly if no packet of the run carried the GUID of a live session that another source had created.
Source: `serversession.cc`, `getServerSession`; `statswriter.cc`
Kind: P -/
theorem attributed_iff {keepalive : ℤ} {es : List Event} (hes : Admissible keepalive es) :
    (∀ pre, pre <+: es →
      Attributed (arrivals pre) ((machine keepalive).run pre) (ledgerOf keepalive pre)) ↔
      (machine keepalive).Always OwnSession es := by
  rw [← uniform_ledgerOf_iff hes]
  exact forall_congr' fun pre => forall_congr' fun hpre =>
    attributed_iff_uniform (hes.of_prefix _ hpre)

/-! ### Two hosts -/

/-- A probe from another host. Source: `protocol.h`, `packet`. Kind: D -/
def probeFrom (peer guid : Bytes) : Arrival := { probe guid 0 0 with peer := peer }

/-- Two hosts, each with its own GUID. Source: none: example. Kind: D -/
def twoHosts : List Event :=
  [.receivePing (probeFrom (ascii "x") (ascii "a")) ⟨0, 0⟩ 0,
    .receivePing (probeFrom (ascii "y") (ascii "b")) ⟨1, 0⟩ 0, .sweep 100]

theorem attributed_twoHosts :
    Attributed (arrivals twoHosts) ((machine 60).run twoHosts) (ledgerOf 60 twoHosts) := by
  have hadm : Admissible 60 twoHosts := by decide
  exact (attributed_iff hadm).mpr (by decide) twoHosts List.prefix_rfl

/-- The host `x` with a client process. Source: `client.cc`, `main`. Kind: D -/
def hostX : ClientProcess := ⟨ascii "x", 1000, 20⟩

/-- The host `y` with a client process, started a second later. Source: `client.cc`, `main`.
Kind: D -/
def hostY : ClientProcess := ⟨ascii "y", 1001, 19⟩

/-- The first packets of the two processes, for the C library's streams `rand`.
Source: `client.cc`, `main`
Kind: D -/
def collisionRun (rand : UInt32 → ℕ → ℕ) : List Event :=
  [.receivePing (probeFrom hostX.peer (hostX.firstGuid rand 0)) ⟨0, 0⟩ 0,
    .receivePing (probeFrom hostY.peer (hostY.firstGuid rand 0)) ⟨1, 0⟩ 0]

/-- The first host's session is live when the second host's packet comes.
Source: `serversession.cc`, `getServerSession`
Kind: L -/
theorem collisionRun_spec (rand : UInt32 → ℕ → ℕ) :
    Admissible 60 (collisionRun rand) ∧ ¬ (machine 60).Always OwnSession (collisionRun rand) := by
  obtain ⟨-, hs, hheap⟩ :=
    new_recordPing 60 (probeFrom hostX.peer (hostX.firstGuid rand 0)) ⟨0, 0⟩
  have hfirst : (machine 60).step (machine 60).init
      (.receivePing (probeFrom hostX.peer (hostX.firstGuid rand 0)) ⟨0, 0⟩ 0) =
      (ServerSessionManager.new 60).recordPing
        (probeFrom hostX.peer (hostX.firstGuid rand 0)) ⟨0, 0⟩ :=
    new_receivePing (show (0 : ℤ) - 60 ≤ 0 by decide) _
  have hseed : hostX.seed = hostY.seed := by decide
  have hguid : hostX.firstGuid rand 0 = hostY.firstGuid rand 0 := by
    unfold ClientProcess.firstGuid
    rw [hseed]
  constructor
  · refine ⟨rfl, ?_, trivial⟩
    rw [hfirst]
    exact hheap 1 (by decide)
  · rintro ⟨-, hown, -⟩
    rw [hfirst] at hown
    have hlive := (hs (hostY.firstGuid rand 0)).trans (if_pos hguid)
    have hpeer := (hown _ rfl _ hlive).1
    rw [ServerSession.absorb_eq] at hpeer
    have hne : hostX.peer ≠ hostY.peer := by decide
    exact hne hpeer

/-- **Two processes can draw one GUID**, whatever the C library's `rand` computes from the seed:
the process `20` started at `1000` on the host `x` and the process `19` started at `1001` on the
host `y` do, and then the packets of the two hosts are counted together.
Source: `client.cc`, `main`; `clientsession.cc`, `generateGuid`; `serversession.cc`,
`getServerSession`
Kind: C -/
theorem guid_collision :
    hostX.peer ≠ hostY.peer ∧ hostX.seed = hostY.seed ∧
      (∀ rand, Admissible 60 (collisionRun rand)) ∧
      ¬ ∃ rand, ∀ pre, pre <+: collisionRun rand →
        Attributed (arrivals pre) ((machine 60).run pre) (ledgerOf 60 pre) := by
  refine ⟨by decide, by decide, fun rand => (collisionRun_spec rand).1, ?_⟩
  rintro ⟨rand, h⟩
  obtain ⟨hadm, hnot⟩ := collisionRun_spec rand
  apply hnot
  apply (uniform_ledgerOf_iff hadm).mp
  intro pre hpre
  exact (attributed_iff_uniform (hadm.of_prefix _ hpre)).mp (h pre hpre)

end UDPing.Server
