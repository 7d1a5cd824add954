import UDPing.Server.Conservation

/-!
# How long a session may be overdue

The alarm handler sweeps only if no packet came since the last alarm.

* `Current t m`: no session of `m` has been silent since before `t - keepalive`. A sweep after `t`
  makes it so, and later events keep it (`current_sweep`, `current_step`).
* `Settled`: a session that was overdue has been reported, or is still the same.
* **`alarm_settles`**: after two alarms in a row no session is overdue that was at the first, and
  each that was has been reported, or a packet for it has come in between.
-/

namespace UDPing.Server

open Lib ServerSessionManager

/-! ## Clock readings -/

/-- The readings of `time(0)` during an event, in order.
Source: `serversession.cc`, `receivePing`, `sweepServerSessions`
Kind: D -/
def Event.readings : Event → List Time
  | .receivePing a _ now => [a.stamp, now]
  | .handleAlarm now => [now]
  | .sweep now => [now]

/-- The readings of a run, in order. Source: none: infrastructure. Kind: D -/
def readings (es : List Event) : List Time := es.flatMap Event.readings

/-- After a reading all later ones are at least as late. Source: none: infrastructure. Kind: L -/
theorem le_of_later {pre post : List Event} {t : Time}
    (hclock : (readings (pre ++ .handleAlarm t :: post)).Pairwise (· ≤ ·)) {e : Event}
    (he : e ∈ post) {now : Time} (hnow : now ∈ e.readings) : t ≤ now := by
  unfold readings at hclock
  rw [List.flatMap_append, List.flatMap_cons] at hclock
  have hlater := (List.pairwise_append.mp hclock).2.1
  exact (List.pairwise_append.mp hlater).2.2 t List.mem_cons_self now
    (List.mem_flatMap.mpr ⟨e, he, hnow⟩)

/-! ## Sessions that are not overdue -/

/-- No session was last heard of before `t - keepalive`. Source: none: specification. Kind: D -/
def Current (t : Time) (m : ServerSessionManager) : Prop :=
  ∀ g s, m.session g = some s → t - m.keepalive ≤ s.lastArrival

variable {m : ServerSessionManager} {t : Time}

theorem keepalive_sweep (h : WF m) (now : Time) :
    (m.sweepServerSessions now).keepalive = m.keepalive := by
  rw [h.sweep_eq]
  rfl

/-- **A sweep leaves no session overdue.** Source: `serversession.cc`, `sweepServerSessions`.
Kind: L -/
theorem current_sweep (h : WF m) {now : Time} (hnow : t ≤ now) :
    Current t (m.sweepServerSessions now) := by
  intro g s hs
  obtain ⟨-, hle⟩ := ((h.sweepExact now).remaining g s).mp hs
  rw [keepalive_sweep h]
  exact (Int.sub_le_sub_right hnow _).trans hle

/-- A later event leaves no session overdue, unless it is an alarm that does not sweep.
Source: `serversession.cc`, `receivePing`, `handleAlarm`
Kind: L -/
theorem current_step (h : WF m) {e : Event} (he : e.Allocates m)
    (hlater : ∀ now ∈ e.readings, t ≤ now)
    (hcurrent : ∀ now, e = .handleAlarm now → m.intervalPacketsReceived = 0 ∨ Current t m) :
    Current t (m.step e) := by
  rcases e with ⟨a, mem, now⟩ | now | now
  · exact current_sweep (h.recordPing he) (hlater now (by simp [Event.readings]))
  · show Current t { (if m.intervalPacketsReceived = 0 then m.sweepServerSessions now else m) with
      intervalPacketsReceived := 0 }
    split_ifs with hzero
    · exact current_sweep h (hlater now (by simp [Event.readings]))
    · exact (hcurrent now rfl).resolve_left hzero
  · exact current_sweep h (hlater now (by simp [Event.readings]))

/-- **Between two alarms**: as long as none of the later events has swept, no packet has come.
Source: `serversession.cc`, `receivePing`, `handleAlarm`
Kind: L -/
theorem current_or_idle {keepalive : ℤ} {pre mid : List Event}
    (hadm : Admissible keepalive (pre ++ .handleAlarm t :: mid))
    (hmid : ∀ e ∈ mid, ∀ now, e ≠ .handleAlarm now)
    (hlater : ∀ e ∈ mid, ∀ now ∈ e.readings, t ≤ now) :
    ((machine keepalive).run (pre ++ .handleAlarm t :: mid)).intervalPacketsReceived = 0 ∨
      Current t ((machine keepalive).run (pre ++ .handleAlarm t :: mid)) := by
  rcases List.eq_nil_or_concat mid with rfl | ⟨mid, e, rfl⟩
  · rw [EventMachine.run_concat]
    exact Or.inl rfl
  · have hsplit : pre ++ .handleAlarm t :: mid.concat e = (pre ++ .handleAlarm t :: mid) ++ [e] := by
      simp
    rw [hsplit] at hadm ⊢
    obtain ⟨hadm, he⟩ := ((machine keepalive).always_concat ..).mp hadm
    have hmem : e ∈ mid.concat e := by simp
    rw [EventMachine.run_concat]
    refine Or.inr (current_step (wf_run hadm) he (hlater e hmem) fun now hnow => ?_)
    exact absurd hnow (hmid e hmem now)

/-! ## Sessions that were overdue -/

/-- The session under `g` is overdue, or it has been reported since `written` was written.
Source: none: specification
Kind: D -/
def Settled (written : List Report) (t : Time) (g : Bytes) (m : ServerSessionManager) : Prop :=
  ∃ rs, m.written = written ++ rs ∧
    ((∃ r ∈ rs, r.guid = g) ∨ ∃ s, m.session g = some s ∧ s.lastArrival < t - m.keepalive)

variable {written : List Report} {g : Bytes}

theorem settled_sweep (h : WF m) (hsettled : Settled written t g m) (now : Time) :
    Settled written t g (m.sweepServerSessions now) := by
  obtain ⟨rs, hwritten, hcase⟩ := hsettled
  obtain ⟨rs', hwritten', -, hreported⟩ := (h.sweepExact now).reported
  refine ⟨rs ++ rs', by rw [hwritten', hwritten, List.append_assoc], ?_⟩
  rcases hcase with ⟨r, hr, hg⟩ | ⟨s, hs, hold⟩
  · exact Or.inl ⟨r, List.mem_append_left _ hr, hg⟩
  · by_cases hleft : g ∈ (m.sweepServerSessions now).sessionMap
    · obtain ⟨s', hs'⟩ := ((h.sweep now).mem_iff g).mp hleft
      obtain ⟨hsame, -⟩ := ((h.sweepExact now).remaining g s').mp hs'
      rw [hs, Option.some.injEq] at hsame
      rw [keepalive_sweep h]
      exact Or.inr ⟨s', hs', hsame ▸ hold⟩
    · obtain ⟨r, hr, hg⟩ := List.mem_map.mp
        ((hreported g).mpr ⟨(h.mem_iff g).mpr ⟨s, hs⟩, hleft⟩)
      exact Or.inl ⟨r, List.mem_append_right _ hr, hg⟩

/-- A packet of another GUID. Source: `serversession.cc`, `receivePing`. Kind: L -/
theorem settled_recordPing (h : WF m) (hsettled : Settled written t g m) {a : Arrival} {mem : Memory}
    (hfree : m.heap mem.addr = none) (hne : a.ph.guid ≠ g) :
    Settled written t g (m.recordPing a mem) := by
  obtain ⟨rs, hwritten, hcase⟩ := hsettled
  refine ⟨rs, by rw [recordPing_written, hwritten], hcase.imp_right ?_⟩
  rintro ⟨s, hs, hold⟩
  rw [recordPing_session_other h hfree hne, recordPing_keepalive, hs]
  split_ifs
  · exact ⟨_, rfl, hold⟩
  · exact ⟨s, rfl, hold⟩

theorem settled_step (h : WF m) (hsettled : Settled written t g m) {e : Event} (he : e.Allocates m)
    (hother : ∀ a, e.arrival? = some a → a.ph.guid ≠ g) : Settled written t g (m.step e) := by
  rcases e with ⟨a, mem, now⟩ | now | now
  · exact settled_sweep (h.recordPing he) (settled_recordPing h hsettled he (hother a rfl)) now
  · show Settled written t g { (if m.intervalPacketsReceived = 0 then m.sweepServerSessions now
      else m) with intervalPacketsReceived := 0 }
    split_ifs
    · exact settled_sweep h hsettled now
    · exact hsettled
  · exact settled_sweep h hsettled now

/-- An overdue session stays or is reported, as long as no packet for it comes.
Source: `serversession.cc`, `sweepServerSessions`
Kind: L -/
theorem settled_run {keepalive : ℤ} {pre post : List Event}
    (hadm : Admissible keepalive (pre ++ post))
    (hsettled : Settled written t g ((machine keepalive).run pre))
    (hother : ∀ a ∈ arrivals post, a.ph.guid ≠ g) :
    Settled written t g ((machine keepalive).run (pre ++ post)) := by
  induction post using List.reverseRecOn with
  | nil => rwa [List.append_nil]
  | append_singleton post e ih =>
      rw [← List.append_assoc] at hadm ⊢
      obtain ⟨hadm, he⟩ := ((machine keepalive).always_concat ..).mp hadm
      rw [arrivals_concat] at hother
      rw [EventMachine.run_concat]
      refine settled_step (wf_run hadm) (ih hadm fun a ha => hother a (List.mem_append_left _ ha)) he
        fun a ha => hother a (List.mem_append_right _ ?_)
      rw [ha]
      exact List.mem_singleton_self a

/-! ## Two alarms in a row -/

/-- **What two alarms in a row settle.** After the second, every session left was heard of since
`t₁ - keepalive`, `t₁` being the time of the first; and every session that was overdue at the first has
been reported, unless a packet with its GUID came in between.
Source: `serversession.cc`, `handleAlarm`, `receivePing`, `sweepServerSessions`
Kind: P -/
theorem alarm_settles {keepalive : ℤ} {pre mid : List Event} {t₁ t₂ : Time}
    (hadm : Admissible keepalive (pre ++ .handleAlarm t₁ :: (mid ++ [.handleAlarm t₂])))
    (hclock : (readings (pre ++ .handleAlarm t₁ :: (mid ++ [.handleAlarm t₂]))).Pairwise (· ≤ ·))
    (hmid : ∀ e ∈ mid, ∀ now, e ≠ .handleAlarm now) {m : ServerSessionManager}
    (hm : m = (machine keepalive).run (pre ++ .handleAlarm t₁ :: (mid ++ [.handleAlarm t₂]))) :
    (∀ g ∈ m.sessionMap, ∃ s, m.session g = some s ∧ t₁ - keepalive ≤ s.lastArrival) ∧
      ∀ g s, ((machine keepalive).run pre).session g = some s → s.lastArrival < t₁ - keepalive →
        (∀ a ∈ arrivals mid, a.ph.guid ≠ g) →
          ∃ rs, m.written = ((machine keepalive).run pre).written ++ rs ∧ ∃ r ∈ rs, r.guid = g := by
  have hlater : ∀ e ∈ mid ++ [.handleAlarm t₂], ∀ now ∈ e.readings, t₁ ≤ now :=
    fun e he now hnow => le_of_later hclock he hnow
  have hwf : WF m := by
    rw [hm]
    exact wf_run hadm
  have hkeep : m.keepalive = keepalive := by
    rw [hm]
    exact keepalive_run hadm
  have hsplit : pre ++ .handleAlarm t₁ :: (mid ++ [.handleAlarm t₂]) =
      (pre ++ .handleAlarm t₁ :: mid) ++ [.handleAlarm t₂] := by simp
  have hcurrent : Current t₁ m := by
    have hadm' := hadm
    rw [hsplit] at hadm'
    obtain ⟨hadm', he⟩ := ((machine keepalive).always_concat ..).mp hadm'
    rw [hm, hsplit, EventMachine.run_concat]
    refine current_step (wf_run hadm') he (hlater _ (by simp)) fun _ _ => ?_
    exact current_or_idle hadm' hmid fun e he => hlater e (List.mem_append_left _ he)
  refine ⟨fun g hg => ?_, fun g s hs hold hother => ?_⟩
  · obtain ⟨s, hs⟩ := (hwf.mem_iff g).mp hg
    exact ⟨s, hs, hkeep ▸ hcurrent g s hs⟩
  · have hpre := keepalive_run (hadm.of_prefix _ (List.prefix_append _ _))
    have hstart : Settled ((machine keepalive).run pre).written t₁ g ((machine keepalive).run pre) :=
      ⟨[], (List.append_nil _).symm, Or.inr ⟨s, hs, hpre.symm ▸ hold⟩⟩
    obtain ⟨rs, hwritten, hreported | ⟨s', hs', hold'⟩⟩ := settled_run hadm hstart (by
      intro a ha
      unfold arrivals at ha hother
      simp only [List.filterMap_cons, Event.arrival?, List.filterMap_append, List.filterMap_nil,
        List.append_nil] at ha
      exact hother a ha)
    · exact ⟨rs, hm ▸ hwritten, hreported⟩
    · rw [← hm] at hs' hold'
      exact absurd (hcurrent g s' hs') (not_le.mpr hold')

/-- The session of `a` has expired at the first alarm, which does not sweep; the packet that comes
next is for `a`, or for `b`.
Source: `serversession.cc`, `receivePing`, `handleAlarm`
Kind: D -/
def overdueRun (g : Bytes) : List Event :=
  [.receivePing (probe (ascii "a") 0 0) ⟨0, 0⟩ 0, .receivePing (probe (ascii "b") 0 50) ⟨1, 0⟩ 50,
    .handleAlarm 70, .receivePing (probe g 1 80) ⟨2, 0⟩ 80, .handleAlarm 140]

theorem alarm_settles_overdueRun :
    (∀ g ∈ ((machine 60).run (overdueRun (ascii "b"))).sessionMap,
      ∃ s, ((machine 60).run (overdueRun (ascii "b"))).session g = some s ∧ 10 ≤ s.lastArrival) ∧
    ∃ r ∈ ((machine 60).run (overdueRun (ascii "b"))).written, r.guid = ascii "a" := by
  obtain ⟨hleft, hgone⟩ := @alarm_settles 60 ((overdueRun (ascii "b")).take 2)
    [.receivePing (probe (ascii "b") 1 80) ⟨2, 0⟩ 80] 70 140 (by decide) (by decide) (by simp) _ rfl
  have hsession : ∃ s, ((machine 60).run ((overdueRun (ascii "b")).take 2)).session (ascii "a") =
      some s ∧ s.lastArrival < 70 - 60 := by decide
  obtain ⟨s, hs, hold⟩ := hsession
  obtain ⟨rs, hwritten, r, hr, hg⟩ := hgone (ascii "a") s hs hold (by decide)
  refine ⟨hleft, r, ?_, hg⟩
  have hall : r ∈ ((machine 60).run ((overdueRun (ascii "b")).take 2)).written ++ rs :=
    List.mem_append_right _ hr
  rwa [← hwritten] at hall

/-- **A session that was overdue need not be reported**: a packet revives it.
Source: `serversession.cc`, `receivePing`, `handleAlarm`
Kind: C -/
theorem overdue_revived :
    Admissible 60 (overdueRun (ascii "a")) ∧
      (readings (overdueRun (ascii "a"))).Pairwise (· ≤ ·) ∧
      ((machine 60).run ((overdueRun (ascii "a")).take 2)).expired 70 (ascii "a") = true ∧
      ((machine 60).run ((overdueRun (ascii "a")).take 3)).expired 70 (ascii "a") = true ∧
      ((machine 60).run (overdueRun (ascii "a"))).written = [] := by
  decide

end UDPing.Server
