import UDPing.Server.Refinement

/-!
# receivePing, interrupted

`SIGALRM` may arrive at any point of `receivePing`; the handler then runs to its end before the next
statement.

* `Pc`: the statement that comes next. `Interrupted`: a manager, where `receivePing` stands, and a
  record of which sessions have been reported and deleted.
* `next`: one statement of `receivePing`, or one step of its sweep at a session (successor rule,
  `writeStats`, `delete`, `erase`). `alarm`: the handler, in one step.
* What reads through a pointer to a deleted session yield is an argument.
* **`uninterrupted`**: without alarms the statements make up `receivePing`.
-/

namespace UDPing.Server

open Lib ServerSessionManager
open Std (ExtTreeMap)

/-! ## Where receivePing stands -/

/-- The statement that comes next, with the variables that are in use. `guid :: rest` are the keys from
the sweep's iterator on.
Source: `serversession.cc`, `receivePing`, `sweepServerSessions`
Kind: D -/
inductive Pc where
  | idle
  | getServerSession (a : Arrival)
  | setLastArrival (a : Arrival) (ds : Ptr)
  | recordSeq (a : Arrival) (ds : Ptr)
  | addDataPoint (a : Arrival) (ds : Ptr)
  | sweep
  | visit (now : Time) (guid : Bytes) (rest : List Bytes)
  | closeGap (now : Time) (guid : Bytes) (rest : List Bytes) (ds : Addr)
  | writeStats (now : Time) (guid : Bytes) (rest : List Bytes) (ds : Addr)
  | delete (now : Time) (guid : Bytes) (rest : List Bytes) (ds : Addr)
  | erase (now : Time) (guid : Bytes) (rest : List Bytes) (ds : Addr)

/-- A manager that is being interrupted. Every session has a serial number, by which the reports and
the deletions are recorded.
Source: none: infrastructure
Kind: D -/
structure Interrupted where
  manager : ServerSessionManager
  pc : Pc
  /-- The number of the session that was put at an address last. -/
  serial : Addr → ℕ
  nextSerial : ℕ
  reported : List ℕ
  deleted : List ℕ

/-- What a statement reads of its surroundings: what the memory does, the clock, and what reading
deleted sessions yields.
Source: none: environment
Kind: D -/
structure Surroundings where
  mem : Memory
  now : Time
  stale : Addr → ServerSession

namespace Interrupted

variable (s : Interrupted) (stale : Addr → ServerSession)

/-- Reading through a pointer. Source: none: environment. Kind: D -/
def read (a : Addr) : ServerSession := (s.manager.heap a).getD (stale a)

/-! ## The sweep's steps at a session -/

/-- `ds->getLastArrival() < now - keepalive`.
Source: `serversession.cc`, `sweepServerSessions`
Kind: D -/
def Expires (now : Time) (a : Addr) : Prop :=
  (s.read stale a).lastArrival < now - s.manager.keepalive

instance (now : Time) (a : Addr) : Decidable (s.Expires stale now a) :=
  inferInstanceAs (Decidable (_ < _))

/-- The successor rule. Source: `serversession.cc`, `sweepServerSessions`. Kind: D -/
def closeGap (ds : Addr) : Interrupted :=
  if (s.read stale ds).successor ∈ s.manager.sessionMap then
    match subscript s.manager.sessionMap (s.read stale ds).successor with
    | some successor =>
        { s with
          manager := s.manager.modify (some ds) fun t =>
            t.recordSeq ((s.read stale successor).minSeq - 1) }
    | none => s
  else s

/-- `ds->writeStats(now)`. Source: `serversession.cc`, `sweepServerSessions`. Kind: D -/
def writeStats (now : Time) (ds : Addr) : Interrupted :=
  { s with
    manager :=
      { s.manager with written := s.manager.written ++ [(s.read stale ds).writeStats now] }
    reported := s.reported ++ [s.serial ds] }

/-- `delete ds`. Source: `serversession.cc`, `sweepServerSessions`. Kind: D -/
def delete (ds : Addr) : Interrupted :=
  { s with
    manager := { s.manager with heap := Function.update s.manager.heap ds none }
    deleted := s.deleted ++ [s.serial ds] }

/-- `sessionMap.erase(it)`. Source: `serversession.cc`, `sweepServerSessions`. Kind: D -/
def erase (guid : Bytes) : Interrupted :=
  { s with manager := { s.manager with sessionMap := s.manager.sessionMap.erase guid } }

/-! ## The handler -/

/-- All steps at one session. Source: `serversession.cc`, `sweepServerSessions`. Kind: D -/
def remove (now : Time) (guid : Bytes) (ds : Addr) : Interrupted :=
  (((s.closeGap stale ds).writeStats stale now ds).delete ds).erase guid

/-- A sweep over the entries from an iterator on, to its end. A null entry stops it.
Source: `serversession.cc`, `sweepServerSessions`
Kind: D
Fidelity: the iterator passes over keys that have been erased -/
def sweepFrom (now : Time) : List Bytes → Interrupted → Interrupted
  | [], s => s
  | guid :: rest, s =>
    match s.manager.sessionMap[guid]? with
    | none => sweepFrom now rest s
    | some none => s
    | some (some ds) =>
      if s.Expires stale now ds then sweepFrom now rest (s.remove stale now guid ds)
      else sweepFrom now rest s

/-- The handler, to its end. Source: `serversession.cc`, `handleAlarm`. Kind: D -/
def alarm (now : Time) : Interrupted :=
  let s :=
    if s.manager.intervalPacketsReceived = 0 then
      sweepFrom stale now s.manager.sessionMap.keys s
    else s
  { s with manager := { s.manager with intervalPacketsReceived := 0 } }

/-! ## The statements of receivePing -/

/-- The first statement of a call. Source: `serversession.cc`, `receivePing`. Kind: D
Fidelity: the server makes one call after the other -/
def call (a : Arrival) : Interrupted :=
  match s.pc with
  | .idle =>
      { s with
        manager :=
          { s.manager with
            intervalPacketsReceived := cInt (s.manager.intervalPacketsReceived + 1) }
        pc := .getServerSession a }
  | _ => s

/-- The iterator on the first of these keys that is stored; `end()` if none is.
Source: `serversession.cc`, `sweepServerSessions`
Kind: D -/
def moveTo (now : Time) (keys : List Bytes) : Interrupted :=
  match keys.dropWhile fun guid => guid ∉ s.manager.sessionMap with
  | [] => { s with pc := .idle }
  | guid :: rest => { s with pc := .visit now guid rest }

/-- The next statement. Source: `serversession.cc`, `receivePing`, `sweepServerSessions`. Kind: D
Fidelity: an iterator to an erased entry would be undefined behaviour; the sweep stops there -/
def next (env : Surroundings) : Interrupted :=
  match s.pc with
  | .idle => s
  | .getServerSession a =>
      let created := a.ph.guid ∉ s.manager.sessionMap
      let (ds, manager) := s.manager.getServerSession a.peer a.port a.ph env.mem
      { s with
        manager
        pc := .setLastArrival a ds
        serial := if created then Function.update s.serial env.mem.addr s.nextSerial else s.serial
        nextSerial := if created then s.nextSerial + 1 else s.nextSerial }
  | .setLastArrival a ds =>
      { s with
        manager := s.manager.modify ds fun t => t.setLastArrival a.stamp
        pc := .recordSeq a ds }
  | .recordSeq a ds =>
      { s with
        manager := s.manager.modify ds fun t => t.recordSeq a.ph.seqNum
        pc := .addDataPoint a ds }
  | .addDataPoint a ds =>
      { s with
        manager := s.manager.modify ds fun t => t.addDataPoint (elapsed a.ph a.rcvd)
        pc := .sweep }
  | .sweep => s.moveTo env.now s.manager.sessionMap.keys
  | .visit now guid rest =>
      match s.manager.sessionMap[guid]? with
      | some (some ds) =>
          if s.Expires env.stale now ds then { s with pc := .closeGap now guid rest ds }
          else s.moveTo now rest
      | _ => { s with pc := .idle }
  | .closeGap now guid rest ds =>
      { s.closeGap env.stale ds with pc := .writeStats now guid rest ds }
  | .writeStats now guid rest ds =>
      { s.writeStats env.stale now ds with pc := .delete now guid rest ds }
  | .delete now guid rest ds => { s.delete ds with pc := .erase now guid rest ds }
  | .erase now guid rest _ => (s.erase guid).moveTo now rest

end Interrupted

/-! ## Runs -/

/-- A call of `receivePing`, its next statement, or an alarm.
Source: `serversession.cc`, `receivePing`, `handleAlarm`
Kind: D -/
inductive Action where
  | call (a : Arrival)
  | next (env : Surroundings)
  | alarm (now : Time) (stale : Addr → ServerSession)

/-- Source: `serversession.cc`, `ServerSessionManager`. Kind: D -/
def Interrupted.step (s : Interrupted) : Action → Interrupted
  | .call a => s.call a
  | .next env => s.next env
  | .alarm now stale => s.alarm stale now

/-- No call has been made. Source: `server.cc`, `main`. Kind: D -/
def Interrupted.new (keepalive : ℤ) : Interrupted where
  manager := ServerSessionManager.new keepalive
  pc := .idle
  serial := fun _ => 0
  nextSerial := 0
  reported := []
  deleted := []

/-- A manager with a given keepalive, interrupted in any way. Source: `server.cc`, `main`. Kind: D -/
def interruptible (keepalive : ℤ) : EventMachine Interrupted Action where
  init := Interrupted.new keepalive
  step := Interrupted.step

/-- `new` returns a free address. Source: none: environment. Kind: D -/
def Action.Allocates (s : Interrupted) : Action → Prop
  | .next env => ∀ a, s.pc = .getServerSession a → s.manager.heap env.mem.addr = none
  | _ => True

/-! ## Tables with a deleted session -/

namespace ServerSessionManager

/-- **Well-formedness, but for one entry**: the session under the GUID `gone`, if one is given, has been
deleted.
Source: `serversession.h`, `sessionMap`
Kind: D -/
structure WFBut (gone : Option Bytes) (m : ServerSessionManager) : Prop where
  nonnull : ∀ g : Bytes, m.sessionMap[g]? ≠ some none
  stored : ∀ (g : Bytes) (a : Addr),
    (m.sessionMap[g]? = some (some a) ∧ gone ≠ some g) ↔ ∃ s, m.heap a = some s ∧ s.guid = g

variable {m : ServerSessionManager} {gone : Option Bytes} {g : Bytes} {a : Addr}

theorem wfBut_none : WFBut none m ↔ WF m := by
  constructor
  · intro h
    refine ⟨h.nonnull, fun g a => ?_⟩
    rw [← h.stored g a]
    simp
  · intro h
    refine ⟨h.nonnull, fun g a => ?_⟩
    rw [← h.stored g a]
    simp

/-- The session of an entry. Source: none: infrastructure. Kind: L -/
theorem WFBut.entry (h : WFBut gone m) (hg : m.sessionMap[g]? = some (some a))
    (hne : gone ≠ some g) : ∃ s, m.heap a = some s ∧ s.guid = g :=
  (h.stored g a).mp ⟨hg, hne⟩

/-- Removing a session that is there. Source: `serversession.cc`, `sweepServerSessions`. Kind: L -/
theorem WFBut.removeSession (h : WFBut gone m) (hg : m.sessionMap[g]? = some (some a))
    (hne : gone ≠ some g) (now : Time) (t : ServerSession) :
    WFBut gone (m.removeSession now g a t) := by
  obtain ⟨s, hs, hsg⟩ := h.entry hg hne
  refine ⟨fun g' => ?_, fun g' b => ?_⟩
  · show (m.sessionMap.erase g)[g']? ≠ some none
    rw [ExtTreeMap.getElem?_erase]
    split_ifs
    · exact Option.some_ne_none none ∘ Eq.symm
    · exact h.nonnull g'
  · show ((m.sessionMap.erase g)[g']? = some (some b) ∧ gone ≠ some g') ↔
      ∃ s', Function.update m.heap a none b = some s' ∧ s'.guid = g'
    rw [ExtTreeMap.getElem?_erase]
    by_cases hgg : g = g'
    · subst hgg
      refine iff_of_false (by simp) ?_
      rintro ⟨s', hs', hsg'⟩
      by_cases hb : b = a
      · simp [hb] at hs'
      · rw [Function.update_of_ne hb] at hs'
        obtain ⟨hentry, -⟩ := (h.stored g b).mpr ⟨s', hs', hsg'⟩
        rw [hg] at hentry
        exact hb (by simpa using hentry.symm)
    · rw [if_neg (by simpa using hgg), h.stored g' b]
      by_cases hb : b = a
      · subst hb
        rw [Function.update_self]
        refine iff_of_false ?_ (by simp)
        rintro ⟨s', hs', hsg'⟩
        rw [hs, Option.some.injEq] at hs'
        exact hgg (by rw [← hsg, hs', hsg'])
      · rw [Function.update_of_ne hb]

end ServerSessionManager

/-! ## Without alarms -/

namespace Interrupted

variable {s : Interrupted} {stale : Addr → ServerSession} {now : Time}

/-- What the successor rule records. Source: `serversession.cc`, `sweepServerSessions`. Kind: D -/
def tailOf (s : Interrupted) (stale : Addr → ServerSession) (ds : Addr) : Option UInt32 :=
  (subscript s.manager.sessionMap (s.read stale ds).successor).map fun successor =>
    (s.read stale successor).minSeq - 1

/-- The successor rule changes its session only. Source: `serversession.cc`, `sweepServerSessions`.
Kind: L -/
theorem closeGap_eq (s : Interrupted) (stale : Addr → ServerSession) (ds : Addr) :
    s.closeGap stale ds =
      { s with manager := s.manager.modify (some ds) (·.closeWith (s.tailOf stale ds)) } := by
  have hid : s.manager.modify (some ds) (·.closeWith none) = s.manager := by
    show { s.manager with heap := Function.update s.manager.heap ds ((s.manager.heap ds).map id) } = _
    rw [Option.map_id, id, Function.update_eq_self]
  unfold closeGap tailOf
  split_ifs with hmem
  · rcases subscript s.manager.sessionMap (s.read stale ds).successor with _ | successor
    · rw [Option.map_none, hid]
    · rfl
  · rw [subscript, ExtTreeMap.getElem?_eq_none hmem]
    show s = { s with manager := s.manager.modify (some ds) (·.closeWith none) }
    rw [hid]

/-- The session as its report finds it. Source: `serversession.cc`, `sweepServerSessions`. Kind: D -/
def closed (s : Interrupted) (stale : Addr → ServerSession) (ds : Addr) : ServerSession :=
  (s.read stale ds).closeWith (if (s.manager.heap ds).isSome then s.tailOf stale ds else none)

/-- **What all steps at a session do**: one report, one deletion, one entry less.
Source: `serversession.cc`, `sweepServerSessions`
Kind: L -/
theorem remove_eq (s : Interrupted) (stale : Addr → ServerSession) (now : Time) (guid : Bytes)
    (ds : Addr) :
    s.remove stale now guid ds =
      { s with
        manager := s.manager.removeSession now guid ds (s.closed stale ds)
        reported := s.reported ++ [s.serial ds]
        deleted := s.deleted ++ [s.serial ds] } := by
  have hread : ({ s with
      manager := s.manager.modify (some ds) (·.closeWith (s.tailOf stale ds)) } : Interrupted).read
      stale ds = s.closed stale ds := by
    unfold read closed ServerSessionManager.modify
    dsimp only
    rw [Function.update_self]
    unfold read
    cases s.manager.heap ds <;> rfl
  unfold remove
  rw [closeGap_eq]
  unfold writeStats delete erase removeSession
  simp only [hread]
  simp only [ServerSessionManager.modify, Function.update_idem]

/-- Where no pointer dangles, the report is that of the manager's sweep.
Source: `serversession.cc`, `sweepServerSessions`
Kind: L -/
theorem closed_eq (hwf : WF s.manager) {ds : Addr} {t : ServerSession}
    (ht : s.manager.heap ds = some t) : s.closed stale ds = s.manager.closeGap t := by
  have hread : s.read stale ds = t := by
    unfold read
    rw [ht]
    rfl
  unfold closed tailOf
  rw [ServerSessionManager.closeGap_eq, hread, ht, session]
  congr 1
  rcases hsub : subscript s.manager.sessionMap t.successor with _ | b
  · rfl
  · obtain ⟨u, hu, -⟩ := (hwf.stored _ b).mp (subscript_eq_some.mp hsub)
    show some ((s.read stale b).minSeq - 1) = Option.map _ (s.manager.heap b)
    unfold read
    rw [hu]
    rfl

/-- Where no pointer dangles, a sweep is that of the manager.
Source: `serversession.cc`, `sweepServerSessions`
Kind: L -/
theorem sweepFrom_manager (entries : List (Bytes × Ptr)) :
    ∀ s : Interrupted, WF s.manager → (entries.map Prod.fst).Nodup →
      (∀ e ∈ entries, s.manager.sessionMap[e.1]? = some e.2) →
        (sweepFrom stale now (entries.map Prod.fst) s).manager =
          ServerSessionManager.sweepFrom now entries s.manager := by
  induction entries with
  | nil => exact fun _ _ _ _ => rfl
  | cons e entries ih =>
      intro s hwf hnodup hentries
      obtain ⟨guid, p⟩ := e
      have hentry : s.manager.sessionMap[guid]? = some p := hentries (guid, p) List.mem_cons_self
      obtain ⟨ds, t, rfl, ht, -⟩ := hwf.entry hentry
      rw [List.map_cons, List.nodup_cons] at hnodup
      have hexpires : s.Expires stale now ds ↔ t.lastArrival < now - s.manager.keepalive := by
        unfold Expires read
        rw [ht]
        rfl
      rw [List.map_cons, sweepFrom, ServerSessionManager.sweepFrom]
      simp only [hentry, ht]
      by_cases hold : t.lastArrival < now - s.manager.keepalive
      · rw [if_pos (hexpires.mpr hold), if_pos hold, ← closed_eq hwf ht, remove_eq]
        refine ih _ ?_ hnodup.2 fun e he => ?_
        · exact wfBut_none.mp ((wfBut_none.mpr hwf).removeSession hentry (by simp) now _)
        · have hne : guid ≠ e.1 := fun hc => hnodup.1 (List.mem_map.mpr ⟨e, he, hc.symm⟩)
          show (s.manager.sessionMap.erase guid)[e.1]? = some e.2
          rw [ExtTreeMap.getElem?_erase, if_neg (by simpa using hne)]
          exact hentries e (List.mem_cons_of_mem _ he)
      · rw [if_neg fun hc => hold (hexpires.mp hc), if_neg hold]
        exact ih s hwf hnodup.2 fun e he => hentries e (List.mem_cons_of_mem _ he)

theorem mem_of_entry {g : Bytes} {p : Ptr} (hg : s.manager.sessionMap[g]? = some p) :
    g ∈ s.manager.sessionMap := by
  rw [ExtTreeMap.mem_iff_isSome_getElem?, hg]
  rfl

/-- The iterator at an entry that is stored. Source: `serversession.cc`, `sweepServerSessions`.
Kind: L -/
theorem moveTo_entry {g : Bytes} {p : Ptr} (hg : s.manager.sessionMap[g]? = some p)
    (rest : List Bytes) : s.moveTo now (g :: rest) = { s with pc := .visit now g rest } := by
  unfold moveTo
  rw [List.dropWhile_cons_of_neg (by simp [mem_of_entry hg])]

/-- The four steps at an expired session. Source: `serversession.cc`, `sweepServerSessions`.
Kind: L -/
theorem next_remove (env : Surroundings) (guid : Bytes) (rest : List Bytes) (ds : Addr) :
    (fun s => s.next env)^[4] { s with pc := .closeGap now guid rest ds } =
      (s.remove env.stale now guid ds).moveTo now rest := by
  have hclose : ({ s with pc := .closeGap now guid rest ds } : Interrupted).next env =
      { s.closeGap env.stale ds with pc := .writeStats now guid rest ds } := by
    rw [closeGap_eq]
    show ({ ({ s with pc := .closeGap now guid rest ds } : Interrupted).closeGap env.stale ds with
      pc := .writeStats now guid rest ds } : Interrupted) = _
    rw [closeGap_eq]
    rfl
  rw [Function.iterate_succ_apply, hclose]
  rfl

/-- **The steps of a sweep make up a sweep.** Source: `serversession.cc`, `sweepServerSessions`.
Kind: P -/
theorem exists_moveTo (env : Surroundings) (keys : List Bytes) :
    ∀ s : Interrupted, ∃ n, (fun s => s.next env)^[n] (s.moveTo now keys) =
      { sweepFrom env.stale now keys s with pc := .idle } := by
  induction keys with
  | nil => exact fun s => ⟨0, rfl⟩
  | cons guid rest ih =>
      intro s
      rw [sweepFrom]
      rcases hentry : s.manager.sessionMap[guid]? with _ | _ | ds
      · have habsent : guid ∉ s.manager.sessionMap := by
          rw [ExtTreeMap.mem_iff_isSome_getElem?, hentry]
          exact Bool.false_ne_true
        have hskip : s.moveTo now (guid :: rest) = s.moveTo now rest := by
          unfold moveTo
          rw [List.dropWhile_cons_of_pos (by simpa using habsent)]
        rw [hskip]
        exact ih s
      · refine ⟨1, ?_⟩
        rw [moveTo_entry hentry]
        show ({ s with pc := .visit now guid rest } : Interrupted).next env = _
        unfold next
        simp only [hentry]
      · have hvisit : ({ s with pc := .visit now guid rest } : Interrupted).next env =
            if s.Expires env.stale now ds then { s with pc := .closeGap now guid rest ds }
            else s.moveTo now rest := by
          unfold next
          simp only [hentry]
          rfl
        rw [moveTo_entry hentry]
        dsimp only
        by_cases hexpires : s.Expires env.stale now ds
        · obtain ⟨n, hn⟩ := ih (s.remove env.stale now guid ds)
          refine ⟨n + 5, ?_⟩
          rw [Function.iterate_add_apply, Function.iterate_succ_apply, hvisit, if_pos hexpires,
            next_remove, hn, if_pos hexpires]
        · obtain ⟨n, hn⟩ := ih s
          refine ⟨n + 1, ?_⟩
          rw [Function.iterate_succ_apply, hvisit, if_neg hexpires, hn, if_neg hexpires]

/-- **Without alarms the statements make up `receivePing`.** Source: `serversession.cc`,
`receivePing`. Kind: P -/
theorem uninterrupted (hwf : WF s.manager) (hidle : s.pc = .idle) (a : Arrival) {env : Surroundings}
    (hfree : s.manager.heap env.mem.addr = none) :
    ∃ n, ((fun s => s.next env)^[n] (s.call a)).pc = .idle ∧
      ((fun s => s.next env)^[n] (s.call a)).manager =
        s.manager.receivePing a env.mem env.now := by
  obtain ⟨manager, pc, serial, nextSerial, reported, deleted⟩ := s
  obtain rfl : pc = .idle := hidle
  have hrecord : WF (manager.recordPing a env.mem) := hwf.recordPing hfree
  obtain ⟨r, hr, hmanager⟩ : ∃ r : Interrupted, (fun s => s.next env)^[5]
      ((⟨manager, .idle, serial, nextSerial, reported, deleted⟩ : Interrupted).call a) =
        r.moveTo env.now r.manager.sessionMap.keys ∧ r.manager = manager.recordPing a env.mem :=
    ⟨_, rfl, rfl⟩
  obtain ⟨n, hn⟩ := exists_moveTo env r.manager.sessionMap.keys r
  refine ⟨n + 5, ?_⟩
  rw [Function.iterate_add_apply, hr, hn]
  refine ⟨rfl, ?_⟩
  show (sweepFrom env.stale env.now r.manager.sessionMap.keys r).manager = _
  rw [← ExtTreeMap.map_fst_toList_eq_keys, sweepFrom_manager _ r (hmanager ▸ hrecord), hmanager]
  · rfl
  · rw [ExtTreeMap.map_fst_toList_eq_keys]
    exact ExtTreeMap.nodup_keys
  · rintro ⟨g, p⟩ he
    exact ExtTreeMap.mem_toList_iff_getElem?_eq_some.mp he

end Interrupted

end UDPing.Server
