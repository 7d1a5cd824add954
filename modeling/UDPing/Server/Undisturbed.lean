import UDPing.Server.Interrupt

/-!
# When an alarm does no harm

* `Undisturbed`: the session that `receivePing` is about to use, and the one under its sweep's
  iterator, are stored, and no session has been reported or deleted twice.
* `Action.Harmless`: an alarm that sweeps finds the session in use not expired.
* `Sound`: what every statement, and every alarm that does no harm, keeps.
* **`undisturbed_iff`**: a run is undisturbed at every point exactly if every alarm is harmless.
-/

namespace UDPing.Server

open Lib ServerSessionManager
open Std (ExtTreeMap)

namespace Pc

/-- The GUID of the session in use: the packet's, or the one under the iterator.
Source: `serversession.cc`, `receivePing`, `sweepServerSessions`
Kind: D -/
def pinned : Pc → Option Bytes
  | idle | getServerSession _ | sweep => none
  | setLastArrival a _ | recordSeq a _ | addDataPoint a _ => some a.ph.guid
  | visit _ guid _ | closeGap _ guid _ _ | writeStats _ guid _ _ | delete _ guid _ _
  | erase _ guid _ _ => some guid

/-- The pointer `ds`, once it has been read.
Source: `serversession.cc`, `receivePing`, `sweepServerSessions`
Kind: D -/
def pointer : Pc → Option Ptr
  | idle | getServerSession _ | sweep | visit _ _ _ => none
  | setLastArrival _ ds | recordSeq _ ds | addDataPoint _ ds => some ds
  | closeGap _ _ _ ds | writeStats _ _ _ ds | delete _ _ _ ds | erase _ _ _ ds => some (some ds)

/-- The GUID of a session that has been deleted and is still stored.
Source: `serversession.cc`, `sweepServerSessions`
Kind: D -/
def gone : Pc → Option Bytes
  | erase _ guid _ _ => some guid
  | _ => none

/-- A session that has been reported and not yet deleted.
Source: `serversession.cc`, `sweepServerSessions`
Kind: D -/
def written : Pc → Option Addr
  | delete _ _ _ ds => some ds
  | _ => none

theorem pinned_of_gone {pc : Pc} {g : Bytes} (h : pc.gone = some g) : pc.pinned = some g := by
  cases pc <;> first | exact h | cases h

theorem pointer_of_gone {pc : Pc} {g : Bytes} (h : pc.gone = some g) : pc.pointer.isSome := by
  cases pc <;> first | rfl | cases h

theorem gone_of_written {pc : Pc} {ds : Addr} (h : pc.written = some ds) :
    pc.gone = none ∧ pc.pinned.isSome ∧ pc.pointer = some (some ds) := by
  cases pc with
  | delete now guid rest a => exact ⟨rfl, rfl, congrArg some h⟩
  | _ => cases h

end Pc

/-! ## The property and the condition -/

/-- The session in use is stored, under its GUID and where the pointer says; every session has been
reported and deleted at most once.
Source: `serversession.cc`, `receivePing`, `sweepServerSessions`
Kind: D -/
structure Undisturbed (s : Interrupted) : Prop where
  stored : ∀ g ∈ s.pc.pinned, g ∈ s.manager.sessionMap ∧
    ∀ ds ∈ s.pc.pointer, ds ≠ none ∧ s.manager.sessionMap[g]? = some ds
  reported : s.reported.Nodup
  deleted : s.deleted.Nodup

/-- The alarm does not sweep, or it finds that the session in use has not expired.
Source: `serversession.cc`, `handleAlarm`
Kind: D -/
def Action.Harmless (s : Interrupted) : Action → Prop
  | .alarm now stale => s.manager.intervalPacketsReceived = 0 →
      ∀ g ∈ s.pc.pinned, ∀ ds ∈ subscript s.manager.sessionMap g, ¬s.Expires stale now ds
  | _ => True

instance (s : Interrupted) : (e : Action) → Decidable (e.Harmless s)
  | .alarm _ _ => inferInstanceAs (Decidable (_ → _))
  | .call _ | .next _ => isTrue trivial

instance (s : Interrupted) : (e : Action) → Decidable (e.Allocates s)
  | .next env =>
      match h : s.pc with
      | .getServerSession _ =>
          decidable_of_iff (s.manager.heap env.mem.addr = none)
            ⟨fun hfree _ _ => hfree, fun hall => hall _ h⟩
      | .idle | .setLastArrival _ _ | .recordSeq _ _ | .addDataPoint _ _ | .sweep | .visit _ _ _
      | .closeGap _ _ _ _ | .writeStats _ _ _ _ | .delete _ _ _ _ | .erase _ _ _ _ =>
          isTrue fun a hc => by rw [h] at hc; cases hc
  | .call _ | .alarm _ _ => isTrue trivial

/-! ## What is kept -/

/-- **The invariant**: the table is well formed but for a session that has just been deleted, the
session in use is stored, and a session in memory has been neither deleted nor, unless that comes next,
reported.
Source: `serversession.cc`, `receivePing`, `sweepServerSessions`
Kind: D -/
structure Sound (s : Interrupted) : Prop where
  table : WFBut s.pc.gone s.manager
  pinned : ∀ g ∈ s.pc.pinned, ∃ ds, s.manager.sessionMap[g]? = some (some ds) ∧
    ∀ p ∈ s.pc.pointer, p = some ds
  dead : ∀ g ∈ s.pc.gone, ∀ ds, s.pc.pointer = some (some ds) → s.manager.heap ds = none
  serial_lt : ∀ a, s.manager.heap a ≠ none → s.serial a < s.nextSerial
  serial_inj : ∀ a b, s.manager.heap a ≠ none → s.manager.heap b ≠ none →
    s.serial a = s.serial b → a = b
  reported_lt : ∀ n ∈ s.reported, n < s.nextSerial
  deleted_lt : ∀ n ∈ s.deleted, n < s.nextSerial
  reported : s.reported.Nodup
  deleted : s.deleted.Nodup
  live_deleted : ∀ a, s.manager.heap a ≠ none → s.serial a ∉ s.deleted
  live_reported : ∀ a, s.manager.heap a ≠ none → s.serial a ∈ s.reported → s.pc.written = some a

/-- A session that is left after a deletion. Source: none: infrastructure. Kind: L -/
theorem live_of_delete {heap : Addr → Option ServerSession} {ds a : Addr}
    (h : Function.update heap ds none a ≠ none) : a ≠ ds ∧ heap a ≠ none := by
  by_cases hne : a = ds
  · simp [hne] at h
  · rw [Function.update_of_ne hne] at h
    exact ⟨hne, h⟩

/-- Source: none: infrastructure. Kind: L -/
theorem lt_of_mem_concat {l : List ℕ} {n m : ℕ} (hl : ∀ k ∈ l, k < m) (hn : n < m) :
    ∀ k ∈ l ++ [n], k < m :=
  List.forall_mem_append.mpr ⟨hl, List.forall_mem_singleton.mpr hn⟩

/-- A session that was there before a new one was stored. Source: none: infrastructure. Kind: L -/
theorem live_of_addSession {m : ServerSessionManager} {a : Arrival} {mem : Memory} {g : Bytes}
    {b : Addr} (h : ((m.addSession a mem).modify (m.predecessorOf a mem)
      fun t => t.setSuccessor g).heap b ≠ none) (hne : b ≠ mem.addr) : m.heap b ≠ none := by
  have hsame : (m.addSession a mem).heap b = m.heap b := Function.update_of_ne hne ..
  rw [modify_heap, hsame] at h
  refine fun hnone => h ?_
  rw [hnone]
  split_ifs <;> rfl

/-- Source: none: infrastructure. Kind: L -/
theorem nodup_concat {l : List ℕ} {n : ℕ} (h : l.Nodup) (hn : n ∉ l) : (l ++ [n]).Nodup := by
  rw [← List.concat_eq_append]
  exact h.concat hn

namespace Sound

variable {s : Interrupted} {stale : Addr → ServerSession} {now : Time} {g : Bytes} {ds : Addr}

theorem undisturbed (h : Sound s) : Undisturbed s where
  stored := by
    intro g hg
    obtain ⟨ds, hentry, hptr⟩ := h.pinned g hg
    refine ⟨Interrupted.mem_of_entry hentry, fun p hp => ?_⟩
    obtain rfl := hptr p hp
    exact ⟨by simp, hentry⟩
  reported := h.reported
  deleted := h.deleted

theorem new (keepalive : ℤ) : Sound (Interrupted.new keepalive) where
  table := wfBut_none.mpr (wf_new keepalive)
  pinned := fun _ hg => by cases hg
  dead := fun _ hg => by cases hg
  serial_lt := fun _ ha => absurd rfl ha
  serial_inj := fun _ _ ha => absurd rfl ha
  reported_lt := fun _ hn => absurd hn List.not_mem_nil
  deleted_lt := fun _ hn => absurd hn List.not_mem_nil
  reported := List.nodup_nil
  deleted := List.nodup_nil
  live_deleted := fun _ ha => absurd rfl ha
  live_reported := fun _ ha => absurd rfl ha

/-- A statement that creates, reports and deletes nothing. Source: none: infrastructure. Kind: L -/
theorem move (h : Sound s) {m : ServerSessionManager} {pc : Pc} (htable : WFBut pc.gone m)
    (hpinned : ∀ g ∈ pc.pinned, ∃ ds, m.sessionMap[g]? = some (some ds) ∧
      ∀ p ∈ pc.pointer, p = some ds)
    (hdead : ∀ g ∈ pc.gone, ∀ ds, pc.pointer = some (some ds) → m.heap ds = none)
    (hlive : ∀ a, m.heap a ≠ none → s.manager.heap a ≠ none)
    (hwritten : s.pc.written = none ∨ pc.written = s.pc.written) :
    Sound { s with manager := m, pc := pc } where
  table := htable
  pinned := hpinned
  dead := hdead
  serial_lt := fun a ha => h.serial_lt a (hlive a ha)
  serial_inj := fun a b ha hb => h.serial_inj a b (hlive a ha) (hlive b hb)
  reported_lt := h.reported_lt
  deleted_lt := h.deleted_lt
  reported := h.reported
  deleted := h.deleted
  live_deleted := fun a ha => h.live_deleted a (hlive a ha)
  live_reported := by
    intro a ha hn
    have hold := h.live_reported a (hlive a ha) hn
    rcases hwritten with hnone | hsame
    · rw [hnone] at hold
      cases hold
    · exact hsame.trans hold

theorem wf (h : Sound s) (hgone : s.pc.gone = none) : WF s.manager := by
  have htable := h.table
  rw [hgone] at htable
  exact wfBut_none.mp htable

/-! ### The statements -/

/-- The sweep goes on to a stored entry, or ends. Source: `serversession.cc`, `sweepServerSessions`.
Kind: L -/
theorem moveTo (h : Sound s) {m : ServerSessionManager} (hwf : WF m)
    (hlive : ∀ a, m.heap a ≠ none → s.manager.heap a ≠ none) (hwritten : s.pc.written = none)
    (keys : List Bytes) : Sound ({ s with manager := m }.moveTo now keys) := by
  have hhead := List.head?_dropWhile_not (fun guid => decide (guid ∉ m.sessionMap)) keys
  unfold Interrupted.moveTo
  dsimp only
  rcases hdrop : keys.dropWhile (fun guid => decide (guid ∉ m.sessionMap)) with _ | ⟨guid, rest⟩
  · exact h.move (wfBut_none.mpr hwf) (fun _ hg => by cases hg) (fun _ hg => by cases hg) hlive
      (Or.inl hwritten)
  · rw [hdrop] at hhead
    refine h.move (wfBut_none.mpr hwf) (fun g hg => ?_) (fun _ hg => by cases hg) hlive
      (Or.inl hwritten)
    obtain rfl : guid = g := Option.some.inj hg
    have hmem : guid ∈ m.sessionMap := by simpa using hhead
    obtain ⟨p, hp⟩ := Option.isSome_iff_exists.mp (ExtTreeMap.mem_iff_isSome_getElem?.mp hmem)
    obtain ⟨ds, -, rfl, -⟩ := hwf.entry hp
    exact ⟨ds, hp, fun _ hptr => by cases hptr⟩

/-- Writing through the pointer to the session in use. Source: `serversession.cc`, `receivePing`.
Kind: L -/
theorem modify (h : Sound s) {p : Ptr} (f : ServerSession → ServerSession)
    (hf : ∀ t, (f t).guid = t.guid) {pc : Pc} (hgone : s.pc.gone = none ∧ pc.gone = none)
    (hwritten : s.pc.written = none)
    (hpinned : ∀ g ∈ pc.pinned, g ∈ s.pc.pinned ∧ pc.pointer = s.pc.pointer) :
    Sound { s with manager := s.manager.modify p f, pc := pc } := by
  refine h.move ?_ (fun g hg => ?_) (fun g hg => ?_) (fun a ha => ?_) (Or.inl hwritten)
  · rw [hgone.2]
    exact wfBut_none.mpr ((h.wf hgone.1).modify p hf)
  · obtain ⟨hg, hptr⟩ := hpinned g hg
    rw [modify_sessionMap, hptr]
    exact h.pinned g hg
  · rw [hgone.2] at hg
    cases hg
  · rw [modify_heap] at ha
    split_ifs at ha
    · exact fun hnone => ha (by rw [hnone]; rfl)
    · exact ha

theorem call (h : Sound s) (a : Arrival) : Sound (s.call a) := by
  unfold Interrupted.call
  rcases hpc : s.pc
  case idle =>
    have hwf := h.wf (by rw [hpc]; rfl)
    refine h.move (wfBut_none.mpr ⟨hwf.nonnull, hwf.stored⟩) (fun _ hg => by cases hg)
      (fun _ hg => by cases hg) (fun _ ha => ha) (Or.inl ?_)
    rw [hpc]
    rfl
  all_goals exact h

/-- The session that `receivePing` gets is stored. Source: `serversession.cc`, `getServerSession`.
Kind: L -/
theorem getServerSession (h : Sound s) {a : Arrival} (hpc : s.pc = .getServerSession a)
    {env : Surroundings} (hfree : s.manager.heap env.mem.addr = none) : Sound (s.next env) := by
  have hwf := h.wf (by rw [hpc]; rfl)
  have hwritten : s.pc.written = none := by
    rw [hpc]
    rfl
  unfold Interrupted.next
  rw [hpc]
  dsimp only
  by_cases hmem : a.ph.guid ∈ s.manager.sessionMap
  · rw [getServerSession_of_mem _ hmem, if_neg (not_not.mpr hmem), if_neg (not_not.mpr hmem)]
    obtain ⟨p, hp⟩ := Option.isSome_iff_exists.mp (ExtTreeMap.mem_iff_isSome_getElem?.mp hmem)
    obtain ⟨ds, -, rfl, -⟩ := hwf.entry hp
    refine h.move (wfBut_none.mpr hwf) (fun g hg => ⟨ds, ?_, fun p' hp' => ?_⟩)
      (fun _ hg => by cases hg) (fun _ ha => ha) (Or.inl hwritten)
    · obtain rfl : a.ph.guid = g := Option.some.inj hg
      exact hp
    · rw [← Option.some.inj hp']
      exact subscript_eq_some.mpr hp
  · rw [getServerSession_of_not_mem _ hmem, if_pos hmem, if_pos hmem]
    -- a session in memory is the new one, with the new number, or an old one with its own
    have hserial : ∀ b, ((s.manager.addSession a env.mem).modify (s.manager.predecessorOf a env.mem)
        fun t => t.setSuccessor a.ph.guid).heap b ≠ none →
          b = env.mem.addr ∧
              Function.update s.serial env.mem.addr s.nextSerial b = s.nextSerial ∨
            s.manager.heap b ≠ none ∧
              Function.update s.serial env.mem.addr s.nextSerial b = s.serial b := by
      intro b hb
      by_cases hne : b = env.mem.addr
      · subst hne
        exact Or.inl ⟨rfl, Function.update_self ..⟩
      · exact Or.inr ⟨live_of_addSession hb hne, Function.update_of_ne hne ..⟩
    refine ⟨?_, fun g hg => ⟨env.mem.addr, ?_, fun p hp => (Option.some.inj hp).symm⟩,
      fun _ hg => (by cases hg), fun b hb => ?_, fun b c hb hc hbc => ?_,
      fun n hn => (h.reported_lt n hn).trans (Nat.lt_succ_self _),
      fun n hn => (h.deleted_lt n hn).trans (Nat.lt_succ_self _), h.reported, h.deleted,
      fun b hb hn => ?_, fun b hb hn => ?_⟩
    · exact wfBut_none.mpr ((hwf.addSession hfree hmem).modify _ fun t => t.setSuccessor_guid _)
    · obtain rfl : a.ph.guid = g := Option.some.inj hg
      rw [modify_sessionMap]
      exact ExtTreeMap.getElem?_insert_self
    · show Function.update s.serial env.mem.addr s.nextSerial b < s.nextSerial + 1
      rcases hserial b hb with ⟨-, hnumber⟩ | ⟨hlive, hnumber⟩
      · rw [hnumber]
        exact Nat.lt_succ_self _
      · rw [hnumber]
        exact (h.serial_lt b hlive).trans (Nat.lt_succ_self _)
    · have hbc : Function.update s.serial env.mem.addr s.nextSerial b =
        Function.update s.serial env.mem.addr s.nextSerial c := hbc
      rcases hserial b hb with ⟨hnew, hnumber⟩ | ⟨hliveb, hnumber⟩ <;>
        rcases hserial c hc with ⟨hnew', hnumber'⟩ | ⟨hlivec, hnumber'⟩ <;>
        rw [hnumber, hnumber'] at hbc
      · exact hnew.trans hnew'.symm
      · exact absurd hbc (h.serial_lt c hlivec).ne'
      · exact absurd hbc (h.serial_lt b hliveb).ne
      · exact h.serial_inj b c hliveb hlivec hbc
    · have hn : Function.update s.serial env.mem.addr s.nextSerial b ∈ s.deleted := hn
      rcases hserial b hb with ⟨-, hnumber⟩ | ⟨hlive, hnumber⟩ <;> rw [hnumber] at hn
      · exact absurd (h.deleted_lt _ hn) (Nat.lt_irrefl _)
      · exact h.live_deleted b hlive hn
    · have hn : Function.update s.serial env.mem.addr s.nextSerial b ∈ s.reported := hn
      rcases hserial b hb with ⟨-, hnumber⟩ | ⟨hlive, hnumber⟩ <;> rw [hnumber] at hn
      · exact absurd (h.reported_lt _ hn) (Nat.lt_irrefl _)
      · have hold := h.live_reported b hlive hn
        rw [hwritten] at hold
        cases hold

/-- One report more. Source: `serversession.cc`, `sweepServerSessions`. Kind: L -/
theorem writeStats (h : Sound s) {guid : Bytes} {rest : List Bytes}
    (hpc : s.pc = .writeStats now guid rest ds) {env : Surroundings} : Sound (s.next env) := by
  have hwf := h.wf (by rw [hpc]; rfl)
  obtain ⟨ds', hentry, hptr⟩ := h.pinned guid (by rw [hpc]; rfl)
  obtain rfl : ds = ds' := Option.some.inj (hptr (some ds) (by rw [hpc]; rfl))
  obtain ⟨t, ht, -⟩ := (hwf.stored guid ds).mp hentry
  have hlive : s.manager.heap ds ≠ none := by simp [ht]
  have hnew : s.serial ds ∉ s.reported := by
    intro hn
    have hold := h.live_reported ds hlive hn
    rw [hpc] at hold
    cases hold
  unfold Interrupted.next
  rw [hpc]
  refine ⟨wfBut_none.mpr ⟨hwf.nonnull, hwf.stored⟩, fun g hg => ⟨ds, ?_, fun p hp => ?_⟩,
    fun _ hg => (by cases hg), h.serial_lt, h.serial_inj, fun n hn => ?_, h.deleted_lt, ?_, h.deleted,
    h.live_deleted, fun a ha hn => ?_⟩
  · obtain rfl : guid = g := Option.some.inj hg
    exact hentry
  · exact (Option.some.inj hp).symm
  · exact lt_of_mem_concat h.reported_lt (h.serial_lt ds hlive) n hn
  · exact nodup_concat h.reported hnew
  · rcases List.mem_append.mp hn with hn | hn
    · have hold := h.live_reported a ha hn
      rw [hpc] at hold
      cases hold
    · exact congrArg some (h.serial_inj ds a hlive ha (List.mem_singleton.mp hn).symm)

/-- What is left after a deletion has not been deleted. Source: none: infrastructure. Kind: L -/
theorem live_delete (h : Sound s) {ds a : Addr} (hlive : s.manager.heap ds ≠ none)
    (ha : Function.update s.manager.heap ds none a ≠ none) :
    s.serial a ∉ s.deleted ++ [s.serial ds] := by
  obtain ⟨hne, hlive'⟩ := live_of_delete ha
  intro hn
  rcases List.mem_append.mp hn with hn | hn
  · exact h.live_deleted a hlive' hn
  · exact hne (h.serial_inj a ds hlive' hlive (List.mem_singleton.mp hn))

/-- One deletion more. Source: `serversession.cc`, `sweepServerSessions`. Kind: L -/
theorem delete (h : Sound s) {guid : Bytes} {rest : List Bytes}
    (hpc : s.pc = .delete now guid rest ds) {env : Surroundings} : Sound (s.next env) := by
  have hwf := h.wf (by rw [hpc]; rfl)
  obtain ⟨ds', hentry, hptr⟩ := h.pinned guid (by rw [hpc]; rfl)
  obtain rfl : ds = ds' := Option.some.inj (hptr (some ds) (by rw [hpc]; rfl))
  obtain ⟨t, ht, htg⟩ := (hwf.stored guid ds).mp hentry
  have hlive : s.manager.heap ds ≠ none := by simp [ht]
  unfold Interrupted.next
  rw [hpc]
  refine ⟨⟨hwf.nonnull, fun g a => ?_⟩, fun g hg => ⟨ds, ?_, fun p hp => (Option.some.inj hp).symm⟩,
    fun g hg ds' hds' => ?_, fun a ha => h.serial_lt a (live_of_delete ha).2,
    fun a b ha hb => h.serial_inj a b (live_of_delete ha).2 (live_of_delete hb).2, h.reported_lt,
    fun n hn => ?_,
    h.reported, ?_, fun a ha hn => ?_, fun a ha hn => ?_⟩
  · show (s.manager.sessionMap[g]? = some (some a) ∧ some guid ≠ some g) ↔
      ∃ t', Function.update s.manager.heap ds none a = some t' ∧ t'.guid = g
    rw [hwf.stored g a]
    by_cases ha : a = ds
    · subst ha
      rw [Function.update_self]
      refine iff_of_false ?_ (by simp)
      rintro ⟨⟨t', ht', htg'⟩, hne⟩
      rw [ht, Option.some.injEq] at ht'
      exact hne (by rw [← htg, ht', htg'])
    · rw [Function.update_of_ne ha]
      refine and_iff_left_of_imp ?_
      rintro ⟨t', ht', htg'⟩ hg
      exact ha (hwf.addr_unique ht' ht (by rw [htg', htg, Option.some.inj hg]))
  · obtain rfl : guid = g := Option.some.inj hg
    exact hentry
  · obtain rfl : ds = ds' := Option.some.inj (Option.some.inj hds')
    exact Function.update_self ..
  · exact lt_of_mem_concat h.deleted_lt (h.serial_lt ds hlive) n hn
  · exact nodup_concat h.deleted (h.live_deleted ds hlive)
  · exact h.live_delete hlive ha hn
  · obtain ⟨hne, hlive'⟩ := live_of_delete ha
    have hold := h.live_reported a hlive' hn
    rw [hpc] at hold
    exact absurd (Option.some.inj hold).symm hne

/-- The entry of the deleted session goes. Source: `serversession.cc`, `sweepServerSessions`.
Kind: L -/
theorem erase (h : Sound s) {guid : Bytes} {rest : List Bytes}
    (hpc : s.pc = .erase now guid rest ds) {env : Surroundings} : Sound (s.next env) := by
  have htable := h.table
  rw [hpc] at htable
  have hwf : WF { s.manager with sessionMap := s.manager.sessionMap.erase guid } := by
    refine ⟨fun g => ?_, fun g a => ?_⟩
    · show (s.manager.sessionMap.erase guid)[g]? ≠ some none
      rw [ExtTreeMap.getElem?_erase]
      split_ifs
      · exact Option.some_ne_none none ∘ Eq.symm
      · exact htable.nonnull g
    · show (s.manager.sessionMap.erase guid)[g]? = some (some a) ↔ ∃ t, s.manager.heap a = some t ∧ _
      rw [← htable.stored g a, ExtTreeMap.getElem?_erase]
      by_cases hg : guid = g
      · simp [hg, Pc.gone]
      · simp [hg, Pc.gone]
  unfold Interrupted.next
  rw [hpc]
  exact h.moveTo hwf (fun _ ha => ha) (by rw [hpc]; rfl) rest

/-- **Every statement keeps the invariant.** Source: `serversession.cc`, `receivePing`. Kind: P -/
theorem next (h : Sound s) {env : Surroundings} (hfree : (Action.next env).Allocates s) :
    Sound (s.next env) := by
  rcases hpc : s.pc with _ | a | ⟨a, p⟩ | ⟨a, p⟩ | ⟨a, p⟩ | _ | ⟨now, g, rest⟩ | ⟨now, g, rest, ds⟩ |
    ⟨now, g, rest, ds⟩ | ⟨now, g, rest, ds⟩ | ⟨now, g, rest, ds⟩
  case getServerSession => exact h.getServerSession hpc (hfree a hpc)
  case writeStats => exact h.writeStats hpc
  case delete => exact h.delete hpc
  case erase => exact h.erase hpc
  all_goals
    have hgone : s.pc.gone = none := by rw [hpc]; rfl
    have hwritten : s.pc.written = none := by rw [hpc]; rfl
    unfold Interrupted.next
    rw [hpc]
  case idle => exact h
  case setLastArrival =>
    exact h.modify (fun t => t.setLastArrival a.stamp) (fun _ => rfl) ⟨hgone, rfl⟩ hwritten
      fun g hg => by rw [hpc]; exact ⟨hg, rfl⟩
  case recordSeq =>
    exact h.modify (fun t => t.recordSeq a.ph.seqNum) (fun t => t.recordSeq_guid a.ph.seqNum)
      ⟨hgone, rfl⟩ hwritten fun g hg => by rw [hpc]; exact ⟨hg, rfl⟩
  case addDataPoint =>
    exact h.modify (fun t => t.addDataPoint (elapsed a.ph a.rcvd)) (fun _ => rfl) ⟨hgone, rfl⟩ hwritten
      fun g hg => by cases hg
  case sweep => exact h.moveTo (h.wf hgone) (fun _ ha => ha) hwritten _
  case visit =>
    obtain ⟨ds, hentry, -⟩ := h.pinned g (by rw [hpc]; rfl)
    simp only [hentry]
    split_ifs
    · refine h.move (wfBut_none.mpr (h.wf hgone)) (fun g' hg => ⟨ds, ?_, fun p hp => ?_⟩)
        (fun _ hg => by cases hg) (fun _ ha => ha) (Or.inl hwritten)
      · obtain rfl : g = g' := Option.some.inj hg
        exact hentry
      · exact (Option.some.inj hp).symm
    · exact h.moveTo (h.wf hgone) (fun _ ha => ha) hwritten rest
  case closeGap =>
    show Sound { s.closeGap env.stale ds with pc := .writeStats now g rest ds }
    rw [Interrupted.closeGap_eq]
    show Sound { s with
      manager := s.manager.modify (some ds) fun t => t.closeWith (s.tailOf env.stale ds)
      pc := .writeStats now g rest ds }
    exact h.modify (fun t => t.closeWith (s.tailOf env.stale ds)) (fun t => t.closeWith_guid _)
      ⟨hgone, rfl⟩ hwritten fun g hg => by rw [hpc]; exact ⟨hg, rfl⟩

/-! ### The handler -/

/-- The handler removes a session that is not in use. Source: `serversession.cc`,
`sweepServerSessions`. Kind: L -/
theorem remove (h : Sound s) {guid : Bytes} (hentry : s.manager.sessionMap[guid]? = some (some ds))
    (hother : s.pc.pinned ≠ some guid) : Sound (s.remove stale now guid ds) := by
  have hgone : s.pc.gone ≠ some guid := fun hc => hother (Pc.pinned_of_gone hc)
  obtain ⟨t, ht, htg⟩ := h.table.entry hentry hgone
  have hlive : s.manager.heap ds ≠ none := by simp [ht]
  have hnew : s.serial ds ∉ s.reported := by
    intro hn
    obtain ⟨hgone', hpinned, hptr⟩ := Pc.gone_of_written (h.live_reported ds hlive hn)
    obtain ⟨g, hg⟩ := Option.isSome_iff_exists.mp hpinned
    obtain ⟨ds', hentry', hsame⟩ := h.pinned g hg
    obtain rfl : ds = ds' := Option.some.inj (hsame _ hptr)
    obtain ⟨t', ht', htg'⟩ := h.table.entry hentry' (by rw [hgone']; simp)
    rw [ht, Option.some.injEq] at ht'
    exact hother (by rw [hg, ← htg', ← ht', htg])
  rw [Interrupted.remove_eq]
  refine ⟨h.table.removeSession hentry hgone now _, fun g hg => ?_, fun g hg ds' hds' => ?_,
    fun a ha => h.serial_lt a (live_of_delete ha).2,
    fun a b ha hb => h.serial_inj a b (live_of_delete ha).2 (live_of_delete hb).2,
    fun n hn => ?_, fun n hn => ?_,
    ?_, ?_, fun a ha hn => ?_, fun a ha hn => ?_⟩
  · obtain ⟨ds', hentry', hsame⟩ := h.pinned g hg
    refine ⟨ds', ?_, hsame⟩
    show (s.manager.sessionMap.erase guid)[g]? = some (some ds')
    rw [ExtTreeMap.getElem?_erase, if_neg, hentry']
    intro hc
    exact hother (by rw [hg, Std.compare_eq_iff_eq.mp hc])
  · by_contra hne
    exact (live_of_delete hne).2 (h.dead g hg ds' hds')
  · exact lt_of_mem_concat h.reported_lt (h.serial_lt ds hlive) n hn
  · exact lt_of_mem_concat h.deleted_lt (h.serial_lt ds hlive) n hn
  · exact nodup_concat h.reported hnew
  · exact nodup_concat h.deleted (h.live_deleted ds hlive)
  · exact h.live_delete hlive ha hn
  · obtain ⟨hne, hlive'⟩ := live_of_delete ha
    rcases List.mem_append.mp hn with hn | hn
    · exact h.live_reported a hlive' hn
    · exact absurd (h.serial_inj a ds hlive' hlive (List.mem_singleton.mp hn)) hne

/-- A removal leaves the session in use as it is. Source: `serversession.cc`, `sweepServerSessions`.
Kind: L -/
theorem expires_remove (h : Sound s) {guid g : Bytes} {ds' : Addr}
    (hentry : s.manager.sessionMap[guid]? = some (some ds)) (hother : s.pc.pinned ≠ some guid)
    (hg : s.pc.pinned = some g) (hentry' : s.manager.sessionMap[g]? = some (some ds')) :
    (s.remove stale now guid ds).pc = s.pc ∧
      (s.remove stale now guid ds).manager.sessionMap[g]? = some (some ds') ∧
      ((s.remove stale now guid ds).Expires stale now ds' ↔ s.Expires stale now ds') := by
  obtain ⟨t, ht, htg⟩ := h.table.entry hentry fun hc => hother (Pc.pinned_of_gone hc)
  have hne : ds' ≠ ds := by
    rintro rfl
    by_cases hgone : s.pc.gone = some g
    · -- the session under `g` has been deleted
      obtain ⟨ds, hentry'', hsame⟩ := h.pinned g hg
      obtain ⟨p, hp⟩ := Option.isSome_iff_exists.mp (Pc.pointer_of_gone hgone)
      rw [hentry', Option.some.injEq] at hentry''
      rw [hsame p hp, ← hentry''] at hp
      rw [h.dead g hgone ds' hp] at ht
      cases ht
    · obtain ⟨t', ht', htg'⟩ := h.table.entry hentry' hgone
      rw [ht, Option.some.injEq] at ht'
      exact hother (by rw [hg, ← htg', ← ht', htg])
  rw [Interrupted.remove_eq]
  refine ⟨rfl, ?_, ?_⟩
  · show (s.manager.sessionMap.erase guid)[g]? = some (some ds')
    rw [ExtTreeMap.getElem?_erase, if_neg, hentry']
    intro hc
    exact hother (by rw [hg, Std.compare_eq_iff_eq.mp hc])
  · unfold Interrupted.Expires Interrupted.read
    show ((Function.update s.manager.heap ds none ds').getD (stale ds')).lastArrival < _ ↔ _
    rw [Function.update_of_ne hne]
    exact Iff.rfl

/-- **A sweep of the handler that finds the session in use not expired.**
Source: `serversession.cc`, `sweepServerSessions`
Kind: P -/
theorem sweepFrom (keys : List Bytes) :
    ∀ s : Interrupted, Sound s →
      (∀ g ∈ s.pc.pinned, ∀ ds ∈ subscript s.manager.sessionMap g, ¬s.Expires stale now ds) →
        Sound (Interrupted.sweepFrom stale now keys s) := by
  induction keys with
  | nil => exact fun _ h _ => h
  | cons guid rest ih =>
      intro s h hspared
      rw [Interrupted.sweepFrom]
      rcases hentry : s.manager.sessionMap[guid]? with _ | _ | ds
      · exact ih s h hspared
      · exact h
      · dsimp only
        split_ifs with hexpires
        · have hother : s.pc.pinned ≠ some guid := fun hpinned =>
            hspared guid hpinned ds (subscript_eq_some.mpr hentry) hexpires
          refine ih _ (h.remove hentry hother) fun g hg ds' hds' => ?_
          have hpinned : s.pc.pinned = some g := by
            rw [Interrupted.remove_eq] at hg
            exact hg
          obtain ⟨ds'', hentry', -⟩ := h.pinned g hpinned
          obtain ⟨-, hkept, hiff⟩ := h.expires_remove hentry hother hpinned hentry'
          obtain rfl : ds'' = ds' := by
            have hsub := subscript_eq_some.mpr hkept
            rw [hds'] at hsub
            exact (Option.some.inj hsub).symm
          rw [hiff]
          exact hspared g hpinned ds'' (subscript_eq_some.mpr hentry')
        · exact ih s h hspared

/-- A sweep adds no entries. Source: `serversession.cc`, `sweepServerSessions`. Kind: L -/
theorem sweepFrom_absent {g : Bytes} (keys : List Bytes) :
    ∀ s : Interrupted, g ∉ s.manager.sessionMap →
      g ∉ (Interrupted.sweepFrom stale now keys s).manager.sessionMap := by
  induction keys with
  | nil => exact fun _ h => h
  | cons guid rest ih =>
      intro s h
      rw [Interrupted.sweepFrom]
      rcases s.manager.sessionMap[guid]? with _ | _ | ds
      · exact ih s h
      · exact h
      · dsimp only
        split_ifs
        · refine ih _ ?_
          rw [Interrupted.remove_eq]
          exact fun hmem => h (ExtTreeMap.mem_of_mem_erase hmem)
        · exact ih s h

theorem sweepFrom_pc (keys : List Bytes) :
    ∀ s : Interrupted, (Interrupted.sweepFrom stale now keys s).pc = s.pc := by
  induction keys with
  | nil => exact fun _ => rfl
  | cons guid rest ih =>
      intro s
      rw [Interrupted.sweepFrom]
      rcases s.manager.sessionMap[guid]? with _ | _ | ds
      · exact ih s
      · rfl
      · dsimp only
        split_ifs
        · rw [ih, Interrupted.remove_eq]
        · exact ih s

/-- **A sweep of the handler removes the session in use** if it has expired.
Source: `serversession.cc`, `sweepServerSessions`
Kind: P -/
theorem sweepFrom_pinned {g : Bytes} (keys : List Bytes) :
    ∀ s : Interrupted, Sound s → s.pc.pinned = some g → g ∈ keys →
      (∃ ds ∈ subscript s.manager.sessionMap g, s.Expires stale now ds) →
        g ∉ (Interrupted.sweepFrom stale now keys s).manager.sessionMap := by
  induction keys with
  | nil => exact fun _ _ _ hg => absurd hg List.not_mem_nil
  | cons guid rest ih =>
      rintro s h hpinned hg ⟨ds, hds, hexpires⟩
      have hentry := subscript_eq_some.mp hds
      rw [Interrupted.sweepFrom]
      by_cases hsame : guid = g
      · subst hsame
        simp only [hentry, if_pos hexpires]
        apply sweepFrom_absent
        rw [Interrupted.remove_eq]
        show guid ∉ s.manager.sessionMap.erase guid
        simp
      · have hrest : g ∈ rest := (List.mem_cons.mp hg).resolve_left (Ne.symm hsame)
        have hother : s.pc.pinned ≠ some guid := fun hc =>
          hsame (Option.some.inj (hc.symm.trans hpinned))
        rcases hentry' : s.manager.sessionMap[guid]? with _ | _ | ds'
        · exact ih s h hpinned hrest ⟨ds, hds, hexpires⟩
        · exact absurd hentry' (h.table.nonnull guid)
        · dsimp only
          split_ifs
          · obtain ⟨hpc, hkept, hiff⟩ := @expires_remove s stale now ds' h guid g ds hentry' hother
              hpinned hentry
            refine ih _ (h.remove hentry' hother) (by rw [hpc]; exact hpinned) hrest
              ⟨ds, subscript_eq_some.mpr hkept, hiff.mpr hexpires⟩
          · exact ih s h hpinned hrest ⟨ds, hds, hexpires⟩

/-- A harmless alarm keeps the invariant. Source: `serversession.cc`, `handleAlarm`. Kind: P -/
theorem alarm (h : Sound s) (hharmless : (Action.alarm now stale).Harmless s) :
    Sound (s.alarm stale now) := by
  have hreset : ∀ s : Interrupted, Sound s →
      Sound { s with manager := { s.manager with intervalPacketsReceived := 0 } } := fun s h =>
    h.move ⟨h.table.nonnull, h.table.stored⟩ h.pinned h.dead (fun _ ha => ha) (Or.inr rfl)
  unfold Interrupted.alarm
  dsimp only
  split_ifs with hzero
  · exact hreset _ (sweepFrom _ s h (hharmless hzero))
  · exact hreset s h

/-- An alarm that is not harmless removes the session in use. Source: `serversession.cc`,
`handleAlarm`. Kind: P -/
theorem harmless_of_undisturbed (h : Sound s) (hafter : Undisturbed (s.alarm stale now)) :
    (Action.alarm now stale).Harmless s := by
  intro hzero g hg ds hds hexpires
  have halarm : s.alarm stale now =
      { Interrupted.sweepFrom stale now s.manager.sessionMap.keys s with
        manager :=
          { (Interrupted.sweepFrom stale now s.manager.sessionMap.keys s).manager with
            intervalPacketsReceived := 0 } } := by
    unfold Interrupted.alarm
    rw [if_pos hzero]
  have hkey : g ∈ s.manager.sessionMap.keys :=
    ExtTreeMap.mem_keys.mpr (Interrupted.mem_of_entry (subscript_eq_some.mp hds))
  have hgone := sweepFrom_pinned s.manager.sessionMap.keys s h hg hkey ⟨ds, hds, hexpires⟩
  obtain ⟨hstored, -⟩ := hafter.stored g (by
    rw [halarm]
    show g ∈ (Interrupted.sweepFrom stale now s.manager.sessionMap.keys s).pc.pinned
    rw [sweepFrom_pc]
    exact hg)
  rw [halarm] at hstored
  exact hgone hstored

theorem step (h : Sound s) {e : Action} (halloc : e.Allocates s) (hharmless : e.Harmless s) :
    Sound (s.step e) := by
  cases e with
  | call a => exact h.call a
  | next env => exact h.next halloc
  | alarm now stale => exact h.alarm hharmless

end Sound

/-! ## The result -/

/-- **When a run is undisturbed**: at every point of a run, with any alarms between any statements,
exactly if every alarm that sweeps finds the session in use not expired.
Source: `serversession.cc`, `handleAlarm`, `receivePing`, `sweepServerSessions`
Kind: P -/
theorem undisturbed_iff {keepalive : ℤ} {es : List Action}
    (hes : (interruptible keepalive).Always Action.Allocates es) :
    (∀ pre, pre <+: es → Undisturbed ((interruptible keepalive).run pre)) ↔
      (interruptible keepalive).Always Action.Harmless es := by
  constructor
  · intro h
    refine ((interruptible keepalive).history_induction (P := fun es =>
      (∀ pre, pre <+: es → Undisturbed ((interruptible keepalive).run pre)) →
        (interruptible keepalive).Always Action.Harmless es ∧
          Sound ((interruptible keepalive).run es))
      (fun _ => ⟨EventMachine.always_nil _ _, Sound.new keepalive⟩) ?_ es hes h).1
    intro es e _ he ih hall
    obtain ⟨halways, hsound⟩ := ih fun pre hpre => hall pre (hpre.trans (List.prefix_append es [e]))
    have hafter := hall (es ++ [e]) List.prefix_rfl
    rw [EventMachine.run_concat] at hafter ⊢
    have hharmless : e.Harmless ((interruptible keepalive).run es) := by
      cases e with
      | alarm now stale => exact hsound.harmless_of_undisturbed hafter
      | _ => trivial
    exact ⟨((interruptible keepalive).always_concat ..).mpr ⟨halways, hharmless⟩,
      hsound.step he hharmless⟩
  · intro h pre hpre
    have hsound := (interruptible keepalive).history_induction (P := fun es =>
      (interruptible keepalive).Always Action.Harmless es → Sound ((interruptible keepalive).run es))
      (fun _ => Sound.new keepalive) (fun es e _ he ih hall => by
        obtain ⟨halways, hharmless⟩ := ((interruptible keepalive).always_concat ..).mp hall
        rw [EventMachine.run_concat]
        exact (ih halways).step he hharmless) pre (hes.of_prefix _ hpre) (h.of_prefix _ hpre)
    exact hsound.undisturbed

/-- Surroundings in which `new` returns address 0. Source: none: environment. Kind: D -/
def exampleSurroundings (now : Time) : Surroundings where
  mem := ⟨0, 0⟩
  now := now
  stale := fun _ => ServerSession.create (ascii "h") 5000 (probe (ascii "a") 0 0).ph

/-- The first packet of a GUID at second 100, and alarms while its session has no arrival time yet.
Source: `serversession.cc`, `receivePing`
Kind: D -/
def alarmedRun (alarms : List Time) : List Action :=
  [.call (probe (ascii "a") 0 100), .next (exampleSurroundings 100)] ++
    alarms.map (fun now => .alarm now (exampleSurroundings now).stale)

theorem undisturbed_oneAlarm :
    Undisturbed ((interruptible 60).run
      (alarmedRun [130] ++ List.replicate 5 (.next (exampleSurroundings 200)))) :=
  (undisturbed_iff (by decide)).mpr (by decide) _ List.prefix_rfl

/-- **A second alarm deletes the session that `receivePing` is about to use.**
Source: `serversession.cc`, `handleAlarm`, `getServerSession`
Kind: C -/
theorem disturbed_twoAlarms :
    (interruptible 60).Always Action.Allocates (alarmedRun [130, 190]) ∧
      ¬Undisturbed ((interruptible 60).run (alarmedRun [130, 190])) := by
  refine ⟨by decide, fun h => ?_⟩
  have hstored := (h.stored (ascii "a") (by decide)).1
  revert hstored
  decide

end UDPing.Server
