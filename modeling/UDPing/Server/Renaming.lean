import UDPing.Server.Refinement

/-!
# How the GUIDs sort

The sweep walks `sessionMap` in the order of the GUIDs, which are random, and looks successors up in
the map that it is erasing from.

* `rename ρ m`: the server as it would be had the GUIDs been drawn as `ρ` says.
* `SameSweep`: a sweep of `m` and one of `rename ρ m` write the same figures and leave the same
  sessions, up to the names.
* **`sameSweep_iff`**: it holds for every renaming exactly when no expired session has an expired
  successor whose first number would move an end of its window (`TailIdle`).
* `order_decides_target`: two periods that expire together, and the two orders of their GUIDs.
-/

namespace UDPing.Server

open Lib ServerSessionManager
open Std (ExtTreeMap)

namespace ServerSessionManager

/-! ## Renamed servers -/

/-- A session under other GUIDs. Source: none: abstract model. Kind: D -/
def renameSession (ρ : Bytes → Bytes) (s : ServerSession) : ServerSession :=
  { s with
    successor := ρ s.successor
    statsWriters := { s.statsWriters with guid := ρ s.statsWriters.guid } }

/-- The server under other GUIDs: the keys of `sessionMap`, the successor links and the labels are
renamed, nothing else.
Source: none: abstract model
Kind: D -/
def rename (ρ : Bytes → Bytes) (m : ServerSessionManager) : ServerSessionManager :=
  { m with
    sessionMap := ExtTreeMap.ofList (m.sessionMap.toList.map fun e => (ρ e.1, e.2))
    heap := fun a => (m.heap a).map (renameSession ρ) }

/-- The figures of a report, without the GUID and the time. Source: `statswriter.cc`,
`writeStats`. Kind: D -/
def figures (r : Report) : Bytes × UInt16 × ℤ × UInt32 :=
  (r.peer, r.port, r.stats.count, r.stats.targetCount)

/-- The reports a sweep adds. Source: `serversession.cc`, `sweepServerSessions`. Kind: D -/
def newReports (m : ServerSessionManager) (now : Time) : List Report :=
  (m.sweepServerSessions now).written.drop m.written.length

/-- **A sweep of the renamed server does the same**: it writes the same figures, in some order, and
leaves the same sessions under their new names.
Source: `serversession.cc`, `sweepServerSessions`
Kind: D -/
structure SameSweep (ρ : Bytes → Bytes) (m : ServerSessionManager) (now : Time) : Prop where
  /-- The reports. -/
  reports : (((m.rename ρ).newReports now).map figures).Perm ((m.newReports now).map figures)
  /-- The live sessions. -/
  live : ∀ g, ((m.rename ρ).sweepServerSessions now).session g =
    ((m.sweepServerSessions now).rename ρ).session g

/-- Recording `q` moves neither end of the session's window.
Source: `serversession.cc`, `recordSeq`
Kind: D -/
def Idle (s : ServerSession) (q : UInt32) : Prop :=
  ¬ (0 < q - s.maxSeq ∧ q - s.maxSeq < 10) ∧ ¬ (0 < s.minSeq - q ∧ s.minSeq - q < 10)

/-- No expired session has another expired session as its successor whose first number, less one,
would move an end of its window.
Source: `serversession.cc`, `sweepServerSessions`
Kind: D -/
def TailIdle (m : ServerSessionManager) (now : Time) : Prop :=
  ∀ g s t, m.session g = some s → m.session s.successor = some t → s.successor ≠ g →
    m.expired now g → m.expired now s.successor → Idle s (t.minSeq - 1)

instance (s : ServerSession) (q : UInt32) : Decidable (Idle s q) :=
  inferInstanceAs (Decidable (¬ (0 < q - s.maxSeq ∧ q - s.maxSeq < 10) ∧
    ¬ (0 < s.minSeq - q ∧ s.minSeq - q < 10)))

instance (m : ServerSessionManager) (now : Time) : Decidable (TailIdle m now) :=
  decidable_of_iff (∀ e ∈ m.sessionMap.toList, ∀ s ∈ m.session e.1, ∀ t ∈ m.session s.successor,
      s.successor ≠ e.1 → m.expired now e.1 → m.expired now s.successor →
        Idle s (t.minSeq - 1)) <| by
    simp only [TailIdle, Prod.forall, ExtTreeMap.mem_toList_iff_getElem?_eq_some, Option.mem_def]
    refine ⟨fun h g s t hs => ?_, fun h g p _ s hs t => h g s t hs⟩
    obtain ⟨addr, haddr, -⟩ := session_eq_some.mp hs
    exact h g _ haddr s hs t

variable {m : ServerSessionManager} {ρ : Bytes → Bytes} {now : Time}

/-! ### The table of a renamed server -/

section renamed

variable (hρ : Function.Injective ρ)
include hρ

/-- An entry of the renamed table. Source: none: infrastructure. Kind: L -/
theorem getElem?_rename (m : ServerSessionManager) (g : Bytes) :
    (m.rename ρ).sessionMap[ρ g]? = m.sessionMap[g]? := by
  have hdistinct : (m.sessionMap.toList.map fun e => (ρ e.1, e.2)).Pairwise
      fun a b => ¬ compare a.1 b.1 = .eq := by
    rw [List.pairwise_map]
    refine m.sessionMap.distinct_keys_toList.imp fun {e e'} hne heq => hne ?_
    rw [Std.compare_eq_iff_eq] at heq ⊢
    exact hρ heq
  change (ExtTreeMap.ofList (m.sessionMap.toList.map fun e => (ρ e.1, e.2)))[ρ g]? = _
  rcases hg : m.sessionMap[g]? with _ | p
  · apply ExtTreeMap.getElem?_ofList_of_contains_eq_false
    rw [List.map_map, List.contains_eq_mem, decide_eq_false_iff_not]
    intro hmem
    obtain ⟨e, he, heq⟩ := List.mem_map.mp hmem
    have hsome := ExtTreeMap.mem_toList_iff_getElem?_eq_some.mp (show (e.1, e.2) ∈ _ from he)
    rw [hρ heq, hg] at hsome
    cases hsome
  · apply ExtTreeMap.getElem?_ofList_of_mem Std.compare_self hdistinct
    refine List.mem_map.mpr ⟨(g, p), ?_, rfl⟩
    exact ExtTreeMap.mem_toList_iff_getElem?_eq_some.mpr hg

/-- The renamed table has no other entries. Source: none: infrastructure. Kind: L -/
theorem getElem?_rename_eq_some (m : ServerSessionManager) {g' : Bytes} {p : Ptr} :
    (m.rename ρ).sessionMap[g']? = some p ↔ ∃ g, ρ g = g' ∧ m.sessionMap[g]? = some p := by
  constructor
  · intro hp
    have hmem : g' ∈ (m.rename ρ).sessionMap := by
      rw [ExtTreeMap.mem_iff_isSome_getElem?, hp]
      rfl
    have hkeys : g' ∈ (m.sessionMap.toList.map fun e => (ρ e.1, e.2)).map Prod.fst := by
      have hcontains := ExtTreeMap.mem_ofList.mp hmem
      rwa [List.contains_iff_mem] at hcontains
    rw [List.map_map] at hkeys
    obtain ⟨e, -, rfl⟩ := List.mem_map.mp hkeys
    exact ⟨e.1, rfl, (getElem?_rename hρ m e.1) ▸ hp⟩
  · rintro ⟨g, rfl, hp⟩
    rw [getElem?_rename hρ, hp]

/-- The sessions of a renamed server. Source: none: infrastructure. Kind: L -/
theorem session_rename (m : ServerSessionManager) (g : Bytes) :
    (m.rename ρ).session (ρ g) = (m.session g).map (renameSession ρ) := by
  unfold session subscript
  rw [getElem?_rename hρ]
  rcases m.sessionMap[g]? with _ | _ | a
  · rfl
  · rfl
  · rfl

/-- There are no others. Source: none: infrastructure. Kind: L -/
theorem session_rename_eq_none (m : ServerSessionManager) {g' : Bytes} (hg' : ∀ g, ρ g ≠ g') :
    (m.rename ρ).session g' = none := by
  have hnone : (m.rename ρ).sessionMap[g']? = none := by
    rcases hp : (m.rename ρ).sessionMap[g']? with _ | p
    · rfl
    · obtain ⟨g, hg, -⟩ := (getElem?_rename_eq_some hρ m).mp hp
      exact absurd hg (hg' g)
  unfold session subscript
  rw [hnone]
  rfl

theorem expired_rename (m : ServerSessionManager) (now : Time) (g : Bytes) :
    (m.rename ρ).expired now (ρ g) = m.expired now g := by
  unfold expired
  rw [session_rename hρ]
  rcases m.session g with _ | s
  · rfl
  · rfl

/-- A renamed table is well formed. Source: none: infrastructure. Kind: L -/
theorem WF.rename (h : WF m) : WF (m.rename ρ) where
  nonnull := by
    intro g' hnull
    obtain ⟨g, -, hg⟩ := (getElem?_rename_eq_some hρ m).mp hnull
    exact h.nonnull g hg
  stored := by
    intro g' a
    rw [getElem?_rename_eq_some hρ]
    change _ ↔ ∃ s, (m.heap a).map (renameSession ρ) = some s ∧ s.guid = g'
    constructor
    · rintro ⟨g, rfl, hg⟩
      obtain ⟨s, hs, rfl⟩ := (h.stored g a).mp hg
      exact ⟨renameSession ρ s, by rw [hs]; rfl, rfl⟩
    · rintro ⟨s', hs', rfl⟩
      obtain ⟨s, hs, rfl⟩ := Option.map_eq_some_iff.mp hs'
      exact ⟨s.guid, rfl, (h.stored s.guid a).mpr ⟨s, hs, rfl⟩⟩

/-- **The entries of a renamed table** are the renamed ones, in some order.
Source: none: infrastructure
Kind: L -/
theorem toList_rename (m : ServerSessionManager) :
    (m.rename ρ).sessionMap.toList.Perm (m.sessionMap.toList.map fun e => (ρ e.1, e.2)) := by
  have hnodup : ∀ map : ExtTreeMap Bytes Ptr, map.toList.Nodup := by
    intro map
    refine map.distinct_keys_toList.imp fun {e e'} hne heq => hne ?_
    rw [heq, Std.compare_self]
  have hpair : Function.Injective fun e : Bytes × Ptr => (ρ e.1, e.2) := by
    rintro ⟨g, p⟩ ⟨g', p'⟩ heq
    obtain ⟨hg, rfl⟩ := Prod.ext_iff.mp heq
    exact Prod.ext (hρ hg) rfl
  apply (List.perm_ext_iff_of_nodup (hnodup _) ((hnodup _).map hpair)).mpr
  rintro ⟨g', p⟩
  rw [ExtTreeMap.mem_toList_iff_getElem?_eq_some, getElem?_rename_eq_some hρ, List.mem_map]
  constructor
  · rintro ⟨g, rfl, hg⟩
    exact ⟨(g, p), ExtTreeMap.mem_toList_iff_getElem?_eq_some.mpr hg, rfl⟩
  · rintro ⟨⟨g, q⟩, hmem, heq⟩
    obtain ⟨hg, rfl⟩ := Prod.ext_iff.mp heq
    exact ⟨g, hg, ExtTreeMap.mem_toList_iff_getElem?_eq_some.mp hmem⟩

end renamed

/-! ### The figures under a renaming -/

/-- What the sweep of the renamed server records in the session of `ρ g` before reporting it: the
key order of the new names decides.
Source: `serversession.cc`, `sweepServerSessions`
Kind: D -/
def tailUnder (ρ : Bytes → Bytes) (m : ServerSessionManager) (now : Time) (g : Bytes)
    (s : ServerSession) : Option UInt32 :=
  if m.expired now s.successor ∧ compare (ρ s.successor) (ρ g) = .lt then none
  else (m.session s.successor).map fun successor => successor.minSeq - 1

/-- The figures the sweep of the renamed server writes for `ρ g`.
Source: `serversession.cc`, `sweepServerSessions`
Kind: D -/
def figuresUnder (ρ : Bytes → Bytes) (m : ServerSessionManager) (now : Time) (g : Bytes) :
    Option (Bytes × UInt16 × ℤ × UInt32) :=
  (m.session g).map fun s => figures ((s.closeWith (tailUnder ρ m now g s)).writeStats now)

/-- The entries a sweep removes. Source: `serversession.cc`, `sweepServerSessions`. Kind: D -/
def expiredEntries (m : ServerSessionManager) (now : Time) : List (Bytes × Ptr) :=
  m.sessionMap.toList.filter fun e => m.expired now e.1

theorem WF.newReports_eq (h : WF m) (now : Time) : m.newReports now = m.sweepReports now := by
  unfold newReports
  rw [h.sweep_eq]
  exact List.drop_left

/-- The figures of a sweep. Source: `serversession.cc`, `sweepServerSessions`. Kind: L -/
theorem WF.figures_newReports (h : WF m) (now : Time) :
    (m.newReports now).map figures =
      (m.expiredEntries now).filterMap fun e => figuresUnder id m now e.1 := by
  rw [h.newReports_eq, sweepReports, List.map_filterMap]
  apply List.filterMap_congr
  intro e _
  unfold finalReport figuresUnder
  rw [Option.map_map]
  rfl

/-- A renamed session has the same figures. Source: none: infrastructure. Kind: L -/
theorem figures_renameSession (s : ServerSession) (tail : Option UInt32) :
    figures (((renameSession ρ s).closeWith tail).writeStats now) =
      figures ((s.closeWith tail).writeStats now) := by
  rcases tail with _ | q
  · rfl
  · unfold ServerSession.closeWith
    simp only [Option.elim_some, ServerSession.recordSeq_eq]
    rfl

/-- **The figures of a sweep of the renamed server**, in some order.
Source: `serversession.cc`, `sweepServerSessions`
Kind: P -/
theorem WF.figures_rename (h : WF m) (hρ : Function.Injective ρ) (now : Time) :
    (((m.rename ρ).newReports now).map figures).Perm
      ((m.expiredEntries now).filterMap fun e => figuresUnder ρ m now e.1) := by
  have hreport : ∀ g, ((m.rename ρ).finalReport now (ρ g)).map figures =
      figuresUnder ρ m now g := by
    intro g
    unfold finalReport figuresUnder
    rw [session_rename hρ, Option.map_map, Option.map_map]
    rcases m.session g with _ | s
    · rfl
    · have htail : (m.rename ρ).finalTail now (ρ g) (renameSession ρ s) =
          tailUnder ρ m now g s := by
        have hsucc : (renameSession ρ s).successor = ρ s.successor := rfl
        simp only [finalTail, tailUnder, hsucc, expired_rename hρ, session_rename hρ,
          Option.map_map]
        rfl
      simp only [Option.map_some, Function.comp_apply, htail, figures_renameSession]
  have hentries : (((m.rename ρ).expiredEntries now)).Perm
      ((m.expiredEntries now).map fun e => (ρ e.1, e.2)) := by
    unfold expiredEntries
    have hperm := (toList_rename hρ m).filter fun e => (m.rename ρ).expired now e.1
    rw [List.filter_map] at hperm
    refine hperm.trans (List.Perm.of_eq ?_)
    congr 1
    apply List.filter_congr
    intro e _
    exact expired_rename hρ m now e.1
  rw [(h.rename hρ).newReports_eq, sweepReports, List.map_filterMap]
  refine (hentries.filterMap _).trans (List.Perm.of_eq ?_)
  rw [List.filterMap_map]
  apply List.filterMap_congr
  intro e _
  exact hreport e.1

/-! ### When recording a number changes nothing -/

/-- A number that moves neither end. Source: `serversession.cc`, `recordSeq`. Kind: L -/
theorem Idle.recordSeq_eq {s : ServerSession} {q : UInt32} (h : Idle s q) :
    s.recordSeq q = s := by
  rw [ServerSession.recordSeq_eq]
  unfold ServerSession.lower ServerSession.raise
  rw [if_neg h.1, if_neg h.2]

/-- **The target count stays exactly if no end of the window moves**: the two ends cannot both move
and leave the window as large as it was.
Source: `serversession.cc`, `recordSeq`, `writeStats`
Kind: L -/
theorem idle_iff (s : ServerSession) (q : UInt32) :
    Idle s q ↔ 1 + (s.recordSeq q).maxSeq - (s.recordSeq q).minSeq = 1 + s.maxSeq - s.minSeq := by
  constructor
  · intro h
    rw [h.recordSeq_eq]
  · intro htarget
    rw [ServerSession.recordSeq_eq] at htarget
    unfold ServerSession.lower ServerSession.raise at htarget
    by_cases hraise : 0 < q - s.maxSeq ∧ q - s.maxSeq < 10
    · rw [if_pos hraise] at htarget
      by_cases hlower : 0 < s.minSeq - q ∧ s.minSeq - q < 10
      · -- both ends move to `q`: their distances from it would add up to a whole turn
        rw [if_pos hlower] at htarget
        have hsum : (q - s.maxSeq) + (s.minSeq - q) = 0 := by grind
        have hzero := congrArg UInt32.toNat hsum
        rw [UInt32.toNat_add] at hzero
        simp only [UInt32.lt_iff_toNat_lt] at hraise hlower
        change _ = 0 at hzero
        change (0 < _ ∧ _ < 10) at hraise
        change (0 < _ ∧ _ < 10) at hlower
        omega
      · rw [if_neg hlower] at htarget
        have hq : q - s.maxSeq = 0 := by grind
        rw [hq] at hraise
        exact absurd hraise.1 (lt_irrefl 0)
    · rw [if_neg hraise] at htarget
      refine ⟨hraise, fun hlower => ?_⟩
      rw [if_pos hlower] at htarget
      have hq : s.minSeq - q = 0 := by grind
      rw [hq] at hlower
      exact absurd hlower.1 (lt_irrefl 0)

/-! ### Two names at the front -/

/-- The renaming that puts `x` first, `y` second and all other GUIDs behind them, in their order.
Source: none: abstract model
Kind: D -/
def front (x y g : Bytes) : Bytes :=
  if g = [] then [] else if g = x then ascii "a" else if g = y then ascii "aa" else 98 :: g

theorem front_injective (x y : Bytes) : Function.Injective (front x y) := by
  intro g g' h
  have ha : ascii "a" = [97] := rfl
  have haa : ascii "aa" = [97, 97] := rfl
  unfold front at h
  rw [ha, haa] at h
  split_ifs at h <;> grind

@[simp] theorem front_nil (x y : Bytes) : front x y [] = [] := if_pos rfl

/-- Swapping the two names in front changes the order of no other pair.
Source: none: infrastructure
Kind: L -/
theorem compare_front_swap {x y g g' : Bytes} (h : ¬ (g = x ∧ g' = y)) (h' : ¬ (g = y ∧ g' = x)) :
    compare (front x y g) (front x y g') = compare (front y x g) (front y x g') := by
  unfold front
  split_ifs <;> first | rfl | simp_all

/-! ### Links point one way -/

/-- No session is stored under the empty GUID, and of two sessions at most one has the other as its
successor.
Source: `serversession.cc`, `getServerSession`
Kind: D -/
structure OneWay (m : ServerSessionManager) : Prop where
  /-- The empty GUID stands for no successor. -/
  empty : m.session [] = none
  /-- Two sessions that succeed each other are one. -/
  links : ∀ g s t, m.session g = some s → m.session s.successor = some t → t.successor = g →
    s.successor = g

variable {a : Arrival} {mem : Memory}

/-- The link of a session after a packet: a new session has none, or itself through a reused
address; a link that is set leads to the packet's GUID; no other link changes.
Source: `serversession.cc`, `getServerSession`
Kind: L -/
theorem WF.successor_recordPing (h : WF m) (hfree : m.heap mem.addr = none) {g : Bytes}
    {s' : ServerSession} (hs' : (m.recordPing a mem).session g = some s') :
    (a.ph.guid ∉ m.sessionMap ∧ g = a.ph.guid ∧ (s'.successor = [] ∨ s'.successor = g)) ∨
      (a.ph.guid ∉ m.sessionMap ∧ g ≠ a.ph.guid ∧ s'.successor = a.ph.guid) ∨
      ∃ s, m.session g = some s ∧ s'.successor = s.successor := by
  by_cases hg : a.ph.guid = g
  · subst hg
    by_cases hmem : a.ph.guid ∈ m.sessionMap
    · obtain ⟨s, hs⟩ := (h.mem_iff _).mp hmem
      rw [recordPing_session_live h hs, Option.some.injEq, ServerSession.absorb_eq] at hs'
      subst hs'
      exact Or.inr (Or.inr ⟨s, hs, rfl⟩)
    · rw [recordPing_session_new h hfree hmem, Option.some.injEq, ServerSession.absorb_eq] at hs'
      subst hs'
      refine Or.inl ⟨hmem, rfl, ?_⟩
      split_ifs
      · exact Or.inr rfl
      · exact Or.inl rfl
  · rw [recordPing_session_other h hfree hg] at hs'
    split_ifs at hs' with hlink
    · obtain ⟨s, hs, rfl⟩ := Option.map_eq_some_iff.mp hs'
      exact Or.inr (Or.inl ⟨hlink.1, Ne.symm hg, rfl⟩)
    · exact Or.inr (Or.inr ⟨s', hs', rfl⟩)

/-- A packet keeps links one-way. Source: `serversession.cc`, `getServerSession`. Kind: L -/
theorem OneWay.recordPing (ho : OneWay m) (h : WF m) (hfree : m.heap mem.addr = none)
    (hguid : a.ph.guid ≠ []) : OneWay (m.recordPing a mem) := by
  have hempty : (m.recordPing a mem).session [] = none := by
    rw [recordPing_session_other h hfree hguid, ho.empty]
    split_ifs <;> rfl
  refine ⟨hempty, fun g s' t' hs' ht' hback => ?_⟩
  have hlive : ∀ g s, m.session g = some s → g ∈ m.sessionMap := fun g s hs =>
    (h.mem_iff g).mpr ⟨s, hs⟩
  rcases h.successor_recordPing hfree hs' with ⟨hnew, rfl, hnil | hself⟩ | ⟨hnew, hg, hsucc⟩ |
    ⟨s, hs, hsucc⟩
  · rw [hnil, hempty] at ht'
    cases ht'
  · exact hself
  · -- the new session leads nowhere but to itself
    rw [hsucc] at ht'
    rcases h.successor_recordPing hfree ht' with ⟨-, -, hnil | hself⟩ | ⟨-, hne, -⟩ | ⟨t, ht, -⟩
    · rw [hnil] at hback
      rw [← hback, hempty] at hs'
      cases hs'
    · exact absurd (hback.symm.trans hself) hg
    · exact absurd rfl hne
    · exact absurd (hlive _ t ht) hnew
  · rcases h.successor_recordPing hfree ht' with ⟨hnew, hts, hnil | hself⟩ | ⟨hnew, -, hts⟩ |
      ⟨t, ht, hts⟩
    · rw [hnil] at hback
      rw [← hback, hempty] at hs'
      cases hs'
    · exact hself.symm.trans hback
    · rw [← hts, hback] at hnew
      exact absurd (hlive g s hs) hnew
    · rw [hsucc] at ht ⊢
      exact ho.links g s t hs ht (hts.symm.trans hback)

/-- A sweep keeps links one-way. Source: `serversession.cc`, `sweepServerSessions`. Kind: L -/
theorem OneWay.sweep (ho : OneWay m) (h : WF m) (now : Time) :
    OneWay (m.sweepServerSessions now) := by
  have hsession : ∀ {g s}, (m.sweepServerSessions now).session g = some s →
      m.session g = some s := by
    intro g s hs
    rw [h.session_sweep] at hs
    split_ifs at hs
    exact hs
  refine ⟨?_, fun g s t hs ht hback => ho.links g s t (hsession hs) (hsession ht) hback⟩
  rw [h.session_sweep, ho.empty]
  split_ifs <;> rfl

/-- Every run keeps links one-way. Source: `serversession.cc`, `getServerSession`. Kind: P -/
theorem oneWay_run {keepalive : ℤ} {es : List Event} (hes : Admissible keepalive es)
    (hguid : ∀ a ∈ arrivals es, a.ph.guid ≠ []) : OneWay ((machine keepalive).run es) := by
  induction es using List.reverseRecOn with
  | nil =>
      refine ⟨?_, fun g s t hs => ?_⟩
      · simp [machine, ServerSessionManager.new, session, subscript]
      · simp [machine, ServerSessionManager.new, session, subscript] at hs
  | append_singleton es e ih =>
      obtain ⟨hadm, he⟩ := ((machine keepalive).always_concat ..).mp hes
      rw [arrivals_concat] at hguid
      have ho := ih hadm fun a ha => hguid a (List.mem_append_left _ ha)
      have h := wf_run hadm
      rw [EventMachine.run_concat]
      rcases e with ⟨a, mem, now⟩ | now | now
      · have hping := ho.recordPing h he (hguid a (List.mem_append_right _ (by simp [Event.arrival?])))
        exact hping.sweep (h.recordPing he) now
      · change OneWay (((machine keepalive).run es).handleAlarm now)
        unfold handleAlarm
        split_ifs
        · exact ⟨(ho.sweep h now).empty, (ho.sweep h now).links⟩
        · exact ⟨ho.empty, ho.links⟩
      · exact ho.sweep h now

/-! ## The result -/

/-- The live sessions of a renamed server after a sweep are the renamed ones.
Source: `serversession.cc`, `sweepServerSessions`
Kind: P -/
theorem WF.session_sweep_rename (h : WF m) (hρ : Function.Injective ρ) (now : Time) (g' : Bytes) :
    ((m.rename ρ).sweepServerSessions now).session g' =
      ((m.sweepServerSessions now).rename ρ).session g' := by
  rw [(h.rename hρ).session_sweep]
  by_cases hrange : ∃ g, ρ g = g'
  · obtain ⟨g, rfl⟩ := hrange
    rw [expired_rename hρ, session_rename hρ, session_rename hρ, h.session_sweep]
    split_ifs <;> rfl
  · have hnone : ∀ g, ρ g ≠ g' := fun g hg => hrange ⟨g, hg⟩
    rw [session_rename_eq_none hρ m hnone, session_rename_eq_none hρ _ hnone]
    split_ifs <;> rfl

/-- Two lists of values that agree at all places but one, and are the same up to order, agree at
that one as well.
Source: none: infrastructure
Kind: L -/
theorem eq_of_filterMap_perm {α β : Type*} {f f' : α → Option β} {l : List α} {x : α} {b b' : β}
    (hx : x ∈ l) (hnodup : l.Nodup) (hrest : ∀ y ∈ l, y ≠ x → f y = f' y) (hb : f x = some b)
    (hb' : f' x = some b') (hperm : (l.filterMap f).Perm (l.filterMap f')) : b = b' := by
  obtain ⟨l₁, l₂, rfl⟩ := List.append_of_mem hx
  obtain ⟨-, hcons, hdisjoint⟩ := List.nodup_append.mp hnodup
  have hleft : l₁.filterMap f = l₁.filterMap f' := by
    apply List.filterMap_congr
    intro y hy
    exact hrest y (List.mem_append_left _ hy) (hdisjoint y hy x List.mem_cons_self)
  have hright : l₂.filterMap f = l₂.filterMap f' := by
    apply List.filterMap_congr
    intro y hy
    apply hrest y (List.mem_append_right _ (List.mem_cons_of_mem x hy))
    rintro rfl
    exact (List.nodup_cons.mp hcons).1 hy
  rw [List.filterMap_append, List.filterMap_append, List.filterMap_cons_some hb,
    List.filterMap_cons_some hb', hleft, hright, List.perm_append_left_iff] at hperm
  have hcoe : b ::ₘ (l₂.filterMap f' : Multiset β) = b' ::ₘ (l₂.filterMap f' : Multiset β) :=
    Multiset.coe_eq_coe.mpr hperm
  exact (Multiset.cons_inj_left _).mp hcoe

/-- **If no end would move, the names do not matter.** Source: `serversession.cc`,
`sweepServerSessions`. Kind: P -/
theorem TailIdle.sameSweep (hidle : TailIdle m now) (h : WF m) (hρ : Function.Injective ρ) :
    SameSweep ρ m now := by
  refine ⟨?_, h.session_sweep_rename hρ now⟩
  rw [h.figures_newReports]
  refine (h.figures_rename hρ now).trans (List.Perm.of_eq ?_)
  apply List.filterMap_congr
  intro e he
  have hexp : m.expired now e.1 = true := (List.mem_filter.mp he).2
  unfold figuresUnder
  rcases hs : m.session e.1 with _ | s
  · rfl
  · simp only [Option.map_some, Option.some.injEq]
    unfold tailUnder
    rcases ht : m.session s.successor with _ | t
    · simp
    · by_cases hsucc : s.successor = e.1
      · simp [hsucc]
      · by_cases hexp' : m.expired now s.successor = true
        · -- whether the successor is still there or not, the window is the same
          have hclosed : s.closeWith (some (t.minSeq - 1)) = s :=
            (hidle e.1 s t hs ht hsucc hexp hexp').recordSeq_eq
          have hopen : s.closeWith none = s := rfl
          simp only [Option.map_some]
          split_ifs <;> simp only [hclosed, hopen]
        · simp [hexp']

/-- **If the names do not matter, no end would move**: put the two names in front, in either order.
Source: `serversession.cc`, `sweepServerSessions`
Kind: P -/
theorem OneWay.tailIdle (ho : OneWay m) (h : WF m)
    (hsame : ∀ ρ, Function.Injective ρ → ρ [] = [] → SameSweep ρ m now) : TailIdle m now := by
  intro g s t hs ht hne hexp hexp'
  have hg : g ≠ [] := by
    rintro rfl
    rw [ho.empty] at hs
    cases hs
  have hsucc : s.successor ≠ [] := by
    intro hnil
    rw [hnil, ho.empty] at ht
    cases ht
  -- the figures of the two orders
  have hperm : ((m.expiredEntries now).filterMap fun e =>
      figuresUnder (front g s.successor) m now e.1).Perm
        ((m.expiredEntries now).filterMap fun e =>
          figuresUnder (front s.successor g) m now e.1) := by
    have hfirst := h.figures_rename (front_injective g s.successor) now
    have hsecond := h.figures_rename (front_injective s.successor g) now
    have hboth := (hsame _ (front_injective g s.successor) (front_nil _ _)).reports.trans
      (hsame _ (front_injective s.successor g) (front_nil _ _)).reports.symm
    exact hfirst.symm.trans (hboth.trans hsecond)
  obtain ⟨addr, haddr, -⟩ := session_eq_some.mp hs
  have hmem : (g, some addr) ∈ m.expiredEntries now := by
    apply List.mem_filter.mpr
    exact ⟨ExtTreeMap.mem_toList_iff_getElem?_eq_some.mpr haddr, hexp⟩
  have hnodup : (m.expiredEntries now).Nodup := by
    apply List.Nodup.filter
    refine m.sessionMap.distinct_keys_toList.imp fun {e e'} hne heq => hne ?_
    rw [heq, Std.compare_self]
  have hafter : tailUnder (front g s.successor) m now g s = some (t.minSeq - 1) := by
    have hfront : ¬ compare (front g s.successor s.successor) (front g s.successor g) = .lt := by
      unfold front
      rw [if_neg hg, if_pos rfl, if_neg hsucc, if_neg hne, if_pos rfl]
      decide
    unfold tailUnder
    rw [if_neg fun hc => hfront hc.2, ht]
    rfl
  have hbefore : tailUnder (front s.successor g) m now g s = none := by
    have hfront : compare (front s.successor g s.successor) (front s.successor g g) = .lt := by
      unfold front
      rw [if_neg hg, if_pos rfl, if_neg hsucc, if_neg (Ne.symm hne), if_pos rfl]
      decide
    unfold tailUnder
    rw [if_pos ⟨hexp', hfront⟩]
  have hfigures := eq_of_filterMap_perm hmem hnodup (fun e he heg => ?_)
    (by unfold figuresUnder; rw [hs, Option.map_some, hafter])
    (by unfold figuresUnder; rw [hs, Option.map_some, hbefore]) hperm
  · rw [idle_iff]
    have htarget := congrArg (fun x => x.2.2.2) hfigures
    exact htarget
  · -- no other pair changes its order: the successor does not lead back
    have hkey : e.1 ≠ g := by
      intro hkey
      apply heg
      have hentry := ExtTreeMap.mem_toList_iff_getElem?_eq_some.mp (List.mem_filter.mp he).1
      rw [hkey, haddr, Option.some.injEq] at hentry
      exact Prod.ext hkey hentry.symm
    unfold figuresUnder
    rcases hu : m.session e.1 with _ | u
    · rfl
    · have hswap : compare (front g s.successor u.successor) (front g s.successor e.1) =
          compare (front s.successor g u.successor) (front s.successor g e.1) := by
        apply compare_front_swap
        · rintro ⟨hback, hkey'⟩
          rw [hkey', ht, Option.some.injEq] at hu
          exact hne (ho.links g s t hs ht (by rw [hu, hback]))
        · exact fun hc => hkey hc.2
      simp only [Option.map_some, tailUnder, hswap]

end ServerSessionManager

/-- **When a sweep does not depend on how the GUIDs sort**: in a reachable state, for every renaming
of its GUIDs, exactly if no expired session has another expired one as its successor whose first
number, less one, would move an end of its window.
Source: `serversession.cc`, `sweepServerSessions`, `recordSeq`
Kind: P -/
theorem sameSweep_iff {keepalive : ℤ} {es : List Event} (hes : Admissible keepalive es)
    (hguid : ∀ a ∈ arrivals es, a.ph.guid ≠ []) (now : Time) :
    (∀ ρ : Bytes → Bytes, Function.Injective ρ → ρ [] = [] →
        SameSweep ρ ((machine keepalive).run es) now) ↔
      TailIdle ((machine keepalive).run es) now :=
  ⟨(oneWay_run hes hguid).tailIdle (wf_run hes),
    fun hidle _ hρ _ => hidle.sameSweep (wf_run hes) hρ⟩

/-! ### Two periods that expire together -/

/-- Two periods of one source in a row.
Source: `serversession.cc`, `getServerSession`
Kind: D -/
def pairRun (q : UInt32) : List Event :=
  [.receivePing (probe (ascii "a") 0 0) ⟨0, 0⟩ 0, .receivePing (probe (ascii "b") q 1) ⟨1, 0⟩ 1]

theorem sameSweep_pairRun :
    SameSweep (front (ascii "b") (ascii "a")) ((machine 60).run (pairRun 1)) 100 ∧
      (((machine 60).run (pairRun 1)).newReports 100).length = 2 := by
  have hadm : Admissible 60 (pairRun 1) := by decide
  have hguid : ∀ a ∈ arrivals (pairRun 1), a.ph.guid ≠ [] := by decide
  have hidle : TailIdle ((machine 60).run (pairRun 1)) 100 := by decide
  exact ⟨(sameSweep_iff hadm hguid 100).mpr hidle _ (front_injective _ _) (front_nil _ _),
    by decide⟩

/-- **The order of the GUIDs decides the target count**: with the numbers `1` to `4` lost between
the two periods, the first one has a target count of `5` or of `1`.
Source: `serversession.cc`, `sweepServerSessions`
Kind: C -/
theorem order_decides_target :
    Admissible 60 (pairRun 5) ∧ (∀ a ∈ arrivals (pairRun 5), a.ph.guid ≠ []) ∧
      Function.Injective (front (ascii "b") (ascii "a")) ∧
      ¬ SameSweep (front (ascii "b") (ascii "a")) ((machine 60).run (pairRun 5)) 100 := by
  refine ⟨by decide, by decide, front_injective _ _, fun hsame => ?_⟩
  have hcount := (hsame.reports).countP_eq fun x => x.2.2.2 = 5
  revert hcount
  decide

end UDPing.Server
