import UDPing.Agent.Children
import Mathlib.Data.List.Find

/-!
# What `synchronize` makes of the children

* `desired`: the last target entry of each signature.
* `Gathered`: what the first loop of `synchronize` puts into `targetChildren`. `drops`: what the last
  loop kills. `synchronize_reconciled`: the three loops together, for every signature.
* `sound_run`: the invariant holds in every state that is reached.
* **`synchronize_reconciles`**: the children afterwards, what is kept, what is killed, and that a
  second `synchronize` does nothing.
-/

namespace UDPing.Agent

open Lib
open UDPing.Controller (Peer)

/-! ## The targets of a list -/

/-- The entries that a row is turned into. Source: `udping_agent`, `synchronize`. Kind: D -/
def Target.entries (t : Target) : List Target :=
  t :: if t.meshMechanism = ascii "udping" then [.server t.meshName t.localIp] else []

/-- The last entry of a signature. Source: `udping_agent`, `synchronize`. Kind: D -/
def lastEntry (entries : List Target) (s : Bytes) : Option Target :=
  entries.reverse.find? (·.signature = s)

/-- The last entry of a signature that a list of rows is turned into.
Source: `udping_agent`, `synchronize`
Kind: D -/
def desired (rows : List Target) (s : Bytes) : Option Target :=
  lastEntry (rows.flatMap Target.entries) s

theorem lastEntry_concat (entries : List Target) (t : Target) (s : Bytes) :
    lastEntry (entries ++ [t]) s = if t.signature = s then some t else lastEntry entries s := by
  unfold lastEntry
  rw [List.reverse_concat, List.find?_cons]
  by_cases h : t.signature = s <;> simp [h]

theorem signature_of_lastEntry {entries : List Target} {s : Bytes} {t : Target}
    (h : lastEntry entries s = some t) : t.signature = s := by
  simpa using List.find?_some h

namespace State

variable {fork : ℕ → ℕ} {a b : State} {s : Bytes} {q r : Ref} {l : List Ref} {entries : List Target}
  {targetChildren : Dict Bytes Ref}

/-! ## The first loop -/

/-- `targetChildren` with the objects `l` of rows and the `entries` that they have been turned into, and
the state `b` with the objects made on the way.
Source: `udping_agent`, `synchronize`
Kind: D -/
structure Gathered (a : State) (l : List Ref) (entries : List Target) (b : State)
    (targetChildren : Dict Bytes Ref) : Prop where
  state : b = { a with heap := b.heap, next := b.next }
  next : a.next ≤ b.next
  heap : ∀ r, r < a.next → b.heap r = a.heap r
  target : ∀ s, (targetChildren.get s).map (fun r => (b.heap r).target) = lastEntry entries s
  origin : ∀ s r, targetChildren.get s = some r → r < b.next ∧
    ((r ∈ l ∧ l.reverse.find? (fun r => (a.heap r).target.signature = s) = some r) ∨
      (a.next ≤ r ∧ (b.heap r).pid = none ∧ ∃ meshName localIp,
        (b.heap r).target = .server meshName localIp))

theorem gathered_nil (a : State) : Gathered a [] [] a .empty where
  state := rfl
  next := le_refl a.next
  heap _ _ := rfl
  target _ := rfl
  origin _ _ h := by cases h

theorem Gathered.row (h : Gathered a l entries b targetChildren) (hq : q < a.next) :
    Gathered a (l ++ [q]) (entries ++ [(a.heap q).target]) b
      (targetChildren.set (a.heap q).target.signature q) where
  state := h.state
  next := h.next
  heap := h.heap
  target s := by
    rw [Dict.get_set, lastEntry_concat]
    by_cases hs : s = (a.heap q).target.signature
    · rw [if_pos hs, if_pos hs.symm, Option.map_some, h.heap q hq]
    · rw [if_neg hs, if_neg (Ne.symm hs), h.target]
  origin s r hr := by
    rw [Dict.get_set] at hr
    rw [List.reverse_concat, List.find?_cons]
    by_cases hs : s = (a.heap q).target.signature
    · rw [if_pos hs] at hr
      obtain rfl := Option.some.inj hr
      simp only [hs, decide_true]
      exact ⟨Nat.lt_of_lt_of_le hq h.next, Or.inl ⟨by simp, trivial⟩⟩
    · rw [if_neg hs] at hr
      simp only [show ¬(a.heap q).target.signature = s from Ne.symm hs, decide_false]
      obtain ⟨hlt, horigin⟩ := h.origin s r hr
      exact ⟨hlt, horigin.imp_left fun hl => ⟨List.mem_append_left _ hl.1, hl.2⟩⟩

theorem Gathered.server (h : Gathered a l entries b targetChildren) (meshName localIp : Bytes) :
    Gathered a l (entries ++ [.server meshName localIp]) (b.alloc (.server meshName localIp)).2
      (targetChildren.set (Target.server meshName localIp).signature
        (b.alloc (.server meshName localIp)).1) := by
  have hheap : ∀ r, r < b.next →
      (b.alloc (.server meshName localIp)).2.heap r = b.heap r := fun r hr =>
    Function.update_of_ne (Nat.ne_of_lt hr) _ _
  have hnew : (b.alloc (.server meshName localIp)).2.heap b.next = ⟨.server meshName localIp, none⟩ :=
    Function.update_self ..
  refine ⟨?_, Nat.le_succ_of_le h.next, fun r hr => ?_, fun s => ?_, fun s r hr => ?_⟩
  · have hstate := h.state
    unfold alloc
    rw [hstate]
  · rw [hheap r (Nat.lt_of_lt_of_le hr h.next), h.heap r hr]
  · rw [Dict.get_set, lastEntry_concat]
    by_cases hs : s = (Target.server meshName localIp).signature
    · rw [if_pos hs, if_pos hs.symm, Option.map_some]
      exact congrArg (fun params => some params.target) hnew
    · rw [if_neg hs, if_neg (Ne.symm hs), ← h.target]
      refine Option.map_congr fun r hr => ?_
      rw [hheap r (h.origin s r hr).1]
  · rw [Dict.get_set] at hr
    by_cases hs : s = (Target.server meshName localIp).signature
    · rw [if_pos hs] at hr
      obtain rfl := Option.some.inj hr
      exact ⟨Nat.lt_succ_self _, Or.inr ⟨h.next, congrArg Params.pid hnew, meshName, localIp,
        congrArg Params.target hnew⟩⟩
    · rw [if_neg hs] at hr
      obtain ⟨hlt, horigin⟩ := h.origin s r hr
      rw [hheap r hlt]
      exact ⟨Nat.lt_succ_of_lt hlt, horigin⟩

theorem Gathered.addTarget (h : Gathered a l entries b targetChildren) (hq : q < a.next) :
    Gathered a (l ++ [q]) (entries ++ (a.heap q).target.entries)
      (State.addTarget (b, targetChildren) q).1 (State.addTarget (b, targetChildren) q).2 := by
  have hrow := h.row hq
  unfold Target.entries
  simp only [State.addTarget, h.heap q hq]
  split
  · have hserver := hrow.server (a.heap q).target.meshName (a.heap q).target.localIp
    rw [List.append_assoc] at hserver
    exact hserver
  · exact hrow

/-- The first loop. Source: `udping_agent`, `synchronize`. Kind: P -/
theorem gathered (hl : ∀ r ∈ l, r < a.next) :
    Gathered a l ((l.map fun r => (a.heap r).target).flatMap Target.entries)
      (l.foldl State.addTarget (a, .empty)).1 (l.foldl State.addTarget (a, .empty)).2 := by
  induction l using List.reverseRecOn with
  | nil => exact gathered_nil a
  | append_singleton l q ih =>
      have hq : q < a.next := hl q (by simp)
      have hprev := ih fun r hr => hl r (List.mem_append_left [q] hr)
      rw [List.foldl_append, List.map_append, List.flatMap_append, List.map_singleton,
        List.flatMap_singleton]
      exact hprev.addTarget hq

theorem Gathered.children (h : Gathered a l entries b targetChildren) : b.children = a.children := by
  rw [h.state]

theorem Gathered.targetList (h : Gathered a l entries b targetChildren) :
    b.targetList = a.targetList := by
  rw [h.state]

section Gathered

variable (h : a.Sound) (hgathered : Gathered a a.targetList entries b targetChildren)

include h hgathered

theorem Gathered.heap_child {c : Ref} (hc : a.children.get s = some c) : b.heap c = a.heap c :=
  hgathered.heap c (h.allocated s c hc)

theorem Gathered.heap_row (hr : r ∈ a.targetList) : b.heap r = a.heap r :=
  hgathered.heap r (h.rows r hr).1

theorem Gathered.child (s : Bytes) : b.child s = a.child s := by
  rw [State.child, State.child, hgathered.children]
  refine Option.map_congr fun c hc => ?_
  rw [hgathered.heap_child h hc]

theorem Gathered.rows : b.rows = a.rows := by
  rw [State.rows, State.rows, hgathered.targetList]
  refine List.map_congr_left fun r hr => ?_
  rw [hgathered.heap_row h hr]

theorem Gathered.last : b.last = a.last := by
  funext s
  rw [State.last, State.last, hgathered.targetList]
  refine List.find?_congr fun r hr => ?_
  rw [hgathered.heap_row h (List.mem_reverse.mp hr)]

/-- The objects made on the way do not matter. Source: `udping_agent`, `synchronize`. Kind: L -/
theorem Gathered.sound : b.Sound where
  signature s c hc := by
    rw [hgathered.children] at hc
    rw [hgathered.heap_child h hc]
    exact h.signature s c hc
  running s c hc := by
    rw [hgathered.children] at hc
    rw [hgathered.heap_child h hc]
    exact h.running s c hc
  allocated s c hc := by
    rw [hgathered.children] at hc
    exact Nat.lt_of_lt_of_le (h.allocated s c hc) hgathered.next
  rows r hr := by
    rw [hgathered.targetList] at hr
    rw [hgathered.heap_row h hr]
    exact ⟨Nat.lt_of_lt_of_le (h.rows r hr).1 hgathered.next, (h.rows r hr).2⟩
  retained r hr := by
    rw [hgathered.targetList] at hr
    rw [hgathered.heap_row h hr, hgathered.last h, hgathered.children]
    exact h.retained r hr

theorem Gathered.fits (hr : targetChildren.get s = some r) : b.Fits s r := by
  obtain ⟨hlt, horigin⟩ := hgathered.origin s r hr
  have htarget := hgathered.target s
  rw [hr, Option.map_some] at htarget
  refine ⟨signature_of_lastEntry htarget.symm, hlt, ?_⟩
  rw [hgathered.targetList, hgathered.last h]
  refine horigin.imp_right fun ⟨hge, hpid, hserver⟩ => ⟨fun hmem => ?_, hpid, hserver⟩
  exact absurd (h.rows r hmem).1 (Nat.not_lt.mpr hge)

end Gathered

/-! ## The last loop -/

theorem filter_kills (k : Bytes) (child : Option Params) :
    (kills k child).filter (·.signature = s) = if s = k then kills k child else [] := by
  split
  next h =>
    subst h
    exact List.filter_eq_self.mpr fun action haction => decide_eq_true (kills_signature action haction)
  next h =>
    refine List.filter_eq_nil_iff.mpr fun action haction => ?_
    rw [decide_eq_true_eq, kills_signature action haction]
    exact Ne.symm h

/-- The last loop kills the children of its keys that have no target, and no other.
Source: `udping_agent`, `synchronize`
Kind: P -/
theorem drops (targetChildren : Dict Bytes Ref) (keys : List Bytes) (h : a.Sound) :
    (keys.foldl (drop targetChildren) a).Sound ∧ (keys.foldl (drop targetChildren) a).rows = a.rows ∧
      ∃ actions, (keys.foldl (drop targetChildren) a).log = a.log ++ actions ∧ ∀ s,
        if s ∈ keys ∧ s ∉ targetChildren then
          (keys.foldl (drop targetChildren) a).child s = none ∧
            actions.filter (·.signature = s) = kills s (a.child s)
        else (keys.foldl (drop targetChildren) a).child s = a.child s ∧
            actions.filter (·.signature = s) = [] := by
  induction keys generalizing a with
  | nil => exact ⟨h, rfl, [], by simp, by simp⟩
  | cons k keys ih =>
      rw [List.foldl_cons]
      by_cases hk : k ∈ targetChildren
      · have hdrop : a.drop targetChildren k = a := if_pos hk
        rw [hdrop]
        obtain ⟨h', hrows, actions, hlog, hs⟩ := ih h
        refine ⟨h', hrows, actions, hlog, fun s => ?_⟩
        have hiff : s ∈ k :: keys ∧ s ∉ targetChildren ↔ s ∈ keys ∧ s ∉ targetChildren := by
          rw [List.mem_cons]
          constructor
          · rintro ⟨rfl | hmem, hnot⟩
            · exact absurd hk hnot
            · exact ⟨hmem, hnot⟩
          · exact fun ⟨hmem, hnot⟩ => ⟨Or.inr hmem, hnot⟩
        simp only [hiff]
        exact hs s
      · have hdrop : a.drop targetChildren k = a.killChild k := if_neg hk
        rw [hdrop]
        obtain ⟨h', hrows, actions, hlog, hs⟩ := ih (h.killChild k)
        refine ⟨h', hrows, kills k (a.child k) ++ actions, ?_, fun s => ?_⟩
        · rw [hlog, log_killChild, List.append_assoc]
        · have hs' := hs s
          rw [List.filter_append, filter_kills]
          by_cases hsk : s = k
          · -- the child is killed now, and nothing is left to kill later
            subst hsk
            rw [child_killChild, if_pos rfl] at hs'
            rw [if_pos ⟨List.mem_cons_self, hk⟩, if_pos rfl]
            split at hs'
            · exact ⟨hs'.1, by rw [hs'.2]; exact List.append_nil _⟩
            · exact ⟨hs'.1, by rw [hs'.2, List.append_nil]⟩
          · rw [child_killChild, if_neg hsk] at hs'
            simp only [List.mem_cons, hsk, false_or, if_false, List.nil_append]
            exact hs'

/-! ## The three loops -/

/-- **`synchronize` reconciles every signature** with the last entry that the target list has for it.
Source: `udping_agent`, `synchronize`
Kind: P -/
theorem synchronize_reconciled (fork : ℕ → ℕ) (h : a.Sound) :
    (a.synchronize fork).Sound ∧ (a.synchronize fork).rows = a.rows ∧
      ∃ actions, (a.synchronize fork).log = a.log ++ actions ∧ ∀ s,
        Reconciled fork s (a.child s) (desired a.rows s) ((a.synchronize fork).child s)
          (actions.filter (·.signature = s)) := by
  have hgathered := gathered fun r hr => (h.rows r hr).1
  generalize hb : (a.targetList.foldl addTarget (a, .empty)).1 = b at hgathered
  generalize htc : (a.targetList.foldl addTarget (a, .empty)).2 = targetChildren at hgathered
  obtain ⟨hc, hrows, first, hlog, hentries, hothers⟩ := visits fork targetChildren.items
    targetChildren.nodup (hgathered.sound h) fun e he => hgathered.fits h (Dict.get_eq_some.mpr he)
  generalize hcdef : targetChildren.items.foldl (visit fork) b = c at hc hrows hlog hentries hothers
  obtain ⟨hd, hrows', second, hlog', hdropped⟩ := drops targetChildren c.children.keys hc
  have hsync : a.synchronize fork = c.children.keys.foldl (drop targetChildren) c := by
    rw [← hcdef, ← hb, ← htc]
    rfl
  have hblog : b.log = a.log := by rw [hgathered.state]
  rw [← hsync] at hd hrows' hlog' hdropped
  refine ⟨hd, hrows'.trans (hrows.trans (hgathered.rows h)), first ++ second, ?_, fun s => ?_⟩
  · rw [hlog', hlog, hblog, List.append_assoc]
  · have hs := hdropped s
    have hdesired : desired a.rows s = _ := (hgathered.target s).symm
    rw [hdesired, List.filter_append, ← hgathered.child h]
    cases hget : targetChildren.get s with
    | some r =>
        have hmem : s ∈ targetChildren := Dict.mem_iff_get.mpr ⟨r, hget⟩
        rw [if_neg fun hnot => hnot.2 hmem] at hs
        rw [hs.1, hs.2, List.append_nil, Option.map_some]
        exact hentries (s, r) (Dict.get_eq_some.mp hget)
    | none =>
        have hnot : s ∉ targetChildren := Dict.get_eq_none.mp hget
        obtain ⟨hchild, hfirst⟩ := hothers s hnot
        rw [hfirst, List.nil_append, ← hchild, Option.map_none]
        by_cases hkey : s ∈ c.children
        · rw [if_pos ⟨hkey, hnot⟩] at hs
          rw [hs.1, hs.2]
          exact Reconciled.dropped _
        · have hnone : c.child s = none := by
            rw [State.child, Dict.get_eq_none.mpr hkey]
            rfl
          rw [if_neg fun hboth => hkey hboth.1] at hs
          rw [hs.1, hs.2, hnone]
          exact Reconciled.dropped none

/-! ## Every state that is reached -/

theorem Sound.checkForOrphans (h : a.Sound) (exited : ℕ → Bool) :
    (a.checkForOrphans exited).2.Sound := by
  have hreap : ∀ (keys : List Bytes) (x : ℕ × State), x.2.Sound →
      (keys.foldl (reap exited) x).2.Sound := by
    intro keys
    induction keys with
    | nil => exact fun _ hx => hx
    | cons k keys ih =>
        rintro ⟨ret, x⟩ hx
        refine ih _ ?_
        simp only [reap]
        split
        · split
          · exact hx.of_fewer rfl rfl rfl fun _ _ => get_of_get_erase
          · exact hx
        · exact hx
  exact hreap _ _ h

theorem heap_addRow (a : State) (p : Peer) :
    (a.addRow p).heap = Function.update a.heap a.next ⟨.peer p, none⟩ := rfl

theorem heap_addRow_of_lt (p : Peer) (hr : r < a.next) : (a.addRow p).heap r = a.heap r := by
  rw [heap_addRow, Function.update_of_ne (Nat.ne_of_lt hr)]

theorem heap_addRow_next (a : State) (p : Peer) : (a.addRow p).heap a.next = ⟨.peer p, none⟩ := by
  rw [heap_addRow, Function.update_self]

/-- A row is put into an object of its own, which has no `pid` yet.
Source: `udping_agent`, `update`
Kind: L -/
theorem Sound.addRow (h : a.Sound) (hpid : ∀ r ∈ a.targetList, (a.heap r).pid = none) (p : Peer) :
    (a.addRow p).Sound ∧ (∀ r ∈ (a.addRow p).targetList, ((a.addRow p).heap r).pid = none) ∧
      (a.addRow p).rows = a.rows ++ [.peer p] := by
  have hmem : ∀ r, r ∈ (a.addRow p).targetList ↔ r ∈ a.targetList ∨ r = a.next := by
    intro r
    show r ∈ a.targetList ++ [a.next] ↔ _
    rw [List.mem_append, List.mem_singleton]
  have hnone : ∀ r ∈ (a.addRow p).targetList, ((a.addRow p).heap r).pid = none := by
    intro r hr
    rcases (hmem r).mp hr with hold | rfl
    · rw [heap_addRow_of_lt p (h.rows r hold).1]
      exact hpid r hold
    · rw [heap_addRow_next]
  refine ⟨?_, hnone, ?_⟩
  · constructor
    case signature =>
      intro s c hc
      rw [heap_addRow_of_lt p (h.allocated s c hc)]
      exact h.signature s c hc
    case running =>
      intro s c hc
      rw [heap_addRow_of_lt p (h.allocated s c hc)]
      exact h.running s c hc
    case allocated => exact fun s c hc => Nat.lt_succ_of_lt (h.allocated s c hc)
    case rows =>
      intro r hr
      rcases (hmem r).mp hr with hold | rfl
      · rw [heap_addRow_of_lt p (h.rows r hold).1]
        exact ⟨Nat.lt_succ_of_lt (h.rows r hold).1, (h.rows r hold).2⟩
      · rw [heap_addRow_next]
        exact ⟨Nat.lt_succ_self _, p, rfl⟩
    case retained => exact fun r hr hsome => absurd (hnone r hr) hsome
  · show (a.targetList ++ [a.next]).map (fun r => ((a.addRow p).heap r).target) = _
    rw [List.map_append, List.map_singleton, heap_addRow_next]
    refine congrArg (· ++ [Target.peer p]) (List.map_congr_left fun r hr => ?_)
    rw [heap_addRow_of_lt p (h.rows r hr).1]

/-- An answer becomes the target list. Source: `udping_agent`, `update`. Kind: P -/
theorem Sound.update (h : a.Sound) (answer : Option (List Peer)) :
    (a.update answer).Sound ∧ (a.update answer).rows = answer.elim a.rows (List.map Target.peer) := by
  cases answer with
  | none => exact ⟨h, rfl⟩
  | some rows =>
      have hloop : ∀ (rows : List Peer) (x : State), x.Sound →
          (∀ r ∈ x.targetList, (x.heap r).pid = none) → (rows.foldl State.addRow x).Sound ∧
            (rows.foldl State.addRow x).rows = x.rows ++ rows.map Target.peer := by
        intro rows
        induction rows with
        | nil => exact fun x hx _ => ⟨hx, (List.append_nil _).symm⟩
        | cons p rows ih =>
            intro x hx hpid
            obtain ⟨hsound, hpid', hrows⟩ := hx.addRow hpid p
            obtain ⟨hall, hrows'⟩ := ih _ hsound hpid'
            refine ⟨hall, hrows'.trans ?_⟩
            rw [hrows, List.append_assoc]
            rfl
      have hempty : State.Sound { a with targetList := [] } :=
        { signature := h.signature
          running := h.running
          allocated := h.allocated
          rows := fun r hr => absurd hr List.not_mem_nil
          retained := fun r hr => absurd hr List.not_mem_nil }
      exact hloop rows _ hempty fun r hr => absurd hr List.not_mem_nil

end State

theorem sound_run (fork : ℕ → ℕ) (es : List Event) : ((agent fork).run es).Sound := by
  induction es using List.reverseRecOn with
  | nil =>
      exact {
        signature := fun s r hr => by cases hr
        running := fun s r hr => by cases hr
        allocated := fun s r hr => by cases hr
        rows := fun r hr => absurd hr List.not_mem_nil
        retained := fun r hr => absurd hr List.not_mem_nil }
  | append_singleton es e ih =>
      rw [EventMachine.run_concat]
      cases e with
      | update answer => exact (ih.update answer).1
      | synchronize => exact (State.synchronize_reconciled fork ih).1
      | checkForOrphans exited => exact ih.checkForOrphans exited

/-! ## What follows for the children -/

namespace Reconciled

variable {fork : ℕ → ℕ} {s : Bytes} {before after after' : Option Params} {goal : Option Target}
  {actions actions' : List Action} {child : Params} {process : Process}

theorem target_of_after (h : Reconciled fork s before goal (some child) actions) :
    goal = some child.target := by
  cases h with
  | kept => rfl
  | launched => rfl

theorem isSome_after (h : Reconciled fork s before goal after actions)
    (hbefore : ∀ child, before = some child → child.target.command.isSome) :
    after.isSome ↔ ∃ t, goal = some t ∧ t.command.isSome := by
  cases h with
  | kept child => exact iff_of_true rfl ⟨child.target, rfl, hbefore child rfl⟩
  | launched _ t command _ _ hcommand => exact iff_of_true rfl ⟨t, rfl, by rw [hcommand]; rfl⟩
  | refused _ t _ hcommand =>
      refine iff_of_false (by simp) ?_
      rintro ⟨_, ⟨⟩, hsome⟩
      rw [hcommand] at hsome
      cases hsome
  | dropped => exact iff_of_false (by simp) (by simp)

/-- A child made from the same thing as the target is left alone.
Source: `udping_agent`, `synchronize`
Kind: L -/
theorem kept_of_target (h : Reconciled fork s (some child) (some child.target) after actions) :
    after = some child ∧ actions = [] := by
  cases h with
  | kept => exact ⟨rfl, rfl⟩
  | launched _ _ _ _ hnew => exact absurd rfl (hnew child rfl)
  | refused _ _ hnew => exact absurd rfl (hnew child rfl)

/-- Any other child is killed, once. Source: `udping_agent`, `synchronize`. Kind: L -/
theorem killed_of_ne (h : Reconciled fork s (some child) goal after actions)
    (hprocess : child.pid = some process) (hne : goal ≠ some child.target) :
    actions.count (.kill s process) = 1 := by
  have hkills : kills s (some child) = [.kill s process] := by
    simp only [kills, Option.bind_some, hprocess, Option.map_some, Option.toList_some]
  cases h with
  | kept => exact absurd rfl hne
  | launched | refused | dropped => simp [hkills]

/-- Nothing is left to do. Source: `udping_agent`, `synchronize`. Kind: L -/
theorem again (h : Reconciled fork s before goal after actions)
    (h' : Reconciled fork s after goal after' actions') : after' = after ∧ actions' = [] := by
  cases h with
  | kept child => exact h'.kept_of_target
  | launched _ t command i =>
      exact Reconciled.kept_of_target h'
  | refused _ t _ hcommand =>
      cases h' with
      | launched _ _ _ _ _ hcommand' => cases hcommand.symm.trans hcommand'
      | refused => exact ⟨rfl, rfl⟩
  | dropped =>
      cases h' with
      | dropped => exact ⟨rfl, rfl⟩

end Reconciled

/-- **`synchronize` reconciles the children with the target list**, in every state that is reached:
the keys are the signatures whose last entry has a recognized mechanism; each child was made from that
entry; a child that was already made from it is left alone, and every other one is killed once; and
doing it again does nothing.
Source: `udping_agent`, `synchronize`
Kind: C -/
theorem synchronize_reconciles (fork : ℕ → ℕ) (es : List Event) :
    let a := (agent fork).run es
    let a' := a.synchronize fork
    let a'' := a'.synchronize fork
    (∀ s, s ∈ a'.children ↔ ∃ t, desired a.rows s = some t ∧
        (t.meshMechanism = ascii "ping" ∨ t.meshMechanism = ascii "udping")) ∧
      (∀ s child, a'.child s = some child → desired a.rows s = some child.target) ∧
      (∃ actions, a'.log = a.log ++ actions ∧ ∀ s child, a.child s = some child →
        ∃ process, child.pid = some process ∧
          if desired a.rows s = some child.target then
            a'.child s = some child ∧ ∀ action ∈ actions, action.signature ≠ s
          else actions.count (.kill s process) = 1) ∧
      a''.log = a'.log ∧ ∀ s, a''.child s = a'.child s := by
  intro a a' a''
  have h : a.Sound := sound_run fork es
  obtain ⟨h', hrows, actions, hlog, hrec⟩ := State.synchronize_reconciled fork h
  obtain ⟨-, -, actions', hlog', hrec'⟩ := State.synchronize_reconciled fork h'
  have hpid : ∀ s child, a.child s = some child → child.target.command.isSome ∧
      ∃ process, child.pid = some process := by
    intro s child hchild
    obtain ⟨r, hr, rfl⟩ := Option.map_eq_some_iff.mp hchild
    obtain ⟨i, command, hcommand, hprocess⟩ := h.running s r hr
    exact ⟨by rw [hcommand]; rfl, _, hprocess⟩
  have hagain : ∀ s, a''.child s = a'.child s ∧ actions'.filter (·.signature = s) = [] := by
    intro s
    have hs' := hrec' s
    rw [hrows] at hs'
    exact (hrec s).again hs'
  refine ⟨fun s => ?_, fun s child hchild => ?_, ⟨actions, hlog, fun s child hchild => ?_⟩, ?_,
    fun s => (hagain s).1⟩
  · have hsome : (a'.child s).isSome ↔ s ∈ a'.children := by
      rw [State.child, Option.isSome_map, Dict.mem_iff_get, Option.isSome_iff_exists]
    rw [← hsome, (hrec s).isSome_after fun child hchild => (hpid s child hchild).1]
    simp only [Target.command_isSome]
  · have hs := hrec s
    rw [show State.child _ s = some child from hchild] at hs
    exact hs.target_of_after
  · obtain ⟨-, process, hprocess⟩ := hpid s child hchild
    have hs := hrec s
    rw [hchild] at hs
    refine ⟨process, hprocess, ?_⟩
    split
    next hsame =>
      rw [hsame] at hs
      obtain ⟨hkept, hnone⟩ := hs.kept_of_target
      refine ⟨hkept, fun action haction hsig => ?_⟩
      exact absurd (decide_eq_true hsig) (List.filter_eq_nil_iff.mp hnone action haction)
    next hne =>
      rw [← hs.killed_of_ne hprocess hne, List.count_filter]
      exact decide_eq_true rfl
  · have hnil : actions' = [] := by
      refine List.eq_nil_iff_forall_not_mem.mpr fun action haction => ?_
      exact absurd (decide_eq_true rfl)
        (List.filter_eq_nil_iff.mp (hagain action.signature).2 action haction)
    rw [show a''.log = _ from hlog', hnil, List.append_nil]

/-- A row between two hosts. Source: none: infrastructure. Kind: D -/
def examplePeer (mechanism meshName : String) : Peer where
  localIp := ascii "10.0.0.1"
  localHostname := ascii "a"
  meshName := ascii meshName
  meshMechanism := ascii mechanism
  meshDelayMs := .integer 1000
  meshReportingIntervalS := .integer 30
  peerIp := ascii "10.0.0.2"
  peerHostname := ascii "b"

/-- The signature of a `udping` row has no child: the list goes on with a row of another mechanism
that has the same signature.
Source: `udping_agent`, `synchronize`
Kind: C -/
theorem shadowed_row :
    let rows := [examplePeer "udping" "foo:bar", examplePeer "udping:foo" "bar"]
    let a := (agent fun i => 100 + i).run [.update (some rows)]
    Target.peer (examplePeer "udping" "foo:bar") ∈ a.rows ∧
      (Target.peer (examplePeer "udping" "foo:bar")).signature ∉
        (a.synchronize fun i => 100 + i).children := by
  decide

end UDPing.Agent
