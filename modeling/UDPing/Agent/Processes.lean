import UDPing.Agent.MainLoop

/-!
# The processes of an agent

* `Slot`: what `children` is for: a place under each signature for one process, which is launched, and
  killed or found terminated. `Slot.accept`: the order in which that can be.
* `life`: what a call does to the process under a signature. `State.shutdown`: the handler of `SIGINT`.
* **`slots_followed`**: in any order of the calls, what happens under each signature is a history of its
  slot, the child is what is in it, and after `shutdown` it is empty.
-/

namespace UDPing.Agent

open Lib
open UDPing.Controller (Peer)

/-! ## Slots -/

/-- Source: `udping_agent`, `launchPing`, `killChild`, `checkForOrphans`. Kind: D -/
inductive Life where
  | launched (process : Process)
  | killed (process : Process)
  | terminated (process : Process)
deriving DecidableEq

/-- A process is put into an empty slot, and leaves the slot that it is in.
Source: `udping_agent`, `children`
Kind: D -/
def Slot.accept : Option Process → Life → Option (Option Process)
  | none, .launched process => some (some process)
  | some process, .killed process' => if process' = process then some none else none
  | some process, .terminated process' => if process' = process then some none else none
  | _, _ => none

/-- Source: `udping_agent`, `launchPing`, `killChild`. Kind: D -/
def Action.life : Action → Life
  | .launch _ process => .launched process
  | .kill _ process => .killed process

/-- The process under a signature. Source: `udping_agent`, `children`. Kind: D -/
def State.slot (s : Bytes) (a : State) : Option Process := (a.child s).bind Params.pid

/-- What the call has done under a signature: its part of the log.
Source: `udping_agent`, `synchronize`, `shutdown`
Kind: D -/
def logged (s : Bytes) (a a' : State) : List Life :=
  ((a'.log.drop a.log.length).filter (·.signature = s)).map Action.life

/-- Source: `udping_agent`. Kind: D -/
def life (fork : ℕ → ℕ) (s : Bytes) (a : State) : Event → List Life
  | .update _ => []
  | .synchronize => logged s a (a.synchronize fork)
  | .checkForOrphans exited =>
      ((a.slot s).filter fun process => exited process.number).toList.map .terminated

/-- Source: `udping_agent`, `shutdown`. Kind: D -/
def State.shutdown (a : State) : State := a.children.keys.foldl killChild a

/-! ## Each call -/

section Calls

variable {fork : ℕ → ℕ} {a : State} {s : Bytes}

theorem logged_of_log {a' : State} {actions : List Action} (h : a'.log = a.log ++ actions) :
    logged s a a' = (actions.filter (·.signature = s)).map Action.life := by
  rw [logged, h, List.drop_left]

theorem kills_accepted (child : Option Params) :
    ((kills s child).map Action.life).foldlM Slot.accept (child.bind Params.pid) = some none := by
  unfold kills
  cases hpid : child.bind Params.pid with
  | none => rfl
  | some process => simp [Action.life, Slot.accept]

/-- What becomes of a child is a history of its slot. Source: `udping_agent`, `synchronize`. Kind: L -/
theorem Reconciled.accepted {before after : Option Params} {goal : Option Target}
    {actions : List Action} (h : Reconciled fork s before goal after actions) :
    (actions.map Action.life).foldlM Slot.accept (before.bind Params.pid) =
      some (after.bind Params.pid) := by
  cases h with
  | kept child => rfl
  | launched _ t command i =>
      rw [List.map_append, List.foldlM_append, kills_accepted]
      rfl
  | refused => exact kills_accepted before
  | dropped => exact kills_accepted before

theorem State.Sound.accepted_synchronize (h : a.Sound) (fork : ℕ → ℕ) (s : Bytes) :
    (logged s a (a.synchronize fork)).foldlM Slot.accept (a.slot s) =
      some ((a.synchronize fork).slot s) := by
  obtain ⟨-, -, actions, hlog, hrec⟩ := State.synchronize_reconciled fork h
  rw [logged_of_log hlog]
  exact (hrec s).accepted

namespace State

theorem slot_eq (s : Bytes) (a : State) : a.slot s = (a.children.get s).bind a.process := by
  unfold slot child
  cases a.children.get s <;> rfl

/-- One pass over a child erases it exactly if its process has terminated.
Source: `udping_agent`, `checkForOrphans`
Kind: L -/
theorem slot_reap (exited : ℕ → Bool) (ret : ℕ) (a : State) (k : Bytes) :
    (reap exited (ret, a) k).2.slot s =
      if s = k then (a.slot s).filter fun process => !exited process.number else a.slot s := by
  have herase : State.slot s { a with children := a.children.erase k } =
      if s = k then none else a.slot s := by
    simp only [slot_eq, Dict.get_erase]
    split <;> rfl
  cases hslot : a.slot k with
  | none =>
      have hreap : reap exited (ret, a) k = (ret, a) := by simp only [reap, ← slot_eq, hslot]
      rw [hreap]
      by_cases hs : s = k
      · rw [if_pos hs, hs, hslot]
        rfl
      · rw [if_neg hs]
  | some process =>
      by_cases hexited : exited process.number
      · have hreap : reap exited (ret, a) k =
            (ret + 1, { a with children := a.children.erase k }) := by
          simp only [reap, ← slot_eq, hslot, hexited, if_true]
        rw [hreap, herase]
        by_cases hs : s = k
        · rw [if_pos hs, if_pos hs, hs, hslot, Option.filter_some_neg (by simp [hexited])]
        · rw [if_neg hs, if_neg hs]
      · have hreap : reap exited (ret, a) k = (ret, a) := by
          simp only [reap, ← slot_eq, hslot, hexited, if_false, Bool.false_eq_true]
        rw [hreap]
        by_cases hs : s = k
        · rw [if_pos hs, hs, hslot, Option.filter_some_pos (by simp [hexited])]
        · rw [if_neg hs]

theorem slot_reaps (exited : ℕ → Bool) (keys : List Bytes) (ret : ℕ) (a : State) :
    (keys.foldl (reap exited) (ret, a)).2.slot s =
      if s ∈ keys then (a.slot s).filter fun process => !exited process.number else a.slot s := by
  induction keys generalizing ret a with
  | nil => rfl
  | cons k keys ih =>
      obtain ⟨ret', a', hreap⟩ : ∃ ret' a', reap exited (ret, a) k = (ret', a') := ⟨_, _, rfl⟩
      have hslot := slot_reap (s := s) exited ret a k
      rw [hreap] at hslot
      rw [List.foldl_cons, hreap, ih, hslot]
      by_cases hs : s = k
      · rw [if_pos hs, if_pos (List.mem_cons.mpr (Or.inl hs))]
        split
        · rw [Option.filter_filter]
          simp only [Bool.and_self]
        · rfl
      · rw [if_neg hs]
        simp only [List.mem_cons, hs, false_or]

/-- Source: `udping_agent`, `checkForOrphans`. Kind: L -/
theorem slot_checkForOrphans (exited : ℕ → Bool) (s : Bytes) (a : State) :
    (a.checkForOrphans exited).2.slot s =
      (a.slot s).filter fun process => !exited process.number := by
  rw [checkForOrphans, slot_reaps]
  split
  · rfl
  · next h =>
      have hget : a.children.get s = none := Dict.get_eq_none.mpr h
      rw [slot_eq, hget]
      rfl

theorem accepted_checkForOrphans (fork : ℕ → ℕ) (exited : ℕ → Bool) (s : Bytes) (a : State) :
    (life fork s a (.checkForOrphans exited)).foldlM Slot.accept (a.slot s) =
      some ((a.checkForOrphans exited).2.slot s) := by
  rw [slot_checkForOrphans, life]
  cases a.slot s with
  | none => rfl
  | some process =>
      by_cases hexited : exited process.number <;> simp [Option.filter, hexited, Slot.accept]

theorem addRows_keep (rows : List Peer) (a : State) :
    (rows.foldl addRow a).children = a.children ∧
      ∀ r, r < a.next → (rows.foldl addRow a).heap r = a.heap r := by
  induction rows generalizing a with
  | nil => exact ⟨rfl, fun _ _ => rfl⟩
  | cons p rows ih =>
      obtain ⟨hchildren, hheap⟩ := ih (a.addRow p)
      refine ⟨hchildren, fun r hr => ?_⟩
      exact (hheap r (Nat.lt_succ_of_lt hr)).trans (heap_addRow_of_lt p hr)

/-- An answer is kept apart from the children. Source: `udping_agent`, `update`. Kind: L -/
theorem Sound.slot_update (h : a.Sound) (answer : Option (List Peer)) (s : Bytes) :
    (a.update answer).slot s = a.slot s := by
  cases answer with
  | none => rfl
  | some rows =>
      obtain ⟨hchildren, hheap⟩ := addRows_keep rows { a with targetList := [] }
      rw [slot_eq, slot_eq, show (a.update (some rows)).children = a.children from hchildren]
      cases hc : a.children.get s with
      | none => rfl
      | some c => exact congrArg Params.pid (hheap c (h.allocated s c hc))

/-- The handler kills every child. Source: `udping_agent`, `shutdown`. Kind: L -/
theorem shutdown_eq (a : State) : a.shutdown = a.children.keys.foldl (drop .empty) a := by
  rw [shutdown]
  refine congrArg (fun f => a.children.keys.foldl f a) ?_
  funext b k
  exact (if_neg List.not_mem_nil).symm

theorem Sound.accepted_shutdown (h : a.Sound) (s : Bytes) :
    (logged s a a.shutdown).foldlM Slot.accept (a.slot s) = some none ∧ a.shutdown.slot s = none := by
  obtain ⟨-, -, actions, hlog, hdropped⟩ := drops .empty a.children.keys h
  rw [← shutdown_eq] at hlog hdropped
  have hs := hdropped s
  rw [logged_of_log hlog]
  by_cases hkey : s ∈ a.children.keys
  · rw [if_pos ⟨hkey, List.not_mem_nil⟩] at hs
    refine ⟨?_, ?_⟩
    · rw [hs.2]
      exact kills_accepted (a.child s)
    · rw [slot, hs.1]
      rfl
  · rw [if_neg fun hall => hkey hall.1] at hs
    have hget : a.children.get s = none := Dict.get_eq_none.mpr hkey
    have hnone : a.slot s = none := by
      rw [slot_eq, hget]
      rfl
    refine ⟨?_, ?_⟩
    · rw [hs.2, hnone]
      rfl
    · rw [slot, hs.1]
      exact hnone

end State

end Calls

/-! ## Every order of the calls -/

/-- What has happened under a signature. Source: `udping_agent`. Kind: D -/
def lives (fork : ℕ → ℕ) (es : List Event) (s : Bytes) : List Life :=
  (agent fork).trace (life fork s) es

/-- **Under each signature there is one process at a time**: in any order of the calls, whatever the
controller answers and whichever processes terminate, none is launched while one is there, none is
killed that is not there, or after it has been found terminated; the one that is there is the child;
and after `shutdown` there is none.
Source: `udping_agent`
Kind: C -/
theorem slots_followed (fork : ℕ → ℕ) (es : List Event) (s : Bytes) :
    let a := (agent fork).run es
    (lives fork es s).foldlM Slot.accept none = some (a.slot s) ∧
      (lives fork es s ++ logged s a a.shutdown).foldlM Slot.accept none = some none ∧
      a.shutdown.slot s = none := by
  intro a
  have hlives : (lives fork es s).foldlM Slot.accept none = some (a.slot s) := by
    refine @EventMachine.foldlM_trace _ _ _ (agent fork) (life fork s) _ Slot.accept (State.slot s)
      (fun es e => ?_) es
    have hsound := sound_run fork es
    cases e with
    | update answer => exact congrArg some (hsound.slot_update answer s).symm
    | synchronize => exact hsound.accepted_synchronize fork s
    | checkForOrphans exited => exact State.accepted_checkForOrphans fork exited s _
  obtain ⟨hshutdown, hempty⟩ := (sound_run fork es).accepted_shutdown s
  refine ⟨hlives, ?_, hempty⟩
  rw [List.foldlM_append, hlives]
  exact hshutdown

end UDPing.Agent
