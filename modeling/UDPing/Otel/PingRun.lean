import UDPing.Lib.EventMachine
import UDPing.Otel.PingSender
import Mathlib.Data.Finset.Card
import Mathlib.Order.Interval.Finset.Nat

/-!
# What ping_otelsender counts in a run of ping

* `Follows`: the order in which `ping -O` reports. `targets` and `drops`: the pings with a line, and
  those with a miss and no answer.
* `Tells`: the slot that a line is sent to tells whether the ping had a line before.
* **`counts_exact_iff`**: the counts are right at every point of a run exactly if at every line the
  slot tells.
* **`exact_of_inBlock`**: so they are in every run without gaps whose numbers stay below `32768` and
  whose late answers arrive within the block of 1024 numbers of their ping.
  `overflowRun_miscounted`: they are not once the number is `32768`.
-/

namespace UDPing.Otel

open Lib

/-! ## Runs of ping -/

/-- The number a line is about. Source: none: specification. Kind: D -/
def PingLine.number : PingLine → Option ℕ
  | .miss n => some n
  | .reply n => some n
  | .other => none

/-- The pings that had a line. Source: none: specification. Kind: D -/
def numbers (lines : List PingLine) : Finset ℕ := (lines.filterMap PingLine.number).toFinset

/-- The pings that had a line without an answer, and no answer.
Source: none: specification
Kind: D -/
def missing (lines : List PingLine) : Finset ℕ :=
  (numbers lines).filter fun n => .miss n ∈ lines ∧ .reply n ∉ lines

/-- How many pings had a line. Source: none: specification. Kind: D -/
def targets (lines : List PingLine) : ℕ := (numbers lines).card

/-- How many pings had a line without an answer, and no answer.
Source: none: specification
Kind: D -/
def drops (lines : List PingLine) : ℕ := (missing lines).card

/-- The line `l` may come after `lines`: pings are numbered from 1, nothing comes after the answer to
a ping, and no line after one of a later ping, but an answer may come after lines of up to 500 later
pings.
Source: none: specification
Kind: D -/
def Follows (lines : List PingLine) : PingLine → Prop
  | .miss n => 1 ≤ n ∧ .reply n ∉ lines ∧ ∀ m ∈ numbers lines, m ≤ n
  | .reply n => 1 ≤ n ∧ .reply n ∉ lines ∧ ((numbers lines).filter (n < ·)).card ≤ 500
  | .other => True

/-- What holds of every line about a ping. Source: none: infrastructure. Kind: L -/
theorem Follows.basic {lines : List PingLine} {l : PingLine} {n : ℕ} (h : Follows lines l)
    (hl : l.number = some n) : 1 ≤ n ∧ .reply n ∉ lines := by
  cases l with
  | miss m =>
      cases hl
      exact ⟨h.1, h.2.1⟩
  | reply m =>
      cases hl
      exact ⟨h.1, h.2.1⟩
  | other => cases hl

section Lines

variable {lines : List PingLine} {n : ℕ}

theorem mem_numbers : n ∈ numbers lines ↔ .miss n ∈ lines ∨ .reply n ∈ lines := by
  unfold numbers
  rw [List.mem_toFinset, List.mem_filterMap]
  constructor
  · rintro ⟨l, hl, hn⟩
    cases l with
    | miss m =>
        cases hn
        exact Or.inl hl
    | reply m =>
        cases hn
        exact Or.inr hl
    | other => cases hn
  · rintro (hl | hl)
    · exact ⟨_, hl, rfl⟩
    · exact ⟨_, hl, rfl⟩

theorem mem_missing : n ∈ missing lines ↔ .miss n ∈ lines ∧ .reply n ∉ lines := by
  unfold missing
  rw [Finset.mem_filter, mem_numbers]
  constructor
  · exact fun h => h.2
  · exact fun h => ⟨Or.inl h.1, h⟩

/-- A line adds the number it is about. Source: none: infrastructure. Kind: L -/
theorem numbers_concat {l : PingLine} (hl : l.number = some n) :
    numbers (lines ++ [l]) = insert n (numbers lines) := by
  unfold numbers
  rw [List.filterMap_append, List.toFinset_append, Finset.union_comm]
  simp [hl]

theorem targets_concat {l : PingLine} (hl : l.number = some n) :
    targets (lines ++ [l]) = targets lines + if n ∈ numbers lines then 0 else 1 := by
  unfold targets
  rw [numbers_concat hl, Finset.card_insert_eq_ite]
  split_ifs with hmem <;> rfl

/-- A line without an answer opens a drop if it is its ping's first.
Source: none: infrastructure
Kind: L -/
theorem drops_concat_miss (hn : .reply n ∉ lines) :
    drops (lines ++ [.miss n]) = drops lines + if n ∈ numbers lines then 0 else 1 := by
  have hinsert : missing (lines ++ [.miss n]) = insert n (missing lines) := by
    ext m
    rw [Finset.mem_insert, mem_missing, mem_missing]
    simp only [List.mem_append, List.mem_singleton, PingLine.miss.injEq, reduceCtorEq, or_false]
    constructor
    · rintro ⟨hm | rfl, hr⟩
      · exact Or.inr ⟨hm, hr⟩
      · exact Or.inl rfl
    · rintro (rfl | ⟨hm, hr⟩)
      · exact ⟨Or.inr rfl, hn⟩
      · exact ⟨Or.inl hm, hr⟩
  have hmem : n ∈ missing lines ↔ n ∈ numbers lines := by
    rw [mem_missing, mem_numbers]
    exact ⟨fun h => Or.inl h.1, fun h => ⟨h.resolve_right hn, hn⟩⟩
  unfold drops
  rw [hinsert, Finset.card_insert_eq_ite, if_congr hmem rfl rfl]
  split_ifs with h <;> rfl

/-- An answer ends the drop if it is not its ping's first line.
Source: none: infrastructure
Kind: L -/
theorem drops_concat_reply (hn : .reply n ∉ lines) :
    drops (lines ++ [.reply n]) + (if n ∈ numbers lines then 1 else 0) = drops lines := by
  have herase : missing (lines ++ [.reply n]) = (missing lines).erase n := by
    ext m
    rw [Finset.mem_erase, mem_missing, mem_missing]
    simp only [List.mem_append, List.mem_singleton, PingLine.reply.injEq, reduceCtorEq, or_false,
      not_or]
    tauto
  have hmem : n ∈ missing lines ↔ n ∈ numbers lines := by
    rw [mem_missing, mem_numbers]
    exact ⟨fun h => Or.inl h.1, fun h => ⟨h.resolve_right hn, hn⟩⟩
  unfold drops
  rw [herase]
  split_ifs with h
  · exact Finset.card_erase_add_one (hmem.mpr h)
  · rw [Finset.erase_eq_of_notMem fun hm => h (hmem.mp hm), Nat.add_zero]

/-- A line that is about no ping changes nothing. Source: none: infrastructure. Kind: L -/
theorem concat_other (lines : List PingLine) :
    targets (lines ++ [.other]) = targets lines ∧ drops (lines ++ [.other]) = drops lines := by
  have hnumbers : numbers (lines ++ [.other]) = numbers lines := by
    ext m
    simp [mem_numbers]
  have hmissing : missing (lines ++ [.other]) = missing lines := by
    ext m
    simp [mem_missing]
  unfold targets drops
  rw [hnumbers, hmissing]
  exact ⟨rfl, rfl⟩

end Lines

/-! ## The slot of a line -/

section Slots

variable {F : Type}

/-- The slot of the ping `n` tells whether the ping had a line before: at its first line the place in
the ring is taken for a new one or holds zero, at a later line it is not and does not.
Source: none: specification
Kind: D -/
def Tells (s : PingState F) (lines : List PingLine) (n : ℕ) : Prop :=
  if n ∈ numbers lines then ¬s.IsNew (slot n) ∧ s.ringBuf (slot n) ≠ 0
  else s.IsNew (slot n) ∨ s.ringBuf (slot n) = 0

instance (s : PingState F) (lines : List PingLine) (n : ℕ) : Decidable (Tells s lines n) :=
  inferInstanceAs (Decidable (if n ∈ numbers lines then ¬s.IsNew (slot n) ∧ s.ringBuf (slot n) ≠ 0
    else s.IsNew (slot n) ∨ s.ringBuf (slot n) = 0))

theorem ringBuf_newSequence (s : PingState F) (i : ℤ) :
    (s.newSequence i).ringBuf i = 0 ↔ s.IsNew i ∨ s.ringBuf i = 0 := by
  unfold PingState.newSequence
  split_ifs with hnew
  · exact iff_of_true (Function.update_self i 0 s.ringBuf) (Or.inl hnew)
  · exact (or_iff_right hnew).symm

/-- What the slot tells is what the counting functions read.
Source: none: infrastructure
Kind: L -/
theorem tells_iff (s : PingState F) (lines : List PingLine) (n : ℕ) :
    Tells s lines n ↔ ((s.newSequence (slot n)).ringBuf (slot n) = 0 ↔ n ∉ numbers lines) := by
  unfold Tells
  rw [ringBuf_newSequence]
  split_ifs with hmem
  · simp only [hmem, not_true_eq_false, iff_false, not_or, ne_eq]
  · simp only [hmem, not_false_eq_true, iff_true]

theorem newSequence_counts (s : PingState F) (i : ℤ) :
    (s.newSequence i).targetCount = s.targetCount ∧ (s.newSequence i).dropCount = s.dropCount := by
  unfold PingState.newSequence
  split_ifs <;> exact ⟨rfl, rfl⟩

/-- Counting a miss. Source: `ping_otelsender.go`, `main`. Kind: L -/
theorem countMiss_counts (s : PingState F) (i : ℤ) :
    (s.countMiss i).targetCount = s.targetCount + (if s.ringBuf i = 0 then 1 else 0) ∧
      (s.countMiss i).dropCount = s.dropCount + (if s.ringBuf i = 0 then 1 else 0) := by
  unfold PingState.countMiss
  split_ifs with hzero
  · exact ⟨rfl, rfl⟩
  · exact ⟨(add_zero _).symm, (add_zero _).symm⟩

/-- Counting an answer. Source: `ping_otelsender.go`, `main`. Kind: L -/
theorem countReply_counts [Add F] (s : PingState F) (i : ℤ) (rtt : F) :
    (s.countReply i rtt).targetCount = s.targetCount + (if s.ringBuf i = 0 then 1 else 0) ∧
      (s.countReply i rtt).dropCount = s.dropCount - (if s.ringBuf i = 0 then 0 else 1) := by
  unfold PingState.countReply
  dsimp only
  split_ifs with hzero
  · exact ⟨rfl, (sub_zero _).symm⟩
  · exact ⟨(add_zero _).symm, rfl⟩

theorem countMiss_ring (s : PingState F) (i : ℤ) :
    (s.countMiss i).curSeq = s.curSeq ∧ (s.countMiss i).ringBuf =
      if s.ringBuf i = 0 then Function.update s.ringBuf i 1 else s.ringBuf := by
  unfold PingState.countMiss
  split_ifs <;> exact ⟨rfl, rfl⟩

theorem countReply_ring [Add F] (s : PingState F) (i : ℤ) (rtt : F) :
    (s.countReply i rtt).curSeq = s.curSeq ∧ (s.countReply i rtt).ringBuf = s.ringBuf := by
  unfold PingState.countReply
  dsimp only
  split_ifs <;> exact ⟨rfl, rfl⟩

/-- Two counts that were equal. Source: none: infrastructure. Kind: L -/
theorem add_ite_eq_iff {p q : Prop} [Decidable p] [Decidable q] (x : ℤ) :
    x + (if p then 1 else 0) = x + (if q then ((0 : ℕ) : ℤ) else ((1 : ℕ) : ℤ)) ↔ (p ↔ ¬q) := by
  by_cases hp : p <;> by_cases hq : q <;> simp [hp, hq]

theorem add_ite_sub_eq_iff {p q : Prop} [Decidable p] [Decidable q] (x : ℤ) :
    x + (if q then ((1 : ℕ) : ℤ) else ((0 : ℕ) : ℤ)) - (if p then 0 else 1) = x ↔ (p ↔ ¬q) := by
  by_cases hp : p <;> by_cases hq : q <;> simp [hp, hq]

end Slots

/-! ## Runs of the program -/

section Runs

variable {F : Type} [Zero F] [Add F] (parseFloat : Bytes → Option F)

/-- The program and the lines it has read; an event is a line and its text.
Source: `ping_otelsender.go`, `main`
Kind: D -/
def machine : EventMachine (Option (PingState F) × List PingLine) (PingLine × Bytes) where
  init := (some (PingState.start F), [])
  step st e := (st.1.bind fun s => s.step parseFloat e.2, st.2 ++ [e.1])

/-- The next line may follow, and is printed. Source: none: specification. Kind: D -/
def Admissible (st : Option (PingState F) × List PingLine) (e : PingLine × Bytes) : Prop :=
  Follows st.2 e.1 ∧ Prints parseFloat e.1 e.2

/-- The program runs and has counted the lines it has read.
Source: none: specification
Kind: D -/
def Exact (st : Option (PingState F) × List PingLine) : Prop :=
  ∃ s, st.1 = some s ∧ s.targetCount = targets st.2 ∧ s.dropCount = drops st.2

/-- The slot of the next line tells. Source: none: specification. Kind: D -/
def SlotTells (st : Option (PingState F) × List PingLine) (e : PingLine × Bytes) : Prop :=
  match st.1, e.1.number with
  | some s, some n => Tells s st.2 n
  | _, _ => True

instance : ∀ (st : Option (PingState F) × List PingLine) (e : PingLine × Bytes),
    Decidable (SlotTells st e)
  | (none, _), _ => isTrue trivial
  | (some s, lines), (.miss n, _) => inferInstanceAs (Decidable (Tells s lines n))
  | (some s, lines), (.reply n, _) => inferInstanceAs (Decidable (Tells s lines n))
  | (some _, _), (.other, _) => isTrue trivial

variable {parseFloat}

omit [Zero F] [Add F] in
theorem exact_some {s : PingState F} {lines : List PingLine} :
    Exact (some s, lines) ↔ s.targetCount = targets lines ∧ s.dropCount = drops lines := by
  constructor
  · rintro ⟨_, hs, hcounts⟩
    cases hs
    exact hcounts
  · exact fun hcounts => ⟨s, rfl, hcounts⟩

/-- **One line**: counts that are right stay right exactly if the line's slot tells.
Source: `ping_otelsender.go`, `main`
Kind: P -/
theorem exact_step_iff {st : Option (PingState F) × List PingLine} {e : PingLine × Bytes}
    (he : Admissible parseFloat st e) (hst : Exact st) :
    Exact ((machine parseFloat).step st e) ↔ SlotTells st e := by
  obtain ⟨_, lines⟩ := st
  obtain ⟨s, rfl, htarget, hdrop⟩ := hst
  obtain ⟨l, text⟩ := e
  obtain ⟨hfollows, hprints⟩ := he
  cases l with
  | miss n =>
      obtain ⟨hcountT, hcountD⟩ := countMiss_counts (s.newSequence (slot n)) (slot n)
      obtain ⟨hnewT, hnewD⟩ := newSequence_counts s (slot n)
      have ht := @targets_concat lines n (.miss n) rfl
      have hd := drops_concat_miss hfollows.2.1
      change Exact (s.step parseFloat text, lines ++ [.miss n]) ↔ Tells s lines n
      rw [step_miss hprints s, exact_some, tells_iff, hcountT, hcountD, hnewT, hnewD, htarget, hdrop,
        ht, hd, Nat.cast_add, Nat.cast_add, Nat.cast_ite, add_ite_eq_iff, add_ite_eq_iff, and_self]
  | reply n =>
      obtain ⟨rtt, hstep⟩ := step_reply hprints s
      obtain ⟨hcountT, hcountD⟩ := countReply_counts (s.newSequence (slot n)) (slot n) rtt
      obtain ⟨hnewT, hnewD⟩ := newSequence_counts s (slot n)
      have ht := @targets_concat lines n (.reply n) rfl
      have hd := drops_concat_reply hfollows.2.1
      change Exact (s.step parseFloat text, lines ++ [.reply n]) ↔ Tells s lines n
      rw [hstep, exact_some, tells_iff, hcountT, hcountD, hnewT, hnewD, htarget, hdrop, ht, ← hd,
        Nat.cast_add, Nat.cast_add, Nat.cast_ite, Nat.cast_ite, add_ite_eq_iff, add_ite_sub_eq_iff,
        and_self]
  | other =>
      change Exact (s.step parseFloat text, lines ++ [.other]) ↔ True
      rw [step_other hprints s, exact_some]
      have hsame := concat_other lines
      rw [hsame.1, hsame.2]
      exact iff_true_intro ⟨htarget, hdrop⟩

/-- **The counts are right at every point of a run exactly if at every line the slot tells.**
Source: `ping_otelsender.go`, `main`
Kind: P -/
theorem counts_exact_iff (es : List (PingLine × Bytes))
    (hes : (machine parseFloat).Always (Admissible parseFloat) es) :
    (∀ pre, pre <+: es → Exact ((machine parseFloat).run pre)) ↔
      (machine parseFloat).Always SlotTells es := by
  refine (machine parseFloat).forall_prefix_iff_always ?_ ?_ es hes
  · exact ⟨PingState.start F, rfl, rfl, rfl⟩
  · intro es e _ he hes
    rw [EventMachine.run_concat]
    exact exact_step_iff he hes

end Runs

/-! ## Runs within one block -/

/-- The next line's number is read as it is, is at most one more than all before, and if it is not
more, lies in the block of 1024 numbers that the ring holds.
Source: none: specification
Kind: D -/
def InBlock {F : Type} (st : Option (PingState F) × List PingLine) (e : PingLine × Bytes) : Prop :=
  ∀ n, e.1.number = some n → n ≤ 32767 ∧ n ≤ targets st.2 + 1 ∧
    (n ≤ targets st.2 → n / 1024 = targets st.2 / 1024)

/-- After lines about the pings from 1 to `top`, `curSeq` is the place of `top`, and the places of
the current block hold the misses.
Source: `ping_otelsender.go`, `main`
Kind: D -/
structure Tracks {F : Type} (s : PingState F) (lines : List PingLine) (top : ℕ) : Prop where
  numbers : numbers lines = Finset.Icc 1 top
  curSeq : s.curSeq = (top % 1024 : ℕ)
  ringBuf : ∀ m, 1 ≤ m → m ≤ top → m / 1024 = top / 1024 →
    (s.ringBuf (m % 1024 : ℕ) ≠ 0 ↔ .miss m ∈ lines)

theorem slot_of_le {n : ℕ} (hn : n ≤ 32767) : slot n = (n % 1024 : ℕ) := by
  have hmod : n % 65536 = n := Nat.mod_eq_of_lt (by omega)
  unfold slot
  rw [hmod, Nat.min_eq_left hn]

namespace Tracks

variable {F : Type} {s : PingState F} {lines : List PingLine} {top n : ℕ}

theorem targets_eq (h : Tracks s lines top) : targets lines = top := by
  rw [targets, h.numbers, Nat.card_Icc]
  omega

/-- The place of the next number is taken for a new one.
Source: `ping_otelsender.go`, `main`
Kind: L -/
theorem isNew_succ (h : Tracks s lines top) (htop : top + 1 ≤ 32767) : s.IsNew (slot (top + 1)) := by
  unfold PingState.IsNew
  rw [slot_of_le htop, h.curSeq]
  omega

/-- The place of a number of the block, at most 500 back, is not.
Source: `ping_otelsender.go`, `main`
Kind: L -/
theorem not_isNew (h : Tracks s lines top) (hn : n ≤ top) (hblock : n / 1024 = top / 1024)
    (hlate : top ≤ n + 500) (hmax : n ≤ 32767) : ¬s.IsNew (slot n) := by
  unfold PingState.IsNew
  rw [slot_of_le hmax, h.curSeq]
  omega

/-- The ring after the next number's place was taken for a new one.
Source: `ping_otelsender.go`, `main`
Kind: L -/
theorem newSequence_succ (h : Tracks s lines top) (htop : top + 1 ≤ 32767) :
    (s.newSequence (slot (top + 1))).curSeq = ((top + 1) % 1024 : ℕ) ∧
      (s.newSequence (slot (top + 1))).ringBuf =
        Function.update s.ringBuf ((top + 1) % 1024 : ℕ) 0 := by
  have hnew := h.isNew_succ htop
  unfold PingState.newSequence
  rw [if_pos hnew, slot_of_le htop]
  exact ⟨rfl, rfl⟩

/-- The first line of the next ping: its place holds `value` afterwards.
Source: `ping_otelsender.go`, `main`
Kind: L -/
theorem concat_first (h : Tracks s lines top) {s' : PingState F} {l : PingLine} {value : ℤ}
    (hl : l.number = some (top + 1)) (hcur : s'.curSeq = ((top + 1) % 1024 : ℕ))
    (hring : s'.ringBuf = Function.update s.ringBuf ((top + 1) % 1024 : ℕ) value)
    (hvalue : value ≠ 0 ↔ l = .miss (top + 1)) : Tracks s' (lines ++ [l]) (top + 1) := by
  have hnumbers : UDPing.Otel.numbers (lines ++ [l]) = Finset.Icc 1 (top + 1) := by
    rw [numbers_concat hl, h.numbers]
    ext m
    rw [Finset.mem_insert, Finset.mem_Icc, Finset.mem_Icc]
    omega
  refine ⟨hnumbers, hcur, fun m hm hle hblock => ?_⟩
  rw [hring, List.mem_append, List.mem_singleton]
  by_cases hmtop : m = top + 1
  · subst hmtop
    have hnone : .miss (top + 1) ∉ lines := by
      intro hmem
      have hmem' : top + 1 ∈ UDPing.Otel.numbers lines := mem_numbers.mpr (Or.inl hmem)
      rw [h.numbers, Finset.mem_Icc] at hmem'
      omega
    rw [Function.update_self, hvalue, or_iff_right hnone, eq_comm]
  · have hplace : ((m % 1024 : ℕ) : ℤ) ≠ ((top + 1) % 1024 : ℕ) := by omega
    have hl' : PingLine.miss m ≠ l := by
      rintro rfl
      exact hmtop (Option.some.inj hl)
    rw [Function.update_of_ne hplace, or_iff_left hl']
    exact h.ringBuf m hm (by omega) (by omega)

/-- A later line about a ping: the ring stays as it is.
Source: `ping_otelsender.go`, `main`
Kind: L -/
theorem concat_later (h : Tracks s lines top) {s' : PingState F} {l : PingLine}
    (hl : l.number = some n) (hn : n ∈ UDPing.Otel.numbers lines)
    (hmiss : .miss n ∈ lines) (hcur : s'.curSeq = s.curSeq) (hring : s'.ringBuf = s.ringBuf) :
    Tracks s' (lines ++ [l]) top := by
  have hnumbers : UDPing.Otel.numbers (lines ++ [l]) = Finset.Icc 1 top := by
    rw [numbers_concat hl, Finset.insert_eq_of_mem hn, h.numbers]
  refine ⟨hnumbers, hcur.trans h.curSeq, fun m hm hle hblock => ?_⟩
  rw [hring, h.ringBuf m hm hle hblock, List.mem_append, List.mem_singleton]
  constructor
  · exact Or.inl
  · rintro (hmem | rfl)
    · exact hmem
    · rwa [Option.some.inj hl]

theorem concat_other (h : Tracks s lines top) : Tracks s (lines ++ [.other]) top := by
  refine ⟨?_, h.curSeq, fun m hm hle hblock => ?_⟩
  · rw [← h.numbers]
    ext m
    simp [mem_numbers]
  · rw [h.ringBuf m hm hle hblock]
    simp

/-- How late a line is. Source: none: infrastructure. Kind: L -/
theorem le_add_of_follows (h : Tracks s lines top) {l : PingLine} (hfollows : Follows lines l)
    (hl : l.number = some n) (hn : n ≤ top) : top ≤ n + 500 := by
  cases l with
  | miss m =>
      cases hl
      have hmem : top ∈ UDPing.Otel.numbers lines := by
        rw [h.numbers, Finset.mem_Icc]
        exact ⟨hfollows.1.trans hn, le_rfl⟩
      have hle := hfollows.2.2 top hmem
      omega
  | reply m =>
      cases hl
      have hcard := hfollows.2.2
      have hlater : (Finset.Icc 1 top).filter (n < ·) = Finset.Icc (n + 1) top := by
        ext m
        rw [Finset.mem_filter, Finset.mem_Icc, Finset.mem_Icc]
        omega
      rw [h.numbers, hlater, Nat.card_Icc] at hcard
      omega
  | other => cases hl

/-- A later line about a ping finds the place of its ping, holding a miss.
Source: `ping_otelsender.go`, `main`
Kind: L -/
theorem later (h : Tracks s lines top) {l : PingLine} (hfollows : Follows lines l)
    (hl : l.number = some n) (hn : n ≤ top) (hblock : n / 1024 = top / 1024) (hmax : n ≤ 32767) :
    n ∈ UDPing.Otel.numbers lines ∧ .miss n ∈ lines ∧ ¬s.IsNew (slot n) ∧
      s.ringBuf (slot n) ≠ 0 := by
  obtain ⟨hpos, hreply⟩ := hfollows.basic hl
  have hlate := h.le_add_of_follows hfollows hl hn
  have hmem : n ∈ UDPing.Otel.numbers lines := by
    rw [h.numbers, Finset.mem_Icc]
    exact ⟨hpos, hn⟩
  have hmiss : .miss n ∈ lines := (mem_numbers.mp hmem).resolve_right hreply
  have hring := (h.ringBuf n hpos hn hblock).mpr hmiss
  rw [← slot_of_le hmax] at hring
  exact ⟨hmem, hmiss, h.not_isNew hn hblock hlate hmax, hring⟩

/-- **The slot tells** in a run within the block.
Source: `ping_otelsender.go`, `main`
Kind: P -/
theorem tells (h : Tracks s lines top) {l : PingLine} (hfollows : Follows lines l)
    (hl : l.number = some n) (hmax : n ≤ 32767) (hsucc : n ≤ top + 1)
    (hold : n ≤ top → n / 1024 = top / 1024) : Tells s lines n := by
  unfold Tells
  rcases Nat.lt_or_ge top n with hn | hn
  · obtain rfl : n = top + 1 := by omega
    have hnone : top + 1 ∉ UDPing.Otel.numbers lines := by
      rw [h.numbers, Finset.mem_Icc]
      omega
    rw [if_neg hnone]
    exact Or.inl (h.isNew_succ hmax)
  · obtain ⟨hmem, -, hnew, hring⟩ := h.later hfollows hl hn (hold hn) hmax
    rw [if_pos hmem]
    exact ⟨hnew, hring⟩

variable [Add F] {parseFloat : Bytes → Option F}

/-- **One line** of a run within the block keeps the ring.
Source: `ping_otelsender.go`, `main`
Kind: P -/
theorem step (h : Tracks s lines top) {l : PingLine} {text : Bytes}
    (hfollows : Follows lines l) (hprints : Prints parseFloat l text) (hl : l.number = some n)
    (hmax : n ≤ 32767) (hsucc : n ≤ top + 1) (hold : n ≤ top → n / 1024 = top / 1024) :
    ∃ s' top', s.step parseFloat text = some s' ∧ Tracks s' (lines ++ [l]) top' := by
  rcases Nat.lt_or_ge top n with hn | hn
  · obtain rfl : n = top + 1 := by omega
    obtain ⟨hcur, hring⟩ := h.newSequence_succ hmax
    have hzero : (s.newSequence (slot (top + 1))).ringBuf (slot (top + 1)) = 0 := by
      rw [hring, slot_of_le hmax, Function.update_self]
    cases l with
    | miss m =>
        cases hl
        refine ⟨_, top + 1, step_miss hprints s, ?_⟩
        obtain ⟨hcur', hring'⟩ := countMiss_ring (s.newSequence (slot (top + 1))) (slot (top + 1))
        apply h.concat_first rfl (hcur'.trans hcur) _ (iff_of_true one_ne_zero rfl)
        rw [hring', if_pos hzero, hring, slot_of_le hmax, Function.update_idem]
    | reply m =>
        cases hl
        obtain ⟨rtt, hstep⟩ := step_reply hprints s
        refine ⟨_, top + 1, hstep, ?_⟩
        obtain ⟨hcur', hring'⟩ := countReply_ring (s.newSequence (slot (top + 1)))
          (slot (top + 1)) rtt
        exact h.concat_first rfl (hcur'.trans hcur) (hring'.trans hring)
          (iff_of_false (fun hne => hne rfl) PingLine.noConfusion)
    | other => cases hl
  · obtain ⟨hmem, hmiss, hnew, hring⟩ := h.later hfollows hl hn (hold hn) hmax
    have hsame : s.newSequence (slot n) = s := if_neg hnew
    cases l with
    | miss m =>
        cases hl
        refine ⟨_, top, step_miss hprints s, ?_⟩
        obtain ⟨hcur', hring'⟩ := countMiss_ring (s.newSequence (slot n)) (slot n)
        rw [hsame, if_neg hring] at hring'
        rw [hsame] at hcur' ⊢
        exact h.concat_later rfl hmem hmiss hcur' hring'
    | reply m =>
        cases hl
        obtain ⟨rtt, hstep⟩ := step_reply hprints s
        refine ⟨_, top, hstep, ?_⟩
        rw [hsame]
        obtain ⟨hcur', hring'⟩ := countReply_ring s (slot n) rtt
        exact h.concat_later rfl hmem hmiss hcur' hring'
    | other => cases hl

end Tracks

section Block

variable {F : Type} [Zero F] [Add F] {parseFloat : Bytes → Option F}

/-- **A run within the block** keeps the ring, and the counts are right.
Source: `ping_otelsender.go`, `main`
Kind: P -/
theorem exact_of_inBlock (es : List (PingLine × Bytes))
    (hes : (machine parseFloat).Always (Admissible parseFloat) es)
    (hblock : (machine parseFloat).Always InBlock es) :
    Exact ((machine parseFloat).run es) ∧
      ∃ s top, ((machine parseFloat).run es).1 = some s ∧
        Tracks s ((machine parseFloat).run es).2 top := by
  induction es using List.reverseRecOn with
  | nil =>
      refine ⟨⟨PingState.start F, rfl, rfl, rfl⟩, PingState.start F, 0, rfl, rfl, rfl, ?_⟩
      intro m hm hle
      omega
  | append_singleton es e ih =>
      obtain ⟨hes, he⟩ := (EventMachine.always_concat _ _ es e).mp hes
      obtain ⟨hblock, hb⟩ := (EventMachine.always_concat _ _ es e).mp hblock
      obtain ⟨hexact, s, top, hs, htracks⟩ := ih hes hblock
      rw [EventMachine.run_concat]
      generalize (machine parseFloat).run es = st at *
      obtain ⟨_, lines⟩ := st
      obtain ⟨l, text⟩ := e
      cases hs
      rw [exact_step_iff he hexact]
      cases hl : l.number with
      | none =>
          obtain rfl : l = .other := by
            cases l with
            | other => rfl
            | miss n => cases hl
            | reply n => cases hl
          refine ⟨trivial, s, top, step_other he.2 s, htracks.concat_other⟩
      | some n =>
          obtain ⟨hmax, hsucc, hold⟩ := hb n hl
          dsimp only at hsucc hold
          rw [htracks.targets_eq] at hsucc hold
          obtain ⟨s', top', hstep, htracks'⟩ := htracks.step he.1 he.2 hl hmax hsucc hold
          refine ⟨?_, s', top', hstep, htracks'⟩
          unfold SlotTells
          dsimp only
          rw [hl]
          exact htracks.tells he.1 hl hmax hsucc hold

end Block

/-! ## Concrete lines -/

/-- `strconv.ParseFloat` on the texts of whole numbers. Source: `strconv.ParseFloat`. Kind: D -/
def wholeNumber (s : Bytes) : Option ℤ :=
  if (parseInt 53 s).2 then some (parseInt 53 s).1 else none

/-- Source: none: specification. Kind: D -/
def missText (n : ℕ) : Bytes := ascii "no answer yet for icmp_seq=" ++ decimal (n % 65536)

/-- Source: none: specification. Kind: D -/
def replyText (n : ℕ) : Bytes :=
  ascii "64 bytes from 10.0.0.1: icmp_seq=" ++ (decimal (n % 65536) ++ ascii " ttl=64 time=123 ms")

theorem prints_missText (n : ℕ) : Prints wholeNumber (.miss n) (missText n) := by
  refine ⟨⟨[], ?_, Or.inl rfl⟩, ?_⟩
  · rw [List.append_nil]
    rfl
  · rfl

/-- A byte of an answer's text. Source: none: infrastructure. Kind: L -/
theorem notMem_replyText {c : UInt8} (hfront : c ∉ ascii "64 bytes from 10.0.0.1: icmp_seq=")
    (hdigit : ¬(48 ≤ c.toNat ∧ c.toNat ≤ 57)) (hback : c ∉ ascii " ttl=64 time=123 ms") (n : ℕ) :
    c ∉ replyText n := by
  unfold replyText
  rw [List.mem_append, List.mem_append]
  rintro (h | h | h)
  · exact hfront h
  · exact hdigit (mem_decimal h)
  · exact hback h

theorem prints_replyText (n : ℕ) : Prints wholeNumber (.reply n) (replyText n) := by
  refine ⟨⟨ascii " ttl=64 time=123 ms", rfl, Or.inr ⟨_, rfl⟩⟩, ?_,
    ascii "time=123 ms", ascii "123", 123, ?_, rfl, rfl⟩
  · have hanswer : occurs (ascii "no answer yet") (replyText n) = false :=
      @not_occurs_of_notMem 119 _ _ (by decide)
        (notMem_replyText (by decide) (by decide) (by decide) n)
    have hunreachable : occurs (ascii "Unreachable") (replyText n) = false :=
      @not_occurs_of_notMem 85 _ _ (by decide)
        (notMem_replyText (by decide) (by decide) (by decide) n)
    have hroute : occurs (ascii "No route to host") (replyText n) = false :=
      @not_occurs_of_notMem 78 _ _ (by decide)
        (notMem_replyText (by decide) (by decide) (by decide) n)
    unfold saysMiss
    rw [hanswer, hunreachable, hroute]
    decide
  · have hdigits : 116 ∉ decimal (n % 65536) := by
      intro hmem
      exact absurd (mem_decimal hmem) (by decide)
    exact fromIndex_append_left hdigits (ascii " ttl=64 time=123 ms")

/-- A late answer. Source: none: specification. Kind: D -/
def lateRun : List (PingLine × Bytes) :=
  [(.miss 1, missText 1), (.miss 2, missText 2), (.reply 1, replyText 1)]

theorem counts_exact_iff_lateRun : Exact ((machine wholeNumber).run lateRun) := by
  have hadmissible : (machine wholeNumber).Always (Admissible wholeNumber) lateRun := by
    refine ⟨⟨?_, prints_missText 1⟩, ⟨?_, prints_missText 2⟩, ⟨?_, prints_replyText 1⟩, trivial⟩
    · exact ⟨by decide, by decide, by decide⟩
    · exact ⟨by decide, by decide, by decide⟩
    · exact ⟨by decide, by decide, by decide⟩
  have htells : (machine wholeNumber).Always SlotTells lateRun := by decide +kernel
  exact (counts_exact_iff lateRun hadmissible).mpr htells lateRun List.prefix_rfl

/-! ## A run that is miscounted -/

/-- The pings from 1 to `k`, each answered at once. Source: none: specification. Kind: D -/
def promptRun (k : ℕ) : List (PingLine × Bytes) :=
  (List.range k).map fun i => (.reply (i + 1), replyText (i + 1))

/-- All pings are answered at once, but for the last two: the answer to `32767` is missing, and
`32768` has the last line.
Source: none: specification
Kind: D -/
def overflowRun : List (PingLine × Bytes) :=
  promptRun 32766 ++ [(.miss 32767, missText 32767)] ++ [(.reply 32768, replyText 32768)]

theorem run_snd {F : Type} [Zero F] [Add F] (parseFloat : Bytes → Option F)
    (es : List (PingLine × Bytes)) :
    ((machine parseFloat).run es).2 = es.map Prod.fst := by
  induction es using List.reverseRecOn with
  | nil => rfl
  | append_singleton es e ih =>
      rw [EventMachine.run_concat, List.map_append]
      exact congrArg (· ++ [e.1]) ih

theorem numbers_promptRun (k : ℕ) :
    numbers ((promptRun k).map Prod.fst) = Finset.Icc 1 k := by
  ext m
  simp only [mem_numbers, promptRun, List.map_map, List.mem_map, List.mem_range,
    Function.comp_apply, reduceCtorEq, and_false, exists_false, false_or, PingLine.reply.injEq,
    Finset.mem_Icc]
  constructor
  · rintro ⟨i, hi, rfl⟩
    omega
  · exact fun hm => ⟨m - 1, by omega, by omega⟩

/-- The next number may follow. Source: none: specification. Kind: L -/
theorem follows_next {lines : List PingLine} {k : ℕ} (hnumbers : numbers lines = Finset.Icc 1 k) :
    Follows lines (.miss (k + 1)) ∧ Follows lines (.reply (k + 1)) := by
  have hreply : .reply (k + 1) ∉ lines := by
    intro hmem
    have hmem' := mem_numbers.mpr (Or.inr hmem)
    rw [hnumbers, Finset.mem_Icc] at hmem'
    omega
  refine ⟨⟨by omega, hreply, fun m hm => ?_⟩, by omega, hreply, ?_⟩
  · rw [hnumbers, Finset.mem_Icc] at hm
    omega
  · have hnone : (Finset.Icc 1 k).filter (k + 1 < ·) = ∅ := by
      apply Finset.filter_eq_empty_iff.mpr
      intro m hm
      rw [Finset.mem_Icc] at hm
      omega
    rw [hnumbers, hnone]
    exact Nat.zero_le _

/-- The next number lies in the block. Source: none: specification. Kind: L -/
theorem inBlock_next {F : Type} {st : Option (PingState F) × List PingLine} {k : ℕ}
    (hnumbers : numbers st.2 = Finset.Icc 1 k) (hk : k + 1 ≤ 32767) {l : PingLine}
    (hl : l.number = some (k + 1)) (text : Bytes) : InBlock st (l, text) := by
  intro n hn
  have htargets : targets st.2 = k := by
    rw [targets, hnumbers, Nat.card_Icc]
    omega
  obtain rfl : n = k + 1 := Option.some.inj (hn.symm.trans hl)
  rw [htargets]
  omega

/-- Prompt answers may follow each other within the first 32767 numbers.
Source: none: specification
Kind: L -/
theorem always_promptRun {k : ℕ} (hk : k ≤ 32767) :
    (machine wholeNumber).Always (Admissible wholeNumber) (promptRun k) ∧
      (machine wholeNumber).Always InBlock (promptRun k) := by
  induction k with
  | zero => exact ⟨trivial, trivial⟩
  | succ k ih =>
      obtain ⟨hadmissible, hblock⟩ := ih (by omega)
      have hconcat : promptRun (k + 1) =
          promptRun k ++ [(.reply (k + 1), replyText (k + 1))] := by
        rw [promptRun, List.range_succ, List.map_append]
        rfl
      have hnumbers : numbers ((machine wholeNumber).run (promptRun k)).2 = Finset.Icc 1 k := by
        rw [run_snd, numbers_promptRun]
      rw [hconcat, EventMachine.always_concat, EventMachine.always_concat]
      exact ⟨⟨hadmissible, (follows_next hnumbers).2, prints_replyText (k + 1)⟩, hblock,
        inBlock_next hnumbers hk rfl _⟩

/-- The number `32768` is read as `32767`, and an answer to it is taken for one to the ping before.
Source: `ping_otelsender.go`, `main`
Kind: L -/
theorem miscounted_of_block {es : List (PingLine × Bytes)}
    (hadmissible : (machine wholeNumber).Always (Admissible wholeNumber) es)
    (hblock : (machine wholeNumber).Always InBlock es)
    (hnumbers : numbers ((machine wholeNumber).run es).2 = Finset.Icc 1 32766) :
    (machine wholeNumber).Always (Admissible wholeNumber)
        (es ++ [(.miss 32767, missText 32767)] ++ [(.reply 32768, replyText 32768)]) ∧
      ¬Exact ((machine wholeNumber).run
        (es ++ [(.miss 32767, missText 32767)] ++ [(.reply 32768, replyText 32768)])) := by
  have hadmissible' : (machine wholeNumber).Always (Admissible wholeNumber)
      (es ++ [(.miss 32767, missText 32767)]) := by
    rw [EventMachine.always_concat]
    exact ⟨hadmissible, (follows_next hnumbers).1, prints_missText 32767⟩
  have hblock' : (machine wholeNumber).Always InBlock (es ++ [(.miss 32767, missText 32767)]) := by
    rw [EventMachine.always_concat]
    exact ⟨hblock, inBlock_next hnumbers le_rfl rfl _⟩
  obtain ⟨hexact, s, top, hs, htracks⟩ := exact_of_inBlock _ hadmissible' hblock'
  have hlines : ((machine wholeNumber).run (es ++ [(.miss 32767, missText 32767)])).2 =
      ((machine wholeNumber).run es).2 ++ [.miss 32767] := by
    rw [EventMachine.run_concat]
    rfl
  have hall : numbers ((machine wholeNumber).run (es ++ [(.miss 32767, missText 32767)])).2 =
      Finset.Icc 1 32767 := by
    rw [hlines, @numbers_concat _ 32767 (.miss 32767) rfl, hnumbers]
    ext m
    rw [Finset.mem_insert, Finset.mem_Icc, Finset.mem_Icc]
    omega
  have hmiss : .miss 32767 ∈ ((machine wholeNumber).run (es ++ [(.miss 32767, missText 32767)])).2 := by
    rw [hlines]
    exact List.mem_append_right _ List.mem_cons_self
  rw [EventMachine.always_concat, EventMachine.run_concat _ (es ++ _)]
  generalize (machine wholeNumber).run (es ++ [(.miss 32767, missText 32767)]) = st at *
  have he : Admissible wholeNumber st (.reply 32768, replyText 32768) :=
    ⟨(follows_next hall).2, prints_replyText 32768⟩
  refine ⟨⟨hadmissible', he⟩, ?_⟩
  rw [exact_step_iff he hexact]
  obtain ⟨_, lines⟩ := st
  cases hs
  have htop : top = 32767 := by
    have htargets := htracks.targets_eq
    rw [targets, hall, Nat.card_Icc] at htargets
    omega
  subst htop
  have hslot : slot 32768 = 1023 := by decide
  have hring : s.ringBuf 1023 ≠ 0 := (htracks.ringBuf 32767 (by omega) le_rfl rfl).mpr hmiss
  have hcur : s.curSeq = 1023 := htracks.curSeq
  have hnone : 32768 ∉ numbers lines := by
    rw [hall, Finset.mem_Icc]
    omega
  change ¬Tells s lines 32768
  unfold Tells PingState.IsNew
  rw [if_neg hnone, hslot, hcur]
  rintro (hnew | hzero)
  · omega
  · exact hring hzero

/-- **A run of 32768 pings is miscounted.** Source: `ping_otelsender.go`, `main`. Kind: P -/
theorem overflowRun_miscounted :
    (machine wholeNumber).Always (Admissible wholeNumber) overflowRun ∧
      ¬Exact ((machine wholeNumber).run overflowRun) := by
  have hprompt := @always_promptRun 32766
  have hnumbers := numbers_promptRun 32766
  unfold overflowRun
  generalize promptRun 32766 = es at hprompt hnumbers ⊢
  rw [← run_snd wholeNumber] at hnumbers
  exact miscounted_of_block (hprompt (by omega)).1 (hprompt (by omega)).2 hnumbers

end UDPing.Otel
