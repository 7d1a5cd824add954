import UDPing.Lib.Bytes
import Mathlib.Data.Int.Notation
import Mathlib.Order.Lattice

/-!
# Searching, splitting and reading byte strings

What the functions of these names of Go's `strings` and `strconv` packages compute, on byte strings
and to base ten.

* `fromIndex key s`: `s` from the first occurrence of `key` on, which is `s[strings.Index(s, key):]`.
* `split sep s`: `strings.Split` at a separator of one byte.
* `parseInt bitSize s`: the value and whether there was no error. **`parseInt_decimal`**: a number
  that does not fit yields the largest number that does, with an error.
-/

namespace Lib

/-! ## Searching -/

/-- The string from the first occurrence of `key` on. Source: `strings.Index`. Kind: D -/
def fromIndex (key : Bytes) : Bytes → Option Bytes
  | [] => if key = [] then some [] else none
  | b :: s => if key.isPrefixOf (b :: s) then some (b :: s) else fromIndex key s

/-- Whether `key` occurs. Source: `strings.Index`. Kind: D -/
def occurs (key s : Bytes) : Bool := (fromIndex key s).isSome

/-- Bytes in front among which no occurrence begins. Source: none: infrastructure. Kind: L -/
theorem fromIndex_append_left {c : UInt8} {key w : Bytes} (hw : c ∉ w) (s : Bytes) :
    fromIndex (c :: key) (w ++ s) = fromIndex (c :: key) s := by
  induction w with
  | nil => rfl
  | cons b w ih =>
      have hb : ¬(c :: key).isPrefixOf (b :: (w ++ s)) := by
        intro hpre
        have hhead := (List.cons_prefix_cons.mp (List.isPrefixOf_iff_prefix.mp hpre)).1
        exact hw (hhead ▸ List.mem_cons_self)
      rw [List.cons_append, fromIndex, if_neg hb]
      exact ih fun hc => hw (List.mem_cons_of_mem b hc)

/-- A byte that does not occur. Source: none: infrastructure. Kind: L -/
theorem not_occurs_of_notMem {c : UInt8} {key s : Bytes} (hc : c ∈ key) (hs : c ∉ s) :
    occurs key s = false := by
  unfold occurs
  induction s with
  | nil =>
      have hkey : key ≠ [] := List.ne_nil_of_mem hc
      rw [fromIndex, if_neg hkey]
      rfl
  | cons b s ih =>
      have hb : ¬key.isPrefixOf (b :: s) := fun hpre =>
        hs ((List.isPrefixOf_iff_prefix.mp hpre).mem hc)
      rw [fromIndex, if_neg hb]
      exact ih fun h => hs (List.mem_cons_of_mem b h)

/-! ## Splitting -/

/-- The pieces between the separators. Source: `strings.Split`. Kind: D -/
def split (sep : UInt8) : Bytes → List Bytes
  | [] => [[]]
  | b :: s =>
    if b = sep then [] :: split sep s
    else
      match split sep s with
      | [] => [[b]]
      | w :: ws => (b :: w) :: ws

theorem split_ne_nil (sep : UInt8) (s : Bytes) : split sep s ≠ [] := by
  rcases s with _ | ⟨b, s⟩
  · simp [split]
  · unfold split
    split_ifs
    · simp
    · split <;> simp

/-- The first piece. Source: none: infrastructure. Kind: L -/
theorem split_append_sep {sep : UInt8} {w : Bytes} (hw : sep ∉ w) (s : Bytes) :
    split sep (w ++ sep :: s) = w :: split sep s := by
  induction w with
  | nil => exact if_pos rfl
  | cons b w ih =>
      have hb : ¬b = sep := fun h => hw (h ▸ List.mem_cons_self)
      rw [List.cons_append, split, if_neg hb, ih fun h => hw (List.mem_cons_of_mem b h)]

/-- A string without a separator is one piece. Source: none: infrastructure. Kind: L -/
theorem split_of_notMem {sep : UInt8} {w : Bytes} (hw : sep ∉ w) : split sep w = [w] := by
  induction w with
  | nil => rfl
  | cons b w ih =>
      have hb : ¬b = sep := fun h => hw (h ▸ List.mem_cons_self)
      rw [split, if_neg hb, ih fun h => hw (List.mem_cons_of_mem b h)]

/-- What pieces that were put together are made of. Source: none: infrastructure. Kind: L -/
theorem mem_of_mem_intercalate {sep b : UInt8} {ws : List Bytes}
    (h : b ∈ List.intercalate [sep] ws) : b = sep ∨ ∃ w ∈ ws, b ∈ w := by
  induction ws with
  | nil => exact absurd h List.not_mem_nil
  | cons w ws ih =>
      rcases ws with _ | ⟨w', ws⟩
      · rw [List.intercalate_singleton] at h
        exact .inr ⟨w, List.mem_singleton_self w, h⟩
      · rw [List.intercalate_cons_cons, List.mem_append, List.mem_append, List.mem_singleton] at h
        rcases h with (h | h) | h
        · exact .inr ⟨w, List.mem_cons_self, h⟩
        · exact .inl h
        · refine (ih h).imp_right ?_
          rintro ⟨v, hv, hb⟩
          exact ⟨v, List.mem_cons_of_mem w hv, hb⟩

/-- Pieces that were put together. Source: none: infrastructure. Kind: L -/
theorem split_intercalate {sep : UInt8} {ws : List Bytes} (hne : ws ≠ [])
    (hws : ∀ w ∈ ws, sep ∉ w) : split sep (List.intercalate [sep] ws) = ws := by
  induction ws with
  | nil => exact absurd rfl hne
  | cons w ws ih =>
      have hw := hws w List.mem_cons_self
      rcases ws with _ | ⟨w', ws⟩
      · rw [List.intercalate_singleton, split_of_notMem hw]
      · have hrest := ih (List.cons_ne_nil w' ws) fun v hv => hws v (List.mem_cons_of_mem w hv)
        rw [List.intercalate_cons_cons, List.append_assoc, List.singleton_append,
          split_append_sep hw, hrest]

/-- Either there is no separator, or a first one. Source: none: infrastructure. Kind: L -/
theorem split_cases (sep : UInt8) (s : Bytes) :
    sep ∉ s ∨ ∃ word rest, sep ∉ word ∧ s = word ++ sep :: rest := by
  by_cases hmem : sep ∈ s
  · obtain ⟨word, rest, hs, hword⟩ := List.eq_append_cons_of_mem hmem
    exact .inr ⟨word, rest, hword, hs⟩
  · exact .inl hmem

/-- The pieces put together again. Source: none: infrastructure. Kind: L -/
theorem intercalate_split (sep : UInt8) (s : Bytes) :
    List.intercalate [sep] (split sep s) = s := by
  induction hn : s.length using Nat.strong_induction_on generalizing s with
  | _ n ih =>
      rcases split_cases sep s with hsep | ⟨word, rest, hsep, rfl⟩
      · rw [split_of_notMem hsep, List.intercalate_singleton]
      · have hshort : rest.length < n := by
          rw [← hn, List.length_append, List.length_cons]
          omega
        rw [split_append_sep hsep, List.intercalate_cons_of_ne_nil (split_ne_nil sep rest),
          ih rest.length hshort rest rfl, List.append_assoc, List.singleton_append]

/-- Every other byte is one of a piece. Source: none: infrastructure. Kind: L -/
theorem exists_mem_split {sep b : UInt8} {s : Bytes} (hb : b ∈ s) (hsep : b ≠ sep) :
    ∃ w ∈ split sep s, b ∈ w := by
  rw [← intercalate_split sep s] at hb
  exact (mem_of_mem_intercalate hb).resolve_left hsep

/-- What the pieces are made of. Source: none: infrastructure. Kind: L -/
theorem mem_of_mem_split {sep b : UInt8} {item : Bytes} :
    ∀ s : Bytes, item ∈ split sep s → b ∈ item → b ∈ s ∧ b ≠ sep := by
  intro s
  induction hn : s.length using Nat.strong_induction_on generalizing s with
  | _ n ih =>
      intro hitem hb
      rcases split_cases sep s with hsep | ⟨word, rest, hsep, rfl⟩
      · rw [split_of_notMem hsep, List.mem_singleton] at hitem
        subst hitem
        exact ⟨hb, fun h => hsep (h ▸ hb)⟩
      · rw [split_append_sep hsep, List.mem_cons] at hitem
        rcases hitem with rfl | hitem
        · exact ⟨by simp [hb], fun h => hsep (h ▸ hb)⟩
        · have hrest := ih rest.length (by rw [← hn]; simp; omega) rest rfl hitem hb
          exact ⟨by simp [hrest.1], hrest.2⟩

/-! ## Reading integers -/

/-- The loop over the digits: `none` for a byte that is none, `maxVal` once the number exceeds it.
Source: `strconv.ParseUint`
Kind: D -/
def parseUint (maxVal : ℕ) (n : ℕ) : Bytes → Option (ℕ × Bool)
  | [] => some (n, true)
  | b :: s =>
    if 48 ≤ b.toNat ∧ b.toNat ≤ 57 then
      if maxVal < n * 10 + (b.toNat - 48) then some (maxVal, false)
      else parseUint maxVal (n * 10 + (b.toNat - 48)) s
    else none

/-- Whether there is a minus sign, and what follows the sign. Source: `strconv.ParseInt`. Kind: D -/
def sign : Bytes → Bool × Bytes
  | 43 :: s => (false, s)
  | 45 :: s => (true, s)
  | s => (false, s)

/-- The value, and whether there is no error.
Source: `strconv.ParseInt`
Kind: D
Fidelity: the base is ten -/
def parseInt (bitSize : ℕ) (s : Bytes) : ℤ × Bool :=
  let (neg, digits) := sign s
  if digits = [] then (0, false)
  else
    match parseUint (2 ^ bitSize - 1) 0 digits with
    | none => (0, false)
    | some (un, ok) =>
      if !neg && 2 ^ (bitSize - 1) ≤ un then (2 ^ (bitSize - 1) - 1, false)
      else if neg && 2 ^ (bitSize - 1) < un then (-2 ^ (bitSize - 1), false)
      else (if neg then -un else un, ok)

/-- Digits whose number fits are read. Source: none: infrastructure. Kind: L -/
theorem parseUint_of_le {maxVal n : ℕ} {s : Bytes}
    (hs : ∀ b ∈ s, 48 ≤ b.toNat ∧ b.toNat ≤ 57)
    (hle : s.foldl (fun n b => n * 10 + (b.toNat - 48)) n ≤ maxVal) :
    parseUint maxVal n s = some (s.foldl (fun n b => n * 10 + (b.toNat - 48)) n, true) := by
  have hmono : ∀ (s : Bytes) (n : ℕ), n ≤ s.foldl (fun n b => n * 10 + (b.toNat - 48)) n := by
    intro s
    induction s with
    | nil => exact fun n => le_rfl
    | cons b s ih =>
        intro n
        have hstep := ih (n * 10 + (b.toNat - 48))
        rw [List.foldl_cons]
        omega
  induction s generalizing n with
  | nil => rfl
  | cons b s ih =>
      have hnext := hmono s (n * 10 + (b.toNat - 48))
      rw [List.foldl_cons] at hle ⊢
      rw [parseUint, if_pos (hs b List.mem_cons_self), if_neg (by omega)]
      exact ih (fun c hc => hs c (List.mem_cons_of_mem b hc)) hle

/-- The digits of a number denote it. Source: none: infrastructure. Kind: L -/
theorem foldl_decimal (n : ℕ) :
    (decimal n).foldl (fun n b => n * 10 + (b.toNat - 48)) 0 = n := by
  have hdigits : ∀ (cs : List Char) (m : ℕ), (∀ c ∈ cs, c.isDigit) →
      (cs.map byteOf).foldl (fun n b => n * 10 + (b.toNat - 48)) m = Nat.ofDigitChars 10 cs m := by
    intro cs
    induction cs with
    | nil => exact fun m _ => rfl
    | cons c cs ih =>
        intro m hcs
        have hc := toNat_byteOf (hcs c List.mem_cons_self)
        have hstep := ih (m * 10 + (c.toNat - 48)) fun d hd => hcs d (List.mem_cons_of_mem c hd)
        rw [List.map_cons, List.foldl_cons, hc, hstep, Nat.mul_comm m 10]
        rfl
  rw [decimal, hdigits _ 0 fun c hc => Nat.isDigit_of_mem_toDigits (by decide) (by decide) hc]
  exact Nat.ofDigitChars_ten_toDigits

/-- Source: `strconv.ParseInt`. Kind: L -/
theorem sign_of_head {s : Bytes} (hs : ∀ c ∈ s.head?, c ≠ 43 ∧ c ≠ 45) :
    sign s = (false, s) := by
  rcases s with _ | ⟨c, s⟩
  · rfl
  · obtain ⟨hplus, hminus⟩ := hs c rfl
    unfold sign
    split
    · rename_i heq
      exact absurd (List.cons.inj heq).1 hplus
    · rename_i heq
      exact absurd (List.cons.inj heq).1 hminus
    · rfl

/-- A string of digits has no sign. Source: `strconv.ParseInt`. Kind: L -/
theorem parseInt_of_digits (bitSize : ℕ) {b : UInt8} {s : Bytes} {un : ℕ} {ok : Bool}
    (hb : 48 ≤ b.toNat ∧ b.toNat ≤ 57)
    (hread : parseUint (2 ^ bitSize - 1) 0 (b :: s) = some (un, ok)) :
    parseInt bitSize (b :: s) =
      if 2 ^ (bitSize - 1) ≤ un then ((2 ^ (bitSize - 1) - 1 : ℤ), false) else ((un : ℤ), ok) := by
  have hsign : sign (b :: s) = (false, b :: s) := by
    refine sign_of_head fun c hc => ?_
    obtain rfl : b = c := Option.some.inj hc
    constructor
    · rintro rfl
      exact absurd hb.1 (by decide)
    · rintro rfl
      exact absurd hb.1 (by decide)
  unfold parseInt
  rw [hsign]
  simp [hread]

/-- The digits of a number that fits are read. Source: `strconv.ParseUint`. Kind: L -/
theorem parseUint_decimal {maxVal n : ℕ} (hn : n ≤ maxVal) :
    parseUint maxVal 0 (decimal n) = some (n, true) := by
  have hfold := foldl_decimal n
  rw [parseUint_of_le (fun b hb => mem_decimal hb) (by omega), hfold]

/-- A number has a first digit. Source: none: infrastructure. Kind: L -/
theorem exists_decimal_eq_cons (n : ℕ) :
    ∃ b s, decimal n = b :: s ∧ 48 ≤ b.toNat ∧ b.toNat ≤ 57 := by
  obtain ⟨b, s, hdecimal⟩ := List.exists_cons_of_ne_nil (l := decimal n) fun h =>
    absurd (List.map_eq_nil_iff.mp h) Nat.toDigits_ne_nil
  have hb : b ∈ decimal n := by simp [hdecimal]
  exact ⟨b, s, hdecimal, mem_decimal hb⟩

/-- **A number of `bitSize` bits is read up to the largest one that fits** beside a sign.
Source: `strconv.ParseInt`
Kind: P -/
theorem parseInt_decimal {bitSize n : ℕ} (hn : n < 2 ^ bitSize) :
    (parseInt bitSize (decimal n)).1 = min n (2 ^ (bitSize - 1) - 1) := by
  have hread : parseUint (2 ^ bitSize - 1) 0 (decimal n) = some (n, true) :=
    parseUint_decimal (by omega)
  have hone : (1 : ℤ) ≤ 2 ^ (bitSize - 1) := one_le_pow₀ (by decide)
  have hcast : ((2 ^ (bitSize - 1) : ℕ) : ℤ) = 2 ^ (bitSize - 1) := by norm_num
  obtain ⟨b, s, hdecimal, hb⟩ := exists_decimal_eq_cons n
  rw [hdecimal] at hread ⊢
  rw [parseInt_of_digits bitSize hb hread]
  split_ifs with hbig
  · omega
  · omega

/-! ## Writing integers -/

/-- What `printf` writes for an integer. Source: `printf`, `%d`. Kind: D -/
def signed (n : ℤ) : Bytes := if n < 0 then 45 :: decimal n.natAbs else decimal n.natAbs

/-- **What is written is read back**, if it fits. Source: `strconv.ParseInt`. Kind: P -/
theorem parseInt_signed {bitSize : ℕ} {n : ℤ} (hbits : 0 < bitSize)
    (hlo : -2 ^ (bitSize - 1) ≤ n) (hhi : n < 2 ^ (bitSize - 1)) :
    parseInt bitSize (signed n) = (n, true) := by
  have hcast : ((2 ^ (bitSize - 1) : ℕ) : ℤ) = 2 ^ (bitSize - 1) := by norm_num
  have hpow : 2 ^ bitSize = 2 * 2 ^ (bitSize - 1) := by
    rw [← pow_succ', Nat.sub_add_cancel hbits]
  have hread : parseUint (2 ^ bitSize - 1) 0 (decimal n.natAbs) = some (n.natAbs, true) :=
    parseUint_decimal (by omega)
  obtain ⟨b, s, hdecimal, hb⟩ := exists_decimal_eq_cons n.natAbs
  unfold signed
  rw [hdecimal] at hread ⊢
  split
  next hneg =>
    have hfits : ¬2 ^ (bitSize - 1) < n.natAbs := by omega
    simp [parseInt, sign, hread, hfits, abs_of_neg hneg]
  next hpos =>
    rw [parseInt_of_digits bitSize hb hread, if_neg (by omega)]
    simp only [Prod.mk.injEq, and_true]
    omega

end Lib
