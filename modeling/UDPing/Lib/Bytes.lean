import Mathlib.Data.List.TakeWhile
import Mathlib.Data.Nat.Notation
import Mathlib.Tactic.NormNum
import Mathlib.Order.Basic

/-!
# Byte strings

Strings of C++ and of Go are sequences of bytes. Keys of ordered maps compare them byte by byte as
unsigned numbers, which is the order `List UInt8` has.

* `ascii` writes a literal, `decimal` the decimal digits of a number (`decimal_injective`);
* `cString b` is what a `char *` into the bytes `b` denotes: everything before the first NUL;
* `append_sep_injective`: a text, a separator and a tail without the separator are recovered from
  their concatenation.
-/

namespace Lib

/-- A byte string. Source: none: infrastructure. Kind: D -/
abbrev Bytes := List UInt8

/-- The byte of an ASCII character. Source: none: infrastructure. Kind: D -/
def byteOf (c : Char) : UInt8 := UInt8.ofNat c.toNat

/-- The bytes of an ASCII literal. Source: none: infrastructure. Kind: D -/
def ascii (s : String) : Bytes := s.toList.map byteOf

/-- The decimal digits of a number. Source: none: infrastructure. Kind: D -/
def decimal (n : ℕ) : Bytes := (Nat.toDigits 10 n).map byteOf

/-- The C string that starts at the head of `b`. Source: none: infrastructure. Kind: D -/
def cString (b : Bytes) : Bytes := b.takeWhile (· ≠ 0)

/-- A text ends at the first NUL. Source: none: infrastructure. Kind: L -/
theorem cString_append_zero {text : Bytes} (h : ∀ b ∈ text, b ≠ 0) (rest : Bytes) :
    cString (text ++ 0 :: rest) = text := by
  unfold cString
  rw [List.takeWhile_append_of_pos fun b hb => decide_eq_true (h b hb)]
  simp

/-- A string whose terminator is not there is read on. Source: none: infrastructure. Kind: L -/
theorem cString_append_of_notMem {b : Bytes} (h : 0 ∉ b) (rest : Bytes) :
    cString (b ++ rest) = b ++ cString rest :=
  List.takeWhile_append_of_pos fun _ hc => decide_eq_true fun heq => h (heq ▸ hc)

theorem cString_of_notMem {b : Bytes} (h : 0 ∉ b) : cString b = b := by
  have hread := cString_append_of_notMem h []
  rw [List.append_nil] at hread
  rw [hread]
  exact List.append_nil b

/-- A string that is terminated ends at its terminator, whatever follows.
Source: none: infrastructure
Kind: L -/
theorem cString_append_of_mem {b : Bytes} (h : 0 ∈ b) (rest : Bytes) :
    cString (b ++ rest) = cString b ∧ cString b <+: b ∧ (cString b).length < b.length := by
  obtain ⟨text, after, rfl, htext⟩ := List.eq_append_cons_of_mem h
  have hread (after : Bytes) : cString (text ++ 0 :: after) = text :=
    cString_append_zero (fun c hc heq => htext (heq ▸ hc)) after
  rw [List.append_assoc, List.cons_append, hread, hread]
  refine ⟨rfl, List.prefix_append text _, ?_⟩
  rw [List.length_append, List.length_cons]
  omega

theorem zero_notMem_cString (b : Bytes) : 0 ∉ cString b := by
  intro h
  have hzero := List.mem_takeWhile_imp h
  simp at hzero

/-- A string in memory that is terminated behind it. Source: none: infrastructure. Kind: L -/
theorem exists_cString (s : Bytes) : ∃ t, s ++ [0] = cString s ++ 0 :: t := by
  by_cases h : 0 ∈ s
  · obtain ⟨text, after, rfl, htext⟩ := List.eq_append_cons_of_mem h
    refine ⟨after ++ [0], ?_⟩
    rw [cString_append_zero (fun c hc heq => htext (heq ▸ hc)), List.append_assoc, List.cons_append]
  · exact ⟨[], by rw [cString_of_notMem h]⟩

/-- The codes of the decimal digits. Source: none: infrastructure. Kind: L -/
theorem toNat_of_isDigit {c : Char} (hc : c.isDigit) : 48 ≤ c.toNat ∧ c.toNat ≤ 57 := by
  simp only [Char.isDigit, Bool.and_eq_true, decide_eq_true_eq] at hc
  exact ⟨UInt32.le_iff_toNat_le.mp hc.1, UInt32.le_iff_toNat_le.mp hc.2⟩

/-- A digit's byte is its code. Source: none: infrastructure. Kind: L -/
theorem toNat_byteOf {c : Char} (hc : c.isDigit) : (byteOf c).toNat = c.toNat := by
  have h := toNat_of_isDigit hc
  rw [byteOf, UInt8.toNat_ofNat']
  exact Nat.mod_eq_of_lt (by omega)

/-- Decimal digits lie between `0` and `9`. Source: none: infrastructure. Kind: L -/
theorem mem_decimal {n : ℕ} {b : UInt8} (hb : b ∈ decimal n) : 48 ≤ b.toNat ∧ b.toNat ≤ 57 := by
  obtain ⟨c, hc, rfl⟩ := List.mem_map.mp hb
  have hd : c.isDigit := Nat.isDigit_of_mem_toDigits (by decide) (by decide) hc
  rw [toNat_byteOf hd]
  exact toNat_of_isDigit hd

/-- The digits are read back from their bytes. Source: none: infrastructure. Kind: L -/
theorem map_ofNat_decimal (n : ℕ) :
    ((decimal n).map fun b => Char.ofNat b.toNat) = Nat.toDigits 10 n := by
  rw [decimal, List.map_map]
  conv_rhs => rw [← List.map_id (Nat.toDigits 10 n)]
  refine List.map_congr_left fun c hc => ?_
  have hd : c.isDigit := Nat.isDigit_of_mem_toDigits (by decide) (by decide) hc
  simp only [Function.comp_apply, toNat_byteOf hd, Char.ofNat_toNat, id]

/-- Decimal writing is injective. Source: none: infrastructure. Kind: P -/
theorem decimal_injective : Function.Injective decimal := by
  intro m n h
  calc
    m = Nat.ofDigitChars 10 (Nat.toDigits 10 m) 0 := Nat.ofDigitChars_ten_toDigits.symm
    _ = Nat.ofDigitChars 10 (Nat.toDigits 10 n) 0 := by
      rw [← map_ofNat_decimal m, ← map_ofNat_decimal n, h]
    _ = n := Nat.ofDigitChars_ten_toDigits

/-- A text, a separator and a tail free of the separator are recovered from their concatenation:
the separator's last occurrence is the one between them.
Source: none: infrastructure
Kind: P -/
theorem append_sep_injective {α : Type*} {sep : α} {x x' t t' : List α} (ht : sep ∉ t)
    (ht' : sep ∉ t') (h : x ++ sep :: t = x' ++ sep :: t') : x = x' ∧ t = t' := by
  rcases List.append_eq_append_iff.mp h with ⟨a, ha, hb⟩ | ⟨a, ha, hb⟩
  · cases a with
    | nil => exact ⟨by simpa using ha.symm, by simpa using hb⟩
    | cons c a =>
        exact absurd (by rw [List.cons_append, List.cons.injEq] at hb; rw [hb.2]; simp) ht
  · cases a with
    | nil => exact ⟨by simpa using ha, by simpa using hb.symm⟩
    | cons c a =>
        exact absurd (by rw [List.cons_append, List.cons.injEq] at hb; rw [hb.2]; simp) ht'

end Lib
