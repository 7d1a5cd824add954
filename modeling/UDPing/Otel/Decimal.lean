import UDPing.Server.Console

/-!
# The numbers that the server prints

* `readDecimal`: the number that digits with a point between them denote.
* **`readDecimal_longFloat`**: what `%lf` writes denotes the number rounded to six places.
* `abs_rounded_sub_le`: that is off by half of the last place at most.
-/

namespace UDPing.Otel

open Lib Server

/-! ## Digits -/

/-- The number that digits denote, after the number `n` to the left of them.
Source: `strconv.ParseFloat`
Kind: D -/
def valueFrom (n : ℕ) (digits : Bytes) : ℕ :=
  digits.foldl (fun n b => n * 10 + (b.toNat - 48)) n

/-- A sign, digits, a point and digits. Source: `strconv.ParseFloat`. Kind: D.
Fidelity: no exponent and no underscores -/
def readDecimal (s : Bytes) : Option ℚ :=
  match split 46 (sign s).2 with
  | [whole, frac] =>
      if whole ≠ [] ∧ ∀ b ∈ whole ++ frac, 48 ≤ b.toNat ∧ b.toNat ≤ 57 then
        let x : ℚ := valueFrom 0 (whole ++ frac) / 10 ^ frac.length
        some (if (sign s).1 then -x else x)
      else none
  | _ => none

theorem valueFrom_append (n : ℕ) (s t : Bytes) :
    valueFrom n (s ++ t) = valueFrom (valueFrom n s) t :=
  List.foldl_append

theorem valueFrom_decimal (n : ℕ) : valueFrom 0 (decimal n) = n := foldl_decimal n

/-- The number to the left counts for its place. Source: none: infrastructure. Kind: L -/
theorem valueFrom_eq (n : ℕ) (digits : Bytes) :
    valueFrom n digits = n * 10 ^ digits.length + valueFrom 0 digits := by
  induction digits generalizing n with
  | nil => simp [valueFrom]
  | cons b digits ih =>
      have hstep : ∀ m, valueFrom m (b :: digits) = valueFrom (m * 10 + (b.toNat - 48)) digits :=
        fun m => rfl
      rw [hstep, hstep, ih, ih (0 * 10 + (b.toNat - 48)), List.length_cons, pow_succ]
      ring

/-- The digits of a number from `10 ^ k` on and less than twice that are a one and `k` more.
Source: none: infrastructure
Kind: L -/
theorem exists_decimal_pow_add {k r : ℕ} (hr : r < 10 ^ k) :
    ∃ digits, decimal (10 ^ k + r) = 49 :: digits ∧ digits.length = k := by
  induction k generalizing r with
  | zero =>
      obtain rfl : r = 0 := Nat.lt_one_iff.mp hr
      exact ⟨[], by decide, rfl⟩
  | succ k ih =>
      rw [pow_succ] at hr
      obtain ⟨digits, hdigits, hlength⟩ := @ih (r / 10) (by omega)
      have hpow : 1 ≤ 10 ^ k := Nat.one_le_pow' k 9
      have hdiv : (10 ^ (k + 1) + r) / 10 = 10 ^ k + r / 10 := by
        rw [pow_succ]
        omega
      have hlast : decimal (10 ^ (k + 1) + r) =
          decimal (10 ^ k + r / 10) ++ [byteOf (Nat.digitChar ((10 ^ (k + 1) + r) % 10))] := by
        unfold decimal
        rw [Nat.toDigits_of_base_le (by decide) (by rw [pow_succ]; omega), hdiv, List.map_append]
        rfl
      rw [hlast, hdigits, List.cons_append]
      exact ⟨_, rfl, by rw [List.length_append, hlength, List.length_singleton]⟩

/-- What `%06d` writes of a number of six digits. Source: `printf`, `%lf`. Kind: L -/
theorem fraction {r : ℕ} (hr : r < 1000000) :
    ∃ digits, decimal (1000000 + r) = 49 :: digits ∧ digits.length = 6 ∧ valueFrom 0 digits = r := by
  obtain ⟨digits, hdigits, hlength⟩ := @exists_decimal_pow_add 6 r hr
  refine ⟨digits, hdigits, hlength, ?_⟩
  have hvalue := valueFrom_decimal (10 ^ 6 + r)
  rw [hdigits, show valueFrom 0 (49 :: digits) = valueFrom 1 digits from rfl, valueFrom_eq, hlength]
    at hvalue
  omega

/-! ## Rounding -/

/-- A number rounded to six places. Source: `printf`, `%lf`. Kind: D -/
def rounded (q : ℚ) : ℚ :=
  let x : ℚ := roundEven (|q| * 1000000) / 1000000
  if q < 0 then -x else x

/-- Source: `printf`, `%lf`. Kind: L -/
theorem abs_roundEven_sub_le (q : ℚ) : |(roundEven q : ℚ) - q| ≤ 1 / 2 := by
  have hlo : (q.floor : ℚ) ≤ q := Int.floor_le q
  have hhi : q < q.floor + 1 := Int.lt_floor_add_one q
  unfold roundEven
  dsimp only
  split_ifs with h
  · have hclose : q - q.floor ≤ 1 / 2 := h.elim le_of_lt fun h => h.1.le
    rw [abs_le]
    constructor <;> linarith
  · have hfar : 1 / 2 ≤ q - q.floor := le_of_not_gt fun hlt => h (Or.inl hlt)
    rw [abs_le]
    push_cast
    constructor <;> linarith

theorem roundEven_nonneg {q : ℚ} (hq : 0 ≤ q) : 0 ≤ roundEven q := by
  have hfloor : 0 ≤ q.floor := Int.floor_nonneg.mpr hq
  unfold roundEven
  dsimp only
  split_ifs <;> omega

/-- **Printing a number moves it by half of a millionth at most.** Source: `printf`, `%lf`. Kind: P -/
theorem abs_rounded_sub_le (q : ℚ) : |rounded q - q| ≤ 1 / 2000000 := by
  have hround := abs_roundEven_sub_le (|q| * 1000000)
  rw [abs_le] at hround ⊢
  unfold rounded
  dsimp only
  split_ifs with hneg
  · rw [abs_of_neg hneg] at hround ⊢
    constructor <;> linarith
  · rw [abs_of_nonneg (not_lt.mp hneg)] at hround ⊢
    constructor <;> linarith

/-- **What is printed denotes the number rounded to six places.**
Source: `printf`, `%lf`; `strconv.ParseFloat`
Kind: P -/
theorem readDecimal_longFloat (q : ℚ) : readDecimal (longFloat q) = some (rounded q) := by
  have hnonneg : 0 ≤ roundEven (|q| * 1000000) := roundEven_nonneg (by positivity)
  set n := (roundEven (|q| * 1000000)).toNat with hn
  obtain ⟨digits, hdigits, hlength, hvalue⟩ := @fraction (n % 1000000) (Nat.mod_lt n (by decide))
  have hdigit : ∀ b ∈ decimal (n / 1000000) ++ digits, 48 ≤ b.toNat ∧ b.toNat ≤ 57 := by
    intro b hb
    rcases List.mem_append.mp hb with hb | hb
    · exact mem_decimal hb
    · exact mem_decimal (n := 1000000 + n % 1000000) (by simp [hdigits, hb])
  have hpoint : ∀ s : Bytes, (∀ b ∈ s, 48 ≤ b.toNat ∧ b.toNat ≤ 57) → 46 ∉ s := by
    intro s hs hmem
    exact absurd (hs 46 hmem).1 (by decide)
  have hsplit : split 46 (decimal (n / 1000000) ++ ascii "." ++ digits) =
      [decimal (n / 1000000), digits] := by
    rw [List.append_assoc, show ascii "." ++ digits = 46 :: digits from rfl,
      split_append_sep (hpoint _ fun b hb => hdigit b (List.mem_append_left _ hb)),
      split_of_notMem (hpoint _ fun b hb => hdigit b (List.mem_append_right _ hb))]
  obtain ⟨b, s, hwhole, hb⟩ := exists_decimal_eq_cons (n / 1000000)
  have hsign : sign (longFloat q) =
      (decide (q < 0), decimal (n / 1000000) ++ ascii "." ++ digits) := by
    unfold longFloat
    rw [← hn]
    dsimp only
    rw [hdigits, List.tail_cons]
    split_ifs with hneg
    · rw [decide_eq_true hneg]
      simp [ascii, byteOf, sign]
    · rw [decide_eq_false hneg, List.nil_append]
      apply sign_of_head
      rw [hwhole]
      intro c hc
      obtain rfl : b = c := Option.some.inj hc
      constructor
      · rintro rfl
        exact absurd hb.1 (by decide)
      · rintro rfl
        exact absurd hb.1 (by decide)
  have hnumber : valueFrom 0 (decimal (n / 1000000) ++ digits) = n := by
    rw [valueFrom_append, valueFrom_decimal, valueFrom_eq, hlength, hvalue]
    exact Nat.div_add_mod' n 1000000
  unfold readDecimal
  rw [hsign]
  dsimp only
  rw [hsplit]
  dsimp only
  rw [if_pos ⟨by simp [hwhole], hdigit⟩, hnumber, hlength]
  have hcast : (n : ℚ) = (roundEven (|q| * 1000000) : ℤ) := by
    rw [hn]
    exact_mod_cast Int.toNat_of_nonneg hnonneg
  rw [hcast]
  unfold rounded
  norm_num

end UDPing.Otel
