import UDPing.Lib.Mem
import Mathlib.Algebra.BigOperators.Group.List.Basic

/-!
# One's-complement sums of 16-bit words

* `onesAdd`, `onesSum`: addition with the carry brought back in at the low end.
* `canon`: the representative of a number modulo `65535` that such sums end in. It is `0` for `0`
  only, and `65535` for the other multiples of `65535`. `onesSum_eq`: a one's-complement sum is the
  representative of the plain sum.
* `wordsOf e bs`: bytes as words in either byte order, the last one filled up with a zero byte.
  **`onesSum_eq_iff`**: whether a sum is `65535` does not depend on the byte order.
* `internetChecksum`: the complement of such a sum. `internetChecksum_verifies`,
  `internetChecksum_eq_iff`, `encode_internetChecksum`: data and checksum verify, what a checksum
  tells apart, and that the byte order does not matter.
-/

namespace Lib

/-! ## Sums -/

/-- One's-complement addition. Source: none: infrastructure. Kind: D -/
def onesAdd (a b : ℕ) : ℕ := if a + b < 65536 then a + b else a + b - 65535

/-- The one's-complement sum of words. Source: none: infrastructure. Kind: D -/
def onesSum (ws : List ℕ) : ℕ := ws.foldl onesAdd 0

/-- The representative of `n` modulo `65535`, which is `0` for `0` only.
Source: none: infrastructure
Kind: D -/
def canon (n : ℕ) : ℕ := if n = 0 then 0 else (n - 1) % 65535 + 1

theorem canon_lt (n : ℕ) : canon n < 65536 := by
  unfold canon
  split_ifs
  · omega
  · have := Nat.mod_lt (n - 1) (show 0 < 65535 by omega)
    omega

/-- A word is its own representative. Source: none: infrastructure. Kind: L -/
theorem canon_of_lt {n : ℕ} (hn : n < 65536) : canon n = n := by
  unfold canon
  split_ifs with h
  · exact h.symm
  · rw [Nat.mod_eq_of_lt (by omega)]
    omega

/-- Numbers that are congruent and not zero have one representative.
Source: none: infrastructure
Kind: L -/
theorem canon_congr {a b : ℕ} (hzero : a = 0 ↔ b = 0) (hmod : a % 65535 = b % 65535) :
    canon a = canon b := by
  unfold canon
  by_cases ha : a = 0
  · rw [if_pos ha, if_pos (hzero.mp ha)]
  · rw [if_neg ha, if_neg fun hb => ha (hzero.mpr hb)]
    omega

theorem canon_mod (n : ℕ) : canon n % 65535 = n % 65535 := by
  unfold canon
  split_ifs with h
  · rw [h]
  · omega

theorem canon_of_pos {n : ℕ} (hn : n ≠ 0) : canon n = (n - 1) % 65535 + 1 := if_neg hn

theorem canon_eq_zero {n : ℕ} : canon n = 0 ↔ n = 0 := by
  constructor
  · intro hcanon
    by_contra hn
    rw [canon_of_pos hn] at hcanon
    omega
  · rintro rfl
    rfl

/-- The sums that end in all ones. Source: none: infrastructure. Kind: L -/
theorem canon_eq_max {n : ℕ} : canon n = 65535 ↔ n ≠ 0 ∧ n % 65535 = 0 := by
  by_cases hn : n = 0
  · subst hn
    simp [canon]
  · rw [canon_of_pos hn]
    omega

/-- What is missing to all ones, added, makes it all ones. Source: none: infrastructure. Kind: L -/
theorem add_complement {n : ℕ} (hn : n ≠ 0) :
    n + (65535 - canon n) ≠ 0 ∧ (n + (65535 - canon n)) % 65535 = 0 := by
  have hlt := canon_lt n
  have hmod := canon_mod n
  omega

/-- One's-complement addition is addition of representatives.
Source: none: infrastructure
Kind: L -/
theorem onesAdd_canon {a b : ℕ} (hb : b < 65536) : onesAdd (canon a) b = canon (a + b) := by
  have hlt := canon_lt a
  have hmod := canon_mod a
  have hzero := canon_eq_zero (n := a)
  have hcanon : onesAdd (canon a) b = canon (canon a + b) := by
    unfold onesAdd
    split_ifs with h
    · exact (canon_of_lt h).symm
    · rw [canon_of_pos (show canon a + b ≠ 0 by omega)]
      omega
  rw [hcanon]
  apply canon_congr
  · omega
  · omega

/-- **A one's-complement sum is the representative of the plain sum.**
Source: none: infrastructure
Kind: P -/
theorem onesSum_eq {ws : List ℕ} (hws : ∀ w ∈ ws, w < 65536) : onesSum ws = canon ws.sum := by
  have hfold : ∀ (ws : List ℕ) (a : ℕ), (∀ w ∈ ws, w < 65536) →
      ws.foldl onesAdd (canon a) = canon (a + ws.sum) := by
    intro ws
    induction ws with
    | nil => exact fun a _ => rfl
    | cons w ws ih =>
        intro a hws
        rw [List.foldl_cons, onesAdd_canon (hws w List.mem_cons_self),
          ih (a + w) fun v hv => hws v (List.mem_cons_of_mem w hv), List.sum_cons, Nat.add_assoc]
  have h := hfold ws 0 hws
  rwa [Nat.zero_add] at h

/-! ## Words -/

/-- The 16-bit words of a byte string, the last one filled up with a zero byte.
Source: none: infrastructure
Kind: D -/
def wordsOf (e : Endian) : Bytes → List ℕ
  | [] => []
  | [b] => [decode e [b, 0]]
  | b :: c :: bs => decode e [b, c] :: wordsOf e bs

theorem decode_little (b c : UInt8) : decode .little [b, c] = b.toNat + 256 * c.toNat := by
  simp [decode, ofLittle]

theorem decode_big (b c : UInt8) : decode .big [b, c] = c.toNat + 256 * b.toNat := by
  simp [decode, ofLittle]

theorem decode_lt (e : Endian) (b c : UInt8) : decode e [b, c] < 65536 := by
  have hb := b.toNat_lt
  have hc := c.toNat_lt
  cases e with
  | little =>
      rw [decode_little]
      omega
  | big =>
      rw [decode_big]
      omega

theorem wordsOf_lt (e : Endian) (bs : Bytes) : ∀ w ∈ wordsOf e bs, w < 65536 := by
  fun_induction wordsOf e bs with
  | case1 => exact fun _ hw => absurd hw List.not_mem_nil
  | case2 b =>
      intro w hw
      rw [List.mem_singleton.mp hw]
      exact decode_lt e b 0
  | case3 b c bs ih =>
      intro w hw
      rcases List.mem_cons.mp hw with rfl | hw
      · exact decode_lt e b c
      · exact ih w hw

/-- Words behind an even number of bytes. Source: none: infrastructure. Kind: L -/
theorem wordsOf_append (e : Endian) {bs : Bytes} (hbs : bs.length % 2 = 0) (cs : Bytes) :
    wordsOf e (bs ++ cs) = wordsOf e bs ++ wordsOf e cs := by
  fun_induction wordsOf e bs with
  | case1 => rfl
  | case2 b => simp at hbs
  | case3 b c bs ih =>
      rw [List.length_cons, List.length_cons] at hbs
      rw [List.cons_append, List.cons_append, wordsOf, ih (by omega), List.cons_append]

/-- A sum is at most that of words of all ones. Source: none: infrastructure. Kind: L -/
theorem sum_wordsOf_le (e : Endian) (bs : Bytes) :
    (wordsOf e bs).sum ≤ 65535 * ((bs.length + 1) / 2) := by
  fun_induction wordsOf e bs with
  | case1 => exact Nat.zero_le _
  | case2 b =>
      have hlt := decode_lt e b 0
      rw [List.sum_singleton, List.length_singleton]
      omega
  | case3 b c bs ih =>
      have hlt := decode_lt e b c
      rw [List.sum_cons, List.length_cons, List.length_cons]
      omega

theorem sum_wordsOf_append (e : Endian) {bs : Bytes} (hbs : bs.length % 2 = 0) (cs : Bytes) :
    (wordsOf e (bs ++ cs)).sum = (wordsOf e bs).sum + (wordsOf e cs).sum := by
  rw [wordsOf_append e hbs, List.sum_append]

/-- A number of two bytes is one word. Source: none: infrastructure. Kind: L -/
theorem sum_wordsOf_encode2 (e : Endian) {n : ℕ} (hn : n < 2 ^ 16) :
    (wordsOf e (encode e 2 n)).sum = n := by
  have hwords : wordsOf e (encode e 2 n) = [decode e (encode e 2 n)] := by cases e <;> rfl
  rw [hwords, List.sum_singleton, decode_encode e hn]

/-- A number of four bytes is two words. Source: none: infrastructure. Kind: L -/
theorem sum_wordsOf_encode4 (e : Endian) {n : ℕ} (hn : n < 2 ^ 32) :
    (wordsOf e (encode e 4 n)).sum = n % 65536 + n / 65536 := by
  have hhi : n / 256 / 256 = n / 65536 := Nat.div_div_eq_div_mul n 256 256
  have hlow : ∀ m, ofLittle [UInt8.ofNat m, UInt8.ofNat (m / 256)] = m % 65536 :=
    fun m => ofLittle_littleBytes 2 m
  cases e with
  | little =>
      change ofLittle [UInt8.ofNat n, UInt8.ofNat (n / 256)] +
        (ofLittle [UInt8.ofNat (n / 256 / 256), UInt8.ofNat (n / 256 / 256 / 256)] + 0) = _
      rw [hlow, hlow, hhi]
      omega
  | big =>
      change ofLittle [UInt8.ofNat (n / 256 / 256), UInt8.ofNat (n / 256 / 256 / 256)] +
        (ofLittle [UInt8.ofNat n, UInt8.ofNat (n / 256)] + 0) = _
      rw [hlow, hlow, hhi]
      omega

/-- Zero bytes add nothing. Source: none: infrastructure. Kind: L -/
theorem sum_wordsOf_zero (e : Endian) {bs : Bytes} (hbs : ∀ b ∈ bs, b = 0) :
    (wordsOf e bs).sum = 0 := by
  have hdecode : decode e [0, 0] = 0 := by cases e <;> rfl
  fun_induction wordsOf e bs with
  | case1 => rfl
  | case2 b =>
      rw [hbs b List.mem_cons_self, List.sum_singleton, hdecode]
  | case3 b c bs ih =>
      rw [hbs b List.mem_cons_self, hbs c (by simp), List.sum_cons, hdecode,
        ih fun d hd => hbs d (by simp [hd])]

/-- The sum in one byte order, from the one in the other. Source: none: infrastructure. Kind: L -/
theorem sum_wordsOf_big (bs : Bytes) :
    ((wordsOf .big bs).sum = 0 ↔ (wordsOf .little bs).sum = 0) ∧
      (wordsOf .big bs).sum % 65535 = 256 * (wordsOf .little bs).sum % 65535 := by
  fun_induction wordsOf .big bs with
  | case1 => exact ⟨Iff.rfl, rfl⟩
  | case2 b =>
      simp only [wordsOf, List.sum_singleton, decode_big, decode_little]
      have hzero : (0 : UInt8).toNat = 0 := rfl
      omega
  | case3 b c bs ih =>
      simp only [wordsOf, List.sum_cons, decode_big, decode_little]
      omega

/-- **Whether a sum is all ones does not depend on the byte order.**
Source: none: infrastructure
Kind: P -/
theorem onesSum_eq_iff (e : Endian) (bs : Bytes) :
    onesSum (wordsOf .big bs) = 65535 ↔ (wordsOf e bs).sum ≠ 0 ∧ (wordsOf e bs).sum % 65535 = 0 := by
  rw [onesSum_eq (wordsOf_lt .big bs), canon_eq_max]
  cases e with
  | little =>
      obtain ⟨hzero, hmod⟩ := sum_wordsOf_big bs
      omega
  | big => exact Iff.rfl

/-! ## The internet checksum -/

/-- What is missing to all ones in the one's-complement sum of the words.
Source: none: specification
Kind: D -/
def internetChecksum (e : Endian) (bs : Bytes) : ℕ := 65535 - onesSum (wordsOf e bs)

/-- The bytes, filled up with a zero byte to an even number. Source: none: specification. Kind: D -/
def padded (bs : Bytes) : Bytes := if bs.length % 2 = 0 then bs else bs ++ [0]

theorem length_wordsOf (e : Endian) (bs : Bytes) : (wordsOf e bs).length = (bs.length + 1) / 2 := by
  fun_induction wordsOf e bs with
  | case1 => rfl
  | case2 b => rw [List.length_singleton, List.length_singleton]
  | case3 b c bs ih =>
      rw [List.length_cons, ih, List.length_cons, List.length_cons]
      omega

theorem length_padded (bs : Bytes) : (padded bs).length = 2 * ((bs.length + 1) / 2) := by
  unfold padded
  split_ifs with heven
  · omega
  · rw [List.length_append, List.length_singleton]
    omega

/-- The zero byte at the end is the one that words count with. Source: none: infrastructure.
Kind: L -/
theorem wordsOf_concat_zero (e : Endian) {bs : Bytes} (hodd : bs.length % 2 = 1) :
    wordsOf e (bs ++ [0]) = wordsOf e bs := by
  fun_induction wordsOf e bs with
  | case1 => simp at hodd
  | case2 b => rfl
  | case3 b c bs ih =>
      rw [List.length_cons, List.length_cons] at hodd
      rw [List.cons_append, List.cons_append, wordsOf, ih (by omega)]

theorem wordsOf_padded (e : Endian) (bs : Bytes) : wordsOf e (padded bs) = wordsOf e bs := by
  unfold padded
  split_ifs with heven
  · rfl
  · exact wordsOf_concat_zero e (by omega)

theorem internetChecksum_eq (e : Endian) (bs : Bytes) :
    internetChecksum e bs = 65535 - canon (wordsOf e bs).sum := by
  rw [internetChecksum, onesSum_eq (wordsOf_lt e bs)]

theorem internetChecksum_lt (e : Endian) (bs : Bytes) : internetChecksum e bs < 65536 := by
  unfold internetChecksum
  omega

/-- **Data and checksum verify**: with the checksum behind the data, it is zero.
Source: none: infrastructure
Kind: P -/
theorem internetChecksum_verifies (e : Endian) (bs : Bytes) :
    internetChecksum e (padded bs ++ encode e 2 (internetChecksum e bs)) = 0 := by
  have heven : (padded bs).length % 2 = 0 := by
    rw [length_padded]
    omega
  have hsum : (wordsOf e (padded bs ++ encode e 2 (internetChecksum e bs))).sum =
      (wordsOf e bs).sum + (65535 - canon (wordsOf e bs).sum) := by
    rw [sum_wordsOf_append e heven, wordsOf_padded,
      sum_wordsOf_encode2 e (internetChecksum_lt e bs), internetChecksum_eq]
  rw [internetChecksum_eq, hsum]
  by_cases hzero : (wordsOf e bs).sum = 0
  · rw [hzero]
    rfl
  · rw [canon_eq_max.mpr (add_complement hzero)]

/-- Two numbers have one representative if they are congruent and zero together.
Source: none: infrastructure
Kind: L -/
theorem canon_eq_iff {a b : ℕ} : canon a = canon b ↔ (a = 0 ↔ b = 0) ∧ a ≡ b [MOD 65535] := by
  constructor
  · intro hcanon
    constructor
    · rw [← canon_eq_zero, hcanon, canon_eq_zero]
    · change a % 65535 = b % 65535
      rw [← canon_mod a, hcanon, canon_mod]
  · rintro ⟨hzero, hmod⟩
    exact canon_congr hzero hmod

/-- **What a checksum tells apart**: sums that are not congruent modulo `65535`, and a sum that is
zero from the others.
Source: none: infrastructure
Kind: P -/
theorem internetChecksum_eq_iff (e : Endian) (bs cs : Bytes) :
    internetChecksum e bs = internetChecksum e cs ↔
      ((wordsOf e bs).sum = 0 ↔ (wordsOf e cs).sum = 0) ∧
        (wordsOf e bs).sum ≡ (wordsOf e cs).sum [MOD 65535] := by
  have hbs := canon_lt (wordsOf e bs).sum
  have hcs := canon_lt (wordsOf e cs).sum
  rw [internetChecksum_eq, internetChecksum_eq, ← canon_eq_iff]
  omega

/-- Lists that differ in one place differ in the sum by what they differ there.
Source: none: infrastructure
Kind: L -/
theorem sum_add_getD {vs ws : List ℕ} {i : ℕ} (hlen : vs.length = ws.length)
    (hrest : ∀ j, j ≠ i → vs[j]? = ws[j]?) : vs.sum + ws.getD i 0 = ws.sum + vs.getD i 0 := by
  induction vs generalizing ws i with
  | nil =>
      obtain rfl := List.length_eq_zero_iff.mp hlen.symm
      rfl
  | cons v vs ih =>
      obtain ⟨w, ws, rfl⟩ := List.exists_cons_of_length_eq_add_one hlen.symm
      rw [List.sum_cons, List.sum_cons]
      cases i with
      | zero =>
          have htail : vs = ws := List.ext_getElem? fun j => hrest (j + 1) (Nat.succ_ne_zero j)
          rw [htail, List.getD_cons_zero, List.getD_cons_zero]
          omega
      | succ i =>
          have hhead : v = w := Option.some.inj (hrest 0 (Nat.succ_ne_zero i).symm)
          have htail := ih (Nat.succ.inj hlen) fun j hj => hrest (j + 1) fun h => hj (Nat.succ.inj h)
          rw [hhead, List.getD_cons_succ, List.getD_cons_succ]
          omega

/-- **A change of one word is noticed**, unless the new word is congruent to the old one modulo
`65535`.
Source: none: infrastructure
Kind: P -/
theorem internetChecksum_ne (e : Endian) {bs cs : Bytes} {i : ℕ} (hlen : bs.length = cs.length)
    (hrest : ∀ j, j ≠ i → (wordsOf e bs)[j]? = (wordsOf e cs)[j]?)
    (hi : ¬(wordsOf e bs).getD i 0 ≡ (wordsOf e cs).getD i 0 [MOD 65535]) :
    internetChecksum e bs ≠ internetChecksum e cs := by
  intro hsame
  obtain ⟨-, hmod⟩ := (internetChecksum_eq_iff e bs cs).mp hsame
  have hsum := sum_add_getD (by rw [length_wordsOf, length_wordsOf, hlen]) hrest
  apply hi
  have hadd := Nat.ModEq.add_right ((wordsOf e bs).getD i 0) hmod
  rw [← hsum] at hadd
  exact Nat.ModEq.add_left_cancel' _ hadd

/-- A number of two bytes, read in the other order. Source: none: infrastructure. Kind: L -/
theorem encode_swap {n : ℕ} (hn : n < 65536) :
    encode .little 2 n = encode .big 2 (256 * (n % 256) + n / 256) := by
  have hlow : UInt8.ofNat (256 * (n % 256) + n / 256) = UInt8.ofNat (n / 256) := by
    apply UInt8.toNat_inj.mp
    rw [UInt8.toNat_ofNat', UInt8.toNat_ofNat']
    omega
  have hhigh : UInt8.ofNat ((256 * (n % 256) + n / 256) / 256) = UInt8.ofNat n := by
    have hdiv : (256 * (n % 256) + n / 256) / 256 = n % 256 := by omega
    apply UInt8.toNat_inj.mp
    rw [UInt8.toNat_ofNat', UInt8.toNat_ofNat', hdiv, Nat.mod_mod]
  change [UInt8.ofNat n, UInt8.ofNat (n / 256)] =
    [UInt8.ofNat ((256 * (n % 256) + n / 256) / 256), UInt8.ofNat (256 * (n % 256) + n / 256)]
  rw [hlow, hhigh]

/-- **The byte order does not matter**: the checksum of words read in one order, written in that
order, is the one of the other order.
Source: none: infrastructure
Kind: P -/
theorem encode_internetChecksum (bs : Bytes) :
    encode .little 2 (internetChecksum .little bs) = encode .big 2 (internetChecksum .big bs) := by
  obtain ⟨hzero, hmod⟩ := sum_wordsOf_big bs
  have hlittle := canon_lt (wordsOf .little bs).sum
  have hbig := canon_lt (wordsOf .big bs).sum
  have hlittle' := canon_mod (wordsOf .little bs).sum
  have hbig' := canon_mod (wordsOf .big bs).sum
  have hnone : canon (wordsOf .big bs).sum = 0 ↔ canon (wordsOf .little bs).sum = 0 := by
    rw [canon_eq_zero, canon_eq_zero, hzero]
  rw [encode_swap (internetChecksum_lt .little bs)]
  congr 1
  rw [internetChecksum_eq, internetChecksum_eq]
  -- both are congruent to `-256` times the sum, and zero together
  generalize canon (wordsOf .little bs).sum = c at *
  generalize canon (wordsOf .big bs).sum = d at *
  omega

end Lib
