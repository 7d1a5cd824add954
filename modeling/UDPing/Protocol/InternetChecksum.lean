import UDPing.Protocol.Checksum
import Mathlib.Logic.Function.Iterate

/-!
# `checksum` is the internet checksum

On a little-endian host:

* `toNat_accumulator`, `addWords_append`: the accumulator holds the plain sum of the words at every
  point of the summing loop.
* `fold_rounds`: the folding loop ends after two rounds at most.
* **`checksum_rfc1071`**: so for buffers of up to 65535 bytes `checksum` is the internet checksum. With
  it behind the data a buffer verifies, and a change of one word is noticed.
-/

namespace UDPing

open Lib

/-! ## The summing loop -/

/-- The accumulator of `checksum` when the summing loop has gone over `bs`.
Source: `protocol.cc`, `checksum` (`sum`)
Kind: D -/
def accumulator (bs : Bytes) : UInt32 := addWords .little UInt8.toUInt32 0 bs

/-- The summing loop, from some round on. Source: `protocol.cc`, `checksum`. Kind: L -/
theorem addWords_append (e : Endian) (last : UInt8 → UInt32) (sum : UInt32) {ps : Bytes}
    (hps : ps.length % 2 = 0) (rest : Bytes) :
    addWords e last sum (ps ++ rest) = addWords e last (addWords e last sum ps) rest := by
  fun_induction addWords e last sum ps with
  | case1 sum => rfl
  | case2 sum b => simp at hps
  | case3 sum b c ps ih =>
      rw [List.length_cons, List.length_cons] at hps
      rw [List.cons_append, List.cons_append, addWords, ih (by omega)]

/-- **The accumulator does not overflow** for buffers of up to 131072 bytes.
Source: `protocol.cc`, `checksum`
Kind: P -/
theorem toNat_accumulator {bs : Bytes} (hbs : bs.length ≤ 131072) :
    (accumulator bs).toNat = (wordsOf .little bs).sum := by
  have hle := sum_wordsOf_le .little bs
  exact toNat_addWords_byte (by omega) fun _ => rfl

/-! ## The folding loop -/

/-- A round of the folding loop. Source: `protocol.cc`, `checksum`. Kind: D -/
def foldRound (sum : UInt32) : UInt32 := (sum &&& (0xffff : UInt32)) + (sum >>> 16)

/-- The folding loop makes `n` rounds from `sum` on and ends with `last`.
Source: `protocol.cc`, `checksum`
Kind: D -/
def Rounds (n : ℕ) (sum last : UInt32) : Prop :=
  foldRound^[n] sum = last ∧ (∀ k < n, foldRound^[k] sum >>> 16 ≠ 0) ∧ last >>> 16 = 0

/-- A round does not overflow. Source: `protocol.cc`, `checksum`. Kind: L -/
theorem toNat_foldRound (sum : UInt32) :
    (foldRound sum).toNat = (sum &&& (0xffff : UInt32)).toNat + (sum >>> 16).toNat := by
  have hlow := toNat_low sum
  have hhigh := toNat_high sum
  have hlt := sum.toNat_lt
  rw [foldRound, UInt32.toNat_add]
  omega

/-- The loop's condition. Source: `protocol.cc`, `checksum`. Kind: L -/
theorem high_eq_zero_iff (sum : UInt32) : sum >>> 16 = 0 ↔ sum.toNat < 65536 := by
  have hhigh := toNat_high sum
  have hzero : (0 : UInt32).toNat = 0 := rfl
  rw [← UInt32.toNat_inj, hhigh, hzero]
  omega

/-- The loop ends at once. Source: `protocol.cc`, `checksum`. Kind: L -/
theorem fold_of_high_eq_zero {sum : UInt32} (h : sum >>> 16 = 0) : fold sum = sum := by
  rw [fold, if_neg (not_not.mpr h)]

/-- The loop makes a round. Source: `protocol.cc`, `checksum`. Kind: L -/
theorem fold_foldRound (sum : UInt32) : fold (foldRound sum) = fold sum := by
  by_cases h : sum >>> 16 = 0
  · have hround : foldRound sum = sum := by
      have hlt := (high_eq_zero_iff sum).mp h
      apply UInt32.toNat_inj.mp
      rw [toNat_foldRound, toNat_low, h]
      exact Nat.mod_eq_of_lt hlt
    rw [hround]
  · conv_rhs => rw [fold, if_pos h]
    rfl

theorem Rounds.of_foldRound {n : ℕ} {sum last : UInt32} (hsum : sum >>> 16 ≠ 0)
    (h : Rounds n (foldRound sum) last) : Rounds (n + 1) sum last := by
  obtain ⟨hlast, hbefore, hend⟩ := h
  refine ⟨hlast, fun k hk => ?_, hend⟩
  cases k with
  | zero => exact hsum
  | succ k => exact hbefore k (Nat.lt_of_succ_lt_succ hk)

theorem rounds_zero {sum : UInt32} (h : sum >>> 16 = 0) : Rounds 0 sum (fold sum) :=
  ⟨(fold_of_high_eq_zero h).symm, fun _ hk => absurd hk (Nat.not_lt_zero _), by
    rwa [fold_of_high_eq_zero h]⟩

/-- **The folding loop ends after two rounds at most**: the first leaves at most one bit above the
low half, and then there is room for it.
Source: `protocol.cc`, `checksum`
Kind: P -/
theorem fold_rounds (sum : UInt32) : ∃ n ≤ 2, Rounds n sum (fold sum) := by
  have hlt := sum.toNat_lt
  have hround := toNat_foldRound sum
  have hround' := toNat_foldRound (foldRound sum)
  rw [toNat_low, toNat_high] at hround hround'
  by_cases h : sum >>> 16 = 0
  · exact ⟨0, by omega, rounds_zero h⟩
  by_cases h' : foldRound sum >>> 16 = 0
  · have hrounds := rounds_zero h'
    rw [fold_foldRound] at hrounds
    exact ⟨1, by omega, hrounds.of_foldRound h⟩
  · have hend : foldRound (foldRound sum) >>> 16 = 0 := by
      rw [high_eq_zero_iff] at h' ⊢
      omega
    have hrounds := rounds_zero hend
    rw [fold_foldRound, fold_foldRound] at hrounds
    exact ⟨2, by omega, (hrounds.of_foldRound h').of_foldRound h⟩

/-! ## The result -/

/-- On a little-endian host `checksum` is the internet checksum. Source: `protocol.cc`, `checksum`.
Kind: L -/
theorem checksum_eq_internetChecksum {bs : Bytes} (hbs : bs.length ≤ 131072) :
    (checksum .little bs).toNat = internetChecksum .little bs := by
  have hsum := toNat_accumulator hbs
  rw [internetChecksum_eq, ← hsum]
  exact toNat_complement_fold _

-- the strings of `testProtocol` in `t_protocol.cc`
example : (checksum .little (ascii "aaaaaa")).toNat = 0xdbdb ∧
    (checksum .little (ascii "AAAAAAAA")).toNat = 0xfafa :=
  ⟨(checksum_eq_internetChecksum (by decide)).trans (by decide),
    (checksum_eq_internetChecksum (by decide)).trans (by decide)⟩

/-- **`checksum` implements the internet checksum** on a little-endian host, for every buffer of up
to 65535 bytes.
* It returns the complement of the one's-complement sum of the words, and in memory its bytes are
  those of the checksum of the words in network order.
* The accumulator holds the plain sum of the words after every round of the summing loop and in the
  end: it does not overflow.
* No round of the folding loop overflows; the loop ends after two rounds at most, with 16 bits.
* With the returned word behind the data, filled up to an even length, the checksum is zero.
* Buffers of one length that differ in one word, by more than a multiple of `65535`, have different
  checksums.
Source: `protocol.cc`, `checksum`
Kind: P -/
theorem checksum_rfc1071 {bs : Bytes} (hbs : bs.length ≤ 65535) :
    ((checksum .little bs).toNat = internetChecksum .little bs ∧
      encode .little 2 (checksum .little bs).toNat = encode .big 2 (internetChecksum .big bs)) ∧
    (∀ ps rest, bs = ps ++ rest → (accumulator ps).toNat = (wordsOf .little ps).sum ∧
      (ps.length % 2 = 0 →
        accumulator bs = addWords .little UInt8.toUInt32 (accumulator ps) rest)) ∧
    (checksum .little bs = (~~~fold (accumulator bs)).toUInt16 ∧
      (∀ sum, (foldRound sum).toNat = (sum &&& (0xffff : UInt32)).toNat + (sum >>> 16).toNat) ∧
      (∃ n ≤ 2, Rounds n (accumulator bs) (fold (accumulator bs))) ∧
      (fold (accumulator bs)).toNat < 2 ^ 16) ∧
    checksum .little (padded bs ++ encode .little 2 (checksum .little bs).toNat) = 0 ∧
    ∀ cs : Bytes, cs.length = bs.length → ∀ i,
      (∀ j, j ≠ i → (wordsOf .little bs)[j]? = (wordsOf .little cs)[j]?) →
      ¬(wordsOf .little bs).getD i 0 ≡ (wordsOf .little cs).getD i 0 [MOD 65535] →
      checksum .little bs ≠ checksum .little cs := by
  have hchecksum : (checksum .little bs).toNat = internetChecksum .little bs :=
    checksum_eq_internetChecksum (by omega)
  refine ⟨⟨hchecksum, ?_⟩, ?_, ⟨rfl, toNat_foldRound, fold_rounds _, ?_⟩, ?_, ?_⟩
  · rw [hchecksum]
    exact encode_internetChecksum bs
  · rintro ps rest rfl
    rw [List.length_append] at hbs
    exact ⟨toNat_accumulator (by omega), fun heven => addWords_append _ _ _ heven rest⟩
  · rw [fold_eq]
    exact canon_lt _
  · apply UInt16.toNat_inj.mp
    have hlen : (padded bs ++ encode .little 2 (checksum .little bs).toNat).length ≤ 131072 := by
      rw [List.length_append, length_padded, length_encode]
      omega
    rw [checksum_eq_internetChecksum hlen, hchecksum]
    exact internetChecksum_verifies .little bs
  · intro cs hlen i hrest hi hsame
    have hcs : (checksum .little cs).toNat = internetChecksum .little cs :=
      checksum_eq_internetChecksum (by omega)
    rw [← hsame, hchecksum] at hcs
    exact internetChecksum_ne .little hlen.symm hrest hi hcs

/-- The test string of odd length. Source: `t_protocol.cc`, `testProtocol`. Kind: C -/
theorem checksum_rfc1071_odd :
    (checksum .little (ascii "AAAAAAA")).toNat = 0x3bfb ∧
    (accumulator (ascii "AAAAAA")).toNat = 3 * 0x4141 ∧
    (∃ n ≤ 2, Rounds n (accumulator (ascii "AAAAAAA")) (fold (accumulator (ascii "AAAAAAA")))) ∧
    checksum .little (ascii "AAAAAAA" ++ [0, 0xfb, 0x3b]) = 0 ∧
    checksum .little (ascii "AAAAAAA") ≠ checksum .little (ascii "AAABAAA") := by
  obtain ⟨⟨hvalue, -⟩, hsum, ⟨-, -, hrounds, -⟩, hverifies, hdetects⟩ :=
    @checksum_rfc1071 (ascii "AAAAAAA") (by decide)
  have hsum' : (wordsOf .little (ascii "AAAAAA")).sum = 3 * 0x4141 := by decide
  have hvalue' : internetChecksum .little (ascii "AAAAAAA") = 0x3bfb := by decide
  have hbytes : padded (ascii "AAAAAAA") ++ encode .little 2 0x3bfb =
      ascii "AAAAAAA" ++ [0, 0xfb, 0x3b] := by decide
  rw [hvalue'] at hvalue
  rw [hvalue, hbytes] at hverifies
  refine ⟨hvalue, (hsum _ (ascii "A") rfl).1.trans hsum', hrounds, hverifies, ?_⟩
  have hwords : wordsOf .little (ascii "AAAAAAA") = [0x4141, 0x4141, 0x4141, 0x41] := by decide
  have hwords' : wordsOf .little (ascii "AAABAAA") = [0x4141, 0x4241, 0x4141, 0x41] := by decide
  rw [hwords] at hdetects
  refine hdetects _ (by decide) 1 (fun j hj => ?_) ?_
  · rw [hwords']
    rcases j with _ | _ | j
    · rfl
    · exact absurd rfl hj
    · rfl
  · rw [hwords']
    decide

end UDPing
