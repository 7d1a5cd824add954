import UDPing.Lib.Bytes
import Mathlib.Data.Nat.ModEq
import Mathlib.Tactic.Ring

/-!
# Flat memory and numbers in it

* `Mem`: a byte at every address; `load` and `store` move blocks of bytes. A block that is loaded
  where it was stored comes back (`load_store_self`), and a store does not touch what lies beside it
  (`load_store_disjoint`).
* `encode` and `decode`: a number as `w` bytes, in either byte order (`decode_encode`). `readNat`
  and `writeNat` do this in memory.
-/

namespace Lib

/-! ## Numbers as bytes -/

/-- The order in which memory holds the bytes of a number.
Source: none: infrastructure
Kind: D -/
inductive Endian where
  | little
  | big
  deriving DecidableEq

/-- The `w` lowest bytes of `n`, the lowest first. Source: none: infrastructure. Kind: D -/
def littleBytes : ℕ → ℕ → Bytes
  | 0, _ => []
  | w + 1, n => UInt8.ofNat n :: littleBytes w (n / 256)

/-- The number whose bytes, the lowest first, are `bs`. Source: none: infrastructure. Kind: D -/
def ofLittle : Bytes → ℕ
  | [] => 0
  | b :: bs => b.toNat + 256 * ofLittle bs

/-- The bytes of a number of `w` bytes. Source: none: infrastructure. Kind: D -/
def encode (e : Endian) (w n : ℕ) : Bytes :=
  match e with
  | .little => littleBytes w n
  | .big => (littleBytes w n).reverse

/-- The number that bytes denote. Source: none: infrastructure. Kind: D -/
def decode (e : Endian) (bs : Bytes) : ℕ :=
  match e with
  | .little => ofLittle bs
  | .big => ofLittle bs.reverse

@[simp] theorem length_littleBytes (w n : ℕ) : (littleBytes w n).length = w := by
  induction w generalizing n with
  | zero => rfl
  | succ w ih => rw [littleBytes, List.length_cons, ih]

@[simp] theorem length_encode (e : Endian) (w n : ℕ) : (encode e w n).length = w := by
  cases e with
  | little => exact length_littleBytes w n
  | big => rw [encode, List.length_reverse, length_littleBytes]

/-- The lowest bytes denote the number modulo a power of `256`.
Source: none: infrastructure
Kind: L -/
theorem ofLittle_littleBytes (w n : ℕ) : ofLittle (littleBytes w n) = n % 256 ^ w := by
  induction w generalizing n with
  | zero => rw [pow_zero, Nat.mod_one]; rfl
  | succ w ih =>
      have hbyte : (UInt8.ofNat n).toNat = n % 256 := UInt8.toNat_ofNat'
      rw [littleBytes, ofLittle, ih, hbyte, pow_succ', Nat.mod_mul]

/-- **A number that fits is read back from its bytes.** Source: none: infrastructure. Kind: P -/
theorem decode_encode (e : Endian) {w n : ℕ} (hn : n < 256 ^ w) :
    decode e (encode e w n) = n := by
  cases e with
  | little => exact (ofLittle_littleBytes w n).trans (Nat.mod_eq_of_lt hn)
  | big =>
      rw [decode, encode, List.reverse_reverse]
      exact (ofLittle_littleBytes w n).trans (Nat.mod_eq_of_lt hn)

/-! ## Memory -/

/-- A byte at every address. Source: none: infrastructure. Kind: D -/
abbrev Mem := ℕ → UInt8

namespace Mem

/-- The `k` bytes from `o` on. Source: none: infrastructure. Kind: D -/
def load (m : Mem) (o k : ℕ) : Bytes := (List.range k).map fun i => m (o + i)

/-- The memory after the bytes `bs` were written from `o` on.
Source: none: infrastructure
Kind: D -/
def store (m : Mem) (o : ℕ) (bs : Bytes) : Mem := fun i =>
  if o ≤ i then (bs[i - o]?).getD (m i) else m i

/-- The number that the `w` bytes from `o` on denote. Source: none: infrastructure. Kind: D -/
def readNat (e : Endian) (w : ℕ) (m : Mem) (o : ℕ) : ℕ := decode e (m.load o w)

/-- The memory after a number of `w` bytes was written at `o`.
Source: none: infrastructure
Kind: D -/
def writeNat (e : Endian) (w : ℕ) (m : Mem) (o n : ℕ) : Mem := m.store o (encode e w n)

variable {m m' : Mem} {o o' k k' : ℕ} {bs : Bytes}

@[simp] theorem length_load (m : Mem) (o k : ℕ) : (m.load o k).length = k := by
  simp [load]

@[simp] theorem getElem_load {i : ℕ} (hi : i < (m.load o k).length) :
    (m.load o k)[i] = m (o + i) := by
  simp [load]

/-- Memories that agree on a block. Source: none: infrastructure. Kind: L -/
theorem load_congr (h : ∀ i, o ≤ i → i < o + k → m i = m' i) : m.load o k = m'.load o k := by
  apply List.map_congr_left
  intro i hi
  have hlt := List.mem_range.mp hi
  exact h (o + i) (by omega) (by omega)

/-- A block in two parts. Source: none: infrastructure. Kind: L -/
theorem load_add (m : Mem) (o k k' : ℕ) : m.load o (k + k') = m.load o k ++ m.load (o + k) k' := by
  unfold load
  rw [List.range_add, List.map_append, List.map_map]
  congr 1
  apply List.map_congr_left
  intro i _
  rw [Function.comp_apply, Nat.add_assoc]

/-- Bytes beside a store. Source: none: infrastructure. Kind: L -/
theorem store_outside {i : ℕ} (h : i < o ∨ o + bs.length ≤ i) : m.store o bs i = m i := by
  unfold store
  split_ifs with hi
  · rw [List.getElem?_eq_none (by omega)]
    rfl
  · rfl

/-- Bytes of a store. Source: none: infrastructure. Kind: L -/
theorem store_inside {i : ℕ} (hi : i < bs.length) : m.store o bs (o + i) = bs[i] := by
  unfold store
  rw [if_pos (Nat.le_add_right o i), Nat.add_sub_cancel_left, List.getElem?_eq_getElem hi]
  rfl

/-- **What was stored is loaded.** Source: none: infrastructure. Kind: P -/
theorem load_store_self (m : Mem) (o : ℕ) (bs : Bytes) :
    (m.store o bs).load o bs.length = bs := by
  apply List.ext_getElem (length_load _ _ _)
  intro i _ hi
  rw [getElem_load]
  exact store_inside hi

/-- **A store touches nothing beside it.** Source: none: infrastructure. Kind: P -/
theorem load_store_disjoint (h : o' + k ≤ o ∨ o + bs.length ≤ o') :
    (m.store o bs).load o' k = m.load o' k := by
  apply load_congr
  intro i hi hik
  apply store_outside
  omega

/-- Bytes copied from one memory to another. Source: none: infrastructure. Kind: L -/
theorem store_load {i : ℕ} (m m' : Mem) (hi : i < k) : m.store 0 (m'.load 0 k) i = m' i := by
  have hlt : i < (m'.load 0 k).length := by rwa [length_load]
  have hinside := store_inside (m := m) (o := 0) hlt
  rwa [Nat.zero_add, getElem_load, Nat.zero_add] at hinside

/-- A number that fits is read back. Source: none: infrastructure. Kind: L -/
theorem readNat_writeNat (e : Endian) {w n : ℕ} (m : Mem) (o : ℕ) (hn : n < 256 ^ w) :
    (m.writeNat e w o n).readNat e w o = n := by
  have hload := load_store_self m o (encode e w n)
  rw [length_encode] at hload
  unfold readNat writeNat
  rw [hload]
  exact decode_encode e hn

/-- A number beside a store. Source: none: infrastructure. Kind: L -/
theorem readNat_store_disjoint (e : Endian) {w : ℕ} (h : o' + w ≤ o ∨ o + bs.length ≤ o') :
    (m.store o bs).readNat e w o' = m.readNat e w o' := by
  unfold readNat
  rw [load_store_disjoint h]

end Mem

end Lib
