import UDPing.Lib.Mem
import UDPing.Protocol.Packet

/-!
# The probe header in memory

* `Abi`: where a compiler puts the fields of `packet` and in which order a host keeps the bytes of a
  number. The C standard fixes the order of the fields and that they do not overlap; `lp64` is what
  64-bit Linux does.
* `Abi.packet`: the header that code sees through a `packet *`.
-/

namespace UDPing

open Lib

/-- The offsets of the fields of `packet`, the sizes of `packet` and `paddedPacket`, and the byte
order.
Source: `protocol.h`, `packet`, `paddedPacket`
Kind: D -/
structure Abi where
  endian : Endian
  protoVersion : ℕ
  clientStartTime : ℕ
  guid : ℕ
  seqNum : ℕ
  sentSec : ℕ
  sentNsec : ℕ
  size : ℕ
  /-- `sizeof(packet)`. -/
  sizeofPacket : ℕ
  /-- `sizeof(paddedPacket)`. -/
  sizeofPaddedPacket : ℕ
  /-- The fields come in order and do not overlap. -/
  fields : protoVersion + 1 ≤ clientStartTime ∧ clientStartTime + 4 ≤ guid ∧
    guid + (maxGuid + 1) ≤ seqNum ∧ seqNum + 4 ≤ sentSec ∧ sentSec + 4 ≤ sentNsec ∧
    sentNsec + 8 ≤ size ∧ size + 4 ≤ sizeofPacket := by decide
  /-- A header is smaller than a receive buffer. -/
  header_lt : sizeofPacket < maxBuf := by decide
  /-- The padding follows the header. -/
  padding : sizeofPacket + maxBuf ≤ sizeofPaddedPacket := by decide

/-- `packet` on 64-bit Linux: `sent_nsec` is aligned to 8 bytes, and so is the whole.
Source: `protocol.h`, `packet`
Kind: D -/
def lp64 (endian : Endian) : Abi where
  endian := endian
  protoVersion := 0
  clientStartTime := 4
  guid := 8
  seqNum := 32
  sentSec := 36
  sentNsec := 40
  size := 48
  sizeofPacket := 56
  sizeofPaddedPacket := 2056

namespace Abi

variable (A : Abi)

/-- A field of four bytes. Source: `uint32_t`. Kind: D -/
def read32 (m : Mem) (o : ℕ) : UInt32 := UInt32.ofNat (m.readNat A.endian 4 o)

/-- A field of eight bytes. Source: `uint64_t`. Kind: D -/
def read64 (m : Mem) (o : ℕ) : UInt64 := UInt64.ofNat (m.readNat A.endian 8 o)

/-- Writing a field of four bytes. Source: `uint32_t`. Kind: D -/
def write32 (m : Mem) (o : ℕ) (x : UInt32) : Mem := m.writeNat A.endian 4 o x.toNat

/-- Writing a field of eight bytes. Source: `uint64_t`. Kind: D -/
def write64 (m : Mem) (o : ℕ) (x : UInt64) : Mem := m.writeNat A.endian 8 o x.toNat

/-- The header at the start of a block of `n` bytes of memory.
Source: `protocol.h`, `packet`
Kind: D
Fidelity: a GUID without a NUL would be read on beyond the block, which is undefined -/
def packet (m : Mem) (n : ℕ) : Packet where
  protoVersion := m A.protoVersion
  clientStartTime := A.read32 m A.clientStartTime
  guid := cString (m.load A.guid (n - A.guid))
  seqNum := A.read32 m A.seqNum
  sentSec := A.read32 m A.sentSec
  sentNsec := A.read64 m A.sentNsec
  size := A.read32 m A.size

variable {m : Mem} {o o' : ℕ}

@[simp] theorem read32_write32 (m : Mem) (o : ℕ) (x : UInt32) :
    A.read32 (A.write32 m o x) o = x := by
  unfold read32 write32
  rw [Mem.readNat_writeNat A.endian m o (w := 4) x.toNat_lt, UInt32.ofNat_toNat]

@[simp] theorem read64_write64 (m : Mem) (o : ℕ) (x : UInt64) :
    A.read64 (A.write64 m o x) o = x := by
  unfold read64 write64
  rw [Mem.readNat_writeNat A.endian m o (w := 8) x.toNat_lt, UInt64.ofNat_toNat]

/-- Fields of other bytes. Source: none: infrastructure. Kind: L -/
theorem read32_store {bs : Bytes} (h : o' + 4 ≤ o ∨ o + bs.length ≤ o') :
    A.read32 (m.store o bs) o' = A.read32 m o' := by
  unfold read32
  rw [Mem.readNat_store_disjoint A.endian h]

theorem read64_store {bs : Bytes} (h : o' + 8 ≤ o ∨ o + bs.length ≤ o') :
    A.read64 (m.store o bs) o' = A.read64 m o' := by
  unfold read64
  rw [Mem.readNat_store_disjoint A.endian h]

/-- Fields of equal bytes. Source: none: infrastructure. Kind: L -/
theorem read32_congr {m' : Mem} (h : ∀ i, o ≤ i → i < o + 4 → m i = m' i) :
    A.read32 m o = A.read32 m' o := by
  unfold read32 Mem.readNat
  rw [Mem.load_congr h]

theorem read64_congr {m' : Mem} (h : ∀ i, o ≤ i → i < o + 8 → m i = m' i) :
    A.read64 m o = A.read64 m' o := by
  unfold read64 Mem.readNat
  rw [Mem.load_congr h]

end Abi

end UDPing
