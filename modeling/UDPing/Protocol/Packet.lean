import UDPing.Lib.Bytes
import Mathlib.Data.Int.Notation
import Mathlib.Tactic.NormNum

/-!
# Constants, the probe header and clock readings

* The constants of `constants.h` that the modelled code reads.
* `Packet`: the header `packet` of `protocol.h` as the server code reads it, field by field. The
  `guid` is the C string that `p->guid` denotes.
* `Timespec`: a reading of `clock_gettime`; `Time`: a reading of `time(0)` (`time_t`).
* `cInt`: the value a C `int` holds.
-/

namespace UDPing

open Lib

/-! ## Constants and addresses -/

/-- Source: `constants.h`, `MIN_PORT`. Kind: D -/
def minPort : ℕ := 1024

/-- Source: `constants.h`, `MAX_PORT`. Kind: D -/
def maxPort : ℕ := 60000

/-- Source: `constants.h`, `MAX_GUID`. Kind: D -/
def maxGuid : ℕ := 20

/-- Source: `constants.h`, `MAXBUF`. Kind: D -/
def maxBuf : ℕ := 2000

/-- Source: `constants.h`, `PROTOVERSION`. Kind: D -/
def protoVersion : UInt8 := 1

/-- A MAC address. Source: `maclist.h`. Kind: D -/
abbrev Mac := { bytes : Bytes // bytes.length = 6 }

/-! ## Clock readings and machine integers -/

/-- A reading of `time(0)`. A clock never comes near the ends of the 64-bit range, so the readings
are plain integers.
Source: `time_t`
Kind: D -/
abbrev Time := ℤ

/-- A reading of `clock_gettime`, with its two 64-bit fields.
Source: `struct timespec`
Kind: D -/
structure Timespec where
  /-- Seconds. -/
  tvSec : ℤ
  /-- Nanoseconds. -/
  tvNsec : ℤ
  /-- `tv_sec` is a signed 64-bit number. -/
  secRange : -2 ^ 63 ≤ tvSec ∧ tvSec < 2 ^ 63 := by decide
  /-- `tv_nsec` is a signed 64-bit number. -/
  nsecRange : -2 ^ 63 ≤ tvNsec ∧ tvNsec < 2 ^ 63 := by decide
  deriving DecidableEq

/-- The value a C `int` holds after an operation whose mathematical result is `x`: two's
complement, 32 bits.
Source: `int`
Kind: D -/
def cInt (x : ℤ) : ℤ := Int.bmod x (2 ^ 32)

/-- Counting in an `int` is counting modulo `2 ^ 32`. Source: none: infrastructure. Kind: L -/
theorem cInt_add_one (x : ℤ) : cInt (cInt x + 1) = cInt (x + 1) := by
  simp [cInt]

/-- A number in the range of `int` is held exactly. Source: none: infrastructure. Kind: L -/
theorem cInt_of_range {x : ℤ} (h0 : -2 ^ 31 ≤ x) (h : x < 2 ^ 31) : cInt x = x := by
  apply Int.bmod_eq_of_le <;> omega

/-- What an `int` holds is congruent to the mathematical value.
Source: none: infrastructure
Kind: L -/
theorem cInt_emod (x : ℤ) : cInt x % 2 ^ 32 = x % 2 ^ 32 :=
  Int.bmod_emod

/-! ## The probe header -/

/-- The header of a probe as `receivePing` reads it.
Source: `protocol.h`, `packet`
Kind: D
Fidelity: `guid` is the C string read through `p->guid` -/
structure Packet where
  protoVersion : UInt8
  clientStartTime : UInt32
  guid : Bytes
  seqNum : UInt32
  sentSec : UInt32
  sentNsec : UInt64
  size : UInt32
  deriving DecidableEq

end UDPing
