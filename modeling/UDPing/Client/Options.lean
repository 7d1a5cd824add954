import UDPing.Protocol.Packet

/-!
# Options

`atoi` and `Options::parseIntOption` (`options.cc`). An option that is refused ends the program.
-/

namespace UDPing.Client

open Lib

/-- Source: `isspace` in the C locale. Kind: D -/
def isSpace (b : UInt8) : Bool := b = 32 || (9 ≤ b && b ≤ 13)

/-- Source: `isdigit`. Kind: D -/
def isDigit (b : UInt8) : Bool := 48 ≤ b && b ≤ 57

/-- `strtol` to base ten, converted to `int`: blanks, a sign, digits; the rest is ignored.
Source: `atoi`
Kind: D -/
def atoi (s : Bytes) : ℤ :=
  let s := s.dropWhile isSpace
  let (negative, s) :=
    match s with
    | 45 :: rest => (true, rest)
    | 43 :: rest => (false, rest)
    | s => (false, s)
  let n : ℤ := (s.takeWhile isDigit).foldl (fun n b => 10 * n + (b.toNat - 48)) 0
  let n := if negative then -n else n
  cInt (max (-2 ^ 63) (min (2 ^ 63 - 1) n))

/-- The value of an integer option, `arg` being its text if it was given; `none`: the usage is
printed and the program ends.
Source: `options.cc`, `Options::parseIntOption`
Kind: D -/
def parseIntOption (arg : Option Bytes) (required : Bool) (min max : ℤ) : Option ℤ :=
  match arg with
  | some text =>
    let ret := atoi text
    if ret < min ∨ max < ret then none else some ret
  | none => if required then none else some 0

/-- **What a required option may be**: a number in its range.
Source: `options.cc`, `Options::parseIntOption`
Kind: L -/
theorem range_of_parseIntOption {arg : Option Bytes} {min max ret : ℤ}
    (h : parseIntOption arg true min max = some ret) : min ≤ ret ∧ ret ≤ max := by
  rcases arg with _ | text
  · cases h
  · unfold parseIntOption at h
    dsimp only at h
    split_ifs at h with hrange
    rw [Option.some.injEq] at h
    omega

/-- Every number in its range that has a text may be chosen. -/
example : parseIntOption (some (ascii " 1500")) true 1 maxBuf = some 1500 := by decide

end UDPing.Client
