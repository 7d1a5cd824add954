import UDPing.Lib.Strings
import Mathlib.Logic.Function.Basic

/-!
# ping_otelsender

* `PingState` and `step`: the scanner loop of `ping_otelsender.go` with its ring buffer; `none` where
  the program panics. Floating-point numbers are a parameter: a type `F` with a zero and an addition,
  and `parseFloat`.
* `Prints`: the texts in which `ping -O` reports about the ping of a number.
* **`step_miss`**, **`step_reply`**: what such a text does. The number it counts under is `slot n`.
-/

namespace UDPing.Otel

open Lib

/-! ## The scanner loop -/

/-- The variables of the loop. Source: `ping_otelsender.go`, `main`. Kind: D
Fidelity: an `int` is unbounded -/
structure PingState (F : Type) where
  targetCount : ℤ
  dropCount : ℤ
  rttCount : ℤ
  rttSum : F
  /-- Zero if no misses or a response has been received, nonzero if there are misses. -/
  ringBuf : ℤ → ℤ
  curSeq : ℤ

/-- Source: `ping_otelsender.go`, `main`. Kind: D -/
def PingState.start (F : Type) [Zero F] : PingState F where
  targetCount := 0
  dropCount := 0
  rttCount := 0
  rttSum := 0
  ringBuf := fun _ => 0
  curSeq := 0

/-- What stands between the first two equals signs of the first word.
Source: `ping_otelsender.go`, `main`: `strings.Split(strings.Split(s, " ")[0], "=")[1]`
Kind: D -/
def field (s : Bytes) : Option Bytes := do
  let word ← (split 32 s)[0]?
  (split 61 word)[1]?

/-- Whether a line says that there is no answer. Source: `ping_otelsender.go`, `main`. Kind: D -/
def saysMiss (buf : Bytes) : Bool :=
  occurs (ascii "no answer yet") buf || occurs (ascii "Unreachable") buf ||
    occurs (ascii "No route to host") buf

namespace PingState

variable {F : Type}

/-- The test for a new sequence. Source: `ping_otelsender.go`, `main`. Kind: D -/
def IsNew (s : PingState F) (icmpSeq : ℤ) : Prop :=
  s.curSeq < icmpSeq ∨ 1000 < s.curSeq - icmpSeq

instance (s : PingState F) (icmpSeq : ℤ) : Decidable (s.IsNew icmpSeq) :=
  inferInstanceAs (Decidable (_ ∨ _))

/-- Reset the ring buffer space if this is a new sequence.
Source: `ping_otelsender.go`, `main`
Kind: D -/
def newSequence (s : PingState F) (icmpSeq : ℤ) : PingState F :=
  if s.IsNew icmpSeq then
    { s with
      ringBuf := Function.update s.ringBuf icmpSeq 0
      curSeq := icmpSeq }
  else s

/-- A line without an answer. Source: `ping_otelsender.go`, `main`. Kind: D -/
def countMiss (s : PingState F) (icmpSeq : ℤ) : PingState F :=
  if s.ringBuf icmpSeq = 0 then
    { s with
      targetCount := s.targetCount + 1
      dropCount := s.dropCount + 1
      ringBuf := Function.update s.ringBuf icmpSeq 1 }
  else s

variable [Add F]

/-- A line with a time. Source: `ping_otelsender.go`, `main`. Kind: D -/
def countReply (s : PingState F) (icmpSeq : ℤ) (rtt : F) : PingState F :=
  let s := { s with rttCount := s.rttCount + 1, rttSum := s.rttSum + rtt }
  if s.ringBuf icmpSeq = 0 then { s with targetCount := s.targetCount + 1 }
  else { s with dropCount := s.dropCount - 1 }

/-- One line of the input; `none`: a panic.
Source: `ping_otelsender.go`, `main`
Kind: D
Fidelity: the remainder is less than the ring's length, so an index is out of range if negative -/
def step (parseFloat : Bytes → Option F) (s : PingState F) (buf : Bytes) : Option (PingState F) :=
  match fromIndex (ascii "icmp_seq=") buf with
  | none => some s
  | some rest =>
    (field rest).bind fun text =>
    let icmpSeq := (parseInt 16 text).1.tmod 1024
    if s.IsNew icmpSeq ∧ icmpSeq < 0 then none
    else
      let s := s.newSequence icmpSeq
      if saysMiss buf then
        if icmpSeq < 0 then none else some (s.countMiss icmpSeq)
      else
        match fromIndex (ascii "time=") buf with
        | none => some s
        | some rest =>
          (field rest).bind fun text =>
          (parseFloat text).bind fun rtt =>
          if icmpSeq < 0 then none else some (s.countReply icmpSeq rtt)

end PingState

/-! ## The lines of a ping -/

/-- What a line of `ping -O` is about. Source: none: specification. Kind: D -/
inductive PingLine where
  /-- There is no answer to the ping of this number. -/
  | miss (n : ℕ)
  /-- The answer to the ping of this number. -/
  | reply (n : ℕ)
  /-- No ping. -/
  | other
  deriving DecidableEq

/-- A text whose sequence number is that of the ping `n`.
Source: none: specification
Kind: D -/
def Numbered (n : ℕ) (text : Bytes) : Prop :=
  ∃ rest, fromIndex (ascii "icmp_seq=") text =
      some (ascii "icmp_seq=" ++ (decimal (n % 65536) ++ rest)) ∧
    (rest = [] ∨ ∃ rest', rest = 32 :: rest')

/-- `text` is the line `l`: it has the sequence number of its ping if it is about one, a line without
an answer says so, and an answer says no such thing but how long it took.
Source: none: specification
Kind: D -/
def Prints {F : Type} (parseFloat : Bytes → Option F) : PingLine → Bytes → Prop
  | .miss n, text => Numbered n text ∧ saysMiss text
  | .reply n, text => Numbered n text ∧ ¬saysMiss text ∧
      ∃ rest time rtt, fromIndex (ascii "time=") text = some rest ∧ field rest = some time ∧
        parseFloat time = some rtt
  | .other, text => fromIndex (ascii "icmp_seq=") text = none

/-- The place in the ring of a ping's number: `ParseInt` with 16 bits yields `32767` for all larger
ones.
Source: `ping_otelsender.go`, `main`
Kind: D -/
def slot (n : ℕ) : ℤ := (min (n % 65536) 32767 % 1024 : ℕ)

theorem slot_nonneg (n : ℕ) : 0 ≤ slot n := Int.natCast_nonneg _

/-- The number in a line. Source: `ping_otelsender.go`, `main`. Kind: L -/
theorem field_seq {digits rest : Bytes} (hspace : 32 ∉ digits) (heq : 61 ∉ digits)
    (hrest : rest = [] ∨ ∃ rest', rest = 32 :: rest') :
    field (ascii "icmp_seq=" ++ (digits ++ rest)) = some digits := by
  have hword : 32 ∉ ascii "icmp_seq=" ++ digits := by
    intro hmem
    rcases List.mem_append.mp hmem with hkey | hdigits
    · exact absurd hkey (by decide)
    · exact hspace hdigits
  have hfirst : (split 32 (ascii "icmp_seq=" ++ (digits ++ rest)))[0]? =
      some (ascii "icmp_seq=" ++ digits) := by
    rw [← List.append_assoc]
    rcases hrest with rfl | ⟨rest', rfl⟩
    · rw [List.append_nil, split_of_notMem hword]
      rfl
    · rw [split_append_sep hword]
      rfl
  have hsecond : split 61 (ascii "icmp_seq=" ++ digits) = [ascii "icmp_seq", digits] := by
    have hkey : ascii "icmp_seq=" ++ digits = ascii "icmp_seq" ++ 61 :: digits := rfl
    have hno : (61 : UInt8) ∉ ascii "icmp_seq" := by decide
    rw [hkey, split_append_sep hno, split_of_notMem heq]
  unfold field
  rw [hfirst]
  change (split 61 (ascii "icmp_seq=" ++ digits))[1]? = some digits
  rw [hsecond]
  rfl

/-- The index of the ring that a line is counted under.
Source: `ping_otelsender.go`, `main`
Kind: L -/
theorem index_of_numbered (n : ℕ) :
    (parseInt 16 (decimal (n % 65536))).1.tmod 1024 = slot n := by
  have hlt : n % 65536 < 2 ^ 16 := Nat.mod_lt n (by decide)
  rw [parseInt_decimal hlt]
  rfl

section Step

variable {F : Type} [Add F] {parseFloat : Bytes → Option F} {n : ℕ} {text : Bytes}

/-- A digit is neither a blank nor an equals sign. Source: none: infrastructure. Kind: L -/
theorem notMem_decimal (n : ℕ) : 32 ∉ decimal n ∧ 61 ∉ decimal n := by
  constructor
  · intro hmem
    exact absurd (mem_decimal hmem) (by decide)
  · intro hmem
    exact absurd (mem_decimal hmem) (by decide)

/-- **A line without an answer** is counted under its ping's place.
Source: `ping_otelsender.go`, `main`
Kind: P -/
theorem step_miss (h : Prints parseFloat (.miss n) text) (s : PingState F) :
    s.step parseFloat text = some ((s.newSequence (slot n)).countMiss (slot n)) := by
  obtain ⟨⟨rest, hindex, hrest⟩, hmiss⟩ := h
  obtain ⟨hspace, heq⟩ := notMem_decimal (n % 65536)
  have hnonneg := slot_nonneg n
  unfold PingState.step
  rw [hindex]
  dsimp only
  rw [field_seq hspace heq hrest, Option.bind_some, index_of_numbered, if_neg (by omega),
    if_pos hmiss, if_neg (by omega)]

/-- **An answer** is counted under its ping's place.
Source: `ping_otelsender.go`, `main`
Kind: P -/
theorem step_reply (h : Prints parseFloat (.reply n) text) (s : PingState F) :
    ∃ rtt, s.step parseFloat text =
      some ((s.newSequence (slot n)).countReply (slot n) rtt) := by
  obtain ⟨⟨rest, hindex, hrest⟩, hmiss, rest', time, rtt, htime, hfield, hrtt⟩ := h
  obtain ⟨hspace, heq⟩ := notMem_decimal (n % 65536)
  have hnonneg := slot_nonneg n
  refine ⟨rtt, ?_⟩
  unfold PingState.step
  rw [hindex]
  dsimp only
  rw [field_seq hspace heq hrest, Option.bind_some, index_of_numbered, if_neg (by omega),
    if_neg hmiss, htime]
  dsimp only
  rw [hfield, Option.bind_some, hrtt, Option.bind_some, if_neg (by omega)]

/-- Any other line is ignored. Source: `ping_otelsender.go`, `main`. Kind: L -/
theorem step_other (h : Prints parseFloat .other text) (s : PingState F) :
    s.step parseFloat text = some s := by
  unfold PingState.step
  rw [show fromIndex (ascii "icmp_seq=") text = none from h]

end Step

end UDPing.Otel
