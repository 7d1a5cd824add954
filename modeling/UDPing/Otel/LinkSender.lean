import UDPing.Lib.Dict
import UDPing.Lib.EventMachine
import UDPing.Lib.Strings
import Mathlib.Algebra.Field.Rat

/-!
# udping_otelsender

* `report`: what the scanner loop reads from a line that has been decoded, if its numbers parse.
* `Summary`: `datapointSummary`. `record` is the rest of the loop's body, `exports` and `reset` are the
  callback (`udping_otelsender.go`). A range over a map has no order; the list has one.
* `sender`: the machine over lines and callbacks in any order.

Floating-point numbers are exact: they are rationals, and `parseFloat` is a parameter.
-/

namespace UDPing.Otel

open Lib

/-- A line after `json.Unmarshal`: an object of strings.
Source: `udping_otelsender.go`, `main`
Kind: D -/
abbrev Obj := Dict Bytes Bytes

/-- The string under a name, empty if there is none. Source: `udping_otelsender.go`, `main`. Kind: D -/
def Obj.field (obj : Obj) (name : String) : Bytes := (obj.get (ascii name)).getD []

/-- `strconv.Atoi`; `none`: an error. Source: `strconv.Atoi`. Kind: D -/
def atoi (s : Bytes) : Option ℤ :=
  match parseInt 64 s with
  | (n, true) => some n
  | (_, false) => none

/-- What is taken from a line. Source: `udping_otelsender.go`, `main`. Kind: D -/
structure Report where
  fromHost : Bytes
  toHost : Bytes
  sum : ℚ
  count : ℤ
  targetCount : ℤ
deriving DecidableEq

/-- `none`: one of the numbers does not parse, and the loop goes on with the next line.
Source: `udping_otelsender.go`, `main`
Kind: D -/
def report (parseFloat : Bytes → Option ℚ) (obj : Obj) : Option Report := do
  let sum ← parseFloat (obj.field "sum")
  let count ← atoi (obj.field "count")
  let targetCount ← atoi (obj.field "targetCount")
  return ⟨obj.field "from_host", obj.field "to_host", sum, count, targetCount⟩

/-- Source: `udping_otelsender.go`, `datapoint`. Kind: D -/
structure Datapoint where
  fromHost : Bytes
  toHost : Bytes
  dropCount : ℤ
  targetCount : ℤ
  rttCount : ℤ
  rttSum : ℚ
deriving DecidableEq

/-- `datapointSummary`. Source: `udping_otelsender.go`, `main`. Kind: D -/
abbrev Summary := Dict Bytes Datapoint

/-- The number that 64 bits hold. Source: `udping_otelsender.go`, `datapoint`. Kind: D -/
def int64 (n : ℤ) : ℤ := n.bmod (2 ^ 64)

/-- Source: `udping_otelsender.go`, `main`. Kind: D -/
def key (fromHost toHost : Bytes) : Bytes := fromHost ++ ascii "-" ++ toHost

/-- One line added to a datapoint. Source: `udping_otelsender.go`, `main`. Kind: D -/
def Datapoint.add (v : Datapoint) (r : Report) : Datapoint :=
  { v with
    targetCount := int64 (v.targetCount + r.targetCount)
    dropCount := int64 (v.dropCount + int64 (r.targetCount - r.count))
    rttCount := int64 (v.rttCount + r.count)
    rttSum := v.rttSum + r.sum }

/-- Source: `udping_otelsender.go`, `main`. Kind: D -/
def record (summary : Summary) (r : Report) : Summary :=
  let k := key r.fromHost r.toHost
  let v := (summary.get k).getD ⟨r.fromHost, r.toHost, 0, 0, 0, 0⟩
  summary.set k (v.add r)

/-- What a callback observes of one datapoint. Source: `udping_otelsender.go`, `main`. Kind: D -/
structure Observation where
  fromHost : Bytes
  toHost : Bytes
  latency : ℚ
  dropCount : ℤ
  targetCount : ℤ
deriving DecidableEq

/-- Source: `udping_otelsender.go`, `main`. Kind: D -/
def observe (v : Datapoint) : Observation where
  fromHost := v.fromHost
  toHost := v.toHost
  latency := if 0 < v.rttCount then v.rttSum / v.rttCount else 0
  dropCount := v.dropCount
  targetCount := v.targetCount

/-- What a callback exports. Source: `udping_otelsender.go`, `main`. Kind: D -/
def exports (summary : Summary) : List Observation := summary.items.map fun item => observe item.2

/-- What a callback leaves. Source: `udping_otelsender.go`, `main`. Kind: D -/
def reset (summary : Summary) : Summary :=
  summary.mapValues fun v => { v with rttSum := 0, rttCount := 0 }

/-- Source: `udping_otelsender.go`, `main`. Kind: D -/
inductive LinkEvent where
  | line (obj : Obj)
  | callback

/-- Source: `udping_otelsender.go`, `main`. Kind: D -/
def sender (parseFloat : Bytes → Option ℚ) : EventMachine Summary LinkEvent where
  init := .empty
  step summary
    | .line obj =>
        match report parseFloat obj with
        | some r => record summary r
        | none => summary
    | .callback => reset summary

end UDPing.Otel
