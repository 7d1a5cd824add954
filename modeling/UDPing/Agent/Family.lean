import UDPing.Lib.Forest
import Mathlib.Data.Int.Order.Basic
import Mathlib.Data.List.Infix

/-!
# Killing a child's family

* `words`, `int`: what Python's `split` and `int` make of a string.
* `killPidFamily` (`udping_agent`): the recursion through the lines of `ps`, and the calls it makes.
* `psRow`: the parent and the process of a line. `killPidFamily_of_below`: the recursion leaves
  the rows in the order of `Lib.below`.
* **`killPidFamily_exact`**: it kills the family, each process once and behind its descendants.
-/

namespace UDPing.Agent

open Lib Relation

/-! ## Python's strings -/

/-- The characters of a string. Source: `str`. Kind: D -/
abbrev Str := List Char

/-- Source: `str.isspace`. Kind: D -/
def isSpace (c : Char) : Bool :=
  let n := c.toNat
  (0x09 ≤ n && n ≤ 0x0d) || (0x1c ≤ n && n ≤ 0x20) || n = 0x85 || n = 0xa0 || n = 0x1680 ||
    (0x2000 ≤ n && n ≤ 0x200a) || n = 0x2028 || n = 0x2029 || n = 0x202f || n = 0x205f ||
    n = 0x3000

/-- Source: `str.strip`. Kind: D -/
def strip (s : Str) : Str := ((s.dropWhile isSpace).reverse.dropWhile isSpace).reverse

/-- The words between blanks. Source: `str.split`. Kind: D -/
def words (s : Str) : List Str := (s.splitOnP isSpace).filter (· ≠ [])

/-- Whether the pattern occurs. Source: `str.find`. Kind: D -/
def occurs (pattern s : Str) : Bool := pattern <:+: s

/-- The digits behind those that are worth `n`, with single underscores between them.
Source: `int`
Kind: D -/
def digits (decimal : Char → Option ℕ) : Str → ℕ → Option ℕ
  | [], n => some n
  | '_' :: c :: s, n => (decimal c).bind fun d => digits decimal s (10 * n + d)
  | c :: s, n => (decimal c).bind fun d => digits decimal s (10 * n + d)

/-- The integer that a string denotes; `none`: `ValueError`. `decimal` is the value of a digit, as
the Unicode database has it.
Source: `int`
Kind: D
Fidelity: the limit of some versions on the number of digits is not modelled -/
def int (decimal : Char → Option ℕ) (s : Str) : Option ℤ :=
  match strip s with
  | [] => none
  | '-' :: c :: s => (decimal c).bind fun d => (digits decimal s d).map fun n => -(n : ℤ)
  | '+' :: c :: s => (decimal c).bind fun d => (digits decimal s d).map fun n => (n : ℤ)
  | c :: s => (decimal c).bind fun d => (digits decimal s d).map fun n => (n : ℤ)

/-! ## The recursion -/

/-- Source: `udping_agent`, `killPidFamily`. Kind: D -/
inductive Syscall where
  | kill (pid : ℤ)
  | waitpid (pid : ℤ)
  deriving DecidableEq

namespace Syscall

/-- The process that a call is about. Source: none: specification. Kind: D -/
def pid : Syscall → ℤ
  | kill pid => pid
  | waitpid pid => pid

/-- The process that a call kills. Source: none: specification. Kind: D -/
def killed : Syscall → Option ℤ
  | kill pid => some pid
  | waitpid _ => none

end Syscall

/-- The calls for one process: `waitpid` is not reached if `kill` raises an exception.
Source: `udping_agent`, `killPidFamily`
Kind: D -/
def send (raises : ℤ → Bool) (pid : ℤ) : List Syscall :=
  .kill pid :: if raises pid then [] else [.waitpid pid]

/-- The body of the loop over the lines, with the call of the function itself. Any exception ends the
round: an `IndexError`, a `ValueError`, and the `RecursionError` of a call that is too deep.
Source: `udping_agent`, `killPidFamily`
Kind: D -/
def visitLine (decimal : Char → Option ℕ) (pid : ℤ)
    (killPidFamily : ℤ → Bool → Option (List Syscall)) (line : Str) : List Syscall :=
  match words (strip line) with
  | [] => []
  | field :: fields =>
    if int decimal field = some pid then
      match fields.head?.bind (int decimal) with
      | none => []
      | some child =>
        if !occurs "udping_agent".toList line && !occurs "/bin/sh".toList line then
          (killPidFamily child true).getD []
        else (killPidFamily child false).getD []
    else []

/-- The calls, in their order, `raises` being the processes whose `kill` raises an exception. `depth` is
how deep the interpreter lets calls of the function be; `none`: this one is too deep, and a
`RecursionError` is raised before it does anything.
Source: `udping_agent`, `killPidFamily`
Kind: D
Fidelity: printing does not fail -/
def killPidFamily (decimal : Char → Option ℕ) (raises : ℤ → Bool) (pstree : List Str) :
    ℕ → ℤ → Bool → Option (List Syscall)
  | 0, _, _ => none
  | depth + 1, pid, killPid =>
    some (pstree.flatMap (visitLine decimal pid (killPidFamily decimal raises pstree depth)) ++
      if killPid then send raises pid else [])

/-! ## The process table -/

/-- A line that has a parent and a process. `spared`: it names the agent or a shell.
Source: `udping_agent`, `killPidFamily`
Kind: D -/
structure PsRow where
  ppid : ℤ
  pid : ℤ
  spared : Bool
  deriving DecidableEq

/-- The row of a line; `none`: it cannot be parsed. Source: `udping_agent`, `killPidFamily`.
Kind: D -/
def psRow (decimal : Char → Option ℕ) (line : Str) : Option PsRow :=
  match words (strip line) with
  | ppid :: pid :: _ => do
    let ppid ← int decimal ppid
    let pid ← int decimal pid
    some ⟨ppid, pid, occurs "udping_agent".toList line || occurs "/bin/sh".toList line⟩
  | _ => none

/-- The processes of a snapshot. Source: `udping_agent`, `killChild`. Kind: D -/
def psRows (decimal : Char → Option ℕ) (pstree : List Str) : List PsRow :=
  pstree.filterMap (psRow decimal)

/-- The second process is a proper descendant of the first. Source: none: specification. Kind: D -/
def Descends (rows : List PsRow) : ℤ → ℤ → Prop := TransGen (Child PsRow.ppid PsRow.pid rows)

variable {decimal : Char → Option ℕ} {raises : ℤ → Bool} {pstree : List Str}

/-- The calls for the rows that are left. Source: `udping_agent`, `killPidFamily`. Kind: D -/
def callsFor (raises : ℤ → Bool) (rows : List PsRow) : List Syscall :=
  (rows.filter fun r => !r.spared).flatMap fun r => send raises r.pid

theorem callsFor_append (rows rows' : List PsRow) :
    callsFor raises (rows ++ rows') = callsFor raises rows ++ callsFor raises rows' := by
  simp [callsFor]

theorem callsFor_singleton (row : PsRow) :
    callsFor raises [row] = if !row.spared then send raises row.pid else [] := by
  rcases row with ⟨ppid, pid, _ | _⟩
  · simp [callsFor]
  · simp [callsFor]

section VisitLine

variable {line : Str} {pid : ℤ} {call : ℤ → Bool → Option (List Syscall)}

/-- A line with a row of the process, or of another one. Source: `udping_agent`, `killPidFamily`.
Kind: L -/
theorem visitLine_of_row {row : PsRow} (h : psRow decimal line = some row) :
    visitLine decimal pid call line =
      if row.ppid = pid then (call row.pid (!row.spared)).getD [] else [] := by
  unfold psRow at h
  unfold visitLine
  generalize occurs "udping_agent".toList line = agent at h ⊢
  generalize occurs "/bin/sh".toList line = shell at h ⊢
  generalize words (strip line) = fields at h ⊢
  rcases fields with _ | ⟨field, _ | ⟨field', fields⟩⟩
  · cases h
  · cases h
  · rcases hppid : int decimal field with _ | ppid
    · simp [hppid] at h
    · rcases hpid : int decimal field' with _ | child
      · simp [hpid] at h
      · simp only [hppid, hpid, Option.bind_eq_bind, Option.bind_some, Option.some.injEq] at h
        subst h
        dsimp only [List.head?_cons, Option.bind_some]
        simp only [hppid, hpid, Option.some.injEq, Bool.not_or]
        split_ifs with hparent hfind
        · rw [hfind]
        · rw [Bool.not_eq_true] at hfind
          rw [hfind]
        · rfl

/-- A line that cannot be parsed ends the round. Source: `udping_agent`, `killPidFamily`. Kind: L -/
theorem visitLine_of_none (h : psRow decimal line = none) :
    visitLine decimal pid call line = [] := by
  unfold psRow at h
  unfold visitLine
  generalize words (strip line) = fields at h ⊢
  rcases fields with _ | ⟨field, _ | ⟨field', fields⟩⟩
  · rfl
  · dsimp only
    split_ifs <;> rfl
  · rcases hppid : int decimal field with _ | ppid
    · simp [hppid]
    · rcases hpid : int decimal field' with _ | child
      · simp [hpid]
      · simp [hppid, hpid] at h

end VisitLine

/-- **The recursion leaves the rows in the order of a forest's**, if it may be deep enough.
Source: `udping_agent`, `killPidFamily`
Kind: L -/
theorem killPidFamily_of_below {depth : ℕ} {pid : ℤ} {rows : List PsRow}
    (hbelow : below PsRow.ppid PsRow.pid (psRows decimal pstree) depth pid = some rows)
    (killPid : Bool) :
    killPidFamily decimal raises pstree depth pid killPid =
      some (callsFor raises rows ++ if killPid then send raises pid else []) := by
  induction depth generalizing pid rows killPid with
  | zero => cases hbelow
  | succ depth ih =>
      -- the calls for the rows of a line, where the recursion below it is not too deep
      let calls : PsRow → Option (List Syscall) := fun row =>
        (if row.ppid = pid then
          (below PsRow.ppid PsRow.pid (psRows decimal pstree) depth row.pid).map (· ++ [row])
          else some []).map (callsFor raises)
      have hcollect : collect (fun line => (psRow decimal line).elim (some []) calls) pstree =
          some (callsFor raises rows) := by
        have hrows : collect (fun line => (psRow decimal line).elim (some []) calls) pstree =
            collect calls (psRows decimal pstree) :=
          collect_filterMap (fun line row h => by rw [h]; rfl) (fun line h => by rw [h]; rfl) pstree
        rw [hrows, ← Option.map_some, ← hbelow, below, collect_map (callsFor raises) rfl callsFor_append]
      obtain ⟨hsome, hcalls⟩ := collect_eq_some.mp hcollect
      have hlines : ∀ line ∈ pstree,
          visitLine decimal pid (killPidFamily decimal raises pstree depth) line =
            ((psRow decimal line).elim (some []) calls).getD [] := by
        intro line hline
        have hround := hsome line hline
        cases hrow : psRow decimal line with
        | none => exact visitLine_of_none hrow
        | some row =>
            rw [hrow] at hround
            rw [visitLine_of_row hrow]
            change (calls row).isSome at hround
            change _ = (calls row).getD []
            dsimp only [calls] at hround ⊢
            by_cases hparent : row.ppid = pid
            · rw [if_pos hparent, Option.isSome_map, Option.isSome_map] at hround
              obtain ⟨rows', hrows'⟩ := Option.isSome_iff_exists.mp hround
              rw [if_pos hparent, if_pos hparent, ih hrows', hrows', Option.map_some, Option.map_some,
                Option.getD_some, Option.getD_some, callsFor_append, callsFor_singleton]
            · rw [if_neg hparent, if_neg hparent]
              rfl
      rw [killPidFamily, List.flatMap_congr hlines, ← hcalls]

/-- The processes that are killed, in order. Source: none: specification. Kind: D -/
def killOrder (calls : List Syscall) : List ℤ := calls.filterMap Syscall.killed

theorem killOrder_callsFor (rows : List PsRow) :
    killOrder (callsFor raises rows) = (rows.filter fun r => !r.spared).map PsRow.pid := by
  unfold callsFor killOrder
  rw [List.filterMap_flatMap, ← List.flatMap_pure_eq_map]
  congr 1
  funext r
  unfold send
  split_ifs <;> rfl

/-- What killing a family comes to, `root` being the process above it.
Source: none: specification
Kind: D -/
structure KillsFamily (rows : List PsRow) (root : ℤ) (calls : List Syscall) : Prop where
  /-- Killed are the proper descendants whose lines name neither the agent nor a shell. -/
  mem_iff : ∀ pid, pid ∈ killOrder calls ↔
    ∃ row ∈ rows, row.pid = pid ∧ row.spared = false ∧ Descends rows root pid
  /-- Each of them is killed once. -/
  nodup : (killOrder calls).Nodup
  /-- None is killed before a descendant that is killed too. -/
  after : ∀ (i j : ℕ) (pid pid' : ℤ), (killOrder calls)[i]? = some pid →
    (killOrder calls)[j]? = some pid' → Descends rows pid pid' → j < i
  /-- No call is about another process. -/
  within : ∀ call ∈ calls, call.pid ∈ killOrder calls

/-- The rows below a process are its family. Source: `udping_agent`, `killPidFamily`. Kind: L -/
theorem killsFamily_of_below {table rows : List PsRow} {fuel : ℕ} {root : ℤ}
    (raises : ℤ → Bool) (hunique : KeysUnique PsRow.pid table)
    (hacyclic : NoCycle PsRow.ppid PsRow.pid table)
    (hbelow : below PsRow.ppid PsRow.pid table fuel root = some rows) :
    KillsFamily table root (callsFor raises rows) := by
  have hmem : ∀ row, row ∈ rows ↔ row ∈ table ∧ Descends table root row.pid :=
    fun row => hunique.mem_below hbelow
  have hpairwise := (hunique.pairwise_below hacyclic hbelow).filter fun row => !row.spared
  have horder := @killOrder_callsFor raises rows
  refine ⟨fun pid => ?_, ?_, fun i j pid pid' hi hj hdescends => ?_, fun call hcall => ?_⟩
  · rw [horder, List.mem_map]
    constructor
    · rintro ⟨row, hrow, rfl⟩
      rw [List.mem_filter, hmem, Bool.not_eq_true'] at hrow
      exact ⟨row, hrow.1.1, rfl, hrow.2, hrow.1.2⟩
    · rintro ⟨row, hrow, rfl, hspared, hdescends⟩
      have hkill : (!row.spared) = true := by rw [hspared]; rfl
      exact ⟨row, List.mem_filter.mpr ⟨(hmem row).mpr ⟨hrow, hdescends⟩, hkill⟩, rfl⟩
  · rw [horder]
    refine List.pairwise_map.mpr (hpairwise.imp ?_)
    intro a b hab heq
    exact hab (heq ▸ ReflTransGen.refl)
  · rw [horder, List.getElem?_map, Option.map_eq_some_iff] at hi hj
    obtain ⟨row, hi, rfl⟩ := hi
    obtain ⟨row', hj, rfl⟩ := hj
    obtain ⟨hilt, rfl⟩ := List.getElem?_eq_some_iff.mp hi
    obtain ⟨hjlt, rfl⟩ := List.getElem?_eq_some_iff.mp hj
    by_contra hle
    rcases Nat.lt_or_eq_of_le (Nat.le_of_not_lt hle) with hlt | rfl
    · exact List.pairwise_iff_getElem.mp hpairwise i j hilt hjlt hlt hdescends.to_reflTransGen
    · exact hacyclic _ hdescends
  · rw [horder, List.mem_map]
    obtain ⟨row, hrow, hcall⟩ := List.mem_flatMap.mp hcall
    refine ⟨row, hrow, ?_⟩
    unfold send at hcall
    split_ifs at hcall
    · rw [List.mem_singleton.mp hcall]
      rfl
    · rcases List.mem_pair.mp hcall with rfl | rfl
      · rfl
      · rfl

/-- **Killing a child kills its family**, where the processes of the snapshot are unique, none is its own
descendant, and the interpreter lets calls be deeper than the snapshot has lines.
Source: `udping_agent`, `killPidFamily`
Kind: P -/
theorem killPidFamily_exact (raises : ℤ → Bool) (root : ℤ)
    (hunique : KeysUnique PsRow.pid (psRows decimal pstree))
    (hacyclic : NoCycle PsRow.ppid PsRow.pid (psRows decimal pstree)) {fuel : ℕ}
    (hfuel : pstree.length < fuel) :
    ∃ calls, killPidFamily decimal raises pstree fuel root false = some calls ∧
      KillsFamily (psRows decimal pstree) root calls := by
  have hrows : (psRows decimal pstree).length < fuel :=
    Nat.lt_of_le_of_lt (List.length_filterMap_le _ _) hfuel
  obtain ⟨rows, hbelow⟩ := below_isSome hacyclic hrows root
  refine ⟨callsFor raises rows, ?_, killsFamily_of_below raises hunique hacyclic hbelow⟩
  rw [killPidFamily_of_below hbelow]
  simp

/-- The decimal digits of ASCII. Source: `int`. Kind: D -/
def asciiDecimal (c : Char) : Option ℕ := if c.isDigit then some (c.toNat - 48) else none

/-- An agent, a shell under it and a client under that. Source: `udping_agent`, `killChild`.
Kind: D -/
def exampleTree : List Str :=
  [" PPID   PID COMMAND", "   77    88 ./udping_agent", "   88    91 /bin/sh -c ./udping_client",
    "   91    95 ./udping_client -r 10.0.0.2", "    1    77 init", ""].map
    String.toList

theorem psRows_exampleTree : psRows asciiDecimal exampleTree =
    [⟨77, 88, true⟩, ⟨88, 91, true⟩, ⟨91, 95, false⟩, ⟨1, 77, false⟩] := by
  decide +kernel

/-- The family of that agent. Source: `udping_agent`, `killPidFamily`. Kind: P -/
theorem killPidFamily_exampleTree :
    ∃ calls, killPidFamily asciiDecimal (fun _ => false) exampleTree 7 88 false = some calls ∧
      KillsFamily (psRows asciiDecimal exampleTree) 88 calls :=
  have hunique : KeysUnique PsRow.pid (psRows asciiDecimal exampleTree) := by
    rw [psRows_exampleTree, KeysUnique]
    decide
  have hacyclic : NoCycle PsRow.ppid PsRow.pid (psRows asciiDecimal exampleTree) := by
    rw [psRows_exampleTree]
    exact noCycle_of_lt (by decide)
  killPidFamily_exact (fun _ => false) 88 hunique hacyclic (by decide)

example : killPidFamily asciiDecimal (fun pid => pid = 95) exampleTree 7 88 false =
    some [.kill 95] := by decide +kernel

end UDPing.Agent
