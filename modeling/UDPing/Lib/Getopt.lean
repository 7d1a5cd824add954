import UDPing.Lib.Strings

/-!
# Commands, words and options

* `shellWords`: what a shell makes of a command that has no special characters.
  `shellWords_intercalate`: words with blanks between them are read back.
* `getopt`: the options that the C library finds in the words behind a program's name.
  **`getopt_pairs`**: options, each with its argument behind it, are read back, whatever the arguments
  are.
-/

namespace Lib

/-! ## Words -/

/-- Characters that mean nothing to a shell: letters, digits and some marks.
Source: `sh`
Kind: D -/
def isPlain (b : UInt8) : Bool :=
  (48 ≤ b && b ≤ 57) || (65 ≤ b && b ≤ 90) || (97 ≤ b && b ≤ 122) ||
    (ascii "%+,-./:=@_").contains b

/-- A word that a shell leaves as it is. Source: `sh`. Kind: D -/
def PlainWord (w : Bytes) : Prop := w ≠ [] ∧ ∀ b ∈ w, isPlain b = true

instance instDecidablePlainWord (w : Bytes) : Decidable (PlainWord w) := inferInstanceAs (Decidable (_ ∧ _))

/-- The words of a command. `none`: it has characters that are special to a shell.
Source: `sh`
Kind: D -/
def shellWords (command : Bytes) : Option (List Bytes) :=
  if command.all fun b => isPlain b || b = 32 then some ((split 32 command).filter (· ≠ []))
  else none

/-- **Plain words with blanks between them are read back**; where there is none, there is no word.
Source: `sh`
Kind: P -/
theorem shellWords_intercalate {ws : List Bytes} (hws : ∀ w ∈ ws, w = [] ∨ PlainWord w) :
    shellWords (List.intercalate [32] ws) = some (ws.filter (· ≠ [])) := by
  have hplain : ∀ w ∈ ws, ∀ b ∈ w, isPlain b = true := by
    intro w hw b hb
    rcases hws w hw with rfl | hword
    · cases hb
    · exact hword.2 b hb
  have hall : (List.intercalate [32] ws).all (fun b => isPlain b || b = 32) = true := by
    rw [List.all_eq_true]
    intro b hb
    rcases mem_of_mem_intercalate hb with rfl | ⟨w, hw, hbw⟩
    · rfl
    · rw [hplain w hw b hbw, Bool.true_or]
  have hblank : ∀ w ∈ ws, 32 ∉ w := fun w hw h => absurd (hplain w hw 32 h) (by decide)
  rw [shellWords, if_pos hall]
  cases ws with
  | nil => rfl
  | cons w ws => rw [split_intercalate (List.cons_ne_nil w ws) hblank]

theorem filter_plainWords {ws : List Bytes} (hws : ∀ w ∈ ws, PlainWord w) :
    ws.filter (· ≠ []) = ws :=
  List.filter_eq_self.mpr fun w hw => decide_eq_true (hws w hw).1

/-! ## Options -/

/-- What a call of `getopt` returns, with `optarg`. `error`: `'?'`. Source: `getopt`. Kind: D -/
inductive Opt where
  | option (opt : UInt8) (optarg : Option Bytes)
  | error
deriving DecidableEq

/-- Whether an option takes an argument. `none`: there is no such option. Source: `getopt`. Kind: D -/
def takesArgument (optstring : Bytes) (opt : UInt8) : Option Bool :=
  if opt = 58 ∨ opt = 59 then none
  else match optstring.dropWhile (· ≠ opt) with
    | [] => none
    | _ :: rest => some (rest.head? = some 58)

/-- The options in one word, behind its dash, and the option that the next word is the argument of.
Source: `getopt`
Kind: D -/
def cluster (optstring : Bytes) : Bytes → List Opt × Option UInt8
  | [] => ([], none)
  | opt :: rest =>
      match takesArgument optstring opt with
      | none => (.error :: (cluster optstring rest).1, (cluster optstring rest).2)
      | some false => (.option opt none :: (cluster optstring rest).1, (cluster optstring rest).2)
      | some true => if rest = [] then ([], some opt) else ([.option opt (some rest)], none)

/-- The options in the words. `pending`: the option that the first word is the argument of. Words that
are no options are passed over; two dashes end the options.
Source: `getopt`
Kind: D -/
def getopt (optstring : Bytes) : Option UInt8 → List Bytes → List Opt
  | none, [] => []
  | some _, [] => [.error]
  | some opt, word :: rest => .option opt (some word) :: getopt optstring none rest
  | none, word :: rest =>
      if word = [45, 45] then []
      else match word with
        | 45 :: opt :: opts =>
            (cluster optstring (opt :: opts)).1 ++
              getopt optstring (cluster optstring (opt :: opts)).2 rest
        | _ => getopt optstring none rest

/-- Options, each with its argument behind it. Source: `getopt`. Kind: D -/
def pairWords (pairs : List (UInt8 × Bytes)) : List Bytes := pairs.flatMap fun p => [[45, p.1], p.2]

/-- **Options with their arguments are read back.** Source: `getopt`. Kind: P -/
theorem getopt_pairs {optstring : Bytes} {pairs : List (UInt8 × Bytes)}
    (hpairs : ∀ p ∈ pairs, takesArgument optstring p.1 = some true ∧ p.1 ≠ 45) :
    getopt optstring none (pairWords pairs) = pairs.map fun p => .option p.1 (some p.2) := by
  induction pairs with
  | nil => rfl
  | cons p pairs ih =>
      obtain ⟨htakes, hdash⟩ := hpairs p List.mem_cons_self
      have hword : [45, p.1] ≠ [45, 45] := fun h => hdash (by simpa using h)
      have hcluster : cluster optstring [p.1] = ([], some p.1) := by simp [cluster, htakes]
      have hwords : pairWords (p :: pairs) = [45, p.1] :: p.2 :: pairWords pairs := rfl
      rw [hwords, getopt, if_neg hword, hcluster, List.nil_append, getopt, List.map_cons,
        ih fun q hq => hpairs q (List.mem_cons_of_mem p hq)]

end Lib
