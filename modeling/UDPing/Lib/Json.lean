import UDPing.Lib.Bytes
import UDPing.Lib.Dict
import Mathlib.Data.List.DropRight

/-!
# JSON objects of strings

What `json.Unmarshal` of Go makes of a line that is to be a `map[string]string`.

* `Mode` and `Mode.step`: the scanner, byte by byte. A value that is neither a string nor `null` is
  an error whatever follows, and so is what is not JSON; both are `none`.
* `unquote`: the string that the text between two quotes denotes.
* `members`: the members of an object, in order; `unmarshal` sets them one after another.
* `objectText`: an object as a program writes it that puts each value between quotes as it is.
* `splice name v`: the members that a value `v` amounts to when it is written so. A value may close
  its string and open others. **`members_objectText`**: an object written so is read if every value
  splices, and then it has the members of all of them.
-/

namespace Lib.Json

/-! ## Escapes -/

/-- Where a scanner is within a string: at a character, after a backslash, or within the four
hexadecimal digits after `\u`, `left` of them to come after the next one.
Source: `encoding/json`, `scanner.go`
Kind: D -/
inductive Escape where
  | plain
  | backslash
  | hex (left : ℕ)
deriving DecidableEq

/-- The value of a hexadecimal digit. Source: `encoding/json`, `scanner.go`. Kind: D -/
def hexValue (c : UInt8) : Option ℕ :=
  if 48 ≤ c ∧ c ≤ 57 then some (c.toNat - 48)
  else if 97 ≤ c ∧ c ≤ 102 then some (c.toNat - 87)
  else if 65 ≤ c ∧ c ≤ 70 then some (c.toNat - 55)
  else none

/-- A byte within a string, which does not end it. Source: `encoding/json`, `stateInString`. Kind: D -/
def Escape.step : Escape → UInt8 → Option Escape
  | .plain, c =>
      if c = 92 then some .backslash
      else if c < 32 then none
      else some .plain
  | .backslash, c =>
      if c = 117 then some (.hex 3)
      else if c ∈ ascii "\"\\/bfnrt" then some .plain
      else none
  | .hex left, c =>
      match hexValue c, left with
      | none, _ => none
      | some _, 0 => some .plain
      | some _, left + 1 => some (.hex left)

/-! ## Characters -/

/-- The bytes of the code point. Source: `unicode/utf8`, `EncodeRune`. Kind: D -/
def encodeRune (r : ℕ) : Bytes :=
  if r < 0x80 then [UInt8.ofNat r]
  else if r < 0x800 then [UInt8.ofNat (0xC0 + r / 64), UInt8.ofNat (0x80 + r % 64)]
  else if r < 0x10000 then
    [UInt8.ofNat (0xE0 + r / 4096), UInt8.ofNat (0x80 + r / 64 % 64), UInt8.ofNat (0x80 + r % 64)]
  else
    [UInt8.ofNat (0xF0 + r / 262144), UInt8.ofNat (0x80 + r / 4096 % 64),
      UInt8.ofNat (0x80 + r / 64 % 64), UInt8.ofNat (0x80 + r % 64)]

/-- Stands for what is no character. Source: `unicode/utf8`, `RuneError`. Kind: D -/
def replacement : Bytes := [0xEF, 0xBF, 0xBD]

/-- The number of bytes that the character takes after its first byte `c`, and the range of the one
that follows `c`. Source: `unicode/utf8`, `first`, `acceptRanges`. Kind: D -/
def runeTail (c : UInt8) : Option (ℕ × UInt8 × UInt8) :=
  if 0xC2 ≤ c ∧ c ≤ 0xDF then some (1, 0x80, 0xBF)
  else if c = 0xE0 then some (2, 0xA0, 0xBF)
  else if c = 0xED then some (2, 0x80, 0x9F)
  else if 0xE1 ≤ c ∧ c ≤ 0xEF then some (2, 0x80, 0xBF)
  else if c = 0xF0 then some (3, 0x90, 0xBF)
  else if 0xF1 ≤ c ∧ c ≤ 0xF3 then some (3, 0x80, 0xBF)
  else if c = 0xF4 then some (3, 0x80, 0x8F)
  else none

/-- The bytes that follow `c` in a character of several bytes; `none`: there is no such character.
Source: `unicode/utf8`, `DecodeRune`
Kind: D -/
def decodeTail (c : UInt8) (s : Bytes) : Option Bytes :=
  match runeTail c, s with
  | some (n, lo, hi), d :: rest =>
      let tail := rest.take (n - 1)
      if lo ≤ d ∧ d ≤ hi ∧ tail.length = n - 1 ∧ tail.all fun b => 0x80 ≤ b ∧ b ≤ 0xBF then
        some (d :: tail)
      else none
  | _, _ => none

/-- The number after `\u`. Source: `encoding/json`, `getu4`. Kind: D -/
def getu4 : Bytes → Option ℕ
  | 92 :: 117 :: a :: b :: c :: d :: _ => do
      return (((← hexValue a) * 16 + (← hexValue b)) * 16 + (← hexValue c)) * 16 + (← hexValue d)
  | _ => none

/-- The character that two halves of a pair make. Source: `unicode/utf16`, `DecodeRune`. Kind: D -/
def decodeSurrogates (r r1 : ℕ) : Option ℕ :=
  if 0xD800 ≤ r ∧ r < 0xDC00 ∧ 0xDC00 ≤ r1 ∧ r1 < 0xE000 then
    some ((r - 0xD800) * 1024 + (r1 - 0xDC00) + 0x10000)
  else none

/-- What the string `\u…` begins with, and what follows. Source: `encoding/json`, `unquoteBytes`.
Kind: D -/
def unquoteUnicode (s : Bytes) : Bytes × Bytes :=
  match getu4 s with
  | none => ([], [])
  | some r =>
      let s := s.drop 6
      if 0xD800 ≤ r ∧ r < 0xE000 then
        match (getu4 s).bind (decodeSurrogates r) with
        | some dec => (encodeRune dec, s.drop 6)
        | none => (replacement, s)
      else (encodeRune r, s)

/-- The byte of an escape of one letter. Source: `encoding/json`, `unquoteBytes`. Kind: D -/
def escaped (c : UInt8) : UInt8 :=
  if c = 98 then 8
  else if c = 102 then 12
  else if c = 110 then 10
  else if c = 114 then 13
  else if c = 116 then 9
  else c

/-- What a string that begins with `c` denotes first, and what follows.
Source: `encoding/json`, `unquoteBytes`
Kind: D -/
def unquoteChar (c : UInt8) (s : Bytes) : Bytes × Bytes :=
  if c = 92 then
    match s with
    | [] => ([], [])
    | e :: s' => if e = 117 then unquoteUnicode (c :: s) else ([escaped e], s')
  else if c < 128 then ([c], s)
  else
    match decodeTail c s with
    | some tail => (c :: tail, s.drop tail.length)
    | none => (replacement, s)

/-- The loop of `unquote`; it is entered at most `fuel` times.
Source: `encoding/json`, `unquoteBytes`
Kind: D -/
def unquoteLoop : ℕ → Bytes → Bytes
  | 0, _ => []
  | _ + 1, [] => []
  | fuel + 1, c :: s =>
      let (out, rest) := unquoteChar c s
      out ++ unquoteLoop fuel rest

/-- The string that the text between two quotes denotes. A byte that is part of no character is
replaced. Source: `encoding/json`, `unquote`. Kind: D -/
def unquote (s : Bytes) : Bytes := unquoteLoop s.length s

/-- Bytes that denote themselves within quotes. Source: none: infrastructure. Kind: D -/
def Plain (s : Bytes) : Prop := ∀ c ∈ s, 32 ≤ c ∧ c < 128 ∧ c ≠ 34 ∧ c ≠ 92

instance (s : Bytes) : Decidable (Plain s) := List.decidableBAll _ s

/-- Source: none: infrastructure. Kind: L -/
theorem Plain.notMem {s : Bytes} (h : Plain s) {c : UInt8} (hc : c < 32) : c ∉ s := fun hmem =>
  UInt8.not_le.mpr hc (h c hmem).1

/-- Source: none: infrastructure. Kind: L -/
theorem unquote_of_plain {s : Bytes} (h : Plain s) : unquote s = s := by
  unfold unquote
  induction s with
  | nil => rfl
  | cons c s ih =>
      obtain ⟨-, hlt, -, hbackslash⟩ := h c List.mem_cons_self
      have hrest := ih fun d hd => h d (List.mem_cons_of_mem c hd)
      simp [unquoteLoop, unquoteChar, hbackslash, hlt, hrest]

/-! ## The scanner -/

/-- Source: `encoding/json`, `isSpace`. Kind: D -/
def isSpace (c : UInt8) : Bool := c = 32 || c = 9 || c = 13 || c = 10

/-- Where the scanner is: before the object, after its brace, after a comma, within a name, before
the colon, before a value, within a string (the member's name and the text so far as they stand in
the input), within `null` with `left` of its letters to come after the next one, after a value, after
the object.
Source: `encoding/json`, `scanner.go`
Kind: D -/
inductive Mode where
  | before
  | first
  | next
  | key (esc : Escape) (raw : Bytes)
  | colon (name : Bytes)
  | value (name : Bytes)
  | text (name : Bytes) (esc : Escape) (raw : Bytes)
  | null (name : Bytes) (left : ℕ)
  | after
  | done
deriving DecidableEq

/-- A member of an object of strings. Source: none: infrastructure. Kind: D -/
abbrev Member := Bytes × Bytes

/-- White space between tokens. Source: `encoding/json`, `scanner.go`. Kind: D -/
def Mode.skip (mode : Mode) (c : UInt8) (next : Option (Mode × List Member)) :
    Option (Mode × List Member) :=
  if isSpace c then some (mode, []) else next

/-- One byte: the mode it leads to and the member it completes, if any. `null` in place of a string
stands for the empty one.
Source: `encoding/json`, `scanner.go`, `decode.go`
Kind: D -/
def Mode.step : Mode → UInt8 → Option (Mode × List Member)
  | .before, c => skip .before c (if c = 123 then some (.first, []) else none)
  | .first, c =>
      skip .first c
        (if c = 34 then some (.key .plain [], [])
        else if c = 125 then some (.done, [])
        else none)
  | .next, c => skip .next c (if c = 34 then some (.key .plain [], []) else none)
  | .key esc raw, c =>
      if esc = .plain ∧ c = 34 then some (.colon raw, [])
      else (esc.step c).map fun esc => (.key esc (raw ++ [c]), [])
  | .colon name, c => skip (.colon name) c (if c = 58 then some (.value name, []) else none)
  | .value name, c =>
      skip (.value name) c
        (if c = 34 then some (.text name .plain [], [])
        else if c = 110 then some (.null name 2, [])
        else none)
  | .text name esc raw, c =>
      if esc = .plain ∧ c = 34 then some (.after, [(unquote name, unquote raw)])
      else (esc.step c).map fun esc => (.text name esc (raw ++ [c]), [])
  | .null name 0, c => if c = 108 then some (.after, [(unquote name, [])]) else none
  | .null name (left + 1), c =>
      if c = (if left = 1 then 117 else 108) then some (.null name left, []) else none
  | .after, c =>
      skip .after c
        (if c = 44 then some (.next, [])
        else if c = 125 then some (.done, [])
        else none)
  | .done, c => skip .done c none

/-- The bytes one after another: where they lead and the members they complete.
Source: `encoding/json`, `scanner.go`
Kind: D -/
def Mode.read : Mode → Bytes → Option (Mode × List Member)
  | mode, [] => some (mode, [])
  | mode, c :: s => do
      let (mode, ms) ← mode.step c
      let (mode, ms') ← mode.read s
      return (mode, ms ++ ms')

/-- The members of the object that the bytes up to their end make.
Source: `encoding/json`, `Unmarshal`
Kind: D -/
def Mode.finish (mode : Mode) (s : Bytes) : Option (List Member) :=
  (mode.read s).bind fun p => if p.1 = .done then some p.2 else none

/-- The members of an object, in order. Source: `encoding/json`, `Unmarshal`. Kind: D -/
def members (s : Bytes) : Option (List Member) := Mode.before.finish s

/-- Source: `encoding/json`, `Unmarshal`. Kind: D. Fidelity: the line alone `null` leaves the map
without a member -/
def unmarshal (s : Bytes) : Option (Dict Bytes Bytes) :=
  if ((s.dropWhile isSpace).rdropWhile isSpace) = ascii "null" then some .empty
  else (members s).map Dict.ofPairs

namespace Mode

/-- Reading on. Source: none: infrastructure. Kind: L -/
theorem read_append (mode : Mode) (s t : Bytes) :
    mode.read (s ++ t) =
      (mode.read s).bind fun p => (p.1.read t).map fun q => (q.1, p.2 ++ q.2) := by
  induction s generalizing mode with
  | nil => simp [read]
  | cons c s ih =>
      simp only [List.cons_append, read]
      rcases mode.step c with _ | ⟨mode', ms⟩
      · rfl
      · simp only [Option.bind_eq_bind, Option.bind_some, ih]
        rcases mode'.read s with _ | ⟨mode'', ms'⟩
        · rfl
        · simp [Option.map_eq_bind, List.append_assoc, Option.bind_assoc]

/-- Source: none: infrastructure. Kind: L -/
theorem finish_append (mode : Mode) (s t : Bytes) :
    mode.finish (s ++ t) = (mode.read s).bind fun p => (p.1.finish t).map (p.2 ++ ·) := by
  simp only [finish, read_append, Option.bind_assoc]
  refine congrArg _ (funext fun p => ?_)
  rcases p.1.read t with _ | q
  · rfl
  · by_cases hdone : q.1 = .done <;> simp [hdone]

/-- Source: none: infrastructure. Kind: L -/
theorem finish_cons (mode : Mode) (c : UInt8) (s : Bytes) :
    mode.finish (c :: s) = (mode.step c).bind fun p => (p.1.finish s).map (p.2 ++ ·) := by
  have happend := finish_append mode [c] s
  rw [List.singleton_append] at happend
  rw [happend]
  rcases h : mode.step c with _ | ⟨mode', ms⟩ <;> simp [read, h]

/-- Source: none: infrastructure. Kind: L -/
@[simp] theorem finish_nil (mode : Mode) :
    mode.finish [] = if mode = .done then some [] else none := rfl

/-- Only white space may follow an object. Source: `encoding/json`, `scanner.go`. Kind: L -/
theorem finish_done {s : Bytes} {ms : List Member} (h : done.finish s = some ms) :
    ∀ c ∈ s, isSpace c = true := by
  induction s generalizing ms with
  | nil => exact fun c hc => absurd hc List.not_mem_nil
  | cons c s ih =>
      rw [finish_cons, step, skip] at h
      by_cases hc : isSpace c = true
      · rw [if_pos hc, Option.bind_some] at h
        obtain ⟨ms', hms', -⟩ := Option.map_eq_some_iff.mp h
        exact List.forall_mem_cons.mpr ⟨hc, ih hms'⟩
      · rw [if_neg hc] at h
        cases h

/-! ## Where a value ends -/

@[simp] theorem isSpace_quote : isSpace 34 = false := rfl

@[simp] theorem isSpace_comma : isSpace 44 = false := rfl

@[simp] theorem isSpace_brace : isSpace 125 = false := rfl

/-- A value that a letter follows is an error, and so is a name.
Source: none: infrastructure
Kind: L -/
theorem finish_letter {c : UInt8} (hc : 97 ≤ c) (hc' : c ≤ 122) (s : Bytes) :
    after.finish (c :: s) = none ∧ ∀ raw, (colon raw).finish (c :: s) = none := by
  have hspace : isSpace c = false := by
    simp only [isSpace, Bool.or_eq_false_iff, decide_eq_false_iff_not]
    grind
  have hcomma : c ≠ 44 := by grind
  have hbrace : c ≠ 125 := by grind
  have hcolon : c ≠ 58 := by grind
  simp [finish_cons, step, skip, hspace, hcomma, hbrace, hcolon]

/-- A quote, unless it ends a string value, is an error, opens a string, belongs to one or ends a name.
Source: `encoding/json`, `scanner.go`
Kind: L -/
theorem step_quote {mode : Mode} (h : ∀ name raw, mode ≠ .text name .plain raw) :
    mode.step 34 = none ∨ (∃ raw, mode.step 34 = some (.key .plain raw, [])) ∨
      (∃ raw, mode.step 34 = some (.colon raw, [])) ∨
      ∃ name raw, mode.step 34 = some (.text name .plain raw, []) := by
  have hquote : 34 ∈ ascii "\"\\/bfnrt" := by decide
  cases mode with
  | text name esc raw =>
      cases esc with
      | plain => exact absurd rfl (h name raw)
      | backslash => simp [step, Escape.step, hquote]
      | hex left => simp [step, Escape.step, hexValue]
  | key esc raw =>
      cases esc with
      | plain => simp [step]
      | backslash => simp [step, Escape.step, hquote]
      | hex left => simp [step, Escape.step, hexValue]
  | null name left =>
      cases left with
      | zero => simp [step]
      | succ left => by_cases hleft : left = 1 <;> simp [step, hleft]
  | _ => simp [step, skip]

/-- Past a quote and a comma, only a scanner that was within a string value can go on to a name that
begins with a letter. Source: none: infrastructure. Kind: L -/
theorem finish_comma {mode : Mode} (h : ∀ name raw, mode ≠ .text name .plain raw) {c : UInt8}
    (hc : 97 ≤ c) (hc' : c ≤ 122) (s : Bytes) : mode.finish (34 :: 44 :: 34 :: c :: s) = none := by
  obtain ⟨hafter, hcolon⟩ := finish_letter hc hc' s
  generalize c :: s = rest at hafter hcolon ⊢
  rw [finish_cons]
  rcases step_quote h with hstep | ⟨raw, hstep⟩ | ⟨raw, hstep⟩ | ⟨name, raw, hstep⟩
  · rw [hstep, Option.bind_none]
  · rw [hstep, Option.bind_some]
    simp [finish_cons, step, Escape.step, hcolon]
  · rw [hstep, Option.bind_some]
    simp [finish_cons, step, skip]
  · rw [hstep, Option.bind_some]
    simp [finish_cons, step, Escape.step, hafter]

/-- Past a quote and a brace, only a scanner that was within a string value is at the end.
Source: none: infrastructure
Kind: L -/
theorem finish_brace {mode : Mode} (h : ∀ name raw, mode ≠ .text name .plain raw) :
    mode.finish [34, 125] = none := by
  rw [finish_cons]
  rcases step_quote h with hstep | ⟨raw, hstep⟩ | ⟨raw, hstep⟩ | ⟨name, raw, hstep⟩
  · rw [hstep, Option.bind_none]
  · rw [hstep, Option.bind_some]
    simp [finish_cons, step, Escape.step]
  · rw [hstep, Option.bind_some]
    simp [finish_cons, step, skip]
  · rw [hstep, Option.bind_some]
    simp [finish_cons, step, Escape.step]

/-! ## Within a string -/

/-- A text without a quote within a string. Source: none: infrastructure. Kind: L -/
theorem read_text (name : Bytes) {s : Bytes} (hs : 34 ∉ s) (esc : Escape) (raw : Bytes) :
    (text name esc raw).read s =
      (s.foldlM Escape.step esc).map fun esc => (text name esc (raw ++ s), []) := by
  induction s generalizing esc raw with
  | nil => simp [read]
  | cons c s ih =>
      have hc : ¬(esc = .plain ∧ c = 34) := fun h => hs (h.2 ▸ List.mem_cons_self)
      rw [read, step, if_neg hc, List.foldlM_cons]
      rcases esc.step c with _ | esc'
      · rfl
      · simp [ih fun h => hs (List.mem_cons_of_mem c h)]

/-- A plain name. Source: none: infrastructure. Kind: L -/
theorem finish_name {name : Bytes} (hname : Plain name) (raw s : Bytes) :
    (key .plain raw).finish (name ++ 34 :: 58 :: 34 :: s) =
      (text (raw ++ name) .plain []).finish s := by
  induction name generalizing raw with
  | nil => simp [finish_cons, step, skip, isSpace, Function.comp_def]
  | cons c name ih =>
      obtain ⟨hle, -, hquote, hbackslash⟩ := hname c List.mem_cons_self
      have hrest := ih (fun d hd => hname d (List.mem_cons_of_mem c hd)) (raw ++ [c])
      have hcontrol : ¬c < 32 := UInt8.not_lt.mpr hle
      simp [finish_cons, step, Escape.step, hquote, hbackslash, hcontrol] at hrest ⊢
      simpa using hrest

end Mode

/-- Plain bytes are not escaped. Source: none: infrastructure. Kind: L -/
theorem foldlM_step_of_plain {s : Bytes} (h : Plain s) :
    s.foldlM Escape.step .plain = some .plain := by
  induction s with
  | nil => rfl
  | cons c s ih =>
      obtain ⟨hle, -, -, hbackslash⟩ := h c List.mem_cons_self
      rw [List.foldlM_cons, Escape.step, if_neg hbackslash, if_neg (UInt8.not_lt.mpr hle)]
      exact ih fun d hd => h d (List.mem_cons_of_mem c hd)

/-! ## Objects written without escaping -/

/-- A member whose value stands between quotes as it is. Source: none: infrastructure. Kind: D -/
def memberText (m : Member) : Bytes := 34 :: m.1 ++ 34 :: 58 :: 34 :: m.2 ++ [34]

/-- The members after the first one. Source: none: infrastructure. Kind: D -/
def restText : List Member → Bytes
  | [] => [125]
  | m :: ms => 44 :: memberText m ++ restText ms

/-- An object whose values stand between quotes as they are. Source: none: infrastructure. Kind: D -/
def objectText : List Member → Bytes
  | [] => [123, 125]
  | m :: ms => 123 :: memberText m ++ restText ms

/-- The members that a value amounts to where it stands between the quotes of a member's value: it
must lead to where its closing quote is one.
Source: none: infrastructure
Kind: D -/
def splice (m : Member) : Option (List Member) :=
  ((Mode.text m.1 .plain []).read m.2).bind fun p =>
    match p with
    | (.text name .plain raw, ms) => some (ms ++ [(unquote name, unquote raw)])
    | _ => none

/-- Source: none: infrastructure. Kind: D -/
def spliceAll : List Member → Option (List Member)
  | [] => some []
  | m :: ms => (splice m).bind fun spliced => (spliceAll ms).map (spliced ++ ·)

/-- A name that begins with a small letter and denotes itself. Source: none: infrastructure. Kind: D -/
def Name (name : Bytes) : Prop := Plain name ∧ name.head?.any fun c => 97 ≤ c ∧ c ≤ 122

instance (name : Bytes) : Decidable (Name name) := instDecidableAnd

/-- Only a value that splices leads to the end of the object. Source: none: infrastructure. Kind: L -/
theorem finish_eq_none_of_not_text {mode : Mode} (h : ∀ name raw, mode ≠ .text name .plain raw)
    {ms : List Member} (hms : ∀ m ∈ ms, Name m.1) : mode.finish (34 :: restText ms) = none := by
  cases ms with
  | nil => exact Mode.finish_brace h
  | cons m ms =>
      obtain ⟨c, hhead, hletter⟩ := (Option.any_eq_true _ _).mp (hms m List.mem_cons_self).2
      obtain ⟨hc, hc'⟩ := of_decide_eq_true hletter
      obtain ⟨s, hname⟩ : ∃ s, m.1 = c :: s := List.head?_eq_some_iff.mp hhead
      have htext : 34 :: restText (m :: ms) =
          34 :: 44 :: 34 :: c :: (s ++ 34 :: 58 :: 34 :: m.2 ++ [34] ++ restText ms) := by
        simp [restText, memberText, hname]
      rw [htext]
      exact Mode.finish_comma h hc hc' _

/-- From the start of a value on. Source: none: infrastructure. Kind: L -/
theorem finish_value (m : Member) {ms : List Member} (hms : ∀ m ∈ ms, Name m.1)
    (hrest : ∀ name raw, (Mode.text name .plain raw).finish (34 :: restText ms) =
      (spliceAll ms).map ((unquote name, unquote raw) :: ·)) :
    (Mode.text m.1 .plain []).finish (m.2 ++ 34 :: restText ms) =
      (splice m).bind fun spliced => (spliceAll ms).map (spliced ++ ·) := by
  rw [Mode.finish_append, splice]
  rcases (Mode.text m.1 .plain []).read m.2 with _ | ⟨mode, done⟩
  · rfl
  · by_cases hmode : ∃ name raw, mode = .text name .plain raw
    · obtain ⟨name, raw, rfl⟩ := hmode
      simp [hrest, Function.comp_def]
    · push Not at hmode
      have hnone : (match (mode, done) with
          | (.text name .plain raw, ms) => some (ms ++ [(unquote name, unquote raw)])
          | _ => none) = none := by
        split
        next heq => exact absurd (Prod.mk.inj heq).1 (hmode _ _)
        next => rfl
      simp only [Option.bind_some, finish_eq_none_of_not_text hmode hms, Option.map_none, hnone,
        Option.bind_none]

/-- From the start of a name on. Source: none: infrastructure. Kind: L -/
theorem finish_member {m : Member} {ms : List Member} (hms : ∀ m' ∈ m :: ms, Name m'.1)
    (hrest : ∀ name raw, (Mode.text name .plain raw).finish (34 :: restText ms) =
      (spliceAll ms).map ((unquote name, unquote raw) :: ·)) :
    (Mode.key .plain []).finish (m.1 ++ 34 :: 58 :: 34 :: (m.2 ++ 34 :: restText ms)) =
      spliceAll (m :: ms) := by
  rw [Mode.finish_name (hms m List.mem_cons_self).1, List.nil_append]
  exact finish_value m (fun m' hm' => hms m' (List.mem_cons_of_mem m hm')) hrest

/-- From the end of a value on. Source: none: infrastructure. Kind: L -/
theorem finish_rest {ms : List Member} (hms : ∀ m ∈ ms, Name m.1) (name raw : Bytes) :
    (Mode.text name .plain raw).finish (34 :: restText ms) =
      (spliceAll ms).map ((unquote name, unquote raw) :: ·) := by
  induction ms generalizing name raw with
  | nil => simp [restText, spliceAll, Mode.finish_cons, Mode.step, Mode.skip]
  | cons m ms ih =>
      have hmember := finish_member hms (ih fun m' hm' => hms m' (List.mem_cons_of_mem m hm'))
      have htext : restText (m :: ms) =
          44 :: 34 :: (m.1 ++ 34 :: 58 :: 34 :: (m.2 ++ 34 :: restText ms)) := by
        simp [restText, memberText]
      simp [htext, Mode.finish_cons, Mode.step, Mode.skip, hmember, Function.comp_def]

/-- **An object written without escaping** is read if every value splices, and has the members that
the values amount to.
Source: none: infrastructure
Kind: P -/
theorem members_objectText {ms : List Member} (hms : ∀ m ∈ ms, Name m.1) :
    members (objectText ms) = spliceAll ms := by
  cases ms with
  | nil => rfl
  | cons m ms =>
      have hmember := finish_member hms
        (finish_rest fun m' hm' => hms m' (List.mem_cons_of_mem m hm'))
      have htext : objectText (m :: ms) =
          123 :: 34 :: (m.1 ++ 34 :: 58 :: 34 :: (m.2 ++ 34 :: restText ms)) := by
        simp [objectText, memberText]
      simp [htext, members, Mode.finish_cons, Mode.step, Mode.skip, isSpace, hmember,
        Function.comp_def]

/-- The bytes of an object that are not its punctuation are those of its members.
Source: none: infrastructure
Kind: L -/
theorem mem_objectText {c : UInt8} (hc : c ∉ ascii "\"\x7b\x7d:,") (ms : List Member) :
    c ∈ objectText ms ↔ ∃ m ∈ ms, c ∈ m.1 ∨ c ∈ m.2 := by
  have hpunctuation : ascii "\"\x7b\x7d:," = [34, 123, 125, 58, 44] := rfl
  rw [hpunctuation] at hc
  have hrest : ∀ ms, c ∈ restText ms ↔ ∃ m ∈ ms, c ∈ m.1 ∨ c ∈ m.2 := by
    intro ms
    induction ms with
    | nil => simp_all [restText]
    | cons m ms ih => simp_all [restText, memberText, or_assoc]
  cases ms with
  | nil => simp_all [objectText]
  | cons m ms => simp_all [objectText, memberText, or_assoc]

/-- Source: none: infrastructure. Kind: L -/
theorem length_objectText {ms : List Member} (h : ms ≠ []) :
    (objectText ms).length = 1 + (ms.map fun m => m.1.length + m.2.length + 6).sum := by
  have hrest : ∀ ms, (restText ms).length =
      1 + (ms.map fun m : Member => m.1.length + m.2.length + 6).sum := by
    intro ms
    induction ms with
    | nil => rfl
    | cons m ms ih =>
        simp [restText, memberText, ih]
        omega
  cases ms with
  | nil => exact absurd rfl h
  | cons m ms =>
      simp [objectText, memberText, hrest]
      omega

theorem exists_objectText (ms : List Member) : ∃ s, objectText ms = 123 :: s := by
  cases ms with
  | nil => exact ⟨[125], rfl⟩
  | cons m ms => exact ⟨_, rfl⟩

/-- Source: none: infrastructure. Kind: L -/
theorem getLast?_objectText (ms : List Member) : (objectText ms).getLast? = some 125 := by
  have hrest : ∀ ms, (restText ms).getLast? = some 125 := by
    intro ms
    induction ms with
    | nil => rfl
    | cons m ms ih =>
        rw [restText, List.getLast?_append, ih, Option.some_or]
  cases ms with
  | nil => rfl
  | cons m ms => rw [objectText, List.getLast?_append, hrest, Option.some_or]

/-! ## What values amount to -/

/-- A value without a quote amounts to its own member, if its escapes are complete.
Source: none: infrastructure
Kind: L -/
theorem splice_of_notMem (name : Bytes) {value : Bytes} (h : 34 ∉ value) :
    splice (name, value) =
      if value.foldlM Escape.step .plain = some .plain then some [(unquote name, unquote value)]
      else none := by
  rw [splice, Mode.read_text name h]
  rcases value.foldlM Escape.step .plain with _ | esc
  · rfl
  · cases esc <;> simp

/-- A plain value amounts to its own member. Source: none: infrastructure. Kind: L -/
theorem splice_of_plain {name value : Bytes} (hname : Plain name) (h : Plain value) :
    splice (name, value) = some [(name, value)] := by
  have hquote : 34 ∉ value := fun hmem => (h 34 hmem).2.2.1 rfl
  rw [splice_of_notMem name hquote, if_pos (foldlM_step_of_plain h), unquote_of_plain hname,
    unquote_of_plain h]

/-- Source: none: infrastructure. Kind: L -/
theorem spliceAll_append (ms ms' : List Member) :
    spliceAll (ms ++ ms') =
      (spliceAll ms).bind fun spliced => (spliceAll ms').map (spliced ++ ·) := by
  induction ms with
  | nil => simp [spliceAll]
  | cons m ms ih => simp [spliceAll, ih, Option.bind_assoc, Option.map_eq_bind]

/-- Plain members stay as they are. Source: none: infrastructure. Kind: L -/
theorem spliceAll_of_plain {ms : List Member} (hms : ∀ m ∈ ms, Plain m.1 ∧ Plain m.2) :
    spliceAll ms = some ms := by
  induction ms with
  | nil => rfl
  | cons m ms ih =>
      obtain ⟨hname, hvalue⟩ := hms m List.mem_cons_self
      simp [spliceAll, splice_of_plain hname hvalue,
        ih fun m' hm' => hms m' (List.mem_cons_of_mem m hm')]

/-- Source: none: infrastructure. Kind: L -/
theorem unmarshal_brace (s : Bytes) : unmarshal (123 :: s) = (members (123 :: s)).map Dict.ofPairs := by
  have hspace : isSpace 123 = false := rfl
  have hnull : ((123 :: s).dropWhile isSpace).rdropWhile isSpace ≠ ascii "null" := by
    intro heq
    have hpre := List.rdropWhile_prefix isSpace ((123 :: s).dropWhile isSpace)
    rw [heq, List.dropWhile_cons_of_neg (by simp [hspace])] at hpre
    exact absurd (List.cons_prefix_cons.mp hpre).1 (by decide)
  rw [unmarshal, if_neg hnull]

/-- **An object that is cut off before its last brace is an error.**
Source: `encoding/json`, `Unmarshal`
Kind: L -/
theorem unmarshal_cut {s t : Bytes} {obj : Dict Bytes Bytes}
    (h : unmarshal (123 :: (s ++ t)) = some obj) (ht : 125 ∈ t) : unmarshal (123 :: s) = none := by
  rw [unmarshal_brace, Option.map_eq_some_iff] at h
  obtain ⟨ms, hms, -⟩ := h
  rw [unmarshal_brace, Option.map_eq_none_iff]
  rw [members, ← List.cons_append, Mode.finish_append, Option.bind_eq_some_iff] at hms
  obtain ⟨p, hread, hrest⟩ := hms
  obtain ⟨ms', hms', -⟩ := Option.map_eq_some_iff.mp hrest
  have hdone : p.1 ≠ .done := by
    intro hdone
    rw [hdone] at hms'
    exact absurd (Mode.finish_done hms' 125 ht) (by decide)
  rw [members, Mode.finish, hread, Option.bind_some, if_neg hdone]

/-- Source: none: infrastructure. Kind: L -/
theorem unmarshal_objectText {ms : List Member} (hms : ∀ m ∈ ms, Name m.1) :
    unmarshal (objectText ms) = (spliceAll ms).map Dict.ofPairs := by
  obtain ⟨s, hs⟩ := exists_objectText ms
  rw [hs, unmarshal_brace, ← hs, members_objectText hms]

end Lib.Json
