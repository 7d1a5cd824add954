import UDPing.Lib.Strings

/-!
# Numbers read by `sscanf`

* `scanHex`: one conversion `%hhx` on a string. It skips blanks and takes a sign, a prefix `0x` and
  any number of digits; what it stores is cut to a byte.
* `scanFields n`: `n` such conversions with a separator between them. The result is what is stored.
* `Reads`, `Groups`: the texts that these read, as a grammar. **`Reads.scanHex`**,
  **`reads_of_scanHex`**, **`scanFields_iff`**: it is exact.
* `scanFields_append`: a byte that no conversion takes ends the text like its terminator.
* **`scanHex_hex2`**: what `%02x` writes is read back.
-/

namespace Lib

/-! ## Bytes -/

/-- Source: `isspace` in the C locale. Kind: D -/
def isBlank (b : UInt8) : Bool := b = 32 || (9 ≤ b && b ≤ 13)

/-- What a hexadecimal digit denotes. Source: `strtoul`. Kind: D -/
def hexVal (b : UInt8) : Option ℕ :=
  if 48 ≤ b ∧ b ≤ 57 then some (b.toNat - 48)
  else if 65 ≤ b ∧ b ≤ 70 then some (b.toNat - 55)
  else if 97 ≤ b ∧ b ≤ 102 then some (b.toNat - 87)
  else none

/-- Source: `isxdigit`. Kind: D -/
def isXDigit (b : UInt8) : Bool := (hexVal b).isSome

/-- What hexadecimal digits denote. Source: `strtoul`. Kind: D -/
def hexNumber (digits : Bytes) : ℕ := digits.foldl (fun n b => 16 * n + (hexVal b).getD 0) 0

/-- A byte that ends a number and begins none. Source: `sscanf`. Kind: D -/
def Stop (b : UInt8) : Prop :=
  isBlank b = false ∧ isXDigit b = false ∧ b ≠ 43 ∧ b ≠ 45 ∧ b ≠ 120 ∧ b ≠ 88

instance (b : UInt8) : Decidable (Stop b) := inferInstanceAs (Decidable (_ ∧ _))

theorem isXDigit_iff {b : UInt8} : isXDigit b = true ↔
    (48 ≤ b.toNat ∧ b.toNat ≤ 57) ∨ (65 ≤ b.toNat ∧ b.toNat ≤ 70) ∨
      (97 ≤ b.toNat ∧ b.toNat ≤ 102) := by
  unfold isXDigit hexVal
  simp only [UInt8.le_iff_toNat_le]
  split_ifs with hdecimal hupper hlower
  · exact iff_of_true rfl (.inl hdecimal)
  · exact iff_of_true rfl (.inr (.inl hupper))
  · exact iff_of_true rfl (.inr (.inr hlower))
  · refine iff_of_false Bool.false_ne_true ?_
    rintro (h | h | h)
    · exact hdecimal h
    · exact hupper h
    · exact hlower h

/-- A digit is no other byte of a number. Source: none: infrastructure. Kind: L -/
theorem of_isXDigit {b : UInt8} (hb : isXDigit b = true) :
    isBlank b = false ∧ b ≠ 43 ∧ b ≠ 45 ∧ b ≠ 120 ∧ b ≠ 88 := by
  rw [isXDigit_iff] at hb
  have hblank : isBlank b = false := by
    have hmax : (13 : UInt8).toNat = 13 := rfl
    rw [isBlank, Bool.or_eq_false_iff, Bool.and_eq_false_iff]
    refine ⟨decide_eq_false ?_, .inr (decide_eq_false ?_)⟩
    · rintro rfl
      exact absurd hb (by decide)
    · rw [UInt8.le_iff_toNat_le]
      omega
  refine ⟨hblank, ?_, ?_, ?_, ?_⟩ <;>
  · rintro rfl
    exact absurd hb (by decide)

/-! ## One conversion -/

/-- Whether there is a prefix `0x`, and what follows it. Source: `strtoul`. Kind: D -/
def hexPrefix : Bytes → Bool × Bytes
  | 48 :: 120 :: s => (true, s)
  | 48 :: 88 :: s => (true, s)
  | s => (false, s)

/-- The byte that a conversion stores, and what it leaves of the string; `none`: it fails. `bare`
says whether a prefix without a digit is read as zero.
Source: `sscanf`, `%hhx`
Kind: D
Fidelity: the C standard makes such a prefix a failure, some libraries read it; `long` has 64 bits -/
def scanHex (bare : Bool) (s : Bytes) : Option (UInt8 × Bytes) :=
  let (negative, s) := sign (s.dropWhile isBlank)
  let (prefixed, s) := hexPrefix s
  let digits := s.takeWhile isXDigit
  if digits ≠ [] ∨ (bare && prefixed) = true then
    let n := hexNumber digits
    let value := if 2 ^ 64 ≤ n then 2 ^ 64 - 1 else if negative then 2 ^ 64 - n else n
    some (UInt8.ofNat value, s.dropWhile isXDigit)
  else none

/-- The bytes that `n` conversions with `sep` between them store.
Source: `sscanf`
Kind: D -/
def scanFields (bare : Bool) (sep : UInt8) : ℕ → Bytes → List UInt8
  | 0, _ => []
  | n + 1, s =>
    match scanHex bare s with
    | none => []
    | some (b, []) => [b]
    | some (b, c :: rest) => if c = sep then b :: scanFields bare sep n rest else [b]

/-- A text that a conversion reads in front of `rest`: blanks, a sign, a prefix, digits.
Source: none: specification
Kind: D -/
inductive Reads (bare : Bool) : Bytes → Bytes → Prop
  | intro {blanks sgn pre digits rest : Bytes} (hblanks : ∀ b ∈ blanks, isBlank b = true)
      (hsgn : sgn ∈ [[], ascii "+", ascii "-"]) (hpre : pre ∈ [[], ascii "0x", ascii "0X"])
      (hdigits : ∀ b ∈ digits, isXDigit b = true)
      (hsome : digits ≠ [] ∨ (bare = true ∧ pre ≠ []))
      (hrest : ∀ c ∈ rest.head?, isXDigit c = false)
      (hzero : pre = [] → digits = ascii "0" → ∀ c ∈ rest.head?, c ≠ 120 ∧ c ≠ 88) :
      Reads bare (blanks ++ (sgn ++ (pre ++ digits))) rest

/-- A text with `n` groups that are read, and anything after the last.
Source: none: specification
Kind: D -/
inductive Groups (bare : Bool) (sep : UInt8) : ℕ → Bytes → Prop
  | last {text rest : Bytes} (htext : Reads bare text rest) : Groups bare sep 1 (text ++ rest)
  | more {n : ℕ} {text rest : Bytes} (htext : Reads bare text (sep :: rest))
      (hrest : Groups bare sep n rest) : Groups bare sep (n + 1) (text ++ sep :: rest)

/-! ## The parts of a number -/

theorem sign_append {sgn s : Bytes} (hsgn : sgn ∈ [[], ascii "+", ascii "-"])
    (hs : ∀ c ∈ s.head?, c ≠ 43 ∧ c ≠ 45) : sign (sgn ++ s) = ((sign sgn).1, s) := by
  simp only [List.mem_cons, List.not_mem_nil, or_false] at hsgn
  rcases hsgn with rfl | rfl | rfl
  · exact sign_of_head hs
  · rfl
  · rfl

theorem exists_sign (s : Bytes) : ∃ sgn ∈ [[], ascii "+", ascii "-"], s = sgn ++ (sign s).2 := by
  unfold sign
  split
  · exact ⟨ascii "+", by simp, rfl⟩
  · exact ⟨ascii "-", by simp, rfl⟩
  · exact ⟨[], by simp, rfl⟩

theorem hexPrefix_of_ne {s : Bytes}
    (hs : ∀ rest, s ≠ 48 :: 120 :: rest ∧ s ≠ 48 :: 88 :: rest) : hexPrefix s = (false, s) := by
  unfold hexPrefix
  split
  · rename_i rest
    exact absurd rfl (hs rest).1
  · rename_i rest
    exact absurd rfl (hs rest).2
  · rfl

theorem hexPrefix_cases (s : Bytes) :
    (∃ pre ∈ [ascii "0x", ascii "0X"], s = pre ++ (hexPrefix s).2 ∧ (hexPrefix s).1 = true) ∨
      (hexPrefix s = (false, s) ∧ ∀ rest, s ≠ 48 :: 120 :: rest ∧ s ≠ 48 :: 88 :: rest) := by
  by_cases hs : ∀ rest, s ≠ 48 :: 120 :: rest ∧ s ≠ 48 :: 88 :: rest
  · exact .inr ⟨hexPrefix_of_ne hs, hs⟩
  · simp only [not_forall, not_and_or, not_not] at hs
    obtain ⟨rest, rfl | rfl⟩ := hs
    · exact .inl ⟨ascii "0x", by simp, rfl, rfl⟩
    · exact .inl ⟨ascii "0X", by simp, rfl, rfl⟩

/-- What follows the blanks of a text that is read. Source: none: infrastructure. Kind: L -/
theorem dropWhile_isBlank {blanks s : Bytes} (hblanks : ∀ b ∈ blanks, isBlank b = true)
    (hs : ∀ c ∈ s.head?, isBlank c = false) : (blanks ++ s).dropWhile isBlank = s := by
  rw [List.dropWhile_append_of_pos hblanks]
  rcases s with _ | ⟨c, s⟩
  · rfl
  · rw [List.dropWhile_cons_of_neg]
    rw [hs c rfl]
    exact Bool.false_ne_true

/-- The digits in front of `rest`. Source: none: infrastructure. Kind: L -/
theorem span_isXDigit {digits rest : Bytes} (hdigits : ∀ b ∈ digits, isXDigit b = true)
    (hrest : ∀ c ∈ rest.head?, isXDigit c = false) :
    (digits ++ rest).takeWhile isXDigit = digits ∧ (digits ++ rest).dropWhile isXDigit = rest := by
  rw [List.takeWhile_append_of_pos hdigits, List.dropWhile_append_of_pos hdigits]
  rcases rest with _ | ⟨c, rest⟩
  · exact ⟨List.append_nil _, rfl⟩
  · have hc : ¬isXDigit c = true := by
      rw [hrest c rfl]
      exact Bool.false_ne_true
    rw [List.takeWhile_cons_of_neg hc, List.dropWhile_cons_of_neg hc]
    exact ⟨List.append_nil _, rfl⟩

/-- A number without a prefix does not look like one with a prefix.
Source: none: infrastructure
Kind: L -/
theorem hexPrefix_digits {digits rest : Bytes} (hsome : digits ≠ [])
    (hdigits : ∀ b ∈ digits, isXDigit b = true)
    (hzero : digits = ascii "0" → ∀ c ∈ rest.head?, c ≠ 120 ∧ c ≠ 88) :
    hexPrefix (digits ++ rest) = (false, digits ++ rest) := by
  have hsecond : ∀ (x : UInt8) (tail : Bytes), digits ++ rest = 48 :: x :: tail →
      x ≠ 120 ∧ x ≠ 88 := by
    intro x tail heq
    rcases digits with _ | ⟨d, _ | ⟨e, digits⟩⟩
    · exact absurd rfl hsome
    · obtain ⟨rfl, rfl⟩ := List.cons.inj heq
      exact hzero rfl x rfl
    · obtain ⟨-, heq⟩ := List.cons.inj heq
      obtain ⟨rfl, -⟩ := List.cons.inj heq
      exact (of_isXDigit (hdigits e (by simp))).2.2.2
  exact hexPrefix_of_ne fun tail =>
    ⟨fun heq => (hsecond 120 tail heq).1 rfl, fun heq => (hsecond 88 tail heq).2 rfl⟩

section Number

variable {bare : Bool} {blanks sgn pre digits rest : Bytes}

/-- A number begins with a digit. Source: none: infrastructure. Kind: L -/
theorem head_number (hpre : pre ∈ [[], ascii "0x", ascii "0X"])
    (hdigits : ∀ b ∈ digits, isXDigit b = true) (hsome : digits ≠ [] ∨ (bare = true ∧ pre ≠ [])) :
    ∀ c ∈ (pre ++ (digits ++ rest)).head?, isXDigit c = true := by
  simp only [List.mem_cons, List.not_mem_nil, or_false] at hpre
  rcases hpre with rfl | rfl | rfl
  · obtain ⟨d, ds, rfl⟩ := List.exists_cons_of_ne_nil (hsome.resolve_right fun h => h.2 rfl)
    rintro c ⟨⟩
    exact hdigits d List.mem_cons_self
  · rintro c ⟨⟩
    rfl
  · rintro c ⟨⟩
    rfl

/-- The prefix of a number. Source: none: infrastructure. Kind: L -/
theorem hexPrefix_number (hpre : pre ∈ [[], ascii "0x", ascii "0X"])
    (hdigits : ∀ b ∈ digits, isXDigit b = true) (hsome : digits ≠ [] ∨ (bare = true ∧ pre ≠ []))
    (hzero : pre = [] → digits = ascii "0" → ∀ c ∈ rest.head?, c ≠ 120 ∧ c ≠ 88) :
    hexPrefix (pre ++ (digits ++ rest)) = (decide (pre ≠ []), digits ++ rest) := by
  simp only [List.mem_cons, List.not_mem_nil, or_false] at hpre
  rcases hpre with rfl | rfl | rfl
  · have hplain := hexPrefix_digits (hsome.resolve_right fun h => h.2 rfl) hdigits (hzero rfl)
    exact hplain
  · rfl
  · rfl

/-- **What is stored of a text of the grammar.** Source: `sscanf`, `%hhx`. Kind: L -/
theorem scanHex_eq (hblanks : ∀ b ∈ blanks, isBlank b = true)
    (hsgn : sgn ∈ [[], ascii "+", ascii "-"]) (hpre : pre ∈ [[], ascii "0x", ascii "0X"])
    (hdigits : ∀ b ∈ digits, isXDigit b = true) (hsome : digits ≠ [] ∨ (bare = true ∧ pre ≠ []))
    (hrest : ∀ c ∈ rest.head?, isXDigit c = false)
    (hzero : pre = [] → digits = ascii "0" → ∀ c ∈ rest.head?, c ≠ 120 ∧ c ≠ 88) :
    scanHex bare (blanks ++ (sgn ++ (pre ++ (digits ++ rest)))) =
      some (UInt8.ofNat (if 2 ^ 64 ≤ hexNumber digits then 2 ^ 64 - 1
        else if (sign sgn).1 then 2 ^ 64 - hexNumber digits else hexNumber digits), rest) := by
  obtain ⟨htake, hdrop⟩ := span_isXDigit hdigits hrest
  have hhead := @head_number bare pre digits rest hpre hdigits hsome
  have hsign : sign (sgn ++ (pre ++ (digits ++ rest))) =
      ((sign sgn).1, pre ++ (digits ++ rest)) :=
    sign_append hsgn fun c hc =>
      have hc := of_isXDigit (hhead c hc)
      ⟨hc.2.1, hc.2.2.1⟩
  have hnonblank : ∀ c ∈ (sgn ++ (pre ++ (digits ++ rest))).head?, isBlank c = false := by
    simp only [List.mem_cons, List.not_mem_nil, or_false] at hsgn
    rcases hsgn with rfl | rfl | rfl
    · exact fun c hc => (of_isXDigit (hhead c hc)).1
    · rintro c ⟨⟩
      rfl
    · rintro c ⟨⟩
      rfl
  have hread : digits ≠ [] ∨ (bare && decide (pre ≠ [])) = true := by
    simpa using hsome
  unfold scanHex
  rw [dropWhile_isBlank hblanks hnonblank, hsign]
  dsimp only
  rw [hexPrefix_number hpre hdigits hsome hzero]
  dsimp only
  rw [htake, hdrop, if_pos hread]

end Number

/-- **A text of the grammar is read** as a whole. Source: `sscanf`. Kind: P -/
theorem Reads.scanHex {bare : Bool} {text rest : Bytes} (h : Reads bare text rest) :
    ∃ b, scanHex bare (text ++ rest) = some (b, rest) := by
  obtain ⟨hblanks, hsgn, hpre, hdigits, hsome, hrest, hzero⟩ := h
  simp only [List.append_assoc]
  exact ⟨_, scanHex_eq hblanks hsgn hpre hdigits hsome hrest hzero⟩

/-- **What is read is a text of the grammar.** Source: `sscanf`. Kind: P -/
theorem reads_of_scanHex {bare : Bool} {s rest : Bytes} {b : UInt8}
    (h : scanHex bare s = some (b, rest)) : ∃ text, s = text ++ rest ∧ Reads bare text rest := by
  obtain ⟨sgn, hsgn, hsign⟩ := exists_sign (s.dropWhile isBlank)
  have hblanks : s.takeWhile isBlank ++ s.dropWhile isBlank = s := List.takeWhile_append_dropWhile
  unfold scanHex at h
  dsimp only at h
  generalize (sign (s.dropWhile isBlank)).2 = body at h hsign
  have hsplit : (hexPrefix body).2.takeWhile isXDigit ++ (hexPrefix body).2.dropWhile isXDigit =
      (hexPrefix body).2 := List.takeWhile_append_dropWhile
  have hdigits : ∀ c ∈ (hexPrefix body).2.takeWhile isXDigit, isXDigit c = true :=
    fun c hc => List.mem_takeWhile_imp hc
  have hstop := List.head?_dropWhile_not isXDigit (hexPrefix body).2
  generalize (hexPrefix body).2.takeWhile isXDigit = digits at h hdigits hsplit
  generalize (hexPrefix body).2.dropWhile isXDigit = tail at h hstop hsplit
  by_cases hsome : digits ≠ [] ∨ (bare && (hexPrefix body).1) = true
  · rw [if_pos hsome, Option.some.injEq, Prod.mk.injEq] at h
    obtain ⟨-, rfl⟩ := h
    have hrest : ∀ c ∈ tail.head?, isXDigit c = false := by
      intro c hc
      rw [Option.mem_def.mp hc] at hstop
      simpa using hstop
    rw [← hblanks, hsign]
    rcases hexPrefix_cases body with ⟨pre, hpre, hbody, hprefixed⟩ | ⟨hbody, hplain⟩
    · have hne : pre ≠ [] := by
        rintro rfl
        simp [ascii] at hpre
      refine ⟨s.takeWhile isBlank ++ (sgn ++ (pre ++ digits)), ?_, ?_⟩
      · rw [hbody, ← hsplit]
        simp only [List.append_assoc]
      · refine .intro (fun c hc => List.mem_takeWhile_imp hc) hsgn (List.mem_cons_of_mem _ hpre)
          hdigits ?_ hrest fun hnil => absurd hnil hne
        simpa [hprefixed, hne] using hsome
    · have hbody' : digits ++ tail = body := by rw [hsplit, hbody]
      have hsome : digits ≠ [] := by simpa [hbody] using hsome
      refine ⟨s.takeWhile isBlank ++ (sgn ++ ([] ++ digits)), ?_, ?_⟩
      · rw [← hbody']
        simp only [List.append_assoc, List.nil_append]
      · refine .intro (fun c hc => List.mem_takeWhile_imp hc) hsgn List.mem_cons_self hdigits
          (.inl hsome) hrest ?_
        rintro - rfl c hc
        obtain ⟨tail', rfl⟩ : ∃ tail', tail = c :: tail' := by
          rcases tail with _ | ⟨c', tail'⟩
          · cases hc
          · cases hc
            exact ⟨tail', rfl⟩
        refine ⟨?_, ?_⟩
        · rintro rfl
          exact (hplain tail').1 hbody'.symm
        · rintro rfl
          exact (hplain tail').2 hbody'.symm
  · rw [if_neg hsome] at h
    cases h

/-- Digits are a text of the grammar. Source: none: specification. Kind: L -/
theorem Reads.digits (bare : Bool) {digits rest : Bytes} (hsome : digits ≠ [])
    (hdigits : ∀ b ∈ digits, isXDigit b = true) (hrest : ∀ c ∈ rest.head?, Stop c) :
    Reads bare digits rest :=
  @Reads.intro bare [] [] [] digits rest (fun _ hb => absurd hb List.not_mem_nil) List.mem_cons_self
    List.mem_cons_self hdigits (.inl hsome) (fun c hc => (hrest c hc).2.1)
    fun _ _ c hc => (hrest c hc).2.2.2.2

/-! ## Several conversions -/

theorem length_scanFields_le (bare : Bool) (sep : UInt8) (n : ℕ) (s : Bytes) :
    (scanFields bare sep n s).length ≤ n := by
  induction n generalizing s with
  | zero => exact le_rfl
  | succ n ih =>
      unfold scanFields
      split
      · exact Nat.zero_le _
      · exact Nat.le_add_left 1 n
      · split_ifs
        · exact Nat.succ_le_succ (ih _)
        · exact Nat.le_add_left 1 n

/-- Groups are read one by one. Source: `sscanf`. Kind: L -/
theorem Groups.length_scanFields {bare : Bool} {sep : UInt8} {n : ℕ} {s : Bytes}
    (h : Groups bare sep n s) : (scanFields bare sep n s).length = n := by
  induction h with
  | @last text rest htext =>
      obtain ⟨b, hscan⟩ := htext.scanHex
      rw [scanFields, hscan]
      rcases rest with _ | ⟨c, rest⟩
      · rfl
      · dsimp only
        split_ifs <;> rfl
  | more htext _ ih =>
      obtain ⟨b, hscan⟩ := htext.scanHex
      rw [scanFields, hscan]
      dsimp only
      rw [if_pos rfl, List.length_cons, ih]

/-- **All conversions succeed on the texts of the grammar.** Source: `sscanf`. Kind: P -/
theorem scanFields_iff {bare : Bool} {sep : UInt8} {n : ℕ} {s : Bytes} :
    (scanFields bare sep (n + 1) s).length = n + 1 ↔ Groups bare sep (n + 1) s := by
  constructor
  · induction n generalizing s with
    | zero =>
        intro h
        rw [scanFields] at h
        rcases hscan : scanHex bare s with _ | ⟨b, rest⟩
        · simp [hscan] at h
        · obtain ⟨text, rfl, htext⟩ := reads_of_scanHex hscan
          exact .last htext
    | succ n ih =>
        intro h
        rw [scanFields] at h
        rcases hscan : scanHex bare s with _ | ⟨b, _ | ⟨c, rest⟩⟩
        · simp [hscan] at h
        · simp [hscan] at h
        · obtain ⟨text, rfl, htext⟩ := reads_of_scanHex hscan
          rw [hscan] at h
          by_cases hc : c = sep
          · subst hc
            exact .more htext (ih (by simpa using h))
          · simp [hc] at h
  · exact Groups.length_scanFields

/-! ## What ends a text -/

section Stop

variable {c : UInt8} (hc : Stop c)

include hc

theorem hexPrefix_append (s t : Bytes) :
    hexPrefix (s ++ c :: t) = ((hexPrefix s).1, (hexPrefix s).2 ++ c :: t) := by
  obtain ⟨-, hdigit, -, -, hx, hX⟩ := hc
  rcases hexPrefix_cases s with ⟨pre, hpre, hs, hprefixed⟩ | ⟨hs, hplain⟩
  · rw [hprefixed]
    generalize (hexPrefix s).2 = body at hs
    subst hs
    simp only [List.mem_cons, List.not_mem_nil, or_false] at hpre
    rcases hpre with rfl | rfl
    · rfl
    · rfl
  · rw [hs]
    refine hexPrefix_of_ne fun rest => ?_
    rcases s with _ | ⟨b, _ | ⟨b', s⟩⟩
    · have hzero : c ≠ 48 := by
        rintro rfl
        exact absurd hdigit (by decide)
      simp [hzero]
    · simp [hx, hX]
    · have hbyte := hplain s
      simp only [List.cons.injEq, ne_eq, and_true, not_and] at hbyte
      refine ⟨fun heq => ?_, fun heq => ?_⟩
      · obtain ⟨hb, heq⟩ := List.cons.inj heq
        exact hbyte.1 hb (List.cons.inj heq).1
      · obtain ⟨hb, heq⟩ := List.cons.inj heq
        exact hbyte.2 hb (List.cons.inj heq).1

omit hc in
/-- The longest part of a text with a property ends where the text does.
Source: none: infrastructure
Kind: L -/
theorem span_append {p : UInt8 → Bool} (hp : p c = false) (s t : Bytes) :
    (s ++ c :: t).takeWhile p = s.takeWhile p ∧
      (s ++ c :: t).dropWhile p = s.dropWhile p ++ c :: t := by
  induction s with
  | nil => simp [hp]
  | cons b s ih =>
      by_cases hb : p b = true
      · simp [hb, ih]
      · simp [hb]

theorem sign_append_stop (s t : Bytes) :
    sign (s ++ c :: t) = ((sign s).1, (sign s).2 ++ c :: t) := by
  rcases s with _ | ⟨b, s⟩
  · exact sign_of_head fun c' hc' => by
      cases hc'
      exact ⟨hc.2.2.1, hc.2.2.2.1⟩
  · by_cases hplus : b = 43
    · subst hplus
      rfl
    · by_cases hminus : b = 45
      · subst hminus
        rfl
      · have hb : ∀ s : Bytes, sign (b :: s) = (false, b :: s) := fun s =>
          sign_of_head fun c' hc' => by
            cases hc'
            exact ⟨hplus, hminus⟩
        rw [List.cons_append, hb, hb]
        rfl

/-- A byte that no conversion takes is left. Source: `sscanf`. Kind: L -/
theorem scanHex_append (bare : Bool) (s t : Bytes) :
    scanHex bare (s ++ c :: t) = (scanHex bare s).map fun r => (r.1, r.2 ++ c :: t) := by
  unfold scanHex
  rw [(span_append hc.1 s t).2, sign_append_stop hc]
  dsimp only
  rw [hexPrefix_append hc]
  dsimp only
  rw [(span_append hc.2.1 _ t).1, (span_append hc.2.1 _ t).2]
  split_ifs <;> rfl

/-- **A byte that no conversion takes ends the text.** Source: `sscanf`. Kind: P -/
theorem scanFields_append (bare : Bool) {sep : UInt8} (hsep : c ≠ sep) (n : ℕ) (s t : Bytes) :
    scanFields bare sep n (s ++ c :: t) = scanFields bare sep n s := by
  induction n generalizing s with
  | zero => rfl
  | succ n ih =>
      rw [scanFields, scanFields, scanHex_append hc]
      rcases scanHex bare s with _ | ⟨b, _ | ⟨c', rest⟩⟩
      · rfl
      · exact if_neg hsep
      · dsimp only [Option.map_some, List.cons_append]
        rw [ih]

end Stop

/-! ## What is written is read -/

/-- The digit for a number below 16. Source: `printf`, `%x`. Kind: D -/
def hexDigit (d : ℕ) : UInt8 := UInt8.ofNat (if d < 10 then 48 + d else 87 + d)

/-- Two digits. Source: `printf`, `%02x`. Kind: D -/
def hex2 (b : UInt8) : Bytes := [hexDigit (b.toNat / 16), hexDigit (b.toNat % 16)]

theorem hexVal_hexDigit : ∀ d < 16, hexVal (hexDigit d) = some d := by decide

theorem isXDigit_of_mem_hex2 {b c : UInt8} (hc : c ∈ hex2 b) : isXDigit c = true := by
  have hb := b.toNat_lt
  simp only [hex2, List.mem_cons, List.not_mem_nil, or_false] at hc
  rcases hc with rfl | rfl
  · rw [isXDigit, hexVal_hexDigit _ (by omega)]
    rfl
  · rw [isXDigit, hexVal_hexDigit _ (by omega)]
    rfl

/-- Digits are read as the number they denote. Source: `sscanf`, `%hhx`. Kind: L -/
theorem scanHex_digits (bare : Bool) {digits rest : Bytes} (hsome : digits ≠ [])
    (hdigits : ∀ b ∈ digits, isXDigit b = true) (hrest : ∀ c ∈ rest.head?, Stop c)
    (hlt : hexNumber digits < 2 ^ 64) :
    scanHex bare (digits ++ rest) = some (UInt8.ofNat (hexNumber digits), rest) := by
  have hread := @scanHex_eq bare [] [] [] digits rest (fun _ hb => absurd hb List.not_mem_nil)
    List.mem_cons_self List.mem_cons_self hdigits (.inl hsome) (fun c hc => (hrest c hc).2.1)
    fun _ _ c hc => (hrest c hc).2.2.2.2
  rw [if_neg (by omega)] at hread
  exact hread

/-- **What is written is read back.** Source: `sscanf`, `%hhx`; `printf`, `%02x`. Kind: P -/
theorem scanHex_hex2 (bare : Bool) (b : UInt8) {rest : Bytes} (hrest : ∀ c ∈ rest.head?, Stop c) :
    scanHex bare (hex2 b ++ rest) = some (b, rest) := by
  have hb := b.toNat_lt
  have hnumber : hexNumber (hex2 b) = b.toNat := by
    have hhi := hexVal_hexDigit (b.toNat / 16) (by omega)
    have hlo := hexVal_hexDigit (b.toNat % 16) (by omega)
    simp only [hexNumber, hex2, List.foldl_cons, List.foldl_nil, hhi, hlo, Option.getD_some]
    omega
  have hsome : hex2 b ≠ [] := List.cons_ne_nil _ _
  rw [scanHex_digits bare hsome (fun c hc => isXDigit_of_mem_hex2 hc) hrest (by omega), hnumber,
    UInt8.ofNat_toNat]

/-- Bytes with a separator between them are read back.
Source: `sscanf`, `%hhx`; `printf`, `%02x`
Kind: L -/
theorem scanFields_intercalate (bare : Bool) {sep : UInt8} (hsep : Stop sep) :
    ∀ bs : List UInt8,
      scanFields bare sep bs.length (List.intercalate [sep] (bs.map hex2)) = bs := by
  intro bs
  induction bs with
  | nil => rfl
  | cons b bs ih =>
      rcases bs with _ | ⟨b', bs⟩
      · have hscan := @scanHex_hex2 bare b [] (by simp)
        rw [List.append_nil] at hscan
        simp [scanFields, hscan]
      · have hscan := @scanHex_hex2 bare b (sep :: List.intercalate [sep] ((b' :: bs).map hex2))
          (by simpa using hsep)
        rw [List.map_cons, List.map_cons, List.intercalate_cons_cons, ← List.map_cons,
          List.append_assoc, List.singleton_append, List.length_cons, scanFields, hscan]
        dsimp only
        rw [if_pos rfl, ih]

end Lib
