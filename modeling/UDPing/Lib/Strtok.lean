import UDPing.Lib.Strings

/-!
# Tokens of a character array

* `strncpy n s`: what an array of `n` bytes holds after a copy. A string that does not fit is not
  terminated.
* `strchr`: the first place of a byte in front of the terminator.
* `strtok`: one call on what is left of an array, which may have no terminator; `Call` says what it
  can do. `tokens`: the tokens that successive calls yield.
* **`tokens_terminated`**, **`tokens_unterminated`**: these are the non-empty pieces between the
  delimiters, up to the terminator. Without one the last piece is not found, and the call reads
  beyond the array.
-/

namespace Lib

/-! ## Copies -/

/-- An array of `n` bytes after a string was copied to it. Source: `strncpy`. Kind: D -/
def strncpy (n : ℕ) (s : Bytes) : Bytes :=
  (cString s).take n ++ List.replicate (n - (cString s).length) 0

/-- A string that fits is terminated. Source: `strncpy`. Kind: L -/
theorem strncpy_of_lt {n : ℕ} {s : Bytes} (hs : ∀ b ∈ s, b ≠ 0) (hlen : s.length < n) :
    ∃ padding, strncpy n s = s ++ 0 :: padding := by
  obtain ⟨k, hk⟩ : ∃ k, n - s.length = k + 1 := ⟨n - s.length - 1, by omega⟩
  refine ⟨List.replicate k 0, ?_⟩
  rw [strncpy, cString_of_notMem fun h => hs 0 h rfl, List.take_of_length_le hlen.le, hk,
    List.replicate_succ]

/-- A string that does not fit is not. Source: `strncpy`. Kind: L -/
theorem strncpy_of_le {n : ℕ} {s : Bytes} (hs : ∀ b ∈ s, b ≠ 0) (hlen : n ≤ s.length) :
    strncpy n s = s.take n := by
  rw [strncpy, cString_of_notMem fun h => hs 0 h rfl, Nat.sub_eq_zero_of_le hlen,
    List.replicate_zero, List.append_nil]

/-! ## Searching -/

/-- What a search in memory comes to. Source: `strchr`. Kind: D -/
inductive Found where
  /-- It returns the null pointer. -/
  | null
  /-- It returns a pointer; `rest` is the memory from there on. -/
  | found (rest : Bytes)
  /-- It reads beyond the memory. -/
  | beyond
  deriving DecidableEq

/-- The first place of a byte. Source: `strchr`. Kind: D -/
def strchr (c : UInt8) : Bytes → Found
  | [] => .beyond
  | b :: s => if b = c then .found (b :: s) else if b = 0 then .null else strchr c s

/-- A byte in front of the terminator. Source: `strchr`. Kind: L -/
theorem strchr_append {c : UInt8} {w : Bytes} (hzero : 0 ∉ w) (hc : c ∉ w) (rest : Bytes) :
    strchr c (w ++ c :: rest) = .found (c :: rest) := by
  induction w with
  | nil => exact if_pos rfl
  | cons b w ih =>
      rw [List.mem_cons, not_or] at hzero hc
      rw [List.cons_append, strchr, if_neg (Ne.symm hc.1), if_neg (Ne.symm hzero.1)]
      exact ih hzero.2 hc.2

/-- No such byte in front of the terminator. Source: `strchr`. Kind: L -/
theorem strchr_zero {c : UInt8} (hne : c ≠ 0) {w : Bytes} (hc : c ∉ w) (rest : Bytes) :
    strchr c (w ++ 0 :: rest) = .null := by
  induction w with
  | nil =>
      rw [List.nil_append, strchr, if_neg (Ne.symm hne)]
      exact if_pos rfl
  | cons b w ih =>
      rw [List.mem_cons, not_or] at hc
      rw [List.cons_append, strchr, if_neg (Ne.symm hc.1)]
      split_ifs
      · rfl
      · exact ih hc.2

/-- What is found is a part of the memory. Source: `strchr`. Kind: L -/
theorem length_of_strchr {c : UInt8} {s rest : Bytes} (h : strchr c s = .found rest) :
    rest ≠ [] ∧ rest.length ≤ s.length := by
  induction s with
  | nil => cases h
  | cons b s ih =>
      rw [strchr] at h
      split_ifs at h
      · rw [Found.found.injEq] at h
        subst h
        exact ⟨List.cons_ne_nil b s, le_rfl⟩
      · obtain ⟨hne, hle⟩ := ih h
        exact ⟨hne, hle.trans (Nat.le_succ _)⟩

/-! ## One call -/

/-- What a call does on what is left of the array.
Source: `strtok_r`
Kind: D -/
inductive Call where
  /-- It returns the null pointer. -/
  | null
  /-- It returns a token, and `rest` is what is left. -/
  | token (text rest : Bytes)
  /-- It reads beyond the array. -/
  | beyond
  deriving DecidableEq

/-- A byte of a token. Source: `strtok_r`. Kind: D -/
def inToken (delim b : UInt8) : Bool := b ≠ delim && b ≠ 0

/-- The token begins at the first byte that is no delimiter and ends before the next one, or before
the terminator, which is left.
Source: `strtok_r`
Kind: D
Fidelity: the null byte written after a token falls on a byte that no later call reads -/
def strtok (delim : UInt8) (array : Bytes) : Call :=
  match array.dropWhile (· = delim) with
  | [] => .beyond
  | b :: s =>
    if b = 0 then .null
    else
      match (b :: s).dropWhile (inToken delim) with
      | [] => .beyond
      | c :: rest => .token ((b :: s).takeWhile (inToken delim)) (if c = 0 then c :: rest else rest)

variable {delim : UInt8} {word array text rest : Bytes}

@[simp] theorem strtok_delim (array : Bytes) :
    strtok delim (delim :: array) = strtok delim array := by
  simp [strtok]

/-- No token before the terminator. Source: `strtok_r`. Kind: L -/
theorem strtok_zero (hdelim : delim ≠ 0) (padding : Bytes) :
    strtok delim (0 :: padding) = .null := by
  simp [strtok, hdelim.symm]

/-- A word and the byte behind it. Source: `strtok_r`. Kind: L -/
theorem strtok_word (hne : word ≠ []) (hword : ∀ b ∈ word, inToken delim b) {c : UInt8}
    (hc : inToken delim c = false) (array : Bytes) :
    strtok delim (word ++ c :: array) =
      .token word (if c = 0 then c :: array else array) := by
  obtain ⟨b, w, rfl⟩ := List.exists_cons_of_ne_nil hne
  have hb := hword b List.mem_cons_self
  simp only [inToken, ne_eq, decide_not, Bool.and_eq_true, Bool.not_eq_true',
    decide_eq_false_iff_not] at hb
  have hdrop : (b :: w ++ c :: array).dropWhile (· = delim) = b :: (w ++ c :: array) := by
    simp [hb.1]
  have hrest : (b :: (w ++ c :: array)).dropWhile (inToken delim) = c :: array := by
    rw [← List.cons_append, List.dropWhile_append_of_pos hword, List.dropWhile_cons_of_neg]
    simp [hc]
  have hfront : (b :: (w ++ c :: array)).takeWhile (inToken delim) = b :: w := by
    rw [← List.cons_append, List.takeWhile_append_of_pos hword, List.takeWhile_cons_of_neg,
      List.append_nil]
    simp [hc]
  unfold strtok
  rw [hdrop]
  dsimp only
  rw [if_neg hb.2, hrest, hfront]

/-- A word at the end of the array. Source: `strtok_r`. Kind: L -/
theorem strtok_last (hword : ∀ b ∈ word, inToken delim b) : strtok delim word = .beyond := by
  rcases word with _ | ⟨b, w⟩
  · rfl
  · have hb := hword b List.mem_cons_self
    simp only [inToken, ne_eq, decide_not, Bool.and_eq_true, Bool.not_eq_true',
      decide_eq_false_iff_not] at hb
    have hdrop : (b :: w).dropWhile (· = delim) = b :: w := by simp [hb.1]
    have hrest : (b :: w).dropWhile (inToken delim) = [] := List.dropWhile_eq_nil_iff.mpr hword
    unfold strtok
    rw [hdrop]
    dsimp only
    rw [if_neg hb.2, hrest]

/-- A token takes something of the array. Source: `strtok_r`. Kind: L -/
theorem length_of_strtok (h : strtok delim array = .token text rest) :
    rest.length < array.length := by
  have hdrop := List.length_dropWhile_le (· = delim) array
  have hhead := List.head?_dropWhile_not (· = delim) array
  unfold strtok at h
  split at h
  · cases h
  · rename_i b s hs
    rw [hs, List.length_cons] at hdrop
    rw [hs] at hhead
    split_ifs at h with hb
    have hin : inToken delim b = true := by
      simp only [List.head?_cons, decide_eq_false_iff_not] at hhead
      simp [inToken, hhead, hb]
    have hskip := List.length_dropWhile_le (inToken delim) s
    rw [List.dropWhile_cons_of_pos hin] at h
    split at h
    · cases h
    · rename_i c after hafter
      rw [hafter, List.length_cons] at hskip
      rw [Call.token.injEq] at h
      rw [← h.2]
      split_ifs
      · rw [List.length_cons]
        omega
      · omega

/-! ## All calls -/

/-- The tokens, and whether the calls end with the null pointer.
Source: `strtok_r`
Kind: D -/
def tokens (delim : UInt8) (array : Bytes) : List Bytes × Bool :=
  match _h : strtok delim array with
  | .null => ([], true)
  | .beyond => ([], false)
  | .token text rest => (text :: (tokens delim rest).1, (tokens delim rest).2)
termination_by array.length
decreasing_by
  all_goals exact length_of_strtok _h

theorem tokens_of_null (h : strtok delim array = .null) : tokens delim array = ([], true) := by
  rw [tokens]
  split <;> simp_all

theorem tokens_of_beyond (h : strtok delim array = .beyond) :
    tokens delim array = ([], false) := by
  rw [tokens]
  split <;> simp_all

theorem tokens_of_token (h : strtok delim array = .token text rest) :
    tokens delim array = (text :: (tokens delim rest).1, (tokens delim rest).2) := by
  rw [tokens]
  split <;> simp_all

theorem tokens_delim (array : Bytes) : tokens delim (delim :: array) = tokens delim array := by
  have hsame := @strtok_delim delim array
  cases h : strtok delim array with
  | null => rw [tokens_of_null h, tokens_of_null (hsame.trans h)]
  | beyond => rw [tokens_of_beyond h, tokens_of_beyond (hsame.trans h)]
  | token text rest => rw [tokens_of_token h, tokens_of_token (hsame.trans h)]

/-- A word in front of a delimiter. Source: `strtok_r`. Kind: L -/
theorem tokens_word_delim (hdelim : delim ≠ 0) (hword : ∀ b ∈ word, inToken delim b)
    (array : Bytes) :
    tokens delim (word ++ delim :: array) =
      ([word].filter (· ≠ []) ++ (tokens delim array).1, (tokens delim array).2) := by
  by_cases hne : word = []
  · subst hne
    simp [tokens_delim]
  · have hcall := strtok_word hne hword (show inToken delim delim = false by simp [inToken]) array
    rw [if_neg hdelim] at hcall
    simp [tokens_of_token hcall, hne]

/-- A word in front of the terminator. Source: `strtok_r`. Kind: L -/
theorem tokens_word_zero (hdelim : delim ≠ 0) (hword : ∀ b ∈ word, inToken delim b)
    (padding : Bytes) :
    tokens delim (word ++ 0 :: padding) = ([word].filter (· ≠ []), true) := by
  have hend := tokens_of_null (strtok_zero hdelim padding)
  by_cases hne : word = []
  · subst hne
    simp [hend]
  · have hcall := strtok_word hne hword (show inToken delim 0 = false by simp [inToken]) padding
    rw [if_pos rfl] at hcall
    simp [tokens_of_token hcall, hend, hne]

theorem inToken_of_notMem (hzero : ∀ b ∈ word, b ≠ 0) (hdelim : delim ∉ word) :
    ∀ b ∈ word, inToken delim b := by
  intro b hb
  have hne : b ≠ delim := fun h => hdelim (h ▸ hb)
  simp [inToken, hne, hzero b hb]

/-- **The tokens of a string**: its pieces that are not empty.
Source: `strtok_r`
Kind: P -/
theorem tokens_terminated (hdelim : delim ≠ 0) (padding : Bytes) :
    ∀ s : Bytes, (∀ b ∈ s, b ≠ 0) →
      tokens delim (s ++ 0 :: padding) = ((split delim s).filter (· ≠ []), true) := by
  intro s
  induction hn : s.length using Nat.strong_induction_on generalizing s with
  | _ n ih =>
      intro hs
      rcases split_cases delim s with hnot | ⟨word, rest, hword, rfl⟩
      · rw [split_of_notMem hnot, tokens_word_zero hdelim (inToken_of_notMem hs hnot)]
      · have hrest := ih rest.length (by rw [← hn]; simp; omega) rest rfl fun b hb =>
          hs b (by simp [hb])
        rw [split_append_sep hword, List.append_assoc, List.cons_append,
          tokens_word_delim hdelim (inToken_of_notMem (fun b hb => hs b (by simp [hb])) hword),
          hrest, ← List.filter_append]
        rfl

/-- **The tokens of an array without a terminator**: the last piece is not found.
Source: `strtok_r`
Kind: P -/
theorem tokens_unterminated (hdelim : delim ≠ 0) :
    ∀ s : Bytes, (∀ b ∈ s, b ≠ 0) →
      tokens delim s = ((split delim s).dropLast.filter (· ≠ []), false) := by
  intro s
  induction hn : s.length using Nat.strong_induction_on generalizing s with
  | _ n ih =>
      intro hs
      rcases split_cases delim s with hnot | ⟨word, rest, hword, rfl⟩
      · rw [split_of_notMem hnot, tokens_of_beyond (strtok_last (inToken_of_notMem hs hnot))]
        rfl
      · have hrest := ih rest.length (by rw [← hn]; simp; omega) rest rfl fun b hb =>
          hs b (by simp [hb])
        rw [split_append_sep hword,
          tokens_word_delim hdelim (inToken_of_notMem (fun b hb => hs b (by simp [hb])) hword),
          hrest, List.dropLast_cons_of_ne_nil (split_ne_nil _ _), ← List.filter_append]
        rfl

end Lib
