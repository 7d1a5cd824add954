import UDPing.Client.SendLoop
import UDPing.Lib.Scanf
import UDPing.Lib.Strtok

/-!
# The list of next hops

* The constructor of `MacList`, `getNumMacs` and `toString` (`maclist.cc`): `countMacs` is the loop
  that counts the commas, `readMacs` the loop over the addresses.
* `construct_cases`: what the constructor makes of a string, in terms of the pieces between the
  commas.
* **`construct_toString`**: addresses that were written are read back, and take turns.
* `MacText`: the grammar of an address. **`parsesExactly_iff`**: on which strings the parser accepts
  exactly the grammar.
-/

namespace UDPing.Client

open Lib

/-! ## The parser -/

/-- The loop that counts the commas behind the first character. `nextString` is the memory from the
pointer on; `none`: the loop reads beyond it.
Source: `maclist.cc`, `MacList::MacList`
Kind: D
Fidelity: an `int` does not overflow -/
def countMacs (nextString : Bytes) (numMacs : ℕ) : Option ℕ :=
  match _h : strchr 44 nextString.tail with
  | .beyond => none
  | .null => some numMacs
  | .found nextString => countMacs nextString (numMacs + 1)
termination_by nextString.length
decreasing_by
  have hfound := length_of_strchr _h
  have hpos := List.length_pos_iff.mpr hfound.1
  rw [List.length_tail] at hfound
  omega

/-- The call of `sscanf` on a string. Source: `maclist.cc`, `MacList::MacList`. Kind: D
Fidelity: `bare` is that of `scanHex` -/
def readMac (bare : Bool) (mls : Bytes) : Option Mac :=
  if h : (scanFields bare 58 6 mls).length < 6 then none
  else some ⟨scanFields bare 58 6 mls,
    Nat.le_antisymm (length_scanFields_le bare 58 6 mls) (Nat.le_of_not_lt h)⟩

/-- The pointer behind the next comma; `none`: the address behind that of the null pointer.
Source: `maclist.cc`, `MacList::MacList`
Kind: D -/
def afterComma (mls : Bytes) : Option Bytes :=
  match strchr 44 mls with
  | .found rest => some rest.tail
  | _ => none

/-- The loop over the addresses: the number of rounds left, the memory from `mls` on and the
addresses that have been read. A list that is refused has no address.
Source: `maclist.cc`, `MacList::MacList`
Kind: D -/
def readMacs (bare : Bool) : ℕ → Option Bytes → List Mac → Option MacList
  | 0, _, macs => some ⟨macs, macs.length⟩
  | _ + 1, none, _ => none
  | rounds + 1, some mls, macs =>
    if 0 ∈ mls then
      match readMac bare (cString mls) with
      | none => some ⟨[], macs.length⟩
      | some mac => readMacs bare rounds (afterComma mls) (macs ++ [mac])
    else none

/-- The list that the constructor makes of a string, whose characters lie in memory with a null
character behind them; `none`: it reads other memory.
Source: `maclist.cc`, `MacList::MacList`
Kind: D
Fidelity: the message for a string that is refused is not modelled -/
def MacList.construct (bare : Bool) (macListString : Bytes) : Option MacList :=
  match countMacs (macListString ++ [0]) 1 with
  | none => none
  | some numMacs => readMacs bare numMacs (some (macListString ++ [0])) []

/-- Source: `maclist.cc`, `MacList::getNumMacs`. Kind: D -/
def MacList.getNumMacs (l : MacList) : ℕ := l.macs.length

/-- The text that is written, and what is returned.
Source: `maclist.cc`, `MacList::toString`
Kind: D -/
def MacList.toString (mac : Option Mac) : Bytes × ℤ :=
  match mac with
  | none => (ascii "NULL", -1)
  | some mac =>
    let text := List.intercalate [58] (mac.val.map hex2)
    (text, text.length)

/-! ## The loops -/

theorem countMacs_null {p : Bytes} (h : strchr 44 p.tail = .null) (n : ℕ) :
    countMacs p n = some n := by
  rw [countMacs]
  split <;> simp_all

theorem countMacs_found {p rest : Bytes} (h : strchr 44 p.tail = .found rest) (n : ℕ) :
    countMacs p n = countMacs rest (n + 1) := by
  rw [countMacs]
  split <;> simp_all

/-- As many rounds as there are commas. Source: `maclist.cc`, `MacList::MacList`. Kind: L -/
theorem countMacs_eq {w : Bytes} (hzero : 0 ∉ w) (b : UInt8) (t : Bytes) (n : ℕ) :
    countMacs (b :: (w ++ 0 :: t)) n = some (n + w.count 44) := by
  induction hlen : w.length using Nat.strong_induction_on generalizing w b n with
  | _ len ih =>
      rcases split_cases 44 w with hcomma | ⟨word, rest, hcomma, rfl⟩
      · have hnull : strchr 44 (b :: (w ++ 0 :: t)).tail = .null :=
          strchr_zero (by decide) hcomma t
        rw [countMacs_null hnull, List.count_eq_zero_of_not_mem hcomma, Nat.add_zero]
      · rw [List.mem_append, List.mem_cons, not_or, not_or] at hzero
        have hshort : rest.length < len := by
          rw [← hlen, List.length_append, List.length_cons]
          omega
        have hfound : strchr 44 (b :: ((word ++ 44 :: rest) ++ 0 :: t)).tail =
            .found (44 :: (rest ++ 0 :: t)) := by
          rw [List.tail_cons, List.append_assoc]
          exact strchr_append hzero.1 hcomma _
        rw [countMacs_found hfound, ih rest.length hshort hzero.2.2 44 (n + 1) rfl,
          List.count_append, List.count_cons_self, List.count_eq_zero_of_not_mem hcomma]
        exact congrArg some (by omega)

/-- A comma ends an address. Source: `sscanf`. Kind: L -/
theorem readMac_append (bare : Bool) (w t : Bytes) :
    readMac bare (w ++ 44 :: t) = readMac bare w := by
  have hscan := scanFields_append (by decide : Stop 44) bare (by decide : (44 : UInt8) ≠ 58) 6 w t
  unfold readMac
  simp only [hscan]

/-- **The loop reads the pieces between the commas**, or refuses the string if one of them is none.
Source: `maclist.cc`, `MacList::MacList`
Kind: L -/
theorem readMacs_eq (bare : Bool) {w : Bytes} (hzero : 0 ∉ w) (t : Bytes) (macs : List Mac) :
    match (split 44 w).mapM (readMac bare) with
    | some macs' =>
        readMacs bare (w.count 44 + 1) (some (w ++ 0 :: t)) macs =
          some ⟨macs ++ macs', (macs ++ macs').length⟩
    | none => ∃ k, readMacs bare (w.count 44 + 1) (some (w ++ 0 :: t)) macs = some ⟨[], k⟩ := by
  induction hlen : w.length using Nat.strong_induction_on generalizing w macs with
  | _ len ih =>
      have hmem : 0 ∈ w ++ 0 :: t := by simp
      have hstring : cString (w ++ 0 :: t) = w :=
        cString_append_zero (fun b hb h => hzero (h ▸ hb)) t
      rw [readMacs, if_pos hmem, hstring]
      rcases split_cases 44 w with hcomma | ⟨word, rest, hcomma, rfl⟩
      · rw [split_of_notMem hcomma, List.count_eq_zero_of_not_mem hcomma, List.mapM_cons]
        rcases readMac bare w with _ | mac
        · exact ⟨macs.length, rfl⟩
        · rfl
      · rw [List.mem_append, List.mem_cons, not_or, not_or] at hzero
        have hshort : rest.length < len := by
          rw [← hlen, List.length_append, List.length_cons]
          omega
        have hafter : afterComma ((word ++ 44 :: rest) ++ 0 :: t) = some (rest ++ 0 :: t) := by
          rw [afterComma, List.append_assoc, List.cons_append, strchr_append hzero.1 hcomma]
          rfl
        have hcount : (word ++ 44 :: rest).count 44 = rest.count 44 + 1 := by
          rw [List.count_append, List.count_cons_self, List.count_eq_zero_of_not_mem hcomma,
            Nat.zero_add]
        rw [split_append_sep hcomma, List.mapM_cons, readMac_append, hafter, hcount]
        rcases readMac bare word with _ | mac
        · exact ⟨macs.length, rfl⟩
        · have hrest := ih rest.length hshort hzero.2.2 (macs ++ [mac]) rfl
          rcases hmap : (split 44 rest).mapM (readMac bare) with _ | macs'
          · rw [hmap] at hrest
            exact hrest
          · rw [hmap] at hrest
            simpa [List.append_assoc] using hrest

/-- No address is read of the empty string. Source: `sscanf`. Kind: L -/
theorem readMac_nil (bare : Bool) : readMac bare [] = none := by
  rcases bare with _ | _
  · rfl
  · rfl

/-- The search behind the first character of the empty string is one behind its null character.
Source: `maclist.cc`, `MacList::MacList`
Kind: L -/
theorem construct_nil (bare : Bool) : MacList.construct bare [] = none := by
  have hcount : countMacs [0] 1 = none := by
    rw [countMacs]
    rfl
  unfold MacList.construct
  rw [List.nil_append, hcount]

/-- **What the constructor makes of a string**: the addresses between the commas, if all of them are
read.
Source: `maclist.cc`, `MacList::MacList`
Kind: P -/
theorem construct_cases (bare : Bool) {s : Bytes} (hs : s ≠ []) :
    match (split 44 (cString s)).mapM (readMac bare) with
    | some macs => MacList.construct bare s = some ⟨macs, macs.length⟩
    | none => ∃ k, MacList.construct bare s = some ⟨[], k⟩ := by
  obtain ⟨b, s, rfl⟩ := List.exists_cons_of_ne_nil hs
  obtain ⟨t, hmemory⟩ := exists_cString s
  have hzero : 0 ∉ cString s := zero_notMem_cString s
  have hcount : countMacs (b :: s ++ [0]) 1 = some (1 + (cString s).count 44) := by
    rw [List.cons_append, hmemory, countMacs_eq hzero]
  unfold MacList.construct
  rw [hcount]
  dsimp only
  rw [List.cons_append, hmemory, Nat.add_comm 1]
  have hrefused : readMac bare (cString (b :: (cString s ++ 0 :: t))) = none →
      readMacs bare ((cString s).count 44 + 1) (some (b :: (cString s ++ 0 :: t))) [] =
        some ⟨[], 0⟩ := by
    intro hread
    rw [readMacs, if_pos (by simp), hread]
    rfl
  by_cases hnull : b = 0
  · -- The commas behind a null character are counted, but nothing is read in front of it.
    subst hnull
    have hnone : (split 44 (cString (0 :: s))).mapM (readMac bare) = none := by
      change (do let mac ← readMac bare []; _) = none
      rw [readMac_nil]
      rfl
    rw [hnone]
    exact ⟨0, hrefused (readMac_nil bare)⟩
  · have hstring : cString (b :: s) = b :: cString s := by simp [cString, hnull]
    rw [hstring]
    by_cases hcomma : b = 44
    · -- The first comma is not counted, but the piece in front of it is empty.
      subst hcomma
      have hread : readMac bare (44 :: cString s) = none :=
        (readMac_append bare [] (cString s)).trans (readMac_nil bare)
      have hfirst : cString (44 :: (cString s ++ 0 :: t)) = 44 :: cString s :=
        @cString_append_zero (44 :: cString s) (by rintro b hb rfl; simp [hzero] at hb) t
      have hnone : (split 44 (44 :: cString s)).mapM (readMac bare) = none := by
        rw [split, if_pos rfl, List.mapM_cons, readMac_nil]
        rfl
      rw [hnone]
      exact ⟨0, hrefused (by rw [hfirst, hread])⟩
    · have hpieces := @readMacs_eq bare (b :: cString s) (by simp [hzero, Ne.symm hnull]) t []
      rw [List.count_cons_of_ne hcomma] at hpieces
      simpa using hpieces

/-- A list of pieces is read if each of them is. Source: none: infrastructure. Kind: L -/
theorem mapM_cases {α β : Type} (f : α → Option β) (l : List α) :
    (∃ bs, l.mapM f = some bs ∧ bs.length = l.length ∧ ∀ a ∈ l, f a ≠ none) ∨
      (l.mapM f = none ∧ ∃ a ∈ l, f a = none) := by
  induction l with
  | nil => exact .inl ⟨[], rfl, rfl, by simp⟩
  | cons a l ih =>
      rw [List.mapM_cons]
      rcases ha : f a with _ | b
      · exact .inr ⟨rfl, a, List.mem_cons_self, ha⟩
      · rcases ih with ⟨bs, hbs, hlen, hall⟩ | ⟨hnone, a', ha', hf⟩
        · rw [hbs]
          exact .inl ⟨b :: bs, rfl, by simp [hlen], List.forall_mem_cons.mpr ⟨by simp [ha], hall⟩⟩
        · rw [hnone]
          exact .inr ⟨rfl, a', List.mem_cons_of_mem a ha', hf⟩

/-! ## Addresses that were written -/

/-- What is written of an address is read back, and has no other bytes than digits and colons.
Source: `maclist.cc`, `MacList::toString`
Kind: L -/
theorem readMac_toString (bare : Bool) (mac : Mac) :
    readMac bare (MacList.toString (some mac)).1 = some mac := by
  have hscan : scanFields bare 58 6 (MacList.toString (some mac)).1 = mac.val := by
    have hread := scanFields_intercalate bare (by decide : Stop 58) mac.val
    rwa [mac.property] at hread
  unfold readMac
  simp only [hscan, mac.property]
  rfl

theorem mem_toString {mac : Mac} {b : UInt8} (hb : b ∈ (MacList.toString (some mac)).1) :
    b = 58 ∨ isXDigit b = true := by
  refine (mem_of_mem_intercalate hb).imp_right ?_
  rintro ⟨text, htext, hb⟩
  obtain ⟨c, -, rfl⟩ := List.mem_map.mp htext
  exact isXDigit_of_mem_hex2 hb

/-- What is written of a list has one piece for each address, and no null character.
Source: `maclist.cc`, `MacList::toString`
Kind: L -/
theorem split_texts {macs : List Mac} (hmacs : macs ≠ []) :
    split 44 (List.intercalate [44] (macs.map fun mac => (MacList.toString (some mac)).1)) =
        macs.map (fun mac => (MacList.toString (some mac)).1) ∧
      0 ∉ List.intercalate [44] (macs.map fun mac => (MacList.toString (some mac)).1) := by
  have htext : ∀ text ∈ macs.map (fun mac => (MacList.toString (some mac)).1), ∀ b ∈ text,
      b = 58 ∨ isXDigit b = true := by
    intro text htext
    obtain ⟨mac, -, rfl⟩ := List.mem_map.mp htext
    exact fun b hb => mem_toString hb
  refine ⟨split_intercalate (by simpa using hmacs) fun text hmem hcomma => ?_, fun hzero => ?_⟩
  · exact absurd (htext text hmem 44 hcomma) (by decide)
  · rcases mem_of_mem_intercalate hzero with h | ⟨text, hmem, h⟩
    · exact absurd h (by decide)
    · exact absurd (htext text hmem 0 h) (by decide)

/-- The rotation of a list as the constructor leaves it.
Source: `maclist.cc`, `MacList::nextMac`
Kind: L -/
theorem curMac_iterate {macs : List Mac} (hmacs : macs ≠ []) (k : ℕ) :
    (fun l => (MacList.nextMac l).2)^[k] ⟨macs, macs.length⟩ =
      ⟨macs, if k = 0 then macs.length else (k - 1) % macs.length⟩ := by
  induction k with
  | zero => rfl
  | succ k ih =>
      rw [Function.iterate_succ_apply', ih, nextMac_eq (k := k) hmacs rfl,
        if_neg (Nat.succ_ne_zero k), Nat.add_sub_cancel]

/-- **Addresses that were written are read back, and take turns.** The list that is constructed of
the texts of some addresses has as many addresses, and the call of `nextMac` that `k` calls precede
returns the one at the position `k` modulo their number.
Source: `maclist.cc`, `MacList`
Kind: P -/
theorem construct_toString (bare : Bool) {macs : List Mac} (hmacs : macs ≠ []) :
    ∃ l, MacList.construct bare
        (List.intercalate [44] (macs.map fun mac => (MacList.toString (some mac)).1)) = some l ∧
      l.getNumMacs = macs.length ∧
      ∀ k, ((fun l => (MacList.nextMac l).2)^[k] l).nextMac.1 =
        some (macs.get ⟨k % macs.length, Nat.mod_lt k (List.length_pos_iff.mpr hmacs)⟩) := by
  obtain ⟨hsplit, hzero⟩ := split_texts hmacs
  have hread : (macs.map fun mac => (MacList.toString (some mac)).1).mapM (readMac bare) =
      some macs := by
    rw [List.mapM_map]
    have hmac : (readMac bare ∘ fun mac => (MacList.toString (some mac)).1) = some :=
      funext (readMac_toString bare)
    rw [hmac]
    exact (List.mapM_pure (f := id)).trans (congrArg some (List.map_id macs))
  have hne : List.intercalate [44] (macs.map fun mac => (MacList.toString (some mac)).1) ≠ [] := by
    intro hnil
    rw [hnil] at hsplit
    have hempty : [] ∈ macs.map (fun mac => (MacList.toString (some mac)).1) := by
      rw [← hsplit]
      exact List.mem_singleton_self []
    obtain ⟨mac, -, htext⟩ := List.mem_map.mp hempty
    have hback := readMac_toString bare mac
    rw [htext, readMac_nil] at hback
    cases hback
  have hcases := construct_cases bare hne
  rw [cString_of_notMem hzero, hsplit, hread] at hcases
  refine ⟨_, hcases, rfl, fun k => ?_⟩
  rw [curMac_iterate hmacs, nextMac_eq (k := k) hmacs rfl]
  exact List.getElem?_eq_getElem _

/-- Three addresses. Source: `t_maclist.cc`, `testMacList`. Kind: D -/
def exampleMacs : List Mac :=
  [⟨[0x11, 0x22, 0x33, 0x44, 0x55, 0x66], rfl⟩, ⟨[0xaa, 0xbb, 0xcc, 0xdd, 0xee, 0xff], rfl⟩,
    ⟨[0x00, 0x33, 0x55, 0x77, 0x99, 0xaa], rfl⟩]

/-- The list of three addresses. Source: `t_maclist.cc`, `testMacList`. Kind: P -/
theorem construct_exampleMacs :
    ∃ l, MacList.construct false (ascii "11:22:33:44:55:66,aa:bb:cc:dd:ee:ff,00:33:55:77:99:aa") =
        some l ∧ l.getNumMacs = 3 ∧
      ∀ k, ((fun l => (MacList.nextMac l).2)^[k] l).nextMac.1 =
        some (exampleMacs.get ⟨k % 3, Nat.mod_lt k (by decide)⟩) :=
  @construct_toString false exampleMacs (List.cons_ne_nil _ _)

/-! ## The grammar -/

/-- An address of the grammar: six groups of one or two hexadecimal digits between colons.
Source: `maclist.cc`, `MacList::MacList`
Kind: D -/
def MacText (field : Bytes) : Prop :=
  (split 58 field).length = 6 ∧
    ∀ group ∈ split 58 field, (group.length = 1 ∨ group.length = 2) ∧ group.all isXDigit = true

instance (field : Bytes) : Decidable (MacText field) := inferInstanceAs (Decidable (_ ∧ _))

/-- What exact parsing asks of the constructor: it reads no other memory, and there are addresses if
and only if every piece between the commas is one.
Source: none: specification
Kind: D -/
def ParsesExactly (bare : Bool) (s : Bytes) : Prop :=
  ∃ l, MacList.construct bare s = some l ∧
    (l.getNumMacs ≠ 0 ↔ ∀ field ∈ split 44 s, MacText field)

theorem readMac_ne_none {bare : Bool} {field : Bytes} :
    readMac bare field ≠ none ↔ Groups bare 58 6 field := by
  have hle := length_scanFields_le bare 58 6 field
  have hgroups : (scanFields bare 58 6 field).length = 6 ↔ Groups bare 58 6 field := scanFields_iff
  rw [← hgroups]
  unfold readMac
  split_ifs with hlt
  · exact iff_of_false (fun h => h rfl) (by omega)
  · exact iff_of_true (Option.some_ne_none _) (by omega)

/-- Groups of digits are read. Source: `sscanf`. Kind: L -/
theorem groups_of_digits (bare : Bool) {n : ℕ} {s : Bytes} (hlen : (split 58 s).length = n + 1)
    (hs : ∀ group ∈ split 58 s, group ≠ [] ∧ ∀ b ∈ group, isXDigit b = true) :
    Groups bare 58 (n + 1) s := by
  induction n generalizing s with
  | zero =>
      rcases split_cases 58 s with hcolon | ⟨word, rest, hcolon, rfl⟩
      · rw [split_of_notMem hcolon, List.forall_mem_singleton] at hs
        have hread := @Groups.last bare 58 s [] (Reads.digits bare hs.1 hs.2 (by simp))
        rwa [List.append_nil] at hread
      · have hpos := List.length_pos_iff.mpr (split_ne_nil 58 rest)
        rw [split_append_sep hcolon, List.length_cons] at hlen
        omega
  | succ n ih =>
      rcases split_cases 58 s with hcolon | ⟨word, rest, hcolon, rfl⟩
      · rw [split_of_notMem hcolon, List.length_singleton] at hlen
        omega
      · rw [split_append_sep hcolon, List.length_cons] at hlen
        rw [split_append_sep hcolon, List.forall_mem_cons] at hs
        have hstop : ∀ c ∈ (58 :: rest).head?, Stop c := by
          rintro c ⟨⟩
          decide
        exact .more (Reads.digits bare hs.1.1 hs.1.2 hstop) (ih (by omega) hs.2)

/-- An address of the grammar is read. Source: `maclist.cc`, `MacList::MacList`. Kind: L -/
theorem MacText.groups {field : Bytes} (h : MacText field) (bare : Bool) :
    Groups bare 58 6 field := by
  refine groups_of_digits bare h.1 fun group hgroup => ?_
  obtain ⟨hlen, hdigits⟩ := h.2 group hgroup
  refine ⟨?_, List.all_eq_true.mp hdigits⟩
  rintro rfl
  simp at hlen

/-- Pieces that are addresses have no null character. Source: none: infrastructure. Kind: L -/
theorem zero_notMem_of_macTexts {s : Bytes} (hs : ∀ field ∈ split 44 s, MacText field) :
    0 ∉ s := by
  intro hzero
  obtain ⟨field, hfield, hzero⟩ := exists_mem_split hzero (by decide : (0 : UInt8) ≠ 44)
  obtain ⟨group, hgroup, hzero⟩ := exists_mem_split hzero (by decide : (0 : UInt8) ≠ 58)
  have hdigit := List.all_eq_true.mp ((hs field hfield).2 group hgroup).2 0 hzero
  exact absurd hdigit (by decide)

/-- **On which strings the parser accepts exactly the grammar**: those that are not empty, unless
each piece in front of a null character begins with six groups that `sscanf` reads and some piece is
none of the grammar.
Source: `maclist.cc`, `MacList::MacList`
Kind: P -/
theorem parsesExactly_iff (bare : Bool) (s : Bytes) :
    ParsesExactly bare s ↔
      s ≠ [] ∧ ((∀ field ∈ split 44 (cString s), Groups bare 58 6 field) →
        ∀ field ∈ split 44 s, MacText field) := by
  by_cases hs : s = []
  · subst hs
    refine iff_of_false ?_ fun h => h.1 rfl
    rintro ⟨l, hl, -⟩
    rw [construct_nil] at hl
    cases hl
  · have hcases := construct_cases bare hs
    rcases mapM_cases (readMac bare) (split 44 (cString s)) with
      ⟨macs, hmacs, hlen, hall⟩ | ⟨hnone, field, hfield, hread⟩
    · rw [hmacs] at hcases
      have hpos := List.length_pos_iff.mpr (split_ne_nil 44 (cString s))
      have hnum : macs.length ≠ 0 := by omega
      have hgroups : ∀ field ∈ split 44 (cString s), Groups bare 58 6 field :=
        fun field hfield => readMac_ne_none.mp (hall field hfield)
      constructor
      · rintro ⟨l, hl, hexact⟩
        rw [hcases, Option.some.injEq] at hl
        subst hl
        exact ⟨hs, fun _ => hexact.mp hnum⟩
      · rintro ⟨-, h⟩
        exact ⟨_, hcases, iff_of_true hnum (h hgroups)⟩
    · rw [hnone] at hcases
      obtain ⟨k, hk⟩ := hcases
      have hrefused : ¬Groups bare 58 6 field := fun h => readMac_ne_none.mpr h hread
      have htext : ¬∀ field ∈ split 44 s, MacText field := by
        intro h
        rw [cString_of_notMem (zero_notMem_of_macTexts h)] at hfield
        exact hrefused ((h field hfield).groups bare)
      refine iff_of_true ⟨_, hk, iff_of_false (fun h => h rfl) htext⟩ ⟨hs, fun h => ?_⟩
      exact absurd (h field hfield) hrefused

/-- A digit too many is read as another address. Source: `maclist.cc`, `MacList::MacList`.
Kind: P -/
theorem digit_too_many : ¬ParsesExactly false (ascii "11:22:33:44:55:667") := by
  rintro ⟨l, hl, hexact⟩
  have hread : (split 44 (cString (ascii "11:22:33:44:55:667"))).mapM (readMac false) =
      some [⟨[0x11, 0x22, 0x33, 0x44, 0x55, 0x67], rfl⟩] := by decide
  have hcases := construct_cases false (s := ascii "11:22:33:44:55:667") (by decide)
  rw [hread] at hcases
  rw [hcases, Option.some.injEq] at hl
  subst hl
  exact absurd (hexact.mp Nat.one_ne_zero) (by decide)

end UDPing.Client
