import UDPing.Client.Options
import UDPing.Client.SendLoop
import UDPing.Lib.Strtok

/-!
# The source port descriptor

* `isValidPort` and the part of the constructor of `ClientSessionList` that reads the descriptor
  (`clientsession.cc`): `addRange` is the body of its loop, `readRanges` the loop over the array,
  `ClientSessionList.construct` the whole.
* `Denotes`: the grammar of descriptors, with the ports that one denotes.
* `readRanges_eq`: the loop folds `addRange` over the tokens. `foldlM_addRange`: this succeeds if
  every token is `Taken` and they are not too many.
* `denotes_iff`: in terms of the pieces between the commas.
* **`parsedExactly_iff`**: which descriptors are parsed exactly.
-/

namespace UDPing.Client

open Lib

/-! ## The parser -/

/-- Source: `constants.h`, `MAX_SOCKETS`. Kind: D -/
def maxSockets : ℕ := 5000

/-- What a call of the constructor comes to. Source: none: infrastructure. Kind: D -/
inductive Outcome (α : Type) where
  /-- The program prints a message and ends. -/
  | exits (message : Bytes)
  /-- It reads memory that is not its own. -/
  | undefined
  | returns (a : α)
  deriving DecidableEq

/-- Source: none: infrastructure. Kind: D -/
def Outcome.map {α β : Type} (f : α → β) : Outcome α → Outcome β
  | exits message => exits message
  | undefined => undefined
  | returns a => returns (f a)

/-- Source: `clientsession.cc`, `isValidPort`. Kind: D
Fidelity: an error is the message with which the program ends -/
def isValidPort (port : ℤ) : Except Bytes Unit :=
  if port < minPort then .error (ascii "Port too low: " ++ signed port)
  else if maxPort < port then .error (ascii "Port too high: " ++ signed port)
  else .ok ()

/-- `start` and `end` of a range: the token is split at its first dash.
Source: `clientsession.cc`, `ClientSessionList::ClientSessionList`
Kind: D -/
def bounds (curRange : Bytes) : ℤ × ℤ :=
  let start := atoi (curRange.takeWhile (· ≠ 45))
  match curRange.dropWhile (· ≠ 45) with
  | [] => (start, start)
  | _ :: endString => (start, atoi endString)

/-- The ports from `start` to `stop`.
Source: `clientsession.cc`, `ClientSessionList::ClientSessionList`
Kind: D -/
def portRange (start stop : ℤ) : List ℤ :=
  (List.range (stop - start + 1).toNat).map fun k => start + k

/-- The body of the loop over the ranges, `ports` being those of the sessions so far.
Source: `clientsession.cc`, `ClientSessionList::ClientSessionList`
Kind: D -/
def addRange (ports : List ℤ) (curRange : Bytes) : Except Bytes (List ℤ) := do
  let (start, stop) := bounds curRange
  isValidPort start
  isValidPort stop
  if start ≤ stop then
    let ports := ports ++ portRange start stop
    if maxSockets < ports.length then .error (ascii "Too many ports defined")
    else if ports.length = 0 then .error (ascii "No ports defined")
    else .ok ports
  else .error (ascii "Invalid port range " ++ signed start ++ [45] ++ signed stop)

/-- The loop over the ranges, `array` being what `strtok_r` has left of the array.
Source: `clientsession.cc`, `ClientSessionList::ClientSessionList`
Kind: D -/
def readRanges (array : Bytes) (ports : List ℤ) : Outcome (List ℤ) :=
  match _h : strtok 44 array with
  | .null => .returns ports
  | .beyond => .undefined
  | .token curRange rest =>
      match addRange ports curRange with
      | .error message => .exits message
      | .ok ports => readRanges rest ports
termination_by array.length
decreasing_by
  exact length_of_strtok _h

/-- The bytes of a descriptor. Source: `clientsession.cc`, `ClientSessionList::ClientSessionList`.
Kind: D -/
def portBytes : Bytes := ascii "1234567890,-"

/-- The ports of the sessions.
Source: `clientsession.cc`, `ClientSessionList::ClientSessionList`
Kind: D -/
def readPorts (srcPorts : Bytes) : Outcome (List ℤ) :=
  if srcPorts.all (· ∈ portBytes) then readRanges (strncpy 1000 srcPorts) []
  else .exits (ascii "Invalid source port descriptor " ++ srcPorts)

/-- A list of sessions, one for each port of the descriptor.
Source: `clientsession.cc`, `ClientSessionList::ClientSessionList`
Kind: D
Fidelity: what can end the program before the descriptor is read is not modelled -/
def ClientSessionList.construct (A : Abi) (parent : Parent) (srcPorts : Bytes) (macs : List Mac)
    (fresh : ℕ → Fresh) : Outcome ClientSessionList :=
  (readPorts srcPorts).map fun ports => .create A parent ports macs fresh

/-! ## Descriptors -/

/-- Source: `README.md`, source port descriptor. Kind: D -/
def Numeral (s : Bytes) : Prop := s ≠ [] ∧ ∀ b ∈ s, isDigit b = true

/-- The number that digits denote. Source: none: specification. Kind: D -/
def value (s : Bytes) : ℕ := s.foldl (fun n b => 10 * n + (b.toNat - 48)) 0

/-- An item of a descriptor, a port or a range, with its ports.
Source: `README.md`, source port descriptor
Kind: D -/
inductive Item : Bytes → List ℤ → Prop
  | port {p : Bytes} (hp : Numeral p) (hmin : minPort ≤ value p) (hmax : value p ≤ maxPort) :
      Item p [(value p : ℤ)]
  | range {p q : Bytes} (hp : Numeral p) (hq : Numeral q) (hmin : minPort ≤ value p)
      (hle : value p ≤ value q) (hmax : value q ≤ maxPort) :
      Item (p ++ 45 :: q) (portRange (value p) (value q))

/-- A descriptor, items between commas, with its ports in order.
Source: `README.md`, source port descriptor
Kind: D -/
inductive Denotes : Bytes → List ℤ → Prop
  | item {s : Bytes} {ports : List ℤ} (hs : Item s ports) : Denotes s ports
  | cons {s t : Bytes} {ports ports' : List ℤ} (hs : Item s ports) (ht : Denotes t ports') :
      Denotes (s ++ 44 :: t) (ports ++ ports')

/-- What exact parsing asks of the constructor: if it returns, then with sessions for a descriptor,
which are some but not too many, and `getNextSession` finds one at every call.
Source: none: specification
Kind: D -/
def ParsedExactly (srcPorts : Bytes) : Outcome ClientSessionList → Prop
  | .exits _ => True
  | .undefined => False
  | .returns l =>
      l.sessions ≠ [] ∧ l.sessions.length ≤ maxSockets ∧
        Denotes srcPorts (l.sessions.map ClientSession.port) ∧
        ∀ k, ∃ session, l.sessions[((fun l => l.getNextSession.2)^[k] l).getNextSession.1]? =
          some session

/-! ## Which descriptors are taken -/

/-- A range whose bounds, as `atoi` reads them, are ports in order.
Source: `clientsession.cc`, `isValidPort`
Kind: D -/
def Taken (item : Bytes) : Prop :=
  minPort ≤ (bounds item).1 ∧ (bounds item).1 ≤ (bounds item).2 ∧ (bounds item).2 ≤ maxPort

/-- The ports of a range. Source: none: specification. Kind: D -/
def portsOf (item : Bytes) : List ℤ := portRange (bounds item).1 (bounds item).2

/-- The items that are not empty, of those that end in the array.
Source: `clientsession.cc`, `ClientSessionList::ClientSessionList`
Kind: D -/
def itemsRead (srcPorts : Bytes) : List Bytes :=
  if srcPorts.length < 1000 then (split 44 srcPorts).filter (· ≠ [])
  else (split 44 (srcPorts.take 1000)).dropLast.filter (· ≠ [])

/-- No item that is read is refused, and they are not too many.
Source: none: specification
Kind: D -/
def Accepted (srcPorts : Bytes) : Prop :=
  (∀ item ∈ itemsRead srcPorts, Taken item) ∧
    ((itemsRead srcPorts).flatMap portsOf).length ≤ maxSockets

/-- At most one dash, and numbers that an `int` tells from each other.
Source: none: specification
Kind: D -/
def Plain (item : Bytes) : Prop :=
  item.count 45 ≤ 1 ∧ ∀ number ∈ split 45 item, value number < 2 ^ 32

instance (item : Bytes) : Decidable (Taken item) := inferInstanceAs (Decidable (_ ∧ _))

instance (item : Bytes) : Decidable (Plain item) := inferInstanceAs (Decidable (_ ∧ _))

instance (srcPorts : Bytes) : Decidable (Accepted srcPorts) :=
  inferInstanceAs (Decidable (_ ∧ _))

theorem length_portRange (start stop : ℤ) :
    (portRange start stop).length = (stop - start + 1).toNat := by
  simp [portRange]

theorem isValidPort_eq_ok {port : ℤ} :
    isValidPort port = .ok () ↔ minPort ≤ port ∧ port ≤ maxPort := by
  unfold isValidPort
  split_ifs <;> simp <;> omega

/-- An item that is no range of ports is refused.
Source: `clientsession.cc`, `ClientSessionList::ClientSessionList`
Kind: L -/
theorem addRange_of_not_taken {item : Bytes} (h : ¬Taken item) (ports : List ℤ) :
    ∃ message, addRange ports item = .error message := by
  unfold addRange
  rcases hstart : isValidPort (bounds item).1 with message | _
  · exact ⟨message, by simp [hstart, bind, Except.bind]⟩
  · rcases hstop : isValidPort (bounds item).2 with message | _
    · exact ⟨message, by simp [hstart, hstop, bind, Except.bind]⟩
    · have hmin := (isValidPort_eq_ok.mp hstart).1
      have hmax := (isValidPort_eq_ok.mp hstop).2
      have hle : ¬(bounds item).1 ≤ (bounds item).2 := fun hle => h ⟨hmin, hle, hmax⟩
      simp [hstart, hstop, hle, bind, Except.bind]

/-- A range adds its ports, unless they are too many.
Source: `clientsession.cc`, `ClientSessionList::ClientSessionList`
Kind: L -/
theorem addRange_of_taken {item : Bytes} (h : Taken item) (ports : List ℤ) :
    addRange ports item =
      if maxSockets < (ports ++ portsOf item).length then .error (ascii "Too many ports defined")
      else .ok (ports ++ portsOf item) := by
  obtain ⟨hmin, hle, hmax⟩ := h
  have hstart := isValidPort_eq_ok.mpr ⟨hmin, hle.trans hmax⟩
  have hstop := isValidPort_eq_ok.mpr ⟨hmin.trans hle, hmax⟩
  have hsome : (ports ++ portsOf item).length ≠ 0 := by
    rw [List.length_append, portsOf, length_portRange]
    omega
  unfold addRange
  simp only [hstart, hstop, bind, Except.bind]
  rw [if_pos hle]
  change (if maxSockets < (ports ++ portsOf item).length then _ else
    if (ports ++ portsOf item).length = 0 then _ else _) = _
  rw [if_neg hsome]
  rfl

/-- **The body of the loop** refuses the item, or adds its ports.
Source: `clientsession.cc`, `ClientSessionList::ClientSessionList`
Kind: L -/
theorem addRange_eq_ok {ports ports' : List ℤ} {item : Bytes} :
    addRange ports item = .ok ports' ↔
      Taken item ∧ (ports ++ portsOf item).length ≤ maxSockets ∧
        ports' = ports ++ portsOf item := by
  by_cases htaken : Taken item
  · rw [addRange_of_taken htaken]
    split_ifs with hmany
    · refine iff_of_false (fun h => by cases h) ?_
      rintro ⟨-, hlen, -⟩
      omega
    · rw [Except.ok.injEq]
      constructor
      · rintro rfl
        exact ⟨htaken, Nat.le_of_not_lt hmany, rfl⟩
      · rintro ⟨-, -, rfl⟩
        rfl
  · obtain ⟨message, herror⟩ := addRange_of_not_taken htaken ports
    rw [herror]
    exact iff_of_false (fun h => by cases h) fun h => htaken h.1

/-- **The loop folds its body over the tokens.**
Source: `clientsession.cc`, `ClientSessionList::ClientSessionList`
Kind: L -/
theorem readRanges_eq (array : Bytes) (ports : List ℤ) :
    readRanges array ports =
      match (tokens 44 array).1.foldlM addRange ports with
      | .error message => .exits message
      | .ok ports => if (tokens 44 array).2 then .returns ports else .undefined := by
  induction hn : array.length using Nat.strong_induction_on generalizing array ports with
  | _ n ih =>
      rw [readRanges]
      split
      · rename_i h
        rw [tokens_of_null h]
        rfl
      · rename_i h
        rw [tokens_of_beyond h]
        rfl
      · rename_i curRange rest h
        rw [tokens_of_token h, List.foldlM_cons]
        cases hadd : addRange ports curRange with
        | error message => rfl
        | ok ports' =>
            have hshort := length_of_strtok h
            exact ih rest.length (by omega) rest ports' rfl

/-- The fold succeeds if every item is taken and they are not too many.
Source: `clientsession.cc`, `ClientSessionList::ClientSessionList`
Kind: L -/
theorem foldlM_addRange {items : List Bytes} {ports : List ℤ} (hports : ports.length ≤ maxSockets)
    {ports' : List ℤ} :
    items.foldlM addRange ports = .ok ports' ↔
      (∀ item ∈ items, Taken item) ∧ (ports ++ items.flatMap portsOf).length ≤ maxSockets ∧
        ports' = ports ++ items.flatMap portsOf := by
  induction items generalizing ports with
  | nil =>
      simp only [List.foldlM_nil, pure, Except.pure, Except.ok.injEq, List.not_mem_nil,
        false_implies, implies_true, List.flatMap_nil, List.append_nil, hports, true_and]
      exact eq_comm
  | cons item items ih =>
      rw [List.foldlM_cons, List.flatMap_cons, ← List.append_assoc]
      cases hadd : addRange ports item with
      | error message =>
          have hnot : ¬(Taken item ∧ (ports ++ portsOf item).length ≤ maxSockets) := by
            rintro ⟨htaken, hlen⟩
            rw [addRange_eq_ok.mpr ⟨htaken, hlen, rfl⟩] at hadd
            cases hadd
          constructor
          · intro h
            cases h
          · rintro ⟨htaken, hlen, -⟩
            refine absurd ⟨htaken item List.mem_cons_self, ?_⟩ hnot
            rw [List.length_append] at hlen
            omega
      | ok ports'' =>
          obtain ⟨htaken, hlen, rfl⟩ := addRange_eq_ok.mp hadd
          change List.foldlM addRange (ports ++ portsOf item) items = _ ↔ _
          rw [ih hlen, List.forall_mem_cons]
          simp only [htaken, true_and]

section Descriptor

variable {srcPorts : Bytes} (hchars : ∀ b ∈ srcPorts, b ∈ portBytes)

include hchars

theorem ne_zero_of_portBytes : ∀ b ∈ srcPorts, b ≠ 0 := by
  rintro b hb rfl
  exact absurd (hchars 0 hb) (by decide)

/-- The tokens in the array are the items that are read.
Source: `clientsession.cc`, `ClientSessionList::ClientSessionList`
Kind: L -/
theorem tokens_srcPorts :
    tokens 44 (strncpy 1000 srcPorts) = (itemsRead srcPorts, decide (srcPorts.length < 1000)) := by
  have hzero := ne_zero_of_portBytes hchars
  unfold itemsRead
  by_cases hlen : srcPorts.length < 1000
  · obtain ⟨padding, hcopy⟩ := strncpy_of_lt hzero hlen
    rw [if_pos hlen, hcopy, tokens_terminated (by decide) padding srcPorts hzero,
      decide_eq_true hlen]
  · rw [if_neg hlen, strncpy_of_le hzero (by omega),
      tokens_unterminated (by decide) _ fun b hb => hzero b (List.mem_of_mem_take hb),
      decide_eq_false hlen]

/-- **What the constructor makes of a descriptor**: it ends the program unless items are accepted.
Source: `clientsession.cc`, `ClientSessionList::ClientSessionList`
Kind: P -/
theorem readPorts_cases :
    (¬Accepted srcPorts ∧ ∃ message, readPorts srcPorts = .exits message) ∨
      (Accepted srcPorts ∧ 1000 ≤ srcPorts.length ∧ readPorts srcPorts = .undefined) ∨
      (Accepted srcPorts ∧ srcPorts.length < 1000 ∧
        readPorts srcPorts = .returns ((itemsRead srcPorts).flatMap portsOf)) := by
  have hall : (srcPorts.all (· ∈ portBytes)) = true := by
    rw [List.all_eq_true]
    exact fun b hb => decide_eq_true (hchars b hb)
  have hfold := @foldlM_addRange (itemsRead srcPorts) [] (Nat.zero_le _)
  rw [List.nil_append] at hfold
  unfold readPorts
  rw [if_pos hall, readRanges_eq, tokens_srcPorts hchars]
  dsimp only
  cases hrun : (itemsRead srcPorts).foldlM addRange [] with
  | error message =>
      refine .inl ⟨?_, message, rfl⟩
      rintro ⟨htaken, hlen⟩
      rw [hfold.mpr ⟨htaken, hlen, rfl⟩] at hrun
      cases hrun
  | ok ports =>
      obtain ⟨htaken, hlen, rfl⟩ := hfold.mp hrun
      by_cases hshort : srcPorts.length < 1000
      · exact .inr (.inr ⟨⟨htaken, hlen⟩, hshort, by simp [hshort]⟩)
      · exact .inr (.inl ⟨⟨htaken, hlen⟩, by omega, by simp [hshort]⟩)

end Descriptor

/-! ## Numerals and items -/

theorem isDigit_iff {b : UInt8} : isDigit b = true ↔ 48 ≤ b.toNat ∧ b.toNat ≤ 57 := by
  simp [isDigit, UInt8.le_iff_toNat_le]

/-- Digits denote the same number for `atoi`. Source: `atoi`. Kind: L -/
theorem foldl_digits (s : Bytes) (hs : ∀ b ∈ s, isDigit b = true) (n : ℕ) :
    s.foldl (fun n b => 10 * n + ((b.toNat : ℤ) - 48)) (n : ℤ) =
      (s.foldl (fun n b => 10 * n + (b.toNat - 48)) n : ℕ) := by
  induction s generalizing n with
  | nil => rfl
  | cons b s ih =>
      have hb := isDigit_iff.mp (hs b List.mem_cons_self)
      have hstep : 10 * (n : ℤ) + ((b.toNat : ℤ) - 48) = ((10 * n + (b.toNat - 48) : ℕ) : ℤ) := by
        omega
      rw [List.foldl_cons, List.foldl_cons, hstep]
      exact ih (fun c hc => hs c (List.mem_cons_of_mem b hc)) _

/-- What `atoi` makes of digits. Source: `atoi`. Kind: L -/
theorem atoi_digits {s : Bytes} (hs : ∀ b ∈ s, isDigit b = true) :
    atoi s = cInt (min (2 ^ 63 - 1) (value s)) := by
  have hspace : s.dropWhile isSpace = s := by
    rcases s with _ | ⟨b, s⟩
    · rfl
    · have hb := isDigit_iff.mp (hs b List.mem_cons_self)
      apply List.dropWhile_cons_of_neg
      simp only [isSpace, UInt8.le_iff_toNat_le, ← UInt8.toNat_inj, Bool.or_eq_true,
        Bool.and_eq_true, decide_eq_true_eq]
      have h9 : (9 : UInt8).toNat = 9 := rfl
      have h13 : (13 : UInt8).toNat = 13 := rfl
      have h32 : (32 : UInt8).toNat = 32 := rfl
      omega
  have htake : s.takeWhile isDigit = s := List.takeWhile_eq_self_iff.mpr hs
  have hnonneg : (-2 ^ 63 : ℤ) ≤ min (2 ^ 63 - 1) (value s : ℤ) := by omega
  have hfold := foldl_digits s hs 0
  unfold atoi
  rw [hspace]
  dsimp only
  split
  · exact absurd (hs 45 List.mem_cons_self) (by decide)
  · exact absurd (hs 43 List.mem_cons_self) (by decide)
  · rw [if_neg Bool.false_ne_true, htake, ← Nat.cast_zero, hfold]
    exact congrArg cInt (max_eq_right hnonneg)

/-- A number that an `int` tells from the others. Source: `atoi`. Kind: L -/
theorem atoi_eq_value {s : Bytes} (hs : ∀ b ∈ s, isDigit b = true) (hlt : value s < 2 ^ 32)
    (hnonneg : 0 ≤ atoi s) : atoi s = value s := by
  have hatoi := atoi_digits hs
  have hmin : min (2 ^ 63 - 1) (value s : ℤ) = value s := by omega
  rw [hmin] at hatoi
  have hmod := cInt_emod (value s)
  have hrange : atoi s < 2 ^ 31 := by
    have hlt := @Int.bmod_lt (value s) (2 ^ 32) (by decide)
    rw [hatoi]
    unfold cInt
    omega
  rw [← hatoi] at hmod
  omega

theorem bounds_of_notMem {item : Bytes} (h : 45 ∉ item) :
    bounds item = (atoi item, atoi item) := by
  have hall : ∀ b ∈ item, decide (b ≠ 45) = true := fun b hb =>
    decide_eq_true fun heq => h (heq ▸ hb)
  unfold bounds
  rw [List.takeWhile_eq_self_iff.mpr hall, List.dropWhile_eq_nil_iff.mpr hall]

theorem bounds_range {p : Bytes} (h : 45 ∉ p) (q : Bytes) :
    bounds (p ++ 45 :: q) = (atoi p, atoi q) := by
  have hall : ∀ b ∈ p, decide (b ≠ 45) = true := fun b hb =>
    decide_eq_true fun heq => h (heq ▸ hb)
  unfold bounds
  rw [List.takeWhile_append_of_pos hall, List.dropWhile_append_of_pos hall,
    List.takeWhile_cons_of_neg (by simp), List.dropWhile_cons_of_neg (by simp), List.append_nil]

theorem Numeral.notMem {s : Bytes} (hs : Numeral s) {b : UInt8} (hb : isDigit b = false) :
    b ∉ s := by
  intro hmem
  rw [hs.2 b hmem] at hb
  cases hb

theorem atoi_nil : atoi [] = 0 := by decide

theorem Numeral.atoi_eq {s : Bytes} (hs : Numeral s) (hlt : value s ≤ maxPort) :
    atoi s = value s := by
  unfold maxPort at hlt
  have hmin : min (2 ^ 63 - 1) (value s : ℤ) = value s := by omega
  rw [atoi_digits hs.2, hmin]
  exact cInt_of_range (by omega) (by omega)

/-- A port range of one port. Source: none: infrastructure. Kind: L -/
theorem portRange_self (port : ℤ) : portRange port port = [port] := by
  simp [portRange]

/-- **An item is read as it is meant.** Source: `README.md`, source port descriptor. Kind: L -/
theorem Item.spec {item : Bytes} {ports : List ℤ} (h : Item item ports) :
    item ≠ [] ∧ 44 ∉ item ∧ Plain item ∧ ports = portsOf item ∧ ports ≠ [] := by
  cases h with
  | port hp hmin hmax =>
      have hdash := hp.notMem (show isDigit 45 = false by decide)
      have hatoi := hp.atoi_eq hmax
      refine ⟨hp.1, hp.notMem (by decide), ⟨?_, ?_⟩, ?_, List.cons_ne_nil _ _⟩
      · rw [List.count_eq_zero.mpr hdash]
        exact Nat.zero_le 1
      · rw [split_of_notMem hdash]
        simp only [List.mem_singleton, forall_eq]
        unfold maxPort at hmax
        omega
      · rw [portsOf, bounds_of_notMem hdash, hatoi, portRange_self]
  | @range p q hp hq hmin hle hmax =>
      have hdash := hp.notMem (show isDigit 45 = false by decide)
      have hdash' := hq.notMem (show isDigit 45 = false by decide)
      have hcomma := hp.notMem (show isDigit 44 = false by decide)
      have hcomma' := hq.notMem (show isDigit 44 = false by decide)
      refine ⟨by simp, by simp [hcomma, hcomma'], ⟨?_, ?_⟩, ?_, ?_⟩
      · rw [List.count_append, List.count_cons_self, List.count_eq_zero.mpr hdash,
          List.count_eq_zero.mpr hdash']
      · rw [split_append_sep hdash, split_of_notMem hdash']
        unfold maxPort at hmax
        intro number hnumber
        simp only [List.mem_cons, List.not_mem_nil, or_false] at hnumber
        rcases hnumber with rfl | rfl
        · omega
        · omega
      · rw [portsOf, bounds_range hdash, hp.atoi_eq (by omega), hq.atoi_eq hmax]
      · apply List.ne_nil_of_length_pos
        rw [length_portRange]
        omega

/-- **A plain item that is taken is an item.** Source: `README.md`, source port descriptor.
Kind: L -/
theorem item_of_taken {item : Bytes} (hchars : ∀ b ∈ item, isDigit b = true ∨ b = 45)
    (htaken : Taken item) (hplain : Plain item) : Item item (portsOf item) := by
  obtain ⟨hmin, hle, hmax⟩ := htaken
  obtain ⟨hcount, hvalue⟩ := hplain
  have hnumeral {p : Bytes} (hp : ∀ b ∈ p, b ∈ item) (hdash : 45 ∉ p) (hlt : value p < 2 ^ 32)
      (hpos : (minPort : ℤ) ≤ atoi p) : Numeral p ∧ atoi p = value p := by
    have hdigits : ∀ b ∈ p, isDigit b = true := fun b hb =>
      (hchars b (hp b hb)).resolve_right fun h => hdash (h ▸ hb)
    have hone : (1 : ℤ) ≤ minPort := by decide
    refine ⟨⟨?_, hdigits⟩, atoi_eq_value hdigits hlt (by omega)⟩
    rintro rfl
    rw [atoi_nil] at hpos
    omega
  rcases split_cases 45 item with hdash | ⟨p, q, hdash, rfl⟩
  · rw [split_of_notMem hdash] at hvalue
    rw [bounds_of_notMem hdash] at hmin hle hmax
    obtain ⟨hp, hatoi⟩ := hnumeral (fun b hb => hb) hdash (hvalue item (by simp)) hmin
    rw [portsOf, bounds_of_notMem hdash, hatoi, portRange_self]
    exact .port hp (by omega) (by omega)
  · rw [split_append_sep hdash] at hvalue
    rw [bounds_range hdash] at hmin hle hmax
    have hdash' : 45 ∉ q := by
      rw [List.count_append, List.count_cons_self, List.count_eq_zero.mpr hdash] at hcount
      exact List.count_eq_zero.mp (by omega)
    rw [split_of_notMem hdash'] at hvalue
    obtain ⟨hp, hatoi⟩ := hnumeral (fun b hb => by simp [hb]) hdash (hvalue p (by simp)) hmin
    obtain ⟨hq, hatoi'⟩ := hnumeral (fun b hb => by simp [hb]) hdash' (hvalue q (by simp))
      (hmin.trans hle)
    dsimp only at hmin hle hmax
    rw [portsOf, bounds_range hdash, hatoi, hatoi']
    exact .range hp hq (by omega) (by omega) (by omega)

/-! ## Descriptors -/

/-- **A descriptor is its items**, the pieces between the commas.
Source: `README.md`, source port descriptor
Kind: L -/
theorem Denotes.items {s : Bytes} {ports : List ℤ} (h : Denotes s ports) :
    (∀ item ∈ split 44 s, item ≠ [] ∧ Plain item) ∧ ports = (split 44 s).flatMap portsOf ∧
      ports ≠ [] := by
  induction h with
  | item hs =>
      obtain ⟨hne, hcomma, hplain, hports, hsome⟩ := hs.spec
      rw [split_of_notMem hcomma]
      refine ⟨?_, ?_, hsome⟩
      · simpa using ⟨hne, hplain⟩
      · simpa using hports
  | cons hs _ ih =>
      obtain ⟨hne, hcomma, hplain, hports, hsome⟩ := hs.spec
      obtain ⟨hitems, hports', -⟩ := ih
      rw [split_append_sep hcomma]
      refine ⟨?_, ?_, by simp [hsome]⟩
      · rw [List.forall_mem_cons]
        exact ⟨⟨hne, hplain⟩, hitems⟩
      · rw [List.flatMap_cons, ← hports, ← hports']

/-- Items between commas are a descriptor. Source: `README.md`, source port descriptor. Kind: L -/
theorem denotes_of_items :
    ∀ s : Bytes, (∀ item ∈ split 44 s, Item item (portsOf item)) →
      Denotes s ((split 44 s).flatMap portsOf) := by
  intro s
  induction hn : s.length using Nat.strong_induction_on generalizing s with
  | _ n ih =>
      intro hs
      rcases split_cases 44 s with hcomma | ⟨item, rest, hcomma, rfl⟩
      · rw [split_of_notMem hcomma] at hs ⊢
        simpa using Denotes.item (hs s (by simp))
      · rw [split_append_sep hcomma] at hs ⊢
        have hrest := ih rest.length (by rw [← hn]; simp; omega) rest rfl fun item' hmem =>
          hs item' (List.mem_cons_of_mem item hmem)
        exact .cons (hs item List.mem_cons_self) hrest

/-- **Which accepted texts are descriptors.** Source: `README.md`, source port descriptor.
Kind: P -/
theorem denotes_iff {srcPorts : Bytes} (hchars : ∀ b ∈ srcPorts, b ∈ portBytes)
    (haccepted : Accepted srcPorts) (hlen : srcPorts.length < 1000) :
    Denotes srcPorts ((itemsRead srcPorts).flatMap portsOf) ↔
      ∀ item ∈ split 44 srcPorts, item ≠ [] ∧ Plain item := by
  constructor
  · exact fun h => h.items.1
  · intro hitems
    have hread : itemsRead srcPorts = split 44 srcPorts := by
      unfold itemsRead
      rw [if_pos hlen, List.filter_eq_self]
      exact fun item hitem => decide_eq_true (hitems item hitem).1
    have htaken := haccepted.1
    rw [hread] at htaken ⊢
    apply denotes_of_items
    intro item hitem
    apply item_of_taken _ (htaken item hitem) (hitems item hitem).2
    intro b hb
    obtain ⟨hmem, hcomma⟩ := mem_of_mem_split srcPorts hitem hb
    have hbyte : b = 44 ∨ isDigit b = true ∨ b = 45 := by
      have hall : portBytes.all (fun b => b = 44 ∨ isDigit b = true ∨ b = 45) = true := by decide
      exact of_decide_eq_true (List.all_eq_true.mp hall b (hchars b hmem))
    exact hbyte.resolve_left hcomma

/-! ## The list of sessions -/

/-- The iterator stays within the list.
Source: `clientsession.cc`, `ClientSessionList::getNextSession`
Kind: L -/
theorem getNextSession_within {l : ClientSessionList} (h : l.curSession < l.sessions.length) :
    ∀ k, ((fun l => l.getNextSession.2)^[k] l).sessions = l.sessions ∧
      ((fun l => l.getNextSession.2)^[k] l).curSession < l.sessions.length := by
  intro k
  induction k with
  | zero => exact ⟨rfl, h⟩
  | succ k ih =>
      rw [Function.iterate_succ_apply']
      generalize (fun l => l.getNextSession.2)^[k] l = l' at ih ⊢
      obtain ⟨hsame, hcur⟩ := ih
      refine ⟨hsame, ?_⟩
      unfold ClientSessionList.getNextSession
      dsimp only
      rw [hsame]
      split_ifs
      · omega
      · omega

/-- What is returned is parsed exactly if the ports are those that the text denotes.
Source: `clientsession.cc`, `ClientSessionList::ClientSessionList`
Kind: L -/
theorem parsedExactly_create (A : Abi) (parent : Parent) (macs : List Mac) (fresh : ℕ → Fresh)
    {srcPorts : Bytes} {ports : List ℤ} (hlen : ports.length ≤ maxSockets) :
    ParsedExactly srcPorts (.returns (.create A parent ports macs fresh)) ↔
      Denotes srcPorts ports := by
  have hports : (ClientSessionList.create A parent ports macs fresh).sessions.map
      ClientSession.port = ports := by
    apply List.ext_getElem
    · simp [ClientSessionList.create]
    · intro i hi hi'
      simp [ClientSessionList.create, ClientSession.create, ClientSession.reset]
  have hcount : (ClientSessionList.create A parent ports macs fresh).sessions.length =
      ports.length := by simp [ClientSessionList.create]
  unfold ParsedExactly
  dsimp only
  rw [hports, hcount]
  constructor
  · exact fun h => h.2.2.1
  · intro h
    have hpos : 0 < ports.length := List.length_pos_iff.mpr h.items.2.2
    refine ⟨List.ne_nil_of_length_pos (by omega), hlen, h, fun k => ?_⟩
    have hwithin := @getNextSession_within (.create A parent ports macs fresh)
      (by rw [hcount]; exact hpos) k
    generalize (fun l => l.getNextSession.2)^[k]
      (ClientSessionList.create A parent ports macs fresh) = l at hwithin ⊢
    exact ⟨_, List.getElem?_eq_getElem hwithin.2⟩

/-- **Which descriptors are parsed exactly**, of those that pass the check of the characters: those
that are refused, and of those that fit into the array the ones without an empty item, without a
second dash in an item and without a number that an `int` takes for a smaller one.
Source: `clientsession.cc`, `ClientSessionList::ClientSessionList`
Kind: P -/
theorem parsedExactly_iff (A : Abi) (parent : Parent) (macs : List Mac) (fresh : ℕ → Fresh)
    {srcPorts : Bytes} (hchars : ∀ b ∈ srcPorts, b ∈ portBytes) :
    ParsedExactly srcPorts (ClientSessionList.construct A parent srcPorts macs fresh) ↔
      ¬Accepted srcPorts ∨
        (srcPorts.length < 1000 ∧ ∀ item ∈ split 44 srcPorts, item ≠ [] ∧ Plain item) := by
  unfold ClientSessionList.construct
  rcases readPorts_cases hchars with ⟨hnot, message, hread⟩ | ⟨haccepted, hlen, hread⟩ |
    ⟨haccepted, hlen, hread⟩
  · rw [hread]
    exact iff_of_true trivial (.inl hnot)
  · rw [hread]
    refine iff_of_false id ?_
    rintro (hnot | ⟨hlt, -⟩)
    · exact hnot haccepted
    · omega
  · rw [hread]
    refine (parsedExactly_create A parent macs fresh haccepted.2).trans
      ((denotes_iff hchars haccepted hlen).trans ?_)
    constructor
    · exact fun h => .inr ⟨hlen, h⟩
    · rintro (hnot | ⟨-, h⟩)
      · exact absurd haccepted hnot
      · exact h

/-- A session's surroundings for examples. Source: `clientsession.cc`, `ClientSession`. Kind: D -/
def exampleFresh : ℕ → Fresh := fun _ => ⟨fun _ => 0, 0, fun _ => 0⟩

/-- A port and a range. Source: `README.md`, source port descriptor. Kind: P -/
theorem parsedExactly_port_and_range :
    ParsedExactly (ascii "5000-5001,5005")
      (ClientSessionList.construct (lp64 .little) exampleParent (ascii "5000-5001,5005") []
        exampleFresh) :=
  have hall : (ascii "5000-5001,5005").all (· ∈ portBytes) = true := by decide
  (parsedExactly_iff (lp64 .little) exampleParent [] exampleFresh fun b hb =>
    of_decide_eq_true (List.all_eq_true.mp hall b hb)).mpr (.inr ⟨by decide, by decide⟩)

/-- A comma: the test for a list without sessions stands in the loop, which has no round.
Source: `clientsession.cc`, `ClientSessionList::ClientSessionList`
Kind: P -/
theorem only_a_comma :
    ¬ParsedExactly (ascii ",")
      (ClientSessionList.construct (lp64 .little) exampleParent (ascii ",") [] exampleFresh) := by
  have hchars : ∀ b ∈ ascii ",", b ∈ portBytes := by
    intro b hb
    have hcomma : b = 44 := by simpa [ascii, byteOf] using hb
    rw [hcomma]
    decide
  have hitems : itemsRead (ascii ",") = [] := by decide
  unfold ClientSessionList.construct
  rcases readPorts_cases hchars with ⟨hnot, -⟩ | ⟨-, hlen, -⟩ | ⟨-, -, hread⟩
  · exact absurd (by decide) hnot
  · exact absurd hlen (by decide)
  · rw [hread, hitems]
    exact fun h => h.1 rfl

end UDPing.Client
