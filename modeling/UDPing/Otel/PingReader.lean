import UDPing.Lib.EventMachine
import UDPing.Otel.PingProgram

/-!
# The two ping programs

* `callback` (`ping_otelsender.go`) exports the counts, `dump` (`ping_reader.go`) prints and resets
  them. Their scanner loops are the same text, `PingState.scan`.
* `program`: lines and ticks in any order, with what each line came to and what each tick showed.
* `shift`: a state with other counts. `scan_shift`: the loop does not read them.
* **`reader_agrees`**: after every run each line came to the same in both programs, and the reader's
  counts are the differences of those that the sender exports.
-/

namespace UDPing.Otel

open Lib

/-! ## Ticks -/

/-- What a tick shows. Source: `ping_otelsender.go`, `main`; `ping_reader.go`, `main`. Kind: D -/
structure Shown (F : Type) where
  targetCount : ℤ
  dropCount : ℤ
  rtt : F
  deriving DecidableEq

namespace PingState

variable {F : Type} [Zero F] [Div F] [IntCast F]

/-- The mean of the times since the last tick. Source: `ping_otelsender.go`, `main`. Kind: D -/
def rtt (s : PingState F) : F := if 0 < s.rttCount then s.rttSum / (s.rttCount : F) else 0

/-- The export callback. Source: `ping_otelsender.go`, `main`. Kind: D -/
def callback (s : PingState F) : Shown F × PingState F :=
  (⟨s.targetCount, s.dropCount, s.rtt⟩, { s with rttSum := 0, rttCount := 0 })

/-- A round of the loop of `dump`. Source: `ping_reader.go`, `main`. Kind: D -/
def dump (s : PingState F) : Shown F × PingState F :=
  (⟨s.targetCount, s.dropCount, s.rtt⟩,
    { s with rttSum := 0, rttCount := 0, dropCount := 0, targetCount := 0 })

end PingState

/-! ## Programs -/

/-- What happens to a program. The mutex makes a tick fall between the counting of two lines.
Source: `ping_otelsender.go`, `main`; `ping_reader.go`, `main`
Kind: D -/
inductive PingEvent where
  | line (buf : Bytes)
  | tick
  deriving DecidableEq

/-- A program: its variables, unless it has panicked, what each line came to (the lines printed;
`none`: a panic), and what each tick showed.
Source: `ping_otelsender.go`, `main`; `ping_reader.go`, `main`
Kind: D -/
structure PingProgram (F : Type) where
  state : Option (PingState F)
  outcomes : List (Option (List Bytes))
  shown : List (Shown F)

section Programs

variable {F : Type} [Zero F] [Add F]

/-- A line is read. Source: `ping_otelsender.go`, `main`; `ping_reader.go`, `main`. Kind: D -/
def PingProgram.readLine (parseFloat : Bytes → Option F) (p : PingProgram F) (buf : Bytes) :
    PingProgram F :=
  match p.state with
  | none => p
  | some s =>
    match s.scan parseFloat buf with
    | none => { p with state := none, outcomes := p.outcomes ++ [none] }
    | some (s, printed) => { p with state := some s, outcomes := p.outcomes ++ [some printed] }

/-- A tick. Source: `ping_otelsender.go`, `main`; `ping_reader.go`, `main`. Kind: D -/
def PingProgram.onTick (tick : PingState F → Shown F × PingState F) (p : PingProgram F) :
    PingProgram F :=
  match p.state with
  | none => p
  | some s => { p with state := some (tick s).2, shown := p.shown ++ [(tick s).1] }

/-- A program from its start on. Source: `ping_otelsender.go`, `main`; `ping_reader.go`, `main`.
Kind: D -/
def program (parseFloat : Bytes → Option F) (tick : PingState F → Shown F × PingState F) :
    EventMachine (PingProgram F) PingEvent where
  init := ⟨some (.start F), [], []⟩
  step p
    | .line buf => p.readLine parseFloat buf
    | .tick => p.onTick tick

variable [Div F] [IntCast F] (parseFloat : Bytes → Option F)

/-- Source: `ping_otelsender.go`, `main`. Kind: D -/
def pingOtelsender : EventMachine (PingProgram F) PingEvent := program parseFloat PingState.callback

/-- Source: `ping_reader.go`, `main`. Kind: D -/
def pingReader : EventMachine (PingProgram F) PingEvent := program parseFloat PingState.dump

end Programs

/-! ## Other counts -/

namespace PingState

variable {F : Type}

/-- The state with counts that are larger by `targets` and `drops`.
Source: none: infrastructure
Kind: D -/
def shift (s : PingState F) (targets drops : ℤ) : PingState F :=
  { s with targetCount := s.targetCount + targets, dropCount := s.dropCount + drops }

variable (s : PingState F) (targets drops : ℤ) (icmpSeq : ℤ)

theorem newSequence_shift :
    (s.shift targets drops).newSequence icmpSeq = (s.newSequence icmpSeq).shift targets drops := by
  have hnew : (s.shift targets drops).IsNew icmpSeq ↔ s.IsNew icmpSeq := Iff.rfl
  unfold newSequence
  rw [if_congr hnew rfl rfl]
  split_ifs <;> rfl

theorem countMiss_shift :
    (s.shift targets drops).countMiss icmpSeq = (s.countMiss icmpSeq).shift targets drops := by
  unfold countMiss
  by_cases hzero : s.ringBuf icmpSeq = 0
  · rw [if_pos hzero, if_pos (show (s.shift targets drops).ringBuf icmpSeq = 0 from hzero)]
    simp only [shift, PingState.mk.injEq, and_true]
    constructor
    · omega
    · omega
  · rw [if_neg hzero, if_neg (show ¬(s.shift targets drops).ringBuf icmpSeq = 0 from hzero)]

variable [Add F]

theorem countReply_shift (rtt : F) :
    (s.shift targets drops).countReply icmpSeq rtt =
      (s.countReply icmpSeq rtt).shift targets drops := by
  unfold countReply
  dsimp only
  by_cases hzero : s.ringBuf icmpSeq = 0
  · rw [if_pos hzero, if_pos (show (s.shift targets drops).ringBuf icmpSeq = 0 from hzero)]
    simp only [shift, PingState.mk.injEq, and_true]
    omega
  · rw [if_neg hzero, if_neg (show ¬(s.shift targets drops).ringBuf icmpSeq = 0 from hzero)]
    simp only [shift, PingState.mk.injEq, and_true, true_and]
    omega

/-- **The loop does not read the counts.** Source: `ping_otelsender.go`, `main`. Kind: P -/
theorem scan_shift (parseFloat : Bytes → Option F) (buf : Bytes) :
    (s.shift targets drops).scan parseFloat buf =
      (s.scan parseFloat buf).map fun r => (r.1.shift targets drops, r.2) := by
  rw [scan_eq, scan_eq]
  cases indexOf buf with
  | none => rfl
  | some icmpSeq =>
      have hnew : (s.shift targets drops).IsNew icmpSeq ↔ s.IsNew icmpSeq := Iff.rfl
      cases statusOf parseFloat buf with
      | miss =>
          simp only [act, newSequence_shift, countMiss_shift]
          split_ifs <;> rfl
      | reply rtt =>
          cases rtt with
          | none => rfl
          | some rtt =>
              simp only [act, newSequence_shift, countReply_shift]
              split_ifs <;> rfl
      | unknown =>
          simp only [act, newSequence_shift, hnew]
          split_ifs <;> rfl

end PingState

/-! ## Agreement -/

section Agreement

variable {F : Type} [Zero F] [Add F] [Div F] [IntCast F] {parseFloat : Bytes → Option F}

/-- The counts that were exported at tick `j - 1`; zero before the first.
Source: none: specification
Kind: D -/
def exportedBefore (shown : List (Shown F)) : ℕ → ℤ × ℤ
  | 0 => (0, 0)
  | j + 1 =>
      match shown[j]? with
      | some r => (r.targetCount, r.dropCount)
      | none => (0, 0)

/-- The programs agree: every line came to the same; at every tick the reader showed the differences
between the exports of the sender there and at the tick before, and the same time; and the reader's
variables are the sender's but for the counts, which lack what has been exported.
Source: none: specification
Kind: D -/
structure Agree (sender reader : PingProgram F) : Prop where
  outcomes : sender.outcomes = reader.outcomes
  ticks : sender.shown.length = reader.shown.length
  shown : ∀ j r, sender.shown[j]? = some r →
    reader.shown[j]? =
      some (Shown.mk (r.targetCount - (exportedBefore sender.shown j).1)
        (r.dropCount - (exportedBefore sender.shown j).2) r.rtt)
  state : sender.state = reader.state.map fun s =>
    s.shift (exportedBefore sender.shown sender.shown.length).1
      (exportedBefore sender.shown sender.shown.length).2

omit [Zero F] [Add F] [Div F] [IntCast F] in
/-- The next tick does not change what came before. Source: none: infrastructure. Kind: L -/
theorem exportedBefore_concat (shown : List (Shown F)) (r : Shown F) {j : ℕ}
    (hj : j ≤ shown.length) : exportedBefore (shown ++ [r]) j = exportedBefore shown j := by
  cases j with
  | zero => rfl
  | succ j =>
      simp only [exportedBefore]
      rw [List.getElem?_append_left (by omega)]

omit [Zero F] [Add F] [Div F] [IntCast F] in
/-- What was exported last. Source: none: infrastructure. Kind: L -/
theorem exportedBefore_length (shown : List (Shown F)) (r : Shown F) :
    exportedBefore (shown ++ [r]) (shown ++ [r]).length = (r.targetCount, r.dropCount) := by
  rw [List.length_append, List.length_singleton]
  simp only [exportedBefore, List.getElem?_concat_length]

omit [Zero F] [Add F] [Div F] [IntCast F] in
/-- Both programs have stopped, or both run, the reader's counts lacking what has been exported.
Source: none: infrastructure
Kind: L -/
theorem Agree.running {sender reader : PingProgram F} (h : Agree sender reader) :
    (sender.state = none ∧ reader.state = none) ∨
      ∃ s, sender.state = some (s.shift (exportedBefore sender.shown sender.shown.length).1
        (exportedBefore sender.shown sender.shown.length).2) ∧ reader.state = some s := by
  have hstate := h.state
  cases hreader : reader.state with
  | none =>
      rw [hreader, Option.map_none] at hstate
      exact Or.inl ⟨hstate, rfl⟩
  | some s =>
      rw [hreader, Option.map_some] at hstate
      exact Or.inr ⟨s, hstate, rfl⟩

omit [Zero F] [Div F] [IntCast F] in
/-- **A line.** Source: `ping_otelsender.go`, `main`; `ping_reader.go`, `main`. Kind: L -/
theorem Agree.readLine {sender reader : PingProgram F} (h : Agree sender reader) (buf : Bytes) :
    Agree (sender.readLine parseFloat buf) (reader.readLine parseFloat buf) := by
  unfold PingProgram.readLine
  rcases h.running with ⟨hsender, hreader⟩ | ⟨s, hsender, hreader⟩
  · rw [hsender, hreader]
    exact h
  · rw [hsender, hreader]
    dsimp only
    rw [PingState.scan_shift]
    cases s.scan parseFloat buf with
    | none => exact ⟨congrArg (· ++ [none]) h.outcomes, h.ticks, h.shown, rfl⟩
    | some r => exact ⟨congrArg (· ++ [some r.2]) h.outcomes, h.ticks, h.shown, rfl⟩

omit [Add F] in
/-- **A tick.** Source: `ping_otelsender.go`, `main`; `ping_reader.go`, `main`. Kind: L -/
theorem Agree.onTick {sender reader : PingProgram F} (h : Agree sender reader) :
    Agree (sender.onTick PingState.callback) (reader.onTick PingState.dump) := by
  unfold PingProgram.onTick
  rcases h.running with ⟨hsender, hreader⟩ | ⟨s, hsender, hreader⟩
  · rw [hsender, hreader]
    exact h
  · rw [hsender, hreader]
    dsimp only
    generalize hbefore : exportedBefore sender.shown sender.shown.length = before at hsender ⊢
    refine ⟨h.outcomes, ?_, ?_, ?_⟩
    · simp [h.ticks]
    · intro j r hj
      rcases Nat.lt_or_ge j sender.shown.length with hlt | hge
      · rw [List.getElem?_append_left hlt] at hj
        rw [exportedBefore_concat _ _ hlt.le, List.getElem?_append_left (h.ticks ▸ hlt)]
        exact h.shown j r hj
      · have hlen : j < (sender.shown ++ [((s.shift before.1 before.2).callback).1]).length :=
          (List.getElem?_eq_some_iff.mp hj).1
        rw [List.length_append, List.length_singleton] at hlen
        obtain rfl : j = sender.shown.length := by omega
        rw [List.getElem?_concat_length] at hj
        rw [exportedBefore_concat _ _ le_rfl, hbefore, h.ticks, List.getElem?_concat_length]
        obtain rfl := Option.some.inj hj
        change some (Shown.mk s.targetCount s.dropCount s.rtt) =
          some (Shown.mk (s.targetCount + before.1 - before.1)
            (s.dropCount + before.2 - before.2) s.rtt)
        rw [add_sub_cancel_right, add_sub_cancel_right]
    · rw [exportedBefore_length]
      simp [PingState.callback, PingState.dump, PingState.shift]

/-- **The two programs agree** after every run of lines and ticks, both from their start on.
Source: `ping_reader.go`, `main`; `ping_otelsender.go`, `main`
Kind: P -/
theorem reader_agrees (parseFloat : Bytes → Option F) (es : List PingEvent) :
    Agree ((pingOtelsender parseFloat).run es) ((pingReader parseFloat).run es) := by
  induction es using List.reverseRecOn with
  | nil =>
      refine ⟨rfl, rfl, fun j r hj => ?_, ?_⟩
      · cases hj
      · simp [pingOtelsender, pingReader, program, PingState.shift, exportedBefore]
  | append_singleton es e ih =>
      rw [EventMachine.run_concat, EventMachine.run_concat]
      cases e with
      | line buf => exact ih.readLine buf
      | tick => exact ih.onTick

end Agreement

end UDPing.Otel
