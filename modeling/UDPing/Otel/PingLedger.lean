import UDPing.Otel.PingReader
import UDPing.Otel.PingRun
import Mathlib.Data.List.Infix

/-!
# The drop count of ping_otelsender

* `MissLedger`: the misses that were counted and have not been answered, and how many answers there
  were to misses that had been answered already.
* `Balanced`: the drop count is what the ledger says. `Balanced.readLine`: every line keeps it so.
* **`sane_iff`**: so the drop count stays between zero and the target count as long as the answers of
  the second kind are not more than the misses of the first.
* `AnsweredOnce`: no miss is answered twice, as the lines alone tell it. **`sane_of_answeredOnce`**:
  then the drop count stays sane.
-/

namespace UDPing.Otel

open Lib

/-! ## The ledger -/

/-- An account of the misses, each known by its place among the lines.
Source: none: specification
Kind: D -/
structure MissLedger where
  /-- How many lines were read. -/
  lines : ℕ
  /-- The miss that was counted last under an index. -/
  misses : ℤ → Option ℕ
  /-- The misses that were counted and not answered. -/
  unanswered : Finset ℕ
  /-- How many answers were to a miss that had an answer. -/
  repeated : ℕ

namespace MissLedger

/-- Source: none: specification. Kind: D -/
def empty : MissLedger where
  lines := 0
  misses := fun _ => none
  unanswered := ∅
  repeated := 0

/-- A miss is counted. Source: none: specification. Kind: D -/
def miss (g : MissLedger) (icmpSeq : ℤ) : MissLedger :=
  { g with
    misses := Function.update g.misses icmpSeq (some g.lines)
    unanswered := insert g.lines g.unanswered }

/-- An answer to the miss counted under an index. Source: none: specification. Kind: D -/
def answer (g : MissLedger) (icmpSeq : ℤ) : MissLedger :=
  match g.misses icmpSeq with
  | none => g
  | some k =>
    if k ∈ g.unanswered then { g with unanswered := g.unanswered.erase k }
    else { g with repeated := g.repeated + 1 }

theorem answer_lines (g : MissLedger) (icmpSeq : ℤ) : (g.answer icmpSeq).lines = g.lines := by
  unfold answer
  split
  · rfl
  · split_ifs <;> rfl

variable {F : Type}

/-- A line that the loop reads in the state `s`: a miss is counted if the ring has none under its
index, and answered if it has one.
Source: none: specification
Kind: D -/
def record (parseFloat : Bytes → Option F) (g : MissLedger) (s : PingState F) (buf : Bytes) :
    MissLedger :=
  let g' :=
    match indexOf buf with
    | none => g
    | some icmpSeq =>
      match statusOf parseFloat buf, decide ((s.newSequence icmpSeq).ringBuf icmpSeq = 0) with
      | .miss, true => g.miss icmpSeq
      | .reply _, false => g.answer icmpSeq
      | _, _ => g
  { g' with lines := g.lines + 1 }

/-- **What a line does to the loop and to the ledger.** Source: `ping_otelsender.go`, `main`. Kind: L -/
theorem record_cases [Add F] {parseFloat : Bytes → Option F} (g : MissLedger) {s s' : PingState F}
    {buf : Bytes} {printed : List Bytes} (hscan : s.scan parseFloat buf = some (s', printed)) :
    (indexOf buf = none ∧ s' = s ∧ g.record parseFloat s buf = { g with lines := g.lines + 1 }) ∨
      ∃ icmpSeq, indexOf buf = some icmpSeq ∧
        ((statusOf parseFloat buf = .miss ∧ s' = (s.newSequence icmpSeq).countMiss icmpSeq ∧
            g.record parseFloat s buf =
              { (if (s.newSequence icmpSeq).ringBuf icmpSeq = 0 then g.miss icmpSeq else g) with
                lines := g.lines + 1 }) ∨
          (∃ rtt, statusOf parseFloat buf = .reply (some rtt) ∧
            s' = (s.newSequence icmpSeq).countReply icmpSeq rtt ∧
            g.record parseFloat s buf =
              { (if (s.newSequence icmpSeq).ringBuf icmpSeq = 0 then g else g.answer icmpSeq) with
                lines := g.lines + 1 }) ∨
          (statusOf parseFloat buf = .unknown ∧ s' = s.newSequence icmpSeq ∧
            g.record parseFloat s buf = { g with lines := g.lines + 1 })) := by
  rw [PingState.scan_eq] at hscan
  unfold record
  cases hindex : indexOf buf with
  | none =>
      rw [hindex] at hscan
      exact Or.inl ⟨rfl, (Prod.mk.inj (Option.some.inj hscan)).1.symm, rfl⟩
  | some icmpSeq =>
      rw [hindex] at hscan
      refine Or.inr ⟨icmpSeq, rfl, ?_⟩
      dsimp only at hscan ⊢
      cases hstatus : statusOf parseFloat buf with
      | miss =>
          rw [hstatus] at hscan
          simp only [PingState.act] at hscan
          split_ifs at hscan
          refine Or.inl ⟨rfl, (Prod.mk.inj (Option.some.inj hscan)).1.symm, ?_⟩
          by_cases hzero : (s.newSequence icmpSeq).ringBuf icmpSeq = 0
          · simp only [hzero, decide_true, if_true]
          · simp only [hzero, decide_false, if_false]
      | reply rtt =>
          rw [hstatus] at hscan
          cases rtt with
          | none => cases hscan
          | some rtt =>
              simp only [PingState.act] at hscan
              split_ifs at hscan
              refine Or.inr (Or.inl ⟨rtt, rfl, (Prod.mk.inj (Option.some.inj hscan)).1.symm, ?_⟩)
              by_cases hzero : (s.newSequence icmpSeq).ringBuf icmpSeq = 0
              · simp only [hzero, decide_true, if_true]
              · simp only [hzero, decide_false, if_false]
      | unknown =>
          rw [hstatus] at hscan
          simp only [PingState.act] at hscan
          split_ifs at hscan
          exact Or.inr (Or.inr ⟨rfl, (Prod.mk.inj (Option.some.inj hscan)).1.symm, rfl⟩)

end MissLedger

section Runs

variable {F : Type} [Zero F] [Add F] [Div F] [IntCast F] (parseFloat : Bytes → Option F)

/-- The ledger after an event. Source: none: specification. Kind: D -/
def recordEvent (p : PingProgram F) (g : MissLedger) : PingEvent → MissLedger
  | .line buf => p.state.elim g fun s => g.record parseFloat s buf
  | .tick => g

/-- ping_otelsender with the ledger beside it. Source: none: specification. Kind: D -/
def audited : EventMachine (PingProgram F × MissLedger) PingEvent where
  init := ((pingOtelsender parseFloat).init, .empty)
  step st e := ((pingOtelsender parseFloat).step st.1 e, recordEvent parseFloat st.1 st.2 e)

/-- The ledger after a run. Source: none: specification. Kind: D -/
def ledger (es : List PingEvent) : MissLedger := ((audited parseFloat).run es).2

theorem audited_fst (es : List PingEvent) :
    ((audited parseFloat).run es).1 = (pingOtelsender parseFloat).run es := by
  induction es using List.reverseRecOn with
  | nil => rfl
  | append_singleton es e ih =>
      rw [EventMachine.run_concat, EventMachine.run_concat, ← ih]
      rfl

/-- A line without an answer or with one, for a sequence number below `32768`, or a callback.
Source: none: specification
Kind: D -/
def Counted : PingEvent → Prop
  | .line buf => ∃ n < 32768, Prints parseFloat (.miss n) buf ∨ Prints parseFloat (.reply n) buf
  | .tick => True

/-- The program runs, and its drop count lies between zero and its target count.
Source: none: specification
Kind: D -/
def Sane (p : PingProgram F) : Prop :=
  ∃ s, p.state = some s ∧ 0 ≤ s.dropCount ∧ s.dropCount ≤ s.targetCount

end Runs

/-! ## The balance -/

/-- A place that is marked is not counted again. Source: `ping_otelsender.go`, `main`. Kind: L -/
theorem countMiss_marked {F : Type} {s : PingState F} {icmpSeq : ℤ} (hmark : s.ringBuf icmpSeq ≠ 0) :
    s.countMiss icmpSeq = s :=
  if_neg hmark

/-- The counts agree with the ledger, and the ledger knows a miss for every index that the ring marks.
Source: none: specification
Kind: D -/
structure Balanced {F : Type} (s : PingState F) (g : MissLedger) : Prop where
  dropCount : s.dropCount = g.unanswered.card - g.repeated
  le_targetCount : s.dropCount ≤ s.targetCount
  placed : ∀ k ∈ g.unanswered, k < g.lines
  marked : ∀ i, s.ringBuf i ≠ 0 → ∃ k, g.misses i = some k

namespace Balanced

variable {F : Type} {s : PingState F} {g : MissLedger}

/-- A later line. Source: none: infrastructure. Kind: L -/
theorem lines (h : Balanced s g) : Balanced s { g with lines := g.lines + 1 } where
  dropCount := h.dropCount
  le_targetCount := h.le_targetCount
  placed k hk := Nat.lt_succ_of_lt (h.placed k hk)
  marked := h.marked

/-- A place that is reset is not marked. Source: `ping_otelsender.go`, `main`. Kind: L -/
theorem newSequence (h : Balanced s g) (icmpSeq : ℤ) : Balanced (s.newSequence icmpSeq) g := by
  unfold PingState.newSequence
  split_ifs with hnew
  · refine ⟨h.dropCount, h.le_targetCount, h.placed, fun i hi => ?_⟩
    by_cases heq : i = icmpSeq
    · rw [heq] at hi
      exact absurd (Function.update_self icmpSeq 0 s.ringBuf) hi
    · dsimp only at hi
      exact h.marked i (by rwa [Function.update_of_ne heq] at hi)
  · exact h

/-- **A miss that is counted.** Source: `ping_otelsender.go`, `main`. Kind: L -/
theorem miss (h : Balanced s g) {icmpSeq : ℤ} (hzero : s.ringBuf icmpSeq = 0) :
    Balanced (s.countMiss icmpSeq) { g.miss icmpSeq with lines := g.lines + 1 } := by
  have hnew : g.lines ∉ g.unanswered := fun hmem => absurd (h.placed _ hmem) (lt_irrefl _)
  have hdrop := h.dropCount
  have hle := h.le_targetCount
  unfold PingState.countMiss MissLedger.miss
  rw [if_pos hzero]
  refine ⟨?_, ?_, fun k hk => ?_, fun i hi => ?_⟩
  · dsimp only
    rw [Finset.card_insert_of_notMem hnew]
    omega
  · dsimp only
    omega
  · rcases Finset.mem_insert.mp hk with rfl | hold
    · exact Nat.lt_succ_self _
    · exact Nat.lt_succ_of_lt (h.placed k hold)
  · by_cases heq : i = icmpSeq
    · exact ⟨g.lines, by rw [heq]; exact Function.update_self icmpSeq _ g.misses⟩
    · obtain ⟨k, hk⟩ := h.marked i (by simpa [Function.update_of_ne heq] using hi)
      exact ⟨k, by simpa [Function.update_of_ne heq] using hk⟩

variable [Add F]

/-- An answer to a ping that had no line. Source: `ping_otelsender.go`, `main`. Kind: L -/
theorem first (h : Balanced s g) {icmpSeq : ℤ} (hzero : s.ringBuf icmpSeq = 0) (rtt : F) :
    Balanced (s.countReply icmpSeq rtt) g := by
  have hle := h.le_targetCount
  unfold PingState.countReply
  dsimp only
  rw [if_pos hzero]
  refine ⟨h.dropCount, ?_, h.placed, h.marked⟩
  dsimp only
  omega

/-- **An answer to a miss.** Source: `ping_otelsender.go`, `main`. Kind: L -/
theorem answer (h : Balanced s g) {icmpSeq : ℤ} (hmark : s.ringBuf icmpSeq ≠ 0) (rtt : F) :
    Balanced (s.countReply icmpSeq rtt) (g.answer icmpSeq) := by
  obtain ⟨k, hk⟩ := h.marked icmpSeq hmark
  have hdrop := h.dropCount
  have hle := h.le_targetCount
  unfold PingState.countReply MissLedger.answer
  dsimp only
  rw [if_neg hmark, hk]
  dsimp only
  split_ifs with hopen
  · have hcard := Finset.card_erase_add_one hopen
    refine ⟨?_, ?_, fun k' hk' => h.placed k' (Finset.mem_of_mem_erase hk'), h.marked⟩
    · dsimp only
      omega
    · dsimp only
      omega
  · refine ⟨?_, ?_, h.placed, h.marked⟩
    · dsimp only
      omega
    · dsimp only
      omega

/-- **One line keeps the balance.** Source: `ping_otelsender.go`, `main`. Kind: P -/
theorem scan (h : Balanced s g) {parseFloat : Bytes → Option F} {buf : Bytes} {s' : PingState F}
    {printed : List Bytes} (hscan : s.scan parseFloat buf = some (s', printed)) :
    Balanced s' (g.record parseFloat s buf) := by
  rcases MissLedger.record_cases g hscan with ⟨-, rfl, hrecord⟩ | ⟨icmpSeq, -, hline⟩
  · rw [hrecord]
    exact h.lines
  · have hreset := h.newSequence icmpSeq
    rcases hline with ⟨-, rfl, hrecord⟩ | ⟨rtt, -, rfl, hrecord⟩ | ⟨-, rfl, hrecord⟩
    · rw [hrecord]
      split_ifs with hzero
      · exact hreset.miss hzero
      · rw [countMiss_marked hzero]
        exact hreset.lines
    · rw [hrecord]
      split_ifs with hzero
      · exact (hreset.first hzero rtt).lines
      · have hanswer := (hreset.answer hzero rtt).lines
        rwa [MissLedger.answer_lines] at hanswer
    · rw [hrecord]
      exact hreset.lines

end Balanced

/-! ## Runs -/

section Runs

variable {F : Type} [Zero F] [Add F] [Div F] [IntCast F] {parseFloat : Bytes → Option F}

omit [Zero F] [Div F] [IntCast F] in
/-- A line of the kinds that are counted does not stop the loop.
Source: `ping_otelsender.go`, `main`
Kind: L -/
theorem scan_of_counted {buf : Bytes} (h : Counted parseFloat (.line buf)) (s : PingState F) :
    ∃ s' printed, s.scan parseFloat buf = some (s', printed) := by
  obtain ⟨n, -, hprints⟩ := h
  have hstep : ∃ s', s.step parseFloat buf = some s' := by
    rcases hprints with hmiss | hreply
    · exact ⟨_, step_miss hmiss s⟩
    · obtain ⟨rtt, hreply⟩ := step_reply hreply s
      exact ⟨_, hreply⟩
  obtain ⟨s', hstep⟩ := hstep
  rw [← PingState.scan_step] at hstep
  obtain ⟨r, hr, -⟩ := Option.map_eq_some_iff.mp hstep
  exact ⟨r.1, r.2, hr⟩

/-- The ledger after one more event. Source: none: infrastructure. Kind: L -/
theorem ledger_concat (es : List PingEvent) (e : PingEvent) :
    ledger parseFloat (es ++ [e]) =
      recordEvent parseFloat ((pingOtelsender parseFloat).run es) (ledger parseFloat es) e := by
  unfold ledger
  rw [EventMachine.run_concat, ← audited_fst]
  rfl

/-- The program and the ledger after a line. Source: `ping_otelsender.go`, `main`. Kind: L -/
theorem run_line {es : List PingEvent} {s s' : PingState F} {buf : Bytes} {printed : List Bytes}
    (hs : ((pingOtelsender parseFloat).run es).state = some s)
    (hscan : s.scan parseFloat buf = some (s', printed)) :
    ((pingOtelsender parseFloat).run (es ++ [.line buf])).state = some s' ∧
      ledger parseFloat (es ++ [.line buf]) = (ledger parseFloat es).record parseFloat s buf := by
  constructor
  · rw [EventMachine.run_concat]
    change (((pingOtelsender parseFloat).run es).readLine parseFloat buf).state = some s'
    unfold PingProgram.readLine
    rw [hs]
    dsimp only
    rw [hscan]
  · rw [ledger_concat, recordEvent, hs]
    rfl

/-- The program and the ledger after a callback. Source: `ping_otelsender.go`, `main`. Kind: L -/
theorem run_tick {es : List PingEvent} {s : PingState F}
    (hs : ((pingOtelsender parseFloat).run es).state = some s) :
    ((pingOtelsender parseFloat).run (es ++ [.tick])).state = some s.callback.2 ∧
      ledger parseFloat (es ++ [.tick]) = ledger parseFloat es := by
  constructor
  · rw [EventMachine.run_concat]
    change (((pingOtelsender parseFloat).run es).onTick PingState.callback).state = _
    unfold PingProgram.onTick
    rw [hs]
  · rw [ledger_concat]
    rfl

/-- **After every run** the program is running and the ledger balances.
Source: `ping_otelsender.go`, `main`
Kind: P -/
theorem balanced_run (es : List PingEvent) (hes : ∀ e ∈ es, Counted parseFloat e) :
    ∃ s, ((pingOtelsender parseFloat).run es).state = some s ∧ Balanced s (ledger parseFloat es) := by
  induction es using List.reverseRecOn with
  | nil =>
      exact ⟨_, rfl, rfl, le_rfl, by simp [ledger, audited, MissLedger.empty],
        fun i hi => absurd rfl hi⟩
  | append_singleton es e ih =>
      obtain ⟨s, hs, hbalanced⟩ := ih fun e' he' => hes e' (List.mem_append_left _ he')
      have he := hes e (by simp)
      cases e with
      | line buf =>
          obtain ⟨s', printed, hscan⟩ := scan_of_counted he s
          obtain ⟨hs', hledger⟩ := run_line hs hscan
          exact ⟨s', hs', hledger ▸ hbalanced.scan hscan⟩
      | tick =>
          obtain ⟨hs', hledger⟩ := run_tick hs
          refine ⟨s.callback.2, hs', ?_⟩
          rw [hledger]
          exact ⟨hbalanced.dropCount, hbalanced.le_targetCount, hbalanced.placed, hbalanced.marked⟩

/-- **The drop count stays sane exactly as long as the answers to answered misses are not more than the
misses without an answer.** The points of the run include every one at which the callback can run.
Source: `ping_otelsender.go`, `main`
Kind: P -/
theorem sane_iff (es : List PingEvent) (hes : ∀ e ∈ es, Counted parseFloat e) :
    (∀ pre, pre <+: es → Sane ((pingOtelsender parseFloat).run pre)) ↔
      ∀ pre, pre <+: es →
        (ledger parseFloat pre).repeated ≤ (ledger parseFloat pre).unanswered.card := by
  apply forall₂_congr
  intro pre hpre
  obtain ⟨s, hs, hbalanced⟩ := balanced_run pre fun e he => hes e (hpre.subset he)
  have hdrop := hbalanced.dropCount
  constructor
  · rintro ⟨s', hs', hnonneg, -⟩
    obtain rfl := Option.some.inj (hs.symm.trans hs')
    omega
  · intro hle
    exact ⟨s, hs, by omega, hbalanced.le_targetCount⟩

end Runs

/-! ## Misses that are answered once -/

/-- What the lines alone say of the places of the ring: which have a miss, and which an answer to it.
Source: none: specification
Kind: D -/
structure Answers where
  curSeq : ℤ
  missed : Finset ℤ
  answered : Finset ℤ

namespace Answers

/-- Source: none: specification. Kind: D -/
def empty : Answers where
  curSeq := 0
  missed := ∅
  answered := ∅

/-- A number that comes anew has neither. Source: none: specification. Kind: D -/
def newSequence (a : Answers) (icmpSeq : ℤ) : Answers :=
  if a.curSeq < icmpSeq ∨ 1000 < a.curSeq - icmpSeq then
    { curSeq := icmpSeq
      missed := a.missed.erase icmpSeq
      answered := a.answered.erase icmpSeq }
  else a

variable {F : Type}

/-- One line. Source: none: specification. Kind: D -/
def read (parseFloat : Bytes → Option F) (a : Answers) (buf : Bytes) : Answers :=
  match indexOf buf with
  | none => a
  | some icmpSeq =>
    let a := a.newSequence icmpSeq
    match statusOf parseFloat buf with
    | .miss => { a with missed := insert icmpSeq a.missed }
    | .reply _ => if icmpSeq ∈ a.missed then { a with answered := insert icmpSeq a.answered } else a
    | .unknown => a

/-- The lines of a run. Source: none: specification. Kind: D -/
def ofEvents (parseFloat : Bytes → Option F) (es : List PingEvent) : Answers :=
  es.foldl (fun a e => match e with | .line buf => a.read parseFloat buf | .tick => a) empty

theorem ofEvents_line (parseFloat : Bytes → Option F) (es : List PingEvent) (buf : Bytes) :
    ofEvents parseFloat (es ++ [.line buf]) = (ofEvents parseFloat es).read parseFloat buf := by
  simp [ofEvents]

theorem ofEvents_tick (parseFloat : Bytes → Option F) (es : List PingEvent) :
    ofEvents parseFloat (es ++ [.tick]) = ofEvents parseFloat es := by
  simp [ofEvents]

/-- A line is no second answer to a miss. Source: none: specification. Kind: D -/
def Fresh (parseFloat : Bytes → Option F) (a : Answers) (buf : Bytes) : Prop :=
  ∀ icmpSeq rtt, indexOf buf = some icmpSeq → statusOf parseFloat buf = .reply rtt →
    icmpSeq ∈ (a.newSequence icmpSeq).missed → icmpSeq ∉ (a.newSequence icmpSeq).answered

end Answers

/-- No miss is answered twice. Source: none: specification. Kind: D -/
def AnsweredOnce {F : Type} (parseFloat : Bytes → Option F) (es : List PingEvent) : Prop :=
  ∀ pre buf, pre ++ [.line buf] <+: es → (Answers.ofEvents parseFloat pre).Fresh parseFloat buf

theorem AnsweredOnce.of_prefix {F : Type} {parseFloat : Bytes → Option F} {pre es : List PingEvent}
    (h : AnsweredOnce parseFloat es) (hpre : pre <+: es) : AnsweredOnce parseFloat pre :=
  fun pre' buf hpre' => h pre' buf (hpre'.trans hpre)

/-- The lines say what the ring marks, and that the ledger's answered misses are answered ones.
Source: none: specification
Kind: D -/
structure Unrepeated {F : Type} (s : PingState F) (g : MissLedger) (a : Answers) : Prop where
  curSeq : a.curSeq = s.curSeq
  missed : ∀ i, i ∈ a.missed ↔ s.ringBuf i ≠ 0
  counted : ∀ i k, g.misses i = some k → k < g.lines
  distinct : ∀ i j k, g.misses i = some k → g.misses j = some k → i = j
  answered : ∀ i k, i ∈ a.missed → g.misses i = some k → k ∉ g.unanswered → i ∈ a.answered
  repeated : g.repeated = 0

namespace Unrepeated

variable {F : Type} {s : PingState F} {g : MissLedger} {a : Answers}

/-- A later line. Source: none: infrastructure. Kind: L -/
theorem lines (h : Unrepeated s g a) : Unrepeated s { g with lines := g.lines + 1 } a :=
  { h with counted := fun i k hk => Nat.lt_succ_of_lt (h.counted i k hk) }

/-- A number that comes anew. Source: `ping_otelsender.go`, `main`. Kind: L -/
theorem newSequence (h : Unrepeated s g a) (icmpSeq : ℤ) :
    Unrepeated (s.newSequence icmpSeq) g (a.newSequence icmpSeq) := by
  unfold PingState.newSequence Answers.newSequence
  rw [h.curSeq]
  by_cases hnew : s.curSeq < icmpSeq ∨ 1000 < s.curSeq - icmpSeq
  · have hring : s.IsNew icmpSeq := hnew
    rw [if_pos hring, if_pos hnew]
    refine ⟨rfl, fun i => ?_, h.counted, h.distinct, fun i k hi hk hopen => ?_, h.repeated⟩
    · by_cases heq : i = icmpSeq
      · simp [heq]
      · simp [heq, h.missed i]
    · obtain ⟨hne, hold⟩ := Finset.mem_erase.mp hi
      exact Finset.mem_erase.mpr ⟨hne, h.answered i k hold hk hopen⟩
  · have hring : ¬s.IsNew icmpSeq := hnew
    rwa [if_neg hring, if_neg hnew]

/-- A miss. Source: `ping_otelsender.go`, `main`. Kind: L -/
theorem miss (h : Unrepeated s g a) {icmpSeq : ℤ} (hzero : s.ringBuf icmpSeq = 0) :
    Unrepeated (s.countMiss icmpSeq) { g.miss icmpSeq with lines := g.lines + 1 }
      { a with missed := insert icmpSeq a.missed } := by
  have hmisses : ∀ i k, Function.update g.misses icmpSeq (some g.lines) i = some k →
      (i = icmpSeq ∧ k = g.lines) ∨ (i ≠ icmpSeq ∧ g.misses i = some k ∧ k < g.lines) := by
    intro i k hk
    by_cases heq : i = icmpSeq
    · rw [heq, Function.update_self] at hk
      exact Or.inl ⟨heq, (Option.some.inj hk).symm⟩
    · rw [Function.update_of_ne heq] at hk
      exact Or.inr ⟨heq, hk, h.counted i k hk⟩
  unfold PingState.countMiss MissLedger.miss
  rw [if_pos hzero]
  refine ⟨h.curSeq, fun i => ?_, fun i k hk => ?_, fun i j k hi hj => ?_, fun i k hi hk hopen => ?_,
    h.repeated⟩
  · by_cases heq : i = icmpSeq
    · simp [heq]
    · simp [heq, h.missed i]
  · rcases hmisses i k hk with ⟨-, rfl⟩ | ⟨-, -, hlt⟩
    · exact Nat.lt_succ_self _
    · exact Nat.lt_succ_of_lt hlt
  · rcases hmisses i k hi with ⟨rfl, rfl⟩ | ⟨-, hi, hlt⟩ <;>
      rcases hmisses j _ hj with ⟨rfl, hk⟩ | ⟨-, hj, hlt'⟩
    · rfl
    · exact absurd hlt' (lt_irrefl _)
    · exact absurd (hk ▸ hlt) (lt_irrefl _)
    · exact h.distinct i j k hi hj
  · rcases hmisses i k hk with ⟨-, rfl⟩ | ⟨hne, hold, -⟩
    · exact absurd (Finset.mem_insert_self _ _) hopen
    · exact h.answered i k (Finset.mem_of_mem_insert_of_ne hi hne) hold
        fun hmem => hopen (Finset.mem_insert_of_mem hmem)

variable [Add F]

/-- An answer to a ping that had no line. Source: `ping_otelsender.go`, `main`. Kind: L -/
theorem first (h : Unrepeated s g a) {icmpSeq : ℤ} (hzero : s.ringBuf icmpSeq = 0) (rtt : F) :
    Unrepeated (s.countReply icmpSeq rtt) g a := by
  unfold PingState.countReply
  dsimp only
  rw [if_pos hzero]
  exact { h with }

/-- **The answer to a miss that has none.** Source: `ping_otelsender.go`, `main`. Kind: L -/
theorem answer (h : Unrepeated s g a) {icmpSeq : ℤ} {k : ℕ} (hk : g.misses icmpSeq = some k)
    (hmark : s.ringBuf icmpSeq ≠ 0) (rtt : F) (hfresh : icmpSeq ∉ a.answered) :
    Unrepeated (s.countReply icmpSeq rtt) (g.answer icmpSeq)
      { a with answered := insert icmpSeq a.answered } := by
  have hopen : k ∈ g.unanswered := by
    by_contra hclosed
    exact hfresh (h.answered icmpSeq k ((h.missed icmpSeq).mpr hmark) hk hclosed)
  unfold PingState.countReply MissLedger.answer
  dsimp only
  rw [if_neg hmark, hk]
  dsimp only
  rw [if_pos hopen]
  refine ⟨h.curSeq, h.missed, h.counted, h.distinct, fun i k' hi hk' hclosed => ?_, h.repeated⟩
  by_cases heq : i = icmpSeq
  · exact heq ▸ Finset.mem_insert_self _ _
  · -- Another place has another miss, and the ledger still says of it what it said.
    have hne : k' ≠ k := fun hsame => heq (h.distinct i icmpSeq k' hk' (hsame ▸ hk))
    exact Finset.mem_insert_of_mem
      (h.answered i k' hi hk' fun hmem => hclosed (Finset.mem_erase.mpr ⟨hne, hmem⟩))

/-- **One line that is no second answer.** Source: `ping_otelsender.go`, `main`. Kind: P -/
theorem scan (h : Unrepeated s g a) (hbalanced : Balanced s g) {parseFloat : Bytes → Option F}
    {buf : Bytes} {s' : PingState F} {printed : List Bytes}
    (hscan : s.scan parseFloat buf = some (s', printed)) (hfresh : a.Fresh parseFloat buf) :
    Unrepeated s' (g.record parseFloat s buf) (a.read parseFloat buf) := by
  rcases MissLedger.record_cases g hscan with ⟨hindex, rfl, hrecord⟩ | ⟨icmpSeq, hindex, hline⟩
  · rw [hrecord, Answers.read, hindex]
    exact h.lines
  · have hreset := h.newSequence icmpSeq
    rcases hline with ⟨hstatus, rfl, hrecord⟩ | ⟨rtt, hstatus, rfl, hrecord⟩ |
      ⟨hstatus, rfl, hrecord⟩
    all_goals
      rw [hrecord, Answers.read, hindex]
      dsimp only
      rw [hstatus]
      dsimp only
    · split_ifs with hzero
      · exact hreset.miss hzero
      · rw [countMiss_marked hzero, Finset.insert_eq_of_mem ((hreset.missed icmpSeq).mpr hzero)]
        exact hreset.lines
    · by_cases hzero : (s.newSequence icmpSeq).ringBuf icmpSeq = 0
      · rw [if_pos hzero, if_neg fun hmem => (hreset.missed icmpSeq).mp hmem hzero]
        exact (hreset.first hzero rtt).lines
      · have hmem := (hreset.missed icmpSeq).mpr hzero
        obtain ⟨k, hk⟩ := (hbalanced.newSequence icmpSeq).marked icmpSeq hzero
        rw [if_neg hzero, if_pos hmem, ← MissLedger.answer_lines g icmpSeq]
        exact (hreset.answer hk hzero rtt (hfresh icmpSeq _ hindex hstatus hmem)).lines
    · exact hreset.lines

end Unrepeated

section Runs

variable {F : Type} [Zero F] [Add F] [Div F] [IntCast F] {parseFloat : Bytes → Option F}

/-- After a run in which no miss is answered twice, the ledger has no such answer.
Source: `ping_otelsender.go`, `main`
Kind: P -/
theorem unrepeated_run (es : List PingEvent) (hes : ∀ e ∈ es, Counted parseFloat e)
    (honce : AnsweredOnce parseFloat es) :
    ∃ s, ((pingOtelsender parseFloat).run es).state = some s ∧
      Unrepeated s (ledger parseFloat es) (Answers.ofEvents parseFloat es) := by
  induction es using List.reverseRecOn with
  | nil =>
      refine ⟨_, rfl, rfl, fun i => ?_, fun i k hk => ?_, fun i j k hk => ?_, fun i k hi => ?_, rfl⟩
      · simp [Answers.ofEvents, Answers.empty, PingState.start]
      · cases hk
      · cases hk
      · exact absurd hi (Finset.notMem_empty i)
  | append_singleton es e ih =>
      have hpast : ∀ e' ∈ es, Counted parseFloat e' :=
        fun e' he' => hes e' (List.mem_append_left _ he')
      obtain ⟨s, hs, h⟩ := ih hpast (honce.of_prefix (List.prefix_append es [e]))
      cases e with
      | line buf =>
          obtain ⟨s₁, hs₁, hbalanced⟩ := balanced_run es hpast
          obtain rfl := Option.some.inj (hs.symm.trans hs₁)
          obtain ⟨s', printed, hscan⟩ := scan_of_counted (hes (.line buf) (by simp)) s
          obtain ⟨hs', hledger⟩ := run_line hs hscan
          refine ⟨s', hs', ?_⟩
          rw [hledger, Answers.ofEvents_line]
          exact h.scan hbalanced hscan (honce es buf List.prefix_rfl)
      | tick =>
          obtain ⟨hs', hledger⟩ := run_tick hs
          refine ⟨s.callback.2, hs', ?_⟩
          rw [hledger, Answers.ofEvents_tick]
          exact ⟨h.curSeq, h.missed, h.counted, h.distinct, h.answered, h.repeated⟩

/-- **If no miss is answered twice, the drop count stays sane.**
Source: `ping_otelsender.go`, `main`
Kind: P -/
theorem sane_of_answeredOnce (es : List PingEvent) (hes : ∀ e ∈ es, Counted parseFloat e)
    (honce : AnsweredOnce parseFloat es) {pre : List PingEvent} (hpre : pre <+: es) :
    Sane ((pingOtelsender parseFloat).run pre) := by
  have hcounted : ∀ e ∈ pre, Counted parseFloat e := fun e he => hes e (hpre.subset he)
  obtain ⟨s, hs, hbalanced⟩ := balanced_run pre hcounted
  obtain ⟨_, -, h⟩ := unrepeated_run pre hcounted (honce.of_prefix hpre)
  have hdrop := hbalanced.dropCount
  have hrepeated := h.repeated
  exact ⟨s, hs, by omega, hbalanced.le_targetCount⟩

end Runs

/-! ## A ping with a miss -/

/-- A ping that is answered late, once. Source: none: specification. Kind: D -/
def answeredRun : List PingEvent := [.line (missText 1), .line (replyText 1), .tick]

theorem counted_of_mem (es : List PingEvent)
    (hes : ∀ e ∈ es, e = .line (missText 1) ∨ e = .line (replyText 1) ∨ e = .tick) :
    ∀ e ∈ es, Counted wholeNumber e := by
  intro e he
  rcases hes e he with rfl | rfl | rfl
  · exact ⟨1, by decide, .inl (prints_missText 1)⟩
  · exact ⟨1, by decide, .inr (prints_replyText 1)⟩
  · trivial

theorem sane_answeredRun : Sane ((pingOtelsender wholeNumber).run answeredRun) := by
  have hledger : ∀ pre ∈ answeredRun.inits,
      (ledger wholeNumber pre).repeated ≤ (ledger wholeNumber pre).unanswered.card := by
    decide +kernel
  exact (sane_iff answeredRun (counted_of_mem _ (by simp [answeredRun]))).mpr
    (fun pre hpre => hledger pre ((List.mem_inits _ _).mpr hpre)) answeredRun List.prefix_rfl

/-- The same ping, answered twice. Source: none: specification. Kind: D -/
def duplicateRun : List PingEvent := answeredRun ++ [.line (replyText 1)]

/-- **The second answer takes the drop count below zero**: the first has not cleared the mark.
Source: `ping_otelsender.go`, `main`
Kind: C -/
theorem duplicateRun_not_sane :
    (∀ e ∈ duplicateRun, Counted wholeNumber e) ∧
      ¬Sane ((pingOtelsender wholeNumber).run duplicateRun) := by
  refine ⟨counted_of_mem _ (by simp [duplicateRun, answeredRun]), ?_⟩
  rintro ⟨s, hs, hnonneg, -⟩
  have hdrop : ((pingOtelsender wholeNumber).run duplicateRun).state.map PingState.dropCount =
      some (-1) := by decide +kernel
  rw [hs, Option.map_some, Option.some.injEq] at hdrop
  omega

end UDPing.Otel
