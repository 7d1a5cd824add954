import UDPing.Otel.PingSender

/-!
# The scanner loop and the lines it ignores

* `PingState.scan`: the scanner loop with what it prints. `scan_step`: its states are those of `step`.
* `indexOf` and `statusOf`: what is on a line. `scan_eq`: what the loop does with it.
* **`clean_iff`**: at which lines the loop neither panics nor ignores a line that it has acted on.
-/

namespace UDPing.Otel

open Lib

/-! ## The scanner loop -/

/-- Source: `ping_otelsender.go`, `main`; `ping_reader.go`, `main`. Kind: D -/
def noSequence : Bytes := ascii "Ignoring line without icmp sequence"

/-- Source: `ping_otelsender.go`, `main`; `ping_reader.go`, `main`. Kind: D -/
def unknownStatus : Bytes := ascii "Ignoring unknown status line"

namespace PingState

variable {F : Type} [Add F]

/-- One line of the input, with the lines it prints; `none`: a panic.
Source: `ping_otelsender.go`, `main`; `ping_reader.go`, `main`
Kind: D
Fidelity: as in `step`; a line of 65536 bytes or more does not get here, it ends the loop -/
def scan (parseFloat : Bytes → Option F) (s : PingState F) (buf : Bytes) :
    Option (PingState F × List Bytes) :=
  match fromIndex (ascii "icmp_seq=") buf with
  | none => some (s, [buf, noSequence])
  | some rest =>
    (field rest).bind fun text =>
    let icmpSeq := (parseInt 16 text).1.tmod 1024
    if s.IsNew icmpSeq ∧ icmpSeq < 0 then none
    else
      let s := s.newSequence icmpSeq
      if saysMiss buf then
        if icmpSeq < 0 then none else some (s.countMiss icmpSeq, [])
      else
        match fromIndex (ascii "time=") buf with
        | none => some (s, [buf, unknownStatus])
        | some rest =>
          (field rest).bind fun text =>
          (parseFloat text).bind fun rtt =>
          if icmpSeq < 0 then none else some (s.countReply icmpSeq rtt, [])

/-- The states of the loop. Source: `ping_otelsender.go`, `main`. Kind: L -/
theorem scan_step (parseFloat : Bytes → Option F) (s : PingState F) (buf : Bytes) :
    (s.scan parseFloat buf).map Prod.fst = s.step parseFloat buf := by
  unfold scan step
  cases fromIndex (ascii "icmp_seq=") buf with
  | none => rfl
  | some rest =>
      dsimp only
      cases field rest with
      | none => rfl
      | some text =>
          simp only [Option.bind_some]
          by_cases hnew : s.IsNew ((parseInt 16 text).1.tmod 1024) ∧
              (parseInt 16 text).1.tmod 1024 < 0
          · rw [if_pos hnew, if_pos hnew]
            rfl
          · rw [if_neg hnew, if_neg hnew]
            by_cases hmiss : saysMiss buf
            · rw [if_pos hmiss, if_pos hmiss, apply_ite (Option.map Prod.fst)]
              rfl
            · rw [if_neg hmiss, if_neg hmiss]
              cases fromIndex (ascii "time=") buf with
              | none => rfl
              | some rest =>
                  simp only [Option.map_bind, Function.comp_def, apply_ite (Option.map Prod.fst),
                    Option.map_some, Option.map_none]

end PingState

/-! ## What is on a line -/

/-- What a line says about its ping.
Source: `ping_otelsender.go`, `main`
Kind: D -/
inductive Status (F : Type) where
  /-- There is no answer. -/
  | miss
  /-- The time it took; `none`: it is not a number. -/
  | reply (rtt : Option F)
  | unknown
  deriving DecidableEq

/-- Source: `ping_otelsender.go`, `main`. Kind: D -/
def statusOf {F : Type} (parseFloat : Bytes → Option F) (buf : Bytes) : Status F :=
  if saysMiss buf then .miss
  else
    match fromIndex (ascii "time=") buf with
    | none => .unknown
    | some rest => .reply ((field rest).bind parseFloat)

/-- The index of the ring for a line, if it has a sequence number.
Source: `ping_otelsender.go`, `main`
Kind: D -/
def indexOf (buf : Bytes) : Option ℤ := do
  let rest ← fromIndex (ascii "icmp_seq=") buf
  let text ← field rest
  return (parseInt 16 text).1.tmod 1024

/-- What is found begins with what was searched. Source: `strings.Index`. Kind: L -/
theorem prefix_of_fromIndex {key s rest : Bytes} (h : fromIndex key s = some rest) :
    key <+: rest := by
  induction s with
  | nil =>
      rw [fromIndex] at h
      split_ifs at h with hkey
      cases h
      exact hkey ▸ List.nil_prefix
  | cons b s ih =>
      rw [fromIndex] at h
      split_ifs at h with hpre
      · cases h
        exact List.isPrefixOf_iff_prefix.mp hpre
      · exact ih h

/-- A word that has an equals sign has a field. Source: `strings.Split`. Kind: L -/
theorem field_isSome {name rest : Bytes} (hspace : 32 ∉ name) (heq : 61 ∉ name)
    (h : name ++ [61] <+: rest) : ∃ text, field rest = some text := by
  obtain ⟨tail, rfl⟩ := h
  have hword (w : Bytes) : ∃ text, (split 61 (name ++ [61] ++ w))[1]? = some text := by
    obtain ⟨text, more, hw⟩ := List.exists_cons_of_ne_nil (split_ne_nil 61 w)
    rw [List.append_assoc, List.singleton_append, split_append_sep heq, hw]
    exact ⟨text, rfl⟩
  have hnot : 32 ∉ name ++ [61] := by simp [hspace]
  unfold field
  rcases split_cases 32 tail with hno | ⟨w, more, hno, rfl⟩
  · rw [split_of_notMem (by simp [hspace, hno])]
    exact hword tail
  · rw [← List.append_assoc, split_append_sep (by simp [hspace, hno])]
    exact hword w

theorem field_of_seq {buf rest : Bytes} (h : fromIndex (ascii "icmp_seq=") buf = some rest) :
    ∃ text, field rest = some text :=
  field_isSome (show 32 ∉ ascii "icmp_seq" by decide) (by decide) (prefix_of_fromIndex h)

theorem field_of_time {buf rest : Bytes} (h : fromIndex (ascii "time=") buf = some rest) :
    ∃ text, field rest = some text :=
  field_isSome (show 32 ∉ ascii "time" by decide) (by decide) (prefix_of_fromIndex h)

namespace PingState

variable {F : Type} [Add F]

/-- What the loop does with an index and a status, besides the numbers it cannot use.
Source: `ping_otelsender.go`, `main`
Kind: D -/
def act (s : PingState F) (buf : Bytes) (icmpSeq : ℤ) : Status F → Option (PingState F × List Bytes)
  | .miss => if icmpSeq < 0 then none else some ((s.newSequence icmpSeq).countMiss icmpSeq, [])
  | .reply none => none
  | .reply (some rtt) =>
      if icmpSeq < 0 then none else some ((s.newSequence icmpSeq).countReply icmpSeq rtt, [])
  | .unknown =>
      if s.IsNew icmpSeq ∧ icmpSeq < 0 then none
      else some (s.newSequence icmpSeq, [buf, unknownStatus])

/-- **What the loop does with a line.** Source: `ping_otelsender.go`, `main`. Kind: P -/
theorem scan_eq (parseFloat : Bytes → Option F) (s : PingState F) (buf : Bytes) :
    s.scan parseFloat buf =
      match indexOf buf with
      | none => some (s, [buf, noSequence])
      | some icmpSeq => s.act buf icmpSeq (statusOf parseFloat buf) := by
  unfold scan indexOf
  cases hseq : fromIndex (ascii "icmp_seq=") buf with
  | none => rfl
  | some rest =>
      obtain ⟨text, htext⟩ := field_of_seq hseq
      simp only [htext, Option.bind_some, Option.pure_def, Option.bind_eq_bind]
      generalize (parseInt 16 text).1.tmod 1024 = icmpSeq
      unfold statusOf
      by_cases hmiss : saysMiss buf
      · rw [if_pos hmiss, if_pos hmiss]
        by_cases hneg : icmpSeq < 0
        · simp [act, hneg]
        · simp [act, hneg]
      · rw [if_neg hmiss, if_neg hmiss]
        cases htime : fromIndex (ascii "time=") buf with
        | none => rfl
        | some rest' =>
            obtain ⟨text', htext'⟩ := field_of_time htime
            dsimp only
            rw [htext']
            cases hrtt : parseFloat text' with
            | none => simp [act, hrtt]
            | some rtt =>
                by_cases hneg : icmpSeq < 0
                · simp [act, hneg, hrtt]
                · simp [act, hneg, hrtt]

/-! ## Lines that are ignored -/

/-- The loop goes on, and if it says that it ignores the line, nothing has changed.
Source: none: specification
Kind: D -/
def Clean (parseFloat : Bytes → Option F) (s : PingState F) (buf : Bytes) : Prop :=
  ∃ s' printed, s.scan parseFloat buf = some (s', printed) ∧ (printed ≠ [] → s' = s)

omit [Add F] in
/-- An index is of a new sequence only if it is another one. Source: `ping_otelsender.go`, `main`.
Kind: L -/
theorem newSequence_eq_self_iff (s : PingState F) (icmpSeq : ℤ) :
    s.newSequence icmpSeq = s ↔ ¬s.IsNew icmpSeq := by
  unfold newSequence
  constructor
  · intro h hnew
    rw [if_pos hnew] at h
    have hcur := congrArg curSeq h
    dsimp only at hcur
    unfold IsNew at hnew
    omega
  · exact fun hnew => if_neg hnew

/-- **At which lines the loop goes on and ignores only what it has not acted on**: at those without a
sequence number; at a miss whose index is not negative; at an answer whose index is not negative and
whose time is a number; and at a line of unknown status whose index is not that of a new sequence.
Source: `ping_otelsender.go`, `main`
Kind: P -/
theorem clean_iff (parseFloat : Bytes → Option F) (s : PingState F) (buf : Bytes) :
    s.Clean parseFloat buf ↔
      ∀ icmpSeq, indexOf buf = some icmpSeq →
        match statusOf parseFloat buf with
        | .miss => 0 ≤ icmpSeq
        | .reply rtt => 0 ≤ icmpSeq ∧ rtt.isSome
        | .unknown => ¬s.IsNew icmpSeq := by
  unfold Clean
  rw [scan_eq]
  cases indexOf buf with
  | none => simp
  | some icmpSeq =>
      simp only [Option.some.injEq, forall_eq']
      cases statusOf parseFloat buf with
      | miss =>
          by_cases hneg : icmpSeq < 0
          · simp [act, hneg]
          · simp [act, hneg]
            omega
      | reply rtt =>
          cases rtt with
          | none => simp [act]
          | some rtt =>
              by_cases hneg : icmpSeq < 0
              · simp [act, hneg]
              · simp [act, hneg]
                omega
      | unknown =>
          rw [← newSequence_eq_self_iff]
          by_cases hnew : s.IsNew icmpSeq ∧ icmpSeq < 0
          · simp [act, hnew, newSequence_eq_self_iff]
          · simp [act, hnew]

/-- `ping` says that the time to live of the fifth ping was exceeded: the loop ignores the line, and
has made its number the current one.
Source: `ping_otelsender.go`, `main`
Kind: C -/
theorem exceeded_not_clean :
    ¬(start ℤ).Clean (fun _ => none) (ascii "From 10.0.0.1 icmp_seq=5 Time to live exceeded") := by
  rintro ⟨s', printed, hscan, hsame⟩
  have hindex : indexOf (ascii "From 10.0.0.1 icmp_seq=5 Time to live exceeded") = some 5 := by
    decide +kernel
  have hstatus : statusOf (fun _ => (none : Option ℤ))
      (ascii "From 10.0.0.1 icmp_seq=5 Time to live exceeded") = .unknown := by decide +kernel
  rw [scan_eq, hindex, hstatus] at hscan
  obtain ⟨rfl, rfl⟩ := Prod.mk.inj (Option.some.inj hscan)
  have hnew : (start ℤ).IsNew 5 := .inl (by decide)
  exact (newSequence_eq_self_iff _ _).mp (hsame (List.cons_ne_nil _ _)) hnew

end PingState

end UDPing.Otel
