import UDPing.Otel.Aggregation
import UDPing.Otel.ConsoleLine
import UDPing.Otel.Decimal
import UDPing.Server.Conservation
import Mathlib.Data.List.Flatten
import Mathlib.Data.List.Perm.Subperm

/-!
# From the server's reports to the exported metrics

* `scanner`: udping_otelsender over the bytes of the pipe, its end, and the callbacks, in any order.
* `scanned_run`: what it makes of the console of a server, as far as it has come. `Scanned.run_eof`: what
  it makes of the end of its input.
* **`console_exported`**: a callback exports, for each host that a report read so far names, the target
  counts of its reports and how many packets its closed periods hold. **`latency_exported`**: and the
  mean latency of those that were read since the last callback.
-/

namespace UDPing.Otel

open Lib Server
open Server.StatsWriter (peerCopy print_eq)

/-! ## The scanner -/

/-- A byte of standard input, its end, or a callback. Source: `udping_otelsender.go`, `main`. Kind: D -/
inductive PipeEvent where
  | byte (c : UInt8)
  | eof
  | callback
  deriving DecidableEq

/-- The bytes of the line that has not ended yet, and `datapointSummary`.
Source: `udping_otelsender.go`, `main`
Kind: D -/
structure Scanner where
  buf : Bytes
  summary : Summary

/-- A line has come to its end; `none`: it is no object of strings, and `check` panics.
Source: `udping_otelsender.go`, `main`
Kind: D -/
def Scanner.endLine (parseFloat : Bytes → Option ℚ) (s : Scanner) : Option Scanner :=
  (decodeLine s.buf).map fun obj => ⟨[], (sender parseFloat).step s.summary (.line obj)⟩

/-- One byte more; `none`: the line is too long, or is no object of strings, and the program ends.
Source: `bufio`, `Scanner.Scan`; `udping_otelsender.go`, `main`
Kind: D -/
def Scanner.byte (parseFloat : Bytes → Option ℚ) (s : Scanner) (c : UInt8) : Option Scanner :=
  if c = 10 then s.endLine parseFloat
  else if s.buf.length + 1 < maxScanTokenSize then some { s with buf := s.buf ++ [c] }
  else none

/-- The end of the input: what there is of a last line is a line.
Source: `bufio`, `ScanLines`; `udping_otelsender.go`, `main`
Kind: D -/
def Scanner.eof (parseFloat : Bytes → Option ℚ) (s : Scanner) : Option Scanner :=
  if s.buf = [] then some s else s.endLine parseFloat

/-- Source: `udping_otelsender.go`, `main`. Kind: D -/
def Scanner.step (parseFloat : Bytes → Option ℚ) (s : Scanner) : PipeEvent → Option Scanner
  | .byte c => s.byte parseFloat c
  | .eof => s.eof parseFloat
  | .callback => some { s with summary := (sender parseFloat).step s.summary .callback }

/-- The program; `none`: it has ended. Source: `udping_otelsender.go`, `main`. Kind: D -/
def scanner (parseFloat : Bytes → Option ℚ) : EventMachine (Option Scanner) PipeEvent where
  init := some ⟨[], .empty⟩
  step s e := s.bind fun s => s.step parseFloat e

/-- The bytes that came in. Source: none: specification. Kind: D -/
def PipeEvent.byte? : PipeEvent → Option UInt8
  | .byte c => some c
  | _ => none

/-- The bytes read so far. Source: none: specification. Kind: D -/
def bytesRead (fs : List PipeEvent) : Bytes := fs.filterMap PipeEvent.byte?

/-- The lines read so far. Source: none: specification. Kind: D -/
def linesRead (fs : List PipeEvent) : ℕ := (bytesRead fs).count 10

/-- The lines read before the last callback. Source: none: specification. Kind: D -/
def linesObserved (fs : List PipeEvent) : ℕ := linesRead (fs.rdropWhile (· ≠ .callback))

/-- There is no part of a line at the end. Source: none: specification. Kind: D -/
def Whole (s : Bytes) : Prop := s = [] ∨ s.getLast? = some 10

/-- Where the input has ended, it has ended between two lines. Source: none: specification. Kind: D -/
def Uncut (fs : List PipeEvent) : Prop := ∀ pre, pre ++ [.eof] <+: fs → Whole (bytesRead pre)

section Histories

variable (fs : List PipeEvent)

theorem bytesRead_byte (c : UInt8) : bytesRead (fs ++ [.byte c]) = bytesRead fs ++ [c] :=
  List.filterMap_append

theorem bytesRead_callback : bytesRead (fs ++ [.callback]) = bytesRead fs := by
  rw [bytesRead, List.filterMap_append]
  exact List.append_nil _

theorem bytesRead_eof : bytesRead (fs ++ [.eof]) = bytesRead fs := by
  rw [bytesRead, List.filterMap_append]
  exact List.append_nil _

theorem linesRead_byte (c : UInt8) :
    linesRead (fs ++ [.byte c]) = linesRead fs + if c = 10 then 1 else 0 := by
  simp only [linesRead, bytesRead_byte, List.count_append, List.count_singleton, beq_iff_eq]

theorem linesRead_callback : linesRead (fs ++ [.callback]) = linesRead fs := by
  rw [linesRead, bytesRead_callback, linesRead]

theorem linesRead_eof : linesRead (fs ++ [.eof]) = linesRead fs := by
  rw [linesRead, bytesRead_eof, linesRead]

theorem linesObserved_byte (c : UInt8) : linesObserved (fs ++ [.byte c]) = linesObserved fs := by
  rw [linesObserved, List.rdropWhile_concat_pos _ _ _ (by simp), linesObserved]

theorem linesObserved_eof : linesObserved (fs ++ [.eof]) = linesObserved fs := by
  rw [linesObserved, List.rdropWhile_concat_pos _ _ _ (by simp), linesObserved]

theorem linesObserved_callback : linesObserved (fs ++ [.callback]) = linesRead fs := by
  rw [linesObserved, List.rdropWhile_concat_neg _ _ _ (by simp), linesRead_callback]

end Histories

/-- No more lines have been observed than read. Source: none: specification. Kind: L -/
theorem linesObserved_le (fs : List PipeEvent) : linesObserved fs ≤ linesRead fs := by
  obtain ⟨late, hlate⟩ := List.rdropWhile_prefix (fun e => decide (e ≠ PipeEvent.callback)) fs
  have hsub : (bytesRead (fs.rdropWhile (· ≠ .callback))).Sublist (bytesRead fs) := by
    conv_rhs => rw [← hlate]
    rw [bytesRead, bytesRead, List.filterMap_append]
    exact List.sublist_append_left _ _
  exact hsub.count_le 10

/-! ## What is read of a report -/

/-- A parameter reads numbers with a decimal point. Source: `strconv.ParseFloat`. Kind: D -/
def ReadsDecimals (parseFloat : Bytes → Option ℚ) : Prop :=
  ∀ s x, readDecimal s = some x → parseFloat s = some x

/-- A report as it is read. Source: `udping_otelsender.go`, `main`. Kind: D -/
def readOf (w : StatsWriter) (r : Server.Report) : Report where
  fromHost := peerCopy r.peer
  toHost := cString w.receiveHostname
  sum := rounded r.stats.sum
  count := r.stats.count
  targetCount := r.stats.targetCount.toNat

/-- What is printed of a report is one line, which is read, and of which no part is.
Source: `udping_otelsender.go`, `main`
Kind: D -/
def Readable (parseFloat : Bytes → Option ℚ) (w : StatsWriter) (r : Server.Report) : Prop :=
  ∃ line obj, w.print r = line ++ [10] ∧ 10 ∉ line ∧ decodeLine line = some obj ∧
    report parseFloat obj = some (readOf w r) ∧
    ∀ part, part ≠ [] → part <+: line → part ≠ line → decodeLine part = none

/-- **No part of a printed line is read.** Source: `udping_otelsender.go`, `main`. Kind: L -/
theorem decodeLine_part {ms : List Json.Member} {obj : Obj}
    (h : decodeLine (Json.objectText ms) = some obj) {part : Bytes} (hne : part ≠ [])
    (hpre : part <+: Json.objectText ms) (hpart : part ≠ Json.objectText ms) :
    decodeLine part = none := by
  have hlast := Json.getLast?_objectText ms
  obtain ⟨line, hline⟩ := Json.exists_objectText ms
  rw [hline] at h hpre hpart hlast
  have hobj : Json.unmarshal (123 :: line) = some obj := by
    have hcr : dropCR (123 :: line) = 123 :: line := by
      rw [dropCR, hlast, if_neg (by decide)]
    rw [decodeLine, hcr] at h
    split_ifs at h
    exact h
  -- what is left when a carriage return is dropped is cut off as well
  have hcut : ∀ s, s <+: 123 :: line → s ≠ 123 :: line → Json.unmarshal s = none := by
    rintro s ⟨rest, hrest⟩ hs
    have hmem : 125 ∈ rest := by
      refine List.mem_of_getLast? ?_
      rw [← hrest, List.getLast?_append] at hlast
      have hsome : rest ≠ [] := by
        rintro rfl
        exact hs (by rw [← hrest, List.append_nil])
      rw [List.getLast?_eq_some_getLast hsome, Option.some_or] at hlast
      rw [List.getLast?_eq_some_getLast hsome, hlast]
    cases s with
    | nil => rfl
    | cons c s =>
        obtain ⟨rfl, htail⟩ := List.cons.inj hrest
        rw [← htail] at hobj
        exact Json.unmarshal_cut hobj hmem
  unfold decodeLine
  split_ifs with hfits
  · unfold dropCR
    split_ifs with hcr
    · refine hcut _ ((List.dropLast_prefix part).trans hpre) fun heq => ?_
      have hshort : part.dropLast.length = part.length - 1 := List.length_dropLast
      have hle := hpre.length_le
      have hpos := List.length_pos_of_ne_nil hne
      rw [heq] at hshort
      omega
    · exact hcut part hpre hpart
  · rfl

theorem field_sum (w : StatsWriter) (r : Server.Report) (spliced : List Json.Member) :
    (objectRead w r spliced).field "sum" = longFloat r.stats.sum := by
  have hnames : ascii "max" ≠ ascii "sum" ∧ ascii "sumOfSquares" ≠ ascii "sum" := by
    decide +kernel
  have hnumbers : Dict.lastValue (ascii "sum") (StatsWriter.numbers r.stats) =
      some (longFloat r.stats.sum) := by
    simp [Dict.lastValue, StatsWriter.numbers, hnames]
  rw [field_objectRead, hnumbers, Option.some_or, Option.some_or, Option.getD_some]

/-- **A transparent report is read.**
Source: `statswriter.cc`, `writeConsoleStats`; `udping_otelsender.go`, `main`
Kind: P -/
theorem readable_of_transparent {parseFloat : Bytes → Option ℚ} (hfloat : ReadsDecimals parseFloat)
    {w : StatsWriter} {r : Server.Report} (hpeer : HostName r.peer)
    (hreceiver : HostName w.receiveHostname) (hlo : -2 ^ 31 ≤ r.stats.count)
    (hhi : r.stats.count < 2 ^ 31) (h : Transparent w r) : Readable parseFloat w r := by
  obtain ⟨spliced, hspliced, hfrom, hto⟩ := h.guid
  have hdecode := decodeLine_eq hpeer hreceiver
  rw [if_pos ⟨h.fits, h.peer, h.receiver⟩, hspliced, Option.map_some] at hdecode
  refine ⟨_, _, print_eq w r, fun hmem => h.oneLine ((mem_line_iff hpeer hreceiver).mp hmem),
    hdecode, ?_, fun part => decodeLine_part hdecode⟩
  have hsum := hfloat _ _ (readDecimal_longFloat r.stats.sum)
  have hcount := atoi_signed hlo hhi
  have htarget := (atoi_intOfUnsigned_iff r.stats.targetCount).mpr h.target
  rw [← field_sum w r spliced] at hsum
  rw [← field_count w r spliced] at hcount
  rw [← field_targetCount w r spliced] at htarget
  change report parseFloat (objectRead w r spliced) = _
  simp only [report, hsum, hcount, htarget, field_from_host, field_to_host, hfrom, hto]
  rfl

/-! ## Reading the console -/

/-- What a server has printed. Source: `statswriter.cc`, `writeConsoleStats`. Kind: D -/
def console (w : StatsWriter) (rs : List Server.Report) : Bytes := rs.flatMap w.print

/-- The next byte of a line and of what follows it. Source: none: infrastructure. Kind: L -/
theorem next_of_prefix {α : Type*} {sep c : α} {buf line rest : List α} (hbuf : sep ∉ buf)
    (hline : sep ∉ line) (h : buf ++ [c] <+: line ++ sep :: rest) :
    (c = sep ∧ buf = line) ∨ (c ≠ sep ∧ buf ++ [c] <+: line) := by
  induction buf generalizing line with
  | nil =>
      rcases line with _ | ⟨b, line⟩
      · exact Or.inl ⟨(List.cons_prefix_cons.mp h).1, rfl⟩
      · obtain ⟨rfl, -⟩ := List.cons_prefix_cons.mp h
        exact Or.inr ⟨fun heq => hline (heq ▸ List.mem_cons_self),
          List.cons_prefix_cons.mpr ⟨rfl, List.nil_prefix⟩⟩
  | cons b buf ih =>
      rcases line with _ | ⟨b', line⟩
      · obtain ⟨rfl, -⟩ := List.cons_prefix_cons.mp h
        exact absurd List.mem_cons_self hbuf
      · obtain ⟨rfl, hrest⟩ := List.cons_prefix_cons.mp h
        rcases ih (fun hmem => hbuf (List.mem_cons_of_mem b hmem))
          (fun hmem => hline (List.mem_cons_of_mem b hmem)) hrest with ⟨hc, rfl⟩ | ⟨hc, hpre⟩
        · exact Or.inl ⟨hc, rfl⟩
        · exact Or.inr ⟨hc, List.cons_prefix_cons.mpr ⟨rfl, hpre⟩⟩

/-- The state of the program after the events `fs`, and what it has made of the reports `rs`.
Source: `udping_otelsender.go`, `main`
Kind: D -/
structure Scanned (parseFloat : Bytes → Option ℚ) (w : StatsWriter) (rs : List Server.Report)
    (fs : List PipeEvent) (s : Scanner) (es : List LinkEvent) : Prop where
  read : bytesRead fs = console w (rs.take (linesRead fs)) ++ s.buf
  unended : 10 ∉ s.buf
  summary : s.summary = (sender parseFloat).run es
  reports : reports parseFloat es = (rs.take (linesRead fs)).map (readOf w)
  recent : recent parseFloat es =
    ((rs.take (linesRead fs)).drop (linesObserved fs)).map (readOf w)

section Scan

variable {parseFloat : Bytes → Option ℚ} {w : StatsWriter} {rs : List Server.Report}
  {fs : List PipeEvent} {s : Scanner} {es : List LinkEvent}

/-- A callback. Source: `udping_otelsender.go`, `main`. Kind: L -/
theorem Scanned.callback (h : Scanned parseFloat w rs fs s es) :
    ∃ s', s.step parseFloat .callback = some s' ∧
      Scanned parseFloat w rs (fs ++ [.callback]) s' (es ++ [.callback]) := by
  refine ⟨_, rfl, ?_, h.unended, ?_, ?_, ?_⟩
  · rw [bytesRead_callback, linesRead_callback]
    exact h.read
  · rw [EventMachine.run_concat, ← h.summary]
  · rw [reports_concat, linesRead_callback, h.reports]
    exact List.append_nil _
  · rw [recent_concat, linesRead_callback, linesObserved_callback, List.drop_eq_nil_of_le]
    · rfl
    · exact List.length_take_le _ _

/-- Nothing is left of a line exactly if there is no part of one. Source: `udping_otelsender.go`, `main`.
Kind: L -/
theorem Scanned.whole_iff (h : Scanned parseFloat w rs fs s es)
    (hread : ∀ r ∈ rs, Readable parseFloat w r) : Whole (bytesRead fs) ↔ s.buf = [] := by
  rw [h.read]
  constructor
  · intro hwhole
    by_contra hne
    have hlast := List.getLast?_eq_some_getLast hne
    refine h.unended ?_
    rcases hwhole with hnil | hnewline
    · exact absurd (List.append_eq_nil_iff.mp hnil).2 hne
    · rw [List.getLast?_append, hlast, Option.some_or] at hnewline
      rw [← Option.some.inj hnewline]
      exact List.getLast_mem hne
  · intro hnil
    rw [hnil, List.append_nil]
    rcases List.eq_nil_or_concat (rs.take (linesRead fs)) with htake | ⟨rs', r, htake⟩
    · rw [htake]
      exact Or.inl rfl
    · obtain ⟨line, obj, hprint, -⟩ := hread r (List.mem_of_mem_take (by rw [htake]; simp))
      refine Or.inr ?_
      rw [htake, console, List.concat_eq_append, List.flatMap_append, List.flatMap_singleton, hprint,
        ← List.append_assoc, List.getLast?_concat]

/-- The end of the input between two lines. Source: `udping_otelsender.go`, `main`. Kind: L -/
theorem Scanned.eof (h : Scanned parseFloat w rs fs s es) (hbuf : s.buf = []) :
    s.step parseFloat .eof = some s ∧ Scanned parseFloat w rs (fs ++ [.eof]) s es := by
  refine ⟨if_pos hbuf, ?_, h.unended, h.summary, ?_, ?_⟩
  · rw [bytesRead_eof, linesRead_eof]
    exact h.read
  · rw [linesRead_eof]
    exact h.reports
  · rw [linesRead_eof, linesObserved_eof]
    exact h.recent

/-- The line that the console goes on with. Source: `udping_otelsender.go`, `main`. Kind: L -/
theorem Scanned.exists_line (h : Scanned parseFloat w rs fs s es)
    (hread : ∀ r ∈ rs, Readable parseFloat w r) {t : Bytes} (ht : s.buf ++ t ≠ [])
    (hpre : bytesRead fs ++ t <+: console w rs) :
    ∃ (hlt : linesRead fs < rs.length) (line : Bytes) (obj : Obj),
      w.print rs[linesRead fs] = line ++ [10] ∧ 10 ∉ line ∧ decodeLine line = some obj ∧
      report parseFloat obj = some (readOf w rs[linesRead fs]) ∧
      (∀ part, part ≠ [] → part <+: line → part ≠ line → decodeLine part = none) ∧
      ∀ t, bytesRead fs ++ t <+: console w rs ↔
        s.buf ++ t <+: line ++ 10 :: console w (rs.drop (linesRead fs + 1)) := by
  have hsplit : console w rs =
      console w (rs.take (linesRead fs)) ++ console w (rs.drop (linesRead fs)) := by
    rw [console, console, console, ← List.flatMap_append, List.take_append_drop]
  have hrest : ∀ t, bytesRead fs ++ t <+: console w rs ↔
      s.buf ++ t <+: console w (rs.drop (linesRead fs)) := by
    intro t
    rw [hsplit, h.read, List.append_assoc, List.prefix_append_right_inj]
  have hlt : linesRead fs < rs.length := by
    by_contra hge
    have hnil := (hrest t).mp hpre
    rw [List.drop_eq_nil_of_le (not_lt.mp hge)] at hnil
    exact ht (List.prefix_nil.mp hnil)
  obtain ⟨line, obj, hprint, hline, hobj, hreport, hparts⟩ := hread _ (List.getElem_mem hlt)
  have hdrop : console w (rs.drop (linesRead fs)) =
      line ++ 10 :: console w (rs.drop (linesRead fs + 1)) := by
    rw [List.drop_eq_getElem_cons hlt, console, List.flatMap_cons, hprint, List.append_assoc]
    rfl
  rw [hdrop] at hrest
  exact ⟨hlt, line, obj, hprint, hline, hobj, hreport, hparts, hrest⟩

/-- A byte of the console. Source: `udping_otelsender.go`, `main`. Kind: L -/
theorem Scanned.byte (h : Scanned parseFloat w rs fs s es) (hread : ∀ r ∈ rs, Readable parseFloat w r)
    {c : UInt8} (hc : bytesRead fs ++ [c] <+: console w rs) :
    ∃ s' es', s.step parseFloat (.byte c) = some s' ∧
      Scanned parseFloat w rs (fs ++ [.byte c]) s' es' := by
  obtain ⟨hlt, line, obj, hprint, hline, hobj, hreport, -, hrest⟩ :=
    h.exists_line hread (List.concat_ne_nil c s.buf) hc
  rw [hrest] at hc
  have htake : rs.take (linesRead fs + 1) = rs.take (linesRead fs) ++ [rs[linesRead fs]] :=
    (List.take_append_getElem hlt).symm
  change ∃ s' es', s.byte parseFloat c = some s' ∧ _
  unfold Scanner.byte
  rcases next_of_prefix h.unended hline hc with ⟨rfl, hbuf⟩ | ⟨hne, hpre⟩
  · -- the line ends: its report is read
    have hlines : linesRead (fs ++ [.byte 10]) = linesRead fs + 1 := by
      rw [linesRead_byte, if_pos rfl]
    refine ⟨_, es ++ [.line obj], by rw [if_pos rfl, Scanner.endLine, hbuf, hobj]; rfl, ?_, ?_, ?_, ?_,
      ?_⟩
    · rw [bytesRead_byte, hlines, htake, h.read, hbuf, console, console, List.flatMap_append,
        List.flatMap_singleton, hprint]
      simp
    · exact List.not_mem_nil
    · rw [EventMachine.run_concat, ← h.summary]
    · rw [reports_concat, h.reports, hlines, htake, List.map_append]
      simp [hreport]
    · rw [recent_concat, h.recent, hlines, htake, linesObserved_byte, List.drop_append_of_le_length,
        List.map_append]
      · simp [hreport]
      · rw [List.length_take_of_le hlt.le]
        exact linesObserved_le fs
  · -- the line goes on: it still fits into the buffer
    have hfits : line.length < maxScanTokenSize := by
      unfold decodeLine at hobj
      split_ifs at hobj with hfits
      exact hfits
    have hlength := hpre.length_le
    rw [List.length_append, List.length_singleton] at hlength
    have hlines : linesRead (fs ++ [.byte c]) = linesRead fs := by
      rw [linesRead_byte, if_neg hne, add_zero]
    refine ⟨⟨s.buf ++ [c], s.summary⟩, es, by rw [if_neg hne, if_pos (by omega)], ?_, ?_, h.summary,
      ?_, ?_⟩
    · rw [bytesRead_byte, hlines, h.read, List.append_assoc]
    · intro hmem
      exact hline (hpre.subset hmem)
    · rw [hlines, h.reports]
    · rw [hlines, linesObserved_byte, h.recent]

/-- **The end of the input**: between two lines it changes nothing; where only the newline is missing, it
stands for it; within a line it ends the program.
Source: `bufio`, `ScanLines`; `udping_otelsender.go`, `main`
Kind: L -/
theorem Scanned.step_eof (h : Scanned parseFloat w rs fs s es)
    (hread : ∀ r ∈ rs, Readable parseFloat w r) (hpre : bytesRead fs <+: console w rs) :
    (Whole (bytesRead fs) → s.step parseFloat .eof = some s) ∧
      (¬Whole (bytesRead fs) → bytesRead fs ++ [10] <+: console w rs →
        s.step parseFloat .eof = s.step parseFloat (.byte 10)) ∧
      (¬Whole (bytesRead fs) → ¬bytesRead fs ++ [10] <+: console w rs →
        s.step parseFloat .eof = none) := by
  rw [h.whole_iff hread]
  refine ⟨fun hbuf => (h.eof hbuf).1, fun hbuf _ => ?_, fun hbuf hnewline => ?_⟩
  · have hbyte : s.byte parseFloat 10 = s.endLine parseFloat := if_pos rfl
    exact (if_neg hbuf).trans hbyte.symm
  · obtain ⟨hlt, line, obj, -, hline, -, -, hparts, hrest⟩ :=
      h.exists_line hread (by rwa [List.append_nil]) (t := []) (by rwa [List.append_nil])
    have hpart := (hrest []).mp (by rwa [List.append_nil])
    rw [List.append_nil] at hpart
    rw [hrest] at hnewline
    have hne : s.buf ≠ line := by
      intro heq
      refine hnewline ?_
      rw [heq, List.prefix_append_right_inj]
      exact List.cons_prefix_cons.mpr ⟨rfl, List.nil_prefix⟩
    have hshort : s.buf <+: line := by
      rcases List.prefix_or_prefix_of_prefix hpart (List.prefix_append line _) with hle | ⟨t, ht⟩
      · exact hle
      · rw [← ht, List.prefix_append_right_inj] at hpart
        cases t with
        | nil => exact absurd ((List.append_nil line).symm.trans ht).symm hne
        | cons c t =>
            refine absurd ?_ h.unended
            rw [← ht, (List.cons_prefix_cons.mp hpart).1]
            simp
    change s.eof parseFloat = none
    rw [Scanner.eof, if_neg hbuf, Scanner.endLine, hparts s.buf hbuf hshort hne, Option.map_none]

/-- **The program reads the console of a server**, as far as it has come and whenever the callbacks come.
Source: `udping_otelsender.go`, `main`
Kind: P -/
theorem scanned_run (hread : ∀ r ∈ rs, Readable parseFloat w r)
    (hpre : bytesRead fs <+: console w rs) (huncut : Uncut fs) :
    ∃ s es, (scanner parseFloat).run fs = some s ∧ Scanned parseFloat w rs fs s es := by
  induction fs using List.reverseRecOn with
  | nil => exact ⟨⟨[], .empty⟩, [], rfl, rfl, List.not_mem_nil, rfl, rfl, rfl⟩
  | append_singleton fs e ih =>
      rw [EventMachine.run_concat]
      have hbefore : Uncut fs := fun pre hpre => huncut pre (hpre.trans (List.prefix_append _ _))
      cases e with
      | byte c =>
          rw [bytesRead_byte] at hpre
          obtain ⟨s, es, hrun, hscanned⟩ := ih ((List.prefix_append _ _).trans hpre) hbefore
          obtain ⟨s', es', hstep, hscanned'⟩ := hscanned.byte hread hpre
          exact ⟨s', es', by rw [hrun]; exact hstep, hscanned'⟩
      | eof =>
          rw [bytesRead_eof] at hpre
          obtain ⟨s, es, hrun, hscanned⟩ := ih hpre hbefore
          have hbuf := (hscanned.whole_iff hread).mp (huncut fs List.prefix_rfl)
          obtain ⟨hstep, hscanned'⟩ := hscanned.eof hbuf
          exact ⟨s, es, by rw [hrun]; exact hstep, hscanned'⟩
      | callback =>
          rw [bytesRead_callback] at hpre
          obtain ⟨s, es, hrun, hscanned⟩ := ih hpre hbefore
          obtain ⟨s', hstep, hscanned'⟩ := hscanned.callback
          exact ⟨s', _, by rw [hrun]; exact hstep, hscanned'⟩

end Scan

/-! ## Sums -/

/-- Numbers of 32 bits, fewer than `2 ^ 31` of them, add up in 64 bits.
Source: `udping_otelsender.go`, `datapoint`
Kind: L -/
theorem inRange_sum {l : List ℤ} (hlength : l.length < 2 ^ 31)
    (h : ∀ x ∈ l, -2 ^ 31 ≤ x ∧ x ≤ 2 ^ 31) : InRange l.sum := by
  have hbound : ∀ l : List ℤ, (∀ x ∈ l, -2 ^ 31 ≤ x ∧ x ≤ 2 ^ 31) →
      -(2 ^ 31 * l.length) ≤ l.sum ∧ l.sum ≤ 2 ^ 31 * (l.length : ℤ) := by
    intro l hl
    induction l with
    | nil => simp
    | cons x l ih =>
        obtain ⟨hlo, hhi⟩ := ih fun y hy => hl y (List.mem_cons_of_mem x hy)
        obtain ⟨hxlo, hxhi⟩ := hl x List.mem_cons_self
        rw [List.sum_cons, List.length_cons]
        push_cast
        constructor <;> linarith
  obtain ⟨hlo, hhi⟩ := hbound l h
  unfold InRange
  constructor <;> omega

/-- Rounding the terms of a sum. Source: `printf`, `%lf`. Kind: L -/
theorem abs_sum_rounded_sub_le (xs : List ℚ) :
    |(xs.map rounded).sum - xs.sum| ≤ xs.length / 2000000 := by
  induction xs with
  | nil => simp
  | cons x xs ih =>
      have hx := abs_rounded_sub_le x
      rw [abs_le] at ih hx ⊢
      simp only [List.map_cons, List.sum_cons, List.length_cons]
      push_cast
      constructor <;> linarith

theorem sum_map_sub {α : Type*} (f g : α → ℤ) (l : List α) :
    (l.map fun x => f x - g x).sum = (l.map f).sum - (l.map g).sum := by
  induction l with
  | nil => rfl
  | cons x l ih =>
      simp only [List.map_cons, List.sum_cons, ih]
      ring

/-- The numbers of a report are those of a period that is not too long.
Source: `stats.cc`, `Stats::addDataPoint`
Kind: D -/
structure Countable (r : Server.Report) : Prop where
  pos : 1 ≤ r.stats.count
  count : r.stats.count < 2 ^ 31
  targetCount : r.stats.targetCount.toNat < 2 ^ 31

/-- The reports that name a host. Source: `udping_otelsender.go`, `main`. Kind: D -/
def naming (host : Bytes) (rs : List Server.Report) : List Server.Report :=
  rs.filter fun r => peerCopy r.peer = host

/-- All reports name one receiver. Source: `statswriter.cc`, `writeConsoleStats`. Kind: L -/
theorem ofPair_readOf (w : StatsWriter) (host : Bytes) (rs : List Server.Report) :
    ofPair host (cString w.receiveHostname) (rs.map (readOf w)) = (naming host rs).map (readOf w) := by
  rw [ofPair, List.filter_map, naming]
  congr 1
  refine List.filter_congr fun r _ => decide_eq_decide.mpr ?_
  exact ⟨fun h => h.1, fun h => ⟨h, rfl⟩⟩

section Exports

variable {parseFloat : Bytes → Option ℚ} {w : StatsWriter} {rs late : List Server.Report}
  {es : List LinkEvent}

/-- **The sums of a server's reports fit.** Source: `udping_otelsender.go`, `main`. Kind: L -/
theorem fits_of_readOf (hall : reports parseFloat es = rs.map (readOf w))
    (hlate : recent parseFloat es = late.map (readOf w)) (hsub : late.Sublist rs)
    (hrs : ∀ r ∈ rs, Countable r) (hlength : rs.length < 2 ^ 31) : Fits parseFloat es := by
  have hsum : ∀ (f : Report → ℤ) (l : List Server.Report), l.Sublist rs →
      (∀ r ∈ rs, -2 ^ 31 ≤ f (readOf w r) ∧ f (readOf w r) ≤ 2 ^ 31) → ∀ r ∈ reports parseFloat es,
        InRange ((ofPair r.fromHost r.toHost (l.map (readOf w))).map f).sum := by
    intro f l hl hf r hr
    rw [hall] at hr
    obtain ⟨r', hr', rfl⟩ := List.mem_map.mp hr
    rw [show (readOf w r').toHost = cString w.receiveHostname from rfl, ofPair_readOf]
    have hname : (naming (readOf w r').fromHost l).Sublist rs := List.filter_sublist.trans hl
    apply inRange_sum
    · rw [List.length_map, List.length_map]
      exact lt_of_le_of_lt hname.length_le hlength
    · intro x hx
      obtain ⟨r₁, hr₁, rfl⟩ := List.mem_map.mp hx
      obtain ⟨r₂, hr₂, rfl⟩ := List.mem_map.mp hr₁
      exact hf r₂ (hname.subset hr₂)
  have hcount : ∀ r ∈ rs, 0 ≤ (readOf w r).count ∧ (readOf w r).count ≤ 2 ^ 31 := by
    intro r hr
    have hpos := (hrs r hr).pos
    have hlt := (hrs r hr).count
    exact ⟨by dsimp only [readOf]; omega, by dsimp only [readOf]; omega⟩
  have htarget : ∀ r ∈ rs, 0 ≤ (readOf w r).targetCount ∧ (readOf w r).targetCount ≤ 2 ^ 31 := by
    intro r hr
    have hlt := (hrs r hr).targetCount
    exact ⟨by dsimp only [readOf]; omega, by dsimp only [readOf]; omega⟩
  refine ⟨fun r hr r' hr' hkey => ?_, ?_, ?_, fun r hr => Or.inr ⟨?_, ?_⟩⟩
  · rw [hall] at hr hr'
    obtain ⟨r₁, -, rfl⟩ := List.mem_map.mp hr
    obtain ⟨r₂, -, rfl⟩ := List.mem_map.mp hr'
    exact ⟨List.append_cancel_right (List.append_cancel_right hkey), rfl⟩
  · have h := hsum Report.targetCount rs (List.Sublist.refl rs) fun r hr => by
      have := htarget r hr
      omega
    rwa [← hall] at h
  · have h := hsum (fun r => r.targetCount - r.count) rs (List.Sublist.refl rs) fun r hr => by
      have := htarget r hr
      have := hcount r hr
      omega
    rwa [← hall] at h
  · rw [hlate]
    refine List.sum_nonneg fun x hx => ?_
    obtain ⟨r₁, hr₁, rfl⟩ := List.mem_map.mp hx
    obtain ⟨r₂, hr₂, rfl⟩ := List.mem_map.mp (List.mem_of_mem_filter hr₁)
    exact (hcount r₂ (hsub.subset hr₂)).1
  · have h := hsum Report.count late hsub fun r hr => by
      have := hcount r hr
      omega
    rw [hlate]
    exact h r hr

/-- **What is exported for a host.** Source: `udping_otelsender.go`, `main`. Kind: L -/
theorem filter_exports_readOf (hall : reports parseFloat es = rs.map (readOf w))
    (hlate : recent parseFloat es = late.map (readOf w)) (hsub : late.Sublist rs)
    (hrs : ∀ r ∈ rs, Countable r) (hlength : rs.length < 2 ^ 31) (host : Bytes) :
    ((exports ((sender parseFloat).run es)).filter fun o => o.fromHost = host) =
      if naming host rs = [] then []
      else [expected parseFloat es host (cString w.receiveHostname)] := by
  have hexact := exportsExact_of_fits (fits_of_readOf hall hlate hsub hrs hlength)
  have hto : ∀ o ∈ exports ((sender parseFloat).run es), o.toHost = cString w.receiveHostname := by
    intro o ho
    have hmem : o ∈ (exports ((sender parseFloat).run es)).filter
        fun o' => o'.fromHost = o.fromHost ∧ o'.toHost = o.toHost :=
      List.mem_filter.mpr ⟨ho, decide_eq_true ⟨rfl, rfl⟩⟩
    rw [hexact o.fromHost o.toHost] at hmem
    split_ifs at hmem with hpair
    · exact absurd hmem List.not_mem_nil
    · obtain ⟨r, hr⟩ := List.exists_mem_of_ne_nil _ hpair
      obtain ⟨hr, hhosts⟩ := List.mem_filter.mp hr
      rw [hall] at hr
      obtain ⟨r', -, rfl⟩ := List.mem_map.mp hr
      exact (of_decide_eq_true hhosts).2.symm
  have hnone : ofPair host (cString w.receiveHostname) (reports parseFloat es) = [] ↔
      naming host rs = [] := by
    rw [hall, ofPair_readOf, List.map_eq_nil_iff]
  have hpair := hexact host (cString w.receiveHostname)
  simp only [hnone] at hpair
  rw [← hpair]
  refine List.filter_congr fun o ho => decide_eq_decide.mpr ?_
  exact ⟨fun h => ⟨h, hto o ho⟩, fun h => h.1⟩

end Exports

/-! ## The periods behind the sums -/

/-- The packets of the periods. Source: none: abstract model. Kind: D -/
def packetsOf (bs : List (Σ g, Batch g)) : List Arrival := (bs.map fun b => b.2.arrivals).flatten

/-- The periods whose first packet came from a host, as it is printed.
Source: `statswriter.cc`, `StatsWriter::writeStats`
Kind: D -/
def ofHost (host : Bytes) (bs : List (Σ g, Batch g)) : List (Σ g, Batch g) :=
  bs.filter fun b => peerCopy b.2.first.peer = host

/-- What is told of a host with the reports `rs` about the periods `bs`: how many packets came in.
Source: none: specification
Kind: D -/
structure HostTotals (w : StatsWriter) (host : Bytes) (rs : List Server.Report)
    (bs : List (Σ g, Batch g)) (o : Observation) : Prop where
  fromHost : o.fromHost = host
  toHost : o.toHost = cString w.receiveHostname
  targetCount : o.targetCount = (rs.map fun r => (r.stats.targetCount.toNat : ℤ)).sum
  received : o.targetCount - o.dropCount = (packetsOf bs).length

/-- What is told of the periods `bs`: the mean latency of their packets, up to the rounding in the
reports. Source: none: specification. Kind: D -/
structure MeanLatency (bs : List (Σ g, Batch g)) (o : Observation) : Prop where
  silent : bs = [] → o.latency = 0
  latency : bs ≠ [] → |o.latency - ((packetsOf bs).map Arrival.latency).sum /
    (packetsOf bs).length| ≤ 1 / 2000000

theorem packetsOf_filter (bs : List (Σ g, Batch g)) (g : Bytes) :
    (packetsOf bs).filter (fun a => a.ph.guid = g) =
      ((bs.filter fun b => b.1 = g).map fun b => b.2.arrivals).flatten := by
  induction bs with
  | nil => rfl
  | cons b bs ih =>
      rw [packetsOf, List.map_cons, List.flatten_cons, List.filter_append]
      rw [packetsOf] at ih
      rw [ih]
      by_cases hg : b.1 = g
      · rw [@List.filter_cons_of_pos _ _ b bs (decide_eq_true hg), List.map_cons, List.flatten_cons]
        congr 1
        exact List.filter_eq_self.mpr fun a ha => decide_eq_true ((b.2.carries a ha).trans hg)
      · rw [List.filter_cons_of_neg (by simpa using hg)]
        refine List.append_left_eq_self.mpr (List.filter_eq_nil_iff.mpr fun a ha => ?_)
        simpa [b.2.carries a ha] using hg

/-- **The packets of the closed periods have arrived.**
Source: `serversession.cc`, `receivePing`
Kind: L -/
theorem packetsOf_closed_subperm {keepalive : ℤ} {es : List Server.Event} (hes : Server.Admissible keepalive es) :
    List.Subperm (packetsOf (ledgerOf keepalive es).closed) (arrivals es) := by
  obtain ⟨hrun, -⟩ := ledgerOf_spec hes
  apply List.subperm_ext_iff.mpr
  intro a ha
  have hcount : ∀ l : List Arrival,
      l.count a = (l.filter fun a' => a'.ph.guid = a.ph.guid).count a := by
    intro l
    rw [List.count_filter]
    exact decide_eq_true rfl
  rw [hcount, hcount (arrivals es), packetsOf_filter, hrun.segments, List.count_append]
  exact Nat.le_add_right _ _

section Periods

variable {keepalive : ℤ} {es : List Server.Event}

/-- Every period has a packet. Source: none: abstract model. Kind: L -/
theorem length_le_packetsOf (bs : List (Σ g, Batch g)) : bs.length ≤ (packetsOf bs).length := by
  induction bs with
  | nil => exact Nat.zero_le _
  | cons b bs ih =>
      rw [packetsOf, List.map_cons, List.flatten_cons, List.length_append, List.length_cons]
      have hpos : 1 ≤ b.2.arrivals.length := List.length_pos_of_ne_nil (List.cons_ne_nil _ _)
      rw [packetsOf] at ih
      omega

theorem length_arrivals_le {bs : List (Σ g, Batch g)} {b : Σ g, Batch g} (hb : b ∈ bs) :
    b.2.arrivals.length ≤ (packetsOf bs).length :=
  (List.sublist_flatten_of_mem (List.mem_map_of_mem (f := fun b => b.2.arrivals) hb)).length_le

theorem packetsOf_sublist {bs bs' : List (Σ g, Batch g)} (h : bs.Sublist bs') :
    (packetsOf bs).Sublist (packetsOf bs') := (h.map _).flatten

/-- The numbers of reports add up over the packets. Source: `stats.cc`, `Stats::addDataPoint`. Kind: L -/
theorem sums_of_reportOf {rs : List Server.Report} {bs : List (Σ g, Batch g)}
    (h : List.Forall₂ ReportOf rs bs) (hsize : (packetsOf bs).length < 2 ^ 31) :
    (rs.map fun r => r.stats.count).sum = (packetsOf bs).length ∧
      (rs.map fun r => r.stats.sum).sum = ((packetsOf bs).map Arrival.latency).sum := by
  have hacc : List.Forall₂ Accounts (rs.map Report.stats) (bs.map fun b => b.2.arrivals) := by
    rw [List.forall₂_map_left_iff, List.forall₂_map_right_iff]
    exact h.imp fun r b hrb => hrb.accounts.2
  have hcount := count_of_accounts hacc fun as has => by
    obtain ⟨b, hb, rfl⟩ := List.mem_map.mp has
    exact lt_of_le_of_lt (length_arrivals_le hb) hsize
  have hsum := (sums_of_accounts hacc).1
  rw [List.map_map] at hcount hsum
  exact ⟨hcount, hsum⟩

/-- The reports of short periods are countable. Source: `stats.cc`, `Stats::addDataPoint`. Kind: L -/
theorem countable_of_reportOf {r : Server.Report} {b : Σ g, Batch g} (h : ReportOf r b)
    (hsize : b.2.arrivals.length < 2 ^ 31) (htarget : r.stats.targetCount.toNat < 2 ^ 31) :
    Countable r := by
  have hpos : 1 ≤ b.2.arrivals.length := List.length_pos_of_ne_nil (List.cons_ne_nil _ _)
  have hcount : r.stats.count = b.2.arrivals.length := by
    rw [h.accounts.2.count]
    exact cInt_of_range (by omega) (by omega)
  exact ⟨by omega, by omega, htarget⟩

/-- The reports that name a host are about its periods. Source: `statswriter.cc`, `writeStats`.
Kind: L -/
theorem naming_reportOf {rs : List Server.Report} {bs : List (Σ g, Batch g)}
    (h : List.Forall₂ ReportOf rs bs) (host : Bytes) :
    List.Forall₂ ReportOf (naming host rs) (ofHost host bs) := by
  refine List.rel_filter (fun r b hrb => ?_) h
  simp [hrb.label.1]

section Expected

variable {parseFloat : Bytes → Option ℚ} {w : StatsWriter} {host : Bytes} {les : List LinkEvent}
  {rs : List Server.Report} {bs : List (Σ g, Batch g)}

/-- **The exact sums over reports tell of their periods.** Source: `udping_otelsender.go`, `main`.
Kind: P -/
theorem hostTotals_expected
    (hrs : ofPair host (cString w.receiveHostname) (reports parseFloat les) = rs.map (readOf w))
    (hbs : List.Forall₂ ReportOf rs bs) (hsize : (packetsOf bs).length < 2 ^ 31) :
    HostTotals w host rs bs (expected parseFloat les host (cString w.receiveHostname)) := by
  obtain ⟨hcount, -⟩ := sums_of_reportOf hbs hsize
  refine ⟨rfl, rfl, ?_, ?_⟩
  · simp only [expected, hrs, List.map_map]
    rfl
  · rw [← hcount]
    simp only [expected, hrs, List.map_map, Function.comp_def, readOf, sum_map_sub]
    omega

/-- **And of the latencies in the periods since the last callback.**
Source: `udping_otelsender.go`, `main`
Kind: P -/
theorem meanLatency_expected
    (hrs : ofPair host (cString w.receiveHostname) (recent parseFloat les) = rs.map (readOf w))
    (hbs : List.Forall₂ ReportOf rs bs) (hsize : (packetsOf bs).length < 2 ^ 31) :
    MeanLatency bs (expected parseFloat les host (cString w.receiveHostname)) := by
  obtain ⟨hcount, hsum⟩ := sums_of_reportOf hbs hsize
  have hlatency : (expected parseFloat les host (cString w.receiveHostname)).latency =
      ((rs.map fun r => r.stats.sum).map rounded).sum / (packetsOf bs).length := by
    have hmean := latency_expected (rs.map (readOf w))
    rw [← hrs] at hmean
    refine hmean.trans ?_
    rw [hrs, List.map_map, List.map_map, List.map_map, ← Int.cast_natCast, ← hcount]
    rfl
  constructor
  · intro hnil
    rw [hlatency, hnil]
    simp [packetsOf]
  · intro hne
    have hpos : (0 : ℚ) < (packetsOf bs).length := by
      have hle := length_le_packetsOf bs
      have hbspos := List.length_pos_of_ne_nil hne
      exact_mod_cast lt_of_lt_of_le hbspos hle
    have hround := abs_sum_rounded_sub_le (rs.map fun r => r.stats.sum)
    have hle : ((rs.map fun r => r.stats.sum).length : ℚ) ≤ (packetsOf bs).length := by
      rw [List.length_map, hbs.length_eq]
      exact_mod_cast length_le_packetsOf bs
    rw [hlatency, ← hsum, ← sub_div, abs_div, abs_of_pos hpos, div_le_iff₀ hpos]
    linarith

end Expected

end Periods

/-! ## The result -/

/-- The periods that the reports read so far are about, where the server has come to `es`.
Source: none: specification
Kind: D -/
def periodsRead (keepalive : ℤ) (es : List Server.Event) (fs : List PipeEvent) : List (Σ g, Batch g) :=
  (ledgerOf keepalive es).closed.take (linesRead fs)

/-- What a callback after the events `fs` exports for a host, where the server has come to `es`.
Source: none: specification
Kind: D -/
def Exported (w : StatsWriter) (keepalive : ℤ) (es : List Server.Event) (fs : List PipeEvent)
    (summary : Summary) (host : Bytes) : Prop :=
  let observations := (exports summary).filter fun o => o.fromHost = host
  let rs := ((Server.machine keepalive).run es).written.take (linesRead fs)
  if ofHost host (periodsRead keepalive es fs) = [] then observations = []
  else ∃ o, observations = [o] ∧
    HostTotals w host (naming host rs) (ofHost host (periodsRead keepalive es fs)) o

/-- What the end of the input does after the events `fs`, where the console goes on with other bytes:
nothing between two lines; what a newline does where only that is missing; within a line it ends the
program.
Source: `bufio`, `ScanLines`; `udping_otelsender.go`, `main`
Kind: D -/
structure AtEnd (parseFloat : Bytes → Option ℚ) (console : Bytes) (fs : List PipeEvent) : Prop where
  whole : Whole (bytesRead fs) →
    (scanner parseFloat).run (fs ++ [.eof]) = (scanner parseFloat).run fs
  newline : ¬Whole (bytesRead fs) → bytesRead fs ++ [10] <+: console →
    (scanner parseFloat).run (fs ++ [.eof]) = (scanner parseFloat).run (fs ++ [.byte 10])
  part : ¬Whole (bytesRead fs) → ¬bytesRead fs ++ [10] <+: console →
    (scanner parseFloat).run (fs ++ [.eof]) = none

section Run

variable {parseFloat : Bytes → Option ℚ} {w : StatsWriter} {keepalive : ℤ} {es : List Server.Event}
  {fs : List PipeEvent} {s : Scanner} {les : List LinkEvent}

/-- The reports of a run are read. Source: `statswriter.cc`, `writeConsoleStats`. Kind: L -/
theorem readable_of_run (hfloat : ReadsDecimals parseFloat) (hreceiver : HostName w.receiveHostname)
    (hes : Server.Admissible keepalive es) (hpeers : ∀ a ∈ arrivals es, HostName a.peer)
    (htrans : ∀ r ∈ ((Server.machine keepalive).run es).written, Transparent w r) :
    ∀ r ∈ ((Server.machine keepalive).run es).written, Readable parseFloat w r := by
  intro r hr
  obtain ⟨⟨a, ha, hpeer⟩, hlo, hhi⟩ := written_of_run hes hr
  exact readable_of_transparent hfloat (hpeer ▸ hpeers a ha) hreceiver hlo hhi (htrans r hr)

/-- What the end of the input does to the reader of a console. Source: `udping_otelsender.go`, `main`.
Kind: L -/
theorem atEnd_of_scanned {rs : List Server.Report} (hread : ∀ r ∈ rs, Readable parseFloat w r)
    (hpre : bytesRead fs <+: console w rs) (hrun : (scanner parseFloat).run fs = some s)
    (h : Scanned parseFloat w rs fs s les) : AtEnd parseFloat (console w rs) fs := by
  have hnext : ∀ e, (scanner parseFloat).run (fs ++ [e]) = s.step parseFloat e := by
    intro e
    rw [EventMachine.run_concat, hrun]
    rfl
  obtain ⟨hwhole, hnewline, hpart⟩ := h.step_eof hread hpre
  refine ⟨fun hw => ?_, fun hw hn => ?_, fun hw hn => ?_⟩
  · rw [hnext, hrun, hwhole hw]
  · rw [hnext, hnext, hnewline hw hn]
  · rw [hnext, hpart hw hn]

/-- The packets of some of the closed periods are not too many to count.
Source: `serversession.cc`, `receivePing`
Kind: L -/
theorem packetsOf_lt (hes : Server.Admissible keepalive es) (hsize : (arrivals es).length < 2 ^ 31)
    {bs : List (Σ g, Batch g)} (hsub : bs.Sublist (ledgerOf keepalive es).closed) :
    (packetsOf bs).length < 2 ^ 31 :=
  lt_of_le_of_lt ((packetsOf_sublist hsub).length_le.trans (packetsOf_closed_subperm hes).length_le) hsize

/-- **What is read of a run is exported**: the exact sums, for each host that has been named.
Source: `udping_otelsender.go`, `main`
Kind: L -/
theorem observations_of_scanned (hes : Server.Admissible keepalive es)
    (hsize : (arrivals es).length < 2 ^ 31)
    (htarget : ∀ r ∈ ((Server.machine keepalive).run es).written, r.stats.targetCount.toNat < 2 ^ 31)
    (h : Scanned parseFloat w ((Server.machine keepalive).run es).written fs s les) (host : Bytes) :
    ((exports s.summary).filter fun o => o.fromHost = host) =
      if ofHost host (periodsRead keepalive es fs) = [] then []
      else [expected parseFloat les host (cString w.receiveHostname)] := by
  have hreports := (ledgerOf_spec hes).2.reports
  have htake := List.forall₂_take (linesRead fs) hreports
  have hcountable : ∀ r ∈ ((Server.machine keepalive).run es).written, Countable r := by
    intro r hr
    obtain ⟨b, hb, hrb : ReportOf r b⟩ := exists_zip_of_mem hreports.flip hr
    exact countable_of_reportOf hrb (lt_of_le_of_lt (length_arrivals_le (List.of_mem_zip hb).1)
      (packetsOf_lt hes hsize (List.Sublist.refl _))) (htarget r hr)
  have hlength : (((Server.machine keepalive).run es).written.take (linesRead fs)).length < 2 ^ 31 := by
    rw [htake.length_eq]
    exact lt_of_le_of_lt (length_le_packetsOf _) (packetsOf_lt hes hsize (List.take_sublist _ _))
  have hnone : naming host (((Server.machine keepalive).run es).written.take (linesRead fs)) = [] ↔
      ofHost host (periodsRead keepalive es fs) = [] := by
    rw [← List.length_eq_zero_iff, (naming_reportOf htake host).length_eq, List.length_eq_zero_iff,
      periodsRead]
  have hfilter := filter_exports_readOf h.reports h.recent (List.drop_sublist _ _)
    (fun r hr => hcountable r (List.mem_of_mem_take hr)) hlength host
  simp only [hnone] at hfilter
  rw [h.summary, hfilter]

/-- The counts. Source: `udping_otelsender.go`, `main`. Kind: L -/
theorem exported_of_scanned (hes : Server.Admissible keepalive es)
    (hsize : (arrivals es).length < 2 ^ 31)
    (htarget : ∀ r ∈ ((Server.machine keepalive).run es).written, r.stats.targetCount.toNat < 2 ^ 31)
    (h : Scanned parseFloat w ((Server.machine keepalive).run es).written fs s les) (host : Bytes) :
    Exported w keepalive es fs s.summary host := by
  unfold Exported
  dsimp only
  rw [observations_of_scanned hes hsize htarget h host]
  split_ifs with hempty
  · rfl
  · have htake := List.forall₂_take (linesRead fs) (ledgerOf_spec hes).2.reports
    refine ⟨_, rfl, hostTotals_expected ?_ (naming_reportOf htake host) ?_⟩
    · rw [h.reports, ofPair_readOf]
    · exact packetsOf_lt hes hsize (List.filter_sublist.trans (List.take_sublist _ _))

/-- The latencies. Source: `udping_otelsender.go`, `main`. Kind: L -/
theorem meanLatency_of_scanned (hes : Server.Admissible keepalive es)
    (hsize : (arrivals es).length < 2 ^ 31)
    (htarget : ∀ r ∈ ((Server.machine keepalive).run es).written, r.stats.targetCount.toNat < 2 ^ 31)
    (h : Scanned parseFloat w ((Server.machine keepalive).run es).written fs s les) {host : Bytes}
    {o : Observation} (ho : o ∈ exports s.summary) (hhost : o.fromHost = host) :
    MeanLatency (ofHost host ((periodsRead keepalive es fs).drop (linesObserved fs))) o := by
  have hmem : o ∈ (exports s.summary).filter fun o => o.fromHost = host :=
    List.mem_filter.mpr ⟨ho, decide_eq_true hhost⟩
  rw [observations_of_scanned hes hsize htarget h host] at hmem
  split_ifs at hmem
  · cases hmem
  · have htake := List.forall₂_take (linesRead fs) (ledgerOf_spec hes).2.reports
    have hlate := List.forall₂_drop (linesObserved fs) htake
    rw [List.mem_singleton.mp hmem]
    refine meanLatency_expected ?_ (naming_reportOf hlate host) ?_
    · rw [h.recent, ofPair_readOf]
    · exact packetsOf_lt hes hsize (List.filter_sublist.trans
        ((List.drop_sublist _ _).trans (List.take_sublist _ _)))

/-- **The exported metrics tell what the server received.** Where the reports are transparent, the
program reads the console of a server, as far as it has come and whenever callbacks come; and for each
host, a callback exports one observation if a report read so far names it, none otherwise: the sum of
the target counts of these reports; and less the drop count, the number of packets in the measurement
periods that they are about. Where its input ends within a line, the program ends.
Source: `serversession.cc`, `receivePing`, `sweepServerSessions`; `statswriter.cc`, `writeConsoleStats`;
`udping_otelsender.go`, `main`
Kind: P -/
theorem console_exported (hfloat : ReadsDecimals parseFloat) (hreceiver : HostName w.receiveHostname)
    (hes : Server.Admissible keepalive es) (hpeers : ∀ a ∈ arrivals es, HostName a.peer)
    (hsize : (arrivals es).length < 2 ^ 31)
    (htrans : ∀ r ∈ ((Server.machine keepalive).run es).written, Transparent w r)
    (hpre : bytesRead fs <+: console w ((Server.machine keepalive).run es).written)
    (huncut : Uncut fs) :
    ∃ s, (scanner parseFloat).run fs = some s ∧ (∀ host, Exported w keepalive es fs s.summary host) ∧
      AtEnd parseFloat (console w ((Server.machine keepalive).run es).written) fs := by
  have hread := readable_of_run hfloat hreceiver hes hpeers htrans
  obtain ⟨s, les, hrun, hscanned⟩ := scanned_run hread hpre huncut
  exact ⟨s, hrun, exported_of_scanned hes hsize (fun r hr => (htrans r hr).target) hscanned,
    atEnd_of_scanned hread hpre hrun hscanned⟩

/-- **And the latencies**: for each host, a callback exports, to half a millionth, the mean latency of
the packets in those of the periods whose reports were read since the last callback, and zero if there
are none. The arithmetic is exact.
Source: `serversession.cc`, `receivePing`; `statswriter.cc`, `writeConsoleStats`;
`udping_otelsender.go`, `main`
Kind: P -/
theorem latency_exported (hfloat : ReadsDecimals parseFloat) (hreceiver : HostName w.receiveHostname)
    (hes : Server.Admissible keepalive es) (hpeers : ∀ a ∈ arrivals es, HostName a.peer)
    (hsize : (arrivals es).length < 2 ^ 31)
    (htrans : ∀ r ∈ ((Server.machine keepalive).run es).written, Transparent w r)
    (hpre : bytesRead fs <+: console w ((Server.machine keepalive).run es).written)
    (huncut : Uncut fs) :
    ∃ s, (scanner parseFloat).run fs = some s ∧ ∀ o ∈ exports s.summary,
      MeanLatency (ofHost o.fromHost ((periodsRead keepalive es fs).drop (linesObserved fs))) o := by
  obtain ⟨s, les, hrun, hscanned⟩ :=
    scanned_run (readable_of_run hfloat hreceiver hes hpeers htrans) hpre huncut
  exact ⟨s, hrun, fun o ho =>
    meanLatency_of_scanned hes hsize (fun r hr => (htrans r hr).target) hscanned ho rfl⟩

end Run

/-- The console of `exampleRun`, with a callback after the first byte. Source: none: example. Kind: D -/
def examplePipe : List PipeEvent :=
  let bytes := (console exampleWriter ((Server.machine 10).run (exampleRun (ascii "g"))).written).map .byte
  bytes.take 1 ++ .callback :: bytes.drop 1

theorem written_exampleRun : ((Server.machine 10).run (exampleRun (ascii "g"))).written =
    [⟨ascii "g", ascii "h", 5000, ⟨1, 1, 1, 1, 1⟩, 100⟩] := by
  decide +kernel

theorem transparent_exampleRun : ∀ r ∈ ((Server.machine 10).run (exampleRun (ascii "g"))).written,
    Transparent exampleWriter r := by
  rw [written_exampleRun]
  intro r hr
  obtain rfl := List.mem_singleton.mp hr
  exact transparent_of_plain (by decide) (by decide) (by decide) (by decide +kernel) (by decide)

/-- Without the end of the input there is nothing to cut. Source: none: infrastructure. Kind: L -/
theorem uncut_of_notMem {fs : List PipeEvent} (h : PipeEvent.eof ∉ fs) : Uncut fs := fun _ hpre =>
  absurd (hpre.subset (by simp)) h

theorem console_exported_examplePipe :
    ∃ s o, (scanner readDecimal).run examplePipe = some s ∧
      (exports s.summary).filter (fun o => o.fromHost = ascii "h") = [o] ∧
      o.targetCount = 1 ∧ o.dropCount = 0 ∧ (scanner readDecimal).run (examplePipe ++ [.eof]) = some s := by
  obtain ⟨s, hrun, hhost, hend⟩ := @console_exported readDecimal exampleWriter 10
    (exampleRun (ascii "g")) examplePipe (fun s x h => h) (by decide +kernel) (by decide +kernel)
    (by decide +kernel) (by decide +kernel) transparent_exampleRun (by decide +kernel)
    (uncut_of_notMem (by decide +kernel))
  have hsome : ofHost (ascii "h") (periodsRead 10 (exampleRun (ascii "g")) examplePipe) ≠ [] := by
    decide +kernel
  obtain ⟨o, ho, htotals⟩ := (if_neg hsome).mp (hhost (ascii "h"))
  have htarget : o.targetCount = 1 := htotals.targetCount.trans (by decide +kernel)
  have hreceived : o.targetCount - o.dropCount = 1 := htotals.received.trans (by decide +kernel)
  exact ⟨s, o, hrun, ho, htarget, by omega, (hend.whole (Or.inr (by decide +kernel))).trans hrun⟩

theorem latency_exported_examplePipe :
    ∃ s, (scanner readDecimal).run examplePipe = some s ∧ ∀ o ∈ exports s.summary,
      o.fromHost = ascii "h" → |o.latency - 1| ≤ 1 / 2000000 := by
  obtain ⟨s, hrun, hlatency⟩ := @latency_exported readDecimal exampleWriter 10
    (exampleRun (ascii "g")) examplePipe (fun s x h => h) (by decide +kernel) (by decide +kernel)
    (by decide +kernel) (by decide +kernel) transparent_exampleRun (by decide +kernel)
    (uncut_of_notMem (by decide +kernel))
  refine ⟨s, hrun, fun o ho hhost => ?_⟩
  have hmean := hlatency o ho
  rw [hhost] at hmean
  have hvalue := hmean.latency (by decide +kernel)
  rwa [show (((packetsOf _).map Arrival.latency).sum / ((packetsOf _).length : ℚ) : ℚ) = 1 by
    decide +kernel] at hvalue

end UDPing.Otel
