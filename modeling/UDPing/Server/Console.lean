import UDPing.Lib.Json
import UDPing.Lib.Strings
import UDPing.Server.Attribution

/-!
# What a server prints

`StatsWriter::writeStats` and `writeConsoleStats` (`statswriter.cc`).

* `longFloat` is what `printf` writes for a `double`, to six places, ties to the even neighbour.
* `writeConsoleStats_eq`: the text is an object whose values stand between quotes as they are, and a
  line feed.
* `written_of_run`: the peers and counts of the reports of a run.
-/

namespace UDPing.Server

open Lib

/-! ## Numbers -/

/-- The nearest integer, the even one of two. Source: `printf`, `%lf`. Kind: D -/
def roundEven (q : ℚ) : ℤ :=
  let n := q.floor
  if q - n < 1 / 2 ∨ (q - n = 1 / 2 ∧ n % 2 = 0) then n else n + 1

/-- Source: `printf`, `%lf`. Kind: D. Fidelity: a `double` is an exact rational -/
def longFloat (q : ℚ) : Bytes :=
  let n := (roundEven (|q| * 1000000)).toNat
  (if q < 0 then ascii "-" else []) ++ decimal (n / 1000000) ++ ascii "." ++
    (decimal (1000000 + n % 1000000)).tail

/-- What `%d` writes for an `unsigned`. Source: `printf`, `%d`. Kind: D -/
def intOfUnsigned (n : UInt32) : Bytes := signed (cInt n.toNat)

/-! ## The writer -/

/-- Source: `statswriter.h`, `StatsWriter`. Kind: D. Fidelity: what the console output reads -/
structure StatsWriter where
  receiveHostname : Bytes
  listenPort : ℤ

/-- `printf ("\"name\":\"%…\"", …)`. Source: `statswriter.cc`, `writeConsoleStats`. Kind: D -/
def printMember (name : String) (value : Bytes) : Bytes :=
  ascii "\"" ++ ascii name ++ ascii "\":\"" ++ value ++ ascii "\""

namespace StatsWriter

/-- Source: `statswriter.cc`, `StatsWriter::writeConsoleStats`. Kind: D -/
def writeConsoleStats (w : StatsWriter) (guid peer : Bytes) (port : UInt16) (stats : Stats)
    (now : Time) : Bytes :=
  ascii "\x7b" ++
  printMember "time" (signed now) ++ ascii "," ++
  printMember "from_host" (cString peer) ++ ascii "," ++
  printMember "from_port" (decimal port.toNat) ++ ascii "," ++
  printMember "to_host" (cString w.receiveHostname) ++ ascii "," ++
  printMember "to_port" (signed w.listenPort) ++ ascii "," ++
  printMember "guid" (cString guid) ++ ascii "," ++
  printMember "count" (signed stats.count) ++ ascii "," ++
  printMember "targetCount" (intOfUnsigned stats.targetCount) ++ ascii "," ++
  printMember "sum" (longFloat stats.sum) ++ ascii "," ++
  printMember "sumOfSquares" (longFloat stats.sumOfSquares) ++ ascii "," ++
  printMember "max" (longFloat stats.max) ++
  ascii "\x7d\n"

/-- The copy of a peer with its dots replaced. Source: `statswriter.cc`, `StatsWriter::writeStats`.
Kind: D -/
def peerCopy (peer : Bytes) : Bytes := (cString peer).map fun c => if c = 46 then 95 else c

/-- What is printed of a report. Source: `statswriter.cc`, `StatsWriter::writeStats`. Kind: D.
Fidelity: the writer is not quiet -/
def print (w : StatsWriter) (r : Report) : Bytes :=
  w.writeConsoleStats r.guid (peerCopy r.peer) r.port r.stats r.now

/-! ## The text as an object -/

/-- The members before the GUID. Source: `statswriter.cc`, `writeConsoleStats`. Kind: D -/
def hosts (w : StatsWriter) (r : Report) : List Json.Member :=
  [(ascii "time", signed r.now), (ascii "from_host", peerCopy r.peer),
    (ascii "from_port", decimal r.port.toNat), (ascii "to_host", cString w.receiveHostname),
    (ascii "to_port", signed w.listenPort)]

/-- The members after the GUID. Source: `statswriter.cc`, `writeConsoleStats`. Kind: D -/
def numbers (stats : Stats) : List Json.Member :=
  [(ascii "count", signed stats.count), (ascii "targetCount", intOfUnsigned stats.targetCount),
    (ascii "sum", longFloat stats.sum), (ascii "sumOfSquares", longFloat stats.sumOfSquares),
    (ascii "max", longFloat stats.max)]

/-- All members. Source: `statswriter.cc`, `writeConsoleStats`. Kind: D -/
def members (w : StatsWriter) (r : Report) : List Json.Member :=
  w.hosts r ++ (ascii "guid", cString r.guid) :: numbers r.stats

/-- Copying leaves no NUL to stop at. Source: none: infrastructure. Kind: L -/
theorem cString_peerCopy (peer : Bytes) : cString (peerCopy peer) = peerCopy peer := by
  refine List.takeWhile_eq_self_iff.mpr fun c hc => ?_
  obtain ⟨d, hd, rfl⟩ := List.mem_map.mp hc
  have hne : d ≠ 0 := by simpa using List.mem_takeWhile_imp hd
  split <;> simp [hne]

/-- Source: `statswriter.cc`, `writeConsoleStats`. Kind: L -/
theorem printMember_eq (name : String) (value : Bytes) :
    printMember name value = Json.memberText (ascii name, value) := by
  have hquote : ascii "\"" = [34] := rfl
  have hcolon : ascii "\":\"" = [34, 58, 34] := rfl
  simp only [printMember, Json.memberText, hquote, hcolon, List.cons_append, List.nil_append,
    List.append_assoc]

/-- The first member and the rest. Source: `statswriter.cc`, `writeConsoleStats`. Kind: L -/
theorem open_append (name : String) (value : Bytes) {rest : Bytes} {ms : List Json.Member}
    (h : rest = Json.restText ms ++ [10]) :
    ascii "\x7b" ++ (printMember name value ++ rest) =
      Json.objectText ((ascii name, value) :: ms) ++ [10] := by
  have hopen : ascii "\x7b" = [123] := rfl
  simp [h, hopen, printMember_eq, Json.objectText]

/-- A member after a comma and the rest. Source: `statswriter.cc`, `writeConsoleStats`. Kind: L -/
theorem comma_append (name : String) (value : Bytes) {rest : Bytes} {ms : List Json.Member}
    (h : rest = Json.restText ms ++ [10]) :
    ascii "," ++ (printMember name value ++ rest) =
      Json.restText ((ascii name, value) :: ms) ++ [10] := by
  have hcomma : ascii "," = [44] := rfl
  simp [h, hcomma, printMember_eq, Json.restText]

/-- **What is printed is an object written without escaping, and a line feed.**
Source: `statswriter.cc`, `writeConsoleStats`
Kind: P -/
theorem print_eq (w : StatsWriter) (r : Report) :
    w.print r = Json.objectText (w.members r) ++ [10] := by
  unfold print writeConsoleStats members hosts numbers
  rw [cString_peerCopy]
  simp only [List.append_assoc]
  refine open_append _ _ ?_
  iterate 10 refine comma_append _ _ ?_
  rfl

end StatsWriter

/-! ## Plain values -/

/-- Source: none: infrastructure. Kind: L -/
theorem plain_append {s t : Bytes} (hs : Json.Plain s) (ht : Json.Plain t) : Json.Plain (s ++ t) :=
  fun c hc => (List.mem_append.mp hc).elim (hs c) (ht c)

/-- Source: none: infrastructure. Kind: L -/
theorem plain_decimal (n : ℕ) : Json.Plain (decimal n) := by
  intro c hc
  have hrange := mem_decimal hc
  simp only [UInt8.le_iff_toNat_le, UInt8.lt_iff_toNat_lt, ne_eq, ← UInt8.toNat_inj]
  refine ⟨?_, ?_, ?_, ?_⟩ <;> simp <;> omega

/-- Source: none: infrastructure. Kind: L -/
theorem plain_signed (n : ℤ) : Json.Plain (signed n) := by
  unfold signed
  split
  · exact plain_append (s := [45]) (by decide) (plain_decimal _)
  · exact plain_decimal _

/-- Source: none: infrastructure. Kind: L -/
theorem plain_longFloat (q : ℚ) : Json.Plain (longFloat q) := by
  have hsign : Json.Plain (if q < 0 then ascii "-" else []) := by
    split <;> decide
  have htail : ∀ n, Json.Plain (decimal n).tail := fun n c hc =>
    plain_decimal n c (List.mem_of_mem_tail hc)
  unfold longFloat
  exact plain_append (plain_append (plain_append hsign (plain_decimal _)) (by decide)) (htail _)

namespace StatsWriter

/-- Source: `statswriter.cc`, `writeConsoleStats`. Kind: L -/
theorem name_members (w : StatsWriter) (r : Report) : ∀ m ∈ w.members r, Json.Name m.1 := by
  have hnames : ∀ name ∈ ["time", "from_host", "from_port", "to_host", "to_port", "guid", "count",
      "targetCount", "sum", "sumOfSquares", "max"], Json.Name (ascii name) := by
    decide +kernel
  intro m hm
  have hname : m.1 ∈ ["time", "from_host", "from_port", "to_host", "to_port", "guid", "count",
      "targetCount", "sum", "sumOfSquares", "max"].map ascii := List.mem_map_of_mem (f := Prod.fst) hm
  obtain ⟨name, hmem, heq⟩ := List.mem_map.mp hname
  exact heq ▸ hnames name hmem

/-- The numbers denote themselves. Source: `statswriter.cc`, `writeConsoleStats`. Kind: L -/
theorem plain_numbers (stats : Stats) :
    ∀ m ∈ numbers stats, Json.Plain m.1 ∧ Json.Plain m.2 := by
  have hname : ∀ m ∈ numbers stats, Json.Plain m.1 := by
    simp only [numbers, List.forall_mem_cons]
    decide +kernel
  have hvalue : ∀ m ∈ numbers stats, Json.Plain m.2 := by
    simp only [numbers, List.forall_mem_cons]
    exact ⟨plain_signed stats.count, plain_signed (cInt stats.targetCount.toNat),
      plain_longFloat stats.sum, plain_longFloat stats.sumOfSquares, plain_longFloat stats.max,
      List.forall_mem_nil _⟩
  exact fun m hm => ⟨hname m hm, hvalue m hm⟩

end StatsWriter

/-! ## The reports of a run -/

/-- **The peers of the reports are peers of packets, and their counts are an `int`.**
Source: `serversession.cc`, `receivePing`, `sweepServerSessions`
Kind: P -/
theorem written_of_run {keepalive : ℤ} {es : List Event} (hes : Admissible keepalive es) {r : Report}
    (hr : r ∈ ((machine keepalive).run es).written) :
    (∃ a ∈ arrivals es, r.peer = a.peer) ∧ -2 ^ 31 ≤ r.stats.count ∧ r.stats.count < 2 ^ 31 := by
  obtain ⟨hrun, href⟩ := ledgerOf_spec hes
  obtain ⟨b, hbr, hreport : ReportOf r b⟩ := exists_zip_of_mem href.reports.flip hr
  have hfirst : b.2.first ∈ arrivals es := by
    have hclosed : b.2.arrivals ∈ (ledgerOf keepalive es).closedOf b.1 :=
      List.mem_map_of_mem (List.mem_filter.mpr ⟨(List.of_mem_zip hbr).1, decide_eq_true rfl⟩)
    have hmem : b.2.first ∈ (arrivals es).filter fun a => a.ph.guid = b.1 := by
      rw [hrun.segments]
      exact List.mem_append_left _ (List.mem_flatten.mpr ⟨_, hclosed, List.mem_cons_self⟩)
    exact (List.mem_filter.mp hmem).1
  refine ⟨⟨b.2.first, hfirst, hreport.label.1⟩, ?_⟩
  rw [hreport.accounts.2.count]
  exact ⟨Int.le_bmod (by decide), Int.bmod_lt (by decide)⟩

end UDPing.Server
