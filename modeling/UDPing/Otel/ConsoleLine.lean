import UDPing.Otel.LinkSender
import UDPing.Server.Console
import UDPing.Server.Receive

/-!
# From the server's console to udping_otelsender

* `Agrees`: what a server prints of a session is one line, the scanner loop decodes it, and the hosts
  and counts it reads are those of the session.
* `Transparent`: the condition under which it is so. The server writes between quotes whatever is
  in the datagram's GUID, which may close the string it stands in, open others and name the hosts
  anew; and a target count from `2 ^ 31` on is written as a negative number.
* **`agrees_iff`**: every report of every run agrees exactly if it is transparent.
* `quote_in_guid`: a datagram whose GUID holds a quote makes a line that is no object.
-/

namespace UDPing.Otel

open Lib Server
open Server.StatsWriter (peerCopy hosts members print_eq name_members plain_numbers)

/-! ## The scanner loop -/

/-- Source: `bufio`, `MaxScanTokenSize`. Kind: D -/
def maxScanTokenSize : ℕ := 64 * 1024

/-- A carriage return at the end of a line is dropped. Source: `bufio`, `dropCR`. Kind: D -/
def dropCR (line : Bytes) : Bytes := if line.getLast? = some 13 then line.dropLast else line

/-- What becomes of a line; `none`: the scanner stops, or the sender panics.
Source: `udping_otelsender.go`, `main`
Kind: D -/
def decodeLine (line : Bytes) : Option Obj :=
  if line.length < maxScanTokenSize then Json.unmarshal (dropCR line) else none

/-- **The console report and the sender agree.**
Source: `statswriter.cc`, `writeConsoleStats`; `udping_otelsender.go`, `main`
Kind: D -/
def Agrees (w : StatsWriter) (r : Server.Report) : Prop :=
  ∃ line obj, w.print r = line ++ [10] ∧ 10 ∉ line ∧ decodeLine line = some obj ∧
    obj.field "from_host" = peerCopy r.peer ∧
    obj.field "to_host" = cString w.receiveHostname ∧
    atoi (obj.field "count") = some r.stats.count ∧
    atoi (obj.field "targetCount") = some (r.stats.targetCount.toNat : ℤ)

/-! ## The condition -/

/-- Free of quotes and control characters. Source: `statswriter.cc`, `writeConsoleStats`. Kind: D -/
def HostName (host : Bytes) : Prop := ∀ c ∈ host, 32 ≤ c ∧ c ≠ 34

instance (host : Bytes) : Decidable (HostName host) := List.decidableBAll _ host

/-- The host under a name, where the GUID amounts to the members `spliced`: the last of them, or the
printed one. Source: `statswriter.cc`, `writeConsoleStats`. Kind: D -/
def hostRead (name : String) (host : Bytes) (spliced : List Json.Member) : Bytes :=
  (Dict.lastValue (ascii name) spliced).getD (Json.unquote host)

/-- The length of the line: each member takes four quotes, a colon and a comma or a brace.
Source: `statswriter.cc`, `writeConsoleStats`
Kind: D -/
def lineLength (w : StatsWriter) (r : Server.Report) : ℕ :=
  1 + ((w.members r).map fun m => m.1.length + m.2.length + 6).sum

/-- The escapes in a text are known and complete. Source: `encoding/json`, `scanner.go`. Kind: D -/
def Escaped (s : Bytes) : Prop := s.foldlM Json.Escape.step .plain = some .plain

instance (s : Bytes) : Decidable (Escaped s) :=
  inferInstanceAs (Decidable (s.foldlM Json.Escape.step .plain = some .plain))

/-- **Nothing that is printed is read as something else.**
Source: `statswriter.cc`, `writeConsoleStats`
Kind: D -/
structure Transparent (w : StatsWriter) (r : Server.Report) : Prop where
  /-- The GUID breaks no line. -/
  oneLine : 10 ∉ cString r.guid
  /-- The scanner's buffer holds the line. -/
  fits : lineLength w r < maxScanTokenSize
  /-- The escapes in the peer's name are complete. -/
  peer : Escaped (peerCopy r.peer)
  /-- And those in the receive host's name. -/
  receiver : Escaped (cString w.receiveHostname)
  /-- After the GUID the scanner is within a string value, and the hosts are read as printed. -/
  guid : ∃ spliced, Json.splice (ascii "guid", cString r.guid) = some spliced ∧
    hostRead "from_host" (peerCopy r.peer) spliced = peerCopy r.peer ∧
    hostRead "to_host" (cString w.receiveHostname) spliced = cString w.receiveHostname
  /-- `%d` writes the target count. -/
  target : r.stats.targetCount.toNat < 2 ^ 31

variable {w : StatsWriter} {r : Server.Report}

/-- Source: none: infrastructure. Kind: L -/
theorem HostName.peerCopy {peer : Bytes} (h : HostName peer) : HostName (peerCopy peer) := by
  intro c hc
  obtain ⟨d, hd, rfl⟩ := List.mem_map.mp hc
  split
  · decide
  · exact h d (List.takeWhile_subset _ hd)

/-! ## One line -/

/-- Source: none: infrastructure. Kind: L -/
theorem HostName.notMem {host : Bytes} (h : HostName host) : 10 ∉ host := fun hmem =>
  absurd (h 10 hmem).1 (by decide)

/-- Source: none: infrastructure. Kind: L -/
theorem HostName.quote {host : Bytes} (h : HostName host) : 34 ∉ host := fun hmem =>
  (h 34 hmem).2 rfl

/-- Source: none: infrastructure. Kind: L -/
theorem HostName.cString {host : Bytes} (h : HostName host) : HostName (cString host) :=
  fun c hc => h c (List.takeWhile_subset _ hc)

/-- Only the GUID can break the line. Source: `statswriter.cc`, `writeConsoleStats`. Kind: L -/
theorem mem_line_iff (hpeer : HostName r.peer) (hreceiver : HostName w.receiveHostname) :
    10 ∈ Json.objectText (w.members r) ↔ 10 ∈ cString r.guid := by
  have hname : ∀ m ∈ w.members r, 10 ∉ m.1 := fun m hm => (name_members w r m hm).1.notMem (by decide)
  have hhosts : ∀ m ∈ w.hosts r, 10 ∉ m.2 := by
    simp only [hosts, List.forall_mem_cons]
    exact ⟨(plain_signed r.now).notMem (by decide), hpeer.peerCopy.notMem,
      (plain_decimal r.port.toNat).notMem (by decide), hreceiver.cString.notMem,
      (plain_signed w.listenPort).notMem (by decide), List.forall_mem_nil _⟩
  have hnumbers : ∀ m ∈ StatsWriter.numbers r.stats, 10 ∉ m.2 := fun m hm =>
    (plain_numbers r.stats m hm).2.notMem (by decide)
  rw [Json.mem_objectText (by decide)]
  constructor
  · rintro ⟨m, hm, hmem | hmem⟩
    · exact absurd hmem (hname m hm)
    · rw [members, List.mem_append, List.mem_cons] at hm
      rcases hm with hm | rfl | hm
      · exact absurd hmem (hhosts m hm)
      · exact hmem
      · exact absurd hmem (hnumbers m hm)
  · intro hmem
    exact ⟨(ascii "guid", cString r.guid), by simp [members], Or.inr hmem⟩

/-! ## What the line amounts to -/

/-- The members before the GUID, as they are read. Source: `statswriter.cc`, `writeConsoleStats`.
Kind: D -/
def hostsRead (w : StatsWriter) (r : Server.Report) : List Json.Member :=
  [(ascii "time", signed r.now), (ascii "from_host", Json.unquote (peerCopy r.peer)),
    (ascii "from_port", decimal r.port.toNat),
    (ascii "to_host", Json.unquote (cString w.receiveHostname)),
    (ascii "to_port", signed w.listenPort)]

/-- Source: `statswriter.cc`, `writeConsoleStats`. Kind: L -/
theorem spliceAll_hosts (hpeer : HostName r.peer) (hreceiver : HostName w.receiveHostname) :
    Json.spliceAll (w.hosts r) =
      if Escaped (peerCopy r.peer) ∧ Escaped (cString w.receiveHostname) then some (hostsRead w r)
      else none := by
  have hplain : Json.Plain (ascii "time") ∧ Json.Plain (ascii "from_host") ∧
      Json.Plain (ascii "from_port") ∧ Json.Plain (ascii "to_host") ∧ Json.Plain (ascii "to_port") := by
    decide
  obtain ⟨htime, hfrom, hport, hto, hlisten⟩ := hplain
  have hfirst := Json.splice_of_plain htime (plain_signed r.now)
  have hsecond := Json.splice_of_notMem (ascii "from_host") hpeer.peerCopy.quote
  have hthird := Json.splice_of_plain hport (plain_decimal r.port.toNat)
  have hfourth := Json.splice_of_notMem (ascii "to_host") hreceiver.cString.quote
  have hfifth := Json.splice_of_plain hlisten (plain_signed w.listenPort)
  rw [Json.unquote_of_plain hfrom] at hsecond
  rw [Json.unquote_of_plain hto] at hfourth
  unfold hosts hostsRead Escaped
  simp only [Json.spliceAll, hfirst, hsecond, hthird, hfourth, hfifth]
  split_ifs <;> simp_all

/-- What the scanner loop makes of the line. Source: `udping_otelsender.go`, `main`. Kind: L -/
theorem decodeLine_eq (hpeer : HostName r.peer) (hreceiver : HostName w.receiveHostname) :
    decodeLine (Json.objectText (w.members r)) =
      if lineLength w r < maxScanTokenSize ∧ Escaped (peerCopy r.peer) ∧
          Escaped (cString w.receiveHostname) then
        (Json.splice (ascii "guid", cString r.guid)).map fun spliced =>
          Dict.ofPairs (hostsRead w r ++ (spliced ++ StatsWriter.numbers r.stats))
      else none := by
  have hlength : (Json.objectText (w.members r)).length = lineLength w r :=
    Json.length_objectText (by simp [members])
  have hcr : dropCR (Json.objectText (w.members r)) = Json.objectText (w.members r) := by
    rw [dropCR, Json.getLast?_objectText, if_neg (by decide)]
  have hnumbers := Json.spliceAll_of_plain (plain_numbers r.stats)
  rw [decodeLine, hlength, hcr, Json.unmarshal_objectText (name_members w r), members,
    Json.spliceAll_append, spliceAll_hosts hpeer hreceiver, Json.spliceAll, hnumbers]
  by_cases hfits : lineLength w r < maxScanTokenSize
  · by_cases hescaped : Escaped (peerCopy r.peer) ∧ Escaped (cString w.receiveHostname)
    · rcases Json.splice (ascii "guid", cString r.guid) with _ | spliced <;> simp [hfits, hescaped]
    · simp [hfits, hescaped]
  · simp [hfits]

section Fields

variable (w r) (spliced : List Json.Member)

/-- The object that is read. Source: `udping_otelsender.go`, `main`. Kind: D -/
def objectRead : Obj := Dict.ofPairs (hostsRead w r ++ (spliced ++ StatsWriter.numbers r.stats))

/-- The last member of a name stays. Source: `udping_otelsender.go`, `main`. Kind: L -/
theorem field_objectRead (name : String) :
    (objectRead w r spliced).field name =
      (((Dict.lastValue (ascii name) (StatsWriter.numbers r.stats)).or
        (Dict.lastValue (ascii name) spliced)).or
          (Dict.lastValue (ascii name) (hostsRead w r))).getD [] := by
  rw [objectRead, Obj.field, Dict.get_ofPairs, Dict.lastValue_append, Dict.lastValue_append]

theorem field_from_host :
    (objectRead w r spliced).field "from_host" =
      hostRead "from_host" (peerCopy r.peer) spliced := by
  have hnumbers : Dict.lastValue (ascii "from_host") (StatsWriter.numbers r.stats) = none := rfl
  have hhosts : Dict.lastValue (ascii "from_host") (hostsRead w r) =
      some (Json.unquote (peerCopy r.peer)) := rfl
  rw [field_objectRead, hnumbers, hhosts, hostRead]
  cases Dict.lastValue (ascii "from_host") spliced <;> rfl

theorem field_to_host :
    (objectRead w r spliced).field "to_host" =
      hostRead "to_host" (cString w.receiveHostname) spliced := by
  have hnumbers : Dict.lastValue (ascii "to_host") (StatsWriter.numbers r.stats) = none := rfl
  have hhosts : Dict.lastValue (ascii "to_host") (hostsRead w r) =
      some (Json.unquote (cString w.receiveHostname)) := rfl
  rw [field_objectRead, hnumbers, hhosts, hostRead]
  cases Dict.lastValue (ascii "to_host") spliced <;> rfl

theorem field_count : (objectRead w r spliced).field "count" = signed r.stats.count := by
  have hnumbers : Dict.lastValue (ascii "count") (StatsWriter.numbers r.stats) =
      some (signed r.stats.count) := rfl
  rw [field_objectRead, hnumbers, Option.some_or, Option.some_or, Option.getD_some]

theorem field_targetCount :
    (objectRead w r spliced).field "targetCount" = intOfUnsigned r.stats.targetCount := by
  have hnames : ascii "max" ≠ ascii "targetCount" ∧ ascii "sumOfSquares" ≠ ascii "targetCount" ∧
      ascii "sum" ≠ ascii "targetCount" := by decide +kernel
  have hnumbers : Dict.lastValue (ascii "targetCount") (StatsWriter.numbers r.stats) =
      some (intOfUnsigned r.stats.targetCount) := by
    simp [Dict.lastValue, StatsWriter.numbers, hnames]
  rw [field_objectRead, hnumbers, Option.some_or, Option.some_or, Option.getD_some]

end Fields

/-! ## The result -/

/-- `%d` writes an unsigned number as it is exactly if it is less than `2 ^ 31`.
Source: `printf`, `%d`
Kind: L -/
theorem atoi_intOfUnsigned_iff (n : UInt32) :
    atoi (intOfUnsigned n) = some (n.toNat : ℤ) ↔ n.toNat < 2 ^ 31 := by
  have hlo : -2 ^ 31 ≤ cInt n.toNat := Int.le_bmod (by decide)
  have hhi : cInt n.toNat < 2 ^ 31 := Int.bmod_lt (by decide)
  have hread := @parseInt_signed 64 (cInt n.toNat) (by decide) (by omega) (by omega)
  rw [atoi, intOfUnsigned, hread]
  simp only [Option.some.injEq]
  constructor
  · intro h
    omega
  · exact fun h => cInt_of_range (by omega) (by omega)

/-- An `int` is read back. Source: `strconv.Atoi`. Kind: L -/
theorem atoi_signed {n : ℤ} (hlo : -2 ^ 31 ≤ n) (hhi : n < 2 ^ 31) : atoi (signed n) = some n := by
  rw [atoi, parseInt_signed (by decide) (by omega) (by omega)]

/-- **One report agrees exactly if it is transparent.**
Source: `statswriter.cc`, `writeConsoleStats`; `udping_otelsender.go`, `main`
Kind: P -/
theorem agrees_iff_of_report (hpeer : HostName r.peer) (hreceiver : HostName w.receiveHostname)
    (hlo : -2 ^ 31 ≤ r.stats.count) (hhi : r.stats.count < 2 ^ 31) :
    Agrees w r ↔ Transparent w r := by
  have hdecode := decodeLine_eq hpeer hreceiver
  constructor
  · rintro ⟨line, obj, hprint, hline, hobj, hfrom, hto, -, htarget⟩
    obtain rfl : line = Json.objectText (w.members r) :=
      List.append_cancel_right (hprint.symm.trans (print_eq w r))
    rw [hobj] at hdecode
    split_ifs at hdecode with hcond
    obtain ⟨hfits, hpeer', hreceiver'⟩ := hcond
    obtain ⟨spliced, hspliced, rfl⟩ := Option.map_eq_some_iff.mp hdecode.symm
    exact {
      oneLine := fun h => hline ((mem_line_iff hpeer hreceiver).mpr h)
      fits := hfits
      peer := hpeer'
      receiver := hreceiver'
      guid := ⟨spliced, hspliced, (field_from_host w r spliced).symm.trans hfrom,
        (field_to_host w r spliced).symm.trans hto⟩
      target := (atoi_intOfUnsigned_iff _).mp ((field_targetCount w r spliced).symm ▸ htarget) }
  · intro h
    obtain ⟨spliced, hspliced, hfrom, hto⟩ := h.guid
    rw [if_pos ⟨h.fits, h.peer, h.receiver⟩, hspliced, Option.map_some] at hdecode
    refine ⟨_, _, print_eq w r, fun hmem => h.oneLine ((mem_line_iff hpeer hreceiver).mp hmem),
      hdecode, ?_, ?_, ?_, ?_⟩
    · exact (field_from_host w r spliced).trans hfrom
    · exact (field_to_host w r spliced).trans hto
    · exact (congrArg atoi (field_count w r spliced)).trans (atoi_signed hlo hhi)
    · exact (congrArg atoi (field_targetCount w r spliced)).trans
        ((atoi_intOfUnsigned_iff _).mpr h.target)

/-- **What a server prints of a session agrees with what is read exactly if it is transparent**, for
every report of every run, whatever its packets hold.
Source: `statswriter.cc`, `writeConsoleStats`; `udping_otelsender.go`, `main`
Kind: C -/
theorem agrees_iff (hreceiver : HostName w.receiveHostname) {keepalive : ℤ} {es : List Server.Event}
    (hes : Server.Admissible keepalive es) (hpeers : ∀ a ∈ Server.arrivals es, HostName a.peer) :
    ∀ r ∈ ((Server.machine keepalive).run es).written, Agrees w r ↔ Transparent w r := by
  intro r hr
  obtain ⟨⟨a, ha, hpeer⟩, hlo, hhi⟩ := written_of_run hes hr
  exact agrees_iff_of_report (hpeer ▸ hpeers a ha) hreceiver hlo hhi

/-! ## Plain texts -/

/-- Plain bytes are read as they are written. Source: `statswriter.cc`, `writeConsoleStats`. Kind: L -/
theorem transparent_of_plain (hguid : Json.Plain (cString r.guid))
    (hpeer : Json.Plain (peerCopy r.peer)) (hreceiver : Json.Plain (cString w.receiveHostname))
    (hfits : lineLength w r < maxScanTokenSize) (htarget : r.stats.targetCount.toNat < 2 ^ 31) :
    Transparent w r where
  oneLine := hguid.notMem (by decide)
  fits := hfits
  peer := Json.foldlM_step_of_plain hpeer
  receiver := Json.foldlM_step_of_plain hreceiver
  guid := by
    have hnames : ascii "guid" ≠ ascii "from_host" ∧ ascii "guid" ≠ ascii "to_host" := by decide
    refine ⟨_, Json.splice_of_plain (by decide) hguid, ?_, ?_⟩
    · simp [hostRead, Dict.lastValue_singleton, hnames, Json.unquote_of_plain hpeer]
    · simp [hostRead, Dict.lastValue_singleton, hnames, Json.unquote_of_plain hreceiver]
  target := htarget

/-- A server of the host `s`. Source: none: infrastructure. Kind: D -/
def exampleWriter : StatsWriter := ⟨ascii "s", 5000⟩

/-- The run on one probe. Source: none: infrastructure. Kind: D -/
def exampleRun (guid : Bytes) : List Server.Event :=
  [.receivePing (probe guid 1 0) ⟨0, 0⟩ 0, .sweep 100]

theorem agrees_of_plain_guid :
    Agrees exampleWriter ⟨ascii "g", ascii "h", 5000, ⟨1, 1, 1, 1, 1⟩, 100⟩ := by
  refine (@agrees_iff exampleWriter (by decide +kernel) 10 (exampleRun (ascii "g")) (by decide +kernel)
    (by decide +kernel) _ (by decide +kernel)).mpr ?_
  exact transparent_of_plain (by decide) (by decide) (by decide) (by decide +kernel) (by decide)

/-- A datagram whose GUID is `a"b`. Source: `protocol.h`, `packet`. Kind: D -/
def quotedDatagram : Datagram where
  payload := [1, 0, 0, 0, 7, 0, 0, 0, 97, 34, 98] ++ List.replicate 21 0 ++ [1, 0, 0, 0] ++
    List.replicate 12 0 ++ [56, 0, 0, 0, 0, 0, 0, 0]
  addr := 0
  port := 5000

/-- A datagram with a quote in its GUID passes every check, and the line that is printed of its
session ends the sender.
Source: `serversession.cc`, `readNextPacket`; `udping_otelsender.go`, `main`
Kind: C -/
theorem quote_in_guid :
    (readNextPacket (lp64 .little) (fun _ => ascii "h") ∅ (fun _ => 0) (some quotedDatagram)
        { tvSec := 0, tvNsec := 1000000 } 0).1 = .ping (probe (ascii "a\"b") 1 0) ∧
      Server.Admissible 10 (exampleRun (ascii "a\"b")) ∧
      ¬∀ r ∈ ((Server.machine 10).run (exampleRun (ascii "a\"b"))).written, Agrees exampleWriter r := by
  refine ⟨by decide +kernel, by decide, fun h => ?_⟩
  obtain ⟨line, obj, hprint, -, hobj, -⟩ :=
    h ⟨ascii "a\"b", ascii "h", 5000, ⟨1, 1, 1, 1, 1⟩, 100⟩ (by decide +kernel)
  obtain rfl := List.append_cancel_right (hprint.symm.trans (print_eq _ _))
  rw [show decodeLine _ = none by decide +kernel] at hobj
  cases hobj

end UDPing.Otel
