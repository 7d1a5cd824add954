import UDPing.Client.Ports
import UDPing.Server.Console

/-!
# Where reports go

* `getSockAddr` and `makeSocket` (`protocol.cc`), over `Network`: what the system calls yield.
* `StatsWriterObject`: the fields of a `StatsWriter`, with its constructor and `writeStats`
  (`statswriter.cc`). A field that the constructor leaves out holds what the memory held.
* `Destination`: the argument of `-s` or `-t`. `splitInfo_text`: it is taken apart as it should be.
* `configured`: what a report should produce. **`writeStats_eq_configured_iff`**: when it does.
-/

namespace UDPing.Server

open Lib
open UDPing.Client (atoi)

/-! ## Addresses -/

/-- What the system calls yield; `none` is an error. The addresses are bytes of `sockaddr`.
Source: `protocol.cc`, `makeSocket`, `getSockAddr`
Kind: D -/
structure Network where
  /-- Of a host, a service and whether the hints are those of `getSockAddr` or null. -/
  getaddrinfo : Bytes → Option Bytes → Bool → Option Bytes
  socket : Option ℤ
  bind : ℤ → Bytes → Bool
  /-- The name of a host that is given as an address. -/
  gethostbyaddr : Bytes → Option Bytes

/-- A socket bound to a port of a host; `none`: the program ends.
Source: `protocol.cc`, `makeSocket`
Kind: D -/
def makeSocket (net : Network) (host : Bytes) (port : ℤ) : Option ℤ := do
  let fd ← net.socket
  let addr ← net.getaddrinfo host (some (signed port)) false
  if net.bind fd addr then some fd else none

/-- The address that is allocated in the memory `fresh`; `none`: the program ends. The text of the
port is not used, and no more bytes are copied than a pointer has.
Source: `protocol.cc`, `getSockAddr`
Kind: D
Fidelity: pointers have 64 bits -/
def getSockAddr (net : Network) (fresh : Bytes) (host : Bytes) (_port : ℤ) : Option Bytes := do
  let addr ← net.getaddrinfo host none true
  some (addr.take 8 ++ fresh.drop 8)

/-- The bytes of a `sockaddr_in` that name a destination: family, port, address.
Source: `sockaddr_in`
Kind: D -/
def sockaddrIn (e : Endian) (port : ℕ) (addr : Bytes) : Bytes :=
  encode e 2 2 ++ encode .big 2 port ++ addr

/-! ## The writer -/

/-- A pointer to an address: a word that the memory held, or an object.
Source: `statswriter.h`, `StatsWriter`
Kind: D -/
inductive SockAddr where
  | word (w : UInt64)
  | object (bytes : Bytes)

/-- Whether the pointer is not null. Source: `statswriter.cc`, `StatsWriter::writeStats`. Kind: D -/
def SockAddr.isSet : SockAddr → Bool
  | word w => w ≠ 0
  | object _ => true

/-- What a report produces.
Source: `statswriter.cc`, `StatsWriter::writeStats`
Kind: D -/
inductive Output where
  | console (line : Bytes)
  /-- From a socket to the destination that the first bytes of an address name. -/
  | datagram (fd : ℤ) (destination payload : Bytes)
  /-- A call with a pointer that nothing has set. -/
  | undefined
  deriving DecidableEq

/-- Source: `statswriter.cc`, `sendto`. Kind: D -/
def sendto (fd : ℤ) (payload : Bytes) : SockAddr → Output
  | .word _ => .undefined
  | .object bytes => .datagram fd (bytes.take 8) payload

/-- The memory in which a writer and its addresses are allocated.
Source: `statswriter.cc`, `StatsWriter::StatsWriter`
Kind: D -/
structure WriterMemory where
  fd : ℤ
  statsdSa : UInt64
  tagsSa : UInt64
  statsdAddr : Bytes
  tagsAddr : Bytes

/-- Source: `statswriter.h`, `StatsWriter`. Kind: D -/
structure StatsWriterObject extends StatsWriter where
  fd : ℤ
  statsdSa : SockAddr
  tagsSa : SockAddr
  tagsMetric : Bytes
  quiet : Bool

/-- The host and the port of an argument. Source: `statswriter.cc`, `StatsWriter::StatsWriter`.
Kind: D -/
def splitInfo (info : Bytes) : Bytes × ℤ :=
  match info.dropWhile (· ≠ 58) with
  | [] => (info, 8125)
  | _ :: port => (info.takeWhile (· ≠ 58), atoi port)

/-- The pointer to the address of an argument; the field `word` is left as it was without one.
Source: `statswriter.cc`, `StatsWriter::StatsWriter`
Kind: D -/
def setSockAddr (net : Network) (word : UInt64) (fresh : Bytes) (info : Option Bytes) :
    Option SockAddr :=
  match info with
  | none => some (.word word)
  | some info =>
    let (sdInfo, sdPort) := splitInfo info
    (getSockAddr net fresh sdInfo sdPort).map .object

/-- The socket, if datagrams are sent; the field is left as it was otherwise.
Source: `statswriter.cc`, `StatsWriter::StatsWriter`
Kind: D -/
def setSocket (net : Network) (word : ℤ) (listenHostname : Bytes) (used : Bool) : Option ℤ :=
  if used then makeSocket net listenHostname 0 else some word

namespace StatsWriterObject

/-- The writer that is made in the memory `m`; `none`: the program ends.
Source: `statswriter.cc`, `StatsWriter::StatsWriter`
Kind: D -/
def construct (net : Network) (m : WriterMemory) (listenHostname receiveHostname : Bytes)
    (listenPort : ℤ) (statsdInfo statsdTagInfo statsdTagMetric : Option Bytes) (quiet : Bool) :
    Option StatsWriterObject := do
  let hostname := (net.gethostbyaddr receiveHostname).getD receiveHostname
  let fd ← setSocket net m.fd listenHostname (statsdInfo.isSome || statsdTagInfo.isSome)
  let statsdSa ← setSockAddr net m.statsdSa m.statsdAddr statsdInfo
  let tagsSa ← setSockAddr net m.tagsSa m.tagsAddr statsdTagInfo
  some
    { receiveHostname := StatsWriter.peerCopy hostname
      listenPort, fd, statsdSa, tagsSa
      tagsMetric := statsdTagMetric.getD (ascii "udping")
      quiet }

variable (showDouble : ℚ → Bytes)

/-- The names, values and kinds of the counters. `showDouble`: what `<<` writes for a `double`.
Source: `statswriter.cc`, `writeStatsdStats`, `writeTagsStats`
Kind: D -/
def counters (stats : Stats) : List (String × Bytes × String) :=
  [("count", signed stats.count, "c"), ("targetCount", decimal stats.targetCount.toNat, "c"),
    ("sum", showDouble stats.sum, "c"), ("sos", showDouble stats.sumOfSquares, "c"),
    ("max", showDouble stats.max, "g")]

/-- Source: `statswriter.cc`, `StatsWriter::writeStatsdStats`. Kind: D -/
def statsdStats (w : StatsWriterObject) (peer : Bytes) (port : UInt16) (stats : Stats) : Bytes :=
  (counters showDouble stats).flatMap fun (name, value, kind) =>
    peer ++ ascii "." ++ decimal port.toNat ++ ascii "." ++ cString w.receiveHostname ++
      ascii "." ++ signed w.listenPort ++ ascii "." ++ ascii name ++ ascii ":" ++ value ++
      ascii "|" ++ ascii kind ++ ascii "\n"

/-- Source: `statswriter.cc`, `StatsWriter::writeTagsStats`. Kind: D -/
def tagsStats (w : StatsWriterObject) (peer : Bytes) (port : UInt16) (stats : Stats) : Bytes :=
  (counters showDouble stats).flatMap fun (name, value, kind) =>
    cString w.tagsMetric ++ ascii "." ++ ascii name ++ ascii ",from_host=" ++ peer ++
      ascii ",from_port=" ++ decimal port.toNat ++ ascii ",to_host=" ++
      cString w.receiveHostname ++ ascii ",to_port=" ++ signed w.listenPort ++ ascii ":" ++
      value ++ ascii "|" ++ ascii kind ++ ascii "\n"

/-- A datagram, if the pointer to its destination is not null.
Source: `statswriter.cc`, `StatsWriter::writeStats`
Kind: D -/
def sends (fd : ℤ) (sa : SockAddr) (payload : Bytes) : List Output :=
  if sa.isSet then [sendto fd payload sa] else []

/-- What a report produces. Source: `statswriter.cc`, `StatsWriter::writeStats`. Kind: D -/
def writeStats (w : StatsWriterObject) (r : Report) : List Output :=
  let peer := StatsWriter.peerCopy r.peer
  (if !w.quiet then [.console (w.print r)] else []) ++
    (sends w.fd w.statsdSa (w.statsdStats showDouble peer r.port r.stats) ++
      sends w.fd w.tagsSa (w.tagsStats showDouble peer r.port r.stats))

end StatsWriterObject

/-! ## What was configured -/

/-- An argument of `-s` or `-t`. Source: `server.cc`, `main`. Kind: D -/
structure Destination where
  host : Bytes
  port : Option UInt16
  /-- A host has no colon. -/
  colon : 58 ∉ host

namespace Destination

/-- The argument as it is written: `host[:port]`. Source: `server.cc`, `main`. Kind: D -/
def text (d : Destination) : Bytes :=
  match d.port with
  | none => d.host
  | some port => d.host ++ 58 :: decimal port.toNat

/-- The port, or the default. Source: `server.cc`, `main`. Kind: D -/
def number (d : Destination) : ℕ := (d.port.map UInt16.toNat).getD 8125

theorem number_lt (d : Destination) : d.number < 256 ^ 2 := by
  unfold number
  rcases d.port with _ | port
  · decide
  · exact port.toNat_lt

theorem number_eq_zero (d : Destination) : d.number = 0 ↔ d.port = some 0 := by
  unfold number
  rcases d.port with _ | port
  · simp
  · simp [← UInt16.toNat_inj]

end Destination

/-- The address of a host, whose port is zero without a service.
Source: `getaddrinfo`
Kind: D -/
def Resolves (net : Network) (e : Endian) (host addr : Bytes) : Prop :=
  addr.length = 4 ∧ ∃ rest, net.getaddrinfo host none true = some (sockaddrIn e 0 addr ++ rest)

/-- The datagram to a destination, if there is one. Source: none: specification. Kind: D -/
def datagramTo (e : Endian) (address : Bytes → Bytes) (fd : ℤ) (payload : Bytes)
    (dest : Option Destination) : List Output :=
  (dest.map fun d => .datagram fd (sockaddrIn e d.number (address d.host)) payload).toList

/-- What a report should produce: a line unless the server is quiet, and a datagram from the socket
to each destination that is given.
Source: none: specification
Kind: D -/
def configured (showDouble : ℚ → Bytes) (e : Endian) (address : Bytes → Bytes) (fd : ℤ)
    (quiet : Bool) (statsd tags : Option Destination) (w : StatsWriterObject) (r : Report) :
    List Output :=
  let peer := StatsWriter.peerCopy r.peer
  (if quiet then [] else [.console (w.print r)]) ++
    (datagramTo e address fd (w.statsdStats showDouble peer r.port r.stats) statsd ++
      datagramTo e address fd (w.tagsStats showDouble peer r.port r.stats) tags)

/-- Nothing goes wrong for an option: without it the memory of its pointer was zero, and with it the
port is zero.
Source: none: specification
Kind: D -/
def Met (word : UInt64) : Option Destination → Prop
  | none => word = 0
  | some d => d.port = some 0

/-- The text of a port is read back. Source: `atoi`. Kind: L -/
theorem atoi_decimal {n : ℕ} (hn : n < 2 ^ 16) : atoi (decimal n) = n := by
  have hvalue : Client.value (decimal n) = n := by
    have hfold := foldl_decimal n
    simpa only [Client.value, Nat.mul_comm] using hfold
  rw [Client.atoi_digits fun b hb => Client.isDigit_iff.mpr (mem_decimal hb), hvalue,
    min_eq_right (by omega)]
  exact cInt_of_range (by omega) (by omega)

/-- The pointer that the constructor sets for an option. Source: `statswriter.cc`,
`StatsWriter::StatsWriter`. Kind: D -/
def pointerFor (e : Endian) (address : Bytes → Bytes) (word : UInt64) (fresh : Bytes) :
    Option Destination → SockAddr
  | none => .word word
  | some d => .object (sockaddrIn e 0 (address d.host) ++ fresh.drop 8)

/-- **The argument is taken apart as it should be.** Source: `statswriter.cc`,
`StatsWriter::StatsWriter`. Kind: L -/
theorem splitInfo_text (d : Destination) : splitInfo d.text = (d.host, (d.number : ℤ)) := by
  have hhost : ∀ b ∈ d.host, decide (b ≠ 58) = true := fun b hb =>
    decide_eq_true fun h => d.colon (h ▸ hb)
  unfold Destination.text Destination.number splitInfo
  rcases d.port with _ | port
  · simp only [List.dropWhile_eq_nil_iff.mpr hhost]
    rfl
  · have hatoi := atoi_decimal port.toNat_lt
    simp only [List.dropWhile_append_of_pos hhost, List.takeWhile_append_of_pos hhost]
    simp [hatoi]

/-- Two lists that are no shorter than two others. Source: none: infrastructure. Kind: L -/
theorem append_eq_append_iff_of_le {α : Type} {xs ys xs' ys' : List α}
    (hx : xs'.length ≤ xs.length) (hy : ys'.length ≤ ys.length) :
    xs ++ ys = xs' ++ ys' ↔ xs = xs' ∧ ys = ys' := by
  constructor
  · intro h
    have hlen := congrArg List.length h
    rw [List.length_append, List.length_append] at hlen
    exact List.append_inj h (by omega)
  · rintro ⟨rfl, rfl⟩
    rfl

section Writer

variable {net : Network} {e : Endian} {address : Bytes → Bytes}

/-- The pointer that the constructor sets. Source: `protocol.cc`, `getSockAddr`. Kind: L -/
theorem setSockAddr_eq (word : UInt64) (fresh : Bytes) {dest : Option Destination}
    (hresolves : ∀ d, dest = some d → Resolves net e d.host (address d.host)) :
    setSockAddr net word fresh (dest.map Destination.text) =
      some (pointerFor e address word fresh dest) := by
  rcases dest with _ | d
  · rfl
  · obtain ⟨hlen, rest, haddr⟩ := hresolves d rfl
    have htake : (sockaddrIn e 0 (address d.host) ++ rest).take 8 =
        sockaddrIn e 0 (address d.host) := by
      apply List.take_left'
      simp [sockaddrIn, hlen]
    rw [Option.map_some, setSockAddr, splitInfo_text]
    simp [getSockAddr, haddr, htake, pointerFor]

variable {fd fd' : ℤ} {word : UInt64} {fresh payload : Bytes} {dest : Option Destination}

/-- **What is sent for an option** is what should be, if and only if nothing goes wrong for it.
Source: `statswriter.cc`, `StatsWriter::writeStats`
Kind: L -/
theorem sends_eq_iff (hfd : dest.isSome → fd' = fd)
    (haddr : ∀ d, dest = some d → (address d.host).length = 4) :
    StatsWriterObject.sends fd' (pointerFor e address word fresh dest) payload =
      datagramTo e address fd payload dest ↔ Met word dest := by
  rcases dest with _ | d
  · simp [StatsWriterObject.sends, SockAddr.isSet, datagramTo, Met, pointerFor]
  · have hport : sockaddrIn e 0 (address d.host) = sockaddrIn e d.number (address d.host) ↔
        d.port = some 0 := by
      have hzero : decode .big (encode .big 2 0) = 0 := decode_encode .big (by decide)
      have hnumber : decode .big (encode .big 2 d.number) = d.number :=
        decode_encode .big d.number_lt
      rw [← d.number_eq_zero, sockaddrIn, sockaddrIn, List.append_cancel_right_eq,
        List.append_cancel_left_eq]
      constructor
      · intro h
        rw [← hnumber, ← h, hzero]
      · intro h
        rw [h]
    have htake : (sockaddrIn e 0 (address d.host) ++ fresh.drop 8).take 8 =
        sockaddrIn e 0 (address d.host) := by
      apply List.take_left'
      simp [sockaddrIn, haddr d rfl]
    rw [hfd rfl]
    simp only [StatsWriterObject.sends, SockAddr.isSet, sendto, htake, datagramTo, Met,
      pointerFor]
    simp [hport]

/-- No fewer datagrams are sent than should be. Source: `statswriter.cc`,
`StatsWriter::writeStats`. Kind: L -/
theorem length_datagramTo_le :
    (datagramTo e address fd payload dest).length ≤
      (StatsWriterObject.sends fd' (pointerFor e address word fresh dest) payload).length := by
  rcases dest with _ | d
  · exact Nat.zero_le _
  · exact le_rfl

/-- A report of a writer as the constructor leaves it.
Source: `statswriter.cc`, `StatsWriter::writeStats`
Kind: L -/
theorem writeStats_eq_iff (showDouble : ℚ → Bytes) {m : WriterMemory} {w : StatsWriterObject}
    {statsd tags : Option Destination}
    (hstatsd : w.statsdSa = pointerFor e address m.statsdSa m.statsdAddr statsd)
    (htags : w.tagsSa = pointerFor e address m.tagsSa m.tagsAddr tags)
    (hfd : statsd.isSome ∨ tags.isSome → w.fd = fd)
    (haddr : ∀ d, statsd = some d ∨ tags = some d → (address d.host).length = 4) (r : Report) :
    w.writeStats showDouble r = configured showDouble e address fd w.quiet statsd tags w r ↔
      Met m.statsdSa statsd ∧ Met m.tagsSa tags := by
  have hline : (if !w.quiet then [Output.console (w.print r)] else []) =
      if w.quiet then [] else [.console (w.print r)] := by
    rcases w.quiet with _ | _
    · rfl
    · rfl
  unfold StatsWriterObject.writeStats configured
  dsimp only
  rw [hline, List.append_cancel_left_eq, hstatsd, htags,
    append_eq_append_iff_of_le length_datagramTo_le length_datagramTo_le]
  exact and_congr (sends_eq_iff (fun h => hfd (.inl h)) fun d hd => haddr d (.inl hd))
    (sends_eq_iff (fun h => hfd (.inr h)) fun d hd => haddr d (.inr hd))

/-- **When a report goes where it should go.** If the socket and the hosts can be had, the writer is
made, and each report produces exactly the line and the datagrams that were configured if and only
if nothing goes wrong for both options.
Source: `statswriter.cc`, `StatsWriter`; `protocol.cc`, `getSockAddr`
Kind: P -/
theorem writeStats_eq_configured_iff (showDouble : ℚ → Bytes) (m : WriterMemory)
    {listenHostname : Bytes} (receiveHostname : Bytes) (listenPort : ℤ)
    {statsd tags : Option Destination} (metric : Option Bytes) (quiet : Bool)
    (hsocket : statsd.isSome ∨ tags.isSome → makeSocket net listenHostname 0 = some fd)
    (hresolves : ∀ d, statsd = some d ∨ tags = some d → Resolves net e d.host (address d.host)) :
    ∃ w, StatsWriterObject.construct net m listenHostname receiveHostname listenPort
        (statsd.map Destination.text) (tags.map Destination.text) metric quiet = some w ∧
      ∀ r, w.writeStats showDouble r =
          configured showDouble e address fd quiet statsd tags w r ↔
        Met m.statsdSa statsd ∧ Met m.tagsSa tags := by
  have hstatsd := setSockAddr_eq m.statsdSa m.statsdAddr fun d hd => hresolves d (.inl hd)
  have htags := setSockAddr_eq m.tagsSa m.tagsAddr fun d hd => hresolves d (.inr hd)
  have hfd : setSocket net m.fd listenHostname ((statsd.map Destination.text).isSome ||
      (tags.map Destination.text).isSome) =
        some (if statsd.isSome || tags.isSome then fd else m.fd) := by
    rw [Option.isSome_map, Option.isSome_map, setSocket]
    split_ifs with hused
    · exact hsocket (by simpa using hused)
    · rfl
  refine ⟨_, by rw [StatsWriterObject.construct, hfd, hstatsd, htags]; rfl, fun r => ?_⟩
  exact writeStats_eq_iff showDouble rfl rfl (fun h => if_pos (by simpa using h))
    (fun d hd => (hresolves d hd).1) r

end Writer

/-! ## An example -/

/-- A network in which every host has one address. Source: `protocol.cc`, `getSockAddr`. Kind: D -/
def exampleNetwork : Network where
  getaddrinfo := fun _ _ _ => some (sockaddrIn .little 0 [10, 0, 0, 1] ++ List.replicate 8 0)
  socket := some 3
  bind := fun _ _ => true
  gethostbyaddr := fun _ => none

/-- Source: `statswriter.cc`, `StatsWriter::StatsWriter`. Kind: D -/
def exampleMemory : WriterMemory where
  fd := 0
  statsdSa := 0
  tagsSa := 0
  statsdAddr := List.replicate 16 0
  tagsAddr := List.replicate 16 0

/-- The argument `10.0.0.1:9125`. Source: `server.cc`, `main`. Kind: D -/
def exampleDestination : Destination where
  host := ascii "10.0.0.1"
  port := some 9125
  colon := by decide

/-- A server with `-s 10.0.0.1:9125`. Source: `statswriter.cc`, `StatsWriter`. Kind: P -/
theorem writeStats_exampleDestination :
    ∃ w, StatsWriterObject.construct exampleNetwork exampleMemory (ascii "10.0.0.1")
        (ascii "server") 7000 ((some exampleDestination).map Destination.text)
        ((none : Option Destination).map Destination.text) none true = some w ∧
      ∀ r, w.writeStats (fun _ => []) r =
          configured (fun _ => []) .little (fun _ => [10, 0, 0, 1]) 3 true (some exampleDestination)
            none w r ↔
        Met 0 (some exampleDestination) ∧ Met 0 none :=
  writeStats_eq_configured_iff (fun _ => []) exampleMemory (ascii "server") 7000 none true
    (fun _ => rfl) fun _ _ => ⟨rfl, List.replicate 8 0, rfl⟩

/-- **The port is lost**: the statistics of a quiet server with `-s 10.0.0.1:9125` go to port zero.
Source: `protocol.cc`, `getSockAddr`
Kind: P -/
theorem port_is_lost :
    ∃ w, StatsWriterObject.construct exampleNetwork exampleMemory (ascii "10.0.0.1")
        (ascii "server") 7000 (some exampleDestination.text) none none true = some w ∧
      w.writeStats (fun _ => []) ⟨[], ascii "client", 5000, Stats.new, 0⟩ ≠
        configured (fun _ => []) .little (fun _ => [10, 0, 0, 1]) 3 true (some exampleDestination)
          none w ⟨[], ascii "client", 5000, Stats.new, 0⟩ := by
  refine ⟨_, rfl, ?_⟩
  decide +kernel

end UDPing.Server
