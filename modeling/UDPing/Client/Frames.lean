import UDPing.Client.Options
import UDPing.Client.Session
import UDPing.Protocol.Frame

/-!
# The frames of a client

* `sendMessage` (`protocol.cc`): the bytes that are handed to `sendto`.
* **`frame_checksums`**: the checksums of every frame a client sends verify, although only the header
  of its packet was summed.
* **`frame_check_ne_zero_iff`**: when the UDP checksum of a frame is zero, which says to the receiver
  that there is none.
-/

namespace UDPing.Client

open Lib

/-- The bytes handed to `sendto`; `none`: the destination's address is read through a null pointer.
Source: `protocol.cc`, `sendMessage`
Kind: D
Fidelity: `outboundFrame` is the frame before it is built, which the source leaves uninitialised -/
def sendMessage (e : Endian) (outboundFrame : Frame) (msg : Message) : Option Bytes :=
  msg.dstMacHex.map fun dstMacHex =>
    let (frame, frameLength) := buildFrame e outboundFrame msg.srcMacHex dstMacHex msg.srcIp
      msg.dstIp msg.srcPort msg.dstPort msg.message msg.datalen msg.checksumLength
    frame.bytes e (frameLength - (6 + 6 + 2 + ip4Hdrlen + udpHdrlen)).toNat

/-- The bytes of a frame that is sent are those of the frame built, up to the end of its message.
Source: `protocol.cc`, `sendMessage`
Kind: L -/
theorem sendMessage_bytes {e : Endian} {outboundFrame : Frame} {msg : Message} {frame : Bytes}
    (hframe : sendMessage e outboundFrame msg = some frame) :
    ∃ dstMacHex, msg.dstMacHex = some dstMacHex ∧
      frame = (buildFrame e outboundFrame msg.srcMacHex dstMacHex msg.srcIp msg.dstIp msg.srcPort
        msg.dstPort msg.message msg.datalen msg.checksumLength).1.bytes e msg.datalen.toNat := by
  obtain ⟨dstMacHex, hmac, hframe⟩ := Option.map_eq_some_iff.mp hframe
  have hlength : (6 + 6 + 2 + (ip4Hdrlen : ℤ) + udpHdrlen + msg.datalen -
      (6 + 6 + 2 + ip4Hdrlen + udpHdrlen)).toNat = msg.datalen.toNat := by
    congr 1
    omega
  refine ⟨dstMacHex, hmac, ?_⟩
  rw [← hframe]
  unfold buildFrame
  dsimp only
  rw [hlength]

/-- **Summing the header of a packet is enough**: on a little-endian host where a header has 56
bytes, for every maximum that the options admit, at every point of a session's life, for every value
of `rand()` and all addresses and ports, the sums over the IP header and over pseudo-header, UDP
header and payload of the frame are all ones. The payload is the whole datagram.
Source: `protocol.cc`, `buildFrame`; `clientsession.cc`, `sendPacket`
Kind: P -/
theorem frame_checksums {A : Abi} (hendian : A.endian = .little) (hsizeof : A.sizeofPacket = 56)
    {arg : Option Bytes} {parent : Parent}
    (hopt : parseIntOption arg true 1 maxBuf = some parent.maxPacketSize) (port : ℤ)
    (dstMacs : MacList) (fresh : Mem) (start : Time) (rand : ℕ → ℕ)
    (calls : List ClientSession.Call) (ts : Timespec) (r : ℕ) (outboundFrame : Frame)
    {msg : Message} {frame : Bytes}
    (hmsg : msg = (((ClientSession.machine A parent port dstMacs fresh start rand).run
      calls).sendPingPacket A parent ts r).1)
    (hframe : sendMessage A.endian outboundFrame msg = some frame) :
    ((ipHeader frame).length = 20 ∧ onesSum (wordsOf .big (ipHeader frame)) = 65535) ∧
    ((udpPayload frame).length = msg.datalen ∧ udpPayload frame = msg.payload ∧
      onesSum (wordsOf .big (pseudoHeader (ipHeader frame) (udpHeader frame) ++ udpHeader frame ++
        udpPayload frame)) = 65535) := by
  have hholds := (holds_run A parent port dstMacs fresh start rand calls).sendPingPacket parent ts r
  rw [← sendPingPacket_message, ← hmsg] at hholds
  have hrange := range_of_parseIntOption hopt
  obtain ⟨hlo, hhi⟩ := sendPingPacket_size A ((ClientSession.machine A parent port dstMacs fresh
    start rand).run calls) hrange ts r
  rw [← hmsg] at hlo hhi
  have hchecked : msg.checksumLength = A.sizeofPacket := by
    rw [hmsg]
    rfl
  have hpadding := A.padding
  have hbuf : maxBuf = 2000 := rfl
  obtain ⟨n, hn⟩ : ∃ n : ℕ, msg.datalen = n := ⟨msg.datalen.toNat, by omega⟩
  obtain ⟨dstMac, -, hbytes⟩ := sendMessage_bytes hframe
  rw [hendian, hn, hchecked, hsizeof, Int.toNat_natCast] at hbytes
  obtain ⟨f, hf⟩ : ∃ f, f = (buildFrame .little outboundFrame msg.srcMacHex dstMac msg.srcIp
    msg.dstIp msg.srcPort msg.dstPort msg.message n (56 : ℕ)).1 := ⟨_, rfl⟩
  rw [← hf] at hbytes
  have hpayload : f.message.load 0 n = msg.payload := by
    rw [hf, Message.payload, hn, Int.toNat_natCast]
    exact buildFrame_message _ _ _ _ _ _ _ _ _ _ n
  have hip : onesSum (wordsOf .big (f.iphdr.bytes .little)) = 65535 := by
    rw [hf]
    exact buildFrame_ip _ _ _ _ _ _ _ _ _ _ _
  have hudp := @buildFrame_udp outboundFrame msg.srcMacHex dstMac msg.srcIp msg.dstIp msg.srcPort
    msg.dstPort msg.message n 56 (by omega) (by decide) (by decide)
    (fun i hi hin => hholds.padding i (by omega) (by omega)) f hf
  rw [hbytes, ipHeader_bytes, udpHeader_bytes, udpPayload_bytes]
  refine ⟨⟨f.iphdr.length_bytes _, hip⟩, ?_, hpayload, hudp⟩
  rw [Mem.length_load, hn]

/-- What the memory of a frame may hold before. Source: `protocol.cc`, `sendMessage`. Kind: D -/
def exampleFrame : Frame where
  dstMac := ⟨[0, 0, 0, 0, 0, 0], rfl⟩
  srcMac := ⟨[0, 0, 0, 0, 0, 0], rfl⟩
  proto := (0, 0)
  iphdr := ⟨⟨0, Nat.zero_lt_succ 15⟩, ⟨0, Nat.zero_lt_succ 15⟩, 0, 0, 0, 0, 0, 0, 0, 0, 0⟩
  udphdr := ⟨0, 0, 0, 0⟩
  message := fun _ => 170

theorem frame_checksums_exampleParent :
    ∃ frame, sendMessage .little exampleFrame
        (((ClientSession.machine (lp64 .little) exampleParent 4000 ⟨[⟨[2, 0, 0, 0, 0, 9], rfl⟩], 0⟩
          (fun _ => 170) 1000 id).run [.increment]).sendPingPacket (lp64 .little) exampleParent
            { tvSec := 1001, tvNsec := 5 } 99).1 = some frame ∧
      (udpPayload frame).length = 99 ∧
      onesSum (wordsOf .big (ipHeader frame)) = 65535 ∧
      onesSum (wordsOf .big (pseudoHeader (ipHeader frame) (udpHeader frame) ++ udpHeader frame ++
        udpPayload frame)) = 65535 := by
  obtain ⟨⟨-, hip⟩, hlen, -, hudp⟩ := @frame_checksums (lp64 .little) rfl rfl (some (ascii "1500"))
    exampleParent (by decide) 4000 ⟨[⟨[2, 0, 0, 0, 0, 9], rfl⟩], 0⟩ (fun _ => 170) 1000 id
    [.increment] { tvSec := 1001, tvNsec := 5 } 99 exampleFrame _ _ rfl rfl
  refine ⟨_, rfl, ?_, hip, hudp⟩
  apply Int.ofNat_inj.mp
  exact hlen.trans (show _ = ((99 : ℕ) : ℤ) from rfl)

/-! ## A checksum of zero -/

/-- The sum of the words that the checksum of a message's datagram is made of: addresses, protocol,
length twice, ports, and the message's first `checksumLength` bytes.
Source: `protocol.cc`, `buildFrame`, `udp4_checksum2`
Kind: D -/
def Message.checkedSum (e : Endian) (msg : Message) : ℕ :=
  msg.srcIp.toNat % 65536 + msg.srcIp.toNat / 65536 + msg.dstIp.toNat % 65536 +
    msg.dstIp.toNat / 65536 + 256 * ipprotoUdp.toNat +
    2 * (htons e (UInt16.ofInt (udpHdrlen + msg.datalen))).toNat +
    (htons e (UInt16.ofInt msg.srcPort)).toNat + (htons e (UInt16.ofInt msg.dstPort)).toNat +
    sumWith e (fun b => 256 * b.toNat) (msg.message.load 0 msg.checksumLength.toNat)

/-- **When the checksum of a message's datagram is not zero.**
Source: `protocol.cc`, `sendMessage`, `udp4_checksum2`
Kind: P -/
theorem sendMessage_check_ne_zero_iff {e : Endian} {outboundFrame : Frame} {msg : Message}
    {frame : Bytes} (hlen : 0 < msg.checksumLength ∧ msg.checksumLength ≤ 65535)
    (hframe : sendMessage e outboundFrame msg = some frame) :
    (udpHeader frame).drop 6 ≠ [0, 0] ↔ ¬65535 ∣ msg.checkedSum e := by
  obtain ⟨dstMac, -, rfl⟩ := sendMessage_bytes hframe
  generalize hf : (buildFrame e outboundFrame msg.srcMacHex dstMac msg.srcIp msg.dstIp msg.srcPort
    msg.dstPort msg.message msg.datalen msg.checksumLength).1 = f
  have hcheck : f.udphdr.check = udp4Checksum2 e f.iphdr f.udphdr.cleared
      (msg.message.load 0 msg.checksumLength.toNat) := by
    have hne : ¬msg.checksumLength = 0 := by omega
    rw [← hf]
    unfold buildFrame
    dsimp only
    rw [if_neg hne]
    rfl
  have hsum : headerSum f.iphdr f.udphdr.cleared + sumWith e (fun b => 256 * b.toNat)
      (msg.message.load 0 msg.checksumLength.toNat) = msg.checkedSum e := by
    rw [← hf, Message.checkedSum, headerSum]
    simp only [buildFrame, UdpHdr.cleared]
    omega
  have hvalue := toNat_udp4Checksum2 e f.iphdr f.udphdr.cleared
    (show (msg.message.load 0 msg.checksumLength.toNat).length ≤ 65535 by simp; omega)
  have hpos : msg.checkedSum e ≠ 0 := by
    have hudp : ipprotoUdp.toNat = 17 := rfl
    unfold Message.checkedSum
    omega
  have hmax := @canon_eq_max (msg.checkedSum e)
  have hlt := canon_lt (msg.checkedSum e)
  rw [udpHeader_bytes, Ne, UdpHdr.check_bytes, hcheck, hvalue, hsum]
  omega

/-- **When the checksum of a client's frame is not zero**: for every session and all that it may
send, the sum of the words is no multiple of `65535`.
Source: `protocol.cc`, `buildFrame`, `udp4_checksum2`; `clientsession.cc`, `sendPacket`
Kind: P -/
theorem frame_check_ne_zero_iff (A : Abi) (parent : Parent) (port : ℤ) (dstMacs : MacList)
    (fresh : Mem) (start : Time) (rand : ℕ → ℕ) (calls : List ClientSession.Call) (ts : Timespec)
    (r : ℕ) (outboundFrame : Frame) {msg : Message} {frame : Bytes}
    (hmsg : msg = (((ClientSession.machine A parent port dstMacs fresh start rand).run
      calls).sendPingPacket A parent ts r).1)
    (hframe : sendMessage A.endian outboundFrame msg = some frame) :
    (udpHeader frame).drop 6 ≠ [0, 0] ↔ ¬65535 ∣ msg.checkedSum A.endian := by
  have hchecked : msg.checksumLength = A.sizeofPacket := by
    rw [hmsg]
    rfl
  have hfields := A.fields
  have hheader := A.header_lt
  have hbuf : maxBuf = 2000 := rfl
  exact sendMessage_check_ne_zero_iff (by omega) hframe

/-- The first packet of a session that starts at second 1000.
Source: `clientsession.cc`, `ClientSession`
Kind: D -/
def exampleMessage (ts : Timespec) : Message :=
  (((ClientSession.machine (lp64 .little) exampleParent 4000 ⟨[⟨[2, 0, 0, 0, 0, 9], rfl⟩], 0⟩
    (fun _ => 170) 1000 id).run []).sendPingPacket (lp64 .little) exampleParent ts 99).1

theorem frame_check_ne_zero_exampleParent :
    ∃ frame, sendMessage .little exampleFrame (exampleMessage { tvSec := 1000, tvNsec := 18711 }) =
        some frame ∧ (udpHeader frame).drop 6 ≠ [0, 0] :=
  ⟨_, rfl, (@frame_check_ne_zero_iff (lp64 .little) exampleParent 4000
    ⟨[⟨[2, 0, 0, 0, 0, 9], rfl⟩], 0⟩ (fun _ => 170) 1000 id [] { tvSec := 1000, tvNsec := 18711 } 99
    exampleFrame _ _ rfl rfl).mpr (by decide)⟩

/-- One nanosecond later. Source: none: specification. Kind: C -/
theorem frame_check_zero :
    ∃ frame, sendMessage .little exampleFrame (exampleMessage { tvSec := 1000, tvNsec := 18712 }) =
        some frame ∧ (udpHeader frame).drop 6 = [0, 0] := by
  have hiff := @sendMessage_check_ne_zero_iff .little exampleFrame
    (exampleMessage { tvSec := 1000, tvNsec := 18712 }) _ ⟨by decide, by decide⟩ rfl
  refine ⟨_, rfl, not_not.mp fun hne => ?_⟩
  exact hiff.mp hne (by decide)

end UDPing.Client
