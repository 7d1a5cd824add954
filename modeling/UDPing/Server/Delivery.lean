import UDPing.Client.Options
import UDPing.Client.Session
import UDPing.Server.Receive

/-!
# From a client's packet to the server's session table

* `readNextPacket_of_holds`: a datagram that holds a sender's header and its own size passes every
  check of `readNextPacket`, whatever the receive buffer held before, and `receivePing` sees the
  header.
* **`wire_agreement`**: so it is with every datagram a client sends.
-/

namespace UDPing.Server

open Lib Client
open Std (ExtTreeMap)

/-- The header of a packet of the sender `x`, with its time stamps and its size.
Source: `protocol.h`, `packet`
Kind: D -/
def headerOf (x : Sender) (sentSec : UInt32) (sentNsec : UInt64) (size : UInt32) : Packet where
  protoVersion := protoVersion
  clientStartTime := x.clientStartTime
  guid := x.guid
  seqNum := x.seqNum
  sentSec := sentSec
  sentNsec := sentNsec
  size := size

/-! ## Delivery -/

/-- **The header that code sees in a received datagram** is the sender's, whatever the buffer held
before.
Source: `serversession.cc`, `readNextPacket`
Kind: P -/
theorem packet_of_holds {A : Abi} {p : Mem} {x : Sender} (h : Holds A p x) {n : ℕ}
    (hn : A.sizeofPacket ≤ n) (buf : Mem) :
    A.packet (buf.store 0 (p.load 0 n)) maxBuf =
      headerOf x (A.read32 p A.sentSec) (A.read64 p A.sentNsec) (A.read32 p A.size) := by
  have hfields := A.fields
  have hheader := A.header_lt
  have hcopy : ∀ i, i < n → buf.store 0 (p.load 0 n) i = p i := fun i hi => Mem.store_load buf p hi
  have hguid : cString ((buf.store 0 (p.load 0 n)).load A.guid (maxBuf - A.guid)) = x.guid := by
    have hsplit : maxBuf - A.guid = maxGuid + (1 + (maxBuf - A.guid - maxGuid - 1)) := by omega
    have htext : (buf.store 0 (p.load 0 n)).load A.guid maxGuid = x.guid := by
      rw [← h.guid]
      exact Mem.load_congr fun i _ hi => hcopy i (by omega)
    have hnul : (buf.store 0 (p.load 0 n)).load (A.guid + maxGuid) 1 = [0] := by
      have hbyte := hcopy (A.guid + maxGuid) (by omega)
      rw [h.nul] at hbyte
      simpa [Mem.load] using hbyte
    rw [hsplit, Mem.load_add, Mem.load_add, htext, hnul]
    exact cString_append_zero x.guid_ne_zero _
  unfold Abi.packet
  rw [hguid, hcopy _ (by omega), h.protoVersion,
    A.read32_congr fun i _ hi => hcopy i (by omega), h.clientStartTime,
    A.read32_congr fun i _ hi => hcopy i (by omega), h.seqNum,
    A.read32_congr fun i _ hi => hcopy i (by omega),
    A.read64_congr fun i _ hi => hcopy i (by omega),
    A.read32_congr fun i _ hi => hcopy i (by omega)]
  rfl

/-- **A datagram with a sender's header and its own size is accepted.**
Source: `serversession.cc`, `readNextPacket`
Kind: P -/
theorem readNextPacket_of_holds {A : Abi} {p : Mem} {x : Sender} (h : Holds A p x) {n : ℕ}
    (hn : A.sizeofPacket ≤ n) (hbuf : n ≤ maxBuf) (hsize : A.read32 p A.size = UInt32.ofInt n)
    (resolve : UInt32 → Bytes) (hostMap : ExtTreeMap UInt32 Bytes) (buf : Mem) (addr : UInt32)
    (port : UInt16) (tv : Timespec) (stamp : Time) :
    (readNextPacket A resolve hostMap buf (some ⟨p.load 0 n, addr, port⟩) tv stamp).1 =
      .ping
        { ph := headerOf x (A.read32 p A.sentSec) (A.read64 p A.sentNsec) (A.read32 p A.size)
          rcvd := tv
          peer := (hostNameOf resolve hostMap addr).1
          port := port
          stamp := stamp } := by
  have hlen : (p.load 0 n).length = n := Mem.length_load p 0 n
  have htake : (p.load 0 n).take maxBuf = p.load 0 n := List.take_of_length_le (by omega)
  unfold readNextPacket recvfrom
  dsimp only
  rw [htake, hlen, packet_of_holds h hn buf]
  rw [if_neg (by omega), if_neg, if_neg, if_neg]
  · exact fun hc => hc rfl
  · exact fun hc => hc hsize.symm
  · have hmod : (n : ℤ) % 2 ^ 64 = n := Int.emod_eq_of_lt (by omega) (by
      have : maxBuf = 2000 := rfl
      omega)
    rw [hmod]
    omega

/-- **Client and server agree on the wire format**, on hosts with one ABI: with every maximum that
the client's options admit, at every point of a session's life and for every value of `rand()`, the
payload is as long as its header says, fits the client's packet and the server's buffer, and is
handed to `receivePing` with the sender's GUID, start time, number and time stamps; the GUID has its
full length and is terminated.
Source: `clientsession.cc`, `sendPingPacket`, `sendPacket`; `serversession.cc`, `readNextPacket`
Kind: P -/
theorem wire_agreement (A : Abi) {arg : Option Bytes} {parent : Parent}
    (hopt : parseIntOption arg true 1 maxBuf = some parent.maxPacketSize) (port : ℤ)
    (dstMacs : MacList) (fresh : Mem) (start : Time) (rand : ℕ → ℕ)
    (calls : List ClientSession.Call) (ts : Timespec) (r : ℕ) {x : Sender} {msg : Message}
    (hx : x = (Sender.machine start rand).run calls)
    (hmsg : msg = (((ClientSession.machine A parent port dstMacs fresh start rand).run
      calls).sendPingPacket A parent ts r).1) :
    (A.sizeofPacket ≤ msg.datalen ∧
      msg.datalen ≤ max (A.sizeofPacket : ℤ) (parent.maxPacketSize - 1) ∧
      max (A.sizeofPacket : ℤ) (parent.maxPacketSize - 1) < maxBuf ∧
      msg.datalen ≤ A.sizeofPaddedPacket ∧ (msg.payload.length : ℤ) = msg.datalen) ∧
    ((A.read32 msg.message A.size).toNat : ℤ) = msg.datalen ∧
    (x.guid.length = 20 ∧ (∀ b ∈ x.guid, b ≠ 0) ∧ msg.message (A.guid + 20) = 0) ∧
    ∀ (resolve : UInt32 → Bytes) (hostMap : ExtTreeMap UInt32 Bytes) (buf : Mem) (addr : UInt32)
        (srcPort : UInt16) (tv : Timespec) (stamp : Time),
      (readNextPacket A resolve hostMap buf (some ⟨msg.payload, addr, srcPort⟩) tv stamp).1 =
        .ping
          { ph := headerOf x (UInt32.ofInt ts.tvSec) (UInt64.ofInt ts.tvNsec)
              (UInt32.ofInt msg.datalen)
            rcvd := tv
            peer := (hostNameOf resolve hostMap addr).1
            port := srcPort
            stamp := stamp } := by
  have hholds := (holds_run A parent port dstMacs fresh start rand calls).sendPingPacket parent ts r
  rw [← sendPingPacket_message, ← hx, ← hmsg] at hholds
  have hrange := range_of_parseIntOption hopt
  obtain ⟨hlo, hhi⟩ := sendPingPacket_size A ((ClientSession.machine A parent port dstMacs fresh
    start rand).run calls) hrange ts r
  obtain ⟨hsec, hnsec, hsize⟩ := sendPingPacket_fields A ((ClientSession.machine A parent port
    dstMacs fresh start rand).run calls) parent ts r
  rw [← hmsg] at hlo hhi hsec hnsec hsize
  have hheader := A.header_lt
  have hpadding := A.padding
  have hbuf : maxBuf = 2000 := rfl
  obtain ⟨n, hn⟩ : ∃ n : ℕ, msg.datalen = n := ⟨msg.datalen.toNat, by omega⟩
  have hpayload : msg.payload = msg.message.load 0 n := by
    unfold Message.payload
    rw [hn, Int.toNat_natCast]
  refine ⟨⟨hlo, hhi, by omega, by omega, ?_⟩, ?_, ⟨x.length, x.guid_ne_zero, hholds.nul⟩, ?_⟩
  · rw [hpayload, Mem.length_load, hn]
  · have hmod : ((n : ℤ) % 2 ^ 32).toNat = n := by omega
    rw [hsize, hn, UInt32.ofInt, hmod, UInt32.toNat_ofNat', Nat.mod_eq_of_lt (by omega)]
  · intro resolve hostMap buf addr srcPort tv stamp
    rw [hn] at hsize ⊢
    rw [hpayload, readNextPacket_of_holds hholds (by omega) (by omega) hsize resolve hostMap buf addr
      srcPort tv stamp, hsec, hnsec, hsize]

theorem wire_agreement_exampleParent :
    (readNextPacket (lp64 .little) (fun _ => ascii "h") ∅ (fun _ => 255)
      (some ⟨(((ClientSession.machine (lp64 .little) exampleParent 4000 ⟨[], 0⟩ (fun _ => 170) 1000
        id).run [.increment]).sendPingPacket (lp64 .little) exampleParent { tvSec := 1001, tvNsec := 5 }
          99).1.payload, 16777343, 4000⟩) { tvSec := 1001, tvNsec := 9 } 1001).1 =
      .ping
        { ph :=
            { protoVersion := 1
              clientStartTime := 1000
              guid := ascii "0123456789abcdef0123"
              seqNum := 1
              sentSec := 1001
              sentNsec := 5
              size := 99 }
          rcvd := { tvSec := 1001, tvNsec := 9 }
          peer := ascii "h"
          port := 4000
          stamp := 1001 } := by
  have hagree := @wire_agreement (lp64 .little) (some (ascii "1500")) exampleParent (by decide) 4000
    ⟨[], 0⟩ (fun _ => 170) 1000 id [.increment] { tvSec := 1001, tvNsec := 5 } 99 _ _ rfl rfl
  rw [hagree.2.2.2]
  rfl

end UDPing.Server
