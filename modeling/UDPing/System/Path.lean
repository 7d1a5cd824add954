import UDPing.Client.Frames
import UDPing.Client.SendLoop
import UDPing.Protocol.Decode
import UDPing.Server.Delivery
import UDPing.Server.Process

/-!
# From a client's iteration to a datagram at the server's socket

* `ClientConfig`: what a client is started with, within the ranges that its options are checked for.
* `Probes`: what there is to say of a message that a client sends.
* `hear`: the datagram in a frame, if it is for the server's socket. **`Probes.hear`**: of a client's
  frame the server's host hears the payload, from the client's address and the session's port.
* **`Probes.wellFormed`**: that datagram is well formed, and its header is the sender's.
-/

namespace UDPing.System

open Lib Client Server

/-! ## Clients -/

/-- Source: `client.cc`, `main`. Kind: D -/
structure ClientConfig where
  parent : Parent
  ports : List ℤ
  macs : List Mac
  fresh : ℕ → Fresh
  /-- The port descriptor names a port. -/
  ports_ne_nil : ports ≠ []
  /-- "Invalid next-hop MAC address string". -/
  macs_ne_nil : macs ≠ []
  /-- The range of the option `i`. -/
  interval_pos : 1 ≤ parent.interval
  /-- The range of the option `m`. -/
  maxPacketSize_range : 1 ≤ parent.maxPacketSize ∧ parent.maxPacketSize ≤ maxBuf

namespace ClientConfig

variable (c : ClientConfig)

/-- The sessions at the start of the main loop. Source: `client.cc`, `main`. Kind: D -/
def start (A : Abi) : ClientSessionList := ClientSessionList.create A c.parent c.ports c.macs c.fresh

/-- The session of iteration `k`. Source: none: specification. Kind: D -/
def slot (k : ℕ) : ℕ := k % c.ports.length

/-- The sender of the packet of iteration `k`. Source: none: specification. Kind: D -/
def senderAt (ticks : ℕ → Tick) (k : ℕ) : Client.Sender :=
  senderOf (c.fresh (c.slot k)) (Rota.share ticks c.ports.length (c.slot k)) (k / c.ports.length)
    (drawnFor c.parent (Rota.share ticks c.ports.length (c.slot k)) (k / c.ports.length))

/-- Iterations that meet `l`, and after it ones of no matter. Source: none: specification. Kind: D -/
def ticks (l : List Tick) : ℕ → Tick := fun k =>
  l.getD k ⟨c.parent.interval, fun _ => 0, (probe [] 0 0).rcvd, 0⟩

/-- The clock of a client is not in the first interval of the epoch.
Source: none: environment
Kind: D -/
def Clocked (t : Tick) : Prop := c.parent.interval ≤ t.now

variable {c}

theorem ticks_of_getElem? {l : List Tick} {k : ℕ} {t : Tick} (h : l[k]? = some t) :
    c.ticks l k = t := by
  rw [ticks, List.getD_eq_getElem?_getD, h, Option.getD_some]

theorem clocked_ticks {l : List Tick} (h : ∀ t ∈ l, c.Clocked t) (k : ℕ) :
    c.Clocked (c.ticks l k) := by
  rcases hk : l[k]? with _ | t
  · rw [ticks, List.getD_eq_getElem?_getD, hk, Option.getD_none]
    exact le_rfl
  · rw [ticks_of_getElem? hk]
    exact h t (List.mem_of_getElem? hk)

end ClientConfig

/-! ## Messages -/

/-- A message of a client, of the sender `x` and with the time stamp `ts`.
Source: `clientsession.cc`, `sendPingPacket`, `sendPacket`
Kind: D -/
structure Probes (A : Abi) (parent : Parent) (x : Client.Sender) (ts : Timespec) (msg : Message) : Prop where
  srcIp : msg.srcIp = parent.srcAddr
  dstIp : msg.dstIp = parent.dstAddr
  dstPort : msg.dstPort = parent.dstPort
  holds : Holds A msg.message x
  datalen : A.sizeofPacket ≤ msg.datalen ∧ msg.datalen < maxBuf
  sentSec : A.read32 msg.message A.sentSec = UInt32.ofInt ts.tvSec
  sentNsec : A.read64 msg.message A.sentNsec = UInt64.ofInt ts.tvNsec
  size : A.read32 msg.message A.size = UInt32.ofInt msg.datalen

/-- What an iteration sends is a session's packet. Source: `client.cc`, `main`. Kind: L -/
theorem iterate_message {A : Abi} {l : ClientSessionList} {t : Tick} {out : Bool × Message}
    (h : (l.iterate A t).1 = some out) :
    ∃ s : ClientSession, out.2 = (s.sendPingPacket A l.parent t.ts t.sizeRand).1 := by
  unfold ClientSessionList.iterate ClientSessionList.getNextSession at h
  dsimp only at h
  rcases hs : l.sessions[l.curSession]? with _ | session
  · rw [hs] at h
    cases h
  · rw [hs] at h
    obtain rfl := Option.some.inj h
    exact ⟨_, rfl⟩

/-- **What iteration `k` sends**, and from where. Source: `client.cc`, `main`. Kind: P -/
theorem ClientConfig.sent_probes (c : ClientConfig) (A : Abi) {ticks : ℕ → Tick}
    (hclock : ∀ k, c.Clocked (ticks k)) (k : ℕ) :
    ∃ rolled msg, (c.start A).sent A ticks k = some (rolled, msg) ∧
      c.ports[c.slot k]? = some msg.srcPort ∧ msg.dstMacHex.isSome ∧
      Probes A c.parent (c.senderAt ticks k) (ticks k).ts msg := by
  obtain ⟨rolled, msg, hsent, hport, -, hmac, hholds, -⟩ := @sent_turn A c.parent c.ports c.macs
    c.fresh ticks c.ports_ne_nil c.macs_ne_nil (fun i => bucket_ne_zero c.interval_pos (hclock i)) k
  obtain ⟨hparent, -⟩ := before_rota A (c.start A) ticks k
  obtain ⟨s, rfl⟩ := iterate_message hsent
  have hbefore : ((c.start A).before A ticks k).parent = c.parent := hparent
  obtain ⟨hlo, hhi⟩ := sendPingPacket_size A s c.maxPacketSize_range (ticks k).ts (ticks k).sizeRand
  obtain ⟨hsec, hnsec, hsize⟩ :=
    sendPingPacket_fields A s c.parent (ticks k).ts (ticks k).sizeRand
  have hheader := A.header_lt
  have hrange := c.maxPacketSize_range
  refine ⟨rolled, _, hsent, hport, ?_, ?_⟩
  · rw [hmac, List.getElem?_eq_getElem (Nat.mod_lt _ (List.length_pos_iff.mpr c.macs_ne_nil))]
    rfl
  · change Holds A (s.sendPingPacket A ((c.start A).before A ticks k).parent _ _).1.message _ at hholds
    change Probes A _ _ _ (s.sendPingPacket A ((c.start A).before A ticks k).parent _ _).1
    rw [hbefore] at hholds ⊢
    exact ⟨rfl, rfl, rfl, hholds, ⟨hlo, by omega⟩, hsec, hnsec, hsize⟩

/-! ## Frames -/

/-- The datagram that a host hands to the socket that is bound to `addr` and `port`, of a frame that
reaches it.
Source: none: environment
Kind: D -/
def hear (e : Endian) (addr : UInt32) (port : UInt16) (frame : Bytes) : Option Datagram :=
  (parseFrame frame).bind fun f =>
    if sAddr e f.ip.dst = addr ∧ f.udp.dstPort = port.toNat then
      some ⟨f.message, sAddr e f.ip.src, UInt16.ofNat f.udp.srcPort⟩
    else none

/-- A port is read as the 16 bits that were written. Source: `htons`. Kind: L -/
theorem decode_htons_toNat (e : Endian) (x : UInt16) :
    decode .big (encode e 2 (htons e x).toNat) = x.toNat := by
  rw [encode_htons, decode_encode .big x.toNat_lt]

/-- **What a host hears of a message's frame.**
Source: `protocol.cc`, `sendMessage`, `buildFrame`
Kind: P -/
theorem hear_sendMessage {e : Endian} {outboundFrame : Frame} {msg : Message} {frame : Bytes}
    (hlen : 0 ≤ msg.datalen ∧ msg.datalen ≤ 65507)
    (hframe : sendMessage e outboundFrame msg = some frame) (addr : UInt32) (port : UInt16) :
    hear e addr port frame =
      if msg.dstIp = addr ∧ UInt16.ofInt msg.dstPort = port then
        some ⟨msg.payload, msg.srcIp, UInt16.ofInt msg.srcPort⟩
      else none := by
  obtain ⟨dstMac, -, rfl⟩ := sendMessage_bytes hframe
  obtain ⟨n, hn⟩ : ∃ n : ℕ, msg.datalen = n := ⟨msg.datalen.toNat, by omega⟩
  have hmax : n ≤ 65507 := by omega
  have hip := parseIp_buildFrame e outboundFrame msg.srcMacHex dstMac msg.srcIp msg.dstIp msg.srcPort
    msg.dstPort msg.message hmax msg.checksumLength
  have hmessage := buildFrame_message e outboundFrame msg.srcMacHex dstMac msg.srcIp msg.dstIp
    msg.srcPort msg.dstPort msg.message msg.checksumLength n
  rw [hn, Int.toNat_natCast]
  generalize hf : (buildFrame e outboundFrame msg.srcMacHex dstMac msg.srcIp msg.dstIp msg.srcPort
    msg.dstPort msg.message n msg.checksumLength).1 = f at hip hmessage ⊢
  have hproto : f.proto = (0x08, 0x00) := by
    rw [← hf]
    rfl
  have hsrc : f.udphdr.source = htons e (UInt16.ofInt msg.srcPort) := by
    rw [← hf]
    rfl
  have hdst : f.udphdr.dest = htons e (UInt16.ofInt msg.dstPort) := by
    rw [← hf]
    rfl
  have hudplen : f.udphdr.len = htons e (UInt16.ofInt (8 + n)) := by
    rw [← hf]
    rfl
  have hlength := @decode_htons e (8 + n) (by omega)
  have hudp := parseUdp_bytes e f.udphdr
  rw [hsrc, hdst, hudplen, decode_htons_toNat, decode_htons_toNat] at hudp
  have hpayload : msg.payload = msg.message.load 0 n := by
    rw [Message.payload, hn, Int.toNat_natCast]
  unfold hear
  rw [parseFrame_bytes e f n hproto hip hudp rfl (by dsimp only; omega), Option.bind_some]
  dsimp only
  rw [sAddr_encode, sAddr_encode, hmessage, hpayload, UInt16.ofNat_toNat]
  simp only [UInt16.toNat_inj]

section Probes

variable {A : Abi} {parent : Parent} {x : Client.Sender} {ts : Timespec} {msg : Message}

/-- **What the server's host hears of a client's frame**: the payload, from the client's address and
the session's port, if the client sends to this server.
Source: `protocol.cc`, `sendMessage`, `buildFrame`
Kind: P -/
theorem Probes.hear (h : Probes A parent x ts msg) {outboundFrame : Frame} {frame : Bytes}
    (hframe : sendMessage A.endian outboundFrame msg = some frame) (addr : UInt32) (port : UInt16) :
    hear A.endian addr port frame =
      if parent.dstAddr = addr ∧ UInt16.ofInt parent.dstPort = port then
        some ⟨msg.payload, parent.srcAddr, UInt16.ofInt msg.srcPort⟩
      else none := by
  have hlen := h.datalen
  have hbuf : maxBuf = 2000 := rfl
  rw [hear_sendMessage (by omega) hframe, h.srcIp, h.dstIp, h.dstPort]

/-- **The datagram of a client's message is well formed**, and code sees the sender's header in it
whatever the receive buffer held.
Source: `clientsession.cc`, `sendPacket`; `serversession.cc`, `readNextPacket`
Kind: P -/
theorem Probes.wellFormed (h : Probes A parent x ts msg) (addr : UInt32) (port : UInt16) :
    (⟨msg.payload, addr, port⟩ : Datagram).WellFormed A ∧
      ∀ buf, (⟨msg.payload, addr, port⟩ : Datagram).header A buf =
        headerOf x (UInt32.ofInt ts.tvSec) (UInt64.ofInt ts.tvNsec) (UInt32.ofInt msg.datalen) := by
  have hlen := h.datalen
  have hbuf : maxBuf = 2000 := rfl
  obtain ⟨n, hn⟩ : ∃ n : ℕ, msg.datalen = n := ⟨msg.datalen.toNat, by omega⟩
  have hpayload : msg.payload = msg.message.load 0 n := by
    rw [Message.payload, hn, Int.toNat_natCast]
  have hreceived : (⟨msg.payload, addr, port⟩ : Datagram).received = msg.message.load 0 n := by
    rw [Datagram.received, hpayload]
    exact List.take_of_length_le (by rw [Mem.length_load]; omega)
  have hheader : ∀ buf, (⟨msg.payload, addr, port⟩ : Datagram).header A buf =
      headerOf x (UInt32.ofInt ts.tvSec) (UInt64.ofInt ts.tvNsec) (UInt32.ofInt msg.datalen) := by
    intro buf
    rw [Datagram.header, hreceived, packet_of_holds h.holds (by omega), h.sentSec, h.sentNsec, h.size]
  refine ⟨⟨?_, ?_, ?_⟩, hheader⟩
  · rw [hreceived, Mem.length_load]
    omega
  · rw [hheader, hreceived, Mem.length_load]
    exact (ofInt_eq_iff (by omega) _).mp (by rw [headerOf, hn])
  · rw [hheader]
    rfl

end Probes

end UDPing.System
