import UDPing.Protocol.Frame

/-!
# Reading a frame back

* `parseFrame`: what a receiver reads out of the bytes of a frame, Ethernet II over IPv4 without
  options over UDP. It refuses lengths that do not agree and an IP header that does not verify.
* **`parseFrame_bytes`**: it reads the members of a `Frame` whose headers are consistent.
* **`parseFrame_buildFrame`**: from what `buildFrame` makes it reads back the arguments.
-/

namespace UDPing

open Lib

/-! ## The receiver -/

/-- What an IP header says. Source: none: specification. Kind: D -/
structure IpInfo where
  totalLen : ℕ
  src : Bytes
  dst : Bytes
  deriving DecidableEq

/-- An IP header of version 4, of five words, not a fragment, of protocol UDP, that verifies.
Source: none: specification
Kind: D -/
def parseIp (header : Bytes) : Option IpInfo :=
  match header with
  | [vhl, _, l1, l0, _, _, f1, f0, _, p, _, _, s0, s1, s2, s3, d0, d1, d2, d3] =>
      if vhl = 0x45 ∧ f1 = 0 ∧ f0 = 0 ∧ p = ipprotoUdp ∧ onesSum (wordsOf .big header) = 65535 then
        some ⟨decode .big [l1, l0], [s0, s1, s2, s3], [d0, d1, d2, d3]⟩
      else none
  | _ => none

/-- What a UDP header says. Source: none: specification. Kind: D -/
structure UdpInfo where
  srcPort : ℕ
  dstPort : ℕ
  len : ℕ
  deriving DecidableEq

/-- Source: none: specification. Kind: D -/
def parseUdp (header : Bytes) : Option UdpInfo :=
  match header with
  | [s1, s0, d1, d0, l1, l0, _, _] =>
      some ⟨decode .big [s1, s0], decode .big [d1, d0], decode .big [l1, l0]⟩
  | _ => none

/-- A datagram in its frame. Source: none: specification. Kind: D -/
structure ParsedFrame where
  dstMac : Bytes
  srcMac : Bytes
  ip : IpInfo
  udp : UdpInfo
  message : Bytes
  deriving DecidableEq

/-- The datagram in a frame. The IP packet fills the frame and the datagram fills the IP packet.
Source: none: specification
Kind: D -/
def parseFrame (frame : Bytes) : Option ParsedFrame := do
  let ip ← parseIp (ipHeader frame)
  let udp ← parseUdp (udpHeader frame)
  if (frame.drop 12).take 2 = [0x08, 0x00] ∧ frame.length = 14 + ip.totalLen ∧
      udp.len + 20 = ip.totalLen then
    some ⟨frame.take 6, (frame.drop 6).take 6, ip, udp, udpPayload frame⟩
  else none

/-- The `s_addr` that a host keeps for an address. Source: `netinet/in.h`, `in_addr`. Kind: D -/
def sAddr (e : Endian) (address : Bytes) : UInt32 := UInt32.ofNat (decode e address)

/-! ## The headers of a frame -/

/-- Two bytes in network order. Source: `htons`. Kind: L -/
theorem encode_htons (e : Endian) (x : UInt16) :
    encode e 2 (htons e x).toNat = encode .big 2 x.toNat := by
  have hlt : x.toNat < 256 ^ 2 := x.toNat_lt
  cases e with
  | big => rw [htons, decode_encode .big hlt, UInt16.ofNat_toNat]
  | little =>
      -- the high byte `h` and the low byte `l` change places
      obtain ⟨h, l, hx, hh, hl⟩ : ∃ h l, x.toNat = 256 * h + l ∧ h < 256 ∧ l < 256 :=
        ⟨x.toNat / 256, x.toNat % 256, by omega, by omega, by omega⟩
      have hbyte (n : ℕ) : (UInt8.ofNat n).toNat = n % 256 := UInt8.toNat_ofNat'
      have hdiv : (256 * h + l) / 256 = h := by omega
      have hmod : (256 * h + l) % 256 = l := by omega
      have hswap : (htons .little x).toNat = 256 * l + h := by
        have hsum : (h + 256 * l) % 2 ^ 16 = 256 * l + h := by omega
        simp only [htons, encode, decode, littleBytes, ofLittle, List.reverse_cons,
          List.reverse_nil, List.nil_append, List.cons_append, hbyte, UInt16.toNat_ofNat', hx,
          hdiv, hmod, Nat.mod_eq_of_lt hh, Nat.mul_zero, Nat.add_zero, hsum]
      have hdiv' : (256 * l + h) / 256 = l := by omega
      have hlow (a b : ℕ) : UInt8.ofNat (256 * a + b) = UInt8.ofNat b := by
        apply UInt8.toNat_inj.mp
        rw [hbyte, hbyte]
        omega
      simp only [hswap, hx, encode, littleBytes, hdiv, hdiv', hlow, List.reverse_cons,
        List.reverse_nil, List.nil_append, List.cons_append]

theorem encode_zero (e : Endian) : encode e 2 0 = [0, 0] := by
  cases e <;> rfl

theorem exists_encode_two (e : Endian) (n : ℕ) : ∃ a b, encode e 2 n = [a, b] :=
  List.length_eq_two.mp (length_encode e 2 n)

theorem exists_encode_four (e : Endian) (n : ℕ) : ∃ a b c d, encode e 4 n = [a, b, c, d] := by
  have hlen := length_encode e 4 n
  match h : encode e 4 n, hlen with
  | [a, b, c, d], _ => exact ⟨a, b, c, d, rfl⟩

/-- Source: `netinet/ip.h`, `struct ip`. Kind: L -/
theorem parseIp_bytes (e : Endian) {h : IpHdr} (hv : h.ipV = 4) (hhl : h.ipHl = 5)
    (hoff : h.ipOff = 0) (hproto : h.ipP = ipprotoUdp)
    (hsum : onesSum (wordsOf .big (h.bytes e)) = 65535) :
    parseIp (h.bytes e) =
      some ⟨decode .big (encode e 2 h.ipLen.toNat), encode e 4 h.ipSrc.toNat,
        encode e 4 h.ipDst.toNat⟩ := by
  obtain ⟨l1, l0, hlen⟩ := exists_encode_two e h.ipLen.toNat
  obtain ⟨i1, i0, hid⟩ := exists_encode_two e h.ipId.toNat
  obtain ⟨c1, c0, hcheck⟩ := exists_encode_two e h.ipSum.toNat
  obtain ⟨s0, s1, s2, s3, hsrc⟩ := exists_encode_four e h.ipSrc.toNat
  obtain ⟨d0, d1, d2, d3, hdst⟩ := exists_encode_four e h.ipDst.toNat
  have hbytes : h.bytes e = [0x45, h.ipTos, l1, l0, i1, i0, 0, 0, h.ipTtl, ipprotoUdp, c1, c0,
      s0, s1, s2, s3, d0, d1, d2, d3] := by
    unfold IpHdr.bytes
    rw [hv, hhl, hoff, hproto, hlen, hid, hcheck, hsrc, hdst, UInt16.toNat_zero, encode_zero]
    rfl
  rw [hbytes] at hsum ⊢
  rw [hlen, hsrc, hdst]
  exact if_pos ⟨rfl, rfl, rfl, rfl, hsum⟩

/-- Source: `netinet/udp.h`, `struct udphdr`. Kind: L -/
theorem parseUdp_bytes (e : Endian) (u : UdpHdr) :
    parseUdp (u.bytes e) =
      some ⟨decode .big (encode e 2 u.source.toNat), decode .big (encode e 2 u.dest.toNat),
        decode .big (encode e 2 u.len.toNat)⟩ := by
  obtain ⟨s1, s0, hsrc⟩ := exists_encode_two e u.source.toNat
  obtain ⟨d1, d0, hdst⟩ := exists_encode_two e u.dest.toNat
  obtain ⟨l1, l0, hlen⟩ := exists_encode_two e u.len.toNat
  obtain ⟨c1, c0, hcheck⟩ := exists_encode_two e u.check.toNat
  have hbytes : u.bytes e = [s1, s0, d1, d0, l1, l0, c1, c0] := by
    rw [UdpHdr.bytes, hsrc, hdst, hlen, hcheck]
    rfl
  rw [hbytes, hsrc, hdst, hlen]
  rfl

/-- A number in network order is read back. Source: `htons`. Kind: L -/
theorem decode_htons (e : Endian) {n : ℤ} (hn : 0 ≤ n ∧ n ≤ 65535) :
    (decode .big (encode e 2 (htons e (UInt16.ofInt n)).toNat) : ℤ) = n := by
  have hlt : (UInt16.ofInt n).toNat < 256 ^ 2 := (UInt16.ofInt n).toNat_lt
  rw [encode_htons, decode_encode .big hlt]
  have hint : (UInt16.ofInt n).toNat = (n % 2 ^ 16).toNat % 2 ^ 16 := rfl
  rw [hint]
  omega

/-- The `s_addr` is read back. Source: `netinet/in.h`, `in_addr`. Kind: L -/
theorem sAddr_encode (e : Endian) (x : UInt32) : sAddr e (encode e 4 x.toNat) = x := by
  have hlt : x.toNat < 256 ^ 4 := x.toNat_lt
  rw [sAddr, decode_encode e hlt, UInt32.ofNat_toNat]

/-! ## The round trip -/

@[simp] theorem Frame.length_bytes (e : Endian) (f : Frame) (n : ℕ) :
    (f.bytes e n).length = 42 + n := by
  simp only [Frame.bytes, List.length_append, f.dstMac.property, f.srcMac.property,
    List.length_cons, List.length_nil, IpHdr.length_bytes, UdpHdr.length_bytes, Mem.length_load]

/-- The first bytes of a frame. Source: `protocol.h`, `struct frame`. Kind: L -/
theorem Frame.take_bytes (e : Endian) (f : Frame) {n m : ℕ} (hnm : n ≤ m) :
    (f.bytes e m).take (42 + n) = f.bytes e n := by
  have hsplit : f.bytes e m = f.bytes e n ++ f.message.load n (m - n) := by
    have hm : m = n + (m - n) := by omega
    unfold Frame.bytes
    conv_lhs => rw [hm, Mem.load_add, Nat.zero_add, ← List.append_assoc]
  rw [hsplit, List.take_left' (f.length_bytes e n)]

/-- **The members of a frame are read**: its headers are of the kind that the receiver knows, and
their lengths agree with the message's.
Source: `protocol.h`, `struct frame`
Kind: P -/
theorem parseFrame_bytes (e : Endian) (f : Frame) (n : ℕ) {ip : IpInfo} {udp : UdpInfo}
    (hproto : f.proto = (0x08, 0x00)) (hip : parseIp (f.iphdr.bytes e) = some ip)
    (hudp : parseUdp (f.udphdr.bytes e) = some udp) (htotal : ip.totalLen = 28 + n)
    (hlen : udp.len = 8 + n) :
    parseFrame (f.bytes e n) =
      some ⟨f.dstMac.val, f.srcMac.val, ip, udp, f.message.load 0 n⟩ := by
  have hdst : (f.bytes e n).take 6 = f.dstMac.val := by
    simp only [Frame.bytes, List.append_assoc]
    exact List.take_left' f.dstMac.property
  have hsrc : ((f.bytes e n).drop 6).take 6 = f.srcMac.val := by
    simp only [Frame.bytes, List.append_assoc]
    rw [List.drop_left' f.dstMac.property, List.take_left' f.srcMac.property]
  have htype : ((f.bytes e n).drop 12).take 2 = [f.proto.1, f.proto.2] := by
    have hmacs : (f.dstMac.val ++ f.srcMac.val).length = 12 := by
      rw [List.length_append, f.dstMac.property, f.srcMac.property]
    unfold Frame.bytes
    rw [List.append_assoc (f.dstMac.val ++ f.srcMac.val), List.append_assoc, List.append_assoc,
      List.drop_left' hmacs]
    rfl
  have hall : (f.bytes e n).length = 14 + ip.totalLen := by
    rw [Frame.length_bytes, htotal]
    omega
  unfold parseFrame
  rw [ipHeader_bytes, udpHeader_bytes, udpPayload_bytes, hip, hudp, hdst, hsrc, htype, hproto]
  exact if_pos ⟨rfl, hall, by omega⟩

/-- Source: `netinet/ip.h`, `IP_MAXPACKET`. Kind: D -/
def ipMaxpacket : ℕ := 65535

section Build

variable (e : Endian) (etherFrame : Frame) (srcMac dstMac : Mac) (srcIp dstIp : UInt32)

/-- Source: `protocol.cc`, `buildFrame`. Kind: L -/
theorem parseIp_buildFrame (srcPort dstPort : ℤ) (message : Mem) {datalen : ℕ}
    (hlen : datalen ≤ 65507) (checksumLength : ℤ) :
    parseIp ((buildFrame e etherFrame srcMac dstMac srcIp dstIp srcPort dstPort message datalen
      checksumLength).1.iphdr.bytes e) =
      some ⟨28 + datalen, encode e 4 srcIp.toNat, encode e 4 dstIp.toNat⟩ := by
  have hsum := buildFrame_ip e etherFrame srcMac dstMac srcIp dstIp srcPort dstPort message
    datalen checksumLength
  generalize hh : (buildFrame e etherFrame srcMac dstMac srcIp dstIp srcPort dstPort message
    datalen checksumLength).1.iphdr = h at hsum ⊢
  have hlen : h.ipLen = htons e (UInt16.ofInt (28 + datalen)) := by rw [← hh]; rfl
  have hsrc : h.ipSrc = srcIp := by rw [← hh]; rfl
  have hdst : h.ipDst = dstIp := by rw [← hh]; rfl
  have htotal := @decode_htons e (28 + datalen) (by omega)
  rw [parseIp_bytes e (by rw [← hh]; rfl) (by rw [← hh]; rfl) (by rw [← hh]; rfl)
    (by rw [← hh]; rfl) hsum, hlen, hsrc, hdst]
  congr 2
  omega

/-- Source: `protocol.cc`, `buildFrame`. Kind: L -/
theorem parseUdp_buildFrame {srcPort dstPort : ℤ} (hsrc : 0 ≤ srcPort ∧ srcPort ≤ 65535)
    (hdst : 0 ≤ dstPort ∧ dstPort ≤ 65535) (message : Mem) {datalen : ℕ} (hlen : datalen ≤ 65507)
    (checksumLength : ℤ) :
    parseUdp ((buildFrame e etherFrame srcMac dstMac srcIp dstIp srcPort dstPort message datalen
      checksumLength).1.udphdr.bytes e) = some ⟨srcPort.toNat, dstPort.toNat, 8 + datalen⟩ := by
  generalize hu : (buildFrame e etherFrame srcMac dstMac srcIp dstIp srcPort dstPort message
    datalen checksumLength).1.udphdr = u
  have husrc : u.source = htons e (UInt16.ofInt srcPort) := by rw [← hu]; rfl
  have hudst : u.dest = htons e (UInt16.ofInt dstPort) := by rw [← hu]; rfl
  have hulen : u.len = htons e (UInt16.ofInt (8 + datalen)) := by rw [← hu]; rfl
  have hs := decode_htons e hsrc
  have hd := decode_htons e hdst
  have hl := @decode_htons e (8 + datalen) (by omega)
  rw [parseUdp_bytes, husrc, hudst, hulen]
  congr 2
  · omega
  · omega
  · omega

/-- **A frame is read back.** The bytes of a frame, as many as `buildFrame` says, are a datagram in
an IP packet in an Ethernet frame; the three lengths agree, and a receiver finds in it what the
frame was built from.
Source: `protocol.cc`, `buildFrame`
Kind: P -/
theorem parseFrame_buildFrame {srcPort dstPort : ℤ} (hsrc : 0 ≤ srcPort ∧ srcPort ≤ 65535)
    (hdst : 0 ≤ dstPort ∧ dstPort ≤ 65535) (message : Mem) {datalen : ℕ} (hlen : datalen ≤ 65507)
    (checksumLength : ℤ) {f : Frame} {frameLength : ℤ}
    (hbuilt : buildFrame e etherFrame srcMac dstMac srcIp dstIp srcPort dstPort message datalen
      checksumLength = (f, frameLength)) :
    ∃ d, parseFrame ((f.bytes e ipMaxpacket).take frameLength.toNat) = some d ∧
      frameLength = 14 + d.ip.totalLen ∧ (d.udp.len : ℤ) = d.ip.totalLen - 20 ∧
      d.dstMac = dstMac.val ∧ d.srcMac = srcMac.val ∧
      sAddr e d.ip.src = srcIp ∧ sAddr e d.ip.dst = dstIp ∧
      (d.udp.srcPort : ℤ) = srcPort ∧ (d.udp.dstPort : ℤ) = dstPort ∧
      d.message = message.load 0 datalen := by
  have hip := parseIp_buildFrame e etherFrame srcMac dstMac srcIp dstIp srcPort dstPort message
    hlen checksumLength
  have hudp := parseUdp_buildFrame e etherFrame srcMac dstMac srcIp dstIp hsrc hdst message hlen
    checksumLength
  have hmessage := buildFrame_message e etherFrame srcMac dstMac srcIp dstIp srcPort dstPort message
    checksumLength datalen
  have hmembers : f.dstMac = dstMac ∧ f.srcMac = srcMac ∧ f.proto = (0x08, 0x00) ∧
      frameLength = 42 + datalen := by
    obtain ⟨rfl, rfl⟩ := Prod.mk.inj hbuilt
    exact ⟨rfl, rfl, rfl, rfl⟩
  obtain ⟨hdstMac, hsrcMac, hproto, hlength⟩ := hmembers
  have htoNat : frameLength.toNat = 42 + datalen := by omega
  have hmax : datalen ≤ ipMaxpacket := by
    unfold ipMaxpacket
    omega
  rw [hbuilt] at hip hudp hmessage
  have hparse := parseFrame_bytes e f datalen hproto hip hudp rfl rfl
  rw [← f.take_bytes e hmax, ← htoNat] at hparse
  refine ⟨_, hparse, ?_, ?_, congrArg Subtype.val hdstMac, congrArg Subtype.val hsrcMac,
    sAddr_encode e srcIp, sAddr_encode e dstIp, ?_, ?_, hmessage⟩
  · dsimp only
    omega
  · dsimp only
    omega
  · exact Int.toNat_of_nonneg hsrc.1
  · exact Int.toNat_of_nonneg hdst.1

end Build

/-- The frame that the unit test builds. Source: `t_protocol.cc`, `testProtocol`. Kind: P -/
theorem parseFrame_hello :
    let mac : Mac := ⟨[0xaa, 0xbb, 0xcc, 0xdd, 0xee, 0xff], rfl⟩
    let stale : Frame :=
      ⟨mac, mac, (0, 0), ⟨0, 0, 0, 0, 0, 0, 0, 0, 0, 0, 0⟩, ⟨0, 0, 0, 0⟩, fun _ => 7⟩
    let message : Mem := fun i => (ascii "Hello, World!").getD i 0
    let built := buildFrame .little stale mac mac 12345 12345 12345 12345 message (14 : ℕ) 14
    ∃ d, parseFrame ((built.1.bytes .little ipMaxpacket).take built.2.toNat) = some d ∧
      built.2 = 14 + d.ip.totalLen ∧ (d.udp.len : ℤ) = d.ip.totalLen - 20 ∧
      d.dstMac = mac.val ∧ d.srcMac = mac.val ∧
      sAddr .little d.ip.src = 12345 ∧ sAddr .little d.ip.dst = 12345 ∧
      (d.udp.srcPort : ℤ) = 12345 ∧ (d.udp.dstPort : ℤ) = 12345 ∧
      d.message = message.load 0 14 :=
  parseFrame_buildFrame .little _ _ _ 12345 12345 (by decide) (by decide) _ (by decide) 14 rfl

end UDPing
