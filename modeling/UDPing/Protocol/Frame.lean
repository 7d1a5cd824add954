import UDPing.Protocol.Checksum

/-!
# Frames

* `Frame` and `buildFrame` (`protocol.cc`).
* `ipHeader`, `udpHeader`, `udpPayload`: where a receiver finds these in the bytes of a frame.
* **`buildFrame_ip`**: every IP header that is built verifies. **`buildFrame_udp`**: on a
  little-endian host so does every datagram whose bytes behind the first `checksumLength` are zero,
  for an even `checksumLength`.
-/

namespace UDPing

open Lib

/-- Source: `protocol.h`, `struct frame`. Kind: D
Fidelity: `message` is the memory from the member of this name on -/
structure Frame where
  dstMac : Mac
  srcMac : Mac
  proto : UInt8 × UInt8
  iphdr : IpHdr
  udphdr : UdpHdr
  message : Mem

/-- The first bytes of a frame, `datalen` of them its message: the structure is packed.
Source: `protocol.h`, `struct frame`
Kind: D -/
def Frame.bytes (e : Endian) (f : Frame) (datalen : ℕ) : Bytes :=
  f.dstMac.val ++ f.srcMac.val ++ [f.proto.1, f.proto.2] ++ f.iphdr.bytes e ++ f.udphdr.bytes e ++
    f.message.load 0 datalen

/-- Source: `protocol.cc`, `IP4_HDRLEN`. Kind: D -/
def ip4Hdrlen : ℕ := 20

/-- Source: `protocol.cc`, `UDP_HDRLEN`. Kind: D -/
def udpHdrlen : ℕ := 8

/-- Source: `linux/if_ether.h`, `ETH_P_IP`. Kind: D -/
def ethPIp : ℕ := 0x0800

/-- Source: `netinet/in.h`, `IPPROTO_UDP`. Kind: D -/
def ipprotoUdp : UInt8 := 17

/-- The frame, and its length.
Source: `protocol.cc`, `buildFrame`
Kind: D
Fidelity: a `datalen` beyond the message's array, which would overwrite what follows, does not -/
def buildFrame (e : Endian) (etherFrame : Frame) (srcMac dstMac : Mac) (srcIp dstIp : UInt32)
    (srcPort dstPort : ℤ) (message : Mem) (datalen checksumLength : ℤ) : Frame × ℤ :=
  let checksumLength := if checksumLength = 0 then datalen else checksumLength
  let frameLength := 6 + 6 + 2 + ip4Hdrlen + udpHdrlen + datalen
  let iphdr : IpHdr :=
    { ipHl := 5
      ipV := 4
      ipTos := 0
      ipLen := htons e (UInt16.ofInt (ip4Hdrlen + udpHdrlen + datalen))
      ipId := htons e 0
      ipOff := 0
      ipTtl := 255
      ipP := ipprotoUdp
      ipSum := 0
      ipSrc := srcIp
      ipDst := dstIp }
  let iphdr := { iphdr with ipSum := checksum e (iphdr.bytes e) }
  let udphdr : UdpHdr :=
    { source := htons e (UInt16.ofInt srcPort)
      dest := htons e (UInt16.ofInt dstPort)
      len := htons e (UInt16.ofInt (udpHdrlen + datalen))
      check := 0 }
  let udpcs2 := udp4Checksum2 e iphdr udphdr (message.load 0 checksumLength.toNat)
  let udphdr := { udphdr with check := udpcs2 }
  let etherFrame : Frame :=
    { dstMac := dstMac
      srcMac := srcMac
      proto := (UInt8.ofNat (ethPIp / 256), UInt8.ofNat (ethPIp % 256))
      iphdr := iphdr
      udphdr := udphdr
      message := etherFrame.message.store 0 (message.load 0 datalen.toNat) }
  (etherFrame, frameLength)

/-! ## The parts of a frame -/

/-- The IP header in a frame. Source: none: specification. Kind: D -/
def ipHeader (frame : Bytes) : Bytes := (frame.drop 14).take 20

/-- The UDP header in a frame. Source: none: specification. Kind: D -/
def udpHeader (frame : Bytes) : Bytes := (frame.drop 34).take 8

/-- The payload of the datagram in a frame. Source: none: specification. Kind: D -/
def udpPayload (frame : Bytes) : Bytes := frame.drop 42

section Parts

variable (e : Endian) (f : Frame) (n : ℕ)

theorem ipHeader_bytes : ipHeader (f.bytes e n) = f.iphdr.bytes e := by
  have hether : (f.dstMac.val ++ f.srcMac.val ++ [f.proto.1, f.proto.2]).length = 14 := by
    simp [f.dstMac.property, f.srcMac.property]
  unfold ipHeader Frame.bytes
  rw [List.append_assoc, List.append_assoc, List.drop_left' hether,
    List.take_left' (f.iphdr.length_bytes e)]

theorem udpHeader_bytes : udpHeader (f.bytes e n) = f.udphdr.bytes e := by
  have hip : (f.dstMac.val ++ f.srcMac.val ++ [f.proto.1, f.proto.2] ++
      f.iphdr.bytes e).length = 34 := by
    simp [f.dstMac.property, f.srcMac.property]
  unfold udpHeader Frame.bytes
  rw [List.append_assoc, List.drop_left' hip, List.take_left' (f.udphdr.length_bytes e)]

theorem udpPayload_bytes : udpPayload (f.bytes e n) = f.message.load 0 n := by
  have hudp : (f.dstMac.val ++ f.srcMac.val ++ [f.proto.1, f.proto.2] ++
      f.iphdr.bytes e ++ f.udphdr.bytes e).length = 42 := by
    simp [f.dstMac.property, f.srcMac.property]
  unfold udpPayload Frame.bytes
  rw [List.drop_left' hudp]

end Parts

/-- The header without its checksum. Source: none: infrastructure. Kind: D -/
def IpHdr.cleared (h : IpHdr) : IpHdr := { h with ipSum := 0 }

/-- An IP header of version 4 does not sum up to zero. Source: none: infrastructure. Kind: L -/
theorem IpHdr.sum_bytes_ne_zero (e : Endian) {h : IpHdr} (hv : h.ipV = 4) (hhl : h.ipHl = 5) :
    (wordsOf e (h.bytes e)).sum ≠ 0 := by
  have hbyte : (UInt8.ofNat (16 * (4 : Fin 16).val + (5 : Fin 16).val)).toNat = 69 := rfl
  have hfirst : (wordsOf e [UInt8.ofNat (16 * h.ipV.val + h.ipHl.val), h.ipTos]).sum ≠ 0 := by
    rw [hv, hhl, wordsOf, wordsOf, List.sum_singleton]
    cases e with
    | little =>
        rw [decode_little]
        omega
    | big =>
        rw [decode_big]
        omega
  rw [h.sum_bytes]
  omega

/-- The checksum's share in the sum of an IP header. Source: none: infrastructure. Kind: L -/
theorem IpHdr.sum_bytes_ipSum (e : Endian) (h : IpHdr) :
    (wordsOf e (h.bytes e)).sum =
      (wordsOf e (h.cleared.bytes e)).sum + h.ipSum.toNat := by
  have hsum := h.sum_bytes e
  have hsum0 := h.cleared.sum_bytes e
  have hzero : (0 : UInt16).toNat = 0 := rfl
  dsimp only [IpHdr.cleared] at hsum0 ⊢
  omega

/-- The sum that a receiver makes of a datagram. Source: none: specification. Kind: L -/
theorem sum_datagram (h : IpHdr) (u : UdpHdr) (payload : Bytes) :
    (wordsOf .little (pseudoHeader (h.bytes .little) (u.bytes .little) ++ u.bytes .little ++
      payload)).sum = headerSum h u + (wordsOf .little payload).sum + u.check.toNat := by
  have hpseudo : pseudoHeader (h.bytes .little) (u.cleared.bytes .little) =
      pseudoHeader (h.bytes .little) (u.bytes .little) := by
    rw [pseudoHeader_bytes, pseudoHeader_bytes]
    rfl
  have hudp := u.sum_bytes .little
  have hudp0 := u.cleared.sum_bytes .little
  have hzero : (0 : UInt16).toNat = 0 := rfl
  have hlen : (pseudoHeader (h.bytes .little) (u.bytes .little)).length % 2 = 0 := by
    rw [pseudoHeader_bytes]
    simp
  dsimp only [UdpHdr.cleared] at hudp0
  rw [headerSum_eq, hpseudo, sum_wordsOf_append _ (by simp; omega), sum_wordsOf_append _ hlen,
    sum_wordsOf_append _ hlen]
  dsimp only [UdpHdr.cleared]
  omega

theorem headerSum_ne_zero {h : IpHdr} (hproto : h.ipP ≠ 0) (u : UdpHdr) : headerSum h u ≠ 0 := by
  have hnat : h.ipP.toNat ≠ 0 := fun hzero => hproto (UInt8.toNat_inj.mp hzero)
  unfold headerSum
  omega

/-- **A datagram verifies** whose checksum is that of its headers and an even number of its first
bytes, the others being zero.
Source: `protocol.cc`, `udp4_checksum2`
Kind: P -/
theorem verifies_of_check {h : IpHdr} {u : UdpHdr} {summed padding : Bytes} (hproto : h.ipP ≠ 0)
    (hcheck : u.check = udp4Checksum2 .little h u.cleared summed)
    (heven : summed.length % 2 = 0) (hlen : summed.length ≤ 65535)
    (hzero : ∀ b ∈ padding, b = 0) :
    onesSum (wordsOf .big (pseudoHeader (h.bytes .little) (u.bytes .little) ++ u.bytes .little ++
      (summed ++ padding))) = 65535 := by
  have hchecksum := toNat_udp4Checksum2 .little h u.cleared hlen
  have hsame : headerSum h u.cleared = headerSum h u := rfl
  have hne := headerSum_ne_zero hproto u
  rw [← hcheck, hsame, sumWith_even _ _ heven] at hchecksum
  rw [onesSum_eq_iff .little, sum_datagram, sum_wordsOf_append _ heven, sum_wordsOf_zero _ hzero,
    hchecksum, Nat.add_zero]
  apply add_complement
  omega

/-! ## What is built verifies -/

section Build

variable (e : Endian) (etherFrame : Frame) (srcMac dstMac : Mac) (srcIp dstIp : UInt32)
  (srcPort dstPort : ℤ) (message : Mem) (datalen checksumLength : ℤ)

/-- **The IP header verifies**, for all arguments.
Source: `protocol.cc`, `buildFrame`, `checksum`
Kind: P -/
theorem buildFrame_ip :
    onesSum (wordsOf .big ((buildFrame e etherFrame srcMac dstMac srcIp dstIp srcPort dstPort message
      datalen checksumLength).1.iphdr.bytes e)) = 65535 := by
  generalize hh : (buildFrame e etherFrame srcMac dstMac srcIp dstIp srcPort dstPort message
    datalen checksumLength).1.iphdr = h
  have hsum : h.ipSum = checksum e (h.cleared.bytes e) := by
    rw [← hh]
    rfl
  have hne : (wordsOf e (h.cleared.bytes e)).sum ≠ 0 := by
    apply IpHdr.sum_bytes_ne_zero
    · rw [← hh]
      rfl
    · rw [← hh]
      rfl
  have hchecksum := @checksum_eq e (h.cleared.bytes e) (by simp) (by simp)
  rw [onesSum_eq_iff e, h.sum_bytes_ipSum, hsum, hchecksum]
  exact add_complement hne

/-- The message is copied. Source: `protocol.cc`, `buildFrame`. Kind: L -/
theorem buildFrame_message (n : ℕ) :
    (buildFrame e etherFrame srcMac dstMac srcIp dstIp srcPort dstPort message n
      checksumLength).1.message.load 0 n = message.load 0 n := by
  change (Mem.store _ 0 (message.load 0 (n : ℤ).toNat)).load 0 n = _
  rw [Int.toNat_natCast]
  have hself := Mem.load_store_self etherFrame.message 0 (message.load 0 n)
  rwa [Mem.length_load] at hself

/-- **The datagram verifies** on a little-endian host: an even number of its bytes were summed, and
the others are zero.
Source: `protocol.cc`, `buildFrame`, `udp4_checksum2`
Kind: P -/
theorem buildFrame_udp {n c : ℕ} (hc : 0 < c ∧ c ≤ n) (heven : c % 2 = 0) (hlen : c ≤ 65535)
    (hzero : ∀ i, c ≤ i → i < n → message i = 0) {f : Frame}
    (hf : f = (buildFrame .little etherFrame srcMac dstMac srcIp dstIp srcPort dstPort message n
      c).1) :
    onesSum (wordsOf .big (pseudoHeader (f.iphdr.bytes .little) (f.udphdr.bytes .little) ++
      f.udphdr.bytes .little ++ f.message.load 0 n)) = 65535 := by
  have hproto : f.iphdr.ipP ≠ 0 := by
    rw [hf]
    exact show ipprotoUdp ≠ 0 by decide
  have hcheck : f.udphdr.check =
      udp4Checksum2 .little f.iphdr f.udphdr.cleared (message.load 0 c) := by
    have hne : ¬(c : ℤ) = 0 := by omega
    rw [hf]
    unfold buildFrame
    dsimp only
    rw [if_neg hne, Int.toNat_natCast]
    rfl
  have hload : f.message.load 0 n = message.load 0 c ++ message.load c (n - c) := by
    have hcopy : f.message.load 0 n = message.load 0 n := by
      rw [hf]
      exact buildFrame_message _ _ _ _ _ _ _ _ _ c n
    have hn : n = c + (n - c) := by omega
    rw [hcopy]
    conv_lhs => rw [hn, Mem.load_add, Nat.zero_add]
  rw [hload]
  apply verifies_of_check hproto hcheck
  · rwa [Mem.length_load]
  · rwa [Mem.length_load]
  · intro b hb
    obtain ⟨i, hi, rfl⟩ := List.mem_map.mp hb
    have hlt := List.mem_range.mp hi
    exact hzero (c + i) (by omega) (by omega)

end Build

end UDPing
