import UDPing.Lib.OnesComplement
import UDPing.Protocol.Packet

/-!
# Internet headers and their checksums

* `IpHdr` and `UdpHdr` with the bytes a host keeps of them; `htons`.
* `fold`, `checksum` and `udp4Checksum2` (`protocol.cc`), for either byte order of the host.
* **`fold_eq`**: the folding loop ends, with the representative of the sum. **`checksum_eq`**,
  **`toNat_udp4Checksum2`**: so each checksum is the complement of a one's-complement sum, as long as
  the 32-bit accumulator does not overflow.
-/

namespace UDPing

open Lib

/-! ## Headers -/

/-- The number whose bytes in memory are those of `x` in network order. Source: `htons`. Kind: D -/
def htons (e : Endian) (x : UInt16) : UInt16 := UInt16.ofNat (decode e (encode .big 2 x.toNat))

/-- Source: `netinet/ip.h`, `struct ip`. Kind: D -/
structure IpHdr where
  ipHl : Fin 16
  ipV : Fin 16
  ipTos : UInt8
  ipLen : UInt16
  ipId : UInt16
  ipOff : UInt16
  ipTtl : UInt8
  ipP : UInt8
  ipSum : UInt16
  ipSrc : UInt32
  ipDst : UInt32
  deriving DecidableEq

/-- Source: `netinet/udp.h`, `struct udphdr`. Kind: D -/
structure UdpHdr where
  source : UInt16
  dest : UInt16
  len : UInt16
  check : UInt16
  deriving DecidableEq

/-- The bytes of an IP header. The version is in the high half of the first byte on every host.
Source: `netinet/ip.h`, `struct ip`
Kind: D -/
def IpHdr.bytes (e : Endian) (h : IpHdr) : Bytes :=
  [UInt8.ofNat (16 * h.ipV.val + h.ipHl.val), h.ipTos] ++ encode e 2 h.ipLen.toNat ++
    encode e 2 h.ipId.toNat ++ encode e 2 h.ipOff.toNat ++ [h.ipTtl, h.ipP] ++
    encode e 2 h.ipSum.toNat ++ encode e 4 h.ipSrc.toNat ++ encode e 4 h.ipDst.toNat

/-- The bytes of a UDP header. Source: `netinet/udp.h`, `struct udphdr`. Kind: D -/
def UdpHdr.bytes (e : Endian) (h : UdpHdr) : Bytes :=
  encode e 2 h.source.toNat ++ encode e 2 h.dest.toNat ++ encode e 2 h.len.toNat ++
    encode e 2 h.check.toNat

@[simp] theorem IpHdr.length_bytes (e : Endian) (h : IpHdr) : (h.bytes e).length = 20 := by
  simp [IpHdr.bytes]

@[simp] theorem UdpHdr.length_bytes (e : Endian) (h : UdpHdr) : (h.bytes e).length = 8 := by
  simp [UdpHdr.bytes]

/-- The sum of the words of an IP header. Source: `netinet/ip.h`, `struct ip`. Kind: L -/
theorem IpHdr.sum_bytes (e : Endian) (h : IpHdr) :
    (wordsOf e (h.bytes e)).sum =
      (wordsOf e [UInt8.ofNat (16 * h.ipV.val + h.ipHl.val), h.ipTos]).sum + h.ipLen.toNat +
        h.ipId.toNat + h.ipOff.toNat + (wordsOf e [h.ipTtl, h.ipP]).sum + h.ipSum.toNat +
        (h.ipSrc.toNat % 65536 + h.ipSrc.toNat / 65536) +
        (h.ipDst.toNat % 65536 + h.ipDst.toNat / 65536) := by
  unfold IpHdr.bytes
  rw [sum_wordsOf_append e (by simp), sum_wordsOf_append e (by simp),
    sum_wordsOf_append e (by simp), sum_wordsOf_append e (by simp),
    sum_wordsOf_append e (by simp), sum_wordsOf_append e (by simp),
    sum_wordsOf_append e (by simp), sum_wordsOf_encode2 e h.ipLen.toNat_lt,
    sum_wordsOf_encode2 e h.ipId.toNat_lt, sum_wordsOf_encode2 e h.ipOff.toNat_lt,
    sum_wordsOf_encode2 e h.ipSum.toNat_lt, sum_wordsOf_encode4 e h.ipSrc.toNat_lt,
    sum_wordsOf_encode4 e h.ipDst.toNat_lt]

/-- The sum of the words of a UDP header. Source: `netinet/udp.h`, `struct udphdr`. Kind: L -/
theorem UdpHdr.sum_bytes (e : Endian) (h : UdpHdr) :
    (wordsOf e (h.bytes e)).sum =
      h.source.toNat + h.dest.toNat + h.len.toNat + h.check.toNat := by
  unfold UdpHdr.bytes
  rw [sum_wordsOf_append e (by simp), sum_wordsOf_append e (by simp),
    sum_wordsOf_append e (by simp), sum_wordsOf_encode2 e h.source.toNat_lt,
    sum_wordsOf_encode2 e h.dest.toNat_lt, sum_wordsOf_encode2 e h.len.toNat_lt,
    sum_wordsOf_encode2 e h.check.toNat_lt]

/-! ## Checksums -/

/-- The low half of a 32-bit number. Source: none: infrastructure. Kind: L -/
theorem toNat_low (x : UInt32) : (x &&& (0xffff : UInt32)).toNat = x.toNat % 65536 := by
  rw [UInt32.toNat_and]
  exact Nat.and_two_pow_sub_one_eq_mod x.toNat 16

/-- The high half of a 32-bit number. Source: none: infrastructure. Kind: L -/
theorem toNat_high (x : UInt32) : (x >>> 16).toNat = x.toNat / 65536 := by
  rw [UInt32.toNat_shiftRight]
  exact Nat.shiftRight_eq_div_pow x.toNat 16

/-- A round of the folding loop adds the halves. Source: `protocol.cc`, `checksum`. Kind: L -/
theorem toNat_fold_step (sum : UInt32) (h : sum >>> 16 ≠ 0) :
    ((sum &&& (0xffff : UInt32)) + (sum >>> 16)).toNat = sum.toNat % 65536 + sum.toNat / 65536 ∧
      65536 ≤ sum.toNat := by
  have hlt := sum.toNat_lt
  have hhi := toNat_high sum
  have hne : sum.toNat / 65536 ≠ 0 := by
    rw [← hhi]
    exact fun hzero => h (UInt32.toNat_inj.mp hzero)
  rw [UInt32.toNat_add, toNat_low, hhi]
  omega

/-- The folding loop: `while (sum >> 16) sum = (sum & 0xffff) + (sum >> 16)`.
Source: `protocol.cc`, `checksum`, `udp4_checksum2`
Kind: D -/
def fold (sum : UInt32) : UInt32 :=
  if sum >>> 16 ≠ 0 then fold ((sum &&& (0xffff : UInt32)) + (sum >>> 16)) else sum
termination_by sum.toNat
decreasing_by
  rename_i h
  obtain ⟨hstep, hge⟩ := toNat_fold_step sum h
  omega

/-- The summing loop: a pointer to 16-bit numbers runs over the bytes, `last` is what a left-over
byte adds.
Source: `protocol.cc`, `checksum`, `udp4_checksum2`
Kind: D -/
def addWords (e : Endian) (last : UInt8 → UInt32) (sum : UInt32) : Bytes → UInt32
  | [] => sum
  | [b] => sum + last b
  | b :: c :: bs => addWords e last (sum + UInt32.ofNat (decode e [b, c])) bs

/-- Source: `protocol.cc`, `checksum`. Kind: D
Fidelity: `bs` are the `len` bytes from `addr` on -/
def checksum (e : Endian) (bs : Bytes) : UInt16 :=
  (~~~fold (addWords e UInt8.toUInt32 0 bs)).toUInt16

/-- Source: `protocol.cc`, `udp4_checksum2`. Kind: D
Fidelity: `payload` are the `payloadlen` bytes from `payload` on -/
def udp4Checksum2 (e : Endian) (iphdr : IpHdr) (udphdr : UdpHdr) (payload : Bytes) : UInt16 :=
  let sum : UInt32 := 0
  let sum := sum + (iphdr.ipSrc &&& 0xffff)
  let sum := sum + (iphdr.ipSrc >>> 16)
  let sum := sum + (iphdr.ipDst &&& 0xffff)
  let sum := sum + (iphdr.ipDst >>> 16)
  let tmp := iphdr.ipP.toUInt16
  let tmp := tmp <<< 8
  let sum := sum + tmp.toUInt32
  let sum := sum + udphdr.len.toUInt32
  let sum := sum + udphdr.source.toUInt32
  let sum := sum + udphdr.dest.toUInt32
  let sum := sum + udphdr.len.toUInt32
  let sum := addWords e (fun b => (b.toUInt16 <<< 8).toUInt32) sum payload
  (~~~fold sum).toUInt16

/-! ## What the loops compute -/

/-- **The folding loop yields the representative of the sum.**
Source: `protocol.cc`, `checksum`, `udp4_checksum2`
Kind: P -/
theorem fold_eq (sum : UInt32) : (fold sum).toNat = canon sum.toNat := by
  fun_induction fold sum with
  | case1 sum h ih =>
      obtain ⟨hstep, hge⟩ := toNat_fold_step sum h
      rw [ih, hstep]
      apply canon_congr
      · omega
      · omega
  | case2 sum h =>
      have hzero : (sum >>> 16).toNat = 0 := congrArg UInt32.toNat (not_not.mp h)
      rw [toNat_high] at hzero
      exact (canon_of_lt (by omega)).symm

/-- The word that ends a checksum: what is missing to all ones.
Source: `protocol.cc`, `checksum`, `udp4_checksum2`
Kind: L -/
theorem toNat_complement_fold (sum : UInt32) :
    (~~~fold sum).toUInt16.toNat = 65535 - canon sum.toNat := by
  have hlt := canon_lt sum.toNat
  have hfold := fold_eq sum
  have hnot : (~~~fold sum).toNat = 4294967295 - (fold sum).toNat :=
    UInt32.toNat_not _
  rw [UInt32.toNat_toUInt16, hnot, hfold]
  omega

/-- The sum of the words, `last` being what a left-over byte adds.
Source: none: infrastructure
Kind: D -/
def sumWith (e : Endian) (last : UInt8 → ℕ) : Bytes → ℕ
  | [] => 0
  | [b] => last b
  | b :: c :: bs => decode e [b, c] + sumWith e last bs

/-- A left-over byte that counts as a word with a zero byte.
Source: none: infrastructure
Kind: L -/
theorem sumWith_decode (e : Endian) (bs : Bytes) :
    sumWith e (fun b => decode e [b, 0]) bs = (wordsOf e bs).sum := by
  fun_induction wordsOf e bs with
  | case1 => rfl
  | case2 b => exact List.sum_singleton.symm
  | case3 b c bs ih => rw [sumWith, ih, List.sum_cons]

theorem sumWith_even (e : Endian) (last : UInt8 → ℕ) {bs : Bytes} (hbs : bs.length % 2 = 0) :
    sumWith e last bs = (wordsOf e bs).sum := by
  fun_induction wordsOf e bs with
  | case1 => rfl
  | case2 b => simp at hbs
  | case3 b c bs ih =>
      rw [List.length_cons, List.length_cons] at hbs
      rw [sumWith, ih (by omega), List.sum_cons]

/-- An odd number of bytes. Source: none: infrastructure. Kind: L -/
theorem sumWith_concat (e : Endian) (last : UInt8 → ℕ) {bs : Bytes} (hbs : bs.length % 2 = 0)
    (b : UInt8) : sumWith e last (bs ++ [b]) = (wordsOf e bs).sum + last b := by
  fun_induction wordsOf e bs with
  | case1 => exact (Nat.zero_add _).symm
  | case2 c => simp at hbs
  | case3 c d bs ih =>
      rw [List.length_cons, List.length_cons] at hbs
      rw [List.cons_append, List.cons_append, sumWith, ih (by omega), List.sum_cons, Nat.add_assoc]

theorem sumWith_le (e : Endian) {last : UInt8 → ℕ} (hlast : ∀ b, last b ≤ 65535) (bs : Bytes) :
    sumWith e last bs ≤ 65535 * ((bs.length + 1) / 2) := by
  fun_induction sumWith e last bs with
  | case1 => exact Nat.zero_le _
  | case2 b =>
      have hb := hlast b
      rw [List.length_singleton]
      omega
  | case3 b c bs ih =>
      have hlt := decode_lt e b c
      rw [List.length_cons, List.length_cons]
      omega

/-- **The summing loop adds the words**, where the accumulator does not overflow.
Source: `protocol.cc`, `checksum`, `udp4_checksum2`
Kind: L -/
theorem toNat_addWords (e : Endian) {last : UInt8 → UInt32} {sum : UInt32} {bs : Bytes}
    (hlt : sum.toNat + sumWith e (fun b => (last b).toNat) bs < 2 ^ 32) :
    (addWords e last sum bs).toNat = sum.toNat + sumWith e (fun b => (last b).toNat) bs := by
  fun_induction addWords e last sum bs with
  | case1 sum => rfl
  | case2 sum b =>
      rw [sumWith] at hlt ⊢
      rw [UInt32.toNat_add]
      omega
  | case3 sum b c bs ih =>
      have hword := decode_lt e b c
      have hnat : (UInt32.ofNat (decode e [b, c])).toNat = decode e [b, c] := by
        rw [UInt32.toNat_ofNat']
        omega
      rw [sumWith] at hlt ⊢
      have hsum : (sum + UInt32.ofNat (decode e [b, c])).toNat = sum.toNat + decode e [b, c] := by
        rw [UInt32.toNat_add, hnat]
        omega
      rw [ih (by omega), hsum]
      omega

/-- What `checksum` adds: a left-over byte counts as a word on a little-endian host.
Source: `protocol.cc`, `checksum`
Kind: L -/
theorem sumWith_byte {e : Endian} {bs : Bytes} (he : bs.length % 2 = 1 → e = .little) :
    sumWith e (fun b => b.toUInt32.toNat) bs = (wordsOf e bs).sum := by
  rcases Nat.mod_two_eq_zero_or_one bs.length with heven | hodd
  · exact sumWith_even e _ heven
  · have hlast : (fun b : UInt8 => b.toUInt32.toNat) = fun b => decode .little [b, 0] := by
      funext b
      exact (decode_little b 0).symm
    rw [← sumWith_decode, he hodd, hlast]

/-- The accumulator of `checksum` after the summing loop, where it does not overflow.
Source: `protocol.cc`, `checksum`
Kind: L -/
theorem toNat_addWords_byte {e : Endian} {bs : Bytes} (hbs : (wordsOf e bs).sum < 2 ^ 32)
    (he : bs.length % 2 = 1 → e = .little) :
    (addWords e UInt8.toUInt32 0 bs).toNat = (wordsOf e bs).sum := by
  have hzero : (0 : UInt32).toNat = 0 := rfl
  have hsum := sumWith_byte he
  rw [toNat_addWords e (by rw [hzero, hsum]; omega), hzero, hsum, Nat.zero_add]

/-- **What `checksum` returns**: the complement of the one's-complement sum. A left-over byte counts
as a word on a little-endian host.
Source: `protocol.cc`, `checksum`
Kind: P -/
theorem checksum_eq {e : Endian} {bs : Bytes} (hbs : bs.length ≤ 65535)
    (he : bs.length % 2 = 1 → e = .little) :
    (checksum e bs).toNat = 65535 - canon (wordsOf e bs).sum := by
  have hle := sum_wordsOf_le e bs
  unfold checksum
  rw [toNat_complement_fold, toNat_addWords_byte (by omega) he]

/-- The pseudo-header that a receiver makes up of the two headers: addresses, a zero byte, the
protocol, and the length in the UDP header.
Source: none: specification
Kind: D -/
def pseudoHeader (ip udp : Bytes) : Bytes :=
  ip.drop 12 ++ (0 :: (ip.drop 9).take 1) ++ (udp.drop 4).take 2

/-- The pseudo-header of two headers. Source: none: specification. Kind: L -/
theorem pseudoHeader_bytes (e : Endian) (h : IpHdr) (u : UdpHdr) :
    pseudoHeader (h.bytes e) (u.bytes e) =
      encode e 4 h.ipSrc.toNat ++ encode e 4 h.ipDst.toNat ++ [0, h.ipP] ++
        encode e 2 u.len.toNat := by
  cases e <;> rfl

theorem toNat_add_eq {a b : UInt32} {m n : ℕ} (ha : a.toNat = m) (hb : b.toNat = n)
    (hlt : m + n < 2 ^ 32) : (a + b).toNat = m + n := by
  rw [UInt32.toNat_add, ha, hb]
  exact Nat.mod_eq_of_lt hlt

/-- The nine words that `udp4_checksum2` adds of the headers.
Source: `protocol.cc`, `udp4_checksum2`
Kind: D -/
def headerSum (iphdr : IpHdr) (udphdr : UdpHdr) : ℕ :=
  iphdr.ipSrc.toNat % 65536 + iphdr.ipSrc.toNat / 65536 + iphdr.ipDst.toNat % 65536 +
    iphdr.ipDst.toNat / 65536 + 256 * iphdr.ipP.toNat + udphdr.len.toNat +
    udphdr.source.toNat + udphdr.dest.toNat + udphdr.len.toNat

theorem headerSum_lt (iphdr : IpHdr) (udphdr : UdpHdr) : headerSum iphdr udphdr < 9 * 65536 := by
  have hsrc := iphdr.ipSrc.toNat_lt
  have hdst := iphdr.ipDst.toNat_lt
  have hproto := iphdr.ipP.toNat_lt
  have hsource := udphdr.source.toNat_lt
  have hdest := udphdr.dest.toNat_lt
  have hlen := udphdr.len.toNat_lt
  unfold headerSum
  omega

/-- A byte in the high half of a word. Source: `protocol.cc`, `udp4_checksum2`. Kind: L -/
theorem toNat_high_byte (b : UInt8) : (b.toUInt16 <<< 8).toNat = 256 * b.toNat := by
  have hb := b.toNat_lt
  have hshift : (b.toUInt16 <<< 8).toNat = b.toUInt16.toNat <<< 8 % 2 ^ 16 :=
    UInt16.toNat_shiftLeft _ _
  rw [hshift, Nat.shiftLeft_eq, UInt8.toNat_toUInt16]
  omega

/-- The sum of nine words that `udp4_checksum2` begins with does not overflow.
Source: `protocol.cc`, `udp4_checksum2`
Kind: L -/
theorem toNat_headerSum (iphdr : IpHdr) (udphdr : UdpHdr) :
    ((0 : UInt32) + (iphdr.ipSrc &&& (0xffff : UInt32)) + (iphdr.ipSrc >>> 16) +
      (iphdr.ipDst &&& (0xffff : UInt32)) + (iphdr.ipDst >>> 16) +
      (iphdr.ipP.toUInt16 <<< 8).toUInt32 + udphdr.len.toUInt32 + udphdr.source.toUInt32 +
      udphdr.dest.toUInt32 + udphdr.len.toUInt32).toNat = headerSum iphdr udphdr := by
  have hsrc := iphdr.ipSrc.toNat_lt
  have hdst := iphdr.ipDst.toNat_lt
  have hproto := iphdr.ipP.toNat_lt
  have hsource := udphdr.source.toNat_lt
  have hdest := udphdr.dest.toNat_lt
  have hlen := udphdr.len.toNat_lt
  have htmp := toNat_high_byte iphdr.ipP
  have h32 : ∀ x : UInt16, x.toUInt32.toNat = x.toNat := UInt16.toNat_toUInt32
  have hzero : (0 : UInt32).toNat = 0 := rfl
  have haddr := toNat_add_eq (toNat_add_eq (toNat_add_eq (toNat_add_eq hzero
    (toNat_low iphdr.ipSrc) (by omega)) (toNat_high iphdr.ipSrc) (by omega))
    (toNat_low iphdr.ipDst) (by omega)) (toNat_high iphdr.ipDst) (by omega)
  have hports := toNat_add_eq (toNat_add_eq (toNat_add_eq (toNat_add_eq haddr
    ((h32 _).trans htmp) (by omega)) (h32 udphdr.len) (by omega)) (h32 udphdr.source) (by omega))
    (h32 udphdr.dest) (by omega)
  have hall := toNat_add_eq hports (h32 udphdr.len) (by omega)
  rw [hall, headerSum]
  omega

/-- **What `udp4_checksum2` returns**: what is missing to all ones in the sum of the words of the
headers and of the payload, a left-over byte being the high half of a word.
Source: `protocol.cc`, `udp4_checksum2`
Kind: P -/
theorem toNat_udp4Checksum2 (e : Endian) (iphdr : IpHdr) (udphdr : UdpHdr) {payload : Bytes}
    (hlen : payload.length ≤ 65535) :
    (udp4Checksum2 e iphdr udphdr payload).toNat =
      65535 - canon (headerSum iphdr udphdr + sumWith e (fun b => 256 * b.toNat) payload) := by
  have hbyte : (fun b : UInt8 => (b.toUInt16 <<< 8).toUInt32.toNat) = fun b => 256 * b.toNat := by
    funext b
    rw [UInt16.toNat_toUInt32, toNat_high_byte]
  have hlast : ∀ b : UInt8, 256 * b.toNat ≤ 65535 := by
    intro b
    have hb := b.toNat_lt
    omega
  have hle := sumWith_le e hlast payload
  have hheader := headerSum_lt iphdr udphdr
  have hsum := toNat_headerSum iphdr udphdr
  unfold udp4Checksum2
  dsimp only
  rw [toNat_complement_fold, toNat_addWords e (by rw [hbyte, hsum]; omega), hbyte, hsum]

/-- The header without its checksum. Source: none: infrastructure. Kind: D -/
def UdpHdr.cleared (u : UdpHdr) : UdpHdr := { u with check := 0 }

/-- A checksum's two bytes are zero if it is. Source: none: infrastructure. Kind: L -/
theorem UdpHdr.check_bytes (e : Endian) (u : UdpHdr) :
    (u.bytes e).drop 6 = [0, 0] ↔ u.check.toNat = 0 := by
  have hdrop : (u.bytes e).drop 6 = encode e 2 u.check.toNat := by cases e <;> rfl
  rw [hdrop]
  constructor
  · intro hbytes
    have hdecode := decode_encode e (w := 2) u.check.toNat_lt
    rw [hbytes] at hdecode
    rw [← hdecode]
    cases e <;> rfl
  · intro hzero
    rw [hzero]
    cases e <;> rfl

/-- On a little-endian host the nine words are those of the pseudo-header and of the UDP header
without a checksum.
Source: `protocol.cc`, `udp4_checksum2`
Kind: L -/
theorem headerSum_eq (iphdr : IpHdr) (udphdr : UdpHdr) :
    headerSum iphdr udphdr = (wordsOf .little (pseudoHeader (iphdr.bytes .little)
      (udphdr.cleared.bytes .little) ++ udphdr.cleared.bytes .little)).sum := by
  have hword : (wordsOf .little [0, iphdr.ipP]).sum = 256 * iphdr.ipP.toNat := by
    rw [wordsOf, wordsOf, List.sum_singleton, decode_little]
    exact Nat.zero_add _
  have hzero : (0 : UInt16).toNat = 0 := rfl
  rw [sum_wordsOf_append _ (by simp [pseudoHeader_bytes]), pseudoHeader_bytes,
    sum_wordsOf_append _ (by simp), sum_wordsOf_append _ (by simp), sum_wordsOf_append _ (by simp),
    sum_wordsOf_encode4 _ iphdr.ipSrc.toNat_lt, sum_wordsOf_encode4 _ iphdr.ipDst.toNat_lt,
    sum_wordsOf_encode2 _ udphdr.cleared.len.toNat_lt, hword, UdpHdr.sum_bytes, headerSum]
  dsimp only [UdpHdr.cleared]
  omega

/-- The bytes that a receiver sums up, up to the checksum: pseudo-header, UDP header and payload.
Source: none: specification
Kind: D -/
def uncheckedBytes (iphdr : IpHdr) (udphdr : UdpHdr) (payload : Bytes) : Bytes :=
  pseudoHeader (iphdr.bytes .little) (udphdr.cleared.bytes .little) ++
    udphdr.cleared.bytes .little ++ payload

theorem length_uncheckedBytes (iphdr : IpHdr) (udphdr : UdpHdr) (payload : Bytes) :
    (uncheckedBytes iphdr udphdr payload).length = 20 + payload.length := by
  unfold uncheckedBytes
  rw [pseudoHeader_bytes]
  simp
  omega

theorem sum_uncheckedBytes (iphdr : IpHdr) (udphdr : UdpHdr) (payload : Bytes) :
    (wordsOf .little (uncheckedBytes iphdr udphdr payload)).sum =
      headerSum iphdr udphdr + (wordsOf .little payload).sum := by
  unfold uncheckedBytes
  rw [sum_wordsOf_append _ (by simp [pseudoHeader_bytes]), headerSum_eq]

end UDPing
