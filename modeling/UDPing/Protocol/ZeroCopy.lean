import UDPing.Protocol.Frame

/-!
# The zero-copy checksum

`udp4_checksum2` counts a left-over byte as the high half of a word, `checksum` as the low half. On a
little-endian host, where the first byte of a word is its low half:

* **`zeroCopy_iff`**: the two agree, and a frame whose whole message was summed verifies, exactly if
  there is no left-over byte or it is zero.
-/

namespace UDPing

open Lib

/-- The number of bytes is even, or the last one is zero. Source: none: specification. Kind: D -/
def NoLeftOver (payload : Bytes) : Prop :=
  payload.length % 2 = 0 ∨ payload.getLast? = some 0

instance (payload : Bytes) : Decidable (NoLeftOver payload) := inferInstanceAs (Decidable (_ ∨ _))

/-- Sums that agree but for where a left-over byte stands. Source: none: infrastructure. Kind: L -/
theorem canon_high_iff {b : UInt8} (n : ℕ) :
    canon (n + 256 * b.toNat) = canon (n + b.toNat) ↔ b = 0 := by
  have hb := b.toNat_lt
  constructor
  · intro hcanon
    have hmod := congrArg (· % 65535) hcanon
    simp only [canon_mod] at hmod
    apply UInt8.toNat_inj.mp
    change b.toNat = 0
    omega
  · rintro rfl
    rfl

/-- A payload with a left-over byte. Source: none: infrastructure. Kind: L -/
theorem exists_concat_of_odd {payload : Bytes} (hodd : payload.length % 2 = 1) :
    ∃ bs b, payload = bs ++ [b] ∧ bs.length % 2 = 0 := by
  rcases List.eq_nil_or_concat payload with rfl | ⟨bs, b, rfl⟩
  · simp at hodd
  · refine ⟨bs, b, by simp, ?_⟩
    simp at hodd
    omega

theorem noLeftOver_concat {bs : Bytes} (hbs : bs.length % 2 = 0) (b : UInt8) :
    NoLeftOver (bs ++ [b]) ↔ b = 0 := by
  have hodd : ¬(bs.length + 1) % 2 = 0 := by omega
  simp [NoLeftOver, hodd]

section Agreement

variable (h : IpHdr) (u : UdpHdr) {payload : Bytes}

/-- **The two checksums agree exactly if no byte is left over.**
Source: `protocol.cc`, `udp4_checksum2`, `checksum`
Kind: P -/
theorem udp4Checksum2_eq_checksum_iff (hlen : payload.length ≤ 65507) :
    udp4Checksum2 .little h u payload = checksum .little (uncheckedBytes h u payload) ↔
      NoLeftOver payload := by
  have hbytes := length_uncheckedBytes h u payload
  have hplain : (checksum .little (uncheckedBytes h u payload)).toNat =
      65535 - canon (headerSum h u + (wordsOf .little payload).sum) := by
    rw [checksum_eq (by omega) fun _ => rfl, sum_uncheckedBytes]
  have hcopy := toNat_udp4Checksum2 .little h u (show payload.length ≤ 65535 by omega)
  rw [← UInt16.toNat_inj, hplain, hcopy]
  rcases Nat.mod_two_eq_zero_or_one payload.length with heven | hodd
  · rw [sumWith_even _ _ heven]
    exact iff_of_true rfl (Or.inl heven)
  · obtain ⟨bs, b, rfl, hbs⟩ := exists_concat_of_odd hodd
    have hword : (wordsOf .little [b]).sum = b.toNat := by
      rw [wordsOf, List.sum_singleton, decode_little]
      rfl
    rw [sumWith_concat _ _ hbs, sum_wordsOf_append _ hbs, hword, noLeftOver_concat hbs,
      ← canon_high_iff (headerSum h u + (wordsOf .little bs).sum)]
    have hlt := canon_lt (headerSum h u + ((wordsOf .little bs).sum + 256 * b.toNat))
    have hlt' := canon_lt (headerSum h u + ((wordsOf .little bs).sum + b.toNat))
    rw [Nat.add_assoc, Nat.add_assoc]
    omega

variable {h u}

/-- **A datagram verifies whose whole payload was summed exactly if no byte is left over.**
Source: `protocol.cc`, `udp4_checksum2`
Kind: P -/
theorem verifies_iff (hproto : h.ipP ≠ 0) (hlen : payload.length ≤ 65507)
    (hcheck : u.check = udp4Checksum2 .little h u.cleared payload) :
    onesSum (wordsOf .big (pseudoHeader (h.bytes .little) (u.bytes .little) ++ u.bytes .little ++
      payload)) = 65535 ↔ NoLeftOver payload := by
  have hcopy := toNat_udp4Checksum2 .little h u.cleared (show payload.length ≤ 65535 by omega)
  have hsame : headerSum h u.cleared = headerSum h u := rfl
  have hne := headerSum_ne_zero hproto u
  rw [← hcheck, hsame] at hcopy
  rw [onesSum_eq_iff .little, sum_datagram, hcopy]
  rcases Nat.mod_two_eq_zero_or_one payload.length with heven | hodd
  · rw [sumWith_even _ _ heven]
    exact iff_of_true (add_complement (by omega)) (Or.inl heven)
  · obtain ⟨bs, b, rfl, hbs⟩ := exists_concat_of_odd hodd
    have hword : (wordsOf .little [b]).sum = b.toNat := by
      rw [wordsOf, List.sum_singleton, decode_little]
      rfl
    rw [sumWith_concat _ _ hbs, sum_wordsOf_append _ hbs, hword, noLeftOver_concat hbs,
      ← canon_high_iff (headerSum h u + (wordsOf .little bs).sum), ← Nat.add_assoc, ← Nat.add_assoc]
    have hpos : headerSum h u + (wordsOf .little bs).sum ≠ 0 := by omega
    generalize headerSum h u + (wordsOf .little bs).sum = n at hpos ⊢
    have hlt := canon_lt (n + 256 * b.toNat)
    have hmod := canon_mod (n + 256 * b.toNat)
    constructor
    · rintro ⟨-, hzero⟩
      apply canon_congr <;> omega
    · intro hcanon
      rw [hcanon]
      exact add_complement (by omega)

end Agreement

section Build

variable (h : IpHdr) (u : UdpHdr) (etherFrame : Frame) (srcMac dstMac : Mac) (srcIp dstIp : UInt32)
  (srcPort dstPort : ℤ)

/-- **The zero-copy checksum is the plain one exactly if no byte is left over**, on a little-endian
host, for all headers and payloads; and exactly then a frame built with `checksumLength` 0 verifies.
Source: `protocol.cc`, `udp4_checksum2`, `checksum`, `buildFrame`
Kind: P -/
theorem zeroCopy_iff {payload : Bytes} (hlen : payload.length ≤ 65507) {message : Mem}
    (hmessage : message.load 0 payload.length = payload) {f : Frame}
    (hf : f = (buildFrame .little etherFrame srcMac dstMac srcIp dstIp srcPort dstPort message
      payload.length 0).1) :
    (udp4Checksum2 .little h u payload = checksum .little (uncheckedBytes h u payload) ↔
      NoLeftOver payload) ∧
    (onesSum (wordsOf .big (pseudoHeader (f.iphdr.bytes .little) (f.udphdr.bytes .little) ++
      f.udphdr.bytes .little ++ f.message.load 0 payload.length)) = 65535 ↔
      NoLeftOver payload) := by
  refine ⟨udp4Checksum2_eq_checksum_iff h u hlen, ?_⟩
  have hproto : f.iphdr.ipP ≠ 0 := by
    rw [hf]
    exact show ipprotoUdp ≠ 0 by decide
  have hcheck : f.udphdr.check = udp4Checksum2 .little f.iphdr f.udphdr.cleared payload := by
    rw [hf]
    unfold buildFrame
    dsimp only
    rw [if_pos rfl, Int.toNat_natCast, hmessage]
    rfl
  have hload : f.message.load 0 payload.length = payload := by
    rw [hf, buildFrame_message, hmessage]
  rw [hload]
  exact verifies_iff hproto hlen hcheck

/-- The payload of the repository's test. Source: `t_protocol.cc`, `testProtocol`. Kind: C -/
theorem zeroCopy_iff_helloWorld :
    (udp4Checksum2 .little ⟨5, 4, 0, 0, 0, 0, 255, 17, 0, 12345, 12345⟩ ⟨0, 0, 0, 0⟩
        (ascii "Hello, World!" ++ [0]) =
      checksum .little (uncheckedBytes ⟨5, 4, 0, 0, 0, 0, 255, 17, 0, 12345, 12345⟩ ⟨0, 0, 0, 0⟩
        (ascii "Hello, World!" ++ [0]))) ∧
    ∃ f : Frame, f.udphdr.source = htons .little 12345 ∧
      f.message.load 0 14 = ascii "Hello, World!" ++ [0] ∧
      onesSum (wordsOf .big (pseudoHeader (f.iphdr.bytes .little) (f.udphdr.bytes .little) ++
        f.udphdr.bytes .little ++ f.message.load 0 14)) = 65535 := by
  have hiff := @zeroCopy_iff ⟨5, 4, 0, 0, 0, 0, 255, 17, 0, 12345, 12345⟩ ⟨0, 0, 0, 0⟩
    ⟨⟨[0, 0, 0, 0, 0, 0], rfl⟩, ⟨[0, 0, 0, 0, 0, 0], rfl⟩, (0, 0), ⟨0, 0, 0, 0, 0, 0, 0, 0, 0, 0, 0⟩,
      ⟨0, 0, 0, 0⟩, fun _ => 0⟩ ⟨[170, 187, 204, 221, 238, 255], rfl⟩
    ⟨[170, 187, 204, 221, 238, 255], rfl⟩ 12345 12345 12345 12345
    (ascii "Hello, World!" ++ [0]) (by decide) (fun i => (ascii "Hello, World!").getD i 0) (by decide)
    _ rfl
  have hnone : NoLeftOver (ascii "Hello, World!" ++ [0]) := by decide
  exact ⟨hiff.1.mpr hnone, _, rfl, by decide, hiff.2.mpr hnone⟩

/-- One byte. Source: none: specification. Kind: C -/
theorem zeroCopy_disagrees :
    udp4Checksum2 .little ⟨5, 4, 0, 0, 0, 0, 255, 17, 0, 0, 0⟩ ⟨0, 0, 0, 0⟩ [1] ≠
      checksum .little (uncheckedBytes ⟨5, 4, 0, 0, 0, 0, 255, 17, 0, 0, 0⟩ ⟨0, 0, 0, 0⟩ [1]) :=
  fun hsame => absurd ((udp4Checksum2_eq_checksum_iff _ _ (by decide)).mp hsame) (by decide)

end Build


end UDPing
