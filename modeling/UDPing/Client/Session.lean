import UDPing.Client.Guid
import UDPing.Lib.EventMachine
import UDPing.Protocol.Layout

/-!
# Client sessions

* `ClientSession` with its constructor, `rollover`, `reset`, `increment`, `sendPingPacket` and
  `sendPacket` (`clientsession.cc`), over the bytes of its `paddedPacket`.
* `Message`: the arguments of the call of `sendMessage`.
* `sendPingPacket_size`, `sendPingPacket_fields`: the size of a datagram and the fields it sets.
* `Sender`: what a session is for: a GUID, a start time and a sequence number. `Holds` says that the
  packet's bytes are those of a sender's header followed by zeros.
* **`holds_run`**: every run of a session is a run of a sender. Its packet is the sender's header,
  whose GUID is terminated, and all bytes behind the header are zero at all times.
-/

namespace UDPing.Client

open Lib

/-! ## What a session reads of its surroundings -/

/-- Source: `maclist.h`, `MacList`. Kind: D
Fidelity: `numMacs` is the length of `macs` -/
structure MacList where
  macs : List Mac
  curMac : ℕ

/-- The next MAC address, null for an empty list. Source: `maclist.cc`, `MacList::nextMac`.
Kind: D -/
def MacList.nextMac (l : MacList) : Option Mac × MacList :=
  if l.macs.length = 0 then (none, l)
  else
    let curMac := l.curMac + 1
    let curMac := if l.macs.length ≤ curMac then 0 else curMac
    (l.macs[curMac]?, { l with curMac })

/-- What a session reads through `parent`.
Source: `clientsession.h`, `ClientSessionList`
Kind: D
Fidelity: the socket and the interface are not modelled -/
structure Parent where
  maxPacketSize : ℤ
  interval : ℤ
  srcMac : Mac
  srcAddr : UInt32
  dstAddr : UInt32
  dstPort : ℤ

/-- A client with the option `-m 1500` on 64-bit Linux. Source: `client.cc`, `main`. Kind: D -/
def exampleParent : Parent where
  maxPacketSize := 1500
  interval := 60
  srcMac := ⟨[2, 0, 0, 0, 0, 1], rfl⟩
  srcAddr := 16777343
  dstAddr := 33554559
  dstPort := 5000

/-- The arguments of `sendMessage`. Source: `protocol.cc`, `sendMessage`. Kind: D -/
structure Message where
  srcMacHex : Mac
  srcIp : UInt32
  srcPort : ℤ
  dstMacHex : Option Mac
  dstIp : UInt32
  dstPort : ℤ
  message : Mem
  datalen : ℤ
  checksumLength : ℤ

/-- The payload of the datagram: `datalen` bytes of the message.
Source: `protocol.cc`, `buildFrame`
Kind: D -/
def Message.payload (msg : Message) : Bytes := msg.message.load 0 msg.datalen.toNat

/-! ## Sessions -/

/-- Source: `clientsession.h`, `ClientSession`. Kind: D
Fidelity: `p` is the memory from the session's `paddedPacket` on -/
structure ClientSession where
  p : Mem
  port : ℤ
  lastRollover : Time
  dstMacList : MacList

namespace ClientSession

variable (A : Abi)

/-- Source: `clientsession.cc`, `ClientSession::reset`. Kind: D -/
def reset (s : ClientSession) (rand : ℕ → ℕ) : ClientSession :=
  { s with p := s.p.store A.guid (generateGuid rand 0 maxGuid) }

/-- The session that the constructor makes of the memory `fresh`.
Source: `clientsession.cc`, `ClientSession::ClientSession`
Kind: D -/
def create (port : ℤ) (dstMacs : MacList) (fresh : Mem) (now : Time) (rand : ℕ → ℕ) :
    ClientSession :=
  let p := fresh.store 0 (List.replicate A.sizeofPaddedPacket 0)
  let p := p.store A.protoVersion [protoVersion]
  let p := A.write32 p A.clientStartTime (UInt32.ofInt now)
  let p := A.write32 p A.seqNum 0
  reset A { p, port, lastRollover := 0, dstMacList := dstMacs } rand

/-- Source: `clientsession.cc`, `ClientSession::rollover`. Kind: D -/
def rollover (s : ClientSession) (parent : Parent) (now : Time) : Bool × ClientSession :=
  let curTime := now - now.tmod parent.interval
  let s := if s.lastRollover = 0 then { s with lastRollover := curTime } else s
  if curTime = s.lastRollover then (false, s)
  else (true, { s with lastRollover := curTime })

/-- Source: `clientsession.cc`, `ClientSession::increment`. Kind: D -/
def increment (s : ClientSession) : ClientSession :=
  { s with p := A.write32 s.p A.seqNum (A.read32 s.p A.seqNum + 1) }

/-- Source: `clientsession.cc`, `ClientSession::sendPacket`. Kind: D
Fidelity: the comparison is one of `size_t` -/
def sendPacket (s : ClientSession) (parent : Parent) (size : ℤ) : Message × ClientSession :=
  let size : ℤ := if (size % 2 ^ 64).toNat < A.sizeofPacket then A.sizeofPacket else size
  let s := { s with p := A.write32 s.p A.size (UInt32.ofInt size) }
  let (dstMac, dstMacList) := s.dstMacList.nextMac
  let s := { s with dstMacList }
  ({ srcMacHex := parent.srcMac
     srcIp := parent.srcAddr
     srcPort := s.port
     dstMacHex := dstMac
     dstIp := parent.dstAddr
     dstPort := parent.dstPort
     message := s.p
     datalen := size
     checksumLength := A.sizeofPacket }, s)

/-- Source: `clientsession.cc`, `ClientSession::sendPingPacket`. Kind: D -/
def sendPingPacket (s : ClientSession) (parent : Parent) (ts : Timespec) (rand : ℕ) :
    Message × ClientSession :=
  let s := { s with p := A.write32 s.p A.sentSec (UInt32.ofInt ts.tvSec) }
  let s := { s with p := A.write64 s.p A.sentNsec (UInt64.ofInt ts.tvNsec) }
  s.sendPacket A parent ((rand : ℤ).tmod parent.maxPacketSize)

/-! ## Runs -/

/-- A call of a public method, with what the clock and `rand()` yield during it.
Source: `clientsession.h`, `ClientSession`
Kind: D -/
inductive Call where
  | rollover (now : Time)
  | reset (rand : ℕ → ℕ)
  | increment
  | sendPingPacket (ts : Timespec) (rand : ℕ)

/-- The session after a call. Source: `clientsession.cc`, `ClientSession`. Kind: D -/
def step (parent : Parent) (s : ClientSession) : Call → ClientSession
  | .rollover now => (s.rollover parent now).2
  | .reset rand => s.reset A rand
  | .increment => s.increment A
  | .sendPingPacket ts rand => (s.sendPingPacket A parent ts rand).2

/-- A session, from its constructor on. Source: `clientsession.cc`, `ClientSession`. Kind: D -/
def machine (parent : Parent) (port : ℤ) (dstMacs : MacList) (fresh : Mem) (now : Time)
    (rand : ℕ → ℕ) : EventMachine ClientSession Call where
  init := create A port dstMacs fresh now rand
  step := step A parent

end ClientSession

/-! ## What is sent -/

/-- **The size of a datagram** lies between that of the header and the maximum chosen.
Source: `clientsession.cc`, `sendPingPacket`, `sendPacket`
Kind: L -/
theorem sendPingPacket_size (A : Abi) (s : ClientSession) {parent : Parent}
    (hsize : 1 ≤ parent.maxPacketSize ∧ parent.maxPacketSize ≤ maxBuf) (ts : Timespec)
    (rand : ℕ) :
    A.sizeofPacket ≤ (s.sendPingPacket A parent ts rand).1.datalen ∧
      (s.sendPingPacket A parent ts rand).1.datalen ≤
        max (A.sizeofPacket : ℤ) (parent.maxPacketSize - 1) := by
  have htmod : (rand : ℤ).tmod parent.maxPacketSize = (rand : ℤ) % parent.maxPacketSize :=
    Int.tmod_eq_emod_of_nonneg (Int.natCast_nonneg rand)
  have hlo : 0 ≤ (rand : ℤ) % parent.maxPacketSize := Int.emod_nonneg _ (by omega)
  have hhi : (rand : ℤ) % parent.maxPacketSize < parent.maxPacketSize :=
    Int.emod_lt_of_pos _ (by omega)
  unfold ClientSession.sendPingPacket ClientSession.sendPacket
  dsimp only
  rw [htmod]
  generalize (rand : ℤ) % parent.maxPacketSize = size at hlo hhi
  have hbuf : (maxBuf : ℤ) = 2000 := rfl
  split_ifs with hsmall
  · omega
  · have hmod : size % 2 ^ 64 = size := Int.emod_eq_of_lt hlo (by omega)
    rw [hmod] at hsmall
    omega

/-- The message of a call and the session's packet after it are the same memory.
Source: `clientsession.cc`, `sendPacket`
Kind: L -/
theorem sendPingPacket_message (A : Abi) (s : ClientSession) (parent : Parent) (ts : Timespec)
    (rand : ℕ) :
    (s.sendPingPacket A parent ts rand).1.message = (s.sendPingPacket A parent ts rand).2.p := rfl

/-- The time stamps and the size of a message. Source: `clientsession.cc`, `sendPingPacket`,
`sendPacket`. Kind: L -/
theorem sendPingPacket_fields (A : Abi) (s : ClientSession) (parent : Parent) (ts : Timespec)
    (rand : ℕ) :
    A.read32 (s.sendPingPacket A parent ts rand).1.message A.sentSec = UInt32.ofInt ts.tvSec ∧
      A.read64 (s.sendPingPacket A parent ts rand).1.message A.sentNsec =
        UInt64.ofInt ts.tvNsec ∧
      A.read32 (s.sendPingPacket A parent ts rand).1.message A.size =
        UInt32.ofInt (s.sendPingPacket A parent ts rand).1.datalen := by
  have hfields := A.fields
  have hlen32 : ∀ x : UInt32, (encode A.endian 4 x.toNat).length = 4 := fun _ => length_encode _ _ _
  have hlen64 : ∀ x : UInt64, (encode A.endian 8 x.toNat).length = 8 := fun _ => length_encode _ _ _
  unfold ClientSession.sendPingPacket ClientSession.sendPacket
  refine ⟨?_, ?_, A.read32_write32 _ _ _⟩
  · change A.read32 (Mem.store _ A.size (encode A.endian 4 _)) A.sentSec = _
    rw [A.read32_store (by rw [hlen32]; omega)]
    change A.read32 (Mem.store _ A.sentNsec (encode A.endian 8 _)) A.sentSec = _
    rw [A.read32_store (by rw [hlen64]; omega)]
    exact A.read32_write32 _ _ _
  · change A.read64 (Mem.store _ A.size (encode A.endian 4 _)) A.sentNsec = _
    rw [A.read64_store (by rw [hlen32]; omega)]
    exact A.read64_write64 _ _ _

/-! ## Senders -/

/-- What a session stands for: a start time, a GUID of hexadecimal digits, a sequence number.
Source: none: abstract model
Kind: D -/
structure Sender where
  clientStartTime : UInt32
  guid : Bytes
  seqNum : UInt32
  /-- A GUID has a fixed length. -/
  length : guid.length = maxGuid
  /-- A GUID is made of hexadecimal digits. -/
  digits : ∀ b ∈ guid, b ∈ hexdigits

namespace Sender

/-- A sender with a GUID drawn from `rand`. Source: none: abstract model. Kind: D -/
def draw (clientStartTime seqNum : UInt32) (rand : ℕ → ℕ) : Sender where
  clientStartTime := clientStartTime
  guid := generateGuid rand 0 maxGuid
  seqNum := seqNum
  length := length_generateGuid rand 0 maxGuid
  digits := fun _ hb => mem_hexdigits_of_mem_generateGuid hb

/-- What a call does to the sender. Source: none: abstract model. Kind: D -/
def step (x : Sender) : ClientSession.Call → Sender
  | .reset rand => draw x.clientStartTime x.seqNum rand
  | .increment => { x with seqNum := x.seqNum + 1 }
  | _ => x

/-- A sender, from its start on. Source: none: abstract model. Kind: D -/
def machine (now : Time) (rand : ℕ → ℕ) : EventMachine Sender ClientSession.Call where
  init := draw (UInt32.ofInt now) 0 rand
  step := step

/-- No character of a GUID is NUL. Source: `clientsession.cc`, `generateGuid`. Kind: L -/
theorem guid_ne_zero (x : Sender) : ∀ b ∈ x.guid, b ≠ 0 := by
  rintro b hb rfl
  exact absurd (x.digits 0 hb) (by decide)

end Sender

/-! ## The bytes of a session's packet -/

/-- The packet's bytes but for the GUID: the header of a sender, a terminated GUID field, and zeros
behind the header.
Source: `protocol.h`, `paddedPacket`
Kind: D -/
structure HoldsButGuid (A : Abi) (p : Mem) (start seqNum : UInt32) : Prop where
  protoVersion : p A.protoVersion = protoVersion
  clientStartTime : A.read32 p A.clientStartTime = start
  /-- The GUID is terminated. -/
  nul : p (A.guid + maxGuid) = 0
  seqNum : A.read32 p A.seqNum = seqNum
  /-- The bytes behind the header are zero. -/
  padding : ∀ i, A.sizeofPacket ≤ i → i < A.sizeofPaddedPacket → p i = 0

/-- The packet's bytes are the sender's header and zeros.
Source: `protocol.h`, `paddedPacket`
Kind: D -/
structure Holds (A : Abi) (p : Mem) (x : Sender) : Prop
    extends HoldsButGuid A p x.clientStartTime x.seqNum where
  guid : p.load A.guid maxGuid = x.guid

namespace HoldsButGuid

variable {A : Abi} {p : Mem} {start seqNum : UInt32}

/-- Memory that was cleared and has been given a version, a start time and a number.
Source: `clientsession.cc`, `ClientSession::ClientSession`
Kind: L -/
theorem clear (A : Abi) (fresh : Mem) (start seqNum : UInt32) :
    HoldsButGuid A (A.write32 (A.write32 ((fresh.store 0 (List.replicate A.sizeofPaddedPacket 0)).store
      A.protoVersion [UDPing.protoVersion]) A.clientStartTime start) A.seqNum seqNum)
      start seqNum := by
  have hfields := A.fields
  have hpadding := A.padding
  have hone : [UDPing.protoVersion].length = 1 := rfl
  have hstart : (encode A.endian 4 start.toNat).length = 4 := length_encode _ _ _
  have hseq : (encode A.endian 4 seqNum.toNat).length = 4 := length_encode _ _ _
  have hzero : ∀ i, i < A.sizeofPaddedPacket →
      fresh.store 0 (List.replicate A.sizeofPaddedPacket 0) i = 0 := by
    intro i hi
    have hlt : i < (List.replicate A.sizeofPaddedPacket (0 : UInt8)).length := by
      rwa [List.length_replicate]
    have hinside := Mem.store_inside (m := fresh) (o := 0) hlt
    rwa [Nat.zero_add, List.getElem_replicate] at hinside
  refine ⟨?_, ?_, ?_, A.read32_write32 _ _ _, fun i hi hi' => ?_⟩
  · unfold Abi.write32 Mem.writeNat
    rw [Mem.store_outside (by omega), Mem.store_outside (by omega)]
    exact Mem.store_inside (i := 0) (hone ▸ Nat.one_pos)
  · rw [Abi.write32, Mem.writeNat, A.read32_store (by omega), A.read32_write32]
  · unfold Abi.write32 Mem.writeNat
    rw [Mem.store_outside (by omega), Mem.store_outside (by omega), Mem.store_outside (by omega),
      hzero _ (by omega)]
  · unfold Abi.write32 Mem.writeNat
    rw [Mem.store_outside (by omega), Mem.store_outside (by omega), Mem.store_outside (by omega),
      hzero i hi']

/-- Writing the GUID, or behind the sequence number. Source: none: infrastructure. Kind: L -/
theorem store (h : HoldsButGuid A p start seqNum) {o : ℕ} {bs : Bytes}
    (ho : (A.guid ≤ o ∧ o + bs.length ≤ A.guid + maxGuid) ∨
      (A.seqNum + 4 ≤ o ∧ o + bs.length ≤ A.sizeofPacket)) :
    HoldsButGuid A (p.store o bs) start seqNum := by
  have hfields := A.fields
  refine ⟨?_, ?_, ?_, ?_, fun i hi hi' => ?_⟩
  · rw [Mem.store_outside (by omega), h.protoVersion]
  · rw [A.read32_store (by omega), h.clientStartTime]
  · rw [Mem.store_outside (by omega), h.nul]
  · rw [A.read32_store (by omega), h.seqNum]
  · rw [Mem.store_outside (by omega), h.padding i hi hi']

/-- A packet without a GUID is given one. Source: `clientsession.cc`, `ClientSession::reset`.
Kind: L -/
theorem writeGuid (h : HoldsButGuid A p start seqNum) (rand : ℕ → ℕ) :
    Holds A (p.store A.guid (generateGuid rand 0 maxGuid)) (Sender.draw start seqNum rand) := by
  have hlen : (generateGuid rand 0 maxGuid).length = maxGuid := length_generateGuid rand 0 maxGuid
  have hload := Mem.load_store_self p A.guid (generateGuid rand 0 maxGuid)
  rw [hlen] at hload
  exact { h.store (Or.inl ⟨le_rfl, by omega⟩) with guid := hload }

end HoldsButGuid

namespace Holds

variable {A : Abi} {p : Mem} {x : Sender} {s : ClientSession}

/-- Writing behind the sequence number. Source: none: infrastructure. Kind: L -/
theorem store (h : Holds A p x) {o : ℕ} {bs : Bytes} (hlo : A.seqNum + 4 ≤ o)
    (hhi : o + bs.length ≤ A.sizeofPacket) : Holds A (p.store o bs) x := by
  have hfields := A.fields
  refine { h.toHoldsButGuid.store (Or.inr ⟨hlo, hhi⟩) with guid := ?_ }
  rw [Mem.load_store_disjoint (by omega), h.guid]

/-- A new sequence number. Source: `clientsession.cc`, `ClientSession::increment`. Kind: L -/
theorem writeSeqNum (h : Holds A p x) (q : UInt32) :
    Holds A (A.write32 p A.seqNum q) { x with seqNum := q } := by
  have hfields := A.fields
  have hlen : (encode A.endian 4 q.toNat).length = 4 := length_encode _ _ _
  refine ⟨⟨?_, ?_, ?_, A.read32_write32 p A.seqNum q, fun i hi hi' => ?_⟩, ?_⟩
  · unfold Abi.write32 Mem.writeNat
    rw [Mem.store_outside (by omega), h.protoVersion]
  · unfold Abi.write32 Mem.writeNat
    rw [A.read32_store (by omega), h.clientStartTime]
  · unfold Abi.write32 Mem.writeNat
    rw [Mem.store_outside (by omega), h.nul]
  · unfold Abi.write32 Mem.writeNat
    rw [Mem.store_outside (by omega), h.padding i hi hi']
  · unfold Abi.write32 Mem.writeNat
    rw [Mem.load_store_disjoint (by omega), h.guid]

/-- Sending changes the time stamps and the size only.
Source: `clientsession.cc`, `ClientSession::sendPingPacket`
Kind: L -/
theorem sendPingPacket (h : Holds A s.p x) (parent : Parent) (ts : Timespec) (rand : ℕ) :
    Holds A (s.sendPingPacket A parent ts rand).2.p x := by
  have hfields := A.fields
  unfold ClientSession.sendPingPacket ClientSession.sendPacket
  apply store _ (by omega) (by rw [length_encode]; omega)
  apply store _ (by omega) (by rw [length_encode]; omega)
  exact store h (by omega) (by rw [length_encode]; omega)

/-- **One call** of a session is one step of its sender.
Source: `clientsession.cc`, `ClientSession`
Kind: P -/
theorem step (h : Holds A s.p x) (parent : Parent) (c : ClientSession.Call) :
    Holds A (s.step A parent c).p (x.step c) := by
  rcases c with now | rand | _ | ⟨ts, rand⟩
  · have hp : (s.rollover parent now).2.p = s.p := by
      unfold ClientSession.rollover
      dsimp only
      split_ifs <;> rfl
    change Holds A (s.rollover parent now).2.p x
    rw [hp]
    exact h
  · exact h.toHoldsButGuid.writeGuid rand
  · have hseq := h.writeSeqNum (A.read32 s.p A.seqNum + 1)
    rw [h.seqNum] at hseq
    change Holds A (A.write32 s.p A.seqNum (A.read32 s.p A.seqNum + 1)) _
    rw [h.seqNum]
    exact hseq
  · exact h.sendPingPacket parent ts rand

end Holds

/-- **Every run of a session is a run of its sender.** Source: `clientsession.cc`,
`ClientSession`. Kind: P -/
theorem holds_run (A : Abi) (parent : Parent) (port : ℤ) (dstMacs : MacList) (fresh : Mem)
    (now : Time) (rand : ℕ → ℕ) (calls : List ClientSession.Call) :
    Holds A ((ClientSession.machine A parent port dstMacs fresh now rand).run calls).p
      ((Sender.machine now rand).run calls) := by
  induction calls using List.reverseRecOn with
  | nil => exact (HoldsButGuid.clear A fresh (UInt32.ofInt now) 0).writeGuid rand
  | append_singleton calls c ih =>
      rw [EventMachine.run_concat, EventMachine.run_concat]
      exact ih.step parent c

end UDPing.Client
