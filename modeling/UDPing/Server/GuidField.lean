import UDPing.Server.Receive
import UDPing.Server.Table

/-!
# The key of a session and the guid field

* `UsesKey`: the key under which `getServerSession` finds or stores the session of an arrival.
* `guidField`: the bytes of a datagram that the header's `guid` overlays.
* `ping_guid`: the C string that is read through `p->guid` begins in the field and goes on as far as
  the buffer has no null byte.
* **`keyedByField_iff`**: whether the field alone determines the key.
-/

namespace UDPing.Server

open Lib ServerSessionManager
open Std (ExtTreeMap)

/-! ## Keys -/

/-- The call of `getServerSession` returns what the session map has under `key`, creates an entry
there if there is none, and touches no other one, whatever the manager has stored before.
Source: `serversession.cc`, `ServerSessionManager::getServerSession`
Kind: D -/
def UsesKey (a : Arrival) (key : Bytes) : Prop :=
  ∀ (m : ServerSessionManager) (mem : Memory) (ds : Ptr) (m' : ServerSessionManager),
    m.getServerSession a.peer a.port a.ph mem = (ds, m') →
    m'.sessionMap[key]? = some ds ∧
      ∀ other, other ≠ key → m'.sessionMap[other]? = m.sessionMap[other]?

/-- Source: `serversession.cc`, `ServerSessionManager::getServerSession`. Kind: L -/
theorem usesKey_guid (a : Arrival) : UsesKey a a.ph.guid := by
  intro m mem ds m' h
  by_cases hg : a.ph.guid ∈ m.sessionMap
  · rw [getServerSession_of_mem mem hg] at h
    obtain ⟨rfl, rfl⟩ := Prod.mk.inj h
    obtain ⟨p, hp⟩ := Option.isSome_iff_exists.mp (ExtTreeMap.mem_iff_isSome_getElem?.mp hg)
    refine ⟨?_, fun _ _ => rfl⟩
    rw [subscript, hp]
    rfl
  · rw [getServerSession_of_not_mem mem hg] at h
    obtain ⟨rfl, rfl⟩ := Prod.mk.inj h
    rw [modify_sessionMap]
    refine ⟨ExtTreeMap.getElem?_insert_self, fun other hother => ?_⟩
    exact ExtTreeMap.getElem?_insert.trans (if_neg (by simpa using Ne.symm hother))

/-- **The key is the GUID.** Source: `serversession.cc`, `ServerSessionManager::getServerSession`.
Kind: P -/
theorem usesKey_iff {a : Arrival} {key : Bytes} : UsesKey a key ↔ key = a.ph.guid := by
  constructor
  · intro h
    by_contra hne
    -- a manager without sessions has one under the key, and under no other
    have hown := (usesKey_guid a (.new 0) ⟨0, 0⟩ _ _ rfl).1
    have hother := (h (.new 0) ⟨0, 0⟩ _ _ rfl).2 a.ph.guid (Ne.symm hne)
    rw [hown] at hother
    cases hother
  · rintro rfl
    exact usesKey_guid a

/-! ## Fields -/

/-- The bytes of the field `guid` in a datagram. Source: `protocol.h`, `packet`. Kind: D -/
def guidField (A : Abi) (d : Datagram) : Bytes := (d.payload.drop A.guid).take (maxGuid + 1)

/-- Two arrivals have one key, of at most `MAX_GUID` bytes, which are the first of `field`.
Source: none: specification
Kind: D -/
def KeyedByField (field : Bytes) (a a' : Arrival) : Prop :=
  ∃ key, UsesKey a key ∧ UsesKey a' key ∧ key.length ≤ maxGuid ∧ key <+: field

section Reading

variable {A : Abi} {resolve : UInt32 → Bytes} {hostMap hostMap' : ExtTreeMap UInt32 Bytes}
  {buf : Mem} {d : Datagram} {tv : Timespec} {stamp : Time} {a : Arrival}

/-- What is handed to `receivePing`. Source: `serversession.cc`, `readNextPacket`. Kind: L -/
theorem ping_header
    (h : readNextPacket A resolve hostMap buf (some d) tv stamp = (.ping a, hostMap')) :
    a.ph = A.packet (buf.store 0 (d.payload.take maxBuf)) maxBuf ∧
      A.sizeofPacket ≤ (d.payload.take maxBuf).length := by
  unfold readNextPacket recvfrom at h
  dsimp only at h
  have hbuf : maxBuf = 2000 := rfl
  have hlen : (d.payload.take maxBuf).length ≤ maxBuf := List.length_take_le _ _
  split_ifs at h with hneg hshort hsize hversion
  · cases h
  · cases h
  · cases h
  · cases h
  · have ha := congrArg Prod.fst h
    rw [Reading.ping.injEq] at ha
    rw [← ha]
    refine ⟨rfl, ?_⟩
    omega

/-- **The GUID of an arrival** begins with the field, and does not end with it unless the field has a
null byte.
Source: `serversession.cc`, `readNextPacket`
Kind: L -/
theorem ping_guid
    (h : readNextPacket A resolve hostMap buf (some d) tv stamp = (.ping a, hostMap')) :
    (guidField A d).length = maxGuid + 1 ∧ ∃ rest, a.ph.guid = cString (guidField A d ++ rest) := by
  obtain ⟨hph, hlen⟩ := ping_header h
  have hfields := A.fields
  have hheader := A.header_lt
  rw [List.length_take] at hlen
  have hfield : (guidField A d).length = maxGuid + 1 := by
    simp only [guidField, List.length_take, List.length_drop]
    omega
  refine ⟨hfield, (buf.store 0 (d.payload.take maxBuf)).load (A.guid + (maxGuid + 1))
    (maxBuf - A.guid - (maxGuid + 1)), ?_⟩
  have hsplit : maxBuf - A.guid = (maxGuid + 1) + (maxBuf - A.guid - (maxGuid + 1)) := by omega
  have hload : (buf.store 0 (d.payload.take maxBuf)).load A.guid (maxGuid + 1) = guidField A d := by
    apply List.ext_getElem
    · rw [Mem.length_load, hfield]
    · intro i hi hi'
      rw [Mem.length_load] at hi
      have hin : A.guid + i < (d.payload.take maxBuf).length := by
        rw [List.length_take]
        omega
      have hstore := Mem.store_inside (m := buf) (o := 0) hin
      rw [Nat.zero_add] at hstore
      rw [Mem.getElem_load, hstore]
      simp [guidField]
  rw [hph]
  change cString ((buf.store 0 (d.payload.take maxBuf)).load A.guid (maxBuf - A.guid)) = _
  conv_lhs => rw [hsplit, Mem.load_add, hload]

end Reading

/-- **Whether the key depends on the field only**: it does for the fields that have a null byte. Two
accepted datagrams with one field then have one key, within the field, whatever their other bytes and
the buffer's previous contents. For the other fields no two accepted datagrams have such a key.
Source: `serversession.cc`, `readNextPacket`, `getServerSession`
Kind: P -/
theorem keyedByField_iff {A : Abi} {resolve resolve' : UInt32 → Bytes}
    {hostMap hostMap' hostMap₁ hostMap₁' : ExtTreeMap UInt32 Bytes} {buf buf' : Mem}
    {d d' : Datagram} {tv tv' : Timespec} {stamp stamp' : Time} {a a' : Arrival}
    (h : readNextPacket A resolve hostMap buf (some d) tv stamp = (Reading.ping a, hostMap₁))
    (h' : readNextPacket A resolve' hostMap' buf' (some d') tv' stamp' = (Reading.ping a', hostMap₁'))
    (hfield : guidField A d = guidField A d') :
    KeyedByField (guidField A d) a a' ↔ 0 ∈ guidField A d := by
  obtain ⟨hlen, rest, hguid⟩ := ping_guid h
  obtain ⟨-, rest', hguid'⟩ := ping_guid h'
  rw [← hfield] at hguid'
  constructor
  · rintro ⟨key, hkey, -, hshort, -⟩
    by_contra hzero
    rw [usesKey_iff.mp hkey, hguid, cString_append_of_notMem hzero, List.length_append] at hshort
    omega
  · intro hzero
    obtain ⟨hread, hprefix, hshort⟩ := cString_append_of_mem hzero rest
    have hread' := (cString_append_of_mem hzero rest').1
    refine ⟨cString (guidField A d), usesKey_iff.mpr ?_, usesKey_iff.mpr ?_, ?_, hprefix⟩
    · rw [hguid, hread]
    · rw [hguid', hread']
    · omega

/-- A datagram of 64-bit Linux with the given field, and the given bytes behind it.
Source: `protocol.h`, `packet`
Kind: D -/
def datagramOf (field behind : Bytes) : Datagram where
  payload := [1, 0, 0, 0, 7, 0, 0, 0] ++ field ++ behind ++ [1, 0, 0, 0] ++
    List.replicate 12 0 ++ [56, 0, 0, 0, 0, 0, 0, 0]
  addr := 0
  port := 5000

/-- What a server reads of a datagram. Source: `serversession.cc`, `readNextPacket`. Kind: D -/
def readExample (buf : Mem) (d : Datagram) : Reading × ExtTreeMap UInt32 Bytes :=
  readNextPacket (lp64 .little) (fun _ => ascii "h") ∅ buf (some d) (probe [] 0 0).rcvd 0

/-- A field with a null byte. Source: `serversession.cc`, `readNextPacket`. Kind: P -/
theorem keyedByField_terminated :
    KeyedByField (guidField (lp64 .little) (datagramOf (103 :: List.replicate 20 0) [0, 0, 0]))
      (probe (ascii "g") 1 0) (probe (ascii "g") 1 0) := by
  have hread : (readExample (fun _ => 0)
      (datagramOf (103 :: List.replicate 20 0) [0, 0, 0])).1 = .ping (probe (ascii "g") 1 0) := by
    decide +kernel
  have hread' : (readExample (fun _ => 255)
      (datagramOf (103 :: List.replicate 20 0) [1, 2, 3])).1 = .ping (probe (ascii "g") 1 0) := by
    decide +kernel
  have hfield : guidField (lp64 .little) (datagramOf (103 :: List.replicate 20 0) [0, 0, 0]) =
      guidField (lp64 .little) (datagramOf (103 :: List.replicate 20 0) [1, 2, 3]) := by decide
  have hpair {r : Reading × ExtTreeMap UInt32 Bytes} {a : Arrival} (h : r.1 = .ping a) :
      r = (Reading.ping a, r.2) := by rw [← h]
  exact (keyedByField_iff (hpair hread) (hpair hread') hfield).mpr (by decide)

/-- A field of 21 letters: the bytes behind it are part of the key.
Source: `serversession.cc`, `readNextPacket`
Kind: C -/
theorem key_beyond_field :
    (readExample (fun _ => 0) (datagramOf (List.replicate 21 97) [0, 0, 0])).1 =
        .ping (probe (List.replicate 21 97) 1 0) ∧
      (readExample (fun _ => 0) (datagramOf (List.replicate 21 97) [98, 98, 98])).1 =
        .ping (probe (List.replicate 21 97 ++ [98, 98, 98, 1]) 1 0) ∧
      guidField (lp64 .little) (datagramOf (List.replicate 21 97) [0, 0, 0]) =
        guidField (lp64 .little) (datagramOf (List.replicate 21 97) [98, 98, 98]) ∧
      ¬KeyedByField (List.replicate 21 97) (probe (List.replicate 21 97) 1 0)
        (probe (List.replicate 21 97 ++ [98, 98, 98, 1]) 1 0) := by
  refine ⟨by decide +kernel, by decide +kernel, by decide, ?_⟩
  rintro ⟨key, hkey, hkey', -⟩
  have hsame := (usesKey_iff.mp hkey).symm.trans (usesKey_iff.mp hkey')
  revert hsame
  decide

end UDPing.Server
