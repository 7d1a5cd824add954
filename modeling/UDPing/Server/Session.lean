import Mathlib
import UDPing.Protocol.Packet

/-!
# Server sessions: statistics, sequence window, report

* `Stats` and `Stats.addDataPoint` (`stats.cc`), over exact rationals; `count` is a C `int`.
* `ServerSession` with its constructor, `recordSeq` and `writeStats` (`serversession.cc`), and the
  label a session carries from its first packet (`StatsWriterSet`, `statswriter.cc`).
* `Report`: what `StatsWriterSet::writeStats` hands to the writer.
* `ServerSession.absorb`: what `receivePing` does to a session it holds, as one function.
-/

namespace UDPing.Server

open Lib

/-! ## Statistics -/

/-- Source: `stats.h`, `Stats`. Kind: D. Fidelity: `double` fields are exact rationals -/
structure Stats where
  targetCount : UInt32
  count : ℤ
  sum : ℚ
  sumOfSquares : ℚ
  max : ℚ
  deriving DecidableEq

/-- The largest finite `double`. Source: `DBL_MAX`. Kind: D -/
def dblMax : ℚ := (2 ^ 53 - 1) * 2 ^ 971

/-- Source: `stats.cc`, `Stats::Stats`. Kind: D -/
def Stats.new : Stats where
  targetCount := 0
  count := 0
  sum := 0
  sumOfSquares := 0
  max := -dblMax

/-- Source: `stats.cc`, `Stats::addDataPoint`. Kind: D -/
def Stats.addDataPoint (st : Stats) (datapoint : ℚ) : Stats :=
  { st with
    count := cInt (st.count + 1)
    sum := st.sum + datapoint
    sumOfSquares := st.sumOfSquares + datapoint * datapoint
    max := if st.max < datapoint then datapoint else st.max }

/-- Source: `stats.h`, `Stats::setTargetCount`. Kind: D -/
def Stats.setTargetCount (st : Stats) (targetCount : UInt32) : Stats := { st with targetCount }

/-- The latency of a packet in milliseconds.
Source: `serversession.cc`, `ServerSessionManager::receivePing` (`elapsed`)
Kind: D
Fidelity: exact rational arithmetic -/
def elapsed (ph : Packet) (rcvd : Timespec) : ℚ :=
  (((rcvd.tvNsec : ℚ) - ph.sentNsec.toNat) / 1000000000 + rcvd.tvSec - ph.sentSec.toNat) * 1000

/-- No latency comes near the largest `double`. Source: none: infrastructure. Kind: L -/
theorem neg_dblMax_lt_elapsed (ph : Packet) (rcvd : Timespec) : -dblMax < elapsed ph rcvd := by
  have hsec : (-2 ^ 63 : ℚ) ≤ rcvd.tvSec := by exact_mod_cast rcvd.secRange.1
  have hnsec : (-2 ^ 63 : ℚ) ≤ rcvd.tvNsec := by exact_mod_cast rcvd.nsecRange.1
  have hsent : (ph.sentSec.toNat : ℚ) < 2 ^ 32 := by exact_mod_cast ph.sentSec.toNat_lt
  have hsentN : (ph.sentNsec.toNat : ℚ) < 2 ^ 64 := by exact_mod_cast ph.sentNsec.toNat_lt
  have hbig : (2 ^ 100 : ℚ) < dblMax := by
    have hpow : (2 ^ 100 : ℚ) ≤ 2 ^ 971 := pow_le_pow_right₀ (by norm_num) (by norm_num)
    exact hpow.trans_lt (lt_mul_of_one_lt_left (by positivity) (by norm_num))
  unfold elapsed
  have hdiv : (-2 ^ 63 - 2 ^ 64 : ℚ) / 1000000000 ≤
      ((rcvd.tvNsec : ℚ) - ph.sentNsec.toNat) / 1000000000 := by
    gcongr
  linarith only [hsec, hsent, hbig, hdiv]

/-! ## Labels and reports -/

/-- The label of a session: the GUID, the peer and the port of the packet that created it.
Source: `statswriter.h`, `StatsWriterSet`
Kind: D
Fidelity: the writer itself is the manager's, see `ServerSessionManager.written` -/
structure StatsWriterSet where
  guid : Bytes
  peer : Bytes
  port : UInt16
  deriving DecidableEq

/-- One call of `StatsWriter::writeStats`, with its arguments.
Source: `statswriter.cc`, `StatsWriterSet::writeStats`
Kind: D -/
structure Report where
  guid : Bytes
  peer : Bytes
  port : UInt16
  stats : Stats
  now : Time
  deriving DecidableEq

/-- Source: `statswriter.cc`, `StatsWriterSet::writeStats`. Kind: D -/
def StatsWriterSet.writeStats (w : StatsWriterSet) (stats : Stats) (now : Time) : Report where
  guid := w.guid
  peer := w.peer
  port := w.port
  stats := stats
  now := now

/-! ## Sessions -/

/-- Source: `serversession.h`, `ServerSession`. Kind: D -/
structure ServerSession where
  clientStartTime : Time
  successor : Bytes
  lastArrival : Time
  minSeq : UInt32
  maxSeq : UInt32
  stats : Stats
  statsWriters : StatsWriterSet
  deriving DecidableEq

namespace ServerSession

/-- Source: `serversession.cc`, `ServerSession::ServerSession`. Kind: D -/
def create (peer : Bytes) (port : UInt16) (p : Packet) : ServerSession where
  minSeq := p.seqNum
  maxSeq := p.seqNum
  clientStartTime := p.clientStartTime.toNat
  successor := []
  lastArrival := 0
  stats := Stats.new
  statsWriters := { guid := p.guid, peer := peer, port := port }

/-- Source: `serversession.cc`, `ServerSession::recordSeq`. Kind: D -/
def recordSeq (s : ServerSession) (seqNum : UInt32) : ServerSession :=
  let diff := seqNum - s.maxSeq
  let s := if 0 < diff ∧ diff < 10 then { s with maxSeq := seqNum } else s
  let diff := s.minSeq - seqNum
  if 0 < diff ∧ diff < 10 then { s with minSeq := seqNum } else s

/-- The session after `writeStats` stored the target count, and the report it wrote.
Source: `serversession.cc`, `ServerSession::writeStats`
Kind: D -/
def writeStats (s : ServerSession) (now : Time) : Report :=
  let targetCount := 1 + s.maxSeq - s.minSeq
  s.statsWriters.writeStats (s.stats.setTargetCount targetCount) now

/-- Source: `serversession.h`, `ServerSession::setSuccessor`. Kind: D -/
def setSuccessor (s : ServerSession) (successor : Bytes) : ServerSession := { s with successor }

/-- Source: `serversession.h`, `ServerSession::setLastArrival`. Kind: D -/
def setLastArrival (s : ServerSession) (t : Time) : ServerSession := { s with lastArrival := t }

/-- `getStats()->addDataPoint`. Source: `serversession.h`, `stats.h`. Kind: D -/
def addDataPoint (s : ServerSession) (datapoint : ℚ) : ServerSession :=
  { s with stats := s.stats.addDataPoint datapoint }

/-- The GUID a session was created for. Source: `statswriter.h`, `StatsWriterSet`. Kind: D -/
abbrev guid (s : ServerSession) : Bytes := s.statsWriters.guid

/-! ### What `recordSeq` does, field by field -/

/-- The upper end after `recordSeq`. Source: `serversession.cc`, `recordSeq`. Kind: D -/
def raise (maxSeq seqNum : UInt32) : UInt32 :=
  if 0 < seqNum - maxSeq ∧ seqNum - maxSeq < 10 then seqNum else maxSeq

/-- The lower end after `recordSeq`. Source: `serversession.cc`, `recordSeq`. Kind: D -/
def lower (minSeq seqNum : UInt32) : UInt32 :=
  if 0 < minSeq - seqNum ∧ minSeq - seqNum < 10 then seqNum else minSeq

/-- **`recordSeq` as an update of the two ends**: each end is decided by itself, and no other
field is touched.
Source: `serversession.cc`, `ServerSession::recordSeq`
Kind: L -/
theorem recordSeq_eq (s : ServerSession) (q : UInt32) :
    s.recordSeq q = { s with minSeq := lower s.minSeq q, maxSeq := raise s.maxSeq q } := by
  unfold recordSeq lower raise
  by_cases hmax : 0 < q - s.maxSeq ∧ q - s.maxSeq < 10
  · simp only [if_pos hmax]
    split_ifs <;> rfl
  · simp only [if_neg hmax]
    split_ifs <;> rfl

end ServerSession

/-! ## One packet on a session -/

/-- What one call of `receivePing` brings: the packet, its receive time stamp, its source and the
clock reading stored as `lastArrival`.
Source: `serversession.cc`, `ServerSessionManager::receivePing` (arguments, `time(0)`)
Kind: D -/
structure Arrival where
  ph : Packet
  rcvd : Timespec
  peer : Bytes
  port : UInt16
  stamp : Time
  deriving DecidableEq

/-- A probe of the source `h:5000`, for examples. Source: `protocol.h`, `packet`. Kind: D -/
def probe (guid : Bytes) (seqNum : UInt32) (stamp : Time) : Arrival where
  ph := ⟨1, 7, guid, seqNum, 0, 0, 56⟩
  rcvd := { tvSec := 0, tvNsec := 1000000 }
  peer := ascii "h"
  port := 5000
  stamp := stamp

/-- The latency of an arrival. Source: `serversession.cc`, `receivePing`. Kind: D -/
def Arrival.latency (a : Arrival) : ℚ := elapsed a.ph a.rcvd

/-- What `receivePing` does to the session of the packet, once it has it.
Source: `serversession.cc`, `ServerSessionManager::receivePing`
Kind: D -/
def ServerSession.absorb (s : ServerSession) (a : Arrival) : ServerSession :=
  ((s.setLastArrival a.stamp).recordSeq a.ph.seqNum).addDataPoint a.latency

/-- **`absorb` field by field**. Source: `serversession.cc`, `receivePing`. Kind: L -/
theorem ServerSession.absorb_eq (s : ServerSession) (a : Arrival) :
    s.absorb a =
      { s with
        lastArrival := a.stamp
        minSeq := lower s.minSeq a.ph.seqNum
        maxSeq := raise s.maxSeq a.ph.seqNum
        stats := s.stats.addDataPoint a.latency } := by
  simp only [absorb, recordSeq_eq, addDataPoint, setLastArrival]

/-- The successor link does not matter to `absorb`. Source: none: infrastructure. Kind: L -/
theorem ServerSession.absorb_setSuccessor (s : ServerSession) (g : Bytes) (a : Arrival) :
    (s.setSuccessor g).absorb a = (s.absorb a).setSuccessor g := by
  simp only [absorb_eq, setSuccessor]

end UDPing.Server
