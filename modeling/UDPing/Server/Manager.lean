import Mathlib
import UDPing.Lib.EventMachine
import UDPing.Server.Session

/-!
# The session manager

`ServerSessionManager` with `getServerSession`, `sweepServerSessions`, `receivePing` and
`handleAlarm` (`serversession.cc`), over an explicit memory: sessions live at addresses, the two
maps hold pointers, `new` puts a session at an address that is free and `delete` frees it.

* A `Ptr` is an address or null. `heap` says which addresses hold a session. A pointer to an
  address that holds none is dangling.
* What the environment decides is an argument: the address `new` returns, the value that reading
  `clientStartTime` through a dangling pointer yields, and the clock readings.
* `std::map<string, _>` is an ordered map with byte-string keys, walked in key order.
* `Event` and `machine` are the runs: calls of `receivePing`, alarms, and bare sweeps, the
  handler running between calls. `Admissible` is the only assumption on them: `new` returns a free
  address.
-/

namespace UDPing.Server

open Lib Std

/-! ## Memory -/

/-- An address of a session. Source: none: infrastructure. Kind: D -/
abbrev Addr := ℕ

/-- A `ServerSession*`: null or an address. Source: `serversession.h`. Kind: D -/
abbrev Ptr := Option Addr

/-- What the memory does during one call: the address `new ServerSession` returns, and what a read
of `clientStartTime` through a dangling pointer yields.
Source: none: environment
Kind: D -/
structure Memory where
  addr : Addr
  stale : Time

/-- Source: `serversession.h`, `ServerSessionManager`. Kind: D
Fidelity: `writer` is the list of the reports handed to it; `heap` is the memory of the sessions;
`hostMap` belongs to `readNextPacket` -/
@[ext] structure ServerSessionManager where
  sessionMap : ExtTreeMap Bytes Ptr
  sourceMap : ExtTreeMap Bytes Ptr
  intervalPacketsReceived : ℤ
  keepalive : ℤ
  heap : Addr → Option ServerSession
  written : List Report

/-- Source: `serversession.cc`, `ServerSessionManager::ServerSessionManager`. Kind: D -/
def ServerSessionManager.new (theKeepalive : ℤ) : ServerSessionManager where
  sessionMap := ∅
  sourceMap := ∅
  intervalPacketsReceived := 0
  keepalive := theKeepalive
  heap := fun _ => none
  written := []

/-- The key of a source in `sourceMap`: `peer << ":" << port`.
Source: `serversession.cc`, `ServerSessionManager::getServerSession`
Kind: D -/
def sourceKey (peer : Bytes) (port : UInt16) : Bytes := peer ++ 58 :: decimal port.toNat

/-- Distinct sources have distinct keys: the port has no colon in it.
Source: none: infrastructure
Kind: L -/
theorem sourceKey_injective {peer peer' : Bytes} {port port' : UInt16}
    (h : sourceKey peer port = sourceKey peer' port') : peer = peer' ∧ port = port' := by
  have hcolon : ∀ n, (58 : UInt8) ∉ decimal n := fun n hn => by
    have := (mem_decimal hn).2
    exact absurd this (by decide)
  obtain ⟨hpeer, hport⟩ := append_sep_injective (hcolon _) (hcolon _) h
  exact ⟨hpeer, UInt16.toNat_inj.mp (decimal_injective hport)⟩

namespace ServerSessionManager

/-! ## Pointers -/

/-- The pointer a map holds under a key; `operator[]` yields null for an absent key.
Source: `std::map::operator[]`
Kind: D -/
def subscript (map : ExtTreeMap Bytes Ptr) (key : Bytes) : Ptr := map[key]?.getD none

/-- Writing through a pointer. Through a dangling pointer no session changes.
Source: none: infrastructure
Kind: D -/
def modify (m : ServerSessionManager) (p : Ptr) (f : ServerSession → ServerSession) :
    ServerSessionManager :=
  match p with
  | none => m
  | some a => { m with heap := Function.update m.heap a ((m.heap a).map f) }

/-- `predecessor->getClientStartTime()`; a dangling pointer yields the stale value.
Source: `serversession.cc`, `ServerSessionManager::getServerSession`
Kind: D -/
def readClientStartTime (m : ServerSessionManager) (a : Addr) (mem : Memory) : Time :=
  match m.heap a with
  | some s => s.clientStartTime
  | none => mem.stale

/-! ## getServerSession -/

/-- `new ServerSession(writer, peer, port, p)`.
Source: `serversession.cc`, `ServerSessionManager::getServerSession`
Kind: D -/
def newSession (m : ServerSessionManager) (peer : Bytes) (port : UInt16) (p : Packet)
    (mem : Memory) : ServerSessionManager :=
  { m with heap := Function.update m.heap mem.addr (some (ServerSession.create peer port p)) }

/-- Setting the successor on the session `sourceMap` holds for the source.
Source: `serversession.cc`, `ServerSessionManager::getServerSession`
Kind: D -/
def linkPredecessor (m : ServerSessionManager) (source : Bytes) (p : Packet) (mem : Memory) :
    ServerSessionManager :=
  match subscript m.sourceMap source with
  | none => m
  | some predecessor =>
    if m.readClientStartTime predecessor mem = p.clientStartTime.toNat then
      m.modify (some predecessor) fun s => s.setSuccessor p.guid
    else m

/-- Storing the new session in the two maps.
Source: `serversession.cc`, `ServerSessionManager::getServerSession`
Kind: D -/
def storeSession (m : ServerSessionManager) (source guid : Bytes) (ds : Ptr) :
    ServerSessionManager :=
  { m with
    sessionMap := m.sessionMap.insert guid ds
    sourceMap := m.sourceMap.insert source ds }

/-- Source: `serversession.cc`, `ServerSessionManager::getServerSession`. Kind: D -/
def getServerSession (m : ServerSessionManager) (peer : Bytes) (port : UInt16) (p : Packet)
    (mem : Memory) : Ptr × ServerSessionManager :=
  let m :=
    if p.guid ∈ m.sessionMap then m
    else
      let source := sourceKey peer port
      ((m.newSession peer port p mem).linkPredecessor source p mem).storeSession source p.guid
        (some mem.addr)
  (subscript m.sessionMap p.guid, m)

/-! ## sweepServerSessions -/

/-- What the sweep makes of an expired session before it writes its statistics: when its successor
is stored, the numbers up to the successor's first one are recorded.
Source: `serversession.cc`, `ServerSessionManager::sweepServerSessions`
Kind: D -/
def closeGap (m : ServerSessionManager) (ds : ServerSession) : ServerSession :=
  if ds.successor ∈ m.sessionMap then
    match (subscript m.sessionMap ds.successor).bind m.heap with
    | some successor => ds.recordSeq (successor.minSeq - 1)
    | none => ds
  else ds

/-- `writeStats`, `delete` and `erase` of one session.
Source: `serversession.cc`, `ServerSessionManager::sweepServerSessions`
Kind: D -/
def removeSession (m : ServerSessionManager) (now : Time) (guid : Bytes) (a : Addr)
    (ds : ServerSession) : ServerSessionManager :=
  { m with
    written := m.written ++ [ds.writeStats now]
    heap := Function.update m.heap a none
    sessionMap := m.sessionMap.erase guid }

/-- The sweep's loop over the entries from the iterator on. A null entry stops it.
Source: `serversession.cc`, `ServerSessionManager::sweepServerSessions`
Kind: D
Fidelity: a dangling pointer in `sessionMap` would be undefined behaviour; the loop stops there
(`WF` excludes it) -/
def sweepFrom (now : Time) : List (Bytes × Ptr) → ServerSessionManager → ServerSessionManager
  | [], m => m
  | (_, none) :: _, m => m
  | (guid, some a) :: rest, m =>
    match m.heap a with
    | none => m
    | some ds =>
      if ds.lastArrival < now - m.keepalive then
        sweepFrom now rest (m.removeSession now guid a (m.closeGap ds))
      else sweepFrom now rest m

/-- Source: `serversession.cc`, `ServerSessionManager::sweepServerSessions`. Kind: D
Fidelity: erasing an entry leaves the iterators to the others valid, so the loop visits the
entries present at its start -/
def sweepServerSessions (m : ServerSessionManager) (now : Time) : ServerSessionManager :=
  sweepFrom now m.sessionMap.toList m

/-! ## receivePing and the alarm -/

/-- `receivePing` up to its sweep.
Source: `serversession.cc`, `ServerSessionManager::receivePing`
Kind: D -/
def recordPing (m : ServerSessionManager) (a : Arrival) (mem : Memory) : ServerSessionManager :=
  let m := { m with intervalPacketsReceived := cInt (m.intervalPacketsReceived + 1) }
  let (ds, m) := m.getServerSession a.peer a.port a.ph mem
  let m := m.modify ds fun s => s.setLastArrival a.stamp
  let m := m.modify ds fun s => s.recordSeq a.ph.seqNum
  m.modify ds fun s => s.addDataPoint (elapsed a.ph a.rcvd)

/-- Source: `serversession.cc`, `ServerSessionManager::receivePing`. Kind: D -/
def receivePing (m : ServerSessionManager) (a : Arrival) (mem : Memory) (now : Time) :
    ServerSessionManager :=
  (m.recordPing a mem).sweepServerSessions now

/-- Source: `serversession.cc`, `ServerSessionManager::handleAlarm`. Kind: D -/
def handleAlarm (m : ServerSessionManager) (now : Time) : ServerSessionManager :=
  let m := if m.intervalPacketsReceived = 0 then m.sweepServerSessions now else m
  { m with intervalPacketsReceived := 0 }

end ServerSessionManager

/-! ## Runs -/

/-- What happens to a manager between two of its states: a call of `receivePing` (with what the
memory does and the second clock reading, the sweep's), the alarm handler, or a bare sweep.
Source: `serversession.cc`, `ServerSessionManager`
Kind: D -/
inductive Event where
  | receivePing (a : Arrival) (mem : Memory) (now : Time)
  | handleAlarm (now : Time)
  | sweep (now : Time)

/-- Source: `serversession.cc`, `ServerSessionManager`. Kind: D -/
def ServerSessionManager.step (m : ServerSessionManager) : Event → ServerSessionManager
  | .receivePing a mem now => m.receivePing a mem now
  | .handleAlarm now => m.handleAlarm now
  | .sweep now => m.sweepServerSessions now

/-- A manager with a given keepalive, driven by events. Source: `server.cc`, `main`. Kind: D -/
def machine (keepalive : ℤ) : EventMachine ServerSessionManager Event where
  init := ServerSessionManager.new keepalive
  step := ServerSessionManager.step

/-- The sweep an event makes, if it makes one: the state it starts from, and its clock reading.
Source: `serversession.cc`, `receivePing`, `handleAlarm`, `sweepServerSessions`
Kind: D -/
def Event.sweep? (m : ServerSessionManager) : Event → Option (ServerSessionManager × Time)
  | .receivePing a mem now => some (m.recordPing a mem, now)
  | .handleAlarm now => if m.intervalPacketsReceived = 0 then some (m, now) else none
  | .sweep now => some (m, now)

/-- `new` returns a free address, never one that holds a session.
Source: none: environment
Kind: D -/
def Event.Allocates (m : ServerSessionManager) : Event → Prop
  | .receivePing _ mem _ => m.heap mem.addr = none
  | _ => True

instance (m : ServerSessionManager) : (e : Event) → Decidable (e.Allocates m)
  | .receivePing _ mem _ => inferInstanceAs (Decidable (m.heap mem.addr = none))
  | .handleAlarm _ => isTrue trivial
  | .sweep _ => isTrue trivial

/-- The runs considered: every allocation returns a free address.
Source: none: environment
Kind: D -/
def Admissible (keepalive : ℤ) (es : List Event) : Prop :=
  (machine keepalive).Always Event.Allocates es

instance (keepalive : ℤ) (es : List Event) : Decidable (Admissible keepalive es) :=
  inferInstanceAs (Decidable ((machine keepalive).Always Event.Allocates es))

/-- The arrival an event brings, if any. Source: none: infrastructure. Kind: D -/
def Event.arrival? : Event → Option Arrival
  | .receivePing a _ _ => some a
  | _ => none

/-- The arrivals of a run, in order. Source: none: infrastructure. Kind: D -/
def arrivals (es : List Event) : List Arrival := es.filterMap Event.arrival?

/-- The arrivals of a run extended by one event. Source: none: infrastructure. Kind: L -/
theorem arrivals_concat (es : List Event) (e : Event) :
    arrivals (es ++ [e]) = arrivals es ++ e.arrival?.toList := by
  unfold arrivals
  rw [List.filterMap_append]
  rcases he : e.arrival? with _ | a
  · rw [List.filterMap_cons_none he]
    rfl
  · rw [List.filterMap_cons_some he]
    rfl

/-- The arrivals of a shorter run come first. Source: none: infrastructure. Kind: L -/
theorem arrivals_prefix {pre es : List Event} (h : pre <+: es) : arrivals pre <+: arrivals es :=
  h.filterMap _

end UDPing.Server
