import UDPing.Lib.Simulation
import UDPing.Server.Receive

/-!
# The server process

* `Process`: the session manager with its `hostMap`; `Input`: an iteration of the main loop of
  `server.cc`, or the alarm between two of them.
* `Datagram.WellFormed`: what `readNextPacket` asks of a datagram, read off its bytes alone.
* `nameOf`: the name of a host, the first one that a look-up found.
* **`process_refines`**: a run of the process is a run of the session manager over the well-formed
  datagrams, whatever the receive buffer held. Each carries the name of its host, and nothing else that
  comes in leaves a trace.
-/

namespace UDPing.Server

open Lib
open Std (ExtTreeMap)

/-! ## The main loop -/

/-- Source: `serversession.h`, `ServerSessionManager`. Kind: D
Fidelity: `hostMap` apart from the other members -/
structure Process where
  manager : ServerSessionManager
  hostMap : ExtTreeMap UInt32 Bytes

/-- What an iteration of the main loop meets.
Source: `serversession.cc`, `ServerSessionManager::readNextPacket`
Kind: D -/
structure Reception where
  /-- `none`: `recvfrom` fails. -/
  datagram : Option Datagram
  /-- What the buffer on the stack held before. -/
  buf : Mem
  /-- What a look-up of a host's name would yield now. -/
  resolve : UInt32 → Bytes
  tv : Timespec
  stamp : Time
  mem : Memory
  now : Time

/-- Source: `server.cc`, `main`. Kind: D -/
inductive Input where
  | readNextPacket (c : Reception)
  | handleAlarm (now : Time)

/-- What a reading makes the session manager do.
Source: `serversession.cc`, `ServerSessionManager::readNextPacket`
Kind: D -/
def Reading.events (mem : Memory) (now : Time) : Reading → List Event
  | .ping a => [.receivePing a mem now]
  | _ => []

namespace Process

/-- The reading of an iteration, and `hostMap` after it.
Source: `serversession.cc`, `ServerSessionManager::readNextPacket`
Kind: D -/
def read (A : Abi) (p : Process) (c : Reception) : Reading × ExtTreeMap UInt32 Bytes :=
  Server.readNextPacket A c.resolve p.hostMap c.buf c.datagram c.tv c.stamp

/-- Source: `serversession.cc`, `ServerSessionManager::readNextPacket`. Kind: D -/
def readNextPacket (A : Abi) (p : Process) (c : Reception) : Process :=
  match p.read A c with
  | (.ping a, hostMap) => { manager := p.manager.receivePing a c.mem c.now, hostMap := hostMap }
  | (_, hostMap) => { p with hostMap }

/-- Source: `server.cc`, `main`. Kind: D -/
def step (A : Abi) (p : Process) : Input → Process
  | .readNextPacket c => p.readNextPacket A c
  | .handleAlarm now => { p with manager := p.manager.handleAlarm now }

/-- What an input makes the session manager do.
Source: `serversession.cc`, `ServerSessionManager::readNextPacket`, `handleAlarm`
Kind: D -/
def emit (A : Abi) (p : Process) : Input → List Event
  | .readNextPacket c => (p.read A c).1.events c.mem c.now
  | .handleAlarm now => [.handleAlarm now]

end Process

/-- The server, from its start on. Source: `server.cc`, `main`. Kind: D -/
def process (A : Abi) (keepalive : ℤ) : EventMachine Process Input where
  init := { manager := ServerSessionManager.new keepalive, hostMap := ∅ }
  step := Process.step A

/-- What the session manager does in a run. Source: `server.cc`, `main`. Kind: D -/
def events (A : Abi) (keepalive : ℤ) (ins : List Input) : List Event :=
  (process A keepalive).trace (Process.emit A) ins

/-- Where a session is made, `new` returns a free address. Source: none: environment. Kind: D -/
def Input.Allocates (A : Abi) (p : Process) (i : Input) : Prop :=
  ∀ e ∈ p.emit A i, e.Allocates p.manager

instance Input.decidableAllocates (A : Abi) (p : Process) (i : Input) : Decidable (i.Allocates A p) :=
  inferInstanceAs (Decidable (∀ e ∈ p.emit A i, e.Allocates p.manager))

/-! ## Well-formed datagrams -/

namespace Datagram

/-- The bytes that the buffer takes. Source: `recvfrom`. Kind: D -/
def received (d : Datagram) : Bytes := d.payload.take maxBuf

/-- The header that code sees in a buffer that held `buf` before.
Source: `serversession.cc`, `readNextPacket`
Kind: D -/
def header (A : Abi) (d : Datagram) (buf : Mem) : Packet := A.packet (buf.store 0 d.received) maxBuf

/-- A datagram is as long as a header at least, as long as it says, and of the protocol's version.
Source: none: specification
Kind: D -/
structure WellFormed (A : Abi) (d : Datagram) : Prop where
  sizeof_le : A.sizeofPacket ≤ d.received.length
  size_eq : (d.header A fun _ => 0).size.toNat = d.received.length
  version_eq : (d.header A fun _ => 0).protoVersion = protoVersion

instance decidableWellFormed (A : Abi) (d : Datagram) : Decidable (d.WellFormed A) :=
  decidable_of_iff (A.sizeofPacket ≤ d.received.length ∧
      (d.header A fun _ => 0).size.toNat = d.received.length ∧
      (d.header A fun _ => 0).protoVersion = protoVersion)
    ⟨fun h => ⟨h.1, h.2.1, h.2.2⟩, fun h => ⟨h.1, h.2, h.3⟩⟩

variable {A : Abi} {d : Datagram}

theorem length_received_le (d : Datagram) : d.received.length ≤ maxBuf := List.length_take_le ..

/-- The numbers in a header of full length are the datagram's.
Source: `serversession.cc`, `readNextPacket`
Kind: L -/
theorem header_numbers (hlen : A.sizeofPacket ≤ d.received.length) (buf buf' : Mem) :
    (d.header A buf).size = (d.header A buf').size ∧
      (d.header A buf).protoVersion = (d.header A buf').protoVersion := by
  have hfields := A.fields
  have hcopy : ∀ i, i < A.sizeofPacket → buf.store 0 d.received i = buf'.store 0 d.received i := by
    intro i hi
    have hlt : i < d.received.length := by omega
    have hin := Mem.store_inside (m := buf) (o := 0) hlt
    rw [← Mem.store_inside (m := buf') (o := 0) hlt, Nat.zero_add] at hin
    exact hin
  exact ⟨A.read32_congr fun i _ hi => hcopy i (by omega), hcopy _ (by omega)⟩

end Datagram

/-- A length is what the size field holds. Source: `serversession.cc`, `readNextPacket`. Kind: L -/
theorem ofInt_eq_iff {n : ℕ} (hn : n ≤ maxBuf) (size : UInt32) :
    UInt32.ofInt n = size ↔ size.toNat = n := by
  have hbuf : maxBuf = 2000 := rfl
  have hmod : ((n : ℤ) % 2 ^ 32).toNat = n := by omega
  rw [UInt32.ofInt, hmod, ← UInt32.toNat_inj, UInt32.toNat_ofNat', Nat.mod_eq_of_lt (by omega)]
  exact eq_comm

section Reading

variable {A : Abi} {d : Datagram} (resolve : UInt32 → Bytes) (hostMap : ExtTreeMap UInt32 Bytes)
  (buf : Mem) (tv : Timespec) (stamp : Time)

/-- **A well-formed datagram is accepted**, whatever the buffer held before.
Source: `serversession.cc`, `readNextPacket`
Kind: P -/
theorem readNextPacket_of_wellFormed (h : d.WellFormed A) :
    readNextPacket A resolve hostMap buf (some d) tv stamp =
      (.ping
        { ph := d.header A buf
          rcvd := tv
          peer := (hostNameOf resolve hostMap d.addr).1
          port := d.port
          stamp := stamp }, (hostNameOf resolve hostMap d.addr).2) := by
  have hle := d.length_received_le
  have hlen := h.sizeof_le
  obtain ⟨hsize, hversion⟩ := Datagram.header_numbers hlen buf fun _ => 0
  have hbuf : maxBuf = 2000 := rfl
  unfold readNextPacket recvfrom
  dsimp only
  rw [show d.payload.take maxBuf = d.received from rfl, if_neg (by omega), if_neg (by omega),
    if_neg, if_neg]
  · rfl
  · exact not_not.mpr (hversion.trans h.version_eq)
  · rw [not_not, ofInt_eq_iff hle]
    exact (congrArg UInt32.toNat hsize).trans h.size_eq

/-- **Any other datagram is refused**, and no name is looked up.
Source: `serversession.cc`, `readNextPacket`
Kind: P -/
theorem readNextPacket_of_not_wellFormed (h : ¬d.WellFormed A) :
    (∀ a, (readNextPacket A resolve hostMap buf (some d) tv stamp).1 ≠ .ping a) ∧
      (readNextPacket A resolve hostMap buf (some d) tv stamp).2 = hostMap := by
  have hle := d.length_received_le
  have hbuf : maxBuf = 2000 := rfl
  unfold readNextPacket recvfrom
  dsimp only
  rw [show d.payload.take maxBuf = d.received from rfl,
    show A.packet (buf.store 0 d.received) maxBuf = d.header A buf from rfl, if_neg (by omega)]
  by_cases hlen : A.sizeofPacket ≤ d.received.length
  · obtain ⟨hsize, hversion⟩ := Datagram.header_numbers hlen buf fun _ => 0
    rw [if_neg (by omega)]
    by_cases hsize' : UInt32.ofInt d.received.length = (d.header A buf).size
    · have hversion' : (d.header A buf).protoVersion ≠ protoVersion := fun heq =>
        h ⟨hlen, (congrArg UInt32.toNat hsize).symm.trans ((ofInt_eq_iff hle _).mp hsize'),
          hversion.symm.trans heq⟩
      rw [if_neg (not_ne_iff.mpr hsize'), if_pos hversion']
      exact ⟨fun a => Reading.noConfusion, rfl⟩
    · rw [if_pos hsize']
      exact ⟨fun a => Reading.noConfusion, rfl⟩
  · rw [if_pos (by omega)]
    exact ⟨fun a => Reading.noConfusion, rfl⟩

end Reading

/-- The datagram of an iteration, if it is well formed. Source: none: specification. Kind: D -/
def Reception.accepted (A : Abi) (c : Reception) : Option Datagram :=
  c.datagram.filter fun d => d.WellFormed A

/-- What `receivePing` gets of a well-formed datagram from a host of the name `peer`.
Source: `serversession.cc`, `ServerSessionManager::readNextPacket`
Kind: D -/
def Reception.arrival (A : Abi) (c : Reception) (d : Datagram) (peer : Bytes) : Arrival where
  ph := d.header A c.buf
  rcvd := c.tv
  peer := peer
  port := d.port
  stamp := c.stamp

section Accepted

variable {A : Abi} {c : Reception} {d : Datagram}

/-- The reading of a well-formed datagram. Source: `serversession.cc`, `readNextPacket`. Kind: L -/
theorem Process.read_of_accepted (h : c.accepted A = some d) (p : Process) :
    p.read A c = (.ping (c.arrival A d (hostNameOf c.resolve p.hostMap d.addr).1),
      (hostNameOf c.resolve p.hostMap d.addr).2) := by
  obtain ⟨hd, hwf⟩ := Option.filter_eq_some_iff.mp h
  unfold read
  rw [hd]
  exact readNextPacket_of_wellFormed _ _ _ _ _ (of_decide_eq_true hwf)

theorem Process.emit_of_accepted (h : c.accepted A = some d) (p : Process) :
    p.emit A (.readNextPacket c) =
      [.receivePing (c.arrival A d (hostNameOf c.resolve p.hostMap d.addr).1) c.mem c.now] := by
  change (p.read A c).1.events c.mem c.now = _
  rw [p.read_of_accepted h]
  rfl

/-- Any other reading changes nothing. Source: `serversession.cc`, `readNextPacket`. Kind: L -/
theorem Process.step_of_refused (h : c.accepted A = none) (p : Process) :
    p.step A (.readNextPacket c) = p ∧ p.emit A (.readNextPacket c) = [] := by
  have hread : (∀ a, (p.read A c).1 ≠ .ping a) ∧ (p.read A c).2 = p.hostMap := by
    unfold read
    rcases hd : c.datagram with _ | d
    · exact ⟨fun a => Reading.noConfusion, rfl⟩
    · refine readNextPacket_of_not_wellFormed _ _ _ _ _ fun hwf => ?_
      exact Option.filter_eq_none_iff.mp h d hd (decide_eq_true hwf)
  change p.readNextPacket A c = p ∧ (p.read A c).1.events c.mem c.now = []
  unfold readNextPacket
  generalize p.read A c = result at hread ⊢
  obtain ⟨reading, hostMap⟩ := result
  obtain ⟨hreading, rfl⟩ := hread
  cases reading with
  | ping a => exact absurd rfl (hreading a)
  | _ => exact ⟨rfl, rfl⟩

end Accepted

/-! ## Names of hosts -/

/-- The answer that a look-up of a host gets, or would get, at an input that accepts a datagram from
it.
Source: none: specification
Kind: D -/
def Input.answer? (A : Abi) (addr : UInt32) : Input → Option Bytes
  | .readNextPacket c => (c.accepted A).bind fun d =>
      if d.addr = addr then some (c.resolve addr) else none
  | .handleAlarm _ => none

/-- The name of a host: the first answer that is not empty. Source: none: specification. Kind: D -/
def nameOf (A : Abi) (addr : UInt32) (ins : List Input) : Bytes :=
  ((ins.filterMap (Input.answer? A addr)).find? fun name => name ≠ []).getD []

/-- The name of a host after one input more. Source: none: specification. Kind: L -/
theorem nameOf_concat (A : Abi) (addr : UInt32) (ins : List Input) (i : Input) :
    nameOf A addr (ins ++ [i]) =
      if nameOf A addr ins = [] then (i.answer? A addr).getD [] else nameOf A addr ins := by
  unfold nameOf
  rw [List.filterMap_append, List.find?_append]
  rcases hfirst : (ins.filterMap (Input.answer? A addr)).find? fun name => name ≠ [] with _ | name
  · rw [Option.none_or, Option.getD_none, if_pos rfl]
    rcases hanswer : i.answer? A addr with _ | name
    · rw [List.filterMap_cons_none hanswer]
      rfl
    · rw [List.filterMap_cons_some hanswer]
      by_cases hname : name = []
      · subst hname
        rfl
      · rw [List.filterMap_nil, List.find?_cons_of_pos (by simpa using hname)]
  · have hne : name ≠ [] := by simpa using List.find?_some hfirst
    rw [Option.some_or, Option.getD_some, if_neg hne]

section Runs

variable {A : Abi}

/-- One input to the process is what the session manager does at it.
Source: `server.cc`, `main`
Kind: L -/
theorem process_follows (A : Abi) (keepalive : ℤ) :
    (process A keepalive).Follows (Process.emit A) (machine keepalive) Process.manager where
  init := rfl
  step p i := by
    rcases i with c | now
    · rcases h : c.accepted A with _ | d
      · obtain ⟨hstep, hemit⟩ := p.step_of_refused h
        change (p.step A _).manager = _
        rw [hstep, hemit]
        rfl
      · change (p.readNextPacket A c).manager = _
        rw [Process.readNextPacket, p.read_of_accepted h, p.emit_of_accepted h]
        rfl
    · rfl

/-- The name that `hostMap` holds for a host, after one input more.
Source: `serversession.cc`, `readNextPacket`
Kind: L -/
theorem Process.hostMap_step (p : Process) (i : Input) (addr : UInt32) :
    (p.step A i).hostMap[addr]?.getD [] =
      if p.hostMap[addr]?.getD [] = [] then (i.answer? A addr).getD []
      else p.hostMap[addr]?.getD [] := by
  have hkept : (p.step A i).hostMap[addr]? = p.hostMap[addr]? → i.answer? A addr = none →
      (p.step A i).hostMap[addr]?.getD [] =
        if p.hostMap[addr]?.getD [] = [] then (i.answer? A addr).getD []
        else p.hostMap[addr]?.getD [] := by
    intro hsame hanswer
    rw [hsame, hanswer]
    split_ifs with hempty
    · exact hempty
    · rfl
  rcases i with c | now
  · rcases h : c.accepted A with _ | d
    · refine hkept (by rw [(p.step_of_refused h).1]) ?_
      rw [Input.answer?, h]
      rfl
    · have hmap : (p.step A (.readNextPacket c)).hostMap =
          (hostNameOf c.resolve p.hostMap d.addr).2 := by
        change (p.readNextPacket A c).hostMap = _
        rw [Process.readNextPacket, p.read_of_accepted h]
      by_cases haddr : d.addr = addr
      · subst haddr
        rw [hmap, Input.answer?, h, Option.bind_some, if_pos rfl, Option.getD_some]
        unfold hostNameOf
        dsimp only
        split_ifs with hempty
        · rw [ExtTreeMap.getElem?_insert_self]
          rfl
        · rfl
      · refine hkept ?_ ?_
        · rw [hmap]
          unfold hostNameOf
          dsimp only
          split_ifs with hempty
          · rw [ExtTreeMap.getElem?_insert, if_neg]
            rwa [Std.LawfulEqCmp.compare_eq_iff_eq]
          · rfl
        · rw [Input.answer?, h, Option.bind_some, if_neg haddr]
  · exact hkept rfl rfl

/-- `hostMap` holds the names of the hosts. Source: `serversession.cc`, `readNextPacket`. Kind: L -/
theorem hostMap_run (keepalive : ℤ) (ins : List Input) (addr : UInt32) :
    ((process A keepalive).run ins).hostMap[addr]?.getD [] = nameOf A addr ins := by
  induction ins using List.reverseRecOn with
  | nil =>
      change (∅ : ExtTreeMap UInt32 Bytes)[addr]?.getD [] = []
      rw [ExtTreeMap.getElem?_empty]
      rfl
  | append_singleton ins i ih =>
      rw [EventMachine.run_concat, nameOf_concat, ← ih]
      exact ((process A keepalive).run ins).hostMap_step i addr

/-- What a well-formed datagram makes the session manager do.
Source: `serversession.cc`, `readNextPacket`
Kind: L -/
theorem events_concat_of_accepted (keepalive : ℤ) (ins : List Input) {c : Reception} {d : Datagram}
    (h : c.accepted A = some d) :
    events A keepalive (ins ++ [.readNextPacket c]) = events A keepalive ins ++
      [.receivePing (c.arrival A d (nameOf A d.addr (ins ++ [.readNextPacket c]))) c.mem c.now] := by
  have hname : nameOf A d.addr (ins ++ [.readNextPacket c]) =
      (hostNameOf c.resolve ((process A keepalive).run ins).hostMap d.addr).1 := by
    rw [nameOf_concat, ← hostMap_run keepalive, Input.answer?, h, Option.bind_some, if_pos rfl,
      Option.getD_some]
    unfold hostNameOf
    dsimp only
    split_ifs <;> rfl
  rw [events, EventMachine.trace_concat, hname, Process.emit_of_accepted h]
  rfl

/-- Where an arrival comes from. Source: `serversession.cc`, `readNextPacket`. Kind: L -/
theorem exists_reception_of_mem_arrivals {keepalive : ℤ} {ins : List Input} {a : Arrival}
    (ha : a ∈ arrivals (events A keepalive ins)) :
    ∃ pre c d, pre ++ [.readNextPacket c] <+: ins ∧ c.accepted A = some d ∧
      a = c.arrival A d (nameOf A d.addr (pre ++ [.readNextPacket c])) := by
  obtain ⟨e, he, hea⟩ := List.mem_filterMap.mp ha
  obtain ⟨pre, i, hpre, hemit⟩ := ((process A keepalive).mem_trace _).mp he
  rcases i with c | now
  · rcases h : c.accepted A with _ | d
    · rw [(Process.step_of_refused h _).2] at hemit
      exact absurd hemit List.not_mem_nil
    · have hlast := events_concat_of_accepted keepalive pre h
      rw [events, EventMachine.trace_concat] at hlast
      rw [List.append_cancel_left hlast] at hemit
      obtain rfl := List.mem_singleton.mp hemit
      exact ⟨pre, c, d, hpre, h, (Option.some.inj hea).symm⟩
  · obtain rfl := List.mem_singleton.mp hemit
    cases hea

/-- Allocation, as the session manager sees it. Source: none: environment. Kind: L -/
theorem admissible_events {keepalive : ℤ} {ins : List Input}
    (hmem : (process A keepalive).Always (Input.Allocates A) ins) :
    Admissible keepalive (events A keepalive ins) := by
  refine ((process_follows A keepalive).always Event.Allocates ins).mpr ?_
  refine EventMachine.Always.imp (fun p i hi => ?_) hmem
  have hsingle : ∀ e, p.emit A i = [e] →
      (machine keepalive).Along Event.Allocates p.manager (p.emit A i) := by
    intro e he
    rw [he]
    exact ⟨hi e (by rw [he]; exact List.mem_singleton_self e), trivial⟩
  rcases i with c | now
  · rcases h : c.accepted A with _ | d
    · rw [(p.step_of_refused h).2]
      trivial
    · exact hsingle _ (p.emit_of_accepted h)
  · exact hsingle _ rfl

/-- **The server process is the session manager behind a filter.** A run of the process is an
admissible run of the session manager: each well-formed datagram is a call of `receivePing`, with the
first name that a look-up of its host found, whatever the receive buffer held and whatever the later
look-ups say. What fails or is refused leaves the process as it was.
Source: `server.cc`, `main`; `serversession.cc`, `readNextPacket`, `receivePing`
Kind: P -/
theorem process_refines (A : Abi) {keepalive : ℤ} {ins : List Input}
    (hmem : (process A keepalive).Always (Input.Allocates A) ins) :
    Admissible keepalive (events A keepalive ins) ∧
      ((process A keepalive).run ins).manager = (machine keepalive).run (events A keepalive ins) ∧
      ∀ pre c, pre ++ [.readNextPacket c] <+: ins →
        (∀ d, c.datagram = some d → d.WellFormed A →
          events A keepalive (pre ++ [.readNextPacket c]) = events A keepalive pre ++
            [.receivePing (c.arrival A d (nameOf A d.addr (pre ++ [.readNextPacket c]))) c.mem
              c.now]) ∧
        ((∀ d, c.datagram = some d → ¬d.WellFormed A) →
          (process A keepalive).run (pre ++ [.readNextPacket c]) = (process A keepalive).run pre ∧
            events A keepalive (pre ++ [.readNextPacket c]) = events A keepalive pre) := by
  refine ⟨admissible_events hmem, (process_follows A keepalive).run ins,
    fun pre c _ => ⟨fun d hd hwf => ?_, fun hrefused => ?_⟩⟩
  · exact events_concat_of_accepted keepalive pre
      (Option.filter_eq_some_iff.mpr ⟨hd, decide_eq_true hwf⟩)
  · have hnone : c.accepted A = none := by
      apply Option.filter_eq_none_iff.mpr
      exact fun d hd => by simpa using hrefused d hd
    obtain ⟨hstep, hemit⟩ := ((process A keepalive).run pre).step_of_refused hnone
    rw [EventMachine.run_concat, events, EventMachine.trace_concat, hemit, List.append_nil]
    exact ⟨hstep, rfl⟩

end Runs

/-- Two packets and an alarm; the host gets another name in between.
Source: `serversession.cc`, `readNextPacket`
Kind: D -/
def renamedRun : List Input :=
  let payload : Bytes :=
    1 :: 0 :: 0 :: 0 :: 7 :: 0 :: 0 :: 0 :: 97 :: List.replicate 39 0 ++ 56 :: List.replicate 7 0
  let packet (name : Bytes) (addr : Addr) (stamp : Time) : Input :=
    .readNextPacket
      { datagram := some ⟨payload, 16777343, 5000⟩
        buf := fun _ => 170
        resolve := fun _ => name
        tv := (probe [] 0 0).rcvd
        stamp := stamp
        mem := ⟨addr, 0⟩
        now := stamp }
  [packet (ascii "h") 0 5, .handleAlarm 6, packet (ascii "other") 1 100]

set_option maxRecDepth 4000 in
theorem process_refines_renamedRun :
    ((process (lp64 .little) 60).run renamedRun).manager =
        (machine 60).run (events (lp64 .little) 60 renamedRun) ∧
      (arrivals (events (lp64 .little) 60 renamedRun)).map Arrival.peer = [ascii "h", ascii "h"] := by
  obtain ⟨-, hrun, -⟩ := @process_refines (lp64 .little) 60 renamedRun (by decide)
  exact ⟨hrun, by decide⟩

end UDPing.Server
