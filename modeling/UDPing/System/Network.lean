import UDPing.Server.Conservation
import UDPing.System.Path

/-!
# Clients, a network and a server

* `Network`: any number of clients in their main loops, the frames on their way, and the server.
  `Action`: one iteration of one client, or what the network or the server does. The network may lose
  a frame, duplicate it and deliver it after later ones; what does not come from the clients is a
  stray.
* **`arrivals_authentic`**: what the server records was sent by a client that sends to it, with the
  GUID, the number, the start time and the time stamp of one of its iterations, or is a stray.
* **`pings_conserved`**: of each GUID, the packets recorded, lost and on their way are those sent,
  duplicated and stray.
-/

namespace UDPing.System

open Lib Client Server

/-! ## The system -/

/-- What does not change: the clients' configurations, the address and the port that the server's
socket is bound to, and its keepalive. All hosts have one ABI.
Source: `client.cc`, `main`; `server.cc`, `main`
Kind: D -/
structure Site (ι : Type*) where
  abi : Abi
  client : ι → ClientConfig
  addr : UInt32
  port : UInt16
  keepalive : ℤ

/-- Source: `client.cc`, `main`; `server.cc`, `main`. Kind: D -/
structure Network (ι : Type*) where
  clients : ι → ClientSessionList
  /-- The frames on their way, those in the server's socket included. -/
  inFlight : List Bytes
  server : Process

/-- Source: `client.cc`, `main`; `server.cc`, `main`. Kind: D -/
inductive Action (ι : Type*) where
  /-- An iteration of a client's main loop; `outboundFrame` is what the frame's memory held. -/
  | iterate (i : ι) (t : Tick) (outboundFrame : Frame)
  | lose (k : ℕ)
  | duplicate (k : ℕ)
  /-- The server's main loop reads the datagram in frame `k`. -/
  | deliver (k : ℕ) (c : Reception)
  /-- The server's main loop reads a datagram of no client, or fails to read. -/
  | stray (c : Reception)
  | handleAlarm (now : Time)

namespace Site

variable {ι : Type*} [DecidableEq ι] (S : Site ι)

/-- The datagram that the server's socket gets of a frame. Source: none: environment. Kind: D -/
def hear (frame : Bytes) : Option Datagram := System.hear S.abi.endian S.addr S.port frame

/-- The frames that an action sends. Source: `client.cc`, `main`. Kind: D -/
def sends (s : Network ι) : Action ι → List Bytes
  | .iterate i t outboundFrame =>
      (((s.clients i).iterate S.abi t).1.bind fun out =>
        sendMessage S.abi.endian outboundFrame out.2).toList
  | _ => []

/-- The frames that the network duplicates. Source: none: environment. Kind: D -/
def copies (s : Network ι) : Action ι → List Bytes
  | .duplicate k => s.inFlight[k]?.toList
  | _ => []

/-- The frames that the network loses. Source: none: environment. Kind: D -/
def loses (s : Network ι) : Action ι → List Bytes
  | .lose k => s.inFlight[k]?.toList
  | _ => []

/-- The frames that reach the server. Source: none: environment. Kind: D -/
def delivers (s : Network ι) : Action ι → List Bytes
  | .deliver k _ => s.inFlight[k]?.toList
  | _ => []

/-- The inputs of the server's process. Source: `server.cc`, `main`. Kind: D -/
def inputs (s : Network ι) : Action ι → List Input
  | .deliver k c =>
      ((s.inFlight[k]?).bind S.hear).toList.map fun d =>
        .readNextPacket { c with datagram := some d }
  | .stray c => [.readNextPacket c]
  | .handleAlarm now => [.handleAlarm now]
  | _ => []

/-- The strays that the server records. Source: none: specification. Kind: D -/
def strays (s : Network ι) : Action ι → List Arrival
  | .stray c => arrivals (s.server.emit S.abi (.readNextPacket c))
  | _ => []

/-- Source: `client.cc`, `main`; `server.cc`, `main`. Kind: D -/
def step (s : Network ι) (a : Action ι) : Network ι where
  clients :=
    match a with
    | .iterate i t _ => Function.update s.clients i ((s.clients i).iterate S.abi t).2
    | _ => s.clients
  inFlight :=
    match a with
    | .lose k => s.inFlight.eraseIdx k
    | .deliver k _ => s.inFlight.eraseIdx k
    | a => s.inFlight ++ (S.sends s a ++ copies s a)
  server := (S.inputs s a).foldl (Process.step S.abi) s.server

/-- The system, from its start on. Source: `client.cc`, `main`; `server.cc`, `main`. Kind: D -/
def machine : EventMachine (Network ι) (Action ι) where
  init :=
    { clients := fun i => (S.client i).start S.abi
      inFlight := []
      server := (process S.abi S.keepalive).init }
  step := S.step

/-- The frames sent. Source: none: specification. Kind: D -/
def sent (es : List (Action ι)) : List Bytes := S.machine.trace S.sends es

/-- The frames duplicated. Source: none: specification. Kind: D -/
def copied (es : List (Action ι)) : List Bytes := S.machine.trace copies es

/-- The frames lost. Source: none: specification. Kind: D -/
def lost (es : List (Action ι)) : List Bytes := S.machine.trace loses es

/-- The frames that reached the server. Source: none: specification. Kind: D -/
def delivered (es : List (Action ι)) : List Bytes := S.machine.trace delivers es

/-- What the server's process met. Source: none: specification. Kind: D -/
def served (es : List (Action ι)) : List Input := S.machine.trace S.inputs es

/-- What the session manager did. Source: none: specification. Kind: D -/
def events (es : List (Action ι)) : List Event := Server.events S.abi S.keepalive (S.served es)

/-- The packets recorded that no client sent. Source: none: specification. Kind: D -/
def strayed (es : List (Action ι)) : List Arrival := S.machine.trace S.strays es

/-- A frame holds a datagram for the server with the GUID `g`. Source: none: specification. Kind: D -/
def bears (g : Bytes) (frame : Bytes) : Bool :=
  (S.hear frame).any fun d => (d.header S.abi fun _ => 0).guid = g

end Site

/-- The iterations of a client. Source: none: specification. Kind: D -/
def ticksOf {ι : Type*} [DecidableEq ι] (i : ι) (es : List (Action ι)) : List Tick :=
  es.filterMap fun
    | .iterate j t _ => if j = i then some t else none
    | _ => none

namespace Site

variable {ι : Type*} [DecidableEq ι] {S : Site ι} {es : List (Action ι)}

/-- No clock of a client is in the first interval of the epoch. Source: none: environment. Kind: D -/
def Clocked (S : Site ι) (es : List (Action ι)) : Prop := ∀ i, ∀ t ∈ ticksOf i es, (S.client i).Clocked t

/-! ## Parts of a run -/

/-- The server's part. Source: `server.cc`, `main`. Kind: L -/
theorem follows_process (S : Site ι) :
    S.machine.Follows S.inputs (process S.abi S.keepalive) Network.server :=
  ⟨rfl, fun _ _ => rfl⟩

theorem server_run (S : Site ι) (es : List (Action ι)) :
    (S.machine.run es).server = (process S.abi S.keepalive).run (S.served es) :=
  S.follows_process.run es

theorem manager_run (S : Site ι) (es : List (Action ι)) :
    (S.machine.run es).server.manager = (Server.machine S.keepalive).run (S.events es) := by
  rw [server_run]
  exact (process_follows S.abi S.keepalive).run _

/-- The iterations after one action more. Source: none: specification. Kind: L -/
theorem ticksOf_concat (i : ι) (es : List (Action ι)) (a : Action ι) :
    ticksOf i (es ++ [a]) = ticksOf i es ++ ticksOf i [a] := List.filterMap_append

/-- A client's part. Source: `client.cc`, `main`. Kind: L -/
theorem clients_run (S : Site ι) (i : ι) {ticks : ℕ → Tick} {es : List (Action ι)}
    (hticks : ∀ k t, (ticksOf i es)[k]? = some t → ticks k = t) :
    (S.machine.run es).clients i =
      ((S.client i).start S.abi).before S.abi ticks (ticksOf i es).length := by
  induction es using List.reverseRecOn with
  | nil => rfl
  | append_singleton es a ih =>
      have hpre := ih fun k t hk => hticks k t (by
        rw [ticksOf_concat]
        exact List.getElem?_append_left (List.getElem?_eq_some_iff.mp hk).1 ▸ hk)
      rw [ticksOf_concat] at hticks ⊢
      have hsame : ticksOf i [a] = [] → (S.step (S.machine.run es) a).clients i =
          (S.machine.run es).clients i → ((S.machine.run (es ++ [a])).clients i =
            ((S.client i).start S.abi).before S.abi ticks (ticksOf i es ++ ticksOf i [a]).length) := by
        intro hnone hstep
        rw [EventMachine.run_concat, hnone, List.append_nil, ← hpre]
        exact hstep
      rcases a with ⟨j, t, f⟩ | k | k | ⟨k, c⟩ | c | now
      · by_cases hj : j = i
        · subst hj
          have hone : ticksOf j [Action.iterate j t f] = [t] := by simp [ticksOf]
          have htick : ticks (ticksOf j es).length = t := hticks _ t (by
            rw [hone, List.getElem?_append_right le_rfl, Nat.sub_self]
            rfl)
          rw [EventMachine.run_concat, hone, List.length_append]
          change Function.update (S.machine.run es).clients j _ j = _
          rw [Function.update_self, hpre, ← htick]
          rfl
        · refine hsame (by simp [ticksOf, hj]) ?_
          exact Function.update_of_ne (Ne.symm hj) _ _
      · exact hsame rfl rfl
      · exact hsame rfl rfl
      · exact hsame rfl rfl
      · exact hsame rfl rfl
      · exact hsame rfl rfl

/-! ## What is on its way -/

/-- One element less, and that element. Source: none: infrastructure. Kind: L -/
theorem eraseIdx_append_perm {α : Type*} (l : List α) (k : ℕ) :
    (l.eraseIdx k ++ l[k]?.toList).Perm l := by
  rcases Nat.lt_or_ge k l.length with hlt | hge
  · rw [List.getElem?_eq_getElem hlt]
    exact (List.perm_append_singleton _ _).trans (List.getElem_cons_eraseIdx_perm hlt)
  · rw [List.getElem?_eq_none hge, List.eraseIdx_of_length_le hge, Option.toList_none,
      List.append_nil]

/-- **The balance of frames.** Source: none: environment. Kind: L -/
theorem frames_balance (S : Site ι) (es : List (Action ι)) :
    ((S.machine.run es).inFlight ++ (S.lost es ++ S.delivered es)).Perm
      (S.sent es ++ S.copied es) := by
  have hstep : ∀ (s : Network ι) (a : Action ι),
      ((S.step s a).inFlight ++ (loses s a ++ delivers s a)).Perm
        (s.inFlight ++ (S.sends s a ++ copies s a)) := by
    intro s a
    have hadd : ∀ new : List Bytes, (s.inFlight ++ new ++ []).Perm (s.inFlight ++ new) := by
      intro new
      rw [List.append_nil]
    rcases a with ⟨i, t, f⟩ | k | k | ⟨k, c⟩ | c | now
    · exact hadd _
    · change (s.inFlight.eraseIdx k ++ (s.inFlight[k]?.toList ++ [])).Perm (s.inFlight ++ [])
      rw [List.append_nil, List.append_nil]
      exact eraseIdx_append_perm s.inFlight k
    · exact hadd _
    · change (s.inFlight.eraseIdx k ++ s.inFlight[k]?.toList).Perm (s.inFlight ++ [])
      rw [List.append_nil]
      exact eraseIdx_append_perm s.inFlight k
    · exact hadd _
    · exact hadd _
  calc ((S.machine.run es).inFlight ++ (S.lost es ++ S.delivered es)).Perm
        ((S.machine.run es).inFlight ++
          S.machine.trace (fun s a => loses s a ++ delivers s a) es) :=
        (EventMachine.trace_append_perm loses delivers es).symm.append_left _
    _ |>.Perm ([] ++ S.machine.trace (fun s a => S.sends s a ++ copies s a) es) :=
        EventMachine.perm_balance hstep es
    _ |>.Perm (S.sent es ++ S.copied es) := EventMachine.trace_append_perm S.sends copies es

/-- What is on its way was sent. Source: none: environment. Kind: L -/
theorem mem_sent_of_mem_inFlight (S : Site ι) {es : List (Action ι)} {frame : Bytes}
    (h : frame ∈ (S.machine.run es).inFlight) : frame ∈ S.sent es := by
  induction es using List.reverseRecOn with
  | nil => exact absurd h List.not_mem_nil
  | append_singleton es a ih =>
      rw [sent, EventMachine.trace_concat, List.mem_append]
      rw [EventMachine.run_concat] at h
      have herase : ∀ k, frame ∈ (S.machine.run es).inFlight.eraseIdx k → frame ∈ S.sent es :=
        fun k hk => ih (List.mem_of_mem_eraseIdx hk)
      have hnew : frame ∈ (S.machine.run es).inFlight ++
          (S.sends (S.machine.run es) a ++ copies (S.machine.run es) a) →
            frame ∈ S.sent es ∨ frame ∈ S.sends (S.machine.run es) a := by
        intro hmem
        rcases List.mem_append.mp hmem with hold | hmem
        · exact Or.inl (ih hold)
        · rcases List.mem_append.mp hmem with hsend | hcopy
          · exact Or.inr hsend
          · refine Or.inl (ih ?_)
            cases a with
            | duplicate k => exact List.mem_of_getElem? (Option.mem_toList.mp hcopy)
            | _ => exact absurd hcopy List.not_mem_nil
      rcases a with ⟨i, t, f⟩ | k | k | ⟨k, c⟩ | c | now
      · exact hnew h
      · exact Or.inl (herase k h)
      · exact hnew h
      · exact Or.inl (herase k h)
      · exact hnew h
      · exact hnew h

/-! ## What is sent -/

/-- The sender of the packet of iteration `x.2` of the client `x.1`.
Source: none: specification
Kind: D -/
def sender (S : Site ι) (es : List (Action ι)) (x : ι × ℕ) : Client.Sender :=
  (S.client x.1).senderAt ((S.client x.1).ticks (ticksOf x.1 es)) x.2

/-- The frame is that of iteration `x.2` of the client `x.1`. Source: none: specification. Kind: D -/
def FrameOf (S : Site ι) (es : List (Action ι)) (x : ι × ℕ) (frame : Bytes) : Prop :=
  x.2 < (ticksOf x.1 es).length ∧ ∃ outboundFrame msg,
    sendMessage S.abi.endian outboundFrame msg = some frame ∧
    (S.client x.1).ports[(S.client x.1).slot x.2]? = some msg.srcPort ∧
    Probes S.abi (S.client x.1).parent (S.sender es x)
      ((S.client x.1).ticks (ticksOf x.1 es) x.2).ts msg

/-- **What an iteration sends** is its packet's frame. Source: `client.cc`, `main`. Kind: P -/
theorem exists_frameOf (hclock : S.Clocked es) {pre : List (Action ι)} {i : ι} {t : Tick}
    {f : Frame} (hpre : pre ++ [.iterate i t f] <+: es) :
    ∃ frame, S.sends (S.machine.run pre) (.iterate i t f) = [frame] ∧
      S.FrameOf es (i, (ticksOf i pre).length) frame := by
  obtain ⟨post, hpost⟩ := hpre
  have hsplit : ticksOf i es = ticksOf i pre ++ t :: ticksOf i post := by
    rw [← hpost, List.append_assoc]
    simp [ticksOf]
  have htick : (S.client i).ticks (ticksOf i es) (ticksOf i pre).length = t :=
    ClientConfig.ticks_of_getElem? (by
      rw [hsplit, List.getElem?_append_right le_rfl, Nat.sub_self]
      rfl)
  have hclient := @clients_run ι _ S i ((S.client i).ticks (ticksOf i es)) pre
    fun k t hk => ClientConfig.ticks_of_getElem? (by
      rw [hsplit]
      exact List.getElem?_append_left (List.getElem?_eq_some_iff.mp hk).1 ▸ hk)
  obtain ⟨rolled, msg, hsent, hport, hmac, hprobes⟩ := (S.client i).sent_probes S.abi
    (ClientConfig.clocked_ticks (hclock i)) (ticksOf i pre).length
  obtain ⟨frame, hframe⟩ : ∃ frame, sendMessage S.abi.endian f msg = some frame :=
    Option.isSome_iff_exists.mp (by rwa [sendMessage, Option.isSome_map])
  refine ⟨frame, ?_, ?_, f, msg, hframe, hport, hprobes⟩
  · change (Option.bind (((S.machine.run pre).clients i).iterate S.abi t).1 _).toList = _
    rw [ClientSessionList.sent, htick] at hsent
    rw [hclient, hsent, Option.bind_some, hframe, Option.toList_some]
  · rw [hsplit, List.length_append, List.length_cons]
    dsimp only
    omega

/-- Every frame sent is the packet of one iteration of one client.
Source: `client.cc`, `main`
Kind: L -/
theorem exists_frameOf_of_mem_sent (hclock : S.Clocked es) {frame : Bytes}
    (h : frame ∈ S.sent es) : ∃ x, S.FrameOf es x frame := by
  obtain ⟨pre, a, hpre, hsend⟩ := (S.machine.mem_trace _).mp h
  cases a with
  | iterate i t f =>
      obtain ⟨frame', hone, hframe⟩ := exists_frameOf hclock hpre
      rw [hone] at hsend
      obtain rfl := List.mem_singleton.mp hsend
      exact ⟨_, hframe⟩
  | _ => exact absurd hsend List.not_mem_nil

/-- What the server's host hears of a frame that was sent, is well formed and shows one header.
Source: `clientsession.cc`, `sendPacket`; `serversession.cc`, `readNextPacket`
Kind: L -/
theorem FrameOf.wellFormed {x : ι × ℕ} {frame : Bytes} (h : S.FrameOf es x frame) {d : Datagram}
    (hd : S.hear frame = some d) :
    d.WellFormed S.abi ∧
      ((S.client x.1).parent.dstAddr = S.addr ∧
        UInt16.ofInt (S.client x.1).parent.dstPort = S.port) ∧
      d.addr = (S.client x.1).parent.srcAddr ∧
      (∃ port, (S.client x.1).ports[(S.client x.1).slot x.2]? = some port ∧
        d.port = UInt16.ofInt port) ∧
      ∃ size, ∀ buf, d.header S.abi buf = headerOf (S.sender es x)
        (UInt32.ofInt ((S.client x.1).ticks (ticksOf x.1 es) x.2).ts.tvSec)
        (UInt64.ofInt ((S.client x.1).ticks (ticksOf x.1 es) x.2).ts.tvNsec) size := by
  obtain ⟨-, f, msg, hframe, hport, hprobes⟩ := h
  rw [hear, hprobes.hear hframe] at hd
  split_ifs at hd with hdst
  obtain rfl := Option.some.inj hd
  obtain ⟨hwf, hheader⟩ := hprobes.wellFormed (S.client x.1).parent.srcAddr (UInt16.ofInt msg.srcPort)
  exact ⟨hwf, hdst, rfl, ⟨_, hport, rfl⟩, _, hheader⟩

/-! ## What is recorded -/

/-- **Authenticity.** What the server records, whatever the network does, is a packet of one iteration
of one client that sends to this server: it comes from a port of that client, carries the GUID, the
start time and the number of the session whose turn it was and that iteration's time stamp, and the
name is one found for the client's address. Else it is a stray.
Source: `client.cc`, `main`; `server.cc`, `main`; `serversession.cc`, `readNextPacket`
Kind: P -/
theorem arrivals_authentic (S : Site ι) {es : List (Action ι)} (hclock : S.Clocked es) {a : Arrival}
    (ha : a ∈ arrivals (S.events es)) :
    (∃ c d peer, Action.stray c ∈ es ∧ c.accepted S.abi = some d ∧ a = c.arrival S.abi d peer) ∨
    ∃ i k, k < (ticksOf i es).length ∧
      ((S.client i).parent.dstAddr = S.addr ∧ UInt16.ofInt (S.client i).parent.dstPort = S.port) ∧
      (∃ port, (S.client i).ports[(S.client i).slot k]? = some port ∧ a.port = UInt16.ofInt port) ∧
      (∃ size, a.ph = headerOf ((S.client i).senderAt ((S.client i).ticks (ticksOf i es)) k)
        (UInt32.ofInt ((S.client i).ticks (ticksOf i es) k).ts.tvSec)
        (UInt64.ofInt ((S.client i).ticks (ticksOf i es) k).ts.tvNsec) size) ∧
      ∃ ins, ins <+: S.served es ∧ a.peer = nameOf S.abi (S.client i).parent.srcAddr ins := by
  obtain ⟨ins, c, d, hins, hacc, rfl⟩ := exists_reception_of_mem_arrivals ha
  have hmem : Input.readNextPacket c ∈ S.served es :=
    hins.subset (List.mem_append_right _ (List.mem_singleton_self _))
  obtain ⟨pre, act, hpre, hinput⟩ := (S.machine.mem_trace _).mp hmem
  have hact : act ∈ es := hpre.subset (List.mem_append_right _ (List.mem_singleton_self _))
  rcases act with ⟨i, t, f⟩ | k | k | ⟨k, c'⟩ | c' | now
  · exact absurd hinput List.not_mem_nil
  · exact absurd hinput List.not_mem_nil
  · exact absurd hinput List.not_mem_nil
  · obtain ⟨d', hd', hc⟩ := List.mem_map.mp hinput
    obtain ⟨frame, hframe, hhear⟩ := Option.bind_eq_some_iff.mp (Option.mem_toList.mp hd')
    obtain rfl := Input.readNextPacket.inj hc
    have hsent : frame ∈ S.sent es :=
      (S.machine.trace_prefix _ ((List.prefix_append pre _).trans hpre)).subset
        (S.mem_sent_of_mem_inFlight (List.mem_of_getElem? hframe))
    obtain ⟨⟨i, n⟩, hframeOf⟩ := exists_frameOf_of_mem_sent hclock hsent
    obtain ⟨hwf, hdst, haddr, hport, size, hheader⟩ := hframeOf.wellFormed hhear
    obtain rfl : d' = d := Option.some.inj (Option.filter_eq_some_iff.mp hacc).1
    refine Or.inr ⟨i, n, hframeOf.1, hdst, hport, ⟨size, hheader _⟩, _, hins, ?_⟩
    rw [← haddr]
    rfl
  · obtain rfl := Input.readNextPacket.inj (List.mem_singleton.mp hinput)
    exact Or.inl ⟨c, d, _, hact, hacc, rfl⟩
  · exact Input.noConfusion (List.mem_singleton.mp hinput)

/-- What an action makes the session manager do. Source: `server.cc`, `main`. Kind: L -/
theorem events_concat (S : Site ι) (es : List (Action ι)) (act : Action ι) :
    S.events (es ++ [act]) = S.events es ++ (process S.abi S.keepalive).traceFrom
      (Process.emit S.abi) (S.machine.run es).server (S.inputs (S.machine.run es) act) := by
  have hserved : S.served (es ++ [act]) = S.served es ++ S.inputs (S.machine.run es) act :=
    EventMachine.trace_concat ..
  rw [events, hserved, server_run]
  exact EventMachine.traceFrom_append ..

omit [DecidableEq ι] in
theorem inputs_deliver (S : Site ι) (s : Network ι) (k : ℕ) (c : Reception) :
    S.inputs s (.deliver k c) = ((s.inFlight[k]?).bind S.hear).toList.map fun d =>
      .readNextPacket { c with datagram := some d } := rfl

omit [DecidableEq ι] in
theorem delivers_deliver (s : Network ι) (k : ℕ) (c : Reception) :
    delivers s (.deliver k c) = s.inFlight[k]?.toList := rfl

/-- **One action**: the packets recorded with a GUID are those delivered and the strays.
Source: `serversession.cc`, `readNextPacket`
Kind: L -/
theorem carrying_step (hclock : S.Clocked es) (act : Action ι) (g : Bytes) :
    (carrying (arrivals ((process S.abi S.keepalive).traceFrom (Process.emit S.abi)
        (S.machine.run es).server (S.inputs (S.machine.run es) act))) g).length =
      (delivers (S.machine.run es) act).countP (S.bears g) +
        (carrying (S.strays (S.machine.run es) act) g).length := by
  rcases act with ⟨i, t, f⟩ | k | k | ⟨k, c⟩ | c | now
  · rfl
  · rfl
  · rfl
  · rw [inputs_deliver, delivers_deliver]
    rcases hframe : (S.machine.run es).inFlight[k]? with _ | frame
    · rfl
    · rcases hhear : S.hear frame with _ | d
      · have hbears : S.bears g frame = false := by
          rw [bears, hhear]
          rfl
        rw [Option.bind_some, hhear, Option.toList_some, List.countP_singleton, hbears]
        rfl
      · obtain ⟨x, hframeOf⟩ := exists_frameOf_of_mem_sent hclock
          (S.mem_sent_of_mem_inFlight (List.mem_of_getElem? hframe))
        obtain ⟨hwf, -, -, -, size, hheader⟩ := hframeOf.wellFormed hhear
        have hacc : ({ c with datagram := some d } : Reception).accepted S.abi = some d :=
          Option.filter_eq_some_iff.mpr ⟨rfl, decide_eq_true hwf⟩
        have hbears : S.bears g frame = decide ((d.header S.abi c.buf).guid = g) := by
          rw [bears, hhear, hheader c.buf, ← hheader fun _ => 0]
          rfl
        rw [Option.bind_some, hhear, Option.toList_some, List.map_singleton, Option.toList_some,
          List.countP_singleton, hbears, EventMachine.traceFrom, EventMachine.traceFrom,
          List.append_nil, Process.emit_of_accepted hacc]
        unfold carrying
        rw [← List.countP_eq_length_filter]
        exact List.countP_singleton.trans (Nat.add_zero _).symm
  · rw [inputs, EventMachine.traceFrom, EventMachine.traceFrom, List.append_nil]
    exact (Nat.zero_add _).symm
  · rfl

/-- The packets recorded with a GUID are those delivered and the strays.
Source: `serversession.cc`, `readNextPacket`
Kind: L -/
theorem length_carrying (hclock : S.Clocked es) (g : Bytes) :
    (carrying (arrivals (S.events es)) g).length =
      (S.delivered es).countP (S.bears g) + (carrying (S.strayed es) g).length := by
  induction es using List.reverseRecOn with
  | nil => rfl
  | append_singleton es act ih =>
      have hpre : S.Clocked es := fun i t ht => hclock i t (by
        rw [ticksOf_concat]
        exact List.mem_append_left _ ht)
      have hstep := carrying_step hpre act g
      unfold carrying arrivals at ih hstep ⊢
      rw [events_concat, delivered, strayed, EventMachine.trace_concat, EventMachine.trace_concat,
        List.filterMap_append, List.filter_append, List.filter_append, List.length_append,
        List.length_append, List.countP_append]
      have := ih hpre
      unfold delivered strayed at this
      omega

/-- **Conservation of pings**, across the whole system. Of each GUID, the packets that the server
recorded, those that the network lost and those on their way are the ones the clients sent, the
network's duplicates and the strays; and the server's reports and its live session count the packets
recorded, as long as there are fewer than `2 ^ 31`.
Source: `client.cc`, `main`; `server.cc`, `main`; `serversession.cc`, `readNextPacket`, `receivePing`,
`sweepServerSessions`
Kind: P -/
theorem pings_conserved (S : Site ι) {es : List (Action ι)} (hclock : S.Clocked es)
    (hmem : (process S.abi S.keepalive).Always (Input.Allocates S.abi) (S.served es)) (g : Bytes) :
    (carrying (arrivals (S.events es)) g).length + (S.lost es).countP (S.bears g) +
        (S.machine.run es).inFlight.countP (S.bears g) =
      (S.sent es).countP (S.bears g) + (S.copied es).countP (S.bears g) +
        (carrying (S.strayed es) g).length ∧
    ((carrying (arrivals (S.events es)) g).length < 2 ^ 31 →
      total Stats.count (S.machine.run es).server.manager g + (S.lost es).countP (S.bears g) +
          (S.machine.run es).inFlight.countP (S.bears g) =
        (S.sent es).countP (S.bears g) + (S.copied es).countP (S.bears g) +
          (carrying (S.strayed es) g).length) := by
  have hframes := (S.frames_balance es).countP_eq (S.bears g)
  simp only [List.countP_append] at hframes
  have hrecorded := length_carrying hclock g
  have hbalance : (carrying (arrivals (S.events es)) g).length + (S.lost es).countP (S.bears g) +
        (S.machine.run es).inFlight.countP (S.bears g) =
      (S.sent es).countP (S.bears g) + (S.copied es).countP (S.bears g) +
        (carrying (S.strayed es) g).length := by omega
  refine ⟨hbalance, fun hlt => ?_⟩
  have hpoint : Point S.keepalive (arrivals (S.events es)) (S.machine.run es).server.manager := by
    rw [manager_run]
    exact .between (admissible_events hmem)
  have hcount := hpoint.total_count hlt
  omega

end Site

/-! ## A run -/

/-- One client with one port. Source: `client.cc`, `main`; `server.cc`, `main`. Kind: D -/
def exampleSite : Site Unit where
  abi := lp64 .little
  client := fun _ =>
    { parent := exampleParent
      ports := [4000]
      macs := [⟨[2, 0, 0, 0, 0, 8], rfl⟩]
      fresh := fun _ => ⟨fun _ => 170, 60, id⟩
      ports_ne_nil := List.cons_ne_nil _ _
      macs_ne_nil := List.cons_ne_nil _ _
      interval_pos := le_of_lt (show (1 : ℤ) < 60 by decide)
      maxPacketSize_range := ⟨show (1 : ℤ) ≤ 1500 by decide, show (1500 : ℤ) ≤ 2000 by decide⟩ }
  addr := exampleParent.dstAddr
  port := 5000
  keepalive := 60

/-- Two packets are sent and the first one is duplicated. Its copy is delivered before the second
packet, which is lost, and the packet itself is still on its way.
Source: `client.cc`, `main`; `server.cc`, `main`
Kind: D -/
def exampleRun : List (Action Unit) :=
  let tick (n : ℕ) : Tick := ⟨100 + n, id, (probe [] 0 0).rcvd, n⟩
  [.iterate () (tick 0) exampleFrame, .iterate () (tick 1) exampleFrame, .duplicate 0,
    .deliver 2 ⟨none, fun _ => 7, fun _ => ascii "h", (probe [] 0 0).rcvd, 102, ⟨0, 0⟩, 102⟩, .lose 1]

theorem clocked_exampleRun : exampleSite.Clocked exampleRun := by
  intro i t ht
  change t ∈ [_, _] at ht
  rcases List.mem_pair.mp ht with rfl | rfl
  · exact show (60 : ℤ) ≤ 100 + 0 by decide
  · exact show (60 : ℤ) ≤ 100 + 1 by decide

theorem arrivals_authentic_exampleRun :
    ∃ a ∈ arrivals (exampleSite.events exampleRun), a.port = 4000 := by
  have hne : (arrivals (exampleSite.events exampleRun)).length = 1 := by decide +kernel
  obtain ⟨a, ha⟩ := List.exists_mem_of_length_eq_add_one hne
  refine ⟨a, ha, ?_⟩
  rcases exampleSite.arrivals_authentic clocked_exampleRun ha with
    ⟨c, -, -, hstray, -⟩ | ⟨i, k, -, -, ⟨port, hport, hport'⟩, -⟩
  · simp [exampleRun] at hstray
  · have hslot : (exampleSite.client i).slot k = 0 := Nat.mod_one k
    rw [hslot] at hport
    obtain rfl := Option.some.inj hport
    exact hport'

theorem pings_conserved_exampleRun :
    total Stats.count (exampleSite.machine.run exampleRun).server.manager
      (ascii "0123456789abcdef0123") = 1 := by
  obtain ⟨-, hcount⟩ := exampleSite.pings_conserved clocked_exampleRun (by decide +kernel)
    (ascii "0123456789abcdef0123")
  have hnumbers : (exampleSite.lost exampleRun).countP
        (exampleSite.bears (ascii "0123456789abcdef0123")) = 1 ∧
      (exampleSite.machine.run exampleRun).inFlight.countP
        (exampleSite.bears (ascii "0123456789abcdef0123")) = 1 ∧
      (exampleSite.sent exampleRun).countP
        (exampleSite.bears (ascii "0123456789abcdef0123")) = 2 ∧
      (exampleSite.copied exampleRun).countP
        (exampleSite.bears (ascii "0123456789abcdef0123")) = 1 ∧
      carrying (exampleSite.strayed exampleRun) (ascii "0123456789abcdef0123") = [] := by
    decide +kernel
  obtain ⟨hlost, hflight, hsent, hcopied, hstrayed⟩ := hnumbers
  have hlt : (carrying (arrivals (exampleSite.events exampleRun))
      (ascii "0123456789abcdef0123")).length < 2 ^ 31 := by decide +kernel
  have hbalance := hcount hlt
  rw [hlost, hflight, hsent, hcopied, hstrayed, List.length_nil] at hbalance
  norm_num at hbalance
  linarith only [hbalance]

end UDPing.System
