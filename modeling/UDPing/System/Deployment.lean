import UDPing.Agent.CommandLine
import UDPing.Agent.MainLoop
import UDPing.Client.Startup
import UDPing.System.Path

/-!
# From command lines to the system

* **`config_of_main`**: a client that reaches its loop, whatever its arguments, has the sessions of a
  `ClientConfig`: what the results about the system ask of clients is what `main` checks.
* `Listens`: what the server's `main` reads of its options.
* **`launched_client_iff`**: when a client that the agent launches starts, and with which sessions.
  `launched_server`: what a server that the agent launches listens to.
* **`deployed`**: where every client is served, it sends to the address and the port of its server, and
  its measurement interval is the server's keepalive.
-/

namespace UDPing.System

open Lib Client

/-! ## What `main` checks -/

theorem ports_of_readPorts {srcPorts : Bytes} {ports : List ℤ} (h : readPorts srcPorts = .returns ports) :
    ports.length ≤ maxSockets ∧ ∀ port ∈ ports, (minPort : ℤ) ≤ port ∧ port ≤ maxPort := by
  by_cases hall : srcPorts.all (· ∈ portBytes) = true
  · have hchars : ∀ b ∈ srcPorts, b ∈ portBytes := fun b hb =>
      of_decide_eq_true (List.all_eq_true.mp hall b hb)
    rcases readPorts_cases hchars with ⟨-, message, hread⟩ | ⟨-, -, hread⟩ | ⟨haccepted, -, hread⟩
    · cases h.symm.trans hread
    · cases h.symm.trans hread
    · obtain rfl := Outcome.returns.inj (h.symm.trans hread)
      refine ⟨haccepted.2, fun port hport => ?_⟩
      obtain ⟨item, hitem, hmem⟩ := List.mem_flatMap.mp hport
      obtain ⟨hmin, -, hmax⟩ := haccepted.1 item hitem
      simp only [portsOf, portRange, List.pure_def, List.bind_eq_flatMap, List.mem_map,
        List.mem_flatMap, List.mem_range, List.mem_singleton] at hmem
      obtain ⟨k, ⟨n, hn, rfl⟩, rfl⟩ := hmem
      omega
  · rw [readPorts, if_neg hall] at h
    cases h

/-- What `main` has checked. Source: `client.cc`, `main`. Kind: L -/
theorem ranges_of_read {o : Options} {a : Arguments} (h : Arguments.read o = .returns a) :
    (1024 ≤ a.dstPort ∧ a.dstPort ≤ 65536) ∧ (0 ≤ a.delay ∧ a.delay ≤ 1000) ∧
      (1 ≤ a.interval ∧ a.interval ≤ 900) ∧ 1 ≤ a.maxPacketSize ∧ a.maxPacketSize ≤ maxBuf := by
  simp only [Arguments.read, Outcome.bind_eq_returns, Outcome.orExit_eq_returns,
    Outcome.returns.injEq] at h
  obtain ⟨_, -, _, hport, _, -, _, -, _, -, _, -, _, hdelay, _, hinterval, _, hsize, _, -, rfl⟩ := h
  exact ⟨range_of_parseIntOption hport, range_of_parseIntOption hdelay,
    range_of_parseIntOption hinterval, range_of_parseIntOption hsize⟩

/-! ## Clients that the agent launches -/

section Launched

variable {peerIp delayMs localIp mac : Bytes}

theorem takes_clientPairs : ∀ p ∈ Agent.clientPairs peerIp delayMs localIp mac,
    takesArgument clientOptions p.1 = some true ∧ p.1 ≠ 45 := by
  have hkeys : ∀ c ∈ ascii "rpdlsnima", takesArgument clientOptions c = some true ∧ c ≠ 45 := by
    decide +kernel
  exact List.forall_mem_map.mp
    (show ∀ c ∈ (Agent.clientPairs peerIp delayMs localIp mac).map Prod.fst, _ from hkeys)

theorem parseIntOption_delay (delay : ℤ) : parseIntOption (some delayMs) true 0 1000 = some delay ↔
    (0 ≤ atoi delayMs ∧ atoi delayMs ≤ 1000) ∧ delay = atoi delayMs := by
  unfold parseIntOption
  dsimp only
  split_ifs with hrange
  · exact iff_of_false (fun h => by cases h) fun h => by omega
  · rw [Option.some.injEq]
    constructor
    · exact fun h => ⟨by omega, h.symm⟩
    · exact fun h => h.2.symm

/-- What is read of the options of a launched client. Source: `udping_agent`, `launchUDPingClient`;
`client.cc`, `main`. Kind: L -/
theorem read_clientPairs {o : Options}
    (hget : ∀ c, o.getStringOption c =
      Dict.lastValue c (Agent.clientPairs peerIp delayMs localIp mac)) (a : Arguments) :
    Arguments.read o = .returns a ↔ (0 ≤ atoi delayMs ∧ atoi delayMs ≤ 1000) ∧
      a = ⟨peerIp, 7000, localIp, ascii "7000-7009", atoi delayMs, 1, 1400, mac⟩ := by
  have hport : parseIntOption (some (ascii "7000")) true 1024 65536 = some 7000 := by decide
  have hnumber : parseIntOption (some (ascii "10")) false 1 maxSockets = some 10 := by decide
  have hexpand : expandPorts (ascii "7000") 10 = .returns (ascii "7000-7009") := by decide
  have hinterval : parseIntOption (some (ascii "1")) true 1 900 = some 1 := by decide
  have hsize : parseIntOption (some (ascii "1400")) true 1 maxBuf = some 1400 := by decide
  have hr : o.getStringOption (byteOf 'r') = some peerIp := hget _
  have hp : o.getStringOption (byteOf 'p') = some (ascii "7000") := hget _
  have hd : o.getStringOption (byteOf 'd') = some delayMs := hget _
  have hl : o.getStringOption (byteOf 'l') = some localIp := hget _
  have hs : o.getStringOption (byteOf 's') = some (ascii "7000") := hget _
  have hn : o.getStringOption (byteOf 'n') = some (ascii "10") := hget _
  have hi : o.getStringOption (byteOf 'i') = some (ascii "1") := hget _
  have hm : o.getStringOption (byteOf 'm') = some (ascii "1400") := hget _
  have ha : o.getStringOption (byteOf 'a') = some mac := hget _
  simp only [Arguments.read, Outcome.bind_eq_returns, Outcome.orExit_eq_returns,
    Outcome.returns.injEq, hr, hp, hd, hl, hs, hn, hi, hm, ha, hport, hnumber, hinterval, hsize,
    Option.some.injEq, exists_eq_left', hexpand, parseIntOption_delay]
  constructor
  · rintro ⟨delay, ⟨hrange, rfl⟩, rfl⟩
    exact ⟨hrange, rfl⟩
  · rintro ⟨hrange, rfl⟩
    exact ⟨_, ⟨hrange, rfl⟩, rfl⟩

theorem readPorts_launched : readPorts (ascii "7000-7009") = .returns (portRange 7000 7009) := by
  have hport : Numeral (ascii "7000") := ⟨by decide, by decide +kernel⟩
  have hvalue : value (ascii "7000") = 7000 := by decide
  have hexpand : expandPorts (ascii "7000") (10 : ℕ) = .returns (ascii "7000-7009") := by decide
  have hread := readPorts_expandPorts hport (by rw [hvalue]; decide) (by rw [hvalue]; decide)
    (show 1 ≤ 10 by decide) (by decide)
  have hlast : value (ascii "7000") + 10 - 1 ≤ maxPort := by
    rw [hvalue]
    decide
  rw [if_pos hlast, hexpand, hvalue] at hread
  exact hread

/-- What a client makes of the options that the agent gives it. Source: `udping_agent`,
`launchUDPingClient`; `client.cc`, `main`. Kind: P -/
theorem main_clientPairs {A : Abi} {bare : Bool} {host : Host} {st : Started} :
    main A bare host (pairWords (Agent.clientPairs peerIp delayMs localIp mac)) = .returns st ↔
      host.Privileged ∧ (0 ≤ atoi delayMs ∧ atoi delayMs ≤ 1000) ∧ ∃ dstml srcAddr dstAddr srcMac,
        MacList.construct bare mac = some dstml ∧ dstml.macs ≠ [] ∧
        host.getSockAddr localIp = some srcAddr ∧ host.getSockAddr peerIp = some dstAddr ∧
        host.getIfInfo localIp = some srcMac ∧
        st = ⟨.create A ⟨1400, 1, srcMac, srcAddr, dstAddr, 7000⟩ (portRange 7000 7009) dstml.macs
          host.fresh, atoi delayMs⟩ := by
  obtain ⟨o, ho, hget, hset⟩ := Options.create_pairs (@takes_clientPairs peerIp delayMs localIp mac)
  have hflag : o.getFlagOption (byteOf 'h') = false := hset _
  constructor
  · intro hmain
    obtain ⟨hhost, o', a, macs, parent, ports, ho', -, ha, hmacs, hparent, hports, rfl⟩ :=
      (main_returns_iff ..).mp hmain
    obtain rfl := Option.some.inj (ho.symm.trans ho')
    obtain ⟨hrange, rfl⟩ := (read_clientPairs hget a).mp ha
    obtain ⟨hne, dstml, hdstml, rfl⟩ := nextHops_eq_returns.mp hmacs
    obtain ⟨hsrc, hdst, hif, -, hsize, hinterval, hport⟩ := parent_eq_returns.mp hparent
    obtain rfl := Outcome.returns.inj (readPorts_launched.symm.trans hports)
    refine ⟨hhost, hrange, dstml, _, _, _, hdstml, hne, hsrc, hdst, hif, ?_⟩
    obtain ⟨maxPacketSize, interval, srcMac, srcAddr, dstAddr, dstPort⟩ := parent
    obtain rfl : maxPacketSize = 1400 := hsize
    obtain rfl : interval = 1 := hinterval
    obtain rfl : dstPort = 7000 := hport
    rfl
  · rintro ⟨hhost, hrange, dstml, srcAddr, dstAddr, srcMac, hdstml, hne, hsrc, hdst, hif, rfl⟩
    apply (main_returns_iff ..).mpr
    exact ⟨hhost, o, _, dstml.macs, _, _, ho, hflag, (read_clientPairs hget _).mpr ⟨hrange, rfl⟩,
      nextHops_eq_returns.mpr ⟨hne, dstml, hdstml, rfl⟩,
      parent_eq_returns.mpr ⟨hsrc, hdst, hif, hhost.socket, rfl, rfl, rfl⟩, readPorts_launched, rfl⟩

/-- **When a launched client starts, and with what**: root has to run it on a host that opens its socket
and lets it become `nobody`, `atoi` has to find its delay in the range that `main` checks for, `MacList`
an address in its next hop, and its host has to know the two hosts.
Source: `udping_agent`, `launchUDPingClient`; `client.cc`, `main`
Kind: C -/
theorem launched_client_iff (A : Abi) (bare : Bool) (host : Host) (peerIp delayMs localIp mac : Bytes)
    (hpeer : PlainWord peerIp) (hdelay : PlainWord delayMs) (hlocal : PlainWord localIp)
    (hmac : PlainWord mac) (st : Started) :
    (∃ argv, Agent.pipeline (Agent.clientLine peerIp delayMs localIp mac) =
        some [ascii "./udping_client" :: argv] ∧ main A bare host argv = .returns st) ↔
      host.Privileged ∧ (0 ≤ atoi delayMs ∧ atoi delayMs ≤ 1000) ∧ ∃ dstml srcAddr dstAddr srcMac,
        MacList.construct bare mac = some dstml ∧ dstml.macs ≠ [] ∧
        host.getSockAddr localIp = some srcAddr ∧ host.getSockAddr peerIp = some dstAddr ∧
        host.getIfInfo localIp = some srcMac ∧
        st = ⟨.create A ⟨1400, 1, srcMac, srcAddr, dstAddr, 7000⟩ (portRange 7000 7009) dstml.macs
          host.fresh, atoi delayMs⟩ := by
  rw [Agent.pipeline_clientLine hpeer hdelay hlocal hmac, ← main_clientPairs]
  simp only [Option.some.injEq, List.cons.injEq, and_true, true_and, exists_eq_left']

end Launched

/-- A host whose names all have one address. Source: none: infrastructure. Kind: D -/
def exampleHost : Host where
  getuid := 0
  getSockAddr _ := some exampleParent.srcAddr
  getIfInfo _ := some exampleParent.srcMac
  socket := true
  fresh := exampleFresh
  nobody := some 65534
  setgid := true
  setuid := true

/-- Source: none: infrastructure. Kind: D -/
def exampleMac : Bytes := ascii "02:00:00:00:00:07"

/-- The options of a client of `exampleHost`. Source: none: infrastructure. Kind: D -/
def exampleArgv : List Bytes :=
  pairWords (Agent.clientPairs (ascii "10.0.0.2") (ascii "1000") (ascii "10.0.0.1") exampleMac)

/-- What the client makes of `exampleArgv`. Source: none: infrastructure. Kind: D -/
def exampleStarted : Started where
  sessions := .create (lp64 .little)
    ⟨1400, 1, exampleParent.srcMac, exampleParent.srcAddr, exampleParent.srcAddr, 7000⟩
    (portRange 7000 7009) [⟨[2, 0, 0, 0, 0, 7], rfl⟩] exampleFresh
  delay := 1000

theorem privileged_exampleHost : exampleHost.Privileged :=
  ⟨rfl, rfl, ⟨65534, rfl, by decide⟩, rfl, rfl⟩

theorem construct_exampleMac : MacList.construct false exampleMac =
    some ⟨[⟨[2, 0, 0, 0, 0, 7], rfl⟩], 1⟩ := by
  have hcases := construct_cases false (s := exampleMac) (by decide)
  rw [show (split 44 (cString exampleMac)).mapM (readMac false) = some [⟨[2, 0, 0, 0, 0, 7], rfl⟩] by
    decide +kernel] at hcases
  exact hcases

theorem main_exampleArgv : main (lp64 .little) false exampleHost exampleArgv = .returns exampleStarted :=
  main_clientPairs.mpr ⟨privileged_exampleHost, by decide, _, _, _, _, construct_exampleMac,
    List.cons_ne_nil _ _, rfl, rfl, rfl, rfl⟩

theorem launched_client_iff_exampleHost : ∃ st, (∃ argv,
    Agent.pipeline (Agent.clientLine (ascii "10.0.0.2") (ascii "1000") (ascii "10.0.0.1") exampleMac) =
      some [ascii "./udping_client" :: argv] ∧
    main (lp64 .little) false exampleHost argv = .returns st) ∧ st.delay = 1000 := by
  refine ⟨_, (launched_client_iff (lp64 .little) false exampleHost _ _ _ exampleMac (by decide +kernel)
    (by decide +kernel) (by decide +kernel) (by decide +kernel) _).mpr ⟨privileged_exampleHost,
      by decide, _, _, _, _, construct_exampleMac, List.cons_ne_nil _ _, rfl, rfl, rfl, rfl⟩, by decide⟩

/-! ## Clients of the system -/

/-- **What is asked of clients is what `main` checks**: whatever its arguments, a client that reaches its
loop with a session has those of a `ClientConfig`.
Source: `client.cc`, `main`
Kind: C -/
theorem config_of_main (A : Abi) (bare : Bool) (host : Host) (argv : List Bytes) (st : Started)
    (h : main A bare host argv = .returns st) (hsome : st.sessions.sessions ≠ []) :
    ∃ c : ClientConfig, st.sessions = c.start A ∧
      (1024 ≤ c.parent.dstPort ∧ c.parent.dstPort ≤ 65536) ∧ c.parent.interval ≤ 900 ∧
      (0 ≤ st.delay ∧ st.delay ≤ 1000) ∧ c.ports.length ≤ maxSockets ∧
      ∀ port ∈ c.ports, (minPort : ℤ) ≤ port ∧ port ≤ maxPort := by
  obtain ⟨-, o, a, macs, parent, ports, -, -, ha, hmacs, hparent, hports, rfl⟩ :=
    (main_returns_iff ..).mp h
  obtain ⟨hdstPort, hdelay, hinterval, hsize⟩ := ranges_of_read ha
  obtain ⟨-, -, -, -, hsize', hinterval', hdstPort'⟩ := parent_eq_returns.mp hparent
  obtain ⟨hcount, hrange⟩ := ports_of_readPorts hports
  have hne : ports ≠ [] := by
    rintro rfl
    exact hsome rfl
  refine ⟨{
    parent := parent
    ports := ports
    macs := macs
    fresh := host.fresh
    ports_ne_nil := hne
    macs_ne_nil := (nextHops_eq_returns.mp hmacs).1
    interval_pos := by rw [hinterval']; exact hinterval.1
    maxPacketSize_range := by rw [hsize']; exact hsize }, rfl, ?_, ?_, hdelay, hcount, hrange⟩
  · rw [hdstPort']
    exact hdstPort
  · rw [hinterval']
    exact hinterval.2

theorem config_of_main_exampleHost : ∃ c : ClientConfig, exampleStarted.sessions = c.start (lp64 .little) ∧
    (1024 ≤ c.parent.dstPort ∧ c.parent.dstPort ≤ 65536) := by
  obtain ⟨c, hc, hport, -⟩ := config_of_main (lp64 .little) false exampleHost exampleArgv exampleStarted
    main_exampleArgv (List.ne_nil_of_length_pos (by decide))
  exact ⟨c, hc, hport⟩

/-! ## Servers -/

/-- What the server's `main` reads of its options. Source: `server.cc`, `main`. Kind: D -/
structure Listens where
  listenHost : Bytes
  listenPort : ℤ
  keepalive : ℤ
  receiveHost : Bytes
  statsdInfo : Option Bytes
  statsdTagInfo : Option Bytes
  statsdTagMetric : Option Bytes
  quiet : Bool
deriving DecidableEq

/-- Source: `server.cc`, `main`. Kind: D
Fidelity: the usage in front of the messages is not modelled -/
def Listens.main (argv : List Bytes) : Outcome Listens := do
  let o ← .orExit "" (Options.create argv (ascii "p:k:l:m:r:s:t:vq"))
  let listenHost ← .orExit "Hostname not provided\n" (o.getStringOption (byteOf 'l'))
  let listenPort ← .orExit "Port number is out of range 1024-65532\n"
    (parseIntOption (o.getStringOption (byteOf 'p')) true 1024 65536)
  let keepalive ← .orExit "Keepalive interval is out of range 1-60s\n"
    (parseIntOption (o.getStringOption (byteOf 'k')) true 1 60)
  .returns {
    listenHost, listenPort, keepalive
    receiveHost := (o.getStringOption (byteOf 'r')).getD listenHost
    statsdInfo := o.getStringOption (byteOf 's')
    statsdTagInfo := o.getStringOption (byteOf 't')
    statsdTagMetric := o.getStringOption (byteOf 'm')
    quiet := o.getFlagOption (byteOf 'q') }

/-- **What a launched server listens to.** Source: `udping_agent`, `launchUDPingServer`; `server.cc`,
`main`. Kind: P -/
theorem launched_server {localIp meshName : Bytes} (hlocal : PlainWord localIp)
    (hmesh : ∀ b ∈ meshName, isPlain b = true) :
    ∃ argv, Agent.pipeline (Agent.serverLine localIp meshName) =
        some [ascii "./udping_server" :: argv,
          [ascii "./udping_otelsender", ascii "-mesh=" ++ meshName]] ∧
      Listens.main argv = .returns ⟨localIp, 7000, 1, localIp, none, none, none, false⟩ := by
  have htakes : ∀ p ∈ Agent.serverPairs localIp,
      takesArgument (ascii "p:k:l:m:r:s:t:vq") p.1 = some true ∧ p.1 ≠ 45 := by
    have hkeys : ∀ c ∈ ascii "lpk",
        takesArgument (ascii "p:k:l:m:r:s:t:vq") c = some true ∧ c ≠ 45 := by
      decide +kernel
    exact List.forall_mem_map.mp
      (show ∀ c ∈ (Agent.serverPairs localIp).map Prod.fst, _ from hkeys)
  obtain ⟨o, ho, hget, hset⟩ := Options.create_pairs htakes
  have hl : o.getStringOption (byteOf 'l') = some localIp := hget _
  have hp : o.getStringOption (byteOf 'p') = some (ascii "7000") := hget _
  have hk : o.getStringOption (byteOf 'k') = some (ascii "1") := hget _
  have hr : o.getStringOption (byteOf 'r') = none := hget _
  have hs : o.getStringOption (byteOf 's') = none := hget _
  have ht : o.getStringOption (byteOf 't') = none := hget _
  have hm : o.getStringOption (byteOf 'm') = none := hget _
  have hq : o.getFlagOption (byteOf 'q') = false := hset _
  have hport : parseIntOption (some (ascii "7000")) true 1024 65536 = some 7000 := by decide
  have hkeepalive : parseIntOption (some (ascii "1")) true 1 60 = some 1 := by decide
  refine ⟨_, Agent.pipeline_serverLine hlocal hmesh, ?_⟩
  simp only [Listens.main, Outcome.bind_eq_returns, Outcome.orExit_eq_returns]
  refine ⟨o, ho, localIp, hl, 7000, ?_, 1, ?_, ?_⟩
  · rw [hp, hport]
  · rw [hk, hkeepalive]
  · rw [hr, hs, ht, hm, hq]
    rfl

/-! ## Clients and their servers -/

/-- **A client that is served sends to its server**: where every client is served, one that starts sends
to the address and the port that a server of its mesh listens to, the only one at this address, and its
measurement interval is the server's keepalive.
Source: `udping_agent`, `launchUDPingClient`, `launchUDPingServer`; `client.cc`, `main`; `server.cc`,
`main`
Kind: C -/
theorem deployed (A : Abi) (bare : Bool) (host : Host) (repr : ℚ → Bytes) (mac : Bytes)
    (agents : Bytes → Agent.State) (hserved : Agent.Served agents) (hostname s : Bytes)
    (p : Controller.Peer) (hclient : Agent.ClientOf (agents hostname) s p)
    (hpeer : PlainWord p.peerIp) (hdelay : PlainWord (Agent.str repr p.meshDelayMs))
    (hlocal : PlainWord p.localIp) (hmac : PlainWord mac) (hmesh : ∀ b ∈ p.meshName, isPlain b = true)
    (argv : List Bytes) (st : Started)
    (hargv : ((Agent.udpingClientCommand (.peer p)).line repr mac).bind Agent.pipeline =
      some [ascii "./udping_client" :: argv]) (hst : main A bare host argv = .returns st) :
    ∃ s', Agent.ServerOf (agents p.peerHostname) s' p.meshName p.peerIp ∧
      (∀ s'' meshName, Agent.ServerOf (agents p.peerHostname) s'' meshName p.peerIp → s'' = s') ∧
      ∃ argv' sender l, ((Agent.Command.udpingServer p.peerIp p.meshName).line repr mac).bind
          Agent.pipeline = some [ascii "./udping_server" :: argv', sender] ∧
        Listens.main argv' = .returns l ∧
        host.getSockAddr l.listenHost = some st.sessions.parent.dstAddr ∧
        l.listenPort = st.sessions.parent.dstPort ∧ l.keepalive = st.sessions.parent.interval := by
  obtain ⟨s', hserver, halone⟩ := hserved hostname s p hclient
  have hline : Agent.pipeline (Agent.clientLine p.peerIp (Agent.str repr p.meshDelayMs) p.localIp mac) =
      some [ascii "./udping_client" :: argv] := hargv
  rw [Agent.pipeline_clientLine hpeer hdelay hlocal hmac] at hline
  obtain rfl : pairWords _ = argv := by simpa using hline
  obtain ⟨-, -, dstml, srcAddr, dstAddr, srcMac, -, -, -, hdst, -, rfl⟩ := main_clientPairs.mp hst
  obtain ⟨argv', hargv', hlistens⟩ := launched_server hpeer hmesh
  exact ⟨s', hserver, halone, argv', _, _, hargv', hlistens, hdst, rfl, rfl⟩

/-- The row that the agent of `a` gets. Source: none: infrastructure. Kind: D -/
def exampleRow : Controller.Peer :=
  Controller.Peer.row ⟨1, ascii "10.0.0.1", ascii "a"⟩ ⟨2, ascii "10.0.0.2", ascii "b"⟩
    ⟨1, ascii "m", ascii "udping", .integer 1000, .integer 30, ascii "system"⟩

/-- The agents of two hosts in one mesh. Source: none: infrastructure. Kind: D -/
def exampleAgents (hostname : Bytes) : Agent.State :=
  Agent.settled (fun i => 100 + i) [] (Controller.peers Agent.ControlPlane.exampleQuiet hostname)

theorem deployed_exampleAgents : ∃ s' argv' sender l,
    Agent.ServerOf (exampleAgents (ascii "b")) s' (ascii "m") (ascii "10.0.0.2") ∧
    Agent.pipeline (Agent.serverLine (ascii "10.0.0.2") (ascii "m")) =
      some [ascii "./udping_server" :: argv', sender] ∧
    Listens.main argv' = .returns l ∧ l.listenPort = 7000 ∧ l.keepalive = 1 := by
  have hserved := Agent.served_of_servable Agent.ControlPlane.servable_exampleQuiet
    (fun _ i => 100 + i) (fun _ => []) fun hostname => List.Perm.refl (Controller.peers
      Agent.ControlPlane.exampleQuiet hostname)
  have hclient : Agent.ClientOf (exampleAgents (ascii "a")) (Agent.Target.peer exampleRow).signature
      exampleRow := (Agent.clientOf_iff ..).mpr ⟨by decide +kernel, rfl⟩
  obtain ⟨s', hserver, -, argv', sender, l, hargv', hl, -, hport, hkeepalive⟩ := deployed (lp64 .little)
    false exampleHost (fun _ => []) exampleMac exampleAgents hserved (ascii "a") _ exampleRow hclient
    (by decide +kernel) (by decide +kernel) (by decide +kernel) (by decide +kernel) (by decide +kernel)
    exampleArgv exampleStarted (Agent.pipeline_clientLine (by decide +kernel) (by decide +kernel)
      (by decide +kernel) (by decide +kernel)) main_exampleArgv
  exact ⟨s', argv', sender, l, hserver, hargv', hl, hport, hkeepalive⟩

end UDPing.System
