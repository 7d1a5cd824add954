import UDPing.Client.MacList
import UDPing.Client.Ports
import UDPing.Lib.Dict
import UDPing.Lib.Getopt

/-!
# The start of a client

* `Options` (`options.cc`) over `getopt`, and `main`, the client up to its loop (`client.cc`).
* `expandPorts`: the option `n`. **`readPorts_expandPorts`**: a starting port and a number of ports are
  read back as the ports that follow one another from there, or end the program.
* **`main_returns_iff`**: what the options were when the loop is reached, for all arguments.
-/

namespace UDPing.Client

open Lib

/-! ## Options -/

/-- `none`: the null pointer. `some none`: the pointer 1. Source: `options.h`, `Options`. Kind: D -/
structure Options where
  options : UInt8 → Option (Option Bytes)

namespace Options

/-- One round of the loop; `none`: it ends the program. Source: `options.cc`, `Options::Options`.
Kind: D -/
def add (o : Options) : Opt → Option Options
  | .option opt optarg => some ⟨Function.update o.options opt (some optarg)⟩
  | .error => none

/-- `argv`: the words behind the program's name. Source: `options.cc`, `Options::Options`. Kind: D -/
def create (argv : List Bytes) (optstring : Bytes) : Option Options :=
  (getopt optstring none argv).foldlM add ⟨fun _ => none⟩

/-- Source: `options.cc`, `Options::getStringOption`. Kind: D -/
def getStringOption (o : Options) (index : UInt8) : Option Bytes := (o.options index).join

/-- Source: `options.cc`, `Options::getFlagOption`. Kind: D -/
def getFlagOption (o : Options) (index : UInt8) : Bool := (o.options index).isSome

theorem foldlM_add (pairs : List (UInt8 × Bytes)) (o : Options) :
    ∃ o', (pairs.map fun p => Opt.option p.1 (some p.2)).foldlM add o = some o' ∧
      ∀ c, o'.options c = ((Dict.lastValue c pairs).map some).or (o.options c) := by
  induction pairs generalizing o with
  | nil => exact ⟨o, rfl, fun c => rfl⟩
  | cons p pairs ih =>
      obtain ⟨o', hfold, ho'⟩ := ih ⟨Function.update o.options p.1 (some (some p.2))⟩
      refine ⟨o', hfold, fun c => ?_⟩
      have hlast : Dict.lastValue c (p :: pairs) =
          (Dict.lastValue c pairs).or (if p.1 = c then some p.2 else none) := by
        rw [← List.singleton_append, Dict.lastValue_append, Dict.lastValue_singleton]
      simp only [ho', hlast, Function.update_apply]
      by_cases hc : c = p.1
      · subst hc
        cases Dict.lastValue p.1 pairs <;> simp
      · rw [if_neg hc, if_neg (Ne.symm hc), Option.or_none]

/-- Options with their arguments, as `Options` has them. Source: `options.cc`, `Options::Options`.
Kind: L -/
theorem create_pairs {optstring : Bytes} {pairs : List (UInt8 × Bytes)}
    (hpairs : ∀ p ∈ pairs, takesArgument optstring p.1 = some true ∧ p.1 ≠ 45) :
    ∃ o, create (pairWords pairs) optstring = some o ∧
      (∀ c, o.getStringOption c = Dict.lastValue c pairs) ∧
      ∀ c, o.getFlagOption c = (Dict.lastValue c pairs).isSome := by
  obtain ⟨o, hfold, ho⟩ := foldlM_add pairs ⟨fun _ => none⟩
  have hoptions : ∀ c, o.options c = (Dict.lastValue c pairs).map some := by
    intro c
    rw [ho]
    exact Option.or_none
  refine ⟨o, ?_, fun c => ?_, fun c => ?_⟩
  · rw [create, getopt_pairs hpairs]
    exact hfold
  · rw [getStringOption, hoptions]
    cases Dict.lastValue c pairs with
    | none => rfl
    | some optarg => rfl
  · rw [getFlagOption, hoptions, Option.isSome_map]

end Options

/-! ## Outcomes -/

namespace Outcome

variable {α β : Type}

/-- Source: none: infrastructure. Kind: D -/
def bind (o : Outcome α) (f : α → Outcome β) : Outcome β :=
  match o with
  | exits message => exits message
  | undefined => undefined
  | returns a => f a

instance instMonadOutcome : Monad Outcome where
  pure := returns
  bind := bind

/-- A value, or the end of the program with a message. Source: none: infrastructure. Kind: D -/
def ofExcept : Except Bytes α → Outcome α
  | .error message => exits message
  | .ok a => returns a

/-- A value, or the end of the program. Source: none: infrastructure. Kind: D -/
def orExit (message : String) : Option α → Outcome α
  | some a => returns a
  | none => exits (ascii message)

theorem bind_eq_returns {o : Outcome α} {f : α → Outcome β} {b : β} :
    (o >>= f) = returns b ↔ ∃ a, o = returns a ∧ f a = returns b := by
  cases o with
  | exits message => exact iff_of_false (fun h => by cases h) fun ⟨_, h, _⟩ => by cases h
  | undefined => exact iff_of_false (fun h => by cases h) fun ⟨_, h, _⟩ => by cases h
  | returns a =>
      constructor
      · exact fun h => ⟨a, rfl, h⟩
      · rintro ⟨a', ⟨⟩, h⟩
        exact h

theorem map_eq_returns {o : Outcome α} {f : α → β} {b : β} :
    o.map f = returns b ↔ ∃ a, o = returns a ∧ f a = b := by
  cases o with
  | exits message => simp [map]
  | undefined => simp [map]
  | returns a => simp [map]

theorem orExit_eq_returns {message : String} {o : Option α} {a : α} :
    orExit message o = returns a ↔ o = some a := by
  cases o with
  | none => simp [orExit]
  | some a' => simp [orExit]

end Outcome

/-! ## The option `n` -/

/-- The descriptor for a starting port and a number of ports.
Source: `client.cc`, `main`
Kind: D -/
def expandPorts (srcPorts : Bytes) (numPorts : ℤ) : Outcome Bytes :=
  if 0 < atoi srcPorts ∧ 0 < numPorts ∧ srcPorts.all isDigit then
    let startingPort := atoi srcPorts
    if maxPort < startingPort ∨ startingPort < minPort then
      .exits (ascii "Starting port is out of range MIN_PORT-MAX_PORT\n")
    else
      let endingPort := startingPort + numPorts - 1
      .returns (signed startingPort ++ ascii "-" ++ signed endingPort)
  else .returns srcPorts

theorem value_decimal (n : ℕ) : value (decimal n) = n := by
  have hfold := foldl_decimal n
  simp only [Nat.mul_comm _ 10] at hfold
  exact hfold

theorem numeral_decimal (n : ℕ) : Numeral (decimal n) := by
  obtain ⟨b, s, hdecimal, -⟩ := exists_decimal_eq_cons n
  refine ⟨by rw [hdecimal]; exact List.cons_ne_nil b s, fun c hc => ?_⟩
  exact isDigit_iff.mpr (mem_decimal hc)

theorem length_decimal_le {n k : ℕ} (hk : 0 < k) (h : n < 10 ^ k) : (decimal n).length ≤ k := by
  rw [decimal, List.length_map]
  exact (Nat.length_toDigits_le_iff (by decide) hk).mpr h

theorem signed_natCast (n : ℕ) : signed n = decimal n := by
  rw [signed, if_neg (by omega), Int.natAbs_natCast]

/-- Source: `atoi`. Kind: L -/
theorem atoi_decimal {n : ℕ} (h : n < 2 ^ 31) : atoi (decimal n) = n := by
  have hmin : min (2 ^ 63 - 1) (n : ℤ) = n := by omega
  rw [atoi_digits (numeral_decimal n).2, value_decimal, hmin]
  exact cInt_of_range (by omega) (by omega)

/-- The bytes of a range. Source: `clientsession.cc`, `ClientSessionList::ClientSessionList`. Kind: L -/
theorem range_portBytes {p q : Bytes} (hp : Numeral p) (hq : Numeral q) :
    ∀ b ∈ p ++ 45 :: q, b ∈ portBytes := by
  have hdigit : ∀ b, isDigit b = true → b ∈ portBytes := by
    intro b hb
    obtain ⟨hlow, hhigh⟩ := isDigit_iff.mp hb
    have hall : ∀ k ∈ List.range 10, UInt8.ofNat (48 + k) ∈ portBytes := by decide
    have hb' : b = UInt8.ofNat (48 + (b.toNat - 48)) := by
      rw [Nat.add_sub_cancel' hlow, UInt8.ofNat_toNat]
    rw [hb']
    exact hall _ (List.mem_range.mpr (by omega))
  intro b hb
  rcases List.mem_append.mp hb with hb | hb
  · exact hdigit b (hp.2 b hb)
  · rcases List.mem_cons.mp hb with rfl | hb
    · decide
    · exact hdigit b (hq.2 b hb)

/-- A descriptor of one range. Source: `clientsession.cc`, `ClientSessionList::ClientSessionList`.
Kind: L -/
theorem readPorts_range {p q : Bytes} (hp : Numeral p) (hq : Numeral q)
    (hlength : (p ++ 45 :: q).length < 1000) :
    readPorts (p ++ 45 :: q) = .ofExcept (addRange [] (p ++ 45 :: q)) := by
  have hchars := range_portBytes hp hq
  have hall : ((p ++ 45 :: q).all (· ∈ portBytes)) = true := by
    rw [List.all_eq_true]
    exact fun b hb => decide_eq_true (hchars b hb)
  have hcomma : 44 ∉ p ++ 45 :: q := by
    have hp' := hp.notMem (show isDigit 44 = false by decide)
    have hq' := hq.notMem (show isDigit 44 = false by decide)
    simp [hp', hq']
  have hitems : itemsRead (p ++ 45 :: q) = [p ++ 45 :: q] := by
    rw [itemsRead, if_pos hlength, split_of_notMem hcomma]
    simp
  rw [readPorts, if_pos hall, readRanges_eq, tokens_srcPorts hchars, hitems, decide_eq_true hlength]
  rw [List.foldlM_cons]
  cases addRange [] (p ++ 45 :: q) with
  | error message => rfl
  | ok ports => rfl

/-- **A starting port and a number of ports**: the sessions have the ports that follow one another from
there; or the last of them is no port, and the program ends.
Source: `client.cc`, `main`; `clientsession.cc`, `ClientSessionList::ClientSessionList`
Kind: P -/
theorem readPorts_expandPorts {srcPorts : Bytes} (hport : Numeral srcPorts)
    (hmin : minPort ≤ value srcPorts) (hmax : value srcPorts ≤ maxPort) {numPorts : ℕ}
    (hone : 1 ≤ numPorts) (hmany : numPorts ≤ maxSockets) :
    (expandPorts srcPorts numPorts >>= readPorts) =
      if value srcPorts + numPorts - 1 ≤ maxPort then
        .returns (portRange (value srcPorts) (value srcPorts + numPorts - 1))
      else .exits (ascii "Port too high: " ++ signed (value srcPorts + numPorts - 1)) := by
  have hatoi := hport.atoi_eq hmax
  have hall : srcPorts.all isDigit = true := List.all_eq_true.mpr hport.2
  unfold minPort at hmin
  have hmax' := hmax
  unfold maxPort at hmax'
  unfold maxSockets at hmany
  obtain ⟨last, hlast⟩ : ∃ last : ℕ, last = value srcPorts + numPorts - 1 := ⟨_, rfl⟩
  have hcast : (value srcPorts + numPorts - 1 : ℤ) = last := by omega
  have hexpand : expandPorts srcPorts numPorts =
      .returns (decimal (value srcPorts) ++ 45 :: decimal last) := by
    unfold expandPorts
    rw [if_pos ⟨by omega, by omega, hall⟩, if_neg (by unfold maxPort minPort; omega), hatoi, hcast]
    dsimp only
    rw [signed_natCast, signed_natCast, List.append_assoc]
    rfl
  have hlength : (decimal (value srcPorts) ++ 45 :: decimal last).length < 1000 := by
    have hfirst := length_decimal_le (n := value srcPorts) (k := 5) (by decide) (by omega)
    have hsecond := length_decimal_le (n := last) (k := 5) (by decide) (by omega)
    rw [List.length_append, List.length_cons]
    omega
  have hdash := (numeral_decimal (value srcPorts)).notMem (show isDigit 45 = false by decide)
  have hbounds : bounds (decimal (value srcPorts) ++ 45 :: decimal last) =
      ((value srcPorts : ℤ), (last : ℤ)) := by
    rw [bounds_range hdash, atoi_decimal (by omega), atoi_decimal (by omega)]
  have hread := readPorts_range (numeral_decimal (value srcPorts)) (numeral_decimal last) hlength
  rw [hexpand, show (Outcome.returns _ >>= readPorts) = readPorts _ from rfl, hread, hcast]
  split_ifs with hlastPort
  · have htaken : Taken (decimal (value srcPorts) ++ 45 :: decimal last) := by
      rw [Taken, hbounds]
      unfold minPort
      unfold maxPort at hlastPort ⊢
      exact ⟨by omega, by omega, by omega⟩
    have hports : portsOf (decimal (value srcPorts) ++ 45 :: decimal last) =
        portRange (value srcPorts) last := by rw [portsOf, hbounds]
    have hcount : (portRange (value srcPorts) last).length ≤ maxSockets := by
      rw [length_portRange]
      unfold maxSockets
      omega
    rw [addRange_of_taken htaken, hports, List.nil_append, if_neg (Nat.not_lt.mpr hcount)]
    rfl
  · have hstart : isValidPort (value srcPorts : ℤ) = .ok () :=
      isValidPort_eq_ok.mpr ⟨by unfold minPort; omega, by omega⟩
    have hstop : isValidPort (last : ℤ) = .error (ascii "Port too high: " ++ signed last) := by
      unfold maxPort at hlastPort
      rw [isValidPort, if_neg (by unfold minPort; omega), if_pos (by unfold maxPort; omega)]
    rw [addRange, hbounds]
    simp only [hstart, hstop, bind, Except.bind]
    rfl

/-! ## The program -/

/-- What the program finds of its host: who runs it, the addresses of names, the MAC address of the
interface that has an address, whether a raw socket opens, and the user `nobody`, to whom it changes.
Source: `client.cc`, `main`; `clientsession.cc`, `ClientSessionList::ClientSessionList`; `protocol.cc`,
`getSockAddr`; `ifinfo.cc`, `getIfInfo`
Kind: D -/
structure Host where
  getuid : ℕ
  getSockAddr : Bytes → Option UInt32
  getIfInfo : Bytes → Option Mac
  socket : Bool
  fresh : ℕ → Fresh
  nobody : Option ℕ
  setgid : Bool
  setuid : Bool

/-- The change to `nobody`. Source: `client.cc`, `main`. Kind: D -/
def Host.becomeNobody (host : Host) : Outcome Unit :=
  if host.getuid = 0 then
    if host.nobody.any (· ≠ 0) then
      if !host.setgid then
        .exits (ascii "Couldn't change userid to nobody (setgid failed).  Terminating client\n")
      else if !host.setuid then
        .exits (ascii "Couldn't change userid to nobody (setuid failed).  Terminating client\n")
      else .returns ()
    else .exits (ascii "Couldn't change userid to nobody.  Terminating client\n")
  else .returns ()

/-- A host on which root runs the program, which can open its socket and change to `nobody`.
Source: `client.cc`, `main`; `clientsession.cc`, `ClientSessionList::ClientSessionList`
Kind: D -/
structure Host.Privileged (host : Host) : Prop where
  root : host.getuid = 0
  socket : host.socket = true
  nobody : ∃ uid, host.nobody = some uid ∧ uid ≠ 0
  setgid : host.setgid = true
  setuid : host.setuid = true

theorem Host.becomeNobody_eq_returns {host : Host} (hroot : host.getuid = 0) :
    host.becomeNobody = .returns () ↔
      (∃ uid, host.nobody = some uid ∧ uid ≠ 0) ∧ host.setgid = true ∧ host.setuid = true := by
  unfold becomeNobody
  rw [if_pos hroot]
  cases host.nobody with
  | none => simp
  | some uid =>
      by_cases huid : uid = 0
      · simp [huid]
      · cases host.setgid
        · simp [huid]
        · cases host.setuid
          · simp [huid]
          · simp [huid]

/-- What the loop starts with. Source: `client.cc`, `main`. Kind: D -/
structure Started where
  sessions : ClientSessionList
  delay : ℤ

/-- Source: `client.cc`, `main`. Kind: D -/
def clientOptions : Bytes := ascii "l:r:p:d:i:s:n:m:a:vhq"

/-- What `main` reads of its options; `srcPorts` is the descriptor that the constructor gets.
Source: `client.cc`, `main`
Kind: D -/
structure Arguments where
  dstHost : Bytes
  dstPort : ℤ
  srcIp : Bytes
  srcPorts : Bytes
  delay : ℤ
  interval : ℤ
  maxPacketSize : ℤ
  dstMac : Bytes
deriving DecidableEq

/-- Source: `client.cc`, `main`. Kind: D
Fidelity: the usage in front of the messages is not modelled -/
def Arguments.read (o : Options) : Outcome Arguments := do
  let dstHost ← .orExit "No remote hostname provided\n" (o.getStringOption (byteOf 'r'))
  let dstPort ← .orExit "Port number is out of range 1024-65532\n"
    (parseIntOption (o.getStringOption (byteOf 'p')) true 1024 65536)
  let srcIp ← .orExit "No local IP provided\n" (o.getStringOption (byteOf 'l'))
  let srcPorts ← .orExit "Please define a valid source port" (o.getStringOption (byteOf 's'))
  let numPorts ← .orExit "Number of ports is out of range 1-MAX_SOCKETS\n"
    (parseIntOption (o.getStringOption (byteOf 'n')) false 1 maxSockets)
  let srcPorts ← expandPorts srcPorts numPorts
  let delay ← .orExit "Delay is out of range 0-1000 ms\n"
    (parseIntOption (o.getStringOption (byteOf 'd')) true 0 1000)
  let interval ← .orExit "Measurement interval is out of range 0-900 s\n"
    (parseIntOption (o.getStringOption (byteOf 'i')) true 1 900)
  let maxPacketSize ← .orExit "Max packet size is out of range 1-MAXBUF\n"
    (parseIntOption (o.getStringOption (byteOf 'm')) true 1 maxBuf)
  let dstMac ← .orExit "You must specify one or more next-hop MAC addresses\n"
    (o.getStringOption (byteOf 'a'))
  .returns { dstHost, dstPort, srcIp, srcPorts, delay, interval, maxPacketSize, dstMac }

/-- The next hops; an invalid list ends the program. Source: `client.cc`, `main`. Kind: D
Fidelity: `bare` is that of `readMac` -/
def Arguments.nextHops (a : Arguments) (bare : Bool) : Outcome (List Mac) :=
  match MacList.construct bare a.dstMac with
  | none => .undefined
  | some dstml =>
      if dstml.getNumMacs = 0 then .exits (ascii "Invalid next-hop MAC address string\n")
      else .returns dstml.macs

/-- Source: `clientsession.cc`, `ClientSessionList::ClientSessionList`. Kind: D -/
def Arguments.parent (a : Arguments) (host : Host) : Outcome Parent := do
  let srcAddr ← .orExit "getaddrinfo" (host.getSockAddr a.srcIp)
  let dstAddr ← .orExit "getaddrinfo" (host.getSockAddr a.dstHost)
  let srcMac ← .orExit "getIfInfo failed\n" (host.getIfInfo a.srcIp)
  if host.socket then .returns ⟨a.maxPacketSize, a.interval, srcMac, srcAddr, dstAddr, a.dstPort⟩
  else .exits (ascii "socket() failed\n")

/-- The client up to its loop.
Source: `client.cc`, `main`
Kind: D
Fidelity: the usage in front of the messages is not modelled -/
def main (A : Abi) (bare : Bool) (host : Host) (argv : List Bytes) : Outcome Started :=
  if host.getuid ≠ 0 then .exits (ascii "udping_client must run as root\n") else do
    let o ← .orExit "" (Options.create argv clientOptions)
    if o.getFlagOption (byteOf 'h') then .exits [] else
      let a ← Arguments.read o
      let macs ← a.nextHops bare
      let parent ← a.parent host
      let sessions ← ClientSessionList.construct A parent a.srcPorts macs host.fresh
      host.becomeNobody
      .returns { sessions, delay := a.delay }

theorem nextHops_eq_returns {a : Arguments} {bare : Bool} {macs : List Mac} :
    a.nextHops bare = .returns macs ↔
      macs ≠ [] ∧ ∃ dstml, MacList.construct bare a.dstMac = some dstml ∧ dstml.macs = macs := by
  unfold Arguments.nextHops
  cases MacList.construct bare a.dstMac with
  | none => simp
  | some dstml =>
      by_cases hzero : dstml.getNumMacs = 0
      · have hnil : dstml.macs = [] := List.length_eq_zero_iff.mp hzero
        simp [hzero, hnil, eq_comm]
      · have hne : dstml.macs ≠ [] := fun hnil => hzero (by rw [MacList.getNumMacs, hnil]; rfl)
        simp only [hzero, if_false, Outcome.returns.injEq, Option.some.injEq, exists_eq_left']
        constructor
        · rintro rfl
          exact ⟨hne, rfl⟩
        · exact And.right

theorem parent_eq_returns {a : Arguments} {host : Host} {parent : Parent} :
    a.parent host = .returns parent ↔
      host.getSockAddr a.srcIp = some parent.srcAddr ∧
        host.getSockAddr a.dstHost = some parent.dstAddr ∧
        host.getIfInfo a.srcIp = some parent.srcMac ∧ host.socket = true ∧
        parent.maxPacketSize = a.maxPacketSize ∧ parent.interval = a.interval ∧
        parent.dstPort = a.dstPort := by
  unfold Arguments.parent
  simp only [Outcome.bind_eq_returns, Outcome.orExit_eq_returns]
  constructor
  · rintro ⟨srcAddr, hsrc, dstAddr, hdst, srcMac, hmac, h⟩
    split_ifs at h with hsocket
    obtain rfl := Outcome.returns.inj h
    exact ⟨hsrc, hdst, hmac, hsocket, rfl, rfl, rfl⟩
  · rintro ⟨hsrc, hdst, hmac, hsocket, hsize, hinterval, hport⟩
    refine ⟨_, hsrc, _, hdst, _, hmac, ?_⟩
    rw [if_pos hsocket, ← hsize, ← hinterval, ← hport]

/-- **The client reaches its loop exactly if its host lets it and what it reads is accepted**, and then
with the sessions for it.
Source: `client.cc`, `main`
Kind: P -/
theorem main_returns_iff (A : Abi) (bare : Bool) (host : Host) (argv : List Bytes) (st : Started) :
    main A bare host argv = .returns st ↔ host.Privileged ∧
      ∃ o a macs parent ports, Options.create argv clientOptions = some o ∧
        o.getFlagOption (byteOf 'h') = false ∧ Arguments.read o = .returns a ∧
        a.nextHops bare = .returns macs ∧ a.parent host = .returns parent ∧
        readPorts a.srcPorts = .returns ports ∧
        st = ⟨.create A parent ports macs host.fresh, a.delay⟩ := by
  unfold main
  constructor
  · intro h
    split at h
    · cases h
    next hroot =>
      rw [ne_eq, not_not] at hroot
      obtain ⟨o, ho, h⟩ := Outcome.bind_eq_returns.mp h
      split at h
      · cases h
      next hflag =>
        obtain ⟨a, ha, h⟩ := Outcome.bind_eq_returns.mp h
        obtain ⟨macs, hmacs, h⟩ := Outcome.bind_eq_returns.mp h
        obtain ⟨parent, hparent, h⟩ := Outcome.bind_eq_returns.mp h
        obtain ⟨sessions, hsessions, h⟩ := Outcome.bind_eq_returns.mp h
        obtain ⟨⟨⟩, hnobody, h⟩ := Outcome.bind_eq_returns.mp h
        obtain ⟨ports, hports, rfl⟩ := Outcome.map_eq_returns.mp hsessions
        obtain ⟨huser, hsetgid, hsetuid⟩ := (Host.becomeNobody_eq_returns hroot).mp hnobody
        exact ⟨⟨hroot, (parent_eq_returns.mp hparent).2.2.2.1, huser, hsetgid, hsetuid⟩, o, a, macs,
          parent, ports, Outcome.orExit_eq_returns.mp ho, by simpa using hflag, ha, hmacs, hparent,
          hports, (Outcome.returns.inj h).symm⟩
  · rintro ⟨hhost, o, a, macs, parent, ports, ho, hflag, ha, hmacs, hparent, hports, rfl⟩
    rw [if_neg (not_not.mpr hhost.root)]
    refine Outcome.bind_eq_returns.mpr ⟨o, Outcome.orExit_eq_returns.mpr ho, ?_⟩
    rw [if_neg (by simp [hflag])]
    have hsessions := Outcome.map_eq_returns (f := fun ports =>
      ClientSessionList.create A parent ports macs host.fresh).mpr ⟨ports, hports, rfl⟩
    have hnobody := (Host.becomeNobody_eq_returns hhost.root).mpr
      ⟨hhost.nobody, hhost.setgid, hhost.setuid⟩
    exact Outcome.bind_eq_returns.mpr ⟨a, ha, Outcome.bind_eq_returns.mpr ⟨macs, hmacs,
      Outcome.bind_eq_returns.mpr ⟨parent, hparent, Outcome.bind_eq_returns.mpr ⟨_, hsessions,
        Outcome.bind_eq_returns.mpr ⟨(), hnobody, rfl⟩⟩⟩⟩⟩

end UDPing.Client
