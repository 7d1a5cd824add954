import UDPing.Controller.Peers
import UDPing.Lib.Dict

/-!
# The agent and its children

* `Params`: the dictionaries of a target list and of `children`, which are one and the same object
  where `children[signature] = params` makes them so: `Ref` names the object, `State.heap` its content.
* `State.synchronize`, `State.checkForOrphans`, `State.update` (`udping_agent`), and `agent`, the
  machine over any order of their calls.
* What an agent does to its processes is in `State.log`.
-/

namespace UDPing.Agent

open Lib
open UDPing.Controller (SqlValue Peer)

/-! ## Parameters -/

/-- What a dictionary was made from: a row of the answer, or the literal for the server of a mesh.
Source: `udping_agent`, `synchronize`
Kind: D -/
inductive Target where
  | peer (p : Peer)
  | server (meshName localIp : Bytes)
deriving DecidableEq

namespace Target

/-- Source: `udping_agent`, `synchronize`. Kind: D -/
def meshMechanism : Target → Bytes
  | .peer p => p.meshMechanism
  | .server _ _ => ascii "udping"

/-- Source: `udping_agent`, `synchronize`. Kind: D -/
def meshName : Target → Bytes
  | .peer p => p.meshName
  | .server meshName _ => meshName

/-- Source: `udping_agent`, `synchronize`. Kind: D -/
def localIp : Target → Bytes
  | .peer p => p.localIp
  | .server _ localIp => localIp

/-- The key under which a target is put. Source: `udping_agent`, `synchronize`. Kind: D -/
def signature : Target → Bytes
  | .peer p => p.meshMechanism ++ ascii ":" ++ p.meshName ++ ascii "." ++ p.localHostname ++
      ascii ":" ++ p.localIp ++ ascii "." ++ p.peerHostname ++ ascii ":" ++ p.peerIp
  | .server meshName _ => ascii "udping_server:" ++ meshName

end Target

/-- What a forked process runs. `keyError`: it raises for a key that its parameters do not have.
Source: `udping_agent`, `launchPing`, `launchUDPingClient`, `launchUDPingServer`
Kind: D -/
inductive Command where
  | ping (delayMs : SqlValue) (peerIp localHostname meshName : Bytes) (reportingIntervalS : SqlValue)
  | udpingClient (peerIp : Bytes) (delayMs : SqlValue) (localIp : Bytes)
  | udpingServer (localIp meshName : Bytes)
  | keyError
deriving DecidableEq

/-- `number`: the `pid` that the dictionary keeps. Source: `udping_agent`, `launchPing`. Kind: D -/
structure Process where
  number : ℕ
  command : Command
deriving DecidableEq

/-- Source: `udping_agent`, `synchronize`. Kind: D -/
structure Params where
  target : Target
  pid : Option Process
deriving DecidableEq

/-- Source: `udping_agent`, `synchronize`. Kind: D -/
inductive Key where
  | mesh_mechanism
  | mesh_name
  | local_ip
  | local_hostname
  | mesh_delay_ms
  | mesh_reporting_interval_s
  | peer_ip
  | peer_hostname
  | pid
deriving DecidableEq

/-- Source: none: infrastructure. Kind: D -/
def Key.all : List Key :=
  [.mesh_mechanism, .mesh_name, .local_ip, .local_hostname, .mesh_delay_ms,
    .mesh_reporting_interval_s, .peer_ip, .peer_hostname, .pid]

/-- The value under a key, if the dictionary has it.
Source: `udping_agent`, `synchronize`
Kind: D -/
def Params.get (params : Params) : Key → Option SqlValue
  | .mesh_mechanism => some (.text params.target.meshMechanism)
  | .mesh_name => some (.text params.target.meshName)
  | .local_ip => some (.text params.target.localIp)
  | .pid => params.pid.map fun process => .integer process.number
  | key =>
      match params.target with
      | .server _ _ => none
      | .peer p =>
          match key with
          | .local_hostname => some (.text p.localHostname)
          | .mesh_delay_ms => some p.meshDelayMs
          | .mesh_reporting_interval_s => some p.meshReportingIntervalS
          | .peer_ip => some (.text p.peerIp)
          | .peer_hostname => some (.text p.peerHostname)
          | _ => none

/-- Some key of `params` is in `child` with another value.
Source: `udping_agent`, `synchronize`
Kind: D -/
def Params.differs (params child : Params) : Bool :=
  Key.all.any fun key =>
    match params.get key, child.get key with
    | some value, some value' => value' ≠ value
    | _, _ => false

/-- Source: `udping_agent`, `launchPing`. Kind: D -/
def pingCommand : Target → Command
  | .peer p => .ping p.meshDelayMs p.peerIp p.localHostname p.meshName p.meshReportingIntervalS
  | .server _ _ => .keyError

/-- Source: `udping_agent`, `launchUDPingClient`. Kind: D -/
def udpingClientCommand : Target → Command
  | .peer p => .udpingClient p.peerIp p.meshDelayMs p.localIp
  | .server _ _ => .keyError

/-- Source: `udping_agent`, `launchUDPingServer`. Kind: D -/
def udpingServerCommand (t : Target) : Command := .udpingServer t.localIp t.meshName

/-! ## The agent -/

/-- An object. Source: none: infrastructure. Kind: D -/
abbrev Ref := ℕ

/-- Source: `udping_agent`, `launchPing`, `killChild`. Kind: D -/
inductive Action where
  | launch (signature : Bytes) (process : Process)
  | kill (signature : Bytes) (process : Process)
deriving DecidableEq

/-- `next`: the next object that is made. `forks`: how often `fork` has returned.
Source: `udping_agent`
Kind: D -/
structure State where
  heap : Ref → Params
  next : Ref
  children : Dict Bytes Ref
  targetList : List Ref
  forks : ℕ
  log : List Action

namespace State

/-- A new dictionary. Source: `udping_agent`, `synchronize`. Kind: D -/
def alloc (a : State) (t : Target) : Ref × State :=
  (a.next, { a with heap := Function.update a.heap a.next ⟨t, none⟩, next := a.next + 1 })

/-- `fork`, and what the parent does then. `fork i` is the number of the process that the `i`-th
call makes.
Source: `udping_agent`, `launchPing`, `launchUDPingClient`, `launchUDPingServer`
Kind: D -/
def launch (fork : ℕ → ℕ) (command : Target → Command) (a : State) (signature : Bytes)
    (params : Ref) : State :=
  let process := ⟨fork a.forks, command (a.heap params).target⟩
  { a with
    children := a.children.set signature params
    heap := Function.update a.heap params { a.heap params with pid := some process }
    forks := a.forks + 1
    log := a.log ++ [.launch signature process] }

/-- Source: `udping_agent`, `launchPing`. Kind: D -/
def launchPing (fork : ℕ → ℕ) := launch fork pingCommand

/-- Source: `udping_agent`, `launchUDPingClient`. Kind: D -/
def launchUDPingClient (fork : ℕ → ℕ) := launch fork udpingClientCommand

/-- Source: `udping_agent`, `launchUDPingServer`. Kind: D -/
def launchUDPingServer (fork : ℕ → ℕ) := launch fork udpingServerCommand

/-- The process of a child. Source: `udping_agent`, `killChild`. Kind: D -/
def process (a : State) (child : Ref) : Option Process := (a.heap child).pid

/-- Source: `udping_agent`, `killChild`. Kind: D -/
def killChild (a : State) (signature : Bytes) : State :=
  { a with
    children := a.children.erase signature
    log := a.log ++ (((a.children.get signature).bind a.process).map (.kill signature)).toList }

/-- `targetChildren` with the entries for one row of the list.
Source: `udping_agent`, `synchronize`
Kind: D -/
def addTarget : State × Dict Bytes Ref → Ref → State × Dict Bytes Ref
  | (a, targetChildren), params =>
      let t := (a.heap params).target
      let targetChildren := targetChildren.set t.signature params
      if t.meshMechanism = ascii "udping" then
        let server := Target.server t.meshName t.localIp
        let (r, a) := a.alloc server
        (a, targetChildren.set server.signature r)
      else (a, targetChildren)

/-- One pass of the loop over `targetChildren`.
Source: `udping_agent`, `synchronize`
Kind: D -/
def visit (fork : ℕ → ℕ) (a : State) : Bytes × Ref → State
  | (signature, params) =>
      let differs := match a.children.get signature with
        | some child => (a.heap params).differs (a.heap child)
        | none => false
      let a := if differs then a.killChild signature else a
      if signature ∈ a.children then a
      else
        let mechanism := (a.heap params).target.meshMechanism
        if mechanism = ascii "ping" then a.launchPing fork signature params
        else if mechanism = ascii "udping" then
          if (ascii "udping_server").isPrefixOf signature then
            a.launchUDPingServer fork signature params
          else a.launchUDPingClient fork signature params
        else a

/-- One pass of the last loop. Source: `udping_agent`, `synchronize`. Kind: D -/
def drop (targetChildren : Dict Bytes Ref) (a : State) (signature : Bytes) : State :=
  if signature ∈ targetChildren then a else a.killChild signature

/-- Source: `udping_agent`, `synchronize`. Kind: D -/
def synchronize (fork : ℕ → ℕ) (a : State) : State :=
  let (a, targetChildren) := a.targetList.foldl addTarget (a, .empty)
  let a := targetChildren.items.foldl (visit fork) a
  a.children.keys.foldl (drop targetChildren) a

/-- One pass over a child. `exited`: what `waitpid` finds of a process.
Source: `udping_agent`, `checkForOrphans`
Kind: D -/
def reap (exited : ℕ → Bool) : ℕ × State → Bytes → ℕ × State
  | (ret, a), signature =>
      match (a.children.get signature).bind a.process with
      | some process =>
          if exited process.number then (ret + 1, { a with children := a.children.erase signature })
          else (ret, a)
      | none => (ret, a)

/-- Source: `udping_agent`, `checkForOrphans`. Kind: D -/
def checkForOrphans (exited : ℕ → Bool) (a : State) : ℕ × State :=
  a.children.keys.foldl (reap exited) (0, a)

/-- One object of `r.json()`. Source: `udping_agent`, `update`. Kind: D -/
def addRow (a : State) (p : Peer) : State :=
  let (r, a) := a.alloc (.peer p)
  { a with targetList := a.targetList ++ [r] }

/-- `none`: the controller does not answer, or with a status other than 200.
Source: `udping_agent`, `update`
Kind: D -/
def update (a : State) : Option (List Peer) → State
  | none => a
  | some rows => rows.foldl addRow { a with targetList := [] }

end State

/-- Source: `udping_agent`. Kind: D -/
inductive Event where
  | update (answer : Option (List Peer))
  | synchronize
  | checkForOrphans (exited : ℕ → Bool)

/-- Source: `udping_agent`. Kind: D -/
def agent (fork : ℕ → ℕ) : EventMachine State Event where
  init := ⟨fun _ => ⟨.server [] [], none⟩, 0, .empty, [], 0, []⟩
  step a
    | .update answer => a.update answer
    | .synchronize => a.synchronize fork
    | .checkForOrphans exited => (a.checkForOrphans exited).2

end UDPing.Agent
