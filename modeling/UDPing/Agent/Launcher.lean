import UDPing.Lib.Bytes
import UDPing.Lib.Dict
import UDPing.Lib.EventMachine
import Mathlib.Logic.Function.Basic

/-!
# The launcher: an agent with a goroutine for each child

* `act`: one statement of the main loop, of a `launch`, of the goroutine that a `launch` starts to
  wait for the sender, or the end of a process. `launcher`: the machine over any interleaving.
* `Owned`: an entry of `children` is a call of `launch` that has not come to its end.
* **`single_ping`**: no key ever has two running `ping` processes.
-/

namespace UDPing.Launcher

open Lib

/-! ## Data -/

/-- Source: `agent.go`, `target`. Kind: D -/
structure Target where
  meshMechanism : Bytes
  meshName : Bytes
  localHostname : Bytes
  localIp : Bytes
  peerHostname : Bytes
  peerIp : Bytes
  meshReportingIntervalS : ℤ
  meshDelayMs : ℤ
deriving DecidableEq

/-- Source: `agent.go`, `getTargets`. Kind: D -/
def Target.key (t : Target) : Bytes :=
  t.meshMechanism ++ ascii ":" ++ t.meshName ++ ascii "." ++ t.localHostname ++ ascii ":" ++
    t.localIp ++ ascii "." ++ t.peerHostname ++ ascii ":" ++ t.peerIp

/-- The arguments that differ between commands. Source: `agent.go`, `launch`. Kind: D -/
inductive Program where
  | ping (peerIp : Bytes)
  | sender (fromHost toHost mesh : Bytes)
deriving DecidableEq

/-- `created`: there is no `Process` yet. Source: `agent.go`, `launch`. Kind: D -/
inductive Status where
  | created
  | running
  | exited
deriving DecidableEq

/-- An `exec.Cmd`. `launch`: the call of `launch` that made it. `waited`: `Wait` has been called.
Source: `agent.go`, `launch`
Kind: D -/
structure Cmd where
  launch : ℕ
  program : Program
  status : Status
  waited : Bool
deriving DecidableEq

/-- The commands are numbers of `State.cmds`. Source: `agent.go`, `child`. Kind: D -/
structure Child where
  t : Target
  cmd : Option ℕ
  senderCmd : Option ℕ
deriving DecidableEq

/-- The statement that a `launch` comes to next. `waiting`: inside of `c.cmd.Wait()`.
Source: `agent.go`, `launch`
Kind: D -/
inductive LaunchPc where
  | cmd
  | cmdStart
  | senderCmd
  | senderStart
  | log
  | watch
  | wait
  | waiting (id : ℕ)
  | cancel
  | delete
  | done
deriving DecidableEq

/-- The same of the goroutine that it starts. Source: `agent.go`, `launch`. Kind: D -/
inductive WatchPc where
  | idle
  | wait
  | waiting (id : ℕ)
  | cancel
  | done
deriving DecidableEq

/-- A call of `launch`. Source: `agent.go`, `launch`. Kind: D -/
structure Launch where
  child : ℕ
  key : Bytes
  pc : LaunchPc
  watch : WatchPc
deriving DecidableEq

/-- `visited`: the keys that the loop has come to. `cancel`: between the two calls of `Cancel`.
Source: `agent.go`, `main`, `synchronize`
Kind: D -/
inductive MainPc where
  | sleep
  | add (visited : List Bytes)
  | remove (visited : List Bytes)
  | cancel (visited : List Bytes) (key : Bytes) (child : ℕ)
deriving DecidableEq

/-- Who calls `Cancel`. Source: `agent.go`, `synchronize`, `launch`. Kind: D -/
inductive Caller where
  | main (key : Bytes)
  | launch (n : ℕ)
  | watch (n : ℕ)
deriving DecidableEq

/-- `heap`: the `child` objects, `next` the next one that is made. `log`: the processes that have
been sent a kill. `panicked`: the program has ended on a nil pointer.
Source: `agent.go`, `main`
Kind: D -/
structure State where
  heap : ℕ → Child
  next : ℕ
  cmds : List Cmd
  launches : List Launch
  children : Dict Bytes ℕ
  targets : Dict Bytes ℕ
  main : MainPc
  log : List (Caller × ℕ)
  panicked : Bool

/-! ## Statements -/

namespace State

/-- Source: `agent.go`, `launch`. Kind: D -/
def goto (s : State) (n : ℕ) (l : Launch) : State := { s with launches := s.launches.set n l }

/-- Source: `agent.go`, `launch`. Kind: D -/
def setChild (s : State) (r : ℕ) (c : Child) : State :=
  { s with heap := Function.update s.heap r c }

/-- `exec.CommandContext`. Source: `agent.go`, `launch`. Kind: D -/
def newCmd (s : State) (n : ℕ) (program : Program) : State :=
  { s with cmds := s.cmds ++ [⟨n, program, .created, false⟩] }

/-- Source: none: infrastructure. Kind: D -/
def modifyCmd (s : State) (cmd : Option ℕ) (f : Cmd → Cmd) : State :=
  { s with cmds := cmd.elim s.cmds fun id => s.cmds.modify id f }

/-- The pointers that a statement follows are not nil. Source: none: infrastructure. Kind: D -/
def check (s : State) (valid : Bool) : State := { s with panicked := s.panicked || !valid }

/-- The command behind a field of a child. Source: none: infrastructure. Kind: D -/
def command (s : State) (cmd : Option ℕ) : Option Cmd := cmd.bind fun id => s.cmds[id]?

/-- `cmd.Process` is not nil. Source: `agent.go`, `launch`. Kind: D -/
def hasProcess (s : State) (cmd : Option ℕ) : Bool :=
  (s.command cmd).any fun c => c.status ≠ .created

/-- `cmd.Start()`; its error is not looked at. `forked`: it has started a process.
Source: `agent.go`, `launch`
Kind: D -/
def start (s : State) (cmd : Option ℕ) (forked : Bool) : State :=
  (s.check (s.command cmd).isSome).modifyCmd cmd fun c =>
    if forked then { c with status := .running } else c

/-- `cmd.Cancel()`, which is `cmd.Process.Kill()`. Source: `agent.go`, `launch`. Kind: D -/
def cancel (s : State) (caller : Caller) (cmd : Option ℕ) : State :=
  { s.check (s.hasProcess cmd) with
    log := s.log ++ if s.hasProcess cmd then cmd.toList.map fun id => (caller, id) else [] }

/-- `cmd.Wait()` up to where it blocks.
Source: `agent.go`, `launch`
Kind: D
Fidelity: a second call for a command returns at once; in Go it blocks while the first one does -/
def wait (s : State) (cmd : Option ℕ) : State :=
  (s.check (s.command cmd).isSome).modifyCmd cmd fun c =>
    { c with waited := c.waited || c.status ≠ .created }

/-- The process that `cmd.Wait()` waits for. It returns an error at once when there is none, or when
it has been called before.
Source: `agent.go`, `launch`
Kind: D -/
def blocks (s : State) (cmd : Option ℕ) : Option ℕ :=
  if (s.command cmd).any fun c => c.status ≠ .created && !c.waited then cmd else none

/-- Source: none: infrastructure. Kind: D -/
def hasExited (s : State) (id : ℕ) : Bool := s.cmds[id]?.any fun c => c.status = .exited

/-- The next statement of `launch`; none when it has to wait, or has come to its end.
Source: `agent.go`, `launch`
Kind: D -/
def launch (s : State) (n : ℕ) (forked : Bool) : Option State :=
  s.launches[n]?.bind fun l =>
    let c := s.heap l.child
    match l.pc with
    | .cmd =>
        some (((s.newCmd n (.ping c.t.peerIp)).setChild l.child { c with cmd := s.cmds.length }).goto n
          { l with pc := .cmdStart })
    | .cmdStart => some ((s.start c.cmd forked).goto n { l with pc := .senderCmd })
    | .senderCmd =>
        some (((s.newCmd n (.sender c.t.localHostname c.t.peerHostname c.t.meshName)).setChild l.child
          { c with senderCmd := s.cmds.length }).goto n { l with pc := .senderStart })
    | .senderStart => some ((s.start c.senderCmd forked).goto n { l with pc := .log })
    | .log =>
        some ((s.check (s.hasProcess c.cmd && s.hasProcess c.senderCmd)).goto n { l with pc := .watch })
    | .watch => some (s.goto n { l with pc := .wait, watch := .wait })
    | .wait =>
        some ((s.wait c.cmd).goto n { l with pc := (s.blocks c.cmd).elim .cancel .waiting })
    | .waiting id => if s.hasExited id then some (s.goto n { l with pc := .cancel }) else none
    | .cancel => some ((s.cancel (.launch n) c.senderCmd).goto n { l with pc := .delete })
    | .delete => some ({ s with children := s.children.erase l.key }.goto n { l with pc := .done })
    | .done => none

/-- The same of the goroutine that it starts. Source: `agent.go`, `launch`. Kind: D -/
def watch (s : State) (n : ℕ) : Option State :=
  s.launches[n]?.bind fun l =>
    let c := s.heap l.child
    match l.watch with
    | .idle => none
    | .wait =>
        some ((s.wait c.senderCmd).goto n
          { l with watch := (s.blocks c.senderCmd).elim .cancel .waiting })
    | .waiting id => if s.hasExited id then some (s.goto n { l with watch := .cancel }) else none
    | .cancel => some ((s.cancel (.watch n) c.cmd).goto n { l with watch := .done })
    | .done => none

/-- Source: `agent.go`, `getTargets`. Kind: D -/
def addTarget (s : State) (t : Target) : State :=
  { s with
    heap := Function.update s.heap s.next ⟨t, none, none⟩
    next := s.next + 1
    targets := s.targets.set t.key s.next }

/-- `none`: an error, after which the last targets are used again.
Source: `agent.go`, `synchronize`, `getTargets`
Kind: D -/
def getTargets (s : State) (answer : Option (List Target)) : Option State :=
  match s.main, answer with
  | .sleep, some list => some { list.foldl addTarget { s with targets := .empty } with main := .add [] }
  | .sleep, none => some { s with main := .add [] }
  | _, _ => none

/-- The loop over `targets` comes to a key. Source: `agent.go`, `synchronize`. Kind: D -/
def add (s : State) (key : Bytes) : Option State :=
  match s.main, s.targets.get key with
  | .add visited, some r =>
      if visited.contains key then none
      else if key ∈ s.children then some { s with main := .add (key :: visited) }
      else some { s with
        children := s.children.set key r
        launches := s.launches ++ [⟨r, key, .cmd, .idle⟩]
        main := .add (key :: visited) }
  | _, _ => none

/-- Source: `agent.go`, `synchronize`. Kind: D -/
def endAdd (s : State) : Option State :=
  match s.main with
  | .add visited =>
      if s.targets.keys.all fun key => visited.contains key then some { s with main := .remove [] } else none
  | _ => none

/-- The loop over `children` comes to a key, up to `child.cmd.Cancel()`.
Source: `agent.go`, `synchronize`
Kind: D -/
def remove (s : State) (key : Bytes) : Option State :=
  match s.main, s.children.get key with
  | .remove visited, some r =>
      if visited.contains key then none
      else if key ∈ s.targets then some { s with main := .remove (key :: visited) }
      else some { s.cancel (.main key) (s.heap r).cmd with main := .cancel visited key r }
  | _, _ => none

/-- `child.senderCmd.Cancel()`. Source: `agent.go`, `synchronize`. Kind: D -/
def cancelSender (s : State) : Option State :=
  match s.main with
  | .cancel visited key r =>
      some { s.cancel (.main key) (s.heap r).senderCmd with main := .remove (key :: visited) }
  | _ => none

/-- Source: `agent.go`, `synchronize`, `main`. Kind: D -/
def endRemove (s : State) : Option State :=
  match s.main with
  | .remove visited =>
      if s.children.keys.all fun key => visited.contains key then some { s with main := .sleep } else none
  | _ => none

/-- A process ends, killed or not. Source: none: infrastructure. Kind: D -/
def exit (s : State) (id : ℕ) : Option State :=
  s.cmds[id]?.bind fun c =>
    if c.status = .running then some (s.modifyCmd id fun c => { c with status := .exited }) else none

end State

/-- Source: `agent.go`. Kind: D -/
inductive Action where
  | getTargets (answer : Option (List Target))
  | add (key : Bytes)
  | endAdd
  | remove (key : Bytes)
  | cancelSender
  | endRemove
  | launch (n : ℕ) (forked : Bool)
  | watch (n : ℕ)
  | exit (id : ℕ)

/-- The state after an action; none when it cannot happen. Source: `agent.go`. Kind: D -/
def act (s : State) : Action → Option State
  | .getTargets answer => s.getTargets answer
  | .add key => s.add key
  | .endAdd => s.endAdd
  | .remove key => s.remove key
  | .cancelSender => s.cancelSender
  | .endRemove => s.endRemove
  | .launch n forked => s.launch n forked
  | .watch n => s.watch n
  | .exit id => s.exit id

/-- After a panic only the processes go on.
Source: `agent.go`
Kind: D
Fidelity: statements do not overlap; in Go an access to `children` while another one writes to it may
end the program -/
def step (s : State) (a : Action) : State :=
  match a with
  | .exit id => (s.exit id).getD s
  | a => if s.panicked then s else (act s a).getD s

/-- Source: `agent.go`, `main`. Kind: D -/
def launcher : EventMachine State Action where
  init := ⟨fun _ => ⟨⟨[], [], [], [], [], [], 0, 0⟩, none, none⟩, 0, [], [], .empty, .empty, .sleep, [], false⟩
  step := step

/-! ## Entries -/

/-- What a `launch` keeps on its way, and whether it has come to its end.
Source: none: specification
Kind: D -/
def Launch.view (l : Launch) : ℕ × Bytes × Bool := (l.child, l.key, l.pc = .done)

/-- The same of the `n`-th one. Source: none: specification. Kind: D -/
def State.view (s : State) (n : ℕ) : Option (ℕ × Bytes × Bool) := s.launches[n]?.map Launch.view

/-- **An entry of `children` is a `launch` under way.** `key`, `target`: the objects have the keys under
which they are used.
Source: `agent.go`, `synchronize`, `launch`
Kind: D -/
structure Owned (s : State) : Prop where
  entry : ∀ key r, s.children.get key = some r ↔ ∃ n, s.view n = some (r, key, false)
  unique : ∀ m n r r' key, s.view m = some (r, key, false) → s.view n = some (r', key, false) → m = n
  key : ∀ n r key done, s.view n = some (r, key, done) → (s.heap r).t.key = key ∧ r < s.next
  target : ∀ key r, s.targets.get key = some r → (s.heap r).t.key = key ∧ r < s.next

variable {s s' : State} {n : ℕ} {l l' : Launch} {forked : Bool}

theorem view_of_get (h : s.launches[n]? = some l) : s.view n = some l.view := by
  rw [State.view, h, Option.map_some]

theorem view_set (hl : s.launches[n]? = some l) (hset : s'.launches = s.launches.set n l') (m : ℕ) :
    s'.view m = if m = n then some l'.view else s.view m := by
  unfold State.view
  rw [hset, List.getElem?_set]
  have hlt := (List.getElem?_eq_some_iff.mp hl).1
  by_cases h : n = m
  · subst h
    rw [if_pos rfl, if_pos hlt, if_pos rfl, Option.map_some]
  · rw [if_neg h, if_neg (Ne.symm h)]

/-- What most statements leave. Source: none: infrastructure. Kind: D -/
structure Keeps (s s' : State) : Prop where
  targets : s'.targets = s.targets
  next : s'.next = s.next
  t : ∀ r, (s'.heap r).t = (s.heap r).t

theorem keeps_setChild {c : Child} {r : ℕ} (h : c.t = (s.heap r).t) (r' : ℕ) :
    ((s.setChild r c).heap r').t = (s.heap r').t := by
  simp only [State.setChild, Function.update_apply]
  split
  · next heq => rw [heq, h]
  · rfl

/-- A statement of a `launch`. Source: `agent.go`, `launch`. Kind: L -/
theorem launch_frame (h : s.launch n forked = some s') :
    Keeps s s' ∧ s'.main = s.main ∧ ∃ l l', s.launches[n]? = some l ∧ l.pc ≠ .done ∧
      s'.launches = s.launches.set n l' ∧ l'.child = l.child ∧ l'.key = l.key ∧
      s'.children = if l'.pc = .done then s.children.erase l.key else s.children := by
  unfold State.launch at h
  obtain ⟨l, hl, h⟩ := Option.bind_eq_some_iff.mp h
  cases hpc : l.pc <;> simp only [hpc, Option.some.injEq, reduceCtorEq] at h
  case cmd | senderCmd =>
    subst h
    exact ⟨⟨rfl, rfl, keeps_setChild rfl⟩, rfl, l, _, hl, by simp [hpc], rfl, rfl, rfl, rfl⟩
  case waiting id =>
    obtain ⟨-, h⟩ := Option.ite_none_right_eq_some.mp h
    obtain rfl := Option.some.inj h
    exact ⟨⟨rfl, rfl, fun _ => rfl⟩, rfl, l, _, hl, by simp [hpc], rfl, rfl, rfl, rfl⟩
  case wait =>
    subst h
    refine ⟨⟨rfl, rfl, fun _ => rfl⟩, rfl, l, _, hl, by simp [hpc], rfl, rfl, rfl, ?_⟩
    cases s.blocks (s.heap l.child).cmd <;> rfl
  all_goals
    subst h
    exact ⟨⟨rfl, rfl, fun _ => rfl⟩, rfl, l, _, hl, by simp [hpc], rfl, rfl, rfl, rfl⟩

/-- A statement of the goroutine that it starts. Source: `agent.go`, `launch`. Kind: L -/
theorem watch_frame (h : s.watch n = some s') :
    Keeps s s' ∧ s'.main = s.main ∧ s'.heap = s.heap ∧ s'.children = s.children ∧
      ∃ l l', s.launches[n]? = some l ∧ s'.launches = s.launches.set n l' ∧ l'.pc = l.pc ∧
        l'.view = l.view := by
  unfold State.watch at h
  obtain ⟨l, hl, h⟩ := Option.bind_eq_some_iff.mp h
  cases hwatch : l.watch <;> simp only [hwatch, Option.some.injEq, reduceCtorEq] at h
  case waiting id =>
    obtain ⟨-, h⟩ := Option.ite_none_right_eq_some.mp h
    obtain rfl := Option.some.inj h
    exact ⟨⟨rfl, rfl, fun _ => rfl⟩, rfl, rfl, rfl, l, _, hl, rfl, rfl, rfl⟩
  all_goals
    subst h
    exact ⟨⟨rfl, rfl, fun _ => rfl⟩, rfl, rfl, rfl, l, _, hl, rfl, rfl, rfl⟩

theorem Owned.congr (h : Owned s) (hkeep : Keeps s s') (hchildren : s'.children = s.children)
    (hview : ∀ m, s'.view m = s.view m) : Owned s' where
  entry key r := by simp only [hchildren, hview, h.entry]
  unique m n r r' key := by
    rw [hview, hview]
    exact h.unique m n r r' key
  key n r key done := by
    rw [hview, hkeep.t, hkeep.next]
    exact h.key n r key done
  target key r := by
    rw [hkeep.targets, hkeep.t, hkeep.next]
    exact h.target key r

/-- Source: `agent.go`, `launch`. Kind: L -/
theorem Owned.launch (h : Owned s) (hs : s.launch n forked = some s') : Owned s' := by
  obtain ⟨hkeep, -, l, l', hl, hpc, hset, hchild, hkey, hchildren⟩ := launch_frame hs
  have hview := view_set hl hset
  have hl : s.view n = some (l.child, l.key, false) := by
    rw [view_of_get hl, Launch.view, decide_eq_false hpc]
  by_cases hdone : l'.pc = .done
  · rw [if_pos hdone] at hchildren
    have hl' : l'.view = (l.child, l.key, true) := by
      rw [Launch.view, hchild, hkey, decide_eq_true hdone]
    have hlive : ∀ m r key, s'.view m = some (r, key, false) →
        m ≠ n ∧ s.view m = some (r, key, false) := by
      intro m r key hm
      rw [hview] at hm
      split at hm
      · cases hl'.symm.trans (Option.some.inj hm)
      · exact ⟨‹_›, hm⟩
    refine ⟨fun key r => ?_, fun m m' r r' key hm hm' => ?_, fun m r key done hm => ?_, fun key r => ?_⟩
    · rw [hchildren, Dict.get_erase]
      split
      · next heq =>
        constructor
        · intro hr
          cases hr
        · rintro ⟨m, hm⟩
          obtain ⟨hne, hm⟩ := hlive m r key hm
          exact absurd (h.unique m n _ _ _ hm (heq ▸ hl)) hne
      · next hne =>
        rw [h.entry]
        refine exists_congr fun m => ?_
        rw [hview]
        split
        · next heq =>
          rw [heq, hl, hl']
          constructor
          · intro hm
            cases hm
            exact absurd rfl hne
          · intro hm
            cases hm
        · exact Iff.rfl
    · exact h.unique m m' r r' key (hlive m r key hm).2 (hlive m' r' key hm').2
    · rw [hkeep.t, hkeep.next]
      rw [hview] at hm
      split at hm
      · cases hl'.symm.trans (Option.some.inj hm)
        exact h.key n _ _ _ hl
      · exact h.key m r key done hm
    · rw [hkeep.targets, hkeep.t, hkeep.next]
      exact h.target key r
  · rw [if_neg hdone] at hchildren
    refine h.congr hkeep hchildren fun m => ?_
    rw [hview]
    split
    · next heq => rw [heq, hl, Launch.view, hchild, hkey, decide_eq_false hdone]
    · rfl

/-- Source: `agent.go`, `launch`. Kind: L -/
theorem Owned.watch (h : Owned s) (hs : s.watch n = some s') : Owned s' := by
  obtain ⟨hkeep, -, -, hchildren, l, l', hl, hset, -, hlview⟩ := watch_frame hs
  refine h.congr hkeep hchildren fun m => ?_
  rw [view_set hl hset]
  split
  · next heq => rw [heq, view_of_get hl, hlview]
  · rfl

/-- The statements of the main loop that only look at the children.
Source: `agent.go`, `synchronize`
Kind: D -/
def Action.looks : Action → Prop
  | .endAdd | .remove _ | .cancelSender | .endRemove => True
  | _ => False

/-- Source: `agent.go`, `synchronize`. Kind: L -/
theorem looks_frame {a : Action} (ha : a.looks) (h : act s a = some s') :
    ∃ main log panicked, s' = { s with main := main, log := log, panicked := panicked } := by
  cases a with
  | endAdd | endRemove =>
      simp only [act, State.endAdd, State.endRemove] at h
      split at h
      · obtain ⟨-, h⟩ := Option.ite_none_right_eq_some.mp h
        exact ⟨_, _, _, (Option.some.inj h).symm⟩
      · cases h
  | remove key =>
      simp only [act, State.remove] at h
      split at h
      · obtain ⟨-, h⟩ := Option.ite_none_left_eq_some.mp h
        split at h <;> exact ⟨_, _, _, (Option.some.inj h).symm⟩
      · cases h
  | cancelSender =>
      simp only [act, State.cancelSender] at h
      split at h
      · exact ⟨_, _, _, (Option.some.inj h).symm⟩
      · cases h
  | _ => exact absurd ha not_false

/-- Source: `agent.go`, `synchronize`. Kind: L -/
theorem Owned.looks (h : Owned s) {a : Action} (hs : act s a = some s') (ha : a.looks) : Owned s' := by
  obtain ⟨main, log, panicked, rfl⟩ := looks_frame ha hs
  exact h.congr ⟨rfl, rfl, fun _ => rfl⟩ rfl fun _ => rfl

/-- Source: none: infrastructure. Kind: L -/
theorem Owned.exit (h : Owned s) {id : ℕ} (hs : s.exit id = some s') : Owned s' := by
  obtain ⟨c, -, hs⟩ := Option.bind_eq_some_iff.mp hs
  obtain ⟨-, hs⟩ := Option.ite_none_right_eq_some.mp hs
  obtain rfl := Option.some.inj hs
  exact h.congr ⟨rfl, rfl, fun _ => rfl⟩ rfl fun _ => rfl

/-- What the loop over `targets` does at a key. Source: `agent.go`, `synchronize`. Kind: L -/
theorem add_cases {key : Bytes} (h : s.add key = some s') :
    ∃ visited r, s.main = .add visited ∧ s.targets.get key = some r ∧ key ∉ visited ∧
      (key ∈ s.children ∧ s' = { s with main := .add (key :: visited) } ∨
        key ∉ s.children ∧ s' = { s with
          children := s.children.set key r
          launches := s.launches ++ [⟨r, key, .cmd, .idle⟩]
          main := .add (key :: visited) }) := by
  unfold State.add at h
  split at h
  · next visited r hmain hr =>
    obtain ⟨hvisited, h⟩ := Option.ite_none_left_eq_some.mp h
    refine ⟨visited, r, hmain, hr, mt List.contains_iff_mem.mpr hvisited, ?_⟩
    split at h
    · exact Or.inl ⟨‹_›, (Option.some.inj h).symm⟩
    · exact Or.inr ⟨‹_›, (Option.some.inj h).symm⟩
  · cases h

theorem view_concat (hset : s'.launches = s.launches ++ [l]) (m : ℕ) :
    s'.view m = if m = s.launches.length then some l.view else s.view m := by
  unfold State.view
  rw [hset, List.getElem?_append]
  split
  · rw [if_neg (by omega)]
  · next hge =>
    split
    · next heq => rw [heq, Nat.sub_self, List.getElem?_cons_zero, Option.map_some]
    · next hne =>
      rw [List.getElem?_eq_none (by simp only [List.length_singleton]; omega),
        List.getElem?_eq_none (by omega)]

/-- Source: `agent.go`, `synchronize`. Kind: L -/
theorem Owned.add (h : Owned s) {key : Bytes} (hs : s.add key = some s') : Owned s' := by
  obtain ⟨visited, r, hmain, hr, -, ⟨-, rfl⟩ | ⟨hkey, rfl⟩⟩ := add_cases hs
  · exact h.congr ⟨rfl, rfl, fun _ => rfl⟩ rfl fun _ => rfl
  · set s' : State := { s with
      children := s.children.set key r
      launches := s.launches ++ [⟨r, key, .cmd, .idle⟩]
      main := .add (key :: visited) }
    have hview : ∀ m, s'.view m = _ := view_concat rfl
    have hnew : Launch.view ⟨r, key, .cmd, .idle⟩ = (r, key, false) := rfl
    have hfree : ∀ m r', s.view m ≠ some (r', key, false) := fun m r' hm =>
      hkey (Dict.mem_iff_get.mpr ⟨r', (h.entry key r').mpr ⟨m, hm⟩⟩)
    have hlast : s.view s.launches.length = none := by
      rw [State.view, List.getElem?_eq_none (le_refl _), Option.map_none]
    refine ⟨fun key' r' => ?_, fun m n r₁ r₂ key' hm hn => ?_, fun m r' key' done hm => ?_, h.target⟩
    · rw [Dict.get_set]
      split
      · next heq =>
        subst heq
        constructor
        · intro hr'
          refine ⟨s.launches.length, ?_⟩
          rw [hview, if_pos rfl, hnew, Option.some.inj hr']
        · rintro ⟨m, hm⟩
          rw [hview] at hm
          split at hm
          · cases hnew.symm.trans (Option.some.inj hm)
            rfl
          · exact absurd hm (hfree m r')
      · next hne =>
        rw [h.entry]
        refine exists_congr fun m => ?_
        rw [hview]
        split
        · next heq =>
          rw [heq, hlast, hnew]
          constructor
          · intro hm
            cases hm
          · intro hm
            cases hm
            exact absurd rfl hne
        · exact Iff.rfl
    · rw [hview] at hm hn
      split at hm <;> split at hn
      · omega
      · cases hnew.symm.trans (Option.some.inj hm)
        exact absurd hn (hfree n r₂)
      · cases hnew.symm.trans (Option.some.inj hn)
        exact absurd hm (hfree m r₁)
      · exact h.unique m n r₁ r₂ key' hm hn
    · rw [hview] at hm
      split at hm
      · cases hnew.symm.trans (Option.some.inj hm)
        exact h.target key r hr
      · exact h.key m r' key' done hm

/-- Source: `agent.go`, `getTargets`. Kind: L -/
theorem Owned.addTarget (h : Owned s) (t : Target) : Owned (s.addTarget t) := by
  have hheap : ∀ r, r < s.next → (s.addTarget t).heap r = s.heap r := fun r hr =>
    Function.update_of_ne hr.ne _ _
  refine ⟨h.entry, h.unique, fun n r key done hn => ?_, fun key r hr => ?_⟩
  · obtain ⟨hkey, hlt⟩ := h.key n r key done hn
    exact ⟨by rw [hheap r hlt, hkey], Nat.lt_succ_of_lt hlt⟩
  · replace hr : (s.targets.set t.key s.next).get key = some r := hr
    rw [Dict.get_set] at hr
    split at hr
    · next heq =>
      obtain rfl := Option.some.inj hr
      have hself : (s.addTarget t).heap s.next = ⟨t, none, none⟩ := Function.update_self _ _ _
      exact ⟨by rw [hself, heq], Nat.lt_succ_self _⟩
    · obtain ⟨hkey, hlt⟩ := h.target key r hr
      exact ⟨by rw [hheap r hlt, hkey], Nat.lt_succ_of_lt hlt⟩

/-- Source: `agent.go`, `getTargets`. Kind: L -/
theorem Owned.addTargets (h : Owned s) (list : List Target) : Owned (list.foldl State.addTarget s) := by
  induction list generalizing s with
  | nil => exact h
  | cons t list ih => exact ih (h.addTarget t)

/-- What a call of `getTargets` does. Source: `agent.go`, `synchronize`. Kind: L -/
theorem getTargets_cases {answer : Option (List Target)} (h : s.getTargets answer = some s') :
    s.main = .sleep ∧ (answer = none ∧ s' = { s with main := .add [] } ∨ ∃ list, answer = some list ∧
      s' = { list.foldl State.addTarget { s with targets := .empty } with main := .add [] }) := by
  unfold State.getTargets at h
  split at h
  · next list hmain => exact ⟨hmain, Or.inr ⟨list, rfl, (Option.some.inj h).symm⟩⟩
  · next hmain => exact ⟨hmain, Or.inl ⟨rfl, (Option.some.inj h).symm⟩⟩
  · cases h

/-- Source: `agent.go`, `synchronize`. Kind: L -/
theorem Owned.getTargets (h : Owned s) {answer : Option (List Target)}
    (hs : s.getTargets answer = some s') : Owned s' := by
  obtain ⟨-, ⟨-, rfl⟩ | ⟨list, -, rfl⟩⟩ := getTargets_cases hs
  · exact h.congr ⟨rfl, rfl, fun _ => rfl⟩ rfl fun _ => rfl
  · have hempty : Owned { s with targets := .empty } :=
      ⟨h.entry, h.unique, h.key, fun key r hr => by cases hr⟩
    exact (hempty.addTargets list).congr ⟨rfl, rfl, fun _ => rfl⟩ rfl fun _ => rfl

/-- What holds before a step and after each action that can happen holds after the step.
Source: none: infrastructure
Kind: L -/
theorem step_cases {P : State → Prop} (s : State) (a : Action) (h : P s)
    (hact : ∀ s', act s a = some s' → ((∀ id, a ≠ .exit id) → s.panicked = false) → P s') :
    P (step s a) := by
  have hget : ((∀ id, a ≠ .exit id) → s.panicked = false) → P ((act s a).getD s) := by
    intro hpanicked
    cases hs : act s a with
    | none => exact h
    | some s' => exact hact s' hs hpanicked
  unfold step
  split
  · exact hget fun hne => absurd rfl (hne _)
  · split
    · exact h
    · exact hget fun _ => by simpa using ‹¬s.panicked = true›

/-- Source: `agent.go`. Kind: L -/
theorem Owned.act (h : Owned s) (a : Action) (hs : act s a = some s') : Owned s' := by
  cases a with
  | getTargets answer => exact h.getTargets hs
  | add key => exact h.add hs
  | endAdd | remove key | cancelSender | endRemove => exact h.looks hs trivial
  | launch n forked => exact h.launch hs
  | watch n => exact h.watch hs
  | exit id => exact h.exit hs

/-- Source: `agent.go`. Kind: L -/
theorem owned_run (es : List Action) : Owned (launcher.run es) := by
  induction es using List.reverseRecOn with
  | nil => exact ⟨fun key r => ⟨nofun, fun ⟨n, h⟩ => by cases h⟩, nofun, nofun, nofun⟩
  | append_singleton es a ih =>
      rw [EventMachine.run_concat]
      exact step_cases _ a ih fun s' hs _ => ih.act a hs

theorem Owned.child_ne (h : Owned s) {m n : ℕ} {l l' : Launch} (hl : s.launches[m]? = some l)
    (hl' : s.launches[n]? = some l') (hpc : l.pc ≠ .done) (hpc' : l'.pc ≠ .done) (hne : m ≠ n) :
    l.child ≠ l'.child := by
  intro hchild
  have hm : s.view m = some (l.child, l.key, false) := by
    rw [view_of_get hl, Launch.view, decide_eq_false hpc]
  have hn : s.view n = some (l'.child, l'.key, false) := by
    rw [view_of_get hl', Launch.view, decide_eq_false hpc']
  have hkey : l.key = l'.key := by rw [← (h.key m _ _ _ hm).1, ← (h.key n _ _ _ hn).1, hchild]
  exact hne (h.unique m n _ _ _ (hkey ▸ hm) hn)

/-! ## Processes -/

/-- The statements of `launch` in their order. Source: `agent.go`, `launch`. Kind: D -/
def LaunchPc.rank : LaunchPc → ℕ
  | .cmd => 0
  | .cmdStart => 1
  | .senderCmd => 2
  | .senderStart => 3
  | .log => 4
  | .watch => 5
  | .wait => 6
  | .waiting _ => 7
  | .cancel => 8
  | .delete => 9
  | .done => 10

/-- A `ping` and the `launch` that made it. Source: `agent.go`, `launch`. Kind: D -/
structure PingOf (s : State) (id : ℕ) (c : Cmd) (l : Launch) : Prop where
  program : c.program = .ping (s.heap l.child).t.peerIp
  made : 1 ≤ l.pc.rank
  held : l.pc.rank < 10 → (s.heap l.child).cmd = some id
  created : c.status = .created → l.pc.rank ≤ 4 ∨ s.panicked
  waited : c.waited = true → 7 ≤ l.pc.rank
  waiting : ∀ id', l.pc = .waiting id' → id' = id
  ended : 8 ≤ l.pc.rank → c.status = .exited

/-- Where the commands of the children come from. Source: `agent.go`, `launch`. Kind: D -/
structure Pings (s : State) : Prop where
  sender : ∀ r id, (s.heap r).senderCmd = some id →
    ∃ c a b m, s.cmds[id]? = some c ∧ c.program = .sender a b m
  own : ∀ (n : ℕ) l, s.launches[n]? = some l → 1 ≤ l.pc.rank → l.pc.rank < 10 →
    ∃ id c ip, (s.heap l.child).cmd = some id ∧ s.cmds[id]? = some c ∧ c.launch = n ∧ c.program = .ping ip
  ping : ∀ (id : ℕ) c ip, s.cmds[id]? = some c → c.program = .ping ip →
    ∃ l, s.launches[c.launch]? = some l ∧ PingOf s id c l

/-- A statement of one goroutine leaves the others and their processes.
Source: `agent.go`, `launch`
Kind: L -/
theorem Pings.frame (h : Pings s) (hl : s.launches[n]? = some l)
    (hset : s'.launches = s.launches.set n l') (hchild : l'.child = l.child)
    (hheap : ∀ (m : ℕ) l₂, m ≠ n → s.launches[m]? = some l₂ → l₂.pc.rank < 10 →
      s'.heap l₂.child = s.heap l₂.child)
    (ht : ∀ r, (s'.heap r).t = (s.heap r).t) (hpanicked : s.panicked → s'.panicked)
    (hsender : ∀ r id, (s'.heap r).senderCmd = some id →
      ∃ c a b m, s'.cmds[id]? = some c ∧ c.program = .sender a b m)
    (hothers : ∀ (id : ℕ) (c : Cmd) ip, c.program = .ping ip → c.launch ≠ n →
      (s'.cmds[id]? = some c ↔ s.cmds[id]? = some c))
    (hown : 1 ≤ l'.pc.rank → l'.pc.rank < 10 → ∃ id c ip, (s'.heap l.child).cmd = some id ∧
      s'.cmds[id]? = some c ∧ c.launch = n ∧ c.program = .ping ip)
    (hping : ∀ id c ip, s'.cmds[id]? = some c → c.program = .ping ip → c.launch = n →
      PingOf s' id c l') : Pings s' := by
  have hlt := (List.getElem?_eq_some_iff.mp hl).1
  refine ⟨hsender, fun m l₂ hl₂ hmade hrank => ?_, fun id c ip hc hip => ?_⟩
  · rw [hset, List.getElem?_set] at hl₂
    split at hl₂
    · next heq =>
      obtain rfl := Option.some.inj hl₂
      rw [hchild, ← heq]
      exact hown hmade hrank
    · next hne =>
      obtain ⟨id, c, ip, hcmd, hc, hlaunch, hip⟩ := h.own m l₂ hl₂ hmade hrank
      refine ⟨id, c, ip, ?_, (hothers id c ip hip ?_).mpr hc, hlaunch, hip⟩
      · rw [hheap m l₂ (Ne.symm hne) hl₂ hrank, hcmd]
      · rw [hlaunch]
        exact Ne.symm hne
  · by_cases hn : c.launch = n
    · refine ⟨l', ?_, hping id c ip hc hip hn⟩
      rw [hset, hn, List.getElem?_set_self hlt]
    · obtain ⟨l₂, hl₂, hof⟩ := h.ping id c ip ((hothers id c ip hip hn).mp hc) hip
      refine ⟨l₂, by rw [hset, List.getElem?_set_ne (Ne.symm hn), hl₂], ?_, hof.made, fun hrank => ?_,
        fun hcreated => (hof.created hcreated).imp_right hpanicked, hof.waited, hof.waiting, hof.ended⟩
      · rw [ht, hof.program]
      · rw [hheap _ l₂ hn hl₂ hrank, hof.held hrank]

/-- A statement that changes at most the state of one command, of its own child.
Source: `agent.go`, `launch`
Kind: L -/
theorem Pings.modify (h : Pings s) (hl : s.launches[n]? = some l)
    (hset : s'.launches = s.launches.set n l') (hchild : l'.child = l.child) (hheap : s'.heap = s.heap)
    (hpanicked : s.panicked → s'.panicked) {cmd : Option ℕ} {f : Cmd → Cmd}
    (hcmds : s'.cmds = cmd.elim s.cmds fun id => s.cmds.modify id f)
    (hf : ∀ c, (f c).launch = c.launch ∧ (f c).program = c.program)
    (hcmd : ∀ id c ip, cmd = some id → s.cmds[id]? = some c → c.program = .ping ip → c.launch = n)
    (hlive : 1 ≤ l'.pc.rank → l'.pc.rank < 10 → 1 ≤ l.pc.rank ∧ l.pc.rank < 10)
    (hof : ∀ id c, s.cmds[id]? = some c → PingOf s id c l →
      PingOf s' id (if cmd = some id then f c else c) l') : Pings s' := by
  have hget : ∀ id : ℕ, s'.cmds[id]? = s.cmds[id]?.map fun c => if cmd = some id then f c else c := by
    intro id
    rw [hcmds]
    cases cmd with
    | none => simp
    | some id' =>
        rw [Option.elim_some, List.getElem?_modify]
        by_cases h : id' = id <;> simp [h]
  have hkeep : ∀ id c, (if cmd = some id then f c else c).launch = c.launch ∧
      (if cmd = some id then f c else c).program = c.program := by
    intro id c
    split
    · exact hf c
    · exact ⟨rfl, rfl⟩
  refine h.frame hl hset hchild (fun _ _ _ _ _ => by rw [hheap]) (fun _ => by rw [hheap]) hpanicked
    ?_ ?_ ?_ ?_
  · intro r id hr
    rw [hheap] at hr
    obtain ⟨c, a, b, m, hc, hprogram⟩ := h.sender r id hr
    exact ⟨_, a, b, m, by rw [hget, hc, Option.map_some], by rw [(hkeep id c).2, hprogram]⟩
  · intro id c ip hip hne
    rw [hget]
    constructor
    · intro hc
      obtain ⟨c', hc', rfl⟩ := Option.map_eq_some_iff.mp hc
      rw [(hkeep id c').1] at hne
      rw [(hkeep id c').2] at hip
      rw [if_neg fun heq => hne (hcmd id c' ip heq hc' hip), hc']
    · intro hc
      rw [hc, Option.map_some, if_neg fun heq => hne (hcmd id c ip heq hc hip)]
  · intro hmade hrank
    obtain ⟨hmade', hrank'⟩ := hlive hmade hrank
    obtain ⟨id, c, ip, hown, hc, hn, hip⟩ := h.own n l hl hmade' hrank'
    exact ⟨id, _, ip, by rw [hheap, hown], by rw [hget, hc, Option.map_some], by rw [(hkeep id c).1, hn],
      by rw [(hkeep id c).2, hip]⟩
  · intro id c ip hc hip hn
    rw [hget] at hc
    obtain ⟨c', hc', rfl⟩ := Option.map_eq_some_iff.mp hc
    rw [(hkeep id c').1] at hn
    rw [(hkeep id c').2] at hip
    obtain ⟨l₂, hl₂, hof'⟩ := h.ping id c' ip hc' hip
    rw [hn, hl] at hl₂
    exact hof id c' hc' (Option.some.inj hl₂ ▸ hof')

/-- A statement that changes no command. Source: `agent.go`, `launch`. Kind: L -/
theorem Pings.move (h : Pings s) (hl : s.launches[n]? = some l)
    (hset : s'.launches = s.launches.set n l') (hchild : l'.child = l.child) (hheap : s'.heap = s.heap)
    (hpanicked : s.panicked → s'.panicked) (hcmds : s'.cmds = s.cmds)
    (hlive : 1 ≤ l'.pc.rank → l'.pc.rank < 10 → 1 ≤ l.pc.rank ∧ l.pc.rank < 10)
    (hof : ∀ id c, s.cmds[id]? = some c → PingOf s id c l → PingOf s' id c l') : Pings s' :=
  @Pings.modify s s' n l l' h hl hset hchild hheap hpanicked none id hcmds (fun _ => ⟨rfl, rfl⟩) nofun
    hlive fun id c hc h => by simpa using hof id c hc h

/-- A `ping` while its `launch` goes on. Source: `agent.go`, `launch`. Kind: L -/
theorem PingOf.next {id : ℕ} {c c' : Cmd} (hof : PingOf s id c l) (hchild : l'.child = l.child)
    (hheap : s'.heap = s.heap) (hprogram : c'.program = c.program)
    (hrank : l.pc.rank ≤ l'.pc.rank)
    (hcreated : c'.status = .created → l'.pc.rank ≤ 4 ∨ s'.panicked)
    (hwaited : c'.waited = true → 7 ≤ l'.pc.rank) (hwaiting : ∀ id', l'.pc = .waiting id' → id' = id)
    (hended : 8 ≤ l'.pc.rank → c'.status = .exited) : PingOf s' id c' l' where
  program := by rw [hprogram, hchild, hheap, hof.program]
  made := hof.made.trans hrank
  held hlt := by rw [hchild, hheap, hof.held (lt_of_le_of_lt hrank hlt)]
  created := hcreated
  waited := hwaited
  waiting := hwaiting
  ended := hended

/-- The making of a command. Source: `agent.go`, `launch`. Kind: L -/
theorem Pings.make (h : Pings s) (howned : Owned s) (hl : s.launches[n]? = some l) (hpc : l.pc ≠ .done)
    {c : Child} {program : Program} (hset : s'.launches = s.launches.set n l') (hchild : l'.child = l.child)
    (hheap : s'.heap = Function.update s.heap l.child c) (ht : c.t = (s.heap l.child).t)
    (hpanicked : s.panicked → s'.panicked)
    (hcmds : s'.cmds = s.cmds ++ [⟨n, program, .created, false⟩])
    (hmade : program = .ping c.t.peerIp ∧ l.pc = .cmd ∧ l'.pc = .cmdStart ∧ c.cmd = s.cmds.length ∧
        c.senderCmd = (s.heap l.child).senderCmd ∨
      (∃ a b m, program = .sender a b m) ∧ l.pc = .senderCmd ∧ l'.pc = .senderStart ∧
        c.cmd = (s.heap l.child).cmd ∧ c.senderCmd = s.cmds.length) : Pings s' := by
  have hold : ∀ (id : ℕ) c, s.cmds[id]? = some c → s'.cmds[id]? = some c := by
    intro id c hc
    rw [hcmds, List.getElem?_append_left (List.getElem?_eq_some_iff.mp hc).1, hc]
  have hnew : s'.cmds[s.cmds.length]? = some ⟨n, program, .created, false⟩ := by
    rw [hcmds, List.getElem?_concat_length]
  have hcases : ∀ (id : ℕ) c, s'.cmds[id]? = some c →
      s.cmds[id]? = some c ∨ id = s.cmds.length ∧ c = ⟨n, program, .created, false⟩ := by
    intro id c hc
    rw [hcmds, List.getElem?_append] at hc
    grind
  have hself : s'.heap l.child = c := by rw [hheap, Function.update_self]
  have hne : ∀ r, r ≠ l.child → s'.heap r = s.heap r := fun r hr => by
    rw [hheap, Function.update_of_ne hr]
  refine h.frame hl hset hchild (fun m l₂ hm hl₂ hrank => hne _ ?_) (fun r => ?_) hpanicked ?_ ?_ ?_ ?_
  · refine howned.child_ne hl₂ hl (fun hdone => ?_) hpc hm
    rw [hdone] at hrank
    exact absurd hrank (lt_irrefl 10)
  · by_cases hr : r = l.child
    · rw [hr, hself, ht]
    · rw [hne r hr]
  · intro r id hr
    by_cases hchild : r = l.child
    · rw [hchild, hself] at hr
      rcases hmade with ⟨-, -, -, -, hsender⟩ | ⟨⟨a, b, m, rfl⟩, -, -, -, hsender⟩
      · obtain ⟨c', a, b, m, hc', hprogram⟩ := h.sender l.child id (hsender ▸ hr)
        exact ⟨c', a, b, m, hold id c' hc', hprogram⟩
      · obtain rfl := Option.some.inj (hsender.symm.trans hr)
        exact ⟨_, a, b, m, hnew, rfl⟩
    · obtain ⟨c', a, b, m, hc', hprogram⟩ := h.sender r id (hne r hchild ▸ hr)
      exact ⟨c', a, b, m, hold id c' hc', hprogram⟩
  · intro id c' ip hip hlaunch
    refine ⟨fun hc' => (hcases id c' hc').resolve_right ?_, hold id c'⟩
    rintro ⟨-, rfl⟩
    exact hlaunch rfl
  · intro hmade' hrank
    rw [hself]
    rcases hmade with ⟨rfl, -, -, hcmd, -⟩ | ⟨-, hpc, -, hcmd, -⟩
    · exact ⟨_, _, _, hcmd, hnew, rfl, rfl⟩
    · obtain ⟨id, c', ip, hown, hc', hn, hip⟩ :=
        h.own n l hl (by rw [hpc]; decide) (by rw [hpc]; decide)
      exact ⟨id, c', ip, by rw [hcmd, hown], hold id c' hc', hn, hip⟩
  · intro id c' ip hc' hip hn
    rcases hcases id c' hc' with hc' | ⟨rfl, rfl⟩
    · obtain ⟨l₂, hl₂, hof⟩ := h.ping id c' ip hc' hip
      obtain rfl : l = l₂ := by
        rw [hn, hl] at hl₂
        exact Option.some.inj hl₂
      rcases hmade with ⟨-, hpc, -⟩ | ⟨-, hpc, hpc', hcmd, -⟩
      · have hmade := hof.made
        rw [hpc] at hmade
        exact absurd hmade (by decide)
      · have hrank : l.pc.rank = 2 := by rw [hpc]; rfl
        have hrank' : l'.pc.rank = 3 := by rw [hpc']; rfl
        refine ⟨?_, by omega, fun _ => ?_, fun _ => Or.inl (by omega), fun hwaited => ?_, fun id' hwait => ?_,
          by omega⟩
        · rw [hchild, hself, ht, hof.program]
        · rw [hchild, hself, hcmd, hof.held (by omega)]
        · have := hof.waited hwaited
          omega
        · rw [hpc'] at hwait
          cases hwait
    · rcases hmade with ⟨rfl, -, hpc', hcmd, -⟩ | ⟨⟨a, b, m, rfl⟩, -⟩
      · have hrank' : l'.pc.rank = 1 := by rw [hpc']; rfl
        refine ⟨?_, by omega, fun _ => ?_, fun _ => Or.inl (by omega), nofun, fun id' hwait => ?_, by omega⟩
        · rw [hchild, hself]
        · rw [hchild, hself, hcmd]
        · rw [hpc'] at hwait
          cases hwait
      · cases hip

/-- Source: `agent.go`, `launch`. Kind: L -/
theorem Pings.launch (h : Pings s) (howned : Owned s) (hpanicked : s.panicked = false)
    (hs : s.launch n forked = some s') : Pings s' := by
  unfold State.launch at hs
  obtain ⟨l, hl, hs⟩ := Option.bind_eq_some_iff.mp hs
  have hping : ∀ (id : ℕ) (c : Cmd) ip, s.cmds[id]? = some c → c.program = .ping ip → c.launch = n →
      PingOf s id c l := by
    intro id c ip hc hip hn
    obtain ⟨l₂, hl₂, hof⟩ := h.ping id c ip hc hip
    rw [hn, hl] at hl₂
    exact Option.some.inj hl₂ ▸ hof
  have hsender : ∀ id c ip, (s.heap l.child).senderCmd = some id → s.cmds[id]? = some c →
      c.program = .ping ip → c.launch = n := by
    intro id c ip hid hc hip
    obtain ⟨c', a, b, m, hc', hprogram⟩ := h.sender _ id hid
    obtain rfl := Option.some.inj (hc.symm.trans hc')
    cases hip.symm.trans hprogram
  have hown : 1 ≤ l.pc.rank → l.pc.rank < 10 → ∀ id c ip, (s.heap l.child).cmd = some id →
      s.cmds[id]? = some c → c.program = .ping ip → c.launch = n := by
    intro hmade hrank id c ip hid hc hip
    obtain ⟨id', c', ip', hid', hc', hn, -⟩ := h.own n l hl hmade hrank
    obtain rfl := Option.some.inj (hid.symm.trans hid')
    obtain rfl := Option.some.inj (hc.symm.trans hc')
    exact hn
  cases hpc : l.pc <;> simp only [hpc, Option.some.injEq, reduceCtorEq] at hs
  case cmd =>
    subst hs
    exact h.make howned hl (by simp [hpc]) rfl rfl rfl rfl id rfl (Or.inl ⟨rfl, hpc, rfl, rfl, rfl⟩)
  case senderCmd =>
    subst hs
    exact h.make howned hl (by simp [hpc]) rfl rfl rfl rfl id rfl
      (Or.inr ⟨⟨_, _, _, rfl⟩, hpc, rfl, rfl, rfl⟩)
  case cmdStart =>
    have hrank : l.pc.rank = 1 := by rw [hpc]; rfl
    subst hs
    refine h.modify hl rfl rfl rfl (by simp [hpanicked]) rfl ?_ (hown (by omega) (by omega))
      (by omega) fun id c hc hof => ?_
    · intro c
      split <;> exact ⟨rfl, rfl⟩
    · have hwaited := hof.waited
      refine hof.next rfl rfl ?_ ?_ ?_ ?_ nofun ?_ <;> grind [LaunchPc.rank]
  case senderStart =>
    have hrank : l.pc.rank = 3 := by rw [hpc]; rfl
    subst hs
    refine h.modify hl rfl rfl rfl (by simp [hpanicked]) rfl ?_ hsender (by omega) fun id c hc hof => ?_
    · intro c
      split <;> exact ⟨rfl, rfl⟩
    · have hwaited := hof.waited
      refine hof.next rfl rfl ?_ ?_ ?_ ?_ nofun ?_ <;> grind [LaunchPc.rank]
  case log =>
    have hrank : l.pc.rank = 4 := by rw [hpc]; rfl
    subst hs
    refine h.move hl rfl rfl rfl (by simp [hpanicked]) rfl (by omega) fun id c hc hof => ?_
    have hheld := hof.held (by omega)
    have hwaited := hof.waited
    refine hof.next rfl rfl rfl ?_ (fun hcreated => Or.inr ?_) ?_ nofun ?_
    · grind [LaunchPc.rank]
    · have hnone : s.hasProcess (s.heap l.child).cmd = false := by
        simp [State.hasProcess, State.command, hheld, hc, hcreated]
      simp [State.goto, State.check, hnone]
    · grind [LaunchPc.rank]
    · grind [LaunchPc.rank]
  case watch =>
    have hrank : l.pc.rank = 5 := by rw [hpc]; rfl
    subst hs
    refine h.move hl rfl rfl rfl id rfl (by omega) fun id c hc hof => ?_
    have hwaited := hof.waited
    have hcreated := hof.created
    refine hof.next rfl rfl rfl ?_ ?_ ?_ nofun ?_ <;> grind [LaunchPc.rank]
  case wait =>
    have hrank : l.pc.rank = 6 := by rw [hpc]; rfl
    subst hs
    refine h.modify hl rfl rfl rfl (by simp [hpanicked]) rfl ?_ (hown (by omega) (by omega))
      (by omega) fun id c hc hof => ?_
    · exact fun c => ⟨rfl, rfl⟩
    · have hheld := hof.held (by omega)
      have hwaited : c.waited = false := by
        by_contra hwaited
        have := hof.waited (by simpa using hwaited)
        omega
      have hstatus : c.status ≠ .created := by
        intro hcreated
        rcases hof.created hcreated with hle | hpanic
        · omega
        · rw [hpanicked] at hpanic
          cases hpanic
      have hblocks : s.blocks (s.heap l.child).cmd = some id := by
        simp [State.blocks, State.command, hheld, hc, hwaited, hstatus]
      rw [hblocks, if_pos hheld]
      refine hof.next rfl rfl rfl ?_ (absurd · hstatus) (fun _ => le_refl 7) ?_ ?_
      · rw [hrank]
        exact show 6 ≤ 7 by decide
      · exact fun id' hwait => LaunchPc.waiting.inj hwait.symm
      · exact fun hle => absurd hle (show ¬8 ≤ 7 by decide)
  case waiting id' =>
    have hrank : l.pc.rank = 7 := by rw [hpc]; rfl
    obtain ⟨hexit, hs⟩ := Option.ite_none_right_eq_some.mp hs
    obtain rfl := Option.some.inj hs
    refine h.move hl rfl rfl rfl id rfl (by omega) fun id c hc hof => ?_
    have hwaiting := hof.waiting id' hpc
    have hcreated := hof.created
    refine hof.next rfl rfl rfl ?_ ?_ ?_ nofun ?_ <;> grind [LaunchPc.rank, State.hasExited]
  case cancel =>
    have hrank : l.pc.rank = 8 := by rw [hpc]; rfl
    subst hs
    refine h.move hl rfl rfl rfl (by simp [hpanicked]) rfl (by omega) fun id c hc hof => ?_
    have hended := hof.ended
    refine hof.next rfl rfl rfl ?_ ?_ ?_ nofun ?_ <;> grind [LaunchPc.rank]
  case delete =>
    have hrank : l.pc.rank = 9 := by rw [hpc]; rfl
    subst hs
    refine h.move hl rfl rfl rfl id rfl (by omega) fun id c hc hof => ?_
    have hended := hof.ended
    refine hof.next rfl rfl rfl ?_ ?_ ?_ nofun ?_ <;> grind [LaunchPc.rank]

/-- Source: `agent.go`, `launch`. Kind: L -/
theorem Pings.watch (h : Pings s) (hs : s.watch n = some s') : Pings s' := by
  unfold State.watch at hs
  obtain ⟨l, hl, hs⟩ := Option.bind_eq_some_iff.mp hs
  cases hwatch : l.watch <;> simp only [hwatch, Option.some.injEq, reduceCtorEq] at hs
  case wait =>
    have hsender : ∀ id c ip, (s.heap l.child).senderCmd = some id → s.cmds[id]? = some c →
        c.program ≠ .ping ip := by
      intro id c ip hid hc hip
      obtain ⟨c', a, b, m, hc', hprogram⟩ := h.sender _ id hid
      obtain rfl := Option.some.inj (hc.symm.trans hc')
      cases hip.symm.trans hprogram
    subst hs
    refine h.modify hl rfl rfl rfl (fun hp => by simp [State.goto, State.wait, State.modifyCmd, State.check, hp])
      rfl (fun c => ⟨rfl, rfl⟩) (fun id c ip hid hc hip => absurd hip (hsender id c ip hid hc))
      (fun hmade hrank => ⟨hmade, hrank⟩) fun id c hc hof => ?_
    rw [if_neg fun hid => hsender id c _ hid hc hof.program]
    refine hof.next rfl rfl rfl le_rfl (fun hcreated => ?_) hof.waited hof.waiting hof.ended
    exact (hof.created hcreated).imp_right fun hp => by
      simp [State.goto, State.wait, State.modifyCmd, State.check, hp]
  case waiting id =>
    obtain ⟨-, hs⟩ := Option.ite_none_right_eq_some.mp hs
    obtain rfl := Option.some.inj hs
    exact h.move hl rfl rfl rfl (fun hp => hp) rfl (fun hmade hrank => ⟨hmade, hrank⟩) fun id c _ hof =>
      hof.next rfl rfl rfl le_rfl hof.created hof.waited hof.waiting hof.ended
  case cancel =>
    have hpanic : s.panicked = true → ((s.cancel (.watch n) (s.heap l.child).cmd).goto n
        { l with watch := .done }).panicked = true := fun hp => by
      simp [State.goto, State.cancel, State.check, hp]
    subst hs
    exact h.move hl rfl rfl rfl hpanic rfl (fun hmade hrank => ⟨hmade, hrank⟩) fun id c _ hof =>
      hof.next rfl rfl rfl le_rfl (fun hcreated => (hof.created hcreated).imp_right hpanic) hof.waited
        hof.waiting hof.ended

/-- A step of the main loop, or the end of a process. Source: `agent.go`, `synchronize`. Kind: L -/
theorem Pings.lift (h : Pings s)
    (hlaunch : ∀ (n : ℕ) l, s.launches[n]? = some l → s'.launches[n]? = some l)
    (hnew : ∀ (n : ℕ) l, s'.launches[n]? = some l → s.launches[n]? = some l ∨ l.pc = .cmd)
    (hheap : ∀ (n : ℕ) l, s.launches[n]? = some l → s'.heap l.child = s.heap l.child)
    (hsender : ∀ r, (s'.heap r).senderCmd = none ∨ s'.heap r = s.heap r)
    (hpanicked : s.panicked → s'.panicked) {ends : ℕ → Bool}
    (hget : ∀ id : ℕ, s'.cmds[id]? =
      s.cmds[id]?.map fun c => if ends id then { c with status := .exited } else c) : Pings s' := by
  have hkeep : ∀ id (c : Cmd), (if ends id then { c with status := .exited } else c).launch = c.launch ∧
      (if ends id then { c with status := .exited } else c).program = c.program := by
    intro id c
    split <;> exact ⟨rfl, rfl⟩
  refine ⟨fun r id hr => ?_, fun n l hl hmade hrank => ?_, fun id c ip hc hip => ?_⟩
  · rcases hsender r with hnone | heq
    · cases hnone.symm.trans hr
    · obtain ⟨c, a, b, m, hc, hprogram⟩ := h.sender r id (heq ▸ hr)
      exact ⟨_, a, b, m, by rw [hget, hc, Option.map_some], by rw [(hkeep id c).2, hprogram]⟩
  · rcases hnew n l hl with hold | hpc
    · obtain ⟨id, c, ip, hown, hc, hn, hip⟩ := h.own n l hold hmade hrank
      exact ⟨id, _, ip, by rw [hheap n l hold, hown], by rw [hget, hc, Option.map_some],
        by rw [(hkeep id c).1, hn], by rw [(hkeep id c).2, hip]⟩
    · rw [hpc] at hmade
      exact absurd hmade (by decide)
  · rw [hget] at hc
    obtain ⟨c', hc', rfl⟩ := Option.map_eq_some_iff.mp hc
    rw [(hkeep id c').2] at hip
    obtain ⟨l, hl, hof⟩ := h.ping id c' ip hc' hip
    refine ⟨l, by rw [(hkeep id c').1]; exact hlaunch _ l hl, ?_, hof.made, fun hrank => ?_, ?_, ?_,
      hof.waiting, ?_⟩
    · rw [(hkeep id c').2, hheap _ l hl, hof.program]
    · rw [hheap _ l hl, hof.held hrank]
    · split
      · exact nofun
      · exact fun hcreated => (hof.created hcreated).imp_right hpanicked
    · split <;> exact hof.waited
    · split
      · exact fun _ => rfl
      · exact hof.ended

theorem map_ends_false (x : Option Cmd) :
    x = x.map fun c => if false then { c with status := .exited } else c := by
  cases x <;> rfl

/-- Source: none: infrastructure. Kind: L -/
theorem Pings.exit (h : Pings s) {id : ℕ} (hs : s.exit id = some s') : Pings s' := by
  obtain ⟨c, -, hs⟩ := Option.bind_eq_some_iff.mp hs
  obtain ⟨-, hs⟩ := Option.ite_none_right_eq_some.mp hs
  obtain rfl := Option.some.inj hs
  refine @Pings.lift _ _ h (fun _ _ h => h) (fun _ _ h => Or.inl h) (fun _ _ _ => rfl)
    (fun _ => Or.inr rfl) (fun h => h) (fun id' => id = id') fun id' => ?_
  rw [State.modifyCmd, Option.elim_some, List.getElem?_modify]
  by_cases heq : id = id' <;> simp [heq]

/-- Source: `agent.go`, `synchronize`. Kind: L -/
theorem Pings.looks (h : Pings s) (hpanicked : s.panicked = false) {a : Action} (hs : act s a = some s')
    (ha : a.looks) : Pings s' := by
  obtain ⟨main, log, panicked, rfl⟩ := looks_frame ha hs
  exact @Pings.lift _ _ h (fun _ _ h => h) (fun _ _ h => Or.inl h) (fun _ _ _ => rfl)
    (fun _ => Or.inr rfl) (fun hp => absurd (hpanicked.symm.trans hp) nofun) (fun _ => false)
    fun _ => map_ends_false _

/-- Source: `agent.go`, `synchronize`. Kind: L -/
theorem Pings.add (h : Pings s) {key : Bytes} (hs : s.add key = some s') : Pings s' := by
  obtain ⟨visited, r, hmain, hr, -, ⟨-, rfl⟩ | ⟨hkey, rfl⟩⟩ := add_cases hs
  · exact @Pings.lift _ _ h (fun _ _ h => h) (fun _ _ h => Or.inl h) (fun _ _ _ => rfl)
      (fun _ => Or.inr rfl) (fun h => h) (fun _ => false) fun _ => map_ends_false _
  · refine @Pings.lift _ _ h (fun n l hl => ?_) (fun n l hl => ?_) (fun _ _ _ => rfl)
      (fun _ => Or.inr rfl) (fun h => h) (fun _ => false) fun _ => map_ends_false _
    · rw [List.getElem?_append_left (List.getElem?_eq_some_iff.mp hl).1, hl]
    · rw [List.getElem?_append] at hl
      split at hl
      · exact Or.inl hl
      · exact Or.inr (by rw [List.mem_singleton.mp (List.mem_of_getElem? hl)])

/-- Source: `agent.go`, `getTargets`. Kind: L -/
theorem addTargets_frame (list : List Target) : ∀ s : State,
    (list.foldl State.addTarget s).cmds = s.cmds ∧ (list.foldl State.addTarget s).launches = s.launches ∧
      (list.foldl State.addTarget s).children = s.children ∧
      (list.foldl State.addTarget s).log = s.log ∧
      (list.foldl State.addTarget s).panicked = s.panicked ∧
      (∀ r, r < s.next → (list.foldl State.addTarget s).heap r = s.heap r) ∧
      ∀ r, (∃ t, (list.foldl State.addTarget s).heap r = ⟨t, none, none⟩) ∨
        (list.foldl State.addTarget s).heap r = s.heap r := by
  induction list with
  | nil => exact fun s => ⟨rfl, rfl, rfl, rfl, rfl, fun _ _ => rfl, fun _ => Or.inr rfl⟩
  | cons t list ih =>
      intro s
      obtain ⟨hcmds, hlaunches, hchildren, hlog, hpanicked, hheap, hfresh⟩ := ih (s.addTarget t)
      refine ⟨hcmds, hlaunches, hchildren, hlog, hpanicked, fun r hr => ?_, fun r => ?_⟩
      · rw [List.foldl_cons, hheap r (Nat.lt_succ_of_lt hr)]
        exact Function.update_of_ne hr.ne _ _
      · rw [List.foldl_cons]
        rcases hfresh r with hnew | heq
        · exact Or.inl hnew
        · rw [heq]
          by_cases hr : r = s.next
          · exact Or.inl ⟨t, by rw [hr]; exact Function.update_self _ _ _⟩
          · exact Or.inr (Function.update_of_ne hr _ _)

/-- Source: `agent.go`, `synchronize`. Kind: L -/
theorem Pings.getTargets (h : Pings s) (howned : Owned s) {answer : Option (List Target)}
    (hs : s.getTargets answer = some s') : Pings s' := by
  obtain ⟨-, ⟨-, rfl⟩ | ⟨list, -, rfl⟩⟩ := getTargets_cases hs
  · exact @Pings.lift _ _ h (fun _ _ h => h) (fun _ _ h => Or.inl h) (fun _ _ _ => rfl)
      (fun _ => Or.inr rfl) (fun h => h) (fun _ => false) fun _ => map_ends_false _
  · obtain ⟨hcmds, hlaunches, -, -, hpanicked, hheap, hfresh⟩ :=
      addTargets_frame list { s with targets := .empty }
    refine @Pings.lift _ _ h (fun n l hl => (congrArg (·[n]?) hlaunches).trans hl)
      (fun n l hl => Or.inl ((congrArg (·[n]?) hlaunches).symm.trans hl))
      (fun n l hl => hheap _ (howned.key n _ _ _ (view_of_get hl)).2) (fun r => ?_)
      (fun hp => hpanicked.trans hp) (fun _ => false) fun id => ?_
    · exact (hfresh r).imp_left fun ⟨t, ht⟩ => by rw [ht]
    · rw [hcmds]
      exact map_ends_false _

/-- Source: `agent.go`. Kind: L -/
theorem Pings.act (h : Pings s) (howned : Owned s) (hpanicked : s.panicked = false) {a : Action}
    (hs : act s a = some s') : Pings s' := by
  cases a with
  | getTargets answer => exact h.getTargets howned hs
  | add key => exact h.add hs
  | endAdd | remove key | cancelSender | endRemove => exact h.looks hpanicked hs trivial
  | launch n forked => exact h.launch howned hpanicked hs
  | watch n => exact h.watch hs
  | exit id => exact h.exit hs

/-- Source: `agent.go`. Kind: L -/
theorem pings_run (es : List Action) : Pings (launcher.run es) := by
  induction es using List.reverseRecOn with
  | nil => exact ⟨nofun, nofun, nofun⟩
  | append_singleton es a ih =>
      rw [EventMachine.run_concat]
      refine step_cases _ a ih fun s' hs hpanicked => ?_
      cases a with
      | exit id => exact ih.exit hs
      | _ => exact ih.act (owned_run es) (hpanicked nofun) hs

/-- The `ping` of a key is running. Source: `agent.go`, `launch`. Kind: D -/
def State.Running (s : State) (key : Bytes) (id : ℕ) : Prop :=
  ∃ c l ip, s.cmds[id]? = some c ∧ c.program = .ping ip ∧ c.status = .running ∧
    s.launches[c.launch]? = some l ∧ l.key = key

/-- **No key has two running `ping` processes**, in any interleaving of the main loop, the goroutines
and the ends of processes, whatever the controller answers and whatever fails to start. The one there
is belongs to the entry of `children` under the key, and pings the peer of that key.
Source: `agent.go`, `main`, `synchronize`, `launch`
Kind: P -/
theorem single_ping (es : List Action) {key : Bytes} {id : ℕ} (h : (launcher.run es).Running key id) :
    (∃ r t, (launcher.run es).children.get key = some r ∧
        (launcher.run es).heap r = ⟨t, id, ((launcher.run es).heap r).senderCmd⟩ ∧ t.key = key ∧
        ((launcher.run es).command id).map Cmd.program = some (.ping t.peerIp)) ∧
      ∀ id', (launcher.run es).Running key id' → id' = id := by
  have howned := owned_run es
  have hpings := pings_run es
  have hentry : ∀ id, (launcher.run es).Running key id → ∃ n r c, (launcher.run es).view n = some (r, key, false) ∧
      (launcher.run es).cmds[id]? = some c ∧ c.program = .ping ((launcher.run es).heap r).t.peerIp ∧
      ((launcher.run es).heap r).cmd = some id := by
    rintro id ⟨c, l, ip, hc, hip, hrunning, hl, rfl⟩
    obtain ⟨l', hl', hof⟩ := hpings.ping id c ip hc hip
    obtain rfl := Option.some.inj (hl.symm.trans hl')
    have hrank : l.pc.rank < 8 := by
      by_contra hge
      have := hof.ended (by omega)
      rw [hrunning] at this
      cases this
    have hpc : l.pc ≠ .done := fun hdone => by
      rw [hdone] at hrank
      exact absurd hrank (by decide)
    refine ⟨c.launch, l.child, c, ?_, hc, hof.program, hof.held (by omega)⟩
    rw [view_of_get hl, Launch.view, decide_eq_false hpc]
  obtain ⟨n, r, c, hn, hc, hprogram, hcmd⟩ := hentry id h
  refine ⟨⟨r, ((launcher.run es).heap r).t, (howned.entry key r).mpr ⟨n, hn⟩, ?_,
    (howned.key n r key false hn).1, ?_⟩, fun id' h' => ?_⟩
  · rw [← hcmd]
  · rw [State.command, Option.bind_some, hc, Option.map_some, hprogram]
  · obtain ⟨n', r', c', hn', -, -, hcmd'⟩ := hentry id' h'
    obtain rfl := howned.unique n n' r r' key hn hn'
    obtain rfl : r = r' := by
      rw [hn] at hn'
      cases hn'
      rfl
    exact Option.some.inj (hcmd'.symm.trans hcmd)

/-- Source: none: example. Kind: D -/
def exampleTarget : Target :=
  ⟨ascii "ping", ascii "m", ascii "a", ascii "10.0.0.1", ascii "b", ascii "10.0.0.2", 30, 1000⟩

/-- A child comes to its end and is launched anew. Source: `agent.go`, `main`. Kind: D -/
def relaunchRun : List Action :=
  [.getTargets (some [exampleTarget]), .add exampleTarget.key, .endAdd] ++ List.replicate 7 (.launch 0 true) ++
    [.exit 0, .launch 0 true, .launch 0 true, .launch 0 true, .endRemove,
      .getTargets (some [exampleTarget]), .add exampleTarget.key, .launch 1 true, .launch 1 true]

theorem single_ping_relaunchRun : (launcher.run relaunchRun).Running exampleTarget.key 2 ∧
    ∀ id, (launcher.run relaunchRun).Running exampleTarget.key id → id = 2 := by
  have hrunning : (launcher.run relaunchRun).Running exampleTarget.key 2 :=
    ⟨⟨1, .ping (ascii "10.0.0.2"), .running, false⟩, ⟨1, exampleTarget.key, .senderCmd, .idle⟩, _,
      by decide +kernel, rfl, rfl, by decide +kernel, rfl⟩
  exact ⟨hrunning, (single_ping relaunchRun hrunning).2⟩

end UDPing.Launcher
