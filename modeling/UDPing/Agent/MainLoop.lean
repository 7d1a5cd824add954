import UDPing.Agent.Servers
import UDPing.Controller.Integrity
import UDPing.Lib.Simulation

/-!
# The agents' main loops and the controller

* `Loop.pass`: one pass of the main loop of `udping_agent`. `controlPlane`: one controller and an agent
  on any number of hosts, that are started, interrupted and make their passes in any order.
* `Current`: the children are those for a list of rows. `lastAnswered`: the tables that the controller
  had when it last answered an agent.
* **`current_of_lastAnswered`**: in every run the children of an agent are those for these tables.
* **`settled_of_quiet`**: when the tables no longer change, the agents come to agree with them.
-/

namespace UDPing.Agent

open Lib
open UDPing.Controller

/-! ## One agent -/

/-- What one pass of the loop finds: the controller's answer if it is asked, the processes that have
terminated, and the time after the sleep.
Source: `udping_agent`
Kind: D -/
structure Pass where
  answer : Option (List Peer)
  exited : ℕ → Bool
  time : ℕ

/-- `fork i`: the number of the process that the `i`-th `fork` makes. Source: `udping_agent`. Kind: D -/
structure Loop where
  fork : ℕ → ℕ
  state : State
  now : ℕ

/-- Source: `udping_agent`. Kind: D -/
def pollingInterval : ℕ := 10

/-- An agent before its loop. Source: `udping_agent`. Kind: D -/
def Loop.start (fork : ℕ → ℕ) (answer : Option (List Peer)) : Loop where
  fork := fork
  state := (agent fork).init.update answer
  now := 0

/-- Source: `udping_agent`. Kind: D -/
def Loop.pass (loop : Loop) (p : Pass) : Loop :=
  let a :=
    if loop.now % pollingInterval = 0 then (loop.state.update p.answer).synchronize loop.fork
    else loop.state
  let (ret, a) := a.checkForOrphans p.exited
  { loop with
    state := if ret > 0 then a.synchronize loop.fork else a
    now := p.time }

/-! ## The children for a list of rows -/

/-- The children are those that `synchronize` makes for the rows.
Source: `udping_agent`, `synchronize`
Kind: D -/
structure Current (a : State) (rows : List Peer) : Prop where
  sound : a.Sound
  list : a.rows = rows.map Target.peer
  children : ∀ s, (a.child s).map Params.target =
    (lastEntry (answered rows) s).filter fun t => t.command.isSome

theorem Reconciled.target_after {fork : ℕ → ℕ} {s : Bytes} {before after : Option Params}
    {goal : Option Target} {actions : List Action} (h : Reconciled fork s before goal after actions)
    (hbefore : ∀ child, before = some child → child.target.command.isSome) :
    after.map Params.target = goal.filter fun t => t.command.isSome := by
  cases h with
  | kept child => simp [Option.filter, hbefore child rfl]
  | launched _ t command _ _ hcommand => simp [Option.filter, hcommand]
  | refused _ t _ hcommand => simp [Option.filter, hcommand]
  | dropped => rfl

namespace State

variable {a : State} {rows : List Peer} {s : Bytes} {p : Peer}

theorem Sound.command_child (h : a.Sound) {child : Params} (hchild : a.child s = some child) :
    ∃ i command, child.target.command = some command ∧ child.pid = some ⟨i, command⟩ := by
  obtain ⟨r, hr, rfl⟩ := Option.map_eq_some_iff.mp hchild
  exact h.running s r hr

theorem Sound.current_synchronize (h : a.Sound) (hrows : a.rows = rows.map Target.peer)
    (fork : ℕ → ℕ) : Current (a.synchronize fork) rows := by
  obtain ⟨hsound, hsame, actions, -, hrec⟩ := synchronize_reconciled fork h
  refine ⟨hsound, hsame.trans hrows, fun s => ?_⟩
  have hs := hrec s
  rw [hrows] at hs
  apply hs.target_after
  intro child hchild
  obtain ⟨i, command, hcommand, -⟩ := h.command_child hchild
  simp [hcommand]

/-- One pass over a child leaves the target list, and the state where it finds nothing.
Source: `udping_agent`, `checkForOrphans`
Kind: L -/
theorem reap_cases (exited : ℕ → Bool) (ret : ℕ) (a : State) (signature : Bytes) :
    reap exited (ret, a) signature = (ret, a) ∨
      reap exited (ret, a) signature =
        (ret + 1, { a with children := a.children.erase signature }) := by
  simp only [reap]
  split
  · split
    · exact Or.inr rfl
    · exact Or.inl rfl
  · exact Or.inl rfl

theorem reaps_cases (exited : ℕ → Bool) (keys : List Bytes) (ret : ℕ) (a : State) :
    (keys.foldl (reap exited) (ret, a) = (ret, a) ∨ ret < (keys.foldl (reap exited) (ret, a)).1) ∧
      (keys.foldl (reap exited) (ret, a)).2.rows = a.rows := by
  induction keys generalizing ret a with
  | nil => exact ⟨Or.inl rfl, rfl⟩
  | cons k keys ih =>
      rw [List.foldl_cons]
      rcases reap_cases exited ret a k with h | h
      · rw [h]
        exact ih ret a
      · rw [h]
        obtain ⟨hcases, hrows⟩ := ih (ret + 1) { a with children := a.children.erase k }
        refine ⟨Or.inr ?_, hrows⟩
        rcases hcases with hsame | hlt
        · rw [hsame]
          exact Nat.lt_succ_self ret
        · exact Nat.lt_trans (Nat.lt_succ_self ret) hlt

theorem checkForOrphans_cases (exited : ℕ → Bool) (a : State) :
    (a.checkForOrphans exited = (0, a) ∨ 0 < (a.checkForOrphans exited).1) ∧
      (a.checkForOrphans exited).2.rows = a.rows :=
  reaps_cases exited a.children.keys 0 a

end State

section Pass

variable {loop : Loop} {rows : List Peer}

/-- The end of a pass relaunches what has terminated. Source: `udping_agent`. Kind: L -/
theorem Current.relaunch {a : State} (h : Current a rows) (fork : ℕ → ℕ) (exited : ℕ → Bool) :
    Current (if (a.checkForOrphans exited).1 > 0 then (a.checkForOrphans exited).2.synchronize fork
      else (a.checkForOrphans exited).2) rows := by
  obtain ⟨hcases, hrows⟩ := a.checkForOrphans_cases exited
  rcases hcases with hsame | hpos
  · simp only [hsame, gt_iff_lt, lt_irrefl, if_false]
    exact h
  · rw [if_pos hpos]
    exact (h.sound.checkForOrphans exited).current_synchronize (hrows.trans h.list) fork

theorem Loop.pass_of_poll (h : loop.state.Sound) (hrows : loop.state.rows = rows.map Target.peer)
    (hpoll : loop.now % pollingInterval = 0) (p : Pass) :
    Current (loop.pass p).state (p.answer.getD rows) := by
  obtain ⟨hsound, hupdated⟩ := h.update p.answer
  have hlist : (loop.state.update p.answer).rows = (p.answer.getD rows).map Target.peer := by
    rw [hupdated, hrows]
    cases p.answer <;> rfl
  have hcurrent := hsound.current_synchronize hlist loop.fork
  simp only [Loop.pass, hpoll, if_true]
  exact hcurrent.relaunch loop.fork p.exited

theorem Loop.pass_of_not_poll (h : Current loop.state rows) (hpoll : ¬loop.now % pollingInterval = 0)
    (p : Pass) : Current (loop.pass p).state rows := by
  simp only [Loop.pass, hpoll, if_false]
  exact h.relaunch loop.fork p.exited

end Pass

/-! ## The controller and the agents -/

/-- The tables, and the agent on each host. Source: `database.js`; `udping_agent`. Kind: D -/
structure ControlPlane where
  db : Database
  loops : Bytes → Option Loop

/-- `interrupt`: an agent has cleaned up and exits.
Source: `database.js`, `query`; `udping_agent`
Kind: D -/
inductive Move where
  | request (req : Request)
  | start (hostname : Bytes) (fork : ℕ → ℕ) (answer : Option (List Peer))
  | pass (hostname : Bytes) (p : Pass)
  | interrupt (hostname : Bytes)

/-- Source: none: infrastructure. Kind: D -/
def Move.host : Move → Option Bytes
  | .request _ => none
  | .start hostname _ _ => some hostname
  | .pass hostname _ => some hostname
  | .interrupt hostname => some hostname

/-- Source: `database.js`, `query`; `udping_agent`. Kind: D -/
def controlPlane (sq : Sqlite) : EventMachine ControlPlane Move where
  init := ⟨.empty, fun _ => none⟩
  step c
    | .request req => { c with db := (query sq c.db req).1 }
    | .start hostname fork answer =>
        { c with loops := Function.update c.loops hostname (some (.start fork answer)) }
    | .pass hostname p =>
        { c with loops := Function.update c.loops hostname ((c.loops hostname).map (·.pass p)) }
    | .interrupt hostname => { c with loops := Function.update c.loops hostname none }

namespace ControlPlane

/-- A host has one agent at a time, what the controller answers are the rows of the tables in some
order, and the clocks have left the epoch.
Source: `database.js`, `"/q/peers"`; `udping_agent`
Kind: D -/
def Admissible (c : ControlPlane) : Move → Prop
  | .request _ => True
  | .start hostname _ answer =>
      c.loops hostname = none ∧ ∀ rows ∈ answer, rows.Perm (peers c.db hostname)
  | .pass hostname p => (∀ rows ∈ p.answer, rows.Perm (peers c.db hostname)) ∧ p.time ≠ 0
  | .interrupt _ => True

/-- The tables when a host is answered. `none`: it starts without an answer.
Source: `udping_agent`, `update`
Kind: D -/
def answers (hostname : Bytes) (c : ControlPlane) : Move → List (Option Database)
  | .start hostname' _ answer => if hostname' = hostname then [answer.map fun _ => c.db] else []
  | .pass hostname' p =>
      if hostname' = hostname ∧ (c.loops hostname).any (·.now % pollingInterval = 0) ∧
        p.answer.isSome then [some c.db] else []
  | _ => []

/-- The tables when a host, since it started, was last answered.
Source: `udping_agent`, `update`
Kind: D -/
def lastAnswered (sq : Sqlite) (hostname : Bytes) (c : ControlPlane) (es : List Move) :
    Option Database :=
  ((controlPlane sq).traceFrom (answers hostname) c es).getLast?.join

/-- Source: `udping_agent`, `targetList`. Kind: D -/
def Known (hostname : Bytes) : Option Database → List Peer → Prop
  | none, rows => rows = []
  | some db, rows => rows.Perm (peers db hostname)

/-- An agent and the tables when it was last answered. In its first pass it asks again, so before it
nothing is required of the children.
Source: `udping_agent`
Kind: D -/
structure Tracks (hostname : Bytes) (last : Option Database) (loop : Loop) (rows : List Peer) : Prop
    where
  sound : loop.state.Sound
  list : loop.state.rows = rows.map Target.peer
  known : Known hostname last rows
  current : loop.now ≠ 0 → Current loop.state rows

variable {sq : Sqlite} {c : ControlPlane} {es : List Move} {hostname : Bytes} {loop : Loop}
  {last : Option Database} {rows : List Peer}

/-- Source: `udping_agent`, `update`. Kind: L -/
theorem lastAnswered_concat (c : ControlPlane) (es : List Move) (e : Move) :
    lastAnswered sq hostname c (es ++ [e]) =
      ((answers hostname ((controlPlane sq).runFrom c es) e).getLast?.or
        ((controlPlane sq).traceFrom (answers hostname) c es).getLast?).join := by
  rw [lastAnswered, EventMachine.traceFrom_append, List.getLast?_append, EventMachine.traceFrom,
    EventMachine.traceFrom, List.append_nil]

theorem lastAnswered_of_nil {e : Move}
    (h : answers hostname ((controlPlane sq).runFrom c es) e = []) :
    lastAnswered sq hostname c (es ++ [e]) = lastAnswered sq hostname c es := by
  rw [lastAnswered_concat, h]
  rfl

theorem lastAnswered_of_singleton {e : Move}
    (h : answers hostname ((controlPlane sq).runFrom c es) e = [last]) :
    lastAnswered sq hostname c (es ++ [e]) = last := by
  rw [lastAnswered_concat, h]
  rfl

theorem tracks_start (fork : ℕ → ℕ) {answer : Option (List Peer)}
    (h : ∀ rows ∈ answer, rows.Perm (peers c.db hostname)) :
    Tracks hostname (answer.map fun _ => c.db) (.start fork answer) (answer.getD []) := by
  obtain ⟨hsound, hlist⟩ := (sound_run fork []).update answer
  refine ⟨hsound, hlist.trans ?_, ?_, fun hnow => absurd rfl hnow⟩
  · cases answer <;> rfl
  · cases answer with
    | none => rfl
    | some rows => exact h rows rfl

theorem Tracks.poll (h : Tracks hostname last loop rows) {p : Pass}
    (hanswer : ∀ rows ∈ p.answer, rows.Perm (peers c.db hostname))
    (hpoll : loop.now % pollingInterval = 0) :
    Tracks hostname (p.answer.elim last fun _ => some c.db) (loop.pass p) (p.answer.getD rows) := by
  have hcurrent := Loop.pass_of_poll h.sound h.list hpoll p
  refine ⟨hcurrent.sound, hcurrent.list, ?_, fun _ => hcurrent⟩
  cases hp : p.answer with
  | none => exact h.known
  | some rows => exact hanswer rows hp

theorem Tracks.pass (h : Tracks hostname last loop rows) (p : Pass)
    (hpoll : ¬loop.now % pollingInterval = 0) : Tracks hostname last (loop.pass p) rows := by
  have hnow : loop.now ≠ 0 := by
    intro hzero
    exact hpoll (by rw [hzero]; rfl)
  have hcurrent := Loop.pass_of_not_poll (h.current hnow) hpoll p
  exact ⟨hcurrent.sound, hcurrent.list, h.known, fun _ => hcurrent⟩

/-- The pass of an agent, and what it is told then. Source: `udping_agent`. Kind: L -/
theorem Tracks.step (h : Tracks hostname last loop rows) (hloop : c.loops hostname = some loop)
    {p : Pass} (hanswer : ∀ rows ∈ p.answer, rows.Perm (peers c.db hostname)) :
    ∃ rows', (answers hostname c (.pass hostname p) = [] ∧
        Tracks hostname last (loop.pass p) rows') ∨
      (answers hostname c (.pass hostname p) = [some c.db] ∧
        Tracks hostname (some c.db) (loop.pass p) rows') := by
  by_cases hpoll : loop.now % pollingInterval = 0
  · refine ⟨p.answer.getD rows, ?_⟩
    have hstep := h.poll hanswer hpoll
    cases hp : p.answer with
    | none =>
        rw [hp] at hstep
        exact Or.inl ⟨by simp [answers, hp], hstep⟩
    | some rows =>
        rw [hp] at hstep
        exact Or.inr ⟨by simp [answers, hloop, hpoll, hp], hstep⟩
  · exact ⟨rows, Or.inl ⟨by simp [answers, hloop, hpoll], h.pass p hpoll⟩⟩

/-- What happens elsewhere. Source: `udping_agent`. Kind: L -/
theorem step_of_ne (sq : Sqlite) (c : ControlPlane) {e : Move} (h : e.host ≠ some hostname) :
    ((controlPlane sq).step c e).loops hostname = c.loops hostname ∧ answers hostname c e = [] := by
  cases e with
  | request req => exact ⟨rfl, rfl⟩
  | start hostname' fork answer =>
      have hne : hostname' ≠ hostname := fun heq => h (congrArg some heq)
      exact ⟨Function.update_of_ne (Ne.symm hne) _ _, if_neg hne⟩
  | pass hostname' p =>
      have hne : hostname' ≠ hostname := fun heq => h (congrArg some heq)
      exact ⟨Function.update_of_ne (Ne.symm hne) _ _, if_neg fun hall => hne hall.1⟩
  | interrupt hostname' =>
      have hne : hostname' ≠ hostname := fun heq => h (congrArg some heq)
      exact ⟨Function.update_of_ne (Ne.symm hne) _ _, rfl⟩

/-- Every agent has the rows of the tables when it was last answered.
Source: `udping_agent`; `database.js`, `"/q/peers"`
Kind: P -/
theorem tracked (h : (controlPlane sq).Always Admissible es) :
    ∀ loop, ((controlPlane sq).run es).loops hostname = some loop →
      ∃ rows, Tracks hostname (lastAnswered sq hostname (controlPlane sq).init es) loop rows := by
  induction es using List.reverseRecOn with
  | nil => exact fun loop hloop => by cases hloop
  | append_singleton es e ih =>
      obtain ⟨hes, he⟩ := ((controlPlane sq).always_concat _ es e).mp h
      intro loop hloop
      rw [EventMachine.run_concat] at hloop
      by_cases hhost : e.host = some hostname
      · cases e with
        | request req => cases hhost
        | start hostname' fork answer =>
            obtain rfl := Option.some.inj hhost
            have hstart : Loop.start fork answer = loop := by simpa [controlPlane] using hloop
            have hanswers : answers hostname' ((controlPlane sq).run es) (.start hostname' fork answer) =
                [answer.map fun _ => ((controlPlane sq).run es).db] := if_pos rfl
            rw [lastAnswered_of_singleton hanswers, ← hstart]
            exact ⟨_, tracks_start fork he.2⟩
        | pass hostname' p =>
            obtain rfl := Option.some.inj hhost
            have hmap : (((controlPlane sq).run es).loops hostname').map (·.pass p) = some loop := by
              simpa [controlPlane] using hloop
            obtain ⟨before, hbefore, rfl⟩ := Option.map_eq_some_iff.mp hmap
            obtain ⟨rows, hrows⟩ := ih hes before hbefore
            obtain ⟨rows', ⟨hanswers, hstep⟩ | ⟨hanswers, hstep⟩⟩ := hrows.step hbefore he.1
            · rw [lastAnswered_of_nil hanswers]
              exact ⟨rows', hstep⟩
            · rw [lastAnswered_of_singleton hanswers]
              exact ⟨rows', hstep⟩
        | interrupt hostname' =>
            obtain rfl := Option.some.inj hhost
            simp [controlPlane] at hloop
      · obtain ⟨hsame, hanswers⟩ := step_of_ne sq ((controlPlane sq).run es) hhost
        rw [hsame] at hloop
        rw [lastAnswered_of_nil hanswers]
        exact ih hes loop hloop

/-- Only requests change the tables. Source: `udping_agent`; `database.js`, `query`. Kind: L -/
theorem db_runFrom {es : List Move} (h : ∀ e ∈ es, e.host.isSome) :
    ((controlPlane sq).runFrom c es).db = c.db := by
  induction es generalizing c with
  | nil => rfl
  | cons e es ih =>
      have hstep : ((controlPlane sq).step c e).db = c.db := by
        cases e with
        | request req => cases h _ List.mem_cons_self
        | _ => rfl
      rw [← hstep]
      exact ih fun e' he' => h e' (List.mem_cons_of_mem e he')

theorem loops_runFrom {es : List Move} (h : ∀ e ∈ es, e.host ≠ some hostname) :
    ((controlPlane sq).runFrom c es).loops hostname = c.loops hostname := by
  induction es generalizing c with
  | nil => rfl
  | cons e es ih =>
      rw [← (step_of_ne sq c (h e List.mem_cons_self)).1]
      exact ih fun e' he' => h e' (List.mem_cons_of_mem e he')

/-! ### Every run -/

instance instDecidableAdmissible : ∀ (c : ControlPlane) (e : Move), Decidable (c.Admissible e)
  | _, .request _ => isTrue trivial
  | c, .start hostname _ answer =>
      inferInstanceAs (Decidable (c.loops hostname = none ∧
        ∀ rows ∈ answer, rows.Perm (peers c.db hostname)))
  | c, .pass hostname p =>
      inferInstanceAs (Decidable ((∀ rows ∈ p.answer, rows.Perm (peers c.db hostname)) ∧ p.time ≠ 0))
  | _, .interrupt _ => isTrue trivial

/-- The agent of `a` is started while the controller is down. Source: none: infrastructure. Kind: D -/
def exampleBefore : List Move := [
  .start (ascii "a") (fun i => 100 + i) none,
  .pass (ascii "a") ⟨none, fun _ => false, 15⟩,
  .request (exampleRequest .addNode [(.ip, "10.0.0.1"), (.hostname, "a")]),
  .request (exampleRequest .addNode [(.ip, "10.0.0.2"), (.hostname, "b")]),
  .request (exampleRequest .addMesh [(.name, "m"), (.created_by, "system")]),
  .request (exampleRequest .addNodeToMesh [(.node_id, "1"), (.mesh_id, "1")]),
  .request (exampleRequest .addNodeToMesh [(.node_id, "2"), (.mesh_id, "1")])]

/-- Source: none: infrastructure. Kind: D -/
def exampleQuiet : Database := ((controlPlane exampleSqlite).run exampleBefore).db

/-- The agent of `b` is started, that of `a` asks again, and one of its processes terminates.
Source: none: infrastructure
Kind: D -/
def exampleAfter : List Move := [
  .start (ascii "b") (fun i => 200 + i) (some (peers exampleQuiet (ascii "b"))),
  .pass (ascii "b") ⟨none, fun _ => false, 17⟩,
  .pass (ascii "a") ⟨none, fun _ => false, 20⟩,
  .pass (ascii "a") ⟨some (peers exampleQuiet (ascii "a")), fun i => i = 101, 21⟩]

/-- **The children of an agent are those for the tables that the controller had when it last answered
it**, in every run, however the moves of the hosts and the requests are interleaved, whenever the
controller does not answer, and whichever processes terminate.
Source: `udping_agent`; `database.js`, `query`
Kind: C -/
theorem current_of_lastAnswered (sq : Sqlite) (es : List Move)
    (h : (controlPlane sq).Always Admissible es) (hostname : Bytes) (loop : Loop)
    (hloop : ((controlPlane sq).run es).loops hostname = some loop) (hnow : loop.now ≠ 0) :
    ∃ rows, Known hostname (lastAnswered sq hostname (controlPlane sq).init es) rows ∧
      Current loop.state rows := by
  obtain ⟨rows, hrows⟩ := tracked h loop hloop
  exact ⟨rows, hrows.known, hrows.current hnow⟩

theorem current_of_lastAnswered_exampleAfter :
    ∃ loop, ((controlPlane exampleSqlite).run (exampleBefore ++ exampleAfter)).loops (ascii "a") =
      some loop ∧ loop.now ≠ 0 ∧ ∃ rows, Known (ascii "a") (lastAnswered exampleSqlite (ascii "a")
        (controlPlane exampleSqlite).init (exampleBefore ++ exampleAfter)) rows ∧
      Current loop.state rows := by
  have hall : (((controlPlane exampleSqlite).run (exampleBefore ++ exampleAfter)).loops
      (ascii "a")).any (·.now ≠ 0) := by decide +kernel
  obtain ⟨loop, hloop, hnow⟩ := (Option.any_eq_true ..).mp hall
  have hnow' := of_decide_eq_true hnow
  exact ⟨loop, hloop, hnow', current_of_lastAnswered exampleSqlite (exampleBefore ++ exampleAfter)
    (by decide +kernel) (ascii "a") loop hloop hnow'⟩

end ControlPlane

/-! ## Clients and servers -/

section Current

variable {a : State} {rows : List Peer} {s : Bytes}

theorem Current.child_iff (h : Current a rows) {t : Target} {command : Command}
    (hcommand : t.command = some command) :
    lastEntry (answered rows) s = some t ↔ ∃ i, a.child s = some ⟨t, some ⟨i, command⟩⟩ := by
  have hs := h.children s
  constructor
  · intro hlast
    rw [hlast, Option.filter_some_pos (by simp [hcommand])] at hs
    obtain ⟨child, hchild, rfl⟩ := Option.map_eq_some_iff.mp hs
    obtain ⟨i, command', hcommand', hpid⟩ := h.sound.command_child hchild
    obtain rfl := Option.some.inj (hcommand.symm.trans hcommand')
    exact ⟨i, hchild.trans (congrArg some (congrArg (Params.mk child.target) hpid))⟩
  · rintro ⟨i, hchild⟩
    rw [hchild, Option.map_some] at hs
    exact (Option.filter_eq_some_iff.mp hs.symm).1

theorem Current.clientOf_iff (h : Current a rows) (p : Peer) : ClientOf a s p ↔
    lastEntry (answered rows) s = some (.peer p) ∧ p.meshMechanism = ascii "udping" := by
  constructor
  · rintro ⟨i, hchild⟩
    obtain ⟨i', command, hcommand, hpid⟩ := h.sound.command_child hchild
    obtain ⟨-, rfl⟩ : i = i' ∧ udpingClientCommand (.peer p) = command := by simpa using hpid
    exact ⟨(h.child_iff hcommand).mpr ⟨i, hchild⟩, command_eq_client.mp hcommand⟩
  · rintro ⟨hlast, hudping⟩
    exact (h.child_iff (command_eq_client.mpr hudping)).mp hlast

theorem Current.serverOf_iff (h : Current a rows) (meshName localIp : Bytes) :
    ServerOf a s meshName localIp ↔
      lastEntry (answered rows) s = some (.server meshName localIp) := by
  constructor
  · rintro ⟨⟨t, pid⟩, i, hchild, rfl⟩
    obtain ⟨i', command, hcommand, hpid⟩ := h.sound.command_child hchild
    obtain ⟨-, rfl⟩ : i = i' ∧ Command.udpingServer localIp meshName = command := by
      simpa using hpid
    obtain rfl := command_eq_server.mp hcommand
    exact (h.child_iff hcommand).mpr ⟨i, hchild⟩
  · intro hlast
    obtain ⟨i, hchild⟩ := (h.child_iff (command_eq_server.mpr rfl)).mp hlast
    exact ⟨_, i, hchild, rfl⟩

end Current

/-- Agents whose children are those for the tables. Source: `udping_agent`, `synchronize`. Kind: P -/
theorem served_of_current {db : Database} (h : Servable db) {agents : Bytes → State}
    {rows : Bytes → List Peer} (hrows : ∀ hostname, (rows hostname).Perm (peers db hostname))
    (hcurrent : ∀ hostname, Current (agents hostname) (rows hostname)) : Served agents := by
  intro hostname s p hclient
  have hsettled := served_of_servable h (fun _ i => i) (fun _ => []) hrows
  obtain ⟨s', hserver, halone⟩ := hsettled hostname s p
    ((UDPing.Agent.clientOf_iff ..).mpr (((hcurrent hostname).clientOf_iff p).mp hclient))
  refine ⟨s', ?_, fun s'' meshName hother => ?_⟩
  · apply ((hcurrent p.peerHostname).serverOf_iff _ _).mpr
    exact (UDPing.Agent.serverOf_iff ..).mp hserver
  · apply halone s'' meshName
    exact (UDPing.Agent.serverOf_iff ..).mpr
      (((hcurrent p.peerHostname).serverOf_iff _ _).mp hother)

namespace ControlPlane

/-! ## Tables that no longer change -/

/-- The agent on each host. Where there is none, nothing runs. Source: `udping_agent`. Kind: D -/
def agents (c : ControlPlane) (hostname : Bytes) : State :=
  ((c.loops hostname).map Loop.state).getD (agent id).init

variable {sq : Sqlite} {c : ControlPlane} {pre post : List Move} {hostname : Bytes} {db : Database}

theorem lastAnswered_append
    (h : (lastAnswered sq hostname ((controlPlane sq).runFrom c pre) post).isSome) :
    lastAnswered sq hostname c (pre ++ post) =
      lastAnswered sq hostname ((controlPlane sq).runFrom c pre) post := by
  unfold lastAnswered at h ⊢
  rw [EventMachine.traceFrom_append, List.getLast?_append]
  cases hlast : ((controlPlane sq).traceFrom (answers hostname)
      ((controlPlane sq).runFrom c pre) post).getLast? with
  | none =>
      rw [hlast] at h
      cases h
  | some last => rfl

theorem db_of_answers {d : Database} {e : Move} (h : some d ∈ answers hostname c e) : d = c.db := by
  cases e with
  | request => cases h
  | start hostname' fork answer =>
      simp only [answers] at h
      split at h
      · obtain ⟨rows, -, hdb⟩ := Option.map_eq_some_iff.mp (List.mem_singleton.mp h).symm
        exact hdb.symm
      · cases h
  | pass hostname' p =>
      simp only [answers] at h
      split at h
      · exact Option.some.inj (List.mem_singleton.mp h)
      · cases h
  | interrupt => cases h

theorem db_of_trace {d : Database}
    (hquiet : ∀ mid, mid <+: post → ((controlPlane sq).runFrom c mid).db = db)
    (h : some d ∈ (controlPlane sq).traceFrom (answers hostname) c post) : d = db := by
  induction post generalizing c with
  | nil => cases h
  | cons e post ih =>
      rcases List.mem_append.mp h with hnow | hlater
      · rw [db_of_answers hnow]
        exact hquiet [] List.nil_prefix
      · refine ih (fun mid hmid => ?_) hlater
        exact hquiet (e :: mid) (List.cons_prefix_cons.mpr ⟨rfl, hmid⟩)

theorem lastAnswered_of_quiet
    (hquiet : ∀ mid, mid <+: post → ((controlPlane sq).runFrom c mid).db = db)
    (h : (lastAnswered sq hostname c post).isSome) : lastAnswered sq hostname c post = some db := by
  obtain ⟨d, hd⟩ := Option.isSome_iff_exists.mp h
  rw [hd, db_of_trace hquiet (List.mem_of_getLast? (Option.join_eq_some_iff.mp hd))]

/-- A host that is in no row of the tables. Source: `database.js`, `"/q/peers"`. Kind: L -/
theorem peers_of_notMem (h : ∀ n ∈ db.node, n.hostname ≠ hostname) : peers db hostname = [] := by
  refine List.eq_nil_iff_forall_not_mem.mpr fun p hp => ?_
  obtain ⟨n, _, _, hn, -, -, hhost, -⟩ := mem_peers.mp hp
  exact h n hn.1 hhost

theorem current_init (fork : ℕ → ℕ) : Current (agent fork).init [] :=
  ⟨sound_run fork [], rfl, fun _ => rfl⟩

/-- **When the tables no longer change, the agents come to agree with them**: once every agent has been
answered since, its children are those for these tables, whatever had happened before, and when the
controller is not always there. If the tables are servable and an agent is on each of their hosts, every
client has its server, alone at its address.
Source: `udping_agent`; `database.js`, `query`
Kind: C -/
theorem settled_of_quiet (sq : Sqlite) (pre post : List Move) (db : Database)
    (h : (controlPlane sq).Always Admissible (pre ++ post))
    (hquiet : ∀ mid, mid <+: post → ((controlPlane sq).run (pre ++ mid)).db = db)
    (hanswered : ∀ hostname loop, ((controlPlane sq).run (pre ++ post)).loops hostname = some loop →
      loop.now ≠ 0 ∧ (lastAnswered sq hostname ((controlPlane sq).run pre) post).isSome) :
    (∀ hostname loop, ((controlPlane sq).run (pre ++ post)).loops hostname = some loop →
      ∃ rows, rows.Perm (peers db hostname) ∧ Current loop.state rows) ∧
    (Servable db → (∀ n ∈ db.node, (((controlPlane sq).run (pre ++ post)).loops n.hostname).isSome) →
      Served ((controlPlane sq).run (pre ++ post)).agents) := by
  have hquiet' : ∀ mid, mid <+: post →
      ((controlPlane sq).runFrom ((controlPlane sq).run pre) mid).db = db := by
    intro mid hmid
    rw [← hquiet mid hmid, EventMachine.run, EventMachine.run, EventMachine.runFrom,
      EventMachine.runFrom, EventMachine.runFrom, List.foldl_append]
  have hcurrent : ∀ hostname loop,
      ((controlPlane sq).run (pre ++ post)).loops hostname = some loop →
        ∃ rows, rows.Perm (peers db hostname) ∧ Current loop.state rows := by
    intro hostname loop hloop
    obtain ⟨hnow, hsome⟩ := hanswered hostname loop hloop
    obtain ⟨rows, hrows⟩ := tracked h loop hloop
    have hknown := hrows.known
    rw [lastAnswered_append hsome] at hknown
    have hlast := lastAnswered_of_quiet hquiet' hsome
    rw [show (controlPlane sq).runFrom (controlPlane sq).init pre = (controlPlane sq).run pre from rfl,
      hlast] at hknown
    exact ⟨rows, hknown, hrows.current hnow⟩
  refine ⟨hcurrent, fun hservable hhosts => ?_⟩
  have hall : ∀ hostname, ∃ rows, rows.Perm (peers db hostname) ∧
      Current (((controlPlane sq).run (pre ++ post)).agents hostname) rows := by
    intro hostname
    unfold agents
    cases hloop : ((controlPlane sq).run (pre ++ post)).loops hostname with
    | some loop => exact hcurrent hostname loop hloop
    | none =>
        refine ⟨[], ?_, current_init id⟩
        rw [peers_of_notMem]
        intro n hn hhost
        have hsome := hhosts n hn
        rw [hhost, hloop] at hsome
        cases hsome
  choose rows hperm hrows using hall
  exact served_of_current hservable hperm hrows

theorem servable_exampleQuiet : Servable exampleQuiet := by
  refine ⟨fun b c m hb hc => ?_, fun b c m m' hb hc hmm => ?_, fun b m hb => ?_⟩
  · have hall : ∀ b ∈ exampleQuiet.node, ∀ c ∈ exampleQuiet.node, b.hostname = c.hostname →
        b.ip = c.ip := by decide +kernel
    exact hall b hb.2.1.1 c hc.2.1.1
  · have hall : ∀ m ∈ exampleQuiet.mesh, ∀ m' ∈ exampleQuiet.mesh, m = m' := by decide +kernel
    exact absurd (hall m hb.2.1.2.1 m' hc.2.1.2.1) hmm
  · have hall : ∀ b ∈ exampleQuiet.node, ∀ m ∈ exampleQuiet.mesh, ∀ q ∈ peers exampleQuiet b.hostname,
        (Target.peer q).signature ≠ (Target.server m.name b.ip).signature := by decide +kernel
    exact hall b hb.2.1.1 m hb.2.1.2.1

theorem settled_of_quiet_exampleAfter :
    Served ((controlPlane exampleSqlite).run (exampleBefore ++ exampleAfter)).agents := by
  refine (settled_of_quiet exampleSqlite exampleBefore exampleAfter exampleQuiet
    (by decide +kernel) ?_ ?_).2 servable_exampleQuiet (by decide +kernel)
  · intro mid hmid
    rw [EventMachine.run, EventMachine.runFrom, List.foldl_append]
    refine db_runFrom fun e he => ?_
    have hall : ∀ e ∈ exampleAfter, e.host.isSome := by decide
    exact hall e (hmid.subset he)
  · intro hostname loop hloop
    have hhosts : hostname = ascii "a" ∨ hostname = ascii "b" := by
      by_contra hne
      rw [not_or] at hne
      have hnone : ((controlPlane exampleSqlite).run (exampleBefore ++ exampleAfter)).loops hostname =
          none := loops_runFrom (c := (controlPlane exampleSqlite).init) fun e he heq => by
        have hall : ∀ e ∈ exampleBefore ++ exampleAfter,
            ∀ h ∈ e.host, h = ascii "a" ∨ h = ascii "b" := by decide
        exact not_or.mpr hne (hall e he hostname heq)
      cases hloop.symm.trans hnone
    have hnow : ∀ h ∈ [ascii "a", ascii "b"],
        (((controlPlane exampleSqlite).run (exampleBefore ++ exampleAfter)).loops h).all
          (·.now ≠ 0) := by decide +kernel
    have hasked : ∀ h ∈ [ascii "a", ascii "b"], (lastAnswered exampleSqlite h
        ((controlPlane exampleSqlite).run exampleBefore) exampleAfter).isSome := by decide +kernel
    have hmem : hostname ∈ [ascii "a", ascii "b"] := by simpa using hhosts
    have hnow' := hnow hostname hmem
    rw [hloop] at hnow'
    exact ⟨by simpa using hnow', hasked hostname hmem⟩

end ControlPlane

end UDPing.Agent
