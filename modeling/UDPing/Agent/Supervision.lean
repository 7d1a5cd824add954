import UDPing.Agent.Launcher

/-!
# What the launcher makes of its children

The controller answers, a process that is started starts, and when the main loop wakes up every
`launch` has started its two processes (`Timely`): then

* **`supervised`**: the program does not end on a nil pointer, and no goroutine sends a kill to a
  process of another `launch`;
* **`reconciled`**: when the main loop sleeps, a process that runs is of an entry whose key is wanted, or
  it has been sent a kill.

**`wanted_launched`** asks for nothing: what the controller wants is in `children` before the main loop
sleeps again.
-/

namespace UDPing.Launcher

open Lib

/-- Source: none: specification. Kind: D -/
def Timely (s : State) : Action → Prop
  | .getTargets answer => answer.isSome ∧ ∀ l ∈ s.launches, 4 ≤ l.pc.rank
  | .launch _ forked => forked = true
  | _ => True

instance decidableTimely : ∀ s a, Decidable (Timely s a)
  | s, .getTargets answer =>
      inferInstanceAs (Decidable (answer.isSome ∧ ∀ l ∈ s.launches, 4 ≤ l.pc.rank))
  | _, .launch _ forked => inferInstanceAs (Decidable (forked = true))
  | _, .add _ | _, .endAdd | _, .remove _ | _, .cancelSender | _, .endRemove | _, .watch _ | _, .exit _ =>
      isTrue trivial

variable {s s' : State} {n : ℕ} {l l' : Launch}

theorem running_ne : Status.running ≠ .created := by decide

theorem exited_ne : Status.exited ≠ .created := by decide

/-! ## What stays -/

/-- What no step takes back. Source: none: specification. Kind: D -/
structure Later (s s' : State) : Prop where
  cmds : ∀ (id : ℕ) c, s.cmds[id]? = some c → ∃ c', s'.cmds[id]? = some c' ∧ c'.launch = c.launch ∧
    (c.status ≠ .created → c'.status ≠ .created)
  launches : ∀ (n : ℕ) l, s.launches[n]? = some l → ∃ l', s'.launches[n]? = some l' ∧
    l'.child = l.child ∧ l'.key = l.key ∧ l.pc.rank ≤ l'.pc.rank
  log : ∀ e ∈ s.log, e ∈ s'.log

/-- Source: none: infrastructure. Kind: L -/
theorem Later.of_eq (hcmds : s'.cmds = s.cmds) (hlaunches : s.launches <+: s'.launches)
    (hlog : s.log <+: s'.log) : Later s s' where
  cmds id c hc := ⟨c, by rw [hcmds, hc], rfl, fun h => h⟩
  launches n l hl := by
    obtain ⟨new, hnew⟩ := hlaunches
    refine ⟨l, ?_, rfl, rfl, le_rfl⟩
    rw [← hnew, List.getElem?_append_left (List.getElem?_eq_some_iff.mp hl).1, hl]
  log e he := hlog.subset he

/-- Source: none: infrastructure. Kind: L -/
theorem Later.of_set (hl : s.launches[n]? = some l) (hset : s'.launches = s.launches.set n l')
    (hchild : l'.child = l.child) (hkey : l'.key = l.key) (hrank : l.pc.rank ≤ l'.pc.rank)
    {cmd : Option ℕ} {f : Cmd → Cmd} {new : List Cmd}
    (hcmds : s'.cmds = (cmd.elim s.cmds fun id => s.cmds.modify id f) ++ new)
    (hf : ∀ c, (f c).launch = c.launch ∧ (c.status ≠ .created → (f c).status ≠ .created))
    (hlog : s.log <+: s'.log) : Later s s' where
  cmds id c hc := by
    have hold : ∃ c', (cmd.elim s.cmds fun id => s.cmds.modify id f)[id]? = some c' ∧
        c'.launch = c.launch ∧ (c.status ≠ .created → c'.status ≠ .created) := by
      cases cmd with
      | none => exact ⟨c, hc, rfl, fun h => h⟩
      | some id' =>
          rw [Option.elim_some, List.getElem?_modify, hc]
          by_cases h : id' = id
          · exact ⟨f c, by simp [h], hf c⟩
          · exact ⟨c, by simp [h], rfl, fun h => h⟩
    obtain ⟨c', hc', hkeep⟩ := hold
    refine ⟨c', ?_, hkeep⟩
    rw [hcmds, List.getElem?_append_left (List.getElem?_eq_some_iff.mp hc').1, hc']
  launches m l₂ hl₂ := by
    rw [hset, List.getElem?_set]
    split
    · next heq =>
      subst heq
      obtain rfl := Option.some.inj (hl.symm.trans hl₂)
      exact ⟨l', by rw [if_pos (List.getElem?_eq_some_iff.mp hl).1], hchild, hkey, hrank⟩
    · exact ⟨l₂, hl₂, rfl, rfl, le_rfl⟩
  log e he := hlog.subset he

/-- Source: `agent.go`, `launch`. Kind: L -/
theorem Later.launch {forked : Bool} (h : s.launch n forked = some s') : Later s s' := by
  unfold State.launch at h
  obtain ⟨l, hl, h⟩ := Option.bind_eq_some_iff.mp h
  cases hpc : l.pc <;> simp only [hpc, Option.some.injEq, reduceCtorEq] at h
  case cmd | senderCmd =>
    subst h
    refine @Later.of_set s _ n l _ hl rfl rfl rfl ?_ none id [_] rfl (fun c => ⟨rfl, fun h => h⟩)
      List.prefix_rfl
    rw [hpc]
    exact Nat.le_of_ble_eq_true rfl
  case cmdStart | senderStart =>
    subst h
    refine @Later.of_set s _ n l _ hl rfl rfl rfl ?_ _ _ [] (List.append_nil _).symm (fun c => ?_)
      List.prefix_rfl
    · rw [hpc]
      exact Nat.le_of_ble_eq_true rfl
    · split
      · exact ⟨rfl, fun _ => running_ne⟩
      · exact ⟨rfl, fun h => h⟩
  case wait =>
    subst h
    refine @Later.of_set s _ n l _ hl rfl rfl rfl ?_ _ _ [] (List.append_nil _).symm
      (fun c => ⟨rfl, fun h => h⟩) List.prefix_rfl
    rw [hpc]
    cases s.blocks (s.heap l.child).cmd <;> exact Nat.le_of_ble_eq_true rfl
  case cancel =>
    subst h
    refine @Later.of_set s _ n l _ hl rfl rfl rfl ?_ none id [] (List.append_nil _).symm
      (fun c => ⟨rfl, fun h => h⟩) (List.prefix_append _ _)
    rw [hpc]
    exact Nat.le_of_ble_eq_true rfl
  case waiting id' =>
    obtain ⟨-, h⟩ := Option.ite_none_right_eq_some.mp h
    obtain rfl := Option.some.inj h
    refine @Later.of_set s _ n l _ hl rfl rfl rfl ?_ none id [] (List.append_nil _).symm
      (fun c => ⟨rfl, fun h => h⟩) List.prefix_rfl
    rw [hpc]
    exact Nat.le_of_ble_eq_true rfl
  case log | watch | delete =>
    subst h
    refine @Later.of_set s _ n l _ hl rfl rfl rfl ?_ none id [] (List.append_nil _).symm
      (fun c => ⟨rfl, fun h => h⟩) List.prefix_rfl
    rw [hpc]
    exact Nat.le_of_ble_eq_true rfl

/-- Source: `agent.go`, `launch`. Kind: L -/
theorem Later.watch (h : s.watch n = some s') : Later s s' := by
  unfold State.watch at h
  obtain ⟨l, hl, h⟩ := Option.bind_eq_some_iff.mp h
  cases hwatch : l.watch <;> simp only [hwatch, Option.some.injEq, reduceCtorEq] at h
  case wait =>
    subst h
    exact @Later.of_set s _ n l _ hl rfl rfl rfl le_rfl _ _ [] (List.append_nil _).symm
      (fun c => ⟨rfl, fun h => h⟩) List.prefix_rfl
  case cancel =>
    subst h
    exact @Later.of_set s _ n l _ hl rfl rfl rfl le_rfl none id [] (List.append_nil _).symm
      (fun c => ⟨rfl, fun h => h⟩) (List.prefix_append _ _)
  case waiting id' =>
    obtain ⟨-, h⟩ := Option.ite_none_right_eq_some.mp h
    obtain rfl := Option.some.inj h
    exact @Later.of_set s _ n l _ hl rfl rfl rfl le_rfl none id [] (List.append_nil _).symm
      (fun c => ⟨rfl, fun h => h⟩) List.prefix_rfl

/-- Source: none: infrastructure. Kind: L -/
theorem Later.exit {id : ℕ} (h : s.exit id = some s') : Later s s' := by
  obtain ⟨c, -, h⟩ := Option.bind_eq_some_iff.mp h
  obtain ⟨-, h⟩ := Option.ite_none_right_eq_some.mp h
  obtain rfl := Option.some.inj h
  refine ⟨fun id' c hc => ?_, fun n l hl => ⟨l, hl, rfl, rfl, le_rfl⟩, fun e he => he⟩
  simp only [State.modifyCmd, Option.elim_some, List.getElem?_modify, hc]
  by_cases h : id = id'
  · exact ⟨{ c with status := .exited }, by simp [h], rfl, fun _ => exited_ne⟩
  · exact ⟨c, by simp [h], rfl, fun h => h⟩

/-! ## The invariant -/

/-- A field of a child names a command that the `n`-th `launch` made. Source: none: specification. Kind: D -/
def Holds (s : State) (n : ℕ) (cmd : Option ℕ) (started : Prop) : Prop :=
  ∃ id c, cmd = some id ∧ s.cmds[id]? = some c ∧ c.launch = n ∧ (started → c.status ≠ .created)

theorem Holds.later {cmd : Option ℕ} {p q : Prop} (h : Holds s n cmd p) (hlater : Later s s')
    (hpq : q → p) : Holds s' n cmd q := by
  obtain ⟨id, c, rfl, hc, hn, hp⟩ := h
  obtain ⟨c', hc', hlaunch, hstatus⟩ := hlater.cmds id c hc
  exact ⟨id, c', rfl, hc', by rw [hlaunch, hn], fun hq => hstatus (hp (hpq hq))⟩

theorem Holds.hasProcess {cmd : Option ℕ} {p : Prop} (h : Holds s n cmd p) (hp : p) :
    s.hasProcess cmd = true := by
  obtain ⟨id, c, rfl, hc, -, hstatus⟩ := h
  simp [State.hasProcess, State.command, hc, hstatus hp]

theorem Holds.command {cmd : Option ℕ} {p : Prop} (h : Holds s n cmd p) :
    (s.command cmd).isSome = true := by
  obtain ⟨id, c, rfl, hc, -⟩ := h
  simp [State.command, hc]

/-- What a `launch` has made so far. Source: `agent.go`, `launch`. Kind: D -/
structure Held (s : State) (n : ℕ) (l : Launch) : Prop where
  cmd : 1 ≤ l.pc.rank → Holds s n (s.heap l.child).cmd (2 ≤ l.pc.rank)
  senderCmd : 3 ≤ l.pc.rank → Holds s n (s.heap l.child).senderCmd (4 ≤ l.pc.rank)
  watch : l.watch ≠ .idle → 6 ≤ l.pc.rank
  ended : 9 ≤ l.pc.rank → ∃ id, (s.heap l.child).senderCmd = some id ∧ (.launch n, id) ∈ s.log

/-- Source: none: infrastructure. Kind: L -/
theorem Held.later (h : Held s n l) (hlater : Later s s') (hchild : l'.child = l.child)
    (hcmd : 1 ≤ l.pc.rank → (s'.heap l.child).cmd = (s.heap l.child).cmd)
    (hsender : 3 ≤ l.pc.rank → (s'.heap l.child).senderCmd = (s.heap l.child).senderCmd)
    (hlate : 4 ≤ l.pc.rank ∨ l'.pc.rank = l.pc.rank)
    (hwatch : l'.watch ≠ .idle → 6 ≤ l'.pc.rank)
    (hended : 9 ≤ l'.pc.rank → l.pc.rank < 9 →
      ∃ id, (s'.heap l.child).senderCmd = some id ∧ (.launch n, id) ∈ s'.log) : Held s' n l' := by
  refine ⟨fun hr => ?_, fun hr => ?_, hwatch, fun hr => ?_⟩
  · rw [hchild, hcmd (by omega)]
    exact (h.cmd (by omega)).later hlater (by omega)
  · rw [hchild, hsender (by omega)]
    exact (h.senderCmd (by omega)).later hlater (by omega)
  · rw [hchild]
    by_cases hlt : l.pc.rank < 9
    · exact hended hr hlt
    · obtain ⟨id, hid, hlog⟩ := h.ended (by omega)
      exact ⟨id, by rw [hsender (by omega), hid], hlater.log _ hlog⟩

/-- Whose processes a kill is meant for. Source: none: specification. Kind: D -/
def Caller.means : Caller → ℕ → Bytes → Prop
  | .main key, _, key' => key' = key
  | .launch n, n', _ => n' = n
  | .watch n, n', _ => n' = n

/-- A kill went to a process that it is meant for. Source: none: specification. Kind: D -/
def Meant (s : State) (e : Caller × ℕ) : Prop :=
  ∃ c l, s.cmds[e.2]? = some c ∧ s.launches[c.launch]? = some l ∧ e.1.means c.launch l.key

theorem Meant.later {e : Caller × ℕ} (h : Meant s e) (hlater : Later s s') : Meant s' e := by
  obtain ⟨c, l, hc, hl, hmeans⟩ := h
  obtain ⟨c', hc', hlaunch, -⟩ := hlater.cmds _ c hc
  obtain ⟨l', hl', -, hkey, -⟩ := hlater.launches _ l hl
  exact ⟨c', l', hc', by rw [hlaunch, hl'], by rw [hlaunch, hkey]; exact hmeans⟩

/-- The main loop has sent a kill to both processes of a `launch`. Source: none: specification. Kind: D -/
def Killed (s : State) (l : Launch) : Prop :=
  4 ≤ l.pc.rank ∧ (∃ id, (s.heap l.child).cmd = some id ∧ (.main l.key, id) ∈ s.log) ∧
    ∃ id, (s.heap l.child).senderCmd = some id ∧ (.main l.key, id) ∈ s.log

/-- The keys that the loop over `children` has come to. Source: none: specification. Kind: D -/
def MainPc.removed : MainPc → Option (List Bytes)
  | .remove visited | .cancel visited _ _ => some visited
  | _ => none

/-- **The launcher, in time.** `unused`: the loop over `targets` comes to fresh objects. `young`: while the
main loop is awake, what has not started its processes is wanted. `swept`, `asleep`: what is not wanted
has been sent a kill.
Source: `agent.go`
Kind: D -/
structure Supervised (s : State) : Prop where
  sane : s.panicked = false
  once : ∀ (m n : ℕ) l l', s.launches[m]? = some l → s.launches[n]? = some l' → l.child = l'.child → m = n
  unused : ∀ visited, s.main = .add visited → ∀ key r, s.targets.get key = some r → key ∉ visited →
    ∀ l ∈ s.launches, l.child ≠ r
  held : ∀ (n : ℕ) l, s.launches[n]? = some l → Held s n l
  made : ∀ (id : ℕ) c, s.cmds[id]? = some c → ∃ l, s.launches[c.launch]? = some l ∧
    (1 ≤ l.pc.rank ∧ (s.heap l.child).cmd = some id ∧ (∃ ip, c.program = .ping ip) ∨
      3 ≤ l.pc.rank ∧ (s.heap l.child).senderCmd = some id)
  log : ∀ e ∈ s.log, Meant s e
  young : s.main ≠ .sleep → ∀ l ∈ s.launches, l.pc.rank < 4 → l.key ∈ s.targets
  cancelling : ∀ visited key r, s.main = .cancel visited key r →
    (∃ id, (s.heap r).cmd = some id ∧ (.main key, id) ∈ s.log) ∧
      (∃ l ∈ s.launches, l.child = r ∧ l.key = key ∧ 4 ≤ l.pc.rank) ∧
      ∀ l ∈ s.launches, l.key = key → l.pc ≠ .done → l.child = r
  swept : ∀ visited, s.main.removed = some visited → ∀ l ∈ s.launches, l.key ∈ visited → l.pc ≠ .done →
    l.key ∈ s.targets ∨ Killed s l
  asleep : s.main = .sleep → ∀ l ∈ s.launches, l.pc ≠ .done → l.key ∈ s.targets ∨ Killed s l

theorem Killed.later (h : Killed s l) (hlater : Later s s') (hchild : l'.child = l.child)
    (hkey : l'.key = l.key) (hrank : l.pc.rank ≤ l'.pc.rank)
    (hcmd : 1 ≤ l.pc.rank → (s'.heap l.child).cmd = (s.heap l.child).cmd)
    (hsender : 3 ≤ l.pc.rank → (s'.heap l.child).senderCmd = (s.heap l.child).senderCmd) : Killed s' l' := by
  obtain ⟨hlate, ⟨id, hid, hlog⟩, id', hid', hlog'⟩ := h
  refine ⟨hlate.trans hrank, ⟨id, ?_, ?_⟩, id', ?_, ?_⟩
  · rw [hchild, hcmd (by omega), hid]
  · rw [hkey]
    exact hlater.log _ hlog
  · rw [hchild, hsender (by omega), hid']
  · rw [hkey]
    exact hlater.log _ hlog'

/-- A statement of one goroutine leaves the rest. Source: `agent.go`, `launch`. Kind: L -/
theorem Supervised.goroutine (h : Supervised s) (hlater : Later s s') (hl : s.launches[n]? = some l)
    (hset : s'.launches = s.launches.set n l') (hchild : l'.child = l.child) (hkey : l'.key = l.key)
    (hrank : l.pc.rank ≤ l'.pc.rank) (hdone : l.pc = .done → l'.pc = .done)
    (htargets : s'.targets = s.targets) (hmain : s'.main = s.main)
    (hheap : ∀ r, r ≠ l.child → s'.heap r = s.heap r)
    (hcmd : 1 ≤ l.pc.rank → (s'.heap l.child).cmd = (s.heap l.child).cmd)
    (hsender : 3 ≤ l.pc.rank → (s'.heap l.child).senderCmd = (s.heap l.child).senderCmd)
    (hsane : s'.panicked = false) (hheld : Held s' n l') (hlog : ∀ e ∈ s'.log, e ∈ s.log ∨ Meant s' e)
    (hmade : ∀ (id : ℕ) c, s'.cmds[id]? = some c →
      (∃ c₀, s.cmds[id]? = some c₀ ∧ c₀.launch = c.launch ∧ c₀.program = c.program) ∨ c.launch = n ∧
        (1 ≤ l'.pc.rank ∧ (s'.heap l.child).cmd = some id ∧ (∃ ip, c.program = .ping ip) ∨
          3 ≤ l'.pc.rank ∧ (s'.heap l.child).senderCmd = some id)) : Supervised s' := by
  have hlt := (List.getElem?_eq_some_iff.mp hl).1
  have hback : ∀ (m : ℕ) l₁, s'.launches[m]? = some l₁ → ∃ l₀, s.launches[m]? = some l₀ ∧
      l₁.child = l₀.child ∧ l₁.key = l₀.key ∧ l₀.pc.rank ≤ l₁.pc.rank ∧
        (l₁.pc ≠ .done → l₀.pc ≠ .done) ∧ (m ≠ n → l₁ = l₀) ∧ (m = n → l₁ = l') := by
    intro m l₁ hl₁
    rw [hset, List.getElem?_set] at hl₁
    split at hl₁
    · next heq =>
      subst heq
      obtain rfl := Option.some.inj hl₁
      exact ⟨l, hl, hchild, hkey, hrank, mt hdone, fun hne => absurd rfl hne, fun _ => rfl⟩
    · next hne =>
      exact ⟨l₁, hl₁, rfl, rfl, le_rfl, fun h => h, fun _ => rfl, fun heq => absurd heq.symm hne⟩
  have hfields : ∀ (m : ℕ) l₀, s.launches[m]? = some l₀ →
      (1 ≤ l₀.pc.rank → (s'.heap l₀.child).cmd = (s.heap l₀.child).cmd) ∧
        (3 ≤ l₀.pc.rank → (s'.heap l₀.child).senderCmd = (s.heap l₀.child).senderCmd) := by
    intro m l₀ hl₀
    by_cases hm : m = n
    · subst hm
      obtain rfl := Option.some.inj (hl.symm.trans hl₀)
      exact ⟨hcmd, hsender⟩
    · rw [hheap l₀.child fun heq => hm (h.once m n l₀ l hl₀ hl heq)]
      exact ⟨fun _ => rfl, fun _ => rfl⟩
  have hmem : ∀ l₁ ∈ s'.launches, ∃ (m : ℕ) (l₀ : Launch), s.launches[m]? = some l₀ ∧ l₀ ∈ s.launches ∧
      l₁.child = l₀.child ∧ l₁.key = l₀.key ∧ l₀.pc.rank ≤ l₁.pc.rank ∧
        (l₁.pc ≠ .done → l₀.pc ≠ .done) := by
    intro l₁ hl₁
    obtain ⟨m, hm⟩ := List.getElem?_of_mem hl₁
    obtain ⟨l₀, hl₀, hchild₀, hkey₀, hrank₀, hdone₀, -⟩ := hback m l₁ hm
    exact ⟨m, l₀, hl₀, List.mem_of_getElem? hl₀, hchild₀, hkey₀, hrank₀, hdone₀⟩
  refine ⟨hsane, fun m m' l₁ l₂ hl₁ hl₂ heq => ?_, fun visited hadd key r hr hkey' l₁ hl₁ => ?_,
    fun m l₁ hl₁ => ?_, fun id c hc => ?_, fun e he => ?_, fun hawake l₁ hl₁ hyoung => ?_,
    fun visited key r hcancel => ?_, fun visited hremoved l₁ hl₁ hvisited hlive => ?_,
    fun hasleep l₁ hl₁ hlive => ?_⟩
  · obtain ⟨l₀, hl₀, hchild₀, -⟩ := hback m l₁ hl₁
    obtain ⟨l₀', hl₀', hchild₀', -⟩ := hback m' l₂ hl₂
    exact h.once m m' l₀ l₀' hl₀ hl₀' (by rw [← hchild₀, ← hchild₀', heq])
  · obtain ⟨m, l₀, -, hl₀, hchild₀, -⟩ := hmem l₁ hl₁
    rw [hchild₀]
    exact h.unused visited (hmain ▸ hadd) key r (htargets ▸ hr) hkey' l₀ hl₀
  · by_cases hm : m = n
    · obtain ⟨l₀, -, -, -, -, -, -, heq⟩ := hback m l₁ hl₁
      obtain rfl := heq hm
      exact hm ▸ hheld
    · obtain ⟨l₀, hl₀, -, -, -, -, heq, -⟩ := hback m l₁ hl₁
      obtain rfl := heq hm
      obtain ⟨hcmd₀, hsender₀⟩ := hfields m l₁ hl₀
      refine (h.held m l₁ hl₀).later hlater rfl hcmd₀ hsender₀ (Or.inr rfl) (h.held m l₁ hl₀).watch
        fun hge hlt => ?_
      omega
  · rcases hmade id c hc with ⟨c₀, hc₀, hlaunch, hprogram⟩ | ⟨hn, hnew⟩
    · obtain ⟨l₀, hl₀, hold⟩ := h.made id c₀ hc₀
      obtain ⟨l₁, hl₁, hchild₁, -, hrank₁⟩ := hlater.launches _ l₀ hl₀
      obtain ⟨hcmd₀, hsender₀⟩ := hfields _ l₀ hl₀
      refine ⟨l₁, by rw [← hlaunch, hl₁], ?_⟩
      rw [hchild₁]
      rcases hold with ⟨hr, hid, hip⟩ | ⟨hr, hid⟩
      · exact Or.inl ⟨by omega, by rw [hcmd₀ hr, hid], hprogram ▸ hip⟩
      · exact Or.inr ⟨by omega, by rw [hsender₀ hr, hid]⟩
    · refine ⟨l', by rw [hn, hset, List.getElem?_set_self hlt], ?_⟩
      rw [hchild]
      exact hnew
  · rcases hlog e he with hold | hnew
    · exact (h.log e hold).later hlater
    · exact hnew
  · obtain ⟨m, l₀, -, hl₀, -, hkey₀, hrank₀, -⟩ := hmem l₁ hl₁
    rw [htargets, hkey₀]
    exact h.young (hmain ▸ hawake) l₀ hl₀ (by omega)
  · obtain ⟨⟨id, hid, hkill⟩, ⟨l₀, hl₀, hchild₀, hkey₀, hrank₀⟩, honly⟩ :=
      h.cancelling visited key r (hmain ▸ hcancel)
    obtain ⟨m, hm⟩ := List.getElem?_of_mem hl₀
    obtain ⟨l₁, hl₁, hchild₁, hkey₁, hrank₁⟩ := hlater.launches m l₀ hm
    obtain ⟨hcmd₀, -⟩ := hfields m l₀ hm
    refine ⟨⟨id, ?_, hlater.log _ hkill⟩, ⟨l₁, List.mem_of_getElem? hl₁, by rw [hchild₁, hchild₀],
      by rw [hkey₁, hkey₀], by omega⟩, fun l₂ hl₂ hkey₂ hlive => ?_⟩
    · rw [← hchild₀, hcmd₀ (by omega), hchild₀, hid]
    · obtain ⟨m', l₃, -, hl₃, hchild₃, hkey₃, -, hlive₃⟩ := hmem l₂ hl₂
      rw [hchild₃]
      exact honly l₃ hl₃ (by rw [← hkey₃, hkey₂]) (hlive₃ hlive)
  · obtain ⟨m, l₀, hm, hl₀, hchild₀, hkey₀, hrank₀, hlive₀⟩ := hmem l₁ hl₁
    rw [htargets, hkey₀]
    refine (h.swept visited (hmain ▸ hremoved) l₀ hl₀ (hkey₀ ▸ hvisited) (hlive₀ hlive)).imp_right
      fun hkilled => ?_
    obtain ⟨hcmd₀, hsender₀⟩ := hfields m l₀ hm
    exact hkilled.later hlater hchild₀ hkey₀ hrank₀ hcmd₀ hsender₀
  · obtain ⟨m, l₀, hm, hl₀, hchild₀, hkey₀, hrank₀, hlive₀⟩ := hmem l₁ hl₁
    rw [htargets, hkey₀]
    refine (h.asleep (hmain ▸ hasleep) l₀ hl₀ (hlive₀ hlive)).imp_right fun hkilled => ?_
    obtain ⟨hcmd₀, hsender₀⟩ := hfields m l₀ hm
    exact hkilled.later hlater hchild₀ hkey₀ hrank₀ hcmd₀ hsender₀

theorem launch_of_modify {cmd : Option ℕ} {f : Cmd → Cmd}
    (hcmds : s'.cmds = cmd.elim s.cmds fun id => s.cmds.modify id f)
    (hf : ∀ c, (f c).launch = c.launch ∧ (f c).program = c.program) (id : ℕ) (c : Cmd)
    (hc : s'.cmds[id]? = some c) :
    ∃ c₀, s.cmds[id]? = some c₀ ∧ c₀.launch = c.launch ∧ c₀.program = c.program := by
  rw [hcmds] at hc
  cases cmd with
  | none => exact ⟨c, hc, rfl, rfl⟩
  | some id' =>
      rw [Option.elim_some, List.getElem?_modify] at hc
      obtain ⟨c₀, hc₀, rfl⟩ := Option.map_eq_some_iff.mp hc
      refine ⟨c₀, hc₀, ?_⟩
      split
      · exact ⟨(hf c₀).1.symm, (hf c₀).2.symm⟩
      · exact ⟨rfl, rfl⟩

theorem launch_of_concat {program : Program} (hcmds : s'.cmds = s.cmds ++ [⟨n, program, .created, false⟩])
    (id : ℕ) (c : Cmd) (hc : s'.cmds[id]? = some c) :
    (∃ c₀, s.cmds[id]? = some c₀ ∧ c₀.launch = c.launch ∧ c₀.program = c.program) ∨
      c.launch = n ∧ id = s.cmds.length ∧ c.program = program := by
  rw [hcmds, List.getElem?_append] at hc
  split at hc
  · exact Or.inl ⟨c, hc, rfl, rfl⟩
  · have hmem := List.mem_singleton.mp (List.mem_of_getElem? hc)
    obtain ⟨hlt, -⟩ := List.getElem?_eq_some_iff.mp hc
    rw [List.length_singleton] at hlt
    exact Or.inr ⟨by rw [hmem], by omega, by rw [hmem]⟩

/-- A statement of a `launch` that has started its processes. Source: `agent.go`, `launch`. Kind: L -/
theorem Supervised.late (h : Supervised s) (hlater : Later s s') (hl : s.launches[n]? = some l)
    (hrank : 4 ≤ l.pc.rank) (hset : s'.launches = s.launches.set n l') (hchild : l'.child = l.child)
    (hkey : l'.key = l.key) (hle : l.pc.rank ≤ l'.pc.rank) (hdone : l.pc = .done → l'.pc = .done)
    (htargets : s'.targets = s.targets) (hmain : s'.main = s.main) (hheap : s'.heap = s.heap)
    (hsane : s'.panicked = false) (hwatch : l'.watch ≠ .idle → 6 ≤ l'.pc.rank)
    (hended : 9 ≤ l'.pc.rank → l.pc.rank < 9 →
      ∃ id, (s.heap l.child).senderCmd = some id ∧ (.launch n, id) ∈ s'.log)
    (hlog : ∀ e ∈ s'.log, e ∈ s.log ∨ Meant s' e) {cmd : Option ℕ} {f : Cmd → Cmd}
    (hcmds : s'.cmds = cmd.elim s.cmds fun id => s.cmds.modify id f)
    (hf : ∀ c, (f c).launch = c.launch ∧ (f c).program = c.program) : Supervised s' := by
  refine h.goroutine hlater hl hset hchild hkey hle hdone htargets hmain (fun _ _ => by rw [hheap])
    (fun _ => by rw [hheap]) (fun _ => by rw [hheap]) hsane ?_ hlog
    fun id c hc => Or.inl (launch_of_modify hcmds hf id c hc)
  refine (h.held n l hl).later hlater hchild (fun _ => by rw [hheap]) (fun _ => by rw [hheap])
    (Or.inl hrank) hwatch ?_
  rw [hheap]
  exact hended

/-- A kill of a process of a `launch`. Source: `agent.go`, `launch`. Kind: L -/
theorem Holds.meant (hl : s.launches[n]? = some l) (hlater : Later s s')
    {cmd : Option ℕ} {p : Prop} (h : Holds s n cmd p) {caller : Caller} (hmeans : caller.means n l.key) :
    ∀ e ∈ cmd.toList.map fun id => (caller, id), Meant s' e := by
  intro e he
  obtain ⟨id, c, rfl, hc, rfl, -⟩ := h
  obtain rfl := List.mem_singleton.mp he
  exact Meant.later ⟨c, l, hc, hl, hmeans⟩ hlater

theorem heap_setChild (r : ℕ) (c : Child) : (s.setChild r c).heap r = c := Function.update_self _ _ _

/-- Source: `agent.go`, `launch`. Kind: L -/
theorem Supervised.launch (h : Supervised s) (hs : s.launch n true = some s') : Supervised s' := by
  have hlater := Later.launch hs
  have hsane := h.sane
  unfold State.launch at hs
  obtain ⟨l, hl, hs⟩ := Option.bind_eq_some_iff.mp hs
  have hheld := h.held n l hl
  cases hpc : l.pc <;> simp only [hpc, Option.some.injEq, reduceCtorEq] at hs
  case cmd =>
    have hrank : l.pc.rank = 0 := by rw [hpc]; rfl
    have hwatch : l.watch = .idle := by
      by_contra hne
      have := hheld.watch hne
      omega
    have hself := @heap_setChild (s.newCmd n (.ping (s.heap l.child).t.peerIp)) l.child
      { s.heap l.child with cmd := s.cmds.length }
    subst hs
    refine h.goroutine hlater hl rfl rfl rfl (by omega) (by simp [hpc]) rfl rfl
      (fun r hr => Function.update_of_ne hr _ _) (by omega) (by omega) hsane ⟨fun _ => ?_, ?_, ?_, ?_⟩
      (fun e he => Or.inl he) fun id c hc => ?_
    · refine ⟨s.cmds.length, _, ?_, List.getElem?_concat_length, rfl, fun hle => absurd hle (show ¬2 ≤ 1 by decide)⟩
      exact (congrArg Child.cmd hself :)
    · exact fun hle => absurd hle (show ¬3 ≤ 1 by decide)
    · exact fun hne => absurd hwatch hne
    · exact fun hle => absurd hle (show ¬9 ≤ 1 by decide)
    · refine (launch_of_concat rfl id c hc).imp_right ?_
      rintro ⟨hn, hid, hip⟩
      refine ⟨hn, Or.inl ⟨le_refl 1, ?_, _, hip⟩⟩
      rw [hid]
      exact (congrArg Child.cmd hself :)
  case cmdStart =>
    have hrank : l.pc.rank = 1 := by rw [hpc]; rfl
    have hcmd := hheld.cmd (by omega)
    subst hs
    refine h.goroutine hlater hl rfl rfl rfl ?_ (by simp [hpc]) rfl rfl
      (fun _ _ => rfl) (fun _ => rfl) (fun _ => rfl) ?_ ⟨fun _ => ?_, ?_, ?_, ?_⟩ (fun e he => Or.inl he) ?_
    · rw [hrank]
      exact show 1 ≤ 2 by decide
    · simp [State.goto, State.start, State.modifyCmd, State.check, hsane, hcmd.command]
    · obtain ⟨id, c, hid, hc, hn, -⟩ := hcmd
      refine ⟨id, { c with status := .running }, hid, ?_, hn, fun _ => running_ne⟩
      simp [State.goto, State.start, State.modifyCmd, State.check, hid, hc]
    · exact fun hle => absurd hle (show ¬3 ≤ 2 by decide)
    · exact fun hne => absurd (hheld.watch hne) (by omega)
    · exact fun hle => absurd hle (show ¬9 ≤ 2 by decide)
    · exact fun id c hc => Or.inl (launch_of_modify rfl (by exact fun c => ⟨rfl, rfl⟩) id c hc)
  case senderCmd =>
    have hrank : l.pc.rank = 2 := by rw [hpc]; rfl
    have hself := @heap_setChild (s.newCmd n (.sender (s.heap l.child).t.localHostname
      (s.heap l.child).t.peerHostname (s.heap l.child).t.meshName)) l.child
      { s.heap l.child with senderCmd := s.cmds.length }
    have hcmd := (hheld.cmd (by omega)).later hlater fun _ : 2 ≤ 3 => hrank.ge
    subst hs
    refine h.goroutine hlater hl rfl rfl rfl ?_ (by simp [hpc]) rfl rfl
      (fun r hr => Function.update_of_ne hr _ _) (fun _ => ?_) (by omega) hsane
      ⟨fun _ => ?_, fun _ => ?_, ?_, ?_⟩ (fun e he => Or.inl he) fun id c hc => ?_
    · rw [hrank]
      exact show 2 ≤ 3 by decide
    · exact (congrArg Child.cmd hself :)
    · exact ((congrArg Child.cmd hself :).symm ▸ hcmd :)
    · refine ⟨s.cmds.length, _, ?_, List.getElem?_concat_length, rfl, fun hle => absurd hle (show ¬4 ≤ 3 by decide)⟩
      exact (congrArg Child.senderCmd hself :)
    · exact fun hne => absurd (hheld.watch hne) (by omega)
    · exact fun hle => absurd hle (show ¬9 ≤ 3 by decide)
    · refine (launch_of_concat rfl id c hc).imp_right ?_
      rintro ⟨hn, hid, -⟩
      refine ⟨hn, Or.inr ⟨le_refl 3, ?_⟩⟩
      rw [hid]
      exact (congrArg Child.senderCmd hself :)
  case senderStart =>
    have hrank : l.pc.rank = 3 := by rw [hpc]; rfl
    have hsender := hheld.senderCmd (by omega)
    have hcmd := (hheld.cmd (by omega)).later hlater fun _ : 2 ≤ 4 => by omega
    subst hs
    refine h.goroutine hlater hl rfl rfl rfl ?_ (by simp [hpc]) rfl rfl
      (fun _ _ => rfl) (fun _ => rfl) (fun _ => rfl) ?_ ⟨fun _ => hcmd, fun _ => ?_, ?_, ?_⟩
      (fun e he => Or.inl he) ?_
    · rw [hrank]
      exact show 3 ≤ 4 by decide
    · simp [State.goto, State.start, State.modifyCmd, State.check, hsane, hsender.command]
    · obtain ⟨id, c, hid, hc, hn, -⟩ := hsender
      refine ⟨id, { c with status := .running }, hid, ?_, hn, fun _ => running_ne⟩
      simp [State.goto, State.start, State.modifyCmd, State.check, hid, hc]
    · exact fun hne => absurd (hheld.watch hne) (by omega)
    · exact fun hle => absurd hle (show ¬9 ≤ 4 by decide)
    · exact fun id c hc => Or.inl (launch_of_modify rfl (by exact fun c => ⟨rfl, rfl⟩) id c hc)
  case log =>
    have hrank : l.pc.rank = 4 := by rw [hpc]; rfl
    have hcmd := (hheld.cmd (by omega)).hasProcess (by omega)
    have hsender := (hheld.senderCmd (by omega)).hasProcess (by omega)
    subst hs
    refine @Supervised.late s _ n l _ h hlater hl hrank.ge rfl rfl rfl ?_ ?_ rfl rfl rfl ?_ ?_ ?_ ?_ none id
      rfl (fun _ => ⟨rfl, rfl⟩)
    · rw [hrank]
      exact show 4 ≤ 5 by decide
    · exact fun hdone => by simp [hpc] at hdone
    · simp [State.goto, State.check, hsane, hcmd, hsender]
    · exact fun hne => absurd (hheld.watch hne) (by omega)
    · exact fun hge => absurd hge (show ¬9 ≤ 5 by decide)
    · exact fun e he => Or.inl he
  case watch =>
    have hrank : l.pc.rank = 5 := by rw [hpc]; rfl
    subst hs
    refine @Supervised.late s _ n l _ h hlater hl (by omega) rfl rfl rfl ?_ ?_ rfl rfl rfl hsane ?_ ?_ ?_ none
      id rfl (fun _ => ⟨rfl, rfl⟩)
    · rw [hrank]
      exact show 5 ≤ 6 by decide
    · exact fun hdone => by simp [hpc] at hdone
    · exact fun _ => le_refl 6
    · exact fun hge => absurd hge (show ¬9 ≤ 6 by decide)
    · exact fun e he => Or.inl he
  case wait =>
    have hrank : l.pc.rank = 6 := by rw [hpc]; rfl
    have hcmd := (hheld.cmd (by omega)).command
    have hnext : ∀ next : Option ℕ, 6 ≤ (next.elim LaunchPc.cancel LaunchPc.waiting).rank ∧
        ¬9 ≤ (next.elim LaunchPc.cancel LaunchPc.waiting).rank := by
      intro next
      cases next with
      | none => exact ⟨show 6 ≤ 8 by decide, show ¬9 ≤ 8 by decide⟩
      | some id => exact ⟨show 6 ≤ 7 by decide, show ¬9 ≤ 7 by decide⟩
    subst hs
    refine @Supervised.late s _ n l _ h hlater hl (by omega) rfl rfl rfl ?_ ?_ rfl rfl rfl ?_ ?_ ?_ ?_ _ _
      rfl (fun _ => ⟨rfl, rfl⟩)
    · rw [hrank]
      exact (hnext _).1
    · exact fun hdone => by simp [hpc] at hdone
    · simp [State.goto, State.wait, State.modifyCmd, State.check, hsane, hcmd]
    · exact fun _ => (hnext _).1
    · exact fun hge => absurd hge (hnext _).2
    · exact fun e he => Or.inl he
  case waiting id' =>
    have hrank : l.pc.rank = 7 := by rw [hpc]; rfl
    obtain ⟨-, hs⟩ := Option.ite_none_right_eq_some.mp hs
    obtain rfl := Option.some.inj hs
    refine @Supervised.late s _ n l _ h hlater hl (by omega) rfl rfl rfl ?_ ?_ rfl rfl rfl hsane ?_ ?_ ?_ none
      id rfl (fun _ => ⟨rfl, rfl⟩)
    · rw [hrank]
      exact show 7 ≤ 8 by decide
    · exact fun hdone => by simp [hpc] at hdone
    · exact fun _ => show 6 ≤ 8 by decide
    · exact fun hge => absurd hge (show ¬9 ≤ 8 by decide)
    · exact fun e he => Or.inl he
  case cancel =>
    have hrank : l.pc.rank = 8 := by rw [hpc]; rfl
    have hholds := hheld.senderCmd (by omega)
    have hsender := hholds.hasProcess (by omega)
    subst hs
    refine @Supervised.late s _ n l _ h hlater hl (by omega) rfl rfl rfl ?_ ?_ rfl rfl rfl ?_ ?_ ?_ ?_ none
      id rfl (fun _ => ⟨rfl, rfl⟩)
    · rw [hrank]
      exact show 8 ≤ 9 by decide
    · exact fun hdone => by simp [hpc] at hdone
    · simp [State.goto, State.cancel, State.check, hsane, hsender]
    · exact fun _ => show 6 ≤ 9 by decide
    · intro _ _
      obtain ⟨id, c, hid, -⟩ := hholds
      refine ⟨id, hid, ?_⟩
      simp only [State.goto, State.cancel, hsender, if_true]
      simp [hid]
    · intro e he
      simp only [State.goto, State.cancel, hsender, if_true, List.mem_append] at he
      exact he.imp_right (hholds.meant hl hlater (show Caller.means (.launch n) n l.key from rfl) e)
  case delete =>
    have hrank : l.pc.rank = 9 := by rw [hpc]; rfl
    subst hs
    refine @Supervised.late s _ n l _ h hlater hl (by omega) rfl rfl rfl ?_ ?_ rfl rfl rfl hsane ?_ ?_ ?_ none
      id rfl (fun _ => ⟨rfl, rfl⟩)
    · rw [hrank]
      exact show 9 ≤ 10 by decide
    · exact fun _ => rfl
    · exact fun _ => show 6 ≤ 10 by decide
    · exact fun _ hlt => absurd hlt (by omega)
    · exact fun e he => Or.inl he

/-- Source: `agent.go`, `launch`. Kind: L -/
theorem Supervised.watch (h : Supervised s) (hs : s.watch n = some s') : Supervised s' := by
  have hlater := Later.watch hs
  have hsane := h.sane
  unfold State.watch at hs
  obtain ⟨l, hl, hs⟩ := Option.bind_eq_some_iff.mp hs
  have hheld := h.held n l hl
  cases hwatch : l.watch <;> simp only [hwatch, Option.some.injEq, reduceCtorEq] at hs
  case wait =>
    have hrank := hheld.watch (by simp [hwatch])
    have hsender := (hheld.senderCmd (by omega)).command
    subst hs
    refine @Supervised.late s _ n l _ h hlater hl (by omega) rfl rfl rfl le_rfl (fun h => h) rfl rfl rfl ?_
      (fun _ => hrank) (fun hge hlt => absurd hge (not_le.mpr hlt)) (fun e he => Or.inl he) _ _ rfl
      (fun _ => ⟨rfl, rfl⟩)
    simp [State.goto, State.wait, State.modifyCmd, State.check, hsane, hsender]
  case waiting id' =>
    have hrank := hheld.watch (by simp [hwatch])
    obtain ⟨-, hs⟩ := Option.ite_none_right_eq_some.mp hs
    obtain rfl := Option.some.inj hs
    exact @Supervised.late s _ n l _ h hlater hl (by omega) rfl rfl rfl le_rfl (fun h => h) rfl rfl rfl hsane
      (fun _ => hrank) (fun hge hlt => absurd hge (not_le.mpr hlt)) (fun e he => Or.inl he) none id rfl
      (fun _ => ⟨rfl, rfl⟩)
  case cancel =>
    have hrank := hheld.watch (by simp [hwatch])
    have hholds := hheld.cmd (by omega)
    have hcmd := hholds.hasProcess (by omega)
    subst hs
    refine @Supervised.late s _ n l _ h hlater hl (by omega) rfl rfl rfl le_rfl (fun h => h) rfl rfl rfl ?_
      (fun _ => hrank) (fun hge hlt => absurd hge (not_le.mpr hlt)) ?_ none id rfl (fun _ => ⟨rfl, rfl⟩)
    · simp [State.goto, State.cancel, State.check, hsane, hcmd]
    · intro e he
      simp only [State.goto, State.cancel, hcmd, if_true, List.mem_append] at he
      exact he.imp_right (hholds.meant hl hlater (show Caller.means (.watch n) n l.key from rfl) e)

/-! ## The main loop -/

/-- A statement of the main loop leaves the goroutines. Source: `agent.go`, `synchronize`. Kind: L -/
theorem Supervised.loop (h : Supervised s) {main : MainPc} {log : List (Caller × ℕ)}
    (hs : s' = { s with main := main, log := s.log ++ log })
    (hlog : ∀ e ∈ log, Meant s e) (hadd : ∀ visited, main ≠ .add visited)
    (hyoung : main ≠ .sleep → s.main ≠ .sleep)
    (hcancelling : ∀ visited key r, main = .cancel visited key r →
      (∃ id, (s.heap r).cmd = some id ∧ (.main key, id) ∈ log) ∧
        (∃ l ∈ s.launches, l.child = r ∧ l.key = key ∧ 4 ≤ l.pc.rank) ∧
        ∀ l ∈ s.launches, l.key = key → l.pc ≠ .done → l.child = r)
    (hswept : ∀ visited, main.removed = some visited → ∀ l ∈ s.launches, l.key ∈ visited → l.pc ≠ .done →
      l.key ∈ s.targets ∨ Killed s' l)
    (hasleep : main = .sleep → ∀ l ∈ s.launches, l.pc ≠ .done → l.key ∈ s.targets ∨ Killed s' l) :
    Supervised s' := by
  subst hs
  have hlater : Later s { s with main := main, log := s.log ++ log } :=
    .of_eq rfl List.prefix_rfl (List.prefix_append _ _)
  refine ⟨h.sane, h.once, fun visited hvisited => absurd hvisited (hadd visited), fun n l hl => ?_, h.made,
    fun e he => ?_, fun hawake => h.young (hyoung hawake), fun visited key r hcancel => ?_, hswept, hasleep⟩
  · exact (h.held n l hl).later hlater rfl (fun _ => rfl) (fun _ => rfl) (Or.inr rfl) (h.held n l hl).watch
      fun hge hlt => absurd hge (not_le.mpr hlt)
  · rcases List.mem_append.mp he with hold | hnew
    · exact (h.log e hold).later hlater
    · exact (hlog e hnew).later hlater
  · obtain ⟨⟨id, hid, hkill⟩, hrest⟩ := hcancelling visited key r hcancel
    exact ⟨⟨id, hid, List.mem_append_right _ hkill⟩, hrest⟩

theorem Killed.of_log (h : Killed s l) (hheap : s'.heap = s.heap) (hlog : s.log <+: s'.log) : Killed s' l := by
  obtain ⟨hlate, ⟨id, hid, hkill⟩, id', hid', hkill'⟩ := h
  rw [← hheap] at hid hid'
  exact ⟨hlate, ⟨id, hid, hlog.subset hkill⟩, id', hid', hlog.subset hkill'⟩

/-- Source: `agent.go`, `synchronize`. Kind: L -/
theorem Supervised.endAdd (h : Supervised s) (hs : s.endAdd = some s') : Supervised s' := by
  unfold State.endAdd at hs
  split at hs
  · next visited hmain =>
    obtain ⟨-, hs⟩ := Option.ite_none_right_eq_some.mp hs
    obtain rfl := Option.some.inj hs
    refine @Supervised.loop s _ h (.remove []) [] (by rw [List.append_nil]) nofun nofun (fun _ => ?_) nofun
      (fun visited hvisited l _ hmem => ?_) nofun
    · rw [hmain]
      exact nofun
    · obtain rfl := Option.some.inj hvisited
      exact absurd hmem List.not_mem_nil
  · cases hs

/-- Source: `agent.go`, `synchronize`. Kind: L -/
theorem Supervised.endRemove (h : Supervised s) (howned : Owned s) (hs : s.endRemove = some s') :
    Supervised s' := by
  unfold State.endRemove at hs
  split at hs
  · next visited hmain =>
    obtain ⟨hall, hs⟩ := Option.ite_none_right_eq_some.mp hs
    obtain rfl := Option.some.inj hs
    refine @Supervised.loop s _ h .sleep [] (by rw [List.append_nil]) nofun nofun (absurd rfl ·) nofun nofun
      fun _ l hl hlive => ?_
    obtain ⟨n, hn⟩ := List.getElem?_of_mem hl
    have hentry : s.children.get l.key = some l.child :=
      (howned.entry _ _).mpr ⟨n, by rw [view_of_get hn, Launch.view, decide_eq_false hlive]⟩
    have hmem := List.all_eq_true.mp hall l.key (Dict.mem_iff_get.mpr ⟨_, hentry⟩)
    rw [List.contains_iff_mem] at hmem
    exact (h.swept visited (by rw [hmain]; rfl) l hl hmem hlive).imp_right
      fun hkilled => hkilled.of_log rfl List.prefix_rfl
  · cases hs

/-- Source: `agent.go`, `synchronize`. Kind: L -/
theorem Supervised.remove (h : Supervised s) (howned : Owned s) {key : Bytes} (hs : s.remove key = some s') :
    Supervised s' := by
  unfold State.remove at hs
  split at hs
  · next visited r hmain hr =>
    obtain ⟨-, hs⟩ := Option.ite_none_left_eq_some.mp hs
    have hawake : s.main ≠ .sleep := by
      rw [hmain]
      exact nofun
    have hswept := h.swept visited (by rw [hmain]; rfl)
    split at hs
    · next hwanted =>
      obtain rfl := Option.some.inj hs
      refine @Supervised.loop s _ h (.remove (key :: visited)) [] (by rw [List.append_nil]) nofun nofun
        (fun _ => hawake) nofun (fun visited' hvisited l hl hmem hlive => ?_) nofun
      obtain rfl := Option.some.inj hvisited
      rcases List.mem_cons.mp hmem with heq | hmem
      · exact Or.inl (heq ▸ hwanted)
      · exact (hswept l hl hmem hlive).imp_right fun hkilled => hkilled.of_log rfl List.prefix_rfl
    · next hunwanted =>
      obtain ⟨n, hn⟩ := (howned.entry key r).mp hr
      obtain ⟨l, hl, hview⟩ := Option.map_eq_some_iff.mp hn
      obtain ⟨rfl, hrest⟩ := Prod.mk.inj hview
      obtain ⟨rfl, -⟩ := Prod.mk.inj hrest
      have hmem := List.mem_of_getElem? hl
      have hrank : 4 ≤ l.pc.rank := by
        by_contra hlt
        exact hunwanted (h.young hawake l hmem (by omega))
      have hholds := (h.held n l hl).cmd (by omega)
      have hprocess := hholds.hasProcess (by omega)
      obtain rfl := Option.some.inj hs
      refine @Supervised.loop s _ h (.cancel visited l.key l.child)
        ((s.heap l.child).cmd.toList.map fun id => (.main l.key, id))
        ?_ (hholds.meant hl (.of_eq rfl List.prefix_rfl List.prefix_rfl)
          (show Caller.means (.main l.key) n l.key from rfl)) nofun (fun _ => hawake)
        (fun visited' key' r' hcancel => ?_) (fun visited' hvisited l' hl' hmem' hlive' => ?_) nofun
      · simp [State.cancel, State.check, hprocess]
      · cases hcancel
        refine ⟨?_, ⟨l, hmem, rfl, rfl, hrank⟩, fun l' hl' hkey hlive' => ?_⟩
        · obtain ⟨id, c, hid, -⟩ := hholds
          exact ⟨id, hid, by simp [hid]⟩
        · obtain ⟨m, hm⟩ := List.getElem?_of_mem hl'
          have hview' : s.view m = some (l'.child, l.key, false) := by
            rw [view_of_get hm, Launch.view, decide_eq_false hlive', hkey]
          have heq := (howned.entry _ _).mpr ⟨m, hview'⟩
          exact Option.some.inj (heq.symm.trans hr)
      · obtain rfl := Option.some.inj hvisited
        refine (hswept l' hl' hmem' hlive').imp_right fun hkilled => hkilled.of_log rfl ?_
        exact List.prefix_append _ _
  · cases hs

/-- Source: `agent.go`, `synchronize`. Kind: L -/
theorem Supervised.cancelSender (h : Supervised s) (hs : s.cancelSender = some s') : Supervised s' := by
  unfold State.cancelSender at hs
  split at hs
  · next visited key r hmain =>
    obtain rfl := Option.some.inj hs
    obtain ⟨⟨id, hid, hkill⟩, ⟨l, hl, rfl, rfl, hrank⟩, honly⟩ := h.cancelling visited key r hmain
    obtain ⟨n, hn⟩ := List.getElem?_of_mem hl
    have hholds := (h.held n l hn).senderCmd (by omega)
    have hprocess := hholds.hasProcess (by omega)
    refine @Supervised.loop s _ h (.remove (l.key :: visited))
      ((s.heap l.child).senderCmd.toList.map fun id => (.main l.key, id))
      ?_ (hholds.meant hn (.of_eq rfl List.prefix_rfl List.prefix_rfl)
        (show Caller.means (.main l.key) n l.key from rfl)) nofun (fun _ => by rw [hmain]; exact nofun)
      nofun (fun visited' hvisited l' hl' hmem' hlive' => ?_) nofun
    · simp [State.cancel, State.check, hprocess]
    · obtain rfl := Option.some.inj hvisited
      rcases List.mem_cons.mp hmem' with heq | hmem'
      · obtain ⟨m, hm⟩ := List.getElem?_of_mem hl'
        obtain rfl := h.once n m l l' hn hm (honly l' hl' heq hlive').symm
        obtain rfl := Option.some.inj (hn.symm.trans hm)
        obtain ⟨id', c, hid', -⟩ := hholds
        refine Or.inr ⟨hrank, ⟨id, hid, List.mem_append_left _ hkill⟩, id', hid', ?_⟩
        simp only [State.cancel, hprocess, if_true]
        simp [hid']
      · refine (h.swept visited (by rw [hmain]; rfl) l' hl' hmem' hlive').imp_right
          fun hkilled => hkilled.of_log rfl ?_
        exact List.prefix_append _ _
  · cases hs

/-- Source: `agent.go`, `getTargets`. Kind: L -/
theorem addTargets_fresh (list : List Target) : ∀ s : State, ∀ n,
    n ≤ s.next → (∀ key r, s.targets.get key = some r → n ≤ r) →
      ∀ key r, (list.foldl State.addTarget s).targets.get key = some r → n ≤ r := by
  induction list with
  | nil => exact fun s n _ h => h
  | cons t list ih =>
      intro s n hn h
      refine ih (s.addTarget t) n (Nat.le_succ_of_le hn) fun key r hr => ?_
      replace hr : (s.targets.set t.key s.next).get key = some r := hr
      rw [Dict.get_set] at hr
      split at hr
      · exact Option.some.inj hr ▸ hn
      · exact h key r hr

/-- Source: `agent.go`, `synchronize`. Kind: L -/
theorem Supervised.getTargets (h : Supervised s) (howned : Owned s) {answer : Option (List Target)}
    (htimely : Timely s (.getTargets answer)) (hs : s.getTargets answer = some s') : Supervised s' := by
  obtain ⟨hanswer, hranks⟩ := htimely
  obtain ⟨hsleep, ⟨rfl, -⟩ | ⟨list, -, rfl⟩⟩ := getTargets_cases hs
  · cases hanswer
  · obtain ⟨hcmds, hlaunches, -, hlog, hpanicked, hheap, -⟩ :=
      addTargets_frame list { s with targets := .empty }
    have hfresh := addTargets_fresh list { s with targets := .empty } s.next le_rfl nofun
    set s₁ := list.foldl State.addTarget { s with targets := .empty }
    have hlater : Later s { s₁ with main := .add [] } :=
      .of_eq hcmds (hlaunches.symm ▸ List.prefix_rfl) (hlog.symm ▸ List.prefix_rfl)
    have hold : ∀ (n : ℕ) l, s.launches[n]? = some l → l.child < s.next ∧ s₁.heap l.child = s.heap l.child := by
      intro n l hl
      have hlt := (howned.key n _ _ _ (view_of_get hl)).2
      exact ⟨hlt, hheap _ hlt⟩
    refine ⟨hpanicked.trans h.sane, fun m n l l' hl hl' => ?_, fun visited _ key r hr _ l hl => ?_,
      fun n l hl => ?_, fun id c hc => ?_, fun e he => ?_, fun _ l hl hyoung => ?_, nofun, nofun, nofun⟩
    · rw [hlaunches] at hl hl'
      exact h.once m n l l' hl hl'
    · rw [hlaunches] at hl
      obtain ⟨n, hn⟩ := List.getElem?_of_mem hl
      have := hfresh key r hr
      have := (hold n l hn).1
      omega
    · rw [hlaunches] at hl
      obtain ⟨-, heq⟩ := hold n l hl
      exact (h.held n l hl).later hlater rfl (fun _ => congrArg Child.cmd heq)
        (fun _ => congrArg Child.senderCmd heq) (Or.inr rfl) (h.held n l hl).watch
        fun hge hlt => absurd hge (not_le.mpr hlt)
    · rw [hcmds] at hc
      obtain ⟨l, hl, hmade⟩ := h.made id c hc
      refine ⟨l, (congrArg (·[c.launch]?) hlaunches).trans hl, ?_⟩
      rw [← (hold _ l hl).2] at hmade
      exact hmade
    · rw [hlog] at he
      exact (h.log e he).later hlater
    · rw [hlaunches] at hl
      exact absurd hyoung (not_lt.mpr (hranks l hl))

/-- Source: `agent.go`, `synchronize`. Kind: L -/
theorem Supervised.add (h : Supervised s) (howned : Owned s) {key : Bytes} (hs : s.add key = some s') :
    Supervised s' := by
  obtain ⟨visited, r, hmain, hr, hvisited, ⟨-, rfl⟩ | ⟨hkey, rfl⟩⟩ := add_cases hs
  · have hlater : Later s { s with main := .add (key :: visited) } :=
      .of_eq rfl List.prefix_rfl List.prefix_rfl
    refine ⟨h.sane, h.once, fun visited' hvisited' key' r' hr' hnot => ?_, fun n l hl => ?_, h.made,
      fun e he => (h.log e he).later hlater, fun _ => h.young (by rw [hmain]; exact nofun), nofun, nofun, nofun⟩
    · cases hvisited'
      exact h.unused visited hmain key' r' hr' fun hmem => hnot (List.mem_cons_of_mem _ hmem)
    · exact (h.held n l hl).later hlater rfl (fun _ => rfl) (fun _ => rfl) (Or.inr rfl) (h.held n l hl).watch
        fun hge hlt => absurd hge (not_le.mpr hlt)
  · set s' : State := { s with
      children := s.children.set key r
      launches := s.launches ++ [⟨r, key, .cmd, .idle⟩]
      main := .add (key :: visited) }
    have hlater : Later s s' := .of_eq rfl (List.prefix_append _ _) List.prefix_rfl
    have hunused := h.unused visited hmain key r hr hvisited
    have hback : ∀ (n : ℕ) l, s'.launches[n]? = some l →
        s.launches[n]? = some l ∨ n = s.launches.length ∧ l = ⟨r, key, .cmd, .idle⟩ := by
      intro n l hl
      rw [List.getElem?_append] at hl
      split at hl
      · exact Or.inl hl
      · have hmem := List.mem_singleton.mp (List.mem_of_getElem? hl)
        obtain ⟨hlt, -⟩ := List.getElem?_eq_some_iff.mp hl
        rw [List.length_singleton] at hlt
        exact Or.inr ⟨by omega, hmem⟩
    have hmem : ∀ l ∈ s'.launches, l ∈ s.launches ∨ l = ⟨r, key, .cmd, .idle⟩ := fun l hl =>
      (List.mem_append.mp hl).imp_right List.mem_singleton.mp
    refine ⟨h.sane, fun m n l l' hl hl' heq => ?_, fun visited' hvisited' key' r' hr' hnot l hl => ?_,
      fun n l hl => ?_, fun id c hc => ?_, fun e he => (h.log e he).later hlater,
      fun _ l hl hyoung => ?_, nofun, nofun, nofun⟩
    · rcases hback m l hl with hl | ⟨rfl, rfl⟩ <;> rcases hback n l' hl' with hl' | ⟨rfl, rfl⟩
      · exact h.once m n l l' hl hl' heq
      · exact absurd heq (hunused l (List.mem_of_getElem? hl))
      · exact absurd heq.symm (hunused l' (List.mem_of_getElem? hl'))
      · rfl
    · cases hvisited'
      rcases hmem l hl with hl | rfl
      · exact h.unused visited hmain key' r' hr' (fun hmem => hnot (List.mem_cons_of_mem _ hmem)) l hl
      · rintro rfl
        have heq := (howned.target key _ hr).1.symm.trans (howned.target key' _ hr').1
        exact hnot (heq ▸ List.mem_cons_self)
    · rcases hback n l hl with hl | ⟨-, rfl⟩
      · exact (h.held n l hl).later hlater rfl (fun _ => rfl) (fun _ => rfl) (Or.inr rfl)
          (h.held n l hl).watch fun hge hlt => absurd hge (not_le.mpr hlt)
      · exact ⟨fun hge => absurd hge (show ¬1 ≤ 0 by decide), fun hge => absurd hge (show ¬3 ≤ 0 by decide),
          fun hne => absurd rfl hne, fun hge => absurd hge (show ¬9 ≤ 0 by decide)⟩
    · obtain ⟨l, hl, hmade⟩ := h.made id c hc
      refine ⟨l, ?_, hmade⟩
      rw [List.getElem?_append_left (List.getElem?_eq_some_iff.mp hl).1, hl]
    · rcases hmem l hl with hl | rfl
      · exact h.young (by rw [hmain]; exact nofun) l hl hyoung
      · exact Dict.mem_iff_get.mpr ⟨r, hr⟩

/-- Source: none: infrastructure. Kind: L -/
theorem Supervised.exit (h : Supervised s) {id : ℕ} (hs : s.exit id = some s') : Supervised s' := by
  have hlater := Later.exit hs
  obtain ⟨c, -, hs⟩ := Option.bind_eq_some_iff.mp hs
  obtain ⟨-, hs⟩ := Option.ite_none_right_eq_some.mp hs
  obtain rfl := Option.some.inj hs
  refine ⟨h.sane, h.once, h.unused, fun n l hl => ?_, fun id' c' hc' => ?_,
    fun e he => (h.log e he).later hlater, h.young, h.cancelling, fun visited hvisited l hl hmem hlive => ?_,
    fun hsleep l hl hlive => ?_⟩
  · exact (h.held n l hl).later hlater rfl (fun _ => rfl) (fun _ => rfl) (Or.inr rfl) (h.held n l hl).watch
      fun hge hlt => absurd hge (not_le.mpr hlt)
  · obtain ⟨c₀, hc₀, hlaunch, hprogram⟩ := @launch_of_modify s _ (some id)
      (fun c => { c with status := .exited }) rfl (fun c => ⟨rfl, rfl⟩) id' c' hc'
    rw [← hlaunch, ← hprogram]
    exact h.made id' c₀ hc₀
  · exact (h.swept visited hvisited l hl hmem hlive).imp_right
      fun hkilled => hkilled.of_log rfl List.prefix_rfl
  · exact (h.asleep hsleep l hl hlive).imp_right fun hkilled => hkilled.of_log rfl List.prefix_rfl

/-- Source: `agent.go`. Kind: L -/
theorem Supervised.act (h : Supervised s) (howned : Owned s) {a : Action} (htimely : Timely s a)
    (hs : act s a = some s') : Supervised s' := by
  cases a with
  | getTargets answer => exact h.getTargets howned htimely hs
  | add key => exact h.add howned hs
  | endAdd => exact h.endAdd hs
  | remove key => exact h.remove howned hs
  | cancelSender => exact h.cancelSender hs
  | endRemove => exact h.endRemove howned hs
  | launch n forked =>
      obtain rfl : forked = true := htimely
      exact h.launch hs
  | watch n => exact h.watch hs
  | exit id => exact h.exit hs

/-- Source: `agent.go`. Kind: L -/
theorem supervised_run : ∀ es, launcher.Always Timely es → Supervised (launcher.run es) := by
  refine launcher.history_induction ?_ fun es a _ htimely ih => ?_
  · exact ⟨rfl, nofun, nofun, nofun, nofun, nofun, nofun, nofun, nofun, nofun⟩
  · rw [EventMachine.run_concat]
    exact step_cases _ a ih fun s' hs _ => ih.act (owned_run es) htimely hs

/-! ## Results -/

/-- **The launcher goes on, and kills what it means to.** In time, no interleaving follows a nil pointer;
what the main loop sends a kill to belongs to the key it has come to, and a goroutine only sends it
to a process of its own `launch`.
Source: `agent.go`, `main`, `synchronize`, `launch`
Kind: P -/
theorem supervised (es : List Action) (h : launcher.Always Timely es) :
    (launcher.run es).panicked = false ∧ ∀ caller id, (caller, id) ∈ (launcher.run es).log →
      ∃ c l, (launcher.run es).cmds[id]? = some c ∧ (launcher.run es).launches[c.launch]? = some l ∧
        caller.means c.launch l.key :=
  ⟨(supervised_run es h).sane, fun caller id he => (supervised_run es h).log (caller, id) he⟩

/-- **No process is left behind.** When the main loop sleeps, a process that runs is of an entry of
`children` whose key is wanted, or it has been sent a kill.
Source: `agent.go`, `main`, `synchronize`, `launch`
Kind: P -/
theorem reconciled (es : List Action) (h : launcher.Always Timely es) (hsleep : (launcher.run es).main = .sleep)
    {id : ℕ} {c : Cmd} (hc : (launcher.run es).cmds[id]? = some c) (hrunning : c.status = .running) :
    (∃ key r, (launcher.run es).children.get key = some r ∧ key ∈ (launcher.run es).targets ∧
        (((launcher.run es).heap r).cmd = some id ∨ ((launcher.run es).heap r).senderCmd = some id)) ∨
      ∃ caller, (caller, id) ∈ (launcher.run es).log := by
  have hs := supervised_run es h
  obtain ⟨l, hl, hmade⟩ := hs.made id c hc
  have hcase : l.pc ≠ .done → _ := hs.asleep hsleep l (List.mem_of_getElem? hl)
  have hentry : l.pc ≠ .done → (launcher.run es).children.get l.key = some l.child := fun hlive =>
    ((owned_run es).entry _ _).mpr ⟨c.launch, by rw [view_of_get hl, Launch.view, decide_eq_false hlive]⟩
  rcases hmade with ⟨-, hid, ip, hip⟩ | ⟨-, hid⟩
  · -- a `ping` whose `launch` is past its `Wait` has ended
    have hlive : l.pc ≠ .done := by
      intro hdone
      obtain ⟨l', hl', hof⟩ := (pings_run es).ping id c ip hc hip
      obtain rfl := Option.some.inj (hl.symm.trans hl')
      have := hof.ended (by rw [hdone]; decide)
      rw [hrunning] at this
      cases this
    rcases hcase hlive with hwanted | ⟨-, ⟨id', hid', hkill⟩, -⟩
    · exact Or.inl ⟨l.key, l.child, hentry hlive, hwanted, Or.inl hid⟩
    · obtain rfl := Option.some.inj (hid.symm.trans hid')
      exact Or.inr ⟨_, hkill⟩
  · -- a `launch` at its end has sent a kill to its sender
    by_cases hended : 9 ≤ l.pc.rank
    · obtain ⟨id', hid', hkill⟩ := (hs.held _ l hl).ended hended
      obtain rfl := Option.some.inj (hid.symm.trans hid')
      exact Or.inr ⟨_, hkill⟩
    · have hlive : l.pc ≠ .done := by
        intro hdone
        rw [hdone] at hended
        exact hended (by decide)
      rcases hcase hlive with hwanted | ⟨-, -, id', hid', hkill⟩
      · exact Or.inl ⟨l.key, l.child, hentry hlive, hwanted, Or.inr hid⟩
      · obtain rfl := Option.some.inj (hid.symm.trans hid')
        exact Or.inr ⟨_, hkill⟩

/-- A child is launched, then it is not wanted any more. Source: `agent.go`, `main`. Kind: D -/
def droppedRun : List Action :=
  [.getTargets (some [exampleTarget]), .add exampleTarget.key, .endAdd, .remove exampleTarget.key,
      .endRemove] ++ List.replicate 7 (.launch 0 true) ++
    [.getTargets (some []), .endAdd, .remove exampleTarget.key, .cancelSender, .endRemove]

theorem timely_droppedRun : launcher.Always Timely droppedRun := by decide +kernel

theorem supervised_droppedRun : (launcher.run droppedRun).panicked = false :=
  (supervised droppedRun timely_droppedRun).1

theorem reconciled_droppedRun : ∃ caller, (caller, 0) ∈ (launcher.run droppedRun).log := by
  refine (@reconciled droppedRun timely_droppedRun (by decide +kernel) 0
    ⟨0, .ping (ascii "10.0.0.2"), .running, true⟩ (by decide +kernel) rfl).resolve_left ?_
  rintro ⟨key, r, -, hwanted, -⟩
  have hnone : (launcher.run droppedRun).targets.keys = [] := by decide +kernel
  exact absurd (hnone ▸ hwanted : key ∈ []) List.not_mem_nil

/-! ## What is wanted -/

/-- Source: `agent.go`, `getTargets`. Kind: L -/
theorem mem_addTargets (list : List Target) : ∀ s : State, ∀ key,
    (key ∈ s.targets ∨ ∃ t ∈ list, t.key = key) → key ∈ (list.foldl State.addTarget s).targets := by
  induction list with
  | nil => exact fun s key h => h.resolve_right fun ⟨t, ht, _⟩ => List.not_mem_nil ht
  | cons t list ih =>
      intro s key h
      refine ih (s.addTarget t) key ?_
      have hset : ∀ key, key ∈ s.targets ∨ t.key = key → key ∈ (s.addTarget t).targets := by
        intro key h
        refine Dict.mem_iff_get.mpr ?_
        change ∃ v, (s.targets.set t.key s.next).get key = some v
        rw [Dict.get_set]
        split
        · exact ⟨_, rfl⟩
        · exact Dict.mem_iff_get.mp (h.resolve_right fun heq => absurd heq.symm ‹_›)
      rcases h with hmem | ⟨t', ht', rfl⟩
      · exact Or.inl (hset key (Or.inl hmem))
      · rcases List.mem_cons.mp ht' with rfl | ht'
        · exact Or.inl (hset _ (Or.inr rfl))
        · exact Or.inr ⟨t', ht', rfl⟩

/-- What the loop over `targets` has still to come to. Source: none: specification. Kind: D -/
def Adding (s : State) (list : List Target) (launched : Bytes → Prop) : Prop :=
  ∃ visited, s.main = .add visited ∧ (∀ t ∈ list, t.key ∈ s.targets) ∧ ∀ key ∈ visited, launched key

/-- A step of the loop over `targets`. Source: `agent.go`, `synchronize`. Kind: L -/
theorem Adding.act {list : List Target} {launched launched' : Bytes → Prop} (h : Adding s list launched)
    (hold : ∀ key, launched key → launched' key) (hnew : ∀ key ∈ s'.children, launched' key) {a : Action}
    (hs : act s a = some s') : Adding s' list launched' ∨ ∀ t ∈ list, launched' t.key := by
  obtain ⟨visited, hmain, htargets, hvisited⟩ := h
  have hkeep : s'.main = s.main → s'.targets = s.targets → Adding s' list launched' := fun hm ht =>
    ⟨visited, by rw [hm, hmain], fun t h => by rw [ht]; exact htargets t h,
      fun key hkey => hold key (hvisited key hkey)⟩
  cases a with
  | getTargets answer =>
      obtain ⟨hsleep, -⟩ := getTargets_cases hs
      cases hmain.symm.trans hsleep
  | add key =>
      obtain ⟨visited', r, hmain', hr, -, hcase⟩ := add_cases hs
      cases hmain.symm.trans hmain'
      refine Or.inl ⟨key :: visited, ?_, ?_, fun key' hkey' => ?_⟩
      · rcases hcase with ⟨-, rfl⟩ | ⟨-, rfl⟩ <;> rfl
      · rcases hcase with ⟨-, rfl⟩ | ⟨-, rfl⟩ <;> exact htargets
      · rcases List.mem_cons.mp hkey' with rfl | hkey'
        · refine hnew _ ?_
          rcases hcase with ⟨hmem, rfl⟩ | ⟨-, rfl⟩
          · exact hmem
          · refine Dict.mem_iff_get.mpr ⟨r, ?_⟩
            change (s.children.set _ r).get _ = some r
            rw [Dict.get_set, if_pos rfl]
        · exact hold key' (hvisited key' hkey')
  | endAdd =>
      simp only [Launcher.act, State.endAdd, hmain] at hs
      obtain ⟨hall, -⟩ := Option.ite_none_right_eq_some.mp hs
      refine Or.inr fun t ht => hold _ (hvisited _ ?_)
      have hmem := List.all_eq_true.mp hall t.key (htargets t ht)
      rwa [List.contains_iff_mem] at hmem
  | remove key => simp [Launcher.act, State.remove, hmain] at hs
  | cancelSender => simp [Launcher.act, State.cancelSender, hmain] at hs
  | endRemove => simp [Launcher.act, State.endRemove, hmain] at hs
  | launch n forked =>
      obtain ⟨hkeeps, hm, -⟩ := launch_frame hs
      exact Or.inl (hkeep hm hkeeps.targets)
  | watch n =>
      obtain ⟨hkeeps, hm, -⟩ := watch_frame hs
      exact Or.inl (hkeep hm hkeeps.targets)
  | exit id =>
      obtain ⟨c, -, hs⟩ := Option.bind_eq_some_iff.mp hs
      obtain ⟨-, hs⟩ := Option.ite_none_right_eq_some.mp hs
      obtain rfl := Option.some.inj hs
      exact Or.inl (hkeep rfl rfl)

theorem step_getTargets (list : List Target) (hsleep : s.main = .sleep) (hsane : s.panicked = false) :
    step s (.getTargets (some list)) =
      { list.foldl State.addTarget { s with targets := .empty } with main := .add [] } := by
  simp [step, act, State.getTargets, hsleep, hsane]

/-- **What is wanted is launched.** Whatever the goroutines and the processes do meanwhile: before the main
loop sleeps again, each key of the list it has retrieved has been in `children`.
Source: `agent.go`, `main`, `synchronize`
Kind: P -/
theorem wanted_launched (es mid : List Action) (list : List Target)
    (hsleep : (launcher.run es).main = .sleep) (hsane : (launcher.run es).panicked = false)
    (hagain : (launcher.run (es ++ .getTargets (some list) :: mid)).main = .sleep) :
    ∀ t ∈ list, ∃ pre, pre <+: mid ∧
      t.key ∈ (launcher.run (es ++ .getTargets (some list) :: pre)).children := by
  set state := fun mid => launcher.run (es ++ .getTargets (some list) :: mid)
  have hmono : ∀ (mid : List Action) (a : Action) key,
      (∃ pre, pre <+: mid ∧ key ∈ (state pre).children) →
        ∃ pre, pre <+: mid ++ [a] ∧ key ∈ (state pre).children :=
    fun mid a key ⟨pre, hpre, hkey⟩ => ⟨pre, hpre.trans (List.prefix_append _ _), hkey⟩
  -- the loop over `targets` is under way, or it has come to all of them
  have hrun : ∀ mid, Adding (state mid) list (fun key => ∃ pre, pre <+: mid ∧ key ∈ (state pre).children) ∨
      ∀ t ∈ list, ∃ pre, pre <+: mid ∧ t.key ∈ (state pre).children := by
    intro mid
    induction mid using List.reverseRecOn with
    | nil =>
        have hstart : state [] = { list.foldl State.addTarget { launcher.run es with targets := .empty } with
            main := .add [] } := by
          simp only [state, EventMachine.run_concat]
          exact step_getTargets list hsleep hsane
        refine Or.inl ⟨[], by rw [hstart], fun t ht => ?_, nofun⟩
        rw [hstart]
        exact mem_addTargets list _ _ (Or.inr ⟨t, ht, rfl⟩)
    | append_singleton mid a ih =>
        have hconcat : state (mid ++ [a]) = step (state mid) a := by
          simp only [state]
          rw [← List.cons_append, ← List.append_assoc, EventMachine.run_concat]
          rfl
        rcases ih with hadding | hall
        · rw [hconcat]
          refine step_cases (state mid) a (P := fun s => s = state (mid ++ [a]) → _ ∨ _) (fun heq => ?_)
            (fun s' hs _ heq => ?_) hconcat.symm
          · obtain ⟨visited, hmain, htargets, hvisited⟩ := hadding
            exact Or.inl ⟨visited, by rw [← hconcat, ← heq, hmain], by rw [← hconcat, ← heq]; exact htargets,
              fun key hkey => hmono mid a key (hvisited key hkey)⟩
          · rw [← hconcat, ← heq]
            refine hadding.act (fun key => hmono mid a key) (fun key hkey => ?_) hs
            exact ⟨mid ++ [a], List.prefix_rfl, heq ▸ hkey⟩
        · exact Or.inr fun t ht => hmono mid a _ (hall t ht)
  rcases hrun mid with ⟨visited, hmain, -⟩ | hall
  · cases hmain.symm.trans hagain
  · exact hall

theorem wanted_launched_droppedRun : ∃ pre, pre <+: droppedRun.tail ∧
    exampleTarget.key ∈ (launcher.run (.getTargets (some [exampleTarget]) :: pre)).children :=
  wanted_launched [] droppedRun.tail [exampleTarget] rfl rfl (by decide +kernel) exampleTarget
    (List.mem_singleton.mpr rfl)

end UDPing.Launcher
