import UDPing.Agent.Synchronize

/-!
# The loop over the targets

* `Target.command`: what a target starts. `differs_iff`: what the comparison with a child finds.
* `Reconciled`: what becomes of the child under one signature.
* `State.Sound`: the invariant, with what an object of the target list that has a `pid` is.
* `visit_step`: one pass of the loop. `visits`: the loop reconciles every signature of its entries.
-/

namespace UDPing.Agent

open Lib
open UDPing.Controller (SqlValue Peer)

/-! ## Signatures and commands -/

namespace Target

/-- What `synchronize` starts for a target. `none`: the mechanism is not recognized.
Source: `udping_agent`, `synchronize`
Kind: D -/
def command (t : Target) : Option Command :=
  if t.meshMechanism = ascii "ping" then some (pingCommand t)
  else if t.meshMechanism = ascii "udping" then
    some (if (ascii "udping_server").isPrefixOf t.signature then udpingServerCommand t
      else udpingClientCommand t)
  else none

theorem command_isSome (t : Target) :
    t.command.isSome ↔ t.meshMechanism = ascii "ping" ∨ t.meshMechanism = ascii "udping" := by
  unfold command
  by_cases hping : t.meshMechanism = ascii "ping"
  · simp [hping]
  · by_cases hudping : t.meshMechanism = ascii "udping"
    · simp [hudping, show ascii "udping" ≠ ascii "ping" by decide]
    · simp [hping, hudping]

/-- The signature of a row of a recognized mechanism is none of a server.
Source: `udping_agent`, `synchronize`
Kind: L -/
theorem not_server_prefix {p : Peer}
    (h : p.meshMechanism = ascii "ping" ∨ p.meshMechanism = ascii "udping") :
    ¬ascii "udping_server" <+: (peer p).signature := by
  rintro ⟨rest, hrest⟩
  simp only [signature, List.append_assoc] at hrest
  rcases h with hping | hudping
  · rw [hping] at hrest
    have h0 : some (byteOf 'u') = some (byteOf 'p') := congrArg (fun l : Bytes => l[0]?) hrest
    exact absurd h0 (by decide)
  · rw [hudping] at hrest
    have h6 : some (byteOf '_') = some (byteOf ':') := congrArg (fun l : Bytes => l[6]?) hrest
    exact absurd h6 (by decide)

theorem server_prefix (meshName localIp : Bytes) :
    ascii "udping_server" <+: (server meshName localIp).signature :=
  ⟨ascii ":" ++ meshName, rfl⟩

end Target

theorem Key.mem_all (key : Key) : key ∈ Key.all := by cases key <;> decide

/-- The comparison finds no difference where the values of all keys of both agree.
Source: `udping_agent`, `synchronize`
Kind: L -/
theorem not_differs_iff {params child : Params} : ¬params.differs child ↔
    ∀ key v v', params.get key = some v → child.get key = some v' → v' = v := by
  unfold Params.differs
  rw [List.any_eq_true]
  constructor
  · intro h key v v' hv hv'
    by_contra hne
    exact h ⟨key, key.mem_all, by simp [hv, hv', hne]⟩
  · rintro h ⟨key, -, hkey⟩
    split at hkey
    · rename_i v v' hv hv'
      exact of_decide_eq_true hkey (h key v v' hv hv')
    · cases hkey

/-- A dictionary and a child of one signature were made from the same thing if their values agree at
all keys of both.
Source: `udping_agent`, `synchronize`
Kind: L -/
theorem target_eq_of_agree {params child : Params}
    (hsig : params.target.signature = child.target.signature) (hchild : child.target.command.isSome)
    (h : ∀ key v v', params.get key = some v → child.get key = some v' → v' = v) :
    child.target = params.target := by
  obtain ⟨t, pid⟩ := params
  obtain ⟨t', pid'⟩ := child
  have hmechanism : t'.meshMechanism = t.meshMechanism :=
    SqlValue.text.inj (h .mesh_mechanism _ _ rfl rfl)
  have hname : t'.meshName = t.meshName := SqlValue.text.inj (h .mesh_name _ _ rfl rfl)
  have hip : t'.localIp = t.localIp := SqlValue.text.inj (h .local_ip _ _ rfl rfl)
  have hrec := (Target.command_isSome t').mp hchild
  cases t with
  | peer p =>
      cases t' with
      | peer p' =>
          refine congrArg Target.peer (Peer.ext hip ?_ hname hmechanism ?_ ?_ ?_ ?_)
          · exact SqlValue.text.inj (h .local_hostname _ _ rfl rfl)
          · exact h .mesh_delay_ms _ _ rfl rfl
          · exact h .mesh_reporting_interval_s _ _ rfl rfl
          · exact SqlValue.text.inj (h .peer_ip _ _ rfl rfl)
          · exact SqlValue.text.inj (h .peer_hostname _ _ rfl rfl)
      | server meshName localIp =>
          have hserver := Target.server_prefix meshName localIp
          rw [show (Target.server meshName localIp).signature = _ from hsig.symm] at hserver
          rw [hmechanism] at hrec
          exact absurd hserver (Target.not_server_prefix hrec)
  | server meshName localIp =>
      cases t' with
      | peer p' =>
          have hserver := Target.server_prefix meshName localIp
          rw [show (Target.server meshName localIp).signature = _ from hsig] at hserver
          exact absurd hserver (Target.not_server_prefix hrec)
      | server meshName' localIp' => exact congrArg₂ Target.server hname hip

/-- **The comparison with a child finds a difference exactly if the two were made from different
things**, provided their `pid`s do not differ.
Source: `udping_agent`, `synchronize`
Kind: P -/
theorem differs_iff {params child : Params} (hsig : params.target.signature = child.target.signature)
    (hchild : child.target.command.isSome) (hpid : params.pid = none ∨ params.pid = child.pid) :
    params.differs child ↔ child.target ≠ params.target := by
  rw [← not_iff_not, not_differs_iff, not_not]
  refine ⟨target_eq_of_agree hsig hchild, ?_⟩
  obtain ⟨t, pid⟩ := params
  obtain ⟨t', pid'⟩ := child
  rintro rfl key v v' hv hv'
  cases key with
  | pid =>
      rcases hpid with hnone | hsame
      · rw [show pid = none from hnone] at hv
        cases hv
      · rw [show pid = pid' from hsame] at hv
        exact Option.some.inj (hv'.symm.trans hv)
  | _ => exact Option.some.inj (hv'.symm.trans hv)

/-! ## What the steps do to each signature -/

/-- Source: `udping_agent`, `launchPing`, `killChild`. Kind: D -/
def Action.signature : Action → Bytes
  | .launch signature _ => signature
  | .kill signature _ => signature

/-- What `killChild` does to a child. Source: `udping_agent`, `killChild`. Kind: D -/
def kills (signature : Bytes) (child : Option Params) : List Action :=
  ((child.bind Params.pid).map (.kill signature)).toList

/-- What becomes of the child under one signature: `Reconciled fork signature before goal after actions`.
Source: `udping_agent`, `synchronize`
Kind: D -/
inductive Reconciled (fork : ℕ → ℕ) (signature : Bytes) :
    Option Params → Option Target → Option Params → List Action → Prop where
  /-- The child was made from the same thing as the target. -/
  | kept (child : Params) : Reconciled fork signature (some child) (some child.target) (some child) []
  /-- A child made from something else is killed, and one for the target is launched. -/
  | launched (before : Option Params) (t : Target) (command : Command) (i : ℕ)
      (hnew : ∀ child, before = some child → child.target ≠ t) (hcommand : t.command = some command) :
      Reconciled fork signature before (some t) (some ⟨t, some ⟨fork i, command⟩⟩)
        (kills signature before ++ [.launch signature ⟨fork i, command⟩])
  /-- The mechanism of the target is not recognized. -/
  | refused (before : Option Params) (t : Target)
      (hnew : ∀ child, before = some child → child.target ≠ t) (hcommand : t.command = none) :
      Reconciled fork signature before (some t) none (kills signature before)
  /-- There is no target. -/
  | dropped (before : Option Params) :
      Reconciled fork signature before none none (kills signature before)

namespace State

/-- The child under a signature. Source: `udping_agent`, `children`. Kind: D -/
def child (a : State) (signature : Bytes) : Option Params := (a.children.get signature).map a.heap

variable {fork : ℕ → ℕ} {a a' : State} {s signature signature' : Bytes} {r r' : Ref}

theorem child_killChild : (a.killChild signature).child signature' =
    if signature' = signature then none else a.child signature' := by
  unfold child killChild
  rw [Dict.get_erase]
  split <;> rfl

theorem log_killChild : (a.killChild signature).log = a.log ++ kills signature (a.child signature) := by
  unfold kills child killChild
  cases a.children.get signature <;> rfl

theorem killChild_of_notMem (h : signature ∉ a.children) : a.killChild signature = a := by
  have hget := Dict.get_eq_none.mpr h
  have herase : a.children.erase signature = a.children := by
    obtain ⟨heap, next, ⟨items, nodup⟩, targetList, forks, log⟩ := a
    simp only [Dict.erase, Dict.mk.injEq, List.filter_eq_self, decide_eq_true_eq]
    rintro item hitem rfl
    exact h (List.mem_map_of_mem hitem)
  unfold killChild
  rw [herase, hget]
  simp

/-- What `visit` starts. Source: `udping_agent`, `synchronize`. Kind: D -/
def start (fork : ℕ → ℕ) (a : State) (signature : Bytes) (params : Ref) : State :=
  match (a.heap params).target.command with
  | some command => a.launch fork (fun _ => command) signature params
  | none => a

/-- The three launches. Source: `udping_agent`, `synchronize`. Kind: L -/
theorem start_eq (fork : ℕ → ℕ) (hsig : (a.heap r).target.signature = signature) :
    start fork a signature r =
      if (a.heap r).target.meshMechanism = ascii "ping" then a.launchPing fork signature r
      else if (a.heap r).target.meshMechanism = ascii "udping" then
        if (ascii "udping_server").isPrefixOf signature then a.launchUDPingServer fork signature r
        else a.launchUDPingClient fork signature r
      else a := by
  unfold start Target.command
  rw [hsig]
  by_cases hping : (a.heap r).target.meshMechanism = ascii "ping"
  · simp only [hping, if_true]
    rfl
  · by_cases hudping : (a.heap r).target.meshMechanism = ascii "udping"
    · simp only [hudping, show ascii "udping" ≠ ascii "ping" by decide, if_false, if_true]
      split <;> rfl
    · simp only [hping, hudping, if_false]

/-- A pass of the loop leaves a child that does not differ, and otherwise kills what is there and
starts what is wanted.
Source: `udping_agent`, `synchronize`
Kind: L -/
theorem visit_cases (fork : ℕ → ℕ) (hsig : (a.heap r).target.signature = signature) :
    (∃ c, a.children.get signature = some c ∧ ¬(a.heap r).differs (a.heap c) ∧
        visit fork a (signature, r) = a) ∨
      (∀ c, a.children.get signature = some c → (a.heap r).differs (a.heap c)) ∧
        visit fork a (signature, r) = start fork (a.killChild signature) signature r := by
  have hkilled : signature ∉ (a.killChild signature).children := by
    rw [← Dict.get_eq_none, killChild, Dict.get_erase, if_pos rfl]
  have hstart := start_eq (a := a.killChild signature) fork hsig
  cases hget : a.children.get signature with
  | none =>
      have hnot := Dict.get_eq_none.mp hget
      rw [killChild_of_notMem hnot] at hstart ⊢
      refine Or.inr ⟨fun c hc => (by cases hc), ?_⟩
      simp only [visit, hget, Bool.false_eq_true, if_false, hnot, hstart]
  | some c =>
      by_cases hdiffers : (a.heap r).differs (a.heap c)
      · refine Or.inr ⟨fun c' hc' => (by cases hc'; exact hdiffers), ?_⟩
        simp only [visit, hget, hdiffers, if_true, hkilled, if_false, hstart]
      · have hmem : signature ∈ a.children := Dict.mem_iff_get.mpr ⟨c, hget⟩
        refine Or.inl ⟨c, rfl, hdiffers, ?_⟩
        simp only [visit, hget, hdiffers, Bool.false_eq_true, if_false, hmem, if_true]

/-! ## The invariant -/

/-- What the objects of the target list were made from. Source: `udping_agent`, `update`. Kind: D -/
def rows (a : State) : List Target := a.targetList.map fun r => (a.heap r).target

/-- The last object of the target list with a signature. Source: `udping_agent`, `synchronize`. Kind: D -/
def last (a : State) (signature : Bytes) : Option Ref :=
  a.targetList.reverse.find? fun r => (a.heap r).target.signature = signature

/-- A child is kept under the signature of its target and runs the target's command. An object of the
target list that has a `pid` is the last one of its signature, and the only one that can be a child.
Source: `udping_agent`, `children`, `targetList`
Kind: D -/
structure Sound (a : State) : Prop where
  signature : ∀ s r, a.children.get s = some r → (a.heap r).target.signature = s
  running : ∀ s r, a.children.get s = some r → ∃ i command,
    (a.heap r).target.command = some command ∧ (a.heap r).pid = some ⟨i, command⟩
  allocated : ∀ s r, a.children.get s = some r → r < a.next
  rows : ∀ r ∈ a.targetList, r < a.next ∧ ∃ p, (a.heap r).target = .peer p
  retained : ∀ r ∈ a.targetList, (a.heap r).pid ≠ none → (a.heap r).target.command.isSome ∧
    a.last (a.heap r).target.signature = some r ∧
      ∀ c, a.children.get (a.heap r).target.signature = some c → c = r

/-- An entry of `targetChildren`. Source: `udping_agent`, `synchronize`. Kind: D -/
structure Fits (a : State) (s : Bytes) (r : Ref) : Prop where
  signature : (a.heap r).target.signature = s
  allocated : r < a.next
  origin : (r ∈ a.targetList ∧ a.last s = some r) ∨
    (r ∉ a.targetList ∧ (a.heap r).pid = none ∧ ∃ meshName localIp,
      (a.heap r).target = .server meshName localIp)

/-- A child and a target do not differ in their `pid`. Source: `udping_agent`, `synchronize`. Kind: L -/
theorem Fits.pid (h : a.Sound) (hfits : a.Fits signature r) {c : Ref}
    (hc : a.children.get signature = some c) :
    (a.heap r).pid = none ∨ (a.heap r).pid = (a.heap c).pid := by
  rcases hfits.origin with ⟨hmem, -⟩ | ⟨-, hnone, -⟩
  · rcases eq_or_ne (a.heap r).pid none with hnone | hsome
    · exact Or.inl hnone
    · have hcr := (h.retained r hmem hsome).2.2 c (hfits.signature.symm ▸ hc)
      exact Or.inr (hcr ▸ rfl)
  · exact Or.inl hnone

/-- Fewer children. Source: `udping_agent`, `killChild`, `checkForOrphans`. Kind: L -/
theorem Sound.of_fewer (h : a.Sound) (hheap : a'.heap = a.heap) (hnext : a'.next = a.next)
    (hlist : a'.targetList = a.targetList)
    (hget : ∀ s r, a'.children.get s = some r → a.children.get s = some r) : a'.Sound := by
  obtain ⟨heap, next, children, targetList, forks, log⟩ := a'
  obtain rfl : heap = a.heap := hheap
  obtain rfl : next = a.next := hnext
  obtain rfl : targetList = a.targetList := hlist
  exact {
    signature := fun s r hr => h.signature s r (hget s r hr)
    running := fun s r hr => h.running s r (hget s r hr)
    allocated := fun s r hr => h.allocated s r (hget s r hr)
    rows := h.rows
    retained := fun r hr hpid =>
      have ⟨hcommand, hlast, honly⟩ := h.retained r hr hpid
      ⟨hcommand, hlast, fun c hc => honly c (hget _ c hc)⟩ }

theorem get_of_get_erase {children : Dict Bytes Ref} (h : (children.erase s).get signature = some r) :
    children.get signature = some r := by
  rw [Dict.get_erase] at h
  split at h
  · cases h
  · exact h

theorem Sound.killChild (h : a.Sound) (s : Bytes) : (a.killChild s).Sound :=
  h.of_fewer rfl rfl rfl fun _ _ => get_of_get_erase

/-- The content of the objects after a launch. Source: `udping_agent`, `launchPing`. Kind: L -/
theorem target_launch (fork : ℕ → ℕ) (command : Target → Command) (a : State) (signature : Bytes)
    (r r' : Ref) : ((a.launch fork command signature r).heap r').target = (a.heap r').target := by
  simp only [launch, Function.update_apply]
  split
  · next h => rw [h]
  · rfl

theorem heap_launch_of_ne (fork : ℕ → ℕ) (command : Target → Command) (a : State) (signature : Bytes)
    (h : r' ≠ r) : (a.launch fork command signature r).heap r' = a.heap r' :=
  Function.update_of_ne h _ _

theorem last_launch (fork : ℕ → ℕ) (command : Target → Command) (a : State) (signature : Bytes)
    (r : Ref) : (a.launch fork command signature r).last = a.last := by
  funext s
  simp only [last, target_launch]
  rfl

theorem Sound.launch (h : a.Sound) (hfits : a.Fits signature r) {command : Command}
    (hcommand : (a.heap r).target.command = some command) :
    (a.launch fork (fun _ => command) signature r).Sound := by
  have hget : ∀ s, (a.launch fork (fun _ => command) signature r).children.get s =
      if s = signature then some r else a.children.get s := fun s => Dict.get_set
  have hother : ∀ s c, s ≠ signature → a.children.get s = some c → c ≠ r := by
    rintro s c hne hc rfl
    exact hne ((h.signature s c hc).symm.trans hfits.signature)
  constructor
  case signature =>
    intro s c hc
    rw [target_launch]
    rw [hget] at hc
    split at hc
    · cases hc
      exact hfits.signature.trans (Eq.symm ‹_›)
    · exact h.signature s c hc
  case running =>
    intro s c hc
    rw [hget] at hc
    split at hc
    · cases hc
      refine ⟨fork a.forks, command, ?_, ?_⟩
      · rw [target_launch]; exact hcommand
      · simp [State.launch]
    · rw [heap_launch_of_ne fork _ a signature (hother s c ‹_› hc)]
      exact h.running s c hc
  case allocated =>
    intro s c hc
    rw [hget] at hc
    split at hc
    · cases hc
      exact hfits.allocated
    · exact h.allocated s c hc
  case rows =>
    intro c hc
    rw [target_launch]
    exact h.rows c hc
  case retained =>
    intro c hc hpid
    rw [target_launch, last_launch, hget]
    by_cases hcr : c = r
    · subst hcr
      rw [hfits.signature, if_pos rfl, hcommand]
      rcases hfits.origin with ⟨-, hlast⟩ | ⟨hnot, -⟩
      · exact ⟨rfl, hlast, fun c' hc' => (Option.some.inj hc').symm⟩
      · exact absurd hc hnot
    · rw [heap_launch_of_ne fork _ a signature hcr] at hpid
      obtain ⟨hrec, hlast, honly⟩ := h.retained c hc hpid
      -- no other object of this signature has a `pid`
      have hne : (a.heap c).target.signature ≠ signature := by
        intro hsame
        rcases hfits.origin with ⟨-, hlast'⟩ | ⟨-, -, meshName, localIp, hserver⟩
        · rw [hsame, hlast'] at hlast
          exact hcr (Option.some.inj hlast).symm
        · obtain ⟨-, p, hp⟩ := h.rows c hc
          have hprefix := Target.server_prefix meshName localIp
          rw [← hserver, hfits.signature, ← hsame, hp] at hprefix
          rw [hp] at hrec
          exact Target.not_server_prefix ((Target.command_isSome _).mp hrec) hprefix
      rw [if_neg hne]
      exact ⟨hrec, hlast, honly⟩

/-! ## One pass -/

/-- A pass for `s`, whose target is `r`, changes the child under `s`, the `pid` of `r`, and nothing
else but the log.
Source: `udping_agent`, `synchronize`
Kind: D -/
structure Frame (a a' : State) (s : Bytes) (r : Ref) : Prop where
  next : a'.next = a.next
  targetList : a'.targetList = a.targetList
  target : ∀ r', (a'.heap r').target = (a.heap r').target
  heap : ∀ r', r' ≠ r → a'.heap r' = a.heap r'
  child : ∀ s', s' ≠ s → a'.child s' = a.child s'

theorem frame_killChild (a : State) (s : Bytes) (r : Ref) : Frame a (a.killChild s) s r where
  next := rfl
  targetList := rfl
  target _ := rfl
  heap _ _ := rfl
  child s' hne := by rw [child_killChild, if_neg hne]

theorem Frame.launch {b : State} {s : Bytes} (h : a.Sound) (hfits : a.Fits s r) (hframe : Frame b a s r)
    (command : Command) : Frame b (a.launch fork (fun _ => command) s r) s r where
  next := hframe.next
  targetList := hframe.targetList
  target r' := (target_launch fork _ a s r r').trans (hframe.target r')
  heap r' hne := (heap_launch_of_ne fork _ a s hne).trans (hframe.heap r' hne)
  child s' hne := by
    rw [← hframe.child s' hne, State.child, State.child, State.launch, Dict.get_set, if_neg hne]
    cases hc : a.children.get s' with
    | none => rfl
    | some c =>
        have hcr : c ≠ r := by
          rintro rfl
          exact hne ((h.signature s' c hc).symm.trans hfits.signature)
        exact congrArg some (Function.update_of_ne hcr _ _)

theorem kills_signature {s : Bytes} {child : Option Params} :
    ∀ action ∈ kills s child, action.signature = s := by
  intro action haction
  simp only [kills, Option.mem_toList, Option.map_eq_some_iff] at haction
  obtain ⟨_, _, rfl⟩ := haction
  rfl

/-- **One pass reconciles its signature**: it keeps the invariant, changes nothing under other
signatures, and makes of the child under its own what the target asks for.
Source: `udping_agent`, `synchronize`
Kind: P -/
theorem visit_step (fork : ℕ → ℕ) (h : a.Sound) {s : Bytes} (hfits : a.Fits s r) :
    (a.visit fork (s, r)).Sound ∧ Frame a (a.visit fork (s, r)) s r ∧
      ∃ actions, (a.visit fork (s, r)).log = a.log ++ actions ∧
        (∀ action ∈ actions, action.signature = s) ∧
        Reconciled fork s (a.child s) (some (a.heap r).target) ((a.visit fork (s, r)).child s)
          actions := by
  have hdiffers : ∀ c, a.children.get s = some c →
      ((a.heap r).differs (a.heap c) ↔ (a.heap c).target ≠ (a.heap r).target) := by
    intro c hc
    obtain ⟨i, command, hcommand, -⟩ := h.running s c hc
    have hsig : (a.heap r).target.signature = (a.heap c).target.signature :=
      hfits.signature.trans (h.signature s c hc).symm
    exact differs_iff hsig (hcommand ▸ rfl) (hfits.pid h hc)
  rcases visit_cases fork hfits.signature with ⟨c, hc, hsame, hvisit⟩ | ⟨hnew, hvisit⟩
  · have htarget : (a.heap c).target = (a.heap r).target :=
      not_not.mp fun hne => hsame ((hdiffers c hc).mpr hne)
    rw [hvisit]
    refine ⟨h, ⟨rfl, rfl, fun _ => rfl, fun _ _ => rfl, fun _ _ => rfl⟩, [], by simp, by simp, ?_⟩
    rw [State.child, hc, ← htarget]
    exact Reconciled.kept (a.heap c)
  · have hnew' : ∀ child, a.child s = some child → child.target ≠ (a.heap r).target := by
      intro child hchild
      obtain ⟨c, hc, rfl⟩ := Option.map_eq_some_iff.mp hchild
      exact (hdiffers c hc).mp (hnew c hc)
    have hkilled := h.killChild s
    have hfits' : (a.killChild s).Fits s r := ⟨hfits.signature, hfits.allocated, hfits.origin⟩
    rw [hvisit, start]
    cases hcommand : ((a.killChild s).heap r).target.command with
    | none =>
        refine ⟨hkilled, frame_killChild a s r, _, log_killChild, kills_signature, ?_⟩
        rw [child_killChild, if_pos rfl]
        exact Reconciled.refused _ _ hnew' hcommand
    | some command =>
        refine ⟨hkilled.launch hfits' hcommand, (frame_killChild a s r).launch hkilled hfits' command,
          kills s (a.child s) ++ [.launch s ⟨fork a.forks, command⟩], ?_, ?_, ?_⟩
        · simp only [launch, log_killChild, List.append_assoc]
          rfl
        · intro action haction
          rcases List.mem_append.mp haction with hkill | hlaunch
          · exact kills_signature action hkill
          · rw [List.mem_singleton.mp hlaunch]
            rfl
        · have hchild : ((a.killChild s).launch fork (fun _ => command) s r).child s =
              some ⟨(a.heap r).target, some ⟨fork a.forks, command⟩⟩ := by
            rw [State.child, launch, Dict.get_set, if_pos rfl]
            exact congrArg some (Function.update_self ..)
          rw [hchild]
          exact Reconciled.launched _ _ command a.forks hnew' hcommand

/-! ## The loop over `targetChildren` -/

theorem Fits.visit (hframe : Frame a a' s r) (hr : (a.heap r).target.signature = s)
    (hfits : a.Fits signature' r') (hne : signature' ≠ s) : a'.Fits signature' r' := by
  have hrr : r' ≠ r := by
    rintro rfl
    exact hne (hfits.signature.symm.trans hr)
  have hlast : a'.last = a.last := by
    funext s'
    simp only [last, hframe.target, hframe.targetList]
  obtain ⟨hsig, halloc, horigin⟩ := hfits
  refine ⟨by rw [hframe.target]; exact hsig, by rw [hframe.next]; exact halloc, ?_⟩
  rw [hframe.targetList, hlast, hframe.heap r' hrr]
  exact horigin

/-- The loop reconciles every signature of its entries and touches no other.
Source: `udping_agent`, `synchronize`
Kind: P -/
theorem visits (fork : ℕ → ℕ) (entries : List (Bytes × Ref))
    (hnodup : (entries.map Prod.fst).Nodup) (h : a.Sound) (hfits : ∀ e ∈ entries, a.Fits e.1 e.2) :
    (entries.foldl (visit fork) a).Sound ∧ (entries.foldl (visit fork) a).rows = a.rows ∧
      ∃ actions, (entries.foldl (visit fork) a).log = a.log ++ actions ∧
        (∀ e ∈ entries, Reconciled fork e.1 (a.child e.1) (some (a.heap e.2).target)
          ((entries.foldl (visit fork) a).child e.1) (actions.filter (·.signature = e.1))) ∧
        ∀ s, s ∉ entries.map Prod.fst →
          (entries.foldl (visit fork) a).child s = a.child s ∧
            actions.filter (·.signature = s) = [] := by
  induction entries generalizing a with
  | nil => exact ⟨h, rfl, [], by simp, by simp, by simp⟩
  | cons e entries ih =>
      obtain ⟨s, r⟩ := e
      obtain ⟨hnotin, hnodup'⟩ := List.nodup_cons.mp hnodup
      have hfit : a.Fits s r := hfits (s, r) List.mem_cons_self
      obtain ⟨h₁, hframe, first, hlog₁, hsig₁, hrec₁⟩ := visit_step fork h hfit
      have hne : ∀ e ∈ entries, e.1 ≠ s := by
        rintro e he rfl
        exact hnotin (List.mem_map.mpr ⟨e, he, rfl⟩)
      have hrows : (a.visit fork (s, r)).rows = a.rows := by
        simp only [rows, hframe.target, hframe.targetList]
      obtain ⟨h₂, hrows₂, rest, hlog₂, hrec₂, hother₂⟩ := ih hnodup' h₁ fun e he =>
        (hfits e (List.mem_cons_of_mem _ he)).visit hframe hfit.signature (hne e he)
      have hfirst : ∀ s', s' ≠ s → first.filter (·.signature = s') = [] := by
        intro s' hne'
        refine List.filter_eq_nil_iff.mpr fun action haction => ?_
        rw [decide_eq_true_eq, hsig₁ action haction]
        exact hne'.symm
      refine ⟨h₂, hrows₂.trans hrows, first ++ rest,
        by rw [List.foldl_cons, hlog₂, hlog₁, List.append_assoc], ?_, ?_⟩
      · intro e he
        rw [List.filter_append, List.foldl_cons]
        rcases List.mem_cons.mp he with rfl | he'
        · -- the entry just visited: the rest of the loop does not touch its signature
          have hself : first.filter (·.signature = s) = first :=
            List.filter_eq_self.mpr fun action haction => decide_eq_true (hsig₁ action haction)
          rw [hself, (hother₂ s hnotin).2, List.append_nil, (hother₂ s hnotin).1]
          exact hrec₁
        · rw [hfirst e.1 (hne e he'), List.nil_append, ← hframe.child e.1 (hne e he'),
            ← hframe.target e.2]
          exact hrec₂ e he'
      · intro s' hs'
        rw [List.map_cons, List.mem_cons, not_or] at hs'
        obtain ⟨hchild, hrest⟩ := hother₂ s' hs'.2
        rw [List.foldl_cons, hchild, hframe.child s' hs'.1, List.filter_append, hfirst s' hs'.1, hrest]
        exact ⟨rfl, rfl⟩

end State

end UDPing.Agent
