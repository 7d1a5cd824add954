import Mathlib.Data.List.Infix

/-!
# Event-driven machines and their runs

A machine is an initial state and a total step function; a *run* is the list of events fed to it.
What the environment has to respect at each step (an address handed out must be free, an input
must be of a certain form) is a predicate on the state before the step and the event, and
`Along c s es` says that `c` holds at every step of the run `es` from `s`.

* `run_concat`, `along_concat`: a run is extended at its end, so an invariant may speak about the
  whole history of the state it is about.
* `history_induction`: the rule every safety proof uses. What holds of the empty history and is
  preserved by one step from an admissible history holds of every admissible history.
* `forall_prefix_iff_always`: when a property survives a step exactly if a condition on that step
  holds, the property holds at every point of a run exactly if the condition holds at every step.
-/

namespace Lib

/-- A deterministic machine driven by events.
Source: none: infrastructure
Kind: D -/
structure EventMachine (σ ε : Type*) where
  /-- The state before the first event. -/
  init : σ
  /-- The state after one event. -/
  step : σ → ε → σ

namespace EventMachine

variable {σ ε : Type*} (M : EventMachine σ ε)

/-- The state after the events `es`, from `s`.
Source: none: infrastructure
Kind: D -/
def runFrom (s : σ) (es : List ε) : σ := es.foldl M.step s

/-- The state after the events `es`, from the initial state.
Source: none: infrastructure
Kind: D -/
def run (es : List ε) : σ := M.runFrom M.init es

/-- The condition `c` on the state before a step and the event holds at every step of a run.
Source: none: infrastructure
Kind: D -/
def Along (c : σ → ε → Prop) : σ → List ε → Prop
  | _, [] => True
  | s, e :: es => c s e ∧ Along c (M.step s e) es

/-- `c` holds at every step of the run `es` from the initial state.
Source: none: infrastructure
Kind: D -/
def Always (c : σ → ε → Prop) (es : List ε) : Prop := M.Along c M.init es

instance (c : σ → ε → Prop) [∀ s e, Decidable (c s e)] : ∀ s es, Decidable (M.Along c s es)
  | _, [] => isTrue trivial
  | s, e :: es =>
    have : Decidable (M.Along c (M.step s e) es) := instDecidableAlong c (M.step s e) es
    inferInstanceAs (Decidable (c s e ∧ M.Along c (M.step s e) es))

instance (c : σ → ε → Prop) [∀ s e, Decidable (c s e)] (es : List ε) : Decidable (M.Always c es) :=
  inferInstanceAs (Decidable (M.Along c M.init es))

/-- The empty run stays at the initial state. Source: none: infrastructure. Kind: L -/
@[simp] theorem run_nil : M.run [] = M.init := rfl

/-- A run extended by one event. Source: none: infrastructure. Kind: L -/
@[simp] theorem run_concat (es : List ε) (e : ε) : M.run (es ++ [e]) = M.step (M.run es) e := by
  simp [run, runFrom]

/-- The empty run meets every condition. Source: none: infrastructure. Kind: L -/
@[simp] theorem always_nil (c : σ → ε → Prop) : M.Always c [] := trivial

/-- A condition along a run split in two. Source: none: infrastructure. Kind: L -/
theorem along_append (c : σ → ε → Prop) (s : σ) (es es' : List ε) :
    M.Along c s (es ++ es') ↔ M.Along c s es ∧ M.Along c (M.runFrom s es) es' := by
  induction es generalizing s with
  | nil => simp [Along, runFrom]
  | cons e es ih =>
      simp only [List.cons_append, Along, ih, and_assoc]
      rfl

/-- A condition along a run extended by one event. Source: none: infrastructure. Kind: L -/
theorem always_concat (c : σ → ε → Prop) (es : List ε) (e : ε) :
    M.Always c (es ++ [e]) ↔ M.Always c es ∧ c (M.run es) e := by
  simp [Always, along_append, Along, run]

/-- Every run meets the condition that asks nothing. Source: none: infrastructure. Kind: L -/
theorem always_true (es : List ε) : M.Always (fun _ _ => True) es := by
  induction es using List.reverseRecOn with
  | nil => trivial
  | append_singleton es e ih => exact (M.always_concat _ es e).mpr ⟨ih, trivial⟩

/-- A condition along a run holds along its prefixes. Source: none: infrastructure. Kind: L -/
theorem Always.of_prefix {c : σ → ε → Prop} {es pre : List ε} (h : M.Always c es)
    (hpre : pre <+: es) : M.Always c pre := by
  obtain ⟨post, rfl⟩ := hpre
  exact ((M.along_append c M.init pre post).mp h).1

/-- **Induction over histories**: a property of the history that holds of the empty one and is
preserved by one more admissible step holds of every admissible history.
Source: none: infrastructure
Kind: P -/
theorem history_induction {c : σ → ε → Prop} {P : List ε → Prop} (nil : P [])
    (concat : ∀ es e, M.Always c es → c (M.run es) e → P es → P (es ++ [e])) :
    ∀ es, M.Always c es → P es := by
  intro es
  induction es using List.reverseRecOn with
  | nil => exact fun _ => nil
  | append_singleton es e ih =>
      intro h
      obtain ⟨hes, he⟩ := (M.always_concat c es e).mp h
      exact concat es e hes he (ih hes)

/-- **Exact conditions lift to runs**: if from an admissible history where `P` holds it holds
after one more step exactly when `d` holds of that step, then `P` holds at every point of an
admissible run exactly when `d` holds at every step.
Source: none: infrastructure
Kind: P -/
theorem forall_prefix_iff_always {c d : σ → ε → Prop} {P : List ε → Prop} (nil : P [])
    (exact_step : ∀ es e, M.Always c es → c (M.run es) e → P es → (P (es ++ [e]) ↔ d (M.run es) e)) :
    ∀ es, M.Always c es → ((∀ pre, pre <+: es → P pre) ↔ M.Always d es) := by
  refine M.history_induction ?_ ?_
  · exact ⟨fun _ => M.always_nil d, fun _ pre hpre => by rwa [List.prefix_nil.mp hpre]⟩
  · intro es e hes he ih
    rw [M.always_concat d es e, ← ih]
    constructor
    · intro h
      refine ⟨fun pre hpre => h pre (hpre.trans (List.prefix_append es [e])), ?_⟩
      exact (exact_step es e hes he (h es (List.prefix_append es [e]))).mp (h _ List.prefix_rfl)
    · rintro ⟨h, hd⟩ pre hpre
      rcases List.prefix_concat_iff.mp hpre with rfl | hpre'
      · exact (exact_step es e hes he (h es List.prefix_rfl)).mpr hd
      · exact h pre hpre'

end EventMachine

end Lib
