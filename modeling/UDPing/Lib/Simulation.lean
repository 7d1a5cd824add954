import UDPing.Lib.EventMachine

/-!
# Machines that follow one another, and what a run emits

* `trace emit es`: what the steps of the run `es` emit, in order.
* `Follows`: each step of a machine is, seen through `abs`, the steps of another machine that it
  emits; none where it emits nothing. **`Follows.run`**: then each run is a run of the other machine.
* **`foldlM_trace`**: what a run emits is accepted by an automaton, if so it is at each step.
* **`perm_balance`**: what is held after a run and what went out is what was held before and what
  came in, if so it is at each step.
-/

namespace Lib

namespace EventMachine

variable {σ ε τ δ : Type*} (M : EventMachine σ ε)

/-- A weaker condition along a run. Source: none: infrastructure. Kind: L -/
theorem Always.imp {M : EventMachine σ ε} {c d : σ → ε → Prop} (hcd : ∀ s e, c s e → d s e)
    {es : List ε} (h : M.Always c es) : M.Always d es := by
  induction es using List.reverseRecOn with
  | nil => trivial
  | append_singleton es e ih =>
      obtain ⟨hes, he⟩ := (M.always_concat c es e).mp h
      exact (M.always_concat d es e).mpr ⟨ih hes, hcd _ e he⟩

/-! ## Traces -/

/-- What the events `es` emit, from `s`. Source: none: infrastructure. Kind: D -/
def traceFrom (emit : σ → ε → List δ) : σ → List ε → List δ
  | _, [] => []
  | s, e :: es => emit s e ++ traceFrom emit (M.step s e) es

/-- What the events `es` emit, from the initial state. Source: none: infrastructure. Kind: D -/
def trace (emit : σ → ε → List δ) (es : List ε) : List δ := M.traceFrom emit M.init es

variable (emit : σ → ε → List δ)

@[simp] theorem trace_nil : M.trace emit [] = [] := rfl

theorem traceFrom_append (s : σ) (es es' : List ε) :
    M.traceFrom emit s (es ++ es') = M.traceFrom emit s es ++ M.traceFrom emit (M.runFrom s es) es' := by
  induction es generalizing s with
  | nil => rfl
  | cons e es ih =>
      rw [List.cons_append, traceFrom, ih, traceFrom, List.append_assoc]
      rfl

/-- The trace of a run extended by one event. Source: none: infrastructure. Kind: L -/
@[simp] theorem trace_concat (es : List ε) (e : ε) :
    M.trace emit (es ++ [e]) = M.trace emit es ++ emit (M.run es) e := by
  rw [trace, traceFrom_append, traceFrom, traceFrom, List.append_nil]
  rfl

/-- Where an element of a trace was emitted. Source: none: infrastructure. Kind: L -/
theorem mem_trace {es : List ε} {d : δ} :
    d ∈ M.trace emit es ↔ ∃ pre e, pre ++ [e] <+: es ∧ d ∈ emit (M.run pre) e := by
  induction es using List.reverseRecOn with
  | nil =>
      simp only [trace_nil, List.not_mem_nil, List.prefix_nil, List.append_eq_nil_iff,
        List.cons_ne_self, and_false, false_and, exists_false]
  | append_singleton es e ih =>
      rw [trace_concat, List.mem_append, ih]
      constructor
      · rintro (⟨pre, e', hpre, hd⟩ | hd)
        · exact ⟨pre, e', hpre.trans (List.prefix_append es [e]), hd⟩
        · exact ⟨es, e, List.prefix_rfl, hd⟩
      · rintro ⟨pre, e', hpre, hd⟩
        rcases List.prefix_concat_iff.mp hpre with heq | hpre'
        · obtain ⟨rfl, hlast⟩ := List.append_inj' heq rfl
          obtain rfl := List.singleton_inj.mp hlast
          exact Or.inr hd
        · exact Or.inl ⟨pre, e', hpre', hd⟩

/-- The trace of a shorter run comes first. Source: none: infrastructure. Kind: L -/
theorem trace_prefix {pre es : List ε} (h : pre <+: es) : M.trace emit pre <+: M.trace emit es := by
  obtain ⟨post, rfl⟩ := h
  exact ⟨_, (M.traceFrom_append emit M.init pre post).symm⟩

/-! ## Simulation -/

/-- Seen through `abs`, a step of `M` is the steps of `N` that it emits.
Source: none: infrastructure
Kind: D -/
structure Follows (N : EventMachine τ δ) (abs : σ → τ) : Prop where
  init : abs M.init = N.init
  step : ∀ s e, abs (M.step s e) = N.runFrom (abs s) (emit s e)

variable {M emit} {N : EventMachine τ δ} {abs : σ → τ}

/-- **A run is a run of the machine that is followed**, over what it emits.
Source: none: infrastructure
Kind: P -/
theorem Follows.run (h : M.Follows emit N abs) (es : List ε) :
    abs (M.run es) = N.run (M.trace emit es) := by
  induction es using List.reverseRecOn with
  | nil => exact h.init
  | append_singleton es e ih =>
      rw [run_concat, trace_concat, h.step, ih]
      exact List.foldl_append.symm

/-- A condition on the steps of the machine that is followed, as one on the steps that follow it.
Source: none: infrastructure
Kind: L -/
theorem Follows.always (h : M.Follows emit N abs) (c : τ → δ → Prop) (es : List ε) :
    N.Always c (M.trace emit es) ↔ M.Always (fun s e => N.Along c (abs s) (emit s e)) es := by
  induction es using List.reverseRecOn with
  | nil => exact Iff.rfl
  | append_singleton es e ih =>
      rw [trace_concat, always_concat, ← ih, Always, along_append, h.run es]
      rfl

/-- **A trace is accepted** by an automaton whose state can be read off that of the machine, if what
each step emits is.
Source: none: infrastructure
Kind: P -/
theorem foldlM_trace {κ : Type*} {accept : κ → δ → Option κ} {view : σ → κ}
    (hstep : ∀ es e, (emit (M.run es) e).foldlM accept (view (M.run es)) =
      some (view (M.step (M.run es) e))) (es : List ε) :
    (M.trace emit es).foldlM accept (view M.init) = some (view (M.run es)) := by
  induction es using List.reverseRecOn with
  | nil => rfl
  | append_singleton es e ih =>
      rw [trace_concat, List.foldlM_append, ih, run_concat]
      exact hstep es e

/-! ## Balances -/

/-- What is emitted in two parts. Source: none: infrastructure. Kind: L -/
theorem trace_append_perm (f g : σ → ε → List δ) (es : List ε) :
    (M.trace (fun s e => f s e ++ g s e) es).Perm (M.trace f es ++ M.trace g es) := by
  induction es using List.reverseRecOn with
  | nil => exact List.Perm.refl _
  | append_singleton es e ih =>
      rw [trace_concat, trace_concat, trace_concat]
      calc (M.trace (fun s e => f s e ++ g s e) es ++ (f (M.run es) e ++ g (M.run es) e)).Perm
            (M.trace f es ++ M.trace g es ++ (f (M.run es) e ++ g (M.run es) e)) := ih.append_right _
        _ = M.trace f es ++ (M.trace g es ++ f (M.run es) e ++ g (M.run es) e) := by
            simp only [List.append_assoc]
        _ |>.Perm (M.trace f es ++ (f (M.run es) e ++ M.trace g es ++ g (M.run es) e)) :=
            (List.perm_append_comm.append_right _).append_left _
        _ = M.trace f es ++ f (M.run es) e ++ (M.trace g es ++ g (M.run es) e) := by
            simp only [List.append_assoc]

/-- **What is held balances what came in and what went out.**
Source: none: infrastructure
Kind: P -/
theorem perm_balance {held : σ → List δ} {ins outs : σ → ε → List δ}
    (hstep : ∀ s e, (held (M.step s e) ++ outs s e).Perm (held s ++ ins s e)) (es : List ε) :
    (held (M.run es) ++ M.trace outs es).Perm (held M.init ++ M.trace ins es) := by
  induction es using List.reverseRecOn with
  | nil => exact List.Perm.refl _
  | append_singleton es e ih =>
      rw [run_concat, trace_concat, trace_concat]
      calc (held (M.step (M.run es) e) ++ (M.trace outs es ++ outs (M.run es) e)).Perm
            (held (M.step (M.run es) e) ++ outs (M.run es) e ++ M.trace outs es) := by
            rw [List.append_assoc]
            exact List.perm_append_comm.append_left _
        _ |>.Perm (held (M.run es) ++ ins (M.run es) e ++ M.trace outs es) :=
            (hstep _ e).append_right _
        _ |>.Perm (held (M.run es) ++ M.trace outs es ++ ins (M.run es) e) := by
            rw [List.append_assoc, List.append_assoc]
            exact List.perm_append_comm.append_left _
        _ |>.Perm (held M.init ++ M.trace ins es ++ ins (M.run es) e) := ih.append_right _
        _ = held M.init ++ (M.trace ins es ++ ins (M.run es) e) := List.append_assoc ..

end EventMachine

end Lib
