import UDPing.Server.Orderly

/-!
# The server on an orderly run

* `Tracked`: what holds at every point of an orderly run (`OrderlyRun`). Each GUID has one batch;
  the session of a source's current period is the one `sourceMap` references; the session of a
  period whose next one has begun is linked to it; the reports written cover their windows
  (`Covered`): each goes from the first packet of its period up to the first of the next.
* `Tracked.recordPing`, `Tracked.sweep`, `tracked_run`: one packet, one sweep, a run.
-/

namespace UDPing.Server

open Lib Serial ServerSessionManager
open Std (ExtTreeMap)

variable {keepalive : ℤ} {es : List Event} {periods : Source → List (Σ g, Batch g)}

/-! ## The periods of an orderly run -/

namespace OrderlyRun

variable {as : List Arrival} {X : Source} {b b' : Σ g, Batch g} {a f : Arrival}

/-- A GUID belongs to the source of its period. Source: none: infrastructure. Kind: L -/
theorem source_eq (h : OrderlyRun keepalive es periods) (hb : b ∈ periods X)
    (ha : a ∈ arrivals es) (hg : a.ph.guid = b.1) : a.source = X := by
  have hfirst : b.2.first ∈ fromSource (arrivals es) X := by
    rw [(h.blocks X).split]
    exact List.mem_flatMap.mpr ⟨b, hb, List.mem_cons_self⟩
  obtain ⟨hmem, hsource⟩ := List.mem_filter.mp hfirst
  have hguid := b.2.carries b.2.first List.mem_cons_self
  exact (h.unshared a ha _ hmem (hg.trans hguid.symm)).trans (of_decide_eq_true hsource)

/-- A period's packets were received. Source: none: infrastructure. Kind: L -/
theorem mem_arrivals (h : OrderlyRun keepalive es periods) (hb : b ∈ periods X)
    (ha : a ∈ b.2.arrivals) : a ∈ arrivals es := by
  have hmem : a ∈ fromSource (arrivals es) X := by
    rw [(h.blocks X).split]
    exact List.mem_flatMap.mpr ⟨b, hb, ha⟩
  exact (List.mem_filter.mp hmem).1

/-- A GUID has periods of one source only. Source: none: infrastructure. Kind: L -/
theorem source_unique (h : OrderlyRun keepalive es periods) {Y : Source} (hb : b ∈ periods X)
    (hb' : b' ∈ periods Y) (hg : b.1 = b'.1) : X = Y := by
  have hfirst := b.2.carries b.2.first List.mem_cons_self
  have hmem : b.2.first ∈ arrivals es := h.mem_arrivals hb List.mem_cons_self
  exact (h.source_eq hb hmem hfirst).symm.trans (h.source_eq hb' hmem (hfirst.trans hg))

/-- The packets of a period's GUID are packets of its source.
Source: none: infrastructure
Kind: L -/
theorem carrying_eq (h : OrderlyRun keepalive es periods) (has : as <+: arrivals es)
    (hb : b ∈ periods X) :
    carrying as b.1 = (fromSource as X).filter fun a => a.ph.guid = b.1 := by
  unfold carrying fromSource
  rw [List.filter_filter]
  apply List.filter_congr
  intro a ha
  by_cases hg : a.ph.guid = b.1
  · simp [hg, h.source_eq hb (has.subset ha) hg]
  · simp [hg]

/-- All packets of a period's GUID. Source: none: infrastructure. Kind: L -/
theorem carrying_all (h : OrderlyRun keepalive es periods) (hb : b ∈ periods X) :
    carrying (arrivals es) b.1 = b.2.arrivals := by
  rw [h.carrying_eq List.prefix_rfl hb]
  exact (h.blocks X).filter_key hb

/-- The packets of a period so far. Source: none: infrastructure. Kind: L -/
theorem carrying_prefix (h : OrderlyRun keepalive es periods) (has : as <+: arrivals es)
    (hb : b ∈ periods X) : carrying as b.1 <+: b.2.arrivals := by
  rw [← h.carrying_all hb]
  exact has.filter _

/-- A period is complete once the next one has begun. Source: none: infrastructure. Kind: L -/
theorem complete (h : OrderlyRun keepalive es periods) (has : as <+: arrivals es)
    (hbb : Follows (periods X) b b') (hcome : carrying as b'.1 ≠ []) :
    carrying as b.1 = b.2.arrivals := by
  obtain ⟨hb, hb'⟩ := InBlocks.mem_of_follows hbb
  obtain ⟨a, ha⟩ := List.exists_mem_of_ne_nil _ hcome
  rw [h.carrying_eq has hb'] at ha
  obtain ⟨hmem, hg⟩ := List.mem_filter.mp ha
  rw [h.carrying_eq has hb]
  exact (h.blocks X).complete_of_next hbb (has.filter _) hmem (of_decide_eq_true hg)

/-- Every packet is in a period of its source. Source: none: infrastructure. Kind: L -/
theorem exists_period (h : OrderlyRun keepalive es periods) (ha : a ∈ arrivals es) :
    ∃ b ∈ periods a.source, b.1 = a.ph.guid := by
  have hmem : a ∈ fromSource (arrivals es) a.source :=
    List.mem_filter.mpr ⟨ha, decide_eq_true rfl⟩
  obtain ⟨b, hb, -, hg⟩ := (h.blocks a.source).exists_block hmem
  exact ⟨b, hb, hg⟩

/-- The packets of a period are in order. Source: none: infrastructure. Kind: L -/
theorem chain_period (h : OrderlyRun keepalive es periods) (hb : b ∈ periods X) :
    b.2.arrivals.IsChain InStep := by
  have hinfix : b.2.arrivals <:+: fromSource (arrivals es) X := by
    rw [(h.blocks X).split]
    obtain ⟨l, r, hlr⟩ := List.append_of_mem hb
    refine ⟨l.flatMap fun b => b.2.arrivals, r.flatMap fun b => b.2.arrivals, ?_⟩
    rw [hlr, List.flatMap_append, List.flatMap_cons, List.append_assoc]
  exact List.IsChain.infix (h.inStep X) hinfix

/-- The last packet of a period and the first one of the next are in order.
Source: none: infrastructure
Kind: L -/
theorem inStep_next (h : OrderlyRun keepalive es periods) (hbb : Follows (periods X) b b') :
    InStep b.2.last b'.2.first := by
  obtain ⟨l, r, hlr⟩ := hbb
  have hchain := h.inStep X
  rw [(h.blocks X).split, hlr, List.flatMap_append, List.flatMap_cons, List.flatMap_cons,
    List.isChain_append] at hchain
  have hchain := (List.isChain_append.mp hchain.2.1).2.2
  refine hchain b.2.last ?_ b'.2.first rfl
  exact List.getLast?_eq_some_getLast (List.cons_ne_nil _ _)

/-- The span of a period. Source: none: infrastructure. Kind: L -/
theorem span_period (h : OrderlyRun keepalive es periods)
    (hf : (fromSource (arrivals es) X).head? = some f) (hb : b ∈ periods X) :
    ∀ a ∈ b.2.arrivals, position f a + 1 < 2 ^ 31 := by
  intro a ha
  apply h.span X f hf
  rw [(h.blocks X).split]
  exact List.mem_flatMap.mpr ⟨b, hb, ha⟩

end OrderlyRun

/-! ## What holds at every point of an orderly run -/

/-- The window a report should have: from the first packet of its period to the one before the
first of the next, or to the last packet of the period if no other follows.
Source: none: abstract model
Kind: D -/
def Covered (es : List Event) (periods : Source → List (Σ g, Batch g)) (r : Report)
    (β : Σ g, Batch g) : Prop :=
  ∀ X f, (fromSource (arrivals es) X).head? = some f → ∀ b ∈ periods X, b.1 = β.1 →
    ∃ W : Window, (r.stats.targetCount.toNat : ℤ) = W.size ∧ W.lo = position f b.2.first ∧
      (∀ b', Follows (periods X) b b' → W.hi = position f b'.2.first - 1) ∧
      ((∀ b', ¬ Follows (periods X) b b') → W.hi = position f β.2.last)

/-- The state after the arrivals `as` of an orderly run.
Source: none: abstract model
Kind: D -/
structure Tracked (es : List Event) (periods : Source → List (Σ g, Batch g)) (as : List Arrival)
    (m : ServerSessionManager) (L : Ledger) : Prop where
  come : as <+: arrivals es
  wf : WF m
  refines : Refines m L
  /-- A GUID's packets are in its pending batch, or in its only closed one. -/
  once : ∀ g, (L.closedOf g = [] ∧ L.pendingOf g = carrying as g) ∨
    (L.pending g = none ∧ L.closedOf g = [carrying as g])
  /-- A period is only reported when the next one has begun. -/
  handed : ∀ {X b b'}, Follows (periods X) b b' → L.closedOf b.1 ≠ [] → carrying as b'.1 ≠ []
  /-- `sourceMap` references the session of the current period. -/
  pointer : ∀ {X l a}, fromSource as X = l ++ [a] → a.ph.guid ∈ m.sessionMap →
    subscript m.sourceMap X.key = subscript m.sessionMap a.ph.guid
  /-- `sourceMap` has nothing for a source that has sent nothing. -/
  silent : ∀ {X}, fromSource as X = [] → subscript m.sourceMap X.key = none
  /-- A session whose next period has begun is linked to it. -/
  linked : ∀ {X b b' s}, Follows (periods X) b b' → carrying as b'.1 ≠ [] →
    m.session b.1 = some s → s.successor = b'.1
  /-- No other session is linked. -/
  unlinked : ∀ {g s}, m.session g = some s → s.successor ≠ [] →
    ∃ X b b', Follows (periods X) b b' ∧ b.1 = g ∧ b'.1 = s.successor
  /-- The reports cover their windows. -/
  reports : List.Forall₂ (Covered es periods) m.written L.closed

namespace Tracked

variable {as : List Arrival} {m : ServerSessionManager} {L : Ledger}

/-- A live session has packets, which are all its GUID has. Source: none: infrastructure.
Kind: L -/
theorem pending_of_session (h : Tracked es periods as m L) {g : Bytes} {s : ServerSession}
    (hs : m.session g = some s) :
    ∃ β : Batch g, L.pending g = some β ∧ s.forget = β.session ∧ β.arrivals = carrying as g := by
  obtain ⟨β, hβ, hsβ⟩ := h.refines.pending_of_session hs
  rcases h.once g with ⟨-, hpending⟩ | ⟨hnone, -⟩
  · rw [Ledger.pendingOf, hβ] at hpending
    exact ⟨β, hβ, hsβ, hpending⟩
  · rw [hβ] at hnone
    cases hnone

/-- A GUID with a session has packets. Source: none: infrastructure. Kind: L -/
theorem carrying_ne_nil (h : Tracked es periods as m L) {g : Bytes} (hg : g ∈ m.sessionMap) :
    carrying as g ≠ [] := by
  obtain ⟨s, hs⟩ := (h.wf.mem_iff g).mp hg
  obtain ⟨β, -, -, hβ⟩ := h.pending_of_session hs
  rw [← hβ]
  exact List.cons_ne_nil _ _

/-- A GUID that has packets but no session has been reported. Source: none: infrastructure.
Kind: L -/
theorem closed_of_not_mem (h : Tracked es periods as m L) {g : Bytes} (hg : g ∉ m.sessionMap)
    (hcome : carrying as g ≠ []) : L.closedOf g ≠ [] := by
  rcases h.once g with ⟨-, hpending⟩ | ⟨-, hclosed⟩
  · rcases hβ : L.pending g with _ | β
    · rw [Ledger.pendingOf, hβ] at hpending
      exact absurd hpending.symm hcome
    · obtain ⟨s, hs, -⟩ := h.refines.session_of_pending hβ
      exact absurd ((h.wf.mem_iff g).mpr ⟨s, hs⟩) hg
  · rw [hclosed]
    exact List.cons_ne_nil _ _

/-! ### One packet -/

section packet

variable {a : Arrival} {mem : Memory}

/-- A source whose current GUID is `a₀`'s, about to see the new GUID of `a`.
Source: none: infrastructure
Kind: L -/
theorem follows_of_new (horder : OrderlyRun keepalive es periods) (h : Tracked es periods as m L)
    (hcome : as ++ [a] <+: arrivals es) {l : List Arrival} {a₀ : Arrival}
    (hl : fromSource as a.source = l ++ [a₀]) (hne : a₀.ph.guid ≠ a.ph.guid) :
    ∃ b b', Follows (periods a.source) b b' ∧ b.1 = a₀.ph.guid ∧ b'.1 = a.ph.guid ∧
      carrying as a.ph.guid = [] := by
  obtain ⟨post, hpost⟩ := hcome
  have hall : fromSource (arrivals es) a.source = l ++ a₀ :: a :: fromSource post a.source := by
    rw [← hpost]
    unfold fromSource at hl ⊢
    rw [List.filter_append, List.filter_append, hl]
    simp
  obtain ⟨bl, b, b', br, hbs, hb, hb', hle⟩ :=
    (horder.blocks a.source).next_of_boundary hall hne
  refine ⟨b, b', ⟨bl, br, hbs⟩, hb, hb', ?_⟩
  have hb'mem : b' ∈ periods a.source := by rw [hbs]; simp
  rw [← hb', horder.carrying_eq h.come hb'mem, hl, hle, List.filter_eq_nil_iff]
  intro c hc hcg
  -- the blocks up to `b` have other keys than `b'`
  have hblocks := horder.blocks a.source
  have hsplit : bl ++ b :: b' :: br = (bl ++ [b]) ++ b' :: br := by
    rw [List.append_assoc]
    rfl
  rw [hbs, hsplit] at hblocks
  obtain ⟨d, hd, -, hdc⟩ := hblocks.left.exists_block hc
  have hnodup := hblocks.nodup
  rw [List.map_append, List.nodup_append] at hnodup
  exact hnodup.2.2 _ (List.mem_map_of_mem hd) _ (List.mem_map_of_mem List.mem_cons_self)
    (hdc.trans (of_decide_eq_true hcg))

/-- **The predecessor in an orderly run** is the session of the source's current period.
Source: `serversession.cc`, `getServerSession`
Kind: L -/
theorem predecessor_cases (horder : OrderlyRun keepalive es periods)
    (h : Tracked es periods as m L) (hcome : as ++ [a] <+: arrivals es)
    (hfree : m.heap mem.addr = none) (hnew : ∀ a' ∈ as, a'.ph.guid ≠ a.ph.guid) :
    (fromSource as a.source = [] ∧ m.predecessorOf a mem = none) ∨
      ∃ b b' s, Follows (periods a.source) b b' ∧ b'.1 = a.ph.guid ∧ m.session b.1 = some s ∧
        m.predecessorOf a mem = subscript m.sessionMap b.1 := by
  rcases List.eq_nil_or_concat (fromSource as a.source) with hnil | ⟨l, a₀, hl⟩
  · exact Or.inl ⟨hnil, predecessorOf_none mem (h.silent hnil)⟩
  · right
    have ha₀ : a₀ ∈ as ∧ a₀.source = a.source := by
      have hmem : a₀ ∈ fromSource as a.source := by rw [hl]; simp
      exact ⟨(List.mem_filter.mp hmem).1, of_decide_eq_true (List.mem_filter.mp hmem).2⟩
    obtain ⟨b, b', hbb, hb, hb', hnone⟩ :=
      h.follows_of_new horder hcome (hl.trans (List.concat_eq_append ..)) (hnew a₀ ha₀.1)
    -- the current period has not been reported, or the new one would have begun
    have hlive : a₀.ph.guid ∈ m.sessionMap := by
      by_contra hdead
      have hsome : carrying as a₀.ph.guid ≠ [] :=
        List.ne_nil_of_mem (List.mem_filter.mpr ⟨ha₀.1, decide_eq_true rfl⟩)
      apply h.handed hbb (hb ▸ h.closed_of_not_mem hdead hsome)
      rw [hb']
      exact hnone
    obtain ⟨s, hs⟩ := (h.wf.mem_iff _).mp hlive
    obtain ⟨addr, haddr, hheap⟩ := session_eq_some.mp hs
    have hsub := (h.pointer (hl.trans (List.concat_eq_append ..)) hlive).trans
      (subscript_eq_some.mpr haddr)
    obtain ⟨β, -, hsβ, hβ⟩ := h.pending_of_session hs
    have hstart : s.clientStartTime = a.ph.clientStartTime.toNat := by
      have hβfirst : β.first ∈ as ∧ β.first.ph.guid = a₀.ph.guid := by
        have hmem : β.first ∈ carrying as a₀.ph.guid := hβ ▸ List.mem_cons_self
        exact ⟨(List.mem_filter.mp hmem).1, of_decide_eq_true (List.mem_filter.mp hmem).2⟩
      have hstart : s.clientStartTime = β.session.clientStartTime := by
        rw [← hsβ]
        rfl
      have hcome_a : a ∈ arrivals es := hcome.subset (by simp)
      have hsource := horder.unshared _ (h.come.subset hβfirst.1) _ (h.come.subset ha₀.1)
        hβfirst.2
      rw [hstart, β.session_clientStartTime, horder.start _ (h.come.subset hβfirst.1) _ hcome_a
        (hsource.trans ha₀.2)]
    refine ⟨b, b', s, hbb, hb', hb ▸ hs, ?_⟩
    rw [predecessorOf_of_heap hsub hheap hfree, if_pos hstart, hb, subscript_eq_some.mpr haddr]

/-- The packets so far. Source: none: infrastructure. Kind: L -/
theorem carrying_concat (as : List Arrival) (a : Arrival) (g : Bytes) :
    carrying (as ++ [a]) g = carrying as g ++ if a.ph.guid = g then [a] else [] := by
  unfold carrying
  rw [List.filter_append]
  split_ifs with hg
  · simp [hg]
  · simp [hg]

theorem fromSource_concat (as : List Arrival) (a : Arrival) (X : Source) :
    fromSource (as ++ [a]) X = fromSource as X ++ if a.source = X then [a] else [] := by
  unfold fromSource
  rw [List.filter_append]
  split_ifs with hX
  · simp [hX]
  · simp [hX]

/-- A packet keeps the batches: a GUID has one. Source: none: infrastructure. Kind: L -/
theorem once_receive (h : Tracked es periods as m L)
    (hnew : a.ph.guid ∉ m.sessionMap → ∀ a' ∈ as, a'.ph.guid ≠ a.ph.guid) (g : Bytes) :
    ((L.receive a).closedOf g = [] ∧ (L.receive a).pendingOf g = carrying (as ++ [a]) g) ∨
      ((L.receive a).pending g = none ∧ (L.receive a).closedOf g = [carrying (as ++ [a]) g]) := by
  have hclosed : (L.receive a).closedOf g = L.closedOf g := rfl
  rcases h.once g with ⟨hnil, hpending⟩ | ⟨hnone, hone⟩
  · left
    refine ⟨hnil, ?_⟩
    have hseg := Ledger.segments_receive L a g
    rw [hclosed, hnil, List.flatten_nil, List.nil_append, List.nil_append, hpending] at hseg
    rw [hseg]
    exact (List.filter_append ..).symm
  · right
    -- a GUID that was reported is not reused
    have hg : a.ph.guid ≠ g := by
      rintro rfl
      have hdead : a.ph.guid ∉ m.sessionMap := by
        intro hmem
        obtain ⟨s, hs⟩ := (h.wf.mem_iff _).mp hmem
        obtain ⟨β, hβ, -⟩ := h.refines.pending_of_session hs
        rw [hnone] at hβ
        cases hβ
      have hempty : carrying as a.ph.guid = [] := by
        apply List.filter_eq_nil_iff.mpr
        intro a' ha' hg'
        exact hnew hdead a' ha' (of_decide_eq_true hg')
      have hmem : carrying as a.ph.guid ∈ L.closedOf a.ph.guid := by rw [hone]; simp
      obtain ⟨β, -, hβ⟩ := List.mem_map.mp hmem
      rw [hempty] at hβ
      exact List.cons_ne_nil _ _ hβ
    rw [carrying_concat, if_neg hg, List.append_nil]
    exact ⟨(L.pending_receive_of_ne hg).trans hnone, hone⟩

/-- The references after a packet. Source: `serversession.cc`, `getServerSession`. Kind: L -/
theorem pointer_recordPing (horder : OrderlyRun keepalive es periods)
    (h : Tracked es periods as m L) (hcome : as ++ [a] <+: arrivals es) {X : Source}
    {l : List Arrival} {a₁ : Arrival} (hl : fromSource (as ++ [a]) X = l ++ [a₁])
    (hlive : a₁.ph.guid ∈ (m.recordPing a mem).sessionMap) :
    subscript (m.recordPing a mem).sourceMap X.key =
      subscript (m.recordPing a mem).sessionMap a₁.ph.guid := by
  have hkey : a.source ≠ X → sourceKey a.peer a.port ≠ X.key := by
    intro hX hc
    obtain ⟨hpeer, hport⟩ := sourceKey_injective hc
    exact hX (Prod.ext hpeer hport)
  rw [fromSource_concat] at hl
  rw [recordPing_sourceMap, recordPing_sessionMap]
  by_cases hX : a.source = X
  · subst hX
    rw [if_pos rfl] at hl
    obtain ⟨-, rfl⟩ := List.append_singleton_inj.mp hl
    by_cases hmem : a.ph.guid ∈ m.sessionMap
    · rw [if_pos hmem, if_pos hmem]
      rcases List.eq_nil_or_concat (fromSource as a.source) with hnil | ⟨l₀, a₀, hl₀⟩
      · -- a live GUID has packets of its source
        obtain ⟨a', ha'⟩ := List.exists_mem_of_ne_nil _ (h.carrying_ne_nil hmem)
        obtain ⟨ha'mem, hg⟩ := List.mem_filter.mp ha'
        have hsource := horder.unshared _ (h.come.subset ha'mem) a (hcome.subset (by simp))
          (of_decide_eq_true hg)
        have hin : a' ∈ fromSource as a.source :=
          List.mem_filter.mpr ⟨ha'mem, decide_eq_true hsource⟩
        rw [hnil] at hin
        cases hin
      · rw [List.concat_eq_append] at hl₀
        by_cases hg : a₀.ph.guid = a.ph.guid
        · rw [← hg] at hmem ⊢
          exact h.pointer hl₀ hmem
        · obtain ⟨-, -, -, -, -, hnone⟩ := h.follows_of_new horder hcome hl₀ hg
          exact absurd hnone (h.carrying_ne_nil hmem)
    · rw [if_neg hmem, if_neg hmem, subscript_insert, subscript_insert]
      exact (if_pos rfl).trans (if_pos rfl).symm
  · rw [if_neg hX, List.append_nil] at hl
    have ha₁ : a₁ ∈ as ∧ a₁.source = X := by
      have hmem : a₁ ∈ fromSource as X := by rw [hl]; simp
      exact ⟨(List.mem_filter.mp hmem).1, of_decide_eq_true (List.mem_filter.mp hmem).2⟩
    have hg : a.ph.guid ≠ a₁.ph.guid := by
      intro hg
      have hsource := horder.unshared a (hcome.subset (by simp)) a₁ (h.come.subset ha₁.1) hg
      exact hX (hsource.trans ha₁.2)
    have hlive' : a₁.ph.guid ∈ m.sessionMap :=
      ((mem_recordPing_sessionMap m a mem _).mp hlive).resolve_left hg
    by_cases hmem : a.ph.guid ∈ m.sessionMap
    · rw [if_pos hmem, if_pos hmem]
      exact h.pointer hl hlive'
    · rw [if_neg hmem, if_neg hmem, subscript_insert, subscript_insert, if_neg (hkey hX),
        if_neg hg]
      exact h.pointer hl hlive'

/-- The sessions after a packet, with their links: the session of a new GUID is not linked, the
one of the period before is linked to it, and no other link changes.
Source: `serversession.cc`, `getServerSession`
Kind: L -/
theorem successor_recordPing (horder : OrderlyRun keepalive es periods)
    (h : Tracked es periods as m L) (hcome : as ++ [a] <+: arrivals es)
    (hfree : m.heap mem.addr = none)
    (hnew : a.ph.guid ∉ m.sessionMap → ∀ a' ∈ as, a'.ph.guid ≠ a.ph.guid) {g : Bytes}
    {s' : ServerSession} (hs' : (m.recordPing a mem).session g = some s') :
    (a.ph.guid ∉ m.sessionMap ∧ g = a.ph.guid ∧ s'.successor = []) ∨
    (a.ph.guid ∉ m.sessionMap ∧ s'.successor = a.ph.guid ∧ (∃ s, m.session g = some s) ∧
      ∃ b b', Follows (periods a.source) b b' ∧ b.1 = g ∧ b'.1 = a.ph.guid) ∨
    ((a.ph.guid ∉ m.sessionMap → ∀ b b', Follows (periods a.source) b b' → b'.1 = a.ph.guid →
      b.1 ≠ g) ∧ ∃ s, m.session g = some s ∧ s'.successor = s.successor) := by
  by_cases hmem : a.ph.guid ∈ m.sessionMap
  · right; right
    refine ⟨fun hc => absurd hmem hc, ?_⟩
    by_cases hg : a.ph.guid = g
    · subst hg
      obtain ⟨s, hs⟩ := (h.wf.mem_iff _).mp hmem
      rw [recordPing_session_live h.wf hs, Option.some.injEq] at hs'
      refine ⟨s, hs, ?_⟩
      rw [← hs', ServerSession.absorb_eq]
    · rw [recordPing_session_other h.wf hfree hg, if_neg fun hc => hc.1 hmem] at hs'
      exact ⟨s', hs', rfl⟩
  · have hcases := h.predecessor_cases horder hcome hfree (hnew hmem)
    by_cases hg : a.ph.guid = g
    · subst hg
      left
      have hpred : m.predecessorOf a mem ≠ some mem.addr := by
        rcases hcases with ⟨-, hnone⟩ | ⟨b, -, s, -, -, hs, hpred⟩
        · rw [hnone]
          simp
        · obtain ⟨addr, haddr, hheap⟩ := session_eq_some.mp hs
          rw [hpred, subscript_eq_some.mpr haddr]
          rintro hc
          rw [Option.some.injEq] at hc
          rw [hc, hfree] at hheap
          cases hheap
      rw [recordPing_session_new h.wf hfree hmem, if_neg hpred, Option.some.injEq] at hs'
      refine ⟨hmem, rfl, ?_⟩
      rw [← hs', ServerSession.absorb_eq]
      rfl
    · right
      rw [recordPing_session_other h.wf hfree hg] at hs'
      split_ifs at hs' with hlink
      · left
        obtain ⟨s, hs, rfl⟩ := Option.map_eq_some_iff.mp hs'
        obtain ⟨addr, haddr, hheap⟩ := session_eq_some.mp hs
        rcases hcases with ⟨-, hnone⟩ | ⟨b, b', t, hbb, hb', ht, hpred⟩
        · have hsub := hlink.2.trans hnone
          rw [subscript_eq_some.mpr haddr] at hsub
          cases hsub
        · refine ⟨hmem, rfl, ⟨s, hs⟩, b, b', hbb, ?_, hb'⟩
          obtain ⟨addr', haddr', hheap'⟩ := session_eq_some.mp ht
          have hsame := hlink.2.trans hpred
          rw [subscript_eq_some.mpr haddr, subscript_eq_some.mpr haddr', Option.some.injEq] at hsame
          subst hsame
          rw [hheap, Option.some.injEq] at hheap'
          rw [← h.wf.guid_eq hs, ← h.wf.guid_eq ht, hheap']
      · right
        refine ⟨fun _ b b' hbb hb' hbg => hlink ⟨hmem, ?_⟩, s', hs', rfl⟩
        rcases hcases with ⟨hnil, -⟩ | ⟨c, c', t, hcc, hc', ht, hpred⟩
        · -- the period before has packets
          obtain ⟨β, -, -, hβ⟩ := h.pending_of_session hs'
          have hfirst : β.first ∈ carrying as g := hβ ▸ List.mem_cons_self
          obtain ⟨hin, hgu⟩ := List.mem_filter.mp hfirst
          have hb := (InBlocks.mem_of_follows hbb).1
          have hsource := horder.source_eq hb (h.come.subset hin)
            ((of_decide_eq_true hgu).trans hbg.symm)
          have hmemX : β.first ∈ fromSource as a.source :=
            List.mem_filter.mpr ⟨hin, decide_eq_true hsource⟩
          rw [hnil] at hmemX
          cases hmemX
        · have hsame : b.1 = c.1 :=
            ((horder.blocks a.source).follows_unique hbb hcc).mpr (hb'.trans hc'.symm)
          rw [hpred, ← hsame, hbg]

/-- **One packet** keeps what is tracked. Source: `serversession.cc`, `receivePing`. Kind: P -/
theorem recordPing (horder : OrderlyRun keepalive es periods) (h : Tracked es periods as m L)
    (hcome : as ++ [a] <+: arrivals es) (hfree : m.heap mem.addr = none)
    (hnew : a.ph.guid ∉ m.sessionMap → ∀ a' ∈ as, a'.ph.guid ≠ a.ph.guid) :
    Tracked es periods (as ++ [a]) (m.recordPing a mem) (L.receive a) where
  come := hcome
  wf := h.wf.recordPing hfree
  refines := h.refines.recordPing h.wf a hfree
  once := h.once_receive hnew
  handed := by
    intro X b b' hbb hclosed
    rw [carrying_concat]
    exact List.append_ne_nil_of_left_ne_nil (h.handed hbb hclosed) _
  pointer := h.pointer_recordPing horder hcome
  silent := by
    intro X hnil
    rw [fromSource_concat, List.append_eq_nil_iff] at hnil
    have hX : a.source ≠ X := by
      intro hX
      rw [if_pos hX] at hnil
      exact List.cons_ne_nil _ _ hnil.2
    rw [recordPing_sourceMap]
    split_ifs
    · exact h.silent hnil.1
    · rw [subscript_insert, if_neg, h.silent hnil.1]
      intro hc
      obtain ⟨hpeer, hport⟩ := sourceKey_injective hc
      exact hX (Prod.ext hpeer hport)
  linked := by
    intro X b b' s' hbb hb'come hs'
    obtain ⟨hb, hb'⟩ := InBlocks.mem_of_follows hbb
    have hcases := h.successor_recordPing horder hcome hfree hnew hs'
    have hguid : b'.1 = a.ph.guid → X = a.source := fun hg =>
      (horder.source_eq hb' (hcome.subset (by simp)) hg.symm).symm
    by_cases hg : b'.1 = a.ph.guid
    · obtain rfl := hguid hg
      rcases hcases with ⟨-, hba, -⟩ | ⟨-, hsucc, -, -⟩ | ⟨hno, s, hs, hsucc⟩
      · exact absurd (hba.trans hg.symm) ((horder.blocks _).key_ne_of_follows hbb)
      · rw [hsucc, hg]
      · by_cases hmem : a.ph.guid ∈ m.sessionMap
        · rw [hsucc]
          exact h.linked hbb (hg ▸ h.carrying_ne_nil hmem) hs
        · exact absurd rfl (hno hmem b b' hbb hg)
    · rw [carrying_concat, if_neg (Ne.symm hg), List.append_nil] at hb'come
      rcases hcases with ⟨hmem, hba, -⟩ | ⟨-, -, -, c, c', hcc, hc, hc'⟩ | ⟨-, s, hs, hsucc⟩
      · -- a period that has been followed has come before
        have hcomplete := horder.complete h.come hbb hb'come
        have hfirst : b.2.first ∈ carrying as b.1 := hcomplete ▸ List.mem_cons_self
        obtain ⟨hin, hgu⟩ := List.mem_filter.mp hfirst
        exact absurd ((of_decide_eq_true hgu).trans hba) (hnew hmem _ hin)
      · obtain rfl := horder.source_unique hb (InBlocks.mem_of_follows hcc).1 hc.symm
        have hnext := ((horder.blocks _).follows_unique hbb hcc).mp hc.symm
        exact absurd (hnext.trans hc') hg
      · rw [hsucc]
        exact h.linked hbb hb'come hs
  unlinked := by
    intro g s' hs' hne
    rcases h.successor_recordPing horder hcome hfree hnew hs' with ⟨-, -, hnil⟩ |
      ⟨-, hsucc, -, b, b', hbb, hb, hb'⟩ | ⟨-, s, hs, hsucc⟩
    · exact absurd hnil hne
    · exact ⟨a.source, b, b', hbb, hb, hb'.trans hsucc.symm⟩
    · rw [hsucc] at hne ⊢
      exact h.unlinked hs hne
  reports := by
    rw [recordPing_written]
    exact h.reports

end packet

/-! ### One sweep -/

/-- A window of numbers, counted from the first packet of the source.
Source: none: infrastructure
Kind: L -/
theorem exists_window {s : ServerSession} {W : Window} {f : Arrival} {p q : ℤ} (h : Shows s W)
    (hlo : W.lo = f.ph.seqNum.toNat + p) (hhi : W.hi = f.ph.seqNum.toNat + q) (hp : 0 ≤ p)
    (hq : q < 2 ^ 31) (now : Time) :
    ∃ W' : Window, ((s.writeStats now).stats.targetCount.toNat : ℤ) = W'.size ∧ W'.lo = p ∧
      W'.hi = q := by
  have hle := W.le
  refine ⟨⟨p, q, by omega⟩, ?_, rfl, rfl⟩
  rw [h.targetCount (by unfold Window.size; omega)]
  simp only [Window.size]
  omega

/-- A session that expires has the packets of its period so far, in order.
Source: none: infrastructure
Kind: L -/
theorem shows_session (horder : OrderlyRun keepalive es periods) (h : Tracked es periods as m L)
    {X : Source} {f : Arrival} (hf : (fromSource (arrivals es) X).head? = some f)
    {b : Σ g, Batch g} (hb : b ∈ periods X) {s : ServerSession} (hs : m.session b.1 = some s) :
    ∃ (β : Batch b.1) (W : Window), L.pending b.1 = some β ∧ β.arrivals = carrying as b.1 ∧
      β.first = b.2.first ∧ (∀ a ∈ β.arrivals, position f a + 1 < 2 ^ 31) ∧ Shows s W ∧
      W.lo = number f b.2.first ∧ W.hi = number f β.last := by
  obtain ⟨β, hβ, hsβ, hcarry⟩ := h.pending_of_session hs
  have hpart : β.arrivals <+: b.2.arrivals := hcarry ▸ horder.carrying_prefix h.come hb
  have hfirst : β.first = b.2.first := (List.cons_prefix_cons.mp hpart).1
  have hspan : ∀ a ∈ β.arrivals, position f a + 1 < 2 ^ 31 := fun a ha =>
    horder.span_period hf hb a (hpart.subset ha)
  have hchain : β.arrivals.IsChain InStep :=
    List.IsChain.prefix (horder.chain_period hb) hpart
  obtain ⟨W, hshows, hlo, hhi⟩ := β.shows_inOrder f hchain hspan
  rw [← hsβ] at hshows
  exact ⟨β, W, hβ, hcarry, hfirst, hspan, ⟨hshows.minSeq, hshows.maxSeq⟩, hfirst ▸ hlo, hhi⟩

/-- The sweep's condition in an orderly run: a session whose period is followed by another is
removed while that one's session is in the table.
Source: none: abstract model
Kind: D -/
def HandsOver (periods : Source → List (Σ g, Batch g)) (m : ServerSessionManager) (now : Time) :
    Prop :=
  ∀ X b b', Follows (periods X) b b' → b.1 ∈ m.sessionMap → m.expired now b.1 →
    b'.1 ∈ m.sessionMap ∧ ¬ (m.expired now b'.1 ∧ compare b'.1 b.1 = .lt)

/-- **The report of a period that is followed by another** covers the numbers up to the first one
of that.
Source: `serversession.cc`, `sweepServerSessions`, `recordSeq`, `writeStats`
Kind: P -/
theorem window_of_follows (horder : OrderlyRun keepalive es periods)
    (h : Tracked es periods as m L) {now : Time} (hhand : HandsOver periods m now) {X : Source}
    {f : Arrival} (hf : (fromSource (arrivals es) X).head? = some f) {b b' : Σ g, Batch g}
    (hbb : Follows (periods X) b b') {s : ServerSession} (hs : m.session b.1 = some s)
    (hexp : m.expired now b.1) :
    ∃ W : Window, (((s.closeWith (m.finalTail now b.1 s)).writeStats
        now).stats.targetCount.toNat : ℤ) = W.size ∧
      W.lo = position f b.2.first ∧ W.hi = position f b'.2.first - 1 := by
  obtain ⟨hb, hb'⟩ := InBlocks.mem_of_follows hbb
  obtain ⟨hlive, hvisible⟩ := hhand X b b' hbb ((h.wf.mem_iff _).mpr ⟨s, hs⟩) hexp
  obtain ⟨t, ht⟩ := (h.wf.mem_iff _).mp hlive
  have hcome := h.carrying_ne_nil hlive
  have hsucc := h.linked hbb hcome hs
  have htail : m.finalTail now b.1 s = some (t.minSeq - 1) := by
    unfold finalTail
    rw [hsucc, if_neg hvisible, ht]
    rfl
  obtain ⟨β, W, -, hcarry, -, hspan, hshows, hlo, hhi⟩ := h.shows_session horder hf hb hs
  obtain ⟨β', W', -, -, -, -, hshows', hlo', -⟩ := h.shows_session horder hf hb' ht
  -- the period is complete, and the next one begins at most `9` numbers later
  obtain rfl : β = b.2 :=
    Batch.arrivals_injective (hcarry.trans (horder.complete h.come hbb hcome))
  have hlast : b.2.last ∈ b.2.arrivals := List.getLast_mem _
  have hspan_last := hspan _ hlast
  have hspan_next := horder.span_period hf hb' b'.2.first List.mem_cons_self
  have hspan_first := hspan b.2.first List.mem_cons_self
  have hstep := number_step hspan_last (horder.inStep_next hbb)
  have hlt : number f b.2.last < number f b'.2.first := by
    apply number_lt hspan_last (horder.inStep_next hbb)
    rw [b.2.carries _ hlast, b'.2.carries _ List.mem_cons_self]
    exact (horder.blocks X).key_ne_of_follows hbb
  have hle := W.le
  have hq : t.minSeq - 1 = ofTrue (number f b'.2.first - 1) := by
    rw [hshows'.minSeq, hlo', ofTrue_sub, ofTrue_one]
  have hclosed : Shows (s.closeWith (m.finalTail now b.1 s))
      (W.extend 10 (number f b'.2.first - 1)) := by
    rw [htail, hq]
    unfold number at hlo hhi hlt hstep ⊢
    apply hshows.recordSeq
    · rw [abs_le]; omega
    · rw [abs_le]; omega
  have hends : (W.extend 10 (number f b'.2.first - 1)).lo = number f b.2.first ∧
      (W.extend 10 (number f b'.2.first - 1)).hi = number f b'.2.first - 1 := by
    simp only [Window.extend]
    split_ifs <;> omega
  apply exists_window hclosed hends.1 (hends.2.trans _) (by omega) (by omega)
  unfold number
  ring

/-- **The report of a period that nothing follows** covers its own packets.
Source: `serversession.cc`, `sweepServerSessions`, `writeStats`
Kind: P -/
theorem window_of_last (horder : OrderlyRun keepalive es periods) (h : Tracked es periods as m L)
    (now : Time) {X : Source} {f : Arrival}
    (hf : (fromSource (arrivals es) X).head? = some f) {b : Σ g, Batch g} (hb : b ∈ periods X)
    (hno : ∀ b', ¬ Follows (periods X) b b') {s : ServerSession} (hs : m.session b.1 = some s)
    {β : Batch b.1} (hβ : L.pending b.1 = some β) :
    ∃ W : Window, (((s.closeWith (m.finalTail now b.1 s)).writeStats
        now).stats.targetCount.toNat : ℤ) = W.size ∧
      W.lo = position f b.2.first ∧ W.hi = position f β.last := by
  have hsucc : s.successor = [] := by
    by_contra hne
    obtain ⟨Y, c, c', hcc, hc, -⟩ := h.unlinked hs hne
    have hcmem := (InBlocks.mem_of_follows hcc).1
    obtain rfl := horder.source_unique hcmem hb hc
    obtain rfl := (horder.blocks _).eq_of_key hcmem hb hc
    exact hno c' hcc
  have hempty : m.session [] = none := by
    rcases hnil : m.session [] with _ | t
    · rfl
    · obtain ⟨γ, -, -, hγ⟩ := h.pending_of_session hnil
      have hfirst : γ.first ∈ carrying as [] := hγ ▸ List.mem_cons_self
      obtain ⟨hin, hg⟩ := List.mem_filter.mp hfirst
      exact absurd (of_decide_eq_true hg) (horder.guid_ne_nil _ (h.come.subset hin))
  have htail : m.finalTail now b.1 s = none := by
    unfold finalTail expired
    rw [hsucc, hempty]
    simp
  obtain ⟨β', W, hβ', -, -, hspan, hshows, hlo, hhi⟩ := h.shows_session horder hf hb hs
  rw [hβ, Option.some.injEq] at hβ'
  subst hβ'
  have hspan_last := hspan β.last (List.getLast_mem _)
  rw [htail]
  exact exists_window hshows hlo hhi (by omega) (by omega) now

/-- The report of an expired session covers its window.
Source: `serversession.cc`, `sweepServerSessions`
Kind: L -/
theorem covered_finalReport (horder : OrderlyRun keepalive es periods)
    (h : Tracked es periods as m L) {now : Time} (hhand : HandsOver periods m now) {g : Bytes}
    {s : ServerSession} {β : Batch g} (hs : m.session g = some s) (hexp : m.expired now g)
    (hβ : L.pending g = some β) :
    Covered es periods ((s.closeWith (m.finalTail now g s)).writeStats now) ⟨g, β⟩ := by
  intro X f hf b hb hbg
  dsimp only at hbg
  subst hbg
  by_cases hnext : ∃ b', Follows (periods X) b b'
  · obtain ⟨b', hbb⟩ := hnext
    obtain ⟨W, hsize, hlo, hhi⟩ := h.window_of_follows horder hhand hf hbb hs hexp
    refine ⟨W, hsize, hlo, fun c hbc => ?_, fun hno => absurd hbb (hno b')⟩
    obtain rfl : b' = c := (horder.blocks X).eq_of_key (InBlocks.mem_of_follows hbb).2
      (InBlocks.mem_of_follows hbc).2 (((horder.blocks X).follows_unique hbb hbc).mp rfl)
    exact hhi
  · have hno : ∀ b', ¬ Follows (periods X) b b' := fun b' hbb => hnext ⟨b', hbb⟩
    obtain ⟨W, hsize, hlo, hhi⟩ := h.window_of_last horder now hf hb hno hs hβ
    exact ⟨W, hsize, hlo, fun b' hbb => absurd hbb (hno b'), fun _ => hhi⟩

/-- **One sweep** keeps what is tracked. Source: `serversession.cc`, `sweepServerSessions`.
Kind: P -/
theorem sweep (horder : OrderlyRun keepalive es periods) (h : Tracked es periods as m L)
    {now : Time} (hhand : HandsOver periods m now) :
    Tracked es periods as (m.sweepServerSessions now) (Refines.sweepAs m L now) := by
  obtain ⟨hsweeps, hrefines⟩ := h.refines.sweep h.wf now
  have hsource : (m.sweepServerSessions now).sourceMap = m.sourceMap := by
    rw [h.wf.sweep_eq]
    rfl
  have hsession : ∀ {g s}, (m.sweepServerSessions now).session g = some s →
      m.session g = some s := by
    intro g s hs
    rw [h.wf.session_sweep] at hs
    split_ifs at hs
    exact hs
  refine ⟨h.come, h.wf.sweep now, hrefines, fun g => ?_, ?_, ?_, ?_, ?_, ?_, ?_⟩
  · unfold Ledger.pendingOf
    rcases hsweeps.cases g with ⟨β, hβ, -, hnone, hclosed⟩ | ⟨hpending, hclosed, -⟩
    · right
      rcases h.once g with ⟨hnil, hpending⟩ | ⟨hnone', -⟩
      · rw [Ledger.pendingOf, hβ] at hpending
        rw [hclosed, hnil, List.nil_append, ← hpending]
        exact ⟨hnone, rfl⟩
      · rw [hβ] at hnone'
        cases hnone'
    · rw [hpending, hclosed]
      exact h.once g
  · intro X b b' hbb hclosed'
    rcases hsweeps.cases b.1 with ⟨β, hβ, hexp, -, -⟩ | ⟨-, hclosed, -⟩
    · obtain ⟨s, hs, -⟩ := h.refines.session_of_pending hβ
      have hlive := (hhand X b b' hbb ((h.wf.mem_iff _).mpr ⟨s, hs⟩)
        ((h.refines.expired_iff hβ now).mpr hexp)).1
      exact h.carrying_ne_nil hlive
    · exact h.handed hbb (hclosed ▸ hclosed')
  · intro X l a hl hlive
    obtain ⟨s, hs⟩ := ((h.wf.sweep now).mem_iff _).mp hlive
    have hkept : m.expired now a.ph.guid = false := by
      rw [h.wf.session_sweep] at hs
      split_ifs at hs with hexp
      exact Bool.not_eq_true _ ▸ hexp
    rw [hsource, h.pointer hl ((h.wf.mem_iff _).mpr ⟨s, hsession hs⟩), h.wf.sweep_eq]
    change _ = subscript (m.without (m.expired now)).sessionMap a.ph.guid
    unfold subscript
    rw [without_sessionMap, hkept]
    rfl
  · intro X hnil
    rw [hsource]
    exact h.silent hnil
  · intro X b b' s hbb hcome hs
    exact h.linked hbb hcome (hsession hs)
  · intro g s hs hne
    exact h.unlinked (hsession hs) hne
  · rw [h.wf.sweep_eq]
    refine List.rel_append h.reports (Refines.forall₂_filterMap _ fun e he => ?_)
    have hexp := (List.mem_filter.mp he).2
    rcases hs : m.session e.1 with _ | s
    · simp [expired, hs] at hexp
    · obtain ⟨β, hβ, -⟩ := h.refines.pending_of_session hs
      refine Or.inr ⟨_, ⟨e.1, β⟩, by rw [finalReport, hs]; rfl, by rw [hβ]; rfl, ?_⟩
      exact h.covered_finalReport horder hhand hs hexp hβ

end Tracked

/-! ## Runs -/

/-- **Every point of an orderly run is tracked.** Source: `serversession.cc`. Kind: P -/
theorem tracked_run (horder : OrderlyRun keepalive es periods) {pre : List Event}
    (hpre : pre <+: es) :
    Tracked es periods (arrivals pre) ((machine keepalive).run pre) (ledgerOf keepalive pre) := by
  induction pre using List.reverseRecOn with
  | nil =>
      refine ⟨List.nil_prefix, wf_new keepalive, .new keepalive, fun g => Or.inl ⟨rfl, rfl⟩,
        fun _ hclosed => absurd rfl hclosed, fun hl => ?_, fun _ => ?_, fun _ hcome => ?_,
        fun hs => ?_, .nil⟩
      · exact absurd hl (List.append_ne_nil_of_right_ne_nil _ (List.cons_ne_nil _ _)).symm
      · simp [machine, ServerSessionManager.new, subscript]
      · exact absurd rfl hcome
      · simp [machine, ServerSessionManager.new, session, subscript] at hs
  | append_singleton pre e ih =>
      have h := ih ((List.prefix_append pre [e]).trans hpre)
      have he : e.Allocates ((machine keepalive).run pre) :=
        (((machine keepalive).always_concat ..).mp (horder.admissible.of_prefix _ hpre)).2
      have hhand := horder.handover pre e hpre
      have hcome := arrivals_prefix hpre
      rw [EventMachine.run_concat, ledgerOf_concat]
      rw [arrivals_concat] at hcome ⊢
      rcases e with ⟨a, mem, now⟩ | now | now
      · have hping := h.recordPing horder hcome he (horder.unreused pre a mem now hpre)
        exact hping.sweep horder (hhand _ rfl)
      · simp only [Event.arrival?, Option.toList_none, List.append_nil]
        change Tracked es periods (arrivals pre)
          (((machine keepalive).run pre).handleAlarm now) _
        unfold handleAlarm Ledger.next Event.sweep?
        by_cases hz : ((machine keepalive).run pre).intervalPacketsReceived = 0
        · have hdue : (Event.handleAlarm now).sweep? ((machine keepalive).run pre) =
              some ((machine keepalive).run pre, now) := by
            unfold Event.sweep?
            exact if_pos hz
          have hswept := h.sweep horder (hhand ((machine keepalive).run pre, now) hdue)
          simp only [if_pos hz]
          exact ⟨hswept.come, ⟨hswept.wf.nonnull, hswept.wf.stored⟩,
            ⟨hswept.refines.pending, hswept.refines.reports⟩, hswept.once, hswept.handed,
            hswept.pointer, hswept.silent, hswept.linked, hswept.unlinked, hswept.reports⟩
        · simp only [if_neg hz]
          exact ⟨h.come, ⟨h.wf.nonnull, h.wf.stored⟩, ⟨h.refines.pending, h.refines.reports⟩,
            h.once, h.handed, h.pointer, h.silent, h.linked, h.unlinked, h.reports⟩
      · simp only [Event.arrival?, Option.toList_none, List.append_nil]
        exact h.sweep horder (hhand _ rfl)

end UDPing.Server
