import UDPing.Server.Tracking

/-!
# Losses across measurement periods

* `Tracked.closed_perm`: once everything has been reported, the batches of a source that were
  closed are its periods.
* `exists_tiling`: the windows of its reports join up, from its first packet to its last.
* **`losses_telescope`**: so the target counts add up to the whole span, and each loss, also one
  between two periods, is counted in one report.
-/

namespace UDPing.Server

open Lib Serial ServerSessionManager

variable {keepalive : ℤ} {es : List Event} {periods : Source → List (Σ g, Batch g)}

/-- The reports labelled with the source `X`. Source: `statswriter.cc`, `writeStats`. Kind: D -/
def reportsFrom (X : Source) (m : ServerSessionManager) : List Report :=
  m.written.filter fun r => (r.peer, r.port) = X

/-- The positions at which packets were received. Source: none: abstract model. Kind: D -/
def received (f : Arrival) (as : List Arrival) : List ℤ := as.map fun a => (position f a : ℤ)

/-- The packets lost from `f` to `l`: the positions in between at which none was received.
Source: none: abstract model
Kind: D -/
def lost (f l : Arrival) (as : List Arrival) : Finset ℕ :=
  (Finset.range (position f l + 1)).filter fun k => ∀ a ∈ as, position f a ≠ k

/-! ## The batches of a source -/

/-- A batch is its GUID and its packets. Source: none: infrastructure. Kind: L -/
theorem sigma_batch_ext {b c : Σ g, Batch g} (hg : b.1 = c.1)
    (harrivals : b.2.arrivals = c.2.arrivals) : b = c := by
  obtain ⟨g, β⟩ := b
  obtain ⟨g', γ⟩ := c
  dsimp only at hg
  subst hg
  exact congrArg (Sigma.mk g) (Batch.arrivals_injective harrivals)

/-- No batch is closed twice. Source: none: infrastructure. Kind: L -/
theorem Tracked.nodup_closed {as : List Arrival} {m : ServerSessionManager} {L : Ledger}
    (h : Tracked es periods as m L) : L.closed.Nodup := by
  rw [List.nodup_iff_sublist]
  intro b hsub
  have htwo : List.Sublist [b.2.arrivals, b.2.arrivals] (L.closedOf b.1) := by
    have hfilter := hsub.filter fun c => c.1 = b.1
    unfold Ledger.closedOf
    simpa using hfilter.map fun c => c.2.arrivals
  have hlen := htwo.length_le
  rcases h.once b.1 with ⟨hnil, -⟩ | ⟨-, hone⟩
  · rw [hnil] at hlen
    simp at hlen
  · rw [hone] at hlen
    simp at hlen

/-- **Once everything has been reported, the closed batches of a source are its periods.**
Source: `serversession.cc`, `sweepServerSessions`
Kind: P -/
theorem Tracked.closed_perm {m : ServerSessionManager} {L : Ledger}
    (horder : OrderlyRun keepalive es periods) (h : Tracked es periods (arrivals es) m L)
    (hdone : ∀ g, g ∉ m.sessionMap) (X : Source) :
    (L.closed.filter fun b => b.2.first.source = X).Perm (periods X) := by
  have hperiods : (periods X).Nodup := List.Nodup.of_map Sigma.fst (horder.blocks X).nodup
  apply (List.perm_ext_iff_of_nodup (h.nodup_closed.filter _) hperiods).mpr
  intro b
  rw [List.mem_filter]
  constructor
  · rintro ⟨hb, hX⟩
    have hsource : b.2.first.source = X := of_decide_eq_true hX
    have hclosed : b.2.arrivals ∈ L.closedOf b.1 :=
      List.mem_map.mpr ⟨b, List.mem_filter.mpr ⟨hb, decide_eq_true rfl⟩, rfl⟩
    have hcarry : b.2.arrivals = carrying (arrivals es) b.1 := by
      rcases h.once b.1 with ⟨hnil, -⟩ | ⟨-, hone⟩
      · rw [hnil] at hclosed
        cases hclosed
      · rw [hone] at hclosed
        exact List.mem_singleton.mp hclosed
    have hfirst : b.2.first ∈ carrying (arrivals es) b.1 := hcarry ▸ List.mem_cons_self
    obtain ⟨hin, hg⟩ := List.mem_filter.mp hfirst
    obtain ⟨c, hc, hcg⟩ := horder.exists_period hin
    rw [hsource] at hc
    have hkey : b.1 = c.1 := (of_decide_eq_true hg).symm.trans hcg.symm
    have harrivals : b.2.arrivals = c.2.arrivals :=
      hcarry.trans ((congrArg (carrying (arrivals es)) hkey).trans (horder.carrying_all hc))
    rw [sigma_batch_ext hkey harrivals]
    exact hc
  · intro hb
    have hfirst := horder.mem_arrivals hb List.mem_cons_self
    have hcarry := horder.carrying_all hb
    have hclosed := h.closed_of_not_mem (hdone b.1)
      (by rw [hcarry]; exact List.cons_ne_nil _ _)
    obtain ⟨as, has⟩ := List.exists_mem_of_ne_nil _ hclosed
    obtain ⟨c, hc, rfl⟩ := List.mem_map.mp has
    have hcg := (List.mem_filter.mp hc).2
    have hone : c.2.arrivals = carrying (arrivals es) b.1 := by
      rcases h.once b.1 with ⟨hnil, -⟩ | ⟨-, hone⟩
      · exact absurd hnil hclosed
      · rw [hone] at has
        exact List.mem_singleton.mp has
    obtain rfl := sigma_batch_ext (of_decide_eq_true hcg) (hone.trans hcarry)
    exact ⟨(List.mem_filter.mp hc).1, decide_eq_true (horder.source_eq hb hfirst (c.2.carries _ List.mem_cons_self))⟩

/-! ## The windows of a source's reports -/

/-- The numbers of a source's packets rise, if no number comes twice.
Source: none: infrastructure
Kind: L -/
theorem OrderlyRun.sorted_received (horder : OrderlyRun keepalive es periods) {X : Source}
    {f : Arrival} (hf : (fromSource (arrivals es) X).head? = some f)
    (hnodup : ((fromSource (arrivals es) X).map fun a => a.ph.seqNum).Nodup) :
    (received f (fromSource (arrivals es) X)).Pairwise (· < ·) := by
  have hchain : (received f (fromSource (arrivals es) X)).IsChain (· ≤ ·) := by
    rw [received, List.isChain_map]
    apply List.IsChain.imp_of_mem_imp _ (horder.inStep X)
    intro a a' ha _ hstep
    have hpos := position_step (horder.span X f hf a ha) hstep
    omega
  have hdistinct : (received f (fromSource (arrivals es) X)).Nodup := by
    have hmap : received f (fromSource (arrivals es) X) =
        ((fromSource (arrivals es) X).map fun a => a.ph.seqNum).map
          fun q => ((q - f.ph.seqNum).toNat : ℤ) := by
      rw [List.map_map]
      rfl
    rw [hmap]
    apply hnodup.map
    intro q q' hq
    have hsub : q - f.ph.seqNum = q' - f.ph.seqNum := UInt32.toNat_inj.mp (Nat.cast_injective hq)
    grind
  exact (hchain.pairwise.and hdistinct).imp fun h => lt_of_le_of_ne h.1 h.2

/-- The positions of a batch whose numbers rise lie between the first and the last.
Source: none: infrastructure
Kind: L -/
theorem Batch.position_bounds {g : Bytes} (b : Batch g) {f : Arrival}
    (hsorted : (received f b.arrivals).Pairwise (· < ·)) :
    ∀ z ∈ received f b.arrivals, (position f b.first : ℤ) ≤ z ∧ z ≤ position f b.last := by
  intro z hz
  have hle : (received f b.arrivals).Pairwise (· ≤ ·) := hsorted.imp le_of_lt
  have hlast := hle.rel_getLast hz
  have hne : received f b.arrivals ≠ [] := List.cons_ne_nil _ _
  have hmap : (received f b.arrivals).getLast hne = position f b.last := List.getLast_map ..
  exact ⟨hle.rel_head hz, hmap ▸ hlast⟩

/-- What the report `r` says of its window: how large it is and, of packets that are received once,
how many numbers of it are missing.
Source: `serversession.cc`, `writeStats`
Kind: D -/
def Counts (zs : List ℤ) (r : Report) (W : Window) : Prop :=
  (r.stats.targetCount.toNat : ℤ) = W.size ∧
    (zs.Pairwise (· < ·) → (r.stats.targetCount.toNat : ℤ) - r.stats.count = W.missing zs)

/-- The number at which the window of `b` ends, `br` being the periods behind it.
Source: none: abstract model
Kind: D -/
def endOf (f : Arrival) (b : Σ g, Batch g) (br : List (Σ g, Batch g)) : ℤ :=
  br.head?.elim (position f b.2.last + 1 : ℤ) fun b' => position f b'.2.first

/-- **The window of one report** goes from the first packet of its period up to the end, and it
counts what is missing there.
Source: `serversession.cc`, `sweepServerSessions`, `writeStats`
Kind: P -/
theorem exists_window (horder : OrderlyRun keepalive es periods) {X : Source} {f : Arrival}
    (hf : (fromSource (arrivals es) X).head? = some f) {bl br : List (Σ g, Batch g)}
    {b : Σ g, Batch g} (hX : periods X = bl ++ b :: br) {r : Report} (hreport : ReportOf r b)
    (hcovered : Covered es periods r b) :
    ∃ W : Window, W.lo = position f b.2.first ∧ W.hi + 1 = endOf f b br ∧
      Counts (received f (fromSource (arrivals es) X)) r W := by
  have hb : b ∈ periods X := by rw [hX]; simp
  obtain ⟨W, hsize, hlo, hnext, hlast⟩ := hcovered X f hf b hb rfl
  have hspan := horder.span_period hf hb
  have hspan_last := hspan b.2.last (List.getLast_mem _)
  have hend : W.hi + 1 = endOf f b br ∧ W.hi + 1 < 2 ^ 31 := by
    rcases br with _ | ⟨b', br⟩
    · have hhi := hlast fun b' hbb => by
        have hblocks := horder.blocks X
        rw [hX] at hblocks hbb
        exact hblocks.not_follows_last hbb rfl
      rw [hhi]
      exact ⟨rfl, by exact_mod_cast hspan_last⟩
    · have hhi := hnext b' ⟨bl, br, hX⟩
      have hb' : b' ∈ periods X := by rw [hX]; simp
      have hspan' := horder.span_period hf hb' b'.2.first List.mem_cons_self
      rw [hhi]
      constructor
      · exact sub_add_cancel _ _
      · omega
  refine ⟨W, hlo, hend.1, hsize, fun hsorted => ?_⟩
  have hsplit : received f (fromSource (arrivals es) X) =
      received f (bl.flatMap fun b => b.2.arrivals) ++ (received f b.2.arrivals ++
        received f (br.flatMap fun b => b.2.arrivals)) := by
    rw [(horder.blocks X).split, hX, List.flatMap_append, List.flatMap_cons]
    simp only [received, List.map_append]
  rw [hsplit] at hsorted ⊢
  obtain ⟨-, hqr, hpqr⟩ := List.pairwise_append.mp hsorted
  obtain ⟨hq, hr, hqr'⟩ := List.pairwise_append.mp hqr
  have hbounds := b.2.position_bounds hq
  have hfirst : W.lo ∈ received f b.2.arrivals := by
    rw [hlo]
    exact List.mem_map_of_mem (f := fun a => (position f a : ℤ)) List.mem_cons_self
  -- what lies behind the period does not come before the window's end
  have hbehind : (∀ z ∈ received f b.2.arrivals, z ≤ W.hi) ∧
      ∀ z ∈ received f (br.flatMap fun b => b.2.arrivals), W.hi < z := by
    rcases br with _ | ⟨b', br⟩
    · have hhi : W.hi = position f b.2.last := by simpa [endOf] using hend.1
      rw [hhi]
      exact ⟨fun z hz => (hbounds z hz).2, fun z hz => absurd hz List.not_mem_nil⟩
    · have hhi : W.hi + 1 = position f b'.2.first := hend.1
      have hnext : (position f b'.2.first : ℤ) ∈
          received f ((b' :: br).flatMap fun b => b.2.arrivals) :=
        List.mem_cons_self
      constructor
      · intro z hz
        have := hqr' z hz _ hnext
        omega
      · intro z hz
        have hle := (hr.imp le_of_lt).rel_head hz
        have hhead : (received f ((b' :: br).flatMap fun b => b.2.arrivals)).head
            (List.ne_nil_of_mem hz) = position f b'.2.first := rfl
        rw [hhead] at hle
        omega
  have hmissing := Window.missing_of_passes (W := W) (hsorted.imp fun h => ne_of_lt h)
    (fun z hz => hpqr z hz W.lo (List.mem_append_left _ hfirst))
    (fun z hz => ⟨hlo ▸ (hbounds z hz).1, hbehind.1 z hz⟩) hbehind.2
  -- the count does not overflow
  have hlength : (received f b.2.arrivals).length = b.2.arrivals.length := List.length_map ..
  have hcount : r.stats.count = b.2.arrivals.length := by
    rw [hreport.accounts.2.count]
    have hsize' : W.size = W.hi - W.lo + 1 := rfl
    have hlt := hend.2
    apply cInt_of_range
    · omega
    · rw [hlength] at hmissing
      omega
  rw [hmissing, hsize, hcount, hlength]

/-- **The windows of a source's reports join up**, from the first packet of a period to the last
packet of the source.
Source: `serversession.cc`, `sweepServerSessions`
Kind: P -/
theorem exists_tiling (horder : OrderlyRun keepalive es periods) {X : Source} {f : Arrival}
    (hf : (fromSource (arrivals es) X).head? = some f) {bl br : List (Σ g, Batch g)}
    {b : Σ g, Batch g} (hX : periods X = bl ++ b :: br) {rs : List Report}
    (hrs : List.Forall₂ (fun r b => ReportOf r b ∧ Covered es periods r b) rs (b :: br)) :
    ∃ Ws, Window.Tiles (position f b.2.first) Ws
        (position f ((b :: br).getLast (List.cons_ne_nil b br)).2.last + 1) ∧
      List.Forall₂ (Counts (received f (fromSource (arrivals es) X))) rs Ws := by
  induction br generalizing bl b rs with
  | nil =>
      obtain ⟨r, rs, ⟨hreport, hcovered⟩, hnil, rfl⟩ := List.forall₂_cons_right_iff.mp hrs
      rw [List.forall₂_nil_right_iff] at hnil
      subst hnil
      obtain ⟨W, hlo, hend, hcounts⟩ := exists_window horder hf hX hreport hcovered
      exact ⟨[W], ⟨hlo, hend⟩, .cons hcounts .nil⟩
  | cons b' br ih =>
      obtain ⟨r, rs, ⟨hreport, hcovered⟩, hrest, rfl⟩ := List.forall₂_cons_right_iff.mp hrs
      obtain ⟨W, hlo, hend, hcounts⟩ := exists_window horder hf hX hreport hcovered
      have hX' : periods X = (bl ++ [b]) ++ b' :: br := by
        rw [hX, List.append_assoc]
        rfl
      obtain ⟨Ws, htiles, hWs⟩ := ih hX' hrest
      refine ⟨W :: Ws, ⟨hlo, ?_⟩, .cons hcounts hWs⟩
      rw [hend, List.getLast_cons (List.cons_ne_nil b' br)]
      exact htiles

/-! ## The result -/

/-- The first and the last packet of a source are those of its first and last period.
Source: none: infrastructure
Kind: L -/
theorem OrderlyRun.periods_ends (horder : OrderlyRun keepalive es periods) {X : Source}
    {f l : Arrival} (hf : (fromSource (arrivals es) X).head? = some f)
    (hl : (fromSource (arrivals es) X).getLast? = some l) :
    ∃ b br, periods X = b :: br ∧ b.2.first = f ∧
      ((b :: br).getLast (List.cons_ne_nil b br)).2.last = l := by
  have hsplit := (horder.blocks X).split
  rcases hX : periods X with _ | ⟨b, br⟩
  · rw [hsplit, hX] at hf
    cases hf
  · refine ⟨b, br, rfl, ?_, ?_⟩
    · rw [hsplit, hX, List.flatMap_cons] at hf
      exact Option.some.inj hf
    · have hdrop := List.dropLast_append_getLast (List.cons_ne_nil b br)
      rw [hsplit, hX, ← hdrop, List.flatMap_append, List.flatMap_cons, List.flatMap_nil,
        List.append_nil] at hl
      have hne : ((b :: br).getLast (List.cons_ne_nil b br)).2.arrivals ≠ [] := List.cons_ne_nil _ _
      rw [List.getLast?_append_of_ne_nil _ hne, List.getLast?_eq_some_getLast hne] at hl
      exact Option.some.inj hl

/-- The gaps of a source's numbers are its lost packets. Source: none: infrastructure. Kind: L -/
theorem card_lost (f l : Arrival) (as : List Arrival) :
    ((Finset.Ico 0 (position f l + 1 : ℤ)).filter (· ∉ received f as)).card =
      (lost f l as).card := by
  have hcast : Function.Injective ((↑) : ℕ → ℤ) := Nat.cast_injective
  rw [← Finset.card_image_of_injective (lost f l as) hcast]
  congr 1
  ext z
  simp only [lost, received, Finset.mem_filter, Finset.mem_Ico, Finset.mem_image, Finset.mem_range,
    List.mem_map, not_exists, not_and]
  constructor
  · rintro ⟨⟨hz, hzl⟩, hnot⟩
    obtain ⟨k, rfl⟩ := Int.eq_ofNat_of_zero_le hz
    exact ⟨k, ⟨by omega, fun a ha hk => hnot a ha (by rw [hk])⟩, rfl⟩
  · rintro ⟨k, ⟨hk, hnot⟩, rfl⟩
    exact ⟨⟨by omega, by omega⟩, fun a ha hz => hnot a ha (by omega)⟩

/-- Lists that agree place by place. Source: none: infrastructure. Kind: L -/
theorem map_eq_of_forall₂ {α β γ : Type*} {g : α → γ} {h : β → γ} {as : List α} {bs : List β}
    (hall : List.Forall₂ (fun a b => g a = h b) as bs) : as.map g = bs.map h := by
  rw [← List.forall₂_eq_eq_eq, List.forall₂_map_left_iff, List.forall₂_map_right_iff]
  exact hall

/-- **Loss accounting telescopes.** Once every session of an orderly run has been reported, the
target counts of a source's reports add up to the span of its numbers. If no number came twice, then
what the counts leave of them is the number of packets lost; and the reports, in some order, stand
for windows that join up over that span, each report counting the losses in its own window.
Source: `serversession.cc`, `getServerSession`, `sweepServerSessions`, `recordSeq`, `writeStats`
Kind: P -/
theorem losses_telescope (horder : OrderlyRun keepalive es periods)
    (hdone : ∀ g, g ∉ ((machine keepalive).run es).sessionMap) {X : Source} {f l : Arrival}
    (hf : (fromSource (arrivals es) X).head? = some f)
    (hl : (fromSource (arrivals es) X).getLast? = some l) :
    ((reportsFrom X ((machine keepalive).run es)).map fun r => r.stats.targetCount.toNat).sum =
        (l.ph.seqNum - f.ph.seqNum).toNat + 1 ∧
      (((fromSource (arrivals es) X).map fun a => a.ph.seqNum).Nodup →
        ((reportsFrom X ((machine keepalive).run es)).map fun r =>
            (r.stats.targetCount.toNat : ℤ) - r.stats.count).sum =
          (lost f l (fromSource (arrivals es) X)).card ∧
        ∃ rs Ws, rs.Perm (reportsFrom X ((machine keepalive).run es)) ∧
          Window.Tiles 0 Ws (position f l + 1) ∧
          List.Forall₂ (fun r (W : Window) => (r.stats.targetCount.toNat : ℤ) = W.size ∧
            (r.stats.targetCount.toNat : ℤ) - r.stats.count =
              W.missing (received f (fromSource (arrivals es) X))) rs Ws ∧
          ∀ k ∈ lost f l (fromSource (arrivals es) X), ∃! i : Fin Ws.length,
            (Ws.get i).Covers k) := by
  have htracked := tracked_run horder List.prefix_rfl
  -- the reports of the source are those of its periods
  have hreports : List.Forall₂ (fun r b => ReportOf r b ∧ Covered es periods r b)
      (reportsFrom X ((machine keepalive).run es))
      ((ledgerOf keepalive es).closed.filter fun b => b.2.first.source = X) := by
    have hall : List.Forall₂ (fun r b => ReportOf r b ∧ Covered es periods r b)
        ((machine keepalive).run es).written (ledgerOf keepalive es).closed :=
      List.Forall₂.mp (fun _ _ hr hc => ⟨hr, hc⟩) htracked.refines.reports htracked.reports
    refine List.rel_filter ?_ hall
    intro r b hrb
    obtain ⟨hpeer, hport⟩ := hrb.1.label
    simp only [Arrival.source, hpeer, hport, decide_eq_true_eq]
    exact decide_eq_true_iff.symm
  obtain ⟨rs, hperm, hperiods⟩ : ∃ rs, List.Perm rs (reportsFrom X ((machine keepalive).run es)) ∧
      List.Forall₂ (fun r b => ReportOf r b ∧ Covered es periods r b) rs (periods X) := by
    have hcomp : Relation.Comp (List.Forall₂ fun r b => ReportOf r b ∧ Covered es periods r b)
        List.Perm (reportsFrom X ((machine keepalive).run es)) (periods X) :=
      ⟨_, hreports, htracked.closed_perm horder hdone X⟩
    rw [List.forall₂_comp_perm_eq_perm_comp_forall₂] at hcomp
    obtain ⟨rs, hperm, hrs⟩ := hcomp
    exact ⟨rs, hperm.symm, hrs⟩
  obtain ⟨b, br, hX, rfl, rfl⟩ := horder.periods_ends hf hl
  rw [hX] at hperiods
  obtain ⟨Ws, htiles, hWs⟩ := exists_tiling horder hf (hX.trans (List.nil_append _).symm) hperiods
  rw [position_self, Nat.cast_zero] at htiles
  constructor
  · have hsizes := map_eq_of_forall₂ (hWs.imp fun r W h => h.1)
    have hsum := (hperm.map fun r => (r.stats.targetCount.toNat : ℤ)).sum_eq
    rw [hsizes, htiles.sum_size, sub_zero] at hsum
    rw [← Nat.cast_inj (R := ℤ), Nat.cast_list_sum, List.map_map]
    exact hsum.symm
  · intro hnodup
    have hsorted := horder.sorted_received hf hnodup
    have hcounts := hWs.imp fun r W h => And.intro h.1 (h.2 hsorted)
    refine ⟨?_, rs, Ws, hperm, htiles, hcounts, fun k hk => ?_⟩
    swap
    · have hrange := (Finset.mem_filter.mp hk).1
      rw [Finset.mem_range] at hrange
      exact htiles.existsUnique_covers (by omega) (by omega)
    have hlosses := map_eq_of_forall₂ (hcounts.imp fun r W h => h.2)
    have hsum := (hperm.map fun r => (r.stats.targetCount.toNat : ℤ) - r.stats.count).sum_eq
    rw [← hsum, hlosses, ← card_lost, ← htiles.sum_missing, Nat.cast_list_sum, List.map_map]
    rfl

/-! ### Two periods of one source -/

/-- A period of two packets and one of one packet, with losses inside of the first and between the
two.
Source: `serversession.cc`, `getServerSession`, `sweepServerSessions`
Kind: D -/
def gapRun : List Event :=
  [.receivePing (probe (ascii "a") 0 0) ⟨0, 0⟩ 0, .receivePing (probe (ascii "a") 2 1) ⟨1, 0⟩ 1,
    .receivePing (probe (ascii "b") 5 50) ⟨1, 0⟩ 50, .sweep 100, .sweep 200]

/-- The first period of `gapRun`. Source: none: example. Kind: D -/
def gapFirst : Σ g, Batch g :=
  ⟨ascii "a", ⟨probe (ascii "a") 0 0, [probe (ascii "a") 2 1], by decide⟩⟩

/-- The second period of `gapRun`. Source: none: example. Kind: D -/
def gapSecond : Σ g, Batch g := ⟨ascii "b", ⟨probe (ascii "b") 5 50, [], by decide⟩⟩

/-- The periods of `gapRun`. Source: none: example. Kind: D -/
def gapPeriods (X : Source) : List (Σ g, Batch g) :=
  if X = (ascii "h", 5000) then [gapFirst, gapSecond] else []

instance : DecidableRel InStep := fun a a' =>
  inferInstanceAs (Decidable ((a'.ph.seqNum - a.ph.seqNum).toNat ≤ 9 ∧
    (a.ph.guid ≠ a'.ph.guid → a'.ph.seqNum ≠ a.ph.seqNum)))

/-- An event of a run and the run before it. Source: none: infrastructure. Kind: L -/
theorem take_of_concat_prefix {α : Type*} {pre l : List α} {e : α} (h : pre ++ [e] <+: l) :
    pre = l.take pre.length ∧ l[pre.length]? = some e := by
  obtain ⟨post, rfl⟩ := h
  simp

/-- Nothing came from another source. Source: none: example. Kind: L -/
theorem fromSource_gapRun {X : Source} (hX : X ≠ (ascii "h", 5000)) :
    fromSource (arrivals gapRun) X = [] := by
  apply List.filter_eq_nil_iff.mpr
  intro a ha hsource
  have hall : ∀ a ∈ arrivals gapRun, a.source = (ascii "h", 5000) := by decide
  exact hX ((of_decide_eq_true hsource).symm.trans (hall a ha))

/-- One period follows another. Source: none: example. Kind: L -/
theorem follows_gapPeriods {X : Source} {b b' : Σ g, Batch g} (h : Follows (gapPeriods X) b b') :
    b = gapFirst ∧ b' = gapSecond := by
  obtain ⟨bl, br, hbs⟩ := h
  unfold gapPeriods at hbs
  split_ifs at hbs
  · rcases bl with _ | ⟨c, bl⟩
    · obtain ⟨rfl, hrest⟩ := List.cons.inj hbs
      exact ⟨rfl, (List.cons.inj hrest).1.symm⟩
    · have hlen := congrArg List.length hbs
      simp at hlen
      omega
  · exact absurd hbs (List.append_ne_nil_of_right_ne_nil bl (List.cons_ne_nil _ _)).symm

theorem orderlyRun_gapRun : OrderlyRun 60 gapRun gapPeriods where
  admissible := by decide
  blocks := by
    intro X
    unfold gapPeriods
    split_ifs with hX
    · subst hX
      exact ⟨by decide, by decide, by decide, by decide⟩
    · rw [fromSource_gapRun hX]
      exact ⟨rfl, by simp, by simp, List.nodup_nil⟩
  guid_ne_nil := by decide
  unshared := by decide
  start := by decide
  inStep := by
    intro X
    by_cases hX : X = (ascii "h", 5000)
    · subst hX
      decide
    · rw [fromSource_gapRun hX]
      exact .nil
  span := by
    intro X f hf
    by_cases hX : X = (ascii "h", 5000)
    · subst hX
      obtain rfl : probe (ascii "a") 0 0 = f := Option.some.inj hf
      decide
    · rw [fromSource_gapRun hX] at hf
      cases hf
  unreused := by
    intro pre a mem now hpre
    obtain ⟨htake, he⟩ := take_of_concat_prefix hpre
    have hlt : pre.length < gapRun.length := (List.getElem?_eq_some_iff.mp he).1
    have hall : ∀ n < gapRun.length, ∀ a ∈ gapRun[n]?.bind Event.arrival?,
        a.ph.guid ∉ ((machine 60).run (gapRun.take n)).sessionMap →
          ∀ a' ∈ arrivals (gapRun.take n), a'.ph.guid ≠ a.ph.guid := by
      decide
    rw [htake]
    exact hall _ hlt a (by rw [he]; rfl)
  handover := by
    intro pre e hpre x hx X b b' hbb
    obtain ⟨htake, he⟩ := take_of_concat_prefix hpre
    have hlt : pre.length < gapRun.length := (List.getElem?_eq_some_iff.mp he).1
    obtain ⟨rfl, rfl⟩ := follows_gapPeriods hbb
    have hall : ∀ n < gapRun.length,
        ∀ x ∈ gapRun[n]?.bind (Event.sweep? ((machine 60).run (gapRun.take n))),
          gapFirst.1 ∈ x.1.sessionMap → x.1.expired x.2 gapFirst.1 →
            gapSecond.1 ∈ x.1.sessionMap := by
      decide
    intro hlive hexp
    refine ⟨hall _ hlt x (by rw [he, ← htake]; exact hx) hlive hexp, fun hearlier => ?_⟩
    exact absurd hearlier.2 (by decide)

theorem losses_telescope_gapRun :
    ((reportsFrom (ascii "h", 5000) ((machine 60).run gapRun)).map
        fun r => r.stats.targetCount.toNat).sum = 6 ∧
      ((reportsFrom (ascii "h", 5000) ((machine 60).run gapRun)).map
        fun r => (r.stats.targetCount.toNat : ℤ) - r.stats.count).sum = 3 := by
  have hempty : ((machine 60).run gapRun).sessionMap.isEmpty = true := by decide
  have hdone : ∀ g, g ∉ ((machine 60).run gapRun).sessionMap := by
    intro g hg
    have hne := Std.ExtTreeMap.isEmpty_iff.mp hempty
    rw [hne] at hg
    exact Std.ExtTreeMap.not_mem_empty hg
  obtain ⟨htarget, hlosses⟩ := losses_telescope orderlyRun_gapRun hdone
    (X := (ascii "h", 5000)) (f := probe (ascii "a") 0 0) (l := probe (ascii "b") 5 50)
    (by decide) (by decide)
  refine ⟨htarget, (hlosses (by decide)).1.trans ?_⟩
  decide

end UDPing.Server
