import UDPing.Lib.GapWindow
import UDPing.Lib.Serial
import UDPing.Server.Conservation

/-!
# The sequence window of a session

A session's `minSeq` and `maxSeq` are the serial numbers of the ends of a gap window of width `10`
(`Shows`), as long as the true numbers of its packets are not almost a turn apart.

* `Shows.recordSeq`, `Batch.shows`: the window of a session is the one its packets feed.
* `Shows.targetCount`: the target count of a report is the size of the window.
* **`recordSeq_hull`**: where no number lies further than `9` beyond those before, the window is the
  hull of the numbers, across the wrap of the counter. `Batch.losses_of_near`: so the report counts
  the losses.
* **`count_le_targetCount_iff`**: of packets with distinct numbers, the target count is at least
  the count exactly when at most as many packets lie outside of the window as numbers inside of it
  never arrived. The ends of the window are characterised without the algorithm.
* `drop_negative`: one burst of losses separates the two counters for good.
-/

namespace UDPing.Server

open Lib Serial ServerSessionManager

/-! ## Windows of true numbers -/

/-- The session's sequence window is `W`, seen modulo `2 ^ 32`.
Source: `serversession.h`, `minSeq`, `maxSeq`
Kind: D -/
structure Shows (s : ServerSession) (W : Window) : Prop where
  /-- The lower end. -/
  minSeq : s.minSeq = ofTrue W.lo
  /-- The upper end. -/
  maxSeq : s.maxSeq = ofTrue W.hi

theorem toNat_ten : (10 : UInt32).toNat = 10 := rfl

/-- Raising the upper end, on true numbers. Source: `serversession.cc`, `recordSeq`. Kind: L -/
theorem raise_ofTrue {hi z : ℤ} (hlo : hi - z ≤ 2 ^ 32 - 10) (hhi : z - hi < 2 ^ 32) :
    ServerSession.raise (ofTrue hi) (ofTrue z) =
      ofTrue (if hi < z ∧ z < hi + 10 then z else hi) := by
  have hiff := window_iff (a := z) (b := hi) 10 (by rw [toNat_ten]; omega) hhi
  unfold ServerSession.raise
  by_cases hz : hi < z ∧ z < hi + 10
  · rw [if_pos (hiff.mpr hz), if_pos hz]
  · rw [if_neg fun hc => hz (hiff.mp hc), if_neg hz]

/-- Lowering the lower end, on true numbers. Source: `serversession.cc`, `recordSeq`. Kind: L -/
theorem lower_ofTrue {lo z : ℤ} (hlo : z - lo ≤ 2 ^ 32 - 10) (hhi : lo - z < 2 ^ 32) :
    ServerSession.lower (ofTrue lo) (ofTrue z) =
      ofTrue (if z < lo ∧ lo < z + 10 then z else lo) := by
  have hiff := window_iff (a := lo) (b := z) 10 (by rw [toNat_ten]; omega) hhi
  unfold ServerSession.lower
  by_cases hz : z < lo ∧ lo < z + 10
  · rw [if_pos (hiff.mpr hz), if_pos hz]
  · rw [if_neg fun hc => hz (hiff.mp hc), if_neg hz]

namespace Shows

variable {s : ServerSession} {W : Window}

/-- **Recording a number extends the window**, unless the number is almost a turn away.
Source: `serversession.cc`, `ServerSession::recordSeq`
Kind: P -/
theorem recordSeq (h : Shows s W) {z : ℤ} (hlo : |z - W.lo| ≤ 2 ^ 32 - 10)
    (hhi : |z - W.hi| ≤ 2 ^ 32 - 10) : Shows (s.recordSeq (ofTrue z)) (W.extend 10 z) := by
  rw [abs_le] at hlo hhi
  rw [ServerSession.recordSeq_eq]
  constructor
  · change ServerSession.lower s.minSeq (ofTrue z) = _
    rw [h.minSeq, lower_ofTrue (by omega) (by omega)]
    rfl
  · change ServerSession.raise s.maxSeq (ofTrue z) = _
    rw [h.maxSeq, raise_ofTrue (by omega) (by omega)]
    rfl

/-- Absorbing a packet extends the window by its number.
Source: `serversession.cc`, `receivePing`
Kind: L -/
theorem absorb (h : Shows s W) {a : Arrival} {z : ℤ} (hz : a.ph.seqNum = ofTrue z)
    (hlo : |z - W.lo| ≤ 2 ^ 32 - 10) (hhi : |z - W.hi| ≤ 2 ^ 32 - 10) :
    Shows (s.absorb a) (W.extend 10 z) := by
  have hrec := h.recordSeq hlo hhi
  rw [← hz, ServerSession.recordSeq_eq] at hrec
  rw [ServerSession.absorb_eq]
  exact ⟨hrec.minSeq, hrec.maxSeq⟩

/-- A window inside an interval of almost a turn, and a number of the interval.
Source: none: infrastructure
Kind: L -/
theorem reach_of_within {c z : ℤ} (hW : c ≤ W.lo ∧ W.hi < c + (2 ^ 32 - 9))
    (hz : c ≤ z ∧ z < c + (2 ^ 32 - 9)) :
    (|z - W.lo| ≤ 2 ^ 32 - 10 ∧ |z - W.hi| ≤ 2 ^ 32 - 10) ∧
      c ≤ (W.extend 10 z).lo ∧ (W.extend 10 z).hi < c + (2 ^ 32 - 9) := by
  have hle := W.le
  obtain ⟨hlo, hhi⟩ := Window.extend_within (w := 10) hW.1 (Int.le_sub_one_of_lt hW.2)
    ⟨hz.1, Int.le_sub_one_of_lt hz.2⟩
  refine ⟨?_, hlo, Int.lt_of_le_sub_one hhi⟩
  rw [abs_le, abs_le]
  omega

/-- A window inside an interval of almost a turn, fed with numbers of the interval.
Source: `serversession.cc`, `ServerSession::recordSeq`
Kind: L -/
theorem foldl_recordSeq {c : ℤ} {zs : List ℤ} (h : Shows s W)
    (hW : c ≤ W.lo ∧ W.hi < c + (2 ^ 32 - 9)) (hzs : ∀ z ∈ zs, c ≤ z ∧ z < c + (2 ^ 32 - 9)) :
    Shows (zs.foldl (fun s z => s.recordSeq (ofTrue z)) s) (W.feed 10 zs) := by
  induction zs generalizing s W with
  | nil => exact h
  | cons z zs ih =>
      obtain ⟨hreach, hwithin⟩ := reach_of_within hW (hzs z List.mem_cons_self)
      rw [List.foldl_cons, Window.feed_cons]
      exact ih (h.recordSeq hreach.1 hreach.2) hwithin fun z' hz' =>
        hzs z' (List.mem_cons_of_mem z hz')

/-- A window inside an interval of almost a turn, fed with the numbers of packets.
Source: `serversession.cc`, `receivePing`
Kind: L -/
theorem foldl_absorb {c : ℤ} {as : List Arrival} {zs : List ℤ} (h : Shows s W)
    (hW : c ≤ W.lo ∧ W.hi < c + (2 ^ 32 - 9)) (hzs : ∀ z ∈ zs, c ≤ z ∧ z < c + (2 ^ 32 - 9))
    (hseq : as.map (fun a => a.ph.seqNum) = zs.map ofTrue) :
    Shows (as.foldl ServerSession.absorb s) (W.feed 10 zs) := by
  induction zs generalizing s W as with
  | nil =>
      rw [List.map_eq_nil_iff.mp hseq]
      exact h
  | cons z zs ih =>
      obtain ⟨a, as, rfl, ha, has⟩ := List.map_eq_cons_iff.mp hseq
      obtain ⟨hreach, hwithin⟩ := reach_of_within hW (hzs z List.mem_cons_self)
      rw [List.foldl_cons, Window.feed_cons]
      exact ih (h.absorb ha hreach.1 hreach.2) hwithin
        (fun z' hz' => hzs z' (List.mem_cons_of_mem z hz')) has

/-- **The target count is the size of the window.**
Source: `serversession.cc`, `ServerSession::writeStats`
Kind: P -/
theorem targetCount (h : Shows s W) (hW : W.size < 2 ^ 32) (now : Time) :
    ((s.writeStats now).stats.targetCount.toNat : ℤ) = W.size := by
  have hle := W.le
  have htarget : (s.writeStats now).stats.targetCount = ofTrue (1 + W.hi - W.lo) := by
    change 1 + s.maxSeq - s.minSeq = _
    rw [h.minSeq, h.maxSeq, ofTrue_sub, ofTrue_add, ofTrue_one]
  unfold Window.size at hW ⊢
  rw [htarget, toNat_ofTrue_of_lt (by omega) (by omega)]
  omega

/-- Closing a session records one number more or none. Source: `serversession.cc`,
`sweepServerSessions`. Kind: L -/
theorem closeWith (h : Shows s W) {tail : Option ℤ}
    (htail : ∀ t ∈ tail, |t - W.lo| ≤ 2 ^ 32 - 10 ∧ |t - W.hi| ≤ 2 ^ 32 - 10) :
    Shows (s.closeWith (tail.map ofTrue)) (W.feed 10 tail.toList) := by
  cases tail with
  | none => exact h
  | some t =>
      obtain ⟨hlo, hhi⟩ := htail t rfl
      exact h.recordSeq hlo hhi

end Shows

/-- **The window of a batch** whose true numbers lie in an interval of almost a turn.
Source: `serversession.cc`, `receivePing`
Kind: P -/
theorem Batch.shows {g : Bytes} (b : Batch g) {c z₀ : ℤ} {zs : List ℤ}
    (hseq : b.arrivals.map (fun a => a.ph.seqNum) = (z₀ :: zs).map ofTrue)
    (hspan : ∀ z ∈ z₀ :: zs, c ≤ z ∧ z < c + (2 ^ 32 - 9)) :
    Shows b.session ((Window.single z₀).feed 10 zs) := by
  obtain ⟨hfirst, hrest⟩ := List.cons_eq_cons.mp hseq
  have hz₀ := hspan z₀ List.mem_cons_self
  have hcreate : Shows (ServerSession.create b.first.peer b.first.port b.first.ph)
      (Window.single z₀) := ⟨hfirst, hfirst⟩
  have hW : (Window.single z₀).extend 10 z₀ = Window.single z₀ := by
    simp [Window.extend, Window.single]
  have habsorb : Shows ((ServerSession.create b.first.peer b.first.port b.first.ph).absorb b.first)
      (Window.single z₀) := by
    have h := hcreate.absorb (z := z₀) hfirst (by simp [Window.single]) (by simp [Window.single])
    rwa [hW] at h
  exact habsorb.foldl_absorb hz₀ (fun z hz => hspan z (List.mem_cons_of_mem z₀ hz)) hrest

/-- The count of a batch is how many numbers it has. Source: `serversession.cc`, `receivePing`.
Kind: L -/
theorem Batch.count_eq {g : Bytes} (b : Batch g) {zs : List ℤ}
    (hseq : b.arrivals.map (fun a => a.ph.seqNum) = zs.map ofTrue) :
    b.session.stats.count = cInt zs.length := by
  have hlength := congrArg List.length hseq
  rw [List.length_map, List.length_map] at hlength
  rw [b.accounts.count, hlength]

/-! ## Without long gaps -/

/-- The least of the numbers so far. Source: none: infrastructure. Kind: L -/
theorem isLeast_foldl_min (z₀ : ℤ) (zs : List ℤ) : IsLeast {z | z ∈ z₀ :: zs} (zs.foldl min z₀) :=
  List.min?_eq_some_iff.mp List.min?_cons'

/-- The greatest of the numbers so far. Source: none: infrastructure. Kind: L -/
theorem isGreatest_foldl_max (z₀ : ℤ) (zs : List ℤ) :
    IsGreatest {z | z ∈ z₀ :: zs} (zs.foldl max z₀) :=
  List.max?_eq_some_iff.mp List.max?_cons'

/-- Numbers that span less than `2 ^ 31` lie in an interval of almost a turn.
Source: none: infrastructure
Kind: L -/
theorem within_of_span {z₀ : ℤ} {zs : List ℤ}
    (hspan : zs.foldl max z₀ - zs.foldl min z₀ < 2 ^ 31) :
    ∀ z ∈ z₀ :: zs, zs.foldl min z₀ ≤ z ∧ z < zs.foldl min z₀ + (2 ^ 32 - 9) := by
  intro z hz
  have hlo := (isLeast_foldl_min z₀ zs).2 hz
  have hhi := (isGreatest_foldl_max z₀ zs).2 hz
  omega

/-- The window of numbers that come without long gaps. Source: none: infrastructure. Kind: L -/
theorem feed_hull {z₀ : ℤ} {zs : List ℤ} (hnear : ∀ k, (hk : k < zs.length) →
      (zs.take k).foldl min z₀ - 9 ≤ zs[k] ∧ zs[k] ≤ (zs.take k).foldl max z₀ + 9) :
    ((Window.single z₀).feed 10 zs).lo = zs.foldl min z₀ ∧
      ((Window.single z₀).feed 10 zs).hi = zs.foldl max z₀ := by
  apply Window.feed_of_near
  intro k hk
  obtain ⟨hlo, hhi⟩ := hnear k hk
  constructor
  · exact lt_of_lt_of_le (sub_lt_sub_left (by decide) _) hlo
  · exact lt_of_le_of_lt hhi (add_lt_add_right (by decide) _)

/-- It covers the numbers from the least to the greatest one. Source: none: infrastructure.
Kind: L -/
theorem size_feed_hull {z₀ : ℤ} {zs : List ℤ} (hnear : ∀ k, (hk : k < zs.length) →
      (zs.take k).foldl min z₀ - 9 ≤ zs[k] ∧ zs[k] ≤ (zs.take k).foldl max z₀ + 9) :
    ((Window.single z₀).feed 10 zs).size = zs.foldl max z₀ - zs.foldl min z₀ + 1 := by
  obtain ⟨hlo, hhi⟩ := feed_hull hnear
  rw [Window.size, hlo, hhi]

/-- **The ends of a session are the least and the greatest number received**, seen modulo `2 ^ 32`,
and the target count is how many numbers there are between them, wherever the counter wraps, in
whatever order the numbers came and however often: for every first number and all that follow, each
at most `9` beyond the least and the greatest one so far.
Source: `serversession.cc`, `ServerSession::recordSeq`, `ServerSession::writeStats`
Kind: P -/
theorem recordSeq_hull (peer : Bytes) (port : UInt16) {p : Packet} {z₀ : ℤ} {zs : List ℤ}
    (hstart : p.seqNum = ofTrue z₀) (hnear : ∀ k, (hk : k < zs.length) →
      (zs.take k).foldl min z₀ - 9 ≤ zs[k] ∧ zs[k] ≤ (zs.take k).foldl max z₀ + 9)
    (hspan : zs.foldl max z₀ - zs.foldl min z₀ < 2 ^ 31) (now : Time) {s : ServerSession}
    (hs : s = zs.foldl (fun s z => s.recordSeq (ofTrue z)) (ServerSession.create peer port p)) :
    s.maxSeq = ofTrue (zs.foldl max z₀) ∧ s.minSeq = ofTrue (zs.foldl min z₀) ∧
      ((s.writeStats now).stats.targetCount.toNat : ℤ) =
        zs.foldl max z₀ - zs.foldl min z₀ + 1 := by
  have hcreate : Shows (ServerSession.create peer port p) (Window.single z₀) := ⟨hstart, hstart⟩
  have hwithin := within_of_span hspan
  have hshows := hcreate.foldl_recordSeq (hwithin z₀ List.mem_cons_self) fun z hz =>
    hwithin z (List.mem_cons_of_mem z₀ hz)
  obtain ⟨hlo, hhi⟩ := feed_hull hnear
  have hsize := size_feed_hull hnear
  rw [← hs] at hshows
  refine ⟨?_, ?_, ?_⟩
  · rw [hshows.maxSeq, hhi]
  · rw [hshows.minSeq, hlo]
  · rw [hshows.targetCount (by omega), hsize]

/-- A counter that wraps between late and repeated numbers.
Source: `serversession.cc`, `ServerSession::recordSeq`
Kind: C -/
theorem recordSeq_hull_wraps : ∃ s : ServerSession,
    s = [4294967301, 4294967289, 4294967301, 4294967309].foldl
      (fun s z => s.recordSeq (ofTrue z))
      (ServerSession.create (ascii "h") 5000 (probe (ascii "a") 4294967294 0).ph) ∧
    s.maxSeq = 13 ∧ s.minSeq = 4294967289 ∧
    ((s.writeStats 100).stats.targetCount.toNat : ℤ) = 21 := by
  obtain ⟨hmax, hmin, htarget⟩ := @recordSeq_hull (ascii "h") 5000
    (probe (ascii "a") 4294967294 0).ph 4294967294 [4294967301, 4294967289, 4294967301, 4294967309]
    (by decide) (by decide) (by decide) 100 _ rfl
  refine ⟨_, rfl, hmax.trans ?_, hmin.trans ?_, htarget.trans ?_⟩
  · decide
  · decide
  · decide

/-- **Without long gaps a report counts the losses**: of packets with distinct numbers that come so,
the target count exceeds the count by as many as there are numbers between the least and the greatest
one that never arrived.
Source: `serversession.cc`, `receivePing`, `recordSeq`, `writeStats`
Kind: P -/
theorem Batch.losses_of_near {g : Bytes} (b : Batch g) {z₀ : ℤ} {zs : List ℤ}
    (hseq : b.arrivals.map (fun a => a.ph.seqNum) = (z₀ :: zs).map ofTrue)
    (hnodup : (z₀ :: zs).Nodup) (hnear : ∀ k, (hk : k < zs.length) →
      (zs.take k).foldl min z₀ - 9 ≤ zs[k] ∧ zs[k] ≤ (zs.take k).foldl max z₀ + 9)
    (hspan : zs.foldl max z₀ - zs.foldl min z₀ + 1 < 2 ^ 31) (now : Time) {st : Stats}
    (hst : st = (b.session.writeStats now).stats) :
    (st.targetCount.toNat : ℤ) - st.count =
      ((Finset.Icc (zs.foldl min z₀) (zs.foldl max z₀)).filter (· ∉ z₀ :: zs)).card := by
  have hshows := b.shows hseq (within_of_span (by omega))
  obtain ⟨hlo, hhi⟩ := feed_hull hnear
  have hsize := size_feed_hull hnear
  have houtside : ((Window.single z₀).feed 10 zs).outside (z₀ :: zs) = 0 := by
    rw [Window.outside, List.length_eq_zero_iff, List.filter_eq_nil_iff]
    intro z hz hnot
    refine of_decide_eq_true hnot ⟨?_, ?_⟩
    · rw [hlo]
      exact (isLeast_foldl_min z₀ zs).2 hz
    · rw [hhi]
      exact (isGreatest_foldl_max z₀ zs).2 hz
  have hbalance := Window.size_add_outside (W := (Window.single z₀).feed 10 zs) hnodup
  have htarget := hshows.targetCount (by omega) now
  have hcount : st.count = (z₀ :: zs).length := by
    rw [hst]
    exact (b.count_eq hseq).trans (cInt_of_range (by omega) (by omega))
  rw [← hlo, ← hhi, ← Window.missing_eq, hcount, hst, htarget]
  omega

/-! ## The two counters -/

/-- Distinct numbers of an interval of `2 ^ 31` are at most that many.
Source: none: infrastructure
Kind: L -/
theorem length_le_of_span {c : ℤ} {zs : List ℤ} (hnodup : zs.Nodup)
    (hspan : ∀ z ∈ zs, c ≤ z ∧ z < c + 2 ^ 31) : zs.length ≤ 2 ^ 31 := by
  have hsub : zs.toFinset ⊆ Finset.Ico c (c + 2 ^ 31) := by
    intro z hz
    exact Finset.mem_Ico.mpr (hspan z (List.mem_toFinset.mp hz))
  have hcard := Finset.card_le_card hsub
  rw [List.toFinset_card_of_nodup hnodup, Int.card_Ico] at hcard
  omega

/-- **When the drop count is not negative.** A session has absorbed packets with distinct true
numbers `z₀, z₁, …` of an interval of `2 ^ 31` numbers, in this order, and has recorded one number
more or none when it was closed (any serial number has a true number in the range of `htail`). Its
window goes from the least to the greatest number reached from `z₀` by recorded numbers in steps
shorter than `10`. Then the target count is at least the count exactly when at most as many packets
lie outside of the window as numbers inside of it never arrived (or when all `2 ^ 31` numbers
arrived, and the count overflowed).
Source: `serversession.cc`, `receivePing`, `recordSeq`, `writeStats`
Kind: P -/
theorem count_le_targetCount_iff {g : Bytes} (b : Batch g) {c z₀ : ℤ} {zs : List ℤ}
    {tail : Option ℤ} (hseq : b.arrivals.map (fun a => a.ph.seqNum) = (z₀ :: zs).map ofTrue)
    (hnodup : (z₀ :: zs).Nodup) (hspan : ∀ z ∈ z₀ :: zs, c ≤ z ∧ z < c + 2 ^ 31)
    (htail : ∀ t ∈ tail, c - 2 ^ 30 ≤ t ∧ t < c - 2 ^ 30 + 2 ^ 32) (now : Time) {st : Stats}
    (hst : st = ((b.session.closeWith (tail.map ofTrue)).writeStats now).stats) :
    ∃ W : Window,
      IsLeast {u | Climbs 10 (-z₀) ((zs ++ tail.toList).map Neg.neg) (-u)} W.lo ∧
      IsGreatest {u | Climbs 10 z₀ (zs ++ tail.toList) u} W.hi ∧
      (st.count ≤ st.targetCount.toNat ↔
        (z₀ :: zs).length = 2 ^ 31 ∨ W.outside (z₀ :: zs) ≤ W.missing (z₀ :: zs)) := by
  have hz₀ := hspan z₀ List.mem_cons_self
  have hzs : ∀ z ∈ zs, c ≤ z ∧ z ≤ c + 2 ^ 31 - 1 := fun z hz => by
    have := hspan z (List.mem_cons_of_mem z₀ hz)
    omega
  obtain ⟨hlo, hhi⟩ := Window.feed_within (w := 10) (W := Window.single z₀) hz₀.1
    (Int.le_sub_one_of_lt hz₀.2) hzs
  have hle := ((Window.single z₀).feed 10 zs).le
  have hreach : ∀ t ∈ tail, |t - ((Window.single z₀).feed 10 zs).lo| ≤ 2 ^ 32 - 10 ∧
      |t - ((Window.single z₀).feed 10 zs).hi| ≤ 2 ^ 32 - 10 := by
    intro t ht
    have := htail t ht
    rw [abs_le, abs_le]
    omega
  have hwide : ∀ z ∈ z₀ :: zs, c ≤ z ∧ z < c + (2 ^ 32 - 9) := fun z hz => by
    have := hspan z hz
    omega
  have hshows := (b.shows hseq hwide).closeWith hreach
  rw [← Window.feed_append] at hshows
  refine ⟨_, Window.lo_isLeast 10 z₀ _, Window.hi_isGreatest 10 z₀ _, ?_⟩
  have hsize : ((Window.single z₀).feed 10 (zs ++ tail.toList)).size < 2 ^ 32 := by
    rw [Window.feed_append]
    cases tail with
    | none =>
        change ((Window.single z₀).feed 10 zs).size < 2 ^ 32
        unfold Window.size
        omega
    | some t =>
        change (((Window.single z₀).feed 10 zs).extend 10 t).size < 2 ^ 32
        simp only [Window.size, Window.extend]
        split_ifs <;> omega
  have htarget := hshows.targetCount hsize now
  have hlen := length_le_of_span hnodup hspan
  have hcount : st.count = cInt (z₀ :: zs).length := by
    have hstats : st.count = b.session.stats.count := by
      rw [hst]
      cases tail with
      | none => rfl
      | some t =>
          simp only [Option.map_some, ServerSession.closeWith, Option.elim,
            ServerSession.recordSeq_eq]
          rfl
    rw [hstats, b.count_eq hseq]
  rw [hcount, hst, htarget, ← Window.length_le_size_iff hnodup]
  by_cases hfull : (z₀ :: zs).length = 2 ^ 31
  · -- the count has overflowed to `-2 ^ 31`
    rw [hfull]
    have hneg : cInt ((2 ^ 31 : ℕ) : ℤ) = -2 ^ 31 := by decide
    have hpos : 0 ≤ ((Window.single z₀).feed 10 (zs ++ tail.toList)).size := by
      have := ((Window.single z₀).feed 10 (zs ++ tail.toList)).le
      unfold Window.size
      omega
    rw [hneg]
    exact ⟨fun _ => Or.inl rfl, fun _ => by omega⟩
  · rw [cInt_of_range (by omega) (by omega)]
    exact ⟨Or.inr, fun h => h.resolve_left hfull⟩

/-! ### One burst of losses -/

/-- A period that loses `19` probes after the first one and none afterwards.
Source: none: example
Kind: D -/
def burst : Batch (ascii "a") where
  first := probe (ascii "a") 0 0
  rest := [probe (ascii "a") 20 0, probe (ascii "a") 21 0, probe (ascii "a") 22 0]
  carries := by decide

theorem burst_outside : ∃ W : Window, IsGreatest {u | Climbs 10 0 ([20, 21, 22] ++ []) u} W.hi ∧
    W.missing [0, 20, 21, 22] < W.outside [0, 20, 21, 22] := by
  obtain ⟨W, -, hhi, hiff⟩ := @count_le_targetCount_iff _ burst 0 0 [20, 21, 22] none
    (by decide) (by decide) (by simp) (by simp) 100 _ rfl
  refine ⟨W, hhi, ?_⟩
  by_contra hle
  have hcount := hiff.mpr (Or.inr (not_lt.mp hle))
  revert hcount
  decide

/-- The run of the server that receives such a period and sweeps after it.
Source: `serversession.cc`, `receivePing`
Kind: D -/
def burstRun : List Event :=
  [.receivePing (probe (ascii "a") 0 0) ⟨0, 0⟩ 0, .receivePing (probe (ascii "a") 20 0) ⟨1, 0⟩ 0,
    .receivePing (probe (ascii "a") 21 0) ⟨1, 0⟩ 0, .receivePing (probe (ascii "a") 22 0) ⟨1, 0⟩ 0, .sweep 100]

/-- **A negative drop count**: the burst leaves the window at the first packet, so the report says
that one packet was expected and four came.
Source: `serversession.cc`, `recordSeq`, `writeStats`
Kind: C -/
theorem drop_negative :
    Admissible 60 burstRun ∧
      ((machine 60).run burstRun).written.map (fun r => (r.stats.count, r.stats.targetCount)) =
        [(4, 1)] := by
  decide

end UDPing.Server
