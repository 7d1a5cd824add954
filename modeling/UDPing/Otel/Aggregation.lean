import UDPing.Otel.LinkSender
import Mathlib.Algebra.BigOperators.Group.List.Basic
import Mathlib.Tactic.Linarith

/-!
# What udping_otelsender exports

* `reports`: the reports of a history. `recent`: those since the last callback.
* `Totals`: a datapoint holds the sums of its key's reports. `totals_run`: it does in every history.
* `ExportsExact`: a callback exports, for every pair of hosts seen, the exact sums of its own reports.
* **`exports_exact_iff`**: it does exactly if no two of the pairs have one key and the sums fit.
-/

namespace UDPing.Otel

open Lib

variable {parseFloat : Bytes → Option ℚ}

/-! ## Histories -/

/-- The reports of a history. Source: `udping_otelsender.go`, `main`. Kind: D -/
def reports (parseFloat : Bytes → Option ℚ) (es : List LinkEvent) : List Report :=
  es.flatMap fun
    | .line obj => (report parseFloat obj).toList
    | .callback => []

/-- The reports since the last callback. Source: `udping_otelsender.go`, `main`. Kind: D -/
def recent (parseFloat : Bytes → Option ℚ) (es : List LinkEvent) : List Report :=
  es.foldl (fun rs e =>
    match e with
    | .line obj => rs ++ (report parseFloat obj).toList
    | .callback => []) []

theorem reports_concat (es : List LinkEvent) (e : LinkEvent) :
    reports parseFloat (es ++ [e]) = reports parseFloat es ++
      match e with
      | .line obj => (report parseFloat obj).toList
      | .callback => [] := by
  rw [reports, List.flatMap_append, List.flatMap_singleton]
  rfl

theorem recent_concat (es : List LinkEvent) (e : LinkEvent) :
    recent parseFloat (es ++ [e]) =
      match e with
      | .line obj => recent parseFloat es ++ (report parseFloat obj).toList
      | .callback => [] := by
  rw [recent, List.foldl_concat]
  rfl

theorem mem_reports_of_recent {es : List LinkEvent} {r : Report} (h : r ∈ recent parseFloat es) :
    r ∈ reports parseFloat es := by
  induction es using List.reverseRecOn with
  | nil => cases h
  | append_singleton es e ih =>
      rw [recent_concat] at h
      rw [reports_concat]
      cases e with
      | line obj =>
          rcases List.mem_append.mp h with hold | hnew
          · exact List.mem_append_left _ (ih hold)
          · exact List.mem_append_right _ hnew
      | callback => cases h

/-! ## Datapoints -/

theorem int64_int64_add (n m : ℤ) : int64 (int64 n + m) = int64 (n + m) := Int.bmod_add_bmod

theorem int64_add_int64 (n m : ℤ) : int64 (n + int64 m) = int64 (n + m) := by
  rw [add_comm, int64_int64_add, add_comm]

/-- The datapoint for the reports `all`, of which `late` came after the last callback.
Source: `udping_otelsender.go`, `datapoint`
Kind: D -/
structure Totals (all late : List Report) (v : Datapoint) : Prop where
  hosts : ∃ r ∈ all, r.fromHost = v.fromHost ∧ r.toHost = v.toHost
  targetCount : v.targetCount = int64 (all.map Report.targetCount).sum
  dropCount : v.dropCount = int64 (all.map fun r => r.targetCount - r.count).sum
  rttCount : v.rttCount = int64 (late.map Report.count).sum
  rttSum : v.rttSum = (late.map Report.sum).sum

namespace Totals

variable {all late : List Report} {v : Datapoint}

theorem add (h : Totals all late v) (r : Report) : Totals (all ++ [r]) (late ++ [r]) (v.add r) where
  hosts := by
    obtain ⟨r', hr', hhosts⟩ := h.hosts
    exact ⟨r', List.mem_append_left _ hr', hhosts⟩
  targetCount := by
    simp only [Datapoint.add, h.targetCount, int64_int64_add, List.map_append, List.map_singleton,
      List.sum_append, List.sum_singleton]
  dropCount := by
    simp only [Datapoint.add, h.dropCount, int64_int64_add, int64_add_int64, List.map_append,
      List.map_singleton, List.sum_append, List.sum_singleton]
  rttCount := by
    simp only [Datapoint.add, h.rttCount, int64_int64_add, List.map_append, List.map_singleton,
      List.sum_append, List.sum_singleton]
  rttSum := by
    simp only [Datapoint.add, h.rttSum, List.map_append, List.map_singleton, List.sum_append,
      List.sum_singleton]

theorem first (r : Report) :
    Totals [r] [r] (Datapoint.add ⟨r.fromHost, r.toHost, 0, 0, 0, 0⟩ r) where
  hosts := ⟨r, List.mem_singleton.mpr rfl, rfl, rfl⟩
  targetCount := by simp [Datapoint.add]
  dropCount := by
    simp only [Datapoint.add, int64_add_int64, List.map_singleton, List.sum_singleton]
    rw [zero_add]
  rttCount := by simp [Datapoint.add]
  rttSum := by simp [Datapoint.add]

theorem reset (h : Totals all late v) : Totals all [] { v with rttSum := 0, rttCount := 0 } where
  hosts := h.hosts
  targetCount := h.targetCount
  dropCount := h.dropCount
  rttCount := rfl
  rttSum := rfl

end Totals

/-- The reports of one key. Source: `udping_otelsender.go`, `main`. Kind: D -/
def ofKey (k : Bytes) (rs : List Report) : List Report :=
  rs.filter fun r => key r.fromHost r.toHost = k

theorem ofKey_concat (k : Bytes) (rs : List Report) (r : Report) :
    ofKey k (rs ++ [r]) = if key r.fromHost r.toHost = k then ofKey k rs ++ [r] else ofKey k rs := by
  unfold ofKey
  rw [List.filter_append]
  by_cases h : key r.fromHost r.toHost = k <;> simp [h]

theorem ofKey_recent_eq_nil {es : List LinkEvent} {k : Bytes}
    (h : ofKey k (reports parseFloat es) = []) : ofKey k (recent parseFloat es) = [] := by
  refine List.filter_eq_nil_iff.mpr fun r hr => ?_
  exact List.filter_eq_nil_iff.mp h r (mem_reports_of_recent hr)

/-- What is stored under a key with the reports `all`, of which `late` came after the last callback.
Source: `udping_otelsender.go`, `datapointSummary`
Kind: D -/
def Stored (all late : List Report) : Option Datapoint → Prop
  | some v => Totals all late v
  | none => all = []

theorem stored_record {summary : Summary} {all late : List Report} {k : Bytes}
    (h : Stored (ofKey k all) (ofKey k late) (summary.get k))
    (hlate : ofKey k all = [] → ofKey k late = []) (r : Report) :
    Stored (ofKey k (all ++ [r])) (ofKey k (late ++ [r])) ((record summary r).get k) := by
  rw [ofKey_concat, ofKey_concat, record, Dict.get_set]
  by_cases hk : k = key r.fromHost r.toHost
  · subst hk
    rw [if_pos rfl, if_pos rfl, if_pos rfl]
    cases hget : summary.get (key r.fromHost r.toHost) with
    | some v =>
        rw [hget] at h
        exact h.add r
    | none =>
        rw [hget] at h
        rw [hlate h, show ofKey _ all = [] from h]
        exact Totals.first r
  · rw [if_neg hk, if_neg (Ne.symm hk), if_neg (Ne.symm hk)]
    exact h

/-- **The sums of every key**: a key has a datapoint exactly if it has a report, and the datapoint
holds the sums of its reports.
Source: `udping_otelsender.go`, `main`
Kind: P -/
theorem stored_run (parseFloat : Bytes → Option ℚ) (es : List LinkEvent) (k : Bytes) :
    Stored (ofKey k (reports parseFloat es)) (ofKey k (recent parseFloat es))
      (((sender parseFloat).run es).get k) := by
  induction es using List.reverseRecOn with
  | nil => rfl
  | append_singleton es e ih =>
      rw [EventMachine.run_concat, reports_concat, recent_concat]
      cases e with
      | callback =>
          show Stored _ (ofKey k []) ((reset ((sender parseFloat).run es)).get k)
          rw [reset, Dict.get_mapValues, List.append_nil]
          cases hget : ((sender parseFloat).run es).get k with
          | some v =>
              rw [hget] at ih
              exact ih.reset
          | none =>
              rw [hget] at ih
              exact ih
      | line obj =>
          simp only [sender]
          cases hreport : report parseFloat obj with
          | some r =>
              simp only [Option.toList_some]
              exact stored_record ih ofKey_recent_eq_nil r
          | none =>
              simp only [Option.toList_none, List.append_nil]
              exact ih

/-! ## Exports -/

/-- The reports between two hosts. Source: none: specification. Kind: D -/
def ofPair (fromHost toHost : Bytes) (rs : List Report) : List Report :=
  rs.filter fun r => r.fromHost = fromHost ∧ r.toHost = toHost

/-- The exact sums: over all reports between two hosts, and for the latency over those since the last
callback.
Source: none: specification
Kind: D -/
def expected (parseFloat : Bytes → Option ℚ) (es : List LinkEvent) (fromHost toHost : Bytes) :
    Observation :=
  let all := ofPair fromHost toHost (reports parseFloat es)
  let late := ofPair fromHost toHost (recent parseFloat es)
  { fromHost := fromHost
    toHost := toHost
    latency := if late = [] then 0 else (late.map Report.sum).sum / ((late.map Report.count).sum : ℤ)
    dropCount := (all.map fun r => r.targetCount - r.count).sum
    targetCount := (all.map Report.targetCount).sum }

/-- A callback after the history `es` exports the exact sums for each pair of hosts seen, once, and
nothing else.
Source: none: specification
Kind: D -/
def ExportsExact (parseFloat : Bytes → Option ℚ) (es : List LinkEvent) : Prop :=
  ∀ fromHost toHost,
    (exports ((sender parseFloat).run es)).filter
        (fun o => o.fromHost = fromHost ∧ o.toHost = toHost) =
      if ofPair fromHost toHost (reports parseFloat es) = [] then []
      else [expected parseFloat es fromHost toHost]

/-- 64 bits hold a number. Source: `udping_otelsender.go`, `datapoint`. Kind: D -/
def InRange (n : ℤ) : Prop := -2 ^ 63 ≤ n ∧ n < 2 ^ 63

/-- No two pairs of hosts seen have one key; the sums fit into 64 bits; and the sum of the counts since
the last callback is not negative, unless there is nothing to divide by it.
Source: `udping_otelsender.go`, `main`
Kind: D -/
structure Fits (parseFloat : Bytes → Option ℚ) (es : List LinkEvent) : Prop where
  distinct : ∀ r ∈ reports parseFloat es, ∀ r' ∈ reports parseFloat es,
    key r.fromHost r.toHost = key r'.fromHost r'.toHost →
      r.fromHost = r'.fromHost ∧ r.toHost = r'.toHost
  targetCount : ∀ r ∈ reports parseFloat es,
    InRange ((ofPair r.fromHost r.toHost (reports parseFloat es)).map Report.targetCount).sum
  dropCount : ∀ r ∈ reports parseFloat es,
    InRange ((ofPair r.fromHost r.toHost (reports parseFloat es)).map
      fun r => r.targetCount - r.count).sum
  rttCount : ∀ r ∈ reports parseFloat es,
    ((ofPair r.fromHost r.toHost (recent parseFloat es)).map Report.sum).sum = 0 ∨
      0 ≤ ((ofPair r.fromHost r.toHost (recent parseFloat es)).map Report.count).sum ∧
        InRange ((ofPair r.fromHost r.toHost (recent parseFloat es)).map Report.count).sum

theorem int64_eq_self {n : ℤ} : int64 n = n ↔ InRange n := by
  unfold int64 InRange
  constructor
  · intro h
    have hlt := Int.bmod_lt (x := n) (m := 2 ^ 64) (by decide)
    have hle := Int.le_bmod (x := n) (m := 2 ^ 64) (by decide)
    rw [h] at hlt hle
    omega
  · rintro ⟨hle, hlt⟩
    exact Int.bmod_eq_of_le (by omega) (by omega)

/-- Where the division comes out right. Source: `udping_otelsender.go`, `main`. Kind: L -/
theorem latency_iff (sum : ℚ) (count : ℤ) :
    (if 0 < int64 count then sum / (int64 count : ℤ) else 0) = sum / (count : ℚ) ↔
      sum = 0 ∨ 0 ≤ count ∧ InRange count := by
  by_cases hsum : sum = 0
  · simp [hsum]
  · have hzero : sum / (count : ℚ) = 0 → count = 0 := by
      intro h
      rcases div_eq_zero_iff.mp h with h | h
      · exact absurd h hsum
      · exact_mod_cast h
    rw [or_iff_right hsum]
    constructor
    · intro h
      split at h
      next hpos =>
        -- equal quotients of a number other than zero have equal divisors
        have hcount : int64 count = count := by
          rw [div_eq_mul_inv, div_eq_mul_inv] at h
          have hinv : ((int64 count : ℤ) : ℚ) = count := inv_injective (mul_left_cancel₀ hsum h)
          exact_mod_cast hinv
        rw [hcount] at hpos
        exact ⟨hpos.le, int64_eq_self.mp hcount⟩
      next =>
        rw [hzero h.symm]
        exact ⟨le_rfl, by decide, by decide⟩
    · rintro ⟨hnonneg, hrange⟩
      rw [int64_eq_self.mpr hrange]
      split
      next => rfl
      next hpos =>
        rw [le_antisymm (not_lt.mp hpos) hnonneg]
        simp

theorem latency_expected (late : List Report) :
    (if late = [] then 0 else (late.map Report.sum).sum / (((late.map Report.count).sum : ℤ) : ℚ)) =
      (late.map Report.sum).sum / (((late.map Report.count).sum : ℤ) : ℚ) := by
  split
  next h => simp [h]
  next => rfl

/-! ## The condition -/

section Items

variable (es : List LinkEvent) {k fromHost toHost : Bytes} {v : Datapoint}

theorem totals_of_item (h : (k, v) ∈ ((sender parseFloat).run es).items) :
    Totals (ofKey k (reports parseFloat es)) (ofKey k (recent parseFloat es)) v := by
  have hstored := stored_run parseFloat es k
  rw [Dict.get_eq_some.mpr h] at hstored
  exact hstored

/-- A datapoint stands under the key of its hosts. Source: `udping_otelsender.go`, `main`. Kind: L -/
theorem key_of_item (h : (k, v) ∈ ((sender parseFloat).run es).items) :
    k = key v.fromHost v.toHost ∧ ofPair v.fromHost v.toHost (reports parseFloat es) ≠ [] := by
  obtain ⟨r, hr, hfrom, hto⟩ := (totals_of_item es h).hosts
  obtain ⟨hmem, hkey⟩ := List.mem_filter.mp hr
  rw [decide_eq_true_eq] at hkey
  refine ⟨by rw [← hkey, hfrom, hto], List.ne_nil_of_mem (List.mem_filter.mpr ⟨hmem, ?_⟩)⟩
  exact decide_eq_true ⟨hfrom, hto⟩

/-- Where no two pairs have one key, a key's reports are a pair's.
Source: `udping_otelsender.go`, `main`
Kind: L -/
theorem ofKey_eq_ofPair {r : Report} (hr : r ∈ reports parseFloat es)
    (hdistinct : ∀ r ∈ reports parseFloat es, ∀ r' ∈ reports parseFloat es,
      key r.fromHost r.toHost = key r'.fromHost r'.toHost →
        r.fromHost = r'.fromHost ∧ r.toHost = r'.toHost)
    {rs : List Report} (hrs : ∀ r' ∈ rs, r' ∈ reports parseFloat es) :
    ofKey (key r.fromHost r.toHost) rs = ofPair r.fromHost r.toHost rs := by
  refine List.filter_congr fun r' hr' => decide_eq_decide.mpr ?_
  exact ⟨hdistinct r' (hrs r' hr') r hr, fun ⟨hfrom, hto⟩ => by rw [hfrom, hto]⟩

/-- An observation is exact if its numbers are. Source: none: infrastructure. Kind: L -/
theorem observe_eq_expected_iff {all late : List Report}
    (hall : ofPair fromHost toHost (reports parseFloat es) = all)
    (hlate : ofPair fromHost toHost (recent parseFloat es) = late) (h : Totals all late v)
    (hfrom : v.fromHost = fromHost) (hto : v.toHost = toHost) :
    observe v = expected parseFloat es fromHost toHost ↔
      InRange (all.map Report.targetCount).sum ∧
        InRange (all.map fun r => r.targetCount - r.count).sum ∧
        ((late.map Report.sum).sum = 0 ∨
          0 ≤ (late.map Report.count).sum ∧ InRange (late.map Report.count).sum) := by
  simp only [observe, expected, hall, hlate, hfrom, hto, Observation.mk.injEq, true_and,
    latency_expected, h.targetCount, h.dropCount, h.rttCount, h.rttSum, int64_eq_self, latency_iff]
  constructor
  · exact fun ⟨hlatency, hdrop, htarget⟩ => ⟨htarget, hdrop, hlatency⟩
  · exact fun ⟨htarget, hdrop, hlatency⟩ => ⟨hlatency, hdrop, htarget⟩

/-- What is exported for the hosts of a datapoint. Source: `udping_otelsender.go`, `main`. Kind: L -/
theorem filter_exports (h : (k, v) ∈ ((sender parseFloat).run es).items)
    (hfrom : v.fromHost = fromHost) (hto : v.toHost = toHost) :
    (exports ((sender parseFloat).run es)).filter
      (fun o => o.fromHost = fromHost ∧ o.toHost = toHost) = [observe v] := by
  have hkey : k = key fromHost toHost := by
    rw [← hfrom, ← hto]
    exact (key_of_item es h).1
  have hitems : ((sender parseFloat).run es).items.filter
      (fun item => (observe item.2).fromHost = fromHost ∧ (observe item.2).toHost = toHost) =
        ((sender parseFloat).run es).items.filter (·.1 = k) := by
    refine List.filter_congr fun item hitem => decide_eq_decide.mpr ⟨?_, ?_⟩
    · rintro ⟨hfrom', hto'⟩
      rw [(key_of_item es hitem).1, hkey, ← hfrom', ← hto']
      rfl
    · intro hk
      have hv : item.2 = v := Option.some.inj
        ((Dict.get_eq_some.mpr hitem).symm.trans (hk ▸ Dict.get_eq_some.mpr h))
      rw [hv]
      exact ⟨hfrom, hto⟩
  rw [exports, List.filter_map]
  refine (congrArg (List.map _) ?_).trans (congrArg (List.map fun item => observe item.2)
    (Dict.filter_items (Dict.get_eq_some.mpr h)))
  exact hitems

end Items

/-- The datapoint of a pair of hosts that has been seen.
Source: `udping_otelsender.go`, `main`
Kind: L -/
theorem exists_item {es : List LinkEvent} {r : Report} (hr : r ∈ reports parseFloat es) :
    ∃ v, (key r.fromHost r.toHost, v) ∈ ((sender parseFloat).run es).items := by
  have hstored := stored_run parseFloat es (key r.fromHost r.toHost)
  cases hget : ((sender parseFloat).run es).get (key r.fromHost r.toHost) with
  | some v => exact ⟨v, Dict.get_eq_some.mp hget⟩
  | none =>
      rw [hget] at hstored
      have hmem : r ∈ ofKey (key r.fromHost r.toHost) (reports parseFloat es) :=
        List.mem_filter.mpr ⟨hr, decide_eq_true rfl⟩
      rw [show ofKey _ _ = [] from hstored] at hmem
      cases hmem

theorem exportsExact_of_fits {es : List LinkEvent} (h : Fits parseFloat es) :
    ExportsExact parseFloat es := by
  intro fromHost toHost
  split
  next hnone =>
    refine List.filter_eq_nil_iff.mpr fun o ho hpair => ?_
    obtain ⟨⟨k, v⟩, hitem, rfl⟩ := List.mem_map.mp ho
    obtain ⟨rfl, rfl⟩ := of_decide_eq_true hpair
    exact (key_of_item es hitem).2 hnone
  next hsome =>
    obtain ⟨r, hr⟩ := List.exists_mem_of_ne_nil _ hsome
    obtain ⟨hmem, hpair⟩ := List.mem_filter.mp hr
    obtain ⟨rfl, rfl⟩ := of_decide_eq_true hpair
    obtain ⟨v, hitem⟩ := exists_item hmem
    have htotals := totals_of_item es hitem
    rw [ofKey_eq_ofPair es hmem h.distinct fun _ => id,
      ofKey_eq_ofPair es hmem h.distinct fun _ => mem_reports_of_recent] at htotals
    obtain ⟨r', hr', hfrom, hto⟩ := htotals.hosts
    obtain ⟨hfrom', hto'⟩ := of_decide_eq_true (List.mem_filter.mp hr').2
    have hvfrom := hfrom.symm.trans hfrom'
    have hvto := hto.symm.trans hto'
    rw [filter_exports es hitem hvfrom hvto,
      (observe_eq_expected_iff es rfl rfl htotals hvfrom hvto).mpr
      ⟨h.targetCount r hmem, h.dropCount r hmem, h.rttCount r hmem⟩]

/-- The datapoint that is exported for a pair of hosts. Source: none: infrastructure. Kind: L -/
theorem item_of_exportsExact {es : List LinkEvent} (h : ExportsExact parseFloat es) {r : Report}
    (hr : r ∈ reports parseFloat es) :
    ∃ v, (key r.fromHost r.toHost, v) ∈ ((sender parseFloat).run es).items ∧
      v.fromHost = r.fromHost ∧ v.toHost = r.toHost ∧
        observe v = expected parseFloat es r.fromHost r.toHost := by
  have hne : ofPair r.fromHost r.toHost (reports parseFloat es) ≠ [] :=
    List.ne_nil_of_mem (List.mem_filter.mpr ⟨hr, decide_eq_true ⟨rfl, rfl⟩⟩)
  have hfilter := h r.fromHost r.toHost
  rw [if_neg hne] at hfilter
  have hmem := List.mem_singleton.mpr (rfl : expected parseFloat es r.fromHost r.toHost = _)
  rw [← hfilter] at hmem
  obtain ⟨⟨k, v⟩, hitem, hobserve⟩ := List.mem_map.mp (List.mem_filter.mp hmem).1
  have hfrom : v.fromHost = r.fromHost := congrArg Observation.fromHost hobserve
  have hto : v.toHost = r.toHost := congrArg Observation.toHost hobserve
  refine ⟨v, ?_, hfrom, hto, hobserve⟩
  rw [← hfrom, ← hto, ← (key_of_item es hitem).1]
  exact hitem

theorem fits_of_exportsExact {es : List LinkEvent} (h : ExportsExact parseFloat es) :
    Fits parseFloat es := by
  have hdistinct : ∀ r ∈ reports parseFloat es, ∀ r' ∈ reports parseFloat es,
      key r.fromHost r.toHost = key r'.fromHost r'.toHost →
        r.fromHost = r'.fromHost ∧ r.toHost = r'.toHost := by
    intro r hr r' hr' hkey
    obtain ⟨v, hv, hfrom, hto, -⟩ := item_of_exportsExact h hr
    obtain ⟨v', hv', hfrom', hto', -⟩ := item_of_exportsExact h hr'
    rw [← hkey] at hv'
    obtain rfl : v = v' := Option.some.inj
      ((Dict.get_eq_some.mpr hv).symm.trans (Dict.get_eq_some.mpr hv'))
    exact ⟨hfrom.symm.trans hfrom', hto.symm.trans hto'⟩
  have hnumbers : ∀ r ∈ reports parseFloat es,
      let all := ofPair r.fromHost r.toHost (reports parseFloat es)
      let late := ofPair r.fromHost r.toHost (recent parseFloat es)
      InRange (all.map Report.targetCount).sum ∧
        InRange (all.map fun r => r.targetCount - r.count).sum ∧
        ((late.map Report.sum).sum = 0 ∨
          0 ≤ (late.map Report.count).sum ∧ InRange (late.map Report.count).sum) := by
    intro r hr
    obtain ⟨v, hv, hfrom, hto, hobserve⟩ := item_of_exportsExact h hr
    have htotals := totals_of_item es hv
    rw [ofKey_eq_ofPair es hr hdistinct fun _ => id,
      ofKey_eq_ofPair es hr hdistinct fun _ => mem_reports_of_recent] at htotals
    exact (observe_eq_expected_iff es rfl rfl htotals hfrom hto).mp hobserve
  exact ⟨hdistinct, fun r hr => (hnumbers r hr).1, fun r hr => (hnumbers r hr).2.1,
    fun r hr => (hnumbers r hr).2.2⟩

/-- **The exports are exact exactly if no two pairs of hosts seen share a key and the sums fit**, in
every history of lines and callbacks; and a line whose numbers do not parse changes nothing.
Source: `udping_otelsender.go`, `main`
Kind: C -/
theorem exports_exact_iff (parseFloat : Bytes → Option ℚ) (es : List LinkEvent) :
    (ExportsExact parseFloat es ↔ Fits parseFloat es) ∧
      ∀ obj, report parseFloat obj = none →
        (sender parseFloat).run (es ++ [.line obj]) = (sender parseFloat).run es := by
  refine ⟨⟨fits_of_exportsExact, exportsExact_of_fits⟩, fun obj hobj => ?_⟩
  rw [EventMachine.run_concat]
  simp only [sender, hobj]

/-- Digits read as integers. Source: none: infrastructure. Kind: D -/
def exampleFloat (s : Bytes) : Option ℚ := (atoi s).map fun n => (n : ℚ)

/-- A report about ten packets, none of them lost. Source: none: infrastructure. Kind: D -/
def exampleLine (fromHost toHost : String) : LinkEvent :=
  .line (((((Dict.empty.set (ascii "from_host") (ascii fromHost)).set (ascii "to_host")
    (ascii toHost)).set (ascii "count") (ascii "10")).set (ascii "targetCount") (ascii "10")).set
      (ascii "sum") (ascii "50"))

/-- The hosts `a-b` and `c`, and the hosts `a` and `b-c`: the second pair is counted for the first one
and has no export.
Source: `udping_otelsender.go`, `main`
Kind: C -/
theorem pairs_mixed :
    let es := [exampleLine "a-b" "c", exampleLine "a" "b-c"]
    exports ((sender exampleFloat).run es) = [⟨ascii "a-b", ascii "c", 5, 0, 20⟩] ∧
      ¬ExportsExact exampleFloat es := by
  refine ⟨by decide +kernel, fun h => ?_⟩
  have hpair := h (ascii "a") (ascii "b-c")
  rw [if_neg (by decide +kernel)] at hpair
  exact absurd (congrArg List.length hpair) (by decide +kernel)

end UDPing.Otel
