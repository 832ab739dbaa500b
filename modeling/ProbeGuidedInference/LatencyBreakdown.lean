import ProbeGuidedInference.Report

/- Which requests the latency comparison is about. The report sets the p50 latency of the
   predicted-convergent requests under probe_deprioritize against the p50 latency of the
   same requests under baseline. Each side drops, on its own, the requests it has no
   latency for; the two populations agree if no request is dropped on one side only. -/
namespace PGI
open Fallible

section Dict
variable {α : Type} {key : α → Int}

theorem setItem_fresh {d : List (Int × α)} {k : Int} (h : k ∉ d.map Prod.fst) (v : α) :
    setItem d k v = d ++ [(k, v)] := by
  have hany : d.any (fun item => item.1 = k) = false := by
    rw [List.any_eq_false]
    intro item hitem
    have hne : item.1 ≠ k := fun heq => h (heq ▸ List.mem_map_of_mem hitem)
    simpa using hne
  rw [setItem, hany]
  rfl

theorem foldl_setItem : ∀ (xs : List α) {d : List (Int × α)}, (d.map Prod.fst ++ xs.map key).Nodup →
    xs.foldl (fun d x => setItem d (key x) x) d = d ++ xs.map (fun x => (key x, x)) := by
  intro xs
  induction xs with
  | nil => simp
  | cons x xs ih =>
    intro d hnd
    have hfresh : key x ∉ d.map Prod.fst := by
      intro hmem
      rw [List.nodup_append] at hnd
      exact hnd.2.2 (key x) hmem (key x) List.mem_cons_self rfl
    rw [List.foldl_cons, setItem_fresh hfresh, ih, List.append_assoc]
    · rfl
    · rw [List.map_append, List.append_assoc]
      exact hnd

/-- With distinct keys the comprehension has one item for each element. -/
theorem dictBy_eq {xs : List α} (hnd : (xs.map key).Nodup) :
    dictBy key xs = xs.map (fun x => (key x, x)) := by
  have hfold : dictBy key xs = [] ++ xs.map (fun x => (key x, x)) := foldl_setItem xs (by simpa using hnd)
  exact hfold

theorem lookup_dictBy : ∀ {xs : List α} {k : Int} {x : α}, (xs.map key).Nodup →
    ((dictBy key xs).lookup k = some x ↔ x ∈ xs ∧ key x = k) := by
  intro xs k x hnd
  rw [dictBy_eq hnd]
  induction xs with
  | nil => simp
  | cons y ys ih =>
    rw [List.map_cons, List.nodup_cons] at hnd
    rw [List.map_cons, List.lookup_cons]
    by_cases hk : k = key y
    · subst hk
      rw [beq_self_eq_true]
      refine ⟨?_, ?_⟩
      · intro h
        obtain rfl := Option.some.inj h
        exact ⟨List.mem_cons_self, rfl⟩
      · intro h
        rcases List.mem_cons.mp h.1 with rfl | hmem
        · rfl
        · exact absurd (h.2 ▸ List.mem_map_of_mem hmem) hnd.1
    · rw [beq_false_of_ne hk, ih hnd.2, List.mem_cons]
      refine ⟨fun h => ⟨.inr h.1, h.2⟩, ?_⟩
      intro h
      rcases h.1 with rfl | hmem
      · exact absurd h.2.symm hk
      · exact ⟨hmem, h.2⟩

end Dict

section Populations
variable {baseline records : List RunRecord}

theorem mem_labelled {label : Label} {r : RunRecord} :
    r ∈ labelled label records ↔ r ∈ records ∧ r.routingLabel = some label ∧ r.timed := by
  simp [labelled]

theorem mem_baselineConvergent (hub : (baseline.map RunRecord.aimeIdx).Nodup)
    (hud : (records.map RunRecord.aimeIdx).Nodup) {b : RunRecord} :
    b ∈ baselineConvergent baseline records ↔ b ∈ baseline ∧ b.timed ∧
      ∃ r ∈ records, r.aimeIdx = b.aimeIdx ∧ r.routingLabel = some .convergent := by
  rw [baselineConvergent, List.mem_filterMap]
  refine ⟨?_, ?_⟩
  · intro h
    obtain ⟨⟨idx, r⟩, hitem, hb⟩ := h
    rw [dictBy_eq hud] at hitem
    obtain ⟨r', hr, heq⟩ := List.mem_map.mp hitem
    obtain ⟨rfl, rfl⟩ := Prod.mk.inj heq
    by_cases hlabel : r'.routingLabel = some .convergent
    · simp only [hlabel, if_true, Option.filter_eq_some_iff] at hb
      obtain ⟨hmem, hidx⟩ := (lookup_dictBy hub).mp hb.1
      exact ⟨hmem, hb.2, r', hr, hidx.symm, hlabel⟩
    · simp only [hlabel, if_false] at hb
      cases hb
  · intro h
    obtain ⟨hmem, htimed, r, hr, hidx, hlabel⟩ := h
    refine ⟨(r.aimeIdx, r), ?_, ?_⟩
    · rw [dictBy_eq hud]
      exact List.mem_map_of_mem hr
    · simp only [hlabel, if_true, Option.filter_eq_some_iff]
      exact ⟨(lookup_dictBy hub).mpr ⟨hmem, hidx.symm⟩, htimed⟩

/-- The request has a latency under baseline. -/
def TimedAtBaseline (baseline : List RunRecord) (r : RunRecord) : Prop :=
  ∃ b ∈ baseline, b.aimeIdx = r.aimeIdx ∧ b.timed

/-- The two populations agree exactly if every request of them is timed on both sides. -/
theorem populations_eq_iff (hub : (baseline.map RunRecord.aimeIdx).Nodup)
    (hud : (records.map RunRecord.aimeIdx).Nodup) :
    (∀ idx, idx ∈ (labelled .convergent records).map RunRecord.aimeIdx ↔
      idx ∈ (baselineConvergent baseline records).map RunRecord.aimeIdx) ↔
    ∀ r ∈ records, r.routingLabel = some .convergent → (r.timed ↔ TimedAtBaseline baseline r) := by
  have hinj : ∀ r ∈ records, ∀ r' ∈ records, r.aimeIdx = r'.aimeIdx → r = r' :=
    fun r hr r' hr' => List.inj_on_of_nodup_map hud hr hr'
  have hleft : ∀ r ∈ records, r.routingLabel = some .convergent →
      (r.aimeIdx ∈ (labelled .convergent records).map RunRecord.aimeIdx ↔ r.timed) := by
    intro r hr hlabel
    refine ⟨?_, fun h => List.mem_map_of_mem (mem_labelled.mpr ⟨hr, hlabel, h⟩)⟩
    intro h
    obtain ⟨r', hmem, hidx⟩ := List.mem_map.mp h
    obtain ⟨hr', -, htimed⟩ := mem_labelled.mp hmem
    exact hinj r' hr' r hr hidx ▸ htimed
  have hright : ∀ r ∈ records, r.routingLabel = some .convergent →
      (r.aimeIdx ∈ (baselineConvergent baseline records).map RunRecord.aimeIdx ↔
        TimedAtBaseline baseline r) := by
    intro r hr hlabel
    refine ⟨?_, ?_⟩
    · intro h
      obtain ⟨b, hmem, hidx⟩ := List.mem_map.mp h
      obtain ⟨hb, htimed, -⟩ := (mem_baselineConvergent hub hud).mp hmem
      exact ⟨b, hb, hidx, htimed⟩
    · intro h
      obtain ⟨b, hb, hidx, htimed⟩ := h
      rw [← hidx]
      exact List.mem_map_of_mem
        ((mem_baselineConvergent hub hud).mpr ⟨hb, htimed, r, hr, hidx.symm, hlabel⟩)
  refine ⟨?_, ?_⟩
  · intro h r hr hlabel
    rw [← hleft r hr hlabel, h, hright r hr hlabel]
  · intro h idx
    refine ⟨?_, ?_⟩
    · intro hidx
      obtain ⟨r, hmem, rfl⟩ := List.mem_map.mp hidx
      obtain ⟨hr, hlabel, htimed⟩ := mem_labelled.mp hmem
      exact (hright r hr hlabel).mpr ((h r hr hlabel).mp htimed)
    · intro hidx
      obtain ⟨b, hmem, rfl⟩ := List.mem_map.mp hidx
      obtain ⟨hb, htimed, r, hr, heq, hlabel⟩ := (mem_baselineConvergent hub hud).mp hmem
      rw [← heq]
      exact (hleft r hr hlabel).mpr ((h r hr hlabel).mpr ⟨b, hb, heq.symm, htimed⟩)

end Populations

section Reported
variable {allResults : AllResults} {baseline records : List RunRecord} {report : LatencyBreakdown}
  {comparison : BaselineComparison}

/-- The two p50 figures of a report are those of the two populations. -/
theorem breakdown_figures (hb : allResults .baseline = some baseline)
    (hd : allResults .probeDeprioritize = some records)
    (hreport : deprioritizeLatencyBreakdown allResults = .ok (some report))
    (hcomparison : report.baseline = some comparison) :
    percentile (latencies (labelled .convergent records)) (1 / 2) = .ok report.convergentP50S ∧
    percentile (latencies (baselineConvergent baseline records)) (1 / 2) =
      .ok comparison.baselineConvergentP50S ∧
    comparison.convergentP50ImprovementPct =
      improvementPct comparison.baselineConvergentP50S report.convergentP50S := by
  unfold deprioritizeLatencyBreakdown at hreport
  simp only [hd, hb, Option.map_some] at hreport
  obtain ⟨p50, hp50, hreport⟩ := bind_eq_ok.mp hreport
  obtain ⟨avg, -, hreport⟩ := bind_eq_ok.mp hreport
  obtain ⟨divP50, -, hreport⟩ := bind_eq_ok.mp hreport
  obtain ⟨divAvg, -, hreport⟩ := bind_eq_ok.mp hreport
  cases hlist : latencies (baselineConvergent baseline records) with
  | nil =>
    simp only [hlist, pure_eq_ok, ok_bind] at hreport
    obtain rfl := Option.some.inj (Except.ok.inj hreport)
    cases hcomparison
  | cons latency rest =>
    simp only [hlist] at hreport
    obtain ⟨basePct, hbase, hreport⟩ := bind_eq_ok.mp hreport
    obtain rfl := Option.some.inj (Except.ok.inj hreport)
    obtain rfl := Option.some.inj hcomparison
    exact ⟨hp50, hbase, rfl⟩

/-- **The comparison is over the same requests if every one is timed on both sides**, and
    only then: whenever the report shows a baseline figure, the two figures are the medians
    of two populations, with the same indices exactly if each predicted-convergent request
    has a latency in both runs or in none. -/
theorem same_requests_iff (hb : allResults .baseline = some baseline)
    (hd : allResults .probeDeprioritize = some records)
    (hub : (baseline.map RunRecord.aimeIdx).Nodup) (hud : (records.map RunRecord.aimeIdx).Nodup)
    (hreport : deprioritizeLatencyBreakdown allResults = .ok (some report))
    (hcomparison : report.baseline = some comparison) :
    percentile (latencies (labelled .convergent records)) (1 / 2) = .ok report.convergentP50S ∧
    percentile (latencies (baselineConvergent baseline records)) (1 / 2) =
      .ok comparison.baselineConvergentP50S ∧
    ((∀ idx, idx ∈ (labelled .convergent records).map RunRecord.aimeIdx ↔
        idx ∈ (baselineConvergent baseline records).map RunRecord.aimeIdx) ↔
      ∀ r ∈ records, r.routingLabel = some .convergent → (r.timed ↔ TimedAtBaseline baseline r)) := by
  obtain ⟨hp50, hbase, -⟩ := breakdown_figures hb hd hreport hcomparison
  exact ⟨hp50, hbase, populations_eq_iff hub hud⟩

end Reported

/-- Problem 1 has no latency here, -/
def baselineRun : List RunRecord := [⟨0, none, some 10⟩, ⟨1, none, none⟩]

/-- and a long one here. -/
def deprioritizeRun : List RunRecord := [⟨0, some .convergent, some 8⟩, ⟨1, some .convergent, some 100⟩]

def timedOnOneSide : AllResults
  | .baseline => some baselineRun
  | .probeTerminate => none
  | .probeDeprioritize => some deprioritizeRun

theorem timedOnOneSide_reports :
    ∃ report comparison, deprioritizeLatencyBreakdown timedOnOneSide = .ok (some report) ∧
      report.baseline = some comparison ∧
      comparison.convergentP50ImprovementPct = some (-440) := by
  have hrun : (deprioritizeLatencyBreakdown timedOnOneSide).toOption.map (fun report =>
      report.map (fun r => r.baseline.map BaselineComparison.convergentP50ImprovementPct)) =
      some (some (some (some (-440)))) := by decide +kernel
  obtain ⟨answer, hanswer, hread⟩ := toOption_map_eq_some.mp hrun
  obtain ⟨report, rfl, hbaseline⟩ := Option.map_eq_some_iff.mp hread
  obtain ⟨comparison, hcomparison, hpct⟩ := Option.map_eq_some_iff.mp hbaseline
  exact ⟨report, comparison, hanswer, hcomparison, hpct⟩

/-- Problem 0, the only one timed in both runs, became faster; the report shows a
    slowdown, for it took problem 1 in on one side. -/
theorem timedOnOneSide_differ :
    (baselineRun.map RunRecord.aimeIdx).Nodup ∧ (deprioritizeRun.map RunRecord.aimeIdx).Nodup ∧
    (∃ report comparison, deprioritizeLatencyBreakdown timedOnOneSide = .ok (some report) ∧
      report.baseline = some comparison ∧
      comparison.convergentP50ImprovementPct = some (-440)) ∧
    ¬ ∀ idx, idx ∈ (labelled .convergent deprioritizeRun).map RunRecord.aimeIdx ↔
      idx ∈ (baselineConvergent baselineRun deprioritizeRun).map RunRecord.aimeIdx := by
  refine ⟨by decide, by decide, timedOnOneSide_reports, ?_⟩
  intro h
  have hone := (h 1).mp (by decide)
  revert hone
  decide

theorem same_requests_iff_one :
    ∃ report comparison, deprioritizeLatencyBreakdown timedOnOneSide = .ok (some report) ∧
      report.baseline = some comparison ∧
      percentile (latencies (labelled .convergent deprioritizeRun)) (1 / 2) = .ok report.convergentP50S ∧
      percentile (latencies (baselineConvergent baselineRun deprioritizeRun)) (1 / 2) =
        .ok comparison.baselineConvergentP50S ∧
      ((∀ idx, idx ∈ (labelled .convergent deprioritizeRun).map RunRecord.aimeIdx ↔
          idx ∈ (baselineConvergent baselineRun deprioritizeRun).map RunRecord.aimeIdx) ↔
        ∀ r ∈ deprioritizeRun, r.routingLabel = some .convergent →
          (r.timed ↔ TimedAtBaseline baselineRun r)) := by
  obtain ⟨report, comparison, hreport, hcomparison, -⟩ := timedOnOneSide_reports
  exact ⟨report, comparison, hreport, hcomparison,
    same_requests_iff rfl rfl (by decide) (by decide) hreport hcomparison⟩

end PGI
