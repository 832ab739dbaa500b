import ProbeGuidedInference.LatencyBreakdown
import ProbeGuidedInference.Percentile
import ProbeGuidedInference.StrategyComparison

/- The summary of a strategy and the false termination rate (benchmark/report.py). The rate
   takes baseline's outcome for what a terminated request would have come to. For a
   row-local model and a hook that only looks that is right: it counts the terminated
   problems whose generation alone converges. The convergences that `probe_terminate` loses are those, less the terminated
   requests that had already converged. -/
namespace PGI
open Fallible

variable {Col : Type}

/-! `summarize_strategy`. -/

structure StrategySummary where
  strategy : RoutingStrategy
  nRequests : Nat
  wallClockS : ℚ
  throughputReqPerS : ℚ
  avgTokensPerRequest : ℚ
  accuracyOnCompleted : Option ℚ
  nCompleted : Nat
  nTerminated : Nat
  convergenceRate : ℚ
  latencyP50S : Option ℚ
  latencyP95S : Option ℚ
  batcherStats : BatcherStats

/-- The records of requests that the probe has not stopped. -/
def StrategyResult.completed (result : StrategyResult) : List EvalRecord :=
  result.records.filter (fun r => !r.terminatedByProbe)

/-- The dict that `summarize_strategy` builds, from the two percentiles on. -/
def StrategyResult.summary (result : StrategyResult) (latencyP50S latencyP95S : Option ℚ) :
    StrategySummary :=
  let n := result.records.length
  let completed := result.completed
  let nCorrectCompleted := completed.countP EvalRecord.correct
  let nConv := result.records.countP EvalRecord.converged
  { strategy := result.strategy
    nRequests := n
    wallClockS := result.wallClockS
    throughputReqPerS := if result.wallClockS > 0 then n / result.wallClockS else 0
    avgTokensPerRequest := if n ≠ 0 then result.totalTokensGenerated / n else 0
    accuracyOnCompleted :=
      if completed.isEmpty then none else some (nCorrectCompleted / completed.length)
    nCompleted := completed.length
    nTerminated := n - completed.length
    convergenceRate := if n ≠ 0 then nConv / n else 0
    latencyP50S, latencyP95S
    batcherStats := result.batcherStats }

def summarizeStrategy (result : StrategyResult) : Except PyError StrategySummary := do
  let latencies := result.records.filterMap EvalRecord.latencyS
  let latencyP50S ← percentile latencies (1 / 2)
  let latencyP95S ← percentile latencies (19 / 20)
  return result.summary latencyP50S latencyP95S

/-! `false_termination_rate`. -/

structure FalseTermination where
  nTerminated : Nat
  nFalseTerminations : Nat
  falseTerminationRate : Option ℚ

def falseTerminationRate (all : EvalResults) : Option FalseTermination :=
  match all .baseline, all .probeTerminate with
  | some baseline, some result =>
    let baselineByIdx := dictBy (fun r => (r.aimeIdx : Int)) baseline.records
    let terminated := result.records.filter EvalRecord.terminatedByProbe
    if terminated.isEmpty then
      some { nTerminated := 0, nFalseTerminations := 0, falseTerminationRate := none }
    else
      let falseTerms := terminated.filter (fun r =>
        (baselineByIdx.lookup (r.aimeIdx : Int)).any EvalRecord.converged)
      some {
        nTerminated := terminated.length
        nFalseTerminations := falseTerms.length
        falseTerminationRate := some (falseTerms.length / terminated.length) }
  | _, _ => none

/-! One result. -/

theorem rate_mem {k n : Nat} (h : k ≤ n) : 0 ≤ (k : ℚ) / n ∧ (k : ℚ) / n ≤ 1 := by
  refine ⟨by positivity, ?_⟩
  apply div_le_one_of_le₀
  · exact_mod_cast h
  · positivity

/-- A percentile is computed for any list, and of two the one with the larger fraction is no
    less. -/
theorem percentile_le (values : List ℚ) {p q : ℚ} (hp : 0 ≤ p) (hpq : p ≤ q) (hq : q ≤ 1) :
    ∃ atP atQ, percentile values p = .ok atP ∧ percentile values q = .ok atQ ∧
      ∀ x ∈ atP, ∀ y ∈ atQ, x ≤ y := by
  by_cases h : values = []
  · subst h
    exact ⟨none, none, rfl, rfl, fun x hx => by cases hx⟩
  · have hpos : (1 : ℚ) ≤ (values.length : ℚ) := by exact_mod_cast List.length_pos_iff.mpr h
    have hlen : (0 : ℚ) ≤ (values.length : ℚ) - 1 := by linarith
    refine ⟨_, _, percentile_eq h hp (hpq.trans hq), percentile_eq h (hp.trans hpq) hq, ?_⟩
    intro x hx y hy
    obtain rfl := Option.some.inj hx
    obtain rfl := Option.some.inj hy
    exact Interpolation.interpolate_mono (orderStat_mono h) (mul_nonneg hlen hp)
      (mul_le_mul_of_nonneg_left hpq hlen)

/-- What every summary of a run of `n` requests, one at least, of at most `L` tokens says. -/
structure StrategySummary.Sound (summary : StrategySummary) (n L : Nat) : Prop where
  requests : summary.nRequests = n
  split : summary.nCompleted + summary.nTerminated = n
  terminated : summary.nTerminated = summary.batcherStats.totalProbeTerminated
  convergence : 0 ≤ summary.convergenceRate ∧ summary.convergenceRate ≤ 1
  accuracy : (summary.accuracyOnCompleted = none ↔ summary.nCompleted = 0) ∧
    ∀ a ∈ summary.accuracyOnCompleted, 0 ≤ a ∧ a ≤ 1
  tokens : 1 ≤ summary.avgTokensPerRequest ∧ summary.avgTokensPerRequest ≤ L
  latency : ∀ p50 ∈ summary.latencyP50S, ∀ p95 ∈ summary.latencyP95S, p50 ≤ p95

section Result
variable {b : Benchmark Col} {strategy : RoutingStrategy} {res : StrategyResult}

theorem completed_length (res : StrategyResult) :
    res.completed.length + res.records.countP EvalRecord.terminatedByProbe = res.records.length := by
  have hsplit := res.records.length_eq_length_filter_add EvalRecord.terminatedByProbe
  rw [← List.countP_eq_length_filter] at hsplit
  unfold StrategyResult.completed
  omega

theorem completed_eq {res : StrategyResult} (hnone : ∀ r ∈ res.records, r.terminatedByProbe = false) :
    res.completed = res.records := by
  apply List.filter_eq_self.mpr
  intro r hr
  rw [hnone r hr]
  rfl

theorem StrategyResult.Accounted.length (h : res.Accounted b) :
    res.records.length = b.samples.length := by
  have hindices := congrArg List.length h.indices
  simpa using hindices

/-- A summary never fails, and its percentiles are in order. -/
theorem summarizeStrategy_ok (res : StrategyResult) : ∃ p50 p95,
    summarizeStrategy res = .ok (res.summary p50 p95) ∧ ∀ x ∈ p50, ∀ y ∈ p95, x ≤ y := by
  obtain ⟨p50, p95, hp50, hp95, hle⟩ :=
    percentile_le (res.records.filterMap EvalRecord.latencyS) (p := 1 / 2) (q := 19 / 20)
      (by norm_num) (by norm_num) (by norm_num)
  refine ⟨p50, p95, ?_, hle⟩
  simp only [summarizeStrategy, hp50, hp95, ok_bind, pure_eq_ok]

theorem rate_of_pos {n k : Nat} (hn : n ≠ 0) : (if n ≠ 0 then (k : ℚ) / n else 0) = k / n := if_pos hn

theorem StrategyResult.Accounted.summary_sound (h : res.Accounted b)
    (hne : res.records.length ≠ 0) {p50 p95 : Option ℚ} (hle : ∀ x ∈ p50, ∀ y ∈ p95, x ≤ y) :
    (res.summary p50 p95).Sound b.samples.length (max 1 b.maxTokens).toNat := by
  have hlength := h.length
  have hsplit := completed_length res
  have hterminated := h.terminated
  have hempty : res.completed.isEmpty = true ↔ res.completed.length = 0 :=
    List.isEmpty_iff_length_eq_zero
  refine ⟨hlength, ?_, ?_, ?_, ⟨?_, ?_⟩, ?_, hle⟩
  · show res.completed.length + (res.records.length - res.completed.length) = b.samples.length
    omega
  · show res.records.length - res.completed.length = res.batcherStats.totalProbeTerminated
    omega
  · simp only [StrategyResult.summary, rate_of_pos hne]
    exact rate_mem List.countP_le_length
  · simp only [StrategyResult.summary]
    split
    · rename_i hnil
      exact ⟨fun _ => hempty.mp hnil, fun _ => rfl⟩
    · rename_i hfull
      exact ⟨fun hnone => (by cases hnone), fun hzero => absurd (hempty.mpr hzero) hfull⟩
  · intro a ha
    simp only [StrategyResult.summary] at ha
    split at ha
    · cases ha
    · obtain rfl := Option.some.inj ha
      exact rate_mem List.countP_le_length
  · have hpos : (0 : ℚ) < res.records.length := by exact_mod_cast Nat.pos_of_ne_zero hne
    obtain ⟨hlow, hhigh⟩ := h.tokens
    rw [← hlength] at hlow hhigh
    simp only [StrategyResult.summary, rate_of_pos hne]
    rw [le_div_iff₀ hpos, div_le_iff₀ hpos, one_mul, mul_comm]
    exact ⟨by exact_mod_cast hlow, by exact_mod_cast hhigh⟩

end Result

/-! Two results, record by record. -/

section Compared
variable {rs bs : List EvalRecord}

theorem follows_tokens (h : List.Forall₂ EvalRecord.Follows rs bs) :
    (rs.map EvalRecord.nGenerated).sum ≤ (bs.map EvalRecord.nGenerated).sum := by
  apply List.Forall₂.sum_le_sum
  rw [List.forall₂_map_left_iff, List.forall₂_map_right_iff]
  apply h.imp
  intro r base hr
  cases hterm : r.terminatedByProbe with
  | false => exact (hr.completed hterm).1.le
  | true => exact (hr.cutShort hterm).1

/-- With nothing stopped the two lists agree in whatever is read off tokens, outcome and
    score. -/
theorem follows_same {α : Type} (f : Nat → Bool → Bool → α)
    (h : List.Forall₂ EvalRecord.Follows rs bs) (hnone : ∀ r ∈ rs, r.terminatedByProbe = false) :
    rs.map (fun r => f r.nGenerated r.converged r.correct) =
      bs.map (fun r => f r.nGenerated r.converged r.correct) := by
  induction h with
  | nil => rfl
  | cons hr _ ih =>
    obtain ⟨hn, hconverged, hcorrect, -⟩ := hr.completed (hnone _ List.mem_cons_self)
    rw [List.map_cons, List.map_cons, ih (fun r hmem => hnone r (List.mem_cons_of_mem _ hmem)), hn,
      hconverged, hcorrect]

/-- What the probe loses: the converged records of baseline are those of the other run and
    the ones whose problem it stopped before that. -/
theorem converged_balance (h : List.Forall₂ EvalRecord.Follows rs bs) :
    bs.countP EvalRecord.converged + rs.countP (fun r => r.terminatedByProbe && r.converged) =
      rs.countP EvalRecord.converged +
        (rs.zip bs).countP (fun p => p.1.terminatedByProbe && p.2.converged) := by
  induction h with
  | nil => rfl
  | cons hr _ ih =>
    rename_i r base rs bs _
    simp only [List.zip_cons_cons, List.countP_cons]
    cases hterm : r.terminatedByProbe with
    | false =>
      rw [(hr.completed hterm).2.1]
      simp only [Bool.false_and, Bool.false_eq_true, if_false]
      omega
    | true =>
      have hlater := (hr.cutShort hterm).2
      cases hconverged : r.converged with
      | false =>
        simp only [Bool.true_and, Bool.false_eq_true, if_false]
        omega
      | true =>
        simp only [Bool.true_and, hlater hconverged, if_true]
        omega

/-- The completed and correct requests are so under baseline. -/
theorem follows_correct (h : List.Forall₂ EvalRecord.Follows rs bs) :
    rs.countP (fun r => !r.terminatedByProbe && r.correct) ≤ bs.countP EvalRecord.correct := by
  induction h with
  | nil => exact le_refl 0
  | cons hr _ ih =>
    rename_i r base rs bs _
    simp only [List.countP_cons]
    cases hterm : r.terminatedByProbe with
    | false =>
      rw [(hr.completed hterm).2.2.1]
      simp only [Bool.not_false, Bool.true_and]
      omega
    | true =>
      simp only [Bool.not_true, Bool.false_and, Bool.false_eq_true, if_false]
      omega

/-- Looking a stopped record up by its index finds the record that stands beside it. -/
theorem false_terminations (h : List.Forall₂ EvalRecord.Follows rs bs)
    (hnd : (bs.map (fun r => (r.aimeIdx : Int))).Nodup) :
    ((rs.filter EvalRecord.terminatedByProbe).filter (fun r =>
      ((dictBy (fun r => (r.aimeIdx : Int)) bs).lookup (r.aimeIdx : Int)).any
        EvalRecord.converged)).length =
      (rs.zip bs).countP (fun p => p.1.terminatedByProbe && p.2.converged) := by
  have hbeside : ∀ p ∈ rs.zip bs,
      (dictBy (fun r => (r.aimeIdx : Int)) bs).lookup (p.1.aimeIdx : Int) = some p.2 := by
    intro p hp
    have hr : EvalRecord.Follows p.1 p.2 := (List.forall₂_iff_zip.mp h).2 hp
    apply (lookup_dictBy hnd).mpr
    exact ⟨(List.of_mem_zip hp).2, by rw [hr.aimeIdx]⟩
  have hfst : rs = (rs.zip bs).map Prod.fst := (List.map_fst_zip h.length_eq.le).symm
  rw [List.filter_filter, ← List.countP_eq_length_filter]
  calc rs.countP _ = ((rs.zip bs).map Prod.fst).countP _ := by rw [← hfst]
    _ = (rs.zip bs).countP (fun p => p.1.terminatedByProbe && p.2.converged) := by
      rw [List.countP_map]
      apply List.countP_congr
      intro p hp
      simp only [Function.comp_apply, hbeside p hp, Option.any_some, Bool.and_comm]

end Compared

/-! The report on one invocation. -/

section Report
variable [Zero Col] {b : Benchmark Col} {cfg : Config Col} {around : Surroundings} {ticks : Nat}
  {runs : List (RoutingStrategy × Surroundings)} {all : EvalResults} {base res : StrategyResult}

/-- Only `probe_terminate` stops a request. -/
theorem runStrategy_unterminated {strategy : RoutingStrategy}
    (hrun : runStrategy ticks b strategy around = .ok (some res))
    (hstrategy : strategy ≠ .probeTerminate) : ∀ r ∈ res.records, r.terminatedByProbe = false := by
  intro r hr
  by_contra hc
  exact hstrategy ((runStrategy_record hrun r hr).evidence (by simpa using hc)).1

omit [Zero Col] in
/-- With an index for each sample no two records have the same. -/
theorem StrategyResult.Accounted.nodup (h : base.Accounted b) :
    (base.records.map (fun r => (r.aimeIdx : Int))).Nodup := by
  have hmap : base.records.map (fun r => (r.aimeIdx : Int)) =
      (List.range b.samples.length).map (fun i : Nat => (i : Int)) := by
    rw [← h.indices, List.map_map]
    rfl
  rw [hmap]
  exact List.nodup_range.map (fun i j hij => by simpa using hij)

theorem falseTerminationRate_eq (hbase : all .baseline = some base)
    (hres : all .probeTerminate = some res) (hnd : (base.records.map (fun r => (r.aimeIdx : Int))).Nodup)
    (hfollows : List.Forall₂ EvalRecord.Follows res.records base.records) :
    ∃ rate, falseTerminationRate all = some ⟨res.records.countP EvalRecord.terminatedByProbe,
      (res.records.zip base.records).countP (fun p => p.1.terminatedByProbe && p.2.converged), rate⟩ := by
  have hfalse := false_terminations hfollows hnd
  unfold falseTerminationRate
  rw [hbase, hres]
  simp only
  split
  · rename_i hempty
    rw [List.isEmpty_iff] at hempty
    rw [hempty] at hfalse
    rw [List.countP_eq_length_filter, hempty, ← hfalse]
    exact ⟨_, rfl⟩
  · rw [hfalse, ← List.countP_eq_length_filter]
    exact ⟨_, rfl⟩

/-- **Every summary is sound.** Whatever the strategies and the answers of model and probe,
    `summarize_strategy` succeeds on each result that is written, and its counts, rates,
    averages and percentiles are what they are called. -/
theorem summaries_sound (hall : mainAsync ticks b runs (fun _ => none) = .ok (some all))
    {strategy : RoutingStrategy} (hres : all strategy = some res) :
    ∃ summary, summarizeStrategy res = .ok summary ∧
      summary.Sound b.samples.length (max 1 b.maxTokens).toNat := by
  obtain ⟨around, hrun⟩ := mainAsync_result hall hres
  obtain ⟨p50, p95, hsummary, hle⟩ := summarizeStrategy_ok res
  have hne := mainAsync_records hall hres
  exact ⟨_, hsummary, (runStrategy_accounted hrun).2.summary_sound hne hle⟩

theorem summaries_sound_counting : ∃ all base res summary,
    mainAsync 12 countingBenchmark allRuns (fun _ => none) = .ok (some all) ∧
      all .baseline = some base ∧ all .probeDeprioritize = some res ∧
      summarizeStrategy res = .ok summary ∧ summary.Sound 2 3 := by
  obtain ⟨all, base, -, res, hall, hbase, -, hres⟩ := countingBenchmark_results
  obtain ⟨summary, hsummary, hsound⟩ := summaries_sound hall hres
  exact ⟨all, base, res, summary, hall, hbase, hres, hsummary, hsound⟩

/-- **What `probe_terminate` saves and loses.** For a row-local model and hooks that only look
    it generates no more tokens per request than baseline, and completes no more correct
    answers; and baseline's converged requests are its own and the false terminations, less the
    terminated requests that had already converged. -/
theorem terminate_trade_off (hm : b.model.unhooked.RowLocal) (hlooks : b.model.HooksLook)
    (hall : mainAsync ticks b runs (fun _ => none) = .ok (some all))
    (hbase : all .baseline = some base) (hres : all .probeTerminate = some res) :
    res.totalTokensGenerated ≤ base.totalTokensGenerated ∧
    res.completed.countP EvalRecord.correct ≤ base.completed.countP EvalRecord.correct ∧
    ∃ ftr, falseTerminationRate all = some ftr ∧
      base.records.countP EvalRecord.converged +
          res.records.countP (fun r => r.terminatedByProbe && r.converged) =
        res.records.countP EvalRecord.converged + ftr.nFalseTerminations := by
  obtain ⟨aroundB, hrunB⟩ := mainAsync_result hall hbase
  obtain ⟨aroundT, hrunT⟩ := mainAsync_result hall hres
  have hfollows := runStrategy_follows hm hlooks hrunT hrunB
  obtain ⟨rate, hrate⟩ :=
    falseTerminationRate_eq hbase hres (runStrategy_accounted hrunB).2.nodup hfollows
  have hcompleted : base.completed = base.records :=
    completed_eq (runStrategy_unterminated hrunB (by decide))
  obtain ⟨-, sT, -, -, -, rfl⟩ := runStrategy_ok hrunT
  obtain ⟨-, sB, -, -, -, rfl⟩ := runStrategy_ok hrunB
  refine ⟨follows_tokens hfollows, ?_, _, hrate, converged_balance hfollows⟩
  rw [hcompleted]
  calc (b.result .probeTerminate aroundT sT).completed.countP EvalRecord.correct
      = (b.result .probeTerminate aroundT sT).records.countP
          (fun r => !r.terminatedByProbe && r.correct) := by
        unfold StrategyResult.completed
        rw [List.countP_filter]
        congr 1
        funext r
        exact Bool.and_comm ..
    _ ≤ _ := follows_correct hfollows

theorem terminate_trade_off_counting : ∃ all base res,
    mainAsync 12 countingBenchmark allRuns (fun _ => none) = .ok (some all) ∧
      all .baseline = some base ∧ all .probeTerminate = some res ∧
      res.totalTokensGenerated ≤ base.totalTokensGenerated ∧
      res.completed.countP EvalRecord.correct ≤ base.completed.countP EvalRecord.correct ∧
      ∃ ftr, falseTerminationRate all = some ftr ∧
        base.records.countP EvalRecord.converged +
            res.records.countP (fun r => r.terminatedByProbe && r.converged) =
          res.records.countP EvalRecord.converged + ftr.nFalseTerminations := by
  obtain ⟨all, base, res, -, hall, hbase, hres, -⟩ := countingBenchmark_results
  exact ⟨all, base, res, hall, hbase, hres,
    terminate_trade_off countingModel_rowLocal countingModel_hooksLook hall hbase hres⟩

/-- **`probe_deprioritize` costs nothing but time.** For a row-local model and hooks that only
    look its summary has the same average tokens, accuracy and convergence rate as baseline's, and
    no terminated request, however often requests were preempted and generated again. -/
theorem deprioritize_same_quality (hm : b.model.unhooked.RowLocal) (hlooks : b.model.HooksLook)
    (hall : mainAsync ticks b runs (fun _ => none) = .ok (some all))
    (hbase : all .baseline = some base) (hres : all .probeDeprioritize = some res) :
    ∃ summary summaryB, summarizeStrategy res = .ok summary ∧
      summarizeStrategy base = .ok summaryB ∧
      summary.avgTokensPerRequest = summaryB.avgTokensPerRequest ∧
      summary.accuracyOnCompleted = summaryB.accuracyOnCompleted ∧
      summary.convergenceRate = summaryB.convergenceRate ∧
      summary.nTerminated = 0 ∧ summaryB.nTerminated = 0 := by
  obtain ⟨aroundB, hrunB⟩ := mainAsync_result hall hbase
  obtain ⟨aroundD, hrunD⟩ := mainAsync_result hall hres
  have hfollows := runStrategy_follows hm hlooks hrunD hrunB
  have hnone := runStrategy_unterminated hrunD (by decide)
  have hnoneB := runStrategy_unterminated hrunB (by decide)
  have hlength := hfollows.length_eq
  have hempty : res.records.isEmpty = base.records.isEmpty := by
    rw [Bool.eq_iff_iff, List.isEmpty_iff_length_eq_zero, List.isEmpty_iff_length_eq_zero, hlength]
  have htokens : res.totalTokensGenerated = base.totalTokensGenerated := by
    obtain ⟨-, sD, -, -, -, rfl⟩ := runStrategy_ok hrunD
    obtain ⟨-, sB, -, -, -, rfl⟩ := runStrategy_ok hrunB
    exact congrArg List.sum (follows_same (fun n _ _ => n) hfollows hnone)
  have hconverged : res.records.countP EvalRecord.converged =
      base.records.countP EvalRecord.converged := by
    have hmap := congrArg (List.countP id) (follows_same (fun _ c _ => c) hfollows hnone)
    rw [List.countP_map, List.countP_map] at hmap
    exact hmap
  have hcorrect : res.records.countP EvalRecord.correct = base.records.countP EvalRecord.correct := by
    have hmap := congrArg (List.countP id) (follows_same (fun _ _ c => c) hfollows hnone)
    rw [List.countP_map, List.countP_map] at hmap
    exact hmap
  obtain ⟨p50, p95, hsummary, -⟩ := summarizeStrategy_ok res
  obtain ⟨p50B, p95B, hsummaryB, -⟩ := summarizeStrategy_ok base
  refine ⟨_, _, hsummary, hsummaryB, ?_, ?_, ?_, ?_, ?_⟩
  · simp only [StrategyResult.summary, htokens, hlength]
  · simp only [StrategyResult.summary, completed_eq hnone, completed_eq hnoneB, hempty, hcorrect,
      hlength]
  · simp only [StrategyResult.summary, hconverged, hlength]
  · simp only [StrategyResult.summary, completed_eq hnone, Nat.sub_self]
  · simp only [StrategyResult.summary, completed_eq hnoneB, Nat.sub_self]

theorem deprioritize_same_quality_counting : ∃ all base res summary summaryB,
    mainAsync 12 countingBenchmark allRuns (fun _ => none) = .ok (some all) ∧
      all .baseline = some base ∧ all .probeDeprioritize = some res ∧
      summarizeStrategy res = .ok summary ∧ summarizeStrategy base = .ok summaryB ∧
      summary.avgTokensPerRequest = summaryB.avgTokensPerRequest ∧
      summary.accuracyOnCompleted = summaryB.accuracyOnCompleted ∧
      summary.convergenceRate = summaryB.convergenceRate ∧
      summary.nTerminated = 0 ∧ summaryB.nTerminated = 0 := by
  obtain ⟨all, base, -, res, hall, hbase, -, hres⟩ := countingBenchmark_results
  obtain ⟨summary, summaryB, h⟩ := deprioritize_same_quality countingModel_rowLocal
    countingModel_hooksLook hall hbase hres
  exact ⟨all, base, res, summary, summaryB, hall, hbase, hres, h⟩

end Report

end PGI
