import Mathlib.Tactic.Linarith
import ProbeGuidedInference.BenchmarkRun
import ProbeGuidedInference.BoundedPreemption
import ProbeGuidedInference.ProbeTerminate

/- The figures of one benchmark run. The harness reads the records off the request objects
   and the statistics off the batcher's counters; here is that the two agree, whatever the
   strategy and the answers of model and probe, and what a record says of a request that
   the probe has stopped. -/
namespace PGI
open Fallible

variable {Col : Type}

/-! What the counters and a finished request hold. -/

section Run
variable {cfg : Config Col} {rid : Nat} {v : View Col}

/-- Preemptions happen under `probe_deprioritize` only. -/
theorem runEvents_unpreempted [Zero Col] (hstrategy : cfg.strategy ≠ .probeDeprioritize)
    {firstId : Nat} {events : List Event} {s : Batcher Col}
    (h : runEvents cfg firstId events = .ok s) : s.totalPreemptions = 0 := by
  refine (runEvents_keep (I := fun s => s.totalPreemptions = 0) rfl (fun _ _ _ _ _ h => h)
    (fun _ _ _ h _ => h) ?_ h).2
  intro s s' _ hzero hw
  cases hw with
  | admission rid rest _ _ h => rw [h.totalPreemptions, hzero]
  | swap _ _ _ hdeprioritize => exact absurd hdeprioritize hstrategy
  | decode _ h => rw [h.totalPreemptions, hzero]

/-- At most one preemption for each request beyond the first `max_batch_size`. -/
theorem runEvents_preemptions_le [Zero Col] {firstId : Nat} {events : List Event} {s : Batcher Col}
    (h : runEvents cfg firstId events = .ok s) :
    s.totalPreemptions ≤ s.submitted.length - cfg.maxBatchSize := by
  have hpaid := runEvents_paidUp h
  have hfirst : (firstAdmissions s.log).length ≤ s.submitted.length := by
    rw [← hpaid.served.first, List.length_append]
    exact Nat.le_add_right _ _
  have hbound := hpaid.paid.bound
  have hcounter := hpaid.counter
  omega

/-- A finished request has a completion time. -/
theorem LifeReach.completed (h : LifeReach cfg rid v) :
    v.loc = .finished → v.req.completionTime.isSome = true := by
  refine h.keep_moves (P := fun v => v.loc = .finished → v.req.completionTime.isSome = true)
    ?_ ?_ ?_ ?_ ?_ ?_
  · intro maxTokens promptIds stream hc
    cases hc
  · intro v h
    exact h
  · intro v waiting out _ _ _ hc
    cases hc
  · intro v cols _ _ row answer _ _ _ _ _ _ hc
    cases hc
  · intro v _ _ _ _ hc
    cases hc
  · intro v time _ _ _
    rfl

/-- The finish reason is the probe's exactly if the flag is set. -/
theorem Reasoned.reason (h : Reasoned cfg rid v) (hloc : v.loc = .finished) :
    v.req.finishReason = some .probeTerminated ∧ v.req.terminatedByProbe = true ∨
    v.req.terminatedByProbe = false ∧ v.req.finishReason =
      some (if v.req.generatedIds.getLast? = some cfg.tokenizer.eosTokenId then .eos
        else .maxTokens) := by
  rcases h.done hloc with ⟨hnot, -, -, hreason⟩ | ⟨hterm, hreason, -⟩
  · exact .inr ⟨hnot, hreason⟩
  · exact .inl ⟨hreason, hterm⟩

end Run

/-- What the pipeline said of a request that was stopped: at its checkpoint, of a hidden
    vector at the position before its last token, so low a probability of convergence. -/
structure StopEvidence (probe : ProbeArtifact) (threshold : ℚ) (r : GenerationRequest) : Prop where
  tokens : (r.nGenerated : Int) = max 2 probe.trainedCheckpoint
  answered : ∃ k vec p, probe.pipeline.probConvergent k vec = .ok p ∧
    (vec.length : Int) = probe.expectedHiddenDim ∧ p ≤ 1 / 2 ∧ p < 1 - threshold ∧
    r.routingDecision = some ⟨.divergent, 1 - p, probe.trainedCheckpoint⟩

/-- A divergent answer of the gate is a probability of at most one half. -/
theorem gate_divergent {probe : ProbeArtifact} {k : Nat} {vec : List ℚ} {d : RoutingDecision}
    (h : probe.gate.classify k vec = .ok d) (hd : d.isDivergent = true) :
    ∃ p, probe.pipeline.probConvergent k vec = .ok p ∧
      (vec.length : Int) = probe.expectedHiddenDim ∧ p ≤ 1 / 2 ∧
      d = ⟨.divergent, 1 - p, probe.trainedCheckpoint⟩ := by
  unfold ProbeArtifact.gate at h
  simp only at h
  split at h
  · cases h
  · rename_i hdim
    obtain ⟨answer, hpredict, h⟩ := bind_eq_ok.mp h
    obtain ⟨p, hp, hanswer⟩ := bind_eq_ok.mp (mapError_eq_ok.mp hpredict)
    obtain rfl := Except.ok.inj hanswer
    obtain rfl := Except.ok.inj h
    have hle : p ≤ 1 / 2 := by
      by_contra hgt
      rw [not_le] at hgt
      simp only [RoutingDecision.isDivergent, gt_iff_lt, if_pos hgt] at hd
      exact absurd hd (by decide)
    have hmax : max p (1 - p) = 1 - p := max_eq_right (by linarith)
    refine ⟨p, hp, not_not.mp hdim, hle, ?_⟩
    simp only [hmax, gt_iff_lt, not_lt.mpr hle, if_false]

/-- **A request is stopped on evidence.** In every run with a probe, a request that has the
    flag has as many tokens as the checkpoint says (two at least), and at that point the
    pipeline gave a vector of its hooked row a probability below one less the threshold. -/
theorem SysInv.stopEvidence {cfg : Config Col} {s : Batcher Col} (hs : SysInv cfg s)
    {probe : ProbeArtifact} (hgate : cfg.gate = some probe.gate) {r : Nat} (hr : r ∈ s.submitted)
    (hterm : (s.requests r).terminatedByProbe = true) :
    StopEvidence probe cfg.terminateConfidenceThreshold (s.requests r) := by
  have hlife := hs.life r hr
  have hstrategy : cfg.strategy = .probeTerminate := ((hs.lifeInv hr).terminated hterm).2
  have hstopped := hlife.stopped (by rw [hstrategy]; decide)
  obtain ⟨n, row, d, hmem, hstop⟩ := hstopped.flag.mp hterm
  obtain ⟨hn, hshown⟩ := (hlife.checked hgate).shown n row d hmem
  have hlength : (s.requests r).nGenerated = n := hstopped.length n row d hmem hstop
  have hdecided : (s.requests r).routingDecision = some d := hstopped.decided n row d hmem
  have hd : d.isDivergent = true ∧ cfg.terminateConfidenceThreshold < d.confidence := by
    simpa [Config.stops, hstrategy] using hstop
  obtain ⟨k, hanswer⟩ := hshown.answer
  obtain ⟨p, hp, hdim, hle, rfl⟩ := gate_divergent hanswer hd.1
  refine ⟨?_, k, row.hidden, p, hp, hdim, hle, ?_, hdecided⟩
  · rw [hlength]
    exact hn
  · have hconfidence : cfg.terminateConfidenceThreshold < 1 - p := hd.2
    linarith

/-- On a server that has started, that is the checkpoint and the threshold of its settings. -/
theorem Started.stopped {model : LanguageModel Col} {tokenizer : Tokenizer}
    {strategy : RoutingStrategy} {file : Option Bundle} {settings : Settings} {cfg : Config Col}
    (h : Started model tokenizer strategy file settings cfg) {s : Batcher Col} (hs : SysInv cfg s)
    {r : Nat} (hr : r ∈ s.submitted) (hterm : (s.requests r).terminatedByProbe = true) :
    strategy = .probeTerminate ∧
      ((s.requests r).nGenerated : Int) = max 2 settings.checkpointPosition ∧
      ∃ d, (s.requests r).routingDecision = some d ∧ d.label = .divergent ∧
        settings.terminateConfidenceThreshold < d.confidence := by
  have hstrategy := ((hs.lifeInv hr).terminated hterm).2
  rw [h.ofStrategy] at hstrategy
  rcases h.probed with ⟨hbaseline, -⟩ | ⟨probe, hgate, -, hcheckpoint⟩
  · rw [hbaseline] at hstrategy
    cases hstrategy
  · have hstop := hs.stopEvidence hgate hr hterm
    obtain ⟨-, -, p, -, -, -, hlow, hdecision⟩ := hstop.answered
    refine ⟨hstrategy, ?_, _, hdecision, rfl, ?_⟩
    · rw [← hcheckpoint]
      exact hstop.tokens
    · show settings.terminateConfidenceThreshold < 1 - p
      rw [h.threshold] at hlow
      linarith

/-! The records and the statistics. -/

/-- What every record of a run says. -/
structure EvalRecord.Accounted (b : Benchmark Col) (strategy : RoutingStrategy) (r : EvalRecord) :
    Prop where
  tokens : 1 ≤ r.nGenerated ∧ r.nGenerated ≤ (max 1 b.maxTokens).toNat
  completed : r.completionTime.isSome = true
  reason : if r.terminatedByProbe then r.finishReason = some .probeTerminated
    else r.finishReason = some .eos ∨ r.finishReason = some .maxTokens
  unrouted : strategy = .baseline → r.routingLabel = none ∧ r.routingConfidence = none
  evidence : r.terminatedByProbe = true → strategy = .probeTerminate ∧
    (r.nGenerated : Int) = max 2 b.settings.checkpointPosition ∧ r.routingLabel = some .divergent ∧
    ∃ confidence, r.routingConfidence = some confidence ∧
      b.settings.terminateConfidenceThreshold < confidence

/-- The figures of a result fit together. -/
structure StrategyResult.Accounted (res : StrategyResult) (b : Benchmark Col) : Prop where
  indices : res.records.map EvalRecord.aimeIdx = List.range b.samples.length
  nRequests : res.nRequests = b.samples.length
  finished : res.batcherStats.totalFinished = b.samples.length
  admitted : res.batcherStats.totalAdmitted = b.samples.length + res.batcherStats.totalPreemptions
  preemptions : res.batcherStats.totalPreemptions ≤ b.samples.length - b.maxBatchSize
  unpreempted : res.strategy ≠ .probeDeprioritize → res.batcherStats.totalPreemptions = 0
  terminated :
    res.batcherStats.totalProbeTerminated = res.records.countP EvalRecord.terminatedByProbe
  tokens : b.samples.length ≤ res.totalTokensGenerated ∧
    res.totalTokensGenerated ≤ b.samples.length * (max 1 b.maxTokens).toNat
  record : ∀ r ∈ res.records, r.Accounted b res.strategy

section Result
variable {b : Benchmark Col} {strategy : RoutingStrategy} {around : Surroundings} {cfg : Config Col}

theorem reqs_rid (b : Benchmark Col) (around : Surroundings) :
    (b.reqs around).map EvalRequest.rid = List.range' around.firstId b.samples.length := by
  unfold Benchmark.reqs
  rw [List.map_map]
  calc b.samples.zipIdx.map (fun p => around.firstId + p.2)
      = (b.samples.zipIdx.map Prod.snd).map (around.firstId + ·) := by rw [List.map_map]; rfl
    _ = List.range' around.firstId b.samples.length := by
      rw [List.zipIdx_map_snd, List.map_add_range', Nat.add_zero]

theorem reqs_aimeIdx (b : Benchmark Col) (around : Surroundings) :
    (b.reqs around).map EvalRequest.aimeIdx = List.range b.samples.length := by
  unfold Benchmark.reqs
  rw [List.map_map, List.range_eq_range', ← List.zipIdx_map_snd]
  rfl

/-- The gate of a run wraps a probe for the checkpoint of the settings, unless it is baseline. -/
theorem Benchmark.Configured.probed (h : b.Configured strategy cfg) :
    (strategy = .baseline ∧ cfg.gate = none) ∨ ∃ probe : ProbeArtifact, cfg.gate = some probe.gate ∧
      strategy ≠ .baseline ∧ probe.trainedCheckpoint = b.settings.checkpointPosition :=
  h.started.probed

variable [Zero Col] {s : Batcher Col}

theorem evalRecord_accounted (hconf : b.Configured strategy cfg) (h : b.Completed around cfg s)
    {req : EvalRequest} (hreq : req ∈ b.reqs around) :
    (evalRecord b s req).Accounted b strategy := by
  obtain ⟨k, hrun⟩ := h.run
  have hs := runEvents_inv hrun
  obtain ⟨p, hp, rfl⟩ := List.mem_map.mp hreq
  have hget := List.mem_zipIdx_iff_getElem?.mp hp
  have hmem : (around.evalRequest p.1 p.2).rid ∈ s.submitted := by
    rw [h.submitted, ← reqs_rid b around]
    exact List.mem_map_of_mem hreq
  have hfin := h.finished.mem_iff.mpr hmem
  have hloc := hs.loc_finished hfin
  have hlife := hs.life _ hmem
  have hinv := hs.lifeInv hmem
  obtain ⟨hmax, -⟩ := h.request p.2 p.1 hget
  refine ⟨⟨?_, ?_⟩, hlife.completed hloc, ?_, ?_, ?_⟩
  · exact List.length_pos_iff.mpr (hinv.done hloc).2.2
  · have hbudget : ((s.requests (around.firstId + p.2)).nGenerated : Int) ≤
        max 1 (min (s.requests (around.firstId + p.2)).maxTokens cfg.maxTokensCap) :=
      hlife.withinBudget
    rw [hmax, hconf.maxTokensCap, min_self] at hbudget
    show (s.requests (around.firstId + p.2)).nGenerated ≤ (max 1 b.maxTokens).toNat
    omega
  · rcases hlife.reasoned.reason hloc with ⟨hreason, hterm⟩ | ⟨hterm, hreason⟩
    · rw [Batcher.view_req] at hreason hterm
      simp [evalRecord, hreason, hterm]
    · rw [Batcher.view_req] at hreason hterm
      simp only [evalRecord, hreason, hterm]
      split
      · rename_i hfalse
        cases hfalse
      · split
        · exact .inl rfl
        · exact .inr rfl
  · intro hbaseline
    rcases hconf.probed with ⟨-, hgate⟩ | ⟨probe, -, hne, -⟩
    · have hnone : (s.requests (around.firstId + p.2)).routingDecision = none := hinv.gateless hgate
      simp [evalRecord, Surroundings.evalRequest, hnone]
    · exact absurd hbaseline hne
  · intro hterm
    obtain ⟨hstrategy, htokens, d, hdecision, hlabel, hconfidence⟩ :=
      hconf.started.stopped hs hmem hterm
    refine ⟨hstrategy, htokens, ?_, d.confidence, ?_, hconfidence⟩
    · simp [evalRecord, hdecision, hlabel]
    · simp [evalRecord, hdecision]

theorem runStrategy_record {ticks : Nat} {res : StrategyResult}
    (h : runStrategy ticks b strategy around = .ok (some res)) :
    ∀ r ∈ res.records, r.Accounted b strategy := by
  obtain ⟨cfg, s, -, hconf, hcompleted, rfl⟩ := runStrategy_ok h
  intro r hr
  obtain ⟨req, hreq, rfl⟩ := List.mem_map.mp hr
  exact evalRecord_accounted hconf hcompleted hreq

theorem runStrategy_accounted {ticks : Nat} {res : StrategyResult}
    (h : runStrategy ticks b strategy around = .ok (some res)) :
    res.strategy = strategy ∧ res.Accounted b := by
  have hrecord := runStrategy_record h
  obtain ⟨cfg, s, -, hconf, hcompleted, rfl⟩ := runStrategy_ok h
  obtain ⟨k, hrun⟩ := hcompleted.run
  have hacc := runEvents_accounted hrun
  have hlength : s.finished.length = b.samples.length := by
    rw [hcompleted.finished.length_eq, hcompleted.submitted, List.length_range']
  have hfinished : s.totalFinished = b.samples.length :=
    (runEvents_counted hrun).totalFinished.trans hlength
  have hreqs : (b.reqs around).length = b.samples.length := by simp [Benchmark.reqs]
  refine ⟨rfl, ?_, hreqs, hfinished, ?_, ?_, ?_, ?_, ⟨?_, ?_⟩, hrecord⟩
  · show ((b.reqs around).map (evalRecord b s)).map EvalRecord.aimeIdx = _
    rw [List.map_map, ← reqs_aimeIdx b around]
    rfl
  · have hbalance := hacc.balance
    rw [hfinished, hcompleted.idle.2, List.length_nil, Nat.add_zero] at hbalance
    exact hbalance
  · have hle := runEvents_preemptions_le hrun
    rw [hcompleted.submitted, List.length_range', hconf.maxBatchSize] at hle
    exact hle
  · intro hne
    exact runEvents_unpreempted (hconf.ofStrategy ▸ hne) hrun
  · show s.totalProbeTerminated = ((b.reqs around).map (evalRecord b s)).countP _
    rw [hacc.probeTerminated, hcompleted.finished.countP_eq, hcompleted.submitted,
      ← reqs_rid b around, List.countP_map, List.countP_map]
    rfl
  · have hlow := List.length_le_sum_of_one_le (((b.reqs around).map (evalRecord b s)).map
      EvalRecord.nGenerated) (by simpa using fun req hreq =>
        (evalRecord_accounted hconf hcompleted hreq).tokens.1)
    rwa [List.length_map, List.length_map, hreqs] at hlow
  · have hhigh : Potential.total ((b.reqs around).map (evalRecord b s)) EvalRecord.nGenerated ≤ _ :=
      Potential.total_le (fun r hr => (hrecord r hr).tokens.2)
    rwa [List.length_map, hreqs] at hhigh

/-- **The figures of a benchmark fit together.** Whatever the strategies and the answers of
    model and probe, each result that is written has one record for each sample, in order;
    each request was admitted once and again after each of its preemptions; the batcher's
    counter of probe terminations is the number of records with the flag; and each such
    record has the tokens, the label and the confidence that the settings ask for. -/
theorem benchmark_accounted {ticks : Nat} {runs : List (RoutingStrategy × Surroundings)}
    {all : EvalResults} (hall : mainAsync ticks b runs (fun _ => none) = .ok (some all))
    {res : StrategyResult} (hres : all strategy = some res) :
    res.strategy = strategy ∧ res.Accounted b := by
  obtain ⟨around, hrun⟩ := mainAsync_result hall hres
  exact runStrategy_accounted hrun

theorem benchmark_accounted_counting : ∃ all base res,
    mainAsync 12 countingBenchmark allRuns (fun _ => none) = .ok (some all) ∧
      all .baseline = some base ∧ all .probeTerminate = some res ∧
      res.strategy = .probeTerminate ∧ res.Accounted countingBenchmark := by
  obtain ⟨all, base, res, -, hall, hbase, hres, -⟩ := countingBenchmark_results
  exact ⟨all, base, res, hall, hbase, hres, benchmark_accounted hall hres⟩

end Result

end PGI
