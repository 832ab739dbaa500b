import ProbeGuidedInference.Benchmark
import ProbeGuidedInference.Conservation
import ProbeGuidedInference.Drain
import ProbeGuidedInference.Serving
import ProbeGuidedInference.TickBoundary
import ProbeGuidedInference.TokenBudget

/- What a benchmark run leaves behind. All requests of `run_strategy` are there before the
   first tick and nobody cancels any, so a future is done exactly when its request has
   finished, and the harness goes on exactly when the batcher has nothing left to do. The
   batcher gets there unless a tick raises; then its task is dead, and the harness, which
   awaits the futures and not the task, never returns. -/
namespace PGI
open Fallible

variable {Col : Type}

/-! The run of the batcher behind it. -/

/-- The submissions of the harness, as events. -/
def Benchmark.workload (b : Benchmark Col) (samples : List Sample) : List (Int × List Nat × Bool) :=
  samples.map (fun sample => (b.maxTokens, b.promptIds sample, false))

/-- All submissions, and then so many ticks. -/
def Benchmark.events (b : Benchmark Col) (ticks : Nat) : List Event :=
  submissions (b.workload b.samples) ++ List.replicate ticks .tick

/-- The request of the `i`-th sample. -/
def Surroundings.evalRequest (around : Surroundings) (sample : Sample) (i : Nat) : EvalRequest :=
  ⟨around.firstId + i, i, sample.answer, around.arrivalTime i⟩

def Benchmark.reqs (b : Benchmark Col) (around : Surroundings) : List EvalRequest :=
  b.samples.zipIdx.map (fun p => around.evalRequest p.1 p.2)

section Submit
variable (b : Benchmark Col) (around : Surroundings)

theorem submitAll_run [Zero Col] (cfg : Config Col) : ∀ (samples : List Sample) (i : Nat)
    (s : Batcher Col), Runs.run (step cfg) s (submissions (b.workload samples)) =
      .ok (submitAll b around i samples s).2 := by
  intro samples
  induction samples with
  | nil => exact fun _ _ => rfl
  | cons sample samples ih =>
    intro i s
    show Runs.run (step cfg) s (.submit b.maxTokens (b.promptIds sample) false ::
      submissions (b.workload samples)) = _
    rw [Runs.run_cons]
    exact ih (i + 1) (submit b.maxTokens (b.promptIds sample) false s)

theorem submitAll_reqs : ∀ (samples : List Sample) (i : Nat) (s : Batcher Col),
    s.nextId = around.firstId + i → (submitAll b around i samples s).1 =
      (samples.zipIdx i).map (fun p => around.evalRequest p.1 p.2) := by
  intro samples
  induction samples with
  | nil => exact fun _ _ _ => rfl
  | cons sample samples ih =>
    intro i s hid
    have hrest := ih (i + 1) (submit b.maxTokens (b.promptIds sample) false s) (by
      show s.nextId + 1 = around.firstId + (i + 1)
      omega)
    rw [List.zipIdx_cons, List.map_cons, ← hrest]
    show (⟨s.nextId, i, sample.answer, around.arrivalTime i⟩ : EvalRequest) :: _ = _
    rw [hid]
    rfl

/-- Every request is as the harness submitted it, and the older ones are as they were. -/
theorem submitAll_requests : ∀ (samples : List Sample) (i : Nat) (s : Batcher Col),
    (∀ r < s.nextId, (submitAll b around i samples s).2.requests r = s.requests r) ∧
    ∀ (j : Nat) (sample : Sample), samples[j]? = some sample →
      (submitAll b around i samples s).2.requests (s.nextId + j) =
        .submitted b.maxTokens (b.promptIds sample) false := by
  intro samples
  induction samples with
  | nil => exact fun _ _ => ⟨fun _ _ => rfl, fun _ _ h => by cases h⟩
  | cons sample samples ih =>
    intro i s
    obtain ⟨hold, hnew⟩ := ih (i + 1) (submit b.maxTokens (b.promptIds sample) false s)
    refine ⟨?_, ?_⟩
    · intro r hr
      calc (submitAll b around i (sample :: samples) s).2.requests r
          = (submit b.maxTokens (b.promptIds sample) false s).requests r :=
            hold r (Nat.lt_succ_of_lt hr)
        _ = s.requests r := submit_requests_ne _ _ _ (Nat.ne_of_lt hr)
    · intro j sample' hj
      cases j with
      | zero =>
        obtain rfl : sample = sample' := by simpa using hj
        calc (submitAll b around i (sample :: samples) s).2.requests s.nextId
            = (submit b.maxTokens (b.promptIds sample) false s).requests s.nextId :=
              hold s.nextId (Nat.lt_succ_self _)
          _ = .submitted b.maxTokens (b.promptIds sample) false := by simp [submit]
      | succ j =>
        have hrest := hnew j sample' (by simpa using hj)
        rw [show s.nextId + (j + 1) = s.nextId + 1 + j by omega]
        exact hrest

end Submit

section Ticks
variable [Zero Col] {cfg : Config Col} {s t : Batcher Col} {L k : Nat}

theorem ticks_works (hs : SysInv cfg s)
    (h : Runs.run (step cfg) s (List.replicate k .tick) = .ok t) : Works cfg s t := by
  induction k generalizing s with
  | zero =>
    obtain rfl : s = t := by simpa using h
    exact .refl
  | succ k ih =>
    rw [List.replicate_succ, Runs.run_cons, bind_eq_ok] at h
    obtain ⟨u, hu, hrest⟩ := h
    have hworks := tick_works hs hu
    exact hworks.trans (ih (hworks.inv hs) hrest)

omit [Zero Col] in
/-- A batcher with potential 0 has nothing left to do. -/
theorem idle_of_potential (hs : SysInv cfg s) (hL : LimitsTo cfg L s) (h : potential L s = 0) :
    Idle s := by
  have hweight : ∀ r ∈ s.submitted, (s.view r).weight L = 0 := by
    intro r hr
    have hle : (s.view r).weight L ≤ potential L s :=
      List.le_sum_of_mem (List.mem_map_of_mem hr)
    omega
  refine ⟨List.eq_nil_iff_forall_not_mem.mpr ?_, List.eq_nil_iff_forall_not_mem.mpr ?_⟩
  · intro r hr
    have hsub := hs.mem_submitted.mpr (.inl hr)
    have hle : L ≤ (s.view r).weight L := weight_pending (hs.loc_pending hr)
    have hlimit := hL r hsub
    have hzero := hweight r hsub
    unfold Config.limit at hlimit
    omega
  · intro r hr
    have hsub := hs.mem_submitted.mpr (.inr (.inl hr))
    have hbelow := (hs.running hr).below_limit (hL r hsub)
    have hzero := hweight r hsub
    rw [weight_active (loc_active hr)] at hzero
    omega

/-- As many ticks as the potential says leave nothing to do, if none of them raises. -/
theorem ticks_idle (hB : 1 ≤ cfg.maxBatchSize) (hs : SysInv cfg s) (hL : LimitsTo cfg L s)
    (hk : 2 * s.submitted.length * L ≤ k)
    (h : Runs.run (step cfg) s (List.replicate k .tick) = .ok t) : Idle t := by
  refine (Runs.run_replicate_idle (V := potential L)
    (I := fun t => SysInv cfg t ∧ LimitsTo cfg L t) ?_ ?_ ?_ ⟨hs, hL⟩
    (.inr ((potential_le s).trans hk)) h).2
  · intro u hI hzero
    exact idle_of_potential hI.1 hI.2 hzero
  · intro u u' hI hidle htick
    have hworks := tick_works hI.1 htick
    exact ⟨⟨hworks.inv hI.1, hworks.limits hI.1 hI.2⟩, tick_potential hB hI.1 hI.2 hidle htick⟩
  · intro u u' hI hidle htick
    obtain rfl : u = u' := Except.ok.inj ((tick_idle hidle).symm.trans htick)
    exact ⟨hI, hidle⟩

theorem ticks_stay_idle (hidle : Idle s) : ∀ k,
    Runs.run (step cfg) s (List.replicate k .tick) = .ok s := by
  intro k
  induction k with
  | zero => rfl
  | succ k ih =>
    rw [List.replicate_succ, Runs.run_cons]
    show tick cfg s >>= _ = _
    rw [tick_idle hidle, ok_bind]
    exact ih

end Ticks

section Gather
variable [Zero Col] {cfg : Config Col} {reqs : List EvalRequest} {s t : Batcher Col}

/-- All futures are done. -/
def AllDone (reqs : List EvalRequest) (s : Batcher Col) : Prop :=
  ∀ req ∈ reqs, (s.requests req.rid).result.done = true

theorem gather_some : ∀ {ticks : Nat} {s : Batcher Col}, gather cfg reqs ticks s = some t →
    AllDone reqs t ∧ ∃ k, Runs.run (step cfg) s (List.replicate k .tick) = .ok t := by
  intro ticks
  induction ticks with
  | zero =>
    intro s h
    unfold gather at h
    split at h
    · rename_i hdone
      obtain rfl := Option.some.inj h
      exact ⟨List.all_eq_true.mp hdone, 0, rfl⟩
    · cases h
  | succ ticks ih =>
    intro s h
    unfold gather at h
    split at h
    · rename_i hdone
      obtain rfl := Option.some.inj h
      exact ⟨List.all_eq_true.mp hdone, 0, rfl⟩
    · split at h
      · cases h
      · rename_i u hu
        obtain ⟨hdone, k, hk⟩ := ih h
        refine ⟨hdone, k + 1, ?_⟩
        rw [List.replicate_succ, Runs.run_cons]
        show tick cfg s >>= _ = _
        rw [hu, ok_bind]
        exact hk

/-- The harness goes on as soon as the futures are done. -/
theorem gather_returns {k ticks : Nat} (hk : k ≤ ticks) (hdone : AllDone reqs t)
    (h : Runs.run (step cfg) s (List.replicate k .tick) = .ok t) :
    ∃ u, gather cfg reqs ticks s = some u := by
  induction ticks generalizing s k with
  | zero =>
    obtain rfl : k = 0 := by omega
    obtain rfl : s = t := by simpa using h
    exact ⟨s, if_pos (List.all_eq_true.mpr hdone)⟩
  | succ ticks ih =>
    unfold gather
    split
    · exact ⟨s, rfl⟩
    · rename_i hnot
      cases k with
      | zero =>
        obtain rfl : s = t := by simpa using h
        exact absurd (List.all_eq_true.mpr hdone) hnot
      | succ k =>
        rw [List.replicate_succ, Runs.run_cons, bind_eq_ok] at h
        obtain ⟨u, hu, hrest⟩ := h
        have htick : tick cfg s = .ok u := hu
        rw [htick]
        exact ih (by omega) hrest

end Gather

/-! The batcher of a run, and its state at the end. -/

/-- The batcher that a run is given. -/
structure Benchmark.Configured (b : Benchmark Col) (strategy : RoutingStrategy) (cfg : Config Col) :
    Prop where
  ofStrategy : cfg.strategy = strategy
  maxBatchSize : cfg.maxBatchSize = b.maxBatchSize
  maxTokensCap : cfg.maxTokensCap = b.maxTokens
  tokenizer : cfg.tokenizer = b.tokenizer.toTokenizer
  threshold : cfg.terminateConfidenceThreshold = b.settings.terminateConfidenceThreshold
  probe : ∃ probe, startupProbe strategy b.file b.settings.toSettings = .ok probe ∧
    cfg.gate = probe.map ProbeArtifact.gate ∧ b.model.captured probe = .ok cfg.model

/-- The batcher of a run when its futures are done. -/
structure Benchmark.Completed [Zero Col] (b : Benchmark Col) (around : Surroundings) (cfg : Config Col)
    (s : Batcher Col) : Prop where
  run : ∃ k, runEvents cfg around.firstId (b.events k) = .ok s
  submitted : s.submitted = List.range' around.firstId b.samples.length
  request : ∀ (i : Nat) (sample : Sample), b.samples[i]? = some sample →
    (s.requests (around.firstId + i)).maxTokens = b.maxTokens ∧
    (s.requests (around.firstId + i)).promptIds = b.promptIds sample
  finished : s.finished.Perm s.submitted
  idle : Idle s

section Configured
variable {b : Benchmark Col} {strategy : RoutingStrategy} {around : Surroundings} {cfg : Config Col}

theorem Benchmark.batcher_ok (h : b.batcher strategy around = .ok cfg) :
    b.Configured strategy cfg := by
  have hstarted := startup_started h
  exact ⟨hstarted.ofStrategy, hstarted.maxBatchSize, hstarted.maxTokensCap, hstarted.ofTokenizer,
    hstarted.threshold, hstarted.probe⟩

/-- It is what a server with the harness's batch size and cap would run. -/
theorem Benchmark.Configured.started (h : b.Configured strategy cfg) :
    Started b.model b.tokenizer.toTokenizer strategy b.file
      { b.settings.toSettings with maxBatchSize := b.maxBatchSize, maxNewTokens := b.maxTokens } cfg :=
  ⟨h.ofStrategy, h.tokenizer, h.maxBatchSize, h.maxTokensCap, h.threshold, h.probe⟩

/-- Every request may get as many tokens as the harness asks for, and one in any case. -/
theorem Benchmark.Configured.limit (h : b.Configured strategy cfg) :
    cfg.limit b.maxTokens = (max 1 b.maxTokens).toNat := by
  unfold Config.limit
  rw [h.maxTokensCap, min_self]

theorem Benchmark.Configured.largestLimit_le (h : b.Configured strategy cfg)
    (samples : List Sample) :
    cfg.largestLimit (b.workload samples) ≤ (max 1 b.maxTokens).toNat := by
  induction samples with
  | nil => exact Nat.zero_le _
  | cons sample samples ih => exact max_le h.limit.le ih

/-- No future is done before its request has finished: the harness cancels none. -/
theorem finished_of_done [Zero Col] {k : Nat} {s : Batcher Col}
    (hrun : runEvents cfg around.firstId (b.events k) = .ok s) {r : Nat} (hr : r ∈ s.submitted)
    (hdone : (s.requests r).result.done = true) : r ∈ s.finished := by
  have hs := runEvents_inv hrun
  by_contra hnot
  have hloc : (s.view r).loc ≠ .finished := by
    rcases hs.mem_submitted.mp hr with h | h | h
    · rw [Batcher.view_loc, hs.loc_pending h]
      decide
    · rw [Batcher.view_loc, loc_active h]
      decide
    · exact absurd h hnot
  rcases (hs.life r hr).answered.waiting hloc with h | h
  · rw [Batcher.view_req] at h
    rw [h] at hdone
    cases hdone
  · have hcancel := runEvents_cancelled hrun hr h
    simp [Benchmark.events, submissions, List.mem_replicate] at hcancel

/-- The requests of the samples are those of the batcher. -/
theorem Benchmark.Completed.mem [Zero Col] {s : Batcher Col} (h : b.Completed around cfg s) {i : Nat}
    {sample : Sample} (hi : b.samples[i]? = some sample) : around.firstId + i ∈ s.submitted := by
  obtain ⟨hlt, -⟩ := List.getElem?_eq_some_iff.mp hi
  rw [h.submitted, List.mem_range']
  exact ⟨i, hlt, by omega⟩

/-- Conversely the futures are done once nothing is left to do. -/
theorem allDone_of_idle [Zero Col] {k : Nat} {s : Batcher Col}
    (hrun : runEvents cfg around.firstId (b.events k) = .ok s) (hidle : Idle s)
    (hsub : s.submitted = List.range' around.firstId b.samples.length) :
    AllDone (b.reqs around) s := by
  intro req hreq
  obtain ⟨p, hp, rfl⟩ := List.mem_map.mp hreq
  have hs := runEvents_inv hrun
  have hr : around.firstId + p.2 ∈ s.submitted := by
    obtain ⟨hlt, -⟩ := List.mem_zipIdx' hp
    rw [hsub, List.mem_range']
    exact ⟨p.2, hlt, by omega⟩
  have hfin : around.firstId + p.2 ∈ s.finished := by
    rcases hs.mem_submitted.mp hr with h | h | h
    · rw [hidle.1] at h
      cases h
    · rw [hidle.2] at h
      cases h
    · exact h
  rcases (hs.life _ hr).answered.done (hs.loc_finished hfin) with h | h
  · rw [Batcher.view_req] at h
    show (s.requests (around.firstId + p.2)).result.done = true
    rw [h]
    rfl
  · rw [Batcher.view_req] at h
    show (s.requests (around.firstId + p.2)).result.done = true
    rw [h]
    rfl

section Run
variable [Zero Col] {s : Batcher Col} {k : Nat}

/-- The batcher when the harness has submitted all samples. -/
def Benchmark.loaded (b : Benchmark Col) (around : Surroundings) : Batcher Col :=
  (submitAll b around 0 b.samples (Batcher.new around.firstId)).2

theorem Benchmark.loaded_spec (around : Surroundings) (h : b.Configured strategy cfg) :
    SysInv cfg (b.loaded around) ∧ LimitsTo cfg (max 1 b.maxTokens).toNat (b.loaded around) ∧
      (b.loaded around).submitted = List.range' around.firstId b.samples.length := by
  have hnew : LimitsTo cfg (max 1 b.maxTokens).toNat (Batcher.new around.firstId) :=
    fun r hr => (by cases hr)
  obtain ⟨t, ht, hs, hL, hsub⟩ := submissions_submitted (b.workload b.samples)
    (h.largestLimit_le b.samples) (Batcher.new around.firstId) (sysInv_new around.firstId) hnew
  have hloaded := submitAll_run b around cfg b.samples 0
    (Batcher.new around.firstId)
  obtain rfl := Except.ok.inj (ht.symm.trans hloaded)
  refine ⟨hs, hL, hsub.trans ?_⟩
  show [] ++ List.range' around.firstId (b.workload b.samples).length = _
  rw [Benchmark.workload, List.length_map]
  rfl

theorem Benchmark.run_events {r : Except (PyError × Batcher Col) (Batcher Col)} :
    runEvents cfg around.firstId (b.events k) = r ↔
      Runs.run (step cfg) (b.loaded around) (List.replicate k .tick) = r := by
  unfold runEvents Benchmark.events
  rw [Runs.run_append, submitAll_run b around cfg b.samples 0, ok_bind]
  rfl

/-- When the futures are done, everything is. -/
theorem Benchmark.completed (h : b.Configured strategy cfg)
    (hrun : runEvents cfg around.firstId (b.events k) = .ok s) (hdone : AllDone (b.reqs around) s) :
    b.Completed around cfg s := by
  obtain ⟨hloaded, -, hids⟩ := b.loaded_spec around h
  have hworks := ticks_works hloaded (Benchmark.run_events.mp hrun)
  have hs := hworks.inv hloaded
  have hsub : s.submitted = List.range' around.firstId b.samples.length := hworks.submitted.trans hids
  have hfin : ∀ r ∈ s.submitted, r ∈ s.finished := by
    intro r hr
    apply finished_of_done hrun hr
    rw [hsub, List.mem_range'] at hr
    obtain ⟨i, hi, rfl⟩ := hr
    have hmem : (b.samples[i], i) ∈ b.samples.zipIdx :=
      List.mem_zipIdx_iff_getElem?.mpr (List.getElem?_eq_getElem hi)
    have hreq := hdone _ (List.mem_map_of_mem hmem)
    rw [Nat.one_mul]
    exact hreq
  refine ⟨⟨k, hrun⟩, hsub, ?_, ?_, ?_, ?_⟩
  · intro i sample hi
    obtain ⟨-, hmax, hprompt⟩ := hworks.request hloaded (around.firstId + i)
    have hreq : (b.loaded around).requests (around.firstId + i) =
        .submitted b.maxTokens (b.promptIds sample) false :=
      (submitAll_requests b around b.samples 0 (Batcher.new around.firstId)).2 i sample hi
    rw [hreq] at hmax hprompt
    exact ⟨hmax, hprompt⟩
  · rw [List.perm_ext_iff_of_nodup hs.finished_nodup hs.nodup]
    intro r
    exact ⟨fun hr => hs.mem_submitted.mpr (.inr (.inr hr)), hfin r⟩
  · rw [List.eq_nil_iff_forall_not_mem]
    intro r hr
    exact hs.pending_not_finished hr (hfin r (hs.mem_submitted.mpr (.inl hr)))
  · rw [List.eq_nil_iff_forall_not_mem]
    intro r hr
    exact hs.active_not_finished hr (hfin r (hs.mem_submitted.mpr (.inr (.inl hr))))

/-- What a run returns, in terms of the batcher behind it. -/
def Benchmark.result (b : Benchmark Col) (strategy : RoutingStrategy) (around : Surroundings)
    (s : Batcher Col) : StrategyResult :=
  let records := (b.reqs around).map (evalRecord b s)
  { strategy
    nRequests := (b.reqs around).length
    maxBatchSize := b.maxBatchSize
    wallClockS := around.wallClockS
    totalTokensGenerated := (records.map EvalRecord.nGenerated).sum
    batcherStats := s.stats
    records }

theorem runStrategy_eq (ticks : Nat) (hcfg : b.batcher strategy around = .ok cfg) :
    runStrategy ticks b strategy around =
      .ok ((gather cfg (b.reqs around) ticks (b.loaded around)).map (b.result strategy around)) := by
  have hreqs : (submitAll b around 0 b.samples (Batcher.new around.firstId)).1 = b.reqs around :=
    submitAll_reqs b around b.samples 0 _ rfl
  unfold runStrategy Benchmark.loaded
  rw [hcfg, ok_bind]
  simp only [hreqs]
  cases gather cfg (b.reqs around) ticks
      (submitAll b around 0 b.samples (Batcher.new around.firstId)).2 with
  | none => rfl
  | some s => rfl

/-- **A run that returns has completed all requests.** -/
theorem runStrategy_ok {ticks : Nat} {res : StrategyResult}
    (h : runStrategy ticks b strategy around = .ok (some res)) :
    ∃ cfg s, b.batcher strategy around = .ok cfg ∧ b.Configured strategy cfg ∧
      b.Completed around cfg s ∧ res = b.result strategy around s := by
  have hcfg : ∃ cfg, b.batcher strategy around = .ok cfg := by
    unfold runStrategy at h
    obtain ⟨cfg, hcfg, -⟩ := bind_eq_ok.mp h
    exact ⟨cfg, hcfg⟩
  obtain ⟨cfg, hcfg⟩ := hcfg
  rw [runStrategy_eq ticks hcfg] at h
  obtain ⟨s, hs, hres⟩ := Option.map_eq_some_iff.mp (Except.ok.inj h)
  obtain ⟨hdone, k, hk⟩ := gather_some hs
  exact ⟨cfg, s, hcfg, b.batcher_ok hcfg,
    b.completed (b.batcher_ok hcfg) (Benchmark.run_events.mpr hk) hdone, hres.symm⟩

/-- Without raising, as many ticks as there may be tokens, twice, leave nothing to do. -/
theorem runStrategy_returns (hcfg : b.batcher strategy around = .ok cfg) (hB : 1 ≤ b.maxBatchSize)
    (hok : ∀ k, ∃ s, runEvents cfg around.firstId (b.events k) = .ok s) {ticks : Nat}
    (hticks : 2 * b.samples.length * (max 1 b.maxTokens).toNat ≤ ticks) :
    ∃ res, runStrategy ticks b strategy around = .ok (some res) := by
  have hconf := b.batcher_ok hcfg
  obtain ⟨hloaded, hL, hids⟩ := b.loaded_spec around hconf
  have hsize : 1 ≤ cfg.maxBatchSize := hconf.maxBatchSize ▸ hB
  obtain ⟨s, hs⟩ := hok (2 * b.samples.length * (max 1 b.maxTokens).toNat)
  have hrun := Benchmark.run_events.mp hs
  have hidle := ticks_idle hsize hloaded hL (by rw [hids, List.length_range']) hrun
  have hsub := (ticks_works hloaded hrun).submitted.trans hids
  obtain ⟨u, hu⟩ := gather_returns hticks (allDone_of_idle hs hidle hsub) hrun
  exact ⟨b.result strategy around u, by rw [runStrategy_eq ticks hcfg, hu]; rfl⟩

/-- A run that returns has nothing left to do, so no tick raises, however many there are. -/
theorem runStrategy_no_raise (hcfg : b.batcher strategy around = .ok cfg) {ticks : Nat}
    {res : StrategyResult} (hres : runStrategy ticks b strategy around = .ok (some res)) (k : Nat) :
    ∃ s, runEvents cfg around.firstId (b.events k) = .ok s := by
  obtain ⟨cfg', s, hcfg', -, hcompleted, -⟩ := runStrategy_ok hres
  obtain rfl := Except.ok.inj (hcfg.symm.trans hcfg')
  obtain ⟨j, hj⟩ := hcompleted.run
  have hrun := Benchmark.run_events.mp hj
  rcases Nat.le_total k j with hle | hle
  · obtain ⟨d, rfl⟩ := Nat.exists_eq_add_of_le hle
    rw [List.replicate_add] at hrun
    obtain ⟨t, ht, -⟩ := Runs.run_append_ok.mp hrun
    exact ⟨t, Benchmark.run_events.mpr ht⟩
  · obtain ⟨d, rfl⟩ := Nat.exists_eq_add_of_le hle
    refine ⟨s, Benchmark.run_events.mpr ?_⟩
    rw [List.replicate_add]
    exact Runs.run_append_ok.mpr ⟨s, hrun, ticks_stay_idle hcompleted.idle d⟩

/-- **When the harness returns.** In a run with a batch size of one at least: if no tick
    raises, `run_strategy` returns within `2 * N * L` ticks, where `N` is the number of
    samples and `L` the number of tokens a request may get; if one raises, the harness
    waits for ever, however long it is given. -/
theorem run_strategy_returns_iff (hcfg : b.batcher strategy around = .ok cfg)
    (hB : 1 ≤ b.maxBatchSize) :
    ((∀ k, ∃ s, runEvents cfg around.firstId (b.events k) = .ok s) ↔
      ∀ ticks, 2 * b.samples.length * (max 1 b.maxTokens).toNat ≤ ticks →
        ∃ res, runStrategy ticks b strategy around = .ok (some res)) ∧
    ((∃ k raised, runEvents cfg around.firstId (b.events k) = .error raised) ↔
      ∀ ticks, runStrategy ticks b strategy around = .ok none) := by
  refine ⟨⟨fun hok ticks hticks => runStrategy_returns hcfg hB hok hticks, ?_⟩, ?_, ?_⟩
  · intro h
    obtain ⟨res, hres⟩ := h _ (le_refl _)
    exact runStrategy_no_raise hcfg hres
  · intro h ticks
    obtain ⟨k, raised, hraise⟩ := h
    rw [runStrategy_eq ticks hcfg]
    cases hg : gather cfg (b.reqs around) ticks (b.loaded around) with
    | none => rfl
    | some s =>
      have hres : runStrategy ticks b strategy around = .ok (some (b.result strategy around s)) := by
        rw [runStrategy_eq ticks hcfg, hg]
        rfl
      obtain ⟨t, ht⟩ := runStrategy_no_raise hcfg hres k
      rw [hraise] at ht
      cases ht
  · intro h
    by_contra hnot
    have hok : ∀ k, ∃ s, runEvents cfg around.firstId (b.events k) = .ok s := by
      intro k
      cases hk : runEvents cfg around.firstId (b.events k) with
      | error raised => exact absurd ⟨k, raised, hk⟩ hnot
      | ok s => exact ⟨s, rfl⟩
    obtain ⟨res, hres⟩ := runStrategy_returns hcfg hB hok (le_refl _)
    rw [h] at hres
    cases hres

end Run

section Main
variable [Zero Col]

/-- What `main_async` has collected is what `run_strategy` has returned, with a record at
    least. -/
theorem mainAsync_results {ticks : Nat} : ∀ (runs : List (RoutingStrategy × Surroundings))
    {all all' : EvalResults}, mainAsync ticks b runs all = .ok (some all') →
    ∀ strategy res, all' strategy = some res → all strategy = some res ∨
      res.records.length ≠ 0 ∧ ∃ around, runStrategy ticks b strategy around = .ok (some res) := by
  intro runs
  induction runs with
  | nil =>
    intro all all' h strategy res hres
    obtain rfl := Option.some.inj (Except.ok.inj h)
    exact .inl hres
  | cons run runs ih =>
    intro all all' h strategy res hres
    obtain ⟨first, around⟩ := run
    unfold mainAsync at h
    obtain ⟨answer, hanswer, h⟩ := bind_eq_ok.mp h
    cases answer with
    | none => cases h
    | some result =>
      simp only at h
      split at h
      · cases h
      · rename_i hrecords
        rcases ih h strategy res hres with hold | hlater
        · by_cases heq : strategy = first
          · subst heq
            rw [Function.update_self] at hold
            obtain rfl := Option.some.inj hold
            exact .inr ⟨hrecords, around, mapError_eq_ok.mp hanswer⟩
          · rw [Function.update_of_ne heq] at hold
            exact .inl hold
        · exact .inr hlater

theorem mainAsync_result {ticks : Nat} {runs : List (RoutingStrategy × Surroundings)}
    {all : EvalResults} (h : mainAsync ticks b runs (fun _ => none) = .ok (some all))
    {res : StrategyResult} (hres : all strategy = some res) :
    ∃ around, runStrategy ticks b strategy around = .ok (some res) := by
  rcases mainAsync_results runs h strategy res hres with hnone | ⟨-, hrun⟩
  · cases hnone
  · exact hrun

theorem mainAsync_records {ticks : Nat} {runs : List (RoutingStrategy × Surroundings)}
    {all : EvalResults} (h : mainAsync ticks b runs (fun _ => none) = .ok (some all))
    {res : StrategyResult} (hres : all strategy = some res) : res.records.length ≠ 0 := by
  rcases mainAsync_results runs h strategy res hres with hnone | ⟨hrecords, -⟩
  · cases hnone
  · exact hrecords

/-- With a sample at least, and runs that return, there is a result for each strategy asked
    for. -/
theorem mainAsync_returns {ticks : Nat} (hne : b.samples ≠ []) :
    ∀ (runs : List (RoutingStrategy × Surroundings)) (all : EvalResults),
    (∀ run ∈ runs, ∃ res, runStrategy ticks b run.1 run.2 = .ok (some res)) →
    ∃ all', mainAsync ticks b runs all = .ok (some all') ∧
      ∀ strategy, (all' strategy).isSome = true ↔
        (all strategy).isSome = true ∨ strategy ∈ runs.map Prod.fst := by
  intro runs
  induction runs with
  | nil => exact fun all _ => ⟨all, rfl, fun _ => by simp⟩
  | cons run runs ih =>
    intro all hruns
    obtain ⟨res, hres⟩ := hruns run List.mem_cons_self
    have hrecords : res.records.length ≠ 0 := by
      obtain ⟨cfg, s, -, -, -, rfl⟩ := runStrategy_ok hres
      show ((b.samples.zipIdx.map _).map _).length ≠ 0
      simpa using hne
    obtain ⟨all', hall', hkeys⟩ := ih (Function.update all run.1 (some res))
      (fun later hlater => hruns later (List.mem_cons_of_mem _ hlater))
    refine ⟨all', ?_, ?_⟩
    · unfold mainAsync
      rw [hres]
      show (if res.records.length = 0 then _ else _) = _
      rw [if_neg hrecords]
      exact hall'
    · intro strategy
      rw [hkeys, List.map_cons, List.mem_cons]
      by_cases heq : strategy = run.1
      · subst heq
        simp
      · rw [Function.update_of_ne heq]
        simp [heq]

end Main

end Configured

/-! A benchmark to evaluate. -/

/-- A model that counts, and a hook that captures two zeros. -/
def countingModel : LanguageModel TokenColumn where
  unhooked := tableModel (fun token _ => token + 1)
  hooked _ := .ok ((tableModel (fun token _ => token + 1)).withHidden (fun _ => [0, 0])
    (fun _ _ _ => [0, 0]))

/-- A probe for the second token that finds every request divergent. -/
def divergentBundle : Bundle where
  pipeline := some ⟨fun _ _ => .ok (1 / 10)⟩
  trainedLayer := some 16
  trainedCheckpoint := some 2
  expectedHiddenDim := some 2
  nTrainSamples := some 200
  trainAuc := some (.number (61 / 100))

/-- Two problems, one at a time, with prompts that start the count at 1 and at 3; a count
    that reaches 5 has converged. -/
def countingBenchmark : Benchmark TokenColumn where
  model := countingModel
  tokenizer := {
    eosTokenId := 0
    decode := fun ids => String.ofList (ids.map Char.ofNat)
    applyChatTemplate := id
    inputIds := fun text => if text = "first" then [1] else [3] }
  text := ⟨fun _ => none, id⟩
  settings := { checkpointPosition := 2, thinkEndTokenId := 5 }
  file := some divergentBundle
  samples := [⟨"first", ['2']⟩, ⟨"second", ['4']⟩]
  maxBatchSize := 1
  maxTokens := 3

def countingSurroundings : Surroundings where
  runtime := listOrder
  firstId := 1
  arrivalTime _ := 0
  wallClockS := 12

theorem countingBenchmark_serves (strategy : RoutingStrategy) :
    ∃ cfg, countingBenchmark.batcher strategy countingSurroundings = .ok cfg ∧ cfg.Serves := by
  have hraises : (tableModel (fun token _ => token + 1)).NeverRaises := tableModel_neverRaises _
  have hprobed : ∀ cfg : Config TokenColumn,
      cfg.model = (tableModel (fun token _ => token + 1)).withHidden (fun _ => [0, 0])
        (fun _ _ _ => [0, 0]) →
      cfg.gate = some (ProbeArtifact.gate ⟨⟨fun _ _ => .ok (1 / 10)⟩, 16, 2, 2, 200, .number (61 / 100)⟩) →
      cfg.Serves := by
    intro cfg hmodel hgate
    refine serves_of_width (d := 2) ?_ (.inr hgate) ?_ rfl (fun _ _ _ => ⟨_, rfl⟩)
    · rw [hmodel]
      exact withHidden_neverRaises hraises
    · rw [hmodel]
      exact withHidden_width (fun _ _ _ => rfl)
  cases strategy with
  | baseline => exact ⟨_, rfl, hraises, fun _ _ _ _ _ _ g hg => by cases hg⟩
  | probeTerminate => exact ⟨_, rfl, hprobed _ rfl rfl⟩
  | probeDeprioritize => exact ⟨_, rfl, hprobed _ rfl rfl⟩

/-- It returns under every strategy. -/
theorem countingBenchmark_returns (strategy : RoutingStrategy) :
    ∃ res, runStrategy 12 countingBenchmark strategy countingSurroundings = .ok (some res) := by
  obtain ⟨cfg, hcfg, hserves⟩ := countingBenchmark_serves strategy
  exact runStrategy_returns hcfg (by decide) (fun k => hserves.runs _ _) (by decide)

/-- The strategies in the order in which the harness runs them. -/
def allRuns : List (RoutingStrategy × Surroundings) :=
  [(.baseline, countingSurroundings), (.probeTerminate, countingSurroundings),
    (.probeDeprioritize, countingSurroundings)]

/-- All three runs of the counting benchmark return. -/
theorem countingBenchmark_results : ∃ all base terminated deprioritized,
    mainAsync 12 countingBenchmark allRuns (fun _ => none) = .ok (some all) ∧
      all .baseline = some base ∧ all .probeTerminate = some terminated ∧
      all .probeDeprioritize = some deprioritized := by
  have hruns : ∀ run ∈ allRuns,
      ∃ res, runStrategy 12 countingBenchmark run.1 run.2 = .ok (some res) := by
    intro run hrun
    have hsame : run.2 = countingSurroundings := by
      simp only [allRuns, List.mem_cons, List.not_mem_nil, or_false] at hrun
      obtain rfl | rfl | rfl := hrun
      · rfl
      · rfl
      · rfl
    rw [hsame]
    exact countingBenchmark_returns run.1
  obtain ⟨all, hall, hkeys⟩ := mainAsync_returns (by decide) allRuns (fun _ => none) hruns
  obtain ⟨base, hbase⟩ := Option.isSome_iff_exists.mp ((hkeys .baseline).mpr (.inr (by decide)))
  obtain ⟨terminated, hterminated⟩ :=
    Option.isSome_iff_exists.mp ((hkeys .probeTerminate).mpr (.inr (by decide)))
  obtain ⟨deprioritized, hdeprioritized⟩ :=
    Option.isSome_iff_exists.mp ((hkeys .probeDeprioritize).mpr (.inr (by decide)))
  exact ⟨all, base, terminated, deprioritized, hall, hbase, hterminated, hdeprioritized⟩

theorem run_strategy_returns_iff_counting :
    ∃ cfg, countingBenchmark.batcher .probeDeprioritize countingSurroundings = .ok cfg ∧
      ((∀ k, ∃ s, runEvents cfg countingSurroundings.firstId (countingBenchmark.events k) = .ok s) ↔
        ∀ ticks, 2 * countingBenchmark.samples.length * (max 1 countingBenchmark.maxTokens).toNat ≤ ticks →
          ∃ res, runStrategy ticks countingBenchmark .probeDeprioritize countingSurroundings =
            .ok (some res)) ∧
      ((∃ k raised,
          runEvents cfg countingSurroundings.firstId (countingBenchmark.events k) = .error raised) ↔
        ∀ ticks, runStrategy ticks countingBenchmark .probeDeprioritize countingSurroundings =
          .ok none) := by
  obtain ⟨cfg, hcfg, -⟩ := countingBenchmark_serves .probeDeprioritize
  exact ⟨cfg, hcfg, run_strategy_returns_iff hcfg (by decide)⟩

end PGI
