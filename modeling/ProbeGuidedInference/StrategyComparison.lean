import ProbeGuidedInference.EvalRecords
import ProbeGuidedInference.Solo

/- The strategies of one benchmark, compared. The harness runs them one after the other on
   the same model. Where a row of a decode forward does not depend on the other rows
   (`Model.RowLocal`) and the hook, which returns nothing, changes no output (`HooksLook`),
   they differ in nothing but when a request is decoded and whether the probe stops it. So
   a record is that of baseline, except that it ends where the probe ended it; and
   baseline's is the generation of the problem alone. Both are assumed: on a real device
   the batch a row shares may change its last bits. -/
namespace PGI
open Fallible

variable {Col : Type}

/-! A model with a hook. -/

section Hidden
variable {m : Model Col} (hm : m.RowLocal) (prompt : List Nat → List ℚ)
  (row : Nat → DecodeInput Col → Nat → List ℚ)

def Model.RowLocal.withHidden : (m.withHidden prompt row).RowLocal where
  prefillOf promptIds := { hm.prefillOf promptIds with hidden := prompt promptIds }
  rowOf := hm.rowOf
  prefill_eq n promptIds := by
    show (m.prefill n promptIds).map _ = _
    rw [hm.prefill_eq]
    rfl
  decode_eq n inp hwell := by
    obtain ⟨out, hout, hrows⟩ := hm.decode_eq n inp hwell
    refine ⟨⟨out.val.mapIdx (fun i r => { r with hidden := row n inp i }), by
      rw [List.length_mapIdx, out.property]⟩, ?_, ?_⟩
    · show (m.decode n inp).map _ = _
      rw [hout]
      rfl
    · intro i token position mask r htoken hposition hmask hone hr
      simp only [List.getElem?_mapIdx] at hr
      obtain ⟨r', hr', heq⟩ := Option.map_eq_some_iff.mp hr
      subst heq
      exact hrows i token position mask r' htoken hposition hmask hone hr'

/-- Alone, a request is generated alike with and without the hook. -/
theorem soloAt_withHidden (promptIds : List Nat) (k : Nat) :
    (soloAt (hm.withHidden prompt row) promptIds k).ids = (soloAt hm promptIds k).ids ∧
      (soloAt (hm.withHidden prompt row) promptIds k).cols = (soloAt hm promptIds k).cols := by
  induction k with
  | zero => exact ⟨rfl, rfl⟩
  | succ k ih =>
    obtain ⟨hids, hcols⟩ := ih
    have hposition : (soloAt (hm.withHidden prompt row) promptIds k).position =
        (soloAt hm promptIds k).position := by
      rw [soloAt_position, soloAt_position]
    rw [soloAt_succ, soloAt_succ]
    unfold soloNext
    simp only [hids, hcols, hposition]
    exact ⟨rfl, rfl⟩

end Hidden

/-- Hooked or not, a model generates alone what the unhooked one does. -/
theorem captured_rowLocal {model : LanguageModel Col} (hm : model.unhooked.RowLocal)
    (hlooks : model.HooksLook) {probe : Option ProbeArtifact} {m : Model Col}
    (h : model.captured probe = .ok m) :
    ∃ hm' : m.RowLocal, ∀ promptIds k, (soloAt hm' promptIds k).ids = (soloAt hm promptIds k).ids := by
  cases probe with
  | none =>
    obtain rfl := Except.ok.inj h
    exact ⟨hm, fun _ _ => rfl⟩
  | some probe =>
    obtain ⟨prompt, row, rfl⟩ := hlooks _ _ (mapError_eq_ok.mp h)
    exact ⟨hm.withHidden prompt row, fun promptIds k => (soloAt_withHidden hm prompt row promptIds k).1⟩

/-! What one run generates. -/

/-- The end of a request of this benchmark. -/
def Benchmark.ended (b : Benchmark Col) (ids : List Nat) : Bool :=
  ids.getLast? = some b.tokenizer.eosTokenId ∨ (ids.length : Int) ≥ b.maxTokens

/-- A request of a run has the tokens that its problem gets alone, up to decode `k`, none of
    the earlier of which was its end. -/
structure UpTo {b : Benchmark Col} (hm : b.model.unhooked.RowLocal) (sample : Sample)
    (r : GenerationRequest) (k : Nat) : Prop where
  tokens : r.generatedIds = (soloAt hm (b.promptIds sample) k).ids
  first : ∀ j < k, b.ended (soloAt hm (b.promptIds sample) j).ids = false
  last : r.terminatedByProbe = false → b.ended (soloAt hm (b.promptIds sample) k).ids = true

section Generated
variable {b : Benchmark Col} {strategy : RoutingStrategy} {around : Surroundings} {cfg : Config Col}
  (hm : b.model.unhooked.RowLocal) (hlooks : b.model.HooksLook)

theorem Benchmark.Configured.soloEnded (hconf : b.Configured strategy cfg) (ids : List Nat) :
    cfg.soloEnded b.maxTokens ids = b.ended ids := by
  unfold Config.soloEnded Benchmark.ended
  rw [hconf.maxTokensCap, hconf.tokenizer, min_self]

include hlooks in
theorem Benchmark.Completed.upTo [Zero Col] {s : Batcher Col} (hconf : b.Configured strategy cfg)
    (h : b.Completed around cfg s) {i : Nat} {sample : Sample} (hi : b.samples[i]? = some sample) :
    ∃ k, UpTo hm sample (s.requests (around.firstId + i)) k := by
  obtain ⟨run, hrun⟩ := h.run
  have hs := runEvents_inv hrun
  have hmem := h.mem hi
  obtain ⟨hmax, hprompt⟩ := h.request i sample hi
  obtain ⟨probe, -, -, hcaptured⟩ := hconf.probe
  obtain ⟨hm', hsame⟩ := captured_rowLocal hm hlooks hcaptured
  obtain ⟨k, hmatch, hlast⟩ :=
    ((hs.life _ hmem).onSolo hm').done (hs.loc_finished (h.finished.mem_iff.mpr hmem))
  have hfirst := hmatch.first
  have htokens := hmatch.tokens
  simp only [Batcher.view_req, hmax, hprompt, hsame, hconf.soloEnded] at hfirst htokens hlast
  exact ⟨k, htokens, hfirst, hlast⟩

end Generated

/-! Two runs. -/

/-- A record against that of baseline for the same problem. -/
structure EvalRecord.Follows (r base : EvalRecord) : Prop where
  aimeIdx : r.aimeIdx = base.aimeIdx
  completed : r.terminatedByProbe = false → r.nGenerated = base.nGenerated ∧
    r.converged = base.converged ∧ r.correct = base.correct ∧ r.finishReason = base.finishReason
  cutShort : r.terminatedByProbe = true → r.nGenerated ≤ base.nGenerated ∧
    (r.converged = true → base.converged = true)

section TwoRuns
variable {b : Benchmark Col} (hm : b.model.unhooked.RowLocal) {sample : Sample}
  {r base : GenerationRequest} {k last : Nat}

/-- A run does not go on after the end of the generation alone, and gets there unless the
    probe stops it. -/
theorem UpTo.le (h : UpTo hm sample r k) (hbase : UpTo hm sample base last)
    (hnot : base.terminatedByProbe = false) :
    k ≤ last ∧ (r.terminatedByProbe = false → k = last) := by
  have hle : k ≤ last := by
    by_contra hlt
    have hearly := h.first last (by omega)
    rw [hbase.last hnot] at hearly
    cases hearly
  refine ⟨hle, ?_⟩
  intro hterm
  by_contra hne
  have hearly := hbase.first k (by omega)
  rw [h.last hterm] at hearly
  cases hearly

theorem UpTo.sub (h : UpTo hm sample r k) (hbase : UpTo hm sample base last)
    (hnot : base.terminatedByProbe = false) : r.generatedIds <+: base.generatedIds := by
  rw [h.tokens, hbase.tokens]
  exact soloAt_prefix hm (b.promptIds sample) (h.le hm hbase hnot).1

theorem UpTo.same (h : UpTo hm sample r k) (hbase : UpTo hm sample base last)
    (hnot : base.terminatedByProbe = false) (hterm : r.terminatedByProbe = false) :
    r.generatedIds = base.generatedIds := by
  rw [h.tokens, hbase.tokens, (h.le hm hbase hnot).2 hterm]

end TwoRuns

section Results
variable {b : Benchmark Col} {strategy : RoutingStrategy} {around : Surroundings}

/-- Baseline has no probe to stop a request. -/
theorem baseline_unterminated [Zero Col] {cfg : Config Col} {s : Batcher Col}
    (hconf : b.Configured .baseline cfg) (h : b.Completed around cfg s) {r : Nat}
    (hr : r ∈ s.submitted) : (s.requests r).terminatedByProbe = false := by
  obtain ⟨k, hrun⟩ := h.run
  by_contra hc
  have hstrategy := (((runEvents_inv hrun).lifeInv hr).terminated (by simpa using hc)).2
  rw [hconf.ofStrategy] at hstrategy
  cases hstrategy

/-- A finished request that the probe has not stopped has the reason that its last token
    gives. -/
theorem completed_reason [Zero Col] {cfg : Config Col} {s : Batcher Col}
    (hconf : b.Configured strategy cfg) (h : b.Completed around cfg s) {r : Nat}
    (hr : r ∈ s.submitted) (hterm : (s.requests r).terminatedByProbe = false) :
    (s.requests r).finishReason = some (if (s.requests r).generatedIds.getLast? =
      some b.tokenizer.eosTokenId then .eos else .maxTokens) := by
  obtain ⟨k, hrun⟩ := h.run
  have hs := runEvents_inv hrun
  have hloc := hs.loc_finished (h.finished.mem_iff.mpr hr)
  rcases (hs.life r hr).reasoned.reason hloc with ⟨-, hflag⟩ | ⟨-, hreason⟩
  · rw [Batcher.view_req, hterm] at hflag
    cases hflag
  · rw [Batcher.view_req, hconf.tokenizer] at hreason
    exact hreason

theorem evalRecord_follows [Zero Col] (hm : b.model.unhooked.RowLocal) (hlooks : b.model.HooksLook)
    {cfg cfgB : Config Col} {s sB : Batcher Col} {aroundB : Surroundings}
    (hconf : b.Configured strategy cfg) (h : b.Completed around cfg s)
    (hconfB : b.Configured .baseline cfgB) (hB : b.Completed aroundB cfgB sB)
    {i : Nat} {sample : Sample} (hi : b.samples[i]? = some sample) :
    (evalRecord b s (around.evalRequest sample i)).Follows
      (evalRecord b sB (aroundB.evalRequest sample i)) := by
  obtain ⟨k, hk⟩ := h.upTo hm hlooks hconf hi
  obtain ⟨last, hlast⟩ := hB.upTo hm hlooks hconfB hi
  have hmem := h.mem hi
  have hnot := baseline_unterminated hconfB hB (hB.mem hi)
  refine ⟨rfl, ?_, ?_⟩
  · intro hterm
    replace hterm : (s.requests (around.firstId + i)).terminatedByProbe = false := hterm
    have hids := hk.same hm hlast hnot hterm
    have hreason := completed_reason hconf h hmem hterm
    have hreasonB := completed_reason hconfB hB (hB.mem hi) hnot
    rw [hids, ← hreasonB] at hreason
    simp only [evalRecord, Surroundings.evalRequest, GenerationRequest.nGenerated, hids, hreason]
    exact ⟨trivial, rfl, rfl, trivial⟩
  · intro _
    have hpre := hk.sub hm hlast hnot
    refine ⟨hpre.length_le, ?_⟩
    intro hconverged
    exact decide_eq_true (hpre.subset (of_decide_eq_true hconverged))

/-- The records of a run against those of a baseline run of the same benchmark. -/
theorem runStrategy_follows [Zero Col] (hm : b.model.unhooked.RowLocal) (hlooks : b.model.HooksLook)
    {ticks ticksB : Nat} {aroundB : Surroundings} {res base : StrategyResult}
    (h : runStrategy ticks b strategy around = .ok (some res))
    (hB : runStrategy ticksB b .baseline aroundB = .ok (some base)) :
    List.Forall₂ EvalRecord.Follows res.records base.records := by
  obtain ⟨cfg, s, -, hconf, hcompleted, rfl⟩ := runStrategy_ok h
  obtain ⟨cfgB, sB, -, hconfB, hcompletedB, rfl⟩ := runStrategy_ok hB
  show List.Forall₂ EvalRecord.Follows ((b.samples.zipIdx.map _).map _)
    ((b.samples.zipIdx.map _).map _)
  rw [List.forall₂_map_left_iff, List.forall₂_map_left_iff, List.forall₂_map_right_iff,
    List.forall₂_map_right_iff, List.forall₂_same]
  intro p hp
  exact evalRecord_follows hm hlooks hconf hcompleted hconfB hcompletedB
    (List.mem_zipIdx_iff_getElem?.mp hp)

/-- **The strategies agree.** For a row-local model and hooks that only look, whatever the
    probe answers and however the runs are scheduled: in the results of one invocation, the
    record of a problem that the probe has not stopped has the tokens, the outcome and the
    finish reason of baseline's; one that it has stopped, which happens under
    `probe_terminate` only, has no more tokens than baseline's, and has converged only if
    that has. -/
theorem strategies_agree [Zero Col] (hm : b.model.unhooked.RowLocal) (hlooks : b.model.HooksLook)
    {ticks : Nat} {runs : List (RoutingStrategy × Surroundings)} {all : EvalResults}
    (hall : mainAsync ticks b runs (fun _ => none) = .ok (some all)) {res base : StrategyResult}
    (hbase : all .baseline = some base) (hres : all strategy = some res) :
    List.Forall₂ EvalRecord.Follows res.records base.records ∧
      (strategy ≠ .probeTerminate → ∀ r ∈ res.records, r.terminatedByProbe = false) := by
  obtain ⟨around, hrun⟩ := mainAsync_result hall hres
  obtain ⟨aroundB, hrunB⟩ := mainAsync_result hall hbase
  refine ⟨runStrategy_follows hm hlooks hrun hrunB, ?_⟩
  intro hne r hr
  by_contra hc
  exact hne ((runStrategy_record hrun r hr).evidence (by simpa using hc)).1

end Results

def countingModel_rowLocal : countingBenchmark.model.unhooked.RowLocal :=
  tableModel_rowLocal (fun token _ => token + 1)

theorem countingModel_hooksLook : countingBenchmark.model.HooksLook := by
  intro layerIdx m hm
  obtain rfl := Except.ok.inj hm
  exact ⟨_, _, rfl⟩

theorem strategies_agree_counting : ∃ all base res,
    mainAsync 12 countingBenchmark allRuns (fun _ => none) = .ok (some all) ∧
      all .baseline = some base ∧ all .probeTerminate = some res ∧
      List.Forall₂ EvalRecord.Follows res.records base.records ∧
      (RoutingStrategy.probeTerminate ≠ .probeTerminate →
        ∀ r ∈ res.records, r.terminatedByProbe = false) := by
  obtain ⟨all, base, res, -, hall, hbase, hres, -⟩ := countingBenchmark_results
  exact ⟨all, base, res, hall, hbase, hres,
    strategies_agree countingModel_rowLocal countingModel_hooksLook hall hbase hres⟩

end PGI
