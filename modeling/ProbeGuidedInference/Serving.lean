import ProbeGuidedInference.DimensionCheck

/- When serving goes on. A gate that wraps a probe does raise, on a vector of the wrong
   width; but it answers what the model's forwards put out if the accepted probe has their
   width, and then nothing raises. A hook that returns nothing adds the captured vectors to the
   forwards and changes nothing else. -/
namespace PGI
open Fallible

variable {Col : Type}

section Serving
variable {cfg : Config Col}

/-- A pipeline that answers every vector with `d` entries. -/
def Pipeline.Answers (pipeline : Pipeline) (d : Nat) : Prop :=
  ∀ k (vec : List ℚ), vec.length = d → ∃ p, pipeline.probConvergent k vec = .ok p

/-- A probe of the right width answers every row. -/
theorem serves_of_width {probe : ProbeArtifact} {d : Nat} (hmodel : cfg.model.NeverRaises)
    (hgate : cfg.gate = none ∨ cfg.gate = some probe.gate) (hwidth : cfg.model.HiddenWidth d)
    (hdim : probe.expectedHiddenDim = d) (hanswers : probe.pipeline.Answers d) : cfg.Serves where
  model := hmodel
  gate n inp out hout row hrow g hg k := by
    rcases hgate with hnone | hprobe
    · rw [hnone] at hg
      cases hg
    · obtain rfl := Option.some.inj (hprobe.symm.trans hg)
      have hrowWidth := hwidth n inp out hout row hrow
      obtain ⟨p, hp⟩ := hanswers k row.hidden hrowWidth
      have hlength : (row.hidden.length : Int) = probe.expectedHiddenDim := by
        rw [hdim, hrowWidth]
      unfold ProbeArtifact.gate ProbeArtifact.predict
      simp only [hlength, ne_eq, not_true_eq_false, if_false, hp, ok_bind]
      exact ⟨_, rfl⟩

end Serving

/-! A server that has started. -/

/-- What `startup` gives the batcher. -/
structure Started (model : LanguageModel Col) (tokenizer : Tokenizer) (strategy : RoutingStrategy)
    (file : Option Bundle) (settings : Settings) (cfg : Config Col) : Prop where
  ofStrategy : cfg.strategy = strategy
  ofTokenizer : cfg.tokenizer = tokenizer
  maxBatchSize : cfg.maxBatchSize = settings.maxBatchSize
  maxTokensCap : cfg.maxTokensCap = settings.maxNewTokens
  threshold : cfg.terminateConfidenceThreshold = settings.terminateConfidenceThreshold
  probe : ∃ probe, startupProbe strategy file settings = .ok probe ∧
    cfg.gate = probe.map ProbeArtifact.gate ∧ model.captured probe = .ok cfg.model

section Started
variable {model : LanguageModel Col} {tokenizer : Tokenizer} {strategy : RoutingStrategy}
  {file : Option Bundle} {settings : Settings} {runtime : Runtime} {cfg : Config Col}

theorem startup_started (h : startup model tokenizer strategy file settings runtime = .ok cfg) :
    Started model tokenizer strategy file settings cfg := by
  unfold startup at h
  obtain ⟨probe, hprobe, h⟩ := bind_eq_ok.mp h
  unfold continuousBatcher at h
  split at h
  · obtain ⟨m, hm, h⟩ := bind_eq_ok.mp h
    obtain rfl := Except.ok.inj h
    exact ⟨rfl, rfl, rfl, rfl, rfl, probe, hprobe, rfl, hm⟩
  · cases h

/-- Under baseline there is no gate and no hook; otherwise the gate wraps a probe for the
    layer and the checkpoint of the settings. -/
theorem Started.probed (h : Started model tokenizer strategy file settings cfg) :
    (strategy = .baseline ∧ cfg.gate = none) ∨ ∃ probe : ProbeArtifact, cfg.gate = some probe.gate ∧
      strategy ≠ .baseline ∧ probe.trainedCheckpoint = settings.checkpointPosition := by
  obtain ⟨probe, hprobe, hgate, -⟩ := h.probe
  unfold startupProbe at hprobe
  split at hprobe
  · rename_i hne
    obtain ⟨accepted, haccepted, hprobe⟩ := bind_eq_ok.mp hprobe
    obtain rfl := Except.ok.inj hprobe
    obtain ⟨bundle, -, -, -, hcheckpoint⟩ := loadProbe_ok (mapError_eq_ok.mp haccepted)
    exact .inr ⟨accepted, hgate, hne, hcheckpoint⟩
  · rename_i hbaseline
    obtain rfl := Except.ok.inj hprobe
    exact .inl ⟨not_not.mp hbaseline, hgate⟩

end Started

/-! A model with a hook. -/

/-- The same forwards, with other hidden vectors captured. -/
def Model.withHidden (m : Model Col) (prompt : List Nat → List ℚ)
    (row : Nat → DecodeInput Col → Nat → List ℚ) : Model Col where
  nLayers := m.nLayers
  nLayers_pos := m.nLayers_pos
  prefill n promptIds := (m.prefill n promptIds).map (fun out => { out with hidden := prompt promptIds })
  decode n inp := (m.decode n inp).map (fun out =>
    ⟨out.val.mapIdx (fun i r => { r with hidden := row n inp i }), by
      rw [List.length_mapIdx, out.property]⟩)

/-- A hook that returns nothing leaves the forwards as they are. -/
def LanguageModel.HooksLook (model : LanguageModel Col) : Prop :=
  ∀ layerIdx m, model.hooked layerIdx = .ok m → ∃ prompt row, m = model.unhooked.withHidden prompt row

section Hidden
variable {m : Model Col} {prompt : List Nat → List ℚ} {row : Nat → DecodeInput Col → Nat → List ℚ}

theorem withHidden_neverRaises (h : m.NeverRaises) : (m.withHidden prompt row).NeverRaises := by
  refine ⟨?_, ?_⟩
  · intro n promptIds
    obtain ⟨out, hout⟩ := h.1 n promptIds
    exact ⟨{ out with hidden := prompt promptIds }, congrArg (Except.map _) hout⟩
  · intro n inp hwell
    obtain ⟨out, hout⟩ := h.2 n inp hwell
    exact ⟨_, congrArg (Except.map _) hout⟩

theorem withHidden_width {d : Nat} (h : ∀ n inp i, (row n inp i).length = d) :
    (m.withHidden prompt row).HiddenWidth d := by
  intro n inp out hout r hr
  cases hraw : m.decode n inp with
  | error msg =>
    have hmap : (m.withHidden prompt row).decode n inp = .error msg := congrArg (Except.map _) hraw
    rw [hmap] at hout
    cases hout
  | ok raw =>
    obtain rfl := Except.ok.inj ((congrArg (Except.map _) hraw).symm.trans hout)
    obtain ⟨i, hi, rfl⟩ := List.mem_mapIdx.mp hr
    exact h n inp i

end Hidden

end PGI
