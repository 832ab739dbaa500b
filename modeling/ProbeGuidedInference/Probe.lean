import ProbeGuidedInference.Batcher

/- The trained probe (src/probe.py) and the gate that wraps it (src/gate.py).

   The weights file is a dict; of it we keep what is stored under the six names that
   `ProbeArtifact` takes, and the other keys. The fitted pipeline is a third party: it
   answers a vector with the probability of convergence or raises, and may answer each
   call as it likes. -/
namespace PGI
open Fallible

/-- The text of the gate's `ValueError`. -/
def dimensionMessage (got : Nat) (expected : Int) : String :=
  s!"hidden_vec has dim {got}, probe expects {expected}. Wrong model or wrong layer hooked?"

/-- What the pipeline raises. Its texts are its own, not the gate's. -/
structure PipelineError where
  msg : String
  not_gate : ∀ got expected, msg ≠ dimensionMessage got expected

structure Pipeline where
  /-- `float(predict_proba(v.reshape(1, -1))[0, 1])`, in the `n`-th call. -/
  probConvergent : Nat → List ℚ → Except PipelineError ℚ

/-- A float that is the mean of some numbers; the mean of none is NaN. -/
inductive PyFloat where
  | number (value : ℚ)
  | nan
  deriving DecidableEq, Repr

structure ProbeArtifact where
  pipeline : Pipeline
  trainedLayer : Int
  trainedCheckpoint : Int
  expectedHiddenDim : Int
  nTrainSamples : Int
  trainAuc : PyFloat

def ProbeArtifact.predict (probe : ProbeArtifact) (n : Nat) (hiddenVec : List ℚ) :
    Except PipelineError (Label × ℚ) := do
  let probConvergent ← probe.pipeline.probConvergent n hiddenVec
  let label := if probConvergent > 1 / 2 then Label.convergent else .divergent
  return (label, max probConvergent (1 - probConvergent))

/-- `ClassificationGate(probe)`. -/
def ProbeArtifact.gate (probe : ProbeArtifact) : ClassificationGate where
  checkpointPosition := probe.trainedCheckpoint
  classify n hiddenVec :=
    if (hiddenVec.length : Int) ≠ probe.expectedHiddenDim then
      .error (dimensionMessage hiddenVec.length probe.expectedHiddenDim)
    else do
      let (label, confidence) ← (probe.predict n hiddenVec).mapError PipelineError.msg
      return { label, confidence, checkpointPosition := probe.trainedCheckpoint }

/-! `load_probe`. -/

inductive LoadError where
  | probeNotTrained (msg : String)
  | typeError (msg : String)
  | valueError (msg : String)
  deriving DecidableEq, Repr

/-- What `joblib.load` returns. -/
structure Bundle where
  pipeline : Option Pipeline
  trainedLayer : Option Int
  trainedCheckpoint : Option Int
  expectedHiddenDim : Option Int
  nTrainSamples : Option Int
  trainAuc : Option PyFloat
  otherKeys : List String := []

/-- The names that `ProbeArtifact` needs and the bundle does not have. -/
def Bundle.missing (b : Bundle) : List String :=
  [("pipeline", b.pipeline.isSome), ("trained_layer", b.trainedLayer.isSome),
    ("trained_checkpoint", b.trainedCheckpoint.isSome),
    ("expected_hidden_dim", b.expectedHiddenDim.isSome),
    ("n_train_samples", b.nTrainSamples.isSome), ("train_auc", b.trainAuc.isSome)].filterMap
    (fun entry => if entry.2 then none else some entry.1)

/-- The interpreter's text for missing arguments. -/
def missingArguments (names : List String) : String :=
  let quoted := names.map (fun name => s!"'{name}'")
  let listed := match quoted with
    | [] => ""
    | [a] => a
    | [a, b] => a ++ " and " ++ b
    | _ => ", ".intercalate quoted.dropLast ++ ", and " ++ quoted.getLastD ""
  let plural := if names.length = 1 then "" else "s"
  s!"ProbeArtifact.__init__() missing {names.length} required positional argument{plural}: {listed}"

/-- `ProbeArtifact(**bundle)`. -/
def ProbeArtifact.ofBundle (b : Bundle) : Except LoadError ProbeArtifact :=
  match b.otherKeys, b.pipeline, b.trainedLayer, b.trainedCheckpoint, b.expectedHiddenDim,
      b.nTrainSamples, b.trainAuc with
  | key :: _, _, _, _, _, _, _ =>
    .error (.typeError s!"ProbeArtifact.__init__() got an unexpected keyword argument '{key}'")
  | [], some pipeline, some trainedLayer, some trainedCheckpoint, some expectedHiddenDim,
      some nTrainSamples, some trainAuc =>
    .ok { pipeline, trainedLayer, trainedCheckpoint, expectedHiddenDim, nTrainSamples, trainAuc }
  | [], _, _, _, _, _, _ =>
    .error (.typeError (missingArguments b.missing))

/-- `load_probe(path, ...)`, where the file at `path` holds this bundle, or does not exist. -/
def loadProbe (path : String) (file : Option Bundle) (expectedLayer expectedCheckpoint : Int) :
    Except LoadError ProbeArtifact := do
  match file with
  | none => .error (.probeNotTrained (s!"No probe weights at {path}. Run " ++
      "`python scripts/train_probe.py` first -- it fits and exports the probe from " ++
      "early_detection's checkpoint activations. This project does not ship pretrained weights " ++
      "(they're derived from a private ~10-hour GPU run's checkpoints, not something to check " ++
      "into git)."))
  | some bundle =>
    let artifact ← ProbeArtifact.ofBundle bundle
    if artifact.trainedLayer ≠ expectedLayer then
      .error (.valueError (s!"Probe at {path} was trained on layer {artifact.trainedLayer}, " ++
        s!"but this server is configured for layer {expectedLayer} (src/config.py " ++
        "PGI_PROBE_LAYER). Routing decisions from a layer-mismatched probe are not " ++
        "meaningful -- refusing to load."))
    else if artifact.trainedCheckpoint ≠ expectedCheckpoint then
      .error (.valueError (s!"Probe at {path} was trained at checkpoint " ++
        s!"{artifact.trainedCheckpoint}, but this server is configured for checkpoint " ++
        s!"{expectedCheckpoint}. Refusing to load."))
    else return artifact

section Load
variable {path : String} {file : Option Bundle} {layer checkpoint : Int} {probe : ProbeArtifact}

theorem ofBundle_ok {b : Bundle} (h : ProbeArtifact.ofBundle b = .ok probe) :
    b = { pipeline := some probe.pipeline, trainedLayer := some probe.trainedLayer,
          trainedCheckpoint := some probe.trainedCheckpoint,
          expectedHiddenDim := some probe.expectedHiddenDim,
          nTrainSamples := some probe.nTrainSamples, trainAuc := some probe.trainAuc } := by
  obtain ⟨pipeline, trainedLayer, trainedCheckpoint, expectedHiddenDim, nTrainSamples, trainAuc,
    otherKeys⟩ := b
  unfold ProbeArtifact.ofBundle at h
  split at h
  · cases h
  · rename_i hkeys hpipeline hlayer hcheckpoint hdim hsamples hauc
    obtain rfl := Except.ok.inj h
    simp_all
  · cases h

/-- An accepted probe is the one in the file, with the configured layer and checkpoint. -/
theorem loadProbe_ok (h : loadProbe path file layer checkpoint = .ok probe) :
    ∃ bundle, file = some bundle ∧ ProbeArtifact.ofBundle bundle = .ok probe ∧
      probe.trainedLayer = layer ∧ probe.trainedCheckpoint = checkpoint := by
  unfold loadProbe at h
  cases file with
  | none => cases h
  | some bundle =>
    obtain ⟨artifact, hartifact, h⟩ := bind_eq_ok.mp h
    split at h
    · cases h
    · rename_i hlayer
      split at h
      · cases h
      · rename_i hcheckpoint
        obtain rfl := Except.ok.inj h
        exact ⟨bundle, rfl, hartifact, not_not.mp hlayer, not_not.mp hcheckpoint⟩

end Load

/-- On vectors of the expected width the gate's check passes, on all others it raises. -/
theorem gate_classify_error {probe : ProbeArtifact} {n : Nat} {v : List ℚ} {msg : String}
    (h : probe.gate.classify n v = .error msg) :
    ((v.length : Int) ≠ probe.expectedHiddenDim ∧
      msg = dimensionMessage v.length probe.expectedHiddenDim) ∨
    ((v.length : Int) = probe.expectedHiddenDim ∧ ∀ got expected, msg ≠ dimensionMessage got expected) := by
  unfold ProbeArtifact.gate at h
  simp only at h
  split at h
  · rename_i hne
    exact .inl ⟨hne, (Except.error.inj h).symm⟩
  · rename_i heq
    right
    refine ⟨not_not.mp heq, ?_⟩
    rcases bind_eq_error.mp h with h | ⟨a, -, h⟩
    · obtain ⟨e, -, rfl⟩ := mapError_eq_error.mp h
      exact e.not_gate
    · cases h

theorem gate_classify_wrong_width {probe : ProbeArtifact} {v : List ℚ}
    (h : (v.length : Int) ≠ probe.expectedHiddenDim) (n : Nat) :
    probe.gate.classify n v = .error (dimensionMessage v.length probe.expectedHiddenDim) := if_pos h

end PGI
