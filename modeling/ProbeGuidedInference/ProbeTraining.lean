import Mathlib.Algebra.Order.BigOperators.Group.List
import Mathlib.Algebra.Order.Ring.Rat
import Mathlib.Tactic.Linarith
import ProbeGuidedInference.BenchmarkRun

/- Where the weights file comes from (scripts/train_probe.py). The script reads the vectors
   that were captured at one checkpoint, fits a pipeline to them and exports it with the
   layer, the checkpoint and the width it was fitted for. The server reads these three
   back: it refuses a probe for another layer or checkpoint, and never looks at the width.
   Here is that what the script exports is served: a server configured for the same layer
   and checkpoint starts with it, and never raises if the model's hidden vectors are as
   wide as those that the pipeline was fitted to.

   Splitting, fitting and scoring are scikit-learn's. -/
namespace PGI
open Fallible

variable {Col : Type}

inductive TrainError where
  | fileNotFoundError (msg : String)
  | valueError (msg : String)
  deriving DecidableEq, Repr

/-- What early_detection leaves in `checkpoints/`, where it has run. -/
structure Checkpoints where
  /-- `records.json`: whether each has converged. -/
  records : Option (List Bool)
  /-- `checkpoint_acts.pt`: for a checkpoint and a record, the hidden vector. -/
  acts : Option (Int → Option (Nat → Option (List ℚ)))

/-- `all_acts.get(checkpoint_position, {}).get(i)`. -/
def Checkpoints.activation (found : Checkpoints) (checkpointPosition : Int) (i : Nat) : Option (List ℚ) :=
  found.acts.bind (fun allActs => (allActs checkpointPosition).bind (fun cpActs => cpActs i))

/-- `np.stack`. -/
def stack : List (List ℚ) → Except TrainError (List (List ℚ))
  | [] => .error (.valueError "need at least one array to stack")
  | row :: rows =>
    if rows.all (fun r => r.length = row.length) then return row :: rows
    else .error (.valueError "all input arrays must have the same shape")

/-- `X.shape[1]`. -/
def width (x : List (List ℚ)) : Nat := (x.headD []).length

def loadActivations (dir : String) (found : Checkpoints) (checkpointPosition : Int) :
    Except TrainError (List (List ℚ) × List Nat) :=
  match found.records, found.acts with
  | some records, some _ =>
    let validIdx := (List.range records.length).filter
      (fun i => (found.activation checkpointPosition i).isSome)
    if validIdx.length < 20 then
      .error (.valueError (s!"Only {validIdx.length} samples have an activation at checkpoint " ++
        s!"{checkpointPosition}. Need at least 20 for a meaningful fit -- most " ++
        "likely `early_detection/generate.py` hasn't finished enough samples yet, " ++
        "or --checkpoint-position doesn't match one of its CHECKPOINT_POSITIONS."))
    else do
      let x ← stack (validIdx.map (fun i => (found.activation checkpointPosition i).getD []))
      let y := validIdx.map (fun i => if records.getD i false then 1 else 0)
      return (x, y)
  | _, _ =>
    .error (.fileNotFoundError (s!"Expected {dir}/checkpoints/records.json and " ++
      s!"{dir}/checkpoints/checkpoint_acts.pt. These are produced by " ++
      "`python early_detection/generate.py`, which takes ~8-12 hours on a GPU -- " ++
      "run that first (see early_detection/README.md). This script only trains " ++
      "the probe on activations that already exist; it does not generate them."))

/-- What the script uses of scikit-learn. -/
structure Sklearn where
  /-- `StratifiedKFold(...).split`: pairs of training and test indices. -/
  split : List (List ℚ) → List Nat → Except String (List (List Nat × List Nat))
  /-- The score on the test rows of scaler and classifier fitted to the training rows. -/
  rocAucScore : (xTrain : List (List ℚ)) → (yTrain : List Nat) → (xTest : List (List ℚ)) →
    (yTest : List Nat) → Except String ℚ
  /-- `Pipeline([...]).fit`. -/
  fit : List (List ℚ) → List Nat → Except String Pipeline

/-- Whether the loop goes on to the next fold: one of its sides has less than two labels. -/
def skipsFold (y : List Nat) (fold : List Nat × List Nat) : Bool :=
  let yTrain := fold.1.map (fun i => y.getD i 0)
  let yTest := fold.2.map (fun i => y.getD i 0)
  yTrain.dedup.length < 2 ∨ yTest.dedup.length < 2

/-- The loop over the folds; returns `aucs`. -/
def aucLoop (sk : Sklearn) (x : List (List ℚ)) (y : List Nat) :
    List (List Nat × List Nat) → Except TrainError (List ℚ)
  | [] => return []
  | (trainIdx, testIdx) :: folds => do
    let xTrain := trainIdx.map (fun i => x.getD i [])
    let xTest := testIdx.map (fun i => x.getD i [])
    let yTrain := trainIdx.map (fun i => y.getD i 0)
    let yTest := testIdx.map (fun i => y.getD i 0)
    if skipsFold y (trainIdx, testIdx) then aucLoop sk x y folds
    else
      let auc ← (sk.rocAucScore xTrain yTrain xTest yTest).mapError .valueError
      let aucs ← aucLoop sk x y folds
      return max auc (1 - auc) :: aucs

/-- `float(aucs.mean())`. -/
def PyFloat.mean (aucs : List ℚ) : PyFloat :=
  if aucs = [] then .nan else .number (aucs.sum / aucs.length)

/-- `cross_validated_auc`, without the deviation, which is only printed. -/
def crossValidatedAuc (sk : Sklearn) (x : List (List ℚ)) (y : List Nat) :
    Except TrainError PyFloat := do
  let folds ← (sk.split x y).mapError .valueError
  let aucs ← aucLoop sk x y folds
  return .mean aucs

structure TrainArgs where
  earlyDetectionDir : String := "../early_detection"
  checkpointPosition : Int := 150
  layer : Int := 16

/-- `main`, up to the export of the bundle. -/
def trainProbe (sk : Sklearn) (args : TrainArgs) (found : Checkpoints) :
    Except TrainError Bundle := do
  let (x, y) ← loadActivations args.earlyDetectionDir found args.checkpointPosition
  let cvAucMean ← crossValidatedAuc sk x y
  let pipeline ← (sk.fit x y).mapError .valueError
  return {
    pipeline := some pipeline
    trainedLayer := some args.layer
    trainedCheckpoint := some args.checkpointPosition
    expectedHiddenDim := some (width x)
    nTrainSamples := some x.length
    trainAuc := some cvAucMean }

/-! What the script exports. -/

section Export
variable {sk : Sklearn} {args : TrainArgs} {found : Checkpoints} {dir : String} {checkpoint : Int}
  {x : List (List ℚ)} {y : List Nat} {bundle : Bundle}

theorem stack_ok {rows : List (List ℚ)} (h : stack rows = .ok x) :
    x = rows ∧ ∀ row ∈ x, row.length = width x := by
  cases rows with
  | nil => cases h
  | cons row rows =>
    simp only [stack] at h
    split at h
    · rename_i hall
      obtain rfl := Except.ok.inj h
      refine ⟨rfl, ?_⟩
      intro r hr
      rcases List.mem_cons.mp hr with rfl | hr
      · rfl
      · exact of_decide_eq_true (List.all_eq_true.mp hall r hr)
    · cases h

/-- Twenty rows at least, each a captured vector, and a label for each. -/
theorem loadActivations_ok (h : loadActivations dir found checkpoint = .ok (x, y)) :
    20 ≤ x.length ∧ y.length = x.length ∧ (∀ row ∈ x, row.length = width x) ∧
      ∀ row ∈ x, ∃ i, found.activation checkpoint i = some row := by
  unfold loadActivations at h
  split at h
  · simp only at h
    split at h
    · cases h
    · rename_i hmany
      obtain ⟨rows, hrows, h⟩ := bind_eq_ok.mp h
      obtain ⟨rfl, rfl⟩ := Prod.mk.inj (Except.ok.inj h)
      obtain ⟨rfl, hwidths⟩ := stack_ok hrows
      rw [List.length_map, List.length_map]
      refine ⟨not_lt.mp hmany, rfl, hwidths, ?_⟩
      intro row hrow
      obtain ⟨i, hi, rfl⟩ := List.mem_map.mp hrow
      obtain ⟨v, hv⟩ := Option.isSome_iff_exists.mp (List.mem_filter.mp hi).2
      exact ⟨i, by rw [hv]; rfl⟩
  · cases h

/-- `roc_auc_score` is a probability. -/
def Sklearn.ScoresProperly (sk : Sklearn) : Prop :=
  ∀ xTrain yTrain xTest yTest auc, sk.rocAucScore xTrain yTrain xTest yTest = .ok auc →
    0 ≤ auc ∧ auc ≤ 1

/-- A flipped score is counted as it would be with the labels exchanged. -/
theorem aucLoop_range (hscores : sk.ScoresProperly) {folds : List (List Nat × List Nat)}
    {aucs : List ℚ} (h : aucLoop sk x y folds = .ok aucs) : ∀ auc ∈ aucs, 1 / 2 ≤ auc ∧ auc ≤ 1 := by
  induction folds generalizing aucs with
  | nil =>
    obtain rfl := Except.ok.inj h
    intro auc hauc
    cases hauc
  | cons fold folds ih =>
    obtain ⟨trainIdx, testIdx⟩ := fold
    unfold aucLoop at h
    simp only at h
    split at h
    · exact ih h
    · obtain ⟨auc, hauc, h⟩ := bind_eq_ok.mp h
      obtain ⟨rest, hrest, h⟩ := bind_eq_ok.mp h
      obtain rfl := Except.ok.inj h
      obtain ⟨hnonneg, hle⟩ := hscores _ _ _ _ _ (mapError_eq_ok.mp hauc)
      intro a ha
      rcases List.mem_cons.mp ha with rfl | ha
      · refine ⟨?_, max_le hle (by linarith)⟩
        rcases le_total auc (1 - auc) with hmax | hmax
        · rw [max_eq_right hmax]
          linarith
        · rw [max_eq_left hmax]
          linarith
      · exact ih hrest a ha

/-- Every fold adds a score, but those that are skipped. -/
theorem aucLoop_eq_nil {folds : List (List Nat × List Nat)} {aucs : List ℚ}
    (h : aucLoop sk x y folds = .ok aucs) : aucs = [] ↔ ∀ fold ∈ folds, skipsFold y fold = true := by
  induction folds generalizing aucs with
  | nil =>
    obtain rfl := Except.ok.inj h
    simp
  | cons fold folds ih =>
    obtain ⟨trainIdx, testIdx⟩ := fold
    unfold aucLoop at h
    simp only at h
    split at h
    · rename_i hskip
      rw [ih h, List.forall_mem_cons]
      simp [hskip]
    · rename_i hscored
      obtain ⟨auc, -, h⟩ := bind_eq_ok.mp h
      obtain ⟨rest, -, h⟩ := bind_eq_ok.mp h
      obtain rfl := Except.ok.inj h
      simp [hscored]

/-- A mean lies between the bounds of its values. -/
theorem mean_range {values : List ℚ} {lo hi : ℚ} (hne : values ≠ [])
    (h : ∀ v ∈ values, lo ≤ v ∧ v ≤ hi) :
    lo ≤ values.sum / values.length ∧ values.sum / values.length ≤ hi := by
  have hpos : (0 : ℚ) < values.length := by
    exact_mod_cast List.length_pos_iff.mpr hne
  have hlow := List.card_nsmul_le_sum values lo (fun v hv => (h v hv).1)
  have hhigh := List.sum_le_card_nsmul values hi (fun v hv => (h v hv).2)
  rw [nsmul_eq_mul, mul_comm] at hlow hhigh
  exact ⟨(le_div_iff₀ hpos).mpr hlow, (div_le_iff₀ hpos).mpr hhigh⟩

/-- No fold of the split has both labels on both of its sides. -/
def Sklearn.SkipsAll (sk : Sklearn) (x : List (List ℚ)) (y : List Nat) : Prop :=
  ∃ folds, sk.split x y = .ok folds ∧ ∀ fold ∈ folds, skipsFold y fold = true

/-- The estimate is the mean of scores that are flipped where they are below one half, and
    NaN if there are none. -/
theorem crossValidatedAuc_ok {estimate : PyFloat} (h : crossValidatedAuc sk x y = .ok estimate) :
    (estimate = .nan ↔ sk.SkipsAll x y) ∧
    ∀ auc, sk.ScoresProperly → estimate = .number auc → 1 / 2 ≤ auc ∧ auc ≤ 1 := by
  unfold crossValidatedAuc at h
  obtain ⟨folds, hfolds, h⟩ := bind_eq_ok.mp h
  obtain ⟨aucs, haucs, h⟩ := bind_eq_ok.mp h
  obtain rfl := Except.ok.inj h
  replace hfolds := mapError_eq_ok.mp hfolds
  have hskips : sk.SkipsAll x y ↔ aucs = [] := by
    rw [aucLoop_eq_nil haucs]
    refine ⟨?_, fun hall => ⟨folds, hfolds, hall⟩⟩
    intro hall
    obtain ⟨folds', hfolds', hall⟩ := hall
    obtain rfl := Except.ok.inj (hfolds.symm.trans hfolds')
    exact hall
  rw [hskips]
  unfold PyFloat.mean
  by_cases hne : aucs = []
  · simp [hne]
  · rw [if_neg hne]
    refine ⟨⟨fun hnan => (by cases hnan), fun hnil => absurd hnil hne⟩, ?_⟩
    intro auc hscores heq
    obtain rfl := PyFloat.number.inj heq
    exact mean_range hne (aucLoop_range hscores haucs)

/-- What an exported bundle holds, of a fit to the vectors `x` with the labels `y`. -/
structure Exported (sk : Sklearn) (args : TrainArgs) (found : Checkpoints) (bundle : Bundle)
    (x : List (List ℚ)) (y : List Nat) (probe : ProbeArtifact) : Prop where
  loads : ProbeArtifact.ofBundle bundle = .ok probe
  trainedLayer : probe.trainedLayer = args.layer
  trainedCheckpoint : probe.trainedCheckpoint = args.checkpointPosition
  captured : loadActivations args.earlyDetectionDir found args.checkpointPosition = .ok (x, y)
  fitted : sk.fit x y = .ok probe.pipeline
  expectedHiddenDim : probe.expectedHiddenDim = width x
  nTrainSamples : probe.nTrainSamples = x.length
  unscored : probe.trainAuc = .nan ↔ sk.SkipsAll x y
  scored : ∀ auc, sk.ScoresProperly → probe.trainAuc = .number auc → 1 / 2 ≤ auc ∧ auc ≤ 1

theorem trainProbe_ok (h : trainProbe sk args found = .ok bundle) :
    ∃ x y probe, Exported sk args found bundle x y probe := by
  unfold trainProbe at h
  obtain ⟨⟨x, y⟩, hload, h⟩ := bind_eq_ok.mp h
  obtain ⟨estimate, hestimate, h⟩ := bind_eq_ok.mp h
  obtain ⟨pipeline, hfit, h⟩ := bind_eq_ok.mp h
  obtain rfl := Except.ok.inj h
  obtain ⟨hunscored, hscored⟩ := crossValidatedAuc_ok hestimate
  exact ⟨x, y, ⟨pipeline, args.layer, args.checkpointPosition, width x, x.length, estimate⟩,
    rfl, rfl, rfl, hload, mapError_eq_ok.mp hfit, rfl, rfl, hunscored, hscored⟩

end Export

/-! What the server makes of it. -/

section Load
variable {bundle : Bundle} {probe : ProbeArtifact}

/-- A complete bundle is accepted for its own layer and checkpoint only. -/
theorem loadProbe_complete (h : ProbeArtifact.ofBundle bundle = .ok probe) (path : String)
    (layer checkpoint : Int) :
    (probe.trainedLayer = layer ∧ probe.trainedCheckpoint = checkpoint →
      loadProbe path (some bundle) layer checkpoint = .ok probe) ∧
    (¬ (probe.trainedLayer = layer ∧ probe.trainedCheckpoint = checkpoint) →
      ∃ msg, loadProbe path (some bundle) layer checkpoint = .error (.valueError msg)) := by
  unfold loadProbe
  simp only [h, ok_bind]
  by_cases hlayer : probe.trainedLayer = layer
  · by_cases hcheckpoint : probe.trainedCheckpoint = checkpoint
    · simp [hlayer, hcheckpoint]
    · simp [hlayer, hcheckpoint]
  · simp [hlayer]

variable {model : LanguageModel Col} {tokenizer : Tokenizer} {strategy : RoutingStrategy}
  {settings : Settings} {runtime : Runtime}

variable (tokenizer runtime) in
/-- With an accepted probe and a layer to hook the server starts. -/
theorem startup_accepts (hstrategy : strategy ≠ .baseline)
    (h : loadProbe settings.probeWeightsPath (some bundle) settings.probeLayer
      settings.checkpointPosition = .ok probe) {m : Model Col}
    (hm : model.hooked probe.trainedLayer = .ok m) :
    ∃ cfg, startup model tokenizer strategy (some bundle) settings runtime = .ok cfg ∧
      cfg.model = m ∧ cfg.gate = some probe.gate := by
  have hprobe : startupProbe strategy (some bundle) settings = .ok (some probe) := by
    unfold startupProbe
    rw [if_pos hstrategy, h]
    rfl
  have hcaptured : model.captured (some probe) = .ok m := by
    show (model.hooked probe.trainedLayer).mapError StartupError.layer = .ok m
    rw [hm]
    rfl
  have hgate : strategy ≠ .baseline → ((some probe).map ProbeArtifact.gate).isSome = true :=
    fun _ => rfl
  unfold startup continuousBatcher
  rw [hprobe, ok_bind, dif_pos hgate, hcaptured]
  exact ⟨_, rfl, rfl, rfl⟩

/-- What `load_probe` refuses, `startup` refuses. -/
theorem startup_refuses (hstrategy : strategy ≠ .baseline) {file : Option Bundle} {e : LoadError}
    (h : loadProbe settings.probeWeightsPath file settings.probeLayer
      settings.checkpointPosition = .error e) :
    startup model tokenizer strategy file settings runtime = .error (.load e) := by
  unfold startup startupProbe
  rw [if_pos hstrategy, h]
  rfl

end Load

/-- **What is trained is served.** Let the script export a bundle, with a scikit-learn whose
    fitted pipelines answer vectors as wide as those they were fitted to. It was fitted to
    twenty captured vectors at least, and the score stamped on it lies between one half and
    one, or is NaN, which it is exactly if every fold was skipped. A server with a probe
    strategy starts with it if it is configured for the layer and the checkpoint of the
    script, and otherwise refuses it; and if its model's forwards return and put out hidden
    vectors as wide as the captured ones, no run of it ever raises. -/
theorem train_then_serve [Zero Col] {sk : Sklearn} {args : TrainArgs} {found : Checkpoints}
    {bundle : Bundle} (htrain : trainProbe sk args found = .ok bundle)
    (hscores : sk.ScoresProperly)
    (hanswers : ∀ x y pipeline, sk.fit x y = .ok pipeline → pipeline.Answers (width x))
    {model : LanguageModel Col} {m : Model Col} (hhook : model.hooked args.layer = .ok m)
    (hraises : m.NeverRaises) {d : Nat} (hwidth : m.HiddenWidth d)
    (hcaptured : ∀ i vec, found.activation args.checkpointPosition i = some vec → vec.length = d)
    (tokenizer : Tokenizer) {strategy : RoutingStrategy} (hstrategy : strategy ≠ .baseline)
    (settings : Settings) (runtime : Runtime) :
    (∃ probe x y, ProbeArtifact.ofBundle bundle = .ok probe ∧
      loadActivations args.earlyDetectionDir found args.checkpointPosition = .ok (x, y) ∧
      20 ≤ x.length ∧ probe.nTrainSamples = x.length ∧ probe.expectedHiddenDim = d ∧
      (probe.trainAuc = .nan ↔ sk.SkipsAll x y) ∧
      ∀ auc, probe.trainAuc = .number auc → 1 / 2 ≤ auc ∧ auc ≤ 1) ∧
    (settings.probeLayer = args.layer ∧ settings.checkpointPosition = args.checkpointPosition →
      ∃ cfg, startup model tokenizer strategy (some bundle) settings runtime = .ok cfg ∧
        ∀ firstId events, ∃ s, runEvents cfg firstId events = .ok s) ∧
    (¬ (settings.probeLayer = args.layer ∧ settings.checkpointPosition = args.checkpointPosition) →
      ∃ msg, startup model tokenizer strategy (some bundle) settings runtime =
        .error (.load (.valueError msg))) := by
  obtain ⟨x, y, probe, hexported⟩ := trainProbe_ok htrain
  obtain ⟨hmany, -, hwidths, hrows⟩ := loadActivations_ok hexported.captured
  have hd : width x = d := by
    obtain ⟨row, hrow⟩ := List.exists_mem_of_length_pos (l := x) (by omega)
    obtain ⟨i, hi⟩ := hrows row hrow
    rw [← hwidths row hrow]
    exact hcaptured i row hi
  have hdim : probe.expectedHiddenDim = d := by rw [hexported.expectedHiddenDim, hd]
  obtain ⟨haccept, hrefuse⟩ := loadProbe_complete hexported.loads settings.probeWeightsPath
    settings.probeLayer settings.checkpointPosition
  rw [hexported.trainedLayer, hexported.trainedCheckpoint] at haccept hrefuse
  refine ⟨⟨probe, x, y, hexported.loads, hexported.captured, hmany, hexported.nTrainSamples, hdim,
    hexported.unscored, fun auc => hexported.scored auc hscores⟩, ?_, ?_⟩
  · intro hsame
    have hload := haccept ⟨hsame.1.symm, hsame.2.symm⟩
    rw [← hexported.trainedLayer] at hhook
    obtain ⟨cfg, hcfg, hmodel, hgate⟩ := startup_accepts tokenizer runtime hstrategy hload hhook
    refine ⟨cfg, hcfg, ?_⟩
    rw [← hmodel] at hraises hwidth
    have hpipeline := hanswers x y probe.pipeline hexported.fitted
    rw [hd] at hpipeline
    exact (serves_of_width hraises (.inr hgate) hwidth hdim hpipeline).runs
  · intro hother
    obtain ⟨msg, hmsg⟩ := hrefuse (fun hsame => hother ⟨hsame.1.symm, hsame.2.symm⟩)
    exact ⟨msg, startup_refuses hstrategy hmsg⟩

/-- One request of twenty that converged, and a split in five: the fold that tests it has no
    second label to train on, and the others have none to test. The bundle is exported all
    the same. -/
example : (trainProbe
    { split := fun _ _ => .ok ((List.range 5).map (fun k =>
        ((List.range 20).filter (fun i => i % 5 ≠ k), (List.range 20).filter (fun i => i % 5 = k))))
      rocAucScore := fun _ _ _ _ => .ok (1 / 4)
      fit := fun _ _ => .ok ⟨fun _ _ => .ok (1 / 10)⟩ } { checkpointPosition := 2 }
    { records := some ((List.range 20).map (· = 7))
      acts := some (fun _ => some (fun i => some [(i : ℚ), 1])) }).map Bundle.trainAuc =
    .ok (some .nan) := by rfl

/-- Twenty captured vectors, every other one of a request that converged. -/
def twentyCaptured : Checkpoints where
  records := some ((List.range 20).map (· % 2 = 0))
  acts := some (fun checkpoint => if checkpoint = 2 then
    some (fun i => if i < 20 then some [(i : ℚ), 1] else none) else none)

/-- One split; a pipeline that finds everything divergent, and scores 1/4. -/
def gloomySklearn : Sklearn where
  split _ _ := .ok [([0, 1, 2, 3], [4, 5]), ([0, 2], [1, 3])]
  rocAucScore _ _ _ _ := .ok (1 / 4)
  fit _ _ := .ok ⟨fun _ _ => .ok (1 / 10)⟩

theorem train_then_serve_gloomy : ∃ bundle,
    trainProbe gloomySklearn { checkpointPosition := 2 } twentyCaptured = .ok bundle ∧
    (∃ probe x y, ProbeArtifact.ofBundle bundle = .ok probe ∧
      loadActivations "../early_detection" twentyCaptured 2 = .ok (x, y) ∧ 20 ≤ x.length ∧
      probe.nTrainSamples = x.length ∧ probe.expectedHiddenDim = (2 : Nat) ∧
      (probe.trainAuc = .nan ↔ gloomySklearn.SkipsAll x y) ∧
      ∀ auc, probe.trainAuc = .number auc → 1 / 2 ≤ auc ∧ auc ≤ 1) ∧
    (countingBenchmark.settings.probeLayer = 16 ∧ countingBenchmark.settings.checkpointPosition = 2 →
      ∃ cfg, startup countingModel countingBenchmark.tokenizer.toTokenizer .probeTerminate
        (some bundle) countingBenchmark.settings.toSettings listOrder = .ok cfg ∧
        ∀ firstId events, ∃ s, runEvents cfg firstId events = .ok s) ∧
    (¬ (countingBenchmark.settings.probeLayer = 16 ∧
        countingBenchmark.settings.checkpointPosition = 2) →
      ∃ msg, startup countingModel countingBenchmark.tokenizer.toTokenizer .probeTerminate
        (some bundle) countingBenchmark.settings.toSettings listOrder =
        .error (.load (.valueError msg))) := by
  have hscores : gloomySklearn.ScoresProperly := by
    intro _ _ _ _ auc hauc
    obtain rfl := Except.ok.inj hauc
    norm_num
  have hanswers : ∀ x y pipeline, gloomySklearn.fit x y = .ok pipeline →
      pipeline.Answers (width x) := by
    intro x y pipeline hfit k vec _
    obtain rfl := Except.ok.inj hfit
    exact ⟨_, rfl⟩
  have hcaptured : ∀ i vec, twentyCaptured.activation 2 i = some vec → vec.length = 2 := by
    intro i vec h
    have hvec : (if i < 20 then some [(i : ℚ), 1] else none) = some vec := h
    split at hvec
    · obtain rfl := Option.some.inj hvec
      rfl
    · cases hvec
  obtain ⟨bundle, hbundle⟩ : ∃ bundle, trainProbe gloomySklearn { checkpointPosition := 2 }
      twentyCaptured = .ok bundle := ⟨_, rfl⟩
  have hhook : countingModel.hooked 16 = .ok ((tableModel (fun token _ => token + 1)).withHidden
      (fun _ => [0, 0]) (fun _ _ _ => [0, 0])) := rfl
  have hwidth : ((tableModel (fun token _ => token + 1)).withHidden (fun _ => [0, 0])
      (fun _ _ _ => [0, 0])).HiddenWidth 2 := withHidden_width (fun _ _ _ => rfl)
  have hstrategy : RoutingStrategy.probeTerminate ≠ .baseline := by decide
  exact ⟨bundle, hbundle, train_then_serve hbundle hscores hanswers hhook
    (withHidden_neverRaises (tableModel_neverRaises _)) hwidth hcaptured
    countingBenchmark.tokenizer.toTokenizer hstrategy countingBenchmark.settings.toSettings listOrder⟩

end PGI
