import ProbeGuidedInference.Probe

/- The server (src/server.py) and the settings it reads (src/config.py): `startup` builds
   the gate and the batcher. -/
namespace PGI
open Fallible

variable {Col : Type}

/-- The settings that `startup` passes on. -/
structure Settings where
  probeLayer : Int := 16
  checkpointPosition : Int := 150
  probeWeightsPath : String := "probe_weights/probe_layer16_cp150.pkl"
  terminateConfidenceThreshold : ℚ := 7 / 10
  maxBatchSize : Nat := 8
  maxNewTokens : Int := 10000

/-- A loaded language model: its forwards, without a hook and with one on a layer, or the
    text of the error raised where there is no such layer. -/
structure LanguageModel (Col : Type) where
  unhooked : Model Col
  hooked : (layerIdx : Int) → Except String (Model Col)

/-- What the process gets from its surroundings: clock readings, and the order in which a
    set is iterated. -/
structure Runtime where
  time : Nat → ℚ
  setOrder : List Nat → List Nat
  setOrder_perm : ∀ ids, (setOrder ids).Perm ids.dedup

inductive StartupError where
  | load (e : LoadError)
  | layer (msg : String)
  | valueError (msg : String)
  deriving DecidableEq, Repr

/-- `f"{strategy}"`. -/
def RoutingStrategy.format : RoutingStrategy → String
  | .baseline => "RoutingStrategy.BASELINE"
  | .probeTerminate => "RoutingStrategy.PROBE_TERMINATE"
  | .probeDeprioritize => "RoutingStrategy.PROBE_DEPRIORITIZE"

/-- The model with `LayerActivationCapture(model, gate.probe.trained_layer)`, if there is a
    gate. -/
def LanguageModel.captured (model : LanguageModel Col) :
    Option ProbeArtifact → Except StartupError (Model Col)
  | none => return model.unhooked
  | some probe => (model.hooked probe.trainedLayer).mapError .layer

/-- `ContinuousBatcher(...)`, whose gate wraps this probe. -/
def continuousBatcher (model : LanguageModel Col) (tokenizer : Tokenizer) (strategy : RoutingStrategy)
    (probe : Option ProbeArtifact) (settings : Settings) (runtime : Runtime) :
    Except StartupError (Config Col) := do
  if hgate : strategy ≠ .baseline → (probe.map ProbeArtifact.gate).isSome then
    let model ← model.captured probe
    return {
      model, tokenizer, strategy
      gate := probe.map ProbeArtifact.gate
      maxBatchSize := settings.maxBatchSize
      maxTokensCap := settings.maxNewTokens
      terminateConfidenceThreshold := settings.terminateConfidenceThreshold
      time := runtime.time
      setOrder := runtime.setOrder
      setOrder_perm := runtime.setOrder_perm
      gateRequired := hgate }
  else
    .error (.valueError s!"strategy={strategy.format} requires a ClassificationGate; got gate=None")

/-- The probe that `startup` wraps: none under baseline. -/
def startupProbe (strategy : RoutingStrategy) (file : Option Bundle) (settings : Settings) :
    Except StartupError (Option ProbeArtifact) :=
  if strategy ≠ .baseline then do
    let probe ← (loadProbe settings.probeWeightsPath file settings.probeLayer
      settings.checkpointPosition).mapError .load
    return some probe
  else return none

/-- `startup`, with this bundle in the weights file, or no such file. -/
def startup (model : LanguageModel Col) (tokenizer : Tokenizer) (strategy : RoutingStrategy)
    (file : Option Bundle) (settings : Settings) (runtime : Runtime) :
    Except StartupError (Config Col) := do
  let probe ← startupProbe strategy file settings
  continuousBatcher model tokenizer strategy probe settings runtime

/-! The endpoints. -/

structure GenerateResponse where
  text : String
  latencyS : ℚ
  finishReason : Option FinishReason := none
  routingLabel : Option Label := none
  routingConfidence : Option ℚ := none

/-- What `generate` returns once `gen_req.result` is resolved. -/
def generateResponse (genReq : GenerationRequest) (start now : ℚ) : Option GenerateResponse :=
  match genReq.result with
  | .resolved text => some {
      text
      latencyS := now - start
      finishReason := genReq.finishReason
      routingLabel := genReq.routingDecision.map RoutingDecision.label
      routingConfidence := genReq.routingDecision.map RoutingDecision.confidence }
  | _ => none

/-- The payload of one `data:` line. -/
inductive StreamEvent where
  | ttftMs (ms : ℚ)
  | token (text : String)
  | done
  deriving DecidableEq

/-- `round(x, 2)`, to even on a tie. -/
def round2 (x : ℚ) : ℚ :=
  let n := (100 * x).floor
  let rest := 100 * x - n
  let n := if rest < 1 / 2 ∨ rest = 1 / 2 ∧ n % 2 = 0 then n else n + 1
  n / 100

/-- The loop of `token_generator`, from `first_token_sent` and what the queue holds; where
    that ends, it waits. -/
def generatorLoop (tokenizer : Tokenizer) (startTime now : ℚ) : Bool → List (Option Nat) → List StreamEvent
  | _, [] => []
  | _, none :: _ => [.done]
  | firstTokenSent, some tokenId :: queue =>
    (if firstTokenSent then [] else [.ttftMs (round2 ((now - startTime) * 1000))]) ++
      .token (tokenizer.decode [tokenId]) :: generatorLoop tokenizer startTime now true queue

/-- `token_generator`, with the readings of its clock at the start and at the first token. -/
def tokenGenerator (tokenizer : Tokenizer) (startTime now : ℚ) (queue : List (Option Nat)) :
    List StreamEvent :=
  generatorLoop tokenizer startTime now false queue

section Startup
variable {model : LanguageModel Col} {tokenizer : Tokenizer} {strategy : RoutingStrategy}
  {file : Option Bundle} {settings : Settings} {runtime : Runtime} {cfg : Config Col}

/-- A server that has started has no gate, or that of the accepted probe. -/
theorem startup_ok (h : startup model tokenizer strategy file settings runtime = .ok cfg) :
    cfg.gate = none ∨ ∃ (bundle : Bundle) (probe : ProbeArtifact), file = some bundle ∧ cfg.gate = some probe.gate ∧
      bundle.expectedHiddenDim = some probe.expectedHiddenDim ∧
      probe.trainedLayer = settings.probeLayer ∧
      probe.trainedCheckpoint = settings.checkpointPosition := by
  unfold startup at h
  obtain ⟨probe, hprobe, h⟩ := bind_eq_ok.mp h
  have hgate : cfg.gate = probe.map ProbeArtifact.gate := by
    unfold continuousBatcher at h
    split at h
    · obtain ⟨m, -, h⟩ := bind_eq_ok.mp h
      obtain rfl := Except.ok.inj h
      rfl
    · cases h
  unfold startupProbe at hprobe
  split at hprobe
  · obtain ⟨accepted, haccepted, hprobe⟩ := bind_eq_ok.mp hprobe
    obtain rfl := Except.ok.inj hprobe
    obtain ⟨bundle, hfile, hbundle, hlayer, hcheckpoint⟩ := loadProbe_ok (mapError_eq_ok.mp haccepted)
    exact .inr ⟨bundle, accepted, hfile, hgate, congrArg Bundle.expectedHiddenDim (ofBundle_ok hbundle),
      hlayer, hcheckpoint⟩
  · obtain rfl := Except.ok.inj hprobe
    exact .inl hgate

end Startup

end PGI
