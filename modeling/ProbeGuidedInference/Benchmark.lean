import ProbeGuidedInference.AnswerExtraction
import ProbeGuidedInference.Lib.Potential
import ProbeGuidedInference.Scheduler
import ProbeGuidedInference.Server

/- The benchmark harness (benchmark/routing_eval.py). `run_strategy` submits all samples
   without giving up control, so the batcher's task first runs when the harness waits for
   the futures; from then on it ticks until they are all done. The records are read off
   the request objects afterwards. `main_async` does this for one strategy after the
   other, with one model and one list of samples.

   The chat template and the two functions of `normalize_answer` that depend on Python's own
   tables are parameters; so are the clock readings that the requests and the harness make
   themselves. -/
namespace PGI
open Fallible

variable {Col : Type}

/-! What the harness is given. -/

/-- One entry of `load_aime_samples()`. -/
structure Sample where
  question : String
  answer : List Char

/-- The tokenizer, for prompts too. -/
structure ChatTokenizer extends Tokenizer where
  applyChatTemplate : String → String
  inputIds : String → List Nat

/-- `str(float(s))`, or none where `float` raises, and `str.lower`. -/
structure PyText where
  strFloat : List Char → Option (List Char)
  lower : List Char → List Char

/-- The settings that the harness reads beyond those of the server. -/
structure EvalSettings extends Settings where
  thinkEndTokenId : Nat := 151649

/-- What the runs of one invocation share. -/
structure Benchmark (Col : Type) where
  model : LanguageModel Col
  tokenizer : ChatTokenizer
  text : PyText
  settings : EvalSettings
  /-- The weights file. -/
  file : Option Bundle
  samples : List Sample
  maxBatchSize : Nat
  maxTokens : Int

/-- What one run gets from its surroundings: the batcher's, the number at which the request
    ids stand, the arrival times of its requests and the time it took. -/
structure Surroundings where
  runtime : Runtime
  firstId : Nat
  arrivalTime : Nat → ℚ
  wallClockS : ℚ

/-! Scoring (benchmark/aime_loader.py). -/

def normalizeAnswer (text : PyText) : Option (List Char) → Option (List Char)
  | none => none
  | some ans =>
    let ans := strip ((ans.filter (· ≠ ',')).filter (· ≠ '$'))
    match text.strFloat ans with
    | some number => some number
    | none => some (strip (text.lower ans))

/-! `run_strategy`. -/

/-- The batcher of a run, with the harness's own batch size and cap. -/
def Benchmark.batcher (b : Benchmark Col) (strategy : RoutingStrategy) (around : Surroundings) :
    Except StartupError (Config Col) :=
  startup b.model b.tokenizer.toTokenizer strategy b.file
    { b.settings.toSettings with maxBatchSize := b.maxBatchSize, maxNewTokens := b.maxTokens }
    around.runtime

def Benchmark.promptIds (b : Benchmark Col) (sample : Sample) : List Nat :=
  b.tokenizer.inputIds (b.tokenizer.applyChatTemplate sample.question)

/-- A request of `reqs`, with its metadata and its arrival time. -/
structure EvalRequest where
  rid : Nat
  aimeIdx : Nat
  expectedAnswer : List Char
  arrivalTime : ℚ

/-- The loop over the samples, from sample `i` on; returns `reqs`. -/
def submitAll (b : Benchmark Col) (around : Surroundings) :
    Nat → List Sample → Batcher Col → List EvalRequest × Batcher Col
  | _, [], s => ([], s)
  | i, sample :: rest, s =>
    let req : EvalRequest := ⟨s.nextId, i, sample.answer, around.arrivalTime i⟩
    let (reqs, s) := submitAll b around (i + 1) rest
      (submit b.maxTokens (b.promptIds sample) false s)
    (req :: reqs, s)

/-- `await asyncio.gather(*(r.result for r in reqs))`, for at most so many ticks. A tick that
    raises ends the batcher's task; the harness does not look at it and waits on. -/
def gather [Zero Col] (cfg : Config Col) (reqs : List EvalRequest) :
    Nat → Batcher Col → Option (Batcher Col)
  | 0, s => if reqs.all (fun req => (s.requests req.rid).result.done) then some s else none
  | ticks + 1, s =>
    if reqs.all (fun req => (s.requests req.rid).result.done) then some s
    else match tick cfg s with
      | .error _ => none
      | .ok s => gather cfg reqs ticks s

structure EvalRecord where
  aimeIdx : Nat
  nGenerated : Nat
  converged : Bool
  correct : Bool
  finishReason : Option FinishReason
  terminatedByProbe : Bool
  routingLabel : Option Label
  routingConfidence : Option ℚ
  checkpointHitTime : Option ℚ
  arrivalTime : ℚ
  completionTime : Option ℚ
  latencyS : Option ℚ
  deriving DecidableEq

/-- The entry of `records` for one request. A completion time of 0 counts as none. -/
def evalRecord (b : Benchmark Col) (s : Batcher Col) (req : EvalRequest) : EvalRecord :=
  let r := s.requests req.rid
  let extracted := extractAnswer (b.tokenizer.decode r.generatedIds).toList
  { aimeIdx := req.aimeIdx
    nGenerated := r.nGenerated
    converged := b.settings.thinkEndTokenId ∈ r.generatedIds
    correct := normalizeAnswer b.text extracted = normalizeAnswer b.text (some req.expectedAnswer)
    finishReason := r.finishReason
    terminatedByProbe := r.terminatedByProbe
    routingLabel := r.routingDecision.map RoutingDecision.label
    routingConfidence := r.routingDecision.map RoutingDecision.confidence
    checkpointHitTime := r.checkpointHitTime
    arrivalTime := req.arrivalTime
    completionTime := r.completionTime
    latencyS := (r.completionTime.filter (· ≠ 0)).map (· - req.arrivalTime) }

structure BatcherStats where
  totalAdmitted : Nat
  totalFinished : Nat
  totalProbeTerminated : Nat
  totalPreemptions : Nat
  deriving DecidableEq

def Batcher.stats (s : Batcher Col) : BatcherStats :=
  ⟨s.totalAdmitted, s.totalFinished, s.totalProbeTerminated, s.totalPreemptions⟩

structure StrategyResult where
  strategy : RoutingStrategy
  nRequests : Nat
  maxBatchSize : Nat
  wallClockS : ℚ
  totalTokensGenerated : Nat
  batcherStats : BatcherStats
  records : List EvalRecord
  deriving DecidableEq

/-- `run_strategy`; none is returned while it waits for its futures after so many ticks. -/
def runStrategy [Zero Col] (ticks : Nat) (b : Benchmark Col) (strategy : RoutingStrategy)
    (around : Surroundings) : Except StartupError (Option StrategyResult) := do
  let cfg ← b.batcher strategy around
  let (reqs, s) := submitAll b around 0 b.samples (Batcher.new around.firstId)
  match gather cfg reqs ticks s with
  | none => return none
  | some s =>
    let records := reqs.map (evalRecord b s)
    return some {
      strategy
      nRequests := reqs.length
      maxBatchSize := b.maxBatchSize
      wallClockS := around.wallClockS
      totalTokensGenerated := (records.map EvalRecord.nGenerated).sum
      batcherStats := s.stats
      records }

/-! `main_async`. -/

/-- `all_results`. -/
abbrev EvalResults := RoutingStrategy → Option StrategyResult

inductive EvalError where
  | startup (e : StartupError)
  | zeroDivision
  deriving DecidableEq

/-- The loop over the strategies. The line that reports a strategy divides by the number of
    its records. -/
def mainAsync [Zero Col] (ticks : Nat) (b : Benchmark Col) :
    List (RoutingStrategy × Surroundings) → EvalResults → Except EvalError (Option EvalResults)
  | [], all => return some all
  | (strategy, around) :: rest, all => do
    match ← (runStrategy ticks b strategy around).mapError .startup with
    | none => return none
    | some result =>
      if result.records.length = 0 then .error .zeroDivision
      else mainAsync ticks b rest (Function.update all strategy (some result))

end PGI
