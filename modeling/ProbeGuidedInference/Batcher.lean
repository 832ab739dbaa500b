import ProbeGuidedInference.Model
import ProbeGuidedInference.Queue

/- The state of a `ContinuousBatcher` (src/scheduler.py) with its queue, cache, hook
   and the request objects it refers to.

   The requests live in a store indexed by request id; the queue and the active map
   hold ids, so an object reachable from both would be one object, as in the source.
   Three counters number the calls that leave the program (model forwards, gate calls,
   clock readings), so that the third parties may answer each call as they like. The
   log records what happened; no function reads it. -/
namespace PGI

inductive RoutingStrategy where
  | baseline
  | probeTerminate
  | probeDeprioritize
  deriving DecidableEq, Repr

structure Tokenizer where
  eosTokenId : Nat
  decode : List Nat → String

/-- The constructor's arguments. `setOrder` is the order in which a Python set of ids is
    iterated; `gateRequired` is the check `__init__` makes. -/
structure Config (Col : Type) where
  model : Model Col
  tokenizer : Tokenizer
  strategy : RoutingStrategy
  gate : Option ClassificationGate
  maxBatchSize : Nat
  maxTokensCap : Int
  terminateConfidenceThreshold : ℚ
  time : Nat → ℚ
  setOrder : List Nat → List Nat
  setOrder_perm : ∀ ids, (setOrder ids).Perm ids.dedup
  gateRequired : strategy ≠ .baseline → gate.isSome

/-- One row of the tensor the layer hook stored, at the last position, with the inputs
    of the forward pass at that row. -/
structure CapturedRow where
  seqId : Nat
  inputId : Nat
  positionId : Nat
  hidden : List ℚ
  deriving DecidableEq

/-- What happened to which request. -/
inductive LogEntry where
  /-- `_admit_one` took it from the queue, leaving requests of these priorities there. -/
  | admitted (rid : Nat) (priority : Int) (waiting : List Int)
  /-- `run_decode_step` appended a token to it. -/
  | decode (rid token : Nat)
  /-- The gate was called for it, with this many tokens generated, on the hidden vector
      of this captured row, and answered. -/
  | classify (rid nGenerated : Nat) (row : CapturedRow) (decision : RoutingDecision)
  /-- `_preempt` threw away this many tokens of it. -/
  | preempt (rid nGenerated : Nat)
  /-- `_finish` completed it with this many tokens. -/
  | finish (rid nGenerated : Nat)
  deriving DecidableEq

def LogEntry.rid : LogEntry → Nat
  | .admitted rid _ _ => rid
  | .decode rid _ => rid
  | .classify rid _ _ _ => rid
  | .preempt rid _ => rid
  | .finish rid _ => rid

structure Batcher (Col : Type) where
  requests : Nat → GenerationRequest
  nextId : Nat
  /-- The ids of all request objects, in the order of their submission. -/
  submitted : List Nat
  pending : List Nat
  cache : BatchedSequenceCache Col
  captureLast : Option (List CapturedRow)
  active : List Nat
  totalAdmitted : Nat
  totalFinished : Nat
  totalProbeTerminated : Nat
  totalPreemptions : Nat
  forwards : Nat
  classifies : Nat
  clock : Nat
  log : List LogEntry

variable {Col : Type}

namespace Batcher

/-- A new batcher over an empty queue; the id counter stands at `firstId`. -/
def new (firstId : Nat) : Batcher Col where
  requests _ := { maxTokens := 0, promptIds := [] }
  nextId := firstId
  submitted := []
  pending := []
  cache := .empty
  captureLast := none
  active := []
  totalAdmitted := 0
  totalFinished := 0
  totalProbeTerminated := 0
  totalPreemptions := 0
  forwards := 0
  classifies := 0
  clock := 0
  log := []

/-- Mutate one request object. -/
@[simps] def modify (s : Batcher Col) (rid : Nat) (f : GenerationRequest → GenerationRequest) : Batcher Col :=
  { s with requests := Function.update s.requests rid (f (s.requests rid)) }

@[simps] def record (s : Batcher Col) (e : LogEntry) : Batcher Col :=
  { s with log := s.log ++ [e] }

def priority (s : Batcher Col) (rid : Nat) : Int := (s.requests rid).priority

/-- The requests `_finish` was called on, in order. -/
def finished (s : Batcher Col) : List Nat :=
  s.log.filterMap (fun e => match e with
    | .finish rid _ => some rid
    | _ => none)

/-- The log entries about one request. -/
def history (s : Batcher Col) (rid : Nat) : List LogEntry := s.log.filter (fun e => e.rid = rid)

end Batcher

end PGI
