import ProbeGuidedInference.Lib.Runs
import ProbeGuidedInference.Runner

/- The scheduler (src/scheduler.py). One iteration of `run_forever` (`tick`) admits from
   the queue, preempts under `probe_deprioritize`, decodes, routes and evicts, without
   giving up control; submissions and cancellations by the callers happen between
   iterations. A run is a list of such events. -/
namespace PGI

variable {Col : Type}

namespace GenerationRequest

/-- `_preempt` on the request object. -/
@[simps] def preempted (r : GenerationRequest) : GenerationRequest :=
  { r with generatedIds := [], position := 0, routingDecision := none, routed := false }

/-- The body of `_apply_routing`'s loop on the request object. -/
def routedBy (cfg : Config Col) (r : GenerationRequest) : GenerationRequest :=
  let r := { r with routed := true }
  match r.routingDecision with
  | none => r
  | some d =>
    if ¬ d.isDivergent then r
    else match cfg.strategy with
      | .baseline => r
      | .probeTerminate =>
        if d.confidence > cfg.terminateConfidenceThreshold then
          { r with terminatedByProbe := true, finishReason := some .probeTerminated }
        else r
      | .probeDeprioritize => { r with priority := 1 }

/-- Whether that loop puts the request's id in `terminated_ids`. -/
def terminatedBy (cfg : Config Col) (r : GenerationRequest) : Bool :=
  match r.routingDecision with
  | none => false
  | some d => d.isDivergent && (cfg.strategy = .probeTerminate) &&
      (d.confidence > cfg.terminateConfidenceThreshold)

/-- `_finish` on the request object. -/
@[simps] def completed (cfg : Config Col) (time : ℚ) (r : GenerationRequest) : GenerationRequest :=
  { r with
    completionTime := some time
    tokenQueue := (r.putNowait none).tokenQueue
    result := if r.result.done then r.result else .resolved (cfg.tokenizer.decode r.generatedIds) }

end GenerationRequest

/-! Evict. -/

def finish (cfg : Config Col) (s : Batcher Col) (rid : Nat) : Batcher Col :=
  let req := s.requests rid
  let s := (s.modify rid (·.completed cfg (cfg.time s.clock))).record (.finish rid req.nGenerated)
  { s with
    cache := s.cache.evict rid
    active := s.active.erase rid
    totalFinished := s.totalFinished + 1
    totalProbeTerminated := s.totalProbeTerminated + if req.terminatedByProbe then 1 else 0
    clock := s.clock + 1 }

/-! Admit. -/

def admitOne (cfg : Config Col) (s : Batcher Col) : Except (PyError × Batcher Col) (Batcher Col) :=
  match s.pending with
  | [] => .error (.indexError, s)
  | rid :: rest => do
    let s := { s with pending := rest }.record (.admitted rid (s.priority rid) (rest.map s.priority))
    let (alreadyFinished, s) ← runPrefill cfg s rid
    let s := { s with totalAdmitted := s.totalAdmitted + 1 }
    if alreadyFinished then
      return finish cfg s rid
    else
      return { s with active := if rid ∈ s.active then s.active else s.active ++ [rid] }

/-- `min(candidates, key=lambda r: r.n_generated)`: the first of the smallest. -/
def minByGenerated (s : Batcher Col) : List Nat → Option Nat
  | [] => none
  | rid :: rest => match minByGenerated s rest with
    | none => some rid
    | some best =>
      if (s.requests best).nGenerated < (s.requests rid).nGenerated then some best else some rid

def findDeprioritizeVictim (s : Batcher Col) : Option Nat :=
  minByGenerated s (s.active.filter (fun rid => s.priority rid = 1))

def preempt (s : Batcher Col) (victim : Nat) : Batcher Col :=
  let n := (s.requests victim).nGenerated
  let s := { s with cache := s.cache.evict victim, active := s.active.erase victim }
  let s := (s.modify victim (·.preempted)).record (.preempt victim n)
  { s with
    totalPreemptions := s.totalPreemptions + 1
    pending := pushFrontPriorityAware s.priority s.pending victim }

/-- The first loop of `_try_admit`. Each turn takes one request from the queue and puts
    none back, so the queue's length at entry is enough fuel. -/
def admitLoop (cfg : Config Col) : Nat → Batcher Col → Except (PyError × Batcher Col) (Batcher Col)
  | 0, s => return s
  | fuel + 1, s =>
    if s.active.length < cfg.maxBatchSize ∧ s.pending.length > 0 then do
      admitLoop cfg fuel (← admitOne cfg s)
    else return s

/-- `self.queue.peek().priority == 0`, on a queue that may be empty. -/
def headIsNormal (s : Batcher Col) : Bool :=
  match s.pending with
  | [] => false
  | rid :: _ => s.priority rid = 0

/-- The second loop of `_try_admit`, with the number of attempts that are left. -/
def preemptLoop (cfg : Config Col) : Nat → Batcher Col → Except (PyError × Batcher Col) (Batcher Col)
  | 0, s => return s
  | attempts + 1, s =>
    if s.active.length ≥ cfg.maxBatchSize ∧ headIsNormal s then
      match findDeprioritizeVictim s with
      | none => return s
      | some victim => do
        preemptLoop cfg attempts (← admitOne cfg (preempt s victim))
    else return s

def tryAdmit (cfg : Config Col) (s : Batcher Col) : Except (PyError × Batcher Col) (Batcher Col) := do
  let s ← admitLoop cfg s.pending.length s
  if cfg.strategy ≠ .probeDeprioritize then return s
  preemptLoop cfg cfg.maxBatchSize s

/-! Route. -/

/-- The loop of `_apply_routing`; returns `terminated_ids`. -/
def routeLoop (cfg : Config Col) : List Nat → Batcher Col → List Nat × Batcher Col
  | [], s => ([], s)
  | rid :: rest, s =>
    let terminated := (s.requests rid).terminatedBy cfg
    let (ids, s) := routeLoop cfg rest (s.modify rid (·.routedBy cfg))
    (if terminated then rid :: ids else ids, s)

def applyRouting (cfg : Config Col) (s : Batcher Col) : List Nat × Batcher Col :=
  if cfg.gate.isNone then ([], s)
  else
    let newlyRouted := s.active.filter (fun rid =>
      (s.requests rid).routingDecision.isSome && !(s.requests rid).routed)
    routeLoop cfg newlyRouted s

/-! The tick loop. -/

/-- `for rid in ...: self._finish(self.active[rid])`. -/
def finishAll (cfg : Config Col) : List Nat → Batcher Col → Except (PyError × Batcher Col) (Batcher Col)
  | [], s => return s
  | rid :: rest, s =>
    if rid ∈ s.active then finishAll cfg rest (finish cfg s rid)
    else .error (.keyError rid, s)

/-- Decode, route and evict, with a nonempty batch. -/
def decodePhase [Zero Col] (cfg : Config Col) (s : Batcher Col) :
    Except (PyError × Batcher Col) (Batcher Col) := do
  let (finishedIds, s) ← runDecodeStep cfg s s.active
  let (terminatedIds, s) := applyRouting cfg s
  finishAll cfg (cfg.setOrder (finishedIds ++ terminatedIds)) s

/-- One iteration of `run_forever`. -/
def tick [Zero Col] (cfg : Config Col) (s : Batcher Col) :
    Except (PyError × Batcher Col) (Batcher Col) := do
  let s ← tryAdmit cfg s
  if s.active.isEmpty then return s
  decodePhase cfg s

/-! Runs. -/

/-- `RequestQueue.submit`. -/
def submit (maxTokens : Int) (promptIds : List Nat) (stream : Bool) (s : Batcher Col) : Batcher Col :=
  let rid := s.nextId
  { s with
    requests := Function.update s.requests rid (.submitted maxTokens promptIds stream)
    nextId := rid + 1
    submitted := s.submitted ++ [rid]
    pending := s.pending ++ [rid] }

/-- A caller cancels the future it awaits. -/
def cancel (rid : Nat) (s : Batcher Col) : Batcher Col :=
  s.modify rid (fun r => { r with result := r.result.cancel })

inductive Event where
  | submit (maxTokens : Int) (promptIds : List Nat) (stream : Bool)
  | cancel (rid : Nat)
  | tick
  deriving DecidableEq, Repr

def step [Zero Col] (cfg : Config Col) (s : Batcher Col) :
    Event → Except (PyError × Batcher Col) (Batcher Col)
  | .submit maxTokens promptIds stream => return submit maxTokens promptIds stream s
  | .cancel rid => return if rid ∈ s.submitted then cancel rid s else s
  | .tick => tick cfg s

/-- The run of a new batcher on these events. -/
def runEvents [Zero Col] (cfg : Config Col) (firstId : Nat) (events : List Event) :
    Except (PyError × Batcher Col) (Batcher Col) :=
  Runs.run (step cfg) (Batcher.new firstId) events

end PGI
