import ProbeGuidedInference.Batcher

/- The seam between scheduler and model (src/model_runner.py): `runPrefill` admits one
   request to the model, `runDecodeStep` advances every active request by one token in
   one batched forward, and calls the gate for the requests that are ready for it. -/
namespace PGI

variable {Col : Type}

/-! What the two functions do to one request object. -/

namespace GenerationRequest

/-- `req.position = seq_len`, then the first token is appended and emitted. -/
def prefilled (seqLen nextId : Nat) (r : GenerationRequest) : GenerationRequest :=
  putNowait (some nextId) { r with position := seqLen, generatedIds := r.generatedIds ++ [nextId] }

/-- One more token is appended and emitted. -/
def appended (nid : Nat) (r : GenerationRequest) : GenerationRequest :=
  putNowait (some nid) { r with generatedIds := r.generatedIds ++ [nid], position := r.position + 1 }

def classified (d : RoutingDecision) (time : ℚ) (r : GenerationRequest) : GenerationRequest :=
  { r with routingDecision := some d, checkpointHitTime := some time }

end GenerationRequest

/-- `nid == eos_token_id or req.n_generated >= min(req.max_tokens, max_tokens_cap)`. -/
def Config.ended (cfg : Config Col) (nid : Nat) (r : GenerationRequest) : Bool :=
  nid = cfg.tokenizer.eosTokenId ∨ (r.nGenerated : Int) ≥ min r.maxTokens cfg.maxTokensCap

/-- The finish reason of a request that ended on `nid`. -/
def Config.setReason (cfg : Config Col) (nid : Nat) (r : GenerationRequest) : GenerationRequest :=
  { r with finishReason := some (if nid = cfg.tokenizer.eosTokenId then .eos else .maxTokens) }

/-- The forward hook, which is registered exactly when there is a gate. -/
def Batcher.hook (cfg : Config Col) (rows : List CapturedRow) (s : Batcher Col) : Batcher Col :=
  if cfg.gate.isSome then { s with captureLast := some rows } else s

/-! `run_prefill`. -/

def runPrefill (cfg : Config Col) (s : Batcher Col) (rid : Nat) :
    Except (PyError × Batcher Col) (Bool × Batcher Col) := do
  let promptIds := (s.requests rid).promptIds
  let n := s.forwards
  let s := { s with forwards := n + 1 }
  let out ← raising s ((cfg.model.prefill n promptIds).mapError .modelError)
  let seqLen := promptIds.length
  let s := s.hook cfg
    [{ seqId := rid, inputId := promptIds.getLastD 0, positionId := seqLen - 1, hidden := out.hidden }]
  let s := { s with cache := s.cache.storePrefill rid out.pastKeyValues seqLen }
  let nextId := argmax out.logits
  let s := s.modify rid (·.prefilled seqLen nextId)
  if cfg.ended nextId (s.requests rid) then
    return (true, s.modify rid (cfg.setReason nextId))
  else
    return (false, s)

/-! `run_decode_step`. -/

/-- What the hook stores in a decode forward: one row per input row. -/
def capturedRows {L : Nat} (seqIds : List Nat) (inp : DecodeInput Col) (rows : List (ForwardRow Col L)) :
    List CapturedRow :=
  List.zipWith (fun (inputs : Nat × Nat × Nat) row =>
    { seqId := inputs.1, inputId := inputs.2.1, positionId := inputs.2.2, hidden := row.hidden })
    (seqIds.zip (inp.inputIds.zip inp.positionIds)) rows

/-- The gate's part of the loop body for row `i`. -/
def classifyRow (cfg : Config Col) (hiddenThisStep : Option (List CapturedRow)) (s : Batcher Col)
    (rid i : Nat) : Except (PyError × Batcher Col) (Batcher Col) :=
  match cfg.gate with
  | none => return s
  | some gate =>
    let req := s.requests rid
    if req.routingDecision.isNone && gate.readyAt req.nGenerated then do
      let row ← raising s (index (hiddenThisStep.getD []) i)
      let n := s.classifies
      let s := { s with classifies := n + 1 }
      let decision ← raising s ((gate.classify n row.hidden).mapError .valueError)
      let s := (s.modify rid (·.classified decision (cfg.time s.clock))).record
        (.classify rid req.nGenerated row decision)
      return { s with clock := s.clock + 1 }
    else return s

/-- The loop over the active requests, as pairs (request, row); returns `finished_ids`. -/
def decodeLoop (cfg : Config Col) (nextIds : List Nat) (hiddenThisStep : Option (List CapturedRow)) :
    List (Nat × Nat) → Batcher Col → Except (PyError × Batcher Col) (List Nat × Batcher Col)
  | [], s => return ([], s)
  | (rid, i) :: rest, s => do
    let nid ← raising s (index nextIds i)
    let s := (s.modify rid (·.appended nid)).record (.decode rid nid)
    let s ← classifyRow cfg hiddenThisStep s rid i
    if cfg.ended nid (s.requests rid) then
      let (finishedIds, s) ← decodeLoop cfg nextIds hiddenThisStep rest
        (s.modify rid (cfg.setReason nid))
      return (rid :: finishedIds, s)
    else
      decodeLoop cfg nextIds hiddenThisStep rest s

/-- `run_decode_step` from the return of the forward on: the hook has stored its rows. -/
def afterForward (cfg : Config Col) (seqIds : List Nat) (inp : DecodeInput Col) (maxLen : Nat)
    (rows : List (ForwardRow Col cfg.model.nLayers)) (s : Batcher Col) :
    Except (PyError × Batcher Col) (List Nat × Batcher Col) := do
  let s := s.hook cfg (capturedRows seqIds inp rows)
  let cache ← (s.cache.scatterUpdatedBatch seqIds (inp.updatedCache rows) maxLen).mapError
    (fun e => (e.1, { s with cache := e.2 }))
  let s := { s with cache := cache }
  let nextIds := rows.map (fun row => argmax row.logits)
  let hiddenThisStep := if cfg.gate.isSome then s.captureLast else none
  decodeLoop cfg nextIds hiddenThisStep seqIds.zipIdx s

def runDecodeStep [Zero Col] (cfg : Config Col) (s : Batcher Col) (activeReqs : List Nat) :
    Except (PyError × Batcher Col) (List Nat × Batcher Col) := do
  let seqIds := activeReqs
  let nextTokens ← raising s (activeReqs.mapM (fun rid => lastOf (s.requests rid).generatedIds))
  let batch ← raising s (s.cache.buildBatch seqIds)
  let inp : DecodeInput Col :=
    { inputIds := nextTokens, attentionMask := batch.attentionMask,
      positionIds := batch.positionIds, pastKeyValues := batch.batchedCache }
  let n := s.forwards
  let s := { s with forwards := n + 1 }
  let out ← raising s ((cfg.model.decode n inp).mapError .modelError)
  afterForward cfg seqIds inp batch.maxLen out.val s

end PGI
