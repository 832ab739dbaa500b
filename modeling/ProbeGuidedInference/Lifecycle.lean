import ProbeGuidedInference.CacheBridgeExact
import ProbeGuidedInference.Scheduler

/- What one request goes through. A `View` is all the batcher holds about one request:
   where it is, the request object, its two cache entries and its part of the log. A
   request waits, runs and is done; `Turn` is the relation between its view before and
   after the batcher turns to it: it is admitted (and possibly finished by its own
   prefill), it is decoded by one token (and possibly finished, by the token or by the
   probe), or it is preempted; `Life` adds that its caller cancels its future.
   `Refinement` shows that a tick moves the view of every request by such turns; here are
   the facts every request keeps whatever the batcher does, and the rule by which further
   ones are proved (`LifeReach.keep`, and move by move `LifeReach.keep_moves`). -/
namespace PGI

variable {Col : Type}

inductive Loc where
  | pending
  | active
  | finished
  deriving DecidableEq, Repr

@[ext] structure View (Col : Type) where
  loc : Loc
  req : GenerationRequest
  kv : Option (SeqCache Col)
  len : Option Nat
  history : List LogEntry

def View.fresh (maxTokens : Int) (promptIds : List Nat) (stream : Bool) : View Col where
  loc := .pending
  req := .submitted maxTokens promptIds stream
  kv := none
  len := none
  history := []

/-! The request object, field by field. -/

namespace GenerationRequest

/-- `run_prefill` on the request object. -/
@[simps] def firstToken (cfg : Config Col) (nextId : Nat) (r : GenerationRequest) : GenerationRequest :=
  { r with
    position := r.promptIds.length
    generatedIds := r.generatedIds ++ [nextId]
    tokenQueue := if r.stream then r.tokenQueue.map (· ++ [some nextId]) else r.tokenQueue
    finishReason := if cfg.ended nextId { r with generatedIds := r.generatedIds ++ [nextId] } then
      some (if nextId = cfg.tokenizer.eosTokenId then .eos else .maxTokens) else r.finishReason }

/-- The loop body of `run_decode_step` on the request object; `answer` is the gate's
    decision and the time, when the gate is called. -/
@[simps] def nextToken (cfg : Config Col) (nid : Nat) (answer : Option (RoutingDecision × ℚ))
    (r : GenerationRequest) : GenerationRequest :=
  { r with
    position := r.position + 1
    generatedIds := r.generatedIds ++ [nid]
    tokenQueue := if r.stream then r.tokenQueue.map (· ++ [some nid]) else r.tokenQueue
    routingDecision := (answer.map Prod.fst).or r.routingDecision
    checkpointHitTime := (answer.map Prod.snd).or r.checkpointHitTime
    finishReason := if cfg.ended nid { r with generatedIds := r.generatedIds ++ [nid] } then
      some (if nid = cfg.tokenizer.eosTokenId then .eos else .maxTokens) else r.finishReason }

/-- Whether `_apply_routing` looks at the request. -/
def routable (cfg : Config Col) (r : GenerationRequest) : Bool :=
  cfg.gate.isSome && (r.routingDecision.isSome && !r.routed)

/-- `_apply_routing` on the request object. -/
@[simps] def routeOnce (cfg : Config Col) (r : GenerationRequest) : GenerationRequest :=
  { r with
    routed := r.routed || r.routable cfg
    terminatedByProbe := r.terminatedByProbe || (r.routable cfg && r.terminatedBy cfg)
    finishReason := if r.routable cfg && r.terminatedBy cfg then some .probeTerminated
      else r.finishReason
    priority := if r.routable cfg && (r.routingDecision.any RoutingDecision.isDivergent &&
      cfg.strategy = .probeDeprioritize) then 1 else r.priority }

/-- Whether the request is in `finished_ids` or `terminated_ids` of the tick that
    appended `nid` and left it as `r`. -/
def leaves (cfg : Config Col) (nid : Nat) (r : GenerationRequest) : Bool :=
  cfg.ended nid r || (r.routable cfg && r.terminatedBy cfg)

end GenerationRequest

/-! The view. -/

/-- The gate's part of a decode: not called, or called on `row` and answered at `time`. -/
abbrev Answer := Option (CapturedRow × RoutingDecision × ℚ)

def Answer.decision (a : Answer) : Option (RoutingDecision × ℚ) := a.map Prod.snd

namespace View

@[simps] def finish (cfg : Config Col) (rid : Nat) (time : ℚ) (v : View Col) : View Col where
  loc := .finished
  req := v.req.completed cfg time
  kv := none
  len := none
  history := v.history ++ [.finish rid v.req.nGenerated]

/-- Taken from the queue and prefilled. -/
@[simps] def prefill {T : Nat} (cfg : Config Col) (rid : Nat) (waiting : List Int)
    (out : PrefillOut Col cfg.model.nLayers T) (v : View Col) : View Col where
  loc := .active
  req := v.req.firstToken cfg (argmax out.logits)
  kv := some (ofLayers out.kv)
  len := some v.req.promptIds.length
  history := v.history ++ [.admitted rid v.req.priority waiting]

def admitted {T : Nat} (cfg : Config Col) (rid : Nat) (waiting : List Int)
    (out : PrefillOut Col cfg.model.nLayers T) (time : ℚ) (v : View Col) : View Col :=
  let v := v.prefill cfg rid waiting out
  if cfg.ended (argmax out.logits) v.req then v.finish cfg rid time else v

@[simps] def preempt (rid : Nat) (v : View Col) : View Col where
  loc := .pending
  req := v.req.preempted
  kv := none
  len := none
  history := v.history ++ [.preempt rid v.req.nGenerated]

/-- The log entries of one decode of a request that had `n` tokens. -/
def decodeEntries (rid nid n : Nat) : Answer → List LogEntry
  | none => [.decode rid nid]
  | some (row, d, _) => [.decode rid nid, .classify rid (n + 1) row d]

@[simp] theorem admitted_notMem_decodeEntries {rid nid n : Nat} {answer : Answer} {r : Nat} {p : Int}
    {waiting : List Int} : .admitted r p waiting ∉ decodeEntries rid nid n answer := by
  cases answer with
  | none => simp [decodeEntries]
  | some a => simp [decodeEntries]

@[simp] theorem preempt_notMem_decodeEntries {rid nid n : Nat} {answer : Answer} {r k : Nat} :
    .preempt r k ∉ decodeEntries rid nid n answer := by
  cases answer with
  | none => simp [decodeEntries]
  | some a => simp [decodeEntries]

/-- Decoded by one token and routed. -/
@[simps] def advance {L : Nat} (cfg : Config Col) (rid : Nat) (cols : Fin L → List Col × List Col)
    (row : ForwardRow Col L) (answer : Answer) (v : View Col) : View Col where
  loc := .active
  req := (v.req.nextToken cfg (argmax row.logits) answer.decision).routeOnce cfg
  kv := some (ofLayers (grow cols row.newKV))
  len := v.len.map (· + 1)
  history := v.history ++ decodeEntries rid (argmax row.logits) v.req.nGenerated answer

def decode {L : Nat} (cfg : Config Col) (rid : Nat) (cols : Fin L → List Col × List Col)
    (row : ForwardRow Col L) (answer : Answer) (time : ℚ) (v : View Col) : View Col :=
  if (v.req.nextToken cfg (argmax row.logits) answer.decision).leaves cfg (argmax row.logits) then
    (v.advance cfg rid cols row answer).finish cfg rid time
  else v.advance cfg rid cols row answer

end View

section Cases
variable (cfg : Config Col) (rid : Nat) (time : ℚ) (v : View Col)

/-- An admitted request is finished at once exactly if its first token ends it. -/
theorem View.admitted_cases {T : Nat} (waiting : List Int) (out : PrefillOut Col cfg.model.nLayers T) :
    (v.admitted cfg rid waiting out time = (v.prefill cfg rid waiting out).finish cfg rid time ∧
      cfg.ended (argmax out.logits) (v.req.firstToken cfg (argmax out.logits)) = true) ∨
    (v.admitted cfg rid waiting out time = v.prefill cfg rid waiting out ∧
      cfg.ended (argmax out.logits) (v.req.firstToken cfg (argmax out.logits)) = false) := by
  unfold View.admitted
  cases hended : cfg.ended (argmax out.logits) (v.req.firstToken cfg (argmax out.logits)) with
  | true => exact .inl ⟨if_pos hended, rfl⟩
  | false => exact .inr ⟨if_neg (by simp [hended]), rfl⟩

/-- A decoded request is finished in the same tick exactly if it leaves. -/
theorem View.decode_cases {L : Nat} (cols : Fin L → List Col × List Col) (row : ForwardRow Col L)
    (answer : Answer) :
    (v.decode cfg rid cols row answer time = (v.advance cfg rid cols row answer).finish cfg rid time ∧
      (v.req.nextToken cfg (argmax row.logits) answer.decision).leaves cfg (argmax row.logits) = true) ∨
    (v.decode cfg rid cols row answer time = v.advance cfg rid cols row answer ∧
      (v.req.nextToken cfg (argmax row.logits) answer.decision).leaves cfg (argmax row.logits) =
        false) := by
  unfold View.decode
  cases hleaves : (v.req.nextToken cfg (argmax row.logits) answer.decision).leaves cfg
      (argmax row.logits) with
  | true => exact .inl ⟨if_pos rfl, rfl⟩
  | false => exact .inr ⟨if_neg (by decide), rfl⟩

/-- The one call of the gate that a decode can add to the log. -/
theorem View.classify_mem_advance {L : Nat} {cols : Fin L → List Col × List Col}
    {row : ForwardRow Col L} {answer : Answer} {n : Nat} {captured : CapturedRow}
    {d : RoutingDecision} :
    .classify rid n captured d ∈ (v.advance cfg rid cols row answer).history ↔
      .classify rid n captured d ∈ v.history ∨
        (n = v.req.nGenerated + 1 ∧ ∃ time, answer = some (captured, d, time)) := by
  rw [View.advance_history, List.mem_append]
  apply or_congr_right
  cases answer with
  | none => simp [View.decodeEntries]
  | some a =>
    obtain ⟨captured', d', time⟩ := a
    simp only [View.decodeEntries, List.mem_cons, reduceCtorEq, LogEntry.classify.injEq,
      true_and, List.not_mem_nil, or_false, false_or, Option.some.injEq, Prod.mk.injEq]
    refine ⟨?_, ?_⟩
    · intro h
      obtain ⟨rfl, rfl, rfl⟩ := h
      exact ⟨rfl, time, rfl, rfl, rfl⟩
    · intro h
      obtain ⟨rfl, t, rfl, rfl, -⟩ := h
      exact ⟨rfl, rfl, rfl⟩

end Cases

/-- `row` is what some decode forward of the model, on a batch as the bridge builds it,
    yields for a row whose input token is `token`, whose position id is `position` and whose
    unmasked cached columns are `cols`. -/
def RowOf (m : Model Col) (token position : Nat) (cols : Fin m.nLayers → List Col × List Col)
    (row : ForwardRow Col m.nLayers) : Prop :=
  ∃ n inp out, inp.WellFormed m.nLayers ∧ m.decode n inp = .ok out ∧ ∃ (i : Nat) (mask : List Nat),
    out.val[i]? = some row ∧ inp.inputIds[i]? = some token ∧ inp.positionIds[i]? = some position ∧
    inp.attentionMask[i]? = some mask ∧ mask.getLast? = some 1 ∧
    visible inp.pastKeyValues.layers mask.dropLast i = List.ofFn cols

/-- The gate's part of decoding a request that the new token leaves as `r`: the gate is
    called exactly when there is one, the request has no decision yet and the gate is
    ready at its number of tokens; it is called on the captured row. -/
inductive GateCall (cfg : Config Col) (row : CapturedRow) (r : GenerationRequest) : Answer → Prop where
  | skipped (h : ∀ g, cfg.gate = some g →
      (r.routingDecision.isNone && g.readyAt r.nGenerated) = false) : GateCall cfg row r none
  | called (g : ClassificationGate) (n : Nat) (d : RoutingDecision) (time : ℚ)
      (hg : cfg.gate = some g) (hready : (r.routingDecision.isNone && g.readyAt r.nGenerated) = true)
      (hd : g.classify n row.hidden = .ok d) : GateCall cfg row r (some (row, d, time))

/-- The gate is called only for a request that has no decision. -/
theorem GateCall.undecided {cfg : Config Col} {row : CapturedRow} {r : GenerationRequest}
    {answer : CapturedRow × RoutingDecision × ℚ} (h : GateCall cfg row r (some answer)) :
    r.routingDecision = none := by
  cases h with
  | called g n d time hg hready hd =>
    simp only [Bool.and_eq_true, Option.isNone_iff_eq_none] at hready
    exact hready.1

/-- One decode of request `rid`, by a row of some forward that was fed the request's last
    token, its length and its columns, and by the gate. -/
inductive Decoded (cfg : Config Col) (rid : Nat) (v : View Col) : View Col → Prop where
  | intro (cols : Fin cfg.model.nLayers → List Col × List Col)
      (token position : Nat) (row : ForwardRow Col cfg.model.nLayers) (answer : Answer) (time : ℚ)
      (hkv : v.kv = some (ofLayers cols)) (hlen : v.len = some position)
      (htoken : v.req.generatedIds.getLast? = some token)
      (hrow : RowOf cfg.model token position cols row)
      (hgate : GateCall cfg ⟨rid, token, position, row.hidden⟩
        (v.req.appended (argmax row.logits)) answer) :
      Decoded cfg rid v (v.decode cfg rid cols row answer time)

/-- What the batcher does to request `rid` in one piece of its work. -/
inductive Turn (cfg : Config Col) (rid : Nat) : View Col → View Col → Prop where
  | admitted (v : View Col) (waiting : List Int) (n : Nat)
      (out : PrefillOut Col cfg.model.nLayers v.req.promptIds.length) (time : ℚ)
      (hloc : v.loc = .pending) (hout : cfg.model.prefill n v.req.promptIds = .ok out) :
      Turn cfg rid v (v.admitted cfg rid waiting out time)
  | preempt (v : View Col) (hloc : v.loc = .active) (hprio : v.req.priority = 1) :
      Turn cfg rid v (v.preempt rid)
  | decode (v v' : View Col) (hloc : v.loc = .active) (h : Decoded cfg rid v v') : Turn cfg rid v v'

def View.cancel (v : View Col) : View Col :=
  { v with req := { v.req with result := v.req.result.cancel } }

/-- One event in the life of request `rid`: a turn of the batcher, or its caller cancels
    its future. -/
inductive Life (cfg : Config Col) (rid : Nat) : View Col → View Col → Prop where
  | cancel (v : View Col) : Life cfg rid v v.cancel
  | turn (v v' : View Col) (h : Turn cfg rid v v') : Life cfg rid v v'

/-- The views of request `rid` after any number of events since its submission. -/
inductive LifeReach (cfg : Config Col) (rid : Nat) : View Col → Prop where
  | fresh (maxTokens : Int) (promptIds : List Nat) (stream : Bool) :
      LifeReach cfg rid (.fresh maxTokens promptIds stream)
  | step {v v' : View Col} (h : LifeReach cfg rid v) (hl : Life cfg rid v v') : LifeReach cfg rid v'

/-! The code's updates of a request object are these. -/

section Updates
variable (cfg : Config Col) (r : GenerationRequest)

theorem firstToken_eq (nextId : Nat) :
    (if cfg.ended nextId (r.prefilled r.promptIds.length nextId) then
      cfg.setReason nextId (r.prefilled r.promptIds.length nextId)
    else r.prefilled r.promptIds.length nextId) = r.firstToken cfg nextId := by
  have he : cfg.ended nextId (r.prefilled r.promptIds.length nextId) =
      cfg.ended nextId { r with generatedIds := r.generatedIds ++ [nextId] } := rfl
  simp only [he, GenerationRequest.firstToken]
  split <;> rfl

/-- The request object after the gate's part of the loop body. -/
def answered (answer : Option (RoutingDecision × ℚ)) : GenerationRequest :=
  match answer with
  | none => r
  | some (d, time) => r.classified d time

theorem nextToken_eq (nid : Nat) (answer : Option (RoutingDecision × ℚ)) :
    (if cfg.ended nid (answered (r.appended nid) answer) then
      cfg.setReason nid (answered (r.appended nid) answer)
    else answered (r.appended nid) answer) = r.nextToken cfg nid answer := by
  have he : cfg.ended nid (answered (r.appended nid) answer) =
      cfg.ended nid { r with generatedIds := r.generatedIds ++ [nid] } := by
    cases answer <;> rfl
  simp only [he, GenerationRequest.nextToken]
  cases answer <;> split <;> rfl

theorem routeOnce_eq :
    (if r.routable cfg then r.routedBy cfg else r) = r.routeOnce cfg := by
  unfold GenerationRequest.routeOnce
  cases hr : r.routable cfg
  · simp
  · simp only [if_true, Bool.true_and, Bool.or_true]
    unfold GenerationRequest.routedBy GenerationRequest.terminatedBy
    rcases hd : r.routingDecision with _ | d
    · simp
    · cases hdiv : d.isDivergent
      · simp [hdiv]
      · cases hs : cfg.strategy
        · simp [hdiv]
        · by_cases hc : d.confidence > cfg.terminateConfidenceThreshold
          · simp [hdiv, hc]
          · simp [hdiv, hc]
        · simp [hdiv]

end Updates

/-! What every request keeps. -/

/-- A running request: its cache entries agree with its position, which counts its
    prompt and all generated tokens but the last; it has a token and has not ended. -/
structure Running (cfg : Config Col) (v : View Col) : Prop where
  stored : ∃ cols : Fin cfg.model.nLayers → List Col × List Col, v.kv = some (ofLayers cols) ∧
    ∀ ℓ, (cols ℓ).1.length = v.req.position ∧ (cols ℓ).2.length = v.req.position
  len : v.len = some v.req.position
  position : v.req.position + 1 = v.req.promptIds.length + v.req.nGenerated
  nonempty : v.req.generatedIds ≠ []
  noEos : ∀ token ∈ v.req.generatedIds, token ≠ cfg.tokenizer.eosTokenId
  below : (v.req.nGenerated : Int) < min v.req.maxTokens cfg.maxTokensCap

structure LifeInv (cfg : Config Col) (v : View Col) : Prop where
  waiting : v.loc = .pending → v.kv = none ∧ v.len = none ∧ v.req.generatedIds = [] ∧
    v.req.routingDecision = none
  running : v.loc = .active → Running cfg v
  done : v.loc = .finished → v.kv = none ∧ v.len = none ∧ v.req.generatedIds ≠ []
  routed : v.req.routed = v.req.routingDecision.isSome
  priority : v.req.priority = 0 ∨ (v.req.priority = 1 ∧ cfg.strategy = .probeDeprioritize)
  terminated : v.req.terminatedByProbe = true → v.loc = .finished ∧ cfg.strategy = .probeTerminate
  gateless : cfg.gate = none → v.req.routingDecision = none

theorem lifeInv_fresh (cfg : Config Col) (maxTokens : Int) (promptIds : List Nat) (stream : Bool) :
    LifeInv cfg (.fresh maxTokens promptIds stream : View Col) where
  waiting _ := ⟨rfl, rfl, rfl, rfl⟩
  running h := by cases h
  done h := by cases h
  routed := rfl
  priority := .inl rfl
  terminated h := by cases h
  gateless _ := rfl

section Preserved
variable {cfg : Config Col} {rid : Nat} {v : View Col}

/-- Not ended: neither the EOS token nor the limit. -/
theorem ended_eq_false {nid : Nat} {r : GenerationRequest} :
    cfg.ended nid r = false ↔
      nid ≠ cfg.tokenizer.eosTokenId ∧ (r.nGenerated : Int) < min r.maxTokens cfg.maxTokensCap := by
  simp [Config.ended]

theorem ended_eq_true {nid : Nat} {r : GenerationRequest} :
    cfg.ended nid r = true ↔
      nid = cfg.tokenizer.eosTokenId ∨ (r.nGenerated : Int) ≥ min r.maxTokens cfg.maxTokensCap := by
  simp [Config.ended]

theorem LifeInv.not_terminated (h : LifeInv cfg v) (hloc : v.loc ≠ .finished) :
    v.req.terminatedByProbe = false := by
  by_contra hc
  exact hloc (h.terminated (by simpa using hc)).1

/-- Finishing keeps everything but the location and what `_finish` sets. -/
theorem lifeInv_finish {time : ℚ} (hne : v.req.generatedIds ≠ [])
    (hrouted : v.req.routed = v.req.routingDecision.isSome)
    (hprio : v.req.priority = 0 ∨ (v.req.priority = 1 ∧ cfg.strategy = .probeDeprioritize))
    (hterm : v.req.terminatedByProbe = true → cfg.strategy = .probeTerminate)
    (hgate : cfg.gate = none → v.req.routingDecision = none) :
    LifeInv cfg (v.finish cfg rid time) where
  waiting h := by cases h
  running h := by cases h
  done _ := ⟨rfl, rfl, hne⟩
  routed := hrouted
  priority := hprio
  terminated h := ⟨rfl, hterm h⟩
  gateless := hgate

theorem lifeInv_admitted (h : LifeInv cfg v) (hloc : v.loc = .pending) (waiting : List Int)
    (out : PrefillOut Col cfg.model.nLayers v.req.promptIds.length) (time : ℚ) :
    LifeInv cfg (v.admitted cfg rid waiting out time) := by
  obtain ⟨-, -, hgen, hdec⟩ := h.waiting hloc
  have hterm := h.not_terminated (by rw [hloc]; decide)
  rcases v.admitted_cases cfg rid time waiting out with ⟨heq, -⟩ | ⟨heq, hend⟩
  · rw [heq]
    apply lifeInv_finish
    · simp
    · exact h.routed
    · exact h.priority
    · intro hc
      exact absurd hc (by simp [hterm])
    · exact h.gateless
  · rw [heq]
    have hend' := ended_eq_false.mp hend
    exact {
      waiting := fun hc => by cases hc
      running := fun _ => {
        stored := ⟨out.kv, rfl, fun ℓ => ⟨out.keys_length ℓ, out.values_length ℓ⟩⟩
        len := rfl
        position := by simp [GenerationRequest.nGenerated, hgen]
        nonempty := by simp
        noEos := by
          intro token htoken
          simp only [View.prefill_req, GenerationRequest.firstToken_generatedIds, hgen,
            List.nil_append, List.mem_singleton] at htoken
          exact htoken ▸ hend'.1
        below := hend'.2 }
      done := fun hc => by cases hc
      routed := h.routed
      priority := h.priority
      terminated := fun hc => absurd hc (by simp [hterm])
      gateless := h.gateless }

theorem lifeInv_preempt (h : LifeInv cfg v) (hloc : v.loc = .active) :
    LifeInv cfg (v.preempt rid) where
  waiting _ := ⟨rfl, rfl, rfl, rfl⟩
  running hc := by cases hc
  done hc := by cases hc
  routed := rfl
  priority := h.priority
  terminated hc := by
    have := h.not_terminated (by rw [hloc]; decide)
    exact absurd hc (by simp [this])
  gateless _ := rfl

/-- After routing, the `routed` flag says whether there is a decision. -/
theorem LifeInv.routed_after {nid : Nat} {row : CapturedRow} {answer : Answer} (h : LifeInv cfg v)
    (hgate : GateCall cfg row (v.req.appended nid) answer) :
    let r := (v.req.nextToken cfg nid answer.decision).routeOnce cfg
    r.routed = r.routingDecision.isSome := by
  have hgateless := h.gateless
  simp only [GenerationRequest.routeOnce_routed, GenerationRequest.routeOnce_routingDecision,
    GenerationRequest.routable, GenerationRequest.nextToken_routed,
    GenerationRequest.nextToken_routingDecision, h.routed]
  cases hgate with
  | skipped => cases hd : v.req.routingDecision <;> simp [Answer.decision]
  | called g n d time hg => cases hd : v.req.routingDecision <;> simp [Answer.decision, hg]

/-- A request is put in `terminated_ids` only under `probe_terminate`. -/
theorem terminatedBy_strategy {r : GenerationRequest} (h : r.terminatedBy cfg = true) :
    cfg.strategy = .probeTerminate := by
  unfold GenerationRequest.terminatedBy at h
  split at h
  · cases h
  · simp only [Bool.and_eq_true, decide_eq_true_eq] at h
    exact h.1.2

theorem ofLayers_injective {L : Nat} :
    Function.Injective (ofLayers : (Fin L → List Col × List Col) → SeqCache Col) := by
  intro f g hfg
  have hpairs := List.ofFn_injective hfg
  funext ℓ
  have hℓ := congrFun hpairs ℓ
  simp only [Prod.mk.injEq, List.cons.injEq, and_true] at hℓ
  exact Prod.ext hℓ.1 hℓ.2

theorem lifeInv_decode (h : LifeInv cfg v) (hloc : v.loc = .active)
    {cols : Fin cfg.model.nLayers → List Col × List Col}
    (hkv : v.kv = some (ofLayers cols)) (row : ForwardRow Col cfg.model.nLayers)
    {captured : CapturedRow} {answer : Answer}
    (hgate : GateCall cfg captured (v.req.appended (argmax row.logits)) answer) (time : ℚ) :
    LifeInv cfg (v.decode cfg rid cols row answer time) := by
  have hrun := h.running hloc
  have hterm := h.not_terminated (by rw [hloc]; decide)
  have hrouted := h.routed_after hgate
  have hgateless : cfg.gate = none → (v.advance cfg rid cols row answer).req.routingDecision = none := by
    intro hnone
    cases hgate with
    | skipped => simpa [Answer.decision] using h.gateless hnone
    | called g n d t hg => rw [hnone] at hg; cases hg
  have hprio : (v.advance cfg rid cols row answer).req.priority = 0 ∨
      ((v.advance cfg rid cols row answer).req.priority = 1 ∧ cfg.strategy = .probeDeprioritize) := by
    simp only [View.advance_req, GenerationRequest.routeOnce_priority,
      GenerationRequest.nextToken_priority]
    split
    · rename_i hc
      simp only [Bool.and_eq_true, decide_eq_true_eq] at hc
      exact .inr ⟨rfl, hc.2.2⟩
    · exact h.priority
  rcases v.decode_cases cfg rid time cols row answer with ⟨heq, -⟩ | ⟨heq, hleave⟩
  · rw [heq]
    apply lifeInv_finish
    · simp
    · exact hrouted
    · exact hprio
    · simp only [View.advance_req, GenerationRequest.routeOnce_terminatedByProbe,
        GenerationRequest.nextToken_terminatedByProbe, hterm, Bool.false_or, Bool.and_eq_true]
      intro hstop
      obtain ⟨-, hc⟩ := hstop
      exact terminatedBy_strategy hc
    · exact hgateless
  · rw [heq]
    obtain ⟨hend, hnot⟩ := Bool.or_eq_false_iff.mp hleave
    have hend' := ended_eq_false.mp hend
    exact {
      waiting := fun hc => by cases hc
      running := fun _ => {
        stored := by
          obtain ⟨cols', hkv', hlen⟩ := hrun.stored
          have hcols : cols = cols' :=
            ofLayers_injective (Option.some.inj (hkv.symm.trans hkv'))
          subst hcols
          refine ⟨grow cols row.newKV, rfl, ?_⟩
          intro ℓ
          simp [grow, (hlen ℓ).1, (hlen ℓ).2]
        len := by simp [hrun.len]
        position := by
          have := hrun.position
          simp only [View.advance_req, GenerationRequest.routeOnce_position,
            GenerationRequest.nextToken_position, GenerationRequest.routeOnce_promptIds,
            GenerationRequest.nextToken_promptIds, GenerationRequest.nGenerated,
            GenerationRequest.routeOnce_generatedIds, GenerationRequest.nextToken_generatedIds,
            List.length_append, List.length_singleton] at this ⊢
          omega
        nonempty := by simp
        noEos := by
          intro token htoken
          simp only [View.advance_req, GenerationRequest.routeOnce_generatedIds,
            GenerationRequest.nextToken_generatedIds, List.mem_append, List.mem_singleton] at htoken
          rcases htoken with htoken | rfl
          · exact hrun.noEos token htoken
          · exact hend'.1
        below := hend'.2 }
      done := fun hc => by cases hc
      routed := hrouted
      priority := hprio
      terminated := fun hc => by
        simp only [View.advance_req, GenerationRequest.routeOnce_terminatedByProbe, hnot,
          GenerationRequest.nextToken_terminatedByProbe, hterm, Bool.or_false] at hc
        cases hc
      gateless := hgateless }

theorem lifeInv_cancel (h : LifeInv cfg v) : LifeInv cfg v.cancel :=
  ⟨h.waiting, fun hl => ⟨(h.running hl).stored, (h.running hl).len, (h.running hl).position,
    (h.running hl).nonempty, (h.running hl).noEos, (h.running hl).below⟩,
    h.done, h.routed, h.priority, h.terminated, h.gateless⟩

theorem lifeInv_turn {v' : View Col} (h : LifeInv cfg v) (ht : Turn cfg rid v v') :
    LifeInv cfg v' := by
  cases ht with
  | admitted waiting n out time hloc _ => exact lifeInv_admitted h hloc waiting out time
  | preempt hloc _ => exact lifeInv_preempt h hloc
  | decode _ hloc hdec =>
    obtain ⟨cols, token, position, row, answer, time, hkv, -, -, -, hgate⟩ := hdec
    exact lifeInv_decode h hloc hkv row hgate time

/-- No turn changes what the caller asked for. -/
theorem Turn.request {v' : View Col} (ht : Turn cfg rid v v') : v'.req.stream = v.req.stream ∧
    v'.req.maxTokens = v.req.maxTokens ∧ v'.req.promptIds = v.req.promptIds := by
  cases ht with
  | admitted waiting n out time _ _ =>
    rcases v.admitted_cases cfg rid time waiting out with ⟨heq, -⟩ | ⟨heq, -⟩
    · rw [heq]
      exact ⟨rfl, rfl, rfl⟩
    · rw [heq]
      exact ⟨rfl, rfl, rfl⟩
  | preempt _ _ => exact ⟨rfl, rfl, rfl⟩
  | decode _ _ hdec =>
    obtain ⟨cols, token, position, row, answer, time, -, -, -, -, -⟩ := hdec
    rcases v.decode_cases cfg rid time cols row answer with ⟨heq, -⟩ | ⟨heq, -⟩
    · rw [heq]
      exact ⟨rfl, rfl, rfl⟩
    · rw [heq]
      exact ⟨rfl, rfl, rfl⟩

/-- **The life rule.** What a new request has, and cancellations and turns keep, every
    request keeps. -/
theorem LifeReach.keep {P : View Col → Prop}
    (hfresh : ∀ maxTokens promptIds stream, P (.fresh maxTokens promptIds stream))
    (hcancel : ∀ v : View Col, LifeInv cfg v → P v → P v.cancel)
    (hturn : ∀ v v' : View Col, LifeInv cfg v → P v → Turn cfg rid v v' → P v')
    (h : LifeReach cfg rid v) : LifeInv cfg v ∧ P v := by
  induction h with
  | fresh maxTokens promptIds stream =>
    exact ⟨lifeInv_fresh cfg maxTokens promptIds stream, hfresh maxTokens promptIds stream⟩
  | step _ hl ih =>
    cases hl with
    | cancel => exact ⟨lifeInv_cancel ih.1, hcancel _ ih.1 ih.2⟩
    | turn _ ht => exact ⟨lifeInv_turn ih.1 ht, hturn _ _ ih.1 ih.2 ht⟩

/-- The life rule, move by move: an admission is a prefill and perhaps a finish, and so is
    a decode an advance and perhaps a finish. -/
theorem LifeReach.keep_moves {P : View Col → Prop}
    (hfresh : ∀ maxTokens promptIds stream, P (.fresh maxTokens promptIds stream))
    (hcancel : ∀ v : View Col, P v → P v.cancel)
    (hprefill : ∀ (v : View Col) (waiting : List Int)
      (out : PrefillOut Col cfg.model.nLayers v.req.promptIds.length), LifeInv cfg v → P v →
      v.loc = .pending → P (v.prefill cfg rid waiting out))
    (hadvance : ∀ (v : View Col) (cols : Fin cfg.model.nLayers → List Col × List Col)
      (token position : Nat) (row : ForwardRow Col cfg.model.nLayers) (answer : Answer),
      LifeInv cfg v → P v → v.loc = .active → v.len = some position →
      RowOf cfg.model token position cols row → GateCall cfg ⟨rid, token, position, row.hidden⟩
        (v.req.appended (argmax row.logits)) answer → P (v.advance cfg rid cols row answer))
    (hpreempt : ∀ v : View Col, LifeInv cfg v → P v → v.loc = .active → v.req.priority = 1 →
      P (v.preempt rid))
    (hfinish : ∀ (v : View Col) (time : ℚ), P v → v.loc = .active → P (v.finish cfg rid time))
    (h : LifeReach cfg rid v) : P v := by
  refine (h.keep hfresh (fun v _ h => hcancel v h) ?_).2
  intro v v' hinv h ht
  cases ht with
  | admitted waiting n out time hloc _ =>
    have hpre := hprefill v waiting out hinv h hloc
    rcases v.admitted_cases cfg rid time waiting out with ⟨heq, -⟩ | ⟨heq, -⟩
    · rw [heq]
      exact hfinish _ time hpre rfl
    · rw [heq]
      exact hpre
  | preempt hloc hone => exact hpreempt v hinv h hloc hone
  | decode _ hloc hdec =>
    obtain ⟨cols, token, position, row, answer, time, -, hlen, -, hrow, hgate⟩ := hdec
    have hadv := hadvance v cols token position row answer hinv h hloc hlen hrow hgate
    rcases v.decode_cases cfg rid time cols row answer with ⟨heq, -⟩ | ⟨heq, -⟩
    · rw [heq]
      exact hfinish _ time hadv rfl
    · rw [heq]
      exact hadv

theorem LifeReach.inv (h : LifeReach cfg rid v) : LifeInv cfg v :=
  (h.keep (P := fun _ => True) (fun _ _ _ => trivial) (fun _ _ _ => trivial)
    (fun _ _ _ _ _ => trivial)).1

end Preserved

end PGI
