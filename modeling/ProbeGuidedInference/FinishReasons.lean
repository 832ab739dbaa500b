import ProbeGuidedInference.TableModel

/- Why a request finished. `run_decode_step` writes the natural reason when a token ends
   the request, and `_apply_routing`, later in the same tick, writes `probe_terminated`
   when the gate's answer stops it. Nothing keeps both from claiming the same request: if
   the gate is called on the very token that ends the request and its answer stops it,
   the natural reason is overwritten. Apart from that the reasons are honest. -/
namespace PGI
open Fallible

variable {Col : Type}

/-- The decision ends a request under `probe_terminate`. -/
def Config.stops (cfg : Config Col) (d : RoutingDecision) : Bool :=
  d.isDivergent && (cfg.strategy = .probeTerminate) &&
    (d.confidence > cfg.terminateConfidenceThreshold)

/-- The token `token`, the `n`-th of a request with this limit, ends it by itself. -/
def Config.endsAt (cfg : Config Col) (maxTokens : Int) (token n : Nat) : Prop :=
  token = cfg.tokenizer.eosTokenId ∨ (n : Int) ≥ min maxTokens cfg.maxTokensCap

/-- The request's last token ends it by itself. -/
def Config.endedByItself (cfg : Config Col) (r : GenerationRequest) : Prop :=
  r.generatedIds.getLast? = some cfg.tokenizer.eosTokenId ∨
    (r.nGenerated : Int) ≥ min r.maxTokens cfg.maxTokensCap

/-- The finish reason says what happened. -/
structure Honest (cfg : Config Col) (r : GenerationRequest) : Prop where
  eos : r.finishReason = some .eos ↔ r.generatedIds.getLast? = some cfg.tokenizer.eosTokenId
  maxTokens : r.finishReason = some .maxTokens ↔
    r.generatedIds.getLast? ≠ some cfg.tokenizer.eosTokenId ∧
      (r.nGenerated : Int) ≥ min r.maxTokens cfg.maxTokensCap
  probe : r.finishReason = some .probeTerminated →
    r.terminatedByProbe = true ∧ ¬ cfg.endedByItself r

/-- The gate was called on a token that ends the request, and its answer stops it. -/
def Coincides (cfg : Config Col) (rid : Nat) (v : View Col) : Prop :=
  ∃ (n : Nat) (row : CapturedRow) (d : RoutingDecision) (token : Nat),
    .classify rid n row d ∈ v.history ∧ cfg.stops d = true ∧
    v.req.generatedIds[n - 1]? = some token ∧ cfg.endsAt v.req.maxTokens token n

section OneRequest
variable {cfg : Config Col} {rid : Nat} {v v' : View Col}

/-- Up to its end, no answer of the gate has stopped the request; at its end the reason is
    the natural one, or the probe's. -/
structure Reasoned (cfg : Config Col) (rid : Nat) (v : View Col) : Prop where
  running : v.loc ≠ .finished →
    ∀ n row d, .classify rid n row d ∈ v.history → cfg.stops d = false
  done : v.loc = .finished →
    (v.req.terminatedByProbe = false ∧ cfg.endedByItself v.req ∧ ¬ Coincides cfg rid v ∧
      v.req.finishReason = some (if v.req.generatedIds.getLast? = some cfg.tokenizer.eosTokenId
        then .eos else .maxTokens)) ∨
    (v.req.terminatedByProbe = true ∧ v.req.finishReason = some .probeTerminated ∧
      (Coincides cfg rid v ↔ cfg.endedByItself v.req))

theorem Reasoned.honest_iff (h : Reasoned cfg rid v) (hloc : v.loc = .finished) :
    Honest cfg v.req ↔ ¬ Coincides cfg rid v := by
  rcases h.done hloc with ⟨-, hended, hnot, hreason⟩ | ⟨hterm, hreason, hiff⟩
  · refine ⟨fun _ => hnot, fun _ => ?_⟩
    by_cases heos : v.req.generatedIds.getLast? = some cfg.tokenizer.eosTokenId
    · rw [if_pos heos] at hreason
      exact ⟨by simp [hreason, heos], by simp [hreason, heos], by simp [hreason]⟩
    · rw [if_neg heos] at hreason
      have hlimit := hended.resolve_left heos
      exact ⟨by simp [hreason, heos], by simp only [hreason, true_iff]; exact ⟨heos, hlimit⟩,
        by simp [hreason]⟩
  · rw [hiff]
    refine ⟨?_, ?_⟩
    · intro hhonest
      exact (hhonest.probe hreason).2
    · intro hnot
      have hnot' := not_or.mp hnot
      exact ⟨by simp only [hreason, Option.some.injEq, reduceCtorEq, false_iff]; exact hnot'.1,
        by simp only [hreason, Option.some.injEq, reduceCtorEq, false_iff]; exact fun hc => hnot'.2 hc.2,
        fun _ => ⟨hterm, hnot⟩⟩

theorem ended_endedByItself {nid : Nat} {r : GenerationRequest}
    (hlast : r.generatedIds.getLast? = some nid) :
    cfg.ended nid r = true ↔ cfg.endedByItself r := by
  rw [ended_eq_true]
  unfold Config.endedByItself
  rw [hlast, Option.some.injEq]

theorem terminatedBy_some {r : GenerationRequest} {d : RoutingDecision}
    (hd : r.routingDecision = some d) : r.terminatedBy cfg = cfg.stops d := by
  unfold GenerationRequest.terminatedBy Config.stops
  rw [hd]

/-- Where the gate is not called, there is nothing new to route. -/
theorem routable_skipped (hinv : LifeInv cfg v) (nid : Nat) :
    (v.req.nextToken cfg nid (Answer.decision none)).routable cfg = false := by
  have hrouted := hinv.routed
  simp only [GenerationRequest.routable, GenerationRequest.nextToken_routingDecision,
    GenerationRequest.nextToken_routed, Answer.decision, Option.map_none, Option.none_or, hrouted]
  cases v.req.routingDecision <;> simp

/-- Where it is called, its answer is routed. -/
theorem routable_called (hinv : LifeInv cfg v) {nid : Nat} {row captured : CapturedRow}
    {d : RoutingDecision} {time : ℚ}
    (hgate : GateCall cfg captured (v.req.appended nid) (some (row, d, time))) :
    (v.req.nextToken cfg nid (Answer.decision (some (row, d, time)))).routable cfg = true := by
  have hnone : v.req.routingDecision = none := hgate.undecided
  have hrouted := hinv.routed
  cases hgate with
  | called g n _ _ hg _ _ =>
    simp [GenerationRequest.routable, Answer.decision, hg, hrouted, hnone]

/-- A request that ends on a token has the natural reason. -/
theorem reasoned_natural {u : View Col} {time : ℚ} {nid : Nat}
    (hlast : u.req.generatedIds.getLast? = some nid) (hended : cfg.ended nid u.req = true)
    (hreason : u.req.finishReason =
      some (if nid = cfg.tokenizer.eosTokenId then .eos else .maxTokens))
    (hterm : u.req.terminatedByProbe = false)
    (hhist : ∀ n row d, .classify rid n row d ∈ u.history → cfg.stops d = false) :
    Reasoned cfg rid (u.finish cfg rid time) where
  running hc := absurd rfl hc
  done _ := by
    refine .inl ⟨hterm, (ended_endedByItself hlast).mp hended, ?_, ?_⟩
    · intro h
      obtain ⟨n, row, d, token, hmem, hstops, -, -⟩ := h
      have hmem' : .classify rid n row d ∈ u.history := by simpa using hmem
      rw [hhist n row d hmem'] at hstops
      cases hstops
    · simp only [View.finish_req, GenerationRequest.completed_finishReason,
        GenerationRequest.completed_generatedIds, hlast, Option.some.injEq, hreason]

section Decode
variable {L : Nat} (cols : Fin L → List Col × List Col) (row : ForwardRow Col L)
  {captured : CapturedRow} {answer : Answer} (time : ℚ)

theorem advance_last : (v.advance cfg rid cols row answer).req.generatedIds.getLast? =
    some (argmax row.logits) := by simp

/-- A decode in which the probe stops nothing: only the token can end the request. -/
theorem reasoned_unstopped (hnot : v.req.terminatedByProbe = false)
    (hun : ((v.req.nextToken cfg (argmax row.logits) answer.decision).routable cfg &&
      (v.req.nextToken cfg (argmax row.logits) answer.decision).terminatedBy cfg) = false)
    (hhist : ∀ n crow d, .classify rid n crow d ∈ (v.advance cfg rid cols row answer).history →
      cfg.stops d = false) :
    Reasoned cfg rid (v.decode cfg rid cols row answer time) := by
  rcases v.decode_cases cfg rid time cols row answer with ⟨heq, hleaves⟩ | ⟨heq, -⟩
  · rw [heq]
    have hended : cfg.ended (argmax row.logits)
        (v.req.nextToken cfg (argmax row.logits) answer.decision) = true := by
      unfold GenerationRequest.leaves at hleaves
      rwa [hun, Bool.or_false] at hleaves
    apply reasoned_natural (advance_last cols row) hended
    · simp only [View.advance_req, GenerationRequest.routeOnce_finishReason, hun,
        Bool.false_eq_true, if_false, GenerationRequest.nextToken_finishReason]
      exact if_pos hended
    · simp [hun, hnot]
    · exact hhist
  · rw [heq]
    exact ⟨fun _ => hhist, fun hc => by cases hc⟩

/-- A decode in which the probe stops the request, whether or not its token ends it. -/
theorem reasoned_stopped {crow : CapturedRow} {d : RoutingDecision} {t : ℚ}
    (hroute : (v.req.nextToken cfg (argmax row.logits)
      (Answer.decision (some (crow, d, t)))).routable cfg = true)
    (hstops : cfg.stops d = true)
    (hold : ∀ n row d, .classify rid n row d ∈ v.history → cfg.stops d = false) :
    Reasoned cfg rid (v.decode cfg rid cols row (some (crow, d, t)) time) := by
  have hterm : (v.req.nextToken cfg (argmax row.logits)
      (Answer.decision (some (crow, d, t)))).terminatedBy cfg = true := by
    rw [terminatedBy_some (d := d) (by simp [Answer.decision]), hstops]
  have heq : v.decode cfg rid cols row (some (crow, d, t)) time =
      (v.advance cfg rid cols row (some (crow, d, t))).finish cfg rid time := by
    rcases v.decode_cases cfg rid time cols row (some (crow, d, t)) with ⟨heq, -⟩ | ⟨-, hleaves⟩
    · exact heq
    · unfold GenerationRequest.leaves at hleaves
      rw [hroute, hterm, Bool.and_true, Bool.or_true] at hleaves
      cases hleaves
  rw [heq]
  refine ⟨fun hc => absurd rfl hc, fun _ => .inr ⟨?_, ?_, ?_⟩⟩
  · simp [hroute, hterm]
  · simp [hroute, hterm]
  · have hids : ((v.advance cfg rid cols row (some (crow, d, t))).finish cfg rid time).req.generatedIds =
        v.req.generatedIds ++ [argmax row.logits] := rfl
    have hended : cfg.endedByItself
        ((v.advance cfg rid cols row (some (crow, d, t))).finish cfg rid time).req ↔
        cfg.endsAt v.req.maxTokens (argmax row.logits) (v.req.nGenerated + 1) := by
      unfold Config.endedByItself Config.endsAt GenerationRequest.nGenerated
      rw [hids, List.getLast?_append]
      simp
    rw [hended]
    refine ⟨?_, ?_⟩
    · intro h
      obtain ⟨n, row', d', token, hmem, hstops', htoken, hends⟩ := h
      have hmem' : .classify rid n row' d' ∈
          (v.advance cfg rid cols row (some (crow, d, t))).history := by simpa using hmem
      rcases (View.classify_mem_advance cfg rid v).mp hmem' with hmem' | ⟨rfl, -⟩
      · rw [hold n row' d' hmem'] at hstops'
        cases hstops'
      · rw [hids, Nat.add_sub_cancel] at htoken
        have : token = argmax row.logits := by
          simpa [GenerationRequest.nGenerated, eq_comm] using htoken
        rw [← this]
        exact hends
    · intro hends
      refine ⟨v.req.nGenerated + 1, crow, d, argmax row.logits, ?_, hstops, ?_, hends⟩
      · simp [View.decodeEntries]
      · rw [hids, Nat.add_sub_cancel]
        simp [GenerationRequest.nGenerated]

theorem reasoned_decode (hinv : LifeInv cfg v) (h : Reasoned cfg rid v) (hloc : v.loc = .active)
    (hgate : GateCall cfg captured (v.req.appended (argmax row.logits)) answer) :
    Reasoned cfg rid (v.decode cfg rid cols row answer time) := by
  have hnot := hinv.not_terminated (by rw [hloc]; decide)
  have hold := h.running (by rw [hloc]; decide)
  cases answer with
  | none =>
    apply reasoned_unstopped cols row time hnot
    · rw [routable_skipped hinv, Bool.false_and]
    · intro n crow d hmem
      rcases (View.classify_mem_advance cfg rid v).mp hmem with hmem | ⟨-, _, hnone⟩
      · exact hold n crow d hmem
      · cases hnone
  | some a =>
    obtain ⟨crow, d, t⟩ := a
    cases hstops : cfg.stops d with
    | false =>
      apply reasoned_unstopped cols row time hnot
      · rw [terminatedBy_some (d := d) (by simp [Answer.decision]), hstops, Bool.and_false]
      · intro n row' d' hmem
        rcases (View.classify_mem_advance cfg rid v).mp hmem with hmem | ⟨-, _, hsome⟩
        · exact hold n row' d' hmem
        · obtain ⟨rfl, rfl, rfl⟩ : crow = row' ∧ d = d' ∧ t = _ := by simpa using hsome
          exact hstops
    | true => exact reasoned_stopped cols row time (routable_called hinv hgate) hstops hold

end Decode

theorem reasoned_turn (hinv : LifeInv cfg v) (h : Reasoned cfg rid v) (ht : Turn cfg rid v v') :
    Reasoned cfg rid v' := by
  cases ht with
  | admitted waiting n out time hloc _ =>
    have hold := h.running (by rw [hloc]; decide)
    have hhist : ∀ n row d, .classify rid n row d ∈ (v.prefill cfg rid waiting out).history →
        cfg.stops d = false := by
      intro n row d hmem
      exact hold n row d (by simpa using hmem)
    rcases v.admitted_cases cfg rid time waiting out with ⟨heq, hended⟩ | ⟨heq, -⟩
    · rw [heq]
      apply reasoned_natural (by simp) hended
      · simp only [View.prefill_req, GenerationRequest.firstToken_finishReason]
        exact if_pos hended
      · exact hinv.not_terminated (by rw [hloc]; decide)
      · exact hhist
    · rw [heq]
      exact ⟨fun _ => hhist, fun hc => by cases hc⟩
  | preempt hloc _ =>
    have hold := h.running (by rw [hloc]; decide)
    refine ⟨fun _ n row d hmem => ?_, fun hc => by cases hc⟩
    exact hold n row d (by simpa using hmem)
  | decode _ hloc hdec =>
    obtain ⟨cols, token, position, row, answer, time, -, -, -, -, hgate⟩ := hdec
    exact reasoned_decode cols row time hinv h hloc hgate

theorem LifeReach.reasoned (h : LifeReach cfg rid v) : Reasoned cfg rid v := by
  refine (h.keep (P := Reasoned cfg rid) ?_ ?_ ?_).2
  · intro maxTokens promptIds stream
    exact ⟨fun _ n row d hmem => (by cases hmem), fun hc => by cases hc⟩
  · intro v _ h
    exact ⟨h.running, h.done⟩
  · intro v v' hinv h ht
    exact reasoned_turn hinv h ht

end OneRequest

section Batch
variable {cfg : Config Col} {s s' : Batcher Col}

theorem Work.counted (hs : SysInv cfg s) (hc : Counted s) (h : Work cfg s s') : Counted s' := by
  cases h with
  | admission rid rest _ _ h => exact h.counted hc
  | swap rid rest victim _ _ _ _ _ _ h => exact h.counted (preempt_counted s victim hc)
  | decode _ h => exact h.counted (fun r hr ha => hs.active_not_finished ha hr) hc

theorem runEvents_counted [Zero Col] {firstId : Nat} {events : List Event}
    (h : runEvents cfg firstId events = .ok s) : Counted s := by
  refine (runEvents_keep (I := Counted) ⟨rfl, rfl⟩ ?_ ?_ ?_ h).2
  · intro s maxTokens promptIds stream hs hc
    refine hc.congr rfl rfl rfl ?_
    intro r hr
    have hne : r ≠ s.nextId := fun heq =>
      hs.nextId_not_submitted (heq ▸ hs.mem_submitted.mpr (.inr (.inr hr)))
    rw [submit_requests_ne maxTokens promptIds stream hne]
  · intro s rid hs hc _
    refine hc.congr rfl rfl rfl ?_
    intro r _
    obtain ⟨f, hf⟩ := cancel_requests s rid r
    rw [hf]
  · intro s s' hs hc hw
    exact hw.counted hs hc

end Batch

/-- **Finish reasons are honest but for coincidences.** In every state of every run the
    counter of probe terminations counts the finished requests that have the flag, and a
    finished request has an honest finish reason if and only if the gate was not called
    on the very token that ended it with an answer that stops it. -/
theorem finish_reasons_honest_iff [Zero Col] {cfg : Config Col} {firstId : Nat}
    {events : List Event} {s : Batcher Col} (hrun : runEvents cfg firstId events = .ok s) :
    s.totalProbeTerminated = s.finished.countP (fun r => (s.requests r).terminatedByProbe) ∧
    ∀ r ∈ s.finished, Honest cfg (s.requests r) ↔ ¬ Coincides cfg r (s.view r) := by
  refine ⟨(runEvents_counted hrun).totalProbeTerminated, ?_⟩
  intro r hr
  have hs := runEvents_inv hrun
  exact (hs.life r (hs.mem_submitted.mpr (.inr (.inr hr)))).reasoned.honest_iff (hs.loc_finished hr)

/-- Two tokens are asked for and the checkpoint is the second: the token that reaches the
    limit is the one the gate is called on, and its answer takes the reason over. -/
def limitAtCheckpoint : List Event := [.submit 2 [1] false, .tick]

theorem limitAtCheckpoint_dishonest :
    ∃ s, runEvents (divergentConfig .probeTerminate) 1
        limitAtCheckpoint = .ok s ∧ 1 ∈ s.finished ∧
      ¬ Honest (divergentConfig .probeTerminate) (s.requests 1) := by
  have hrun : (runEvents (divergentConfig .probeTerminate) 1
      limitAtCheckpoint).toOption.map (fun s => (s.finished, (s.requests 1).generatedIds,
        (s.requests 1).maxTokens, (s.requests 1).finishReason)) =
      some ([1], [2, 3], 2, some .probeTerminated) := by decide
  obtain ⟨s, hs, hread⟩ := toOption_map_eq_some.mp hrun
  simp only [Prod.mk.injEq] at hread
  obtain ⟨hfin, hids, hmax, hreason⟩ := hread
  refine ⟨s, hs, by simp [hfin], fun hhonest => ?_⟩
  apply (hhonest.probe hreason).2
  right
  simp [GenerationRequest.nGenerated, hids, hmax]

theorem finish_reasons_counting :
    ∃ s, runEvents (divergentConfig .probeTerminate) 1
        limitAtCheckpoint = .ok s ∧
      s.totalProbeTerminated = s.finished.countP (fun r => (s.requests r).terminatedByProbe) ∧
      ∀ r ∈ s.finished,
        Honest (divergentConfig .probeTerminate) (s.requests r) ↔
          ¬ Coincides (divergentConfig .probeTerminate) r (s.view r) := by
  obtain ⟨s, hs, -⟩ :=
    runEvents_returns (divergentConfig_serves .probeTerminate) 1 limitAtCheckpoint
  exact ⟨s, hs, finish_reasons_honest_iff hs⟩

end PGI
