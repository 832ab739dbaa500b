import ProbeGuidedInference.DivergentPays

/- The three fields that the gate's answer touches. `run_decode_step` sets the decision
   and the time of the gate's call together, `_apply_routing` sets the `routed` flag in
   the same tick, and `_preempt` clears the decision and the flag but not the time. So a
   request that was preempted after an answer carries the time of a decision that is
   gone, until the gate answers again. -/
namespace PGI
open Fallible

variable {Col : Type}

/-- Flag, decision and time are all set or all clear. -/
structure Coherent (r : GenerationRequest) : Prop where
  routed : r.routed = true ↔ r.routingDecision ≠ none
  time : r.routingDecision ≠ none ↔ r.checkpointHitTime ≠ none

/-- The gate's answers since the last preemption. -/
def currentAnswers (history : List LogEntry) : List RoutingDecision :=
  history.foldl (fun ds e => match e with
    | .classify _ _ _ d => ds ++ [d]
    | .preempt _ _ => []
    | _ => ds) []

/-- The gate has answered, but not since the last preemption. -/
def Lapsed (history : List LogEntry) : Prop :=
  answers history ≠ [] ∧ currentAnswers history = []

section OneRequest
variable {cfg : Config Col} {rid : Nat} {v : View Col}

theorem currentAnswers_admitted (history : List LogEntry) (p : Int) (waiting : List Int) :
    currentAnswers (history ++ [.admitted rid p waiting]) = currentAnswers history := by
  simp [currentAnswers]

theorem currentAnswers_finish (history : List LogEntry) (n : Nat) :
    currentAnswers (history ++ [.finish rid n]) = currentAnswers history := by
  simp [currentAnswers]

theorem currentAnswers_preempt (history : List LogEntry) (n : Nat) :
    currentAnswers (history ++ [.preempt rid n]) = [] := by
  simp [currentAnswers]

theorem currentAnswers_decode (history : List LogEntry) (nid n : Nat) (answer : Answer) :
    currentAnswers (history ++ View.decodeEntries rid nid n answer) =
      currentAnswers history ++ (answer.decision.map Prod.fst).toList := by
  cases answer with
  | none => simp [currentAnswers, View.decodeEntries, Answer.decision]
  | some a => simp [currentAnswers, View.decodeEntries, Answer.decision]

theorem answers_decode (nid n : Nat) (answer : Answer) :
    answers (View.decodeEntries rid nid n answer) = (answer.decision.map Prod.fst).toList := by
  cases answer with
  | none => rfl
  | some a => rfl

/-- An answer of the current attempt is an answer. -/
theorem answers_ne_nil : ∀ history : List LogEntry, currentAnswers history ≠ [] →
    answers history ≠ [] := by
  intro history
  induction history using List.reverseRecOn with
  | nil => exact id
  | append_singleton history e ih =>
    rw [answers_append]
    cases e with
    | classify rid n row d => simp [answers]
    | preempt rid n => simp [currentAnswers]
    | _ => simpa [currentAnswers, answers] using ih

/-- The decision is the answer since the last preemption, the time that of any answer. -/
structure Stamped (v : View Col) : Prop where
  decision : v.req.routingDecision.toList = currentAnswers v.history
  time : v.req.checkpointHitTime.isSome = true ↔ answers v.history ≠ []

theorem stamped_prefill (h : Stamped v) {T : Nat} (waiting : List Int)
    (out : PrefillOut Col cfg.model.nLayers T) : Stamped (v.prefill cfg rid waiting out) where
  decision := by
    rw [View.prefill_history, currentAnswers_admitted]
    exact h.decision
  time := by
    rw [View.prefill_history, answers_append]
    simpa [answers] using h.time

theorem stamped_finish {time : ℚ} (h : Stamped v) : Stamped (v.finish cfg rid time) where
  decision := by
    rw [View.finish_history, currentAnswers_finish]
    exact h.decision
  time := by
    rw [View.finish_history, answers_append]
    simpa [answers] using h.time

theorem stamped_preempt (h : Stamped v) : Stamped (v.preempt rid) where
  decision := by
    rw [View.preempt_history, currentAnswers_preempt]
    rfl
  time := by
    rw [View.preempt_history, answers_append]
    simpa [answers] using h.time

/-- An answer is recorded with its time, over whatever was there. -/
theorem stamped_advance (h : Stamped v) {L : Nat} (cols : Fin L → List Col × List Col)
    (row : ForwardRow Col L) {captured : CapturedRow} {answer : Answer}
    (hgate : GateCall cfg captured (v.req.appended (argmax row.logits)) answer) :
    Stamped (v.advance cfg rid cols row answer) := by
  cases answer with
  | none =>
    refine ⟨?_, ?_⟩
    · rw [View.advance_history, currentAnswers_decode, ← h.decision]
      simp [Answer.decision]
    · rw [View.advance_history, answers_append, answers_decode]
      simpa [Answer.decision] using h.time
  | some a =>
    have hnone : v.req.routingDecision = none := hgate.undecided
    refine ⟨?_, ?_⟩
    · rw [View.advance_history, currentAnswers_decode, ← h.decision, hnone]
      simp [Answer.decision]
    · rw [View.advance_history, answers_append, answers_decode]
      simp [Answer.decision]

theorem LifeReach.stamped (h : LifeReach cfg rid v) : Stamped v := by
  refine h.keep_moves (P := Stamped) ?_ ?_ ?_ ?_ ?_ ?_
  · intro maxTokens promptIds stream
    exact ⟨rfl, by simp [View.fresh, GenerationRequest.submitted, answers]⟩
  · intro v h
    exact ⟨h.decision, h.time⟩
  · intro v waiting out _ h _
    exact stamped_prefill h waiting out
  · intro v cols _ _ row answer _ h _ _ _ hgate
    exact stamped_advance h cols row hgate
  · intro v _ h _ _
    exact stamped_preempt h
  · intro v time h _
    exact stamped_finish h

/-- Flag and decision always agree; the time agrees with them but for a lapsed answer. -/
theorem Stamped.coherent_iff (h : Stamped v) (hinv : LifeInv cfg v) :
    Coherent v.req ↔ ¬ Lapsed v.history := by
  have hrouted : v.req.routed = true ↔ v.req.routingDecision ≠ none := by
    rw [hinv.routed, Option.isSome_iff_ne_none]
  have htime : v.req.checkpointHitTime ≠ none ↔ answers v.history ≠ [] := by
    rw [← Option.isSome_iff_ne_none, h.time]
  have hcurrent : v.req.routingDecision = none ↔ currentAnswers v.history = [] := by
    rw [← h.decision]
    cases v.req.routingDecision with
    | none => simp
    | some d => simp
  have hanswer : v.req.routingDecision ≠ none → answers v.history ≠ [] :=
    fun hd => answers_ne_nil v.history (mt hcurrent.mpr hd)
  refine ⟨?_, ?_⟩
  · intro hcoherent hlapsed
    exact hcoherent.time.mpr (htime.mpr hlapsed.1) (hcurrent.mpr hlapsed.2)
  · intro hnot
    refine ⟨hrouted, fun hd => htime.mpr (hanswer hd), ?_⟩
    intro hset hd
    exact hnot ⟨htime.mp hset, hcurrent.mp hd⟩

end OneRequest

/-- **The routing fields are coherent, but for lapsed answers.** In every state of every
    run and for every submitted request, flag, decision and time are all set or all clear
    if and only if the request was not preempted after the gate's last answer for it. -/
theorem routing_fields_coherent_iff [Zero Col] {cfg : Config Col} {firstId : Nat}
    {events : List Event} {s : Batcher Col} (hrun : runEvents cfg firstId events = .ok s) :
    ∀ r ∈ s.submitted, Coherent (s.requests r) ↔ ¬ Lapsed (s.history r) := by
  intro r hr
  have hlife := runEvents_life hrun hr
  exact hlife.stamped.coherent_iff hlife.inv

/-- A batch of one: request 1 is found divergent, and preempted for request 2. -/
def preemptedAfterAnswer : List Event :=
  [.submit 9 [1] false, .tick, .submit 9 [2] false, .tick]

/-- Request 1 waits without a decision and with the time of one. -/
theorem preemptedAfterAnswer_incoherent :
    ∃ s, runEvents (divergentConfig .probeDeprioritize) 1 preemptedAfterAnswer = .ok s ∧
      1 ∈ s.submitted ∧ ¬ Coherent (s.requests 1) := by
  have hrun : (runEvents (divergentConfig .probeDeprioritize) 1 preemptedAfterAnswer).toOption.map
      (fun s => (s.submitted, (s.requests 1).routingDecision, (s.requests 1).checkpointHitTime)) =
      some ([1, 2], none, some 0) := by decide
  obtain ⟨s, hs, hread⟩ := toOption_map_eq_some.mp hrun
  simp only [Prod.mk.injEq] at hread
  obtain ⟨hsub, hdecision, htime⟩ := hread
  refine ⟨s, hs, by simp [hsub], ?_⟩
  intro hcoherent
  exact hcoherent.time.mpr (by simp [htime]) hdecision

theorem routing_fields_coherent_preempted :
    ∃ s, runEvents (divergentConfig .probeDeprioritize) 1 preemptedAfterAnswer = .ok s ∧
      ∀ r ∈ s.submitted, Coherent (s.requests r) ↔ ¬ Lapsed (s.history r) := by
  have hrun : (runEvents (divergentConfig .probeDeprioritize) 1 preemptedAfterAnswer).toOption.map
      (fun s => s.submitted) = some [1, 2] := by decide
  obtain ⟨s, hs, -⟩ := toOption_map_eq_some.mp hrun
  exact ⟨s, hs, routing_fields_coherent_iff hs⟩

end PGI
