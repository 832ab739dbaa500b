import ProbeGuidedInference.Checkpoint
import ProbeGuidedInference.FinishReasons

/- Who is deprioritized. A divergent decision sets the priority to 1, and nothing sets it
   back: `_preempt` clears the decision and the `routed` flag only. So a request that is
   resumed and then found convergent still has the priority of its earlier attempt, and
   is the next to be preempted. -/
namespace PGI
open Fallible

variable {Col : Type}

/-- The gate's answers in a log. -/
def answers (log : List LogEntry) : List RoutingDecision :=
  log.filterMap (fun e => match e with
    | .classify _ _ _ d => some d
    | _ => none)

/-- The gate has found the request convergent in its current attempt, after it had found
    it divergent in an earlier one. -/
def Reconsidered (history : List LogEntry) : Prop :=
  ∃ attempt older, attempts history = attempt :: older ∧
    (∃ d ∈ answers attempt, d.isDivergent = false) ∧
    ∃ earlier ∈ older, ∃ d ∈ answers earlier, d.isDivergent = true

@[simp] theorem answers_append (log log' : List LogEntry) :
    answers (log ++ log') = answers log ++ answers log' := by
  simp [answers]

section OneRequest
variable {cfg : Config Col} {rid : Nat} {v : View Col}

/-- Some answer of the gate was divergent. -/
def FoundDivergent (history : List LogEntry) : Prop :=
  ∃ attempt ∈ attempts history, ∃ d ∈ answers attempt, d.isDivergent = true

/-- The priority remembers all attempts, the decision is that of the current one. -/
structure Labelled (v : View Col) : Prop where
  priority : v.req.priority = 1 ↔ FoundDivergent v.history
  current : v.loc = .active → ∃ attempt older, attempts v.history = attempt :: older ∧
    answers attempt = v.req.routingDecision.toList

/-- What no answer of the gate is among changes nothing of what was found. -/
theorem foundDivergent_extend {history entries attempt : List LogEntry}
    {older : List (List LogEntry)} (heq : attempts history = attempt :: older)
    (hno : ∀ rid p waiting, .admitted rid p waiting ∉ entries) :
    FoundDivergent (history ++ entries) ↔
      FoundDivergent history ∨ ∃ d ∈ answers entries, d.isDivergent = true := by
  unfold FoundDivergent
  rw [attempts_extend heq hno, heq]
  refine ⟨?_, ?_⟩
  · intro h
    obtain ⟨found, hmem, d, hd, hdiv⟩ := h
    rcases List.mem_cons.mp hmem with rfl | hmem
    · rw [answers_append, List.mem_append] at hd
      rcases hd with hd | hd
      · exact .inl ⟨attempt, List.mem_cons_self, d, hd, hdiv⟩
      · exact .inr ⟨d, hd, hdiv⟩
    · exact .inl ⟨found, List.mem_cons_of_mem attempt hmem, d, hd, hdiv⟩
  · have hnew : ∀ d ∈ answers attempt ++ answers entries, d ∈ answers (attempt ++ entries) := by
      intro d hd
      rwa [answers_append]
    intro h
    rcases h with ⟨found, hmem, d, hd, hdiv⟩ | ⟨d, hd, hdiv⟩
    · rcases List.mem_cons.mp hmem with rfl | hmem
      · exact ⟨_, List.mem_cons_self, d, hnew d (List.mem_append_left _ hd), hdiv⟩
      · exact ⟨found, List.mem_cons_of_mem _ hmem, d, hd, hdiv⟩
    · exact ⟨_, List.mem_cons_self, d, hnew d (List.mem_append_right _ hd), hdiv⟩

/-- The end of a request, or of an attempt, is no answer of the gate. -/
theorem labelled_finish {time : ℚ} (h : Labelled v) (hloc : v.loc = .active) :
    Labelled (v.finish cfg rid time) where
  priority := by
    obtain ⟨attempt, older, heq, -⟩ := h.current hloc
    rw [View.finish_history, foundDivergent_extend heq (by simp), ← h.priority]
    simp [answers]
  current hc := by cases hc

theorem labelled_preempt (h : Labelled v) (hloc : v.loc = .active) : Labelled (v.preempt rid) where
  priority := by
    obtain ⟨attempt, older, heq, -⟩ := h.current hloc
    rw [View.preempt_history, foundDivergent_extend heq (by simp), ← h.priority]
    simp [answers]
  current hc := by cases hc

theorem labelled_prefill (hinv : LifeInv cfg v) (h : Labelled v) (hloc : v.loc = .pending)
    (waiting : List Int) (out : PrefillOut Col cfg.model.nLayers v.req.promptIds.length) :
    Labelled (v.prefill cfg rid waiting out) where
  priority := by
    unfold FoundDivergent
    rw [attempts_prefill]
    simpa [answers, FoundDivergent] using h.priority
  current _ := by
    obtain ⟨-, -, -, hnone⟩ := hinv.waiting hloc
    exact ⟨[], attempts v.history, attempts_prefill cfg rid waiting out v, by simp [answers, hnone]⟩

/-- The answer of a decode is routed in the same tick. -/
theorem labelled_advance (hstrategy : cfg.strategy = .probeDeprioritize) (hinv : LifeInv cfg v)
    (h : Labelled v) (hloc : v.loc = .active) {L : Nat} (cols : Fin L → List Col × List Col)
    (row : ForwardRow Col L) {captured : CapturedRow} {answer : Answer}
    (hgate : GateCall cfg captured (v.req.appended (argmax row.logits)) answer) :
    Labelled (v.advance cfg rid cols row answer) := by
  obtain ⟨attempt, older, heq, hanswers⟩ := h.current hloc
  have hno : ∀ r p waiting, .admitted r p waiting ∉
      View.decodeEntries rid (argmax row.logits) v.req.nGenerated answer := by simp
  have hatt : attempts (v.advance cfg rid cols row answer).history =
      (attempt ++ View.decodeEntries rid (argmax row.logits) v.req.nGenerated answer) :: older :=
    attempts_extend heq hno
  cases answer with
  | none =>
    have hroute := routable_skipped hinv (argmax row.logits)
    have hprio : (v.advance cfg rid cols row none).req.priority = v.req.priority := by
      rw [View.advance_req, GenerationRequest.routeOnce_priority, hroute]
      rfl
    refine ⟨?_, ?_⟩
    · rw [hprio, View.advance_history, foundDivergent_extend heq hno, ← h.priority]
      simp [View.decodeEntries, answers]
    · intro _
      refine ⟨_, older, hatt, ?_⟩
      rw [answers_append, hanswers]
      simp [View.decodeEntries, answers, Answer.decision]
  | some a =>
    obtain ⟨crow, d, time⟩ := a
    have hroute := routable_called hinv hgate
    have hprio : (v.advance cfg rid cols row (some (crow, d, time))).req.priority =
        if d.isDivergent then 1 else v.req.priority := by
      rw [View.advance_req, GenerationRequest.routeOnce_priority, hroute]
      simp [Answer.decision, hstrategy]
    have hnone : v.req.routingDecision = none := hgate.undecided
    refine ⟨?_, ?_⟩
    · rw [hprio, View.advance_history, foundDivergent_extend heq hno, ← h.priority]
      cases hd : d.isDivergent
      · simp [View.decodeEntries, answers, hd]
      · simp [View.decodeEntries, answers, hd]
    · intro _
      refine ⟨_, older, hatt, ?_⟩
      rw [answers_append, hanswers, hnone]
      simp [View.decodeEntries, answers, Answer.decision]

theorem LifeReach.labelled (hstrategy : cfg.strategy = .probeDeprioritize)
    (h : LifeReach cfg rid v) : Labelled v := by
  refine h.keep_moves (P := Labelled) ?_ ?_ ?_ ?_ ?_ ?_
  · intro maxTokens promptIds stream
    exact ⟨⟨fun hc => (by cases hc), fun ⟨_, hmem, _⟩ => (by cases hmem)⟩, fun hc => by cases hc⟩
  · intro v h
    exact ⟨h.priority, h.current⟩
  · intro v waiting out hinv h hloc
    exact labelled_prefill hinv h hloc waiting out
  · intro v cols token position row answer hinv h hloc _ _ hgate
    exact labelled_advance hstrategy hinv h hloc cols row hgate
  · intro v _ h hloc _
    exact labelled_preempt h hloc
  · intro v time h hloc
    exact labelled_finish h hloc

/-- An active convergent request is deprioritized exactly if it has been reconsidered. -/
theorem Labelled.convergent_pays_iff (h : Labelled v) (hloc : v.loc = .active) :
    (∃ d, v.req.routingDecision = some d ∧ d.isDivergent = false ∧ v.req.priority = 1) ↔
      Reconsidered v.history := by
  obtain ⟨attempt, older, heq, hanswers⟩ := h.current hloc
  refine ⟨?_, ?_⟩
  · intro hpays
    obtain ⟨d, hd, hconv, hone⟩ := hpays
    rw [hd] at hanswers
    refine ⟨attempt, older, heq, ⟨d, by simp [hanswers], hconv⟩, ?_⟩
    obtain ⟨found, hmem, d', hd', hdiv⟩ := h.priority.mp hone
    rw [heq, List.mem_cons] at hmem
    rcases hmem with rfl | hmem
    · -- the current attempt has one answer, which is convergent
      have hsame : d' = d := by simpa [hanswers] using hd'
      rw [hsame, hconv] at hdiv
      cases hdiv
    · exact ⟨found, hmem, d', hd', hdiv⟩
  · intro hreconsidered
    obtain ⟨attempt', older', heq', ⟨d, hd, hconv⟩, earlier, hmem, d', hd', hdiv⟩ := hreconsidered
    obtain ⟨rfl, rfl⟩ := List.cons.inj (heq.symm.trans heq')
    rw [hanswers, Option.mem_toList] at hd
    have hfound : FoundDivergent v.history :=
      ⟨earlier, by rw [heq]; exact List.mem_cons_of_mem attempt hmem, d', hd', hdiv⟩
    exact ⟨d, hd, hconv, h.priority.mpr hfound⟩

end OneRequest

/-- **Only divergent requests pay, but for those the gate has reconsidered.** In every
    state of every run under `probe_deprioritize`, an active request whose decision is
    convergent has priority 0, if and only if the gate did not find it convergent in
    this attempt after a divergent answer in an earlier one. -/
theorem only_divergent_pay_iff [Zero Col] {cfg : Config Col} {firstId : Nat} {events : List Event}
    {s : Batcher Col} (hrun : runEvents cfg firstId events = .ok s)
    (hstrategy : cfg.strategy = .probeDeprioritize) :
    ∀ r ∈ s.active, (∀ d, (s.requests r).routingDecision = some d → d.isDivergent = false →
      s.priority r = 0) ↔ ¬ Reconsidered (s.history r) := by
  intro r hr
  have hs := runEvents_inv hrun
  have hsub := hs.mem_submitted.mpr (.inr (.inl hr))
  have hiff := ((hs.life r hsub).labelled hstrategy).convergent_pays_iff (loc_active hr)
  rw [Batcher.view_history] at hiff
  rw [← hiff]
  refine ⟨?_, ?_⟩
  · intro h hpays
    obtain ⟨d, hd, hconv, hone⟩ := hpays
    have hzero := h d hd hconv
    have hone' : s.priority r = 1 := hone
    omega
  · intro hnot d hd hconv
    rcases hs.priority hsub with hzero | ⟨hone, -⟩
    · exact hzero
    · exact absurd ⟨d, hd, hconv, hone⟩ hnot

/-- A gate that is divergent at first and convergent ever after. -/
def relentingGate : ClassificationGate where
  checkpointPosition := 2
  classify n _ := .ok ⟨if n = 0 then .divergent else .convergent, 1, 2⟩

/-- A batch of one: request 1 is found divergent, preempted for request 2, resumed, and
    found convergent. -/
def resumedConvergent : List Event :=
  [.submit 9 [1] false, .tick, .submit 2 [2] false, .tick, .tick]

theorem resumedConvergent_run :
    ∃ s, runEvents (countingConfig .probeDeprioritize 1 relentingGate) 1 resumedConvergent = .ok s ∧
      s.active = [1] ∧ (s.requests 1).routingDecision = some ⟨.convergent, 1, 2⟩ ∧
      s.priority 1 = 1 ∧ findDeprioritizeVictim s = some 1 := by
  have hrun : (runEvents (countingConfig .probeDeprioritize 1 relentingGate) 1
      resumedConvergent).toOption.map (fun s => (s.active, (s.requests 1).routingDecision,
        s.priority 1, findDeprioritizeVictim s)) =
      some ([1], some ⟨.convergent, 1, 2⟩, 1, some 1) := by decide
  obtain ⟨s, hs, hread⟩ := toOption_map_eq_some.mp hrun
  simp only [Prod.mk.injEq] at hread
  exact ⟨s, hs, hread⟩

/-- The convergent request is the one that would be preempted next. -/
theorem resumedConvergent_pays :
    ∃ s, runEvents (countingConfig .probeDeprioritize 1 relentingGate) 1 resumedConvergent = .ok s ∧
      ∃ r ∈ s.active, findDeprioritizeVictim s = some r ∧
        ¬ ∀ d, (s.requests r).routingDecision = some d → d.isDivergent = false →
          s.priority r = 0 := by
  obtain ⟨s, hs, hact, hdec, hone, hvictim⟩ := resumedConvergent_run
  refine ⟨s, hs, 1, by simp [hact], hvictim, ?_⟩
  intro h
  have hzero := h _ hdec (by decide)
  omega

theorem only_divergent_pay_counting :
    ∃ s, runEvents (countingConfig .probeDeprioritize 1 relentingGate) 1 resumedConvergent = .ok s ∧
      ∀ r ∈ s.active, (∀ d, (s.requests r).routingDecision = some d → d.isDivergent = false →
        s.priority r = 0) ↔ ¬ Reconsidered (s.history r) := by
  obtain ⟨s, hs, -⟩ := resumedConvergent_run
  exact ⟨s, hs, only_divergent_pay_iff hs rfl⟩

end PGI
