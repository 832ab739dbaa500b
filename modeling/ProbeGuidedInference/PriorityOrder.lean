import ProbeGuidedInference.TableModel

/- The order of the queue under `probe_deprioritize`. Admissions take the head and
   preempted requests, all of priority 1, go to the back, so the queue stays sorted by
   priority; but `submit` appends as well, and a request of priority 0 submitted while a
   deprioritized one waits ends up behind it. -/
namespace PGI
open Fallible

variable {Col : Type}

/-- No request of priority 1 stands ahead of one of priority 0. -/
def Sorted (s : Batcher Col) : Prop :=
  s.pending.Pairwise (fun a b => ¬ (s.priority a = 1 ∧ s.priority b = 0))

/-- Whenever a request of priority 1 was admitted, none of priority 0 waited. -/
def AdmittedLast (history : List LogEntry) : Prop :=
  ∀ r p waiting, .admitted r p waiting ∈ history → p = 1 → 0 ∉ waiting

/-- Normal priority goes first. -/
structure NormalFirst (s : Batcher Col) : Prop where
  sorted : Sorted s
  admissions : ∀ r, AdmittedLast (s.history r)

/-- If the next event is a submission, no deprioritized request waits. -/
def SubmitsToNormal (s : Batcher Col) (e : Event) : Prop :=
  ∀ maxTokens promptIds stream, e = .submit maxTokens promptIds stream →
    ∀ r ∈ s.pending, s.priority r ≠ 1

section Work
variable {cfg : Config Col} {s s' : Batcher Col}

theorem Admission.normalFirst {rid : Nat} {rest : List Nat} (hp : s.pending = rid :: rest)
    (hn : NormalFirst s) (h : Admission cfg s s' rid rest) : NormalFirst s' := by
  have hsorted := hn.sorted
  unfold Sorted at hsorted
  rw [hp, List.pairwise_cons] at hsorted
  refine ⟨?_, ?_⟩
  · unfold Sorted
    rw [h.pending, h.priority]
    exact hsorted.2
  · intro r
    by_cases hr : r = rid
    · subst hr
      obtain ⟨out, -, hview⟩ := h.self
      -- the new entry: the head was admitted, and those of `rest` wait
      have hnew : AdmittedLast (s.history r ++ [.admitted r (s.priority r) (rest.map s.priority)]) := by
        intro r' p waiting hmem hone
        rcases List.mem_append.mp hmem with hmem | hmem
        · exact hn.admissions r r' p waiting hmem hone
        · simp only [List.mem_singleton, LogEntry.admitted.injEq] at hmem
          obtain ⟨rfl, rfl, rfl⟩ := hmem
          intro hzero
          obtain ⟨b, hb, hbz⟩ := List.mem_map.mp hzero
          exact hsorted.1 b hb ⟨hone, hbz⟩
      have hhist : s'.history r = _ := congrArg View.history hview
      rw [hhist]
      rcases (s.view r).admitted_cases cfg r (cfg.time s.clock) (rest.map s.priority) out with
        ⟨heq, -⟩ | ⟨heq, -⟩
      · rw [heq]
        intro r' p waiting hmem hone
        exact hnew r' p waiting (by simpa [Batcher.priority] using hmem) hone
      · rw [heq]
        exact hnew
    · have hhist : s'.history r = s.history r := congrArg View.history (h.other r hr)
      rw [hhist]
      exact hn.admissions r

theorem SysInv.preempt_normalFirst (hs : SysInv cfg s) {victim : Nat} (hmem : victim ∈ s.active)
    (hv : s.priority victim = 1) (hn : NormalFirst s) : NormalFirst (PGI.preempt s victim) := by
  refine ⟨?_, ?_⟩
  · unfold Sorted
    rw [hs.preempt_pending hv, preempt_priority, List.pairwise_append]
    refine ⟨hn.sorted, List.pairwise_singleton _ _, ?_⟩
    intro a _ b hb hab
    rw [List.mem_singleton.mp hb, hv] at hab
    exact absurd hab.2 (by decide)
  · intro r
    by_cases hr : r = victim
    · subst hr
      have hhist : (PGI.preempt s r).history r = _ := congrArg View.history
        (preempt_view_self s r hs.active_nodup (hs.active_not_finished hmem))
      rw [hhist]
      intro r' p waiting hmem' hone
      exact hn.admissions r r' p waiting (by simpa using hmem') hone
    · have hhist : (PGI.preempt s victim).history r = s.history r :=
        congrArg View.history (preempt_view_ne s victim hr)
      rw [hhist]
      exact hn.admissions r

theorem DecodedAll.normalFirst (hs : SysInv cfg s) (hn : NormalFirst s)
    (h : DecodedAll cfg s s') : NormalFirst s' := by
  refine ⟨?_, ?_⟩
  · unfold Sorted
    rw [h.pending]
    have hsame : ∀ r ∈ s.pending, s'.priority r = s.priority r := by
      intro r hr
      have hview := h.other r (hs.pending_not_active hr)
      exact congrArg (fun v => v.req.priority) hview
    apply hn.sorted.imp_of_mem
    intro a b ha hb hab
    rwa [hsame a ha, hsame b hb]
  · intro r
    by_cases hr : r ∈ s.active
    · have hdec := h.self r hr
      have hold := hn.admissions r
      show AdmittedLast (s'.view r).history
      generalize s'.view r = v' at hdec ⊢
      obtain ⟨cols, token, position, row, answer, time, -, -, -, -, -⟩ := hdec
      have hadv : AdmittedLast ((s.view r).advance cfg r cols row answer).history := by
        intro r' p waiting hmem hone
        exact hold r' p waiting (by simpa using hmem) hone
      rcases (s.view r).decode_cases cfg r time cols row answer with ⟨heq, -⟩ | ⟨heq, -⟩
      · rw [heq]
        intro r' p waiting hmem hone
        exact hadv r' p waiting (by simpa using hmem) hone
      · rw [heq]
        exact hadv
    · have hhist : s'.history r = s.history r := congrArg View.history (h.other r hr)
      rw [hhist]
      exact hn.admissions r

theorem Work.normalFirst (hs : SysInv cfg s) (hn : NormalFirst s) (h : Work cfg s s') :
    NormalFirst s' := by
  cases h with
  | admission rid rest _ hp h => exact h.normalFirst hp hn
  | swap rid rest victim _ _ hp _ hmem hv h =>
    have hp' := hs.preempt_pending_cons hv hp
    exact h.normalFirst hp' (hs.preempt_normalFirst hmem hv hn)
  | decode _ h => exact h.normalFirst hs hn

end Work

section Runs
variable [Zero Col] {cfg : Config Col} {s s' : Batcher Col}

theorem step_normalFirst {e : Event} (hs : SysInv cfg s) (hn : NormalFirst s)
    (h : step cfg s e = .ok s') : NormalFirst s' ↔ SubmitsToNormal s e := by
  cases e with
  | submit maxTokens promptIds stream =>
    obtain rfl := Except.ok.inj h
    have hold : ∀ r ∈ s.pending,
        (submit maxTokens promptIds stream s).priority r = s.priority r := by
      intro r hr
      have hne : r ≠ s.nextId := fun heq =>
        hs.nextId_not_submitted (heq ▸ hs.mem_submitted.mpr (.inl hr))
      exact congrArg GenerationRequest.priority (submit_requests_ne maxTokens promptIds stream hne)
    have hnew : (submit maxTokens promptIds stream s).priority s.nextId = 0 :=
      congrArg (fun v => v.req.priority) (hs.submit_view_self maxTokens promptIds stream)
    refine ⟨?_, ?_⟩
    · intro hn' _ _ _ _ r hr hone
      -- the new request stands behind `r`
      have hpair := (List.pairwise_append.mp hn'.sorted).2.2 r hr s.nextId (List.mem_singleton_self _)
      exact hpair ⟨by rw [hold r hr, hone], hnew⟩
    · intro hcond
      refine ⟨List.pairwise_append.mpr ⟨?_, List.pairwise_singleton _ _, ?_⟩, hn.admissions⟩
      · apply hn.sorted.imp_of_mem
        intro a b ha hb hab
        rwa [hold a ha, hold b hb]
      · intro a ha b _ hpair
        obtain ⟨hone, -⟩ := hpair
        rw [hold a ha] at hone
        exact hcond _ _ _ rfl a ha hone
  | cancel rid =>
    obtain rfl := Except.ok.inj h
    refine ⟨fun _ _ _ _ hc => (by cases hc), fun _ => ?_⟩
    split
    · have hprio : (cancel rid s).priority = s.priority := by
        funext r
        obtain ⟨f, hf⟩ := cancel_requests s rid r
        simp only [Batcher.priority, hf]
      refine ⟨?_, hn.admissions⟩
      unfold Sorted
      rw [hprio]
      exact hn.sorted
    · exact hn
  | tick =>
    refine ⟨fun _ _ _ _ hc => (by cases hc), fun _ => ?_⟩
    exact ((tick_works hs h).keep (fun t u ht hI hw => hw.normalFirst ht hI) hs hn).2

/-- **Normal priority goes first exactly when nothing is submitted behind a deprioritized
    request.** In every state of a run the queue is sorted by priority and no admission has
    taken a request of priority 1 while one of priority 0 waited, if and only if no
    request is submitted while one of priority 1 is in the queue. -/
theorem normal_first_iff {firstId : Nat} {events : List Event}
    (hrun : runEvents cfg firstId events = .ok s) :
    (∀ t, Runs.Visits (step cfg) (Batcher.new firstId) events t → NormalFirst t) ↔
      ∀ t e, Runs.Reads (step cfg) (Batcher.new firstId) events t e → SubmitsToNormal t e := by
  apply Runs.forall_visits_iff ⟨List.Pairwise.nil, fun r _ _ _ hmem => (by cases hmem)⟩ _ hrun
  intro t e t' ht hn hstep
  exact step_normalFirst (visits_inv ht) hn hstep

end Runs

/-- A batch of one: request 1 is preempted for request 2 and waits when request 3 is
    submitted, which goes behind it; request 1 is resumed while request 3 waits. -/
def submittedBehind : List Event :=
  [.submit 3 [1] false, .tick, .submit 3 [2] false, .tick, .submit 3 [3] false, .tick, .tick]

theorem submittedBehind_overtaken : ¬ ∀ t, Runs.Visits
    (step (divergentConfig .probeDeprioritize)) (Batcher.new 1)
    submittedBehind t → NormalFirst t := by
  intro h
  have hrun : (runEvents (divergentConfig .probeDeprioritize) 1
      submittedBehind).toOption.map (fun s => s.history 1) = some
        [.admitted 1 0 [], .decode 1 3, .classify 1 2 ⟨1, 2, 1, [2, 1]⟩ ⟨.divergent, 1, 2⟩,
          .preempt 1 2, .admitted 1 1 [0], .preempt 1 1] := by decide
  obtain ⟨s, hs, hhist⟩ := toOption_map_eq_some.mp hrun
  have hlast := (h s (Runs.Visits.last hs)).admissions 1
  exact hlast 1 1 [0] (by rw [hhist]; simp) rfl (by simp)

theorem normal_first_counting :
    (∀ t, Runs.Visits (step (divergentConfig .probeDeprioritize))
      (Batcher.new 1) submittedBehind t → NormalFirst t) ↔
    ∀ t e, Runs.Reads (step (divergentConfig .probeDeprioritize))
      (Batcher.new 1) submittedBehind t e → SubmitsToNormal t e := by
  obtain ⟨s, hs, -⟩ := runEvents_returns
    (divergentConfig_serves .probeDeprioritize) 1 submittedBehind
  exact normal_first_iff hs

end PGI
