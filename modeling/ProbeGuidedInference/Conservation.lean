import ProbeGuidedInference.TableModel

/- No request is lost, none is completed twice. At every tick boundary a submitted
   request is in exactly one place, once; it is finished at most once, its future then
   holds the text of its tokens unless its caller had cancelled it, and from then on
   neither its place nor its tokens change. -/
namespace PGI

variable {Col : Type}

section OneRequest
variable {cfg : Config Col} {rid : Nat} {v v' : View Col}

/-- The future of a request, before and after its end. -/
structure Answered (cfg : Config Col) (v : View Col) : Prop where
  waiting : v.loc ≠ .finished → v.req.result = .pending ∨ v.req.result = .cancelled
  done : v.loc = .finished →
    v.req.result = .resolved (cfg.tokenizer.decode v.req.generatedIds) ∨ v.req.result = .cancelled

theorem answered_finish {time : ℚ} (h : v.req.result = .pending ∨ v.req.result = .cancelled) :
    Answered cfg (v.finish cfg rid time) where
  waiting hc := absurd rfl hc
  done _ := by
    rcases h with h | h
    · exact .inl (by simp [h, Future.done])
    · exact .inr (by simp [h, Future.done])

theorem answered_cancel (h : Answered cfg v) : Answered cfg v.cancel where
  waiting hloc := by
    rcases h.waiting hloc with h | h
    · exact .inr (by simp [View.cancel, h, Future.cancel, Future.done])
    · exact .inr (by simp [View.cancel, h, Future.cancel, Future.done])
  done hloc := by
    rcases h.done hloc with h | h
    · exact .inl (by simp [View.cancel, h, Future.cancel, Future.done])
    · exact .inr (by simp [View.cancel, h, Future.cancel, Future.done])

theorem LifeReach.answered (h : LifeReach cfg rid v) : Answered cfg v := by
  refine h.keep_moves (P := Answered cfg) ?_ ?_ ?_ ?_ ?_ ?_
  · intro maxTokens promptIds stream
    exact ⟨fun _ => .inl rfl, fun hc => by cases hc⟩
  · intro v h
    exact answered_cancel h
  · intro v waiting out _ h hloc
    exact ⟨fun _ => h.waiting (by rw [hloc]; decide), fun hc => by cases hc⟩
  · intro v cols _ _ row answer _ h hloc _ _ _
    exact ⟨fun _ => h.waiting (by rw [hloc]; decide), fun hc => by cases hc⟩
  · intro v _ h hloc _
    exact ⟨fun _ => h.waiting (by rw [hloc]; decide), fun hc => by cases hc⟩
  · intro v time h hloc
    exact answered_finish (h.waiting (by rw [hloc]; decide))

/-- The batcher does not turn to a request after its end. -/
theorem Turn.not_finished (ht : Turn cfg rid v v') : v.loc ≠ .finished := by
  intro hloc
  cases ht with
  | admitted _ _ _ _ hp _ => rw [hloc] at hp; cases hp
  | preempt ha _ => rw [hloc] at ha; cases ha
  | decode _ ha _ => rw [hloc] at ha; cases ha

/-- The batcher cancels no future. -/
theorem Turn.cancelled (ht : Turn cfg rid v v') (hc : v'.req.result = .cancelled) :
    v.req.result = .cancelled := by
  have hdone : ∀ (u : View Col) (time : ℚ), (u.finish cfg rid time).req.result = .cancelled →
      u.req.result = .cancelled := by
    intro u time hu
    simp only [View.finish_req, GenerationRequest.completed_result] at hu
    split at hu
    · exact hu
    · cases hu
  cases ht with
  | admitted waiting n out time _ _ =>
    rcases v.admitted_cases cfg rid time waiting out with ⟨heq, -⟩ | ⟨heq, -⟩
    · rw [heq] at hc
      exact hdone (v.prefill cfg rid waiting out) time hc
    · rw [heq] at hc
      exact hc
  | preempt => exact hc
  | decode _ _ hdec =>
    obtain ⟨cols, token, position, row, answer, time, -, -, -, -, -⟩ := hdec
    rcases v.decode_cases cfg rid time cols row answer with ⟨heq, -⟩ | ⟨heq, -⟩
    · rw [heq] at hc
      exact hdone (v.advance cfg rid cols row answer) time hc
    · rw [heq] at hc
      exact hc

end OneRequest

section Batch
variable {cfg : Config Col} {s s' : Batcher Col}

theorem Work.finished_subset (h : Work cfg s s') : s.finished ⊆ s'.finished := by
  cases h with
  | admission rid rest _ _ h =>
    rcases h.place with ⟨-, hfin⟩ | ⟨-, hfin⟩
    · rw [hfin]
      exact List.Subset.refl _
    · rw [hfin]
      exact List.subset_append_left _ _
  | swap rid rest victim _ _ _ _ _ _ h =>
    rcases h.place with ⟨-, hfin⟩ | ⟨-, hfin⟩
    · rw [hfin, preempt_finished]
      exact List.Subset.refl _
    · rw [hfin, preempt_finished]
      exact List.subset_append_left _ _
  | decode _ h =>
    obtain ⟨ids, -, -, -, hfin⟩ := h.place
    rw [hfin]
    exact List.subset_append_left _ _

/-- A finished request stays finished, with the tokens it has. -/
theorem run_keeps_finished [Zero Col] {r : Nat} (hs : SysInv cfg s) (hr : r ∈ s.finished)
    {more : List Event} (h : Runs.run (step cfg) s more = .ok s') :
    SysInv cfg s' ∧ r ∈ s'.finished ∧ (s'.requests r).generatedIds = (s.requests r).generatedIds := by
  refine Runs.run_invariant (I := fun t => SysInv cfg t ∧ r ∈ t.finished ∧
    (t.requests r).generatedIds = (s.requests r).generatedIds) ?_ ⟨hs, hr, rfl⟩ h
  intro t e t' hI hstep
  obtain ⟨ht, hfin, hids⟩ := hI
  refine SysInv.event (I := fun t => r ∈ t.finished ∧
    (t.requests r).generatedIds = (s.requests r).generatedIds) ?_ ?_ ?_ ht ⟨hfin, hids⟩ hstep
  · intro t maxTokens promptIds stream ht hI
    obtain ⟨hfin, hids⟩ := hI
    have hne : r ≠ t.nextId := fun heq =>
      ht.nextId_not_submitted (heq ▸ ht.mem_submitted.mpr (.inr (.inr hfin)))
    exact ⟨hfin, by rw [submit_requests_ne maxTokens promptIds stream hne, hids]⟩
  · intro t rid ht hI _
    obtain ⟨hfin, hids⟩ := hI
    obtain ⟨f, hf⟩ := cancel_requests t rid r
    exact ⟨hfin, by rw [hf]; exact hids⟩
  · intro t u ht hI hw
    obtain ⟨hfin, hids⟩ := hI
    refine ⟨hw.finished_subset hfin, ?_⟩
    rcases hw.turn ht r with hview | ⟨-, hturn⟩
    · have hreq := congrArg View.req hview
      exact (congrArg GenerationRequest.generatedIds hreq).trans hids
    · exact absurd (ht.loc_finished hfin) hturn.not_finished

/-- A cancelled future was cancelled by an event of the run. -/
theorem runEvents_cancelled [Zero Col] {firstId : Nat} {events : List Event}
    (h : runEvents cfg firstId events = .ok s) {r : Nat} (hr : r ∈ s.submitted)
    (hc : (s.requests r).result = .cancelled) : .cancel r ∈ events := by
  revert r
  refine Runs.run_inputs (I := fun es t => ∀ {r : Nat}, r ∈ t.submitted →
    (t.requests r).result = .cancelled → .cancel r ∈ es) ?_ ?_ h
  · intro r hr
    cases hr
  · intro pre t e t' hpre ih hstep r hr hc
    have ht := runEvents_inv hpre
    have hwork : ∀ u, Works cfg t u → r ∈ u.submitted → (u.requests r).result = .cancelled →
        .cancel r ∈ pre := by
      intro u hu
      refine (hu.keep (I := fun u => r ∈ u.submitted → (u.requests r).result = .cancelled →
        .cancel r ∈ pre) ?_ ht ih).2
      intro v w hv ihv hw hrw hcw
      rcases hw.turn hv r with hview | ⟨hrv, hturn⟩
      · have hrv : r ∈ v.submitted := by
          rwa [hw.submitted] at hrw
        have hreq : w.requests r = v.requests r := congrArg View.req hview
        exact ihv hrv (by rw [← hreq]; exact hcw)
      · exact ihv hrv (hturn.cancelled hcw)
    cases e with
    | submit maxTokens promptIds stream =>
      obtain rfl := Except.ok.inj hstep
      by_cases hnew : r = t.nextId
      · subst hnew
        have hreq : (submit maxTokens promptIds stream t).requests t.nextId =
            .submitted maxTokens promptIds stream :=
          congrArg View.req (ht.submit_view_self maxTokens promptIds stream)
        rw [hreq] at hc
        cases hc
      · rw [submit_requests_ne maxTokens promptIds stream hnew] at hc
        have hr' : r ∈ t.submitted := by
          rcases List.mem_append.mp hr with hr | hr
          · exact hr
          · exact absurd (List.mem_singleton.mp hr) hnew
        exact List.mem_append_left _ (ih hr' hc)
    | cancel rid =>
      by_cases heq : rid = r
      · exact List.mem_append_right _ (by simp [heq])
      · obtain rfl := Except.ok.inj hstep
        split at hr
        · rename_i hrid
          rw [if_pos hrid] at hc
          have hreq : (cancel rid t).requests r = t.requests r :=
            congrArg View.req (cancel_view_ne t (Ne.symm heq))
          rw [hreq] at hc
          exact List.mem_append_left _ (ih hr hc)
        · rename_i hrid
          rw [if_neg hrid] at hc
          exact List.mem_append_left _ (ih hr hc)
    | tick => exact List.mem_append_left _ (hwork t' (tick_works ht hstep) hr hc)

end Batch

/-- **Conservation.** With a model whose forwards return and a gate that answers what they
    put out, the batcher never raises, whatever the strategy, the batch size and the order
    of submissions, cancellations and ticks; so no lookup in the active map fails. At every
    tick boundary every submitted request is in exactly one of queue, active map and finished
    requests, once, and nothing else is there. A request is finished at most once; then its
    future holds the text of its tokens unless its caller cancelled it; and however the run
    goes on it stays finished, out of queue and active map, with the same tokens. -/
theorem conservation [Zero Col] (cfg : Config Col) (hn : cfg.Serves) (firstId : Nat)
    (events : List Event) :
    ∃ s, runEvents cfg firstId events = .ok s ∧
      (∀ r ∈ s.submitted, s.pending.count r + s.active.count r + s.finished.count r = 1) ∧
      (∀ r ∉ s.submitted, r ∉ s.pending ∧ r ∉ s.active ∧ r ∉ s.finished) ∧
      s.finished.Nodup ∧
      (∀ r ∈ s.finished,
        (s.requests r).result = .resolved (cfg.tokenizer.decode (s.requests r).generatedIds) ∨
        ((s.requests r).result = .cancelled ∧ .cancel r ∈ events)) ∧
      ∀ more s', Runs.run (step cfg) s more = .ok s' → ∀ r ∈ s.finished,
        r ∈ s'.finished ∧ r ∉ s'.pending ∧ r ∉ s'.active ∧
        (s'.requests r).generatedIds = (s.requests r).generatedIds := by
  obtain ⟨s, hrun, hs⟩ := runEvents_returns hn firstId events
  refine ⟨s, hrun, ?_, ?_, hs.finished_nodup, ?_, ?_⟩
  · intro r hr
    rw [← List.count_append, ← List.count_append, hs.partition.count_eq]
    exact List.count_eq_one_of_mem hs.nodup hr
  · intro r hr
    rw [hs.mem_submitted, not_or, not_or] at hr
    exact hr
  · intro r hr
    have hsub := hs.mem_submitted.mpr (.inr (.inr hr))
    rcases (hs.life r hsub).answered.done (hs.loc_finished hr) with h | h
    · exact .inl h
    · exact .inr ⟨h, runEvents_cancelled hrun hsub h⟩
  · intro more s' hmore r hr
    obtain ⟨hs', hfin, hids⟩ := run_keeps_finished hs hr hmore
    exact ⟨hfin, fun hc => hs'.pending_not_finished hc hfin,
      fun hc => hs'.active_not_finished hc hfin, hids⟩

/-- Request 1 streams, is cancelled by its caller, and is generated all the same. -/
def cancelledStream : List Event := [.submit 4 [1] true, .cancel 1, .tick, .tick, .tick]

theorem conservation_counting :
    ∃ s, runEvents (divergentConfig .probeDeprioritize) 1 cancelledStream = .ok s ∧
      (∀ r ∈ s.submitted, s.pending.count r + s.active.count r + s.finished.count r = 1) ∧
      (∀ r ∉ s.submitted, r ∉ s.pending ∧ r ∉ s.active ∧ r ∉ s.finished) ∧
      s.finished.Nodup ∧
      (∀ r ∈ s.finished,
        (s.requests r).result = .resolved
          ((divergentConfig .probeDeprioritize).tokenizer.decode (s.requests r).generatedIds) ∨
        ((s.requests r).result = .cancelled ∧ .cancel r ∈ cancelledStream)) ∧
      ∀ more s', Runs.run (step (divergentConfig .probeDeprioritize)) s more = .ok s' →
        ∀ r ∈ s.finished, r ∈ s'.finished ∧ r ∉ s'.pending ∧ r ∉ s'.active ∧
          (s'.requests r).generatedIds = (s.requests r).generatedIds :=
  conservation (divergentConfig .probeDeprioritize)
    (divergentConfig_serves .probeDeprioritize) 1 cancelledStream

end PGI
