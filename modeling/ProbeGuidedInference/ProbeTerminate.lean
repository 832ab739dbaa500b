import ProbeGuidedInference.Checkpoint
import ProbeGuidedInference.Conservation
import ProbeGuidedInference.FinishReasons

/- What `probe_terminate` does. The gate is called once for a request, at the checkpoint,
   on a row of its own; if the answer is divergent and confident enough the same tick
   sets `terminated_by_probe` and finishes the request. Nothing else sets that flag. -/
namespace PGI
open Fallible

variable {Col : Type}

/-- The decision made for `r` at its `c`-th token, on its own row, is the one that it has,
    and it is divergent with a confidence above the threshold. -/
def DecidedStop (cfg : Config Col) (c : Int) (s : Batcher Col) (r : Nat) : Prop :=
  ∃ (n : Nat) (row : CapturedRow) (d : RoutingDecision), (n : Int) = c ∧
    .classify r n row d ∈ s.history r ∧ row.seqId = r ∧
    (s.requests r).routingDecision = some d ∧ d.isDivergent = true ∧
    cfg.terminateConfidenceThreshold < d.confidence

/-- The probe has stopped `r` if and only if it so decided at `c` tokens, and then it has
    `c` tokens and is gone. -/
structure ProbeExact (cfg : Config Col) (c : Int) (s : Batcher Col) (r : Nat) : Prop where
  flag : (r ∈ s.finished ∧ (s.requests r).terminatedByProbe = true) ↔ DecidedStop cfg c s r
  removed : DecidedStop cfg c s r →
    r ∉ s.active ∧ r ∉ s.pending ∧ ((s.requests r).nGenerated : Int) = c
  unfinished : r ∉ s.finished → (s.requests r).terminatedByProbe = false

section OneRequest
variable {cfg : Config Col} {rid : Nat} {v : View Col}

/-- The flag is set by a decision that stops, which is the last thing before the end. -/
structure Stopped (cfg : Config Col) (rid : Nat) (v : View Col) : Prop where
  flag : v.req.terminatedByProbe = true ↔
    ∃ n row d, .classify rid n row d ∈ v.history ∧ cfg.stops d = true
  length : ∀ n row d, .classify rid n row d ∈ v.history → cfg.stops d = true → v.req.nGenerated = n
  decided : ∀ n row d, .classify rid n row d ∈ v.history → v.req.routingDecision = some d

/-- Before its end a request has met no decision that stops. -/
theorem Stopped.none_before (hinv : LifeInv cfg v) (h : Stopped cfg rid v) (hloc : v.loc ≠ .finished)
    {n : Nat} {row : CapturedRow} {d : RoutingDecision} (hmem : .classify rid n row d ∈ v.history) :
    cfg.stops d = false := by
  by_contra hc
  have hterm := h.flag.mpr ⟨n, row, d, hmem, by simpa using hc⟩
  rw [hinv.not_terminated hloc] at hterm
  cases hterm

/-- No decision, no call of the gate so far. -/
theorem Stopped.uncalled (h : Stopped cfg rid v) (hnone : v.req.routingDecision = none)
    {n : Nat} {row : CapturedRow} {d : RoutingDecision} : .classify rid n row d ∉ v.history := by
  intro hmem
  have hdec := h.decided n row d hmem
  rw [hnone] at hdec
  cases hdec

/-- What a decode makes of a request, but for its end. -/
theorem stopped_advance (hinv : LifeInv cfg v) (h : Stopped cfg rid v) (hloc : v.loc = .active)
    {L : Nat} (cols : Fin L → List Col × List Col) (row : ForwardRow Col L) {captured : CapturedRow}
    {answer : Answer} (hgate : GateCall cfg captured (v.req.appended (argmax row.logits)) answer) :
    Stopped cfg rid (v.advance cfg rid cols row answer) := by
  have hterm := hinv.not_terminated (by rw [hloc]; decide)
  have hold : ∀ n row d, .classify rid n row d ∈ v.history → cfg.stops d = false :=
    fun n row d hmem => h.none_before hinv (by rw [hloc]; decide) hmem
  cases answer with
  | none =>
    have hhist : ∀ n crow d, .classify rid n crow d ∈ (v.advance cfg rid cols row none).history →
        .classify rid n crow d ∈ v.history := by
      intro n crow d hmem
      rcases (View.classify_mem_advance cfg rid v).mp hmem with hmem | ⟨-, _, hnone⟩
      · exact hmem
      · cases hnone
    refine ⟨?_, ?_, ?_⟩
    · refine ⟨?_, ?_⟩
      · intro hc
        simp [routable_skipped hinv, hterm] at hc
      · intro hstop
        obtain ⟨n, crow, d, hmem, hstops⟩ := hstop
        rw [hold n crow d (hhist n crow d hmem)] at hstops
        cases hstops
    · intro n crow d hmem hstops
      rw [hold n crow d (hhist n crow d hmem)] at hstops
      cases hstops
    · intro n crow d hmem
      have hdec := h.decided n crow d (hhist n crow d hmem)
      simpa [Answer.decision] using hdec
  | some a =>
    obtain ⟨crow, d, time⟩ := a
    have hnone : v.req.routingDecision = none := hgate.undecided
    -- this is the only call of the gate
    have honly : ∀ n crow' d', .classify rid n crow' d' ∈
        (v.advance cfg rid cols row (some (crow, d, time))).history →
        n = v.req.nGenerated + 1 ∧ d' = d := by
      intro n crow' d' hmem
      rcases (View.classify_mem_advance cfg rid v).mp hmem with hmem | ⟨hn, time', hsome⟩
      · exact absurd hmem (h.uncalled hnone)
      · have hpair : crow = crow' ∧ d = d' ∧ time = time' := by simpa using hsome
        exact ⟨hn, hpair.2.1.symm⟩
    have hflag : (v.advance cfg rid cols row (some (crow, d, time))).req.terminatedByProbe =
        cfg.stops d := by
      have hroute := routable_called hinv hgate
      have hstop : (v.req.nextToken cfg (argmax row.logits)
          (Answer.decision (some (crow, d, time)))).terminatedBy cfg = cfg.stops d :=
        terminatedBy_some (by simp [Answer.decision])
      simp [hterm, hroute, hstop]
    refine ⟨?_, ?_, ?_⟩
    · rw [hflag]
      refine ⟨?_, ?_⟩
      · intro hstops
        refine ⟨v.req.nGenerated + 1, crow, d, ?_, hstops⟩
        exact (View.classify_mem_advance cfg rid v).mpr (.inr ⟨rfl, time, rfl⟩)
      · intro hstop
        obtain ⟨n, crow', d', hmem, hstops⟩ := hstop
        rw [← (honly n crow' d' hmem).2]
        exact hstops
    · intro n crow' d' hmem _
      rw [(honly n crow' d' hmem).1]
      simp [GenerationRequest.nGenerated]
    · intro n crow' d' hmem
      rw [(honly n crow' d' hmem).2]
      simp [Answer.decision]

/-- The end of a request is no call of the gate and sets no flag. -/
theorem stopped_finish {time : ℚ} (h : Stopped cfg rid v) : Stopped cfg rid (v.finish cfg rid time) := by
  have hhist : ∀ n row d, .classify rid n row d ∈ (v.finish cfg rid time).history ↔
      .classify rid n row d ∈ v.history := by
    intro n row d
    simp
  refine ⟨?_, ?_, ?_⟩
  · simp only [hhist]
    exact h.flag
  · intro n row d hmem
    exact h.length n row d ((hhist n row d).mp hmem)
  · intro n row d hmem
    exact h.decided n row d ((hhist n row d).mp hmem)

theorem stopped_prefill (hinv : LifeInv cfg v) (h : Stopped cfg rid v) (hloc : v.loc = .pending)
    (waiting : List Int) (out : PrefillOut Col cfg.model.nLayers v.req.promptIds.length) :
    Stopped cfg rid (v.prefill cfg rid waiting out) := by
  obtain ⟨-, -, -, hnone⟩ := hinv.waiting hloc
  have hterm := hinv.not_terminated (by rw [hloc]; decide)
  have hhist : ∀ n row d, .classify rid n row d ∉ (v.prefill cfg rid waiting out).history := by
    intro n row d hmem
    exact h.uncalled hnone (by simpa using hmem)
  refine ⟨⟨?_, ?_⟩, fun n row d hmem => absurd hmem (hhist n row d),
    fun n row d hmem => absurd hmem (hhist n row d)⟩
  · intro hc
    simp [hterm] at hc
  · intro hstop
    obtain ⟨n, row, d, hmem, -⟩ := hstop
    exact absurd hmem (hhist n row d)

theorem LifeReach.stopped (hstrategy : cfg.strategy ≠ .probeDeprioritize)
    (h : LifeReach cfg rid v) : Stopped cfg rid v := by
  refine h.keep_moves (P := Stopped cfg rid) ?_ ?_ ?_ ?_ ?_ ?_
  · intro maxTokens promptIds stream
    exact ⟨⟨fun hc => (by cases hc), fun ⟨_, _, _, hmem, _⟩ => (by cases hmem)⟩,
      fun n row d hmem => (by cases hmem), fun n row d hmem => (by cases hmem)⟩
  · intro v h
    exact ⟨h.flag, h.length, h.decided⟩
  · intro v waiting out hinv h hloc
    exact stopped_prefill hinv h hloc waiting out
  · intro v cols _ _ row answer hinv h hloc _ _ hgate
    exact stopped_advance hinv h hloc cols row hgate
  · intro v hinv _ _ hone
    -- only `probe_deprioritize` preempts
    rcases hinv.priority with hzero | ⟨-, hdep⟩
    · omega
    · exact absurd hdep hstrategy
  · intro v time h _
    exact stopped_finish h

end OneRequest

/-! The batch. -/

section Batch
variable {cfg : Config Col} {s s' : Batcher Col}

/-- The batcher leaves a finished request as it is. -/
theorem Works.finished_view (hs : SysInv cfg s) (h : Works cfg s s') {r : Nat} (hr : r ∈ s.finished) :
    s'.view r = s.view r := by
  refine (h.keep (I := fun t => t.view r = s.view r) ?_ hs rfl).2
  intro t u ht hview hw
  rcases hw.turn ht r with hsame | ⟨-, hturn⟩
  · exact hsame.trans hview
  · have hloc : (t.view r).loc = .finished := by
      rw [hview]
      exact hs.loc_finished hr
    exact absurd hloc hturn.not_finished

theorem SysInv.probeExact (hs : SysInv cfg s) (hstrategy : cfg.strategy = .probeTerminate)
    {g : ClassificationGate} (hg : cfg.gate = some g) (hc : 2 ≤ g.checkpointPosition) {r : Nat}
    (hr : r ∈ s.submitted) : ProbeExact cfg g.checkpointPosition s r := by
  have hlife := hs.life r hr
  have hstopped : Stopped cfg r (s.view r) := hlife.stopped (by rw [hstrategy]; decide)
  have hstops : ∀ d, cfg.stops d = true ↔
      d.isDivergent = true ∧ cfg.terminateConfidenceThreshold < d.confidence := by
    intro d
    simp [Config.stops, hstrategy]
  have hflag : (s.requests r).terminatedByProbe = true ↔ DecidedStop cfg g.checkpointPosition s r := by
    refine hstopped.flag.trans ?_
    refine ⟨?_, ?_⟩
    · intro hstop
      obtain ⟨n, row, d, hmem, hd⟩ := hstop
      obtain ⟨hn, hshown⟩ := (hlife.checked hg).shown n row d hmem
      rw [max_eq_right hc] at hn
      exact ⟨n, row, d, hn, hmem, hshown.own, hstopped.decided n row d hmem, (hstops d).mp hd⟩
    · intro hdecided
      obtain ⟨n, row, d, -, hmem, -, -, hd⟩ := hdecided
      exact ⟨n, row, d, hmem, (hstops d).mpr hd⟩
  have hdone : (s.requests r).terminatedByProbe = true → r ∈ s.finished := by
    intro hterm
    have hloc := (hlife.inv.terminated hterm).1
    rcases hs.mem_submitted.mp hr with h | h | h
    · rw [Batcher.view_loc, hs.loc_pending h] at hloc
      cases hloc
    · rw [Batcher.view_loc, loc_active h] at hloc
      cases hloc
    · exact h
  refine ⟨?_, ?_, ?_⟩
  · rw [← hflag]
    exact ⟨fun h => h.2, fun h => ⟨hdone h, h⟩⟩
  · intro hd
    have hfin := hdone (hflag.mpr hd)
    obtain ⟨n, row, d, hn, hmem, -, -, hstop⟩ := hd
    refine ⟨fun h => hs.active_not_finished h hfin, fun h => hs.pending_not_finished h hfin, ?_⟩
    rw [← hn]
    exact congrArg Nat.cast (hstopped.length n row d hmem ((hstops d).mpr hstop))
  · intro hnot
    by_contra hc
    exact hnot (hdone (by simpa using hc))

end Batch

/-- **The exact effect of `probe_terminate`.** A request has been terminated by the probe if
    and only if it was so decided at its `c`-th token; then it has `c` tokens and has left
    the batch. The tick in which it is finished and flagged is the tick in which the
    decision is made. -/
theorem probe_terminate_exact [Zero Col] {cfg : Config Col} {firstId : Nat} {events : List Event}
    {s : Batcher Col} (hrun : runEvents cfg firstId events = .ok s)
    (hstrategy : cfg.strategy = .probeTerminate) {g : ClassificationGate} (hg : cfg.gate = some g)
    (hc : 2 ≤ g.checkpointPosition) :
    (∀ r ∈ s.submitted, ProbeExact cfg g.checkpointPosition s r) ∧
    ∀ s', tick cfg s = .ok s' → ∀ r ∈ s.submitted,
      (r ∉ s.finished ∧ r ∈ s'.finished ∧ (s'.requests r).terminatedByProbe = true) ↔
        (¬ DecidedStop cfg g.checkpointPosition s r ∧ DecidedStop cfg g.checkpointPosition s' r) := by
  have hs := runEvents_inv hrun
  refine ⟨fun r hr => hs.probeExact hstrategy hg hc hr, ?_⟩
  intro s' htick r hr
  have hworks := tick_works hs htick
  have hr' : r ∈ s'.submitted := by rwa [hworks.submitted]
  have hbefore := hs.probeExact hstrategy hg hc hr
  have hafter := (hworks.inv hs).probeExact hstrategy hg hc hr'
  refine ⟨?_, ?_⟩
  · intro h
    obtain ⟨hnot, hdone⟩ := h
    exact ⟨fun hd => hnot (hbefore.flag.mpr hd).1, hafter.flag.mp hdone⟩
  · intro h
    obtain ⟨hnot, hd⟩ := h
    refine ⟨?_, hafter.flag.mpr hd⟩
    intro hfin
    -- a request that had finished before the tick is not decided in it
    have hview := hworks.finished_view hs hfin
    apply hnot
    have hhist : s'.history r = s.history r := congrArg View.history hview
    have hreq : s'.requests r = s.requests r := congrArg View.req hview
    unfold DecidedStop at hd ⊢
    rwa [hhist, hreq] at hd

/-- Nine tokens are asked for; the probe stops the request at its second, in the first tick. -/
def stoppedAtCheckpoint : List Event := [.submit 9 [1] false, .tick]

theorem probe_terminate_exact_counting :
    ∃ s, runEvents (divergentConfig .probeTerminate) 1 stoppedAtCheckpoint = .ok s ∧
      ((s.requests 1).generatedIds = [2, 3] ∧ (s.requests 1).terminatedByProbe = true ∧
        DecidedStop (divergentConfig .probeTerminate) 2 s 1) ∧
      (∀ r ∈ s.submitted, ProbeExact (divergentConfig .probeTerminate) 2 s r) ∧
      ∀ s', tick (divergentConfig .probeTerminate) s = .ok s' → ∀ r ∈ s.submitted,
        (r ∉ s.finished ∧ r ∈ s'.finished ∧ (s'.requests r).terminatedByProbe = true) ↔
          (¬ DecidedStop (divergentConfig .probeTerminate) 2 s r ∧
            DecidedStop (divergentConfig .probeTerminate) 2 s' r) := by
  have hrun : (runEvents (divergentConfig .probeTerminate) 1 stoppedAtCheckpoint).toOption.map
      (fun s => (s.submitted, s.finished, (s.requests 1).generatedIds,
        (s.requests 1).terminatedByProbe)) = some ([1], [1], [2, 3], true) := by decide
  obtain ⟨s, hs, hread⟩ := toOption_map_eq_some.mp hrun
  simp only [Prod.mk.injEq] at hread
  obtain ⟨hsubmitted, hfinished, htokens, hflag⟩ := hread
  obtain ⟨hexact, htick⟩ := probe_terminate_exact hs rfl (g := constantGate 2 .divergent 1) rfl (by decide)
  have hdecided := (hexact 1 (by simp [hsubmitted])).flag.mp ⟨by simp [hfinished], hflag⟩
  exact ⟨s, hs, ⟨htokens, hflag, hdecided⟩, hexact, htick⟩

end PGI
