import ProbeGuidedInference.TableModel

/- What a streaming request's token queue has received. Tokens are put on it as they are
   appended to `generated_ids`, and `None` when the request is finished; `_preempt` erases
   `generated_ids` but cannot take back what was put. So the queue holds the tokens of the
   abandoned attempts, then the current ones, then the end mark. -/
namespace PGI
open Fallible

variable {Col : Type}

def LogEntry.isPreempt : LogEntry → Bool
  | .preempt _ _ => true
  | _ => false

def View.everPreempted (v : View Col) : Bool := v.history.any LogEntry.isPreempt

section EverPreempted
variable {cfg : Config Col} {rid : Nat} {v : View Col}

@[simp] theorem View.everPreempted_finish {time : ℚ} :
    (v.finish cfg rid time).everPreempted = v.everPreempted := by
  simp [View.everPreempted, LogEntry.isPreempt]

@[simp] theorem View.everPreempted_prefill {T : Nat} {waiting : List Int}
    {out : PrefillOut Col cfg.model.nLayers T} :
    (v.prefill cfg rid waiting out).everPreempted = v.everPreempted := by
  simp [View.everPreempted, LogEntry.isPreempt]

@[simp] theorem View.everPreempted_preempt : (v.preempt rid).everPreempted = true := by
  simp [View.everPreempted, LogEntry.isPreempt]

@[simp] theorem View.everPreempted_advance {L : Nat} {cols : Fin L → List Col × List Col}
    {row : ForwardRow Col L} {answer : Answer} :
    (v.advance cfg rid cols row answer).everPreempted = v.everPreempted := by
  cases answer with
  | none => simp [View.everPreempted, LogEntry.isPreempt, View.decodeEntries]
  | some a => simp [View.everPreempted, LogEntry.isPreempt, View.decodeEntries]

end EverPreempted

/-- The end mark, once the request is finished. -/
def endMark (loc : Loc) : List (Option Nat) := if loc = .finished then [none] else []

/-- The stream is the current tokens in order and, once finished, a single `None`. -/
def View.Faithful (v : View Col) : Prop :=
  v.req.tokenQueue = some (v.req.generatedIds.map some ++ endMark v.loc)

/-- Before the current tokens come those of abandoned attempts, if there were any. -/
structure Streamed (v : View Col) (lost : List Nat) : Prop where
  queue : v.req.tokenQueue = some ((lost ++ v.req.generatedIds).map some ++ endMark v.loc)
  abandoned : lost = [] ↔ v.everPreempted = false

section OneRequest
variable {cfg : Config Col} {rid : Nat} {v : View Col} {lost : List Nat}

theorem Streamed.unfinished (h : Streamed v lost) (hloc : v.loc ≠ .finished) :
    v.req.tokenQueue = some ((lost ++ v.req.generatedIds).map some) := by
  have hq := h.queue
  simp only [endMark, hloc, if_false, List.append_nil] at hq
  exact hq

theorem streamed_finish {time : ℚ} (hstream : v.req.stream = true) (hloc : v.loc ≠ .finished)
    (h : Streamed v lost) : Streamed (v.finish cfg rid time) lost where
  queue := by simp [hstream, h.unfinished hloc, endMark]
  abandoned := by rw [h.abandoned, View.everPreempted_finish]

theorem streamed_prefill (hstream : v.req.stream = true) (hloc : v.loc ≠ .finished)
    (h : Streamed v lost) {T : Nat} (waiting : List Int) (out : PrefillOut Col cfg.model.nLayers T) :
    Streamed (v.prefill cfg rid waiting out) lost where
  queue := by simp [hstream, h.unfinished hloc, endMark]
  abandoned := by rw [h.abandoned, View.everPreempted_prefill]

theorem streamed_advance (hstream : v.req.stream = true) (hloc : v.loc ≠ .finished)
    (h : Streamed v lost) {L : Nat} (cols : Fin L → List Col × List Col) (row : ForwardRow Col L)
    (answer : Answer) : Streamed (v.advance cfg rid cols row answer) lost where
  queue := by simp [hstream, h.unfinished hloc, endMark]
  abandoned := by rw [h.abandoned, View.everPreempted_advance]

/-- The abandoned attempt had at least its first token. -/
theorem streamed_preempt (hne : v.req.generatedIds ≠ []) (hloc : v.loc ≠ .finished)
    (h : Streamed v lost) : Streamed (v.preempt rid) (lost ++ v.req.generatedIds) where
  queue := by simp [h.unfinished hloc, endMark]
  abandoned := by simp [hne]

theorem LifeReach.streamed (h : LifeReach cfg rid v) :
    v.req.stream = true → ∃ lost, Streamed v lost := by
  refine h.keep_moves (P := fun v => v.req.stream = true → ∃ lost, Streamed v lost) ?_ ?_ ?_ ?_ ?_ ?_
  · intro maxTokens promptIds stream hstream
    have hs : stream = true := hstream
    subst hs
    exact ⟨[], rfl, by simp [View.fresh, View.everPreempted]⟩
  · intro v h hstream
    obtain ⟨lost, hl⟩ := h hstream
    exact ⟨lost, hl.queue, hl.abandoned⟩
  · intro v waiting out _ h hloc hstream
    have hstream' : v.req.stream = true := by simpa using hstream
    obtain ⟨lost, hl⟩ := h hstream'
    exact ⟨lost, streamed_prefill hstream' (by rw [hloc]; decide) hl waiting out⟩
  · intro v cols _ _ row answer _ h hloc _ _ _ hstream
    have hstream' : v.req.stream = true := by simpa using hstream
    obtain ⟨lost, hl⟩ := h hstream'
    exact ⟨lost, streamed_advance hstream' (by rw [hloc]; decide) hl cols row answer⟩
  · intro v hinv h hloc _ hstream
    obtain ⟨lost, hl⟩ := h hstream
    exact ⟨_, streamed_preempt (hinv.running hloc).nonempty (by rw [hloc]; decide) hl⟩
  · intro v time h hloc hstream
    obtain ⟨lost, hl⟩ := h hstream
    exact ⟨lost, streamed_finish hstream (by rw [hloc]; decide) hl⟩

/-- A stream is faithful exactly as long as its request has not been preempted. -/
theorem LifeReach.faithful_iff (h : LifeReach cfg rid v) (hstream : v.req.stream = true) :
    v.Faithful ↔ v.everPreempted = false := by
  obtain ⟨lost, hl⟩ := h.streamed hstream
  unfold View.Faithful
  rw [← hl.abandoned, hl.queue]
  refine ⟨?_, ?_⟩
  · intro heq
    have hlen := congrArg List.length (Option.some.inj heq)
    simp only [List.length_append, List.length_map] at hlen
    exact List.length_eq_zero_iff.mp (by omega)
  · intro heq'
    subst heq'
    rfl

end OneRequest

/-! The victims of a tick. -/

/-- The victims of `preemptLoop`, in order. -/
def loopVictims (cfg : Config Col) : Nat → Batcher Col → List Nat
  | 0, _ => []
  | attempts + 1, s =>
    if s.active.length ≥ cfg.maxBatchSize ∧ headIsNormal s then
      match findDeprioritizeVictim s with
      | none => []
      | some victim => victim :: match admitOne cfg (preempt s victim) with
        | .ok t => loopVictims cfg attempts t
        | .error _ => []
    else []

/-- The requests that a tick from `s` preempts. -/
def victims (cfg : Config Col) (s : Batcher Col) : List Nat :=
  if cfg.strategy ≠ .probeDeprioritize then []
  else match admitLoop cfg s.pending.length s with
    | .ok t => loopVictims cfg cfg.maxBatchSize t
    | .error _ => []

section Victims
variable {cfg : Config Col} {s s' : Batcher Col}

theorem Admission.everPreempted {rid : Nat} {rest : List Nat} (h : Admission cfg s s' rid rest)
    (r : Nat) : (s'.view r).everPreempted = (s.view r).everPreempted := by
  by_cases hr : r = rid
  · subst hr
    obtain ⟨out, -, hview⟩ := h.self
    rw [hview]
    rcases (s.view r).admitted_cases cfg r (cfg.time s.clock) (rest.map s.priority) out with
      ⟨heq, -⟩ | ⟨heq, -⟩
    · rw [heq, View.everPreempted_finish, View.everPreempted_prefill]
    · rw [heq, View.everPreempted_prefill]
  · rw [h.other r hr]

theorem DecodedAll.everPreempted (h : DecodedAll cfg s s') (r : Nat) :
    (s'.view r).everPreempted = (s.view r).everPreempted := by
  by_cases hr : r ∈ s.active
  · have hdec := h.self r hr
    generalize s'.view r = v' at hdec ⊢
    obtain ⟨cols, token, position, row, answer, time, -, -, -, -, -⟩ := hdec
    rcases (s.view r).decode_cases cfg r time cols row answer with ⟨heq, -⟩ | ⟨heq, -⟩
    · rw [heq, View.everPreempted_finish, View.everPreempted_advance]
    · rw [heq, View.everPreempted_advance]
  · rw [h.other r hr]

theorem admitLoop_everPreempted : ∀ (fuel : Nat) {s : Batcher Col}, SysInv cfg s →
    admitLoop cfg fuel s = .ok s' → ∀ r, (s'.view r).everPreempted = (s.view r).everPreempted := by
  intro fuel
  induction fuel with
  | zero =>
    intro s _ h r
    obtain rfl := Except.ok.inj h
    rfl
  | succ fuel ih =>
    intro s hs h r
    rcases admitLoop_succ hs h with ⟨hroom, rid, rest, hp, t, hadm, ht⟩ | ⟨-, rfl⟩
    · exact (ih (hadm.inv hs hp hroom) ht r).trans (hadm.everPreempted r)
    · rfl

theorem preempt_everPreempted (hs : SysInv cfg s) {victim : Nat} (hmem : victim ∈ s.active)
    (r : Nat) : ((preempt s victim).view r).everPreempted = true ↔
      (s.view r).everPreempted = true ∨ r = victim := by
  by_cases hr : r = victim
  · subst hr
    rw [preempt_view_self s r hs.active_nodup (hs.active_not_finished hmem)]
    simp
  · rw [preempt_view_ne s victim hr]
    simp [hr]

/-- The second loop preempts its victims, all of them submitted requests, and no other. -/
theorem preemptLoop_victims (hstrategy : cfg.strategy = .probeDeprioritize) :
    ∀ (attempts : Nat) {s : Batcher Col}, SysInv cfg s → preemptLoop cfg attempts s = .ok s' →
    loopVictims cfg attempts s ⊆ s.submitted ∧
    ∀ r, (s'.view r).everPreempted = true ↔
      (s.view r).everPreempted = true ∨ r ∈ loopVictims cfg attempts s := by
  intro attempts
  induction attempts with
  | zero =>
    intro s _ h
    obtain rfl := Except.ok.inj h
    simp [loopVictims]
  | succ attempts ih =>
    intro s hs h
    rcases preemptLoop_succ hs h with ⟨rid, rest, victim, hsw, t, hadm, hspec, ht⟩ | ⟨hnone, rfl⟩
    · obtain ⟨hmem, hv⟩ := findDeprioritizeVictim_some hsw.victim
      have hw : Work cfg s t := (Intake.swap rid rest victim hstrategy hsw hadm).work hs
      obtain ⟨hsub, hiff⟩ := ih (hw.inv hs) ht
      have hcond : s.active.length ≥ cfg.maxBatchSize ∧ headIsNormal s = true :=
        ⟨hsw.full, headIsNormal_iff.mpr ⟨rid, rest, hsw.pending, hsw.head⟩⟩
      have hvictims : loopVictims cfg (attempts + 1) s = victim :: loopVictims cfg attempts t := by
        rw [loopVictims, if_pos hcond, hsw.victim]
        simp only [hadm]
      rw [hvictims]
      refine ⟨?_, ?_⟩
      · rw [hw.submitted] at hsub
        exact List.cons_subset.mpr ⟨hs.mem_submitted.mpr (.inr (.inl hmem)), hsub⟩
      · intro r
        rw [hiff r, hspec.everPreempted r, preempt_everPreempted hs hmem r, List.mem_cons, or_assoc]
    · have hvictims : loopVictims cfg (attempts + 1) s' = [] := by
        rw [loopVictims]
        split
        · rename_i hcond
          obtain ⟨rid, rest, hp, hhead⟩ := headIsNormal_iff.mp hcond.2
          cases hfind : findDeprioritizeVictim s' with
          | none => rfl
          | some victim => exact absurd ⟨hcond.1, hp, hhead, hfind⟩ (hnone rid rest victim)
        · rfl
      simp [hvictims]

theorem tick_victims [Zero Col] (hs : SysInv cfg s) (h : tick cfg s = .ok s') :
    victims cfg s ⊆ s.submitted ∧ ∀ r, (s'.view r).everPreempted = true ↔
      (s.view r).everPreempted = true ∨ r ∈ victims cfg s := by
  obtain ⟨t, ht, h⟩ := tick_ok.mp h
  have hdecode : ∀ r, (s'.view r).everPreempted = (t.view r).everPreempted := by
    intro r
    rcases h with ⟨-, rfl⟩ | ⟨hne, h⟩
    · rfl
    · exact (decodePhase_works ((tryAdmit_works hs ht).inv hs) hne h).everPreempted r
  unfold tryAdmit at ht
  obtain ⟨u, hu, ht⟩ := bind_eq_ok.mp ht
  have hadmitted := admitLoop_everPreempted _ hs hu
  have hworks := admitLoop_works _ hs hu
  unfold victims
  split at ht
  · rename_i hstrategy
    obtain rfl := Except.ok.inj ht
    rw [if_pos hstrategy]
    refine ⟨List.nil_subset _, ?_⟩
    intro r
    rw [hdecode r, hadmitted r]
    simp
  · rename_i hstrategy
    have hstrategy' : cfg.strategy = .probeDeprioritize := by simpa using hstrategy
    obtain ⟨hsub, hiff⟩ := preemptLoop_victims hstrategy' _ (hworks.inv hs) ht
    rw [if_neg hstrategy, hu]
    refine ⟨hworks.submitted ▸ hsub, ?_⟩
    intro r
    rw [hdecode r, hiff r, hadmitted r]

end Victims

/-! Whole runs. -/

/-- In every state of the run, every streaming request's stream is faithful. -/
def StreamsFaithful [Zero Col] (cfg : Config Col) (firstId : Nat) (events : List Event) : Prop :=
  ∀ t, Runs.Visits (step cfg) (Batcher.new firstId) events t →
    ∀ r ∈ t.submitted, (t.requests r).stream = true → (t.view r).Faithful

/-- No streaming request has been preempted. -/
def StreamsWhole (s : Batcher Col) : Prop :=
  ∀ r ∈ s.submitted, (s.requests r).stream = true → (s.view r).everPreempted = false

/-- No streaming request is preempted by the next event. -/
def SparesStreams (cfg : Config Col) (s : Batcher Col) (e : Event) : Prop :=
  e = .tick → ∀ r ∈ victims cfg s, (s.requests r).stream = false

section Runs
variable [Zero Col] {cfg : Config Col} {s s' : Batcher Col}

theorem step_streamsWhole {e : Event} (hs : SysInv cfg s) (hwhole : StreamsWhole s)
    (h : step cfg s e = .ok s') : StreamsWhole s' ↔ SparesStreams cfg s e := by
  cases e with
  | submit maxTokens promptIds stream =>
    obtain rfl := Except.ok.inj h
    refine ⟨fun _ hc => (by cases hc), fun _ r hr hstream => ?_⟩
    by_cases hnew : r = s.nextId
    · rw [hnew, hs.submit_view_self]
      rfl
    · rw [submit_view_ne maxTokens promptIds stream hnew]
      rw [submit_requests_ne maxTokens promptIds stream hnew] at hstream
      rcases List.mem_append.mp hr with hr | hr
      · exact hwhole r hr hstream
      · exact absurd (List.mem_singleton.mp hr) hnew
  | cancel rid =>
    obtain rfl := Except.ok.inj h
    refine ⟨fun _ hc => (by cases hc), fun _ => ?_⟩
    split
    · intro r hr hstream
      obtain ⟨f, hf⟩ := cancel_requests s rid r
      rw [hf] at hstream
      -- the log is as it was
      exact hwhole r hr hstream
    · exact hwhole
  | tick =>
    have hworks := tick_works hs h
    obtain ⟨hsub, hiff⟩ := tick_victims hs h
    refine ⟨?_, ?_⟩
    · intro hwhole' _ r hr
      have hstream := (hworks.request hs r).1
      by_contra hc
      have hfalse := hwhole' r (hworks.submitted ▸ hsub hr) (by rw [hstream]; simpa using hc)
      rw [(hiff r).mpr (.inr hr)] at hfalse
      cases hfalse
    · intro hspares r hr hstream
      rw [hworks.submitted] at hr
      rw [(hworks.request hs r).1] at hstream
      rw [← Bool.not_eq_true, hiff r, not_or, Bool.not_eq_true]
      refine ⟨hwhole r hr hstream, fun hv => ?_⟩
      rw [hspares rfl r hv] at hstream
      cases hstream

/-- **Streams are faithful exactly when no streaming request is preempted.** In every
    state of a run every streaming request has received its current tokens, in order and
    once, and `None` once it is finished, if and only if no tick of the run takes a
    streaming request as a preemption victim. -/
theorem streams_faithful_iff {firstId : Nat} {events : List Event}
    (hrun : runEvents cfg firstId events = .ok s) :
    StreamsFaithful cfg firstId events ↔
      ∀ t e, Runs.Reads (step cfg) (Batcher.new firstId) events t e → SparesStreams cfg t e := by
  have hwhole : (∀ t, Runs.Visits (step cfg) (Batcher.new firstId) events t → StreamsWhole t) ↔
      ∀ t e, Runs.Reads (step cfg) (Batcher.new firstId) events t e → SparesStreams cfg t e :=
    Runs.forall_visits_iff (by intro r hr; cases hr)
      (fun t e t' ht hP hstep => step_streamsWhole (visits_inv ht) hP hstep) hrun
  rw [← hwhole]
  refine forall_congr' fun t => forall_congr' fun ht => forall_congr' fun r =>
    forall_congr' fun hr => forall_congr' fun hstream => ?_
  exact ((visits_inv ht).life r hr).faithful_iff hstream

end Runs

/-- A batch of one: request 1 streams its first two tokens, is found divergent, and gives
    its slot to request 2; the tick that resumes it puts the same two tokens again. -/
def preemptedStream : List Event :=
  [.submit 4 [1] true, .tick, .submit 1 [2] false, .tick, .tick, .tick, .tick]

theorem preemptedStream_repeats : ¬ StreamsFaithful
    (divergentConfig .probeDeprioritize) 1 preemptedStream := by
  intro h
  have hrun : (runEvents (divergentConfig .probeDeprioritize) 1
      preemptedStream).toOption.map (fun s => (s.submitted, (s.requests 1).stream,
        (s.requests 1).generatedIds, (s.requests 1).tokenQueue)) =
      some ([1, 2], true, [2, 3, 4, 5],
        some [some 2, some 3, some 2, some 3, some 4, some 5, none]) := by decide
  obtain ⟨s, hs, hread⟩ := toOption_map_eq_some.mp hrun
  simp only [Prod.mk.injEq] at hread
  obtain ⟨hsub, hstream, hids, hqueue⟩ := hread
  have hfaithful := h s (Runs.Visits.last hs) 1 (by simp [hsub]) hstream
  unfold View.Faithful at hfaithful
  simp only [Batcher.view_req, hids, hqueue] at hfaithful
  have hlen := congrArg List.length (Option.some.inj hfaithful)
  simp only [List.length_append, List.length_map, List.length_cons, List.length_nil] at hlen
  have hmark : (endMark (s.view 1).loc).length ≤ 1 := by
    unfold endMark
    split <;> simp
  omega

theorem streams_faithful_counting :
    StreamsFaithful (divergentConfig .baseline) 1 preemptedStream ↔
      ∀ t e, Runs.Reads (step (divergentConfig .baseline))
        (Batcher.new 1) preemptedStream t e →
        SparesStreams (divergentConfig .baseline) t e := by
  obtain ⟨s, hs, -⟩ :=
    runEvents_returns (divergentConfig_serves .baseline) 1 preemptedStream
  exact streams_faithful_iff hs

end PGI
