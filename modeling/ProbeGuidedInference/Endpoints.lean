import ProbeGuidedInference.BoundedWait
import ProbeGuidedInference.StrategyComparison
import ProbeGuidedInference.StreamedText

/- The server under traffic (src/server.py). The handlers of `/generate` and `/stream` submit
   a request and wait; meanwhile others post, callers give up waiting, and the batcher's
   task ticks. Here is what a caller gets in the end from a row-local model with a hook that
   only looks: what the model generates for the prompt alone, or, if the probe stops it, the
   beginning of that; and after how many ticks. `/health` and `/metrics` read the batcher's
   counters at some moment between two of these events; here is how what they show hangs
   together, at one moment and over time. All this is until a tick raises: then the
   batcher's task is dead, and who waits waits forever.

   The chat template is a parameter, as for the harness. -/
namespace PGI
open Fallible

variable {Col : Type}

/-! The handlers. -/

/-- The body of a POST. -/
structure GenerateRequest where
  prompt : String
  maxTokens : Option Int := none
  deriving DecidableEq, Repr

/-- `req.max_tokens`, with its default. -/
def GenerateRequest.limit (settings : Settings) (req : GenerateRequest) : Int :=
  req.maxTokens.getD settings.maxNewTokens

def GenerateRequest.promptIds (tokenizer : ChatTokenizer) (req : GenerateRequest) : List Nat :=
  tokenizer.inputIds (tokenizer.applyChatTemplate req.prompt)

/-- A POST to `/generate` or to `/stream`, a caller that gives up waiting for a result, or an
    iteration of the batcher's task. -/
inductive Call where
  | generate (req : GenerateRequest)
  | streamGenerate (req : GenerateRequest)
  | cancel (rid : Nat)
  | tick
  deriving DecidableEq, Repr

/-- What a call does to queue and batcher. -/
def Call.event (tokenizer : ChatTokenizer) (settings : Settings) : Call → Event
  | .generate req => .submit (req.limit settings) (req.promptIds tokenizer) false
  | .streamGenerate req => .submit (req.limit settings) (req.promptIds tokenizer) true
  | .cancel rid => .cancel rid
  | .tick => .tick

/-- A server of this configuration under these calls. -/
def serve [Zero Col] (tokenizer : ChatTokenizer) (settings : Settings) (cfg : Config Col)
    (firstId : Nat) (calls : List Call) : Except (PyError × Batcher Col) (Batcher Col) :=
  runEvents cfg firstId (calls.map (Call.event tokenizer settings))

/-- `RoutingStrategy.value`. -/
def RoutingStrategy.value : RoutingStrategy → String
  | .baseline => "baseline"
  | .probeTerminate => "probe_terminate"
  | .probeDeprioritize => "probe_deprioritize"

structure Health where
  status : String := "ok"
  strategy : String
  activeSequences : Nat
  queued : Nat
  totalAdmitted : Nat
  totalFinished : Nat
  totalProbeTerminated : Nat
  totalPreemptions : Nat
  deriving DecidableEq, Repr

def health (cfg : Config Col) (s : Batcher Col) : Health where
  strategy := cfg.strategy.value
  activeSequences := s.active.length
  queued := s.pending.length
  totalAdmitted := s.totalAdmitted
  totalFinished := s.totalFinished
  totalProbeTerminated := s.totalProbeTerminated
  totalPreemptions := s.totalPreemptions

/-- `torch.cuda`, where it is available. -/
structure Cuda where
  memoryAllocated : Nat
  maxMemoryAllocated : Nat

structure Metrics where
  strategy : String
  activeSequences : Nat
  queued : Nat
  activeDeprioritized : Nat
  totalAdmitted : Nat
  totalFinished : Nat
  totalProbeTerminated : Nat
  totalPreemptions : Nat
  gpuCurrentBytesAllocated : Option Nat
  gpuPeakBytesAllocated : Option Nat
  deriving DecidableEq, Repr

def metrics (cfg : Config Col) (cuda : Option Cuda) (s : Batcher Col) : Metrics :=
  let activePriorities := s.active.map s.priority
  { strategy := cfg.strategy.value
    activeSequences := s.active.length
    queued := s.pending.length
    activeDeprioritized := activePriorities.countP (· = 1)
    totalAdmitted := s.totalAdmitted
    totalFinished := s.totalFinished
    totalProbeTerminated := s.totalProbeTerminated
    totalPreemptions := s.totalPreemptions
    gpuCurrentBytesAllocated := cuda.map Cuda.memoryAllocated
    gpuPeakBytesAllocated := cuda.map Cuda.maxMemoryAllocated }

def Metrics.toHealth (m : Metrics) : Health where
  strategy := m.strategy
  activeSequences := m.activeSequences
  queued := m.queued
  totalAdmitted := m.totalAdmitted
  totalFinished := m.totalFinished
  totalProbeTerminated := m.totalProbeTerminated
  totalPreemptions := m.totalPreemptions

/-- `/health` shows nothing that `/metrics` does not. -/
theorem health_eq (cfg : Config Col) (cuda : Option Cuda) (s : Batcher Col) :
    health cfg s = (metrics cfg cuda s).toHealth := rfl

/-- The bodies posted so far, and whether they were posted to `/stream`. -/
def posts (calls : List Call) : List (GenerateRequest × Bool) :=
  calls.filterMap (fun c => match c with
    | .generate req => some (req, false)
    | .streamGenerate req => some (req, true)
    | _ => none)

section Traffic
variable {tokenizer : ChatTokenizer} {settings : Settings} {cfg : Config Col} {firstId : Nat}
  {calls : List Call} {s : Batcher Col}

theorem workloadOf_calls (calls : List Call) :
    workloadOf (calls.map (Call.event tokenizer settings)) =
      (posts calls).map (fun q => (q.1.limit settings, q.1.promptIds tokenizer, q.2)) := by
  unfold workloadOf posts
  rw [List.filterMap_map, List.map_filterMap]
  congr 1
  funext c
  cases c with
  | generate req => rfl
  | streamGenerate req => rfl
  | cancel rid => rfl
  | tick => rfl

theorem arrivals_calls (calls : List Call) :
    arrivals (calls.map (Call.event tokenizer settings)) =
      (posts calls).map (fun q => q.1.limit settings) := by
  rw [← workloadOf_limits, workloadOf_calls, List.map_map]
  rfl

theorem serve_submitted [Zero Col] (h : serve tokenizer settings cfg firstId calls = .ok s) :
    s.submitted.length = (posts calls).length := by
  rw [(runEvents_numbered h).length, arrivals_calls, List.length_map]

theorem Config.Serves.serve [Zero Col] (h : cfg.Serves) (tokenizer : ChatTokenizer) (settings : Settings)
    (firstId : Nat) (calls : List Call) :
    ∃ s, PGI.serve tokenizer settings cfg firstId calls = .ok s :=
  h.runs firstId (calls.map (Call.event tokenizer settings))

end Traffic

/-! What the counters show. -/

/-- One answer of `/metrics`, of a server that has received so many posts. -/
structure Metrics.Sound (strategy : RoutingStrategy) (settings : Settings) (received : Nat)
    (m : Metrics) : Prop where
  everyone : m.queued + m.activeSequences + m.totalFinished = received
  admitted : m.totalAdmitted = m.totalFinished + m.activeSequences + m.totalPreemptions
  batch : m.activeSequences ≤ settings.maxBatchSize
  deprioritized : m.activeDeprioritized ≤ m.activeSequences
  preemptions : m.totalPreemptions ≤ received - settings.maxBatchSize
  terminated : m.totalProbeTerminated ≤ m.totalFinished
  undeprioritized : strategy ≠ .probeDeprioritize → m.activeDeprioritized = 0 ∧ m.totalPreemptions = 0
  unterminated : strategy ≠ .probeTerminate → m.totalProbeTerminated = 0

/-- No counter has gone back. -/
structure Metrics.Before (m later : Metrics) : Prop where
  totalAdmitted : m.totalAdmitted ≤ later.totalAdmitted
  totalFinished : m.totalFinished ≤ later.totalFinished
  totalProbeTerminated : m.totalProbeTerminated ≤ later.totalProbeTerminated
  totalPreemptions : m.totalPreemptions ≤ later.totalPreemptions

/-- The batcher at some time, and later. -/
structure Batcher.Before (s t : Batcher Col) : Prop where
  totalAdmitted : s.totalAdmitted ≤ t.totalAdmitted
  totalPreemptions : s.totalPreemptions ≤ t.totalPreemptions
  finished : s.finished ⊆ t.finished
  terminatedByProbe : ∀ r ∈ s.finished,
    (t.requests r).terminatedByProbe = (s.requests r).terminatedByProbe

section Counters
variable {cfg : Config Col} {s t u : Batcher Col}

theorem Work.before (ht : SysInv cfg t) (h : s.Before t) (hw : Work cfg t u) : s.Before u := by
  have hcounts : t.totalAdmitted ≤ u.totalAdmitted ∧ t.totalPreemptions ≤ u.totalPreemptions := by
    cases hw with
    | admission rid rest _ _ h =>
      have hadmitted := h.totalAdmitted
      have hpreempted := h.totalPreemptions
      omega
    | swap rid rest victim _ _ _ _ _ _ h =>
      have hadmitted : u.totalAdmitted = t.totalAdmitted + 1 := h.totalAdmitted
      have hpreempted : u.totalPreemptions = t.totalPreemptions + 1 := h.totalPreemptions
      omega
    | decode _ h => exact ⟨h.totalAdmitted.ge, h.totalPreemptions.ge⟩
  refine ⟨h.totalAdmitted.trans hcounts.1, h.totalPreemptions.trans hcounts.2,
    List.Subset.trans h.finished hw.finished_subset, ?_⟩
  intro r hr
  have hworks : Works cfg t u := .single hw
  have hreq : u.requests r = t.requests r :=
    congrArg View.req (hworks.finished_view ht (h.finished hr))
  rw [hreq]
  exact h.terminatedByProbe r hr

theorem run_before [Zero Col] (hs : SysInv cfg s) {more : List Event}
    (h : Runs.run (step cfg) s more = .ok t) : SysInv cfg t ∧ s.Before t := by
  refine Runs.run_invariant (I := fun t => SysInv cfg t ∧ s.Before t) ?_
    ⟨hs, le_refl _, le_refl _, List.Subset.refl _, fun _ _ => rfl⟩ h
  intro t e u hI hstep
  obtain ⟨ht, hbefore⟩ := hI
  refine ht.event (I := s.Before) ?_ ?_ (fun _ _ ht h hw => hw.before ht h) hbefore hstep
  · intro t maxTokens promptIds stream ht h
    refine ⟨h.totalAdmitted, h.totalPreemptions, h.finished, ?_⟩
    intro r hr
    have hne : r ≠ t.nextId := fun heq =>
      ht.nextId_not_submitted (heq ▸ ht.mem_submitted.mpr (.inr (.inr (h.finished hr))))
    rw [submit_requests_ne maxTokens promptIds stream hne]
    exact h.terminatedByProbe r hr
  · intro t rid _ h _
    refine ⟨h.totalAdmitted, h.totalPreemptions, h.finished, ?_⟩
    intro r hr
    obtain ⟨f, hf⟩ := cancel_requests t rid r
    rw [hf]
    exact h.terminatedByProbe r hr

/-- Finished requests stay, and so do their flags. -/
theorem Batcher.Before.metrics (hs : SysInv cfg s) (hcs : Counted s) (hct : Counted t)
    (h : s.Before t) (cuda cuda' : Option Cuda) :
    (PGI.metrics cfg cuda s).Before (PGI.metrics cfg cuda' t) := by
  have hsub : s.finished.Subperm t.finished := hs.finished_nodup.subperm h.finished
  refine ⟨h.totalAdmitted, ?_, ?_, h.totalPreemptions⟩
  · show s.totalFinished ≤ t.totalFinished
    rw [hcs.totalFinished, hct.totalFinished]
    exact hsub.length_le
  · show s.totalProbeTerminated ≤ t.totalProbeTerminated
    rw [hcs.totalProbeTerminated, hct.totalProbeTerminated]
    calc s.finished.countP (fun r => (s.requests r).terminatedByProbe)
        = s.finished.countP (fun r => (t.requests r).terminatedByProbe) := by
          apply List.countP_congr
          intro r hr
          rw [h.terminatedByProbe r hr]
      _ ≤ t.finished.countP (fun r => (t.requests r).terminatedByProbe) := hsub.countP_le _

/-- A request with priority 1 under another strategy than `probe_deprioritize` there is not. -/
theorem SysInv.normal (hs : SysInv cfg s) (hstrategy : cfg.strategy ≠ .probeDeprioritize) {r : Nat}
    (hr : r ∈ s.submitted) : s.priority r = 0 := by
  apply (hs.priority hr).resolve_right
  intro h
  exact hstrategy h.2

end Counters

section Metrics
variable {model : LanguageModel Col} {tokenizer : ChatTokenizer} {strategy : RoutingStrategy}
  {file : Option Bundle} {settings : Settings} {runtime : Runtime} {cfg : Config Col} {firstId : Nat}
  {calls more : List Call} {s t : Batcher Col}

theorem metrics_of_run [Zero Col] (hstart : Started model tokenizer.toTokenizer strategy file settings cfg)
    (h : serve tokenizer settings cfg firstId calls = .ok s) (cuda : Option Cuda) :
    (metrics cfg cuda s).Sound strategy settings (posts calls).length := by
  have hs := runEvents_inv h
  have hbooks := runEvents_accounted h
  have hcounted := runEvents_counted h
  have hreceived := serve_submitted h
  have hpartition := hs.partition.length_eq
  rw [List.length_append, List.length_append, hreceived] at hpartition
  refine ⟨?_, hbooks.balance, ?_, ?_, ?_, ?_, ?_, ?_⟩
  · show s.pending.length + s.active.length + s.totalFinished = _
    rw [hcounted.totalFinished]
    omega
  · rw [← hstart.maxBatchSize]
    exact hs.batch
  · calc (s.active.map s.priority).countP (· = 1)
        ≤ (s.active.map s.priority).length := List.countP_le_length
      _ = s.active.length := List.length_map ..
  · rw [← hreceived, ← hstart.maxBatchSize]
    exact runEvents_preemptions_le h
  · show s.totalProbeTerminated ≤ s.totalFinished
    rw [hcounted.totalFinished, hcounted.totalProbeTerminated]
    exact List.countP_le_length
  · intro hne
    rw [← hstart.ofStrategy] at hne
    refine ⟨?_, runEvents_unpreempted hne h⟩
    show (s.active.map s.priority).countP (· = 1) = 0
    rw [List.countP_eq_zero]
    intro p hp
    obtain ⟨r, hr, rfl⟩ := List.mem_map.mp hp
    rw [hs.normal hne (hs.mem_submitted.mpr (.inr (.inl hr)))]
    decide
  · intro hne
    rw [← hstart.ofStrategy] at hne
    show s.totalProbeTerminated = 0
    rw [hcounted.totalProbeTerminated, List.countP_eq_zero]
    intro r hr hterm
    exact hne ((hs.lifeInv (hs.mem_submitted.mpr (.inr (.inr hr)))).terminated hterm).2

/-- **What the metrics say.** At any moment of a server that has started, as long as no tick
    has raised, whatever it has been sent: every post is queued, active or finished; every
    admission has led to an active or finished request or to a preemption; only the active
    strategy's counter moves; no more are preempted than have been posted beyond the batch
    size. `/health` shows the same counters. No counter ever goes back. And once nothing is
    queued or active, nobody waits for a result. -/
theorem metrics_sound [Zero Col]
    (hstart : startup model tokenizer.toTokenizer strategy file settings runtime = .ok cfg)
    (h : serve tokenizer settings cfg firstId calls = .ok s)
    (hlater : serve tokenizer settings cfg firstId (calls ++ more) = .ok t)
    (cuda cuda' : Option Cuda) :
    (metrics cfg cuda s).Sound strategy settings (posts calls).length ∧
      health cfg s = (metrics cfg cuda s).toHealth ∧
      (metrics cfg cuda s).Before (metrics cfg cuda' t) ∧
      ((metrics cfg cuda s).queued = 0 → (metrics cfg cuda s).activeSequences = 0 →
        ∀ i < (posts calls).length, (s.requests (firstId + i)).result.done = true) := by
  have hs := runEvents_inv h
  refine ⟨metrics_of_run (startup_started hstart) h cuda, health_eq cfg cuda s, ?_, ?_⟩
  · unfold serve at hlater
    rw [List.map_append] at hlater
    obtain ⟨u, hu, hmore⟩ := Runs.run_append_ok.mp hlater
    obtain rfl : u = s := Except.ok.inj (hu.symm.trans h)
    obtain ⟨-, hbefore⟩ := run_before hs hmore
    rw [← List.map_append] at hlater
    exact hbefore.metrics hs (runEvents_counted h) (runEvents_counted hlater) cuda cuda'
  · intro hqueued hactive i hi
    have hnum := runEvents_numbered h
    have hmem : firstId + i ∈ s.submitted := by
      rw [← serve_submitted h, hnum.submitted, List.length_range'] at hi
      rw [hnum.submitted, List.mem_range']
      exact ⟨i, hi, by omega⟩
    have hfin : firstId + i ∈ s.finished := by
      rcases hs.mem_submitted.mp hmem with hr | hr | hr
      · exact absurd (List.length_pos_of_mem hr) hqueued.not_gt
      · exact absurd (List.length_pos_of_mem hr) hactive.not_gt
      · exact hr
    rcases (hs.life _ hmem).answered.done (hs.loc_finished hfin) with hr | hr
    · rw [Batcher.view_req] at hr
      rw [hr]
      rfl
    · rw [Batcher.view_req] at hr
      rw [hr]
      rfl

end Metrics

/-! What a caller gets. -/

section Alone
variable {cfg base : Config Col} {hm : cfg.model.RowLocal} (hmB : base.model.RowLocal) {rid : Nat}
  {v : View Col}

/-- The two generate alike alone. -/
structure SameAlone (hm : cfg.model.RowLocal) (hmB : base.model.RowLocal) : Prop where
  ids : ∀ promptIds k, (soloAt hm promptIds k).ids = (soloAt hmB promptIds k).ids
  ended : ∀ maxTokens ids, cfg.soloEnded maxTokens ids = base.soloEnded maxTokens ids

/-- The tokens of a request are at all times the beginning of what it gets alone, and all of
    it when it has finished and the probe has not stopped it. -/
theorem SameAlone.of_life (hsame : SameAlone hm hmB) (h : LifeReach cfg rid v) :
    ∃ full, solo base v.req.promptIds v.req.maxTokens = .ok full ∧ v.req.generatedIds <+: full ∧
      (v.loc = .finished → v.req.terminatedByProbe = false → v.req.generatedIds = full) := by
  obtain ⟨last, hsolo, hends⟩ := solo_ends hmB v.req.promptIds v.req.maxTokens
  refine ⟨_, hsolo, ?_⟩
  have htokens : ∀ k, Matches hm v k → v.req.generatedIds = (soloAt hmB v.req.promptIds k).ids :=
    fun k hmatch => hmatch.tokens.trans (hsame.ids _ _)
  have hle : ∀ k, Matches hm v k → k ≤ last := by
    intro k hmatch
    by_contra hlt
    have hearly := hmatch.first last (by omega)
    rw [hsame.ids, hsame.ended, hends.ended] at hearly
    cases hearly
  have honSolo := h.onSolo hm
  cases hloc : v.loc with
  | pending =>
    obtain ⟨-, -, hnone, -⟩ := h.inv.waiting hloc
    rw [hnone]
    exact ⟨List.nil_prefix, fun hc => by cases hc⟩
  | active =>
    obtain ⟨k, hmatch, -⟩ := honSolo.running hloc
    rw [htokens k hmatch]
    have hbegins := soloAt_prefix hmB v.req.promptIds (hle k hmatch)
    exact ⟨hbegins, fun hc => by cases hc⟩
  | finished =>
    obtain ⟨k, hmatch, hend⟩ := honSolo.done hloc
    rw [htokens k hmatch]
    have hbegins := soloAt_prefix hmB v.req.promptIds (hle k hmatch)
    refine ⟨hbegins, ?_⟩
    intro _ hterm
    have hlast : last ≤ k := by
      by_contra hlt
      have hearly := hends.first k (by omega)
      rw [← hsame.ids, ← hsame.ended, hend hterm] at hearly
      cases hearly
    rw [le_antisymm (hle k hmatch) hlast]

/-- Without preemptions, a stream is never started again. -/
theorem LifeReach.unpreempted (hstrategy : cfg.strategy ≠ .probeDeprioritize)
    (h : LifeReach cfg rid v) : v.everPreempted = false := by
  refine h.keep_moves (P := fun v => v.everPreempted = false) ?_ ?_ ?_ ?_ ?_ ?_
  · exact fun _ _ _ => rfl
  · exact fun _ h => h
  · intro v waiting out _ h _
    rw [View.everPreempted_prefill, h]
  · intro v cols _ _ row answer _ h _ _ _ _
    rw [View.everPreempted_advance, h]
  · intro v hinv _ _ hone
    rcases hinv.priority with hzero | ⟨-, hdeprioritize⟩
    · rw [hone] at hzero
      cases hzero
    · exact absurd hdeprioritize hstrategy
  · intro v time h _
    rw [View.everPreempted_finish, h]

end Alone

section Alike
variable {model : LanguageModel Col} {tokenizer : Tokenizer} {strategy : RoutingStrategy}
  {file : Option Bundle} {settings : Settings} {runtime : Runtime} {cfg : Config Col}

/-- A server under any strategy generates alone what a baseline server with the same model
    and settings does, which always starts. -/
theorem Started.sameAlone (hm : model.unhooked.RowLocal) (hlooks : model.HooksLook)
    (hstart : Started model tokenizer strategy file settings cfg) (runtime : Runtime) :
    ∃ base, startup model tokenizer .baseline file settings runtime = .ok base ∧
      ∃ (hmC : cfg.model.RowLocal) (hmB : base.model.RowLocal), SameAlone hmC hmB := by
  obtain ⟨base, hbase⟩ : ∃ base, startup model tokenizer .baseline file settings runtime = .ok base :=
    ⟨_, rfl⟩
  have hstartB := startup_started hbase
  obtain ⟨probe, -, -, hcaptured⟩ := hstart.probe
  obtain ⟨probeB, -, -, hcapturedB⟩ := hstartB.probe
  obtain ⟨hmC, hidsC⟩ := captured_rowLocal hm hlooks hcaptured
  obtain ⟨hmB, hidsB⟩ := captured_rowLocal hm hlooks hcapturedB
  refine ⟨base, hbase, hmC, hmB, ?_, ?_⟩
  · intro promptIds k
    rw [hidsC, hidsB]
  · intro maxTokens ids
    unfold Config.soloEnded
    rw [hstart.ofTokenizer, hstartB.ofTokenizer, hstart.maxTokensCap, hstartB.maxTokensCap]

end Alike

/-- An answer of `/generate` to a prompt for which the model alone generates `full`. -/
structure GenerateResponse.Serves (strategy : RoutingStrategy) (tokenizer : Tokenizer)
    (settings : Settings) (full : List Nat) (resp : GenerateResponse) : Prop where
  whole : resp.finishReason ≠ some .probeTerminated → resp.text = tokenizer.decode full ∧
    resp.finishReason =
      some (if full.getLast? = some tokenizer.eosTokenId then .eos else .maxTokens)
  stopped : resp.finishReason = some .probeTerminated → strategy = .probeTerminate ∧
    resp.routingLabel = some .divergent ∧
    (∃ confidence, resp.routingConfidence = some confidence ∧
      settings.terminateConfidenceThreshold < confidence) ∧
    ∃ ids, ids <+: full ∧ (ids.length : Int) = max 2 settings.checkpointPosition ∧
      resp.text = tokenizer.decode ids
  unrouted : strategy = .baseline → resp.routingLabel = none ∧ resp.routingConfidence = none

section Answers
variable {model : LanguageModel Col} {tokenizer : ChatTokenizer} {strategy : RoutingStrategy}
  {file : Option Bundle} {settings : Settings} {runtime : Runtime} {cfg : Config Col} {firstId : Nat}
  {calls : List Call} {s : Batcher Col} {r : Nat}

/-- No request may get more than the settings allow, though one token at least. -/
theorem Started.largest_le (hstart : Started model tokenizer.toTokenizer strategy file settings cfg)
    (limits : List Int) : cfg.largest limits ≤ (max 1 settings.maxNewTokens).toNat := by
  induction limits with
  | nil => exact Nat.zero_le _
  | cons m limits ih =>
    apply max_le _ ih
    unfold Config.limit
    rw [hstart.maxTokensCap]
    omega

/-- The request of a post: its number, and what it asks for. -/
theorem serve_posted [Zero Col] {before after : List Call} {c : Call} {req : GenerateRequest}
    {stream : Bool} (hpost : c.event tokenizer settings =
      .submit (req.limit settings) (req.promptIds tokenizer) stream)
    (h : serve tokenizer settings cfg firstId (before ++ c :: after) = .ok s) :
    firstId + (posts before).length ∈ s.submitted ∧
      (s.requests (firstId + (posts before).length)).maxTokens = req.limit settings ∧
      (s.requests (firstId + (posts before).length)).promptIds = req.promptIds tokenizer ∧
      (s.requests (firstId + (posts before).length)).stream = stream := by
  have hnum := runEvents_numbered h
  have hlength : (workloadOf (before.map (Call.event tokenizer settings))).length =
      (posts before).length := by
    rw [workloadOf_calls, List.length_map]
  have hworkload : workloadOf ((before ++ c :: after).map (Call.event tokenizer settings)) =
      workloadOf (before.map (Call.event tokenizer settings)) ++
        (req.limit settings, req.promptIds tokenizer, stream) ::
          workloadOf (after.map (Call.event tokenizer settings)) := by
    rw [List.map_append, List.map_cons, hpost]
    exact List.filterMap_append
  rw [hworkload] at hnum
  have hasks := hnum.asks (posts before).length (req.limit settings, req.promptIds tokenizer, stream)
    (by rw [← hlength, List.getElem?_append_right (le_refl _), Nat.sub_self, List.getElem?_cons_zero])
  simp only [GenerationRequest.asks, Prod.mk.injEq] at hasks
  refine ⟨?_, hasks⟩
  rw [hnum.submitted, List.mem_range']
  refine ⟨(posts before).length, ?_, by omega⟩
  rw [List.length_append, List.length_cons, hlength]
  omega

/-- Enough ticks after its post a request has finished, or the probe has deprioritized it. -/
theorem serve_settled [Zero Col] (hstart : Started model tokenizer.toTokenizer strategy file settings cfg)
    (hB : 1 ≤ settings.maxBatchSize) {before after : List Call} {c : Call} {req : GenerateRequest}
    {stream : Bool} (hpost : c.event tokenizer settings =
      .submit (req.limit settings) (req.promptIds tokenizer) stream)
    (h : serve tokenizer settings cfg firstId (before ++ c :: after) = .ok s)
    (hticks : 2 * ((posts before).length + 1) * (max 1 settings.maxNewTokens).toNat ≤
      after.count .tick) :
    firstId + (posts before).length ∈ s.finished ∨ (strategy = .probeDeprioritize ∧
      (s.requests (firstId + (posts before).length)).priority = 1) := by
  unfold serve at h
  rw [List.map_append, List.map_cons, hpost] at h
  rw [← hstart.maxBatchSize] at hB
  have hlength : (arrivals (before.map (Call.event tokenizer settings))).length =
      (posts before).length := by
    rw [arrivals_calls, List.length_map]
  have hcount : after.count .tick ≤ (after.map (Call.event tokenizer settings)).count .tick :=
    List.count_le_count_map (f := Call.event tokenizer settings) (x := .tick)
  have hsettled := runEvents_settled hB h (by
    rw [hlength]
    calc _ ≤ 2 * ((posts before).length + 1) * (max 1 settings.maxNewTokens).toNat :=
          Nat.mul_le_mul_left _ (hstart.largest_le _)
      _ ≤ after.count .tick := hticks
      _ ≤ (after.map (Call.event tokenizer settings)).count .tick := hcount)
  rw [hlength, hstart.ofStrategy] at hsettled
  exact hsettled

/-- The events of a stream that has these tokens on its queue, and perhaps the end mark. -/
theorem tokenGenerator_tokens (tokenizer : Tokenizer) (startTime now : ℚ) (ids : List Nat) (loc : Loc) :
    tokenGenerator tokenizer startTime now (ids.map some ++ endMark loc) =
      (if ids = [] then [] else [.ttftMs (round2 ((now - startTime) * 1000))]) ++
        ids.map (fun id => .token (tokenizer.decode [id])) ++
        if loc = .finished then [.done] else [] := by
  have hrest : ∀ ids : List Nat, generatorLoop tokenizer startTime now true
      (ids.map some ++ endMark loc) = ids.map (fun id => .token (tokenizer.decode [id])) ++
        if loc = .finished then [.done] else [] := by
    intro ids
    induction ids with
    | nil => cases loc <;> rfl
    | cons id ids ih => exact congrArg (StreamEvent.token (tokenizer.decode [id]) :: ·) ih
  cases ids with
  | nil => cases loc <;> rfl
  | cons id ids =>
    show StreamEvent.ttftMs _ :: StreamEvent.token (tokenizer.decode [id]) ::
      generatorLoop tokenizer startTime now true (ids.map some ++ endMark loc) = _
    rw [hrest ids]
    rfl

/-- **What `/stream` sends.** For a row-local model and hooks that only look, on a server that
    has started under baseline or `probe_terminate`, at any moment before a tick has raised
    and whatever else it is sent: the events are the time to the first token, each token
    that the model alone generates for the prompt, decoded by itself, as far as it has come,
    and once the request has finished a single `[DONE]`. Then all tokens have been sent, or
    the probe has stopped the request at its checkpoint; and with at least one place it has
    finished `2 * N * L` ticks after the post, where `N` posts have come up to it and `L`
    tokens are allowed. -/
theorem stream_answers [Zero Col] (hm : model.unhooked.RowLocal) (hlooks : model.HooksLook)
    (hstart : startup model tokenizer.toTokenizer strategy file settings runtime = .ok cfg)
    (hstrategy : strategy ≠ .probeDeprioritize) {before after : List Call} {req : GenerateRequest}
    (h : serve tokenizer settings cfg firstId (before ++ .streamGenerate req :: after) = .ok s)
    (startTime now : ℚ) :
    ∃ base full ids queue,
      startup model tokenizer.toTokenizer .baseline file settings runtime = .ok base ∧
      solo base (req.promptIds tokenizer) (req.limit settings) = .ok full ∧ ids <+: full ∧
      (s.requests (firstId + (posts before).length)).tokenQueue = some queue ∧
      tokenGenerator tokenizer.toTokenizer startTime now queue =
        (if ids = [] then [] else [.ttftMs (round2 ((now - startTime) * 1000))]) ++
          ids.map (fun id => .token (tokenizer.decode [id])) ++
          (if firstId + (posts before).length ∈ s.finished then [.done] else []) ∧
      (firstId + (posts before).length ∈ s.finished → ids ≠ [] ∧ (ids = full ∨
        (strategy = .probeTerminate ∧ (ids.length : Int) = max 2 settings.checkpointPosition))) ∧
      (1 ≤ settings.maxBatchSize →
        2 * ((posts before).length + 1) * (max 1 settings.maxNewTokens).toNat ≤ after.count .tick →
        firstId + (posts before).length ∈ s.finished) := by
  have hstarted := startup_started hstart
  have hs := runEvents_inv h
  have hpost : (Call.streamGenerate req).event tokenizer settings =
      .submit (req.limit settings) (req.promptIds tokenizer) true := rfl
  obtain ⟨hsub, hmax, hprompt, hstream⟩ := serve_posted hpost h
  obtain ⟨base, hbase, hmC, hmB, hsame⟩ := hstarted.sameAlone hm hlooks runtime
  have hlife := hs.life _ hsub
  obtain ⟨full, hfull, hbegins, hwhole⟩ := hsame.of_life hmB hlife
  rw [Batcher.view_req, hmax, hprompt] at hfull
  have hnever : cfg.strategy ≠ .probeDeprioritize := by
    rw [hstarted.ofStrategy]
    exact hstrategy
  have hqueue : (s.requests (firstId + (posts before).length)).tokenQueue = some _ :=
    (hlife.faithful_iff hstream).mpr (hlife.unpreempted hnever)
  have hplace : (s.view (firstId + (posts before).length)).loc = .finished ↔
      firstId + (posts before).length ∈ s.finished := ⟨mem_finished_of_loc, hs.loc_finished⟩
  refine ⟨base, full, (s.requests (firstId + (posts before).length)).generatedIds, _, hbase, hfull,
    hbegins, hqueue, ?_, ?_, ?_⟩
  · rw [tokenGenerator_tokens]
    simp only [hplace]
    rfl
  · intro hfin
    have hloc := hs.loc_finished hfin
    refine ⟨(hlife.inv.done hloc).2.2, ?_⟩
    cases hterm : (s.requests (firstId + (posts before).length)).terminatedByProbe with
    | false => exact .inl (hwhole hloc hterm)
    | true =>
      obtain ⟨hterminate, htokens, -⟩ := hstarted.stopped hs hsub hterm
      exact .inr ⟨hterminate, htokens⟩
  · intro hB hticks
    apply (serve_settled hstarted hB hpost h hticks).resolve_right
    intro hdeprioritized
    exact hstrategy hdeprioritized.1

end Answers

/-! A server to ask. -/

/-- The settings of the counting benchmark, for requests of at most three tokens. -/
def countingSettings : Settings :=
  { countingBenchmark.settings.toSettings with maxBatchSize := 1, maxNewTokens := 3 }

/-- Somebody posts between any two ticks. -/
def busy : List Call :=
  (List.replicate 12 [.generate ⟨"second", none⟩, .streamGenerate ⟨"first", some 1⟩, .tick]).flatten

theorem countingServer (strategy : RoutingStrategy) :
    ∃ cfg, startup countingModel countingBenchmark.tokenizer.toTokenizer strategy
      (some divergentBundle) countingSettings listOrder = .ok cfg ∧ cfg.Serves :=
  countingBenchmark_serves strategy

theorem metrics_sound_counting : ∃ (cfg : Config TokenColumn) (s t : Batcher TokenColumn),
    serve countingBenchmark.tokenizer countingSettings cfg 1 busy = .ok s ∧
    serve countingBenchmark.tokenizer countingSettings cfg 1 (busy ++ [.tick, .cancel 3]) = .ok t ∧
    (metrics cfg none s).Sound .probeDeprioritize countingSettings (posts busy).length ∧
      health cfg s = (metrics cfg none s).toHealth ∧
      (metrics cfg none s).Before (metrics cfg (some ⟨7, 9⟩) t) ∧
      ((metrics cfg none s).queued = 0 → (metrics cfg none s).activeSequences = 0 →
        ∀ i < (posts busy).length, (s.requests (1 + i)).result.done = true) := by
  obtain ⟨cfg, hcfg, hserves⟩ := countingServer .probeDeprioritize
  obtain ⟨s, hs⟩ := hserves.serve countingBenchmark.tokenizer countingSettings 1 busy
  obtain ⟨t, ht⟩ := hserves.serve countingBenchmark.tokenizer countingSettings 1
    (busy ++ [.tick, .cancel 3])
  exact ⟨cfg, s, t, hs, ht, metrics_sound hcfg hs ht none (some ⟨7, 9⟩)⟩

theorem stream_answers_counting : ∃ (cfg : Config TokenColumn) (s : Batcher TokenColumn)
    (base : Config TokenColumn) (full ids : List Nat) (queue : List (Option Nat)),
    serve countingBenchmark.tokenizer countingSettings cfg 1
      ([.tick] ++ .streamGenerate ⟨"first", some 2⟩ :: busy) = .ok s ∧
    startup countingModel countingBenchmark.tokenizer.toTokenizer .baseline (some divergentBundle)
      countingSettings listOrder = .ok base ∧
    solo base [1] 2 = .ok full ∧ ids <+: full ∧ (s.requests (1 + 0)).tokenQueue = some queue ∧
    tokenGenerator countingBenchmark.tokenizer.toTokenizer 0 1 queue =
      (if ids = [] then [] else [.ttftMs (round2 ((1 - 0) * 1000))]) ++
        ids.map (fun id => .token (countingBenchmark.tokenizer.decode [id])) ++
        (if 1 + 0 ∈ s.finished then [.done] else []) ∧
    (1 + 0 ∈ s.finished → ids ≠ [] ∧ (ids = full ∨
      (RoutingStrategy.probeTerminate = .probeTerminate ∧
        (ids.length : Int) = max 2 countingSettings.checkpointPosition))) ∧
    (1 ≤ countingSettings.maxBatchSize →
      2 * (0 + 1) * (max 1 countingSettings.maxNewTokens).toNat ≤ busy.count .tick →
      1 + 0 ∈ s.finished) := by
  obtain ⟨cfg, hcfg, hserves⟩ := countingServer .probeTerminate
  obtain ⟨s, hs⟩ := hserves.serve countingBenchmark.tokenizer countingSettings 1
    ([.tick] ++ .streamGenerate ⟨"first", some 2⟩ :: busy)
  obtain ⟨base, full, ids, queue, hrest⟩ := stream_answers countingModel_rowLocal
    countingModel_hooksLook hcfg (by decide) hs 0 1
  exact ⟨cfg, s, base, full, ids, queue, hs, hrest⟩

end PGI
