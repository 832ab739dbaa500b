import ProbeGuidedInference.EvalRecords
import ProbeGuidedInference.Twins

/- What is reproducible. Two batchers that are given the same submissions, cancellations
   and turns stay twins, through every decode step and every exception, whatever their
   clocks show and in whatever order they iterate a set (`runs_twinned`). Nor does it
   matter whether callers cancel what they wait for, but to what they are told
   (`cancellations_unseen`). Two invocations of the benchmark on the same model, probe and
   samples therefore differ in nothing but the times they report. -/
namespace PGI
open Fallible Lockstep

variable {Col : Type}

/-! The decode step. -/

section Decode
variable {answers : Nat → Bool} {cfg : Config Col} {runtime : Runtime} {s t : Batcher Col}

theorem classifyRow_twinned (h : Twin answers s t) (hidden : Option (List CapturedRow)) (rid i : Nat) :
    Twinned answers (classifyRow cfg hidden s rid i) (classifyRow (cfg.on runtime) hidden t rid i) := by
  have hgate : (cfg.on runtime).gate = cfg.gate := rfl
  have hdecision : (s.requests rid).routingDecision = (t.requests rid).routingDecision :=
    field_seen (k := GenerationRequest.routingDecision) (fun _ => rfl) (h.requests rid)
  unfold classifyRow
  rw [hgate]
  cases cfg.gate with
  | none => exact .ok h
  | some gate =>
    simp only
    rw [hdecision, h.nGenerated, h.classifies]
    split
    · apply (h.raising _).bind
      intro row _ _ _ heq
      subst heq
      have hcalled : Twin answers { s with classifies := t.classifies + 1 }
          { t with classifies := t.classifies + 1 } := { h with classifies := rfl }
      apply (hcalled.raising _).bind
      intro d _ _ _ heq
      subst heq
      have hwritten := hcalled.modify rid (f := (·.classified d (cfg.time s.clock)))
        (g := (·.classified d (runtime.time t.clock))) (k := (·.classified d 0))
        (fun _ => rfl) (fun _ => rfl)
      have hlogged := hwritten.record (e := .classify rid (t.requests rid).nGenerated row d) rfl
      exact .ok { hlogged with clock := congrArg (· + 1) h.clock }
    · exact .ok h

theorem decodeLoop_twinned (nextIds : List Nat) (hidden : Option (List CapturedRow)) :
    ∀ (pairs : List (Nat × Nat)) {s t : Batcher Col}, Twin answers s t →
    TwinnedWith answers (decodeLoop cfg nextIds hidden pairs s)
      (decodeLoop (cfg.on runtime) nextIds hidden pairs t) := by
  intro pairs
  induction pairs with
  | nil => exact fun h => .ok ⟨rfl, h⟩
  | cons p rest ih =>
    intro s t h
    obtain ⟨rid, i⟩ := p
    rw [decodeLoop, decodeLoop]
    apply (h.raising (index nextIds i)).bind
    intro nid _ _ _ heq
    subst heq
    have happended := (h.mutate rid (·.appended nid) (fun _ => rfl)).record
      (e := .decode rid nid) rfl
    apply (classifyRow_twinned happended hidden rid i).bind
    intro u v _ _ huv
    have hended : cfg.ended nid (u.requests rid) = (cfg.on runtime).ended nid (v.requests rid) :=
      huv.ended nid rid
    rw [hended]
    split
    · apply (ih (huv.setReason nid rid)).bind
      intro p q _ _ hpq
      obtain ⟨ids, u⟩ := p
      obtain ⟨_, v⟩ := q
      obtain ⟨rfl, huv⟩ := hpq
      exact .ok ⟨rfl, huv⟩
    · exact ih huv

theorem afterForward_twinned (h : Twin answers s t) (seqIds : List Nat) (inp : DecodeInput Col) (maxLen : Nat)
    (rows : List (ForwardRow Col cfg.model.nLayers)) :
    TwinnedWith answers (afterForward cfg seqIds inp maxLen rows s)
      (afterForward (cfg.on runtime) seqIds inp maxLen rows t) := by
  have hhook : Twin answers (s.hook cfg (capturedRows seqIds inp rows))
      (t.hook (cfg.on runtime) (capturedRows (L := (cfg.on runtime).model.nLayers) seqIds inp rows)) :=
    hook_twin cfg runtime h _
  unfold afterForward
  generalize s.hook cfg (capturedRows seqIds inp rows) = u at hhook
  generalize t.hook (cfg.on runtime) _ = v at hhook
  have hscatter : Alike (Raised (Twin answers)) Eq
      ((u.cache.scatterUpdatedBatch seqIds (inp.updatedCache rows) maxLen).mapError
        (fun e => (e.1, { u with cache := e.2 })))
      ((v.cache.scatterUpdatedBatch seqIds (inp.updatedCache rows) maxLen).mapError
        (fun e => (e.1, { v with cache := e.2 }))) := by
    rw [hhook.cache]
    cases v.cache.scatterUpdatedBatch seqIds (inp.updatedCache rows) maxLen with
    | ok cache => exact .ok rfl
    | error e => exact .error ⟨rfl, { hhook with cache := rfl }⟩
  apply hscatter.bind
  intro cache _ _ _ heq
  subst heq
  have hhidden : (if cfg.gate.isSome then u.captureLast else none) =
      if cfg.gate.isSome then v.captureLast else none := by rw [hhook.captureLast]
  have hcached : Twin answers { u with cache := cache } { v with cache := cache } := { hhook with cache := rfl }
  show TwinnedWith answers (decodeLoop cfg _ (if cfg.gate.isSome then u.captureLast else none) _ _) _
  rw [hhidden]
  exact decodeLoop_twinned _ _ _ hcached

theorem runDecodeStep_twinned [Zero Col] (h : Twin answers s t) (seqIds : List Nat) :
    TwinnedWith answers (runDecodeStep cfg s seqIds) (runDecodeStep (cfg.on runtime) t seqIds) := by
  have hlast : (fun rid => lastOf (s.requests rid).generatedIds) =
      fun rid => lastOf (t.requests rid).generatedIds :=
    funext fun rid => field_seen (k := fun q => lastOf q.generatedIds) (fun _ => rfl)
      (h.requests rid)
  unfold runDecodeStep
  simp only
  rw [hlast, h.cache, h.forwards]
  apply (h.raising _).bind
  intro nextTokens _ _ _ heq
  subst heq
  apply (h.raising _).bind
  intro batch _ _ _ heq
  subst heq
  have hforwards : Twin answers { s with cache := t.cache, forwards := t.forwards + 1 }
      { t with forwards := t.forwards + 1 } := { h with cache := rfl, forwards := rfl }
  apply (hforwards.raising _).bind
  intro out _ _ _ heq
  subst heq
  exact afterForward_twinned hforwards seqIds _ _ out.val

end Decode

/-! Route and evict. -/

section Route
variable {answers : Nat → Bool} {cfg : Config Col} {runtime : Runtime} {s t : Batcher Col}

theorem routedBy_seen (cfg : Config Col) (told : Bool) (q : GenerationRequest) :
    (q.routedBy cfg).seen told = (q.seen told).routedBy cfg := by
  have hdecision : (q.seen told).routingDecision = q.routingDecision := rfl
  unfold GenerationRequest.routedBy
  simp only [hdecision]
  cases q.routingDecision with
  | none => rfl
  | some d =>
    simp only
    split
    · rfl
    · cases cfg.strategy with
      | baseline => rfl
      | probeDeprioritize => rfl
      | probeTerminate =>
        simp only
        split
        · rfl
        · rfl

theorem routeLoop_twinned : ∀ (ids : List Nat) {s t : Batcher Col}, Twin answers s t →
    (routeLoop cfg ids s).1 = (routeLoop (cfg.on runtime) ids t).1 ∧
      Twin answers (routeLoop cfg ids s).2 (routeLoop (cfg.on runtime) ids t).2 := by
  intro ids
  induction ids with
  | nil => exact fun h => ⟨rfl, h⟩
  | cons rid rest ih =>
    intro s t h
    have hterminated : (s.requests rid).terminatedBy cfg =
        (t.requests rid).terminatedBy (cfg.on runtime) :=
      field_seen (k := (·.terminatedBy cfg)) (fun _ => rfl) (h.requests rid)
    obtain ⟨hids, htwin⟩ := ih (h.mutate rid (·.routedBy cfg) (routedBy_seen cfg _))
    refine ⟨?_, htwin⟩
    rw [routeLoop, routeLoop]
    simp only [hterminated]
    split
    · exact congrArg (rid :: ·) hids
    · exact hids

theorem applyRouting_twinned (h : Twin answers s t) :
    (applyRouting cfg s).1 = (applyRouting (cfg.on runtime) t).1 ∧
      Twin answers (applyRouting cfg s).2 (applyRouting (cfg.on runtime) t).2 := by
  have hgate : (cfg.on runtime).gate = cfg.gate := rfl
  have hnew : (fun rid => (s.requests rid).routingDecision.isSome && !(s.requests rid).routed) =
      fun rid => (t.requests rid).routingDecision.isSome && !(t.requests rid).routed :=
    funext fun rid => field_seen (k := fun q => q.routingDecision.isSome && !q.routed)
      (fun _ => rfl) (h.requests rid)
  unfold applyRouting
  rw [hgate, h.active, hnew]
  split
  · exact ⟨rfl, h⟩
  · exact routeLoop_twinned _ h

/-- The requests that leave are the same, in two orders. -/
theorem decodePhase_twinned [Zero Col] (hs : SysInv cfg s) (hne : s.active ≠ []) (h : Twin answers s t) :
    Twinned answers (decodePhase cfg s) (decodePhase (cfg.on runtime) t) := by
  obtain ⟨g, hfed⟩ := hs.fed
  unfold decodePhase
  rw [← h.active]
  apply (runDecodeStep_twinned h s.active).bind
  intro p q hrun _ hpq
  obtain ⟨finishedIds, u⟩ := p
  obtain ⟨_, v⟩ := q
  obtain ⟨rfl, huv⟩ := hpq
  have hlooped := runDecodeStep_spec hfed hne hs.active_nodup hrun
  obtain ⟨hids, htwin⟩ : (applyRouting cfg u).1 = (applyRouting (cfg.on runtime) v).1 ∧
      Twin answers (applyRouting cfg u).2 (applyRouting (cfg.on runtime) v).2 := applyRouting_twinned huv
  obtain ⟨hkept, -⟩ := applyRouting_spec cfg u (by rw [hlooped.kept.active]; exact hs.active_nodup)
  obtain ⟨hnd, hsub, -⟩ := setOrder_spec hs.active_nodup hlooped
  have hactive : (applyRouting cfg u).2.active = s.active := hkept.active.trans hlooped.kept.active
  have hperm : (runtime.setOrder (finishedIds ++ (applyRouting (cfg.on runtime) v).1)).Perm
      (cfg.setOrder (finishedIds ++ (applyRouting cfg u).1)) := by
    rw [← hids]
    exact (runtime.setOrder_perm _).trans (cfg.setOrder_perm _).symm
  exact finishAll_twinned htwin hperm hnd (hactive ▸ hsub) (hactive ▸ hs.active_nodup)

end Route

/-! Whole runs. -/

section Runs
variable [Zero Col] {answers : Nat → Bool} {cfg : Config Col} {runtime : Runtime} {s t : Batcher Col}

theorem tick_twinned (hs : SysInv cfg s) (h : Twin answers s t) :
    Twinned answers (tick cfg s) (tick (cfg.on runtime) t) := by
  unfold tick
  apply (tryAdmit_twinned h).bind
  intro u v hu _ huv
  rw [← huv.active]
  split
  · exact .ok huv
  · rename_i hne
    rw [List.isEmpty_iff] at hne
    exact decodePhase_twinned ((tryAdmit_works hs hu).inv hs) hne huv

omit [Zero Col] in
theorem submit_twin (h : Twin answers s t) (maxTokens : Int) (promptIds : List Nat) (stream : Bool) :
    Twin answers (submit maxTokens promptIds stream s) (submit maxTokens promptIds stream t) := by
  unfold submit
  rw [h.nextId]
  exact { h with
    requests := by
      intro r
      by_cases hr : r = t.nextId
      · simp [hr]
      · simpa [hr] using h.requests r
    nextId := rfl
    submitted := congrArg (· ++ [t.nextId]) h.submitted
    pending := congrArg (· ++ [t.nextId]) h.pending }

omit [Zero Col] in
theorem cancel_twin (h : Twin answers s t) (rid : Nat) :
    Twin answers (if rid ∈ s.submitted then cancel rid s else s)
      (if rid ∈ t.submitted then cancel rid t else t) := by
  rw [h.submitted]
  split
  · have hcancelled : ∀ (told : Bool) (q : GenerationRequest),
        { q with result := q.result.cancel }.seen told =
          { q.seen told with result := if told then (q.seen told).result.cancel else .pending } := by
      intro told q
      cases told with
      | true => rfl
      | false => rfl
    exact h.modify rid
      (k := fun q => { q with result := if answers rid then q.result.cancel else .pending })
      (hcancelled _) (hcancelled _)
  · exact h

omit [Zero Col] in
/-- The cancellation of a request without `answers` is not seen. -/
theorem cancel_unseen (h : Twin answers s t) {rid : Nat} (hrid : answers rid = false) :
    Twin answers (if rid ∈ s.submitted then cancel rid s else s) t := by
  split
  · have hself : Twin answers (cancel rid s) s :=
      { (twin_equivalence answers).refl s with
        requests := by
          intro r
          by_cases hr : r = rid
          · subst hr
            simp [cancel, GenerationRequest.seen, hrid]
          · simp [cancel, hr] }
    exact (twin_equivalence answers).trans hself h
  · exact h

theorem step_twinned (hs : SysInv cfg s) (h : Twin answers s t) (e : Event) :
    Twinned answers (step cfg s e) (step (cfg.on runtime) t e) := by
  cases e with
  | submit maxTokens promptIds stream => exact .ok (submit_twin h maxTokens promptIds stream)
  | cancel rid => exact .ok (cancel_twin h rid)
  | tick => exact tick_twinned hs h

/-- **Runs are reproducible.** On the same events a batcher ends alike wherever it runs:
    both runs return, or both raise the same exception in the same tick, and the two
    batchers have the same queue, batch, cache and counters, and the same tokens, answers,
    routes and texts on every request. -/
theorem runs_twinned (cfg : Config Col) (runtime : Runtime) (firstId : Nat) (events : List Event) :
    Twinned allAnswers (runEvents cfg firstId events)
      (runEvents (cfg.on runtime) firstId events) := by
  apply run_alike ((twin_equivalence _).refl (Batcher.new firstId))
  intro pre e post s t _ hs _ h
  exact step_twinned (runEvents_inv hs) h e

/-! Cancellations. -/

def Event.isCancel : Event → Bool
  | .cancel _ => true
  | _ => false

omit [Zero Col] in
/-- Computations that end alike leave twins, whether they return or raise. -/
theorem Twinned.final {x y : Except (PyError × Batcher Col) (Batcher Col)}
    (h : Twinned answers x y) : Twin answers (final x) (final y) := by
  cases h with
  | ok h => exact h
  | error h => exact h.2

/-- **Cancellations are not seen.** A run ends like the one in which nobody cancels
    anything, whether it returns or raises: the same ticks admit, preempt, decode and finish
    the same requests, and the counters, the cache, the tokens, the streams and the
    exceptions are the same. So a caller who goes away frees no place in the batch, and who
    stays has got the same answer or waits as long, also when the run ends in an
    exception. -/
theorem cancellations_unseen (cfg : Config Col) (runtime : Runtime) (firstId : Nat)
    (events : List Event) :
    Twinned (fun r => .cancel r ∉ events) (runEvents cfg firstId events)
      (runEvents (cfg.on runtime) firstId (events.filter (fun e => !e.isCancel))) ∧
    ∀ r, .cancel r ∉ events →
      ((final (runEvents cfg firstId events)).requests r).result =
        ((final (runEvents (cfg.on runtime) firstId
          (events.filter (fun e => !e.isCancel)))).requests r).result := by
  have hlockstep : Twinned (fun r => .cancel r ∉ events) (runEvents cfg firstId events)
      (runEvents (cfg.on runtime) firstId (events.filter (fun e => !e.isCancel))) := by
    unfold runEvents
    rw [← Runs.run_skipping]
    apply run_alike ((twin_equivalence _).refl (Batcher.new firstId))
    intro pre e post s t hevents hs _ h
    cases e with
    | submit maxTokens promptIds stream => exact .ok (submit_twin h maxTokens promptIds stream)
    | cancel rid =>
      have hmem : Event.cancel rid ∈ events := by
        rw [hevents]
        exact List.mem_append_right pre List.mem_cons_self
      exact .ok (cancel_unseen h (decide_eq_false (not_not.mpr hmem)))
    | tick => exact tick_twinned (runEvents_inv hs) h
  refine ⟨hlockstep, ?_⟩
  intro r hnever
  exact hlockstep.final.result (decide_eq_true hnever)

end Runs

/-- The first of two requests is cancelled before its first token. -/
def firstCancelled : List Event :=
  [.submit 3 [1] false, .submit 2 [2] false, .cancel 1] ++ List.replicate 8 .tick

theorem cancellations_unseen_first : ∃ s t,
    runEvents (divergentConfig .probeDeprioritize) 1 firstCancelled = .ok s ∧
    runEvents ((divergentConfig .probeDeprioritize).on listOrder) 1
      (firstCancelled.filter (fun e => !e.isCancel)) = .ok t ∧
    Twin (fun r => .cancel r ∉ firstCancelled) s t ∧
      (s.requests 2).result = (t.requests 2).result ∧ (s.requests 2).result.done = true ∧
      (s.requests 1).result ≠ (t.requests 1).result := by
  have hrun : (runEvents (divergentConfig .probeDeprioritize) 1 firstCancelled).toOption.map
      (fun s => ((s.requests 1).result, (s.requests 2).result.done)) = some (.cancelled, true) := by
    decide
  have hrun' : (runEvents ((divergentConfig .probeDeprioritize).on listOrder) 1
      (firstCancelled.filter (fun e => !e.isCancel))).toOption.map
        (fun t => decide ((t.requests 1).result = .cancelled)) = some false := by decide
  obtain ⟨s, hs, hstate⟩ := toOption_map_eq_some.mp hrun
  obtain ⟨t, ht, hstate'⟩ := toOption_map_eq_some.mp hrun'
  obtain ⟨hcancelled, hdone⟩ := Prod.mk.inj hstate
  obtain ⟨hlockstep, hanswers⟩ := cancellations_unseen (divergentConfig .probeDeprioritize) listOrder 1
    firstCancelled
  have hsecond := hanswers 2 (by decide)
  rw [hs, ht] at hlockstep hsecond
  refine ⟨s, t, hs, ht, hlockstep.final, hsecond, hdone, ?_⟩
  intro heq
  rw [← heq, hcancelled] at hstate'
  cases hstate'

/-! The benchmark. -/

/-- The record without its times. A completion at time 0 has no latency, so that goes too. -/
def EvalRecord.timeless (r : EvalRecord) : EvalRecord :=
  { r with
    checkpointHitTime := r.checkpointHitTime.map (fun _ => 0)
    arrivalTime := 0
    completionTime := r.completionTime.map (fun _ => 0)
    latencyS := none }

def StrategyResult.timeless (res : StrategyResult) : StrategyResult :=
  { res with
    wallClockS := 0
    records := res.records.map EvalRecord.timeless }

def EvalResults.timeless (all : EvalResults) : EvalResults :=
  fun strategy => (all strategy).map StrategyResult.timeless

/-- The same strategy, whose requests get the same ids. -/
def SamePlan (p q : RoutingStrategy × Surroundings) : Prop :=
  p.1 = q.1 ∧ p.2.firstId = q.2.firstId

section Harness
variable {b : Benchmark Col} {strategy : RoutingStrategy} {around around' : Surroundings}

/-- The batcher of a run is the same elsewhere, or is refused for the same reason. -/
theorem batcher_on (b : Benchmark Col) (strategy : RoutingStrategy) (around around' : Surroundings) :
    b.batcher strategy around' = (b.batcher strategy around).map (·.on around'.runtime) := by
  unfold Benchmark.batcher startup
  cases startupProbe strategy b.file _ with
  | error e => rfl
  | ok probe =>
    rw [ok_bind, ok_bind]
    unfold continuousBatcher
    split
    · cases b.model.captured probe with
      | error e => rfl
      | ok m => rfl
    · rfl

theorem evalRecord_twin {s t : Batcher Col} (h : Twin allAnswers s t)
    (hid : around.firstId = around'.firstId) (sample : Sample) (i : Nat) :
    (evalRecord b s (around.evalRequest sample i)).timeless =
      (evalRecord b t (around'.evalRequest sample i)).timeless := by
  -- a record is read off one request object
  have hread : ∀ q : GenerationRequest,
      (evalRecord b { s with requests := fun _ => q } (around'.evalRequest sample i)).timeless =
        (evalRecord b { s with requests := fun _ => q.seen true }
          (around'.evalRequest sample i)).timeless := by
    intro q
    unfold evalRecord EvalRecord.timeless GenerationRequest.seen
    simp only [Option.map_map]
    rfl
  unfold Surroundings.evalRequest
  rw [hid]
  exact field_seen hread (h.requests (around'.firstId + i))

theorem result_twin {s t : Batcher Col} (h : Twin allAnswers s t)
    (hid : around.firstId = around'.firstId) :
    (b.result strategy around s).timeless = (b.result strategy around' t).timeless := by
  have hrecords : ((b.reqs around).map (evalRecord b s)).map EvalRecord.timeless =
      ((b.reqs around').map (evalRecord b t)).map EvalRecord.timeless := by
    unfold Benchmark.reqs
    simp only [List.map_map]
    apply List.map_congr_left
    intro p _
    exact evalRecord_twin h hid p.1 p.2
  have htokens : ((b.reqs around).map (evalRecord b s)).map EvalRecord.nGenerated =
      ((b.reqs around').map (evalRecord b t)).map EvalRecord.nGenerated := by
    have hkept : EvalRecord.nGenerated = EvalRecord.nGenerated ∘ EvalRecord.timeless := rfl
    rw [hkept, ← List.map_map, ← List.map_map, hrecords]
  have hlength : (b.reqs around).length = (b.reqs around').length := by
    simp [Benchmark.reqs]
  have hstats : s.stats = t.stats := by
    unfold Batcher.stats
    rw [h.totalAdmitted, h.totalFinished, h.totalProbeTerminated, h.totalPreemptions]
  unfold Benchmark.result StrategyResult.timeless
  simp only [hrecords, htokens, hlength, hstats]

theorem loaded_on [Zero Col] (cfg : Config Col) (b : Benchmark Col)
    (hid : around.firstId = around'.firstId) : b.loaded around = b.loaded around' := by
  have hrun := submitAll_run b around cfg b.samples 0 (Batcher.new around.firstId)
  have hrun' := submitAll_run b around' cfg b.samples 0 (Batcher.new around'.firstId)
  rw [← hid] at hrun'
  unfold Benchmark.loaded
  rw [← hid]
  exact Except.ok.inj (hrun.symm.trans hrun')

/-- Both harnesses wait on, or both see all futures done and find twins. -/
theorem gather_twinned [Zero Col] {cfg : Config Col} {runtime : Runtime} {reqs reqs' : List EvalRequest}
    (hreqs : reqs.map EvalRequest.rid = reqs'.map EvalRequest.rid) :
    ∀ (ticks : Nat) {s t : Batcher Col}, SysInv cfg s → Twin allAnswers s t →
    Option.Rel (Twin allAnswers) (gather cfg reqs ticks s) (gather (cfg.on runtime) reqs' ticks t) := by
  have hall : ∀ {s t : Batcher Col}, Twin allAnswers s t →
      reqs.all (fun req => (s.requests req.rid).result.done) =
        reqs'.all (fun req => (t.requests req.rid).result.done) := by
    intro s t h
    have hdone : (fun r => (s.requests r).result.done) = fun r => (t.requests r).result.done :=
      funext fun r => field_seen (k := fun q => q.result.done) (fun _ => rfl) (h.requests r)
    calc reqs.all (fun req => (s.requests req.rid).result.done)
        = (reqs.map EvalRequest.rid).all (fun r => (s.requests r).result.done) := by
          rw [List.all_map]; rfl
      _ = (reqs'.map EvalRequest.rid).all (fun r => (t.requests r).result.done) := by
          rw [hreqs, hdone]
      _ = reqs'.all (fun req => (t.requests req.rid).result.done) := by
          rw [List.all_map]; rfl
  intro ticks
  induction ticks with
  | zero =>
    intro s t _ h
    unfold gather
    rw [hall h]
    split
    · exact .some h
    · exact .none
  | succ ticks ih =>
    intro s t hs h
    unfold gather
    rw [hall h]
    split
    · exact .some h
    · have htick : Twinned allAnswers (tick cfg s) (tick (cfg.on runtime) t) := tick_twinned hs h
      cases hu : tick cfg s with
      | error e =>
        rw [hu] at htick
        generalize tick (cfg.on runtime) t = y at htick
        cases htick with
        | error _ => exact .none
      | ok u =>
        rw [hu] at htick
        generalize tick (cfg.on runtime) t = y at htick
        cases htick with
        | ok huv => exact ih ((tick_works hs hu).inv hs) huv

theorem runStrategy_alike [Zero Col] (ticks : Nat) (hid : around.firstId = around'.firstId) :
    Alike Eq (Option.Rel (fun res res' => res.timeless = res'.timeless))
      (runStrategy ticks b strategy around) (runStrategy ticks b strategy around') := by
  have hcfg' := batcher_on b strategy around around'
  cases hcfg : b.batcher strategy around with
  | error e =>
    rw [hcfg] at hcfg'
    unfold runStrategy
    rw [hcfg, hcfg']
    exact .error rfl
  | ok cfg =>
    rw [hcfg] at hcfg'
    rw [runStrategy_eq ticks hcfg, runStrategy_eq ticks hcfg']
    have hids : (b.reqs around).map EvalRequest.rid = (b.reqs around').map EvalRequest.rid := by
      rw [reqs_rid, reqs_rid, hid]
    obtain ⟨hs, -⟩ := b.loaded_spec around (b.batcher_ok hcfg)
    have hgather : Option.Rel (Twin allAnswers) (gather cfg (b.reqs around) ticks (b.loaded around))
        (gather (cfg.on around'.runtime) (b.reqs around') ticks (b.loaded around)) :=
      gather_twinned hids ticks hs ((twin_equivalence allAnswers).refl _)
    rw [← loaded_on cfg b hid]
    apply Alike.ok
    generalize gather cfg (b.reqs around) ticks (b.loaded around) = x at hgather ⊢
    generalize gather (cfg.on around'.runtime) (b.reqs around') ticks (b.loaded around) = y at hgather ⊢
    cases hgather with
    | none => exact .none
    | some h => exact .some (result_twin h hid)

theorem mainAsync_alike [Zero Col] (ticks : Nat) {runs runs' : List (RoutingStrategy × Surroundings)}
    (hplan : List.Forall₂ SamePlan runs runs') : ∀ {all all' : EvalResults}, all.timeless = all'.timeless →
    Alike Eq (Option.Rel (fun all all' => EvalResults.timeless all = EvalResults.timeless all'))
      (mainAsync ticks b runs all) (mainAsync ticks b runs' all') := by
  induction hplan with
  | nil => exact fun h => .ok (.some h)
  | @cons p q runs runs' hpq _ ih =>
    intro all all' h
    obtain ⟨strategy, around⟩ := p
    obtain ⟨_, around'⟩ := q
    obtain ⟨rfl, hid⟩ := hpq
    have hrun : Alike Eq (Option.Rel (fun res res' => res.timeless = res'.timeless))
        (runStrategy ticks b strategy around) (runStrategy ticks b strategy around') :=
      runStrategy_alike ticks hid
    unfold mainAsync
    apply hrun.mapError.bind
    intro x y _ _ hxy
    cases hxy with
    | none => exact .ok .none
    | @some res res' hres =>
      have hlength : res.records.length = res'.records.length := by
        have hrecords := congrArg (fun res => res.records.length) hres
        simpa only [StrategyResult.timeless, List.length_map] using hrecords
      simp only [hlength]
      split
      · exact .error rfl
      · apply ih
        funext other
        by_cases hother : other = strategy
        · subst hother
          simp only [EvalResults.timeless, Function.update_self, Option.map_some, hres]
        · simp only [EvalResults.timeless, Function.update_of_ne hother]
          exact congrFun h other

/-- **The benchmark is reproducible.** Two invocations with the same model, probe, settings
    and samples, whatever their clocks show, whatever order sets have and however long they
    take: both wait for ever, both end in the same error, or both return, for each strategy,
    the same statistics and, record by record, the same tokens, true, routes, finish
    reasons and corrections. -/
theorem benchmark_reproducible [Zero Col] (b : Benchmark Col) (ticks : Nat)
    {runs runs' : List (RoutingStrategy × Surroundings)} (hplan : List.Forall₂ SamePlan runs runs') :
    Alike Eq (Option.Rel (fun all all' => EvalResults.timeless all = EvalResults.timeless all'))
      (mainAsync ticks b runs (fun _ => none)) (mainAsync ticks b runs' (fun _ => none)) :=
  mainAsync_alike ticks hplan rfl

end Harness

/-- A clock that counts its readings, and sets that are iterated backwards. -/
def backwards : Surroundings where
  runtime := ⟨fun n => n, fun ids => ids.dedup.reverse, fun ids => ids.dedup.reverse_perm⟩
  firstId := 1
  arrivalTime i := i
  wallClockS := 99

theorem benchmark_reproducible_counting : ∃ all all',
    mainAsync 12 countingBenchmark allRuns (fun _ => none) = .ok (some all) ∧
      mainAsync 12 countingBenchmark (allRuns.map (fun run => (run.1, backwards))) (fun _ => none) =
        .ok (some all') ∧ all.timeless = all'.timeless := by
  have hplan : List.Forall₂ SamePlan allRuns (allRuns.map (fun run => (run.1, backwards))) :=
    .cons ⟨rfl, rfl⟩ (.cons ⟨rfl, rfl⟩ (.cons ⟨rfl, rfl⟩ .nil))
  obtain ⟨all, -, -, -, hall, -⟩ := countingBenchmark_results
  have halike := benchmark_reproducible countingBenchmark 12 hplan
  rw [hall] at halike
  generalize mainAsync 12 countingBenchmark (allRuns.map _) _ = y at halike ⊢
  cases halike with
  | @ok _ y h =>
    cases h with
    | @some _ all' h => exact ⟨all, all', hall, rfl, h⟩

end PGI
