import ProbeGuidedInference.Refinement
import ProbeGuidedInference.Server
import ProbeGuidedInference.Lib.Lockstep

/- What the surroundings may change. A batcher gets two things from its surroundings: the
   readings of a clock, and the order in which the set of the requests that leave after a
   decode step is iterated. A third, the futures on which its callers wait, it only writes.
   `Twin` relates two batchers that differ in nothing but the times on their requests, the
   order of the log between requests and, of the requests where these are left out too, the
   answers in the futures; every operation takes twins to twins, whatever clock and order
   each of the two has.

   The order is the hard part: `_finish` reads the clock, writes counters, evicts from the
   cache and puts a token on a queue, and two calls of it commute (`finish_swap`). -/
namespace PGI
open Fallible Lockstep

variable {Col : Type}

/-- The same batcher elsewhere. -/
def Config.on (cfg : Config Col) (runtime : Runtime) : Config Col :=
  { cfg with
    time := runtime.time
    setOrder := runtime.setOrder
    setOrder_perm := runtime.setOrder_perm }

/-- The object with its times put to 0, though whether they are set is kept, and with the
    answer to its caller or without. -/
def GenerationRequest.seen (told : Bool) (r : GenerationRequest) : GenerationRequest :=
  { r with
    checkpointHitTime := r.checkpointHitTime.map (fun _ => 0)
    completionTime := r.completionTime.map (fun _ => 0)
    result := if told then r.result else .pending }

/-- The two batchers differ in nothing but times, in how the log entries of different
    requests are interleaved and, of the requests without `answers`, in what the callers are
    told. -/
structure Twin (answers : Nat → Bool) (s t : Batcher Col) : Prop where
  requests : ∀ r, (s.requests r).seen (answers r) = (t.requests r).seen (answers r)
  nextId : s.nextId = t.nextId
  submitted : s.submitted = t.submitted
  pending : s.pending = t.pending
  cache : s.cache = t.cache
  captureLast : s.captureLast = t.captureLast
  active : s.active = t.active
  totalAdmitted : s.totalAdmitted = t.totalAdmitted
  totalFinished : s.totalFinished = t.totalFinished
  totalProbeTerminated : s.totalProbeTerminated = t.totalProbeTerminated
  totalPreemptions : s.totalPreemptions = t.totalPreemptions
  forwards : s.forwards = t.forwards
  classifies : s.classifies = t.classifies
  clock : s.clock = t.clock
  history : ∀ r, s.history r = t.history r

/-- The answers to all callers are compared. -/
abbrev allAnswers : Nat → Bool := fun _ => true

theorem twin_equivalence (answers : Nat → Bool) : Equivalence (@Twin Col answers) where
  refl _ := ⟨fun _ => rfl, rfl, rfl, rfl, rfl, rfl, rfl, rfl, rfl, rfl, rfl, rfl, rfl, rfl, fun _ => rfl⟩
  symm h := ⟨fun r => (h.requests r).symm, h.nextId.symm, h.submitted.symm, h.pending.symm,
    h.cache.symm, h.captureLast.symm, h.active.symm, h.totalAdmitted.symm, h.totalFinished.symm,
    h.totalProbeTerminated.symm, h.totalPreemptions.symm, h.forwards.symm, h.classifies.symm,
    h.clock.symm, fun r => (h.history r).symm⟩
  trans h h' := ⟨fun r => (h.requests r).trans (h'.requests r), h.nextId.trans h'.nextId,
    h.submitted.trans h'.submitted, h.pending.trans h'.pending, h.cache.trans h'.cache,
    h.captureLast.trans h'.captureLast, h.active.trans h'.active,
    h.totalAdmitted.trans h'.totalAdmitted, h.totalFinished.trans h'.totalFinished,
    h.totalProbeTerminated.trans h'.totalProbeTerminated,
    h.totalPreemptions.trans h'.totalPreemptions, h.forwards.trans h'.forwards,
    h.classifies.trans h'.classifies, h.clock.trans h'.clock,
    fun r => (h.history r).trans (h'.history r)⟩

/-- Two computations end alike: twins are returned, or the same exception is raised and
    leaves twins. -/
abbrev Twinned (answers : Nat → Bool) (x y : Except (PyError × Batcher Col) (Batcher Col)) : Prop :=
  Alike (Raised (Twin answers)) (Twin answers) x y

/-- The same for a computation that returns something besides the batcher. -/
abbrev TwinnedWith (answers : Nat → Bool) {α : Type}
    (x y : Except (PyError × Batcher Col) (α × Batcher Col)) : Prop :=
  Alike (Raised (Twin answers)) (fun p q => p.1 = q.1 ∧ Twin answers p.2 q.2) x y

/-! One field, one mutation. -/

/-- What reads nothing that is left out reads the same from both. -/
theorem field_seen {told : Bool} {q q' : GenerationRequest} {α : Type} {k : GenerationRequest → α}
    (hk : ∀ q, k q = k (q.seen told)) (h : q.seen told = q'.seen told) : k q = k q' := by
  rw [hk, h, ← hk]

section Batchers
variable {answers : Nat → Bool} {s t : Batcher Col} {f g k : GenerationRequest → GenerationRequest}

/-- A mutation into which goes nothing that is left out keeps twins twins. -/
theorem Twin.modify (h : Twin answers s t) (rid : Nat)
    (hf : ∀ q, (f q).seen (answers rid) = k (q.seen (answers rid)))
    (hg : ∀ q, (g q).seen (answers rid) = k (q.seen (answers rid))) :
    Twin answers (s.modify rid f) (t.modify rid g) :=
  { h with
    requests := by
      intro r
      by_cases hr : r = rid
      · subst hr
        simp only [Batcher.modify_requests, Function.update_self, hf, hg, h.requests r]
      · simpa [hr] using h.requests r }

/-- The same mutation on both sides, of fields that are not left out. -/
theorem Twin.mutate (h : Twin answers s t) (rid : Nat) (f : GenerationRequest → GenerationRequest)
    (hf : ∀ q, (f q).seen (answers rid) = f (q.seen (answers rid))) :
    Twin answers (s.modify rid f) (t.modify rid f) :=
  h.modify rid hf hf

theorem history_record (s : Batcher Col) (e : LogEntry) (r : Nat) :
    (s.record e).history r = s.history r ++ if e.rid = r then [e] else [] := by
  unfold Batcher.history
  rw [Batcher.record_log, List.filter_append]
  split
  · rename_i hr
    simp [hr]
  · rename_i hr
    simp [hr]

theorem Twin.record (h : Twin answers s t) {e e' : LogEntry} (he : e = e') :
    Twin answers (s.record e) (t.record e') :=
  { h with
    history := by
      intro r
      rw [history_record, history_record, h.history r, he] }

theorem Twin.priority (h : Twin answers s t) : s.priority = t.priority :=
  funext fun r => field_seen (k := GenerationRequest.priority) (fun _ => rfl) (h.requests r)

theorem Twin.nGenerated (h : Twin answers s t) (r : Nat) :
    (s.requests r).nGenerated = (t.requests r).nGenerated :=
  field_seen (fun _ => rfl) (h.requests r)

/-- The callers of the requests with `answers` are told the same. -/
theorem Twin.result (h : Twin answers s t) {r : Nat} (hr : answers r = true) :
    (s.requests r).result = (t.requests r).result := by
  have hseen := congrArg GenerationRequest.result (h.requests r)
  simpa only [GenerationRequest.seen, hr, if_true] using hseen

theorem Twin.raising {α : Type} (h : Twin answers s t) (x : Except PyError α) :
    Alike (Raised (Twin answers)) Eq (raising s x) (raising t x) := by
  cases x with
  | ok a => exact .ok rfl
  | error e => exact .error ⟨rfl, h⟩

end Batchers

/-! Evict. -/

section Finish
variable {answers : Nat → Bool} {cfg : Config Col} {runtime : Runtime} {s t : Batcher Col}

theorem finish_history (cfg : Config Col) (s : Batcher Col) (rid r : Nat) :
    (finish cfg s rid).history r =
      s.history r ++ if rid = r then [.finish rid (s.requests rid).nGenerated] else [] :=
  history_record s (.finish rid (s.requests rid).nGenerated) r

/-- What is seen of a finished request depends on nothing that is left out. -/
theorem completed_seen (cfg : Config Col) (time : ℚ) (told : Bool) (q : GenerationRequest) :
    (q.completed cfg time).seen told =
      { (q.seen told).completed cfg 0 with
        result := if told then ((q.seen told).completed cfg 0).result else .pending } := by
  cases told with
  | true => rfl
  | false => rfl

theorem finish_twin (h : Twin answers s t) (rid : Nat) :
    Twin answers (finish cfg s rid) (finish (cfg.on runtime) t rid) := by
  have hmod : Twin answers (s.modify rid (·.completed cfg (cfg.time s.clock)))
      (t.modify rid (·.completed (cfg.on runtime) (runtime.time t.clock))) :=
    h.modify rid (k := fun q => { q.completed cfg 0 with
        result := if answers rid then (q.completed cfg 0).result else .pending })
      (completed_seen cfg _ _) (completed_seen (cfg.on runtime) _ _)
  have hflag : (s.requests rid).terminatedByProbe = (t.requests rid).terminatedByProbe :=
    field_seen (k := GenerationRequest.terminatedByProbe) (fun _ => rfl) (h.requests rid)
  exact {
    requests := hmod.requests
    nextId := h.nextId
    submitted := h.submitted
    pending := h.pending
    cache := congrArg (fun c => c.evict rid) h.cache
    captureLast := h.captureLast
    active := congrArg (fun ids => ids.erase rid) h.active
    totalAdmitted := h.totalAdmitted
    totalFinished := congrArg (· + 1) h.totalFinished
    totalProbeTerminated := by
      show s.totalProbeTerminated + _ = t.totalProbeTerminated + _
      rw [h.totalProbeTerminated, hflag]
    totalPreemptions := h.totalPreemptions
    forwards := h.forwards
    classifies := h.classifies
    clock := congrArg (· + 1) h.clock
    history := by
      intro r
      rw [finish_history, finish_history, h.history r, h.nGenerated rid] }

theorem evict_comm (c : BatchedSequenceCache Col) (a b : Nat) :
    (c.evict a).evict b = (c.evict b).evict a := by
  by_cases hab : a = b
  · rw [hab]
  · unfold BatchedSequenceCache.evict
    simp only [Function.update_comm hab]

theorem finish_self (cfg : Config Col) (s : Batcher Col) (rid : Nat) :
    (finish cfg s rid).requests rid = (s.requests rid).completed cfg (cfg.time s.clock) := by
  simp [finish]

/-- Two requests may be finished in either order. -/
theorem finish_swap (cfg : Config Col) (s : Batcher Col) (a b : Nat) :
    Twin answers (finish cfg (finish cfg s a) b) (finish cfg (finish cfg s b) a) := by
  by_cases hab : a = b
  · subst hab
    exact (twin_equivalence answers).refl _
  have hself : ∀ c d, d ≠ c → (finish cfg s c).requests d = s.requests d := by
    intro c d hd
    simp [finish, hd]
  have ha := hself b a hab
  have hb := hself a b (Ne.symm hab)
  exact {
    requests := by
      intro r
      show (Function.update (finish cfg s a).requests b _ r).seen (answers r) =
        (Function.update (finish cfg s b).requests a _ r).seen (answers r)
      by_cases hra : r = a
      · subst hra
        rw [Function.update_of_ne hab, Function.update_self, finish_self, ha]
        rfl
      · by_cases hrb : r = b
        · subst hrb
          rw [Function.update_of_ne hra, Function.update_self, finish_self, hb]
          rfl
        · rw [Function.update_of_ne hrb, Function.update_of_ne hra, hself a r hra, hself b r hrb]
    nextId := rfl
    submitted := rfl
    pending := rfl
    cache := evict_comm s.cache a b
    captureLast := rfl
    active := List.erase_comm a b
    totalAdmitted := rfl
    totalFinished := rfl
    totalProbeTerminated := by
      show s.totalProbeTerminated + _ + (if ((finish cfg s a).requests b).terminatedByProbe then 1 else 0) =
        s.totalProbeTerminated + _ + (if ((finish cfg s b).requests a).terminatedByProbe then 1 else 0)
      rw [ha, hb]
      exact Nat.add_right_comm _ _ _
    totalPreemptions := rfl
    forwards := rfl
    classifies := rfl
    clock := rfl
    history := by
      intro r
      rw [finish_history, finish_history, finish_history, finish_history, ha, hb]
      by_cases hra : a = r
      · subst hra
        simp [Ne.symm hab]
      · simp [hra] }

/-- Where every lookup finds its request, the loop finishes them one after the other. -/
theorem finishAll_eq : ∀ (ids : List Nat) {s : Batcher Col}, ids.Nodup → ids ⊆ s.active →
    s.active.Nodup → finishAll cfg ids s = .ok (ids.foldl (finish cfg) s) := by
  intro ids
  induction ids with
  | nil => exact fun _ _ _ => rfl
  | cons rid rest ih =>
    intro s hnd hsub hact
    rw [List.nodup_cons] at hnd
    obtain ⟨hrid, hnd⟩ := hnd
    have hin : rid ∈ s.active := hsub List.mem_cons_self
    have hrest : rest ⊆ (finish cfg s rid).active := by
      intro r hr
      rw [finish_active, hact.mem_erase_iff]
      exact ⟨fun heq => hrid (heq ▸ hr), hsub (List.mem_cons_of_mem rid hr)⟩
    rw [finishAll, if_pos hin]
    exact ih hnd hrest (hact.erase rid)

/-- The same requests are finished, in two orders, by two clocks. -/
theorem finishAll_twinned {ids ids' : List Nat} (h : Twin answers s t) (hperm : ids'.Perm ids)
    (hnd : ids.Nodup) (hsub : ids ⊆ s.active) (hact : s.active.Nodup) :
    Twinned answers (finishAll cfg ids s) (finishAll (cfg.on runtime) ids' t) := by
  have hsub' : ids' ⊆ t.active := by
    rw [← h.active]
    exact List.Subset.trans hperm.subset hsub
  have hact' : t.active.Nodup := by
    rw [← h.active]
    exact hact
  rw [finishAll_eq ids hnd hsub hact, finishAll_eq ids' (hperm.nodup_iff.mpr hnd) hsub' hact']
  apply Alike.ok
  have hsame : Twin answers (ids.foldl (finish cfg) s) (ids.foldl (finish (cfg.on runtime)) t) :=
    foldl_related (R := Twin answers) (fun _ _ rid h => finish_twin h rid) ids h
  have horder : Twin answers (ids.foldl (finish (cfg.on runtime)) t) (ids'.foldl (finish (cfg.on runtime)) t) :=
    foldl_perm (twin_equivalence answers) (fun _ _ rid h => finish_twin h rid) (finish_swap _) hperm.symm t
  exact (twin_equivalence answers).trans hsame horder

end Finish

/-! Admit. -/

section Admit
variable {answers : Nat → Bool} {cfg : Config Col} {runtime : Runtime} {s t : Batcher Col}

variable (cfg) (runtime) in
theorem hook_twin (h : Twin answers s t) (rows : List CapturedRow) :
    Twin answers (s.hook cfg rows) (t.hook (cfg.on runtime) rows) := by
  have hgate : (cfg.on runtime).gate = cfg.gate := rfl
  unfold Batcher.hook
  rw [hgate]
  split
  · exact { h with captureLast := rfl }
  · exact h

theorem Twin.ended (h : Twin answers s t) (nid r : Nat) :
    cfg.ended nid (s.requests r) = (cfg.on runtime).ended nid (t.requests r) :=
  field_seen (k := cfg.ended nid) (fun _ => rfl) (h.requests r)

theorem Twin.setReason (h : Twin answers s t) (nid rid : Nat) :
    Twin answers (s.modify rid (cfg.setReason nid)) (t.modify rid ((cfg.on runtime).setReason nid)) :=
  h.mutate rid (cfg.setReason nid) (fun _ => rfl)

/-- The end of `run_prefill`. -/
theorem Twin.ending (h : Twin answers s t) (nid rid : Nat) :
    TwinnedWith answers
      (if cfg.ended nid (s.requests rid) then .ok (true, s.modify rid (cfg.setReason nid))
        else .ok (false, s))
      (if (cfg.on runtime).ended nid (t.requests rid) then
          .ok (true, t.modify rid ((cfg.on runtime).setReason nid))
        else .ok (false, t)) := by
  have hended : cfg.ended nid (s.requests rid) = (cfg.on runtime).ended nid (t.requests rid) :=
    h.ended nid rid
  rw [hended]
  split
  · exact .ok ⟨rfl, h.setReason nid rid⟩
  · exact .ok ⟨rfl, h⟩

theorem runPrefill_twinned (h : Twin answers s t) (rid : Nat) :
    TwinnedWith answers (runPrefill cfg s rid) (runPrefill (cfg.on runtime) t rid) := by
  have hprompt : (s.requests rid).promptIds = (t.requests rid).promptIds :=
    field_seen (k := GenerationRequest.promptIds) (fun _ => rfl) (h.requests rid)
  unfold runPrefill
  simp only
  rw [hprompt, h.forwards]
  generalize (t.requests rid).promptIds = promptIds
  have hforwards : Twin answers { s with forwards := t.forwards + 1 } { t with forwards := t.forwards + 1 } :=
    { h with forwards := rfl }
  apply (hforwards.raising _).bind
  intro out _ _ _ heq
  subst heq
  have hhook := hook_twin cfg runtime hforwards
    [⟨rid, promptIds.getLastD 0, promptIds.length - 1, out.hidden⟩]
  generalize Batcher.hook cfg _ _ = u at hhook
  generalize Batcher.hook (cfg.on runtime) _ _ = v at hhook
  have hcached : Twin answers { u with cache := u.cache.storePrefill rid out.pastKeyValues promptIds.length }
      { v with cache := v.cache.storePrefill rid out.pastKeyValues promptIds.length } :=
    { hhook with
      cache := congrArg (fun c => c.storePrefill rid out.pastKeyValues promptIds.length) hhook.cache }
  have hfirst := hcached.mutate rid (·.prefilled promptIds.length (argmax out.logits)) (fun _ => rfl)
  exact hfirst.ending (argmax out.logits) rid

theorem admitOne_twinned (h : Twin answers s t) :
    Twinned answers (admitOne cfg s) (admitOne (cfg.on runtime) t) := by
  unfold admitOne
  rw [h.pending]
  cases t.pending with
  | nil => exact .error ⟨rfl, h⟩
  | cons rid rest =>
    have htaken : Twin answers { s with pending := rest } { t with pending := rest } := { h with pending := rfl }
    have hlogged := htaken.record (e := .admitted rid (s.priority rid) (rest.map s.priority)) rfl
    rw [h.priority] at hlogged ⊢
    apply (runPrefill_twinned hlogged rid).bind
    intro p q _ _ hpq
    obtain ⟨alreadyFinished, u⟩ := p
    obtain ⟨_, v⟩ := q
    obtain ⟨rfl, huv⟩ := hpq
    have hcounted : Twin answers { u with totalAdmitted := u.totalAdmitted + 1 }
        { v with totalAdmitted := v.totalAdmitted + 1 } :=
      { huv with totalAdmitted := congrArg (· + 1) huv.totalAdmitted }
    cases alreadyFinished with
    | true => exact .ok (finish_twin hcounted rid)
    | false =>
      exact .ok { hcounted with
        active := congrArg (fun ids => if rid ∈ ids then ids else ids ++ [rid]) huv.active }

theorem admitLoop_twinned : ∀ (fuel : Nat) {s t : Batcher Col}, Twin answers s t →
    Twinned answers (admitLoop cfg fuel s) (admitLoop (cfg.on runtime) fuel t) := by
  intro fuel
  induction fuel with
  | zero => exact fun h => .ok h
  | succ fuel ih =>
    intro s t h
    have hsize : (cfg.on runtime).maxBatchSize = cfg.maxBatchSize := rfl
    rw [admitLoop, admitLoop, h.active, h.pending, hsize]
    split
    · apply (admitOne_twinned h).bind
      intro u v _ _ huv
      exact ih huv
    · exact .ok h

end Admit

/-! Preempt. -/

section Preempt
variable {answers : Nat → Bool} {cfg : Config Col} {runtime : Runtime} {s t : Batcher Col}

theorem minByGenerated_twin (h : Twin answers s t) (ids : List Nat) :
    minByGenerated s ids = minByGenerated t ids := by
  induction ids with
  | nil => rfl
  | cons rid rest ih =>
    unfold minByGenerated
    simp only [ih, h.nGenerated]

theorem findDeprioritizeVictim_twin (h : Twin answers s t) :
    findDeprioritizeVictim s = findDeprioritizeVictim t := by
  unfold findDeprioritizeVictim
  rw [h.active, h.priority]
  exact minByGenerated_twin h _

theorem headIsNormal_twin (h : Twin answers s t) : headIsNormal s = headIsNormal t := by
  unfold headIsNormal
  rw [h.pending, h.priority]

theorem preempt_twin (h : Twin answers s t) (victim : Nat) : Twin answers (preempt s victim) (preempt t victim) := by
  have hleft : Twin answers { s with cache := s.cache.evict victim, active := s.active.erase victim }
      { t with cache := t.cache.evict victim, active := t.active.erase victim } :=
    { h with
      cache := congrArg (fun c => c.evict victim) h.cache
      active := congrArg (fun ids => ids.erase victim) h.active }
  have hreset := (hleft.mutate victim GenerationRequest.preempted (fun _ => rfl)).record
    (congrArg (LogEntry.preempt victim) (h.nGenerated victim))
  exact { hreset with
    totalPreemptions := congrArg (· + 1) h.totalPreemptions
    pending := by
      unfold preempt
      simp only
      rw [hreset.priority, hreset.pending] }

theorem preemptLoop_twinned : ∀ (attempts : Nat) {s t : Batcher Col}, Twin answers s t →
    Twinned answers (preemptLoop cfg attempts s) (preemptLoop (cfg.on runtime) attempts t) := by
  intro attempts
  induction attempts with
  | zero => exact fun h => .ok h
  | succ attempts ih =>
    intro s t h
    have hsize : (cfg.on runtime).maxBatchSize = cfg.maxBatchSize := rfl
    rw [preemptLoop, preemptLoop, h.active, headIsNormal_twin h, findDeprioritizeVictim_twin h, hsize]
    split
    · cases findDeprioritizeVictim t with
      | none => exact .ok h
      | some victim =>
        apply (admitOne_twinned (preempt_twin h victim)).bind
        intro u v _ _ huv
        exact ih huv
    · exact .ok h

theorem tryAdmit_twinned (h : Twin answers s t) :
    Twinned answers (tryAdmit cfg s) (tryAdmit (cfg.on runtime) t) := by
  have hstrategy : (cfg.on runtime).strategy = cfg.strategy := rfl
  have hsize : (cfg.on runtime).maxBatchSize = cfg.maxBatchSize := rfl
  unfold tryAdmit
  rw [h.pending, hstrategy, hsize]
  apply (admitLoop_twinned t.pending.length h).bind
  intro u v _ _ huv
  split
  · exact .ok huv
  · exact preemptLoop_twinned cfg.maxBatchSize huv

end Preempt

end PGI
