import ProbeGuidedInference.Lib.FirstCome
import ProbeGuidedInference.Makespan
import ProbeGuidedInference.StrategyComparison

/- In what order the batcher serves. Without preemptions the batch and behind it the queue
   are one line in the order of submission (`Lined`). When no requests are added, a
   decode forward therefore gives a token to the first `max_batch_size` requests that still
   need one: the batcher serves first come, first served. Its forwards can be computed from
   the lengths of the answers. They are never more when the batch is larger or an answer
   shorter; for a row-local model the length of an answer does not depend on the batch. -/
namespace PGI
open Fallible FirstCome

variable {Col : Type}

/-- Those who run, and behind them those who wait, are in the order of submission. -/
def Lined (s : Batcher Col) : Prop := (s.active ++ s.pending).Sublist s.submitted

/-- The decodes that a request has had in `e` and has not had in `s`. -/
def Batcher.owed (e s : Batcher Col) (r : Nat) : Nat := e.decodesOf r - s.decodesOf r

section Line
variable {cfg : Config Col} {s s' : Batcher Col}

theorem Lined.submit (h : Lined s) (maxTokens : Int) (promptIds : List Nat) (stream : Bool) :
    Lined (submit maxTokens promptIds stream s) := by
  show (s.active ++ (s.pending ++ [s.nextId])).Sublist (s.submitted ++ [s.nextId])
  rw [← List.append_assoc]
  exact h.append_right [s.nextId]

/-- Who is admitted steps from the queue into the batch, or is done. -/
theorem Lined.intake (hstrategy : cfg.strategy ≠ .probeDeprioritize) (hs : SysInv cfg s)
    (h : Lined s) (hin : Intake cfg s s') : Lined s' := by
  unfold Lined at h ⊢
  cases hin with
  | swap rid rest victim hdeprioritize => exact absurd hdeprioritize hstrategy
  | admission rid rest _ hp hadm =>
    have hadmission := hs.admitOne hp hadm
    rw [hp] at h
    rw [hadmission.submitted, hadmission.pending]
    rcases hadmission.place with ⟨hact, -⟩ | ⟨hact, -⟩
    · rw [hact, List.append_assoc]
      exact h
    · rw [hact]
      exact ((List.sublist_cons_self rid rest).append_left s.active).trans h

/-- Who is evicted leaves the line. -/
theorem Lined.decode [Zero Col] (h : Lined s) (hall : DecodedAll cfg s s') : Lined s' := by
  obtain ⟨ids, -, -, hact, -⟩ := hall.place
  unfold Lined at h ⊢
  rw [hact, hall.pending, hall.submitted]
  exact ((List.diff_sublist s.active ids).append_right s.pending).trans h

theorem runEvents_lined [Zero Col] (hstrategy : cfg.strategy ≠ .probeDeprioritize) {firstId : Nat}
    {events : List Event} (h : runEvents cfg firstId events = .ok s) : Lined s := by
  refine (runEvents_keep_turns (I := Lined) ?_ ?_ ?_ ?_ ?_ h).2
  · exact List.Sublist.refl []
  · intro s maxTokens promptIds stream _ hI
    exact hI.submit maxTokens promptIds stream
  · intro s rid _ hI _
    exact hI
  · intro s s' hs hI hin
    exact hI.intake hstrategy hs hin
  · intro s s' hs hI hne hdecode
    exact hI.decode (decodePhase_works hs hne hdecode)

/-! What is owed. -/

/-- Without preemptions no request loses a token. -/
theorem Work.nGenerated_le (hstrategy : cfg.strategy ≠ .probeDeprioritize) (h : Work cfg s s')
    (r : Nat) : (s.requests r).nGenerated ≤ (s'.requests r).nGenerated := by
  cases h with
  | swap rid rest victim hdeprioritize => exact absurd hdeprioritize hstrategy
  | admission rid rest _ _ hadm =>
    by_cases hr : r = rid
    · subst hr
      rw [hadm.nGenerated]
      exact Nat.le_succ _
    · rw [hadm.requests_ne hr]
  | decode _ hall =>
    by_cases hr : r ∈ s.active
    · rw [hall.requests_active hr]
      exact Nat.le_succ _
    · rw [hall.requests_ne hr]

theorem Works.decodesOf_le (hstrategy : cfg.strategy ≠ .probeDeprioritize) (h : Works cfg s s')
    (r : Nat) : s.decodesOf r ≤ s'.decodesOf r := by
  unfold Batcher.decodesOf
  induction h with
  | refl => exact Nat.le_refl _
  | tail _ hw ih => exact ih.trans (Nat.sub_le_sub_right (hw.nGenerated_le hstrategy r) 1)

/-- The token that comes with the admission is no decode. -/
theorem Intakes.decodesOf (hstrategy : cfg.strategy ≠ .probeDeprioritize) (hs : SysInv cfg s)
    (h : Intakes cfg s s') : s'.decodesOf = s.decodesOf := by
  refine (h.keep (I := fun t => t.decodesOf = s.decodesOf) ?_ hs rfl).2
  intro t u ht hI hin
  rw [← hI]
  cases hin with
  | swap rid rest victim hdeprioritize => exact absurd hdeprioritize hstrategy
  | admission rid rest _ hp hadm =>
    have hadmission := ht.admitOne hp hadm
    funext r
    unfold Batcher.decodesOf
    by_cases hr : r = rid
    · subst hr
      have hmem : r ∈ t.pending := by
        rw [hp]
        exact List.mem_cons_self
      obtain ⟨-, -, hgen, -⟩ := (ht.lifeInv (ht.mem_submitted.mpr (.inl hmem))).waiting
        (ht.loc_pending hmem)
      have hzero : (t.requests r).nGenerated = 0 := congrArg List.length hgen
      rw [hadmission.nGenerated, hzero]
    · rw [hadmission.requests_ne hr]

theorem Intakes.decodeForwards (hs : SysInv cfg s) (h : Intakes cfg s s') :
    s'.decodeForwards = s.decodeForwards := by
  refine (h.keep (I := fun t => t.decodeForwards = s.decodeForwards) ?_ hs rfl).2
  intro t u ht hI hin
  rw [← hI]
  unfold Batcher.decodeForwards
  cases hin with
  | admission rid rest _ hp hadm =>
    have hadmission := ht.admitOne hp hadm
    rw [hadmission.forwards, hadmission.totalAdmitted]
    omega
  | swap rid rest victim _ hsw hadm =>
    have hadmission := hsw.admission ht hadm
    rw [hadmission.forwards, hadmission.totalAdmitted]
    show t.forwards + 1 - (t.totalAdmitted + 1) = t.forwards - t.totalAdmitted
    omega

/-- **A decode forward serves the line**, of which the requests in front make up the batch. -/
theorem owed_decode [Zero Col] {e : Batcher Col} (hstrategy : cfg.strategy ≠ .probeDeprioritize)
    (hs : SysInv cfg s) (hline : Lined s) (hfilled : WorkConserving cfg s)
    (hall : DecodedAll cfg s s') (hne : s.active ≠ []) (hend : Works cfg s' e) :
    (∀ r ∈ s.active, 0 < e.owed s r) ∧
    s.submitted.map (e.owed s') = serveFirst cfg.maxBatchSize (s.submitted.map (e.owed s)) := by
  have hmore : ∀ r ∈ s.active, s'.decodesOf r = s.decodesOf r + 1 := by
    intro r hr
    have hone := hall.requests_active hr
    have hpos : 0 < (s.requests r).nGenerated := List.length_pos_iff.mpr (hs.running hr).nonempty
    unfold Batcher.decodesOf
    omega
  have hsame : ∀ r ∉ s.active, s'.decodesOf r = s.decodesOf r := by
    intro r hr
    unfold Batcher.decodesOf
    rw [hall.requests_ne hr]
  have hactive : ∀ r ∈ s.active, 0 < e.owed s r := by
    intro r hr
    have hone := hmore r hr
    have hle := hend.decodesOf_le hstrategy r
    unfold Batcher.owed
    omega
  have hfinished : ∀ r ∈ s.finished, e.owed s r = 0 := by
    intro r hr
    have hworks : Works cfg s e := .head (.decode hne hall) hend
    have hreq : e.decodesOf r = s.decodesOf r :=
      congrArg (fun v => v.req.nGenerated - 1) (hworks.finished_view hs hr)
    unfold Batcher.owed
    omega
  have hwait : s.submitted.filter (fun r => 0 < e.owed s r) =
      s.active ++ s.pending.filter (fun r => 0 < e.owed s r) := by
    rw [filter_of_sublist hline hs.nodup, List.filter_append]
    · congr 1
      rw [List.filter_eq_self]
      exact fun r hr => decide_eq_true (hactive r hr)
    · intro r hr hpos
      rcases hs.mem_submitted.mp hr with h | h | h
      · exact List.mem_append_right _ h
      · exact List.mem_append_left _ h
      · rw [hfinished r h] at hpos
        cases hpos
  refine ⟨hactive, ?_⟩
  rw [serveFirst_map hs.nodup hwait hs.batch]
  · apply List.map_congr_left
    intro r _
    unfold Batcher.owed
    by_cases hr : r ∈ s.active
    · rw [if_pos hr, hmore r hr]
      omega
    · rw [if_neg hr, hsame r hr]
      omega
  · refine hfilled.imp_left ?_
    intro hempty
    rw [hempty]
    rfl

end Line

/-! A closed workload. -/

/-- Of the decodes that the requests have had in the end, `s` has come as far as first come,
    first served gets in as many rounds, and not all have been given before. -/
structure ServedSoFar (cfg : Config Col) (e s : Batcher Col) : Prop where
  owed : e.submitted.map (e.owed s) =
    (serveFirst cfg.maxBatchSize)^[s.decodeForwards] (e.submitted.map e.decodesOf)
  needed : s.decodeForwards ≤ makespan cfg.maxBatchSize (e.submitted.map e.decodesOf)

section Closed
variable {cfg : Config Col} {firstId : Nat} {workload : List (Int × List Nat × Bool)}
  {rounds : List (List Nat)} {e s s' : Batcher Col}

theorem ServedSoFar.tick [Zero Col] (hstrategy : cfg.strategy ≠ .probeDeprioritize)
    (hs : SysInv cfg s) (hline : Lined s) (hb : Booked cfg rounds s)
    (h : ServedSoFar cfg e s) (htick : PGI.tick cfg s = .ok s') (hend : Works cfg s' e) :
    ServedSoFar cfg e s' := by
  obtain ⟨u, hu, hrest⟩ := tick_ok.mp htick
  have hintakes := tryAdmit_intakes hu
  have huinv := hintakes.inv hs
  have hforwards := hintakes.decodeForwards hs
  have howed : e.owed u = e.owed s := by
    funext r
    exact congrArg (fun f => e.decodesOf r - f r) (hintakes.decodesOf hstrategy hs)
  have hadmitted : ServedSoFar cfg e u := ⟨by rw [howed, hforwards, h.owed], by rw [hforwards]; exact h.needed⟩
  rcases hrest with ⟨-, rfl⟩ | ⟨hne, hdecode⟩
  · exact hadmitted
  · have huline : Lined u := (hintakes.keep (I := Lined)
      (fun _ _ ht hI hin => hI.intake hstrategy ht hin) hs hline).2
    have hub : Booked cfg rounds u := (hintakes.keep (I := Booked cfg rounds)
      (fun _ _ ht hI hin => hI.intake ht hin) hs hb).2
    have hfilled : WorkConserving cfg u := by
      unfold tryAdmit at hu
      obtain ⟨t, ht, hu⟩ := bind_eq_ok.mp hu
      rw [if_pos hstrategy] at hu
      obtain rfl := Except.ok.inj hu
      exact admitLoop_conserving hs ht
    have hall := decodePhase_works huinv hne hdecode
    obtain ⟨hactive, hserved⟩ := owed_decode hstrategy huinv huline hfilled hall hne hend
    have hround : s'.decodeForwards = u.decodeForwards + 1 := by
      rw [(hub.decode huinv hne hdecode).decodeForwards, hub.decodeForwards, List.length_append,
        List.length_singleton]
    have hsubmitted : e.submitted = u.submitted := hend.submitted.trans hall.submitted
    refine ⟨?_, ?_⟩
    · rw [hround, Function.iterate_succ_apply', ← hadmitted.owed, hsubmitted]
      exact hserved
    · -- the batch still needed this round
      obtain ⟨r, hr⟩ := List.exists_mem_of_ne_nil u.active hne
      have hmem : r ∈ e.submitted := by
        rw [hsubmitted]
        exact huinv.mem_submitted.mpr (.inr (.inl hr))
      have hpos : e.owed u r ≤ (e.submitted.map (e.owed u)).sum :=
        List.le_sum_of_mem (List.mem_map_of_mem hmem)
      have hwidth : 0 < cfg.maxBatchSize :=
        lt_of_lt_of_le (List.length_pos_iff.mpr hne) huinv.batch
      have hmore : ¬ makespan cfg.maxBatchSize (e.submitted.map e.decodesOf) ≤ u.decodeForwards := by
        rw [← served_iff _ (.inl hwidth), ← hadmitted.owed]
        have := hactive r hr
        omega
      omega

/-- Before the first tick everything is owed. -/
theorem servedSoFar_loaded [Zero Col] (hsub : e.submitted = s.submitted)
    (h : runEvents cfg firstId (submissions workload) = .ok s) : ServedSoFar cfg e s := by
  have hbooked := runEvents_booked h
  rw [decodedBatches_submissions] at hbooked
  have hforwards : s.decodeForwards = 0 := hbooked.decodeForwards
  refine ⟨?_, ?_⟩
  · rw [hforwards, Function.iterate_zero_apply]
    apply List.map_congr_left
    intro r hr
    have hfew := hbooked.served r (hsub ▸ hr)
    rw [List.countP_nil] at hfew
    unfold Batcher.owed
    have hzero : s.decodesOf r = 0 := by
      unfold Batcher.decodesOf
      omega
    rw [hzero, Nat.sub_zero]
  · rw [hforwards]
    exact Nat.zero_le _

/-- Every tick on the way serves the line. -/
theorem closed_served [Zero Col] (hstrategy : cfg.strategy ≠ .probeDeprioritize) : ∀ {k j : Nat}
    {s : Batcher Col}, runEvents cfg firstId (submissions workload ++ List.replicate k .tick) = .ok s →
    Runs.run (step cfg) s (List.replicate j .tick) = .ok e → ServedSoFar cfg e s := by
  intro k
  induction k with
  | zero =>
    intro j s hrun hrest
    rw [List.replicate_zero, List.append_nil] at hrun
    exact servedSoFar_loaded (ticks_works (runEvents_inv hrun) hrest).submitted hrun
  | succ k ih =>
    intro j s' hrun hrest
    have hs' := runEvents_inv hrun
    rw [List.replicate_succ', ← List.append_assoc] at hrun
    obtain ⟨s, hs, htick⟩ := Runs.run_snoc_ok.mp hrun
    have hfuture : Runs.run (step cfg) s (List.replicate (j + 1) .tick) = .ok e := by
      rw [List.replicate_succ, Runs.run_cons, htick]
      exact hrest
    exact (ih hs hfuture).tick hstrategy (runEvents_inv hs) (runEvents_lined hstrategy hs)
      (runEvents_booked hs) htick (ticks_works hs' hrest)

theorem owed_self (line : List Nat) : (line.map (e.owed e)).sum = 0 := by
  induction line with
  | nil => rfl
  | cons r line ih =>
    rw [List.map_cons, List.sum_cons, ih]
    unfold Batcher.owed
    omega

/-- Without places nobody has been served. -/
theorem ServedSoFar.places (h : ServedSoFar cfg e e) :
    0 < cfg.maxBatchSize ∨ (e.submitted.map e.decodesOf).sum = 0 := by
  rcases Nat.eq_zero_or_pos cfg.maxBatchSize with hzero | hpos
  · have hall := owed_self (e := e) e.submitted
    rw [h.owed, hzero, serveFirst_none_iterate] at hall
    exact .inr hall
  · exact .inl hpos

theorem ServedSoFar.decodeForwards (h : ServedSoFar cfg e e) :
    e.decodeForwards = makespan cfg.maxBatchSize (e.submitted.map e.decodesOf) := by
  apply Nat.le_antisymm h.needed
  rw [← served_iff _ h.places, ← h.owed]
  exact owed_self e.submitted

/-- **First come, first served.** In every run of a workload that is all there before the
    first tick, under a strategy that does not preempt: after each tick, what the requests
    have had of the decodes that they will have had in the end is what the first
    `max_batch_size` of those who still need some get in each round, in the order of
    submission. So what the first `i` requests have had depends on no request behind them,
    they have had all when `makespan` of theirs alone has passed, and the decode forwards
    of the whole run are the `makespan` of all. -/
theorem first_come_first_served [Zero Col] {n : Nat} (hstrategy : cfg.strategy ≠ .probeDeprioritize)
    (hrun : runEvents cfg firstId (submissions workload ++ List.replicate n .tick) = .ok e) :
    e.decodeForwards = makespan cfg.maxBatchSize (e.submitted.map e.decodesOf) ∧
    ∀ k ≤ n, ∃ s, runEvents cfg firstId (submissions workload ++ List.replicate k .tick) = .ok s ∧
      s.submitted = e.submitted ∧ ∀ i,
        (e.submitted.take i).map (e.owed s) =
          (serveFirst cfg.maxBatchSize)^[s.decodeForwards] ((e.submitted.take i).map e.decodesOf) ∧
        ((∀ r ∈ e.submitted.take i, s.decodesOf r = e.decodesOf r) ↔
          makespan cfg.maxBatchSize ((e.submitted.take i).map e.decodesOf) ≤ s.decodeForwards) := by
  have hend : ServedSoFar cfg e e := @closed_served _ cfg firstId workload e _ hstrategy n 0 e hrun rfl
  refine ⟨hend.decodeForwards, ?_⟩
  intro k hk
  obtain ⟨j, rfl⟩ := Nat.exists_eq_add_of_le hk
  rw [List.replicate_add, ← List.append_assoc] at hrun
  obtain ⟨s, hs, hrest⟩ := Runs.run_append_ok.mp hrun
  have hworks := ticks_works (runEvents_inv hs) hrest
  have hserved := closed_served hstrategy hs hrest
  refine ⟨s, hs, hworks.submitted.symm, ?_⟩
  intro i
  have hfirst : (e.submitted.take i).map (e.owed s) =
      (serveFirst cfg.maxBatchSize)^[s.decodeForwards] ((e.submitted.take i).map e.decodesOf) := by
    rw [List.map_take, List.map_take, hserved.owed, serveFirst_iterate_take]
  refine ⟨hfirst, ?_⟩
  have hplaces : 0 < cfg.maxBatchSize ∨ ((e.submitted.take i).map e.decodesOf).sum = 0 := by
    refine hend.places.imp_right ?_
    intro hzero
    have hle : ((e.submitted.take i).map e.decodesOf).sum ≤ (e.submitted.map e.decodesOf).sum :=
      ((List.take_sublist i e.submitted).map e.decodesOf).sum_le_sum fun n _ => Nat.zero_le n
    omega
  rw [← served_iff _ hplaces, ← hfirst, List.sum_eq_zero_iff]
  refine ⟨?_, ?_⟩
  · intro h n hn
    obtain ⟨r, hr, rfl⟩ := List.mem_map.mp hn
    unfold Batcher.owed
    rw [h r hr, Nat.sub_self]
  · intro h r hr
    have hzero : e.owed s r = 0 := h _ (List.mem_map_of_mem hr)
    have hle := hworks.decodesOf_le hstrategy r
    unfold Batcher.owed at hzero
    omega

end Closed

/-- Two places, and the probe does not interfere. -/
abbrev twoPlaces : Config TokenColumn := countingConfig .baseline 2 (constantGate 2 .divergent 1)

/-- Requests for 4, 2 and 3 tokens. -/
def threeInLine : List (Int × List Nat × Bool) := [(4, [1], false), (2, [2], true), (3, [1], false)]

theorem first_come_first_served_three : ∃ e,
    runEvents twoPlaces 1 (submissions threeInLine ++ List.replicate 6 .tick) = .ok e ∧
    e.decodeForwards = makespan 2 [3, 1, 2] ∧
    ∀ k ≤ 6, ∃ s, runEvents twoPlaces 1
        (submissions threeInLine ++ List.replicate k .tick) = .ok s ∧
      s.submitted = e.submitted ∧ ∀ i,
        (e.submitted.take i).map (e.owed s) =
          (serveFirst 2)^[s.decodeForwards] ((e.submitted.take i).map e.decodesOf) ∧
        ((∀ r ∈ e.submitted.take i, s.decodesOf r = e.decodesOf r) ↔
          makespan 2 ((e.submitted.take i).map e.decodesOf) ≤ s.decodeForwards) := by
  have hrun : (runEvents twoPlaces 1
      (submissions threeInLine ++ List.replicate 6 .tick)).toOption.map
        (fun e => e.submitted.map e.decodesOf) = some [3, 1, 2] := by decide
  obtain ⟨e, he, hneeds⟩ := toOption_map_eq_some.mp hrun
  have hserved := first_come_first_served (by decide) he
  rw [hneeds] at hserved
  exact ⟨e, he, hserved⟩

/-! The harness. -/

/-- A run of the harness that returns, with its batcher at the end. -/
def Benchmark.Leaves [Zero Col] (b : Benchmark Col) (strategy : RoutingStrategy)
    (around : Surroundings) (ticks : Nat) (s : Batcher Col) : Prop :=
  ∃ cfg, b.batcher strategy around = .ok cfg ∧
    gather cfg (b.reqs around) ticks (b.loaded around) = some s

section Harness
variable [Zero Col] {b : Benchmark Col} {strategy : RoutingStrategy} {around : Surroundings}
  {ticks : Nat} {s : Batcher Col}

/-- Its result is read off this batcher. -/
theorem runStrategy_leaves {res : StrategyResult} :
    runStrategy ticks b strategy around = .ok (some res) ↔
      ∃ s, b.Leaves strategy around ticks s ∧ res = b.result strategy around s := by
  refine ⟨?_, ?_⟩
  · intro h
    obtain ⟨cfg, -, hcfg, -⟩ := runStrategy_ok h
    rw [runStrategy_eq ticks hcfg] at h
    obtain ⟨s, hs, hres⟩ := Option.map_eq_some_iff.mp (Except.ok.inj h)
    exact ⟨s, ⟨cfg, hcfg, hs⟩, hres.symm⟩
  · intro h
    obtain ⟨s, ⟨cfg, hcfg, hs⟩, rfl⟩ := h
    rw [runStrategy_eq ticks hcfg, hs]
    rfl

theorem Benchmark.Leaves.completed (h : b.Leaves strategy around ticks s) :
    ∃ cfg, b.Configured strategy cfg ∧ b.Completed around cfg s := by
  obtain ⟨cfg, hcfg, hs⟩ := h
  obtain ⟨hdone, k, hk⟩ := gather_some hs
  have hconf := b.batcher_ok hcfg
  exact ⟨cfg, hconf, b.completed hconf (Benchmark.run_events.mpr hk) hdone⟩

/-- All model calls of a run that does not preempt: one prefill for each sample, and as many
    decodes as it takes to serve them first come, first served. -/
theorem Benchmark.Completed.forwards {cfg : Config Col} (hconf : b.Configured strategy cfg)
    (hstrategy : strategy ≠ .probeDeprioritize) (h : b.Completed around cfg s) :
    s.forwards = b.samples.length +
        makespan b.maxBatchSize (s.submitted.map s.decodesOf) ∧
      (0 < b.maxBatchSize ∨ (s.submitted.map s.decodesOf).sum = 0) := by
  obtain ⟨k, hrun⟩ := h.run
  have hne : cfg.strategy ≠ .probeDeprioritize := by rwa [hconf.ofStrategy]
  have hend : ServedSoFar cfg s s := @closed_served _ cfg _ _ s _ hne k 0 s hrun rfl
  have hcount := hend.decodeForwards
  have hplaces := hend.places
  rw [hconf.maxBatchSize] at hcount hplaces
  obtain ⟨-, hadmitted⟩ := idle_admitted hrun h.idle
  have hb := runEvents_booked hrun
  rw [runEvents_unpreempted hne hrun, h.submitted, List.length_range'] at hadmitted
  have htotal := hb.forwards
  have hrounds := hb.decodeForwards
  exact ⟨by omega, hplaces⟩

/-- **No scheduling anomalies.** For a row-local model and hooks that only look: with as many
    places or more, baseline and `probe_terminate` call the model no more often than baseline does,
    whatever the probe answers. -/
theorem forwards_no_anomaly (hm : b.model.unhooked.RowLocal) (hlooks : b.model.HooksLook)
    {places places' ticksB : Nat} {aroundB : Surroundings} {base : Batcher Col}
    (hstrategy : strategy ≠ .probeDeprioritize) (hplaces : places ≤ places')
    (h : { b with maxBatchSize := places' }.Leaves strategy around ticks s)
    (hbase : { b with maxBatchSize := places }.Leaves .baseline aroundB ticksB base) :
    s.forwards ≤ base.forwards := by
  obtain ⟨cfg, hconf, hcompleted⟩ := h.completed
  obtain ⟨cfgB, hconfB, hcompletedB⟩ := hbase.completed
  obtain ⟨hforwards, -⟩ := hcompleted.forwards hconf hstrategy
  obtain ⟨hforwardsB, hservedB⟩ := hcompletedB.forwards hconfB (by decide)
  have hneeds : List.Forall₂ (· ≤ ·) (s.submitted.map s.decodesOf)
      (base.submitted.map base.decodesOf) := by
    rw [hcompleted.submitted, hcompletedB.submitted, List.range'_eq_map_range,
      List.range'_eq_map_range, List.map_map, List.map_map, List.forall₂_map_left_iff,
      List.forall₂_map_right_iff, List.forall₂_same]
    intro i hi
    have hlt : i < b.samples.length := List.mem_range.mp hi
    have hsample := List.getElem?_eq_getElem hlt
    -- the number of places changes nothing in what a request generates
    obtain ⟨k, hk⟩ := Benchmark.Completed.upTo (b := { b with maxBatchSize := places' }) hm hlooks
      hconf hcompleted hsample
    obtain ⟨last, hlast⟩ := Benchmark.Completed.upTo (b := { b with maxBatchSize := places }) hm
      hlooks hconfB hcompletedB hsample
    have hgenerated : UpTo hm b.samples[i] (s.requests (around.firstId + i)) k :=
      ⟨hk.tokens, hk.first, hk.last⟩
    have hbaseline : UpTo hm b.samples[i] (base.requests (aroundB.firstId + i)) last :=
      ⟨hlast.tokens, hlast.first, hlast.last⟩
    have hprefix := hgenerated.sub hm hbaseline
      (baseline_unterminated hconfB hcompletedB (hcompletedB.mem hsample))
    exact Nat.sub_le_sub_right hprefix.length_le 1
  rw [hforwards, hforwardsB]
  exact Nat.add_le_add_left (makespan_mono hservedB hplaces hneeds) _

omit [Zero Col] in
/-- The number of places is none of the things that start-up checks. -/
theorem Benchmark.batcher_places {cfg : Config Col} (h : b.batcher strategy around = .ok cfg)
    (places : Nat) : { b with maxBatchSize := places }.batcher strategy around =
      .ok { cfg with maxBatchSize := places } := by
  unfold Benchmark.batcher startup at h ⊢
  obtain ⟨probe, hprobe, h⟩ := bind_eq_ok.mp h
  refine bind_eq_ok.mpr ⟨probe, hprobe, ?_⟩
  unfold continuousBatcher at h ⊢
  split at h
  · rename_i hgate
    rw [dif_pos hgate]
    obtain ⟨model, hmodel, h⟩ := bind_eq_ok.mp h
    obtain rfl := Except.ok.inj h
    exact bind_eq_ok.mpr ⟨model, hmodel, rfl⟩
  · cases h

end Harness

theorem countingBenchmark_leaves (strategy : RoutingStrategy) {places : Nat} (hpos : 1 ≤ places) :
    ∃ s, { countingBenchmark with maxBatchSize := places }.Leaves strategy countingSurroundings 12 s := by
  obtain ⟨cfg, hcfg, hserves⟩ := countingBenchmark_serves strategy
  have hwider : Config.Serves { cfg with maxBatchSize := places } := ⟨hserves.model, hserves.gate⟩
  have hreturns : ∃ res, runStrategy 12 { countingBenchmark with maxBatchSize := places } strategy
      countingSurroundings = .ok (some res) :=
    runStrategy_returns (Benchmark.batcher_places hcfg places) hpos (fun k => hwider.runs _ _)
      (show 2 * countingBenchmark.samples.length * (max 1 countingBenchmark.maxTokens).toNat ≤ 12 by
        decide)
  obtain ⟨res, hres⟩ := hreturns
  obtain ⟨s, hs, -⟩ := runStrategy_leaves.mp hres
  exact ⟨s, hs⟩

theorem forwards_no_anomaly_counting : ∃ s base,
    { countingBenchmark with maxBatchSize := 2 }.Leaves .probeTerminate countingSurroundings 12 s ∧
    { countingBenchmark with maxBatchSize := 1 }.Leaves .baseline countingSurroundings 12 base ∧
    s.forwards ≤ base.forwards := by
  obtain ⟨s, hs⟩ := countingBenchmark_leaves .probeTerminate (show 1 ≤ 2 by decide)
  obtain ⟨base, hbase⟩ := countingBenchmark_leaves .baseline (show 1 ≤ 1 by decide)
  exact ⟨s, base, hs, hbase, forwards_no_anomaly countingModel_rowLocal countingModel_hooksLook
    (by decide) (by decide) hs hbase⟩

end PGI
