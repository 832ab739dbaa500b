import ProbeGuidedInference.FairOrder

/- Preemptions are bounded. A request that is preempted has priority 1 from then on, so a
   request of priority 0 in the queue has never been admitted; as only such a request
   makes the batcher preempt, each preemption is paid for by a first admission, and since
   the batch is full by then, not by the first `max_batch_size` of them. -/
namespace PGI
open Fallible Fifo

variable {Col : Type}

/-- A log in which each preemption is followed by the first admission of a request, not
    one of the first `B`. -/
inductive PaidFor (B : Nat) : List LogEntry → Prop where
  | nil : PaidFor B []
  | entry {log : List LogEntry} (e : LogEntry) (h : PaidFor B log)
      (he : ∀ victim n, e ≠ .preempt victim n) : PaidFor B (log ++ [e])
  | swap {log : List LogEntry} (victim n rid : Nat) (p : Int) (waiting : List Int)
      (h : PaidFor B log) (hnew : rid ∉ admissions log) (hfull : B ≤ (firstAdmissions log).length) :
      PaidFor B (log ++ [.preempt victim n, .admitted rid p waiting])

/-- What holds of preemptions between any two turns. -/
structure PreemptionsPaid (cfg : Config Col) (s : Batcher Col) : Prop where
  bound : s.totalPreemptions ≤ s.submitted.length - cfg.maxBatchSize
  unseen : ∀ r ∈ s.pending, s.priority r = 0 → r ∉ admissions s.log
  paid : PaidFor cfg.maxBatchSize s.log

section Logs
variable {B : Nat} {log entries : List LogEntry}

theorem firstAdmissions_append_le :
    (firstAdmissions log).length ≤ (firstAdmissions (log ++ entries)).length := by
  apply (List.subperm_of_subset (nodup_eraseDups _) _).length_le
  intro r hr
  apply List.mem_eraseDups.mpr
  rw [admissions_append]
  exact List.mem_append_left _ (List.mem_eraseDups.mp hr)

/-- The bound is the injection counted. -/
theorem PaidFor.bound (h : PaidFor B log) :
    (preemptions log).length ≤ (firstAdmissions log).length - B := by
  induction h with
  | nil => exact Nat.zero_le _
  | @entry log e _ he ih =>
    have hnone : preemptions [e] = [] := by
      cases e with
      | preempt victim n => exact absurd rfl (he victim n)
      | _ => rfl
    have hle : (firstAdmissions log).length ≤ (firstAdmissions (log ++ [e])).length :=
      firstAdmissions_append_le
    rw [preemptions_append, hnone, List.append_nil]
    omega
  | @swap log victim n rid p waiting _ hnew hfull ih =>
    have hfirst : firstAdmissions (log ++ [.preempt victim n, .admitted rid p waiting]) =
        firstAdmissions log ++ [rid] := by
      unfold firstAdmissions
      rw [admissions_append]
      exact eraseDups_snoc_new hnew
    have hlen : (preemptions (log ++ [.preempt victim n, .admitted rid p waiting])).length =
        (preemptions log).length + 1 := by
      rw [preemptions_append, List.length_append]
      rfl
    rw [hfirst, hlen, List.length_append, List.length_singleton]
    omega

theorem PaidFor.append_quiet (h : PaidFor B log) (hq : ∀ e ∈ entries, e.quiet = true) :
    PaidFor B (log ++ entries) := by
  induction entries using List.reverseRecOn with
  | nil =>
    rw [List.append_nil]
    exact h
  | append_singleton entries e ih =>
    rw [← List.append_assoc]
    apply PaidFor.entry e (ih (fun x hx => hq x (List.mem_append_left _ hx)))
    intro victim n heq
    subst heq
    have := hq (.preempt victim n) (by simp)
    cases this

end Logs

section Turns
variable {cfg : Config Col} {s s' : Batcher Col}

/-- The invariant behind the bound; the counter is that of the log. -/
structure PaidUp (cfg : Config Col) (s : Batcher Col) : Prop where
  served : Served s
  counter : s.totalPreemptions = (preemptions s.log).length
  unseen : ∀ r ∈ s.pending, s.priority r = 0 → r ∉ admissions s.log
  paid : PaidFor cfg.maxBatchSize s.log

/-- In a full batch are `max_batch_size` requests that have been admitted. -/
theorem PaidUp.full (hs : SysInv cfg s) (h : PaidUp cfg s) (hfull : cfg.maxBatchSize ≤ s.active.length) :
    cfg.maxBatchSize ≤ (firstAdmissions s.log).length := by
  have hsub : s.active ⊆ firstAdmissions s.log :=
    fun r hr => List.mem_eraseDups.mpr (h.served.active_admitted hs hr)
  have hle := (List.subperm_of_subset hs.active_nodup hsub).length_le
  omega

theorem PaidUp.submit (hs : SysInv cfg s) (h : PaidUp cfg s) (maxTokens : Int)
    (promptIds : List Nat) (stream : Bool) : PaidUp cfg (submit maxTokens promptIds stream s) where
  served := h.served.submit hs maxTokens promptIds stream
  counter := h.counter
  unseen := by
    intro r hr hzero hadm
    have hold : r ∈ s.submitted := h.served.served_arrived hadm
    have hne : r ≠ s.nextId := fun heq => hs.nextId_not_submitted (heq ▸ hold)
    have hmem : r ∈ s.pending := by
      rcases List.mem_append.mp hr with hr | hr
      · exact hr
      · exact absurd (List.mem_singleton.mp hr) hne
    apply h.unseen r hmem _ hadm
    rw [← hzero]
    exact congrArg GenerationRequest.priority
      (submit_requests_ne maxTokens promptIds stream hne).symm
  paid := h.paid

theorem PaidUp.cancel (h : PaidUp cfg s) (rid : Nat) : PaidUp cfg (cancel rid s) where
  served := h.served
  counter := h.counter
  unseen := by
    intro r hr hzero
    apply h.unseen r hr
    obtain ⟨f, hf⟩ := cancel_requests s rid r
    simpa [Batcher.priority, hf] using hzero
  paid := h.paid

/-- A swap is for a request of priority 0, and so for one that has never been admitted. -/
theorem Intake.paidUp (hs : SysInv cfg s) (h : PaidUp cfg s) (hi : Intake cfg s s') :
    PaidUp cfg s' := by
  have hserved := hi.served hs h.served
  have hnd := hs.pending_nodup
  cases hi with
  | admission rid rest _ hp ha =>
    obtain ⟨tail, htail, hlog⟩ := admitOne_log hs hp ha
    have hadm := hs.admitOne hp ha
    rw [hp] at hnd
    refine ⟨hserved, ?_, ?_, ?_⟩
    · rw [hadm.totalPreemptions, h.counter, hlog]
      simp [preemptions_quiet htail]
    · intro r hr hzero
      rw [hadm.pending] at hr
      rw [hadm.priority] at hzero
      have hnot := h.unseen r (by rw [hp]; exact List.mem_cons_of_mem rid hr) hzero
      have hne : r ≠ rid := fun heq => (List.nodup_cons.mp hnd).1 (heq ▸ hr)
      rw [hlog]
      simp [admissions_quiet htail, hnot, hne]
    · rw [hlog, ← List.singleton_append, ← List.append_assoc]
      apply PaidFor.append_quiet _ htail
      exact .entry _ h.paid (fun _ _ hc => by cases hc)
  | swap rid rest victim _ hsw ha =>
    obtain ⟨hmem, hv⟩ := findDeprioritizeVictim_some hsw.victim
    obtain ⟨p, waiting, tail, htail, hlog⟩ := hsw.log hs ha
    have hadm := hsw.admission hs ha
    rw [hsw.pending] at hnd
    refine ⟨hserved, ?_, ?_, ?_⟩
    · have hcount : s'.totalPreemptions = s.totalPreemptions + 1 := hadm.totalPreemptions
      rw [hcount, h.counter, hlog]
      simp [preemptions_quiet htail]
    · intro r hr hzero
      rw [hadm.pending] at hr
      rw [hadm.priority, preempt_priority] at hzero
      rcases List.mem_append.mp hr with hr | hr
      · have hnot := h.unseen r (by rw [hsw.pending]; exact List.mem_cons_of_mem rid hr) hzero
        have hne : r ≠ rid := fun heq => (List.nodup_cons.mp hnd).1 (heq ▸ hr)
        rw [hlog]
        simp [admissions_quiet htail, hnot, hne]
      · rw [List.mem_singleton.mp hr, hv] at hzero
        cases hzero
    · have hnew := h.unseen rid (by rw [hsw.pending]; exact List.mem_cons_self) hsw.head
      have hpaid := PaidFor.swap victim (s.requests victim).nGenerated rid p waiting h.paid hnew
        (h.full hs hsw.full)
      have hsplit : s'.log = (s.log ++ [.preempt victim (s.requests victim).nGenerated,
          .admitted rid p waiting]) ++ tail := by
        rw [hlog]
        simp
      rw [hsplit]
      exact hpaid.append_quiet htail

theorem decodePhase_paidUp [Zero Col] (hs : SysInv cfg s) (h : PaidUp cfg s) (hne : s.active ≠ [])
    (hd : decodePhase cfg s = .ok s') : PaidUp cfg s' := by
  have hall := decodePhase_works hs hne hd
  have hquiet := decodePhase_quiet hs hne hd
  refine ⟨decodePhase_served hs h.served hne hd, ?_, ?_, ?_⟩
  · rw [hall.totalPreemptions, hquiet.preemptions_eq, h.counter]
  · intro r hr hzero
    rw [hall.pending] at hr
    rw [hquiet.admissions_eq]
    apply h.unseen r hr
    rw [← hzero]
    exact congrArg (fun v => v.req.priority) (hall.other r (hs.pending_not_active hr)).symm
  · obtain ⟨entries, hlog, hq⟩ := hquiet
    rw [hlog]
    exact h.paid.append_quiet hq

end Turns

theorem runEvents_paidUp [Zero Col] {cfg : Config Col} {firstId : Nat} {events : List Event}
    {s : Batcher Col} (h : runEvents cfg firstId events = .ok s) : PaidUp cfg s := by
  refine (runEvents_keep_turns (I := PaidUp cfg) ?_ ?_ ?_ ?_ ?_ h).2
  · exact ⟨InOrder.nil, rfl, fun r hr => (by cases hr), .nil⟩
  · intro s maxTokens promptIds stream hs hpaid
    exact hpaid.submit hs maxTokens promptIds stream
  · intro s rid _ hpaid _
    exact hpaid.cancel rid
  · intro s s' hs hpaid hi
    exact hi.paidUp hs hpaid
  · intro s s' hs hpaid hne hd
    exact decodePhase_paidUp hs hpaid hne hd

/-- **Preemptions are bounded by the number of requests**, less the size of the batch. -/
theorem preemptions_bounded [Zero Col] {cfg : Config Col} {firstId : Nat} {events : List Event}
    {s : Batcher Col} (hrun : runEvents cfg firstId events = .ok s) : PreemptionsPaid cfg s := by
  have h := runEvents_paidUp hrun
  refine ⟨?_, h.unseen, h.paid⟩
  have hfirst : (firstAdmissions s.log).length ≤ s.submitted.length := by
    rw [← h.served.first, List.length_append]
    exact Nat.le_add_right _ _
  have hbound := h.paid.bound
  have hcounter := h.counter
  omega

theorem preemptions_bounded_once :
    ∃ s, runEvents (divergentConfig .probeDeprioritize) 1 preemptedOnce = .ok s ∧
      PreemptionsPaid (divergentConfig .probeDeprioritize) s := by
  obtain ⟨s, hs, -⟩ :=
    runEvents_returns (divergentConfig_serves .probeDeprioritize) 1 preemptedOnce
  exact ⟨s, hs, preemptions_bounded hs⟩

end PGI
