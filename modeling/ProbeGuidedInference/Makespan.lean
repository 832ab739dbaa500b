import ProbeGuidedInference.Lib.Rounds
import ProbeGuidedInference.NoThrashing
import ProbeGuidedInference.WorkAccounting
import ProbeGuidedInference.WorkConservation

/- How long a workload takes. A decode forward gives each request of the batch one token,
   so the forwards of a run are rounds in which the requests are served, at most
   `max_batch_size` at a time (`Booked`). When all requests are there from the start, a
   round has a free place only once the queue is empty, or after a preemption; from then
   on every request that still runs is in every round (`Paced`). That makes the batcher a
   list scheduler, and bounds its decode forwards against those of any other way to
   generate the same tokens. -/
namespace PGI
open Fallible Rounds

variable {Col : Type}

/-- The forwards that were not spent on an admission. -/
def Batcher.decodeForwards (s : Batcher Col) : Nat := s.forwards - s.totalAdmitted

/-- The decodes that a request has needed: its first token came with its admission. -/
def Batcher.decodesOf (s : Batcher Col) (r : Nat) : Nat := (s.requests r).nGenerated - 1

/-- The batch that a tick hands to a decode forward, if it comes to that: what `_try_admit`
    leaves active. -/
def decoded (cfg : Config Col) (s : Batcher Col) : Event → List (List Nat)
  | .tick => match tryAdmit cfg s with
    | .ok u => if u.active.isEmpty then [] else [u.active]
    | .error _ => []
  | .submit _ _ _ => []
  | .cancel _ => []

/-- The batches that a run hands to a decode forward, in order. -/
def decodedBatches [Zero Col] (cfg : Config Col) (firstId : Nat) (events : List Event) :
    List (List Nat) :=
  Runs.emitted (step cfg) (decoded cfg) (Batcher.new firstId) events

/-! What the pieces of a tick add to the number of forwards and of computed tokens. -/

section Frames
variable {cfg : Config Col} {s s' : Batcher Col}

theorem classifyRow_forwards {hidden : Option (List CapturedRow)} {rid i : Nat}
    (h : classifyRow cfg hidden s rid i = .ok s') : s'.forwards = s.forwards := by
  unfold classifyRow at h
  split at h
  · obtain rfl := Except.ok.inj h
    rfl
  · simp only at h
    split at h
    · obtain ⟨row, -, h⟩ := bind_eq_ok.mp h
      obtain ⟨d, -, h⟩ := bind_eq_ok.mp h
      obtain rfl := Except.ok.inj h
      rfl
    · obtain rfl := Except.ok.inj h
      rfl

theorem computed_classifyEntries (rid n : Nat) (answer : Answer) :
    computed (classifyEntries rid n answer) = 0 := by
  cases answer with
  | none => rfl
  | some a => rfl

/-- The loop over the rows computes a token for each. -/
theorem decodeLoop_tally {nextIds : List Nat} {hidden : Option (List CapturedRow)} :
    ∀ (pairs : List (Nat × Nat)) {s : Batcher Col} {ids : List Nat},
    decodeLoop cfg nextIds hidden pairs s = .ok (ids, s') →
    s'.forwards = s.forwards ∧ computed s'.log = computed s.log + pairs.length := by
  intro pairs
  induction pairs with
  | nil =>
    intro s ids h
    obtain ⟨-, rfl⟩ := Prod.mk.inj (Except.ok.inj h)
    exact ⟨rfl, rfl⟩
  | cons p rest ih =>
    intro s ids h
    obtain ⟨nid, t, ids', -, ht, hrest, -⟩ := decodeLoop_cons.mp h
    unfold decodeRow at ht
    obtain ⟨-, answer, -, -, hlog⟩ := classifyRow_spec ht
    have hforwards : t.forwards = s.forwards := by
      rw [classifyRow_forwards ht]
      rfl
    have hcomputed : computed t.log = computed s.log + 1 := by
      rw [hlog, computed_append, computed_classifyEntries, Batcher.record_log, Batcher.modify_log,
        computed_append]
      rfl
    obtain ⟨hf, hc⟩ := ih hrest
    have hreason : ∀ u, u = (if cfg.ended nid (t.requests p.1) then
        t.modify p.1 (cfg.setReason nid) else t) → u.forwards = t.forwards ∧ u.log = t.log := by
      intro u hu
      subst hu
      split
      · exact ⟨rfl, rfl⟩
      · exact ⟨rfl, rfl⟩
    obtain ⟨hf', hl'⟩ := hreason _ rfl
    refine ⟨by rw [hf, hf', hforwards], ?_⟩
    rw [hc, hl', hcomputed, List.length_cons]
    omega

theorem routeLoop_forwards (cfg : Config Col) : ∀ (ids : List Nat) (s : Batcher Col),
    (routeLoop cfg ids s).2.forwards = s.forwards := by
  intro ids
  induction ids with
  | nil => exact fun _ => rfl
  | cons rid rest ih => exact fun s => ih (s.modify rid (·.routedBy cfg))

theorem applyRouting_forwards (cfg : Config Col) (s : Batcher Col) :
    (applyRouting cfg s).2.forwards = s.forwards := by
  unfold applyRouting
  split
  · rfl
  · exact routeLoop_forwards cfg _ s

theorem finishAll_tally : ∀ (ids : List Nat) {s : Batcher Col}, finishAll cfg ids s = .ok s' →
    s'.forwards = s.forwards ∧ computed s'.log = computed s.log := by
  intro ids
  induction ids with
  | nil =>
    intro s h
    obtain rfl := Except.ok.inj h
    exact ⟨rfl, rfl⟩
  | cons rid rest ih =>
    intro s h
    rw [finishAll] at h
    split at h
    · obtain ⟨hforwards, hcomputed⟩ := ih h
      refine ⟨hforwards, ?_⟩
      rw [hcomputed]
      show computed (s.log ++ [.finish rid (s.requests rid).nGenerated]) = _
      rw [computed_append]
      rfl
    · cases h

/-- A decode phase is one forward, and a token for each request of the batch. -/
theorem decodePhase_tally [Zero Col] (hs : SysInv cfg s) (hne : s.active ≠ [])
    (h : decodePhase cfg s = .ok s') :
    s'.forwards = s.forwards + 1 ∧ computed s'.log = computed s.log + s.active.length := by
  obtain ⟨g, hfed⟩ := hs.fed
  unfold decodePhase at h
  obtain ⟨⟨ids, t⟩, hrun, h⟩ := bind_eq_ok.mp h
  have hkept := (runDecodeStep_spec hfed hne hs.active_nodup hrun).kept
  obtain ⟨-, hlog, -⟩ := applyRouting_spec cfg t (by rw [hkept.active]; exact hs.active_nodup)
  have hfinish : finishAll cfg (cfg.setOrder (ids ++ (applyRouting cfg t).1)) (applyRouting cfg t).2 =
      .ok s' := h
  obtain ⟨hforwards, hcomputed⟩ := finishAll_tally _ hfinish
  rw [applyRouting_forwards] at hforwards
  rw [hlog] at hcomputed
  obtain ⟨maxLen, -, hforward⟩ := runDecodeStep_forward hfed hne
  rw [hforward] at hrun
  obtain ⟨out, -, hrun⟩ := bind_eq_ok.mp hrun
  obtain ⟨cache, -, -, hafter⟩ := afterForward_eq hfed hs.active_nodup maxLen out.val
  rw [hafter] at hrun
  obtain ⟨hf, hc⟩ := decodeLoop_tally _ hrun
  rw [List.length_zipIdx] at hc
  exact ⟨hforwards.trans hf, hcomputed.trans hc⟩

/-- An admission is one forward, and the first token of one request. -/
theorem admitOne_computed {rid : Nat} {rest : List Nat} (hs : SysInv cfg s)
    (hp : s.pending = rid :: rest) (h : admitOne cfg s = .ok s') :
    computed s'.log = computed s.log + 1 := by
  obtain ⟨out, hout⟩ := admitOne_returns hp h
  rw [admitOne_eq hp (hs.head_not_active hp) hout] at h
  obtain rfl := Except.ok.inj h
  split
  · show computed ((s.log ++ [_]) ++ [_]) = _
    rw [computed_append, computed_append]
    rfl
  · show computed (s.log ++ [_]) = _
    rw [computed_append]
    rfl

theorem preempt_computed (s : Batcher Col) (victim : Nat) :
    computed (preempt s victim).log = computed s.log := by
  rw [preempt_log, computed_append]
  rfl

theorem Admission.nGenerated {rid : Nat} {rest : List Nat} (h : Admission cfg s s' rid rest) :
    (s'.requests rid).nGenerated = (s.requests rid).nGenerated + 1 := by
  obtain ⟨out, -, hview⟩ := h.self
  have hreq : s'.requests rid = (s'.view rid).req := rfl
  rw [hreq, hview]
  rcases (s.view rid).admitted_cases cfg rid (cfg.time s.clock) (rest.map s.priority) out with
    ⟨heq, -⟩ | ⟨heq, -⟩
  · rw [heq]
    simp [GenerationRequest.nGenerated]
  · rw [heq]
    simp [GenerationRequest.nGenerated]

theorem DecodedAll.requests_active (h : DecodedAll cfg s s') {r : Nat} (hr : r ∈ s.active) :
    (s'.requests r).nGenerated = (s.requests r).nGenerated + 1 := (h.self r hr).nGenerated

theorem DecodedAll.requests_ne (h : DecodedAll cfg s s') {r : Nat} (hr : r ∉ s.active) :
    s'.requests r = s.requests r := congrArg View.req (h.other r hr)

end Frames

/-! The rounds of a run. -/

section Decoded
variable {cfg : Config Col} {s u : Batcher Col}

theorem decodedBatches_snoc [Zero Col] {firstId : Nat} {events : List Event}
    (h : runEvents cfg firstId events = .ok s) (e : Event) :
    decodedBatches cfg firstId (events ++ [e]) =
      decodedBatches cfg firstId events ++ decoded cfg s e := Runs.emitted_snoc h

theorem decoded_empty (hu : tryAdmit cfg s = .ok u) (hempty : u.active = []) :
    decoded cfg s .tick = [] := by
  rw [decoded, hu]
  simp only [hempty, List.isEmpty_nil, if_true]

theorem decoded_batch (hu : tryAdmit cfg s = .ok u) (hne : u.active ≠ []) :
    decoded cfg s .tick = [u.active] := by
  rw [decoded, hu]
  exact if_neg (fun hempty => hne (List.isEmpty_iff.mp hempty))

end Decoded

/-- The batches that have been decoded: they are what the forwards and the computed tokens
    went into, and no request has more tokens than its admission and its rounds gave it. -/
structure Booked (cfg : Config Col) (rounds : List (List Nat)) (s : Batcher Col) : Prop where
  once : ∀ round ∈ rounds, round.Nodup
  nonempty : ∀ round ∈ rounds, round ≠ []
  narrow : ∀ round ∈ rounds, round.length ≤ cfg.maxBatchSize
  forwards : s.forwards = s.totalAdmitted + rounds.length
  work : computed s.log = s.totalAdmitted + (rounds.map List.length).sum
  served : ∀ r ∈ s.submitted,
    (s.requests r).nGenerated ≤ rounds.countP (fun round => r ∈ round) + 1

section Booked
variable {cfg : Config Col} {rounds : List (List Nat)} {s s' : Batcher Col}

theorem booked_new (cfg : Config Col) (firstId : Nat) : Booked cfg [] (Batcher.new firstId) where
  once := fun _ h => by cases h
  nonempty := fun _ h => by cases h
  narrow := fun _ h => by cases h
  forwards := rfl
  work := rfl
  served := fun _ h => by cases h

theorem Booked.submit (h : Booked cfg rounds s) (hs : SysInv cfg s) (maxTokens : Int)
    (promptIds : List Nat) (stream : Bool) :
    Booked cfg rounds (submit maxTokens promptIds stream s) :=
  { h with
    served := by
      intro r hr
      by_cases hnew : r = s.nextId
      · have hreq : ((PGI.submit maxTokens promptIds stream s).requests s.nextId).nGenerated = 0 :=
          congrArg (fun v => v.req.nGenerated) (hs.submit_view_self maxTokens promptIds stream)
        rw [hnew, hreq]
        exact Nat.zero_le _
      · rw [submit_requests_ne maxTokens promptIds stream hnew]
        rcases List.mem_append.mp hr with hr | hr
        · exact h.served r hr
        · exact absurd (List.mem_singleton.mp hr) hnew }

theorem Booked.cancel (h : Booked cfg rounds s) (rid : Nat) : Booked cfg rounds (cancel rid s) :=
  { h with
    served := by
      intro r hr
      obtain ⟨f, hf⟩ := cancel_requests s rid r
      rw [hf]
      exact h.served r hr }

/-- An admission is no round. -/
theorem Booked.admission {rid : Nat} {rest : List Nat} (h : Booked cfg rounds s) (hs : SysInv cfg s)
    (hp : s.pending = rid :: rest) (hadm : admitOne cfg s = .ok s') : Booked cfg rounds s' := by
  have hadmission := hs.admitOne hp hadm
  have hcomputed := admitOne_computed hs hp hadm
  exact { h with
    forwards := by
      rw [hadmission.forwards, hadmission.totalAdmitted, h.forwards]
      omega
    work := by
      rw [hcomputed, hadmission.totalAdmitted, h.work]
      omega
    served := by
      intro r hr
      rw [hadmission.submitted] at hr
      by_cases hrid : r = rid
      · subst hrid
        have hmem : r ∈ s.pending := by
          rw [hp]
          exact List.mem_cons_self
        obtain ⟨-, -, hgen, -⟩ := (hs.lifeInv hr).waiting (hs.loc_pending hmem)
        rw [Batcher.view_req] at hgen
        have hzero : (s.requests r).nGenerated = 0 := by
          rw [GenerationRequest.nGenerated, hgen, List.length_nil]
        rw [hadmission.nGenerated, hzero]
        omega
      · rw [hadmission.requests_ne hrid]
        exact h.served r hr }

theorem Booked.preempt (h : Booked cfg rounds s) (victim : Nat) :
    Booked cfg rounds (preempt s victim) :=
  { h with
    work := by
      rw [preempt_computed]
      exact h.work
    served := by
      intro r hr
      by_cases hvictim : r = victim
      · subst hvictim
        have hreq : ((PGI.preempt s r).requests r).nGenerated = 0 := by
          simp [PGI.preempt, GenerationRequest.nGenerated]
        rw [hreq]
        exact Nat.zero_le _
      · have hreq : (PGI.preempt s victim).requests r = s.requests r := by
          simp [PGI.preempt, hvictim]
        rw [hreq]
        exact h.served r hr }

theorem Booked.intake (h : Booked cfg rounds s) (hs : SysInv cfg s) (hin : Intake cfg s s') :
    Booked cfg rounds s' := by
  cases hin with
  | admission rid rest _ hp hadm => exact h.admission hs hp hadm
  | swap rid rest victim _ hsw hadm =>
    obtain ⟨hmem, hv⟩ := findDeprioritizeVictim_some hsw.victim
    exact (h.preempt victim).admission (hs.preempt hmem hv)
      (hs.preempt_pending_cons hv hsw.pending) hadm

/-- A decode phase is a round of the whole batch. -/
theorem Booked.decode [Zero Col] (h : Booked cfg rounds s) (hs : SysInv cfg s) (hne : s.active ≠ [])
    (hdecode : decodePhase cfg s = .ok s') : Booked cfg (rounds ++ [s.active]) s' := by
  have hall := decodePhase_works hs hne hdecode
  obtain ⟨hforwards, hcomputed⟩ := decodePhase_tally hs hne hdecode
  exact {
    once := List.forall_mem_append.mpr ⟨h.once, List.forall_mem_singleton.mpr hs.active_nodup⟩
    nonempty := List.forall_mem_append.mpr ⟨h.nonempty, List.forall_mem_singleton.mpr hne⟩
    narrow := List.forall_mem_append.mpr ⟨h.narrow, List.forall_mem_singleton.mpr hs.batch⟩
    forwards := by
      rw [hforwards, hall.totalAdmitted, h.forwards, List.length_append, List.length_singleton]
      omega
    work := by
      rw [hcomputed, hall.totalAdmitted, h.work, List.map_append, List.sum_append,
        List.map_singleton, List.sum_singleton]
      omega
    served := by
      intro r hr
      rw [hall.submitted] at hr
      have hbefore := h.served r hr
      rw [List.countP_append, List.countP_singleton]
      by_cases hact : r ∈ s.active
      · rw [hall.requests_active hact]
        simp only [hact, decide_true, if_true]
        omega
      · rw [hall.requests_ne hact]
        omega }

/-- The rounds are a schedule for the decodes that the requests have needed. -/
def Booked.schedule (h : Booked cfg rounds s) : Schedule s.submitted s.decodesOf cfg.maxBatchSize where
  rounds := rounds
  once := h.once
  narrow := h.narrow
  served := fun r hr => Nat.sub_le_of_le_add (h.served r hr)

theorem Booked.decodeForwards (h : Booked cfg rounds s) : s.decodeForwards = rounds.length := by
  unfold Batcher.decodeForwards
  rw [h.forwards]
  omega

theorem Booked.tick [Zero Col] (h : Booked cfg rounds s) (hs : SysInv cfg s)
    (htick : PGI.tick cfg s = .ok s') : Booked cfg (rounds ++ decoded cfg s .tick) s' := by
  obtain ⟨u, hu, hrest⟩ := tick_ok.mp htick
  obtain ⟨huinv, hbooked⟩ := (tryAdmit_intakes hu).keep (I := Booked cfg rounds)
    (fun _ _ ht hI hin => hI.intake ht hin) hs h
  rcases hrest with ⟨hempty, rfl⟩ | ⟨hne, hdecode⟩
  · rw [decoded_empty hu hempty, List.append_nil]
    exact hbooked
  · rw [decoded_batch hu hne]
    exact hbooked.decode huinv hne hdecode

/-- **The books of a run are its decoded batches.** -/
theorem runEvents_booked [Zero Col] {firstId : Nat} {events : List Event}
    (h : runEvents cfg firstId events = .ok s) :
    Booked cfg (decodedBatches cfg firstId events) s := by
  refine Runs.run_inputs (I := fun pre t => Booked cfg (decodedBatches cfg firstId pre) t)
    (booked_new cfg firstId) ?_ h
  intro pre t e t' ht hbooked hstep
  rw [decodedBatches_snoc ht]
  cases e with
  | submit maxTokens promptIds stream =>
    obtain rfl := Except.ok.inj hstep
    rw [decoded, List.append_nil]
    exact hbooked.submit (runEvents_inv ht) maxTokens promptIds stream
  | cancel rid =>
    obtain rfl := Except.ok.inj hstep
    rw [decoded, List.append_nil]
    split
    · exact hbooked.cancel rid
    · exact hbooked
  | tick => exact hbooked.tick (runEvents_inv ht) hstep

end Booked

/-! A closed workload. -/

/-- So many rounds have passed with an empty queue and a free place: every request that
    still runs was in all of them, and some request was. -/
def InTail (s : Batcher Col) (tail : Nat) : Prop :=
  tail = 0 ∨ (s.pending = [] ∧ (∀ r ∈ s.active, tail + 1 ≤ (s.requests r).nGenerated) ∧
    ∃ r ∈ s.submitted, tail + 1 ≤ (s.requests r).nGenerated)

/-- The rounds with a free place are those, but for one at most for each preemption. -/
structure Paced (cfg : Config Col) (s : Batcher Col) (rounds : List (List Nat)) (tail : Nat) : Prop where
  booked : Booked cfg rounds s
  short : short cfg.maxBatchSize rounds ≤ s.totalPreemptions + tail
  inTail : InTail s tail

section Closed
variable {cfg : Config Col} {rounds : List (List Nat)} {tail : Nat} {s s' : Batcher Col}

/-- With an empty queue nothing is admitted. -/
theorem tryAdmit_empty (hp : s.pending = []) : tryAdmit cfg s = .ok s := by
  have hstop : ∀ rid rest victim, ¬ Swappable cfg s rid rest victim := by
    intro rid rest victim hsw
    rw [hsw.pending] at hp
    cases hp
  unfold tryAdmit
  rw [hp]
  show (if cfg.strategy ≠ .probeDeprioritize then pure s else preemptLoop cfg cfg.maxBatchSize s) = _
  rw [preemptLoop_of_stop hstop]
  split
  · rfl
  · rfl

theorem Intake.preemptions_le (hs : SysInv cfg s) (h : Intake cfg s s') :
    s.totalPreemptions ≤ s'.totalPreemptions := by
  cases h with
  | admission rid rest _ hp hadm => exact (hs.admitOne hp hadm).totalPreemptions.ge
  | swap rid rest victim _ hsw hadm =>
    rw [(hsw.admission hs hadm).totalPreemptions]
    exact Nat.le_succ _

theorem Intakes.preemptions_le (hs : SysInv cfg s) (h : Intakes cfg s s') :
    s.totalPreemptions ≤ s'.totalPreemptions :=
  (h.keep (I := fun t => s.totalPreemptions ≤ t.totalPreemptions)
    (fun _ _ ht hI hin => hI.trans (hin.preemptions_le ht)) hs (le_refl _)).2

/-- A place is left free only when nobody waits, or after a preemption. -/
theorem tryAdmit_fills (hs : SysInv cfg s) (h : tryAdmit cfg s = .ok s') :
    WorkConserving cfg s' ∨ s.totalPreemptions < s'.totalPreemptions := by
  unfold tryAdmit at h
  obtain ⟨t, ht, h⟩ := bind_eq_ok.mp h
  have hfilled := admitLoop_conserving hs ht
  have hintakes := admitLoop_intakes _ ht
  have htinv := hintakes.inv hs
  have hle := hintakes.preemptions_le hs
  split at h
  · obtain rfl := Except.ok.inj h
    exact .inl hfilled
  · rename_i hstrategy
    cases hB : cfg.maxBatchSize with
    | zero =>
      rw [hB] at h
      obtain rfl := Except.ok.inj h
      exact .inl hfilled
    | succ attempts =>
      rw [hB] at h
      rcases preemptLoop_succ htinv h with ⟨rid, rest, victim, hsw, u, hadm, -, hrest⟩ | ⟨-, rfl⟩
      · have hswap : Intake cfg t u := .swap rid rest victim (not_not.mp hstrategy) hsw hadm
        have hone : u.totalPreemptions = t.totalPreemptions + 1 :=
          (hsw.admission htinv hadm).totalPreemptions
        have hmore := (preemptLoop_intakes (not_not.mp hstrategy) _ hrest).preemptions_le
          ((hswap.work htinv).inv htinv)
        exact .inr (by omega)
      · exact .inl hfilled

/-- What a decode phase makes of the tail: with an empty queue and a free place, one more. -/
theorem InTail.decode [Zero Col] (h : InTail s tail) (hs : SysInv cfg s) (hne : s.active ≠ [])
    (hdecode : DecodedAll cfg s s') :
    InTail s' tail ∧ (s.pending = [] → InTail s' (tail + 1)) := by
  have hactive : ∀ r ∈ s'.active, r ∈ s.active := by
    intro r hr
    obtain ⟨ids, hperm, -⟩ := hdecode.left
    exact hperm.mem_iff.mp (List.mem_append_left ids hr)
  have hone : ∀ r ∈ s.active, tail + 1 ≤ (s.requests r).nGenerated := by
    intro r hr
    rcases h with rfl | ⟨-, hall, -⟩
    · exact List.length_pos_iff.mpr (hs.running hr).nonempty
    · exact hall r hr
  refine ⟨?_, ?_⟩
  · rcases h with hzero | ⟨hp, -, r, hr, hgen⟩
    · exact .inl hzero
    · refine .inr ⟨by rw [hdecode.pending, hp], ?_, r, by rw [hdecode.submitted]; exact hr, ?_⟩
      · intro r hr
        rw [hdecode.requests_active (hactive r hr)]
        exact Nat.le_succ_of_le (hone r (hactive r hr))
      · by_cases hact : r ∈ s.active
        · rw [hdecode.requests_active hact]
          exact Nat.le_succ_of_le hgen
        · rw [hdecode.requests_ne hact]
          exact hgen
  · intro hp
    obtain ⟨r, rest, hr⟩ := List.exists_cons_of_ne_nil hne
    have hmem : r ∈ s.active := by
      rw [hr]
      exact List.mem_cons_self
    refine .inr ⟨by rw [hdecode.pending, hp], ?_, r, ?_, ?_⟩
    · intro r hr
      rw [hdecode.requests_active (hactive r hr)]
      exact Nat.succ_le_succ (hone r (hactive r hr))
    · rw [hdecode.submitted]
      exact hs.mem_submitted.mpr (.inr (.inl hmem))
    · rw [hdecode.requests_active hmem]
      exact Nat.succ_le_succ (hone r hmem)

/-- **A tick of a closed workload keeps the pace.** -/
theorem tick_paced [Zero Col] (hs : SysInv cfg s) (h : Paced cfg s rounds tail)
    (htick : tick cfg s = .ok s') : ∃ tail, Paced cfg s' (rounds ++ decoded cfg s .tick) tail := by
  have hbooked := h.booked.tick hs htick
  have hshort := h.short
  obtain ⟨u, hu, hrest⟩ := tick_ok.mp htick
  have huinv := (tryAdmit_intakes hu).inv hs
  have hmono := (tryAdmit_intakes hu).preemptions_le hs
  have htail : InTail u tail := by
    rcases h.inTail with hzero | ⟨hp, hall⟩
    · exact .inl hzero
    · obtain rfl := Except.ok.inj ((tryAdmit_empty hp).symm.trans hu)
      exact .inr ⟨hp, hall⟩
  rcases hrest with ⟨hempty, rfl⟩ | ⟨hne, hdecode⟩
  · refine ⟨tail, hbooked, ?_, htail⟩
    rw [decoded_empty hu hempty, List.append_nil]
    omega
  · have hall := decodePhase_works huinv hne hdecode
    obtain ⟨hsame, hnext⟩ := htail.decode huinv hne hall
    have hcount : short cfg.maxBatchSize (rounds ++ decoded cfg s .tick) =
        short cfg.maxBatchSize rounds + if u.active.length < cfg.maxBatchSize then 1 else 0 := by
      unfold short
      rw [decoded_batch hu hne, List.countP_append, List.countP_singleton]
      simp
    by_cases hroom : u.active.length < cfg.maxBatchSize
    · rw [if_pos hroom] at hcount
      by_cases hp : u.pending = []
      · refine ⟨tail + 1, hbooked, ?_, hnext hp⟩
        rw [hcount, hall.totalPreemptions]
        omega
      · -- somebody waits, so the tick has preempted
        refine ⟨tail, hbooked, ?_, hsame⟩
        rw [hcount, hall.totalPreemptions]
        rcases tryAdmit_fills hs hu with hconserving | hpreempted
        · rcases hconserving with hnobody | hfull
          · exact absurd hnobody hp
          · omega
        · omega
    · rw [if_neg hroom] at hcount
      refine ⟨tail, hbooked, ?_, hsame⟩
      rw [hcount, hall.totalPreemptions]
      omega

/-- Submissions are no work. -/
theorem decodedBatches_submissions [Zero Col] (cfg : Config Col) (firstId : Nat)
    (workload : List (Int × List Nat × Bool)) :
    decodedBatches cfg firstId (submissions workload) = [] := by
  apply Runs.emitted_eq_nil
  intro e he s
  obtain ⟨q, -, rfl⟩ := List.mem_map.mp he
  rfl

/-- The ticks after the last submission go at this pace. -/
theorem closed_paced [Zero Col] {firstId : Nat} {workload : List (Int × List Nat × Bool)} :
    ∀ {k : Nat} {s : Batcher Col},
    runEvents cfg firstId (submissions workload ++ List.replicate k .tick) = .ok s →
    ∃ tail, Paced cfg s
      (decodedBatches cfg firstId (submissions workload ++ List.replicate k .tick)) tail := by
  intro k
  induction k with
  | zero =>
    intro s h
    have hbooked := runEvents_booked h
    rw [List.replicate_zero, List.append_nil, decodedBatches_submissions] at hbooked ⊢
    exact ⟨0, hbooked, Nat.zero_le _, .inl rfl⟩
  | succ k ih =>
    intro s h
    rw [List.replicate_succ', ← List.append_assoc] at h ⊢
    obtain ⟨t, ht, htick⟩ := Runs.run_snoc_ok.mp h
    obtain ⟨tail, hpaced⟩ := ih ht
    rw [decodedBatches_snoc ht]
    exact tick_paced (runEvents_inv ht) hpaced htick

end Closed

section Bound
variable {cfg : Config Col} {firstId k : Nat} {workload : List (Int × List Nat × Bool)}
  {s : Batcher Col}

theorem arrivals_closed (workload : List (Int × List Nat × Bool)) (k : Nat) :
    arrivals (submissions workload ++ List.replicate k .tick) = workload.map Prod.fst := by
  have hsubmits : ∀ workload, arrivals (submissions workload) = workload.map Prod.fst := by
    intro workload
    induction workload with
    | nil => rfl
    | cons q workload ih => exact congrArg (q.1 :: ·) ih
  have hticks : arrivals (List.replicate k .tick) = [] := by
    unfold arrivals
    rw [List.filterMap_eq_nil_iff]
    intro e he
    rw [List.eq_of_mem_replicate he]
  have happend : arrivals (submissions workload ++ List.replicate k .tick) =
      arrivals (submissions workload) ++ arrivals (List.replicate k .tick) := List.filterMap_append
  rw [happend, hticks, List.append_nil, hsubmits]

theorem largest_closed (cfg : Config Col) (workload : List (Int × List Nat × Bool)) (k : Nat) :
    cfg.largest (arrivals (submissions workload ++ List.replicate k .tick)) =
      cfg.largestLimit workload := by
  unfold Config.largest Config.largestLimit
  rw [arrivals_closed, List.map_map]
  rfl

/-- When nothing is left to do, each request has been admitted once, and once more for each
    time it was preempted. -/
theorem idle_admitted [Zero Col] {events : List Event} (hrun : runEvents cfg firstId events = .ok s)
    (hidle : Idle s) : s.finished.Perm s.submitted ∧
      s.totalAdmitted = s.submitted.length + s.totalPreemptions := by
  have hfinished : s.finished.Perm s.submitted := by
    have hperm := (runEvents_inv hrun).partition
    rwa [hidle.1, hidle.2] at hperm
  refine ⟨hfinished, ?_⟩
  have hbalance := (runEvents_accounted hrun).balance
  rw [(runEvents_counted hrun).totalFinished, hfinished.length_eq, hidle.2, List.length_nil,
    Nat.add_zero] at hbalance
  exact hbalance

/-- Of a finished workload the rounds served what the requests needed, and what preemptions
    threw away. -/
theorem idle_work [Zero Col] {rounds : List (List Nat)} {events : List Event}
    (hrun : runEvents cfg firstId events = .ok s) (hidle : Idle s) (hb : Booked cfg rounds s) :
    (rounds.map List.length).sum ≤ Potential.total s.submitted s.decodesOf + discarded s.log := by
  have hs := runEvents_inv hrun
  obtain ⟨hfinished, hadmitted⟩ := idle_admitted hrun hidle
  have htokens : Potential.total s.submitted (fun r => (s.requests r).nGenerated) =
      Potential.total s.submitted s.decodesOf + s.submitted.length := by
    calc Potential.total s.submitted (fun r => (s.requests r).nGenerated)
        = Potential.total s.submitted (fun r => s.decodesOf r + 1) := by
          unfold Potential.total
          congr 1
          apply List.map_congr_left
          intro r hr
          have hdone := ((hs.lifeInv hr).done (hs.loc_finished (hfinished.mem_iff.mpr hr))).2.2
          have hpos : 0 < (s.requests r).nGenerated := List.length_pos_iff.mpr hdone
          unfold Batcher.decodesOf
          omega
      _ = Potential.total s.submitted s.decodesOf + Potential.total s.submitted (fun _ => 1) :=
          Potential.total_add
      _ = Potential.total s.submitted s.decodesOf + s.submitted.length := by
          simp [Potential.total]
  have hwork := hb.work
  rw [runEvents_computed hrun, htokens, hadmitted] at hwork
  omega

/-- **Continuous batching is list scheduling.** In every run of a workload that is all there
    before the first tick, under every strategy: when it is done, the batches it has decoded,
    one a forward, are a schedule of the decodes the requests needed, at most `B` of them in
    a forward and one of each request; and any such schedule takes more than half as many
    forwards. Only under `probe_deprioritize` are there more, and of `N` requests that may
    get `L` tokens no more than `max 0 (N - B) * (L + B - 2)` over `B`. -/
theorem forwards_competitive [Zero Col] (hrun : runEvents cfg firstId
      (submissions workload ++ List.replicate k .tick) = .ok s) (hidle : Idle s) :
    (∃ σ : Schedule s.submitted s.decodesOf cfg.maxBatchSize,
      σ.rounds = decodedBatches cfg firstId (submissions workload ++ List.replicate k .tick) ∧
        σ.rounds.length = s.decodeForwards) ∧
    ∀ σ : Schedule s.submitted s.decodesOf cfg.maxBatchSize,
      (cfg.strategy ≠ .probeDeprioritize →
        cfg.maxBatchSize * s.decodeForwards ≤ (2 * cfg.maxBatchSize - 1) * σ.rounds.length) ∧
      cfg.maxBatchSize * s.decodeForwards ≤ (2 * cfg.maxBatchSize - 1) * σ.rounds.length +
        (workload.length - cfg.maxBatchSize) *
          ((cfg.largestLimit workload - 1) + (cfg.maxBatchSize - 1)) := by
  obtain ⟨tail, hpaced⟩ := closed_paced hrun
  have hs := runEvents_inv hrun
  refine ⟨⟨hpaced.booked.schedule, rfl, hpaced.booked.decodeForwards.symm⟩, ?_⟩
  intro σ
  have htail : tail = 0 ∨ ∃ r ∈ s.submitted, tail ≤ s.decodesOf r := by
    rcases hpaced.inTail with hzero | ⟨-, -, r, hr, hgen⟩
    · exact .inl hzero
    · exact .inr ⟨r, hr, Nat.le_sub_one_of_lt hgen⟩
  have hbound := list_scheduling σ hs.nodup hpaced.booked.nonempty
    (idle_work hrun hidle hpaced.booked) hpaced.short htail
  rw [← hpaced.booked.decodeForwards] at hbound
  refine ⟨?_, ?_⟩
  · intro hstrategy
    rw [runEvents_undiscarded hstrategy hrun, runEvents_unpreempted hstrategy hrun] at hbound
    simpa using hbound
  · have hlength : s.submitted.length = workload.length := by
      rw [(runEvents_numbered hrun).length, arrivals_closed, List.length_map]
    have hpreempted := runEvents_preemptions_le hrun
    have hthrown := runEvents_discarded_le hrun
    rw [largest_closed] at hthrown
    rw [hlength] at hpreempted
    have hwaste : discarded s.log + (cfg.maxBatchSize - 1) * s.totalPreemptions ≤
        (workload.length - cfg.maxBatchSize) *
          ((cfg.largestLimit workload - 1) + (cfg.maxBatchSize - 1)) := by
      calc discarded s.log + (cfg.maxBatchSize - 1) * s.totalPreemptions
          ≤ s.totalPreemptions * (cfg.largestLimit workload - 1) +
              (cfg.maxBatchSize - 1) * s.totalPreemptions := Nat.add_le_add_right hthrown _
        _ = s.totalPreemptions * ((cfg.largestLimit workload - 1) + (cfg.maxBatchSize - 1)) := by ring
        _ ≤ _ := Nat.mul_le_mul_right _ hpreempted
    exact hbound.trans (Nat.add_le_add_left hwaste _)

end Bound

/-- Two requests and a batch of one; the first is preempted for the second, so its first
    decode is thrown away. -/
theorem forwards_competitive_two : ∃ s,
    runEvents (divergentConfig .probeDeprioritize) 1
      (submissions [(3, [1], false), (2, [2], true)] ++ List.replicate 6 .tick) = .ok s ∧
    (∃ σ : Schedule s.submitted s.decodesOf (divergentConfig .probeDeprioritize).maxBatchSize,
      σ.rounds = [[1], [2], [1], [1]] ∧ σ.rounds.length = s.decodeForwards) ∧
    ∀ σ : Schedule s.submitted s.decodesOf (divergentConfig .probeDeprioritize).maxBatchSize,
      ((divergentConfig .probeDeprioritize).strategy ≠ .probeDeprioritize →
        (divergentConfig .probeDeprioritize).maxBatchSize * s.decodeForwards ≤
          (2 * (divergentConfig .probeDeprioritize).maxBatchSize - 1) * σ.rounds.length) ∧
      (divergentConfig .probeDeprioritize).maxBatchSize * s.decodeForwards ≤
        (2 * (divergentConfig .probeDeprioritize).maxBatchSize - 1) * σ.rounds.length +
          (2 - (divergentConfig .probeDeprioritize).maxBatchSize) *
            (((divergentConfig .probeDeprioritize).largestLimit [(3, [1], false), (2, [2], true)] - 1) +
              ((divergentConfig .probeDeprioritize).maxBatchSize - 1)) := by
  have hrun : (runEvents (divergentConfig .probeDeprioritize) 1
      (submissions [(3, [1], false), (2, [2], true)] ++ List.replicate 6 .tick)).toOption.map
        (fun s => (s.pending, s.active)) = some ([], []) := by decide
  have hbatches : decodedBatches (divergentConfig .probeDeprioritize) 1
      (submissions [(3, [1], false), (2, [2], true)] ++ List.replicate 6 .tick) =
        [[1], [2], [1], [1]] := by decide
  obtain ⟨s, hs, hstate⟩ := toOption_map_eq_some.mp hrun
  obtain ⟨hpend, hact⟩ : s.pending = [] ∧ s.active = [] := by simpa using hstate
  obtain ⟨⟨σ, hrounds, hlength⟩, hbound⟩ := forwards_competitive hs ⟨hpend, hact⟩
  exact ⟨s, hs, ⟨σ, hrounds.trans hbatches, hlength⟩, hbound⟩

end PGI
