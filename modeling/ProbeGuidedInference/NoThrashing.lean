import ProbeGuidedInference.FailedAdmission
import ProbeGuidedInference.Swapping
import ProbeGuidedInference.Checkpoint

/- When the batcher thrashes. At a tick boundary every active request has been decoded, so
   the second loop of `_try_admit` throws a decode away at least, unless its victim was
   admitted by the first loop of the same call. That loop takes requests in the order of
   the queue whatever their priority: where it resumes a deprioritized request while a
   normal one stands behind it, the second loop preempts the request it has just resumed,
   which has generated least. Exceptions are included: what a call has done is read in the
   state in which it ends, whether it returns or raises. -/
namespace PGI
open Fallible

variable {Col : Type}

/-- Every attempt that was preempted had taken part in a decode step. -/
def DecodedFirst (s : Batcher Col) : Prop :=
  ∀ r ∈ s.submitted, ∀ attempt ∈ attempts (s.history r), ∀ n,
    .preempt r n ∈ attempt → ∃ token, .decode r token ∈ attempt

/-- From `s` to `s'` no request is both admitted and preempted. -/
def NotBoth (s s' : Batcher Col) : Prop :=
  ∃ entries, s'.log = s.log ++ entries ∧
    ∀ r p waiting n, .admitted r p waiting ∈ entries → .preempt r n ∉ entries

/-- The first loop fills the batch, with a deprioritized request among those it keeps,
    and leaves a normal one at the head of the queue. -/
def ResumesTooEarly (cfg : Config Col) (s : Batcher Col) : Prop :=
  ∃ admitted kept d behind, Fills cfg s admitted kept (d :: behind) ∧ s.priority d = 0 ∧
    ∃ r ∈ kept, s.priority r = 1

/-! What one admission leaves behind, returning or raising. -/

/-- `rid`, the head of the queue, was taken from it, and `rest` stays there. -/
structure Taken (s u : Batcher Col) (rid : Nat) (rest : List Nat) : Prop where
  pending : u.pending = rest
  active : ∀ r ∈ u.active, r ∈ s.active ∨ r = rid
  priority : u.priority = s.priority
  other : ∀ r ≠ rid, u.requests r = s.requests r
  log : ∃ p waiting tail, (∀ e ∈ tail, e.quiet = true) ∧
    u.log = s.log ++ .admitted rid p waiting :: tail

section Loops
variable {cfg : Config Col} {s : Batcher Col} {rid victim : Nat} {rest : List Nat}
  {P : Batcher Col → Prop}

theorem admitOne_taken (hs : SysInv cfg s) (hp : s.pending = rid :: rest) :
    Taken s (final (admitOne cfg s)) rid rest := by
  cases h : admitOne cfg s with
  | error x =>
    obtain ⟨msg, -, rfl⟩ := admitOne_error hs hp h
    exact {
      pending := rfl
      active := fun r hr => .inl hr
      priority := rfl
      other := fun _ _ => rfl
      log := ⟨_, _, [], by simp, rfl⟩ }
  | ok u =>
    have hadm := hs.admitOne hp h
    obtain ⟨tail, htail, hlog⟩ := admitOne_log hs hp h
    exact {
      pending := hadm.pending
      active := by
        intro r hr
        rcases hadm.place with ⟨hact, -⟩ | ⟨hact, -⟩
        · rw [final_ok, hact] at hr
          simpa using hr
        · rw [final_ok, hact] at hr
          exact .inl hr
      priority := hadm.priority
      other := fun r hr => hadm.requests_ne hr
      log := ⟨_, _, tail, htail, hlog⟩ }

theorem Swappable.taken (hs : SysInv cfg s) (hsw : Swappable cfg s rid rest victim) :
    Taken (preempt s victim) (final (admitOne cfg (preempt s victim))) rid (rest ++ [victim]) := by
  obtain ⟨hmem, hv⟩ := findDeprioritizeVictim_some hsw.victim
  exact admitOne_taken (hs.preempt hmem hv) (hs.preempt_pending_cons hv hsw.pending)

/-- What every turn of the first loop keeps, the one that raises included, the loop keeps. -/
theorem admitLoop_final : ∀ (fuel : Nat) {s : Batcher Col},
    (∀ t rid rest, SysInv cfg t → P t → t.pending = rid :: rest → P (final (admitOne cfg t))) →
    SysInv cfg s → P s → P (final (admitLoop cfg fuel s)) := by
  intro fuel
  induction fuel with
  | zero => exact fun _ _ hP => hP
  | succ fuel ih =>
    intro s hturn hs hP
    rcases admitLoop_turn cfg fuel s with ⟨rid, rest, hroom, hp, heq⟩ | ⟨-, heq⟩
    · have hnext := hturn s rid rest hs hP hp
      rw [heq]
      apply final_bind hnext
      intro t ht
      rw [ht] at hnext
      exact ih hturn ((hs.admitOne hp ht).inv hs hp hroom) hnext
    · rw [heq]
      exact hP

theorem preemptLoop_final : ∀ (attempts : Nat) {s : Batcher Col},
    (∀ t rid rest victim, SysInv cfg t → P t → Swappable cfg t rid rest victim →
      P (final (admitOne cfg (preempt t victim)))) →
    SysInv cfg s → P s → P (final (preemptLoop cfg attempts s)) := by
  intro attempts
  induction attempts with
  | zero => exact fun _ _ hP => hP
  | succ attempts ih =>
    intro s hturn hs hP
    rcases preemptLoop_turn cfg attempts s with ⟨rid, rest, victim, hsw, heq⟩ | ⟨-, heq⟩
    · have hnext := hturn s rid rest victim hs hP hsw
      rw [heq]
      apply final_bind hnext
      intro t ht
      rw [ht] at hnext
      exact ih hturn (hsw.inv hs ht) hnext
    · rw [heq]
      exact hP

end Loops

/-! What a preemption throws away. -/

/-- Each preemption was of as many tokens as its attempt had generated. -/
def Spent (history : List LogEntry) : Prop :=
  ∀ attempt ∈ attempts history, ∀ r n, .preempt r n ∈ attempt → n = tokensOf attempt

/-- The current attempt has generated the tokens the request holds. -/
structure Weighed (v : View Col) : Prop where
  spent : Spent v.history
  current : v.loc = .active → ∃ attempt older, attempts v.history = attempt :: older ∧
    tokensOf attempt = v.req.nGenerated ∧ ∀ r n, .preempt r n ∉ attempt

section OneRequest
variable {cfg : Config Col} {rid : Nat} {v : View Col}

theorem mem_of_mem_attempt {history attempt : List LogEntry} {e : LogEntry}
    (ha : attempt ∈ attempts history) (he : e ∈ attempt) : e ∈ history := by
  induction history using List.reverseRecOn generalizing attempt with
  | nil => cases ha
  | append_singleton history x ih =>
    rw [attempts_append] at ha
    simp only [List.foldl_cons, List.foldl_nil] at ha
    unfold addEntry at ha
    split at ha
    · rcases List.mem_cons.mp ha with rfl | ha
      · cases he
      · exact List.mem_append_left _ (ih ha he)
    · cases ha
    · rename_i current older _ heq
      rcases List.mem_cons.mp ha with rfl | ha
      · rcases List.mem_append.mp he with he | he
        · exact List.mem_append_left _ (ih (heq ▸ List.mem_cons_self) he)
        · exact List.mem_append_right _ he
      · exact List.mem_append_left _ (ih (heq ▸ List.mem_cons_of_mem current ha) he)

/-- The tokens after the first are those of decodes. -/
theorem exists_decode {attempt : List LogEntry} (h : 1 < tokensOf attempt) :
    ∃ rid token, .decode rid token ∈ attempt := by
  unfold tokensOf at h
  obtain ⟨e, he, hdecode⟩ := List.countP_pos_iff.mp (Nat.lt_add_right_iff_pos.mp h)
  cases e with
  | decode rid token => exact ⟨rid, token, he⟩
  | _ => cases hdecode

theorem weighed_finish {time : ℚ} (h : Weighed v) (hloc : v.loc = .active) :
    Weighed (v.finish cfg rid time) where
  spent := by
    obtain ⟨attempt, older, heq, -, hnone⟩ := h.current hloc
    intro a ha r n hmem
    cases mem_attempts_extend heq (by simp) ha with
    | inl ha =>
      rw [ha] at hmem
      exact absurd (by simpa using hmem) (hnone r n)
    | inr ha => exact h.spent a ha r n hmem
  current hc := by cases hc

theorem weighed_preempt (h : Weighed v) (hloc : v.loc = .active) : Weighed (v.preempt rid) where
  spent := by
    obtain ⟨attempt, older, heq, htokens, hnone⟩ := h.current hloc
    intro a ha r n hmem
    cases mem_attempts_extend heq (by simp) ha with
    | inl ha =>
      rw [ha] at hmem ⊢
      -- the attempt has no other preemption than the one that ends it
      rcases List.mem_append.mp hmem with hmem | hmem
      · exact absurd hmem (hnone r n)
      · obtain ⟨-, rfl⟩ : r = rid ∧ n = v.req.nGenerated := by simpa using hmem
        rw [tokensOf_preempt, htokens]
    | inr ha => exact h.spent a ha r n hmem
  current hc := by cases hc

theorem weighed_prefill (hinv : LifeInv cfg v) (h : Weighed v) (hloc : v.loc = .pending)
    (waiting : List Int) (out : PrefillOut Col cfg.model.nLayers v.req.promptIds.length) :
    Weighed (v.prefill cfg rid waiting out) where
  spent := by
    intro a ha r n hmem
    rw [attempts_prefill] at ha
    cases List.mem_cons.mp ha with
    | inl ha =>
      rw [ha] at hmem
      cases hmem
    | inr ha => exact h.spent a ha r n hmem
  current _ := by
    obtain ⟨-, -, hgen, -⟩ := hinv.waiting hloc
    refine ⟨[], attempts v.history, attempts_prefill cfg rid waiting out v, ?_, by simp⟩
    simp [tokensOf, GenerationRequest.nGenerated, hgen]

theorem weighed_advance (h : Weighed v) (hloc : v.loc = .active) {L : Nat}
    (cols : Fin L → List Col × List Col) (row : ForwardRow Col L) (answer : Answer) :
    Weighed (v.advance cfg rid cols row answer) := by
  obtain ⟨attempt, older, heq, htokens, hnone⟩ := h.current hloc
  have hno : ∀ r p waiting, .admitted r p waiting ∉
      View.decodeEntries rid (argmax row.logits) v.req.nGenerated answer := by simp
  have hnew : ∀ r n, .preempt r n ∉
      attempt ++ View.decodeEntries rid (argmax row.logits) v.req.nGenerated answer := by
    simp [hnone]
  refine ⟨?_, fun _ => ⟨_, older, attempts_extend heq hno, ?_, hnew⟩⟩
  · intro a ha r n hmem
    cases mem_attempts_extend heq hno ha with
    | inl ha =>
      rw [ha] at hmem
      exact absurd hmem (hnew r n)
    | inr ha => exact h.spent a ha r n hmem
  · rw [tokensOf_decode, htokens]
    simp [GenerationRequest.nGenerated]

theorem LifeReach.spent (h : LifeReach cfg rid v) : Spent v.history := by
  refine (h.keep_moves (P := Weighed) ?_ ?_ ?_ ?_ ?_ ?_).spent
  · intro maxTokens promptIds stream
    exact ⟨fun a ha => (by cases ha), fun hc => by cases hc⟩
  · intro v h
    exact ⟨h.spent, h.current⟩
  · intro v waiting out hinv h hloc
    exact weighed_prefill hinv h hloc waiting out
  · intro v cols _ _ row answer _ h hloc _ _ _
    exact weighed_advance h hloc cols row answer
  · intro v _ h hloc _
    exact weighed_preempt h hloc
  · intro v time h hloc
    exact weighed_finish h hloc

end OneRequest

/-! What one call of `_try_admit` preempts. -/

/-- Every active request has been decoded. -/
def Grown (s : Batcher Col) : Prop := ∀ r ∈ s.active, 2 ≤ (s.requests r).nGenerated

/-- From `s` to `u` only requests that were not active are admitted, and only requests that
    were, and had been decoded, are preempted. -/
def Spares (s u : Batcher Col) : Prop :=
  ∃ entries, u.log = s.log ++ entries ∧
    (∀ r p waiting, .admitted r p waiting ∈ entries → r ∉ s.active) ∧
    ∀ r n, .preempt r n ∈ entries → r ∈ s.active ∧ 2 ≤ n

/-- What holds of a state `t` of the second loop, in a call made in `s`. -/
structure Midway (s t : Batcher Col) : Prop where
  priority : t.priority = s.priority
  victims : ∀ r ∈ t.active, s.priority r = 1 → r ∈ s.active ∧ t.requests r = s.requests r
  arrivals : ∀ r ∈ t.pending, s.priority r = 0 → r ∉ s.active
  spares : Spares s t

section Call
variable {cfg : Config Col} {s t u : Batcher Col} {rid victim : Nat} {rest : List Nat}

theorem Spares.refl (s : Batcher Col) : Spares s s :=
  ⟨[], by simp, by simp, by simp⟩

theorem Spares.notBoth (h : Spares s u) : NotBoth s u := by
  obtain ⟨entries, hlog, hadmitted, hpreempted⟩ := h
  refine ⟨entries, hlog, ?_⟩
  intro r p waiting n ha hp
  exact hadmitted r p waiting ha (hpreempted r n hp).1

theorem Spares.admit (h : Spares s t) (ht : Taken t u rid rest) (hrid : rid ∉ s.active) :
    Spares s u := by
  obtain ⟨entries, hlog, hadmitted, hpreempted⟩ := h
  obtain ⟨p, waiting, tail, htail, hu⟩ := ht.log
  refine ⟨entries ++ .admitted rid p waiting :: tail, by rw [hu, hlog, List.append_assoc], ?_, ?_⟩
  · intro r p' waiting' hmem
    rcases List.mem_append.mp hmem with hmem | hmem
    · exact hadmitted r p' waiting' hmem
    · rcases List.mem_cons.mp hmem with heq | hmem
      · cases heq
        exact hrid
      · have := htail _ hmem
        cases this
  · intro r n hmem
    rcases List.mem_append.mp hmem with hmem | hmem
    · exact hpreempted r n hmem
    · rcases List.mem_cons.mp hmem with heq | hmem
      · cases heq
      · have := htail _ hmem
        cases this

theorem Spares.preempt (h : Spares s t) (hvictim : victim ∈ s.active)
    (hgrown : 2 ≤ (t.requests victim).nGenerated) : Spares s (preempt t victim) := by
  obtain ⟨entries, hlog, hadmitted, hpreempted⟩ := h
  refine ⟨entries ++ [.preempt victim (t.requests victim).nGenerated], ?_, ?_, ?_⟩
  · rw [preempt_log, hlog, List.append_assoc]
  · intro r p waiting hmem
    exact hadmitted r p waiting (by simpa using hmem)
  · intro r n hmem
    rcases List.mem_append.mp hmem with hmem | hmem
    · exact hpreempted r n hmem
    · obtain ⟨rfl, rfl⟩ : r = victim ∧ n = (t.requests victim).nGenerated := by simpa using hmem
      exact ⟨hvictim, hgrown⟩

/-- The first loop preempts nobody, also when it raises. -/
theorem admitLoop_spares (hs : SysInv cfg s) (fuel : Nat) :
    Spares s (final (admitLoop cfg fuel s)) := by
  refine (admitLoop_final (P := fun t => t.pending ⊆ s.pending ∧ Spares s t) fuel ?_ hs
    ⟨List.Subset.refl _, .refl s⟩).2
  intro t rid rest ht h hp
  obtain ⟨hsub, hspares⟩ := h
  have htaken := admitOne_taken ht hp
  rw [hp, List.cons_subset] at hsub
  refine ⟨?_, hspares.admit htaken (hs.pending_not_active hsub.1)⟩
  rw [htaken.pending]
  exact hsub.2

/-- A swap preempts a request that was active before the call. -/
theorem Midway.swap (hgrown : Grown s) (ht : SysInv cfg t) (h : Midway s t)
    (hsw : Swappable cfg t rid rest victim) :
    Midway s (final (admitOne cfg (PGI.preempt t victim))) := by
  obtain ⟨hmem, hv⟩ := findDeprioritizeVictim_some hsw.victim
  have htaken := hsw.taken ht
  rw [h.priority] at hv
  obtain ⟨hin, hreq⟩ := h.victims victim hmem hv
  have hhead : s.priority rid = 0 := by
    rw [← h.priority]
    exact hsw.head
  have hrid : rid ∉ s.active := h.arrivals rid (by rw [hsw.pending]; exact List.mem_cons_self) hhead
  refine ⟨(htaken.priority.trans (preempt_priority t victim)).trans h.priority, ?_, ?_, ?_⟩
  · intro r hr hone
    rcases htaken.active r hr with hr | rfl
    · rw [preempt_active, ht.active_nodup.mem_erase_iff] at hr
      have hne : r ≠ rid := fun heq => ht.head_not_active hsw.pending (heq ▸ hr.2)
      obtain ⟨hold, hsame⟩ := h.victims r hr.2 hone
      refine ⟨hold, ?_⟩
      rw [htaken.other r hne, preempt_requests_ne t victim hr.1, hsame]
    · omega
  · intro r hr hzero
    rw [htaken.pending] at hr
    rcases List.mem_append.mp hr with hr | hr
    · exact h.arrivals r (by rw [hsw.pending]; exact List.mem_cons_of_mem rid hr) hzero
    · obtain rfl := List.mem_singleton.mp hr
      omega
  · apply Spares.admit _ htaken hrid
    apply h.spares.preempt hin
    rw [hreq]
    exact hgrown victim hin

/-- Where the first loop has resumed no deprioritized request, the second starts well. -/
theorem TookIn.midway (hs : SysInv cfg s) {admitted kept : List Nat}
    (h : TookIn s t admitted kept rest) (hspares : Spares s t)
    (hkept : ∀ r ∈ kept, s.priority r ≠ 1) : Midway s t where
  priority := h.priority
  victims := by
    intro r hr hone
    rw [h.active] at hr
    have hold : r ∈ s.active := by
      rcases List.mem_append.mp hr with hr | hr
      · exact hr
      · exact absurd hone (hkept r hr)
    refine ⟨hold, h.other r ?_⟩
    intro hc
    exact hs.pending_not_active (by rw [h.queue]; exact List.mem_append_left _ hc) hold
  arrivals := by
    intro r hr _
    rw [h.pending] at hr
    exact hs.pending_not_active (by rw [h.queue]; exact List.mem_append_right _ hr)
  spares := hspares

/-- **A call that does not resume too early spares what it admits**, and preempts only
    what has been decoded. -/
theorem tryAdmit_spares (hs : SysInv cfg s) (hgrown : Grown s) (hnot : ¬ ResumesTooEarly cfg s) :
    Spares s (final (tryAdmit cfg s)) := by
  unfold tryAdmit
  have hfirst := admitLoop_spares hs s.pending.length
  apply final_bind hfirst
  intro t ht
  rw [ht] at hfirst
  split
  · exact hfirst
  · have htinv := (admitLoop_works _ hs ht).inv hs
    by_cases hswap : ∃ rid rest victim, Swappable cfg t rid rest victim
    · obtain ⟨rid, behind, victim, hsw⟩ := hswap
      obtain ⟨admitted, kept, rest, htook, hend⟩ := admitLoop_tookIn _ hs ht
      obtain rfl : rest = rid :: behind := htook.pending.symm.trans hsw.pending
      rcases hend (le_refl _) with hf | ⟨hroom, -⟩
      · have hkept : ∀ r ∈ kept, s.priority r ≠ 1 := by
          intro r hr hone
          refine hnot ⟨admitted, kept, rid, behind, hf, ?_, r, hr, hone⟩
          rw [← htook.priority]
          exact hsw.head
        refine (preemptLoop_final (P := Midway s) _ ?_ htinv (htook.midway hs hfirst hkept)).spares
        intro v rid rest victim hv hmid hsw
        exact hmid.swap hgrown hv hsw
      · have := hsw.full
        omega
    · have hstop : ∀ rid rest victim, ¬ Swappable cfg t rid rest victim :=
        fun rid rest victim hsw => hswap ⟨rid, rest, victim, hsw⟩
      rw [preemptLoop_of_stop hstop]
      exact hfirst

end Call

/-! A call that resumes too early. -/

section TooEarly
variable {cfg : Config Col} {s t u : Batcher Col} {rid victim : Nat} {rest : List Nat}

/-- The victim is the one that has generated least. -/
theorem minByGenerated_le (s : Batcher Col) {best : Nat} : ∀ ids : List Nat,
    minByGenerated s ids = some best →
    ∀ r ∈ ids, (s.requests best).nGenerated ≤ (s.requests r).nGenerated := by
  intro ids
  induction ids generalizing best with
  | nil =>
    intro h
    cases h
  | cons rid rest ih =>
    intro h r hr
    simp only [minByGenerated] at h
    split at h
    · rename_i hnone
      obtain rfl := Option.some.inj h
      cases rest with
      | nil =>
        obtain rfl := List.mem_singleton.mp hr
        exact le_refl _
      | cons x xs =>
        obtain ⟨y, hy⟩ := minByGenerated_isSome s x xs
        rw [hy] at hnone
        cases hnone
    · rename_i least hleast
      have hrest := ih hleast
      split at h
      · obtain rfl := Option.some.inj h
        rcases List.mem_cons.mp hr with rfl | hr
        · omega
        · exact hrest r hr
      · obtain rfl := Option.some.inj h
        rcases List.mem_cons.mp hr with rfl | hr
        · exact le_refl _
        · have := hrest r hr
          omega

theorem findDeprioritizeVictim_le (h : findDeprioritizeVictim s = some victim) {r : Nat}
    (hr : r ∈ s.active) (hone : s.priority r = 1) :
    (s.requests victim).nGenerated ≤ (s.requests r).nGenerated :=
  minByGenerated_le s _ h r (by simp [hr, hone])

theorem Taken.log_extends (h : Taken s u rid rest) : s.log <+: u.log := by
  obtain ⟨p, waiting, tail, -, hlog⟩ := h.log
  exact ⟨_, hlog.symm⟩

/-- A swap is on record, whatever comes of it and after it. -/
theorem Swappable.log_extends (hs : SysInv cfg s) (hsw : Swappable cfg s rid rest victim)
    (attempts : Nat) :
    (preempt s victim).log <+: (final (preemptLoop cfg (attempts + 1) s)).log := by
  rw [preemptLoop_of_swappable hsw]
  have hfirst := (hsw.taken hs).log_extends
  refine final_bind (P := fun u : Batcher Col => (preempt s victim).log <+: u.log) hfirst ?_
  intro t ht
  rw [ht] at hfirst
  refine preemptLoop_final (P := fun u : Batcher Col => (preempt s victim).log <+: u.log) attempts ?_
    (hsw.inv hs ht) hfirst
  intro v rid' rest' victim' hv hbefore hsw'
  have hstep : v.log <+: (preempt v victim').log := ⟨_, (preempt_log v victim').symm⟩
  exact (hbefore.trans hstep).trans (hsw'.taken hv).log_extends

/-- **A call that resumes too early preempts a request it has admitted.** -/
theorem ResumesTooEarly.not_notBoth (hs : SysInv cfg s) (hgrown : Grown s)
    (h : ResumesTooEarly cfg s) : ¬ NotBoth s (final (tryAdmit cfg s)) := by
  obtain ⟨admitted, kept, d, behind, hf, hzero, r, hr, hone⟩ := h
  obtain ⟨t, ht, htook⟩ := hf.admitLoop _ hs (le_refl _)
  have htinv := (admitLoop_works _ hs ht).inv hs
  have hract : r ∈ t.active := by
    rw [htook.active]
    exact List.mem_append_right _ hr
  have hfull : t.active.length = cfg.maxBatchSize := by
    rw [htook.active, List.length_append]
    exact hf.room
  rw [← htook.priority] at hzero hone
  obtain ⟨victim, hsw⟩ := swappable_of_normal hfull htook.pending hzero
    (List.countP_pos_iff.mpr ⟨r, hract, by simp [hone]⟩)
  -- the victim has generated no more than `r`, and so is not one that was active before
  have hvictim : victim ∈ admitted := by
    have hle := findDeprioritizeVictim_le hsw.victim hract hone
    rw [htook.fresh r hr] at hle
    have hmem := (findDeprioritizeVictim_some hsw.victim).1
    rw [htook.active] at hmem
    rcases List.mem_append.mp hmem with hold | hnew
    · have hnot : victim ∉ admitted := by
        intro hc
        exact hs.pending_not_active (by rw [htook.queue]; exact List.mem_append_left _ hc) hold
      have hge := hgrown victim hold
      rw [htook.other victim hnot] at hle
      omega
    · exact htook.subset hnew
  have hstrategy : cfg.strategy = .probeDeprioritize := by
    rcases htinv.priority (htinv.mem_submitted.mpr (.inr (.inl hract))) with h | ⟨-, h⟩
    · omega
    · exact h
  obtain ⟨k, hk⟩ : ∃ k, cfg.maxBatchSize = k + 1 := by
    have hpos : 0 < t.active.length := List.length_pos_of_mem hract
    exact ⟨cfg.maxBatchSize - 1, by omega⟩
  have hcall : tryAdmit cfg s = preemptLoop cfg (k + 1) t := by
    unfold tryAdmit
    rw [ht, ok_bind, if_neg (by simp [hstrategy]), hk]
  obtain ⟨entries, hlog, hadmitted, -⟩ := htook.log
  obtain ⟨more, hmore⟩ := hsw.log_extends htinv k
  intro hspared
  obtain ⟨all, hall, hboth⟩ := hspared
  have hsplit : all =
      entries ++ .preempt victim (t.requests victim).nGenerated :: more := by
    rw [hcall, ← hmore, preempt_log, hlog] at hall
    simpa using hall.symm
  rw [← hadmitted, mem_admissions] at hvictim
  obtain ⟨p, waiting, hmem⟩ := hvictim
  exact hboth victim p waiting _ (by rw [hsplit]; exact List.mem_append_left _ hmem)
    (by rw [hsplit]; exact List.mem_append_right _ List.mem_cons_self)

end TooEarly

/-! Whole runs. -/

section Runs
variable [Zero Col] {cfg : Config Col} {firstId : Nat} {events : List Event} {s s' : Batcher Col}

omit [Zero Col] in
theorem Decoded.nGenerated {rid : Nat} {v v' : View Col} (h : Decoded cfg rid v v') :
    v'.req.nGenerated = v.req.nGenerated + 1 := by
  obtain ⟨cols, token, position, row, answer, time, -, -, -, -, -⟩ := h
  rcases v.decode_cases cfg rid time cols row answer with ⟨heq, -⟩ | ⟨heq, -⟩
  · rw [heq]
    simp [GenerationRequest.nGenerated]
  · rw [heq]
    simp [GenerationRequest.nGenerated]

omit [Zero Col] in
/-- After a decode phase every active request has been decoded. -/
theorem DecodedAll.grown (hs : SysInv cfg s) (h : DecodedAll cfg s s') : Grown s' := by
  intro r hr
  obtain ⟨ids, hperm, -⟩ := h.left
  have hmem : r ∈ s.active := hperm.mem_iff.mp (List.mem_append_left ids hr)
  have hone : 1 ≤ (s.requests r).nGenerated := List.length_pos_iff.mpr (hs.running hmem).nonempty
  have hnext : (s'.requests r).nGenerated = (s.requests r).nGenerated + 1 := (h.self r hmem).nGenerated
  omega

theorem tick_grown (hs : SysInv cfg s) (h : tick cfg s = .ok s') : Grown s' := by
  obtain ⟨t, ht, h⟩ := tick_ok.mp h
  rcases h with ⟨hempty, rfl⟩ | ⟨hne, hd⟩
  · intro r hr
    rw [hempty] at hr
    cases hr
  · have htinv := (tryAdmit_works hs ht).inv hs
    exact (decodePhase_works htinv hne hd).grown htinv

theorem runEvents_grown (h : runEvents cfg firstId events = .ok s) : Grown s := by
  refine (Runs.run_invariant (I := fun s => SysInv cfg s ∧ Grown s) ?_
    ⟨sysInv_new firstId, fun r hr => by cases hr⟩ h).2
  intro s e s' hI hstep
  obtain ⟨hs, hg⟩ := hI
  refine hs.event_tick ?_ ?_ (fun _ _ hs _ h => tick_grown hs h) hg hstep
  · intro s maxTokens promptIds stream hs hg r hr
    have hne : r ≠ s.nextId :=
      fun heq => hs.nextId_not_submitted (heq ▸ hs.mem_submitted.mpr (.inr (.inl hr)))
    rw [submit_requests_ne maxTokens promptIds stream hne]
    exact hg r hr
  · intro s rid _ hg _ r hr
    obtain ⟨f, hf⟩ := cancel_requests s rid r
    rw [hf]
    exact hg r hr

/-- No preemption on record was of a single token. -/
def Patient (log : List LogEntry) : Prop := ∀ r n, .preempt r n ∈ log → 2 ≤ n

omit [Zero Col] in
theorem Spares.patient (h : Spares s s') (hs : Patient s.log) : Patient s'.log := by
  obtain ⟨entries, hlog, -, hpreempted⟩ := h
  intro r n hmem
  rw [hlog] at hmem
  rcases List.mem_append.mp hmem with hmem | hmem
  · exact hs r n hmem
  · exact (hpreempted r n hmem).2

omit [Zero Col] in
theorem Quiet.patient (h : Quiet s s') (hs : Patient s.log) : Patient s'.log := by
  obtain ⟨entries, hlog, hq⟩ := h
  intro r n hmem
  rw [hlog] at hmem
  rcases List.mem_append.mp hmem with hmem | hmem
  · exact hs r n hmem
  · have := hq _ hmem
    cases this

/-- A tick is as patient as its call of `_try_admit`. -/
theorem tick_patient (hs : SysInv cfg s) (hg : Grown s) (hnot : ¬ ResumesTooEarly cfg s)
    (hp : Patient s.log) (h : tick cfg s = .ok s') : Patient s'.log := by
  obtain ⟨t, ht, h⟩ := tick_ok.mp h
  have hspares := tryAdmit_spares hs hg hnot
  rw [ht] at hspares
  have htp : Patient t.log := hspares.patient hp
  rcases h with ⟨-, rfl⟩ | ⟨hne, hd⟩
  · exact htp
  · exact (decodePhase_quiet ((tryAdmit_works hs ht).inv hs) hne hd).patient htp

/-- Where no call resumes too early, every preemption on record is of a decoded request. -/
theorem visits_patient
    (hnot : ∀ s, Runs.Visits (step cfg) (Batcher.new firstId) events s → ¬ ResumesTooEarly cfg s)
    (hs : Runs.Visits (step cfg) (Batcher.new firstId) events s) : Patient s.log := by
  obtain ⟨pre, post, hes, hpre⟩ := hs
  refine Runs.run_inputs (I := fun pre s => ∀ post, events = pre ++ post → Patient s.log)
    ?_ ?_ hpre post hes
  · intro _ _ r n hmem
    cases hmem
  · intro pre t e t' ht ih hstep post hes
    have htp : Patient t.log := ih (e :: post) (by rw [hes, List.append_assoc]; rfl)
    cases e with
    | submit maxTokens promptIds stream =>
      obtain rfl := Except.ok.inj hstep
      exact htp
    | cancel rid =>
      obtain rfl := Except.ok.inj hstep
      split
      · exact htp
      · exact htp
    | tick =>
      have hvisit : Runs.Visits (step cfg) (Batcher.new firstId) events t :=
        ⟨pre, .tick :: post, by rw [hes, List.append_assoc]; rfl, ht⟩
      exact tick_patient (runEvents_inv ht) (runEvents_grown ht) (hnot t hvisit) htp hstep

omit [Zero Col] in
/-- Where a call ends, every preempted attempt is on record with its tokens. -/
theorem tryAdmit_spent (hs : SysInv cfg s) : ∀ r ∈ (final (tryAdmit cfg s)).submitted,
    Spent ((final (tryAdmit cfg s)).history r) := by
  intro r hr
  cases h : tryAdmit cfg s with
  | ok u =>
    rw [h] at hr
    exact (((tryAdmit_works hs h).inv hs).life r hr).spent
  | error x =>
    rw [h] at hr
    obtain ⟨t, rid, rest, ht, hp, hraise⟩ := tryAdmit_raises hs h
    obtain ⟨msg, -, rfl⟩ := admitOne_error ht hp hraise
    have hold : Spent (t.history r) := (ht.life r hr).spent
    show Spent ((t.taken rid rest).history r)
    by_cases heq : rid = r
    · -- a new attempt, with nothing in it
      have hhist : (t.taken rid rest).history r =
          t.history r ++ [.admitted rid (t.priority rid) (rest.map t.priority)] := by
        simp [Batcher.history, LogEntry.rid, heq]
      intro attempt ha r' n hmem
      rw [hhist, attempts_append] at ha
      rcases List.mem_cons.mp ha with rfl | ha
      · cases hmem
      · exact hold attempt ha r' n hmem
    · have hhist : (t.taken rid rest).history r = t.history r := by
        simp [Batcher.history, LogEntry.rid, heq]
      rw [hhist]
      exact hold

omit [Zero Col] in
theorem decodedFirst_of (hspent : ∀ r ∈ s.submitted, Spent (s.history r)) (hp : Patient s.log) :
    DecodedFirst s := by
  intro r hr attempt ha n hmem
  have hin : ∀ e ∈ attempt, e ∈ s.log ∧ e.rid = r := by
    intro e he
    simpa [Batcher.history] using mem_of_mem_attempt ha he
  have htokens := hspent r hr attempt ha r n hmem
  have hn := hp r n (hin _ hmem).1
  obtain ⟨rid, token, he⟩ := exists_decode (htokens ▸ hn)
  obtain rfl : rid = r := (hin _ he).2
  exact ⟨token, he⟩

/-- **No thrashing, exactly where no call resumes too early.** Wherever a call of
    `_try_admit` made in a run ends, every attempt preempted so far had taken part in a
    decode step and no request was both admitted and preempted by the call, if and only
    if in no state of the run the first loop fills the batch with a deprioritized request
    among others and leaves a normal one at the head of the queue. -/
theorem no_thrashing_iff (cfg : Config Col) (firstId : Nat) (events : List Event) :
    (∀ s, Runs.Visits (step cfg) (Batcher.new firstId) events s →
      DecodedFirst (final (tryAdmit cfg s)) ∧ NotBoth s (final (tryAdmit cfg s))) ↔
    ∀ s, Runs.Visits (step cfg) (Batcher.new firstId) events s → ¬ ResumesTooEarly cfg s := by
  have hgrown : ∀ s, Runs.Visits (step cfg) (Batcher.new firstId) events s → Grown s := by
    intro s hs
    obtain ⟨pre, post, -, hpre⟩ := hs
    exact runEvents_grown hpre
  refine ⟨?_, ?_⟩
  · intro h s hs hearly
    exact hearly.not_notBoth (visits_inv hs) (hgrown s hs) (h s hs).2
  · intro hnot s hs
    have hsys := visits_inv hs
    have hspares := tryAdmit_spares hsys (hgrown s hs) (hnot s hs)
    exact ⟨decodedFirst_of (tryAdmit_spent hsys) (hspares.patient (visits_patient hnot hs)),
      hspares.notBoth⟩

end Runs

/-- A batch of one: request 1 is preempted for request 2, and is at the head of the queue
    when request 3 arrives and request 2 is done. -/
def resumedAhead : List Event :=
  [.submit 3 [1] false, .tick, .submit 3 [2] false, .tick, .submit 3 [3] false, .tick]

/-- Request 1 is resumed and preempted again by one call, for request 3. -/
theorem resumedAhead_thrashes : ¬ ∀ s,
    Runs.Visits (step (divergentConfig .probeDeprioritize)) (Batcher.new 1) resumedAhead s →
    DecodedFirst (final (tryAdmit (divergentConfig .probeDeprioritize) s)) ∧
      NotBoth s (final (tryAdmit (divergentConfig .probeDeprioritize) s)) := by
  intro h
  have hrun : (runEvents (divergentConfig .probeDeprioritize) 1 resumedAhead).toOption.map
      (fun s => ((final (tryAdmit (divergentConfig .probeDeprioritize) s)).submitted,
        attempts ((final (tryAdmit (divergentConfig .probeDeprioritize) s)).history 1))) =
      some ([1, 2, 3], [[.preempt 1 1], [.decode 1 3,
        .classify 1 2 ⟨1, 2, 1, [2, 1]⟩ ⟨.divergent, 1, 2⟩, .preempt 1 2]]) := by decide
  obtain ⟨s, hs, hread⟩ := toOption_map_eq_some.mp hrun
  simp only [Prod.mk.injEq] at hread
  obtain ⟨hsub, hatt⟩ := hread
  obtain ⟨token, hmem⟩ := (h s (Runs.Visits.last hs)).1 1 (by simp [hsub]) [.preempt 1 1]
    (by simp [hatt]) 1 (by simp)
  simp at hmem

end PGI
