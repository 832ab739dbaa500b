import ProbeGuidedInference.Refinement

/- With a model whose forwards return and a gate that answers what they put out, nothing
   raises: in a state that keeps `SysInv` every admission, every decode phase and so every
   tick returns. In particular every lookup the program makes finds its key: the ids that
   are finished at the end of a tick are all in the active map, once. The gate need not
   answer vectors of any other kind, as one that wraps a probe does not. -/
namespace PGI
open Fallible

variable {Col : Type}

/-- The gate, if there is one, answers any call on this vector. -/
def Config.Answers (cfg : Config Col) (hiddenVec : List ℚ) : Prop :=
  ∀ g, cfg.gate = some g → ∀ k, ∃ d, g.classify k hiddenVec = .ok d

/-- The gate answers every row of a decode forward. -/
def Config.GateAnswers (cfg : Config Col) : Prop :=
  ∀ n inp out, cfg.model.decode n inp = .ok out → ∀ row ∈ out.val, cfg.Answers row.hidden

/-- Neither forward raises, and the gate answers every row of one. -/
structure Config.Serves (cfg : Config Col) : Prop where
  model : cfg.model.NeverRaises
  gate : cfg.GateAnswers

/-- The hook's rows carry the hidden vectors of the forward. -/
theorem capturedRows_hidden {L : Nat} {activeReqs : List Nat} {inp : DecodeInput Col}
    {rows : List (ForwardRow Col L)}
    (hinput : inp.inputIds.length = activeReqs.length)
    (hposition : inp.positionIds.length = activeReqs.length) (hrows : rows.length = activeReqs.length) :
    (capturedRows activeReqs inp rows).map CapturedRow.hidden = rows.map ForwardRow.hidden := by
  apply List.ext_getElem
  · simp [capturedRows, hinput, hposition, hrows]
  · intro i hi hi'
    simp [capturedRows]

section Returns
variable {cfg : Config Col} {s : Batcher Col}

/-- So it answers every row that the hook has stored. -/
theorem Config.GateAnswers.captured (h : cfg.GateAnswers) {activeReqs : List Nat} {n : Nat}
    {inp : DecodeInput Col}
    {out : { rows : List (ForwardRow Col cfg.model.nLayers) // rows.length = inp.inputIds.length }}
    (hout : cfg.model.decode n inp = .ok out) (hinput : inp.inputIds.length = activeReqs.length)
    (hposition : inp.positionIds.length = activeReqs.length) :
    ∀ crow ∈ capturedRows activeReqs inp out.val, cfg.Answers crow.hidden := by
  intro crow hcrow
  have hmem : crow.hidden ∈ out.val.map ForwardRow.hidden := by
    rw [← capturedRows_hidden hinput hposition (out.property.trans hinput)]
    exact List.mem_map_of_mem hcrow
  obtain ⟨row, hrow, heq⟩ := List.mem_map.mp hmem
  rw [← heq]
  exact h n inp out hout row hrow

theorem classifyRow_returns (hidden : Option (List CapturedRow)) (s : Batcher Col) (rid i : Nat)
    (hrow : cfg.gate.isSome → i < (hidden.getD []).length)
    (hgate : ∀ row ∈ hidden.getD [], cfg.Answers row.hidden) :
    ∃ t, classifyRow cfg hidden s rid i = .ok t := by
  unfold classifyRow
  split
  · exact ⟨s, rfl⟩
  · rename_i g hg
    simp only
    split
    · have hi : i < (hidden.getD []).length := hrow (by simp [hg])
      obtain ⟨d, hd⟩ := hgate _ (List.getElem_mem hi) g hg s.classifies
      rw [raising_eq_ok.mpr (index_eq_ok.mpr (List.getElem?_eq_getElem hi)), ok_bind, hd]
      exact ⟨_, rfl⟩
    · exact ⟨s, rfl⟩

theorem decodeLoop_returns (nextIds : List Nat) (hidden : Option (List CapturedRow))
    (hgate : ∀ row ∈ hidden.getD [], cfg.Answers row.hidden) :
    ∀ (pairs : List (Nat × Nat)) (s : Batcher Col), (∀ p ∈ pairs, p.2 < nextIds.length) →
    (cfg.gate.isSome → ∀ p ∈ pairs, p.2 < (hidden.getD []).length) →
    ∃ q, decodeLoop cfg nextIds hidden pairs s = .ok q := by
  intro pairs
  induction pairs with
  | nil =>
    intro s _ _
    exact ⟨([], s), rfl⟩
  | cons p rest ih =>
    intro s hids hrows
    obtain ⟨rid, i⟩ := p
    have hi : i < nextIds.length := hids (rid, i) List.mem_cons_self
    obtain ⟨t, ht⟩ : ∃ t, decodeRow cfg nextIds[i] hidden s rid i = .ok t := by
      apply classifyRow_returns _ _ _ _ _ hgate
      exact fun hg => hrows hg (rid, i) List.mem_cons_self
    obtain ⟨⟨ids, u⟩, hu⟩ := ih
      (if cfg.ended nextIds[i] (t.requests rid) then t.modify rid (cfg.setReason nextIds[i]) else t)
      (fun q hq => hids q (List.mem_cons_of_mem _ hq))
      (fun hg q hq => hrows hg q (List.mem_cons_of_mem _ hq))
    exact ⟨(_, u), decodeLoop_cons.mpr
      ⟨nextIds[i], t, ids, List.getElem?_eq_getElem hi, ht, hu, rfl⟩⟩

variable (hn : cfg.Serves)
include hn

theorem Fed.runDecodeStep_returns [Zero Col] {g : Nat → Fin cfg.model.nLayers → List Col × List Col}
    (hfed : Fed cfg s g) (hnd : s.active.Nodup) (hne : s.active ≠ []) :
    ∃ p, runDecodeStep cfg s s.active = .ok p := by
  obtain ⟨maxLen, hmax, hforward⟩ := runDecodeStep_forward hfed hne
  obtain ⟨out, hout⟩ := hn.model.2 s.forwards _ (decodeInput_wellFormed hfed hne hmax)
  obtain ⟨cache, -, -, hafter⟩ := afterForward_eq hfed hnd maxLen out.val
  rw [hforward, hout, mapError_ok, raising, mapError_ok, ok_bind, hafter]
  -- there are as many rows as requests, so every index is in range
  have hlen : out.val.length = s.active.length := by
    rw [out.property]
    simp [decodeInput]
  have hindex : ∀ p ∈ s.active.zipIdx, p.2 < s.active.length := by
    intro p hp
    exact (List.getElem?_eq_some_iff.mp (List.mem_zipIdx_iff_getElem?.mp hp)).1
  apply decodeLoop_returns
  · intro crow hcrow
    split at hcrow
    · exact hn.gate.captured hout (by simp [decodeInput]) (by simp [decodeInput]) crow hcrow
    · cases hcrow
  · intro p hp
    rw [List.length_map, hlen]
    exact hindex p hp
  · intro hg p hp
    have hcaptured : (capturedRows s.active (decodeInput s g maxLen) out.val).length =
        s.active.length := by
      simp [capturedRows, decodeInput, hlen]
    simp only [hg, if_true, Option.getD_some, hcaptured]
    exact hindex p hp

theorem runDecodeStep_returns [Zero Col] (hs : SysInv cfg s) (hne : s.active ≠ []) :
    ∃ p, runDecodeStep cfg s s.active = .ok p := by
  obtain ⟨g, hfed⟩ := hs.fed
  exact hfed.runDecodeStep_returns hn hs.active_nodup hne

theorem decodePhase_returns [Zero Col] (hs : SysInv cfg s) (hne : s.active ≠ []) :
    ∃ s', decodePhase cfg s = .ok s' := by
  obtain ⟨g, hfed⟩ := hs.fed
  obtain ⟨⟨finishedIds, t⟩, hrun⟩ := runDecodeStep_returns hn hs hne
  obtain ⟨s', hs', -⟩ :=
    (runDecodeStep_spec hfed hne hs.active_nodup hrun).finishes hfed hs.active_nodup
  refine ⟨s', ?_⟩
  unfold decodePhase
  rw [hrun, ok_bind]
  exact hs'

theorem admitOne_returns_ok (hs : SysInv cfg s) {rid : Nat} {rest : List Nat}
    (hp : s.pending = rid :: rest) : ∃ s', admitOne cfg s = .ok s' := by
  obtain ⟨out, hout⟩ := hn.model.1 s.forwards (s.requests rid).promptIds
  exact ⟨_, admitOne_eq hp (hs.head_not_active hp) hout⟩

theorem admitLoop_returns : ∀ (fuel : Nat) {s : Batcher Col}, SysInv cfg s →
    ∃ s', admitLoop cfg fuel s = .ok s' := by
  intro fuel
  induction fuel with
  | zero =>
    intro s _
    exact ⟨s, rfl⟩
  | succ fuel ih =>
    intro s hs
    simp only [admitLoop]
    split
    · rename_i hcond
      obtain ⟨rid, rest, hp⟩ := List.exists_cons_of_length_pos hcond.2
      obtain ⟨t, ht⟩ := admitOne_returns_ok hn hs hp
      obtain ⟨s', hs'⟩ := ih ((hs.admitOne hp ht).inv hs hp hcond.1)
      exact ⟨s', by rw [ht]; exact hs'⟩
    · exact ⟨s, rfl⟩

theorem preemptLoop_returns (hstrategy : cfg.strategy = .probeDeprioritize) :
    ∀ (attempts : Nat) {s : Batcher Col}, SysInv cfg s →
    ∃ s', preemptLoop cfg attempts s = .ok s' := by
  intro attempts
  induction attempts with
  | zero =>
    intro s _
    exact ⟨s, rfl⟩
  | succ attempts ih =>
    intro s hs
    simp only [preemptLoop]
    split
    · rename_i hcond
      obtain ⟨rid, rest, hp, hhead⟩ := headIsNormal_iff.mp hcond.2
      split
      · exact ⟨s, rfl⟩
      · rename_i victim hvictim
        obtain ⟨hmem, hv⟩ := findDeprioritizeVictim_some hvictim
        have hp' := hs.preempt_pending_cons hv hp
        obtain ⟨t, ht⟩ := admitOne_returns_ok hn (hs.preempt hmem hv) hp'
        have hw : Work cfg s t := .swap rid rest victim hstrategy hcond.1 hp hhead hmem hv
          ((hs.preempt hmem hv).admitOne hp' ht)
        obtain ⟨s', hs'⟩ := ih (hw.inv hs)
        exact ⟨s', by rw [ht]; exact hs'⟩
    · exact ⟨s, rfl⟩

theorem tryAdmit_returns (hs : SysInv cfg s) : ∃ s', tryAdmit cfg s = .ok s' := by
  obtain ⟨t, ht⟩ := admitLoop_returns hn s.pending.length hs
  unfold tryAdmit
  rw [ht, ok_bind]
  split
  · exact ⟨t, rfl⟩
  · rename_i hstrategy
    exact preemptLoop_returns hn (by simpa using hstrategy) _ ((admitLoop_works _ hs ht).inv hs)

/-- **A tick returns.** -/
theorem tick_returns [Zero Col] (hs : SysInv cfg s) : ∃ s', tick cfg s = .ok s' := by
  obtain ⟨t, ht⟩ := tryAdmit_returns hn hs
  by_cases hne : t.active = []
  · exact ⟨t, tick_ok.mpr ⟨t, ht, .inl ⟨hne, rfl⟩⟩⟩
  · obtain ⟨s', hs'⟩ := decodePhase_returns hn ((tryAdmit_works hs ht).inv hs) hne
    exact ⟨s', tick_ok.mpr ⟨t, ht, .inr ⟨hne, hs'⟩⟩⟩

theorem step_returns [Zero Col] (hs : SysInv cfg s) (e : Event) :
    ∃ s', step cfg s e = .ok s' ∧ SysInv cfg s' := by
  have hkeep : ∀ s', step cfg s e = .ok s' → SysInv cfg s' := fun s' h =>
    (SysInv.event (I := fun _ => True) (fun _ _ _ _ _ _ => trivial) (fun _ _ _ _ _ => trivial)
      (fun _ _ _ _ _ => trivial) hs trivial h).1
  cases e with
  | submit maxTokens promptIds stream => exact ⟨_, rfl, hkeep _ rfl⟩
  | cancel rid => exact ⟨_, rfl, hkeep _ rfl⟩
  | tick =>
    obtain ⟨s', hs'⟩ := tick_returns hn hs
    exact ⟨s', hs', hkeep s' hs'⟩

/-- **Every run returns.** -/
theorem runEvents_returns [Zero Col] (firstId : Nat) (events : List Event) :
    ∃ s, runEvents cfg firstId events = .ok s ∧ SysInv cfg s :=
  Runs.run_total (fun _ e hs => step_returns hn hs e) (sysInv_new firstId)

theorem Config.Serves.runs [Zero Col] (firstId : Nat) (events : List Event) :
    ∃ s, runEvents cfg firstId events = .ok s :=
  (runEvents_returns hn firstId events).imp (fun _ => And.left)

end Returns

end PGI
