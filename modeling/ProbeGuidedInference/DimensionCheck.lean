import ProbeGuidedInference.FailedAdmission
import ProbeGuidedInference.Server
import ProbeGuidedInference.StepAtomicity

/- Whether a probe that was accepted at startup can fail while serving. The gate compares
   the length of each vector with `expected_hidden_dim`; `load_probe` compares layer and
   checkpoint, and nothing looks at the dimension before the first request is due. So the
   check fails in serving exactly if the dimension is not the model's and some request
   lives to the checkpoint. -/
namespace PGI
open Fallible

variable {Col : Type}

/-- The gate's `ValueError` about a vector of the wrong dimension. -/
def IsDimensionError (e : PyError) : Prop :=
  ∃ got expected, e = .valueError (dimensionMessage got expected)

/-- The hooked layer outputs vectors with `d` entries. -/
def Model.HiddenWidth (m : Model Col) (d : Nat) : Prop :=
  ∀ n inp out, m.decode n inp = .ok out → ∀ row ∈ out.val, row.hidden.length = d

/-- In a tick from `s` the forward of the decode step returns, with a request in the batch
    that is due: it has no decision and its next token brings it to the checkpoint. -/
def CallsGate [Zero Col] (cfg : Config Col) (s : Batcher Col) : Prop :=
  ∃ g t inp maxLen out, cfg.gate = some g ∧ tryAdmit cfg s = .ok t ∧
    stepInput t t.active = .ok (inp, maxLen) ∧ cfg.model.decode t.forwards inp = .ok out ∧
    ∃ r ∈ t.active, g.due (t.requests r) = true

/-- A gate that refuses every vector refuses as soon as a request is due. -/
theorem ClassificationGate.refuses_of_due (g : ClassificationGate)
    {requests : Nat → GenerationRequest} {hidden : List (List ℚ)} :
    ∀ (pairs : List (Nat × Nat)) (k : Nat),
    (∀ p ∈ pairs, ∀ k, ∃ msg, g.classify k (hidden.getD p.2 []) = .error msg) →
    (∃ p ∈ pairs, g.due (requests p.1) = true) → g.refuses requests hidden k pairs = true := by
  intro pairs
  induction pairs with
  | nil =>
    intro k _ h
    obtain ⟨p, hp, -⟩ := h
    cases hp
  | cons p rest ih =>
    intro k hmsg h
    obtain ⟨rid, i⟩ := p
    rw [refuses]
    by_cases hdue : g.due (requests rid) = true
    · obtain ⟨msg, hraise⟩ := hmsg (rid, i) List.mem_cons_self k
      rw [if_pos hdue, hraise]
    · rw [if_neg hdue]
      obtain ⟨q, hq, hqdue⟩ := h
      rcases List.mem_cons.mp hq with rfl | hq
      · exact absurd hqdue hdue
      · exact ih k (fun p hp => hmsg p (List.mem_cons_of_mem _ hp)) ⟨q, hq, hqdue⟩

section Step
variable [Zero Col] {cfg : Config Col} {s t : Batcher Col} {e : PyError} {inp : DecodeInput Col}
  {maxLen : Nat}

/-- The input of a decode step can always be built. -/
theorem stepInput_returns (hs : SysInv cfg s) (hne : s.active ≠ []) :
    ∃ input, stepInput s s.active = .ok input := by
  obtain ⟨g, hfed⟩ := hs.fed
  have htokens : s.active.mapM (fun r => lastOf (s.requests r).generatedIds) =
      .ok (s.active.map (lastToken s)) := by
    apply mapM_ok
    intro r hr
    rw [lastOf_eq_ok]
    exact lastToken_spec hfed hr
  obtain ⟨maxLen, -, hbatch⟩ := buildBatch_ok cfg.model.nLayers_pos hne hfed.stored
  unfold stepInput
  rw [htokens, ok_bind, hbatch, ok_bind]
  exact ⟨_, rfl⟩

/-- After its input a decode step raises what the forward raises, or what the gate answers
    for a request that is due. -/
theorem runDecodeStep_raised (hnd : s.active.Nodup) (hinput : stepInput s s.active = .ok (inp, maxLen))
    (h : runDecodeStep cfg s s.active = .error (e, t)) :
    (∃ msg, cfg.model.decode s.forwards inp = .error msg ∧ e = .modelError msg) ∨
    ∃ g out, cfg.gate = some g ∧ cfg.model.decode s.forwards inp = .ok out ∧
      (∃ r ∈ s.active, g.due (s.requests r) = true) ∧
      ∃ row ∈ out.val, ∃ k msg, g.classify k row.hidden = .error msg ∧ e = .valueError msg := by
  rw [runDecodeStep_eq, hinput, raising_ok, ok_bind] at h
  rcases bind_eq_error.mp h with hraise | ⟨out, hforward, h⟩
  · obtain ⟨hmsg, -⟩ := raising_eq_error.mp hraise
    obtain ⟨msg, hforward, rfl⟩ := mapError_eq_error.mp hmsg
    exact .inl ⟨msg, hforward, rfl⟩
  · right
    replace hforward := mapError_eq_ok.mp (raising_eq_ok.mp hforward)
    obtain ⟨g, hg, -⟩ := (afterForward_raises_iff hnd hinput out.property).mp ⟨_, h⟩
    obtain ⟨u, hrequests, -, -, hloop⟩ := afterForward_loop cfg hnd hinput out.val
    obtain ⟨hcaptured, hbounds⟩ := stepInput_rows hinput out.property
    rw [hloop, hg, Option.isSome_some, if_pos rfl] at h
    obtain ⟨p, hp, hdue, row, k, msg, hrow, hmsg, rfl⟩ :=
      decodeLoop_raised hg _ (zipIdx_fst_nodup hnd) hbounds h
    rw [hrequests] at hdue
    refine ⟨g, out, hg, hforward, ⟨p.1, List.fst_mem_of_mem_zipIdx hp, hdue⟩, ?_⟩
    -- the captured row carries the hidden vector of a row of the forward
    have hmem : row.hidden ∈ out.val.map ForwardRow.hidden := by
      rw [← hcaptured]
      exact List.mem_map_of_mem (List.mem_of_getElem? hrow)
    obtain ⟨row', hrow', heq⟩ := List.mem_map.mp hmem
    exact ⟨row', hrow', k, msg, heq ▸ hmsg, rfl⟩

/-- What a tick raises, and why. -/
theorem tick_raised (hs : SysInv cfg s) (h : tick cfg s = .error (e, t)) :
    (∃ msg, e = .modelError msg) ∨
    CallsGate cfg s ∧ ∃ g n inp out, cfg.gate = some g ∧ cfg.model.decode n inp = .ok out ∧
      ∃ row ∈ out.val, ∃ k msg, g.classify k row.hidden = .error msg ∧ e = .valueError msg := by
  unfold tick at h
  rcases bind_eq_error.mp h with hraise | ⟨u, hu, h⟩
  · obtain ⟨v, rid, rest, hv, hp, hfail⟩ := tryAdmit_raises hs hraise
    obtain ⟨msg, -, heq⟩ := admitOne_error hv hp hfail
    obtain ⟨rfl, -⟩ := Prod.mk.inj heq
    exact .inl ⟨msg, rfl⟩
  · have hus := (tryAdmit_works hs hu).inv hs
    have hne : u.active ≠ [] := by
      intro hnil
      rw [hnil] at h
      cases h
    have hempty : u.active.isEmpty = false := by simpa using hne
    rw [hempty, if_neg (by decide)] at h
    unfold decodePhase at h
    rcases bind_eq_error.mp h with hraise | ⟨⟨finishedIds, v⟩, hstep, h⟩
    · obtain ⟨⟨inp, maxLen⟩, hinput⟩ := stepInput_returns hus hne
      rcases runDecodeStep_raised hus.active_nodup hinput hraise with
        ⟨msg, -, hmsg⟩ | ⟨g, out, hg, hforward, hdue, hanswer⟩
      · exact .inl ⟨msg, hmsg⟩
      · exact .inr ⟨⟨g, u, inp, maxLen, out, hg, hu, hinput, hforward, hdue⟩,
          g, u.forwards, inp, out, hg, hforward, hanswer⟩
    · -- routing and eviction do not raise
      obtain ⟨g, hfed⟩ := hus.fed
      obtain ⟨w, hw, -⟩ :=
        (runDecodeStep_spec hfed hne hus.active_nodup hstep).finishes hfed hus.active_nodup
      replace h : finishAll cfg (cfg.setOrder (finishedIds ++ (applyRouting cfg v).1))
        (applyRouting cfg v).2 = .error (e, t) := h
      rw [hw] at h
      cases h

variable {probe : ProbeArtifact} {d : Nat}

/-- A tick raises the dimension error exactly if it calls the gate and the width is wrong. -/
theorem tick_dimension_error (hs : SysInv cfg s) (hgate : cfg.gate = some probe.gate)
    (hwidth : cfg.model.HiddenWidth d) :
    (∃ e t, tick cfg s = .error (e, t) ∧ IsDimensionError e) ↔
      (d : Int) ≠ probe.expectedHiddenDim ∧ CallsGate cfg s := by
  refine ⟨?_, ?_⟩
  · intro h
    obtain ⟨e, t, hraise, got, expected, rfl⟩ := h
    rcases tick_raised hs hraise with ⟨msg, heq⟩ | ⟨hcalls, g, n, inp, out, hg, hforward, row, hrow, k,
      msg, hmsg, heq⟩
    · cases heq
    · obtain rfl := Option.some.inj (hgate.symm.trans hg)
      obtain rfl := PyError.valueError.inj heq
      refine ⟨?_, hcalls⟩
      rw [← hwidth n inp out hforward row hrow]
      rcases gate_classify_error hmsg with ⟨hne, -⟩ | ⟨-, hother⟩
      · exact hne
      · exact absurd rfl (hother got expected)
  · intro h
    obtain ⟨hd, g, u, inp, maxLen, out, hg, hu, hinput, hforward, r, hr, hdue⟩ := h
    obtain rfl := Option.some.inj (hgate.symm.trans hg)
    have hus := (tryAdmit_works hs hu).inv hs
    have hempty : u.active.isEmpty = false := by
      rw [List.isEmpty_eq_false_iff]
      exact List.ne_nil_of_mem hr
    obtain ⟨-, hbounds⟩ := stepInput_rows hinput out.property
    -- every row has the wrong width, so the first one that is due is refused
    have hwrong : ∀ row ∈ out.val, ∀ k,
        probe.gate.classify k row.hidden = .error (dimensionMessage d probe.expectedHiddenDim) := by
      intro row hrow k
      have hw := hwidth u.forwards inp out hforward row hrow
      rw [← hw]
      exact gate_classify_wrong_width (by rwa [hw]) k
    have hrefuses : probe.gate.refuses u.requests (out.val.map ForwardRow.hidden) u.classifies
        u.active.zipIdx = true := by
      apply ClassificationGate.refuses_of_due
      · intro p hp k
        have hi : p.2 < out.val.length := by simpa using (hbounds p hp).1
        have hrow : (out.val.map ForwardRow.hidden).getD p.2 [] = out.val[p.2].hidden := by
          simp [List.getD_eq_getElem?_getD, hi]
        rw [hrow]
        exact ⟨_, hwrong _ (List.getElem_mem hi) k⟩
      · obtain ⟨i, hi⟩ := List.getElem?_of_mem hr
        exact ⟨(r, i), List.mem_zipIdx_iff_getElem?.mpr hi, hdue⟩
    obtain ⟨e, t, -, -, -, -, hraise, -⟩ := runDecodeStep_torn hus.active_nodup
      ⟨probe.gate, inp, maxLen, out, hgate, hinput, hforward, hrefuses⟩
    have htick : tick cfg s = .error (e, t) := by
      unfold tick
      rw [hu, ok_bind, hempty, if_neg (by decide), decodePhase, hraise]
      rfl
    refine ⟨e, t, htick, ?_⟩
    rcases runDecodeStep_raised hus.active_nodup hinput hraise with ⟨msg, hmsg, -⟩ |
      ⟨g, out', hg', hforward', -, row, hrow, k, msg, hmsg, rfl⟩
    · rw [hforward] at hmsg
      cases hmsg
    · obtain rfl := Option.some.inj (hgate.symm.trans hg')
      obtain rfl := Except.ok.inj (hforward.symm.trans hforward')
      rw [hwrong row hrow k] at hmsg
      exact ⟨d, _, congrArg PyError.valueError (Except.error.inj hmsg).symm⟩

end Step

/-- **An accepted probe fails in serving exactly if its dimension is wrong and it is asked.**
    For every bundle, model, configuration and run of a server that has started: no tick
    from a state of the run raises the gate's dimension error, if and only if the bundle's
    `expected_hidden_dim` is the width of the hooked layer or no tick calls the gate. -/
theorem dimension_error_iff [Zero Col] {model : LanguageModel Col} {tokenizer : Tokenizer}
    {strategy : RoutingStrategy} {file : Option Bundle} {settings : Settings} {runtime : Runtime}
    {cfg : Config Col} {d : Nat}
    (hstart : startup model tokenizer strategy file settings runtime = .ok cfg)
    (hwidth : cfg.model.HiddenWidth d) (firstId : Nat) (events : List Event) :
    (∀ s e t, Runs.Visits (step cfg) (Batcher.new firstId) events s → tick cfg s = .error (e, t) →
      ¬ IsDimensionError e) ↔
    file.bind Bundle.expectedHiddenDim = some (d : Int) ∨
      ∀ s, Runs.Visits (step cfg) (Batcher.new firstId) events s → ¬ CallsGate cfg s := by
  rcases startup_ok hstart with hgate | ⟨bundle, probe, rfl, hgate, hdim, -, -⟩
  · -- without a gate nothing is called
    have hnot : ∀ s, ¬ CallsGate cfg s := by
      intro s h
      obtain ⟨g, -, -, -, -, hg, -⟩ := h
      rw [hgate] at hg
      cases hg
    refine ⟨fun _ => .inr (fun s _ => hnot s), ?_⟩
    intro _ s e t hs hraise herror
    obtain ⟨got, expected, rfl⟩ := herror
    rcases tick_raised (visits_inv hs) hraise with ⟨msg, heq⟩ | ⟨hcalls, -⟩
    · cases heq
    · exact hnot s hcalls
  · rw [Option.bind_some, hdim, Option.some.injEq]
    refine ⟨?_, ?_⟩
    · intro h
      by_cases hd : (d : Int) = probe.expectedHiddenDim
      · exact .inl hd.symm
      · right
        intro s hs hcalls
        obtain ⟨e, t, hraise, herror⟩ :=
          (tick_dimension_error (visits_inv hs) hgate hwidth).mpr ⟨hd, hcalls⟩
        exact h s e t hs hraise herror
    · intro h s e t hs hraise herror
      obtain ⟨hne, hcalls⟩ :=
        (tick_dimension_error (visits_inv hs) hgate hwidth).mp ⟨e, t, hraise, herror⟩
      rcases h with heq | hnever
      · exact hne heq.symm
      · exact hnever s hs hcalls

/-- A model with two entries in its hidden vectors, at every layer. -/
def twoWide : LanguageModel TokenColumn where
  unhooked := tableModel (fun token _ => token + 1)
  hooked _ := .ok (tableModel (fun token _ => token + 1))

theorem twoWide_width (next : Nat → Nat → Nat) : (tableModel next).HiddenWidth 2 := by
  intro n inp out hout row hrow
  obtain rfl := Except.ok.inj hout
  obtain ⟨p, -, rfl⟩ := List.mem_map.mp hrow
  rfl

/-- A probe for the right layer and checkpoint, and for vectors with three entries. -/
def threeWideBundle : Bundle where
  pipeline := some ⟨fun _ _ => .ok (9 / 10)⟩
  trainedLayer := some 16
  trainedCheckpoint := some 2
  expectedHiddenDim := some 3
  nTrainSamples := some 200
  trainAuc := some (.number (61 / 100))

/-- The clock and the set order of the counting batcher. -/
def listOrder : Runtime where
  time := (divergentConfig .baseline).time
  setOrder := (divergentConfig .baseline).setOrder
  setOrder_perm := (divergentConfig .baseline).setOrder_perm

theorem threeWide_starts :
    ∃ cfg, startup twoWide ⟨0, fun _ => ""⟩ .probeTerminate (some threeWideBundle)
        { checkpointPosition := 2 } listOrder = .ok cfg ∧ cfg.model.HiddenWidth 2 :=
  ⟨_, rfl, twoWide_width _⟩

/-- The server starts with it, and the first request that has two tokens to come ends it. -/
theorem threeWide_fails :
    ∃ cfg, startup twoWide ⟨0, fun _ => ""⟩ .probeTerminate (some threeWideBundle)
        { checkpointPosition := 2 } listOrder = .ok cfg ∧ cfg.model.HiddenWidth 2 ∧
      ∃ s e t, Runs.Visits (step cfg) (Batcher.new 1) [.submit 9 [1] false] s ∧
        tick cfg s = .error (e, t) ∧ IsDimensionError e :=
  ⟨_, rfl, twoWide_width _, _, _, _, Runs.Visits.last rfl, rfl, 2, 3, rfl⟩

theorem dimension_error_iff_threeWide :
    ∃ cfg, startup twoWide ⟨0, fun _ => ""⟩ .probeTerminate (some threeWideBundle)
        { checkpointPosition := 2 } listOrder = .ok cfg ∧
      ((∀ s e t, Runs.Visits (step cfg) (Batcher.new 1) [.submit 9 [1] false] s →
          tick cfg s = .error (e, t) → ¬ IsDimensionError e) ↔
        (some threeWideBundle).bind Bundle.expectedHiddenDim = some ((2 : Nat) : Int) ∨
          ∀ s, Runs.Visits (step cfg) (Batcher.new 1) [.submit 9 [1] false] s → ¬ CallsGate cfg s) := by
  obtain ⟨cfg, hstart, hwidth⟩ := threeWide_starts
  exact ⟨cfg, hstart, dimension_error_iff hstart hwidth 1 _⟩

end PGI
