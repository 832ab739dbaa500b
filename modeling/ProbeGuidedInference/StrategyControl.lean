import Mathlib.Data.List.Infix
import ProbeGuidedInference.Unprobed
import ProbeGuidedInference.FailedAdmission
import ProbeGuidedInference.Swapping
import ProbeGuidedInference.Checkpoint

/- What the strategies differ by. Each run is compared with its control: the same batcher
   under `baseline` and without a gate. Until a strategy acts on a decision, the two runs
   go in lock step, tick by tick: the gate only writes fields that nothing but routing
   reads, routing only sets flags, and the second loop of `_try_admit` finds no request
   of priority 1. -/
namespace PGI
open Fallible Lockstep

variable {Col : Type}

/-- Whether the strategy acts on a decision. -/
def Config.acts (cfg : Config Col) (d : RoutingDecision) : Bool :=
  match cfg.strategy with
  | .baseline => false
  | .probeTerminate => d.isDivergent && (d.confidence > cfg.terminateConfidenceThreshold)
  | .probeDeprioritize => d.isDivergent

/-- The same batcher under `baseline`, without a gate. -/
def Config.control (cfg : Config Col) : Config Col :=
  { cfg with
    strategy := .baseline
    gate := none
    gateRequired := fun h => absurd rfl h }

/-- What can be seen of the end of a computation without looking at the probe. -/
def observed : Except (PyError × Batcher Col) (Batcher Col) →
    Except (PyError × Batcher Col) (Batcher Col)
  | .ok s => .ok s.unprobed
  | .error (e, s) => .error (e, s.unprobed)

/-- What can be seen of a run before its first event and after each of them. -/
def trajectory [Zero Col] (cfg : Config Col) (firstId : Nat) (events : List Event) :
    List (Except (PyError × Batcher Col) (Batcher Col)) :=
  events.inits.map (fun pre => observed (runEvents cfg firstId pre))

/-- The strategy acts on none of the decisions that the gate has made. -/
def Unacted (cfg : Config Col) (s : Batcher Col) : Prop :=
  ∀ r ∈ s.submitted, ∀ n row d, .classify r n row d ∈ s.history r → cfg.acts d = false

/-- Two computations end alike, but for the probe. -/
abbrev InStep (x y : Except (PyError × Batcher Col) (Batcher Col)) : Prop :=
  Alike (Raised Same) Same x y

theorem InStep.observed {x y : Except (PyError × Batcher Col) (Batcher Col)} (h : InStep x y) :
    observed x = observed y := by
  cases h with
  | ok h => exact congrArg Except.ok h.unprobed
  | @error x y h =>
    obtain ⟨e, s⟩ := x
    obtain ⟨e', t⟩ := y
    obtain ⟨rfl, h⟩ := h
    show Except.error (e, s.unprobed) = Except.error (e, t.unprobed)
    rw [h.unprobed]

/-! Admissions. -/

section Admit
variable {cfg : Config Col} {s t : Batcher Col} {rid : Nat} {rest : List Nat}

theorem finish_same (h : Same s t) (rid : Nat) :
    Same (finish cfg s rid) (finish cfg.control t rid) := by
  have hmod : Same (s.modify rid (·.completed cfg (cfg.time s.clock)))
      (t.modify rid (·.completed cfg.control (cfg.control.time t.clock))) :=
    h.modify rid (fun _ => rfl) (fun _ => rfl)
  have hflag : (s.requests rid).terminatedByProbe = (t.requests rid).terminatedByProbe :=
    field_unprobed (k := GenerationRequest.terminatedByProbe) (fun _ => rfl) (h.requests rid)
  exact {
    requests := hmod.requests
    nextId := h.nextId
    submitted := h.submitted
    pending := h.pending
    cache := congrArg (fun c => c.evict rid) h.cache
    active := congrArg (fun ids => ids.erase rid) h.active
    totalAdmitted := h.totalAdmitted
    totalFinished := congrArg (· + 1) h.totalFinished
    totalProbeTerminated := by
      show s.totalProbeTerminated + _ = t.totalProbeTerminated + _
      rw [h.totalProbeTerminated, hflag]
    totalPreemptions := h.totalPreemptions
    forwards := h.forwards
    log := h.log_snoc (congrArg (LogEntry.finish rid) (h.nGenerated rid)) }

/-- The same forward of the same prompt. -/
theorem prefill_alike (m : Model Col) {n n' : Nat} {promptIds promptIds' : List Nat} (hn : n = n')
    (hp : promptIds = promptIds') :
    Alike Eq (fun out out' => out'.logits = out.logits ∧ out'.kv = out.kv)
      (m.prefill n promptIds) (m.prefill n' promptIds') := by
  subst hn hp
  cases m.prefill n promptIds with
  | ok out => exact .ok ⟨rfl, rfl⟩
  | error msg => exact .error rfl

theorem Same.promptIds (h : Same s t) (r : Nat) :
    (s.requests r).promptIds = (t.requests r).promptIds :=
  field_unprobed (k := GenerationRequest.promptIds) (fun _ => rfl) (h.requests r)

theorem Same.ended (h : Same s t) (nid r : Nat) :
    cfg.ended nid (s.requests r) = cfg.control.ended nid (t.requests r) :=
  read_unprobed (k := cfg.ended nid) (fun _ => rfl) (fun _ => rfl) (h.requests r)

theorem prefilled_same (h : Same s t)
    {out : PrefillOut Col cfg.model.nLayers (s.requests rid).promptIds.length}
    {out' : PrefillOut Col cfg.model.nLayers (t.requests rid).promptIds.length}
    (hlogits : out'.logits = out.logits) (hkv : out'.kv = out.kv) :
    Same (s.prefilled cfg rid rest out) (t.prefilled cfg.control rid rest out') := by
  have hmod : Same (s.modify rid (·.firstToken cfg (argmax out.logits)))
      (t.modify rid (·.firstToken cfg.control (argmax out'.logits))) := by
    rw [hlogits]
    exact h.modify rid (fun _ => rfl) (fun _ => rfl)
  exact {
    requests := hmod.requests
    nextId := h.nextId
    submitted := h.submitted
    pending := rfl
    cache := by
      show s.cache.storePrefill rid ⟨ofLayers out.kv⟩ _ = t.cache.storePrefill rid ⟨ofLayers out'.kv⟩ _
      rw [h.cache, hkv]
      exact congrArg (t.cache.storePrefill rid _) (congrArg List.length (h.promptIds rid))
    active := h.active
    totalAdmitted := congrArg (· + 1) h.totalAdmitted
    totalFinished := h.totalFinished
    totalProbeTerminated := h.totalProbeTerminated
    totalPreemptions := h.totalPreemptions
    forwards := congrArg (· + 1) h.forwards
    log := h.log_snoc (by rw [h.priority]) }

/-- An admission returns for both, or raises the model's exception for both. -/
theorem admitOne_inStep (hs : SysInv cfg s) (h : Same s t) (hp : s.pending = rid :: rest) :
    InStep (admitOne cfg s) (admitOne cfg.control t) := by
  have hpt : t.pending = rid :: rest := h.pending.symm.trans hp
  have hact : rid ∉ s.active := hs.head_not_active hp
  have hactt : rid ∉ t.active := by
    rw [← h.active]
    exact hact
  have hforward := prefill_alike cfg.model h.forwards (h.promptIds rid)
  generalize hout : cfg.model.prefill s.forwards (s.requests rid).promptIds = x at hforward
  generalize hout' : cfg.model.prefill t.forwards (t.requests rid).promptIds = y at hforward
  cases hforward with
  | @error msg _ heq =>
    subst heq
    have hcontrol : cfg.control.model.prefill t.forwards (t.requests rid).promptIds = .error msg :=
      hout'
    rw [admitOne_raises hp hout, admitOne_raises hpt hcontrol]
    exact .error ⟨rfl, { h with
      pending := rfl
      forwards := congrArg (· + 1) h.forwards
      log := h.log_snoc (by rw [h.priority]) }⟩
  | @ok out out' heq =>
    obtain ⟨hlogits, hkv⟩ := heq
    have hpre : Same (s.prefilled cfg rid rest out) (t.prefilled cfg.control rid rest out') :=
      prefilled_same h hlogits hkv
    have hended : cfg.ended (argmax out.logits) ((s.requests rid).firstToken cfg (argmax out.logits)) =
        cfg.control.ended (argmax out'.logits)
          ((t.requests rid).firstToken cfg.control (argmax out'.logits)) := by
      rw [hlogits]
      exact read_unprobed
        (k := fun q => cfg.ended (argmax out.logits) (q.firstToken cfg (argmax out.logits)))
        (l := fun q => cfg.control.ended (argmax out.logits)
          (q.firstToken cfg.control (argmax out.logits)))
        (fun _ => rfl) (fun _ => rfl) (h.requests rid)
    have hcontrol : cfg.control.model.prefill t.forwards (t.requests rid).promptIds = .ok out' := hout'
    rw [admitOne_eq hp hact hout, admitOne_eq hpt hactt hcontrol, hended]
    apply Alike.ok
    split
    · exact finish_same hpre rid
    · exact { hpre with active := congrArg (· ++ [rid]) h.active }

theorem admitLoop_inStep : ∀ (fuel : Nat) {s t : Batcher Col}, SysInv cfg s → Same s t →
    InStep (admitLoop cfg fuel s) (admitLoop cfg.control fuel t) := by
  intro fuel
  induction fuel with
  | zero => exact fun _ h => .ok h
  | succ fuel ih =>
    intro s t hs h
    rcases admitLoop_turn cfg fuel s with ⟨rid, rest, hroom, hp, heq⟩ | ⟨hstop, heq⟩
    · have hroomt : t.active.length < cfg.control.maxBatchSize := by
        rw [← h.active]
        exact hroom
      rw [heq, admitLoop_of_room hroomt (h.pending.symm.trans hp)]
      apply (admitOne_inStep hs h hp).bind
      intro u v hu _ huv
      exact ih ((hs.admitOne hp hu).inv hs hp hroom) huv
    · rw [heq]
      rcases admitLoop_turn cfg.control fuel t with ⟨rid, rest, hroom, hp, -⟩ | ⟨-, heq'⟩
      · rw [← h.active] at hroom
        rw [← h.pending, hstop hroom] at hp
        cases hp
      · rw [heq']
        exact .ok h

/-- The second loop finds no victim where the control has the priorities of `baseline`. -/
theorem Same.not_swappable (h : Same s t) (ht : SysInv cfg.control t) {victim : Nat} :
    ¬ Swappable cfg s rid rest victim := by
  intro hsw
  obtain ⟨hmem, hv⟩ := findDeprioritizeVictim_some hsw.victim
  rw [h.priority] at hv
  rw [h.active] at hmem
  rcases ht.priority (ht.mem_submitted.mpr (.inr (.inl hmem))) with hzero | ⟨-, hstrategy⟩
  · omega
  · cases hstrategy

theorem tryAdmit_inStep (hs : SysInv cfg s) (ht : SysInv cfg.control t) (h : Same s t) :
    InStep (tryAdmit cfg s) (tryAdmit cfg.control t) := by
  unfold tryAdmit
  rw [← h.pending]
  apply (admitLoop_inStep s.pending.length hs h).bind
  intro u v _ hv huv
  have hvinv := (admitLoop_works _ ht hv).inv ht
  have hcontrol : cfg.control.strategy ≠ .probeDeprioritize := fun hc => by cases hc
  rw [if_pos hcontrol]
  split
  · exact .ok huv
  · rw [preemptLoop_of_stop (fun rid rest victim => huv.not_swappable hvinv)]
    exact .ok huv

end Admit

/-! The decode step. -/

section Decode
variable {cfg : Config Col} {s t : Batcher Col}

theorem raising_alike {α : Type} (h : Same s t) (x : Except PyError α) :
    Alike (Raised Same) Eq (raising s x) (raising t x) := by
  cases x with
  | ok a => exact .ok rfl
  | error e => exact .error ⟨rfl, h⟩

/-- The gate is called, or not, and all it changes is not seen. -/
theorem classifyRow_same (h : Same s t) (hidden : Option (List CapturedRow)) (rid i : Nat)
    (hrow : cfg.gate.isSome → i < (hidden.getD []).length)
    (hgate : ∀ row ∈ hidden.getD [], cfg.Answers row.hidden) :
    ∃ s', classifyRow cfg hidden s rid i = .ok s' ∧ Same s' t := by
  unfold classifyRow
  split
  · exact ⟨s, rfl, h⟩
  · rename_i g hg
    simp only
    split
    · have hi : i < (hidden.getD []).length := hrow (by simp [hg])
      obtain ⟨d, hd⟩ := hgate _ (List.getElem_mem hi) g hg s.classifies
      rw [raising_eq_ok.mpr (index_eq_ok.mpr (List.getElem?_eq_getElem hi)), ok_bind, hd]
      refine ⟨_, rfl, ?_⟩
      have hcalled : Same { s with classifies := s.classifies + 1 } t := { h with }
      have hmod := hcalled.modify_left (f := (·.classified d (cfg.time s.clock))) rid rfl
      exact { hmod.record_left (e := .classify rid _ (hidden.getD [])[i] d) rfl with }
    · exact ⟨s, rfl, h⟩

theorem decodeLoop_alike (nextIds : List Nat) (hidden : Option (List CapturedRow))
    (hgate : ∀ row ∈ hidden.getD [], cfg.Answers row.hidden) :
    ∀ (pairs : List (Nat × Nat)) {s t : Batcher Col}, Same s t →
    (cfg.gate.isSome → ∀ p ∈ pairs, p.2 < (hidden.getD []).length) →
    Alike (Raised Same) (fun p q => p.1 = q.1 ∧ Same p.2 q.2)
      (decodeLoop cfg nextIds hidden pairs s) (decodeLoop cfg.control nextIds none pairs t) := by
  intro pairs
  induction pairs with
  | nil => exact fun h _ => .ok ⟨rfl, h⟩
  | cons p rest ih =>
    intro s t h hrows
    obtain ⟨rid, i⟩ := p
    rw [decodeLoop, decodeLoop]
    apply (raising_alike h (index nextIds i)).bind
    intro nid _ _ _ heq
    subst heq
    have happended : Same ((s.modify rid (·.appended nid)).record (.decode rid nid))
        ((t.modify rid (·.appended nid)).record (.decode rid nid)) :=
      (h.modify rid (f := (·.appended nid)) (g := (·.appended nid))
        (fun _ => rfl) (fun _ => rfl)).record _
    obtain ⟨u, hu, hsame⟩ := classifyRow_same happended hidden rid i
      (fun hg => hrows hg (rid, i) List.mem_cons_self) hgate
    have hrest : cfg.gate.isSome → ∀ p ∈ rest, p.2 < (hidden.getD []).length :=
      fun hg p hp => hrows hg p (List.mem_cons_of_mem _ hp)
    have hcontrol : classifyRow cfg.control none
        ((t.modify rid (·.appended nid)).record (.decode rid nid)) rid i =
        .ok ((t.modify rid (·.appended nid)).record (.decode rid nid)) := rfl
    simp only [hu, hcontrol, ok_bind, hsame.ended nid rid]
    split
    · have hreason := hsame.modify rid (f := cfg.setReason nid) (g := cfg.control.setReason nid)
        (fun _ => rfl) (fun _ => rfl)
      apply (ih hreason hrest).bind
      intro p q _ _ hpq
      obtain ⟨ids, v⟩ := p
      obtain ⟨ids', w⟩ := q
      obtain ⟨rfl, hvw⟩ := hpq
      exact .ok ⟨rfl, hvw⟩
    · exact ih hsame hrest

theorem buildBatch_length [Zero Col] {c : BatchedSequenceCache Col} {seqIds : List Nat}
    {batch : Batch Col} (h : c.buildBatch seqIds = .ok batch) :
    batch.positionIds.length = seqIds.length := by
  unfold BatchedSequenceCache.buildBatch at h
  obtain ⟨lengths, hlengths, h⟩ := bind_eq_ok.mp h
  obtain ⟨_, -, h⟩ := bind_eq_ok.mp h
  obtain ⟨_, -, h⟩ := bind_eq_ok.mp h
  obtain ⟨_, -, h⟩ := bind_eq_ok.mp h
  obtain ⟨_, -, h⟩ := bind_eq_ok.mp h
  obtain ⟨_, -, h⟩ := bind_eq_ok.mp h
  obtain rfl := Except.ok.inj h
  exact (mapM_forall₂ hlengths).length_eq.symm

/-- The hook stores one row for each request, and the gate is shown rows of that forward. -/
theorem afterForward_alike {seqIds : List Nat} {inp : DecodeInput Col} {maxLen : Nat}
    {rows : List (ForwardRow Col cfg.model.nLayers)} (h : Same s t)
    (hlen : (capturedRows seqIds inp rows).length = seqIds.length)
    (hgate : ∀ crow ∈ capturedRows seqIds inp rows, cfg.Answers crow.hidden) :
    Alike (Raised Same) (fun p q => p.1 = q.1 ∧ Same p.2 q.2)
      (afterForward cfg seqIds inp maxLen rows s)
      (afterForward cfg.control seqIds inp maxLen rows t) := by
  have hhook : Same (s.hook cfg (capturedRows seqIds inp rows)) t := by
    unfold Batcher.hook
    split
    · exact { h with }
    · exact h
  have hcaptured : cfg.gate.isSome → (s.hook cfg (capturedRows seqIds inp rows)).captureLast =
      some (capturedRows seqIds inp rows) := by
    intro hg
    unfold Batcher.hook
    rw [if_pos hg]
  unfold afterForward
  generalize s.hook cfg (capturedRows seqIds inp rows) = u at hhook hcaptured
  have hscatter : Alike (Raised Same) Eq
      ((u.cache.scatterUpdatedBatch seqIds (inp.updatedCache rows) maxLen).mapError
        (fun e => (e.1, { u with cache := e.2 })))
      ((t.cache.scatterUpdatedBatch seqIds (inp.updatedCache rows) maxLen).mapError
        (fun e => (e.1, { t with cache := e.2 }))) := by
    rw [hhook.cache]
    cases t.cache.scatterUpdatedBatch seqIds (inp.updatedCache rows) maxLen with
    | ok cache => exact .ok rfl
    | error e => exact .error ⟨rfl, { hhook with cache := rfl }⟩
  apply hscatter.bind
  intro cache _ _ _ heq
  subst heq
  apply decodeLoop_alike
  · intro crow hcrow
    split at hcrow
    · rename_i hg
      rw [hcaptured hg] at hcrow
      exact hgate crow hcrow
    · cases hcrow
  · exact { hhook with cache := rfl }
  · intro hg p hp
    have hi := (List.getElem?_eq_some_iff.mp (List.mem_zipIdx_iff_getElem?.mp hp)).1
    simp only [hg, if_true, hcaptured hg, Option.getD_some, hlen]
    exact hi

theorem runDecodeStep_alike [Zero Col] (hgate : cfg.GateAnswers) (h : Same s t) (seqIds : List Nat) :
    Alike (Raised Same) (fun p q => p.1 = q.1 ∧ Same p.2 q.2)
      (runDecodeStep cfg s seqIds) (runDecodeStep cfg.control t seqIds) := by
  have hlast : (fun rid => lastOf (s.requests rid).generatedIds) =
      fun rid => lastOf (t.requests rid).generatedIds :=
    funext fun rid => field_unprobed (k := fun q => lastOf q.generatedIds) (fun _ => rfl)
      (h.requests rid)
  unfold runDecodeStep
  simp only
  rw [hlast, h.cache, h.forwards]
  apply (raising_alike h _).bind
  intro nextTokens _ htokens _ heq
  subst heq
  apply (raising_alike h _).bind
  intro batch _ hbatch _ heq
  subst heq
  have hforwards : Same { s with cache := t.cache, forwards := t.forwards + 1 }
      { t with forwards := t.forwards + 1 } := { h with cache := rfl, forwards := rfl }
  apply (raising_alike hforwards _).bind
  intro out _ hout _ heq
  subst heq
  have hids : nextTokens.length = seqIds.length :=
    (mapM_forall₂ (raising_eq_ok.mp htokens)).length_eq.symm
  have hpositions := buildBatch_length (raising_eq_ok.mp hbatch)
  have hforward := mapError_eq_ok.mp (raising_eq_ok.mp hout)
  apply afterForward_alike hforwards
  · have hrows := out.property
    simp only [capturedRows, List.length_zipWith, List.length_zip]
    omega
  · exact hgate.captured hforward hids hpositions

end Decode

/-! Routing and eviction. -/

section Route
variable {cfg : Config Col} {s t u v : Batcher Col}

theorem routedBy_routingDecision (cfg : Config Col) (q : GenerationRequest) :
    (q.routedBy cfg).routingDecision = q.routingDecision := by
  unfold GenerationRequest.routedBy
  cases hd : q.routingDecision with
  | none => simp
  | some d =>
    simp only
    split
    · rfl
    · cases cfg.strategy with
      | baseline => rfl
      | probeTerminate =>
        simp only
        split
        · rfl
        · rfl
      | probeDeprioritize => rfl

/-- A decision that is not acted on leaves a flag, and that is not seen. -/
theorem routedBy_unprobed {q : GenerationRequest}
    (h : ∀ d, q.routingDecision = some d → cfg.acts d = false) :
    (q.routedBy cfg).unprobed = q.unprobed ∧ q.terminatedBy cfg = false := by
  unfold GenerationRequest.routedBy GenerationRequest.terminatedBy
  cases hd : q.routingDecision with
  | none => exact ⟨by simp [GenerationRequest.unprobed], rfl⟩
  | some d =>
    have hacts := h d hd
    unfold Config.acts at hacts
    cases hdiv : d.isDivergent with
    | false => exact ⟨by simp [GenerationRequest.unprobed, hdiv], by simp [hdiv]⟩
    | true =>
      cases hstrategy : cfg.strategy with
      | baseline => exact ⟨by simp [GenerationRequest.unprobed, hdiv], by simp⟩
      | probeTerminate =>
        have hlow : ¬ d.confidence > cfg.terminateConfidenceThreshold := by
          simpa [hstrategy, hdiv] using hacts
        exact ⟨by simp [GenerationRequest.unprobed, hdiv, hlow], by simp [hlow]⟩
      | probeDeprioritize =>
        simp [hstrategy, hdiv] at hacts

theorem routeLoop_same : ∀ (ids : List Nat) {s t : Batcher Col}, Same s t →
    (∀ r ∈ ids, ∀ d, (s.requests r).routingDecision = some d → cfg.acts d = false) →
    (routeLoop cfg ids s).1 = [] ∧ Same (routeLoop cfg ids s).2 t := by
  intro ids
  induction ids with
  | nil => exact fun h _ => ⟨rfl, h⟩
  | cons rid rest ih =>
    intro s t h hacts
    obtain ⟨hseen, hnot⟩ := routedBy_unprobed (hacts rid List.mem_cons_self)
    have hrest : ∀ r ∈ rest, ∀ d,
        ((s.modify rid (·.routedBy cfg)).requests r).routingDecision = some d →
          cfg.acts d = false := by
      intro r hr d hd
      apply hacts r (List.mem_cons_of_mem rid hr) d
      rw [← hd]
      by_cases heq : r = rid
      · subst heq
        simp [routedBy_routingDecision]
      · simp [heq]
    obtain ⟨hids, hsame⟩ := ih (h.modify_left rid hseen) hrest
    simp only [routeLoop, hnot]
    exact ⟨hids, hsame⟩

/-- A decision that is to be routed was made by the decode step before, and is on record. -/
theorem Looped.decided {g : Nat → Fin cfg.model.nLayers → List Col × List Col} {ids : List Nat}
    (hs : SysInv cfg s) (h : Looped cfg s u g ids) {r : Nat} (hr : r ∈ s.active)
    (hnew : (u.requests r).routed = false) {d : RoutingDecision}
    (hd : (u.requests r).routingDecision = some d) :
    ∃ n row, .classify r n row d ∈ u.history r := by
  obtain ⟨row, answer, -, -, -, hreq, hhist, -⟩ := h.self r hr
  have hrouted := (hs.lifeInv (hs.mem_submitted.mpr (.inr (.inl hr)))).routed
  rw [Batcher.view_req] at hrouted
  rw [hreq] at hnew hd
  cases answer with
  | none =>
    -- an old decision has been routed
    simp only [GenerationRequest.nextToken_routed, GenerationRequest.nextToken_routingDecision,
      Answer.decision, Option.map_none, Option.none_or] at hnew hd
    rw [hnew, hd] at hrouted
    cases hrouted
  | some a =>
    obtain ⟨crow, d', time⟩ := a
    obtain rfl : d' = d := by
      simpa [Answer.decision] using hd
    rw [hhist]
    exact ⟨(s.requests r).nGenerated + 1, crow, by simp [View.decodeEntries]⟩

theorem finishAll_inStep : ∀ (ids : List Nat) {s t : Batcher Col}, Same s t →
    InStep (finishAll cfg ids s) (finishAll cfg.control ids t) := by
  intro ids
  induction ids with
  | nil => exact fun h => .ok h
  | cons rid rest ih =>
    intro s t h
    rw [finishAll, finishAll, h.active]
    split
    · exact ih (finish_same h rid)
    · exact .error ⟨rfl, h⟩

theorem decodePhase_inStep [Zero Col] (hgate : cfg.GateAnswers) (hs : SysInv cfg s)
    (hne : s.active ≠ []) (hunacted : ∀ s', decodePhase cfg s = .ok s' → Unacted cfg s')
    (h : Same s t) : InStep (decodePhase cfg s) (decodePhase cfg.control t) := by
  obtain ⟨g, hfed⟩ := hs.fed
  have hloop := runDecodeStep_alike hgate h s.active
  unfold decodePhase
  rw [← h.active]
  apply hloop.bind
  intro p q hrun _ hpq
  obtain ⟨ids, u⟩ := p
  obtain ⟨_, v⟩ := q
  obtain ⟨rfl, huv⟩ := hpq
  have hlooped := runDecodeStep_spec hfed hne hs.active_nodup hrun
  obtain ⟨s', hs', hdecoded⟩ := hlooped.finishes hfed hs.active_nodup
  have hphase : decodePhase cfg s = .ok s' := by
    unfold decodePhase
    rw [hrun, ok_bind]
    exact hs'
  obtain ⟨-, hlog, -⟩ := applyRouting_spec cfg u (by rw [hlooped.kept.active]; exact hs.active_nodup)
  have hinert : ∀ r ∈ s.active, ∀ n row d, .classify r n row d ∈ u.history r →
      cfg.acts d = false := by
    intro r hr n row d hmem
    obtain ⟨entries, hentries, -⟩ := finishAll_quiet _ hs'
    apply hunacted s' hphase r _ n row d
    · unfold Batcher.history at hmem ⊢
      rw [hentries, hlog, List.filter_append]
      exact List.mem_append_left _ hmem
    · rw [hdecoded.submitted]
      exact hs.mem_submitted.mpr (.inr (.inl hr))
  have hrouting : (applyRouting cfg u).1 = [] ∧ Same (applyRouting cfg u).2 v := by
    unfold applyRouting
    split
    · exact ⟨rfl, huv⟩
    · apply routeLoop_same _ huv
      intro r hr d hd
      simp only [List.mem_filter, Bool.and_eq_true, Bool.not_eq_true'] at hr
      have hact : r ∈ s.active := by
        have := hlooped.kept.active
        rw [this] at hr
        exact hr.1
      obtain ⟨n, row, hmem⟩ := hlooped.decided hs hact hr.2.2 hd
      exact hinert r hact n row d hmem
  obtain ⟨hnone, hsame⟩ := hrouting
  have hcontrol : applyRouting cfg.control v = ([], v) := rfl
  simp only [hcontrol, hnone]
  exact finishAll_inStep _ hsame

end Route

/-! Whole runs. -/

section Runs
variable [Zero Col] {cfg : Config Col} {firstId : Nat} {events : List Event} {s t : Batcher Col}
  (hgate : cfg.GateAnswers)

include hgate in
theorem tick_inStep (hs : SysInv cfg s) (ht : SysInv cfg.control t)
    (hunacted : ∀ s', tick cfg s = .ok s' → Unacted cfg s') (h : Same s t) :
    InStep (tick cfg s) (tick cfg.control t) := by
  have hadmit := tryAdmit_inStep hs ht h
  unfold tick
  apply hadmit.bind
  intro u v hu _ huv
  rw [huv.active]
  split
  · exact .ok huv
  · rename_i hne
    rw [← huv.active, List.isEmpty_iff] at hne
    apply decodePhase_inStep hgate ((tryAdmit_works hs hu).inv hs) hne _ huv
    intro s' hs'
    exact hunacted s' (tick_ok.mpr ⟨u, hu, .inr ⟨hne, hs'⟩⟩)

include hgate in
theorem step_inStep (hs : SysInv cfg s) (ht : SysInv cfg.control t) {e : Event}
    (hunacted : ∀ s', step cfg s e = .ok s' → Unacted cfg s') (h : Same s t) :
    InStep (step cfg s e) (step cfg.control t e) := by
  cases e with
  | submit maxTokens promptIds stream =>
    apply Alike.ok
    unfold submit
    rw [h.nextId]
    exact { h with
      requests := by
        intro r
        by_cases hr : r = t.nextId
        · simp [hr]
        · simpa [hr] using h.requests r
      nextId := rfl
      submitted := congrArg (· ++ [t.nextId]) h.submitted
      pending := congrArg (· ++ [t.nextId]) h.pending }
  | cancel rid =>
    apply Alike.ok
    rw [h.submitted]
    split
    · exact h.modify rid (fun _ => rfl) (fun _ => rfl)
    · exact h
  | tick => exact tick_inStep hgate hs ht hunacted h

include hgate in
theorem runEvents_inStep
    (hunacted : ∀ s, Runs.Visits (step cfg) (Batcher.new firstId) events s → Unacted cfg s) :
    InStep (runEvents cfg firstId events) (runEvents cfg.control firstId events) := by
  apply run_alike (Same.refl (Batcher.new firstId))
  intro pre e post s t hes hs ht h
  apply step_inStep hgate (runEvents_inv hs) (runEvents_inv ht) _ h
  intro s' hs'
  exact hunacted s' ⟨pre ++ [e], post, by simp [hes], Runs.run_snoc_ok.mpr ⟨s, hs, hs'⟩⟩

include hgate in
/-- **The strategies differ only by the decisions they act on.** For every run of every
    batcher whose gate answers what the forwards put out: if the strategy acts on none of the
    decisions the gate makes in it, what can be seen of the run, event by event and to its
    end, is what can be seen of the run of the same batcher under `baseline` without a gate. -/
theorem trajectory_eq_control
    (hunacted : ∀ s, Runs.Visits (step cfg) (Batcher.new firstId) events s → Unacted cfg s) :
    trajectory cfg firstId events = trajectory cfg.control firstId events := by
  unfold trajectory
  apply List.map_congr_left
  intro pre hpre
  obtain ⟨post, rfl⟩ := (List.mem_inits _ _).mp hpre
  apply (runEvents_inStep hgate _).observed
  intro s h
  obtain ⟨before, after, rfl, hbefore⟩ := h
  exact hunacted s ⟨before, after ++ post, by simp, hbefore⟩

/-- A gate none of whose answers is acted on makes no decision that is. -/
theorem unacted_of_gate (hrun : runEvents cfg firstId events = .ok s)
    (hinert : ∀ g, cfg.gate = some g → ∀ n v d, g.classify n v = .ok d → cfg.acts d = false) :
    Unacted cfg s := by
  intro r hr n row d hmem
  by_cases hbaseline : cfg.strategy = .baseline
  · simp [Config.acts, hbaseline]
  · obtain ⟨g, hg⟩ := Option.isSome_iff_exists.mp (cfg.gateRequired hbaseline)
    obtain ⟨-, hshown⟩ := ((runEvents_life hrun hr).checked hg).shown n row d hmem
    obtain ⟨k, hk⟩ := hshown.answer
    exact hinert g hg k row.hidden d hk

end Runs

/-- A batch of one, whose gate finds every request convergent. -/
def convergentConfig : Config TokenColumn :=
  countingConfig .probeDeprioritize 1 (constantGate 2 .convergent 1)

theorem trajectory_eq_control_convergent :
    trajectory convergentConfig 1 [.submit 3 [1] false, .tick, .submit 3 [2] true, .tick] =
      trajectory convergentConfig.control 1 [.submit 3 [1] false, .tick, .submit 3 [2] true, .tick] := by
  apply trajectory_eq_control
  · exact (countingConfig_serves .probeDeprioritize 1 2 .convergent 1).gate
  · intro s h
    obtain ⟨pre, post, -, hpre⟩ := h
    apply unacted_of_gate hpre
    intro g hg n v d hd
    obtain rfl := Option.some.inj hg
    obtain rfl := Except.ok.inj hd
    decide

end PGI
