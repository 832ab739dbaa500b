import Mathlib.Data.List.Dedup
import ProbeGuidedInference.Effects

/- What a decode phase does: the loop over the rows of a forward, routing, the eviction
   of all requests that ended, and the phase as a whole (`DecodedAll`). -/
namespace PGI
open Fallible Padding

variable {Col : Type}

/-! Decode. -/

/-- What neither the loop of `run_decode_step` nor `_apply_routing` touches. -/
structure Kept (s s' : Batcher Col) : Prop where
  nextId : s'.nextId = s.nextId
  submitted : s'.submitted = s.submitted
  pending : s'.pending = s.pending
  active : s'.active = s.active
  cache : s'.cache = s.cache
  finished : s'.finished = s.finished
  totalAdmitted : s'.totalAdmitted = s.totalAdmitted
  totalFinished : s'.totalFinished = s.totalFinished
  totalProbeTerminated : s'.totalProbeTerminated = s.totalProbeTerminated
  totalPreemptions : s'.totalPreemptions = s.totalPreemptions

theorem Kept.refl (s : Batcher Col) : Kept s s := ⟨rfl, rfl, rfl, rfl, rfl, rfl, rfl, rfl, rfl, rfl⟩

theorem Kept.trans {s t u : Batcher Col} (h : Kept s t) (h' : Kept t u) : Kept s u where
  nextId := h'.nextId.trans h.nextId
  submitted := h'.submitted.trans h.submitted
  pending := h'.pending.trans h.pending
  active := h'.active.trans h.active
  cache := h'.cache.trans h.cache
  finished := h'.finished.trans h.finished
  totalAdmitted := h'.totalAdmitted.trans h.totalAdmitted
  totalFinished := h'.totalFinished.trans h.totalFinished
  totalProbeTerminated := h'.totalProbeTerminated.trans h.totalProbeTerminated
  totalPreemptions := h'.totalPreemptions.trans h.totalPreemptions

theorem kept_modify (s : Batcher Col) (rid : Nat) (f : GenerationRequest → GenerationRequest) :
    Kept s (s.modify rid f) := ⟨rfl, rfl, rfl, rfl, rfl, rfl, rfl, rfl, rfl, rfl⟩

section DecodeLoop
variable {cfg : Config Col}

/-- The gate's part of the loop body for row `i` of `rows`, for a request that the new
    token left as `r`. -/
inductive GateRow (cfg : Config Col) (rows : List CapturedRow) (i : Nat) (r : GenerationRequest) :
    Answer → Prop where
  | skipped (h : ∀ g, cfg.gate = some g →
      (r.routingDecision.isNone && g.readyAt r.nGenerated) = false) : GateRow cfg rows i r none
  | called (g : ClassificationGate) (n : Nat) (row : CapturedRow) (d : RoutingDecision) (time : ℚ)
      (hg : cfg.gate = some g) (hready : (r.routingDecision.isNone && g.readyAt r.nGenerated) = true)
      (hrow : rows[i]? = some row) (hd : g.classify n row.hidden = .ok d) :
      GateRow cfg rows i r (some (row, d, time))

/-- The hook's tensor is there whenever the gate reads it. -/
theorem GateRow.gateCall {rows : List CapturedRow} {i : Nat} {r : GenerationRequest}
    {answer : Answer} {captured : CapturedRow}
    (h : GateRow cfg ((if cfg.gate.isSome then some rows else none).getD []) i r answer)
    (hrow : rows[i]? = some captured) : GateCall cfg captured r answer := by
  cases h with
  | skipped h => exact .skipped h
  | called g n row d time hg hready hrow' hd =>
    simp only [hg, Option.isSome_some, if_true, Option.getD_some] at hrow'
    obtain rfl := Option.some.inj (hrow.symm.trans hrow')
    exact .called g n d time hg hready hd

/-- The log entry of the gate's part. -/
def classifyEntries (rid n : Nat) : Answer → List LogEntry
  | none => []
  | some (row, d, _) => [.classify rid n row d]

theorem classifyRow_spec {hidden : Option (List CapturedRow)} {s s' : Batcher Col} {rid i : Nat}
    (h : classifyRow cfg hidden s rid i = .ok s') :
    Kept s s' ∧ ∃ answer, GateRow cfg (hidden.getD []) i (s.requests rid) answer ∧
      s'.requests = Function.update s.requests rid
        (answered (s.requests rid) answer.decision) ∧
      s'.log = s.log ++ classifyEntries rid (s.requests rid).nGenerated answer := by
  unfold classifyRow at h
  split at h
  · rename_i hg
    obtain rfl := Except.ok.inj h
    refine ⟨.refl s, none, .skipped ?_, ?_, ?_⟩
    · simp [hg]
    · simp [Answer.decision, answered]
    · simp [classifyEntries]
  · rename_i gate hg
    simp only at h
    split at h
    · rename_i hready
      obtain ⟨row, hrow, h⟩ := bind_eq_ok.mp h
      obtain ⟨d, hd, h⟩ := bind_eq_ok.mp h
      have hrow' := index_eq_ok.mp (raising_eq_ok.mp hrow)
      have hd' := mapError_eq_ok.mp (raising_eq_ok.mp hd)
      obtain rfl := Except.ok.inj h
      refine ⟨⟨rfl, rfl, rfl, rfl, rfl, ?_, rfl, rfl, rfl, rfl⟩, some (row, d, cfg.time s.clock),
        .called gate s.classifies row d _ hg hready hrow' hd', ?_, ?_⟩
      · simp [Batcher.finished]
      · funext r
        simp [Answer.decision, answered]
      · simp [classifyEntries]
    · rename_i hready
      obtain rfl := Except.ok.inj h
      refine ⟨.refl s, none, .skipped ?_, ?_, ?_⟩
      · intro g hg'
        obtain rfl := Option.some.inj (hg.symm.trans hg')
        simpa using hready
      · simp [Answer.decision, answered]
      · simp [classifyEntries]

/-- Row `i` of the forward's answer, and the gate's, went into request `rid`. -/
structure RowDecoded (cfg : Config Col) (nextIds : List Nat) (rows : List CapturedRow)
    (s s' : Batcher Col) (rid i nid : Nat) (answer : Answer) : Prop where
  token : nextIds[i]? = some nid
  gate : GateRow cfg rows i ((s.requests rid).appended nid) answer
  req : s'.requests rid = (s.requests rid).nextToken cfg nid answer.decision
  history : s'.history rid =
    s.history rid ++ View.decodeEntries rid nid (s.requests rid).nGenerated answer

/-- Nothing about request `r` changed but, at most, where it is and its cache entries. -/
def Untouched (s s' : Batcher Col) (r : Nat) : Prop :=
  s'.requests r = s.requests r ∧ s'.history r = s.history r

/-- The loop body up to the recursive call. -/
def decodeRow (cfg : Config Col) (nid : Nat) (hidden : Option (List CapturedRow)) (s : Batcher Col)
    (rid i : Nat) : Except (PyError × Batcher Col) (Batcher Col) :=
  classifyRow cfg hidden ((s.modify rid (·.appended nid)).record (.decode rid nid)) rid i

theorem decodeRow_spec {nextIds : List Nat} {hidden : Option (List CapturedRow)} {s t : Batcher Col}
    {rid i nid : Nat} (hnid : nextIds[i]? = some nid) (h : decodeRow cfg nid hidden s rid i = .ok t) :
    let s' := if cfg.ended nid (t.requests rid) then t.modify rid (cfg.setReason nid) else t
    Kept s s' ∧ (∃ answer, RowDecoded cfg nextIds (hidden.getD []) s s' rid i nid answer) ∧
      (cfg.ended nid (t.requests rid) = cfg.ended nid (s'.requests rid)) ∧
      ∀ r ≠ rid, Untouched s s' r := by
  obtain ⟨hkept, answer, hgate, hreq, hlog⟩ := classifyRow_spec h
  simp only [Batcher.record_requests, Batcher.modify_requests, Function.update_self] at hgate hreq hlog
  intro s'
  have hlog' : s'.log = t.log := by
    simp only [s']
    split <;> rfl
  have ht : t.requests rid = answered ((s.requests rid).appended nid) answer.decision := by
    rw [hreq, Function.update_self]
  have hs' : s'.requests rid = (s.requests rid).nextToken cfg nid answer.decision := by
    rw [← nextToken_eq, ← ht]
    simp only [s']
    split
    · simp
    · rfl
  have hkept' : Kept t s' := by
    simp only [s']
    split
    · exact kept_modify t rid _
    · exact .refl t
  have hrecord : Kept s ((s.modify rid (·.appended nid)).record (.decode rid nid)) :=
    ⟨rfl, rfl, rfl, rfl, rfl, by simp [Batcher.finished], rfl, rfl, rfl, rfl⟩
  refine ⟨(hrecord.trans hkept).trans hkept', ⟨answer, hnid, hgate, hs', ?_⟩, ?_, ?_⟩
  · simp only [Batcher.history, hlog', hlog, Batcher.record_log, Batcher.modify_log]
    cases answer with
    | none => simp [LogEntry.rid, View.decodeEntries, classifyEntries]
    | some a => simp [LogEntry.rid, View.decodeEntries, classifyEntries,
        GenerationRequest.appended, GenerationRequest.nGenerated]
  · simp only [s']
    split
    · simp [Config.setReason, Config.ended, GenerationRequest.nGenerated]
    · rfl
  · intro r hr
    refine ⟨?_, ?_⟩
    · have : s'.requests r = t.requests r := by
        simp only [s']
        split
        · simp [hr]
        · rfl
      rw [this, hreq]
      simp [hr]
    · simp only [Batcher.history, hlog', hlog, Batcher.record_log, Batcher.modify_log]
      cases answer with
      | none => simp [LogEntry.rid, classifyEntries, hr.symm]
      | some a => simp [LogEntry.rid, classifyEntries, hr.symm]

theorem decodeLoop_cons {nextIds : List Nat} {hidden : Option (List CapturedRow)}
    {rid i : Nat} {rest : List (Nat × Nat)} {s s' : Batcher Col} {ids : List Nat} :
    decodeLoop cfg nextIds hidden ((rid, i) :: rest) s = .ok (ids, s') ↔
      ∃ nid t ids', nextIds[i]? = some nid ∧ decodeRow cfg nid hidden s rid i = .ok t ∧
        decodeLoop cfg nextIds hidden rest
          (if cfg.ended nid (t.requests rid) then t.modify rid (cfg.setReason nid) else t) =
            .ok (ids', s') ∧
        ids = if cfg.ended nid (t.requests rid) then rid :: ids' else ids' := by
  rw [decodeLoop]
  refine ⟨?_, ?_⟩
  · intro h
    obtain ⟨nid, hnid, h⟩ := bind_eq_ok.mp h
    obtain ⟨t, ht, h⟩ := bind_eq_ok.mp h
    refine ⟨nid, t, ?_⟩
    split at h
    · rename_i he
      obtain ⟨⟨ids', u⟩, hu, h⟩ := bind_eq_ok.mp h
      obtain ⟨rfl, rfl⟩ := Prod.mk.inj (Except.ok.inj h)
      exact ⟨ids', index_eq_ok.mp (raising_eq_ok.mp hnid), ht, by rw [if_pos he]; exact hu, by
        rw [if_pos he]⟩
    · rename_i he
      exact ⟨ids, index_eq_ok.mp (raising_eq_ok.mp hnid), ht, by rw [if_neg he]; exact h, by
        rw [if_neg he]⟩
  · intro hparts
    obtain ⟨nid, t, ids', hnid, ht, h, rfl⟩ := hparts
    rw [raising_eq_ok.mpr (index_eq_ok.mpr hnid), ok_bind]
    unfold decodeRow at ht
    simp only [ht, ok_bind]
    split
    · rename_i he
      rw [if_pos he] at h
      simp [h]
    · rename_i he
      rw [if_neg he] at h
      exact h

/-- Each request of the batch is decoded by its own row, and the ids returned are those
    of the requests that ended. -/
theorem decodeLoop_spec {nextIds : List Nat} {hidden : Option (List CapturedRow)} :
    ∀ (pairs : List (Nat × Nat)) (s : Batcher Col) {ids : List Nat} {s' : Batcher Col},
    (pairs.map Prod.fst).Nodup → decodeLoop cfg nextIds hidden pairs s = .ok (ids, s') →
    Kept s s' ∧ (∀ r ∉ pairs.map Prod.fst, Untouched s s' r) ∧ ids ⊆ pairs.map Prod.fst ∧
    ∀ p ∈ pairs, ∃ nid answer, RowDecoded cfg nextIds (hidden.getD []) s s' p.1 p.2 nid answer ∧
      (p.1 ∈ ids ↔ cfg.ended nid (s'.requests p.1) = true) := by
  intro pairs
  induction pairs with
  | nil =>
    intro s ids s' _ h
    obtain ⟨rfl, rfl⟩ := Prod.mk.inj (Except.ok.inj h)
    exact ⟨.refl s, fun _ _ => ⟨rfl, rfl⟩, by simp, by simp⟩
  | cons p rest ih =>
    intro s ids s' hnd h
    obtain ⟨rid, i⟩ := p
    rw [List.map_cons, List.nodup_cons] at hnd
    obtain ⟨hrid, hnd⟩ := hnd
    obtain ⟨nid, t, ids', hnid, ht, hrest, rfl⟩ := decodeLoop_cons.mp h
    obtain ⟨hkept, ⟨answer, hrow⟩, hended, hother⟩ := decodeRow_spec hnid ht
    obtain ⟨hkept', hother', hsub, hrows⟩ := ih _ hnd hrest
    -- the rest of the loop does not touch `rid`, nor did its own turn touch the rest
    obtain ⟨hreq, hhist⟩ := hother' rid hrid
    refine ⟨hkept.trans hkept', ?_, ?_, ?_⟩
    · intro r hr
      rw [List.map_cons, List.mem_cons, not_or] at hr
      obtain ⟨hreq₁, hhist₁⟩ := hother r hr.1
      obtain ⟨hreq₂, hhist₂⟩ := hother' r hr.2
      exact ⟨hreq₂.trans hreq₁, hhist₂.trans hhist₁⟩
    · split
      · exact List.cons_subset_cons rid hsub
      · exact List.subset_cons_of_subset rid hsub
    · intro q hq
      rcases List.mem_cons.mp hq with rfl | hq
      · refine ⟨nid, answer, ⟨hrow.token, hrow.gate, hreq.trans hrow.req, hhist.trans hrow.history⟩, ?_⟩
        have hnot : rid ∉ ids' := fun hc => hrid (hsub hc)
        rw [hreq, ← hended]
        split
        · rename_i he
          simp [he]
        · rename_i he
          simp [he, hnot]
      · obtain ⟨nid', answer', hrow', hmem'⟩ := hrows q hq
        have hne : q.1 ≠ rid := by
          intro heq
          exact hrid (List.mem_map.mpr ⟨q, hq, heq⟩)
        obtain ⟨hreq₁, hhist₁⟩ := hother q.1 hne
        refine ⟨nid', answer', ⟨hrow'.token, ?_, ?_, ?_⟩, ?_⟩
        · rw [← hreq₁]
          exact hrow'.gate
        · rw [← hreq₁]
          exact hrow'.req
        · rw [← hreq₁, ← hhist₁]
          exact hrow'.history
        · rw [← hmem']
          split
          · simp [hne]
          · rfl

end DecodeLoop

/-! The forward of a decode step. -/

section Forward
variable [Zero Col] {cfg : Config Col} {s : Batcher Col}
  {g : Nat → Fin cfg.model.nLayers → List Col × List Col}

/-- The requests of the batch stand in the cache with `g` their columns, as many as
    their position, and each has a token to feed. -/
structure Fed (cfg : Config Col) (s : Batcher Col)
    (g : Nat → Fin cfg.model.nLayers → List Col × List Col) : Prop where
  stored : ∀ r ∈ s.active, Stored s.cache r (g r) (s.requests r).position
  token : ∀ r ∈ s.active, (s.requests r).generatedIds ≠ []

def lastToken (s : Batcher Col) (r : Nat) : Nat := (s.requests r).generatedIds.getLastD 0

omit [Zero Col] in
theorem lastToken_spec (hfed : Fed cfg s g) {r : Nat} (hr : r ∈ s.active) :
    (s.requests r).generatedIds.getLast? = some (lastToken s r) := by
  rw [lastToken, List.getLastD_eq_getLast?]
  simp [List.getLast?_eq_some_getLast (hfed.token r hr)]

/-- What a decode step feeds to the model, with all rows padded to `maxLen`. -/
def decodeInput (s : Batcher Col) (g : Nat → Fin cfg.model.nLayers → List Col × List Col)
    (maxLen : Nat) : DecodeInput Col where
  inputIds := s.active.map (lastToken s)
  attentionMask := s.active.map (fun r => maskRow maxLen (s.requests r).position)
  positionIds := s.active.map (fun r => (s.requests r).position)
  pastKeyValues := (paddedBatch s.active g (fun r => (s.requests r).position) maxLen).batchedCache

/-- What the loop over the rows starts from. -/
def forwarded (cfg : Config Col) (s : Batcher Col) (inp : DecodeInput Col)
    (rows : List (ForwardRow Col cfg.model.nLayers)) (cache : BatchedSequenceCache Col) :
    Batcher Col :=
  { s with
    forwards := s.forwards + 1
    captureLast := if cfg.gate.isSome then some (capturedRows s.active inp rows) else s.captureLast
    cache := cache }

/-- Up to its forward, a decode step builds the padded batch. -/
theorem runDecodeStep_forward (hfed : Fed cfg s g) (hne : s.active ≠ []) :
    ∃ maxLen, (∀ r ∈ s.active, (s.requests r).position ≤ maxLen) ∧
      runDecodeStep cfg s s.active =
        raising { s with forwards := s.forwards + 1 }
          ((cfg.model.decode s.forwards (decodeInput s g maxLen)).mapError .modelError) >>=
        fun out => afterForward cfg s.active (decodeInput s g maxLen) maxLen out.val
          { s with forwards := s.forwards + 1 } := by
  have htokens : s.active.mapM (fun r => lastOf (s.requests r).generatedIds) =
      .ok (s.active.map (lastToken s)) := by
    apply mapM_ok
    intro r hr
    rw [lastOf_eq_ok]
    exact lastToken_spec hfed hr
  obtain ⟨maxLen, hmax, hbatch⟩ := buildBatch_ok cfg.model.nLayers_pos hne hfed.stored
  refine ⟨maxLen, hmax, ?_⟩
  unfold runDecodeStep
  simp only [htokens, hbatch, raising, mapError_ok, ok_bind]
  rfl

/-- After the forward the caches grow by their own columns, those of other requests stay,
    and the loop runs over the rows. -/
theorem afterForward_eq (hfed : Fed cfg s g) (hnd : s.active.Nodup) (maxLen : Nat)
    (rows : List (ForwardRow Col cfg.model.nLayers)) :
    ∃ cache, (∀ (i r : Nat) (row : ForwardRow Col cfg.model.nLayers), s.active[i]? = some r →
          rows[i]? = some row → Stored cache r (grow (g r) row.newKV) ((s.requests r).position + 1)) ∧
      (∀ r ∉ s.active, cache.cache r = s.cache.cache r ∧ cache.seqLens r = s.cache.seqLens r) ∧
      afterForward cfg s.active (decodeInput s g maxLen) maxLen rows
          { s with forwards := s.forwards + 1 } =
        decodeLoop cfg (rows.map (fun row => argmax row.logits))
          (if cfg.gate.isSome then some (capturedRows s.active (decodeInput s g maxLen) rows) else none)
          s.active.zipIdx (forwarded cfg s (decodeInput s g maxLen) rows cache) := by
  obtain ⟨cache, hcache, hgrow, hframe⟩ :=
    scatterUpdatedBatch_ok maxLen (rows.map ForwardRow.newKV) hnd hfed.stored
  refine ⟨cache, ?_, hframe, ?_⟩
  · intro i r row hi hrow
    exact hgrow i r row.newKV hi (by rw [List.getElem?_map, hrow]; rfl)
  · have hscatter : s.cache.scatterUpdatedBatch s.active
        ((decodeInput s g maxLen).updatedCache rows) maxLen = .ok cache := hcache
    unfold afterForward
    cases hg : cfg.gate.isSome
    · simp [Batcher.hook, hg, hscatter, forwarded]
    · simp [Batcher.hook, hg, hscatter, forwarded]

end Forward

/-! Route. -/

section Route
variable (cfg : Config Col)

theorem routeLoop_spec : ∀ (ids : List Nat) (s : Batcher Col), ids.Nodup →
    Kept s (routeLoop cfg ids s).2 ∧ (routeLoop cfg ids s).2.log = s.log ∧
    (routeLoop cfg ids s).1 = ids.filter (fun r => (s.requests r).terminatedBy cfg) ∧
    (∀ r ∉ ids, (routeLoop cfg ids s).2.requests r = s.requests r) ∧
    ∀ r ∈ ids, (routeLoop cfg ids s).2.requests r = (s.requests r).routedBy cfg := by
  intro ids
  induction ids with
  | nil =>
    intro s _
    exact ⟨.refl s, rfl, rfl, fun _ _ => rfl, by simp⟩
  | cons rid rest ih =>
    intro s hnd
    rw [List.nodup_cons] at hnd
    obtain ⟨hrid, hnd⟩ := hnd
    obtain ⟨hkept, hlog, hids, hother, hin⟩ := ih (s.modify rid (·.routedBy cfg)) hnd
    have hne : ∀ r ∈ rest, r ≠ rid := fun r hr heq => hrid (heq ▸ hr)
    simp only [routeLoop]
    refine ⟨(kept_modify s rid _).trans hkept, hlog, ?_, ?_, ?_⟩
    · have hfilter : rest.filter (fun r =>
          ((s.modify rid (·.routedBy cfg)).requests r).terminatedBy cfg) =
          rest.filter (fun r => (s.requests r).terminatedBy cfg) := by
        apply List.filter_congr
        intro r hr
        simp [hne r hr]
      rw [hids, hfilter, List.filter_cons]
    · intro r hr
      rw [List.mem_cons, not_or] at hr
      rw [hother r hr.2]
      simp [hr.1]
    · intro r hr
      rcases List.mem_cons.mp hr with rfl | hr
      · rw [hother r hrid]
        simp
      · rw [hin r hr]
        simp [hne r hr]

/-- Every active request goes through `routeOnce`, and the ids returned are those of the
    requests the probe stops. -/
theorem applyRouting_spec (s : Batcher Col) (hnd : s.active.Nodup) :
    Kept s (applyRouting cfg s).2 ∧ (applyRouting cfg s).2.log = s.log ∧
    (applyRouting cfg s).1 = s.active.filter (fun r =>
      (s.requests r).routable cfg && (s.requests r).terminatedBy cfg) ∧
    (∀ r ∉ s.active, (applyRouting cfg s).2.requests r = s.requests r) ∧
    ∀ r ∈ s.active, (applyRouting cfg s).2.requests r = (s.requests r).routeOnce cfg := by
  unfold applyRouting
  by_cases hg : cfg.gate.isNone = true
  · rw [if_pos hg]
    have hnot : ∀ r : GenerationRequest, r.routable cfg = false := by
      intro r
      simp [GenerationRequest.routable, Option.isNone_iff_eq_none.mp hg]
    refine ⟨.refl s, rfl, ?_, fun _ _ => rfl, ?_⟩
    · simp [hnot]
    · intro r _
      rw [← routeOnce_eq, hnot]
      rfl
  · rw [if_neg hg]
    have hsome : cfg.gate.isSome = true := by simpa [Option.isSome_iff_ne_none] using hg
    have hroutable : ∀ r, ((s.requests r).routingDecision.isSome && !(s.requests r).routed) =
        (s.requests r).routable cfg := by
      intro r
      simp [GenerationRequest.routable, hsome]
    simp only [hroutable]
    obtain ⟨hkept, hlog, hids, hother, hin⟩ := routeLoop_spec cfg
      (s.active.filter (fun r => (s.requests r).routable cfg)) s (hnd.filter _)
    refine ⟨hkept, hlog, ?_, ?_, ?_⟩
    · rw [hids, List.filter_filter]
      apply List.filter_congr
      intro r _
      exact Bool.and_comm _ _
    · intro r hr
      exact hother r (fun hc => hr (List.mem_of_mem_filter hc))
    · intro r hr
      rw [← routeOnce_eq]
      by_cases hrt : (s.requests r).routable cfg = true
      · rw [if_pos hrt]
        exact hin r (List.mem_filter.mpr ⟨hr, hrt⟩)
      · rw [if_neg hrt]
        exact hother r (fun hc => hrt (List.mem_filter.mp hc).2)

end Route

/-! Evict all that ended. -/

section FinishAll
variable (cfg : Config Col)

/-- The requests `ids` are finished, in this order. -/
structure FinishedAll (cfg : Config Col) (s s' : Batcher Col) (ids : List Nat) : Prop where
  pending : s'.pending = s.pending
  submitted : s'.submitted = s.submitted
  nextId : s'.nextId = s.nextId
  active : s'.active = s.active.diff ids
  finished : s'.finished = s.finished ++ ids
  totalAdmitted : s'.totalAdmitted = s.totalAdmitted
  totalPreemptions : s'.totalPreemptions = s.totalPreemptions
  counted : Counted s → Counted s'
  self : ∀ r ∈ ids, ∃ time, s'.view r = (s.view r).finish cfg r time
  other : ∀ r ∉ ids, s'.view r = s.view r

/-- Every lookup of the loop finds its request: the ids are distinct and active. -/
theorem finishAll_spec : ∀ (ids : List Nat) (s : Batcher Col), ids.Nodup → ids ⊆ s.active →
    s.active.Nodup → ∃ s', finishAll cfg ids s = .ok s' ∧ FinishedAll cfg s s' ids := by
  intro ids
  induction ids with
  | nil =>
    intro s _ _ _
    exact ⟨s, rfl, rfl, rfl, rfl, rfl, by simp, rfl, rfl, id, by simp, fun _ _ => rfl⟩
  | cons rid rest ih =>
    intro s hnd hsub hact
    rw [List.nodup_cons] at hnd
    obtain ⟨hrid, hnd⟩ := hnd
    have hin : rid ∈ s.active := hsub List.mem_cons_self
    have hrest : rest ⊆ (finish cfg s rid).active := by
      intro r hr
      rw [finish_active, hact.mem_erase_iff]
      exact ⟨fun heq => hrid (heq ▸ hr), hsub (List.mem_cons_of_mem rid hr)⟩
    obtain ⟨s', hs', h⟩ := ih (finish cfg s rid) hnd hrest (hact.erase rid)
    refine ⟨s', ?_, h.pending, h.submitted, h.nextId, ?_, ?_, h.totalAdmitted, h.totalPreemptions,
      fun hc => h.counted (finish_counted cfg s rid hc), ?_, ?_⟩
    · simp only [finishAll, hin, if_true]
      exact hs'
    · rw [h.active, finish_active, List.diff_cons]
    · rw [h.finished, finish_finished, List.append_assoc]
      rfl
    · intro r hr
      rcases List.mem_cons.mp hr with rfl | hr
      · exact ⟨_, (h.other r hrid).trans (finish_view_self cfg s r hact)⟩
      · have hne : r ≠ rid := fun heq => hrid (heq ▸ hr)
        obtain ⟨time, ht⟩ := h.self r hr
        exact ⟨time, by rw [ht, finish_view_ne cfg s rid hne]⟩
    · intro r hr
      rw [List.mem_cons, not_or] at hr
      rw [h.other r hr.2, finish_view_ne cfg s rid hr.1]

end FinishAll

/-! A whole decode phase. -/

section DecodePhase
variable [Zero Col] {cfg : Config Col} {s s' : Batcher Col}
  {g : Nat → Fin cfg.model.nLayers → List Col × List Col}

theorem decodeInput_wellFormed (hfed : Fed cfg s g) (hne : s.active ≠ []) {maxLen : Nat}
    (hmax : ∀ r ∈ s.active, (s.requests r).position ≤ maxLen) :
    (decodeInput s g maxLen).WellFormed cfg.model.nLayers where
  nonempty := by simpa [decodeInput] using hne
  positions := by simp [decodeInput]
  layers := by simp [decodeInput, paddedBatch]
  padded := by
    refine ⟨maxLen, by simpa [decodeInput] using hmax, by simp [decodeInput, Function.comp_def], ?_⟩
    intro kv hkv
    obtain ⟨ℓ, rfl⟩ := List.mem_ofFn.mp hkv
    have hshape (part : List Col × List Col → List Col)
        (hpart : ∀ r ∈ s.active, (part (g r ℓ)).length = (s.requests r).position) :
        HasShape (s.active.map (lastToken s)).length maxLen
          (s.active.map (fun r => padLeft 0 maxLen (part (g r ℓ)))) := by
      refine ⟨by simp, ?_⟩
      intro row hrow
      obtain ⟨r, hr, rfl⟩ := List.mem_map.mp hrow
      exact padLeft_length (by rw [hpart r hr]; exact hmax r hr)
    exact ⟨hshape Prod.fst (fun r hr => (hfed.stored r hr).keys ℓ),
      hshape Prod.snd (fun r hr => (hfed.stored r hr).values ℓ)⟩

/-- The row of a request of the batch is one that `RowOf` speaks of. -/
theorem rowOf_decodeInput (hfed : Fed cfg s g) {maxLen : Nat}
    (hmax : ∀ r ∈ s.active, (s.requests r).position ≤ maxLen)
    {out : { rows : List (ForwardRow Col cfg.model.nLayers) //
      rows.length = (decodeInput s g maxLen).inputIds.length }}
    (hout : cfg.model.decode s.forwards (decodeInput s g maxLen) = .ok out)
    {i r : Nat} {row : ForwardRow Col cfg.model.nLayers} (hi : s.active[i]? = some r)
    (hrow : out.val[i]? = some row) :
    RowOf cfg.model (lastToken s r) (s.requests r).position (g r) row := by
  have hr : r ∈ s.active := List.mem_of_getElem? hi
  have hwell := decodeInput_wellFormed hfed (List.ne_nil_of_mem hr) hmax
  refine ⟨s.forwards, _, out, hwell, hout, i, maskRow maxLen (s.requests r).position, hrow,
    ?_, ?_, ?_, ?_, ?_⟩
  · simp [decodeInput, hi]
  · simp [decodeInput, hi]
  · simp [decodeInput, hi]
  · rw [List.getLast?_eq_getElem?, maskRow, maskFrom_length, maskFrom_getElem? (by omega)]
    simp
  · have hvis : visible (paddedBatch s.active g (fun r => (s.requests r).position) maxLen).batchedCache.layers
        ((maskRow maxLen (s.requests r).position).take maxLen) i = List.ofFn (g r) :=
      visible_paddedBatch hi (hfed.stored r hr) (hmax r hr)
    rw [List.dropLast_eq_take, maskRow, maskFrom_length]
    exact hvis

theorem capturedRow_decodeInput {maxLen : Nat} {rows : List (ForwardRow Col cfg.model.nLayers)}
    {i r : Nat} {row : ForwardRow Col cfg.model.nLayers} (hi : s.active[i]? = some r)
    (hrow : rows[i]? = some row) :
    (capturedRows s.active (decodeInput s g maxLen) rows)[i]? =
      some ⟨r, lastToken s r, (s.requests r).position, row.hidden⟩ := by
  have hzip : (s.active.zip ((decodeInput s g maxLen).inputIds.zip
      (decodeInput s g maxLen).positionIds))[i]? =
      some (r, lastToken s r, (s.requests r).position) := by
    simp [List.getElem?_zip_eq_some, decodeInput, hi]
  simp [capturedRows, List.getElem?_zipWith, hzip, hrow]

/-- What `run_decode_step` did: the active requests each took one row of one forward and
    the gate's answer, the ids it returned are those of the requests that ended, and no
    other request was touched. -/
structure Looped (cfg : Config Col) (s t : Batcher Col)
    (g : Nat → Fin cfg.model.nLayers → List Col × List Col) (finishedIds : List Nat) : Prop where
  kept : Kept { s with cache := t.cache } t
  ids : finishedIds ⊆ s.active
  self : ∀ r ∈ s.active, ∃ (row : ForwardRow Col cfg.model.nLayers) (answer : Answer),
    RowOf cfg.model (lastToken s r) (s.requests r).position (g r) row ∧
    GateCall cfg ⟨r, lastToken s r, (s.requests r).position, row.hidden⟩
      ((s.requests r).appended (argmax row.logits)) answer ∧
    Stored t.cache r (grow (g r) row.newKV) ((s.requests r).position + 1) ∧
    t.requests r = (s.requests r).nextToken cfg (argmax row.logits) answer.decision ∧
    t.history r = s.history r ++
      View.decodeEntries r (argmax row.logits) (s.requests r).nGenerated answer ∧
    (r ∈ finishedIds ↔ cfg.ended (argmax row.logits) (t.requests r) = true)
  other : ∀ r ∉ s.active, t.view r = s.view r

theorem runDecodeStep_spec {t : Batcher Col} {finishedIds : List Nat} (hfed : Fed cfg s g)
    (hne : s.active ≠ []) (hnd : s.active.Nodup)
    (h : runDecodeStep cfg s s.active = .ok (finishedIds, t)) : Looped cfg s t g finishedIds := by
  obtain ⟨maxLen, hmax, hforward⟩ := runDecodeStep_forward hfed hne
  rw [hforward] at h
  obtain ⟨out, hout, h⟩ := bind_eq_ok.mp h
  have hout' := mapError_eq_ok.mp (raising_eq_ok.mp hout)
  obtain ⟨cache, hgrow, hframe, hafter⟩ := afterForward_eq hfed hnd maxLen out.val
  rw [hafter] at h
  have hfst : s.active.zipIdx.map Prod.fst = s.active := List.zipIdx_map_fst 0 s.active
  obtain ⟨hkept, huntouched, hsub, hrows⟩ := decodeLoop_spec s.active.zipIdx _ (by rwa [hfst]) h
  rw [hfst] at huntouched hsub
  have hcache : t.cache = cache := hkept.cache
  exact {
    kept := { hkept with cache := rfl }
    ids := hsub
    self := by
      intro r hr
      obtain ⟨i, hi⟩ := List.getElem?_of_mem hr
      obtain ⟨nid, answer, hrow, hended⟩ := hrows (r, i) (List.mem_zipIdx_iff_getElem?.mpr hi)
      have hlen : i < out.val.length := by
        rw [out.property]
        simpa [decodeInput] using (List.getElem?_eq_some_iff.mp hi).1
      have hri : out.val[i]? = some out.val[i] := List.getElem?_eq_getElem hlen
      have hnid : nid = argmax out.val[i].logits := by
        have := hrow.token
        rw [List.getElem?_map, hri] at this
        exact (Option.some.inj this).symm
      subst hnid
      refine ⟨out.val[i], answer, rowOf_decodeInput hfed hmax hout' hi hri,
        hrow.gate.gateCall (capturedRow_decodeInput hi hri), ?_, hrow.req, hrow.history, hended⟩
      rw [hcache]
      exact hgrow i r _ hi hri
    other := by
      intro r hr
      obtain ⟨hreq, hhist⟩ := huntouched r hr
      apply Batcher.view_congr
      · rw [hkept.active]
        rfl
      · rw [hkept.finished]
        rfl
      · exact hreq
      · rw [hcache]
        exact (hframe r hr).1
      · rw [hcache]
        exact (hframe r hr).2
      · exact hhist }

/-- What one decode phase did: the queue is as it was, some of the active requests are
    finished, each active request was decoded and no other request was touched. -/
structure DecodedAll (cfg : Config Col) (s s' : Batcher Col) : Prop where
  pending : s'.pending = s.pending
  submitted : s'.submitted = s.submitted
  nextId : s'.nextId = s.nextId
  totalAdmitted : s'.totalAdmitted = s.totalAdmitted
  totalPreemptions : s'.totalPreemptions = s.totalPreemptions
  counted : (∀ r ∈ s.finished, r ∉ s.active) → Counted s → Counted s'
  place : ∃ ids, ids.Nodup ∧ ids ⊆ s.active ∧ s'.active = s.active.diff ids ∧
    s'.finished = s.finished ++ ids
  self : ∀ r ∈ s.active, Decoded cfg r (s.view r) (s'.view r)
  other : ∀ r ∉ s.active, s'.view r = s.view r

omit [Zero Col] in
/-- The ids that routing and eviction work on: distinct, active, and those of the
    requests that ended or that the probe stopped. -/
theorem setOrder_spec {t : Batcher Col} {finishedIds : List Nat}
    (hnd : s.active.Nodup) (h : Looped cfg s t g finishedIds) :
    (cfg.setOrder (finishedIds ++ (applyRouting cfg t).1)).Nodup ∧
    cfg.setOrder (finishedIds ++ (applyRouting cfg t).1) ⊆ s.active ∧
    ∀ r ∈ s.active, (r ∈ cfg.setOrder (finishedIds ++ (applyRouting cfg t).1) ↔
      r ∈ finishedIds ∨
        ((t.requests r).routable cfg && (t.requests r).terminatedBy cfg) = true) := by
  obtain ⟨-, -, hterm, -, -⟩ := applyRouting_spec cfg t (by rw [h.kept.active]; exact hnd)
  have hperm := cfg.setOrder_perm (finishedIds ++ (applyRouting cfg t).1)
  have hmem : ∀ r, r ∈ cfg.setOrder (finishedIds ++ (applyRouting cfg t).1) ↔
      r ∈ finishedIds ∨ (r ∈ s.active ∧
        ((t.requests r).routable cfg && (t.requests r).terminatedBy cfg) = true) := by
    intro r
    rw [hperm.mem_iff, List.mem_dedup, List.mem_append, hterm, h.kept.active, List.mem_filter]
  refine ⟨hperm.nodup_iff.mpr (List.nodup_dedup _), ?_, ?_⟩
  · intro r hr
    rcases (hmem r).mp hr with hr | hr
    · exact h.ids hr
    · exact hr.1
  · intro r hr
    rw [hmem]
    simp [hr]

omit [Zero Col] in
/-- Routing and eviction after a decode step do not raise, and complete the phase. -/
theorem Looped.finishes {t : Batcher Col} {finishedIds : List Nat} (hfed : Fed cfg s g)
    (hnd : s.active.Nodup) (h : Looped cfg s t g finishedIds) :
    ∃ s', finishAll cfg (cfg.setOrder (finishedIds ++ (applyRouting cfg t).1))
      (applyRouting cfg t).2 = .ok s' ∧ DecodedAll cfg s s' := by
  obtain ⟨hkept, hlog, -, hout, hin⟩ := applyRouting_spec cfg t (by rw [h.kept.active]; exact hnd)
  obtain ⟨hids, hsub, hmem⟩ := setOrder_spec hnd h
  generalize cfg.setOrder (finishedIds ++ (applyRouting cfg t).1) = ids at hids hsub hmem ⊢
  have hact : (applyRouting cfg t).2.active = s.active := hkept.active.trans h.kept.active
  have hhist : ∀ r, (applyRouting cfg t).2.history r = t.history r := by
    intro r
    simp only [Batcher.history, hlog]
  obtain ⟨s', hs', hfin⟩ :=
    finishAll_spec cfg ids (applyRouting cfg t).2 hids (by rwa [hact]) (by rwa [hact])
  refine ⟨s', hs', ?_⟩
  exact {
    pending := by rw [hfin.pending, hkept.pending, h.kept.pending]
    submitted := by rw [hfin.submitted, hkept.submitted, h.kept.submitted]
    nextId := by rw [hfin.nextId, hkept.nextId, h.kept.nextId]
    totalAdmitted := by rw [hfin.totalAdmitted, hkept.totalAdmitted, h.kept.totalAdmitted]
    totalPreemptions := by
      rw [hfin.totalPreemptions, hkept.totalPreemptions, h.kept.totalPreemptions]
    counted := by
      intro hdisj hc
      apply hfin.counted
      apply hc.congr (by rw [hkept.finished, h.kept.finished]; rfl)
        (by rw [hkept.totalFinished, h.kept.totalFinished])
        (by rw [hkept.totalProbeTerminated, h.kept.totalProbeTerminated])
      intro r hr
      rw [hout r (by rw [h.kept.active]; exact hdisj r hr)]
      have hview := congrArg View.req (h.other r (hdisj r hr))
      exact congrArg GenerationRequest.terminatedByProbe hview
    place := ⟨ids, hids, hsub, by rw [hfin.active, hact], by
      rw [hfin.finished, hkept.finished, h.kept.finished]
      rfl⟩
    self := by
      intro r hr
      obtain ⟨row, answer, hrow, hgate, hstored, hreq, hentries, hended⟩ := h.self r hr
      have hview : (applyRouting cfg t).2.view r = (s.view r).advance cfg r (g r) row answer := by
        ext1
        · show (applyRouting cfg t).2.loc r = .active
          simp [Batcher.loc, hact, hr]
        · show (applyRouting cfg t).2.requests r = _
          rw [hin r (by rwa [h.kept.active]), hreq]
          rfl
        · show (applyRouting cfg t).2.cache.cache r = _
          rw [hkept.cache, hstored.cache]
          rfl
        · show (applyRouting cfg t).2.cache.seqLens r = (s.cache.seqLens r).map (· + 1)
          rw [hkept.cache, hstored.seqLen, (hfed.stored r hr).seqLen]
          rfl
        · exact (hhist r).trans hentries
      have hleaves : r ∈ ids ↔ ((s.requests r).nextToken cfg (argmax row.logits)
          answer.decision).leaves cfg (argmax row.logits) = true := by
        rw [hmem r hr, hended, hreq]
        simp only [GenerationRequest.leaves, Bool.or_eq_true]
      have hdec : ∀ time, Decoded cfg r (s.view r)
          ((s.view r).decode cfg r (g r) row answer time) := fun time =>
        .intro (g r) (lastToken s r) (s.requests r).position row answer time
          (hfed.stored r hr).cache (hfed.stored r hr).seqLen (lastToken_spec hfed hr) hrow hgate
      by_cases hd : r ∈ ids
      · obtain ⟨time, ht⟩ := hfin.self r hd
        have hval : (s.view r).decode cfg r (g r) row answer time = s'.view r := by
          rw [ht, hview]
          exact if_pos (hleaves.mp hd)
        exact hval ▸ hdec time
      · have hval : (s.view r).decode cfg r (g r) row answer 0 = s'.view r := by
          rw [hfin.other r hd, hview]
          exact if_neg (fun hc => hd (hleaves.mpr hc))
        exact hval ▸ hdec 0
    other := by
      intro r hr
      rw [hfin.other r (fun hc => hr (hsub hc)), ← h.other r hr]
      apply Batcher.view_congr
      · rw [hkept.active]
      · rw [hkept.finished]
      · exact hout r (by rwa [h.kept.active])
      · rw [hkept.cache]
      · rw [hkept.cache]
      · exact hhist r }

theorem decodePhase_spec (hfed : Fed cfg s g) (hne : s.active ≠ []) (hnd : s.active.Nodup)
    (h : decodePhase cfg s = .ok s') : DecodedAll cfg s s' := by
  unfold decodePhase at h
  obtain ⟨⟨finishedIds, t⟩, hrun, h⟩ := bind_eq_ok.mp h
  obtain ⟨u, hu, hdec⟩ := (runDecodeStep_spec hfed hne hnd hrun).finishes hfed hnd
  have hus : s' = u := Except.ok.inj (h.symm.trans hu)
  exact hus ▸ hdec

end DecodePhase

end PGI
