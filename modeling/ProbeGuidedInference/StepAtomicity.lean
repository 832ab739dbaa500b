import ProbeGuidedInference.TableModel

/- What a decode step leaves behind when it raises. Up to the return of the model's
   forward the step has changed nothing that a request or its cache entry holds. After it
   the caches of all rows are written, and then the requests are advanced one by one with
   a call of the gate in the middle: where the gate raises, the rows before it have
   advanced, its own has a token and no decision, and those behind it have a longer cache
   and no token. Nothing here asks where the state comes from: any cache, any requests,
   any batch of distinct requests. -/
namespace PGI
open Fallible

variable {Col : Type}

/-- The gate will be called for the request when it has one more token. -/
def ClassificationGate.due (g : ClassificationGate) (r : GenerationRequest) : Bool :=
  r.routingDecision.isNone && g.readyAt (r.nGenerated + 1)

/-- Asked for the due rows in order, in its `k`-th call and the following, the gate raises
    for one of them. The rows are pairs (request, row). -/
def ClassificationGate.refuses (g : ClassificationGate) (requests : Nat → GenerationRequest)
    (hidden : List (List ℚ)) : Nat → List (Nat × Nat) → Bool
  | _, [] => false
  | k, (rid, i) :: rest =>
    if g.due (requests rid) then
      match g.classify k (hidden.getD i []) with
      | .error _ => true
      | .ok _ => g.refuses requests hidden (k + 1) rest
    else g.refuses requests hidden k rest

/-- What the step feeds to the model, with the length all rows are padded to. -/
def stepInput [Zero Col] (s : Batcher Col) (activeReqs : List Nat) :
    Except PyError (DecodeInput Col × Nat) := do
  let nextTokens ← activeReqs.mapM (fun rid => lastOf (s.requests rid).generatedIds)
  let batch ← s.cache.buildBatch activeReqs
  return ({ inputIds := nextTokens, attentionMask := batch.attentionMask,
            positionIds := batch.positionIds, pastKeyValues := batch.batchedCache }, batch.maxLen)

/-- The forward of the step returns, and the gate raises for one of its rows. -/
def GateRefuses [Zero Col] (cfg : Config Col) (s : Batcher Col) (activeReqs : List Nat) : Prop :=
  ∃ g inp maxLen out, cfg.gate = some g ∧ stepInput s activeReqs = .ok (inp, maxLen) ∧
    cfg.model.decode s.forwards inp = .ok out ∧
    g.refuses s.requests (out.val.map ForwardRow.hidden) s.classifies activeReqs.zipIdx = true

/-- The cached length of each request is its position. -/
def CacheInStep (s : Batcher Col) (activeReqs : List Nat) : Prop :=
  ∀ r ∈ activeReqs, s.cache.seqLens r = some (s.requests r).position

instance (s : Batcher Col) (activeReqs : List Nat) : Decidable (CacheInStep s activeReqs) :=
  inferInstanceAs (Decidable (∀ r ∈ activeReqs, _))

/-- No request and no cache entry has changed: the step can be run again. -/
structure Intact [Zero Col] (activeReqs : List Nat) (s s' : Batcher Col) : Prop where
  requests : s'.requests = s.requests
  cache : s'.cache = s.cache
  cacheInStep : CacheInStep s activeReqs → CacheInStep s' activeReqs
  input : stepInput s' activeReqs = stepInput s activeReqs

/-- The step was left at the row of `rid`: that request and those before it have advanced,
    no other has, and the cache entries of all of them have. -/
structure Torn (before : List Nat) (rid : Nat) (after : List Nat) (s s' : Batcher Col) : Prop where
  advanced : ∀ r ∈ before ++ [rid], (s'.requests r).nGenerated = (s.requests r).nGenerated + 1 ∧
    (s'.requests r).position = (s.requests r).position + 1
  behind : ∀ r ∉ before ++ [rid], s'.requests r = s.requests r
  columns : ∀ r ∈ before ++ rid :: after, s'.cache.seqLens r = (s.cache.seqLens r).map (· + 1)

/-! The loop over the rows. -/

theorem ClassificationGate.refuses_congr (g : ClassificationGate)
    {requests requests' : Nat → GenerationRequest} (hidden : List (List ℚ)) :
    ∀ (pairs : List (Nat × Nat)) (k : Nat), (∀ p ∈ pairs, requests p.1 = requests' p.1) →
    g.refuses requests hidden k pairs = g.refuses requests' hidden k pairs := by
  intro pairs
  induction pairs with
  | nil => exact fun _ _ => rfl
  | cons p rest ih =>
    intro k h
    obtain ⟨rid, i⟩ := p
    have hhead : requests rid = requests' rid := h (rid, i) List.mem_cons_self
    have hrest : ∀ p ∈ rest, requests p.1 = requests' p.1 :=
      fun p hp => h p (List.mem_cons_of_mem _ hp)
    simp only [refuses, hhead, ih k hrest, ih (k + 1) hrest]

section Loop
variable {cfg : Config Col} {g : ClassificationGate} {s t : Batcher Col} {e : PyError}
  {rid i nid : Nat} {nextIds : List Nat} {rows : List CapturedRow} {row : CapturedRow}

theorem due_appended (g : ClassificationGate) (r : GenerationRequest) (nid : Nat) :
    ((r.appended nid).routingDecision.isNone && g.readyAt (r.appended nid).nGenerated) = g.due r := by
  have hlen : (r.appended nid).nGenerated = r.nGenerated + 1 := by
    simp [GenerationRequest.appended, GenerationRequest.nGenerated]
  rw [hlen]
  rfl

/-- The gate's part of a row raises exactly if the gate is called and raises. -/
theorem classifyRow_gate (hg : cfg.gate = some g) (hrow : rows[i]? = some row) (u : Batcher Col)
    {due : Bool} (hdue : ((u.requests rid).routingDecision.isNone &&
      g.readyAt (u.requests rid).nGenerated) = due) :
    (due = true ∧ ∃ d v, g.classify u.classifies row.hidden = .ok d ∧
      classifyRow cfg (some rows) u rid i = .ok v ∧ v.classifies = u.classifies + 1) ∨
    (due = true ∧ ∃ msg v, g.classify u.classifies row.hidden = .error msg ∧
      classifyRow cfg (some rows) u rid i = .error (.valueError msg, v)) ∨
    (due = false ∧ classifyRow cfg (some rows) u rid i = .ok u) := by
  have hindex : ∀ w : Batcher Col, raising w (index ((some rows).getD []) i) = .ok row :=
    fun w => raising_eq_ok.mpr (index_eq_ok.mpr hrow)
  unfold classifyRow
  simp only [hg, hdue, hindex, ok_bind]
  cases due with
  | false => exact .inr (.inr ⟨rfl, rfl⟩)
  | true =>
    rw [if_pos rfl]
    cases hd : g.classify u.classifies row.hidden with
    | ok d => exact .inl ⟨rfl, d, _, rfl, rfl, rfl⟩
    | error msg => exact .inr (.inl ⟨rfl, msg, _, rfl, rfl⟩)

/-- What the turn of a request leaves, returning or raising: one more token, and nothing
    else of another request or of the caches. -/
structure RowTurn (s u : Batcher Col) (rid : Nat) : Prop where
  longer : (u.requests rid).nGenerated = (s.requests rid).nGenerated + 1
  position : (u.requests rid).position = (s.requests rid).position + 1
  other : ∀ r ≠ rid, u.requests r = s.requests r
  cache : u.cache = s.cache

theorem classifyRow_final (cfg : Config Col) (hidden : Option (List CapturedRow)) (u : Batcher Col) (rid i : Nat) :
    ((final (classifyRow cfg hidden u rid i)).requests rid).nGenerated = (u.requests rid).nGenerated ∧
    ((final (classifyRow cfg hidden u rid i)).requests rid).position = (u.requests rid).position ∧
    (∀ r ≠ rid, (final (classifyRow cfg hidden u rid i)).requests r = u.requests r) ∧
    (final (classifyRow cfg hidden u rid i)).cache = u.cache := by
  unfold classifyRow
  split
  · exact ⟨rfl, rfl, fun _ _ => rfl, rfl⟩
  · rename_i g hg
    simp only
    split
    · cases index (hidden.getD []) i with
      | error e => exact ⟨rfl, rfl, fun _ _ => rfl, rfl⟩
      | ok row =>
        simp only [raising, mapError_ok, ok_bind]
        cases g.classify u.classifies row.hidden with
        | error msg => exact ⟨rfl, rfl, fun _ _ => rfl, rfl⟩
        | ok d =>
          refine ⟨?_, ?_, ?_, rfl⟩
          · simp [GenerationRequest.classified, GenerationRequest.nGenerated]
          · simp [GenerationRequest.classified]
          · intro r hr
            simp [hr]
    · exact ⟨rfl, rfl, fun _ _ => rfl, rfl⟩

theorem decodeRow_turn (hidden : Option (List CapturedRow)) :
    RowTurn s (final (decodeRow cfg nid hidden s rid i)) rid := by
  have hfinal := classifyRow_final cfg hidden
    ((s.modify rid (·.appended nid)).record (.decode rid nid)) rid i
  obtain ⟨hlen, hposition, hother, hcache⟩ := hfinal
  refine ⟨hlen.trans ?_, hposition.trans ?_, ?_, hcache⟩
  · simp [GenerationRequest.appended, GenerationRequest.nGenerated]
  · simp [GenerationRequest.appended]
  · intro r hr
    rw [decodeRow, hother r hr]
    simp [hr]

/-- A row raises exactly if its request is due and the gate raises; the gate's calls are
    counted. -/
theorem decodeRow_gate (s : Batcher Col) (rid nid : Nat) (hg : cfg.gate = some g)
    (hrow : rows[i]? = some row) :
    (g.due (s.requests rid) = true ∧ ∃ d u, g.classify s.classifies row.hidden = .ok d ∧
      decodeRow cfg nid (some rows) s rid i = .ok u ∧ u.classifies = s.classifies + 1) ∨
    (g.due (s.requests rid) = true ∧ ∃ msg v, g.classify s.classifies row.hidden = .error msg ∧
      decodeRow cfg nid (some rows) s rid i = .error (.valueError msg, v)) ∨
    (g.due (s.requests rid) = false ∧ ∃ u, decodeRow cfg nid (some rows) s rid i = .ok u ∧
      u.classifies = s.classifies) := by
  have hreq : ((s.modify rid (·.appended nid)).record (.decode rid nid)).requests rid =
      (s.requests rid).appended nid := by simp
  have hdue := due_appended g (s.requests rid) nid
  rw [← hreq] at hdue
  rcases classifyRow_gate hg hrow _ hdue with h | h | ⟨h, heq⟩
  · exact .inl h
  · exact .inr (.inl h)
  · exact .inr (.inr ⟨h, _, heq, rfl⟩)

/-- The loop, one row at a time. -/
theorem decodeLoop_error {hidden : Option (List CapturedRow)} {rest : List (Nat × Nat)}
    {x : PyError × Batcher Col} (hnid : nextIds[i]? = some nid) :
    decodeLoop cfg nextIds hidden ((rid, i) :: rest) s = .error x ↔
      decodeRow cfg nid hidden s rid i = .error x ∨
      ∃ u, decodeRow cfg nid hidden s rid i = .ok u ∧ decodeLoop cfg nextIds hidden rest
        (if cfg.ended nid (u.requests rid) then u.modify rid (cfg.setReason nid) else u) = .error x := by
  have hindex : raising s (index nextIds i) = .ok nid := raising_eq_ok.mpr (index_eq_ok.mpr hnid)
  rw [decodeLoop, hindex, ok_bind, bind_eq_error]
  apply or_congr_right
  apply exists_congr
  intro u
  apply and_congr_right
  intro _
  split
  · rw [bind_eq_error]
    simp
  · rfl

/-- The state in which the loop goes on after a row. -/
theorem RowTurn.setReason {u : Batcher Col} (h : RowTurn s u rid) (cfg : Config Col) (nid : Nat) :
    RowTurn s (if cfg.ended nid (u.requests rid) then u.modify rid (cfg.setReason nid) else u) rid := by
  split
  · refine ⟨?_, ?_, ?_, h.cache⟩
    · simpa [Config.setReason, GenerationRequest.nGenerated] using h.longer
    · simpa [Config.setReason] using h.position
    · intro r hr
      simpa [hr] using h.other r hr
  · exact h

theorem decodeRow_next {hidden : Option (List CapturedRow)} {u : Batcher Col}
    (hu : decodeRow cfg nid hidden s rid i = .ok u) :
    RowTurn s (if cfg.ended nid (u.requests rid) then u.modify rid (cfg.setReason nid) else u) rid := by
  have hturn : RowTurn s (final (decodeRow cfg nid hidden s rid i)) rid := decodeRow_turn hidden
  rw [hu, final_ok] at hturn
  exact hturn.setReason cfg nid

/-- The requests of the rows to come are as they were. -/
theorem RowTurn.rest {u : Batcher Col} {rest : List (Nat × Nat)} (h : RowTurn s u rid)
    (hrid : rid ∉ rest.map Prod.fst) : ∀ q ∈ rest, u.requests q.1 = s.requests q.1 := by
  intro q hq
  have hmem : q.1 ∈ rest.map Prod.fst := List.mem_map_of_mem hq
  exact h.other q.1 (fun heq => hrid (heq ▸ hmem))

/-- Where the loop raises: the rows up to that one have advanced, the others have not. -/
theorem decodeLoop_raise {hidden : Option (List CapturedRow)} :
    ∀ (pairs : List (Nat × Nat)) {s : Batcher Col}, (pairs.map Prod.fst).Nodup →
    (∀ p ∈ pairs, p.2 < nextIds.length) → decodeLoop cfg nextIds hidden pairs s = .error (e, t) →
    ∃ before p after, pairs = before ++ p :: after ∧ t.cache = s.cache ∧
      (∀ q ∈ before ++ [p], (t.requests q.1).nGenerated = (s.requests q.1).nGenerated + 1 ∧
        (t.requests q.1).position = (s.requests q.1).position + 1) ∧
      ∀ r ∉ (before ++ [p]).map Prod.fst, t.requests r = s.requests r := by
  intro pairs
  induction pairs with
  | nil =>
    intro s _ _ h
    cases h
  | cons p rest ih =>
    intro s hnd hids h
    obtain ⟨rid, i⟩ := p
    rw [List.map_cons, List.nodup_cons] at hnd
    have hi : i < nextIds.length := hids (rid, i) List.mem_cons_self
    have hnid := List.getElem?_eq_getElem hi
    rcases (decodeLoop_error hnid).mp h with hraise | ⟨u, hu, hrest⟩
    · have hturn : RowTurn s (final (decodeRow cfg nextIds[i] hidden s rid i)) rid :=
        decodeRow_turn hidden
      rw [hraise, final_error] at hturn
      refine ⟨[], (rid, i), rest, rfl, hturn.cache, ?_, ?_⟩
      · intro q hq
        obtain rfl := List.mem_singleton.mp hq
        exact ⟨hturn.longer, hturn.position⟩
      · intro r hr
        exact hturn.other r (by simpa using hr)
    · have hnext := decodeRow_next hu
      obtain ⟨before, p, after, rfl, hcache, hlonger, hother⟩ :=
        ih hnd.2 (fun q hq => hids q (List.mem_cons_of_mem _ hq)) hrest
      have hrid : rid ∉ (before ++ [p]).map Prod.fst := by
        intro hc
        apply hnd.1
        rw [List.map_append, List.mem_append] at hc ⊢
        refine hc.imp id (fun h => ?_)
        rw [List.mem_singleton.mp h]
        exact List.mem_cons_self
      refine ⟨(rid, i) :: before, p, after, rfl, hcache.trans hnext.cache, ?_, ?_⟩
      · intro q hq
        rcases List.mem_cons.mp hq with rfl | hq
        · rw [hother rid hrid]
          exact ⟨hnext.longer, hnext.position⟩
        · rw [← hnext.rest hrid q hq]
          exact hlonger q hq
      · intro r hr
        rw [List.cons_append, List.map_cons, List.mem_cons, not_or] at hr
        rw [hother r hr.2, hnext.other r hr.1]

/-- Without a gate the loop never raises. -/
theorem decodeLoop_ungated (hg : cfg.gate = none) {hidden : Option (List CapturedRow)} :
    ∀ (pairs : List (Nat × Nat)) {s : Batcher Col} {x : PyError × Batcher Col},
    (∀ p ∈ pairs, p.2 < nextIds.length) → decodeLoop cfg nextIds hidden pairs s ≠ .error x := by
  intro pairs
  induction pairs with
  | nil => exact fun _ h => by cases h
  | cons p rest ih =>
    intro s x hids h
    obtain ⟨rid, i⟩ := p
    have hnid := List.getElem?_eq_getElem (hids (rid, i) List.mem_cons_self)
    rcases (decodeLoop_error hnid).mp h with hraise | ⟨u, -, hrest⟩
    · unfold decodeRow classifyRow at hraise
      rw [hg] at hraise
      cases hraise
    · exact ih (fun q hq => hids q (List.mem_cons_of_mem _ hq)) hrest

/-- **The loop raises exactly where the gate refuses.** -/
theorem decodeLoop_raises_iff (hg : cfg.gate = some g) :
    ∀ (pairs : List (Nat × Nat)) {s : Batcher Col}, (pairs.map Prod.fst).Nodup →
    (∀ p ∈ pairs, p.2 < nextIds.length ∧ p.2 < rows.length) →
    ((∃ x, decodeLoop cfg nextIds (some rows) pairs s = .error x) ↔
      g.refuses s.requests (rows.map CapturedRow.hidden) s.classifies pairs = true) := by
  intro pairs
  induction pairs with
  | nil =>
    intro s _ _
    simp [decodeLoop, ClassificationGate.refuses]
  | cons p rest ih =>
    intro s hnd hids
    obtain ⟨rid, i⟩ := p
    rw [List.map_cons, List.nodup_cons] at hnd
    obtain ⟨hi, hi'⟩ := hids (rid, i) List.mem_cons_self
    have hnid := List.getElem?_eq_getElem hi
    have hrow := List.getElem?_eq_getElem hi'
    have hhidden : (rows.map CapturedRow.hidden).getD i [] = rows[i].hidden := by
      simp [List.getD_eq_getElem?_getD, hi']
    -- the rest of the loop meets the requests it would have met before this row
    have hrest : ∀ u, decodeRow cfg nextIds[i] (some rows) s rid i = .ok u →
        ((∃ x, decodeLoop cfg nextIds (some rows) ((rid, i) :: rest) s = .error x) ↔
          g.refuses s.requests (rows.map CapturedRow.hidden) u.classifies rest = true) := by
      intro u hu
      have hclassifies : (if cfg.ended nextIds[i] (u.requests rid) then
          u.modify rid (cfg.setReason nextIds[i]) else u).classifies = u.classifies := by
        split <;> rfl
      have hsame := (decodeRow_next hu).rest hnd.1
      rw [← g.refuses_congr _ rest _ hsame, ← hclassifies,
        ← ih hnd.2 (fun q hq => hids q (List.mem_cons_of_mem _ hq))]
      apply exists_congr
      intro x
      rw [decodeLoop_error hnid, hu]
      simp
    rw [ClassificationGate.refuses, hhidden]
    rcases decodeRow_gate s rid nextIds[i] hg hrow with
      ⟨hdue, d, u, hd, hu, hcount⟩ | ⟨hdue, msg, v, hd, hraise⟩ | ⟨hdue, u, hu, hcount⟩
    · rw [if_pos hdue, hd, hrest u hu, hcount]
    · rw [if_pos hdue, hd]
      exact ⟨fun _ => rfl, fun _ => ⟨_, (decodeLoop_error hnid).mpr (.inl hraise)⟩⟩
    · rw [if_neg (by rw [hdue]; decide), hrest u hu, hcount]

/-- What the loop raises is what the gate answered for a row that was due. -/
theorem decodeLoop_raised (hg : cfg.gate = some g) :
    ∀ (pairs : List (Nat × Nat)) {s : Batcher Col}, (pairs.map Prod.fst).Nodup →
    (∀ p ∈ pairs, p.2 < nextIds.length ∧ p.2 < rows.length) →
    decodeLoop cfg nextIds (some rows) pairs s = .error (e, t) →
    ∃ p ∈ pairs, g.due (s.requests p.1) = true ∧ ∃ row k msg, rows[p.2]? = some row ∧
      g.classify k row.hidden = .error msg ∧ e = .valueError msg := by
  intro pairs
  induction pairs with
  | nil =>
    intro s _ _ h
    cases h
  | cons p rest ih =>
    intro s hnd hids h
    obtain ⟨rid, i⟩ := p
    rw [List.map_cons, List.nodup_cons] at hnd
    obtain ⟨hi, hi'⟩ := hids (rid, i) List.mem_cons_self
    have hnid := List.getElem?_eq_getElem hi
    have hrow := List.getElem?_eq_getElem hi'
    rcases (decodeLoop_error hnid).mp h with hraise | ⟨u, hu, hrest⟩
    · rcases decodeRow_gate s rid nextIds[i] hg hrow with
        ⟨-, d, u, -, hu, -⟩ | ⟨hdue, msg, v, hmsg, hv⟩ | ⟨-, u, hu, -⟩
      · rw [hu] at hraise
        cases hraise
      · rw [hv] at hraise
        obtain ⟨rfl, -⟩ := Prod.mk.inj (Except.error.inj hraise)
        exact ⟨(rid, i), List.mem_cons_self, hdue, _, _, msg, hrow, hmsg, rfl⟩
      · rw [hu] at hraise
        cases hraise
    · obtain ⟨q, hq, hdue, hanswer⟩ :=
        ih hnd.2 (fun q hq => hids q (List.mem_cons_of_mem _ hq)) hrest
      rw [(decodeRow_next hu).rest hnd.1 q hq] at hdue
      exact ⟨q, List.mem_cons_of_mem _ hq, hdue, hanswer⟩

end Loop

/-! The step. -/

@[simp] theorem raising_ok {S α : Type} (s : S) (a : α) : raising s (.ok a) = .ok a := rfl

theorem raising_bind {S α β : Type} (s : S) (x : Except PyError α) (f : α → Except PyError β) :
    raising s (x >>= f) = raising s x >>= fun a => raising s (f a) := by
  cases x <;> rfl

section Step
variable [Zero Col] {cfg : Config Col} {s t : Batcher Col} {activeReqs : List Nat} {e : PyError}
  {inp : DecodeInput Col} {maxLen : Nat}

/-- A decode step is its input, the forward and the rest. -/
theorem runDecodeStep_eq : runDecodeStep cfg s activeReqs =
    raising s (stepInput s activeReqs) >>= fun input =>
      raising { s with forwards := s.forwards + 1 }
        ((cfg.model.decode s.forwards input.1).mapError .modelError) >>= fun out =>
          afterForward cfg activeReqs input.1 input.2 out.val { s with forwards := s.forwards + 1 } := by
  unfold runDecodeStep stepInput
  simp only [raising_bind, bind_assoc]
  cases activeReqs.mapM (fun rid => lastOf (s.requests rid).generatedIds) with
  | error e => rfl
  | ok nextTokens =>
    cases s.cache.buildBatch activeReqs with
    | error e => rfl
    | ok batch => rfl

/-- The input has an entry for each request, and each has its length in the cache. -/
theorem stepInput_ok (h : stepInput s activeReqs = .ok (inp, maxLen)) :
    inp.inputIds.length = activeReqs.length ∧ inp.positionIds.length = activeReqs.length ∧
      ∀ r ∈ activeReqs, ∃ n, s.cache.seqLens r = some n := by
  unfold stepInput at h
  obtain ⟨nextTokens, htokens, h⟩ := bind_eq_ok.mp h
  obtain ⟨batch, hbatch, h⟩ := bind_eq_ok.mp h
  obtain ⟨rfl, -⟩ := Prod.mk.inj (Except.ok.inj h)
  unfold BatchedSequenceCache.buildBatch at hbatch
  obtain ⟨lengths, hlengths, hbatch⟩ := bind_eq_ok.mp hbatch
  have hall := mapM_forall₂ hlengths
  have hpositions : batch.positionIds = lengths := by
    obtain ⟨_, -, hbatch⟩ := bind_eq_ok.mp hbatch
    obtain ⟨_, -, hbatch⟩ := bind_eq_ok.mp hbatch
    obtain ⟨_, -, hbatch⟩ := bind_eq_ok.mp hbatch
    obtain ⟨_, -, hbatch⟩ := bind_eq_ok.mp hbatch
    obtain ⟨_, -, hbatch⟩ := bind_eq_ok.mp hbatch
    obtain rfl := Except.ok.inj hbatch
    rfl
  refine ⟨(mapM_forall₂ htokens).length_eq.symm, ?_, ?_⟩
  · calc batch.positionIds.length = lengths.length := congrArg List.length hpositions
      _ = activeReqs.length := hall.length_eq.symm
  · intro r hr
    obtain ⟨i, hi, hget⟩ := List.getElem_of_mem hr
    have hrow := hall.get hi (by rw [← hall.length_eq]; exact hi)
    rw [List.get_eq_getElem, hget] at hrow
    exact ⟨_, lookup_eq_ok.mp hrow⟩

/-- After the forward the step is the loop, over requests that are as they were and caches
    that are one column longer. -/
theorem afterForward_loop (cfg : Config Col) (hnd : activeReqs.Nodup) (hinput : stepInput s activeReqs = .ok (inp, maxLen))
    (rows : List (ForwardRow Col cfg.model.nLayers)) :
    ∃ u : Batcher Col, u.requests = s.requests ∧ u.classifies = s.classifies ∧
      (∀ r ∈ activeReqs, u.cache.seqLens r = (s.cache.seqLens r).map (· + 1)) ∧
      afterForward cfg activeReqs inp maxLen rows { s with forwards := s.forwards + 1 } =
        decodeLoop cfg (rows.map (fun row => argmax row.logits))
          (if cfg.gate.isSome then some (capturedRows activeReqs inp rows) else none)
          activeReqs.zipIdx u := by
  obtain ⟨-, -, hread⟩ := stepInput_ok hinput
  have hids : activeReqs.zipIdx.map Prod.fst = activeReqs := List.zipIdx_map_fst 0 activeReqs
  have hlen : ∀ r ∈ activeReqs, s.cache.seqLens r = some ((s.cache.seqLens r).getD 0) := by
    intro r hr
    obtain ⟨n, hn⟩ := hread r hr
    rw [hn, Option.getD_some]
  obtain ⟨cache, hcache, hin, -⟩ := scatterLoop_ok (fun r => (s.cache.seqLens r).getD 0)
    (inp.updatedCache rows) activeReqs.zipIdx s.cache (hids.symm ▸ hnd)
    (fun p hp => hlen p.1 (List.fst_mem_of_mem_zipIdx hp))
  have hscatter : s.cache.scatterUpdatedBatch activeReqs (inp.updatedCache rows) maxLen = .ok cache :=
    hcache
  have hcolumns : ∀ r ∈ activeReqs, cache.seqLens r = (s.cache.seqLens r).map (· + 1) := by
    intro r hr
    have hpair : r ∈ activeReqs.zipIdx.map Prod.fst := hids.symm ▸ hr
    obtain ⟨p, hp, rfl⟩ := List.mem_map.mp hpair
    rw [(hin p hp).1, hlen p.1 hr]
    rfl
  unfold afterForward
  cases hg : cfg.gate.isSome with
  | false =>
    refine ⟨{ s with forwards := s.forwards + 1, cache := cache }, rfl, rfl, hcolumns, ?_⟩
    simp [Batcher.hook, hg, hscatter]
  | true =>
    refine ⟨{ s with
      forwards := s.forwards + 1
      captureLast := some (capturedRows activeReqs inp rows)
      cache := cache }, rfl, rfl, hcolumns, ?_⟩
    simp [Batcher.hook, hg, hscatter]

theorem intact_of_eq (hrequests : t.requests = s.requests) (hcache : t.cache = s.cache) :
    Intact activeReqs s t where
  requests := hrequests
  cache := hcache
  cacheInStep h := by
    intro r hr
    rw [hcache, hrequests]
    exact h r hr
  input := by
    unfold stepInput
    rw [hrequests, hcache]

theorem zipIdx_fst_nodup (hnd : activeReqs.Nodup) : (activeReqs.zipIdx.map Prod.fst).Nodup := by
  rw [List.zipIdx_map_fst]
  exact hnd

/-- The loop finds a token and a captured row for each request, and the captured rows carry
    the hidden vectors of the forward. -/
theorem stepInput_rows (hinput : stepInput s activeReqs = .ok (inp, maxLen))
    {rows : List (ForwardRow Col cfg.model.nLayers)} (hrows : rows.length = inp.inputIds.length) :
    (capturedRows activeReqs inp rows).map CapturedRow.hidden = rows.map ForwardRow.hidden ∧
    ∀ p ∈ activeReqs.zipIdx, p.2 < (rows.map (fun row => argmax row.logits)).length ∧
      p.2 < (capturedRows activeReqs inp rows).length := by
  obtain ⟨hids, hpositions, -⟩ := stepInput_ok hinput
  have hn : rows.length = activeReqs.length := hrows.trans hids
  have hcaptured := capturedRows_hidden hids hpositions hn
  have hlen := congrArg List.length hcaptured
  rw [List.length_map, List.length_map] at hlen
  refine ⟨hcaptured, ?_⟩
  intro p hp
  have hp' : p.2 < activeReqs.length := by simpa using List.snd_lt_of_mem_zipIdx hp
  rw [List.length_map, hlen, hn]
  exact ⟨hp', hp'⟩

/-- The loop of the step raises exactly where the gate refuses. -/
theorem afterForward_raises_iff (hnd : activeReqs.Nodup) (hinput : stepInput s activeReqs = .ok (inp, maxLen))
    {rows : List (ForwardRow Col cfg.model.nLayers)} (hrows : rows.length = inp.inputIds.length) :
    (∃ x, afterForward cfg activeReqs inp maxLen rows { s with forwards := s.forwards + 1 } = .error x) ↔
      ∃ g, cfg.gate = some g ∧
        g.refuses s.requests (rows.map ForwardRow.hidden) s.classifies activeReqs.zipIdx = true := by
  obtain ⟨u, hrequests, hclassifies, -, hloop⟩ := afterForward_loop cfg hnd hinput rows
  obtain ⟨hcaptured, hbounds⟩ := stepInput_rows hinput hrows
  rw [hloop]
  cases hg : cfg.gate with
  | none =>
    -- without a gate the loop never raises
    refine ⟨?_, fun h => by simp at h⟩
    intro h
    obtain ⟨x, hx⟩ := h
    exact absurd hx (decodeLoop_ungated hg _ (fun p hp => (hbounds p hp).1))
  | some g =>
    rw [Option.isSome_some, if_pos rfl, decodeLoop_raises_iff hg _ (zipIdx_fst_nodup hnd) hbounds,
      hcaptured, hrequests, hclassifies]
    simp

/-- Where the gate refuses a row, the step raises at a row and leaves the requests torn. -/
theorem runDecodeStep_torn (hnd : activeReqs.Nodup) (href : GateRefuses cfg s activeReqs) :
    ∃ e t before rid after, activeReqs = before ++ rid :: after ∧
      runDecodeStep cfg s activeReqs = .error (e, t) ∧ Torn before rid after s t := by
  obtain ⟨g, inp, maxLen, out, hg, hinput, hforward, hrefuses⟩ := href
  obtain ⟨⟨e, t⟩, hraise⟩ := (afterForward_raises_iff hnd hinput out.property).mpr ⟨g, hg, hrefuses⟩
  have hstep : runDecodeStep cfg s activeReqs = .error (e, t) := by
    rw [runDecodeStep_eq, hinput, raising_ok, ok_bind, hforward, mapError_ok, raising_ok, ok_bind]
    exact hraise
  obtain ⟨u, hrequests, -, hcolumns, hloop⟩ := afterForward_loop cfg hnd hinput out.val
  obtain ⟨-, hbounds⟩ := stepInput_rows hinput out.property
  rw [hloop] at hraise
  obtain ⟨before, p, after, hsplit, hcache, hadvanced, hbehind⟩ :=
    decodeLoop_raise activeReqs.zipIdx (zipIdx_fst_nodup hnd) (fun p hp => (hbounds p hp).1) hraise
  have hreqs : activeReqs = before.map Prod.fst ++ p.1 :: after.map Prod.fst := by
    calc activeReqs = activeReqs.zipIdx.map Prod.fst := (List.zipIdx_map_fst 0 activeReqs).symm
      _ = before.map Prod.fst ++ p.1 :: after.map Prod.fst := by
          rw [hsplit, List.map_append, List.map_cons]
  have hpre : before.map Prod.fst ++ [p.1] = (before ++ [p]).map Prod.fst := by simp
  refine ⟨e, t, before.map Prod.fst, p.1, after.map Prod.fst, hreqs, hstep, ?_, ?_, ?_⟩
  · intro r hr
    rw [hpre] at hr
    obtain ⟨q, hq, rfl⟩ := List.mem_map.mp hr
    rw [← hrequests]
    exact hadvanced q hq
  · intro r hr
    rw [hpre] at hr
    rw [hbehind r hr, hrequests]
  · intro r hr
    rw [hcache]
    exact hcolumns r (hreqs ▸ hr)

/-- Where it refuses none, a raise comes before the requests and their caches are touched. -/
theorem runDecodeStep_intact (hnd : activeReqs.Nodup) (hnot : ¬ GateRefuses cfg s activeReqs)
    (h : runDecodeStep cfg s activeReqs = .error (e, t)) : Intact activeReqs s t := by
  rw [runDecodeStep_eq] at h
  rcases bind_eq_error.mp h with hraise | ⟨⟨inp, maxLen⟩, hinput, h⟩
  · obtain ⟨-, rfl⟩ := raising_eq_error.mp hraise
    exact intact_of_eq rfl rfl
  · replace hinput := raising_eq_ok.mp hinput
    rcases bind_eq_error.mp h with hraise | ⟨out, hforward, h⟩
    · obtain ⟨-, rfl⟩ := raising_eq_error.mp hraise
      exact intact_of_eq rfl rfl
    · replace hforward := mapError_eq_ok.mp (raising_eq_ok.mp hforward)
      obtain ⟨g, hg, hrefuses⟩ := (afterForward_raises_iff hnd hinput out.property).mp ⟨_, h⟩
      exact absurd ⟨g, inp, maxLen, out, hg, hinput, hforward, hrefuses⟩ hnot

/-- **A decode step is all or nothing exactly where the gate refuses no row.** From every
    state and for every batch of distinct requests: whatever a raising step leaves is as
    before the call, if and only if no row that the forward returns makes the gate raise. -/
theorem decode_step_atomic_iff (hnd : activeReqs.Nodup) :
    (∀ e t, runDecodeStep cfg s activeReqs = .error (e, t) → Intact activeReqs s t) ↔
      ¬ GateRefuses cfg s activeReqs := by
  refine ⟨?_, fun hnot e t h => runDecodeStep_intact hnd hnot h⟩
  intro hatomic href
  obtain ⟨e, t, before, rid, after, -, hraise, htorn⟩ := runDecodeStep_torn hnd href
  have hlonger := (htorn.advanced rid (by simp)).1
  rw [(hatomic e t hraise).requests] at hlonger
  omega

end Step

/-- A batcher of two whose gate takes vectors of three entries, over a model whose hidden
    vectors have two. -/
abbrev mismatchedConfig : Config TokenColumn :=
  countingConfig .probeTerminate 2
    { checkpointPosition := 3
      classify := fun _ v =>
        if v.length = 3 then .ok ⟨.convergent, 1, 3⟩
        else .error "hidden_vec has dim 2, probe expects 3. Wrong model or wrong layer hooked?" }

/-- Two requests are admitted and advance to the step in which the gate is called for both. -/
def untilCheckpoint : List Event := [.submit 9 [1] false, .submit 9 [2] false, .tick]

/-- The gate raises at request 1, which keeps its third token; request 2 has a third column
    and its old position. -/
theorem mismatchedConfig_torn :
    ∃ s e t, runEvents mismatchedConfig 1 untilCheckpoint = .ok s ∧ CacheInStep s s.active ∧
      runDecodeStep mismatchedConfig s s.active = .error (e, t) ∧
      ¬ Intact s.active s t ∧ ¬ CacheInStep t s.active := by
  have hrun : (runEvents mismatchedConfig 1 untilCheckpoint).toOption.map (fun s =>
      (s.active, decide (CacheInStep s s.active), (s.requests 1).position,
        (raisedIn (runDecodeStep mismatchedConfig s s.active)).map (fun t =>
          (decide (CacheInStep t s.active), (t.requests 1).position)))) =
      some ([1, 2], true, 2, some (false, 3)) := by decide
  obtain ⟨s, hs, hread⟩ := toOption_map_eq_some.mp hrun
  simp only [Prod.mk.injEq, decide_eq_true_eq] at hread
  obtain ⟨-, hinstep, hposition, hstep⟩ := hread
  obtain ⟨e, t, hraise, ht⟩ := raisedIn_map_eq_some.mp hstep
  simp only [Prod.mk.injEq, decide_eq_false_iff_not] at ht
  refine ⟨s, e, t, hs, hinstep, hraise, ?_, ht.1⟩
  intro hintact
  have hmoved := ht.2
  rw [hintact.requests, hposition] at hmoved
  omega

theorem decode_step_atomic_iff_run :
    ∃ s, runEvents mismatchedConfig 1 untilCheckpoint = .ok s ∧ s.active.Nodup ∧
      ((∀ e t, runDecodeStep mismatchedConfig s s.active = .error (e, t) → Intact s.active s t) ↔
        ¬ GateRefuses mismatchedConfig s s.active) := by
  have hrun : (runEvents mismatchedConfig 1 untilCheckpoint).toOption.map (fun s => s.active) =
      some [1, 2] := by decide
  obtain ⟨s, hs, hactive⟩ := toOption_map_eq_some.mp hrun
  have hnd : s.active.Nodup := hactive ▸ (by decide)
  exact ⟨s, hs, hnd, decode_step_atomic_iff hnd⟩

end PGI
