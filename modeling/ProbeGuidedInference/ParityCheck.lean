import ProbeGuidedInference.StrategyComparison

/- The parity checks of the setup script (scripts/verify_setup.py). They generate prompts
   with `model.generate()`, each alone, and then all of them together through the batched
   cache bridge, for a fixed number of tokens; they report each prompt whose tokens differ.

   The loop decodes on after EOS, where `model.generate()` stops. So the checks do more than
   compare: for a row-local model, a hook that only looks and a greedy `model.generate()`,
   whatever the lengths of the prompts, they report exactly the prompts whose own generation
   has stopped early (`check_reports`), and a report that says anything else is evidence
   against the bridge's contract with the model. -/
namespace PGI
open Fallible

variable {Col : Type}

/-! The script. -/

/-- What the checks are given: the loaded model, its own generation (the tokens after the
    prompt), the tokenizer, the configured layer, and where the request ids stand. -/
structure ParityCheck (Col : Type) where
  model : LanguageModel Col
  generate : (promptIds : List Nat) → (maxNewTokens : Nat) → Except String (List Nat)
  tokenizer : ChatTokenizer
  probeLayer : Int
  firstId : Nat

/-- A prompt whose tokens differ: what the bridge produced, and as much of what
    `model.generate()` did. -/
structure ParityError where
  index : Nat
  prompt : String
  bridge : List Nat
  reference : List Nat
  deriving DecidableEq

/-- `_check_single_sequence_parity` has only one prompt to name. -/
def ParityError.singleMessage (e : ParityError) : String :=
  s!"Single-sequence parity FAILED: bridge produced {e.bridge}, " ++
  s!"model.generate() produced {e.reference} -- " ++
  "the batched cache bridge is not numerically equivalent to native generation. " ++
  "Do not trust probe routing decisions until this is fixed."

/-- The prompts of the script have no character that their `repr` would escape. -/
def ParityError.multiMessage (e : ParityError) : String :=
  s!"Multi-sequence parity FAILED for prompt {e.index} ('{e.prompt}'): " ++
  s!"bridge produced {e.bridge}, model.generate() produced " ++
  s!"{e.reference} -- co-batching different-length sequences " ++
  "through the padded cache bridge is corrupting at least one of them " ++
  "(likely a left-padding / attention-mask / position_ids bug in src/hf_cache_bridge.py)."

inductive CheckRaised where
  | generate (msg : String)
  | layer (msg : String)
  | bridge (e : PyError)
  deriving DecidableEq, Repr

def ParityCheck.promptIds (c : ParityCheck Col) (prompt : String) : List Nat :=
  c.tokenizer.inputIds (c.tokenizer.applyChatTemplate prompt)

theorem dedup_order (ids : List Nat) : (List.dedup ids).Perm ids.dedup := .refl _

theorem baseline_ungated (h : RoutingStrategy.baseline ≠ .baseline) :
    (none : Option ClassificationGate).isSome = true := absurd rfl h

/-- What the checks pass to `run_prefill` and `run_decode_step`: no gate, and `n_tokens` for
    the cap. The rest of a batcher's arguments is not read by them. -/
def parityConfig (model : Model Col) (tokenizer : Tokenizer) (nTokens : Nat) : Config Col where
  model := model
  tokenizer := tokenizer
  strategy := .baseline
  gate := none
  maxBatchSize := 0
  maxTokensCap := nTokens
  terminateConfidenceThreshold := 0
  time _ := 0
  setOrder := List.dedup
  setOrder_perm := dedup_order
  gateRequired := baseline_ungated

/-- The requests as they are constructed, over an empty cache; `active` holds `reqs`. -/
def parityStart (firstId nTokens : Nat) (promptIdsList : List (List Nat)) : Batcher Col :=
  { Batcher.new firstId with
    requests := fun rid => .submitted nTokens (promptIdsList.getD (rid - firstId) []) false
    nextId := firstId + promptIdsList.length
    active := List.range' firstId promptIdsList.length }

def prefillAll (cfg : Config Col) (reqs : List Nat) (s : Batcher Col) :
    Except (PyError × Batcher Col) (Batcher Col) :=
  Runs.run (fun s rid => (runPrefill cfg s rid).map Prod.snd) s reqs

/-- The loop of decode steps, for at most so many rounds. -/
def decodeRounds [Zero Col] (cfg : Config Col) (nTokens : Nat) (reqs : List Nat) :
    Nat → Batcher Col → Except (PyError × Batcher Col) (Batcher Col)
  | 0, s => return s
  | rounds + 1, s =>
    let active := reqs.filter (fun rid => (s.requests rid).nGenerated < nTokens)
    if active.isEmpty then return s
    else do
      let (_, s) ← runDecodeStep cfg s active
      decodeRounds cfg nTokens reqs rounds s

/-- The tokens of each prompt, all generated together. -/
def bridgeTokens [Zero Col] (model : Model Col) (tokenizer : Tokenizer) (firstId nTokens : Nat)
    (promptIdsList : List (List Nat)) : Except (PyError × Batcher Col) (List (List Nat)) := do
  let cfg := parityConfig model tokenizer nTokens
  let reqs := List.range' firstId promptIdsList.length
  let s ← prefillAll cfg reqs (parityStart firstId nTokens promptIdsList)
  let s ← decodeRounds cfg nTokens reqs (nTokens - 1) s
  return reqs.map (fun rid => (s.requests rid).generatedIds.take nTokens)

/-- The comparison of one prompt's tokens. -/
def parityErrorOf (index : Nat) (prompt : String) (bridge reference : List Nat) : Option ParityError :=
  let reference := reference.take bridge.length
  if bridge = reference then none else some { index, prompt, bridge, reference }

/-- The reports of a check of these prompts. -/
def ParityCheck.check [Zero Col] (c : ParityCheck Col) (nTokens : Nat) (prompts : List String) :
    Except CheckRaised (List ParityError) := do
  let promptIdsList := prompts.map c.promptIds
  let references ← promptIdsList.mapM (fun ids => (c.generate ids nTokens).mapError .generate)
  let hooked ← (c.model.hooked c.probeLayer).mapError .layer
  let bridge ← (bridgeTokens hooked c.tokenizer.toTokenizer c.firstId nTokens promptIdsList).mapError
    (fun raised => .bridge raised.1)
  return (prompts.zip (bridge.zip references)).zipIdx.filterMap (fun p =>
    parityErrorOf p.2 p.1.1 p.1.2.1 p.1.2.2)

/-- `_check_single_sequence_parity`: what it adds to `errors`. -/
def ParityCheck.checkSingleSequenceParity [Zero Col] (c : ParityCheck Col) :
    Except CheckRaised (List String) := do
  return (← c.check 15 ["What is 17 * 24? Answer directly."]).map ParityError.singleMessage

/-- `_check_multi_sequence_parity`: what it adds to `errors`. -/
def ParityCheck.checkMultiSequenceParity [Zero Col] (c : ParityCheck Col) :
    Except CheckRaised (List String) := do
  return (← c.check 12 ["What is 2+2? Answer directly.",
    "Write the first five prime numbers, separated by commas, and nothing else."]).map
      ParityError.multiMessage

/-! Together the requests go on as each would alone, beyond its end too. -/

section Together
variable {cfg : Config Col} (hm : cfg.model.RowLocal) {s : Batcher Col} {reqs : List Nat}
  {prompt : Nat → List Nat}

/-- Request `r` has the tokens, the columns and the position of its generation alone, after
    `k` decodes. -/
structure AtDecode (s : Batcher Col) (r : Nat) (promptIds : List Nat) (k : Nat) : Prop where
  tokens : (s.requests r).generatedIds = (soloAt hm promptIds k).ids
  position : (s.requests r).position = (soloAt hm promptIds k).position
  stored : Stored s.cache r (soloAt hm promptIds k).cols (soloAt hm promptIds k).position

theorem AtDecode.congr {t : Batcher Col} {r k : Nat} {promptIds : List Nat}
    (h : AtDecode hm s r promptIds k) (hreq : t.requests r = s.requests r)
    (hcache : t.cache.cache r = s.cache.cache r) (hlen : t.cache.seqLens r = s.cache.seqLens r) :
    AtDecode hm t r promptIds k where
  tokens := by rw [hreq, h.tokens]
  position := by rw [hreq, h.position]
  stored := h.stored.congr hcache hlen

/-- What a prefill of `r` leaves as it was. -/
structure PrefillFrame (s t : Batcher Col) (r : Nat) : Prop where
  active : t.active = s.active
  requests : ∀ r' ≠ r, t.requests r' = s.requests r'
  cache : ∀ r' ≠ r, t.cache.cache r' = s.cache.cache r'
  seqLens : ∀ r' ≠ r, t.cache.seqLens r' = s.cache.seqLens r'

theorem runPrefill_atDecode {r : Nat} (hfresh : (s.requests r).generatedIds = []) :
    ∃ t, (runPrefill cfg s r).map Prod.snd = .ok t ∧
      AtDecode hm t r (s.requests r).promptIds 0 ∧ PrefillFrame s t r := by
  have hrun : runPrefill cfg s r = _ :=
    runPrefill_ok (hm.prefill_eq s.forwards (s.requests r).promptIds)
  refine ⟨_, congrArg (Except.map Prod.snd) hrun, ⟨?_, ?_, ?_⟩, rfl, ?_, ?_, ?_⟩
  · simp [hfresh, soloAt, soloStart]
  · simp [soloAt, soloStart]
  · exact {
      cache := by simp [BatchedSequenceCache.storePrefill, PrefillOut.pastKeyValues, soloAt, soloStart]
      seqLen := by simp [BatchedSequenceCache.storePrefill, soloAt, soloStart]
      keys := fun ℓ => (soloAt_cols hm (s.requests r).promptIds 0 ℓ).1
      values := fun ℓ => (soloAt_cols hm (s.requests r).promptIds 0 ℓ).2 }
  · intro r' hr'
    simp [hr']
  · intro r' hr'
    simp [BatchedSequenceCache.storePrefill, hr']
  · intro r' hr'
    simp [BatchedSequenceCache.storePrefill, hr']

variable (cfg) in
theorem prefillAll_atDecode (hnd : reqs.Nodup)
    (hfresh : ∀ r ∈ reqs, (s.requests r).generatedIds = [] ∧ (s.requests r).promptIds = prompt r) :
    ∃ t, prefillAll cfg reqs s = .ok t ∧ t.active = s.active ∧
      (∀ r ∈ reqs, AtDecode hm t r (prompt r) 0) ∧
      ∀ r ∉ reqs, t.requests r = s.requests r ∧ t.cache.cache r = s.cache.cache r ∧
        t.cache.seqLens r = s.cache.seqLens r := by
  unfold prefillAll
  induction reqs generalizing s with
  | nil => exact ⟨s, rfl, rfl, by simp, fun _ _ => ⟨rfl, rfl, rfl⟩⟩
  | cons r rest ih =>
    rw [List.nodup_cons] at hnd
    obtain ⟨hgen, hprompt⟩ := hfresh r List.mem_cons_self
    obtain ⟨u, hu, hat, hframe⟩ := runPrefill_atDecode hm hgen
    rw [hprompt] at hat
    have hrest : ∀ r' ∈ rest, (u.requests r').generatedIds = [] ∧
        (u.requests r').promptIds = prompt r' := by
      intro r' hr'
      rw [hframe.requests r' (fun heq => hnd.1 (heq ▸ hr'))]
      exact hfresh r' (List.mem_cons_of_mem r hr')
    obtain ⟨t, ht, hactive, hin, hout⟩ := ih hnd.2 hrest
    refine ⟨t, by rw [Runs.run_cons, hu]; exact ht, hactive.trans hframe.active, ?_, ?_⟩
    · intro r' hr'
      rcases List.mem_cons.mp hr' with rfl | hr'
      · -- the prefills that follow do not touch it
        obtain ⟨hreq, hcache, hlen⟩ := hout r' hnd.1
        exact hat.congr hm hreq hcache hlen
      · exact hin r' hr'
    · intro r' hr'
      rw [List.mem_cons, not_or] at hr'
      obtain ⟨hreq, hcache, hlen⟩ := hout r' hr'.2
      exact ⟨hreq.trans (hframe.requests r' hr'.1), hcache.trans (hframe.cache r' hr'.1),
        hlen.trans (hframe.seqLens r' hr'.1)⟩

include hm in
theorem rowLocal_serves (hgate : cfg.gate = none) : cfg.Serves where
  model := by
    refine ⟨?_, ?_⟩
    · intro n promptIds
      exact ⟨_, hm.prefill_eq n promptIds⟩
    · intro n inp hwell
      obtain ⟨out, hout, -⟩ := hm.decode_eq n inp hwell
      exact ⟨out, hout⟩
  gate _ _ _ _ _ _ g hg := by
    rw [hgate] at hg
    cases hg

theorem runDecodeStep_atDecode [Zero Col] (hgate : cfg.gate = none) (hne : s.active ≠ [])
    (hnd : s.active.Nodup) {k : Nat} (hat : ∀ r ∈ s.active, AtDecode hm s r (prompt r) k) :
    ∃ p t, runDecodeStep cfg s s.active = .ok (p, t) ∧ t.active = s.active ∧
      ∀ r ∈ s.active, AtDecode hm t r (prompt r) (k + 1) := by
  have hfed : Fed cfg s (fun r => (soloAt hm (prompt r) k).cols) := {
    stored := fun r hr => by
      rw [(hat r hr).position]
      exact (hat r hr).stored
    token := fun r hr => by
      have hlength := soloAt_length hm (prompt r) k
      rw [← (hat r hr).tokens] at hlength
      intro hnil
      rw [hnil, List.length_nil] at hlength
      omega }
  obtain ⟨⟨p, t⟩, hrun⟩ := hfed.runDecodeStep_returns (rowLocal_serves hm hgate) hnd hne
  have hlooped := runDecodeStep_spec hfed hne hnd hrun
  refine ⟨p, t, hrun, hlooped.kept.active, ?_⟩
  intro r hr
  obtain ⟨row, answer, hrow, -, hstored, hreq, -⟩ := hlooped.self r hr
  have hnext : soloAt hm (prompt r) (k + 1) =
      ⟨(soloAt hm (prompt r) k).ids ++ [argmax row.logits],
        grow (soloAt hm (prompt r) k).cols row.newKV, (soloAt hm (prompt r) k).position + 1⟩ := by
    rw [soloAt_succ]
    apply soloNext_of_rowOf hm
    rw [← (hat r hr).tokens, ← (hat r hr).position]
    exact hrow
  rw [(hat r hr).position] at hstored
  exact {
    tokens := by rw [hreq, hnext, GenerationRequest.nextToken_generatedIds, (hat r hr).tokens]
    position := by rw [hreq, hnext, GenerationRequest.nextToken_position, (hat r hr).position]
    stored := by
      rw [hnext]
      exact hstored }

variable (cfg) in
/-- All requests are active in every round: they have as many tokens. -/
theorem decodeRounds_atDecode [Zero Col] (hgate : cfg.gate = none) (hnd : reqs.Nodup) {nTokens : Nat} :
    ∀ (rounds k : Nat) (s : Batcher Col), k + rounds < nTokens → s.active = reqs →
    (∀ r ∈ reqs, AtDecode hm s r (prompt r) k) →
    ∃ t, decodeRounds cfg nTokens reqs rounds s = .ok t ∧
      ∀ r ∈ reqs, AtDecode hm t r (prompt r) (k + rounds) := by
  intro rounds
  induction rounds with
  | zero => exact fun k s _ _ hat => ⟨s, rfl, hat⟩
  | succ rounds ih =>
    intro k s hk hactive hat
    have hall : reqs.filter (fun rid => (s.requests rid).nGenerated < nTokens) = reqs := by
      apply List.filter_eq_self.mpr
      intro r hr
      have hlength := soloAt_length hm (prompt r) k
      rw [← (hat r hr).tokens] at hlength
      have hlt : (s.requests r).nGenerated < nTokens := by
        unfold GenerationRequest.nGenerated
        omega
      exact decide_eq_true hlt
    simp only [decodeRounds, hall]
    by_cases hne : reqs = []
    · subst hne
      exact ⟨s, rfl, by simp⟩
    · subst hactive
      obtain ⟨p, u, hu, hkeep, hnext⟩ := runDecodeStep_atDecode hm hgate hne hnd hat
      obtain ⟨t, ht, hend⟩ := ih (k + 1) u (by omega) hkeep hnext
      refine ⟨t, ?_, ?_⟩
      · rw [if_neg (by simpa using hne), hu]
        exact ht
      · intro r hr
        have hsum : k + (rounds + 1) = k + 1 + rounds := by omega
        rw [hsum]
        exact hend r hr

end Together

/-- The bridge gives each prompt as many tokens of its generation alone as the check asks
    for. -/
theorem bridgeTokens_greedy [Zero Col] {m : Model Col} (hm : m.RowLocal) (tokenizer : Tokenizer)
    (firstId : Nat) {nTokens : Nat} (hpos : 0 < nTokens) (promptIdsList : List (List Nat)) :
    bridgeTokens m tokenizer firstId nTokens promptIdsList =
      .ok (promptIdsList.map (fun promptIds => (soloAt hm promptIds (nTokens - 1)).ids)) := by
  have hnd : (List.range' firstId promptIdsList.length).Nodup := List.nodup_range'
  have hfresh : ∀ r ∈ List.range' firstId promptIdsList.length,
      ((parityStart firstId nTokens promptIdsList : Batcher Col).requests r).generatedIds = [] ∧
      ((parityStart firstId nTokens promptIdsList : Batcher Col).requests r).promptIds =
        promptIdsList.getD (r - firstId) [] := fun r _ => ⟨rfl, rfl⟩
  obtain ⟨s, hs, hactive, hat, -⟩ := prefillAll_atDecode (parityConfig m tokenizer nTokens) hm hnd hfresh
  have hrounds : 0 + (nTokens - 1) < nTokens := by omega
  obtain ⟨t, ht, hend⟩ := decodeRounds_atDecode (parityConfig m tokenizer nTokens) hm rfl hnd
    (nTokens - 1) 0 s hrounds hactive hat
  unfold bridgeTokens
  simp only [hs, ht, ok_bind, pure_eq_ok, Except.ok.injEq]
  apply List.ext_getElem
  · simp
  · intro i hi hi'
    rw [List.length_map, List.length_range'] at hi
    have htokens := (hend (firstId + i) (by simp [hi])).tokens
    have hlength := soloAt_length hm promptIdsList[i] (nTokens - 1)
    simp only [Nat.add_sub_cancel_left, List.getD_eq_getElem?_getD, List.getElem?_eq_getElem hi,
      Option.getD_some, Nat.zero_add] at htokens
    simp only [List.getElem_map, List.getElem_range', Nat.one_mul, htokens]
    apply List.take_of_length_le
    exact (hlength.trans (by omega)).le

/-! What the checks report. -/

/-- Documented behaviour of greedy `model.generate()`: token by token, up to EOS or as many
    as it is asked for. -/
def ParityCheck.GeneratesGreedily (c : ParityCheck Col) : Prop :=
  ∀ promptIds (n : Nat), 0 < n →
    c.generate promptIds n = solo (parityConfig c.model.unhooked c.tokenizer.toTokenizer n) promptIds n

/-- A report that says nothing against the bridge: `model.generate()` produced the same tokens
    and stopped at EOS, where the loop of the check went on. -/
structure ParityError.FalseAlarm (e : ParityError) (eosTokenId nTokens : Nat) : Prop where
  bridge : e.bridge.length = nTokens
  reference : e.reference <+: e.bridge
  stopped : e.reference.getLast? = some eosTokenId
  early : e.reference.length < nTokens

section Reports
variable {m : Model Col} {tokenizer : Tokenizer} {nTokens : Nat} {promptIds : List Nat} {last : Nat}

theorem parityConfig_soloEnded {ids : List Nat} :
    (parityConfig m tokenizer nTokens).soloEnded nTokens ids = true ↔
      ids.getLast? = some tokenizer.eosTokenId ∨ nTokens ≤ ids.length := by
  simp [Config.soloEnded, parityConfig]

/-- The generation alone ends with the last token asked for, or at EOS before. -/
theorem EndsAt.within {hm : (parityConfig m tokenizer nTokens).model.RowLocal} (hpos : 0 < nTokens)
    (h : EndsAt hm promptIds nTokens last) : last < nTokens ∧
      (last + 1 < nTokens → (soloAt hm promptIds last).ids.getLast? = some tokenizer.eosTokenId) := by
  refine ⟨?_, ?_⟩
  · by_contra hlt
    have hlength := soloAt_length hm promptIds (nTokens - 1)
    have hnot := h.first (nTokens - 1) (by omega)
    rw [parityConfig_soloEnded.mpr (.inr (by omega))] at hnot
    cases hnot
  · intro hearly
    have hlength := soloAt_length hm promptIds last
    apply (parityConfig_soloEnded.mp h.ended).resolve_right
    omega

theorem parityErrorOf_index {index : Nat} {prompt : String} {bridge reference : List Nat}
    {e : ParityError} (h : parityErrorOf index prompt bridge reference = some e) :
    e.index = index := by
  unfold parityErrorOf at h
  simp only at h
  split at h
  · cases h
  · obtain rfl := Option.some.inj h
    rfl

/-- A prompt is reported exactly if its generation alone stopped early, and then the tokens
    agree as far as that goes. -/
theorem parityErrorOf_greedy {hm : (parityConfig m tokenizer nTokens).model.RowLocal}
    (hpos : 0 < nTokens) (h : EndsAt hm promptIds nTokens last) (index : Nat) (prompt : String) :
    ((soloAt hm promptIds last).ids.length < nTokens →
      parityErrorOf index prompt (soloAt hm promptIds (nTokens - 1)).ids (soloAt hm promptIds last).ids =
        some ⟨index, prompt, (soloAt hm promptIds (nTokens - 1)).ids, (soloAt hm promptIds last).ids⟩) ∧
    (¬ (soloAt hm promptIds last).ids.length < nTokens →
      parityErrorOf index prompt (soloAt hm promptIds (nTokens - 1)).ids (soloAt hm promptIds last).ids =
        none) := by
  obtain ⟨hle, -⟩ := h.within hpos
  have hbridge := soloAt_length hm promptIds (nTokens - 1)
  have hlength := soloAt_length hm promptIds last
  have htake : (soloAt hm promptIds last).ids.take (soloAt hm promptIds (nTokens - 1)).ids.length =
      (soloAt hm promptIds last).ids := by
    apply List.take_of_length_le
    omega
  unfold parityErrorOf
  simp only [htake]
  refine ⟨?_, ?_⟩
  · intro hearly
    rw [if_neg]
    intro heq
    rw [heq] at hbridge
    omega
  · intro hfull
    have hlast : last = nTokens - 1 := by omega
    rw [if_pos (by rw [hlast])]

end Reports

section Check
variable [Zero Col] {c : ParityCheck Col} {nTokens : Nat}

/-- The check compares, for every prompt, what it gets alone with and without an end. -/
theorem check_eq (hm : c.model.unhooked.RowLocal) (hlooks : c.model.HooksLook)
    (hlayer : ∃ m, c.model.hooked c.probeLayer = .ok m) (hpos : 0 < nTokens)
    {reference : List Nat → List Nat} (hgen : ∀ promptIds,
      c.generate promptIds nTokens = .ok (reference promptIds)) (prompts : List String) :
    c.check nTokens prompts = .ok (prompts.zipIdx.filterMap (fun p =>
      parityErrorOf p.2 p.1 (soloAt hm (c.promptIds p.1) (nTokens - 1)).ids
        (reference (c.promptIds p.1)))) := by
  obtain ⟨hooked, hhooked⟩ := hlayer
  obtain ⟨hiddenOf, rowHidden, rfl⟩ := hlooks _ _ hhooked
  have hreferences : (prompts.map c.promptIds).mapM
      (fun ids => (c.generate ids nTokens).mapError CheckRaised.generate) =
        .ok ((prompts.map c.promptIds).map reference) := by
    apply mapM_ok
    intro ids _
    rw [hgen, mapError_ok]
  have hbridge := bridgeTokens_greedy (hm.withHidden hiddenOf rowHidden) c.tokenizer.toTokenizer
    c.firstId hpos (prompts.map c.promptIds)
  simp only [(soloAt_withHidden hm hiddenOf rowHidden _ _).1] at hbridge
  -- three lists over the same prompts are one list of triples
  have hzip : prompts.zip (((prompts.map c.promptIds).map (fun ids => (soloAt hm ids (nTokens - 1)).ids)).zip
        ((prompts.map c.promptIds).map reference)) =
      prompts.map (fun prompt => (prompt, (soloAt hm (c.promptIds prompt) (nTokens - 1)).ids,
        reference (c.promptIds prompt))) := by
    apply List.ext_getElem
    · simp
    · intro i _ _
      simp
  unfold ParityCheck.check
  simp only [hreferences, hhooked, mapError_ok, ok_bind, hbridge, hzip, pure_eq_ok, List.zipIdx_map,
    List.filterMap_map]
  rfl

/-- **What a report of the parity check means.** For a row-local model that has the configured
    layer, a hook on it that only looks and a greedy `model.generate()`, with as many
    prompts as one likes, of any lengths, decoded together: the check does not raise; it
    reports a prompt exactly if `model.generate()` stopped on it before `n_tokens` tokens;
    and each report is of the same tokens, of which the reference ends at EOS. So any other
    report shows that the bridge or the model does not keep its contract. -/
theorem check_reports (hm : c.model.unhooked.RowLocal) (hlooks : c.model.HooksLook)
    (hlayer : ∃ m, c.model.hooked c.probeLayer = .ok m) (hgen : c.GeneratesGreedily)
    (hpos : 0 < nTokens) (prompts : List String) :
    ∃ errors, c.check nTokens prompts = .ok errors ∧
      (∀ (i : Nat) (prompt : String), prompts[i]? = some prompt →
        ∃ reference, c.generate (c.promptIds prompt) nTokens = .ok reference ∧
          ((∃ e ∈ errors, e.index = i) ↔ reference.length < nTokens)) ∧
      ∀ e ∈ errors, prompts[e.index]? = some e.prompt ∧
        c.generate (c.promptIds e.prompt) nTokens = .ok e.reference ∧
        e.FalseAlarm c.tokenizer.eosTokenId nTokens := by
  have hends : ∀ promptIds, ∃ last,
      c.generate promptIds nTokens = .ok (soloAt hm promptIds last).ids ∧
      @EndsAt Col (parityConfig c.model.unhooked c.tokenizer.toTokenizer nTokens) hm
        promptIds nTokens last := by
    intro promptIds
    rw [hgen promptIds nTokens hpos]
    exact @solo_ends Col (parityConfig c.model.unhooked c.tokenizer.toTokenizer nTokens) hm
      promptIds nTokens
  choose last hreference hlast using hends
  refine ⟨_, check_eq hm hlooks hlayer hpos hreference prompts, ?_, ?_⟩
  · intro i prompt hi
    refine ⟨_, hreference (c.promptIds prompt), ?_⟩
    obtain ⟨hreported, hsilent⟩ := parityErrorOf_greedy hpos (hlast (c.promptIds prompt)) i prompt
    refine ⟨?_, ?_⟩
    · intro he
      obtain ⟨e, he, hindex⟩ := he
      obtain ⟨⟨prompt', i'⟩, hp, herror⟩ := List.mem_filterMap.mp he
      obtain rfl : i' = i := (parityErrorOf_index herror).symm.trans hindex
      obtain rfl : prompt' = prompt :=
        Option.some.inj ((List.mem_zipIdx_iff_getElem?.mp hp).symm.trans hi)
      by_contra hfull
      cases (hsilent hfull).symm.trans herror
    · intro hearly
      have hmem : (prompt, i) ∈ prompts.zipIdx := List.mem_zipIdx_iff_getElem?.mpr hi
      exact ⟨_, List.mem_filterMap.mpr ⟨(prompt, i), hmem, hreported hearly⟩, rfl⟩
  · intro e he
    obtain ⟨p, hp, herror⟩ := List.mem_filterMap.mp he
    have hi := List.mem_zipIdx_iff_getElem?.mp hp
    obtain ⟨hreported, hsilent⟩ := parityErrorOf_greedy hpos (hlast (c.promptIds p.1)) p.2 p.1
    by_cases hearly : (soloAt hm (c.promptIds p.1) (last (c.promptIds p.1))).ids.length < nTokens
    · obtain rfl := Option.some.inj ((hreported hearly).symm.trans herror)
      have hlength := soloAt_length hm (c.promptIds p.1) (nTokens - 1)
      have hlength' := soloAt_length hm (c.promptIds p.1) (last (c.promptIds p.1))
      obtain ⟨hle, hstopped⟩ := (hlast (c.promptIds p.1)).within hpos
      refine ⟨hi, hreference (c.promptIds p.1), ?_, ?_, hstopped (by omega), hearly⟩
      · show (soloAt hm (c.promptIds p.1) (nTokens - 1)).ids.length = nTokens
        omega
      · exact soloAt_prefix hm (c.promptIds p.1) (by omega)
    · cases (hsilent hearly).symm.trans herror

end Check

/-- A model that counts down to EOS, from the length that the prompt stands for. -/
def countdownCheck : ParityCheck TokenColumn where
  model := {
    unhooked := tableModel (fun token _ => token - 1)
    hooked _ := .ok ((tableModel (fun token _ => token - 1)).withHidden (fun _ => [0])
      (fun _ _ _ => [0])) }
  generate promptIds maxNewTokens :=
    solo (parityConfig (tableModel (fun token _ => token - 1)) ⟨0, fun _ => ""⟩ maxNewTokens)
      promptIds maxNewTokens
  tokenizer := {
    eosTokenId := 0
    decode := fun _ => ""
    applyChatTemplate := id
    inputIds := fun text => if text = "short" then [3] else [2, 9] }
  probeLayer := 16
  firstId := 1

theorem check_reports_countdown :
    ∃ errors, countdownCheck.check 4 ["long", "short"] = .ok errors ∧
      (∀ (i : Nat) (prompt : String), ["long", "short"][i]? = some prompt →
        ∃ reference, countdownCheck.generate (countdownCheck.promptIds prompt) 4 = .ok reference ∧
          ((∃ e ∈ errors, e.index = i) ↔ reference.length < 4)) ∧
      ∀ e ∈ errors, ["long", "short"][e.index]? = some e.prompt ∧
        countdownCheck.generate (countdownCheck.promptIds e.prompt) 4 = .ok e.reference ∧
        e.FalseAlarm countdownCheck.tokenizer.eosTokenId 4 :=
  check_reports (tableModel_rowLocal (fun token _ => token - 1))
    (fun _ _ h => ⟨_, _, (Except.ok.inj h).symm⟩) ⟨_, rfl⟩ (fun _ _ _ => rfl) (by decide) _

/-- The second prompt is reported, for the token that the loop decodes after EOS. -/
example : countdownCheck.check 4 ["long", "short"] = .ok [⟨1, "short", [2, 1, 0, 0], [2, 1, 0]⟩] := by
  decide

end PGI
