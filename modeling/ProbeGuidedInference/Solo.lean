import Mathlib.Logic.Function.Iterate
import ProbeGuidedInference.TableModel

/- Schedule independence. `solo` generates a request alone: it prefills and then decodes in
   batches of one, without a batcher, a queue or a gate. With a model that meets
   `Model.RowLocal`, every request a batcher finishes has the tokens of its solo
   generation, or a part of them if the probe stopped it: whatever shared its batches,
   and however often it was preempted, its tokens and its stored columns are at all times
   those of the solo generation after as many tokens. -/
namespace PGI
open Fallible Padding

variable {Col : Type}

/-! Alone. -/

/-- A request that is generated alone: its tokens, its columns and its position. -/
structure SoloState (m : Model Col) where
  ids : List Nat
  cols : Fin m.nLayers → List Col × List Col
  position : Nat

def soloPrefill (m : Model Col) (promptIds : List Nat) : Except String (SoloState m) := do
  let out ← m.prefill 0 promptIds
  return { ids := [argmax out.logits], cols := out.kv, position := promptIds.length }

/-- The last token, its position, and all the columns, none of them masked. -/
def soloInput {m : Model Col} (st : SoloState m) : DecodeInput Col where
  inputIds := [st.ids.getLastD 0]
  attentionMask := [List.replicate (st.position + 1) 1]
  positionIds := [st.position]
  pastKeyValues := ⟨ofLayers st.cols⟩

def soloDecode {m : Model Col} (st : SoloState m) : Except String (SoloState m) := do
  let out ← m.decode st.ids.length (soloInput st)
  let row := out.val.get ⟨0, by rw [out.property]; exact Nat.one_pos⟩
  return { ids := st.ids ++ [argmax row.logits], cols := grow st.cols row.newKV
           position := st.position + 1 }

/-- The last token is EOS, or there are as many as the request may get. -/
def Config.soloEnded (cfg : Config Col) (maxTokens : Int) (ids : List Nat) : Bool :=
  ids.getLast? = some cfg.tokenizer.eosTokenId ∨ (ids.length : Int) ≥ min maxTokens cfg.maxTokensCap

/-- Decode until the end, for at most so many steps. -/
def soloLoop (cfg : Config Col) (maxTokens : Int) :
    Nat → SoloState cfg.model → Except String (List Nat)
  | 0, st => if cfg.soloEnded maxTokens st.ids then return st.ids else .error "steps used up"
  | steps + 1, st =>
    if cfg.soloEnded maxTokens st.ids then return st.ids
    else do soloLoop cfg maxTokens steps (← soloDecode st)

/-- The greedy generation of one request alone. -/
def solo (cfg : Config Col) (promptIds : List Nat) (maxTokens : Int) : Except String (List Nat) := do
  soloLoop cfg maxTokens (min maxTokens cfg.maxTokensCap).toNat (← soloPrefill cfg.model promptIds)

/-! With a row-local model it is an iteration. -/

section RowLocal
variable {m : Model Col} (hm : m.RowLocal)

def soloStart (promptIds : List Nat) : SoloState m where
  ids := [argmax (hm.prefillOf promptIds).logits]
  cols := (hm.prefillOf promptIds).kv
  position := promptIds.length

def soloNext (st : SoloState m) : SoloState m :=
  let (logits, newKV) := hm.rowOf (st.ids.getLastD 0) st.position (List.ofFn st.cols)
  { ids := st.ids ++ [argmax logits], cols := grow st.cols newKV, position := st.position + 1 }

/-- After `k` decodes. -/
def soloAt (promptIds : List Nat) (k : Nat) : SoloState m := (soloNext hm)^[k] (soloStart hm promptIds)

theorem soloAt_succ (promptIds : List Nat) (k : Nat) :
    soloAt hm promptIds (k + 1) = soloNext hm (soloAt hm promptIds k) :=
  Function.iterate_succ_apply' _ _ _

theorem soloAt_position (promptIds : List Nat) (k : Nat) :
    (soloAt hm promptIds k).position = promptIds.length + k := by
  induction k with
  | zero => rfl
  | succ k ih =>
    rw [soloAt_succ]
    show (soloAt hm promptIds k).position + 1 = promptIds.length + (k + 1)
    omega

theorem soloAt_length (promptIds : List Nat) (k : Nat) :
    (soloAt hm promptIds k).ids.length = k + 1 := by
  induction k with
  | zero => rfl
  | succ k ih =>
    rw [soloAt_succ]
    show ((soloAt hm promptIds k).ids ++ [_]).length = k + 1 + 1
    rw [List.length_append, ih, List.length_singleton]

/-- As many columns as the position says. -/
theorem soloAt_cols (promptIds : List Nat) (k : Nat) (ℓ : Fin m.nLayers) :
    ((soloAt hm promptIds k).cols ℓ).1.length = (soloAt hm promptIds k).position ∧
      ((soloAt hm promptIds k).cols ℓ).2.length = (soloAt hm promptIds k).position := by
  induction k with
  | zero => exact ⟨(hm.prefillOf promptIds).keys_length ℓ, (hm.prefillOf promptIds).values_length ℓ⟩
  | succ k ih =>
    rw [soloAt_succ]
    simp [soloNext, grow, ih.1, ih.2]

/-- Tokens are never taken back. -/
theorem soloAt_prefix (promptIds : List Nat) {j k : Nat} (h : j ≤ k) :
    (soloAt hm promptIds j).ids <+: (soloAt hm promptIds k).ids := by
  induction k, h using Nat.le_induction with
  | base => exact List.prefix_rfl
  | succ k _ ih =>
    rw [soloAt_succ]
    exact ih.trans (List.prefix_append _ _)

/-- With nothing masked, all the columns are visible. -/
theorem visible_soloInput {st : SoloState m}
    (hcols : ∀ ℓ, (st.cols ℓ).1.length = st.position ∧ (st.cols ℓ).2.length = st.position) :
    visible (soloInput st).pastKeyValues.layers (List.replicate (st.position + 1) 1).dropLast 0 =
      List.ofFn st.cols := by
  rw [List.replicate_succ', List.dropLast_concat]
  simp only [visible, soloInput, ofLayers, List.map_ofFn]
  congr 1
  funext ℓ
  simp [select_ones (hcols ℓ).1.le, select_ones (hcols ℓ).2.le]

theorem soloInput_wellFormed {st : SoloState m}
    (hcols : ∀ ℓ, (st.cols ℓ).1.length = st.position ∧ (st.cols ℓ).2.length = st.position) :
    (soloInput st).WellFormed m.nLayers where
  nonempty := List.cons_ne_nil _ _
  positions := rfl
  layers := by simp [soloInput, ofLayers]
  padded := by
    refine ⟨st.position, by simp [soloInput], ?_, ?_⟩
    · simp [soloInput, maskRow, maskFrom_eq]
    · intro kv hkv
      obtain ⟨ℓ, rfl⟩ := List.mem_ofFn.mp hkv
      exact ⟨⟨rfl, by simpa using (hcols ℓ).1⟩, ⟨rfl, by simpa using (hcols ℓ).2⟩⟩

theorem soloDecode_ok {st : SoloState m}
    (hcols : ∀ ℓ, (st.cols ℓ).1.length = st.position ∧ (st.cols ℓ).2.length = st.position) :
    soloDecode st = .ok (soloNext hm st) := by
  obtain ⟨out, hout, hrows⟩ := hm.decode_eq st.ids.length (soloInput st) (soloInput_wellFormed hcols)
  have hlen : 0 < out.val.length := by
    rw [out.property]
    exact Nat.one_pos
  have hmask : (List.replicate (st.position + 1) 1).getLast? = some 1 := by
    simp [List.getLast?_replicate]
  have hfirst : out.val[0]? = some (out.val.get ⟨0, hlen⟩) := List.getElem?_eq_getElem hlen
  have hrow := hrows 0 (st.ids.getLastD 0) st.position (List.replicate (st.position + 1) 1)
    (out.val.get ⟨0, hlen⟩) rfl rfl rfl hmask hfirst
  rw [visible_soloInput hcols] at hrow
  unfold soloDecode
  rw [hout, ok_bind]
  simp only [soloNext, ← hrow]
  rfl

/-- A row of any forward that is fed the last token, its position and the columns gives the
    next state. -/
theorem soloNext_of_rowOf {st : SoloState m} {row : ForwardRow Col m.nLayers}
    (hrow : RowOf m (st.ids.getLastD 0) st.position st.cols row) :
    soloNext hm st =
      ⟨st.ids ++ [argmax row.logits], grow st.cols row.newKV, st.position + 1⟩ := by
  obtain ⟨n, inp, out, hwell, hout, i, mask, hi, htoken, hposition, hmask, hone, hvis⟩ := hrow
  obtain ⟨out', hout', hrows⟩ := hm.decode_eq n inp hwell
  obtain rfl := Except.ok.inj (hout.symm.trans hout')
  have hsame := hrows i _ _ mask row htoken hposition hmask hone hi
  rw [hvis] at hsame
  simp only [soloNext, ← hsame]

theorem soloPrefill_ok (promptIds : List Nat) :
    soloPrefill m promptIds = .ok (soloAt hm promptIds 0) := by
  unfold soloPrefill
  rw [hm.prefill_eq, ok_bind]
  rfl

end RowLocal

section Ends
variable {cfg : Config Col} (hm : cfg.model.RowLocal)

/-- Decode `k` is the first after which the solo generation has ended. -/
structure EndsAt (promptIds : List Nat) (maxTokens : Int) (k : Nat) : Prop where
  ended : cfg.soloEnded maxTokens (soloAt hm promptIds k).ids = true
  first : ∀ j < k, cfg.soloEnded maxTokens (soloAt hm promptIds j).ids = false

theorem soloLoop_ends (promptIds : List Nat) (maxTokens : Int) :
    ∀ steps k : Nat, min maxTokens cfg.maxTokensCap ≤ (k + steps : Nat) + 1 →
    (∀ j < k, cfg.soloEnded maxTokens (soloAt hm promptIds j).ids = false) →
    ∃ last, soloLoop cfg maxTokens steps (soloAt hm promptIds k) = .ok (soloAt hm promptIds last).ids ∧
      EndsAt hm promptIds maxTokens last := by
  intro steps
  induction steps with
  | zero =>
    intro k hk hfirst
    have hended : cfg.soloEnded maxTokens (soloAt hm promptIds k).ids = true := by
      have := soloAt_length hm promptIds k
      simp only [Config.soloEnded, decide_eq_true_eq]
      right
      omega
    refine ⟨k, ?_, hended, hfirst⟩
    simp [soloLoop, hended]
  | succ steps ih =>
    intro k hk hfirst
    cases hended : cfg.soloEnded maxTokens (soloAt hm promptIds k).ids with
    | true => exact ⟨k, by simp [soloLoop, hended], hended, hfirst⟩
    | false =>
      have hmore : ∀ j < k + 1, cfg.soloEnded maxTokens (soloAt hm promptIds j).ids = false := by
        intro j hj
        rcases Nat.lt_succ_iff_lt_or_eq.mp hj with hj | rfl
        · exact hfirst j hj
        · exact hended
      obtain ⟨last, hlast, hends⟩ := ih (k + 1) (by omega) hmore
      refine ⟨last, ?_, hends⟩
      simp only [soloLoop, hended, Bool.false_eq_true, if_false]
      rw [soloDecode_ok hm (soloAt_cols hm promptIds k), ok_bind, ← soloAt_succ]
      exact hlast

/-- A request that is generated alone comes to an end. -/
theorem solo_ends (promptIds : List Nat) (maxTokens : Int) :
    ∃ last, solo cfg promptIds maxTokens = .ok (soloAt hm promptIds last).ids ∧
      EndsAt hm promptIds maxTokens last := by
  unfold solo
  rw [soloPrefill_ok hm, ok_bind]
  exact soloLoop_ends hm promptIds maxTokens _ 0 (by omega) (fun j hj => absurd hj (by omega))

end Ends

/-! In a batch. -/

section Life
variable {cfg : Config Col} (hm : cfg.model.RowLocal) {rid : Nat} {v v' : View Col}

/-- The request's tokens are those of its solo generation after `k` decodes, none of the
    earlier of which was its end. -/
structure Matches (v : View Col) (k : Nat) : Prop where
  tokens : v.req.generatedIds = (soloAt hm v.req.promptIds k).ids
  first : ∀ j < k, cfg.soloEnded v.req.maxTokens (soloAt hm v.req.promptIds j).ids = false

/-- A running request also has the columns, and a finished one the end, unless the probe
    stopped it. -/
structure OnSolo (v : View Col) : Prop where
  running : v.loc = .active → ∃ k, Matches hm v k ∧
    v.kv = some (ofLayers (soloAt hm v.req.promptIds k).cols)
  done : v.loc = .finished → ∃ k, Matches hm v k ∧ (v.req.terminatedByProbe = false →
    cfg.soloEnded v.req.maxTokens (soloAt hm v.req.promptIds k).ids = true)

/-- The end condition of the code is that of the solo generation. -/
theorem soloEnded_snoc (maxTokens : Int) (ids : List Nat) (nid : Nat) {r : GenerationRequest}
    (hids : r.generatedIds = ids ++ [nid]) (hmax : r.maxTokens = maxTokens) :
    cfg.soloEnded maxTokens (ids ++ [nid]) = cfg.ended nid r := by
  unfold Config.soloEnded Config.ended GenerationRequest.nGenerated
  rw [hids, hmax, List.getLast?_concat]
  simp only [Option.some.injEq]

/-- A running request has not come to its end. -/
theorem Matches.not_ended {k : Nat} (h : Matches hm v k) (hrun : Running cfg v) :
    cfg.soloEnded v.req.maxTokens (soloAt hm v.req.promptIds k).ids = false := by
  rw [← h.tokens]
  simp only [Config.soloEnded, decide_eq_false_iff_not, not_or, not_le, ge_iff_le]
  refine ⟨?_, ?_⟩
  · intro hlast
    exact hrun.noEos _ (List.mem_of_getLast? hlast) rfl
  · exact hrun.below

theorem onSolo_fresh (maxTokens : Int) (promptIds : List Nat) (stream : Bool) :
    OnSolo hm (.fresh maxTokens promptIds stream : View Col) where
  running h := by cases h
  done h := by cases h

theorem onSolo_admitted (hinv : LifeInv cfg v) (hloc : v.loc = .pending) (waiting : List Int)
    {n : Nat} {out : PrefillOut Col cfg.model.nLayers v.req.promptIds.length}
    (hout : cfg.model.prefill n v.req.promptIds = .ok out) (time : ℚ) :
    OnSolo hm (v.admitted cfg rid waiting out time) := by
  obtain ⟨-, -, hgen, -⟩ := hinv.waiting hloc
  rw [hm.prefill_eq] at hout
  obtain rfl := Except.ok.inj hout
  have hids : (v.req.firstToken cfg (argmax (hm.prefillOf v.req.promptIds).logits)).generatedIds =
      [] ++ [argmax (hm.prefillOf v.req.promptIds).logits] := by
    rw [GenerationRequest.firstToken_generatedIds, hgen]
  have hended : cfg.soloEnded v.req.maxTokens [argmax (hm.prefillOf v.req.promptIds).logits] = _ :=
    soloEnded_snoc v.req.maxTokens [] _ hids rfl
  rcases v.admitted_cases cfg rid time waiting (hm.prefillOf v.req.promptIds) with
    ⟨heq, hend⟩ | ⟨heq, -⟩
  · rw [heq]
    exact {
      running := fun h => by cases h
      done := fun _ => ⟨0, ⟨hids, fun j hj => absurd hj (Nat.not_lt_zero j)⟩, fun _ =>
        hended.trans hend⟩ }
  · rw [heq]
    exact {
      running := fun _ => ⟨0, ⟨hids, fun j hj => absurd hj (Nat.not_lt_zero j)⟩, rfl⟩
      done := fun h => by cases h }

theorem onSolo_decode (hinv : LifeInv cfg v) (hloc : v.loc = .active) (h : OnSolo hm v)
    (hdec : Decoded cfg rid v v') : OnSolo hm v' := by
  have hrun := hinv.running hloc
  obtain ⟨k, hmatch, hcols⟩ := h.running hloc
  obtain ⟨cols, token, position, row, answer, time, hkv, hlen, htoken, hrow, -⟩ := hdec
  obtain rfl : cols = (soloAt hm v.req.promptIds k).cols :=
    ofLayers_injective (Option.some.inj (hkv.symm.trans hcols))
  -- the row was fed what the solo generation feeds
  have hposition : position = (soloAt hm v.req.promptIds k).position := by
    have hlength := soloAt_length hm v.req.promptIds k
    rw [← hmatch.tokens] at hlength
    have hpos := hrun.position
    have hview : some position = some v.req.position := hlen.symm.trans hrun.len
    rw [soloAt_position, Option.some.inj hview]
    unfold GenerationRequest.nGenerated at hpos
    omega
  have hlast : token = (soloAt hm v.req.promptIds k).ids.getLastD 0 := by
    rw [← hmatch.tokens, List.getLastD_eq_getLast?, htoken]
    rfl
  rw [hlast, hposition] at hrow
  have hnext : soloAt hm v.req.promptIds (k + 1) =
      ⟨(soloAt hm v.req.promptIds k).ids ++ [argmax row.logits],
        grow (soloAt hm v.req.promptIds k).cols row.newKV,
        (soloAt hm v.req.promptIds k).position + 1⟩ := by
    rw [soloAt_succ]
    exact soloNext_of_rowOf hm hrow
  have hids : v.req.generatedIds ++ [argmax row.logits] =
      (soloAt hm v.req.promptIds (k + 1)).ids := by
    rw [hnext, hmatch.tokens]
  have hfirst : ∀ j < k + 1,
      cfg.soloEnded v.req.maxTokens (soloAt hm v.req.promptIds j).ids = false := by
    intro j hj
    rcases Nat.lt_succ_iff_lt_or_eq.mp hj with hj | rfl
    · exact hmatch.first j hj
    · exact hmatch.not_ended hm hrun
  rcases v.decode_cases cfg rid time (soloAt hm v.req.promptIds k).cols row answer with
    ⟨heq, hleaves⟩ | ⟨heq, -⟩
  · rw [heq]
    exact {
      running := fun hc => by cases hc
      done := fun _ => by
        refine ⟨k + 1, ⟨hids, hfirst⟩, ?_⟩
        intro hterm
        -- the probe did not stop it, so the token ended it
        have hended : cfg.ended (argmax row.logits)
            (v.req.nextToken cfg (argmax row.logits) answer.decision) = true := by
          have hnot : ((v.req.nextToken cfg (argmax row.logits) answer.decision).routable cfg &&
              (v.req.nextToken cfg (argmax row.logits) answer.decision).terminatedBy cfg) = false :=
            (Bool.or_eq_false_iff.mp hterm).2
          unfold GenerationRequest.leaves at hleaves
          rwa [hnot, Bool.or_false] at hleaves
        show cfg.soloEnded v.req.maxTokens (soloAt hm v.req.promptIds (k + 1)).ids = true
        rw [← hids, ← hended]
        exact soloEnded_snoc v.req.maxTokens _ _ rfl rfl }
  · rw [heq]
    exact {
      running := fun _ => by
        refine ⟨k + 1, ⟨hids, hfirst⟩, ?_⟩
        show some (ofLayers (grow (soloAt hm v.req.promptIds k).cols row.newKV)) =
          some (ofLayers (soloAt hm v.req.promptIds (k + 1)).cols)
        rw [hnext]
      done := fun hc => by cases hc }

/-- **In a batch a request goes on as it would alone.** -/
theorem onSolo_turn (hinv : LifeInv cfg v) (h : OnSolo hm v) (ht : Turn cfg rid v v') :
    OnSolo hm v' := by
  cases ht with
  | admitted waiting n out time hloc hout => exact onSolo_admitted hm hinv hloc waiting hout time
  | preempt _ _ => exact ⟨fun hc => (by cases hc), fun hc => (by cases hc)⟩
  | decode _ hloc hdec => exact onSolo_decode hm hinv hloc h hdec

theorem LifeReach.onSolo (h : LifeReach cfg rid v) : OnSolo hm v := by
  refine (h.keep (P := OnSolo hm) (onSolo_fresh hm) ?_ ?_).2
  · intro w _ hw
    exact ⟨fun hloc => (hw.running hloc).imp (fun k hk => ⟨⟨hk.1.tokens, hk.1.first⟩, hk.2⟩),
      fun hloc => (hw.done hloc).imp (fun k hk => ⟨⟨hk.1.tokens, hk.1.first⟩, hk.2⟩)⟩
  · intro w w' hinv hw ht
    exact onSolo_turn hm hinv hw ht

end Life

/-- **Schedule independence.** Whatever the strategy, the batch size, the gate and the order
    of submissions, cancellations and ticks: a request that has finished has the tokens of
    its solo generation, unless the probe stopped it, which happens under `probe_terminate`
    only; then it has a nonempty prefix of them. -/
theorem schedule_independence [Zero Col] {cfg : Config Col} (hm : cfg.model.RowLocal)
    {firstId : Nat} {events : List Event} {s : Batcher Col}
    (hrun : runEvents cfg firstId events = .ok s) {r : Nat} (hr : r ∈ s.finished) :
    ∃ full, solo cfg (s.requests r).promptIds (s.requests r).maxTokens = .ok full ∧
      ((s.requests r).terminatedByProbe = false → (s.requests r).generatedIds = full) ∧
      (s.requests r).generatedIds ≠ [] ∧ (s.requests r).generatedIds <+: full ∧
      (cfg.strategy ≠ .probeTerminate → (s.requests r).terminatedByProbe = false) := by
  have hs := runEvents_inv hrun
  have hsub := hs.mem_submitted.mpr (.inr (.inr hr))
  have hloc := hs.loc_finished hr
  have hinv := hs.lifeInv hsub
  obtain ⟨k, hmatch, hend⟩ := ((hs.life r hsub).onSolo hm).done hloc
  obtain ⟨last, hsolo, hends⟩ := solo_ends hm (s.requests r).promptIds (s.requests r).maxTokens
  have hk : k ≤ last := by
    by_contra hlt
    have hnot := hmatch.first last (by omega)
    exact absurd (hends.ended.symm.trans hnot) (by decide)
  have htokens : (s.requests r).generatedIds = _ := hmatch.tokens
  refine ⟨_, hsolo, ?_, (hinv.done hloc).2.2, ?_, ?_⟩
  · intro hterm
    have hlast : k = last := by
      by_contra hne
      have hnot := hends.first k (by omega)
      exact absurd ((hend hterm).symm.trans hnot) (by decide)
    rw [htokens, ← hlast]
    rfl
  · rw [htokens]
    exact soloAt_prefix hm (s.requests r).promptIds hk
  · intro hstrategy
    by_contra hterm
    exact hstrategy (hinv.terminated (by simpa using hterm)).2

/-- In a batch of one, request 1 is preempted for request 2 after two of its four tokens and
    starts again. -/
def startedAgain : List Event :=
  [.submit 4 [1] false, .tick, .submit 1 [2] false, .tick, .tick, .tick, .tick]

theorem schedule_independence_counting :
    ∃ s, runEvents (divergentConfig .probeDeprioritize) 1
        startedAgain = .ok s ∧
      ∃ full, solo (divergentConfig .probeDeprioritize)
          (s.requests 1).promptIds (s.requests 1).maxTokens = .ok full ∧
        ((s.requests 1).terminatedByProbe = false → (s.requests 1).generatedIds = full) ∧
        (s.requests 1).generatedIds ≠ [] ∧ (s.requests 1).generatedIds <+: full ∧
        ((divergentConfig .probeDeprioritize).strategy ≠
          .probeTerminate → (s.requests 1).terminatedByProbe = false) := by
  have hrun : (runEvents (divergentConfig .probeDeprioritize) 1
      startedAgain).toOption.map Batcher.finished = some [2, 1] := by decide
  obtain ⟨s, hs, hfin⟩ := toOption_map_eq_some.mp hrun
  have hr : 1 ∈ s.finished := by
    rw [hfin]
    decide
  exact ⟨s, hs, schedule_independence (countingConfig_rowLocal _ _ _) hs hr⟩

end PGI
