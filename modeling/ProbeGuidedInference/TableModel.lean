import ProbeGuidedInference.Progress

/- Models that look the next token up from the last token and its position. They never
   raise and meet `Model.RowLocal`, so what is proved for all such models is not empty;
   a batcher over one of them, with a gate that always gives the same answer, is the
   machine on which concrete runs are evaluated. -/
namespace PGI

/-- Logits whose only maximum is at `token`. -/
def oneHot (token : Nat) : List ℚ := List.replicate token 0 ++ [1]

theorem oneHot_ne (token : Nat) : oneHot token ≠ [] := by simp [oneHot]

def tableRow (next : Nat → Nat → Nat) (token position : Nat) : ForwardRow TokenColumn 1 where
  logits := oneHot (next token position)
  logits_ne := oneHot_ne _
  newKV _ := (⟨token⟩, ⟨token⟩)
  hidden := [(token : ℚ), (position : ℚ)]

def tableRows (next : Nat → Nat → Nat) (inp : DecodeInput TokenColumn) : List (ForwardRow TokenColumn 1) :=
  inp.inputIds.zipIdx.map (fun p => tableRow next p.1 (inp.positionIds.getD p.2 0))

theorem tableRows_getElem? {next : Nat → Nat → Nat} {inp : DecodeInput TokenColumn} {i token position : Nat}
    (htoken : inp.inputIds[i]? = some token) (hposition : inp.positionIds[i]? = some position) :
    (tableRows next inp)[i]? = some (tableRow next token position) := by
  simp [tableRows, List.getElem?_zipIdx, htoken, hposition, List.getD_eq_getElem?_getD]

/-- One layer, whose columns are the tokens; the hidden vector of a row names its input
    token and its position. -/
def tableModel (next : Nat → Nat → Nat) : Model TokenColumn where
  nLayers := 1
  nLayers_pos := by decide
  prefill _ promptIds := .ok {
    logits := oneHot (next (promptIds.getLastD 0) (promptIds.length - 1))
    logits_ne := oneHot_ne _
    kv := fun _ => (promptIds.map TokenColumn.mk, promptIds.map TokenColumn.mk)
    keys_length := fun _ => List.length_map _
    values_length := fun _ => List.length_map _
    hidden := [(promptIds.getLastD 0 : ℚ), ((promptIds.length - 1 : Nat) : ℚ)] }
  decode _ inp := .ok ⟨tableRows next inp, by simp [tableRows]⟩

theorem tableModel_neverRaises (next : Nat → Nat → Nat) : (tableModel next).NeverRaises :=
  ⟨fun _ _ => ⟨_, rfl⟩, fun _ _ _ => ⟨_, rfl⟩⟩

/-- A row is a function of its own token and position. -/
def tableModel_rowLocal (next : Nat → Nat → Nat) : (tableModel next).RowLocal where
  prefillOf promptIds := {
    logits := oneHot (next (promptIds.getLastD 0) (promptIds.length - 1))
    logits_ne := oneHot_ne _
    kv := fun _ => (promptIds.map TokenColumn.mk, promptIds.map TokenColumn.mk)
    keys_length := fun _ => List.length_map _
    values_length := fun _ => List.length_map _
    hidden := [(promptIds.getLastD 0 : ℚ), ((promptIds.length - 1 : Nat) : ℚ)] }
  rowOf token position _ := ((tableRow next token position).logits, (tableRow next token position).newKV)
  prefill_eq _ _ := rfl
  decode_eq _ inp _ := by
    refine ⟨_, rfl, ?_⟩
    intro i token position mask row htoken hposition _ _ hrow
    have hrow' := (tableRows_getElem? htoken hposition).symm.trans hrow
    obtain rfl := Option.some.inj hrow'
    rfl

/-- A gate that gives the same answer to every call. -/
def constantGate (checkpointPosition : Int) (label : Label) (confidence : ℚ) :
    ClassificationGate where
  checkpointPosition := checkpointPosition
  classify _ _ := .ok ⟨label, confidence, checkpointPosition⟩

/-- A batcher that counts: each token is the last one plus one. -/
def countingConfig (strategy : RoutingStrategy) (maxBatchSize : Nat) (gate : ClassificationGate) :
    Config TokenColumn where
  model := tableModel (fun token _ => token + 1)
  tokenizer := { eosTokenId := 0, decode := fun ids => String.ofList (ids.map Char.ofNat) }
  strategy := strategy
  gate := some gate
  maxBatchSize := maxBatchSize
  maxTokensCap := 100
  terminateConfidenceThreshold := 0
  time n := n
  setOrder ids := ids.dedup
  setOrder_perm _ := .refl _
  gateRequired _ := rfl

theorem countingConfig_serves (strategy : RoutingStrategy) (maxBatchSize : Nat) (checkpoint : Int)
    (label : Label) (confidence : ℚ) :
    (countingConfig strategy maxBatchSize (constantGate checkpoint label confidence)).Serves where
  model := tableModel_neverRaises _
  gate _ _ _ _ row _ g hg k := by
    obtain rfl := Option.some.inj hg
    exact ⟨_, rfl⟩

def countingConfig_rowLocal (strategy : RoutingStrategy) (maxBatchSize : Nat)
    (gate : ClassificationGate) : (countingConfig strategy maxBatchSize gate).model.RowLocal :=
  tableModel_rowLocal (fun token _ => token + 1)

/-- A batch of one, whose gate finds every request divergent at its second token. -/
abbrev divergentConfig (strategy : RoutingStrategy) : Config TokenColumn :=
  countingConfig strategy 1 (constantGate 2 .divergent 1)

theorem divergentConfig_serves (strategy : RoutingStrategy) : (divergentConfig strategy).Serves :=
  countingConfig_serves strategy 1 2 .divergent 1

end PGI
