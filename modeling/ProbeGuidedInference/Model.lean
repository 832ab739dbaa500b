import Mathlib.Algebra.Order.Ring.Rat
import ProbeGuidedInference.CacheBridge

/- The third-party model, as src/model_runner.py calls it.

   A forward of the prompt (prefill) returns logits, a cache with one column per prompt
   token and, at the hooked layer, a hidden vector; a batched decode forward returns,
   for each input row, logits, one new key and value column per layer, and a hidden
   vector. The types carry the shapes: as many rows as inputs, as many layers as the
   model has, logits over a nonempty vocabulary. Either forward may raise, and its
   answer may depend on how many forwards came before. Numbers are rationals: only
   the order of logits is used. -/
namespace PGI

/-- `torch.argmax`: the index of the first maximal entry. -/
def argmax (logits : List ℚ) : Nat := logits.idxOf (logits.foldr max (logits.headD 0))

/-- What a decode forward yields for one row of the batch, for a model of `L` layers:
    `logits[i, -1, :]`, the appended cache column of each layer, and the hooked layer's
    output `[i, -1, :]`. -/
structure ForwardRow (Col : Type) (L : Nat) where
  logits : List ℚ
  logits_ne : logits ≠ []
  newKV : Fin L → Col × Col
  hidden : List ℚ

/-- What a prefill of `T` tokens yields: `logits[0, -1, :]`, keys and values of each
    layer, and the hooked layer's output at the last position. -/
structure PrefillOut (Col : Type) (L T : Nat) where
  logits : List ℚ
  logits_ne : logits ≠ []
  kv : Fin L → List Col × List Col
  keys_length : ∀ ℓ, (kv ℓ).1.length = T
  values_length : ∀ ℓ, (kv ℓ).2.length = T
  hidden : List ℚ

/-- The arguments of a decode forward. -/
structure DecodeInput (Col : Type) where
  inputIds : List Nat
  attentionMask : List (List Nat)
  positionIds : List Nat
  pastKeyValues : DynamicCache Col

/-- `batch` rows of `seqLen` columns each. -/
def HasShape (batch seqLen : Nat) (t : Tensor Col) : Prop :=
  t.length = batch ∧ ∀ row ∈ t, row.length = seqLen

/-- The input is one that `build_batch` makes for a model of `L` layers: a token, a position
    and a mask for each of at least one row, and all rows of the cache left-padded to one
    length. -/
structure DecodeInput.WellFormed (L : Nat) (inp : DecodeInput Col) : Prop where
  nonempty : inp.inputIds ≠ []
  positions : inp.positionIds.length = inp.inputIds.length
  layers : inp.pastKeyValues.layers.length = L
  padded : ∃ maxLen, (∀ position ∈ inp.positionIds, position ≤ maxLen) ∧
    inp.attentionMask = inp.positionIds.map (maskRow maxLen) ∧
    ∀ kv ∈ inp.pastKeyValues.layers,
      HasShape inp.inputIds.length maxLen kv.1 ∧ HasShape inp.inputIds.length maxLen kv.2

structure Model (Col : Type) where
  nLayers : Nat
  nLayers_pos : 0 < nLayers
  /-- The `n`-th forward, on a prompt. -/
  prefill : Nat → (promptIds : List Nat) → Except String (PrefillOut Col nLayers promptIds.length)
  /-- The `n`-th forward, on a batch. -/
  decode : Nat → (inp : DecodeInput Col) →
    Except String { rows : List (ForwardRow Col nLayers) // rows.length = inp.inputIds.length }

variable {Col : Type}

/-- `outputs.past_key_values` of a prefill. -/
def PrefillOut.pastKeyValues {L T : Nat} (out : PrefillOut Col L T) : DynamicCache Col :=
  ⟨ofLayers out.kv⟩

/-- `outputs.past_key_values` of a decode forward. -/
def DecodeInput.updatedCache {L : Nat} (inp : DecodeInput Col) (rows : List (ForwardRow Col L)) :
    DynamicCache Col :=
  inp.pastKeyValues.appendColumns (rows.map ForwardRow.newKV)

/-- Neither forward raises, on a prompt or on a batch as the bridge builds it. -/
def Model.NeverRaises (m : Model Col) : Prop :=
  (∀ n promptIds, ∃ out, m.prefill n promptIds = .ok out) ∧
    ∀ n inp, inp.WellFormed m.nLayers → ∃ out, m.decode n inp = .ok out

/-- The contract of a causal language model under greedy decoding. A prefill is a
    function of the prompt; and in a decode forward of a batch as the bridge builds it, the
    logits and new columns of a row that does not mask the new token are a function `rowOf`
    of the row's input token, its position id and its unmasked cached columns, in order. -/
structure Model.RowLocal (m : Model Col) where
  prefillOf : (promptIds : List Nat) → PrefillOut Col m.nLayers promptIds.length
  rowOf : Nat → Nat → List (List Col × List Col) → List ℚ × (Fin m.nLayers → Col × Col)
  prefill_eq : ∀ n promptIds, m.prefill n promptIds = .ok (prefillOf promptIds)
  decode_eq : ∀ n inp, inp.WellFormed m.nLayers → ∃ out, m.decode n inp = .ok out ∧
    ∀ (i token position : Nat) (mask : List Nat) (row : ForwardRow Col m.nLayers),
      inp.inputIds[i]? = some token → inp.positionIds[i]? = some position →
      inp.attentionMask[i]? = some mask → mask.getLast? = some 1 → out.val[i]? = some row →
      (row.logits, row.newKV) =
        rowOf token position (visible inp.pastKeyValues.layers mask.dropLast i)

end PGI
