import Mathlib.Algebra.Notation.Defs
import Mathlib.Data.List.OfFn
import Mathlib.Logic.Function.Basic
import ProbeGuidedInference.Errors
import ProbeGuidedInference.Lib.Padding

/- The batched KV-cache bridge (src/hf_cache_bridge.py): one cache per active sequence,
   fused into a left-padded batch for a decode step and split again after it.

   A tensor of shape (batch, n_kv_heads, seq_len, head_dim) is the list of its batch
   rows, a row the list of its columns; a column (`Col`) is the n_kv_heads × head_dim
   slab at one sequence position, which no function here looks into, and `0 : Col` is
   the slab of zeros. Both dicts of the class are total functions to `Option`. -/
namespace PGI
open Padding

abbrev Tensor (Col : Type) := List (List Col)
/-- (key, value), each of one layer. -/
abbrev LayerKV (Col : Type) := Tensor Col × Tensor Col
/-- One entry per layer. -/
abbrev SeqCache (Col : Type) := List (LayerKV Col)

/-- A HuggingFace `DynamicCache`: `cache.layers[i].keys` and `.values`. -/
structure DynamicCache (Col : Type) where
  layers : List (LayerKV Col)

variable {Col : Type}

def numLayers (cache : DynamicCache Col) : Nat := cache.layers.length

def layerKV (cache : DynamicCache Col) (layerIdx : Fin (numLayers cache)) : LayerKV Col :=
  cache.layers.get layerIdx

/-- `_layer_kv(cache, i) for i in range(_num_layers(cache))`. -/
def layerKVs (cache : DynamicCache Col) : SeqCache Col := List.ofFn (layerKV cache)

@[simp] theorem layerKVs_eq (cache : DynamicCache Col) : layerKVs cache = cache.layers :=
  List.ofFn_get cache.layers

/-- `DynamicCache(ddp_cache_data=per_layer_kv)`. -/
def buildCache (perLayerKV : List (LayerKV Col)) : DynamicCache Col := ⟨perLayerKV⟩

/-! The tensor operations the bridge calls. -/

/-- `torch.zeros((1, n_kv_heads, n, head_dim))`. -/
def zeros [Zero Col] (n : Nat) : Tensor Col := [List.replicate n 0]

/-- `torch.cat([a, b], dim=2)`: the batch sizes must agree. -/
def catSeq (a b : Tensor Col) : Except PyError (Tensor Col) :=
  if a.length = b.length then .ok (List.zipWith (· ++ ·) a b)
  else .error (.runtimeError "Sizes of tensors must match except in dimension 2")

/-- `torch.cat(ts, dim=0)`: the sequence lengths must agree. -/
def catBatch (ts : List (Tensor Col)) : Except PyError (Tensor Col) :=
  let rows := ts.flatten
  if rows.all (fun r => r.length = (rows.headD []).length) then .ok rows
  else .error (.runtimeError "Sizes of tensors must match except in dimension 0")

/-- `t[i:i + 1, :, -newLen:, :]`, for `newLen ≥ 1`. -/
def sliceRow (t : Tensor Col) (i newLen : Nat) : Tensor Col :=
  ((t.drop i).take 1).map (takeRight newLen)

/-- One row of the attention mask: zeros, then `mask[i, max_len - length:] = 1`. -/
def maskRow (maxLen length : Nat) : List Nat := maskFrom (maxLen + 1) (maxLen - length)

/-! The class. -/

/-- The two dicts of `BatchedSequenceCache`. -/
structure BatchedSequenceCache (Col : Type) where
  cache : Nat → Option (SeqCache Col)
  seqLens : Nat → Option Nat

/-- What `build_batch` returns. -/
structure Batch (Col : Type) where
  batchedCache : DynamicCache Col
  attentionMask : List (List Nat)
  positionIds : List Nat
  maxLen : Nat

namespace BatchedSequenceCache

def empty : BatchedSequenceCache Col := ⟨fun _ => none, fun _ => none⟩

def storePrefill (c : BatchedSequenceCache Col) (seqId : Nat) (pastKeyValues : DynamicCache Col)
    (seqLen : Nat) : BatchedSequenceCache Col :=
  { cache := Function.update c.cache seqId (some (layerKVs pastKeyValues))
    seqLens := Function.update c.seqLens seqId (some seqLen) }

def seqLen (c : BatchedSequenceCache Col) (seqId : Nat) : Except PyError Nat :=
  lookup c.seqLens seqId

def evict (c : BatchedSequenceCache Col) (seqId : Nat) : BatchedSequenceCache Col :=
  { cache := Function.update c.cache seqId none
    seqLens := Function.update c.seqLens seqId none }

/-- One sequence's keys and values of one layer, left-padded to the batch's length. -/
def padRow [Zero Col] (c : BatchedSequenceCache Col) (maxLen layerIdx : Nat)
    (row : Nat × Nat) : Except PyError (LayerKV Col) := do
  let (seqId, length) := row
  let (k, v) ← index (← lookup c.cache seqId) layerIdx
  let padAmount := maxLen - length
  if padAmount > 0 then
    return (← catSeq (zeros padAmount) k, ← catSeq (zeros padAmount) v)
  else
    return (k, v)

/-- The keys and values of one layer of all sequences of the batch. -/
def batchLayer [Zero Col] (c : BatchedSequenceCache Col) (seqIds lengths : List Nat)
    (maxLen layerIdx : Nat) : Except PyError (LayerKV Col) := do
  let rows ← (seqIds.zip lengths).mapM (c.padRow maxLen layerIdx)
  return (← catBatch (rows.map Prod.fst), ← catBatch (rows.map Prod.snd))

def buildBatch [Zero Col] (c : BatchedSequenceCache Col) (seqIds : List Nat) :
    Except PyError (Batch Col) := do
  let lengths ← seqIds.mapM c.seqLen
  let maxLen ← pyMax lengths
  let first ← lookup c.cache (← index seqIds 0)
  let nLayers := first.length
  -- `sample_k` is only read for its device and dtype
  let _sampleK ← index first 0
  let batchedLayers ← (List.range nLayers).mapM (c.batchLayer seqIds lengths maxLen)
  return { batchedCache := buildCache batchedLayers
           attentionMask := lengths.map (maskRow maxLen)
           positionIds := lengths
           maxLen := maxLen }

/-- The loop of `scatter_updated_batch`, over the pairs (seq_id, row). -/
def scatterLoop (updated : DynamicCache Col) :
    List (Nat × Nat) → BatchedSequenceCache Col →
    Except (PyError × BatchedSequenceCache Col) (BatchedSequenceCache Col)
  | [], c => .ok c
  | (seqId, i) :: rest, c => do
    let newLen := (← raising c (c.seqLen seqId)) + 1
    let perLayer := (layerKVs updated).map (fun kv => (sliceRow kv.1 i newLen, sliceRow kv.2 i newLen))
    scatterLoop updated rest
      { cache := Function.update c.cache seqId (some perLayer)
        seqLens := Function.update c.seqLens seqId (some newLen) }

def scatterUpdatedBatch (c : BatchedSequenceCache Col) (seqIds : List Nat)
    (updatedPastKeyValues : DynamicCache Col) (_maxLen : Nat) :
    Except (PyError × BatchedSequenceCache Col) (BatchedSequenceCache Col) :=
  scatterLoop updatedPastKeyValues seqIds.zipIdx c

end BatchedSequenceCache

/-! What the model does to the cache it is given, and what it sees of it. -/

/-- The columns of batch row `i` that `mask` selects, per layer. -/
def visible (layers : List (LayerKV Col)) (mask : List Nat) (i : Nat) :
    List (List Col × List Col) :=
  layers.map (fun p => (select (p.1.getD i []) mask, select (p.2.getD i []) mask))

/-- The entry whose layer `ℓ` holds the keys `(f ℓ).1` and the values `(f ℓ).2`. -/
def ofLayers {L : Nat} (f : Fin L → List Col × List Col) : SeqCache Col :=
  List.ofFn (fun ℓ => ([(f ℓ).1], [(f ℓ).2]))

/-- One column appended per row and layer: row `i`, layer `ℓ` gets `news[i] ℓ`, as
    `DynamicCache.update` does for each of the model's `L` layers. -/
def DynamicCache.appendColumns {L : Nat} (past : DynamicCache Col)
    (news : List (Fin L → Col × Col)) : DynamicCache Col :=
  ⟨List.ofFn (fun ℓ : Fin L =>
    let kv := past.layers.getD ℓ ([], [])
    (List.zipWith (fun row new => row ++ [(new ℓ).1]) kv.1 news,
     List.zipWith (fun row new => row ++ [(new ℓ).2]) kv.2 news))⟩

end PGI
