import Mathlib.Data.List.OfFn
import Mathlib.Data.List.Nodup
import Mathlib.Tactic.Choose
import ProbeGuidedInference.CacheBridge

/- The bridge is exact. A sequence is `Stored` when its entry holds, per layer, one row
   of keys and one of values, all of the length `_seq_len` names. For stored sequences
   `buildBatch` returns the padded batch (`buildBatch_ok`), whose unmasked columns are
   the stored ones (`visible_paddedBatch`), and `scatterUpdatedBatch` of that batch with
   one column appended per row stores each sequence one column longer and touches no
   other entry (`scatterUpdatedBatch_ok`). `bridge_exact` says this of every cache state
   and every batch, with the entries read as the source writes them. -/
namespace PGI
open Padding Fallible

variable {Col : Type} {L : Nat}

/-- One more column in every layer. -/
def grow (f : Fin L → List Col × List Col) (new : Fin L → Col × Col) :
    Fin L → List Col × List Col :=
  fun ℓ => ((f ℓ).1 ++ [(new ℓ).1], (f ℓ).2 ++ [(new ℓ).2])

/-- The columns a cache entry holds, per layer: the row of keys and the row of values. -/
def SeqCache.columns (kv : SeqCache Col) : List (List Col × List Col) :=
  kv.map (fun p => (p.1.headD [], p.2.headD []))

theorem columns_ofLayers (f : Fin L → List Col × List Col) :
    (ofLayers f).columns = List.ofFn f := by
  simp only [SeqCache.columns, ofLayers, List.map_ofFn]
  rfl

/-- The sequence is in both dicts, with `f` its columns and `n` of them in each layer. -/
structure Stored (c : BatchedSequenceCache Col) (seqId : Nat) (f : Fin L → List Col × List Col)
    (n : Nat) : Prop where
  cache : c.cache seqId = some (ofLayers f)
  seqLen : c.seqLens seqId = some n
  keys : ∀ ℓ, (f ℓ).1.length = n
  values : ∀ ℓ, (f ℓ).2.length = n

theorem Stored.grow {f : Fin L → List Col × List Col} {n : Nat} (new : Fin L → Col × Col)
    {c c' : BatchedSequenceCache Col} {seqId : Nat} (h : Stored c seqId f n)
    (hcache : c'.cache seqId = some (ofLayers (grow f new)))
    (hlen : c'.seqLens seqId = some (n + 1)) : Stored c' seqId (PGI.grow f new) (n + 1) where
  cache := hcache
  seqLen := hlen
  keys ℓ := by simp [PGI.grow, h.keys ℓ]
  values ℓ := by simp [PGI.grow, h.values ℓ]

/-- Only the entry of the sequence itself matters. -/
theorem Stored.congr {f : Fin L → List Col × List Col} {n : Nat}
    {c c' : BatchedSequenceCache Col} {seqId : Nat} (h : Stored c seqId f n)
    (hcache : c'.cache seqId = c.cache seqId) (hlen : c'.seqLens seqId = c.seqLens seqId) :
    Stored c' seqId f n :=
  ⟨hcache.trans h.cache, hlen.trans h.seqLen, h.keys, h.values⟩

/-! Fusing. -/

section Build
variable [Zero Col] {c : BatchedSequenceCache Col} {seqIds : List Nat}
variable {g : Nat → Fin L → List Col × List Col} {len : Nat → Nat}

/-- The batch of these sequences, padded to `maxLen`. -/
def paddedBatch (seqIds : List Nat) (g : Nat → Fin L → List Col × List Col) (len : Nat → Nat)
    (maxLen : Nat) : Batch Col where
  batchedCache := ⟨List.ofFn (fun ℓ =>
    (seqIds.map (fun sid => padLeft 0 maxLen (g sid ℓ).1),
     seqIds.map (fun sid => padLeft 0 maxLen (g sid ℓ).2)))⟩
  attentionMask := seqIds.map (fun sid => maskRow maxLen (len sid))
  positionIds := seqIds.map len
  maxLen := maxLen

theorem catSeq_zeros {n : Nat} (row : List Col) :
    catSeq (zeros n) [row] = .ok [List.replicate n 0 ++ row] := by
  simp [catSeq, zeros]

theorem padRow_ok {sid n maxLen : Nat} {f : Fin L → List Col × List Col} (h : Stored c sid f n)
    (ℓ : Fin L) :
    c.padRow maxLen ℓ (sid, n) = .ok ([padLeft 0 maxLen (f ℓ).1], [padLeft 0 maxLen (f ℓ).2]) := by
  have hkv : index (ofLayers f) ℓ.val = .ok ([(f ℓ).1], [(f ℓ).2]) := by
    rw [index_eq_ok]
    simp [ofLayers]
  have hget : lookup c.cache sid = .ok (ofLayers f) := lookup_eq_ok.mpr h.cache
  simp only [BatchedSequenceCache.padRow, hget, hkv, ok_bind, catSeq_zeros, pure_eq_ok]
  by_cases hp : maxLen - n > 0
  · simp [hp, padLeft, h.keys ℓ, h.values ℓ]
  · have hk : padLeft 0 maxLen (f ℓ).1 = (f ℓ).1 := padLeft_full 0 (by rw [h.keys ℓ]; omega)
    have hv : padLeft 0 maxLen (f ℓ).2 = (f ℓ).2 := padLeft_full 0 (by rw [h.values ℓ]; omega)
    simp [hp, hk, hv]

omit [Zero Col] in
/-- Rows of one length can be stacked. -/
theorem catBatch_rows {α : Type} {l : List α} {r : α → List Col} {n : Nat}
    (h : ∀ a ∈ l, (r a).length = n) : catBatch (l.map (fun a => [r a])) = .ok (l.map r) := by
  have hflat : (l.map (fun a => [r a])).flatten = l.map r := by
    induction l with
    | nil => rfl
    | cons a l ih =>
      have := ih (fun x hx => h x (List.mem_cons_of_mem a hx))
      simp [this]
  have hall : ∀ x ∈ l.map r, x.length = n := by
    intro x hx
    obtain ⟨a, ha, rfl⟩ := List.mem_map.mp hx
    exact h a ha
  have : (l.map r).all (fun x => x.length = ((l.map r).headD []).length) = true := by
    rw [List.all_eq_true]
    intro x hx
    cases hl : l.map r with
    | nil => rw [hl] at hx; simp at hx
    | cons y ys =>
      have hy : y.length = n := hall y (by rw [hl]; simp)
      simp [hall x hx, hy]
  simp only [catBatch, hflat, this, if_true]

theorem batchLayer_ok {maxLen : Nat} (hst : ∀ sid ∈ seqIds, Stored c sid (g sid) (len sid))
    (hmax : ∀ sid ∈ seqIds, len sid ≤ maxLen) (ℓ : Fin L) :
    c.batchLayer seqIds (seqIds.map len) maxLen ℓ =
      .ok (seqIds.map (fun sid => padLeft 0 maxLen (g sid ℓ).1),
        seqIds.map (fun sid => padLeft 0 maxLen (g sid ℓ).2)) := by
  have hzip : seqIds.zip (seqIds.map len) = seqIds.map (fun sid => (sid, len sid)) := by
    simpa using List.zip_map' (f := id) (g := len) (l := seqIds)
  have hrows : (seqIds.zip (seqIds.map len)).mapM (c.padRow maxLen ℓ) =
      .ok (seqIds.map (fun sid => ([padLeft 0 maxLen (g sid ℓ).1], [padLeft 0 maxLen (g sid ℓ).2]))) := by
    rw [hzip, mapM_ok (g := fun p => ([padLeft 0 maxLen (g p.1 ℓ).1], [padLeft 0 maxLen (g p.1 ℓ).2]))]
    · simp
    · intro p hp
      obtain ⟨sid, hsid, rfl⟩ := List.mem_map.mp hp
      exact padRow_ok (hst sid hsid) ℓ
  have hk : catBatch (seqIds.map (fun sid => [padLeft 0 maxLen (g sid ℓ).1])) =
      .ok (seqIds.map (fun sid => padLeft 0 maxLen (g sid ℓ).1)) :=
    catBatch_rows (n := maxLen) (fun sid hsid =>
      padLeft_length (by rw [(hst sid hsid).keys ℓ]; exact hmax sid hsid))
  have hv : catBatch (seqIds.map (fun sid => [padLeft 0 maxLen (g sid ℓ).2])) =
      .ok (seqIds.map (fun sid => padLeft 0 maxLen (g sid ℓ).2)) :=
    catBatch_rows (n := maxLen) (fun sid hsid =>
      padLeft_length (by rw [(hst sid hsid).values ℓ]; exact hmax sid hsid))
  simp only [BatchedSequenceCache.batchLayer, hrows, ok_bind, List.map_map, Function.comp_def, hk, hv,
    pure_eq_ok]

theorem mapM_range_ok {β : Type} {f : Nat → Except PyError β} {h : Fin L → β}
    (hf : ∀ ℓ : Fin L, f ℓ = .ok (h ℓ)) : (List.range L).mapM f = .ok (List.ofFn h) := by
  cases L with
  | zero => rfl
  | succ n =>
    have : ∀ ℓ ∈ List.range (n + 1), f ℓ = .ok (h (Fin.ofNat (n + 1) ℓ)) := by
      intro ℓ hℓ
      have hlt : ℓ < n + 1 := List.mem_range.mp hℓ
      have := hf ⟨ℓ, hlt⟩
      simpa [Fin.ofNat, Nat.mod_eq_of_lt hlt] using this
    rw [mapM_ok this]
    congr 1
    apply List.ext_getElem
    · simp
    · intro i h₁ h₂
      have hlt : i < n + 1 := by simpa using h₁
      rw [List.getElem_ofFn]
      simp [Fin.ofNat, Nat.mod_eq_of_lt hlt]

/-- **Stored sequences fuse.** For a nonempty batch of stored sequences `build_batch`
    does not raise, and returns the batch padded to a length none of them exceeds. -/
theorem buildBatch_ok (hL : 0 < L) (hne : seqIds ≠ [])
    (hst : ∀ sid ∈ seqIds, Stored c sid (g sid) (len sid)) :
    ∃ maxLen, (∀ sid ∈ seqIds, len sid ≤ maxLen) ∧
      c.buildBatch seqIds = .ok (paddedBatch seqIds g len maxLen) := by
  have hlens : seqIds.mapM c.seqLen = .ok (seqIds.map len) :=
    mapM_ok (fun sid hsid => lookup_eq_ok.mpr (hst sid hsid).seqLen)
  obtain ⟨maxLen, hmaxLen, hmax⟩ := pyMax_ok (show seqIds.map len ≠ [] by simpa using hne)
  have hmax' : ∀ sid ∈ seqIds, len sid ≤ maxLen :=
    fun sid hsid => hmax _ (List.mem_map_of_mem hsid)
  obtain ⟨sid₀, rest, hcons⟩ := List.exists_cons_of_ne_nil hne
  have hidx : index seqIds 0 = .ok sid₀ := by rw [index_eq_ok, hcons]; rfl
  have h₀ := hst sid₀ (by rw [hcons]; simp)
  have hfirst : lookup c.cache sid₀ = .ok (ofLayers (g sid₀)) := lookup_eq_ok.mpr h₀.cache
  have hsample : index (ofLayers (g sid₀)) 0 = .ok ([(g sid₀ ⟨0, hL⟩).1], [(g sid₀ ⟨0, hL⟩).2]) := by
    rw [index_eq_ok]
    simp [ofLayers, hL]
  have hlayers : (List.range (ofLayers (g sid₀)).length).mapM
      (c.batchLayer seqIds (seqIds.map len) maxLen) = .ok (List.ofFn (fun ℓ =>
        (seqIds.map (fun sid => padLeft 0 maxLen (g sid ℓ).1),
         seqIds.map (fun sid => padLeft 0 maxLen (g sid ℓ).2)))) := by
    rw [show (ofLayers (g sid₀)).length = L by simp [ofLayers]]
    exact mapM_range_ok (batchLayer_ok hst hmax')
  refine ⟨maxLen, hmax', ?_⟩
  simp only [BatchedSequenceCache.buildBatch, hlens, hmaxLen, hidx, hfirst, hsample, hlayers, ok_bind,
    pure_eq_ok, List.map_map]
  rfl

/-- The unmasked columns of a row of the padded batch are the stored columns. -/
theorem visible_paddedBatch {maxLen i sid : Nat} (hi : seqIds[i]? = some sid)
    (hst : Stored c sid (g sid) (len sid)) (hmax : len sid ≤ maxLen) :
    visible (paddedBatch seqIds g len maxLen).batchedCache.layers
      ((maskRow maxLen (len sid)).take maxLen) i = List.ofFn (g sid) := by
  have hmask : (maskRow maxLen (len sid)).take maxLen = maskFrom maxLen (maxLen - len sid) := by
    simp [maskRow, maskFrom, ← List.map_take, List.take_range]
  have hrow (r : Nat → List Col) : (seqIds.map r).getD i [] = r sid := by
    simp [List.getD_eq_getElem?_getD, hi]
  have hsel (row : List Col) (hr : row.length = len sid) :
      select (padLeft 0 maxLen row) (maskFrom maxLen (maxLen - len sid)) = row := by
    rw [← hr]
    exact select_padLeft 0 (by rw [hr]; exact hmax) (le_refl _)
  rw [hmask]
  simp only [visible, paddedBatch, List.map_ofFn]
  congr 1
  funext ℓ
  simp only [Function.comp_apply, hrow, hsel _ (hst.keys ℓ), hsel _ (hst.values ℓ)]

end Build

/-! Splitting. -/

section Scatter
variable {c : BatchedSequenceCache Col} {len : Nat → Nat}

/-- What the loop of `scatter_updated_batch` does to each of its distinct sequences,
    and that it leaves every other entry alone. -/
theorem scatterLoop_ok (len : Nat → Nat) (updated : DynamicCache Col) :
    ∀ (pairs : List (Nat × Nat)) (c : BatchedSequenceCache Col), (pairs.map Prod.fst).Nodup →
    (∀ p ∈ pairs, c.seqLens p.1 = some (len p.1)) →
    ∃ c', BatchedSequenceCache.scatterLoop updated pairs c = .ok c' ∧
      (∀ p ∈ pairs, c'.seqLens p.1 = some (len p.1 + 1) ∧
        c'.cache p.1 = some (updated.layers.map (fun kv =>
          (sliceRow kv.1 p.2 (len p.1 + 1), sliceRow kv.2 p.2 (len p.1 + 1))))) ∧
      ∀ sid ∉ pairs.map Prod.fst, c'.cache sid = c.cache sid ∧ c'.seqLens sid = c.seqLens sid := by
  intro pairs
  induction pairs with
  | nil =>
    intro c _ _
    exact ⟨c, rfl, by simp, fun _ _ => ⟨rfl, rfl⟩⟩
  | cons p rest ih =>
    intro c hnd hlen
    obtain ⟨sid, i⟩ := p
    rw [List.map_cons, List.nodup_cons] at hnd
    obtain ⟨hsid, hnd⟩ := hnd
    have hread : raising c (c.seqLen sid) = .ok (len sid) :=
      raising_eq_ok.mpr (lookup_eq_ok.mpr (hlen (sid, i) List.mem_cons_self))
    have hother : ∀ q ∈ rest, q.1 ≠ sid := by
      intro q hq heq
      exact hsid (List.mem_map.mpr ⟨q, hq, heq⟩)
    let c₁ : BatchedSequenceCache Col :=
      { cache := Function.update c.cache sid (some (updated.layers.map (fun kv =>
          (sliceRow kv.1 i (len sid + 1), sliceRow kv.2 i (len sid + 1)))))
        seqLens := Function.update c.seqLens sid (some (len sid + 1)) }
    obtain ⟨c', hc', hin, hout⟩ := ih c₁ hnd (by
      intro q hq
      simp only [c₁, Function.update_of_ne (hother q hq)]
      exact hlen q (List.mem_cons_of_mem _ hq))
    refine ⟨c', ?_, ?_, ?_⟩
    · simp only [BatchedSequenceCache.scatterLoop, layerKVs_eq, hread, ok_bind]
      exact hc'
    · intro q hq
      rcases List.mem_cons.mp hq with rfl | hq
      · obtain ⟨h₁, h₂⟩ := hout sid hsid
        rw [h₁, h₂]
        simp [c₁]
      · exact hin q hq
    · intro s hs
      rw [List.map_cons, List.mem_cons, not_or] at hs
      obtain ⟨h₁, h₂⟩ := hout s hs.2
      rw [h₁, h₂]
      simp [c₁, Function.update_of_ne hs.1]

/-- Row `i` of a padded stack whose rows each grew by one column, trimmed to its own
    length: the row as it was before padding, and its new column. -/
theorem sliceRow_padded [Zero Col] (maxLen : Nat) {i n sid : Nat} {seqIds : List Nat}
    {news : List (Fin L → Col × Col)} {new : Fin L → Col × Col} (row : Nat → List Col)
    (pick : (Fin L → Col × Col) → Col) (hi : seqIds[i]? = some sid) (hnew : news[i]? = some new)
    (hn : (row sid).length = n) :
    sliceRow (List.zipWith (fun r new => r ++ [pick new])
      (seqIds.map (fun sid => padLeft 0 maxLen (row sid))) news) i (n + 1) =
      [row sid ++ [pick new]] := by
  have hz : (List.zipWith (fun r new => r ++ [pick new])
      (seqIds.map (fun sid => padLeft 0 maxLen (row sid))) news)[i]? =
      some (padLeft 0 maxLen (row sid) ++ [pick new]) := by
    simp [List.getElem?_zipWith, hi, hnew]
  obtain ⟨hlt, hget⟩ := List.getElem?_eq_some_iff.mp hz
  rw [sliceRow, List.drop_eq_getElem_cons hlt, hget, ← hn]
  simp [takeRight_padLeft]

/-- **Splitting undoes fusing.** From the padded batch with one column appended per row
    and layer, each sequence is stored with its old columns and its own new one. -/
theorem scatterUpdatedBatch_ok [Zero Col] {seqIds : List Nat}
    {g : Nat → Fin L → List Col × List Col} (maxLen : Nat) (news : List (Fin L → Col × Col))
    (hnd : seqIds.Nodup) (hst : ∀ sid ∈ seqIds, Stored c sid (g sid) (len sid)) :
    ∃ c', c.scatterUpdatedBatch seqIds
        ((paddedBatch seqIds g len maxLen).batchedCache.appendColumns news) maxLen = .ok c' ∧
      (∀ (i sid : Nat) (new : Fin L → Col × Col), seqIds[i]? = some sid → news[i]? = some new →
        Stored c' sid (grow (g sid) new) (len sid + 1)) ∧
      ∀ sid ∉ seqIds, c'.cache sid = c.cache sid ∧ c'.seqLens sid = c.seqLens sid := by
  have hfst : seqIds.zipIdx.map Prod.fst = seqIds := List.zipIdx_map_fst 0 seqIds
  obtain ⟨c', hc', hin, hout⟩ := scatterLoop_ok len
    ((paddedBatch seqIds g len maxLen).batchedCache.appendColumns news) seqIds.zipIdx c
    (by rwa [hfst]) (by
      intro p hp
      exact (hst p.1 (List.fst_mem_of_mem_zipIdx hp)).seqLen)
  refine ⟨c', hc', ?_, ?_⟩
  · intro i sid new hi hnew
    have hp : (sid, i) ∈ seqIds.zipIdx := by
      rw [List.mem_zipIdx_iff_getElem?]
      exact hi
    obtain ⟨hlen, hcache⟩ := hin (sid, i) hp
    have hs := hst sid (List.mem_of_getElem? hi)
    refine hs.grow new ?_ hlen
    rw [hcache]
    congr 1
    simp only [DynamicCache.appendColumns, ofLayers, List.map_ofFn]
    congr 1
    funext ℓ
    have hlayer : (paddedBatch seqIds g len maxLen).batchedCache.layers.getD ℓ ([], []) =
        (seqIds.map (fun sid => padLeft 0 maxLen (g sid ℓ).1),
         seqIds.map (fun sid => padLeft 0 maxLen (g sid ℓ).2)) := by
      simp [paddedBatch, List.getD_eq_getElem?_getD]
    have hk := sliceRow_padded maxLen (fun sid => (g sid ℓ).1) (fun new => (new ℓ).1)
      hi hnew (hs.keys ℓ)
    have hv := sliceRow_padded maxLen (fun sid => (g sid ℓ).2) (fun new => (new ℓ).2)
      hi hnew (hs.values ℓ)
    simp only [Function.comp_apply, hlayer, hk, hv, grow]
  · intro sid hsid
    exact hout sid (by rwa [hfst])

end Scatter

/-! Every cache state, every batch. -/

/-- A tensor of batch size 1 with `n` columns. -/
def HasColumns (n : Nat) (t : Tensor Col) : Prop := ∃ row, t = [row] ∧ row.length = n

/-- Every stored sequence has `L` layers, and exactly `_seq_len` columns in each of
    its key and value tensors. -/
def BatchedSequenceCache.Exact (L : Nat) (c : BatchedSequenceCache Col) : Prop :=
  ∀ sid kv, c.cache sid = some kv → kv.length = L ∧
    ∃ n, c.seqLens sid = some n ∧ ∀ p ∈ kv, HasColumns n p.1 ∧ HasColumns n p.2

theorem BatchedSequenceCache.Exact.stored {c : BatchedSequenceCache Col} (hc : c.Exact L)
    {sid : Nat} {kv : SeqCache Col} (h : c.cache sid = some kv) :
    ∃ (f : Fin L → List Col × List Col) (n : Nat), kv = ofLayers f ∧ Stored c sid f n := by
  obtain ⟨hL, n, hn, hcols⟩ := hc sid kv h
  subst hL
  let f : Fin kv.length → List Col × List Col :=
    fun ℓ => ((kv.get ℓ).1.headD [], (kv.get ℓ).2.headD [])
  have hlayer (ℓ : Fin kv.length) :
      kv.get ℓ = ([(f ℓ).1], [(f ℓ).2]) ∧ (f ℓ).1.length = n ∧ (f ℓ).2.length = n := by
    obtain ⟨⟨k, hk, hkn⟩, v, hv, hvn⟩ := hcols (kv.get ℓ) (List.get_mem kv ℓ)
    have hget : kv.get ℓ = ([k], [v]) := Prod.ext hk hv
    have hf : f ℓ = (k, v) := by simp only [f, hget, List.headD_cons]
    exact ⟨by rw [hget, hf], by rw [hf]; exact hkn, by rw [hf]; exact hvn⟩
  have hkv : kv = ofLayers f := by
    calc kv = List.ofFn kv.get := (List.ofFn_get kv).symm
      _ = ofLayers f := by
        rw [ofLayers]
        congr 1
        funext ℓ
        exact (hlayer ℓ).1
  exact ⟨f, n, hkv, by rw [h, ← hkv], hn, fun ℓ => (hlayer ℓ).2.1, fun ℓ => (hlayer ℓ).2.2⟩

/-- The entry with one more column in every tensor. -/
def SeqCache.snoc (kv : SeqCache Col) (new : Fin L → Col × Col) : SeqCache Col :=
  List.zipWith (fun p col => (p.1.map (· ++ [col.1]), p.2.map (· ++ [col.2]))) kv (List.ofFn new)

theorem snoc_ofLayers (f : Fin L → List Col × List Col) (new : Fin L → Col × Col) :
    (ofLayers f).snoc new = ofLayers (grow f new) := by
  apply List.ext_getElem
  · simp [SeqCache.snoc, ofLayers]
  · intro i h₁ h₂
    simp [SeqCache.snoc, ofLayers, grow]

/-- Row `i` of the batch is the sequence: it stands at the sequence's own length, all
    its rows are as long as the mask is before the new token, the mask selects exactly
    the stored columns and the new token, and no padding. -/
structure RowExact (c : BatchedSequenceCache Col) (b : Batch Col) (i sid n : Nat)
    (kv : SeqCache Col) (mask : List Nat) : Prop where
  position : b.positionIds[i]? = some n
  maskRow : b.attentionMask[i]? = some mask
  width : ∀ p ∈ b.batchedCache.layers,
    (p.1.getD i []).length = b.maxLen ∧ (p.2.getD i []).length = b.maxLen
  columns : visible b.batchedCache.layers (mask.take b.maxLen) i = kv.columns
  newToken : mask[b.maxLen]? = some 1
  padding : ∀ j < b.maxLen - n, mask[j]? = some 0

theorem paddedBatch_rowExact [Zero Col] {c : BatchedSequenceCache Col} {seqIds : List Nat}
    {g : Nat → Fin L → List Col × List Col} {len : Nat → Nat} {maxLen i sid : Nat}
    (hi : seqIds[i]? = some sid) (hst : Stored c sid (g sid) (len sid)) (hmax : len sid ≤ maxLen) :
    RowExact c (paddedBatch seqIds g len maxLen) i sid (len sid) (ofLayers (g sid))
      (PGI.maskRow maxLen (len sid)) where
  position := by simp [paddedBatch, hi]
  maskRow := by simp [paddedBatch, hi]
  width := by
    intro p hp
    obtain ⟨ℓ, rfl⟩ := (List.mem_ofFn' _ _).mp hp
    have hrow (r : Nat → List Col) : (seqIds.map r).getD i [] = r sid := by
      simp [List.getD_eq_getElem?_getD, hi]
    simp only [hrow]
    exact ⟨padLeft_length (by rw [hst.keys ℓ]; exact hmax),
      padLeft_length (by rw [hst.values ℓ]; exact hmax)⟩
  columns := by rw [columns_ofLayers]; exact visible_paddedBatch hi hst hmax
  newToken := by
    rw [PGI.maskRow, maskFrom_getElem? (by simp [paddedBatch])]
    simp [paddedBatch]
  padding := by
    intro j hj
    have hj' : j < maxLen - len sid := hj
    rw [PGI.maskRow, maskFrom_getElem? (by omega)]
    simp only [Option.some.injEq, ite_eq_right_iff]
    omega

/-- **The bridge is exact.** Over a cache state whose entries all have `L ≥ 1` layers of
    exactly `_seq_len` columns, and for any nonempty list of distinct stored sequences:
    each row of the fused batch is its sequence and nothing else; and when the model
    returns that batch with one column appended per row and layer, splitting it gives
    each sequence its old columns and its own new one, and every other entry is kept. -/
theorem bridge_exact [Zero Col] (hL : 0 < L) {c : BatchedSequenceCache Col} (hc : c.Exact L)
    {seqIds : List Nat} (hne : seqIds ≠ []) (hnd : seqIds.Nodup)
    (hin : ∀ sid ∈ seqIds, ∃ kv, c.cache sid = some kv) :
    ∃ b, c.buildBatch seqIds = .ok b ∧
      (∀ i sid : Nat, seqIds[i]? = some sid → ∃ n kv mask, c.seqLens sid = some n ∧
        c.cache sid = some kv ∧ RowExact c b i sid n kv mask) ∧
      ∀ news : List (Fin L → Col × Col), news.length = seqIds.length →
        ∃ c', c.scatterUpdatedBatch seqIds (b.batchedCache.appendColumns news) b.maxLen = .ok c' ∧
          (∀ (i sid : Nat) (new : Fin L → Col × Col), seqIds[i]? = some sid → news[i]? = some new →
            ∃ n kv, c.seqLens sid = some n ∧ c.cache sid = some kv ∧
              c'.seqLens sid = some (n + 1) ∧ c'.cache sid = some (kv.snoc new)) ∧
          ∀ sid ∉ seqIds, c'.cache sid = c.cache sid ∧ c'.seqLens sid = c.seqLens sid := by
  have hall : ∀ sid, ∃ (f : Fin L → List Col × List Col) (n : Nat), sid ∈ seqIds → Stored c sid f n := by
    intro sid
    by_cases hsid : sid ∈ seqIds
    · obtain ⟨kv, hkv⟩ := hin sid hsid
      obtain ⟨f, n, -, hst⟩ := hc.stored hkv
      exact ⟨f, n, fun _ => hst⟩
    · exact ⟨fun _ => ([], []), 0, fun h => absurd h hsid⟩
  choose g len hst using hall
  obtain ⟨maxLen, hmax, hb⟩ := buildBatch_ok hL hne hst
  refine ⟨_, hb, ?_, ?_⟩
  · intro i sid hi
    have hmem : sid ∈ seqIds := List.mem_of_getElem? hi
    exact ⟨_, _, _, (hst sid hmem).seqLen, (hst sid hmem).cache,
      paddedBatch_rowExact hi (hst sid hmem) (hmax sid hmem)⟩
  · intro news _
    obtain ⟨c', hc', hgrow, hframe⟩ := scatterUpdatedBatch_ok maxLen news hnd hst
    refine ⟨c', hc', ?_, hframe⟩
    intro i sid new hi hnew
    have hmem : sid ∈ seqIds := List.mem_of_getElem? hi
    have hg := hgrow i sid new hi hnew
    exact ⟨_, _, (hst sid hmem).seqLen, (hst sid hmem).cache, hg.seqLen, by
      rw [snoc_ofLayers]; exact hg.cache⟩

/-- A column that says which token it is of. -/
structure TokenColumn where
  token : Nat
  deriving DecidableEq, Repr

instance : Zero TokenColumn := ⟨⟨0⟩⟩

/-- Two sequences of lengths 2 and 1, one layer. -/
def twoSequences : BatchedSequenceCache TokenColumn where
  cache sid := if sid = 7 then some [([[⟨1⟩, ⟨2⟩]], [[⟨3⟩, ⟨4⟩]])] else
    if sid = 9 then some [([[⟨5⟩]], [[⟨6⟩]])] else none
  seqLens sid := if sid = 7 then some 2 else if sid = 9 then some 1 else none

theorem twoSequences_exact : twoSequences.Exact 1 := by
  intro sid kv h
  by_cases h7 : sid = 7
  · subst h7
    have hkv : kv = [([[⟨1⟩, ⟨2⟩]], [[⟨3⟩, ⟨4⟩]])] := by simpa [twoSequences] using h.symm
    subst hkv
    exact ⟨rfl, 2, rfl, by simp [HasColumns]⟩
  · by_cases h9 : sid = 9
    · subst h9
      have hkv : kv = [([[⟨5⟩]], [[⟨6⟩]])] := by simpa [twoSequences] using h.symm
      subst hkv
      exact ⟨rfl, 1, rfl, by simp [HasColumns]⟩
    · simp [twoSequences, h7, h9] at h

/-- The bridge on these two, the shorter one first. -/
theorem bridge_exact_two :
    ∃ b, twoSequences.buildBatch [9, 7] = .ok b ∧
      (∀ i sid : Nat, [9, 7][i]? = some sid → ∃ n kv mask, twoSequences.seqLens sid = some n ∧
        twoSequences.cache sid = some kv ∧ RowExact twoSequences b i sid n kv mask) ∧
      ∀ news : List (Fin 1 → TokenColumn × TokenColumn), news.length = 2 →
        ∃ c', twoSequences.scatterUpdatedBatch [9, 7] (b.batchedCache.appendColumns news) b.maxLen = .ok c' ∧
          (∀ (i sid : Nat) (new : Fin 1 → TokenColumn × TokenColumn), [9, 7][i]? = some sid → news[i]? = some new →
            ∃ n kv, twoSequences.seqLens sid = some n ∧ twoSequences.cache sid = some kv ∧
              c'.seqLens sid = some (n + 1) ∧ c'.cache sid = some (kv.snoc new)) ∧
          ∀ sid ∉ [9, 7], c'.cache sid = twoSequences.cache sid ∧
            c'.seqLens sid = twoSequences.seqLens sid :=
  bridge_exact (by decide) twoSequences_exact (by decide) (by decide) (by
    intro sid hsid
    rcases List.mem_pair.mp hsid with rfl | rfl
    · exact ⟨_, rfl⟩
    · exact ⟨_, rfl⟩)

end PGI
