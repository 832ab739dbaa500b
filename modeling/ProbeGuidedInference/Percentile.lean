import Mathlib.Data.Rat.Floor
import Mathlib.Tactic.Linarith
import ProbeGuidedInference.Report
import ProbeGuidedInference.Lib.Interpolation

/- `percentile` as an order statistic. On a nonempty list and a fraction between 0 and 1
   it is the linear interpolation of the sorted values (`percentile_eq`), the sequence
   being continued by its last value: the clamped neighbour. What the report relies on
   follows from that: it is monotone in the fraction, between the extreme values, blind
   to the order of the list, and the median at one half. -/
namespace PGI
open Fallible Interpolation

variable {values : List ℚ} {p q : ℚ}

theorem sorted_perm {values' : List ℚ} (h : values'.Perm values) : sorted values' = sorted values := by
  have hperm : (sorted values').Perm (sorted values) :=
    (List.perm_insertionSort (· ≤ ·) values').trans
      (h.trans (List.perm_insertionSort (· ≤ ·) values).symm)
  exact hperm.eq_of_sortedLE List.sortedLE_insertionSort List.sortedLE_insertionSort

@[simp] theorem length_sorted (values : List ℚ) : (sorted values).length = values.length :=
  List.length_insertionSort ..

/-- The sorted values, continued by the last one. -/
def orderStat (values : List ℚ) (i : ℕ) : ℚ := (sorted values).getD (min i (values.length - 1)) 0

theorem orderStat_getElem {i : ℕ} (hi : min i (values.length - 1) < (sorted values).length) :
    orderStat values i = (sorted values)[min i (values.length - 1)] := by
  rw [orderStat, List.getD_eq_getElem?_getD, List.getElem?_eq_getElem hi, Option.getD_some]

theorem orderStat_eq {i : ℕ} (hi : i < values.length) :
    (sorted values)[i]? = some (orderStat values i) := by
  have hmin : min i (values.length - 1) = i := by omega
  have hlt : i < (sorted values).length := by rwa [length_sorted]
  rw [orderStat_getElem (by rwa [hmin]), List.getElem?_eq_getElem hlt]
  simp only [hmin]

theorem orderStat_mono (h : values ≠ []) : Monotone (orderStat values) := by
  have hpos : 0 < values.length := List.length_pos_iff.mpr h
  intro i j hij
  have hbound : ∀ n, min n (values.length - 1) < (sorted values).length := by
    intro n
    rw [length_sorted]
    omega
  have hsorted : (sorted values).SortedLE := List.sortedLE_insertionSort
  rw [orderStat_getElem (hbound i), orderStat_getElem (hbound j)]
  exact hsorted.getElem_le_getElem_of_le (by omega)

/-- Every value is one of the sorted ones. -/
theorem mem_iff_orderStat {v : ℚ} :
    v ∈ values ↔ ∃ i, i < values.length ∧ orderStat values i = v := by
  rw [← List.mem_insertionSort (r := (· ≤ ·))]
  refine ⟨?_, ?_⟩
  · intro hv
    obtain ⟨i, hi, hget⟩ := List.getElem_of_mem hv
    have hlt : i < values.length := by rwa [List.length_insertionSort] at hi
    refine ⟨i, hlt, ?_⟩
    have hsome := (orderStat_eq hlt).symm.trans (List.getElem?_eq_getElem hi)
    exact (Option.some.inj hsome).trans hget
  · intro h
    obtain ⟨i, hi, rfl⟩ := h
    exact List.mem_of_getElem? (orderStat_eq hi)

/-- The least value is the first of the sorted ones, the greatest the last. -/
theorem min?_eq_orderStat (h : values ≠ []) : values.min? = some (orderStat values 0) := by
  rw [List.min?_eq_some_iff]
  refine ⟨mem_iff_orderStat.mpr ⟨0, List.length_pos_iff.mpr h, rfl⟩, ?_⟩
  intro v hv
  obtain ⟨i, -, rfl⟩ := mem_iff_orderStat.mp hv
  exact orderStat_mono h (Nat.zero_le i)

theorem max?_eq_orderStat (h : values ≠ []) :
    values.max? = some (orderStat values (values.length - 1)) := by
  have hpos : 0 < values.length := List.length_pos_iff.mpr h
  rw [List.max?_eq_some_iff]
  refine ⟨mem_iff_orderStat.mpr ⟨values.length - 1, by omega, rfl⟩, ?_⟩
  intro v hv
  obtain ⟨i, hi, rfl⟩ := mem_iff_orderStat.mp hv
  exact orderStat_mono h (by omega)

/-! `percentile`. -/

theorem truncate_eq {k : ℚ} (h : 0 ≤ k) : truncate k = (⌊k⌋₊ : Int) := by
  rw [truncate, if_pos h, Int.natCast_floor_eq_floor h]

theorem itemAt_natCast {α : Type} (xs : List α) (i : ℕ) : itemAt xs (i : Int) = index xs i := by
  rw [itemAt, if_pos (Int.natCast_nonneg i), Int.toNat_natCast]

theorem itemAt_sorted {i : ℕ} (hi : i < values.length) :
    itemAt (sorted values) (i : Int) = .ok (orderStat values i) := by
  rw [itemAt_natCast]
  exact index_eq_ok.mpr (orderStat_eq hi)

/-- No index is out of range, and the answer is the interpolated order statistic. -/
theorem percentile_eq (h : values ≠ []) (hp₀ : 0 ≤ p) (hp₁ : p ≤ 1) :
    percentile values p =
      .ok (some (interpolate (orderStat values) (((values.length : ℚ) - 1) * p))) := by
  have hpos : 0 < values.length := List.length_pos_iff.mpr h
  have hlen : (0 : ℚ) ≤ (values.length : ℚ) - 1 := by
    have hone : (1 : ℚ) ≤ (values.length : ℚ) := by exact_mod_cast hpos
    linarith
  have hk₀ : 0 ≤ ((values.length : ℚ) - 1) * p := mul_nonneg hlen hp₀
  have hk₁ : ((values.length : ℚ) - 1) * p ≤ ((values.length - 1 : ℕ) : ℚ) := by
    rw [Nat.cast_sub hpos, Nat.cast_one]
    exact mul_le_of_le_one_right hlen hp₁
  have hempty : values.isEmpty = false := by simpa using h
  simp only [percentile, hempty, length_sorted, truncate_eq hk₀]
  generalize hk : ((values.length : ℚ) - 1) * p = k at *
  have hf : ⌊k⌋₊ ≤ values.length - 1 := Nat.floor_le_of_le hk₁
  have hfirst : itemAt (sorted values) (⌊k⌋₊ : Int) = .ok (orderStat values ⌊k⌋₊) :=
    itemAt_sorted (by omega)
  rcases hf.eq_or_lt with heq | hlt
  · -- the last index: the neighbour is clamped to it
    have hclamp : (⌊k⌋₊ : Int) = min ((⌊k⌋₊ : Int) + 1) ((values.length : Int) - 1) := by omega
    have hnext : orderStat values (⌊k⌋₊ + 1) = orderStat values ⌊k⌋₊ := by
      unfold orderStat
      congr 1
      omega
    rw [if_neg (by decide), if_pos hclamp, hfirst, ok_bind, interpolate, hnext, sub_self, zero_mul,
      add_zero]
    rfl
  · have hnext : min ((⌊k⌋₊ : Int) + 1) ((values.length : Int) - 1) = ((⌊k⌋₊ + 1 : ℕ) : Int) := by
      omega
    have hne : ¬ (⌊k⌋₊ : Int) = min ((⌊k⌋₊ : Int) + 1) ((values.length : Int) - 1) := by omega
    rw [if_neg (by decide), if_neg hne, hnext, hfirst, itemAt_sorted (i := ⌊k⌋₊ + 1) (by omega)]
    rfl

/-- The value at one half is the median, for lists of odd and of even length. -/
theorem interpolate_half (h : values ≠ []) :
    Statistics.median values =
      .ok (interpolate (orderStat values) (((values.length : ℚ) - 1) * (1 / 2))) := by
  have hpos : 0 < values.length := List.length_pos_iff.mpr h
  have hne : ¬ values.length = 0 := by omega
  unfold Statistics.median
  simp only [length_sorted, hne, if_false]
  rcases Nat.even_or_odd' values.length with ⟨m, hm | hm⟩
  · -- `2 m` values: half way between the indices `m - 1` and `m`
    obtain ⟨n, rfl⟩ : ∃ n, m = n + 1 := ⟨m - 1, by omega⟩
    have hx : ((values.length : ℚ) - 1) * (1 / 2) = (n : ℚ) + 1 / 2 := by
      rw [hm]
      push_cast
      ring
    have hmod : ¬ values.length % 2 = 1 := by omega
    have hdiv : values.length / 2 = n + 1 := by omega
    have hlower : index (sorted values) n = .ok (orderStat values n) :=
      index_eq_ok.mpr (orderStat_eq (by omega))
    have hupper : index (sorted values) (n + 1) = .ok (orderStat values (n + 1)) :=
      index_eq_ok.mpr (orderStat_eq (by omega))
    rw [if_neg hmod, hdiv, Nat.add_sub_cancel, hlower, ok_bind, hupper, ok_bind, hx,
      interpolate_add n (by norm_num) (by norm_num)]
    exact congrArg Except.ok (by ring)
  · -- `2 m + 1` values: the index `m`
    have hx : ((values.length : ℚ) - 1) * (1 / 2) = (m : ℚ) := by
      rw [hm]
      push_cast
      ring
    have hmod : values.length % 2 = 1 := by omega
    have hdiv : values.length / 2 = m := by omega
    rw [if_pos hmod, hdiv, hx, interpolate_natCast]
    exact index_eq_ok.mpr (orderStat_eq (by omega))

/-- **`percentile` is a percentile.** On every nonempty list no index is out of range; the
    answer is the same for every order of the list, monotone in the fraction, between the
    least and the greatest value, and at one half `statistics.median`. -/
theorem percentile_spec (h : values ≠ []) (hp : 0 ≤ p) (hpq : p ≤ q) (hq : q ≤ 1) :
    ∃ least atP atQ greatest mid,
      values.min? = some least ∧ values.max? = some greatest ∧ Statistics.median values = .ok mid ∧
      (∀ values', values'.Perm values →
        percentile values' p = .ok (some atP) ∧ percentile values' q = .ok (some atQ) ∧
        percentile values' (1 / 2) = .ok (some mid)) ∧
      least ≤ atP ∧ atP ≤ atQ ∧ atQ ≤ greatest := by
  have hpos : 0 < values.length := List.length_pos_iff.mpr h
  have hlen : (0 : ℚ) ≤ (values.length : ℚ) - 1 := by
    have hone : (1 : ℚ) ≤ (values.length : ℚ) := by exact_mod_cast hpos
    linarith
  have hmono := orderStat_mono h
  have hsame : ∀ values', values'.Perm values → ∀ r, 0 ≤ r → r ≤ 1 → percentile values' r =
      .ok (some (interpolate (orderStat values) (((values.length : ℚ) - 1) * r))) := by
    intro values' hperm r hr₀ hr₁
    have hne : values' ≠ [] := fun hnil => h (List.nil_perm.mp (hnil ▸ hperm))
    have hstat : orderStat values' = orderStat values := by
      funext i
      rw [orderStat, orderStat, sorted_perm hperm, hperm.length_eq]
    rw [percentile_eq hne hr₀ hr₁, hstat, hperm.length_eq]
  refine ⟨_, interpolate (orderStat values) (((values.length : ℚ) - 1) * p),
    interpolate (orderStat values) (((values.length : ℚ) - 1) * q), _, _,
    min?_eq_orderStat h, max?_eq_orderStat h, interpolate_half h, ?_, ?_, ?_, ?_⟩
  · intro values' hperm
    exact ⟨hsame values' hperm p hp (hpq.trans hq), hsame values' hperm q (hp.trans hpq) hq,
      hsame values' hperm (1 / 2) (by norm_num) (by norm_num)⟩
  · calc orderStat values 0 = interpolate (orderStat values) ((0 : ℕ) : ℚ) :=
          (interpolate_natCast 0).symm
      _ ≤ interpolate (orderStat values) (((values.length : ℚ) - 1) * p) :=
          interpolate_mono hmono (by simp) (by simpa using mul_nonneg hlen hp)
  · exact interpolate_mono hmono (mul_nonneg hlen hp) (mul_le_mul_of_nonneg_left hpq hlen)
  · have hlast : ((values.length : ℚ) - 1) * q ≤ ((values.length - 1 : ℕ) : ℚ) := by
      rw [Nat.cast_sub hpos, Nat.cast_one]
      exact mul_le_of_le_one_right hlen hq
    calc interpolate (orderStat values) (((values.length : ℚ) - 1) * q)
        ≤ interpolate (orderStat values) ((values.length - 1 : ℕ) : ℚ) :=
          interpolate_mono hmono (mul_nonneg hlen (hp.trans hpq)) hlast
      _ = orderStat values (values.length - 1) := interpolate_natCast _

theorem percentile_spec_four :
    ∃ least atP atQ greatest mid,
      [3, 1, 4, 1].min? = some least ∧ [3, 1, 4, 1].max? = some greatest ∧
      Statistics.median [3, 1, 4, 1] = .ok mid ∧
      (∀ values', values'.Perm [3, 1, 4, 1] →
        percentile values' (1 / 4) = .ok (some atP) ∧ percentile values' (19 / 20) = .ok (some atQ) ∧
        percentile values' (1 / 2) = .ok (some mid)) ∧
      least ≤ atP ∧ atP ≤ atQ ∧ atQ ≤ greatest :=
  percentile_spec (by simp) (by norm_num) (by norm_num) (by norm_num)

end PGI
