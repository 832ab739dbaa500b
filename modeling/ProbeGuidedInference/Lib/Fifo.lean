import Mathlib.Data.List.Induction
import Mathlib.Data.List.Perm.Subperm

/- Serving in order, with returns. Newcomers join the back of a queue, the head is
   served, and one that has been served may come back to the back of the queue, behind
   newcomers and other returners. `InOrder` says that among the newcomers and among the
   returners nobody is overtaken: those served for the first time, followed by the
   newcomers who wait, are the arrivals in order, and those served again, followed by
   the returners who wait, are the returns in order. -/
namespace Fifo

variable {α : Type} [DecidableEq α] {l arrived returned served waiting : List α} {x : α}

/-! First and later occurrences. -/

theorem eraseDups_snoc_new (hx : x ∉ l) : (l ++ [x]).eraseDups = l.eraseDups ++ [x] := by
  rw [List.eraseDups_append]
  simp [List.removeAll, hx, List.eraseDups_cons]

theorem eraseDups_snoc_old (hx : x ∈ l) : (l ++ [x]).eraseDups = l.eraseDups := by
  rw [List.eraseDups_append]
  simp [List.removeAll, hx]

theorem nodup_eraseDups (l : List α) : l.eraseDups.Nodup := by
  induction l using List.reverseRecOn with
  | nil => exact List.nodup_nil
  | append_singleton l x ih =>
    by_cases hx : x ∈ l
    · rw [eraseDups_snoc_old hx]
      exact ih
    · rw [eraseDups_snoc_new hx, List.nodup_append]
      refine ⟨ih, by simp, ?_⟩
      intro a ha b hb heq
      rw [List.mem_singleton.mp hb] at heq
      exact hx (heq ▸ List.mem_eraseDups.mp ha)

/-- The elements that occur a second or later time, in order. -/
def repeats (l : List α) : List α := l.diff l.eraseDups

/-- What is taken out of the front does not touch the end. -/
theorem diff_snoc {e : List α} (h : e.Subperm l) : (l ++ [x]).diff e = l.diff e ++ [x] := by
  induction e generalizing l with
  | nil => rfl
  | cons a e ih =>
    have ha : a ∈ l := h.subset List.mem_cons_self
    have he : e.Subperm (l.erase a) := by simpa using h.erase a
    rw [List.diff_cons, List.diff_cons, List.erase_append_left _ ha, ih he]

theorem eraseDups_subperm (l : List α) : l.eraseDups.Subperm l :=
  List.subperm_of_subset (nodup_eraseDups l) (fun _ hx => List.mem_eraseDups.mp hx)

theorem repeats_snoc_old (hx : x ∈ l) : repeats (l ++ [x]) = repeats l ++ [x] := by
  unfold repeats
  rw [eraseDups_snoc_old hx, diff_snoc (eraseDups_subperm l)]

theorem repeats_snoc_new (hx : x ∉ l) : repeats (l ++ [x]) = repeats l := by
  have hnot : x ∉ l.diff l.eraseDups := fun hc => hx (List.diff_subset _ _ hc)
  unfold repeats
  rw [eraseDups_snoc_new hx, List.diff_append, diff_snoc (eraseDups_subperm l), List.diff_cons,
    List.diff_nil, List.erase_append_right _ hnot]
  simp

/-! Serving in order. -/

/-- Nobody is overtaken, neither among those who come nor among those who come back. -/
structure InOrder (arrived returned served waiting : List α) : Prop where
  first : served.eraseDups ++ waiting.filter (· ∉ served) = arrived
  again : repeats served ++ waiting.filter (· ∈ served) = returned

theorem InOrder.nil : InOrder ([] : List α) [] [] [] := ⟨rfl, rfl⟩

theorem InOrder.served_arrived (h : InOrder arrived returned served waiting) (hx : x ∈ served) :
    x ∈ arrived := by
  rw [← h.first]
  exact List.mem_append_left _ (List.mem_eraseDups.mpr hx)

theorem InOrder.arrive (h : InOrder arrived returned served waiting) (hx : x ∉ arrived) :
    InOrder (arrived ++ [x]) returned served (waiting ++ [x]) := by
  have hnew : x ∉ served := fun hc => hx (h.served_arrived hc)
  refine ⟨?_, ?_⟩
  · simp [hnew, ← h.first]
  · simp [hnew, ← h.again]

theorem InOrder.giveBack (h : InOrder arrived returned served waiting) (hx : x ∈ served) :
    InOrder arrived (returned ++ [x]) served (waiting ++ [x]) := by
  refine ⟨?_, ?_⟩
  · simp [hx, ← h.first]
  · simp [hx, ← h.again]

/-- The head is served: for the first time, or again. -/
theorem InOrder.serve (h : InOrder arrived returned served (x :: waiting)) (hx : x ∉ waiting) :
    InOrder arrived returned (served ++ [x]) waiting := by
  have hnotin : waiting.filter (· ∉ served ++ [x]) = waiting.filter (· ∉ served) := by
    apply List.filter_congr
    intro y hy
    have hne : y ≠ x := fun heq => hx (heq ▸ hy)
    simp [hne]
  have hin : waiting.filter (· ∈ served ++ [x]) = waiting.filter (· ∈ served) := by
    apply List.filter_congr
    intro y hy
    have hne : y ≠ x := fun heq => hx (heq ▸ hy)
    simp [hne]
  have hfirst := h.first
  have hagain := h.again
  by_cases hold : x ∈ served
  · refine ⟨?_, ?_⟩
    · rw [eraseDups_snoc_old hold, hnotin, ← hfirst]
      simp [hold]
    · rw [repeats_snoc_old hold, hin, ← hagain]
      simp [hold]
  · refine ⟨?_, ?_⟩
    · rw [eraseDups_snoc_new hold, hnotin, ← hfirst]
      simp [hold]
    · rw [repeats_snoc_new hold, hin, ← hagain]
      simp [hold]

end Fifo
