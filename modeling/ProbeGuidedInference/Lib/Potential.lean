import Mathlib.Algebra.Order.BigOperators.Group.List
import Mathlib.Algebra.Order.Ring.Nat

/- Potentials. Each party of a system has a weight, what is left to be done for it, and
   the potential is the sum over all parties. A step that gives one party something up
   and takes it from another is weighed party by party (`total_change`); a step that
   lowers some weights and raises none lowers the potential (`total_lt`). What is written
   in one book for all parties is the total of what is written for each (`total_book`). -/
namespace Potential

variable {ι : Type} {parties : List ι} {f g : ι → Nat}

def total (parties : List ι) (weight : ι → Nat) : Nat := (parties.map weight).sum

theorem total_le {b : Nat} (h : ∀ i ∈ parties, f i ≤ b) : total parties f ≤ parties.length * b := by
  have hbound := List.sum_le_card_nsmul (parties.map f) b (by simpa using h)
  rw [List.length_map] at hbound
  exact hbound

theorem le_total {i : ι} (hi : i ∈ parties) : f i ≤ total parties f :=
  List.single_le_sum (fun _ _ => Nat.zero_le _) _ (List.mem_map_of_mem hi)

/-- Where one weight changes, the potential changes by as much. -/
theorem total_change [DecidableEq ι] (hnd : parties.Nodup) {i : ι} (hi : i ∈ parties)
    (h : ∀ j ≠ i, g j = f j) : total parties g + f i = total parties f + g i := by
  have hrest : (parties.erase i).map g = (parties.erase i).map f := by
    apply List.map_congr_left
    intro j hj
    apply h
    intro heq
    subst heq
    exact hnd.not_mem_erase hj
  have hf : f i + ((parties.erase i).map f).sum = total parties f := List.sum_map_erase f hi
  have hg : g i + ((parties.erase i).map g).sum = total parties g := List.sum_map_erase g hi
  rw [hrest] at hg
  omega

theorem total_lt (hle : ∀ i ∈ parties, g i ≤ f i) {i : ι} (hi : i ∈ parties) (hlt : g i < f i) :
    total parties g < total parties f :=
  List.sum_lt_sum g f hle ⟨i, hi, hlt⟩

theorem total_add : total parties (fun i => f i + g i) = total parties f + total parties g :=
  List.sum_map_add

/-- A book whose entries each name a party. -/
theorem total_book [DecidableEq ι] {α : Type} (party : α → ι) (amount : α → Nat)
    (hnd : parties.Nodup) {book : List α} (h : ∀ e ∈ book, party e ∈ parties) :
    total parties (fun i => ((book.filter (fun e => party e = i)).map amount).sum) =
      (book.map amount).sum := by
  induction book with
  | nil => simp [total]
  | cons e book ih =>
    have hrest := ih (fun x hx => h x (List.mem_cons_of_mem e hx))
    have hchange := total_change (f := fun i => ((book.filter (fun x => party x = i)).map amount).sum)
      (g := fun i => (((e :: book).filter (fun x => party x = i)).map amount).sum) hnd
      (h e List.mem_cons_self) (fun j hj => by simp [hj.symm])
    simp only [List.filter_cons, decide_true, if_true, List.map_cons, List.sum_cons] at hchange ⊢
    omega

end Potential
