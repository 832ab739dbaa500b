import Mathlib.Data.List.Perm.Subperm
import Mathlib.Tactic.Ring
import ProbeGuidedInference.Lib.Potential

/- Scheduling in rounds. Each job needs a number of servings, and a round serves some of
   the jobs, once each and no more than `width` of them. No schedule has fewer rounds than
   its longest job needs (`Schedule.longest`), nor fewer than all servings fit into
   (`Schedule.volume`). Rounds that were full, but for as many as one job has been served
   in, are therefore few compared with any schedule at all (`list_scheduling`). -/
namespace Rounds
open Potential

variable {ι : Type} [DecidableEq ι] {jobs : List ι} {need : ι → Nat} {width : Nat}
  {rounds : List (List ι)}

/-- Rounds of at most `width` jobs each that give every job what it needs. -/
structure Schedule (jobs : List ι) (need : ι → Nat) (width : Nat) where
  rounds : List (List ι)
  once : ∀ round ∈ rounds, round.Nodup
  narrow : ∀ round ∈ rounds, round.length ≤ width
  served : ∀ i ∈ jobs, need i ≤ rounds.countP (fun round => i ∈ round)

omit [DecidableEq ι] in
theorem total_mono {f g : ι → Nat} (h : ∀ i ∈ jobs, f i ≤ g i) : total jobs f ≤ total jobs g :=
  List.sum_le_sum h

/-- One round serves no more jobs than it has places. -/
theorem total_round (hnd : jobs.Nodup) (round : List ι) :
    total jobs (fun i => if i ∈ round then 1 else 0) ≤ round.length := by
  have hfilter : ∀ jobs : List ι, total jobs (fun i => if i ∈ round then 1 else 0) =
      (jobs.filter (fun i => i ∈ round)).length := by
    intro jobs
    induction jobs with
    | nil => rfl
    | cons i jobs ih =>
      unfold total at ih ⊢
      by_cases hi : i ∈ round
      · simp only [List.map_cons, List.sum_cons, List.filter_cons, hi, if_true, decide_true, ih,
          List.length_cons]
        omega
      · simp only [List.map_cons, List.sum_cons, List.filter_cons, hi, if_false, decide_false, ih]
        simp
  rw [hfilter]
  have hsub : jobs.filter (fun i => i ∈ round) ⊆ round := by
    intro i hi
    exact of_decide_eq_true (List.mem_filter.mp hi).2
  exact (List.subperm_of_subset (hnd.filter _) hsub).length_le

/-- All servings of some rounds, counted job by job and round by round. -/
theorem total_served (hnd : jobs.Nodup) (rounds : List (List ι)) :
    total jobs (fun i => rounds.countP (fun round => i ∈ round)) ≤ (rounds.map List.length).sum := by
  induction rounds with
  | nil => simp [total]
  | cons round rounds ih =>
    have hcons : (fun i => (round :: rounds).countP (fun round => i ∈ round)) =
        fun i => rounds.countP (fun round => i ∈ round) + if i ∈ round then 1 else 0 := by
      funext i
      rw [List.countP_cons]
      simp
    have hround := total_round hnd round
    rw [hcons, total_add, List.map_cons, List.sum_cons]
    omega

namespace Schedule
variable (σ : Schedule jobs need width)

/-- A job is served once a round. -/
theorem longest {i : ι} (hi : i ∈ jobs) : need i ≤ σ.rounds.length :=
  (σ.served i hi).trans List.countP_le_length

/-- A round has `width` places. -/
theorem volume (hnd : jobs.Nodup) : total jobs need ≤ width * σ.rounds.length := by
  have hplaces : (σ.rounds.map List.length).sum ≤ (σ.rounds.map List.length).length * width := by
    apply List.sum_le_card_nsmul
    intro n hn
    obtain ⟨round, hround, rfl⟩ := List.mem_map.mp hn
    exact σ.narrow round hround
  calc total jobs need
      ≤ total jobs (fun i => σ.rounds.countP (fun round => i ∈ round)) := total_mono σ.served
    _ ≤ (σ.rounds.map List.length).sum := total_served hnd σ.rounds
    _ ≤ width * σ.rounds.length := by rwa [List.length_map, Nat.mul_comm] at hplaces

end Schedule

/-- The rounds with a free place. -/
def short (width : Nat) (rounds : List (List ι)) : Nat :=
  rounds.countP (fun round => round.length < width)

omit [DecidableEq ι] in
/-- A round serves `width` jobs, or one at least and has a free place. -/
theorem load_le (hne : ∀ round ∈ rounds, round ≠ []) :
    width * rounds.length ≤ (rounds.map List.length).sum + (width - 1) * short width rounds := by
  induction rounds with
  | nil => simp
  | cons round rounds ih =>
    have hrest := ih (fun r hr => hne r (List.mem_cons_of_mem round hr))
    have hpos : 0 < round.length := List.length_pos_iff.mpr (hne round List.mem_cons_self)
    unfold short at hrest ⊢
    rw [List.length_cons, List.map_cons, List.sum_cons, List.countP_cons, Nat.mul_succ, Nat.mul_add]
    by_cases hshort : round.length < width
    · simp only [hshort, decide_true, if_true]
      omega
    · simp only [hshort, decide_false]
      omega

/-- **The list scheduling bound.** Let rounds be so many that they have served, but for
    `extra` servings, no more than the jobs need, and have been short, but for `slack` of
    them, no oftener than some job needs servings. Then any schedule for these jobs takes
    more than half as many, but for what `extra` and `slack` cost. -/
theorem list_scheduling (σ : Schedule jobs need width) (hnd : jobs.Nodup)
    (hne : ∀ round ∈ rounds, round ≠ []) {extra slack tail : Nat}
    (hwork : (rounds.map List.length).sum ≤ total jobs need + extra)
    (hshort : short width rounds ≤ slack + tail) (htail : tail = 0 ∨ ∃ i ∈ jobs, tail ≤ need i) :
    width * rounds.length ≤ (2 * width - 1) * σ.rounds.length + (extra + (width - 1) * slack) := by
  have htail' : tail ≤ σ.rounds.length := by
    rcases htail with hzero | ⟨i, hi, hle⟩
    · omega
    · exact hle.trans (σ.longest hi)
  have hboth : width + (width - 1) = 2 * width - 1 := by omega
  calc width * rounds.length
      ≤ (rounds.map List.length).sum + (width - 1) * short width rounds := load_le hne
    _ ≤ (total jobs need + extra) + (width - 1) * (slack + σ.rounds.length) :=
      Nat.add_le_add hwork (Nat.mul_le_mul_left _ (hshort.trans (Nat.add_le_add_left htail' slack)))
    _ ≤ (width * σ.rounds.length + extra) + (width - 1) * (slack + σ.rounds.length) :=
      Nat.add_le_add_right (Nat.add_le_add_right (σ.volume hnd) extra) _
    _ = (width + (width - 1)) * σ.rounds.length + (extra + (width - 1) * slack) := by ring
    _ = (2 * width - 1) * σ.rounds.length + (extra + (width - 1) * slack) := by rw [hboth]

end Rounds
