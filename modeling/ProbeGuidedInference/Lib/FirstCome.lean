import Mathlib.Algebra.Order.BigOperators.Group.List
import Mathlib.Algebra.Order.Ring.Nat
import Mathlib.Data.List.Forall2
import Mathlib.Data.List.Perm.Subperm
import Mathlib.Logic.Function.Iterate

/- First come, first served, in rounds. Jobs stand in a line and each needs a number of
   servings. A round gives one to each of the first `width` jobs that still need any
   (`serveFirst`), and `makespan` rounds pass until nobody does (`served_iff`). Who stands
   further back holds nobody up (`serveFirst_take`), and no place added and no serving less is
   ever paid for with a later round (`makespan_mono`). -/
namespace FirstCome

/-- One round. Jobs that need nothing take no place. -/
def serveFirst : Nat → List Nat → List Nat
  | _, [] => []
  | width, 0 :: needs => 0 :: serveFirst width needs
  | 0, (n + 1) :: needs => (n + 1) :: serveFirst 0 needs
  | width + 1, (n + 1) :: needs => n :: serveFirst width needs

/-- The rounds until nobody needs anything, `limit` at the most. -/
def rounds (width : Nat) : Nat → List Nat → Nat
  | 0, _ => 0
  | limit + 1, needs => if needs.sum = 0 then 0 else rounds width limit (serveFirst width needs) + 1

/-- The rounds until nobody needs anything: no more than there are servings to give. -/
def makespan (width : Nat) (needs : List Nat) : Nat := rounds width needs.sum needs

/-- Three jobs and two places: 2 and 1 first, then 1 and 3, and twice what is left of 3. -/
example : makespan 2 [2, 1, 3] = 4 := by decide

variable {width : Nat} {needs : List Nat}

@[simp] theorem serveFirst_nil (width : Nat) : serveFirst width [] = [] := by
  rw [serveFirst]

@[simp] theorem serveFirst_skip (width : Nat) (needs : List Nat) :
    serveFirst width (0 :: needs) = 0 :: serveFirst width needs := by
  rw [serveFirst]

/-- A round without places serves nobody. -/
@[simp] theorem serveFirst_none (needs : List Nat) : serveFirst 0 needs = needs := by
  induction needs with
  | nil => exact serveFirst_nil 0
  | cons n needs ih =>
    cases n with
    | zero => rw [serveFirst_skip, ih]
    | succ n => rw [serveFirst, ih]

/-- Places and needs compared job by job: who has more places and less to do is no worse
    off after a round. -/
theorem serveFirst_mono : ∀ {needs needs' : List Nat} {width width' : Nat}, width ≤ width' →
    List.Forall₂ (· ≤ ·) needs' needs →
    List.Forall₂ (· ≤ ·) (serveFirst width' needs') (serveFirst width needs) := by
  intro needs
  induction needs with
  | nil =>
    intro needs' width width' _ h
    cases h
    rw [serveFirst_nil, serveFirst_nil]
    exact .nil
  | cons n needs ih =>
    intro needs' width width' hwidth h
    cases h with
    | @cons n' _ needs' _ hn hneeds =>
      cases n' with
      | zero =>
        rw [serveFirst_skip]
        cases n with
        | zero =>
          rw [serveFirst_skip]
          exact .cons (Nat.le_refl 0) (ih hwidth hneeds)
        | succ n =>
          cases width with
          | zero =>
            rw [serveFirst]
            exact .cons (Nat.zero_le _) (ih (Nat.zero_le _) hneeds)
          | succ width =>
            rw [serveFirst]
            exact .cons (Nat.zero_le n) (ih (by omega) hneeds)
      | succ n' =>
        cases n with
        | zero => exact absurd hn (Nat.not_succ_le_zero n')
        | succ n =>
          cases width with
          | zero =>
            cases width' with
            | zero =>
              rw [serveFirst, serveFirst]
              exact .cons hn (ih (Nat.le_refl 0) hneeds)
            | succ width' =>
              rw [serveFirst, serveFirst]
              exact .cons (by omega) (ih (Nat.zero_le _) hneeds)
          | succ width =>
            cases width' with
            | zero => exact absurd hwidth (Nat.not_succ_le_zero width)
            | succ width' =>
              rw [serveFirst, serveFirst]
              exact .cons (Nat.le_of_succ_le_succ hn) (ih (Nat.le_of_succ_le_succ hwidth) hneeds)

/-- Who stands further back takes no place from those in front. -/
theorem serveFirst_take (width : Nat) (needs : List Nat) (i : Nat) :
    serveFirst width (needs.take i) = (serveFirst width needs).take i := by
  induction needs generalizing width i with
  | nil => simp
  | cons n needs ih =>
    cases i with
    | zero => simp
    | succ i =>
      rw [List.take_succ_cons]
      cases n with
      | zero => rw [serveFirst_skip, serveFirst_skip, ih, List.take_succ_cons]
      | succ n =>
        cases width with
        | zero => rw [serveFirst_none, serveFirst_none, List.take_succ_cons]
        | succ width => rw [serveFirst, serveFirst, ih, List.take_succ_cons]

theorem serveFirst_iterate_take (width : Nat) (i t : Nat) : ∀ needs : List Nat,
    (serveFirst width)^[t] (needs.take i) = ((serveFirst width)^[t] needs).take i := by
  induction t with
  | zero => exact fun _ => rfl
  | succ t ih =>
    intro needs
    rw [Function.iterate_succ_apply, Function.iterate_succ_apply, serveFirst_take, ih]

theorem serveFirst_zero (h : needs.sum = 0) (width : Nat) : serveFirst width needs = needs := by
  induction needs with
  | nil => exact serveFirst_nil width
  | cons n needs ih =>
    rw [List.sum_cons] at h
    obtain rfl : n = 0 := by omega
    rw [serveFirst_skip, ih (by omega)]

/-- While somebody needs something, a round gives it to somebody. -/
theorem serveFirst_sum_lt (hwidth : 0 < width) (h : 0 < needs.sum) :
    (serveFirst width needs).sum < needs.sum := by
  induction needs with
  | nil => exact absurd h (Nat.lt_irrefl 0)
  | cons n needs ih =>
    obtain ⟨width, rfl⟩ := Nat.exists_eq_succ_of_ne_zero (Nat.pos_iff_ne_zero.mp hwidth)
    rw [List.sum_cons] at h ⊢
    cases n with
    | zero =>
      rw [serveFirst_skip, List.sum_cons]
      have := ih (by omega)
      omega
    | succ n =>
      have hrest : (serveFirst width needs).sum ≤ needs.sum := by
        have hself : List.Forall₂ (· ≤ ·) needs needs := List.forall₂_same.mpr fun n _ => Nat.le_refl n
        have hle := serveFirst_mono (Nat.zero_le width) hself
        rw [serveFirst_none] at hle
        exact List.Forall₂.sum_le_sum hle
      rw [serveFirst, List.sum_cons]
      omega

/-! The number of rounds. -/

theorem rounds_limit (hwidth : 0 < width) : ∀ {limit limit' : Nat} {needs : List Nat},
    needs.sum ≤ limit → needs.sum ≤ limit' → rounds width limit needs = rounds width limit' needs := by
  have hdone : ∀ {limit : Nat} {needs : List Nat}, needs.sum = 0 → rounds width limit needs = 0 := by
    intro limit needs h
    cases limit with
    | zero => rfl
    | succ limit => exact if_pos h
  intro limit
  induction limit with
  | zero =>
    intro limit' needs h _
    rw [hdone (by omega), hdone (by omega)]
  | succ limit ih =>
    intro limit' needs h h'
    by_cases hsum : needs.sum = 0
    · rw [hdone hsum, hdone hsum]
    · obtain ⟨limit', rfl⟩ := Nat.exists_eq_succ_of_ne_zero (by omega : limit' ≠ 0)
      have hlt := serveFirst_sum_lt hwidth (Nat.pos_of_ne_zero hsum)
      have hsame : rounds width limit (serveFirst width needs) = rounds width limit' (serveFirst width needs) :=
        ih (by omega) (by omega)
      rw [rounds, rounds, if_neg hsum, if_neg hsum, hsame]

theorem makespan_done (h : needs.sum = 0) : makespan width needs = 0 := by
  unfold makespan
  rw [h]
  rfl

theorem makespan_succ (hwidth : 0 < width) (h : 0 < needs.sum) :
    makespan width needs = makespan width (serveFirst width needs) + 1 := by
  unfold makespan
  obtain ⟨limit, hlimit⟩ := Nat.exists_eq_succ_of_ne_zero (Nat.pos_iff_ne_zero.mp h)
  have hlt := serveFirst_sum_lt hwidth h
  rw [hlimit, rounds, if_neg (by omega), rounds_limit hwidth (by omega) (Nat.le_refl _)]

theorem serveFirst_none_iterate (t : Nat) (needs : List Nat) : (serveFirst 0)^[t] needs = needs :=
  Function.iterate_fixed (serveFirst_none needs) t

/-- **After `makespan` rounds, and not before, nobody needs anything.** -/
theorem served_iff (t : Nat) : ∀ {needs : List Nat}, 0 < width ∨ needs.sum = 0 →
    (((serveFirst width)^[t] needs).sum = 0 ↔ makespan width needs ≤ t) := by
  induction t with
  | zero =>
    intro needs hwidth
    rw [Function.iterate_zero_apply, Nat.le_zero]
    refine ⟨makespan_done, ?_⟩
    intro h
    by_contra hpos
    rw [makespan_succ (hwidth.resolve_right hpos) (Nat.pos_of_ne_zero hpos)] at h
    cases h
  | succ t ih =>
    intro needs hwidth
    rw [Function.iterate_succ_apply]
    by_cases hsum : needs.sum = 0
    · rw [serveFirst_zero hsum, ih (.inr hsum), makespan_done hsum]
      simp
    · have hpos := hwidth.resolve_right hsum
      rw [ih (.inl hpos), makespan_succ hpos (Nat.pos_of_ne_zero hsum)]
      omega

/-- **No anomalies.** More places and smaller needs never take more rounds. -/
theorem makespan_mono {width' : Nat} {needs' : List Nat} (hdone : 0 < width ∨ needs.sum = 0)
    (hwidth : width ≤ width') (hneeds : List.Forall₂ (· ≤ ·) needs' needs) :
    makespan width' needs' ≤ makespan width needs := by
  have hiterate : ∀ t, ∀ {needs needs' : List Nat}, List.Forall₂ (· ≤ ·) needs' needs →
      List.Forall₂ (· ≤ ·) ((serveFirst width')^[t] needs') ((serveFirst width)^[t] needs) := by
    intro t
    induction t with
    | zero => exact fun h => h
    | succ t ih =>
      intro needs needs' h
      rw [Function.iterate_succ_apply, Function.iterate_succ_apply]
      exact ih (serveFirst_mono hwidth h)
  have hserved := (served_iff _ hdone).mpr (Nat.le_refl (makespan width needs))
  have hle := List.Forall₂.sum_le_sum (hiterate (makespan width needs) hneeds)
  have hsum := List.Forall₂.sum_le_sum hneeds
  have hdone' : 0 < width' ∨ needs'.sum = 0 := by omega
  rw [← served_iff _ hdone']
  omega

/-! Lines of named jobs. -/

/-- Who waits can be read off a part of the line, when nobody waits outside of it. -/
theorem filter_of_sublist {ι : Type} {line part : List ι} {p : ι → Bool} (hsub : part.Sublist line)
    (hnd : line.Nodup) (h : ∀ i ∈ line, p i = true → i ∈ part) : line.filter p = part.filter p := by
  have hperm : (line.filter p).Subperm (part.filter p) := by
    apply List.subperm_of_subset (hnd.filter p)
    intro i hi
    obtain ⟨hi, hp⟩ := List.mem_filter.mp hi
    exact List.mem_filter.mpr ⟨h i hi hp, hp⟩
  exact ((hsub.filter p).eq_of_length_le hperm.length_le).symm

/-- A round serves those in front, if it fills its places or serves all who wait. -/
theorem serveFirst_map {ι : Type} [DecidableEq ι] {need : ι → Nat} : ∀ {line front back : List ι}
    {width : Nat}, line.Nodup → line.filter (fun i => 0 < need i) = front ++ back →
    front.length ≤ width → (back = [] ∨ front.length = width) →
    serveFirst width (line.map need) = line.map (fun i => need i - if i ∈ front then 1 else 0) := by
  intro line
  induction line with
  | nil =>
    intro front back width _ _ _ _
    exact serveFirst_nil width
  | cons i line ih =>
    intro front back width hnd hwait hfit hfull
    obtain ⟨hi, hnd⟩ := List.nodup_cons.mp hnd
    rw [List.filter_cons] at hwait
    rw [List.map_cons, List.map_cons]
    cases hneed : need i with
    | zero =>
      rw [hneed] at hwait
      rw [serveFirst_skip, ih hnd (by simpa using hwait) hfit hfull, Nat.zero_sub]
    | succ n =>
      rw [if_pos (by simp [hneed])] at hwait
      cases front with
      | nil =>
        -- no place at all
        obtain rfl : width = 0 := by
          rcases hfull with rfl | hzero
          · cases hwait
          · exact hzero.symm
        rw [serveFirst_none]
        simp
      | cons j front =>
        obtain ⟨rfl, hrest⟩ := List.cons.inj hwait
        obtain ⟨width, rfl⟩ := Nat.exists_eq_succ_of_ne_zero
          (Nat.pos_iff_ne_zero.mp (Nat.lt_of_lt_of_le (Nat.succ_pos _) hfit))
        have hserved := ih hnd hrest (Nat.le_of_succ_le_succ hfit)
          (hfull.imp_right Nat.succ.inj)
        rw [serveFirst, hserved]
        congr 1
        · simp
        · apply List.map_congr_left
          intro j hj
          have hne : j ≠ i := fun heq => hi (heq ▸ hj)
          simp [hne]

end FirstCome
