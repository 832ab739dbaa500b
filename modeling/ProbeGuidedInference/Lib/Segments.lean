import Mathlib.Data.List.Basic

/- Cutting a text into units from left to right, each unit as long as it can be. A unit is
   one symbol, or a symbol that opens one followed by symbols that continue it; a symbol
   that can continue a unit never opens one, but is a unit of its own elsewhere (`alone`).
   For such a cutter a text that arrives in pieces, each cut on its own, gives the units of
   the whole text if and only if no piece ends inside a unit:

     `units_flatten`        the units are the text;
     `units_flatten_whole`  whole units are the units of the text they make up;
     `units_append`         two pieces, cut between two units;
     `units_append_lt`      two pieces, cut inside a unit: there are more units;
     `cutBetween_iff`       what it is for a cut to lie between two units;
     `flatMap_units_eq`     any number of pieces, cut between units;
     `aligned_of_length`    as many units as in the whole text, so cut between units. -/
namespace Segments

variable {α σ : Type}

/-- `first a` is the state in which a unit opened by `a` waits for its next symbol, if `a`
    opens one. `next s a` says whether `a` continues a unit that waits in `s`: it does not;
    it completes it; or the unit goes on waiting. -/
structure Cutter (α σ : Type) where
  first : α → Option σ
  next : σ → α → Option (Option σ)
  alone : ∀ s a, next s a ≠ none → first a = none

/-- The unit that has been opened, if there is one, and the state in which it waits. -/
abbrev Pending (α σ : Type) := Option (List α × σ)

/-- The open unit as the last one of the text. -/
def flush : Pending α σ → List (List α)
  | none => []
  | some (u, _) => [u]

namespace Cutter

variable (m : Cutter α σ)

/-- A symbol with no unit open: the units it completes, and what is open after it. -/
def enter (a : α) : List (List α) × Pending α σ :=
  match m.first a with
  | none => ([[a]], none)
  | some s => ([], some ([a], s))

/-- A symbol behind what is open: the units it completes, and what is open after it. -/
def feed : Pending α σ → α → List (List α) × Pending α σ
  | none, a => m.enter a
  | some (u, s), a =>
    match m.next s a with
    | none => (u :: (m.enter a).1, (m.enter a).2)
    | some none => ([u ++ [a]], none)
    | some (some s') => ([], some (u ++ [a], s'))

/-- The units completed in a text, from what is open before it. -/
def completed : Pending α σ → List α → List (List α)
  | _, [] => []
  | st, a :: w => (m.feed st a).1 ++ completed (m.feed st a).2 w

/-- What is open behind a text. -/
def openAfter : Pending α σ → List α → Pending α σ
  | st, [] => st
  | st, a :: w => openAfter (m.feed st a).2 w

def unitsFrom (st : Pending α σ) (w : List α) : List (List α) :=
  m.completed st w ++ flush (m.openAfter st w)

/-- The units of a text. -/
def units (w : List α) : List (List α) := m.unitsFrom none w

/-- These symbols bring a unit that waits in `s` to its end. -/
inductive Completes : σ → List α → Prop
  | last {s : σ} {a : α} (h : m.next s a = some none) : Completes s [a]
  | more {s s' : σ} {a : α} {k : List α} (h : m.next s a = some (some s')) (hk : Completes s' k) :
      Completes s (a :: k)

/-- A unit with nothing missing. -/
inductive Whole : List α → Prop
  | alone {a : α} (h : m.first a = none) : Whole [a]
  | opened {s : σ} {a : α} {k : List α} (h : m.first a = some s) (hk : m.Completes s k) : Whole (a :: k)

/-- The text is cut between two of its units. -/
def CutBetween (x y : List α) : Prop := ∃ us vs, m.units (x ++ y) = us ++ vs ∧ us.flatten = x

/-- The first symbol of `y` continues the unit that is open behind `x`. -/
def Continues (x y : List α) : Prop :=
  ∃ u s a w, m.openAfter none x = some (u, s) ∧ y = a :: w ∧ m.next s a ≠ none

end Cutter

section Units
variable {m : Cutter α σ} {st : Pending α σ} {u x y w : List α} {a : α} {s : σ}

theorem completed_append : ∀ (x : List α) (st : Pending α σ) (y : List α),
    m.completed st (x ++ y) = m.completed st x ++ m.completed (m.openAfter st x) y := by
  intro x
  induction x with
  | nil => exact fun _ _ => rfl
  | cons a x ih =>
    intro st y
    simp only [List.cons_append, Cutter.completed, Cutter.openAfter, ih, List.append_assoc]

theorem openAfter_append : ∀ (x : List α) (st : Pending α σ) (y : List α),
    m.openAfter st (x ++ y) = m.openAfter (m.openAfter st x) y := by
  intro x
  induction x with
  | nil => exact fun _ _ => rfl
  | cons a x ih => exact fun st y => ih (m.feed st a).2 y

theorem unitsFrom_append (st : Pending α σ) (x y : List α) :
    m.unitsFrom st (x ++ y) = m.completed st x ++ m.unitsFrom (m.openAfter st x) y := by
  rw [Cutter.unitsFrom, completed_append, openAfter_append, List.append_assoc]
  rfl

theorem unitsFrom_cons (st : Pending α σ) (a : α) (w : List α) :
    m.unitsFrom st (a :: w) = (m.feed st a).1 ++ m.unitsFrom (m.feed st a).2 w := by
  rw [Cutter.unitsFrom, Cutter.completed, Cutter.openAfter, List.append_assoc]
  rfl

theorem feed_close (h : m.next s a = none) :
    m.feed (some (u, s)) a = (u :: (m.enter a).1, (m.enter a).2) := by
  rw [Cutter.feed, h]

theorem feed_complete (h : m.next s a = some none) :
    m.feed (some (u, s)) a = ([u ++ [a]], none) := by
  rw [Cutter.feed, h]

theorem feed_extend {s' : σ} (h : m.next s a = some (some s')) :
    m.feed (some (u, s)) a = ([], some (u ++ [a], s')) := by
  rw [Cutter.feed, h]

theorem enter_flatten (a : α) :
    (m.enter a).1.flatten ++ (flush (m.enter a).2).flatten = [a] := by
  unfold Cutter.enter
  cases m.first a <;> rfl

theorem feed_flatten (st : Pending α σ) (a : α) :
    (m.feed st a).1.flatten ++ (flush (m.feed st a).2).flatten = (flush st).flatten ++ [a] := by
  cases st with
  | none => exact enter_flatten a
  | some p =>
    obtain ⟨u, s⟩ := p
    cases hnext : m.next s a with
    | none =>
      rw [feed_close hnext, List.flatten_cons, List.append_assoc, enter_flatten]
      simp [flush]
    | some st' =>
      cases st' with
      | none =>
        rw [feed_complete hnext]
        simp [flush]
      | some s' =>
        rw [feed_extend hnext]
        simp [flush]

theorem completed_flatten : ∀ (w : List α) (st : Pending α σ),
    (m.completed st w).flatten ++ (flush (m.openAfter st w)).flatten = (flush st).flatten ++ w := by
  intro w
  induction w with
  | nil => simp [Cutter.completed, Cutter.openAfter]
  | cons a w ih =>
    intro st
    calc (m.completed st (a :: w)).flatten ++ (flush (m.openAfter st (a :: w))).flatten
        = (m.feed st a).1.flatten ++ ((m.completed (m.feed st a).2 w).flatten ++
            (flush (m.openAfter (m.feed st a).2 w)).flatten) := by
          rw [Cutter.completed, Cutter.openAfter, List.flatten_append, List.append_assoc]
      _ = ((m.feed st a).1.flatten ++ (flush (m.feed st a).2).flatten) ++ w := by
          rw [ih, List.append_assoc]
      _ = (flush st).flatten ++ a :: w := by
          rw [feed_flatten, List.append_assoc]
          rfl

/-- The units are the text. -/
theorem units_flatten (w : List α) : (m.units w).flatten = w := by
  rw [Cutter.units, Cutter.unitsFrom, List.flatten_append, completed_flatten]
  rfl

/-- A symbol that cannot continue a unit closes it. -/
theorem unitsFrom_close (h : m.next s a = none) (w : List α) :
    m.unitsFrom (some (u, s)) (a :: w) = u :: m.units (a :: w) := by
  rw [unitsFrom_cons, feed_close h, Cutter.units, unitsFrom_cons]
  rfl

theorem unitsFrom_continue (h : m.next s a ≠ none) (u w : List α) :
    (∃ s', m.unitsFrom (some (u, s)) (a :: w) = m.unitsFrom (some (u ++ [a], s')) w) ∨
    m.unitsFrom (some (u, s)) (a :: w) = (u ++ [a]) :: m.units w := by
  rw [unitsFrom_cons]
  cases hnext : m.next s a with
  | none => exact absurd hnext h
  | some st =>
    cases st with
    | none =>
      right
      rw [feed_complete hnext]
      rfl
    | some s' =>
      left
      refine ⟨s', ?_⟩
      rw [feed_extend hnext]
      rfl

theorem unitsFrom_completes {k : List α} (h : m.Completes s k) : ∀ (u w : List α),
    m.unitsFrom (some (u, s)) (k ++ w) = (u ++ k) :: m.units w := by
  induction h with
  | last h =>
    intro u w
    rw [List.singleton_append, unitsFrom_cons, feed_complete h]
    rfl
  | more h _ ih =>
    intro u w
    rw [List.cons_append, unitsFrom_cons, feed_extend h, List.nil_append, ih, List.append_assoc]
    rfl

/-- A whole unit is a unit of any text that begins with it. -/
theorem units_whole (h : m.Whole u) (w : List α) : m.units (u ++ w) = u :: m.units w := by
  cases h with
  | @alone a h =>
    have hfeed : m.feed none a = ([[a]], none) := by
      rw [Cutter.feed, Cutter.enter, h]
    rw [Cutter.units, List.singleton_append, unitsFrom_cons, hfeed]
    rfl
  | @opened s a k h hk =>
    have hfeed : m.feed none a = ([], some ([a], s)) := by
      rw [Cutter.feed, Cutter.enter, h]
    rw [Cutter.units, List.cons_append, unitsFrom_cons, hfeed]
    exact unitsFrom_completes hk [a] w

/-- A symbol that continues units is elsewhere a unit of its own. -/
theorem units_alone (h : m.next s a ≠ none) (w : List α) : m.units (a :: w) = [a] :: m.units w :=
  units_whole (.alone (m.alone s a h)) w

theorem units_flatten_whole : ∀ {us : List (List α)}, (∀ u ∈ us, m.Whole u) →
    m.units us.flatten = us := by
  intro us
  induction us with
  | nil => exact fun _ => rfl
  | cons u us ih =>
    intro h
    obtain ⟨hu, hus⟩ := List.forall_mem_cons.mp h
    rw [List.flatten_cons, units_whole hu, ih hus]

/-- An open unit makes at most one unit more. -/
theorem length_unitsFrom_le : ∀ (w u : List α) (s : σ),
    (m.unitsFrom (some (u, s)) w).length ≤ 1 + (m.units w).length := by
  intro w
  induction w with
  | nil =>
    intro u s
    exact Nat.le_refl 1
  | cons a w ih =>
    intro u s
    by_cases h : m.next s a = none
    · rw [unitsFrom_close h, List.length_cons]
      omega
    · rw [units_alone h, List.length_cons]
      rcases unitsFrom_continue h u w with ⟨s', heq⟩ | heq
      · rw [heq]
        have hle := ih (u ++ [a]) s'
        omega
      · rw [heq, List.length_cons]
        omega

/-- The first unit begins with what is open. -/
theorem unitsFrom_some : ∀ (w u : List α) (s : σ), ∃ k vs,
    m.unitsFrom (some (u, s)) w = (u ++ k) :: vs := by
  intro w
  induction w with
  | nil => exact fun u s => ⟨[], [], by rw [List.append_nil]; rfl⟩
  | cons a w ih =>
    intro u s
    by_cases h : m.next s a = none
    · exact ⟨[], m.units (a :: w), by rw [unitsFrom_close h, List.append_nil]⟩
    · rcases unitsFrom_continue h u w with ⟨s', heq⟩ | heq
      · obtain ⟨k, vs, hvs⟩ := ih (u ++ [a]) s'
        exact ⟨a :: k, vs, by rw [heq, hvs, List.append_assoc]; rfl⟩
      · exact ⟨[a], m.units w, heq⟩

/-- An open unit has at least the symbol that opened it. -/
theorem openAfter_ne_nil : ∀ (w : List α) (st : Pending α σ), (∀ u s, st = some (u, s) → u ≠ []) →
    ∀ u s, m.openAfter st w = some (u, s) → u ≠ [] := by
  intro w
  induction w with
  | nil => exact fun _ h => h
  | cons a w ih =>
    intro st _
    have henter : ∀ u s, (m.enter a).2 = some (u, s) → u ≠ [] := by
      intro u s heq
      unfold Cutter.enter at heq
      split at heq
      · cases heq
      · obtain ⟨rfl, -⟩ := Prod.mk.inj (Option.some.inj heq)
        exact List.cons_ne_nil a []
    refine ih (m.feed st a).2 ?_
    intro u s heq
    cases st with
    | none => exact henter u s heq
    | some p =>
      obtain ⟨u₀, s₀⟩ := p
      cases hnext : m.next s₀ a with
      | none =>
        rw [feed_close hnext] at heq
        exact henter u s heq
      | some st' =>
        cases st' with
        | none =>
          rw [feed_complete hnext] at heq
          cases heq
        | some s' =>
          rw [feed_extend hnext] at heq
          obtain ⟨rfl, -⟩ := Prod.mk.inj (Option.some.inj heq)
          simp

/-! Two pieces. -/

/-- A text cut where no unit is continued: the units are those of the two pieces. -/
theorem units_append_of_not_continues (h : ¬ m.Continues x y) :
    m.units (x ++ y) = m.units x ++ m.units y := by
  have hx : m.units x = m.completed none x ++ flush (m.openAfter none x) := rfl
  rw [Cutter.units, unitsFrom_append, hx, List.append_assoc]
  congr 1
  cases hopen : m.openAfter none x with
  | none => rfl
  | some p =>
    obtain ⟨u, s⟩ := p
    cases y with
    | nil => rfl
    | cons a w =>
      by_cases hnext : m.next s a = none
      · rw [unitsFrom_close hnext]
        rfl
      · exact absurd ⟨u, s, a, w, hopen, rfl, hnext⟩ h

/-- A text cut inside a unit: the pieces have more units. -/
theorem units_append_lt (h : m.Continues x y) :
    (m.units (x ++ y)).length < (m.units x).length + (m.units y).length := by
  obtain ⟨u, s, a, w, hopen, rfl, hnext⟩ := h
  have hx : m.units x = m.completed none x ++ [u] := by
    rw [Cutter.units, Cutter.unitsFrom, hopen]
    rfl
  have hle : (m.unitsFrom (some (u, s)) (a :: w)).length ≤ 1 + (m.units w).length := by
    rcases unitsFrom_continue hnext u w with ⟨s', heq⟩ | heq
    · rw [heq]
      exact length_unitsFrom_le w (u ++ [a]) s'
    · rw [heq, List.length_cons]
      omega
  rw [Cutter.units, unitsFrom_append, hopen, hx, units_alone hnext, List.length_append,
    List.length_append, List.length_cons, List.length_cons, List.length_nil]
  omega

theorem cutBetween_iff : m.CutBetween x y ↔ ¬ m.Continues x y := by
  refine ⟨?_, ?_⟩
  · intro h hcontinues
    obtain ⟨us, vs, hunits, hflat⟩ := h
    obtain ⟨u, s, a, w, hopen, rfl, hnext⟩ := hcontinues
    -- the unit that is open at the cut goes beyond it
    obtain ⟨k, rest, hrest⟩ : ∃ k rest, m.unitsFrom (some (u, s)) (a :: w) = (u ++ a :: k) :: rest := by
      rcases unitsFrom_continue hnext u w with ⟨s', heq⟩ | heq
      · obtain ⟨k, rest, hrest⟩ := unitsFrom_some (m := m) w (u ++ [a]) s'
        exact ⟨k, rest, by rw [heq, hrest, List.append_assoc]; rfl⟩
      · exact ⟨[], m.units w, heq⟩
    have hx : (m.completed none x).flatten ++ u = x := by
      have hsplit := completed_flatten (m := m) x none
      rw [hopen] at hsplit
      simpa [flush] using hsplit
    rw [Cutter.units, unitsFrom_append, hopen, hrest] at hunits
    have hlen := congrArg List.length (hx.trans hflat.symm)
    have hu : u ≠ [] := openAfter_ne_nil x none (fun _ _ heq => by cases heq) u s hopen
    rcases List.append_eq_append_iff.mp hunits with ⟨bs, rfl, hbs⟩ | ⟨bs, hbs, -⟩
    · cases bs with
      | nil =>
        rw [List.append_nil, List.length_append] at hlen
        have hpos := List.length_pos_iff.mpr hu
        omega
      | cons b bs =>
        obtain ⟨rfl, -⟩ := List.cons.inj hbs
        simp only [List.flatten_append, List.flatten_cons, List.length_append, List.length_cons] at hlen
        omega
    · rw [hbs, List.flatten_append, List.length_append, List.length_append] at hlen
      have hpos := List.length_pos_iff.mpr hu
      omega
  · intro h
    exact ⟨m.units x, m.units y, units_append_of_not_continues h, units_flatten x⟩

theorem units_append (h : m.CutBetween x y) : m.units (x ++ y) = m.units x ++ m.units y :=
  units_append_of_not_continues (cutBetween_iff.mp h)

/-- Behind a cut between two units nothing is left of the first piece. -/
theorem openAfter_cut (h : ¬ m.Continues x w) (hw : w ≠ []) :
    m.openAfter none (x ++ w) = m.openAfter none w := by
  obtain ⟨a, w, rfl⟩ := List.exists_cons_of_ne_nil hw
  have hfeed : (m.feed (m.openAfter none x) a).2 = (m.feed none a).2 := by
    cases hopen : m.openAfter none x with
    | none => rfl
    | some p =>
      obtain ⟨u, s⟩ := p
      have hnext : m.next s a = none := by
        by_contra hne
        exact h ⟨u, s, a, w, hopen, rfl, hne⟩
      rw [feed_close hnext]
      rfl
  rw [openAfter_append, Cutter.openAfter, Cutter.openAfter, hfeed]

/-- Such a cut does not change which later cuts lie between units. -/
theorem continues_append_iff (h : ¬ m.Continues x (y ++ w)) :
    m.Continues (x ++ y) w ↔ m.Continues y w := by
  by_cases hy : y = []
  · subst hy
    rw [List.append_nil]
    refine ⟨fun hc => absurd hc h, ?_⟩
    intro hc
    obtain ⟨u, s, a, w', hopen, -⟩ := hc
    cases hopen
  · have hstart : ¬ m.Continues x y := by
      intro hc
      obtain ⟨u, s, a, y', hopen, rfl, hnext⟩ := hc
      exact h ⟨u, s, a, y' ++ w, hopen, rfl, hnext⟩
    unfold Cutter.Continues
    rw [openAfter_cut hstart hy]

end Units

/-! Any number of pieces. -/

section Pieces
variable {m : Cutter α σ}

/-- Every end of a piece lies between two units of the whole text. -/
def Cutter.Aligned (m : Cutter α σ) (pieces : List (List α)) : Prop :=
  ∀ l r, pieces = l ++ r → m.CutBetween l.flatten r.flatten

theorem aligned_cons {piece : List α} {rest : List (List α)} :
    m.Aligned (piece :: rest) ↔ m.CutBetween piece rest.flatten ∧ m.Aligned rest := by
  refine ⟨?_, ?_⟩
  · intro h
    have hfirst : m.CutBetween piece rest.flatten := by
      have hcut := h [piece] rest rfl
      simpa using hcut
    refine ⟨hfirst, ?_⟩
    intro l r hsplit
    have hcut := h (piece :: l) r (congrArg (piece :: ·) hsplit)
    rw [cutBetween_iff, List.flatten_cons] at hcut
    rw [hsplit, List.flatten_append, cutBetween_iff] at hfirst
    rw [cutBetween_iff, ← continues_append_iff hfirst]
    exact hcut
  · intro h l r hsplit
    obtain ⟨hfirst, hrest⟩ := h
    cases l with
    | nil => exact ⟨[], m.units r.flatten, rfl, rfl⟩
    | cons b l =>
      obtain ⟨hb, hsplit⟩ := List.cons.inj hsplit
      have hrest' : rest = l ++ r := hsplit
      subst hb hrest'
      rw [List.flatten_append, cutBetween_iff] at hfirst
      rw [List.flatten_cons, cutBetween_iff, continues_append_iff hfirst]
      exact cutBetween_iff.mp (hrest l r rfl)

/-- **Pieces cut between units have the units of the whole text.** -/
theorem flatMap_units_eq : ∀ {pieces : List (List α)}, m.Aligned pieces →
    pieces.flatMap m.units = m.units pieces.flatten := by
  intro pieces
  induction pieces with
  | nil => exact fun _ => rfl
  | cons piece rest ih =>
    intro h
    obtain ⟨hfirst, hrest⟩ := aligned_cons.mp h
    rw [List.flatMap_cons, List.flatten_cons, ih hrest, units_append hfirst]

theorem length_units_le : ∀ (pieces : List (List α)),
    (m.units pieces.flatten).length ≤ (pieces.flatMap m.units).length := by
  intro pieces
  induction pieces with
  | nil => exact Nat.le_refl _
  | cons piece rest ih =>
    rw [List.flatten_cons, List.flatMap_cons, List.length_append]
    by_cases h : m.Continues piece rest.flatten
    · have hlt := units_append_lt h
      omega
    · rw [units_append_of_not_continues h, List.length_append]
      omega

/-- **Pieces with no more units than the whole text are cut between its units.** -/
theorem aligned_of_length : ∀ {pieces : List (List α)},
    (pieces.flatMap m.units).length = (m.units pieces.flatten).length → m.Aligned pieces := by
  intro pieces
  induction pieces with
  | nil =>
    intro _ l r hsplit
    obtain ⟨rfl, rfl⟩ := List.append_eq_nil_iff.mp hsplit.symm
    exact ⟨[], [], rfl, rfl⟩
  | cons piece rest ih =>
    intro h
    have hle := length_units_le (m := m) rest
    rw [List.flatten_cons, List.flatMap_cons, List.length_append] at h
    by_cases hc : m.Continues piece rest.flatten
    · have hlt := units_append_lt hc
      omega
    · rw [units_append_of_not_continues hc, List.length_append] at h
      exact aligned_cons.mpr ⟨cutBetween_iff.mpr hc, ih (by omega)⟩

end Pieces

end Segments
