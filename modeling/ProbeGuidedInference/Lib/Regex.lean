import Mathlib.Data.List.Basic

/- Regular expressions as a backtracking engine reads them. At the front of a text an
   expression has a list of outcomes, in the order in which the engine tries them, and the
   first one is its match; `findall` lists the captured group of the leftmost
   non-overlapping matches. It is meant for expressions that match no empty text.

     `mem_longest`, `mem_seq`, ...   the outcomes of an expression, whatever their order;
     `matchFront_eq`     where there is a single outcome, it is the match;
     `findall_miss`      a position without a match is passed over;
     `findall_match`     the search goes on behind a match;
     `mem_findall`       every group found comes from an outcome somewhere in the text;
     `findall_ne_nil`    a match anywhere makes the search find something. -/
namespace Regex

variable {α : Type}

/-- A way to match: what is consumed, what is left, and the group if it was entered. -/
structure Outcome (α : Type) where
  taken : List α
  rest : List α
  group : Option (List α)

inductive Expr (α : Type) where
  /-- One symbol of a class. -/
  | one (p : α → Bool)
  /-- One or more symbols of a class, as many as possible. -/
  | plus (p : α → Bool)
  | seq (r s : Expr α)
  /-- At most one, preferably one. -/
  | opt (r : Expr α)
  /-- The capturing group. -/
  | group (r : Expr α)

/-- The prefixes of symbols of the class, longest first, with the empty one. -/
def longest (p : α → Bool) : List α → List (Outcome α)
  | [] => [⟨[], [], none⟩]
  | c :: cs =>
    if p c then (longest p cs).map (fun o => ⟨c :: o.taken, o.rest, none⟩) ++ [⟨[], c :: cs, none⟩]
    else [⟨[], c :: cs, none⟩]

def Expr.outcomes : Expr α → List α → List (Outcome α)
  | .one _, [] => []
  | .one p, c :: cs => if p c then [⟨[c], cs, none⟩] else []
  | .plus _, [] => []
  | .plus p, c :: cs =>
    if p c then (longest p cs).map (fun o => ⟨c :: o.taken, o.rest, none⟩) else []
  | .seq r s, w => (r.outcomes w).flatMap (fun o =>
      (s.outcomes o.rest).map (fun o' => ⟨o.taken ++ o'.taken, o'.rest, o'.group <|> o.group⟩))
  | .opt r, w => r.outcomes w ++ [⟨[], w, none⟩]
  | .group r, w => (r.outcomes w).map (fun o => { o with group := some o.taken })

/-- The match at the front of the text. -/
def Expr.matchFront (r : Expr α) (w : List α) : Option (Outcome α) := (r.outcomes w).head?

/-- The search, with the number of symbols still to pass over. -/
def search (r : Expr α) : Nat → List α → List (List α)
  | _, [] => []
  | k + 1, _ :: cs => search r k cs
  | 0, c :: cs =>
    match r.matchFront (c :: cs) with
    | none => search r 0 cs
    | some o => o.group.getD o.taken :: search r (o.taken.length - 1) cs

def Expr.findall (r : Expr α) (w : List α) : List (List α) := search r 0 w

/-- `r₁ r₂ ... rₙ`. -/
def Expr.concat : Expr α → List (Expr α) → Expr α
  | r, [] => r
  | r, s :: rest => .seq r (concat s rest)

/-- Any number of symbols of a class, as many as possible. -/
def Expr.star (p : α → Bool) : Expr α := .opt (.plus p)

/-- A fixed text, which is not empty. -/
def Expr.literal [DecidableEq α] (c : α) : List α → Expr α
  | [] => .one (· = c)
  | d :: ds => .seq (.one (· = c)) (literal d ds)

/-! Outcomes. -/

section Outcomes
variable {p : α → Bool} {r s : Expr α} {w : List α} {o : Outcome α}

theorem mem_one : o ∈ (Expr.one p).outcomes w ↔
    ∃ c, p c = true ∧ w = c :: o.rest ∧ o.taken = [c] ∧ o.group = none := by
  obtain ⟨taken, rest, group⟩ := o
  cases w with
  | nil => simp [Expr.outcomes]
  | cons c cs =>
    by_cases hc : p c = true
    · simp only [Expr.outcomes, hc, if_true, List.mem_singleton, Outcome.mk.injEq]
      refine ⟨?_, ?_⟩
      · intro h
        obtain ⟨rfl, rfl, rfl⟩ := h
        exact ⟨c, hc, rfl, rfl, rfl⟩
      · intro h
        obtain ⟨d, -, heq, rfl, rfl⟩ := h
        obtain ⟨rfl, rfl⟩ := List.cons.inj heq
        exact ⟨rfl, rfl, rfl⟩
    · simp only [Expr.outcomes, hc]
      refine ⟨fun h => (by cases h), ?_⟩
      intro h
      obtain ⟨d, hd, heq, -, -⟩ := h
      obtain ⟨rfl, rfl⟩ := List.cons.inj heq
      exact absurd hd hc

theorem mem_longest : ∀ {w : List α} {o : Outcome α}, o ∈ longest p w ↔
    o.taken ++ o.rest = w ∧ (∀ c ∈ o.taken, p c = true) ∧ o.group = none := by
  intro w
  induction w with
  | nil =>
    intro o
    obtain ⟨taken, rest, group⟩ := o
    simp only [longest, List.mem_singleton, Outcome.mk.injEq, List.append_eq_nil_iff]
    refine ⟨?_, fun h => ⟨h.1.1, h.1.2, h.2.2⟩⟩
    intro h
    obtain ⟨rfl, rfl, rfl⟩ := h
    exact ⟨⟨rfl, rfl⟩, by simp, rfl⟩
  | cons c cs ih =>
    intro o
    obtain ⟨taken, rest, group⟩ := o
    -- the outcome that takes nothing is there whether `c` is in the class or not
    have hlast : (⟨taken, rest, group⟩ : Outcome α) ∈ longest p (c :: cs) ↔
        (p c = true ∧ ∃ o' ∈ longest p cs, ⟨c :: o'.taken, o'.rest, none⟩ =
          (⟨taken, rest, group⟩ : Outcome α)) ∨
        (taken = [] ∧ rest = c :: cs ∧ group = none) := by
      rw [longest]
      by_cases hc : p c = true
      · simp [hc]
      · simp [hc]
    rw [hlast]
    cases taken with
    | nil => simp
    | cons d ds =>
      simp only [List.cons_append, List.cons.injEq, List.mem_cons, forall_eq_or_imp, reduceCtorEq,
        false_and, or_false, Outcome.mk.injEq]
      refine ⟨?_, ?_⟩
      · intro h
        obtain ⟨hc, o', ho', ⟨rfl, rfl⟩, rfl, rfl⟩ := h
        obtain ⟨hsplit, hall, -⟩ := ih.mp ho'
        exact ⟨⟨rfl, hsplit⟩, ⟨hc, hall⟩, rfl⟩
      · intro h
        obtain ⟨⟨rfl, hsplit⟩, ⟨hc, hall⟩, rfl⟩ := h
        exact ⟨hc, ⟨ds, rest, none⟩, ih.mpr ⟨hsplit, hall, rfl⟩, ⟨rfl, rfl⟩, rfl, rfl⟩

theorem mem_plus : o ∈ (Expr.plus p).outcomes w ↔
    o.taken ≠ [] ∧ o.taken ++ o.rest = w ∧ (∀ c ∈ o.taken, p c = true) ∧ o.group = none := by
  rw [← mem_longest]
  obtain ⟨taken, rest, group⟩ := o
  cases w with
  | nil =>
    simp only [Expr.outcomes, longest, List.mem_singleton, Outcome.mk.injEq]
    exact ⟨fun h => (by cases h), fun h => absurd h.2.1 h.1⟩
  | cons c cs =>
    by_cases hc : p c = true
    · simp only [Expr.outcomes, longest, hc, if_true, List.mem_append, List.mem_singleton,
        List.mem_map, Outcome.mk.injEq]
      refine ⟨?_, fun h => h.2.resolve_right (fun h' => h.1 h'.1)⟩
      intro h
      obtain ⟨o', ho', htaken, hrest, hgroup⟩ := h
      exact ⟨by rw [← htaken]; exact List.cons_ne_nil _ _, .inl ⟨o', ho', htaken, hrest, hgroup⟩⟩
    · have hlongest : longest p (c :: cs) = [⟨[], c :: cs, none⟩] := if_neg hc
      have houtcomes : (Expr.plus p).outcomes (c :: cs) = [] := if_neg hc
      simp only [hlongest, houtcomes, List.mem_singleton, Outcome.mk.injEq]
      exact ⟨fun h => (by cases h), fun h => absurd h.2.1 h.1⟩

theorem mem_seq : o ∈ (Expr.seq r s).outcomes w ↔ ∃ o₁ ∈ r.outcomes w, ∃ o₂ ∈ s.outcomes o₁.rest,
    o = ⟨o₁.taken ++ o₂.taken, o₂.rest, o₂.group <|> o₁.group⟩ := by
  rw [Expr.outcomes]
  simp only [List.mem_flatMap, List.mem_map, eq_comm]

theorem mem_opt : o ∈ (Expr.opt r).outcomes w ↔ o ∈ r.outcomes w ∨ o = ⟨[], w, none⟩ := by
  rw [Expr.outcomes, List.mem_append, List.mem_singleton]

theorem mem_group : o ∈ (Expr.group r).outcomes w ↔
    ∃ o' ∈ r.outcomes w, o = ⟨o'.taken, o'.rest, some o'.taken⟩ := by
  rw [Expr.outcomes]
  simp only [List.mem_map, eq_comm]

theorem mem_literal [DecidableEq α] : ∀ {ds w : List α} {c : α} {o : Outcome α},
    o ∈ (Expr.literal c ds).outcomes w ↔
      o.taken = c :: ds ∧ o.taken ++ o.rest = w ∧ o.group = none := by
  intro ds
  induction ds with
  | nil =>
    intro w c o
    rw [Expr.literal, mem_one]
    refine ⟨?_, ?_⟩
    · intro h
      obtain ⟨d, hd, rfl, htaken, hgroup⟩ := h
      obtain rfl : d = c := by simpa using hd
      exact ⟨htaken, by rw [htaken]; rfl, hgroup⟩
    · intro h
      obtain ⟨htaken, rfl, hgroup⟩ := h
      exact ⟨c, by simp, by rw [htaken]; rfl, htaken, hgroup⟩
  | cons d ds ih =>
    intro w c o
    rw [Expr.literal, mem_seq]
    refine ⟨?_, ?_⟩
    · intro h
      obtain ⟨o₁, h₁, o₂, h₂, rfl⟩ := h
      obtain ⟨c', hc', rfl, htaken₁, hgroup₁⟩ := mem_one.mp h₁
      obtain rfl : c' = c := by simpa using hc'
      obtain ⟨htaken₂, hsplit, hgroup₂⟩ := ih.mp h₂
      refine ⟨by rw [htaken₁, htaken₂]; rfl, ?_, by rw [hgroup₁, hgroup₂]; rfl⟩
      rw [htaken₁, ← hsplit]
      rfl
    · intro h
      obtain ⟨htaken, rfl, hgroup⟩ := h
      refine ⟨⟨[c], d :: ds ++ o.rest, none⟩, ?_, ⟨d :: ds, o.rest, none⟩, ?_, ?_⟩
      · exact mem_one.mpr ⟨c, by simp, by rw [htaken]; rfl, rfl, rfl⟩
      · exact ih.mpr ⟨rfl, rfl, rfl⟩
      · obtain ⟨taken, rest, group⟩ := o
        obtain rfl : taken = c :: d :: ds := htaken
        obtain rfl : group = none := hgroup
        rfl

/-- An outcome splits the text. -/
theorem outcomes_append : ∀ {r : Expr α} {w : List α} {o : Outcome α}, o ∈ r.outcomes w →
    o.taken ++ o.rest = w := by
  intro r
  induction r with
  | one p =>
    intro w o h
    obtain ⟨c, -, rfl, htaken, -⟩ := mem_one.mp h
    rw [htaken]
    rfl
  | plus p =>
    intro w o h
    exact (mem_plus.mp h).2.1
  | seq r s ihr ihs =>
    intro w o h
    obtain ⟨o₁, h₁, o₂, h₂, rfl⟩ := mem_seq.mp h
    show o₁.taken ++ o₂.taken ++ o₂.rest = w
    rw [List.append_assoc, ihs h₂, ihr h₁]
  | opt r ih =>
    intro w o h
    rcases mem_opt.mp h with h | rfl
    · exact ih h
    · rfl
  | group r ih =>
    intro w o h
    obtain ⟨o', ho', rfl⟩ := mem_group.mp h
    have hsplit := ih ho'
    exact hsplit

theorem matchFront_eq (hmem : o ∈ r.outcomes w) (hunique : ∀ o' ∈ r.outcomes w, o' = o) :
    r.matchFront w = some o := by
  unfold Expr.matchFront
  cases hout : r.outcomes w with
  | nil =>
    rw [hout] at hmem
    cases hmem
  | cons o' rest =>
    rw [hout] at hunique
    rw [List.head?_cons, hunique o' List.mem_cons_self]

theorem matchFront_eq_none (h : ∀ o, o ∉ r.outcomes w) : r.matchFront w = none := by
  rw [Expr.matchFront, List.eq_nil_iff_forall_not_mem.mpr h]
  rfl

theorem mem_of_matchFront (h : r.matchFront w = some o) : o ∈ r.outcomes w := List.mem_of_mem_head? h

end Outcomes

/-! The search. -/

variable {r : Expr α} {w : List α} {o : Outcome α}

theorem search_skip (r : Expr α) : ∀ (k : Nat) (w : List α), search r k w = r.findall (w.drop k) := by
  intro k
  induction k with
  | zero => exact fun _ => rfl
  | succ k ih =>
    intro w
    cases w with
    | nil => rfl
    | cons c cs => exact ih cs

theorem findall_miss {c : α} {cs : List α} (h : r.matchFront (c :: cs) = none) :
    r.findall (c :: cs) = r.findall cs := by
  rw [Expr.findall, search, h]
  rfl

theorem findall_match (h : r.matchFront w = some o) (hne : o.taken ≠ []) :
    r.findall w = o.group.getD o.taken :: r.findall o.rest := by
  have hsplit := outcomes_append (mem_of_matchFront h)
  obtain ⟨d, ds, htaken⟩ := List.exists_cons_of_ne_nil hne
  rw [htaken] at hsplit
  subst hsplit
  have hdrop : (ds ++ o.rest).drop (o.taken.length - 1) = o.rest := by
    rw [htaken]
    simp
  rw [List.cons_append] at h ⊢
  rw [Expr.findall, search, h]
  simp only [search_skip, hdrop]

/-- Every group found comes from an outcome somewhere in the text. -/
theorem mem_search : ∀ {w : List α} {k : Nat} {g : List α}, g ∈ search r k w →
    ∃ u v o, w = u ++ v ∧ o ∈ r.outcomes v ∧ g = o.group.getD o.taken := by
  intro w
  induction w with
  | nil =>
    intro k g h
    rw [search] at h
    cases h
  | cons c cs ih =>
    intro k g h
    -- what is found in the rest of the text
    have hrest : ∀ {k : Nat}, g ∈ search r k cs →
        ∃ u v o, c :: cs = u ++ v ∧ o ∈ r.outcomes v ∧ g = o.group.getD o.taken := by
      intro k h
      obtain ⟨u, v, o, hsplit, ho, hg⟩ := ih h
      exact ⟨c :: u, v, o, congrArg (c :: ·) hsplit, ho, hg⟩
    cases k with
    | succ k => exact hrest h
    | zero =>
      rw [search] at h
      cases hmatch : r.matchFront (c :: cs) with
      | none =>
        rw [hmatch] at h
        exact hrest h
      | some o =>
        rw [hmatch] at h
        rcases List.mem_cons.mp h with rfl | h
        · exact ⟨[], c :: cs, o, rfl, mem_of_matchFront hmatch, rfl⟩
        · exact hrest h

theorem mem_findall {g : List α} (h : g ∈ r.findall w) :
    ∃ u v o, w = u ++ v ∧ o ∈ r.outcomes v ∧ g = o.group.getD o.taken := mem_search h

/-- A match anywhere makes the search find something. -/
theorem findall_ne_nil {v : List α} (hv : v ≠ []) (h : r.matchFront v ≠ none) :
    ∀ u : List α, r.findall (u ++ v) ≠ [] := by
  have hfront : ∀ {c : α} {cs : List α}, r.matchFront (c :: cs) ≠ none → r.findall (c :: cs) ≠ [] := by
    intro c cs hmatch
    obtain ⟨o, ho⟩ := Option.ne_none_iff_exists'.mp hmatch
    rw [Expr.findall, search, ho]
    exact List.cons_ne_nil _ _
  intro u
  induction u with
  | nil =>
    obtain ⟨c, cs, rfl⟩ := List.exists_cons_of_ne_nil hv
    exact hfront h
  | cons c u ih =>
    by_cases hmatch : r.matchFront (c :: u ++ v) = none
    · rw [List.cons_append] at hmatch ⊢
      rw [findall_miss hmatch]
      exact ih
    · exact hfront hmatch

end Regex
