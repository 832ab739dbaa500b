import Mathlib.Data.List.Infix
import ProbeGuidedInference.Lib.Regex

/- `extract_answer` (benchmark/aime_loader.py) and which answer it finds. The last match of
   `\\boxed\{([^}]+)\}` is the one scored. The group stops at the first closing brace, and a
   match that begins at a `\boxed{` reaches to the next closing brace wherever that is, so
   the text between the last `\boxed{` and its brace is found exactly if it has no braces
   and no earlier `\boxed{` is still open there. -/
namespace PGI
open Regex

/-! Python's strings, as far as `extract_answer` uses them. -/

/-- The characters that `str.strip` removes and `\s` matches. -/
def isSpace (c : Char) : Bool :=
  let n := c.toNat
  (0x09 ≤ n && n ≤ 0x0d) || (0x1c ≤ n && n ≤ 0x20) || n = 0x85 || n = 0xa0 || n = 0x1680 ||
    (0x2000 ≤ n && n ≤ 0x200a) || n = 0x2028 || n = 0x2029 || n = 0x202f || n = 0x205f || n = 0x3000

def strip (w : List Char) : List Char := ((w.dropWhile isSpace).reverse.dropWhile isSpace).reverse

/-- `w.split(sep)`, with the number of characters still to pass over and the part read so
    far. -/
def splitFrom (sep : List Char) : Nat → List Char → List Char → List (List Char)
  | _, part, [] => [part]
  | k + 1, part, _ :: cs => splitFrom sep k part cs
  | 0, part, c :: cs =>
    if sep <+: c :: cs then part :: splitFrom sep (sep.length - 1) [] cs
    else splitFrom sep 0 (part ++ [c]) cs

def split (sep w : List Char) : List (List Char) := splitFrom sep 0 [] w

/-! `extract_answer`. -/

def boxedOpen : List Char := ['\\', 'b', 'o', 'x', 'e', 'd', '{']

/-- `\\boxed\{([^}]+)\}` -/
def boxedExpr : Expr Char :=
  .concat (.literal '\\' ['b', 'o', 'x', 'e', 'd', '{']) [.group (.plus (· ≠ '}')), .one (· = '}')]

/-- `[Tt]he answer is\s*\$?([0-9\-\/\.\,]+)` -/
def answerExpr : Expr Char :=
  .concat (.one (fun c => c = 'T' ∨ c = 't'))
    [.literal 'h' "e answer is".toList, .star isSpace, .opt (.one (· = '$')),
      .group (.plus (fun c => c.isDigit ∨ c = '-' ∨ c = '/' ∨ c = '.' ∨ c = ','))]

/-- `\$?([0-9]+(?:\.[0-9]+)?)` -/
def numberExpr : Expr Char :=
  .concat (.opt (.one (· = '$')))
    [.group (.concat (.plus Char.isDigit) [.opt (.concat (.one (· = '.')) [.plus Char.isDigit])])]

def thinkEnd : List Char := "</think>".toList

def extractAnswer (response : List Char) : Option (List Char) :=
  match (boxedExpr.findall response).getLast? with
  | some boxed => some (strip boxed)
  | none =>
    match (answerExpr.findall response).getLast? with
    | some ans => some (strip ans)
    | none =>
      let post := if thinkEnd <:+: response then (split thinkEnd response).getLastD [] else response
      (numberExpr.findall post).getLast?.map strip

/-! Stripping. -/

theorem mem_dropWhile {c : Char} (hc : isSpace c = false) : ∀ {w : List Char},
    c ∈ w.dropWhile isSpace ↔ c ∈ w := by
  intro w
  induction w with
  | nil => simp
  | cons d ds ih =>
    by_cases hd : isSpace d = true
    · have hne : c ≠ d := by
        intro heq
        rw [heq, hd] at hc
        cases hc
      rw [List.dropWhile_cons, if_pos hd, ih]
      simp [hne]
    · rw [List.dropWhile_cons, if_neg hd]

/-- Stripping keeps the characters that are no blanks. -/
theorem mem_strip {c : Char} (hc : isSpace c = false) {w : List Char} : c ∈ strip w ↔ c ∈ w := by
  rw [strip, List.mem_reverse, mem_dropWhile hc, List.mem_reverse, mem_dropWhile hc]

/-! The matches of the first expression. -/

/-- The text up to a character that does not occur in it. -/
theorem append_cons_unique {c : Char} {x x' y y' : List Char} (hx : c ∉ x) (hx' : c ∉ x')
    (h : x ++ c :: y = x' ++ c :: y') : x = x' ∧ y = y' := by
  rcases List.append_eq_append_iff.mp h with ⟨bs, rfl, hrest⟩ | ⟨bs, rfl, hrest⟩
  · cases bs with
    | nil => exact ⟨(List.append_nil x).symm, (List.cons.inj hrest).2⟩
    | cons b bs =>
      obtain ⟨rfl, -⟩ := List.cons.inj hrest
      exact absurd (by simp) hx'
  · cases bs with
    | nil => exact ⟨List.append_nil x', (List.cons.inj hrest).2.symm⟩
    | cons b bs =>
      obtain ⟨rfl, -⟩ := List.cons.inj hrest
      exact absurd (by simp) hx

section Boxed
variable {w u v x y t a pre post : List Char} {o : Outcome Char}

theorem mem_boxed : o ∈ boxedExpr.outcomes w ↔ ∃ x y, w = boxedOpen ++ (x ++ '}' :: y) ∧ x ≠ [] ∧
    '}' ∉ x ∧ o = ⟨boxedOpen ++ (x ++ ['}']), y, some x⟩ := by
  refine ⟨?_, ?_⟩
  · intro h
    obtain ⟨o₁, h₁, o₂, h₂, rfl⟩ := mem_seq.mp h
    obtain ⟨o₃, h₃, o₄, h₄, rfl⟩ := mem_seq.mp h₂
    obtain ⟨htaken₁, rfl, hgroup₁⟩ := mem_literal.mp h₁
    obtain ⟨o₅, h₅, rfl⟩ := mem_group.mp h₃
    obtain ⟨hne, hsplit, hall, -⟩ := mem_plus.mp h₅
    obtain ⟨c, hc, hrest, htaken₄, hgroup₄⟩ := mem_one.mp h₄
    obtain rfl : c = '}' := by simpa using hc
    refine ⟨o₅.taken, o₄.rest, ?_, hne, fun hmem => by simpa using hall _ hmem, ?_⟩
    · rw [htaken₁, ← hsplit]
      exact congrArg (fun rest => boxedOpen ++ (o₅.taken ++ rest)) hrest
    · rw [htaken₁, htaken₄, hgroup₄]
      rfl
  · intro h
    obtain ⟨x, y, rfl, hne, hno, rfl⟩ := h
    refine mem_seq.mpr ⟨⟨boxedOpen, x ++ '}' :: y, none⟩, mem_literal.mpr ⟨rfl, rfl, rfl⟩,
      ⟨x ++ ['}'], y, some x⟩, mem_seq.mpr ⟨⟨x, '}' :: y, some x⟩, mem_group.mpr
        ⟨⟨x, '}' :: y, none⟩, mem_plus.mpr ⟨hne, rfl, ?_, rfl⟩, rfl⟩,
        ⟨['}'], y, none⟩, mem_one.mpr ⟨'}', by simp, rfl, rfl, rfl⟩, rfl⟩, rfl⟩
    intro c hc
    have hne' : c ≠ '}' := fun heq => hno (heq ▸ hc)
    simpa using hne'

theorem matchFront_boxed (hne : x ≠ []) (hno : '}' ∉ x) :
    boxedExpr.matchFront (boxedOpen ++ (x ++ '}' :: y)) =
      some ⟨boxedOpen ++ (x ++ ['}']), y, some x⟩ := by
  apply matchFront_eq (mem_boxed.mpr ⟨x, y, rfl, hne, hno, rfl⟩)
  intro o' ho'
  obtain ⟨x', y', hsplit, -, hno', rfl⟩ := mem_boxed.mp ho'
  obtain ⟨rfl, rfl⟩ := append_cons_unique hno hno' (List.append_cancel_left hsplit)
  rfl

theorem findall_boxed (hne : x ≠ []) (hno : '}' ∉ x) :
    boxedExpr.findall (boxedOpen ++ (x ++ '}' :: y)) = x :: boxedExpr.findall y :=
  findall_match (matchFront_boxed hne hno) (by simp [boxedOpen])

/-- No group contains the closing brace. -/
theorem no_close_of_mem_findall (h : x ∈ boxedExpr.findall w) : '}' ∉ x := by
  obtain ⟨u, v, o, -, ho, rfl⟩ := mem_findall h
  obtain ⟨x, y, -, -, hno, rfl⟩ := mem_boxed.mp ho
  exact hno

theorem findall_eq_nil (h : ¬ boxedOpen <:+: w) : boxedExpr.findall w = [] := by
  rw [List.eq_nil_iff_forall_not_mem]
  intro g hg
  obtain ⟨u, v, o, rfl, ho, -⟩ := mem_findall hg
  obtain ⟨x, y, rfl, -⟩ := mem_boxed.mp ho
  exact h ⟨u, x ++ '}' :: y, by simp⟩

/-- One step of the search, over a text `u` in front of one that begins with a backslash:
    a character is passed over, or a match ends in `u`, or one begins there and ends at the
    first closing brace behind it. -/
theorem boxed_step (hu : u ≠ []) (t : List Char) :
    boxedExpr.findall (u ++ '\\' :: t) = boxedExpr.findall (u.tail ++ '\\' :: t) ∨
    (∃ x u', u = boxedOpen ++ (x ++ '}' :: u') ∧
      boxedExpr.findall (u ++ '\\' :: t) = x :: boxedExpr.findall (u' ++ '\\' :: t)) ∨
    ∃ v x y, u = boxedOpen ++ v ∧ '}' ∉ v ∧ '\\' :: t = x ++ '}' :: y ∧ '}' ∉ x ∧
      boxedExpr.findall (u ++ '\\' :: t) = (v ++ x) :: boxedExpr.findall y := by
  by_cases hmatch : ∃ x y, u ++ '\\' :: t = boxedOpen ++ (x ++ '}' :: y) ∧ x ≠ [] ∧ '}' ∉ x
  · right
    obtain ⟨x, y, hsplit, hne, hno⟩ := hmatch
    have hfound : boxedExpr.findall (u ++ '\\' :: t) = x :: boxedExpr.findall y := by
      rw [hsplit]
      exact findall_boxed hne hno
    -- the whole of `\boxed{` stands in `u`, for it has a backslash at its front only
    obtain ⟨v, rfl, hrest⟩ : ∃ v, u = boxedOpen ++ v ∧ v ++ '\\' :: t = x ++ '}' :: y := by
      rcases List.append_eq_append_iff.mp hsplit with ⟨bs, hopen, hrest⟩ | ⟨v, hv, hrest⟩
      · cases bs with
        | nil => exact ⟨[], by simpa using hopen.symm, by simpa using hrest⟩
        | cons b bs =>
          obtain ⟨rfl, -⟩ := List.cons.inj hrest
          obtain ⟨c, u', rfl⟩ := List.exists_cons_of_ne_nil hu
          have hmem : '\\' ∈ boxedOpen.tail := by
            rw [hopen]
            simp
          exact absurd hmem (by decide)
      · exact ⟨v, hv, hrest.symm⟩
    rcases List.append_eq_append_iff.mp hrest with ⟨bs, rfl, hbehind⟩ | ⟨bs, rfl, hbehind⟩
    · right
      exact ⟨v, bs, y, rfl, fun hc => hno (List.mem_append_left _ hc), hbehind,
        fun hc => hno (List.mem_append_right _ hc), hfound⟩
    · cases bs with
      | nil => exact absurd (List.cons.inj hbehind).1 (by decide)
      | cons b bs =>
        left
        obtain ⟨rfl, rfl⟩ := List.cons.inj hbehind
        exact ⟨x, bs, rfl, hfound⟩
  · left
    obtain ⟨c, u', rfl⟩ := List.exists_cons_of_ne_nil hu
    apply findall_miss
    apply matchFront_eq_none
    intro o ho
    obtain ⟨x, y, hsplit, hne, hno, -⟩ := mem_boxed.mp ho
    exact hmatch ⟨x, y, hsplit, hne, hno⟩

/-- The search over a text in front of one that begins with a backslash: it comes to the
    end of the text, or a match begins in it at a `\boxed{` with no closing brace behind it
    and ends at the first closing brace of the other. -/
theorem boxed_run (t : List Char) : ∀ (n : Nat) {u : List Char}, u.length ≤ n →
    (∃ gs, boxedExpr.findall (u ++ '\\' :: t) = gs ++ boxedExpr.findall ('\\' :: t)) ∨
    ∃ gs u' v x y, u = u' ++ (boxedOpen ++ v) ∧ '}' ∉ v ∧ '\\' :: t = x ++ '}' :: y ∧ '}' ∉ x ∧
      boxedExpr.findall (u ++ '\\' :: t) = gs ++ (v ++ x) :: boxedExpr.findall y := by
  intro n
  induction n with
  | zero =>
    intro u hlen
    obtain rfl : u = [] := by simpa using hlen
    exact .inl ⟨[], rfl⟩
  | succ n ih =>
    intro u hlen
    by_cases hu : u = []
    · exact .inl ⟨[], by rw [hu]; rfl⟩
    · rcases boxed_step hu t with hpass | ⟨x, u', rfl, hfound⟩ | ⟨v, x, y, rfl, hv, hsplit, hno, hfound⟩
      · obtain ⟨c, u', rfl⟩ := List.exists_cons_of_ne_nil hu
        rw [hpass]
        rcases ih (u := u') (by simpa using hlen) with hend | ⟨gs, w, v, x, y, rfl, hrest⟩
        · exact .inl hend
        · exact .inr ⟨gs, c :: w, v, x, y, rfl, hrest⟩
      · have hlen' : u'.length ≤ n := by
          simp only [List.length_append, List.length_cons] at hlen
          omega
        rcases ih hlen' with ⟨gs, hgs⟩ | ⟨gs, w, v, x', y, rfl, hv, hsplit, hno, hgs⟩
        · exact .inl ⟨x :: gs, hfound.trans (congrArg (x :: ·) hgs)⟩
        · exact .inr ⟨x :: gs, boxedOpen ++ (x ++ '}' :: w), v, x', y, by simp, hv, hsplit, hno,
            hfound.trans (congrArg (x :: ·) hgs)⟩
      · exact .inr ⟨[], [], v, x, y, rfl, hv, hsplit, hno, hfound⟩

/-- There is a `\boxed{` in the text with no closing brace behind it. -/
def Unclosed (w : List Char) : Prop := ∃ u v, w = u ++ (boxedOpen ++ v) ∧ '}' ∉ v

/-- Behind a text in which nothing is left open the search starts afresh. -/
theorem findall_closed (t : List Char) (hclosed : ¬ Unclosed u) :
    ∃ gs, boxedExpr.findall (u ++ '\\' :: t) = gs ++ boxedExpr.findall ('\\' :: t) := by
  rcases boxed_run t u.length (le_refl _) with hend | ⟨-, u', v, -, -, rfl, hv, -⟩
  · exact hend
  · exact absurd ⟨u', v, rfl, hv⟩ hclosed

/-- A `\boxed{` that is open swallows the next one: the last group has an opening brace. -/
theorem findall_unclosed (hx : '}' ∉ x) (hopen : '{' ∈ x) (hpost : ¬ boxedOpen <:+: post)
    (u : List Char) :
    ∃ gs g, boxedExpr.findall (u ++ (boxedOpen ++ (x ++ '}' :: post))) = gs ++ [g] ∧ '{' ∈ g := by
  have hbase : boxedExpr.findall (boxedOpen ++ (x ++ '}' :: post)) = [x] := by
    rw [findall_boxed (List.ne_nil_of_mem hopen) hx, findall_eq_nil hpost]
  rcases boxed_run (['b', 'o', 'x', 'e', 'd', '{'] ++ (x ++ '}' :: post)) u.length (le_refl _) with
    ⟨gs, hgs⟩ | ⟨gs, -, v, x', y, -, hv, hsplit, hno, hfound⟩
  · exact ⟨gs, x, hgs.trans (congrArg (gs ++ ·) hbase), hopen⟩
  · -- the match runs over the next `\boxed{` to the brace behind it
    have hnext : '}' ∉ boxedOpen ++ x := by
      rw [List.mem_append, not_or]
      exact ⟨by decide, hx⟩
    have heq : (boxedOpen ++ x) ++ '}' :: post = x' ++ '}' :: y := by
      rw [List.append_assoc]
      exact hsplit
    obtain ⟨rfl, rfl⟩ := append_cons_unique hnext hno heq
    rw [findall_eq_nil hpost] at hfound
    exact ⟨gs, v ++ (boxedOpen ++ x), hfound, by simp [hopen]⟩

theorem extractAnswer_boxed (h : (boxedExpr.findall w).getLast? = some x) :
    extractAnswer w = some (strip x) := by
  rw [extractAnswer, h]

/-- Every opening brace of the text is closed in it, in its turn. -/
structure BalancedBraces (a : List Char) : Prop where
  never_below : ∀ u, u <+: a → u.count '}' ≤ u.count '{'
  closed : a.count '{' = a.count '}'

theorem balancedBraces_iff : BalancedBraces a ↔
    (∀ u ∈ a.inits, u.count '}' ≤ u.count '{') ∧ a.count '{' = a.count '}' := by
  refine ⟨fun h => ⟨?_, h.closed⟩, fun h => ⟨?_, h.2⟩⟩
  · intro u hu
    exact h.never_below u ((List.mem_inits u a).mp hu)
  · intro u hu
    exact h.1 u ((List.mem_inits u a).mpr hu)

instance (a : List Char) : Decidable (BalancedBraces a) := decidable_of_iff' _ balancedBraces_iff

theorem BalancedBraces.no_open (h : BalancedBraces a) (hno : '}' ∉ a) : '{' ∉ a := by
  rw [← List.count_eq_zero, h.closed, List.count_eq_zero]
  exact hno

/-- **The last boxed answer is found exactly if it has no braces and nothing before it is
    left open.** For all texts before and behind it, the latter without a `\boxed{`, and
    every balanced answer that is not blank. -/
theorem extractAnswer_iff (hbalanced : BalancedBraces a) (hblank : ∃ c ∈ a, isSpace c = false)
    (hpost : ¬ boxedOpen <:+: post) :
    extractAnswer (pre ++ boxedOpen ++ a ++ ['}'] ++ post) = some (strip a) ↔
      '}' ∉ a ∧ ¬ Unclosed pre := by
  obtain ⟨b, hb, hspace⟩ := hblank
  have hne : a ≠ [] := List.ne_nil_of_mem hb
  have htext : pre ++ boxedOpen ++ a ++ ['}'] ++ post = pre ++ (boxedOpen ++ (a ++ '}' :: post)) := by
    simp
  rw [htext]
  refine ⟨?_, ?_⟩
  · intro h
    -- the group that is scored has the characters of the answer, but for blanks
    have hlast : ∀ {g : List Char}, (boxedExpr.findall
        (pre ++ (boxedOpen ++ (a ++ '}' :: post)))).getLast? = some g →
        ∀ c, isSpace c = false → (c ∈ g ↔ c ∈ a) := by
      intro g hg c hc
      rw [extractAnswer_boxed hg, Option.some.injEq] at h
      rw [← mem_strip hc, h, mem_strip hc]
    have hclose : '}' ∉ a := by
      intro hmem
      obtain ⟨x, y, rfl, hno⟩ := List.eq_append_cons_of_mem hmem
      have hx : x ≠ [] := by
        intro hnil
        have hcount := hbalanced.never_below ['}'] ⟨y, by rw [hnil]; rfl⟩
        revert hcount
        decide
      have hfound : boxedExpr.findall
          (pre ++ (boxedOpen ++ ((x ++ '}' :: y) ++ '}' :: post))) ≠ [] := by
        apply findall_ne_nil (by simp [boxedOpen])
        rw [List.append_assoc, List.cons_append, matchFront_boxed hx hno]
        exact Option.some_ne_none _
      obtain ⟨g, hg⟩ := Option.ne_none_iff_exists'.mp (mt List.getLast?_eq_none_iff.mp hfound)
      exact no_close_of_mem_findall (List.mem_of_getLast? hg)
        ((hlast hg '}' (by decide)).mpr hmem)
    refine ⟨hclose, ?_⟩
    intro hopen
    obtain ⟨u, v, rfl, hv⟩ := hopen
    have hx : '}' ∉ v ++ (boxedOpen ++ a) := by
      simp only [List.mem_append, not_or]
      exact ⟨hv, by decide, hclose⟩
    obtain ⟨gs, g, hgs, hg⟩ := findall_unclosed hx
      (List.mem_append_right v (List.mem_append_left a (by decide))) hpost u
    have hgroup : (boxedExpr.findall
        (u ++ (boxedOpen ++ v) ++ (boxedOpen ++ (a ++ '}' :: post)))).getLast? = some g := by
      simp only [List.append_assoc] at hgs ⊢
      rw [hgs]
      simp
    exact hbalanced.no_open hclose ((hlast hgroup '{' (by decide)).mp hg)
  · intro h
    obtain ⟨hclose, hclosed⟩ := h
    obtain ⟨gs, hgs⟩ :=
      findall_closed (['b', 'o', 'x', 'e', 'd', '{'] ++ (a ++ '}' :: post)) hclosed
    apply extractAnswer_boxed
    have hfound : boxedExpr.findall (pre ++ (boxedOpen ++ (a ++ '}' :: post))) = gs ++ [a] := by
      rw [← findall_eq_nil hpost, ← findall_boxed hne hclose]
      exact hgs
    rw [hfound]
    simp

end Boxed

/-- `\frac{1}{2}` -/
def oneHalf : List Char := ['\\', 'f', 'r', 'a', 'c', '{', '1', '}', '{', '2', '}']

/-- A fraction is cut at its first closing brace: `\frac{1` is scored. -/
theorem oneHalf_cut :
    BalancedBraces oneHalf ∧ (∃ c ∈ oneHalf, isSpace c = false) ∧ ¬ boxedOpen <:+: [] ∧
    extractAnswer ([] ++ boxedOpen ++ oneHalf ++ ['}'] ++ []) =
      some ['\\', 'f', 'r', 'a', 'c', '{', '1'] ∧
    extractAnswer ([] ++ boxedOpen ++ oneHalf ++ ['}'] ++ []) ≠ some (strip oneHalf) :=
  ⟨by decide, ⟨'\\', by decide, by decide⟩, by decide, by decide, by decide⟩

/-- An open `\boxed{` takes the text up to the next brace with it. -/
example : extractAnswer (boxedOpen ++ boxedOpen ++ ['7'] ++ ['}'] ++ []) =
    some (boxedOpen ++ ['7']) := by decide

theorem extractAnswer_iff_seven :
    BalancedBraces ['7'] ∧ (∃ c ∈ ['7'], isSpace c = false) ∧ ¬ boxedOpen <:+: [' '] ∧
    (extractAnswer (boxedOpen ++ ['3', '}'] ++ boxedOpen ++ ['7'] ++ ['}'] ++ [' ']) =
        some (strip ['7']) ↔
      '}' ∉ ['7'] ∧ ¬ Unclosed (boxedOpen ++ ['3', '}'])) := by
  have hbalanced : BalancedBraces ['7'] := by decide
  exact ⟨hbalanced, ⟨'7', by decide, by decide⟩, by decide,
    extractAnswer_iff hbalanced ⟨'7', by decide, by decide⟩ (by decide)⟩

end PGI
