import Mathlib.Data.List.Basic

/- Left padding, attention masks and right trims of rows. A row is padded on the left
   up to a common length, a 0/1 mask selects the entries that are not padding, and the
   last entries of the row are cut back off. `select_padLeft` and `takeRight_padLeft`
   say that both ways out of the padded row give back the row that went in. -/
namespace Padding

variable {α : Type}

/-- `l` padded on the left with copies of `z` up to length `n`. -/
def padLeft (z : α) (n : Nat) (l : List α) : List α := List.replicate (n - l.length) z ++ l

/-- The entries of `l` whose mask entry is 1, in order. -/
def select (l : List α) (mask : List Nat) : List α :=
  ((l.zip mask).filter (fun p => p.2 = 1)).map Prod.fst

/-- The last `n` entries of `l` (all of `l` when it is shorter). -/
def takeRight (n : Nat) (l : List α) : List α := l.drop (l.length - n)

/-- The mask of length `n` that is 0 before position `a` and 1 from there on. -/
def maskFrom (n a : Nat) : List Nat := (List.range n).map (fun j => if a ≤ j then 1 else 0)

theorem padLeft_length {z : α} {n : Nat} {l : List α} (h : l.length ≤ n) :
    (padLeft z n l).length = n := by
  simp [padLeft]; omega

theorem padLeft_full (z : α) {n : Nat} {l : List α} (h : n ≤ l.length) : padLeft z n l = l := by
  simp [padLeft, Nat.sub_eq_zero_of_le h]

@[simp] theorem maskFrom_length (n a : Nat) : (maskFrom n a).length = n := by simp [maskFrom]

theorem maskFrom_getElem? {n a j : Nat} (hj : j < n) :
    (maskFrom n a)[j]? = some (if a ≤ j then 1 else 0) := by
  simp [maskFrom, hj]

theorem maskFrom_eq {n a : Nat} (h : a ≤ n) :
    maskFrom n a = List.replicate a 0 ++ List.replicate (n - a) 1 := by
  apply List.ext_getElem
  · simp; omega
  · intro j h₁ h₂
    rw [List.getElem_append]
    by_cases hj : j < a
    · have : ¬ a ≤ j := by omega
      simp [maskFrom, hj, this]
    · have : a ≤ j := by omega
      simp [maskFrom, hj, this]

theorem select_zeros (l : List α) (k : Nat) : select l (List.replicate k 0) = [] := by
  induction l generalizing k with
  | nil => simp [select]
  | cons a l ih =>
    cases k with
    | zero => simp [select]
    | succ k =>
      have := ih k
      simp only [select] at this ⊢
      simpa [List.replicate_succ] using this

theorem select_ones {l : List α} {k : Nat} (h : l.length ≤ k) :
    select l (List.replicate k 1) = l := by
  induction l generalizing k with
  | nil => simp [select]
  | cons a l ih =>
    cases k with
    | zero => simp at h
    | succ k =>
      have := ih (k := k) (by simpa using h)
      simp only [select] at this ⊢
      simpa [List.replicate_succ] using this

theorem select_append {l₁ l₂ : List α} {m₁ m₂ : List Nat} (h : l₁.length = m₁.length) :
    select (l₁ ++ l₂) (m₁ ++ m₂) = select l₁ m₁ ++ select l₂ m₂ := by
  simp [select, List.zip_append h]

/-- The mask that starts where the padding ends selects exactly the padded row. -/
theorem select_padLeft (z : α) {n m : Nat} {l : List α} (h : l.length ≤ n) (hm : n ≤ m) :
    select (padLeft z n l) (maskFrom m (n - l.length)) = l := by
  rw [maskFrom_eq (by omega), padLeft, select_append (by simp), select_zeros,
    select_ones (by omega)]
  rfl

/-- Trimming a padded row that has grown by one entry gives the row and that entry. -/
theorem takeRight_padLeft (z a : α) {n : Nat} {l : List α} :
    takeRight (l.length + 1) (padLeft z n l ++ [a]) = l ++ [a] := by
  have hlen : (padLeft z n l ++ [a]).length - (l.length + 1) = n - l.length := by
    simp [padLeft]
  rw [takeRight, hlen, padLeft, List.append_assoc]
  exact List.drop_left' (by simp)

end Padding
