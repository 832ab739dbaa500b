import Mathlib.Order.MinMax
import ProbeGuidedInference.Lib.Fallible

/- What the modelled code can raise. A Python exception leaves every object as it was
   at the raise, so a function that mutates state returns, on an error, the error
   together with the state at that point: `Except (PyError × S) S`. -/
namespace PGI

/-- The exceptions of the modelled code. `keyError` carries the key that a dict lookup
    did not find; `modelError` is whatever the third-party model's forward raises. -/
inductive PyError where
  | keyError (key : Nat)
  | indexError
  | valueError (msg : String)
  | runtimeError (msg : String)
  | modelError (msg : String)
  deriving DecidableEq, Repr

/-- `d[key]` on a dict: the value, or a `KeyError`. -/
def lookup {α : Type} (d : Nat → Option α) (key : Nat) : Except PyError α :=
  match d key with
  | some a => .ok a
  | none => .error (.keyError key)

/-- `xs[i]` on a sequence, for an index counted from the left. -/
def index {α : Type} (xs : List α) (i : Nat) : Except PyError α :=
  match xs[i]? with
  | some a => .ok a
  | none => .error .indexError

/-- `xs[-1]` on a sequence. -/
def lastOf {α : Type} (xs : List α) : Except PyError α :=
  match xs.getLast? with
  | some a => .ok a
  | none => .error .indexError

/-- `max(xs)` on a sequence of ints. -/
def pyMax : List Nat → Except PyError Nat
  | [] => .error (.valueError "max() arg is an empty sequence")
  | x :: xs => .ok (xs.foldl max x)

/-- A raise inside a function that has mutated the state to `s`. -/
def raising {S α : Type} (s : S) (x : Except PyError α) : Except (PyError × S) α :=
  x.mapError (fun e => (e, s))

theorem lookup_eq_ok {α : Type} {d : Nat → Option α} {key : Nat} {a : α} :
    lookup d key = .ok a ↔ d key = some a := by
  unfold lookup
  cases d key <;> simp

theorem index_eq_ok {α : Type} {xs : List α} {i : Nat} {a : α} :
    index xs i = .ok a ↔ xs[i]? = some a := by
  unfold index
  cases xs[i]? <;> simp

theorem lastOf_eq_ok {α : Type} {xs : List α} {a : α} :
    lastOf xs = .ok a ↔ xs.getLast? = some a := by
  unfold lastOf
  cases xs.getLast? <;> simp

theorem raising_eq_ok {S α : Type} {s : S} {x : Except PyError α} {a : α} :
    raising s x = .ok a ↔ x = .ok a := Fallible.mapError_eq_ok

theorem raising_eq_error {S α : Type} {s t : S} {x : Except PyError α} {e : PyError} :
    raising s x = .error (e, t) ↔ x = .error e ∧ t = s := by
  unfold raising
  rw [Fallible.mapError_eq_error]
  refine ⟨?_, ?_⟩
  · intro h
    obtain ⟨e', rfl, heq⟩ := h
    obtain ⟨rfl, rfl⟩ := Prod.mk.inj heq
    exact ⟨rfl, rfl⟩
  · intro h
    obtain ⟨rfl, rfl⟩ := h
    exact ⟨e, rfl, rfl⟩

theorem le_foldl_max (xs : List Nat) (x : Nat) : x ≤ xs.foldl max x ∧ ∀ y ∈ xs, y ≤ xs.foldl max x := by
  induction xs generalizing x with
  | nil => simp
  | cons z xs ih =>
    obtain ⟨hx, hxs⟩ := ih (max x z)
    simp only [List.foldl_cons]
    refine ⟨le_trans (le_max_left x z) hx, ?_⟩
    intro y hy
    rcases List.mem_cons.mp hy with rfl | hy
    · exact le_trans (le_max_right x y) hx
    · exact hxs y hy

theorem pyMax_ok {xs : List Nat} (h : xs ≠ []) : ∃ m, pyMax xs = .ok m ∧ ∀ y ∈ xs, y ≤ m := by
  cases xs with
  | nil => exact absurd rfl h
  | cons x xs =>
    obtain ⟨hx, hxs⟩ := le_foldl_max xs x
    refine ⟨_, rfl, ?_⟩
    intro y hy
    rcases List.mem_cons.mp hy with rfl | hy
    · exact hx
    · exact hxs y hy

end PGI
