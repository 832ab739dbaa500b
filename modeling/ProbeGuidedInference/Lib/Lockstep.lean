import ProbeGuidedInference.Lib.Runs

/- Two programs in lock step. `Alike E R` relates two computations that end the same way:
   both return answers related by `R`, or both raise exceptions related by `E`. It is kept
   by sequencing (`Alike.bind`) and by runs (`run_alike`): two machines whose steps are
   alike from related states, on the inputs they read, have alike runs. -/
namespace Lockstep
open Fallible Runs

universe u v w x
variable {ε : Type u} {δ : Type v} {α : Type w} {β : Type x}

inductive Alike (E : ε → δ → Prop) (R : α → β → Prop) : Except ε α → Except δ β → Prop
  | ok {a : α} {b : β} (h : R a b) : Alike E R (.ok a) (.ok b)
  | error {e : ε} {d : δ} (h : E e d) : Alike E R (.error e) (.error d)

section Sequence
variable {E : ε → δ → Prop} {R : α → β → Prop} {x : Except ε α} {y : Except δ β}

/-- What the answers of the two sides have to satisfy may depend on where they come from. -/
theorem Alike.bind {α' : Type w} {β' : Type x} {R' : α' → β' → Prop} {f : α → Except ε α'}
    {g : β → Except δ β'} (h : Alike E R x y)
    (hnext : ∀ a b, x = .ok a → y = .ok b → R a b → Alike E R' (f a) (g b)) :
    Alike E R' (x >>= f) (y >>= g) := by
  cases h with
  | ok h => exact hnext _ _ rfl rfl h
  | error h => exact .error h

/-- The same exception, re-labelled. -/
theorem Alike.mapError {ε' : Type u} {x : Except ε α} {y : Except ε β} {f : ε → ε'}
    (h : Alike Eq R x y) : Alike Eq R (x.mapError f) (y.mapError f) := by
  cases h with
  | ok h => exact .ok h
  | error h => exact .error (congrArg f h)

end Sequence

/-- The same exception, raised in related states. -/
def Raised {S T : Type} (R : S → T → Prop) (x : ε × S) (y : ε × T) : Prop :=
  x.1 = y.1 ∧ R x.2 y.2

section Run
variable {S T I X Y : Type} {step : S → I → Except X S} {step' : T → I → Except Y T}
  {E : X → Y → Prop} {R : S → T → Prop} {s₀ : S} {t₀ : T}

/-- **The lock-step rule.** -/
theorem run_alike {es : List I} (h₀ : R s₀ t₀)
    (hstep : ∀ pre e post s t, es = pre ++ e :: post → run step s₀ pre = .ok s →
      run step' t₀ pre = .ok t → R s t → Alike E R (step s e) (step' t e)) :
    Alike E R (run step s₀ es) (run step' t₀ es) := by
  induction es using List.reverseRecOn with
  | nil => exact .ok h₀
  | append_singleton es e ih =>
    have hbefore : Alike E R (run step s₀ es) (run step' t₀ es) := by
      apply ih
      intro pre e' post s t hes
      exact hstep pre e' (post ++ [e]) s t (by simp [hes])
    rw [run_snoc, run_snoc]
    apply hbefore.bind
    intro s t hs ht hR
    exact hstep es e [] s t rfl hs ht hR

end Run

section Order
variable {S T I : Type} {f : S → I → S} {g : T → I → T}

/-- The same steps, taken side by side. -/
theorem foldl_related {R : S → T → Prop} (hstep : ∀ s t i, R s t → R (f s i) (g t i)) :
    ∀ (is : List I) {s : S} {t : T}, R s t → R (is.foldl f s) (is.foldl g t) := by
  intro is
  induction is with
  | nil => exact fun h => h
  | cons i is ih => exact fun h => ih (hstep _ _ i h)

/-- **The order does not matter** where it does not matter for two steps. -/
theorem foldl_perm {R : S → S → Prop} (hR : Equivalence R)
    (hstep : ∀ s t i, R s t → R (f s i) (f t i)) (hswap : ∀ s i j, R (f (f s i) j) (f (f s j) i))
    {is js : List I} (h : is.Perm js) : ∀ s, R (is.foldl f s) (js.foldl f s) := by
  induction h with
  | nil => exact fun s => hR.refl s
  | cons i _ ih => exact fun s => ih (f s i)
  | swap i j is => exact fun s => foldl_related hstep is (hswap s j i)
  | trans _ _ ih ih' => exact fun s => hR.trans (ih s) (ih' s)

end Order

end Lockstep
