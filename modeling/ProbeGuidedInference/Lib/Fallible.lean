import Mathlib.Data.List.Basic

/- Computations that may raise. `Except ε α` is a computation that returns an
   `α` or raises an `ε`; the lemmas here peel such a computation apart (`bind_eq_ok`
   and `bind_eq_error` say when a sequence of two returns and when it raises), run one
   over a list (`mapM_ok`, when no element raises), and read the answer back element by
   element (`mapM_forall₂`). Where an exception carries the state at the raise, `final`
   is the state at the end of a computation that returns or raises one. -/
namespace Fallible

universe u v
variable {ε : Type u} {α β : Type v}

/-- A sequence returns `b` exactly when its first part returns some `a` and its
    second part, given `a`, returns `b`. -/
theorem bind_eq_ok {x : Except ε α} {f : α → Except ε β} {b : β} :
    (x >>= f) = .ok b ↔ ∃ a, x = .ok a ∧ f a = .ok b := by
  cases x with
  | error e => simp [bind, Except.bind]
  | ok a => simp [bind, Except.bind]

/-- It raises exactly when one of its parts does. -/
theorem bind_eq_error {x : Except ε α} {f : α → Except ε β} {e : ε} :
    (x >>= f) = .error e ↔ x = .error e ∨ ∃ a, x = .ok a ∧ f a = .error e := by
  cases x with
  | error e' => simp [bind, Except.bind]
  | ok a => simp [bind, Except.bind]

@[simp] theorem ok_bind (a : α) (f : α → Except ε β) : ((Except.ok a : Except ε α) >>= f) = f a := rfl

@[simp] theorem error_bind (e : ε) (f : α → Except ε β) :
    ((Except.error e : Except ε α) >>= f) = .error e := rfl

@[simp] theorem pure_eq_ok (a : α) : (pure a : Except ε α) = .ok a := rfl

/-- A map over a list whose elements do not raise returns the mapped list. -/
theorem mapM_ok {f : α → Except ε β} {g : α → β} {l : List α}
    (h : ∀ a ∈ l, f a = .ok (g a)) : l.mapM f = .ok (l.map g) := by
  induction l with
  | nil => rfl
  | cons a l ih =>
    have hl : l.mapM f = .ok (l.map g) := ih (fun x hx => h x (List.mem_cons_of_mem a hx))
    rw [List.mapM_cons, h a List.mem_cons_self, ok_bind, hl]
    rfl

/-- What a map that returns has done to each element, in order. -/
theorem mapM_forall₂ {f : α → Except ε β} {l : List α} {bs : List β}
    (h : l.mapM f = .ok bs) : List.Forall₂ (fun a b => f a = .ok b) l bs := by
  induction l generalizing bs with
  | nil =>
    have : bs = [] := by simpa using h.symm
    subst this
    exact .nil
  | cons a l ih =>
    rw [List.mapM_cons, bind_eq_ok] at h
    obtain ⟨b, hb, h⟩ := h
    obtain ⟨bs', hbs', h⟩ := bind_eq_ok.mp h
    have : bs = b :: bs' := by simpa using h.symm
    subst this
    exact .cons hb (ih hbs')

/-- A raised error re-labelled is raised exactly when the computation raises, and
    what is returned is not touched. -/
@[simp] theorem mapError_ok {δ : Type u} (g : ε → δ) (a : α) :
    (Except.ok a : Except ε α).mapError g = .ok a := rfl

theorem mapError_eq_ok {δ : Type u} {g : ε → δ} {x : Except ε α} {a : α} :
    x.mapError g = .ok a ↔ x = .ok a := by
  cases x <;> simp [Except.mapError]

theorem mapError_eq_error {δ : Type u} {g : ε → δ} {x : Except ε α} {e : δ} :
    x.mapError g = .error e ↔ ∃ e', x = .error e' ∧ g e' = e := by
  cases x <;> simp [Except.mapError]

/-- The state in which a computation ends, returning it or raising in it. -/
def final {S : Type v} : Except (ε × S) S → S
  | .ok s => s
  | .error (_, s) => s

@[simp] theorem final_ok {S : Type v} (s : S) : final (.ok s : Except (ε × S) S) = s := rfl

@[simp] theorem final_error {S : Type v} (e : ε) (s : S) :
    final (.error (e, s) : Except (ε × S) S) = s := rfl

/-- A sequence ends where its first part raises, or where its second part ends. -/
theorem final_bind {S : Type v} {P : S → Prop} {x : Except (ε × S) S} {f : S → Except (ε × S) S}
    (hx : P (final x)) (hf : ∀ s, x = .ok s → P (final (f s))) : P (final (x >>= f)) := by
  cases x with
  | error e => exact hx
  | ok s => exact hf s rfl

/-- What can be read off a computation's answer can be read off what it returned. -/
theorem toOption_map_eq_some {x : Except ε α} {f : α → β} {b : β} :
    x.toOption.map f = some b ↔ ∃ a, x = .ok a ∧ f a = b := by
  cases x <;> simp [Except.toOption]

/-- The state at the raise of a computation that raises. -/
def raisedIn {S : Type v} : Except (ε × S) α → Option S
  | .ok _ => none
  | .error (_, s) => some s

theorem raisedIn_map_eq_some {S : Type v} {x : Except (ε × S) α} {f : S → β} {b : β} :
    (raisedIn x).map f = some b ↔ ∃ e s, x = .error (e, s) ∧ f s = b := by
  cases x with
  | ok a => simp [raisedIn]
  | error p => simp [raisedIn, Prod.ext_iff]

end Fallible
