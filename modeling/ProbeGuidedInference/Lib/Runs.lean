import Mathlib.Data.List.Induction
import ProbeGuidedInference.Lib.Fallible

/- Runs of a machine that reads inputs one at a time and may raise. `run` folds the
   step function over a list of inputs; `Visits` are the states of a run, one after
   each prefix of its inputs, and `Reads` pairs such a state with the input read
   there. The rules below package the inductions over runs:

     `run_inputs`             what every step preserves, of the inputs read and the state;
     `run_invariant`          what every step preserves holds of what a run reaches;
     `run_total`              a machine that cannot raise under an invariant runs on;
     `forall_visits_iff`      a property of all visited states as a condition on the
                              inputs read, when each step settles it locally;
     `run_replicate_drains`   a potential that falls until the machine is idle bounds
                              the number of steps to idleness;
     `run_replicate_idle`     so it does for a machine that may raise, if it has not;
     `run_skipping`           inputs that a machine skips may be left out;
     `run_settles`            a potential that one input lowers and no other raises, until
                              something is settled, bounds how often that input is read;
     `emitted_append`         what a run puts out is put out piece by piece. -/
namespace Runs
open Fallible

variable {S E X : Type} (step : S → E → Except X S)

/-- Read the inputs in order, from `s`. -/
def run (s : S) (es : List E) : Except X S := es.foldlM step s

/-- `t` is the state of the run of `es` from `s` after some prefix of `es`. -/
def Visits (s : S) (es : List E) (t : S) : Prop :=
  ∃ pre post, es = pre ++ post ∧ run step s pre = .ok t

/-- The run of `es` from `s` reads `e` in state `t`. -/
def Reads (s : S) (es : List E) (t : S) (e : E) : Prop :=
  ∃ pre post, es = pre ++ e :: post ∧ run step s pre = .ok t

/-- What is read off the states of the run of `es` from `s` and the inputs read there. -/
def emitted {O : Type} (out : S → E → List O) : S → List E → List O
  | _, [] => []
  | s, e :: es => out s e ++ match step s e with
    | .ok t => emitted out t es
    | .error _ => []

variable {step}
variable {s t u : S} {e : E} {es pre post : List E}

@[simp] theorem run_nil : run step s [] = .ok s := rfl

theorem run_cons : run step s (e :: es) = step s e >>= fun t => run step t es :=
  List.foldlM_cons ..

theorem run_append : run step s (pre ++ post) = run step s pre >>= fun t => run step t post :=
  List.foldlM_append ..

theorem run_append_ok :
    run step s (pre ++ post) = .ok u ↔ ∃ t, run step s pre = .ok t ∧ run step t post = .ok u := by
  rw [run_append, bind_eq_ok]

theorem run_snoc : run step s (es ++ [e]) = run step s es >>= fun t => step t e := by
  rw [run_append]
  congr 1
  funext t
  rw [run_cons]
  exact bind_pure (step t e)

theorem run_snoc_ok :
    run step s (es ++ [e]) = .ok u ↔ ∃ t, run step s es = .ok t ∧ step t e = .ok u := by
  rw [run_snoc, bind_eq_ok]

theorem Visits.last (h : run step s es = .ok t) : Visits step s es t := ⟨es, [], by simp, h⟩

theorem Reads.visits (h : Reads step s es t e) : Visits step s es t := by
  obtain ⟨pre, post, rfl, hp⟩ := h
  exact ⟨pre, e :: post, rfl, hp⟩

/-- A relation between the inputs read and the state they lead to, from step to step. -/
theorem run_inputs {I : List E → S → Prop} (hs : I [] s)
    (hstep : ∀ pre t e t', run step s pre = .ok t → I pre t → step t e = .ok t' → I (pre ++ [e]) t')
    (hrun : run step s es = .ok t) : I es t := by
  induction es using List.reverseRecOn generalizing t with
  | nil =>
    have : s = t := by simpa using hrun
    exact this ▸ hs
  | append_singleton pre e ih =>
    obtain ⟨v, hv, hvt⟩ := run_snoc_ok.mp hrun
    exact hstep pre v e t hv (ih hv) hvt

/-- What every step preserves holds of the state a run reaches. -/
theorem run_invariant {I : S → Prop} (hstep : ∀ s e s', I s → step s e = .ok s' → I s')
    (hs : I s) (hrun : run step s es = .ok t) : I t := by
  induction es generalizing s with
  | nil =>
    have : s = t := by simpa using hrun
    exact this ▸ hs
  | cons e es ih =>
    rw [run_cons, bind_eq_ok] at hrun
    obtain ⟨s', hs', hrun⟩ := hrun
    exact ih (hstep s e s' hs hs') hrun

/-- Under an invariant that excludes raising, every run returns. -/
theorem run_total {I : S → Prop} (hstep : ∀ s e, I s → ∃ s', step s e = .ok s' ∧ I s')
    (hs : I s) : ∃ t, run step s es = .ok t ∧ I t := by
  induction es generalizing s with
  | nil => exact ⟨s, rfl, hs⟩
  | cons e es ih =>
    obtain ⟨s', hs', hI⟩ := hstep s e hs
    obtain ⟨t, ht, hIt⟩ := ih hI
    exact ⟨t, by rw [run_cons, hs']; exact ht, hIt⟩

/-- Where each step from a state with `P` re-establishes `P` exactly when its input
    meets `Q`, all states of a run have `P` exactly when all inputs it reads meet `Q`. -/
theorem forall_visits_iff {P : S → Prop} {Q : S → E → Prop} (hs : P s)
    (hstep : ∀ t e t', Visits step s es t → P t → step t e = .ok t' → (P t' ↔ Q t e))
    (hrun : run step s es = .ok u) :
    (∀ t, Visits step s es t → P t) ↔ ∀ t e, Reads step s es t e → Q t e := by
  refine ⟨?_, ?_⟩
  · intro hP t e hr
    obtain ⟨pre, post, hes, hp⟩ := hr
    subst hes
    obtain ⟨t', ht', hrest⟩ := run_append_ok.mp hrun
    have htt : t = t' := by simpa using hp.symm.trans ht'
    subst htt
    rw [run_cons, bind_eq_ok] at hrest
    obtain ⟨v, hv, -⟩ := hrest
    have hvis : Visits step s (pre ++ e :: post) v :=
      ⟨pre ++ [e], post, by simp, run_snoc_ok.mpr ⟨t, hp, hv⟩⟩
    exact (hstep t e v ⟨pre, e :: post, rfl, hp⟩ (hP t ⟨pre, _, rfl, hp⟩) hv).mp (hP v hvis)
  · intro hQ t ht
    obtain ⟨pre, post, hes, hp⟩ := ht
    -- induction on the prefix read so far, from its last input
    induction pre using List.reverseRecOn generalizing post t with
    | nil =>
      have : s = t := by simpa using hp
      exact this ▸ hs
    | append_singleton pre e ih =>
      obtain ⟨v, hv, hvt⟩ := run_snoc_ok.mp hp
      have hPv : P v := ih v (e :: post) (by simp [hes]) hv
      have hr : Reads step s es v e := ⟨pre, post, by simp [hes], hv⟩
      exact (hstep v e t hr.visits hPv hvt).mpr (hQ v e hr)

/-- If reading `e` lowers the potential `V` until the machine is idle, and keeps it
    idle from then on, `V s` readings make it idle. -/
theorem run_replicate_drains {I idle : S → Prop} {V : S → Nat} {e : E}
    (hwork : ∀ s, I s → ¬ idle s → ∃ s', step s e = .ok s' ∧ I s' ∧ V s' < V s)
    (hidle : ∀ s, I s → idle s → ∃ s', step s e = .ok s' ∧ I s' ∧ idle s')
    {n : Nat} (hs : I s) (hn : idle s ∨ V s ≤ n) :
    ∃ t, run step s (List.replicate n e) = .ok t ∧ I t ∧ idle t := by
  induction n generalizing s with
  | zero =>
    refine ⟨s, rfl, hs, ?_⟩
    rcases hn with h | h
    · exact h
    · by_contra hne
      obtain ⟨s', -, -, hlt⟩ := hwork s hs hne
      omega
  | succ n ih =>
    rw [List.replicate_succ]
    by_cases hi : idle s
    · obtain ⟨s', hs', hI, hi'⟩ := hidle s hs hi
      obtain ⟨t, ht, hIt, hit⟩ := ih hI (.inl hi')
      exact ⟨t, by rw [run_cons, hs']; exact ht, hIt, hit⟩
    · obtain ⟨s', hs', hI, hlt⟩ := hwork s hs hi
      have hV : V s ≤ n + 1 := hn.resolve_left hi
      obtain ⟨t, ht, hIt, hit⟩ := ih hI (.inr (by omega))
      exact ⟨t, by rw [run_cons, hs']; exact ht, hIt, hit⟩

/-- A machine that skips some of its inputs runs on the others. -/
theorem run_skipping {p : E → Bool} :
    run (fun s e => if p e then step s e else .ok s) s es = run step s (es.filter p) := by
  induction es generalizing s with
  | nil => rfl
  | cons e es ih =>
    rw [run_cons, List.filter_cons]
    split
    · rw [run_cons]
      congr 1
      funext t
      exact ih
    · exact ih

/-- As many readings as the potential `V` says have made the machine idle, if it got through
    them. -/
theorem run_replicate_idle {I idle : S → Prop} {V : S → Nat} {e : E}
    (hpos : ∀ s, I s → V s = 0 → idle s)
    (hwork : ∀ s s', I s → ¬ idle s → step s e = .ok s' → I s' ∧ V s' < V s)
    (hidle : ∀ s s', I s → idle s → step s e = .ok s' → I s' ∧ idle s')
    {n : Nat} (hs : I s) (hn : idle s ∨ V s ≤ n)
    (hrun : run step s (List.replicate n e) = .ok t) : I t ∧ idle t := by
  induction n generalizing s with
  | zero =>
    obtain rfl : s = t := by simpa using hrun
    refine ⟨hs, ?_⟩
    rcases hn with h | h
    · exact h
    · exact hpos s hs (by omega)
  | succ n ih =>
    rw [List.replicate_succ, run_cons, bind_eq_ok] at hrun
    obtain ⟨s', hs', hrun⟩ := hrun
    by_cases hi : idle s
    · obtain ⟨hI, hi'⟩ := hidle s s' hs hi hs'
      exact ih hI (.inl hi') hrun
    · obtain ⟨hI, hlt⟩ := hwork s s' hs hi hs'
      have hV : V s ≤ n + 1 := hn.resolve_left hi
      exact ih hI (.inr (by omega)) hrun

/-- Until `P`, which stays, every reading of `e` is paid for by the potential, and the other
    inputs do not raise it. -/
theorem run_settles [DecidableEq E] {I P : S → Prop} {V : S → Nat} {e : E}
    (hstep : ∀ s i s', I s → step s i = .ok s' → I s')
    (hstay : ∀ s i s', I s → P s → step s i = .ok s' → P s')
    (hpay : ∀ s i s', I s → ¬ P s → step s i = .ok s' →
      P s' ∨ V s' + (if i = e then 1 else 0) ≤ V s)
    (hs : I s) (hrun : run step s es = .ok t) : I t ∧ (P t ∨ V t + es.count e ≤ V s) := by
  induction es using List.reverseRecOn generalizing t with
  | nil =>
    obtain rfl : s = t := by simpa using hrun
    exact ⟨hs, .inr (Nat.le_refl _)⟩
  | append_singleton es i ih =>
    obtain ⟨u, hu, hut⟩ := run_snoc_ok.mp hrun
    obtain ⟨hI, hbefore⟩ := ih hu
    refine ⟨hstep u i t hI hut, ?_⟩
    by_cases hset : P u
    · exact .inl (hstay u i t hI hset hut)
    · have hle := hbefore.resolve_left hset
      apply (hpay u i t hI hset hut).imp_right
      intro hlower
      rw [List.count_append, List.count_singleton]
      by_cases hi : i = e
      · simp only [hi, if_true, beq_self_eq_true] at hlower ⊢
        omega
      · simp only [hi, if_false, beq_eq_false_iff_ne.mpr hi, Bool.false_eq_true] at hlower ⊢
        omega

section Emitted
variable {O : Type} {out : S → E → List O}

theorem emitted_append (h : run step s pre = .ok t) :
    emitted step out s (pre ++ post) = emitted step out s pre ++ emitted step out t post := by
  induction pre generalizing s with
  | nil =>
    obtain rfl : s = t := by simpa using h
    rfl
  | cons e pre ih =>
    rw [run_cons, bind_eq_ok] at h
    obtain ⟨s', hs', hrest⟩ := h
    rw [List.cons_append, emitted, emitted, hs', List.append_assoc]
    exact congrArg (out s e ++ ·) (ih hrest)

theorem emitted_snoc (h : run step s es = .ok t) :
    emitted step out s (es ++ [e]) = emitted step out s es ++ out t e := by
  rw [emitted_append h]
  congr 1
  rw [emitted]
  cases step t e with
  | ok u => exact List.append_nil (out t e)
  | error x => exact List.append_nil (out t e)

/-- A run puts nothing out on inputs that put nothing out. -/
theorem emitted_eq_nil (h : ∀ e ∈ es, ∀ s, out s e = []) : emitted step out s es = [] := by
  induction es generalizing s with
  | nil => rfl
  | cons e es ih =>
    rw [emitted, h e List.mem_cons_self s, List.nil_append]
    cases step s e with
    | ok t => exact ih (fun x hx => h x (List.mem_cons_of_mem e hx))
    | error x => rfl

end Emitted

end Runs
