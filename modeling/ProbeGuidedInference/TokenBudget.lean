import ProbeGuidedInference.TableModel

/- How many tokens a request may get. `run_prefill` appends the first token before it
   looks at the limit, so an admitted request has one token whatever it asked for; each
   later token is appended to a request that was below its limit. -/
namespace PGI

variable {Col : Type}

/-- As many tokens as it asked for and the cap allows, but one in any case. -/
def WithinBudget (cfg : Config Col) (r : GenerationRequest) : Prop :=
  (r.nGenerated : Int) ≤ max 1 (min r.maxTokens cfg.maxTokensCap)

section OneRequest
variable {cfg : Config Col} {rid : Nat} {v : View Col}

theorem withinBudget_of_le_one {r : GenerationRequest} (h : r.nGenerated ≤ 1) :
    WithinBudget cfg r := by
  unfold WithinBudget
  omega

/-- The first token is the only one after an admission. -/
theorem withinBudget_prefill (hinv : LifeInv cfg v) (hloc : v.loc = .pending) (waiting : List Int)
    (out : PrefillOut Col cfg.model.nLayers v.req.promptIds.length) :
    WithinBudget cfg (v.prefill cfg rid waiting out).req := by
  obtain ⟨-, -, hgen, -⟩ := hinv.waiting hloc
  apply withinBudget_of_le_one
  simp [GenerationRequest.nGenerated, hgen]

/-- A decode adds one token to a request that was below its limit. -/
theorem withinBudget_advance (hinv : LifeInv cfg v) (hloc : v.loc = .active) {L : Nat}
    (cols : Fin L → List Col × List Col) (row : ForwardRow Col L) (answer : Answer) :
    WithinBudget cfg (v.advance cfg rid cols row answer).req := by
  have hbelow := (hinv.running hloc).below
  have hone : (v.advance cfg rid cols row answer).req.nGenerated = v.req.nGenerated + 1 := by
    simp [GenerationRequest.nGenerated]
  have hmax : (v.advance cfg rid cols row answer).req.maxTokens = v.req.maxTokens := rfl
  unfold WithinBudget
  rw [hone, hmax]
  omega

theorem LifeReach.withinBudget (h : LifeReach cfg rid v) : WithinBudget cfg v.req := by
  refine h.keep_moves (P := fun v => WithinBudget cfg v.req) ?_ ?_ ?_ ?_ ?_ ?_
  · intro maxTokens promptIds stream
    exact withinBudget_of_le_one (Nat.zero_le 1)
  · intro v h
    exact h
  · intro v waiting out hinv _ hloc
    exact withinBudget_prefill hinv hloc waiting out
  · intro v cols _ _ row answer hinv _ hloc _ _ _
    exact withinBudget_advance hinv hloc cols row answer
  · intro v _ _ _ _
    exact withinBudget_of_le_one (Nat.zero_le 1)
  · intro v time h _
    exact h

end OneRequest

/-- **The token budget.** In every state of every run, and between any two pieces of work
    of a tick made in it, no request has more tokens than it asked for and the cap allows,
    except that it has one as soon as it has been admitted. -/
theorem token_budget [Zero Col] {cfg : Config Col} {firstId : Nat} {events : List Event}
    {s : Batcher Col} (hrun : runEvents cfg firstId events = .ok s) :
    ∀ t, Works cfg s t → ∀ r ∈ t.submitted, ((t.requests r).nGenerated : Int) ≤
      max 1 (min (t.requests r).maxTokens cfg.maxTokensCap) := by
  intro t hworks r hr
  exact ((hworks.inv (runEvents_inv hrun)).life r hr).withinBudget

/-- A request that asks for nothing gets a token. -/
theorem nothing_asked :
    ∃ s, runEvents (countingConfig .baseline 1 (constantGate 2 .convergent 1)) 1
        [.submit 0 [1] false, .tick] = .ok s ∧
      1 ∈ s.submitted ∧ ¬ ((s.requests 1).nGenerated : Int) ≤ min (s.requests 1).maxTokens 100 := by
  have hrun : (runEvents (countingConfig .baseline 1 (constantGate 2 .convergent 1)) 1
      [.submit 0 [1] false, .tick]).toOption.map (fun s =>
        (s.submitted, (s.requests 1).nGenerated, (s.requests 1).maxTokens)) =
      some ([1], 1, 0) := by decide
  obtain ⟨s, hs, hread⟩ := Fallible.toOption_map_eq_some.mp hrun
  simp only [Prod.mk.injEq] at hread
  obtain ⟨hsub, hone, hzero⟩ := hread
  exact ⟨s, hs, by simp [hsub], by rw [hone, hzero]; decide⟩

theorem token_budget_counting :
    ∃ s, runEvents (countingConfig .baseline 1 (constantGate 2 .convergent 1)) 1
        [.submit 0 [1] false, .tick] = .ok s ∧
      ∀ t, Works (countingConfig .baseline 1 (constantGate 2 .convergent 1)) s t →
        ∀ r ∈ t.submitted, ((t.requests r).nGenerated : Int) ≤ max 1 (min (t.requests r).maxTokens 100) := by
  have hrun : (runEvents (countingConfig .baseline 1 (constantGate 2 .convergent 1)) 1
      [.submit 0 [1] false, .tick]).toOption.map (fun s => s.submitted) = some [1] := by decide
  obtain ⟨s, hs, -⟩ := Fallible.toOption_map_eq_some.mp hrun
  exact ⟨s, hs, token_budget hs⟩

end PGI
