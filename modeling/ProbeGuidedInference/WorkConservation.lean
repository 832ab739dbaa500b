import ProbeGuidedInference.Swapping
import ProbeGuidedInference.TableModel

/- When a slot stays free. The first loop of `_try_admit` goes on until the batch is full
   or the queue is empty, so a request that ends at its own prefill costs no slot there.
   The second loop goes on only while the batch is full: when the request for which it
   has preempted another ends at its own prefill, the victim's slot stays free and the
   victim, if nobody else, waits. -/
namespace PGI
open Fallible

variable {Col : Type}

/-- Nobody waits, or no slot is free. -/
def WorkConserving (cfg : Config Col) (s : Batcher Col) : Prop :=
  s.pending = [] ∨ s.active.length = cfg.maxBatchSize

/-- The request at which the walk stops has priority 0 and ends at its own prefill. -/
def wastefulVerdict (priority : Nat → Int) : Verdict :=
  fun st d _ => priority d = 0 ∧ st = some false

/-- The call fills the batch and swaps normal requests in for deprioritized ones until it
    comes, with one to swap out left, to a normal request that ends at its own prefill. -/
def Wasteful (cfg : Config Col) (s : Batcher Col) : Prop :=
  StopsAfter cfg s (wastefulVerdict s.priority)

section Rule
variable {cfg : Config Col} {s s' : Batcher Col}

theorem wastefulVerdict_halting (priority : Nat → Int) :
    (wastefulVerdict priority).Halting priority where
  normal h _ := h.2
  requeued _ := Iff.rfl
  notLast := by
    intro st d hq
    obtain ⟨hzero, -⟩ := hq
    omega

/-- A walk that is not over is one for the second loop. -/
theorem not_stopsAt_wasteful (hfull : s.active.length = cfg.maxBatchSize)
    (hstop : ∀ rid rest victim, ¬ Swappable cfg s rid rest victim) :
    ¬ StopsAt cfg s (wastefulVerdict s.priority) := by
  intro h
  obtain ⟨normals, d, behind, hw, hhead, -⟩ := h
  have hpos := lt_of_le_of_lt (Nat.zero_le _) hw.few
  have hqueue := hw.queue
  cases normals with
  | nil =>
    obtain ⟨victim, hsw⟩ := swappable_of_normal hfull hqueue hhead hpos
    exact hstop _ _ _ hsw
  | cons x normals =>
    obtain ⟨victim, hsw⟩ :=
      swappable_of_normal hfull hqueue (hw.normal x List.mem_cons_self) hpos
    exact hstop _ _ _ hsw

/-- Without the second loop no slot is wasted. -/
theorem admitLoop_conserving (hs : SysInv cfg s) (h : admitLoop cfg s.pending.length s = .ok s') :
    WorkConserving cfg s' := by
  obtain ⟨admitted, kept, rest, htook, hend⟩ := admitLoop_tookIn _ hs h
  rcases hend (le_refl _) with hf | ⟨-, hempty⟩
  · right
    rw [htook.active, List.length_append]
    exact hf.room
  · left
    rw [htook.pending, hempty]

/-- **What decides whether a slot is wasted**, of the state `_try_admit` is called in. -/
theorem tryAdmit_conserving (hs : SysInv cfg s) (h : tryAdmit cfg s = .ok s') :
    WorkConserving cfg s' ↔ ¬ Wasteful cfg s := by
  by_cases hstrategy : cfg.strategy = .probeDeprioritize
  · unfold Wasteful
    rcases tryAdmit_outcome hs hstrategy h with ⟨-, hempty, hnone⟩ | ⟨u, huinv, hufull, hprio, hiff, hend⟩
    · exact ⟨fun _ => hnone _, fun _ => .inl hempty⟩
    · rw [hiff _ (wastefulVerdict_halting s.priority), ← hprio]
      rcases hend with ⟨rfl, hstop⟩ | ⟨rid, rest, victim, hlast⟩
      · exact ⟨fun _ => not_stopsAt_wasteful hufull hstop, fun _ => .inr hufull⟩
      · obtain ⟨hroom, hwaits⟩ := hlast.room huinv
        refine ⟨?_, ?_⟩
        · intro hdone
          rcases hdone with hempty | hfull
          · exact absurd hempty hwaits
          · omega
        · intro hnot
          -- the walk stops right here
          exact absurd ⟨[], rid, rest, ⟨hlast.swappable.pending, rfl, fun _ hr => (by cases hr),
            hlast.swappable.pos⟩, hlast.swappable.head, hlast.ends⟩ hnot
  · unfold tryAdmit at h
    obtain ⟨t, ht, h⟩ := bind_eq_ok.mp h
    rw [if_pos hstrategy] at h
    obtain rfl := Except.ok.inj h
    refine ⟨?_, fun _ => admitLoop_conserving hs ht⟩
    intro _ hw
    obtain ⟨admitted, kept, normals, d, behind, hc, -⟩ := hw
    exact hstrategy (hc.strategy hs)

end Rule

/-- **Work is conserved exactly where no slot is wasted on a request that needs none.** From
    every state of a run `_try_admit` returns with an empty queue or a full batch, if and
    only if no state of the run is wasteful. -/
theorem work_conserving_iff [Zero Col] (cfg : Config Col) (firstId : Nat) (events : List Event) :
    (∀ s s', Runs.Visits (step cfg) (Batcher.new firstId) events s → tryAdmit cfg s = .ok s' →
      WorkConserving cfg s') ↔
    ∀ s, Runs.Visits (step cfg) (Batcher.new firstId) events s → ¬ Wasteful cfg s :=
  visits_tryAdmit_iff cfg firstId events
    (fun s hs hw => StopsAfter.tryAdmit_returns hs (wastefulVerdict_halting s.priority) hw)
    (fun _ _ hs h => tryAdmit_conserving hs h)

/-- A batch of one: request 1 has been found divergent when request 2 asks for a single
    token. -/
def singleTokenBehind : List Event := [.submit 9 [1] false, .tick, .submit 1 [2] false]

/-- Request 1 is preempted for request 2, which needs no slot, and waits beside a free one. -/
theorem singleTokenBehind_idle : ¬ ∀ s s', Runs.Visits
    (step (divergentConfig .probeDeprioritize)) (Batcher.new 1) singleTokenBehind s →
    tryAdmit (divergentConfig .probeDeprioritize) s = .ok s' →
    WorkConserving (divergentConfig .probeDeprioritize) s' := by
  intro h
  have hrun : (runEvents (divergentConfig .probeDeprioritize) 1 singleTokenBehind >>=
      tryAdmit (divergentConfig .probeDeprioritize)).toOption.map
        (fun s => (s.active, s.pending)) = some ([], [1]) := by decide
  obtain ⟨s', hs', hstate⟩ := toOption_map_eq_some.mp hrun
  obtain ⟨s, hs, htry⟩ := bind_eq_ok.mp hs'
  obtain ⟨hact, hpend⟩ : s'.active = [] ∧ s'.pending = [1] := by simpa using hstate
  rcases h s s' (Runs.Visits.last hs) htry with hempty | hfull
  · rw [hpend] at hempty
    cases hempty
  · rw [hact] at hfull
    cases hfull

end PGI
