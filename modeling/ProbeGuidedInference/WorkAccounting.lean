import ProbeGuidedInference.BoundedWait
import ProbeGuidedInference.EvalRecords

/- What preemption costs. A preempted request is generated again from its prompt, so the
   model computes more tokens than the callers get. Each token that it has computed was
   either thrown away by a preemption or is one of the tokens that the requests hold; and
   what is thrown away is bounded, because preemptions are, and because a request that still
   runs is below its limit. -/
namespace PGI
open Fallible

variable {Col : Type}

/-- The tokens that an entry says were computed: one by a prefill, and one by a row of a
    decode step. -/
def LogEntry.computed : LogEntry → Nat
  | .admitted _ _ _ => 1
  | .decode _ _ => 1
  | _ => 0

/-- The tokens that it says were thrown away. -/
def LogEntry.discarded : LogEntry → Nat
  | .preempt _ nGenerated => nGenerated
  | _ => 0

def computed (log : List LogEntry) : Nat := (log.map LogEntry.computed).sum

def discarded (log : List LogEntry) : Nat := (log.map LogEntry.discarded).sum

section Logs
variable {log log' : List LogEntry}

@[simp] theorem computed_append : computed (log ++ log') = computed log + computed log' := by
  simp [computed]

@[simp] theorem discarded_append : discarded (log ++ log') = discarded log + discarded log' := by
  simp [discarded]

theorem computed_decodeEntries (rid nid n : Nat) (answer : Answer) :
    computed (View.decodeEntries rid nid n answer) = 1 := by
  cases answer with
  | none => rfl
  | some a => rfl

theorem discarded_decodeEntries (rid nid n : Nat) (answer : Answer) :
    discarded (View.decodeEntries rid nid n answer) = 0 := by
  cases answer with
  | none => rfl
  | some a => rfl

/-- No preemption throws away more than `m` tokens. -/
theorem discarded_le {m : Nat} (h : ∀ r n, .preempt r n ∈ log → n ≤ m) :
    discarded log ≤ (preemptions log).length * m := by
  induction log with
  | nil => exact Nat.zero_le _
  | cons e log ih =>
    have hrest := ih (fun r n hmem => h r n (List.mem_cons_of_mem e hmem))
    cases e with
    | preempt r n =>
      have hn := h r n List.mem_cons_self
      calc discarded (.preempt r n :: log) = n + discarded log := rfl
        _ ≤ m + (preemptions log).length * m := by omega
        _ = (preemptions (.preempt r n :: log)).length * m := by
          rw [preemptions_cons_preempt, List.length_cons, Nat.succ_mul, Nat.add_comm]
    | admitted rid p waiting =>
      calc discarded (.admitted rid p waiting :: log) = 0 + discarded log := rfl
        _ ≤ (preemptions (.admitted rid p waiting :: log)).length * m := by
          rw [preemptions_cons_admitted]
          omega
    | decode rid token =>
      show 0 + discarded log ≤ (preemptions log).length * m
      omega
    | classify rid n row d =>
      show 0 + discarded log ≤ (preemptions log).length * m
      omega
    | finish rid n =>
      show 0 + discarded log ≤ (preemptions log).length * m
      omega

end Logs

/-! One request. -/

/-- Its tokens and those it has lost are those that were computed for it, and it never lost
    as many as it may get. -/
structure View.Paid (cfg : Config Col) (v : View Col) : Prop where
  balance : computed v.history = v.req.nGenerated + discarded v.history
  lost : ∀ r n, .preempt r n ∈ v.history → n + 1 ≤ cfg.limit v.req.maxTokens

section Life
variable {cfg : Config Col} {rid : Nat} {v : View Col}

theorem LifeReach.paid (h : LifeReach cfg rid v) : v.Paid cfg := by
  refine h.keep_moves (P := View.Paid cfg) ?_ ?_ ?_ ?_ ?_ ?_
  · intro maxTokens promptIds stream
    exact ⟨rfl, fun r n hmem => by cases hmem⟩
  · exact fun w hw => ⟨hw.balance, hw.lost⟩
  · intro w waiting out hinv hw hloc
    obtain ⟨-, -, hgen, -⟩ := hinv.waiting hloc
    have hbalance := hw.balance
    refine ⟨?_, ?_⟩
    · simp only [View.prefill_history, View.prefill_req, computed_append, discarded_append,
        GenerationRequest.nGenerated, GenerationRequest.firstToken_generatedIds, hgen] at hbalance ⊢
      show computed w.history + 1 = 1 + (discarded w.history + 0)
      rw [hbalance]
      simp only [List.length_nil]
      omega
    · intro r n hmem
      apply hw.lost r n
      simpa using hmem
  · intro w cols token position row answer _ hw _ _ _ _
    have hbalance := hw.balance
    refine ⟨?_, ?_⟩
    · simp only [View.advance_history, View.advance_req, computed_append, discarded_append,
        computed_decodeEntries, discarded_decodeEntries, GenerationRequest.nGenerated,
        GenerationRequest.routeOnce_generatedIds, GenerationRequest.nextToken_generatedIds,
        List.length_append, List.length_singleton] at hbalance ⊢
      omega
    · intro r n hmem
      apply hw.lost r n
      simpa using hmem
  · intro w hinv hw hloc hone
    have hbalance := hw.balance
    refine ⟨?_, ?_⟩
    · simp only [View.preempt_history, View.preempt_req, computed_append, discarded_append,
        GenerationRequest.nGenerated, GenerationRequest.preempted_generatedIds] at hbalance ⊢
      show computed w.history + 0 = 0 + (discarded w.history + w.req.generatedIds.length)
      omega
    · intro r n hmem
      rw [View.preempt_history, List.mem_append, List.mem_singleton] at hmem
      rcases hmem with hmem | heq
      · exact hw.lost r n hmem
      · obtain ⟨-, rfl⟩ := LogEntry.preempt.inj heq
        exact (hinv.running hloc).below_limit (le_refl _)
  · intro w time hw _
    have hbalance := hw.balance
    refine ⟨?_, ?_⟩
    · simp only [View.finish_history, View.finish_req, computed_append, discarded_append] at hbalance ⊢
      show computed w.history + 0 = w.req.nGenerated + (discarded w.history + 0)
      omega
    · intro r n hmem
      apply hw.lost r n
      simpa using hmem

end Life

/-! All requests. -/

section Books
variable {cfg : Config Col} {firstId : Nat} {events : List Event} {s : Batcher Col}

theorem mem_history {e : LogEntry} : e ∈ s.history e.rid ↔ e ∈ s.log := by
  simp [Batcher.history]

/-- The log is about submitted requests only. -/
theorem runEvents_logged [Zero Col] (h : runEvents cfg firstId events = .ok s) :
    ∀ e ∈ s.log, e.rid ∈ s.submitted := by
  have hempty : ∀ r ∉ s.submitted, s.history r = [] := by
    refine (runEvents_keep (I := fun s => ∀ r ∉ s.submitted, s.history r = []) ?_ ?_ ?_ ?_ h).2
    · exact fun _ _ => rfl
    · intro s maxTokens promptIds stream hs hI r hr
      exact hI r (fun hmem => hr (List.mem_append_left _ hmem))
    · exact fun s rid _ hI _ => hI
    · intro s s' hs hI hw r hr
      rw [hw.submitted] at hr
      rcases hw.turn hs r with hview | ⟨hmem, -⟩
      · have hsame : s'.history r = s.history r := congrArg View.history hview
        rw [hsame]
        exact hI r hr
      · exact absurd hmem hr
  intro e he
  by_contra hnot
  have hmem := mem_history.mpr he
  rw [hempty e.rid hnot] at hmem
  cases hmem

/-- A request that a preemption has set back was below its limit. -/
theorem runEvents_lost [Zero Col] (h : runEvents cfg firstId events = .ok s) {r n : Nat}
    (hmem : .preempt r n ∈ s.log) : n ≤ cfg.largest (arrivals events) - 1 := by
  have hs := runEvents_inv h
  have hsub : r ∈ s.submitted := runEvents_logged h _ hmem
  have hin : .preempt r n ∈ s.history r := mem_history.mpr hmem
  have hlimit : n + 1 ≤ cfg.limit (s.requests r).maxTokens := (hs.life r hsub).paid.lost r n hin
  have hle := (runEvents_numbered h).limit_le cfg hsub
  omega

/-- Of any amount that the entries say, the log has as much as all histories together. -/
theorem total_history (hnd : s.submitted.Nodup) (hlog : ∀ e ∈ s.log, e.rid ∈ s.submitted)
    (amount : LogEntry → Nat) :
    Potential.total s.submitted (fun r => ((s.history r).map amount).sum) = (s.log.map amount).sum :=
  Potential.total_book LogEntry.rid amount hnd hlog

/-- Every token that was computed is held by a request or was thrown away. -/
theorem runEvents_computed [Zero Col] (h : runEvents cfg firstId events = .ok s) :
    computed s.log = Potential.total s.submitted (fun r => (s.requests r).nGenerated) +
      discarded s.log := by
  have hs := runEvents_inv h
  have hlog := runEvents_logged h
  calc computed s.log
      = Potential.total s.submitted (fun r => computed (s.history r)) :=
        (total_history hs.nodup hlog LogEntry.computed).symm
    _ = Potential.total s.submitted
          (fun r => (s.requests r).nGenerated + discarded (s.history r)) := by
        unfold Potential.total
        congr 1
        apply List.map_congr_left
        intro r hr
        exact (hs.life r hr).paid.balance
    _ = Potential.total s.submitted (fun r => (s.requests r).nGenerated) +
          Potential.total s.submitted (fun r => discarded (s.history r)) := Potential.total_add
    _ = Potential.total s.submitted (fun r => (s.requests r).nGenerated) + discarded s.log := by
        congr 1
        exact total_history hs.nodup hlog LogEntry.discarded

theorem runEvents_discarded_le [Zero Col] (h : runEvents cfg firstId events = .ok s) :
    discarded s.log ≤ s.totalPreemptions * (cfg.largest (arrivals events) - 1) := by
  rw [(runEvents_paidUp h).counter]
  exact discarded_le (fun r n hmem => runEvents_lost h hmem)

/-- Without preemptions nothing is thrown away. -/
theorem runEvents_undiscarded [Zero Col] (hstrategy : cfg.strategy ≠ .probeDeprioritize)
    (h : runEvents cfg firstId events = .ok s) : discarded s.log = 0 := by
  have hbound := runEvents_discarded_le h
  rw [runEvents_unpreempted hstrategy h, Nat.zero_mul] at hbound
  exact Nat.le_zero.mp hbound

end Books

end PGI
