import ProbeGuidedInference.Lib.Lockstep
import ProbeGuidedInference.Refinement

/- A batcher as one sees it who does not look at the probe: without the decisions, the
   `routed` flags and the checkpoint times of its requests, the hook's tensor, the calls
   of the gate, and the clock. `Same` relates two batchers that look alike in this way;
   what the program computes from one of them, the probe apart, it computes from the
   other. -/
namespace PGI
open Fallible Lockstep

variable {Col : Type}

/-- The object without the fields that only the probe writes, and without the hour of
    its completion. -/
def GenerationRequest.unprobed (r : GenerationRequest) : GenerationRequest :=
  { r with
    routingDecision := none
    routed := false
    checkpointHitTime := none
    completionTime := none }

/-- The entry is a call of the gate. -/
def LogEntry.ofGate : LogEntry → Bool
  | .classify _ _ _ _ => true
  | _ => false

def unprobedLog (log : List LogEntry) : List LogEntry := log.filter (fun e => !e.ofGate)

def Batcher.unprobed (s : Batcher Col) : Batcher Col :=
  { s with
    requests := fun r => (s.requests r).unprobed
    captureLast := none
    classifies := 0
    clock := 0
    log := unprobedLog s.log }

/-- The two batchers differ in nothing but what `unprobed` leaves out. -/
structure Same (s t : Batcher Col) : Prop where
  requests : ∀ r, (s.requests r).unprobed = (t.requests r).unprobed
  nextId : s.nextId = t.nextId
  submitted : s.submitted = t.submitted
  pending : s.pending = t.pending
  cache : s.cache = t.cache
  active : s.active = t.active
  totalAdmitted : s.totalAdmitted = t.totalAdmitted
  totalFinished : s.totalFinished = t.totalFinished
  totalProbeTerminated : s.totalProbeTerminated = t.totalProbeTerminated
  totalPreemptions : s.totalPreemptions = t.totalPreemptions
  forwards : s.forwards = t.forwards
  log : unprobedLog s.log = unprobedLog t.log

theorem Same.refl (s : Batcher Col) : Same s s :=
  ⟨fun _ => rfl, rfl, rfl, rfl, rfl, rfl, rfl, rfl, rfl, rfl, rfl, rfl⟩

theorem Same.unprobed {s t : Batcher Col} (h : Same s t) : s.unprobed = t.unprobed := by
  unfold Batcher.unprobed
  rw [h.nextId, h.submitted, h.pending, h.cache, h.active, h.totalAdmitted, h.totalFinished,
    h.totalProbeTerminated, h.totalPreemptions, h.forwards, h.log, funext h.requests]

/-! One request object. -/

section Requests
variable {q q' : GenerationRequest}

/-- What does not read the probe's fields reads the same from both. -/
theorem read_unprobed {α : Type} {k l : GenerationRequest → α} (hk : ∀ q, k q = l q.unprobed)
    (hl : ∀ q, l q = l q.unprobed) (h : q.unprobed = q'.unprobed) : k q = l q' := by
  rw [hk, h, ← hl]

theorem field_unprobed {α : Type} {k : GenerationRequest → α} (hk : ∀ q, k q = k q.unprobed)
    (h : q.unprobed = q'.unprobed) : k q = k q' := read_unprobed hk hk h

/-- A mutation that neither reads nor writes them keeps the likeness. -/
theorem write_unprobed {f g : GenerationRequest → GenerationRequest}
    (hf : ∀ q, (f q).unprobed = (g q.unprobed).unprobed)
    (hg : ∀ q, (g q).unprobed = (g q.unprobed).unprobed) (h : q.unprobed = q'.unprobed) :
    (f q).unprobed = (g q').unprobed :=
  read_unprobed (k := fun q => (f q).unprobed) (l := fun q => (g q).unprobed) hf hg h

end Requests

/-! One batcher. -/

section Batchers
variable {s t : Batcher Col} {f g : GenerationRequest → GenerationRequest}

theorem Same.modify (h : Same s t) (rid : Nat)
    (hf : ∀ q, (f q).unprobed = (g q.unprobed).unprobed)
    (hg : ∀ q, (g q).unprobed = (g q.unprobed).unprobed) :
    Same (s.modify rid f) (t.modify rid g) :=
  { h with
    requests := by
      intro r
      by_cases hr : r = rid
      · subst hr
        simpa using write_unprobed hf hg (h.requests r)
      · simpa [hr] using h.requests r }

/-- A mutation of the probe's fields is not seen. -/
theorem Same.modify_left (h : Same s t) (rid : Nat)
    (hf : (f (s.requests rid)).unprobed = (s.requests rid).unprobed) : Same (s.modify rid f) t :=
  { h with
    requests := by
      intro r
      by_cases hr : r = rid
      · subst hr
        simpa using hf.trans (h.requests r)
      · simpa [hr] using h.requests r }

theorem Same.log_snoc (h : Same s t) {e e' : LogEntry} (he : e = e') :
    unprobedLog (s.log ++ [e]) = unprobedLog (t.log ++ [e']) := by
  subst he
  have hlog := h.log
  unfold unprobedLog at hlog ⊢
  rw [List.filter_append, List.filter_append, hlog]

theorem Same.record (h : Same s t) (e : LogEntry) : Same (s.record e) (t.record e) :=
  { h with log := h.log_snoc rfl }

theorem Same.record_left (h : Same s t) {e : LogEntry} (he : e.ofGate = true) :
    Same (s.record e) t :=
  { h with
    log := by
      have hlog : unprobedLog (s.record e).log = unprobedLog s.log := by
        simp [unprobedLog, he]
      exact hlog.trans h.log }

theorem Same.priority (h : Same s t) : s.priority = t.priority :=
  funext fun r => field_unprobed (k := GenerationRequest.priority) (fun _ => rfl) (h.requests r)

theorem Same.nGenerated (h : Same s t) (r : Nat) :
    (s.requests r).nGenerated = (t.requests r).nGenerated :=
  field_unprobed (fun _ => rfl) (h.requests r)

end Batchers

end PGI
