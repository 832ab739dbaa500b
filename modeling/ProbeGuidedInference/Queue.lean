import Mathlib.Algebra.Order.Ring.Rat
import Mathlib.Data.List.Induction
import Mathlib.Tactic.Simps.Basic
import ProbeGuidedInference.Errors

/- Routing decisions (src/gate.py), generation requests and the request queue
   (src/queue.py).

   A request object is referred to by its `request_id`, which the module's counter
   never gives out twice; the queue is the list of the ids it holds, front first, and
   a field of a queued request is read through the object store of the scheduler. The
   fields no modelled function reads (`prompt`, `arrival_time`, `metadata`) are left
   out. -/
namespace PGI

/-! The gate's answers. -/

inductive Label where
  | convergent
  | divergent
  deriving DecidableEq, Repr

structure RoutingDecision where
  label : Label
  confidence : ℚ
  checkpointPosition : Int
  deriving DecidableEq

def RoutingDecision.isDivergent (d : RoutingDecision) : Bool := d.label = .divergent

/-- A `ClassificationGate` as its callers see it: a checkpoint, and an answer to the
    `n`-th call of `classify` on a vector, or the message of the `ValueError` it raises.
    The answer may depend on `n`: a probe may keep state between calls. -/
structure ClassificationGate where
  checkpointPosition : Int
  classify : Nat → List ℚ → Except String RoutingDecision

def ClassificationGate.readyAt (g : ClassificationGate) (nGenerated : Nat) : Bool :=
  (nGenerated : Int) ≥ g.checkpointPosition

/-! Requests. -/

/-- The state of an `asyncio.Future` holding text. -/
inductive Future where
  | pending
  | resolved (text : String)
  | cancelled
  deriving DecidableEq, Repr

def Future.done : Future → Bool
  | .pending => false
  | _ => true

/-- `future.cancel()`, which does nothing to a future that is done. -/
def Future.cancel (f : Future) : Future := if f.done then f else .cancelled

inductive FinishReason where
  | eos
  | maxTokens
  | probeTerminated
  deriving DecidableEq, Repr

structure GenerationRequest where
  maxTokens : Int
  promptIds : List Nat
  result : Future := .pending
  stream : Bool := false
  /-- Every value ever put on the `asyncio.Queue`; `none` is Python's `None`. -/
  tokenQueue : Option (List (Option Nat)) := none
  generatedIds : List Nat := []
  position : Nat := 0
  routingDecision : Option RoutingDecision := none
  routed : Bool := false
  priority : Int := 0
  terminatedByProbe : Bool := false
  finishReason : Option FinishReason := none
  checkpointHitTime : Option ℚ := none
  completionTime : Option ℚ := none

namespace GenerationRequest

def nGenerated (r : GenerationRequest) : Nat := r.generatedIds.length

/-- `if req.stream and req.token_queue is not None: req.token_queue.put_nowait(v)`. -/
@[simps] def putNowait (v : Option Nat) (r : GenerationRequest) : GenerationRequest :=
  { r with tokenQueue := if r.stream then r.tokenQueue.map (· ++ [v]) else r.tokenQueue }

/-- The object `RequestQueue.submit` creates. -/
def submitted (maxTokens : Int) (promptIds : List Nat) (stream : Bool) : GenerationRequest :=
  { maxTokens, promptIds, stream, tokenQueue := if stream then some [] else none }

end GenerationRequest

/-! The queue. -/

/-- The index of the last normal-priority request, or -1. -/
def lastPriority0Idx (priority : Nat → Int) (pending : List Nat) : Int :=
  pending.zipIdx.foldl (fun last p => if priority p.1 = 0 then (p.2 : Int) else last) (-1)

/-- `while idx < len(pending) and pending[idx].priority == 1: idx += 1`, on the part of
    the queue from `idx` on. -/
def skipDeprioritized (priority : Nat → Int) : List Nat → Nat → Nat
  | [], idx => idx
  | other :: rest, idx =>
    if priority other = 1 then skipDeprioritized priority rest (idx + 1) else idx

def pushFrontPriorityAware (priority : Nat → Int) (pending : List Nat) (rid : Nat) : List Nat :=
  if priority rid = 0 then rid :: pending
  else
    let idx := (lastPriority0Idx priority pending + 1).toNat
    let idx := skipDeprioritized priority (pending.drop idx) idx
    pending.insertIdx idx rid

section Push
variable {priority : Nat → Int} {pending : List Nat}

theorem skipDeprioritized_all {idx : Nat} (h : ∀ x ∈ pending, priority x = 1) :
    skipDeprioritized priority pending idx = idx + pending.length := by
  induction pending generalizing idx with
  | nil => rfl
  | cons x rest ih =>
    have hx : priority x = 1 := h x List.mem_cons_self
    have hrest : skipDeprioritized priority rest (idx + 1) = idx + 1 + rest.length :=
      ih (fun y hy => h y (List.mem_cons_of_mem x hy))
    simp only [skipDeprioritized, hx, if_true, hrest, List.length_cons]
    omega

/-- Behind the last normal-priority request there is none. -/
theorem lastPriority0Idx_spec (priority : Nat → Int) (pending : List Nat) :
    -1 ≤ lastPriority0Idx priority pending ∧ lastPriority0Idx priority pending < pending.length ∧
    ∀ x ∈ pending.drop (lastPriority0Idx priority pending + 1).toNat, priority x ≠ 0 := by
  induction pending using List.reverseRecOn with
  | nil => simp [lastPriority0Idx]
  | append_singleton xs x ih =>
    obtain ⟨hge, hlt, hno⟩ := ih
    have hsnoc : lastPriority0Idx priority (xs ++ [x]) =
        if priority x = 0 then (xs.length : Int) else lastPriority0Idx priority xs := by
      simp [lastPriority0Idx, List.zipIdx_append]
    rw [hsnoc]
    by_cases hx : priority x = 0
    · simp only [hx, if_true]
      refine ⟨by omega, by simp, ?_⟩
      intro y hy
      have hall : (xs ++ [x]).length ≤ ((xs.length : Int) + 1).toNat := by simp
      rw [List.drop_eq_nil_of_le hall] at hy
      simp at hy
    · simp only [hx, if_false]
      refine ⟨hge, by rw [List.length_append]; omega, ?_⟩
      intro y hy
      rw [List.drop_append_of_le_length (by omega)] at hy
      rcases List.mem_append.mp hy with hy | hy
      · exact hno y hy
      · simp only [List.mem_singleton] at hy
        exact hy ▸ hx

/-- Over a queue of priorities 0 and 1, the requeue of a deprioritized request is an
    append at the back. -/
theorem pushFrontPriorityAware_deprioritized {rid : Nat}
    (hq : ∀ x ∈ pending, priority x = 0 ∨ priority x = 1) (hr : priority rid = 1) :
    pushFrontPriorityAware priority pending rid = pending ++ [rid] := by
  obtain ⟨-, hlt, hno⟩ := lastPriority0Idx_spec priority pending
  have hone : ∀ x ∈ pending.drop (lastPriority0Idx priority pending + 1).toNat, priority x = 1 :=
    fun x hx => (hq x (List.mem_of_mem_drop hx)).resolve_left (hno x hx)
  have hlen : (lastPriority0Idx priority pending + 1).toNat +
      (pending.drop (lastPriority0Idx priority pending + 1).toNat).length = pending.length := by
    rw [List.length_drop]; omega
  have hne : ¬ priority rid = 0 := by rw [hr]; decide
  simp only [pushFrontPriorityAware, hne, if_false, skipDeprioritized_all hone, hlen]
  exact List.insertIdx_length_self

/-- `queue` is `pending` with `rid` put in once, at index `idx`. -/
structure Inserted (pending : List Nat) (rid idx : Nat) (queue : List Nat) : Prop where
  longer : queue.length = pending.length + 1
  placed : queue[idx]? = some rid
  others : queue.eraseIdx idx = pending

theorem inserted_back (pending : List Nat) (rid : Nat) :
    Inserted pending rid pending.length (pending ++ [rid]) where
  longer := by simp
  placed := by simp
  others := by
    rw [List.eraseIdx_append_of_length_le (le_refl _)]
    simp

/-- **The requeue of a deprioritized request is an append**, over every queue of
    priorities 0 and 1, sorted or not: it is put in once, the others keep their order,
    and all of them, of either priority, stand before it. -/
theorem requeue_at_back (hq : ∀ x ∈ pending, priority x = 0 ∨ priority x = 1) {rid : Nat}
    (hr : priority rid = 1) :
    pushFrontPriorityAware priority pending rid = pending ++ [rid] ∧
    ∃ idx, Inserted pending rid idx (pushFrontPriorityAware priority pending rid) ∧
      ∀ i other, (pushFrontPriorityAware priority pending rid)[i]? = some other → i ≠ idx →
        i < idx := by
  have happend := pushFrontPriorityAware_deprioritized hq hr
  rw [happend]
  refine ⟨rfl, pending.length, inserted_back pending rid, ?_⟩
  intro i other hother hne
  have hlt : i < (pending ++ [rid]).length := (List.getElem?_eq_some_iff.mp hother).1
  rw [List.length_append, List.length_singleton] at hlt
  omega

end Push

/-- A request arrived behind a deprioritized one, and another is requeued. -/
theorem requeue_at_back_unsorted :
    pushFrontPriorityAware (fun x => if x = 2 then 0 else 1) [1, 2] 3 = [1, 2] ++ [3] ∧
    ∃ idx, Inserted [1, 2] 3 idx (pushFrontPriorityAware (fun x => if x = 2 then 0 else 1) [1, 2] 3) ∧
      ∀ i other, (pushFrontPriorityAware (fun x => if x = 2 then 0 else 1) [1, 2] 3)[i]? = some other →
        i ≠ idx → i < idx :=
  requeue_at_back (by decide) rfl

end PGI
