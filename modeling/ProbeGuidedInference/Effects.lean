import Mathlib.Data.List.Perm.Subperm
import ProbeGuidedInference.Lifecycle

/- What each operation of the batcher does, one lemma an operation: to the view of the
   requests it is about, to the views of all others (nothing), and to the queue, the
   active map and the list of finished requests. Every invariant is proved from these;
   no later module unfolds an operation. -/
namespace PGI
open Fallible

variable {Col : Type}

namespace Batcher

def loc (s : Batcher Col) (rid : Nat) : Loc :=
  if rid ∈ s.active then .active else if rid ∈ s.finished then .finished else .pending

@[simps] def view (s : Batcher Col) (rid : Nat) : View Col where
  loc := s.loc rid
  req := s.requests rid
  kv := s.cache.cache rid
  len := s.cache.seqLens rid
  history := s.history rid

/-- Two states show the same of a request when they agree on these. -/
theorem view_congr {s s' : Batcher Col} {r : Nat} (hact : r ∈ s'.active ↔ r ∈ s.active)
    (hfin : r ∈ s'.finished ↔ r ∈ s.finished) (hreq : s'.requests r = s.requests r)
    (hkv : s'.cache.cache r = s.cache.cache r) (hlen : s'.cache.seqLens r = s.cache.seqLens r)
    (hhist : s'.history r = s.history r) : s'.view r = s.view r := by
  simp [view, loc, hact, hfin, hreq, hkv, hlen, hhist]

end Batcher

/-- The two counters of finished requests count them. -/
structure Counted (s : Batcher Col) : Prop where
  totalFinished : s.totalFinished = s.finished.length
  totalProbeTerminated :
    s.totalProbeTerminated = s.finished.countP (fun r => (s.requests r).terminatedByProbe)

theorem Counted.congr {s s' : Batcher Col} (h : Counted s) (hfin : s'.finished = s.finished)
    (htotal : s'.totalFinished = s.totalFinished)
    (hprobe : s'.totalProbeTerminated = s.totalProbeTerminated)
    (hflag : ∀ r ∈ s.finished,
      (s'.requests r).terminatedByProbe = (s.requests r).terminatedByProbe) : Counted s' where
  totalFinished := by rw [htotal, hfin, h.totalFinished]
  totalProbeTerminated := by
    rw [hprobe, hfin, h.totalProbeTerminated]
    apply List.countP_congr
    intro r hr
    simp [hflag r hr]

/-! Evict. -/

section Finish
variable (cfg : Config Col) (s : Batcher Col) (rid : Nat)

@[simp] theorem finish_pending : (finish cfg s rid).pending = s.pending := rfl
@[simp] theorem finish_active : (finish cfg s rid).active = s.active.erase rid := rfl
@[simp] theorem finish_submitted : (finish cfg s rid).submitted = s.submitted := rfl
@[simp] theorem finish_nextId : (finish cfg s rid).nextId = s.nextId := rfl
@[simp] theorem finish_forwards : (finish cfg s rid).forwards = s.forwards := rfl

@[simp] theorem finish_finished : (finish cfg s rid).finished = s.finished ++ [rid] := by
  simp [finish, Batcher.finished]

/-- Finishing a request changes no priority. -/
@[simp] theorem finish_priority : (finish cfg s rid).priority = s.priority := by
  funext r
  by_cases hr : r = rid
  · subst hr
    simp [finish, Batcher.priority]
  · simp [finish, Batcher.priority, hr]

theorem finish_view_self (hnd : s.active.Nodup) :
    (finish cfg s rid).view rid = (s.view rid).finish cfg rid (cfg.time s.clock) := by
  ext1
  · show (finish cfg s rid).loc rid = .finished
    simp [Batcher.loc, hnd.mem_erase_iff]
  · simp [finish]
  · simp [finish, BatchedSequenceCache.evict]
  · simp [finish, BatchedSequenceCache.evict]
  · simp [finish, Batcher.history, LogEntry.rid]

theorem finish_view_ne {r : Nat} (hr : r ≠ rid) : (finish cfg s rid).view r = s.view r := by
  apply Batcher.view_congr
  · simp [List.mem_erase_of_ne hr]
  · simp [hr]
  · simp [finish, hr]
  · simp [finish, BatchedSequenceCache.evict, hr]
  · simp [finish, BatchedSequenceCache.evict, hr]
  · simp [finish, Batcher.history, LogEntry.rid, hr.symm]

theorem finish_counted (h : Counted s) : Counted (finish cfg s rid) where
  totalFinished := by
    show s.totalFinished + 1 = _
    rw [finish_finished, List.length_append, List.length_singleton, h.totalFinished]
  totalProbeTerminated := by
    have hflag : ∀ r, ((finish cfg s rid).requests r).terminatedByProbe =
        (s.requests r).terminatedByProbe := by
      intro r
      by_cases hr : r = rid
      · subst hr
        simp [finish]
      · simp [finish, hr]
    show s.totalProbeTerminated + _ = _
    rw [finish_finished, List.countP_append, h.totalProbeTerminated]
    simp only [hflag, List.countP_singleton]

end Finish

/-! Preempt. -/

section Preempt
variable (s : Batcher Col) (victim : Nat)

@[simp] theorem preempt_active : (preempt s victim).active = s.active.erase victim := rfl
@[simp] theorem preempt_submitted : (preempt s victim).submitted = s.submitted := rfl
@[simp] theorem preempt_nextId : (preempt s victim).nextId = s.nextId := rfl
@[simp] theorem preempt_forwards : (preempt s victim).forwards = s.forwards := rfl
@[simp] theorem preempt_clock : (preempt s victim).clock = s.clock := rfl

@[simp] theorem preempt_finished : (preempt s victim).finished = s.finished := by
  simp [preempt, Batcher.finished]

/-- A preemption changes no priority. -/
@[simp] theorem preempt_priority : (preempt s victim).priority = s.priority := by
  funext r
  by_cases hr : r = victim
  · subst hr
    simp [preempt, Batcher.priority]
  · simp [preempt, Batcher.priority, hr]

/-- The victim goes to the back of the queue, behind everything that waits. -/
theorem preempt_pending (hq : ∀ x ∈ s.pending, s.priority x = 0 ∨ s.priority x = 1)
    (hv : s.priority victim = 1) : (preempt s victim).pending = s.pending ++ [victim] := by
  have hprio := preempt_priority s victim
  show pushFrontPriorityAware (preempt s victim).priority s.pending victim = _
  rw [hprio]
  exact pushFrontPriorityAware_deprioritized hq hv

theorem preempt_view_self (hnd : s.active.Nodup) (hfin : victim ∉ s.finished) :
    (preempt s victim).view victim = (s.view victim).preempt victim := by
  ext1
  · show (preempt s victim).loc victim = .pending
    simp [Batcher.loc, hnd.mem_erase_iff, hfin]
  · simp [preempt]
  · simp [preempt, BatchedSequenceCache.evict]
  · simp [preempt, BatchedSequenceCache.evict]
  · simp [preempt, Batcher.history, LogEntry.rid]

theorem preempt_view_ne {r : Nat} (hr : r ≠ victim) : (preempt s victim).view r = s.view r := by
  apply Batcher.view_congr
  · simp [List.mem_erase_of_ne hr]
  · simp
  · simp [preempt, hr]
  · simp [preempt, BatchedSequenceCache.evict, hr]
  · simp [preempt, BatchedSequenceCache.evict, hr]
  · simp [preempt, Batcher.history, LogEntry.rid, hr.symm]

theorem preempt_requests_ne {r : Nat} (hr : r ≠ victim) :
    (preempt s victim).requests r = s.requests r := congrArg View.req (preempt_view_ne s victim hr)

theorem preempt_counted (h : Counted s) : Counted (preempt s victim) := by
  apply h.congr (preempt_finished s victim) rfl rfl
  intro r _
  by_cases hr : r = victim
  · subst hr
    simp [preempt]
  · simp [preempt, hr]

end Preempt

/-! Admit. -/

section AdmitOne
variable {cfg : Config Col} {s s' : Batcher Col} {rid : Nat} {rest : List Nat}

/-- The state in which `_admit_one` has taken `rid` from the queue, left `rest` there,
    and got `out` from the prefill. -/
@[simps] def Batcher.prefilled (cfg : Config Col) (s : Batcher Col) (rid : Nat) (rest : List Nat)
    (out : PrefillOut Col cfg.model.nLayers (s.requests rid).promptIds.length) : Batcher Col :=
  { s with
    requests := Function.update s.requests rid ((s.requests rid).firstToken cfg (argmax out.logits))
    pending := rest
    cache := s.cache.storePrefill rid out.pastKeyValues (s.requests rid).promptIds.length
    captureLast := if cfg.gate.isSome then some [{
        seqId := rid, inputId := (s.requests rid).promptIds.getLastD 0
        positionId := (s.requests rid).promptIds.length - 1, hidden := out.hidden }]
      else s.captureLast
    totalAdmitted := s.totalAdmitted + 1
    forwards := s.forwards + 1
    log := s.log ++ [.admitted rid (s.priority rid) (rest.map s.priority)] }

@[simps] def Batcher.joined (s : Batcher Col) (rid : Nat) : Batcher Col :=
  { s with active := s.active ++ [rid] }

theorem joined_view_self (s : Batcher Col) (rid : Nat) :
    (s.joined rid).view rid = { s.view rid with loc := .active } := by
  ext1
  · show (s.joined rid).loc rid = .active
    simp [Batcher.loc]
  · rfl
  · rfl
  · rfl
  · rfl

theorem joined_view_ne (s : Batcher Col) {r rid : Nat} (hr : r ≠ rid) :
    (s.joined rid).view r = s.view r := by
  apply Batcher.view_congr
  · simp [hr]
  · rfl
  · rfl
  · rfl
  · rfl
  · rfl

/-- What `run_prefill` returns and leaves behind. -/
theorem runPrefill_ok {out : PrefillOut Col cfg.model.nLayers (s.requests rid).promptIds.length}
    (hout : cfg.model.prefill s.forwards (s.requests rid).promptIds = .ok out) :
    runPrefill cfg s rid =
      .ok (cfg.ended (argmax out.logits) ((s.requests rid).firstToken cfg (argmax out.logits)),
        { s with
          requests := Function.update s.requests rid
            ((s.requests rid).firstToken cfg (argmax out.logits))
          cache := s.cache.storePrefill rid out.pastKeyValues (s.requests rid).promptIds.length
          captureLast := if cfg.gate.isSome then some [{
              seqId := rid, inputId := (s.requests rid).promptIds.getLastD 0
              positionId := (s.requests rid).promptIds.length - 1, hidden := out.hidden }]
            else s.captureLast
          forwards := s.forwards + 1 }) := by
  have hreq := firstToken_eq cfg (s.requests rid) (argmax out.logits)
  have hended : cfg.ended (argmax out.logits) ((s.requests rid).firstToken cfg (argmax out.logits)) =
      cfg.ended (argmax out.logits)
        ((s.requests rid).prefilled (s.requests rid).promptIds.length (argmax out.logits)) := rfl
  rw [hended, ← hreq]
  unfold runPrefill
  simp only [hout, raising, mapError_ok, ok_bind, Batcher.hook, Batcher.modify, pure_eq_ok]
  cases hg : cfg.gate.isSome <;> simp <;> split <;> simp_all

/-- `run_prefill` returns only if the model's forward does. -/
theorem runPrefill_returns {p : Bool × Batcher Col} (h : runPrefill cfg s rid = .ok p) :
    ∃ out, cfg.model.prefill s.forwards (s.requests rid).promptIds = .ok out := by
  unfold runPrefill at h
  obtain ⟨out, hout, -⟩ := bind_eq_ok.mp h
  exact ⟨out, mapError_eq_ok.mp (raising_eq_ok.mp hout)⟩

/-- What `_admit_one` leaves behind: the request is finished when its first token ends
    it, and joins the active map otherwise. -/
theorem admitOne_eq (hp : s.pending = rid :: rest) (hact : rid ∉ s.active)
    {out : PrefillOut Col cfg.model.nLayers (s.requests rid).promptIds.length}
    (hout : cfg.model.prefill s.forwards (s.requests rid).promptIds = .ok out) :
    admitOne cfg s = .ok (
      if cfg.ended (argmax out.logits) ((s.requests rid).firstToken cfg (argmax out.logits)) then
        finish cfg (s.prefilled cfg rid rest out) rid
      else (s.prefilled cfg rid rest out).joined rid) := by
  let s₀ : Batcher Col := { s with pending := rest }.record
    (.admitted rid (s.priority rid) (rest.map s.priority))
  have hrun : runPrefill cfg s₀ rid = _ := runPrefill_ok hout
  unfold admitOne
  simp only [hp]
  show (runPrefill cfg s₀ rid >>= _) = _
  rw [hrun, ok_bind]
  by_cases he : cfg.ended (argmax out.logits) ((s.requests rid).firstToken cfg (argmax out.logits)) = true
  · simp only [s₀, Batcher.record_requests, he, if_true]
    rfl
  · simp only [s₀, Batcher.record_requests, he, if_false, Batcher.record_active, hact]
    rfl

/-- `_admit_one` returns only if the model's forward does. -/
theorem admitOne_returns (hp : s.pending = rid :: rest) (h : admitOne cfg s = .ok s') :
    ∃ out, cfg.model.prefill s.forwards (s.requests rid).promptIds = .ok out := by
  unfold admitOne at h
  simp only [hp] at h
  obtain ⟨p, hrun, -⟩ := bind_eq_ok.mp h
  obtain ⟨out, hout⟩ := runPrefill_returns hrun
  exact ⟨out, hout⟩

/-- `rid`, the head of the queue, is admitted and `rest` stays there. -/
structure Admission (cfg : Config Col) (s s' : Batcher Col) (rid : Nat) (rest : List Nat) : Prop where
  self : ∃ out, cfg.model.prefill s.forwards (s.requests rid).promptIds = .ok out ∧
    s'.view rid = (s.view rid).admitted cfg rid (rest.map s.priority) out (cfg.time s.clock)
  other : ∀ r ≠ rid, s'.view r = s.view r
  place : (s'.active = s.active ++ [rid] ∧ s'.finished = s.finished) ∨
    (s'.active = s.active ∧ s'.finished = s.finished ++ [rid])
  pending : s'.pending = rest
  priority : s'.priority = s.priority
  submitted : s'.submitted = s.submitted
  nextId : s'.nextId = s.nextId
  forwards : s'.forwards = s.forwards + 1
  totalAdmitted : s'.totalAdmitted = s.totalAdmitted + 1
  totalPreemptions : s'.totalPreemptions = s.totalPreemptions
  counted : Counted s → Counted s'

theorem Admission.requests_ne (h : Admission cfg s s' rid rest) {r : Nat} (hr : r ≠ rid) :
    s'.requests r = s.requests r := congrArg View.req (h.other r hr)

section Prefilled
variable (out : PrefillOut Col cfg.model.nLayers (s.requests rid).promptIds.length)

theorem prefilled_priority : (s.prefilled cfg rid rest out).priority = s.priority := by
  funext r
  by_cases hr : r = rid
  · subst hr
    simp [Batcher.priority]
  · simp [Batcher.priority, hr]

theorem prefilled_finished : (s.prefilled cfg rid rest out).finished = s.finished := by
  simp [Batcher.finished]

theorem prefilled_counted (h : Counted s) : Counted (s.prefilled cfg rid rest out) := by
  apply h.congr (prefilled_finished out) rfl rfl
  intro r _
  by_cases hr : r = rid
  · subst hr
    simp
  · simp [hr]

theorem prefilled_view_ne {r : Nat} (hr : r ≠ rid) :
    (s.prefilled cfg rid rest out).view r = s.view r := by
  apply Batcher.view_congr
  · rfl
  · rw [prefilled_finished]
  · simp [hr]
  · simp [BatchedSequenceCache.storePrefill, hr]
  · simp [BatchedSequenceCache.storePrefill, hr]
  · simp [Batcher.history, LogEntry.rid, hr.symm]

/-- What the admitted request has become, but for its location. -/
theorem prefilled_view_self (rest : List Nat) (loc : Loc) :
    { (s.prefilled cfg rid rest out).view rid with loc := loc } =
      { (s.view rid).prefill cfg rid (rest.map s.priority) out with loc := loc } := by
  ext1
  · rfl
  · simp
  · simp [BatchedSequenceCache.storePrefill, PrefillOut.pastKeyValues]
  · simp [BatchedSequenceCache.storePrefill]
  · simp [Batcher.history, LogEntry.rid, Batcher.priority]

end Prefilled

theorem admitOne_spec (hp : s.pending = rid :: rest) (hact : rid ∉ s.active)
    (hnd : s.active.Nodup) (h : admitOne cfg s = .ok s') : Admission cfg s s' rid rest := by
  obtain ⟨out, hout⟩ := admitOne_returns hp h
  rw [admitOne_eq hp hact hout] at h
  obtain rfl := Except.ok.inj h
  clear h
  by_cases he : cfg.ended (argmax out.logits)
      ((s.requests rid).firstToken cfg (argmax out.logits)) = true
  · rw [if_pos he]
    exact {
      self := by
        refine ⟨out, hout, ?_⟩
        rw [finish_view_self cfg (s.prefilled cfg rid rest out) rid hnd]
        unfold View.admitted
        simp only [View.prefill_req, Batcher.view_req, he, if_true]
        -- `View.finish` overwrites the location
        have hfin := congrArg (View.finish cfg rid (cfg.time s.clock))
          (prefilled_view_self out rest .finished)
        exact hfin
      other := fun r hr => by
        rw [finish_view_ne cfg (s.prefilled cfg rid rest out) rid hr]
        exact prefilled_view_ne out hr
      place := .inr ⟨by simp [List.erase_of_not_mem hact], by
        rw [finish_finished, prefilled_finished]⟩
      pending := rfl
      priority := by rw [finish_priority, prefilled_priority]
      submitted := rfl
      nextId := rfl
      forwards := rfl
      totalAdmitted := rfl
      totalPreemptions := rfl
      counted := fun h => finish_counted cfg _ rid (prefilled_counted out h) }
  · rw [if_neg he]
    exact {
      self := by
        refine ⟨out, hout, ?_⟩
        unfold View.admitted
        simp only [View.prefill_req, Batcher.view_req, he, Bool.false_eq_true, if_false]
        rw [joined_view_self]
        exact prefilled_view_self out rest .active
      other := fun r hr => by
        rw [joined_view_ne _ hr]
        exact prefilled_view_ne out hr
      place := .inl ⟨rfl, prefilled_finished out⟩
      pending := rfl
      priority := by
        show (s.prefilled cfg rid rest out).priority = s.priority
        exact prefilled_priority out
      submitted := rfl
      nextId := rfl
      forwards := rfl
      totalAdmitted := rfl
      totalPreemptions := rfl
      counted := fun h =>
        (prefilled_counted out h).congr rfl rfl rfl (fun _ _ => rfl) }

end AdmitOne

end PGI
