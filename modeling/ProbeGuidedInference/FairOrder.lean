import ProbeGuidedInference.Lib.Fifo
import ProbeGuidedInference.Logbook
import ProbeGuidedInference.TableModel

/- The queue is fair. A preempted request always has priority 1 and goes to the back of
   the queue, where `submit` puts new requests too, so new and preempted requests wait in
   one line and each kind is served in the order in which it joined. -/
namespace PGI
open Fallible Fifo

variable {Col : Type}

/-- The requests in the order in which they were admitted for the first time. -/
def firstAdmissions (log : List LogEntry) : List Nat := (admissions log).eraseDups

/-- The requests in the order in which they were admitted again. -/
def resumptions (log : List LogEntry) : List Nat := repeats (admissions log)

/-- Those admitted for the first time, followed by those of the queue that never were, are
    the submitted requests in order; and those resumed, followed by those of the queue
    that wait to be resumed, are the preempted ones in order. -/
structure FairOrder (s : Batcher Col) : Prop where
  first : firstAdmissions s.log ++ s.pending.filter (· ∉ admissions s.log) = s.submitted
  resumed : resumptions s.log ++ s.pending.filter (· ∈ admissions s.log) = preemptions s.log

/-- The queue as a line that is served in order. -/
abbrev Served (s : Batcher Col) : Prop :=
  InOrder s.submitted (preemptions s.log) (admissions s.log) s.pending

section Turns
variable {cfg : Config Col} {s s' : Batcher Col}

/-- Who runs has been admitted: it is not in the queue, and all others are. -/
theorem Served.active_admitted (hs : SysInv cfg s) (h : Served s) {r : Nat} (hr : r ∈ s.active) :
    r ∈ admissions s.log := by
  have hsub : r ∈ s.submitted := hs.mem_submitted.mpr (.inr (.inl hr))
  rw [← h.first, List.mem_append] at hsub
  rcases hsub with hfirst | hwaits
  · exact List.mem_eraseDups.mp hfirst
  · exact absurd hr (hs.pending_not_active (List.mem_of_mem_filter hwaits))

theorem Served.submit (hs : SysInv cfg s) (h : Served s) (maxTokens : Int) (promptIds : List Nat)
    (stream : Bool) : Served (submit maxTokens promptIds stream s) :=
  h.arrive hs.nextId_not_submitted

/-- An admission serves the head; a swap first gives the victim back. -/
theorem Intake.served (hs : SysInv cfg s) (h : Served s) (hi : Intake cfg s s') : Served s' := by
  have hsub : s'.submitted = s.submitted := (hi.work hs).submitted
  unfold Served
  rw [hsub]
  cases hi with
  | admission rid rest _ hp ha =>
    obtain ⟨tail, htail, hlog⟩ := admitOne_log hs hp ha
    have hnot : rid ∉ rest := by
      have hnd := hs.pending_nodup
      rw [hp] at hnd
      exact (List.nodup_cons.mp hnd).1
    unfold Served at h
    rw [hp] at h
    have hserve := h.serve hnot
    rw [(hs.admitOne hp ha).pending, hlog]
    simpa [admissions_quiet htail, preemptions_quiet htail] using hserve
  | swap rid rest victim _ hsw ha =>
    obtain ⟨hmem, hv⟩ := findDeprioritizeVictim_some hsw.victim
    obtain ⟨p, waiting, tail, htail, hlog⟩ := hsw.log hs ha
    have hnot : rid ∉ rest ++ [victim] := by
      have hnd := hs.pending_nodup
      rw [hsw.pending] at hnd
      have hne := hs.head_ne hsw.pending hmem
      simp [(List.nodup_cons.mp hnd).1, hne]
    have hback := h.giveBack (h.active_admitted hs hmem)
    rw [hsw.pending, List.cons_append] at hback
    have hserve := hback.serve hnot
    rw [(hsw.admission hs ha).pending, hlog]
    simpa [admissions_quiet htail, preemptions_quiet htail] using hserve

theorem decodePhase_served [Zero Col] (hs : SysInv cfg s) (h : Served s) (hne : s.active ≠ [])
    (hd : decodePhase cfg s = .ok s') : Served s' := by
  have hall := decodePhase_works hs hne hd
  have hquiet := decodePhase_quiet hs hne hd
  unfold Served
  rw [hall.submitted, hall.pending, hquiet.preemptions_eq, hquiet.admissions_eq]
  exact h

end Turns

theorem runEvents_served [Zero Col] {cfg : Config Col} {firstId : Nat} {events : List Event}
    {s : Batcher Col} (h : runEvents cfg firstId events = .ok s) : Served s := by
  refine (runEvents_keep_turns (I := Served) InOrder.nil ?_ ?_ ?_ ?_ h).2
  · intro s maxTokens promptIds stream hs hserved
    exact hserved.submit hs maxTokens promptIds stream
  · intro s rid _ hserved _
    exact hserved
  · intro s s' hs hserved hi
    exact hi.served hs hserved
  · intro s s' hs hserved hne hd
    exact decodePhase_served hs hserved hne hd

/-- **Nobody is overtaken**, neither among those who wait for the first time nor among those
    who wait to be resumed. -/
theorem fair_order [Zero Col] {cfg : Config Col} {firstId : Nat} {events : List Event}
    {s : Batcher Col} (hrun : runEvents cfg firstId events = .ok s) : FairOrder s := by
  have h := runEvents_served hrun
  exact ⟨h.first, h.again⟩

/-- A batch of one: 1 is preempted for 2, which needs one token, and is resumed. -/
def preemptedOnce : List Event :=
  [.submit 9 [1] false, .tick, .submit 1 [2] false, .tick, .submit 9 [3] false, .tick]

theorem fair_order_preempted_once :
    ∃ s, runEvents (divergentConfig .probeDeprioritize) 1 preemptedOnce = .ok s ∧ FairOrder s := by
  obtain ⟨s, hs, -⟩ :=
    runEvents_returns (divergentConfig_serves .probeDeprioritize) 1 preemptedOnce
  exact ⟨s, hs, fair_order hs⟩

end PGI
