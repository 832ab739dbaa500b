import ProbeGuidedInference.Conservation
import ProbeGuidedInference.Logbook

/- What a raising prefill leaves behind. `_admit_one` takes the head from the queue before
   it calls the model and puts it into the active map after, so when the forward raises
   the request is in neither, and nobody settles its future. `push_front`, which says of
   itself that it puts back a request that could not be admitted, is never called. -/
namespace PGI
open Fallible

variable {Col : Type}

/-- The future holds an answer. -/
def Future.settled : Future → Bool
  | .resolved _ => true
  | _ => false

/-- Every submitted request that has not finished waits, runs, or has an answer. -/
def NobodyLost (s : Batcher Col) : Prop :=
  ∀ r ∈ s.submitted, r ∉ s.finished →
    r ∈ s.pending ∨ r ∈ s.active ∨ (s.requests r).result.settled = true

/-- The model raised `msg` for request `r`, which is nowhere now and has no answer. -/
structure Lost (cfg : Config Col) (msg : String) (s : Batcher Col) (r : Nat) : Prop where
  raised : ∃ n, cfg.model.prefill n (s.requests r).promptIds = .error msg
  submitted : r ∈ s.submitted
  gone : r ∉ s.pending ∧ r ∉ s.active ∧ r ∉ s.finished
  unanswered : (s.requests r).result.settled = false

/-- The state in which `_admit_one` has taken `rid` from the queue, left `rest` there, and
    the model has raised. -/
@[simps] def Batcher.taken (s : Batcher Col) (rid : Nat) (rest : List Nat) : Batcher Col :=
  { s with
    pending := rest
    forwards := s.forwards + 1
    log := s.log ++ [.admitted rid (s.priority rid) (rest.map s.priority)] }

/-! Where the exception leaves `_try_admit`. -/

section Raising
variable {cfg : Config Col} {s : Batcher Col} {rid : Nat} {rest : List Nat}
  {x : PyError × Batcher Col}

theorem admitOne_raises (hp : s.pending = rid :: rest) {msg : String}
    (hraise : cfg.model.prefill s.forwards (s.requests rid).promptIds = .error msg) :
    admitOne cfg s = .error (.modelError msg, s.taken rid rest) := by
  let s₀ : Batcher Col := { s with pending := rest }.record
    (.admitted rid (s.priority rid) (rest.map s.priority))
  have hrun : runPrefill cfg s₀ rid = .error (.modelError msg, s.taken rid rest) := by
    have hraise₀ : cfg.model.prefill s₀.forwards (s₀.requests rid).promptIds = .error msg := hraise
    unfold runPrefill
    simp only [hraise₀]
    rfl
  unfold admitOne
  simp only [hp]
  show (runPrefill cfg s₀ rid >>= _) = _
  rw [hrun]
  rfl

/-- `_admit_one` raises only what the model's forward does. -/
theorem admitOne_error (hs : SysInv cfg s) (hp : s.pending = rid :: rest)
    (h : admitOne cfg s = .error x) :
    ∃ msg, cfg.model.prefill s.forwards (s.requests rid).promptIds = .error msg ∧
      x = (.modelError msg, s.taken rid rest) := by
  cases hout : cfg.model.prefill s.forwards (s.requests rid).promptIds with
  | error msg =>
    rw [admitOne_raises hp hout] at h
    exact ⟨msg, rfl, (Except.error.inj h).symm⟩
  | ok out =>
    rw [admitOne_eq hp (hs.head_not_active hp) hout] at h
    cases h

/-- The first loop raises in one of its turns, after some that do not. -/
theorem admitLoop_error : ∀ (fuel : Nat) {s : Batcher Col}, admitLoop cfg fuel s = .error x →
    ∃ k t rid rest, admitLoop cfg k s = .ok t ∧ t.pending = rid :: rest ∧
      admitOne cfg t = .error x := by
  intro fuel
  induction fuel with
  | zero =>
    intro s h
    cases h
  | succ fuel ih =>
    intro s h
    rcases admitLoop_turn cfg fuel s with ⟨rid, rest, hroom, hp, heq⟩ | ⟨-, heq⟩
    · rw [heq] at h
      rcases bind_eq_error.mp h with h | ⟨t, ht, h⟩
      · exact ⟨0, s, rid, rest, rfl, hp, h⟩
      · obtain ⟨k, u, rid', rest', hu, hp', hraise⟩ := ih h
        refine ⟨k + 1, u, rid', rest', ?_, hp', hraise⟩
        rw [admitLoop_of_room hroom hp, ht]
        exact hu
    · rw [heq] at h
      cases h

theorem preemptLoop_error : ∀ (attempts : Nat) {s : Batcher Col},
    preemptLoop cfg attempts s = .error x → ∃ k t rid rest victim, preemptLoop cfg k s = .ok t ∧
      Swappable cfg t rid rest victim ∧ admitOne cfg (preempt t victim) = .error x := by
  intro attempts
  induction attempts with
  | zero =>
    intro s h
    cases h
  | succ attempts ih =>
    intro s h
    rcases preemptLoop_turn cfg attempts s with ⟨rid, rest, victim, hsw, heq⟩ | ⟨-, heq⟩
    · rw [heq] at h
      rcases bind_eq_error.mp h with h | ⟨t, ht, h⟩
      · exact ⟨0, s, rid, rest, victim, rfl, hsw, h⟩
      · obtain ⟨k, u, rid', rest', victim', hu, hsw', hraise⟩ := ih h
        refine ⟨k + 1, u, rid', rest', victim', ?_, hsw', hraise⟩
        rw [preemptLoop_of_swappable hsw, ht]
        exact hu
    · rw [heq] at h
      cases h

/-- **Where `_try_admit` raises**: in an admission of the first loop, or of the second. -/
theorem tryAdmit_error (h : tryAdmit cfg s = .error x) :
    (∃ k t rid rest, admitLoop cfg k s = .ok t ∧ t.pending = rid :: rest ∧
      admitOne cfg t = .error x) ∨
    ∃ t k u rid rest victim, cfg.strategy = .probeDeprioritize ∧
      admitLoop cfg s.pending.length s = .ok t ∧ preemptLoop cfg k t = .ok u ∧
      Swappable cfg u rid rest victim ∧ admitOne cfg (preempt u victim) = .error x := by
  unfold tryAdmit at h
  rcases bind_eq_error.mp h with h | ⟨t, ht, h⟩
  · exact .inl (admitLoop_error _ h)
  · right
    split at h
    · cases h
    · rename_i hstrategy
      obtain ⟨k, u, rid, rest, victim, hu, hsw, hraise⟩ := preemptLoop_error _ h
      exact ⟨t, k, u, rid, rest, victim, by simpa using hstrategy, ht, hu, hsw, hraise⟩

/-- The state in which the failing `_admit_one` is called: all is in order there. -/
theorem tryAdmit_raises (hs : SysInv cfg s) (h : tryAdmit cfg s = .error x) :
    ∃ t rid rest, SysInv cfg t ∧ t.pending = rid :: rest ∧ admitOne cfg t = .error x := by
  rcases tryAdmit_error h with ⟨k, t, rid, rest, ht, hp, hraise⟩ |
    ⟨t, k, u, rid, rest, victim, hstrategy, ht, hu, hsw, hraise⟩
  · exact ⟨t, rid, rest, (admitLoop_intakes k ht).inv hs, hp, hraise⟩
  · have huinv := (preemptLoop_intakes hstrategy k hu).inv ((admitLoop_intakes _ ht).inv hs)
    obtain ⟨hmem, hv⟩ := findDeprioritizeVictim_some hsw.victim
    exact ⟨preempt u victim, rid, rest ++ [victim], huinv.preempt hmem hv,
      huinv.preempt_pending_cons hv hsw.pending, hraise⟩

end Raising

/-! Who is lost. -/

section Lost
variable {cfg : Config Col} {s : Batcher Col} {rid : Nat} {rest : List Nat}

theorem taken_finished (s : Batcher Col) (rid : Nat) (rest : List Nat) :
    (s.taken rid rest).finished = s.finished := by
  simp [Batcher.finished]

/-- The request for which the model raises is lost, and no other. -/
theorem taken_lost (hs : SysInv cfg s) (hp : s.pending = rid :: rest) {n : Nat} {msg : String}
    (hraise : cfg.model.prefill n (s.requests rid).promptIds = .error msg) :
    Lost cfg msg (s.taken rid rest) rid ∧ ∀ r ∈ s.submitted, r ≠ rid → r ∉ s.finished →
      r ∈ (s.taken rid rest).pending ∨ r ∈ (s.taken rid rest).active := by
  have hmem : rid ∈ s.pending := by rw [hp]; exact List.mem_cons_self
  have hsub : rid ∈ s.submitted := hs.mem_submitted.mpr (.inl hmem)
  have hnd := hs.pending_nodup
  rw [hp, List.nodup_cons] at hnd
  have hanswer := (hs.life rid hsub).answered.waiting
    (by rw [Batcher.view_loc, hs.loc_pending hmem]; decide)
  refine ⟨⟨⟨n, hraise⟩, hsub, ⟨hnd.1, hs.pending_not_active hmem, ?_⟩, ?_⟩, ?_⟩
  · rw [taken_finished]
    exact hs.pending_not_finished hmem
  · show (s.requests rid).result.settled = false
    rcases hanswer with hpending | hcancelled
    · rw [Batcher.view_req] at hpending
      rw [hpending]
      rfl
    · rw [Batcher.view_req] at hcancelled
      rw [hcancelled]
      rfl
  · intro r hr hne hfin
    rcases hs.mem_submitted.mp hr with h | h | h
    · rw [hp] at h
      exact .inl ((List.mem_cons.mp h).resolve_left hne)
    · exact .inr h
    · exact absurd h hfin

theorem Lost.not_nobodyLost {msg : String} {r : Nat} (h : Lost cfg msg s r) : ¬ NobodyLost s := by
  intro hnobody
  rcases hnobody r h.submitted h.gone.2.2 with hp | ha | hsettled
  · exact h.gone.1 hp
  · exact h.gone.2.1 ha
  · rw [h.unanswered] at hsettled
    cases hsettled

end Lost

/-- **A failed admission loses the request it failed for**, and only that. Whenever an
    exception leaves `_try_admit`, it is the model's, and the request for which the model
    raised is in neither queue nor active map, unfinished and without an answer. -/
theorem failed_admission_loses [Zero Col] {cfg : Config Col} {firstId : Nat} {events : List Event}
    {s s' : Batcher Col} {e : PyError} (hrun : runEvents cfg firstId events = .ok s)
    (hraise : tryAdmit cfg s = .error (e, s')) :
    ¬ NobodyLost s' ∧ ∃ msg r, e = .modelError msg ∧ Lost cfg msg s' r ∧
      ∀ r' ∈ s'.submitted, r' ≠ r → r' ∉ s'.finished → r' ∈ s'.pending ∨ r' ∈ s'.active := by
  have hs := runEvents_inv hrun
  obtain ⟨t, rid, rest, ht, hp, hfail⟩ := tryAdmit_raises hs hraise
  obtain ⟨msg, hmsg, heq⟩ := admitOne_error ht hp hfail
  obtain ⟨rfl, rfl⟩ := Prod.mk.inj heq
  obtain ⟨hlost, hothers⟩ := taken_lost ht hp hmsg
  rw [← taken_finished t rid rest] at hothers
  exact ⟨hlost.not_nobodyLost, msg, rid, rfl, hlost, hothers⟩

/-- A model that runs out of memory in its first forward. -/
def exhaustedModel : Model TokenColumn :=
  { tableModel (fun token _ => token + 1) with
    prefill := fun n promptIds =>
      if n = 0 then .error "CUDA out of memory"
      else (tableModel (fun token _ => token + 1)).prefill n promptIds }

def exhaustedConfig : Config TokenColumn :=
  { divergentConfig .baseline with model := exhaustedModel }

/-- One request is submitted, for which the model raises. -/
theorem exhausted_run : ∃ s s', runEvents exhaustedConfig 1 [.submit 9 [1] false] = .ok s ∧
    tryAdmit exhaustedConfig s = .error (.modelError "CUDA out of memory", s') ∧
    s'.submitted = [1] ∧ s'.finished = [] ∧ s'.pending = [] ∧ s'.active = [] ∧
    (s'.requests 1).result = .pending :=
  ⟨_, _, rfl, rfl, rfl, rfl, rfl, rfl, rfl⟩

theorem exhausted_loses : ∃ s s' e, runEvents exhaustedConfig 1 [.submit 9 [1] false] = .ok s ∧
    tryAdmit exhaustedConfig s = .error (e, s') ∧ ¬ NobodyLost s' := by
  obtain ⟨s, s', hs, hraise, hsub, hfin, hpend, hact, hresult⟩ := exhausted_run
  refine ⟨s, s', _, hs, hraise, fun hnobody => ?_⟩
  rcases hnobody 1 (by simp [hsub]) (by simp [hfin]) with h | h | h
  · rw [hpend] at h
    cases h
  · rw [hact] at h
    cases h
  · rw [hresult] at h
    cases h

theorem failed_admission_loses_exhausted :
    ∃ s s' e, runEvents exhaustedConfig 1 [.submit 9 [1] false] = .ok s ∧
      tryAdmit exhaustedConfig s = .error (e, s') ∧ ¬ NobodyLost s' ∧
      ∃ msg r, e = .modelError msg ∧ Lost exhaustedConfig msg s' r ∧
        ∀ r' ∈ s'.submitted, r' ≠ r → r' ∉ s'.finished → r' ∈ s'.pending ∨ r' ∈ s'.active := by
  obtain ⟨s, s', hs, hraise, -⟩ := exhausted_run
  exact ⟨s, s', _, hs, hraise, failed_admission_loses hs hraise⟩

end PGI
