import ProbeGuidedInference.Refinement

/- The log of a whole batcher, in which the events of different requests stand in their
   true order. It only grows. A turn of a loop of `_try_admit` writes one admission, after
   a preemption if the turn is a swap; a decode phase writes neither. -/
namespace PGI
open Fallible

variable {Col : Type}

/-- The requests taken from the queue, in order. -/
def admissions (log : List LogEntry) : List Nat :=
  log.filterMap (fun e => match e with
    | .admitted rid _ _ => some rid
    | _ => none)

/-- The requests preempted, in order. -/
def preemptions (log : List LogEntry) : List Nat :=
  log.filterMap (fun e => match e with
    | .preempt rid _ => some rid
    | _ => none)

/-- The entry is about neither an admission nor a preemption. -/
def LogEntry.quiet : LogEntry → Bool
  | .admitted _ _ _ => false
  | .preempt _ _ => false
  | _ => true

/-- From `s` to `s'` only quiet entries are written. -/
def Quiet (s s' : Batcher Col) : Prop :=
  ∃ entries, s'.log = s.log ++ entries ∧ ∀ e ∈ entries, e.quiet = true

section Lists
variable {log log' : List LogEntry}

@[simp] theorem admissions_append : admissions (log ++ log') = admissions log ++ admissions log' := by
  simp [admissions]

@[simp] theorem preemptions_append :
    preemptions (log ++ log') = preemptions log ++ preemptions log' := by
  simp [preemptions]

@[simp] theorem admissions_cons_admitted {rid : Nat} {p : Int} {waiting : List Int} :
    admissions (.admitted rid p waiting :: log) = rid :: admissions log := rfl

@[simp] theorem admissions_cons_preempt {rid n : Nat} :
    admissions (.preempt rid n :: log) = admissions log := rfl

@[simp] theorem preemptions_cons_admitted {rid : Nat} {p : Int} {waiting : List Int} :
    preemptions (.admitted rid p waiting :: log) = preemptions log := rfl

@[simp] theorem preemptions_cons_preempt {rid n : Nat} :
    preemptions (.preempt rid n :: log) = rid :: preemptions log := rfl

theorem admissions_quiet (h : ∀ e ∈ log, e.quiet = true) : admissions log = [] := by
  unfold admissions
  rw [List.filterMap_eq_nil_iff]
  intro e he
  have hq := h e he
  cases e with
  | admitted => cases hq
  | _ => rfl

theorem preemptions_quiet (h : ∀ e ∈ log, e.quiet = true) : preemptions log = [] := by
  unfold preemptions
  rw [List.filterMap_eq_nil_iff]
  intro e he
  have hq := h e he
  cases e with
  | preempt => cases hq
  | _ => rfl

theorem mem_admissions {rid : Nat} :
    rid ∈ admissions log ↔ ∃ p waiting, .admitted rid p waiting ∈ log := by
  unfold admissions
  rw [List.mem_filterMap]
  refine ⟨?_, ?_⟩
  · intro h
    obtain ⟨e, he, heq⟩ := h
    cases e with
    | admitted r p waiting =>
      obtain rfl := Option.some.inj heq
      exact ⟨p, waiting, he⟩
    | _ => cases heq
  · intro h
    obtain ⟨p, waiting, he⟩ := h
    exact ⟨_, he, rfl⟩

end Lists

namespace Quiet
variable {s t u : Batcher Col}

theorem refl (s : Batcher Col) : Quiet s s := ⟨[], by simp, by simp⟩

theorem of_log_eq (h : t.log = s.log) : Quiet s t := ⟨[], by simp [h], by simp⟩

theorem trans (h : Quiet s t) (h' : Quiet t u) : Quiet s u := by
  obtain ⟨l, hl, hq⟩ := h
  obtain ⟨l', hl', hq'⟩ := h'
  refine ⟨l ++ l', by rw [hl', hl, List.append_assoc], ?_⟩
  intro e he
  rcases List.mem_append.mp he with he | he
  · exact hq e he
  · exact hq' e he

theorem record {e : LogEntry} (he : e.quiet = true) : Quiet s (s.record e) :=
  ⟨[e], rfl, by simpa using he⟩

theorem admissions_eq (h : Quiet s t) : admissions t.log = admissions s.log := by
  obtain ⟨l, hl, hq⟩ := h
  rw [hl, admissions_append, admissions_quiet hq, List.append_nil]

theorem preemptions_eq (h : Quiet s t) : preemptions t.log = preemptions s.log := by
  obtain ⟨l, hl, hq⟩ := h
  rw [hl, preemptions_append, preemptions_quiet hq, List.append_nil]

end Quiet

/-! A decode phase. -/

section Decode
variable {cfg : Config Col} {s s' : Batcher Col}

theorem classifyRow_quiet {hidden : Option (List CapturedRow)} {rid i : Nat}
    (h : classifyRow cfg hidden s rid i = .ok s') : Quiet s s' := by
  obtain ⟨-, answer, -, -, hlog⟩ := classifyRow_spec h
  refine ⟨_, hlog, ?_⟩
  cases answer with
  | none => simp [classifyEntries]
  | some a => simp [classifyEntries, LogEntry.quiet]

theorem decodeLoop_quiet {nextIds : List Nat} {hidden : Option (List CapturedRow)} :
    ∀ (pairs : List (Nat × Nat)) {s : Batcher Col} {ids : List Nat},
    decodeLoop cfg nextIds hidden pairs s = .ok (ids, s') → Quiet s s' := by
  intro pairs
  induction pairs with
  | nil =>
    intro s ids h
    obtain ⟨-, rfl⟩ := Prod.mk.inj (Except.ok.inj h)
    exact .refl s
  | cons p rest ih =>
    intro s ids h
    obtain ⟨nid, t, ids', -, ht, hrest, -⟩ := decodeLoop_cons.mp h
    have hrow : Quiet s ((s.modify p.1 (·.appended nid)).record (.decode p.1 nid)) := ⟨[_], rfl, by
      simp [LogEntry.quiet]⟩
    have hreason : Quiet t (if cfg.ended nid (t.requests p.1) then
        t.modify p.1 (cfg.setReason nid) else t) := by
      split
      · exact .of_log_eq rfl
      · exact .refl t
    exact ((hrow.trans (classifyRow_quiet ht)).trans hreason).trans (ih hrest)

theorem finishAll_quiet : ∀ (ids : List Nat) {s : Batcher Col},
    finishAll cfg ids s = .ok s' → Quiet s s' := by
  intro ids
  induction ids with
  | nil =>
    intro s h
    obtain rfl := Except.ok.inj h
    exact .refl s
  | cons rid rest ih =>
    intro s h
    rw [finishAll] at h
    split at h
    · have hfin : Quiet s (finish cfg s rid) := ⟨[_], rfl, by simp [LogEntry.quiet]⟩
      exact hfin.trans (ih h)
    · cases h

variable [Zero Col]

theorem runDecodeStep_quiet {ids : List Nat} (hs : SysInv cfg s) (hne : s.active ≠ [])
    (h : runDecodeStep cfg s s.active = .ok (ids, s')) : Quiet s s' := by
  obtain ⟨g, hfed⟩ := hs.fed
  obtain ⟨maxLen, -, hforward⟩ := runDecodeStep_forward hfed hne
  rw [hforward] at h
  obtain ⟨out, -, h⟩ := bind_eq_ok.mp h
  obtain ⟨cache, -, -, hafter⟩ := afterForward_eq hfed hs.active_nodup maxLen out.val
  rw [hafter] at h
  have hlog : Quiet s (forwarded cfg s (decodeInput s g maxLen) out.val cache) := .of_log_eq rfl
  exact hlog.trans (decodeLoop_quiet _ h)

/-- **A decode phase admits and preempts nobody.** -/
theorem decodePhase_quiet (hs : SysInv cfg s) (hne : s.active ≠ [])
    (h : decodePhase cfg s = .ok s') : Quiet s s' := by
  obtain ⟨g, hfed⟩ := hs.fed
  unfold decodePhase at h
  obtain ⟨⟨ids, t⟩, hrun, h⟩ := bind_eq_ok.mp h
  have hkept := (runDecodeStep_spec hfed hne hs.active_nodup hrun).kept
  have hnd : t.active.Nodup := by
    rw [hkept.active]
    exact hs.active_nodup
  obtain ⟨-, hlog, -⟩ := applyRouting_spec cfg t hnd
  exact ((runDecodeStep_quiet hs hne hrun).trans (.of_log_eq hlog)).trans (finishAll_quiet _ h)

end Decode

/-! A turn of the loops. -/

section Intake
variable {cfg : Config Col} {s s' : Batcher Col} {rid : Nat} {rest : List Nat}

/-- An admission is written down first; then, at most, that the request is finished. -/
theorem admitOne_log (hs : SysInv cfg s) (hp : s.pending = rid :: rest)
    (h : admitOne cfg s = .ok s') : ∃ tail, (∀ e ∈ tail, e.quiet = true) ∧
      s'.log = s.log ++ .admitted rid (s.priority rid) (rest.map s.priority) :: tail := by
  obtain ⟨out, hout⟩ := admitOne_returns hp h
  rw [admitOne_eq hp (hs.head_not_active hp) hout] at h
  obtain rfl := Except.ok.inj h
  split
  · refine ⟨[.finish rid ((s.prefilled cfg rid rest out).requests rid).nGenerated],
      by simp [LogEntry.quiet], ?_⟩
    show (s.log ++ [_]) ++ [_] = _
    rw [List.append_assoc]
    rfl
  · exact ⟨[], by simp, rfl⟩

/-- A preemption writes itself down. -/
theorem preempt_log (s : Batcher Col) (victim : Nat) :
    (preempt s victim).log = s.log ++ [.preempt victim (s.requests victim).nGenerated] := rfl

/-- A swap writes the preemption, and then the admission. -/
theorem Swappable.log {victim : Nat} (hs : SysInv cfg s) (hsw : Swappable cfg s rid rest victim)
    (h : admitOne cfg (preempt s victim) = .ok s') : ∃ p waiting tail, (∀ e ∈ tail, e.quiet = true) ∧
      s'.log = s.log ++ .preempt victim (s.requests victim).nGenerated ::
        .admitted rid p waiting :: tail := by
  obtain ⟨hmem, hv⟩ := findDeprioritizeVictim_some hsw.victim
  obtain ⟨tail, htail, hlog⟩ := admitOne_log (hs.preempt hmem hv)
    (hs.preempt_pending_cons hv hsw.pending) h
  refine ⟨(preempt s victim).priority rid, (rest ++ [victim]).map (preempt s victim).priority,
    tail, htail, ?_⟩
  rw [hlog, preempt_log, List.append_assoc]
  rfl

end Intake

end PGI
