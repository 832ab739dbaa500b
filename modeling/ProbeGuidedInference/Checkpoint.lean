import ProbeGuidedInference.TableModel

/- When the gate is called and what it is shown. The log of a request falls into
   attempts, one an admission. The first token of an attempt comes from the prefill,
   where the gate is not consulted, so the gate is called at the first decode that
   leaves at least the checkpoint's number of tokens: at the checkpoint itself from 2
   on, at the second token when the checkpoint is 1. What it is shown is the hidden
   vector of the row that was fed the last token but one: the row that produced the
   token at the checkpoint, not the row of that token. -/
namespace PGI
open Fallible

variable {Col : Type}

/-! Attempts. -/

/-- The attempts in a log, newest first, with one more entry. -/
def addEntry (attempts : List (List LogEntry)) (e : LogEntry) : List (List LogEntry) :=
  match e, attempts with
  | .admitted _ _ _, attempts => [] :: attempts
  | _, [] => []
  | e, attempt :: older => (attempt ++ [e]) :: older

/-- The entries of each attempt of a request: those after one admission and before the
    next. -/
def attempts (history : List LogEntry) : List (List LogEntry) := history.foldl addEntry []

theorem attempts_append (h entries : List LogEntry) :
    attempts (h ++ entries) = entries.foldl addEntry (attempts h) := List.foldl_append

/-- Entries that are no admission belong to the newest attempt. -/
theorem attempts_extend {h attempt : List LogEntry} {older : List (List LogEntry)}
    (heq : attempts h = attempt :: older) : ∀ {entries : List LogEntry},
    (∀ rid p waiting, .admitted rid p waiting ∉ entries) →
    attempts (h ++ entries) = (attempt ++ entries) :: older := by
  intro entries hno
  induction entries generalizing h attempt with
  | nil => simpa using heq
  | cons e entries ih =>
    have hstep : attempts (h ++ [e]) = (attempt ++ [e]) :: older := by
      rw [attempts_append, heq]
      cases e with
      | admitted rid p waiting => exact absurd List.mem_cons_self (hno rid p waiting)
      | _ => rfl
    have hrest := ih hstep (fun rid p waiting hmem => hno rid p waiting (List.mem_cons_of_mem e hmem))
    simpa using hrest

theorem mem_attempts_extend {h entries attempt a : List LogEntry} {older : List (List LogEntry)}
    (heq : attempts h = attempt :: older) (hno : ∀ rid p waiting, .admitted rid p waiting ∉ entries)
    (ha : a ∈ attempts (h ++ entries)) : a = attempt ++ entries ∨ a ∈ attempts h := by
  rw [attempts_extend heq hno] at ha
  cases List.mem_cons.mp ha with
  | inl ha => exact .inl ha
  | inr ha => exact .inr (heq ▸ List.mem_cons_of_mem attempt ha)

/-- An admission begins an attempt. -/
theorem attempts_prefill {T : Nat} (cfg : Config Col) (rid : Nat) (waiting : List Int)
    (out : PrefillOut Col cfg.model.nLayers T) (v : View Col) :
    attempts (v.prefill cfg rid waiting out).history = [] :: attempts v.history := by
  simp [attempts_append, addEntry]

/-- The numbers of tokens at which the gate was called. -/
def calls (attempt : List LogEntry) : List Int :=
  attempt.filterMap (fun e => match e with
    | .classify _ n _ _ => some (n : Int)
    | _ => none)

/-- The tokens generated: one by the prefill, then one a decode. -/
def tokensOf (attempt : List LogEntry) : Nat :=
  1 + attempt.countP (fun e => match e with
    | .decode _ _ => true
    | _ => false)

/-- The gate is called once, at token `c`, if there is one, and else not at all. -/
def FiresAt (c : Int) (attempt : List LogEntry) : Prop :=
  calls attempt = if c ≤ tokensOf attempt then [c] else []

@[simp] theorem calls_append (l l' : List LogEntry) : calls (l ++ l') = calls l ++ calls l' := by
  simp [calls]

@[simp] theorem tokensOf_preempt (attempt : List LogEntry) (rid n : Nat) :
    tokensOf (attempt ++ [.preempt rid n]) = tokensOf attempt := by
  simp [tokensOf]

@[simp] theorem tokensOf_finish (attempt : List LogEntry) (rid n : Nat) :
    tokensOf (attempt ++ [.finish rid n]) = tokensOf attempt := by
  simp [tokensOf]

theorem tokensOf_decode (attempt : List LogEntry) (rid nid n : Nat) (answer : Answer) :
    tokensOf (attempt ++ View.decodeEntries rid nid n answer) = tokensOf attempt + 1 := by
  cases answer with
  | none =>
    simp [View.decodeEntries, tokensOf]
    omega
  | some a =>
    simp [View.decodeEntries, tokensOf]
    omega

theorem calls_decode (rid nid n : Nat) (answer : Answer) :
    calls (View.decodeEntries rid nid n answer) = if answer.isSome then [(n : Int) + 1] else [] := by
  cases answer with
  | none => rfl
  | some a => rfl

/-- The last entry of an attempt, `_preempt` or `_finish`, is no token and no call. -/
theorem FiresAt.preempt {c : Int} {rid n : Nat} {attempt : List LogEntry} (h : FiresAt c attempt) :
    FiresAt c (attempt ++ [.preempt rid n]) := by
  have hcalls : calls (attempt ++ [.preempt rid n]) = calls attempt := by
    simp [calls]
  unfold FiresAt
  rw [tokensOf_preempt, hcalls, h]

theorem FiresAt.finish {c : Int} {rid n : Nat} {attempt : List LogEntry} (h : FiresAt c attempt) :
    FiresAt c (attempt ++ [.finish rid n]) := by
  have hcalls : calls (attempt ++ [.finish rid n]) = calls attempt := by
    simp [calls]
  unfold FiresAt
  rw [tokensOf_finish, hcalls, h]

/-- A decode is one more token, and a call if it is the one that reaches `c`. -/
theorem FiresAt.decode {c : Int} {rid nid n : Nat} {answer : Answer} {attempt : List LogEntry}
    (h : FiresAt c attempt) (hn : tokensOf attempt = n)
    (hcalled : answer.isSome = true ↔ (n : Int) + 1 = c) :
    FiresAt c (attempt ++ View.decodeEntries rid nid n answer) := by
  unfold FiresAt at h ⊢
  rw [tokensOf_decode, calls_append, calls_decode, h, hn, Nat.cast_add, Nat.cast_one]
  by_cases hnow : (n : Int) + 1 = c
  · rw [if_pos (hcalled.mpr hnow), if_neg (by omega), if_pos (by omega), hnow, List.nil_append]
  · have hiff : c ≤ (n : Int) + 1 ↔ c ≤ n := by omega
    rw [if_neg (mt hcalled.mp hnow), List.append_nil]
    simp only [hiff]

/-! One request. -/

/-- What the gate is shown when it is called for request `rid` at `n` tokens: the hidden
    vector of the request's own row of some forward, at the position of its last token
    but one. -/
structure Shown (cfg : Config Col) (g : ClassificationGate) (rid promptLen n : Nat)
    (row : CapturedRow) (d : RoutingDecision) : Prop where
  own : row.seqId = rid
  position : row.positionId + 2 = promptLen + n
  forward : ∃ cols out, RowOf cfg.model row.inputId row.positionId cols out ∧ out.hidden = row.hidden
  answer : ∃ k, g.classify k row.hidden = .ok d

/-- Where the gate has been called for a request. -/
structure Checked (cfg : Config Col) (g : ClassificationGate) (rid : Nat) (v : View Col) : Prop where
  fires : ∀ attempt ∈ attempts v.history, FiresAt (max 2 g.checkpointPosition) attempt
  shown : ∀ (n : Nat) row d, .classify rid n row d ∈ v.history → (n : Int) = max 2 g.checkpointPosition ∧
    Shown cfg g rid v.req.promptIds.length n row d
  current : v.loc = .active → ∃ attempt older, attempts v.history = attempt :: older ∧
    tokensOf attempt = v.req.nGenerated ∧
    (v.req.routingDecision.isSome = true ↔ max 2 g.checkpointPosition ≤ v.req.nGenerated)

section OneRequest
variable {cfg : Config Col} {g : ClassificationGate} {rid : Nat} {v : View Col}

/-- The end of a request, or of an attempt, is no call of the gate. -/
theorem checked_finish {time : ℚ} {u : View Col} (h : Checked cfg g rid u) (hloc : u.loc = .active) :
    Checked cfg g rid (u.finish cfg rid time) where
  fires := by
    obtain ⟨attempt, older, heq, -, -⟩ := h.current hloc
    intro a ha
    cases mem_attempts_extend heq (by simp) ha with
    | inl ha =>
      rw [ha]
      exact (h.fires attempt (by simp [heq])).finish
    | inr ha => exact h.fires a ha
  shown n row d hmem := h.shown n row d (by simpa using hmem)
  current hc := by cases hc

theorem checked_preempt (h : Checked cfg g rid v) (hloc : v.loc = .active) :
    Checked cfg g rid (v.preempt rid) where
  fires := by
    obtain ⟨attempt, older, heq, -, -⟩ := h.current hloc
    intro a ha
    cases mem_attempts_extend heq (by simp) ha with
    | inl ha =>
      rw [ha]
      exact (h.fires attempt (by simp [heq])).preempt
    | inr ha => exact h.fires a ha
  shown n row d hmem := h.shown n row d (by simpa using hmem)
  current hc := by cases hc

theorem checked_prefill (hinv : LifeInv cfg v) (h : Checked cfg g rid v)
    (hloc : v.loc = .pending) (waiting : List Int)
    (out : PrefillOut Col cfg.model.nLayers v.req.promptIds.length) :
    Checked cfg g rid (v.prefill cfg rid waiting out) where
  fires := by
    intro a ha
    rw [attempts_prefill] at ha
    cases List.mem_cons.mp ha with
    | inl ha =>
      -- one token, no call
      have hlt : ¬ max 2 g.checkpointPosition ≤ 1 := by omega
      rw [ha]
      simp [FiresAt, calls, tokensOf, hlt]
    | inr ha => exact h.fires a ha
  shown n row d hmem := h.shown n row d (by simpa using hmem)
  current _ := by
    obtain ⟨-, -, hgen, hdec⟩ := hinv.waiting hloc
    have hlt : ¬ max 2 g.checkpointPosition ≤ 1 := by omega
    refine ⟨[], attempts v.history, attempts_prefill cfg rid waiting out v, ?_, ?_⟩
    · simp [tokensOf, GenerationRequest.nGenerated, hgen]
    · simp [GenerationRequest.nGenerated, hgen, hdec, hlt]

/-- Whether the gate is called in a decode of an attempt with `n` tokens. -/
theorem called_iff (hg : cfg.gate = some g) {n : Nat} {row : CapturedRow} {r : GenerationRequest}
    {answer : Answer} (hn : r.nGenerated = n + 1) (hpos : 1 ≤ n)
    (hdec : r.routingDecision.isSome = true ↔ max 2 g.checkpointPosition ≤ n)
    (hgate : GateCall cfg row r answer) :
    answer.isSome = true ↔ (n : Int) + 1 = max 2 g.checkpointPosition := by
  have hready : (r.routingDecision.isNone && g.readyAt r.nGenerated) = true ↔
      (n : Int) + 1 = max 2 g.checkpointPosition := by
    rw [Bool.and_eq_true, ← Option.not_isSome, Bool.not_eq_true', ← Bool.not_eq_true, hdec,
      ClassificationGate.readyAt, decide_eq_true_eq, hn]
    omega
  cases hgate with
  | skipped h =>
    rw [← hready, h g hg]
    simp
  | called g' _ d time hg' hready' _ =>
    obtain rfl := Option.some.inj (hg.symm.trans hg')
    rw [← hready, hready']
    simp

theorem checked_advance (hg : cfg.gate = some g) (hinv : LifeInv cfg v)
    (h : Checked cfg g rid v) (hloc : v.loc = .active) {token position : Nat}
    {cols : Fin cfg.model.nLayers → List Col × List Col} {row : ForwardRow Col cfg.model.nLayers}
    (hlen : v.len = some position) (hrow : RowOf cfg.model token position cols row) {answer : Answer}
    (hgate : GateCall cfg ⟨rid, token, position, row.hidden⟩
      (v.req.appended (argmax row.logits)) answer) :
    Checked cfg g rid (v.advance cfg rid cols row answer) := by
  obtain ⟨attempt, older, heq, htokens, hdec⟩ := h.current hloc
  have hfires := h.fires attempt (by simp [heq])
  have hrun := hinv.running hloc
  have hpos : 1 ≤ v.req.nGenerated := List.length_pos_iff.mpr hrun.nonempty
  have hn : (v.req.appended (argmax row.logits)).nGenerated = v.req.nGenerated + 1 := by
    simp [GenerationRequest.appended, GenerationRequest.nGenerated]
  have hn' : (v.advance cfg rid cols row answer).req.nGenerated = v.req.nGenerated + 1 := by
    simp [GenerationRequest.nGenerated]
  have hcalled := called_iff hg hn hpos hdec hgate
  have hno : ∀ r p waiting, .admitted r p waiting ∉
      View.decodeEntries rid (argmax row.logits) v.req.nGenerated answer := by simp
  refine ⟨?_, ?_, fun _ => ⟨_, older, attempts_extend heq hno, ?_, ?_⟩⟩
  · intro a ha
    cases mem_attempts_extend heq hno ha with
    | inl ha =>
      rw [ha]
      exact hfires.decode htokens hcalled
    | inr ha => exact h.fires a ha
  · intro n crow d hmem
    cases (View.classify_mem_advance cfg rid v).mp hmem with
    | inl hmem => exact h.shown n crow d hmem
    | inr hnew =>
      obtain ⟨rfl, time, rfl⟩ := hnew
      refine ⟨hcalled.mp rfl, ?_⟩
      cases hgate with
      | called g' k _ _ hg' _ hd =>
        obtain rfl := Option.some.inj (hg.symm.trans hg')
        refine ⟨rfl, ?_, ⟨cols, row, hrow, rfl⟩, ⟨k, hd⟩⟩
        have hposition : position = v.req.position := by
          have := hrun.len
          rw [hlen] at this
          exact Option.some.inj this
        have hcount := hrun.position
        show position + 2 = v.req.promptIds.length + (v.req.nGenerated + 1)
        omega
  · rw [tokensOf_decode, hn', htokens]
  · rw [hn', View.advance_req, GenerationRequest.routeOnce_routingDecision,
      GenerationRequest.nextToken_routingDecision, Option.isSome_or, Option.isSome_map,
      Answer.decision, Option.isSome_map, Bool.or_eq_true, hcalled, hdec]
    omega

theorem LifeReach.checked (hg : cfg.gate = some g) (h : LifeReach cfg rid v) :
    Checked cfg g rid v := by
  refine h.keep_moves (P := Checked cfg g rid) ?_ ?_ ?_ ?_ ?_ ?_
  · intro maxTokens promptIds stream
    exact ⟨fun a ha => (by cases ha), fun n row d hmem => (by cases hmem), fun hc => by cases hc⟩
  · intro v h
    exact ⟨h.fires, h.shown, h.current⟩
  · intro v waiting out hinv h hloc
    exact checked_prefill hinv h hloc waiting out
  · intro v cols token position row answer hinv h hloc hlen hrow hgate
    exact checked_advance hg hinv h hloc hlen hrow hgate
  · intro v _ h hloc _
    exact checked_preempt h hloc
  · intro v time h hloc
    exact checked_finish h hloc

end OneRequest

/-! Whole runs. -/

section Runs
variable [Zero Col] {cfg : Config Col} {firstId : Nat} {events : List Event} {s : Batcher Col}

/-- **The gate fires at the checkpoint exactly when the checkpoint is 2 or more.** In every
    run and every attempt of every request, with a checkpoint `c ≥ 1`: that the gate is
    called once, at `c` tokens, if the attempt has as many, and not at all otherwise,
    holds if and only if `c ≥ 2`. -/
theorem gate_fires_at_checkpoint_iff (hrun : runEvents cfg firstId events = .ok s)
    {g : ClassificationGate} (hg : cfg.gate = some g) (hc : 1 ≤ g.checkpointPosition)
    {r : Nat} (hr : r ∈ s.submitted) :
    ∀ attempt ∈ attempts (s.history r),
      FiresAt g.checkpointPosition attempt ↔ 2 ≤ g.checkpointPosition := by
  intro attempt hmem
  have hfires := ((runEvents_life hrun hr).checked hg).fires attempt hmem
  unfold FiresAt at hfires ⊢
  refine ⟨?_, ?_⟩
  · intro h
    by_contra hlt
    -- a checkpoint of 1: the first token is there, and the gate is called at the second or never
    have hone : g.checkpointPosition = 1 := by omega
    have htokens : (1 : Int) ≤ tokensOf attempt := by
      unfold tokensOf
      omega
    rw [hone] at h hfires
    rw [if_pos htokens, hfires] at h
    split at h
    · cases h
    · cases h
  · intro h
    rw [max_eq_right h] at hfires
    exact hfires

/-- One request that is asked for two tokens. -/
def twoTokens : List Event := [.submit 2 [1] false, .tick]

/-- With the checkpoint at 1 the gate is called at the second token. -/
theorem first_token_missed :
    ∃ s, runEvents (countingConfig .baseline 1 (constantGate 1 .convergent 1)) 1 twoTokens = .ok s ∧
      ∃ attempt ∈ attempts (s.history 1), ¬ FiresAt 1 attempt := by
  have hrun : (runEvents (countingConfig .baseline 1 (constantGate 1 .convergent 1)) 1
      twoTokens).toOption.map (fun s => (attempts (s.history 1)).map
        (fun attempt => (calls attempt, tokensOf attempt))) = some [([2], 2)] := by decide
  obtain ⟨s, hs, hread⟩ := toOption_map_eq_some.mp hrun
  refine ⟨s, hs, ?_⟩
  obtain ⟨attempt, rest, hatt, hfirst, -⟩ := List.map_eq_cons_iff.mp hread
  refine ⟨attempt, by simp [hatt], ?_⟩
  simp only [Prod.mk.injEq] at hfirst
  simp [FiresAt, hfirst.1, hfirst.2]

theorem gate_fires_at_checkpoint_counting :
    ∃ s, runEvents (countingConfig .baseline 1 (constantGate 2 .convergent 1)) 1 twoTokens = .ok s ∧
      ∀ attempt ∈ attempts (s.history 1), FiresAt 2 attempt ↔ (2 : Int) ≤ 2 := by
  have hrun : (runEvents (countingConfig .baseline 1 (constantGate 2 .convergent 1)) 1
      twoTokens).toOption.map (fun s => s.submitted) = some [1] := by decide
  obtain ⟨s, hs, hsub⟩ := toOption_map_eq_some.mp hrun
  exact ⟨s, hs, gate_fires_at_checkpoint_iff hs rfl (by decide) (by rw [hsub]; decide)⟩

/-- The row is the request's own, at the position of the `c`-th token generated after a
    prompt of this length. -/
def ReadsToken (rid promptLen : Nat) (c : Int) (row : CapturedRow) : Prop :=
  row.seqId = rid ∧ (row.positionId : Int) = promptLen + (c - 1)

/-- **The probe never reads the token at the checkpoint.** Whenever the gate, with a
    checkpoint `c ≥ 2`, is called for a request, it is called at `c` tokens and shown the
    request's own row, but at the position of the token before the `c`-th. -/
theorem probe_reads_previous_token (hrun : runEvents cfg firstId events = .ok s)
    {g : ClassificationGate} (hg : cfg.gate = some g) (hc : 2 ≤ g.checkpointPosition)
    {r : Nat} (hr : r ∈ s.submitted) {n : Nat} {row : CapturedRow} {d : RoutingDecision}
    (hcall : .classify r n row d ∈ s.history r) :
    (n : Int) = g.checkpointPosition ∧ Shown cfg g r (s.requests r).promptIds.length n row d ∧
      ¬ ReadsToken r (s.requests r).promptIds.length g.checkpointPosition row := by
  obtain ⟨hn, hshown⟩ := ((runEvents_life hrun hr).checked hg).shown n row d hcall
  rw [max_eq_right hc] at hn
  refine ⟨hn, hshown, ?_⟩
  intro h
  obtain ⟨-, hposition⟩ := h
  have hbefore : row.positionId + 2 = (s.requests r).promptIds.length + n := hshown.position
  omega

end Runs

theorem twoTokens_history :
    ∃ s, runEvents (countingConfig .baseline 1 (constantGate 2 .convergent 1)) 1 twoTokens = .ok s ∧
      s.submitted = [1] ∧ (s.requests 1).promptIds = [1] ∧
      s.history 1 = [.admitted 1 0 [], .decode 1 3,
        .classify 1 2 ⟨1, 2, 1, [2, 1]⟩ ⟨.convergent, 1, 2⟩, .finish 1 2] := by
  have hrun : (runEvents (countingConfig .baseline 1 (constantGate 2 .convergent 1)) 1
      twoTokens).toOption.map (fun s => (s.submitted, (s.requests 1).promptIds, s.history 1)) =
      some ([1], [1], [.admitted 1 0 [], .decode 1 3,
        .classify 1 2 ⟨1, 2, 1, [2, 1]⟩ ⟨.convergent, 1, 2⟩, .finish 1 2]) := by decide
  obtain ⟨s, hs, hread⟩ := toOption_map_eq_some.mp hrun
  simp only [Prod.mk.injEq] at hread
  exact ⟨s, hs, hread⟩

/-- The gate is called at the second token, 3, which will be fed at position 2, and is
    shown the row of the first, 2, at position 1. -/
theorem second_token_unread :
    ∃ s, runEvents (countingConfig .baseline 1 (constantGate 2 .convergent 1)) 1 twoTokens = .ok s ∧
      ∃ row d, .classify 1 2 row d ∈ s.history 1 ∧
        ¬ ReadsToken 1 (s.requests 1).promptIds.length 2 row := by
  obtain ⟨s, hs, -, hprompt, hhist⟩ := twoTokens_history
  refine ⟨s, hs, ⟨1, 2, 1, [2, 1]⟩, ⟨.convergent, 1, 2⟩, by simp [hhist], ?_⟩
  simp [ReadsToken, hprompt]

theorem probe_reads_previous_token_counting :
    ∃ s, runEvents (countingConfig .baseline 1 (constantGate 2 .convergent 1)) 1 twoTokens = .ok s ∧
      ((2 : Nat) : Int) = 2 ∧ Shown (countingConfig .baseline 1 (constantGate 2 .convergent 1))
        (constantGate 2 .convergent 1) 1 (s.requests 1).promptIds.length 2
        ⟨1, 2, 1, [2, 1]⟩ ⟨.convergent, 1, 2⟩ ∧
      ¬ ReadsToken 1 (s.requests 1).promptIds.length 2 ⟨1, 2, 1, [2, 1]⟩ := by
  obtain ⟨s, hs, hsub, -, hhist⟩ := twoTokens_history
  exact ⟨s, hs, probe_reads_previous_token hs rfl (by decide) (by simp [hsub]) (by simp [hhist])⟩

end PGI
