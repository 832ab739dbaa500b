import ProbeGuidedInference.Lib.Potential
import ProbeGuidedInference.TableModel

/- A closed workload drains. Preemption throws tokens away, so the number of tokens does
   not grow from tick to tick. What falls is a potential: with `L` a bound on the tokens
   of a request, a request still to be generated counts `L` if it waits, less its tokens
   if it runs, and once more `L` if it has never been deprioritized and waits. A swap
   costs its victim fewer than `L` tokens and takes a normal request from the queue for
   good, which is worth more than `L`. Every piece of work lowers the potential, and
   every tick of a batcher that is not idle does some. -/
namespace PGI
open Fallible

variable {Col : Type}

/-- The most tokens a request may get, which is one at least. -/
def Config.limit (cfg : Config Col) (maxTokens : Int) : Nat :=
  (max 1 (min maxTokens cfg.maxTokensCap)).toNat

def LimitsTo (cfg : Config Col) (L : Nat) (s : Batcher Col) : Prop :=
  ∀ r ∈ s.submitted, cfg.limit (s.requests r).maxTokens ≤ L

/-- What is left to do for one request. -/
def View.weight (L : Nat) (v : View Col) : Nat :=
  match v.loc with
  | .pending => if v.req.priority = 0 then 2 * L else L
  | .active => L - v.req.nGenerated
  | .finished => 0

def potential (L : Nat) (s : Batcher Col) : Nat :=
  Potential.total s.submitted (fun r => (s.view r).weight L)

def Idle (s : Batcher Col) : Prop := s.pending = [] ∧ s.active = []

/-! One request. -/

section Weight
variable {cfg : Config Col} {rid L : Nat} {v : View Col}

theorem View.weight_le (v : View Col) : v.weight L ≤ 2 * L := by
  unfold View.weight
  split
  · split <;> omega
  · omega
  · omega

theorem weight_pending (hloc : v.loc = .pending) : L ≤ v.weight L := by
  unfold View.weight
  rw [hloc]
  show L ≤ if v.req.priority = 0 then 2 * L else L
  split <;> omega

theorem weight_normal (hloc : v.loc = .pending) (hprio : v.req.priority = 0) :
    v.weight L = 2 * L := by
  simp [View.weight, hloc, hprio]

theorem weight_active (hloc : v.loc = .active) : v.weight L = L - v.req.nGenerated := by
  simp [View.weight, hloc]

/-- A running request is below its limit. -/
theorem Running.below_limit (h : Running cfg v) (hL : cfg.limit v.req.maxTokens ≤ L) :
    v.req.nGenerated < L := by
  have hbelow := h.below
  unfold Config.limit at hL
  omega

theorem weight_admitted {T : Nat} (h : LifeInv cfg v) (hloc : v.loc = .pending)
    (hL : cfg.limit v.req.maxTokens ≤ L) (waiting : List Int)
    (out : PrefillOut Col cfg.model.nLayers T) (time : ℚ) :
    (v.admitted cfg rid waiting out time).weight L + 1 ≤ L := by
  obtain ⟨-, -, hgen, -⟩ := h.waiting hloc
  have hpos : 1 ≤ L := by
    unfold Config.limit at hL
    omega
  rcases v.admitted_cases cfg rid time waiting out with ⟨heq, -⟩ | ⟨heq, -⟩
  · rw [heq]
    show 0 + 1 ≤ L
    omega
  · rw [heq, weight_active rfl]
    simp only [View.prefill_req, GenerationRequest.nGenerated,
      GenerationRequest.firstToken_generatedIds, hgen, List.nil_append, List.length_singleton]
    omega

theorem weight_preempt (h : Running cfg v) (hloc : v.loc = .active) (hprio : v.req.priority = 1)
    (hL : cfg.limit v.req.maxTokens ≤ L) : (v.preempt rid).weight L + 1 ≤ v.weight L + L := by
  have hbelow := h.below_limit hL
  rw [weight_active hloc]
  simp only [View.weight, View.preempt_loc, View.preempt_req, GenerationRequest.preempted_priority,
    hprio, one_ne_zero, if_false]
  omega

theorem Decoded.weight {v' : View Col} (h : Running cfg v) (hloc : v.loc = .active)
    (hL : cfg.limit v.req.maxTokens ≤ L) (hdec : Decoded cfg rid v v') :
    v'.weight L < v.weight L := by
  have hbelow := h.below_limit hL
  rw [weight_active hloc]
  obtain ⟨cols, token, position, row, answer, time, -, -, -, -, -⟩ := hdec
  rcases v.decode_cases cfg rid time cols row answer with ⟨heq, -⟩ | ⟨heq, -⟩
  · rw [heq]
    show 0 < L - v.req.nGenerated
    omega
  · rw [heq, weight_active rfl]
    simp only [View.advance_req, GenerationRequest.nGenerated,
      GenerationRequest.routeOnce_generatedIds, GenerationRequest.nextToken_generatedIds,
      List.length_append, List.length_singleton] at hbelow ⊢
    omega

end Weight

/-! All requests. -/

section Potential
variable {cfg : Config Col} {L : Nat} {s t : Batcher Col}

theorem potential_le (s : Batcher Col) : potential L s ≤ 2 * s.submitted.length * L := by
  calc potential L s ≤ s.submitted.length * (2 * L) :=
        Potential.total_le (fun r _ => View.weight_le _)
    _ = 2 * s.submitted.length * L := by
        rw [← Nat.mul_assoc, Nat.mul_comm s.submitted.length 2]

/-- What is left to do for some of the requests, where only one of them has changed. -/
theorem total_weight_change {parties : List Nat} (hnd : parties.Nodup) {r : Nat} (hr : r ∈ parties)
    (h : ∀ x ≠ r, t.view x = s.view x) :
    Potential.total parties (fun x => (t.view x).weight L) + (s.view r).weight L =
      Potential.total parties (fun x => (s.view x).weight L) + (t.view r).weight L := by
  have hsame : ∀ j ≠ r, (t.view j).weight L = (s.view j).weight L := by
    intro j hj
    rw [h j hj]
  exact Potential.total_change (f := fun r => (s.view r).weight L)
    (g := fun r => (t.view r).weight L) hnd hr hsame

theorem Admission.weight (hs : SysInv cfg s) {rid : Nat} {rest : List Nat}
    (hL : cfg.limit (s.requests rid).maxTokens ≤ L) (hp : s.pending = rid :: rest)
    (h : Admission cfg s t rid rest) : (t.view rid).weight L + 1 ≤ L := by
  have hmem : rid ∈ s.pending := by rw [hp]; exact List.mem_cons_self
  have hsub := hs.mem_submitted.mpr (.inl hmem)
  obtain ⟨out, -, hview⟩ := h.self
  rw [hview]
  exact weight_admitted (hs.lifeInv hsub) (hs.loc_pending hmem) hL _ _ _

/-- **Every piece of work lowers what is left to do** for any requests that include the head
    of the queue and those that run. -/
theorem Work.total_weight (hs : SysInv cfg s) {parties : List Nat} (hnd : parties.Nodup)
    (hL : ∀ r ∈ parties, cfg.limit (s.requests r).maxTokens ≤ L)
    (hhead : ∀ rid rest, s.pending = rid :: rest → rid ∈ parties) (hactive : s.active ⊆ parties)
    (h : Work cfg s t) : Potential.total parties (fun x => (t.view x).weight L) <
      Potential.total parties (fun x => (s.view x).weight L) := by
  cases h with
  | admission rid rest _ hp h =>
    have hmem : rid ∈ s.pending := by rw [hp]; exact List.mem_cons_self
    have hin := hhead rid rest hp
    have hchange := total_weight_change (L := L) hnd hin h.other
    have hafter := h.weight hs (hL rid hin) hp
    have hbefore : L ≤ (s.view rid).weight L := weight_pending (hs.loc_pending hmem)
    omega
  | swap rid rest victim _ _ hp hzero hvictim hv h =>
    have hmem : rid ∈ s.pending := by rw [hp]; exact List.mem_cons_self
    have hin := hhead rid rest hp
    have hvin := hactive hvictim
    have hne := hs.head_ne hp hvictim
    -- the victim goes back to the queue
    have hpre := hs.preempt hvictim hv
    have hback := total_weight_change (L := L) hnd hvin (fun x hx => preempt_view_ne s victim hx)
    rw [preempt_view_self s victim hs.active_nodup (hs.active_not_finished hvictim)] at hback
    have hcost : ((s.view victim).preempt victim).weight L + 1 ≤ (s.view victim).weight L + L :=
      weight_preempt (hs.running hvictim) (loc_active hvictim) hv (hL victim hvin)
    -- and the normal request at the head leaves it
    have hsame := preempt_view_ne s victim hne
    have hreq := preempt_requests_ne s victim hne
    have hp' := hs.preempt_pending_cons hv hp
    have hchange := total_weight_change (L := L) hnd hin h.other
    have hlimit : cfg.limit ((preempt s victim).requests rid).maxTokens ≤ L := by
      rw [hreq]
      exact hL rid hin
    have hafter := h.weight hpre hlimit hp'
    have hbefore : ((preempt s victim).view rid).weight L = 2 * L := by
      rw [hsame]
      exact weight_normal (hs.loc_pending hmem) hzero
    omega
  | decode hne h =>
    have hlower : ∀ r ∈ s.active, (t.view r).weight L < (s.view r).weight L := fun r hr =>
      (h.self r hr).weight (hs.running hr) (loc_active hr) (hL r (hactive hr))
    obtain ⟨r, rest, hr⟩ := List.exists_cons_of_ne_nil hne
    have hmem : r ∈ s.active := by rw [hr]; exact List.mem_cons_self
    apply Potential.total_lt _ (hactive hmem) (hlower r hmem)
    intro x _
    by_cases hx : x ∈ s.active
    · exact (hlower x hx).le
    · rw [h.other x hx]

theorem Work.potential (hs : SysInv cfg s) (hL : LimitsTo cfg L s) (h : Work cfg s t) :
    PGI.potential L t < PGI.potential L s := by
  have hhead : ∀ rid rest, s.pending = rid :: rest → rid ∈ s.submitted := by
    intro rid rest hp
    exact hs.mem_submitted.mpr (.inl (hp ▸ List.mem_cons_self))
  unfold PGI.potential
  rw [h.submitted]
  exact h.total_weight hs hs.nodup hL hhead (fun r hr => hs.mem_submitted.mpr (.inr (.inl hr)))

theorem Works.limits (hs : SysInv cfg s) (hL : LimitsTo cfg L s) (h : Works cfg s t) :
    LimitsTo cfg L t := by
  intro r hr
  rw [h.submitted] at hr
  rw [(h.request hs r).2.1]
  exact hL r hr

theorem Works.potential (hs : SysInv cfg s) (hL : LimitsTo cfg L s) (h : Works cfg s t) :
    PGI.potential L t ≤ PGI.potential L s := by
  refine (h.keep (I := fun u => LimitsTo cfg L u ∧ PGI.potential L u ≤ PGI.potential L s) ?_ hs
    ⟨hL, le_refl _⟩).2.2
  intro u w hu hI hw
  have hworks : Works cfg u w := .single hw
  exact ⟨hworks.limits hu hI.1, (hw.potential hu hI.1).le.trans hI.2⟩

end Potential

/-! Every tick works until the batcher is idle. -/

section Drains
variable {cfg : Config Col} {L : Nat} {s s' : Batcher Col}

/-- With a free slot and a request waiting, `_try_admit` admits. -/
theorem tryAdmit_admits (hs : SysInv cfg s) (hroom : s.active.length < cfg.maxBatchSize)
    (hne : s.pending ≠ []) (h : tryAdmit cfg s = .ok s') : ∃ t, Work cfg s t ∧ Works cfg t s' := by
  obtain ⟨t, ht, hworks⟩ := tryAdmit_split hs h
  obtain ⟨rid, rest, hp⟩ := List.exists_cons_of_ne_nil hne
  rw [hp, List.length_cons] at ht
  rcases admitLoop_succ hs ht with ⟨-, x, xs, hx, u, hadm, hu⟩ | ⟨hstop, -⟩
  · have hw : Work cfg s u := .admission x xs hroom hx hadm
    exact ⟨u, hw, (admitLoop_works _ (hw.inv hs) hu).trans hworks⟩
  · exact absurd (hstop hroom) hne

/-- **A tick of a batcher that is not idle lowers the potential.** -/
theorem tick_potential [Zero Col] (hB : 1 ≤ cfg.maxBatchSize) (hs : SysInv cfg s)
    (hL : LimitsTo cfg L s) (hidle : ¬ Idle s) (h : tick cfg s = .ok s') :
    potential L s' < potential L s := by
  obtain ⟨t, ht, hrest⟩ := tick_ok.mp h
  have hworks := tryAdmit_works hs ht
  have hle := hworks.potential hs hL
  rcases hrest with ⟨hempty, rfl⟩ | ⟨hne, hdecode⟩
  · -- nothing is active at the end, so the tick has admitted
    have hfirst : ∃ u, Work cfg s u ∧ Works cfg u s' := by
      by_cases hact : s.active = []
      · have hroom : s.active.length < cfg.maxBatchSize := by
          rw [hact]
          exact hB
        exact tryAdmit_admits hs hroom (fun hp => hidle ⟨hp, hact⟩) ht
      · rcases hworks.cases_head with heq | hfirst
        · exact absurd (heq ▸ hempty) hact
        · exact hfirst
    obtain ⟨u, hw, hu⟩ := hfirst
    have hworked : Works cfg s u := .single hw
    calc potential L s' ≤ potential L u := hu.potential (hw.inv hs) (hworked.limits hs hL)
      _ < potential L s := hw.potential hs hL
  · have htinv := hworks.inv hs
    have hw : Work cfg t s' := .decode hne (decodePhase_works htinv hne hdecode)
    calc potential L s' < potential L t := hw.potential htinv (hworks.limits hs hL)
      _ ≤ potential L s := hle

theorem tick_idle [Zero Col] (hidle : Idle s) : tick cfg s = .ok s := by
  have hadmitted : tryAdmit cfg s = .ok s := by
    have hhead : headIsNormal s = false := by
      unfold headIsNormal
      rw [hidle.1]
    have hpreempt : ∀ attempts, preemptLoop cfg attempts s = .ok s := by
      intro attempts
      cases attempts with
      | zero => rfl
      | succ attempts => simp [preemptLoop, hhead]
    unfold tryAdmit
    rw [hidle.1]
    show (if cfg.strategy ≠ .probeDeprioritize then pure s
      else preemptLoop cfg cfg.maxBatchSize s) = .ok s
    rw [hpreempt]
    split <;> rfl
  exact tick_ok.mpr ⟨s, hadmitted, .inl ⟨hidle.2, rfl⟩⟩

/-- From any state, without new submissions, `2 * N * L` ticks lead to an idle one, whatever
    the `N` requests submitted so far have been through. -/
theorem ticks_drain [Zero Col] (hn : cfg.Serves) (hB : 1 ≤ cfg.maxBatchSize)
    (hs : SysInv cfg s) (hL : LimitsTo cfg L s) {k : Nat}
    (hk : 2 * s.submitted.length * L ≤ k) :
    ∃ t, Runs.run (step cfg) s (List.replicate k .tick) = .ok t ∧
      (SysInv cfg t ∧ LimitsTo cfg L t ∧ t.submitted = s.submitted) ∧ Idle t := by
  apply Runs.run_replicate_drains (V := potential L)
    (I := fun t => SysInv cfg t ∧ LimitsTo cfg L t ∧ t.submitted = s.submitted)
  · intro t h hidle
    obtain ⟨ht, hLt, hsub⟩ := h
    obtain ⟨t', ht'⟩ := tick_returns hn ht
    have hworks := tick_works ht ht'
    exact ⟨t', ht', ⟨hworks.inv ht, hworks.limits ht hLt, hworks.submitted.trans hsub⟩,
      tick_potential hB ht hLt hidle ht'⟩
  · intro t hI hidle
    exact ⟨t, tick_idle hidle, hI, hidle⟩
  · exact ⟨hs, hL, rfl⟩
  · exact .inr ((potential_le s).trans hk)

end Drains

/-! All submissions come first. -/

/-- The submissions of a workload: limit, prompt and whether to stream. -/
def submissions (workload : List (Int × List Nat × Bool)) : List Event :=
  workload.map (fun q => .submit q.1 q.2.1 q.2.2)

/-- The largest limit of its requests. -/
def Config.largestLimit (cfg : Config Col) (workload : List (Int × List Nat × Bool)) : Nat :=
  (workload.map (fun q => cfg.limit q.1)).foldr max 0

theorem submissions_submitted [Zero Col] {cfg : Config Col} {L : Nat}
    (workload : List (Int × List Nat × Bool)) (hlimit : cfg.largestLimit workload ≤ L) :
    ∀ s : Batcher Col, SysInv cfg s → LimitsTo cfg L s →
      ∃ t, Runs.run (step cfg) s (submissions workload) = .ok t ∧ SysInv cfg t ∧
        LimitsTo cfg L t ∧ t.submitted = s.submitted ++ List.range' s.nextId workload.length := by
  induction workload with
  | nil => exact fun s hs hL => ⟨s, rfl, hs, hL, by simp⟩
  | cons q workload ih =>
    intro s hs hL
    obtain ⟨hq, hrest⟩ : cfg.limit q.1 ≤ L ∧ cfg.largestLimit workload ≤ L := by
      simpa [Config.largestLimit] using hlimit
    have hsubmit := hs.submit q.1 q.2.1 q.2.2
    have hLsubmit : LimitsTo cfg L (submit q.1 q.2.1 q.2.2 s) := by
      intro r hr
      by_cases hnew : r = s.nextId
      · have hreq : (submit q.1 q.2.1 q.2.2 s).requests s.nextId = .submitted q.1 q.2.1 q.2.2 :=
          congrArg View.req (hs.submit_view_self q.1 q.2.1 q.2.2)
        rw [hnew, hreq]
        exact hq
      · rw [submit_requests_ne q.1 q.2.1 q.2.2 hnew]
        rcases List.mem_append.mp hr with hr | hr
        · exact hL r hr
        · exact absurd (List.mem_singleton.mp hr) hnew
    obtain ⟨t, ht, htinv, hLt, hsub⟩ := ih hrest _ hsubmit hLsubmit
    refine ⟨t, ?_, htinv, hLt, ?_⟩
    · show Runs.run (step cfg) s (.submit q.1 q.2.1 q.2.2 :: submissions workload) = .ok t
      rw [Runs.run_cons]
      exact ht
    · rw [hsub]
      show (s.submitted ++ [s.nextId]) ++ List.range' (s.nextId + 1) workload.length = _
      rw [List.length_cons, List.range'_succ, List.append_assoc]
      rfl

/-- **A closed workload drains.** Whatever the strategy, the batch size, the tokens and the
    decisions, with a model whose forwards return and a gate that answers what they put out:
    when all `N` requests are submitted before the first tick, after `2 * N * L` ticks and
    ever after the queue and the active map are empty and every request has finished, where
    `L` is the largest number of tokens that one of them may get. -/
theorem closed_workload_drains [Zero Col] {cfg : Config Col} (hn : cfg.Serves)
    (hB : 1 ≤ cfg.maxBatchSize) (firstId : Nat) (workload : List (Int × List Nat × Bool)) (k : Nat)
    (hk : 2 * workload.length * cfg.largestLimit workload ≤ k) :
    ∃ s, runEvents cfg firstId (submissions workload ++ List.replicate k .tick) = .ok s ∧
      s.pending = [] ∧ s.active = [] ∧ s.submitted = List.range' firstId workload.length ∧
      s.finished.Perm s.submitted := by
  have hnew : LimitsTo cfg (cfg.largestLimit workload) (Batcher.new firstId) :=
    fun r hr => (by cases hr)
  obtain ⟨t, ht, htinv, hLt, hsub⟩ := submissions_submitted workload (le_refl _)
    (Batcher.new firstId) (sysInv_new firstId) hnew
  have hids : t.submitted = List.range' firstId workload.length := by
    rw [hsub]
    rfl
  have hticks : 2 * t.submitted.length * cfg.largestLimit workload ≤ k := by
    rw [hids, List.length_range']
    exact hk
  obtain ⟨s, hs, ⟨hsinv, -, hsame⟩, hpend, hact⟩ := ticks_drain hn hB htinv hLt hticks
  refine ⟨s, Runs.run_append_ok.mpr ⟨t, ht, hs⟩, hpend, hact, hsame.trans hids, ?_⟩
  have hperm := hsinv.partition
  rw [hpend, hact] at hperm
  exact hperm

theorem closed_workload_drains_two :
    ∃ s, runEvents (divergentConfig .probeDeprioritize) 1
        (submissions [(3, [1], false), (2, [2], true)] ++ List.replicate 12 .tick) = .ok s ∧
      s.pending = [] ∧ s.active = [] ∧ s.submitted = List.range' 1 2 ∧
      s.finished.Perm s.submitted :=
  closed_workload_drains (divergentConfig_serves .probeDeprioritize)
    (by decide) 1 [(3, [1], false), (2, [2], true)] 12 (by decide)

end PGI
