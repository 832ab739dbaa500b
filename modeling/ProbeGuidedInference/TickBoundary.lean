import ProbeGuidedInference.FinishReasons

/- What holds at every tick boundary. Of the batcher: its cache has entries for exactly
   the active requests, and its counters balance. Of each active request: its position,
   kept in the request and again in the cache, counts its prompt and all of its tokens
   but the last, which has no column yet, and nothing has ended it. -/
namespace PGI
open Fallible

variable {Col : Type}

/-- The scheduler's books. -/
structure Accounted (cfg : Config Col) (s : Batcher Col) : Prop where
  batch : s.active.length ≤ cfg.maxBatchSize
  cached : ∀ r, (s.cache.cache r).isSome = true ↔ r ∈ s.active
  lengths : ∀ r, (s.cache.seqLens r).isSome = true ↔ r ∈ s.active
  balance : s.totalAdmitted = s.totalFinished + s.active.length + s.totalPreemptions
  finishedOnce : s.finished.Nodup
  probeTerminated :
    s.totalProbeTerminated = s.finished.countP (fun r => (s.requests r).terminatedByProbe)

/-- Request `r` can be decoded. -/
structure Decodable (cfg : Config Col) (s : Batcher Col) (r : Nat) : Prop where
  seqLen : s.cache.seqLen r = .ok (s.requests r).position
  stored : ∃ layers, s.cache.cache r = some layers ∧ layers.length = cfg.model.nLayers ∧
    ∀ kv ∈ layers, HasColumns (s.requests r).position kv.1 ∧ HasColumns (s.requests r).position kv.2
  position : ((s.requests r).position : Int) =
    (s.requests r).promptIds.length + (s.requests r).nGenerated - 1
  started : 1 ≤ (s.requests r).nGenerated
  lastToken : ∃ token, lastOf (s.requests r).generatedIds = .ok token
  below : ((s.requests r).nGenerated : Int) < min (s.requests r).maxTokens cfg.maxTokensCap
  noEos : cfg.tokenizer.eosTokenId ∉ (s.requests r).generatedIds

section Books
variable {cfg : Config Col} {s s' : Batcher Col}

/-- Each admission has been followed by a completion or a preemption, or the request runs. -/
def Balanced (s : Batcher Col) : Prop :=
  s.totalAdmitted = s.finished.length + s.active.length + s.totalPreemptions

/-- No request object, no cache. -/
def Uncached (s : Batcher Col) : Prop :=
  ∀ r ∉ s.submitted, (s.view r).kv = none ∧ (s.view r).len = none

theorem Admission.balanced {rid : Nat} {rest : List Nat} (h : Admission cfg s s' rid rest)
    {n : Nat} (hb : s.totalAdmitted + n = s.finished.length + s.active.length + s.totalPreemptions) :
    s'.totalAdmitted + n = s'.finished.length + s'.active.length + s'.totalPreemptions := by
  rw [h.totalAdmitted, h.totalPreemptions]
  rcases h.place with ⟨hact, hfin⟩ | ⟨hact, hfin⟩
  · rw [hact, hfin, List.length_append, List.length_singleton]
    omega
  · rw [hact, hfin, List.length_append, List.length_singleton]
    omega

theorem Work.balanced (hb : Balanced s) (h : Work cfg s s') : Balanced s' := by
  unfold Balanced at hb
  cases h with
  | admission rid rest _ _ h => exact h.balanced (n := 0) hb
  | swap rid rest victim _ _ _ _ hmem _ h =>
    apply h.balanced (n := 0)
    have hpos : 0 < s.active.length := List.length_pos_of_mem hmem
    rw [preempt_active, preempt_finished, List.length_erase_of_mem hmem]
    show s.totalAdmitted = s.finished.length + (s.active.length - 1) + (s.totalPreemptions + 1)
    omega
  | decode _ h =>
    obtain ⟨ids, hperm, hfin⟩ := h.left
    have hlen := hperm.length_eq
    rw [List.length_append] at hlen
    unfold Balanced
    rw [h.totalAdmitted, h.totalPreemptions, hfin, List.length_append]
    omega

theorem Work.uncached (hs : SysInv cfg s) (hu : Uncached s) (h : Work cfg s s') : Uncached s' := by
  intro r hr
  rw [h.submitted] at hr
  rcases h.turn hs r with hview | ⟨hmem, -⟩
  · rw [hview]
    exact hu r hr
  · exact absurd hmem hr

theorem runEvents_balanced [Zero Col] {firstId : Nat} {events : List Event}
    (h : runEvents cfg firstId events = .ok s) : Balanced s ∧ Uncached s := by
  refine (runEvents_keep (I := fun s => Balanced s ∧ Uncached s) ?_ ?_ ?_ ?_ h).2
  · exact ⟨rfl, fun _ _ => ⟨rfl, rfl⟩⟩
  · intro s maxTokens promptIds stream hs ⟨hb, hu⟩
    refine ⟨hb, ?_⟩
    intro r hr
    have hnot : r ∉ s.submitted ∧ r ≠ s.nextId := by simpa [submit] using hr
    rw [submit_view_ne maxTokens promptIds stream hnot.2]
    exact hu r hnot.1
  · intro s rid hs ⟨hb, hu⟩ hmem
    refine ⟨hb, ?_⟩
    intro r hr
    have hne : r ≠ rid := fun heq => hr (heq ▸ hmem)
    rw [cancel_view_ne s hne]
    exact hu r hr
  · intro s s' hs ⟨hb, hu⟩ hw
    exact ⟨hw.balanced hb, hw.uncached hs hu⟩

/-- A request that is not active has no cache. -/
theorem SysInv.not_cached (hs : SysInv cfg s) (hu : Uncached s) {r : Nat} (hr : r ∉ s.active) :
    (s.view r).kv = none ∧ (s.view r).len = none := by
  by_cases hmem : r ∈ s.submitted
  · rcases hs.mem_submitted.mp hmem with h | h | h
    · obtain ⟨hkv, hlen, -⟩ := (hs.lifeInv hmem).waiting (hs.loc_pending h)
      exact ⟨hkv, hlen⟩
    · exact absurd h hr
    · obtain ⟨hkv, hlen, -⟩ := (hs.lifeInv hmem).done (hs.loc_finished h)
      exact ⟨hkv, hlen⟩
  · exact hu r hmem

theorem runEvents_accounted [Zero Col] {firstId : Nat} {events : List Event}
    (h : runEvents cfg firstId events = .ok s) : Accounted cfg s := by
  have hs := runEvents_inv h
  obtain ⟨hb, hu⟩ := runEvents_balanced h
  have hcounted := runEvents_counted h
  refine ⟨hs.batch, ?_, ?_, ?_, hs.finished_nodup, hcounted.totalProbeTerminated⟩
  · intro r
    by_cases hr : r ∈ s.active
    · obtain ⟨cols, hkv, -⟩ := (hs.running hr).stored
      rw [Batcher.view_kv] at hkv
      simp [hkv, hr]
    · have hkv := (hs.not_cached hu hr).1
      rw [Batcher.view_kv] at hkv
      simp [hkv, hr]
  · intro r
    by_cases hr : r ∈ s.active
    · have hlen := (hs.running hr).len
      rw [Batcher.view_len] at hlen
      simp [hlen, hr]
    · have hlen := (hs.not_cached hu hr).2
      rw [Batcher.view_len] at hlen
      simp [hlen, hr]
  · rw [hcounted.totalFinished]
    exact hb

end Books

section Decoding
variable {cfg : Config Col} {s s' : Batcher Col}

theorem SysInv.decodable (hs : SysInv cfg s) {r : Nat} (hr : r ∈ s.active) : Decodable cfg s r := by
  have hrun := hs.running hr
  have hstarted : 1 ≤ (s.requests r).nGenerated := List.length_pos_iff.mpr hrun.nonempty
  refine ⟨?_, ?_, ?_, hstarted, ?_, hrun.below, fun hmem => hrun.noEos _ hmem rfl⟩
  · have hlen := hrun.len
    rw [Batcher.view_len, Batcher.view_req] at hlen
    simp [BatchedSequenceCache.seqLen, lookup, hlen]
  · obtain ⟨cols, hkv, hcols⟩ := hrun.stored
    refine ⟨ofLayers cols, hkv, by simp [ofLayers], ?_⟩
    intro kv hmem
    obtain ⟨ℓ, rfl⟩ := (List.mem_ofFn' _ _).mp hmem
    exact ⟨⟨_, rfl, (hcols ℓ).1⟩, ⟨_, rfl, (hcols ℓ).2⟩⟩
  · have hpos := hrun.position
    rw [Batcher.view_req] at hpos
    omega
  · exact ⟨_, lastOf_eq_ok.mpr (List.getLast?_eq_getLast_of_ne_nil hrun.nonempty)⟩

end Decoding

/-- **The books are right.** With a model whose forwards return and a gate that answers what
    they put out, every run returns with the books in order. -/
theorem scheduler_accounted [Zero Col] {cfg : Config Col} (hn : cfg.Serves) (firstId : Nat)
    (events : List Event) : ∃ s, runEvents cfg firstId events = .ok s ∧ Accounted cfg s := by
  obtain ⟨s, hs, -⟩ := runEvents_returns hn firstId events
  exact ⟨s, hs, runEvents_accounted hs⟩

theorem scheduler_accounted_counting :
    ∃ s, runEvents (divergentConfig .probeTerminate) 1 limitAtCheckpoint = .ok s ∧
      Accounted (divergentConfig .probeTerminate) s :=
  scheduler_accounted (divergentConfig_serves .probeTerminate) 1 limitAtCheckpoint

/-- **Every active request can be decoded**, at every tick boundary and again when the
    decode step of the next tick begins. -/
theorem active_decodable [Zero Col] {cfg : Config Col} {firstId : Nat} {events : List Event}
    {s : Batcher Col} (hrun : runEvents cfg firstId events = .ok s) :
    (∀ r ∈ s.active, Decodable cfg s r) ∧
    ∀ s', tryAdmit cfg s = .ok s' → ∀ r ∈ s'.active, Decodable cfg s' r := by
  have hs := runEvents_inv hrun
  refine ⟨fun r hr => hs.decodable hr, ?_⟩
  intro s' hadmit r hr
  exact ((tryAdmit_works hs hadmit).inv hs).decodable hr

theorem active_decodable_counting :
    ∃ s, runEvents (divergentConfig .probeDeprioritize) 1 [.submit 9 [1] false, .tick] = .ok s ∧
      (∀ r ∈ s.active, Decodable (divergentConfig .probeDeprioritize) s r) ∧
      ∀ s', tryAdmit (divergentConfig .probeDeprioritize) s = .ok s' →
        ∀ r ∈ s'.active, Decodable (divergentConfig .probeDeprioritize) s' r := by
  obtain ⟨s, hs, -⟩ := runEvents_returns (divergentConfig_serves .probeDeprioritize) 1
    [.submit 9 [1] false, .tick]
  exact ⟨s, hs, active_decodable hs⟩

end PGI
