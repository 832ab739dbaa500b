import Mathlib.Logic.Relation
import ProbeGuidedInference.DecodeEffects

/- A tick refines the life of every request. `Work` is one uninterrupted piece of a tick:
   an admission into a free slot, a swap of a deprioritized request for the head of a
   full batch's queue, or a decode phase. `SysInv` is what holds between any two pieces:
   every submitted request is in exactly one place, and what the batcher holds about it
   is what `LifeReach` allows. `tick_works` takes a tick apart into pieces, each of which
   turns to each request at most once (`Work.turn`). -/
namespace PGI
open Fallible

variable {Col : Type}

structure SysInv (cfg : Config Col) (s : Batcher Col) : Prop where
  partition : (s.pending ++ s.active ++ s.finished).Perm s.submitted
  nodup : s.submitted.Nodup
  fresh : ∀ r ∈ s.submitted, r < s.nextId
  life : ∀ r ∈ s.submitted, LifeReach cfg r (s.view r)
  unborn : ∀ r, s.nextId ≤ r →
    s.cache.cache r = none ∧ s.cache.seqLens r = none ∧ s.history r = []
  batch : s.active.length ≤ cfg.maxBatchSize

inductive Work (cfg : Config Col) (s s' : Batcher Col) : Prop where
  | admission (rid : Nat) (rest : List Nat) (hroom : s.active.length < cfg.maxBatchSize)
      (hp : s.pending = rid :: rest) (h : Admission cfg s s' rid rest)
  | swap (rid : Nat) (rest : List Nat) (victim : Nat) (hstrategy : cfg.strategy = .probeDeprioritize)
      (hfull : cfg.maxBatchSize ≤ s.active.length) (hp : s.pending = rid :: rest)
      (hhead : s.priority rid = 0) (hvictim : victim ∈ s.active) (hv : s.priority victim = 1)
      (h : Admission cfg (preempt s victim) s' rid (rest ++ [victim]))
  | decode (hne : s.active ≠ []) (h : DecodedAll cfg s s')

/-! Where a request is. -/

section Places
variable {cfg : Config Col} {s : Batcher Col} (hs : SysInv cfg s)
include hs

theorem SysInv.places_nodup : (s.pending ++ s.active ++ s.finished).Nodup :=
  hs.partition.nodup_iff.mpr hs.nodup

theorem SysInv.mem_submitted {r : Nat} :
    r ∈ s.submitted ↔ r ∈ s.pending ∨ r ∈ s.active ∨ r ∈ s.finished := by
  rw [← hs.partition.mem_iff]
  simp only [List.mem_append, or_assoc]

theorem SysInv.active_nodup : s.active.Nodup :=
  (List.nodup_append.mp (List.nodup_append.mp hs.places_nodup).1).2.1

theorem SysInv.pending_nodup : s.pending.Nodup :=
  (List.nodup_append.mp (List.nodup_append.mp hs.places_nodup).1).1

theorem SysInv.finished_nodup : s.finished.Nodup :=
  (List.nodup_append.mp hs.places_nodup).2.1

theorem SysInv.pending_not_active {r : Nat} (hr : r ∈ s.pending) : r ∉ s.active :=
  fun hc => (List.nodup_append.mp (List.nodup_append.mp hs.places_nodup).1).2.2 r hr r hc rfl

theorem SysInv.pending_not_finished {r : Nat} (hr : r ∈ s.pending) : r ∉ s.finished :=
  fun hc => (List.nodup_append.mp hs.places_nodup).2.2 r (List.mem_append_left _ hr) r hc rfl

theorem SysInv.active_not_finished {r : Nat} (hr : r ∈ s.active) : r ∉ s.finished :=
  fun hc => (List.nodup_append.mp hs.places_nodup).2.2 r (List.mem_append_right _ hr) r hc rfl

theorem SysInv.head_not_active {rid : Nat} {rest : List Nat} (hp : s.pending = rid :: rest) :
    rid ∉ s.active := hs.pending_not_active (hp ▸ List.mem_cons_self)

/-- The head of the queue is no request of the batch. -/
theorem SysInv.head_ne {rid victim : Nat} {rest : List Nat} (hp : s.pending = rid :: rest)
    (hmem : victim ∈ s.active) : rid ≠ victim :=
  fun heq => hs.head_not_active hp (heq ▸ hmem)

theorem SysInv.loc_pending {r : Nat} (hr : r ∈ s.pending) : s.loc r = .pending := by
  simp [Batcher.loc, hs.pending_not_active hr, hs.pending_not_finished hr]

omit hs in
theorem loc_active {r : Nat} (hr : r ∈ s.active) : s.loc r = .active := by
  simp [Batcher.loc, hr]

theorem SysInv.loc_finished {r : Nat} (hr : r ∈ s.finished) : s.loc r = .finished := by
  have : r ∉ s.active := fun hc => hs.active_not_finished hc hr
  simp [Batcher.loc, this, hr]

theorem SysInv.lifeInv {r : Nat} (hr : r ∈ s.submitted) : LifeInv cfg (s.view r) :=
  (hs.life r hr).inv

theorem SysInv.running {r : Nat} (hr : r ∈ s.active) : Running cfg (s.view r) :=
  (hs.lifeInv (hs.mem_submitted.mpr (.inr (.inl hr)))).running (loc_active hr)

/-- Every request of the batch can be fed to the model. -/
theorem SysInv.fed : ∃ g, Fed cfg s g := by
  have hall : ∀ r, ∃ f : Fin cfg.model.nLayers → List Col × List Col,
      r ∈ s.active → Stored s.cache r f (s.requests r).position := by
    intro r
    by_cases hr : r ∈ s.active
    · obtain ⟨f, hkv, hf⟩ := (hs.running hr).stored
      exact ⟨f, fun _ => ⟨hkv, (hs.running hr).len, fun ℓ => (hf ℓ).1, fun ℓ => (hf ℓ).2⟩⟩
    · exact ⟨fun _ => ([], []), fun h => absurd h hr⟩
  choose g hg using hall
  exact ⟨g, hg, fun r hr => (hs.running hr).nonempty⟩

/-- Priorities are 0 or 1, and 1 only under `probe_deprioritize`. -/
theorem SysInv.priority {r : Nat} (hr : r ∈ s.submitted) :
    s.priority r = 0 ∨ (s.priority r = 1 ∧ cfg.strategy = .probeDeprioritize) :=
  (hs.lifeInv hr).priority

end Places

/-! Every piece of work moves the requests along their lives and loses none. -/

section Preserved
variable {cfg : Config Col} {s s' : Batcher Col}

/-- Request `r` is as it was, or the batcher has turned to it once. -/
def Turned (cfg : Config Col) (s s' : Batcher Col) (r : Nat) : Prop :=
  s'.view r = s.view r ∨ (r ∈ s.submitted ∧ Turn cfg r (s.view r) (s'.view r))

theorem Turned.life {r : Nat} (h : Turned cfg s s' r) :
    s'.view r = s.view r ∨ (r ∈ s.submitted ∧ Life cfg r (s.view r) (s'.view r)) :=
  h.imp id (fun ⟨hr, ht⟩ => ⟨hr, .turn _ _ ht⟩)

/-- What a change of the batcher has to satisfy to keep the invariant. -/
theorem SysInv.change (hs : SysInv cfg s) (hsub : s'.submitted = s.submitted)
    (hnext : s'.nextId = s.nextId)
    (hplaces : (s'.pending ++ s'.active ++ s'.finished).Perm (s.pending ++ s.active ++ s.finished))
    (hbatch : s'.active.length ≤ cfg.maxBatchSize)
    (hlife : ∀ r, s'.view r = s.view r ∨ (r ∈ s.submitted ∧ Life cfg r (s.view r) (s'.view r))) :
    SysInv cfg s' where
  partition := by rw [hsub]; exact hplaces.trans hs.partition
  nodup := by rw [hsub]; exact hs.nodup
  fresh := by rw [hsub, hnext]; exact hs.fresh
  life := by
    intro r hr
    rw [hsub] at hr
    rcases hlife r with h | ⟨-, h⟩
    · rw [h]
      exact hs.life r hr
    · exact .step (hs.life r hr) h
  unborn := by
    intro r hr
    rw [hnext] at hr
    rcases hlife r with h | ⟨hsubm, -⟩
    · have hold := hs.unborn r hr
      have hkv : (s'.view r).kv = (s.view r).kv := by rw [h]
      have hlen : (s'.view r).len = (s.view r).len := by rw [h]
      have hhist : (s'.view r).history = (s.view r).history := by rw [h]
      exact ⟨hkv.trans hold.1, hlen.trans hold.2.1, hhist.trans hold.2.2⟩
    · exact absurd (hs.fresh r hsubm) (by omega)
  batch := hbatch

/-- A deprioritized request of the batch is moved to the back of the queue. -/
theorem SysInv.preempt_pending (hs : SysInv cfg s) {victim : Nat} (hv : s.priority victim = 1) :
    (preempt s victim).pending = s.pending ++ [victim] := by
  apply PGI.preempt_pending s victim _ hv
  intro x hx
  rcases hs.priority (hs.mem_submitted.mpr (.inl hx)) with h | ⟨h, -⟩
  · exact .inl h
  · exact .inr h

theorem SysInv.preempt_pending_cons (hs : SysInv cfg s) {victim rid : Nat} {rest : List Nat}
    (hv : s.priority victim = 1) (hp : s.pending = rid :: rest) :
    (PGI.preempt s victim).pending = rid :: (rest ++ [victim]) := by
  rw [hs.preempt_pending hv, hp]
  rfl

theorem SysInv.preempt_turn (hs : SysInv cfg s) {victim : Nat} (hmem : victim ∈ s.active)
    (hv : s.priority victim = 1) (r : Nat) : Turned cfg s (preempt s victim) r := by
  by_cases hr : r = victim
  · subst hr
    unfold Turned
    rw [preempt_view_self s r hs.active_nodup (hs.active_not_finished hmem)]
    exact .inr ⟨hs.mem_submitted.mpr (.inr (.inl hmem)), .preempt _ (loc_active hmem) hv⟩
  · exact .inl (preempt_view_ne s victim hr)

theorem SysInv.preempt (hs : SysInv cfg s) {victim : Nat} (hmem : victim ∈ s.active)
    (hv : s.priority victim = 1) : SysInv cfg (preempt s victim) := by
  refine hs.change (preempt_submitted s victim) (preempt_nextId s victim) ?_ ?_
    (fun r => (hs.preempt_turn hmem hv r).life)
  · rw [hs.preempt_pending hv, preempt_active, preempt_finished]
    apply List.Perm.append_right
    rw [List.append_assoc]
    apply List.Perm.append_left
    exact (List.perm_cons_erase hmem).symm
  · rw [preempt_active]
    exact le_trans List.length_erase_le hs.batch

theorem Admission.turn {rid : Nat} {rest : List Nat} (hs : SysInv cfg s)
    (hp : s.pending = rid :: rest) (h : Admission cfg s s' rid rest) (r : Nat) :
    Turned cfg s s' r := by
  by_cases hr : r = rid
  · subst hr
    obtain ⟨out, hout, hview⟩ := h.self
    have hmem : r ∈ s.pending := by rw [hp]; exact List.mem_cons_self
    unfold Turned
    rw [hview]
    exact .inr ⟨hs.mem_submitted.mpr (.inl hmem), Turn.admitted (s.view r) (rest.map s.priority)
      s.forwards out (cfg.time s.clock) (hs.loc_pending hmem) hout⟩
  · exact .inl (h.other r hr)

theorem Admission.inv {rid : Nat} {rest : List Nat} (hs : SysInv cfg s)
    (hp : s.pending = rid :: rest) (hroom : s.active.length < cfg.maxBatchSize)
    (h : Admission cfg s s' rid rest) : SysInv cfg s' := by
  apply hs.change h.submitted h.nextId
  · rw [h.pending, hp]
    rcases h.place with ⟨hact, hfin⟩ | ⟨hact, hfin⟩
    · rw [hact, hfin, ← List.append_assoc]
      apply List.Perm.append_right
      exact List.perm_append_singleton rid (rest ++ s.active)
    · rw [hact, hfin, ← List.append_assoc]
      exact List.perm_append_singleton rid (rest ++ s.active ++ s.finished)
  · rcases h.place with ⟨hact, -⟩ | ⟨hact, -⟩
    · rw [hact, List.length_append, List.length_singleton]
      omega
    · rw [hact]
      omega
  · exact fun r => (h.turn hs hp r).life

theorem DecodedAll.turn (hs : SysInv cfg s) (h : DecodedAll cfg s s') (r : Nat) :
    Turned cfg s s' r := by
  by_cases hr : r ∈ s.active
  · exact .inr ⟨hs.mem_submitted.mpr (.inr (.inl hr)),
      .decode _ _ (loc_active hr) (h.self r hr)⟩
  · exact .inl (h.other r hr)

/-- Those who run on and those who have finished make up the batch that was decoded. -/
theorem DecodedAll.left (h : DecodedAll cfg s s') :
    ∃ ids, (s'.active ++ ids).Perm s.active ∧ s'.finished = s.finished ++ ids := by
  obtain ⟨ids, hnd, hsub, hact, hfin⟩ := h.place
  refine ⟨ids, ?_, hfin⟩
  rw [hact]
  exact (List.perm_append_comm).trans (List.subperm_append_diff_self_of_count_le
    (fun x _ => (List.subperm_of_subset hnd hsub).count_le x))

theorem DecodedAll.inv (hs : SysInv cfg s) (h : DecodedAll cfg s s') : SysInv cfg s' := by
  obtain ⟨ids, hperm, hfin⟩ := h.left
  apply hs.change h.submitted h.nextId
  · rw [h.pending, hfin, List.append_assoc, List.append_assoc]
    apply List.Perm.append_left
    calc List.Perm (s'.active ++ (s.finished ++ ids)) (s'.active ++ (ids ++ s.finished)) :=
          List.Perm.append_left _ List.perm_append_comm
      List.Perm _ (s'.active ++ ids ++ s.finished) := by rw [List.append_assoc]
      List.Perm _ (s.active ++ s.finished) := List.Perm.append_right _ hperm
  · have hlen := hperm.length_eq
    rw [List.length_append] at hlen
    have := hs.batch
    omega
  · exact fun r => (h.turn hs r).life

theorem Work.inv (hs : SysInv cfg s) (h : Work cfg s s') : SysInv cfg s' := by
  cases h with
  | admission rid rest hroom hp h => exact h.inv hs hp hroom
  | swap rid rest victim _ _ hp _ hvictim hv h =>
    have hpre := hs.preempt hvictim hv
    have hp' := hs.preempt_pending_cons hv hp
    apply h.inv hpre hp'
    rw [preempt_active, List.length_erase_of_mem hvictim]
    have hpos : 0 < s.active.length := List.length_pos_of_mem hvictim
    have := hs.batch
    omega
  | decode _ h => exact h.inv hs

theorem Work.submitted (h : Work cfg s s') : s'.submitted = s.submitted := by
  cases h with
  | admission rid rest _ _ h => exact h.submitted
  | swap rid rest victim _ _ _ _ _ _ h => exact h.submitted.trans (preempt_submitted s victim)
  | decode _ h => exact h.submitted

/-- **One piece of work is at most one turn of each request.** -/
theorem Work.turn (hs : SysInv cfg s) (h : Work cfg s s') (r : Nat) : Turned cfg s s' r := by
  cases h with
  | admission rid rest hroom hp h => exact h.turn hs hp r
  | swap rid rest victim _ _ hp _ hvictim hv h =>
    have hpre := hs.preempt hvictim hv
    have hp' := hs.preempt_pending_cons hv hp
    by_cases hr : r = victim
    · -- the victim is preempted, and it is not the request admitted in its place
      have hne : r ≠ rid := fun heq => hs.head_ne hp (hr ▸ hvictim) heq.symm
      have hsame := hs.preempt_turn hvictim hv r
      unfold Turned at hsame ⊢
      rwa [h.other r hne]
    · have hsame : (PGI.preempt s victim).view r = s.view r := preempt_view_ne s victim hr
      have hturn := h.turn hpre hp' r
      unfold Turned at hturn ⊢
      rwa [hsame] at hturn
  | decode _ h => exact h.turn hs r

end Preserved

/-! A tick is such work. -/

abbrev Works (cfg : Config Col) : Batcher Col → Batcher Col → Prop :=
  Relation.ReflTransGen (Work cfg)

/-- What every piece of work keeps, a tick keeps. -/
theorem Works.keep {cfg : Config Col} {s s' : Batcher Col} {I : Batcher Col → Prop}
    (hstep : ∀ t u, SysInv cfg t → I t → Work cfg t u → I u) (hs : SysInv cfg s) (hI : I s)
    (h : Works cfg s s') : SysInv cfg s' ∧ I s' := by
  induction h with
  | refl => exact ⟨hs, hI⟩
  | tail _ hw ih => exact ⟨hw.inv ih.1, hstep _ _ ih.1 ih.2 hw⟩

theorem Works.submitted {cfg : Config Col} {s s' : Batcher Col} (h : Works cfg s s') :
    s'.submitted = s.submitted := by
  induction h with
  | refl => rfl
  | tail _ hw ih => exact hw.submitted.trans ih

theorem Works.request {cfg : Config Col} {s s' : Batcher Col} (hs : SysInv cfg s)
    (h : Works cfg s s') (r : Nat) : (s'.requests r).stream = (s.requests r).stream ∧
      (s'.requests r).maxTokens = (s.requests r).maxTokens ∧
      (s'.requests r).promptIds = (s.requests r).promptIds := by
  refine (h.keep (I := fun t => (t.requests r).stream = (s.requests r).stream ∧
    (t.requests r).maxTokens = (s.requests r).maxTokens ∧
    (t.requests r).promptIds = (s.requests r).promptIds) ?_ hs ⟨rfl, rfl, rfl⟩).2
  intro t u ht hI hw
  rcases hw.turn ht r with hview | ⟨-, hturn⟩
  · have hreq : u.requests r = t.requests r := congrArg View.req hview
    rw [hreq]
    exact hI
  · obtain ⟨h₁, h₂, h₃⟩ := hturn.request
    exact ⟨h₁.trans hI.1, h₂.trans hI.2.1, h₃.trans hI.2.2⟩

theorem Works.inv {cfg : Config Col} {s s' : Batcher Col} (hs : SysInv cfg s)
    (h : Works cfg s s') : SysInv cfg s' :=
  (h.keep (I := fun _ => True) (fun _ _ _ _ _ => trivial) hs trivial).1

section Tick
variable {cfg : Config Col} {s s' : Batcher Col}

theorem minByGenerated_mem (s : Batcher Col) {victim : Nat} :
    ∀ ids : List Nat, minByGenerated s ids = some victim → victim ∈ ids := by
  intro ids
  induction ids with
  | nil => intro h; cases h
  | cons rid rest ih =>
    intro h
    simp only [minByGenerated] at h
    split at h
    · obtain rfl := Option.some.inj h
      exact List.mem_cons_self
    · rename_i best hbest
      split at h
      · obtain rfl := Option.some.inj h
        exact List.mem_cons_of_mem rid (ih hbest)
      · obtain rfl := Option.some.inj h
        exact List.mem_cons_self

theorem findDeprioritizeVictim_some {victim : Nat} (h : findDeprioritizeVictim s = some victim) :
    victim ∈ s.active ∧ s.priority victim = 1 := by
  have := minByGenerated_mem s _ h
  simpa using this

/-- An admission by the code is one that `Admission` describes. -/
theorem SysInv.admitOne {rid : Nat} {rest : List Nat} (hs : SysInv cfg s)
    (hp : s.pending = rid :: rest) (h : admitOne cfg s = .ok s') : Admission cfg s s' rid rest :=
  admitOne_spec hp (hs.head_not_active hp) hs.active_nodup h

/-- One turn of the first loop: an admission, or the loop is over. -/
theorem admitLoop_turn (cfg : Config Col) (fuel : Nat) (s : Batcher Col) :
    (∃ rid rest, s.active.length < cfg.maxBatchSize ∧ s.pending = rid :: rest ∧
      admitLoop cfg (fuel + 1) s = admitOne cfg s >>= admitLoop cfg fuel) ∨
    ((s.active.length < cfg.maxBatchSize → s.pending = []) ∧ admitLoop cfg (fuel + 1) s = .ok s) := by
  by_cases hcond : s.active.length < cfg.maxBatchSize ∧ s.pending.length > 0
  · obtain ⟨rid, rest, hp⟩ := List.exists_cons_of_length_pos hcond.2
    refine .inl ⟨rid, rest, hcond.1, hp, ?_⟩
    simp only [admitLoop, if_pos hcond]
  · refine .inr ⟨?_, ?_⟩
    · intro hroom
      by_contra hne
      exact hcond ⟨hroom, List.length_pos_iff.mpr hne⟩
    · simp only [admitLoop, if_neg hcond]
      rfl

theorem admitLoop_of_room {rid : Nat} {rest : List Nat} (hroom : s.active.length < cfg.maxBatchSize)
    (hp : s.pending = rid :: rest) {fuel : Nat} :
    admitLoop cfg (fuel + 1) s = admitOne cfg s >>= admitLoop cfg fuel := by
  rcases admitLoop_turn cfg fuel s with ⟨-, -, -, -, heq⟩ | ⟨hstop, -⟩
  · exact heq
  · rw [hstop hroom] at hp
    cases hp

theorem headIsNormal_iff : headIsNormal s = true ↔
    ∃ rid rest, s.pending = rid :: rest ∧ s.priority rid = 0 := by
  unfold headIsNormal
  cases hp : s.pending with
  | nil => simp
  | cons rid rest => simp

/-- The second loop has something to do. -/
structure Swappable (cfg : Config Col) (s : Batcher Col) (rid : Nat) (rest : List Nat)
    (victim : Nat) : Prop where
  full : cfg.maxBatchSize ≤ s.active.length
  pending : s.pending = rid :: rest
  head : s.priority rid = 0
  victim : findDeprioritizeVictim s = some victim

/-- One turn of the second loop: a swap, or the loop is over. -/
theorem preemptLoop_turn (cfg : Config Col) (attempts : Nat) (s : Batcher Col) :
    (∃ rid rest victim, Swappable cfg s rid rest victim ∧
      preemptLoop cfg (attempts + 1) s = admitOne cfg (preempt s victim) >>= preemptLoop cfg attempts) ∨
    ((∀ rid rest victim, ¬ Swappable cfg s rid rest victim) ∧
      preemptLoop cfg (attempts + 1) s = .ok s) := by
  by_cases hcond : s.active.length ≥ cfg.maxBatchSize ∧ headIsNormal s = true
  · obtain ⟨rid, rest, hp, hhead⟩ := headIsNormal_iff.mp hcond.2
    cases hvictim : findDeprioritizeVictim s with
    | none =>
      refine .inr ⟨?_, ?_⟩
      · intro _ _ victim hsw
        rw [hsw.victim] at hvictim
        cases hvictim
      · simp only [preemptLoop, if_pos hcond, hvictim]
        rfl
    | some victim =>
      refine .inl ⟨rid, rest, victim, ⟨hcond.1, hp, hhead, hvictim⟩, ?_⟩
      simp only [preemptLoop, if_pos hcond, hvictim]
  · refine .inr ⟨?_, ?_⟩
    · intro rid rest victim hsw
      exact hcond ⟨hsw.full, headIsNormal_iff.mpr ⟨rid, rest, hsw.pending, hsw.head⟩⟩
    · simp only [preemptLoop, if_neg hcond]
      rfl

theorem preemptLoop_of_swappable {rid : Nat} {rest : List Nat} {victim : Nat}
    (hsw : Swappable cfg s rid rest victim) {attempts : Nat} :
    preemptLoop cfg (attempts + 1) s = admitOne cfg (preempt s victim) >>= preemptLoop cfg attempts := by
  rcases preemptLoop_turn cfg attempts s with ⟨rid', rest', victim', hsw', heq⟩ | ⟨hstop, -⟩
  · obtain rfl : victim' = victim := Option.some.inj (hsw'.victim.symm.trans hsw.victim)
    exact heq
  · exact absurd hsw (hstop rid rest victim)

/-- One turn of a loop of `_try_admit`, as the code takes it. -/
inductive Intake (cfg : Config Col) (s s' : Batcher Col) : Prop where
  | admission (rid : Nat) (rest : List Nat) (hroom : s.active.length < cfg.maxBatchSize)
      (hp : s.pending = rid :: rest) (h : admitOne cfg s = .ok s')
  | swap (rid : Nat) (rest : List Nat) (victim : Nat) (hstrategy : cfg.strategy = .probeDeprioritize)
      (hsw : Swappable cfg s rid rest victim) (h : admitOne cfg (preempt s victim) = .ok s')

abbrev Intakes (cfg : Config Col) : Batcher Col → Batcher Col → Prop :=
  Relation.ReflTransGen (Intake cfg)

theorem admitLoop_intakes : ∀ (fuel : Nat) {s : Batcher Col},
    admitLoop cfg fuel s = .ok s' → Intakes cfg s s' := by
  intro fuel
  induction fuel with
  | zero =>
    intro s h
    obtain rfl := Except.ok.inj h
    exact .refl
  | succ fuel ih =>
    intro s h
    rcases admitLoop_turn cfg fuel s with ⟨rid, rest, hroom, hp, heq⟩ | ⟨-, heq⟩
    · rw [heq] at h
      obtain ⟨t, ht, h⟩ := bind_eq_ok.mp h
      exact .head (.admission rid rest hroom hp ht) (ih h)
    · obtain rfl := Except.ok.inj (heq.symm.trans h)
      exact .refl

theorem preemptLoop_intakes (hstrategy : cfg.strategy = .probeDeprioritize) :
    ∀ (attempts : Nat) {s : Batcher Col}, preemptLoop cfg attempts s = .ok s' → Intakes cfg s s' := by
  intro attempts
  induction attempts with
  | zero =>
    intro s h
    obtain rfl := Except.ok.inj h
    exact .refl
  | succ attempts ih =>
    intro s h
    rcases preemptLoop_turn cfg attempts s with ⟨rid, rest, victim, hsw, heq⟩ | ⟨-, heq⟩
    · rw [heq] at h
      obtain ⟨t, ht, h⟩ := bind_eq_ok.mp h
      exact .head (.swap rid rest victim hstrategy hsw ht) (ih h)
    · obtain rfl := Except.ok.inj (heq.symm.trans h)
      exact .refl

/-- The two loops of `_try_admit`. -/
theorem tryAdmit_loops (h : tryAdmit cfg s = .ok s') :
    ∃ t, admitLoop cfg s.pending.length s = .ok t ∧ Intakes cfg t s' := by
  unfold tryAdmit at h
  obtain ⟨t, ht, h⟩ := bind_eq_ok.mp h
  refine ⟨t, ht, ?_⟩
  split at h
  · obtain rfl := Except.ok.inj h
    exact .refl
  · rename_i hstrategy
    exact preemptLoop_intakes (by simpa using hstrategy) _ h

/-- **`_try_admit` is a sequence of such turns.** -/
theorem tryAdmit_intakes (h : tryAdmit cfg s = .ok s') : Intakes cfg s s' := by
  obtain ⟨t, ht, hrest⟩ := tryAdmit_loops h
  exact (admitLoop_intakes _ ht).trans hrest

/-! Each turn is a piece of work. -/

theorem Swappable.admission {rid : Nat} {rest : List Nat} {victim : Nat} (hs : SysInv cfg s)
    (hsw : Swappable cfg s rid rest victim) (h : PGI.admitOne cfg (preempt s victim) = .ok s') :
    Admission cfg (preempt s victim) s' rid (rest ++ [victim]) := by
  obtain ⟨hmem, hv⟩ := findDeprioritizeVictim_some hsw.victim
  exact (hs.preempt hmem hv).admitOne (hs.preempt_pending_cons hv hsw.pending) h

theorem Intake.work (hs : SysInv cfg s) (h : Intake cfg s s') : Work cfg s s' := by
  cases h with
  | admission rid rest hroom hp h => exact .admission rid rest hroom hp (hs.admitOne hp h)
  | swap rid rest victim hstrategy hsw h =>
    obtain ⟨hmem, hv⟩ := findDeprioritizeVictim_some hsw.victim
    exact .swap rid rest victim hstrategy hsw.full hsw.pending hsw.head hmem hv (hsw.admission hs h)

/-- What every turn keeps, a sequence of turns keeps. -/
theorem Intakes.keep {I : Batcher Col → Prop}
    (hstep : ∀ t u, SysInv cfg t → I t → Intake cfg t u → I u) (hs : SysInv cfg s) (hI : I s)
    (h : Intakes cfg s s') : SysInv cfg s' ∧ I s' := by
  induction h with
  | refl => exact ⟨hs, hI⟩
  | tail _ hw ih => exact ⟨(hw.work ih.1).inv ih.1, hstep _ _ ih.1 ih.2 hw⟩

theorem Intakes.works (hs : SysInv cfg s) (h : Intakes cfg s s') : Works cfg s s' :=
  (h.keep (I := Works cfg s) (fun _ _ ht hI hw => hI.tail (hw.work ht)) hs .refl).2

theorem Intakes.inv (hs : SysInv cfg s) (h : Intakes cfg s s') : SysInv cfg s' :=
  (h.works hs).inv hs

theorem admitLoop_succ {fuel : Nat} (hs : SysInv cfg s) (h : admitLoop cfg (fuel + 1) s = .ok s') :
    (s.active.length < cfg.maxBatchSize ∧ ∃ rid rest, s.pending = rid :: rest ∧
      ∃ t, Admission cfg s t rid rest ∧ admitLoop cfg fuel t = .ok s') ∨
    ((s.active.length < cfg.maxBatchSize → s.pending = []) ∧ s' = s) := by
  rcases admitLoop_turn cfg fuel s with ⟨rid, rest, hroom, hp, heq⟩ | ⟨hstop, heq⟩
  · rw [heq] at h
    obtain ⟨t, ht, h⟩ := bind_eq_ok.mp h
    exact .inl ⟨hroom, rid, rest, hp, t, hs.admitOne hp ht, h⟩
  · exact .inr ⟨hstop, Except.ok.inj (h.symm.trans heq)⟩

theorem preemptLoop_succ {attempts : Nat} (hs : SysInv cfg s)
    (h : preemptLoop cfg (attempts + 1) s = .ok s') :
    (∃ rid rest victim, Swappable cfg s rid rest victim ∧
      ∃ t, admitOne cfg (preempt s victim) = .ok t ∧
        Admission cfg (preempt s victim) t rid (rest ++ [victim]) ∧
        preemptLoop cfg attempts t = .ok s') ∨
    ((∀ rid rest victim, ¬ Swappable cfg s rid rest victim) ∧ s' = s) := by
  rcases preemptLoop_turn cfg attempts s with ⟨rid, rest, victim, hsw, heq⟩ | ⟨hstop, heq⟩
  · rw [heq] at h
    obtain ⟨t, ht, h⟩ := bind_eq_ok.mp h
    exact .inl ⟨rid, rest, victim, hsw, t, ht, hsw.admission hs ht, h⟩
  · exact .inr ⟨hstop, Except.ok.inj (h.symm.trans heq)⟩

theorem admitLoop_works (fuel : Nat) (hs : SysInv cfg s) (h : admitLoop cfg fuel s = .ok s') :
    Works cfg s s' := (admitLoop_intakes fuel h).works hs

theorem tryAdmit_split (hs : SysInv cfg s) (h : tryAdmit cfg s = .ok s') :
    ∃ t, admitLoop cfg s.pending.length s = .ok t ∧ Works cfg t s' := by
  obtain ⟨t, ht, hrest⟩ := tryAdmit_loops h
  exact ⟨t, ht, hrest.works ((admitLoop_works _ hs ht).inv hs)⟩

theorem tryAdmit_works (hs : SysInv cfg s) (h : tryAdmit cfg s = .ok s') : Works cfg s s' :=
  (tryAdmit_intakes h).works hs

theorem decodePhase_works [Zero Col] (hs : SysInv cfg s) (hne : s.active ≠ [])
    (h : decodePhase cfg s = .ok s') : DecodedAll cfg s s' := by
  obtain ⟨g, hfed⟩ := hs.fed
  exact decodePhase_spec hfed hne hs.active_nodup h

/-- A tick admits, and then decodes if anything is active. -/
theorem tick_ok [Zero Col] : tick cfg s = .ok s' ↔ ∃ t, tryAdmit cfg s = .ok t ∧
    ((t.active = [] ∧ s' = t) ∨ (t.active ≠ [] ∧ decodePhase cfg t = .ok s')) := by
  unfold tick
  rw [bind_eq_ok]
  apply exists_congr
  intro t
  apply and_congr_right
  intro _
  cases ht : t.active with
  | nil => simp [eq_comm]
  | cons r rest => simp

/-- **A tick is a sequence of such pieces of work.** -/
theorem tick_works [Zero Col] (hs : SysInv cfg s) (h : tick cfg s = .ok s') : Works cfg s s' := by
  obtain ⟨t, ht, h⟩ := tick_ok.mp h
  have hadmitted := tryAdmit_works hs ht
  rcases h with ⟨-, rfl⟩ | ⟨hne, h⟩
  · exact hadmitted
  · exact hadmitted.tail (.decode hne (decodePhase_works (hadmitted.inv hs) hne h))

/-- What every turn of the loops and every decode phase keep, a tick keeps. -/
theorem tick_keep [Zero Col] {I : Batcher Col → Prop}
    (hintake : ∀ s s', SysInv cfg s → I s → Intake cfg s s' → I s')
    (hdecode : ∀ s s', SysInv cfg s → I s → s.active ≠ [] → decodePhase cfg s = .ok s' → I s')
    (hs : SysInv cfg s) (hI : I s) (h : tick cfg s = .ok s') : I s' := by
  obtain ⟨t, ht, h⟩ := tick_ok.mp h
  obtain ⟨htinv, hIt⟩ := (tryAdmit_intakes ht).keep hintake hs hI
  rcases h with ⟨-, rfl⟩ | ⟨hne, h⟩
  · exact hIt
  · exact hdecode t s' htinv hIt hne h

end Tick

/-! Submissions, cancellations and whole runs. -/

section Runs
variable {cfg : Config Col} {s s' : Batcher Col}

theorem sysInv_new (firstId : Nat) : SysInv cfg (Batcher.new firstId) where
  partition := by simp [Batcher.new, Batcher.finished]
  nodup := by simp [Batcher.new]
  fresh := by simp [Batcher.new]
  life := by simp [Batcher.new]
  unborn := by simp [Batcher.new, BatchedSequenceCache.empty, Batcher.history]
  batch := by simp [Batcher.new]

theorem SysInv.nextId_not_submitted (hs : SysInv cfg s) : s.nextId ∉ s.submitted :=
  fun h => Nat.lt_irrefl _ (hs.fresh _ h)

theorem SysInv.submit_view_self (hs : SysInv cfg s) (maxTokens : Int) (promptIds : List Nat)
    (stream : Bool) :
    (submit maxTokens promptIds stream s).view s.nextId = .fresh maxTokens promptIds stream := by
  have hact : s.nextId ∉ s.active :=
    fun h => hs.nextId_not_submitted (hs.mem_submitted.mpr (.inr (.inl h)))
  have hfin : s.nextId ∉ s.finished :=
    fun h => hs.nextId_not_submitted (hs.mem_submitted.mpr (.inr (.inr h)))
  have hloc : s.loc s.nextId = .pending := by simp [Batcher.loc, hact, hfin]
  obtain ⟨hkv, hlen, hhist⟩ := hs.unborn s.nextId (le_refl _)
  ext1
  · exact hloc
  · simp [submit, View.fresh]
  · exact hkv
  · exact hlen
  · exact hhist

theorem submit_view_ne (maxTokens : Int) (promptIds : List Nat) (stream : Bool) {r : Nat}
    (hr : r ≠ s.nextId) : (submit maxTokens promptIds stream s).view r = s.view r := by
  apply Batcher.view_congr
  · rfl
  · rfl
  · simp [submit, hr]
  · rfl
  · rfl
  · rfl

theorem submit_requests_ne (maxTokens : Int) (promptIds : List Nat) (stream : Bool) {r : Nat}
    (hr : r ≠ s.nextId) : (submit maxTokens promptIds stream s).requests r = s.requests r :=
  congrArg View.req (submit_view_ne maxTokens promptIds stream hr)

theorem SysInv.submit (hs : SysInv cfg s) (maxTokens : Int) (promptIds : List Nat)
    (stream : Bool) : SysInv cfg (submit maxTokens promptIds stream s) where
  partition := by
    show ((s.pending ++ [s.nextId]) ++ s.active ++ s.finished).Perm (s.submitted ++ [s.nextId])
    calc List.Perm ((s.pending ++ [s.nextId]) ++ s.active ++ s.finished)
          (s.nextId :: (s.pending ++ s.active ++ s.finished)) := by
          simp only [List.append_assoc, List.singleton_append]
          exact List.perm_middle
      List.Perm _ (s.nextId :: s.submitted) := hs.partition.cons s.nextId
      List.Perm _ (s.submitted ++ [s.nextId]) := (List.perm_append_singleton _ _).symm
  nodup := by
    show (s.submitted ++ [s.nextId]).Nodup
    rw [(List.perm_append_singleton _ _).nodup_iff, List.nodup_cons]
    exact ⟨hs.nextId_not_submitted, hs.nodup⟩
  fresh := by
    intro r hr
    show r < s.nextId + 1
    rcases List.mem_append.mp hr with hr | hr
    · have := hs.fresh r hr
      omega
    · have : r = s.nextId := List.mem_singleton.mp hr
      omega
  life := by
    intro r hr
    by_cases hnew : r = s.nextId
    · rw [hnew, hs.submit_view_self]
      exact .fresh maxTokens promptIds stream
    · rw [submit_view_ne maxTokens promptIds stream hnew]
      rcases List.mem_append.mp hr with hr | hr
      · exact hs.life r hr
      · exact absurd (List.mem_singleton.mp hr) hnew
  unborn := by
    intro r hr
    have hr' : s.nextId + 1 ≤ r := hr
    exact hs.unborn r (by omega)
  batch := hs.batch

theorem cancel_view_self (s : Batcher Col) (rid : Nat) :
    (cancel rid s).view rid = (s.view rid).cancel := by
  ext1
  · rfl
  · simp [cancel, View.cancel]
  · rfl
  · rfl
  · rfl

theorem cancel_view_ne (s : Batcher Col) {r rid : Nat} (hr : r ≠ rid) :
    (cancel rid s).view r = s.view r := by
  apply Batcher.view_congr
  · rfl
  · rfl
  · simp [cancel, hr]
  · rfl
  · rfl
  · rfl

/-- A cancellation changes nothing but a future. -/
theorem cancel_requests (s : Batcher Col) (rid r : Nat) :
    ∃ f : Future, (cancel rid s).requests r = { s.requests r with result := f } := by
  by_cases hr : r = rid
  · subst hr
    exact ⟨(s.requests r).result.cancel, congrArg View.req (cancel_view_self s r)⟩
  · exact ⟨(s.requests r).result, congrArg View.req (cancel_view_ne s hr)⟩

theorem SysInv.cancel (hs : SysInv cfg s) {rid : Nat} (hrid : rid ∈ s.submitted) :
    SysInv cfg (cancel rid s) := by
  refine hs.change rfl rfl (List.Perm.refl _) hs.batch ?_
  intro r
  by_cases hr : r = rid
  · subst hr
    rw [cancel_view_self]
    exact .inr ⟨hrid, .cancel (s.view r)⟩
  · exact .inl (cancel_view_ne s hr)

/-- What submissions, cancellations and ticks keep, every event keeps. -/
theorem SysInv.event_tick [Zero Col] {I : Batcher Col → Prop} {e : Event}
    (hsubmit : ∀ s maxTokens promptIds stream, SysInv cfg s → I s →
      I (PGI.submit maxTokens promptIds stream s))
    (hcancel : ∀ s rid, SysInv cfg s → I s → rid ∈ s.submitted → I (PGI.cancel rid s))
    (htick : ∀ s s', SysInv cfg s → I s → tick cfg s = .ok s' → I s')
    (hs : SysInv cfg s) (hI : I s) (h : step cfg s e = .ok s') : SysInv cfg s' ∧ I s' := by
  cases e with
  | submit maxTokens promptIds stream =>
    obtain rfl := Except.ok.inj h
    exact ⟨hs.submit maxTokens promptIds stream, hsubmit s maxTokens promptIds stream hs hI⟩
  | cancel rid =>
    obtain rfl := Except.ok.inj h
    by_cases hrid : rid ∈ s.submitted
    · rw [if_pos hrid]
      exact ⟨hs.cancel hrid, hcancel s rid hs hI hrid⟩
    · rw [if_neg hrid]
      exact ⟨hs, hI⟩
  | tick => exact ⟨(tick_works hs h).inv hs, htick s s' hs hI h⟩

/-- What submissions, cancellations and pieces of work keep, every event keeps. -/
theorem SysInv.event [Zero Col] {I : Batcher Col → Prop} {e : Event}
    (hsubmit : ∀ s maxTokens promptIds stream, SysInv cfg s → I s →
      I (PGI.submit maxTokens promptIds stream s))
    (hcancel : ∀ s rid, SysInv cfg s → I s → rid ∈ s.submitted → I (PGI.cancel rid s))
    (hwork : ∀ s s', SysInv cfg s → I s → Work cfg s s' → I s')
    (hs : SysInv cfg s) (hI : I s) (h : step cfg s e = .ok s') : SysInv cfg s' ∧ I s' :=
  hs.event_tick hsubmit hcancel
    (fun _ _ hs hI h => ((tick_works hs h).keep hwork hs hI).2) hI h

/-- **The run rule.** What a new batcher has, and submissions, cancellations and pieces of
    work keep, every run keeps. -/
theorem runEvents_keep [Zero Col] {I : Batcher Col → Prop} {firstId : Nat} {events : List Event}
    (hnew : I (Batcher.new firstId))
    (hsubmit : ∀ s maxTokens promptIds stream, SysInv cfg s → I s →
      I (PGI.submit maxTokens promptIds stream s))
    (hcancel : ∀ s rid, SysInv cfg s → I s → rid ∈ s.submitted → I (PGI.cancel rid s))
    (hwork : ∀ s s', SysInv cfg s → I s → Work cfg s s' → I s')
    (h : runEvents cfg firstId events = .ok s) : SysInv cfg s ∧ I s := by
  refine Runs.run_invariant (I := fun s => SysInv cfg s ∧ I s) ?_ ⟨sysInv_new firstId, hnew⟩ h
  intro s e s' hs hstep
  exact hs.1.event hsubmit hcancel hwork hs.2 hstep

/-- The run rule for what depends on how the code takes its turns. -/
theorem runEvents_keep_turns [Zero Col] {I : Batcher Col → Prop} {firstId : Nat}
    {events : List Event} (hnew : I (Batcher.new firstId))
    (hsubmit : ∀ s maxTokens promptIds stream, SysInv cfg s → I s →
      I (PGI.submit maxTokens promptIds stream s))
    (hcancel : ∀ s rid, SysInv cfg s → I s → rid ∈ s.submitted → I (PGI.cancel rid s))
    (hintake : ∀ s s', SysInv cfg s → I s → Intake cfg s s' → I s')
    (hdecode : ∀ s s', SysInv cfg s → I s → s.active ≠ [] → decodePhase cfg s = .ok s' → I s')
    (h : runEvents cfg firstId events = .ok s) : SysInv cfg s ∧ I s := by
  refine Runs.run_invariant (I := fun s => SysInv cfg s ∧ I s) ?_ ⟨sysInv_new firstId, hnew⟩ h
  intro s e s' hs hstep
  exact hs.1.event_tick hsubmit hcancel
    (fun _ _ hs hI h => tick_keep hintake hdecode hs hI h) hs.2 hstep

theorem runEvents_inv [Zero Col] {firstId : Nat} {events : List Event}
    (h : runEvents cfg firstId events = .ok s) : SysInv cfg s :=
  (runEvents_keep (I := fun _ => True) trivial (fun _ _ _ _ _ _ => trivial)
    (fun _ _ _ _ _ => trivial) (fun _ _ _ _ _ => trivial) h).1

theorem visits_inv [Zero Col] {firstId : Nat} {events : List Event}
    (h : Runs.Visits (step cfg) (Batcher.new firstId) events s) : SysInv cfg s := by
  obtain ⟨pre, post, -, hpre⟩ := h
  exact runEvents_inv hpre

/-- **Every run refines the life of every request.** -/
theorem runEvents_life [Zero Col] {firstId : Nat} {events : List Event}
    (h : runEvents cfg firstId events = .ok s) {r : Nat} (hr : r ∈ s.submitted) :
    LifeReach cfg r (s.view r) := (runEvents_inv h).life r hr

end Runs

end PGI
