import ProbeGuidedInference.Logbook

/- What the first loop of `_try_admit` does. It walks along the queue and takes one
   request after another; a request that ends at its own prefill takes no slot. `Fills`
   says of the state before the loop which requests it takes until the batch is full,
   which of them keep a slot and which are left; `TookIn` is what it leaves behind. -/
namespace PGI
open Fallible

variable {Col : Type}

/-- Whether the request, prefilled by forward `n`, needs a slot for more than its first
    token; `none` when the forward raises. -/
def stays (cfg : Config Col) (n : Nat) (r : GenerationRequest) : Option Bool :=
  match cfg.model.prefill n r.promptIds with
  | .error _ => none
  | .ok out => some (!cfg.ended (argmax out.logits) (r.firstToken cfg (argmax out.logits)))

/-- Those of `ids` that stay, when they are prefilled in this order from forward `n` on. -/
def staying (cfg : Config Col) (s : Batcher Col) : Nat → List Nat → Option (List Nat)
  | _, [] => some []
  | n, rid :: rest =>
    (stays cfg n (s.requests rid)).bind fun stay =>
      (staying cfg s (n + 1) rest).map fun kept => if stay then rid :: kept else kept

/-- The first loop takes `admitted` from the queue and leaves `rest`: those of `admitted`
    that stay fill the free slots, and the last of them is one. -/
structure Fills (cfg : Config Col) (s : Batcher Col) (admitted kept rest : List Nat) : Prop where
  queue : s.pending = admitted ++ rest
  filled : staying cfg s s.forwards admitted = some kept
  room : s.active.length + kept.length = cfg.maxBatchSize
  last : ∀ front r, admitted = front ++ [r] →
    stays cfg (s.forwards + front.length) (s.requests r) = some true

/-- From `s` to `t` the requests `admitted` are taken from the queue, and `kept` of them
    take a slot. -/
structure TookIn (s t : Batcher Col) (admitted kept rest : List Nat) : Prop where
  queue : s.pending = admitted ++ rest
  pending : t.pending = rest
  active : t.active = s.active ++ kept
  subset : kept ⊆ admitted
  forwards : t.forwards = s.forwards + admitted.length
  priority : t.priority = s.priority
  other : ∀ r ∉ admitted, t.requests r = s.requests r
  fresh : ∀ r ∈ kept, (t.requests r).nGenerated = 1
  log : ∃ entries, t.log = s.log ++ entries ∧ admissions entries = admitted ∧
    preemptions entries = []

section Staying
variable {cfg : Config Col} {s s' : Batcher Col}

theorem staying_congr {n : Nat} {ids : List Nat}
    (h : ∀ r ∈ ids, s'.requests r = s.requests r) : staying cfg s' n ids = staying cfg s n ids := by
  induction ids generalizing n with
  | nil => rfl
  | cons rid rest ih =>
    simp only [staying]
    rw [h rid List.mem_cons_self, ih (fun r hr => h r (List.mem_cons_of_mem rid hr))]

theorem staying_cons {n rid : Nat} {rest kept : List Nat} :
    staying cfg s n (rid :: rest) = some kept ↔ ∃ stay keptRest,
      stays cfg n (s.requests rid) = some stay ∧ staying cfg s (n + 1) rest = some keptRest ∧
        kept = if stay then rid :: keptRest else keptRest := by
  simp only [staying, Option.bind_eq_some_iff, Option.map_eq_some_iff, eq_comm (a := kept)]
  refine ⟨?_, ?_⟩
  · intro h
    obtain ⟨stay, hstay, keptRest, hrest, rfl⟩ := h
    exact ⟨stay, keptRest, hstay, hrest, rfl⟩
  · intro h
    obtain ⟨stay, keptRest, hstay, hrest, rfl⟩ := h
    exact ⟨stay, hstay, keptRest, hrest, rfl⟩

theorem staying_sublist {n : Nat} {ids kept : List Nat} (h : staying cfg s n ids = some kept) :
    kept.Sublist ids := by
  induction ids generalizing n kept with
  | nil =>
    obtain rfl := Option.some.inj h
    exact List.Sublist.refl _
  | cons rid rest ih =>
    obtain ⟨stay, keptRest, -, hrest, rfl⟩ := staying_cons.mp h
    cases stay with
    | true => exact (ih hrest).cons_cons rid
    | false => exact (ih hrest).cons rid

/-- If the last of them stays, some of them does. -/
theorem staying_ne_nil {n r : Nat} {front kept : List Nat}
    (hr : stays cfg (n + front.length) (s.requests r) = some true)
    (h : staying cfg s n (front ++ [r]) = some kept) : kept ≠ [] := by
  induction front generalizing n kept with
  | nil =>
    obtain ⟨stay, keptRest, hstay, -, rfl⟩ := staying_cons.mp h
    rw [List.length_nil, Nat.add_zero, hstay] at hr
    obtain rfl := Option.some.inj hr
    simp
  | cons rid front ih =>
    obtain ⟨stay, keptRest, -, hrest, rfl⟩ := staying_cons.mp h
    have hlast : stays cfg (n + 1 + front.length) (s.requests r) = some true := by
      rw [← hr, List.length_cons]
      congr 1
      omega
    have hne := ih hlast hrest
    cases stay with
    | true => simp
    | false => simpa using hne

end Staying

/-! One admission moves the walk one request on. -/

section Admission
variable {cfg : Config Col} {s t u : Batcher Col} {rid : Nat} {rest : List Nat}

/-- An admitted request takes a slot exactly if it stays. -/
theorem Admission.stays (hs : SysInv cfg s) (hp : s.pending = rid :: rest)
    (h : Admission cfg s t rid rest) : ∃ stay, PGI.stays cfg s.forwards (s.requests rid) = some stay ∧
      t.active = if stay then s.active ++ [rid] else s.active := by
  obtain ⟨out, hout, hview⟩ := h.self
  have hmem : rid ∈ s.pending := by rw [hp]; exact List.mem_cons_self
  have hstays : PGI.stays cfg s.forwards (s.requests rid) = some (!cfg.ended (argmax out.logits)
      ((s.requests rid).firstToken cfg (argmax out.logits))) := by
    unfold PGI.stays
    rw [hout]
  refine ⟨_, hstays, ?_⟩
  -- the location tells which of the two places of `Admission` it is
  have hloc : t.loc rid = _ := congrArg View.loc hview
  rcases (s.view rid).admitted_cases cfg rid (cfg.time s.clock) (rest.map s.priority) out with
    ⟨heq, he⟩ | ⟨heq, he⟩
  · rw [heq, View.finish_loc] at hloc
    rw [Batcher.view_req] at he
    rcases h.place with ⟨hact, -⟩ | ⟨hact, -⟩
    · rw [loc_active (by rw [hact]; simp)] at hloc
      cases hloc
    · simp [he, hact]
  · rw [heq, View.prefill_loc] at hloc
    rw [Batcher.view_req] at he
    rcases h.place with ⟨hact, -⟩ | ⟨hact, -⟩
    · simp [he, hact]
    · have hin : rid ∈ t.active := by
        by_contra hnot
        simp only [Batcher.loc, hnot, if_false] at hloc
        split at hloc <;> cases hloc
      rw [hact] at hin
      exact absurd hin (hs.pending_not_active hmem)

/-- It has its first token and no other. -/
theorem Admission.oneToken (hs : SysInv cfg s) (hp : s.pending = rid :: rest)
    (h : Admission cfg s t rid rest) : (t.requests rid).nGenerated = 1 := by
  obtain ⟨out, -, hview⟩ := h.self
  have hmem : rid ∈ s.pending := by rw [hp]; exact List.mem_cons_self
  have hnone : (s.requests rid).generatedIds = [] :=
    ((hs.lifeInv (hs.mem_submitted.mpr (.inl hmem))).waiting (hs.loc_pending hmem)).2.2.1
  have hreq : t.requests rid = _ := congrArg View.req hview
  rw [hreq]
  rcases (s.view rid).admitted_cases cfg rid (cfg.time s.clock) (rest.map s.priority) out with
    ⟨heq, -⟩ | ⟨heq, -⟩
  · rw [heq]
    simp [GenerationRequest.nGenerated, hnone]
  · rw [heq]
    simp [GenerationRequest.nGenerated, hnone]

theorem Admission.requests_rest (hs : SysInv cfg s) (hp : s.pending = rid :: rest)
    (h : Admission cfg s t rid rest) {r : Nat} (hr : r ∈ rest) : t.requests r = s.requests r := by
  have hnd := hs.pending_nodup
  rw [hp, List.nodup_cons] at hnd
  apply h.requests_ne
  intro heq
  exact hnd.1 (heq ▸ hr)

theorem admitOne_of_stays (hs : SysInv cfg s) {stay : Bool} (hp : s.pending = rid :: rest)
    (hstay : PGI.stays cfg s.forwards (s.requests rid) = some stay) : ∃ t, admitOne cfg s = .ok t := by
  unfold PGI.stays at hstay
  split at hstay
  · cases hstay
  · rename_i out hout
    exact ⟨_, admitOne_eq hp (hs.head_not_active hp) hout⟩

section Walk
variable {admitted kept behind : List Nat} {stay : Bool}

/-- The slots that are taken when the walk is past `admitted`. -/
theorem admission_slots (hact : t.active = if stay then s.active ++ [rid] else s.active) :
    s.active ++ (if stay then rid :: kept else kept) = t.active ++ kept := by
  rw [hact]
  cases stay <;> simp

theorem admission_room (hact : t.active = if stay then s.active ++ [rid] else s.active) :
    s.active.length + (if stay then rid :: kept else kept).length =
      t.active.length + kept.length := by
  calc s.active.length + (if stay then rid :: kept else kept).length
      = (s.active ++ (if stay then rid :: kept else kept)).length := List.length_append.symm
    _ = (t.active ++ kept).length := by rw [admission_slots hact]
    _ = t.active.length + kept.length := List.length_append

/-- A free slot is filled by someone. -/
theorem Fills.admitted_ne_nil (hf : Fills cfg s admitted kept behind)
    (hroom : s.active.length < cfg.maxBatchSize) : admitted ≠ [] := by
  intro hnil
  have hkept : kept = [] := by simpa [hnil, staying] using hf.filled.symm
  have hfull := hf.room
  rw [hkept, List.length_nil] at hfull
  omega

/-- With a full batch the walk is over. -/
theorem Fills.of_full (hf : Fills cfg s admitted kept behind)
    (hfull : s.active.length = cfg.maxBatchSize) : admitted = [] ∧ kept = [] := by
  have hkept : kept = [] := by
    have := hf.room
    exact List.length_eq_zero_iff.mp (by omega)
  refine ⟨?_, hkept⟩
  rcases List.eq_nil_or_concat' admitted with h | ⟨front, r, h⟩
  · exact h
  · exact absurd hkept (staying_ne_nil (hf.last front r h) (h ▸ hf.filled))

theorem fills_full (hfull : s.active.length = cfg.maxBatchSize) : Fills cfg s [] [] s.pending where
  queue := rfl
  filled := rfl
  room := hfull
  last front r h := absurd h (by simp)

theorem Admission.fills_after (hs : SysInv cfg s) (hp : s.pending = rid :: rest)
    (h : Admission cfg s t rid rest) (hact : t.active = if stay then s.active ++ [rid] else s.active)
    (hrest : staying cfg s (s.forwards + 1) admitted = some kept)
    (hf : Fills cfg s (rid :: admitted) (if stay then rid :: kept else kept) behind) :
    Fills cfg t admitted kept behind := by
  have hqueue : rest = admitted ++ behind := by simpa using hp.symm.trans hf.queue
  exact {
    queue := by rw [h.pending, hqueue]
    filled := by
      rw [h.forwards, staying_congr (fun r hr => h.requests_rest hs hp (by simp [hqueue, hr]))]
      exact hrest
    room := (admission_room hact).symm.trans hf.room
    last := by
      intro front r hfront
      have hlast := hf.last (rid :: front) r (by rw [hfront]; rfl)
      rw [h.requests_rest hs hp (by simp [hqueue, hfront]), ← hlast, h.forwards, List.length_cons]
      congr 1
      omega }

theorem Admission.fills_before (hs : SysInv cfg s) (hp : s.pending = rid :: rest)
    (h : Admission cfg s t rid rest) (hroom : s.active.length < cfg.maxBatchSize)
    (hstay : PGI.stays cfg s.forwards (s.requests rid) = some stay)
    (hact : t.active = if stay then s.active ++ [rid] else s.active)
    (hf : Fills cfg t admitted kept behind) :
    Fills cfg s (rid :: admitted) (if stay then rid :: kept else kept) behind := by
  have hqueue : rest = admitted ++ behind := h.pending.symm.trans hf.queue
  have hslots : s.active.length + (if stay then rid :: kept else kept).length = cfg.maxBatchSize :=
    (admission_room hact).trans hf.room
  exact {
    queue := by rw [hp, hqueue]; rfl
    filled := by
      refine staying_cons.mpr ⟨stay, kept, hstay, ?_, rfl⟩
      rw [← h.forwards,
        ← staying_congr (fun r hr => h.requests_rest hs hp (by simp [hqueue, hr]))]
      exact hf.filled
    room := hslots
    last := by
      intro front r hfront
      cases front with
      | nil =>
        obtain ⟨rfl, rfl⟩ : rid = r ∧ admitted = [] := by simpa using hfront
        -- it is the only one, so it takes the slot that was free
        have hkept : kept = [] := by simpa [staying] using hf.filled.symm
        cases stay with
        | true => exact hstay
        | false =>
          rw [hkept, if_neg (by decide), List.length_nil] at hslots
          omega
      | cons x front =>
        obtain ⟨rfl, rfl⟩ : rid = x ∧ admitted = front ++ [r] := by simpa using hfront
        have hlast := hf.last front r rfl
        rw [h.requests_rest hs hp (by simp [hqueue]), h.forwards] at hlast
        rw [← hlast, List.length_cons]
        congr 1
        omega }

/-! What is left behind. -/

theorem TookIn.refl (s : Batcher Col) : TookIn s s [] [] s.pending where
  queue := rfl
  pending := rfl
  active := by simp
  subset := List.Subset.refl _
  forwards := rfl
  priority := rfl
  other _ _ := rfl
  fresh r hr := by cases hr
  log := ⟨[], by simp, rfl, rfl⟩

/-- One more admission at the front. -/
theorem TookIn.cons (hs : SysInv cfg s) (hp : s.pending = rid :: rest)
    (ha : admitOne cfg s = .ok u) (hact : u.active = if stay then s.active ++ [rid] else s.active)
    (h : TookIn u t admitted kept behind) :
    TookIn s t (rid :: admitted) (if stay then rid :: kept else kept) behind := by
  have hadm := hs.admitOne hp ha
  have hqueue : rest = admitted ++ behind := hadm.pending.symm.trans h.queue
  have hnot : rid ∉ admitted := by
    have hnd := hs.pending_nodup
    rw [hp, hqueue, List.nodup_cons] at hnd
    exact fun hc => hnd.1 (List.mem_append_left _ hc)
  obtain ⟨tail, htail, hlog⟩ := admitOne_log hs hp ha
  obtain ⟨entries, hentries, hadmitted, hnone⟩ := h.log
  exact {
    queue := by rw [hp, hqueue]; rfl
    pending := h.pending
    active := by rw [admission_slots hact]; exact h.active
    subset := by
      intro r hr
      cases stay with
      | true =>
        rcases List.mem_cons.mp hr with rfl | hr
        · exact List.mem_cons_self
        · exact List.mem_cons_of_mem rid (h.subset hr)
      | false => exact List.mem_cons_of_mem rid (h.subset hr)
    forwards := by
      rw [h.forwards, hadm.forwards, List.length_cons]
      omega
    priority := h.priority.trans hadm.priority
    other := by
      intro r hr
      rw [List.mem_cons, not_or] at hr
      exact (h.other r hr.2).trans (hadm.requests_ne hr.1)
    fresh := by
      intro r hr
      have hfirst : (t.requests rid).nGenerated = 1 := by
        rw [h.other rid hnot]
        exact hadm.oneToken hs hp
      cases stay with
      | true =>
        rcases List.mem_cons.mp hr with rfl | hr
        · exact hfirst
        · exact h.fresh r hr
      | false => exact h.fresh r hr
    log := by
      refine ⟨.admitted rid (s.priority rid) (rest.map s.priority) :: (tail ++ entries), ?_, ?_, ?_⟩
      · rw [hentries, hlog]
        simp
      · simp [admissions_quiet htail, hadmitted]
      · simp [preemptions_quiet htail, hnone] }

end Walk

/-! The loop. -/

/-- The first loop takes requests in; with enough fuel it fills the batch, or empties the
    queue and leaves room. -/
theorem admitLoop_tookIn : ∀ (fuel : Nat) {s : Batcher Col}, SysInv cfg s →
    admitLoop cfg fuel s = .ok t → ∃ admitted kept rest, TookIn s t admitted kept rest ∧
      (s.pending.length ≤ fuel →
        Fills cfg s admitted kept rest ∨ (t.active.length < cfg.maxBatchSize ∧ rest = [])) := by
  have hend : ∀ {s : Batcher Col}, SysInv cfg s →
      (s.active.length < cfg.maxBatchSize → s.pending = []) →
      Fills cfg s [] [] s.pending ∨ (s.active.length < cfg.maxBatchSize ∧ s.pending = []) := by
    intro s hs hstop
    rcases Nat.lt_or_ge s.active.length cfg.maxBatchSize with hroom | hfull
    · exact .inr ⟨hroom, hstop hroom⟩
    · exact .inl (fills_full (le_antisymm hs.batch hfull))
  intro fuel
  induction fuel with
  | zero =>
    intro s hs h
    obtain rfl := Except.ok.inj h
    refine ⟨[], [], s.pending, .refl s, fun hlen => hend hs (fun _ => ?_)⟩
    exact List.length_eq_zero_iff.mp (by omega)
  | succ fuel ih =>
    intro s hs h
    rcases admitLoop_turn cfg fuel s with ⟨rid, rest, hroom, hp, heq⟩ | ⟨hstop, heq⟩
    · rw [heq] at h
      obtain ⟨u, hu, h⟩ := bind_eq_ok.mp h
      have hadm := hs.admitOne hp hu
      obtain ⟨stay, hstay, hact⟩ := hadm.stays hs hp
      obtain ⟨admitted, kept, behind, htook, hrest⟩ := ih (hadm.inv hs hp hroom) h
      refine ⟨rid :: admitted, _, behind, htook.cons hs hp hu hact, fun hlen => ?_⟩
      have hshorter : u.pending.length ≤ fuel := by
        rw [hadm.pending]
        rw [hp, List.length_cons] at hlen
        omega
      exact (hrest hshorter).imp (hadm.fills_before hs hp hroom hstay hact) id
    · obtain rfl := Except.ok.inj (heq.symm.trans h)
      exact ⟨[], [], s.pending, .refl s, fun _ => hend hs hstop⟩

/-- What fills the batch is what the first loop takes in; in particular it returns. -/
theorem Fills.admitLoop : ∀ (fuel : Nat) {s : Batcher Col} {admitted kept rest : List Nat},
    SysInv cfg s → s.pending.length ≤ fuel → Fills cfg s admitted kept rest →
    ∃ t, admitLoop cfg fuel s = .ok t ∧ TookIn s t admitted kept rest := by
  intro fuel
  induction fuel with
  | zero =>
    intro s admitted kept rest hs hlen hf
    have hempty : s.pending = [] := List.length_eq_zero_iff.mp (by omega)
    obtain ⟨rfl, rfl⟩ := List.append_eq_nil_iff.mp (hf.queue.symm.trans hempty)
    obtain rfl : kept = [] := by simpa [staying] using hf.filled.symm
    exact ⟨s, rfl, hempty ▸ TookIn.refl s⟩
  | succ fuel ih =>
    intro s admitted kept rest hs hlen hf
    rcases admitLoop_turn cfg fuel s with ⟨rid, behind, hroom, hp, heq⟩ | ⟨hstop, heq⟩
    · obtain ⟨x, admitted, rfl⟩ := List.exists_cons_of_ne_nil (hf.admitted_ne_nil hroom)
      obtain ⟨rfl, -⟩ : rid = x ∧ behind = admitted ++ rest := by simpa using hp.symm.trans hf.queue
      obtain ⟨stay', keptRest, hstay', hrest, rfl⟩ := staying_cons.mp hf.filled
      obtain ⟨u, hu⟩ := admitOne_of_stays hs hp hstay'
      have hadm := hs.admitOne hp hu
      obtain ⟨stay, hstay, hact⟩ := hadm.stays hs hp
      obtain rfl : stay = stay' := Option.some.inj (hstay.symm.trans hstay')
      have hshorter : u.pending.length ≤ fuel := by
        rw [hadm.pending]
        rw [hp, List.length_cons] at hlen
        omega
      obtain ⟨t, ht, htook⟩ := ih (hadm.inv hs hp hroom) hshorter
        (hadm.fills_after hs hp hact hrest hf)
      refine ⟨t, ?_, htook.cons hs hp hu hact⟩
      rw [heq, hu]
      exact ht
    · have hnil : admitted = [] ∧ kept = [] := by
        rcases Nat.lt_or_ge s.active.length cfg.maxBatchSize with hroom | hfull
        · have hempty := hf.queue.symm.trans (hstop hroom)
          exact absurd (List.append_eq_nil_iff.mp hempty).1 (hf.admitted_ne_nil hroom)
        · exact hf.of_full (le_antisymm hs.batch hfull)
      obtain ⟨rfl, rfl⟩ := hnil
      have hqueue : s.pending = rest := hf.queue
      exact ⟨s, heq, hqueue ▸ TookIn.refl s⟩

/-- The requests the first loop leaves in the queue are as they were. -/
theorem TookIn.requests_rest (hs : SysInv cfg s) {admitted kept behind : List Nat}
    (h : TookIn s t admitted kept behind) {r : Nat} (hr : r ∈ behind) :
    t.requests r = s.requests r := by
  apply h.other
  intro hc
  have hnd := hs.pending_nodup
  rw [h.queue] at hnd
  exact (List.nodup_append.mp hnd).2.2 r hc r hr rfl

end Admission

end PGI
