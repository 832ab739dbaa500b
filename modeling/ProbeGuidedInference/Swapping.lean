import ProbeGuidedInference.Filling

/- What the second loop of `_try_admit` does. With a full batch it swaps a deprioritized
   request out for the head of the queue while the head has priority 0; the walk along
   the queue goes on while the requests swapped in stay (`Walk`), and the bound on the
   number of attempts plays no part: each swap takes one deprioritized request out of the
   batch, which holds at most `max_batch_size` of them. What is said of the request at
   which the walk stops (`StopsAt`) is not changed by the swaps before it, so it can be
   said of the state in which `_try_admit` is called (`StopsAfter`). -/
namespace PGI
open Fallible

variable {Col : Type}

/-- What is said of the request `d` at which the walk stops, with `behind` behind it:
    whether it would stay, if it can be prefilled, is the first argument. -/
abbrev Verdict := Option Bool → Nat → List Nat → Prop

/-- The verdict is about a request that is not swapped in for good, and not about one
    that a swap has put back. -/
structure Verdict.Halting (priority : Nat → Int) (Q : Verdict) : Prop where
  normal : ∀ {st d behind}, Q st d behind → priority d = 0 → st = some false
  requeued : ∀ {st d behind victim}, priority victim = 1 →
    (Q st d (behind ++ [victim]) ↔ Q st d behind)
  notLast : ∀ {st d}, Q st d [] → priority d ≠ 1

/-- The queue is `normals`, `d`, `behind`: the first are normal requests that stay, fewer
    than there are deprioritized ones in the batch. -/
structure Walk (cfg : Config Col) (s : Batcher Col) (normals : List Nat) (d : Nat)
    (behind : List Nat) : Prop where
  queue : s.pending = normals ++ d :: behind
  swapped : staying cfg s s.forwards normals = some normals
  normal : ∀ r ∈ normals, s.priority r = 0
  few : normals.length < s.active.countP (fun r => s.priority r = 1)

/-- The second loop, entered in `s`, stops at a request of which the verdict holds. -/
def StopsAt (cfg : Config Col) (s : Batcher Col) (Q : Verdict) : Prop :=
  ∃ normals d behind, Walk cfg s normals d behind ∧
    Q (stays cfg (s.forwards + normals.length) (s.requests d)) d behind

/-- The queue is `admitted`, `normals`, `d`, `behind`: the first loop takes `admitted` and
    fills the batch with `kept`, and the second walks over `normals`. -/
structure Course (cfg : Config Col) (s : Batcher Col) (admitted kept normals : List Nat)
    (d : Nat) (behind : List Nat) : Prop where
  fills : Fills cfg s admitted kept (normals ++ d :: behind)
  swapped : staying cfg s (s.forwards + admitted.length) normals = some normals
  normal : ∀ r ∈ normals, s.priority r = 0
  few : normals.length < (s.active ++ kept).countP (fun r => s.priority r = 1)

/-- `_try_admit`, called in `s`, stops at a request of which the verdict holds. -/
def StopsAfter (cfg : Config Col) (s : Batcher Col) (Q : Verdict) : Prop :=
  ∃ admitted kept normals d behind, Course cfg s admitted kept normals d behind ∧
    Q (stays cfg (s.forwards + admitted.length + normals.length) (s.requests d)) d behind

/-- A swap after which the batch is full again. -/
structure Swap (cfg : Config Col) (s t : Batcher Col) (rid : Nat) (rest : List Nat)
    (victim : Nat) : Prop where
  swappable : Swappable cfg s rid rest victim
  stays : stays cfg s.forwards (s.requests rid) = some true
  done : admitOne cfg (preempt s victim) = .ok t

abbrev Swaps (cfg : Config Col) : Batcher Col → Batcher Col → Prop :=
  Relation.ReflTransGen (fun s t => ∃ rid rest victim, Swap cfg s t rid rest victim)

/-- The head of the queue is swapped in and ends at its own prefill. -/
structure LastSwap (cfg : Config Col) (s t : Batcher Col) (rid : Nat) (rest : List Nat)
    (victim : Nat) : Prop where
  swappable : Swappable cfg s rid rest victim
  ends : stays cfg s.forwards (s.requests rid) = some false
  done : admitOne cfg (preempt s victim) = .ok t

/-! One swap. -/

section Swap
variable {cfg : Config Col} {s t : Batcher Col} {rid victim : Nat} {rest : List Nat} {Q : Verdict}

theorem minByGenerated_isSome (s : Batcher Col) (rid : Nat) (rest : List Nat) :
    ∃ best, minByGenerated s (rid :: rest) = some best := by
  simp only [minByGenerated]
  split
  · exact ⟨rid, rfl⟩
  · split
    · exact ⟨_, rfl⟩
    · exact ⟨rid, rfl⟩

/-- There is a victim if a deprioritized request holds a slot. -/
theorem findDeprioritizeVictim_isSome {r : Nat} (hr : r ∈ s.active) (hone : s.priority r = 1) :
    ∃ victim, findDeprioritizeVictim s = some victim := by
  unfold findDeprioritizeVictim
  have hmem : r ∈ s.active.filter (fun rid => s.priority rid = 1) := by simp [hr, hone]
  obtain ⟨x, xs, hx⟩ := List.exists_cons_of_ne_nil (List.ne_nil_of_mem hmem)
  rw [hx]
  exact minByGenerated_isSome s x xs

theorem Swappable.pos (hsw : Swappable cfg s rid rest victim) :
    0 < s.active.countP (fun r => s.priority r = 1) := by
  obtain ⟨hmem, hv⟩ := findDeprioritizeVictim_some hsw.victim
  exact List.countP_pos_iff.mpr ⟨victim, hmem, by simp [hv]⟩

/-- A full batch with a deprioritized request and a normal head is one for the second loop. -/
theorem swappable_of_normal (hfull : s.active.length = cfg.maxBatchSize)
    (hp : s.pending = rid :: rest) (hhead : s.priority rid = 0)
    (hpos : 0 < s.active.countP (fun r => s.priority r = 1)) :
    ∃ victim, Swappable cfg s rid rest victim := by
  obtain ⟨r, hr, hone⟩ := List.countP_pos_iff.mp hpos
  obtain ⟨victim, hvictim⟩ := findDeprioritizeVictim_isSome hr (by simpa using hone)
  exact ⟨victim, hfull.ge, hp, hhead, hvictim⟩

/-- A swap takes one deprioritized request out of the batch. -/
theorem swap_countP (hhead : s.priority rid = 0) (hvictim : victim ∈ s.active)
    (hv : s.priority victim = 1) :
    (s.active.erase victim ++ [rid]).countP (fun r => s.priority r = 1) + 1 =
      s.active.countP (fun r => s.priority r = 1) := by
  have hperm := (List.perm_cons_erase hvictim).countP_eq (fun r => s.priority r = 1)
  rw [hperm, List.countP_append, List.countP_singleton, List.countP_cons (a := victim)]
  simp [hhead, hv]

/-- A swap changes neither request in the rest of the queue. -/
theorem swap_requests (hs : SysInv cfg s) (hp : s.pending = rid :: rest)
    (hvictim : victim ∈ s.active) (hv : s.priority victim = 1)
    (h : Admission cfg (preempt s victim) t rid (rest ++ [victim])) {r : Nat} (hr : r ∈ rest) :
    t.requests r = s.requests r := by
  have hne : r ≠ victim := by
    intro heq
    subst heq
    exact hs.pending_not_active (by rw [hp]; exact List.mem_cons_of_mem rid hr) hvictim
  calc t.requests r = (preempt s victim).requests r :=
        h.requests_rest (hs.preempt hvictim hv) (hs.preempt_pending_cons hv hp)
          (List.mem_append_left _ hr)
    _ = s.requests r := preempt_requests_ne s victim hne

theorem Swappable.inv (hs : SysInv cfg s) (hsw : Swappable cfg s rid rest victim)
    (ha : admitOne cfg (preempt s victim) = .ok t) : SysInv cfg t := by
  obtain ⟨hmem, hv⟩ := findDeprioritizeVictim_some hsw.victim
  have hpos : 0 < s.active.length := List.length_pos_of_mem hmem
  apply (hsw.admission hs ha).inv (hs.preempt hmem hv) (hs.preempt_pending_cons hv hsw.pending)
  rw [preempt_active, List.length_erase_of_mem hmem]
  have := hs.batch
  omega

/-- The victim's slot goes to the head of the queue, if it stays. -/
theorem Swappable.active (hs : SysInv cfg s) (hsw : Swappable cfg s rid rest victim)
    (ha : admitOne cfg (preempt s victim) = .ok t) :
    ∃ stay, stays cfg s.forwards (s.requests rid) = some stay ∧
      t.active = if stay then s.active.erase victim ++ [rid] else s.active.erase victim := by
  obtain ⟨hmem, hv⟩ := findDeprioritizeVictim_some hsw.victim
  have hreq := preempt_requests_ne s victim (hs.head_ne hsw.pending hmem)
  obtain ⟨stay, hstay, hact⟩ := (hsw.admission hs ha).stays (hs.preempt hmem hv)
    (hs.preempt_pending_cons hv hsw.pending)
  rw [preempt_forwards, hreq] at hstay
  exact ⟨stay, hstay, hact⟩

theorem Swap.active (hs : SysInv cfg s) (h : Swap cfg s t rid rest victim) :
    t.active = s.active.erase victim ++ [rid] := by
  obtain ⟨stay, hstay, hact⟩ := h.swappable.active hs h.done
  obtain rfl : true = stay := Option.some.inj (h.stays.symm.trans hstay)
  exact hact

theorem Swap.length (hs : SysInv cfg s) (h : Swap cfg s t rid rest victim) :
    t.active.length = s.active.length := by
  have hmem := (findDeprioritizeVictim_some h.swappable.victim).1
  have hpos : 0 < s.active.length := List.length_pos_of_mem hmem
  rw [h.active hs, List.length_append, List.length_erase_of_mem hmem, List.length_singleton]
  omega

theorem Swap.priority (hs : SysInv cfg s) (h : Swap cfg s t rid rest victim) :
    t.priority = s.priority :=
  (h.swappable.admission hs h.done).priority.trans (preempt_priority s victim)

theorem Swap.countP (hs : SysInv cfg s) (h : Swap cfg s t rid rest victim) :
    t.active.countP (fun r => t.priority r = 1) + 1 =
      s.active.countP (fun r => s.priority r = 1) := by
  obtain ⟨hmem, hv⟩ := findDeprioritizeVictim_some h.swappable.victim
  rw [h.active hs, h.priority hs]
  exact swap_countP h.swappable.head hmem hv

theorem LastSwap.room (hs : SysInv cfg s) (h : LastSwap cfg s t rid rest victim) :
    t.active.length < cfg.maxBatchSize ∧ t.pending ≠ [] := by
  have hmem := (findDeprioritizeVictim_some h.swappable.victim).1
  have hpos : 0 < s.active.length := List.length_pos_of_mem hmem
  obtain ⟨stay, hstay, hact⟩ := h.swappable.active hs h.done
  obtain rfl : false = stay := Option.some.inj (h.ends.symm.trans hstay)
  refine ⟨?_, ?_⟩
  · rw [hact, if_neg (by decide), List.length_erase_of_mem hmem]
    have := hs.batch
    omega
  · rw [(h.swappable.admission hs h.done).pending]
    simp

/-- Where the second loop has something to do, the walk does not stop at a head that
    stays, nor goes past one that ends. -/
theorem StopsAt.head (hQ : Q.Halting s.priority) (hsw : Swappable cfg s rid rest victim)
    (h : StopsAt cfg s Q) : ∃ st, stays cfg s.forwards (s.requests rid) = some st ∧
      (st = false → Q (some false) rid rest) := by
  obtain ⟨normals, d, behind, hw, hq⟩ := h
  cases normals with
  | nil =>
    obtain ⟨rfl, rfl⟩ : rid = d ∧ rest = behind := by simpa using hsw.pending.symm.trans hw.queue
    have hends := hQ.normal hq hsw.head
    rw [hends] at hq
    exact ⟨false, hends, fun _ => hq⟩
  | cons x normals =>
    obtain ⟨rfl, -⟩ : rid = x ∧ rest = normals ++ d :: behind := by
      simpa using hsw.pending.symm.trans hw.queue
    obtain ⟨stay, kept, hstay, hkept, heq⟩ := staying_cons.mp hw.swapped
    cases stay with
    | true => exact ⟨true, hstay, fun hc => by cases hc⟩
    | false =>
      -- the walk keeps all of them
      have hle := (staying_sublist hkept).length_le
      simp only [Bool.false_eq_true, if_false] at heq
      rw [← heq, List.length_cons] at hle
      omega

/-- A walk that is still to be done starts with the head. -/
theorem Swap.walk_after (hs : SysInv cfg s) (h : Swap cfg s t rid rest victim)
    {normals behind : List Nat} {d : Nat} (hw : Walk cfg s (rid :: normals) d behind) :
    Walk cfg t normals d (behind ++ [victim]) ∧ t.requests d = s.requests d := by
  obtain ⟨hmem, hv⟩ := findDeprioritizeVictim_some h.swappable.victim
  have hadm := h.swappable.admission hs h.done
  have hforwards : t.forwards = s.forwards + 1 := hadm.forwards
  have hrest : rest = normals ++ d :: behind := by
    simpa using h.swappable.pending.symm.trans hw.queue
  have hsame : ∀ r ∈ rest, t.requests r = s.requests r :=
    fun r hr => swap_requests hs h.swappable.pending hmem hv hadm hr
  obtain ⟨stay, kept, hstay, hkept, heq⟩ := staying_cons.mp hw.swapped
  obtain rfl : true = stay := Option.some.inj (h.stays.symm.trans hstay)
  obtain rfl : normals = kept := by simpa using heq
  refine ⟨?_, hsame d (by simp [hrest])⟩
  exact {
    queue := by rw [hadm.pending, hrest]; simp
    swapped := by
      rw [hforwards, staying_congr (fun r hr => hsame r (by simp [hrest, hr]))]
      exact hkept
    normal := by
      rw [h.priority hs]
      exact fun r hr => hw.normal r (List.mem_cons_of_mem rid hr)
    few := by
      have hfew := hw.few
      have hcount := h.countP hs
      rw [List.length_cons] at hfew
      omega }

theorem Swap.walk_before (hs : SysInv cfg s) (h : Swap cfg s t rid rest victim)
    {normals behind : List Nat} {d : Nat} (hrest : rest = normals ++ d :: behind)
    (hw : Walk cfg t normals d (behind ++ [victim])) :
    Walk cfg s (rid :: normals) d behind ∧ t.requests d = s.requests d := by
  obtain ⟨hmem, hv⟩ := findDeprioritizeVictim_some h.swappable.victim
  have hadm := h.swappable.admission hs h.done
  have hforwards : t.forwards = s.forwards + 1 := hadm.forwards
  have hsame : ∀ r ∈ rest, t.requests r = s.requests r :=
    fun r hr => swap_requests hs h.swappable.pending hmem hv hadm hr
  refine ⟨?_, hsame d (by simp [hrest])⟩
  exact {
    queue := by rw [h.swappable.pending, hrest]; rfl
    swapped := by
      refine staying_cons.mpr ⟨true, normals, h.stays, ?_, rfl⟩
      rw [← hforwards, ← staying_congr (fun r hr => hsame r (by simp [hrest, hr]))]
      exact hw.swapped
    normal := by
      intro r hr
      rcases List.mem_cons.mp hr with rfl | hr
      · exact h.swappable.head
      · rw [← h.priority hs]
        exact hw.normal r hr
    few := by
      have hfew := hw.few
      have hcount := h.countP hs
      rw [List.length_cons]
      omega }

/-- **A swap after which the batch is full again does not change where the walk stops.** -/
theorem Swap.stopsAt (hs : SysInv cfg s) (hQ : Q.Halting s.priority)
    (h : Swap cfg s t rid rest victim) : StopsAt cfg s Q ↔ StopsAt cfg t Q := by
  have hv := (findDeprioritizeVictim_some h.swappable.victim).2
  have hadm := h.swappable.admission hs h.done
  have hforwards : t.forwards = s.forwards + 1 := hadm.forwards
  have hcount : ∀ normals : List Nat,
      t.forwards + normals.length = s.forwards + (rid :: normals).length := by
    intro normals
    rw [hforwards, List.length_cons]
    omega
  refine ⟨?_, ?_⟩
  · intro hstops
    obtain ⟨normals, d, behind, hw, hq⟩ := hstops
    cases normals with
    | nil =>
      obtain ⟨rfl, -⟩ : rid = d ∧ rest = behind := by
        simpa using h.swappable.pending.symm.trans hw.queue
      have hends : PGI.stays cfg s.forwards (s.requests rid) = some false :=
        hQ.normal hq h.swappable.head
      rw [h.stays] at hends
      cases hends
    | cons x normals =>
      obtain ⟨rfl, -⟩ : rid = x ∧ rest = normals ++ d :: behind := by
        simpa using h.swappable.pending.symm.trans hw.queue
      obtain ⟨hwt, hreq⟩ := h.walk_after hs hw
      refine ⟨normals, d, behind ++ [victim], hwt, ?_⟩
      rw [hcount, hreq]
      exact (hQ.requeued hv).mpr hq
  · intro hstops
    obtain ⟨normals, d, behind, hw, hq⟩ := hstops
    have hqueue := hadm.pending.symm.trans hw.queue
    -- the victim is the last of them, and the walk does not stop at it
    rcases List.eq_nil_or_concat' behind with rfl | ⟨front, x, rfl⟩
    · have hsplit : rest = normals ∧ [victim] = [d] := List.append_inj' hqueue rfl
      obtain rfl : victim = d := by simpa using hsplit.2
      exact absurd hv (hQ.notLast hq)
    · have hsplit : rest ++ [victim] = (normals ++ d :: front) ++ [x] := by simpa using hqueue
      obtain ⟨hrest, hx⟩ := List.append_inj' hsplit rfl
      obtain rfl : victim = x := by simpa using hx
      obtain ⟨hws, hreq⟩ := h.walk_before hs hrest hw
      refine ⟨rid :: normals, d, front, hws, ?_⟩
      rw [← hcount, ← hreq]
      exact (hQ.requeued hv).mp hq

theorem Swaps.spec (h : Swaps cfg s t) (hs : SysInv cfg s) : SysInv cfg t ∧
    t.active.length = s.active.length ∧ t.priority = s.priority ∧
    ∀ Q : Verdict, Q.Halting s.priority → (StopsAt cfg s Q ↔ StopsAt cfg t Q) := by
  induction h with
  | refl => exact ⟨hs, rfl, rfl, fun _ _ => Iff.rfl⟩
  | tail _ hswap ih =>
    obtain ⟨hinv, hlen, hprio, hiff⟩ := ih
    obtain ⟨rid, rest, victim, hswap⟩ := hswap
    refine ⟨hswap.swappable.inv hinv hswap.done, (hswap.length hinv).trans hlen,
      (hswap.priority hinv).trans hprio, ?_⟩
    intro Q hQ
    exact (hiff Q hQ).trans (hswap.stopsAt hinv (by rw [hprio]; exact hQ))

end Swap

/-! The loop. -/

section Loop
variable {cfg : Config Col} {s s' t : Batcher Col} {Q : Verdict}

/-- With nothing to swap the second loop is over. -/
theorem preemptLoop_of_stop (hstop : ∀ rid rest victim, ¬ Swappable cfg s rid rest victim)
    (attempts : Nat) : preemptLoop cfg attempts s = .ok s := by
  cases attempts with
  | zero => rfl
  | succ attempts =>
    rcases preemptLoop_turn cfg attempts s with ⟨rid, rest, victim, hsw, -⟩ | ⟨-, heq⟩
    · exact absurd hsw (hstop rid rest victim)
    · exact heq

/-- A batch that is not full ends the second loop. -/
theorem preemptLoop_of_room (hroom : s.active.length < cfg.maxBatchSize) (attempts : Nat) :
    preemptLoop cfg attempts s = .ok s := by
  apply preemptLoop_of_stop
  intro rid rest victim hsw
  have := hsw.full
  omega

/-- From a full batch the second loop swaps until there is nothing to swap, or until a
    request it swaps in ends at its own prefill. -/
theorem preemptLoop_swaps : ∀ (attempts : Nat) {s : Batcher Col}, SysInv cfg s →
    s.active.length = cfg.maxBatchSize → s.active.countP (fun r => s.priority r = 1) ≤ attempts →
    preemptLoop cfg attempts s = .ok s' → ∃ u, Swaps cfg s u ∧
      ((s' = u ∧ ∀ rid rest victim, ¬ Swappable cfg u rid rest victim) ∨
        ∃ rid rest victim, LastSwap cfg u s' rid rest victim) := by
  intro attempts
  induction attempts with
  | zero =>
    intro s hs hfull hcount h
    obtain rfl := Except.ok.inj h
    refine ⟨s, .refl, .inl ⟨rfl, ?_⟩⟩
    intro rid rest victim hsw
    have := hsw.pos
    omega
  | succ attempts ih =>
    intro s hs hfull hcount h
    rcases preemptLoop_turn cfg attempts s with ⟨rid, rest, victim, hsw, heq⟩ | ⟨hstop, heq⟩
    · rw [heq] at h
      obtain ⟨t, ht, h⟩ := bind_eq_ok.mp h
      obtain ⟨stay, hstay, -⟩ := hsw.active hs ht
      cases stay with
      | true =>
        have hswap : Swap cfg s t rid rest victim := ⟨hsw, hstay, ht⟩
        have hfewer := hswap.countP hs
        obtain ⟨u, hu, hend⟩ := ih (hsw.inv hs ht) ((hswap.length hs).trans hfull) (by omega) h
        exact ⟨u, .head ⟨rid, rest, victim, hswap⟩ hu, hend⟩
      | false =>
        -- its slot is free, which ends the loop
        have hlast : LastSwap cfg s t rid rest victim := ⟨hsw, hstay, ht⟩
        rw [preemptLoop_of_room (hlast.room hs).1] at h
        obtain rfl := Except.ok.inj h
        exact ⟨s, .refl, .inr ⟨rid, rest, victim, hlast⟩⟩
    · obtain rfl := Except.ok.inj (heq.symm.trans h)
      exact ⟨s, .refl, .inl ⟨rfl, hstop⟩⟩

/-- A walk that stops is one on which no forward raises. -/
theorem StopsAt.preemptLoop_returns : ∀ (attempts : Nat) {s : Batcher Col}, SysInv cfg s →
    Q.Halting s.priority → StopsAt cfg s Q → ∃ s', preemptLoop cfg attempts s = .ok s' := by
  intro attempts
  induction attempts with
  | zero => exact fun _ _ _ => ⟨_, rfl⟩
  | succ attempts ih =>
    intro s hs hQ h
    rcases preemptLoop_turn cfg attempts s with ⟨rid, rest, victim, hsw, heq⟩ | ⟨-, heq⟩
    · obtain ⟨hmem, hv⟩ := findDeprioritizeVictim_some hsw.victim
      have hreq := preempt_requests_ne s victim (hs.head_ne hsw.pending hmem)
      obtain ⟨stay, hstay, -⟩ := h.head hQ hsw
      obtain ⟨t, ht⟩ := admitOne_of_stays (hs.preempt hmem hv)
        (hs.preempt_pending_cons hv hsw.pending) (by rw [preempt_forwards, hreq]; exact hstay)
      rw [heq, ht, ok_bind]
      cases stay with
      | true =>
        have hswap : Swap cfg s t rid rest victim := ⟨hsw, hstay, ht⟩
        apply ih (hsw.inv hs ht)
        · rw [hswap.priority hs]
          exact hQ
        · exact (hswap.stopsAt hs hQ).mp h
      | false =>
        have hlast : LastSwap cfg s t rid rest victim := ⟨hsw, hstay, ht⟩
        exact ⟨t, preemptLoop_of_room (hlast.room hs).1 attempts⟩
    · exact ⟨s, heq⟩

end Loop

/-! Both loops. -/

section TryAdmit
variable {cfg : Config Col} {s s' t : Batcher Col} {Q : Verdict}
  {admitted kept normals behind : List Nat} {d : Nat}

/-- Behind the first loop, the course of the call is the walk of the second. -/
theorem TookIn.course_iff (hs : SysInv cfg s)
    (h : TookIn s t admitted kept (normals ++ d :: behind)) :
    (Fills cfg s admitted kept (normals ++ d :: behind) ∧ Walk cfg t normals d behind) ↔
      Course cfg s admitted kept normals d behind := by
  have hsame : ∀ r ∈ normals, t.requests r = s.requests r :=
    fun r hr => h.requests_rest hs (List.mem_append_left _ hr)
  refine ⟨?_, ?_⟩
  · intro hboth
    obtain ⟨hf, hw⟩ := hboth
    refine ⟨hf, ?_, ?_, ?_⟩
    · rw [← staying_congr hsame, ← h.forwards]
      exact hw.swapped
    · rw [← h.priority]
      exact hw.normal
    · rw [← h.active, ← h.priority]
      exact hw.few
  · intro hc
    refine ⟨hc.fills, h.pending, ?_, ?_, ?_⟩
    · rw [staying_congr hsame, h.forwards]
      exact hc.swapped
    · rw [h.priority]
      exact hc.normal
    · rw [h.active, h.priority]
      exact hc.few

theorem TookIn.verdict (hs : SysInv cfg s) (h : TookIn s t admitted kept (normals ++ d :: behind)) :
    stays cfg (t.forwards + normals.length) (t.requests d) =
      stays cfg (s.forwards + admitted.length + normals.length) (s.requests d) := by
  rw [h.forwards, h.requests_rest hs (by simp)]

/-- Where the first loop fills the batch, the call stops where the second loop does. -/
theorem stopsAfter_iff (hs : SysInv cfg s) (ht : admitLoop cfg s.pending.length s = .ok t)
    {rest : List Nat} (htook : TookIn s t admitted kept rest) (hf : Fills cfg s admitted kept rest) :
    StopsAfter cfg s Q ↔ StopsAt cfg t Q := by
  refine ⟨?_, ?_⟩
  · intro h
    obtain ⟨admitted', kept', normals, d, behind, hc, hq⟩ := h
    obtain ⟨t', ht', htook'⟩ := hc.fills.admitLoop _ hs (le_refl _)
    obtain rfl : t' = t := Except.ok.inj (ht'.symm.trans ht)
    refine ⟨normals, d, behind, ((htook'.course_iff hs).mpr hc).2, ?_⟩
    rw [htook'.verdict hs]
    exact hq
  · intro h
    obtain ⟨normals, d, behind, hw, hq⟩ := h
    obtain rfl : rest = normals ++ d :: behind := htook.pending.symm.trans hw.queue
    refine ⟨admitted, kept, normals, d, behind, (htook.course_iff hs).mp ⟨hf, hw⟩, ?_⟩
    rw [← htook.verdict hs]
    exact hq

/-- Where the first loop empties the queue, there is nothing for the call to stop at. -/
theorem not_stopsAfter (hs : SysInv cfg s) (ht : admitLoop cfg s.pending.length s = .ok t)
    (hempty : t.pending = []) : ¬ StopsAfter cfg s Q := by
  intro h
  obtain ⟨admitted', kept', normals, d, behind, hc, -⟩ := h
  obtain ⟨t', ht', htook'⟩ := hc.fills.admitLoop _ hs (le_refl _)
  obtain rfl : t' = t := Except.ok.inj (ht'.symm.trans ht)
  have hqueue := htook'.pending.symm.trans hempty
  simp at hqueue

/-- **How a call of `_try_admit` ends** under `probe_deprioritize`: with an empty queue and
    room, or with the walk of the second loop, in a full batch `u`. -/
theorem tryAdmit_outcome (hs : SysInv cfg s) (hstrategy : cfg.strategy = .probeDeprioritize)
    (h : tryAdmit cfg s = .ok s') :
    (s'.active.length < cfg.maxBatchSize ∧ s'.pending = [] ∧ ∀ Q, ¬ StopsAfter cfg s Q) ∨
    ∃ u, SysInv cfg u ∧ u.active.length = cfg.maxBatchSize ∧ u.priority = s.priority ∧
      (∀ Q : Verdict, Q.Halting s.priority → (StopsAfter cfg s Q ↔ StopsAt cfg u Q)) ∧
      ((s' = u ∧ ∀ rid rest victim, ¬ Swappable cfg u rid rest victim) ∨
        ∃ rid rest victim, LastSwap cfg u s' rid rest victim) := by
  unfold tryAdmit at h
  obtain ⟨t, ht, h⟩ := bind_eq_ok.mp h
  rw [if_neg (by simp [hstrategy])] at h
  have htinv := (admitLoop_works _ hs ht).inv hs
  obtain ⟨admitted, kept, rest, htook, hend⟩ := admitLoop_tookIn _ hs ht
  rcases hend (le_refl _) with hf | ⟨hroom, hempty⟩
  · have hfull : t.active.length = cfg.maxBatchSize := by
      rw [htook.active, List.length_append]
      exact hf.room
    obtain ⟨u, hu, hend⟩ :=
      preemptLoop_swaps _ htinv hfull (hfull ▸ List.countP_le_length) h
    obtain ⟨huinv, hlen, hprio, hiff⟩ := hu.spec htinv
    refine .inr ⟨u, huinv, hlen.trans hfull, hprio.trans htook.priority, ?_, hend⟩
    intro Q hQ
    exact (stopsAfter_iff hs ht htook hf).trans (hiff Q (by rw [htook.priority]; exact hQ))
  · rw [preemptLoop_of_room hroom] at h
    obtain rfl := Except.ok.inj h
    have hnone : t.pending = [] := htook.pending.trans hempty
    exact .inl ⟨hroom, hnone, fun Q => not_stopsAfter hs ht hnone⟩

/-- A call that stops somewhere returns. -/
theorem StopsAfter.tryAdmit_returns (hs : SysInv cfg s) (hQ : Q.Halting s.priority)
    (h : StopsAfter cfg s Q) : ∃ s', tryAdmit cfg s = .ok s' := by
  obtain ⟨admitted, kept, normals, d, behind, hc, hq⟩ := h
  obtain ⟨t, ht, htook⟩ := hc.fills.admitLoop _ hs (le_refl _)
  unfold tryAdmit
  rw [ht, ok_bind]
  split
  · exact ⟨t, rfl⟩
  · have hstops : StopsAt cfg t Q :=
      (stopsAfter_iff hs ht htook hc.fills).mp ⟨admitted, kept, normals, d, behind, hc, hq⟩
    exact hstops.preemptLoop_returns _ ((admitLoop_works _ hs ht).inv hs)
      (by rw [htook.priority]; exact hQ)

/-- Only under `probe_deprioritize` is there anything to walk over. -/
theorem Course.strategy (hs : SysInv cfg s) (hc : Course cfg s admitted kept normals d behind) :
    cfg.strategy = .probeDeprioritize := by
  obtain ⟨r, hr, hone⟩ := List.countP_pos_iff.mp (lt_of_le_of_lt (Nat.zero_le _) hc.few)
  have hone : s.priority r = 1 := by simpa using hone
  have hsub : r ∈ s.submitted := by
    rw [hs.mem_submitted]
    rcases List.mem_append.mp hr with hr | hr
    · exact .inr (.inl hr)
    · left
      rw [hc.fills.queue]
      exact List.mem_append_left _ ((staying_sublist hc.fills.filled).subset hr)
  rcases hs.priority hsub with hzero | ⟨-, hstrategy⟩
  · omega
  · exact hstrategy

end TryAdmit

/-- A property of the states in which `_try_admit` returns, as a condition on those of a run
    in which it is called. -/
theorem visits_tryAdmit_iff [Zero Col] (cfg : Config Col) (firstId : Nat) (events : List Event)
    {good bad : Batcher Col → Prop}
    (hreturns : ∀ s, SysInv cfg s → bad s → ∃ s', tryAdmit cfg s = .ok s')
    (hgood : ∀ s s', SysInv cfg s → tryAdmit cfg s = .ok s' → (good s' ↔ ¬ bad s)) :
    (∀ s s', Runs.Visits (step cfg) (Batcher.new firstId) events s → tryAdmit cfg s = .ok s' →
      good s') ↔ ∀ s, Runs.Visits (step cfg) (Batcher.new firstId) events s → ¬ bad s := by
  refine ⟨?_, ?_⟩
  · intro h s hs hbad
    obtain ⟨s', hs'⟩ := hreturns s (visits_inv hs) hbad
    exact (hgood s s' (visits_inv hs) hs').mp (h s s' hs hs') hbad
  · intro h s s' hs hs'
    exact (hgood s s' (visits_inv hs) hs').mpr (h s hs)

end PGI
