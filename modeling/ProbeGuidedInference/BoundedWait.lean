import ProbeGuidedInference.BoundedPreemption
import ProbeGuidedInference.Drain
import ProbeGuidedInference.Serving

/- Nobody waits for those who come later. A server never stops taking requests, so it may
   never be idle; but first admissions are in the order of submission, so while a request
   waits for its own, all that is admitted, preempted or decoded was submitted before it,
   or is the request itself. What is left to do for these falls from tick to tick, whatever
   is submitted or cancelled meanwhile. From its admission on the request is decoded in every
   tick, unless the probe deprioritizes it: only then may later requests be served instead. -/
namespace PGI
open Fallible Fifo

variable {Col : Type}

/-- The requests submitted up to `r`. -/
def upTo (r : Nat) (s : Batcher Col) : List Nat := s.submitted.filter (· ≤ r)

/-- Finished, or deprioritized. -/
def View.Settled (v : View Col) : Prop := v.loc = .finished ∨ v.req.priority = 1

/-- How long it may still take to settle request `r`. -/
def remaining (L r : Nat) (s : Batcher Col) : Nat :=
  match (s.view r).loc with
  | .pending => Potential.total (upTo r s) (fun x => (s.view x).weight L)
  | .active => L - (s.view r).req.nGenerated
  | .finished => 0

/-- Request `r` has been submitted, to a batcher that numbers its requests in order, and
    those before it are limited to `L` tokens. -/
structure InLine (cfg : Config Col) (L r : Nat) (s : Batcher Col) : Prop where
  paidUp : PaidUp cfg s
  ascending : s.submitted.Pairwise (· < ·)
  mem : r ∈ s.submitted
  limits : ∀ x ∈ upTo r s, cfg.limit (s.requests x).maxTokens ≤ L

section InLine
variable {cfg : Config Col} {L r : Nat} {s t : Batcher Col}

/-! Who comes before. -/

theorem mem_upTo {x : Nat} : x ∈ upTo r s ↔ x ∈ s.submitted ∧ x ≤ r := by
  simp [upTo]

theorem InLine.self_mem (h : InLine cfg L r s) : r ∈ upTo r s := mem_upTo.mpr ⟨h.mem, le_refl r⟩

/-- A request that has not settled waits for its first admission, or runs. -/
theorem unsettled (hs : SysInv cfg s) (hr : r ∈ s.submitted) (hnot : ¬ (s.view r).Settled) :
    s.priority r = 0 ∧ (r ∈ s.pending ∨ r ∈ s.active) := by
  have hprio : s.priority r = 0 := by
    apply (hs.priority hr).resolve_right
    intro h
    exact hnot (.inr h.1)
  refine ⟨hprio, ?_⟩
  rcases hs.mem_submitted.mp hr with h | h | h
  · exact .inl h
  · exact .inr h
  · exact absurd (.inl (hs.loc_finished h)) hnot

/-- While `r` waits for its first admission, whoever has been admitted came before it. -/
theorem InLine.admitted_lt (h : InLine cfg L r s) (hr : r ∈ s.pending) (hzero : s.priority r = 0)
    {x : Nat} (hx : x ∈ admissions s.log) : x < r := by
  have hnot := h.paidUp.unseen r hr hzero
  have hascending := h.ascending
  rw [← h.paidUp.served.first, List.pairwise_append] at hascending
  apply hascending.2.2 x (List.mem_eraseDups.mpr hx) r
  exact List.mem_filter.mpr ⟨hr, decide_eq_true hnot⟩

theorem InLine.active_subset (hs : SysInv cfg s) (h : InLine cfg L r s) (hr : r ∈ s.pending)
    (hzero : s.priority r = 0) : s.active ⊆ upTo r s := by
  intro x hx
  have hlt := h.admitted_lt hr hzero (h.paidUp.served.active_admitted hs hx)
  exact mem_upTo.mpr ⟨hs.mem_submitted.mpr (.inr (.inl hx)), hlt.le⟩

/-- And so did the head of the queue, if it is not `r` itself. -/
theorem InLine.head_mem (hs : SysInv cfg s) (h : InLine cfg L r s) (hr : r ∈ s.pending)
    (hzero : s.priority r = 0) {rid : Nat} {rest : List Nat} (hp : s.pending = rid :: rest) :
    rid ∈ upTo r s := by
  refine mem_upTo.mpr ⟨hs.mem_submitted.mpr (.inl (hp ▸ List.mem_cons_self)), ?_⟩
  by_cases hadm : rid ∈ admissions s.log
  · exact (h.admitted_lt hr hzero hadm).le
  · have hnot := h.paidUp.unseen r hr hzero
    have hascending := h.ascending
    have hfilter : (rid :: rest).filter (· ∉ admissions s.log) =
        rid :: rest.filter (· ∉ admissions s.log) := by
      simp [hadm]
    rw [← h.paidUp.served.first, List.pairwise_append, hp, hfilter] at hascending
    rw [hp, List.mem_cons] at hr
    rcases hr with heq | hr
    · exact heq.ge
    · have hbehind := (List.pairwise_cons.mp hascending.2.1).1
      exact (hbehind r (List.mem_filter.mpr ⟨hr, decide_eq_true hnot⟩)).le

theorem mem_active_of_loc (h : s.loc r = .active) : r ∈ s.active := by
  unfold Batcher.loc at h
  by_contra hnot
  rw [if_neg hnot] at h
  split at h <;> cases h

theorem mem_finished_of_loc (h : s.loc r = .finished) : r ∈ s.finished := by
  unfold Batcher.loc at h
  by_contra hnot
  rw [if_neg hnot] at h
  split at h <;> cases h

/-! One piece of work. -/

/-- Being settled is for good. -/
theorem Turn.settled {v v' : View Col} (ht : Turn cfg r v v') (h : v.Settled) : v'.Settled := by
  have hone : v.req.priority = 1 := by
    rcases h with hfin | hone
    · cases ht with
      | admitted waiting n out time hloc _ => rw [hfin] at hloc; cases hloc
      | preempt hloc _ => rw [hfin] at hloc; cases hloc
      | decode _ hloc _ => rw [hfin] at hloc; cases hloc
    · exact hone
  cases ht with
  | admitted waiting n out time _ _ =>
    rcases v.admitted_cases cfg r time waiting out with ⟨heq, -⟩ | ⟨heq, -⟩
    · rw [heq]
      exact .inl rfl
    · rw [heq]
      exact .inr hone
  | preempt _ _ => exact .inr hone
  | decode _ _ hdec =>
    obtain ⟨cols, token, position, row, answer, time, -, -, -, -, -⟩ := hdec
    rcases v.decode_cases cfg r time cols row answer with ⟨heq, -⟩ | ⟨heq, -⟩
    · rw [heq]
      exact .inl rfl
    · rw [heq]
      right
      simp [hone]

theorem Work.settled (hs : SysInv cfg s) (hw : Work cfg s t) (h : (s.view r).Settled) :
    (t.view r).Settled := by
  rcases hw.turn hs r with heq | ⟨-, ht⟩
  · rw [heq]
    exact h
  · exact ht.settled h

theorem Work.upTo_eq (hw : Work cfg s t) : upTo r t = upTo r s := by
  unfold upTo
  rw [hw.submitted]

/-- While `r` waits, every piece of work brings it closer. -/
theorem Work.remaining_pending (hs : SysInv cfg s) (h : InLine cfg L r s)
    (hnot : ¬ (s.view r).Settled) (hr : r ∈ s.pending) (hw : Work cfg s t) :
    (t.view r).Settled ∨ remaining L r t < remaining L r s := by
  obtain ⟨hzero, -⟩ := unsettled hs h.mem hnot
  have hloc := hs.loc_pending hr
  have hlower : Potential.total (upTo r s) (fun x => (t.view x).weight L) <
      Potential.total (upTo r s) (fun x => (s.view x).weight L) :=
    hw.total_weight hs (hs.nodup.filter _) h.limits
      (fun rid rest hp => h.head_mem hs hr hzero hp) (h.active_subset hs hr hzero)
  have hbefore : remaining L r s = Potential.total (upTo r s) (fun x => (s.view x).weight L) := by
    simp [remaining, hloc]
  cases hafter : (t.view r).loc with
  | finished => exact .inl (.inl hafter)
  | pending =>
    right
    have hval : remaining L r t = Potential.total (upTo r t) (fun x => (t.view x).weight L) := by
      simp only [remaining, hafter]
    rw [hval, hbefore, hw.upTo_eq]
    exact hlower
  | active =>
    right
    have hval : remaining L r t = L - (t.view r).req.nGenerated := by
      simp only [remaining, hafter]
    have hweight : (t.view r).weight L = L - (t.view r).req.nGenerated := weight_active hafter
    have hle : (t.view r).weight L ≤ Potential.total (upTo r s) (fun x => (t.view x).weight L) :=
      Potential.le_total (f := fun x => (t.view x).weight L) h.self_mem
    rw [hval, hbefore]
    omega

/-- A turn of the loops of `_try_admit` does not touch a request that runs and is not
    deprioritized. -/
theorem Intake.runs_on (hs : SysInv cfg s) (hact : r ∈ s.active) (hzero : s.priority r = 0)
    (hi : Intake cfg s t) : t.view r = s.view r := by
  cases hi with
  | admission rid rest _ hp ha =>
    apply (hs.admitOne hp ha).other r
    intro heq
    exact hs.head_not_active hp (heq ▸ hact)
  | swap rid rest victim _ hsw ha =>
    have hnotHead : r ≠ rid := fun heq => hs.head_not_active hsw.pending (heq ▸ hact)
    have hnotVictim : r ≠ victim := by
      intro heq
      rw [heq, (findDeprioritizeVictim_some hsw.victim).2] at hzero
      cases hzero
    rw [(hsw.admission hs ha).other r hnotHead, preempt_view_ne s victim hnotVictim]

/-- When it is decoded it gets one token closer to its end. -/
theorem DecodedAll.remaining_active (hs : SysInv cfg s) (h : InLine cfg L r s) (hact : r ∈ s.active)
    (hd : DecodedAll cfg s t) : (t.view r).Settled ∨ remaining L r t < remaining L r s := by
  have hbefore : remaining L r s = (s.view r).weight L := by
    rw [weight_active (loc_active hact)]
    simp [remaining, loc_active hact]
  have hlower : (t.view r).weight L < (s.view r).weight L :=
    (hd.self r hact).weight (hs.running hact) (loc_active hact) (h.limits r h.self_mem)
  cases hafter : (t.view r).loc with
  | finished => exact .inl (.inl hafter)
  | active =>
    right
    have hval : remaining L r t = (t.view r).weight L := by
      rw [weight_active hafter]
      simp only [remaining, hafter]
    omega
  | pending =>
    -- a decode does not put a request back
    have hback : L ≤ (t.view r).weight L := weight_pending hafter
    have hrunning : (s.view r).weight L = L - (s.view r).req.nGenerated :=
      weight_active (loc_active hact)
    omega

theorem Work.inLine (hs : SysInv cfg s) (h : InLine cfg L r s) (hw : Work cfg s t)
    (hpaid : PaidUp cfg t) : InLine cfg L r t where
  paidUp := hpaid
  ascending := by
    rw [hw.submitted]
    exact h.ascending
  mem := by
    rw [hw.submitted]
    exact h.mem
  limits x hx := by
    have hworks : Works cfg s t := .single hw
    rw [hw.upTo_eq] at hx
    rw [(hworks.request hs x).2.1]
    exact h.limits x hx

/-! One tick. -/

/-- What holds between any two turns of a tick that starts in `s`. -/
structure Closer (cfg : Config Col) (L r : Nat) (s t : Batcher Col) : Prop where
  inLine : InLine cfg L r t
  closer : (t.view r).Settled ∨ remaining L r t ≤ remaining L r s
  running : r ∈ s.active → t.view r = s.view r

theorem Intake.closer {u : Batcher Col} (hzero : s.priority r = 0)
    (ht : SysInv cfg t) (h : Closer cfg L r s t) (hi : Intake cfg t u) : Closer cfg L r s u := by
  have hw := hi.work ht
  have hkeeps : r ∈ t.active → t.priority r = 0 → u.view r = t.view r :=
    fun hact hprio => hi.runs_on ht hact hprio
  refine ⟨hw.inLine ht h.inLine (hi.paidUp ht h.inLine.paidUp), ?_, ?_⟩
  · by_cases hset : (t.view r).Settled
    · exact .inl (hw.settled ht hset)
    · have hle := h.closer.resolve_left hset
      obtain ⟨hprio, hpend | hact⟩ := unsettled ht h.inLine.mem hset
      · exact (hw.remaining_pending ht h.inLine hset hpend).imp_right (fun hlt => hlt.le.trans hle)
      · right
        have hsame : remaining L r u = remaining L r t := by
          unfold remaining
          rw [hkeeps hact hprio, hw.upTo_eq, Batcher.view_loc, loc_active hact]
        omega
  · intro hact
    have hsame := h.running hact
    have hactive : r ∈ t.active := by
      apply mem_active_of_loc
      exact (congrArg View.loc hsame).trans (loc_active hact)
    have hprio : t.priority r = 0 := by
      rw [← hzero]
      exact congrArg (fun v => v.req.priority) hsame
    rw [hkeeps hactive hprio, hsame]

theorem Intakes.closer {u : Batcher Col} (hzero : s.priority r = 0)
    (ht : SysInv cfg t) (h : Closer cfg L r s t) (hi : Intakes cfg t u) : Closer cfg L r s u :=
  (hi.keep (I := Closer cfg L r s) (fun _ _ hx hI hi => hi.closer hzero hx hI) ht h).2

/-- With a free slot, `_try_admit` starts with a turn for the head of the queue. -/
theorem tryAdmit_first (hroom : s.active.length < cfg.maxBatchSize) (hne : s.pending ≠ [])
    (h : tryAdmit cfg s = .ok t) : ∃ u, Intake cfg s u ∧ Intakes cfg u t := by
  obtain ⟨v, hv, hrest⟩ := tryAdmit_loops h
  obtain ⟨rid, rest, hp⟩ := List.exists_cons_of_ne_nil hne
  rw [hp, List.length_cons] at hv
  rcases admitLoop_turn cfg rest.length s with ⟨rid', rest', -, hp', heq⟩ | ⟨hstop, -⟩
  · rw [heq] at hv
    obtain ⟨u, hu, hv⟩ := bind_eq_ok.mp hv
    exact ⟨u, .admission rid' rest' hroom hp' hu, (admitLoop_intakes _ hv).trans hrest⟩
  · exact absurd (hstop hroom) hne

theorem tick_inLine [Zero Col] (hs : SysInv cfg s) (h : InLine cfg L r s)
    (htick : tick cfg s = .ok t) : InLine cfg L r t := by
  refine tick_keep (I := InLine cfg L r) ?_ ?_ hs h htick
  · intro u v hu hI hi
    exact (hi.work hu).inLine hu hI (hi.paidUp hu hI.paidUp)
  · intro u v hu hI hne hd
    have hw : Work cfg u v := .decode hne (decodePhase_works hu hne hd)
    exact hw.inLine hu hI (decodePhase_paidUp hu hI.paidUp hne hd)

/-- **Every tick brings `r` closer**, whatever else is in the queue. -/
theorem tick_closer [Zero Col] (hB : 1 ≤ cfg.maxBatchSize) (hs : SysInv cfg s)
    (h : InLine cfg L r s) (hnot : ¬ (s.view r).Settled) (htick : tick cfg s = .ok t) :
    (t.view r).Settled ∨ remaining L r t < remaining L r s := by
  obtain ⟨hzero, hplace⟩ := unsettled hs h.mem hnot
  obtain ⟨u, hu, hdecode⟩ := tick_ok.mp htick
  have hintakes := tryAdmit_intakes hu
  have huinv := hintakes.inv hs
  have hstart : Closer cfg L r s s := ⟨h, .inr (le_refl _), fun _ => rfl⟩
  have hclose := hintakes.closer hzero hs hstart
  by_cases hset : (u.view r).Settled
  · left
    rcases hdecode with ⟨-, rfl⟩ | ⟨hne, hd⟩
    · exact hset
    · exact (Work.decode hne (decodePhase_works huinv hne hd)).settled huinv hset
  have hle := hclose.closer.resolve_left hset
  -- a decode phase lowers what remains, whether `r` waits or runs
  have hdecodes : ∀ hne : u.active ≠ [], decodePhase cfg u = .ok t →
      (t.view r).Settled ∨ remaining L r t < remaining L r s := by
    intro hne hd
    have hall := decodePhase_works huinv hne hd
    have hlower : (t.view r).Settled ∨ remaining L r t < remaining L r u := by
      obtain ⟨-, hpend | hact⟩ := unsettled huinv hclose.inLine.mem hset
      · exact (Work.decode hne hall).remaining_pending huinv hclose.inLine hset hpend
      · exact hall.remaining_active huinv hclose.inLine hact
    exact hlower.imp_right (fun hlt => hlt.trans_le hle)
  rcases hdecode with ⟨hempty, rfl⟩ | ⟨hne, hd⟩
  · -- nothing runs at the end, so `r` has waited and the tick has admitted
    have hpend : r ∈ s.pending := by
      apply hplace.resolve_right
      intro hact
      have hloc : t.loc r = .active :=
        (congrArg View.loc (hclose.running hact)).trans (loc_active hact)
      have hmem := mem_active_of_loc hloc
      rw [hempty] at hmem
      cases hmem
    have hfirst : ∃ v, Intake cfg s v ∧ Intakes cfg v t := by
      rcases hintakes.cases_head with heq | hfirst
      · have hroom : s.active.length < cfg.maxBatchSize := by
          rw [heq, hempty]
          exact hB
        exact tryAdmit_first hroom (List.ne_nil_of_mem hpend) hu
      · exact hfirst
    obtain ⟨v, hi, hrest⟩ := hfirst
    have hv := hi.closer hzero hs hstart
    have hw := hi.work hs
    have hvinv := hw.inv hs
    by_cases hvset : (v.view r).Settled
    · exact .inl ((hrest.keep (I := fun w => (w.view r).Settled)
        (fun x y hx hI hi => (hi.work hx).settled hx hI) hvinv hvset).2)
    · have hlt := (hw.remaining_pending hs h hnot hpend).resolve_left hvset
      obtain ⟨hvzero, -⟩ := unsettled hvinv hv.inLine.mem hvset
      have hafter := hrest.closer hvzero hvinv ⟨hv.inLine, .inr (le_refl _), fun _ => rfl⟩
      exact hafter.closer.imp_right (fun hle' => hle'.trans_lt hlt)
  · exact hdecodes hne hd

/-! Any event. -/

/-- A change that leaves the requests up to `r` as they are leaves what remains. -/
theorem remaining_congr (hupTo : upTo r t = upTo r s) (hmem : r ∈ upTo r s)
    (h : ∀ x ∈ upTo r s, (t.view x).loc = (s.view x).loc ∧
      (t.view x).req.nGenerated = (s.view x).req.nGenerated ∧
      (t.view x).req.priority = (s.view x).req.priority) : remaining L r t = remaining L r s := by
  obtain ⟨hloc, hlength, -⟩ := h r hmem
  have htotal : Potential.total (upTo r s) (fun x => (t.view x).weight L) =
      Potential.total (upTo r s) (fun x => (s.view x).weight L) := by
    unfold Potential.total
    congr 1
    apply List.map_congr_left
    intro x hx
    obtain ⟨hxloc, hxlength, hxprio⟩ := h x hx
    simp only [View.weight, hxloc, hxlength, hxprio]
  simp only [remaining, hupTo, hloc, hlength, htotal]

/-- An event that is not a tick leaves `r` where it is. -/
structure Aside (cfg : Config Col) (L r : Nat) (s t : Batcher Col) : Prop where
  inLine : InLine cfg L r t
  remaining : remaining L r t = remaining L r s
  settled : (t.view r).Settled ↔ (s.view r).Settled

theorem SysInv.submit_aside (hs : SysInv cfg s) (h : InLine cfg L r s) (maxTokens : Int)
    (promptIds : List Nat) (stream : Bool) :
    Aside cfg L r s (PGI.submit maxTokens promptIds stream s) := by
  have hnew := hs.fresh r h.mem
  have hupTo : upTo r (PGI.submit maxTokens promptIds stream s) = upTo r s := by
    show (s.submitted ++ [s.nextId]).filter (· ≤ r) = _
    rw [List.filter_append]
    simp [upTo, hnew]
  have hview : ∀ x ∈ upTo r s, (PGI.submit maxTokens promptIds stream s).view x = s.view x := by
    intro x hx
    apply submit_view_ne
    have := hs.fresh x (mem_upTo.mp hx).1
    omega
  refine ⟨⟨h.paidUp.submit hs maxTokens promptIds stream, ?_, ?_, ?_⟩, ?_, ?_⟩
  · show (s.submitted ++ [s.nextId]).Pairwise (· < ·)
    rw [List.pairwise_append]
    refine ⟨h.ascending, List.pairwise_singleton _ _, ?_⟩
    intro x hx y hy
    rw [List.mem_singleton.mp hy]
    exact hs.fresh x hx
  · exact List.mem_append_left _ h.mem
  · intro x hx
    rw [hupTo] at hx
    have hreq : (PGI.submit maxTokens promptIds stream s).requests x = s.requests x :=
      congrArg View.req (hview x hx)
    rw [hreq]
    exact h.limits x hx
  · apply remaining_congr hupTo h.self_mem
    intro x hx
    rw [hview x hx]
    exact ⟨rfl, rfl, rfl⟩
  · rw [hview r h.self_mem]

theorem SysInv.cancel_aside (h : InLine cfg L r s) (rid : Nat) :
    Aside cfg L r s (PGI.cancel rid s) := by
  have hreq := cancel_requests s rid
  have hsame : ∀ x, ((PGI.cancel rid s).view x).loc = (s.view x).loc ∧
      ((PGI.cancel rid s).view x).req.nGenerated = (s.view x).req.nGenerated ∧
      ((PGI.cancel rid s).view x).req.priority = (s.view x).req.priority := by
    intro x
    obtain ⟨f, hf⟩ := hreq x
    refine ⟨rfl, ?_, ?_⟩
    · rw [Batcher.view_req, hf]
      rfl
    · rw [Batcher.view_req, hf]
      rfl
  refine ⟨⟨h.paidUp.cancel rid, h.ascending, h.mem, ?_⟩, ?_, ?_⟩
  · intro x hx
    obtain ⟨f, hf⟩ := hreq x
    rw [hf]
    exact h.limits x hx
  · exact remaining_congr rfl h.self_mem (fun x _ => hsame x)
  · unfold View.Settled
    rw [(hsame r).1, (hsame r).2.2]

/-- Where `r` stands after an event. -/
theorem step_inLine [Zero Col] (hB : 1 ≤ cfg.maxBatchSize) (hs : SysInv cfg s)
    (h : InLine cfg L r s) {e : Event} (hstep : step cfg s e = .ok t) :
    InLine cfg L r t ∧ ((s.view r).Settled → (t.view r).Settled) ∧
      (¬ (s.view r).Settled → (t.view r).Settled ∨
        remaining L r t + (if e = .tick then 1 else 0) ≤ remaining L r s) := by
  cases e with
  | submit maxTokens promptIds stream =>
    obtain rfl := Except.ok.inj hstep
    have hsame := hs.submit_aside h maxTokens promptIds stream
    exact ⟨hsame.inLine, hsame.settled.mpr, fun _ => .inr (by simp [hsame.remaining])⟩
  | cancel rid =>
    obtain rfl := Except.ok.inj hstep
    have hsame : Aside cfg L r s (if rid ∈ s.submitted then PGI.cancel rid s else s) := by
      split
      · exact SysInv.cancel_aside h rid
      · exact ⟨h, rfl, Iff.rfl⟩
    exact ⟨hsame.inLine, hsame.settled.mpr, fun _ => .inr (by simp [hsame.remaining])⟩
  | tick =>
    refine ⟨tick_inLine hs h hstep, ?_, ?_⟩
    · intro hset
      exact ((tick_works hs hstep).keep (I := fun u => (u.view r).Settled)
        (fun _ _ hx hI hw => hw.settled hx hI) hs hset).2
    · intro hnot
      rw [if_pos rfl]
      exact tick_closer hB hs h hnot hstep

theorem remaining_pos (hs : SysInv cfg s) (h : InLine cfg L r s) (hnot : ¬ (s.view r).Settled) :
    0 < remaining L r s := by
  have hlimit := h.limits r h.self_mem
  obtain ⟨-, hpend | hact⟩ := unsettled hs h.mem hnot
  · have hpos : 1 ≤ cfg.limit (s.requests r).maxTokens := by
      unfold Config.limit
      omega
    have hweight : L ≤ (s.view r).weight L := weight_pending (hs.loc_pending hpend)
    have hle : (s.view r).weight L ≤ Potential.total (upTo r s) (fun x => (s.view x).weight L) :=
      Potential.le_total (f := fun x => (s.view x).weight L) h.self_mem
    have hval : remaining L r s = Potential.total (upTo r s) (fun x => (s.view x).weight L) := by
      simp [remaining, hs.loc_pending hpend]
    omega
  · have hbelow := (hs.running hact).below_limit hlimit
    have hval : remaining L r s = L - (s.view r).req.nGenerated := by
      simp [remaining, loc_active hact]
    omega

theorem remaining_le (hmem : r ∈ upTo r s) : remaining L r s ≤ 2 * (upTo r s).length * L := by
  have hsome : 1 ≤ (upTo r s).length := List.length_pos_of_mem hmem
  unfold remaining
  split
  · calc Potential.total (upTo r s) (fun x => (s.view x).weight L)
        ≤ (upTo r s).length * (2 * L) := Potential.total_le (fun x _ => View.weight_le _)
      _ = 2 * (upTo r s).length * L := by
        rw [← Nat.mul_assoc, Nat.mul_comm (upTo r s).length 2]
  · calc L - (s.view r).req.nGenerated ≤ 1 * L := by omega
      _ ≤ 2 * (upTo r s).length * L := Nat.mul_le_mul_right L (by omega)
  · exact Nat.zero_le _

/-- From any state with `r` in line, as many ticks as remain settle `r`, however they are
    interleaved with submissions and cancellations. -/
theorem run_settled [Zero Col] (hB : 1 ≤ cfg.maxBatchSize) (hs : SysInv cfg s)
    (h : InLine cfg L r s) {events : List Event} (hrun : Runs.run (step cfg) s events = .ok t)
    (hticks : remaining L r s ≤ events.count .tick) : InLine cfg L r t ∧ (t.view r).Settled := by
  have hrule : (SysInv cfg t ∧ InLine cfg L r t) ∧
      ((t.view r).Settled ∨ remaining L r t + events.count .tick ≤ remaining L r s) := by
    refine Runs.run_settles (I := fun u => SysInv cfg u ∧ InLine cfg L r u)
      (P := fun u => (u.view r).Settled) (V := remaining L r) (e := .tick) ?_ ?_ ?_ ⟨hs, h⟩ hrun
    · intro u e v hI hstep
      have hv := (hI.1.event (I := fun _ => True) (fun _ _ _ _ _ _ => trivial)
        (fun _ _ _ _ _ => trivial) (fun _ _ _ _ _ => trivial) trivial hstep).1
      exact ⟨hv, (step_inLine hB hI.1 hI.2 hstep).1⟩
    · intro u e v hI hset hstep
      exact (step_inLine hB hI.1 hI.2 hstep).2.1 hset
    · intro u e v hI hnot hstep
      exact (step_inLine hB hI.1 hI.2 hstep).2.2 hnot
  obtain ⟨⟨htinv, hline⟩, hset | hpaid⟩ := hrule
  · exact ⟨hline, hset⟩
  · refine ⟨hline, ?_⟩
    by_contra hnot
    have hpos := remaining_pos htinv hline hnot
    omega

end InLine

/-! A whole run. -/

/-- The limits of the requests that these events submit. -/
def arrivals (events : List Event) : List Int :=
  events.filterMap (fun e => match e with
    | .submit maxTokens _ _ => some maxTokens
    | _ => none)

/-- The largest limit of a request among them. -/
def Config.largest (cfg : Config Col) (limits : List Int) : Nat :=
  (limits.map cfg.limit).foldr max 0

section Run
variable {cfg : Config Col} {firstId : Nat} {s : Batcher Col}

theorem Config.le_largest (cfg : Config Col) {limits : List Int} {m : Int} (h : m ∈ limits) :
    cfg.limit m ≤ cfg.largest limits := by
  induction limits with
  | nil => cases h
  | cons x limits ih =>
    show cfg.limit m ≤ max (cfg.limit x) (cfg.largest limits)
    rcases List.mem_cons.mp h with rfl | h
    · exact le_max_left _ _
    · exact (ih h).trans (le_max_right _ _)

theorem arrivals_snoc (events : List Event) (e : Event) :
    arrivals (events ++ [e]) = arrivals events ++ arrivals [e] := List.filterMap_append

theorem Works.nextId {t : Batcher Col} (hs : SysInv cfg s) (h : Works cfg s t) :
    t.nextId = s.nextId := by
  refine (h.keep (I := fun u => u.nextId = s.nextId) ?_ hs rfl).2
  intro u v _ hI hw
  cases hw with
  | admission rid rest _ _ h => exact h.nextId.trans hI
  | swap rid rest victim _ _ _ _ _ _ h => exact (h.nextId.trans (preempt_nextId u victim)).trans hI
  | decode _ h => exact h.nextId.trans hI

/-- The requests that these events submit. -/
def workloadOf (events : List Event) : List (Int × List Nat × Bool) :=
  events.filterMap (fun e => match e with
    | .submit maxTokens promptIds stream => some (maxTokens, promptIds, stream)
    | _ => none)

theorem workloadOf_snoc (events : List Event) (e : Event) :
    workloadOf (events ++ [e]) = workloadOf events ++ workloadOf [e] := List.filterMap_append

theorem workloadOf_limits (events : List Event) :
    (workloadOf events).map Prod.fst = arrivals events := by
  unfold workloadOf arrivals
  rw [List.map_filterMap]
  congr 1
  funext e
  cases e with
  | submit maxTokens promptIds stream => rfl
  | cancel rid => rfl
  | tick => rfl

/-- What a request asks for. -/
def GenerationRequest.asks (r : GenerationRequest) : Int × List Nat × Bool :=
  (r.maxTokens, r.promptIds, r.stream)

/-- The requests of a run are numbered as they arrive, and ask for what was submitted. -/
structure Numbered (firstId : Nat) (workload : List (Int × List Nat × Bool)) (s : Batcher Col) :
    Prop where
  submitted : s.submitted = List.range' firstId workload.length
  nextId : s.nextId = firstId + workload.length
  asks : ∀ (i : Nat) (q : Int × List Nat × Bool), workload[i]? = some q →
    (s.requests (firstId + i)).asks = q

theorem Numbered.submit {workload : List (Int × List Nat × Bool)} (h : Numbered firstId workload s)
    (maxTokens : Int) (promptIds : List Nat) (stream : Bool) :
    Numbered firstId (workload ++ [(maxTokens, promptIds, stream)])
      (submit maxTokens promptIds stream s) where
  submitted := by
    show s.submitted ++ [s.nextId] = _
    rw [h.submitted, h.nextId, List.length_append, List.length_singleton, List.range'_1_concat]
  nextId := by
    show s.nextId + 1 = _
    rw [h.nextId, List.length_append, List.length_singleton, Nat.add_assoc]
  asks := by
    intro i q hi
    by_cases hnew : i = workload.length
    · subst hnew
      obtain rfl : (maxTokens, promptIds, stream) = q := by simpa using hi
      show (Function.update s.requests s.nextId _ (firstId + workload.length)).asks = _
      rw [← h.nextId, Function.update_self]
      rfl
    · have hlt : i < workload.length := by
        have := (List.getElem?_eq_some_iff.mp hi).1
        rw [List.length_append, List.length_singleton] at this
        omega
      rw [List.getElem?_append_left hlt] at hi
      have hne : firstId + i ≠ s.nextId := by
        rw [h.nextId]
        omega
      rw [submit_requests_ne maxTokens promptIds stream hne]
      exact h.asks i q hi

theorem runEvents_numbered [Zero Col] {events : List Event}
    (h : runEvents cfg firstId events = .ok s) : Numbered firstId (workloadOf events) s := by
  refine (Runs.run_inputs (I := fun events s => SysInv cfg s ∧ Numbered firstId (workloadOf events) s)
    ?_ ?_ h).2
  · exact ⟨sysInv_new firstId, rfl, rfl, fun i q hi => by cases hi⟩
  · intro events s e t _ hI hstep
    obtain ⟨hs, hnum⟩ := hI
    have ht := (hs.event (I := fun _ => True) (fun _ _ _ _ _ _ => trivial)
      (fun _ _ _ _ _ => trivial) (fun _ _ _ _ _ => trivial) trivial hstep).1
    refine ⟨ht, ?_⟩
    rw [workloadOf_snoc]
    cases e with
    | submit maxTokens promptIds stream =>
      obtain rfl := Except.ok.inj hstep
      exact hnum.submit maxTokens promptIds stream
    | cancel rid =>
      obtain rfl := Except.ok.inj hstep
      show Numbered firstId (workloadOf events ++ []) _
      rw [List.append_nil]
      split
      · refine ⟨hnum.submitted, hnum.nextId, ?_⟩
        intro i q hi
        obtain ⟨f, hf⟩ := cancel_requests s rid (firstId + i)
        rw [hf]
        exact hnum.asks i q hi
      · exact hnum
    | tick =>
      have hworks := tick_works hs hstep
      show Numbered firstId (workloadOf events ++ []) _
      rw [List.append_nil]
      refine ⟨hworks.submitted.trans hnum.submitted, ?_, ?_⟩
      · exact (hworks.nextId hs).trans hnum.nextId
      · intro i q hi
        obtain ⟨hstream, hmax, hprompt⟩ := hworks.request hs (firstId + i)
        rw [← hnum.asks i q hi, GenerationRequest.asks, hstream, hmax, hprompt]
        rfl

theorem Numbered.length {events : List Event} (h : Numbered firstId (workloadOf events) s) :
    s.submitted.length = (arrivals events).length := by
  rw [h.submitted, List.length_range', ← workloadOf_limits, List.length_map]

/-- Each of them is limited as one of the arrivals. -/
theorem Numbered.limit_le {events : List Event} (h : Numbered firstId (workloadOf events) s)
    (cfg : Config Col) {r : Nat} (hr : r ∈ s.submitted) : cfg.limit (s.requests r).maxTokens ≤ cfg.largest (arrivals events) := by
  rw [h.submitted, List.mem_range'] at hr
  obtain ⟨i, hi, rfl⟩ := hr
  have hasks := h.asks i _ (List.getElem?_eq_getElem hi)
  have hmax : (s.requests (firstId + 1 * i)).maxTokens = (workloadOf events)[i].1 := by
    rw [Nat.one_mul, ← hasks]
    rfl
  rw [hmax, ← workloadOf_limits]
  exact cfg.le_largest (List.mem_map_of_mem (List.getElem_mem hi))

/-- Where the last of these requests stands in a run that has submitted them. -/
theorem runEvents_inLine [Zero Col] {before : List Event} {maxTokens : Int} {promptIds : List Nat}
    {stream : Bool} (h : runEvents cfg firstId (before ++ [.submit maxTokens promptIds stream]) = .ok s) :
    InLine cfg (cfg.largest (arrivals before ++ [maxTokens])) (firstId + (arrivals before).length) s ∧
      s.submitted.length = (arrivals before).length + 1 := by
  have hnum := runEvents_numbered h
  have hlength : s.submitted.length = (arrivals before).length + 1 := by
    rw [hnum.length, arrivals_snoc, List.length_append]
    rfl
  refine ⟨⟨runEvents_paidUp h, ?_, ?_, ?_⟩, hlength⟩
  · rw [hnum.submitted]
    exact List.pairwise_lt_range'
  · rw [hnum.submitted, List.length_range'] at hlength
    rw [hnum.submitted, List.mem_range']
    exact ⟨(arrivals before).length, by omega, by omega⟩
  · intro x hx
    have hlimit := hnum.limit_le cfg (mem_upTo.mp hx).1
    rw [arrivals_snoc] at hlimit
    exact hlimit

/-- Enough ticks after its submission a request has settled. -/
theorem runEvents_settled [Zero Col] (hB : 1 ≤ cfg.maxBatchSize) {before after : List Event}
    {maxTokens : Int} {promptIds : List Nat} {stream : Bool}
    (hs : runEvents cfg firstId (before ++ .submit maxTokens promptIds stream :: after) = .ok s)
    (hticks : 2 * ((arrivals before).length + 1) *
      cfg.largest (arrivals before ++ [maxTokens]) ≤ after.count .tick) :
    firstId + (arrivals before).length ∈ s.finished ∨
      (cfg.strategy = .probeDeprioritize ∧
        (s.requests (firstId + (arrivals before).length)).priority = 1) := by
  have hrun : runEvents cfg firstId
      ((before ++ [.submit maxTokens promptIds stream]) ++ after) = .ok s := by
    rw [List.append_assoc]
    exact hs
  obtain ⟨u, hu, hafter⟩ := Runs.run_append_ok.mp hrun
  obtain ⟨hline, hlength⟩ := runEvents_inLine hu
  have hle : remaining (cfg.largest (arrivals before ++ [maxTokens]))
      (firstId + (arrivals before).length) u ≤ after.count .tick := by
    have hupTo : (upTo (firstId + (arrivals before).length) u).length ≤ (arrivals before).length + 1 :=
      hlength ▸ List.length_filter_le _ _
    calc _ ≤ 2 * (upTo (firstId + (arrivals before).length) u).length *
          cfg.largest (arrivals before ++ [maxTokens]) := remaining_le hline.self_mem
      _ ≤ 2 * ((arrivals before).length + 1) * cfg.largest (arrivals before ++ [maxTokens]) :=
        Nat.mul_le_mul_right _ (Nat.mul_le_mul_left 2 hupTo)
      _ ≤ after.count .tick := hticks
  have hsinv := runEvents_inv hs
  obtain ⟨hlast, hset⟩ := run_settled hB (runEvents_inv hu) hline hafter hle
  rcases hset with hfin | hone
  · exact .inl (mem_finished_of_loc hfin)
  · refine .inr ⟨?_, hone⟩
    rcases hsinv.priority hlast.mem with hzero | ⟨-, hstrategy⟩
    · rw [Batcher.priority, ← Batcher.view_req, hone] at hzero
      cases hzero
    · exact hstrategy

/-- **Nobody waits for those who come later.** Whatever the strategy, the batch size, the
    answers of model and gate, and whatever has been submitted, cancelled and ticked before:
    let `N` be the number of requests submitted up to some request, itself included, and `L`
    the most tokens that one of these may get. In every run without a raising tick, after
    `2 * N * L` further ticks, with any number of later submissions and cancellations
    between them, the request has finished, unless the probe has deprioritized it under
    `probe_deprioritize`. No tick raises if the forwards return and the gate answers what
    they put out. -/
theorem no_starvation [Zero Col] (hB : 1 ≤ cfg.maxBatchSize)
    (firstId : Nat) (before after : List Event) (maxTokens : Int) (promptIds : List Nat)
    (stream : Bool) (hticks : 2 * ((arrivals before).length + 1) *
      cfg.largest (arrivals before ++ [maxTokens]) ≤ after.count .tick) :
    (∀ s, runEvents cfg firstId (before ++ .submit maxTokens promptIds stream :: after) = .ok s →
      firstId + (arrivals before).length ∈ s.finished ∨
        (cfg.strategy = .probeDeprioritize ∧
          (s.requests (firstId + (arrivals before).length)).priority = 1)) ∧
    (cfg.Serves → ∃ s,
      runEvents cfg firstId (before ++ .submit maxTokens promptIds stream :: after) = .ok s) :=
  ⟨fun _ hs => runEvents_settled hB hs hticks, fun hserves => hserves.runs firstId _⟩

end Run

/-- A request arrives between any two ticks. -/
def flooded : List Event := (List.replicate 12 [.submit 9 [3] false, .tick]).flatten

theorem no_starvation_flooded :
    ∃ s, runEvents (divergentConfig .baseline) 1
        ([.submit 3 [1] false, .tick] ++ .submit 2 [2] true :: flooded) = .ok s ∧
      (1 + 1 ∈ s.finished ∨
        ((divergentConfig .baseline).strategy = .probeDeprioritize ∧
          (s.requests (1 + 1)).priority = 1)) := by
  have hB : 1 ≤ (divergentConfig .baseline).maxBatchSize := by decide
  obtain ⟨hsettled, hreturns⟩ := no_starvation hB 1 [.submit 3 [1] false, .tick] flooded 2 [2] true
    (by decide)
  obtain ⟨s, hs⟩ := hreturns (divergentConfig_serves .baseline)
  exact ⟨s, hs, hsettled s hs⟩

end PGI
