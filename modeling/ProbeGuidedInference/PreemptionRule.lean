import ProbeGuidedInference.Swapping
import ProbeGuidedInference.TableModel

/- When the preemption rule is complete. `_try_admit` looks at the head of the queue
   only, so a normal request that stands behind a deprioritized one can be left waiting
   by a full batch in which another deprioritized request holds a slot. `Blocked` says
   of the state before the call that this is what it leads to: the walk along the queue,
   past the requests that fill the free slots and past the normal ones that are swapped
   in, stops at a deprioritized request while one to swap out is left. -/
namespace PGI
open Fallible

variable {Col : Type}

/-- A full batch in which a deprioritized request holds a slot leaves no normal request
    waiting. -/
def Complete (cfg : Config Col) (s : Batcher Col) : Prop :=
  ¬ (s.active.length = cfg.maxBatchSize ∧ (∃ r ∈ s.pending, s.priority r = 0) ∧
    ∃ r ∈ s.active, s.priority r = 1)

/-- The queue is `admitted`, `normals`, `d`, `behind`: the first fill the free slots, the
    second are normal requests that stay, fewer than there are deprioritized ones in the
    batch by then, and behind the deprioritized `d` a normal request waits. -/
structure BlockedBy (cfg : Config Col) (s : Batcher Col) (admitted kept normals : List Nat)
    (d : Nat) (behind : List Nat) : Prop where
  queue : s.pending = admitted ++ (normals ++ d :: behind)
  filled : staying cfg s s.forwards admitted = some kept
  room : s.active.length + kept.length = cfg.maxBatchSize
  last : ∀ front r, admitted = front ++ [r] →
    stays cfg (s.forwards + front.length) (s.requests r) = some true
  swapped : staying cfg s (s.forwards + admitted.length) normals = some normals
  normal : ∀ r ∈ normals, s.priority r = 0
  few : normals.length < (s.active ++ kept).countP (fun r => s.priority r = 1)
  head : s.priority d = 1
  waiter : ∃ r ∈ behind, s.priority r = 0

def Blocked (cfg : Config Col) (s : Batcher Col) : Prop :=
  ∃ admitted kept normals d behind, BlockedBy cfg s admitted kept normals d behind

section Rule
variable {cfg : Config Col} {s s' : Batcher Col}

/-- What blocks the walk: a deprioritized request, with a normal one behind it. -/
def blockedVerdict (priority : Nat → Int) : Verdict :=
  fun _ d behind => priority d = 1 ∧ ∃ r ∈ behind, priority r = 0

theorem blockedVerdict_halting (priority : Nat → Int) :
    (blockedVerdict priority).Halting priority where
  normal := by
    intro st d behind h hzero
    obtain ⟨hone, -⟩ := h
    omega
  requeued := by
    intro st d behind victim hv
    unfold blockedVerdict
    simp [hv, or_and_right, exists_or]
  notLast := by
    intro st d h
    obtain ⟨-, r, hr, -⟩ := h
    cases hr

theorem blocked_iff : Blocked cfg s ↔ StopsAfter cfg s (blockedVerdict s.priority) := by
  refine ⟨?_, ?_⟩
  · intro h
    obtain ⟨admitted, kept, normals, d, behind, hb⟩ := h
    exact ⟨admitted, kept, normals, d, behind,
      ⟨⟨hb.queue, hb.filled, hb.room, hb.last⟩, hb.swapped, hb.normal, hb.few⟩, hb.head, hb.waiter⟩
  · intro h
    obtain ⟨admitted, kept, normals, d, behind, hc, hhead, hwaiter⟩ := h
    exact ⟨admitted, kept, normals, d, behind, {
      queue := hc.fills.queue
      filled := hc.fills.filled
      room := hc.fills.room
      last := hc.fills.last
      swapped := hc.swapped
      normal := hc.normal
      few := hc.few
      head := hhead
      waiter := hwaiter }⟩

/-- Where the second loop has nothing to do, the rule is complete unless the walk stops
    right at the head. -/
theorem complete_iff_of_stop (hs : SysInv cfg s) (hfull : s.active.length = cfg.maxBatchSize)
    (hstop : ∀ rid rest victim, ¬ Swappable cfg s rid rest victim) :
    Complete cfg s ↔ ¬ StopsAt cfg s (blockedVerdict s.priority) := by
  apply not_congr
  refine ⟨?_, ?_⟩
  · intro hfails
    obtain ⟨-, ⟨r, hr, hzero⟩, a, ha, hone⟩ := hfails
    have hcount : 0 < s.active.countP (fun r => s.priority r = 1) :=
      List.countP_pos_iff.mpr ⟨a, ha, by simp [hone]⟩
    obtain ⟨rid, rest, hp⟩ := List.exists_cons_of_ne_nil (List.ne_nil_of_mem hr)
    have hne : s.priority rid ≠ 0 := by
      intro hhead
      obtain ⟨victim, hsw⟩ := swappable_of_normal hfull hp hhead hcount
      exact hstop rid rest victim hsw
    have hmem : rid ∈ s.submitted := hs.mem_submitted.mpr (.inl (by rw [hp]; exact List.mem_cons_self))
    have hrest : r ∈ rest := by
      rw [hp] at hr
      rcases List.mem_cons.mp hr with rfl | hr
      · exact absurd hzero hne
      · exact hr
    exact ⟨[], rid, rest, ⟨hp, rfl, fun _ h => (by cases h), hcount⟩,
      ((hs.priority hmem).resolve_left hne).1, r, hrest, hzero⟩
  · intro hstops
    obtain ⟨normals, d, behind, hw, hd, r, hr, hzero⟩ := hstops
    obtain ⟨a, ha, hone⟩ := List.countP_pos_iff.mp (lt_of_le_of_lt (Nat.zero_le _) hw.few)
    have hone : s.priority a = 1 := by simpa using hone
    exact ⟨hfull, ⟨r, by rw [hw.queue]; simp [hr], hzero⟩, a, ha, hone⟩

/-- **What decides whether the preemption rule is complete**, of the state `_try_admit`
    is called in. -/
theorem tryAdmit_complete (hs : SysInv cfg s) (h : tryAdmit cfg s = .ok s') :
    Complete cfg s' ↔ ¬ Blocked cfg s := by
  have hinv := (tryAdmit_works hs h).inv hs
  rw [blocked_iff]
  by_cases hstrategy : cfg.strategy = .probeDeprioritize
  · rcases tryAdmit_outcome hs hstrategy h with ⟨hroom, -, hnone⟩ | ⟨u, huinv, hufull, hprio, hiff, hend⟩
    · refine ⟨fun _ => hnone _, ?_⟩
      intro _ hfails
      obtain ⟨hc, -⟩ := hfails
      omega
    · rw [hiff _ (blockedVerdict_halting s.priority), ← hprio]
      rcases hend with ⟨rfl, hstop⟩ | ⟨rid, rest, victim, hlast⟩
      · exact complete_iff_of_stop huinv hufull hstop
      · refine ⟨?_, ?_⟩
        · intro _ hb
          -- the walk would have gone past the request that ended at its prefill
          obtain ⟨st, hst, hends⟩ := hb.head (blockedVerdict_halting u.priority) hlast.swappable
          obtain rfl : st = false := Option.some.inj (hst.symm.trans hlast.ends)
          obtain ⟨hone, -⟩ := hends rfl
          have hzero := hlast.swappable.head
          omega
        · intro _ hfails
          obtain ⟨hc, -⟩ := hfails
          have hroom := (hlast.room huinv).1
          omega
  · refine ⟨?_, ?_⟩
    · intro _ hstops
      obtain ⟨admitted, kept, normals, d, behind, hc, -⟩ := hstops
      exact hstrategy (hc.strategy hs)
    · intro _ hstops
      obtain ⟨-, -, a, ha, hone⟩ := hstops
      -- no request is ever deprioritized
      rcases hinv.priority (hinv.mem_submitted.mpr (.inr (.inl ha))) with hzero | ⟨-, hdep⟩
      · omega
      · exact hstrategy hdep

theorem Blocked.tryAdmit_returns (hs : SysInv cfg s) (hb : Blocked cfg s) :
    ∃ s', tryAdmit cfg s = .ok s' :=
  (blocked_iff.mp hb).tryAdmit_returns hs (blockedVerdict_halting s.priority)

end Rule

/-- **The preemption rule is complete exactly where the walk is not blocked.** From no state
    of a run does `_try_admit` return with a full batch, a normal request waiting and a
    deprioritized one running, if and only if no state of the run is blocked. -/
theorem preemption_complete_iff [Zero Col] (cfg : Config Col) (firstId : Nat)
    (events : List Event) :
    (∀ s s', Runs.Visits (step cfg) (Batcher.new firstId) events s → tryAdmit cfg s = .ok s' →
      Complete cfg s') ↔
    ∀ s, Runs.Visits (step cfg) (Batcher.new firstId) events s → ¬ Blocked cfg s :=
  visits_tryAdmit_iff cfg firstId events (fun _ hs hb => hb.tryAdmit_returns hs)
    (fun _ _ hs h => tryAdmit_complete hs h)

/-- A batch of one: request 1 was preempted for request 2, which is deprioritized in turn
    when request 3 is submitted behind request 1. -/
def headDeprioritized : List Event :=
  [.submit 9 [1] false, .tick, .submit 9 [2] false, .tick, .submit 9 [3] false]

theorem headDeprioritized_incomplete : ¬ ∀ s s', Runs.Visits
    (step (divergentConfig .probeDeprioritize)) (Batcher.new 1)
    headDeprioritized s →
    tryAdmit (divergentConfig .probeDeprioritize) s = .ok s' →
    Complete (divergentConfig .probeDeprioritize) s' := by
  intro h
  have hrun : (runEvents (divergentConfig .probeDeprioritize) 1
      headDeprioritized >>=
        tryAdmit (divergentConfig .probeDeprioritize)).toOption.map
          (fun s => (s.active, s.pending, s.priority 2, s.priority 3)) =
      some ([2], [1, 3], 1, 0) := by decide
  obtain ⟨s', hs', hstate⟩ := toOption_map_eq_some.mp hrun
  obtain ⟨s, hs, htry⟩ := bind_eq_ok.mp hs'
  obtain ⟨hact, hpend, hone, hzero⟩ : s'.active = [2] ∧ s'.pending = [1, 3] ∧
      s'.priority 2 = 1 ∧ s'.priority 3 = 0 := by simpa using hstate
  apply h s s' (Runs.Visits.last hs) htry
  exact ⟨by rw [hact]; rfl, ⟨3, by simp [hpend], hzero⟩, 2, by simp [hact], hone⟩

end PGI
