import Avb4Linux.Maap.Pool

/-!
# Timers that are due

Each range that `maap_handle_timer` acts upon leaves the queue or gets a time after the one that was
read.
-/

namespace Avb4Linux.Maap

open Lib

variable {σ : Type} {c c' : Client σ} {r : Nat} {now : Time}

def Time.nanos (t : Time) : Nat :=
  t.tvSec * 1000000000 + t.tvNsec

theorem Time.nanos_add (a b : Time) : (a.add b).nanos = a.nanos + b.nanos := by
  grind [add, nanos]

theorem Time.nanos_ofNanos (n : Nat) : (ofNanos n).nanos = n := by
  simp only [nanos, ofNanos]
  omega

theorem Time.nanos_le_of_le {a b : Time} (ha : a.tvNsec ≤ 1000000000) (h : a.le b = true) :
    a.nanos ≤ b.nanos := by
  rw [le_iff] at h
  simp only [nanos]
  omega

theorem Time.tvNsec_add_le {a b : Time} (ha : a.tvNsec < 1000000000) (hb : b.tvNsec < 1000000000) :
    (a.add b).tvNsec ≤ 1000000000 := by
  grind [add]

theorem Time.add_not_le {t : Time} {n : Nat} (ht : t.tvNsec < 1000000000) (hn : 0 < n)
    (h : now.le t = true) (hnow : now.tvNsec < 1000000000) :
    (t.add (ofNanos n)).le now = false := by
  by_contra hle
  have hsum := nanos_le_of_le
    (tvNsec_add_le ht (show (ofNanos n).tvNsec < 1000000000 by simp only [ofNanos]; omega))
    (by simpa using hle)
  have hread := nanos_le_of_le (Nat.le_of_lt hnow) h
  rw [nanos_add, nanos_ofNanos] at hsum
  omega

structure Client.Postponed (now : Time) (r : Nat) (c c' : Client σ) : Prop where
  others : ∀ a, a ≠ r → c'.mem a = c.mem a
  own : (c'.mem r).nextActTime.le now = false
  clock : ∀ i, now.le (c'.clock.reading i) = true
  nextRange : c'.nextRange = c.nextRange

theorem Client.setActTime_postponed (r base variation : Nat)
    (hclock : ∀ i, now.le (c.clock.reading i) = true) (hnow : now.tvNsec < 1000000000) :
    Client.Postponed now r c (c.setActTime r base variation) := by
  refine ⟨fun a ha => Function.update_of_ne ha .., ?_, fun i => hclock (i + 1), rfl⟩
  have htime : ((c.setActTime r base variation).mem r).nextActTime =
      (c.clock.reading 0).add (Time.ofNanos
        ((base + (c.random.1 % (variation - 1) + 1)) * 1000000)) := by
    simp only [setActTime, setRange, Function.update_self]
    rfl
  rw [htime]
  exact Time.add_not_le (c.clock.normal 0) (by omega) (hclock 0) hnow

theorem Client.scheduleTimer_postponed (hlive : (c.mem r).state ≠ .RELEASED)
    (hclock : ∀ i, now.le (c.clock.reading i) = true) (hnow : now.tvNsec < 1000000000) :
    Client.Postponed now r c (c.scheduleTimer r) := by
  have hrequeue : ∀ b : Client σ, Client.Postponed now r c b →
      Client.Postponed now r c (b.requeue r) :=
    fun _ h => ⟨h.others, h.own, h.clock, h.nextRange⟩
  grind [scheduleTimer, setActTime_postponed]

theorem Client.actTimer_postponed (hclock : ∀ i, now.le (c.clock.reading i) = true)
    (hnow : now.tvNsec < 1000000000) :
    (c.mem r).state = .RELEASED ∨ Client.Postponed now r c (c.actTimer r) := by
  -- what is done to the range before it gets its new time
  have hwrite : ∀ b : Client σ, (∀ a, a ≠ r → b.mem a = c.mem a) →
      (b.mem r).state ≠ .RELEASED → b.clock = c.clock → b.nextRange = c.nextRange → ∀ p,
        Client.Postponed now r c ((b.scheduleTimer r).sendPacket p) := by
    intro b hothers hlive hb hnext p
    have h := scheduleTimer_postponed hlive (hb ▸ hclock) hnow
    exact ⟨fun a ha => (h.others a ha).trans (hothers a ha), h.own, h.clock,
      h.nextRange.trans hnext⟩
  unfold actTimer
  cases hstate : (c.mem r).state with
  | RELEASED => exact .inl rfl
  | DEFENDING =>
    refine .inr (hwrite (c.popTimer r) (fun a ha => rfl) ?_ rfl rfl _)
    simp [popTimer, hstate]
  | PROBING =>
    refine .inr ?_
    dsimp only
    unfold handleProbeTimer
    split
    · refine hwrite ((c.popTimer r).acquire r) (fun a ha => Function.update_of_ne ha ..) ?_ rfl
        rfl _
      simp [acquire, setRange]
    · refine hwrite ((c.popTimer r).countDown r) (fun a ha => Function.update_of_ne ha ..) ?_ rfl
        rfl _
      simp [countDown, setRange, popTimer, hstate]

def Client.due (now : Time) (c : Client σ) : List Nat :=
  c.queue.filter fun r => (c.mem r).nextActTime.le now

theorem Client.Sound.due_nodup (h : c.Sound) (now : Time) : (c.due now).Nodup :=
  h.queued.chain.nodup.filter _

theorem Client.due_actTimer (h : c.Sound) (hhead : c.timerQueue = some r)
    (hdue : (c.mem r).nextActTime.le now = true)
    (hclock : ∀ i, now.le (c.clock.reading i) = true) (hnow : now.tvNsec < 1000000000) :
    ((c.actTimer r).due now).length < (c.due now).length := by
  obtain ⟨hsound, -, hmembers⟩ := actTimer_spec h hhead
  have hr : r ∈ c.queue := (popTimer_spec h.toWired hhead).2.1
  have hself : r ∉ (c.actTimer r).due now := by
    intro hmem
    obtain ⟨hqueue, hstill⟩ := List.mem_filter.mp hmem
    obtain hreleased | hpostponed := actTimer_postponed (c := c) (r := r) hclock hnow
    · have hgone := (popTimer_spec h.toWired hhead).2.2.2
      have hpop : c.actTimer r = c.popTimer r := by
        unfold actTimer
        rw [hreleased]
      rw [hpop] at hqueue
      have hledger : r ∈ (c.popTimer r).ledger.members := hqueue
      rw [hgone] at hledger
      exact hledger.2 rfl
    · rw [hpostponed.own] at hstill
      cases hstill
  have hsub : ∀ a ∈ (c.actTimer r).due now, a ∈ (c.due now).erase r := by
    intro a ha
    have hne : a ≠ r := fun heq => hself (heq ▸ ha)
    obtain ⟨hqueue, hstill⟩ := List.mem_filter.mp ha
    have hsame : (c.actTimer r).mem a = c.mem a := by
      obtain hreleased | hpostponed := actTimer_postponed (c := c) (r := r) hclock hnow
      · unfold actTimer
        rw [hreleased]
        rfl
      · exact hpostponed.others a hne
    rw [hsame] at hstill
    exact (List.mem_erase_of_ne hne).mpr (List.mem_filter.mpr ⟨hmembers hqueue, hstill⟩)
  have hmem : r ∈ c.due now := List.mem_filter.mpr ⟨hr, hdue⟩
  have hlen := ((hsound.due_nodup now).subperm hsub).length_le
  grind

theorem Client.Sound.due_eq_nil (h : c.Sound)
    (hhead : ∀ r, c.timerQueue = some r → (c.mem r).nextActTime.le now = false) :
    c.due now = [] := by
  have hchain := h.queued.chain
  have hsorted := h.queued.sorted
  unfold due
  generalize c.queue = q at hchain hsorted ⊢
  cases q with
  | nil => rfl
  | cons a rest =>
    rw [List.filter_eq_nil_iff]
    intro x hx hle
    have hfirst := hhead a (LinkedQueue.chain_cons_iff.mp hchain).1
    have hax : (c.mem a).nextActTime.le (c.mem x).nextActTime = true := by
      obtain rfl | hmem := List.mem_cons.mp hx
      all_goals simp_all
    rw [Time.le_trans hax hle] at hfirst
    cases hfirst

theorem Client.clock_actTimer (hclock : ∀ i, now.le (c.clock.reading i) = true)
    (hnow : now.tvNsec < 1000000000) : ∀ i, now.le ((c.actTimer r).clock.reading i) = true := by
  obtain hreleased | hpostponed := actTimer_postponed (c := c) (r := r) hclock hnow
  · unfold actTimer
    rw [hreleased]
    exact hclock
  · exact hpostponed.clock

/-- One turn of the loop of `maap_handle_timer`; `none` when the loop ends. -/
def Client.timerTurn (now : Time) (c : Client σ) : Option (Client σ) :=
  match c.timerQueue with
  | none => none
  | some r => if (c.mem r).nextActTime.le now then some (c.actTimer r) else none

def Client.timerTurns (now : Time) : Nat → Client σ → Option (Client σ)
  | 0, c => some c
  | k + 1, c => (c.timerTurn now).bind (timerTurns now k)

theorem Client.timerTurn_eq_some {d : Client σ} (h : c.timerTurn now = some d) :
    ∃ r, c.timerQueue = some r ∧ (c.mem r).nextActTime.le now = true ∧ d = c.actTimer r := by
  unfold timerTurn at h
  grind

theorem Client.timerLoop_of_turn {d : Client σ} (h : c.timerTurn now = some d) (fuel : Nat) :
    c.timerLoop now (fuel + 1) = d.timerLoop now fuel := by
  grind [timerTurn_eq_some, timerLoop]

theorem Client.timerLoop_of_end (h : c.timerTurn now = none) (fuel : Nat) :
    c.timerLoop now fuel = c := by
  cases fuel with
  | zero => rfl
  | succ fuel =>
    unfold timerTurn at h
    rw [timerLoop]
    grind

theorem Client.timerLoop_turns (h : c.Sound) (hclock : ∀ i, now.le (c.clock.reading i) = true)
    (hnow : now.tvNsec < 1000000000) {fuel : Nat} (hfuel : (c.due now).length ≤ fuel) :
    ∃ k ≤ (c.due now).length, Client.timerTurns now k c = some (c.timerLoop now fuel) ∧
      (c.timerLoop now fuel).timerTurn now = none := by
  induction fuel generalizing c with
  | zero =>
    have hend : c.timerTurn now = none := by
      by_contra hgoes
      obtain ⟨d, hd⟩ := Option.ne_none_iff_exists'.mp hgoes
      obtain ⟨r, hhead, hdue, -⟩ := timerTurn_eq_some hd
      have hless := due_actTimer h hhead hdue hclock hnow
      omega
    exact ⟨0, Nat.zero_le _, rfl, hend⟩
  | succ fuel ih =>
    cases hturn : c.timerTurn now with
    | none =>
      rw [timerLoop_of_end hturn]
      exact ⟨0, Nat.zero_le _, rfl, hturn⟩
    | some d =>
      rw [timerLoop_of_turn hturn]
      obtain ⟨r, hhead, hdue, rfl⟩ := timerTurn_eq_some hturn
      have hless := due_actTimer h hhead hdue hclock hnow
      obtain ⟨k, hk, hturns, hend⟩ :=
        ih (actTimer_spec h hhead).1 (clock_actTimer hclock hnow) (by omega)
      refine ⟨k + 1, by omega, ?_, hend⟩
      rw [timerTurns, hturn]
      exact hturns

theorem Client.due_timerLoop (h : c.Sound) (hclock : ∀ i, now.le (c.clock.reading i) = true)
    (hnow : now.tvNsec < 1000000000) {fuel : Nat} (hfuel : (c.due now).length ≤ fuel) :
    (c.timerLoop now fuel).due now = [] := by
  obtain ⟨k, -, -, hend⟩ := timerLoop_turns h hclock hnow hfuel
  refine (timerLoop_spec h now fuel).1.due_eq_nil fun r hhead => ?_
  unfold timerTurn at hend
  grind

theorem Client.Sound.monotonic (h : c.Sound) : c.monotonic.2.Sound :=
  ⟨h.toWired.congr rfl rfl rfl rfl rfl fun _ => ⟨rfl, rfl⟩, h.held⟩

theorem Client.Sound.due_length_le (h : c.Sound) (now : Time) :
    (c.due now).length ≤ c.nextRange :=
  (List.length_filter_le _ _).trans (length_le_of_below h.queued.chain.nodup h.queued.below)

theorem Client.due_startTimer (c : Client σ) (now : Time) : c.startTimer.due now = c.due now := by
  unfold startTimer
  split
  · rfl
  · split <;> rfl

theorem Client.due_handleTimer (h : c.Sound) : c.handleTimer.due (c.clock.reading 0) = [] := by
  have hloop := due_timerLoop h.monotonic (fun i => c.clock.mono 0 (i + 1) (Nat.zero_le _))
    (c.clock.normal 0) (h.monotonic.due_length_le (c.clock.reading 0))
  exact (due_startTimer _ _).trans hloop

/-- `maap_handle_timer` ends after at most one turn for each range that is due, and leaves no
range in the queue whose time had passed when the clock was read. -/
theorem Client.handleTimer_terminates (h : c.Sound) :
    ∃ k ≤ (c.due (c.clock.reading 0)).length, ∃ c₁,
      Client.timerTurns (c.clock.reading 0) k c.monotonic.2 = some c₁ ∧
        c₁.timerTurn (c.clock.reading 0) = none ∧ c.handleTimer = c₁.startTimer ∧
        (∀ r ∈ c.handleTimer.queue,
          (c.handleTimer.mem r).nextActTime.le (c.clock.reading 0) = false) ∧
        ∀ r, (c.mem r).nextActTime.le (c.clock.reading 0) = true →
          ¬ (r ∈ c.handleTimer.queue ∧
            (c.handleTimer.mem r).nextActTime = (c.mem r).nextActTime) := by
  have hread : c.monotonic.2.Sound := h.monotonic
  obtain ⟨k, hk, hturns, hend⟩ := timerLoop_turns hread
    (fun i => c.clock.mono 0 (i + 1) (Nat.zero_le _)) (c.clock.normal 0)
    (h.monotonic.due_length_le (c.clock.reading 0))
  have hnone := due_handleTimer h
  have hlater : ∀ r ∈ c.handleTimer.queue,
      (c.handleTimer.mem r).nextActTime.le (c.clock.reading 0) = false := by
    intro r hr
    simpa using List.filter_eq_nil_iff.mp hnone r hr
  refine ⟨k, hk, _, hturns, hend, rfl, hlater, fun r hdue hstill => ?_⟩
  obtain ⟨hqueue, hsame⟩ := hstill
  have hafter := hlater r hqueue
  rw [hsame, hdue] at hafter
  cases hafter

theorem handleTimer_terminates_reserveTwo : ∃ c,
    Fallible.run Client.perform (quietClient 7 0) reserveTwo = .ok c ∧ c.queue = [0] ∧
      ∃ k ≤ (c.due (c.clock.reading 0)).length, ∃ c₁,
        Client.timerTurns (c.clock.reading 0) k c.monotonic.2 = some c₁ ∧
          c₁.timerTurn (c.clock.reading 0) = none ∧ c.handleTimer = c₁.startTimer := by
  obtain ⟨c, hrun, hqueue⟩ := Fallible.exists_of_okAnd (x := Fallible.run Client.perform (quietClient 7 0)
    reserveTwo) (p := fun c => c.queue = [0]) (by decide +kernel)
  have hsound := Client.sound_of_run (quietClient_initial 7 0) hrun
  obtain ⟨k, hk, c₁, hturns, hend, heq, -⟩ := Client.handleTimer_terminates hsound
  exact ⟨c, hrun, by simpa using hqueue, k, hk, c₁, hturns, hend, heq⟩

end Avb4Linux.Maap
