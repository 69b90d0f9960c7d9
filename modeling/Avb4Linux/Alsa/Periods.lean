import Avb4Linux.Alsa.Rings
import Avb4Linux.Lib.Runs

/-!
# Elapsed periods

The receive routine counts the samples of all packets of a call and reports one period at most
when it is done.
-/

namespace Avb4Linux.Alsa

open Lib

def Outcome.elapsed (o : Outcome) : Direction → Bool
  | .capture => o.captureElapsed
  | .playback => o.playbackElapsed

/-- A device with what has been reported and transferred so far in one direction. -/
structure Account where
  adapter : Adapter
  elapsed : Nat := 0
  transferred : Nat := 0

namespace Account

variable (d : Direction)

def step (x : Account) (call : (Nat → U32) × List Received) : Account :=
  match x.adapter.receive call.1 call.2 with
  | .ok o =>
    { adapter := o.adapter
      elapsed := x.elapsed + if o.elapsed d then 1 else 0
      transferred := x.transferred + call.2.length * x.adapter.samples_per_packet }
  | .error _ => x

def period (x : Account) : Nat :=
  (x.adapter.stream d).period_size

structure Counts (x : Account) : Prop where
  left_lt : (x.adapter.stream d).cnt < x.period d
  elapsed_eq : x.elapsed = x.transferred / x.period d

def WithinTwo (x : Account) (call : (Nat → U32) × List Received) : Prop :=
  x.transferred % x.period d + call.2.length * x.adapter.samples_per_packet < 2 * x.period d

structure Inv (x : Account) : Prop where
  divides : x.adapter.Divides
  started : (x.adapter.stream d).started = true
  left_lt : (x.adapter.stream d).cnt < x.period d
  account : x.elapsed * x.period d + (x.adapter.stream d).cnt = x.transferred

end Account

theorem Stream.moved_cnt {s : Stream} (hstarted : s.started = true) (spp : Nat) (c : Cursor)
    (n : Nat) : ((s.moved spp)^[n] c).cnt = c.cnt + n * spp := by
  induction n generalizing c with
  | zero => simp
  | succ n ih =>
    have hone : (s.moved spp c).cnt = c.cnt + spp := by
      rw [moved, if_pos hstarted]
      rfl
    rw [Function.iterate_succ_apply, ih, hone, Nat.succ_mul, Nat.add_assoc, Nat.add_comm spp]

theorem Stream.settle_started {s : Stream} (hstarted : s.started = true) (c : Cursor) :
    (s.settle c).2.cnt = (if s.period_size ≤ c.cnt then c.cnt - s.period_size else c.cnt) ∧
      (s.settle c).1 = decide (s.period_size ≤ c.cnt) := by
  simp only [settle, hstarted, Bool.true_and, ge_iff_le, decide_eq_true_eq]
  split <;> simp_all

@[simp] theorem Stream.settle_settings (s : Stream) (c : Cursor) :
    (s.settle c).2.started = s.started ∧ (s.settle c).2.channels = s.channels ∧
      (s.settle c).2.buffer_size = s.buffer_size ∧
      (s.settle c).2.period_size = s.period_size := by
  unfold settle
  split <;> simp

namespace Account

variable {d : Direction} {x : Account}

/-- One call of a device that runs: what is left and what is reported. -/
theorem Inv.receive (h : x.Inv d) (call : (Nat → U32) × List Received) :
    (x.step d call).adapter.Divides ∧ ((x.step d call).adapter.stream d).started = true ∧
      (x.step d call).period d = x.period d ∧
      (x.step d call).transferred =
        x.transferred + call.2.length * x.adapter.samples_per_packet ∧
      ∃ n, n = (x.adapter.stream d).cnt + call.2.length * x.adapter.samples_per_packet ∧
        ((x.step d call).adapter.stream d).cnt =
          (if x.period d ≤ n then n - x.period d else n) ∧
        (x.step d call).elapsed = x.elapsed + if x.period d ≤ n then 1 else 0 := by
  have hok := Adapter.receive_ok h.divides call.1 call.2
  have hdivides := h.divides
  have hstarted := h.started
  simp only [step, hok]
  refine ⟨?_, ?_, ?_, trivial, _, rfl, ?_⟩
  · simpa [Adapter.leave, Adapter.Divides, Stream.Divides] using hdivides
  · cases d <;> simpa [Adapter.leave, Adapter.stream] using hstarted
  · cases d <;> simp [Adapter.leave, Adapter.stream, period]
  · have hcnt := Stream.moved_cnt hstarted x.adapter.samples_per_packet
      (x.adapter.stream d).cursor call.2.length
    have hsettle := Stream.settle_started hstarted
    cases d
    all_goals
      simp_all [Adapter.leave, Adapter.stream, period, Adapter.capture_foldl,
        Adapter.playback_foldl, Adapter.enter, Outcome.elapsed, Stream.cursor]
      exact ⟨rfl, rfl⟩

theorem Inv.counts (h : x.Inv d) : x.Counts d := by
  refine ⟨h.left_lt, ?_⟩
  have hlt := h.left_lt
  rw [← h.account, Nat.mul_comm, Nat.mul_add_div (by omega), Nat.div_eq_of_lt hlt, Nat.add_zero]

theorem Inv.left_eq (h : x.Inv d) :
    (x.adapter.stream d).cnt = x.transferred % x.period d := by
  rw [← h.account, Nat.mul_comm, Nat.mul_add_mod, Nat.mod_eq_of_lt h.left_lt]

theorem Inv.step (h : x.Inv d) {call : (Nat → U32) × List Received} (hok : x.WithinTwo d call) :
    (x.step d call).Inv d := by
  obtain ⟨hdivides, hstarted, hperiod, htotal, n, hn, hcnt, helapsed⟩ := h.receive call
  have haccount := h.account
  rw [WithinTwo, ← h.left_eq] at hok
  refine ⟨hdivides, hstarted, ?_, ?_⟩
  · rw [hcnt, hperiod]
    split <;> omega
  · rw [hcnt, hperiod, helapsed, htotal, Nat.add_mul]
    split <;> omega

theorem Inv.within_of_counts (h : x.Inv d) {call : (Nat → U32) × List Received}
    (hcounts : (x.step d call).Counts d) : x.WithinTwo d call := by
  obtain ⟨-, -, hperiod, -, n, hn, hcnt, -⟩ := h.receive call
  have hlt := hcounts.left_lt
  rw [WithinTwo, ← h.left_eq]
  rw [hcnt, hperiod] at hlt
  split at hlt <;> omega

/-- What is left stays below a period and every full period is reported, exactly if no call
completes two of them. -/
theorem periods_reported_iff (d : Direction) (a : Adapter) (hdivides : a.Divides)
    (hstarted : (a.stream d).started = true) (hfresh : (a.stream d).cnt = 0)
    (hpacket : 0 < a.samples_per_packet)
    (hperiod : a.samples_per_packet ≤ (a.stream d).period_size)
    (calls : List ((Nat → U32) × List Received)) :
    (∀ js, js <+: calls → (Runs.run (step d) { adapter := a } js).Counts d) ↔
      Runs.Along (step d) (WithinTwo d) { adapter := a } calls := by
  apply Runs.prefixes_good_iff (Inv d)
  · exact fun x hx => hx.counts
  · exact fun x call hok hx => hx.step hok
  · exact fun x call hx => hx.within_of_counts
  · refine ⟨hdivides, hstarted, ?_, ?_⟩
    · rw [hfresh]
      exact Nat.lt_of_lt_of_le hpacket hperiod
    · simp [hfresh]

theorem halfway_periods :
    bothHalfway.Divides ∧
      ((∀ js, js <+: [((fun _ => 0), [numbered])] →
          (Runs.run (step .capture) { adapter := bothHalfway } js).Counts .capture) ↔
        Runs.Along (step .capture) (WithinTwo .capture) { adapter := bothHalfway }
          [((fun _ => 0), [numbered])]) :=
  ⟨by decide, periods_reported_iff .capture bothHalfway (by decide) rfl rfl (by decide) (by decide) _⟩

-- two periods of six samples arrive in one call: one is reported, and one is left
example : ∃ o, bothHalfway.receive (fun _ => 0) [numbered, numbered] = .ok o ∧
      o.adapter.capture.cnt = o.adapter.capture.period_size ∧ o.captureElapsed = true :=
  ⟨_, rfl, rfl, rfl⟩

end Account

end Avb4Linux.Alsa
