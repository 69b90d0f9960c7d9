import Avb4Linux.Mrp.Declarations

/-!
# The leave timer

All registrars of a database share one leave timer, which every registrar that enters `LV` arms
anew (`mrp.c:382-399`).
-/

namespace Avb4Linux.Mrp

open Lib Lib.Runs

theorem settle_reg {reclaims : Bool} {c : Cell} {n : Notify} {r : RegState}
    (h : (settle reclaims c n).1.map Cell.reg = some r) : c.reg = r := by
  unfold settle at h
  grind

inductive RegOrigin (event : Event) (before : Option RegState) (r : RegState) : Prop where
  | attrib (hev : isAttribEvent event = true) (r₀ : RegState)
      (hr : before = some r₀ ∨ r₀ = .MT) (h : r = (remapStep event r₀).1)
  | leaveAll (hev : event = .LVATIMER ∨ event = .RLA) (r₀ : RegState) (hr : before = some r₀)
      (h : r = if r₀ = .IN then .LV else r₀)
  | lvtimer (hev : event = .LVTIMER) (r₀ : RegState) (hr : before = some r₀)
      (h : r = (regStep r₀ .LVTIMER).1)
  | kept (hev : event ≠ .LVTIMER) (h : before = some r)

theorem cellStep_reg {reclaims forced : Bool} {event : Event} {c : Option Cell} {r : RegState}
    (h : (cellStep reclaims event forced c).1.map Cell.reg = some r) :
    RegOrigin event (c.map Cell.reg) r := by
  by_cases hev : isAttribEvent event = true
  · by_cases habs : event = .RMT ∧ c = none
    · grind [cellStep]
    · rw [cellStep_attrib reclaims hev forced habs] at h
      have hr := settle_reg h
      refine .attrib hev _ ?_ hr.symm
      cases c with
      | none => exact Or.inr (by cases forced <;> rfl)
      | some c =>
        grind
  · cases c with
    | none =>
      cases event <;> first | exact absurd rfl hev | exact absurd h (by simp [cellStep])
    | some c =>
      cases event with
      | LVATIMER => exact .leaveAll (Or.inl rfl) c.reg rfl (Option.some.inj h).symm
      | RLA => exact .leaveAll (Or.inr rfl) c.reg rfl (Option.some.inj h).symm
      | LVTIMER => exact .lvtimer rfl c.reg rfl (settle_reg h).symm
      | _ => first | exact absurd rfl hev | exact .kept (by decide) h

theorem RegOrigin.of_lv {event : Event} {before : Option RegState}
    (h : RegOrigin event before .LV) :
    event ≠ .LVTIMER ∧ (before = some .IN ∨ before = some .LV) := by
  cases h with
  | attrib hev r₀ hr h =>
    have hlv : r₀ = .IN ∨ r₀ = .LV := by
      cases event <;> first
        | exact absurd hev (by decide)
        | (cases r₀ <;> first | exact absurd h (by decide) | decide)
    refine ⟨by rintro rfl; exact absurd hev (by decide), ?_⟩
    grind
  | leaveAll hev r₀ hr h =>
    grind
  | lvtimer hev r₀ hr h => exact absurd h.symm (regStep_lvtimer_ne_lv r₀)
  | kept hev h => exact ⟨hev, Or.inr h⟩

def isJoin : Event → Bool
  | .NEW | .JOIN | .RNEW | .RJOININ | .RJOINMT => true
  | _ => false

theorem RegOrigin.of_in {event : Event} {before : Option RegState}
    (h : RegOrigin event before .IN) (hj : isJoin event = false) : before = some .IN := by
  cases h with
  | attrib hev r₀ hr h =>
    have hin : r₀ = .IN := by
      cases event <;> first
        | exact absurd hev (by decide)
        | exact absurd hj (by decide)
        | (cases r₀ <;> first | exact absurd h (by decide) | rfl)
    grind
  | leaveAll hev r₀ hr h =>
    rw [hr]
    cases r₀ <;> exact absurd h (by decide)
  | lvtimer hev r₀ hr h =>
    rw [hr]
    cases r₀ <;> first | exact absurd h (by decide) | rfl
  | kept hev h => exact h

variable {V K D C : Type} [DecidableEq K]

def Participant.reg (P : Participant V K D C) (d : D) (k : K) : Option RegState :=
  (cellAt P.key (P.base d).attribList k).map Cell.reg

variable {P : Participant V K D C}

theorem Participant.Lawful.act_reg (hP : P.Lawful) (env : Env) {d : D} {act : Act V C}
    (ht : Tidy P.key (P.base d).attribList) {k : K} {r : RegState}
    (h : P.reg (P.act env d act).1 k = some r) :
    (∃ c, P.call d act = some c ∧ c.scope k = true ∧ RegOrigin c.event (P.reg d k) r) ∨
      act ≠ .timer .leave ∧ P.reg d k = some r := by
  cases hP.act_spec env d act ht with
  | called c hc db spec pruned spared =>
    have hdb : (cellAt P.key db.attribList k).map Cell.reg = some r := by
      rcases pruned.cells k with heq | ⟨-, hnone⟩
      all_goals grind [reg]
    rw [spec.cell] at hdb
    by_cases hk : c.scope k = true
    · rw [if_pos hk] at hdb
      exact Or.inl ⟨c, hc, hk, cellStep_reg hdb⟩
    · rw [if_neg hk] at hdb
      refine Or.inr ⟨?_, hdb⟩
      rintro rfl
      obtain rfl := Option.some.inj hc
      exact hk rfl
  | collected hact spec =>
    subst hact
    refine Or.inr ⟨by simp, ?_⟩
    have hcell := congrArg (fun x => x.1.map Cell.reg) (spec.cells k)
    have hreg : ((cellAt P.key (P.base d).attribList k).elim (none, ([] : List Notify))
        fun c => settle true c .NONE).1.map Cell.reg = some r := hcell.symm.trans h
    unfold Participant.reg
    cases hat : cellAt P.key (P.base d).attribList k with
    | none => exact absurd hreg (by simp [hat])
    | some c =>
      rw [hat] at hreg
      exact congrArg some (settle_reg hreg)
  | idle hact hc pruned hn =>
    refine Or.inr ⟨?_, ?_⟩
    · rintro rfl
      exact absurd hc (by simp [Participant.call])
    · rcases pruned.cells k with heq | ⟨-, hnone⟩
      all_goals grind [Option.map, reg]

inductive LeaveAct (P : Participant V K D C) (now : Nat) (d : D) (act : Act V C) (d' : D) :
    Prop where
  | started (hact : act ≠ .timer .leave) (h : ∃ k, EntersLv P.key (P.base d) (P.base d') k)
      (timer : (P.base d').mrpDb.lvTimer = some (now + lvTimerVal))
  | fired (hact : act = .timer .leave) (h : ∀ k, P.reg d' k ≠ some .LV)
  | kept (hact : act ≠ .timer .leave) (h : ∀ k, ¬ EntersLv P.key (P.base d) (P.base d') k)
      (timer : (P.base d').mrpDb.lvTimer = (P.base d).mrpDb.lvTimer)

theorem Participant.Lawful.act_ne_leave (hP : P.Lawful) {d : D} {act : Act V C} {c : Call K}
    (hc : P.call d act = some c) (hact : act ≠ .timer .leave) : c.event ≠ .LVTIMER :=
  fun hev => hact (hP.call_timer (t := .leave) hc hev).1

theorem entersLv_pruned {c : Call K} {db db' db'' : Database V} {key : V → K}
    {reclaims prunes : Bool} {now : Nat} {notes : List (Note V)}
    (spec : EventSpec key reclaims now c.event c.scope c.forced db db' notes)
    (pruned : Pruned key prunes db' db'')
    (spared : ∀ k, c.scope k = true → cellAt key db''.attribList k = cellAt key db'.attribList k)
    (k : K) : EntersLv key db db'' k ↔ EntersLv key db db' k := by
  unfold EntersLv
  by_cases hk : c.scope k = true
  · rw [spared k hk]
  · have hsame : cellAt key db'.attribList k = cellAt key db.attribList k := by
      rw [spec.cell, if_neg hk]
    rcases pruned.cells k with heq | ⟨-, hnone⟩
    all_goals grind

theorem Participant.Lawful.act_leave (hP : P.Lawful) (env : Env) (d : D) (act : Act V C)
    (ht : Tidy P.key (P.base d).attribList) :
    LeaveAct P env.now d act (P.act env d act).1 := by
  by_cases hact : act = .timer .leave
  · refine .fired hact ?_
    intro k hk
    rcases hP.act_reg env ht hk with ⟨c, hc, -, horigin⟩ | ⟨hne, -⟩
    · subst hact
      obtain rfl := Option.some.inj hc
      exact horigin.of_lv.1 rfl
    · exact hne hact
  · cases hP.act_spec env d act ht with
    | called c hc db spec pruned spared =>
      have hiff := entersLv_pruned spec pruned spared
      cases spec.leave with
      | started h timer running =>
        obtain ⟨k, hk⟩ := h
        exact .started hact ⟨k, (hiff k).mpr hk⟩ (pruned.lvTimer.trans timer)
      | kept h timer running =>
        rw [if_neg (hP.act_ne_leave hc hact)] at timer
        exact .kept hact (fun k hk => h k ((hiff k).mp hk)) (pruned.lvTimer.trans timer)
    | collected hact' spec =>
      refine .kept hact ?_ (by rw [spec.mrpDb])
      rintro k ⟨hin, hlv⟩
      rcases hP.act_reg env ht hlv with ⟨c, hc, -, -⟩ | ⟨-, hreg⟩
      · grind [call]
      · exact absurd (hin.symm.trans hreg) (by decide)
    | idle hact' hc' pruned hn =>
      refine .kept hact ?_ pruned.lvTimer
      rintro k ⟨hin, hlv⟩
      rcases hP.act_reg env ht hlv with ⟨c, hc, -, -⟩ | ⟨-, hreg⟩
      · exact absurd (hc'.symm.trans hc) (by simp)
      · exact absurd (hin.symm.trans hreg) (by decide)

structure Timed (K D : Type) where
  d : D
  clock : Nat
  lastLv : Nat
  entered : K → Nat

def Timed.start (d : D) (now : Nat) : Timed K D :=
  { d := d, clock := now, lastLv := now, entered := fun _ => now }

def Participant.entersAny (P : Participant V K D C) (d d' : D) : Bool :=
  (P.base d').attribList.any fun a =>
    P.reg d (P.key a.value) = some .IN && P.reg d' (P.key a.value) = some .LV

def Timed.act (P : Participant V K D C) (s : Timed K D) (i : Input V C) : Timed K D :=
  let d' := P.step s.d i
  { d := d'
    clock := i.env.now
    lastLv := if P.entersAny s.d d' then i.env.now else s.lastLv
    entered := fun k =>
      if P.reg s.d k = some .IN ∧ P.reg d' k = some .LV then i.env.now else s.entered k }

theorem Participant.entersAny_iff {d d' : D} :
    P.entersAny d d' = true ↔ ∃ k, EntersLv P.key (P.base d) (P.base d') k := by
  simp only [Participant.entersAny, List.any_eq_true, Bool.and_eq_true, decide_eq_true_eq]
  constructor
  · rintro ⟨a, -, h⟩
    exact ⟨P.key a.value, h⟩
  · rintro ⟨k, h⟩
    obtain ⟨c, hc, -⟩ := Option.map_eq_some_iff.mp h.2
    obtain ⟨a, ha, -⟩ := Option.map_eq_some_iff.mp hc
    have hkey : P.key a.value = k := by
      have h := KeyedList.key_of_get ha
      exact h
    exact ⟨a, KeyedList.mem_of_get ha, by rw [hkey]; exact h⟩

structure Timed.Inv (P : Participant V K D C) (s : Timed K D) : Prop where
  tidy : Tidy P.key (P.base s.d).attribList
  armed : ∀ k, P.reg s.d k = some .LV →
    (P.base s.d).mrpDb.lvTimer = some (s.lastLv + lvTimerVal)
  entered_le : ∀ k, s.entered k ≤ s.lastLv
  lastLv_le : s.lastLv ≤ s.clock

theorem Timed.Inv.start (hP : P.Lawful) {d : D} (hd : P.initial d) (now : Nat) :
    (Timed.start d now : Timed K D).Inv P where
  tidy := hP.initial_tidy hd
  armed k hk := by
    have hnone : P.reg d k = none := by
      simp [Participant.reg, cellAt, attribAt, hP.initial_attribs d hd, KeyedList.get]
    exact absurd (hk.symm.trans hnone) (by simp)
  entered_le _ := Nat.le_refl _
  lastLv_le := Nat.le_refl _

theorem Timed.Inv.lastLv_le_act {s : Timed K D} (hs : s.Inv P) {i : Input V C}
    (hi : s.clock ≤ i.env.now) : s.lastLv ≤ (s.act P i).lastLv := by
  grind [act, Nat.le_trans, lastLv_le]

theorem Timed.Inv.lv_of_act (hP : P.Lawful) {s : Timed K D} (hs : s.Inv P) {i : Input V C}
    {k : K} (hk : P.reg (s.act P i).d k = some .LV) :
    P.reg s.d k = some .LV ∨ (s.act P i).lastLv = i.env.now := by
  by_cases hany : P.entersAny s.d (P.step s.d i) = true
  · exact Or.inr (if_pos hany)
  · refine Or.inl ?_
    rcases hP.act_reg i.env hs.tidy hk with ⟨c, -, -, horigin⟩ | ⟨-, hreg⟩
    · exact horigin.of_lv.2.resolve_left fun hin =>
        hany (Participant.entersAny_iff.mpr ⟨k, hin, hk⟩)
    · exact hreg

theorem Timed.Inv.act (hP : P.Lawful) {s : Timed K D} (hs : s.Inv P) {i : Input V C}
    (hi : s.clock ≤ i.env.now) : (s.act P i).Inv P := by
  refine ⟨hP.act_tidy i.env i.act hs.tidy, ?_, ?_, ?_⟩
  · intro k hk
    cases hP.act_leave i.env s.d i.act hs.tidy with
    | started hact h timer =>
      have hany : P.entersAny s.d (P.step s.d i) = true := Participant.entersAny_iff.mpr h
      simp only [Timed.act, if_pos hany]
      exact timer
    | fired hact h => exact absurd hk (h k)
    | kept hact h timer =>
      have hany : ¬ P.entersAny s.d (P.step s.d i) = true := by
        rw [Participant.entersAny_iff]
        rintro ⟨k', hk'⟩
        exact h k' hk'
      have hbefore : P.reg s.d k = some .LV := by
        rcases hP.act_reg i.env hs.tidy hk with ⟨c, -, -, horigin⟩ | ⟨-, hreg⟩
        · exact horigin.of_lv.2.resolve_left fun hin => h k ⟨hin, hk⟩
        · exact hreg
      simp only [Timed.act, if_neg hany]
      exact timer.trans (hs.armed k hbefore)
  · intro k
    by_cases hk : P.reg s.d k = some .IN ∧ P.reg (P.step s.d i) k = some .LV
    · have hany : P.entersAny s.d (P.step s.d i) = true :=
        Participant.entersAny_iff.mpr ⟨k, hk⟩
      grind [act]
    · have hle := hs.lastLv_le_act hi
      have hk' : (s.act P i).entered k = s.entered k := if_neg hk
      rw [hk']
      exact Nat.le_trans (hs.entered_le k) hle
  · grind [act, Nat.le_trans, lastLv_le]

inductive TimedInput (V C : Type) where
  | wait (t : Nat)
  | act (i : Input V C)

def Timed.step (P : Participant V K D C) (s : Timed K D) : TimedInput V C → Timed K D
  | .wait t => { s with clock := t }
  | .act i => s.act P i

/-- Timers are prompt: time does not pass the expiry of the leave timer before its
event has been handled. The event does not come before the expiry. -/
def Timed.Prompt (P : Participant V K D C) (s : Timed K D) : TimedInput V C → Prop
  | .wait t => s.clock ≤ t ∧ ∀ e ∈ (P.base s.d).mrpDb.lvTimer, t ≤ e
  | .act i => i.env.now = s.clock ∧
      (i.act = .timer .leave → ∃ e ∈ (P.base s.d).mrpDb.lvTimer, e ≤ s.clock)

def Participant.joins (P : Participant V K D C) (d : D) (k : K) : Act V C → Bool
  | .cmd c client => (P.request c client d).any fun x => isJoin x.1 && P.key x.2 = k
  | .pdu e v _ => isJoin e.received && P.key v = k
  | _ => false

def Timed.Unjoined (P : Participant V K D C) (k : K) (s : Timed K D) : TimedInput V C → Prop
  | .wait _ => True
  | .act i => P.joins s.d k i.act = false

theorem key_of_attribCall {d : D} {event : Event} {r : Attrib V} {k : K}
    (h : (P.attribCall d event r).scope k = true) : P.key r.value = k := by
  grind [Participant.attribCall]

theorem isJoin_of_call {d : D} {act : Act V C} {k : K} (hj : P.joins d k act = false)
    {c : Call K} (hc : P.call d act = some c) (hk : c.scope k = true) :
    isJoin c.event = false := by
  cases act with
  | cmd cmd client =>
    simp only [Participant.call, Option.map_eq_some_iff] at hc
    obtain ⟨x, hx, rfl⟩ := hc
    have hkey : P.key x.2 = k := key_of_attribCall hk
    simpa [Participant.joins, Participant.attribCall, hx, hkey] using hj
  | pdu e v src =>
    obtain rfl := Option.some.inj hc
    have hkey : P.key v = k := key_of_attribCall hk
    simpa [Participant.joins, Participant.attribCall, hkey] using hj
  | leaveAll v src =>
    obtain rfl := Option.some.inj hc
    rfl
  | timer t =>
    obtain rfl := Option.some.inj hc
    cases t <;> rfl
  | bye client => exact absurd hc (by simp [Participant.call])
  | reclaim => exact absurd hc (by simp [Participant.call])

theorem Participant.Lawful.act_not_in (hP : P.Lawful) (env : Env) {d : D} {act : Act V C}
    (ht : Tidy P.key (P.base d).attribList) {k : K} (hj : P.joins d k act = false)
    (hk : P.reg d k ≠ some .IN) : P.reg (P.act env d act).1 k ≠ some .IN := by
  intro hin
  rcases hP.act_reg env ht hin with ⟨c, hc, hscope, horigin⟩ | ⟨-, hreg⟩
  · exact hk (horigin.of_in (isJoin_of_call hj hc hscope))
  · exact hk hreg

structure Timed.OnTime (P : Participant V K D C) (s : Timed K D) : Prop extends s.Inv P where
  due : ∀ k, P.reg s.d k = some .LV → s.clock ≤ s.lastLv + lvTimerVal

theorem Timed.OnTime.start (hP : P.Lawful) {d : D} (hd : P.initial d) (now : Nat) :
    (Timed.start d now : Timed K D).OnTime P where
  toInv := Timed.Inv.start hP hd now
  due _ _ := Nat.le_add_right _ _

theorem Timed.OnTime.step (hP : P.Lawful) (s : Timed K D) (i : TimedInput V C)
    (hi : s.Prompt P i) (hs : s.OnTime P) : (s.step P i).OnTime P := by
  cases i with
  | wait t =>
    obtain ⟨hmono, hexpiry⟩ := hi
    refine ⟨⟨hs.tidy, hs.armed, hs.entered_le, Nat.le_trans hs.lastLv_le hmono⟩, ?_⟩
    intro k hk
    exact hexpiry _ (hs.armed k hk)
  | act i =>
    have hnow : i.env.now = s.clock := hi.1
    have hmono : s.clock ≤ i.env.now := Nat.le_of_eq hnow.symm
    refine ⟨hs.toInv.act hP hmono, ?_⟩
    intro k hk
    have hclock : (s.act P i).clock = s.clock := hnow
    show (s.act P i).clock ≤ (s.act P i).lastLv + lvTimerVal
    rcases hs.toInv.lv_of_act hP hk with hbefore | hlast
    · have hdue := hs.due k hbefore
      have hle := hs.toInv.lastLv_le_act hmono
      omega
    · omega

/-- A registrar that enters `LV`, and for which no New or Join comes afterwards, is in
`MT` or gone no later than one `MRP_LVTIMER_VAL` after the last time that any registrar
of the database entered `LV`. -/
def Participant.LeavesInTime (P : Participant V K D C) : Prop :=
  ∀ (d : D) (now : Nat) (before : List (TimedInput V C)) (leaving : Input V C)
    (after : List (TimedInput V C)) (k : K), P.initial d →
    Along (Timed.step P) (Timed.Prompt P) (Timed.start d now) (before ++ .act leaving :: after) →
    let s := run (Timed.step P) (Timed.start d now) before
    let left := s.act P leaving
    let s' := run (Timed.step P) left after
    P.reg s.d k = some .IN → P.reg left.d k = some .LV →
    Along (Timed.step P) (Timed.Unjoined P k) left after →
    P.reg s'.d k = none ∨ P.reg s'.d k = some .MT ∨
      P.reg s'.d k = some .LV ∧ s'.clock ≤ s'.lastLv + lvTimerVal ∧
        (P.base s'.d).mrpDb.lvTimer = some (s'.lastLv + lvTimerVal)

theorem Participant.Lawful.run_not_in (hP : P.Lawful) {k : K} (is : List (TimedInput V C))
    (s : Timed K D) (hs : s.OnTime P) (hk : P.reg s.d k ≠ some .IN)
    (hprompt : Along (Timed.step P) (Timed.Prompt P) s is)
    (hj : Along (Timed.step P) (Timed.Unjoined P k) s is) :
    P.reg (run (Timed.step P) s is).d k ≠ some .IN := by
  induction is generalizing s with
  | nil => exact hk
  | cons i is ih =>
    refine ih (s.step P i) (hs.step hP s i hprompt.1) ?_ hprompt.2 hj.2
    cases i with
    | wait t => exact hk
    | act i => exact hP.act_not_in i.env hs.tidy hj.1 hk

theorem Participant.Lawful.leavesInTime (hP : P.Lawful) : P.LeavesInTime := by
  intro d now before leaving after k hd hprompt s left s' hin hlv hj
  obtain ⟨hbefore, hleaving, hafter⟩ := (along_append _ _ _ _ _).mp hprompt
  have hs : s.OnTime P :=
    run_invariant (Timed.OnTime.step hP) _ _ (Timed.OnTime.start hP hd now) hbefore
  have hleft : left.OnTime P := hs.step hP s (.act leaving) hleaving
  have hs' : s'.OnTime P := run_invariant (Timed.OnTime.step hP) left after hleft hafter
  have hnot : P.reg s'.d k ≠ some .IN :=
    hP.run_not_in after left hleft (by rw [hlv]; decide) hafter hj
  cases hreg : P.reg s'.d k with
  | none => exact Or.inl rfl
  | some r =>
    cases r with
    | IN => exact absurd hreg hnot
    | MT => exact Or.inr (Or.inl rfl)
    | LV => exact Or.inr (Or.inr ⟨rfl, hs'.due k hreg, hs'.armed k hreg⟩)

instance [DecidableEq V] [DecidableEq C] (s : Timed K D) (i : TimedInput V C) :
    Decidable (s.Prompt P i) :=
  match i with
  | .wait _ => inferInstanceAs (Decidable (_ ∧ _))
  | .act _ => inferInstanceAs (Decidable (_ ∧ _))

instance (k : K) (s : Timed K D) (i : TimedInput V C) : Decidable (s.Unjoined P k i) :=
  match i with
  | .wait _ => isTrue trivial
  | .act _ => inferInstanceAs (Decidable (_ = false))

/-- VID 1 and VID 2 are registered. A Leave for VID 1 arrives at 10 ms and one for VID 2 at 900
ms; at 1500 ms the registrar of VID 1 is still in `LV`. -/
theorem mvrp_leave_delayed :
    let recv (t : Nat) (e : PduEvent) (v : Vid) : List (TimedInput Vid (Cmd Vid)) :=
      [.wait (msec t), .act ⟨{ now := msec t }, .pdu e v (Vector.replicate 6 7)⟩]
    let start : Timed Vid (Database Vid) := Timed.start (mvrpInit { now := 0 }) 0
    let before := recv 1 .JOINMT 1 ++ recv 2 .JOINMT 2 ++ [.wait (msec 10)]
    let leaving := ⟨{ now := msec 10 }, .pdu .LV 1 (Vector.replicate 6 7)⟩
    let after := recv 900 .LV 2 ++ [.wait (msec 1500)]
    let s := run (Timed.step mvrp) start before
    let left := s.act mvrp leaving
    let s' := run (Timed.step mvrp) left after
    Along (Timed.step mvrp) (Timed.Prompt mvrp) start (before ++ .act leaving :: after) ∧
      mvrp.reg s.d 1 = some .IN ∧ mvrp.reg left.d 1 = some .LV ∧
      Along (Timed.step mvrp) (Timed.Unjoined mvrp 1) left after ∧
      mvrp.reg s'.d 1 = some .LV ∧ left.clock + lvTimerVal < s'.clock := by
  decide

theorem participants_leaveInTime :
    mvrp.LeavesInTime ∧ mmrp.LeavesInTime ∧ msrp.LeavesInTime :=
  ⟨mvrp_lawful.leavesInTime, mmrp_lawful.leavesInTime, msrp_lawful.leavesInTime⟩

def Database.LeavePending (db : Database V) : Prop :=
  db.mrpDb.lvTimerRunning = true ∧ db.mrpDb.lvTimer.isSome = true

theorem Participant.Lawful.act_leavePending (hP : P.Lawful) (env : Env) {d : D} {act : Act V C}
    (ht : Tidy P.key (P.base d).attribList) {k : K}
    (hk : P.reg (P.act env d act).1 k = some .LV) :
    (P.base (P.act env d act).1).LeavePending ∨
      P.reg d k = some .LV ∧
        ((P.base d).LeavePending → (P.base (P.act env d act).1).LeavePending) := by
  have hact : act ≠ .timer .leave := by
    cases hP.act_leave env d act ht with
    | started hact h timer => exact hact
    | fired hact h => exact absurd hk (h k)
    | kept hact h timer => exact hact
  have hbefore (h : ¬ EntersLv P.key (P.base d) (P.base (P.act env d act).1) k) :
      P.reg d k = some .LV := by
    rcases hP.act_reg env ht hk with ⟨c, -, -, horigin⟩ | ⟨-, hreg⟩
    · exact horigin.of_lv.2.resolve_left fun hin => h ⟨hin, hk⟩
    · exact hreg
  cases hP.act_spec env d act ht with
  | called c hc db spec pruned spared =>
    unfold Database.LeavePending
    rw [pruned.lvTimerRunning, pruned.lvTimer]
    cases spec.leave with
    | started h timer running => exact Or.inl ⟨running, by rw [timer]; rfl⟩
    | kept h timer running =>
      rw [if_neg (hP.act_ne_leave hc hact)] at timer running
      rw [timer, running]
      exact Or.inr ⟨hbefore (mt (entersLv_pruned spec pruned spared k).mp (h k)), id⟩
  | collected hact' spec =>
    rcases hP.act_reg env ht hk with ⟨c, hc, -, -⟩ | ⟨-, hreg⟩
    all_goals grind [call, Database.LeavePending, Collected.mrpDb]
  | idle hact' hc' pruned hn =>
    rcases hP.act_reg env ht hk with ⟨c, hc, -, -⟩ | ⟨-, hreg⟩
    all_goals grind [Database.LeavePending, Pruned.lvTimerRunning, Pruned.lvTimer]

structure LeaveInv (P : Participant V K D C) (d : D) : Prop where
  tidy : Tidy P.key (P.base d).attribList
  pending : ∀ k, P.reg d k = some .LV → (P.base d).LeavePending

theorem LeaveInv.step (hP : P.Lawful) {d : D} (h : LeaveInv P d) (i : Input V C) :
    LeaveInv P (P.step d i) where
  tidy := hP.act_tidy i.env i.act h.tidy
  pending k hk := by
    rcases hP.act_leavePending i.env h.tidy hk with hnew | ⟨hold, hkeep⟩
    · exact hnew
    · exact hkeep (h.pending k hold)

/-- Whatever happens to a new database, no registrar is in `LV` without a pending
expiry of the leave timer. -/
def Participant.LeavesPending (P : Participant V K D C) : Prop :=
  ∀ (d : D) (is : List (Input V C)), P.initial d →
    ∀ a ∈ (P.base (run P.step d is)).attribList, a.registrar.mrpState = .LV →
      (P.base (run P.step d is)).LeavePending

theorem Participant.Lawful.leavesPending (hP : P.Lawful) : P.LeavesPending := by
  intro d is hd a ha hlv
  have hstart : LeaveInv P d := by
    refine ⟨hP.initial_tidy hd, fun k hk => ?_⟩
    simp [Participant.reg, cellAt, attribAt, hP.initial_attribs d hd, KeyedList.get] at hk
  have hstep (d : D) (i : Input V C) (_ : True) (h : LeaveInv P d) : LeaveInv P (P.step d i) :=
    h.step hP i
  have hrun : LeaveInv P (run P.step d is) :=
    run_invariant hstep d is hstart (along_of_forall_mem (fun _ _ _ => trivial) d)
  refine hrun.pending (P.key a.value) ?_
  simp [Participant.reg, cellAt, attribAt_of_mem hrun.tidy.unique ha, Attrib.cell, hlv]

theorem participants_leavesPending :
    mvrp.LeavesPending ∧ mmrp.LeavesPending ∧ msrp.LeavesPending :=
  ⟨mvrp_lawful.leavesPending, mmrp_lawful.leavesPending, msrp_lawful.leavesPending⟩

end Avb4Linux.Mrp
