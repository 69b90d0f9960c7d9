import Avb4Linux.Mrp.Declarations

/-!
# What a client is told about a VID

A LeaveAll takes the registrar to `LV` without a word, a Leave is reported at once.
-/

namespace Avb4Linux.Mrp

open Lib Lib.Runs

/-- The registration counts as present: the registrar is `IN`, or in `LV` because of
a LeaveAll. `none` is an attribute that is not there. -/
def present (silent : Bool) : Option RegState → Bool
  | some .IN => true
  | some .LV => silent
  | _ => false

/-- Whether `LV` is still due to a LeaveAll: a received Leave ends that, a LeaveAll
that finds the registrar `IN` begins it. -/
def silentAfter (event : Event) (r : Option RegState) (silent : Bool) : Bool :=
  match event with
  | .RLV => false
  | .LVATIMER | .RLA => if r = some .IN then true else silent
  | _ => silent

def Tells (n : Notify) (p : Bool) : Prop :=
  p = true ∧ (n = .NEW ∨ n = .JOIN) ∨ p = false ∧ n = .LV

instance (n : Notify) (p : Bool) : Decidable (Tells n p) :=
  inferInstanceAs (Decidable (_ ∨ _))

def isRemote : Event → Bool
  | .NEW | .JOIN | .LV => false
  | _ => true

def Truthful (before : Bool) (notes : List Notify) (after : Bool) : Prop :=
  notes = [] ∧ after = before ∨ ∃ n, notes = [n] ∧ Tells n after

theorem settle_truthful {p silent : Bool} {c : Cell} {n : Notify}
    (hquiet : n = .NONE → present silent (some c.reg) = p)
    (hsaid : n ≠ .NONE → Tells n (present silent (some c.reg))) :
    Truthful p (settle true c n).2 (present silent ((settle true c n).1.map Cell.reg)) := by
  unfold settle
  split
  · exact Or.inr ⟨.LV, rfl, Or.inr ⟨rfl, rfl⟩⟩
  · by_cases hn : n = .NONE
    · exact Or.inl ⟨by simp [hn], hquiet hn⟩
    · exact Or.inr ⟨n, by simp [hn], hsaid hn⟩

theorem remapStep_truthful {event : Event} (hev : isAttribEvent event = true)
    (hr : isRemote event = true) (r : RegState) (silent : Bool) :
    let x := remapStep event r
    let after := present (silentAfter event (some r) silent) (some x.1)
    if x.2 = .NONE then after = present silent (some r) else Tells x.2 after := by
  cases event <;> first
    | exact absurd hev (by decide)
    | exact absurd hr (by decide)
    | (cases r <;> cases silent <;> decide)

theorem lvtimer_truthful (r : RegState) (silent : Bool) :
    let x := regStep r .LVTIMER
    if x.2 = .NONE then present silent (some x.1) = present silent (some r)
    else Tells x.2 (present silent (some x.1)) := by
  cases r <;> cases silent <;> decide

theorem leaveAll_present {event : Event} (hev : event = .TXLA ∨ event = .RLA) (r : RegState)
    (silent : Bool) :
    present (if some r = some RegState.IN then true else silent) (some (regStep r event).1) =
      present silent (some r) := by
  rcases hev with rfl | rfl <;> cases r <;> cases silent <;> decide

theorem cellStep_truthful {event : Event} (hr : isRemote event = true) (c : Option Cell)
    (silent : Bool) :
    let x := cellStep true event false c
    Truthful (present silent (c.map Cell.reg)) x.2
      (present (silentAfter event (c.map Cell.reg) silent) (x.1.map Cell.reg)) := by
  intro x
  by_cases hev : isAttribEvent event = true
  · by_cases habs : event = .RMT ∧ c = none
    · obtain ⟨rfl, rfl⟩ := habs
      exact Or.inl ⟨rfl, rfl⟩
    · have hx : x = _ := cellStep_attrib true hev false habs
      have hreg := remapStep_truthful hev hr (c.getD Cell.fresh).reg silent
      have hbefore : present silent (some (c.getD Cell.fresh).reg) =
          present silent (c.map Cell.reg) := by cases c <;> rfl
      have hsilent : silentAfter event (some (c.getD Cell.fresh).reg) silent =
          silentAfter event (c.map Cell.reg) silent := by
        cases event <;> first | exact absurd hev (by decide) | rfl
      grind [Bool.false_eq_true, settle_truthful]
  · cases event with
    | LVTIMER =>
      cases c with
      | none => exact Or.inl ⟨rfl, rfl⟩
      | some c =>
        have hreg := lvtimer_truthful c.reg silent
        refine settle_truthful (c := ⟨c.app, _⟩) ?_ ?_
        · intro hn
          rw [if_pos hn] at hreg
          exact hreg
        · intro hn
          rw [if_neg hn] at hreg
          exact hreg
    | LVATIMER =>
      refine Or.inl ⟨rfl, ?_⟩
      cases c with
      | none => rfl
      | some c => exact leaveAll_present (Or.inl rfl) c.reg silent
    | RLA =>
      refine Or.inl ⟨rfl, ?_⟩
      cases c with
      | none => rfl
      | some c => exact leaveAll_present (Or.inr rfl) c.reg silent
    | TX => exact Or.inl ⟨rfl, by cases c <;> rfl⟩
    | PERIODIC => exact Or.inl ⟨rfl, by cases c <;> rfl⟩
    | _ => first | exact absurd rfl hev | exact absurd hr (by decide) | exact Or.inl ⟨rfl, rfl⟩

def registrarAt (db : Database Vid) (v : Vid) : Option RegState :=
  (cellAt mvrp.key db.attribList v).map Cell.reg

/-- A database watched by one client for one VID: whether the registrar's `LV` is due
to a LeaveAll, and the last notification about the VID that was sent to the client
since it is registered. -/
structure Watch where
  db : Database Vid
  silent : Bool := false
  last : Option Notify := none
  deriving DecidableEq, Repr

def Watch.silentNext (v : Vid) (s : Watch) : Act Vid (Cmd Vid) → Bool
  | .pdu .LV w _ => if w = v then false else s.silent
  | .leaveAll _ _ | .timer .leaveAll => if registrarAt s.db v = some .IN then true else s.silent
  | _ => s.silent

def Watch.step (v : Vid) (client : SockAddr) (s : Watch) (i : Input Vid (Cmd Vid)) : Watch :=
  let x := mvrp.act i.env s.db i.act
  { db := x.1
    silent := s.silentNext v i.act
    last :=
      if client ∈ x.1.mrpDb.clients then (notesAbout mvrp.key v x.2.notes).getLast?.or s.last
      else none }

structure Watch.Inv (v : Vid) (s : Watch) : Prop where
  tidy : Tidy mvrp.key s.db.attribList
  told : ∀ n, s.last = some n → Tells n (present s.silent (registrarAt s.db v))

theorem mergeForces_mvrp (r : Attrib Vid) (l : List (Attrib Vid)) :
    mergeForces mvrpOps mvrp.key r l = false := by
  unfold mergeForces
  cases attribAt mvrp.key l (mvrp.key r.value) with
  | none => rfl
  | some a => by_cases h : a.registrar.mrpState = .MT <;> simp [mvrpOps, mvrpMerge, h]

theorem Watch.silentNext_scope {v : Vid} {s : Watch} {act : Act Vid (Cmd Vid)} {c : Call Vid}
    (hc : mvrp.call s.db act = some c) (hk : c.scope v = true)
    (hreq : mvrp.requestFor v s.db act = none) :
    isRemote c.event = true ∧ c.forced = false ∧
      s.silentNext v act = silentAfter c.event (registrarAt s.db v) s.silent := by
  cases act with
  | cmd cmd client =>
    simp only [Participant.call, Option.map_eq_some_iff] at hc
    grind [Participant.attribCall, Participant.requestFor]
  | pdu e w src =>
    obtain rfl := Option.some.inj hc
    have hkey : w = v := by simpa [Participant.attribCall, mvrp, receivedAttrib, eq_comm] using hk
    refine ⟨?_, mergeForces_mvrp _ _, ?_⟩
    · cases e <;> rfl
    · cases e with
      | LV => exact if_pos hkey
      | _ => rfl
  | leaveAll w src =>
    obtain rfl := Option.some.inj hc
    exact ⟨rfl, rfl, rfl⟩
  | timer t =>
    obtain rfl := Option.some.inj hc
    cases t <;> exact ⟨rfl, rfl, rfl⟩
  | bye client => exact absurd hc (by simp [Participant.call])
  | reclaim => exact absurd hc (by simp [Participant.call])

theorem Watch.silentNext_other {v : Vid} {s : Watch} {act : Act Vid (Cmd Vid)}
    (hk : ∀ c, mvrp.call s.db act = some c → c.scope v = false) :
    s.silentNext v act = s.silent := by
  cases act with
  | pdu e w src =>
    have hne := hk _ rfl
    have hkey : w ≠ v := by
      rintro rfl
      simp [Participant.attribCall, mvrp, receivedAttrib] at hne
    cases e with
    | LV => exact if_neg hkey
    | _ => rfl
  | leaveAll w src =>
    have hne := hk _ rfl
    have habs : registrarAt s.db v = none := by
      simpa [keysWith, mvrp, registrarAt, cellAt] using hne
    exact if_neg (by rw [habs]; simp)
  | timer t => cases t <;> first | rfl | exact absurd (hk _ rfl) (by simp)
  | _ => rfl

theorem Watch.act_truthful {v : Vid} {s : Watch} (ht : Tidy mvrp.key s.db.attribList) (env : Env)
    {act : Act Vid (Cmd Vid)} (hreq : mvrp.requestFor v s.db act = none) :
    let x := mvrp.act env s.db act
    Truthful (present s.silent (registrarAt s.db v)) (notesAbout mvrp.key v x.2.notes)
      (present (s.silentNext v act) (registrarAt x.1 v)) := by
  intro x
  cases mvrp_lawful.act_spec env s.db act ht with
  | called c hc db spec pruned spared =>
    have hcell : registrarAt x.1 v = (cellAt mvrp.key db.attribList v).map Cell.reg :=
      congrArg (Option.map Cell.reg) (pruned_cells rfl pruned v)
    rw [hcell, spec.cell, spec.noted]
    by_cases hk : c.scope v = true
    · obtain ⟨hremote, hforced, hsilent⟩ := silentNext_scope hc hk hreq
      rw [if_pos hk, if_pos hk, hforced, hsilent]
      exact cellStep_truthful hremote _ s.silent
    · have hsilent : s.silentNext v act = s.silent := by
        refine silentNext_other fun c' hc' => ?_
        grind
      rw [if_neg hk, if_neg hk, hsilent]
      exact Or.inl ⟨rfl, rfl⟩
  | collected hact spec =>
    subst hact
    have hcells : (cellAt mvrp.key x.1.attribList v, notesAbout mvrp.key v x.2.notes) =
        (cellAt mvrp.key s.db.attribList v).elim (none, []) fun c => settle true c .NONE :=
      spec.cells v
    have hx : registrarAt x.1 v = _ := congrArg (fun y => y.1.map Cell.reg) hcells
    have hnotes : notesAbout mvrp.key v x.2.notes = _ := congrArg Prod.snd hcells
    rw [hx, hnotes]
    unfold registrarAt
    cases cellAt mvrp.key s.db.attribList v with
    | none => exact Or.inl ⟨rfl, rfl⟩
    | some c => exact settle_truthful (fun _ => rfl) (fun hn => absurd rfl hn)
  | idle hact hc pruned hn =>
    have hcell : registrarAt x.1 v = registrarAt s.db v :=
      congrArg (Option.map Cell.reg) (pruned_cells rfl pruned v)
    have hsilent : s.silentNext v act = s.silent :=
      silentNext_other fun c hc' => absurd (hc.symm.trans hc') (by simp)
    rw [hcell, hsilent, show x.2.notes = [] from hn]
    exact Or.inl ⟨rfl, rfl⟩

theorem Watch.step_inv {v : Vid} (client : SockAddr) (s : Watch) (i : Input Vid (Cmd Vid))
    (hreq : mvrp.requestFor v s.db i.act = none) (inv : s.Inv v) : (s.step v client i).Inv v := by
  refine ⟨mvrp_lawful.act_tidy i.env i.act inv.tidy, ?_⟩
  intro n hn
  simp only [step] at hn ⊢
  split at hn
  · rcases act_truthful inv.tidy i.env hreq with ⟨hquiet, hsame⟩ | ⟨m, hsaid, htells⟩
    · rw [hquiet, List.getLast?_nil, Option.none_or] at hn
      rw [hsame]
      exact inv.told n hn
    · grind
  · exact absurd hn (by simp)

/-- For a VID that no client requests, the last notification sent to a client since
its registration says present exactly when the registrar is `IN`, or is in `LV` since
a LeaveAll with no Leave received after it; otherwise it says Leave. -/
theorem mvrp_lastNotification (v : Vid) (client : SockAddr) (env : Env)
    (is : List (Input Vid (Cmd Vid)))
    (hreq : Along (Watch.step v client) (fun s i => mvrp.requestFor v s.db i.act = none)
      { db := mvrpInit env } is) (n : Notify)
    (hn : (run (Watch.step v client) { db := mvrpInit env } is).last = some n) :
    let s := run (Watch.step v client) { db := mvrpInit env } is
    let r := registrarAt s.db v
    ((n = .NEW ∨ n = .JOIN) ↔ r = some .IN ∨ r = some .LV ∧ s.silent = true) ∧
      (¬ (r = some .IN ∨ r = some .LV ∧ s.silent = true) → n = .LV) := by
  intro s r
  have hinit : Watch.Inv v { db := mvrpInit env } :=
    ⟨mvrp_lawful.initial_tidy ⟨env, rfl⟩, by simp⟩
  have hinv : s.Inv v := run_invariant (Watch.step_inv client) _ is hinit hreq
  have hiff : present s.silent r = true ↔ r = some .IN ∨ r = some .LV ∧ s.silent = true := by
    rcases r with _ | _ | _ | _ <;> simp [present]
  rw [← hiff]
  rcases hinv.told n hn with ⟨hp, hsays⟩ | ⟨hp, rfl⟩
  · exact ⟨⟨fun _ => hp, fun _ => hsays⟩, fun h => absurd hp h⟩
  · have hp' : present s.silent r = false := hp
    simp [hp']

def leaveAllAfterJoin : List (Input Vid (Cmd Vid)) :=
  [⟨{ now := 1 }, .cmd .query ⟨0, 7500⟩⟩, ⟨{ now := 2 }, .pdu .JOININ 7 (Vector.replicate 6 1)⟩,
    ⟨{ now := 3 }, .leaveAll none (Vector.replicate 6 1)⟩]

theorem mvrp_lastNotification_leaveAll :
    let s := run (Watch.step 7 ⟨0, 7500⟩) { db := mvrpInit { now := 0 } } leaveAllAfterJoin
    (s.last = some .JOIN ∧ registrarAt s.db 7 = some .LV ∧ s.silent = true) ∧
      ((Notify.JOIN = .NEW ∨ Notify.JOIN = .JOIN) ↔
        registrarAt s.db 7 = some .IN ∨ registrarAt s.db 7 = some .LV ∧ s.silent = true) :=
  ⟨by decide, (mvrp_lastNotification 7 ⟨0, 7500⟩ { now := 0 } leaveAllAfterJoin (by decide) .JOIN
    (by decide)).1⟩

end Avb4Linux.Mrp
