import Avb4Linux.Mrp.Frames
import Avb4Linux.Mrp.LeaveTimer
import Avb4Linux.Mrp.MvrpCodec

/-!
# One MVRP participant on a link

What an act does to the cell of one VID and to the timers, and which events the peer decodes from
the PDU of a timer event.
-/

namespace Avb4Linux.Mrp

open Lib Lib.Runs

theorem mvrp_mergeForces (r : Attrib Vid) (l : List (Attrib Vid)) :
    mergeForces mvrpOps mvrp.key r l = false := by
  unfold mergeForces
  cases attribAt mvrp.key l (mvrp.key r.value) with
  | none => rfl
  | some a =>
    have hstate : (mvrpOps.merge l r a).registrar.mrpState = a.registrar.mrpState := rfl
    grind

theorem mvrp_call_forced {d : Database Vid} {act : Act Vid (Cmd Vid)} {c : Call Vid}
    (hc : mvrp.call d act = some c) : c.forced = false := by
  cases act with
  | cmd cmd client =>
    simp only [Participant.call, Option.map_eq_some_iff] at hc
    obtain ⟨x, -, rfl⟩ := hc
    exact mvrp_mergeForces _ _
  | pdu e v src =>
    obtain rfl := Option.some.inj hc
    exact mvrp_mergeForces _ _
  | leaveAll v src =>
    obtain rfl := Option.some.inj hc
    rfl
  | timer t =>
    obtain rfl := Option.some.inj hc
    rfl
  | bye client => exact absurd hc (by simp [Participant.call])
  | reclaim => exact absurd hc (by simp [Participant.call])

theorem mvrp_tidy {d : Database Vid} (ht : Tidy mvrp.key d.attribList) (env : Env)
    (act : Act Vid (Cmd Vid)) : Tidy mvrp.key (mvrp.act env d act).1.attribList :=
  mvrp_lawful.act_tidy env act ht

def mvrpCell (d : Database Vid) (v : Vid) : Option Cell :=
  cellAt mvrp.key d.attribList v

variable {d : Database Vid} {v : Vid}

theorem mvrpCell_called (ht : Tidy mvrp.key d.attribList) {act : Act Vid (Cmd Vid)}
    {c : Call Vid} (hc : mvrp.call d act = some c) (env : Env) (v : Vid) :
    mvrpCell (mvrp.act env d act).1 v =
      if c.scope v then (cellStep true c.event false (mvrpCell d v)).1 else mvrpCell d v := by
  cases mvrp_lawful.act_spec env d act ht with
  | called c' hc' db spec pruned spared =>
    obtain rfl := Option.some.inj (hc.symm.trans hc')
    have hcell := spec.cell v
    rw [mvrp_call_forced hc] at hcell
    exact (pruned_cells rfl pruned v).trans hcell
  | collected hact spec =>
    subst hact
    exact absurd hc (by simp [Participant.call])
  | idle hact hnone pruned hn => exact absurd (hc.symm.trans hnone) (by simp)

variable {c : Cell} {s : AppState} {j now : Nat} {env : Env} {t : Timer}

theorem mvrpCell_idle (ht : Tidy mvrp.key d.attribList) {act : Act Vid (Cmd Vid)}
    (hc : mvrp.call d act = none) (env : Env) (hcell : mvrpCell d v = some c)
    (hkeep : c.reclaimable = false) : mvrpCell (mvrp.act env d act).1 v = some c := by
  cases mvrp_lawful.act_spec env d act ht with
  | called c' hc' db spec pruned spared => exact absurd (hc.symm.trans hc') (by simp)
  | collected hact spec =>
    have hk : mvrpCell (mvrp.act env d act).1 v =
        ((mvrpCell d v).elim (none, []) fun c => settle true c .NONE).1 :=
      congrArg Prod.fst (spec.cells v)
    rw [hk, hcell]
    simp [settle, hkeep]
  | idle hact hnone pruned hn => exact (pruned_cells rfl pruned v).trans hcell

theorem mvrpCell_pdu (ht : Tidy mvrp.key d.attribList) (env : Env) (e : PduEvent) (w : Vid)
    (src : MacAddr) :
    mvrpCell (mvrp.act env d (.pdu e w src)).1 v =
      if v = w then (cellStep true e.received false (mvrpCell d v)).1 else mvrpCell d v := by
  have hcall : mvrp.call d (.pdu e w src) =
      some (mvrp.attribCall d e.received (receivedAttrib src w)) := rfl
  have hscope : (mvrp.attribCall d e.received (receivedAttrib src w)).scope v = decide (v = w) :=
    rfl
  rw [mvrpCell_called ht hcall env v, hscope]
  by_cases hv : v = w
  · rw [if_pos hv, if_pos (decide_eq_true hv)]
    rfl
  · rw [if_neg hv, if_neg (by simpa using hv)]

theorem mvrpCell_leaveAll (ht : Tidy mvrp.key d.attribList) (env : Env) (x : Option Vid)
    (src : MacAddr) (hcell : mvrpCell d v = some c) :
    mvrpCell (mvrp.act env d (.leaveAll x src)).1 v =
      some ⟨applicantNext c.app .RLA (c.reg = .IN), (regStep c.reg .RLA).1⟩ := by
  have hcall : mvrp.call d (.leaveAll x src) =
      some { event := .RLA, scope := keysWith mvrp.key (mvrp.selects x) d.attribList } := rfl
  have hscope : keysWith mvrp.key (mvrp.selects x) d.attribList v = true := by
    obtain ⟨a, ha, -⟩ := Option.map_eq_some_iff.mp hcell
    rw [keysWith, ha]
    rfl
  rw [mvrpCell_called ht hcall env v]
  dsimp only
  rw [if_pos hscope, hcell]
  rfl

theorem cellStep_kept {event : Event} (hev : isAttribEvent event = true)
    (hkeep : Cell.reclaimable ⟨applicantNext c.app event (c.reg = .IN),
      (remapStep event c.reg).1⟩ = false) :
    (cellStep true event false (some c)).1 =
      some ⟨applicantNext c.app event (c.reg = .IN), (remapStep event c.reg).1⟩ := by
  rw [cellStep_attrib true hev false (by simp)]
  simp [settle, hkeep]

theorem Cell.reclaimable_of_reg (h : c.reg ≠ .MT) : c.reclaimable = false := by
  unfold Cell.reclaimable
  rw [decide_eq_false h, Bool.false_and]

theorem remapStep_received_ne_mt {r : RegState} (h : r ≠ .MT) (e : PduEvent) :
    (remapStep e.received r).1 ≠ .MT := by
  cases r <;> cases e <;> first | exact absurd rfl h | decide

def Received.Spares (v : Vid) (r : Received Vid) : Prop :=
  r.event ≠ .RLA ∧ (r.value = some v → r.event ≠ .RLV)

def Received.Registers (v : Vid) (r : Received Vid) : Prop :=
  r.value = some v ∧ isJoin r.event = true

theorem registered_received (ht : Tidy mvrp.key d.attribList) (env : Env) (src : MacAddr)
    {r : Received Vid} (hr : r.Parsed) (hspare : r.Spares v) {x : RegState}
    (hreg : mvrp.reg d v = some x) (hx : x ≠ .MT) :
    ∃ y, mvrp.reg (mvrp.step d ⟨env, r.act src⟩) v = some y ∧ y ≠ .MT ∧
      (x = .IN ∨ r.Registers v → y = .IN) := by
  obtain ⟨c, hcell, rfl⟩ := Option.map_eq_some_iff.mp hreg
  have hcell : mvrpCell d v = some c := hcell
  cases hr with
  | leaveAll w => exact absurd rfl hspare.1
  | event e w =>
    have hact : (Received.act src ⟨e.received, some w⟩ : Act Vid (Cmd Vid)) = .pdu e w src := by
      cases e <;> rfl
    have hpdu := mvrpCell_pdu (v := v) ht env e w src
    unfold Participant.step Participant.reg
    rw [hact]
    by_cases hv : v = w
    · subst hv
      have hne := remapStep_received_ne_mt hx e
      have hkept := cellStep_kept (isAttribEvent_received e) (c := c)
        (Cell.reclaimable_of_reg hne)
      rw [if_pos rfl, hcell, hkept] at hpdu
      refine ⟨_, congrArg (Option.map Cell.reg) hpdu, hne, ?_⟩
      have hlv : e.received ≠ .RLV := hspare.2 rfl
      intro h
      have hin : c.reg = .IN ∨ isJoin e.received = true := h.imp id fun hj => hj.2
      cases hc : c.reg <;> rw [hc] at hin hx <;> cases e <;> first
        | rfl
        | exact absurd rfl hlv
        | exact absurd rfl hx
        | exact absurd hin (by decide)
    · rw [if_neg hv, hcell] at hpdu
      refine ⟨_, congrArg (Option.map Cell.reg) hpdu, hx, ?_⟩
      rintro (h | ⟨h, -⟩)
      · exact h
      · exact absurd (Option.some.inj h).symm hv

/-- A frame without LeaveAll and without a Leave for `v` keeps `v` registered, and
registers it if it holds a New or a Join for it. -/
theorem registered_frame (env : Env) (src : MacAddr) {rs : List (Received Vid)}
    (hparsed : ∀ r ∈ rs, r.Parsed) (hspare : ∀ r ∈ rs, r.Spares v)
    (ht : Tidy mvrp.key d.attribList) {x : RegState} (hreg : mvrp.reg d v = some x)
    (hx : x ≠ .MT) (h : x = .IN ∨ ∃ r ∈ rs, r.Registers v) :
    mvrp.reg (run mvrp.step d (frameInputs env src rs)) v = some .IN := by
  induction rs generalizing d x with
  | nil =>
    rcases h with rfl | ⟨r, hr, -⟩
    · exact hreg
    · exact absurd hr (by simp)
  | cons r rs ih =>
    obtain ⟨y, hy, hne, hin⟩ := registered_received ht env src (hparsed r (by simp))
      (hspare r (by simp)) hreg hx
    refine ih (fun q hq => hparsed q (by simp [hq])) (fun q hq => hspare q (by simp [hq]))
      (mvrp_lawful.act_tidy env (r.act src) ht) hy hne ?_
    grind

structure Unsent (v : Vid) (d : Database Vid) (j : Nat) : Prop where
  cell : ∃ c, mvrpCell d v = some c ∧ (c.app = .VP ∨ c.app = .VN)
  timer : d.mrpDb.joinTimer = some j
  running : d.mrpDb.joinTimerRunning = true

theorem Cell.reclaimable_of_app (h : c.app.declared = true) : c.reclaimable = false := by
  unfold Cell.reclaimable
  cases happ : c.app <;> rw [happ] at h <;> first | exact absurd h (by decide) | simp

theorem AppState.declared_of_unsent (h : s = .VP ∨ s = .VN) : s.declared = true := by
  rcases h with rfl | rfl <;> rfl

theorem applicantNext_unsent (h : s = .VP ∨ s = .VN) {event : Event}
    (hev : (∃ e : PduEvent, event = e.received) ∨ event = .RLA ∨ event = .NEW ∨ event = .JOIN ∨
      event = .PERIODIC) (b : Bool) :
    applicantNext s event b = .VP ∨ applicantNext s event b = .VN := by
  rcases hev with ⟨e, rfl⟩ | rfl | rfl | rfl | rfl
  · rcases h with rfl | rfl <;> cases e <;> cases b <;> decide
  all_goals rcases h with rfl | rfl <;> cases b <;> decide

theorem join_kept (ht : Tidy mvrp.key d.attribList) (env : Env) {act : Act Vid (Cmd Vid)}
    (hjoin : act ≠ .timer .join) (hlva : act ≠ .timer .leaveAll) (hj : d.mrpDb.joinTimer = some j)
    (hrun : d.mrpDb.joinTimerRunning = true) :
    (mvrp.act env d act).1.mrpDb.joinTimer = some j ∧
      (mvrp.act env d act).1.mrpDb.joinTimerRunning = true := by
  cases mvrp_lawful.act_spec env d act ht with
  | called c hc db spec pruned spared =>
    have hne : c.event ≠ .LVATIMER ∧ c.event ≠ .TX :=
      ⟨fun h => hlva (mvrp_lawful.call_timer (t := .leaveAll) hc h).1,
        fun h => hjoin (mvrp_lawful.call_timer (t := .join) hc h).1⟩
    have hdb : db.mrpDb.joinTimer = some j ∧ db.mrpDb.joinTimerRunning = true := by
      cases spec.join with
      | stopped h timer running =>
        grind
      | restarted h timer running => exact absurd h hne.2
      | started h timer running =>
        refine ⟨timer.trans ?_, running⟩
        have hstart : (mrpJointimerStart env.now d.mrpDb).joinTimer = d.mrpDb.joinTimer := by
          simp [mrpJointimerStart, hrun]
        exact hstart.trans hj
      | kept h apps timer running => exact ⟨timer.trans hj, running.trans hrun⟩
    exact ⟨pruned.joinTimer.trans hdb.1, pruned.joinTimerRunning.trans hdb.2⟩
  | collected hact spec =>
    have hdb : (mvrp.act env d act).1.mrpDb = d.mrpDb := spec.mrpDb
    rw [hdb]
    exact ⟨hj, hrun⟩
  | idle hact hnone pruned hn =>
    exact ⟨pruned.joinTimer.trans hj, pruned.joinTimerRunning.trans hrun⟩

theorem cellStep_unsent {event : Event}
    (hev : (∃ e : PduEvent, event = e.received) ∨ event = .RLA ∨ event = .NEW ∨ event = .JOIN ∨
      event = .PERIODIC ∨ event = .LVTIMER) (h : c.app = .VP ∨ c.app = .VN) :
    ∃ c', (cellStep true event false (some c)).1 = some c' ∧ (c'.app = .VP ∨ c'.app = .VN) := by
  have hattrib : ∀ ev : Event, isAttribEvent ev = true →
      ((∃ e : PduEvent, ev = e.received) ∨ ev = .RLA ∨ ev = .NEW ∨ ev = .JOIN ∨ ev = .PERIODIC) →
      ∃ c', (cellStep true ev false (some c)).1 = some c' ∧ (c'.app = .VP ∨ c'.app = .VN) := by
    intro ev hattr hkind
    have hnext := applicantNext_unsent h hkind (c.reg = .IN)
    exact ⟨_, cellStep_kept hattr (Cell.reclaimable_of_app (AppState.declared_of_unsent hnext)),
      hnext⟩
  rcases hev with ⟨e, rfl⟩ | rfl | rfl | rfl | rfl | rfl
  · exact hattrib _ (isAttribEvent_received e) (Or.inl ⟨e, rfl⟩)
  · exact ⟨_, rfl, applicantNext_unsent h (by simp) _⟩
  · exact hattrib _ rfl (by simp)
  · exact hattrib _ rfl (by simp)
  · exact ⟨_, rfl, applicantNext_unsent h (by simp) _⟩
  · exact ⟨_, settle_declared true (c := ⟨c.app, _⟩) _ (AppState.declared_of_unsent h), h⟩

theorem Cmd.request_event {cmd : Cmd Vid} {x : Event × Vid} (h : cmd.request = some x) :
    x.1 = .LV ∨ x.1 = .JOIN ∨ x.1 = .NEW := by
  cases cmd with
  | lv w => exact Or.inl (congrArg Prod.fst (Option.some.inj h)).symm
  | join w => exact Or.inr (Or.inl (congrArg Prod.fst (Option.some.inj h)).symm)
  | new w => exact Or.inr (Or.inr (congrArg Prod.fst (Option.some.inj h)).symm)
  | query => exact absurd h (by simp [Cmd.request])
  | invalid => exact absurd h (by simp [Cmd.request])

theorem mvrp_requestFor {cmd : Cmd Vid} {client : SockAddr} {x : Event × Vid}
    (hx : mvrp.request cmd client d = some x) (hkey : v = x.2) :
    mvrp.requestFor v d (.cmd cmd client) = some x.1 := by
  have hsame : mvrp.key x.2 = v := hkey.symm
  rw [Participant.requestFor, hx, Option.bind_some, if_pos hsame]

theorem Unsent.act (h : Unsent v d j) (ht : Tidy mvrp.key d.attribList) (env : Env)
    {act : Act Vid (Cmd Vid)} (hjoin : act ≠ .timer .join) (hlva : act ≠ .timer .leaveAll)
    (hreq : mvrp.requestFor v d act ≠ some .LV) : Unsent v (mvrp.act env d act).1 j := by
  obtain ⟨c, hcell, happ⟩ := h.cell
  obtain ⟨htimer, hrunning⟩ := join_kept ht env hjoin hlva h.timer h.running
  refine ⟨?_, htimer, hrunning⟩
  cases hc : mvrp.call d act with
  | none =>
    exact ⟨c, mvrpCell_idle ht hc env hcell
      (Cell.reclaimable_of_app (AppState.declared_of_unsent happ)), happ⟩
  | some cl =>
    rw [mvrpCell_called ht hc env v, hcell]
    split
    · rename_i hscope
      refine cellStep_unsent ?_ happ
      cases act with
      | cmd cmd client =>
        simp only [Participant.call, Option.map_eq_some_iff] at hc
        obtain ⟨x, hx, rfl⟩ := hc
        have hkey : v = x.2 := of_decide_eq_true hscope
        rw [mvrp_requestFor hx hkey] at hreq
        rcases Cmd.request_event hx with hkind | hkind | hkind
        · exact absurd (congrArg some hkind) hreq
        · exact Or.inr (Or.inr (Or.inr (Or.inl hkind)))
        · exact Or.inr (Or.inr (Or.inl hkind))
      | pdu e w src =>
        obtain rfl := Option.some.inj hc
        exact Or.inl ⟨e, rfl⟩
      | leaveAll w src =>
        obtain rfl := Option.some.inj hc
        exact Or.inr (Or.inl rfl)
      | timer t =>
        obtain rfl := Option.some.inj hc
        cases t with
        | join => exact absurd rfl hjoin
        | leaveAll => exact absurd rfl hlva
        | leave => exact Or.inr (Or.inr (Or.inr (Or.inr (Or.inr rfl))))
        | periodic => exact Or.inr (Or.inr (Or.inr (Or.inr (Or.inl rfl))))
      | bye client => exact absurd hc (by simp [Participant.call])
      | reclaim => exact absurd hc (by simp [Participant.call])
    · exact ⟨c, rfl, happ⟩

theorem Received.requestFor (src : MacAddr) (r : Received Vid) (d : Database Vid) (v : Vid) :
    mvrp.requestFor v d (r.act src) = none := by
  unfold Received.act
  split <;> rfl

theorem Unsent.frame (env : Env) (src : MacAddr) (rs : List (Received Vid)) (h : Unsent v d j)
    (ht : Tidy mvrp.key d.attribList) : Unsent v (run mvrp.step d (frameInputs env src rs)) j := by
  induction rs generalizing d with
  | nil => exact h
  | cons r rs ih =>
    have hact := h.act ht env (r.act_ne_timer src .join) (r.act_ne_timer src .leaveAll)
      (by rw [r.requestFor]; simp)
    exact ih hact (mvrp_lawful.act_tidy env (r.act src) ht)

theorem applicantNext_rla (h : s.declared = true) (b : Bool) :
    applicantNext s .RLA b = .VP ∨ applicantNext s .RLA b = .VN := by
  cases s <;> first | exact absurd h (by decide) | (cases b <;> decide)

theorem join_leaveAll (env : Env) (x : Option Vid) (src : MacAddr) :
    (mvrp.act env d (.leaveAll x src)).1.mrpDb.joinTimer =
        (mrpJointimerStart env.now d.mrpDb).joinTimer ∧
      (mvrp.act env d (.leaveAll x src)).1.mrpDb.joinTimerRunning = true := by
  have hdb : (mvrp.act env d (.leaveAll x src)).1.mrpDb =
      mrpLvatimerFsm env.now env.rnd (fsmAll env.now .RLA (fun _ => true)
        (mrpJointimerStart env.now d.mrpDb) d.attribList).1 .RLA := rfl
  rw [hdb, mrpLvatimerFsm_joinTimer, mrpLvatimerFsm_joinTimerRunning, fsmAll_eq]
  dsimp only
  split <;> exact ⟨rfl, rfl⟩

/-- A database between acts: no LeaveAll flag is left over, a running join timer
is not overdue and expires within `MRP_JOINTIMER_VAL`, and all VIDs have twelve bits. -/
structure Sound (now : Nat) (d : Database Vid) : Prop where
  tidy : Tidy mvrp.key d.attribList
  noLva : d.mrpDb.lva.tx = false
  join : d.mrpDb.joinTimerRunning = true →
    ∃ j, d.mrpDb.joinTimer = some j ∧ now ≤ j ∧ j ≤ now + joinTimerVal
  vids : ∀ w, 0xFFF < w → mvrpCell d w = none

def Act.VidsOk : Act Vid (Cmd Vid) → Prop
  | .cmd c _ => ∀ x, c.request = some x → ¬ 0xFFF < x.2
  | .pdu _ w _ => ¬ 0xFFF < w
  | _ => True

theorem mrpJointimerStart_bound {m : MrpDatabase}
    (h : m.joinTimerRunning = true →
      ∃ j, m.joinTimer = some j ∧ now ≤ j ∧ j ≤ now + joinTimerVal) :
    ∃ j, (mrpJointimerStart now m).joinTimer = some j ∧ now ≤ j ∧ j ≤ now + joinTimerVal := by
  unfold mrpJointimerStart
  dsimp only
  split
  all_goals grind

theorem unsent_of_leaveAll (hs : Sound env.now d) (hdecl : mvrp.Declares d v) (x : Option Vid)
    (src : MacAddr) :
    ∃ j, env.now ≤ j ∧ j ≤ env.now + joinTimerVal ∧
      Unsent v (mvrp.act env d (.leaveAll x src)).1 j := by
  obtain ⟨c, hcell, happ⟩ := hdecl
  obtain ⟨htimer, hrunning⟩ := join_leaveAll (d := d) env x src
  obtain ⟨j, hj, hge, hle⟩ := mrpJointimerStart_bound hs.join
  exact ⟨j, hge, hle, ⟨_, mvrpCell_leaveAll hs.tidy env x src hcell, applicantNext_rla happ _⟩,
    htimer.trans hj, hrunning⟩

theorem act_join_bound (hs : Sound env.now d) (act : Act Vid (Cmd Vid))
    (hrun : (mvrp.act env d act).1.mrpDb.joinTimerRunning = true) :
    ∃ j, (mvrp.act env d act).1.mrpDb.joinTimer = some j ∧ env.now ≤ j ∧
      j ≤ env.now + joinTimerVal := by
  cases mvrp_lawful.act_spec env d act hs.tidy with
  | called c hc db spec pruned spared =>
    have hrun' : db.mrpDb.joinTimerRunning = true := pruned.joinTimerRunning.symm.trans hrun
    have hsame : (mvrp.act env d act).1.mrpDb.joinTimer = db.mrpDb.joinTimer := pruned.joinTimer
    rw [hsame]
    cases spec.join with
    | stopped h timer running => exact absurd (running.symm.trans hrun') (by decide)
    | restarted h timer running => exact ⟨_, timer, Nat.le_add_right _ _, Nat.le_refl _⟩
    | started h timer running =>
      obtain ⟨j, hj, hbound⟩ := mrpJointimerStart_bound hs.join
      exact ⟨j, timer.trans hj, hbound⟩
    | kept h apps timer running =>
      rw [timer]
      exact hs.join (running.symm.trans hrun')
  | collected hact spec =>
    have hdb : (mvrp.act env d act).1.mrpDb = d.mrpDb := spec.mrpDb
    rw [hdb] at hrun ⊢
    exact hs.join hrun
  | idle hact hnone pruned hn =>
    have hsame : (mvrp.act env d act).1.mrpDb.joinTimer = d.mrpDb.joinTimer := pruned.joinTimer
    rw [hsame]
    exact hs.join (pruned.joinTimerRunning.symm.trans hrun)

theorem cellStep_none {event : Event} (hev : isAttribEvent event = false) :
    (cellStep true event false none).1 = none := by
  cases event <;> first | rfl | exact absurd hev (by decide)

theorem attribFsm_lva (env : Env) (event : Event) (w : Vid) (db : Database Vid) :
    (attribFsm mvrpOps env true event w db).1.mrpDb.lva = db.mrpDb.lva := by
  have hremap : ∀ r : Registrar, (remapRegistrar env.now event r db.mrpDb).2.lva =
      db.mrpDb.lva := by
    intro r
    unfold remapRegistrar
    split <;> simp only [mrpRegistrarFsm_eq] <;> split <;> rfl
  grind [attribFsm]

theorem mvrpEvent_attrib_lva (env : Env) {event : Event} (hev : isAttribEvent event = true)
    (r : Attrib Vid) (db : Database Vid) :
    (mvrpEvent env event (some r) db).1.mrpDb.lva = db.mrpDb.lva := by
  have hbranch : (attribBranch mvrpOps env true event r db).1.mrpDb.lva = db.mrpDb.lva := by
    unfold attribBranch
    dsimp only
    split
    · rfl
    · exact attribFsm_lva env event r.value _
  have heq : (mvrpEvent env event (some r) db).1.mrpDb =
      (attribBranch mvrpOps env true event r db).1.mrpDb := by
    cases event <;> first
      | exact absurd hev (by decide)
      | (unfold mvrpEvent; dsimp only; split <;> rfl)
  rw [heq, hbranch]

theorem act_noLva (env : Env) (act : Act Vid (Cmd Vid)) (h : d.mrpDb.lva.tx = false) :
    (mvrp.act env d act).1.mrpDb.lva.tx = false := by
  cases act with
  | cmd c client =>
    have hact : (mvrp.act env d (.cmd c client)).1 = (mvrpRecvCmd env c client d).1 := rfl
    rw [hact, mvrpRecvCmd, recvCmd]
    cases hreq : c.request with
    | none => exact h
    | some x =>
      dsimp only
      rw [mvrpEvent_attrib_lva env (isAttribEvent_request hreq)]
      exact h
  | bye client => exact h
  | pdu e w src =>
    have hact : (mvrp.act env d (.pdu e w src)).1 =
        (mvrpEvent env e.received (some (receivedAttrib src w)) d).1 := rfl
    rw [hact, mvrpEvent_attrib_lva env (isAttribEvent_received e)]
    exact h
  | leaveAll x src => rfl
  | timer t =>
    cases t with
    | join =>
      have hact : (mvrp.act env d (.timer .join)).1.mrpDb =
          (txBranch env (mvrpTxpdu env false) d).1.mrpDb := rfl
      rw [hact, txBranch]
      dsimp only
      split <;> rfl
    | leave =>
      have hact : (mvrp.act env d (.timer .leave)).1.mrpDb =
          (lvtimerAll env.now true (mrpLvtimerStop d.mrpDb) d.attribList).1 := rfl
      rw [hact, lvtimerAll_eq]
      exact h
    | leaveAll => rfl
    | periodic =>
      have hact : (mvrp.act env d (.timer .periodic)).1.mrpDb =
          if d.attribList.isEmpty then d.mrpDb else mrpJointimerStart env.now d.mrpDb := rfl
      rw [hact]
      split <;> exact h
  | reclaim => exact h

theorem act_vids (hs : Tidy mvrp.key d.attribList) (env : Env) {act : Act Vid (Cmd Vid)}
    (hok : act.VidsOk) {w : Vid} (hw : 0xFFF < w) (hnone : mvrpCell d w = none) :
    mvrpCell (mvrp.act env d act).1 w = none := by
  cases hc : mvrp.call d act with
  | some c =>
    rw [mvrpCell_called hs hc env w, hnone]
    split
    · rename_i hscope
      refine cellStep_none ?_
      cases act with
      | cmd cmd client =>
        simp only [Participant.call, Option.map_eq_some_iff] at hc
        obtain ⟨x, hx, rfl⟩ := hc
        have hkey : w = x.2 := of_decide_eq_true hscope
        exact absurd hw (hkey ▸ hok x hx)
      | pdu e u src =>
        obtain rfl := Option.some.inj hc
        have hkey : w = u := of_decide_eq_true hscope
        exact absurd hw (hkey ▸ hok)
      | leaveAll x src =>
        obtain rfl := Option.some.inj hc
        rfl
      | timer t =>
        obtain rfl := Option.some.inj hc
        exact t.event_not_attrib
      | bye client => exact absurd hc (by simp [Participant.call])
      | reclaim => exact absurd hc (by simp [Participant.call])
    · rfl
  | none =>
    cases mvrp_lawful.act_spec env d act hs with
    | called c' hc' db spec pruned spared => exact absurd (hc.symm.trans hc') (by simp)
    | collected hact spec =>
      have hk : mvrpCell (mvrp.act env d act).1 w =
          ((mvrpCell d w).elim (none, []) fun c => settle true c .NONE).1 :=
        congrArg Prod.fst (spec.cells w)
      rw [hk, hnone]
      rfl
    | idle hact hnone' pruned hn => exact (pruned_cells rfl pruned w).trans hnone

theorem Sound.act (hs : Sound env.now d) {act : Act Vid (Cmd Vid)} (hok : act.VidsOk) :
    Sound env.now (mvrp.act env d act).1 :=
  ⟨mvrp_lawful.act_tidy env act hs.tidy, act_noLva env act hs.noLva, act_join_bound hs act,
    fun _ hw => act_vids hs.tidy env hok hw (hs.vids _ hw)⟩

theorem Sound.later {now' : Nat} (hs : Sound now d) (h : now ≤ now')
    (hprompt : ∀ j, d.mrpDb.joinTimer = some j → now' ≤ j) : Sound now' d := by
  refine ⟨hs.tidy, hs.noLva, ?_, hs.vids⟩
  grind [EventSpec.join, join]

theorem Sound.mem_vids (hs : Sound now d) {a : Attrib Vid} (ha : a ∈ d.attribList) :
    ¬ 0xFFF < a.value := by
  intro hw
  have hcell : mvrpCell d a.value = some a.cell := by
    have hat : attribAt mvrp.key d.attribList a.value = some a := attribAt_of_mem hs.tidy.unique ha
    rw [mvrpCell, cellAt, hat]
    rfl
  exact absurd (hcell.symm.trans (hs.vids a.value hw)) (by simp)

def Timer.sent (t : Timer) (l : List (Attrib Vid)) : List (Received Vid) :=
  mvrpCalls (mvrpVidFormat.vects 0 (t = .leaveAll) (0, 0) (t.advance l))

def Timer.Fits (t : Timer) (d : Database Vid) : Prop :=
  pduLength mvrpFormats (t = .leaveAll) (t.advance d.attribList) + spareRoom ≤ maxFrameSize

instance Timer.decidableFits (t : Timer) (d : Database Vid) : Decidable (t.Fits d) :=
  inferInstanceAs (Decidable (_ ≤ _))

theorem Timer.mem_sent (ht : t = .join ∨ t = .leaveAll) {l : List (Attrib Vid)} {r : Received Vid}
    (hr : r ∈ t.sent l) :
    ∃ a ∈ l, ∃ e : PduEvent, r = ⟨e.received, some a.value⟩ ∧
      e.sndmsg = (t.applicant a).sndmsg := by
  obtain ⟨vec, hvec, hr⟩ := List.mem_flatMap.mp hr
  obtain ⟨x, hx, rfl⟩ := List.mem_map.mp hr
  obtain ⟨join, hevt⟩ := mvrpVidFormat.vectevt_vects vec hvec x hx
  obtain ⟨a, ha, hvalue, happ⟩ := mem_advance ht (mvrpVidFormat.fst_mem_vects vec hvec x hx)
  refine ⟨a, ha, x.2, ?_, ?_⟩
  · rw [← hvalue]
    rfl
  · rw [← happ]
    exact PduEvent.sndmsg_of_vectevt hevt

theorem Timer.sent_of_encode (ht : t = .join ∨ t = .leaveAll) {l : List (Attrib Vid)}
    {a : Attrib Vid} (ha : a ∈ l) (hencode : (t.applicant a).encode ≠ .OPTIONAL) :
    ∃ e : PduEvent, ⟨e.received, some a.value⟩ ∈ t.sent l ∧
      e.sndmsg = (t.applicant a).sndmsg := by
  have hwait : Waiting (t.advance l) := waiting_advance ht l
  obtain ⟨b, hb, hvalue, happ⟩ := exists_advance ht ha
  rw [← happ] at hencode
  obtain ⟨vec, hvec, e, he⟩ :
      ∃ vec ∈ mvrpVidFormat.vects 0 (t = .leaveAll) (0, 0) (t.advance l),
        ∃ e, (b, e) ∈ vec.values :=
    mvrpVidFormat.vects_complete (fun b hb _ _ => (hwait b hb).2) hb rfl (hwait b hb).1 hencode
  obtain ⟨join, hevt⟩ := mvrpVidFormat.vectevt_vects vec hvec (b, e) he
  refine ⟨e, List.mem_flatMap.mpr ⟨vec, hvec, List.mem_map.mpr ⟨(b, e), he, ?_⟩⟩, ?_⟩
  · rw [← hvalue]
    rfl
  · rw [← happ]
    exact PduEvent.sndmsg_of_vectevt hevt

theorem Timer.readable_vects (ht : t = .join ∨ t = .leaveAll) (hs : Sound now d)
    (hfits : t.Fits d) :
    ∀ vec ∈ mvrpVidFormat.vects 0 (t = .leaveAll) (0, 0) (t.advance d.attribList),
      MvrpReadable vec := by
  intro vec hvec
  refine ⟨mvrpVidFormat.wellFormed_vects vec hvec, mvrpVidFormat.fill_vects rfl vec hvec, ?_, ?_⟩
  · have hlen := mvrpVidFormat.length_messageBytes (t = .leaveAll) (t = .leaveAll) (0, 0)
      (t.advance d.attribList)
    obtain ⟨a, e, es, hvalues, -⟩ := mvrpVidFormat.wellFormed_vects vec hvec
    have hbytes := mvrpVidFormat.length_vectBytes (v := vec) (by simp [hvalues]) 0
    have hpart := mvrpVidFormat.length_vectBytes_le_body hvec
    have hne : (mvrpVidFormat.vects 0 (t = .leaveAll) (0, 0) (t.advance d.attribList)).isEmpty =
        false := by
      grind
    simp only [Timer.Fits, pduLength, mvrpFormats, List.foldr_cons, List.foldr_nil, spareRoom,
      maxFrameSize] at hfits
    simp only [VectorFormat.messageBytes, hne, Bool.false_eq_true, if_false, VectorFormat.message,
      List.length_append] at hlen
    unfold VectorFormat.vectEnd at hbytes
    omega
  · intro x hx
    obtain ⟨a, ha, hvalue, -⟩ := mem_advance ht (mvrpVidFormat.fst_mem_vects vec hvec x hx)
    rw [hvalue]
    exact hs.mem_vids ha

def deliver (env : Env) (pdu : Option Frame) (d : Database Vid) : Database Vid :=
  pdu.elim d fun frame => (mvrpRecvMsg env frame d).1

theorem deliver_timer (ht : t = .join ∨ t = .leaveAll) (hs : Sound now d) (hfits : t.Fits d)
    (env peer : Env) (d' : Database Vid) :
    deliver peer (mvrp.act env d (.timer t)).2.pdu d' =
      run mvrp.step d' (frameInputs peer env.stationAddr
        (mvrpFlag (t = .leaveAll) ++ t.sent d.attribList)) := by
  have hpdu : (mvrp.act env d (.timer t)).2.pdu = t.branch env (mvrpTxpdu env) d := by
    rcases ht with rfl | rfl <;> rfl
  obtain ⟨m, hbranch, hlva⟩ := t.branch_eq ht env (mvrpTxpdu env) d
  rw [hs.noLva, Bool.or_false] at hlva
  have hwait : Waiting (Database.mk m (t.advance d.attribList)).attribList :=
    Timer.waiting_advance ht _
  have hsent := mvrpTxpdu_of_waiting env hwait hfits
  dsimp only at hsent
  rw [hlva] at hsent
  rw [hpdu, hbranch, hsent]
  have hreadable := Timer.readable_vects ht hs hfits
  unfold Timer.sent
  set vs := mvrpVidFormat.vects 0 (t = .leaveAll) (0, 0) (t.advance d.attribList)
  obtain ⟨hhead, htail⟩ : (∀ vec ∈ vs.head?, vec.lva = decide (t = .leaveAll)) ∧
      ∀ vec ∈ vs.tail, vec.lva = false := mvrpVidFormat.lva_vects rfl
  have hflag : vs.head?.elim (decide (t = .leaveAll)) Vect.lva = decide (t = .leaveAll) := by
    cases hvs : vs.head? with
    | none => rfl
    | some vec => exact hhead vec hvs
  split
  · rename_i hnil
    cases hvs : vs with
    | nil =>
      rw [hvs] at hnil
      rcases ht with rfl | rfl
      · rfl
      · exact absurd hnil (by decide)
    | cons vec vs' =>
      rw [hvs] at hnil
      simp [VectorFormat.messageBytes, VectorFormat.message] at hnil
  · rename_i hne
    have hdest : mvrpCustomerBridgeAddr.length = 6 := rfl
    unfold deliver
    rw [Option.elim_some, mvrpRecvMsg_eq_run, frameSrc_mrpFrame hdest,
      mvrpParse_mrpFrame hreadable htail hne, hflag]

end Avb4Linux.Mrp
