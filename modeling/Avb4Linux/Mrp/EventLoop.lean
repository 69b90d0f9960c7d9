import Avb4Linux.Mrp.Frames
import Avb4Linux.Mrp.LeaveTimer

/-!
# The event loop

`process_events` of `mrpd.c`.
-/

namespace Avb4Linux.Mrp

open Lib.Runs

inductive CtlMsg where
  | mmrp (c : Cmd MmrpValue)
  | mvrp (c : Cmd Vid)
  | msrp (c : MsrpCmd)
  | bye
  | unrecognized
  deriving DecidableEq, Repr

structure Mrpd where
  mmrp : Option (Database MmrpValue)
  mvrp : Option (Database Vid)
  msrp : Option MsrpDatabase
  periodicTimer : Nat
  gcTimer : Nat
  clock : Nat
  deriving DecidableEq, Repr

/-- `main` up to the loop: the protocols asked for are initialised, and the periodic
and the garbage-collection timer are started. -/
def mrpdInit (env : Env) (mmrpEnable mvrpEnable msrpEnable msrpPruning : Bool) : Mrpd where
  mmrp := if mmrpEnable then some (mmrpInit env) else none
  mvrp := if mvrpEnable then some (mvrpInit env) else none
  msrp := if msrpEnable then some (msrpInit env 8 msrpPruning) else none
  periodicTimer := env.now + msec 1000
  gcTimer := env.now + msec 30000
  clock := env.now

def processCtlMsg (env : Env) (msg : CtlMsg) (client : SockAddr) (m : Mrpd) : Mrpd :=
  match msg with
  | .mmrp c => { m with mmrp := m.mmrp.map fun d => (mmrpRecvCmd env c client d).1 }
  | .mvrp c => { m with mvrp := m.mvrp.map fun d => (mvrpRecvCmd env c client d).1 }
  | .msrp c => { m with msrp := m.msrp.map fun d => (msrpRecvCmd env c client d).1 }
  | .bye =>
    { m with
      mmrp := m.mmrp.map (mmrpBye client)
      mvrp := m.mvrp.map (mvrpBye client)
      msrp := m.msrp.map (msrpBye client) }
  | .unrecognized => m

structure Ready where
  frame : Option (Env × Frame) := none
  lvaTimer : Option Env := none
  lvTimer : Option Env := none
  joinTimer : Option Env := none
  deriving DecidableEq, Repr

def Ready.serve {V D : Type} (event : Env → Event → Option (Attrib V) → D → D × Effects V)
    (recvMsg : Env → Frame → D → D × List (Effects V)) (r : Ready) (d : D) : D :=
  let d := r.frame.elim d fun x => (recvMsg x.1 x.2 d).1
  let d := r.lvaTimer.elim d fun env => (event env .LVATIMER none d).1
  let d := r.lvTimer.elim d fun env => (event env .LVTIMER none d).1
  r.joinTimer.elim d fun env => (event env .TX none d).1

/-- One iteration: the time at which `select` returns, the descriptors it reports,
and the time at which the last handler is done. The handlers of the periodic timer
run at their own times. -/
structure Iteration where
  now : Nat
  control : Option (Env × CtlMsg × SockAddr) := none
  mmrp : Ready := {}
  mvrp : Ready := {}
  msrp : Ready := {}
  periodic : Option (Env × Env × Env) := none
  gc : Option Env := none
  done : Nat
  deriving DecidableEq, Repr

def mrpdReclaim (env : Env) (m : Mrpd) : Mrpd :=
  { m with
    mmrp := m.mmrp.map fun d => (mmrpReclaim d).1
    mvrp := m.mvrp.map fun d => (mvrpReclaim d).1
    msrp := m.msrp.map fun d => (msrpReclaim d).1
    gcTimer := env.now + msec 30000 }

def processEvents (m : Mrpd) (it : Iteration) : Mrpd :=
  let m := it.control.elim m fun x => processCtlMsg x.1 x.2.1 x.2.2 m
  let m := { m with mmrp := m.mmrp.map (it.mmrp.serve mmrpEvent mmrpRecvMsg) }
  let m := { m with mvrp := m.mvrp.map (it.mvrp.serve mvrpEvent mvrpRecvMsg) }
  let m := { m with msrp := m.msrp.map (it.msrp.serve msrpEvent msrpRecvMsg) }
  let m := it.periodic.elim m fun env =>
    { m with
      periodicTimer := env.1.now + msec 1000
      mmrp := m.mmrp.map fun d => (mmrpEvent env.1 .PERIODIC none d).1
      mvrp := m.mvrp.map fun d => (mvrpEvent env.2.1 .PERIODIC none d).1
      msrp := m.msrp.map fun d => (msrpEvent env.2.2 .PERIODIC none d).1 }
  let m := it.gc.elim m fun env => mrpdReclaim env m
  { m with clock := it.done }

structure Turn (V C : Type) where
  early : List (Input V C)
  leave : Option Env
  late : List (Input V C)

def Turn.inputs {V C : Type} (t : Turn V C) : List (Input V C) :=
  t.early ++ (t.leave.map fun env => ⟨env, .timer .leave⟩).toList ++ t.late

/-- The turn of a protocol: `ctl` picks the control messages that reach it, `parse`
decodes its frames, and `periodic` picks its part of the periodic event. -/
def Iteration.turn {V C : Type} (ctl : CtlMsg → SockAddr → Option (Act V C))
    (parse : Frame → List (Received V)) (periodic : Env × Env × Env → Env) (r : Ready)
    (it : Iteration) : Turn V C where
  early := (it.control.bind fun x => (ctl x.2.1 x.2.2).map fun a => ⟨x.1, a⟩).toList ++
    r.frame.elim [] (fun x => frameInputs x.1 (frameSrc x.2) (parse x.2)) ++
    (r.lvaTimer.map fun env => ⟨env, .timer .leaveAll⟩).toList
  leave := r.lvTimer
  late := (r.joinTimer.map fun env => ⟨env, .timer .join⟩).toList ++
    (it.periodic.map fun env => ⟨periodic env, .timer .periodic⟩).toList ++
    (it.gc.map fun env => ⟨env, .reclaim⟩).toList

def CtlMsg.mmrpAct (client : SockAddr) : CtlMsg → Option (Act MmrpValue (Cmd MmrpValue))
  | .mmrp c => some (.cmd c client)
  | .bye => some (.bye client)
  | _ => none

def CtlMsg.mvrpAct (client : SockAddr) : CtlMsg → Option (Act Vid (Cmd Vid))
  | .mvrp c => some (.cmd c client)
  | .bye => some (.bye client)
  | _ => none

def CtlMsg.msrpAct (client : SockAddr) : CtlMsg → Option (Act MsrpValue MsrpCmd)
  | .msrp c => some (.cmd c client)
  | .bye => some (.bye client)
  | _ => none

def Iteration.mmrpTurn (it : Iteration) : Turn MmrpValue (Cmd MmrpValue) :=
  it.turn (fun msg client => msg.mmrpAct client) mmrpParse (fun env => env.1) it.mmrp

def Iteration.mvrpTurn (it : Iteration) : Turn Vid (Cmd Vid) :=
  it.turn (fun msg client => msg.mvrpAct client) mvrpParse (fun env => env.2.1) it.mvrp

def Iteration.msrpTurn (it : Iteration) : Turn MsrpValue MsrpCmd :=
  it.turn (fun msg client => msg.msrpAct client) msrpParse (fun env => env.2.2) it.msrp

section

variable {V K D C : Type} (P : Participant V K D C)

theorem run_option_toList (d : D) (i : Option (Input V C)) :
    run P.step d i.toList = i.elim d (P.step d) := by
  cases i <;> rfl

theorem Ready.serve_eq_run {recvMsg : Env → Frame → D → D × List (Effects V)}
    {parse : Frame → List (Received V)}
    (hrecv : ∀ env frame d, (recvMsg env frame d).1 =
      run P.step d (frameInputs env (frameSrc frame) (parse frame))) (r : Ready) (d : D) :
    r.serve P.event recvMsg d =
      run P.step d (r.frame.elim [] (fun x => frameInputs x.1 (frameSrc x.2) (parse x.2)) ++
        (r.lvaTimer.map fun env => ⟨env, .timer .leaveAll⟩).toList ++
        (r.lvTimer.map fun env => ⟨env, .timer .leave⟩).toList ++
        (r.joinTimer.map fun env => ⟨env, .timer .join⟩).toList) := by
  obtain ⟨frame, lva, lv, join⟩ := r
  simp only [Ready.serve, run_append, run_option_toList]
  cases frame <;> cases lva <;> cases lv <;> cases join <;>
    simp [hrecv, Participant.step, Participant.act, Timer.event]

theorem run_turn {recvMsg : Env → Frame → D → D × List (Effects V)}
    {parse : Frame → List (Received V)}
    (hrecv : ∀ env frame d, (recvMsg env frame d).1 =
      run P.step d (frameInputs env (frameSrc frame) (parse frame)))
    (ctl : CtlMsg → SockAddr → Option (Act V C)) (periodic : Env × Env × Env → Env) (r : Ready)
    (it : Iteration) (d : D) :
    run P.step d (it.turn ctl parse periodic r).inputs =
      (let d := it.control.elim d fun x =>
        (ctl x.2.1 x.2.2).elim d fun act => (P.act x.1 d act).1
      let d := r.serve P.event recvMsg d
      let d := it.periodic.elim d fun env => (P.event (periodic env) .PERIODIC none d).1
      it.gc.elim d fun _ => (P.reclaim d).1) := by
  simp only [Ready.serve_eq_run P hrecv, Turn.inputs, Iteration.turn, run_append,
    run_option_toList]
  cases it.control with
  | none => cases it.periodic <;> cases it.gc <;> rfl
  | some x =>
    cases hctl : ctl x.2.1 x.2.2 <;> cases it.periodic <;> cases it.gc <;>
      simp [hctl, Participant.step, Participant.act, Timer.event]

end

theorem processEvents_mmrp (m : Mrpd) (it : Iteration) :
    (processEvents m it).mmrp = m.mmrp.map fun d => run mmrp.step d it.mmrpTurn.inputs := by
  have hrun := run_turn mmrp mmrpRecvMsg_eq_run (fun msg client => msg.mmrpAct client)
    (fun env => env.1) it.mmrp it
  simp only [Iteration.mmrpTurn, hrun]
  obtain ⟨now, control, _, _, _, periodic, gc, done⟩ := it
  cases hm : m.mmrp with
  | none =>
    rcases control with _ | ⟨_, msg, _⟩
    · cases periodic <;> cases gc <;> simp [processEvents, mrpdReclaim, hm]
    · cases periodic <;> cases gc <;> cases msg <;>
        simp [processEvents, processCtlMsg, mrpdReclaim, hm]
  | some d =>
    rcases control with _ | ⟨_, msg, _⟩
    · cases periodic <;> cases gc <;> simp [processEvents, mrpdReclaim, hm] <;> rfl
    · cases periodic <;> cases gc <;> cases msg <;>
        simp [processEvents, processCtlMsg, mrpdReclaim, hm] <;> rfl

theorem processEvents_mvrp (m : Mrpd) (it : Iteration) :
    (processEvents m it).mvrp = m.mvrp.map fun d => run mvrp.step d it.mvrpTurn.inputs := by
  have hrun := run_turn mvrp mvrpRecvMsg_eq_run (fun msg client => msg.mvrpAct client)
    (fun env => env.2.1) it.mvrp it
  simp only [Iteration.mvrpTurn, hrun]
  obtain ⟨now, control, _, _, _, periodic, gc, done⟩ := it
  cases hm : m.mvrp with
  | none =>
    rcases control with _ | ⟨_, msg, _⟩
    · cases periodic <;> cases gc <;> simp [processEvents, mrpdReclaim, hm]
    · cases periodic <;> cases gc <;> cases msg <;>
        simp [processEvents, processCtlMsg, mrpdReclaim, hm]
  | some d =>
    rcases control with _ | ⟨_, msg, _⟩
    · cases periodic <;> cases gc <;> simp [processEvents, mrpdReclaim, hm] <;> rfl
    · cases periodic <;> cases gc <;> cases msg <;>
        simp [processEvents, processCtlMsg, mrpdReclaim, hm] <;> rfl

theorem processEvents_msrp (m : Mrpd) (it : Iteration) :
    (processEvents m it).msrp = m.msrp.map fun d => run msrp.step d it.msrpTurn.inputs := by
  have hrun := run_turn msrp msrpRecvMsg_eq_run (fun msg client => msg.msrpAct client)
    (fun env => env.2.2) it.msrp it
  simp only [Iteration.msrpTurn, hrun]
  obtain ⟨now, control, _, _, _, periodic, gc, done⟩ := it
  cases hm : m.msrp with
  | none =>
    rcases control with _ | ⟨_, msg, _⟩
    · cases periodic <;> cases gc <;> simp [processEvents, mrpdReclaim, hm]
    · cases periodic <;> cases gc <;> cases msg <;>
        simp [processEvents, processCtlMsg, mrpdReclaim, hm]
  | some d =>
    rcases control with _ | ⟨_, msg, _⟩
    · cases periodic <;> cases gc <;> simp [processEvents, mrpdReclaim, hm] <;> rfl
    · cases periodic <;> cases gc <;> cases msg <;>
        simp [processEvents, processCtlMsg, mrpdReclaim, hm] <;> rfl

def Expired (timer : Option Nat) (now : Nat) : Prop :=
  ∃ e ∈ timer, e ≤ now

def Ready.Expired (r : Ready) (db : MrpDatabase) (now : Nat) : Prop :=
  (r.lvaTimer.isSome → Mrp.Expired db.lvaTimer now) ∧
    (r.lvTimer.isSome → Mrp.Expired db.lvTimer now) ∧
    (r.joinTimer.isSome → Mrp.Expired db.joinTimer now)

def Ordered {V C : Type} : Nat → List (Input V C) → Nat → Prop
  | t, [], t' => t ≤ t'
  | t, i :: is, t' => t ≤ i.env.now ∧ Ordered i.env.now is t'

/-- An iteration that can happen: time goes on, and a timer descriptor is reported
only if the timer had expired when `select` returned. -/
def Iteration.Possible (m : Mrpd) (it : Iteration) : Prop :=
  m.clock ≤ it.now ∧ it.now ≤ it.done ∧
    (∀ d ∈ m.mmrp, it.mmrp.Expired d.mrpDb it.now ∧ Ordered it.now it.mmrpTurn.inputs it.done) ∧
    (∀ d ∈ m.mvrp, it.mvrp.Expired d.mrpDb it.now ∧ Ordered it.now it.mvrpTurn.inputs it.done) ∧
    (∀ d ∈ m.msrp, it.msrp.Expired d.mrpDb it.now ∧ Ordered it.now it.msrpTurn.inputs it.done) ∧
    (it.periodic.isSome → m.periodicTimer ≤ it.now) ∧ (it.gc.isSome → m.gcTimer ≤ it.now)

instance (timer : Option Nat) (now : Nat) : Decidable (Expired timer now) :=
  inferInstanceAs (Decidable (∃ e ∈ timer, e ≤ now))

instance (r : Ready) (db : MrpDatabase) (now : Nat) : Decidable (r.Expired db now) :=
  inferInstanceAs (Decidable (_ ∧ _))

instance Ordered.decidable {V C : Type} :
    ∀ (t : Nat) (is : List (Input V C)) (t' : Nat), Decidable (Ordered t is t')
  | t, [], t' => inferInstanceAs (Decidable (t ≤ t'))
  | t, i :: is, t' =>
    have := Ordered.decidable i.env.now is t'
    inferInstanceAs (Decidable (t ≤ i.env.now ∧ Ordered i.env.now is t'))

instance (m : Mrpd) (it : Iteration) : Decidable (it.Possible m) :=
  inferInstanceAs (Decidable (_ ∧ _))

section

variable {V K D C : Type} [DecidableEq K]

def Participant.leaves (P : Participant V K D C) (d : D) (k : K) : Act V C → Bool
  | .cmd c client => (P.request c client d).any fun x => isLeave x.1 && P.key x.2 = k
  | .pdu e v _ => isLeave e.received && P.key v = k
  | .leaveAll v _ => keysWith P.key (P.selects v) (P.base d).attribList k
  | .timer .leaveAll => true
  | _ => false

def Participant.Undisturbed (P : Participant V K D C) (d : D) (i : Input V C) : Prop :=
  ∀ k, P.reg d k = some .IN → P.leaves d k i.act = false

def Turn.Undisturbed (P : Participant V K D C) (t : Turn V C) (d : D) : Prop :=
  t.leave.isSome → Along P.step P.Undisturbed d t.early

/-- A leave-timer event comes one `MRP_LVTIMER_VAL` or more after each registrar that
it finds in `LV` entered that state. -/
def Timed.LeaveInTime (P : Participant V K D C) (s : Timed K D) (i : Input V C) : Prop :=
  i.act = .timer .leave → ∀ k, P.reg s.d k = some .LV → s.entered k + lvTimerVal ≤ i.env.now

end

/-- An iteration in which, for each protocol whose leave timer is reported, no
registrar leaves `IN` before the leave-timer event is handled. -/
def Iteration.Undisturbed (m : Mrpd) (it : Iteration) : Prop :=
  (∀ d ∈ m.mmrp, it.mmrpTurn.Undisturbed Mrp.mmrp d) ∧
    (∀ d ∈ m.mvrp, it.mvrpTurn.Undisturbed Mrp.mvrp d) ∧
    (∀ d ∈ m.msrp, it.msrpTurn.Undisturbed Mrp.msrp d)

/-- A Leave for VID 1 arms the leave timer until 1010 ms. The `select` that reports it also
reports a frame with a Leave for VID 2, which is handled first: VID 2 goes from `LV` to `MT` in
the millisecond in which it entered `LV`. -/
theorem mvrp_leave_early :
    let frame (vid : UInt8) : Frame :=
      mvrpCustomerBridgeAddr ++ [2, 0, 0, 0, 0, 1, 0x88, 0xF5, 0, 1, 2, 0, 1, 0, vid, 180, 0, 0, 0, 0]
    let env (t : Nat) : Env := { now := msec t }
    let m := mrpdInit (env 0) false true false false
    let its : List Iteration :=
      [{ now := msec 1, control := some (env 1, .mvrp (.join 1), ⟨0, 0⟩), done := msec 1 },
        { now := msec 2, control := some (env 2, .mvrp (.join 2), ⟨0, 0⟩), done := msec 2 },
        { now := msec 10, mvrp := { frame := some (env 10, frame 1) }, done := msec 10 },
        { now := msec 1010
          mvrp := { frame := some (env 1010, frame 2), lvTimer := some (env 1010) }
          done := msec 1010 }]
    let inputs := its.flatMap fun it => it.mvrpTurn.inputs
    let s := run (Timed.act mvrp) (Timed.start (mvrpInit (env 0)) 0) (inputs.take 4)
    Along processEvents (fun m it => it.Possible m) m its ∧
      inputs.drop 4 = [⟨env 1010, .timer .leave⟩] ∧
      mvrp.reg s.d 2 = some .LV ∧ s.entered 2 = msec 1010 ∧
      ((run processEvents m its).mvrp.bind fun d => mvrp.reg d 2) = some .MT := by
  decide

section

variable {V K D C : Type} [DecidableEq K] {P : Participant V K D C}

theorem RegOrigin.of_enters {event : Event} (h : RegOrigin event (some .IN) .LV) :
    isLeave event = true ∨ event = .LVATIMER ∨ event = .RLA := by
  cases h with
  | attrib hev r₀ hr h =>
    grind [remapStep_eq_lv]
  | leaveAll hev r₀ hr h => exact Or.inr hev
  | lvtimer hev r₀ hr h => exact absurd h.symm (regStep_lvtimer_ne_lv r₀)
  | kept hev h => exact absurd h (by decide)

theorem Participant.Lawful.leaves_of_enters (hP : P.Lawful) (env : Env) {d : D} {act : Act V C}
    (ht : Tidy P.key (P.base d).attribList) {k : K} (hin : P.reg d k = some .IN)
    (hlv : P.reg (P.act env d act).1 k = some .LV) : P.leaves d k act = true := by
  rcases hP.act_reg env ht hlv with ⟨c, hc, hscope, horigin⟩ | ⟨-, hreg⟩
  · rw [hin] at horigin
    have hev := horigin.of_enters
    cases act with
    | cmd cmd client =>
      simp only [Participant.call, Option.map_eq_some_iff] at hc
      obtain ⟨x, hx, rfl⟩ := hc
      have hattrib := hP.request_attrib cmd client d x hx
      have hkey : P.key x.2 = k := key_of_attribCall hscope
      have hleave : isLeave x.1 = true := by
        rcases hev with hev | hev | hev
        · exact hev
        · exact absurd hattrib (by rw [show x.1 = .LVATIMER from hev]; decide)
        · exact absurd hattrib (by rw [show x.1 = .RLA from hev]; decide)
      simp [Participant.leaves, hx, hkey, hleave]
    | pdu e v src =>
      obtain rfl := Option.some.inj hc
      have hkey : P.key v = k := key_of_attribCall hscope
      have hleave : isLeave e.received = true := by
        rcases hev with hev | hev | hev
        · exact hev
        · exact absurd (isAttribEvent_received e) (by rw [show e.received = .LVATIMER from hev]; decide)
        · exact absurd (isAttribEvent_received e) (by rw [show e.received = .RLA from hev]; decide)
      simp [Participant.leaves, hkey, hleave]
    | leaveAll v src =>
      obtain rfl := Option.some.inj hc
      exact hscope
    | timer t =>
      obtain rfl := Option.some.inj hc
      have hev : isLeave t.event = true ∨ t.event = .LVATIMER ∨ t.event = .RLA := hev
      cases t with
      | leaveAll => rfl
      | _ => exact absurd hev (by decide)
    | bye client => exact absurd hc (by simp [Participant.call])
    | reclaim => exact absurd hc (by simp [Participant.call])
  · exact absurd (hin.symm.trans hreg) (by decide)

def Timed.After (s : Timed K D) (i : Input V C) : Prop :=
  s.clock ≤ i.env.now

theorem Ordered.le_of_mem {t t' : Nat} {is : List (Input V C)} (h : Ordered t is t')
    {i : Input V C} (hi : i ∈ is) : t ≤ i.env.now := by
  induction is generalizing t with
  | nil => simp at hi
  | cons j is ih =>
    rcases List.mem_cons.mp hi with rfl | hi
    · exact h.1
    · exact Nat.le_trans h.1 (ih h.2 hi)

theorem Ordered.along {t t' : Nat} {is : List (Input V C)} (h : Ordered t is t')
    (s : Timed K D) (hs : s.clock ≤ t) :
    Along (Timed.act P) Timed.After s is ∧ (run (Timed.act P) s is).clock ≤ t' := by
  induction is generalizing s t with
  | nil => exact ⟨trivial, Nat.le_trans hs h⟩
  | cons i is ih =>
    obtain ⟨halong, hclock⟩ := ih h.2 (s.act P i) (Nat.le_refl _)
    exact ⟨⟨Nat.le_trans hs h.1, halong⟩, hclock⟩

theorem run_act_d (s : Timed K D) (is : List (Input V C)) :
    (run (Timed.act P) s is).d = run P.step s.d is := by
  induction is generalizing s with
  | nil => rfl
  | cons i is ih => exact ih (s.act P i)

theorem Timed.Inv.of_run (hP : P.Lawful) {s : Timed K D} (hs : s.Inv P) {is : List (Input V C)}
    (hafter : Along (Timed.act P) Timed.After s is) : (run (Timed.act P) s is).Inv P :=
  run_invariant (fun _ _ hi hs => hs.act hP hi) s is hs hafter

theorem Timed.Inv.run_lvTimer (hP : P.Lawful) (is : List (Input V C)) (s : Timed K D)
    (hs : s.Inv P) (hafter : Along (Timed.act P) Timed.After s is)
    (hne : ∀ i ∈ is, i.act ≠ .timer .leave) (hund : Along P.step P.Undisturbed s.d is) :
    (P.base (run (Timed.act P) s is).d).mrpDb.lvTimer = (P.base s.d).mrpDb.lvTimer := by
  induction is generalizing s with
  | nil => rfl
  | cons i is ih =>
    have hstep : (P.base (s.act P i).d).mrpDb.lvTimer = (P.base s.d).mrpDb.lvTimer := by
      cases hP.act_leave i.env s.d i.act hs.tidy with
      | started hact h timer =>
        obtain ⟨k, hin, hlv⟩ := h
        have hleaves := hP.leaves_of_enters i.env hs.tidy hin hlv
        rw [hund.1 k hin] at hleaves
        exact absurd hleaves (by decide)
      | fired hact h => exact absurd hact (hne i (by simp))
      | kept hact h timer => exact timer
    exact (ih (s.act P i) (hs.act hP hafter.1) hafter.2 (fun j hj => hne j (by simp [hj]))
      hund.2).trans hstep

theorem Turn.leaveInTime (hP : P.Lawful) {t : Turn V C}
    (hearly : ∀ i ∈ t.early, i.act ≠ .timer .leave) (hlate : ∀ i ∈ t.late, i.act ≠ .timer .leave)
    {s : Timed K D} (hs : s.Inv P) {now done : Nat} (hnow : s.clock ≤ now)
    (hexpired : t.leave.isSome → Expired (P.base s.d).mrpDb.lvTimer now)
    (hordered : Ordered now t.inputs done) (hund : t.Undisturbed P s.d) :
    Along (Timed.act P) (Timed.LeaveInTime P) s t.inputs := by
  have hafter := (hordered.along (P := P) s hnow).1
  unfold Turn.inputs at hafter ⊢
  rw [along_append, along_append] at hafter ⊢
  refine ⟨⟨?_, ?_⟩, ?_⟩
  · exact along_of_forall_mem (fun _ i hi hact => absurd hact (hearly i hi)) s
  · cases hleave : t.leave with
    | none => trivial
    | some env =>
      rw [hleave] at hexpired hafter
      refine ⟨?_, trivial⟩
      intro _ k hk
      have hinv := hs.of_run hP hafter.1.1
      have hkept := hs.run_lvTimer hP t.early s hafter.1.1 hearly (hund (by rw [hleave]; rfl))
      obtain ⟨e, he, hle⟩ := hexpired rfl
      have harmed := hinv.armed k hk
      rw [hkept, he] at harmed
      have hlast := Option.some.inj harmed
      have hentered := hinv.entered_le k
      have henv : now ≤ env.now :=
        hordered.le_of_mem (i := ⟨env, .timer .leave⟩) (by simp [Turn.inputs, hleave])
      grind
  · exact along_of_forall_mem (fun _ i hi hact => absurd hact (hlate i hi)) _

theorem loop_leaveInTime (hP : P.Lawful) {slot : Mrpd → Option D} {turn : Iteration → Turn V C}
    (hslot : ∀ m it, slot (processEvents m it) =
      (slot m).map fun d => run P.step d (turn it).inputs)
    (hearly : ∀ it, ∀ i ∈ (turn it).early, i.act ≠ .timer .leave)
    (hlate : ∀ it, ∀ i ∈ (turn it).late, i.act ≠ .timer .leave)
    (hpossible : ∀ m it, it.Possible m → ∀ d ∈ slot m,
      ((turn it).leave.isSome → Expired (P.base d).mrpDb.lvTimer it.now) ∧
        Ordered it.now (turn it).inputs it.done)
    (hund : ∀ m it, it.Undisturbed m → ∀ d ∈ slot m, (turn it).Undisturbed P d)
    (its : List Iteration) (m : Mrpd) (s : Timed K D) (hm : slot m = some s.d) (hs : s.Inv P)
    (hclock : s.clock ≤ m.clock)
    (hrun : Along processEvents (fun m it => it.Possible m) m its)
    (hok : Along processEvents (fun m it => it.Undisturbed m) m its) :
    Along (Timed.act P) (Timed.LeaveInTime P) s (its.flatMap fun it => (turn it).inputs) := by
  induction its generalizing m s with
  | nil => trivial
  | cons it its ih =>
    obtain ⟨hexpired, hordered⟩ := hpossible m it hrun.1 s.d hm
    have hnow : s.clock ≤ it.now := Nat.le_trans hclock hrun.1.1
    obtain ⟨hafter, hdone⟩ := hordered.along (P := P) s hnow
    rw [List.flatMap_cons, along_append]
    refine ⟨Turn.leaveInTime hP (hearly it) (hlate it) hs hnow hexpired hordered
      (hund m it hok.1 s.d hm), ?_⟩
    refine ih (processEvents m it) _ ?_ (hs.of_run hP hafter) hdone hrun.2 hok.2
    rw [hslot, hm, run_act_d]
    rfl

theorem Iteration.turn_early {ctl : CtlMsg → SockAddr → Option (Act V C)}
    (hctl : ∀ msg client, ctl msg client ≠ some (.timer .leave))
    {parse : Frame → List (Received V)} {periodic : Env × Env × Env → Env} {r : Ready}
    {it : Iteration} : ∀ i ∈ (it.turn ctl parse periodic r).early, i.act ≠ .timer .leave := by
  intro i hi
  simp only [Iteration.turn, List.mem_append, Option.mem_toList] at hi
  rcases hi with (hi | hi) | hi
  · simp only [Option.bind_eq_some_iff, Option.map_eq_some_iff] at hi
    grind
  · cases hframe : r.frame with
    | none => simp [hframe] at hi
    | some x =>
      grind [frameInputs, Received.act_ne_timer]
  · grind [Option.map_eq_some_iff]

theorem Iteration.turn_late {ctl : CtlMsg → SockAddr → Option (Act V C)}
    {parse : Frame → List (Received V)} {periodic : Env × Env × Env → Env} {r : Ready}
    {it : Iteration} : ∀ i ∈ (it.turn ctl parse periodic r).late, i.act ≠ .timer .leave := by
  grind [turn, Option.map_eq_some_iff]

end

theorem CtlMsg.acts_ne_leave (msg : CtlMsg) (client : SockAddr) :
    msg.mmrpAct client ≠ some (.timer .leave) ∧ msg.mvrpAct client ≠ some (.timer .leave) ∧
      msg.msrpAct client ≠ some (.timer .leave) := by
  cases msg <;> simp [CtlMsg.mmrpAct, CtlMsg.mvrpAct, CtlMsg.msrpAct]

/-- In every execution whose iterations are undisturbed, no leave-timer event finds a
registrar that entered `LV` less than `MRP_LVTIMER_VAL` before. -/
theorem processEvents_leaveInTime (env : Env)
    (mmrpEnable mvrpEnable msrpEnable msrpPruning : Bool) (its : List Iteration)
    (hrun : Along processEvents (fun m it => it.Possible m)
      (mrpdInit env mmrpEnable mvrpEnable msrpEnable msrpPruning) its)
    (hok : Along processEvents (fun m it => it.Undisturbed m)
      (mrpdInit env mmrpEnable mvrpEnable msrpEnable msrpPruning) its) :
    let m := mrpdInit env mmrpEnable mvrpEnable msrpEnable msrpPruning
    (∀ d ∈ m.mmrp, Along (Timed.act mmrp) (Timed.LeaveInTime mmrp) (Timed.start d env.now)
        (its.flatMap fun it => it.mmrpTurn.inputs)) ∧
      (∀ d ∈ m.mvrp, Along (Timed.act mvrp) (Timed.LeaveInTime mvrp) (Timed.start d env.now)
        (its.flatMap fun it => it.mvrpTurn.inputs)) ∧
      (∀ d ∈ m.msrp, Along (Timed.act msrp) (Timed.LeaveInTime msrp) (Timed.start d env.now)
        (its.flatMap fun it => it.msrpTurn.inputs)) := by
  intro m
  have hinit {b : Bool} {D : Type} {d d' : D} (h : d ∈ (if b then some d' else none)) :
      d = d' := by
    cases b
    · simp at h
    · exact (Option.some.inj h).symm
  refine ⟨?_, ?_, ?_⟩
  · intro d hd
    have hstart := Timed.Inv.start mmrp_lawful (d := d) ⟨env, hinit hd⟩ env.now
    exact loop_leaveInTime mmrp_lawful processEvents_mmrp
      (fun it => it.turn_early fun msg client => (msg.acts_ne_leave client).1)
      (fun it => it.turn_late)
      (fun m it h d hd => ⟨(h.2.2.1 d hd).1.2.1, (h.2.2.1 d hd).2⟩)
      (fun m it h => h.1) its m _ hd hstart (Nat.le_refl _) hrun hok
  · intro d hd
    have hstart := Timed.Inv.start mvrp_lawful (d := d) ⟨env, hinit hd⟩ env.now
    exact loop_leaveInTime mvrp_lawful processEvents_mvrp
      (fun it => it.turn_early fun msg client => (msg.acts_ne_leave client).2.1)
      (fun it => it.turn_late)
      (fun m it h d hd => ⟨(h.2.2.2.1 d hd).1.2.1, (h.2.2.2.1 d hd).2⟩)
      (fun m it h => h.2.1) its m _ hd hstart (Nat.le_refl _) hrun hok
  · intro d hd
    have hstart := Timed.Inv.start msrp_lawful (d := d) ⟨env, 8, msrpPruning, hinit hd⟩ env.now
    exact loop_leaveInTime msrp_lawful processEvents_msrp
      (fun it => it.turn_early fun msg client => (msg.acts_ne_leave client).2.2)
      (fun it => it.turn_late)
      (fun m it h d hd => ⟨(h.2.2.2.2.1 d hd).1.2.1, (h.2.2.2.2.1 d hd).2⟩)
      (fun m it h => h.2.2) its m _ hd hstart (Nat.le_refl _) hrun hok

theorem processEvents_leaveInTime_mvrp :
    let env (t : Nat) : Env := { now := msec t }
    let its : List Iteration :=
      [{ now := msec 1, control := some (env 1, .mvrp (.join 1), ⟨0, 0⟩), done := msec 1 },
        { now := msec 10, control := some (env 10, .mvrp (.lv 1), ⟨0, 0⟩), done := msec 10 },
        { now := msec 1010, mvrp := { lvTimer := some (env 1010) }, done := msec 1010 }]
    Along (Timed.act mvrp) (Timed.LeaveInTime mvrp) (Timed.start (mvrpInit (env 0)) 0)
      (its.flatMap fun it => it.mvrpTurn.inputs) := by
  intro env its
  have hrun : Along processEvents (fun m it => it.Possible m)
      (mrpdInit (env 0) false true false false) its := by decide
  have hok : Along processEvents (fun m it => it.Undisturbed m)
      (mrpdInit (env 0) false true false false) its := by
    refine ⟨⟨?_, ?_, ?_⟩, ⟨?_, ?_, ?_⟩, ⟨?_, ?_, ?_⟩, trivial⟩
    all_goals first
      | exact fun d h => absurd h (Option.not_mem_none d)
      | exact fun d _ h => absurd h (by decide)
      | exact fun d _ _ => trivial
  exact (processEvents_leaveInTime (env 0) false true false false its hrun hok).2.1 _ rfl

end Avb4Linux.Mrp
