import Mathlib.Tactic.Common

/-!
# The MRP state machines and timers

`mrp.h` and `mrp.c`: the applicant, registrar and LeaveAll machines and the timers of a database.
-/

namespace Avb4Linux.Mrp

inductive AppState where
  | VO | VP | VN | AN | AA | QA | LA | AO | QO | AP | QP | LO
  deriving DecidableEq, Repr

inductive RegState where
  | IN | LV | MT
  deriving DecidableEq, Repr

inductive Event where
  | BEGIN | NEW | JOIN | LV | TX | TXLA | TXLAF
  | RNEW | RJOININ | RIN | RJOINMT | RMT | RLV | RLA
  | FLUSH | REDECLARE | PERIODIC | PERIODIC_ENABLE | PERIODIC_DISABLE
  | LVTIMER | LVATIMER
  deriving DecidableEq, Repr

inductive SndMsg where
  | NEW | JOIN | IN | LV | LVA | NULL | NONE
  deriving DecidableEq, Repr

inductive Notify where
  | NONE | NEW | JOIN | LV
  deriving DecidableEq, Repr

inductive Encode where
  | OPTIONAL | YES
  deriving DecidableEq, Repr

inductive TimerState where
  | PASSIVE | ACTIVE
  deriving DecidableEq, Repr

/-! ### Per-attribute records -/

abbrev MacAddr := Vector UInt8 6

structure Applicant where
  mrpState : AppState := .VO
  tx : Bool := false
  sndmsg : SndMsg := .NULL
  encode : Encode := .OPTIONAL
  mrpPreviousState : Option AppState := none
  deriving DecidableEq, Repr

structure Registrar where
  mrpState : RegState := .MT
  notify : Notify := .NONE
  macaddr : MacAddr := Vector.replicate 6 0
  deriving DecidableEq, Repr

/-! ### Timers -/

/-- Times are nanoseconds on the monotonic clock; the interval arguments of
`mrpd_timer_start` are milliseconds. -/
def msec (n : Nat) : Nat := n * 1000000

def joinTimerVal : Nat := msec 100

def lvTimerVal : Nat := msec 1000

def lvaTimerMs : Nat := 10000

structure LvaMachine where
  state : TimerState := .PASSIVE
  tx : Bool := false
  sndmsg : SndMsg := .NEW
  deriving DecidableEq, Repr

structure SockAddr where
  addr : UInt32
  port : UInt16
  deriving DecidableEq, Repr

structure MrpDatabase where
  lva : LvaMachine := {}
  joinTimer : Option Nat := none
  joinTimerRunning : Bool := false
  lvTimer : Option Nat := none
  lvTimerRunning : Bool := false
  lvaTimer : Option Nat := none
  lvaTimerRunning : Bool := false
  clients : List SockAddr := []
  deriving DecidableEq, Repr

def mrpJointimerStart (now : Nat) (db : MrpDatabase) : MrpDatabase :=
  { db with
    joinTimer := if db.joinTimerRunning then db.joinTimer else some (now + joinTimerVal)
    joinTimerRunning := true }

def mrpJointimerStop (db : MrpDatabase) : MrpDatabase :=
  { db with joinTimer := none, joinTimerRunning := false }

def mrpLvtimerStart (now : Nat) (db : MrpDatabase) : MrpDatabase :=
  { db with lvTimer := some (now + lvTimerVal), lvTimerRunning := true }

def mrpLvtimerStop (db : MrpDatabase) : MrpDatabase :=
  { db with lvTimer := none, lvTimerRunning := false }

def mrpLvatimerStart (now : Nat) (rnd : Nat) (db : MrpDatabase) : MrpDatabase :=
  { db with
    lvaTimer :=
      if db.lvaTimerRunning then db.lvaTimer
      else some (now + msec (lvaTimerMs + rnd % (lvaTimerMs / 2)))
    lvaTimerRunning := true }

def mrpLvatimerStop (db : MrpDatabase) : MrpDatabase :=
  { db with lvaTimer := none, lvaTimerRunning := false }

def mrpLvatimerFsm (now : Nat) (rnd : Nat) (db : MrpDatabase) (event : Event) :
    MrpDatabase :=
  match event with
  | .BEGIN =>
    { mrpLvatimerStart now rnd db with lva := ⟨.PASSIVE, false, .NONE⟩ }
  | .TX =>
    if db.lva.state = .ACTIVE then
      { db with lva := ⟨.PASSIVE, true, .LVA⟩ }
    else
      { db with lva := ⟨db.lva.state, false, .NONE⟩ }
  | .RLA =>
    { mrpLvatimerStart now rnd (mrpLvatimerStop db) with lva := ⟨.PASSIVE, false, .NONE⟩ }
  | .LVATIMER =>
    { mrpLvatimerStart now rnd (mrpLvatimerStop db) with lva := ⟨.ACTIVE, false, .NONE⟩ }
  | _ => db

/-! ### Applicant machine -/

/-- `p2pmac`: `mrp_init` sets it to 1 and nothing else writes it. -/
def p2pmac : Nat := 1

/-- The locals `mrp_state`, `tx`, `optional` and `sndmsg` of `mrp_applicant_fsm`
when its `switch` is left. -/
structure ApplicantOut where
  mrpState : AppState
  tx : Bool := false
  optional : Bool := false
  sndmsg : SndMsg := .NULL
  deriving DecidableEq, Repr

/-- The `switch` of `mrp_applicant_fsm`, `mrp.c:561-895`; `none` is the `-1` for
an event the machine does not know, which changes nothing. -/
def applicantSwitch (s : AppState) (event : Event) (registrarIsIn : Bool) :
    Option ApplicantOut :=
  match event with
  | .BEGIN => some { mrpState := .VO }
  | .NEW =>
    match s with
    | .VN | .AN => some { mrpState := s }
    | _ => some { mrpState := .VN }
  | .JOIN =>
    match s with
    | .LO | .VO => some { mrpState := .VP }
    | .LA => some { mrpState := .AA }
    | .AO => some { mrpState := .AP }
    | .QO => some { mrpState := .QP }
    | _ => some { mrpState := s }
  | .LV =>
    match s with
    | .VN | .AN | .AA | .QA => some { mrpState := .LA }
    | .VP => some { mrpState := .VO }
    | .AP => some { mrpState := .AO }
    | .QP => some { mrpState := .QO }
    | _ => some { mrpState := s }
  | .TXLA =>
    match s with
    | .VO | .LA | .AO | .QO | .LO => some ⟨.LO, true, true, .IN⟩
    | .VP => some ⟨.AA, true, false, .IN⟩
    | .VN => some ⟨.AN, true, false, .NEW⟩
    | .AN => some ⟨.QA, true, false, .NEW⟩
    | .QP | .AP | .AA | .QA => some ⟨.QA, true, false, .JOIN⟩
  | .TXLAF =>
    match s with
    | .VO | .QO | .AO | .LA => some { mrpState := .LO }
    | .AN => some { mrpState := .VN }
    | .QP | .AP | .AA | .QA => some { mrpState := .VP }
    | .LO | .VP | .VN => some { mrpState := s }
  | .TX =>
    match s with
    | .VO => some ⟨.VO, true, true, .IN⟩
    | .VP => some ⟨.AA, true, false, .JOIN⟩
    | .VN => some ⟨.AN, true, false, .NEW⟩
    | .AN => some ⟨if registrarIsIn then .QA else .AA, true, false, .NEW⟩
    | .AP | .AA => some ⟨.QA, true, false, .JOIN⟩
    | .QA => some ⟨.QA, true, true, .JOIN⟩
    | .LA => some ⟨.VO, true, false, .LV⟩
    | .AO | .QO | .QP => some ⟨s, true, true, .IN⟩
    | .LO => some ⟨.VO, true, false, .IN⟩
  | .RNEW => some { mrpState := s }
  | .RJOININ =>
    match s with
    | .VO => some { mrpState := if p2pmac = 0 then .AO else .VO }
    | .VP => some { mrpState := if p2pmac = 0 then .AP else .VP }
    | .AA => some { mrpState := .QA }
    | .AO => some { mrpState := .QO }
    | .AP => some { mrpState := .QP }
    | _ => some { mrpState := s }
  | .RIN =>
    match s with
    | .AA => some { mrpState := if p2pmac = 1 then .QA else .AA }
    | _ => some { mrpState := s }
  | .RJOINMT | .RMT =>
    match s with
    | .QA => some { mrpState := .AA }
    | .QO => some { mrpState := .AO }
    | .QP => some { mrpState := .AP }
    | .LO => some { mrpState := .VO }
    | _ => some { mrpState := s }
  | .RLV | .RLA | .REDECLARE =>
    match s with
    | .VO | .AO | .QO => some { mrpState := .LO }
    | .AN => some { mrpState := .VN }
    | .QA | .AA | .AP | .QP => some { mrpState := .VP }
    | _ => some { mrpState := s }
  | .PERIODIC =>
    match s with
    | .QA => some { mrpState := .AA }
    | .QP => some { mrpState := .AP }
    | _ => some { mrpState := s }
  | _ => none

def mrpApplicantFsm (attrib : Applicant) (event : Event) (registrarIsIn : Bool) :
    Applicant :=
  match applicantSwitch attrib.mrpState event registrarIsIn with
  | none => attrib
  | some out =>
    { mrpPreviousState := some attrib.mrpState
      tx := out.tx
      mrpState := out.mrpState
      sndmsg := out.sndmsg
      encode := if out.optional then .OPTIONAL else .YES }

def mrpApplicantStateTransitionImpliesTx (attrib : Applicant) : Bool :=
  if attrib.mrpPreviousState = some attrib.mrpState then false
  else
    match attrib.mrpState with
    | .VP | .VN | .AN | .AA | .LA => true
    | .VO | .QA | .AO | .QO | .AP | .QP | .LO => false

/-- The state `mrp_applicant_fsm` leaves, as a function of the state it finds. -/
def applicantNext (s : AppState) (event : Event) (registrarIsIn : Bool) : AppState :=
  ((applicantSwitch s event registrarIsIn).map ApplicantOut.mrpState).getD s

@[simp]
theorem mrpApplicantFsm_mrpState (attrib : Applicant) (event : Event) (r : Bool) :
    (mrpApplicantFsm attrib event r).mrpState = applicantNext attrib.mrpState event r := by
  unfold mrpApplicantFsm applicantNext
  cases applicantSwitch attrib.mrpState event r <;> rfl

/-! ### Registrar machine -/

def mrpRegistrarIn (attrib : Registrar) : Bool :=
  attrib.mrpState = .IN

/-- The `switch` of `mrp_registrar_fsm`, `mrp.c:939-1043`: the next state and the
notification, or `none` for an event the machine does not know. -/
def registrarSwitch (s : RegState) (event : Event) : Option (RegState × Notify) :=
  match event with
  | .BEGIN => some (.MT, .NONE)
  | .RLV => some (if s = .IN then .LV else s, .LV)
  | .TXLA | .RLA | .REDECLARE => some (if s = .IN then .LV else s, .NONE)
  | .RNEW => some (.IN, .NEW)
  | .RJOININ | .RJOINMT =>
    match s with
    | .MT | .LV => some (.IN, .JOIN)
    | .IN => some (.IN, .NONE)
  | .LVTIMER =>
    match s with
    | .LV => some (.MT, .LV)
    | .MT => some (.MT, .NONE)
    | .IN => some (.IN, .NONE)
  | .FLUSH => some (.MT, .LV)
  | .RMT | .RIN => some (s, .NONE)
  | _ => none

def startsLvtimer : Event → Bool
  | .RLV | .TXLA | .RLA | .REDECLARE => true
  | _ => false

def mrpRegistrarFsm (now : Nat) (attrib : Registrar) (db : MrpDatabase) (event : Event) :
    Registrar × MrpDatabase :=
  let db' :=
    if startsLvtimer event && mrpRegistrarIn attrib then mrpLvtimerStart now db else db
  match registrarSwitch attrib.mrpState event with
  | none => (attrib, db')
  | some (s, notify) => ({ attrib with mrpState := s, notify := notify }, db')

def registrarNext (attrib : Registrar) (event : Event) : Registrar :=
  match registrarSwitch attrib.mrpState event with
  | none => attrib
  | some (s, notify) => { attrib with mrpState := s, notify := notify }

theorem mrpRegistrarFsm_eq (now : Nat) (attrib : Registrar) (db : MrpDatabase)
    (event : Event) :
    mrpRegistrarFsm now attrib db event =
      (registrarNext attrib event,
        if startsLvtimer event && mrpRegistrarIn attrib then mrpLvtimerStart now db
        else db) := by
  unfold mrpRegistrarFsm registrarNext
  cases registrarSwitch attrib.mrpState event <;> rfl

end Avb4Linux.Mrp
