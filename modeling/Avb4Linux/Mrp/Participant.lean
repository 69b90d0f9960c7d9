import Avb4Linux.Mrp.AttribEvents
import Avb4Linux.Mrp.Mmrp
import Avb4Linux.Mrp.MsrpReception
import Avb4Linux.Mrp.Mvrp

/-!
# The three participants and what can happen to them

`Participant` collects the functions of one protocol, `Act` is one call of them, and `ActSpec` says
what it does to the attributes, the timers and the clients' view.
-/

namespace Avb4Linux.Mrp

open Lib

inductive Timer where
  | join | leave | leaveAll | periodic
  deriving DecidableEq, Repr

def Timer.event : Timer → Event
  | .join => .TX
  | .leave => .LVTIMER
  | .leaveAll => .LVATIMER
  | .periodic => .PERIODIC

theorem Timer.event_ne_lv (t : Timer) : t.event ≠ .LV := by
  cases t <;> decide

theorem isAttribEvent_received (e : PduEvent) : isAttribEvent e.received = true := by
  cases e <;> rfl

theorem PduEvent.received_ne_lv (e : PduEvent) : e.received ≠ .LV := by
  cases e <;> decide

inductive Act (V C : Type) where
  | cmd (c : C) (client : SockAddr)
  | bye (client : SockAddr)
  | pdu (e : PduEvent) (v : V) (src : MacAddr)
  | leaveAll (v : Option V) (src : MacAddr)
  | timer (t : Timer)
  | reclaim
  deriving DecidableEq, Repr

def Act.isCmd {V C : Type} : Act V C → Bool
  | .cmd _ _ => true
  | _ => false

/-- The functions of one protocol, with the words in which their effect is
described: the key attributes are found by, the attributes a LeaveAll concerns,
and what a protocol leaves out. -/
structure Participant (V K D C : Type) where
  base : D → Database V
  initial : D → Prop
  event : Env → Event → Option (Attrib V) → D → D × Effects V
  recvCmd : Env → C → SockAddr → D → D × Effects V
  bye : SockAddr → D → D
  reclaim : D → D × Effects V
  ops : Ops V
  key : V → K
  reclaims : Bool
  request : C → SockAddr → D → Option (Event × V)
  selects : Option V → V → Bool
  periodic : Bool
  ignores : D → V → Bool
  prunes : D → Bool

variable {V K D C : Type}

def Participant.act (P : Participant V K D C) (env : Env) (d : D) : Act V C → D × Effects V
  | .cmd c client => P.recvCmd env c client d
  | .bye client => (P.bye client d, {})
  | .pdu e v src => P.event env e.received (some (receivedAttrib src v)) d
  | .leaveAll v src => P.event env .RLA (v.map (receivedAttrib src)) d
  | .timer t => P.event env t.event none d
  | .reclaim => P.reclaim d

structure Input (V C : Type) where
  env : Env
  act : Act V C
  deriving DecidableEq, Repr

def Participant.step (P : Participant V K D C) (d : D) (i : Input V C) : D :=
  (P.act i.env d i.act).1

structure Call (K : Type) where
  event : Event
  scope : K → Bool
  forced : Bool := false

section

variable [DecidableEq K]

def Participant.attribCall (P : Participant V K D C) (d : D) (event : Event)
    (r : Attrib V) : Call K where
  event := event
  scope k := !P.ignores d r.value && k = P.key r.value
  forced := mergeForces P.ops P.key r (P.base d).attribList

def Participant.call (P : Participant V K D C) (d : D) : Act V C → Option (Call K)
  | .cmd c client =>
    (P.request c client d).map fun x => P.attribCall d x.1 { value := x.2 }
  | .pdu e v src => some (P.attribCall d e.received (receivedAttrib src v))
  | .leaveAll v _ =>
    some { event := .RLA, scope := keysWith P.key (P.selects v) (P.base d).attribList }
  | .timer t => some { event := t.event, scope := fun _ => t ≠ .periodic || P.periodic }
  | .bye _ | .reclaim => none

structure Pruned (key : V → K) (prunes : Bool) (db db' : Database V) : Prop where
  tidy : Tidy key db'.attribList
  cells : ∀ k, cellAt key db'.attribList k = cellAt key db.attribList k ∨
    prunes = true ∧ cellAt key db'.attribList k = none
  joinTimer : db'.mrpDb.joinTimer = db.mrpDb.joinTimer
  joinTimerRunning : db'.mrpDb.joinTimerRunning = db.mrpDb.joinTimerRunning
  lvTimer : db'.mrpDb.lvTimer = db.mrpDb.lvTimer
  lvTimerRunning : db'.mrpDb.lvTimerRunning = db.mrpDb.lvTimerRunning

structure Collected (key : V → K) (db db' : Database V) (notes : List (Note V)) : Prop where
  tidy : Tidy key db'.attribList
  cells : ∀ k, (cellAt key db'.attribList k, notesAbout key k notes) =
    (cellAt key db.attribList k).elim (none, []) fun c => settle true c .NONE
  mrpDb : db'.mrpDb = db.mrpDb

/-- What an act does: a call of the event function, after which a command may
unlink other attributes; a garbage collection; or nothing that concerns an attribute. -/
inductive ActSpec (P : Participant V K D C) (now : Nat) (d : D) (act : Act V C) (d' : D)
    (notes : List (Note V)) : Prop where
  | called (c : Call K) (hc : P.call d act = some c) (db : Database V)
      (spec : EventSpec P.key P.reclaims now c.event c.scope c.forced (P.base d) db notes)
      (pruned : Pruned P.key (P.prunes d && act.isCmd) db (P.base d'))
      (spared : ∀ k, c.scope k = true →
        cellAt P.key (P.base d').attribList k = cellAt P.key db.attribList k)
  | collected (hact : act = .reclaim) (spec : Collected P.key (P.base d) (P.base d') notes)
  | idle (hact : act ≠ .reclaim) (hc : P.call d act = none)
      (pruned : Pruned P.key (P.prunes d && act.isCmd) (P.base d) (P.base d'))
      (hn : notes = [])

structure Participant.Lawful (P : Participant V K D C) : Prop where
  initial_attribs : ∀ d, P.initial d → (P.base d).attribList = []
  initial_timers : ∀ d, P.initial d → (P.base d).mrpDb.joinTimer = none ∧
    (P.base d).mrpDb.joinTimerRunning = false ∧ (P.base d).mrpDb.lvTimer = none ∧
    (P.base d).mrpDb.lvTimerRunning = false
  act_spec : ∀ env d act, Tidy P.key (P.base d).attribList →
    ActSpec P env.now d act (P.act env d act).1 (P.act env d act).2.notes
  prunes_act : ∀ env d act, P.prunes (P.act env d act).1 = P.prunes d
  attends : ∀ d v, P.prunes d = false → P.ignores d v = false
  request_attrib : ∀ c client d x, P.request c client d = some x → isAttribEvent x.1 = true

theorem Timer.event_inj {t u : Timer} (h : t.event = u.event) : t = u := by
  cases t <;> cases u <;> first | rfl | exact absurd h (by decide)

theorem Timer.event_not_attrib (t : Timer) : isAttribEvent t.event = false := by
  cases t <;> rfl

theorem Participant.Lawful.call_timer {P : Participant V K D C} (hP : P.Lawful) {d : D}
    {act : Act V C} {c : Call K} {t : Timer} (hc : P.call d act = some c)
    (hev : c.event = t.event) :
    act = .timer t ∧ ∀ k, c.scope k = (t ≠ .periodic || P.periodic) := by
  have hattrib : isAttribEvent c.event = true → False := by
    intro h
    rw [hev, t.event_not_attrib] at h
    exact absurd h (by decide)
  cases act with
  | cmd cmd client =>
    simp only [Participant.call, Option.map_eq_some_iff] at hc
    obtain ⟨x, hx, rfl⟩ := hc
    exact (hattrib (hP.request_attrib cmd client d x hx)).elim
  | pdu e v src =>
    obtain rfl := Option.some.inj hc
    exact (hattrib (isAttribEvent_received e)).elim
  | leaveAll v src =>
    obtain rfl := Option.some.inj hc
    have hev : Event.RLA = t.event := hev
    cases t <;> exact absurd hev (by decide)
  | timer u =>
    obtain rfl := Option.some.inj hc
    obtain rfl := Timer.event_inj hev
    exact ⟨rfl, fun _ => rfl⟩
  | bye client => exact absurd hc (by simp [Participant.call])
  | reclaim => exact absurd hc (by simp [Participant.call])

end

def msrpRefuses (client : SockAddr) (db : MsrpDatabase) : Bool :=
  db.enablePruning && 1 < (mrpClientAdd db.mrpDb.clients client).length

inductive MsrpKey where
  | talker (sid : StreamId)
  | listener (sid : StreamId)
  | domain (classId : UInt8)
  deriving DecidableEq, Repr

def msrpKey (v : MsrpValue) : MsrpKey :=
  match v.type with
  | .TALKER_ADV | .TALKER_FAILED => .talker v.talkListen.streamID
  | .LISTENER => .listener v.talkListen.streamID
  | .DOMAIN => .domain v.domain.srClassID

def mvrp : Participant Vid Vid (Database Vid) (Cmd Vid) where
  base db := db
  initial db := ∃ env, db = mvrpInit env
  event := mvrpEvent
  recvCmd := mvrpRecvCmd
  bye := mvrpBye
  reclaim := mvrpReclaim
  ops := mvrpOps
  key v := v
  reclaims := true
  request c _ _ := c.request
  selects _ _ := true
  periodic := true
  ignores _ _ := false
  prunes _ := false

def mmrp : Participant MmrpValue MmrpValue (Database MmrpValue) (Cmd MmrpValue) where
  base db := db
  initial db := ∃ env, db = mmrpInit env
  event := mmrpEvent
  recvCmd := mmrpRecvCmd
  bye := mmrpBye
  reclaim := mmrpReclaim
  ops := mmrpOps
  key v := v
  reclaims := false
  request c _ _ := c.request
  selects r v := r.any fun r => v.sameType r
  periodic := true
  ignores _ _ := false
  prunes _ := false

def msrp : Participant MsrpValue MsrpKey MsrpDatabase MsrpCmd where
  base db := db.toDatabase
  initial db := ∃ env maxInteresting enablePruning, db = msrpInit env maxInteresting enablePruning
  event := msrpEvent
  recvCmd := msrpRecvCmd
  bye := msrpBye
  reclaim := msrpReclaim
  ops := msrpOps
  key := msrpKey
  reclaims := true
  request c client db := if msrpRefuses client db then none else c.request db
  selects r v := r.any fun r => v.type = r.type
  periodic := false
  ignores db v := !msrpInterested db v
  prunes db := db.enablePruning

end Avb4Linux.Mrp
