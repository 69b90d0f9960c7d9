import Avb4Linux.Lib.KeyedList
import Avb4Linux.Mrp.Branches

/-!
# One attribute at a time

The event functions treat each attribute on its own; `EventSpec` says so, together with what an
event does to the join and the leave timer.
-/

namespace Avb4Linux.Mrp

open Lib

structure Cell where
  app : AppState
  reg : RegState
  deriving DecidableEq, Repr

def Cell.fresh : Cell := ⟨.VO, .MT⟩

def Cell.reclaimable (c : Cell) : Bool :=
  c.reg = .MT && (c.app = .VO || c.app = .AO || c.app = .QO)

def regStep (r : RegState) (event : Event) : RegState × Notify :=
  (registrarSwitch r event).getD (r, .NONE)

def remapStep (event : Event) (r : RegState) : RegState × Notify :=
  match event with
  | .NEW => (.MT, .NEW)
  | .JOIN => regStep r (if r = .IN then .RJOININ else .RJOINMT)
  | .LV => regStep r .RLV
  | _ => regStep r event

def isAttribEvent : Event → Bool
  | .NEW | .JOIN | .RNEW | .RJOININ | .RJOINMT | .LV | .RIN | .RMT | .RLV => true
  | _ => false

def settle (reclaims : Bool) (c : Cell) (n : Notify) : Option Cell × List Notify :=
  if reclaims && c.reclaimable then (none, [.LV])
  else (some c, if n = .NONE then [] else [n])

/-- What an event does to an attribute it concerns. `forced` tells that merging
the new attribute set the registrar to `MT` first. -/
def cellStep (reclaims : Bool) (event : Event) (forced : Bool) (c : Option Cell) :
    Option Cell × List Notify :=
  match event with
  | .LVATIMER =>
    (c.map fun c => ⟨applicantNext c.app .TXLA (c.reg = .IN), (regStep c.reg .TXLA).1⟩, [])
  | .RLA =>
    (c.map fun c => ⟨applicantNext c.app .RLA (c.reg = .IN), (regStep c.reg .RLA).1⟩, [])
  | .TX => (c.map fun c => ⟨applicantNext c.app .TX (c.reg = .IN), c.reg⟩, [])
  | .PERIODIC => (c.map fun c => ⟨applicantNext c.app .PERIODIC (c.reg = .IN), c.reg⟩, [])
  | .LVTIMER =>
    c.elim (none, []) fun c =>
      settle reclaims ⟨c.app, (regStep c.reg .LVTIMER).1⟩ (regStep c.reg .LVTIMER).2
  | .NEW | .JOIN | .RNEW | .RJOININ | .RJOINMT | .LV | .RIN | .RMT | .RLV =>
    if event = .RMT ∧ c = none then (none, [])
    else
      let c := c.getD Cell.fresh
      let c := if forced then { c with reg := .MT } else c
      settle reclaims ⟨applicantNext c.app event (c.reg = .IN), (remapStep event c.reg).1⟩
        (remapStep event c.reg).2
  | _ => (c, [])

theorem cellStep_attrib (reclaims : Bool) {event : Event} (hev : isAttribEvent event = true)
    (forced : Bool) {c : Option Cell} (hc : ¬ (event = .RMT ∧ c = none)) :
    cellStep reclaims event forced c =
      let c := c.getD Cell.fresh
      let c := if forced then { c with reg := .MT } else c
      settle reclaims ⟨applicantNext c.app event (c.reg = .IN), (remapStep event c.reg).1⟩
        (remapStep event c.reg).2 := by
  cases event <;> first
    | exact absurd hev (by decide)
    | (unfold cellStep; rw [if_neg hc])

/-- The applicant states in which a transmit opportunity is wanted: the ones
`mrp_applicant_state_transition_implies_tx` names. -/
def AppState.pending : AppState → Bool
  | .VP | .VN | .AN | .AA | .LA => true
  | _ => false

variable {V K : Type}

def Attrib.cell (a : Attrib V) : Cell :=
  ⟨a.applicant.mrpState, a.registrar.mrpState⟩

section

variable [DecidableEq K] (key : V → K)

def attribAt (l : List (Attrib V)) (k : K) : Option (Attrib V) :=
  KeyedList.get (fun a => key a.value) l k

def cellAt (l : List (Attrib V)) (k : K) : Option Cell :=
  (attribAt key l k).map Attrib.cell

def notesAbout (k : K) (notes : List (Note V)) : List Notify :=
  (notes.filter fun n => key n.attrib.value = k).map Note.notify

end

/-- No two attributes have one key, and no notification is pending: what holds
between events. -/
structure Tidy (key : V → K) (l : List (Attrib V)) : Prop where
  unique : KeyedList.Unique (fun a => key a.value) l
  quiet : ∀ a ∈ l, a.registrar.notify = .NONE

/-- An operation on attributes is lawful for a key if it finds attributes by it. -/
structure LawfulOps [DecidableEq K] (ops : Ops V) (key : V → K) : Prop where
  same_iff : ∀ a v, ops.same a v = true ↔ key a = key v
  add_split : ∀ l r, ∃ l₁ l₂, l = l₁ ++ l₂ ∧ ops.add l r = l₁ ++ r :: l₂
  merge_key : ∀ l r a, key a.value = key r.value → key (ops.merge l r a).value = key r.value
  merge_applicant : ∀ l r a, (ops.merge l r a).applicant = a.applicant
  merge_notify : ∀ l r a, (ops.merge l r a).registrar.notify = a.registrar.notify
  merge_state : ∀ l r a, (ops.merge l r a).registrar.mrpState = a.registrar.mrpState ∨
    (ops.merge l r a).registrar.mrpState = .MT

/-- What an event does to the join timer. It is stopped by the LeaveAll branch,
and by a transmission that leaves nothing pending; where it is left alone no
applicant moves. -/
inductive JoinSpec [DecidableEq K] (key : V → K) (now : Nat) (event : Event)
    (db db' : Database V) : Prop where
  | stopped (h : event = .LVATIMER ∨
        event = .TX ∧ ∀ a ∈ db'.attribList, a.applicant.mrpState.pending = false)
      (timer : db'.mrpDb.joinTimer = none)
      (running : db'.mrpDb.joinTimerRunning = false)
  | restarted (h : event = .TX)
      (timer : db'.mrpDb.joinTimer = some (now + joinTimerVal))
      (running : db'.mrpDb.joinTimerRunning = true)
  | started (h : event ≠ .LVATIMER ∧ event ≠ .TX ∧ event ≠ .LVTIMER)
      (timer : db'.mrpDb.joinTimer = (mrpJointimerStart now db.mrpDb).joinTimer)
      (running : db'.mrpDb.joinTimerRunning = true)
  | kept (h : event ≠ .LVATIMER ∧ event ≠ .TX)
      (apps : ∀ k, (cellAt key db'.attribList k).map Cell.app = none ∨
        (cellAt key db'.attribList k).map Cell.app = (cellAt key db.attribList k).map Cell.app)
      (timer : db'.mrpDb.joinTimer = db.mrpDb.joinTimer)
      (running : db'.mrpDb.joinTimerRunning = db.mrpDb.joinTimerRunning)

def EntersLv [DecidableEq K] (key : V → K) (db db' : Database V) (k : K) : Prop :=
  (cellAt key db.attribList k).map Cell.reg = some .IN ∧
    (cellAt key db'.attribList k).map Cell.reg = some .LV

/-- The leave timer is armed anew exactly when some registrar enters `LV`; its own
expiry disarms it. -/
inductive LeaveSpec [DecidableEq K] (key : V → K) (now : Nat) (event : Event)
    (db db' : Database V) : Prop where
  | started (h : ∃ k, EntersLv key db db' k)
      (timer : db'.mrpDb.lvTimer = some (now + lvTimerVal))
      (running : db'.mrpDb.lvTimerRunning = true)
  | kept (h : ∀ k, ¬ EntersLv key db db' k)
      (timer : db'.mrpDb.lvTimer = if event = .LVTIMER then none else db.mrpDb.lvTimer)
      (running : db'.mrpDb.lvTimerRunning =
        if event = .LVTIMER then false else db.mrpDb.lvTimerRunning)

/-- An event acts on the attributes in its scope by `cellStep` and leaves the
others alone. -/
structure EventSpec [DecidableEq K] (key : V → K) (reclaims : Bool) (now : Nat)
    (event : Event) (scope : K → Bool) (forced : Bool) (db db' : Database V)
    (notes : List (Note V)) : Prop where
  tidy : Tidy key db'.attribList
  cells : ∀ k, (cellAt key db'.attribList k, notesAbout key k notes) =
    if scope k then cellStep reclaims event forced (cellAt key db.attribList k)
    else (cellAt key db.attribList k, [])
  join : JoinSpec key now event db db'
  leave : LeaveSpec key now event db db'

section

variable [DecidableEq K] {key : V → K} {reclaims : Bool} {now : Nat} {event : Event}
  {scope : K → Bool} {forced : Bool} {db db' : Database V} {notes : List (Note V)}

theorem EventSpec.cell (h : EventSpec key reclaims now event scope forced db db' notes) (k : K) :
    cellAt key db'.attribList k =
      if scope k then (cellStep reclaims event forced (cellAt key db.attribList k)).1
      else cellAt key db.attribList k := by
  have hk := congrArg Prod.fst (h.cells k)
  split <;> simp_all

theorem EventSpec.noted (h : EventSpec key reclaims now event scope forced db db' notes) (k : K) :
    notesAbout key k notes =
      if scope k then (cellStep reclaims event forced (cellAt key db.attribList k)).2 else [] := by
  have hk := congrArg Prod.snd (h.cells k)
  split <;> simp_all

end

end Avb4Linux.Mrp
