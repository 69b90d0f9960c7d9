import Avb4Linux.Mrp.Fsm

/-!
# An MRP database and the branches of its event function

`mvrp_event`, `mmrp_event` and `msrp_event` are three copies of one event function over an
attribute list.
-/

namespace Avb4Linux.Mrp

/-- `struct mvrp_attribute`, `struct mmrp_attribute` and `struct msrp_attribute`:
a protocol's value with its two machines. A default attribute is what `*_alloc`
returns. -/
structure Attrib (V : Type) where
  value : V
  applicant : Applicant := {}
  registrar : Registrar := {}
  deriving DecidableEq, Repr

structure Database (V : Type) where
  mrpDb : MrpDatabase := {}
  attribList : List (Attrib V) := []
  deriving DecidableEq, Repr

/-- What a handler reads from outside: the clock, the next value of `random()`,
the adapter address, and the two words the stack holds where
`mmrp_emit_svcvectors` leaves an array uninitialised. -/
structure Env where
  now : Nat
  rnd : Nat := 0
  stationAddr : MacAddr := Vector.replicate 6 0
  stack : Nat × Nat := (0, 0)
  deriving DecidableEq, Repr

abbrev Frame := List UInt8

/-- A call of `*_send_notifications`: the kind, and the attribute as it is then. -/
structure Note (V : Type) where
  notify : Notify
  attrib : Attrib V
  deriving DecidableEq, Repr

structure Effects (V : Type) where
  pdu : Option Frame := none
  notes : List (Note V) := []
  deriving DecidableEq, Repr

variable {V : Type}

def fsmAttrib (a : Attrib V) (event : Event) : Attrib V :=
  { a with
    applicant := mrpApplicantFsm a.applicant event (mrpRegistrarIn a.registrar)
    registrar := registrarNext a.registrar event }

def fsmAll (now : Nat) (event : Event) (sel : V → Bool) :
    MrpDatabase → List (Attrib V) → MrpDatabase × List (Attrib V)
  | db, [] => (db, [])
  | db, a :: tl =>
    if sel a.value then
      let r := mrpRegistrarFsm now a.registrar db event
      let a' := { a with
        applicant := mrpApplicantFsm a.applicant event (mrpRegistrarIn a.registrar)
        registrar := r.1 }
      let rest := fsmAll now event sel r.2 tl
      (rest.1, a' :: rest.2)
    else
      let rest := fsmAll now event sel db tl
      (rest.1, a :: rest.2)

def applicantAll (event : Event) (l : List (Attrib V)) : List (Attrib V) :=
  l.map fun a =>
    { a with applicant := mrpApplicantFsm a.applicant event (mrpRegistrarIn a.registrar) }

def reclaimable (a : Attrib V) : Bool :=
  a.registrar.mrpState = .MT &&
    (a.applicant.mrpState = .VO || a.applicant.mrpState = .AO || a.applicant.mrpState = .QO)

def reclaimAll : List (Attrib V) → List (Attrib V) × List (Note V)
  | [] => ([], [])
  | a :: tl =>
    let rest := reclaimAll tl
    if reclaimable a then (rest.1, ⟨.LV, a⟩ :: rest.2) else (a :: rest.1, rest.2)

/-- The loop of the leave-timer branch; MVRP and MSRP reclaim each attribute as
they go, MMRP does not. -/
def lvtimerAll (now : Nat) (reclaims : Bool) :
    MrpDatabase → List (Attrib V) → MrpDatabase × List (Attrib V) × List (Note V)
  | db, [] => (db, [], [])
  | db, a :: tl =>
    let r := mrpRegistrarFsm now a.registrar db .LVTIMER
    let a' := { a with registrar := r.1 }
    let rest := lvtimerAll now reclaims r.2 tl
    if reclaims && reclaimable a' then (rest.1, rest.2.1, ⟨.LV, a'⟩ :: rest.2.2)
    else (rest.1, a' :: rest.2.1, rest.2.2)

def notifyAll : List (Attrib V) → List (Attrib V) × List (Note V)
  | [] => ([], [])
  | a :: tl =>
    let rest := notifyAll tl
    if a.registrar.notify = .NONE then (a :: rest.1, rest.2)
    else
      ({ a with registrar := { a.registrar with notify := .NONE } } :: rest.1,
        ⟨a.registrar.notify, a⟩ :: rest.2)

/-! ### Sorted insertion -/

/-- `mmrp_add` and `msrp_add`: among the attributes of its type, before the first
that is not smaller; behind everything if its type is not there yet. -/
def insertByType (sameType lt : V → V → Bool) : List (Attrib V) → Attrib V → List (Attrib V)
  | [], r => [r]
  | a :: tl, r =>
    if sameType r.value a.value then
      if lt a.value r.value then
        match tl with
        | [] => [a, r]
        | b :: tl' =>
          if sameType a.value b.value then a :: insertByType sameType lt (b :: tl') r
          else a :: r :: b :: tl'
      else r :: a :: tl
    else a :: insertByType sameType lt tl r

def memcmpLt : List UInt8 → List UInt8 → Bool
  | a :: as, b :: bs => if a = b then memcmpLt as bs else a < b
  | _, _ => false

/-! ### Timer branches -/

/-- `MRP_EVENT_LVATIMER`: own LeaveAll. The join timer is stopped and, unlike in
the `TX` branch, not started again. -/
def lvatimerBranch (env : Env) (txpdu : Database V → Database V × Option Frame)
    (db : Database V) : Database V × Option Frame :=
  let m := mrpJointimerStop (mrpLvatimerStop db.mrpDb)
  let r := fsmAll env.now .TXLA (fun _ => true) m db.attribList
  let m := mrpLvatimerFsm env.now env.rnd r.1 .LVATIMER
  let m := mrpLvatimerFsm env.now env.rnd m .TX
  txpdu ⟨m, r.2⟩

def rlaBranch (env : Env) (sel : V → Bool) (db : Database V) : Database V :=
  let m := mrpJointimerStart env.now db.mrpDb
  let r := fsmAll env.now .RLA sel m db.attribList
  ⟨mrpLvatimerFsm env.now env.rnd r.1 .RLA, r.2⟩

/-- `MRP_EVENT_TX`: a transmit opportunity. The count of transitions that need
another one decides whether the join timer is started again. -/
def txBranch (env : Env) (txpdu : Database V → Database V × Option Frame)
    (db : Database V) : Database V × Option Frame :=
  let m := mrpJointimerStop db.mrpDb
  let l := applicantAll .TX db.attribList
  let count := l.countP fun a => mrpApplicantStateTransitionImpliesTx a.applicant
  let r := txpdu ⟨m, l⟩
  if count = 0 then r
  else ({ r.1 with mrpDb := mrpJointimerStart env.now r.1.mrpDb }, r.2)

/-- `MRP_EVENT_LVTIMER`: the leave timer expired. -/
def lvtimerBranch (env : Env) (reclaims : Bool) (db : Database V) :
    Database V × List (Note V) :=
  let r := lvtimerAll env.now reclaims (mrpLvtimerStop db.mrpDb) db.attribList
  (⟨r.1, r.2.1⟩, r.2.2)

def periodicBranch (env : Env) (db : Database V) : Database V :=
  { mrpDb := if db.attribList.isEmpty then db.mrpDb else mrpJointimerStart env.now db.mrpDb
    attribList := applicantAll .PERIODIC db.attribList }

/-! ### The branch of the attribute events -/

structure Ops (V : Type) where
  same : V → V → Bool
  add : List (Attrib V) → Attrib V → List (Attrib V)
  merge : List (Attrib V) → Attrib V → Attrib V → Attrib V

def Ops.lookup (ops : Ops V) (l : List (Attrib V)) (v : V) : Option (Attrib V) :=
  l.find? fun a => ops.same a.value v

/-- Replace the attribute `*_lookup` finds; `none` unlinks it. -/
def Ops.update (ops : Ops V) (v : V) (f : Attrib V → Option (Attrib V)) :
    List (Attrib V) → List (Attrib V)
  | [] => []
  | a :: tl =>
    if ops.same a.value v then
      match f a with
      | none => tl
      | some a' => a' :: tl
    else a :: Ops.update ops v f tl

/-- `remap local requests into registrar events`: a New starts the registrar
again, a Join counts as a received Join and a Leave as a received Leave. -/
def remapRegistrar (now : Nat) (event : Event) (r : Registrar) (db : MrpDatabase) :
    Registrar × MrpDatabase :=
  match event with
  | .NEW =>
    let x := mrpRegistrarFsm now r db .BEGIN
    ({ x.1 with notify := .NEW }, x.2)
  | .JOIN => mrpRegistrarFsm now r db (if r.mrpState = .IN then .RJOININ else .RJOINMT)
  | .LV => mrpRegistrarFsm now r db .RLV
  | _ => mrpRegistrarFsm now r db event

/-- The attribute events once the join timer has been started and the new
attribute added or merged: both machines of the attribute found, then, if the
protocol does so, `*_conditional_reclaim`. -/
def attribFsm (ops : Ops V) (env : Env) (reclaims : Bool) (event : Event) (v : V)
    (db : Database V) : Database V × List (Note V) :=
  match ops.lookup db.attribList v with
  | none => (db, [])
  | some a =>
    let r := remapRegistrar env.now event a.registrar db.mrpDb
    let a' := { a with
      applicant := mrpApplicantFsm a.applicant event (mrpRegistrarIn a.registrar)
      registrar := r.1 }
    if reclaims && reclaimable a' then
      (⟨r.2, ops.update v (fun _ => none) db.attribList⟩, [⟨.LV, a'⟩])
    else
      (⟨r.2, ops.update v (fun _ => some a') db.attribList⟩, [])

def addOrMerge (ops : Ops V) (r : Attrib V) (l : List (Attrib V)) : List (Attrib V) :=
  match ops.lookup l r.value with
  | none => ops.add l r
  | some _ => ops.update r.value (fun a => some (ops.merge l r a)) l

/-- The attribute events (`NEW` to `RLV`) on a database. The flag tells whether
the function goes on to the notification scan: an `RMT` for an attribute that is
not there returns at once. -/
def attribBranch (ops : Ops V) (env : Env) (reclaims : Bool) (event : Event)
    (r : Attrib V) (db : Database V) : Database V × List (Note V) × Bool :=
  let db := { db with mrpDb := mrpJointimerStart env.now db.mrpDb }
  if event = .RMT ∧ ops.lookup db.attribList r.value = none then (db, [], false)
  else
    let db := { db with attribList := addOrMerge ops r db.attribList }
    let x := attribFsm ops env reclaims event r.value db
    (x.1, x.2, true)

def scanNotify (db : Database V) (pdu : Option Frame) (notes : List (Note V)) :
    Database V × Effects V :=
  let r := notifyAll db.attribList
  ({ db with attribList := r.1 }, ⟨pdu, notes ++ r.2⟩)

/-! ### Clients and garbage collection -/

def mrpClientAdd (clients : List SockAddr) (c : SockAddr) : List SockAddr :=
  if clients.any fun x => x.port == c.port then clients else clients ++ [c]

def mrpClientDelete (clients : List SockAddr) (c : SockAddr) : List SockAddr :=
  clients.erase c

def bye (c : SockAddr) (db : Database V) : Database V :=
  { db with mrpDb := { db.mrpDb with clients := mrpClientDelete db.mrpDb.clients c } }

def reclaim (db : Database V) : Database V × Effects V :=
  let r := reclaimAll db.attribList
  ({ db with attribList := r.1 }, ⟨none, r.2⟩)

/-! ### Client commands -/

inductive Cmd (V : Type) where
  | query
  | lv (v : V)
  | join (v : V)
  | new (v : V)
  | invalid
  deriving DecidableEq, Repr

def Cmd.request : Cmd V → Option (Event × V)
  | .query => none
  | .lv v => some (.LV, v)
  | .join v => some (.JOIN, v)
  | .new v => some (.NEW, v)
  | .invalid => none

def addClient (c : SockAddr) (db : Database V) : Database V :=
  { db with mrpDb := { db.mrpDb with clients := mrpClientAdd db.mrpDb.clients c } }

/-- `mvrp_recv_cmd` and `mmrp_recv_cmd`: the sender is registered whatever the
command is. -/
def recvCmd (step : Event → Option (Attrib V) → Database V → Database V × Effects V)
    (cmd : Cmd V) (client : SockAddr) (db : Database V) : Database V × Effects V :=
  let db := addClient client db
  match cmd.request with
  | none => (db, {})
  | some (event, v) => step event (some { value := v }) db

end Avb4Linux.Mrp
