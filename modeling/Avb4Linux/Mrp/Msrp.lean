import Avb4Linux.Mrp.Reception

/-!
# MSRP: database and event function

`daemons/mrpd/msrp.c`: talkers, listeners and domains in one database, with optional pruning of
stream ids no client is interested in.
-/

namespace Avb4Linux.Mrp

open Lib.Packing

abbrev StreamId := Vector UInt8 8

inductive MsrpType where
  | TALKER_ADV | TALKER_FAILED | LISTENER | DOMAIN
  deriving DecidableEq, Repr

inductive Operation where
  | REGISTER | DECLARE
  deriving DecidableEq, Repr

structure TalkListen where
  streamID : StreamId := Vector.replicate 8 0
  destAddr : MacAddr := Vector.replicate 6 0
  vlanID : UInt16 := 0
  maxFrameSize : UInt16 := 0
  maxIntervalFrames : UInt16 := 0
  priorityAndRank : UInt8 := 0
  accumulatedLatency : UInt32 := 0
  bridgeID : Vector UInt8 8 := Vector.replicate 8 0
  failureCode : UInt8 := 0
  deriving DecidableEq, Repr

structure SrDomain where
  srClassID : UInt8 := 0
  srClassPriority : UInt8 := 0
  neighborSRclassPriority : UInt8 := 0
  srClassVID : UInt16 := 0
  deriving DecidableEq, Repr

/-- The fields of `struct msrp_attribute` besides the machines. A type never
changes between domain and the others, so the union is two fields of which the
type selects one. -/
structure MsrpValue where
  type : MsrpType
  talkListen : TalkListen := {}
  domain : SrDomain := {}
  substate : UInt32 := 0
  operation : Operation := .REGISTER
  deriving DecidableEq, Repr

def listenerAskFailed : UInt32 := 1

def MsrpType.isTalker : MsrpType → Bool
  | .TALKER_ADV | .TALKER_FAILED => true
  | _ => false

/-! ### Attribute list -/

/-- The test of `msrp_lookup`: the same type, or two talker types; domains are
told apart by class id, the others by stream id. -/
def msrpSame (a r : MsrpValue) : Bool :=
  if r.type = a.type ∨ (r.type = .TALKER_ADV ∧ a.type = .TALKER_FAILED) ∨
      (r.type = .TALKER_FAILED ∧ a.type = .TALKER_ADV) then
    if a.type = .DOMAIN then a.domain.srClassID = r.domain.srClassID
    else a.talkListen.streamID = r.talkListen.streamID
  else false

/-- The bytes of `msrpdu_domain_t` in memory on a little-endian host. -/
def SrDomain.memory (d : SrDomain) : List UInt8 :=
  [d.srClassID, d.srClassPriority, d.neighborSRclassPriority, 0,
    UInt8.ofNat d.srClassVID.toNat, UInt8.ofNat (d.srClassVID.toNat / 256)]

def msrpLt (a r : MsrpValue) : Bool :=
  if a.type = .DOMAIN then memcmpLt a.domain.memory r.domain.memory
  else memcmpLt a.talkListen.streamID.toList r.talkListen.streamID.toList

def msrpAdd (l : List (Attrib MsrpValue)) (r : Attrib MsrpValue) : List (Attrib MsrpValue) :=
  insertByType (fun a b => a.type = b.type) msrpLt l r

def talkerPresent (l : List (Attrib MsrpValue)) (sid : StreamId) : Bool :=
  l.any fun a => msrpSame a.value { type := .TALKER_ADV, talkListen := { streamID := sid } }

def forceMt (r : Registrar) : Registrar :=
  { r with mrpState := .MT }

def msrpMerge (l : List (Attrib MsrpValue)) (r a : Attrib MsrpValue) : Attrib MsrpValue :=
  let a := { a with registrar := { a.registrar with macaddr := r.registrar.macaddr } }
  match a.value.type with
  | .TALKER_ADV | .TALKER_FAILED =>
    if r.value.operation = a.value.operation then
      let v := { a.value with
        talkListen := { a.value.talkListen with
          failureCode := r.value.talkListen.failureCode
          bridgeID := r.value.talkListen.bridgeID } }
      if a.value.type = r.value.type then { a with value := v }
      else
        { a with value := { v with type := r.value.type }, registrar := forceMt a.registrar }
    else a
  | .LISTENER =>
    if a.value.substate = r.value.substate then a
    -- leaving AskingFailed needs a talker for the stream
    else if a.value.substate = listenerAskFailed ∧
        talkerPresent l a.value.talkListen.streamID = false then a
    else
      let v :=
        if r.value.operation = a.value.operation then
          { a.value with substate := r.value.substate }
        else a.value
      { a with value := v, registrar := forceMt a.registrar }
  | .DOMAIN =>
    if a.value.domain.srClassPriority = r.value.domain.srClassPriority ∧
        a.value.domain.srClassVID = r.value.domain.srClassVID then a
    else
      { a with
        value := { a.value with
          domain := { a.value.domain with
            neighborSRclassPriority := r.value.domain.srClassPriority
            srClassVID := r.value.domain.srClassVID } }
        registrar := forceMt a.registrar }

def msrpOps : Ops MsrpValue where
  same := msrpSame
  add := msrpAdd
  merge := msrpMerge

/-! ### Transmission -/

def msrpIncrementStreamid (s : StreamId) : StreamId :=
  incrementBytes 7 s

def TalkListen.advertiseBytes (t : TalkListen) : List UInt8 :=
  t.streamID.toList ++ t.destAddr.toList ++ be16 t.vlanID ++ be16 t.maxFrameSize ++
    be16 t.maxIntervalFrames ++ [t.priorityAndRank] ++ be32 t.accumulatedLatency

/-- `vectorize_talker`: the first attribute with stream id and address replaced by
the incremented ones equals the candidate in every field. -/
def vectorizeTalker (first : MsrpValue) (c : StreamId × MacAddr) (v : MsrpValue) : Bool :=
  { first.talkListen with streamID := c.1, destAddr := c.2 } = v.talkListen

def talkerStart (v : MsrpValue) : StreamId × MacAddr :=
  (v.talkListen.streamID, v.talkListen.destAddr)

def talkerAdvance (c : StreamId × MacAddr) : StreamId × MacAddr :=
  (msrpIncrementStreamid c.1, mmrpIncrementMacaddr c.2)

def msrpTalkerAdvFormat : VectorFormat MsrpValue (StreamId × MacAddr) where
  attributeType := 1
  attributeLength := 25
  listLength := true
  vectorSize := 28
  selects v := v.type = .TALKER_ADV
  vectidx := 25
  firstValue v := v.talkListen.advertiseBytes
  firstValue_length v := by simp [TalkListen.advertiseBytes, be16, be32]
  start := talkerStart
  advance := talkerAdvance
  contiguous := vectorizeTalker

def msrpTalkerFailedFormat : VectorFormat MsrpValue (StreamId × MacAddr) where
  attributeType := 2
  attributeLength := 34
  listLength := true
  vectorSize := 37
  selects v := v.type = .TALKER_FAILED
  vectidx := 34
  firstValue v :=
    v.talkListen.advertiseBytes ++ v.talkListen.bridgeID.toList ++ [v.talkListen.failureCode]
  firstValue_length v := by simp [TalkListen.advertiseBytes, be16, be32]
  start := talkerStart
  advance := talkerAdvance
  contiguous := vectorizeTalker

def msrpListenerFormat : VectorFormat MsrpValue StreamId where
  attributeType := 3
  attributeLength := 8
  listLength := true
  vectorSize := 13
  selects v := v.type = .LISTENER
  vectidx := 8
  firstValue v := v.talkListen.streamID.toList
  firstValue_length v := by simp
  start v := v.talkListen.streamID
  advance := msrpIncrementStreamid
  contiguous _ c v := v.talkListen.streamID == c
  declares := some fun v => v.substate.toNat

/-- `msrp_emit_domainvectors`: one vector for each domain. -/
def msrpDomainFormat : VectorFormat MsrpValue Unit where
  attributeType := 4
  attributeLength := 4
  listLength := true
  vectorSize := 5
  selects v := v.type = .DOMAIN
  vectidx := 4
  firstValue v := [v.domain.srClassID, v.domain.srClassPriority] ++ be16 v.domain.srClassVID
  firstValue_length _ := rfl
  start _ := ()
  advance c := c
  contiguous _ _ _ := false

def markListeners (l : List (Attrib MsrpValue)) : List (Attrib MsrpValue) :=
  l.map fun a =>
    if a.value.type = .LISTENER then
      { a with applicant := { a.applicant with tx := true } }
    else a

def msrpAddr : List UInt8 := [0x01, 0x80, 0xC2, 0x00, 0x00, 0x0E]

def msrpEtype : UInt16 := 0x22EA

def msrpEmit {C : Type} (F : VectorFormat MsrpValue C) (sendEmpty lva : Bool)
    (s : List (Attrib MsrpValue) × List UInt8) :
    List (Attrib MsrpValue) × Option (List UInt8) :=
  let r := emitVectors F maxFrameSize (messageListStart + s.2.length) sendEmpty lva (0, 0) s.1
  (r.1, r.2.map (s.2 ++ ·))

/-- `msrp_emit_listenvectors` fails before it marks the listeners when there is no
room for a vector. -/
def msrpEmitListeners (sendEmpty lva : Bool) (s : List (Attrib MsrpValue) × List UInt8) :
    List (Attrib MsrpValue) × Option (List UInt8) :=
  if maxFrameSize < messageListStart + s.2.length + msrpListenerFormat.vectorSize then (s.1, none)
  else msrpEmit msrpListenerFormat sendEmpty lva (markListeners s.1, s.2)

def msrpMessages (sendEmpty lva : Bool) (l : List (Attrib MsrpValue)) :
    List (Attrib MsrpValue) × Option (List UInt8) :=
  let r1 := msrpEmit msrpTalkerAdvFormat sendEmpty lva (l, [])
  match r1.2 with
  | none => (r1.1, none)
  | some b1 =>
    let r2 := msrpEmit msrpTalkerFailedFormat sendEmpty lva (r1.1, b1)
    match r2.2 with
    | none => (r2.1, none)
    | some b2 =>
      if maxFrameSize ≤ messageListStart + b2.length + endmarkSz then (r2.1, none)
      else
        let r3 := msrpEmitListeners sendEmpty lva (r2.1, b2)
        match r3.2 with
        | none => (r3.1, none)
        | some b3 => msrpEmit msrpDomainFormat sendEmpty lva (r3.1, b3)

def msrpTxpdu (env : Env) (sendEmpty : Bool) (db : Database MsrpValue) :
    Database MsrpValue × Option Frame :=
  let m := { db.mrpDb with lva := { db.mrpDb.lva with tx := false } }
  let r := msrpMessages sendEmpty db.mrpDb.lva.tx db.attribList
  let pdu :=
    match r.2 with
    | none => none
    | some [] => none
    | some bytes =>
      if messageListStart + bytes.length + endmarkSz < maxFrameSize then
        some (mrpFrame msrpAddr env.stationAddr msrpEtype bytes)
      else none
  (⟨m, r.1⟩, pdu)

/-! ### Event function -/

/-- `struct msrp_database`: the set of interesting stream ids holds at most
`maxInteresting` of them. -/
structure MsrpDatabase extends Database MsrpValue where
  interestingStreamIds : List StreamId := []
  maxInteresting : Nat := 8
  enablePruning : Bool := false
  deriving DecidableEq, Repr

def MsrpDatabase.withBase (db : MsrpDatabase) (b : Database MsrpValue) : MsrpDatabase :=
  { db with toDatabase := b }

/-- With pruning, a talker attribute is of interest only if its stream id is in
the set or a listener for it is in the database. -/
def msrpInterested (db : MsrpDatabase) (r : MsrpValue) : Bool :=
  !(r.type.isTalker && db.enablePruning &&
    !db.interestingStreamIds.contains r.talkListen.streamID &&
    (msrpOps.lookup db.attribList { r with type := .LISTENER }).isNone)

def msrpEvent (env : Env) (event : Event) (rattrib : Option (Attrib MsrpValue))
    (db : MsrpDatabase) : MsrpDatabase × Effects MsrpValue :=
  let scan (b : Database MsrpValue) (pdu : Option Frame) (notes : List (Note MsrpValue)) :=
    let x := scanNotify b pdu notes
    (db.withBase x.1, x.2)
  match event with
  | .LVATIMER =>
    let r := lvatimerBranch env (msrpTxpdu env true) db.toDatabase
    scan r.1 r.2 []
  | .RLA =>
    match rattrib with
    | none =>
      (db.withBase { db.toDatabase with mrpDb := mrpJointimerStart env.now db.mrpDb }, {})
    | some r => scan (rlaBranch env (fun v => v.type = r.value.type) db.toDatabase) none []
  | .TX =>
    let r := txBranch env (msrpTxpdu env false) db.toDatabase
    scan r.1 r.2 []
  | .LVTIMER =>
    let r := lvtimerBranch env true db.toDatabase
    scan r.1 none r.2
  -- the periodic timer is ignored in MSRP
  | .PERIODIC => scan db.toDatabase none []
  | .NEW | .JOIN | .RNEW | .RJOININ | .RJOINMT | .LV | .RIN | .RMT | .RLV =>
    match rattrib with
    | none => (db, {})
    | some r =>
      if msrpInterested db r.value then
        let x := attribBranch msrpOps env true event r db.toDatabase
        if x.2.2 then scan x.1 none x.2.1 else (db.withBase x.1, {})
      else scan db.toDatabase none []
  | _ => scan db.toDatabase none []

def msrpReclaim (db : MsrpDatabase) : MsrpDatabase × Effects MsrpValue :=
  let r := reclaim db.toDatabase
  (db.withBase r.1, r.2)

def msrpBye (c : SockAddr) (db : MsrpDatabase) : MsrpDatabase :=
  db.withBase (bye c db.toDatabase)

def msrpInit (env : Env) (maxInteresting : Nat) (enablePruning : Bool) : MsrpDatabase :=
  { mrpDb := mrpLvatimerFsm env.now env.rnd {} .BEGIN
    maxInteresting := max 8 maxInteresting
    enablePruning := enablePruning }

/-! ### Client commands -/

inductive MsrpCmd where
  | query
  | stream (isNew failed : Bool) (t : TalkListen)
  | leaveStream (sid : StreamId)
  | reportListener (sid : StreamId) (substate : UInt32)
  | withdrawListener (sid : StreamId)
  | domainStatus (report : Bool) (d : SrDomain)
  | addInteresting (sid : StreamId)
  | removeInteresting (sid : StreamId)
  | clearInteresting
  | invalid
  deriving DecidableEq, Repr

def MsrpCmd.request (db : MsrpDatabase) : MsrpCmd → Option (Event × MsrpValue)
  | .stream isNew failed t =>
    some (if isNew then .NEW else .JOIN,
      { type := if failed then .TALKER_FAILED else .TALKER_ADV
        talkListen := t
        operation := .DECLARE })
  | .leaveStream sid => some (.LV, { type := .TALKER_ADV, talkListen := { streamID := sid } })
  | .reportListener sid substate =>
    some (.NEW,
      { type := .LISTENER
        talkListen := { streamID := sid }
        substate := substate
        operation := .DECLARE })
  -- a withdrawn listener keeps the substate it has
  | .withdrawListener sid =>
    let v : MsrpValue := { type := .LISTENER, talkListen := { streamID := sid } }
    let substate := (msrpOps.lookup db.attribList v).elim 0 fun a => a.value.substate
    some (.LV, { v with substate := substate })
  | .domainStatus report d =>
    some (if report then .JOIN else .LV,
      { type := .DOMAIN
        domain := { d with neighborSRclassPriority := d.srClassPriority } })
  | _ => none

def dropTalkers (sid : StreamId) (db : MsrpDatabase) : MsrpDatabase :=
  { db with
    attribList := db.attribList.filter fun a =>
      !(a.value.type.isTalker && a.value.talkListen.streamID == sid) }

def msrpPrune (cmd : MsrpCmd) (db : MsrpDatabase) : MsrpDatabase :=
  match cmd with
  | .withdrawListener sid =>
    if db.enablePruning && !db.interestingStreamIds.contains sid then dropTalkers sid db else db
  | .addInteresting sid =>
    if db.enablePruning && !db.interestingStreamIds.contains sid &&
        db.interestingStreamIds.length < db.maxInteresting then
      { db with interestingStreamIds := db.interestingStreamIds ++ [sid] }
    else db
  | .removeInteresting sid =>
    if db.enablePruning && db.interestingStreamIds.contains sid then
      let db := { db with interestingStreamIds := db.interestingStreamIds.erase sid }
      let v : MsrpValue := { type := .LISTENER, talkListen := { streamID := sid } }
      if (msrpOps.lookup db.attribList v).isNone then dropTalkers sid db else db
    else db
  | .clearInteresting => { db with interestingStreamIds := [] }
  | _ => db

def msrpServeCmd (env : Env) (cmd : MsrpCmd) (db : MsrpDatabase) :
    MsrpDatabase × Effects MsrpValue :=
  match cmd.request db with
  | none => (msrpPrune cmd db, {})
  | some (event, v) =>
    let x := msrpEvent env event (some { value := v }) db
    (msrpPrune cmd x.1, x.2)

def msrpRecvCmd (env : Env) (cmd : MsrpCmd) (client : SockAddr) (db : MsrpDatabase) :
    MsrpDatabase × Effects MsrpValue :=
  let db := db.withBase (addClient client db.toDatabase)
  if db.enablePruning && 1 < db.mrpDb.clients.length then (msrpBye client db, {})
  else msrpServeCmd env cmd db

end Avb4Linux.Mrp
