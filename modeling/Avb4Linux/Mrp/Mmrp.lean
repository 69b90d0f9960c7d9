import Avb4Linux.Mrp.Reception

/-!
# MMRP

`daemons/mrpd/mmrp.c`. A received LeaveAll concerns one attribute type, and attributes are reclaimed
only by the garbage collector.
-/

namespace Avb4Linux.Mrp

open Lib.Packing

inductive MmrpValue where
  | svcreq (v : UInt8)
  | macaddr (a : MacAddr)
  deriving DecidableEq, Repr

def MmrpValue.sameType : MmrpValue → MmrpValue → Bool
  | .svcreq _, .svcreq _ => true
  | .macaddr _, .macaddr _ => true
  | _, _ => false

def MmrpValue.lt : MmrpValue → MmrpValue → Bool
  | .svcreq v, .svcreq w => v < w
  | .macaddr a, .macaddr b => memcmpLt a.toList b.toList
  | _, _ => false

def mmrpAdd (l : List (Attrib MmrpValue)) (r : Attrib MmrpValue) : List (Attrib MmrpValue) :=
  insertByType MmrpValue.sameType MmrpValue.lt l r

def mmrpMerge (_ : List (Attrib MmrpValue)) (r a : Attrib MmrpValue) : Attrib MmrpValue :=
  { a with registrar := { a.registrar with macaddr := r.registrar.macaddr } }

def mmrpOps : Ops MmrpValue where
  same a v := a == v
  add := mmrpAdd
  merge := mmrpMerge

def MmrpValue.mac : MmrpValue → MacAddr
  | .macaddr a => a
  | .svcreq _ => Vector.replicate 6 0

def MmrpValue.svc : MmrpValue → UInt8
  | .svcreq v => v
  | .macaddr _ => 0

/-- `mmrp_emit_macvectors`: a Join of a further attribute is decided by the first
attribute's registrar, every vector carries the LeaveAll flag, and there is no
empty LeaveAll. -/
def mmrpMacFormat : VectorFormat MmrpValue MacAddr where
  attributeType := 2
  attributeLength := 6
  vectorSize := 11
  selects v := MmrpValue.sameType v (.macaddr (Vector.replicate 6 0))
  vectidx := 6
  firstValue v := v.mac.toList
  firstValue_length v := by simp
  start v := v.mac
  advance := mmrpIncrementMacaddr
  contiguous _ c v := v.mac == c
  joinRegistrar first _ := first
  runMargin := 11
  lvaOnce := false
  emptyLva := false

/-- `mmrp_emit_svcvectors`: the packed bytes start at index 2 although the first
value has one byte, and `vectevt[1]`, `vectevt[2]` are not cleared. -/
def mmrpSvcFormat : VectorFormat MmrpValue UInt8 where
  attributeType := 1
  attributeLength := 1
  vectorSize := 6
  selects v := MmrpValue.sameType v (.svcreq 0)
  vectidx := 2
  firstValue v := [v.svc, 0]
  firstValue_length _ := rfl
  start v := v.svc
  advance c := c + 1
  contiguous _ c v := v.svc == c
  clearsVectevt := false

def mmrpAddr : List UInt8 := [0x01, 0x80, 0xC2, 0x00, 0x00, 0x20]

def mmrpEtype : UInt16 := 0x88F6

def mmrpTxpdu (env : Env) (sendEmpty : Bool) (db : Database MmrpValue) :
    Database MmrpValue × Option Frame :=
  let lva := db.mrpDb.lva.tx
  let m := { db.mrpDb with lva := { db.mrpDb.lva with tx := false } }
  let mac := emitVectors mmrpMacFormat maxFrameSize messageListStart sendEmpty lva (0, 0)
    db.attribList
  match mac.2 with
  | none => (⟨m, mac.1⟩, none)
  | some macBytes =>
    let ptr := messageListStart + macBytes.length
    if maxFrameSize ≤ ptr + endmarkSz then (⟨m, mac.1⟩, none)
    else
      let svc := emitVectors mmrpSvcFormat maxFrameSize ptr sendEmpty lva env.stack mac.1
      match svc.2 with
      | none => (⟨m, svc.1⟩, none)
      | some svcBytes =>
        let bytes := macBytes ++ svcBytes
        if bytes.isEmpty then (⟨m, svc.1⟩, none)
        else if messageListStart + bytes.length + endmarkSz < maxFrameSize then
          (⟨m, svc.1⟩, some (mrpFrame mmrpAddr env.stationAddr mmrpEtype bytes))
        else (⟨m, svc.1⟩, none)

def mmrpEvent (env : Env) (event : Event) (rattrib : Option (Attrib MmrpValue))
    (db : Database MmrpValue) : Database MmrpValue × Effects MmrpValue :=
  match event with
  | .LVATIMER =>
    let r := lvatimerBranch env (mmrpTxpdu env true) db
    scanNotify r.1 r.2 []
  | .RLA =>
    match rattrib with
    | none => ({ db with mrpDb := mrpJointimerStart env.now db.mrpDb }, {})
    | some r => scanNotify (rlaBranch env (fun v => v.sameType r.value) db) none []
  | .TX =>
    let r := txBranch env (mmrpTxpdu env false) db
    scanNotify r.1 r.2 []
  | .LVTIMER =>
    let r := lvtimerBranch env false db
    scanNotify r.1 none r.2
  | .PERIODIC => scanNotify (periodicBranch env db) none []
  | .NEW | .JOIN | .RNEW | .RJOININ | .RJOINMT | .LV | .RIN | .RMT | .RLV =>
    match rattrib with
    | none => ({ db with mrpDb := mrpJointimerStart env.now db.mrpDb }, {})
    | some r =>
      let x := attribBranch mmrpOps env false event r db
      if x.2.2 then scanNotify x.1 none x.2.1 else (x.1, {})
  | _ => scanNotify db none []

def mmrpReclaim (db : Database MmrpValue) : Database MmrpValue × Effects MmrpValue :=
  reclaim db

def mmrpBye (c : SockAddr) (db : Database MmrpValue) : Database MmrpValue :=
  bye c db

def mmrpInit (env : Env) : Database MmrpValue :=
  { mrpDb := mrpLvatimerFsm env.now env.rnd {} .BEGIN }

/-- `mmrp_recv_cmd`: `M??`, and `M--`, `M+?` and `M++` of a MAC address or a
service requirement. -/
def mmrpRecvCmd (env : Env) (cmd : Cmd MmrpValue) (client : SockAddr)
    (db : Database MmrpValue) : Database MmrpValue × Effects MmrpValue :=
  recvCmd (mmrpEvent env) cmd client db

def mmrpSvcEvents : UInt8 → List Nat → List (Received MmrpValue)
  | _, [] => []
  | v, d :: ds =>
    if 1 < v then mmrpSvcEvents v ds
    else
      match pduEventOfCode d with
      | some e => ⟨e.received, some (.svcreq v)⟩ :: mmrpSvcEvents (v + 1) ds
      | none => mmrpSvcEvents (v + 1) ds

def mmrpMacEvents : MacAddr → List Nat → List (Received MmrpValue)
  | _, [] => []
  | a, d :: ds =>
    match pduEventOfCode d with
    | some e => ⟨e.received, some (.macaddr a)⟩ :: mmrpMacEvents (mmrpIncrementMacaddr a) ds
    | none => mmrpMacEvents (mmrpIncrementMacaddr a) ds

def mmrpSvcParser : VectorParser MmrpValue where
  firstLen := 1
  values cur digits := mmrpSvcEvents (byteAt cur 0) digits
  rla := ⟨.RLA, some (.svcreq 0)⟩

def mmrpMacParser : VectorParser MmrpValue where
  firstLen := 6
  values cur digits := mmrpMacEvents (Vector.ofFn fun i => byteAt cur i) digits
  rla := ⟨.RLA, some (.macaddr (Vector.replicate 6 0))⟩
  everyLva := true

def mmrpMessages : Nat → Nat → Bool → List UInt8 → List (Received MmrpValue)
  | 0, _, _, _ => []
  | fuel + 1, endmarks, saw, cur =>
    if cur.length ≤ endmarkSz then []
    else if byteAt cur 0 = 0 ∧ byteAt cur 1 = 0 then
      if endmarks + 1 < 2 then mmrpMessages fuel (endmarks + 1) saw (cur.drop 2) else []
    else
      let parser :=
        if byteAt cur 0 = 1 ∧ byteAt cur 1 = 1 then some mmrpSvcParser
        else if byteAt cur 0 = 2 ∧ byteAt cur 1 = 6 then some mmrpMacParser
        else none
      match parser with
      | none => []
      | some P =>
        let r := parseVectors P fuel saw (cur.drop 2)
        match r.2 with
        | none => r.1
        | some (cur', saw') => r.1 ++ mmrpMessages fuel 0 saw' cur'

def mmrpParse (frame : Frame) : List (Received MmrpValue) :=
  if frame.length < 17 then []
  else if rd16 (byteAt frame 12) (byteAt frame 13) ≠ mmrpEtype then []
  else if frame.take 6 ≠ mmrpAddr then []
  else mmrpMessages (frame.length + 1) 0 false (frame.drop messageListStart)

def mmrpRecvMsg (env : Env) (frame : Frame) (db : Database MmrpValue) :
    Database MmrpValue × List (Effects MmrpValue) :=
  runReceived (mmrpEvent env) (frameSrc frame) (mmrpParse frame) db

end Avb4Linux.Mrp
