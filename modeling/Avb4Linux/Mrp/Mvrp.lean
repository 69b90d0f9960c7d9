import Avb4Linux.Mrp.Reception

/-!
# MVRP

`daemons/mrpd/mvrp.c`. `send_empty_LeaveAll_flag`, set only around the call of `mvrp_txpdu` in the
LeaveAll branch, is an argument of `mvrpTxpdu`.
-/

namespace Avb4Linux.Mrp

open Lib.Packing

abbrev Vid := UInt16

def mvrpAdd : List (Attrib Vid) → Attrib Vid → List (Attrib Vid)
  | [], r => [r]
  | a :: tl, r => if a.value < r.value then a :: mvrpAdd tl r else r :: a :: tl

def mvrpMerge (_ : List (Attrib Vid)) (r a : Attrib Vid) : Attrib Vid :=
  { a with registrar := { a.registrar with macaddr := r.registrar.macaddr } }

def mvrpOps : Ops Vid where
  same a v := a == v
  add := mvrpAdd
  merge := mvrpMerge

/-! ### Transmission -/

def mvrpVidFormat : VectorFormat Vid Vid where
  attributeType := 1
  attributeLength := 2
  vectorSize := 6
  selects _ := true
  vectidx := 2
  firstValue := be16
  firstValue_length _ := rfl
  start v := v
  advance c := c + 1
  contiguous _ c v := v == c

def mvrpCustomerBridgeAddr : List UInt8 := [0x01, 0x80, 0xC2, 0x00, 0x00, 0x21]

def mvrpEtype : UInt16 := 0x88F5

def mvrpTxpdu (env : Env) (sendEmpty : Bool) (db : Database Vid) :
    Database Vid × Option Frame :=
  let lva := db.mrpDb.lva.tx
  let m := { db.mrpDb with lva := { db.mrpDb.lva with tx := false } }
  let r := emitVectors mvrpVidFormat maxFrameSize messageListStart sendEmpty lva (0, 0)
    db.attribList
  let pdu :=
    match r.2 with
    | none => none
    | some [] => none
    | some bytes =>
      if messageListStart + bytes.length + endmarkSz < maxFrameSize then
        some (mrpFrame mvrpCustomerBridgeAddr env.stationAddr mvrpEtype bytes)
      else none
  (⟨m, r.1⟩, pdu)

/-! ### Event function -/

def mvrpEvent (env : Env) (event : Event) (rattrib : Option (Attrib Vid))
    (db : Database Vid) : Database Vid × Effects Vid :=
  match event with
  | .LVATIMER =>
    let r := lvatimerBranch env (mvrpTxpdu env true) db
    scanNotify r.1 r.2 []
  | .RLA => scanNotify (rlaBranch env (fun _ => true) db) none []
  | .TX =>
    let r := txBranch env (mvrpTxpdu env false) db
    scanNotify r.1 r.2 []
  | .LVTIMER =>
    let r := lvtimerBranch env true db
    scanNotify r.1 none r.2
  | .PERIODIC => scanNotify (periodicBranch env db) none []
  | .NEW | .JOIN | .RNEW | .RJOININ | .RJOINMT | .LV | .RIN | .RMT | .RLV =>
    match rattrib with
    | none => ({ db with mrpDb := mrpJointimerStart env.now db.mrpDb }, {})
    | some r =>
      let x := attribBranch mvrpOps env true event r db
      if x.2.2 then scanNotify x.1 none x.2.1 else (x.1, {})
  | _ => scanNotify db none []

def mvrpReclaim (db : Database Vid) : Database Vid × Effects Vid :=
  reclaim db

def mvrpBye (c : SockAddr) (db : Database Vid) : Database Vid :=
  bye c db

def mvrpInit (env : Env) : Database Vid :=
  { mrpDb := mrpLvatimerFsm env.now env.rnd {} .BEGIN }

/-! ### Client commands -/

def mvrpRecvCmd (env : Env) (cmd : Cmd Vid) (client : SockAddr) (db : Database Vid) :
    Database Vid × Effects Vid :=
  recvCmd (mvrpEvent env) cmd client db

/-! ### Reception -/

def mvrpVidEvents : Vid → List Nat → List (Received Vid)
  | _, [] => []
  | vid, d :: ds =>
    if 0xFFF < vid then mvrpVidEvents vid ds
    else
      match pduEventOfCode d with
      | some e => ⟨e.received, some vid⟩ :: mvrpVidEvents (vid + 1) ds
      | none => mvrpVidEvents (vid + 1) ds

def mvrpVidParser : VectorParser Vid where
  firstLen := 2
  values cur digits := mvrpVidEvents (rd16 (byteAt cur 0) (byteAt cur 1)) digits
  rla := ⟨.RLA, none⟩

def mvrpMessages : Nat → UInt8 → Nat → Bool → List UInt8 → List (Received Vid)
  | 0, _, _, _, _ => []
  | fuel + 1, version, endmarks, saw, cur =>
    if cur.length ≤ endmarkSz then []
    else if byteAt cur 0 = 0 ∧ byteAt cur 1 = 0 then
      if endmarks + 1 < 2 then mvrpMessages fuel version (endmarks + 1) saw (cur.drop 2)
      else []
    else if byteAt cur 0 = 1 then
      if byteAt cur 1 ≠ 2 then []
      else
        let r := parseVectors mvrpVidParser fuel saw (cur.drop 2)
        match r.2 with
        | none => r.1
        | some (cur', saw') => r.1 ++ mvrpMessages fuel version 0 saw' cur'
    else if version = 0 then []
    else
      let numvalues := vectNumvalues (headerAt (cur.drop 2))
      mvrpMessages fuel version 0 saw
        (cur.drop (2 + (2 + (byteAt cur 1).toNat + (numvalues + 2) / 3)))

def mvrpParse (frame : Frame) : List (Received Vid) :=
  if frame.length < 17 then []
  else if rd16 (byteAt frame 12) (byteAt frame 13) ≠ mvrpEtype then []
  else if frame.take 6 ≠ mvrpCustomerBridgeAddr then []
  else mvrpMessages (frame.length + 1) (byteAt frame 14) 0 false (frame.drop messageListStart)

def mvrpRecvMsg (env : Env) (frame : Frame) (db : Database Vid) :
    Database Vid × List (Effects Vid) :=
  runReceived (mvrpEvent env) (frameSrc frame) (mvrpParse frame) db

end Avb4Linux.Mrp
