import Avb4Linux.Mrp.Msrp

/-!
# MSRP: reading a PDU

`msrp_recv_msg`. A byte whose first digit is out of range is discarded without moving on to the next
values.
-/

namespace Avb4Linux.Mrp

open Lib.Packing

def msrpDigits : Nat → Nat → List UInt8 → List Nat
  | k, n, bs =>
    let b := bs.headD 0
    let used := if 5 < b.toNat / 36 then [] else (decode3 b).take (min 3 n)
    match k with
    | 0 => used
    | k + 1 => used ++ msrpDigits k (n - min 3 n) bs.tail

def numSubstateBytes (numvalues : Nat) : Nat :=
  if numvalues ≠ numvalues / 4 * 4 then numvalues / 4 + 1 else numvalues / 4

def substates : Nat → Nat → List UInt8 → List Nat
  | 0, _, _ => []
  | k + 1, n, bs =>
    (decode4 (bs.headD 0)).take (min 4 n) ++ substates k (n - min 4 n) bs.tail

def msrpCall (d : Nat) (v : MsrpValue) : List (Received MsrpValue) :=
  match pduEventOfCode d with
  | some e => [⟨e.received, some v⟩]
  | none => []

def bytesAt (n : Nat) (cur : List UInt8) (i : Nat) : Vector UInt8 n :=
  Vector.ofFn fun j => byteAt cur (i + j)

def talkerFields (failed : Bool) (cur : List UInt8) : TalkListen :=
  { streamID := bytesAt 8 cur 0
    destAddr := bytesAt 6 cur 8
    vlanID := rd16 (byteAt cur 14) (byteAt cur 15)
    maxFrameSize := rd16 (byteAt cur 16) (byteAt cur 17)
    maxIntervalFrames := rd16 (byteAt cur 18) (byteAt cur 19)
    priorityAndRank := byteAt cur 20
    accumulatedLatency := rd32 (byteAt cur 21) (byteAt cur 22) (byteAt cur 23) (byteAt cur 24)
    bridgeID := if failed then bytesAt 8 cur 25 else Vector.replicate 8 0
    failureCode := if failed then byteAt cur 33 else 0 }

def msrpTalkerEvents (type : MsrpType) : TalkListen → List Nat → List (Received MsrpValue)
  | _, [] => []
  | t, d :: ds =>
    msrpCall d { type := type, talkListen := t } ++
      msrpTalkerEvents type
        { t with
          streamID := msrpIncrementStreamid t.streamID
          destAddr := mmrpIncrementMacaddr t.destAddr } ds

def msrpListenerEvents : StreamId → List Nat → List Nat → List (Received MsrpValue)
  | sid, d :: ds, s :: ss =>
    (if s = 0 then []
      else
        msrpCall d
          { type := .LISTENER
            talkListen := { streamID := sid }
            substate := UInt32.ofNat s }) ++
      msrpListenerEvents (msrpIncrementStreamid sid) ds ss
  | _, _, _ => []

def msrpDomainEvents : SrDomain → List Nat → List (Received MsrpValue)
  | _, [] => []
  | dom, d :: ds =>
    msrpCall d { type := .DOMAIN, domain := dom } ++
      msrpDomainEvents
        { dom with
          srClassID := dom.srClassID + 1
          srClassPriority := dom.srClassPriority + 1
          neighborSRclassPriority := dom.srClassPriority + 1 } ds

def domainFields (cur : List UInt8) : SrDomain :=
  { srClassID := byteAt cur 0
    srClassPriority := byteAt cur 1
    neighborSRclassPriority := byteAt cur 1
    srClassVID := rd16 (byteAt cur 2) (byteAt cur 3) }

structure MsrpParser where
  type : MsrpType
  firstLen : Nat
  fourPacked : Bool
  values : List UInt8 → List Nat → List Nat → List (Received MsrpValue)

def msrpParser : UInt8 → Option MsrpParser
  | 1 => some ⟨.TALKER_ADV, 25, false,
      fun cur ds _ => msrpTalkerEvents .TALKER_ADV (talkerFields false cur) ds⟩
  | 2 => some ⟨.TALKER_FAILED, 34, false,
      fun cur ds _ => msrpTalkerEvents .TALKER_FAILED (talkerFields true cur) ds⟩
  | 3 => some ⟨.LISTENER, 8, true, fun cur ds ss => msrpListenerEvents (bytesAt 8 cur 0) ds ss⟩
  | 4 => some ⟨.DOMAIN, 4, false, fun cur ds _ => msrpDomainEvents (domainFields cur) ds⟩
  | _ => none

/-- The vectors of a message up to its end mark: the calls made, and the cursor
with the types whose LeaveAll has been seen, or `none` where the function jumps to
`out`. An empty vector is skipped. -/
def msrpVectors (P : MsrpParser) : Nat → List MsrpType → List UInt8 →
    List (Received MsrpValue) × Option (List UInt8 × List MsrpType)
  | 0, _, _ => ([], none)
  | fuel + 1, saw, cur =>
    if byteAt cur 0 = 0 ∧ byteAt cur 1 = 0 then ([], some (cur, saw))
    else
      let n := vectNumvalues (headerAt cur)
      let lva := vectLva (headerAt cur) && !saw.contains P.type
      let rla : List (Received MsrpValue) :=
        if lva then [⟨.RLA, some { type := P.type }⟩] else []
      let saw' := if lva then P.type :: saw else saw
      let nb := numVectorBytes n
      let nb4 := if P.fourPacked then numSubstateBytes n else 0
      if n = 0 then
        let rest := msrpVectors P fuel saw' (cur.drop (2 + P.firstLen))
        (rla ++ rest.1, rest.2)
      else if cur.length ≤ 2 + n / 3 + (if P.fourPacked then n / 4 else 0) then (rla, none)
      else if P.fourPacked && cur.length ≤ 2 + P.firstLen + nb + nb4 then (rla, none)
      else
        let digits := msrpDigits nb n (cur.drop (2 + P.firstLen))
        let subs := substates nb4 n (cur.drop (2 + P.firstLen + nb))
        let rest := msrpVectors P fuel saw' (cur.drop (2 + P.firstLen + nb + nb4))
        (rla ++ P.values (cur.drop 2) digits subs ++ rest.1, rest.2)

def msrpCheckAttribListLen (firstLen : Nat) (cur : List UInt8) : Bool :=
  let listLen := (rd16 (byteAt cur 0) (byteAt cur 1)).toNat
  firstLen + 2 + 1 ≤ listLen && listLen < cur.length &&
    byteAt cur listLen = 0 && byteAt cur (listLen + 1) = 0

def msrpMessageList : Nat → Nat → List MsrpType → List UInt8 → List (Received MsrpValue)
  | 0, _, _, _ => []
  | fuel + 1, endmarks, saw, cur =>
    if cur.length ≤ endmarkSz then []
    else if byteAt cur 0 = 0 ∧ byteAt cur 1 = 0 then
      if endmarks + 1 < 2 then msrpMessageList fuel (endmarks + 1) saw (cur.drop 2) else []
    else
      match msrpParser (byteAt cur 0) with
      | none => []
      | some P =>
        if (byteAt cur 1).toNat ≠ P.firstLen then []
        else if msrpCheckAttribListLen P.firstLen (cur.drop 2) then
          let r := msrpVectors P fuel saw (cur.drop 4)
          match r.2 with
          | none => r.1
          | some (cur', saw') => r.1 ++ msrpMessageList fuel 0 saw' cur'
        else
          let n := vectNumvalues (headerAt (cur.drop 4))
          let skip := 2 + P.firstLen + (n + 2) / 3 + if P.fourPacked then (n + 3) / 4 else 0
          msrpMessageList fuel 0 saw (cur.drop (4 + skip))

def msrpParse (frame : Frame) : List (Received MsrpValue) :=
  if frame.length < 17 then []
  else if rd16 (byteAt frame 12) (byteAt frame 13) ≠ msrpEtype then []
  else if frame.take 6 ≠ msrpAddr then []
  else msrpMessageList (frame.length + 1) 0 [] (frame.drop messageListStart)

def msrpRecvMsg (env : Env) (frame : Frame) (db : MsrpDatabase) :
    MsrpDatabase × List (Effects MsrpValue) :=
  runReceived (msrpEvent env) (frameSrc frame) (msrpParse frame) db

end Avb4Linux.Mrp
