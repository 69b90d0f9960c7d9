import Avb4Linux.Lib.Packing
import Avb4Linux.Mrp.Database

/-!
# Building the vectors of an MRPDU

The seven `*_emit_*vectors` functions are one loop over a `VectorFormat`.
-/

namespace Avb4Linux.Mrp

open Lib.Packing

inductive PduEvent where
  | NEW | JOININ | IN | JOINMT | MT | LV
  deriving DecidableEq, Repr

def PduEvent.code : PduEvent → Nat
  | .NEW => 0
  | .JOININ => 1
  | .IN => 2
  | .JOINMT => 3
  | .MT => 4
  | .LV => 5

def pduEventOfCode : Nat → Option PduEvent
  | 0 => some .NEW
  | 1 => some .JOININ
  | 2 => some .IN
  | 3 => some .JOINMT
  | 4 => some .MT
  | 5 => some .LV
  | _ => none

def PduEvent.received : PduEvent → Event
  | .NEW => .RNEW
  | .JOININ => .RJOININ
  | .IN => .RIN
  | .JOINMT => .RJOINMT
  | .MT => .RMT
  | .LV => .RLV

@[simp]
theorem pduEventOfCode_code (e : PduEvent) : pduEventOfCode e.code = some e := by
  cases e <;> rfl

theorem PduEvent.code_lt (e : PduEvent) : e.code < 6 := by
  cases e <;> decide

def maxFrameSize : Nat := 2000

def endmarkSz : Nat := 2

structure VectorFormat (V C : Type) where
  attributeType : UInt8
  attributeLength : UInt8
  listLength : Bool := false
  vectorSize : Nat
  selects : V → Bool
  vectidx : Nat
  firstValue : V → List UInt8
  firstValue_length : ∀ v, (firstValue v).length = vectidx
  start : V → C
  advance : C → C
  contiguous : V → C → V → Bool
  joinRegistrar : RegState → RegState → RegState := fun _ own => own
  runMargin : Nat := 2
  declares : Option (V → Nat) := none
  clearsVectevt : Bool := true
  lvaOnce : Bool := true
  emptyLva : Bool := true

/-- One vector: the LeaveAll flag, what `vectevt[1]` and `vectevt[2]` held, and
the attributes with the events chosen for them. -/
structure Vect (V : Type) where
  lva : Bool
  fill : Nat × Nat
  values : List (Attrib V × PduEvent)
  deriving DecidableEq, Repr

/-- The `switch (sndmsg)`: whether the registrar is `IN` decides between the two
forms of In and of Join. `none` is the jump to `oops`. -/
def vectevt (sndmsg : SndMsg) (own join : RegState) : Option PduEvent :=
  match sndmsg with
  | .IN => some (if own = .IN then .IN else .MT)
  | .NEW => some .NEW
  | .LV => some .LV
  | .JOIN => some (if join = .IN then .JOININ else .JOINMT)
  | _ => none

variable {V C : Type}

def Attrib.clearTx (a : Attrib V) : Attrib V :=
  { a with applicant := { a.applicant with tx := false } }

/-- `mmrp_increment_macaddr` and `msrp_increment_streamid`: add one to the bytes
from index `i` down to index 1; byte 0 never changes. -/
def incrementBytes {n : Nat} : Nat → Vector UInt8 n → Vector UInt8 n
  | 0, v => v
  | i + 1, v =>
    if v.toList.getD (i + 1) 0 ≠ 255 then
      v.setIfInBounds (i + 1) (v.toList.getD (i + 1) 0 + 1)
    else incrementBytes i (v.setIfInBounds (i + 1) 0)

def mmrpIncrementMacaddr (a : MacAddr) : MacAddr :=
  incrementBytes 5 a

def vectorHeader (lva : Bool) (numvalues : Nat) : List UInt8 :=
  be16 (UInt16.ofNat (numvalues % 8192 + if lva then 8192 else 0))

def VectorFormat.vectBytes (F : VectorFormat V C) (v : Vect V) : List UInt8 :=
  vectorHeader v.lva v.values.length ++
    (v.values.head?.map fun x => F.firstValue x.1.value).getD [] ++
    pack3 v.fill (v.values.map fun x => x.2.code) ++
    (match F.declares with
      | none => []
      | some d => pack4 (v.values.map fun x => d x.1.value))

def VectorFormat.vectEnd (F : VectorFormat V C) (vp n : Nat) : Nat :=
  vp + 2 + F.vectidx + (n + 2) / 3 + (if F.declares.isSome then (n + 3) / 4 else 0)

def VectorFormat.message (F : VectorFormat V C) (body : List UInt8) : List UInt8 :=
  [F.attributeType, F.attributeLength] ++
    (if F.listLength then be16 (UInt16.ofNat (body.length + 2)) else []) ++ body ++ [0, 0]

def VectorFormat.dataStart (F : VectorFormat V C) (base : Nat) : Nat :=
  if F.listLength then base + 4 else base + 2

def VectorFormat.emptyVector (F : VectorFormat V C) : List UInt8 :=
  vectorHeader true 0 ++ List.replicate F.attributeLength.toNat 0

/-- The inner loop: the attributes after `first` that are to be sent and continue
its vector. The first component counts those whose `tx` mark it clears; `none`
is the jump to `oops`. `n` is `numvalues` so far. -/
def vectorize (F : VectorFormat V C) (eof vp : Nat) (first : Attrib V) :
    C → Nat → List (Attrib V) → Nat × Option (List (Attrib V × PduEvent))
  | _, _, [] => (0, some [])
  | c, n, v :: tl =>
    if !F.selects v.value || !v.applicant.tx then (0, some [])
    else if !F.contiguous first.value (F.advance c) v.value then (0, some [])
    else
      match vectevt v.applicant.sndmsg v.registrar.mrpState
          (F.joinRegistrar first.registrar.mrpState v.registrar.mrpState) with
      | none => (1, none)
      | some e =>
        if eof < vp + 2 + F.vectidx + (n + 1) / 3 + F.runMargin then (1, none)
        else
          let rest := vectorize F eof vp first (F.advance c) (n + 1) tl
          (rest.1 + 1, rest.2.map ((v, e) :: ·))

def fourPackRoom (eof : Nat) : Nat → Nat → Bool
  | _, 0 => true
  | pos, q + 1 => pos + 2 ≤ eof && pos + 1 + 3 ≤ eof && fourPackRoom eof (pos + 1) q

def VectorFormat.room (F : VectorFormat V C) (eof vp n : Nat) : Bool :=
  (F.declares.isNone || fourPackRoom eof (vp + 2 + F.vectidx + (n + 2) / 3) (n / 4)) &&
    F.vectEnd vp n + endmarkSz ≤ eof

def emitLoop (F : VectorFormat V C) (eof : Nat) :
    Nat → Nat → Nat → Bool → Nat × Nat → List (Attrib V) →
      List (Attrib V) × Option (List (Vect V))
  | _, _, _, _, _, [] => ([], some [])
  | skip + 1, ptr, vp, lva, fill, a :: tl =>
    let rest := emitLoop F eof skip ptr vp lva fill tl
    (a.clearTx :: rest.1, rest.2)
  | 0, ptr, vp, lva, fill, a :: tl =>
    if eof ≤ ptr + F.vectorSize + endmarkSz then (a :: tl, some [])
    else if !F.selects a.value || !a.applicant.tx then
      let rest := emitLoop F eof 0 ptr vp lva fill tl
      (a :: rest.1, rest.2)
    else if a.applicant.encode = .OPTIONAL then
      let rest := emitLoop F eof 0 ptr vp lva fill tl
      (a.clearTx :: rest.1, rest.2)
    else
      match vectevt a.applicant.sndmsg a.registrar.mrpState a.registrar.mrpState with
      | none => (a.clearTx :: tl, none)
      | some e =>
        let run := vectorize F eof vp a (F.start a.value) 1 tl
        let cleared := a.clearTx :: ((tl.take run.1).map Attrib.clearTx ++ tl.drop run.1)
        match run.2 with
        | none => (cleared, none)
        | some es =>
          let v : Vect V := ⟨lva, fill, (a, e) :: es⟩
          if F.room eof vp v.values.length then
            let vp' := F.vectEnd vp v.values.length
            let fill' :=
              if F.clearsVectevt then (0, 0)
              else pack3Rest fill (v.values.map fun x => x.2.code)
            let rest := emitLoop F eof run.1 vp' vp' (lva && !F.lvaOnce) fill' tl
            (a.clearTx :: rest.1, rest.2.map (v :: ·))
          else (cleared, none)

/-- An emit function: the attribute list with its `tx` marks as they are left,
and the bytes of the message, empty when there is nothing to send. `none` is the
return at `oops`. -/
def emitVectors (F : VectorFormat V C) (eof base : Nat) (sendEmpty lva : Bool)
    (fill : Nat × Nat) (l : List (Attrib V)) : List (Attrib V) × Option (List UInt8) :=
  if eof < base + F.vectorSize then (l, none)
  else
    let r := emitLoop F eof 0 base (F.dataStart base) lva fill l
    (r.1, r.2.map fun vs =>
      if vs.isEmpty then
        if sendEmpty && F.emptyLva then F.message F.emptyVector else []
      else F.message (vs.flatMap F.vectBytes))

/-- Destination, source, ethertype and protocol version 0 before the messages,
and the end mark of the message list after them. -/
def mrpFrame (dest : List UInt8) (src : MacAddr) (etype : UInt16) (messages : List UInt8) :
    Frame :=
  dest ++ src.toList ++ be16 etype ++ [0] ++ messages ++ [0, 0]

def messageListStart : Nat := 15

end Avb4Linux.Mrp
