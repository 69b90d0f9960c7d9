import Avb4Linux.Mrp.Vectors

/-!
# Reading an MRPDU

What the three `*_recv_msg` functions share.
-/

namespace Avb4Linux.Mrp

open Lib.Packing

def byteAt (cur : List UInt8) (i : Nat) : UInt8 :=
  cur.getD i 0

def headerAt (cur : List UInt8) : UInt16 :=
  rd16 (byteAt cur 0) (byteAt cur 1)

def vectNumvalues (h : UInt16) : Nat :=
  h.toNat % 8192

def vectLva (h : UInt16) : Bool :=
  h.toNat / 8192 = 1

structure Received (V : Type) where
  event : Event
  value : Option V
  deriving DecidableEq, Repr

/-- The digits of the three-packed bytes: one byte more than needed is read, and
of each byte at most the values that are left are used. -/
def eventDigits : Nat → Nat → List UInt8 → List Nat
  | 0, n, bs => (decode3 (bs.headD 0)).take (min 3 n)
  | k + 1, n, bs =>
    (decode3 (bs.headD 0)).take (min 3 n) ++ eventDigits k (n - min 3 n) bs.tail

def numVectorBytes (numvalues : Nat) : Nat :=
  if numvalues ≠ numvalues / 3 * 3 then numvalues / 3 + 1 else numvalues / 3

structure VectorParser (V : Type) where
  firstLen : Nat
  values : List UInt8 → List Nat → List (Received V)
  rla : Received V
  everyLva : Bool := false

def parseVectors {V : Type} (P : VectorParser V) :
    Nat → Bool → List UInt8 → List (Received V) × Option (List UInt8 × Bool)
  | 0, _, _ => ([], none)
  | fuel + 1, saw, cur =>
    if byteAt cur 0 = 0 ∧ byteAt cur 1 = 0 then ([], some (cur, saw))
    else
      let numvalues := vectNumvalues (headerAt cur)
      let lva := vectLva (headerAt cur) && (P.everyLva || !saw)
      let rla := if lva then [P.rla] else []
      if numvalues = 0 ∨ cur.length ≤ 2 + numvalues / 3 then (rla, none)
      else
        let nb := numVectorBytes numvalues
        let digits := eventDigits nb numvalues (cur.drop (2 + P.firstLen))
        let rest := parseVectors P fuel (saw || (lva && !P.everyLva))
          (cur.drop (2 + P.firstLen + nb))
        (rla ++ P.values (cur.drop 2) digits ++ rest.1, rest.2)

def frameSrc (frame : Frame) : MacAddr :=
  Vector.ofFn fun i => byteAt frame (6 + i)

def receivedAttrib {V : Type} (src : MacAddr) (v : V) : Attrib V :=
  { value := v, registrar := { macaddr := src } }

def runReceived {V D E : Type} (step : Event → Option (Attrib V) → D → D × E)
    (src : MacAddr) : List (Received V) → D → D × List E
  | [], db => (db, [])
  | r :: rs, db =>
    let x := step r.event (r.value.map (receivedAttrib src)) db
    let rest := runReceived step src rs x.1
    (rest.1, x.2 :: rest.2)

end Avb4Linux.Mrp
