import Mathlib.Tactic.Common
import Mathlib.Data.List.Basic

/-!
# Packed digits and big-endian integers

Three digits below 6, or four below 4, in one byte, and 16 and 32 bit integers in network byte
order.
-/

namespace Avb4Linux.Lib.Packing

def encode3 (x y z : Nat) : UInt8 :=
  UInt8.ofNat ((x * 6 + y) * 6 + z)

def decode3 (b : UInt8) : List Nat :=
  [b.toNat / 36, (b.toNat - b.toNat / 36 * 36) / 6,
    b.toNat - 36 * (b.toNat / 36) - 6 * ((b.toNat - b.toNat / 36 * 36) / 6)]

theorem decode3_encode3 {x y z : Nat} (hx : x < 6) (hy : y < 6) (hz : z < 6) :
    decode3 (encode3 x y z) = [x, y, z] := by
  grind [encode3, UInt8.toNat_ofNat_of_lt', decode3]

/-- Pack a list of digits three to a byte. `fill` completes the first byte when
the list ends inside it; a later byte is completed with zeros. -/
def pack3 (fill : Nat × Nat) : List Nat → List UInt8
  | [] => []
  | [x] => [encode3 x fill.1 fill.2]
  | [x, y] => [encode3 x y fill.2]
  | x :: y :: z :: tl => encode3 x y z :: pack3 (0, 0) tl

def pack3Rest (fill : Nat × Nat) : List Nat → Nat × Nat
  | [] => fill
  | [_] => fill
  | [_, y] => (y, fill.2)
  | _ :: _ :: _ :: tl => pack3Rest (0, 0) tl

@[simp]
theorem length_pack3 (fill : Nat × Nat) (ds : List Nat) :
    (pack3 fill ds).length = (ds.length + 2) / 3 := by
  fun_induction pack3 fill ds with
  | case1 => rfl
  | case2 => simp
  | case3 => simp
  | case4 fill x y z tl ih =>
    simp only [List.length_cons, ih]
    omega

def encode4 (w x y z : Nat) : UInt8 :=
  UInt8.ofNat (w * 64 + x * 16 + y * 4 + z)

def decode4 (b : UInt8) : List Nat :=
  [b.toNat / 64 % 4, b.toNat / 16 % 4, b.toNat / 4 % 4, b.toNat % 4]

theorem decode4_encode4 {w x y z : Nat} (hw : w < 4) (hx : x < 4) (hy : y < 4)
    (hz : z < 4) :
    decode4 (encode4 w x y z) = [w, x, y, z] := by
  grind [encode4, UInt8.toNat_ofNat_of_lt', decode4]

def pack4 : List Nat → List UInt8
  | [] => []
  | [w] => [encode4 w 0 0 0]
  | [w, x] => [encode4 w x 0 0]
  | [w, x, y] => [encode4 w x y 0]
  | w :: x :: y :: z :: tl => encode4 w x y z :: pack4 tl

@[simp]
theorem length_pack4 (ds : List Nat) : (pack4 ds).length = (ds.length + 3) / 4 := by
  fun_induction pack4 ds with
  | case1 => rfl
  | case2 => simp
  | case3 => simp
  | case4 => simp
  | case5 w x y z tl ih =>
    simp only [List.length_cons, ih]
    omega

def be16 (n : UInt16) : List UInt8 :=
  [UInt8.ofNat (n.toNat / 256), UInt8.ofNat n.toNat]

def rd16 (hi lo : UInt8) : UInt16 :=
  UInt16.ofNat (hi.toNat * 256 + lo.toNat)

def be32 (n : UInt32) : List UInt8 :=
  [UInt8.ofNat (n.toNat / 16777216), UInt8.ofNat (n.toNat / 65536),
    UInt8.ofNat (n.toNat / 256), UInt8.ofNat n.toNat]

def rd32 (b3 b2 b1 b0 : UInt8) : UInt32 :=
  UInt32.ofNat (b3.toNat * 16777216 + b2.toNat * 65536 + b1.toNat * 256 + b0.toNat)

theorem rd16_be16 (n : UInt16) :
    rd16 (UInt8.ofNat (n.toNat / 256)) (UInt8.ofNat n.toNat) = n := by
  have hn : n.toNat < 65536 := n.toNat_lt
  apply UInt16.toNat_inj.mp
  simp only [rd16, UInt8.toNat_ofNat', UInt16.toNat_ofNat']
  omega

theorem rd32_be32 (n : UInt32) :
    rd32 (UInt8.ofNat (n.toNat / 16777216)) (UInt8.ofNat (n.toNat / 65536))
      (UInt8.ofNat (n.toNat / 256)) (UInt8.ofNat n.toNat) = n := by
  have hn : n.toNat < 4294967296 := n.toNat_lt
  apply UInt32.toNat_inj.mp
  simp only [rd32, UInt8.toNat_ofNat', UInt32.toNat_ofNat']
  omega

end Avb4Linux.Lib.Packing
