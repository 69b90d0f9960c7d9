import Mathlib.Data.List.Lex
import Mathlib.Data.Nat.Basic

/-!
# Comparison of byte strings

`memcmp`, and the order on strings of one length that it decides.
-/

namespace Avb4Linux.Lib

def memcmp : List UInt8 → List UInt8 → Int
  | a :: as, b :: bs => if a = b then memcmp as bs else a.toNat - b.toNat
  | _, _ => 0

def byteValues (bs : List UInt8) : List Nat :=
  bs.map UInt8.toNat

theorem byteValues_injective {as bs : List UInt8} (h : byteValues as = byteValues bs) : as = bs :=
  List.map_injective_iff.mpr (fun _ _ => UInt8.toNat_inj.mp) h

theorem memcmp_neg_iff {as bs : List UInt8} (h : as.length = bs.length) :
    memcmp as bs < 0 ↔ byteValues as < byteValues bs := by
  induction as generalizing bs with
  | nil =>
    grind [List.length_eq_zero_iff, memcmp, byteValues]
  | cons a as ih =>
    obtain _ | ⟨b, bs⟩ := bs
    all_goals grind [byteValues, List.cons_lt_cons_iff, memcmp, UInt8.toNat_inj]

theorem memcmp_neg_irrefl (as : List UInt8) : ¬ memcmp as as < 0 := by
  rw [memcmp_neg_iff rfl]
  exact lt_irrefl _

theorem memcmp_neg_swap {as bs : List UInt8} (h : as.length = bs.length) (hne : as ≠ bs) :
    memcmp as bs < 0 ↔ ¬ memcmp bs as < 0 := by
  grind [memcmp_neg_iff, not_lt, le_of_lt, lt_of_le_of_ne, byteValues_injective]

end Avb4Linux.Lib
