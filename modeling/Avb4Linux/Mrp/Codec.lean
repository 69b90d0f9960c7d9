import Avb4Linux.Mrp.MsrpReception

/-!
# Reading back packed values

The receive functions recover the digits, the substates and the header that the
emit functions have written, whatever follows in the frame.
-/

namespace Avb4Linux.Mrp

open Lib.Packing

theorem byteAt_append_right (pre cur : List UInt8) (i : Nat) :
    byteAt (pre ++ cur) (pre.length + i) = byteAt cur i := by
  grind [byteAt, Nat.add_sub_cancel_left]

theorem byteAt_append_left {pre : List UInt8} (cur : List UInt8) {i : Nat} (h : i < pre.length) :
    byteAt (pre ++ cur) i = byteAt pre i := by
  simp [byteAt, List.getD_eq_getElem?_getD, List.getElem?_append_left h]

theorem bytesAt_append {n : Nat} (pre : List UInt8) (v : Vector UInt8 n) (cur : List UInt8) :
    bytesAt n (pre ++ (v.toList ++ cur)) pre.length = v := by
  apply Vector.ext
  intro j hj
  have hv : j < v.toList.length := by simpa using hj
  simp only [bytesAt, Vector.getElem_ofFn]
  rw [byteAt_append_right, byteAt_append_left cur hv]
  simp [byteAt, List.getD_eq_getElem?_getD, hj]

theorem numVectorBytes_eq (n : Nat) : numVectorBytes n = (n + 2) / 3 := by
  unfold numVectorBytes
  split <;> omega

theorem numSubstateBytes_eq (n : Nat) : numSubstateBytes n = (n + 3) / 4 := by
  unfold numSubstateBytes
  split <;> omega

theorem eventDigits_pack3 {fill : Nat × Nat} (hfill : fill.1 < 6 ∧ fill.2 < 6) {ds : List Nat}
    (hds : ∀ d ∈ ds, d < 6) (cur : List UInt8) :
    eventDigits ((ds.length + 2) / 3) ds.length (pack3 fill ds ++ cur) = ds := by
  fun_induction pack3 fill ds with
  | case1 => simp [eventDigits]
  | case2 fill x =>
    simp [eventDigits, decode3_encode3 (hds x (by simp)) hfill.1 hfill.2]
  | case3 fill x y =>
    simp [eventDigits, decode3_encode3 (hds x (by simp)) (hds y (by simp)) hfill.2]
  | case4 fill x y z tl ih =>
    have hlen : ((x :: y :: z :: tl).length + 2) / 3 = (tl.length + 2) / 3 + 1 := by
      simp only [List.length_cons]
      omega
    grind [eventDigits, decode3_encode3]

theorem encode3_div {x y z : Nat} (hx : x < 6) (hy : y < 6) (hz : z < 6) :
    (encode3 x y z).toNat / 36 = x := by
  have h := decode3_encode3 hx hy hz
  exact (List.cons.inj h).1

theorem msrpDigits_pack3 {ds : List Nat} (hds : ∀ d ∈ ds, d < 6) (cur : List UInt8) :
    msrpDigits ((ds.length + 2) / 3) ds.length (pack3 (0, 0) ds ++ cur) = ds := by
  -- every packing of the list uses the same filler here
  generalize hf : ((0, 0) : Nat × Nat) = fill
  fun_induction pack3 fill ds with
  | case1 => simp [msrpDigits]
  | case2 fill x =>
    subst hf
    have hx : x < 6 := hds x (by simp)
    simp [msrpDigits, decode3_encode3 hx, encode3_div hx, Nat.not_lt.mpr (Nat.le_of_lt_succ hx)]
  | case3 fill x y =>
    subst hf
    have hx : x < 6 := hds x (by simp)
    have hy : y < 6 := hds y (by simp)
    simp [msrpDigits, decode3_encode3 hx hy, encode3_div hx hy,
      Nat.not_lt.mpr (Nat.le_of_lt_succ hx)]
  | case4 fill x y z tl ih =>
    have hlen : ((x :: y :: z :: tl).length + 2) / 3 = (tl.length + 2) / 3 + 1 := by
      simp only [List.length_cons]
      omega
    grind [msrpDigits, decode3_encode3, encode3_div, Nat.not_lt, Nat.le_of_lt_succ]

theorem substates_pack4 {ds : List Nat} (hds : ∀ d ∈ ds, d < 4) (cur : List UInt8) :
    substates ((ds.length + 3) / 4) ds.length (pack4 ds ++ cur) = ds := by
  fun_induction pack4 ds with
  | case1 => simp [substates]
  | case2 w => simp [substates, decode4_encode4 (hds w (by simp))]
  | case3 w x => simp [substates, decode4_encode4 (hds w (by simp)) (hds x (by simp))]
  | case4 w x y =>
    simp [substates, decode4_encode4 (hds w (by simp)) (hds x (by simp)) (hds y (by simp))]
  | case5 w x y z tl ih =>
    have hlen : ((w :: x :: y :: z :: tl).length + 3) / 4 = (tl.length + 3) / 4 + 1 := by
      simp only [List.length_cons]
      omega
    grind [substates, decode4_encode4]

theorem headerAt_be16 (n : UInt16) (cur : List UInt8) : headerAt (be16 n ++ cur) = n :=
  rd16_be16 n

theorem headerAt_vectorHeader (lva : Bool) (n : Nat) (cur : List UInt8) :
    headerAt (vectorHeader lva n ++ cur) =
      UInt16.ofNat (n % 8192 + if lva then 8192 else 0) :=
  headerAt_be16 _ cur

theorem vectNumvalues_vectorHeader (lva : Bool) {n : Nat} (hn : n < 8192) (cur : List UInt8) :
    vectNumvalues (headerAt (vectorHeader lva n ++ cur)) = n := by
  rw [headerAt_vectorHeader, vectNumvalues]
  cases lva <;> simp <;> omega

theorem vectLva_vectorHeader (lva : Bool) {n : Nat} (hn : n < 8192) (cur : List UInt8) :
    vectLva (headerAt (vectorHeader lva n ++ cur)) = lva := by
  rw [headerAt_vectorHeader, vectLva]
  cases lva <;> simp <;> omega

theorem vectorHeader_ne_endmark {lva : Bool} {n : Nat} (hn : n < 8192)
    (hne : 0 < n ∨ lva = true) (cur : List UInt8) :
    ¬ (byteAt (vectorHeader lva n ++ cur) 0 = 0 ∧ byteAt (vectorHeader lva n ++ cur) 1 = 0) := by
  rintro ⟨h0, h1⟩
  have hheader : headerAt (vectorHeader lva n ++ cur) = 0 := by
    rw [headerAt, h0, h1]
    rfl
  have hvalues := vectNumvalues_vectorHeader lva hn cur
  have hlva := vectLva_vectorHeader lva hn cur
  rw [hheader] at hvalues hlva
  rcases hne with hpos | hflag
  · have hzero : vectNumvalues 0 = 0 := rfl
    omega
  · rw [hflag] at hlva
    exact absurd hlva (by decide)

section

variable {dest : List UInt8} (hdest : dest.length = 6) (src : MacAddr) (etype : UInt16)
  (messages : List UInt8)

theorem mrpFrame_eq : mrpFrame dest src etype messages =
    dest ++ (src.toList ++ (be16 etype ++ (0 :: (messages ++ [0, 0])))) := by
  simp [mrpFrame]

include hdest

theorem length_mrpFrame : (mrpFrame dest src etype messages).length = messages.length + 17 := by
  rw [mrpFrame_eq]
  simp only [List.length_append, hdest, Vector.length_toList, be16, List.length_cons,
    List.length_nil]
  omega

theorem take_mrpFrame : (mrpFrame dest src etype messages).take 6 = dest := by
  rw [mrpFrame_eq]
  exact List.take_left' hdest

theorem etype_mrpFrame : rd16 (byteAt (mrpFrame dest src etype messages) 12)
    (byteAt (mrpFrame dest src etype messages) 13) = etype := by
  have hright : ∀ i, byteAt (mrpFrame dest src etype messages) (12 + i) =
      byteAt (be16 etype ++ (0 :: (messages ++ [0, 0]))) i := by
    intro i
    rw [mrpFrame_eq, ← List.append_assoc]
    have h := byteAt_append_right (dest ++ src.toList)
      (be16 etype ++ (0 :: (messages ++ [0, 0]))) i
    rwa [List.length_append, hdest, Vector.length_toList] at h
  rw [hright 0, hright 1]
  exact rd16_be16 etype

theorem drop_mrpFrame :
    (mrpFrame dest src etype messages).drop messageListStart = messages ++ [0, 0] := by
  have hassoc : mrpFrame dest src etype messages =
      (dest ++ src.toList ++ be16 etype ++ [0]) ++ (messages ++ [0, 0]) := by
    simp [mrpFrame]
  rw [hassoc]
  refine List.drop_left' ?_
  simp [hdest, be16, messageListStart]

theorem frameSrc_mrpFrame : frameSrc (mrpFrame dest src etype messages) = src := by
  have h := bytesAt_append dest src (be16 etype ++ (0 :: (messages ++ [0, 0])))
  rw [← mrpFrame_eq, hdest] at h
  exact h

end

end Avb4Linux.Mrp
