import Avb4Linux.Mrp.Transmit
import Avb4Linux.Mrp.VectorCodec

/-!
# MVRP: reading back a PDU

What `mvrp_recv_msg` makes of the bytes of `mvrp_txpdu`: one call for each
attribute in a vector, after a LeaveAll if the first vector carries the flag.
-/

namespace Avb4Linux.Mrp

open Lib.Packing

def mvrpCall (x : Attrib Vid × PduEvent) : Received Vid :=
  ⟨x.2.received, some x.1.value⟩

def mvrpCalls (vs : List (Vect Vid)) : List (Received Vid) :=
  vs.flatMap fun v => v.values.map mvrpCall

def mvrpFlag (lva : Bool) : List (Received Vid) :=
  if lva then [⟨.RLA, none⟩] else []

theorem mvrpVidEvents_run {first c : Vid} {es : List (Attrib Vid × PduEvent)}
    (hrun : mvrpVidFormat.Run first c (es.map fun x => x.1.value))
    (hvid : ∀ x ∈ es, ¬ 0xFFF < x.1.value) :
    mvrpVidEvents (c + 1) (es.map fun x => x.2.code) = es.map mvrpCall := by
  induction es generalizing c with
  | nil => rfl
  | cons x es ih =>
    obtain ⟨-, hnext, hrun⟩ := hrun
    have hvalue : x.1.value = c + 1 := eq_of_beq hnext
    have hle : ¬ 0xFFF < c + 1 := by
      rw [← hvalue]
      exact hvid x (by simp)
    have hrest := ih hrun fun y hy => hvid y (by simp [hy])
    rw [List.map_cons, mvrpVidEvents, if_neg hle, pduEventOfCode_code]
    exact congrArg₂ List.cons (by rw [← hvalue]; rfl) hrest

structure MvrpReadable (v : Vect Vid) : Prop where
  wellFormed : mvrpVidFormat.WellFormed v
  fill : v.fill = (0, 0)
  length : v.values.length < 8192
  vids : ∀ x ∈ v.values, ¬ 0xFFF < x.1.value

theorem mvrpVid_codec : VectorCodec mvrpVidFormat mvrpVidParser fun vid => ¬ 0xFFF < vid where
  firstLen := rfl
  pos := by decide
  declares := rfl
  values a e es cur hrun haccepts := by
    have hfirst : rd16 (byteAt (be16 a.value ++ cur) 0) (byteAt (be16 a.value ++ cur) 1) =
        a.value := rd16_be16 a.value
    have hle : ¬ 0xFFF < a.value := haccepts (a, e) (by simp)
    have hrest : mvrpVidEvents (a.value + 1) (es.map fun x => x.2.code) = es.map mvrpCall :=
      mvrpVidEvents_run hrun fun x hx => haccepts x (by simp [hx])
    change mvrpVidEvents (rd16 (byteAt (be16 a.value ++ cur) 0) (byteAt (be16 a.value ++ cur) 1))
      (((a, e) :: es).map fun x => x.2.code) = _
    rw [hfirst, List.map_cons, mvrpVidEvents, if_neg hle, pduEventOfCode_code]
    exact congrArg₂ List.cons rfl hrest

theorem mvrpVectors_vector {v : Vect Vid} (hv : MvrpReadable v) (fuel : Nat) (saw : Bool)
    (cur : List UInt8) :
    parseVectors mvrpVidParser (fuel + 1) saw (mvrpVidFormat.vectBytes v ++ cur) =
      (mvrpFlag (v.lva && !saw) ++ v.values.map mvrpCall ++
          (parseVectors mvrpVidParser fuel (saw || v.lva) cur).1,
        (parseVectors mvrpVidParser fuel (saw || v.lva) cur).2) := by
  have hread := mvrpVid_codec.vector ⟨hv.wellFormed, hv.fill, hv.length, hv.vids⟩ fuel saw cur
  have hsaw : (saw || (v.lva && (mvrpVidParser.everyLva || !saw)) && !mvrpVidParser.everyLva) =
      (saw || v.lva) := by
    cases saw <;> cases v.lva <;> rfl
  dsimp only at hread
  rw [hsaw] at hread
  exact hread

theorem mvrpVectors_unflagged {vs : List (Vect Vid)} (hvs : ∀ v ∈ vs, MvrpReadable v)
    (hlva : ∀ v ∈ vs, v.lva = false) {fuel : Nat} (hfuel : vs.length < fuel) (saw : Bool)
    (cur : List UInt8) :
    parseVectors mvrpVidParser fuel saw (mvrpVidFormat.body vs ++ 0 :: 0 :: cur) =
      (mvrpCalls vs, some (0 :: 0 :: cur, saw)) := by
  induction vs generalizing fuel with
  | nil =>
    obtain ⟨fuel, rfl⟩ := Nat.exists_eq_add_one_of_ne_zero (Nat.ne_of_gt hfuel)
    rfl
  | cons v vs ih =>
    obtain ⟨fuel, rfl⟩ := Nat.exists_eq_add_one_of_ne_zero (Nat.ne_of_gt (Nat.zero_lt_of_lt hfuel))
    have hrest := ih (fun w hw => hvs w (by simp [hw])) (fun w hw => hlva w (by simp [hw]))
      (Nat.lt_of_succ_lt_succ hfuel)
    have hbody : mvrpVidFormat.body (v :: vs) ++ 0 :: 0 :: cur =
        mvrpVidFormat.vectBytes v ++ (mvrpVidFormat.body vs ++ 0 :: 0 :: cur) := by
      simp [VectorFormat.body]
    rw [hbody, mvrpVectors_vector (hvs v (by simp)), hlva v (by simp), Bool.or_false, hrest]
    rfl

theorem mvrpVectors_body {v : Vect Vid} {vs : List (Vect Vid)}
    (hvs : ∀ w ∈ v :: vs, MvrpReadable w) (hlva : ∀ w ∈ vs, w.lva = false) {fuel : Nat}
    (hfuel : vs.length + 1 < fuel) (cur : List UInt8) :
    parseVectors mvrpVidParser fuel false (mvrpVidFormat.body (v :: vs) ++ 0 :: 0 :: cur) =
      (mvrpFlag v.lva ++ mvrpCalls (v :: vs), some (0 :: 0 :: cur, v.lva)) := by
  obtain ⟨fuel, rfl⟩ := Nat.exists_eq_add_one_of_ne_zero (Nat.ne_of_gt (Nat.zero_lt_of_lt hfuel))
  have hrest := mvrpVectors_unflagged (fun w hw => hvs w (by simp [hw])) hlva
    (Nat.lt_of_succ_lt_succ hfuel) v.lva cur
  have hbody : mvrpVidFormat.body (v :: vs) ++ 0 :: 0 :: cur =
      mvrpVidFormat.vectBytes v ++ (mvrpVidFormat.body vs ++ 0 :: 0 :: cur) := by
    simp [VectorFormat.body]
  rw [hbody, mvrpVectors_vector (hvs v (by simp)), Bool.false_or, hrest, Bool.not_false,
    Bool.and_true, List.append_assoc]
  rfl

theorem mvrpMessages_endmarks (fuel : Nat) (version : UInt8) (saw : Bool) :
    mvrpMessages (fuel + 2) version 0 saw [0, 0, 0, 0] = [] := rfl

theorem mvrpMessages_message {vs : List (Vect Vid)} (hvs : ∀ v ∈ vs, MvrpReadable v)
    (hlva : ∀ v ∈ vs.tail, v.lva = false) {sendEmpty : Bool}
    (hne : mvrpVidFormat.messageBytes sendEmpty vs ≠ []) {fuel : Nat}
    (hfuel : vs.length + 2 < fuel) (version : UInt8) :
    mvrpMessages (fuel + 1) version 0 false (mvrpVidFormat.messageBytes sendEmpty vs ++ [0, 0]) =
      mvrpFlag (vs.head?.elim sendEmpty Vect.lva) ++ mvrpCalls vs := by
  obtain ⟨fuel, rfl⟩ : ∃ k, fuel = k + 2 := ⟨fuel - 2, by omega⟩
  cases vs with
  | nil =>
    cases sendEmpty with
    | false => exact absurd rfl hne
    | true => rfl
  | cons v vs =>
    have hbytes : mvrpVidFormat.messageBytes sendEmpty (v :: vs) ++ [0, 0] =
        1 :: 2 :: (mvrpVidFormat.body (v :: vs) ++ [0, 0, 0, 0]) := by
      simp [VectorFormat.messageBytes, VectorFormat.message, mvrpVidFormat]
    have hlen : ¬ (1 :: 2 :: (mvrpVidFormat.body (v :: vs) ++ [0, 0, 0, 0])).length ≤
        endmarkSz := by
      simp only [List.length_cons, List.length_append, endmarkSz]
      omega
    have hroom : vs.length + 1 < fuel + 2 := by
      rw [List.length_cons] at hfuel
      omega
    have hread := mvrpVectors_body hvs hlva hroom [0, 0]
    have htype : byteAt (1 :: 2 :: (mvrpVidFormat.body (v :: vs) ++ [0, 0, 0, 0])) 0 = 1 := rfl
    have hend : ¬ (byteAt (1 :: 2 :: (mvrpVidFormat.body (v :: vs) ++ [0, 0, 0, 0])) 0 = 0 ∧
        byteAt (1 :: 2 :: (mvrpVidFormat.body (v :: vs) ++ [0, 0, 0, 0])) 1 = 0) := by
      grind
    rw [hbytes, mvrpMessages, if_neg hlen, if_neg hend, if_pos htype, if_neg (fun h => h rfl)]
    grind [mvrpMessages_endmarks]

theorem mvrpParse_mrpFrame {vs : List (Vect Vid)} (hvs : ∀ v ∈ vs, MvrpReadable v)
    (hlva : ∀ v ∈ vs.tail, v.lva = false) {sendEmpty : Bool}
    (hne : mvrpVidFormat.messageBytes sendEmpty vs ≠ []) (src : MacAddr) :
    mvrpParse (mrpFrame mvrpCustomerBridgeAddr src mvrpEtype
        (mvrpVidFormat.messageBytes sendEmpty vs)) =
      mvrpFlag (vs.head?.elim sendEmpty Vect.lva) ++ mvrpCalls vs := by
  have hdest : mvrpCustomerBridgeAddr.length = 6 := rfl
  have hnonempty : ∀ v ∈ vs, v.values ≠ [] := by
    intro v hv
    obtain ⟨a, e, es, hvalues, -⟩ := (hvs v hv).wellFormed
    simp [hvalues]
  have hbody := mvrpVidFormat.length_le_body hnonempty
  have hlen := length_mrpFrame hdest src mvrpEtype (mvrpVidFormat.messageBytes sendEmpty vs)
  have hmsg : vs.length ≤ (mvrpVidFormat.messageBytes sendEmpty vs).length := by
    cases vs with
    | nil => exact Nat.zero_le _
    | cons v vs =>
      simp only [VectorFormat.messageBytes, List.isEmpty_cons, Bool.false_eq_true, if_false,
        VectorFormat.message, List.length_append]
      omega
  grind [mvrpParse, etype_mrpFrame, take_mrpFrame, drop_mrpFrame, mvrpMessages_message]

end Avb4Linux.Mrp
