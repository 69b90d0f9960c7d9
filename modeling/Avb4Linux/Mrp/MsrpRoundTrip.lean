import Avb4Linux.Mrp.Branches
import Avb4Linux.Mrp.MsrpCodec

/-!
# MSRP: the round trip of a PDU

`msrp_recv_msg` applied to the bytes of `msrp_txpdu`: the walk over the messages
finds the vectors of the four attribute types one after the other.
-/

namespace Avb4Linux.Mrp

open Lib.Packing List

variable {C : Type} {F : VectorFormat MsrpValue C} {P : MsrpParser}

structure VectorFormat.ReadableBody (F : VectorFormat MsrpValue C) (vs : List (Vect MsrpValue)) :
    Prop where
  readable : ∀ v ∈ vs, F.Readable v
  lva : ∀ v ∈ vs.tail, v.lva = false

variable {vs : List (Vect MsrpValue)} {fuel : Nat} {saw : List MsrpType} {bytes cur : List UInt8}
  {l : List (Attrib MsrpValue)} {s : List (Attrib MsrpValue) × List UInt8} {lva sendEmpty : Bool}

theorem MsrpCodec.vectors_false (h : MsrpCodec F P) (hvs : ∀ v ∈ vs, F.Readable v)
    (hlva : ∀ v ∈ vs, v.lva = false) (hfuel : vs.length < fuel) (saw : List MsrpType)
    (cur : List UInt8) :
    msrpVectors P fuel saw (F.body vs ++ 0 :: 0 :: cur) =
      (vs.flatMap fun v => v.values.flatMap msrpEncodedCall, some (0 :: 0 :: cur, saw)) := by
  induction vs generalizing fuel with
  | nil =>
    obtain ⟨fuel, rfl⟩ := Nat.exists_eq_add_one_of_ne_zero (Nat.ne_of_gt hfuel)
    rfl
  | cons v vs ih =>
    obtain ⟨fuel, rfl⟩ := Nat.exists_eq_add_one_of_ne_zero (Nat.ne_of_gt (Nat.zero_lt_of_lt hfuel))
    have hrest := ih (fun w hw => hvs w (by simp [hw])) (fun w hw => hlva w (by simp [hw]))
      (Nat.lt_of_succ_lt_succ hfuel)
    have hbody : F.body (v :: vs) ++ 0 :: 0 :: cur =
        F.vectBytes v ++ (F.body vs ++ 0 :: 0 :: cur) := by
      simp [VectorFormat.body]
    have hflag : msrpFlag P.type v.lva saw = ([], saw) := by
      rw [hlva v (by simp)]
      rfl
    have hcur : 2 ≤ (F.body vs ++ 0 :: 0 :: cur).length := by
      simp only [length_append, length_cons]
      omega
    rw [hbody, h.vector (hvs v (by simp)) fuel saw hcur, hflag]
    dsimp only
    rw [hrest]
    rfl

theorem MsrpCodec.vectors (h : MsrpCodec F P) (hvs : F.ReadableBody vs) (hfuel : vs.length < fuel)
    (saw : List MsrpType) (cur : List UInt8) :
    msrpVectors P fuel saw (F.body vs ++ 0 :: 0 :: cur) =
      (let flag := msrpFlag P.type (vs.head?.elim false Vect.lva) saw
      (flag.1 ++ vs.flatMap fun v => v.values.flatMap msrpEncodedCall,
        some (0 :: 0 :: cur, flag.2))) := by
  cases vs with
  | nil => exact h.vectors_false (by simp) (by simp) hfuel saw cur
  | cons v vs =>
    obtain ⟨fuel, rfl⟩ := Nat.exists_eq_add_one_of_ne_zero (Nat.ne_of_gt (Nat.zero_lt_of_lt hfuel))
    have hbody : F.body (v :: vs) ++ 0 :: 0 :: cur =
        F.vectBytes v ++ (F.body vs ++ 0 :: 0 :: cur) := by
      simp [VectorFormat.body]
    have hcur : 2 ≤ (F.body vs ++ 0 :: 0 :: cur).length := by
      simp only [length_append, length_cons]
      omega
    have hreadable : ∀ w ∈ vs, F.Readable w := fun w hw => hvs.readable w (by simp [hw])
    have hrest := h.vectors_false hreadable hvs.lva (Nat.lt_of_succ_lt_succ hfuel)
      (msrpFlag P.type v.lva saw).2 cur
    rw [hbody, h.vector (hvs.readable v (by simp)) fuel saw hcur]
    dsimp only
    rw [hrest]
    simp

theorem MsrpCodec.emptyVector (h : MsrpCodec F P) (fuel : Nat) (saw : List MsrpType)
    (cur : List UInt8) :
    msrpVectors P (fuel + 2) saw (F.emptyVector ++ 0 :: 0 :: cur) =
      (let flag := msrpFlag P.type true saw
      (flag.1, some (0 :: 0 :: cur, flag.2))) := by
  have hbytes : F.emptyVector ++ 0 :: 0 :: cur = vectorHeader true 0 ++
      (List.replicate F.vectidx 0 ++ 0 :: 0 :: cur) := by
    rw [VectorFormat.emptyVector, h.attributeLength, append_assoc]
  have hdrop : (F.emptyVector ++ 0 :: 0 :: cur).drop (2 + P.firstLen) = 0 :: 0 :: cur := by
    rw [h.firstLen, ← drop_drop, hbytes]
    exact drop_left' length_replicate
  have hend : ¬ (byteAt (F.emptyVector ++ 0 :: 0 :: cur) 0 = 0 ∧
      byteAt (F.emptyVector ++ 0 :: 0 :: cur) 1 = 0) := by
    rw [hbytes]
    exact vectorHeader_ne_endmark (by decide) (Or.inr rfl) _
  have hnum : vectNumvalues (headerAt (F.emptyVector ++ 0 :: 0 :: cur)) = 0 := by
    rw [hbytes]
    exact vectNumvalues_vectorHeader true (by decide) _
  have hlva : vectLva (headerAt (F.emptyVector ++ 0 :: 0 :: cur)) = true := by
    rw [hbytes]
    exact vectLva_vectorHeader true (by decide) _
  rw [msrpVectors, if_neg hend]
  dsimp only
  rw [hnum, hlva, if_pos rfl, hdrop, ← msrpFlag_fst, ← msrpFlag_snd]
  rw [msrpVectors, if_pos ⟨rfl, rfl⟩, append_nil]

theorem msrpCheckAttribListLen_eq {firstLen : Nat} {body : List UInt8}
    (hmin : firstLen + 1 ≤ body.length) (hmax : body.length + 2 < 65536) (cur : List UInt8) :
    msrpCheckAttribListLen firstLen
      (be16 (UInt16.ofNat (body.length + 2)) ++ (body ++ 0 :: 0 :: cur)) = true := by
  have hlen : headerAt (be16 (UInt16.ofNat (body.length + 2)) ++ (body ++ 0 :: 0 :: cur)) =
      UInt16.ofNat (body.length + 2) := headerAt_be16 _ _
  have htoNat : (UInt16.ofNat (body.length + 2)).toNat = body.length + 2 := by
    rw [UInt16.toNat_ofNat']
    exact Nat.mod_eq_of_lt hmax
  have hmark : ∀ i, byteAt (be16 (UInt16.ofNat (body.length + 2)) ++ (body ++ 0 :: 0 :: cur))
      (body.length + 2 + i) = byteAt (0 :: 0 :: cur) i := by
    intro i
    have hright := byteAt_append_right (be16 (UInt16.ofNat (body.length + 2)) ++ body)
      (0 :: 0 :: cur) i
    grind [be16]
  unfold headerAt at hlen
  unfold msrpCheckAttribListLen
  rw [hlen, htoNat]
  dsimp only
  rw [hmark 0, hmark 1]
  simp only [byteAt, length_append, length_cons, be16]
  simp only [getD_cons_zero, getD_cons_succ, decide_true, Bool.and_true, Bool.and_eq_true,
    decide_eq_true_eq]
  simp only [length_nil]
  omega

theorem MsrpCodec.message (h : MsrpCodec F P) {body : List UInt8}
    (hmin : F.vectidx + 1 ≤ body.length) (hmax : body.length + 2 < 65536) {endmarks : Nat}
    {saw' : List MsrpType} {calls : List (Received MsrpValue)} (hcur : 1 ≤ cur.length)
    (hread : msrpVectors P (fuel + 1) saw (body ++ 0 :: 0 :: cur) =
      (calls, some (0 :: 0 :: cur, saw'))) :
    msrpMessageList (fuel + 2) endmarks saw (F.message body ++ cur) =
      calls ++ msrpMessageList fuel 1 saw' cur := by
  have hbytes : F.message body ++ cur = F.attributeType :: F.attributeLength ::
      (be16 (UInt16.ofNat (body.length + 2)) ++ (body ++ 0 :: 0 :: cur)) := by
    simp [VectorFormat.message, h.listLength]
  have hlen : ¬ (F.message body ++ cur).length ≤ endmarkSz := by
    grind [endmarkSz]
  have hmark : ¬ (byteAt (F.message body ++ cur) 0 = 0 ∧ byteAt (F.message body ++ cur) 1 = 0) := by
    rintro ⟨hzero, -⟩
    rw [hbytes] at hzero
    have htype : F.attributeType = 0 := hzero
    have hparser := h.parser
    grind [msrpParser]
  have hparser : msrpParser (byteAt (F.message body ++ cur) 0) = some P := by
    rw [hbytes]
    exact h.parser
  have hlength : ¬ (byteAt (F.message body ++ cur) 1).toNat ≠ P.firstLen := by
    rw [hbytes, h.firstLen, ← h.attributeLength]
    exact fun hne => hne rfl
  have hcheck : msrpCheckAttribListLen P.firstLen ((F.message body ++ cur).drop 2) = true := by
    rw [hbytes]
    exact msrpCheckAttribListLen_eq (by rw [h.firstLen]; exact hmin) hmax cur
  have hdrop : (F.message body ++ cur).drop 4 = body ++ 0 :: 0 :: cur := by
    rw [hbytes]
    rfl
  have hend : msrpMessageList (fuel + 1) 0 saw' (0 :: 0 :: cur) =
      msrpMessageList fuel 1 saw' cur := by
    rw [msrpMessageList, if_neg, if_pos ⟨rfl, rfl⟩, if_pos (by decide)]
    · rfl
    · simp only [length_cons, endmarkSz]
      omega
  rw [msrpMessageList, if_neg hlen, if_neg hmark, hparser]
  dsimp only
  rw [if_neg hlength, if_pos hcheck, hdrop, hread]
  dsimp only
  rw [hend]

theorem msrpFlag_subset (type : MsrpType) (lva : Bool) (saw : List MsrpType) :
    ∀ t ∈ (msrpFlag type lva saw).2, t = type ∨ t ∈ saw := by
  rw [msrpFlag_snd]
  grind

theorem msrpFlag_calls {type : MsrpType} (hsaw : type ∉ saw) (lva : Bool) :
    (msrpFlag type lva saw).1 = if lva then [⟨.RLA, some { type := type }⟩] else [] := by
  grind [msrpFlag_fst, Bool.not_false]

theorem MsrpCodec.emitted (h : MsrpCodec F P) (hvs : F.ReadableBody vs)
    (hmax : (F.body vs).length + 2 < 65536) (sendEmpty : Bool) (hsaw : P.type ∉ saw)
    (hcur : 1 ≤ cur.length) (hfuel : (F.messageBytes sendEmpty vs ++ cur).length < fuel)
    (endmarks : Nat) :
    ∃ fuel' endmarks' saw', cur.length < fuel' ∧ (∀ t ∈ saw', t = P.type ∨ t ∈ saw) ∧
      msrpMessageList fuel endmarks saw (F.messageBytes sendEmpty vs ++ cur) =
        msrpEncodedCalls P.type sendEmpty vs ++ msrpMessageList fuel' endmarks' saw' cur := by
  have hmessage : ∀ body : List UInt8, (F.message body).length = body.length + 6 := by
    grind [VectorFormat.message, listLength, be16]
  cases vs with
  | nil =>
    cases sendEmpty with
    | false => exact ⟨fuel, endmarks, saw, hfuel, fun t ht => Or.inr ht, rfl⟩
    | true =>
      have hbytes : F.messageBytes true [] = F.message F.emptyVector := by
        simp [VectorFormat.messageBytes, h.emptyLva]
      have hempty : F.emptyVector.length = F.vectidx + 2 := by
        simp only [VectorFormat.emptyVector, h.attributeLength, vectorHeader, be16,
          length_append, length_cons, length_nil, length_replicate]
        omega
      rw [hbytes, length_append, hmessage, hempty] at hfuel
      obtain ⟨fuel, rfl⟩ : ∃ f, fuel = f + 1 + 2 := ⟨fuel - 3, by omega⟩
      have hsmall : F.emptyVector.length + 2 < 65536 := by
        have hbyte : F.attributeLength.toNat < 256 := F.attributeLength.toNat_lt
        rw [h.attributeLength] at hbyte
        omega
      refine ⟨fuel + 1, 1, _, by omega, msrpFlag_subset P.type true saw, ?_⟩
      rw [hbytes, h.message (by omega) hsmall hcur (h.emptyVector fuel saw cur),
        msrpFlag_calls hsaw]
      rfl
  | cons v vs =>
    have hbytes : F.messageBytes sendEmpty (v :: vs) = F.message (F.body (v :: vs)) := rfl
    have hne : ∀ w ∈ v :: vs, w.values ≠ [] := by
      intro w hw
      obtain ⟨a, e, es, hvalues, -⟩ := (hvs.readable w hw).wellFormed
      simp [hvalues]
    have hcount := F.length_le_body hne
    have hmin : F.vectidx + 1 ≤ (F.body (v :: vs)).length := by
      have hfirst := F.length_vectBytes (hne v (by simp)) 0
      grind [VectorFormat.vectEnd, VectorFormat.body]
    rw [hbytes, length_append, hmessage] at hfuel
    obtain ⟨fuel, rfl⟩ : ∃ f, fuel = f + 2 := ⟨fuel - 2, by omega⟩
    refine ⟨fuel, 1, _, by omega, msrpFlag_subset P.type v.lva saw, ?_⟩
    rw [hbytes, h.message hmin hmax hcur (h.vectors hvs (by omega) saw cur), msrpEncodedCalls]
    simp only [List.head?_cons, Option.elim_some]
    rw [msrpFlag_calls hsaw]
    rfl

def Declarable (l : List (Attrib MsrpValue)) : Prop :=
  ∀ a ∈ l, a.value.type = .LISTENER → a.value.substate.toNat < 4

theorem Declarable.of_map {l' : List (Attrib MsrpValue)} (h : Declarable l)
    (hmap : l'.map Attrib.value = l.map Attrib.value) : Declarable l' := by
  intro a ha
  have hmem : a.value ∈ l.map Attrib.value := hmap ▸ mem_map_of_mem ha
  obtain ⟨b, hb, hvalue⟩ := mem_map.mp hmem
  rw [← hvalue]
  exact h b hb

theorem msrpEmit_declarable (F : VectorFormat MsrpValue C) (sendEmpty lva : Bool)
    (h : Declarable s.1) : Declarable (msrpEmit F sendEmpty lva s).1 :=
  h.of_map (map_value_of_clearTx (emitVectors_clearTx F maxFrameSize _ sendEmpty lva (0, 0) s.1))

theorem markListeners_declarable (h : Declarable l) : Declarable (markListeners l) := by
  refine h.of_map ?_
  rw [markListeners, map_map]
  refine map_congr_left fun a _ => ?_
  simp only [Function.comp_apply]
  split <;> rfl

theorem MsrpCodec.readableBody (h : MsrpCodec F P) {base : Nat} (hsub : Declarable l)
    (hvs : (emitLoop F maxFrameSize 0 base (F.dataStart base) lva (0, 0) l).2 = some vs) :
    F.ReadableBody vs ∧ (F.body vs).length ≤ maxFrameSize := by
  obtain ⟨hpre, hend⟩ := emitLoop_vects hvs
  have hmem : ∀ v ∈ vs, v ∈ F.vects 0 lva (0, 0) l := fun v hv => hpre.subset hv
  have hbody : (F.body vs).length ≤ maxFrameSize := by
    cases vs with
    | nil => exact Nat.zero_le _
    | cons v vs =>
      have hfits := hend (by simp)
      omega
  refine ⟨⟨fun v hv => ⟨F.wellFormed_vects v (hmem v hv),
    F.fill_vects h.clearsVectevt v (hmem v hv), ?_, ?_⟩, ?_⟩, hbody⟩
  · -- three values to a byte, and the bytes fit the frame
    have hwf := F.wellFormed_vects v (hmem v hv)
    obtain ⟨a, e, es, hvalues, -⟩ := hwf
    have hlen := F.length_vectBytes (v := v) (by simp [hvalues]) 0
    have hpart : (F.vectBytes v).length ≤ (F.body vs).length :=
      (sublist_flatten_of_mem (mem_map_of_mem hv)).length_le
    unfold VectorFormat.vectEnd at hlen
    unfold maxFrameSize at hbody
    omega
  · intro hd x hx
    have hwf := F.wellFormed_vects v (hmem v hv)
    exact hsub x.1 (F.fst_mem_vects v (hmem v hv) x hx) (h.listener hd _ (hwf.selects x hx))
  · exact (F.lva_part h.lvaOnce hpre).2

theorem msrpEmit_eq_some (hbytes : (msrpEmit F sendEmpty lva s).2 = some bytes) :
    (emitLoop F maxFrameSize 0 (messageListStart + s.2.length)
        (F.dataStart (messageListStart + s.2.length)) lva (0, 0) s.1).2 =
        some (msrpEmitted F lva s) ∧
      bytes = s.2 ++ F.messageBytes sendEmpty (msrpEmitted F lva s) := by
  unfold msrpEmit at hbytes
  obtain ⟨message, hmessage, rfl⟩ := Option.map_eq_some_iff.mp hbytes
  obtain ⟨vs, hvs, rfl⟩ := emitVectors_eq_some hmessage
  have hemitted : msrpEmitted F lva s = vs := by
    unfold msrpEmitted
    dsimp only
    rw [hvs]
    rfl
  rw [hemitted]
  exact ⟨hvs, rfl⟩

theorem MsrpCodec.msrpEmit (h : MsrpCodec F P) (hsub : Declarable s.1)
    (hbytes : (Mrp.msrpEmit F sendEmpty lva s).2 = some bytes) (hsaw : P.type ∉ saw)
    (hcur : 1 ≤ cur.length)
    (hfuel : (F.messageBytes sendEmpty (msrpEmitted F lva s) ++ cur).length < fuel)
    (endmarks : Nat) :
    ∃ fuel' endmarks' saw', cur.length < fuel' ∧ (∀ t ∈ saw', t = P.type ∨ t ∈ saw) ∧
      msrpMessageList fuel endmarks saw
          (F.messageBytes sendEmpty (msrpEmitted F lva s) ++ cur) =
        msrpEncodedCalls P.type sendEmpty (msrpEmitted F lva s) ++
          msrpMessageList fuel' endmarks' saw' cur := by
  obtain ⟨hvs, -⟩ := msrpEmit_eq_some hbytes
  obtain ⟨hreadable, hsize⟩ := h.readableBody hsub hvs
  unfold maxFrameSize at hsize
  exact h.emitted hreadable (by omega) sendEmpty hsaw hcur hfuel endmarks

theorem msrpMessages_eq_some (hsub : Declarable l)
    (h : (msrpMessages sendEmpty lva l).2 = some bytes) :
    ∃ s2 s3 s4 : List (Attrib MsrpValue) × List UInt8,
      (Declarable s2.1 ∧ Declarable s3.1 ∧ Declarable s4.1) ∧
      ((msrpEmit msrpTalkerAdvFormat sendEmpty lva (l, [])).2 = some s2.2 ∧
        (msrpEmit msrpTalkerFailedFormat sendEmpty lva s2).2 = some s3.2 ∧
        (msrpEmit msrpListenerFormat sendEmpty lva s3).2 = some s4.2 ∧
        (msrpEmit msrpDomainFormat sendEmpty lva s4).2 = some bytes) ∧
      msrpEncoded sendEmpty lva l =
        msrpEncodedCalls .TALKER_ADV sendEmpty (msrpEmitted msrpTalkerAdvFormat lva (l, [])) ++
        msrpEncodedCalls .TALKER_FAILED sendEmpty (msrpEmitted msrpTalkerFailedFormat lva s2) ++
        msrpEncodedCalls .LISTENER sendEmpty (msrpEmitted msrpListenerFormat lva s3) ++
        msrpEncodedCalls .DOMAIN sendEmpty (msrpEmitted msrpDomainFormat lva s4) := by
  unfold msrpMessages at h
  dsimp only at h
  split at h
  · exact absurd h (by simp)
  rename_i b1 h1
  split at h
  · exact absurd h (by simp)
  rename_i b2 h2
  split at h
  · exact absurd h (by simp)
  split at h
  · exact absurd h (by simp)
  rename_i b3 h3
  unfold msrpEmitListeners at h h3
  split at h3
  · exact absurd h3 (by simp)
  rename_i hroom
  rw [if_neg hroom] at h
  dsimp only at h h3
  have hsub2 := msrpEmit_declarable msrpTalkerAdvFormat sendEmpty lva (s := (l, [])) hsub
  have hsub3 := markListeners_declarable
    (msrpEmit_declarable msrpTalkerFailedFormat sendEmpty lva (s := (_, b1)) hsub2)
  have hsub4 := msrpEmit_declarable msrpListenerFormat sendEmpty lva
    (s := (markListeners _, b2)) hsub3
  refine ⟨(_, b1), (_, b2), (_, b3), ?_, ⟨h1, h2, h3, h⟩, ?_⟩
  · exact ⟨hsub2, hsub3, hsub4⟩
  · simp only [msrpEncoded, h1, h2, h3, Option.getD_some]

theorem msrpMessageList_endmark (fuel endmarks : Nat) (saw : List MsrpType) :
    msrpMessageList fuel endmarks saw [0, 0] = [] := by
  cases fuel with
  | zero => rfl
  | succ fuel =>
    rw [msrpMessageList, if_pos]
    exact Nat.le_refl _

theorem msrpMessageList_msrpMessages (hsub : Declarable l)
    (h : (msrpMessages sendEmpty lva l).2 = some bytes) (hfuel : (bytes ++ [0, 0]).length < fuel) :
    msrpMessageList fuel 0 [] (bytes ++ [0, 0]) = msrpEncoded sendEmpty lva l := by
  obtain ⟨s2, s3, s4, ⟨hsub2, hsub3, hsub4⟩, ⟨h1, h2, h3, h4⟩, hencoded⟩ :=
    msrpMessages_eq_some hsub h
  have hcur : ∀ m : List UInt8, 1 ≤ (m ++ [0, 0]).length := by
    grind
  rw [(msrpEmit_eq_some h4).2, (msrpEmit_eq_some h3).2, (msrpEmit_eq_some h2).2,
    (msrpEmit_eq_some h1).2] at hfuel ⊢
  simp only [nil_append, append_assoc] at hfuel ⊢
  -- no type has been seen before its own message
  have hne1 : MsrpType.TALKER_ADV ∉ ([] : List MsrpType) := not_mem_nil
  obtain ⟨fuel2, marks2, saw2, hfuel2, hsaw2, heq1⟩ :=
    msrpTalkerAdv_codec.msrpEmit hsub h1 hne1
      (by rw [← append_assoc, ← append_assoc]; exact hcur _) hfuel 0
  have hsaw2 : ∀ t ∈ saw2, t = .TALKER_ADV :=
    fun t ht => (hsaw2 t ht).resolve_right (not_mem_nil)
  have hne2 : MsrpType.TALKER_FAILED ∉ saw2 := fun hmem => absurd (hsaw2 _ hmem) (by decide)
  obtain ⟨fuel3, marks3, saw3, hfuel3, hsaw3, heq2⟩ :=
    msrpTalkerFailed_codec.msrpEmit hsub2 h2 hne2
      (by rw [← append_assoc]; exact hcur _) hfuel2 marks2
  have hne3 : MsrpType.LISTENER ∉ saw3 := by
    intro hmem
    rcases hsaw3 _ hmem with hmem | hmem
    · exact absurd hmem (by decide)
    · exact absurd (hsaw2 _ hmem) (by decide)
  obtain ⟨fuel4, marks4, saw4, hfuel4, hsaw4, heq3⟩ :=
    msrpListener_codec.msrpEmit hsub3 h3 hne3 (hcur _) hfuel3 marks3
  have hne4 : MsrpType.DOMAIN ∉ saw4 := by
    intro hmem
    rcases hsaw4 _ hmem with hmem | hmem
    · exact absurd hmem (by decide)
    rcases hsaw3 _ hmem with hmem | hmem
    · exact absurd hmem (by decide)
    · exact absurd (hsaw2 _ hmem) (by decide)
  obtain ⟨fuel5, marks5, saw5, -, -, heq4⟩ :=
    msrpDomain_codec.msrpEmit hsub4 h4 hne4 (show 1 ≤ ([0, 0] : List UInt8).length by decide)
      hfuel4 marks4
  rw [heq1, heq2, heq3, heq4, msrpMessageList_endmark, hencoded, append_nil,
    append_assoc, append_assoc]
  rfl

theorem msrpTxpdu_eq_some {env : Env} {db : Database MsrpValue} {frame : Frame}
    (h : (msrpTxpdu env sendEmpty db).2 = some frame) :
    ∃ bytes, (msrpMessages sendEmpty db.mrpDb.lva.tx db.attribList).2 = some bytes ∧
      frame = mrpFrame msrpAddr env.stationAddr msrpEtype bytes := by
  unfold msrpTxpdu at h
  grind

theorem msrpParse_mrpFrame (src : MacAddr) (bytes : List UInt8) :
    msrpParse (mrpFrame msrpAddr src msrpEtype bytes) =
      msrpMessageList (bytes.length + 18) 0 [] (bytes ++ [0, 0]) := by
  have hdest : msrpAddr.length = 6 := rfl
  grind [length_mrpFrame, msrpEtype, msrpParse, etype_mrpFrame, take_mrpFrame, drop_mrpFrame]

theorem msrpParse_msrpTxpdu {env : Env} {db : Database MsrpValue} {frame : Frame}
    (hsub : Declarable db.attribList) (hframe : (msrpTxpdu env sendEmpty db).2 = some frame) :
    msrpParse frame = msrpEncoded sendEmpty db.mrpDb.lva.tx db.attribList ∧
      frameSrc frame = env.stationAddr := by
  obtain ⟨bytes, hbytes, rfl⟩ := msrpTxpdu_eq_some hframe
  refine ⟨?_, frameSrc_mrpFrame rfl _ _ _⟩
  rw [msrpParse_mrpFrame]
  grind [msrpMessageList_msrpMessages]

/-- What `msrp_recv_msg` does with a PDU of `msrp_txpdu`. -/
theorem msrpRecvMsg_msrpTxpdu (env : Env) (sendEmpty : Bool) (db : Database MsrpValue)
    (frame : Frame)
    (hsub : ∀ a ∈ db.attribList, a.value.type = .LISTENER → a.value.substate.toNat < 4)
    (hframe : (msrpTxpdu env sendEmpty db).2 = some frame) (env' : Env) (db' : MsrpDatabase) :
    msrpRecvMsg env' frame db' =
      runReceived (msrpEvent env') env.stationAddr
        (msrpEncoded sendEmpty db.mrpDb.lva.tx db.attribList) db' := by
  obtain ⟨hparse, hsrc⟩ := msrpParse_msrpTxpdu hsub hframe
  unfold msrpRecvMsg
  rw [hparse, hsrc]

theorem msrpRecvMsg_msrpTxpdu_listeners :
    let join : Applicant := { mrpState := .QA, tx := true, sndmsg := .JOIN, encode := .YES }
    let listener (i : UInt8) (substate : UInt32) : MsrpValue :=
      { type := .LISTENER
        talkListen := { streamID := #v[0, 1, 2, 3, 4, 5, 0, i] }
        substate := substate }
    let domain : MsrpValue := { type := .DOMAIN, domain := ⟨6, 3, 3, 2⟩ }
    let db : Database MsrpValue :=
      { mrpDb := { lva := { tx := true } }
        attribList := [⟨listener 1 0, join, {}⟩, ⟨listener 2 2, join, {}⟩, ⟨domain, join, {}⟩] }
    let frame := (msrpTxpdu { now := 0 } false db).2.getD []
    msrpEncoded false true db.attribList =
        [⟨.RLA, some { type := .LISTENER }⟩, ⟨.RJOINMT, some (listener 2 2)⟩,
          ⟨.RLA, some { type := .DOMAIN }⟩, ⟨.RJOINMT, some domain⟩] ∧
      msrpRecvMsg { now := 0 } frame (msrpInit { now := 0 } 8 false) =
        runReceived (msrpEvent { now := 0 }) (Vector.replicate 6 0)
          (msrpEncoded false true db.attribList) (msrpInit { now := 0 } 8 false) := by
  intro join listener domain db frame
  exact ⟨by decide, msrpRecvMsg_msrpTxpdu { now := 0 } false db frame (by decide) (by decide) _ _⟩

end Avb4Linux.Mrp
