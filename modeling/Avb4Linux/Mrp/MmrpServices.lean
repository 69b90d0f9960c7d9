import Mathlib.Tactic.IntervalCases
import Avb4Linux.Mrp.Declarations
import Avb4Linux.Mrp.MmrpRoundTrip

/-!
# MMRP: reading back the service requirements

`mmrp_emit_svcvectors` packs the events from the second byte behind the header on, `mmrp_recv_msg`
reads them from the first one and moves on by one byte less than was written.
-/

namespace Avb4Linux.Mrp

open Lib.Packing Lib.Runs StateTransition List

def Received.Small (r : Received MmrpValue) : Prop :=
  ∀ v, r.value = some (.svcreq v) → v ≤ 1

theorem mmrpSvcEvents_small (v : UInt8) (ds : List Nat) : ∀ r ∈ mmrpSvcEvents v ds, r.Small := by
  induction ds generalizing v with
  | nil => simp [mmrpSvcEvents]
  | cons d ds ih =>
    rw [mmrpSvcEvents]
    split
    · exact ih v
    rename_i hsmall
    cases pduEventOfCode d with
    | none => exact ih (v + 1)
    | some e =>
      intro r hr
      rcases mem_cons.mp hr with rfl | hr
      · intro w hw
        grind
      · exact ih (v + 1) r hr

theorem mmrpMacEvents_small (a : MacAddr) (ds : List Nat) :
    ∀ r ∈ mmrpMacEvents a ds, r.Small := by
  induction ds generalizing a with
  | nil => simp [mmrpMacEvents]
  | cons d ds ih =>
    rw [mmrpMacEvents]
    cases pduEventOfCode d with
    | none => exact ih (mmrpIncrementMacaddr a)
    | some e =>
      intro r hr
      rcases mem_cons.mp hr with rfl | hr
      · intro w hw
        cases hw
      · exact ih (mmrpIncrementMacaddr a) r hr

variable {cur : List UInt8} {s t : MmrpReader} {n : Nat} {p w : UInt8} {lva : Bool}

theorem mmrpParser_small {P : VectorParser MmrpValue} (hP : mmrpParserAt cur = some P)
    (fuel : Nat) (saw : Bool) (rest : List UInt8) :
    ∀ r ∈ (parseVectors P fuel saw rest).1, r.Small := by
  unfold mmrpParserAt at hP
  split at hP
  · obtain rfl := Option.some.inj hP
    refine forall_parseVectors ?_ (fun cur ds => mmrpSvcEvents_small _ ds) fuel saw rest
    intro v hv
    obtain rfl := MmrpValue.svcreq.inj (Option.some.inj hv)
    decide
  split at hP
  · obtain rfl := Option.some.inj hP
    exact forall_parseVectors (P := mmrpMacParser) nofun
      (fun cur ds => mmrpMacEvents_small _ ds) fuel saw rest
  · exact absurd hP (by simp)

theorem MmrpReader.reaches_small (h : Reaches MmrpReader.round s t) :
    ∃ new, t.calls = s.calls ++ new ∧ ∀ r ∈ new, r.Small := by
  induction h with
  | refl => exact ⟨[], by simp, by simp⟩
  | @tail u t _ hstep ih =>
    obtain ⟨new, hnew, hsmall⟩ := ih
    cases round_case hstep with
    | endmark _ _ _ ht => exact ⟨new, by rw [ht]; exact hnew, hsmall⟩
    | message _ _ P hP _ hcalls _ =>
      refine ⟨new ++ (parseVectors P u.rest.length u.saw (u.rest.drop 2)).1, ?_, ?_⟩
      · rw [hcalls, hnew, append_assoc]
      · intro r hr
        rcases mem_append.mp hr with hr | hr
        · exact hsmall r hr
        · exact mmrpParser_small hP _ _ _ r hr

theorem svcVectors_first (hn : n = 1 ∨ n = 2) (lva : Bool) (w p : UInt8) (cur : List UInt8)
    (fuel : Nat) :
    (parseVectors mmrpSvcParser (fuel + 1) false (vectorHeader lva n ++ w :: 0 :: p :: cur)).2 =
      (parseVectors mmrpSvcParser fuel lva (p :: cur)).2 := by
  have hlt : n < 8192 := by omega
  have hpos : 0 < n := by omega
  have hroom : ¬ (n = 0 ∨ (vectorHeader lva n ++ w :: 0 :: p :: cur).length ≤ 2 + n / 3) := by
    grind
  have hbytes : numVectorBytes n = 1 := by
    rw [numVectorBytes_eq]
    omega
  have hsaw : (false || (lva && (mmrpSvcParser.everyLva || !false)) && !mmrpSvcParser.everyLva) =
      lva := by
    cases lva <;> rfl
  rw [parseVectors, if_neg (vectorHeader_ne_endmark hlt (Or.inl hpos) _)]
  dsimp only
  rw [vectNumvalues_vectorHeader lva hlt, vectLva_vectorHeader lva hlt, if_neg hroom, hbytes,
    hsaw]
  rfl

theorem parseVectors_out {P : VectorParser MmrpValue}
    (hmark : ¬ (byteAt cur 0 = 0 ∧ byteAt cur 1 = 0))
    (hout : vectNumvalues (headerAt cur) = 0 ∨ cur.length ≤ 2 + vectNumvalues (headerAt cur) / 3)
    (fuel : Nat) (saw : Bool) : (parseVectors P fuel saw cur).2 = none := by
  cases fuel with
  | zero => rfl
  | succ fuel =>
    rw [parseVectors, if_neg hmark]
    dsimp only
    rw [if_pos hout]

theorem svcVectors_packed (hp : p ≠ 0) (hcur : cur.length ≤ 80) (fuel : Nat) (saw : Bool) :
    (parseVectors mmrpSvcParser fuel saw (p :: 0 :: cur)).2 = none := by
  have hheader : (headerAt (p :: 0 :: cur)).toNat = p.toNat * 256 := by
    have hlt : p.toNat < 256 := p.toNat_lt
    change (UInt16.ofNat (p.toNat * 256 + 0)).toNat = p.toNat * 256
    rw [UInt16.toNat_ofNat']
    omega
  grind [byteAt, parseVectors_out, vectNumvalues]

theorem svcVectors_count (hp : 12 ≤ p.toNat) (hcur : cur.length ≤ 4) (fuel : Nat) (saw : Bool) :
    (parseVectors mmrpSvcParser fuel saw (0 :: p :: cur)).2 = none := by
  have hlt : p.toNat < 256 := p.toNat_lt
  have hheader : (headerAt (0 :: p :: cur)).toNat = p.toNat := by
    change (UInt16.ofNat (0 * 256 + p.toNat)).toNat = p.toNat
    rw [UInt16.toNat_ofNat']
    omega
  have hmark : ¬ (byteAt (0 :: p :: cur) 0 = 0 ∧ byteAt (0 :: p :: cur) 1 = 0) := by
    rintro ⟨-, hzero⟩
    rw [show p = 0 from hzero] at hp
    exact absurd hp (by decide)
  grind [parseVectors_out, vectNumvalues]

theorem MmrpReader.reaches_zeros (hs : s.rest = List.replicate n 0)
    (h : Reaches MmrpReader.round s t) : t.rest.length = n ∨ t.rest.length + 2 = n := by
  have hzero : ∀ {u : MmrpReader} {k : Nat}, u.rest = List.replicate k 0 →
      byteAt u.rest 0 = 0 ∧ byteAt u.rest 1 = 0 := by
    grind [byteAt, getElem]
  rcases Relation.ReflTransGen.cases_head h with rfl | ⟨u, hu, hut⟩
  · exact Or.inl (by rw [hs, length_replicate])
  cases round_case hu with
  | message _ hmark => exact absurd (hzero hs) hmark
  | endmark hlen _ _ hnext =>
    have hrest : u.rest = List.replicate (n - 2) 0 := by
      rw [hnext, hs, drop_replicate]
    unfold endmarkSz at hlen
    rw [hs, length_replicate] at hlen
    rcases Relation.ReflTransGen.cases_head hut with rfl | ⟨w, hw, -⟩
    · grind
    · -- a second end mark in a row ends the loop
      cases round_case hw with
      | message _ hmark => exact absurd (hzero hrest) hmark
      | endmark _ _ hfirst _ =>
        grind

/-- The round at a message of service requirements whose first vector has one packed
byte: the byte is zero, and the reader takes it for the end of the message. -/
theorem MmrpReader.round_svc {u : MmrpReader} (hn : n = 1 ∨ n = 2) (hcur : cur.length ≤ 80)
    (hsaw : s.saw = false)
    (hs : s.rest = 1 :: 1 :: (vectorHeader lva n ++ w :: 0 :: p :: 0 :: cur))
    (h : s.round = some u) : p = 0 ∧ u.rest = 0 :: 0 :: cur := by
  cases round_case h with
  | endmark _ hmark =>
    rw [hs] at hmark
    exact absurd (show (1 : UInt8) = 0 from hmark.1) (by decide)
  | message _ _ P hP hr _ _ =>
    have hsvc : mmrpParserAt s.rest = some mmrpSvcParser := by
      rw [hs]
      rfl
    obtain rfl := Option.some.inj (hP.symm.trans hsvc)
    have hlen : s.rest.length = (cur.length + 7) + 1 := by
      grind [vectorHeader, be16]
    have hdrop : s.rest.drop 2 = vectorHeader lva n ++ w :: 0 :: p :: 0 :: cur := by
      rw [hs]
      rfl
    rw [hlen, hsaw, hdrop, svcVectors_first hn] at hr
    by_cases hp : p = 0
    · rw [hp, parseVectors, if_pos ⟨rfl, rfl⟩] at hr
      exact ⟨hp, (Prod.mk.inj (Option.some.inj hr)).1.symm⟩
    · rw [svcVectors_packed hp hcur] at hr
      exact absurd hr (by simp)

theorem not_reaches_single (hn : n = 1 ∨ n = 2) (hsaw : s.saw = false)
    (hs : s.rest = 1 :: 1 :: (vectorHeader lva n ++ w :: 0 :: p :: 0 :: [0, 0, 0]))
    (ht : t.rest.length = 2) : ¬ Reaches MmrpReader.round s t := by
  intro h
  have hlong : t.rest.length < s.rest.length := by
    rw [ht, hs]
    simp [vectorHeader, be16]
  obtain ⟨u, hu, hut⟩ := MmrpReader.reaches_step h hlong
  obtain ⟨-, hrest⟩ := MmrpReader.round_svc hn (by decide) hsaw hs hu
  have hzeros := MmrpReader.reaches_zeros (n := 5) hrest hut
  omega

theorem encode3_apart {x y : Nat} (hx : x < 6) (hy : y < 6) {fill : Nat × Nat}
    (h : encode3 x fill.1 fill.2 = 0) :
    encode3 y fill.1 fill.2 = 0 ∨ 12 ≤ (encode3 y fill.1 fill.2).toNat := by
  have hzero := congrArg UInt8.toNat h
  grind [UInt8.toNat_inj, encode3, UInt8.toNat_ofNat', UInt8.toNat_zero]

theorem not_reaches_pair {w' p' : UInt8} (hp : p = 0 → p' = 0 ∨ 12 ≤ p'.toNat) (hw : w' ≤ 1)
    (hsaw : s.saw = false)
    (hs : s.rest = 1 :: 1 :: (vectorHeader lva 1 ++ w :: 0 :: p :: 0 ::
      [1, w', 0, p', 0, 0, 0, 0])) (ht : t.rest.length = 2) : ¬ Reaches MmrpReader.round s t := by
  intro h
  have hlong : t.rest.length < s.rest.length := by
    rw [ht, hs]
    simp [vectorHeader, be16]
  obtain ⟨u, hu, hut⟩ := MmrpReader.reaches_step h hlong
  obtain ⟨hzero, hrest⟩ := MmrpReader.round_svc (Or.inl rfl) (by simp) hsaw hs hu
  -- the last packed byte and the high byte of the next header pass for an end mark
  obtain ⟨v, hv, hvt⟩ := MmrpReader.reaches_step hut (by rw [ht, hrest]; simp)
  have hvrest : v.rest = [1, w', 0, p', 0, 0, 0, 0] := by
    cases MmrpReader.round_case hv with
    | endmark _ _ _ hnext =>
      rw [hnext, hrest]
      rfl
    | message _ hmark =>
      rw [hrest] at hmark
      exact absurd ⟨rfl, rfl⟩ hmark
  obtain ⟨x, hx, hxt⟩ := MmrpReader.reaches_step hvt (by rw [ht, hvrest]; simp)
  cases MmrpReader.round_case hx with
  | endmark _ hmark =>
    rw [hvrest] at hmark
    exact absurd (show (1 : UInt8) = 0 from hmark.1) (by decide)
  | message _ _ P hP hr _ _ =>
    rw [hvrest] at hP hr
    rcases hp hzero with rfl | hcount
    · have hw' : w' = 0 ∨ w' = 1 := by
        grind
      rcases hw' with rfl | rfl
      · exact absurd hP (by simp [mmrpParserAt, byteAt])
      · obtain rfl := Option.some.inj hP
        have hxrest : x.rest = List.replicate 6 0 :=
          (Prod.mk.inj (Option.some.inj hr)).1.symm
        have hzeros := MmrpReader.reaches_zeros hxrest hxt
        omega
    · have hparser : P = mmrpSvcParser := by
        unfold mmrpParserAt at hP
        split at hP
        · exact (Option.some.inj hP).symm
        split at hP
        · rename_i htype
          exact absurd (show (1 : UInt8) = 2 from htype.1) (by decide)
        · exact absurd hP (by simp)
      rw [hparser] at hr
      have hnone : (parseVectors mmrpSvcParser 8 v.saw [0, p', 0, 0, 0, 0]).2 = none :=
        svcVectors_count hcount (by decide) 8 v.saw
      exact absurd (hnone.symm.trans hr) (by simp)

def mmrpSvcEncoded (env : Env) (sendEmpty : Bool) (db : Database MmrpValue) :
    List (Received MmrpValue) :=
  ((mmrpSvcVects env sendEmpty db).flatMap Vect.values).map pduCall

def mmrpSvcEnd (env : Env) (sendEmpty : Bool) (db : Database MmrpValue) : Nat :=
  mmrpSvcStart sendEmpty db +
    (mmrpSvcFormat.messageBytes sendEmpty (mmrpSvcVects env sendEmpty db)).length

theorem mmrpSvcFormat_consecutive : mmrpSvcFormat.Consecutive := by
  intro first c v
  exact Bool.eq_iff_iff.mpr (beq_iff_eq.trans decide_eq_true_iff.symm)

theorem MmrpValue.eq_svcreq {v : MmrpValue} (h : mmrpSvcFormat.selects v = true) :
    v = .svcreq v.svc := by
  cases v with
  | svcreq v => rfl
  | macaddr a => exact absurd h (by simp [mmrpSvcFormat, MmrpValue.sameType])

inductive SvcShape (lva : Bool) (fill : Nat × Nat) : List (Vect MmrpValue) → Prop where
  | one (x : Attrib MmrpValue × PduEvent) : SvcShape lva fill [⟨lva, fill, [x]⟩]
  | both (x y : Attrib MmrpValue × PduEvent) : SvcShape lva fill [⟨lva, fill, [x, y]⟩]
  | two (x y : Attrib MmrpValue × PduEvent) (hy : y.1.value.svc ≤ 1) :
      SvcShape lva fill [⟨lva, fill, [x]⟩, ⟨false, fill, [y]⟩]

theorem svcShape_of_vects {fill : Nat × Nat} {l : List (Attrib MmrpValue)}
    {vs : List (Vect MmrpValue)} (hpart : vs <+: mmrpSvcFormat.vects 0 lva fill l) (hne : vs ≠ [])
    (hcount : (vs.flatMap Vect.values).length ≤ 2)
    (hsmall : ∀ x ∈ vs.flatMap Vect.values, x.1.value.svc ≤ 1) : SvcShape lva fill vs := by
  have hvalues : ∀ v ∈ vs, 0 < v.values.length := by
    intro v hv
    obtain ⟨a, e, es, hvs, -⟩ := mmrpSvcFormat.wellFormed_vects v (hpart.subset hv)
    simp [hvs]
  obtain ⟨rest, hrest⟩ := hpart
  obtain ⟨v, vs, rfl⟩ := exists_cons_of_ne_nil hne
  obtain ⟨hlva, hfill, skip', tl, hmore⟩ := mmrpSvcFormat.vects_cons hrest.symm
  have hpos := hvalues v (by simp)
  rw [flatMap_cons, length_append] at hcount
  obtain ⟨vlva, vfill, values⟩ := v
  obtain rfl : vlva = lva := hlva
  obtain rfl : vfill = fill := hfill
  dsimp only at hpos hcount hmore
  match values, vs with
  | [], _ => exact absurd hpos (Nat.lt_irrefl 0)
  | [x], [] => exact .one x
  | [x, y], [] => exact .both x y
  | [x], [w] =>
    obtain ⟨hwlva, hwfill, -⟩ := mmrpSvcFormat.vects_cons hmore.symm
    have hwpos := hvalues w (by simp)
    obtain ⟨wlva, wfill, wvalues⟩ := w
    obtain rfl : wlva = false := hwlva.trans (Bool.and_false _)
    obtain rfl : wfill = vfill := hwfill
    match wvalues with
    | [] => exact absurd hwpos (Nat.lt_irrefl 0)
    | [y] => exact .two x y (hsmall y (by simp))
    | y :: z :: zs =>
      grind
  | [x], w :: w' :: ws =>
    grind
  | [x, y], w :: ws =>
    grind
  | x :: y :: z :: zs, _ =>
    simp only [length_cons] at hcount
    omega

theorem SvcShape.not_reaches {fill : Nat × Nat} {vs : List (Vect MmrpValue)}
    (h : SvcShape lva fill vs) (hsaw : s.saw = false) {sendEmpty : Bool}
    (hs : s.rest = mmrpSvcFormat.messageBytes sendEmpty vs ++ [0, 0]) (ht : t.rest.length = 2) :
    ¬ Reaches MmrpReader.round s t := by
  cases h with
  | one x => exact not_reaches_single (Or.inl rfl) hsaw hs ht
  | both x y => exact not_reaches_single (Or.inr rfl) hsaw hs ht
  | two x y hy =>
    have hheader : vectorHeader false 1 = [0, 1] := by decide
    have hbytes : s.rest = 1 :: 1 :: (vectorHeader lva 1 ++ x.1.value.svc :: 0 ::
        encode3 x.2.code fill.1 fill.2 :: (vectorHeader false 1 ++
          [y.1.value.svc, 0, encode3 y.2.code fill.1 fill.2, 0, 0, 0, 0])) := hs
    rw [hheader] at hbytes
    exact not_reaches_pair (encode3_apart x.2.code_lt y.2.code_lt) hy hsaw hbytes ht

theorem length_le_two_of_small {vs : List MmrpValue} (hset : vs.Nodup)
    (hsmall : ∀ v ∈ vs, ∃ w : UInt8, v = .svcreq w ∧ w ≤ 1) : vs.length ≤ 2 := by
  have hsub : vs ⊆ [.svcreq 0, .svcreq 1] := by
    grind
  exact (hset.subperm hsub).length_le

/-- No message of service requirements is read as it was encoded: the reader never gets from it to
the place behind its end mark with the encoded calls made, whatever calls come before. -/
theorem mmrpSvc_never_read (env : Env) (sendEmpty : Bool) (db : Database MmrpValue) (frame : Frame)
    (hset : (db.attribList.map Attrib.value).Nodup)
    (hframe : (mmrpTxpdu env sendEmpty db).2 = some frame)
    (hsvc : mmrpSvcVects env sendEmpty db ≠ []) :
    ∃ calls, MmrpReads frame calls (mmrpSvcStart sendEmpty db) ∧
      ∀ others, ¬ MmrpReads frame (calls ++ others ++ mmrpSvcEncoded env sendEmpty db)
        (mmrpSvcEnd env sendEmpty db) := by
  have h := mmrpTxpdu_eq_some hframe
  obtain ⟨endmarks, hreach⟩ := h.reaches_svcStart
  refine ⟨(mmrpMacVects db).flatMap mmrpMacCalls, ⟨endmarks, false, hreach⟩, ?_⟩
  rintro others ⟨endmarks', saw, hreach'⟩
  have hstart := h.drop_svcStart
  have hend : frame.drop (mmrpSvcEnd env sendEmpty db) = [0, 0] := by
    rw [mmrpSvcEnd, ← drop_drop, hstart]
    exact drop_left
  have hlater : Reaches MmrpReader.round _ _ := MmrpReader.reaches_later hreach hreach' (by
    dsimp only
    rw [hend, hstart, length_append]
    omega)
  -- the values that were encoded can be read, so there are at most two of them
  obtain ⟨new, hnew, hsmall⟩ := MmrpReader.reaches_small hlater
  rw [append_assoc] at hnew
  obtain rfl := append_cancel_left hnew
  obtain ⟨hpart, -⟩ := emitLoop_vects h.svc
  set vs := mmrpSvcVects env sendEmpty db
  have hvalue : ∀ x ∈ vs.flatMap Vect.values,
      x.1.value = .svcreq x.1.value.svc ∧ x.1.value.svc ≤ 1 := by
    intro x hx
    obtain ⟨v, hv, hxv⟩ := mem_flatMap.mp hx
    have hwf := mmrpSvcFormat.wellFormed_vects v (hpart.subset hv)
    have hsvcreq := MmrpValue.eq_svcreq (hwf.selects x hxv)
    refine ⟨hsvcreq, hsmall (pduCall x) ?_ _ (congrArg some hsvcreq)⟩
    exact mem_append_right others (mem_map_of_mem hx)
  have hdistinct : ((vs.flatMap Vect.values).map fun x => x.1.value).Nodup := by
    have hlist : (mmrpMacEmitted sendEmpty db).1.map Attrib.value =
        db.attribList.map Attrib.value :=
      map_value_of_clearTx (emitVectors_clearTx mmrpMacFormat maxFrameSize messageListStart
        sendEmpty db.mrpDb.lva.tx (0, 0) db.attribList)
    have hsub := (emitLoop_sublist mmrpSvcFormat_consecutive h.svc).map Attrib.value
    rw [hlist, map_map] at hsub
    exact hset.sublist hsub
  have hcount : (vs.flatMap Vect.values).length ≤ 2 := by
    have hle := length_le_two_of_small hdistinct (by
      intro v hv
      obtain ⟨x, hx, rfl⟩ := mem_map.mp hv
      exact ⟨x.1.value.svc, hvalue x hx⟩)
    rwa [length_map] at hle
  have hshape := svcShape_of_vects hpart hsvc hcount fun x hx => (hvalue x hx).2
  exact hshape.not_reaches rfl hstart (by rw [hend]; rfl) hlater

def joiningSvc (v : UInt8) : Attrib MmrpValue :=
  ⟨.svcreq v, { mrpState := .QA, tx := true, sndmsg := .JOIN, encode := .YES }, {}⟩

theorem mmrpSvc_never_read_both :
    let db : Database MmrpValue :=
      { attribList := [joiningMac 1 .IN, joiningSvc 0, joiningSvc 1] }
    let frame := (mmrpTxpdu { now := 0 } false db).2.getD []
    ∃ calls, MmrpReads frame calls (mmrpSvcStart false db) ∧
      ∀ others, ¬ MmrpReads frame (calls ++ others ++ mmrpSvcEncoded { now := 0 } false db)
        (mmrpSvcEnd { now := 0 } false db) := by
  intro db frame
  exact mmrpSvc_never_read { now := 0 } false db frame (by decide) (by decide) (by decide)

theorem mmrpSvc_misread :
    let db : Database MmrpValue := { attribList := [joiningSvc 0] }
    let frame := (mmrpTxpdu { now := 0 } false db).2.getD []
    (mmrpTxpdu { now := 0 } false db).2 = some frame ∧
      mmrpSvcEncoded { now := 0 } false db = [⟨.RJOINMT, some (.svcreq 0)⟩] ∧
      mmrpParse frame = [⟨.RNEW, some (.svcreq 0)⟩] ∧
      MmrpReads frame [] (mmrpSvcStart false db) ∧
      ¬ MmrpReads frame [⟨.RJOINMT, some (.svcreq 0)⟩] (mmrpSvcEnd { now := 0 } false db) := by
  intro db frame
  refine ⟨by decide, by decide, by decide, ⟨0, false, Relation.ReflTransGen.refl⟩, ?_⟩
  rintro ⟨endmarks, saw, h⟩
  have hleft : (MmrpReader.start frame).round.isNone = true := by decide
  have hlong : (frame.drop (mmrpSvcEnd { now := 0 } false db)).length <
      (MmrpReader.start frame).rest.length := by decide
  obtain ⟨u, hu, -⟩ := MmrpReader.reaches_step h hlong
  rw [hu] at hleft
  exact absurd hleft (by simp)

end Avb4Linux.Mrp
