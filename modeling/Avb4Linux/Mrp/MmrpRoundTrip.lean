import Avb4Linux.Mrp.MmrpReader
import Avb4Linux.Mrp.VectorCodec

/-!
# MMRP: reading back the MAC vectors

A Join of a further attribute is encoded with the registrar of the first one, and every vector
repeats the LeaveAll flag.
-/

namespace Avb4Linux.Mrp

open Lib.Packing StateTransition List

theorem mmrpMacFormat_consecutive : mmrpMacFormat.Consecutive := by
  intro first c v
  exact Bool.eq_iff_iff.mpr (beq_iff_eq.trans decide_eq_true_iff.symm)

theorem MmrpValue.eq_macaddr {v : MmrpValue} (h : mmrpMacFormat.selects v = true) :
    v = .macaddr v.mac := by
  cases v with
  | svcreq v => exact absurd h (by simp [mmrpMacFormat, MmrpValue.sameType])
  | macaddr a => rfl

theorem mmrpMacEvents_run {first : MmrpValue} {c : MacAddr}
    {es : List (Attrib MmrpValue × PduEvent)}
    (hrun : mmrpMacFormat.Run first c (es.map fun x => x.1.value)) :
    mmrpMacEvents (mmrpIncrementMacaddr c) (es.map fun x => x.2.code) = es.map pduCall := by
  induction es generalizing c with
  | nil => rfl
  | cons x es ih =>
    obtain ⟨hsel, hnext, hrun⟩ := hrun
    have hmac : x.1.value.mac = mmrpIncrementMacaddr c := eq_of_beq hnext
    have hcall : pduCall x = ⟨x.2.received, some (.macaddr (mmrpIncrementMacaddr c))⟩ := by
      rw [pduCall, ← hmac, ← MmrpValue.eq_macaddr hsel]
    rw [map_cons, mmrpMacEvents, pduEventOfCode_code, map_cons, hcall]
    exact congrArg₂ List.cons rfl (ih hrun)

theorem mmrpMac_codec :
    VectorCodec mmrpMacFormat mmrpMacParser fun v => mmrpMacFormat.selects v = true where
  firstLen := rfl
  pos := by decide
  declares := rfl
  values a e es cur hrun haccepts := by
    have hsel : mmrpMacFormat.selects a.value = true := haccepts (a, e) (by simp)
    have hfirst : (Vector.ofFn fun i : Fin 6 => byteAt (a.value.mac.toList ++ cur) i) =
        a.value.mac := by
      have h := bytesAt_append [] a.value.mac cur
      simpa [bytesAt] using h
    change mmrpMacEvents (Vector.ofFn fun i => byteAt (a.value.mac.toList ++ cur) i)
      (((a, e) :: es).map fun x => x.2.code) = _
    rw [hfirst, map_cons, mmrpMacEvents, pduEventOfCode_code]
    refine congrArg₂ List.cons ?_ (mmrpMacEvents_run hrun)
    rw [pduCall, ← MmrpValue.eq_macaddr hsel]

def mmrpMacFlag (lva : Bool) : List (Received MmrpValue) :=
  if lva then [⟨.RLA, some (.macaddr (Vector.replicate 6 0))⟩] else []

def mmrpMacCalls (v : Vect MmrpValue) : List (Received MmrpValue) :=
  mmrpMacFlag v.lva ++ v.values.map pduCall

def MmrpMacWhole (v : Vect MmrpValue) : Prop :=
  mmrpMacFormat.Whole (fun v => mmrpMacFormat.selects v = true) v

variable {vs : List (Vect MmrpValue)} {env : Env} {lva sendEmpty : Bool} {db : Database MmrpValue}

theorem mmrpMacVectors_body (hvs : ∀ v ∈ vs, MmrpMacWhole v) {fuel : Nat}
    (hfuel : vs.length < fuel) (saw : Bool) (cur : List UInt8) :
    parseVectors mmrpMacParser fuel saw (mmrpMacFormat.body vs ++ 0 :: 0 :: cur) =
      (vs.flatMap mmrpMacCalls, some (0 :: 0 :: cur, saw)) := by
  induction vs generalizing fuel with
  | nil =>
    obtain ⟨fuel, rfl⟩ := Nat.exists_eq_add_one_of_ne_zero (Nat.ne_of_gt hfuel)
    rfl
  | cons v vs ih =>
    obtain ⟨fuel, rfl⟩ := Nat.exists_eq_add_one_of_ne_zero (Nat.ne_of_gt (Nat.zero_lt_of_lt hfuel))
    have hrest := ih (fun w hw => hvs w (by simp [hw])) (Nat.lt_of_succ_lt_succ hfuel)
    have hbody : mmrpMacFormat.body (v :: vs) ++ 0 :: 0 :: cur =
        mmrpMacFormat.vectBytes v ++ (mmrpMacFormat.body vs ++ 0 :: 0 :: cur) := by
      simp [VectorFormat.body]
    have hvector := mmrpMac_codec.vector (hvs v (by simp)) fuel saw
      (mmrpMacFormat.body vs ++ 0 :: 0 :: cur)
    -- the flag is obeyed whether one was seen before or not, and leaves no trace
    have hlva : (v.lva && (mmrpMacParser.everyLva || !saw)) = v.lva := Bool.and_true v.lva
    have hsaw : (saw || v.lva && !mmrpMacParser.everyLva) = saw := by
      cases saw <;> cases v.lva <;> rfl
    dsimp only at hvector
    rw [hlva, hsaw, hrest] at hvector
    rw [hbody, hvector]
    rfl

theorem reaches_mac (hvs : ∀ v ∈ vs, MmrpMacWhole v) (sendEmpty : Bool) {cur : List UInt8}
    (hcur : cur ≠ []) :
    ∃ endmarks, Reaches MmrpReader.round
      ⟨[], 0, false, mmrpMacFormat.messageBytes sendEmpty vs ++ cur⟩
      ⟨vs.flatMap mmrpMacCalls, endmarks, false, cur⟩ := by
  cases vs with
  | nil =>
    have hnone : mmrpMacFormat.messageBytes sendEmpty [] = [] := by
      cases sendEmpty <;> rfl
    rw [hnone]
    exact ⟨0, Relation.ReflTransGen.refl⟩
  | cons v vs =>
    have hbytes : mmrpMacFormat.messageBytes sendEmpty (v :: vs) ++ cur =
        2 :: 6 :: (mmrpMacFormat.body (v :: vs) ++ 0 :: 0 :: cur) := by
      simp [VectorFormat.messageBytes, VectorFormat.message, mmrpMacFormat]
    have hne : ∀ w ∈ v :: vs, w.values ≠ [] := by
      intro w hw
      obtain ⟨a, e, es, hvalues, -⟩ := (hvs w hw).wellFormed
      simp [hvalues]
    have hcount := mmrpMacFormat.length_le_body hne
    have hpos : 0 < cur.length := length_pos_iff.mpr hcur
    have hfuel : (v :: vs).length <
        (2 :: 6 :: (mmrpMacFormat.body (v :: vs) ++ 0 :: 0 :: cur)).length := by
      grind
    have hread := mmrpMacVectors_body hvs hfuel false cur
    refine ⟨1, ?_⟩
    rw [hbytes]
    refine (Relation.ReflTransGen.single ?_).tail
      (b := ⟨(v :: vs).flatMap mmrpMacCalls, 0, false, 0 :: 0 :: cur⟩) ?_
    · rw [Option.mem_def]
      unfold MmrpReader.round
      dsimp only
      rw [if_neg, if_neg]
      · have hparser : mmrpParserAt (2 :: 6 :: (mmrpMacFormat.body (v :: vs) ++ 0 :: 0 :: cur)) =
            some mmrpMacParser := rfl
        grind
      · rintro ⟨htype, -⟩
        exact absurd (show (2 : UInt8) = 0 from htype) (by decide)
      · simp only [length_cons, length_append, endmarkSz]
        omega
    · rw [Option.mem_def]
      unfold MmrpReader.round
      dsimp only
      rw [if_neg, if_pos ⟨rfl, rfl⟩, if_pos (by decide)]
      · rfl
      · simp only [length_cons, endmarkSz]
        omega

def mmrpMacVects (db : Database MmrpValue) : List (Vect MmrpValue) :=
  (emitLoop mmrpMacFormat maxFrameSize 0 messageListStart
    (mmrpMacFormat.dataStart messageListStart) db.mrpDb.lva.tx (0, 0) db.attribList).2.getD []

def mmrpMacEmitted (sendEmpty : Bool) (db : Database MmrpValue) :
    List (Attrib MmrpValue) × List UInt8 :=
  let r := emitVectors mmrpMacFormat maxFrameSize messageListStart sendEmpty db.mrpDb.lva.tx (0, 0)
    db.attribList
  (r.1, r.2.getD [])

def mmrpSvcStart (sendEmpty : Bool) (db : Database MmrpValue) : Nat :=
  messageListStart + (mmrpMacEmitted sendEmpty db).2.length

def mmrpSvcVects (env : Env) (sendEmpty : Bool) (db : Database MmrpValue) :
    List (Vect MmrpValue) :=
  (emitLoop mmrpSvcFormat maxFrameSize 0 (mmrpSvcStart sendEmpty db)
    (mmrpSvcFormat.dataStart (mmrpSvcStart sendEmpty db)) db.mrpDb.lva.tx env.stack
    (mmrpMacEmitted sendEmpty db).1).2.getD []

structure MmrpSent (env : Env) (sendEmpty : Bool) (db : Database MmrpValue) (frame : Frame) :
    Prop where
  mac : (emitLoop mmrpMacFormat maxFrameSize 0 messageListStart
    (mmrpMacFormat.dataStart messageListStart) db.mrpDb.lva.tx (0, 0) db.attribList).2 =
      some (mmrpMacVects db)
  macBytes : (mmrpMacEmitted sendEmpty db).2 =
    mmrpMacFormat.messageBytes sendEmpty (mmrpMacVects db)
  svc : (emitLoop mmrpSvcFormat maxFrameSize 0 (mmrpSvcStart sendEmpty db)
    (mmrpSvcFormat.dataStart (mmrpSvcStart sendEmpty db)) db.mrpDb.lva.tx env.stack
    (mmrpMacEmitted sendEmpty db).1).2 = some (mmrpSvcVects env sendEmpty db)
  frame_eq : frame = mrpFrame mmrpAddr env.stationAddr mmrpEtype
    (mmrpMacFormat.messageBytes sendEmpty (mmrpMacVects db) ++
      mmrpSvcFormat.messageBytes sendEmpty (mmrpSvcVects env sendEmpty db))

theorem mmrpTxpdu_eq_some {frame : Frame} (h : (mmrpTxpdu env sendEmpty db).2 = some frame) :
    MmrpSent env sendEmpty db frame := by
  unfold mmrpTxpdu at h
  dsimp only at h
  split at h
  · exact absurd h (by simp)
  rename_i macBytes hmac
  split at h
  · exact absurd h (by simp)
  split at h
  · exact absurd h (by simp)
  rename_i svcBytes hsvc
  split at h
  · exact absurd h (by simp)
  split at h
  · obtain ⟨vs, hvs, rfl⟩ := emitVectors_eq_some hmac
    have hmacVects : mmrpMacVects db = vs := by
      rw [mmrpMacVects, hvs]
      rfl
    have hbytes : (mmrpMacEmitted sendEmpty db).2 = mmrpMacFormat.messageBytes sendEmpty vs := by
      unfold mmrpMacEmitted
      dsimp only
      rw [hmac]
      rfl
    have hstart : mmrpSvcStart sendEmpty db =
        messageListStart + (mmrpMacFormat.messageBytes sendEmpty vs).length := by
      rw [mmrpSvcStart, hbytes]
    rw [← hstart] at hsvc
    obtain ⟨ws, hws, rfl⟩ := emitVectors_eq_some hsvc
    have hsvcVects : mmrpSvcVects env sendEmpty db = ws := by
      unfold mmrpSvcVects mmrpMacEmitted
      dsimp only
      rw [hws]
      rfl
    refine ⟨?_, ?_, ?_, ?_⟩
    · rw [hmacVects]
      exact hvs
    · rw [hmacVects]
      exact hbytes
    · rw [hsvcVects]
      exact hws
    · grind
  · exact absurd h (by simp)

theorem MmrpSent.drop_svcStart {frame : Frame} (h : MmrpSent env sendEmpty db frame) :
    frame.drop (mmrpSvcStart sendEmpty db) =
      mmrpSvcFormat.messageBytes sendEmpty (mmrpSvcVects env sendEmpty db) ++ [0, 0] := by
  rw [mmrpSvcStart, h.macBytes, h.frame_eq, ← drop_drop, drop_mrpFrame rfl, append_assoc]
  exact drop_left

theorem MmrpSent.reaches_svcStart {frame : Frame} (h : MmrpSent env sendEmpty db frame) :
    ∃ endmarks, Reaches MmrpReader.round (MmrpReader.start frame)
      ⟨(mmrpMacVects db).flatMap mmrpMacCalls, endmarks, false,
        frame.drop (mmrpSvcStart sendEmpty db)⟩ := by
  have hwhole : ∀ v ∈ mmrpMacVects db, MmrpMacWhole v :=
    emitLoop_whole rfl (fun _ _ hsel => hsel) h.mac
  have hstart : MmrpReader.start frame = ⟨[], 0, false,
      mmrpMacFormat.messageBytes sendEmpty (mmrpMacVects db) ++
        frame.drop (mmrpSvcStart sendEmpty db)⟩ := by
    rw [h.drop_svcStart, MmrpReader.start, h.frame_eq, drop_mrpFrame rfl, append_assoc]
  rw [hstart]
  refine reaches_mac hwhole sendEmpty ?_
  rw [h.drop_svcStart]
  simp

theorem MmrpSent.reads_svcStart_iff {frame : Frame} (h : MmrpSent env sendEmpty db frame)
    (calls : List (Received MmrpValue)) :
    MmrpReads frame calls (mmrpSvcStart sendEmpty db) ↔
      calls = (mmrpMacVects db).flatMap mmrpMacCalls := by
  obtain ⟨endmarks, hreach⟩ := h.reaches_svcStart
  constructor
  · rintro ⟨endmarks', saw, hreach'⟩
    grind [MmrpReader.reaches_unique]
  · rintro rfl
    exact ⟨endmarks, false, hreach⟩

def mmrpMacSent (l : List (Attrib MmrpValue)) : List (List (Attrib MmrpValue)) :=
  mmrpMacFormat.fitting maxFrameSize messageListStart (mmrpMacFormat.dataStart messageListStart)
    (mmrpMacFormat.runs l)

def JoinsAlike (r : List (Attrib MmrpValue)) : Prop :=
  ∀ first ∈ r.head?, ∀ x ∈ r, x.applicant.sndmsg = .JOIN →
    (x.registrar.mrpState = .IN ↔ first.registrar.mrpState = .IN)

instance (r : List (Attrib MmrpValue)) : Decidable (JoinsAlike r) :=
  inferInstanceAs (Decidable (∀ first ∈ r.head?, ∀ x ∈ r, x.applicant.sndmsg = .JOIN →
    (x.registrar.mrpState = .IN ↔ first.registrar.mrpState = .IN)))

theorem vectevt_own_iff {m : SndMsg} {own join : RegState} {e : PduEvent}
    (h : vectevt m own join = some e) :
    vectevt m own own = some e ↔ (m = .JOIN → (own = .IN ↔ join = .IN)) := by
  cases m with
  | JOIN =>
    simp only [vectevt, Option.some.injEq] at h ⊢
    grind
  | _ => simp_all [vectevt]

theorem ownEvents_iff_joinsAlike {skip : Nat} {fill : Nat × Nat} {l : List (Attrib MmrpValue)} :
    ∀ v ∈ mmrpMacFormat.vects skip lva fill l,
      ((∀ x ∈ v.values, x.1.ownEvent = some x.2) ↔ JoinsAlike v.attribs) := by
  intro v hv
  obtain ⟨a, e, es, hvalues, hfirst, hmore⟩ := mmrpMacFormat.events_vects v hv
  have hjoins : JoinsAlike v.attribs ↔ ∀ x ∈ (a, e) :: es, x.1.applicant.sndmsg = .JOIN →
      (x.1.registrar.mrpState = .IN ↔ a.registrar.mrpState = .IN) := by
    unfold JoinsAlike Vect.attribs
    rw [hvalues]
    simp
  rw [hjoins, hvalues]
  constructor
  · intro hown x hx
    rcases mem_cons.mp hx with rfl | hmem
    · exact fun _ => Iff.rfl
    · exact (vectevt_own_iff (hmore x hmem)).mp (hown x hx)
  · intro halike x hx
    rcases mem_cons.mp hx with rfl | hmem
    · exact hfirst
    · exact (vectevt_own_iff (hmore x hmem)).mpr (halike x hx)

def leaveAlls (rs : List (Received MmrpValue)) : Nat :=
  rs.countP fun r => r.event = .RLA

theorem leaveAlls_append (rs rs' : List (Received MmrpValue)) :
    leaveAlls (rs ++ rs') = leaveAlls rs + leaveAlls rs' :=
  List.countP_append

theorem leaveAlls_pduCall (xs : List (Attrib MmrpValue × PduEvent)) :
    leaveAlls (xs.map pduCall) = 0 := by
  refine countP_eq_zero.mpr fun r hr => ?_
  obtain ⟨x, -, rfl⟩ := mem_map.mp hr
  rw [decide_eq_true_eq, pduCall]
  cases x.2 <;> simp [PduEvent.received]

theorem leaveAlls_ownCall (l : List (Attrib MmrpValue)) :
    leaveAlls (l.filterMap Attrib.ownCall) = 0 := by
  refine countP_eq_zero.mpr fun r hr => ?_
  obtain ⟨a, -, ha⟩ := mem_filterMap.mp hr
  obtain ⟨e, -, rfl⟩ := Option.map_eq_some_iff.mp ha
  rw [decide_eq_true_eq]
  cases e <;> simp [PduEvent.received]

theorem leaveAlls_macCalls (hlva : ∀ v ∈ vs, v.lva = lva) :
    leaveAlls (vs.flatMap mmrpMacCalls) = if lva then vs.length else 0 := by
  induction vs with
  | nil => cases lva <;> rfl
  | cons v vs ih =>
    grind [leaveAlls_append, mmrpMacCalls, leaveAlls_pduCall, mmrpMacFlag, leaveAlls, decide_true]

theorem macCalls_eq (hlva : ∀ v ∈ vs, v.lva = lva) (hone : lva = true → vs.length = 1) :
    vs.flatMap mmrpMacCalls = mmrpMacFlag lva ++ (vs.flatMap Vect.values).map pduCall := by
  cases lva with
  | false =>
    have hcalls : ∀ v ∈ vs, mmrpMacCalls v = v.values.map pduCall := by
      intro v hv
      rw [mmrpMacCalls, hlva v hv]
      rfl
    rw [map_flatMap]
    exact flatMap_congr hcalls
  | true =>
    obtain ⟨v, rfl⟩ := length_eq_one_iff.mp (hone rfl)
    simp [mmrpMacCalls, hlva v (by simp)]

/-- When the MAC vectors of a PDU are read as one LeaveAll, if one was signalled, and the
event that is due for each attribute: the Joins of each group are alike, and a LeaveAll
goes out with exactly one group. -/
theorem mmrpMac_reads_iff (env : Env) (sendEmpty : Bool) (db : Database MmrpValue) (frame : Frame)
    (hframe : (mmrpTxpdu env sendEmpty db).2 = some frame) :
    MmrpReads frame
        (mmrpMacFlag db.mrpDb.lva.tx ++
          (mmrpMacSent db.attribList).flatten.filterMap Attrib.ownCall)
        (mmrpSvcStart sendEmpty db) ↔
      (∀ r ∈ mmrpMacSent db.attribList, JoinsAlike r) ∧
        (db.mrpDb.lva.tx = true → (mmrpMacSent db.attribList).length = 1) := by
  have h := mmrpTxpdu_eq_some hframe
  rw [h.reads_svcStart_iff]
  obtain ⟨hpart, -⟩ := emitLoop_vects h.mac
  set vs := mmrpMacVects db
  have hsent : mmrpMacSent db.attribList = vs.map Vect.attribs :=
    (emitLoop_runs mmrpMacFormat_consecutive h.mac).symm
  have hlva : ∀ v ∈ vs, v.lva = db.mrpDb.lva.tx := fun v hv =>
    mmrpMacFormat.lva_vects_every (Bool.and_true _) v (hpart.subset hv)
  have hsend : ∀ x ∈ vs.flatMap Vect.values, x.1.applicant.sndmsg.sendable = true := by
    intro x hx
    obtain ⟨v, hv, hx⟩ := mem_flatMap.mp hx
    exact mmrpMacFormat.sendable_vects v (hpart.subset hv) x hx
  have hown : (vs.flatMap Vect.values).map pduCall =
        (mmrpMacSent db.attribList).flatten.filterMap Attrib.ownCall ↔
      ∀ r ∈ mmrpMacSent db.attribList, JoinsAlike r := by
    rw [hsent, Vect.flatten_attribs, map_pduCall_eq_iff hsend, forall_mem_flatMap,
      forall_mem_map]
    exact forall₂_congr fun v hv => ownEvents_iff_joinsAlike v (hpart.subset hv)
  rw [hsent, length_map, ← hsent]
  constructor
  · intro heq
    have hone : db.mrpDb.lva.tx = true → vs.length = 1 := by
      intro htx
      have hcount := congrArg leaveAlls heq
      rw [leaveAlls_macCalls hlva, leaveAlls_append, leaveAlls_ownCall, htx] at hcount
      exact hcount.symm
    rw [macCalls_eq hlva hone] at heq
    exact ⟨hown.mp (append_cancel_left heq).symm, hone⟩
  · rintro ⟨halike, hone⟩
    rw [macCalls_eq hlva hone, hown.mpr halike]

def joiningMac (last : UInt8) (r : RegState) : Attrib MmrpValue :=
  ⟨.macaddr #v[0x91, 0xE0, 0xF0, 0, 0, last],
    { mrpState := .QA, tx := true, sndmsg := .JOIN, encode := .YES }, { mrpState := r }⟩

theorem mmrpMac_reads_pair :
    let db : Database MmrpValue :=
      { mrpDb := { lva := { tx := true } }, attribList := [joiningMac 1 .IN, joiningMac 2 .IN] }
    let frame := (mmrpTxpdu { now := 0 } false db).2.getD []
    MmrpReads frame
      (mmrpMacFlag true ++ (mmrpMacSent db.attribList).flatten.filterMap Attrib.ownCall)
      (mmrpSvcStart false db) := by
  intro db frame
  exact (mmrpMac_reads_iff { now := 0 } false db frame (by decide)).mpr ⟨by decide, by decide⟩

/-- Of two consecutive addresses the second is announced with the registrar of the first,
and a LeaveAll with two addresses that are not consecutive is obeyed twice. -/
theorem mmrpMac_misread :
    let joins : Database MmrpValue := { attribList := [joiningMac 1 .IN, joiningMac 2 .MT] }
    let leaves : Database MmrpValue :=
      { mrpDb := { lva := { tx := true } }, attribList := [joiningMac 1 .IN, joiningMac 7 .IN] }
    let due (db : Database MmrpValue) := mmrpMacFlag db.mrpDb.lva.tx ++
      (mmrpMacSent db.attribList).flatten.filterMap Attrib.ownCall
    (∃ frame, (mmrpTxpdu { now := 0 } false joins).2 = some frame ∧
        ¬ MmrpReads frame (due joins) (mmrpSvcStart false joins)) ∧
      ∃ frame, (mmrpTxpdu { now := 0 } false leaves).2 = some frame ∧
        ¬ MmrpReads frame (due leaves) (mmrpSvcStart false leaves) := by
  intro joins leaves due
  have hmisread : ∀ db frame, (mmrpTxpdu { now := 0 } false db).2 = some frame →
      due db ≠ (mmrpMacVects db).flatMap mmrpMacCalls →
      ¬ MmrpReads frame (due db) (mmrpSvcStart false db) := fun db frame hframe hne hreads =>
    hne (((mmrpTxpdu_eq_some hframe).reads_svcStart_iff _).mp hreads)
  have hjoins : (mmrpTxpdu { now := 0 } false joins).2 =
      some ((mmrpTxpdu { now := 0 } false joins).2.getD []) := by decide
  have hleaves : (mmrpTxpdu { now := 0 } false leaves).2 =
      some ((mmrpTxpdu { now := 0 } false leaves).2.getD []) := by decide
  exact ⟨⟨_, hjoins, hmisread joins _ hjoins (by decide)⟩,
    ⟨_, hleaves, hmisread leaves _ hleaves (by decide)⟩⟩

end Avb4Linux.Mrp
