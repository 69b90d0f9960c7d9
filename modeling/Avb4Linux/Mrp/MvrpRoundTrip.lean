import Avb4Linux.Mrp.MvrpCodec

/-!
# MVRP: the round trip of a PDU

`mvrp_recv_msg` applied to the bytes of `mvrp_txpdu`: the runs of consecutive VIDs for which the
frame has room.
-/

namespace Avb4Linux.Mrp

def mvrpSent (l : List (Attrib Vid)) : List (Attrib Vid) :=
  (mvrpVidFormat.fitting maxFrameSize messageListStart (mvrpVidFormat.dataStart messageListStart)
    (mvrpVidFormat.runs l)).flatten

def mvrpLeaveAll (sendEmpty : Bool) (db : Database Vid) : Bool :=
  db.mrpDb.lva.tx || sendEmpty && (mvrpSent db.attribList).isEmpty

theorem mvrpVidFormat_consecutive : mvrpVidFormat.Consecutive := by
  intro first c v
  exact Bool.eq_iff_iff.mpr (beq_iff_eq.trans decide_eq_true_iff.symm)

theorem mvrpTxpdu_eq_some {env : Env} {sendEmpty : Bool} {db : Database Vid} {frame : Frame}
    (h : (mvrpTxpdu env sendEmpty db).2 = some frame) :
    ∃ vs, (emitLoop mvrpVidFormat maxFrameSize 0 messageListStart
        (mvrpVidFormat.dataStart messageListStart) db.mrpDb.lva.tx (0, 0) db.attribList).2 =
        some vs ∧
      mvrpVidFormat.messageBytes sendEmpty vs ≠ [] ∧
      frame = mrpFrame mvrpCustomerBridgeAddr env.stationAddr mvrpEtype
        (mvrpVidFormat.messageBytes sendEmpty vs) := by
  unfold mvrpTxpdu at h
  dsimp only at h
  split at h
  · exact absurd h (by simp)
  · exact absurd h (by simp)
  rename_i bytes hne hbytes
  obtain ⟨vs, hvs, rfl⟩ := emitVectors_eq_some hbytes
  grind

theorem mvrpParse_mvrpTxpdu {env : Env} {sendEmpty : Bool} {db : Database Vid} {frame : Frame}
    (hvid : ∀ a ∈ db.attribList, a.value ≤ 0xFFF)
    (hframe : (mvrpTxpdu env sendEmpty db).2 = some frame) :
    mvrpParse frame = mvrpFlag (mvrpLeaveAll sendEmpty db) ++
        (mvrpSent db.attribList).filterMap Attrib.ownCall ∧
      frameSrc frame = env.stationAddr := by
  obtain ⟨vs, hvs, hne, rfl⟩ := mvrpTxpdu_eq_some hframe
  refine ⟨?_, frameSrc_mrpFrame rfl _ _ _⟩
  obtain ⟨hpart, -⟩ := emitLoop_vects hvs
  have hwhole : ∀ v ∈ vs, mvrpVidFormat.Whole (fun vid => ¬ 0xFFF < vid) v :=
    emitLoop_whole rfl (fun a ha _ => UInt16.not_lt.mpr (hvid a ha)) hvs
  have hreadable : ∀ v ∈ vs, MvrpReadable v := fun v hv =>
    ⟨(hwhole v hv).wellFormed, (hwhole v hv).fill, (hwhole v hv).length, (hwhole v hv).accepted⟩
  have hown : ∀ v ∈ vs, ∀ x ∈ v.values, x.1.ownEvent = some x.2 := by
    intro v hv x hx
    obtain ⟨a, e, es, hvalues, hfirst, hmore⟩ :=
      mvrpVidFormat.events_vects v (hpart.subset hv)
    rw [hvalues] at hx
    rcases List.mem_cons.mp hx with rfl | hx
    · exact hfirst
    · exact hmore x hx
  have hsent : mvrpSent db.attribList = (vs.map Vect.attribs).flatten := by
    unfold mvrpSent
    rw [emitLoop_runs mvrpVidFormat_consecutive hvs]
  obtain ⟨hhead, hlva⟩ := mvrpVidFormat.lva_part rfl hpart
  have hcalls : mvrpCalls vs = (mvrpSent db.attribList).filterMap Attrib.ownCall := by
    have hsend : ∀ x ∈ vs.flatMap Vect.values, x.1.applicant.sndmsg.sendable = true := by
      intro x hx
      grind [VectorFormat.sendable_vects]
    have hevents := (map_pduCall_eq_iff hsend).mpr fun x hx => by
      obtain ⟨v, hv, hx⟩ := List.mem_flatMap.mp hx
      exact hown v hv x hx
    rw [hsent, Vect.flatten_attribs, ← hevents, List.map_flatMap]
    rfl
  rw [mvrpParse_mrpFrame hreadable hlva hne, hcalls]
  congr 2
  unfold mvrpLeaveAll
  rw [hsent]
  cases vs with
  | nil =>
    -- only the empty LeaveAll makes a message without vectors
    cases sendEmpty with
    | false => exact absurd rfl hne
    | true => simp
  | cons v vs =>
    obtain ⟨a, e, es, hvalues, -⟩ := (hwhole v (by simp)).wellFormed
    have hfirst : v.lva = db.mrpDb.lva.tx := hhead v rfl
    simp [Vect.attribs, hvalues, hfirst]

/-- What `mvrp_recv_msg` does with a PDU of `mvrp_txpdu`. -/
theorem mvrpRecvMsg_mvrpTxpdu (env : Env) (sendEmpty : Bool) (db : Database Vid) (frame : Frame)
    (hvid : ∀ a ∈ db.attribList, a.value ≤ 0xFFF)
    (hframe : (mvrpTxpdu env sendEmpty db).2 = some frame) (env' : Env) (db' : Database Vid) :
    mvrpRecvMsg env' frame db' =
      runReceived (mvrpEvent env') env.stationAddr
        (mvrpFlag (mvrpLeaveAll sendEmpty db) ++
          (mvrpSent db.attribList).filterMap Attrib.ownCall) db' := by
  obtain ⟨hparse, hsrc⟩ := mvrpParse_mvrpTxpdu hvid hframe
  unfold mvrpRecvMsg
  rw [hparse, hsrc]

theorem mvrpRecvMsg_mvrpTxpdu_vids :
    let join : Applicant := { mrpState := .QA, tx := true, sndmsg := .JOIN, encode := .YES }
    let vid (v : Vid) (a : Applicant) (r : RegState) : Attrib Vid := ⟨v, a, { mrpState := r }⟩
    let db : Database Vid :=
      { mrpDb := { lva := { tx := true } }
        attribList := [vid 2 join .IN, vid 3 { join with sndmsg := .NEW } .MT,
          vid 4 { join with encode := .OPTIONAL } .LV, vid 5 { join with sndmsg := .IN } .MT,
          vid 9 join .MT] }
    let frame := (mvrpTxpdu { now := 0 } true db).2.getD []
    mvrpFlag (mvrpLeaveAll true db) ++ (mvrpSent db.attribList).filterMap Attrib.ownCall =
        [⟨.RLA, none⟩, ⟨.RJOININ, some 2⟩, ⟨.RNEW, some 3⟩, ⟨.RJOINMT, some 4⟩, ⟨.RMT, some 5⟩,
          ⟨.RJOINMT, some 9⟩] ∧
      mvrpRecvMsg { now := 0 } frame (mvrpInit { now := 0 }) =
        runReceived (mvrpEvent { now := 0 }) (Vector.replicate 6 0)
          (mvrpFlag (mvrpLeaveAll true db) ++ (mvrpSent db.attribList).filterMap Attrib.ownCall)
          (mvrpInit { now := 0 }) := by
  intro join vid db frame
  exact ⟨by decide, mvrpRecvMsg_mvrpTxpdu { now := 0 } true db frame (by decide) (by decide) _ _⟩

end Avb4Linux.Mrp
