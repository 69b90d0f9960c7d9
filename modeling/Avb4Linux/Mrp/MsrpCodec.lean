import Avb4Linux.Mrp.Codec
import Avb4Linux.Mrp.Emission

/-!
# MSRP: reading back a PDU

What `msrp_recv_msg` makes of a PDU that `msrp_txpdu` has built: the calls of the
event function that the encoded attributes stand for, in the order in which they
were encoded.
-/

namespace Avb4Linux.Mrp

open Lib.Packing List

variable {C : Type}

/-- The attribute value that a vector carries: a Talker Advertise has no failure
information, a Listener nothing but its stream id and substate, and a Domain's
priority is the receiver's neighbour priority. -/
def MsrpValue.wire (v : MsrpValue) : MsrpValue :=
  match v.type with
  | .TALKER_ADV =>
    { type := .TALKER_ADV
      talkListen := { v.talkListen with bridgeID := Vector.replicate 8 0, failureCode := 0 } }
  | .TALKER_FAILED => { type := .TALKER_FAILED, talkListen := v.talkListen }
  | .LISTENER =>
    { type := .LISTENER
      talkListen := { streamID := v.talkListen.streamID }
      substate := v.substate }
  | .DOMAIN =>
    { type := .DOMAIN
      domain := { v.domain with neighborSRclassPriority := v.domain.srClassPriority } }

def msrpEncodedCall (x : Attrib MsrpValue × PduEvent) : List (Received MsrpValue) :=
  if x.1.value.type = .LISTENER ∧ x.1.value.substate = 0 then []
  else [⟨x.2.received, some x.1.value.wire⟩]

/-- The calls the vectors of one attribute type stand for. Without a vector the
LeaveAll can still be sent on its own. -/
def msrpEncodedCalls (type : MsrpType) (sendEmpty : Bool) (vs : List (Vect MsrpValue)) :
    List (Received MsrpValue) :=
  (if vs.head?.elim sendEmpty Vect.lva then [⟨.RLA, some { type := type }⟩] else []) ++
    vs.flatMap fun v => v.values.flatMap msrpEncodedCall

def msrpEmitted (F : VectorFormat MsrpValue C) (lva : Bool)
    (s : List (Attrib MsrpValue) × List UInt8) : List (Vect MsrpValue) :=
  let base := messageListStart + s.2.length
  (emitLoop F maxFrameSize 0 base (F.dataStart base) lva (0, 0) s.1).2.getD []

/-- The calls that a PDU of `msrp_txpdu` stands for, from the vectors its four emit
calls form. -/
def msrpEncoded (sendEmpty lva : Bool) (l : List (Attrib MsrpValue)) :
    List (Received MsrpValue) :=
  let r1 := msrpEmit msrpTalkerAdvFormat sendEmpty lva (l, [])
  let s2 := (r1.1, r1.2.getD [])
  let r2 := msrpEmit msrpTalkerFailedFormat sendEmpty lva s2
  let s3 := (markListeners r2.1, r2.2.getD [])
  let r3 := msrpEmit msrpListenerFormat sendEmpty lva s3
  let s4 := (r3.1, r3.2.getD [])
  msrpEncodedCalls .TALKER_ADV sendEmpty (msrpEmitted msrpTalkerAdvFormat lva (l, [])) ++
    msrpEncodedCalls .TALKER_FAILED sendEmpty (msrpEmitted msrpTalkerFailedFormat lva s2) ++
    msrpEncodedCalls .LISTENER sendEmpty (msrpEmitted msrpListenerFormat lva s3) ++
    msrpEncodedCalls .DOMAIN sendEmpty (msrpEmitted msrpDomainFormat lva s4)

theorem msrpCall_code (e : PduEvent) (v : MsrpValue) :
    msrpCall e.code v = [⟨e.received, some v⟩] := by
  simp [msrpCall]

structure MsrpCodec (F : VectorFormat MsrpValue C) (P : MsrpParser) : Prop where
  parser : msrpParser F.attributeType = some P
  attributeLength : F.attributeLength.toNat = F.vectidx
  firstLen : P.firstLen = F.vectidx
  fourPacked : P.fourPacked = F.declares.isSome
  listLength : F.listLength = true
  lvaOnce : F.lvaOnce = true
  emptyLva : F.emptyLva = true
  clearsVectevt : F.clearsVectevt = true
  declares : ∀ d ∈ F.declares, ∀ v, d v = v.substate.toNat
  listener : F.declares.isSome = true → ∀ v, F.selects v = true → v.type = .LISTENER
  values : ∀ a e es cur subs, F.selects a.value = true →
    F.Run a.value (F.start a.value) (es.map fun x => x.1.value) →
    (F.declares.isSome = true → subs = ((a, e) :: es).map fun x => x.1.value.substate.toNat) →
    P.values (F.firstValue a.value ++ cur) (((a, e) :: es).map fun x => x.2.code) subs =
      ((a, e) :: es).flatMap msrpEncodedCall

def TalkListen.carried (type : MsrpType) (t : TalkListen) : TalkListen :=
  if type = .TALKER_FAILED then t
  else { t with bridgeID := Vector.replicate 8 0, failureCode := 0 }

theorem TalkListen.carried_streamID (type : MsrpType) (t : TalkListen) :
    (t.carried type).streamID = t.streamID := by
  unfold TalkListen.carried
  split <;> rfl

theorem TalkListen.carried_destAddr (type : MsrpType) (t : TalkListen) :
    (t.carried type).destAddr = t.destAddr := by
  unfold TalkListen.carried
  split <;> rfl

variable {type : MsrpType} {v : Vect MsrpValue}

theorem MsrpValue.wire_talker {v : MsrpValue} (htalker : type.isTalker = true)
    (hv : v.type = type) : v.wire = { type := type, talkListen := v.talkListen.carried type } := by
  unfold MsrpValue.wire
  rw [hv]
  cases type with
  | TALKER_ADV => rfl
  | TALKER_FAILED => rfl
  | LISTENER => exact absurd htalker (by decide)
  | DOMAIN => exact absurd htalker (by decide)

theorem msrpEncodedCall_talker {x : Attrib MsrpValue × PduEvent} (htalker : type.isTalker = true)
    (hx : x.1.value.type = type) :
    msrpEncodedCall x =
      [⟨x.2.received, some { type := type, talkListen := x.1.value.talkListen.carried type }⟩] := by
  have hne : x.1.value.type ≠ .LISTENER := by
    rw [hx]
    rintro rfl
    exact absurd htalker (by decide)
  rw [msrpEncodedCall, if_neg (fun h => hne h.1), MsrpValue.wire_talker htalker hx]

theorem msrpTalkerEvents_run (htalker : type.isTalker = true)
    {F : VectorFormat MsrpValue (StreamId × MacAddr)}
    (hsel : ∀ v, F.selects v = true → v.type = type) (hadv : F.advance = talkerAdvance)
    (hcont : F.contiguous = vectorizeTalker) (first : MsrpValue) (c : StreamId × MacAddr)
    (es : List (Attrib MsrpValue × PduEvent)) (hrun : F.Run first c (es.map fun x => x.1.value)) :
    msrpTalkerEvents type
        { first.talkListen.carried type with
          streamID := (talkerAdvance c).1
          destAddr := (talkerAdvance c).2 } (es.map fun x => x.2.code) =
      es.flatMap msrpEncodedCall := by
  induction es generalizing c with
  | nil => rfl
  | cons x es ih =>
    obtain ⟨hx, hx', hrest⟩ := hrun
    rw [hadv] at hx' hrest
    rw [hcont] at hx'
    have hvalue : { first.talkListen with
        streamID := (talkerAdvance c).1
        destAddr := (talkerAdvance c).2 } = x.1.value.talkListen :=
      of_decide_eq_true hx'
    have hcarried : { first.talkListen.carried type with
        streamID := (talkerAdvance c).1
        destAddr := (talkerAdvance c).2 } = x.1.value.talkListen.carried type := by
      rw [← hvalue]
      unfold TalkListen.carried
      split <;> rfl
    grind [msrpTalkerEvents, msrpCall_code, msrpEncodedCall_talker, talkerAdvance]

def TalkListen.parameterBytes (t : TalkListen) : List UInt8 :=
  be16 t.vlanID ++ be16 t.maxFrameSize ++ be16 t.maxIntervalFrames ++ [t.priorityAndRank] ++
    be32 t.accumulatedLatency

theorem TalkListen.length_advertiseBytes (t : TalkListen) : t.advertiseBytes.length = 25 := by
  simp [TalkListen.advertiseBytes, be16, be32]

theorem talkerFields_eq (failed : Bool) (t : TalkListen) (cur : List UInt8) :
    talkerFields failed (t.advertiseBytes ++ cur) =
      { t with
        bridgeID := if failed then bytesAt 8 cur 0 else Vector.replicate 8 0
        failureCode := if failed then byteAt cur 8 else 0 } := by
  have hassoc : t.advertiseBytes ++ cur =
      t.streamID.toList ++ (t.destAddr.toList ++ (t.parameterBytes ++ cur)) := by
    simp [TalkListen.advertiseBytes, TalkListen.parameterBytes]
  have hsid : bytesAt 8 (t.advertiseBytes ++ cur) 0 = t.streamID := by
    rw [hassoc]
    exact bytesAt_append [] t.streamID _
  have hmac : bytesAt 6 (t.advertiseBytes ++ cur) 8 = t.destAddr := by
    rw [hassoc]
    have h := bytesAt_append t.streamID.toList t.destAddr (t.parameterBytes ++ cur)
    rwa [Vector.length_toList] at h
  have hparams : ∀ i, byteAt (t.advertiseBytes ++ cur) (14 + i) =
      byteAt (t.parameterBytes ++ cur) i := by
    intro i
    rw [hassoc, ← append_assoc]
    have h := byteAt_append_right (t.streamID.toList ++ t.destAddr.toList)
      (t.parameterBytes ++ cur) i
    rwa [length_append, Vector.length_toList, Vector.length_toList] at h
  have hcur : ∀ i, byteAt (t.advertiseBytes ++ cur) (25 + i) = byteAt cur i := by
    intro i
    have h := byteAt_append_right t.advertiseBytes cur i
    rwa [t.length_advertiseBytes] at h
  have hbridge : bytesAt 8 (t.advertiseBytes ++ cur) 25 = bytesAt 8 cur 0 := by
    grind [bytesAt]
  unfold talkerFields
  rw [hsid, hmac, hbridge, hparams 0, hparams 1, hparams 2, hparams 3, hparams 4, hparams 5,
    hparams 6, hparams 7, hparams 8, hparams 9, hparams 10, hcur 8]
  congr 1
  · exact rd16_be16 t.vlanID
  · exact rd16_be16 t.maxFrameSize
  · exact rd16_be16 t.maxIntervalFrames
  · exact rd32_be32 t.accumulatedLatency

theorem msrpTalkerEvents_cons (htalker : type.isTalker = true)
    {F : VectorFormat MsrpValue (StreamId × MacAddr)}
    (hsel : ∀ v, F.selects v = true → v.type = type) (hadv : F.advance = talkerAdvance)
    (hcont : F.contiguous = vectorizeTalker) {a : Attrib MsrpValue} (e : PduEvent)
    {es : List (Attrib MsrpValue × PduEvent)} (ha : F.selects a.value = true)
    (hrun : F.Run a.value (talkerStart a.value) (es.map fun x => x.1.value)) :
    msrpTalkerEvents type (a.value.talkListen.carried type)
        (((a, e) :: es).map fun x => x.2.code) =
      ((a, e) :: es).flatMap msrpEncodedCall := by
  rw [map_cons, msrpTalkerEvents, msrpCall_code, flatMap_cons,
    msrpEncodedCall_talker htalker (hsel _ ha), TalkListen.carried_streamID,
    TalkListen.carried_destAddr]
  congr 1
  exact msrpTalkerEvents_run htalker hsel hadv hcont a.value (talkerStart a.value) es hrun

def msrpTalkerAdvParser : MsrpParser :=
  ⟨.TALKER_ADV, 25, false, fun cur ds _ => msrpTalkerEvents .TALKER_ADV (talkerFields false cur) ds⟩

def msrpTalkerFailedParser : MsrpParser :=
  ⟨.TALKER_FAILED, 34, false,
    fun cur ds _ => msrpTalkerEvents .TALKER_FAILED (talkerFields true cur) ds⟩

def msrpListenerParser : MsrpParser :=
  ⟨.LISTENER, 8, true, fun cur ds ss => msrpListenerEvents (bytesAt 8 cur 0) ds ss⟩

def msrpDomainParser : MsrpParser :=
  ⟨.DOMAIN, 4, false, fun cur ds _ => msrpDomainEvents (domainFields cur) ds⟩

theorem msrpTalkerAdv_codec : MsrpCodec msrpTalkerAdvFormat msrpTalkerAdvParser where
  parser := rfl
  attributeLength := rfl
  firstLen := rfl
  fourPacked := rfl
  listLength := rfl
  lvaOnce := rfl
  emptyLva := rfl
  clearsVectevt := rfl
  declares d hd := absurd hd (Option.not_mem_none d)
  listener h := absurd h (by decide)
  values a e es cur _ ha hrun _ := by
    have hfields : talkerFields false (a.value.talkListen.advertiseBytes ++ cur) =
        a.value.talkListen.carried .TALKER_ADV := talkerFields_eq false _ cur
    show msrpTalkerEvents .TALKER_ADV
      (talkerFields false (a.value.talkListen.advertiseBytes ++ cur)) _ = _
    rw [hfields]
    exact msrpTalkerEvents_cons rfl (fun v hv => of_decide_eq_true hv) rfl rfl e ha hrun

theorem msrpTalkerFailed_codec : MsrpCodec msrpTalkerFailedFormat msrpTalkerFailedParser where
  parser := rfl
  attributeLength := rfl
  firstLen := rfl
  fourPacked := rfl
  listLength := rfl
  lvaOnce := rfl
  emptyLva := rfl
  clearsVectevt := rfl
  declares d hd := absurd hd (Option.not_mem_none d)
  listener h := absurd h (by decide)
  values a e es cur _ ha hrun _ := by
    have hbridge := bytesAt_append [] a.value.talkListen.bridgeID
      (a.value.talkListen.failureCode :: cur)
    have hcode := byteAt_append_right a.value.talkListen.bridgeID.toList
      (a.value.talkListen.failureCode :: cur) 0
    rw [Vector.length_toList] at hcode
    have hfields : talkerFields true (msrpTalkerFailedFormat.firstValue a.value ++ cur) =
        a.value.talkListen.carried .TALKER_FAILED := by
      have hassoc : msrpTalkerFailedFormat.firstValue a.value ++ cur =
          a.value.talkListen.advertiseBytes ++
            (a.value.talkListen.bridgeID.toList ++ a.value.talkListen.failureCode :: cur) := by
        simp [msrpTalkerFailedFormat]
      rw [hassoc, talkerFields_eq]
      simp only [if_true]
      rw [hcode]
      exact congrArg (fun b => { a.value.talkListen with bridgeID := b }) hbridge
    show msrpTalkerEvents .TALKER_FAILED
      (talkerFields true (msrpTalkerFailedFormat.firstValue a.value ++ cur)) _ = _
    rw [hfields]
    exact msrpTalkerEvents_cons rfl (fun v hv => of_decide_eq_true hv) rfl rfl e ha hrun

theorem msrpEncodedCall_listener {x : Attrib MsrpValue × PduEvent}
    (hx : x.1.value.type = .LISTENER) :
    msrpEncodedCall x =
      if x.1.value.substate.toNat = 0 then []
      else
        msrpCall x.2.code
          { type := .LISTENER
            talkListen := { streamID := x.1.value.talkListen.streamID }
            substate := UInt32.ofNat x.1.value.substate.toNat } := by
  have hwire : x.1.value.wire =
      { type := .LISTENER
        talkListen := { streamID := x.1.value.talkListen.streamID }
        substate := x.1.value.substate } := by
    unfold MsrpValue.wire
    rw [hx]
  rw [msrpEncodedCall, hwire, UInt32.ofNat_toNat, msrpCall_code]
  by_cases hzero : x.1.value.substate = 0
  · rw [if_pos ⟨hx, hzero⟩, hzero]
    rfl
  · have hne : x.1.value.substate.toNat ≠ 0 := fun h => hzero (UInt32.toNat_inj.mp h)
    rw [if_neg fun h => hzero h.2, if_neg hne]

theorem msrpListenerEvents_run (first : MsrpValue) (c : StreamId)
    (es : List (Attrib MsrpValue × PduEvent))
    (hrun : msrpListenerFormat.Run first c (es.map fun x => x.1.value)) :
    msrpListenerEvents (msrpIncrementStreamid c) (es.map fun x => x.2.code)
        (es.map fun x => x.1.value.substate.toNat) =
      es.flatMap msrpEncodedCall := by
  induction es generalizing c with
  | nil => rfl
  | cons x es ih =>
    obtain ⟨hx, hsid, hrest⟩ := hrun
    have htype : x.1.value.type = .LISTENER := of_decide_eq_true hx
    have hsid : x.1.value.talkListen.streamID = msrpIncrementStreamid c := eq_of_beq hsid
    rw [flatMap_cons, msrpEncodedCall_listener htype, hsid, ← ih _ hrest]
    rfl

theorem msrpListener_codec : MsrpCodec msrpListenerFormat msrpListenerParser where
  parser := rfl
  attributeLength := rfl
  firstLen := rfl
  fourPacked := rfl
  listLength := rfl
  lvaOnce := rfl
  emptyLva := rfl
  clearsVectevt := rfl
  declares d hd v := by
    obtain rfl := Option.some.inj hd
    rfl
  listener _ v hv := of_decide_eq_true hv
  values a e es cur subs ha hrun hsubs := by
    have htype : a.value.type = .LISTENER := of_decide_eq_true ha
    have hfirst : bytesAt 8 (msrpListenerFormat.firstValue a.value ++ cur) 0 =
        a.value.talkListen.streamID :=
      bytesAt_append [] a.value.talkListen.streamID cur
    show msrpListenerEvents (bytesAt 8 (msrpListenerFormat.firstValue a.value ++ cur) 0) _ _ = _
    rw [hsubs rfl, hfirst, flatMap_cons, msrpEncodedCall_listener htype,
      ← msrpListenerEvents_run a.value _ es hrun]
    rfl

theorem msrpDomain_codec : MsrpCodec msrpDomainFormat msrpDomainParser where
  parser := rfl
  attributeLength := rfl
  firstLen := rfl
  fourPacked := rfl
  listLength := rfl
  lvaOnce := rfl
  emptyLva := rfl
  clearsVectevt := rfl
  declares d hd := absurd hd (Option.not_mem_none d)
  listener h := absurd h (by decide)
  values a e es cur _ ha hrun _ := by
    have htype : a.value.type = .DOMAIN := of_decide_eq_true ha
    -- a domain is never continued
    have hes : es = [] := by
      cases es with
      | nil => rfl
      | cons x es => exact absurd hrun.2.1 Bool.false_ne_true
    subst hes
    have hfields : domainFields (msrpDomainFormat.firstValue a.value ++ cur) =
        { a.value.domain with neighborSRclassPriority := a.value.domain.srClassPriority } :=
      congrArg (fun vid => { a.value.domain with
        neighborSRclassPriority := a.value.domain.srClassPriority, srClassVID := vid })
        (rd16_be16 a.value.domain.srClassVID)
    have hwire : a.value.wire = { type := .DOMAIN, domain := { a.value.domain with
        neighborSRclassPriority := a.value.domain.srClassPriority } } := by
      unfold MsrpValue.wire
      rw [htype]
    have hcall : msrpEncodedCall (a, e) = [⟨e.received, some a.value.wire⟩] := by
      rw [msrpEncodedCall, if_neg]
      rintro ⟨h, -⟩
      exact absurd (h.symm.trans htype) (by decide)
    show msrpDomainEvents (domainFields (msrpDomainFormat.firstValue a.value ++ cur)) [e.code] = _
    rw [hfields, flatMap_cons, hcall, hwire, msrpDomainEvents, msrpCall_code]
    rfl

variable {F : VectorFormat MsrpValue C} {P : MsrpParser}

structure VectorFormat.Readable (F : VectorFormat MsrpValue C) (v : Vect MsrpValue) : Prop where
  wellFormed : F.WellFormed v
  fill : v.fill = (0, 0)
  length : v.values.length < 8192
  substates : F.declares.isSome = true → ∀ x ∈ v.values, x.1.value.substate.toNat < 4

def msrpFlag (type : MsrpType) (lva : Bool) (saw : List MsrpType) :
    List (Received MsrpValue) × List MsrpType :=
  if lva && !saw.contains type then ([⟨.RLA, some { type := type }⟩], type :: saw) else ([], saw)

theorem msrpFlag_fst (type : MsrpType) (lva : Bool) (saw : List MsrpType) :
    (msrpFlag type lva saw).1 =
      if lva && !saw.contains type then [⟨.RLA, some { type := type }⟩] else [] := by
  unfold msrpFlag
  split <;> rfl

theorem msrpFlag_snd (type : MsrpType) (lva : Bool) (saw : List MsrpType) :
    (msrpFlag type lva saw).2 = if lva && !saw.contains type then type :: saw else saw := by
  unfold msrpFlag
  split <;> rfl

def VectorFormat.fourBytes (F : VectorFormat MsrpValue C) (v : Vect MsrpValue) : List UInt8 :=
  if F.declares.isSome then pack4 (v.values.map fun x => x.1.value.substate.toNat) else []

theorem MsrpCodec.vectBytes_eq (h : MsrpCodec F P) (hfill : v.fill = (0, 0))
    {a : Attrib MsrpValue} {e : PduEvent} {es : List (Attrib MsrpValue × PduEvent)}
    (hvalues : v.values = (a, e) :: es) (cur : List UInt8) :
    F.vectBytes v ++ cur = vectorHeader v.lva v.values.length ++ (F.firstValue a.value ++
      (pack3 (0, 0) (v.values.map fun x => x.2.code) ++ (F.fourBytes v ++ cur))) := by
  unfold VectorFormat.vectBytes VectorFormat.fourBytes
  rw [hfill, hvalues]
  cases hd : F.declares with
  | none => simp
  | some d => simp [h.declares d hd]

theorem VectorFormat.length_fourBytes (F : VectorFormat MsrpValue C) (v : Vect MsrpValue) :
    (F.fourBytes v).length = if F.declares.isSome then (v.values.length + 3) / 4 else 0 := by
  unfold VectorFormat.fourBytes
  split <;> simp

theorem MsrpCodec.drop_vectBytes (h : MsrpCodec F P) (hfill : v.fill = (0, 0))
    (hv : v.values ≠ []) (cur : List UInt8) :
    (F.vectBytes v ++ cur).drop (2 + F.vectidx) =
        pack3 (0, 0) (v.values.map fun x => x.2.code) ++ (F.fourBytes v ++ cur) ∧
      (F.vectBytes v ++ cur).drop (2 + F.vectidx + (v.values.length + 2) / 3) =
        F.fourBytes v ++ cur ∧
      (F.vectBytes v ++ cur).drop (2 + F.vectidx + (v.values.length + 2) / 3 +
        if F.declares.isSome then (v.values.length + 3) / 4 else 0) = cur := by
  obtain ⟨⟨a, e⟩, es, hvalues⟩ := exists_cons_of_ne_nil hv
  have hfirst := F.firstValue_length a.value
  have hpack : (pack3 (0, 0) (v.values.map fun x => x.2.code)).length =
      (v.values.length + 2) / 3 := by simp
  have hdigits : (F.vectBytes v ++ cur).drop (2 + F.vectidx) =
      pack3 (0, 0) (v.values.map fun x => x.2.code) ++ (F.fourBytes v ++ cur) := by
    rw [← drop_drop, h.vectBytes_eq hfill hvalues cur]
    exact drop_left' hfirst
  have hsubs : (F.vectBytes v ++ cur).drop (2 + F.vectidx + (v.values.length + 2) / 3) =
      F.fourBytes v ++ cur := by
    rw [← drop_drop, hdigits, drop_left' hpack]
  refine ⟨hdigits, hsubs, ?_⟩
  rw [← drop_drop, hsubs, drop_left' (F.length_fourBytes v)]

theorem msrpDigits_vector (v : Vect MsrpValue) (cur : List UInt8) :
    msrpDigits ((v.values.length + 2) / 3) v.values.length
      (pack3 (0, 0) (v.values.map fun x => x.2.code) ++ cur) =
      v.values.map fun x => x.2.code := by
  have hcodes : ∀ d ∈ v.values.map fun x => x.2.code, d < 6 := by
    intro d hd
    obtain ⟨x, -, rfl⟩ := mem_map.mp hd
    exact x.2.code_lt
  have hread := msrpDigits_pack3 hcodes cur
  rwa [length_map] at hread

theorem VectorFormat.Readable.substates_eq (hv : F.Readable v) (hd : F.declares.isSome = true)
    (cur : List UInt8) :
    Mrp.substates ((v.values.length + 3) / 4) v.values.length (F.fourBytes v ++ cur) =
      v.values.map fun x => x.1.value.substate.toNat := by
  have hsmall : ∀ d ∈ v.values.map fun x => x.1.value.substate.toNat, d < 4 := by
    intro d hmem
    obtain ⟨x, hx, rfl⟩ := mem_map.mp hmem
    exact hv.substates hd x hx
  have hread := substates_pack4 hsmall cur
  grind [fourBytes]

theorem MsrpCodec.vector (h : MsrpCodec F P) (hv : F.Readable v) (fuel : Nat)
    (saw : List MsrpType) {cur : List UInt8} (hcur : 2 ≤ cur.length) :
    msrpVectors P (fuel + 1) saw (F.vectBytes v ++ cur) =
      ((msrpFlag P.type v.lva saw).1 ++ v.values.flatMap msrpEncodedCall ++
          (msrpVectors P fuel (msrpFlag P.type v.lva saw).2 cur).1,
        (msrpVectors P fuel (msrpFlag P.type v.lva saw).2 cur).2) := by
  obtain ⟨a, e, es, hvalues, hsel, hrun⟩ := hv.wellFormed
  have hn := hv.length
  have hpos : 0 < v.values.length := by simp [hvalues]
  have hlen : (F.vectBytes v ++ cur).length = F.vectEnd 0 v.values.length + cur.length := by
    rw [length_append, ← F.length_vectBytes (by simp [hvalues]) 0, Nat.zero_add]
  unfold VectorFormat.vectEnd at hlen
  have hbytes := h.vectBytes_eq hv.fill hvalues cur
  obtain ⟨hdigits, hsubs, hbehind⟩ := h.drop_vectBytes hv.fill (by simp [hvalues]) cur
  have hend : ¬ (byteAt (F.vectBytes v ++ cur) 0 = 0 ∧ byteAt (F.vectBytes v ++ cur) 1 = 0) := by
    rw [hbytes]
    exact vectorHeader_ne_endmark hn (Or.inl hpos) _
  have hnum : vectNumvalues (headerAt (F.vectBytes v ++ cur)) = v.values.length := by
    rw [hbytes]
    exact vectNumvalues_vectorHeader v.lva hn _
  have hlva : vectLva (headerAt (F.vectBytes v ++ cur)) = v.lva := by
    rw [hbytes]
    exact vectLva_vectorHeader v.lva hn _
  have hroom : ¬ (F.vectBytes v ++ cur).length ≤ 2 + v.values.length / 3 +
      (if F.declares.isSome then v.values.length / 4 else 0) := by
    rw [hlen]
    split <;> omega
  have hroom4 : ¬ (F.declares.isSome && decide ((F.vectBytes v ++ cur).length ≤ 2 + F.vectidx +
      (v.values.length + 2) / 3 +
        if F.declares.isSome then (v.values.length + 3) / 4 else 0)) = true := by
    grind
  have hcalls : P.values ((F.vectBytes v ++ cur).drop 2) (v.values.map fun x => x.2.code)
      (Mrp.substates (if F.declares.isSome then (v.values.length + 3) / 4 else 0)
        v.values.length (F.fourBytes v ++ cur)) = v.values.flatMap msrpEncodedCall := by
    have hdrop : (F.vectBytes v ++ cur).drop 2 = F.firstValue a.value ++
        (pack3 (0, 0) (v.values.map fun x => x.2.code) ++ (F.fourBytes v ++ cur)) := by
      rw [hbytes]
      rfl
    rw [hdrop]
    have hread := h.values a e es
      (pack3 (0, 0) (v.values.map fun x => x.2.code) ++ (F.fourBytes v ++ cur))
      (Mrp.substates (if F.declares.isSome then (v.values.length + 3) / 4 else 0)
        v.values.length (F.fourBytes v ++ cur)) hsel hrun
    rw [← hvalues] at hread
    refine hread fun hd => ?_
    rw [if_pos hd, hv.substates_eq hd]
  rw [msrpVectors, if_neg hend]
  dsimp only
  rw [hnum, hlva, numVectorBytes_eq, numSubstateBytes_eq, h.firstLen, h.fourPacked,
    if_neg (Nat.ne_of_gt hpos), if_neg hroom, if_neg hroom4, hdigits, hsubs, hbehind,
    msrpDigits_vector, hcalls, ← msrpFlag_fst, ← msrpFlag_snd]

end Avb4Linux.Mrp
