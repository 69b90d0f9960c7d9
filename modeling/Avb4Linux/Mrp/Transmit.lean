import Avb4Linux.Mrp.Emission
import Avb4Linux.Mrp.Protocols
import Mathlib.Order.SupIndep

/-!
# What a transmission sends

If all attributes fit the frame, each of those that had to be sent stands in it with its message.
-/

namespace Avb4Linux.Mrp

open Lib.Packing List

variable {V K D C : Type}

abbrev Format (V : Type) := Σ C : Type, VectorFormat V C

def AppState.mustSend (s : AppState) : Timer → Bool
  | .join => s = .VP || s = .VN || s = .AN || s = .AA || s = .LA || s = .AP
  | .leaveAll => s = .VP || s = .VN || s = .AN || s = .AA || s = .AP
  | _ => false

def Timer.applicantEvent : Timer → Event
  | .leaveAll => .TXLA
  | t => t.event

def PduEvent.sndmsg : PduEvent → SndMsg
  | .NEW => .NEW
  | .JOININ | .JOINMT => .JOIN
  | .IN | .MT => .IN
  | .LV => .LV

theorem PduEvent.sndmsg_of_vectevt {m : SndMsg} {own join : RegState} {e : PduEvent}
    (h : vectevt m own join = some e) : e.sndmsg = m := by
  have hall : ∀ m own join, (vectevt m own join).elim true (fun e => e.sndmsg = m) = true := by
    intro m own join
    cases m <;> cases own <;> cases join <;> rfl
  grind

def Timer.applicant (t : Timer) (a : Attrib V) : Applicant :=
  mrpApplicantFsm a.applicant t.applicantEvent (mrpRegistrarIn a.registrar)

variable {t : Timer} {a : Attrib V} {sendEmpty : Bool} {l l' : List (Attrib V)}

theorem Timer.applicant_tx (ht : t = .join ∨ t = .leaveAll) (a : Attrib V) :
    (t.applicant a).tx = true ∧ (t.applicant a).sndmsg.sendable = true := by
  unfold Timer.applicant mrpApplicantFsm
  rcases ht with rfl | rfl <;> cases a.applicant.mrpState <;> exact ⟨rfl, rfl⟩

theorem Timer.applicant_encode (h : a.applicant.mrpState.mustSend t = true) :
    (t.applicant a).encode ≠ .OPTIONAL := by
  unfold Timer.applicant mrpApplicantFsm
  cases t with
  | join =>
    cases hs : a.applicant.mrpState <;> rw [hs] at h <;> first
      | exact absurd h (by decide)
      | (dsimp [Timer.applicantEvent, Timer.event, applicantSwitch]; decide)
  | leaveAll =>
    cases hs : a.applicant.mrpState <;> rw [hs] at h <;> first
      | exact absurd h (by decide)
      | (dsimp [Timer.applicantEvent, Timer.event, applicantSwitch]; decide)
  | leave => exact absurd h (by simp [AppState.mustSend])
  | periodic => exact absurd h (by simp [AppState.mustSend])

def pduMessages (sendEmpty : Bool) (xs : List (Format V × List (Vect V))) : List UInt8 :=
  xs.flatMap fun x => x.1.2.messageBytes sendEmpty x.2

/-- Whether a reader that goes by the attribute length finds the events: they follow
the first value, and a last byte that is not full is completed with zeros. The
service requirements of MMRP fail on both. -/
def Format.Readable (F : Format V) : Prop :=
  F.2.vectidx = F.2.attributeLength.toNat ∧ F.2.clearsVectevt = true

/-- A frame that is made of well-formed vectors, one of which can be read and holds a
value with an event that stands for the message. -/
def Carries (formats : List (Format V)) (frame : Frame) (v : V) (m : SndMsg) : Prop :=
  ∃ (dest : List UInt8) (src : MacAddr) (etype : UInt16) (sendEmpty : Bool)
    (xs : List (Format V × List (Vect V))),
    frame = mrpFrame dest src etype (pduMessages sendEmpty xs) ∧
    xs.map Prod.fst = formats ∧
    (∀ x ∈ xs, ∀ vec ∈ x.2, x.1.2.WellFormed vec) ∧
    ∃ x ∈ xs, x.1.Readable ∧ ∃ vec ∈ x.2, vec.fill = (0, 0) ∧
      ∃ a e, (a, e) ∈ vec.values ∧ a.value = v ∧ e.sndmsg = m

def Waiting (l : List (Attrib V)) : Prop :=
  ∀ a ∈ l, a.applicant.tx = true ∧ a.applicant.sndmsg.sendable = true

def pduLength (formats : List (Format V)) (sendEmpty : Bool) (l : List (Attrib V)) : Nat :=
  messageListStart + formats.foldr (fun F n => F.2.messageLength sendEmpty l + n) 0 + endmarkSz

/-- What the emit functions want to be left of the frame at any time: the largest
vector and the marks around it. -/
def spareRoom : Nat := 44

theorem pduMessages_ne_nil {xs : List (Format V × List (Vect V))}
    {x : Format V × List (Vect V)} (hx : x ∈ xs) {vec : Vect V} (hvec : vec ∈ x.2)
    (sendEmpty : Bool) : pduMessages sendEmpty xs ≠ [] := by
  intro h
  have hmsg := flatMap_eq_nil_iff.mp h x hx
  grind [VectorFormat.messageBytes, VectorFormat.message]

def EmitsAll (formats : List (Format V)) (sendEmpty : Bool)
    (txpdu : Database V → Database V × Option Frame) : Prop :=
  ∀ db, Waiting db.attribList →
    pduLength formats sendEmpty db.attribList + spareRoom ≤ maxFrameSize →
    ∃ (dest : List UInt8) (src : MacAddr) (etype : UInt16)
      (xs : List (Format V × List (Vect V))),
      xs.map Prod.fst = formats ∧
      (∀ x ∈ xs, ∃ lva fill, x.2 = x.1.2.vects 0 lva fill db.attribList ∧
        (x.1.Readable → fill = (0, 0))) ∧
      (pduMessages sendEmpty xs ≠ [] →
        (txpdu db).2 = some (mrpFrame dest src etype (pduMessages sendEmpty xs)))

theorem EmitsAll.carries {formats : List (Format V)}
    {txpdu : Database V → Database V × Option Frame} (h : EmitsAll formats sendEmpty txpdu)
    {db : Database V} (hwait : Waiting db.attribList)
    (hroom : pduLength formats sendEmpty db.attribList + spareRoom ≤ maxFrameSize)
    (ha : a ∈ db.attribList) (hencode : a.applicant.encode ≠ .OPTIONAL)
    (hsel : ∃ F ∈ formats, F.Readable ∧ F.2.selects a.value = true) :
    ∃ frame, (txpdu db).2 = some frame ∧
      Carries formats frame a.value a.applicant.sndmsg := by
  obtain ⟨dest, src, etype, xs, rfl, hvects, hpdu⟩ := h db hwait hroom
  obtain ⟨F, hF, hread, hsel⟩ := hsel
  obtain ⟨x, hx, rfl⟩ := mem_map.mp hF
  obtain ⟨lva, fill, heq, hfill⟩ := hvects x hx
  obtain rfl := hfill hread
  obtain ⟨vec, hvec, e, he⟩ : ∃ vec ∈ x.1.2.vects 0 lva (0, 0) db.attribList,
      ∃ e, (a, e) ∈ vec.values :=
    x.1.2.vects_complete (fun b hb _ _ => (hwait b hb).2) ha hsel (hwait a ha).1 hencode
  obtain ⟨join, hevt⟩ := x.1.2.vectevt_vects vec hvec (a, e) he
  have hzero := x.1.2.fill_vects hread.2 vec hvec
  rw [← heq] at hvec
  refine ⟨_, hpdu (pduMessages_ne_nil hx hvec sendEmpty), dest, src, etype, sendEmpty, xs, rfl,
    rfl, ?_, x, hx, hread, vec, hvec, hzero, a, e, he, rfl, PduEvent.sndmsg_of_vectevt hevt⟩
  intro y hy w hw
  obtain ⟨lva, fill, heq, -⟩ := hvects y hy
  exact y.1.2.wellFormed_vects w (heq ▸ hw)

theorem exists_of_forall₂ {A B : Type} {R : A → B → Prop} {l : List A} {l' : List B}
    (h : List.Forall₂ R l l') {b : B} (hb : b ∈ l') : ∃ a ∈ l, R a b := by
  induction h with
  | nil => simp at hb
  | cons hab _ ih =>
    grind

theorem VectorFormat.alike_refl (F : VectorFormat V C) (l : List (Attrib V)) :
    List.Forall₂ F.Alike l l :=
  List.forall₂_same.mpr fun _ _ => Or.inl rfl

theorem emitVectors_of_alike {F : VectorFormat V C} (hsize : F.vectorSize ≤ 37)
    (hrun : F.runMargin ≤ 40) (hwait : Waiting l) (hl' : List.Forall₂ F.Alike l l') {base : Nat}
    (hroom : base + F.messageLength sendEmpty l + spareRoom ≤ maxFrameSize) (lva : Bool)
    (fill : Nat × Nat) :
    (emitVectors F maxFrameSize base sendEmpty lva fill l').2 =
        some (F.messageBytes sendEmpty (F.vects 0 lva fill l)) ∧
      List.Forall₂ F.Marked l' (emitVectors F maxFrameSize base sendEmpty lva fill l').1 := by
  have hbase : ¬ maxFrameSize < base + F.vectorSize := by
    unfold spareRoom at hroom
    omega
  have hsend : ∀ b ∈ l', F.selects b.value = true → b.applicant.tx = true →
      b.applicant.sndmsg.sendable = true := by
    intro b hb hsel _
    obtain ⟨a, ha, hab⟩ := exists_of_forall₂ hl' hb
    rcases hab with rfl | ⟨hno, hvalue⟩
    · exact (hwait b ha).2
    · grind
  have hdata : F.dataStart base + (F.body (F.vects 0 lva fill l)).length + 40 ≤
      maxFrameSize := by
    rw [← F.length_messageBytes sendEmpty lva fill] at hroom
    unfold VectorFormat.messageBytes at hroom
    unfold VectorFormat.dataStart
    unfold spareRoom at hroom
    split at hroom
    · rename_i hnil
      rw [isEmpty_iff.mp hnil]
      grind [VectorFormat.body]
    · simp only [VectorFormat.message, length_append] at hroom
      grind
  have hvects : F.vects 0 lva fill l' = F.vects 0 lva fill l := F.vects_alike hl'
  rw [← hvects] at hdata ⊢
  have hmargin : F.vectorSize + endmarkSz < 40 := by
    unfold endmarkSz
    omega
  have hstart : base ≤ F.dataStart base := by
    unfold VectorFormat.dataStart
    split <;> omega
  have hloop : (emitLoop F maxFrameSize 0 base (F.dataStart base) lva fill l').2 =
      some (F.vects 0 lva fill l') :=
    emitLoop_of_room hmargin hrun (by decide) hsend hstart hdata
  grind [emitVectors_eq, emitVectors, emitLoop_marked]

theorem alike_of_marked {C' : Type} {F : VectorFormat V C} {G : VectorFormat V C'}
    (hdisj : ∀ v, F.selects v = true → G.selects v = false) {l'' : List (Attrib V)}
    (h : List.Forall₂ G.Alike l l') (hm : List.Forall₂ F.Marked l' l'') :
    List.Forall₂ G.Alike l l'' := by
  induction h generalizing l'' with
  | nil =>
    cases hm
    exact .nil
  | cons hab _ ih =>
    cases hm with
    | cons hbc hm =>
      refine .cons ?_ (ih hm)
      rcases hbc with rfl | ⟨hsel, rfl⟩
      · exact hab
      · rcases hab with rfl | ⟨hno, hvalue⟩
        · exact Or.inr ⟨hdisj _ hsel, rfl⟩
        · exact Or.inr ⟨hno, hvalue⟩

theorem pdu_of_bytes {bytes : List UInt8} (hne : bytes ≠ [])
    (hlen : messageListStart + bytes.length + endmarkSz < maxFrameSize)
    (frame : List UInt8 → Frame) :
    (match some bytes with
      | none => none
      | some [] => none
      | some bytes =>
        if messageListStart + bytes.length + endmarkSz < maxFrameSize then some (frame bytes)
        else none) = some (frame bytes) := by
  grind

def mvrpFormats : List (Format Vid) := [⟨_, mvrpVidFormat⟩]

def mmrpFormats : List (Format MmrpValue) := [⟨_, mmrpMacFormat⟩, ⟨_, mmrpSvcFormat⟩]

def msrpFormats : List (Format MsrpValue) :=
  [⟨_, msrpTalkerAdvFormat⟩, ⟨_, msrpTalkerFailedFormat⟩, ⟨_, msrpListenerFormat⟩,
    ⟨_, msrpDomainFormat⟩]

theorem mvrpTxpdu_of_waiting (env : Env) {db : Database Vid} (hwait : Waiting db.attribList)
    (hroom : pduLength mvrpFormats sendEmpty db.attribList + spareRoom ≤ maxFrameSize) :
    let bytes := mvrpVidFormat.messageBytes sendEmpty
      (mvrpVidFormat.vects 0 db.mrpDb.lva.tx (0, 0) db.attribList)
    (mvrpTxpdu env sendEmpty db).2 =
      if bytes = [] then none
      else some (mrpFrame mvrpCustomerBridgeAddr env.stationAddr mvrpEtype bytes) := by
  intro bytes
  simp only [pduLength, mvrpFormats, foldr_cons, foldr_nil] at hroom
  have hvid : messageListStart + mvrpVidFormat.messageLength sendEmpty db.attribList +
      spareRoom ≤ maxFrameSize := by omega
  obtain ⟨hbytes, -⟩ := emitVectors_of_alike (by decide) (by decide) hwait
    (mvrpVidFormat.alike_refl db.attribList) hvid db.mrpDb.lva.tx (0, 0)
  have hlen : bytes.length = mvrpVidFormat.messageLength sendEmpty db.attribList :=
    mvrpVidFormat.length_messageBytes sendEmpty db.mrpDb.lva.tx (0, 0) db.attribList
  have hbytes : (emitVectors mvrpVidFormat maxFrameSize messageListStart sendEmpty
      db.mrpDb.lva.tx (0, 0) db.attribList).2 = some bytes := hbytes
  grind [mvrpTxpdu, spareRoom]

theorem mvrpTxpdu_emitsAll (env : Env) (sendEmpty : Bool) :
    EmitsAll mvrpFormats sendEmpty (mvrpTxpdu env sendEmpty) := by
  intro db hwait hroom
  refine ⟨mvrpCustomerBridgeAddr, env.stationAddr, mvrpEtype,
    [(⟨_, mvrpVidFormat⟩, mvrpVidFormat.vects 0 db.mrpDb.lva.tx (0, 0) db.attribList)], rfl,
    ?_, ?_⟩
  · grind
  · grind [pduMessages, mvrpTxpdu_of_waiting]

theorem mmrpFormats_disjoint (v : MmrpValue) :
    mmrpMacFormat.selects v = true → mmrpSvcFormat.selects v = false := by
  cases v with
  | svcreq v => exact fun h => absurd h Bool.false_ne_true
  | macaddr a => exact fun _ => rfl

theorem mmrpTxpdu_emitsAll (env : Env) (sendEmpty : Bool) :
    EmitsAll mmrpFormats sendEmpty (mmrpTxpdu env sendEmpty) := by
  intro db hwait hroom
  set l := db.attribList with hl
  set lva := db.mrpDb.lva.tx with hlva
  simp only [pduLength, mmrpFormats, foldr_cons, foldr_nil] at hroom
  have hmac : messageListStart + mmrpMacFormat.messageLength sendEmpty l + spareRoom ≤
      maxFrameSize := by omega
  obtain ⟨hmacBytes, hmarked⟩ := emitVectors_of_alike (by decide) (by decide) hwait
    (mmrpMacFormat.alike_refl l) hmac lva (0, 0)
  have hmacLen := mmrpMacFormat.length_messageBytes sendEmpty lva (0, 0) l
  have hsvc : messageListStart +
      (mmrpMacFormat.messageBytes sendEmpty (mmrpMacFormat.vects 0 lva (0, 0) l)).length +
      mmrpSvcFormat.messageLength sendEmpty l + spareRoom ≤ maxFrameSize := by omega
  obtain ⟨hsvcBytes, -⟩ := emitVectors_of_alike (by decide) (by decide) hwait
    (alike_of_marked mmrpFormats_disjoint (mmrpSvcFormat.alike_refl l) hmarked) hsvc lva env.stack
  have hsvcLen := mmrpSvcFormat.length_messageBytes sendEmpty lva env.stack l
  refine ⟨mmrpAddr, env.stationAddr, mmrpEtype,
    [(⟨_, mmrpMacFormat⟩, mmrpMacFormat.vects 0 lva (0, 0) l),
      (⟨_, mmrpSvcFormat⟩, mmrpSvcFormat.vects 0 lva env.stack l)], rfl, ?_, ?_⟩
  · simp only [mem_cons, not_mem_nil, or_false]
    rintro x (rfl | rfl)
    · exact ⟨lva, (0, 0), rfl, fun _ => rfl⟩
    · exact ⟨lva, env.stack, rfl, fun h => absurd h.2 Bool.false_ne_true⟩
  · intro hne
    simp only [pduMessages, flatMap_cons, flatMap_nil, append_nil] at hne ⊢
    unfold spareRoom at hroom
    unfold mmrpTxpdu
    grind

theorem msrpEmit_of_alike {F : VectorFormat MsrpValue C} (hsize : F.vectorSize ≤ 37)
    (hrun : F.runMargin ≤ 40) {l l' : List (Attrib MsrpValue)} (hwait : Waiting l)
    (hl' : List.Forall₂ F.Alike l l') {bytes : List UInt8}
    (hroom : messageListStart + bytes.length + F.messageLength sendEmpty l + spareRoom ≤
      maxFrameSize) (lva : Bool) :
    (msrpEmit F sendEmpty lva (l', bytes)).2 =
        some (bytes ++ F.messageBytes sendEmpty (F.vects 0 lva (0, 0) l)) ∧
      List.Forall₂ F.Marked l' (msrpEmit F sendEmpty lva (l', bytes)).1 := by
  obtain ⟨hbytes, hmarked⟩ := emitVectors_of_alike hsize hrun hwait hl' hroom lva (0, 0)
  refine ⟨?_, hmarked⟩
  exact congrArg (Option.map (bytes ++ ·)) hbytes

theorem markListeners_of_waiting {l l' : List (Attrib MsrpValue)} (hwait : Waiting l)
    (hl' : List.Forall₂ msrpListenerFormat.Alike l l') : markListeners l' = l' := by
  have hmark : ∀ b ∈ l', (if b.value.type = .LISTENER then
      { b with applicant := { b.applicant with tx := true } } else b) = id b := by
    intro b hb
    split
    · rename_i htype
      obtain ⟨a, ha, hab⟩ := exists_of_forall₂ hl' hb
      rcases hab with rfl | ⟨hno, hvalue⟩
      · rw [← (hwait b ha).1]
        rfl
      · exact absurd (hvalue ▸ htype) (of_decide_eq_false hno)
    · rfl
  unfold markListeners
  rw [map_congr_left hmark, map_id]

theorem msrpFormats_disjoint {t u : MsrpType} (h : t ≠ u) (v : MsrpValue) :
    decide (v.type = t) = true → decide (v.type = u) = false := by
  grind

def msrpVects (lva : Bool) (l : List (Attrib MsrpValue)) :
    List (Format MsrpValue × List (Vect MsrpValue)) :=
  msrpFormats.map fun F => (F, F.2.vects 0 lva (0, 0) l)

theorem msrpMessages_of_waiting {l : List (Attrib MsrpValue)} (hwait : Waiting l)
    (hroom : pduLength msrpFormats sendEmpty l + spareRoom ≤ maxFrameSize) (lva : Bool) :
    (msrpMessages sendEmpty lva l).2 = some (pduMessages sendEmpty (msrpVects lva l)) ∧
      (pduMessages sendEmpty (msrpVects lva l)).length =
        msrpFormats.foldr (fun F n => F.2.messageLength sendEmpty l + n) 0 := by
  have hmsgs : pduMessages sendEmpty (msrpVects lva l) =
      msrpTalkerAdvFormat.messageBytes sendEmpty (msrpTalkerAdvFormat.vects 0 lva (0, 0) l) ++
      (msrpTalkerFailedFormat.messageBytes sendEmpty
        (msrpTalkerFailedFormat.vects 0 lva (0, 0) l) ++
      (msrpListenerFormat.messageBytes sendEmpty (msrpListenerFormat.vects 0 lva (0, 0) l) ++
      (msrpDomainFormat.messageBytes sendEmpty (msrpDomainFormat.vects 0 lva (0, 0) l) ++ []))) :=
    rfl
  rw [hmsgs]
  have hlen1 := msrpTalkerAdvFormat.length_messageBytes sendEmpty lva (0, 0) l
  have hlen2 := msrpTalkerFailedFormat.length_messageBytes sendEmpty lva (0, 0) l
  have hlen3 := msrpListenerFormat.length_messageBytes sendEmpty lva (0, 0) l
  have hlen4 := msrpDomainFormat.length_messageBytes sendEmpty lva (0, 0) l
  set b1 := msrpTalkerAdvFormat.messageBytes sendEmpty (msrpTalkerAdvFormat.vects 0 lva (0, 0) l)
  set b2 := msrpTalkerFailedFormat.messageBytes sendEmpty
    (msrpTalkerFailedFormat.vects 0 lva (0, 0) l)
  set b3 := msrpListenerFormat.messageBytes sendEmpty (msrpListenerFormat.vects 0 lva (0, 0) l)
  set b4 := msrpDomainFormat.messageBytes sendEmpty (msrpDomainFormat.vects 0 lva (0, 0) l)
  simp only [pduLength, msrpFormats, foldr_cons, foldr_nil] at hroom ⊢
  refine ⟨?_, by simp only [length_append, length_nil, hlen1, hlen2, hlen3, hlen4]⟩
  unfold spareRoom at hroom
  -- each call finds the attributes of its own type as they were
  have hroom1 : messageListStart + ([] : List UInt8).length +
      msrpTalkerAdvFormat.messageLength sendEmpty l + spareRoom ≤ maxFrameSize := by
    unfold spareRoom
    rw [length_nil]
    omega
  obtain ⟨h1, hm1⟩ := msrpEmit_of_alike (by decide) (by decide) hwait
    (msrpTalkerAdvFormat.alike_refl l) hroom1 lva
  have hroom2 : messageListStart + ([] ++ b1).length +
      msrpTalkerFailedFormat.messageLength sendEmpty l + spareRoom ≤ maxFrameSize := by
    unfold spareRoom
    rw [nil_append]
    omega
  obtain ⟨h2, hm2⟩ := msrpEmit_of_alike (by decide) (by decide) hwait
    (alike_of_marked (msrpFormats_disjoint (by decide)) (msrpTalkerFailedFormat.alike_refl l) hm1)
    hroom2 lva
  have halike3 := alike_of_marked (msrpFormats_disjoint (by decide))
    (alike_of_marked (msrpFormats_disjoint (by decide)) (msrpListenerFormat.alike_refl l) hm1) hm2
  have hroom3 : messageListStart + ([] ++ b1 ++ b2).length +
      msrpListenerFormat.messageLength sendEmpty l + spareRoom ≤ maxFrameSize := by
    unfold spareRoom
    rw [nil_append, length_append]
    omega
  obtain ⟨h3, hm3⟩ := msrpEmit_of_alike (by decide) (by decide) hwait halike3 hroom3 lva
  have halike4 := alike_of_marked (msrpFormats_disjoint (by decide))
    (alike_of_marked (msrpFormats_disjoint (by decide))
      (alike_of_marked (msrpFormats_disjoint (by decide)) (msrpDomainFormat.alike_refl l) hm1)
      hm2) hm3
  have hroom4 : messageListStart + ([] ++ b1 ++ b2 ++ b3).length +
      msrpDomainFormat.messageLength sendEmpty l + spareRoom ≤ maxFrameSize := by
    grind [spareRoom]
  obtain ⟨h4, -⟩ := msrpEmit_of_alike (by decide) (by decide) hwait halike4 hroom4 lva
  have hlisten : msrpEmitListeners sendEmpty lva
      ((msrpEmit msrpTalkerFailedFormat sendEmpty lva
        ((msrpEmit msrpTalkerAdvFormat sendEmpty lva (l, [])).1, [] ++ b1)).1, [] ++ b1 ++ b2) =
      msrpEmit msrpListenerFormat sendEmpty lva
        ((msrpEmit msrpTalkerFailedFormat sendEmpty lva
          ((msrpEmit msrpTalkerAdvFormat sendEmpty lva (l, [])).1, [] ++ b1)).1,
          [] ++ b1 ++ b2) := by
    have hfits : ¬ maxFrameSize < messageListStart + ([] ++ b1 ++ b2).length +
        msrpListenerFormat.vectorSize := by
      unfold spareRoom at hroom3
      have hsize : msrpListenerFormat.vectorSize = 13 := rfl
      omega
    unfold msrpEmitListeners
    rw [if_neg hfits, markListeners_of_waiting hwait halike3]
  unfold msrpMessages
  grind

theorem msrpTxpdu_emitsAll (env : Env) (sendEmpty : Bool) :
    EmitsAll msrpFormats sendEmpty (msrpTxpdu env sendEmpty) := by
  intro db hwait hroom
  obtain ⟨hbytes, hlen⟩ := msrpMessages_of_waiting hwait hroom db.mrpDb.lva.tx
  refine ⟨msrpAddr, env.stationAddr, msrpEtype, msrpVects db.mrpDb.lva.tx db.attribList, rfl,
    ?_, ?_⟩
  · intro x hx
    obtain ⟨F, -, rfl⟩ := mem_map.mp hx
    exact ⟨db.mrpDb.lva.tx, (0, 0), rfl, fun _ => rfl⟩
  · intro hne
    unfold pduLength spareRoom at hroom
    unfold msrpTxpdu
    dsimp only
    rw [hbytes]
    exact pdu_of_bytes hne (by omega) _

def Timer.advance : Timer → List (Attrib V) → List (Attrib V)
  | .leaveAll, l => l.map fun a => fsmAttrib a .TXLA
  | t, l => applicantAll t.event l

theorem Timer.mem_advance (ht : t = .join ∨ t = .leaveAll) {b : Attrib V} :
    b ∈ t.advance l → ∃ a ∈ l, b.value = a.value ∧ b.applicant = t.applicant a := by
  intro hb
  rcases ht with rfl | rfl <;>
  · obtain ⟨a, ha, rfl⟩ := mem_map.mp hb
    exact ⟨a, ha, rfl, rfl⟩

theorem Timer.exists_advance (ht : t = .join ∨ t = .leaveAll) (ha : a ∈ l) :
    ∃ b ∈ t.advance l, b.value = a.value ∧ b.applicant = t.applicant a := by
  rcases ht with rfl | rfl <;> exact ⟨_, mem_map_of_mem ha, rfl, rfl⟩

theorem Timer.waiting_advance (ht : t = .join ∨ t = .leaveAll) (l : List (Attrib V)) :
    Waiting (t.advance l) := by
  intro b hb
  obtain ⟨a, -, -, happ⟩ := mem_advance ht hb
  rw [happ]
  exact applicant_tx ht a

def Timer.branch (t : Timer) (env : Env) (txpdu : Bool → Database V → Database V × Option Frame)
    (db : Database V) : Option Frame :=
  match t with
  | .join => (txBranch env (txpdu false) db).2
  | .leaveAll => (lvatimerBranch env (txpdu true) db).2
  | _ => none

theorem Timer.branch_eq (ht : t = .join ∨ t = .leaveAll) (env : Env)
    (txpdu : Bool → Database V → Database V × Option Frame) (db : Database V) :
    ∃ m, t.branch env txpdu db =
        (txpdu (t = .leaveAll) ⟨m, t.advance db.attribList⟩).2 ∧
      m.lva.tx = (t = .leaveAll || db.mrpDb.lva.tx) := by
  rcases ht with rfl | rfl
  · refine ⟨mrpJointimerStop db.mrpDb, ?_, rfl⟩
    simp only [Timer.branch, txBranch, Timer.advance]
    split <;> rfl
  · simp only [Timer.branch, lvatimerBranch, fsmAll_eq, if_true, decide_true, Timer.advance]
    exact ⟨_, rfl, rfl⟩

/-- On a transmit opportunity and on its own LeaveAll a participant sends every attribute that
must be sent, in a PDU that goes to the socket, if all fit with room to spare. `covered` tells for
which values. -/
def Participant.Transmits (P : Participant V K D C) (formats : List (Format V))
    (covered : V → Bool) : Prop :=
  ∀ (env : Env) (d : D) (t : Timer),
    pduLength formats (t = .leaveAll) (t.advance (P.base d).attribList) + spareRoom ≤
      maxFrameSize →
    ∀ a ∈ (P.base d).attribList, covered a.value = true →
      a.applicant.mrpState.mustSend t = true →
      ∃ frame, (P.act env d (.timer t)).2.pdu = some frame ∧
        Carries formats frame a.value (t.applicant a).sndmsg

theorem AppState.timer_of_mustSend {s : AppState} (h : s.mustSend t = true) :
    t = .join ∨ t = .leaveAll := by
  cases t with
  | join => exact Or.inl rfl
  | leaveAll => exact Or.inr rfl
  | leave => exact absurd h Bool.false_ne_true
  | periodic => exact absurd h Bool.false_ne_true

theorem Participant.transmits {P : Participant V K D C} {formats : List (Format V)}
    {covered : V → Bool} {txpdu : Env → Bool → Database V → Database V × Option Frame}
    (hemit : ∀ env sendEmpty, EmitsAll formats sendEmpty (txpdu env sendEmpty))
    (hcovered : ∀ v, covered v = true → ∃ F ∈ formats, F.Readable ∧ F.2.selects v = true)
    (hpdu : ∀ env d t, (t = .join ∨ t = .leaveAll) →
      (P.act env d (.timer t)).2.pdu = t.branch env (txpdu env) (P.base d)) :
    P.Transmits formats covered := by
  intro env d t hroom a ha hcov hmust
  have ht := AppState.timer_of_mustSend hmust
  obtain ⟨m, hbranch, -⟩ := t.branch_eq ht env (txpdu env) (P.base d)
  obtain ⟨b, hb, hvalue, happ⟩ := Timer.exists_advance ht ha
  have hencode : b.applicant.encode ≠ .OPTIONAL := by
    rw [happ]
    exact Timer.applicant_encode hmust
  have hwait : Waiting (Database.mk m (t.advance (P.base d).attribList)).attribList :=
    Timer.waiting_advance ht _
  rw [hpdu env d t ht, hbranch, ← hvalue, ← happ]
  exact (hemit env (t = .leaveAll)).carries hwait hroom hb hencode (hcovered _ (hvalue ▸ hcov))

def MmrpValue.isMac : MmrpValue → Bool
  | .macaddr _ => true
  | .svcreq _ => false

theorem msrpFormats_cover (v : MsrpValue) :
    ∃ F ∈ msrpFormats, F.Readable ∧ F.2.selects v = true := by
  unfold msrpFormats
  cases hv : v.type with
  | TALKER_ADV =>
    exact ⟨⟨_, msrpTalkerAdvFormat⟩, by simp, ⟨rfl, rfl⟩, decide_eq_true hv⟩
  | TALKER_FAILED =>
    exact ⟨⟨_, msrpTalkerFailedFormat⟩, by simp, ⟨rfl, rfl⟩, decide_eq_true hv⟩
  | LISTENER =>
    exact ⟨⟨_, msrpListenerFormat⟩, by simp, ⟨rfl, rfl⟩, decide_eq_true hv⟩
  | DOMAIN =>
    exact ⟨⟨_, msrpDomainFormat⟩, by simp, ⟨rfl, rfl⟩, decide_eq_true hv⟩

/-- Otherwise: an applicant that a LeaveAll finds in `LA` sends nothing; of 400 declarations with
gaps the frame takes 395, and the others move on unsent; and the Join of a service requirement
reads as a New. -/
theorem mvrp_mmrp_unsent :
    let env : Env := { now := 0 }
    let declared (s : AppState) (v : Vid) : Attrib Vid :=
      { value := v, applicant := { mrpState := s } }
    let vids := (List.range 400).map fun i => UInt16.ofNat (2 * i)
    let leaving := mvrpEvent env .LVATIMER none ⟨{}, [declared .LA 1]⟩
    let full := mvrpEvent env .TX none ⟨{}, vids.map (declared .VP)⟩
    let service := mmrpEvent env .TX none
      ⟨{}, [{ value := .svcreq 0, applicant := { mrpState := .VP } }]⟩
    ((leaving.1.attribList.map fun a => a.applicant.mrpState) = [.LO] ∧
      leaving.2.pdu.map mvrpParse = some [⟨.RLA, none⟩]) ∧
    ((full.1.attribList.map fun a => a.applicant.mrpState) = List.replicate 400 .AA ∧
      full.2.pdu.map mvrpParse = some ((vids.take 395).map fun v => ⟨.RJOINMT, some v⟩)) ∧
    ((service.1.attribList.map fun a => a.applicant.sndmsg) = [.JOIN] ∧
      service.2.pdu.map mmrpParse = some [⟨.RNEW, some (.svcreq 0)⟩]) := by
  refine ⟨by decide, ⟨?_, ?_⟩, by decide⟩
  · decide +kernel
  · decide +kernel

theorem participants_transmit :
    mvrp.Transmits mvrpFormats (fun _ => true) ∧ mmrp.Transmits mmrpFormats MmrpValue.isMac ∧
      msrp.Transmits msrpFormats (fun _ => true) := by
  refine ⟨?_, ?_, ?_⟩
  · refine Participant.transmits mvrpTxpdu_emitsAll ?_ ?_
    · exact fun v _ => ⟨_, mem_cons_self, ⟨rfl, rfl⟩, rfl⟩
    · rintro env d t (rfl | rfl) <;> rfl
  · refine Participant.transmits mmrpTxpdu_emitsAll ?_ ?_
    · intro v hv
      cases v with
      | macaddr a => exact ⟨_, mem_cons_self, ⟨rfl, rfl⟩, rfl⟩
      | svcreq v => exact absurd hv Bool.false_ne_true
    · rintro env d t (rfl | rfl) <;> rfl
  · refine Participant.transmits msrpTxpdu_emitsAll (fun v _ => msrpFormats_cover v) ?_
    rintro env d t (rfl | rfl) <;> rfl

-- two declarations fit
example : pduLength mvrpFormats false (Timer.join.advance
    [{ value := 1, applicant := { mrpState := .VP } }, { value := 7 }]) + spareRoom ≤ maxFrameSize := by
  decide

end Avb4Linux.Mrp
