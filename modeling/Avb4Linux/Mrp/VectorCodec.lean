import Avb4Linux.Mrp.Codec
import Avb4Linux.Mrp.Grouping

/-!
# Reading back vectors

A vector loop reads what an emit function has written if it takes the packed bytes from where they
were put and recovers the values of a run from the first one.
-/

namespace Avb4Linux.Mrp

open Lib.Packing

variable {V C : Type}

def pduCall (x : Attrib V × PduEvent) : Received V :=
  ⟨x.2.received, some x.1.value⟩

theorem PduEvent.received_injective : Function.Injective PduEvent.received := by
  intro e e' h
  cases e <;> cases e' <;> first | rfl | exact absurd h (by decide)

def Attrib.ownEvent (a : Attrib V) : Option PduEvent :=
  vectevt a.applicant.sndmsg a.registrar.mrpState a.registrar.mrpState

def Attrib.ownCall (a : Attrib V) : Option (Received V) :=
  a.ownEvent.map fun e => ⟨e.received, some a.value⟩

theorem VectorFormat.events_vects {F : VectorFormat V C} {skip : Nat} {lva : Bool}
    {fill : Nat × Nat} {l : List (Attrib V)} :
    ∀ v ∈ F.vects skip lva fill l, ∃ a e es, v.values = (a, e) :: es ∧
      a.ownEvent = some e ∧ ∀ x ∈ es, vectevt x.1.applicant.sndmsg x.1.registrar.mrpState
        (F.joinRegistrar a.registrar.mrpState x.1.registrar.mrpState) = some x.2 := by
  refine F.forall_vects ?_
  intro a tl e _ _ _ _ hevt
  exact ⟨a, e, F.extend a (F.start a.value) tl, rfl, hevt,
    F.vectevt_extend a (F.start a.value) tl⟩

theorem map_pduCall_eq_iff {xs : List (Attrib V × PduEvent)}
    (hsend : ∀ x ∈ xs, x.1.applicant.sndmsg.sendable = true) :
    xs.map pduCall = (xs.map Prod.fst).filterMap Attrib.ownCall ↔
      ∀ x ∈ xs, x.1.ownEvent = some x.2 := by
  induction xs with
  | nil => simp
  | cons x xs ih =>
    have hsome := isSome_vectevt x.1.applicant.sndmsg x.1.registrar.mrpState
      x.1.registrar.mrpState
    rw [hsend x (by simp)] at hsome
    obtain ⟨e, he⟩ := Option.isSome_iff_exists.mp hsome
    have hown : x.1.ownEvent = some e := he
    grind [Attrib.ownCall, pduCall, Received.mk.injEq, PduEvent.received_injective, Option.some.inj]

theorem VectorFormat.sendable_vects {F : VectorFormat V C} {skip : Nat} {lva : Bool}
    {fill : Nat × Nat} {l : List (Attrib V)} :
    ∀ v ∈ F.vects skip lva fill l, ∀ x ∈ v.values, x.1.applicant.sndmsg.sendable = true := by
  grind [F.vectevt_vects, isSome_vectevt]

structure VectorFormat.Whole (F : VectorFormat V C) (accepts : V → Prop) (v : Vect V) : Prop where
  wellFormed : F.WellFormed v
  fill : v.fill = (0, 0)
  length : v.values.length < 8192
  accepted : ∀ x ∈ v.values, accepts x.1.value

structure VectorCodec (F : VectorFormat V C) (P : VectorParser V) (accepts : V → Prop) :
    Prop where
  firstLen : P.firstLen = F.vectidx
  pos : 0 < F.vectidx
  declares : F.declares = none
  values : ∀ (a : Attrib V) (e : PduEvent) (es : List (Attrib V × PduEvent)) (cur : List UInt8),
    F.Run a.value (F.start a.value) (es.map fun x => x.1.value) →
    (∀ x ∈ (a, e) :: es, accepts x.1.value) →
    P.values (F.firstValue a.value ++ cur) (((a, e) :: es).map fun x => x.2.code) =
      ((a, e) :: es).map pduCall

variable {F : VectorFormat V C} {P : VectorParser V} {accepts : V → Prop}

theorem VectorCodec.vectBytes_append (h : VectorCodec F P accepts) {v : Vect V}
    (hfill : v.fill = (0, 0)) {a : Attrib V} {e : PduEvent} {es : List (Attrib V × PduEvent)}
    (hvalues : v.values = (a, e) :: es) (cur : List UInt8) :
    F.vectBytes v ++ cur = vectorHeader v.lva v.values.length ++
      (F.firstValue a.value ++ (pack3 (0, 0) (v.values.map fun x => x.2.code) ++ cur)) := by
  unfold VectorFormat.vectBytes
  rw [h.declares, hfill, hvalues]
  simp

theorem VectorCodec.vector (h : VectorCodec F P accepts) {v : Vect V} (hv : F.Whole accepts v)
    (fuel : Nat) (saw : Bool) (cur : List UInt8) :
    let lva := v.lva && (P.everyLva || !saw)
    let rest := parseVectors P fuel (saw || lva && !P.everyLva) cur
    parseVectors P (fuel + 1) saw (F.vectBytes v ++ cur) =
      ((if lva then [P.rla] else []) ++ v.values.map pduCall ++ rest.1, rest.2) := by
  obtain ⟨a, e, es, hvalues, -, hrun⟩ := hv.wellFormed
  have hpos : 0 < v.values.length := by simp [hvalues]
  have hcodes : ∀ d ∈ v.values.map fun x => x.2.code, d < 6 := by
    intro d hd
    obtain ⟨x, -, rfl⟩ := List.mem_map.mp hd
    exact x.2.code_lt
  rw [h.vectBytes_append hv.fill hvalues cur]
  set packed := pack3 (0, 0) (v.values.map fun x => x.2.code) with hpacked
  have hpack : packed.length = (v.values.length + 2) / 3 := by simp [hpacked]
  have hfirst : (F.firstValue a.value).length = P.firstLen := by
    rw [h.firstLen]
    exact F.firstValue_length a.value
  have hheader : (vectorHeader v.lva v.values.length).length = 2 := rfl
  set body := F.firstValue a.value ++ (packed ++ cur) with hbody
  have hbehind : (vectorHeader v.lva v.values.length ++ body).drop 2 = body :=
    List.drop_left' hheader
  have hevents : (vectorHeader v.lva v.values.length ++ body).drop (2 + P.firstLen) =
      packed ++ cur := by
    grind
  have hrest : (vectorHeader v.lva v.values.length ++ body).drop
      (2 + P.firstLen + (v.values.length + 2) / 3) = cur := by
    rw [← List.drop_drop, hevents]
    exact List.drop_left' hpack
  have hroom : ¬ (v.values.length = 0 ∨
      (vectorHeader v.lva v.values.length ++ body).length ≤ 2 + v.values.length / 3) := by
    have hpos' : 0 < (F.firstValue a.value).length := by
      rw [F.firstValue_length]
      exact h.pos
    simp only [hbody, List.length_append, hheader, hpack]
    omega
  have hdigits : eventDigits ((v.values.length + 2) / 3) v.values.length (packed ++ cur) =
      v.values.map fun x => x.2.code := by
    have hread := eventDigits_pack3 (show (0, 0).1 < 6 ∧ (0, 0).2 < 6 by decide) hcodes cur
    rwa [List.length_map] at hread
  have hcalls : P.values body (v.values.map fun x => x.2.code) = v.values.map pduCall := by
    rw [hvalues]
    exact h.values a e es (packed ++ cur) hrun fun x hx => hv.accepted x (by rw [hvalues]; exact hx)
  rw [parseVectors, if_neg (vectorHeader_ne_endmark hv.length (Or.inl hpos) _)]
  dsimp only
  rw [vectNumvalues_vectorHeader v.lva hv.length, vectLva_vectorHeader v.lva hv.length,
    if_neg hroom, numVectorBytes_eq, hevents, hdigits, hbehind, hcalls, hrest]

theorem emitLoop_whole (hclears : F.clearsVectevt = true) {base : Nat} {lva : Bool}
    {l : List (Attrib V)} {vs : List (Vect V)}
    (haccepts : ∀ a ∈ l, F.selects a.value = true → accepts a.value)
    (h : (emitLoop F maxFrameSize 0 base (F.dataStart base) lva (0, 0) l).2 = some vs) :
    ∀ v ∈ vs, F.Whole accepts v := by
  obtain ⟨hpart, hend⟩ := emitLoop_vects h
  intro v hv
  have hmem : v ∈ F.vects 0 lva (0, 0) l := hpart.subset hv
  have hwf := F.wellFormed_vects v hmem
  refine ⟨hwf, F.fill_vects hclears v hmem, ?_, ?_⟩
  · -- three values to a byte, and the bytes fit the frame
    obtain ⟨a, e, es, hvalues, -⟩ := hwf
    have hbytes := F.length_vectBytes (v := v) (by simp [hvalues]) 0
    have hle := F.length_vectBytes_le_body hv
    grind [List.ne_nil_of_mem, VectorFormat.vectEnd, maxFrameSize]
  · intro x hx
    exact haccepts x.1 (F.fst_mem_vects v hmem x hx) (hwf.selects x hx)

end Avb4Linux.Mrp
