import Mathlib.Data.List.Forall2
import Avb4Linux.Mrp.Vectors

/-!
# The vectors of a message

`VectorFormat.vects` groups the attributes to be sent without regard to the size of the frame; the
emit loop yields a first part of these vectors.
-/

namespace Avb4Linux.Mrp

open Lib.Packing List

variable {V C : Type} (F : VectorFormat V C)

def VectorFormat.extend (first : Attrib V) : C → List (Attrib V) → List (Attrib V × PduEvent)
  | _, [] => []
  | c, v :: tl =>
    if !F.selects v.value || !v.applicant.tx then []
    else if !F.contiguous first.value (F.advance c) v.value then []
    else
      match vectevt v.applicant.sndmsg v.registrar.mrpState
          (F.joinRegistrar first.registrar.mrpState v.registrar.mrpState) with
      | none => []
      | some e => (v, e) :: VectorFormat.extend first (F.advance c) tl

def VectorFormat.vects : Nat → Bool → Nat × Nat → List (Attrib V) → List (Vect V)
  | _, _, _, [] => []
  | skip + 1, lva, fill, _ :: tl => VectorFormat.vects skip lva fill tl
  | 0, lva, fill, a :: tl =>
    if !F.selects a.value || !a.applicant.tx then VectorFormat.vects 0 lva fill tl
    else if a.applicant.encode = .OPTIONAL then VectorFormat.vects 0 lva fill tl
    else
      match vectevt a.applicant.sndmsg a.registrar.mrpState a.registrar.mrpState with
      | none => []
      | some e =>
        let es := F.extend a (F.start a.value) tl
        let fill' :=
          if F.clearsVectevt then (0, 0)
          else pack3Rest fill (((a, e) :: es).map fun x => x.2.code)
        ⟨lva, fill, (a, e) :: es⟩ :: VectorFormat.vects es.length (lva && !F.lvaOnce) fill' tl

variable {F}

theorem VectorFormat.map_fst_extend (first : Attrib V) (c : C) (tl : List (Attrib V)) :
    (F.extend first c tl).map Prod.fst = tl.take (F.extend first c tl).length := by
  induction tl generalizing c with
  | nil => rfl
  | cons v tl ih =>
    rw [VectorFormat.extend]
    grind

variable {base eof n ptr skip vp : Nat} {c : C} {v : Vect V} {lva : Bool}
  {l l' tl : List (Attrib V)} {vs : List (Vect V)}

theorem vectorize_eq {first : Attrib V} {es : List (Attrib V × PduEvent)}
    (h : (vectorize F eof vp first c n tl).2 = some es) :
    es = F.extend first c tl ∧ (vectorize F eof vp first c n tl).1 = es.length := by
  induction tl generalizing c n es with
  | nil =>
    obtain rfl := Option.some.inj h
    exact ⟨rfl, rfl⟩
  | cons v tl ih =>
    grind [vectorize, VectorFormat.extend, Option.some.inj, Option.map_eq_some_iff]

theorem VectorFormat.length_vectBytes (hv : v.values ≠ []) (vp : Nat) :
    vp + (F.vectBytes v).length = F.vectEnd vp v.values.length := by
  obtain ⟨x, xs, hx⟩ := exists_cons_of_ne_nil hv
  have hfirst := F.firstValue_length x.1.value
  unfold VectorFormat.vectBytes VectorFormat.vectEnd
  rw [hx]
  cases hd : F.declares <;>
    simp [vectorHeader, be16, hfirst] <;> omega

def VectorFormat.body (F : VectorFormat V C) (vs : List (Vect V)) : List UInt8 :=
  vs.flatMap F.vectBytes

def VectorFormat.messageBytes (F : VectorFormat V C) (sendEmpty : Bool) (vs : List (Vect V)) :
    List UInt8 :=
  if vs.isEmpty then
    if sendEmpty && F.emptyLva then F.message F.emptyVector else []
  else F.message (F.body vs)

theorem emitVectors_eq (hbase : ¬ eof < base + F.vectorSize) (sendEmpty lva : Bool)
    (fill : Nat × Nat) (l : List (Attrib V)) :
    (emitVectors F eof base sendEmpty lva fill l).2 =
      (emitLoop F eof 0 base (F.dataStart base) lva fill l).2.map (F.messageBytes sendEmpty) := by
  unfold emitVectors
  rw [if_neg hbase]
  rfl

theorem emitVectors_eq_some {sendEmpty : Bool} {fill : Nat × Nat} {bytes : List UInt8}
    (h : (emitVectors F eof base sendEmpty lva fill l).2 = some bytes) :
    ∃ vs, (emitLoop F eof 0 base (F.dataStart base) lva fill l).2 = some vs ∧
      bytes = F.messageBytes sendEmpty vs := by
  by_cases hbase : eof < base + F.vectorSize
  all_goals grind [emitVectors, emitVectors_eq, Option.map_eq_some_iff]

theorem VectorFormat.length_le_body (hvs : ∀ v ∈ vs, v.values ≠ []) :
    vs.length ≤ (F.body vs).length := by
  induction vs with
  | nil => exact Nat.zero_le _
  | cons v vs ih =>
    have hrest := ih fun w hw => hvs w (by simp [hw])
    have hv := F.length_vectBytes (hvs v (by simp)) 0
    grind [body, vectEnd]

theorem VectorFormat.length_vectBytes_le_body (hv : v ∈ vs) :
    (F.vectBytes v).length ≤ (F.body vs).length := by
  obtain ⟨before, after, rfl⟩ := append_of_mem hv
  grind [body]

theorem emitLoop_vects {fill : Nat × Nat}
    (h : (emitLoop F eof skip ptr vp lva fill l).2 = some vs) :
    vs <+: F.vects skip lva fill l ∧
      (vs ≠ [] → vp + (F.body vs).length + endmarkSz ≤ eof) := by
  induction l generalizing skip ptr vp lva fill vs with
  | nil =>
    cases skip <;>
    · obtain rfl := Option.some.inj h
      exact ⟨List.nil_prefix, fun hne => absurd rfl hne⟩
  | cons a tl ih =>
    cases skip with
    | succ skip => exact ih h
    | zero =>
      rw [emitLoop] at h
      rw [VectorFormat.vects]
      split at h
      · grind
      split at h
      · grind
      rename_i hsel
      rw [if_neg hsel]
      split at h
      · grind
      rename_i hopt
      rw [if_neg hopt]
      split at h
      · exact absurd h (by simp)
      rename_i e hevt
      dsimp only at h
      split at h
      · exact absurd h (by simp)
      rename_i es hes
      split at h
      · rename_i hroom
        obtain ⟨vs', hvs', rfl⟩ := Option.map_eq_some_iff.mp h
        obtain ⟨hext, hlen⟩ := vectorize_eq hes
        rw [hlen] at hvs'
        obtain ⟨hpart, hend⟩ := ih hvs'
        simp only [hevt, ← hext]
        refine ⟨cons_prefix_cons.mpr ⟨rfl, hpart⟩, fun _ => ?_⟩
        simp only [VectorFormat.room, Bool.and_eq_true, decide_eq_true_eq] at hroom
        have hbytes := VectorFormat.length_vectBytes (F := F)
          (v := ⟨lva, fill, (a, e) :: es⟩) (by simp) vp
        dsimp only at hbytes
        simp only [VectorFormat.body, flatMap_cons, length_append] at hend ⊢
        cases vs' with
        | nil =>
          simp only [flatMap_nil, length_nil]
          omega
        | cons v vs' =>
          have hend := hend (by simp)
          omega
      · exact absurd h (by simp)

def VectorFormat.Run (F : VectorFormat V C) (first : V) : C → List V → Prop
  | _, [] => True
  | c, v :: vs => F.selects v = true ∧ F.contiguous first (F.advance c) v = true ∧
      F.Run first (F.advance c) vs

def VectorFormat.WellFormed (F : VectorFormat V C) (v : Vect V) : Prop :=
  ∃ a e es, v.values = (a, e) :: es ∧ F.selects a.value = true ∧
    F.Run a.value (F.start a.value) (es.map fun x => x.1.value)

theorem VectorFormat.run_extend (first : Attrib V) (c : C) (tl : List (Attrib V)) :
    F.Run first.value c ((F.extend first c tl).map fun x => x.1.value) := by
  induction tl generalizing c with
  | nil => trivial
  | cons v tl ih =>
    rw [VectorFormat.extend]
    split
    · trivial
    rename_i hsel
    split
    · trivial
    rename_i hcont
    split
    · trivial
    · simp only [Bool.or_eq_true, Bool.not_eq_true', not_or, Bool.not_eq_false] at hsel hcont
      exact ⟨hsel.1, hcont, ih (F.advance c)⟩

theorem VectorFormat.vectevt_extend (first : Attrib V) (c : C) (tl : List (Attrib V)) :
    ∀ x ∈ F.extend first c tl, vectevt x.1.applicant.sndmsg x.1.registrar.mrpState
      (F.joinRegistrar first.registrar.mrpState x.1.registrar.mrpState) = some x.2 := by
  induction tl generalizing c with
  | nil => simp [VectorFormat.extend]
  | cons v tl ih =>
    intro x hx
    rw [VectorFormat.extend] at hx
    grind

theorem VectorFormat.forall_vects {P : Vect V → Prop} {fill : Nat × Nat}
    (h : ∀ a tl e lva fill, a :: tl <:+ l → F.selects a.value = true →
      vectevt a.applicant.sndmsg a.registrar.mrpState a.registrar.mrpState = some e →
      P ⟨lva, fill, (a, e) :: F.extend a (F.start a.value) tl⟩) :
    ∀ v ∈ F.vects skip lva fill l, P v := by
  induction l generalizing skip lva fill with
  | nil => cases skip <;> simp [VectorFormat.vects]
  | cons a tl ih =>
    have htl : ∀ {skip : Nat} {lva : Bool} {fill : Nat × Nat},
        ∀ v ∈ F.vects skip lva fill tl, P v :=
      ih fun b tl' e lva fill hsuffix => h b tl' e lva fill (hsuffix.trans (suffix_cons a tl))
    intro v hv
    cases skip with
    | succ skip => exact htl v hv
    | zero =>
      rw [VectorFormat.vects] at hv
      split at hv
      · exact htl v hv
      rename_i hsel
      split at hv
      · exact htl v hv
      split at hv
      · simp at hv
      rename_i e hevt
      rcases mem_cons.mp hv with rfl | hv
      · simp only [Bool.or_eq_true, Bool.not_eq_true', not_or, Bool.not_eq_false] at hsel
        exact h a tl e lva fill (suffix_refl _) hsel.1 hevt
      · exact htl v hv

theorem VectorFormat.wellFormed_vects {fill : Nat × Nat} :
    ∀ v ∈ F.vects skip lva fill l, F.WellFormed v :=
  F.forall_vects fun a tl e _ _ _ hsel _ =>
    ⟨a, e, F.extend a (F.start a.value) tl, rfl, hsel, F.run_extend a (F.start a.value) tl⟩

theorem VectorFormat.Run.selects {first : V} {vs : List V} (h : F.Run first c vs) :
    ∀ v ∈ vs, F.selects v = true := by
  induction vs generalizing c with
  | nil => simp
  | cons v vs ih =>
    intro w hw
    rcases mem_cons.mp hw with rfl | hw
    · exact h.1
    · exact ih h.2.2 w hw

theorem VectorFormat.WellFormed.selects (h : F.WellFormed v) :
    ∀ x ∈ v.values, F.selects x.1.value = true := by
  obtain ⟨a, e, es, hvalues, hsel, hrun⟩ := h
  intro x hx
  rw [hvalues] at hx
  rcases mem_cons.mp hx with rfl | hx
  · exact hsel
  · exact hrun.selects x.1.value (mem_map_of_mem hx)

theorem VectorFormat.vectevt_vects {fill : Nat × Nat} :
    ∀ v ∈ F.vects skip lva fill l, ∀ x ∈ v.values, ∃ join,
      vectevt x.1.applicant.sndmsg x.1.registrar.mrpState join = some x.2 := by
  refine F.forall_vects ?_
  intro a tl e _ _ _ _ hevt x hx
  rcases mem_cons.mp hx with rfl | hx
  · exact ⟨_, hevt⟩
  · exact ⟨_, F.vectevt_extend a (F.start a.value) tl x hx⟩

theorem VectorFormat.fst_mem_vects {fill : Nat × Nat} :
    ∀ v ∈ F.vects skip lva fill l, ∀ x ∈ v.values, x.1 ∈ l := by
  refine F.forall_vects ?_
  intro a tl e _ _ hsuffix _ _ x hx
  have hmem : x.1 ∈ a :: tl := by
    rcases mem_cons.mp hx with rfl | hx
    · simp
    · have htake : x.1 ∈ (F.extend a (F.start a.value) tl).map Prod.fst :=
        mem_map_of_mem hx
      grind [F.map_fst_extend]
  exact hsuffix.subset hmem

theorem VectorFormat.vects_cons {fill : Nat × Nat} (h : F.vects skip lva fill l = v :: vs) :
    v.lva = lva ∧ v.fill = fill ∧ ∃ skip' tl, vs = F.vects skip' (lva && !F.lvaOnce)
      (if F.clearsVectevt then (0, 0) else pack3Rest fill (v.values.map fun x => x.2.code)) tl := by
  induction l generalizing skip with
  | nil => cases skip <;> simp [VectorFormat.vects] at h
  | cons a tl ih =>
    cases skip with
    | succ skip => exact ih h
    | zero =>
      rw [VectorFormat.vects] at h
      grind

theorem VectorFormat.lva_vects_every (hlva : (lva && !F.lvaOnce) = lva) {fill : Nat × Nat} :
    ∀ v ∈ F.vects skip lva fill l, v.lva = lva := by
  generalize hvs : F.vects skip lva fill l = vs
  induction vs generalizing skip fill l with
  | nil => simp
  | cons v vs ih =>
    obtain ⟨hv, -, skip', tl, hrest⟩ := F.vects_cons hvs
    grind

theorem VectorFormat.lva_vects (honce : F.lvaOnce = true) {fill : Nat × Nat} :
    (∀ v ∈ (F.vects skip lva fill l).head?, v.lva = lva) ∧
      ∀ v ∈ (F.vects skip lva fill l).tail, v.lva = false := by
  cases hvs : F.vects skip lva fill l with
  | nil => simp
  | cons v vs =>
    obtain ⟨hv, -, skip', tl, hrest⟩ := F.vects_cons hvs
    rw [honce, Bool.not_true, Bool.and_false] at hrest
    refine ⟨by simpa using hv, ?_⟩
    rw [tail_cons, hrest]
    exact F.lva_vects_every (Bool.false_and _)

theorem VectorFormat.lva_part (honce : F.lvaOnce = true) {fill : Nat × Nat}
    (hpart : vs <+: F.vects skip lva fill l) :
    (∀ v ∈ vs.head?, v.lva = lva) ∧ ∀ v ∈ vs.tail, v.lva = false := by
  obtain ⟨rest, hrest⟩ := hpart
  obtain ⟨hhead, htail⟩ : (∀ v ∈ (F.vects skip lva fill l).head?, v.lva = lva) ∧
      ∀ v ∈ (F.vects skip lva fill l).tail, v.lva = false := F.lva_vects honce
  rw [← hrest] at hhead htail
  cases vs with
  | nil => simp
  | cons v vs =>
    grind

theorem VectorFormat.fill_vects (hclears : F.clearsVectevt = true) :
    ∀ v ∈ F.vects skip lva (0, 0) l, v.fill = (0, 0) := by
  generalize hvs : F.vects skip lva (0, 0) l = vs
  induction vs generalizing skip lva l with
  | nil => simp
  | cons v vs ih =>
    obtain ⟨-, hv, skip', tl, hrest⟩ := F.vects_cons hvs
    grind

def SndMsg.sendable (m : SndMsg) : Bool :=
  (vectevt m .MT .MT).isSome

theorem isSome_vectevt (m : SndMsg) (own join : RegState) :
    (vectevt m own join).isSome = m.sendable := by
  cases m <;> rfl

theorem fourPackRoom_of_le (q pos : Nat) (h : pos + q + 3 ≤ eof) :
    fourPackRoom eof pos q = true := by
  induction q generalizing pos with
  | zero => rfl
  | succ q ih =>
    grind [fourPackRoom]

theorem vectorize_of_room {first : Attrib V}
    (hsend : ∀ a ∈ tl, F.selects a.value = true → a.applicant.tx = true →
      a.applicant.sndmsg.sendable = true)
    (hroom : vp + 2 + F.vectidx + (n + (F.extend first c tl).length) / 3 + F.runMargin ≤ eof) :
    (vectorize F eof vp first c n tl).2 = some (F.extend first c tl) := by
  induction tl generalizing c n with
  | nil => rfl
  | cons v tl ih =>
    rw [vectorize]
    rw [VectorFormat.extend] at hroom ⊢
    split
    · rfl
    rename_i hsel
    rw [if_neg hsel] at hroom
    split
    · rfl
    rename_i hcont
    rw [if_neg hcont] at hroom
    have hsome := isSome_vectevt v.applicant.sndmsg v.registrar.mrpState
      (F.joinRegistrar first.registrar.mrpState v.registrar.mrpState)
    grind

theorem emitLoop_of_room {margin : Nat} (hsize : F.vectorSize + endmarkSz < margin)
    (hrun : F.runMargin ≤ margin) (hfour : 3 ≤ margin) {fill : Nat × Nat}
    (hsend : ∀ a ∈ l, F.selects a.value = true → a.applicant.tx = true →
      a.applicant.sndmsg.sendable = true) (hptr : ptr ≤ vp)
    (hroom : vp + (F.body (F.vects skip lva fill l)).length + margin ≤ eof) :
    (emitLoop F eof skip ptr vp lva fill l).2 = some (F.vects skip lva fill l) := by
  induction l generalizing skip ptr vp lva fill with
  | nil => cases skip <;> rfl
  | cons a tl ih =>
    have hsend' : ∀ b ∈ tl, F.selects b.value = true → b.applicant.tx = true →
        b.applicant.sndmsg.sendable = true := fun b hb => hsend b (by simp [hb])
    cases skip with
    | succ skip => exact ih hsend' hptr hroom
    | zero =>
      have hloop : ¬ eof ≤ ptr + F.vectorSize + endmarkSz := by omega
      rw [emitLoop, if_neg hloop]
      rw [VectorFormat.vects] at hroom ⊢
      split
      · grind
      rename_i hsel
      rw [if_neg hsel] at hroom
      split
      · grind
      rename_i hopt
      rw [if_neg hopt] at hroom
      have hsome := isSome_vectevt a.applicant.sndmsg a.registrar.mrpState a.registrar.mrpState
      simp only [Bool.or_eq_true, Bool.not_eq_true', not_or, Bool.not_eq_false] at hsel
      rw [hsend a (by simp) hsel.1 hsel.2] at hsome
      obtain ⟨e, hevt⟩ := Option.isSome_iff_exists.mp hsome
      rw [hevt] at hroom ⊢
      dsimp only at hroom ⊢
      have hbytes := VectorFormat.length_vectBytes (F := F)
        (v := ⟨lva, fill, (a, e) :: F.extend a (F.start a.value) tl⟩) (by simp) vp
      dsimp only at hbytes
      simp only [VectorFormat.body, flatMap_cons, length_append] at hroom
      have hvec : (vectorize F eof vp a (F.start a.value) 1 tl).2 =
          some (F.extend a (F.start a.value) tl) := by
        grind [vectorize_of_room, VectorFormat.vectEnd]
      obtain ⟨-, hlen⟩ := vectorize_eq hvec
      have hfour : F.room eof vp ((a, e) :: F.extend a (F.start a.value) tl).length = true := by
        simp only [VectorFormat.room, Bool.and_eq_true, Bool.or_eq_true, decide_eq_true_eq]
        refine ⟨?_, by unfold endmarkSz; omega⟩
        cases hd : F.declares with
        | none => exact Or.inl rfl
        | some d =>
          grind [fourPackRoom_of_le, VectorFormat.vectEnd, Option.isSome_some]
      grind [VectorFormat.body]

theorem VectorFormat.vects_complete {fill : Nat × Nat}
    (hsend : ∀ a ∈ l, F.selects a.value = true → a.applicant.tx = true →
      a.applicant.sndmsg.sendable = true) {a : Attrib V} (ha : a ∈ l.drop skip)
    (hsel : F.selects a.value = true) (htx : a.applicant.tx = true)
    (hencode : a.applicant.encode ≠ .OPTIONAL) :
    ∃ v ∈ F.vects skip lva fill l, ∃ e, (a, e) ∈ v.values := by
  induction l generalizing skip lva fill with
  | nil => simp at ha
  | cons b tl ih =>
    have ih' := fun {skip : Nat} {lva : Bool} {fill : Nat × Nat} (h : a ∈ tl.drop skip) =>
      @ih skip lva fill (fun c hc => hsend c (by simp [hc])) h
    cases skip with
    | succ skip => exact ih' ha
    | zero =>
      rw [VectorFormat.vects]
      split
      · rename_i hb
        rcases mem_cons.mp ha with rfl | ha
        · simp [hsel, htx] at hb
        · exact ih' ha
      rename_i hb
      split
      · rename_i hopt
        rcases mem_cons.mp ha with rfl | ha
        · exact absurd hopt hencode
        · exact ih' ha
      have hsome := isSome_vectevt b.applicant.sndmsg b.registrar.mrpState b.registrar.mrpState
      simp only [Bool.or_eq_true, Bool.not_eq_true', not_or, Bool.not_eq_false] at hb
      rw [hsend b (by simp) hb.1 hb.2] at hsome
      obtain ⟨e, hevt⟩ := Option.isSome_iff_exists.mp hsome
      rw [hevt]
      dsimp only
      rcases mem_cons.mp ha with rfl | ha
      · exact ⟨_, mem_cons_self, e, mem_cons_self⟩
      -- `a` is in the vector of `b`, or behind the attributes that vector takes
      rw [← take_append_drop (F.extend b (F.start b.value) tl).length tl] at ha
      rcases mem_append.mp ha with ha | ha
      · rw [← F.map_fst_extend, mem_map] at ha
        obtain ⟨x, hx, rfl⟩ := ha
        exact ⟨_, mem_cons_self, x.2, mem_cons_of_mem _ hx⟩
      · obtain ⟨v, hv, he⟩ := ih' ha
        exact ⟨v, mem_cons_of_mem _ hv, he⟩

/-- An attribute before and after an emit call: as it was, or one of the call's type
with its `tx` mark cleared. -/
def VectorFormat.Marked (F : VectorFormat V C) (a b : Attrib V) : Prop :=
  b = a ∨ F.selects a.value = true ∧ b = a.clearTx

theorem forall₂_marked_refl (l : List (Attrib V)) : List.Forall₂ F.Marked l l :=
  List.forall₂_same.mpr fun _ _ => Or.inl rfl

theorem VectorFormat.selects_extend (first : Attrib V) (c : C) (tl : List (Attrib V)) :
    ∀ a ∈ tl.take (F.extend first c tl).length, F.selects a.value = true := by
  intro a ha
  rw [← F.map_fst_extend] at ha
  obtain ⟨x, hx, rfl⟩ := mem_map.mp ha
  exact (F.run_extend first c tl).selects x.1.value (mem_map_of_mem hx)

theorem emitLoop_marked {fill : Nat × Nat} (hskip : ∀ a ∈ l.take skip, F.selects a.value = true)
    (h : (emitLoop F eof skip ptr vp lva fill l).2 = some vs) :
    List.Forall₂ F.Marked l (emitLoop F eof skip ptr vp lva fill l).1 := by
  induction l generalizing skip ptr vp lva fill vs with
  | nil => cases skip <;> exact .nil
  | cons a tl ih =>
    cases skip with
    | succ skip =>
      exact .cons (Or.inr ⟨hskip a (by simp), rfl⟩) (ih (fun b hb => hskip b (by simp [hb])) h)
    | zero =>
      rw [emitLoop] at h ⊢
      split at h
      · rename_i hstop
        rw [if_pos hstop]
        exact forall₂_marked_refl _
      rename_i hstop
      rw [if_neg hstop]
      split at h
      · rename_i hsel
        rw [if_pos hsel]
        exact .cons (Or.inl rfl) (ih (by simp) h)
      rename_i hsel
      rw [if_neg hsel]
      simp only [Bool.or_eq_true, Bool.not_eq_true', not_or, Bool.not_eq_false] at hsel
      split at h
      · rename_i hopt
        rw [if_pos hopt]
        exact .cons (Or.inr ⟨hsel.1, rfl⟩) (ih (by simp) h)
      rename_i hopt
      rw [if_neg hopt]
      split at h
      · exact absurd h (by simp)
      dsimp only at h ⊢
      split at h
      · exact absurd h (by simp)
      rename_i es hes
      split at h
      · rename_i hroom
        rw [if_pos hroom]
        obtain ⟨vs', hvs', -⟩ := Option.map_eq_some_iff.mp h
        obtain ⟨hext, hlen⟩ := vectorize_eq hes
        rw [hlen, hext] at hvs' ⊢
        exact .cons (Or.inr ⟨hsel.1, rfl⟩) (ih (F.selects_extend a (F.start a.value) tl) hvs')
      · exact absurd h (by simp)

def VectorFormat.Alike (F : VectorFormat V C) (a b : Attrib V) : Prop :=
  b = a ∨ F.selects a.value = false ∧ b.value = a.value

theorem VectorFormat.extend_alike {first : Attrib V} (h : List.Forall₂ F.Alike l l') :
    F.extend first c l' = F.extend first c l := by
  induction h generalizing c with
  | nil => rfl
  | cons hab _ ih =>
    rcases hab with rfl | ⟨hsel, hvalue⟩
    all_goals grind [extend]

theorem VectorFormat.vects_alike {fill : Nat × Nat} (h : List.Forall₂ F.Alike l l') :
    F.vects skip lva fill l' = F.vects skip lva fill l := by
  induction h generalizing skip lva fill with
  | nil => cases skip <;> rfl
  | cons hab htl ih =>
    cases skip with
    | succ skip => exact ih
    | zero =>
      rcases hab with rfl | ⟨hsel, hvalue⟩
      all_goals grind [vects, F.extend_alike, Bool.not_false]

theorem VectorFormat.map_values_vects (skip : Nat) (lva lva' : Bool) (fill fill' : Nat × Nat)
    (l : List (Attrib V)) :
    (F.vects skip lva fill l).map Vect.values = (F.vects skip lva' fill' l).map Vect.values := by
  induction l generalizing skip lva lva' fill fill' with
  | nil => cases skip <;> rfl
  | cons a tl ih =>
    cases skip with
    | succ skip => exact ih skip lva lva' fill fill'
    | zero =>
      rw [VectorFormat.vects, VectorFormat.vects]
      grind

theorem VectorFormat.length_body_eq {ws : List (Vect V)} (hne : ∀ v ∈ vs, v.values ≠ [])
    (h : vs.map Vect.values = ws.map Vect.values) : (F.body vs).length = (F.body ws).length := by
  induction vs generalizing ws with
  | nil =>
    simp_all
  | cons v vs ih =>
    cases ws with
    | nil => exact absurd h (by simp)
    | cons w ws =>
      obtain ⟨hv, hvs⟩ := List.cons.inj h
      have hrest := ih (fun u hu => hne u (by simp [hu])) hvs
      have hvlen := F.length_vectBytes (hne v (by simp)) 0
      grind [F.length_vectBytes, body]

def VectorFormat.messageLength (F : VectorFormat V C) (sendEmpty : Bool) (l : List (Attrib V)) :
    Nat :=
  (F.messageBytes sendEmpty (F.vects 0 false (0, 0) l)).length

theorem VectorFormat.length_messageBytes (sendEmpty lva : Bool) (fill : Nat × Nat)
    (l : List (Attrib V)) :
    (F.messageBytes sendEmpty (F.vects 0 lva fill l)).length = F.messageLength sendEmpty l := by
  have hvalues := F.map_values_vects 0 lva false fill (0, 0) l
  have hne : ∀ v ∈ F.vects 0 lva fill l, v.values ≠ [] := by
    intro v hv
    obtain ⟨a, e, es, hvs, -⟩ := F.wellFormed_vects v hv
    simp [hvs]
  have hbody := F.length_body_eq hne hvalues
  have hempty : (F.vects 0 lva fill l).isEmpty = (F.vects 0 false (0, 0) l).isEmpty := by
    have hlen := congrArg List.length hvalues
    rw [length_map, length_map] at hlen
    rw [Bool.eq_iff_iff, isEmpty_iff_length_eq_zero, isEmpty_iff_length_eq_zero, hlen]
  grind [messageLength, messageBytes, message]

end Avb4Linux.Mrp
