import Mathlib.Data.List.SplitBy
import Avb4Linux.Mrp.Emission

/-!
# What a message is made of

The emit loops described by the attribute list alone: neighbours that wait to be sent and whose
values follow each other form a run.
-/

namespace Avb4Linux.Mrp

open List

variable {V C : Type} (F : VectorFormat V C)

def VectorFormat.fitting (eof : Nat) : Nat → Nat → List (List (Attrib V)) → List (List (Attrib V))
  | _, _, [] => []
  | ptr, vp, r :: rs =>
    if eof ≤ ptr + F.vectorSize + endmarkSz then []
    else r :: VectorFormat.fitting eof (F.vectEnd vp r.length) (F.vectEnd vp r.length) rs

def Vect.attribs (v : Vect V) : List (Attrib V) :=
  v.values.map Prod.fst

theorem Vect.flatten_attribs (vs : List (Vect V)) :
    (vs.map Vect.attribs).flatten = (vs.flatMap Vect.values).map Prod.fst := by
  rw [map_flatMap]
  rfl

variable {F}

theorem VectorFormat.fitting_initial (eof ptr vp : Nat) (rs : List (List (Attrib V))) :
    F.fitting eof ptr vp rs <+: rs := by
  induction rs generalizing ptr vp with
  | nil => exact prefix_refl _
  | cons r rs ih =>
    rw [VectorFormat.fitting]
    grind

theorem emitLoop_drop (eof skip ptr vp : Nat) (lva : Bool) (fill : Nat × Nat)
    (l : List (Attrib V)) :
    (emitLoop F eof skip ptr vp lva fill l).2 =
      (emitLoop F eof 0 ptr vp lva fill (l.drop skip)).2 := by
  induction l generalizing skip with
  | nil => cases skip <;> rfl
  | cons a tl ih =>
    cases skip with
    | zero => rfl
    | succ skip => exact ih skip

variable [DecidableEq C] (F)

def VectorFormat.waits (a : Attrib V) : Bool :=
  F.selects a.value && a.applicant.tx

def VectorFormat.mustSend (a : Attrib V) : Bool :=
  F.waits a && decide (a.applicant.encode ≠ .OPTIONAL)

def VectorFormat.follows (a b : Attrib V) : Bool :=
  F.waits a && F.waits b && decide (F.start b.value = F.advance (F.start a.value))

def VectorFormat.runs (l : List (Attrib V)) : List (List (Attrib V)) :=
  ((l.splitBy F.follows).map fun r => r.dropWhile fun a => !F.mustSend a).filter fun r =>
    !r.isEmpty

def VectorFormat.Consecutive (F : VectorFormat V C) : Prop :=
  ∀ first c v, F.contiguous first c v = decide (F.start v = c)

theorem splitBy_cons_of_rel {A : Type} {r : A → A → Bool} {a b : A} {l : List A}
    (hab : r a b = true) :
    ∃ g gs, (b :: l).splitBy r = g :: gs ∧ (a :: b :: l).splitBy r = (a :: g) :: gs := by
  obtain ⟨g, gs, hsplit⟩ := exists_cons_of_ne_nil (splitBy_ne_nil.mpr
    (cons_ne_nil b l) : (b :: l).splitBy r ≠ [])
  refine ⟨g, gs, hsplit, ?_⟩
  obtain ⟨hflat, hnil, hchain, hbreaks⟩ := splitBy_eq_iff.mp hsplit
  obtain ⟨c, g, rfl⟩ : ∃ c g', g = c :: g' :=
    exists_cons_of_ne_nil fun h => hnil (by simp [h])
  obtain ⟨rfl, -⟩ : b = c ∧ l = g ++ gs.flatten := by
    simpa using hflat
  refine splitBy_eq_iff.mpr ⟨?_, ?_, ?_, ?_⟩
  · rw [hflat]
    simp
  · grind
  · grind
  · rw [isChain_cons] at hbreaks ⊢
    grind

theorem VectorFormat.runs_cons_of_not {a : Attrib V} (ha : F.mustSend a = false)
    (tl : List (Attrib V)) : F.runs (a :: tl) = F.runs tl := by
  unfold VectorFormat.runs
  cases tl with
  | nil => simp [List.splitBy, List.splitBy.loop, ha]
  | cons b tl =>
    by_cases hab : F.follows a b = true
    · obtain ⟨g, gs, hsplit, hjoined⟩ := splitBy_cons_of_rel (l := tl) hab
      rw [hjoined, hsplit]
      simp [ha]
    · have happend := splitBy_append (r := F.follows) (l := [a]) (m := b :: tl) (by
        intro x hx y hy
        simp only [List.getLast?_singleton, Option.mem_def, Option.some.injEq,
          List.head?_cons] at hx hy
        subst hx hy
        simpa using hab)
      rw [singleton_append] at happend
      rw [happend]
      simp [List.splitBy, List.splitBy.loop, ha]

theorem VectorFormat.runs_cons_of_mustSend {a : Attrib V} (ha : F.mustSend a = true)
    {es rest : List (Attrib V)} (hchain : (a :: es).IsChain fun x y => F.follows x y)
    (hstop : ∀ x ∈ (a :: es).getLast?, ∀ y ∈ rest.head?, F.follows x y = false) :
    F.runs (a :: (es ++ rest)) = (a :: es) :: F.runs rest := by
  unfold VectorFormat.runs
  rw [← cons_append, splitBy_append hstop,
    splitBy_of_isChain (cons_ne_nil a es) hchain]
  simp [ha]

variable {F}

theorem VectorFormat.flatten_runs_sublist (l : List (Attrib V)) : (F.runs l).flatten.Sublist l := by
  have hdrop : ∀ gs : List (List (Attrib V)),
      (((gs.map fun r => r.dropWhile fun a => !F.mustSend a).filter fun r =>
        !r.isEmpty).flatten).Sublist gs.flatten := by
    intro gs
    induction gs with
    | nil => simp
    | cons g gs ih =>
      grind
  have h := hdrop (l.splitBy F.follows)
  rwa [flatten_splitBy] at h

theorem VectorFormat.follows_of_waits (a : Attrib V) {b : Attrib V} (hb : F.waits b = false) :
    F.follows a b = false := by
  simp [VectorFormat.follows, hb]

theorem vectorize_follows (hF : F.Consecutive) {eof vp : Nat} {first : Attrib V} {c : C} {n : Nat}
    {tl : List (Attrib V)} {es : List (Attrib V × PduEvent)}
    (h : (vectorize F eof vp first c n tl).2 = some es) {a : Attrib V} (ha : F.waits a = true)
    (hc : F.start a.value = c) :
    (a :: es.map Prod.fst).IsChain (fun x y => F.follows x y) ∧
      ∀ x ∈ (a :: es.map Prod.fst).getLast?, ∀ y ∈ (tl.drop es.length).head?,
        F.follows x y = false := by
  induction tl generalizing c n es a with
  | nil =>
    obtain rfl := Option.some.inj h
    simp
  | cons v tl ih =>
    rw [vectorize] at h
    split at h
    · rename_i hsel
      obtain rfl := Option.some.inj h
      have hv : F.waits v = false := by
        unfold VectorFormat.waits
        cases hs : F.selects v.value <;> cases ht : v.applicant.tx <;> simp_all
      simp [VectorFormat.follows_of_waits a hv]
    rename_i hsel
    split at h
    · rename_i hcont
      obtain rfl := Option.some.inj h
      rw [hF, ← hc] at hcont
      have hv : F.follows a v = false := by
        simp only [Bool.not_eq_true', decide_eq_false_iff_not] at hcont
        simp [VectorFormat.follows, hcont]
      simp [hv]
    rename_i hcont
    split at h
    · exact absurd h (by simp)
    split at h
    · exact absurd h (by simp)
    obtain ⟨es', hes', rfl⟩ := Option.map_eq_some_iff.mp h
    simp only [Bool.or_eq_true, Bool.not_eq_true', not_or, Bool.not_eq_false] at hsel hcont
    rw [hF, decide_eq_true_eq] at hcont
    have hv : F.waits v = true := by simp [VectorFormat.waits, hsel]
    obtain ⟨hchain, hstop⟩ := ih hes' hv hcont
    have hfollows : F.follows a v = true := by
      simp [VectorFormat.follows, ha, hv, hcont, hc]
    grind

theorem emitLoop_runs (hF : F.Consecutive) {eof ptr vp : Nat} {lva : Bool} {fill : Nat × Nat}
    {l : List (Attrib V)} {vs : List (Vect V)}
    (h : (emitLoop F eof 0 ptr vp lva fill l).2 = some vs) :
    vs.map Vect.attribs = F.fitting eof ptr vp (F.runs l) := by
  induction hn : l.length using Nat.strong_induction_on generalizing l ptr vp lva fill vs with
  | _ n ih =>
    cases l with
    | nil =>
      obtain rfl := Option.some.inj h
      rfl
    | cons a tl =>
      have hlt : tl.length < n := by
        rw [← hn]
        exact Nat.lt_succ_self _
      rw [emitLoop] at h
      split at h
      · rename_i hfull
        obtain rfl := Option.some.inj h
        cases F.runs (a :: tl) with
        | nil => rfl
        | cons r rs => rw [VectorFormat.fitting, if_pos hfull]; rfl
      rename_i hroom
      split at h
      · rename_i hsel
        have ha : F.mustSend a = false := by
          unfold VectorFormat.mustSend VectorFormat.waits
          cases hs : F.selects a.value <;> cases ht : a.applicant.tx <;> simp_all
        rw [F.runs_cons_of_not ha]
        exact ih tl.length hlt h rfl
      rename_i hsel
      split at h
      · rename_i hopt
        have ha : F.mustSend a = false := by simp [VectorFormat.mustSend, hopt]
        rw [F.runs_cons_of_not ha]
        exact ih tl.length hlt h rfl
      rename_i hopt
      simp only [Bool.or_eq_true, Bool.not_eq_true', not_or, Bool.not_eq_false] at hsel
      have hwaits : F.waits a = true := by simp [VectorFormat.waits, hsel]
      have ha : F.mustSend a = true := by simp [VectorFormat.mustSend, hwaits, hopt]
      split at h
      · exact absurd h (by simp)
      dsimp only at h
      split at h
      · exact absurd h (by simp)
      rename_i es hes
      split at h
      · obtain ⟨vs', hvs', rfl⟩ := Option.map_eq_some_iff.mp h
        obtain ⟨hext, hlen⟩ := vectorize_eq hes
        obtain ⟨hchain, hstop⟩ := vectorize_follows hF hes hwaits rfl
        rw [hlen, emitLoop_drop] at hvs'
        have htake : es.map Prod.fst = tl.take es.length := by
          rw [hext]
          exact F.map_fst_extend a (F.start a.value) tl
        have hsplit : F.runs (a :: tl) =
            (a :: es.map Prod.fst) :: F.runs (tl.drop es.length) := by
          rw [← F.runs_cons_of_mustSend ha hchain hstop, htake, take_append_drop]
        grind [VectorFormat.fitting, Vect.attribs]
      · exact absurd h (by simp)

theorem emitLoop_sublist (hF : F.Consecutive) {eof ptr vp : Nat} {lva : Bool} {fill : Nat × Nat}
    {l : List (Attrib V)} {vs : List (Vect V)}
    (h : (emitLoop F eof 0 ptr vp lva fill l).2 = some vs) :
    ((vs.flatMap Vect.values).map Prod.fst).Sublist l := by
  rw [← Vect.flatten_attribs, emitLoop_runs hF h]
  obtain ⟨rest, hrest⟩ := F.fitting_initial eof ptr vp (F.runs l)
  have hruns := F.flatten_runs_sublist l
  rw [← hrest, flatten_append] at hruns
  exact (sublist_append_left _ _).trans hruns

end Avb4Linux.Mrp
