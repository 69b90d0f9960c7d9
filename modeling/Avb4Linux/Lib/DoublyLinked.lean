import Avb4Linux.Lib.LinkedQueue

/-!
# Doubly linked lists

A list is a head pointer and two maps of pointers; `Links.Seg` relates a stretch of cells to the
pointers that lead into it and out of it.
-/

namespace Avb4Linux.Lib.DoublyLinked

open List Function

variable {A : Type}

structure Links (A : Type) where
  head : Option A := none
  next : A → Option A
  prev : A → Option A

def Links.Seg (s : Links A) : Option A → Option A → List A → Option A → Prop
  | _, h, [], e => h = e
  | p, h, a :: l, e => h = some a ∧ s.prev a = p ∧ s.Seg (some a) (s.next a) l e

def Links.Spells (s : Links A) (l : List A) : Prop :=
  s.Seg none s.head l none

variable {s s' : Links A} {p h e e' : Option A} {l l₁ l₂ : List A} {a q r : A}

theorem seg_append :
    s.Seg p h (l₁ ++ l₂) e ↔ ∃ m, s.Seg p h l₁ m ∧ s.Seg (l₁.getLast?.or p) m l₂ e := by
  induction l₁ generalizing p h with
  | nil => simp [Links.Seg]
  | cons a l₁ ih =>
    grind [Links.Seg]

theorem seg_concat :
    s.Seg p h (l ++ [q]) e ↔
      s.Seg p h l (some q) ∧ s.prev q = l.getLast?.or p ∧ s.next q = e := by
  rw [seg_append]
  constructor
  · rintro ⟨m, hl, rfl, hprev, hnext⟩
    exact ⟨hl, hprev, hnext⟩
  · rintro ⟨hl, hprev, hnext⟩
    exact ⟨some q, hl, rfl, hprev, hnext⟩

theorem Links.Seg.frame (hs : s.Seg p h l e)
    (hsame : ∀ x ∈ l, s'.next x = s.next x ∧ s'.prev x = s.prev x) : s'.Seg p h l e := by
  induction l generalizing p h with
  | nil => exact hs
  | cons a l ih =>
    obtain ⟨rfl, hprev, hrest⟩ := hs
    obtain ⟨hnext, hback⟩ := hsame a mem_cons_self
    refine ⟨rfl, hback.trans hprev, ?_⟩
    grind

theorem Links.Seg.chain (hs : s.Seg p h l none) : LinkedQueue.Chain s.next h l := by
  induction l generalizing p h with
  | nil =>
    obtain rfl : h = none := hs
    exact .nil
  | cons a l ih =>
    obtain ⟨rfl, -, hrest⟩ := hs
    exact .cons (ih hrest)

theorem Links.Spells.nodup (hs : s.Spells l) : l.Nodup :=
  hs.chain.nodup

theorem spells_split :
    s.Spells (l₁ ++ a :: l₂) ↔ s.Seg none s.head l₁ (some a) ∧ s.prev a = l₁.getLast? ∧
      s.Seg (some a) (s.next a) l₂ none := by
  unfold Links.Spells
  rw [seg_append, Option.or_none]
  constructor
  · rintro ⟨m, hl, rfl, hprev, hrest⟩
    exact ⟨hl, hprev, hrest⟩
  · rintro ⟨hl, hprev, hrest⟩
    exact ⟨some a, hl, rfl, hprev, hrest⟩

theorem Links.Seg.head_eq (hs : s.Seg p h l none) : h = l.head? := by
  cases l with
  | nil => exact hs
  | cons a l => exact hs.1

theorem Links.Seg.redirect (hs : s.Seg p h (l ++ [q]) e) (hnext : s'.next q = e')
    (hsame : ∀ x ∈ l, s'.next x = s.next x) (hprev : ∀ x ∈ l ++ [q], s'.prev x = s.prev x) :
    s'.Seg p h (l ++ [q]) e' := by
  obtain ⟨hl, hback, -⟩ := seg_concat.mp hs
  refine seg_concat.mpr ⟨hl.frame fun x hx => ⟨hsame x hx, hprev x (by simp [hx])⟩, ?_, hnext⟩
  rw [hprev q (by simp), hback]

variable [DecidableEq A]

def Links.setNext (s : Links A) (a : A) (v : Option A) : Links A :=
  { s with next := update s.next a v }

def Links.setPrev (s : Links A) (a : A) (v : Option A) : Links A :=
  { s with prev := update s.prev a v }

@[simp]
theorem setNext_next (s : Links A) (a : A) (v : Option A) :
    (s.setNext a v).next = update s.next a v := rfl

@[simp]
theorem setNext_prev (s : Links A) (a : A) (v : Option A) : (s.setNext a v).prev = s.prev := rfl

@[simp]
theorem setPrev_prev (s : Links A) (a : A) (v : Option A) :
    (s.setPrev a v).prev = update s.prev a v := rfl

@[simp]
theorem setPrev_next (s : Links A) (a : A) (v : Option A) : (s.setPrev a v).next = s.next := rfl

/-- The cell `r` is put before `a`. -/
def Links.insertBefore (s : Links A) (a r : A) : Links A :=
  let s := s.setNext r (some a)
  let s := s.setPrev r (s.prev a)
  let s := s.setPrev a (some r)
  match s.prev r with
  | some q => s.setNext q (some r)
  | none => { s with head := some r }

/-- The cell `r` is put after `a`, and the cell behind is told of it unless `fixes` is
off. -/
def Links.insertAfter (s : Links A) (fixes : Bool) (a r : A) : Links A :=
  let s := s.setNext r (s.next a)
  let s := s.setPrev r (some a)
  let s := s.setNext a (some r)
  match s.next r with
  | some b => if fixes then s.setPrev b (some r) else s
  | none => s

/-- The cell `r` is put behind the last one, `tail`. -/
def Links.append (s : Links A) (tail : Option A) (r : A) : Links A :=
  let s := (s.setNext r none).setPrev r tail
  match tail with
  | some t => s.setNext t (some r)
  | none => { s with head := some r }

def Links.unlink (s : Links A) (a : A) : Links A :=
  let s :=
    match s.prev a with
    | some q => s.setNext q (s.next a)
    | none => { s with head := s.next a }
  match s.next a with
  | some b => s.setPrev b (s.prev a)
  | none => s

theorem spells_insertBefore (hs : s.Spells (l₁ ++ a :: l₂)) (hr : r ∉ l₁ ++ a :: l₂) :
    (s.insertBefore a r).Spells (l₁ ++ r :: a :: l₂) := by
  have hnodup := hs.nodup
  obtain ⟨hl, hprev, hrest⟩ := spells_split.mp hs
  have hra : a ≠ r := fun h => hr (by simp [h])
  unfold Links.insertBefore
  rcases eq_nil_or_concat' l₁ with rfl | ⟨l₀, q, rfl⟩
  · have hp : s.prev a = none := hprev
    refine spells_split.mpr ?_
    simp only [setPrev_prev, setNext_prev, hp, update_of_ne hra.symm, update_self]
    refine ⟨rfl, by simp, by simp, by simp, ?_⟩
    have hnext : update s.next r (some a) a = s.next a := by simp [hra]
    simp only [setNext_next, setPrev_next, hnext]
    refine hrest.frame fun x hx => ?_
    simp [show x ≠ r by grind, show x ≠ a by grind]
  · have hp : s.prev a = some q := by simpa using hprev
    have hqr : q ≠ r := fun h => hr (by simp [h])
    have hqa : q ≠ a := by grind
    refine spells_split.mpr ?_
    simp only [setPrev_prev, setNext_prev, hp, update_of_ne hra.symm, update_self]
    refine ⟨hl.redirect ?_ ?_ ?_, ?_, ?_, ?_, ?_⟩
    · simp
    · intro x hx
      simp [show x ≠ q by grind, show x ≠ r by grind]
    · intro x hx
      simp [show x ≠ a by grind, show x ≠ r by grind]
    · simp
    · simp [hqr.symm]
    · simp
    · have hnext : update (update s.next r (some a)) q (some r) a = s.next a := by
        simp [hqa.symm, hra]
      simp only [setNext_next, setPrev_next, hnext]
      refine hrest.frame fun x hx => ?_
      simp [show x ≠ q by grind, show x ≠ r by grind, show x ≠ a by grind]

theorem spells_insertAfter {fixes : Bool} (hs : s.Spells (l₁ ++ a :: l₂)) (hr : r ∉ l₁ ++ a :: l₂)
    (hf : fixes = true ∨ l₂ = []) :
    (s.insertAfter fixes a r).Spells (l₁ ++ a :: r :: l₂) := by
  have hnodup := hs.nodup
  obtain ⟨hl, hprev, hrest⟩ := spells_split.mp hs
  have hra : a ≠ r := fun h => hr (by simp [h])
  unfold Links.insertAfter
  have hnext : s.next a = l₂.head? := hrest.head_eq
  cases l₂ with
  | nil =>
    simp only [setNext_next, setPrev_next, hnext, head?_nil, update_of_ne hra.symm, update_self]
    refine spells_split.mpr ⟨hl.frame fun x hx => ?_, ?_, ?_⟩
    · simp [show x ≠ a by grind, show x ≠ r by grind]
    · simpa [hra] using hprev
    · simp [Links.Seg, hra.symm]
  | cons b l₂ =>
    obtain rfl : fixes = true := hf.resolve_right (by simp)
    simp only [setNext_next, setPrev_next, hnext, head?_cons, update_of_ne hra.symm, update_self,
      if_true]
    have hbr : b ≠ r := fun h => hr (by simp [h])
    have hba : a ≠ b := by grind
    refine spells_split.mpr ⟨hl.frame fun x hx => ?_, ?_, ?_⟩
    · simp [show x ≠ a by grind, show x ≠ r by grind, show x ≠ b by grind]
    · simpa [hra, hba] using hprev
    · refine ⟨by simp, by simp [hbr.symm], by simp [hra.symm], by simp, ?_⟩
      have hb : update (update s.next r (some b)) a (some r) b = s.next b := by
        simp [hba.symm, hbr]
      simp only [setPrev_next, setNext_next, hb]
      refine hrest.2.2.frame fun x hx => ?_
      simp [show x ≠ a by grind, show x ≠ r by grind, show x ≠ b by grind]

theorem spells_append (hs : s.Spells l) (hr : r ∉ l) :
    (s.append l.getLast? r).Spells (l ++ [r]) := by
  have hnodup := hs.nodup
  unfold Links.append
  rcases eq_nil_or_concat' l with rfl | ⟨l₀, q, rfl⟩
  · simp [Links.Spells, Links.Seg]
  · have hqr : q ≠ r := fun h => hr (by simp [h])
    rw [getLast?_append, getLast?_singleton, Option.some_or]
    refine spells_split.mpr ⟨hs.redirect (by simp) ?_ ?_, by simp, by simp [Links.Seg, hqr.symm]⟩
    · intro x hx
      simp [show x ≠ q by grind, show x ≠ r by grind]
    · intro x hx
      simp [show x ≠ r by grind]

theorem spells_unlink (hs : s.Spells (l₁ ++ a :: l₂)) : (s.unlink a).Spells (l₁ ++ l₂) := by
  have hnodup := hs.nodup
  obtain ⟨hl, hprev, hrest⟩ := spells_split.mp hs
  have hnext : s.next a = l₂.head? := hrest.head_eq
  -- the stretch behind `a`, once its first cell has been told what precedes it
  have hback (s₁ : Links A) (hn : ∀ x ∈ l₂, s₁.next x = s.next x)
      (hp : ∀ x ∈ l₂.tail, s₁.prev x = s.prev x)
      (hh : ∀ b ∈ l₂.head?, s₁.prev b = l₁.getLast?) :
      s₁.Seg (l₁.getLast?.or none) l₂.head? l₂ none := by
    cases l₂ with
    | nil => rfl
    | cons b l₂ =>
      refine ⟨rfl, by simpa using hh b rfl, ?_⟩
      rw [hn b mem_cons_self]
      exact hrest.2.2.frame fun x hx => ⟨hn x (mem_cons_of_mem b hx), hp x hx⟩
  unfold Links.unlink
  rcases eq_nil_or_concat' l₁ with rfl | ⟨l₀, q, rfl⟩
  · have hp : s.prev a = none := hprev
    simp only [hp, hnext]
    cases l₂ with
    | nil => rfl
    | cons b l₂ =>
      refine hback _ (fun _ _ => rfl) (fun x hx => ?_) (fun c hc => ?_)
      · simp [show x ≠ b by grind]
      · obtain rfl : b = c := by simpa using hc
        simp
  · have hp : s.prev a = some q := by simpa using hprev
    have hqa : a ≠ q := by grind
    simp only [hp, hnext, setNext_next, setNext_prev, update_of_ne hqa]
    refine seg_append.mpr ⟨l₂.head?, ?_⟩
    cases l₂ with
    | nil =>
      refine ⟨hl.redirect (by simp) (fun x hx => ?_) (fun _ _ => rfl), rfl⟩
      simp [show x ≠ q by grind]
    | cons b l₂ =>
      refine ⟨hl.redirect (by simp) (fun x hx => ?_) (fun x hx => ?_),
        hback _ (fun x hx => ?_) (fun x hx => ?_) (fun c hc => ?_)⟩
      · simp [show x ≠ q by grind]
      · simp [show x ≠ b by grind]
      · simp [show x ≠ q by grind]
      · simp [show x ≠ b by grind]
      · obtain rfl : b = c := by simpa using hc
        simp

end Avb4Linux.Lib.DoublyLinked
