import Mathlib.Data.List.Nodup
import Mathlib.Data.List.Basic
import Mathlib.Logic.Function.Basic

/-!
# Singly linked queues

A queue is a head pointer and a map of next pointers; `Chain` relates it to the list of its
cells.
-/

namespace Avb4Linux.Lib.LinkedQueue

open List Function

variable {α : Type} [DecidableEq α]

structure Queue (α : Type) where
  head : Option α
  next : α → Option α

inductive Chain (next : α → Option α) : Option α → List α → Prop
  | nil : Chain next none []
  | cons {a l} : Chain next (next a) l → Chain next (some a) (a :: l)

variable {p : Option α} {a r : α} {l : List α} {n : Nat}

omit [DecidableEq α] in
theorem chain_cons_iff {next : α → Option α} :
    Chain next p (a :: l) ↔ p = some a ∧ Chain next (next a) l := by
  constructor
  · intro h
    cases h with
    | cons h => exact ⟨rfl, h⟩
  · rintro ⟨rfl, h⟩
    exact .cons h

omit [DecidableEq α] in
theorem Chain.unique {next : α → Option α} {l' : List α} (h : Chain next p l)
    (h' : Chain next p l') : l = l' := by
  induction h generalizing l' with
  | nil =>
    cases h'
    rfl
  | cons _ ih =>
    cases h' with
    | cons h' => rw [ih h']

omit [DecidableEq α] in
theorem Chain.of_append {next : α → Option α} {l₁ l₂ : List α} (h : Chain next p (l₁ ++ a :: l₂)) :
    Chain next (some a) (a :: l₂) := by
  induction l₁ generalizing p with
  | nil =>
    obtain ⟨rfl, hnext⟩ := chain_cons_iff.mp h
    exact .cons hnext
  | cons b l₁ ih => exact ih (chain_cons_iff.mp h).2

omit [DecidableEq α] in
theorem Chain.nodup {next : α → Option α} (h : Chain next p l) : l.Nodup := by
  induction h with
  | nil => exact nodup_nil
  | @cons a l h ih =>
    refine nodup_cons.mpr ⟨fun hmem => ?_, ih⟩
    -- a second visit would start the same list of cells, one shorter
    obtain ⟨l₁, l₂, rfl⟩ := append_of_mem hmem
    have hsame := Chain.unique (of_append h) (.cons h)
    grind

theorem Chain.update_of_not_mem {next : α → Option α} {v : Option α} (h : Chain next p l)
    (ha : a ∉ l) : Chain (Function.update next a v) p l := by
  induction h with
  | nil => exact .nil
  | @cons b l h ih =>
    have hne : b ≠ a := fun hba => ha (hba ▸ mem_cons_self)
    refine .cons ?_
    grind

def follow (next : α → Option α) : Nat → Option α → List α
  | 0, _ => []
  | _ + 1, none => []
  | n + 1, some a => a :: follow next n (next a)

omit [DecidableEq α] in
theorem Chain.follow_eq {next : α → Option α} (h : Chain next p l) (hn : l.length ≤ n) :
    follow next n p = l := by
  induction h generalizing n with
  | nil => cases n <;> rfl
  | cons h ih =>
    obtain ⟨n, rfl⟩ : ∃ m, n = m + 1 := ⟨n - 1, by rw [length_cons] at hn; omega⟩
    rw [follow, ih (Nat.le_of_succ_le_succ hn)]

def cellBefore (next : α → Option α) (r : α) : Nat → α → Option α
  | 0, _ => none
  | n + 1, prev =>
    match next prev with
    | none => none
    | some rp => if rp = r then some prev else cellBefore next r n rp

def unlink (fuel : Nat) (r : α) (q : Queue α) : Queue α :=
  match q.head with
  | none => q
  | some h =>
    if h = r then { q with head := q.next r }
    else
      match cellBefore q.next r fuel h with
      | none => q
      | some prev =>
        { q with next := Function.update (Function.update q.next prev (q.next r)) r none }

theorem cellBefore_eq_none {next : α → Option α} (h : Chain next (some a) (a :: l)) (hr : r ∉ l) :
    cellBefore next r n a = none := by
  induction n generalizing a l with
  | zero => rfl
  | succ n ih =>
    obtain ⟨-, h⟩ := chain_cons_iff.mp h
    rw [cellBefore]
    cases l with
    | nil =>
      cases hnext : next a with
      | none => rfl
      | some b =>
        rw [hnext] at h
        cases h
    | cons b l =>
      obtain ⟨hnext, h⟩ := chain_cons_iff.mp h
      grind

theorem cellBefore_spec {next : α → Option α} (h : Chain next (some a) (a :: l)) (hr : r ∈ l)
    (hra : r ≠ a) (hn : l.length ≤ n) :
    ∃ prev, cellBefore next r n a = some prev ∧ prev ∈ a :: l ∧ prev ≠ r ∧
      Chain (Function.update next prev (next r)) (some a) (a :: l.erase r) := by
  induction n generalizing a l with
  | zero =>
    have := length_pos_of_mem hr
    omega
  | succ n ih =>
    have hnodup := h.nodup
    obtain ⟨-, h⟩ := chain_cons_iff.mp h
    cases l with
    | nil => cases hr
    | cons b l =>
      obtain ⟨hnext, h⟩ := chain_cons_iff.mp h
      rw [cellBefore, hnext]
      dsimp only
      by_cases hbr : b = r
      · subst hbr
        rw [if_pos rfl, erase_cons_head]
        refine ⟨a, rfl, mem_cons_self, Ne.symm hra, .cons ?_⟩
        rw [update_self]
        have ha : a ∉ l := fun hmem =>
          (nodup_cons.mp hnodup).1 (mem_cons_of_mem _ hmem)
        exact h.update_of_not_mem ha
      · rw [if_neg hbr]
        have hrl : r ∈ l := (mem_cons.mp hr).resolve_left (Ne.symm hbr)
        obtain ⟨prev, hprev, hmem, hne, hchain⟩ :=
          ih (.cons h) hrl (Ne.symm hbr) (Nat.le_of_succ_le_succ hn)
        refine ⟨prev, hprev, mem_cons_of_mem _ hmem, hne, .cons ?_⟩
        grind

theorem unlink_chain {q : Queue α} (h : Chain q.next q.head l) (hn : l.length ≤ n) :
    Chain (unlink n r q).next (unlink n r q).head (l.erase r) := by
  unfold unlink
  cases hhead : q.head with
  | none =>
    rw [hhead] at h
    cases h
    dsimp only
    rw [hhead]
    exact .nil
  | some a =>
    rw [hhead] at h
    cases h with
    | @cons _ l h =>
      dsimp only
      by_cases har : a = r
      · grind
      · rw [if_neg har, erase_cons_tail (by simpa using har)]
        by_cases hr : r ∈ l
        · obtain ⟨prev, hprev, -, -, hchain⟩ :=
            cellBefore_spec (.cons h) hr (Ne.symm har) (Nat.le_of_succ_le hn)
          rw [hprev]
          dsimp only
          have hnodup := (Chain.cons h).nodup
          grind [Chain.update_of_not_mem]
        · rw [cellBefore_eq_none (.cons h) hr, erase_of_not_mem hr]
          dsimp only
          rw [hhead]
          exact .cons h

def lastBefore (next : α → Option α) (before : α → Bool) : Nat → α → α
  | 0, rp => rp
  | n + 1, rp =>
    match next rp with
    | none => rp
    | some s => if before s then lastBefore next before n s else rp

def insert (fuel : Nat) (before : α → Bool) (r : α) (q : Queue α) : Queue α :=
  match q.head with
  | none => ⟨some r, Function.update q.next r none⟩
  | some h =>
    if before h then
      let rp := lastBefore q.next before fuel h
      { q with next := Function.update (Function.update q.next r (q.next rp)) rp (some r) }
    else ⟨some r, Function.update q.next r (some h)⟩

def insertList (before : α → Bool) (r : α) (l : List α) : List α :=
  l.takeWhile before ++ r :: l.dropWhile before

omit [DecidableEq α] in
theorem insertList_cons_of_pos {before : α → Bool} (h : before a = true) :
    insertList before r (a :: l) = a :: insertList before r l := by
  simp [insertList, h]

theorem lastBefore_spec {next : α → Option α} {before : α → Bool}
    (h : Chain next (some a) (a :: l)) (hr : r ∉ a :: l) (hn : l.length ≤ n) :
    lastBefore next before n a ∈ a :: l ∧
      Chain (Function.update (Function.update next r (next (lastBefore next before n a)))
        (lastBefore next before n a) (some r)) (some a) (a :: insertList before r l) := by
  induction n generalizing a l with
  | zero =>
    obtain rfl := eq_nil_of_length_eq_zero (Nat.le_zero.mp hn)
    obtain ⟨-, h⟩ := chain_cons_iff.mp h
    have hra : r ≠ a := fun hra => hr (hra ▸ mem_cons_self)
    refine ⟨mem_cons_self, .cons ?_⟩
    rw [lastBefore, update_self]
    refine .cons ?_
    rw [update_of_ne hra, update_self]
    cases hnext : next a with
    | none => exact .nil
    | some b =>
      rw [hnext] at h
      cases h
  | succ n ih =>
    have hnodup := h.nodup
    obtain ⟨-, h⟩ := chain_cons_iff.mp h
    have hra : r ≠ a := fun hra => hr (hra ▸ mem_cons_self)
    cases l with
    | nil =>
      have hnext : next a = none := by
        cases hnext : next a with
        | none => rfl
        | some b =>
          rw [hnext] at h
          cases h
      rw [lastBefore, hnext]
      grind
    | cons b l =>
      obtain ⟨hnext, h⟩ := chain_cons_iff.mp h
      rw [lastBefore, hnext]
      dsimp only
      by_cases hb : before b = true
      · rw [if_pos hb, insertList_cons_of_pos hb]
        have hrl : r ∉ b :: l := fun hmem => hr (mem_cons_of_mem _ hmem)
        obtain ⟨hmem, hchain⟩ := ih (.cons h) hrl (Nat.le_of_succ_le_succ hn)
        refine ⟨mem_cons_of_mem _ hmem, .cons ?_⟩
        have hne : a ≠ lastBefore next before n b := by
          intro hab
          exact (nodup_cons.mp hnodup).1 (hab ▸ hmem)
        rw [update_of_ne hne, update_of_ne (Ne.symm hra), hnext]
        exact hchain
      · rw [if_neg hb]
        refine ⟨mem_cons_self, .cons ?_⟩
        have hstop : insertList before r (b :: l) = r :: b :: l := by simp [insertList, hb]
        rw [hstop, update_self]
        refine .cons ?_
        have ha : a ∉ b :: l := (nodup_cons.mp hnodup).1
        have hrl : r ∉ b :: l := fun hmem => hr (mem_cons_of_mem _ hmem)
        rw [update_of_ne hra, update_self, hnext]
        exact ((Chain.cons h).update_of_not_mem hrl).update_of_not_mem ha

theorem insert_chain {q : Queue α} {before : α → Bool} (h : Chain q.next q.head l) (hr : r ∉ l)
    (hn : l.length ≤ n) :
    Chain (insert n before r q).next (insert n before r q).head (insertList before r l) := by
  unfold insert
  cases hhead : q.head with
  | none =>
    rw [hhead] at h
    cases h
    dsimp only
    refine .cons ?_
    rw [update_self]
    exact .nil
  | some a =>
    rw [hhead] at h
    cases h with
    | @cons _ l h =>
      dsimp only
      by_cases ha : before a = true
      · rw [if_pos ha, insertList_cons_of_pos ha]
        exact (lastBefore_spec (.cons h) hr (Nat.le_of_succ_le hn)).2
      · rw [if_neg ha]
        have hstop : insertList before r (a :: l) = r :: a :: l := by simp [insertList, ha]
        rw [hstop]
        refine .cons ?_
        dsimp only
        rw [update_self]
        exact (Chain.cons h).update_of_not_mem hr

omit [DecidableEq α] in
theorem mem_insertList {before : α → Bool} : a ∈ insertList before r l ↔ a = r ∨ a ∈ l := by
  have hsplit : a ∈ l ↔ a ∈ l.takeWhile before ∨ a ∈ l.dropWhile before := by
    rw [← mem_append, takeWhile_append_dropWhile]
  rw [insertList, mem_append, mem_cons, hsplit]
  tauto

omit [DecidableEq α] in
omit [DecidableEq α] in
theorem pairwise_insertList {le : α → α → Prop} (trans : ∀ a b c, le a b → le b c → le a c)
    (total : ∀ a b, le a b ∨ le b a) {before : α → Bool} (hbefore : ∀ a, before a = true ↔ le a r)
    (h : l.Pairwise le) : (insertList before r l).Pairwise le := by
  induction l with
  | nil => simp [insertList]
  | cons a l ih =>
    obtain ⟨hal, hl⟩ := pairwise_cons.mp h
    by_cases ha : before a = true
    · rw [insertList_cons_of_pos ha]
      refine pairwise_cons.mpr ⟨fun b hb => ?_, ih hl⟩
      grind [mem_insertList]
    · have hstop : insertList before r (a :: l) = r :: a :: l := by simp [insertList, ha]
      rw [hstop]
      have hra : le r a := (total a r).resolve_left fun h => ha ((hbefore a).mpr h)
      refine pairwise_cons.mpr ⟨fun b hb => ?_, h⟩
      grind

end Avb4Linux.Lib.LinkedQueue
