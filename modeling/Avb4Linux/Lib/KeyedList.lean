import Mathlib.Data.List.Nodup
import Mathlib.Tactic.Common

/-!
# Lists as finite maps

A list whose elements carry distinct keys represents a finite map; the operations of a linked
list act on it key by key.
-/

namespace Avb4Linux.Lib.KeyedList

open List

variable {α K : Type} (key : α → K)

def Unique (l : List α) : Prop :=
  (l.map key).Nodup

variable {key}

variable {l : List α} {k : K} {a : α}

theorem unique_map {f : α → α} (hf : ∀ a, key (f a) = key a) (hu : Unique key l) :
    Unique key (l.map f) := by
  grind [Unique]

theorem unique_filter (hu : Unique key l) (p : α → Bool) : Unique key (l.filter p) :=
  List.Nodup.sublist (List.Sublist.map key List.filter_sublist) hu

variable (key) [DecidableEq K]

def get (l : List α) (k : K) : Option α :=
  l.find? fun a => key a = k

def update (k : K) (f : α → Option α) : List α → List α
  | [] => []
  | a :: tl =>
    if key a = k then
      match f a with
      | none => tl
      | some a' => a' :: tl
    else a :: update k f tl

variable {key}

theorem get_cons (a : α) (l : List α) (k : K) :
    get key (a :: l) k = if key a = k then some a else get key l k := by
  unfold get
  by_cases h : key a = k <;> simp [h]

theorem get_eq_none : get key l k = none ↔ ∀ a ∈ l, key a ≠ k := by
  simp [get]

theorem mem_of_get (h : get key l k = some a) : a ∈ l :=
  List.mem_of_find?_eq_some h

theorem key_of_get (h : get key l k = some a) : key a = k := by
  simpa using List.find?_some h

theorem get_of_mem (hu : Unique key l) (ha : a ∈ l) : get key l (key a) = some a := by
  induction l with
  | nil => simp at ha
  | cons b tl ih =>
    obtain ⟨hb, htl⟩ := nodup_cons.mp hu
    rw [get_cons]
    rcases mem_cons.mp ha with rfl | hmem
    · simp
    · have hne : key b ≠ key a := by
        intro h
        exact hb (h ▸ mem_map_of_mem hmem)
      rw [if_neg hne]
      exact ih htl hmem

theorem get_map {f : α → α} (hf : ∀ a, key (f a) = key a) (l : List α) (k : K) :
    get key (l.map f) k = (get key l k).map f := by
  induction l with
  | nil => rfl
  | cons a tl ih =>
    rw [map_cons, get_cons, get_cons, hf, ih]
    split <;> rfl

theorem get_filter (hu : Unique key l) (p : α → Bool) (k : K) :
    get key (l.filter p) k = (get key l k).filter p := by
  induction l with
  | nil => rfl
  | cons a tl ih =>
    obtain ⟨ha, htl⟩ := nodup_cons.mp hu
    rw [get_cons, filter_cons]
    by_cases hk : key a = k
    · grind [get, get_eq_none, get_cons, Option.filter]
    · by_cases hp : p a = true <;> simp [hk, hp, get_cons, ih htl]

theorem filter_key (hu : Unique key l) (k : K) :
    l.filter (fun a => key a = k) = (get key l k).toList := by
  induction l with
  | nil => rfl
  | cons a tl ih =>
    obtain ⟨ha, htl⟩ := nodup_cons.mp hu
    rw [filter_cons, get_cons, ih htl]
    grind [get, get_eq_none]

theorem get_insert (l₁ l₂ : List α) (r : α) (k : K)
    (hr : get key (l₁ ++ l₂) (key r) = none) :
    get key (l₁ ++ r :: l₂) k = if key r = k then some r else get key (l₁ ++ l₂) k := by
  induction l₁ with
  | nil => exact get_cons r l₂ k
  | cons a tl ih =>
    grind [get_cons]

theorem unique_insert {l₁ l₂ : List α} {r : α} (hu : Unique key (l₁ ++ l₂))
    (hr : get key (l₁ ++ l₂) (key r) = none) : Unique key (l₁ ++ r :: l₂) := by
  grind [Unique, get_eq_none]

theorem get_update (hu : Unique key l) (k : K) {f : α → Option α}
    (hf : ∀ a a', key a = k → f a = some a' → key a' = k) (k' : K) :
    get key (update key k f l) k' =
      if k' = k then (get key l k).bind f else get key l k' := by
  induction l with
  | nil => simp [update, get]
  | cons a tl ih =>
    obtain ⟨ha, htl⟩ := nodup_cons.mp hu
    unfold update
    by_cases hk : key a = k
    · have hnone : get key tl k = none := by
        rw [get_eq_none]
        grind
      rw [if_pos hk, get_cons, if_pos hk]
      cases hfa : f a with
      | none =>
        by_cases hk' : k' = k
        · subst hk'
          simp [hnone, hfa]
        · have hne : key a ≠ k' := fun h => hk' (h.symm.trans hk)
          simp [hk', get_cons, hne]
      | some a' =>
        have hkey : key a' = k := hf a a' hk hfa
        by_cases hk' : k' = k
        · subst hk'
          simp [get_cons, hkey, hfa]
        · have hne : key a ≠ k' := fun h => hk' (h.symm.trans hk)
          have hne' : k ≠ k' := fun h => hk' h.symm
          simp [hk', get_cons, hne, hkey, hne']
    · rw [if_neg hk, get_cons, ih htl, get_cons, get_cons, if_neg hk]
      grind

theorem unique_update (hu : Unique key l) (k : K) {f : α → Option α}
    (hf : ∀ a a', key a = k → f a = some a' → key a' = k) : Unique key (update key k f l) := by
  induction l with
  | nil => exact hu
  | cons a tl ih =>
    obtain ⟨ha, htl⟩ := nodup_cons.mp hu
    unfold update
    by_cases hk : key a = k
    · rw [if_pos hk]
      cases hfa : f a with
      | none => exact htl
      | some a' =>
        have hkey : key a' = key a := (hf a a' hk hfa).trans hk.symm
        exact nodup_cons.mpr ⟨hkey ▸ ha, htl⟩
    · rw [if_neg hk]
      refine nodup_cons.mpr ⟨?_, ih htl⟩
      intro hmem
      obtain ⟨b, hb, hbk⟩ := mem_map.mp hmem
      have hget := get_of_mem (ih htl) hb
      rw [get_update htl k hf, hbk, if_neg hk] at hget
      exact ha (key_of_get hget ▸ mem_map_of_mem (mem_of_get hget))

end Avb4Linux.Lib.KeyedList
