import Mathlib.Algebra.Order.BigOperators.Group.List
import Mathlib.Algebra.Order.Group.Nat
import Mathlib.Data.List.Basic
import Mathlib.Data.List.Pairwise
import Mathlib.Logic.Function.Basic

/-!
# Lists grouped by type

The elements of one type are together and in order within the type, by some ranking of the
types.
-/

namespace Avb4Linux.Lib.Groups

open List

variable {V T : Type} (type : V → T) (before : V → V → Prop)

def Contiguous (l : List V) : Prop :=
  ∀ l₁ a l₂ b l₃, l = l₁ ++ a :: (l₂ ++ b :: l₃) → type a = type b → ∀ x ∈ l₂, type x = type a

def SortedWithin (l : List V) : Prop :=
  l.Pairwise fun a b => type a = type b → before a b

def Precedes (rank : T → Nat) (a b : V) : Prop :=
  rank (type a) < rank (type b) ∨ type a = type b ∧ before a b

def Arranged (l : List V) : Prop :=
  ∃ rank : T → Nat, l.Pairwise (Precedes type before rank)

/-- An element of another type `t` fits in place of `x`: beside the elements of type
`t` if there are any, and otherwise at an end of `x`'s own group. -/
def Fits (l₁ : List V) (x : V) (t : T) (l₂ : List V) : Prop :=
  (∃ y, l₁.getLast? = some y ∧ type y = t ∧ before y x) ∨
    (∃ y, l₂.head? = some y ∧ type y = t ∧ before x y) ∨
    (∀ y ∈ l₁ ++ l₂, type y ≠ t) ∧
      ((∀ y ∈ l₁, type y ≠ type x) ∨ ∀ y ∈ l₂, type y ≠ type x)

variable {type before} {l l₁ l₂ : List V} {r x x' : V}

theorem Arranged.contiguous (h : Arranged type before l) : Contiguous type l := by
  obtain ⟨rank, h⟩ := h
  rintro l₁ a l₂ b l₃ rfl hab x hx
  have htail := (pairwise_append.mp h).2.1
  have hax := (pairwise_cons.mp htail).1 x (by simp [hx])
  have hxb := (pairwise_append.mp (pairwise_cons.mp htail).2).2.2 x hx b (by simp)
  rcases hax with hlt | ⟨heq, -⟩
  · rcases hxb with hlt' | ⟨heq, -⟩
    · rw [hab] at hlt
      omega
    · exact heq.trans hab.symm
  · exact heq.symm

theorem Arranged.sortedWithin (h : Arranged type before l) : SortedWithin type before l := by
  obtain ⟨rank, h⟩ := h
  refine h.imp fun {a b} hab heq => ?_
  rcases hab with hlt | ⟨-, hbefore⟩
  · rw [heq] at hlt
    omega
  · exact hbefore

theorem Arranged.sublist (h : Arranged type before l) (hsub : l₁ <+ l) :
    Arranged type before l₁ := by
  obtain ⟨rank, h⟩ := h
  exact ⟨rank, h.sublist hsub⟩

theorem arranged_nil : Arranged type before [] :=
  ⟨fun _ => 0, Pairwise.nil⟩

theorem Arranged.concat [DecidableEq T] (h : Arranged type before l)
    (hnew : ∀ a ∈ l, type a ≠ type r) : Arranged type before (l ++ [r]) := by
  obtain ⟨rank, h⟩ := h
  -- the new type is ranked above those there are
  obtain ⟨n, hn⟩ : ∃ n, ∀ a ∈ l, rank (type a) < n := by
    refine ⟨(l.map fun a => rank (type a)).sum + 1, fun a ha => ?_⟩
    exact Nat.lt_succ_of_le (single_le_sum (by simp) _ (mem_map_of_mem ha))
  refine ⟨Function.update rank (type r) n, pairwise_append.mpr ⟨?_, pairwise_singleton _ _, ?_⟩⟩
  · refine h.imp_of_mem fun {a b} ha hb hab => ?_
    rcases hab with hlt | hsame
    · exact Or.inl (by simpa [hnew a ha, hnew b hb] using hlt)
    · exact Or.inr hsame
  · intro a ha b hb
    obtain rfl := mem_singleton.mp hb
    exact Or.inl (by simpa [hnew a ha] using hn a ha)

variable (htrans : ∀ a b c, before a b → before b c → before a c)

section

variable {rank rank' : T → Nat}

theorem Arranged.of_replace (rank' : T → Nat)
    (h : (l₁ ++ x :: l₂).Pairwise (Precedes type before rank))
    (hkeep : ∀ a ∈ l₁ ++ l₂, ∀ b ∈ l₁ ++ l₂, Precedes type before rank a b →
      Precedes type before rank' a b)
    (hleft : ∀ y ∈ l₁, Precedes type before rank' y x')
    (hright : ∀ y ∈ l₂, Precedes type before rank' x' y) :
    Arranged type before (l₁ ++ x' :: l₂) := by
  obtain ⟨h₁, h₂, h₁₂⟩ := pairwise_append.mp h
  obtain ⟨-, h₂⟩ := pairwise_cons.mp h₂
  refine ⟨rank', pairwise_append.mpr ⟨?_, pairwise_cons.mpr ⟨hright, ?_⟩, ?_⟩⟩
  · exact h₁.imp_of_mem fun ha hb hab => hkeep _ (by simp [ha]) _ (by simp [hb]) hab
  · exact h₂.imp_of_mem fun ha hb hab => hkeep _ (by simp [ha]) _ (by simp [hb]) hab
  · grind

end

include htrans in
theorem Arranged.retype [DecidableEq T] (h : Arranged type before (l₁ ++ x :: l₂))
    (hl : ∀ y, before y x → before y x') (hr : ∀ y, before x y → before x' y)
    (hne : type x ≠ type x') (hfit : Fits type before l₁ x (type x') l₂) :
    Arranged type before (l₁ ++ x' :: l₂) := by
  have hcont := h.contiguous
  obtain ⟨rank, h⟩ := h
  obtain ⟨h₁, h₂, h₁₂⟩ := pairwise_append.mp h
  obtain ⟨hx₂, -⟩ := pairwise_cons.mp h₂
  rcases hfit with ⟨y, hy, hty, hyx⟩ | ⟨y, hy, hty, hxy⟩ | ⟨hno, hend⟩
  · -- the group of the new type ends right before the element
    obtain ⟨l₀, rfl⟩ := getLast?_eq_some_iff.mp hy
    refine Arranged.of_replace rank h (fun _ _ _ _ hab => hab) (fun z hz => ?_) (fun z hz => ?_)
    · rcases mem_append.mp hz with hz | hz
      · rcases (pairwise_append.mp h₁).2.2 z hz y (by simp) with hlt | ⟨heq, hzy⟩
        · exact Or.inl (by rwa [← hty])
        · exact Or.inr ⟨heq.trans hty, hl z (htrans z y x hzy hyx)⟩
      · obtain rfl := mem_singleton.mp hz
        exact Or.inr ⟨hty, hl z hyx⟩
    · rcases h₁₂ y (by simp) z (by simp [hz]) with hlt | ⟨heq, -⟩
      · exact Or.inl (by rwa [← hty])
      · obtain ⟨m₁, m₂, rfl⟩ := append_of_mem hz
        have hsame := hcont l₀ y (x :: m₁) z m₂ (by simp) heq x (by simp)
        exact absurd (hsame.trans hty) hne
  · -- it begins right behind it
    obtain ⟨m, rfl⟩ : ∃ m, l₂ = y :: m := by
      cases l₂ with
      | nil => simp at hy
      | cons b m => exact ⟨m, by simpa using hy⟩
    refine Arranged.of_replace rank h (fun _ _ _ _ hab => hab) (fun z hz => ?_) (fun z hz => ?_)
    · rcases h₁₂ z hz y (by simp) with hlt | ⟨heq, -⟩
      · exact Or.inl (by rwa [← hty])
      · obtain ⟨m₁, m₂, rfl⟩ := append_of_mem hz
        have hsame := hcont m₁ z (m₂ ++ [x]) y m (by simp) heq x (by simp)
        exact absurd (hsame.trans (heq.trans hty)) hne
    · rcases mem_cons.mp hz with rfl | hz
      · exact Or.inr ⟨hty.symm, hr z hxy⟩
      · rcases (pairwise_cons.mp (pairwise_cons.mp h₂).2).1 z hz with hlt | ⟨heq, hyz⟩
        · exact Or.inl (by rwa [← hty])
        · exact Or.inr ⟨hty.symm.trans heq, hr z (htrans x y z hxy hyz)⟩
  · -- the new type is ranked beside the old one, on the side the element is at
    have hl₁ (z : V) (hz : z ∈ l₁) : rank (type z) < rank (type x) ∨ type z = type x :=
      (h₁₂ z hz x (by simp)).imp_right And.left
    have hl₂ (z : V) (hz : z ∈ l₂) : rank (type x) < rank (type z) ∨ type x = type z :=
      (hx₂ z hz).imp_right And.left
    rcases hend with hend | hend
    · refine Arranged.of_replace (fun t => if t = type x' then 2 * rank (type x)
        else 2 * rank t + 1) h (fun a ha b hb hab => ?_) (fun z hz => ?_) (fun z hz => ?_)
      · exact hab.imp_left fun hlt => by simp only [if_neg (hno a ha), if_neg (hno b hb)]; omega
      · have hlt := (hl₁ z hz).resolve_right (hend z hz)
        exact Or.inl (by simp only [if_neg (hno z (by simp [hz])), if_true]; omega)
      · refine Or.inl ?_
        grind
    · refine Arranged.of_replace (fun t => if t = type x' then 2 * rank (type x) + 2
        else 2 * rank t + 1) h (fun a ha b hb hab => ?_) (fun z hz => ?_) (fun z hz => ?_)
      · exact hab.imp_left fun hlt => by simp only [if_neg (hno a ha), if_neg (hno b hb)]; omega
      · refine Or.inl ?_
        grind
      · have hlt := (hl₂ z hz).resolve_right fun heq => hend z hz heq.symm
        exact Or.inl (by simp only [if_neg (hno z (by simp [hz])), if_true]; omega)

theorem fits_of_contiguous (hc : Contiguous type (l₁ ++ x' :: l₂))
    (hs : SortedWithin type before (l₁ ++ x' :: l₂)) (hl : ∀ y, before y x' → before y x)
    (hr : ∀ y, before x' y → before x y) (hne : type x ≠ type x') :
    Fits type before l₁ x (type x') l₂ := by
  obtain ⟨-, hs₂, hs₁₂⟩ := pairwise_append.mp hs
  by_cases h₁ : ∃ y ∈ l₁, type y = type x'
  · obtain ⟨y, hy, hty⟩ := h₁
    obtain ⟨l₀, z, rfl⟩ := (eq_nil_or_concat' l₁).resolve_left (ne_nil_of_mem hy)
    have htz : type z = type x' := by
      rcases mem_append.mp hy with hy | hy
      · obtain ⟨m₁, m₂, rfl⟩ := append_of_mem hy
        exact (hc m₁ y (m₂ ++ [z]) x' l₂ (by simp) hty z (by simp)).trans hty
      · rwa [mem_singleton.mp hy] at hty
    exact Or.inl ⟨z, by simp, htz, hl z (hs₁₂ z (by simp) x' (by simp) htz)⟩
  by_cases h₂ : ∃ y ∈ l₂, type y = type x'
  · obtain ⟨y, hy, hty⟩ := h₂
    cases l₂ with
    | nil => simp at hy
    | cons z m =>
      have htz : type x' = type z := by
        rcases mem_cons.mp hy with rfl | hy
        · exact hty.symm
        · obtain ⟨m₁, m₂, rfl⟩ := append_of_mem hy
          exact (hc l₁ x' (z :: m₁) y m₂ (by simp) hty.symm z (by simp)).symm
      exact Or.inr (Or.inl ⟨z, rfl, htz.symm, hr z ((pairwise_cons.mp hs₂).1 z (by simp) htz)⟩)
  refine Or.inr (Or.inr ⟨fun y hy hty => ?_, ?_⟩)
  · grind
  · by_contra hboth
    push Not at hboth
    obtain ⟨⟨u, hu, htu⟩, w, hw, htw⟩ := hboth
    obtain ⟨m₁, m₂, rfl⟩ := append_of_mem hu
    obtain ⟨n₁, n₂, rfl⟩ := append_of_mem hw
    have hsame := hc m₁ u (m₂ ++ x' :: n₁) w n₂ (by simp) (htu.trans htw.symm) x' (by simp)
    exact hne (htu.symm.trans hsame.symm)

end Avb4Linux.Lib.Groups
