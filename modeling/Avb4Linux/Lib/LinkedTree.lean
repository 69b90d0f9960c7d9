import Mathlib.Data.List.Nodup
import Mathlib.Data.List.Basic
import Mathlib.Logic.Function.Basic

/-!
# Binary trees with parent pointers

`Heap.Holds` relates cells with a value and three pointers to the shape of the tree they make;
what surrounds a subtree is a `Path` up to the root.
-/

namespace Avb4Linux.Lib.LinkedTree

open List

variable {α : Type}

structure Cell (α : Type) where
  val : α
  parent : Option Nat
  left : Option Nat
  right : Option Nat
  deriving DecidableEq, Repr

structure Heap (α : Type) where
  root : Option Nat
  cell : Nat → Cell α

inductive Shape where
  | nil
  | node (l : Shape) (a : Nat) (r : Shape)
  deriving DecidableEq, Repr

namespace Shape

def root : Shape → Option Nat
  | nil => none
  | node _ a _ => some a

def addrs : Shape → List Nat
  | nil => []
  | node l a r => l.addrs ++ a :: r.addrs

def mirror : Shape → Shape
  | nil => nil
  | node l a r => node r.mirror a l.mirror

@[simp]
theorem root_mirror (t : Shape) : t.mirror.root = t.root := by
  cases t <;> rfl

@[simp]
theorem addrs_mirror (t : Shape) : t.mirror.addrs = t.addrs.reverse := by
  induction t with
  | nil => rfl
  | node l a r ihl ihr => simp [mirror, addrs, ihl, ihr]

theorem root_mem {t : Shape} {a : Nat} (h : t.root = some a) : a ∈ t.addrs := by
  cases t with
  | nil => cases h
  | node l b r =>
    cases h
    simp [addrs]

theorem root_eq_none {t : Shape} : t.root = none ↔ t = nil := by
  cases t <;> simp [root]

end Shape

inductive Path where
  | top
  | left (up : Path) (a : Nat) (r : Shape)
  | right (up : Path) (l : Shape) (a : Nat)

namespace Path

def plug : Path → Shape → Shape
  | top, t => t
  | left up a r, t => up.plug (.node t a r)
  | right up l a, t => up.plug (.node l a t)

def parent : Path → Option Nat
  | top => none
  | left _ a _ => some a
  | right _ _ a => some a

def before : Path → List Nat
  | top => []
  | left up _ _ => up.before
  | right up l a => up.before ++ (l.addrs ++ [a])

def after : Path → List Nat
  | top => []
  | left up a r => (a :: r.addrs) ++ up.after
  | right up _ _ => up.after

theorem addrs_plug (k : Path) (t : Shape) : (k.plug t).addrs = k.before ++ t.addrs ++ k.after := by
  induction k generalizing t with
  | top => simp [plug, before, after]
  | left up a r ih => simp [plug, before, after, ih, Shape.addrs]
  | right up l a ih => simp [plug, before, after, ih, Shape.addrs]

variable {t : Shape}

theorem root_plug_congr (k : Path) {t' : Shape} (h : t.root = t'.root) :
    (k.plug t).root = (k.plug t').root := by
  induction k generalizing t t' with
  | top => exact h
  | left up a r ih => exact ih rfl
  | right up l a ih => exact ih rfl

theorem exists_plug {a : Nat} (h : a ∈ t.addrs) :
    ∃ (k : Path) (l r : Shape), t = k.plug (.node l a r) := by
  suffices hgen : ∀ up : Path, ∃ (k : Path) (l r : Shape), up.plug t = k.plug (.node l a r) from
    hgen top
  induction t with
  | nil => cases h
  | node l b r ihl ihr =>
    intro up
    rw [Shape.addrs, mem_append, mem_cons] at h
    obtain h | rfl | h := h
    · exact ihl h (.left up b r)
    · exact ⟨up, l, r, rfl⟩
    · exact ihr h (.right up l b)

theorem mem_plug_child {k : Path} {l r : Shape} {a : Nat}
    (hnodup : (k.plug (.node l a r)).addrs.Nodup) (ht : l = .nil ∧ t = r ∨ r = .nil ∧ t = l)
    (b : Nat) : b ∈ (k.plug t).addrs ↔ b ∈ (k.plug (.node l a r)).addrs ∧ b ≠ a := by
  have hperm : (k.plug (.node l a r)).addrs.Perm (a :: (k.plug t).addrs) := by
    rw [addrs_plug, addrs_plug]
    obtain ⟨rfl, rfl⟩ | ⟨rfl, rfl⟩ := ht
    · simp [Shape.addrs]
    · simpa [Shape.addrs] using @List.perm_middle _ a (k.before ++ t.addrs) k.after
  grind

def under : Path → Path → Path
  | top, k => k
  | left up a r, k => left (up.under k) a r
  | right up l a, k => right (up.under k) l a

theorem plug_under (j k : Path) (t : Shape) : (j.under k).plug t = k.plug (j.plug t) := by
  induction j generalizing t with
  | top => rfl
  | left up a r ih => exact ih (.node t a r)
  | right up l a ih => exact ih (.node l a t)

end Path

/-! ### Loops -/

def Returns {β : Type} (f : Nat → Option β) (r : β) : Prop :=
  ∃ n, ∀ fuel, n ≤ fuel → f fuel = some r

theorem Returns.unique {β : Type} {f : Nat → Option β} {r r' : β} (h : Returns f r)
    (h' : Returns f r') : r = r' := by
  obtain ⟨n, hn⟩ := h
  obtain ⟨n', hn'⟩ := h'
  have heq := (hn (n + n') (Nat.le_add_right _ _)).symm.trans (hn' (n + n') (Nat.le_add_left _ _))
  exact Option.some.inj heq

/-! ### Linked cells -/

def Linked (cell : Nat → Cell α) (parent : Option Nat) : Shape → Prop
  | .nil => True
  | .node l a r => (cell a).parent = parent ∧ (cell a).left = l.root ∧ (cell a).right = r.root ∧
      Linked cell (some a) l ∧ Linked cell (some a) r

def LinkedPath (cell : Nat → Cell α) : Path → Option Nat → Prop
  | .top, _ => True
  | .left up a r, hole => (cell a).parent = up.parent ∧ (cell a).left = hole ∧
      (cell a).right = r.root ∧ Linked cell (some a) r ∧ LinkedPath cell up (some a)
  | .right up l a, hole => (cell a).parent = up.parent ∧ (cell a).left = l.root ∧
      (cell a).right = hole ∧ Linked cell (some a) l ∧ LinkedPath cell up (some a)

theorem linked_plug_iff {cell : Nat → Cell α} (k : Path) (t : Shape) :
    Linked cell none (k.plug t) ↔ LinkedPath cell k t.root ∧ Linked cell k.parent t := by
  induction k generalizing t with
  | top => simp [Path.plug, LinkedPath, Path.parent]
  | left up a r ih =>
    rw [Path.plug, ih]
    simp only [LinkedPath, Linked, Shape.root, Path.parent]
    tauto
  | right up l a ih =>
    rw [Path.plug, ih]
    simp only [LinkedPath, Linked, Shape.root, Path.parent]
    tauto

structure Cell.SameLinks (x y : Cell α) : Prop where
  parent : y.parent = x.parent
  left : y.left = x.left
  right : y.right = x.right

variable {cell' : Nat → Cell α} {hole hole' p : Option Nat} {l r t : Shape} {k up : Path}
  {a s : Nat}

theorem Linked.congr {cell : Nat → Cell α} (h : Linked cell p t)
    (hsame : ∀ a ∈ t.addrs, (cell a).SameLinks (cell' a)) : Linked cell' p t := by
  induction t generalizing p with
  | nil => trivial
  | node l a r ihl ihr =>
    obtain ⟨hp, hl, hr, hleft, hright⟩ := h
    have ha := hsame a (by simp [Shape.addrs])
    exact ⟨ha.parent.trans hp, ha.left.trans hl, ha.right.trans hr,
      ihl hleft fun b hb => hsame b (by simp [Shape.addrs, hb]),
      ihr hright fun b hb => hsame b (by simp [Shape.addrs, hb])⟩

theorem LinkedPath.congr {cell : Nat → Cell α} (h : LinkedPath cell k hole)
    (hsame : ∀ a ∈ k.before ++ k.after, (cell a).SameLinks (cell' a)) :
    LinkedPath cell' k hole := by
  induction k generalizing hole with
  | top => trivial
  | left up a r ih =>
    obtain ⟨hp, hl, hr, htree, hup⟩ := h
    have ha := hsame a (by simp [Path.after])
    exact ⟨ha.parent.trans hp, ha.left.trans hl, ha.right.trans hr,
      htree.congr fun b hb => hsame b (by simp [Path.after, hb]),
      ih hup fun b hb => hsame b (by
        simp only [Path.before, Path.after, mem_append] at hb ⊢
        tauto)⟩
  | right up l a ih =>
    obtain ⟨hp, hl, hr, htree, hup⟩ := h
    have ha := hsame a (by simp [Path.before])
    exact ⟨ha.parent.trans hp, ha.left.trans hl, ha.right.trans hr,
      htree.congr fun b hb => hsame b (by simp [Path.before, hb]),
      ih hup fun b hb => hsame b (by
        simp only [Path.before, Path.after, mem_append] at hb ⊢
        tauto)⟩

structure Heap.Holds (h : Heap α) (t : Shape) : Prop where
  root : h.root = t.root
  linked : Linked h.cell none t
  nodup : t.addrs.Nodup

inductive Heap.Reaches (h : Heap α) : Nat → Prop
  | root {a : Nat} (heq : h.root = some a) : Heap.Reaches h a
  | left {a b : Nat} (ha : Heap.Reaches h a) (heq : (h.cell a).left = some b) : Heap.Reaches h b
  | right {a b : Nat} (ha : Heap.Reaches h a) (heq : (h.cell a).right = some b) : Heap.Reaches h b

theorem Linked.reaches {h : Heap α} (hl : Linked h.cell p t)
    (hroot : ∀ a, t.root = some a → h.Reaches a) : ∀ a ∈ t.addrs, h.Reaches a := by
  induction t generalizing p with
  | nil => simp [Shape.addrs]
  | node l a r ihl ihr =>
    obtain ⟨-, hleft, hright, hl, hr⟩ := hl
    have ha := hroot a rfl
    intro b hb
    rw [Shape.addrs, mem_append, mem_cons] at hb
    obtain hb | rfl | hb := hb
    · exact ihl hl (fun c hc => .left ha (hleft.trans hc)) b hb
    · exact ha
    · exact ihr hr (fun c hc => .right ha (hright.trans hc)) b hb

theorem Linked.child_mem {cell : Nat → Cell α} (hl : Linked cell p t) {b : Nat} (ha : a ∈ t.addrs)
    (hb : (cell a).left = some b ∨ (cell a).right = some b) : b ∈ t.addrs := by
  induction t generalizing p with
  | nil => cases ha
  | node l c r ihl ihr =>
    obtain ⟨-, hleft, hright, hl, hr⟩ := hl
    grind [Shape.addrs, Shape.root_mem]

theorem Heap.Holds.reaches_iff {h : Heap α} (hh : h.Holds t) : h.Reaches a ↔ a ∈ t.addrs := by
  constructor
  · intro ha
    induction ha with
    | root heq => exact Shape.root_mem (hh.root.symm.trans heq)
    | left _ heq ih => exact hh.linked.child_mem ih (.inl heq)
    | right _ heq ih => exact hh.linked.child_mem ih (.inr heq)
  · exact fun ha => hh.linked.reaches (fun b hb => .root (hh.root.trans hb)) a ha

/-! ### Walking through the cells -/

namespace Heap

def leftmost (h : Heap α) : Nat → Nat → Option Nat
  | 0, _ => none
  | fuel + 1, a =>
    match (h.cell a).left with
    | none => some a
    | some l => h.leftmost fuel l

def rightmost (h : Heap α) : Nat → Nat → Option Nat
  | 0, _ => none
  | fuel + 1, a =>
    match (h.cell a).right with
    | none => some a
    | some r => h.rightmost fuel r

/-- Up from right children, to the first parent that is reached from the left; the inner
`none` is the null pointer. -/
def climbRight (h : Heap α) : Nat → Nat → Option Nat → Option (Option Nat)
  | 0, _, _ => none
  | _ + 1, _, none => some none
  | fuel + 1, child, some p =>
    if some child = (h.cell p).right then h.climbRight fuel p (h.cell p).parent
    else some (some p)

def climbLeft (h : Heap α) : Nat → Nat → Option Nat → Option (Option Nat)
  | 0, _, _ => none
  | _ + 1, _, none => some none
  | fuel + 1, child, some p =>
    if some child = (h.cell p).left then h.climbLeft fuel p (h.cell p).parent
    else some (some p)

def next (h : Heap α) (fuel a : Nat) : Option (Option Nat) :=
  match (h.cell a).right with
  | some r => (h.leftmost fuel r).map some
  | none => h.climbRight fuel a (h.cell a).parent

def prev (h : Heap α) (fuel a : Nat) : Option (Option Nat) :=
  match (h.cell a).left with
  | some l => (h.rightmost fuel l).map some
  | none => h.climbLeft fuel a (h.cell a).parent

variable {a fuel : Nat}

theorem leftmost_eq {h : Heap α} {p : Option Nat} {t : Shape} (hlinked : Linked h.cell p t)
    (hroot : t.root = some a) (hfuel : t.addrs.length ≤ fuel) :
    h.leftmost fuel a = t.addrs.head? := by
  induction t generalizing p a fuel with
  | nil => cases hroot
  | node l b r ihl _ =>
    cases hroot
    obtain ⟨-, hleft, -, hl, -⟩ := hlinked
    simp only [Shape.addrs, length_append, length_cons] at hfuel
    obtain ⟨fuel, rfl⟩ : ∃ n, fuel = n + 1 := ⟨fuel - 1, by omega⟩
    rw [leftmost, hleft]
    cases l with
    | nil => rfl
    | node ll c lr =>
      have hsize : (Shape.node ll c lr).addrs.length ≤ fuel := by omega
      grind [Shape.root, Shape.addrs]

theorem climbRight_eq {h : Heap α} {k : Path} {child : Nat}
    (hlinked : LinkedPath h.cell k (some child)) (hchild : child ∉ k.after)
    (hnodup : (k.before ++ k.after).Nodup) (hfuel : (k.before ++ k.after).length < fuel) :
    h.climbRight fuel child k.parent = some k.after.head? := by
  induction k generalizing child fuel with
  | top =>
    obtain ⟨fuel, rfl⟩ : ∃ n, fuel = n + 1 := ⟨fuel - 1, by omega⟩
    rfl
  | left up a r ih =>
    obtain ⟨fuel, rfl⟩ : ∃ n, fuel = n + 1 := ⟨fuel - 1, by omega⟩
    obtain ⟨-, -, hright, -, -⟩ := hlinked
    grind [Shape.root_mem, Path.after, Path.parent, climbRight]
  | right up l a ih =>
    obtain ⟨fuel, rfl⟩ : ∃ n, fuel = n + 1 := ⟨fuel - 1, by omega⟩
    obtain ⟨hparent, -, hright, -, hup⟩ := hlinked
    simp only [Path.before, Path.after, append_assoc, length_append, length_cons,
      length_nil] at hfuel
    have hsub : (up.before ++ up.after).Sublist
        ((Path.right up l a).before ++ (Path.right up l a).after) :=
      (sublist_append_left up.before (l.addrs ++ [a])).append (List.Sublist.refl up.after)
    have ha : a ∉ up.after := by
      rw [nodup_append] at hnodup
      exact fun hmem => hnodup.2.2 a (by simp [Path.before]) a hmem rfl
    rw [Path.parent, climbRight, if_pos hright.symm, hparent]
    exact ih hup ha (hsub.nodup hnodup) (by rw [length_append]; omega)

theorem Holds.next_eq {h : Heap α} {k : Path} {l r : Shape} (hh : h.Holds (k.plug (.node l a r)))
    (hfuel : (k.plug (.node l a r)).addrs.length ≤ fuel) :
    h.next fuel a = some (r.addrs ++ k.after).head? := by
  obtain ⟨-, hlinked, hnodup⟩ := hh
  obtain ⟨hpath, hparent, -, hright, -, hr⟩ := (linked_plug_iff k _).mp hlinked
  rw [Path.addrs_plug] at hnodup hfuel
  simp only [Shape.addrs, length_append, length_cons] at hfuel
  unfold next
  rw [hright]
  cases r with
  | nil =>
    have hsub : (k.before ++ k.after).Sublist (k.before ++ (Shape.node l a .nil).addrs ++ k.after) :=
      (sublist_append_left _ _).append (List.Sublist.refl _)
    have ha : a ∉ k.after := by
      rw [nodup_append] at hnodup
      exact fun hmem => hnodup.2.2 a (by simp [Shape.addrs]) a hmem rfl
    simp only [Shape.root, hparent]
    exact climbRight_eq hpath ha (hsub.nodup hnodup) (by rw [length_append]; omega)
  | node rl b rr =>
    have hsize : (Shape.node rl b rr).addrs.length ≤ fuel := by omega
    have hdown := leftmost_eq hr rfl hsize
    simp only [Shape.root, hdown, Shape.addrs]
    cases rl.addrs <;> rfl

end Heap

/-! ### The mirror image -/

def Cell.mirror (x : Cell α) : Cell α :=
  { x with left := x.right, right := x.left }

def Heap.mirror (h : Heap α) : Heap α :=
  ⟨h.root, fun a => (h.cell a).mirror⟩

def Path.mirror : Path → Path
  | top => top
  | left up a r => right up.mirror r.mirror a
  | right up l a => left up.mirror a l.mirror

theorem Path.plug_mirror (k : Path) (t : Shape) : k.mirror.plug t.mirror = (k.plug t).mirror := by
  induction k generalizing t with
  | top => rfl
  | left up a r ih => exact ih (.node t a r)
  | right up l a ih => exact ih (.node l a t)

theorem Path.after_mirror (k : Path) : k.mirror.after = k.before.reverse := by
  induction k with
  | top => rfl
  | left up a r ih => simpa [mirror, before, after] using ih
  | right up l a ih => simp [mirror, before, after, ih]

theorem Linked.mirror {h : Heap α} (hl : Linked h.cell p t) : Linked h.mirror.cell p t.mirror := by
  induction t generalizing p with
  | nil => trivial
  | node l a r ihl ihr =>
    obtain ⟨hp, hleft, hright, hl, hr⟩ := hl
    exact ⟨hp, by simp [Heap.mirror, Cell.mirror, hright], by simp [Heap.mirror, Cell.mirror, hleft],
      ihr hr, ihl hl⟩

theorem Heap.Holds.mirror {h : Heap α} (hh : h.Holds t) : h.mirror.Holds t.mirror where
  root := by simpa [Heap.mirror] using hh.root
  linked := hh.linked.mirror
  nodup := by simpa using hh.nodup

theorem Heap.rightmost_eq_mirror (h : Heap α) (fuel a : Nat) :
    h.rightmost fuel a = h.mirror.leftmost fuel a := by
  induction fuel generalizing a with
  | zero => rfl
  | succ fuel ih =>
    grind [rightmost, leftmost, mirror, Cell.mirror]

theorem Heap.climbLeft_eq_mirror (h : Heap α) (fuel child : Nat) (p : Option Nat) :
    h.climbLeft fuel child p = h.mirror.climbRight fuel child p := by
  induction fuel generalizing child p with
  | zero => rfl
  | succ fuel ih =>
    cases p with
    | none => rfl
    | some p =>
      rw [climbLeft, climbRight, ih]
      rfl

theorem Heap.prev_eq_mirror (h : Heap α) (fuel a : Nat) : h.prev fuel a = h.mirror.next fuel a := by
  grind [prev, next, mirror, Cell.mirror, climbLeft_eq_mirror, rightmost_eq_mirror]

theorem Heap.Holds.prev_eq {h : Heap α} {fuel : Nat} (hh : h.Holds (k.plug (.node l a r)))
    (hfuel : (k.plug (.node l a r)).addrs.length ≤ fuel) :
    h.prev fuel a = some (k.before ++ l.addrs).getLast? := by
  have hm := hh.mirror
  rw [← Path.plug_mirror] at hm
  have hlen : (k.mirror.plug (Shape.node l a r).mirror).addrs.length ≤ fuel := by
    rw [Path.plug_mirror, Shape.addrs_mirror, length_reverse]
    exact hfuel
  rw [h.prev_eq_mirror, Heap.Holds.next_eq hm hlen, Path.after_mirror, Shape.addrs_mirror,
    ← reverse_append, List.head?_reverse]

/-! ### Writes -/

namespace Heap

def setParent (h : Heap α) (a : Nat) (p : Option Nat) : Heap α :=
  { h with cell := Function.update h.cell a { h.cell a with parent := p } }

def setLeft (h : Heap α) (a : Nat) (l : Option Nat) : Heap α :=
  { h with cell := Function.update h.cell a { h.cell a with left := l } }

def setRight (h : Heap α) (a : Nat) (r : Option Nat) : Heap α :=
  { h with cell := Function.update h.cell a { h.cell a with right := r } }

@[simp]
theorem setParent_self (h : Heap α) (a : Nat) (p : Option Nat) :
    (h.setParent a p).cell a = { h.cell a with parent := p } :=
  Function.update_self ..

@[simp]
theorem setLeft_self (h : Heap α) (a : Nat) (l : Option Nat) :
    (h.setLeft a l).cell a = { h.cell a with left := l } :=
  Function.update_self ..

@[simp]
theorem setRight_self (h : Heap α) (a : Nat) (r : Option Nat) :
    (h.setRight a r).cell a = { h.cell a with right := r } :=
  Function.update_self ..

variable {a b : Nat}

theorem setParent_of_ne (h : Heap α) (p : Option Nat) (hb : b ≠ a) :
    (h.setParent a p).cell b = h.cell b :=
  Function.update_of_ne hb ..

theorem setLeft_of_ne (h : Heap α) (l : Option Nat) (hb : b ≠ a) :
    (h.setLeft a l).cell b = h.cell b :=
  Function.update_of_ne hb ..

theorem setRight_of_ne (h : Heap α) (r : Option Nat) (hb : b ≠ a) :
    (h.setRight a r).cell b = h.cell b :=
  Function.update_of_ne hb ..

def setVal (h : Heap α) (a : Nat) (v : α) : Heap α :=
  { h with cell := Function.update h.cell a { h.cell a with val := v } }

@[simp]
theorem setVal_self (h : Heap α) (a : Nat) (v : α) :
    (h.setVal a v).cell a = { h.cell a with val := v } :=
  Function.update_self ..

theorem setVal_of_ne (h : Heap α) (v : α) (hb : b ≠ a) : (h.setVal a v).cell b = h.cell b :=
  Function.update_of_ne hb ..

theorem setVal_sameLinks (h : Heap α) (a b : Nat) (v : α) :
    (h.cell b).SameLinks ((h.setVal a v).cell b) := by
  by_cases hb : b = a
  · subst hb
    rw [setVal_self]
    exact ⟨rfl, rfl, rfl⟩
  · rw [setVal_of_ne h v hb]
    exact ⟨rfl, rfl, rfl⟩

theorem Holds.setVal {h : Heap α} {t : Shape} (hh : h.Holds t) (a : Nat) (v : α) :
    (h.setVal a v).Holds t :=
  ⟨hh.root, hh.linked.congr fun b _ => h.setVal_sameLinks a b v, hh.nodup⟩

theorem setParent_val (h : Heap α) (a b : Nat) (p : Option Nat) :
    ((h.setParent a p).cell b).val = (h.cell b).val := by
  grind [setParent_self, setParent_of_ne]

theorem setLeft_val (h : Heap α) (a b : Nat) (l : Option Nat) :
    ((h.setLeft a l).cell b).val = (h.cell b).val := by
  grind [setLeft_self, setLeft_of_ne]

theorem setRight_val (h : Heap α) (a b : Nat) (r : Option Nat) :
    ((h.setRight a r).cell b).val = (h.cell b).val := by
  grind [setRight_self, setRight_of_ne]

end Heap

theorem Cell.SameLinks.of_eq {x y : Cell α} (h : y = x) : x.SameLinks y := by
  subst h
  exact ⟨rfl, rfl, rfl⟩

theorem LinkedPath.left_hole {cell : Nat → Cell α} {p : Nat}
    (h : LinkedPath cell (.left up p r) hole)
    (hnodup : ((Path.left up p r).before ++ (Path.left up p r).after).Nodup)
    (hothers : ∀ b ∈ (Path.left up p r).before ++ (Path.left up p r).after, b ≠ p →
      (cell b).SameLinks (cell' b)) (hown : cell' p = { cell p with left := hole' }) :
    LinkedPath cell' (.left up p r) hole' := by
  obtain ⟨hparent, -, hright, hr, hup⟩ := h
  simp only [Path.before, Path.after] at hnodup hothers
  have hp : p ∉ up.before ++ (r.addrs ++ up.after) := (nodup_middle.mp hnodup).notMem
  refine ⟨by rw [hown, hparent], by rw [hown], by rw [hown, hright], ?_, ?_⟩
  · refine hr.congr fun b hb => hothers b (by simp [hb]) ?_
    rintro rfl
    exact hp (by simp [hb])
  · refine hup.congr fun b hb => hothers b ?_ ?_
    all_goals grind

theorem LinkedPath.right_hole {cell : Nat → Cell α} {p : Nat}
    (h : LinkedPath cell (.right up l p) hole)
    (hnodup : ((Path.right up l p).before ++ (Path.right up l p).after).Nodup)
    (hothers : ∀ b ∈ (Path.right up l p).before ++ (Path.right up l p).after, b ≠ p →
      (cell b).SameLinks (cell' b)) (hown : cell' p = { cell p with right := hole' }) :
    LinkedPath cell' (.right up l p) hole' := by
  obtain ⟨hparent, hleft, -, hl, hup⟩ := h
  simp only [Path.before, Path.after] at hnodup hothers
  have hp : p ∉ up.before ++ l.addrs ++ up.after := by
    grind
  refine ⟨by rw [hown, hparent], by rw [hown, hleft], by rw [hown], ?_, ?_⟩
  · refine hl.congr fun b hb => hothers b (by simp [hb]) ?_
    rintro rfl
    exact hp (by simp [hb])
  · refine hup.congr fun b hb => hothers b ?_ ?_
    all_goals grind

theorem Linked.reparent {cell : Nat → Cell α} {q : Option Nat} (h : Linked cell p t)
    (hnodup : t.addrs.Nodup)
    (hothers : ∀ b ∈ t.addrs, t.root ≠ some b → (cell b).SameLinks (cell' b))
    (hown : ∀ b, t.root = some b → cell' b = { cell b with parent := q }) : Linked cell' q t := by
  cases t with
  | nil => trivial
  | node l a r =>
    obtain ⟨-, hleft, hright, hl, hr⟩ := h
    have ha := hown a rfl
    have hnot : a ∉ l.addrs ++ r.addrs := (nodup_middle.mp hnodup).notMem
    refine ⟨by rw [ha], by rw [ha, hleft], by rw [ha, hright], ?_, ?_⟩
    · refine hl.congr fun b hb => hothers b (by simp [Shape.addrs, hb]) fun heq => ?_
      cases heq
      exact hnot (by simp [hb])
    · refine hr.congr fun b hb => hothers b (by simp [Shape.addrs, hb]) fun heq => ?_
      cases heq
      exact hnot (by simp [hb])

theorem Heap.Holds.nodup_path {h : Heap α} (hh : h.Holds (k.plug t)) :
    (k.before ++ k.after).Nodup ∧ t.addrs.Nodup ∧ ∀ b ∈ t.addrs, b ∉ k.before ++ k.after := by
  have hnodup := hh.nodup
  rw [Path.addrs_plug] at hnodup
  grind

/-! ### Putting in a cell -/

theorem Heap.Holds.attachLeft {h : Heap α} (up : Path) {p : Nat}
    (hh : h.Holds ((Path.left up p r).plug .nil)) (ha : a ∉ ((Path.left up p r).plug .nil).addrs)
    (hleft : (h.cell a).left = none) (hright : (h.cell a).right = none) :
    ((h.setLeft p (some a)).setParent a (some p)).Holds
      ((Path.left up p r).plug (.node .nil a .nil)) := by
  obtain ⟨hnodup, -, -⟩ := hh.nodup_path
  rw [Path.addrs_plug, Shape.addrs, append_nil] at ha
  have hpa : p ≠ a := by
    rintro rfl
    exact ha (by simp [Path.after])
  obtain ⟨hroot, hlinked, -⟩ := hh
  obtain ⟨hpath, -⟩ := (linked_plug_iff _ _).mp hlinked
  refine ⟨hroot.trans (up.root_plug_congr rfl), (linked_plug_iff _ _).mpr ⟨?_, ?_⟩, ?_⟩
  · refine hpath.left_hole hnodup (fun b hb hbp => ?_) ?_
    · have hba : b ≠ a := fun heq => ha (heq ▸ hb)
      exact .of_eq (by rw [setParent_of_ne _ _ hba, setLeft_of_ne _ _ hbp])
    · rw [setParent_of_ne _ _ hpa, setLeft_self]
      rfl
  · refine ⟨by rw [setParent_self]; rfl, ?_, ?_, trivial, trivial⟩
    · rw [setParent_self, setLeft_of_ne _ _ hpa.symm]
      exact hleft
    · rw [setParent_self, setLeft_of_ne _ _ hpa.symm]
      exact hright
  · grind [Path.addrs_plug, Shape.addrs]

theorem Heap.Holds.attachRight {h : Heap α} (up : Path) {p : Nat}
    (hh : h.Holds ((Path.right up l p).plug .nil))
    (ha : a ∉ ((Path.right up l p).plug .nil).addrs) (hleft : (h.cell a).left = none)
    (hright : (h.cell a).right = none) :
    ((h.setRight p (some a)).setParent a (some p)).Holds
      ((Path.right up l p).plug (.node .nil a .nil)) := by
  obtain ⟨hnodup, -, -⟩ := hh.nodup_path
  rw [Path.addrs_plug, Shape.addrs, append_nil] at ha
  have hpa : p ≠ a := by
    rintro rfl
    exact ha (by simp [Path.before])
  obtain ⟨hroot, hlinked, -⟩ := hh
  obtain ⟨hpath, -⟩ := (linked_plug_iff _ _).mp hlinked
  refine ⟨hroot.trans (up.root_plug_congr rfl), (linked_plug_iff _ _).mpr ⟨?_, ?_⟩, ?_⟩
  · refine hpath.right_hole hnodup (fun b hb hbp => ?_) ?_
    · have hba : b ≠ a := fun heq => ha (heq ▸ hb)
      exact .of_eq (by rw [setParent_of_ne _ _ hba, setRight_of_ne _ _ hbp])
    · rw [setParent_of_ne _ _ hpa, setRight_self]
      rfl
  · refine ⟨by rw [setParent_self]; rfl, ?_, ?_, trivial, trivial⟩
    · rw [setParent_self, setRight_of_ne _ _ hpa.symm]
      exact hleft
    · rw [setParent_self, setRight_of_ne _ _ hpa.symm]
      exact hright
  · grind [Path.addrs_plug, Shape.addrs]

theorem Heap.Holds.attachRoot {h : Heap α} (hparent : (h.cell a).parent = none)
    (hleft : (h.cell a).left = none) (hright : (h.cell a).right = none) :
    { h with root := some a }.Holds (.node .nil a .nil) :=
  ⟨rfl, ⟨hparent, hleft, hright, trivial, trivial⟩, List.nodup_singleton a⟩

/-! ### Taking out a cell -/

def Cell.child (x : Cell α) : Option Nat :=
  match x.left with
  | some l => some l
  | none => x.right

def Heap.passParent (h : Heap α) (s : Nat) : Heap α :=
  match (h.cell s).child with
  | some c => h.setParent c (h.cell s).parent
  | none => h

def Heap.splice (h : Heap α) (s : Nat) : Heap α :=
  match ((h.passParent s).cell s).parent with
  | none => { h.passParent s with root := (h.cell s).child }
  | some p =>
    if some s = ((h.passParent s).cell p).left then
      (h.passParent s).setLeft p (h.cell s).child
    else (h.passParent s).setRight p (h.cell s).child

theorem Heap.passParent_val (h : Heap α) (s b : Nat) :
    ((h.passParent s).cell b).val = (h.cell b).val := by
  unfold passParent
  split
  · exact h.setParent_val ..
  · rfl

theorem Heap.splice_val (h : Heap α) (s b : Nat) :
    ((h.splice s).cell b).val = (h.cell b).val := by
  unfold splice
  split
  all_goals grind [passParent_val, setLeft_val, setRight_val]

theorem Heap.passParent_root (h : Heap α) (s : Nat) : (h.passParent s).root = h.root := by
  unfold passParent
  split <;> rfl

theorem Heap.Holds.passParent {h : Heap α} (hh : h.Holds (k.plug (.node l s r)))
    (ht : l = .nil ∧ t = r ∨ r = .nil ∧ t = l) :
    (h.cell s).child = t.root ∧ LinkedPath (h.passParent s).cell k (some s) ∧
      Linked (h.passParent s).cell k.parent t ∧ ((h.passParent s).cell s).parent = k.parent ∧
      t.addrs.Sublist (Shape.node l s r).addrs ∧ s ∉ t.addrs := by
  obtain ⟨hnodup, htree, hdisj⟩ := hh.nodup_path
  obtain ⟨hpath, hparent, hleft, hright, hl, hr⟩ := (linked_plug_iff _ _).mp hh.linked
  have hs : s ∉ l.addrs ++ r.addrs := (nodup_middle.mp htree).notMem
  have hchild : (h.cell s).child = t.root := by
    unfold Cell.child
    rw [hleft, hright]
    obtain ⟨rfl, rfl⟩ | ⟨rfl, rfl⟩ := ht
    · rfl
    · cases t <;> rfl
  have hsub : t.addrs.Sublist (Shape.node l s r).addrs := by
    obtain ⟨-, rfl⟩ | ⟨-, rfl⟩ := ht
    · exact (sublist_cons_self _ _).trans (sublist_append_right _ _)
    · exact sublist_append_left _ _
  have hst : s ∉ t.addrs := by
    grind
  have hlinked : Linked h.cell (some s) t := by
    grind
  have hothers : ∀ b, t.root ≠ some b → (h.passParent s).cell b = h.cell b := by
    grind [passParent, setParent_of_ne]
  have hown : ∀ b, t.root = some b →
      (h.passParent s).cell b = { h.cell b with parent := k.parent } := by
    grind [passParent, setParent_self]
  have hroot : ∀ b, t.root = some b → b ∈ (Shape.node l s r).addrs := fun b hb =>
    hsub.subset (Shape.root_mem hb)
  refine ⟨hchild, ?_, ?_, ?_, hsub, hst⟩
  · refine hpath.congr fun b hb => .of_eq (hothers b fun heq => ?_)
    exact hdisj b (hroot b heq) hb
  · exact hlinked.reparent (hsub.nodup htree) (fun b _ hb => .of_eq (hothers b hb)) hown
  · rw [hothers s fun heq => hst (Shape.root_mem heq), hparent]

theorem Heap.Holds.splice {h : Heap α} (hh : h.Holds (k.plug (.node l s r)))
    (ht : l = .nil ∧ t = r ∨ r = .nil ∧ t = l) : (h.splice s).Holds (k.plug t) := by
  obtain ⟨hchild, hpath, hlinked, hparent, hsub, hst⟩ := hh.passParent ht
  obtain ⟨hnodup, htree, hdisj⟩ := hh.nodup_path
  have hplug : (k.plug t).addrs.Nodup := by
    grind [Path.addrs_plug, nodup]
  have hroot : (h.passParent s).root = (k.plug (.node l s r)).root :=
    (h.passParent_root s).trans hh.root
  unfold Heap.splice
  rw [hparent, hchild]
  cases k with
  | top => exact ⟨rfl, hlinked, hplug⟩
  | left up p r' =>
    have hp : p ∈ (Path.left up p r').before ++ (Path.left up p r').after := by simp [Path.after]
    have hleft : some s = ((h.passParent s).cell p).left := hpath.2.1.symm
    simp only [Path.parent, if_pos hleft]
    refine ⟨hroot.trans (up.root_plug_congr rfl), (linked_plug_iff _ _).mpr ⟨?_, ?_⟩, hplug⟩
    · exact hpath.left_hole hnodup (fun b _ hb => .of_eq (setLeft_of_ne _ _ hb))
        (setLeft_self ..)
    · refine hlinked.congr fun b hb => .of_eq (setLeft_of_ne _ _ ?_)
      rintro rfl
      exact hdisj b (hsub.subset hb) hp
  | right up l' p =>
    have hp : p ∈ (Path.right up l' p).before ++ (Path.right up l' p).after := by
      simp [Path.before]
    have hleft : some s ≠ ((h.passParent s).cell p).left := by
      rw [hpath.2.1]
      intro heq
      have hmem := Shape.root_mem heq.symm
      exact hdisj s (by simp [Shape.addrs]) (by simp [Path.before, hmem])
    simp only [Path.parent, if_neg hleft]
    refine ⟨hroot.trans (up.root_plug_congr rfl), (linked_plug_iff _ _).mpr ⟨?_, ?_⟩, hplug⟩
    · exact hpath.right_hole hnodup (fun b _ hb => .of_eq (setRight_of_ne _ _ hb))
        (setRight_self ..)
    · refine hlinked.congr fun b hb => .of_eq (setRight_of_ne _ _ ?_)
      rintro rfl
      exact hdisj b (hsub.subset hb) hp

end Avb4Linux.Lib.LinkedTree
