import Mathlib.Data.Finset.Basic
import Avb4Linux.Lib.LinkedTree
import Avb4Linux.Maap.Intervals

/-!
# The interval tree in memory

`intervals.c` with all its pointers, which does to the tree in memory what `Intervals` does to the
tree.
-/

namespace Avb4Linux.Maap

open Lib Lib.LinkedTree List

structure Content where
  low : Nat
  high : Nat
  data : Option Nat
  deriving DecidableEq, Repr

abbrev IntervalHeap := LinkedTree.Heap Content

namespace IntervalHeap

def checkOverlap (a b : Content) : Bool :=
  a.low ≤ b.high && b.low ≤ a.high

def alloc (h : IntervalHeap) (a : Nat) (e : Content) : IntervalHeap :=
  { h with cell := Function.update h.cell a ⟨e, none, none, none⟩ }

def insertLoop (h : IntervalHeap) (node : Nat) : Nat → Nat → Option (IntervalHeap × Bool)
  | 0, _ => none
  | fuel + 1, current =>
    if checkOverlap (h.cell current).val (h.cell node).val then some (h, false)
    else if (h.cell node).val.low < (h.cell current).val.low then
      match (h.cell current).left with
      | none => some ((h.setLeft current (some node)).setParent node (some current), true)
      | some l => insertLoop h node fuel l
    else
      match (h.cell current).right with
      | none => some ((h.setRight current (some node)).setParent node (some current), true)
      | some r => insertLoop h node fuel r

def insertInterval (h : IntervalHeap) (node fuel : Nat) : Option (IntervalHeap × Bool) :=
  match h.root with
  | none => some ({ h with root := some node }, true)
  | some root => insertLoop h node fuel root

def minimumInterval (h : IntervalHeap) (fuel : Nat) (root : Option Nat) : Option (Option Nat) :=
  match root with
  | none => some none
  | some a => (h.leftmost fuel a).map some

def nextInterval (h : IntervalHeap) (node fuel : Nat) : Option (Option Nat) :=
  h.next fuel node

def prevInterval (h : IntervalHeap) (node fuel : Nat) : Option (Option Nat) :=
  h.prev fuel node

/-- The contents of a node and of the one that was taken out in its place change
places, except for the interval of the latter. -/
def swapContents (h : IntervalHeap) (node snip : Nat) : IntervalHeap :=
  let oldData := (h.cell node).val.data
  let h := h.setVal node (h.cell snip).val
  h.setVal snip { (h.cell snip).val with data := oldData }

def removeInterval (h : IntervalHeap) (node fuel : Nat) : Option (IntervalHeap × Nat) :=
  if (h.cell node).left = none ∨ (h.cell node).right = none then some (h.splice node, node)
  else
    match h.nextInterval node fuel with
    | some (some snip) => some (swapContents (h.splice snip) node snip, snip)
    | _ => none

def searchLoop (h : IntervalHeap) (i : Content) : Nat → Option Nat → Option (Option Nat)
  | 0, _ => none
  | _ + 1, none => some none
  | fuel + 1, some current =>
    if checkOverlap (h.cell current).val i then some (some current)
    else if i.low < (h.cell current).val.low then searchLoop h i fuel (h.cell current).left
    else searchLoop h i fuel (h.cell current).right

def backLoop (h : IntervalHeap) (i : Content) : Nat → Nat → Option Nat
  | 0, _ => none
  | fuel + 1, current =>
    match h.prevInterval current (fuel + 1) with
    | none => none
    | some none => some current
    | some (some test) =>
      if checkOverlap (h.cell test).val i then backLoop h i fuel test else some current

def searchInterval (h : IntervalHeap) (start count fuel : Nat) : Option (Option Nat) :=
  let i : Content := ⟨start, intervalEnd start count, none⟩
  match h.searchLoop i fuel h.root with
  | none => none
  | some none => some none
  | some (some current) => (h.backLoop i fuel current).map some

def nodeAt (h : IntervalHeap) (a : Nat) : Node :=
  ⟨a, (h.cell a).val.low, (h.cell a).val.high, (h.cell a).val.data⟩

def treeOf (h : IntervalHeap) : Shape → Tree
  | .nil => .nil
  | .node l a r => .node (h.treeOf l) (h.nodeAt a) (h.treeOf r)

theorem nodes_treeOf (h : IntervalHeap) (t : Shape) :
    (h.treeOf t).nodes = t.addrs.map h.nodeAt := by
  induction t with
  | nil => rfl
  | node l a r ihl ihr => simp [treeOf, Tree.nodes, Shape.addrs, ihl, ihr]

theorem addrs_treeOf (h : IntervalHeap) (t : Shape) :
    (h.treeOf t).nodes.map Node.addr = t.addrs := by
  rw [nodes_treeOf, map_map]
  exact map_id _

variable {h' : IntervalHeap} {a current fuel : Nat} {l r t : Shape} {k : Path}

theorem nodeAt_congr {h : IntervalHeap} (hval : (h'.cell a).val = (h.cell a).val) :
    h'.nodeAt a = h.nodeAt a := by
  unfold nodeAt
  rw [hval]

theorem treeOf_congr {h : IntervalHeap} (hval : ∀ a ∈ t.addrs, (h'.cell a).val = (h.cell a).val) :
    h'.treeOf t = h.treeOf t := by
  induction t with
  | nil => rfl
  | node l a r ihl ihr =>
    grind [treeOf, nodeAt_congr, Shape.addrs]

theorem insertLoop_spec {h : IntervalHeap} (hh : h.Holds (k.plug t)) (ha : a ∉ (k.plug t).addrs)
    (hleft : (h.cell a).left = none) (hright : (h.cell a).right = none)
    (hroot : t.root = some current) :
    ((h.treeOf t).insert (h.nodeAt a) = none ∧
        ∀ fuel, t.addrs.length ≤ fuel → h.insertLoop a fuel current = some (h, false)) ∨
      ∃ h' t', (h.treeOf t).insert (h.nodeAt a) = some (h.treeOf t') ∧
        (∀ fuel, t.addrs.length ≤ fuel → h.insertLoop a fuel current = some (h', true)) ∧
        h'.Holds (k.plug t') ∧ ∀ b, (h'.cell b).val = (h.cell b).val := by
  induction t generalizing k current with
  | nil => cases hroot
  | node l c r ihl ihr =>
    cases hroot
    obtain ⟨-, hcl, hcr, -, -⟩ := ((linked_plug_iff _ _).mp hh.linked).2
    -- a turn of the loop, for any number of turns that is large enough
    have hturn : ∀ (x : Option (IntervalHeap × Bool)) (n : Nat), n < (Shape.node l c r).addrs.length →
        (∀ fuel, n ≤ fuel → h.insertLoop a (fuel + 1) c = x) →
        ∀ fuel, (Shape.node l c r).addrs.length ≤ fuel → h.insertLoop a fuel c = x := by
      intro x n hn hx fuel hfuel
      obtain ⟨fuel, rfl⟩ : ∃ m, fuel = m + 1 := ⟨fuel - 1, by omega⟩
      exact hx fuel (by omega)
    have hll : l.addrs.length < (Shape.node l c r).addrs.length := by
      rw [Shape.addrs, length_append, length_cons]
      omega
    have hrl : r.addrs.length < (Shape.node l c r).addrs.length := by
      rw [Shape.addrs, length_append, length_cons]
      omega
    rw [treeOf, Tree.insert]
    by_cases hover : (h.nodeAt c).overlaps (h.nodeAt a).low (h.nodeAt a).high = true
    · have hcheck : checkOverlap (h.cell c).val (h.cell a).val = true := hover
      left
      refine ⟨if_pos hover, hturn _ _ hll fun fuel _ => ?_⟩
      rw [insertLoop, if_pos hcheck]
    · have hcheck : ¬checkOverlap (h.cell c).val (h.cell a).val = true := hover
      rw [if_neg hover]
      by_cases hless : (h.nodeAt a).low < (h.nodeAt c).low
      · have hlow : (h.cell a).val.low < (h.cell c).val.low := hless
        rw [if_pos hless]
        cases l with
        | nil =>
          right
          refine ⟨_, .node (.node .nil a .nil) c r, rfl, hturn _ _ hll fun fuel _ => ?_,
            Heap.Holds.attachLeft k hh ha hleft hright, fun b => ?_⟩
          · rw [insertLoop, if_neg hcheck, if_pos hlow, hcl]
            rfl
          · rw [Heap.setParent_val, Heap.setLeft_val]
        | node ll x lr =>
          obtain ⟨hnone, hloop⟩ | ⟨h', t', hsome, hloop, hh', hval⟩ :=
            ihl (k := .left k c r) hh ha rfl
          · left
            refine ⟨by rw [hnone]; rfl, hturn _ _ hll fun fuel hfuel => ?_⟩
            rw [insertLoop, if_neg hcheck, if_pos hlow, hcl]
            exact hloop fuel hfuel
          · right
            refine ⟨h', .node t' c r, by rw [hsome]; rfl, hturn _ _ hll fun fuel hfuel => ?_, hh', hval⟩
            rw [insertLoop, if_neg hcheck, if_pos hlow, hcl]
            exact hloop fuel hfuel
      · have hlow : ¬(h.cell a).val.low < (h.cell c).val.low := hless
        rw [if_neg hless]
        cases r with
        | nil =>
          right
          refine ⟨_, .node l c (.node .nil a .nil), rfl, hturn _ _ hrl fun fuel _ => ?_,
            Heap.Holds.attachRight k hh ha hleft hright, fun b => ?_⟩
          · rw [insertLoop, if_neg hcheck, if_neg hlow, hcr]
            rfl
          · rw [Heap.setParent_val, Heap.setRight_val]
        | node rl x rr =>
          obtain ⟨hnone, hloop⟩ | ⟨h', t', hsome, hloop, hh', hval⟩ :=
            ihr (k := .right k l c) hh ha rfl
          · left
            refine ⟨by rw [hnone]; rfl, hturn _ _ hrl fun fuel hfuel => ?_⟩
            rw [insertLoop, if_neg hcheck, if_neg hlow, hcr]
            exact hloop fuel hfuel
          · right
            refine ⟨h', .node l c t', by rw [hsome]; rfl, hturn _ _ hrl fun fuel hfuel => ?_, hh', hval⟩
            rw [insertLoop, if_neg hcheck, if_neg hlow, hcr]
            exact hloop fuel hfuel

theorem insertInterval_tree {h : IntervalHeap} (hh : h.Holds t) (ha : a ∉ t.addrs)
    (hparent : (h.cell a).parent = none) (hleft : (h.cell a).left = none)
    (hright : (h.cell a).right = none) :
    ((h.treeOf t).insert (h.nodeAt a) = none ∧ Returns (h.insertInterval a) (h, false)) ∨
      ∃ h' t', (h.treeOf t).insert (h.nodeAt a) = some (h'.treeOf t') ∧
        Returns (h.insertInterval a) (h', true) ∧ h'.Holds t' ∧
        ∀ b, (h'.cell b).val = (h.cell b).val := by
  cases t with
  | nil =>
    right
    have hroot : h.root = none := hh.root
    refine ⟨{ h with root := some a }, .node .nil a .nil, rfl, ⟨0, fun fuel _ => ?_⟩,
      Heap.Holds.attachRoot hparent hleft hright, fun b => rfl⟩
    rw [insertInterval, hroot]
  | node l c r =>
    have hroot : h.root = some c := hh.root
    have hinsert : ∀ fuel, h.insertInterval a fuel = h.insertLoop a fuel c := by
      intro fuel
      rw [insertInterval, hroot]
    obtain ⟨hnone, hloop⟩ | ⟨h', t', hsome, hloop, hh', hval⟩ :=
      insertLoop_spec (k := .top) hh ha hleft hright rfl
    · exact .inl ⟨hnone, _, fun fuel hfuel => (hinsert fuel).trans (hloop fuel hfuel)⟩
    · refine .inr ⟨h', t', ?_, ⟨_, fun fuel hfuel => (hinsert fuel).trans (hloop fuel hfuel)⟩, hh',
        hval⟩
      rw [hsome, treeOf_congr fun b _ => hval b]

theorem remove_plug {h : IntervalHeap} {t' : Shape} (ha : a ∉ k.before ++ k.after)
    (hval : ∀ b ∈ k.before ++ k.after, (h'.cell b).val = (h.cell b).val)
    (ht : (h.treeOf t).remove a = h'.treeOf t') :
    (h.treeOf (k.plug t)).remove a = h'.treeOf (k.plug t') := by
  have hother : ∀ s : Shape, a ∉ s.addrs → (∀ b ∈ s.addrs, (h'.cell b).val = (h.cell b).val) →
      (h.treeOf s).remove a = h'.treeOf s := by
    grind [treeOf_congr, Tree.remove_of_not_mem, addrs_treeOf]
  induction k generalizing t t' with
  | top => exact ht
  | left up c r ih =>
    simp only [Path.before, Path.after, mem_append, mem_cons, not_or] at ha hval
    obtain ⟨hbefore, ⟨hc, hr⟩, hafter⟩ := ha
    refine ih (by simp [hbefore, hafter]) (fun b hb => hval b ?_) ?_
    · rw [mem_append] at hb
      tauto
    · have hca : (h.nodeAt c).addr ≠ a := Ne.symm hc
      rw [treeOf, Tree.remove, if_neg hca, ht, hother r hr fun b hb => hval b (by tauto),
        treeOf, nodeAt_congr (hval c (by tauto))]
  | right up l c ih =>
    simp only [Path.before, Path.after, mem_append, mem_singleton, not_or] at ha hval
    obtain ⟨⟨hbefore, hl, hc⟩, hafter⟩ := ha
    refine ih (by simp [hbefore, hafter]) (fun b hb => hval b ?_) ?_
    · rw [mem_append] at hb
      tauto
    · have hca : (h.nodeAt c).addr ≠ a := Ne.symm hc
      rw [treeOf, Tree.remove, if_neg hca, ht, hother l hl fun b hb => hval b (by tauto),
        treeOf, nodeAt_congr (hval c (by tauto))]

theorem takeMin_treeOf (h : IntervalHeap) (ht : t ≠ .nil) :
    ∃ (j : Path) (m : Nat) (r : Shape), t = j.plug (.node .nil m r) ∧ t.addrs.head? = some m ∧
      (h.treeOf t).takeMin = some (h.nodeAt m, h.treeOf (j.plug r)) := by
  suffices hgen : ∀ up : Path, ∃ (j : Path) (m : Nat) (r : Shape),
      up.plug t = j.plug (.node .nil m r) ∧ t.addrs.head? = some m ∧ ∃ t' : Shape,
        (h.treeOf t).takeMin = some (h.nodeAt m, h.treeOf t') ∧ up.plug t' = j.plug r by
    obtain ⟨j, m, r, hplug, hhead, t', hmin, ht'⟩ := hgen .top
    exact ⟨j, m, r, hplug, hhead, hmin.trans (congrArg (fun x => some (h.nodeAt m, h.treeOf x)) ht')⟩
  induction t with
  | nil => exact absurd rfl ht
  | node l a r ihl _ =>
    intro up
    cases l with
    | nil => exact ⟨up, a, r, rfl, rfl, r, rfl, rfl⟩
    | node ll b lr =>
      obtain ⟨j, m, r', hplug, hhead, t', hmin, ht'⟩ := ihl (by simp) (.left up a r)
      refine ⟨j, m, r', hplug, ?_, .node t' a r, ?_, ht'⟩
      · rw [Shape.addrs, List.head?_append, hhead]
        rfl
      · have hstep : (h.treeOf (.node (.node ll b lr) a r)).takeMin =
            ((h.treeOf (.node ll b lr)).takeMin).map fun x =>
              (x.1, .node x.2 (h.nodeAt a) (h.treeOf r)) := rfl
        rw [hstep, hmin]
        rfl

/-- What `remove_interval` of the node at `a` gives: the memory, the shape of the tree in
it, and the node that it returns. -/
structure Removes (h : IntervalHeap) (t : Shape) (a : Nat) (h' : IntervalHeap) (t' : Shape)
    (s : Nat) : Prop where
  returns : Returns (h.removeInterval a) (h', s)
  holds : h'.Holds t'
  tree : h'.treeOf t' = (h.treeOf t).remove a
  data : (h'.cell s).val.data = (h.cell a).val.data
  addrs : ∀ b, b ∈ t'.addrs ↔ b ∈ t.addrs ∧ b ≠ s

theorem remove_root (h : IntervalHeap) (l r : Shape) (a : Nat) :
    (h.treeOf (.node l a r)).remove a = Tree.snip a (h.treeOf l) (h.treeOf r) :=
  if_pos rfl

theorem removes_single {h : IntervalHeap} (hh : h.Holds (k.plug (.node l a r)))
    (ht : l = .nil ∧ t = r ∨ r = .nil ∧ t = l) :
    h.Removes (k.plug (.node l a r)) a (h.splice a) (k.plug t) a := by
  obtain ⟨-, -, hdisj⟩ := hh.nodup_path
  obtain ⟨-, -, hleft, hright, -, -⟩ := (linked_plug_iff _ _).mp hh.linked
  have hak : a ∉ k.before ++ k.after := hdisj a (by simp [Shape.addrs])
  have hone : (h.cell a).left = none ∨ (h.cell a).right = none := by
    obtain ⟨rfl, -⟩ | ⟨rfl, -⟩ := ht
    · exact .inl hleft
    · exact .inr hright
  refine ⟨⟨0, fun fuel _ => if_pos hone⟩, hh.splice ht, ?_, by rw [Heap.splice_val],
    Path.mem_plug_child hh.nodup ht⟩
  refine (remove_plug hak (fun b _ => h.splice_val a b) ?_).symm
  rw [remove_root, treeOf_congr fun b _ => h.splice_val a b]
  obtain ⟨rfl, rfl⟩ | ⟨rfl, rfl⟩ := ht
  · rfl
  · cases t <;> rfl

theorem swapContents_val (h : IntervalHeap) {m b : Nat} (ham : a ≠ m) :
    ((swapContents h a m).cell b).val =
      if b = m then { (h.cell m).val with data := (h.cell a).val.data }
      else if b = a then (h.cell m).val else (h.cell b).val := by
  grind [swapContents, Heap.setVal_self, Heap.setVal_of_ne]

theorem removes_double {h : IntervalHeap} (hh : h.Holds (k.plug (.node l a r))) (hl : l ≠ .nil)
    (hr : r ≠ .nil) :
    ∃ t' m, h.Removes (k.plug (.node l a r)) a (swapContents (h.splice m) a m) t' m := by
  obtain ⟨j, m, mr, rfl, hhead, hmin⟩ := h.takeMin_treeOf hr
  have hholds : h.Holds ((j.under (.right k l a)).plug (.node .nil m mr)) := by
    rw [Path.plug_under]
    exact hh
  have hspliced := hholds.splice (.inl ⟨rfl, rfl⟩)
  have haddrs := Path.mem_plug_child hholds.nodup (.inl ⟨rfl, rfl⟩)
  simp only [Path.plug_under, Path.plug] at hspliced haddrs
  obtain ⟨-, -, hleft, hright, -, -⟩ := (linked_plug_iff _ _).mp hh.linked
  have hm : m ∈ (j.plug (.node .nil m mr)).addrs := mem_of_mem_head? hhead
  -- the cells around the node, those of its subtrees and its successor are all different
  obtain ⟨-, -, hdisj⟩ := hh.nodup_path
  obtain ⟨-, htree, -⟩ := hspliced.nodup_path
  have hak : a ∉ k.before ++ k.after := hdisj a (by simp [Shape.addrs])
  have hmk : m ∉ k.before ++ k.after := hdisj m (by simp [Shape.addrs, hm])
  have halr : a ∉ l.addrs ++ (j.plug mr).addrs := (nodup_middle.mp htree).notMem
  have hne : ∀ b ∈ (Shape.node l a (j.plug mr)).addrs, b ≠ m := by
    intro b hb
    refine ((haddrs b).mp ?_).2
    rw [Path.addrs_plug]
    exact mem_append_left _ (mem_append_right _ hb)
  have ham : a ≠ m := hne a (by simp [Shape.addrs])
  have hval : ∀ b, b ≠ a → b ≠ m →
      ((swapContents (h.splice m) a m).cell b).val = (h.cell b).val := by
    intro b hba hbm
    rw [swapContents_val _ ham, if_neg hbm, if_neg hba, Heap.splice_val]
  refine ⟨k.plug (.node l a (j.plug mr)), m, ⟨?_, (hspliced.setVal _ _).setVal _ _, ?_, ?_, haddrs⟩⟩
  · have htwo : ¬((h.cell a).left = none ∨ (h.cell a).right = none) := by
      grind [Shape.root_eq_none]
    refine ⟨(k.plug (.node l a (j.plug (.node .nil m mr)))).addrs.length, fun fuel hfuel => ?_⟩
    have hnext : h.nextInterval a fuel = some (some m) := by
      rw [nextInterval, hh.next_eq hfuel, List.head?_append, hhead]
      rfl
    rw [removeInterval, if_neg htwo, hnext]
  · refine (remove_plug hak (fun b hb => hval b ?_ ?_) ?_).symm
    · exact fun heq => hak (heq ▸ hb)
    · exact fun heq => hmk (heq ▸ hb)
    · have hnode : (swapContents (h.splice m) a m).nodeAt a = { h.nodeAt m with addr := a } := by
        unfold nodeAt
        rw [swapContents_val _ ham, if_neg ham, if_pos rfl, Heap.splice_val]
      have hltree : (swapContents (h.splice m) a m).treeOf l = h.treeOf l := by
        grind [treeOf_congr, Shape.addrs]
      have hrtree : (swapContents (h.splice m) a m).treeOf (j.plug mr) = h.treeOf (j.plug mr) := by
        grind [treeOf_congr, Shape.addrs]
      rw [remove_root, treeOf, hnode, hltree, hrtree]
      cases l with
      | nil => exact absurd rfl hl
      | node ll b lr => simp only [treeOf, Tree.snip, hmin]
  · rw [swapContents_val _ ham, if_pos rfl, Heap.splice_val, Heap.splice_val]

theorem removeInterval_tree {h : IntervalHeap} (hh : h.Holds t) (ha : a ∈ t.addrs) :
    ∃ h' t' s, h.Removes t a h' t' s := by
  obtain ⟨k, l, r, rfl⟩ := Path.exists_plug ha
  cases hl : l with
  | nil => exact ⟨_, _, _, removes_single (hl ▸ hh) (.inl ⟨rfl, rfl⟩)⟩
  | node ll b lr =>
    cases hr : r with
    | nil => exact ⟨_, _, _, removes_single (hl ▸ hr ▸ hh) (.inr ⟨rfl, rfl⟩)⟩
    | node rl c rr =>
      grind [removes_double]

theorem neighbours {h : IntervalHeap} (hh : h.Holds t) {pre post : List Nat}
    (hsplit : t.addrs = pre ++ a :: post) (hfuel : t.addrs.length ≤ fuel) :
    h.nextInterval a fuel = some post.head? ∧ h.prevInterval a fuel = some pre.getLast? := by
  have ha : a ∈ t.addrs := by simp [hsplit]
  obtain ⟨k, l, r, rfl⟩ := Path.exists_plug ha
  have hnodup := hh.nodup
  rw [hsplit] at hnodup
  have hnot := (nodup_middle.mp hnodup).notMem
  have heq : pre ++ a :: post = (k.before ++ l.addrs) ++ a :: (r.addrs ++ k.after) := by
    rw [← hsplit, Path.addrs_plug]
    simp [Shape.addrs]
  obtain ⟨rfl, -, rfl⟩ := (append_cons_inj_of_notMem (fun hmem => hnot (by simp [hmem]))
    (fun hmem => hnot (by simp [hmem]))).mp heq
  exact ⟨hh.next_eq hfuel, hh.prev_eq hfuel⟩

theorem searchLoop_eq {h : IntervalHeap} {p : Option Nat} (hlinked : Linked h.cell p t)
    (i : Content) (hfuel : t.addrs.length < fuel) :
    h.searchLoop i fuel t.root =
      some (((h.treeOf t).descend i.low i.high).map Node.addr) := by
  induction t generalizing p fuel with
  | nil =>
    obtain ⟨fuel, rfl⟩ : ∃ n, fuel = n + 1 := ⟨fuel - 1, by omega⟩
    rfl
  | node l a r ihl ihr =>
    obtain ⟨-, hleft, hright, hl, hr⟩ := hlinked
    simp only [Shape.addrs, length_append, length_cons] at hfuel
    obtain ⟨fuel, rfl⟩ : ∃ n, fuel = n + 1 := ⟨fuel - 1, by omega⟩
    rw [Shape.root, searchLoop, treeOf, Tree.descend, hleft, hright, ihl hl (by omega),
      ihr hr (by omega)]
    by_cases hover : checkOverlap (h.cell a).val i = true
    · have hnode : (h.nodeAt a).overlaps i.low i.high = true := hover
      rw [if_pos hover, if_pos hnode]
      rfl
    · have hnode : ¬(h.nodeAt a).overlaps i.low i.high = true := hover
      grind [nodeAt]

theorem backLoop_eq {h : IntervalHeap} (hh : h.Holds t) (i : Content) {before post : List Nat}
    (hsplit : t.addrs = before.reverse ++ current :: post)
    (hfuel : t.addrs.length + before.length < fuel) :
    h.backLoop i fuel current =
      some (((before.takeWhile fun b => checkOverlap (h.cell b).val i).getLast?).getD current) := by
  induction before generalizing current post fuel with
  | nil =>
    obtain ⟨fuel, rfl⟩ : ∃ n, fuel = n + 1 := ⟨fuel - 1, by omega⟩
    rw [backLoop, (neighbours hh hsplit (by omega)).2]
    rfl
  | cons x before ih =>
    obtain ⟨fuel, rfl⟩ : ∃ n, fuel = n + 1 := ⟨fuel - 1, by omega⟩
    rw [length_cons] at hfuel
    have hsize : t.addrs.length ≤ fuel + 1 := by omega
    have hprev := (neighbours hh hsplit hsize).2
    rw [List.getLast?_reverse, List.head?_cons] at hprev
    rw [backLoop, hprev]
    by_cases hover : checkOverlap (h.cell x).val i = true
    · have hshift : t.addrs = before.reverse ++ x :: (current :: post) := by
        rw [hsplit]
        simp
      have hrest : t.addrs.length + before.length < fuel := by omega
      have hback := ih hshift hrest
      simp only [hover, if_true]
      rw [hback, takeWhile_cons, if_pos hover, List.getLast?_cons]
      rfl
    · simp only [hover, if_false, Bool.false_eq_true]
      rw [takeWhile_cons, if_neg hover]
      rfl

theorem searchInterval_tree {h : IntervalHeap} (hh : h.Holds t) (start count : Nat) :
    Returns (h.searchInterval start count)
      (((h.treeOf t).search start count).map Node.addr) := by
  refine ⟨2 * t.addrs.length + 1, fun fuel hfuel => ?_⟩
  unfold searchInterval Tree.search
  dsimp only
  rw [hh.root, searchLoop_eq hh.linked _ (by omega)]
  dsimp only
  cases hdesc : (h.treeOf t).descend start (intervalEnd start count) with
  | none => rfl
  | some cur =>
    have hmem := (Tree.descend_mem hdesc).1
    rw [nodes_treeOf, mem_map] at hmem
    obtain ⟨a, ha, rfl⟩ := hmem
    obtain ⟨pre, post, hsplit⟩ := append_of_mem ha
    have hpre : ∀ b ∈ pre, b ≠ a := by
      have hnodup := hh.nodup
      grind
    have hbefore : ((h.treeOf t).nodes.takeWhile fun n => n.addr ≠ (h.nodeAt a).addr) =
        pre.map h.nodeAt := by
      rw [nodes_treeOf, hsplit, map_append, takeWhile_append_of_pos]
      · simp
      · intro n hn
        obtain ⟨b, hb, rfl⟩ := mem_map.mp hn
        exact decide_eq_true (hpre b hb)
    have hreverse : t.addrs = pre.reverse.reverse ++ a :: post := by rw [reverse_reverse, hsplit]
    have hsize : t.addrs.length + pre.reverse.length < fuel := by
      grind
    have hback := backLoop_eq hh ⟨start, intervalEnd start count, none⟩ hreverse hsize
    simp only [Option.map_some]
    rw [hbefore, ← map_reverse, takeWhile_map, List.getLast?_map, Option.getD_map]
    exact congrArg (Option.map some) hback

end IntervalHeap

end Avb4Linux.Maap
