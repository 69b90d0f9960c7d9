import Mathlib.Data.Finset.Insert
import Mathlib.Data.List.Pairwise
import Avb4Linux.Maap.IntervalHeap

/-!
# The set of intervals

What the interval tree is for: a finite set of disjoint intervals with data.
-/

namespace Avb4Linux.Maap

open Lib Lib.LinkedTree List

def Content.Meets (e f : Content) : Prop :=
  ∃ x, e.low ≤ x ∧ x ≤ e.high ∧ f.low ≤ x ∧ x ≤ f.high

theorem Content.meets_iff {e f : Content} (he : e.low ≤ e.high) (hf : f.low ≤ f.high) :
    e.Meets f ↔ IntervalHeap.checkOverlap e f = true := by
  rw [IntervalHeap.checkOverlap, Bool.and_eq_true, decide_eq_true_eq, decide_eq_true_eq]
  constructor
  · rintro ⟨x, hx⟩
    omega
  · intro hover
    exact ⟨max e.low f.low, by omega⟩

structure IntervalSet where
  entries : Finset Content
  proper : ∀ e ∈ entries, e.low ≤ e.high
  disjoint : ∀ e ∈ entries, ∀ f ∈ entries, e.Meets f → e = f

def IntervalSet.Free (S : IntervalSet) (e : Content) : Prop :=
  ∀ f ∈ S.entries, ¬ f.Meets e

structure IntervalSet.First (S : IntervalSet) (p : Content → Prop) (e : Content) : Prop where
  mem : e ∈ S.entries
  holds : p e
  lowest : ∀ f ∈ S.entries, p f → e.low ≤ f.low

structure IntervalSet.Last (S : IntervalSet) (p : Content → Prop) (e : Content) : Prop where
  mem : e ∈ S.entries
  holds : p e
  highest : ∀ f ∈ S.entries, p f → f.low ≤ e.low

namespace IntervalHeap

structure Stores (h : IntervalHeap) (S : IntervalSet) : Prop where
  mem_iff : ∀ e, e ∈ S.entries ↔ ∃ a, h.Reaches a ∧ (h.cell a).val = e
  once : ∀ a b, h.Reaches a → h.Reaches b → (h.cell a).val = (h.cell b).val → a = b

inductive Built : IntervalHeap → Prop
  | empty {h : IntervalHeap} (root : h.root = none) : Built h
  | insert {h h' : IntervalHeap} {a : Nat} {e : Content} {ok : Bool} (hb : Built h)
      (unused : ¬h.Reaches a) (proper : e.low ≤ e.high)
      (returns : Returns ((h.alloc a e).insertInterval a) (h', ok)) : Built h'
  | remove {h h' : IntervalHeap} {a s : Nat} (hb : Built h) (used : h.Reaches a)
      (returns : Returns (h.removeInterval a) (h', s)) : Built h'
  | assign {h : IntervalHeap} {a : Nat} (hb : Built h) (data : Option Nat) :
      Built (h.setVal a { (h.cell a).val with data := data })
  | other {h h' : IntervalHeap} (hb : Built h) (root : h'.root = h.root)
      (same : ∀ a, h.Reaches a → h'.cell a = h.cell a) : Built h'

structure Behaves (h : IntervalHeap) (S : IntervalSet) : Prop where
  stores : h.Stores S
  overlap : ∀ start count, 1 ≤ count → start + count ≤ 2 ^ 32 → ∀ e ∈ S.entries,
    (checkOverlap e ⟨start, intervalEnd start count, none⟩ = true ↔
      e.Meets ⟨start, start + count - 1, none⟩)
  insert : ∀ a e, ¬h.Reaches a → e.low ≤ e.high → ∃ h' ok,
    Returns ((h.alloc a e).insertInterval a) (h', ok) ∧ (ok = true ↔ S.Free e) ∧
      ∃ S' : IntervalSet, h'.Stores S' ∧
        S'.entries = if ok then Insert.insert e S.entries else S.entries
  remove : ∀ a, h.Reaches a → ∃ h' s, Returns (h.removeInterval a) (h', s) ∧
    (∃ S' : IntervalSet, h'.Stores S' ∧ S'.entries = S.entries.erase (h.cell a).val) ∧
      (h'.cell s).val.data = (h.cell a).val.data ∧ ∀ b, h'.Reaches b ↔ h.Reaches b ∧ b ≠ s
  search : ∀ start count, ∃ found, Returns (h.searchInterval start count) found ∧
    (found = none ↔ ∀ e ∈ S.entries,
      ¬checkOverlap e ⟨start, intervalEnd start count, none⟩ = true) ∧
    ∀ a, found = some a → h.Reaches a ∧ S.First
      (fun e => checkOverlap e ⟨start, intervalEnd start count, none⟩ = true) (h.cell a).val
  next : ∀ a, h.Reaches a → ∃ b, Returns (h.nextInterval a) b ∧
    (b = none ↔ ∀ e ∈ S.entries, ¬(h.cell a).val.low < e.low) ∧
    ∀ x, b = some x → h.Reaches x ∧ S.First (fun e => (h.cell a).val.low < e.low) (h.cell x).val
  prev : ∀ a, h.Reaches a → ∃ b, Returns (h.prevInterval a) b ∧
    (b = none ↔ ∀ e ∈ S.entries, ¬e.low < (h.cell a).val.low) ∧
    ∀ x, b = some x → h.Reaches x ∧ S.Last (fun e => e.low < (h.cell a).val.low) (h.cell x).val

end IntervalHeap

def Node.content (n : Node) : Content :=
  ⟨n.low, n.high, n.data⟩

def contents (l : List Node) : Finset Content :=
  (l.map Node.content).toFinset

variable {l post post' pre : List Node} {m n : Node}

theorem mem_contents {e : Content} : e ∈ contents l ↔ ∃ n ∈ l, n.content = e := by
  rw [contents, mem_toFinset, mem_map]

theorem Ordered.eq_of_overlaps (h : Ordered l) (hm : m ∈ l) (hn : n ∈ l)
    (hover : m.overlaps n.low n.high = true) : m = n := by
  have hpairs : l.Pairwise fun a b => a.overlaps b.low b.high = true → a = b := by
    refine h.pairwise.imp fun {a b} hab hover => ?_
    have := Node.overlaps_iff.mp hover
    omega
  have hsymm : Std.Symm fun a b : Node => a.overlaps b.low b.high = true → a = b := by
    refine ⟨fun a b hab hover => (hab (Node.overlaps_iff.mpr ?_)).symm⟩
    have := Node.overlaps_iff.mp hover
    omega
  exact hpairs.forall_of_forall (fun _ _ _ => rfl) hm hn hover

theorem Ordered.eq_of_content (h : Ordered l) (hm : m ∈ l) (hn : n ∈ l)
    (heq : m.content = n.content) : m = n := by
  have hlow := congrArg Content.low heq
  have hhigh := congrArg Content.high heq
  have hle := h.low_le_high n hn
  dsimp only [Node.content] at hlow hhigh
  exact h.eq_of_overlaps hm hn (Node.overlaps_iff.mpr (by omega))

def Ordered.set {l : List Node} (h : Ordered l) : IntervalSet where
  entries := contents l
  proper := by
    intro e he
    obtain ⟨n, hn, rfl⟩ := mem_contents.mp he
    exact h.low_le_high n hn
  disjoint := by
    intro e he f hf hmeets
    obtain ⟨m, hm, rfl⟩ := mem_contents.mp he
    obtain ⟨n, hn, rfl⟩ := mem_contents.mp hf
    have hover := (Content.meets_iff (h.low_le_high m hm) (h.low_le_high n hn)).mp hmeets
    exact congrArg Node.content (h.eq_of_overlaps hm hn hover)

theorem contents_append_cons (a b : List Node) (n : Node) :
    contents (a ++ n :: b) = Insert.insert n.content (contents (a ++ b)) := by
  ext e
  simp only [mem_contents, Finset.mem_insert, mem_append, mem_cons]
  grind

theorem Ordered.contents_erase {a b : List Node} (h : Ordered (a ++ n :: b)) :
    contents (a ++ b) = (contents (a ++ n :: b)).erase n.content := by
  rw [contents_append_cons, Finset.erase_insert]
  intro hmem
  obtain ⟨m, hm, heq⟩ := mem_contents.mp hmem
  have hin : m ∈ a ++ n :: b := by
    simp only [mem_append, mem_cons] at hm ⊢
    tauto
  obtain rfl := h.eq_of_content hin (by simp) heq
  have hnodup : (a ++ m :: b).Nodup := by
    refine h.pairwise.imp_of_mem fun {x y} hx _ hxy => ?_
    rintro rfl
    have := h.low_le_high x hx
    omega
  exact (nodup_middle.mp hnodup).notMem hm

theorem Moved.contents_eq {a : Nat} (h : Moved a post post') :
    contents (pre ++ post') = contents (pre ++ post) := by
  obtain rfl | ⟨m, rest, rfl, rfl⟩ := h
  · rfl
  · rw [contents_append_cons, contents_append_cons]
    rfl

theorem Moved.ordered {a : Nat} (h : Moved a post post') (ho : Ordered (pre ++ post)) :
    Ordered (pre ++ post') := by
  refine ho.congr ?_
  obtain rfl | ⟨m, rest, rfl, rfl⟩ := h
  · rfl
  · rw [map_append, map_append, map_cons, map_cons]

theorem Ordered.low_lt (h : Ordered l) : l.Pairwise fun a b => a.low < b.low :=
  h.pairwise.imp_of_mem fun {a b} ha _ hab => Nat.lt_of_le_of_lt (h.low_le_high a ha) hab

theorem Ordered.first (h : Ordered l) {p : Node → Bool} {q : Content → Prop}
    (hpq : ∀ n, p n = true ↔ q n.content) :
    ((l.filter p).head? = none ↔ ∀ e ∈ h.set.entries, ¬q e) ∧
      ∀ n, (l.filter p).head? = some n → n ∈ l ∧ h.set.First q n.content := by
  constructor
  · rw [List.head?_eq_none_iff, filter_eq_nil_iff]
    constructor
    · intro hnone e he
      obtain ⟨n, hn, rfl⟩ := mem_contents.mp he
      exact fun hq => hnone n hn ((hpq n).mpr hq)
    · exact fun hnone n hn hp => hnone _ (mem_contents.mpr ⟨n, hn, rfl⟩) ((hpq n).mp hp)
  · intro n hhead
    have hmem := mem_of_mem_head? hhead
    obtain ⟨hn, hp⟩ := mem_filter.mp hmem
    refine ⟨hn, mem_contents.mpr ⟨n, hn, rfl⟩, (hpq n).mp hp, fun f hf hq => ?_⟩
    obtain ⟨m, hm, rfl⟩ := mem_contents.mp hf
    have hmf : m ∈ l.filter p := mem_filter.mpr ⟨hm, (hpq m).mpr hq⟩
    have hsorted := h.low_lt.filter p
    cases hlist : l.filter p with
    | nil =>
      rw [hlist] at hmf
      cases hmf
    | cons x rest =>
      rw [hlist] at hhead hmf hsorted
      cases hhead
      obtain rfl | hrest := mem_cons.mp hmf
      · exact le_rfl
      · exact Nat.le_of_lt ((pairwise_cons.mp hsorted).1 m hrest)

theorem Ordered.last (h : Ordered l) {p : Node → Bool} {q : Content → Prop}
    (hpq : ∀ n, p n = true ↔ q n.content) :
    ((l.filter p).getLast? = none ↔ ∀ e ∈ h.set.entries, ¬q e) ∧
      ∀ n, (l.filter p).getLast? = some n → n ∈ l ∧ h.set.Last q n.content := by
  constructor
  · rw [List.getLast?_eq_none_iff, ← List.head?_eq_none_iff]
    exact (h.first hpq).1
  · intro n hlast
    have hmem := mem_of_getLast? hlast
    obtain ⟨hn, hp⟩ := mem_filter.mp hmem
    refine ⟨hn, mem_contents.mpr ⟨n, hn, rfl⟩, (hpq n).mp hp, fun f hf hq => ?_⟩
    obtain ⟨m, hm, rfl⟩ := mem_contents.mp hf
    have hmf : m ∈ l.filter p := mem_filter.mpr ⟨hm, (hpq m).mpr hq⟩
    have hsorted := h.low_lt.filter p
    obtain ⟨rest, hlist⟩ := List.getLast?_eq_some_iff.mp hlast
    rw [hlist] at hmf hsorted
    obtain hrest | hself := mem_append.mp hmf
    · exact Nat.le_of_lt ((pairwise_append.mp hsorted).2.2 m hrest n (by simp))
    · obtain rfl := mem_singleton.mp hself
      exact le_rfl

theorem Ordered.filter_neighbours (h : Ordered (pre ++ n :: post)) :
    (pre ++ n :: post).filter (fun m => n.low < m.low) = post ∧
      (pre ++ n :: post).filter (fun m => m.low < n.low) = pre := by
  obtain ⟨-, hcons, hcross⟩ := pairwise_append.mp h.low_lt
  obtain ⟨hpost, -⟩ := pairwise_cons.mp hcons
  have hpre : ∀ m ∈ pre, m.low < n.low := fun m hm => hcross m hm n mem_cons_self
  constructor
  · have hnone : pre.filter (fun m => n.low < m.low) = [] := by
      rw [filter_eq_nil_iff]
      grind
    have hall : post.filter (fun m => n.low < m.low) = post :=
      filter_eq_self.mpr fun m hm => decide_eq_true (hpost m hm)
    grind
  · have hnone : post.filter (fun m => m.low < n.low) = [] := by
      rw [filter_eq_nil_iff]
      grind
    have hall : pre.filter (fun m => m.low < n.low) = pre :=
      filter_eq_self.mpr fun m hm => decide_eq_true (hpre m hm)
    rw [filter_append, hall, filter_cons, if_neg (by simp), hnone, append_nil]

namespace IntervalHeap

structure Shaped (h : IntervalHeap) (t : Shape) : Prop where
  holds : h.Holds t
  ordered : Ordered (h.treeOf t).nodes

variable {t : Shape} {e : Content} {a : Nat}

theorem Shaped.mem_nodes {h : IntervalHeap} (hs : h.Shaped t) {n : Node} :
    n ∈ (h.treeOf t).nodes ↔ ∃ a, h.Reaches a ∧ h.nodeAt a = n := by
  rw [nodes_treeOf, mem_map]
  simp only [hs.holds.reaches_iff]

theorem Shaped.nodup {h : IntervalHeap} (hs : h.Shaped t) :
    ((h.treeOf t).nodes.map Node.addr).Nodup := by
  rw [addrs_treeOf]
  exact hs.holds.nodup

theorem Shaped.mem_entries {h : IntervalHeap} (hs : h.Shaped t) :
    e ∈ hs.ordered.set.entries ↔ ∃ a, h.Reaches a ∧ (h.cell a).val = e := by
  refine mem_contents.trans ?_
  constructor
  · rintro ⟨n, hn, rfl⟩
    obtain ⟨a, ha, rfl⟩ := hs.mem_nodes.mp hn
    exact ⟨a, ha, rfl⟩
  · rintro ⟨a, ha, rfl⟩
    exact ⟨h.nodeAt a, hs.mem_nodes.mpr ⟨a, ha, rfl⟩, rfl⟩

theorem Shaped.stores {h : IntervalHeap} (hs : h.Shaped t) :
    h.Stores hs.ordered.set where
  mem_iff := fun _ => hs.mem_entries
  once := by
    intro a b ha hb heq
    have hnode := hs.ordered.eq_of_content (hs.mem_nodes.mpr ⟨a, ha, rfl⟩)
      (hs.mem_nodes.mpr ⟨b, hb, rfl⟩) heq
    exact congrArg Node.addr hnode

theorem Shaped.alloc {h : IntervalHeap} (hs : h.Shaped t) (ha : ¬h.Reaches a) (e : Content) :
    (h.alloc a e).Holds t ∧ (h.alloc a e).treeOf t = h.treeOf t := by
  rw [hs.holds.reaches_iff] at ha
  have hsame : ∀ b ∈ t.addrs, (h.alloc a e).cell b = h.cell b := by
    intro b hb
    refine Function.update_of_ne ?_ ..
    rintro rfl
    exact ha hb
  exact ⟨⟨hs.holds.root, hs.holds.linked.congr fun b hb => .of_eq (hsame b hb), hs.holds.nodup⟩,
    treeOf_congr fun b hb => congrArg Cell.val (hsame b hb)⟩

theorem Shaped.insert {h : IntervalHeap} (hs : h.Shaped t) (ha : ¬h.Reaches a)
    (he : e.low ≤ e.high) : ∃ h' t' ok,
      Returns ((h.alloc a e).insertInterval a) (h', ok) ∧
        (ok = true ↔ hs.ordered.set.Free e) ∧ ∃ hs' : h'.Shaped t', hs'.ordered.set.entries =
          if ok then Insert.insert e hs.ordered.set.entries else hs.ordered.set.entries := by
  obtain ⟨hholds, htree⟩ := hs.alloc ha e
  have hcell : (h.alloc a e).cell a = ⟨e, none, none, none⟩ := Function.update_self ..
  have hnode : (h.alloc a e).nodeAt a = ⟨a, e.low, e.high, e.data⟩ := by
    rw [nodeAt, hcell]
  have hspec := insertInterval_tree hholds (fun hmem => ha (hs.holds.reaches_iff.mpr hmem))
    (by rw [hcell]) (by rw [hcell]) (by rw [hcell])
  rw [htree, hnode] at hspec
  have hmeets : ∀ n ∈ (h.treeOf t).nodes, n.content.Meets e ↔ n.overlaps e.low e.high = true :=
    fun n hn => Content.meets_iff (hs.ordered.low_le_high n hn) he
  obtain ⟨hnone, hreturns⟩ | ⟨h', t', hsome, hreturns, hholds', -⟩ := hspec
  · obtain ⟨n, hn, hover⟩ := Tree.overlaps_of_insert_none hnone
    refine ⟨_, t, false, hreturns, ?_, ⟨hholds, by rw [htree]; exact hs.ordered⟩, ?_⟩
    · refine ⟨fun hfalse => absurd hfalse Bool.false_ne_true, fun hfree => ?_⟩
      exact absurd ((hmeets n hn).mpr hover) (hfree _ (mem_contents.mpr ⟨n, hn, rfl⟩))
    · exact congrArg (fun x => contents x.nodes) htree
  · obtain ⟨pre, post, hsplit, hsplit', hbefore, hbehind⟩ :=
      Tree.insert_between he hsome hs.ordered
    refine ⟨h', t', true, hreturns, ?_, ⟨hholds', hs.ordered.insert he hsome⟩, ?_⟩
    · refine ⟨fun _ f hf hmeets' => ?_, fun _ => rfl⟩
      obtain ⟨n, hn, rfl⟩ := mem_contents.mp hf
      have hover := Node.overlaps_iff.mp ((hmeets n hn).mp hmeets')
      grind
    · change contents _ = Insert.insert e (contents _)
      rw [hsplit, hsplit', contents_append_cons]
      rfl

theorem Shaped.remove {h : IntervalHeap} (hs : h.Shaped t) (ha : h.Reaches a) :
    ∃ h' t' s, Returns (h.removeInterval a) (h', s) ∧
      (∃ hs' : h'.Shaped t',
        hs'.ordered.set.entries = hs.ordered.set.entries.erase (h.cell a).val) ∧
      (h'.cell s).val.data = (h.cell a).val.data ∧ ∀ b, h'.Reaches b ↔ h.Reaches b ∧ b ≠ s := by
  obtain ⟨h', t', s, hremoves⟩ := removeInterval_tree hs.holds (hs.holds.reaches_iff.mp ha)
  have hn := hs.mem_nodes.mpr ⟨a, ha, rfl⟩
  obtain ⟨pre, post, post', hsplit, hsplit', hmoved⟩ := Tree.nodes_remove hn rfl hs.nodup
  have hnodes : (h'.treeOf t').nodes = pre ++ post' := by
    rw [hremoves.tree]
    exact hsplit'
  have hwhole : Ordered (pre ++ h.nodeAt a :: post) := hsplit ▸ hs.ordered
  have hordered : Ordered (pre ++ post') := by
    refine hmoved.ordered (hwhole.sublist ?_)
    exact (List.Sublist.refl pre).append (sublist_cons_self _ _)
  refine ⟨h', t', s, hremoves.returns, ⟨⟨hremoves.holds, hnodes ▸ hordered⟩, ?_⟩, hremoves.data,
    fun b => ?_⟩
  · change contents _ = (contents _).erase _
    rw [hnodes, hmoved.contents_eq, hwhole.contents_erase, hsplit]
    rfl
  · rw [hremoves.holds.reaches_iff, hs.holds.reaches_iff]
    exact hremoves.addrs b

theorem Shaped.reaches_of_mem {h : IntervalHeap} (hs : h.Shaped t) {n : Node}
    (hn : n ∈ (h.treeOf t).nodes) : h.Reaches n.addr ∧ (h.cell n.addr).val = n.content := by
  obtain ⟨a, ha, rfl⟩ := hs.mem_nodes.mp hn
  exact ⟨ha, rfl⟩

theorem Shaped.search {h : IntervalHeap} (hs : h.Shaped t) (start count : Nat) :
    ∃ found, Returns (h.searchInterval start count) found ∧
      (found = none ↔ ∀ e ∈ hs.ordered.set.entries,
        ¬checkOverlap e ⟨start, intervalEnd start count, none⟩ = true) ∧
      ∀ a, found = some a → h.Reaches a ∧ hs.ordered.set.First
        (fun e => checkOverlap e ⟨start, intervalEnd start count, none⟩ = true) (h.cell a).val := by
  have hreturns := searchInterval_tree hs.holds start count
  rw [Tree.search_eq_head start count hs.ordered hs.nodup] at hreturns
  obtain ⟨hnone, hsome⟩ := hs.ordered.first
    (p := fun n => n.overlaps start (intervalEnd start count))
    (q := fun e => checkOverlap e ⟨start, intervalEnd start count, none⟩ = true) fun _ => Iff.rfl
  refine ⟨_, hreturns, Option.map_eq_none_iff.trans hnone, fun a ha => ?_⟩
  grind [Option.map_eq_some_iff, reaches_of_mem]

theorem Shaped.split {h : IntervalHeap} (hs : h.Shaped t) (ha : h.Reaches a) :
    ∃ pre post : List Nat, t.addrs = pre ++ a :: post ∧
      (h.treeOf t).nodes.filter (fun m => (h.cell a).val.low < m.low) = post.map h.nodeAt ∧
      (h.treeOf t).nodes.filter (fun m => m.low < (h.cell a).val.low) = pre.map h.nodeAt := by
  obtain ⟨pre, post, hsplit⟩ := append_of_mem (hs.holds.reaches_iff.mp ha)
  have hnodes : (h.treeOf t).nodes = pre.map h.nodeAt ++ h.nodeAt a :: post.map h.nodeAt := by
    rw [nodes_treeOf, hsplit, map_append, map_cons]
  have hordered := hs.ordered
  rw [hnodes] at hordered
  refine ⟨pre, post, hsplit, ?_, ?_⟩
  · rw [hnodes]
    exact hordered.filter_neighbours.1
  · rw [hnodes]
    exact hordered.filter_neighbours.2

theorem Shaped.next {h : IntervalHeap} (hs : h.Shaped t) (ha : h.Reaches a) :
    ∃ b, Returns (h.nextInterval a) b ∧
      (b = none ↔ ∀ e ∈ hs.ordered.set.entries, ¬(h.cell a).val.low < e.low) ∧
      ∀ x, b = some x → h.Reaches x ∧
        hs.ordered.set.First (fun e => (h.cell a).val.low < e.low) (h.cell x).val := by
  obtain ⟨pre, post, hsplit, hbehind, -⟩ := hs.split ha
  obtain ⟨hnone, hsome⟩ := hs.ordered.first (p := fun m => (h.cell a).val.low < m.low)
    (q := fun e => (h.cell a).val.low < e.low) fun _ => decide_eq_true_iff
  rw [hbehind, List.head?_map] at hnone hsome
  refine ⟨post.head?, ⟨_, fun fuel hfuel => (neighbours hs.holds hsplit hfuel).1⟩,
    Option.map_eq_none_iff.symm.trans hnone, fun x hx => ?_⟩
  obtain ⟨hn, hfirst⟩ := hsome (h.nodeAt x) (by rw [hx]; rfl)
  exact ⟨(hs.reaches_of_mem hn).1, hfirst⟩

theorem Shaped.prev {h : IntervalHeap} (hs : h.Shaped t) (ha : h.Reaches a) :
    ∃ b, Returns (h.prevInterval a) b ∧
      (b = none ↔ ∀ e ∈ hs.ordered.set.entries, ¬e.low < (h.cell a).val.low) ∧
      ∀ x, b = some x → h.Reaches x ∧
        hs.ordered.set.Last (fun e => e.low < (h.cell a).val.low) (h.cell x).val := by
  obtain ⟨pre, post, hsplit, -, hbefore⟩ := hs.split ha
  obtain ⟨hnone, hsome⟩ := hs.ordered.last (p := fun m => m.low < (h.cell a).val.low)
    (q := fun e => e.low < (h.cell a).val.low) fun _ => decide_eq_true_iff
  rw [hbefore, List.getLast?_map] at hnone hsome
  refine ⟨pre.getLast?, ⟨_, fun fuel hfuel => (neighbours hs.holds hsplit hfuel).2⟩,
    Option.map_eq_none_iff.symm.trans hnone, fun x hx => ?_⟩
  obtain ⟨hn, hlast⟩ := hsome (h.nodeAt x) (by rw [hx]; rfl)
  exact ⟨(hs.reaches_of_mem hn).1, hlast⟩

theorem Shaped.overlap {h : IntervalHeap} (hs : h.Shaped t) {start count : Nat}
    (hcount : 1 ≤ count) (hfits : start + count ≤ 2 ^ 32) (he : e ∈ hs.ordered.set.entries) :
    checkOverlap e ⟨start, intervalEnd start count, none⟩ = true ↔
      e.Meets ⟨start, start + count - 1, none⟩ := by
  grind [intervalEnd, Content.meets_iff, Ordered.set, IntervalSet.proper]

theorem Shaped.behaves {h : IntervalHeap} (hs : h.Shaped t) :
    h.Behaves hs.ordered.set where
  stores := hs.stores
  overlap := fun _ _ hcount hfits _ he => hs.overlap hcount hfits he
  insert := by
    intro a e ha he
    obtain ⟨h', t', ok, hreturns, hok, hs', hentries⟩ := hs.insert ha he
    exact ⟨h', ok, hreturns, hok, hs'.ordered.set, hs'.stores, hentries⟩
  remove := by
    intro a ha
    obtain ⟨h', t', s, hreturns, ⟨hs', hentries⟩, hdata, hreaches⟩ := hs.remove ha
    exact ⟨h', s, hreturns, ⟨hs'.ordered.set, hs'.stores, hentries⟩, hdata, hreaches⟩
  search := hs.search
  next := fun _ ha => hs.next ha
  prev := fun _ ha => hs.prev ha

theorem Shaped.assign {h : IntervalHeap} (hs : h.Shaped t) (a : Nat) (data : Option Nat) :
    Shaped (h.setVal a { (h.cell a).val with data := data }) t := by
  refine ⟨hs.holds.setVal _ _, hs.ordered.congr ?_⟩
  rw [nodes_treeOf, nodes_treeOf, map_map, map_map]
  refine map_congr_left fun b _ => ?_
  by_cases hb : b = a
  · subst hb
    simp [nodeAt]
  · simp [nodeAt, Heap.setVal_of_ne _ _ hb]

theorem Built.shaped {h : IntervalHeap} (hb : Built h) : ∃ t, h.Shaped t := by
  induction hb with
  | @empty h root =>
    exact ⟨.nil, ⟨root, trivial, nodup_nil⟩, ⟨List.Pairwise.nil, by simp [treeOf, Tree.nodes]⟩⟩
  | insert _ unused proper returns ih =>
    obtain ⟨t, hs⟩ := ih
    obtain ⟨h'', t', ok', hreturns, -, hs', -⟩ := hs.insert unused proper
    cases returns.unique hreturns
    exact ⟨t', hs'⟩
  | remove _ used returns ih =>
    obtain ⟨t, hs⟩ := ih
    obtain ⟨h'', t', s', hreturns, ⟨hs', -⟩, -⟩ := hs.remove used
    cases returns.unique hreturns
    exact ⟨t', hs'⟩
  | assign _ data ih =>
    obtain ⟨t, hs⟩ := ih
    exact ⟨t, hs.assign _ data⟩
  | other _ root same ih =>
    obtain ⟨t, hs⟩ := ih
    have hcell := fun a ha => same a (hs.holds.reaches_iff.mpr ha)
    refine ⟨t, ⟨root.trans hs.holds.root, hs.holds.linked.congr fun a ha => .of_eq (hcell a ha),
      hs.holds.nodup⟩, ?_⟩
    rw [treeOf_congr fun a ha => congrArg Cell.val (hcell a ha)]
    exact hs.ordered

/-- The interval tree is a set of disjoint intervals. -/
theorem Built.refines_set {h : IntervalHeap} (hb : Built h) : ∃ S, h.Behaves S := by
  obtain ⟨t, hs⟩ := hb.shaped
  exact ⟨_, hs.behaves⟩

def oneInterval : IntervalHeap :=
  { root := some 0, cell := fun _ => ⟨⟨5, 9, some 3⟩, none, none, none⟩ }

theorem built_oneInterval : Built oneInterval := by
  have hempty : Built { oneInterval with root := none } := .empty rfl
  have hunused : ¬Heap.Reaches { oneInterval with root := none } 0 := by
    intro hreaches
    cases hreaches with
    | root heq => cases heq
    | left _ heq => cases heq
    | right _ heq => cases heq
  have hreturns : Returns ((alloc { oneInterval with root := none } 0 ⟨5, 9, some 3⟩).insertInterval 0)
      ({ alloc { oneInterval with root := none } 0 ⟨5, 9, some 3⟩ with root := some 0 }, true) :=
    ⟨0, fun _ _ => rfl⟩
  refine .other (.insert hempty hunused (by decide) hreturns) rfl fun a _ => ?_
  simp [alloc, oneInterval]

theorem refines_set_oneInterval : ∃ S, oneInterval.Behaves S ∧ (⟨5, 9, some 3⟩ : Content) ∈ S.entries := by
  obtain ⟨S, hS⟩ := built_oneInterval.refines_set
  exact ⟨S, hS, (hS.stores.mem_iff _).mpr ⟨0, .root rfl, rfl⟩⟩

end IntervalHeap

end Avb4Linux.Maap
