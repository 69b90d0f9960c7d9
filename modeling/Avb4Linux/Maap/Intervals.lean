import Mathlib.Algebra.Group.Nat.Defs
import Mathlib.Data.List.Nodup
import Mathlib.Data.List.Basic
import Mathlib.Data.List.TakeWhile

/-!
# The interval tree

`intervals.c`. A node is known by its address; the parent pointers are left out, and
`next_interval` and `prev_interval` go through a list.
-/

namespace Avb4Linux.Maap

open List

structure Node where
  addr : Nat
  low : Nat
  high : Nat
  data : Option Nat := none
  deriving DecidableEq, Repr

inductive Tree where
  | nil
  | node (left : Tree) (n : Node) (right : Tree)
  deriving DecidableEq, Repr

/-- The nodes in order, as `minimum_interval` and `next_interval` visit them. -/
def Tree.nodes : Tree → List Node
  | nil => []
  | node l n r => l.nodes ++ n :: r.nodes

/-- `check_overlap`, and `interval_check_overlap` with the end of the second interval
already computed. -/
def Node.overlaps (n : Node) (low high : Nat) : Bool :=
  n.low ≤ high && low ≤ n.high

def intervalEnd (start count : Nat) : Nat :=
  (start + count + (2 ^ 32 - 1)) % 2 ^ 32

/-- `insert_interval`; `none` is `INTERVAL_OVERLAP`. -/
def Tree.insert (new : Node) : Tree → Option Tree
  | nil => some (node nil new nil)
  | node l n r =>
    if n.overlaps new.low new.high then none
    else if new.low < n.low then (l.insert new).map fun l' => node l' n r
    else (r.insert new).map fun r' => node l n r'

def Tree.takeMin : Tree → Option (Node × Tree)
  | nil => none
  | node nil n r => some (n, r)
  | node (node ll ln lr) n r => (takeMin (node ll ln lr)).map fun x => (x.1, node x.2 n r)

/-- What `remove_interval` puts in the place of the node at `a`. A node with two
children stays, with the contents of its successor, whose node is taken out. -/
def Tree.snip (a : Nat) (l r : Tree) : Tree :=
  match l with
  | nil => r
  | node ll ln lr =>
    match r.takeMin with
    | none => node ll ln lr
    | some (m, r') => node (node ll ln lr) { m with addr := a } r'

def Tree.remove (a : Nat) : Tree → Tree
  | nil => nil
  | node l n r => if n.addr = a then snip a l r else node (l.remove a) n (r.remove a)

def Tree.setData (a : Nat) (d : Option Nat) : Tree → Tree
  | nil => nil
  | node l n r =>
    node (l.setData a d) (if n.addr = a then { n with data := d } else n) (r.setData a d)

def Tree.descend (low high : Nat) : Tree → Option Node
  | nil => none
  | node l n r =>
    if n.overlaps low high then some n
    else if low < n.low then l.descend low high
    else r.descend low high

/-- `search_interval`: from a node that overlaps, back to the first of the nodes before
it that overlap too. -/
def Tree.search (start count : Nat) (t : Tree) : Option Node :=
  (t.descend start (intervalEnd start count)).map fun cur =>
    let before := (t.nodes.takeWhile fun n => n.addr ≠ cur.addr).reverse
    ((before.takeWhile fun n => n.overlaps start (intervalEnd start count)).getLast?).getD cur

def Tree.nodesFrom (start count : Nat) (t : Tree) : List Node :=
  match t.search start count with
  | none => []
  | some cur => t.nodes.dropWhile fun n => n.addr ≠ cur.addr

variable {t t' : Tree} {a high low : Nat} {l l' : List Node} {n : Node}

theorem Tree.nodes_insert {new : Node} (h : t.insert new = some t') :
    ∃ a b, t.nodes = a ++ b ∧ t'.nodes = a ++ new :: b := by
  induction t generalizing t' with
  | nil =>
    cases h
    exact ⟨[], [], rfl, rfl⟩
  | node l n r ihl ihr =>
    grind [insert, Option.map_eq_some_iff, nodes]

theorem Tree.nodes_takeMin {m : Node} (h : t.takeMin = some (m, t')) : t.nodes = m :: t'.nodes := by
  induction t generalizing t' with
  | nil => cases h
  | node l n r ihl _ =>
    cases l with
    | nil =>
      cases h
      rfl
    | node ll ln lr =>
      grind [takeMin, Option.map_eq_some_iff, nodes]

theorem Tree.takeMin_eq_none (h : t.takeMin = none) : t = nil := by
  induction t with
  | nil => rfl
  | node l n r ihl _ =>
    cases l with
    | nil => cases h
    | node ll ln lr =>
      rw [Tree.takeMin] at h
      cases ihl (Option.map_eq_none_iff.mp h)

theorem Tree.remove_of_not_mem (h : ∀ n ∈ t.nodes, n.addr ≠ a) : t.remove a = t := by
  induction t with
  | nil => rfl
  | node l n r ihl ihr =>
    grind [nodes, remove]

/-- The nodes behind a removed one: the same, or the first of them has moved to the
removed node. -/
def Moved (a : Nat) (post post' : List Node) : Prop :=
  post' = post ∨ ∃ m rest, post = m :: rest ∧ post' = { m with addr := a } :: rest

theorem Moved.append {post post' : List Node} (h : Moved a post post') :
    Moved a (post ++ l) (post' ++ l) := by
  rcases h with rfl | ⟨m, rest, rfl, rfl⟩
  · exact Or.inl rfl
  · exact Or.inr ⟨m, rest ++ l, rfl, rfl⟩

theorem Tree.nodes_snip (a : Nat) (l r : Tree) :
    ∃ post', (snip a l r).nodes = l.nodes ++ post' ∧ Moved a r.nodes post' := by
  cases l with
  | nil => exact ⟨r.nodes, rfl, Or.inl rfl⟩
  | node ll ln lr =>
    unfold snip
    cases hmin : r.takeMin with
    | none =>
      rw [takeMin_eq_none hmin]
      exact ⟨[], (append_nil _).symm, Or.inl rfl⟩
    | some x =>
      exact ⟨{ x.1 with addr := a } :: x.2.nodes, rfl,
        Or.inr ⟨x.1, x.2.nodes, nodes_takeMin hmin, rfl⟩⟩

theorem Tree.nodes_remove (hn : n ∈ t.nodes) (ha : n.addr = a)
    (hnodup : (t.nodes.map Node.addr).Nodup) :
    ∃ pre post post', t.nodes = pre ++ n :: post ∧ (t.remove a).nodes = pre ++ post' ∧
      Moved a post post' := by
  induction t with
  | nil => cases hn
  | node l m r ihl ihr =>
    rw [nodes, map_append, map_cons, nodup_append, nodup_cons] at hnodup
    obtain ⟨hl, ⟨hm, hr⟩, hdisj⟩ := hnodup
    have hleft : ∀ x ∈ l.nodes, x.addr ≠ m.addr := fun x hx =>
      hdisj _ (mem_map_of_mem hx) _ mem_cons_self
    have hright : ∀ x ∈ r.nodes, x.addr ≠ m.addr := fun x hx hxm =>
      hm (hxm ▸ mem_map_of_mem hx)
    have hacross : ∀ x ∈ l.nodes, ∀ y ∈ r.nodes, x.addr ≠ y.addr := fun x hx y hy =>
      hdisj _ (mem_map_of_mem hx) _ (mem_cons_of_mem _ (mem_map_of_mem hy))
    rw [nodes] at hn ⊢
    rw [Tree.remove]
    rcases mem_append.mp hn with hnl | hnr
    · have hma : m.addr ≠ a := fun h => hleft n hnl (ha.trans h.symm)
      have hra : ∀ y ∈ r.nodes, y.addr ≠ a := fun y hy h => hacross n hnl y hy (ha.trans h.symm)
      obtain ⟨pre, post, post', hl1, hl2, hmoved⟩ := ihl hnl hl
      rw [if_neg hma, remove_of_not_mem hra, nodes, hl1, hl2]
      exact ⟨pre, post ++ m :: r.nodes, post' ++ m :: r.nodes, by simp, by simp, hmoved.append⟩
    · rcases mem_cons.mp hnr with rfl | hnr
      · obtain ⟨post', hsnip, hmoved⟩ := nodes_snip a l r
        rw [if_pos ha]
        exact ⟨l.nodes, r.nodes, post', rfl, hsnip, hmoved⟩
      · have hma : m.addr ≠ a := fun h => hright n hnr (ha.trans h.symm)
        have hla : ∀ x ∈ l.nodes, x.addr ≠ a := fun x hx h => hacross x hx n hnr (h.trans ha.symm)
        obtain ⟨pre, post, post', hr1, hr2, hmoved⟩ := ihr hnr hr
        rw [if_neg hma, remove_of_not_mem hla, nodes, hr1, hr2]
        exact ⟨l.nodes ++ m :: pre, post, post', by simp, by simp, hmoved⟩

theorem Tree.nodes_setData (a : Nat) (d : Option Nat) (t : Tree) :
    (t.setData a d).nodes =
      t.nodes.map fun n => if n.addr = a then { n with data := d } else n := by
  induction t with
  | nil => rfl
  | node l n r ihl ihr => simp [Tree.setData, nodes, ihl, ihr]

structure Ordered (l : List Node) : Prop where
  pairwise : l.Pairwise fun a b => a.high < b.low
  low_le_high : ∀ n ∈ l, n.low ≤ n.high

theorem Ordered.append_left (h : Ordered (l ++ l')) : Ordered l :=
  ⟨(List.pairwise_append.mp h.pairwise).1, fun n hn =>
    h.low_le_high n (List.mem_append_left _ hn)⟩

theorem Ordered.append_right (h : Ordered (l ++ l')) : Ordered l' :=
  ⟨(List.pairwise_append.mp h.pairwise).2.1, fun n hn =>
    h.low_le_high n (List.mem_append_right _ hn)⟩

theorem Ordered.of_node {l r : Tree} (h : Ordered (Tree.node l n r).nodes) :
    Ordered l.nodes ∧ Ordered r.nodes ∧ n.low ≤ n.high ∧
      (∀ x ∈ l.nodes, x.high < n.low) ∧ ∀ x ∈ r.nodes, n.high < x.low := by
  rw [Tree.nodes] at h
  have hcons := h.append_right
  have hright : Ordered ([n] ++ r.nodes) := hcons
  refine ⟨h.append_left, hright.append_right, hcons.low_le_high n mem_cons_self, ?_, ?_⟩
  · intro x hx
    exact (pairwise_append.mp h.pairwise).2.2 x hx n mem_cons_self
  · exact (pairwise_cons.mp hcons.pairwise).1

theorem Tree.insert_between {new : Node} (hnew : new.low ≤ new.high) (h : t.insert new = some t')
    (ht : Ordered t.nodes) :
    ∃ a b, t.nodes = a ++ b ∧ t'.nodes = a ++ new :: b ∧ (∀ x ∈ a, x.high < new.low) ∧
      ∀ x ∈ b, new.high < x.low := by
  induction t generalizing t' with
  | nil =>
    cases h
    exact ⟨[], [], rfl, rfl, by simp, by simp⟩
  | node l n r ihl ihr =>
    obtain ⟨hl, hr, hn, hbefore, hbehind⟩ := ht.of_node
    rw [Tree.insert] at h
    split at h
    · cases h
    · rename_i hoverlap
      rw [Node.overlaps, Bool.and_eq_true, decide_eq_true_eq, decide_eq_true_eq] at hoverlap
      split at h
      · rename_i hless
        obtain ⟨l', hl', rfl⟩ := Option.map_eq_some_iff.mp h
        obtain ⟨a, b, hab, hab', ha, hb⟩ := ihl hl' hl
        refine ⟨a, b ++ n :: r.nodes, by simp [nodes, hab], by simp [nodes, hab'], ha, ?_⟩
        grind
      · rename_i hless
        obtain ⟨r', hr', rfl⟩ := Option.map_eq_some_iff.mp h
        obtain ⟨a, b, hab, hab', ha, hb⟩ := ihr hr' hr
        refine ⟨l.nodes ++ n :: a, b, by simp [nodes, hab], by simp [nodes, hab'], ?_, hb⟩
        grind

theorem Ordered.insert {new : Node} (ht : Ordered t.nodes) (hnew : new.low ≤ new.high)
    (h : t.insert new = some t') : Ordered t'.nodes := by
  obtain ⟨a, b, hab, hab', ha, hb⟩ := Tree.insert_between hnew h ht
  rw [hab] at ht
  rw [hab']
  obtain ⟨hpa, hpb, hcross⟩ := pairwise_append.mp ht.pairwise
  refine ⟨pairwise_append.mpr ⟨hpa, pairwise_cons.mpr ⟨hb, hpb⟩, ?_⟩, ?_⟩
  all_goals grind [low_le_high]

theorem Tree.overlaps_of_insert_none {new : Node} (h : t.insert new = none) :
    ∃ n ∈ t.nodes, n.overlaps new.low new.high = true := by
  induction t with
  | nil => cases h
  | node l n r ihl ihr =>
    grind [insert, nodes, Option.map_eq_none_iff]

theorem Ordered.sublist (h : Ordered l) (hsub : l'.Sublist l) : Ordered l' :=
  ⟨h.pairwise.sublist hsub, fun n hn => h.low_le_high n (hsub.subset hn)⟩

theorem Ordered.congr (h : Ordered l)
    (heq : l.map (fun n => (n.low, n.high)) = l'.map fun n => (n.low, n.high)) : Ordered l' := by
  have hpairs : (l.map fun n => (n.low, n.high)).Pairwise fun a b => a.2 < b.1 :=
    pairwise_map.mpr h.pairwise
  rw [heq] at hpairs
  refine ⟨pairwise_map.mp hpairs, fun n hn => ?_⟩
  have hmem : (n.low, n.high) ∈ l.map fun n => (n.low, n.high) := by
    grind
  grind [low_le_high, Prod.mk.injEq]

theorem Node.overlaps_iff : n.overlaps low high = true ↔ n.low ≤ high ∧ low ≤ n.high := by
  rw [Node.overlaps, Bool.and_eq_true, decide_eq_true_eq, decide_eq_true_eq]

theorem Tree.descend_mem (h : t.descend low high = some n) :
    n ∈ t.nodes ∧ n.overlaps low high = true := by
  induction t with
  | nil => cases h
  | node l m r ihl ihr =>
    rw [Tree.descend] at h
    rw [nodes, mem_append, mem_cons]
    grind

theorem Tree.descend_none (ht : Ordered t.nodes) (h : t.descend low high = none) :
    ∀ n ∈ t.nodes, n.overlaps low high = false := by
  induction t with
  | nil => simp [nodes]
  | node l m r ihl ihr =>
    obtain ⟨hl, hr, hm, hbefore, hbehind⟩ := ht.of_node
    rw [Tree.descend] at h
    split at h
    · cases h
    · rename_i hoverlap
      have hmiss := mt Node.overlaps_iff.mpr hoverlap
      intro n hn
      refine Bool.eq_false_iff.mpr fun hin => ?_
      rw [nodes, mem_append, mem_cons] at hn
      have hin' := Node.overlaps_iff.mp hin
      grind

theorem Ordered.takeWhile_overlaps (h : Ordered l) (hlow : ∀ n ∈ l, low ≤ n.high) :
    l.takeWhile (fun n => n.overlaps low high) = l.filter fun n => n.overlaps low high := by
  induction l with
  | nil => rfl
  | cons a l ih =>
    have htail : Ordered ([a] ++ l) := h
    by_cases ha : a.overlaps low high = true
    · rw [takeWhile_cons, if_pos ha, filter_cons, if_pos ha,
        ih htail.append_right fun n hn => hlow n (mem_cons_of_mem _ hn)]
    · rw [takeWhile_cons, if_neg ha, filter_cons, if_neg ha]
      refine (filter_eq_nil_iff.mpr fun n hn hin => ?_).symm
      have hmiss := mt Node.overlaps_iff.mpr ha
      have := (pairwise_cons.mp h.pairwise).1 n hn
      grind [low_le_high, Node.overlaps_iff]

theorem split_last_neg (p : Node → Bool) :
    ∃ l₁ l₂, l = l₁ ++ l₂ ∧ l.reverse.takeWhile p = l₂.reverse ∧ (∀ n ∈ l₂, p n = true) ∧
      ∀ n ∈ l₁.getLast?, p n = false := by
  refine ⟨(l.reverse.dropWhile p).reverse, (l.reverse.takeWhile p).reverse, ?_, ?_, ?_, ?_⟩
  · rw [← reverse_append, takeWhile_append_dropWhile, reverse_reverse]
  · rw [reverse_reverse]
  · intro n hn
    exact mem_takeWhile_imp (mem_reverse.mp hn)
  · intro n hn
    rw [List.getLast?_reverse] at hn
    have hne : l.reverse.dropWhile p ≠ [] := by
      intro hnil
      rw [hnil] at hn
      cases hn
    have hhead := head_dropWhile_not p hne
    rw [List.head?_eq_some_head hne] at hn
    cases hn
    exact hhead

theorem Tree.nodesFrom_spec (start count : Nat) (ht : Ordered t.nodes)
    (hnodup : (t.nodes.map Node.addr).Nodup) :
    ∃ pre, t.nodes = pre ++ t.nodesFrom start count ∧
      (∀ n ∈ pre, n.overlaps start (intervalEnd start count) = false) ∧
      ∀ n ∈ t.nodesFrom start count, start ≤ n.high := by
  unfold nodesFrom search
  generalize intervalEnd start count = high
  cases hdesc : t.descend start high with
  | none => exact ⟨t.nodes, (append_nil _).symm, descend_none ht hdesc, by simp⟩
  | some cur =>
    obtain ⟨hmem, hcur⟩ := descend_mem hdesc
    obtain ⟨A, B, hAB⟩ := append_of_mem hmem
    rw [hAB] at ht hnodup ⊢
    have hAcur : ∀ n ∈ A, n.addr ≠ cur.addr := by
      grind
    have hbefore : (A ++ cur :: B).takeWhile (fun n => decide (n.addr ≠ cur.addr)) = A := by
      simp_all
    obtain ⟨A₁, A₂, rfl, hback, hA₂, hlast⟩ :=
      split_last_neg (l := A) fun n => n.overlaps start high
    dsimp only [Option.map_some]
    rw [hbefore, hback, List.getLast?_reverse]
    -- the first of the nodes that overlap, and what follows it
    obtain ⟨first, tail, hfirst, htail, hfirstIn⟩ : ∃ first tail,
        A₂.head?.getD cur = first ∧ A₂ ++ cur :: B = first :: tail ∧
          first.overlaps start high = true := by
      cases A₂ with
      | nil => exact ⟨cur, B, rfl, rfl, hcur⟩
      | cons y A₂ => exact ⟨y, A₂ ++ cur :: B, rfl, rfl, hA₂ y mem_cons_self⟩
    rw [hfirst]
    rw [append_assoc, htail] at ht hnodup ⊢
    have hA₁ : ∀ n ∈ A₁, n.addr ≠ first.addr := by
      grind
    have hfrom : (A₁ ++ first :: tail).dropWhile (fun n => decide (n.addr ≠ first.addr)) =
        first :: tail := by
      rw [dropWhile_append_of_pos (by simpa using hA₁)]
      simp
    have hin := Node.overlaps_iff.mp hfirstIn
    rw [hfrom]
    refine ⟨A₁, rfl, fun n hn => Bool.eq_false_iff.mpr fun hnin => ?_, fun n hn => ?_⟩
    · -- the last node before them ends before `start`, and so do all before it
      obtain ⟨last, hlastEq⟩ : ∃ last, A₁.getLast? = some last :=
        Option.isSome_iff_exists.mp (by simpa using ne_nil_of_mem hn)
      have hmiss := mt Node.overlaps_iff.mpr (Bool.eq_false_iff.mp (hlast last hlastEq))
      obtain ⟨A₀, rfl⟩ : ∃ A₀, A₁ = A₀ ++ [last] := by
        rw [List.getLast?_eq_some_iff] at hlastEq
        exact hlastEq
      have hnin' := Node.overlaps_iff.mp hnin
      obtain ⟨hpA, -, hcross⟩ := pairwise_append.mp ht.pairwise
      have hlf := hcross last (by simp) first mem_cons_self
      have hle := ht.low_le_high last (by simp)
      rcases mem_append.mp hn with hn | hn
      · have := (pairwise_append.mp hpA).2.2 n hn last (by simp)
        omega
      · obtain rfl := mem_singleton.mp hn
        exact hmiss hnin'
    · rcases mem_cons.mp hn with rfl | hn
      · exact hin.2
      · have := (pairwise_cons.mp (pairwise_append.mp ht.pairwise).2.1).1 n hn
        have := ht.low_le_high n (by simp [hn])
        omega

theorem Tree.takeWhile_nodesFrom (start count : Nat) (ht : Ordered t.nodes)
    (hnodup : (t.nodes.map Node.addr).Nodup) :
    (t.nodesFrom start count).takeWhile (fun n => n.overlaps start (intervalEnd start count)) =
      t.nodes.filter fun n => n.overlaps start (intervalEnd start count) := by
  obtain ⟨pre, hpre, hmiss, hlow⟩ := nodesFrom_spec start count ht hnodup
  have hord : Ordered (t.nodesFrom start count) := by
    rw [hpre] at ht
    exact ht.append_right
  have hnone : pre.filter (fun n => n.overlaps start (intervalEnd start count)) = [] :=
    filter_eq_nil_iff.mpr fun n hn => Bool.eq_false_iff.mp (hmiss n hn)
  rw [hord.takeWhile_overlaps hlow]
  grind

theorem Tree.search_mem {start count : Nat} (h : t.search start count = some n) :
    n ∈ t.nodes ∧ n.overlaps start (intervalEnd start count) = true := by
  unfold search at h
  generalize intervalEnd start count = high at h ⊢
  obtain ⟨cur, hdesc, hn⟩ := Option.map_eq_some_iff.mp h
  dsimp only at hn
  obtain ⟨hmem, hcur⟩ := descend_mem hdesc
  cases hlast : ((t.nodes.takeWhile fun n => n.addr ≠ cur.addr).reverse.takeWhile
      fun n => n.overlaps start high).getLast? with
  | none =>
    grind
  | some m =>
    rw [hlast] at hn
    cases hn
    have hin := mem_of_getLast? hlast
    have hback := mem_reverse.mp ((takeWhile_sublist _).subset hin)
    have hover : m.overlaps start high = true :=
      mem_takeWhile_imp (p := fun n : Node => n.overlaps start high) hin
    exact ⟨(takeWhile_sublist _).subset hback, hover⟩

theorem Tree.search_eq_head (start count : Nat) (ht : Ordered t.nodes)
    (hnodup : (t.nodes.map Node.addr).Nodup) :
    t.search start count =
      (t.nodes.filter fun n => n.overlaps start (intervalEnd start count)).head? := by
  rw [← takeWhile_nodesFrom start count ht hnodup]
  unfold nodesFrom
  cases hsearch : t.search start count with
  | none => rfl
  | some cur =>
    obtain ⟨hmem, hcur⟩ := search_mem hsearch
    dsimp only
    cases hdrop : t.nodes.dropWhile fun n => n.addr ≠ cur.addr with
    | nil =>
      have hall := dropWhile_eq_nil_iff.mp hdrop cur hmem
      simp at hall
    | cons m tail =>
      have hne : t.nodes.dropWhile (fun n => decide (n.addr ≠ cur.addr)) ≠ [] := by
        rw [hdrop]
        exact cons_ne_nil _ _
      have hm := head_dropWhile_not (fun n : Node => decide (n.addr ≠ cur.addr)) hne
      simp only [hdrop, head_cons, decide_eq_false_iff_not, not_not] at hm
      have hmt : m ∈ t.nodes := (dropWhile_sublist _).subset (by rw [hdrop]; simp)
      obtain rfl : m = cur := inj_on_of_nodup_map hnodup hmt hmem hm
      rw [takeWhile_cons, if_pos hcur]
      rfl

end Avb4Linux.Maap
