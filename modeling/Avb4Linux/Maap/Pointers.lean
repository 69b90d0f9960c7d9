import Mathlib.Data.List.Perm.Subperm
import Mathlib.Data.List.Range
import Avb4Linux.Lib.Fallible
import Avb4Linux.Maap.Ledger

/-!
# The pointers between ranges, intervals and the timer queue

What the functions that change the interval tree or the timer queue do, seen from the
list of queued ranges and from the intervals with their owners.
-/

namespace Avb4Linux.Maap

open Lib Lib.Fallible List

variable {σ : Type}

theorem Time.le_iff {a b : Time} :
    a.le b = true ↔ a.tvSec < b.tvSec ∨ a.tvSec = b.tvSec ∧ a.tvNsec ≤ b.tvNsec := by
  simp [Time.le]

theorem Time.le_trans {a b c : Time} (hab : a.le b = true) (hbc : b.le c = true) :
    a.le c = true := by
  rw [le_iff] at *
  omega

theorem Time.le_total (a b : Time) : a.le b = true ∨ b.le a = true := by
  rw [le_iff, le_iff]
  omega

structure Client.Queued (c : Client σ) : Prop where
  chain : LinkedQueue.Chain c.nextTimer c.timerQueue c.queue
  below : ∀ r ∈ c.queue, r < c.nextRange
  sorted : c.queue.Pairwise fun a b => (c.mem a).nextActTime.le (c.mem b).nextActTime = true

variable {l : List Nat} {iv m n : Node} {c c' : Client σ} {attemptBase left len r : Nat}
  {t t' : Tree} {a b post post' pre : List Node}

theorem length_le_of_below {n : Nat} (hl : l.Nodup) (h : ∀ r ∈ l, r < n) : l.length ≤ n := by
  have hsub : l ⊆ List.range n := fun r hr => mem_range.mpr (h r hr)
  simpa using (hl.subperm hsub).length_le

theorem Client.queue_eq (h : LinkedQueue.Chain c.nextTimer c.timerQueue l)
    (hbelow : ∀ r ∈ l, r < c.nextRange) : c.queue = l :=
  h.follow_eq (length_le_of_below h.nodup hbelow)

theorem Client.Queued.of_chain (h : LinkedQueue.Chain c.nextTimer c.timerQueue l)
    (hbelow : ∀ r ∈ l, r < c.nextRange)
    (hsorted : l.Pairwise fun a b => (c.mem a).nextActTime.le (c.mem b).nextActTime = true) :
    c.Queued ∧ c.queue = l := by
  have hq := queue_eq h hbelow
  refine ⟨⟨?_, ?_, ?_⟩, hq⟩
  · rwa [hq]
  · rwa [hq]
  · rwa [hq]

theorem Client.Queued.congr {d : Client σ} (h : c.Queued) (hqueue : d.timerQueue = c.timerQueue)
    (hnext : d.nextTimer = c.nextTimer) (hrange : d.nextRange = c.nextRange)
    (hmem : ∀ r, (d.mem r).nextActTime = (c.mem r).nextActTime) : d.Queued ∧ d.queue = c.queue := by
  refine Client.Queued.of_chain ?_ ?_ ?_
  · rw [hnext, hqueue]
    exact h.chain
  · rw [hrange]
    exact h.below
  · refine h.sorted.imp fun {a b} hab => ?_
    rw [hmem a, hmem b]
    exact hab

theorem Client.requeue_spec (h : LinkedQueue.Chain c.nextTimer c.timerQueue l)
    (hbelow : ∀ a ∈ l, a < c.nextRange) (hr : r < c.nextRange)
    (hsorted : (l.erase r).Pairwise fun a b =>
      (c.mem a).nextActTime.le (c.mem b).nextActTime = true) :
    (c.requeue r).Queued ∧ ∀ a, a ∈ (c.requeue r).queue ↔ a = r ∨ a ∈ l := by
  have hlen := length_le_of_below h.nodup hbelow
  have hgone : r ∉ l.erase r := h.nodup.not_mem_erase
  have hout : LinkedQueue.Chain _ _ (l.erase r) :=
    LinkedQueue.unlink_chain (r := r) (q := ⟨c.timerQueue, c.nextTimer⟩) h hlen
  have hlenErase := length_erase_le (l := l) (a := r)
  have hin : LinkedQueue.Chain (c.requeue r).nextTimer (c.requeue r).timerQueue
      (LinkedQueue.insertList (fun a => (c.mem a).nextActTime.le (c.mem r).nextActTime) r
        (l.erase r)) := LinkedQueue.insert_chain hout hgone (hlenErase.trans hlen)
  have hmem : ∀ a, a ∈ LinkedQueue.insertList
      (fun a => (c.mem a).nextActTime.le (c.mem r).nextActTime) r (l.erase r) ↔ a = r ∨ a ∈ l := by
    grind [LinkedQueue.mem_insertList]
  have hsorted' : (LinkedQueue.insertList (fun a => (c.mem a).nextActTime.le (c.mem r).nextActTime)
      r (l.erase r)).Pairwise fun a b => (c.mem a).nextActTime.le (c.mem b).nextActTime = true := by
    grind [LinkedQueue.pairwise_insertList, Time.le_trans, Time.le_total]
  obtain ⟨hq, heq⟩ := Client.Queued.of_chain (c := c.requeue r) hin
    (fun a ha => ((hmem a).mp ha).elim (fun har => har ▸ hr) (hbelow a)) hsorted'
  refine ⟨hq, fun a => ?_⟩
  rw [heq]
  exact hmem a

theorem Client.scheduleTimer_eq (r : Nat) (c : Client σ) :
    ∃ t rnd clock, c.scheduleTimer r =
      { c.setRange r (fun range => { range with nextActTime := t }) with
        rnd := rnd, clock := clock }.requeue r := by
  unfold scheduleTimer
  cases (c.mem r).state with
  | PROBING => exact ⟨_, _, _, rfl⟩
  | DEFENDING => exact ⟨_, _, _, rfl⟩
  | RELEASED =>
    refine ⟨(c.mem r).nextActTime, c.rnd, c.clock, ?_⟩
    simp [setRange, Function.update_eq_self]

def Node.slot (n : Node) : Slot :=
  ⟨n.low, n.high, n.data⟩

def Client.slots (c : Client σ) : List Slot :=
  c.ranges.nodes.map Node.slot

theorem Client.mem_slots {s : Slot} : s ∈ c.slots ↔ ∃ n ∈ c.ranges.nodes, n.slot = s :=
  List.mem_map

structure Client.Linked (c : Client σ) : Prop where
  addrs : (c.ranges.nodes.map Node.addr).Nodup
  below : ∀ n ∈ c.ranges.nodes, n.addr < c.nextInterval
  back : ∀ n ∈ c.ranges.nodes, ∀ r, n.data = some r →
    (c.mem r).interval = some n.addr ∧ r < c.nextRange

theorem eq_of_addr {l : List Node} (h : (l.map Node.addr).Nodup) (hm : m ∈ l) (hn : n ∈ l)
    (heq : m.addr = n.addr) : m = n :=
  List.inj_on_of_nodup_map h hm hn heq

theorem Client.Linked.eq_of_owner (h : c.Linked) (hm : m ∈ c.ranges.nodes)
    (hn : n ∈ c.ranges.nodes) (hmr : m.data = some r) (hnr : n.data = some r) : m = n := by
  have hmi := (h.back m hm r hmr).1
  have hni := (h.back n hn r hnr).1
  exact eq_of_addr h.addrs hm hn (Option.some.inj (hmi.symm.trans hni))

theorem Client.Linked.find (h : c.Linked) (hn : n ∈ c.ranges.nodes) :
    c.ranges.nodes.find? (fun m => m.addr = n.addr) = some n := by
  cases hfind : c.ranges.nodes.find? (fun m => m.addr = n.addr) with
  | none => exact absurd (List.find?_eq_none.mp hfind n hn) (by simp)
  | some m =>
    have hm := mem_of_find?_eq_some hfind
    have hmn : m.addr = n.addr := by simpa using List.find?_some hfind
    rw [eq_of_addr h.addrs hm hn hmn]

theorem Client.Linked.node_eq (h : c.Linked) (hn : n ∈ c.ranges.nodes) (hr : n.data = some r) :
    c.node r = n := by
  rw [Client.node, (h.back n hn r hr).1, Option.bind_some, h.find hn, Option.getD_some]

theorem Client.Linked.congr (h : c.Linked) (hr : c'.ranges = c.ranges)
    (hi : c.nextInterval ≤ c'.nextInterval) (hn : c.nextRange ≤ c'.nextRange)
    (hm : ∀ r, r < c.nextRange → (c'.mem r).interval = (c.mem r).interval) : c'.Linked := by
  refine ⟨by rw [hr]; exact h.addrs, ?_, ?_⟩
  · rw [hr]
    exact fun n hmem => Nat.lt_of_lt_of_le (h.below n hmem) hi
  · grind [back, Nat.lt_of_lt_of_le]

theorem Client.tryInterval_some {start : Nat} (h : c.tryInterval start len = .ok (c', some iv)) :
    iv = allocInterval c.nextInterval start len ∧ iv.high ≤ rangeMax c.rangeLen ∧ ∃ t, c.ranges.insert iv = some t ∧
      c' = { c with ranges := t, nextInterval := c.nextInterval + 1 } := by
  unfold tryInterval at h
  dsimp only at h
  split at h
  · rename_i hhigh
    cases hins : c.ranges.insert (allocInterval c.nextInterval start len) with
    | none =>
      rw [hins] at h
      cases h
    | some t =>
      rw [hins] at h
      cases h
      exact ⟨rfl, hhigh, t, hins, rfl⟩
  · cases h

theorem Client.tryInterval_none {start : Nat} (h : c.tryInterval start len = .ok (c', none)) :
    c' = c ∧ c.ranges.insert (allocInterval c.nextInterval start len) = none := by
  unfold tryInterval at h
  dsimp only at h
  split at h
  · cases hins : c.ranges.insert (allocInterval c.nextInterval start len) with
    | none =>
      rw [hins] at h
      cases h
      exact ⟨rfl, rfl⟩
    | some t =>
      rw [hins] at h
      cases h
  · cases h

def Client.draw (c : Client σ) (len i : Nat) : Nat :=
  c.rnd i % modulus c.rangeLen len

def Client.drawn (c : Client σ) (k : Nat) : Client σ :=
  { c with rnd := fun i => c.rnd (i + k) }

theorem Client.drawOnce_some (h : c.drawOnce len = .ok (c', some iv)) :
    modulus c.rangeLen len ≠ 0 ∧ iv = allocInterval c.nextInterval (c.draw len 0) len ∧ iv.high ≤ rangeMax c.rangeLen ∧
      ∃ t, c.ranges.insert iv = some t ∧
        c' = { c.drawn 1 with ranges := t, nextInterval := c.nextInterval + 1 } := by
  unfold drawOnce at h
  by_cases hmod : modulus c.rangeLen len = 0
  · rw [if_pos hmod] at h
    cases h
  · rw [if_neg hmod] at h
    exact ⟨hmod, tryInterval_some h⟩

theorem Client.drawOnce_none (h : c.drawOnce len = .ok (c', none)) :
    modulus c.rangeLen len ≠ 0 ∧ c' = c.drawn 1 ∧
      c.ranges.insert (allocInterval c.nextInterval (c.draw len 0) len) = none := by
  unfold drawOnce at h
  by_cases hmod : modulus c.rangeLen len = 0
  · rw [if_pos hmod] at h
    cases h
  · rw [if_neg hmod] at h
    exact ⟨hmod, tryInterval_none h⟩

theorem Client.drawInterval_some {n : Nat} (h : c.drawInterval len n = .ok (c', some iv, left)) :
    ∃ k, left + k + 1 = n ∧ modulus c.rangeLen len ≠ 0 ∧
      (∀ i < k, c.ranges.insert (allocInterval c.nextInterval (c.draw len i) len) = none) ∧
      iv = allocInterval c.nextInterval (c.draw len k) len ∧ iv.high ≤ rangeMax c.rangeLen ∧
      ∃ t, c.ranges.insert iv = some t ∧
        c' = { c.drawn (k + 1) with ranges := t, nextInterval := c.nextInterval + 1 } := by
  induction n generalizing c with
  | zero => cases h
  | succ n ih =>
    obtain ⟨⟨c₁, found⟩, honce, h⟩ := bind_eq_ok.mp h
    cases found with
    | none =>
      -- the candidate overlaps: the rest of the loop starts one draw later
      obtain ⟨hmod, rfl, hmiss⟩ := drawOnce_none honce
      obtain ⟨k, hk, -, hmisses, hiv, hhigh, t, hins, hc'⟩ := ih h
      refine ⟨k + 1, by omega, hmod, fun i hi => ?_, hiv, hhigh, t, hins, hc'⟩
      cases i with
      | zero => exact hmiss
      | succ i => exact hmisses i (by omega)
    | some iv₁ =>
      cases h
      obtain ⟨hmod, hiv, hhigh, t, hins, hc'⟩ := drawOnce_some honce
      exact ⟨0, by omega, hmod, by simp, hiv, hhigh, t, hins, hc'⟩

theorem Client.drawInterval_none {n : Nat} (h : c.drawInterval len n = .ok (c', none, left)) :
    c' = c.drawn n := by
  induction n generalizing c with
  | zero =>
    cases h
    rfl
  | succ n ih =>
    obtain ⟨⟨c₁, found⟩, honce, h⟩ := bind_eq_ok.mp h
    cases found with
    | none =>
      obtain ⟨-, rfl, -⟩ := drawOnce_none honce
      exact ih h
    | some iv₁ => cases h

structure Client.Placed (c : Client σ) (attemptBase len : Nat) (iv : Node) : Prop where
  addr : iv.addr = c.nextInterval
  data : iv.data = none
  placement : Placement c.addressBase c.rangeLen attemptBase len iv.low iv.high

structure Client.Late (c : Client σ) (attemptBase len : Nat) : Prop where
  attempt : attempts c.addressBase c.rangeLen attemptBase len = true →
    c.ranges.insert (allocInterval c.nextInterval (placeOf c.addressBase attemptBase) len) = none
  misses : ∀ i < 999, c.ranges.insert (allocInterval c.nextInterval (c.draw len i) len) = none
  fits : c.ranges.insert (allocInterval c.nextInterval (c.draw len 999) len) ≠ none

def Client.inserted (c : Client σ) (t : Tree) (k : Nat) : Client σ :=
  { c.drawn k with ranges := t, nextInterval := c.nextInterval + 1 }

theorem Client.draw_le (hlen : len ≤ c.rangeLen.toNat) (hmod : modulus c.rangeLen len ≠ 0)
    (i : Nat) : c.draw len i + len ≤ c.rangeLen.toNat := by
  have hlt := c.rangeLen.toNat_lt
  have hdraw : c.draw len i < modulus c.rangeLen len := Nat.mod_lt _ (Nat.pos_of_ne_zero hmod)
  have hval : modulus c.rangeLen len = c.rangeLen.toNat + 1 - len := by
    unfold modulus at hmod ⊢
    omega
  omega

theorem Client.attemptInterval_some (h : c.attemptInterval attemptBase len = .ok (c', some iv)) :
    c.Placed attemptBase len iv ∧ ∃ t, c.ranges.insert iv = some t ∧ c' = c.inserted t 0 := by
  unfold attemptInterval at h
  split at h
  · rename_i hatts
    obtain ⟨rfl, hhigh, t, hins, rfl⟩ := tryInterval_some h
    exact ⟨⟨rfl, rfl, rfl, hhigh, Or.inr ⟨hatts, rfl⟩⟩, t, hins, rfl⟩
  · cases h

theorem Client.attemptInterval_none (h : c.attemptInterval attemptBase len = .ok (c', none)) :
    c' = c ∧ (attempts c.addressBase c.rangeLen attemptBase len = true →
      c.ranges.insert (allocInterval c.nextInterval (placeOf c.addressBase attemptBase) len) =
        none) := by
  unfold attemptInterval at h
  split at h
  · obtain ⟨hc, hmiss⟩ := tryInterval_none h
    exact ⟨hc, fun _ => hmiss⟩
  · rename_i hno
    cases h
    exact ⟨rfl, fun hyes => absurd hyes hno⟩

/-- `assign_interval` finds an interval, which the range gets; or it fails, and nothing
has changed, or the last draw stays in the tree with no range. -/
theorem Client.assignInterval_cases {found : Bool}
    (h : c.assignInterval r attemptBase len = .ok (c', found)) :
    (found = true ∧ ∃ iv t k, c.Placed attemptBase len iv ∧ c.ranges.insert iv = some t ∧
      c' = (c.inserted t k).attach r iv) ∨
    (found = false ∧ ∃ k, c' = c.drawn k) ∨
    (found = false ∧ c.Late attemptBase len ∧ ∃ iv t, c.Placed attemptBase len iv ∧
      c.ranges.insert iv = some t ∧ c' = c.inserted t 1000) := by
  unfold assignInterval at h
  by_cases hlen : c.rangeLen.toNat < len
  · rw [if_pos hlen] at h
    cases h
    exact Or.inr (Or.inl ⟨rfl, 0, rfl⟩)
  · rw [if_neg hlen] at h
    have hlen' := Nat.not_lt.mp hlen
    obtain ⟨⟨c₁, first⟩, hfirst, hrest⟩ := bind_eq_ok.mp h
    cases first with
    | some iv =>
      cases hrest
      obtain ⟨hplaced, t, hins, rfl⟩ := attemptInterval_some hfirst
      exact Or.inl ⟨rfl, iv, t, 0, hplaced, hins, rfl⟩
    | none =>
      obtain ⟨rfl, hattempt⟩ := attemptInterval_none hfirst
      obtain ⟨⟨c₂, second, left⟩, hdraw, hlast⟩ := bind_eq_ok.mp hrest
      cases second with
      | none =>
        cases hlast
        exact Or.inr (Or.inl ⟨rfl, 1000, drawInterval_none hdraw⟩)
      | some iv =>
        obtain ⟨k, hk, hmod, hmisses, hiv, hhigh, t, hins, rfl⟩ := drawInterval_some hdraw
        have hplaced : c₁.Placed attemptBase len iv := by
          subst hiv
          exact ⟨rfl, rfl, rfl, hhigh, Or.inl (draw_le hlen' hmod k)⟩
        dsimp only at hlast
        by_cases hleft : left = 0
        · rw [if_pos hleft] at hlast
          cases hlast
          obtain rfl : k = 999 := by omega
          have hfits : c₁.ranges.insert (allocInterval c₁.nextInterval (c₁.draw len 999) len) ≠
              none := by
            rw [← hiv, hins]
            exact Option.some_ne_none t
          exact Or.inr (Or.inr ⟨rfl, ⟨hattempt, hmisses, hfits⟩, iv, t, hplaced, hins, rfl⟩)
        · rw [if_neg hleft] at hlast
          cases hlast
          exact Or.inl ⟨rfl, iv, t, k + 1, hplaced, hins, rfl⟩

theorem ordered_iff_inOrder {l : List Node} : Ordered l ↔ InOrder (l.map Node.slot) := by
  constructor
  · intro h
    refine ⟨pairwise_map.mpr h.pairwise, fun s hs => ?_⟩
    obtain ⟨n, hn, rfl⟩ := mem_map.mp hs
    exact h.low_le_high n hn
  · intro h
    exact ⟨pairwise_map.mp h.pairwise, fun n hn =>
      h.low_le_high n.slot (mem_map_of_mem hn)⟩

theorem Tree.insert_spec (h : t.insert iv = some t') :
    ∃ a b, t.nodes = a ++ b ∧ t'.nodes = a ++ iv :: b ∧
      (Ordered t.nodes → iv.low ≤ iv.high → Ordered t'.nodes) := by
  obtain ⟨a, b, hab, hab'⟩ := nodes_insert h
  exact ⟨a, b, hab, hab', fun hord hle => hord.insert hle h⟩

theorem Client.Linked.inserted (h : c.Linked) (hiv : c.Placed attemptBase len iv)
    (hins : c.ranges.insert iv = some t) (k : Nat) : (c.inserted t k).Linked := by
  obtain ⟨a, b, hab, hab', -⟩ := Tree.insert_spec hins
  have hmem : ∀ n, n ∈ t.nodes → n = iv ∨ n ∈ c.ranges.nodes := by
    intro n hn
    rw [hab', mem_append, mem_cons] at hn
    rw [hab, mem_append]
    tauto
  refine ⟨?_, fun n hn => ?_, fun n hn r hr => ?_⟩
  · have haddrs := h.addrs
    have hnew : iv.addr ∉ c.ranges.nodes.map Node.addr := by
      intro hin
      obtain ⟨n, hn, heq⟩ := mem_map.mp hin
      have := h.below n hn
      rw [heq, hiv.addr] at this
      exact Nat.lt_irrefl _ this
    rw [hab, map_append] at haddrs hnew
    dsimp only [Client.inserted]
    rw [hab', map_append, map_cons, perm_middle.nodup_iff, nodup_cons]
    exact ⟨hnew, haddrs⟩
  · rcases hmem n hn with rfl | hn
    · rw [hiv.addr]
      exact Nat.lt_succ_self _
    · exact Nat.lt_succ_of_lt (h.below n hn)
  · rcases hmem n hn with rfl | hn
    · rw [hiv.data] at hr
      cases hr
    · exact h.back n hn r hr

theorem Tree.inserted_slots (hab : t.nodes = a ++ b)
    (hord : Ordered t.nodes → iv.low ≤ iv.high → Ordered (a ++ iv :: b)) (owner : Option Nat)
    (hab' : t'.nodes = a ++ { iv with data := owner } :: b) :
    Inserted ⟨iv.low, iv.high, owner⟩ (t.nodes.map Node.slot) (t'.nodes.map Node.slot) := by
  refine ⟨a.map Node.slot, b.map Node.slot, ?_, ?_, fun hin hle => ?_⟩
  · rw [hab, map_append]
  · rw [hab', map_append, map_cons, Node.slot]
  · have hord' := hord (ordered_iff_inOrder.mpr hin) hle
    rw [← ordered_iff_inOrder, hab']
    refine hord'.congr ?_
    rw [map_append, map_append, map_cons, map_cons]

theorem map_setData_of_ne {l : List Node} {x : Nat} (h : ∀ m ∈ l, m.addr ≠ x) (d : Option Nat) :
    l.map (fun m => if m.addr = x then { m with data := d } else m) = l := by
  conv_rhs => rw [← map_id l]
  exact map_congr_left fun m hm => if_neg (h m hm)

theorem Tree.setData_split (hnodup : (t.nodes.map Node.addr).Nodup) (hab : t.nodes = a ++ n :: b)
    (d : Option Nat) : (t.setData n.addr d).nodes = a ++ { n with data := d } :: b := by
  rw [hab, map_append, map_cons, nodup_append, nodup_cons] at hnodup
  obtain ⟨-, ⟨hnb, -⟩, hcross⟩ := hnodup
  have ha : ∀ m ∈ a, m.addr ≠ n.addr := fun m hm =>
    hcross _ (mem_map_of_mem hm) _ mem_cons_self
  have hb : ∀ m ∈ b, m.addr ≠ n.addr := fun m hm heq => hnb (heq ▸ mem_map_of_mem hm)
  rw [nodes_setData, hab, map_append, map_cons, if_pos rfl,
    map_setData_of_ne ha, map_setData_of_ne hb]

theorem Tree.addrs_setData (a : Nat) (d : Option Nat) (t : Tree) :
    (t.setData a d).nodes.map Node.addr = t.nodes.map Node.addr := by
  rw [nodes_setData, map_map]
  refine map_congr_left fun n _ => ?_
  dsimp only [Function.comp]
  split <;> rfl

theorem Client.Linked.attach (h : c.Linked) (hiv : iv ∈ c.ranges.nodes) (hr : r ∉ owners c.slots)
    (hlt : r < c.nextRange) : (c.attach r iv).Linked := by
  obtain ⟨a, b, hab⟩ := append_of_mem hiv
  have hnodes := Tree.setData_split h.addrs hab (some r)
  have hranges : (c.attach r iv).ranges = c.ranges.setData iv.addr (some r) := rfl
  have hmem : ∀ n, n ∈ (c.ranges.setData iv.addr (some r)).nodes →
      n = { iv with data := some r } ∨ n ∈ c.ranges.nodes := by
    intro n hn
    rw [hnodes, mem_append, mem_cons] at hn
    rw [hab, mem_append, mem_cons]
    tauto
  refine ⟨?_, fun n hn => ?_, fun n hn r' hr' => ?_⟩
  · rw [hranges, Tree.addrs_setData]
    exact h.addrs
  · rcases hmem n hn with rfl | hn
    · exact h.below iv hiv
    · exact h.below n hn
  · rcases hmem n hn with rfl | hold
    · cases hr'
      refine ⟨?_, hlt⟩
      dsimp only [Client.attach, Client.setRange]
      rw [Function.update_self]
    · have hne : r' ≠ r := by
        rintro rfl
        exact hr (mem_owners.mpr ⟨n.slot, mem_map_of_mem hold, hr'⟩)
      dsimp only [Client.attach, Client.setRange]
      rw [Function.update_of_ne hne]
      exact h.back n hold r' hr'

theorem Client.slots_inserted (hiv : c.Placed attemptBase len iv)
    (hins : c.ranges.insert iv = some t) (k : Nat) :
    Inserted ⟨iv.low, iv.high, none⟩ c.slots (c.inserted t k).slots := by
  obtain ⟨a, b, hab, hab', hord⟩ := Tree.insert_spec hins
  have hiv' : { iv with data := none } = iv := by rw [← hiv.data]
  rw [hab'] at hord
  refine Tree.inserted_slots hab hord none ?_
  rw [hiv']
  exact hab'

theorem Client.Linked.placed (h : c.Linked) (hiv : c.Placed attemptBase len iv)
    (hins : c.ranges.insert iv = some t) (k : Nat) (hr : r ∉ owners c.slots)
    (hlt : r < c.nextRange) :
    ((c.inserted t k).attach r iv).Linked ∧
      Inserted ⟨iv.low, iv.high, some r⟩ c.slots ((c.inserted t k).attach r iv).slots ∧
      ∀ n ∈ c.ranges.nodes, n ∈ ((c.inserted t k).attach r iv).ranges.nodes := by
  have hlinked := h.inserted hiv hins k
  obtain ⟨a, b, hab, hab', hord⟩ := Tree.insert_spec hins
  have hmem : iv ∈ (c.inserted t k).ranges.nodes := by
    have : iv ∈ t.nodes := by simp [hab']
    exact this
  have howner : r ∉ owners (c.inserted t k).slots := by
    rw [(slots_inserted hiv hins k).owners_none rfl]
    exact hr
  have hnodes : (t.setData iv.addr (some r)).nodes = a ++ { iv with data := some r } :: b :=
    Tree.setData_split hlinked.addrs hab' (some r)
  rw [hab'] at hord
  refine ⟨hlinked.attach hmem howner hlt, Tree.inserted_slots hab hord (some r) hnodes, ?_⟩
  intro n hn
  have hn' : n ∈ (t.setData iv.addr (some r)).nodes := by
    rw [hab, mem_append] at hn
    rw [hnodes, mem_append, mem_cons]
    tauto
  exact hn'

theorem Client.Linked.disown (h : c.Linked) (hsplit : c.ranges.nodes = pre ++ n :: post) :
    (c.disown n.addr).Linked ∧
      (c.disown n.addr).ranges.nodes = pre ++ { n with data := none } :: post := by
  have hnodes := Tree.setData_split h.addrs hsplit none
  refine ⟨⟨?_, fun m hm => ?_, fun m hm r hr => ?_⟩, hnodes⟩
  · dsimp only [Client.disown]
    rw [Tree.addrs_setData]
    exact h.addrs
  · have hm' : m ∈ pre ++ { n with data := none } :: post := hnodes ▸ hm
    rw [mem_append, mem_cons] at hm'
    rcases hm' with hm' | rfl | hm'
    · exact h.below m (by simp [hsplit, hm'])
    · exact h.below n (by simp [hsplit])
    · exact h.below m (by simp [hsplit, hm'])
  · have hm' : m ∈ pre ++ { n with data := none } :: post := hnodes ▸ hm
    rw [mem_append, mem_cons] at hm'
    rcases hm' with hm' | rfl | hm'
    · exact h.back m (by simp [hsplit, hm']) r hr
    · cases hr
    · exact h.back m (by simp [hsplit, hm']) r hr

theorem Client.Linked.owners_nodup (h : c.Linked) : (owners c.slots).Nodup := by
  rw [owners, Client.slots, filterMap_map, nodup_iff_pairwise_ne, pairwise_filterMap]
  refine (pairwise_map.mp h.addrs).imp_of_mem ?_
  intro n m hn hm hne r hr r' hr' heq
  subst heq
  exact hne (congrArg Node.addr (h.eq_of_owner hn hm hr hr'))

theorem fixIntervals_spec {old : Option Nat} {l : List Node} {mem mem' : Nat → Range σ}
    (h : fixIntervals old l mem = .ok mem') (hnodup : (l.filterMap Node.data).Nodup) :
    (∀ n ∈ l, ∃ r, n.data = some r ∧ (mem' r).interval = some n.addr) ∧
      (∀ r, r ∉ l.filterMap Node.data → mem' r = mem r) ∧
      ∀ r, ∃ i, mem' r = { mem r with interval := i } := by
  induction l generalizing mem with
  | nil =>
    cases h
    exact ⟨by simp, fun _ _ => rfl, fun r => ⟨(mem' r).interval, rfl⟩⟩
  | cons n l ih =>
    rw [fixIntervals] at h
    cases hdata : n.data with
    | none =>
      rw [hdata] at h
      cases h
    | some r =>
      rw [hdata] at h
      dsimp only at h
      split at h
      · cases h
      · rw [filterMap_cons, hdata] at hnodup ⊢
        obtain ⟨hr, hnodup⟩ := nodup_cons.mp hnodup
        obtain ⟨hback, hsame, hkeep⟩ := ih h hnodup
        refine ⟨fun m hm => ?_, fun a ha => ?_, fun a => ?_⟩
        · rcases mem_cons.mp hm with rfl | hm
          · refine ⟨r, hdata, ?_⟩
            rw [hsame r hr, Function.update_self]
          · exact hback m hm
        · obtain ⟨har, hal⟩ := not_or.mp (mt mem_cons.mpr ha)
          rw [hsame a hal, Function.update_of_ne har]
        · obtain ⟨i, hi⟩ := hkeep a
          by_cases har : a = r
          · subst har
            rw [Function.update_self] at hi
            exact ⟨i, hi⟩
          · rw [Function.update_of_ne har] at hi
            exact ⟨i, hi⟩

theorem Tree.remove_split (hnodup : (t.nodes.map Node.addr).Nodup)
    (h : t.nodes = pre ++ n :: post) :
    ∃ post', (t.remove n.addr).nodes = pre ++ post' ∧ Moved n.addr post post' := by
  have hn : n ∈ t.nodes := by simp [h]
  obtain ⟨pre', post₁, post', h', hremove, hmoved⟩ := nodes_remove hn rfl hnodup
  have hsplit : pre' ++ n :: post₁ = pre ++ n :: post := h'.symm.trans h
  have hnot : n ∉ pre' ∧ n ∉ post₁ := by
    have hnd := hnodup.of_map
    rw [h', nodup_append, nodup_cons] at hnd
    exact ⟨fun hmem => hnd.2.2 n hmem n mem_cons_self rfl, hnd.2.1.1⟩
  obtain ⟨rfl, -, rfl⟩ := (append_cons_inj_of_notMem hnot.1 hnot.2).mp hsplit
  exact ⟨post', hremove, hmoved⟩

theorem Moved.slots_eq {a : Nat} (h : Moved a post post') :
    post'.map Node.slot = post.map Node.slot := by
  rcases h with rfl | ⟨m, rest, rfl, rfl⟩
  · rfl
  · rfl

theorem Moved.addrs (h : Moved n.addr post post')
    (hnodup : ((pre ++ n :: post).map Node.addr).Nodup) :
    ((pre ++ post').map Node.addr).Nodup ∧
      ∀ m ∈ pre ++ post', ∃ m' ∈ pre ++ n :: post, m.addr = m'.addr := by
  rcases h with rfl | ⟨m, rest, rfl, rfl⟩
  · refine ⟨hnodup.sublist ?_, fun m hm => ⟨m, ?_, rfl⟩⟩
    · exact ((sublist_cons_self n post').append_left pre).map _
    · simp only [mem_append, mem_cons] at hm ⊢
      tauto
  · constructor
    · have hsub : ((pre ++ n :: rest).map Node.addr).Sublist ((pre ++ n :: m :: rest).map Node.addr) :=
        (((sublist_cons_self m rest).cons_cons n).append_left pre).map _
      have hnd := hnodup.sublist hsub
      simpa only [map_append, map_cons] using hnd
    · intro x hx
      simp only [mem_append, mem_cons] at hx
      rcases hx with hx | rfl | hx
      · exact ⟨x, by simp [hx], rfl⟩
      · exact ⟨n, by simp, rfl⟩
      · exact ⟨x, by simp [hx], rfl⟩

theorem Client.Linked.remove (h : c.Linked) (hsplit : c.ranges.nodes = pre ++ n :: post)
    (hok : c.removeRangeInterval n.addr = .ok c') :
    c'.Linked ∧ c'.slots = pre.map Node.slot ++ post.map Node.slot ∧
      (∀ s ∈ c'.slots, s.owner ≠ none) ∧
      ∃ mem, c' = { c with ranges := c.ranges.remove n.addr, mem := mem } ∧
        ∀ r, ∃ i, mem r = { c.mem r with interval := i } := by
  have hn : n ∈ c.ranges.nodes := by simp [hsplit]
  unfold removeRangeInterval at hok
  rw [h.find hn] at hok
  dsimp only at hok
  split at hok
  · cases hok
  · obtain ⟨mem, hfix, hc'⟩ := bind_eq_ok.mp hok
    cases hc'
    obtain ⟨post', hremove, hmoved⟩ := Tree.remove_split h.addrs hsplit
    have hslots : (c.ranges.remove n.addr).nodes.map Node.slot =
        pre.map Node.slot ++ post.map Node.slot := by
      rw [hremove, map_append, hmoved.slots_eq]
    have hsub : (pre.map Node.slot ++ post.map Node.slot).Sublist c.slots := by
      rw [Client.slots, hsplit, map_append, map_cons]
      exact (sublist_cons_self _ _).append_left _
    have howners : ((c.ranges.remove n.addr).nodes.filterMap Node.data).Nodup := by
      have hdata : (c.ranges.remove n.addr).nodes.filterMap Node.data =
          owners ((c.ranges.remove n.addr).nodes.map Node.slot) := by
        rw [owners, filterMap_map]
        rfl
      rw [hdata, hslots]
      exact h.owners_nodup.sublist (hsub.filterMap _)
    obtain ⟨hback, -, hkeep⟩ := fixIntervals_spec hfix howners
    have haddrs := h.addrs
    rw [hsplit] at haddrs
    obtain ⟨hnodup, hfrom⟩ := hmoved.addrs haddrs
    refine ⟨⟨?_, fun m hm => ?_, fun m hm r hr => ?_⟩, hslots, fun s hs => ?_, mem, rfl, hkeep⟩
    · dsimp only
      rwa [hremove]
    · dsimp only at hm ⊢
      rw [hremove] at hm
      obtain ⟨m', hm', heq⟩ := hfrom m hm
      rw [heq]
      exact h.below m' (hsplit ▸ hm')
    · obtain ⟨r', hr', hint⟩ := hback m hm
      obtain rfl : r = r' := Option.some.inj (hr.symm.trans hr')
      have hin : m.slot ∈ c.slots := by
        have hms : m.slot ∈ (c.ranges.remove n.addr).nodes.map Node.slot := mem_map_of_mem hm
        rw [hslots] at hms
        exact hsub.subset hms
      obtain ⟨m', hm', heq⟩ := mem_slots.mp hin
      have hdata : m'.data = some r := (congrArg Slot.owner heq).trans hr
      exact ⟨hint, (h.back m' hm' r hdata).2⟩
    · obtain ⟨m, hm, rfl⟩ := mem_slots.mp hs
      obtain ⟨r, hr, -⟩ := hback m hm
      rw [Node.slot, hr]
      exact Option.some_ne_none r

end Avb4Linux.Maap
