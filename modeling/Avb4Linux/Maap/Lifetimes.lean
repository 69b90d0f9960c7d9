import Avb4Linux.Maap.IntervalHeap
import Avb4Linux.Maap.TimerQueue
import Avb4Linux.Maap.Watched
import Avb4Linux.Maap.Yielding

/-!
# The memory of ranges and intervals

Between two operations the allocated ranges are those of the timer queue, and the allocated
intervals those of the tree.
-/

namespace Avb4Linux.Maap

open Lib Lib.Fallible Lib.Lifetime List Function Set

variable {σ : Type} {c c' : Client σ} {r : Nat} {live : Cell → Bool} {R A : Set Nat}

/-- The allocated ranges are those in `R`, and the allocated intervals those in `A`. -/
structure Allocated (R A : Set Nat) (live : Cell → Bool) : Prop where
  ranges : ∀ r, live (.range r) = true ↔ r ∈ R
  intervals : ∀ a, live (.interval a) = true ↔ a ∈ A

theorem Allocated.allocRange (h : Allocated R A live) (r : Nat) :
    Allocated (insert r R) A (Function.update live (.range r) true) := by
  refine ⟨fun a => ?_, fun a => ?_⟩
  · by_cases har : a = r
    · simp [har]
    · rw [update_of_ne (by simpa using har), h.ranges]
      simp [har]
  · rw [update_of_ne (by simp)]
    exact h.intervals a

theorem Allocated.freeRange (h : Allocated R A live) (r : Nat) :
    Allocated (R \ {r}) A (Function.update live (.range r) false) := by
  refine ⟨fun a => ?_, fun a => ?_⟩
  · by_cases har : a = r
    · simp [har]
    · rw [update_of_ne (by simpa using har), h.ranges]
      simp [har]
  · rw [update_of_ne (by simp)]
    exact h.intervals a

theorem Allocated.allocInterval (h : Allocated R A live) (a : Nat) :
    Allocated R (insert a A) (Function.update live (.interval a) true) := by
  refine ⟨fun r => ?_, fun b => ?_⟩
  · rw [update_of_ne (by simp)]
    exact h.ranges r
  · grind [intervals]

theorem Allocated.freeInterval (h : Allocated R A live) (a : Nat) :
    Allocated R (A \ {a}) (Function.update live (.interval a) false) := by
  refine ⟨fun r => ?_, fun b => ?_⟩
  · rw [update_of_ne (by simp)]
    exact h.ranges r
  · grind [intervals]

/-! ### The addresses of a tree -/

def Tree.addrs (t : Tree) : Set Nat :=
  { a | ∃ n ∈ t.nodes, n.addr = a }

variable {t : Tree} {iv n : Node} {l : List Node} {a fuel : Nat}

theorem Tree.addr_mem (h : n ∈ t.nodes) : n.addr ∈ t.addrs :=
  ⟨n, h, rfl⟩

theorem Tree.addrs_eq : t.addrs = { a | a ∈ t.nodes.map Node.addr } := by
  ext a
  exact mem_map.symm

theorem Tree.addrs_data (a : Nat) (d : Option Nat) (t : Tree) : (t.setData a d).addrs = t.addrs := by
  rw [Tree.addrs_eq, Tree.addrs_eq, Tree.addrs_setData]

theorem Tree.addrs_insert {t' : Tree} (h : t.insert iv = some t') :
    t'.addrs = Insert.insert iv.addr t.addrs := by
  grind [nodes_insert, addrs]

theorem Tree.addrs_node (l r : Tree) (n : Node) :
    (Tree.node l n r).addrs = l.addrs ∪ Insert.insert n.addr r.addrs := by
  ext x
  simp only [Tree.addrs, Tree.nodes, mem_append, mem_cons, mem_union,
    mem_insert_iff, mem_ofPred_eq]
  grind

theorem Tree.addrs_nil : Tree.nil.addrs = ∅ := by
  simp [addrs, nodes]

theorem Tree.addrs_snip {l r : Tree} (hl : a ∉ l.addrs) (hr : a ∉ r.addrs)
    (hnodup : (r.nodes.map Node.addr).Nodup) (hlr : ∀ x ∈ l.addrs, x ∉ r.addrs) :
    snipped a l r ∈ l.addrs ∪ Insert.insert a r.addrs ∧
      (snip a l r).addrs = (l.addrs ∪ Insert.insert a r.addrs) \ {snipped a l r} := by
  cases l with
  | nil =>
    rw [addrs_nil, empty_union]
    exact ⟨.inl rfl, (insert_sdiff_self_of_notMem hr).symm⟩
  | node ll ln lr =>
    unfold Tree.snip Tree.snipped
    cases hmin : r.takeMin with
    | none =>
      grind [takeMin_eq_none, addrs_nil]
    | some x =>
      have hcons := nodes_takeMin hmin
      have hraddrs : r.addrs = Insert.insert x.1.addr x.2.addrs := by
        ext y
        simp [addrs, hcons, eq_comm]
      have hfirst : x.1.addr ∉ x.2.addrs := by
        rw [hcons, map_cons, nodup_cons] at hnodup
        rw [addrs_eq]
        exact hnodup.1
      have hxl : x.1.addr ∉ (node ll ln lr).addrs := fun hx => hlr _ hx (by simp [hraddrs])
      have hxa : a ≠ x.1.addr := fun heq => hr (by simp [hraddrs, heq])
      dsimp only
      refine ⟨.inr (.inr (by simp [hraddrs])), ?_⟩
      rw [addrs_node (node ll ln lr), hraddrs, union_sdiff_distrib,
        sdiff_singleton_eq_self hxl, insert_comm, insert_sdiff_self_of_notMem]
      grind

theorem Tree.addrs_remove (hnodup : (t.nodes.map Node.addr).Nodup) (ha : a ∈ t.addrs) :
    t.freed a ∈ t.addrs ∧ (t.remove a).addrs = t.addrs \ {t.freed a} := by
  induction t with
  | nil =>
    obtain ⟨n, hn, -⟩ := ha
    cases hn
  | node l n r ihl ihr =>
    rw [nodes, map_append, map_cons, nodup_append, nodup_cons] at hnodup
    obtain ⟨hl, ⟨hn, hr⟩, hdisj⟩ := hnodup
    have hnl : n.addr ∉ l.addrs := by
      rintro ⟨m, hm, heq⟩
      exact hdisj _ (mem_map_of_mem hm) _ mem_cons_self heq
    have hnr : n.addr ∉ r.addrs := by
      rw [addrs_eq]
      exact hn
    have hlr : ∀ x ∈ l.addrs, x ∉ r.addrs := by
      rintro _ ⟨m, hm, rfl⟩ ⟨m', hm', heq⟩
      exact hdisj _ (mem_map_of_mem hm) _
        (mem_cons_of_mem _ (mem_map_of_mem hm')) heq.symm
    rw [addrs_node] at ha ⊢
    rw [Tree.remove, Tree.freed]
    by_cases hna : n.addr = a
    · grind [addrs_snip]
    · rw [if_neg hna, if_neg hna, addrs_node]
      by_cases hal : a ∈ l.addrs
      · have hany : (l.nodes.any fun m => m.addr = a) = true := by
          obtain ⟨m, hm, hma⟩ := hal
          grind
        have hra : ∀ m ∈ r.nodes, m.addr ≠ a := fun m hm heq => hlr a hal ⟨m, hm, heq⟩
        grind [remove_of_not_mem, Insert.insert]
      · have hany : ¬(l.nodes.any fun m => m.addr = a) = true := by
          simp only [any_eq_true, decide_eq_true_eq]
          exact hal
        grind [Client.SamePool.nodes, remove_of_not_mem]

/-! ### Intervals -/

theorem Allocated.touchTree (h : Allocated R A live) (ht : t.addrs ⊆ A) :
    ∀ k ∈ t.cells, live k = true := by
  intro k hk
  obtain ⟨n, hn, rfl⟩ := mem_map.mp hk
  exact (h.intervals _).mpr (ht (Tree.addr_mem hn))

theorem Allocated.touchRanges {l : List Nat} (h : Allocated R A live) (hl : ∀ r ∈ l, r ∈ R) :
    ∀ k ∈ l.map Cell.range, live k = true := by
  intro k hk
  obtain ⟨r, hr, rfl⟩ := mem_map.mp hk
  exact (h.ranges r).mpr (hl r hr)

theorem Client.Linked.tracks_read {α : Type} {m : Watched α} {x : Except Abort α}
    {P : α → (Cell → Bool) → Prop} (h : c.Linked) (ha : Allocated R c.ranges.addrs live)
    (howner : r ∈ owners c.slots) (hr : r ∈ R) (hm : Tracks m x P live) :
    Tracks (do c.readInterval r; m) x P live := by
  obtain ⟨s, hs, hsr⟩ := mem_owners.mp howner
  obtain ⟨n, hn, rfl⟩ := Client.mem_slots.mp hs
  have hinterval := (h.back n hn r hsr).1
  have hread : c.readInterval r = (do touch (.range r); touch (.interval n.addr)) := by
    rw [readInterval, hinterval]
  rw [hread, bind_assoc]
  refine .touch ((ha.ranges r).mpr hr) (.touch ?_ hm)
  exact (ha.intervals _).mpr (Tree.addr_mem hn)

theorem Client.tracks_try (hbelow : ∀ n ∈ c.ranges.nodes, n.addr < c.nextInterval)
    (ha : Allocated R c.ranges.addrs live) (start len : Nat) :
    Tracks (c.watchedTry start len) (c.tryInterval start len)
      (fun x live' => Allocated R x.1.ranges.addrs live') live := by
  have hnew : c.nextInterval ∉ c.ranges.addrs := by
    rintro ⟨n, hn, heq⟩
    exact Nat.lt_irrefl _ (heq ▸ hbelow n hn)
  have ha' := ha.allocInterval c.nextInterval
  unfold watchedTry tryInterval
  refine .alloc (Bool.eq_false_iff.mpr fun hlive => hnew ((ha.intervals _).mp hlive)) ?_
  dsimp only
  by_cases hfits : (allocInterval c.nextInterval start len).high ≤ rangeMax c.rangeLen
  · rw [if_pos hfits, if_pos hfits]
    refine .touchAll (ha'.touchTree (subset_insert _ _)) ?_
    cases hins : c.ranges.insert (allocInterval c.nextInterval start len) with
    | none =>
      refine .free ((ha'.intervals _).mpr (mem_insert _ _)) (.pure ?_)
      have hback := ha'.freeInterval c.nextInterval
      rwa [insert_sdiff_self_of_notMem hnew] at hback
    | some t =>
      refine .pure ?_
      dsimp only
      rw [Tree.addrs_insert hins]
      exact ha'
  · rw [if_neg hfits, if_neg hfits]
    exact .abort _

theorem Client.tracks_draw (hbelow : ∀ n ∈ c.ranges.nodes, n.addr < c.nextInterval)
    (ha : Allocated R c.ranges.addrs live) (len n : Nat) :
    Tracks (c.watchedDraw len n) (c.drawInterval len n)
      (fun x live' => Allocated R x.1.ranges.addrs live') live := by
  induction n generalizing c live with
  | zero => exact .pure ha
  | succ n ih =>
    rw [watchedDraw, drawInterval]
    have honce : Tracks (c.watchedDrawOnce len) (c.drawOnce len)
        (fun x live' => Allocated R x.1.ranges.addrs live') live := by
      unfold watchedDrawOnce drawOnce
      split
      · exact .abort _
      · exact Client.tracks_try (c := c.random.2) hbelow ha _ _
    refine honce.bind ?_
    rintro ⟨c₁, found⟩ live₁ hok ha₁
    cases found with
    | some iv => exact .pure ha₁
    | none =>
      obtain ⟨-, rfl, -⟩ := Client.drawOnce_none hok
      exact ih (c := c.drawn 1) hbelow ha₁

theorem Client.tracks_attach (ha : Allocated R c.ranges.addrs live)
    (hiv : iv.addr ∈ c.ranges.addrs) (hr : r ∈ R) :
    Tracks (c.watchedAttach r iv) (.ok (c.attach r iv, true))
      (fun x live' => Allocated R x.1.ranges.addrs live') live := by
  refine .touch ((ha.intervals _).mpr hiv) (.touch ((ha.ranges r).mpr hr) (.pure ?_))
  grind [attach, Linked.attach, Tree.addrs_data]

theorem Client.tracks_assign (hbelow : ∀ n ∈ c.ranges.nodes, n.addr < c.nextInterval)
    (ha : Allocated R c.ranges.addrs live) (hr : r ∈ R) (attemptBase len : Nat) :
    Tracks (c.watchedAssign r attemptBase len) (c.assignInterval r attemptBase len)
      (fun x live' => Allocated R x.1.ranges.addrs live') live := by
  unfold watchedAssign assignInterval
  split
  · exact .pure ha
  · have hattempt : Tracks (c.watchedAttempt attemptBase len) (c.attemptInterval attemptBase len)
        (fun x live' => Allocated R x.1.ranges.addrs live') live := by
      unfold watchedAttempt attemptInterval
      split
      · exact Client.tracks_try hbelow ha _ _
      · exact .pure ha
    refine hattempt.bind ?_
    rintro ⟨c₁, found⟩ live₁ hok ha₁
    cases found with
    | some iv =>
      obtain ⟨-, t, hins, rfl⟩ := Client.attemptInterval_some hok
      refine Client.tracks_attach ha₁ ?_ hr
      have haddrs := Tree.addrs_insert hins
      exact haddrs ▸ mem_insert _ _
    | none =>
      obtain ⟨rfl, -⟩ := Client.attemptInterval_none hok
      refine (Client.tracks_draw hbelow ha₁ len 1000).bind ?_
      rintro ⟨c₂, found, left⟩ live₂ hdraw ha₂
      cases found with
      | none => exact .pure ha₂
      | some iv =>
        obtain ⟨k, -, -, -, -, -, t, hins, rfl⟩ := Client.drawInterval_some hdraw
        dsimp only
        split
        · exact .pure ha₂
        · refine Client.tracks_attach ha₂ ?_ hr
          have haddrs := Tree.addrs_insert hins
          exact haddrs ▸ mem_insert _ _

theorem tracks_fix {old : Option Nat} {mem : Nat → Range σ}
    (hl : ∀ n ∈ l, ∀ r, n.data = some r → live (.range r) = true) :
    Tracks (watchedFix old l mem) (fixIntervals old l mem) (fun _ live' => live' = live) live := by
  induction l generalizing mem with
  | nil => exact .pure rfl
  | cons n l ih =>
    rw [watchedFix, fixIntervals]
    cases hdata : n.data with
    | none => exact .abort _
    | some r =>
      dsimp only
      split
      · exact .abort _
      · refine .touch (hl n mem_cons_self r hdata) ?_
        exact ih fun m hm => hl m (mem_cons_of_mem n hm)

theorem Client.Linked.data_remove (h : c.Linked) {m : Node} (hn : n ∈ c.ranges.nodes)
    (hm : m ∈ (c.ranges.remove n.addr).nodes) (hmr : m.data = some r) : r ∈ owners c.slots := by
  obtain ⟨pre, post, hsplit⟩ := append_of_mem hn
  obtain ⟨post', hremove, hmoved⟩ := Tree.remove_split h.addrs hsplit
  have hslot : m.slot ∈ (pre ++ post').map Node.slot := mem_map_of_mem (hremove ▸ hm)
  rw [map_append, hmoved.slots_eq] at hslot
  refine mem_owners.mpr ⟨m.slot, ?_, hmr⟩
  rw [slots, hsplit, map_append, map_cons]
  grind

theorem Client.Linked.tracks_remove (h : c.Linked) (hn : n ∈ c.ranges.nodes)
    (howners : ∀ r ∈ owners c.slots, r ∈ R) (ha : Allocated R c.ranges.addrs live) :
    Tracks (c.watchedRemove n.addr) (c.removeRangeInterval n.addr)
      (fun c' live' => Allocated R c'.ranges.addrs live') live := by
  obtain ⟨hfreed, hafter⟩ := Tree.addrs_remove h.addrs (Tree.addr_mem hn)
  have ha' := ha.freeInterval (c.ranges.freed n.addr)
  rw [← hafter] at ha'
  unfold watchedRemove removeRangeInterval
  rw [h.find hn]
  dsimp only
  refine .touch ((ha.intervals _).mpr (Tree.addr_mem hn)) (.touchAll (ha.touchRanges ?_) ?_)
  · intro r hr
    exact howners r (mem_owners.mpr ⟨n.slot, mem_map_of_mem hn, Option.mem_toList.mp hr⟩)
  split
  · exact .abort _
  · refine .touchAll (ha.touchTree (Set.Subset.refl _))
      (.free ((ha.intervals _).mpr hfreed) (.touchAll (ha'.touchTree (Set.Subset.refl _)) ?_))
    have hfix : Tracks (watchedFix n.data (c.ranges.remove n.addr).nodes c.mem)
        (fixIntervals n.data (c.ranges.remove n.addr).nodes c.mem) (fun _ live' => live' = _) _ :=
      tracks_fix fun m hm r hmr => (ha'.ranges r).mpr (howners r (h.data_remove hn hm hmr))
    refine hfix.bind ?_
    rintro mem live' - rfl
    exact .pure ha'

/-! ### Between two operations -/

def Client.Matches (c : Client σ) (live : Cell → Bool) : Prop :=
  Allocated c.ledger.members c.ranges.addrs live

theorem Client.Sound.member_of_owner (h : c.Sound) (hr : r ∈ owners c.slots) :
    r ∈ c.ledger.members :=
  ((h.held.owned r).mp hr).1

theorem Client.Wired.tracks_drop (h : c.Wired) (hn : n ∈ c.ranges.nodes)
    (howners : ∀ a ∈ owners c.slots, a ∈ c.ledger.members) (hm : c.Matches live)
    (hr : r ∈ c.ledger.members) :
    Tracks (c.watchedDrop n.addr r) (c.dropRange n.addr r) Client.Matches live := by
  refine (h.linked.tracks_remove hn howners hm).bind ?_
  intro c₁ live₁ hok ha
  obtain ⟨pre, post, hsplit⟩ := append_of_mem hn
  obtain ⟨-, -, hledger⟩ := Client.removeRangeInterval_spec h hsplit hok
  have hmembers : c.ledger.members = c₁.ledger.members := by rw [hledger]
  refine .touch ((ha.ranges r).mpr hr) (.pure ?_)
  rw [hmembers] at ha
  exact ha

theorem Client.Queued.head_mem (h : c.Queued) (hhead : c.timerQueue = some r) : r ∈ c.queue := by
  have hchain := h.chain
  rw [hhead] at hchain
  generalize hq : c.queue = q at hchain ⊢
  cases hchain with
  | cons _ => exact mem_cons_self

section Timers

variable {α : Type} {m : Watched α} {x : Except Abort α} {P : α → (Cell → Bool) → Prop}

theorem Client.tracks_schedule (ha : Allocated R A live) (hqueue : ∀ a ∈ c.ledger.members, a ∈ R)
    (hr : r ∈ R) (hm : Tracks m x P live) : Tracks (do touchAll (c.timerCells r); m) x P live := by
  refine .touchAll (ha.touchRanges fun a hmem => ?_) hm
  rcases mem_cons.mp hmem with rfl | hmem
  · exact hr
  · exact hqueue a hmem

theorem Client.Queued.tracks_head (h : c.Queued) (ha : Allocated R A live)
    (hqueue : ∀ a ∈ c.ledger.members, a ∈ R) (hm : Tracks m x P live) :
    Tracks (do touchAll c.headCells; m) x P live := by
  refine .touchAll (ha.touchRanges fun a hmem => ?_) hm
  exact hqueue a (h.head_mem (Option.mem_toList.mp hmem))

theorem Client.Wired.tracks_launch (h : c.Wired) (ha : Allocated R c.ranges.addrs live)
    (hqueue : ∀ a ∈ c.ledger.members, a ∈ R) (hlt : r < c.nextRange) (howner : r ∈ owners c.slots)
    (hr : r ∈ R) (hm : Tracks m x P live) :
    Tracks (do touchAll (c.timerCells r); (c.scheduleTimer r).readInterval r; m) x P live := by
  have hranges := c.scheduleTimer_ranges r
  refine Client.tracks_schedule ha hqueue hr ?_
  refine (Client.scheduleTimer_spec h hlt).1.linked.tracks_read (by rwa [hranges]) ?_ hr hm
  rw [slots, hranges]
  exact howner

end Timers

theorem Client.Wired.matches_scheduled (h : c.Wired) (hlt : r < c.nextRange)
    (ha : Allocated (insert r c.ledger.members) c.ranges.addrs live) :
    (c.scheduleTimer r).Matches live := by
  grind [scheduleTimer_spec, Matches, scheduleTimer_ranges]

structure Client.Assigned (c : Client σ) (r : Nat) (c' : Client σ) (found : Bool) : Prop where
  wired : c'.Wired
  members : c'.ledger.members = c.ledger.members
  fresh : c'.nextRange = c.nextRange
  nodes : ∀ n ∈ c.ranges.nodes, n ∈ c'.ranges.nodes
  owners : ∀ a ∈ owners c'.slots, found = true ∧ a = r ∨ a ∈ owners c.slots
  owner : found = true → r ∈ Maap.owners c'.slots

theorem Client.Wired.assigned (h : c.Wired) {attemptBase len : Nat} {found : Bool}
    (hr : r ∉ owners c.slots) (hlt : r < c.nextRange)
    (hok : c.assignInterval r attemptBase len = .ok (c', found)) : c.Assigned r c' found := by
  obtain ⟨hw, hcases⟩ := Client.assignInterval_spec h hr hlt hok
  rcases hcases with ⟨rfl, low, high, -, hins, hsub, hledger⟩ | ⟨rfl, hledger, hranges⟩ |
    ⟨rfl, -, low, high, hins, hsub, hledger⟩
  · have hperm := hins.owners_perm rfl
    refine ⟨hw, by rw [hledger], ?_, hsub, fun a ha => ?_, fun _ => ?_⟩
    all_goals grind [ledger]
  · refine ⟨hw, by rw [hledger], ?_, fun n hn => hranges ▸ hn, fun a ha => .inr ?_, fun hf => ?_⟩
    all_goals grind [ledger, slots]
  · refine ⟨hw, by rw [hledger], ?_, hsub, fun a ha => .inr ?_, fun hf => ?_⟩
    all_goals grind [ledger, Inserted.owners_none, Removed.owners_none]

theorem Client.matches_startTimer (hm : c.Matches live) : c.startTimer.Matches live := by
  rw [Matches, Client.ledger_startTimer, Client.startTimer_ranges]
  exact hm

theorem Client.tracks_reserve (h : c.Sound) (hm : c.Matches live) (sender : σ)
    (attemptBase : UInt64) (length : UInt32) (oom : Bool) :
    Tracks (c.watchedReserve sender attemptBase length oom)
      (c.reserve sender attemptBase length oom) Client.Matches live := by
  unfold watchedReserve reserve
  split
  · exact .pure hm
  split
  · exact .pure hm
  split
  · exact .pure hm
  have hfresh : c.nextRange ∉ c.ledger.members := h.held.not_mem_fresh
  have hcounted : Client.Wired { c with maxid := c.maxid + 1 } :=
    h.toWired.congr rfl rfl rfl rfl rfl fun _ => ⟨rfl, rfl⟩
  obtain ⟨hnew, hnewLedger⟩ := Client.newRange_spec hcounted (c.maxid + 1) sender
  refine .alloc (Bool.eq_false_iff.mpr fun hlive => hfresh ((hm.ranges _).mp hlive)) ?_
  refine (Client.tracks_assign hnew.linked.below (hm.allocRange c.nextRange) (mem_insert _ _)
    _ _).bind ?_
  rintro ⟨c₁, found⟩ live₁ hassign ha
  have hfree : c.nextRange ∉ owners c.slots := fun hmem => hfresh (h.member_of_owner hmem)
  have h₁ := hnew.assigned hfree (Nat.lt_succ_self _) hassign
  have hmembers : c₁.ledger.members = c.ledger.members := by
    rw [h₁.members, hnewLedger]
    rfl
  cases found with
  | true =>
    have hlt : c.nextRange < c₁.nextRange := by
      rw [h₁.fresh]
      exact Nat.lt_succ_self _
    have hw : (c₁.informAcquiring c.nextRange).Wired := h₁.wired.addNotify _ _
    have hw₂ := (Client.scheduleTimer_spec hw hlt).1
    have hm₂ : ((c₁.informAcquiring c.nextRange).scheduleTimer c.nextRange).Matches live₁ := by
      refine hw.matches_scheduled hlt ?_
      rw [← hmembers] at ha
      exact ha
    have hm₃ := Client.matches_startTimer hm₂
    have hranges : ((c₁.informAcquiring c.nextRange).scheduleTimer c.nextRange).startTimer.ranges =
        c₁.ranges :=
      (Client.startTimer_ranges _).trans (Client.scheduleTimer_ranges _ _)
    have howner : c.nextRange ∈
        owners ((c₁.informAcquiring c.nextRange).scheduleTimer c.nextRange).startTimer.slots := by
      rw [slots, hranges]
      exact h₁.owner rfl
    have hmember := (hm₃.ranges c.nextRange).mp ((ha.ranges _).mpr (mem_insert _ _))
    refine h₁.wired.linked.tracks_read ha (h₁.owner rfl) (mem_insert _ _) ?_
    refine Client.tracks_schedule ha (fun a hmem => ?_) (mem_insert _ _) ?_
    · have hmem' : a ∈ c₁.ledger.members := hmem
      exact .inr (hmembers ▸ hmem')
    exact hw₂.queued.tracks_head hm₂ (fun _ hmem => hmem)
      (hw₂.startTimer.linked.tracks_read hm₃ howner hmember (.pure hm₃))
  | false =>
    have hback := ha.freeRange c.nextRange
    rw [insert_sdiff_self_of_notMem hfresh, ← hmembers] at hback
    exact .free ((ha.ranges _).mpr (mem_insert _ _)) (.pure hback)

theorem Client.Matches.touchQueue (hm : c.Matches live) :
    ∀ k ∈ c.queue.map Cell.range, live k = true :=
  hm.touchRanges fun _ hr => hr

theorem Client.Sound.owner_of_defending (h : c.Sound) {id : UInt32}
    (hfind : (c.queue.find? fun r => (c.mem r).id = id && (c.mem r).state = .DEFENDING) = some r) :
    r ∈ owners c.slots := by
  have hpred := List.find?_some hfind
  simp only [Bool.and_eq_true, decide_eq_true_eq] at hpred
  refine (h.held.owned r).mpr ⟨mem_of_find?_eq_some hfind, ?_⟩
  have hstate : (c.ledger.core r).state = .DEFENDING := hpred.2
  rw [hstate]
  decide

theorem Client.tracks_release [BEq σ] (h : c.Sound) (hm : c.Matches live) (sender : σ)
    (id : UInt32) :
    Tracks (c.watchedRelease sender id) (c.release sender id) Client.Matches live := by
  unfold watchedRelease
  by_cases hinit : (!c.initialized) = true
  · rw [release, if_pos hinit, if_pos hinit]
    exact .pure hm
  rw [if_neg hinit]
  refine .touchAll hm.touchQueue ?_
  cases hfind : c.queue.find? fun r => (c.mem r).id = id && (c.mem r).state ≠ .RELEASED with
  | none =>
    rw [release, if_neg hinit, hfind]
    exact .pure hm
  | some r =>
    have hmem : r ∈ c.queue := mem_of_find?_eq_some hfind
    have hstate : (c.mem r).state ≠ .RELEASED := by
      grind
    have howner : r ∈ owners c.slots := (h.held.owned r).mpr ⟨hmem, hstate⟩
    obtain ⟨n, hn, hdata, hinterval⟩ := h.node_of_owner howner
    obtain ⟨hw, hledger, hranges⟩ := Client.informBoth_spec (r := r) h.toWired sender id
    have hrelease : c.release sender id = (c.informBoth sender id r).dropRange n.addr r := by
      grind [release]
    have hmatches : (c.informBoth sender id r).Matches live := by
      rw [Matches, hledger, hranges]
      exact hm
    dsimp only
    rw [hinterval, hrelease]
    refine h.linked.tracks_read hm howner hmem ?_
    refine hw.tracks_drop (hranges ▸ hn) (fun a ha => ?_) hmatches (hledger ▸ hmem)
    have ha' : a ∈ owners (c.informBoth sender id r).ledger.slots := ha
    rw [hledger] at ha' ⊢
    exact h.member_of_owner ha'

theorem Client.tracks_status (h : c.Sound) (hm : c.Matches live) (sender : σ) (id : UInt32) :
    Tracks (c.watchedStatus sender id) (.ok (c.status sender id)) Client.Matches live := by
  unfold watchedStatus status
  split
  · exact .pure hm
  refine .touchAll hm.touchQueue ?_
  cases hfind : c.queue.find? fun r => (c.mem r).id = id && (c.mem r).state = .DEFENDING with
  | none => exact .pure hm
  | some r =>
    have hmem : r ∈ c.queue := mem_of_find?_eq_some hfind
    exact h.linked.tracks_read hm (h.owner_of_defending hfind) hmem (.pure hm)

/-! ### Conflicts -/

theorem Client.tracks_relocate (h : c.Sound) (hm : c.Matches live) (hn : n ∈ c.ranges.nodes)
    (hdata : n.data = some r) :
    Tracks (c.watchedRelocate n r) (c.relocate n r) Client.Matches live := by
  obtain ⟨hwired, hhanded, hfree, hn'⟩ := h.disowned hn hdata
  obtain ⟨-, hlt⟩ := h.linked.back n hn r hdata
  have hmem : r ∈ c.ledger.members :=
    h.member_of_owner (mem_owners.mpr ⟨n.slot, mem_map_of_mem hn, hdata⟩)
  have hdisowned : Allocated c.ledger.members (c.disown n.addr).ranges.addrs live := by
    rw [show (c.disown n.addr).ranges.addrs = c.ranges.addrs from Tree.addrs_data _ _ _]
    exact hm
  refine .touch ((hm.intervals _).mpr (Tree.addr_mem hn)) ?_
  refine (Client.tracks_assign hwired.linked.below hdisowned hmem _ _).bind ?_
  rintro ⟨c₁, found⟩ live₁ hassign ha
  have h₁ := hwired.assigned hfree hlt hassign
  have hmembers : c₁.ledger.members = c.ledger.members := h₁.members
  have howners : ∀ a ∈ owners c₁.slots, a ∈ c₁.ledger.members := by
    intro a hmem₁
    rw [hmembers]
    rcases h₁.owners a hmem₁ with ⟨-, rfl⟩ | hold
    · exact hmem
    · have hperm := hhanded.owners_perm (r := r) hdata
      exact h.member_of_owner (hperm.mem_iff.mpr (mem_cons_of_mem _ hold))
  rw [← hmembers] at ha hmem
  cases found with
  | false =>
    have hw := h₁.wired.addNotify (c₁.mem r).sender
      ⟨.ACQUIRED, (c₁.mem r).id, 0, n.count, .RESERVE_NOT_AVAILABLE⟩
    refine .touch ((ha.ranges r).mpr hmem) ?_
    exact hw.tracks_drop (n := { n with data := none }) (h₁.nodes _ hn') howners ha hmem
  | true =>
    have hw : (c₁.informAcquiring r).Wired := h₁.wired.addNotify _ _
    refine h₁.wired.linked.tracks_read ha (h₁.owner rfl) hmem ?_
    refine (hw.linked.tracks_remove (h₁.nodes _ hn') howners ha).bind ?_
    intro c₂ live₂ hremove ha₂
    obtain ⟨pre, post, hsplit⟩ := append_of_mem (h₁.nodes _ hn')
    obtain ⟨hw₂, -, hledger₂⟩ := Client.removeRangeInterval_spec hw hsplit hremove
    have hmembers₂ : c₂.ledger.members = c₁.ledger.members := by
      rw [hledger₂]
      rfl
    have hremoved : Removed { n.slot with owner := none } c₁.slots c₂.slots := by
      refine ⟨pre.map Node.slot, post.map Node.slot, ?_, congrArg Ledger.slots hledger₂⟩
      rw [Client.slots, hsplit, map_append, map_cons]
      rfl
    have howner : r ∈ owners c₂.slots := by
      rw [hremoved.owners_none rfl]
      exact h₁.owner rfl
    have hw₃ : (c₂.setRange r fun range => { range with counter := maapProbeRetransmits }).Wired :=
      hw₂.setRange fun _ => ⟨rfl, rfl⟩
    have hlt₂ : r < c₂.nextRange := by
      obtain ⟨s, hs, hsr⟩ := mem_owners.mp howner
      obtain ⟨m, hm, rfl⟩ := Client.mem_slots.mp hs
      exact (hw₂.linked.back m hm r hsr).2
    rw [← hmembers₂] at ha₂ hmem
    refine hw₃.tracks_launch ha₂ (fun _ ha => ha) hlt₂ howner hmem (.pure ?_)
    refine hw₃.matches_scheduled hlt₂ ?_
    rw [insert_eq_of_mem (show r ∈ (c₂.setRange r _).ledger.members from hmem)]
    exact ha₂

theorem Client.tracks_yield (h : c.Sound) (hm : c.Matches live) (hn : n ∈ c.ranges.nodes)
    (hdata : n.data = some r) (oom : Bool) :
    Tracks (c.watchedYield n r oom) (c.yieldInterval n r oom) Client.Matches live := by
  have howner : r ∈ owners c.slots := mem_owners.mpr ⟨n.slot, mem_map_of_mem hn, hdata⟩
  have hmem : r ∈ c.ledger.members := h.member_of_owner howner
  have hnode := (hm.intervals n.addr).mpr (Tree.addr_mem hn)
  unfold watchedYield yieldInterval
  cases oom with
  | true =>
    have hw : (c.informYielded (c.mem r).sender (c.mem r).id (some r) .OUT_OF_MEMORY).Wired :=
      h.toWired.addNotify _ _
    refine .touch hnode (h.linked.tracks_read hm howner hmem ?_)
    exact hw.tracks_drop hn (fun a ha => h.member_of_owner ha) hm hmem
  | false =>
    have hfresh : c.nextRange ∉ c.ledger.members := h.held.not_mem_fresh
    have hfree : c.nextRange ∉ owners c.slots := fun ha => hfresh (h.member_of_owner ha)
    obtain ⟨hnew, hnewLedger⟩ := Client.newRange_spec h.toWired (c.mem r).id (c.mem r).sender
    have hall := hm.allocRange c.nextRange
    refine .touch hnode (.alloc ?_ (.touch ((hall.ranges r).mpr (.inr hmem)) ?_))
    · exact Bool.eq_false_iff.mpr fun hlive => hfresh ((hm.ranges _).mp hlive)
    refine (Client.tracks_assign hnew.linked.below hall (mem_insert _ _) _ _).bind ?_
    rintro ⟨c₁, found⟩ live₁ hassign ha
    have h₁ := hnew.assigned hfree (Nat.lt_succ_self _) hassign
    have hmembers : c₁.ledger.members = c.ledger.members := by
      rw [h₁.members, hnewLedger]
    have hn₁ := h₁.nodes n hn
    have howner₁ : r ∈ owners c₁.slots :=
      mem_owners.mpr ⟨n.slot, mem_map_of_mem hn₁, hdata⟩
    have howners : ∀ a ∈ owners c₁.slots, found = true ∧ a = c.nextRange ∨ a ∈ c.ledger.members := by
      intro a ha₁
      exact (h₁.owners a ha₁).imp id h.member_of_owner
    cases found with
    | true =>
      have hlt : c.nextRange < c₁.nextRange := by
        rw [h₁.fresh]
        exact Nat.lt_succ_self _
      have hw₂ := (Client.scheduleTimer_spec h₁.wired hlt).1
      have hranges := c₁.scheduleTimer_ranges c.nextRange
      have hm₂ : (c₁.scheduleTimer c.nextRange).Matches live₁ := by
        refine h₁.wired.matches_scheduled hlt ?_
        rwa [hmembers]
      have hmembers₂ := Set.ext fun a => (hm₂.ranges a).symm.trans (ha.ranges a)
      have howners₂ : ∀ a ∈ owners (c₁.scheduleTimer c.nextRange).slots,
          a ∈ (c₁.scheduleTimer c.nextRange).ledger.members := by
        grind [slots]
      have howner₂ : ∀ a ∈ owners c₁.slots, a ∈ owners (c₁.scheduleTimer c.nextRange).slots := by
        intro a ha₁
        rwa [slots, hranges]
      have hn₂ : n ∈ (c₁.scheduleTimer c.nextRange).ranges.nodes := hranges ▸ hn₁
      have hw₃ : ((c₁.scheduleTimer c.nextRange).sendProbe c.nextRange).Wired := hw₂.sendPacket _
      have hw₄ : (((c₁.scheduleTimer c.nextRange).sendProbe c.nextRange).informYielded
          (c.mem r).sender (c.mem r).id (some r) .NONE).Wired := hw₃.addNotify _ _
      have hw₅ : ((((c₁.scheduleTimer c.nextRange).sendProbe c.nextRange).informYielded
          (c.mem r).sender (c.mem r).id (some r) .NONE).informAcquiring c.nextRange).Wired :=
        hw₄.addNotify _ _
      have hold := (hm₂.ranges r).mp ((ha.ranges r).mpr (.inr hmem))
      have hadded := (hm₂.ranges c.nextRange).mp ((ha.ranges _).mpr (mem_insert _ _))
      refine h₁.wired.tracks_launch ha (fun a ha₁ => .inr (hmembers ▸ ha₁)) hlt (h₁.owner rfl)
        (mem_insert _ _) ?_
      refine hw₃.linked.tracks_read hm₂ (howner₂ r howner₁) hold ?_
      refine hw₄.linked.tracks_read hm₂ (howner₂ _ (h₁.owner rfl)) hadded ?_
      exact hw₅.tracks_drop hn₂ howners₂ hm₂ hold
    | false =>
      have hback := ha.freeRange c.nextRange
      rw [insert_sdiff_self_of_notMem hfresh, ← hmembers] at hback
      have hw := h₁.wired.addNotify (c.mem r).sender
        (c₁.noteAbout .YIELDED (c.mem r).id (some r) .RESERVE_NOT_AVAILABLE)
      refine h₁.wired.linked.tracks_read ha howner₁ (.inr hmem) ?_
      refine .free ((ha.ranges _).mpr (mem_insert _ _)) ?_
      rw [← hmembers] at hmem
      refine hw.tracks_drop hn₁ (fun a ha₁ => ?_) hback hmem
      obtain ⟨hfound, -⟩ | hold := howners a ha₁
      · cases hfound
      · have hmember : a ∈ c₁.ledger.members := hmembers ▸ hold
        exact hmember

theorem Client.tracks_resolve (h : c.Sound) (hm : c.Matches live) (p : Packet) (oom : Bool)
    (hn : n ∈ c.ranges.nodes) (hdata : n.data = some r) :
    Tracks (c.watchedResolve p oom n r) (c.resolve p oom n r) Client.Matches live := by
  have howner : r ∈ owners c.slots := mem_owners.mpr ⟨n.slot, mem_map_of_mem hn, hdata⟩
  have hmem := h.member_of_owner howner
  unfold watchedResolve resolve
  refine .touch ((hm.ranges r).mpr hmem) ?_
  cases (c.mem r).state with
  | PROBING =>
    dsimp only
    split
    · exact .pure hm
    · exact Client.tracks_relocate h hm hn hdata
  | DEFENDING =>
    dsimp only
    split
    · exact h.linked.tracks_read hm howner hmem (.pure hm)
    split
    · exact .pure hm
    · exact Client.tracks_yield h hm hn hdata oom
  | RELEASED => exact .pure hm

theorem tracks_flag {mem : Nat → Range σ}
    (hl : ∀ n ∈ l, ∀ r, n.data = some r → live (.range r) = true) :
    Tracks (watchedFlag l mem) (flagOverlaps l mem) (fun _ live' => live' = live) live := by
  induction l generalizing mem with
  | nil => exact .pure rfl
  | cons n l ih =>
    rw [watchedFlag, flagOverlaps]
    cases hdata : n.data with
    | none => exact .abort _
    | some r =>
      refine .touch (hl n mem_cons_self r hdata) ?_
      exact ih fun m hm => hl m (mem_cons_of_mem n hm)

theorem tracks_find {mem : Nat → Range σ}
    (hl : ∀ n ∈ l, ∀ r, n.data = some r → live (.range r) = true) :
    Tracks (watchedFind mem l) (findFlagged mem l) (fun _ live' => live' = live) live := by
  induction l with
  | nil => exact .abort _
  | cons n l ih =>
    rw [watchedFind, findFlagged]
    cases hdata : n.data with
    | none => exact .abort _
    | some r =>
      refine .touch (hl n mem_cons_self r hdata) ?_
      dsimp only
      split
      · exact .pure rfl
      · exact ih fun m hm => hl m (mem_cons_of_mem n hm)

theorem Client.Sound.data_live (h : c.Sound) (hm : c.Matches live) (hn : n ∈ c.ranges.nodes)
    (hdata : n.data = some r) : live (.range r) = true :=
  (hm.ranges r).mpr (h.member_of_owner (mem_owners.mpr ⟨n.slot, List.mem_map_of_mem hn, hdata⟩))

theorem Client.tracks_loop (h : c.Sound) (hm : c.Matches live) (p : Packet) (oom : Bool)
    (start k : Nat) :
    Tracks (c.watchedLoop p oom start k) (c.resolveLoop p oom start k) Client.Matches live := by
  induction k generalizing c live with
  | zero => exact .pure hm
  | succ k ih =>
    rw [watchedLoop, resolveLoop]
    have hfind : Tracks (watchedFind c.mem (c.ranges.nodesFrom start p.requestedCount))
        (findFlagged c.mem (c.ranges.nodesFrom start p.requestedCount)) (fun _ live' => live' = live)
        live :=
      tracks_find fun n hn r hdata => h.data_live hm (Tree.nodesFrom_subset hn) hdata
    refine .touchAll (hm.touchTree (Set.Subset.refl _)) (hfind.bind ?_)
    rintro ⟨n, r⟩ live₁ hfound rfl
    obtain ⟨hmem, hdata, -⟩ := findFlagged_spec hfound
    have hn := Tree.nodesFrom_subset hmem
    obtain ⟨hcleared, -⟩ := h.flag (r := r) false
    refine (Client.tracks_resolve hcleared hm p oom hn hdata).bind ?_
    intro c₁ live₂ hok hm₁
    exact ih (Client.resolve_spec hcleared hn hdata hok).1 hm₁

theorem Client.tracks_packet (h : c.Sound) (hm : c.Matches live) (stream : List UInt8)
    (oom : Bool) :
    Tracks (c.watchedPacket stream oom) (c.handlePacket stream oom) Client.Matches live := by
  unfold watchedPacket handlePacket
  split
  · exact .pure hm
  split
  · have hlogged : Client.Sound { c with log := c.log ++ [.handled (unpackMaap stream)] } :=
      ⟨h.toWired.congr rfl rfl rfl rfl rfl fun _ => ⟨rfl, rfl⟩, h.held.log _⟩
    unfold watchedValid handleValid
    dsimp only
    split
    · exact .pure hm
    · have hflag : Tracks (watchedFlag (Client.overlapping
          { c with log := c.log ++ [.handled (unpackMaap stream)] } (unpackMaap stream)) c.mem)
          (flagOverlaps (Client.overlapping
            { c with log := c.log ++ [.handled (unpackMaap stream)] } (unpackMaap stream)) c.mem)
          (fun _ live' => live' = live) live := by
        refine tracks_flag fun n hn r hdata => h.data_live hm ?_ hdata
        exact Tree.nodesFrom_subset ((takeWhile_sublist _).subset hn)
      refine .touchAll (hm.touchTree (Set.Subset.refl _)) (hflag.bind ?_)
      rintro mem live₁ hmem rfl
      obtain ⟨hflagged, -, -⟩ := flagOverlaps_spec hlogged hmem
      refine (Client.tracks_loop hflagged hm _ oom _ _).bind ?_
      intro c₁ live₂ hok hm₁
      have h₁ := (Client.resolveLoop_spec hflagged hok).1
      exact h₁.queued.tracks_head hm₁ (fun _ ha => ha) (.pure (Client.matches_startTimer hm₁))
  · exact .pure hm

theorem Client.tracks_yieldRange (h : c.Sound) (hm : c.Matches live) (sender : σ) (id : UInt32)
    (oom : Bool) :
    Tracks (c.watchedYieldRange sender id oom) (c.yield sender id oom) Client.Matches live := by
  unfold watchedYieldRange yield
  split
  · exact .pure hm
  refine .touchAll hm.touchQueue ?_
  cases hfind : c.queue.find? fun r => (c.mem r).id = id && (c.mem r).state = .DEFENDING with
  | none => exact .pure hm
  | some r =>
    have hmem : r ∈ c.queue := mem_of_find?_eq_some hfind
    exact h.linked.tracks_read hm (h.owner_of_defending hfind) hmem
      (Client.tracks_packet h hm _ oom)

/-! ### Timers -/

theorem Client.Wired.tracks_again (h : c.Wired) (hlt : r < c.nextRange)
    (howner : r ∈ owners c.slots)
    (ha : Allocated (insert r c.ledger.members) c.ranges.addrs live) (p : Packet) :
    Tracks (do
      touchAll (c.timerCells r)
      (c.scheduleTimer r).readInterval r
      pure ((c.scheduleTimer r).sendPacket p)) (.ok ((c.scheduleTimer r).sendPacket p))
      Client.Matches live :=
  h.tracks_launch ha (fun _ hmem => .inr hmem) hlt howner (Set.mem_insert _ _)
    (.pure (h.matches_scheduled hlt ha))

theorem Client.tracks_act (h : c.Sound) (hm : c.Matches live) (hhead : c.timerQueue = some r) :
    Tracks (c.watchedAct r) (.ok (c.actTimer r)) Client.Matches live := by
  obtain ⟨hw, hmem, hlt, hledger⟩ := Client.popTimer_spec h.toWired hhead
  have hmembers : (c.popTimer r).ledger.members = c.ledger.members \ {r} := by rw [hledger]
  have hback : Allocated (insert r (c.popTimer r).ledger.members) (c.popTimer r).ranges.addrs live := by
    rw [hmembers, insert_taken hmem]
    exact hm
  have howner : (c.mem r).state ≠ .RELEASED → r ∈ owners (c.popTimer r).slots := by
    intro hstate
    exact (h.held.owned r).mpr ⟨hmem, hstate⟩
  unfold watchedAct actTimer
  refine .touch ((hm.ranges r).mpr hmem) ?_
  cases hstate : (c.mem r).state with
  | PROBING =>
    have howner := howner (by rw [hstate]; decide)
    unfold watchedProbeTimer handleProbeTimer
    dsimp only
    split
    · have hinformed : Client.Wired { (c.popTimer r).informAcquired r with
          log := (c.popTimer r).log ++ [.acquired r] } :=
        hw.congr rfl rfl rfl rfl rfl fun _ => ⟨rfl, rfl⟩
      have hacquired : ((c.popTimer r).acquire r).Wired := hinformed.setRange fun _ => ⟨rfl, rfl⟩
      refine hw.linked.tracks_read hback howner (mem_insert _ _) ?_
      exact hacquired.tracks_again hlt howner hback _
    · have hcounted : ((c.popTimer r).countDown r).Wired := hw.setRange fun _ => ⟨rfl, rfl⟩
      exact hcounted.tracks_again hlt howner hback _
  | DEFENDING => exact hw.tracks_again hlt (howner (by rw [hstate]; decide)) hback _
  | RELEASED =>
    have hgone := hm.freeRange r
    rw [← hmembers] at hgone
    exact .free ((hm.ranges r).mpr hmem) (.pure hgone)

theorem Client.tracks_timerLoop (h : c.Sound) (hm : c.Matches live) (now : Time) (fuel : Nat) :
    Tracks (c.watchedTimerLoop now fuel) (.ok (c.timerLoop now fuel)) Client.Matches live := by
  induction fuel generalizing c live with
  | zero => exact .pure hm
  | succ fuel ih =>
    rw [watchedTimerLoop, timerLoop]
    cases hhead : c.timerQueue with
    | none => exact .pure hm
    | some r =>
      refine .touch ((hm.ranges r).mpr (h.queued.head_mem hhead)) ?_
      dsimp only
      split
      · have hact := Client.tracks_act h hm hhead
        refine hact.bind (g := fun c => .ok (c.timerLoop now fuel)) ?_
        grind [actTimer_spec]
      · exact .pure hm

theorem Client.tracks_timer (h : c.Sound) (hm : c.Matches live) :
    Tracks c.watchedTimer (.ok c.handleTimer) Client.Matches live := by
  have hread : c.monotonic.2.Sound :=
    ⟨h.toWired.congr rfl rfl rfl rfl rfl fun _ => ⟨rfl, rfl⟩, h.held⟩
  have hloop := Client.tracks_timerLoop hread hm c.monotonic.1 c.nextRange
  refine hloop.bind (g := fun c => .ok c.startTimer) ?_
  rintro c₁ live₁ hok hm₁
  cases hok
  have h₁ := (Client.timerLoop_spec hread c.monotonic.1 c.nextRange).1
  exact h₁.queued.tracks_head hm₁ (fun _ ha => ha) (.pure (Client.matches_startTimer hm₁))

/-! ### Runs -/

theorem Tree.addrs_of_nodes (h : t.nodes = []) : t.addrs = ∅ := by
  rw [Tree.addrs_eq, h]
  simp

theorem Client.matches_iff_of_vacant (h : c.ledger.Vacant) : c.Matches live ↔ Allocated ∅ ∅ live := by
  rw [Matches, h.1, Tree.addrs_of_nodes (map_eq_nil_iff.mp h.2)]

theorem Client.tracks_perform [BEq σ] (h : c.Sound) (hinit : c.initialized = true ∨ c.ledger.Vacant)
    (hm : c.Matches live) (op : Op σ) :
    Tracks (c.watchedPerform op) (c.perform op) Client.Matches live := by
  cases op with
  | init sender base len =>
    refine .pure ?_
    rcases hinit with hinit | hvacant
    · rw [Client.init, if_pos hinit]
      exact hm
    · have hafter : (c.init sender base len).ledger.Vacant := by
        obtain ⟨-, heq | ⟨-, heq⟩⟩ := Client.init_spec h sender base len
        · rw [heq]
          exact hvacant
        · rw [heq]
          exact ⟨rfl, rfl⟩
      exact (Client.matches_iff_of_vacant hafter).mpr ((Client.matches_iff_of_vacant hvacant).mp hm)
  | reserve sender base length oom => exact Client.tracks_reserve h hm sender base length oom
  | release sender id => exact Client.tracks_release h hm sender id
  | status sender id => exact Client.tracks_status h hm sender id
  | yield sender id oom => exact Client.tracks_yieldRange h hm sender id oom
  | packet stream oom => exact Client.tracks_packet h hm stream oom
  | timer => exact Client.tracks_timer h hm

theorem Client.tracks_run [BEq σ] (h : c.Sound) (hinit : c.initialized = true ∨ c.ledger.Vacant)
    (hm : c.Matches live) (ops : List (Op σ)) :
    Tracks (c.watchedRun ops) (Fallible.run Client.perform c ops) Client.Matches live := by
  induction ops generalizing c live with
  | nil => exact .pure hm
  | cons op ops ih =>
    refine (Client.tracks_perform h hinit hm op).bind ?_
    intro c₁ live₁ hok hm₁
    exact ih (Client.perform_spec h hok).1 (Client.initialized_or_vacant_perform h hinit hok) hm₁

/-! ### The end -/

theorem Client.tracks_clearQueue {l : List Nat}
    (hchain : LinkedQueue.Chain c.nextTimer c.timerQueue l) (hfuel : l.length ≤ fuel)
    (ha : Allocated R A live) (hl : ∀ r ∈ l, r ∈ R) :
    Tracks (c.watchedClearQueue fuel) (.ok { c with timerQueue := none })
      (fun _ live' => Allocated (R \ { r | r ∈ l ∧ (c.mem r).state = .RELEASED }) A live') live := by
  induction l generalizing c fuel R live with
  | nil =>
    have hhead : c.timerQueue = none := by
      generalize c.timerQueue = q at hchain
      cases hchain
      rfl
    have hsame : { c with timerQueue := none } = c := by rw [← hhead]
    have hclear : c.watchedClearQueue fuel = pure c := by
      cases fuel with
      | zero => rfl
      | succ fuel => rw [watchedClearQueue, hhead]
    rw [hsame, hclear]
    refine .pure ?_
    simpa using ha
  | cons r l ih =>
    obtain ⟨hhead, hnext⟩ := LinkedQueue.chain_cons_iff.mp hchain
    have hr : r ∉ l := (nodup_cons.mp hchain.nodup).1
    obtain ⟨fuel, rfl⟩ : ∃ n, fuel = n + 1 :=
      ⟨fuel - 1, by rw [length_cons] at hfuel; omega⟩
    have hfuel' : l.length ≤ fuel := Nat.le_of_succ_le_succ hfuel
    have hlive := (ha.ranges r).mpr (hl r mem_cons_self)
    rw [watchedClearQueue, hhead]
    refine .touch hlive ?_
    by_cases hstate : (c.mem r).state = .RELEASED
    · rw [if_pos hstate]
      refine .free hlive ?_
      refine (ih (c := { c with timerQueue := c.nextTimer r }) hnext hfuel' (ha.freeRange r)
        fun a hal => ⟨hl a (mem_cons_of_mem r hal), fun har => hr (har ▸ hal)⟩).mono ?_
      intro _ live' _ ha'
      have hset : (R \ {r}) \ { a | a ∈ l ∧ (c.mem a).state = .RELEASED } =
          R \ { a | a ∈ r :: l ∧ (c.mem a).state = .RELEASED } := by
        ext a
        grind
      exact hset ▸ ha'
    · rw [if_neg hstate]
      refine (ih (c := { c with timerQueue := c.nextTimer r }) hnext hfuel' ha
        fun a hal => hl a (mem_cons_of_mem r hal)).mono ?_
      grind

theorem Client.Linked.removed (h : c.Linked) (hn : n ∈ c.ranges.nodes)
    (hok : c.removeRangeInterval n.addr = .ok c') :
    c'.Linked ∧ Removed n.slot c.slots c'.slots ∧ ∀ s ∈ c'.slots, s.owner ≠ none := by
  obtain ⟨pre, post, hsplit⟩ := append_of_mem hn
  obtain ⟨hlinked, hslots, howned, -⟩ := h.remove hsplit hok
  refine ⟨hlinked, ⟨pre.map Node.slot, post.map Node.slot, ?_, hslots⟩, howned⟩
  rw [slots, hsplit, map_append, map_cons]

theorem Removed.length_eq {s : Slot} {l l' : List Slot} (h : Removed s l l') :
    l.length = l'.length + 1 := by
  obtain ⟨a, b, rfl, rfl⟩ := h
  simp only [length_append, length_cons]
  omega

theorem Client.length_slots (c : Client σ) : c.slots.length = c.ranges.nodes.length :=
  List.length_map _

theorem Client.allocated_of_nodes (hnodes : c.ranges.nodes = [])
    (ha : Allocated { r | r ∈ owners c.slots } c.ranges.addrs live) : Allocated ∅ ∅ live := by
  have howners : { r | r ∈ owners c.slots } = (∅ : Set Nat) := by
    rw [slots, hnodes]
    simp [owners]
  rwa [howners, Tree.addrs_of_nodes hnodes] at ha

theorem Client.Linked.tracks_clearRanges (h : c.Linked) (hfuel : c.ranges.nodes.length ≤ fuel)
    (ha : Allocated { r | r ∈ owners c.slots } c.ranges.addrs live) :
    Tracks (c.watchedClearRanges fuel) (c.clearRanges fuel) (fun _ live' => Allocated ∅ ∅ live')
      live := by
  induction fuel generalizing c live with
  | zero =>
    exact .pure (Client.allocated_of_nodes (length_eq_zero_iff.mp (Nat.le_zero.mp hfuel)) ha)
  | succ fuel ih =>
    rw [watchedClearRanges, clearRanges]
    cases hranges : c.ranges with
    | nil => exact .pure (Client.allocated_of_nodes (by rw [hranges]; rfl) ha)
    | node l n r =>
      have hn : n ∈ c.ranges.nodes := by simp [hranges, Tree.nodes]
      refine .touch ((ha.intervals _).mpr (Tree.addr_mem hn)) ?_
      refine (h.tracks_remove hn (fun _ hr => hr) ha).bind ?_
      intro c₁ live₁ hok ha₁
      obtain ⟨h₁, hremoved, -⟩ := h.removed hn hok
      have hlength : c₁.ranges.nodes.length ≤ fuel := by
        grind [Removed.length_eq, length_slots]
      cases hdata : n.data with
      | none =>
        rw [← hremoved.owners_none hdata] at ha₁
        exact ih h₁ hlength ha₁
      | some r =>
        have hperm := hremoved.owners_perm (r := r) hdata
        have hr : r ∉ owners c₁.slots := (nodup_cons.mp (hperm.nodup_iff.mp h.owners_nodup)).1
        have hset : { a | a ∈ owners c.slots } \ {r} = { a | a ∈ owners c₁.slots } := by
          grind
        refine .free ((ha₁.ranges r).mpr (hperm.mem_iff.mpr mem_cons_self)) ?_
        exact ih h₁ hlength (hset ▸ ha₁.freeRange r)

theorem Client.tracks_deinit (h : c.Sound) (hinit : c.initialized = true ∨ c.ledger.Vacant)
    (hm : c.Matches live) :
    Tracks c.watchedDeinit c.deinit (fun _ live' => Allocated ∅ ∅ live') live := by
  unfold watchedDeinit deinit
  by_cases hi : c.initialized = true
  · rw [if_pos hi, if_pos hi]
    have hqueue := Client.tracks_clearQueue h.queued.chain
      (length_le_of_below h.queued.chain.nodup h.queued.below) hm fun _ hr => hr
    have hstart : (Except.ok { c with timerQueue := none } >>= fun d : Client σ =>
        d.clearRanges d.ranges.nodes.length >>= fun d => .ok d.closed) =
        (do
          let d ← Client.clearRanges c.ranges.nodes.length { c with timerQueue := none }
          .ok d.closed : Except Abort (Client σ)) := rfl
    rw [← hstart]
    refine hqueue.bind ?_
    rintro _ live₁ hok ha
    cases hok
    have hlinked : Client.Linked { c with timerQueue := none } :=
      h.linked.congr rfl (Nat.le_refl _) (Nat.le_refl _) fun _ _ => rfl
    have howners : c.ledger.members \ { r | r ∈ c.queue ∧ (c.mem r).state = .RELEASED } =
        { r | r ∈ owners c.slots } := by
      ext r
      have hiff : r ∈ owners c.slots ↔ r ∈ c.queue ∧ (c.mem r).state ≠ .RELEASED := h.held.owned r
      constructor
      · rintro ⟨hr, hnot⟩
        exact hiff.mpr ⟨hr, fun hstate => hnot ⟨hr, hstate⟩⟩
      · intro hr
        obtain ⟨hmem, hstate⟩ := hiff.mp hr
        exact ⟨hmem, fun hboth => hstate hboth.2⟩
    rw [howners] at ha
    refine (hlinked.tracks_clearRanges (Nat.le_refl _) ha).bind ?_
    intro c₂ live₂ _ ha₂
    exact .pure ha₂
  · rw [if_neg hi, if_neg hi]
    exact .pure ((Client.matches_iff_of_vacant (hinit.resolve_left hi)).mp hm)

/-! ### When the end is reached -/

def Client.Tended (c : Client σ) : Prop :=
  match c.ranges with
  | .nil => True
  | .node l _ r => ∀ n ∈ l.nodes ++ r.nodes, n.data ≠ none

theorem Client.tended_of_owned (h : ∀ s ∈ c.slots, s.owner ≠ none) : c.Tended := by
  unfold Tended
  cases hranges : c.ranges with
  | nil => trivial
  | node l n r =>
    intro m hm
    have hnode : m ∈ c.ranges.nodes := by
      grind [Tree.nodes]
    exact h m.slot (mem_map_of_mem hnode)

theorem Client.Linked.clearRanges_ok_iff (h : c.Linked) (hfuel : c.ranges.nodes.length ≤ fuel) :
    (∃ c', c.clearRanges fuel = .ok c') ↔ c.Tended := by
  induction fuel generalizing c with
  | zero =>
    have hnodes := length_eq_zero_iff.mp (Nat.le_zero.mp hfuel)
    refine iff_of_true ⟨c, rfl⟩ (Client.tended_of_owned ?_)
    rw [slots, hnodes]
    simp
  | succ fuel ih =>
    rw [clearRanges, Tended]
    cases hranges : c.ranges with
    | nil => exact iff_of_true ⟨c, rfl⟩ trivial
    | node l n r =>
      have hsplit : c.ranges.nodes = l.nodes ++ n :: r.nodes := by
        rw [hranges]
        rfl
      have hn : n ∈ c.ranges.nodes := by simp [hsplit]
      constructor
      · rintro ⟨c', hok⟩ m hm
        obtain ⟨c₁, hremove, -⟩ := bind_eq_ok.mp hok
        obtain ⟨-, hslots, howned, -⟩ := h.remove hsplit hremove
        refine howned m.slot ?_
        grind
      · intro htended
        have hrest : unowned (l.nodes.map Node.slot ++ r.nodes.map Node.slot) = 0 := by
          refine unowned_eq_zero.mpr fun s hs => ?_
          rw [← map_append] at hs
          obtain ⟨m, hm, rfl⟩ := mem_map.mp hs
          exact htended m hm
        have hslots : c.slots = l.nodes.map Node.slot ++ n.slot :: r.nodes.map Node.slot := by
          rw [slots, hsplit, map_append, map_cons]
        have hcount : unowned c.slots = if n.data.isNone then 1 else 0 := by
          rw [hslots, unowned_split, hrest, Nat.zero_add]
          rfl
        obtain ⟨c₁, hremove⟩ := Client.removeRangeInterval_ok h hn hcount
        obtain ⟨h₁, hremoved, howned⟩ := h.removed hn hremove
        have hlength : c₁.ranges.nodes.length ≤ fuel := by
          grind [Removed.length_eq, length_slots]
        grind [tended_of_owned, bind_eq_ok]

theorem Client.deinit_ok_iff (h : c.Sound) (hinit : c.initialized = true ∨ c.ledger.Vacant) :
    (∃ c', c.deinit = .ok c') ↔ c.Tended := by
  have hlinked : Client.Linked { c with timerQueue := none } :=
    h.linked.congr rfl (Nat.le_refl _) (Nat.le_refl _) fun _ _ => rfl
  have hclear := hlinked.clearRanges_ok_iff (Nat.le_refl _)
  unfold deinit
  by_cases hi : c.initialized = true
  · rw [if_pos hi]
    constructor
    · rintro ⟨c', hok⟩
      obtain ⟨c₁, hok, -⟩ := bind_eq_ok.mp hok
      exact hclear.mp ⟨c₁, hok⟩
    · intro htended
      obtain ⟨c₁, hok⟩ := hclear.mpr htended
      exact ⟨c₁.closed, bind_eq_ok.mpr ⟨c₁, hok, rfl⟩⟩
  · rw [if_neg hi]
    refine iff_of_true ⟨c, rfl⟩ (Client.tended_of_owned ?_)
    have hslots : c.slots = [] := (hinit.resolve_left hi).2
    rw [hslots]
    simp

/-! ### Reservations that leave no interval behind -/

section Unowned

variable {v v' : Ledger σ}

theorem Drop.unowned_eq (h : Drop r v v') : unowned v'.slots = unowned v.slots := by
  cases h with
  | mk removed => exact removed.unowned_eq.symm

theorem Move.unowned_eq (h : Move r v v') : unowned v'.slots = unowned v.slots := by
  cases h with
  | mk probing owner handed inserted removed placement =>
    have hhanded := handed.unowned_eq owner
    have hinserted := inserted.unowned_eq
    have hremoved := removed.unowned_eq
    simp_all

theorem Replace.unowned_eq (h : Replace r v v') : unowned v'.slots = unowned v.slots := by
  cases h with
  | mk mem owner inserted removed placement =>
    have hinserted := inserted.unowned_eq
    have hremoved := removed.unowned_eq
    simp_all

theorem Ledger.kept_owned : Kept fun v : Ledger σ => unowned v.slots = 0 where
  alike halike h := by rw [halike.slots, h]
  drop h hd := by rw [hd.unowned_eq, h]
  move h hm := by rw [hm.unowned_eq, h]
  replace _ h hr := by rw [hr.unowned_eq, h]

end Unowned

def Client.Prompt (c : Client σ) : Op σ → Prop
  | .reserve _ base length _ => ¬c.Late base.toNat length.toNat
  | _ => True

theorem Client.Follows.owned {v' : Ledger σ} {op : Op σ} (h : c.ledger.Held)
    (hv : unowned c.ledger.slots = 0) (hprompt : c.Prompt op) (hf : c.Follows op v') :
    unowned v'.slots = 0 := by
  refine Ledger.kept_owned.follows h hv hf (fun _ _ => rfl) ?_
  rintro sender base length oom rfl - hreserve
  cases hreserve with
  | refused => exact hv
  | failed x => exact hv
  | orphan x isLate inserted => exact absurd isLate hprompt
  | placed small fits inserted placement =>
    have hinserted := inserted.unowned_eq
    rw [hv] at hinserted
    exact hinserted

theorem Client.Initial.tended [BEq σ] {d : Client σ} {ops : List (Op σ)} (h : d.Initial)
    (hprompt : Along Client.perform Client.Prompt d ops)
    (hrun : Fallible.run Client.perform d ops = .ok c) : c.Tended := by
  have hfirst : unowned d.ledger.slots = 0 := by
    rw [h.slots]
    rfl
  have hinv : c.Sound ∧ unowned c.ledger.slots = 0 := by
    refine run_invariant (P := fun c => c.Sound ∧ unowned c.ledger.slots = 0) ?_ ⟨h.sound, hfirst⟩
      hprompt hrun
    rintro c op c' hop ⟨hsound, howned⟩ hok
    obtain ⟨hsound', hfollows⟩ := Client.perform_spec hsound hok
    exact ⟨hsound', hfollows.owned hsound.held howned hop⟩
  exact Client.tended_of_owned (unowned_eq_zero.mp hinv.2)

/-! ### From the first operation to the end -/

theorem Client.Initial.tracks_run [BEq σ] (h : c.Initial) (ops : List (Op σ)) :
    Tracks (c.watchedRun ops) (Fallible.run Client.perform c ops) Client.Matches fun _ => false := by
  refine Client.tracks_run h.sound (.inr h.vacant) ?_ ops
  exact (Client.matches_iff_of_vacant h.vacant).mpr ⟨by simp, by simp⟩

theorem Client.Initial.tracks_lifetime [BEq σ] (h : c.Initial) (ops : List (Op σ)) :
    Tracks (c.lifetime ops) (Fallible.run Client.perform c ops >>= Client.deinit)
      (fun _ live => Allocated ∅ ∅ live) fun _ => false := by
  refine (h.tracks_run ops).bind ?_
  grind [tracks_deinit, sound_of_run, initialized_or_vacant]

/-- No run of a client, from its first operation to the end of `maap_deinit_client`, uses a range
or an interval that is not allocated, and each has been freed as often as allocated when the end
is reached. It is reached exactly if every node but the root then has a range. -/
theorem Client.lifetime_exact [BEq σ] (h : c.Initial) (ops : List (Op σ)) :
    (∀ u, c.lifetime ops Heap.empty ≠ .error (.fault u)) ∧
    (∀ d heap, c.lifetime ops Heap.empty = .ok (d, heap) → ∀ x,
      heap.live x = false ∧ heap.uses.count (.alloc x) = heap.uses.count (.free x) ∧
        ∀ later past, heap.uses = later ++ .free x :: past → .alloc x ∉ later →
          .touch x ∉ later ∧ .free x ∉ later) ∧
    (∀ d, Fallible.run Client.perform c ops = .ok d →
      ((∃ y, c.lifetime ops Heap.empty = .ok y) ↔ d.Tended)) ∧
    (Along Client.perform Client.Prompt c ops →
      ∀ d, Fallible.run Client.perform c ops = .ok d → ∃ y, c.lifetime ops Heap.empty = .ok y) := by
  have htracks := h.tracks_lifetime ops Heap.empty rfl
  have hreached : ∀ d, Fallible.run Client.perform c ops = .ok d →
      ((∃ y, c.lifetime ops Heap.empty = .ok y) ↔ d.Tended) := by
    intro d hrun
    rw [← Client.deinit_ok_iff (Client.sound_of_run h hrun) (h.initialized_or_vacant hrun)]
    obtain ⟨a, heap, hplain, hok, -⟩ | ⟨e, hplain, herror⟩ := htracks
    · rw [hrun] at hplain
      exact iff_of_true ⟨_, hok⟩ ⟨a, hplain⟩
    · rw [hrun] at hplain
      refine iff_of_false ?_ ?_
      · rintro ⟨y, hy⟩
        rw [herror] at hy
        cases hy
      · rintro ⟨d', hd'⟩
        have hdeinit : d.deinit = .error e := hplain
        rw [hdeinit] at hd'
        cases hd'
  refine ⟨fun u hfault => ?_, fun d heap hok x => ?_, hreached, fun hprompt d hrun => ?_⟩
  · obtain ⟨a, heap, -, hok, -⟩ | ⟨e, -, herror⟩ := htracks
    · rw [hok] at hfault
      cases hfault
    · rw [herror] at hfault
      cases hfault
  · have hdead : heap.live x = false := by
      obtain ⟨a, heap', -, hok', hall⟩ | ⟨e, -, herror⟩ := htracks
      · rw [hok'] at hok
        cases hok
        refine Bool.eq_false_iff.mpr fun hlive => ?_
        cases x with
        | range r => exact (hall.ranges r).mp hlive
        | interval a => exact (hall.intervals a).mp hlive
      · rw [herror] at hok
        cases hok
    refine ⟨hdead, ?_, fun later past huses hnew => ?_⟩
    · have hcount := replay_count heap.replayed x
      rw [hdead] at hcount
      exact hcount
    · have hreplayed := heap.replayed
      rw [huses] at hreplayed
      obtain ⟨htouch, hfree, -⟩ := replay_after_free hreplayed hnew
      exact ⟨htouch, hfree⟩
  · exact (hreached d hrun).mpr (h.tended hprompt hrun)

theorem lifetime_exact_released : ∃ y, (luckyClient 1000).lifetime (halfReserved ++ [.release 5 1])
      Heap.empty = .ok y ∧ y.2.uses.count (.alloc (.range 0)) = 1 ∧
      y.2.uses.count (.free (.range 0)) = 1 := by
  obtain ⟨⟨d, heap⟩, hok, hcount⟩ := exists_of_okAnd (x := (luckyClient 1000).lifetime
    (halfReserved ++ [.release 5 1]) Heap.empty)
    (p := fun y => y.2.uses.count (.alloc (.range 0)) = 1) (by decide +kernel)
  simp only [decide_eq_true_eq] at hcount
  have hinit : (luckyClient 1000).Initial := ⟨rfl, rfl, rfl, rfl, rfl⟩
  obtain ⟨-, hfreed, -⟩ := Client.lifetime_exact hinit (halfReserved ++ [.release 5 1])
  refine ⟨(d, heap), hok, hcount, ?_⟩
  rw [← (hfreed d heap hok (.range 0)).2.1]
  exact hcount

/-- The thousandth draw leaves an interval without a range, at which `maap_deinit_client` ends the
process with a range and an interval still allocated. -/
theorem lastDraw_leaks : ∃ y, (luckyClient 1000).watchedRun (halfReserved ++ [.reserve 6 0 1 false])
      Heap.empty = .ok y ∧ y.2.live (.range 0) = true ∧ y.2.live (.interval 1) = true ∧
      (luckyClient 1000).lifetime (halfReserved ++ [.reserve 6 0 1 false]) Heap.empty =
        .error (.abort .orphanNode) := by
  have hinit : (luckyClient 1000).Initial := ⟨rfl, rfl, rfl, rfl, rfl⟩
  obtain ⟨d, hrun, hd⟩ := exists_of_okAnd (x := Fallible.run Client.perform (luckyClient 1000)
    (halfReserved ++ [.reserve 6 0 1 false])) (p := fun d => d.queue = [0] ∧
      d.ranges.nodes = [⟨0, 0, 0, some 0⟩, ⟨1, 1, 1, none⟩] ∧ failsWith d.deinit .orphanNode)
    (by decide +kernel)
  simp only [decide_eq_true_eq] at hd
  obtain ⟨hqueue, hnodes, hfails⟩ := hd
  have hdeinit : d.deinit = .error .orphanNode := eq_error_of_failsWith hfails
  obtain ⟨d', heap, hrun', hwatched, hm⟩ | ⟨e, herror, -⟩ :=
    hinit.tracks_run (halfReserved ++ [.reserve 6 0 1 false]) Heap.empty rfl
  · rw [hrun] at hrun'
    cases hrun'
    refine ⟨(d, heap), hwatched, (hm.ranges 0).mpr ?_, (hm.intervals 1).mpr ?_, ?_⟩
    · have hmem : 0 ∈ d.queue := by simp [hqueue]
      exact hmem
    · rw [Tree.addrs_eq, hnodes]
      simp
    · obtain ⟨a, heap', hplain, -⟩ | ⟨e, hplain, herror⟩ :=
        hinit.tracks_lifetime (halfReserved ++ [.reserve 6 0 1 false]) Heap.empty rfl
      · rw [hrun] at hplain
        have hok : d.deinit = .ok a := hplain
        rw [hdeinit] at hok
        cases hok
      · rw [hrun] at hplain
        have hend : d.deinit = .error e := hplain
        rw [hdeinit] at hend
        cases hend
        exact herror
  · rw [hrun] at herror
    cases herror

end Avb4Linux.Maap
