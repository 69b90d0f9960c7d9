import Avb4Linux.Maap.Pool
import Avb4Linux.Maap.Senders

/-!
# Reservations that fail

What `assign_interval` and `maap_reserve_range` leave behind when they fail, and when
they return at all.
-/

namespace Avb4Linux.Maap

open Lib Lib.Fallible List

variable {σ : Type} {c c' : Client σ} {r attemptBase len : Nat}

theorem Client.drawInterval_misses {n left : Nat}
    (h : c.drawInterval len n = .ok (c', none, left)) :
    ∀ i < n, c.ranges.insert (allocInterval c.nextInterval (c.draw len i) len) = none := by
  induction n generalizing c with
  | zero =>
    intro i hi
    omega
  | succ n ih =>
    obtain ⟨⟨c₁, found⟩, honce, h⟩ := bind_eq_ok.mp h
    cases found with
    | some iv => cases h
    | none =>
      obtain ⟨-, rfl, hmiss⟩ := drawOnce_none honce
      intro i hi
      cases i with
      | zero => exact hmiss
      | succ i => exact ih h i (by omega)

theorem Client.assignInterval_late {found : Bool} (hlen : len ≤ c.rangeLen.toNat)
    (hlate : c.Late attemptBase len) (h : c.assignInterval r attemptBase len = .ok (c', found)) :
    found = false ∧ ∃ iv t, c.ranges.insert iv = some t ∧ c' = c.inserted t 1000 := by
  unfold assignInterval at h
  rw [if_neg (Nat.not_lt.mpr hlen)] at h
  obtain ⟨⟨c₁, first⟩, hfirst, hrest⟩ := bind_eq_ok.mp h
  cases first with
  | some iv =>
    unfold attemptInterval at hfirst
    split at hfirst
    · rename_i hattempts
      obtain ⟨rfl, -, t, hins, -⟩ := tryInterval_some hfirst
      rw [hlate.attempt hattempts] at hins
      cases hins
    · cases hfirst
  | none =>
    obtain ⟨rfl, -⟩ := attemptInterval_none hfirst
    obtain ⟨⟨c₂, second, left⟩, hdraw, hlast⟩ := bind_eq_ok.mp hrest
    cases second with
    | none => exact absurd (drawInterval_misses hdraw 999 (by omega)) hlate.fits
    | some iv =>
      obtain ⟨k, hk, -, -, rfl, -, t, hins, rfl⟩ := drawInterval_some hdraw
      -- the draws before the last one miss, so that this is the last one
      have hlast_k : k = 999 := by
        grind [Late.misses]
      subst hlast_k
      obtain rfl : left = 0 := by omega
      cases hlast
      exact ⟨rfl, _, t, hins, rfl⟩

theorem Client.tryInterval_ok {start : Nat}
    (h : (allocInterval c.nextInterval start len).high ≤ rangeMax c.rangeLen) :
    ∃ x, c.tryInterval start len = .ok x := by
  unfold tryInterval
  dsimp only
  rw [if_pos h]
  split
  · exact ⟨_, rfl⟩
  · exact ⟨_, rfl⟩

theorem high_le_rangeMax {rangeLen : UInt32} {addr start : Nat} (hlen : 1 ≤ len)
    (h : start + len ≤ rangeLen.toNat) :
    (allocInterval addr start len).high ≤ rangeMax rangeLen := by
  have hlt := rangeLen.toNat_lt
  unfold allocInterval intervalEnd rangeMax
  dsimp only
  omega

theorem Client.drawInterval_ok (hlen : 1 ≤ len) (hfits : len ≤ c.rangeLen.toNat) (n : Nat) :
    ∃ x, c.drawInterval len n = .ok x := by
  induction n generalizing c with
  | zero => exact ⟨_, rfl⟩
  | succ n ih =>
    have hmod : modulus c.rangeLen len ≠ 0 := by
      have hlt := c.rangeLen.toNat_lt
      unfold modulus
      omega
    have honce : ∃ x, c.drawOnce len = .ok x := by
      unfold drawOnce
      rw [if_neg hmod]
      exact tryInterval_ok (high_le_rangeMax hlen (draw_le hfits hmod 0))
    obtain ⟨⟨c₁, found⟩, hx⟩ := honce
    rw [drawInterval]
    simp only [bind_of_ok hx]
    cases found with
    | some iv => exact ⟨_, rfl⟩
    | none =>
      obtain ⟨-, rfl, -⟩ := drawOnce_none hx
      exact ih (c := c.drawn 1) hfits

theorem Client.assignInterval_ok (hlen : 1 ≤ len) (ha : attemptBase < 2 ^ 64)
    (hwrap : attemptBase + len ≤ 2 ^ 64 ∨ 2 ^ 64 < c.addressBase.toNat + c.rangeLen.toNat) :
    ∃ x, c.assignInterval r attemptBase len = .ok x := by
  unfold assignInterval
  split
  · exact ⟨_, rfl⟩
  · rename_i hfits
    have hfits' := Nat.not_lt.mp hfits
    have hattempt : ∃ x, c.attemptInterval attemptBase len = .ok x := by
      unfold attemptInterval
      split
      · rename_i hattempts
        refine tryInterval_ok (high_le_rangeMax hlen ?_)
        have hbase := c.addressBase.toNat_lt
        have hpool := c.rangeLen.toNat_lt
        unfold attempts at hattempts
        unfold placeOf
        grind
      · exact ⟨_, rfl⟩
    obtain ⟨⟨c₁, first⟩, hx⟩ := hattempt
    simp only [bind_of_ok hx]
    cases first with
    | some iv => exact ⟨_, rfl⟩
    | none =>
      obtain ⟨rfl, -⟩ := attemptInterval_none hx
      obtain ⟨⟨c₂, second, left⟩, hy⟩ := drawInterval_ok hlen hfits' 1000
      simp only [bind_of_ok hy]
      cases second with
      | none => exact ⟨_, rfl⟩
      | some iv =>
        dsimp only
        split
        · exact ⟨_, rfl⟩
        · exact ⟨_, rfl⟩

theorem fixIntervals_ok {old : Option Nat} {l : List Node}
    (h : ∀ n ∈ l, ∃ a, n.data = some a ∧ old ≠ some a) (mem : Nat → Range σ) :
    ∃ mem', fixIntervals old l mem = .ok mem' := by
  induction l generalizing mem with
  | nil => exact ⟨mem, rfl⟩
  | cons n l ih =>
    obtain ⟨a, hdata, hne⟩ := h n mem_cons_self
    rw [fixIntervals, hdata]
    simp_all

theorem Client.removeRangeInterval_ok (h : c.Linked) {n : Node} (hn : n ∈ c.ranges.nodes)
    (howned : unowned c.slots = if n.data.isNone then 1 else 0) :
    ∃ c', c.removeRangeInterval n.addr = .ok c' := by
  obtain ⟨pre, post, hsplit⟩ := append_of_mem hn
  obtain ⟨post', hremove, hmoved⟩ := Tree.remove_split h.addrs hsplit
  have hslots : c.slots = pre.map Node.slot ++ n.slot :: post.map Node.slot := by
    rw [Client.slots, hsplit, map_append, map_cons]
  have hrest : unowned (pre.map Node.slot ++ post.map Node.slot) = 0 := by
    grind [unowned_split, Node.slot]
  have hothers : ∀ m ∈ (c.ranges.remove n.addr).nodes, ∃ a, m.data = some a ∧ n.data ≠ some a := by
    intro m hm
    have hslot : m.slot ∈ pre.map Node.slot ++ post.map Node.slot := by
      rw [← hmoved.slots_eq, ← map_append, ← hremove]
      exact mem_map_of_mem hm
    obtain ⟨a, ha⟩ := Option.ne_none_iff_exists'.mp (unowned_eq_zero.mp hrest m.slot hslot)
    refine ⟨a, ha, ?_⟩
    intro hdata
    rw [← map_append] at hslot
    obtain ⟨m', hm', heq⟩ := mem_map.mp hslot
    have hin : m' ∈ c.ranges.nodes := by
      grind
    -- the node that goes would be there twice
    obtain rfl := h.eq_of_owner hin hn ((congrArg Slot.owner heq).trans ha) hdata
    have hnodup := h.addrs.of_map
    grind
  have hback : (n.data.any fun r => decide ((c.mem r).interval ≠ some n.addr)) = false := by
    cases hdata : n.data with
    | none => rfl
    | some r => simp [(h.back n hn r hdata).1]
  obtain ⟨mem, hmem⟩ := fixIntervals_ok hothers c.mem
  unfold removeRangeInterval
  rw [h.find hn]
  dsimp only
  rw [hback]
  exact ⟨_, bind_eq_ok.mpr ⟨mem, hmem, rfl⟩⟩

structure Client.SamePool (c c' : Client σ) : Prop where
  nodes : c'.ranges.nodes = c.ranges.nodes
  queue : c'.queue = c.queue

theorem Client.not_samePool_inserted {iv : Node} {t : Tree} {k : Nat}
    (h : c.ranges.insert iv = some t) (hnodes : c'.ranges = (c.inserted t k).ranges) :
    ¬ c.SamePool c' := by
  intro hsame
  obtain ⟨a, b, hbefore, hafter⟩ := Tree.nodes_insert h
  have hlength := congrArg List.length hsame.nodes
  grind [Linked.inserted, inserted, Tree.nodes, SamePool.nodes]

theorem Client.samePool_of_assign_fails_iff
    (h : c.assignInterval r attemptBase len = .ok (c', false)) :
    c.SamePool c' ↔ ¬ (len ≤ c.rangeLen.toNat ∧ c.Late attemptBase len) := by
  constructor
  · grind [assignInterval_late, not_samePool_inserted]
  · intro hnot
    obtain ⟨hfound, -⟩ | ⟨-, k, rfl⟩ | ⟨-, hlate, -⟩ := assignInterval_cases h
    · cases hfound
    · exact ⟨rfl, rfl⟩
    · have hshort : c.rangeLen.toNat < len := by
        grind
      unfold assignInterval at h
      rw [if_pos hshort] at h
      cases h
      exact ⟨rfl, rfl⟩

/-- `maap_reserve_range` has returned -1: it tells the sender what is wrong. -/
def Client.Refused (c c' : Client σ) : Prop :=
  ∃ x, c'.notifies = c.notifies ++ [x] ∧ x.2.result ≠ .NONE

structure Client.Searches (c : Client σ) (length : UInt32) (oom : Bool) : Prop where
  initialized : c.initialized = true
  small : length.toNat ≤ 0xFFFF
  fits : length.toNat ≤ c.rangeLen.toNat
  memory : oom = false

def Client.prepared (c : Client σ) (sender : σ) : Client σ :=
  { c with maxid := c.maxid + 1 }.newRange (c.maxid + 1) sender

theorem Client.queue_prepared (h : c.Wired) (sender : σ) : (c.prepared sender).queue = c.queue := by
  have hnot : c.nextRange ∉ c.queue := fun hmem => Nat.lt_irrefl _ (h.queued.below _ hmem)
  refine queue_eq (c := c.prepared sender) (h.queued.chain.update_of_not_mem hnot) ?_
  intro a ha
  exact Nat.lt_succ_of_lt (h.queued.below a ha)

theorem Client.late_prepared (c : Client σ) (sender : σ) :
    (c.prepared sender).Late attemptBase len ↔ c.Late attemptBase len :=
  ⟨fun h => ⟨h.attempt, h.misses, h.fits⟩, fun h => ⟨h.attempt, h.misses, h.fits⟩⟩

theorem Client.reserve_cases {sender : σ} {base : UInt64} {length : UInt32} {oom : Bool}
    (hok : c.reserve sender base length oom = .ok c') :
    (¬ c.Searches length oom ∧ ∃ note, c' = c.addNotify sender note ∧ note.result ≠ .NONE) ∨
      ∃ c₁ found, c.Searches length oom ∧
        (c.prepared sender).assignInterval c.nextRange base.toNat length.toNat = .ok (c₁, found) ∧
        c' = if found then
            ((c₁.informAcquiring c.nextRange).scheduleTimer c.nextRange).startTimer.sendProbe
              c.nextRange
          else c₁.informNotAcquired sender (-1) length.toNat .RESERVE_NOT_AVAILABLE := by
  unfold reserve at hok
  split at hok
  · rename_i hinit
    cases hok
    refine .inl ⟨fun hs => ?_, _, rfl, by simp⟩
    rw [hs.initialized] at hinit
    cases hinit
  · rename_i hinit
    split at hok
    · rename_i hlong
      cases hok
      refine .inl ⟨fun hs => ?_, _, rfl, by simp⟩
      have hsmall := hs.small
      have hfits := hs.fits
      omega
    · rename_i hlong
      split at hok
      · rename_i hoom
        cases hok
        refine .inl ⟨fun hs => ?_, _, rfl, by simp⟩
        rw [hs.memory] at hoom
        cases hoom
      · rename_i hoom
        obtain ⟨⟨c₁, found⟩, hassign, hrest⟩ := bind_eq_ok.mp hok
        refine .inr ⟨c₁, found, ⟨by simpa using hinit, by omega, by omega, by simpa using hoom⟩,
          hassign, ?_⟩
        grind

theorem Client.notifies_reserved {c₁ : Client σ} {sender : σ}
    (hassign : (c.prepared sender).assignInterval r attemptBase len = .ok (c₁, true)) :
    (((c₁.informAcquiring r).scheduleTimer r).startTimer.sendProbe r).notifies =
      c.notifies ++ [((c₁.mem r).sender, c₁.noteAbout .ACQUIRING (c₁.mem r).id (some r) .NONE)] := by
  have hsent := ((silent_scheduleTimer (c₁.informAcquiring r) r).trans
    (silent_startTimer _)).notifies
  have hassigned : c₁.notifies = c.notifies := (silent_assignInterval hassign).notifies
  have hinform : (c₁.informAcquiring r).notifies = c₁.notifies ++
      [((c₁.mem r).sender, c₁.noteAbout .ACQUIRING (c₁.mem r).id (some r) .NONE)] := rfl
  rw [hinform, hassigned] at hsent
  exact hsent

theorem Client.samePool_of_refused_iff (h : c.Wired) {sender : σ} {base : UInt64}
    {length : UInt32} {oom : Bool} (hok : c.reserve sender base length oom = .ok c')
    (hrefused : c.Refused c') :
    c.SamePool c' ↔ ¬ (c.Searches length oom ∧ c.Late base.toNat length.toNat) := by
  obtain ⟨hnot, note, rfl, -⟩ | ⟨c₁, found, hsearch, hassign, rfl⟩ := reserve_cases hok
  · exact ⟨fun _ hs => hnot hs.1, fun _ => ⟨rfl, rfl⟩⟩
  · cases found with
    | true =>
      obtain ⟨x, hx, hresult⟩ := hrefused
      rw [if_pos rfl, notifies_reserved hassign] at hx
      have hsingle := append_cancel_left hx
      rw [← head_eq_of_cons_eq hsingle] at hresult
      exact absurd rfl hresult
    | false =>
      have hiff := samePool_of_assign_fails_iff hassign
      have hlate : (c.prepared sender).Late base.toNat length.toNat ↔
          c.Late base.toNat length.toNat := c.late_prepared sender
      have hqueue := queue_prepared h sender
      constructor
      · rintro hsame ⟨-, hbad⟩
        refine hiff.mp ⟨hsame.nodes, ?_⟩ ⟨hsearch.fits, hlate.mpr hbad⟩
        rw [hqueue]
        exact hsame.queue
      · intro hfine
        have hsame := hiff.mpr fun hbad => hfine ⟨hsearch, hlate.mp hbad.2⟩
        exact ⟨hsame.nodes, hsame.queue.trans hqueue⟩

/-- A failure of `assign_interval` or of `maap_reserve_range` leaves the tree and the timer
queue as they were exactly if the last of the thousand draws is not the first that fits. -/
theorem Client.failure_restores_iff (h : c.Sound) :
    (∀ r attemptBase len c', c.assignInterval r attemptBase len = .ok (c', false) →
      (c.SamePool c' ↔ ¬ (len ≤ c.rangeLen.toNat ∧ c.Late attemptBase len))) ∧
    ∀ sender base length oom c', c.reserve sender base length oom = .ok c' → c.Refused c' →
      (c.SamePool c' ↔ ¬ (c.Searches length oom ∧ c.Late base.toNat length.toNat)) :=
  ⟨fun _ _ _ _ hassign => Client.samePool_of_assign_fails_iff hassign,
    fun _ _ _ _ _ hok hrefused => Client.samePool_of_refused_iff h.toWired hok hrefused⟩

def luckyClient (turn : Nat) : Client Nat :=
  { quietClient 7 0 with rnd := fun n => if n = turn then 1 else 0 }

def halfReserved : List (Op Nat) :=
  [.init 5 0x91E0F0000000 2, .reserve 5 0x91E0F0000000 1 false]

theorem failure_restores_halfReserved : ∃ c c', Fallible.run Client.perform (luckyClient 1000)
      halfReserved = .ok c ∧ c.perform (.reserve 6 0 3 false) = .ok c' ∧ c.Refused c' ∧
      c.SamePool c' := by
  obtain ⟨c, hrun, hc⟩ := exists_of_okAnd (x := Fallible.run Client.perform (luckyClient 1000)
    halfReserved) (p := fun c => okAnd (c.perform (.reserve 6 0 3 false)) fun c' =>
      c.rangeLen = 2 ∧
      c'.notifies = c.notifies ++ [(6, ⟨.ACQUIRED, -1, 0, 3, .RESERVE_NOT_AVAILABLE⟩)])
    (by decide +kernel)
  obtain ⟨c', hstep, hc'⟩ := exists_of_okAnd hc
  simp only [decide_eq_true_eq] at hc'
  have hrefused : c.Refused c' := ⟨_, hc'.2, by simp⟩
  have hsound := Client.sound_of_run ⟨rfl, rfl, rfl, rfl, rfl⟩ hrun
  refine ⟨c, c', hrun, hstep, hrefused, ?_⟩
  refine ((Client.failure_restores_iff hsound).2 6 0 3 false c' hstep hrefused).mpr ?_
  rintro ⟨hsearch, -⟩
  have hfits := hsearch.fits
  rw [hc'.1] at hfits
  exact absurd hfits (by decide)

theorem lastDraw_orphan : ∃ c c', Fallible.run Client.perform (luckyClient 1000) halfReserved =
      .ok c ∧ c.perform (.reserve 6 0 1 false) = .ok c' ∧ c.Refused c' ∧
      c'.ranges.nodes = [⟨0, 0, 0, some 0⟩, ⟨1, 1, 1, none⟩] ∧ ¬ c.SamePool c' := by
  obtain ⟨c, hrun, hc⟩ := exists_of_okAnd (x := Fallible.run Client.perform (luckyClient 1000)
    halfReserved) (p := fun c => okAnd (c.perform (.reserve 6 0 1 false)) fun c' =>
      c.ranges.nodes = [⟨0, 0, 0, some 0⟩] ∧
      c'.ranges.nodes = [⟨0, 0, 0, some 0⟩, ⟨1, 1, 1, none⟩] ∧
      c'.notifies = c.notifies ++ [(6, ⟨.ACQUIRED, -1, 0, 1, .RESERVE_NOT_AVAILABLE⟩)])
    (by decide +kernel)
  obtain ⟨c', hstep, hc'⟩ := exists_of_okAnd hc
  simp only [decide_eq_true_eq] at hc'
  obtain ⟨hbefore, hafter, hnotes⟩ := hc'
  refine ⟨c, c', hrun, hstep, ⟨_, hnotes, by simp⟩, hafter, fun hsame => ?_⟩
  have hnodes := hsame.nodes
  rw [hbefore, hafter] at hnodes
  cases hnodes

end Avb4Linux.Maap
