import Avb4Linux.Maap.Pointers

/-!
# The client follows the ledger

Every operation of the client that comes to an end is a sequence of transitions of its
ledger and keeps the pointers right.
-/

namespace Avb4Linux.Maap

open Lib Lib.Fallible List Function

variable {σ : Type} {c c' : Client σ} {r : Nat}

def Range.core (x : Range σ) : Core σ :=
  ⟨x.id, x.state, x.counter, x.overlapping, x.sender⟩

def Client.ledger (c : Client σ) : Ledger σ where
  base := c.addressBase
  len := c.rangeLen
  srcMac := c.srcMac
  destMac := c.destMac
  slots := c.slots
  members := { r | r ∈ c.queue }
  core := fun r => (c.mem r).core
  log := c.log
  fresh := c.nextRange
  maxid := c.maxid

structure Client.Wired (c : Client σ) : Prop where
  queued : c.Queued
  linked : c.Linked

structure Client.Sound (c : Client σ) : Prop extends c.Wired where
  held : c.ledger.Held

theorem Client.Wired.congr (h : c.Wired) (hranges : c'.ranges = c.ranges)
    (hqueue : c'.timerQueue = c.timerQueue) (hnext : c'.nextTimer = c.nextTimer)
    (hrange : c'.nextRange = c.nextRange) (hinterval : c'.nextInterval = c.nextInterval)
    (hmem : ∀ r, (c'.mem r).interval = (c.mem r).interval ∧
      (c'.mem r).nextActTime = (c.mem r).nextActTime) : c'.Wired :=
  ⟨(h.queued.congr hqueue hnext hrange fun r => (hmem r).2).1,
    h.linked.congr hranges hinterval.ge hrange.ge fun r _ => (hmem r).1⟩

theorem Client.Wired.addNotify (h : c.Wired) (sender : σ) (note : Notify) :
    (c.addNotify sender note).Wired :=
  h.congr rfl rfl rfl rfl rfl fun _ => ⟨rfl, rfl⟩

theorem Client.Wired.sendPacket (h : c.Wired) (p : Packet) : (c.sendPacket p).Wired :=
  h.congr rfl rfl rfl rfl rfl fun _ => ⟨rfl, rfl⟩

theorem Client.Wired.drawn (h : c.Wired) (k : Nat) : (c.drawn k).Wired :=
  h.congr rfl rfl rfl rfl rfl fun _ => ⟨rfl, rfl⟩

theorem Client.Wired.startTimer (h : c.Wired) : c.startTimer.Wired := by
  unfold Client.startTimer
  split
  · exact h
  · split
    · exact h.congr rfl rfl rfl rfl rfl fun _ => ⟨rfl, rfl⟩
    · exact h

theorem Client.Wired.setRange (h : c.Wired) {f : Range σ → Range σ}
    (hf : ∀ x, (f x).interval = x.interval ∧ (f x).nextActTime = x.nextActTime) :
    (c.setRange r f).Wired := by
  refine h.congr rfl rfl rfl rfl rfl fun a => ?_
  by_cases ha : a = r
  · subst ha
    dsimp only [Client.setRange]
    rw [update_self]
    exact hf _
  · dsimp only [Client.setRange]
    rw [update_of_ne ha]
    exact ⟨rfl, rfl⟩

theorem Client.ledger_startTimer (c : Client σ) : c.startTimer.ledger = c.ledger := by
  unfold Client.startTimer
  split
  · rfl
  · split
    · rfl
    · rfl

theorem Client.ledger_setRange {f : Range σ → Range σ} {g : Core σ → Core σ}
    (hfg : ∀ x, (f x).core = g x.core) : (c.setRange r f).ledger = c.ledger.setCore r g := by
  have hcore : (fun a => ((c.setRange r f).mem a).core) =
      Function.update (fun a => (c.mem a).core) r (g (c.mem r).core) := by
    funext a
    by_cases ha : a = r
    · subst ha
      dsimp only [Client.setRange]
      rw [update_self, update_self, hfg]
    · dsimp only [Client.setRange]
      rw [update_of_ne ha, update_of_ne ha]
  rw [Client.ledger, hcore]
  rfl

theorem Client.Linked.node_slot (h : c.Linked) {low high : Nat}
    (hs : ⟨low, high, some r⟩ ∈ c.slots) : (c.node r).low = low ∧ (c.node r).high = high := by
  obtain ⟨n, hn, heq⟩ := mem_slots.mp hs
  cases n
  cases heq
  rw [h.node_eq hn rfl]
  exact ⟨rfl, rfl⟩

theorem Client.ledger_sendProbe (h : c.Linked) {low high : Nat}
    (hs : ⟨low, high, some r⟩ ∈ c.slots) :
    (c.sendProbe r).ledger =
      { c.ledger with log := c.ledger.log ++ [.queued (c.ledger.probe low high)] } := by
  obtain ⟨hlow, hhigh⟩ := h.node_slot hs
  rw [← hlow, ← hhigh]
  rfl

theorem Client.scheduleTimer_spec (h : c.Wired) (hr : r < c.nextRange) :
    (c.scheduleTimer r).Wired ∧
      (c.scheduleTimer r).ledger =
        { c.ledger with members := insert r c.ledger.members } := by
  obtain ⟨t, rnd, clock, heq⟩ := c.scheduleTimer_eq r
  have hmem : ∀ a, a ≠ r → (c.setRange r fun x => { x with nextActTime := t }).mem a = c.mem a :=
    fun a ha => update_of_ne ha ..
  have hsorted : (c.queue.erase r).Pairwise fun a b =>
      ((c.setRange r fun x => { x with nextActTime := t }).mem a).nextActTime.le
        ((c.setRange r fun x => { x with nextActTime := t }).mem b).nextActTime = true := by
    refine (h.queued.sorted.sublist erase_sublist).imp_of_mem fun {a b} ha hb hab => ?_
    have hgone := h.queued.chain.nodup.not_mem_erase (a := r)
    grind
  obtain ⟨hq, hqmem⟩ := requeue_spec (c := { c.setRange r
    (fun x => { x with nextActTime := t }) with rnd := rnd, clock := clock })
    h.queued.chain h.queued.below hr hsorted
  have hcore : ∀ a, ((c.setRange r fun x => { x with nextActTime := t }).mem a).core =
      (c.mem a).core ∧ ((c.setRange r fun x => { x with nextActTime := t }).mem a).interval =
        (c.mem a).interval := by
    intro a
    by_cases ha : a = r
    · subst ha
      dsimp only [Client.setRange]
      rw [update_self]
      exact ⟨rfl, rfl⟩
    · rw [hmem a ha]
      exact ⟨rfl, rfl⟩
  rw [heq]
  refine ⟨⟨hq, ?_⟩, ?_⟩
  · exact h.linked.congr rfl (Nat.le_refl _) (Nat.le_refl _) fun a _ => (hcore a).2
  · exact Ledger.ext rfl rfl rfl rfl rfl (Set.ext hqmem) (funext fun a => (hcore a).1) rfl rfl rfl

theorem Client.scheduleTimer_ranges (c : Client σ) (r : Nat) :
    (c.scheduleTimer r).ranges = c.ranges := by
  obtain ⟨t, rnd, clock, heq⟩ := c.scheduleTimer_eq r
  rw [heq]
  rfl

theorem Client.newRange_spec (h : c.Wired) (id : UInt32) (sender : σ) :
    (c.newRange id sender).Wired ∧
      (c.newRange id sender).ledger = { c.ledger with
        core := Function.update c.ledger.core c.nextRange (Core.fresh id sender)
        fresh := c.nextRange + 1 } := by
  have hqueue : c.nextRange ∉ c.queue := fun hmem => Nat.lt_irrefl _ (h.queued.below _ hmem)
  have hmem : ∀ a, a ≠ c.nextRange → (c.newRange id sender).mem a = c.mem a := fun a ha =>
    update_of_ne ha ..
  have hchain : LinkedQueue.Chain (c.newRange id sender).nextTimer c.timerQueue c.queue :=
    h.queued.chain.update_of_not_mem hqueue
  have hsorted : c.queue.Pairwise fun a b => ((c.newRange id sender).mem a).nextActTime.le
      ((c.newRange id sender).mem b).nextActTime = true := by
    refine h.queued.sorted.imp_of_mem fun {a b} ha hb hab => ?_
    grind
  obtain ⟨hq, hqeq⟩ := Client.Queued.of_chain (c := c.newRange id sender) hchain
    (fun a ha => Nat.lt_succ_of_lt (h.queued.below a ha)) hsorted
  refine ⟨⟨hq, ?_⟩, ?_⟩
  · refine h.linked.congr rfl (Nat.le_refl _) (Nat.le_succ _) fun a ha => ?_
    rw [hmem a (Nat.ne_of_lt ha)]
  · have hmembers : { a | a ∈ (c.newRange id sender).queue } = { a | a ∈ c.queue } := by rw [hqeq]
    refine Ledger.ext rfl rfl rfl rfl rfl hmembers (funext fun a => ?_) rfl rfl rfl
    by_cases ha : a = c.nextRange
    · subst ha
      dsimp only [Client.ledger, Client.newRange]
      rw [update_self, update_self]
      rfl
    · grind [ledger]

theorem Client.assignInterval_spec (h : c.Wired) {attemptBase len : Nat} {found : Bool}
    (hr : r ∉ owners c.slots) (hlt : r < c.nextRange)
    (hok : c.assignInterval r attemptBase len = .ok (c', found)) : c'.Wired ∧
    ((found = true ∧ ∃ low high, Placement c.addressBase c.rangeLen attemptBase len low high ∧
        Inserted ⟨low, high, some r⟩ c.slots c'.slots ∧
        (∀ n ∈ c.ranges.nodes, n ∈ c'.ranges.nodes) ∧
        c'.ledger = { c.ledger with
          slots := c'.slots, log := c.ledger.log ++ [.assigned r low high] }) ∨
      (found = false ∧ c'.ledger = c.ledger ∧ c'.ranges = c.ranges) ∨
      (found = false ∧ c.Late attemptBase len ∧ ∃ low high,
        Inserted ⟨low, high, none⟩ c.slots c'.slots ∧
        (∀ n ∈ c.ranges.nodes, n ∈ c'.ranges.nodes) ∧
        c'.ledger = { c.ledger with slots := c'.slots })) := by
  rcases assignInterval_cases hok with ⟨rfl, iv, t, k, hiv, hins, rfl⟩ | ⟨rfl, k, rfl⟩ |
    ⟨rfl, hlate, iv, t, hiv, hins, rfl⟩
  · obtain ⟨hlinked, hslots, hnodes⟩ := h.linked.placed hiv hins k hr hlt
    have hcore : ∀ a, (((c.inserted t k).attach r iv).mem a).core = (c.mem a).core ∧
        (((c.inserted t k).attach r iv).mem a).nextActTime = (c.mem a).nextActTime := by
      intro a
      by_cases ha : a = r
      · subst ha
        dsimp only [Client.attach, Client.setRange]
        rw [update_self]
        exact ⟨rfl, rfl⟩
      · dsimp only [Client.attach, Client.setRange]
        rw [update_of_ne ha]
        exact ⟨rfl, rfl⟩
    obtain ⟨hqueued, hqueue⟩ := h.queued.congr (d := (c.inserted t k).attach r iv) rfl rfl rfl
      fun a => (hcore a).2
    have hmembers : { a | a ∈ ((c.inserted t k).attach r iv).queue } = { a | a ∈ c.queue } := by
      rw [hqueue]
    refine ⟨⟨hqueued, hlinked⟩, Or.inl ⟨rfl, iv.low, iv.high, hiv.placement, hslots, hnodes, ?_⟩⟩
    exact Ledger.ext rfl rfl rfl rfl rfl hmembers (funext fun a => (hcore a).1) rfl rfl rfl
  · exact ⟨h.drawn k, Or.inr (Or.inl ⟨rfl, rfl, rfl⟩)⟩
  · obtain ⟨hqueued, -⟩ := h.queued.congr (d := c.inserted t 1000) rfl rfl rfl fun _ => rfl
    have hslots := slots_inserted hiv hins 1000
    refine ⟨⟨hqueued, h.linked.inserted hiv hins 1000⟩,
      Or.inr (Or.inr ⟨rfl, hlate, iv.low, iv.high, hslots, fun n hn => ?_, rfl⟩)⟩
    obtain ⟨a, b, hab, hab', -⟩ := Tree.insert_spec hins
    have hn' : n ∈ t.nodes := by
      grind
    exact hn'

theorem Client.removeRangeInterval_spec (h : c.Wired) {pre post : List Node} {n : Node}
    (hsplit : c.ranges.nodes = pre ++ n :: post) (hok : c.removeRangeInterval n.addr = .ok c') :
    c'.Wired ∧ (∀ s ∈ c'.slots, s.owner ≠ none) ∧
      c'.ledger = { c.ledger with slots := pre.map Node.slot ++ post.map Node.slot } := by
  obtain ⟨hlinked, hslots, howned, mem, hc', hkeep⟩ := h.linked.remove hsplit hok
  have hmem : ∀ a, (c'.mem a).core = (c.mem a).core ∧
      (c'.mem a).nextActTime = (c.mem a).nextActTime := by
    intro a
    obtain ⟨i, hi⟩ := hkeep a
    rw [hc']
    dsimp only
    rw [hi]
    exact ⟨rfl, rfl⟩
  obtain ⟨hqueued, hqueue⟩ := h.queued.congr (d := c') (by rw [hc']) (by rw [hc']) (by rw [hc'])
    fun a => (hmem a).2
  have hmembers : { a | a ∈ c'.queue } = { a | a ∈ c.queue } := by rw [hqueue]
  refine ⟨⟨hqueued, hlinked⟩, howned, ?_⟩
  exact Ledger.ext (by rw [hc']; rfl) (by rw [hc']; rfl) (by rw [hc']; rfl) (by rw [hc']; rfl) hslots
    hmembers (funext fun a => (hmem a).1) (by rw [hc']; rfl) (by rw [hc']; rfl) (by rw [hc']; rfl)

theorem Client.dropRange_spec (h : c.Wired) {pre post : List Node} {n : Node}
    (hsplit : c.ranges.nodes = pre ++ n :: post) (hok : c.dropRange n.addr r = .ok c') :
    c'.Wired ∧ (∀ s ∈ c'.slots, s.owner ≠ none) ∧
      c'.ledger = { c.ledger with
        slots := pre.map Node.slot ++ post.map Node.slot }.setCore r
          fun x => { x with state := .RELEASED } := by
  obtain ⟨c₁, hremove, hc'⟩ := bind_eq_ok.mp hok
  cases hc'
  obtain ⟨hwired, howned, hledger⟩ := removeRangeInterval_spec h hsplit hremove
  refine ⟨hwired.setRange fun x => ⟨rfl, rfl⟩, howned, ?_⟩
  rw [← hledger]
  exact ledger_setRange fun x => rfl

theorem Client.launch_spec (h : c.Wired) (hr : r < c.nextRange) {low high : Nat}
    (hs : ⟨low, high, some r⟩ ∈ c.slots) {d : Client σ} (hd : d.Wired)
    (heq : d.ledger = (c.scheduleTimer r).ledger) :
    (d.sendProbe r).ledger = { c.ledger with
      members := insert r c.ledger.members
      log := c.ledger.log ++ [.queued (c.ledger.probe low high)] } := by
  have hledger := heq.trans (scheduleTimer_spec h hr).2
  have hin : ⟨low, high, some r⟩ ∈ d.ledger.slots := by
    rw [hledger]
    exact hs
  rw [ledger_sendProbe hd.linked hin, hledger]
  rfl

theorem Client.reserve_spec (h : c.Sound) {sender : σ} {attemptBase : UInt64} {length : UInt32}
    {oom : Bool} (hok : c.reserve sender attemptBase length oom = .ok c') :
    c'.Sound ∧ (c.initialized = false ∧ c'.ledger = c.ledger ∨ c.initialized = true ∧
      Reserve sender attemptBase.toNat length.toNat (c.Late attemptBase.toNat length.toNat)
        c.ledger c'.ledger) := by
  unfold Client.reserve at hok
  split at hok
  · rename_i hinit
    cases hok
    exact ⟨⟨h.toWired.addNotify _ _, h.held⟩, Or.inl ⟨by simpa using hinit, rfl⟩⟩
  rename_i hinit
  have hinitialized : c.initialized = true := by simpa using hinit
  split at hok
  · cases hok
    exact ⟨⟨h.toWired.addNotify _ _, h.held⟩, Or.inr ⟨hinitialized, .refused⟩⟩
  rename_i hlen
  split at hok
  · cases hok
    exact ⟨⟨h.toWired.addNotify _ _, h.held⟩, Or.inr ⟨hinitialized, .refused⟩⟩
  obtain ⟨⟨c₁, found⟩, hassign, hrest⟩ := bind_eq_ok.mp hok
  have hbumped : Client.Wired { c with maxid := c.maxid + 1 } :=
    h.toWired.congr rfl rfl rfl rfl rfl fun _ => ⟨rfl, rfl⟩
  obtain ⟨hnew, hnewLedger⟩ := newRange_spec hbumped (c.maxid + 1) sender
  have hfree : c.nextRange ∉ owners c.slots := fun hmem =>
    h.held.not_mem_fresh ((h.held.owned _).mp hmem).1
  obtain ⟨hw₁, hcases⟩ := assignInterval_spec hnew hfree (Nat.lt_succ_self _) hassign
  have hres : Reserve sender attemptBase.toNat length.toNat
      (c.Late attemptBase.toNat length.toNat) c.ledger c'.ledger ∧ c'.Wired := by
    rcases hcases with ⟨rfl, low, high, hplace, hins, -, hledger⟩ | ⟨rfl, hledger, -⟩ |
      ⟨rfl, hlate, low, high, hins, -, hledger⟩
    · cases hrest
      have hin : ⟨low, high, some c.nextRange⟩ ∈ c₁.slots := hins.mem_iff.mpr (Or.inl rfl)
      have hfresh : c₁.ledger.fresh = c.nextRange + 1 := by rw [hledger, hnewLedger]
      have hlt : c.nextRange < c₁.nextRange := Nat.lt_of_lt_of_eq (Nat.lt_succ_self _) hfresh.symm
      have hinformed : (c₁.informAcquiring c.nextRange).Wired := hw₁.addNotify _ _
      have htimer := (scheduleTimer_spec hinformed hlt).1.startTimer
      refine ⟨?_, htimer.sendPacket _⟩
      rw [launch_spec hinformed hlt hin htimer (ledger_startTimer _)]
      have hledger' : (c₁.informAcquiring c.nextRange).ledger = _ := hledger
      rw [hledger', hnewLedger]
      dsimp only
      rw [append_assoc]
      exact .placed (Nat.not_lt.mp (not_or.mp hlen).1) (Nat.not_lt.mp (not_or.mp hlen).2) hins hplace
    · cases hrest
      refine ⟨?_, hw₁.addNotify _ _⟩
      have hfinal : (c₁.informNotAcquired sender (-1) length.toNat .RESERVE_NOT_AVAILABLE).ledger =
          _ := hledger.trans hnewLedger
      rw [hfinal]
      exact .failed _
    · cases hrest
      refine ⟨?_, hw₁.addNotify _ _⟩
      have hfinal : (c₁.informNotAcquired sender (-1) length.toNat .RESERVE_NOT_AVAILABLE).ledger =
          _ := hledger
      rw [hnewLedger] at hfinal
      rw [hfinal]
      exact .orphan _ ⟨hlate.attempt, hlate.misses, hlate.fits⟩ hins
  exact ⟨⟨hres.2, hres.1.held h.held⟩, Or.inr ⟨hinitialized, hres.1⟩⟩

theorem Client.dropRange_drop (h : c.Wired) {n : Node} (hn : n ∈ c.ranges.nodes)
    (hdata : n.data = some r) (hok : c.dropRange n.addr r = .ok c') :
    c'.Wired ∧ Drop r c.ledger c'.ledger := by
  obtain ⟨pre, post, hsplit⟩ := append_of_mem hn
  obtain ⟨hwired, -, hledger⟩ := dropRange_spec h hsplit hok
  refine ⟨hwired, ?_⟩
  have hslot : n.slot = ⟨n.low, n.high, some r⟩ := by rw [Node.slot, hdata]
  have hremoved : Removed ⟨n.low, n.high, some r⟩ c.ledger.slots
      (pre.map Node.slot ++ post.map Node.slot) := by
    refine ⟨pre.map Node.slot, post.map Node.slot, ?_, rfl⟩
    rw [← hslot, ← map_cons, ← map_append, ← hsplit]
    rfl
  rw [hledger]
  exact .mk hremoved

theorem Client.Sound.node_of_owner (h : c.Sound) (hr : r ∈ owners c.slots) :
    ∃ n ∈ c.ranges.nodes, n.data = some r ∧ (c.mem r).interval = some n.addr := by
  obtain ⟨s, hs, howner⟩ := mem_owners.mp hr
  obtain ⟨n, hn, rfl⟩ := mem_slots.mp hs
  exact ⟨n, hn, howner, (h.linked.back n hn r howner).1⟩

theorem Client.informBoth_spec [BEq σ] (h : c.Wired) (sender : σ) (id : UInt32) :
    (c.informBoth sender id r).Wired ∧ (c.informBoth sender id r).ledger = c.ledger ∧
      (c.informBoth sender id r).ranges = c.ranges := by
  unfold Client.informBoth
  dsimp only
  split
  · exact ⟨(h.addNotify _ _).addNotify _ _, rfl, rfl⟩
  · exact ⟨h.addNotify _ _, rfl, rfl⟩

theorem Client.release_spec [BEq σ] (h : c.Sound) {sender : σ} {id : UInt32}
    (hok : c.release sender id = .ok c') :
    c'.Sound ∧ (c'.ledger = c.ledger ∨ ∃ r, Drop r c.ledger c'.ledger) := by
  unfold Client.release at hok
  split at hok
  · cases hok
    exact ⟨⟨h.toWired.addNotify _ _, h.held⟩, Or.inl rfl⟩
  · cases hfind : c.queue.find? fun r => (c.mem r).id = id && (c.mem r).state ≠ .RELEASED with
    | none =>
      rw [hfind] at hok
      cases hok
      exact ⟨⟨h.toWired.addNotify _ _, h.held⟩, Or.inl rfl⟩
    | some r =>
      have hmem : r ∈ c.queue := mem_of_find?_eq_some hfind
      have hstate : (c.mem r).state ≠ .RELEASED := by
        grind
      obtain ⟨n, hn, hdata, hinterval⟩ := h.node_of_owner ((h.held.owned r).mpr ⟨hmem, hstate⟩)
      rw [hfind] at hok
      dsimp only at hok
      rw [hinterval] at hok
      obtain ⟨hw, hledger, hranges⟩ := informBoth_spec (r := r) h.toWired sender id
      obtain ⟨hw', hdrop⟩ := dropRange_drop hw (hranges ▸ hn) hdata hok
      rw [hledger] at hdrop
      exact ⟨⟨hw', hdrop.held h.held⟩, Or.inr ⟨r, hdrop⟩⟩

theorem Client.Sound.disowned (h : c.Sound) {n : Node} (hn : n ∈ c.ranges.nodes)
    (hdata : n.data = some r) :
    (c.disown n.addr).Wired ∧ Handed n.slot none c.slots (c.disown n.addr).slots ∧
      r ∉ owners (c.disown n.addr).slots ∧
      { n with data := none } ∈ (c.disown n.addr).ranges.nodes := by
  obtain ⟨pre, post, hsplit⟩ := append_of_mem hn
  obtain ⟨hlinked, hnodes⟩ := h.linked.disown hsplit
  have hhanded : Handed n.slot none c.slots (c.disown n.addr).slots := by
    refine ⟨pre.map Node.slot, post.map Node.slot, ?_, ?_⟩
    · rw [Client.slots, hsplit, map_append, map_cons]
    · rw [Client.slots, hnodes, map_append, map_cons]
      rfl
  refine ⟨⟨(h.queued.congr (d := c.disown n.addr) rfl rfl rfl fun _ => rfl).1, hlinked⟩, hhanded,
    ?_, by simp [hnodes]⟩
  have hperm := hhanded.owners_perm (r := r) hdata
  exact (nodup_cons.mp (hperm.nodup_iff.mp h.held.nodup)).1

theorem Client.relocate_spec (h : c.Sound) {n : Node} (hn : n ∈ c.ranges.nodes)
    (hdata : n.data = some r) (hstate : (c.mem r).state = .PROBING)
    (hok : c.relocate n r = .ok c') :
    c'.Wired ∧ (Move r c.ledger c'.ledger ∨ Drop r c.ledger c'.ledger ∧
      ∃ c₁, (c.disown n.addr).assignInterval r 0 (n.count % 2 ^ 16) = .ok (c₁, false)) := by
  obtain ⟨pre, post, hsplit⟩ := append_of_mem hn
  have hslot : n.slot = ⟨n.low, n.high, some r⟩ := by rw [Node.slot, hdata]
  have hnodes := (h.linked.disown hsplit).2
  obtain ⟨hwired, hhanded, hfree, hn'⟩ := h.disowned hn hdata
  have hlt : r < c.nextRange := (h.linked.back n hn r hdata).2
  obtain ⟨⟨c₁, found⟩, hassign, hrest⟩ := bind_eq_ok.mp hok
  obtain ⟨hw₁, hcases⟩ := assignInterval_spec hwired hfree hlt hassign
  rcases hcases with ⟨rfl, low, high, hplace, hins, hsub, hledger⟩ | ⟨rfl, hledger, hranges⟩ |
    ⟨rfl, -, low, high, hins, hsub, -⟩
  · -- a new interval: the old one goes, and the range probes for the new one
    obtain ⟨c₂, hremove, hc'⟩ := bind_eq_ok.mp hrest
    cases hc'
    obtain ⟨pre₁, post₁, hsplit₁⟩ := append_of_mem (hsub _ hn')
    have hinformed : (c₁.informAcquiring r).Wired := hw₁.addNotify _ _
    obtain ⟨hw₂, -, hledger₂⟩ := removeRangeInterval_spec hinformed hsplit₁ hremove
    have hremoved : Removed { n.slot with owner := none } c₁.slots
        (pre₁.map Node.slot ++ post₁.map Node.slot) := by
      refine ⟨pre₁.map Node.slot, post₁.map Node.slot, ?_, rfl⟩
      rw [Client.slots, hsplit₁, map_append, map_cons]
      rfl
    have hw₃ : (c₂.setRange r fun range =>
        { range with counter := maapProbeRetransmits }).Wired := hw₂.setRange fun x => ⟨rfl, rfl⟩
    have hledger₃ : (c₂.setRange r fun range =>
        { range with counter := maapProbeRetransmits }).ledger = _ :=
      ledger_setRange (g := fun x => { x with counter := maapProbeRetransmits }) fun x => rfl
    have hledger₁ : (c₁.informAcquiring r).ledger = _ := hledger
    rw [hledger₂, hledger₁] at hledger₃
    have hin : ⟨low, high, some r⟩ ∈ (c₂.setRange r fun range =>
        { range with counter := maapProbeRetransmits }).ledger.slots := by
      rw [hledger₃]
      refine (hremoved.mem_or (hins.mem_iff.mpr (Or.inl rfl))).resolve_left fun heq => ?_
      cases congrArg Slot.owner heq
    have hlt₃ : r < (c₂.setRange r fun range =>
        { range with counter := maapProbeRetransmits }).ledger.fresh := by
      rw [hledger₃]
      exact hlt
    have htimer := (scheduleTimer_spec hw₃ hlt₃).1
    refine ⟨htimer.sendPacket _, Or.inl ?_⟩
    have hmem : r ∈ (c.disown n.addr).ledger.members :=
      ((h.held.owned r).mp (mem_owners.mpr ⟨n.slot, mem_map_of_mem hn, hdata⟩)).1
    have hmove := Move.mk (v := c.ledger) (r := r) hstate (congrArg Slot.owner hslot) hhanded hins
      hremoved hplace
    rw [launch_spec hw₃ hlt₃ hin htimer rfl, hledger₃]
    dsimp only [Ledger.setCore]
    rw [append_assoc, Set.insert_eq_of_mem hmem]
    exact hmove
  · have hsplit₁ : (c₁.informNotAcquired (c₁.mem r).sender (c₁.mem r).id n.count
        .RESERVE_NOT_AVAILABLE).ranges.nodes = pre ++ { n with data := none } :: post := by
      rw [← hnodes, ← hranges]
      rfl
    have hinformed : (c₁.informNotAcquired (c₁.mem r).sender (c₁.mem r).id n.count
        .RESERVE_NOT_AVAILABLE).Wired := hw₁.addNotify _ _
    obtain ⟨hw', -, hledger'⟩ := dropRange_spec hinformed hsplit₁ hrest
    refine ⟨hw', Or.inr ⟨?_, c₁, hassign⟩⟩
    have hremoved : Removed ⟨n.low, n.high, some r⟩ c.ledger.slots
        (pre.map Node.slot ++ post.map Node.slot) := by
      refine ⟨pre.map Node.slot, post.map Node.slot, ?_, rfl⟩
      rw [← hslot, ← map_cons, ← map_append, ← hsplit]
      rfl
    have hledger₁ : (c₁.informNotAcquired (c₁.mem r).sender (c₁.mem r).id n.count
        .RESERVE_NOT_AVAILABLE).ledger = _ := hledger
    rw [hledger₁] at hledger'
    rw [hledger']
    exact .mk hremoved
  · -- the last draw has left a node without a range, which the removal comes across
    obtain ⟨pre₁, post₁, hsplit₁⟩ := append_of_mem (hsub _ hn')
    obtain ⟨-, howned, hledger'⟩ := dropRange_spec (hw₁.addNotify _ _) hsplit₁ hrest
    have hremoved : Removed { n.slot with owner := none } c₁.slots c'.slots := by
      refine ⟨pre₁.map Node.slot, post₁.map Node.slot, ?_, congrArg Ledger.slots hledger'⟩
      rw [Client.slots, hsplit₁, map_append, map_cons]
      rfl
    have hbefore := hhanded.unowned_eq (congrArg Slot.owner hslot)
    have hbetween := hins.unowned_eq
    have hafter := hremoved.unowned_eq
    rw [unowned_eq_zero.mpr howned] at hafter
    grind

theorem Client.yieldInterval_spec (h : c.Sound) {n : Node} (hn : n ∈ c.ranges.nodes)
    (hdata : n.data = some r) {oom : Bool} (hok : c.yieldInterval n r oom = .ok c') :
    c'.Wired ∧ (Replace r c.ledger c'.ledger ∨
      (oom = true ∨ ∃ c₁, (c.newRange (c.mem r).id (c.mem r).sender).assignInterval c.nextRange 0
        (n.count % 2 ^ 16) = .ok (c₁, false)) ∧
      ∃ v₁, (v₁ = c.ledger ∨ ∃ x, v₁ = { c.ledger with
        core := Function.update c.ledger.core c.nextRange x
        fresh := c.nextRange + 1 }) ∧ Drop r v₁ c'.ledger) := by
  unfold Client.yieldInterval at hok
  dsimp only at hok
  split at hok
  · rename_i hmemory
    have hinformed : (c.informYielded (c.mem r).sender (c.mem r).id (some r)
        .OUT_OF_MEMORY).Wired := h.toWired.addNotify _ _
    obtain ⟨hw, hdrop⟩ := dropRange_drop hinformed hn hdata hok
    exact ⟨hw, Or.inr ⟨Or.inl hmemory, c.ledger, Or.inl rfl, hdrop⟩⟩
  · obtain ⟨⟨c₁, found⟩, hassign, hrest⟩ := bind_eq_ok.mp hok
    obtain ⟨hnew, hnewLedger⟩ :=
      newRange_spec h.toWired (c.mem r).id (c.mem r).sender
    have hfree : c.nextRange ∉ owners c.slots := fun hmem =>
      h.held.not_mem_fresh ((h.held.owned _).mp hmem).1
    obtain ⟨hw₁, hcases⟩ := assignInterval_spec hnew hfree (Nat.lt_succ_self _) hassign
    have hslot : n.slot = ⟨n.low, n.high, some r⟩ := by rw [Node.slot, hdata]
    rcases hcases with ⟨rfl, low, high, hplace, hins, hsub, hledger⟩ | ⟨rfl, hledger, hranges⟩ |
      ⟨rfl, -, low, high, hins, hsub, -⟩
    · have hfresh : c.nextRange < c₁.ledger.fresh := by
        grind
      have hin : ⟨low, high, some c.nextRange⟩ ∈ c₁.slots := hins.mem_iff.mpr (Or.inl rfl)
      obtain ⟨hw₂, hledger₂⟩ := scheduleTimer_spec hw₁ hfresh
      have hledger₃ := launch_spec hw₁ hfresh hin hw₂ rfl
      have hranges : ((c₁.scheduleTimer c.nextRange).sendProbe c.nextRange).ranges = c₁.ranges :=
        c₁.scheduleTimer_ranges c.nextRange
      obtain ⟨pre, post, hsplit⟩ := append_of_mem (hsub _ hn)
      have hwired : ((((c₁.scheduleTimer c.nextRange).sendProbe c.nextRange).informYielded
          (c.mem r).sender (c.mem r).id (some r) .NONE).informAcquiring c.nextRange).Wired :=
        ((hw₂.sendPacket _).addNotify _ _).addNotify _ _
      have hledger₄ : ((((c₁.scheduleTimer c.nextRange).sendProbe c.nextRange).informYielded
          (c.mem r).sender (c.mem r).id (some r) .NONE).informAcquiring c.nextRange).ledger = _ :=
        hledger₃
      obtain ⟨hw', -, hledger'⟩ := dropRange_spec hwired (hranges ▸ hsplit) hrest
      refine ⟨hw', Or.inl ?_⟩
      have hremoved : Removed n.slot c₁.slots (pre.map Node.slot ++ post.map Node.slot) := by
        refine ⟨pre.map Node.slot, post.map Node.slot, ?_, rfl⟩
        rw [Client.slots, hsplit, map_append, map_cons]
      have hreplace := Replace.mk (v := c.ledger) (r := r) (mem_map_of_mem hn)
        (congrArg Slot.owner hslot) hins hremoved hplace
      rw [hledger', hledger₄, hledger, hnewLedger]
      dsimp only
      rw [append_assoc]
      exact hreplace
    · have hinformed : (c₁.informYielded (c.mem r).sender (c.mem r).id (some r)
          .RESERVE_NOT_AVAILABLE).Wired := hw₁.addNotify _ _
      have hn₁ : n ∈ (c₁.informYielded (c.mem r).sender (c.mem r).id (some r)
          .RESERVE_NOT_AVAILABLE).ranges.nodes := by
        have : n ∈ c₁.ranges.nodes := hranges ▸ hn
        exact this
      obtain ⟨hw, hdrop⟩ := dropRange_drop hinformed hn₁ hdata hrest
      exact ⟨hw, Or.inr ⟨Or.inr ⟨c₁, hassign⟩, c₁.ledger, Or.inr ⟨_, hledger.trans hnewLedger⟩, hdrop⟩⟩
    · -- a node without a range stops the removal
      obtain ⟨pre₁, post₁, hsplit₁⟩ := append_of_mem (hsub _ hn)
      obtain ⟨-, howned, hledger'⟩ := dropRange_spec (hw₁.addNotify _ _) hsplit₁ hrest
      have hremoved : Removed n.slot c₁.slots c'.slots := by
        refine ⟨pre₁.map Node.slot, post₁.map Node.slot, ?_, congrArg Ledger.slots hledger'⟩
        rw [Client.slots, hsplit₁, map_append, map_cons]
      have hleft := (hremoved.mem_or (hins.mem_iff.mpr (Or.inl rfl))).resolve_left fun heq => by
        rw [hslot] at heq
        cases congrArg Slot.owner heq
      exact absurd rfl (howned _ hleft)

end Avb4Linux.Maap
