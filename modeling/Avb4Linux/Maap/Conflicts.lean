import Avb4Linux.Maap.Probing

/-!
# The turn of a range

`maap_handle_packet` comes to every range that it has flagged exactly once, unless a search for
another interval succeeds with its last draw only.
-/

namespace Avb4Linux.Maap

open Lib Lib.Fallible List

variable {σ : Type} {v v' : Ledger σ} {a r low high : Nat}

structure Ledger.Frame (a : Nat) (v v' : Ledger σ) : Prop where
  len : v'.len = v.len
  grown : ∃ e, v.Grown v' e
  fresh : v.fresh ≤ v'.fresh
  slot : ∀ low high, ⟨low, high, some a⟩ ∈ v.slots → ⟨low, high, some a⟩ ∈ v'.slots
  core : a < v.fresh → v'.core a = v.core a

theorem Ledger.Grown.refl (v : Ledger σ) : v.Grown v [] :=
  ⟨rfl, rfl, rfl, (List.append_nil _).symm⟩

theorem Ledger.Grown.trans {v₁ v₂ v₃ : Ledger σ} {e e' : List Event} (h : v₁.Grown v₂ e)
    (h' : v₂.Grown v₃ e') : v₁.Grown v₃ (e ++ e') := by
  refine ⟨h'.base.trans h.base, h'.srcMac.trans h.srcMac, h'.destMac.trans h.destMac, ?_⟩
  rw [h'.log, h.log, append_assoc]

theorem Ledger.Frame.refl (a : Nat) (v : Ledger σ) : v.Frame a v :=
  ⟨rfl, ⟨[], .refl v⟩, Nat.le_refl _, fun _ _ hslot => hslot, fun _ => rfl⟩

theorem Ledger.Frame.trans {v₁ v₂ v₃ : Ledger σ} (h : v₁.Frame a v₂) (h' : v₂.Frame a v₃) :
    v₁.Frame a v₃ := by
  obtain ⟨e, he⟩ := h.grown
  obtain ⟨e', he'⟩ := h'.grown
  refine ⟨h'.len.trans h.len, ⟨e ++ e', he.trans he'⟩, Nat.le_trans h.fresh h'.fresh, ?_, ?_⟩
  · intro low high hslot
    exact h'.slot low high (h.slot low high hslot)
  · intro ha
    exact (h'.core (Nat.lt_of_lt_of_le ha h.fresh)).trans (h.core ha)

theorem Ledger.Frame.setCore {f : Core σ → Core σ} (h : v.Frame a v') (hne : a ≠ r) :
    v.Frame a (v'.setCore r f) := by
  obtain ⟨e, he⟩ := h.grown
  refine ⟨h.len, ⟨e, he.base, he.srcMac, he.destMac, he.log⟩, h.fresh, h.slot, ?_⟩
  intro ha
  rw [setCore_of_ne _ hne]
  exact h.core ha

theorem Drop.frame (hd : Drop r v v') (hne : a ≠ r) : v.Frame a v' := by
  obtain ⟨hrem⟩ := hd
  refine Ledger.Frame.setCore ⟨rfl, ⟨[], rfl, rfl, rfl, (append_nil _).symm⟩, Nat.le_refl _,
    ?_, fun _ => rfl⟩ hne
  grind [Removed.mem_or]

theorem Handed.mem_other {s : Slot} {l l' : List Slot} (h : Handed s none l l')
    (hs : s.owner ≠ some a) (hx : ⟨low, high, some a⟩ ∈ l) : ⟨low, high, some a⟩ ∈ l' := by
  refine (h.mem_iff ?_ ?_).mpr hx
  all_goals grind

theorem Move.frame (hm : Move r v v') (hne : a ≠ r) : v.Frame a v' := by
  obtain ⟨-, howner, hhand, hins, hrem, -⟩ := hm
  refine Ledger.Frame.setCore ⟨rfl, ⟨_, rfl, rfl, rfl, rfl⟩, Nat.le_refl _, ?_, fun _ => rfl⟩ hne
  intro low high hslot
  have hother : some r ≠ some a := fun heq => hne (Option.some.inj heq).symm
  have hhanded := hhand.mem_other (howner ▸ hother) hslot
  refine (hrem.mem_or (hins.mem_iff.mpr (.inr hhanded))).resolve_left ?_
  intro heq
  cases congrArg Slot.owner heq

theorem Replace.frame (hr : Replace r v v') (hne : a ≠ r) : v.Frame a v' := by
  obtain ⟨-, howner, hins, hrem, -⟩ := hr
  refine Ledger.Frame.setCore ⟨rfl, ⟨_, rfl, rfl, rfl, rfl⟩, Nat.le_succ _, ?_, ?_⟩ hne
  · intro low high hslot
    refine (hrem.mem_or (hins.mem_iff.mpr (.inr hslot))).resolve_left ?_
    rintro rfl
    exact hne (Option.some.inj howner)
  · grind

theorem Ledger.frame_waste (v : Ledger σ) (x : Core σ) :
    v.Frame a { v with core := Function.update v.core v.fresh x, fresh := v.fresh + 1 } :=
  ⟨rfl, ⟨[], rfl, rfl, rfl, (List.append_nil _).symm⟩, Nat.le_succ _, fun _ _ hslot => hslot,
    fun ha => Function.update_of_ne (Nat.ne_of_lt ha) ..⟩

variable {p : Packet} {n : Node} {oom : Bool} {w : List Nat}

theorem Resolves.frame (hr : Resolves p r v v') (hne : a ≠ r) : v.Frame a v' := by
  cases hr with
  | ignore => exact .refl a v
  | move loses hm => exact hm.frame hne
  | giveUp probing loses hd => exact hd.frame hne
  | defend =>
    exact ⟨rfl, ⟨_, rfl, rfl, rfl, rfl⟩, Nat.le_refl _, fun _ _ hslot => hslot, fun _ => rfl⟩
  | replace defending claim loses hrep => exact hrep.frame hne
  | quit defending claim loses same hd =>
    rcases same with rfl | ⟨x, rfl⟩
    · exact hd.frame hne
    · exact (v.frame_waste x).trans (hd.frame hne)

theorem Resolves.tidy (hh : v.Held) (ht : v.Tidy) (hr : Resolves p r v v') : v'.Tidy :=
  Ledger.kept_tidy.resolves hh ht hr

variable {c c' : Client σ}

def Client.Looks (c : Client σ) (p : Packet) (oom : Bool) (r : Nat) : Prop :=
  (c.mem r).state = .PROBING ∧ p.Beats c.srcMac ∨
    (c.mem r).state = .DEFENDING ∧ p.messageType ≠ maapProbe ∧
      compareMacAddresses c.srcMac p.sa = false ∧ oom = false

theorem Tree.insert_setData (iv : Node) (x : Nat) (d : Option Nat) (t : Tree) :
    (t.setData x d).insert iv = none ↔ t.insert iv = none := by
  induction t with
  | nil => exact Iff.rfl
  | node l n r ihl ihr =>
    have hsame : (if n.addr = x then { n with data := d } else n).overlaps iv.low iv.high =
        n.overlaps iv.low iv.high ∧ (if n.addr = x then { n with data := d } else n).low = n.low := by
      split
      · exact ⟨rfl, rfl⟩
      · exact ⟨rfl, rfl⟩
    rw [Tree.setData, Tree.insert, Tree.insert, hsame.1, hsame.2]
    split
    · exact Iff.rfl
    · split
      all_goals simp_all

theorem Client.late_disown {x attemptBase len : Nat} (h : (c.disown x).Late attemptBase len) :
    c.Late attemptBase len := by
  refine ⟨?_, ?_, ?_⟩
  · intro hattempts
    exact (Tree.insert_setData _ x none c.ranges).mp (h.attempt hattempts)
  · intro i hi
    exact (Tree.insert_setData _ x none c.ranges).mp (h.misses i hi)
  · intro hnone
    exact h.fits ((Tree.insert_setData _ x none c.ranges).mpr hnone)

theorem Client.late_newRange {id : UInt32} {sender : σ} {attemptBase len : Nat}
    (h : (c.newRange id sender).Late attemptBase len) : c.Late attemptBase len :=
  ⟨h.attempt, h.misses, h.fits⟩

theorem Client.replacement_ok (ht : c.ledger.Tidy) (hn : n ∈ c.ranges.nodes) {d : Client σ}
    (a : Nat) : ∃ x, d.assignInterval a 0 (n.count % 2 ^ 16) = .ok x := by
  have hslot : n.slot ∈ c.slots := mem_map_of_mem hn
  have hle : n.low ≤ n.high := ht.order.low_le_high _ hslot
  have hsize : n.high - n.low + 1 ≤ 0xFFFF := ht.size _ hslot
  have hcount : n.count % 2 ^ 16 = n.high - n.low + 1 := countOf_eq hle hsize
  exact assignInterval_ok (by omega) (by decide) (.inl (by omega))

theorem Client.dropRange_ok (h : c.Linked) (hn : n ∈ c.ranges.nodes)
    (howned : unowned c.slots = if n.data.isNone then 1 else 0) :
    ∃ c', c.dropRange n.addr r = .ok c' := by
  obtain ⟨c₁, hremove⟩ := removeRangeInterval_ok h hn howned
  exact ⟨_, bind_eq_ok.mpr ⟨c₁, hremove, rfl⟩⟩

theorem Client.relocate_ok (h : c.Sound) (ht : c.ledger.Tidy) (hn : n ∈ c.ranges.nodes)
    (hdata : n.data = some r) (hlate : ¬c.Late 0 (n.count % 2 ^ 16)) :
    ∃ c', c.relocate n r = .ok c' := by
  obtain ⟨hwired, hhanded, hfree, hn'⟩ := h.disowned hn hdata
  -- the interval that the range leaves is the only one without a range
  have hone : unowned (c.disown n.addr).slots = 1 := by
    have hnone : unowned c.slots = 0 := unowned_eq_zero.mpr ht.owned
    rw [hhanded.unowned_eq hdata, hnone]
  obtain ⟨⟨c₁, found⟩, hassign⟩ := replacement_ok (d := c.disown n.addr) ht hn r
  obtain ⟨hw₁, hcases⟩ := assignInterval_spec hwired hfree (h.linked.back n hn r hdata).2
    hassign
  have hrest : ∃ c', (if found then c₁.restart n r else
      (c₁.informNotAcquired (c₁.mem r).sender (c₁.mem r).id n.count
        .RESERVE_NOT_AVAILABLE).dropRange n.addr r) = .ok c' := by
    rcases hcases with ⟨rfl, low, high, -, hins, hsub, -⟩ | ⟨rfl, -, hranges⟩ | ⟨-, hbad, -⟩
    · have howned : unowned c₁.slots = 1 := by
        rw [hins.unowned_eq, hone]
        rfl
      obtain ⟨c₂, hremove⟩ := removeRangeInterval_ok (c := c₁.informAcquiring r)
        (hw₁.addNotify _ _).linked (hsub _ hn') howned
      exact ⟨_, bind_eq_ok.mpr ⟨c₂, hremove, rfl⟩⟩
    · have hin : { n with data := none } ∈ c₁.ranges.nodes := hranges ▸ hn'
      have howned : unowned c₁.slots = 1 := by
        rw [Client.slots, hranges]
        exact hone
      exact dropRange_ok (c := c₁.informNotAcquired (c₁.mem r).sender (c₁.mem r).id n.count
        .RESERVE_NOT_AVAILABLE) (n := { n with data := none }) (hw₁.addNotify _ _).linked hin howned
    · exact absurd (late_disown hbad) hlate
  obtain ⟨c', hc'⟩ := hrest
  exact ⟨c', bind_eq_ok.mpr ⟨_, hassign, hc'⟩⟩

theorem Client.yieldInterval_ok (h : c.Sound) (ht : c.ledger.Tidy) (hn : n ∈ c.ranges.nodes)
    (hdata : n.data = some r) (hlate : oom = false → ¬c.Late 0 (n.count % 2 ^ 16)) :
    ∃ c', c.yieldInterval n r oom = .ok c' := by
  have hnone : unowned c.slots = 0 := unowned_eq_zero.mpr ht.owned
  unfold yieldInterval
  dsimp only
  split
  · refine dropRange_ok (h.toWired.addNotify _ _).linked hn ?_
    rw [hdata]
    exact hnone
  · rename_i hmemory
    have htime := hlate (Bool.eq_false_iff.mpr hmemory)
    obtain ⟨hnew, -⟩ := newRange_spec h.toWired (c.mem r).id (c.mem r).sender
    have hfree : c.nextRange ∉ owners c.slots := h.held.fresh_not_owner
    obtain ⟨⟨c₁, found⟩, hassign⟩ := replacement_ok
      (d := c.newRange (c.mem r).id (c.mem r).sender) ht hn c.nextRange
    obtain ⟨hw₁, hcases⟩ := assignInterval_spec hnew hfree (Nat.lt_succ_self _) hassign
    rw [bind_of_ok hassign]
    rcases hcases with ⟨rfl, low, high, -, hins, hsub, hledger⟩ | ⟨rfl, -, hranges⟩ | ⟨-, hbad, -⟩
    · have hlt : c.nextRange < c₁.nextRange := by
        have hfresh : c₁.ledger.fresh = c.nextRange + 1 := congrArg Ledger.fresh hledger
        have hnext : c₁.nextRange = c.nextRange + 1 := hfresh
        omega
      have htimer := (scheduleTimer_spec hw₁ hlt).1
      have hranges : ((c₁.scheduleTimer c.nextRange).sendProbe c.nextRange).ranges = c₁.ranges :=
        c₁.scheduleTimer_ranges c.nextRange
      have hin : n ∈ ((c₁.scheduleTimer c.nextRange).sendProbe c.nextRange).ranges.nodes := by
        rw [hranges]
        exact hsub n hn
      have howned : unowned ((c₁.scheduleTimer c.nextRange).sendProbe c.nextRange).slots =
          if n.data.isNone then 1 else 0 := by
        rw [Client.slots, hranges, hdata]
        have hcount := hins.unowned_eq
        have hbefore : unowned (c.newRange (c.mem r).id (c.mem r).sender).slots = 0 := hnone
        rw [hbefore] at hcount
        exact hcount
      exact dropRange_ok (((htimer.sendPacket _).addNotify _ _).addNotify _ _).linked hin
        howned
    · have hin : n ∈ c₁.ranges.nodes := hranges ▸ hn
      have howned : unowned c₁.slots = if n.data.isNone then 1 else 0 := by
        rw [Client.slots, hranges, hdata]
        exact hnone
      exact dropRange_ok (hw₁.addNotify _ _).linked hin howned
    · exact absurd (late_newRange hbad) htime

theorem Client.resolve_ok (h : c.Sound) (ht : c.ledger.Tidy) (hn : n ∈ c.ranges.nodes)
    (hdata : n.data = some r) (hlate : c.Looks p oom r → ¬c.Late 0 (n.count % 2 ^ 16)) :
    ∃ c', c.resolve p oom n r = .ok c' := by
  unfold resolve
  cases hstate : (c.mem r).state with
  | PROBING =>
    dsimp only
    split
    · exact ⟨c, rfl⟩
    · rename_i hbeats
      exact relocate_ok h ht hn hdata (hlate (.inl ⟨hstate, hbeats⟩))
  | DEFENDING =>
    dsimp only
    split
    · exact ⟨_, rfl⟩
    · rename_i hclaim
      split
      · exact ⟨c, rfl⟩
      · rename_i hloses
        refine yieldInterval_ok h ht hn hdata ?_
        intro hmemory
        exact hlate (.inr ⟨hstate, hclaim, Bool.eq_false_iff.mpr hloses, hmemory⟩)
  | RELEASED => exact ⟨c, rfl⟩

structure Client.Spares (a : Nat) (c c' : Client σ) : Prop where
  frame : c.ledger.Frame a c'.ledger
  tells : c.Tells (fun _ => True) c'

theorem Client.Spares.refl (a : Nat) (c : Client σ) : c.Spares a c :=
  ⟨.refl a _, (Client.Silent.refl c).tells⟩

theorem Client.Spares.trans {c₁ c₂ c₃ : Client σ} (h : c₁.Spares a c₂) (h' : c₂.Spares a c₃) :
    c₁.Spares a c₃ :=
  ⟨h.frame.trans h'.frame, h.tells.trans h'.tells⟩

def Client.unflag (r : Nat) (c : Client σ) : Client σ :=
  c.setRange r fun range => { range with overlapping := false }

structure Client.Pending (p : Packet) (start : Nat) (w : List Nat) (c : Client σ) : Prop where
  nodup : w.Nodup
  flagged : c.ledger.FlaggedIn w
  waiting : ∀ a ∈ w, (c.mem a).overlapping = true ∧ ∃ low high, ⟨low, high, some a⟩ ∈ c.slots ∧
    low ≤ intervalEnd start p.requestedCount ∧ start ≤ high

theorem findFlagged_ok {mem : Nat → Range σ} {l : List Node} (hall : ∀ n ∈ l, n.data ≠ none)
    (hn : n ∈ l) (hdata : n.data = some a) (hflag : (mem a).overlapping = true) :
    ∃ x, findFlagged mem l = .ok x := by
  induction l with
  | nil => cases hn
  | cons m l ih =>
    obtain ⟨b, hb⟩ := Option.ne_none_iff_exists'.mp (hall m mem_cons_self)
    rw [findFlagged, hb]
    dsimp only
    split
    all_goals grind

theorem Client.Pending.finds {start : Nat} (h : c.Sound) (ht : c.ledger.Tidy)
    (hp : c.Pending p start w) (ha : a ∈ w) :
    ∃ n r, findFlagged c.mem (c.ranges.nodesFrom start p.requestedCount) = .ok (n, r) ∧
      n ∈ c.ranges.nodes ∧ n.data = some r ∧ r ∈ w := by
  obtain ⟨hflag, low, high, hslot, hlow, hhigh⟩ := hp.waiting a ha
  obtain ⟨m, hm, heq⟩ := mem_slots.mp hslot
  have hordered : Ordered c.ranges.nodes := ordered_iff_inOrder.mpr ht.order
  obtain ⟨pre, hpre, hmiss, -⟩ := Tree.nodesFrom_spec start p.requestedCount hordered
    h.linked.addrs
  have hoverlaps : m.overlaps start (intervalEnd start p.requestedCount) = true := by
    have hmlow : m.low = low := congrArg Slot.low heq
    have hmhigh : m.high = high := congrArg Slot.high heq
    rw [Node.overlaps_iff, hmlow, hmhigh]
    exact ⟨hlow, hhigh⟩
  have hfrom : m ∈ c.ranges.nodesFrom start p.requestedCount := by
    grind
  have howned : ∀ x ∈ c.ranges.nodesFrom start p.requestedCount, x.data ≠ none := fun x hx =>
    ht.owned x.slot (mem_map_of_mem (Tree.nodesFrom_subset hx))
  obtain ⟨⟨n, r⟩, hfind⟩ := findFlagged_ok howned hfrom (congrArg Slot.owner heq) hflag
  obtain ⟨hmem, hdata, hflagged⟩ := findFlagged_spec hfind
  have hn := Tree.nodesFrom_subset hmem
  obtain ⟨hslot', -, -⟩ := h.owner_of_node hn hdata
  have hmember := ((h.held.owned r).mp (mem_owners.mpr ⟨_, hslot', rfl⟩)).1
  exact ⟨n, r, hfind, hn, hdata, hp.flagged r hmember hflagged⟩

theorem Client.resolve_turn {start : Nat} (h : c.Sound) (ht : c.ledger.Tidy)
    (hp : c.Pending p start w) (hn : n ∈ c.ranges.nodes) (hdata : n.data = some r)
    (hok : (c.unflag r).resolve p oom n r = .ok c') :
    c'.Sound ∧ c'.ledger.Tidy ∧ c'.Pending p start (w.erase r) ∧ ∀ a, a ≠ r → c.Spares a c' := by
  obtain ⟨hcleared, hledger⟩ := h.flag (r := r) false
  obtain ⟨hsound, hresolves⟩ := resolve_spec hcleared hn hdata hok
  rw [hledger] at hresolves
  have hheld : (c.ledger.flag r false).Held := hledger ▸ hcleared.held
  have htidy : (c.ledger.flag r false).Tidy := ht.congr rfl rfl
  have hspares : ∀ a, a ≠ r → c.Spares a c' := by
    intro a hne
    have hflag : c.ledger.Frame a (c.ledger.flag r false) :=
      (Ledger.Frame.refl a c.ledger).setCore hne
    have hsilent : c.Silent (c.unflag r) := c.silent_setRange rfl
    exact ⟨hflag.trans (hresolves.frame hne),
      hsilent.tells.trans (tells_resolve trivial hok)⟩
  refine ⟨hsound, hresolves.tidy hheld htidy, ⟨hp.nodup.erase r, ?_, ?_⟩, hspares⟩
  · exact hp.flagged.resolves h.held hresolves
  · intro a ha
    obtain ⟨hne, hmem⟩ := (hp.nodup.mem_erase_iff).mp ha
    obtain ⟨hflag, low, high, hslot, hover⟩ := hp.waiting a hmem
    have hframe := (hspares a hne).frame
    have howner : a ∈ owners c.ledger.slots := mem_owners.mpr ⟨_, hslot, rfl⟩
    have hcore : (c'.ledger.core a).overlapping = (c.ledger.core a).overlapping := by
      rw [hframe.core (h.held.below a ((h.held.owned a).mp howner).1)]
    exact ⟨hcore.trans hflag, low, high, hframe.slot low high hslot, hover⟩

def Client.Turn (c : Client σ) (p : Packet) (oom : Bool) (r : Nat) (c' : Client σ) : Prop :=
  ∃ c₁ n c₂, c.Spares r c₁ ∧ c₁.Sound ∧ c₁.ledger.Tidy ∧ n ∈ c₁.ranges.nodes ∧
    n.data = some r ∧ (c₁.unflag r).resolve p oom n r = .ok c₂ ∧ c₂.Spares r c'

def Client.InTime (p : Packet) (oom : Bool) (start : Nat) : Nat → Client σ → Prop
  | 0, _ => True
  | k + 1, c => ∀ n r, findFlagged c.mem (c.ranges.nodesFrom start p.requestedCount) = .ok (n, r) →
    (c.Looks p oom r → ¬c.Late 0 (n.count % 2 ^ 16)) ∧
      ∀ c₁, (c.unflag r).resolve p oom n r = .ok c₁ → InTime p oom start k c₁

theorem Client.Looks.of_unflag (h : (c.unflag r).Looks p oom r) : c.Looks p oom r := by
  have hstate : ((c.unflag r).mem r).state = (c.mem r).state := by
    dsimp only [unflag, setRange]
    rw [Function.update_self]
  unfold Looks at h ⊢
  rw [hstate] at h
  exact h

theorem Client.resolveLoop_turns {start k : Nat} (h : c.Sound) (ht : c.ledger.Tidy)
    (hp : c.Pending p start w) (hlen : w.length = k) (hin : Client.InTime p oom start k c) :
    ∃ c', c.resolveLoop p oom start k = .ok c' ∧ (∀ a, a ∉ w → c.Spares a c') ∧
      ∀ a ∈ w, c.Turn p oom a c' := by
  induction k generalizing c w with
  | zero =>
    obtain rfl := length_eq_zero_iff.mp hlen
    exact ⟨c, rfl, fun a _ => .refl a c, by simp⟩
  | succ k ih =>
    obtain ⟨b, hb⟩ := exists_mem_of_length_pos (Nat.lt_of_lt_of_eq k.succ_pos hlen.symm)
    obtain ⟨n, r, hfind, hn, hdata, hr⟩ := hp.finds h ht hb
    obtain ⟨hlate, hnext⟩ := hin n r hfind
    have hcleared := (h.flag (r := r) false).1
    obtain ⟨c₁, hok⟩ := resolve_ok (c := c.unflag r) hcleared
      (ht.congr rfl rfl) hn hdata fun hlooks => fun hbad =>
        hlate hlooks.of_unflag ⟨hbad.attempt, hbad.misses, hbad.fits⟩
    obtain ⟨hsound, htidy, hpending, hspares⟩ := resolve_turn h ht hp hn hdata hok
    have hlen' : (w.erase r).length = k := by
      rw [length_erase_of_mem hr, hlen, Nat.add_sub_cancel]
    obtain ⟨c', hloop, hothers, hturns⟩ := ih hsound htidy hpending hlen' (hnext c₁ hok)
    refine ⟨c', ?_, ?_, ?_⟩
    · exact bind_eq_ok.mpr ⟨(n, r), hfind, bind_eq_ok.mpr ⟨c₁, hok, hloop⟩⟩
    · intro a ha
      have hne : a ≠ r := fun heq => ha (heq ▸ hr)
      exact (hspares a hne).trans (hothers a fun hmem => ha (mem_of_mem_erase hmem))
    · intro a ha
      by_cases hne : a = r
      · subst hne
        exact ⟨c, n, c₁, .refl a c, h, ht, hn, hdata, hok, hothers a hp.nodup.not_mem_erase⟩
      · obtain ⟨c₂, m, c₃, hbefore, hturn⟩ := hturns a ((mem_erase_of_ne hne).mpr ha)
        exact ⟨c₂, m, c₃, (hspares a hne).trans hbefore, hturn⟩

theorem flagOverlaps_ok {l : List Node} (h : ∀ n ∈ l, n.data ≠ none) (mem : Nat → Range σ) :
    ∃ mem', flagOverlaps l mem = .ok mem' := by
  induction l generalizing mem with
  | nil => exact ⟨mem, rfl⟩
  | cons n l ih =>
    obtain ⟨a, ha⟩ := Option.ne_none_iff_exists'.mp (h n mem_cons_self)
    rw [flagOverlaps, ha]
    exact ih (fun m hm => h m (mem_cons_of_mem n hm)) _

theorem Client.overlapping_sublist (c : Client σ) (p : Packet) :
    (c.overlapping p).Sublist c.ranges.nodes := by
  refine (takeWhile_sublist _).trans ?_
  grind [Tree.nodesFrom]

def Client.flagged (c : Client σ) (p : Packet) (mem : Nat → Range σ) : Client σ :=
  { c with mem := mem, log := c.log ++ [.handled p] }

theorem Client.flagged_spec {mem : Nat → Range σ} (h : c.Sound)
    (hok : flagOverlaps (c.overlapping p) c.mem = .ok mem) :
    (c.flagged p mem).Sound ∧ { c.ledger with log := c.log ++ [Event.handled p] }.Marked
      ((c.overlapping p).filterMap Node.data) (c.flagged p mem).ledger ∧
      ∀ a ∈ (c.overlapping p).filterMap Node.data, (mem a).overlapping = true := by
  obtain ⟨hflagged, hledger, -⟩ := flagOverlaps_spec h hok
  have hmarked := Ledger.marked_flagAll ((c.overlapping p).filterMap Node.data) c.ledger
  rw [← hledger] at hmarked
  refine ⟨⟨hflagged.toWired.congr rfl rfl rfl rfl rfl fun _ => ⟨rfl, rfl⟩, hflagged.held.log _⟩,
    ⟨hmarked.slots, hmarked.members, ⟨rfl, rfl, rfl, (append_nil _).symm⟩, hmarked.core,
      hmarked.flags⟩, ?_⟩
  intro a ha
  have hflag := Ledger.flagAll_mem (v := c.ledger) ha
  rw [← hledger] at hflag
  exact hflag

theorem Client.pending_flagged {mem : Nat → Range σ} (h : c.Sound) (hu : c.ledger.Unflagged)
    (hok : flagOverlaps (c.overlapping p) c.mem = .ok mem) :
    (c.flagged p mem).Pending p (p.offset c.addressBase)
      ((c.overlapping p).filterMap Node.data) := by
  obtain ⟨-, hmarked, hflags⟩ := flagged_spec h hok
  refine ⟨?_, hmarked.flaggedIn hu, ?_⟩
  · have howners : (c.ranges.nodes.filterMap Node.data).Nodup := by
      have hnodup := h.linked.owners_nodup
      rwa [owners, Client.slots, filterMap_map] at hnodup
    exact howners.sublist ((c.overlapping_sublist p).filterMap _)
  · intro a ha
    obtain ⟨n, hn, hdata⟩ := mem_filterMap.mp ha
    have hnodes := (c.overlapping_sublist p).subset hn
    have hoverlaps := mem_takeWhile_imp hn
    rw [Node.overlaps_iff] at hoverlaps
    exact ⟨hflags a ha, n.low, n.high, (h.owner_of_node hnodes hdata).1, hoverlaps⟩

def Client.HandlesInTime (c : Client σ) (stream : List UInt8) (oom : Bool) : Prop :=
  ∀ mem, flagOverlaps (c.overlapping (unpackMaap stream)) c.mem = .ok mem →
    Client.InTime (unpackMaap stream) oom ((unpackMaap stream).offset c.addressBase)
      (c.overlapping (unpackMaap stream)).length (c.flagged (unpackMaap stream) mem)

theorem Client.handlePacket_turns {stream : List UInt8} (h : c.Sound) (ht : c.ledger.Tidy)
    (hu : c.ledger.Unflagged) (hlen : maapPktSize ≤ stream.length)
    (hvalid : (unpackMaap stream).valid = true) (hin : c.HandlesInTime stream oom) :
    ∃ c', c.handlePacket stream oom = .ok c' ∧ ∀ a ∈ c.hits (unpackMaap stream), ∃ mem,
      flagOverlaps (c.overlapping (unpackMaap stream)) c.mem = .ok mem ∧
        (c.flagged (unpackMaap stream) mem).Turn (unpackMaap stream) oom a c' := by
  unfold HandlesInTime at hin
  unfold handlePacket
  rw [if_neg (Nat.not_lt.mpr hlen), if_pos hvalid]
  generalize unpackMaap stream = p at hin ⊢
  unfold handleValid hits
  dsimp only
  split
  · exact ⟨_, rfl, by simp⟩
  · have howned : ∀ n ∈ c.overlapping p, n.data ≠ none := fun n hn =>
      ht.owned n.slot (mem_map_of_mem ((c.overlapping_sublist p).subset hn))
    obtain ⟨mem, hmem⟩ := flagOverlaps_ok howned c.mem
    have hlength := (flagOverlaps_spec h hmem).2.2
    obtain ⟨c₁, hloop, -, hturns⟩ := resolveLoop_turns (flagged_spec h hmem).1
      (ht.congr rfl rfl) (pending_flagged h hu hmem) hlength (hin mem hmem)
    refine ⟨c₁.startTimer, ?_, ?_⟩
    · exact bind_eq_ok.mpr ⟨mem, hmem, bind_eq_ok.mpr ⟨c₁, hloop, rfl⟩⟩
    · intro a ha
      obtain ⟨c₂, n, c₃, hbefore, hsound, htidy, hn, hdata, hok, hafter⟩ := hturns a ha
      refine ⟨mem, hmem, c₂, n, c₃, hbefore, hsound, htidy, hn, hdata, hok, ?_, ?_⟩
      · rw [ledger_startTimer]
        exact hafter.frame
      · exact hafter.tells.trans c₁.silent_startTimer.tells

end Avb4Linux.Maap
