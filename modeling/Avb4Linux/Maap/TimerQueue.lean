import Avb4Linux.Maap.Pool

/-!
# The timer queue

The queue holds the ranges of the interval tree and the released ones, in the order of their times.
-/

namespace Avb4Linux.Maap

open Lib Lib.Fallible Function

variable {σ : Type} {v v' : Ledger σ} {r : Nat}

def Ledger.UniqueIds (v : Ledger σ) : Prop :=
  ∀ a ∈ owners v.slots, ∀ b ∈ owners v.slots, (v.core a).id = (v.core b).id → a = b

theorem Ledger.UniqueIds.mono (h : v.UniqueIds) (hsub : ∀ a ∈ owners v'.slots, a ∈ owners v.slots)
    (hid : ∀ a ∈ owners v'.slots, (v'.core a).id = (v.core a).id) : v'.UniqueIds := by
  intro a ha b hb hab
  rw [hid a ha, hid b hb] at hab
  exact h a (hsub a ha) b (hsub b hb) hab

theorem update_id {core : Nat → Core σ} {x : Core σ} (hx : x.id = (core r).id) (a : Nat) :
    (Function.update core r x a).id = (core a).id := by
  grind

theorem Ledger.UniqueIds.alike (h : v.UniqueIds) (ha : v.Alike v') : v'.UniqueIds := by
  have hsub : ∀ a ∈ owners v'.slots, a ∈ owners v.slots := by
    rw [ha.slots]
    exact fun _ h => h
  exact h.mono hsub fun a hmem => ha.id a (hsub a hmem)

theorem Drop.uniqueIds (h : v.UniqueIds) (hd : Drop r v v') : v'.UniqueIds := by
  obtain ⟨hrem⟩ := hd
  refine h.mono (fun a ha => ?_) fun a _ => update_id (by rfl) a
  exact (hrem.owners_perm rfl).mem_iff.mpr (List.mem_cons_of_mem _ ha)

theorem Move.uniqueIds (h : v.UniqueIds) (hm : Move r v v') : v'.UniqueIds := by
  obtain ⟨-, howner, hhand, hins, hrem, -⟩ := hm
  refine h.mono (fun a ha => ?_) fun a _ => update_id (by rfl) a
  have hperm := (hhand.owners_perm howner).trans
    ((hins.owners_perm rfl).symm.trans (List.Perm.of_eq (hrem.owners_none rfl).symm))
  exact hperm.mem_iff.mpr ha

theorem Replace.uniqueIds (h : v.UniqueIds) (hh : v.Held) (hr : Replace r v v') :
    v'.UniqueIds := by
  cases hr with
  | @mk old low high slots₁ slots₂ hold howner hins hrem hplace =>
    have hperm := (hins.owners_perm rfl).symm.trans (hrem.owners_perm howner)
    have hrmem : r ∈ owners v.slots := mem_owners.mpr ⟨_, hold, howner⟩
    have hnodup := List.nodup_cons.mp
      (hperm.nodup_iff.mp (List.nodup_cons.mpr ⟨hh.fresh_not_owner, hh.nodup⟩))
    -- an owner is the new range, which has the id of `r`, or an old one other than `r`
    have hcases : ∀ a ∈ owners slots₂, a = v.fresh ∨ a ∈ owners v.slots ∧ a ≠ r := by
      grind
    have hidFresh : ∀ a, a ∈ owners v.slots → a ≠ v.fresh := fun a ha heq =>
      hh.fresh_not_owner (heq ▸ ha)
    intro a ha b hb hab
    replace hab : (Function.update v.core v.fresh (Core.fresh (v.core r).id (v.core r).sender)
        a).id = (Function.update v.core v.fresh (Core.fresh (v.core r).id (v.core r).sender) b).id :=
      (update_id (by rfl) a).symm.trans (hab.trans (update_id (by rfl) b))
    rcases hcases a ha with rfl | ⟨ha, har⟩
    · rcases hcases b hb with rfl | ⟨hb, hbr⟩
      · rfl
      · rw [update_self, update_of_ne (hidFresh b hb)] at hab
        exact absurd (h r hrmem b hb hab).symm hbr
    · rcases hcases b hb with rfl | ⟨hb, hbr⟩
      · rw [update_self, update_of_ne (hidFresh a ha)] at hab
        exact absurd (h a ha r hrmem hab) har
      · rw [update_of_ne (hidFresh a ha), update_of_ne (hidFresh b hb)] at hab
        exact h a ha b hb hab

theorem Ledger.kept_uniqueIds : Kept (Ledger.UniqueIds (σ := σ)) :=
  ⟨fun halike h => h.alike halike, fun h hd => hd.uniqueIds h, fun h hm => hm.uniqueIds h,
    fun hh h hr => hr.uniqueIds h hh⟩

theorem Reserve.uniqueIds {sender : σ} {attemptBase n : Nat} {late : Prop} (h : v.UniqueIds)
    (hh : v.Held) (hr : Reserve sender attemptBase n late v v')
    (hfree : ∀ a ∈ owners v.slots, (v.core a).id ≠ v.maxid + 1) : v'.UniqueIds := by
  have hwaste := fun x => h.alike (Ledger.Alike.waste hh x)
  cases hr with
  | refused => exact h
  | failed x => exact hwaste x
  | orphan x isLate inserted =>
    refine (hwaste x).mono (fun a ha => ?_) fun a _ => rfl
    rw [inserted.owners_none rfl] at ha
    exact ha
  | @placed _ _ slots small fits inserted placement =>
    have hcases : ∀ a ∈ owners slots, a = v.fresh ∨ a ∈ owners v.slots ∧ a ≠ v.fresh := by
      intro a ha
      have hmem := (inserted.owners_perm rfl).mem_iff.mp ha
      grind
    intro a ha b hb hab
    dsimp only at hab
    rcases hcases a ha with rfl | ⟨ha, hane⟩
    · rcases hcases b hb with rfl | ⟨hb, hbne⟩
      · rfl
      · rw [update_self, update_of_ne hbne] at hab
        exact absurd hab.symm (hfree b hb)
    · rcases hcases b hb with rfl | ⟨hb, hbne⟩
      · rw [update_self, update_of_ne hane] at hab
        exact absurd hab (hfree a ha)
      · rw [update_of_ne hane, update_of_ne hbne] at hab
        exact h a ha b hb hab

def Client.FreshIdStep (c : Client σ) : Op σ → Prop
  | .reserve _ _ _ _ =>
    ∀ r ∈ c.queue, (c.mem r).state ≠ .RELEASED → (c.mem r).id ≠ c.maxid + 1
  | _ => True

structure Client.QueueRight (c : Client σ) : Prop where
  acyclic : LinkedQueue.Chain c.nextTimer c.timerQueue c.queue
  sorted : c.queue.Pairwise fun a b => (c.mem a).nextActTime.le (c.mem b).nextActTime = true
  nodup : c.queue.Nodup
  held : ∀ n ∈ c.ranges.nodes, ∀ r, n.data = some r → c.queue.count r = 1
  others : ∀ r ∈ c.queue, (∀ n ∈ c.ranges.nodes, n.data ≠ some r) → (c.mem r).state = .RELEASED
  ids : ∀ a ∈ c.queue, ∀ b ∈ c.queue, (c.mem a).state ≠ .RELEASED → (c.mem b).state ≠ .RELEASED →
    (c.mem a).id = (c.mem b).id → a = b

theorem Client.Follows.uniqueIds {c : Client σ} {op : Op σ} (h : c.ledger.UniqueIds)
    (hh : c.ledger.Held) (hf : c.Follows op v') (hstep : c.FreshIdStep op) : v'.UniqueIds := by
  refine Ledger.kept_uniqueIds.follows hh h hf ?_ ?_
  · intro base len a ha
    cases ha
  · rintro sender base length oom rfl - hreserve
    refine hreserve.uniqueIds h hh fun a ha => ?_
    obtain ⟨hmem, hlive⟩ := (hh.owned a).mp ha
    exact hstep a hmem hlive

theorem Client.Sound.queueRight {c : Client σ} (h : c.Sound) (hids : c.ledger.UniqueIds) :
    c.QueueRight := by
  have hnodup := h.queued.chain.nodup
  refine ⟨h.queued.chain, h.queued.sorted, hnodup, fun n hn r hr => ?_, fun r hr hnone => ?_,
    fun a ha b hb hla hlb hab => ?_⟩
  · exact List.count_eq_one_of_mem hnodup (h.owner_of_node hn hr).2.1
  · by_contra hlive
    obtain ⟨n, hn, hdata, -⟩ := h.node_of_owner ((h.held.owned r).mpr ⟨hr, hlive⟩)
    exact hnone n hn hdata
  · exact hids a ((h.held.owned a).mpr ⟨ha, hla⟩) b ((h.held.owned b).mpr ⟨hb, hlb⟩) hab

theorem Client.queue_right [BEq σ] {c c' : Client σ} (h : c.Initial) {ops : List (Op σ)}
    (hsteps : Along Client.perform Client.FreshIdStep c ops)
    (hrun : Fallible.run Client.perform c ops = .ok c') : c'.QueueRight := by
  have hids : c.ledger.UniqueIds := by
    intro a ha
    have hslots : c.ledger.slots = [] := by
      dsimp only [Client.ledger, Client.slots]
      rw [h.ranges]
      rfl
    rw [hslots] at ha
    cases ha
  have hinv : c'.Sound ∧ c'.ledger.UniqueIds := by
    refine run_invariant (P := fun c => c.Sound ∧ c.ledger.UniqueIds) ?_ ⟨h.sound, hids⟩ hsteps
      hrun
    rintro d op d' hstep ⟨hsound, hd⟩ hok
    obtain ⟨hsound', hfollows⟩ := perform_spec hsound hok
    exact ⟨hsound', hfollows.uniqueIds hd hsound.held hstep⟩
  exact hinv.1.queueRight hinv.2

theorem reserveTwo_freshIds : Along Client.perform Client.FreshIdStep (quietClient 7 0)
    reserveTwo := by
  refine ⟨trivial, fun c hc => ⟨fun r hr => ?_, fun _ _ => trivial⟩⟩
  cases hc
  cases hr

theorem queue_right_reserveTwo : ∃ c', Fallible.run Client.perform (quietClient 7 0) reserveTwo =
    .ok c' ∧ c'.queue = [0] ∧ c'.QueueRight := by
  obtain ⟨c', hrun, hqueue⟩ := exists_of_okAnd (x := Fallible.run Client.perform (quietClient 7 0)
    reserveTwo) (p := fun c => c.queue = [0]) (by decide +kernel)
  exact ⟨c', hrun, by simpa using hqueue,
    Client.queue_right (quietClient_initial 7 0) reserveTwo_freshIds hrun⟩

def twoAddresses : Op Nat := .init 5 0x91E0F0000000 2

def firstAddress : Op Nat := .reserve 5 0x91E0F0000000 1 false

def bothAddresses : Op Nat := .reserve 5 0x91E0F0000000 2 false

def secondAddress : Op Nat := .reserve 5 0x91E0F0000001 1 false

structure Crowded (m : Nat) (c : Client Nat) : Prop where
  sound : c.Sound
  initialized : c.initialized = true
  base : c.addressBase = 0x91E0F0000000
  len : c.rangeLen = 2
  ranges : c.ranges = .node .nil ⟨0, 0, 0, some 0⟩ .nil
  member : 0 ∈ c.queue
  state : (c.mem 0).state = .PROBING
  id : (c.mem 0).id = 1
  maxid : c.maxid = UInt32.ofNat m

theorem tryInterval_crowded {c : Client Nat} (hlen : c.rangeLen = 2)
    (hranges : c.ranges = .node .nil ⟨0, 0, 0, some 0⟩ .nil) :
    c.tryInterval 0 2 = .ok (c, none) := by
  unfold Client.tryInterval
  rw [hlen, hranges]
  rfl

theorem drawInterval_crowded {c : Client Nat} (hlen : c.rangeLen = 2)
    (hranges : c.ranges = .node .nil ⟨0, 0, 0, some 0⟩ .nil) (n : Nat) :
    c.drawInterval 2 n = .ok (c.drawn n, none, 0) := by
  induction n generalizing c with
  | zero => rfl
  | succ n ih =>
    have honce : c.drawOnce 2 = .ok (c.drawn 1, none) := by
      have hmod : modulus c.rangeLen 2 = 1 := by
        rw [hlen]
        rfl
      unfold Client.drawOnce
      rw [hmod, if_neg Nat.one_ne_zero, Nat.mod_one]
      exact tryInterval_crowded (c := c.random.2) hlen hranges
    rw [Client.drawInterval, bind_of_ok honce]
    exact ih (c := c.drawn 1) hlen hranges

theorem assignInterval_crowded {c : Client Nat} (hbase : c.addressBase = 0x91E0F0000000)
    (hlen : c.rangeLen = 2) (hranges : c.ranges = .node .nil ⟨0, 0, 0, some 0⟩ .nil) (r : Nat) :
    c.assignInterval r 0x91E0F0000000 2 = .ok (c.drawn 1000, false) := by
  have hfirst : c.attemptInterval 0x91E0F0000000 2 = .ok (c, none) := by
    have hattempts : attempts c.addressBase c.rangeLen 0x91E0F0000000 2 = true := by
      rw [hbase, hlen]
      decide
    have hplace : placeOf c.addressBase 0x91E0F0000000 = 0 := by
      rw [hbase]
      decide
    grind [Client.attemptInterval, tryInterval_crowded]
  have hnot : ¬c.rangeLen.toNat < 2 := by
    rw [hlen]
    decide
  grind [Client.assignInterval, bind_of_ok, drawInterval_crowded]

def Client.reserving (sender : σ) (c : Client σ) : Client σ :=
  { c with maxid := c.maxid + 1 }.newRange (c.maxid + 1) sender

theorem Client.reserving_fields (c : Client σ) (sender : σ) (k : Nat) (note : σ × Notify) :
    (((c.reserving sender).drawn k).addNotify note.1 note.2).initialized = c.initialized ∧
      (((c.reserving sender).drawn k).addNotify note.1 note.2).addressBase = c.addressBase ∧
      (((c.reserving sender).drawn k).addNotify note.1 note.2).rangeLen = c.rangeLen ∧
      (((c.reserving sender).drawn k).addNotify note.1 note.2).ranges = c.ranges := by
  grind [addNotify, drawn, reserving, newRange, monotonic]

theorem Client.reserve_eq {c c₁ : Client σ} {sender : σ} {base : UInt64} {length : UInt32}
    {found : Bool} (hinit : c.initialized = true)
    (hlen : ¬(0xFFFF < length.toNat ∨ c.rangeLen.toNat < length.toNat))
    (hassign : (c.reserving sender).assignInterval c.nextRange base.toNat length.toNat =
      .ok (c₁, found)) :
    c.reserve sender base length false =
      if found then .ok (((c₁.informAcquiring c.nextRange).scheduleTimer
        c.nextRange).startTimer.sendProbe c.nextRange)
      else .ok (c₁.informNotAcquired sender (-1) length.toNat .RESERVE_NOT_AVAILABLE) := by
  unfold Client.reserve
  rw [if_neg (by simp [hinit]), if_neg hlen, if_neg (by decide)]
  exact bind_of_ok hassign _

theorem Crowded.bothAddresses {m : Nat} {c : Client Nat} (h : Crowded m c) :
    ∃ c', c.perform bothAddresses = .ok c' ∧ Crowded (m + 1) c' := by
  have hnot : ¬(0xFFFF < (2 : UInt32).toNat ∨ c.rangeLen.toNat < (2 : UInt32).toNat) := by
    rw [h.len]
    decide
  have hassign : (c.reserving 5).assignInterval c.nextRange (0x91E0F0000000 : UInt64).toNat
      (2 : UInt32).toNat = .ok ((c.reserving 5).drawn 1000, false) := by
    have hbaseNat : (0x91E0F0000000 : UInt64).toNat = 0x91E0F0000000 := by decide
    have hlenNat : (2 : UInt32).toNat = 2 := by decide
    rw [hbaseNat, hlenNat]
    exact assignInterval_crowded (c := c.reserving 5) h.base h.len h.ranges c.nextRange
  have hok : c.perform Maap.bothAddresses = .ok (((c.reserving 5).drawn 1000).informNotAcquired 5
      (-1) (2 : UInt32).toNat .RESERVE_NOT_AVAILABLE) :=
    Client.reserve_eq h.initialized hnot hassign
  obtain ⟨hsound, -⟩ := Client.perform_spec h.sound hok
  have hbumped : Client.Wired { c with maxid := c.maxid + 1 } :=
    h.sound.toWired.congr rfl rfl rfl rfl rfl fun _ => ⟨rfl, rfl⟩
  have hledger := (Client.newRange_spec hbumped (c.maxid + 1) 5).2
  have hpos : 0 ≠ c.nextRange := Nat.ne_of_lt (h.sound.queued.below 0 h.member)
  have hmem : (c.reserving 5).mem 0 = c.mem 0 := update_of_ne hpos ..
  have hfields := c.reserving_fields 5 1000
    (5, ⟨.ACQUIRED, -1, 0, (2 : UInt32).toNat, .RESERVE_NOT_AVAILABLE⟩)
  refine ⟨_, hok, ⟨hsound, ?_, ?_, ?_, ?_, ?_, ?_, ?_, ?_⟩⟩
  · exact hfields.1.trans h.initialized
  · exact hfields.2.1.trans h.base
  · exact hfields.2.2.1.trans h.len
  · exact hfields.2.2.2.trans h.ranges
  · have hmembers := congrArg Ledger.members hledger
    have h0 : 0 ∈ (c.reserving 5).ledger.members := by
      rw [Client.reserving, hmembers]
      exact h.member
    exact h0
  · exact (congrArg Range.state hmem).trans h.state
  · exact (congrArg Range.id hmem).trans h.id
  · have hmaxid : c.maxid + 1 = UInt32.ofNat (m + 1) := by
      rw [h.maxid]
      exact (UInt32.ofNat_add m 1).symm
    exact hmaxid

theorem Client.startTimer_ranges (c : Client σ) : c.startTimer.ranges = c.ranges := by
  grind [startTimer]

theorem assignInterval_second {c : Client Nat} (hbase : c.addressBase = 0x91E0F0000000)
    (hlen : c.rangeLen = 2) (hranges : c.ranges = .node .nil ⟨0, 0, 0, some 0⟩ .nil) (r : Nat) :
    ∃ c₁, c.assignInterval r 0x91E0F0000001 1 = .ok (c₁, true) ∧
      c₁.ranges = (Tree.node .nil ⟨0, 0, 0, some 0⟩
        (.node .nil ⟨c.nextInterval, 1, 1, none⟩ .nil)).setData c.nextInterval (some r) := by
  have hfirst : c.attemptInterval 0x91E0F0000001 1 = .ok ({ c with
      ranges := .node .nil ⟨0, 0, 0, some 0⟩ (.node .nil ⟨c.nextInterval, 1, 1, none⟩ .nil)
      nextInterval := c.nextInterval + 1 }, some ⟨c.nextInterval, 1, 1, none⟩) := by
    have hattempts : attempts c.addressBase c.rangeLen 0x91E0F0000001 1 = true := by
      rw [hbase, hlen]
      decide
    have hplace : placeOf c.addressBase 0x91E0F0000001 = 1 := by
      rw [hbase]
      decide
    unfold Client.attemptInterval
    rw [if_pos hattempts, hplace]
    unfold Client.tryInterval
    rw [hlen, hranges]
    rfl
  have hnot : ¬c.rangeLen.toNat < 1 := by
    rw [hlen]
    decide
  unfold Client.assignInterval
  rw [if_neg hnot, bind_of_ok hfirst]
  exact ⟨_, rfl, rfl⟩

theorem Reserve.added {sender : σ} {attemptBase n : Nat} {late : Prop}
    (hr : Reserve sender attemptBase n late v v') (hlate : ¬late)
    (hslots : v'.slots.length ≠ v.slots.length) :
    v.fresh ∈ v'.members ∧ v'.core v.fresh = Core.fresh (v.maxid + 1) sender ∧
      (∀ a ∈ v.members, a ∈ v'.members) ∧ ∀ a, a ≠ v.fresh → v'.core a = v.core a := by
  cases hr with
  | refused => exact absurd rfl hslots
  | failed x => exact absurd rfl hslots
  | orphan x isLate inserted => exact absurd isLate hlate
  | placed small fits inserted placement =>
    grind

theorem Crowded.secondAddress {c : Client Nat} (h : Crowded (2 ^ 32) c) :
    ∃ c', c.perform secondAddress = .ok c' ∧ ¬c'.QueueRight := by
  have hnot : ¬(0xFFFF < (1 : UInt32).toNat ∨ c.rangeLen.toNat < (1 : UInt32).toNat) := by
    rw [h.len]
    decide
  obtain ⟨c₁, hassign, hranges₁⟩ :=
    assignInterval_second (c := c.reserving 5) h.base h.len h.ranges c.nextRange
  have hassign' : (c.reserving 5).assignInterval c.nextRange (0x91E0F0000001 : UInt64).toNat
      (1 : UInt32).toNat = .ok (c₁, true) := by
    grind
  have hok : c.perform Maap.secondAddress = .ok (((c₁.informAcquiring c.nextRange).scheduleTimer
      c.nextRange).startTimer.sendProbe c.nextRange) :=
    Client.reserve_eq h.initialized hnot hassign'
  generalize hc' : ((c₁.informAcquiring c.nextRange).scheduleTimer
      c.nextRange).startTimer.sendProbe c.nextRange = c' at hok
  refine ⟨c', hok, fun hright => ?_⟩
  have hpos : 0 ≠ c.nextRange := Nat.ne_of_lt (h.sound.queued.below 0 h.member)
  have hlength : c'.ledger.slots.length = 2 := by
    have hranges : c'.ranges = c₁.ranges := by
      rw [← hc']
      exact (Client.startTimer_ranges _).trans (Client.scheduleTimer_ranges _ _)
    dsimp only [Client.ledger, Client.slots]
    rw [List.length_map, hranges, hranges₁, Tree.nodes_setData, List.length_map]
    rfl
  have hbefore : c.ledger.slots.length = 1 := by
    dsimp only [Client.ledger, Client.slots]
    rw [h.ranges]
    rfl
  obtain ⟨hsound, ⟨hinit, -⟩ | ⟨-, hreserve⟩⟩ := Client.perform_spec h.sound hok
  · rw [h.initialized] at hinit
    cases hinit
  · have hlate : ¬c.Late (0x91E0F0000001 : UInt64).toNat (1 : UInt32).toNat := by
      intro hlate
      have hmiss := hlate.attempt (by rw [h.base, h.len]; decide)
      have hplace : placeOf c.addressBase (0x91E0F0000001 : UInt64).toNat = 1 := by
        rw [h.base]
        decide
      rw [hplace, h.ranges] at hmiss
      cases hmiss
    obtain ⟨hnew, hcore, hold, hsame⟩ := hreserve.added hlate (by rw [hlength, hbefore]; decide)
    have hzero := hsame 0 hpos
    have hstate : (c'.mem 0).state ≠ .RELEASED := by
      have : (c'.ledger.core 0).state = .PROBING := by
        rw [hzero]
        exact h.state
      exact fun hreleased => RangeState.noConfusion (this.symm.trans hreleased)
    have hstate' : (c'.mem c.nextRange).state ≠ .RELEASED := by
      have : (c'.ledger.core c.nextRange).state = .PROBING := congrArg Core.state hcore
      exact fun hreleased => RangeState.noConfusion (this.symm.trans hreleased)
    have hid : (c'.ledger.core 0).id = (c'.ledger.core c.nextRange).id := by
      have hone : (c'.ledger.core c.nextRange).id = c.maxid + 1 := congrArg Core.id hcore
      have hwrapped : UInt32.ofNat (2 ^ 32) + 1 = 1 := by decide
      rw [hone, hzero, h.maxid, hwrapped]
      exact h.id
    exact hpos (hright.ids 0 (hold 0 h.member) c.nextRange hnew hstate hstate' hid)

theorem crowded_first : ∃ c, Fallible.run Client.perform (quietClient 7 0)
    [twoAddresses, firstAddress] = .ok c ∧ Crowded 1 c := by
  obtain ⟨c, hrun, hcheck⟩ := exists_of_okAnd (x := Fallible.run Client.perform (quietClient 7 0)
    [twoAddresses, firstAddress]) (p := fun c => c.initialized &&
      c.addressBase = 0x91E0F0000000 && c.rangeLen = 2 &&
      c.ranges = .node .nil ⟨0, 0, 0, some 0⟩ .nil && c.queue = [0] &&
      (c.mem 0).state = .PROBING && (c.mem 0).id = 1 && c.maxid = 1) (by decide +kernel)
  simp only [Bool.and_eq_true, decide_eq_true_eq] at hcheck
  obtain ⟨⟨⟨⟨⟨⟨⟨hinit, hbase⟩, hlen⟩, hranges⟩, hqueue⟩, hstate⟩, hid⟩, hmaxid⟩ := hcheck
  refine ⟨c, hrun, Client.sound_of_run (quietClient_initial 7 0) hrun, hinit, hbase, hlen, hranges,
    ?_, hstate, hid, hmaxid⟩
  rw [hqueue]
  exact List.mem_cons_self

theorem queue_wrong_after_wrap : ∃ ops c', Fallible.run Client.perform (quietClient 7 0) ops =
    .ok c' ∧ ¬c'.QueueRight := by
  obtain ⟨c₁, hrun₁, hcrowded₁⟩ := crowded_first
  obtain ⟨c₂, hrun₂, hcrowded₂⟩ := run_replicate (i := bothAddresses) (P := Crowded)
    (fun _ _ hc => hc.bothAddresses) hcrowded₁ (2 ^ 32 - 1)
  have hcount : 1 + (2 ^ 32 - 1) = 2 ^ 32 := by decide
  rw [hcount] at hcrowded₂
  obtain ⟨c₃, hok, hwrong⟩ := hcrowded₂.secondAddress
  refine ⟨[twoAddresses, firstAddress] ++ (List.replicate (2 ^ 32 - 1) bothAddresses ++
    [secondAddress]), c₃, ?_, hwrong⟩
  rw [run_append, bind_of_ok hrun₁, run_append, bind_of_ok hrun₂]
  exact bind_eq_ok.mpr ⟨c₃, hok, rfl⟩

end Avb4Linux.Maap
