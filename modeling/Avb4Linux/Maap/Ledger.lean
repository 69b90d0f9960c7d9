import Mathlib.Data.List.Perm.Basic
import Mathlib.Data.Set.Insert
import Mathlib.Logic.Relation
import Avb4Linux.Maap.Client

/-!
# What a MAAP client is for

Which ranges there are, which interval each holds and how far its probing has come, without
pointers and times.
-/

namespace Avb4Linux.Maap

open List

structure Slot where
  low : Nat
  high : Nat
  owner : Option Nat
  deriving DecidableEq, Repr

structure InOrder (l : List Slot) : Prop where
  pairwise : l.Pairwise fun a b => a.high < b.low
  low_le_high : ∀ s ∈ l, s.low ≤ s.high

def Inserted (s : Slot) (l l' : List Slot) : Prop :=
  ∃ a b, l = a ++ b ∧ l' = a ++ s :: b ∧ (InOrder l → s.low ≤ s.high → InOrder l')

def Removed (s : Slot) (l l' : List Slot) : Prop :=
  ∃ a b, l = a ++ s :: b ∧ l' = a ++ b

def Handed (s : Slot) (owner : Option Nat) (l l' : List Slot) : Prop :=
  ∃ a b, l = a ++ s :: b ∧ l' = a ++ { s with owner := owner } :: b

def owners (l : List Slot) : List Nat :=
  l.filterMap Slot.owner

variable {l l' : List Slot} {s x : Slot} {o : Option Nat}

theorem mem_owners {r : Nat} : r ∈ owners l ↔ ∃ s ∈ l, s.owner = some r :=
  List.mem_filterMap

theorem Inserted.mem_iff (h : Inserted s l l') : x ∈ l' ↔ x = s ∨ x ∈ l := by
  obtain ⟨a, b, rfl, rfl, -⟩ := h
  simp only [mem_append, mem_cons]
  tauto

theorem Inserted.owners_perm {r : Nat} (h : Inserted s l l') (hr : s.owner = some r) :
    (owners l').Perm (r :: owners l) := by
  obtain ⟨a, b, rfl, rfl, -⟩ := h
  grind [owners]

theorem Inserted.owners_none (h : Inserted s l l') (hr : s.owner = none) :
    owners l' = owners l := by
  obtain ⟨a, b, rfl, rfl, -⟩ := h
  simp only [owners, filterMap_append, filterMap_cons, hr]

theorem Inserted.inOrder (h : Inserted s l l') (hl : InOrder l) (hs : s.low ≤ s.high) :
    InOrder l' := by
  obtain ⟨a, b, -, -, hord⟩ := h
  exact hord hl hs

theorem Removed.mem (h : Removed s l l') (hx : x ∈ l') : x ∈ l := by
  obtain ⟨a, b, rfl, rfl⟩ := h
  simp only [mem_append, mem_cons] at hx ⊢
  tauto

theorem Removed.mem_or (h : Removed s l l') (hx : x ∈ l) : x = s ∨ x ∈ l' := by
  obtain ⟨a, b, rfl, rfl⟩ := h
  simp only [mem_append, mem_cons] at hx ⊢
  tauto

theorem Removed.self_mem (h : Removed s l l') : s ∈ l := by
  obtain ⟨a, b, rfl, rfl⟩ := h
  simp

theorem Removed.owners_perm {r : Nat} (h : Removed s l l') (hr : s.owner = some r) :
    (owners l).Perm (r :: owners l') := by
  obtain ⟨a, b, rfl, rfl⟩ := h
  grind [owners]

theorem Removed.owners_none (h : Removed s l l') (hr : s.owner = none) : owners l' = owners l := by
  obtain ⟨a, b, rfl, rfl⟩ := h
  simp only [owners, filterMap_append, filterMap_cons, hr]

theorem Removed.inOrder (h : Removed s l l') (hl : InOrder l) : InOrder l' := by
  obtain ⟨a, b, rfl, rfl⟩ := h
  have hsub : (a ++ b).Sublist (a ++ s :: b) :=
    (sublist_cons_self s b).append_left a
  exact ⟨hl.pairwise.sublist hsub, fun x hx => hl.low_le_high x (hsub.subset hx)⟩

theorem Handed.self_mem (h : Handed s o l l') : s ∈ l := by
  obtain ⟨a, b, rfl, rfl⟩ := h
  simp

theorem Handed.mem_iff (h : Handed s o l l') (hx : x ≠ s) (hx' : x ≠ { s with owner := o }) :
    x ∈ l' ↔ x ∈ l := by
  obtain ⟨a, b, rfl, rfl⟩ := h
  simp [hx, hx']

theorem Handed.same_interval (h : Handed s o l l') (hx : x ∈ l') :
    ∃ t ∈ l, x.low = t.low ∧ x.high = t.high := by
  obtain ⟨a, b, rfl, rfl⟩ := h
  grind

theorem Handed.owners_perm {r : Nat} (h : Handed s none l l') (hr : s.owner = some r) :
    (owners l).Perm (r :: owners l') := by
  obtain ⟨a, b, rfl, rfl⟩ := h
  grind [owners]

theorem Handed.inOrder (h : Handed s o l l') (hl : InOrder l) : InOrder l' := by
  obtain ⟨a, b, rfl, rfl⟩ := h
  obtain ⟨hpw, hle⟩ := hl
  refine ⟨?_, fun x hx => ?_⟩
  · rw [pairwise_append, pairwise_cons] at hpw ⊢
    grind
  · grind

def unowned (l : List Slot) : Nat :=
  l.countP fun s => s.owner.isNone

theorem unowned_eq_zero : unowned l = 0 ↔ ∀ s ∈ l, s.owner ≠ none := by
  simp [unowned, countP_eq_zero]

theorem unowned_split (a b : List Slot) (s : Slot) :
    unowned (a ++ s :: b) = unowned (a ++ b) + if s.owner.isNone then 1 else 0 := by
  simp only [unowned, countP_append, countP_cons]
  omega

theorem Inserted.unowned_eq (h : Inserted s l l') :
    unowned l' = unowned l + if s.owner.isNone then 1 else 0 := by
  obtain ⟨a, b, rfl, rfl, -⟩ := h
  exact unowned_split a b s

theorem Removed.unowned_eq (h : Removed s l l') :
    unowned l = unowned l' + if s.owner.isNone then 1 else 0 := by
  obtain ⟨a, b, rfl, rfl⟩ := h
  exact unowned_split a b s

theorem Handed.unowned_eq {r : Nat} (h : Handed s none l l') (hr : s.owner = some r) :
    unowned l' = unowned l + 1 := by
  obtain ⟨a, b, rfl, rfl⟩ := h
  rw [unowned_split, unowned_split, hr]
  rfl

structure Core (σ : Type) where
  id : UInt32
  state : RangeState
  counter : Nat
  overlapping : Bool
  sender : σ

@[ext]
structure Ledger (σ : Type) where
  base : UInt64
  len : UInt32
  srcMac : Nat
  destMac : Nat
  slots : List Slot
  members : Set Nat
  core : Nat → Core σ
  log : List Event
  fresh : Nat
  maxid : UInt32

variable {σ : Type} {v v' : Ledger σ} {r : Nat}

def Ledger.setCore (r : Nat) (f : Core σ → Core σ) (v : Ledger σ) : Ledger σ :=
  { v with core := Function.update v.core r (f (v.core r)) }

def Ledger.probe (v : Ledger σ) (low high : Nat) : Packet :=
  intervalPacket v.base v.destMac v.srcMac maapProbe low high

def Core.fresh (id : UInt32) (sender : σ) : Core σ :=
  ⟨id, .PROBING, maapProbeRetransmits, false, sender⟩

structure Placement (base : UInt64) (len : UInt32) (attemptBase n low high : Nat) : Prop where
  ends : high = intervalEnd low n
  inside : high ≤ rangeMax len
  starts : low + n ≤ len.toNat ∨
    attempts base len attemptBase n = true ∧ low = placeOf base attemptBase

inductive Drop (r : Nat) : Ledger σ → Ledger σ → Prop
  | mk {v : Ledger σ} {low high : Nat} {slots : List Slot}
      (removed : Removed ⟨low, high, some r⟩ v.slots slots) :
      Drop r v ({ v with slots := slots }.setCore r fun x => { x with state := .RELEASED })

inductive Move (r : Nat) : Ledger σ → Ledger σ → Prop
  | mk {v : Ledger σ} {old : Slot} {low high : Nat} {slots₁ slots₂ slots₃ : List Slot}
      (probing : (v.core r).state = .PROBING) (owner : old.owner = some r)
      (handed : Handed old none v.slots slots₁)
      (inserted : Inserted ⟨low, high, some r⟩ slots₁ slots₂)
      (removed : Removed { old with owner := none } slots₂ slots₃)
      (placement : Placement v.base v.len 0 (countOf old.low old.high % 2 ^ 16) low high) :
      Move r v ({ v with
        slots := slots₃
        log := v.log ++ [Event.assigned r low high, Event.queued (v.probe low high)] }.setCore r
          fun x => { x with counter := maapProbeRetransmits })

inductive Replace (r : Nat) : Ledger σ → Ledger σ → Prop
  | mk {v : Ledger σ} {old : Slot} {low high : Nat} {slots₁ slots₂ : List Slot}
      (mem : old ∈ v.slots) (owner : old.owner = some r)
      (inserted : Inserted ⟨low, high, some v.fresh⟩ v.slots slots₁)
      (removed : Removed old slots₁ slots₂)
      (placement : Placement v.base v.len 0 (countOf old.low old.high % 2 ^ 16) low high) :
      Replace r v ({ v with
        slots := slots₂
        members := insert v.fresh v.members
        core := Function.update v.core v.fresh (Core.fresh (v.core r).id (v.core r).sender)
        fresh := v.fresh + 1
        log := v.log ++ [Event.assigned v.fresh low high, Event.queued (v.probe low high)] }.setCore r
          fun x => { x with state := .RELEASED })

def Ledger.flag (r : Nat) (b : Bool) (v : Ledger σ) : Ledger σ :=
  v.setCore r fun x => { x with overlapping := b }

inductive Inner : Ledger σ → Ledger σ → Prop
  | queue {v : Ledger σ} (p : Packet) : Inner v { v with log := v.log ++ [.queued p] }
  | flag {v : Ledger σ} (r : Nat) (b : Bool) : Inner v (v.flag r b)
  | waste {v : Ledger σ} (x : Core σ) :
      Inner v { v with core := Function.update v.core v.fresh x, fresh := v.fresh + 1 }
  | drop {v v' : Ledger σ} {r : Nat} (h : Drop r v v') : Inner v v'
  | move {v v' : Ledger σ} {r : Nat} (h : Move r v v') : Inner v v'
  | replace {v v' : Ledger σ} {r : Nat} (h : Replace r v v') : Inner v v'
  | free {v : Ledger σ} {r : Nat} (released : (v.core r).state = .RELEASED) :
      Inner v { v with members := v.members \ {r} }
  | tick {v : Ledger σ} {r low high k : Nat} (slot : ⟨low, high, some r⟩ ∈ v.slots)
      (probing : (v.core r).state = .PROBING) (counter : (v.core r).counter = k + 1) :
      Inner v ({ v with log := v.log ++ [Event.queued (v.probe low high)] }.setCore r
        fun x => { x with counter := k })
  | acquire {v : Ledger σ} {r : Nat} (owned : r ∈ owners v.slots)
      (probing : (v.core r).state = .PROBING) (counter : (v.core r).counter = 0) :
      Inner v ({ v with log := v.log ++ [Event.acquired r] }.setCore r
        fun x => { x with state := .DEFENDING })

inductive Timed : Ledger σ → Ledger σ → Prop
  | queue {v : Ledger σ} (p : Packet) : Timed v { v with log := v.log ++ [.queued p] }
  | free {v : Ledger σ} {r : Nat} (released : (v.core r).state = .RELEASED) :
      Timed v { v with members := v.members \ {r} }
  | tick {v : Ledger σ} {r low high k : Nat} (slot : ⟨low, high, some r⟩ ∈ v.slots)
      (probing : (v.core r).state = .PROBING) (counter : (v.core r).counter = k + 1) :
      Timed v ({ v with log := v.log ++ [Event.queued (v.probe low high)] }.setCore r
        fun x => { x with counter := k })
  | acquire {v : Ledger σ} {r : Nat} (owned : r ∈ owners v.slots)
      (probing : (v.core r).state = .PROBING) (counter : (v.core r).counter = 0) :
      Timed v ({ v with log := v.log ++ [Event.acquired r] }.setCore r
        fun x => { x with state := .DEFENDING })

theorem Timed.inner {v v' : Ledger σ} (h : Timed v v') : Inner v v' := by
  cases h with
  | queue p => exact .queue p
  | free released => exact .free released
  | tick slot probing counter => exact .tick slot probing counter
  | acquire owned probing counter => exact .acquire owned probing counter

theorem Timed.inner_steps {v v' : Ledger σ} (h : Relation.ReflTransGen Timed v v') :
    Relation.ReflTransGen Inner v v' :=
  Relation.ReflTransGen.mono (fun _ _ => Timed.inner) _ _ h

inductive Resolves (p : Packet) (r : Nat) : Ledger σ → Ledger σ → Prop
  | ignore {v : Ledger σ} (wins : compareMacAddresses v.srcMac p.sa = true)
      (equal : (v.core r).state = .PROBING ↔ p.messageType = maapProbe) : Resolves p r v v
  | move {v v' : Ledger σ}
      (loses : ¬(p.messageType = maapProbe ∧ compareMacAddresses v.srcMac p.sa = true))
      (h : Move r v v') : Resolves p r v v'
  | giveUp {v v' : Ledger σ} (probing : (v.core r).state = .PROBING)
      (loses : ¬(p.messageType = maapProbe ∧ compareMacAddresses v.srcMac p.sa = true))
      (h : Drop r v v') : Resolves p r v v'
  | defend {v : Ledger σ} {low high : Nat} (slot : ⟨low, high, some r⟩ ∈ v.slots)
      (defending : (v.core r).state = .DEFENDING) (probe : p.messageType = maapProbe) :
      Resolves p r v { v with log := v.log ++ [.queued (defendPacket v.base v.destMac v.srcMac
        low high p.requestedStartAddress p.requestedCount p.sa)] }
  | replace {v v' : Ledger σ} (defending : (v.core r).state = .DEFENDING)
      (claim : p.messageType ≠ maapProbe) (loses : compareMacAddresses v.srcMac p.sa = false)
      (h : Replace r v v') : Resolves p r v v'
  | quit {v v₁ v' : Ledger σ} (defending : (v.core r).state = .DEFENDING)
      (claim : p.messageType ≠ maapProbe) (loses : compareMacAddresses v.srcMac p.sa = false)
      (same : v₁ = v ∨ ∃ x, v₁ =
        { v with core := Function.update v.core v.fresh x, fresh := v.fresh + 1 })
      (h : Drop r v₁ v') : Resolves p r v v'

def Ledger.flagAll : List Nat → Ledger σ → Ledger σ
  | [], v => v
  | r :: rs, v => flagAll rs (v.flag r true)

inductive ResolvedAll (p : Packet) : List Nat → Ledger σ → Ledger σ → Prop
  | nil {v : Ledger σ} : ResolvedAll p [] v v
  | cons {v v₁ v₂ : Ledger σ} {r : Nat} {rs : List Nat} (marked : (v.core r).overlapping = true)
      (owned : r ∈ owners v.slots) (h : Resolves p r (v.flag r false) v₁)
      (rest : ResolvedAll p rs v₁ v₂) : ResolvedAll p (r :: rs) v v₂

def Handled (p : Packet) (l : List Nat) (v v' : Ledger σ) : Prop :=
  ∃ rs, rs.length = l.length ∧
    ResolvedAll p rs ({ v with log := v.log ++ [Event.handled p] }.flagAll l) v'

inductive Reserve (sender : σ) (attemptBase n : Nat) (late : Prop) : Ledger σ → Ledger σ → Prop
  | refused {v : Ledger σ} : Reserve sender attemptBase n late v v
  | failed {v : Ledger σ} (x : Core σ) :
      Reserve sender attemptBase n late v { v with
        core := Function.update v.core v.fresh x
        fresh := v.fresh + 1
        maxid := v.maxid + 1 }
  | orphan {v : Ledger σ} {low high : Nat} {slots : List Slot} (x : Core σ) (isLate : late)
      (inserted : Inserted ⟨low, high, none⟩ v.slots slots) :
      Reserve sender attemptBase n late v { v with
        slots := slots
        core := Function.update v.core v.fresh x
        fresh := v.fresh + 1
        maxid := v.maxid + 1 }
  | placed {v : Ledger σ} {low high : Nat} {slots : List Slot} (small : n ≤ 0xFFFF)
      (fits : n ≤ v.len.toNat)
      (inserted : Inserted ⟨low, high, some v.fresh⟩ v.slots slots)
      (placement : Placement v.base v.len attemptBase n low high) :
      Reserve sender attemptBase n late v { v with
        slots := slots
        members := insert v.fresh v.members
        core := Function.update v.core v.fresh (Core.fresh (v.maxid + 1) sender)
        fresh := v.fresh + 1
        maxid := v.maxid + 1
        log := v.log ++ [Event.assigned v.fresh low high, Event.queued (v.probe low high)] }

structure Ledger.Held (v : Ledger σ) : Prop where
  nodup : (owners v.slots).Nodup
  owned : ∀ r, r ∈ owners v.slots ↔ r ∈ v.members ∧ (v.core r).state ≠ .RELEASED
  below : ∀ r ∈ v.members, r < v.fresh

@[simp]
theorem Ledger.setCore_slots (f : Core σ → Core σ) : (v.setCore r f).slots = v.slots := rfl

@[simp]
theorem Ledger.setCore_members (f : Core σ → Core σ) : (v.setCore r f).members = v.members := rfl

@[simp]
theorem Ledger.setCore_self (f : Core σ → Core σ) : (v.setCore r f).core r = f (v.core r) :=
  Function.update_self ..

theorem Ledger.setCore_of_ne (f : Core σ → Core σ) {a : Nat} (h : a ≠ r) :
    (v.setCore r f).core a = v.core a :=
  Function.update_of_ne h ..

theorem Ledger.Held.setCore (h : v.Held) {f : Core σ → Core σ}
    (hf : (f (v.core r)).state = .RELEASED ↔ (v.core r).state = .RELEASED) :
    (v.setCore r f).Held := by
  refine ⟨h.nodup, fun a => (h.owned a).trans (and_congr_right fun _ => ?_), h.below⟩
  grind [setCore_self, setCore_of_ne]

theorem Ledger.Held.log (h : v.Held) (log : List Event) : { v with log := log }.Held :=
  ⟨h.nodup, h.owned, h.below⟩

theorem Ledger.Held.not_mem_fresh (h : v.Held) : v.fresh ∉ v.members := fun hmem =>
  Nat.lt_irrefl _ (h.below _ hmem)

theorem Ledger.Held.waste (h : v.Held) (x : Core σ) :
    { v with core := Function.update v.core v.fresh x, fresh := v.fresh + 1 }.Held := by
  refine ⟨h.nodup, fun a => (h.owned a).trans (and_congr_right fun ha => ?_), fun a ha => ?_⟩
  · grind [not_mem_fresh, Function.update_of_ne]
  · exact Nat.lt_succ_of_lt (h.below a ha)

theorem Drop.held (h : v.Held) (hd : Drop r v v') : v'.Held := by
  obtain ⟨hrem⟩ := hd
  have hperm := hrem.owners_perm rfl
  have hnodup := nodup_cons.mp (hperm.nodup_iff.mp h.nodup)
  refine ⟨hnodup.2, fun a => ?_, h.below⟩
  have howned : a ∈ r :: owners _ ↔ _ := hperm.mem_iff.symm.trans (h.owned a)
  by_cases ha : a = r
  · subst ha
    simp [hnodup.1]
  · rw [Ledger.setCore_of_ne _ ha]
    rw [mem_cons, or_iff_right ha] at howned
    exact howned

theorem Move.held (h : v.Held) (hm : Move r v v') : v'.Held := by
  obtain ⟨-, howner, hhand, hins, hrem, -⟩ := hm
  have hperm := (hhand.owners_perm howner).trans
    ((hins.owners_perm rfl).symm.trans (List.Perm.of_eq (hrem.owners_none rfl).symm))
  have hslots : { v with slots := _ }.Held :=
    ⟨hperm.nodup_iff.mp h.nodup, fun a => hperm.mem_iff.symm.trans (h.owned a), h.below⟩
  exact (hslots.log _).setCore Iff.rfl

theorem Replace.held (h : v.Held) (hr : Replace r v v') : v'.Held := by
  obtain ⟨hold, howner, hins, hrem, -⟩ := hr
  have hperm := (hins.owners_perm rfl).symm.trans (hrem.owners_perm howner)
  have hrmem : r ∈ owners v.slots := mem_owners.mpr ⟨_, hold, howner⟩
  have hfresh : v.fresh ∉ owners v.slots := fun hmem => h.not_mem_fresh ((h.owned _).mp hmem).1
  have hrne : r ≠ v.fresh := fun heq => hfresh (heq ▸ hrmem)
  have hnodup := nodup_cons.mp (hperm.nodup_iff.mp (nodup_cons.mpr ⟨hfresh, h.nodup⟩))
  refine ⟨hnodup.2, fun a => ?_, fun a ha => ?_⟩
  · have howned : a ∈ v.fresh :: owners v.slots ↔ a ∈ r :: owners _ := hperm.mem_iff
    rw [mem_cons, mem_cons, h.owned] at howned
    by_cases har : a = r
    · subst har
      simp [hnodup.1]
    · rw [Ledger.setCore_of_ne _ har, or_iff_right har] at *
      by_cases haf : a = v.fresh
      · subst haf
        simpa [Core.fresh] using howned
      · simp_all
  · rcases ha with rfl | ha
    · exact Nat.lt_succ_self _
    · exact Nat.lt_succ_of_lt (h.below a ha)

theorem Resolves.held {p : Packet} (h : v.Held) (hr : Resolves p r v v') : v'.Held := by
  cases hr with
  | ignore => exact h
  | move loses hm => exact hm.held h
  | giveUp probing loses hd => exact hd.held h
  | defend => exact h.log _
  | replace defending claim loses hrep => exact hrep.held h
  | quit defending claim loses same hd =>
    rcases same with rfl | ⟨x, rfl⟩
    · exact hd.held h
    · exact hd.held (h.waste x)

theorem Reserve.held {sender : σ} {attemptBase n : Nat} {late : Prop} (h : v.Held)
    (hr : Reserve sender attemptBase n late v v') : v'.Held := by
  cases hr with
  | refused => exact h
  | failed x => exact ⟨(h.waste x).nodup, (h.waste x).owned, (h.waste x).below⟩
  | orphan x late inserted =>
    have hsame := inserted.owners_none rfl
    refine ⟨?_, fun a => ?_, (h.waste x).below⟩
    · dsimp only
      rw [hsame]
      exact h.nodup
    · dsimp only
      rw [hsame]
      exact (h.waste x).owned a
  | placed small fits inserted placement =>
    have hperm := inserted.owners_perm rfl
    have hfresh : v.fresh ∉ owners v.slots := fun hmem =>
      h.not_mem_fresh ((h.owned _).mp hmem).1
    refine ⟨hperm.nodup_iff.mpr (nodup_cons.mpr ⟨hfresh, h.nodup⟩), fun a => ?_,
      fun a ha => ?_⟩
    · dsimp only
      rw [hperm.mem_iff, mem_cons, h.owned]
      grind [Core.fresh]
    · rcases ha with rfl | ha
      · exact Nat.lt_succ_self _
      · exact Nat.lt_succ_of_lt (h.below a ha)

theorem Inner.held (h : v.Held) (hi : Inner v v') : v'.Held := by
  cases hi with
  | queue p => exact h.log _
  | flag r b => exact h.setCore Iff.rfl
  | waste x => exact h.waste x
  | drop hd => exact hd.held h
  | move hm => exact hm.held h
  | replace hr => exact hr.held h
  | free released =>
    refine ⟨h.nodup, fun a => (h.owned a).trans ?_, fun a ha => h.below a ha.1⟩
    grind
  | tick slot probing counter => exact (h.log _).setCore Iff.rfl
  | acquire owned probing counter =>
    refine (h.log _).setCore ?_
    simp [probing]

theorem Inner.held_of_steps (h : v.Held) (hs : Relation.ReflTransGen Inner v v') : v'.Held := by
  induction hs with
  | refl => exact h
  | tail _ hi ih => exact hi.held ih

end Avb4Linux.Maap
