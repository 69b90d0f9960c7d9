import Avb4Linux.Lib.Runs
import Mathlib.Data.List.Sort
import Mathlib.Data.Set.Card

/-!
# Sets of EUI-64 values

`daemons/common/eui64set.c`.
-/

namespace Avb4Linux.Eui64

open List Lib.Runs Function
open scoped List

variable {P : Type}

structure Entry (P : Type) where
  eui64 : UInt64
  p : P
  deriving DecidableEq, Repr

/-- `qsort` and `bsearch` with `eui64set_compare`. -/
structure Stdlib (P : Type) where
  qsort : List (Entry P) → List (Entry P)
  bsearch : UInt64 → List (Entry P) → Option Nat

def Ascending (l : List (Entry P)) : Prop :=
  l.Pairwise fun a b => a.eui64 ≤ b.eui64

/-- What the C standard says of them. -/
structure Stdlib.Conforms (lib : Stdlib P) : Prop where
  perm : ∀ l, lib.qsort l ~ l
  ascending : ∀ l, Ascending (lib.qsort l)
  found : ∀ k l i, Ascending l → lib.bsearch k l = some i → ∃ e, l[i]? = some e ∧ e.eui64 = k
  missed : ∀ k l, Ascending l → lib.bsearch k l = none → ∀ e ∈ l, e.eui64 ≠ k

def stableLib (P : Type) : Stdlib P where
  qsort := insertionSort fun a b => a.eui64 ≤ b.eui64
  bsearch k l := l.findIdx? fun e => e.eui64 = k

theorem stableLib_conforms (P : Type) : (stableLib P).Conforms where
  perm l := perm_insertionSort _ l
  ascending l := by
    have : Std.Total fun a b : Entry P => a.eui64 ≤ b.eui64 := ⟨fun a b => UInt64.le_total a.eui64 b.eui64⟩
    have : IsTrans (Entry P) fun a b => a.eui64 ≤ b.eui64 := ⟨fun _ _ _ => UInt64.le_trans⟩
    exact pairwise_insertionSort _ l
  found k l i _ h := by
    obtain ⟨hlt, hk, -⟩ := findIdx?_eq_some_iff_getElem.mp h
    exact ⟨l[i], getElem?_eq_getElem hlt, by simpa using hk⟩
  missed k l _ h e he := by simpa using findIdx?_eq_none_iff.mp h e he

/-- The first `num_entries` elements of the storage, and `max_entries`. -/
structure EuiSet (P : Type) where
  maxEntries : Int
  entries : List (Entry P) := []

def EuiSet.numEntries (s : EuiSet P) : Nat :=
  s.entries.length

def EuiSet.insert (s : EuiSet P) (value : UInt64) (p : P) : EuiSet P × Bool :=
  if (s.numEntries : Int) < s.maxEntries then
    ({ s with entries := s.entries ++ [⟨value, p⟩] }, true)
  else (s, false)

def EuiSet.sort (lib : Stdlib P) (s : EuiSet P) : EuiSet P :=
  { s with entries := lib.qsort s.entries }

def EuiSet.insertAndSort (lib : Stdlib P) (s : EuiSet P) (value : UInt64) (p : P) :
    EuiSet P × Bool :=
  let r := s.insert value p
  if r.2 then (r.1.sort lib, r.2) else r

def EuiSet.find (lib : Stdlib P) (s : EuiSet P) (value : UInt64) : Option (Entry P) :=
  (lib.bsearch value s.entries).bind fun i => s.entries[i]?

/-- `~((uint64_t) 0)`. -/
def highest : UInt64 := 0xFFFFFFFFFFFFFFFF

def EuiSet.removeAndSort (lib : Stdlib P) (s : EuiSet P) (value : UInt64) : EuiSet P × Bool :=
  match lib.bsearch value s.entries with
  | none => (s, false)
  | some i =>
    let s := { s with entries := s.entries.modify i fun e => { e with eui64 := highest } }
    let s := s.sort lib
    ({ s with entries := s.entries.dropLast }, true)

def EuiSet.clear (s : EuiSet P) : EuiSet P :=
  { s with entries := [] }

inductive Op (P : Type) where
  | insert (k : UInt64) (p : P)
  | remove (k : UInt64)
  | clear

def EuiSet.step (lib : Stdlib P) (s : EuiSet P) : Op P → EuiSet P
  | .insert k p => (s.insertAndSort lib k p).1
  | .remove k => (s.removeAndSort lib k).1
  | .clear => s.clear

abbrev KeyMap (P : Type) := UInt64 → Option P

noncomputable def count (m : KeyMap P) : Nat :=
  Set.ncard {k | m k ≠ none}

open Classical in
noncomputable def mapStep (maxEntries : Int) (m : KeyMap P) : Op P → KeyMap P
  | .insert k p => if (count m : Int) < maxEntries then update m k (some p) else m
  | .remove k => update m k none
  | .clear => fun _ => none

/-- A set beside the map it should be. -/
noncomputable def bothStep (lib : Stdlib P) (x : EuiSet P × KeyMap P) (op : Op P) :
    EuiSet P × KeyMap P :=
  (x.1.step lib op, mapStep x.1.maxEntries x.2 op)

def bothStart (P : Type) (maxEntries : Int) : EuiSet P × KeyMap P :=
  ({ maxEntries := maxEntries }, fun _ => none)

/-- What can be observed agrees: lookups with their payloads, the count, and whether an
insertion fails. -/
structure Agrees (lib : Stdlib P) (x : EuiSet P × KeyMap P) : Prop where
  find : ∀ k, x.1.find lib k = (x.2 k).map fun p => ⟨k, p⟩
  count : x.1.numEntries = count x.2
  full : ∀ k p, (x.1.insertAndSort lib k p).2 = false ↔ x.1.maxEntries ≤ Eui64.count x.2

def Absent (m : KeyMap P) : Op P → Prop
  | .insert k _ => m k = none
  | _ => True

/-- A removal does not meet the largest key with another payload. -/
def Safe (m : KeyMap P) : Op P → Prop
  | .remove k => k = highest ∨ m k = none ∨ m highest = none ∨ m k = m highest
  | _ => True

structure Inv (x : EuiSet P × KeyMap P) : Prop where
  ascending : Ascending x.1.entries
  keys : (x.1.entries.map Entry.eui64).Nodup
  mem_iff : ∀ e, e ∈ x.1.entries ↔ x.2 e.eui64 = some e.p

variable {lib : Stdlib P} {x : EuiSet P × KeyMap P}

theorem Inv.count_eq (h : Inv x) : x.1.numEntries = count x.2 := by
  have hset : {k | x.2 k ≠ none} = ↑(x.1.entries.map Entry.eui64).toFinset := by
    ext k
    simp only [Set.mem_ofPred_eq, coe_toFinset, mem_map, Option.ne_none_iff_exists]
    constructor
    · rintro ⟨p, hp⟩
      exact ⟨⟨k, p⟩, (h.mem_iff _).mpr hp.symm, rfl⟩
    · rintro ⟨e, he, rfl⟩
      exact ⟨e.p, ((h.mem_iff e).mp he).symm⟩
  rw [count, hset, Set.ncard_coe_finset, toFinset_card_of_nodup h.keys, length_map]
  rfl

theorem Inv.find_eq (h : Inv x) (hlib : lib.Conforms) (k : UInt64) :
    x.1.find lib k = (x.2 k).map fun p => ⟨k, p⟩ := by
  unfold EuiSet.find
  cases hb : lib.bsearch k x.1.entries with
  | none =>
    have hmiss := hlib.missed k _ h.ascending hb
    cases hk : x.2 k with
    | none => rfl
    | some p => exact absurd rfl (hmiss ⟨k, p⟩ ((h.mem_iff _).mpr hk))
  | some i =>
    obtain ⟨e, he, rfl⟩ := hlib.found k _ i h.ascending hb
    have hmem := (h.mem_iff e).mp (mem_of_getElem? he)
    rw [Option.bind_some, he, hmem]
    rfl

theorem Inv.agrees (h : Inv x) (hlib : lib.Conforms) : Agrees lib x := by
  refine ⟨h.find_eq hlib, h.count_eq, fun k p => ?_⟩
  grind [count_eq, EuiSet.insertAndSort, EuiSet.insert, Bool.false_eq_true, Int.not_lt]

theorem Inv.insert (h : Inv x) (hlib : lib.Conforms) {k : UInt64} {p : P} (hk : x.2 k = none) :
    Inv (bothStep lib x (.insert k p)) := by
  unfold bothStep EuiSet.step EuiSet.insertAndSort EuiSet.insert mapStep
  rw [h.count_eq]
  by_cases hroom : (Eui64.count x.2 : Int) < x.1.maxEntries
  · simp only [if_pos hroom, if_true]
    have hperm := hlib.perm (x.1.entries ++ [⟨k, p⟩])
    have hnew : ∀ e ∈ x.1.entries, e.eui64 ≠ k := by
      rintro e he rfl
      exact absurd ((h.mem_iff e).mp he) (by simp [hk])
    refine ⟨hlib.ascending _, (hperm.map _).nodup_iff.mpr ?_, fun e => hperm.mem_iff.trans ?_⟩
    · rw [map_append, nodup_append]
      refine ⟨h.keys, by simp, ?_⟩
      simpa using hnew
    · rw [mem_append, h.mem_iff, mem_singleton, Entry.mk.injEq]
      grind
  · simpa [hroom] using h

theorem le_highest (k : UInt64) : k ≤ highest := by
  rw [UInt64.le_iff_toNat_le]
  have hk := k.toNat_lt
  have hh : highest.toNat = 2 ^ 64 - 1 := rfl
  omega

theorem Inv.removed (h : Inv x) (hlib : lib.Conforms) (k : UInt64) :
    x.2 k = none ∧ x.1.step lib (.remove k) = x.1 ∨
      ∃ l₁ p l₂ l last, x.2 k = some p ∧ x.1.entries = l₁ ++ ⟨k, p⟩ :: l₂ ∧
        lib.qsort (l₁ ++ ⟨highest, p⟩ :: l₂) = l ++ [last] ∧ last.eui64 = highest ∧
        x.1.step lib (.remove k) = { x.1 with entries := l } := by
  unfold EuiSet.step EuiSet.removeAndSort EuiSet.sort
  cases hb : lib.bsearch k x.1.entries with
  | none =>
    refine Or.inl ⟨?_, by simp only [hb]⟩
    by_contra hk
    obtain ⟨p, hp⟩ := Option.ne_none_iff_exists'.mp hk
    exact hlib.missed k _ h.ascending hb ⟨k, p⟩ ((h.mem_iff _).mpr hp) rfl
  | some i =>
    obtain ⟨e, he, rfl⟩ := hlib.found k _ i h.ascending hb
    obtain ⟨hi, hget⟩ := List.getElem?_eq_some_iff.mp he
    have hsplit : x.1.entries = x.1.entries.take i ++ e :: x.1.entries.drop (i + 1) := by
      rw [← hget, getElem_cons_drop, take_append_drop]
    have hlen : (x.1.entries.take i).length = i := length_take_of_le (Nat.le_of_lt hi)
    generalize hl₁ : x.1.entries.take i = l₁ at hsplit hlen
    generalize x.1.entries.drop (i + 1) = l₂ at hsplit
    have hmodify : x.1.entries.modify i (fun e => { e with eui64 := highest }) =
        l₁ ++ ⟨highest, e.p⟩ :: l₂ := by
      rw [modify_eq_take_drop, hl₁, hsplit, ← hlen, drop_left]
      rfl
    have hperm := hlib.perm (l₁ ++ ⟨highest, e.p⟩ :: l₂)
    obtain hnil | ⟨l, last, hlast⟩ := eq_nil_or_concat' (lib.qsort (l₁ ++ ⟨highest, e.p⟩ :: l₂))
    · rw [hnil] at hperm
      simp at hperm
    refine Or.inr ⟨l₁, e.p, l₂, l, last, (h.mem_iff e).mp (mem_of_getElem? he), hsplit, hlast, ?_, ?_⟩
    · -- the last entry is at least the one that was given the largest key
      have hmem : (⟨highest, e.p⟩ : Entry P) ∈ l ++ [last] := by
        rw [← hlast, hperm.mem_iff]
        simp
      rcases mem_append.mp hmem with hmem | hmem
      · have hasc := hlib.ascending (l₁ ++ ⟨highest, e.p⟩ :: l₂)
        rw [hlast] at hasc
        exact UInt64.le_antisymm (le_highest _) ((pairwise_append.mp hasc).2.2 _ hmem last (by simp))
      · rw [← mem_singleton.mp hmem]
    · simp only [hb, hmodify, hlast, dropLast_concat]

theorem Inv.remove (h : Inv x) (hlib : lib.Conforms) {k : UInt64} (hsafe : Safe x.2 (.remove k)) :
    Inv (bothStep lib x (.remove k)) := by
  rcases h.removed hlib k with ⟨hk, heq⟩ | ⟨l₁, p, l₂, l, last, hk, hsplit, hsort, hlast, heq⟩
  · have hsame : update x.2 k none = x.2 := by rw [← hk, update_eq_self]
    simp only [bothStep, mapStep, heq, hsame]
    exact h
  have hperm := hlib.perm (l₁ ++ ⟨highest, p⟩ :: l₂)
  have hkeys := h.keys
  rw [hsplit, map_append, map_cons, nodup_middle, nodup_cons, ← map_append] at hkeys
  have hrest (e : Entry P) : e ∈ l₁ ++ l₂ ↔ x.2 e.eui64 = some e.p ∧ e.eui64 ≠ k := by
    rw [← h.mem_iff, hsplit]
    grind
  -- every entry with the largest key is the one to be forgotten
  have hforget : last = ⟨highest, p⟩ := by
    have hmem : last ∈ l₁ ++ ⟨highest, p⟩ :: l₂ := by
      rw [← hperm.mem_iff, hsort]
      simp
    by_cases hnew : last = ⟨highest, p⟩
    · exact hnew
    have hold := (hrest last).mp (by grind)
    rw [hlast] at hold
    rcases hsafe with rfl | hnone | hnone | hsame
    · exact absurd rfl hold.2
    · rw [hk] at hnone
      cases hnone
    · rw [hnone] at hold
      cases hold.1
    · rw [← hsame, hk, Option.some.injEq] at hold
      rw [hold.1, ← hlast]
  have hleft : l ~ l₁ ++ l₂ := by
    rw [hsort, hforget] at hperm
    have hfront := (perm_append_comm.symm.trans hperm).trans perm_middle
    exact (perm_cons _).mp hfront
  simp only [bothStep, mapStep, heq]
  refine ⟨?_, (hleft.map _).nodup_iff.mpr hkeys.2, fun e => hleft.mem_iff.trans ?_⟩
  · have hasc := hlib.ascending (l₁ ++ ⟨highest, p⟩ :: l₂)
    rw [hsort] at hasc
    exact (pairwise_append.mp hasc).1
  · grind

theorem Inv.step (h : Inv x) (hlib : lib.Conforms) {op : Op P} (habsent : Absent x.2 op)
    (hsafe : Safe x.2 op) : Inv (bothStep lib x op) := by
  cases op with
  | insert k p => exact h.insert hlib habsent
  | remove k => exact h.remove hlib hsafe
  | clear => exact ⟨Pairwise.nil, nodup_nil, by simp [bothStep, EuiSet.step, EuiSet.clear, mapStep]⟩

/-- A stable sort forgets the entry of the largest key that was there before. -/
theorem safe_of_agrees (h : Inv x) {op : Op P}
    (hgood : Agrees (stableLib P) (bothStep (stableLib P) x op)) : Safe x.2 op := by
  cases op with
  | remove k =>
    by_contra hunsafe
    simp only [Safe, not_or] at hunsafe
    obtain ⟨hkh, hknone, hhnone, hne⟩ := hunsafe
    have hlib := stableLib_conforms P
    rcases h.removed hlib k with ⟨hk, -⟩ | ⟨l₁, p, l₂, l, last, hk, hsplit, hsort, hlast, heq⟩
    · exact hknone hk
    obtain ⟨p', hp'⟩ := Option.ne_none_iff_exists'.mp hhnone
    have hpp : p ≠ p' := fun h => hne (by rw [hk, hp', h])
    have hmem : (⟨highest, p'⟩ : Entry P) ∈ x.1.entries := (h.mem_iff _).mpr hp'
    have hbehind : (⟨highest, p'⟩ : Entry P) ∈ l₂ := by
      have hasc := h.ascending
      rw [hsplit] at hasc hmem
      rcases mem_append.mp hmem with hl₁ | hl₂
      · have hle := (pairwise_append.mp hasc).2.2 _ hl₁ ⟨k, p⟩ mem_cons_self
        exact absurd (UInt64.le_antisymm (le_highest k) hle) hkh
      · exact (mem_cons.mp hl₂).resolve_left fun h => hkh (Entry.mk.inj h).1.symm
    have hpair : [⟨highest, p⟩, ⟨highest, p'⟩] <+ l ++ [last] := by
      rw [← hsort]
      refine pair_sublist_insertionSort (UInt64.le_refl highest) ?_
      exact ((singleton_sublist.mpr hbehind).cons_cons _).trans (sublist_append_right _ _)
    have hfirst : (⟨highest, p⟩ : Entry P) ∈ l := by
      obtain ⟨m₁, m₂, hm, hm₁, hm₂⟩ := sublist_append_iff.mp hpair
      cases m₁ with
      | nil =>
        rw [nil_append] at hm
        rw [← hm] at hm₂
        exact absurd hm₂.length_le (by simp)
      | cons a m₁ =>
        rw [cons_append, cons.injEq] at hm
        exact hm.1 ▸ hm₁.subset mem_cons_self
    have hfind := hgood.find highest
    have hstill : update x.2 k none highest = some p' := by rw [update_of_ne (Ne.symm hkh), hp']
    have hfound : (⟨highest, p'⟩ : Entry P) ∈ l := by
      simp only [bothStep, mapStep, heq, hstill, EuiSet.find, Option.map_some] at hfind
      obtain ⟨i, -, hi⟩ := Option.bind_eq_some_iff.mp hfind
      exact mem_of_getElem? hi
    -- three entries with the largest key, where there are two
    have hperm := hlib.perm (l₁ ++ ⟨highest, p⟩ :: l₂)
    rw [hsort] at hperm
    have hcount := (hperm.map Entry.eui64).count_eq highest
    have hkeys := h.keys
    rw [hsplit, map_append, map_cons, nodup_middle, nodup_cons, ← map_append] at hkeys
    have hone : ((l₁ ++ l₂).map Entry.eui64).count highest ≤ 1 := nodup_iff_count_le_one.mp hkeys.2 _
    have htwo : 2 ≤ (l.map Entry.eui64).count highest := by
      have hsub : [⟨highest, p⟩, ⟨highest, p'⟩] <+~ l :=
        subperm_of_subset (by simp [hpp]) (by simp [hfirst, hfound])
      simpa [List.count, countP_map, Function.comp_def] using hsub.countP_le fun e => e.eui64 == highest
    simp only [map_append, map_cons, map_nil, count_append, hlast, count_cons_self, count_nil]
      at hcount hone
    omega
  | _ => trivial

theorem along_bothStep (R : KeyMap P → Op P → Prop) (x : EuiSet P × KeyMap P) (ops : List (Op P)) :
    Along (bothStep lib) (fun x => R x.2) x ops ↔ Along (mapStep x.1.maxEntries) R x.2 ops := by
  induction ops generalizing x with
  | nil => rfl
  | cons op ops ih =>
    have hmax : (x.1.step lib op).maxEntries = x.1.maxEntries := by
      unfold EuiSet.step EuiSet.insertAndSort EuiSet.insert EuiSet.removeAndSort EuiSet.sort
        EuiSet.clear
      grind
    simp only [Along, ih, bothStep, hmax]

/-- With every conforming library the set is the map throughout a run that inserts only
absent values, exactly if no removal meets the largest key with another payload. -/
theorem eui64set_refines_iff (maxEntries : Int) (ops : List (Op P))
    (habsent : Along (mapStep maxEntries) Absent (fun _ => none) ops) :
    (∀ lib : Stdlib P, lib.Conforms → ∀ js, js <+: ops →
        Agrees lib (run (bothStep lib) (bothStart P maxEntries) js)) ↔
      Along (mapStep maxEntries) Safe (fun _ => none) ops := by
  have hstart : Inv (bothStart P maxEntries) := ⟨Pairwise.nil, nodup_nil, by simp [bothStart]⟩
  constructor
  · intro h
    have hsafe := (prefixes_good_iff_within (fun x => Absent x.2) Inv (Agrees (stableLib P))
      (fun x hx => hx.agrees (stableLib_conforms P))
      (fun x op ha hs hx => hx.step (stableLib_conforms P) ha hs)
      (fun x op _ hx hgood => safe_of_agrees hx hgood) _ ops hstart
      ((along_bothStep Absent _ ops).mpr habsent)).mp (h _ (stableLib_conforms P))
    exact (along_bothStep Safe _ ops).mp hsafe
  · intro hsafe lib hlib js hjs
    have hok : Along (bothStep lib) (fun x op => Absent x.2 op ∧ Safe x.2 op)
        (bothStart P maxEntries) ops :=
      ((along_bothStep Absent _ ops).mpr habsent).and ((along_bothStep Safe _ ops).mpr hsafe)
    have hinv : Inv (run (bothStep lib) (bothStart P maxEntries) js) :=
      run_invariant (fun x op hop hx => hx.step hlib hop.1 hop.2) _ js hstart (hok.initial hjs)
    exact hinv.agrees hlib

theorem eui64set_refines_after_clear :
    Along (mapStep 1) Absent (fun _ => none) [.insert highest (), .clear] ∧
      ((∀ lib : Stdlib Unit, lib.Conforms → ∀ js, js <+: [.insert highest (), .clear] →
        Agrees lib (run (bothStep lib) (bothStart Unit 1) js)) ↔
      Along (mapStep 1) Safe (fun _ => none) [.insert highest (), .clear]) := by
  have habsent : Along (mapStep 1) Absent (fun _ => none) [.insert highest (), .clear] :=
    ⟨rfl, trivial, trivial⟩
  exact ⟨habsent, eui64set_refines_iff 1 _ habsent⟩

/-- The largest value is a member with payload 1; once 5 is removed, a lookup of the
largest value returns the payload of 5. -/
theorem eui64set_finds_removed_payload :
    (stableLib Nat).Conforms ∧
      Along (mapStep 4) Absent (fun _ => none) [.insert highest 1, .insert 5 2, .remove 5] ∧
      (run (EuiSet.step (stableLib Nat)) { maxEntries := 4 }
        [.insert highest 1, .insert 5 2, .remove 5]).find (stableLib Nat) highest =
        some ⟨highest, 2⟩ := by
  refine ⟨stableLib_conforms Nat, ⟨rfl, ?_, trivial, trivial⟩, by decide +kernel⟩
  simp only [Absent, mapStep]
  split
  · exact update_of_ne (by decide : (5 : UInt64) ≠ highest) _ _
  · rfl

end Avb4Linux.Eui64
