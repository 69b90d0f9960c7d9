import Avb4Linux.Lib.DoublyLinked
import Avb4Linux.Lib.Groups
import Avb4Linux.Lib.Runs
import Avb4Linux.Mrp.Protocols

/-!
# The attribute list in memory

`*_add` and the unlinking of a reclaimed attribute as assignments to `next`, `prev` and
`attrib_list`.
-/

namespace Avb4Linux.Mrp

open Lib Lib.DoublyLinked Lib.Groups Lib.Runs Function
open scoped List

/-- What the list functions of a protocol compare. Only MVRP's tail insertion leaves
the attribute behind the new one as it is (`fixes`). -/
structure ListCode (V T : Type) where
  ops : Ops V
  type : V → T
  less : V → V → Bool
  fixes : Bool := true

inductive MmrpType where
  | SVCREQ | MACVEC
  deriving DecidableEq, Repr

def MmrpValue.type : MmrpValue → MmrpType
  | .svcreq _ => .SVCREQ
  | .macaddr _ => .MACVEC

def mvrpList : ListCode Vid Unit where
  ops := mvrpOps
  type _ := ()
  less v w := v < w
  fixes := false

def mmrpList : ListCode MmrpValue MmrpType where
  ops := mmrpOps
  type := MmrpValue.type
  less := MmrpValue.lt

def msrpList : ListCode MsrpValue MsrpType where
  ops := msrpOps
  type := MsrpValue.type
  less := msrpLt

/-- The heap as far as the list goes: `top` is the next address `malloc` returns. -/
structure AttribList (V : Type) extends Links Nat where
  attrib : Nat → Attrib V
  top : Nat := 0

variable {V T K : Type}

def AttribList.value (s : AttribList V) (a : Nat) : V :=
  (s.attrib a).value

def AttribList.cells (s : AttribList V) : List Nat :=
  LinkedQueue.follow s.next s.top s.head

def AttribList.toList (s : AttribList V) : List (Attrib V) :=
  s.cells.map s.attrib

def AttribList.lookup (s : AttribList V) (same : V → V → Bool) (v : V) :
    Nat → Option Nat → Option Nat
  | 0, _ => none
  | _ + 1, none => none
  | n + 1, some a => if same (s.value a) v then some a else s.lookup same v n (s.next a)

section

variable [DecidableEq T] (c : ListCode V T)

/-- The loop of `*_add` at the attribute `attrib`, where `tail` is `attrib_tail`. -/
def AttribList.addLoop (s : AttribList V) (r : Nat) : Nat → Option Nat → Option Nat → Links Nat
  | 0, _, _ => s.toLinks
  | _ + 1, tail, none => s.append tail r
  | n + 1, tail, some a =>
    if c.type (s.value r) = c.type (s.value a) then
      if c.less (s.value a) (s.value r) then
        match s.next a with
        | none => s.insertAfter c.fixes a r
        | some b =>
          -- a possible tail insertion; `attrib_tail` is not moved
          if c.type (s.value a) = c.type (s.value b) then s.addLoop r n tail (some b)
          else s.insertAfter c.fixes a r
      else s.insertBefore a r
    else s.addLoop r n (some a) (s.next a)

/-- The start of an attribute event: `*_lookup`, then `*_add` or `*_merge`. -/
def AttribList.put (s : AttribList V) (x : Attrib V) : AttribList V :=
  match s.lookup c.ops.same x.value s.top s.head with
  | some a => { s with attrib := update s.attrib a (c.ops.merge s.toList x (s.attrib a)) }
  | none =>
    let r := s.top
    let s := { s with attrib := update s.attrib r x, top := r + 1 }
    { s with toLinks := s.addLoop c r s.top s.head s.head }

/-- What is done to a list: an attribute is added or merged, the machines of one are
advanced or marked, one is unlinked (`*_conditional_reclaim`, and the commands that
prune talkers). -/
inductive ListOp (V : Type) where
  | put (x : Attrib V)
  | machines (a : Nat) (applicant : Applicant) (registrar : Registrar)
  | unlink (a : Nat)

def AttribList.step (s : AttribList V) : ListOp V → AttribList V
  | .put x => s.put c x
  | .machines a applicant registrar =>
    { s with
      attrib := update s.attrib a
        { s.attrib a with applicant := applicant, registrar := registrar } }
  | .unlink a => if a ∈ s.cells then { s with toLinks := s.unlink a } else s

end

def AttribList.start (s : AttribList V) : AttribList V :=
  { s with head := none }

/-- The forward pointers lead through the list to `NULL`, and each backward pointer to
the attribute before. -/
def AttribList.WellFormed (s : AttribList V) : Prop :=
  s.Spells s.cells

structure AttribList.Linked (s : AttribList V) (l : List Nat) : Prop where
  spells : s.Spells l
  below : ∀ a ∈ l, a < s.top

variable {s : AttribList V} {l l₁ l₂ : List Nat} {x : Attrib V}

theorem AttribList.Linked.length_le (h : s.Linked l) : l.length ≤ s.top := by
  have hsub : l ⊆ List.range s.top := fun a ha => List.mem_range.mpr (h.below a ha)
  simpa using (List.subperm_of_subset h.spells.nodup hsub).length_le

theorem AttribList.Linked.cells_eq (h : s.Linked l) : s.cells = l :=
  h.spells.chain.follow_eq h.length_le

theorem AttribList.Linked.toList_eq (h : s.Linked l) : s.toList = l.map s.attrib := by
  rw [AttribList.toList, h.cells_eq]

theorem AttribList.Linked.wellFormed (h : s.Linked l) : s.WellFormed := by
  rw [AttribList.WellFormed, h.cells_eq]
  exact h.spells

theorem AttribList.linked_start (s : AttribList V) : s.start.Linked [] :=
  ⟨rfl, by simp⟩

theorem AttribList.lookup_eq (same : V → V → Bool) (v : V) {p : Option Nat} {n : Nat}
    (h : LinkedQueue.Chain s.next p l) (hn : l.length ≤ n) :
    s.lookup same v n p = l.find? fun a => same (s.value a) v := by
  induction h generalizing n with
  | nil => cases n <;> rfl
  | @cons a l h ih =>
    cases n with
    | zero => simp at hn
    | succ n =>
      rw [AttribList.lookup, ih (Nat.le_of_succ_le_succ hn), List.find?_cons]
      split <;> simp_all

section

variable [DecidableEq T] {c : ListCode V T}

theorem AttribList.addLoop_spells {r n : Nat} {t : Option Nat} (hs : s.Spells (l₁ ++ l₂))
    (hr : r ∉ l₁ ++ l₂) (hn : l₂.length < n) (htail : l₂ = [] → t = l₁.getLast?)
    (hfix : c.fixes = true ∨ ∀ v w, c.type v = c.type w) :
    ∃ m₁ m₂, l₂ = m₁ ++ m₂ ∧ (s.addLoop c r n t l₂.head?).Spells (l₁ ++ (m₁ ++ r :: m₂)) ∧
      insertByType (fun v w => c.type v = c.type w) c.less (l₂.map s.attrib) (s.attrib r) =
        (m₁ ++ r :: m₂).map s.attrib := by
  induction n generalizing l₁ l₂ t with
  | zero => omega
  | succ n ih =>
    cases l₂ with
    | nil =>
      refine ⟨[], [], rfl, ?_, rfl⟩
      rw [List.append_nil] at hs hr
      rw [htail rfl]
      exact spells_append hs hr
    | cons a l₂ =>
      have hnext : s.next a = l₂.head? := (spells_split.mp hs).2.2.head_eq
      rw [List.map_cons, List.head?_cons, AttribList.addLoop, insertByType.eq_def]
      have hsplit : l₁ ++ a :: l₂ = (l₁ ++ [a]) ++ l₂ := by simp
      by_cases htype : c.type (s.value r) = c.type (s.value a)
      · rw [if_pos htype]
        simp only [AttribList.value] at htype ⊢
        simp only [htype, decide_true, if_true]
        by_cases hless : c.less (s.attrib a).value (s.attrib r).value = true
        · simp only [hless, if_true, hnext]
          cases l₂ with
          | nil => exact ⟨[a], [], rfl, spells_insertAfter hs hr (Or.inr rfl), rfl⟩
          | cons b l₂ =>
            by_cases hsame : c.type (s.attrib a).value = c.type (s.attrib b).value
            · obtain ⟨m₁, m₂, hm, hspells, heq⟩ := ih (t := t) (hsplit ▸ hs) (hsplit ▸ hr)
                (Nat.lt_of_succ_lt_succ hn) (by simp)
              refine ⟨a :: m₁, m₂, by simp [hm], ?_, ?_⟩
              · simpa [hsame] using hspells
              · simpa [hsame] using heq
            · refine ⟨[a], b :: l₂, rfl, ?_, by simp [hsame]⟩
              have hf : c.fixes = true := hfix.resolve_right fun h => hsame (h _ _)
              simpa [hsame] using spells_insertAfter hs hr (Or.inl hf)
        · simp only [hless]
          exact ⟨[], a :: l₂, rfl, spells_insertBefore hs hr, rfl⟩
      · rw [if_neg htype]
        obtain ⟨m₁, m₂, hm, hspells, heq⟩ := ih (t := some a) (hsplit ▸ hs) (hsplit ▸ hr)
          (Nat.lt_of_succ_lt_succ hn) (by simp)
        refine ⟨a :: m₁, m₂, by simp [hm], ?_, ?_⟩
        · simpa [hnext] using hspells
        · simp only [AttribList.value] at htype
          simpa [htype] using heq

structure ListCode.Lawful [DecidableEq K] (c : ListCode V T) (key : V → K) : Prop
    extends LawfulOps c.ops key where
  add_eq : ∀ l r, c.ops.add l r = insertByType (fun v w => c.type v = c.type w) c.less l r
  fixes_or : c.fixes = true ∨ ∀ v w, c.type v = c.type w

variable [DecidableEq K] {key : V → K}

theorem opsUpdate_map (ops : Ops V) {v : V} {f : Attrib V → Attrib V} {g : Nat → Attrib V}
    (hnodup : l.Nodup) :
    ops.update v (fun b => some (f b)) (l.map g) =
      match l.find? fun a => ops.same (g a).value v with
      | none => l.map g
      | some a => l.map (update g a (f (g a))) := by
  induction l with
  | nil => rfl
  | cons b l ih =>
    obtain ⟨hb, hl⟩ := List.nodup_cons.mp hnodup
    simp only [List.map_cons, Ops.update, List.find?_cons]
    cases hsame : ops.same (g b).value v with
    | true =>
      have hrest : l.map (update g b (f (g b))) = l.map g :=
        List.map_congr_left fun a ha => update_of_ne (by grind) _ _
      simp [hrest]
    | false =>
      rw [ih hl]
      cases hfind : l.find? fun a => ops.same (g a).value v with
      | none => simp
      | some a =>
        grind

theorem AttribList.Linked.put (hc : c.Lawful key) (h : s.Linked l) (x : Attrib V) :
    ∃ l', (s.put c x).Linked l' ∧ (s.put c x).toList = addOrMerge c.ops x s.toList := by
  have hlookup := s.lookup_eq c.ops.same x.value h.spells.chain h.length_le
  have hfind : c.ops.lookup s.toList x.value =
      (l.find? fun a => c.ops.same (s.value a) x.value).map s.attrib := by
    rw [h.toList_eq, Ops.lookup, List.find?_map]
    rfl
  unfold AttribList.put addOrMerge
  rw [hlookup, hfind]
  cases hat : l.find? fun a => c.ops.same (s.value a) x.value with
  | some a =>
    have hlinked : AttribList.Linked
        { s with attrib := update s.attrib a (c.ops.merge s.toList x (s.attrib a)) } l :=
      ⟨h.spells, h.below⟩
    refine ⟨l, hlinked, ?_⟩
    have hupdate := opsUpdate_map c.ops (v := x.value)
      (f := c.ops.merge s.toList x) (g := s.attrib) h.spells.nodup
    simp only [AttribList.value] at hat
    rw [hat] at hupdate
    rw [hlinked.toList_eq]
    simp only [Option.map_some]
    nth_rewrite 3 [h.toList_eq]
    exact hupdate.symm
  | none =>
    have hr : s.top ∉ l := fun hmem => Nat.lt_irrefl _ (h.below _ hmem)
    let s' : AttribList V := { s with attrib := update s.attrib s.top x, top := s.top + 1 }
    have hs' : s'.Spells ([] ++ l) := h.spells
    have hhead : s'.head = l.head? := h.spells.head_eq
    obtain ⟨m₁, m₂, rfl, hspells, heq⟩ := AttribList.addLoop_spells (t := l.head?) hs'
      (by simpa using hr) (Nat.lt_succ_of_le h.length_le) (by rintro rfl; rfl) hc.fixes_or
    have hlinked : AttribList.Linked
        { s' with toLinks := s'.addLoop c s.top s'.top s'.head s'.head } (m₁ ++ s.top :: m₂) := by
      refine ⟨hhead ▸ hspells, fun a ha => ?_⟩
      have hbelow := h.below a
      grind
    refine ⟨_, hlinked, hlinked.toList_eq.trans ?_⟩
    have hold : (m₁ ++ m₂).map s'.attrib = s.toList := by
      rw [h.toList_eq]
      exact List.map_congr_left fun a ha => update_of_ne (by grind) _ _
    grind [ListCode.Lawful.add_eq, toList]

theorem AttribList.Linked.step (hc : c.Lawful key) (h : s.Linked l) (op : ListOp V) :
    ∃ l', (s.step c op).Linked l' ∧
      ((∃ x, op = .put x ∧ (s.step c op).toList = addOrMerge c.ops x s.toList) ∨
        (∀ x, op ≠ .put x) ∧
          (s.step c op).toList.map Attrib.value <+ s.toList.map Attrib.value) := by
  cases op with
  | put x =>
    obtain ⟨l', hl', heq⟩ := h.put hc x
    exact ⟨l', hl', Or.inl ⟨x, rfl, heq⟩⟩
  | machines a applicant registrar =>
    have hlinked : (s.step c (.machines a applicant registrar)).Linked l := ⟨h.spells, h.below⟩
    refine ⟨l, hlinked, Or.inr ⟨by simp, ?_⟩⟩
    rw [hlinked.toList_eq, h.toList_eq, List.map_map, List.map_map]
    refine (List.map_congr_left fun b _ => ?_) ▸ List.Sublist.refl _
    by_cases hb : b = a
    · subst hb
      simp [AttribList.step]
    · simp [AttribList.step, hb]
  | unlink a =>
    by_cases ha : a ∈ s.cells
    · rw [h.cells_eq] at ha
      obtain ⟨l₁, l₂, rfl⟩ := List.append_of_mem ha
      have hstep : s.step c (.unlink a) = { s with toLinks := s.unlink a } := by
        simp [AttribList.step, h.cells_eq]
      have hlinked : (s.step c (.unlink a)).Linked (l₁ ++ l₂) := by
        rw [hstep]
        exact ⟨spells_unlink h.spells, fun b hb => h.below b (by grind)⟩
      refine ⟨_, hlinked, Or.inr ⟨by simp, ?_⟩⟩
      rw [hlinked.toList_eq, h.toList_eq, hstep]
      simp
    · have hstep : s.step c (.unlink a) = s := if_neg ha
      grind

end

end Avb4Linux.Mrp
