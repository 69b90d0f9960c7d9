import Avb4Linux.Maap.Handlers

/-!
# Invariants of the ledger

Which properties of ledgers every operation but a reservation keeps.
-/

namespace Avb4Linux.Maap

variable {σ : Type} {v v' : Ledger σ} {r : Nat} {P : Ledger σ → Prop}

structure Ledger.Alike (v v' : Ledger σ) : Prop where
  slots : v'.slots = v.slots
  len : v'.len = v.len
  id : ∀ a ∈ owners v.slots, (v'.core a).id = (v.core a).id
  sender : ∀ a ∈ owners v.slots, (v'.core a).sender = (v.core a).sender

theorem Ledger.Alike.log (log : List Event) : v.Alike { v with log := log } :=
  ⟨rfl, rfl, fun _ _ => rfl, fun _ _ => rfl⟩

theorem Ledger.Alike.setCore {f : Core σ → Core σ} (hid : (f (v.core r)).id = (v.core r).id)
    (hsender : (f (v.core r)).sender = (v.core r).sender) : v.Alike (v.setCore r f) := by
  have hcore : ∀ a, ((v.setCore r f).core a).id = (v.core a).id ∧
      ((v.setCore r f).core a).sender = (v.core a).sender := by
    grind [setCore_self, setCore_of_ne]
  exact ⟨rfl, rfl, fun a _ => (hcore a).1, fun a _ => (hcore a).2⟩

theorem Ledger.Held.fresh_not_owner (h : v.Held) : v.fresh ∉ owners v.slots := fun hmem =>
  h.not_mem_fresh ((h.owned _).mp hmem).1

theorem Ledger.Alike.waste (h : v.Held) (x : Core σ) :
    v.Alike { v with core := Function.update v.core v.fresh x, fresh := v.fresh + 1 } := by
  have hcore : ∀ a ∈ owners v.slots, Function.update v.core v.fresh x a = v.core a := by
    grind [Held.fresh_not_owner, Function.update_of_ne]
  refine ⟨rfl, rfl, fun a ha => ?_, fun a ha => ?_⟩
  all_goals grind

structure Kept (P : Ledger σ → Prop) : Prop where
  alike : ∀ {v v'}, Ledger.Alike v v' → P v → P v'
  drop : ∀ {v v' r}, P v → Drop r v v' → P v'
  move : ∀ {v v' r}, P v → Move r v v' → P v'
  replace : ∀ {v v' r}, v.Held → P v → Replace r v v' → P v'

theorem Kept.inner (h : Kept P) (hh : v.Held) (hv : P v) (hi : Inner v v') : P v' := by
  cases hi with
  | queue p => exact h.alike (.log _) hv
  | flag r b => exact h.alike (.setCore rfl rfl) hv
  | waste x => exact h.alike (.waste hh x) hv
  | drop hd => exact h.drop hv hd
  | move hm => exact h.move hv hm
  | replace hr => exact h.replace hh hv hr
  | free released => exact h.alike (v := v) ⟨rfl, rfl, fun _ _ => rfl, fun _ _ => rfl⟩ hv
  | tick slot probing counter => exact h.alike (.setCore rfl rfl) (h.alike (.log _) hv)
  | acquire owned probing counter => exact h.alike (.setCore rfl rfl) (h.alike (.log _) hv)

theorem Kept.inner_steps (h : Kept P) (hh : v.Held) (hv : P v)
    (hs : Relation.ReflTransGen Inner v v') : P v' := by
  induction hs with
  | refl => exact hv
  | tail hprev hi ih => exact h.inner (Inner.held_of_steps hh hprev) ih hi

theorem Kept.resolves {p : Packet} (h : Kept P) (hh : v.Held) (hv : P v)
    (hr : Resolves p r v v') : P v' := by
  cases hr with
  | ignore => exact hv
  | move loses hm => exact h.move hv hm
  | giveUp probing loses hd => exact h.drop hv hd
  | defend => exact h.alike (.log _) hv
  | replace defending claim loses hrep => exact h.replace hh hv hrep
  | quit defending claim loses same hd =>
    rcases same with rfl | ⟨x, rfl⟩
    · exact h.drop hv hd
    · exact h.drop (h.alike (.waste hh x) hv) hd

theorem Kept.resolvedAll {p : Packet} {rs : List Nat} (h : Kept P) (hh : v.Held) (hv : P v)
    (hr : ResolvedAll p rs v v') : P v' := by
  induction hr with
  | nil => exact hv
  | @cons v _ _ r _ marked owned hres rest ih =>
    have hcleared : (v.flag r false).Held := hh.setCore Iff.rfl
    exact ih (hres.held hcleared) (h.resolves hcleared (h.alike (.setCore rfl rfl) hv) hres)

theorem Kept.flagAll (h : Kept P) (hh : v.Held) (hv : P v) (l : List Nat) :
    P (v.flagAll l) ∧ (v.flagAll l).Held := by
  induction l generalizing v with
  | nil => exact ⟨hv, hh⟩
  | cons r l ih => exact ih (hh.setCore Iff.rfl) (h.alike (.setCore rfl rfl) hv)

theorem Kept.handled {p : Packet} {l : List Nat} (h : Kept P) (hh : v.Held) (hv : P v)
    (hp : Handled p l v v') : P v' := by
  obtain ⟨rs, -, hall⟩ := hp
  obtain ⟨hflagged, hheld⟩ := h.flagAll (hh.log _) (h.alike (.log _) hv) l
  exact h.resolvedAll hheld hflagged hall

theorem Kept.follows {c : Client σ} {op : Op σ} (h : Kept P) (hh : c.ledger.Held)
    (hv : P c.ledger) (hf : c.Follows op v')
    (hinit : ∀ base len, P { c.ledger with base, len, slots := [], members := ∅, maxid := 0 })
    (hreserve : ∀ sender base length oom, op = .reserve sender base length oom →
      c.initialized = true →
      Reserve sender base.toNat length.toNat (c.Late base.toNat length.toNat) c.ledger v' → P v') :
    P v' := by
  have hreceives : ∀ stream, c.Receives stream v' → P v' := by
    rintro stream (rfl | ⟨-, hhandled⟩)
    · exact hv
    · exact h.handled hh hv hhandled
  cases op with
  | init sender base len =>
    rcases hf with rfl | ⟨-, rfl⟩
    · exact hv
    · exact hinit base len
  | reserve sender base length oom =>
    rcases hf with ⟨-, rfl⟩ | ⟨hinitialized, hr⟩
    all_goals grind
  | release sender id =>
    rcases hf with rfl | ⟨r, hd⟩
    · exact hv
    · exact h.drop hv hd
  | status sender id =>
    cases hf
    exact hv
  | yield sender id oom =>
    rcases hf with rfl | ⟨r, -, -, hr⟩
    · exact hv
    · exact hreceives _ hr
  | packet stream oom => exact hreceives _ hf
  | timer => exact h.inner_steps hh hv hf

end Avb4Linux.Maap
