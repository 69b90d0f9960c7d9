import Mathlib.Data.List.Count
import Mathlib.Logic.Function.Basic

/-!
# Programs that allocate, use and free cells

To use or free a cell that is not allocated ends a program with a fault.
-/

namespace Avb4Linux.Lib.Lifetime

variable {κ ε α β : Type} [DecidableEq κ]

inductive Use (κ : Type) where
  | alloc (x : κ)
  | touch (x : κ)
  | free (x : κ)
  deriving DecidableEq, Repr

def Use.apply (live : κ → Bool) : Use κ → Option (κ → Bool)
  | .alloc x => if live x then none else some (Function.update live x true)
  | .touch x => if live x then some live else none
  | .free x => if live x then some (Function.update live x false) else none

def replay : List (Use κ) → Option (κ → Bool)
  | [] => some fun _ => false
  | u :: us => (replay us).bind fun live => u.apply live

/-- The uses of a heap, none of them a fault, and the cells that are allocated after
them. -/
structure Heap (κ : Type) [DecidableEq κ] where
  uses : List (Use κ)
  live : κ → Bool
  replayed : replay uses = some live

def Heap.empty : Heap κ := ⟨[], fun _ => false, rfl⟩

theorem replay_count {us : List (Use κ)} {live : κ → Bool} (h : replay us = some live) (x : κ) :
    us.count (.alloc x) = us.count (.free x) + (live x).toNat := by
  induction us generalizing live with
  | nil =>
    cases h
    rfl
  | cons u us ih =>
    obtain ⟨before, hbefore, happly⟩ := Option.bind_eq_some_iff.mp h
    have hcount := ih hbefore
    cases u with
    | alloc y =>
      rw [Use.apply] at happly
      split at happly
      · cases happly
      · rename_i hfree
        cases happly
        grind
    | touch y =>
      rw [Use.apply] at happly
      grind
    | free y =>
      rw [Use.apply] at happly
      split at happly
      · rename_i hlive
        cases happly
        grind
      · cases happly

theorem replay_after_free {us past : List (Use κ)} {x : κ} {live : κ → Bool}
    (h : replay (us ++ .free x :: past) = some live) (hnew : .alloc x ∉ us) :
    .touch x ∉ us ∧ .free x ∉ us ∧ live x = false := by
  induction us generalizing live with
  | nil =>
    obtain ⟨before, -, happly⟩ := Option.bind_eq_some_iff.mp h
    rw [Use.apply] at happly
    split at happly
    · cases happly
      exact ⟨List.not_mem_nil, List.not_mem_nil, Function.update_self ..⟩
    · cases happly
  | cons u us ih =>
    obtain ⟨before, hbefore, happly⟩ := Option.bind_eq_some_iff.mp h
    obtain ⟨hu, hus⟩ := not_or.mp (mt List.mem_cons.mpr hnew)
    obtain ⟨htouch, hfree, hdead⟩ := ih hbefore hus
    cases u with
    | alloc y =>
      have hxy : x ≠ y := fun heq => hu (heq ▸ rfl)
      rw [Use.apply] at happly
      split at happly
      · cases happly
      · cases happly
        grind
    | touch y =>
      rw [Use.apply] at happly
      grind
    | free y =>
      rw [Use.apply] at happly
      split at happly
      · rename_i hlive
        cases happly
        grind
      · cases happly

inductive Stop (κ ε : Type) where
  | abort (e : ε)
  | fault (u : Use κ)
  deriving Repr

abbrev Checked (κ ε : Type) [DecidableEq κ] (α : Type) : Type :=
  StateT (Heap κ) (Except (Stop κ ε)) α

def use (u : Use κ) : Checked κ ε Unit := fun h =>
  match hu : u.apply h.live with
  | none => .error (.fault u)
  | some live => .ok ((), ⟨u :: h.uses, live, by rw [replay, h.replayed, Option.bind_some, hu]⟩)

def alloc (x : κ) : Checked κ ε Unit := use (.alloc x)

def touch (x : κ) : Checked κ ε Unit := use (.touch x)

def free (x : κ) : Checked κ ε Unit := use (.free x)

def touchAll : List κ → Checked κ ε Unit
  | [] => pure ()
  | x :: xs => do
    touch x
    touchAll xs

def abort (e : ε) : Checked κ ε α := fun _ => .error (.abort e)

/-- From a heap with these cells, the program comes to the same end as the computation,
and the cells after it meet `P`. -/
def Tracks (m : Checked κ ε α) (x : Except ε α) (P : α → (κ → Bool) → Prop) (live : κ → Bool) :
    Prop :=
  ∀ h : Heap κ, h.live = live →
    (∃ a h', x = .ok a ∧ m h = .ok (a, h') ∧ P a h'.live) ∨
      ∃ e, x = .error e ∧ m h = .error (.abort e)

variable {m : Checked κ ε α} {x : Except ε α} {P : α → (κ → Bool) → Prop} {live : κ → Bool}

theorem Tracks.pure {a : α} (h : P a live) : Tracks (pure a) (.ok a : Except ε α) P live := by
  rintro heap rfl
  exact .inl ⟨a, heap, rfl, rfl, h⟩

theorem Tracks.abort (e : ε) : Tracks (abort e) (.error e) P live :=
  fun _ _ => .inr ⟨e, rfl, rfl⟩

theorem Tracks.bind {f : α → Checked κ ε β} {g : α → Except ε β} {Q : β → (κ → Bool) → Prop}
    (hm : Tracks m x P live)
    (hf : ∀ a live', x = .ok a → P a live' → Tracks (f a) (g a) Q live') :
    Tracks (m >>= f) (x >>= g) Q live := by
  intro heap hlive
  obtain ⟨a, heap', hx, hrun, hP⟩ | ⟨e, hx, hrun⟩ := hm heap hlive
  · have hbind : (m >>= f) heap = f a heap' := by
      change (m heap >>= fun y => f y.1 y.2) = f a heap'
      rw [hrun]
      rfl
    rw [hbind, hx]
    exact hf a heap'.live hx hP heap' rfl
  · refine .inr ⟨e, ?_, ?_⟩
    · rw [hx]
      rfl
    · change (m heap >>= fun y => f y.1 y.2) = .error (.abort e)
      rw [hrun]
      rfl

theorem Tracks.use {u : Use κ} {live' : κ → Bool} (hu : u.apply live = some live')
    (hm : Tracks m x P live') : Tracks (do Lifetime.use u; m) x P live := by
  rintro heap rfl
  have hstep : ∃ heap' : Heap κ, Lifetime.use (ε := ε) u heap = .ok ((), heap') ∧
      heap'.live = live' := by
    unfold Lifetime.use
    grind
  obtain ⟨heap', hrun, hlive'⟩ := hstep
  have hbind : (do Lifetime.use u; m) heap = m heap' := by
    change (Lifetime.use u heap >>= fun y => m y.2) = m heap'
    rw [hrun]
    rfl
  rw [hbind]
  exact hm heap' hlive'

theorem Tracks.alloc {k : κ} (hk : live k = false) (hm : Tracks m x P (Function.update live k true)) :
    Tracks (do Lifetime.alloc k; m) x P live :=
  .use (by rw [Use.apply, hk]; rfl) hm

theorem Tracks.touch {k : κ} (hk : live k = true) (hm : Tracks m x P live) :
    Tracks (do Lifetime.touch k; m) x P live :=
  .use (by rw [Use.apply, hk]; rfl) hm

theorem Tracks.free {k : κ} (hk : live k = true) (hm : Tracks m x P (Function.update live k false)) :
    Tracks (do Lifetime.free k; m) x P live :=
  .use (by rw [Use.apply, hk]; rfl) hm

theorem Tracks.touchAll {ks : List κ} (hks : ∀ k ∈ ks, live k = true) (hm : Tracks m x P live) :
    Tracks (do Lifetime.touchAll ks; m) x P live := by
  induction ks with
  | nil => exact hm
  | cons k ks ih =>
    grind [List.mem_cons_of_mem, touch, List.mem_cons_self, touchAll, touch, bind_assoc]

theorem Tracks.mono {Q : α → (κ → Bool) → Prop} (hm : Tracks m x P live)
    (hPQ : ∀ a live', x = .ok a → P a live' → Q a live') : Tracks m x Q live := by
  intro heap hlive
  obtain ⟨a, heap', hx, hrun, hP⟩ | herror := hm heap hlive
  all_goals grind

end Avb4Linux.Lib.Lifetime
