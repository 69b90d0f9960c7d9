import Mathlib.Data.List.Basic

/-!
# Runs of an input-driven system

A run is a fold of the step function; `Along` says that every input of a run meets a condition
in the state it finds.
-/

namespace Avb4Linux.Lib.Runs

variable {S I : Type}

def run (step : S → I → S) (s : S) (is : List I) : S :=
  is.foldl step s

def Along (step : S → I → S) (ok : S → I → Prop) : S → List I → Prop
  | _, [] => True
  | s, i :: is => ok s i ∧ Along step ok (step s i) is

@[simp]
theorem run_nil (step : S → I → S) (s : S) : run step s [] = s := rfl

@[simp]
theorem run_cons (step : S → I → S) (s : S) (i : I) (is : List I) :
    run step s (i :: is) = run step (step s i) is := rfl

theorem run_append (step : S → I → S) (s : S) (is js : List I) :
    run step s (is ++ js) = run step (run step s is) js :=
  List.foldl_append

theorem run_invariant {step : S → I → S} {ok : S → I → Prop} {Inv : S → Prop}
    (hstep : ∀ s i, ok s i → Inv s → Inv (step s i)) (s : S) (is : List I)
    (hs : Inv s) (hok : Along step ok s is) : Inv (run step s is) := by
  induction is generalizing s with
  | nil => exact hs
  | cons i is ih => exact ih (step s i) (hstep s i hok.1 hs) hok.2

theorem Along.of_invariant {step : S → I → S} {ok P : S → I → Prop} (Inv : S → Prop)
    (hstep : ∀ s i, ok s i → Inv s → Inv (step s i)) (hP : ∀ s i, ok s i → Inv s → P s i) {s : S}
    {is : List I} (hs : Inv s) (h : Along step ok s is) : Along step P s is := by
  induction is generalizing s with
  | nil => trivial
  | cons i is ih => exact ⟨hP s i h.1 hs, ih (hstep s i h.1 hs) h.2⟩

theorem Along.initial {step : S → I → S} {ok : S → I → Prop} {s : S} {js is : List I}
    (h : Along step ok s is) (hp : js <+: is) : Along step ok s js := by
  induction js generalizing s is with
  | nil => trivial
  | cons j js ih =>
    obtain ⟨rest, rfl⟩ := hp
    exact ⟨h.1, ih h.2 ⟨rest, rfl⟩⟩

theorem Along.and {step : S → I → S} {ok ok' : S → I → Prop} {s : S} {is : List I}
    (h : Along step ok s is) (h' : Along step ok' s is) :
    Along step (fun s i => ok s i ∧ ok' s i) s is := by
  induction is generalizing s with
  | nil => trivial
  | cons i is ih => exact ⟨⟨h.1, h'.1⟩, ih h.2 h'.2⟩

theorem along_append (step : S → I → S) (ok : S → I → Prop) (s : S) (is js : List I) :
    Along step ok s (is ++ js) ↔ Along step ok s is ∧ Along step ok (run step s is) js := by
  induction is generalizing s with
  | nil => simp [Along]
  | cons i is ih => simp [Along, ih, and_assoc]

theorem along_of_forall_mem {step : S → I → S} {ok : S → I → Prop} {is : List I}
    (h : ∀ s, ∀ i ∈ is, ok s i) (s : S) : Along step ok s is := by
  induction is generalizing s with
  | nil => trivial
  | cons i is ih =>
    exact ⟨h s i (by simp), ih (fun s j hj => h s j (by simp [hj])) (step s i)⟩

theorem prefixes_good_iff_within {step : S → I → S} {ok : S → I → Prop} (dom : S → I → Prop)
    (Inv good : S → Prop)
    (hgood : ∀ s, Inv s → good s) (hstep : ∀ s i, dom s i → ok s i → Inv s → Inv (step s i))
    (hbad : ∀ s i, dom s i → Inv s → good (step s i) → ok s i) (s : S) (is : List I) (hs : Inv s)
    (hdom : Along step dom s is) :
    (∀ js, js <+: is → good (run step s js)) ↔ Along step ok s is := by
  induction is generalizing s with
  | nil => simpa [Along] using hgood s hs
  | cons i is ih =>
    constructor
    · intro h
      have hok : ok s i := hbad s i hdom.1 hs (h [i] ⟨is, rfl⟩)
      refine ⟨hok, (ih (step s i) (hstep s i hdom.1 hok hs) hdom.2).mp ?_⟩
      intro js hjs
      exact h (i :: js) (List.cons_prefix_cons.mpr ⟨rfl, hjs⟩)
    · intro h js hjs
      cases js with
      | nil => exact hgood s hs
      | cons j js =>
        obtain ⟨rfl, hprev⟩ := List.cons_prefix_cons.mp hjs
        exact (ih (step s j) (hstep s j hdom.1 h.1 hs) hdom.2).mpr h.2 js hprev

theorem prefixes_good_iff {step : S → I → S} {ok : S → I → Prop} (Inv good : S → Prop)
    (hgood : ∀ s, Inv s → good s) (hstep : ∀ s i, ok s i → Inv s → Inv (step s i))
    (hbad : ∀ s i, Inv s → good (step s i) → ok s i) (s : S) (is : List I) (hs : Inv s) :
    (∀ js, js <+: is → good (run step s js)) ↔ Along step ok s is :=
  prefixes_good_iff_within (fun _ _ => True) Inv good hgood (fun s i _ => hstep s i)
    (fun s i _ => hbad s i) s is hs (along_of_forall_mem (fun _ _ _ => trivial) s)

/-- The newest value that an input of a run leaves. -/
def latest {α : Type} (step : S → I → S) (f : S → I → Option α) : Option α → S → List I → Option α
  | last, _, [] => last
  | last, s, i :: is => latest step f ((f s i).or last) (step s i) is

theorem holds_iff_latest {α : Type} {step : S → I → S} {f : S → I → Option α} (Inv Q : S → Prop)
    (yes : α → Prop) (hinv : ∀ s i, Inv s → Inv (step s i))
    (hstep : ∀ s i, Inv s → (Q (step s i) ↔ (f s i).elim (Q s) yes))
    (is : List I) (s : S) (last : Option α) (hs : Inv s) (hlast : Q s ↔ ∃ a ∈ last, yes a) :
    Q (run step s is) ↔ ∃ a ∈ latest step f last s is, yes a := by
  induction is generalizing s last with
  | nil => exact hlast
  | cons i is ih =>
    refine ih (step s i) _ (hinv s i hs) ((hstep s i hs).trans ?_)
    cases f s i with
    | none => exact hlast
    | some a => simp

instance Along.decidable (step : S → I → S) (ok : S → I → Prop)
    [∀ s i, Decidable (ok s i)] : ∀ s is, Decidable (Along step ok s is)
  | _, [] => isTrue trivial
  | s, i :: is =>
    have := Along.decidable step ok (step s i) is
    inferInstanceAs (Decidable (ok s i ∧ Along step ok (step s i) is))

/-! ### Systems that may end

The state is missing once the system has ended, and nothing happens any more. -/

section Ending

variable {step : Option S → I → Option S} {ok : S → I → Prop} {Inv : S → Prop}

def IfSome (P : S → Prop) (o : Option S) : Prop :=
  ∀ s, o = some s → P s

theorem ifSome_some {P : S → Prop} {s : S} : IfSome P (some s) ↔ P s := by
  constructor
  · intro h
    exact h s rfl
  · rintro h t ⟨rfl⟩
    exact h

theorem run_ended (hend : ∀ i, step none i = none) (is : List I) : run step none is = none := by
  induction is with
  | nil => rfl
  | cons i is ih =>
    rw [run_cons, hend]
    exact ih

theorem ifSome_step (hend : ∀ i, step none i = none)
    (hstep : ∀ s i t, ok s i → Inv s → step (some s) i = some t → Inv t) (o : Option S) (i : I)
    (hok : IfSome (ok · i) o) (h : IfSome Inv o) : IfSome Inv (step o i) := by
  intro t ht
  cases o with
  | none =>
    rw [hend] at ht
    cases ht
  | some s => exact hstep s i t (hok s rfl) (h s rfl) ht

theorem ending_invariant (hend : ∀ i, step none i = none)
    (hstep : ∀ s i t, ok s i → Inv s → step (some s) i = some t → Inv t) {s t : S} {is : List I}
    (hs : Inv s) (hok : Along step (fun o i => IfSome (ok · i) o) (some s) is)
    (ht : run step (some s) is = some t) : Inv t :=
  run_invariant (ifSome_step hend hstep) (some s) is (ifSome_some.mpr hs) hok t ht

theorem ending_prefixes_good_iff (Inv good : S → Prop) (hgood : ∀ s, Inv s → good s)
    (hend : ∀ i, step none i = none)
    (hstep : ∀ s i t, ok s i → Inv s → step (some s) i = some t → Inv t)
    (hbad : ∀ s i, Inv s → IfSome good (step (some s) i) → ok s i) {s : S} (is : List I)
    (hs : Inv s) :
    (∀ js, js <+: is → IfSome good (run step (some s) js)) ↔
      Along step (fun o i => IfSome (ok · i) o) (some s) is := by
  refine prefixes_good_iff (IfSome Inv) (IfSome good) ?_ (ifSome_step hend hstep) ?_ (some s) is
    (ifSome_some.mpr hs)
  · intro o h t ht
    exact hgood t (h t ht)
  · rintro o i h hgood t rfl
    exact hbad t i (h t rfl) hgood

end Ending

end Avb4Linux.Lib.Runs
