import Mathlib.Data.List.Basic

/-!
# Runs of a system that can fail

A step answers with the next state or with the reason why there is none.
-/

namespace Avb4Linux.Lib.Fallible

variable {ε α β S I : Type}
variable {x : Except ε α} {s s' : S} {ok : S → I → Prop} {is js : List I}

theorem bind_eq_ok {f : α → Except ε β} {b : β} :
    (x >>= f) = .ok b ↔ ∃ a, x = .ok a ∧ f a = .ok b := by
  cases x with
  | error e =>
    constructor
    · intro h
      cases h
    · rintro ⟨a, ha, -⟩
      cases ha
  | ok a =>
    constructor
    · intro h
      exact ⟨a, rfl, h⟩
    · rintro ⟨a', ha', h⟩
      cases ha'
      exact h

theorem bind_of_ok {a : α} (h : x = .ok a) (f : α → Except ε β) : (x >>= f) = f a := by
  subst h
  rfl

theorem bind_ne_error {f : α → Except ε β} {e : ε} (hx : x ≠ .error e)
    (hf : ∀ a, x = .ok a → f a ≠ .error e) : (x >>= f) ≠ .error e := by
  cases x with
  | error d => exact fun h => hx (by cases h; rfl)
  | ok a => exact hf a rfl

def okAnd (x : Except ε α) (p : α → Bool) : Bool :=
  match x with
  | .ok a => p a
  | .error _ => false

theorem exists_of_okAnd {p : α → Bool} (h : okAnd x p = true) : ∃ a, x = .ok a ∧ p a = true := by
  cases x with
  | error e => cases h
  | ok a => exact ⟨a, rfl, h⟩

def failsWith [DecidableEq ε] (x : Except ε α) (e : ε) : Bool :=
  match x with
  | .ok _ => false
  | .error d => d = e

theorem eq_error_of_failsWith [DecidableEq ε] {e : ε} (h : failsWith x e = true) :
    x = .error e := by
  cases x with
  | ok a => cases h
  | error d => rw [decide_eq_true_eq.mp h]

def run (step : S → I → Except ε S) : S → List I → Except ε S
  | s, [] => .ok s
  | s, i :: is => step s i >>= fun s' => run step s' is

theorem run_append (step : S → I → Except ε S) (s : S) (is js : List I) :
    run step s (is ++ js) = run step s is >>= fun s' => run step s' js := by
  induction is generalizing s with
  | nil => rfl
  | cons i is ih =>
    rw [List.cons_append, run, run]
    simp_all

theorem run_replicate {step : S → I → Except ε S} {i : I} {P : Nat → S → Prop}
    (hstep : ∀ m s, P m s → ∃ s', step s i = .ok s' ∧ P (m + 1) s') {m : Nat} (hs : P m s)
    (n : Nat) : ∃ s', run step s (List.replicate n i) = .ok s' ∧ P (m + n) s' := by
  induction n generalizing m s with
  | zero => exact ⟨s, rfl, hs⟩
  | succ n ih =>
    obtain ⟨s₁, hs₁, hP₁⟩ := hstep m s hs
    obtain ⟨s', hrun, hP'⟩ := ih hP₁
    rw [List.replicate_succ]
    refine ⟨s', bind_eq_ok.mpr ⟨s₁, hs₁, hrun⟩, ?_⟩
    rwa [Nat.add_right_comm] at hP'

def Along (step : S → I → Except ε S) (ok : S → I → Prop) : S → List I → Prop
  | _, [] => True
  | s, i :: is => ok s i ∧ ∀ s', step s i = .ok s' → Along step ok s' is

theorem along_of_forall_mem {step : S → I → Except ε S} (h : ∀ i ∈ is, ∀ s, ok s i) (s : S) :
    Along step ok s is := by
  induction is generalizing s with
  | nil => trivial
  | cons i is ih =>
    exact ⟨h i List.mem_cons_self s, fun s' _ => ih (fun j hj => h j (List.mem_cons_of_mem i hj)) s'⟩

theorem Along.first {step : S → I → Except ε S} (h : Along step ok s (is ++ js)) :
    Along step ok s is := by
  induction is generalizing s with
  | nil => trivial
  | cons i is ih => exact ⟨h.1, fun s₁ hstep => ih (h.2 s₁ hstep)⟩

theorem Along.after {step : S → I → Except ε S} (h : Along step ok s (is ++ js))
    (hrun : run step s is = .ok s') : Along step ok s' js := by
  induction is generalizing s with
  | nil =>
    cases hrun
    exact h
  | cons i is ih =>
    obtain ⟨s₁, hstep, hrest⟩ := bind_eq_ok.mp hrun
    exact ih (h.2 s₁ hstep) hrest

theorem Along.append {step : S → I → Except ε S} (h : Along step ok s is)
    (hjs : ∀ s', Along step ok s' js) : Along step ok s (is ++ js) := by
  induction is generalizing s with
  | nil => exact hjs s
  | cons i is ih => exact ⟨h.1, fun s₁ hstep => ih (h.2 s₁ hstep)⟩

theorem run_eq_foldl {step : S → I → Except ε S} {f : S → I → S} (h : ∀ s i, step s i = .ok (f s i))
    (s : S) (is : List I) : run step s is = .ok (is.foldl f s) := by
  induction is generalizing s with
  | nil => rfl
  | cons i is ih =>
    rw [run, bind_of_ok (h s i), ih, List.foldl_cons]

theorem run_invariant {step : S → I → Except ε S} {P : S → Prop}
    (hstep : ∀ s i s', ok s i → P s → step s i = .ok s' → P s') (hs : P s)
    (hok : Along step ok s is) (hrun : run step s is = .ok s') : P s' := by
  induction is generalizing s with
  | nil =>
    cases hrun
    exact hs
  | cons i is ih =>
    obtain ⟨s₁, hs₁, hrest⟩ := bind_eq_ok.mp hrun
    exact ih (hstep s i s₁ hok.1 hs hs₁) (hok.2 s₁ hs₁) hrest

theorem run_always {step : S → I → Except ε S} {P : S → Prop}
    (hstep : ∀ s i s', P s → step s i = .ok s' → P s') (hs : P s) (hrun : run step s is = .ok s') :
    P s' := by
  induction is generalizing s with
  | nil =>
    cases hrun
    exact hs
  | cons i is ih =>
    obtain ⟨s₁, hs₁, hrest⟩ := bind_eq_ok.mp hrun
    exact ih (hstep s i s₁ hs hs₁) hrest

end Avb4Linux.Lib.Fallible
