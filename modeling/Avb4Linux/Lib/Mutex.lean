import Mathlib.Data.List.Basic

/-!
# Recursive mutexes

A mutex is held by one thread, which may lock it again.
-/

namespace Avb4Linux.Lib

variable {T : Type}

abbrev Mutex (T : Type) := Option (T × Nat)

namespace Mutex

def available [DecidableEq T] (t : T) : Mutex T → Bool
  | none => true
  | some (u, _) => u = t

def lock (t : T) : Mutex T → Mutex T
  | none => some (t, 0)
  | some (u, n) => some (u, n + 1)

def unlock : Mutex T → Mutex T
  | some (t, n + 1) => some (t, n)
  | some (_, 0) => none
  | none => none

def HeldBy (t : T) (m : Mutex T) : Prop :=
  ∃ n, m = some (t, n)

def depth [DecidableEq T] (t : T) : Mutex T → Nat
  | none => 0
  | some (u, n) => if u = t then n + 1 else 0

@[simp]
theorem available_some [DecidableEq T] (t u : T) (n : Nat) :
    available t (some (u, n) : Mutex T) = decide (u = t) := rfl

@[simp]
theorem lock_none (t : T) : lock t none = some (t, 0) := rfl

@[simp]
theorem lock_some (t u : T) (n : Nat) : lock t (some (u, n)) = some (u, n + 1) := rfl

@[simp]
theorem unlock_zero (t : T) : unlock (some (t, 0)) = none := rfl

@[simp]
theorem unlock_succ (t : T) (n : Nat) : unlock (some (t, n + 1)) = some (t, n) := rfl

section Depth

variable [DecidableEq T] {t u : T} {m : Mutex T}

theorem depth_pos : 0 < depth t m ↔ HeldBy t m := by
  cases m with
  | none => simp [depth, HeldBy]
  | some p =>
    grind [depth, HeldBy]

theorem HeldBy.available (h : HeldBy t m) : available t m = true := by
  obtain ⟨n, rfl⟩ := h
  simp

theorem HeldBy.eq_of_available (h : HeldBy t m) (hu : Mutex.available u m = true) : t = u := by
  obtain ⟨n, rfl⟩ := h
  simpa using hu

theorem depth_lock (h : available t m = true) :
    depth u (lock t m) = depth u m + if u = t then 1 else 0 := by
  cases m with
  | none =>
    simp only [lock_none, depth, eq_comm, Nat.zero_add]
  | some p =>
    obtain ⟨v, n⟩ := p
    simp only [available_some, decide_eq_true_eq] at h
    subst h
    by_cases hu : u = v
    · simp [depth, hu]
    · simp [depth, hu, Ne.symm hu]

theorem depth_unlock (h : HeldBy t m) :
    depth u (unlock m) = depth u m - if u = t then 1 else 0 := by
  obtain ⟨n, rfl⟩ := h
  by_cases hu : u = t
  · cases n <;> simp [depth, hu]
  · cases n <;> simp [depth, hu, Ne.symm hu]

end Depth

end Mutex

end Avb4Linux.Lib
