import Mathlib.Data.List.Nodup
import Mathlib.Logic.Function.Basic

/-!
# Traces of lock operations

A trace is balanced if no lock is taken twice without a release in between, none is released
that is not held, and none is held in the end.
-/

namespace Avb4Linux.Lib.LockTrace

inductive Op (ι : Type) where
  | lock (i : ι)
  | tryLock (i : ι) (got : Bool)
  | unlock (i : ι)
deriving DecidableEq, Repr

structure Traced (ι α : Type) where
  result : α
  ops : List (Op ι) := []

variable {ι α β : Type}

instance : Monad (Traced ι) where
  pure a := ⟨a, []⟩
  bind x f := ⟨(f x.result).result, x.ops ++ (f x.result).ops⟩

def lock (i : ι) : Traced ι Unit := ⟨(), [.lock i]⟩

def tryLock (i : ι) (got : Bool) : Traced ι Unit := ⟨(), [.tryLock i got]⟩

def unlock (i : ι) : Traced ι Unit := ⟨(), [.unlock i]⟩

@[simp]
theorem ops_pure (a : α) : (pure a : Traced ι α).ops = [] := rfl

@[simp]
theorem result_pure (a : α) : (pure a : Traced ι α).result = a := rfl

@[simp]
theorem ops_bind (x : Traced ι α) (f : α → Traced ι β) :
    (x >>= f).ops = x.ops ++ (f x.result).ops := rfl

@[simp]
theorem result_bind (x : Traced ι α) (f : α → Traced ι β) :
    (x >>= f).result = (f x.result).result := rfl

@[simp]
theorem ops_lock (i : ι) : (lock i).ops = [.lock i] := rfl

@[simp]
theorem ops_tryLock (i : ι) (got : Bool) : (tryLock i got).ops = [.tryLock i got] := rfl

@[simp]
theorem ops_unlock (i : ι) : (unlock i).ops = [.unlock i] := rfl

@[simp]
theorem ops_discard (x : Traced ι α) : (discard x).ops = x.ops :=
  List.append_nil x.ops

theorem ops_forM (l : List α) (f : α → Traced ι PUnit) :
    (l.forM f).ops = l.flatMap fun a => (f a).ops := by
  induction l with
  | nil => rfl
  | cons a l ih =>
    rw [List.flatMap_cons, ← ih]
    rfl

section Replay

variable [DecidableEq ι]

/-- The locks that are held after an operation; there is no such state if it waits for a lock
of its own or releases one it does not hold. -/
def Op.apply (held : ι → Bool) : Op ι → Option (ι → Bool)
  | .lock i => if held i then none else some (Function.update held i true)
  | .tryLock i got =>
    if got then
      if held i then none else some (Function.update held i true)
    else some held
  | .unlock i => if held i then some (Function.update held i false) else none

def replay : List (Op ι) → (ι → Bool) → Option (ι → Bool)
  | [], held => some held
  | o :: os, held => (o.apply held).bind (replay os)

def nothing : ι → Bool := fun _ => false

def Balanced (os : List (Op ι)) : Prop :=
  replay os nothing = some nothing

theorem replay_append (os os' : List (Op ι)) (held : ι → Bool) :
    replay (os ++ os') held = (replay os held).bind (replay os') := by
  induction os generalizing held with
  | nil => rfl
  | cons o os ih =>
    change (o.apply held).bind (replay (os ++ os')) = ((o.apply held).bind (replay os)).bind _
    rw [Option.bind_assoc]
    exact congrArg _ (funext ih)

theorem Balanced.append {os os' : List (Op ι)} (h : Balanced os) (h' : Balanced os') :
    Balanced (os ++ os') := by
  rw [Balanced, replay_append, h]
  exact h'

theorem Balanced.of_append {os os' : List (Op ι)} (h : Balanced os)
    (h' : Balanced (os ++ os')) : Balanced os' := by
  rw [Balanced, replay_append, h] at h'
  exact h'

def Op.put (b : Bool) (i : ι) : Op ι := if b then .lock i else .unlock i

theorem Op.apply_put {held : ι → Bool} {b : Bool} {i : ι} (h : held i = !b) :
    (Op.put b i).apply held = some (Function.update held i b) := by
  cases b <;> simp_all [Op.put, Op.apply]

theorem replay_puts {l : List ι} (hnodup : l.Nodup) (b : Bool) (held : ι → Bool)
    (hother : ∀ i ∈ l, held i = !b) :
    replay (l.map (Op.put b)) held = some fun i => if i ∈ l then b else held i := by
  induction l generalizing held with
  | nil => simp [replay]
  | cons i l ih =>
    rw [List.nodup_cons] at hnodup
    have hrest : ∀ j ∈ l, Function.update held i b j = !b := by
      grind
    rw [List.map_cons, replay, Op.apply_put (hother i List.mem_cons_self), Option.bind_some,
      ih hnodup.2 _ hrest]
    grind

theorem balanced_locks_iff {l m : List ι} (hnodup : l.Nodup) (hsub : m.Sublist l) :
    Balanced (l.map .lock ++ m.map .unlock) ↔ ∀ i ∈ l, i ∈ m := by
  have hlocked := replay_puts hnodup true nothing fun _ _ => rfl
  have hreleased := replay_puts (hnodup.sublist hsub) false
    (fun i => if i ∈ l then true else nothing i) fun i hi => if_pos (hsub.subset hi)
  change replay (l.map .lock) nothing = _ at hlocked
  change replay (m.map .unlock) _ = _ at hreleased
  rw [Balanced, replay_append, hlocked, Option.bind_some, hreleased, Option.some_inj, funext_iff]
  refine forall_congr' fun i => ?_
  by_cases hi : i ∈ m <;> simp [nothing, hi]

end Replay

end Avb4Linux.Lib.LockTrace
