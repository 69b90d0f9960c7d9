import Avb4Linux.Lib.Mutex
import Avb4Linux.Lib.Runs
import Mathlib.Data.Finset.Max
import Mathlib.Logic.Function.Basic

/-!
# Lock orders

Threads of a set are stuck if each waits for a mutex that another one of the set holds.
-/

namespace Avb4Linux.Lib.LockOrder

variable {T L : Type}

inductive Code (L : Type) where
  | skip
  | seq (a b : Code L)
  | either (a b : Code L)
  | locked (l : L) (body : Code L)
  | ifFree (l : L) (body : Code L)

def Code.maybe (c : Code L) : Code L :=
  .either c .skip

def Code.inOrder : List (Code L) → Code L
  | [] => .skip
  | c :: cs => .seq c (inOrder cs)

inductive Item (L : Type) where
  | run (c : Code L)
  | release (l : L)

structure State (T L : Type) where
  locks : L → Mutex T
  work : T → List (Item L)

def State.idle : State T L where
  locks _ := none
  work _ := []

inductive Move (T L : Type) where
  | start (t : T) (c : Code L)
  | go (t : T) (choice : Bool)

section Work

variable [DecidableEq T] {s : State T L} {t u : T} {k : List (Item L)}

def State.setWork (s : State T L) (t : T) (k : List (Item L)) : State T L :=
  { s with work := Function.update s.work t k }

@[simp]
theorem State.setWork_locks : (s.setWork t k).locks = s.locks := rfl

@[simp]
theorem State.setWork_self : (s.setWork t k).work t = k := by
  simp [setWork]

theorem State.setWork_of_ne (h : u ≠ t) : (s.setWork t k).work u = s.work u := by
  simp [setWork, h]

end Work

section Locks

variable [DecidableEq L] {s : State T L} {l x : L} {m : Mutex T}

def State.setLock (s : State T L) (l : L) (m : Mutex T) : State T L :=
  { s with locks := Function.update s.locks l m }

@[simp]
theorem State.setLock_work : (s.setLock l m).work = s.work := rfl

@[simp]
theorem State.setLock_self : (s.setLock l m).locks l = m := by
  simp [setLock]

theorem State.setLock_of_ne (h : x ≠ l) : (s.setLock l m).locks x = s.locks x := by
  simp [setLock, h]

end Locks

section Steps

variable [DecidableEq T] [DecidableEq L]

def State.acquire (s : State T L) (t : T) (l : L) (body : Code L) (k : List (Item L)) :
    State T L :=
  (s.setLock l ((s.locks l).lock t)).setWork t (.run body :: .release l :: k)

def State.go (s : State T L) (t : T) (choice : Bool) : State T L :=
  match s.work t with
  | [] => s
  | .run .skip :: k => s.setWork t k
  | .run (.seq a b) :: k => s.setWork t (.run a :: .run b :: k)
  | .run (.either a b) :: k => s.setWork t (.run (if choice then a else b) :: k)
  | .run (.locked l body) :: k =>
    if (s.locks l).available t then s.acquire t l body k else s
  | .run (.ifFree l body) :: k =>
    if (s.locks l).available t then s.acquire t l body k else s.setWork t k
  | .release l :: k => (s.setLock l (s.locks l).unlock).setWork t k

def State.step (s : State T L) : Move T L → State T L
  | .start t c => if (s.work t).isEmpty then s.setWork t [.run c] else s
  | .go t choice => s.go t choice

end Steps

def held : List (Item L) → List L
  | [] => []
  | .run _ :: k => held k
  | .release l :: k => l :: held k

def Code.locks : Code L → List L
  | .skip => []
  | .seq a b => a.locks ++ b.locks
  | .either a b => a.locks ++ b.locks
  | .locked l body => l :: body.locks
  | .ifFree l body => l :: body.locks

def mayUse : List (Item L) → List L
  | [] => []
  | .run c :: k => c.locks ++ mayUse k
  | .release l :: k => l :: mayUse k

theorem held_subset_mayUse (k : List (Item L)) : ∀ l ∈ held k, l ∈ mayUse k := by
  induction k with
  | nil => simp [held]
  | cons i k ih =>
    intro l hl
    cases i with
    | run c =>
      simp only [mayUse, List.mem_append]
      exact .inr (ih l hl)
    | release m =>
      simp only [held, List.mem_cons] at hl
      simp only [mayUse, List.mem_cons]
      exact hl.imp id (ih l)

section Order

variable [DecidableEq L]

def Code.ordered (rank : L → Nat) (h : List L) : Code L → Bool
  | .skip => true
  | .seq a b => a.ordered rank h && b.ordered rank h
  | .either a b => a.ordered rank h && b.ordered rank h
  | .locked l body =>
    (decide (l ∈ h) || h.all fun x => rank x < rank l) && body.ordered rank (l :: h)
  | .ifFree l body => body.ordered rank (l :: h)

def Ordered (rank : L → Nat) : List (Item L) → Prop
  | [] => True
  | .run c :: k => c.ordered rank (held k) = true ∧ Ordered rank k
  | .release _ :: k => Ordered rank k

theorem Code.ordered_congr {rank rank' : L → Nat} {c : Code L} {h : List L}
    (hheld : ∀ l ∈ h, rank l = rank' l) (hlocks : ∀ l ∈ c.locks, rank l = rank' l) :
    c.ordered rank h = c.ordered rank' h := by
  induction c generalizing h with
  | skip => rfl
  | seq a b iha ihb =>
    grind [locks, ordered]
  | either a b iha ihb =>
    grind [locks, ordered]
  | locked l body ih =>
    grind [locks, ordered]
  | ifFree l body ih =>
    grind [locks, ordered]

theorem Ordered.congr {rank rank' : L → Nat} {k : List (Item L)} (h : Ordered rank k)
    (hranks : ∀ l ∈ mayUse k, rank l = rank' l) : Ordered rank' k := by
  induction k with
  | nil => trivial
  | cons i k ih =>
    cases i with
    | run c =>
      simp only [mayUse, List.mem_append] at hranks
      refine ⟨?_, ih h.2 fun l hl => hranks l (.inr hl)⟩
      rw [← h.1, eq_comm]
      grind [Code.ordered_congr, held_subset_mayUse]
    | release m =>
      simp only [mayUse, List.mem_cons] at hranks
      exact ih h fun l hl => hranks l (.inr hl)

end Order

section Turns

variable [DecidableEq T] [DecidableEq L]

inductive Turn (s : State T L) (t : T) : State T L → Prop where
  | stays : Turn s t s
  | moves (k : List (Item L)) (hheld : held k = held (s.work t))
      (huse : ∀ l ∈ mayUse k, l ∈ mayUse (s.work t))
      (hordered : ∀ rank, Ordered rank (s.work t) → Ordered rank k) : Turn s t (s.setWork t k)
  | acquires (l : L) (k : List (Item L)) (havailable : (s.locks l).available t = true)
      (hheld : held k = l :: held (s.work t)) (huse : ∀ l ∈ mayUse k, l ∈ mayUse (s.work t))
      (hordered : ∀ rank, Ordered rank (s.work t) → Ordered rank k) :
      Turn s t ((s.setLock l ((s.locks l).lock t)).setWork t k)
  | releases (l : L) (k : List (Item L)) (hwork : s.work t = .release l :: k) :
      Turn s t ((s.setLock l (s.locks l).unlock).setWork t k)

theorem State.turn_go (s : State T L) (t : T) (choice : Bool) : Turn s t (s.go t choice) := by
  simp only [go]
  cases hwork : s.work t with
  | nil => exact .stays
  | cons i k =>
    cases i with
    | release l => exact .releases l k hwork
    | run c =>
      cases c with
      | skip =>
        refine .moves k ?_ ?_ ?_ <;> rw [hwork]
        · rfl
        · exact fun l hl => hl
        · exact fun rank h => h.2
      | seq a b =>
        refine .moves _ ?_ ?_ ?_ <;> rw [hwork]
        all_goals grind [mayUse, Code.locks, Ordered, Code.ordered, held]
      | either a b =>
        refine .moves _ ?_ ?_ ?_ <;> rw [hwork]
        · rfl
        all_goals grind [mayUse, Code.locks, Ordered, Code.ordered]
      | locked l body =>
        dsimp only
        by_cases havailable : (s.locks l).available t = true
        · rw [if_pos havailable]
          refine .acquires l _ havailable ?_ ?_ ?_ <;> rw [hwork]
          · rfl
          · grind [mayUse, Code.locks]
          · intro rank h
            simp only [Ordered, Code.ordered, Bool.and_eq_true] at h
            exact ⟨h.1.2, h.2⟩
        · rw [if_neg havailable]
          exact .stays
      | ifFree l body =>
        dsimp only
        by_cases havailable : (s.locks l).available t = true
        · rw [if_pos havailable]
          refine .acquires l _ havailable ?_ ?_ ?_ <;> rw [hwork]
          · rfl
          · grind [mayUse, Code.locks]
          · exact fun rank h => h
        · rw [if_neg havailable]
          refine .moves k ?_ ?_ ?_ <;> rw [hwork]
          · rfl
          · grind [mayUse, Code.locks]
          · exact fun rank h => h.2

variable {s s' : State T L} {t u : T} {l : L} {W : Finset T}

theorem Turn.work_of_ne (h : Turn s t s') (hu : u ≠ t) : s'.work u = s.work u := by
  cases h with
  | stays => rfl
  | moves k _ _ _ => exact State.setWork_of_ne hu
  | acquires l k _ _ _ _ => exact State.setWork_of_ne hu
  | releases l k _ => exact State.setWork_of_ne hu

theorem Turn.mayUse_subset (h : Turn s t s') : ∀ l ∈ mayUse (s'.work t), l ∈ mayUse (s.work t) := by
  cases h with
  | stays => exact fun l hl => hl
  | moves k _ huse _ => simpa using huse
  | acquires l k _ _ huse _ => simpa using huse
  | releases l k hwork =>
    intro x hx
    simp only [State.setWork_self] at hx
    rw [hwork]
    exact List.mem_cons_of_mem _ hx

theorem Turn.ordered {rank : L → Nat} (h : Turn s t s') (hordered : Ordered rank (s.work t)) :
    Ordered rank (s'.work t) := by
  cases h with
  | stays => exact hordered
  | moves k _ _ h => simpa using h rank hordered
  | acquires l k _ _ _ h => simpa using h rank hordered
  | releases l k hwork =>
    rw [hwork] at hordered
    rw [State.setWork_self]
    exact hordered

def State.Owned (s : State T L) : Prop :=
  ∀ t l, (s.locks l).depth t = (held (s.work t)).count l

theorem State.Owned.heldBy_iff (h : s.Owned) : (s.locks l).HeldBy t ↔ l ∈ held (s.work t) := by
  rw [← Mutex.depth_pos, h t l, List.count_pos_iff]

theorem State.owned_idle : (State.idle : State T L).Owned := by
  intro t l
  rfl

theorem Turn.owned (h : s.Owned) (hturn : Turn s t s') : s'.Owned := by
  intro u x
  cases hturn with
  | stays => exact h u x
  | moves k hheld _ _ =>
    by_cases hu : u = t
    · subst hu
      simp only [State.setWork_locks, State.setWork_self, hheld, h u x]
    · simp only [State.setWork_locks, State.setWork_of_ne hu, h u x]
  | acquires l k havailable hheld _ _ =>
    have hwork : ((s.setLock l ((s.locks l).lock t)).setWork t k).work u =
        if u = t then k else s.work u := by
      by_cases hu : u = t
      · simp [hu]
      · simp [State.setWork_of_ne hu, hu]
    rw [hwork, State.setWork_locks]
    by_cases hx : x = l
    · subst hx
      rw [State.setLock_self, Mutex.depth_lock havailable, h u x]
      grind
    · rw [State.setLock_of_ne hx, h u x]
      grind
  | releases l k hrelease =>
    have hholds : (s.locks l).HeldBy t := by
      rw [h.heldBy_iff, hrelease]
      exact List.mem_cons_self
    have hwork : ((s.setLock l (s.locks l).unlock).setWork t k).work u =
        if u = t then k else s.work u := by
      by_cases hu : u = t
      · simp [hu]
      · simp [State.setWork_of_ne hu, hu]
    rw [hwork, State.setWork_locks]
    by_cases hx : x = l
    · subst hx
      rw [State.setLock_self, Mutex.depth_unlock hholds, h u x]
      grind [held]
    · rw [State.setLock_of_ne hx, h u x]
      grind [held]

theorem State.Owned.step (h : s.Owned) (m : Move T L) : (s.step m).Owned := by
  cases m with
  | go t choice => exact (s.turn_go t choice).owned h
  | start t c =>
    simp only [State.step]
    by_cases hidle : (s.work t).isEmpty = true
    · rw [if_pos hidle]
      have hwork := List.isEmpty_iff.mp hidle
      intro u x
      by_cases hu : u = t
      · subst hu
        simp [h u x, hwork, held]
      · simp [setWork_of_ne hu, h u x]
    · rw [if_neg hidle]
      exact h

theorem State.Owned.run (h : s.Owned) (ms : List (Move T L)) :
    (Runs.run State.step s ms).Owned := by
  induction ms generalizing s with
  | nil => exact h
  | cons m ms ih => exact ih (h.step m)

def State.WaitsFor (s : State T L) (t : T) (l : L) : Prop :=
  (∃ body k, s.work t = .run (.locked l body) :: k) ∧ (s.locks l).available t = false

def State.Stuck (s : State T L) (W : Finset T) : Prop :=
  ∀ t ∈ W, ∃ l, s.WaitsFor t l ∧ ∃ u ∈ W, (s.locks l).HeldBy u

theorem State.WaitsFor.step_eq (h : s.WaitsFor t l) :
    (∀ choice, s.step (.go t choice) = s) ∧ ∀ c, s.step (.start t c) = s := by
  obtain ⟨⟨body, k, hwork⟩, hbusy⟩ := h
  grind [step, go]

theorem Turn.locks_of_heldBy (h : Turn s t s') (hs : s.Owned) (hu : (s.locks l).HeldBy u)
    (hne : u ≠ t) : s'.locks l = s.locks l := by
  cases h with
  | stays => rfl
  | moves k _ _ _ => rfl
  | acquires x k havailable _ _ _ =>
    refine State.setLock_of_ne ?_
    rintro rfl
    exact hne (hu.eq_of_available havailable)
  | releases x k hwork =>
    refine State.setLock_of_ne ?_
    rintro rfl
    have ht : (s.locks l).HeldBy t := by
      rw [hs.heldBy_iff, hwork]
      exact List.mem_cons_self
    exact hne (hu.eq_of_available ht.available)

theorem State.Stuck.step (h : s.Stuck W) (hs : s.Owned) (m : Move T L) : (s.step m).Stuck W := by
  -- the state may only change where no thread of the set is involved
  have hkeep : ∀ (t : T) (s' : State T L), t ∉ W → (∀ u, u ≠ t → s'.work u = s.work u) →
      (∀ l u, (s.locks l).HeldBy u → u ≠ t → s'.locks l = s.locks l) → s'.Stuck W := by
    intro t s' ht hwork hlocks w hw
    obtain ⟨l, ⟨⟨body, k, hwait⟩, hbusy⟩, u, hu, hheld⟩ := h w hw
    have hl := hlocks l u hheld fun heq => ht (heq ▸ hu)
    refine ⟨l, ⟨⟨body, k, ?_⟩, ?_⟩, u, hu, ?_⟩
    all_goals grind
  cases m with
  | go t choice =>
    by_cases ht : t ∈ W
    · obtain ⟨l, hwait, -⟩ := h t ht
      rw [hwait.step_eq.1]
      exact h
    · have hturn := s.turn_go t choice
      exact hkeep t _ ht (fun u hu => hturn.work_of_ne hu) fun l u hl hu =>
        hturn.locks_of_heldBy hs hl hu
  | start t c =>
    by_cases ht : t ∈ W
    · obtain ⟨l, hwait, -⟩ := h t ht
      rw [hwait.step_eq.2]
      exact h
    · simp only [State.step]
      by_cases hidle : (s.work t).isEmpty = true
      · rw [if_pos hidle]
        exact hkeep t _ ht (fun u hu => setWork_of_ne hu) fun l u hl hu => rfl
      · rw [if_neg hidle]
        exact h

theorem State.Stuck.forever (h : s.Stuck W) (hs : s.Owned) (ms : List (Move T L)) :
    (Runs.run State.step s ms).Stuck W := by
  induction ms generalizing s with
  | nil => exact h
  | cons m ms ih => exact ih (h.step hs m) (hs.step m)

def State.waitRank (s : State T L) (rank : L → Nat) (t : T) : Nat :=
  match s.work t with
  | .run (.locked l _) :: _ => rank l
  | _ => 0

theorem State.not_stuck (hs : s.Owned) {rank : L → Nat} (hordered : ∀ t, Ordered rank (s.work t))
    (hW : W.Nonempty) : ¬ s.Stuck W := by
  intro hstuck
  -- a thread that waits for a mutex of the greatest rank
  obtain ⟨t, ht, hmax⟩ := W.exists_max_image (s.waitRank rank) hW
  obtain ⟨l, ⟨⟨body, k, hwork⟩, -⟩, u, hu, hheld⟩ := hstuck t ht
  obtain ⟨x, ⟨⟨body', k', hwork'⟩, hbusy⟩, -⟩ := hstuck u hu
  have hle : rank x ≤ rank l := by
    grind [waitRank]
  have hx := hordered u
  rw [hwork'] at hx
  have hfree : x ∉ held k' := by
    intro hmem
    have hholds : (s.locks x).HeldBy u := by
      rw [hs.heldBy_iff, hwork']
      exact hmem
    simp [hholds.available] at hbusy
  have hl : l ∈ held k' := by
    have hmem := hs.heldBy_iff.mp hheld
    rwa [hwork'] at hmem
  have hlocked := hx.1
  grind [Code.ordered, List.all_eq_true]

end Turns

end Avb4Linux.Lib.LockOrder
