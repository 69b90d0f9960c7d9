import Avb4Linux.Lib.Runs
import Mathlib.Data.List.Nodup
import Mathlib.Logic.Function.Basic

/-!
# The ticketing lock

`TicketingLock` in `linux_hal_common.cpp`, statement by statement, for any number of threads,
with the mutex and the condition of POSIX.
-/

namespace Avb4Linux.Gptp.TicketingLock

open Lib.Runs List Function

/-- The counters, and the threads that hold tickets, in order; the latter is history. -/
structure Shared (τ : Type) where
  issue : UInt8 := 0
  serving : UInt8 := 0
  queue : List τ := []

/-- Where a thread is. `before` is what a try-lock has found, which is history. -/
inductive Pc (τ : Type) where
  | idle
  | wantLock (got : Bool)
  | entered (got : Bool) (before : Shared τ)
  | check (ticket : UInt8) (trying : Option (Shared τ))
  | asleep (ticket : UInt8)
  | woken (ticket : UInt8)
  | leaving (failed : Option (Shared τ))
  | holding
  | wantUnlock
  | serve
  | broadcast
  | leavingUnlock

structure State (τ : Type) extends Shared τ where
  mutex : Option τ := none
  pc : τ → Pc τ := fun _ => .idle
  taken : List τ := []
  obtained : List τ := []

variable {τ : Type}

namespace Pc

def inMutex : Pc τ → Bool
  | .entered _ _ | .check _ _ | .leaving _ | .serve | .broadcast | .leavingUnlock => true
  | _ => false

def waits : Pc τ → Bool
  | .check _ _ | .asleep _ | .woken _ => true
  | _ => false

def holds : Pc τ → Bool
  | .leaving none | .holding | .wantUnlock | .serve => true
  | _ => false

def ticket : Pc τ → Option UInt8
  | .check k _ | .asleep k | .woken k => some k
  | _ => none

def wake : Pc τ → Pc τ
  | .asleep k => .woken k
  | p => p

theorem wake_inMutex (p : Pc τ) : p.wake.inMutex = p.inMutex := by
  cases p <;> rfl

theorem wake_waits (p : Pc τ) : p.wake.waits = p.waits := by
  cases p <;> rfl

theorem wake_holds (p : Pc τ) : p.wake.holds = p.holds := by
  cases p with
  | leaving failed => cases failed <;> rfl
  | _ => rfl

theorem wake_ticket (p : Pc τ) : p.wake.ticket = p.ticket := by
  cases p <;> rfl

def Alike (p q : Pc τ) : Prop :=
  p.waits = q.waits ∧ p.holds = q.holds ∧ p.ticket = q.ticket

theorem wake_ne_asleep (p : Pc τ) (k : UInt8) : p.wake ≠ .asleep k := by
  cases p <;> simp [wake]

end Pc

namespace State

variable [DecidableEq τ]

def setPc (t : τ) (p : Pc τ) (s : State τ) : State τ :=
  { s with pc := Function.update s.pc t p }

def lockMutex (t : τ) (p : Pc τ) (s : State τ) : State τ :=
  if s.mutex.isNone then { s.setPc t p with mutex := some t } else s

def unlockMutex (t : τ) (p : Pc τ) (s : State τ) : State τ :=
  { s.setPc t p with mutex := none }

def wakeAll (s : State τ) : State τ :=
  { s with pc := fun u => (s.pc u).wake }

def go (t : τ) (s : State τ) : State τ :=
  match s.pc t with
  | .wantLock got => s.lockMutex t (.entered got s.toShared)
  | .entered got before =>
    { s.setPc t (.check s.issue (if got then some before else none)) with
      issue := s.issue + 1, queue := s.queue ++ [t], taken := s.taken ++ [t] }
  | .check ticket trying =>
    if ticket = s.serving then
      { s.setPc t (.leaving none) with obtained := s.obtained ++ [t] }
    else
      match trying with
      | some before =>
        { s.setPc t (.leaving (some before)) with
          issue := s.issue - 1, queue := s.queue.dropLast, taken := s.taken.dropLast }
      | none => s.unlockMutex t (.asleep ticket)
  | .woken ticket => s.lockMutex t (.check ticket none)
  | .leaving none => s.unlockMutex t .holding
  | .leaving (some _) => s.unlockMutex t .idle
  | .wantUnlock => s.lockMutex t .serve
  | .serve =>
    { s.setPc t .broadcast with serving := s.serving + 1, queue := s.queue.tail }
  | .broadcast => s.wakeAll.setPc t .leavingUnlock
  | .leavingUnlock => s.unlockMutex t .idle
  | .idle | .asleep _ | .holding => s

end State

inductive Move (τ : Type) where
  | lock (t : τ) (got : Bool)
  | unlock (t : τ)
  | go (t : τ)
  | wake (t : τ)

def State.step [DecidableEq τ] (s : State τ) : Move τ → State τ
  | .lock t got =>
    match s.pc t with
    | .idle => s.setPc t (.wantLock got)
    | _ => s
  | .unlock t =>
    match s.pc t with
    | .holding => s.setPc t .wantUnlock
    | _ => s
  | .go t => s.go t
  | .wake t =>
    match s.pc t with
    | .asleep k => s.setPc t (.woken k)
    | _ => s

/-- The tickets of the threads in a queue are consecutive, from `n` up to `e`; those that
have obtained the lock do not need theirs any more. -/
def Numbered (ticket : τ → Option UInt8) : UInt8 → List τ → UInt8 → Prop
  | n, [], e => n = e
  | n, t :: q, e => (∀ k, ticket t = some k → k = n) ∧ Numbered ticket (n + 1) q e

section Numbered

variable {ticket ticket' : τ → Option UInt8} {n e : UInt8} {q : List τ} {t : τ}

theorem Numbered.congr (h : Numbered ticket n q e) (heq : ∀ t ∈ q, ∀ k, ticket' t = some k →
    ticket t = some k) : Numbered ticket' n q e := by
  induction q generalizing n with
  | nil => exact h
  | cons u q ih =>
    refine ⟨fun k hk => h.1 k (heq u mem_cons_self k hk), ?_⟩
    exact ih h.2 fun t ht => heq t (mem_cons_of_mem u ht)

theorem Numbered.snoc (h : Numbered ticket n q e) (ht : ∀ k, ticket t = some k → k = e) :
    Numbered ticket n (q ++ [t]) (e + 1) := by
  induction q generalizing n with
  | nil =>
    obtain rfl : n = e := h
    exact ⟨ht, rfl⟩
  | cons u q ih => exact ⟨h.1, ih h.2⟩

theorem Numbered.of_snoc (h : Numbered ticket n (q ++ [t]) (e + 1)) : Numbered ticket n q e := by
  induction q generalizing n with
  | nil =>
    have heq : n + 1 = e + 1 := h.2
    exact (UInt8.add_left_inj 1).mp heq
  | cons u q ih => exact ⟨h.1, ih h.2⟩

theorem Numbered.index (h : Numbered ticket n q e) (ht : t ∈ q) {k : UInt8}
    (hk : ticket t = some k) :
    ∃ i, i < q.length ∧ k.toNat = (n.toNat + i) % 256 ∧ (i = 0 → q.head? = some t) := by
  induction q generalizing n with
  | nil => cases ht
  | cons u q ih =>
    by_cases hu : t = u
    · subst hu
      obtain rfl := h.1 k hk
      refine ⟨0, Nat.succ_pos _, ?_, fun _ => rfl⟩
      have hlt := k.toNat_lt
      omega
    · obtain ⟨i, hi, hmod, -⟩ := ih h.2 ((mem_cons.mp ht).resolve_left hu)
      refine ⟨i + 1, Nat.succ_lt_succ hi, ?_, fun h0 => absurd h0 (Nat.succ_ne_zero i)⟩
      rw [UInt8.toNat_add, UInt8.toNat_one] at hmod
      omega

theorem Numbered.first (h : Numbered ticket n q e) (hlen : q.length < 256) (ht : t ∈ q)
    (hk : ticket t = some n) : q.head? = some t := by
  grind [index]

end Numbered

def Pc.Found (t : τ) (now : Shared τ) : Pc τ → Prop
  | .entered _ before => now = before
  | .check _ (some before) =>
    now = ⟨before.issue + 1, before.serving, before.queue ++ [t]⟩
  | .leaving (some before) => now = before
  | _ => True

theorem Pc.found_of_outside {p : Pc τ} (h : p.inMutex = false) (t : τ) (now : Shared τ) :
    p.Found t now := by
  cases p <;> trivial

def State.Ordered (s : State τ) : Prop :=
  ∃ past, s.taken = past ++ s.queue ∧
    ((s.obtained = past ∧ ∀ t, (s.pc t).holds = false) ∨
      ∃ t, (s.pc t).holds = true ∧ s.obtained = past ++ [t])

theorem State.Ordered.congr {s s' : State τ} (h : s.Ordered)
    (hholds : ∀ t, (s'.pc t).holds = (s.pc t).holds) (hobtained : s'.obtained = s.obtained)
    (htaken : ∀ past, s.taken = past ++ s.queue → s'.taken = past ++ s'.queue) : s'.Ordered := by
  obtain ⟨past, hpast, hcases⟩ := h
  refine ⟨past, htaken past hpast, ?_⟩
  grind

structure State.Inv (s : State τ) : Prop where
  mutex : ∀ t, s.mutex = some t ↔ (s.pc t).inMutex = true
  queued : ∀ t, t ∈ s.queue ↔ (s.pc t).waits = true ∨ (s.pc t).holds = true
  nodup : s.queue.Nodup
  small : s.queue.length < 256
  numbered : Numbered (fun t => (s.pc t).ticket) s.serving s.queue s.issue
  first : ∀ t, (s.pc t).holds = true → s.queue.head? = some t
  awake : ∀ t, s.pc t = .asleep s.serving → ∃ u, s.pc u = .broadcast
  found : ∀ t, (s.pc t).Found t s.toShared
  ordered : s.Ordered

section Step

variable {s : State τ} {t : τ}

theorem State.Inv.outside (h : s.Inv) (hmutex : s.mutex = some t) {u : τ} (hu : u ≠ t) :
    (s.pc u).inMutex = false := by
  rw [Bool.eq_false_iff]
  intro hin
  have hm := (h.mutex u).mpr hin
  rw [hmutex] at hm
  cases hm
  exact hu rfl

theorem State.Inv.outside_of_free (h : s.Inv) (hmutex : s.mutex = none) (u : τ) :
    (s.pc u).inMutex = false := by
  rw [Bool.eq_false_iff]
  intro hin
  have hm := (h.mutex u).mpr hin
  rw [hmutex] at hm
  cases hm

theorem State.Inv.alone (h : s.Inv) {u : τ} (ht : (s.pc t).holds = true)
    (hu : (s.pc u).holds = true) : t = u :=
  Option.some_inj.mp ((h.first t ht).symm.trans (h.first u hu))

theorem State.Inv.free_of_first (h : s.Inv) (hhead : s.queue.head? = some t)
    (ht : (s.pc t).holds = false) (u : τ) : (s.pc u).holds = false := by
  rw [Bool.eq_false_iff]
  intro hu
  have heq := hhead.symm.trans (h.first u hu)
  cases heq
  rw [ht] at hu
  cases hu

variable [DecidableEq τ]

variable {p : Pc τ}

theorem State.Inv.setPc (h : s.Inv) {m : Option τ} (hlike : p.Alike (s.pc t))
    (hmutex : ∀ u, m = some u ↔ (Function.update s.pc t p u).inMutex = true)
    (hawake : s.pc t ≠ .broadcast ∨ ∀ u, s.pc u ≠ .asleep s.serving)
    (hasleep : p ≠ .asleep s.serving) (hfound : p.Found t s.toShared) :
    ({ s.setPc t p with mutex := m } : State τ).Inv := by
  -- the three readings of the place that the queue depends on do not change for any thread
  have same : ∀ {α : Type} (f : Pc τ → α), f p = f (s.pc t) →
      ∀ u, f (Function.update s.pc t p u) = f (s.pc u) := by
    grind
  have hw := same _ hlike.1
  have hh := same _ hlike.2.1
  have ht := same _ hlike.2.2
  constructor
  · exact hmutex
  · intro u
    change u ∈ s.queue ↔ _
    rw [h.queued u, ← hw u, ← hh u]
    rfl
  · exact h.nodup
  · exact h.small
  · apply h.numbered.congr
    intro u _ k hk
    rw [← ht u]
    exact hk
  · intro u hu
    exact h.first u ((hh u).symm.trans hu)
  · intro u hu
    change Function.update s.pc t p u = .asleep s.serving at hu
    by_cases hut : u = t
    · grind
    · rw [update_of_ne hut] at hu
      obtain ⟨v, hv⟩ := h.awake u hu
      have hvt : v ≠ t := by
        rintro rfl
        exact hawake.elim (· hv) (· u hu)
      exact ⟨v, (update_of_ne hvt _ _).trans hv⟩
  · intro u
    change (Function.update s.pc t p u).Found u s.toShared
    grind [found]
  · exact h.ordered.congr hh rfl fun _ htaken => htaken

theorem State.Inv.moves (h : s.Inv) (hlike : p.Alike (s.pc t))
    (hbefore : (s.pc t).inMutex = false) (hafter : p.inMutex = false)
    (hasleep : p ≠ .asleep s.serving) : (s.setPc t p).Inv := by
  refine h.setPc hlike ?_ ?_ hasleep (p.found_of_outside hafter t _)
  · intro u
    rw [h.mutex u]
    grind
  · left
    intro heq
    rw [heq] at hbefore
    cases hbefore

theorem State.Inv.lockMutex (h : s.Inv) (hlike : p.Alike (s.pc t))
    (hbefore : (s.pc t).inMutex = false) (hafter : p.inMutex = true)
    (hfound : p.Found t s.toShared) : (s.lockMutex t p).Inv := by
  unfold State.lockMutex
  split
  next hfree =>
    have hnone : s.mutex = none := Option.isNone_iff_eq_none.mp hfree
    refine h.setPc hlike ?_ ?_ ?_ hfound
    · intro u
      by_cases hu : u = t
      · subst hu
        simp [hafter]
      · rw [update_of_ne hu, h.outside_of_free hnone u]
        simp [Ne.symm hu]
    · left
      intro heq
      rw [heq] at hbefore
      cases hbefore
    · intro heq
      rw [heq] at hafter
      cases hafter
  next => exact h

theorem State.Inv.unlockMutex (h : s.Inv) (hlike : p.Alike (s.pc t))
    (hbefore : (s.pc t).inMutex = true) (hafter : p.inMutex = false)
    (hbroadcast : s.pc t ≠ .broadcast) (hasleep : p ≠ .asleep s.serving) :
    (s.unlockMutex t p).Inv := by
  refine h.setPc hlike ?_ (.inl hbroadcast) hasleep (p.found_of_outside hafter t _)
  intro u
  by_cases hu : u = t
  · subst hu
    rw [update_self, hafter]
    simp
  · rw [update_of_ne hu, h.outside ((h.mutex t).mpr hbefore) hu]
    simp

theorem State.Inv.mutex_of_inside (h : s.Inv) (hin : (s.pc t).inMutex = true)
    (hp : p.inMutex = true) (u : τ) :
    s.mutex = some u ↔ (Function.update s.pc t p u).inMutex = true := by
  grind [mutex, Pc.inMutex]

theorem State.Inv.found_of_inside (h : s.Inv) (hin : (s.pc t).inMutex = true) {now : Shared τ}
    (hp : p.Found t now) (u : τ) : (Function.update s.pc t p u).Found u now := by
  revert u
  refine (forall_update_iff s.pc fun u q => q.Found u now).mpr ⟨hp, fun u hu => ?_⟩
  exact Pc.found_of_outside (h.outside ((h.mutex t).mpr hin) hu) u now

theorem State.Inv.awake_of_inside (h : s.Inv) (hin : (s.pc t).inMutex = true)
    (hpc : s.pc t ≠ .broadcast) (hp : p ≠ .asleep s.serving) (u : τ)
    (hu : Function.update s.pc t p u = .asleep s.serving) :
    ∃ v, Function.update s.pc t p v = .broadcast := by
  by_cases hut : u = t
  · grind
  · rw [update_of_ne hut] at hu
    obtain ⟨v, hv⟩ := h.awake u hu
    have hvt : v ≠ t := by
      rintro rfl
      exact hpc hv
    have hout := h.outside ((h.mutex t).mpr hin) hvt
    rw [hv] at hout
    cases hout

theorem holders_update {pc : τ → Pc τ} (hp : p.holds = (pc t).holds) (u : τ) :
    (Function.update pc t p u).holds = (pc u).holds := by
  grind

theorem ticket_update {pc : τ → Pc τ} {q : List τ} (ht : t ∉ q) :
    ∀ u ∈ q, ∀ k, (Function.update pc t p u).ticket = some k → (pc u).ticket = some k := by
  grind

theorem State.Inv.takesTicket (h : s.Inv) {got : Bool} {before : Shared τ}
    (hpc : s.pc t = .entered got before) (hsmall : s.queue.length + 1 < 256) :
    ({ s.setPc t (.check s.issue (if got then some before else none)) with
      issue := s.issue + 1, queue := s.queue ++ [t], taken := s.taken ++ [t] } : State τ).Inv := by
  have hin : (s.pc t).inMutex = true := by rw [hpc]; rfl
  have hholds : (s.pc t).holds = false := by rw [hpc]; rfl
  have hnotIn : t ∉ s.queue := by
    rw [h.queued t, hpc]
    simp [Pc.waits, Pc.holds]
  generalize hp : Pc.check s.issue (if got then some before else none) = p
  have hpholds : p.holds = false := by rw [← hp]; rfl
  constructor
  · exact h.mutex_of_inside hin (by rw [← hp]; rfl)
  · refine (forall_update_iff s.pc fun u q =>
      u ∈ s.queue ++ [t] ↔ q.waits = true ∨ q.holds = true).mpr ⟨?_, fun u hu => ?_⟩
    · rw [← hp]
      simp [Pc.waits]
    · rw [← h.queued u, mem_append, mem_singleton, or_iff_left hu]
  · exact nodup_append.mpr ⟨h.nodup, nodup_singleton t, by
      rintro a ha b hb rfl
      exact hnotIn (mem_singleton.mp hb ▸ ha)⟩
  · grind
  · apply Numbered.snoc
    · exact h.numbered.congr (ticket_update hnotIn)
    · intro k hk
      change (Function.update s.pc t _ t).ticket = some k at hk
      rw [update_self, ← hp] at hk
      cases hk
      rfl
  · refine (forall_update_iff s.pc fun u q =>
      q.holds = true → (s.queue ++ [t]).head? = some u).mpr ⟨fun hu => ?_, fun u _ hu => ?_⟩
    · rw [hpholds] at hu
      cases hu
    · rw [List.head?_append, h.first u hu]
      rfl
  · exact h.awake_of_inside hin (by rw [hpc]; simp) (by rw [← hp]; simp)
  · apply h.found_of_inside hin
    have hfound := h.found t
    rw [hpc] at hfound
    obtain rfl : s.toShared = before := hfound
    rw [← hp]
    cases got
    · trivial
    · rfl
  · refine h.ordered.congr (holders_update (hpholds.trans hholds.symm)) rfl fun past htaken => ?_
    grind

theorem State.Inv.obtains (h : s.Inv) {trying : Option (Shared τ)}
    (hpc : s.pc t = .check s.serving trying) :
    ({ s.setPc t (.leaving none) with obtained := s.obtained ++ [t] } : State τ).Inv := by
  have hin : (s.pc t).inMutex = true := by rw [hpc]; rfl
  have hmem : t ∈ s.queue := by
    rw [h.queued t, hpc]
    exact .inl rfl
  have hhead : s.queue.head? = some t :=
    h.numbered.first h.small hmem (congrArg Pc.ticket hpc)
  have hfree := h.free_of_first hhead (by rw [hpc]; rfl)
  constructor
  · exact h.mutex_of_inside hin rfl
  · refine (forall_update_iff s.pc fun u q =>
      u ∈ s.queue ↔ q.waits = true ∨ q.holds = true).mpr ⟨?_, fun u _ => h.queued u⟩
    simp [hmem, Pc.holds]
  · exact h.nodup
  · exact h.small
  · apply h.numbered.congr
    refine (forall_update_iff s.pc fun u q => u ∈ s.queue → ∀ k, q.ticket = some k →
      (s.pc u).ticket = some k).mpr ⟨fun _ k hk => ?_, fun u _ _ k hk => hk⟩
    cases hk
  · exact (forall_update_iff s.pc fun u q =>
      q.holds = true → s.queue.head? = some u).mpr ⟨fun _ => hhead, fun u _ => h.first u⟩
  · exact h.awake_of_inside hin (by rw [hpc]; simp) (by simp)
  · exact h.found_of_inside hin trivial
  · obtain ⟨past, htaken, ⟨heq, -⟩ | ⟨v, hv, -⟩⟩ := h.ordered
    · refine ⟨past, htaken, .inr ⟨t, congrArg Pc.holds (update_self t _ s.pc), ?_⟩⟩
      exact congrArg (· ++ [t]) heq
    · rw [hfree v] at hv
      cases hv

theorem State.Inv.givesBack (h : s.Inv) {k : UInt8} {before : Shared τ}
    (hpc : s.pc t = .check k (some before)) (hk : k ≠ s.serving) :
    ({ s.setPc t (.leaving (some before)) with
      issue := s.issue - 1, queue := s.queue.dropLast, taken := s.taken.dropLast } : State τ).Inv := by
  have hin : (s.pc t).inMutex = true := by rw [hpc]; rfl
  have hfound : s.toShared = ⟨before.issue + 1, before.serving, before.queue ++ [t]⟩ := by
    have hfound := h.found t
    rw [hpc] at hfound
    exact hfound
  have hissue : s.issue = before.issue + 1 := by rw [hfound]
  have hserving : s.serving = before.serving := by rw [hfound]
  have hqueue : s.queue = before.queue ++ [t] := by rw [hfound]
  have hdrop : s.queue.dropLast = before.queue := by rw [hqueue, dropLast_concat]
  have hnodup := h.nodup
  rw [hqueue, nodup_append] at hnodup
  have hnotIn : t ∉ before.queue := fun hmem => hnodup.2.2 t hmem t (mem_singleton_self t) rfl
  -- the ticket is not served, so somebody is before this thread
  have hne : before.queue ≠ [] := by
    intro hnil
    have hnum := h.numbered
    rw [hqueue, hnil] at hnum
    exact hk (hnum.1 k (congrArg Pc.ticket hpc))
  have hheads : s.queue.head? = before.queue.head? := by
    rw [hqueue, List.head?_append_of_ne_nil _ hne]
  constructor
  · exact h.mutex_of_inside hin rfl
  · change ∀ u, u ∈ s.queue.dropLast ↔ _
    rw [hdrop]
    refine (forall_update_iff s.pc fun u q =>
      u ∈ before.queue ↔ q.waits = true ∨ q.holds = true).mpr ⟨?_, fun u hu => ?_⟩
    · simp [hnotIn, Pc.waits, Pc.holds]
    · rw [← h.queued u, hqueue, mem_append, mem_singleton, or_iff_left hu]
  · exact h.nodup.sublist (dropLast_sublist s.queue)
  · exact Nat.lt_of_le_of_lt (dropLast_sublist s.queue).length_le h.small
  · have hnum := h.numbered
    rw [hqueue, hissue] at hnum
    change Numbered _ s.serving s.queue.dropLast (s.issue - 1)
    rw [hdrop, hissue, UInt8.add_sub_cancel]
    exact hnum.of_snoc.congr (ticket_update hnotIn)
  · change ∀ u, _ → s.queue.dropLast.head? = some u
    rw [hdrop, ← hheads]
    refine (forall_update_iff s.pc fun u q =>
      q.holds = true → s.queue.head? = some u).mpr ⟨fun hu => ?_, fun u _ => h.first u⟩
    cases hu
  · exact h.awake_of_inside hin (by rw [hpc]; simp) (by simp)
  · apply h.found_of_inside hin
    change (⟨s.issue - 1, s.serving, s.queue.dropLast⟩ : Shared τ) = before
    rw [hdrop, hissue, hserving, UInt8.add_sub_cancel]
  · refine h.ordered.congr (holders_update (by rw [hpc]; rfl)) rfl fun past htaken => ?_
    grind

theorem State.Inv.serves (h : s.Inv) (hpc : s.pc t = .serve) :
    ({ s.setPc t .broadcast with serving := s.serving + 1, queue := s.queue.tail } : State τ).Inv := by
  have hin : (s.pc t).inMutex = true := by rw [hpc]; rfl
  have hholds : (s.pc t).holds = true := by rw [hpc]; rfl
  obtain ⟨rest, hqueue⟩ : ∃ rest, s.queue = t :: rest :=
    List.head?_eq_some_iff.mp (h.first t hholds)
  have htail : s.queue.tail = rest := by rw [hqueue, tail_cons]
  have hnodup := h.nodup
  rw [hqueue, nodup_cons] at hnodup
  have hfree : ∀ u, u ≠ t → (s.pc u).holds = false := by
    grind [alone]
  constructor
  · exact h.mutex_of_inside hin rfl
  · change ∀ u, u ∈ s.queue.tail ↔ _
    rw [htail]
    refine (forall_update_iff s.pc fun u q =>
      u ∈ rest ↔ q.waits = true ∨ q.holds = true).mpr ⟨?_, fun u hu => ?_⟩
    · simp [hnodup.1, Pc.waits, Pc.holds]
    · rw [← h.queued u, hqueue, mem_cons, or_iff_right hu]
  · exact h.nodup.sublist (tail_sublist s.queue)
  · exact Nat.lt_of_le_of_lt (tail_sublist s.queue).length_le h.small
  · have hnum := h.numbered
    rw [hqueue] at hnum
    change Numbered _ (s.serving + 1) s.queue.tail s.issue
    rw [htail]
    exact hnum.2.congr (ticket_update hnodup.1)
  · refine (forall_update_iff s.pc fun u q =>
      q.holds = true → s.queue.tail.head? = some u).mpr ⟨fun hu => ?_, fun u hu hholdsU => ?_⟩
    · cases hu
    · rw [hfree u hu] at hholdsU
      cases hholdsU
  · intro u _
    exact ⟨t, update_self t _ s.pc⟩
  · exact h.found_of_inside hin trivial
  · obtain ⟨past, htaken, ⟨-, hnone⟩ | ⟨v, hv, heq⟩⟩ := h.ordered
    · rw [hnone t] at hholds
      cases hholds
    · obtain rfl := h.alone hv hholds
      refine ⟨past ++ [v], ?_, .inl ⟨heq, ?_⟩⟩
      · change s.taken = past ++ [v] ++ s.queue.tail
        rw [htaken, hqueue, append_assoc]
        rfl
      · exact (forall_update_iff s.pc fun u q => q.holds = false).mpr ⟨rfl, hfree⟩

omit [DecidableEq τ] in
theorem State.Inv.wakeAll (h : s.Inv) : s.wakeAll.Inv := by
  have holders : ∀ u, (s.wakeAll.pc u).holds = (s.pc u).holds := fun u => (s.pc u).wake_holds
  constructor
  · intro u
    exact (h.mutex u).trans (by rw [← (s.pc u).wake_inMutex]; rfl)
  · intro u
    exact (h.queued u).trans (by rw [← (s.pc u).wake_waits, ← holders u]; rfl)
  · exact h.nodup
  · exact h.small
  · exact h.numbered.congr fun u _ k hk => (s.pc u).wake_ticket.symm.trans hk
  · intro u hu
    exact h.first u ((holders u).symm.trans hu)
  · intro u hu
    exact absurd hu ((s.pc u).wake_ne_asleep _)
  · intro u
    have hfound := h.found u
    change (s.pc u).wake.Found u s.toShared
    cases hpc : s.pc u <;> rw [hpc] at hfound <;> exact hfound
  · exact h.ordered.congr holders rfl fun _ htaken => htaken

theorem State.Inv.broadcasts (h : s.Inv) (hpc : s.pc t = .broadcast) :
    (s.wakeAll.setPc t .leavingUnlock).Inv := by
  have hwoken : s.wakeAll.pc t = .broadcast := congrArg Pc.wake hpc
  have hin : (s.wakeAll.pc t).inMutex = true := by rw [hwoken]; rfl
  refine h.wakeAll.setPc ?_ (h.wakeAll.mutex_of_inside hin rfl) ?_ (by simp) trivial
  · rw [hwoken]
    exact ⟨rfl, rfl, rfl⟩
  · exact .inr fun u => (s.pc u).wake_ne_asleep _

theorem State.Inv.go (h : s.Inv) (t : τ) (hsmall : (s.go t).queue.length < 256) :
    (s.go t).Inv := by
  cases hpc : s.pc t with
  | wantLock got =>
    rw [State.go, hpc]
    exact h.lockMutex (by rw [hpc]; exact ⟨rfl, rfl, rfl⟩) (by rw [hpc]; rfl) rfl rfl
  | entered got before =>
    grind [go, takesTicket]
  | check k trying =>
    simp only [State.go, hpc]
    split
    next hk =>
      subst hk
      exact h.obtains hpc
    next hk =>
      cases trying with
      | some before => exact h.givesBack hpc hk
      | none =>
        exact h.unlockMutex (by rw [hpc]; exact ⟨rfl, rfl, rfl⟩) (by rw [hpc]; rfl) rfl (by rw [hpc]; simp) (by simpa using hk)
  | woken k =>
    rw [State.go, hpc]
    exact h.lockMutex (by rw [hpc]; exact ⟨rfl, rfl, rfl⟩) (by rw [hpc]; rfl) rfl trivial
  | leaving failed =>
    cases failed <;> rw [State.go, hpc] <;>
    exact h.unlockMutex (by rw [hpc]; exact ⟨rfl, rfl, rfl⟩) (by rw [hpc]; rfl) rfl (by rw [hpc]; simp) (by simp)
  | wantUnlock =>
    rw [State.go, hpc]
    exact h.lockMutex (by rw [hpc]; exact ⟨rfl, rfl, rfl⟩) (by rw [hpc]; rfl) rfl trivial
  | serve =>
    rw [State.go, hpc]
    exact h.serves hpc
  | broadcast =>
    rw [State.go, hpc]
    exact h.broadcasts hpc
  | leavingUnlock =>
    rw [State.go, hpc]
    exact h.unlockMutex (by rw [hpc]; exact ⟨rfl, rfl, rfl⟩) (by rw [hpc]; rfl) rfl (by rw [hpc]; simp) (by simp)
  | idle | asleep _ | holding =>
    rw [State.go, hpc]
    exact h

theorem State.Inv.step (h : s.Inv) (m : Move τ) (hsmall : (s.step m).queue.length < 256) :
    (s.step m).Inv := by
  cases m with
  | lock t got =>
    cases hpc : s.pc t <;> simp only [State.step, hpc] <;> first
      | exact h
      | exact h.moves (by rw [hpc]; exact ⟨rfl, rfl, rfl⟩) (by rw [hpc]; rfl) rfl (by simp)
  | unlock t =>
    cases hpc : s.pc t <;> simp only [State.step, hpc] <;> first
      | exact h
      | exact h.moves (by rw [hpc]; exact ⟨rfl, rfl, rfl⟩) (by rw [hpc]; rfl) rfl (by simp)
  | go t => exact h.go t hsmall
  | wake t =>
    cases hpc : s.pc t <;> simp only [State.step, hpc] <;> first
      | exact h
      | exact h.moves (by rw [hpc]; exact ⟨rfl, rfl, rfl⟩) (by rw [hpc]; rfl) rfl (by simp)

omit [DecidableEq τ] in
theorem State.Inv.initial : (({} : State τ)).Inv where
  mutex _ := by simp [Pc.inMutex]
  queued _ := by simp [Pc.waits, Pc.holds]
  nodup := nodup_nil
  small := Nat.succ_pos _
  numbered := rfl
  first _ h := by cases h
  awake _ h := by cases h
  found _ := trivial
  ordered := ⟨[], rfl, .inl ⟨rfl, fun _ => rfl⟩⟩

end Step

structure State.Right [DecidableEq τ] (s : State τ) : Prop where
  exclusive : ∀ t u, (s.pc t).holds = true → (s.pc u).holds = true → t = u
  queued : ∀ t, t ∈ s.queue ↔ (s.pc t).waits = true ∨ (s.pc t).holds = true
  inOrder : s.obtained <+: s.taken
  failedTry : ∀ t before, s.pc t = .leaving (some before) → s.toShared = before
  released : ∀ t, s.mutex = some t →
    ∃ n ≤ 3, (run State.step s (List.replicate n (.go t))).mutex = none
  admitted : ∀ t, s.mutex = none → (∀ u, (s.pc u).holds = false) → s.queue.head? = some t →
    ((run State.step s [.go t, .go t]).pc t).holds = true
  handover : ∀ t u rest, s.pc t = .serve → s.queue = t :: u :: rest →
    ((run State.step s [.go t, .go t, .go t, .go u, .go u]).pc u).holds = true

section Progress

variable [DecidableEq τ] {s : State τ} {t : τ}
variable {k : UInt8}

theorem State.go_of_mutex (hmutex : s.mutex = none) (hpc : s.pc t = .woken k) :
    s.go t = { s.setPc t (.check k none) with mutex := some t } := by
  rw [State.go, hpc]
  simp [State.lockMutex, hmutex]

theorem State.mutex_of_leaving (failed : Option (Shared τ)) (hpc : s.pc t = .leaving failed) :
    (s.go t).mutex = none := by
  cases failed <;> simp [State.go, hpc, State.unlockMutex]

theorem State.released_of_check {trying : Option (Shared τ)} (hpc : s.pc t = .check k trying) :
    ∃ n ≤ 2, (run State.step s (List.replicate n (.go t))).mutex = none := by
  by_cases hk : k = s.serving
  · refine ⟨2, Nat.le_refl 2, mutex_of_leaving none ?_⟩
    simp [State.step, State.go, hpc, hk, State.setPc]
  · cases trying with
    | none =>
      refine ⟨1, Nat.le_succ 1, ?_⟩
      simp [State.step, State.go, hpc, hk, State.unlockMutex]
    | some before =>
      refine ⟨2, Nat.le_refl 2, mutex_of_leaving (some before) ?_⟩
      simp [State.step, State.go, hpc, hk, State.setPc]

theorem State.Inv.released (h : s.Inv) (hmutex : s.mutex = some t) :
    ∃ n ≤ 3, (run State.step s (List.replicate n (.go t))).mutex = none := by
  have hin := (h.mutex t).mp hmutex
  cases hpc : s.pc t with
  | entered got before =>
    have hnext : (s.step (.go t)).pc t = .check s.issue (if got then some before else none) := by
      simp [State.step, State.go, hpc, State.setPc]
    obtain ⟨n, hn, hfree⟩ := released_of_check hnext
    exact ⟨n + 1, Nat.succ_le_succ hn, hfree⟩
  | check k trying =>
    grind [released_of_check, Nat.le_succ_of_le]
  | leaving failed => exact ⟨1, by decide, mutex_of_leaving failed hpc⟩
  | serve =>
    refine ⟨3, Nat.le_refl 3, ?_⟩
    simp [State.step, State.go, hpc, State.setPc, State.wakeAll, State.unlockMutex, Pc.wake]
  | broadcast =>
    refine ⟨2, by decide, ?_⟩
    simp [State.step, State.go, hpc, State.setPc, State.wakeAll, State.unlockMutex]
  | leavingUnlock =>
    refine ⟨1, by decide, ?_⟩
    simp [State.step, State.go, hpc, State.unlockMutex]
  | idle | wantLock _ | asleep _ | woken _ | holding | wantUnlock =>
    rw [hpc] at hin
    cases hin

omit [DecidableEq τ] in
theorem State.Inv.served (h : s.Inv) (hhead : s.queue.head? = some t)
    (hk : (s.pc t).ticket = some k) : k = s.serving := by
  obtain ⟨rest, hqueue⟩ := List.head?_eq_some_iff.mp hhead
  have hnum := h.numbered
  rw [hqueue] at hnum
  exact hnum.1 k hk

omit [DecidableEq τ] in
theorem State.Inv.woken_of_first (h : s.Inv) (hmutex : s.mutex = none)
    (hfree : ∀ u, (s.pc u).holds = false) (hhead : s.queue.head? = some t) :
    s.pc t = .woken s.serving := by
  have hwaits : (s.pc t).waits = true := by
    have hq := (h.queued t).mp (mem_of_mem_head? hhead)
    rwa [hfree t, or_iff_left Bool.false_ne_true] at hq
  have hout := h.outside_of_free hmutex
  cases hpc : s.pc t with
  | woken k => rw [h.served hhead (congrArg Pc.ticket hpc)]
  | asleep k =>
    rw [h.served hhead (congrArg Pc.ticket hpc)] at hpc
    -- somebody would be about to wake it, in the mutex
    obtain ⟨v, hv⟩ := h.awake t hpc
    have hvout := hout v
    rw [hv] at hvout
    cases hvout
  | check k trying =>
    have htout := hout t
    rw [hpc] at htout
    cases htout
  | _ =>
    rw [hpc] at hwaits
    cases hwaits

theorem State.Inv.admitted (h : s.Inv) (hmutex : s.mutex = none)
    (hfree : ∀ u, (s.pc u).holds = false) (hhead : s.queue.head? = some t) :
    ((run State.step s [.go t, .go t]).pc t).holds = true := by
  have hpc := h.woken_of_first hmutex hfree hhead
  rw [run_cons]
  change ((s.go t).go t |>.pc t).holds = true
  rw [go_of_mutex hmutex hpc]
  simp [State.go, State.setPc, Pc.holds]

def State.unlocked (t : τ) (s : State τ) : State τ :=
  (({ s.setPc t .broadcast with
      serving := s.serving + 1, queue := s.queue.tail } : State τ).wakeAll.setPc t
    .leavingUnlock).unlockMutex t .idle

theorem State.unlocked_eq (hpc : s.pc t = .serve) :
    run State.step s [.go t, .go t, .go t] = s.unlocked t := by
  simp [State.step, State.go, hpc, State.setPc, State.wakeAll, State.unlocked, Pc.wake]

theorem State.Inv.unlocked (h : s.Inv) (hpc : s.pc t = .serve) : (s.unlocked t).Inv := by
  have hbroadcast := (h.serves hpc).broadcasts (update_self t _ s.pc)
  refine hbroadcast.unlockMutex ?_ ?_ rfl ?_ (by simp)
  all_goals simp only [State.setPc, update_self]
  · exact ⟨rfl, rfl, rfl⟩
  · rfl
  · simp

theorem State.Inv.handover (h : s.Inv) (hpc : s.pc t = .serve) {u : τ} {rest : List τ}
    (hqueue : s.queue = t :: u :: rest) :
    ((run State.step s [.go t, .go t, .go t, .go u, .go u]).pc u).holds = true := by
  have hunlocked := h.unlocked hpc
  have hut : u ≠ t := by
    have hnodup := h.nodup
    grind
  have hhead : (s.unlocked t).queue.head? = some u := by
    change s.queue.tail.head? = some u
    rw [hqueue]
    rfl
  have hwaits : ((s.unlocked t).pc u).holds = false := by
    simp only [State.unlocked, State.unlockMutex, State.setPc, State.wakeAll,
      update_of_ne hut, Pc.wake_holds]
    rw [Bool.eq_false_iff]
    intro hu
    exact hut (h.alone hu (by rw [hpc]; rfl))
  rw [show [Move.go t, .go t, .go t, .go u, .go u] = [.go t, .go t, .go t] ++ [.go u, .go u]
    from rfl, run_append, unlocked_eq hpc]
  exact hunlocked.admitted rfl (hunlocked.free_of_first hhead hwaits) hhead

theorem State.Inv.right (h : s.Inv) : s.Right where
  exclusive _ _ := h.alone
  queued := h.queued
  inOrder := by
    obtain ⟨past, htaken, ⟨heq, -⟩ | ⟨t, ht, heq⟩⟩ := h.ordered
    · rw [htaken, heq]
      exact prefix_append past s.queue
    · obtain ⟨rest, hqueue⟩ := List.head?_eq_some_iff.mp (h.first t ht)
      rw [htaken, heq, hqueue]
      exact ⟨rest, by simp⟩
  failedTry t before hpc := by
    have hfound := h.found t
    rw [hpc] at hfound
    exact hfound
  released _ := h.released
  admitted _ := h.admitted
  handover _ _ _ hpc := h.handover hpc

end Progress

/-- However the threads are scheduled, the lock is right as long as fewer than 256 tickets
are out. -/
theorem lock_right [DecidableEq τ] (ms : List (Move τ))
    (hfew : Along State.step (fun s m => (s.step m).queue.length < 256) ({} : State τ) ms) :
    (run State.step ({} : State τ) ms).Right :=
  (run_invariant (fun _ m hsmall h => h.step m hsmall) _ ms State.Inv.initial hfew).right

def threeThreads : List (Move (Fin 3)) :=
  [.lock 0 false, .go 0, .go 0, .go 0, .go 0,
    .lock 1 false, .go 1, .go 1, .go 1,
    .lock 2 true, .go 2, .go 2, .go 2, .go 2,
    .unlock 0, .go 0, .go 0, .go 0, .go 0, .go 1, .go 1]

theorem threeThreads_right :
    (run State.step ({} : State (Fin 3)) threeThreads).obtained = [0, 1] ∧
      (run State.step ({} : State (Fin 3)) threeThreads).Right :=
  ⟨by decide, lock_right threeThreads (by decide)⟩

end Avb4Linux.Gptp.TicketingLock
