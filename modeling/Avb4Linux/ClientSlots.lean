import Avb4Linux.Lib.Runs
import Mathlib.Data.List.FinRange
import Mathlib.Logic.Function.Basic

/-!
# The client connections of the daemons

`clientfd` and `nextclientindex` in `maap_daemon.c` and `shaper_daemon.c`.
-/

namespace Avb4Linux

open Lib.Runs Nat

structure Slots (n : Nat) (κ : Type) where
  clientfd : Fin n → Option κ
  nextclientindex : Fin n

namespace Slots

variable {n : Nat} {κ : Type}

/-- The loop that looks for the next available index, from `i` on. It tests the slot at
`nextclientindex` in every turn. -/
def search (s : Slots n κ) : Nat → Nat → Nat
  | 0, i => i
  | fuel + 1, i =>
    if i = s.nextclientindex then i
    else if (s.clientfd s.nextclientindex).isNone then i
    else search s fuel ((i + 1) % n)

def rejects (s : Slots n κ) : Bool :=
  (s.clientfd s.nextclientindex).isSome &&
    s.search n ((s.nextclientindex + 1) % n) = s.nextclientindex

def place (newfd : κ) (s : Slots n κ) : Slots n κ where
  clientfd := Function.update s.clientfd s.nextclientindex (some newfd)
  nextclientindex := ⟨(s.nextclientindex + 1) % n, Nat.mod_lt _ s.nextclientindex.pos⟩

def close (i : Fin n) (s : Slots n κ) : Slots n κ :=
  if (s.clientfd i).isNone then s
  else { clientfd := Function.update s.clientfd i none, nextclientindex := i }

def connected (s : Slots n κ) : Nat :=
  (List.finRange n).countP fun i => (s.clientfd i).isSome

def empty (h : 0 < n) : Slots n κ where
  clientfd := fun _ => none
  nextclientindex := ⟨0, h⟩

inductive Event (n : Nat) (κ : Type) where
  | connect (newfd : Option κ)
  | hangup (i : Fin n)

def step (accept : Option κ → Slots n κ → Slots n κ × Bool) (s : Slots n κ) :
    Event n κ → Slots n κ
  | .connect newfd => (accept newfd s).1
  | .hangup i => s.close i

/-- A new connection is accepted exactly when there is room for it, and no connected
client loses its slot to it. -/
def AcceptRight (accept : Option κ → Slots n κ → Slots n κ × Bool) (newfd : κ) (s : Slots n κ) :
    Prop :=
  ((accept (some newfd) s).2 = true ↔ s.connected < n) ∧
    ∀ i fd, s.clientfd i = some fd → (accept (some newfd) s).1.clientfd i = some fd

theorem search_occupied (s : Slots n κ) (h : (s.clientfd s.nextclientindex).isNone = false)
    (fuel i : Nat) (hi : i < n)
    (hfuel : (s.nextclientindex + n - i) % n ≤ fuel) : s.search fuel i = s.nextclientindex := by
  have hnext : s.nextclientindex.val < n := s.nextclientindex.isLt
  -- the distance from `i` to `nextclientindex`, going round
  induction fuel generalizing i with
  | zero =>
    have hdist : (s.nextclientindex + n - i) % n = 0 := by omega
    rcases lt_or_ge s.nextclientindex.val i with hlt | hge
    · rw [mod_eq_of_lt (by omega)] at hdist
      omega
    · have hback : s.nextclientindex + n - i = (s.nextclientindex - i) + n := by omega
      rw [hback, add_mod_right, mod_eq_of_lt (by omega)] at hdist
      simp only [search]
      omega
  | succ fuel ih =>
    rw [search]
    by_cases heq : i = s.nextclientindex.val
    · rw [if_pos heq]
      exact heq
    rw [if_neg heq, if_neg (by rw [h]; decide)]
    apply ih _ (mod_lt _ (by omega))
    rcases lt_or_ge (i + 1) n with hlt | hge
    · rw [mod_eq_of_lt hlt]
      rcases lt_or_ge s.nextclientindex.val i with hover | hunder
      · rw [mod_eq_of_lt (by omega)] at hfuel ⊢
        omega
      · have hnow : s.nextclientindex + n - i = (s.nextclientindex - i) + n := by omega
        have hthen : s.nextclientindex + n - (i + 1) = (s.nextclientindex - (i + 1)) + n := by
          omega
        rw [hnow, add_mod_right, mod_eq_of_lt (by omega)] at hfuel
        rw [hthen, Nat.add_mod_right, Nat.mod_eq_of_lt (by omega)]
        omega
    · have hend : i + 1 = n := by omega
      rw [hend, Nat.mod_self, Nat.sub_zero, Nat.add_mod_right, Nat.mod_eq_of_lt hnext]
      rw [Nat.mod_eq_of_lt (by omega)] at hfuel
      omega

theorem rejects_eq (s : Slots n κ) : s.rejects = (s.clientfd s.nextclientindex).isSome := by
  have hpos : 0 < n := s.nextclientindex.pos
  unfold rejects
  cases hslot : s.clientfd s.nextclientindex with
  | none => rfl
  | some fd =>
    have hfound : s.search n ((s.nextclientindex + 1) % n) = s.nextclientindex := by
      apply s.search_occupied (by rw [hslot]; rfl) n _ (mod_lt _ hpos)
      exact le_of_lt (mod_lt _ hpos)
    simp [hfound]

theorem connected_eq_iff (s : Slots n κ) : s.connected = n ↔ ∀ i, (s.clientfd i).isSome := by
  unfold connected
  conv_lhs => rhs; rw [← List.length_finRange (n := n)]
  rw [List.countP_eq_length]
  simp

theorem connected_le (s : Slots n κ) : s.connected ≤ n := by
  unfold connected
  conv_rhs => rw [← List.length_finRange (n := n)]
  exact List.countP_le_length

theorem place_keeps (s : Slots n κ) (newfd : κ) (h : s.clientfd s.nextclientindex = none)
    (i : Fin n) (fd : κ) (hi : s.clientfd i = some fd) : (s.place newfd).clientfd i = some fd := by
  have hne : i ≠ s.nextclientindex := by
    rintro rfl
    rw [h] at hi
    cases hi
  simp only [place]
  rwa [Function.update_of_ne hne]

theorem acceptRight_iff {accept : Option κ → Slots n κ → Slots n κ × Bool} (newfd : κ)
    (s : Slots n κ)
    (h : accept (some newfd) s = if s.rejects then (s, false) else (s.place newfd, true)) :
    AcceptRight accept newfd s ↔
      s.clientfd s.nextclientindex = none ∨ ∀ i, (s.clientfd i).isSome := by
  have hle : s.connected ≤ n := s.connected_le
  unfold AcceptRight
  rw [h, rejects_eq]
  cases hslot : s.clientfd s.nextclientindex with
  | none =>
    grind [connected, lt_of_le_of_ne, connected_eq_iff, place_keeps]
  | some fd =>
    grind [connected_eq_iff, connected]

end Slots

def Maap.maxClientConnections : Nat := 32

theorem Maap.maxClientConnections_pos : 0 < maxClientConnections := by decide

/-- What `act_as_server` does with the result of `accept`, and whether it keeps the
connection. -/
def Maap.acceptClient {n : Nat} {κ : Type} (newfd : Option κ) (s : Slots n κ) : Slots n κ × Bool :=
  match newfd with
  | none => (s, false)
  | some fd => if s.rejects then (s, false) else (s.place fd, true)

def Shaper.maxClientConnections : Nat := 10

/-- What `main` of the shaper daemon does with the result of `accept`: it looks for a
slot before it knows that there is a connection. -/
def Shaper.acceptClient {n : Nat} {κ : Type} (newfd : Option κ) (s : Slots n κ) :
    Slots n κ × Bool :=
  match if s.rejects then none else newfd with
  | none => (s, false)
  | some fd => (s.place fd, true)

def Maap.connections {κ : Type} (is : List (Slots.Event Maap.maxClientConnections κ)) :
    Slots Maap.maxClientConnections κ :=
  run (Slots.step Maap.acceptClient) (Slots.empty (by decide)) is

def Shaper.connections {κ : Type} (is : List (Slots.Event Shaper.maxClientConnections κ)) :
    Slots Shaper.maxClientConnections κ :=
  run (Slots.step Shaper.acceptClient) (Slots.empty (by decide)) is

/-- In every state that the daemons reach, a new connection is treated right exactly
when the slot at `nextclientindex` is free or every slot is taken. -/
theorem Slots.connections_right_iff {κ : Type} (newfd : κ)
    (is : List (Slots.Event Maap.maxClientConnections κ))
    (js : List (Slots.Event Shaper.maxClientConnections κ)) :
    (AcceptRight Maap.acceptClient newfd (Maap.connections is) ↔
      (Maap.connections is).clientfd (Maap.connections is).nextclientindex = none ∨
        ∀ i, ((Maap.connections is).clientfd i).isSome) ∧
    (AcceptRight Shaper.acceptClient newfd (Shaper.connections js) ↔
      (Shaper.connections js).clientfd (Shaper.connections js).nextclientindex = none ∨
        ∀ i, ((Shaper.connections js).clientfd i).isSome) := by
  constructor
  · exact acceptRight_iff newfd _ rfl
  · apply acceptRight_iff newfd
    unfold Shaper.acceptClient
    by_cases hrej : (Shaper.connections js).rejects
    · rw [if_pos hrej, if_pos hrej]
    · rw [if_neg hrej, if_neg hrej]

theorem Slots.connections_wrong_after_return :
    ¬ AcceptRight Maap.acceptClient 6 (Maap.connections
        [.connect (some 4), .connect (some 5), .hangup ⟨0, by decide⟩, .connect (some 4)]) ∧
      ¬ AcceptRight Shaper.acceptClient 6 (Shaper.connections
        [.connect (some 4), .connect (some 5), .hangup ⟨0, by decide⟩, .connect (some 4)]) := by
  constructor
  · intro h
    exact absurd (h.1.mpr (by decide)) (by decide)
  · intro h
    exact absurd (h.1.mpr (by decide)) (by decide)

end Avb4Linux
