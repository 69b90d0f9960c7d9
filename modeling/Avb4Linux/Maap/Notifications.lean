import Avb4Linux.Maap.Reservation

/-!
# The queue of notifications

What `add_notify` queues is handed out by `get_notify` once and in order, as long as the
client is not initialized while something is queued.
-/

namespace Avb4Linux.Maap

open Lib Lib.Fallible

variable {σ : Type} {c c' : Client σ}

def Client.getNotify (c : Client σ) : Option (σ × Notify) × Client σ :=
  match c.notifies with
  | [] => (none, c)
  | x :: l => (some x, { c with notifies := l })

structure Session (σ : Type) where
  mc : Client σ
  taken : List (σ × Notify)

inductive Call (σ : Type) where
  | op (op : Op σ)
  | getNotify

def Session.call [BEq σ] (s : Session σ) : Call σ → Except Abort (Session σ)
  | .op op => do
    let mc ← s.mc.perform op
    .ok { s with mc := mc }
  | .getNotify => .ok ⟨s.mc.getNotify.2, s.taken ++ s.mc.getNotify.1.toList⟩

def Op.command : Op σ → Option σ
  | .init sender _ _ => some sender
  | .reserve sender _ _ _ => some sender
  | .release sender _ => some sender
  | .status sender _ => some sender
  | _ => none

def Session.Fine (s : Session σ) : Call σ → Prop
  | .op op => s.mc.PoolStep op ∧ (s.mc.Initializes op → s.mc.notifies = [])
  | .getNotify => True

def Client.Answers (sender : σ) (c c' : Client σ) : Prop :=
  ∃ new note, c'.notifies = c.notifies ++ new ∧ (sender, note) ∈ new

theorem Client.Answers.tells {c₁ : Client σ} {sender : σ} {P : σ → Prop} (h : c.Answers sender c₁)
    (ht : c₁.Tells P c') : c.Answers sender c' := by
  obtain ⟨new, note, hnew, hmem⟩ := h
  obtain ⟨more, hmore, -⟩ := ht
  exact ⟨new ++ more, note, by rw [hmore, hnew, List.append_assoc], List.mem_append_left _ hmem⟩

variable {s s' : Session σ}

end Avb4Linux.Maap
