import Mathlib.Data.List.Perm.Basic
import Mathlib.Data.List.Nodup
import Mathlib.Data.List.Range
import Avb4Linux.Lib.Fallible

/-!
# The packet buffers of MAAP

`maap_net.c`. The pool has no queue: the next packet is the first queued buffer by its place. So
packets are handed over in the order of the queueing only as long as each buffer is queued behind
those that wait, which a drain that stops at a send error spoils.
-/

namespace Avb4Linux.Maap

open Lib List

def firstSplit {α : Type} (p : α → Bool) : List α → Option (List α × α × List α)
  | [] => none
  | a :: l => if p a then some ([], a, l) else (firstSplit p l).map fun r => (a :: r.1, r.2)

variable {α : Type} {p : α → Bool} {l l₁ l₂ : List α} {a : α}

theorem firstSplit_eq_none : firstSplit p l = none ↔ ∀ a ∈ l, p a = false := by
  induction l with
  | nil => simp [firstSplit]
  | cons a l ih =>
    rw [firstSplit]
    cases h : p a with
    | true => simp [h]
    | false => simp [h, ih]

theorem firstSplit_eq_some (h : firstSplit p l = some (l₁, a, l₂)) :
    l = l₁ ++ a :: l₂ ∧ p a = true ∧ ∀ b ∈ l₁, p b = false := by
  induction l generalizing l₁ with
  | nil => cases h
  | cons b l ih =>
    grind [firstSplit, Option.map_eq_some_iff]

def numBuffers : Nat := 4

def netBufferSize : Nat := 64

inductive BufferState
  | free
  | supplied
  | queued
  | sending
deriving DecidableEq, Repr

/-- A buffer. Which of the queued packets it holds is read by no function of the pool. -/
structure Buffer where
  addr : Nat
  buffer : List UInt8
  state : BufferState
  number : Nat
deriving DecidableEq, Repr

def Buffer.zero (addr : Nat) : Buffer :=
  ⟨addr, List.replicate netBufferSize 0, .free, 0⟩

structure Net where
  netBuffer : List Buffer
  first : List Buffer
deriving DecidableEq, Repr

/-- The assertions, and what neither a caller nor the heap does: writing to a buffer that
was not supplied, memory that is in use. -/
inductive NetAbort
  | notSupplied
  | notSending
  | unknownBuffer
  | notOwned
  | memoryInUse
deriving DecidableEq, Repr

namespace Net

def newNet : Net :=
  ⟨(List.range numBuffers).map Buffer.zero, []⟩

def buffers (net : Net) : List Buffer :=
  net.netBuffer ++ net.first

def waiting (net : Net) : List Buffer :=
  net.buffers.filter (·.state == .queued)

def getPacketBuffer (net : Net) (fresh : Nat) : Net × Nat :=
  match firstSplit (·.state == .free) net.netBuffer with
  | some (l₁, x, l₂) => ({ net with netBuffer := l₁ ++ { x with state := .supplied } :: l₂ }, x.addr)
  | none => ({ net with first := net.first ++ [{ Buffer.zero fresh with state := .supplied }] }, fresh)

/-- The loops over both parts of the pool for one buffer: what is found is checked and
replaced by `f`. -/
def revise (net : Net) (addr : Nat) (state : BufferState) (abort : NetAbort)
    (f g : Buffer → List Buffer) : Except NetAbort Net :=
  match firstSplit (·.addr == addr) net.netBuffer with
  | some (l₁, x, l₂) =>
    if x.state = state then .ok { net with netBuffer := l₁ ++ f x ++ l₂ } else .error abort
  | none =>
    match firstSplit (·.addr == addr) net.first with
    | some (l₁, x, l₂) =>
      if x.state = state then .ok { net with first := l₁ ++ g x ++ l₂ } else .error abort
    | none => .error .unknownBuffer

def queuePacket (net : Net) (addr number : Nat) : Except NetAbort Net :=
  net.revise addr .supplied .notSupplied (fun x => [{ x with state := .queued, number := number }])
    fun x => [{ x with state := .queued, number := number }]

def getNextQueuedPacket (net : Net) : Option (Net × Buffer) :=
  match firstSplit (·.state == .queued) net.netBuffer with
  | some (l₁, x, l₂) =>
    some ({ net with netBuffer := l₁ ++ { x with state := .sending } :: l₂ }, x)
  | none =>
    match firstSplit (·.state == .queued) net.first with
    | some (l₁, x, l₂) =>
      some ({ net with first := l₁ ++ { x with state := .sending } :: l₂ }, x)
    | none => none

-- a further buffer is unlinked and given back to the heap
def freeQueuedPacket (net : Net) (addr : Nat) : Except NetAbort Net :=
  net.revise addr .sending .notSending (fun x => [{ x with state := .free }]) fun _ => []

def fill (net : Net) (addr : Nat) (bytes : List UInt8) : Except NetAbort Net :=
  net.revise addr .supplied .notOwned
    (fun x => [{ x with buffer := bytes ++ x.buffer.drop bytes.length }])
    fun x => [{ x with buffer := bytes ++ x.buffer.drop bytes.length }]

def addresses (net : Net) : List Nat :=
  net.buffers.map (·.addr)

def Replaces (net net' : Net) (x : Buffer) (new : List Buffer) : Prop :=
  ∃ l₁ l₂, net.buffers = l₁ ++ x :: l₂ ∧ net'.buffers = l₁ ++ new ++ l₂

variable {net net' : Net} {l₁ l₂ : List Buffer} {x y : Buffer} {f g : Buffer → List Buffer}

theorem replaces_netBuffer (h : net.netBuffer = l₁ ++ x :: l₂) (new : List Buffer) :
    net.Replaces { net with netBuffer := l₁ ++ new ++ l₂ } x new :=
  ⟨l₁, l₂ ++ net.first, by simp [buffers, h], by simp [buffers]⟩

theorem replaces_first (h : net.first = l₁ ++ x :: l₂) (new : List Buffer) :
    net.Replaces { net with first := l₁ ++ new ++ l₂ } x new :=
  ⟨net.netBuffer ++ l₁, l₂, by simp [buffers, h], by simp [buffers]⟩

theorem getPacketBuffer_spec (net : Net) (fresh : Nat) :
    (∃ x, x.state = .free ∧ (net.getPacketBuffer fresh).2 = x.addr ∧
      net.Replaces (net.getPacketBuffer fresh).1 x [{ x with state := .supplied }]) ∨
    ((∀ x ∈ net.netBuffer, x.state ≠ .free) ∧ (net.getPacketBuffer fresh).2 = fresh ∧
      (net.getPacketBuffer fresh).1.buffers =
        net.buffers ++ [{ Buffer.zero fresh with state := .supplied }]) := by
  unfold getPacketBuffer
  cases hsplit : firstSplit (·.state == .free) net.netBuffer with
  | some r =>
    obtain ⟨l₁, x, l₂⟩ := r
    obtain ⟨hlist, hstate, -⟩ := firstSplit_eq_some hsplit
    refine .inl ⟨x, by simpa using hstate, rfl, ?_⟩
    have hreplaces := replaces_netBuffer hlist [{ x with state := .supplied }]
    simpa using hreplaces
  | none =>
    grind [buffers, firstSplit_eq_none]

theorem revise_cases {addr : Nat} {state : BufferState} {abort : NetAbort}
    (h : net.revise addr state abort f g = .ok net') :
    ∃ l₁ x l₂, x.addr = addr ∧ x.state = state ∧
      (net.netBuffer = l₁ ++ x :: l₂ ∧ net' = { net with netBuffer := l₁ ++ f x ++ l₂ } ∨
        net.first = l₁ ++ x :: l₂ ∧ net' = { net with first := l₁ ++ g x ++ l₂ }) := by
  grind [revise, firstSplit, firstSplit_eq_some]

theorem revise_spec {addr : Nat} {state : BufferState} {abort : NetAbort}
    (h : net.revise addr state abort f g = .ok net') :
    ∃ x, x.addr = addr ∧ x.state = state ∧
      (net.Replaces net' x (f x) ∨ net.Replaces net' x (g x)) := by
  grind [revise_cases, replaces_netBuffer, replaces_first]

theorem queuePacket_spec {addr number : Nat} (h : net.queuePacket addr number = .ok net') :
    ∃ x, x.addr = addr ∧ x.state = .supplied ∧
      net.Replaces net' x [{ x with state := .queued, number := number }] := by
  obtain ⟨x, haddr, hstate, hreplaces | hreplaces⟩ := revise_spec h
  all_goals grind

theorem fill_spec {addr : Nat} {bytes : List UInt8} (h : net.fill addr bytes = .ok net') :
    ∃ x, x.addr = addr ∧ x.state = .supplied ∧
      net.Replaces net' x [{ x with buffer := bytes ++ x.buffer.drop bytes.length }] := by
  obtain ⟨x, haddr, hstate, hreplaces | hreplaces⟩ := revise_spec h
  all_goals grind

theorem getNextQueuedPacket_none : net.getNextQueuedPacket = none ↔ net.waiting = [] := by
  unfold getNextQueuedPacket waiting buffers
  rw [filter_append, append_eq_nil_iff, filter_eq_nil_iff, filter_eq_nil_iff]
  grind [firstSplit, firstSplit_eq_some, firstSplit_eq_none]

theorem getNextQueuedPacket_cases (h : net.getNextQueuedPacket = some (net', x)) :
    x.state = .queued ∧ ∃ l₁ l₂, (∀ y ∈ l₁, y.state ≠ .queued) ∧
      (net.netBuffer = l₁ ++ x :: l₂ ∧
          net' = { net with netBuffer := l₁ ++ { x with state := .sending } :: l₂ } ∨
        (∀ y ∈ net.netBuffer, y.state ≠ .queued) ∧ net.first = l₁ ++ x :: l₂ ∧
          net' = { net with first := l₁ ++ { x with state := .sending } :: l₂ }) := by
  unfold getNextQueuedPacket at h
  cases hnet : firstSplit (·.state == .queued) net.netBuffer with
  | some r =>
    obtain ⟨l₁, y, l₂⟩ := r
    obtain ⟨hlist, hstate, hbefore⟩ := firstSplit_eq_some hnet
    simp only [hnet, Option.some.injEq, Prod.mk.injEq] at h
    obtain ⟨rfl, rfl⟩ := h
    refine ⟨by simpa using hstate, l₁, l₂, ?_, .inl ⟨hlist, rfl⟩⟩
    intro z hz
    simpa using hbefore z hz
  | none =>
    cases hfirst : firstSplit (·.state == .queued) net.first with
    | some r =>
      obtain ⟨l₁, y, l₂⟩ := r
      obtain ⟨hlist, hstate, hbefore⟩ := firstSplit_eq_some hfirst
      simp only [hnet, hfirst, Option.some.injEq, Prod.mk.injEq] at h
      obtain ⟨rfl, rfl⟩ := h
      refine ⟨by simpa using hstate, l₁, l₂, ?_, .inr ⟨?_, hlist, rfl⟩⟩
      all_goals grind [firstSplit_eq_none]
    | none =>
      simp only [hnet, hfirst] at h
      cases h

theorem getNextQueuedPacket_spec (h : net.getNextQueuedPacket = some (net', x)) :
    x.state = .queued ∧ ∃ l₁ l₂, net.buffers = l₁ ++ x :: l₂ ∧
      net'.buffers = l₁ ++ { x with state := .sending } :: l₂ ∧
      ∀ y ∈ l₁, y.state ≠ .queued := by
  grind [getNextQueuedPacket_cases, buffers]

theorem Replaces.waiting_eq {new : List Buffer} (h : net.Replaces net' x new)
    (hx : x.state ≠ .queued) (hnew : ∀ y ∈ new, y.state ≠ .queued) :
    net'.waiting = net.waiting := by
  obtain ⟨l₁, l₂, hlist, hlist'⟩ := h
  have hnone : new.filter (·.state == .queued) = [] := by
    simp_all
  simp [waiting, hlist, hlist', hnone, hx]

theorem Replaces.addresses_sublist {new : List Buffer} (h : net.Replaces net' x new)
    (hnew : (new.map (·.addr)).Sublist [x.addr]) : net'.addresses.Sublist net.addresses := by
  obtain ⟨l₁, l₂, hlist, hlist'⟩ := h
  unfold addresses
  rw [hlist, hlist', map_append, map_append, map_append, map_cons,
    append_assoc]
  have hmiddle := hnew.append_right (l₂.map (·.addr))
  simpa using hmiddle.append_left (l₁.map (·.addr))

def behind (net : Net) (addr : Nat) : List Buffer :=
  (net.buffers.dropWhile (·.addr != addr)).tail

theorem addr_ne_of_before (hnodup : net.addresses.Nodup) (hlist : net.buffers = l₁ ++ x :: l₂)
    (hy : y ∈ l₁) : y.addr ≠ x.addr := by
  unfold addresses at hnodup
  grind

theorem behind_eq (hnodup : net.addresses.Nodup) (hlist : net.buffers = l₁ ++ x :: l₂) :
    net.behind x.addr = l₂ := by
  have hbefore : ∀ y ∈ l₁, (y.addr != x.addr) = true := by
    intro y hy
    simpa using addr_ne_of_before hnodup hlist hy
  rw [behind, hlist, dropWhile_append_of_pos hbefore]
  simp

def bytesAt (net : Net) (addr : Nat) : List UInt8 :=
  ((net.buffers.find? (·.addr == addr)).map (·.buffer)).getD []

theorem bytesAt_eq (hnodup : net.addresses.Nodup) (hlist : net.buffers = l₁ ++ x :: l₂) :
    net.bytesAt x.addr = x.buffer := by
  have hbefore : ∀ y ∈ l₁, ¬ (y.addr == x.addr) = true := by
    intro y hy
    simpa using addr_ne_of_before hnodup hlist hy
  have hfind : l₁.find? (·.addr == x.addr) = none := List.find?_eq_none.mpr hbefore
  simp [bytesAt, hlist, hfind]

theorem freeQueuedPacket_spec {addr : Nat} (h : net.freeQueuedPacket addr = .ok net') :
    ∃ x new, x.addr = addr ∧ x.state = .sending ∧ net.Replaces net' x new ∧
      (new = [{ x with state := .free }] ∨ new = []) := by
  obtain ⟨x, haddr, hstate, hreplaces | hreplaces⟩ := revise_spec h
  all_goals grind

theorem exists_revise {state : BufferState} (hnodup : net.addresses.Nodup) (hx : x ∈ net.buffers)
    (hstate : x.state = state) (abort : NetAbort) (f g : Buffer → List Buffer) :
    ∃ net', net.revise x.addr state abort f g = .ok net' := by
  have hunique : ∀ y ∈ net.buffers, (y.addr == x.addr) = true → y = x := by
    intro y hy haddr
    exact inj_on_of_nodup_map hnodup hy hx (by simpa using haddr)
  unfold revise
  cases hnet : firstSplit (·.addr == x.addr) net.netBuffer with
  | some r =>
    obtain ⟨hlist, haddr, -⟩ := firstSplit_eq_some hnet
    have hy : r.2.1 = x := hunique r.2.1 (by simp [buffers, hlist]) haddr
    simp [hy, hstate]
  | none =>
    cases hfirst : firstSplit (·.addr == x.addr) net.first with
    | some r =>
      obtain ⟨hlist, haddr, -⟩ := firstSplit_eq_some hfirst
      have hy : r.2.1 = x := hunique r.2.1 (by simp [buffers, hlist]) haddr
      simp [hy, hstate]
    | none =>
      exfalso
      rcases mem_append.mp hx with hmem | hmem
      all_goals grind [firstSplit_eq_none]

end Net

/-- The pool with the packets that were queued and those that were handed to the sender,
both in their order. -/
structure Traffic where
  net : Net
  queued : List (List UInt8)
  handed : List (Nat × List UInt8)
deriving DecidableEq, Repr

inductive NetOp
  | getPacketBuffer (fresh : Nat)
  | fill (addr : Nat) (bytes : List UInt8)
  | queuePacket (addr : Nat)
  | getNextQueuedPacket
  | freeQueuedPacket (addr : Nat)
deriving DecidableEq, Repr

namespace Traffic

def new : Traffic :=
  ⟨Net.newNet, [], []⟩

def supply (t : Traffic) (fresh : Nat) : Except NetAbort Traffic :=
  if fresh ∈ t.net.addresses then .error .memoryInUse
  else .ok { t with net := (t.net.getPacketBuffer fresh).1 }

def fill (t : Traffic) (addr : Nat) (bytes : List UInt8) : Except NetAbort Traffic := do
  let net ← t.net.fill addr bytes
  .ok { t with net := net }

def queue (t : Traffic) (addr : Nat) : Except NetAbort Traffic := do
  let net ← t.net.queuePacket addr t.queued.length
  .ok { t with net := net, queued := t.queued ++ [t.net.bytesAt addr] }

def take (t : Traffic) : Traffic :=
  match t.net.getNextQueuedPacket with
  | none => t
  | some (net, x) => { t with net := net, handed := t.handed ++ [(x.number, x.buffer)] }

def free (t : Traffic) (addr : Nat) : Except NetAbort Traffic := do
  let net ← t.net.freeQueuedPacket addr
  .ok { t with net := net }

def step (t : Traffic) : NetOp → Except NetAbort Traffic
  | .getPacketBuffer fresh => t.supply fresh
  | .fill addr bytes => t.fill addr bytes
  | .queuePacket addr => t.queue addr
  | .getNextQueuedPacket => .ok t.take
  | .freeQueuedPacket addr => t.free addr

/-- The packets in the order in which they were and, if nothing else is queued, will be
handed over. -/
def order (t : Traffic) : List Nat :=
  t.handed.map (·.1) ++ t.net.waiting.map (·.number)

structure Accounted (t : Traffic) : Prop where
  addresses : t.net.addresses.Nodup
  once : t.order.Perm (List.range t.queued.length)
  handed : ∀ p ∈ t.handed, t.queued[p.1]? = some p.2
  waiting : ∀ x ∈ t.net.waiting, t.queued[x.number]? = some x.buffer

theorem accounted_new : new.Accounted where
  addresses := by decide
  once := by decide
  handed := by simp [new]
  waiting := by
    have hnone : new.net.waiting = [] := by decide
    simp [hnone]

structure Leaves (t t' : Traffic) : Prop where
  queued : t'.queued = t.queued
  handed : t'.handed = t.handed
  waiting : t'.net.waiting = t.net.waiting
  addresses : t.net.addresses.Nodup → t'.net.addresses.Nodup

variable {t t' : Traffic} {x : Buffer} {f q : List Buffer}

theorem Leaves.order (h : t.Leaves t') : t'.order = t.order := by
  rw [Traffic.order, Traffic.order, h.handed, h.waiting]

theorem Leaves.accounted (h : t.Leaves t') (ht : t.Accounted) : t'.Accounted where
  addresses := h.addresses ht.addresses
  once := by
    rw [h.order, h.queued]
    exact ht.once
  handed := by
    rw [h.handed, h.queued]
    exact ht.handed
  waiting := by
    rw [h.waiting, h.queued]
    exact ht.waiting

theorem supply_leaves {fresh : Nat} (h : t.supply fresh = .ok t') : t.Leaves t' := by
  unfold supply at h
  split at h
  next => cases h
  next hfresh =>
    cases h
    rcases t.net.getPacketBuffer_spec fresh with ⟨x, hfree, -, hreplaces⟩ | ⟨-, -, hbuffers⟩
    · refine ⟨rfl, rfl, hreplaces.waiting_eq (by simp [hfree]) (by simp), ?_⟩
      intro hnodup
      exact (hreplaces.addresses_sublist (by simp)).nodup hnodup
    · refine ⟨rfl, rfl, by simp [Net.waiting, hbuffers], ?_⟩
      intro hnodup
      unfold Net.addresses at hfresh hnodup ⊢
      rw [hbuffers, map_append, nodup_append]
      refine ⟨hnodup, by simp, ?_⟩
      intro a ha b hb
      simp only [map_cons, map_nil, mem_singleton, Buffer.zero] at hb
      rintro rfl
      exact hfresh (hb ▸ ha)

theorem fill_leaves {addr : Nat} {bytes : List UInt8} (h : t.fill addr bytes = .ok t') :
    t.Leaves t' := by
  obtain ⟨net, hfill, hok⟩ := Fallible.bind_eq_ok.mp h
  cases hok
  obtain ⟨x, -, hstate, hreplaces⟩ := Net.fill_spec hfill
  refine ⟨rfl, rfl, hreplaces.waiting_eq (by simp [hstate]) (by simp [hstate]), ?_⟩
  intro hnodup
  exact (hreplaces.addresses_sublist (by simp)).nodup hnodup

theorem free_leaves {addr : Nat} (h : t.free addr = .ok t') : t.Leaves t' := by
  obtain ⟨net, hfree, hok⟩ := Fallible.bind_eq_ok.mp h
  cases hok
  obtain ⟨x, new, -, hstate, hreplaces, hnew⟩ := Net.freeQueuedPacket_spec hfree
  refine ⟨rfl, rfl, hreplaces.waiting_eq (by simp [hstate]) ?_, ?_⟩
  · rcases hnew with rfl | rfl <;> simp
  · intro hnodup
    refine (hreplaces.addresses_sublist ?_).nodup hnodup
    rcases hnew with rfl | rfl <;> simp

theorem take_spec (hwaiting : t.net.waiting ≠ []) :
    ∃ x rest, t.net.getNextQueuedPacket = some (t.take.net, x) ∧
      t.net.waiting = x :: rest ∧ t.take.net.waiting = rest ∧
      t.take.handed = t.handed ++ [(x.number, x.buffer)] ∧ t.take.queued = t.queued ∧
      t.net.Replaces t.take.net x [{ x with state := .sending }] := by
  unfold take
  cases hnext : t.net.getNextQueuedPacket with
  | none => exact absurd (Net.getNextQueuedPacket_none.mp hnext) hwaiting
  | some r =>
    obtain ⟨net, x⟩ := r
    obtain ⟨hstate, l₁, l₂, hlist, hlist', hbefore⟩ := Net.getNextQueuedPacket_spec hnext
    have hnone : l₁.filter (·.state == .queued) = [] := by
      simp_all
    refine ⟨x, l₂.filter (·.state == .queued), rfl, ?_, ?_, rfl, rfl, l₁, l₂, hlist,
      by simp [hlist']⟩
    all_goals grind [Net.waiting]

theorem take_of_waiting_eq_nil (h : t.net.waiting = []) : t.take = t := by
  unfold take
  rw [Net.getNextQueuedPacket_none.mpr h]

theorem Accounted.take (h : t.Accounted) : t.take.Accounted := by
  by_cases hwaiting : t.net.waiting = []
  · rw [take_of_waiting_eq_nil hwaiting]
    exact h
  obtain ⟨x, rest, -, hfirst, hrest, hhanded, hqueued, hreplaces⟩ := take_spec hwaiting
  have horder : t.take.order = t.order := by simp [order, hfirst, hrest, hhanded]
  refine ⟨(hreplaces.addresses_sublist (by simp)).nodup h.addresses, ?_, ?_, ?_⟩
  · rw [horder, hqueued]
    exact h.once
  · intro p hp
    rw [hhanded, mem_append, mem_singleton] at hp
    rw [hqueued]
    rcases hp with hp | rfl
    · exact h.handed p hp
    · exact h.waiting x (by simp [hfirst])
  · intro y hy
    rw [hrest] at hy
    rw [hqueued]
    exact h.waiting y (by simp [hfirst, hy])

theorem queue_spec {addr : Nat} (hnodup : t.net.addresses.Nodup) (h : t.queue addr = .ok t') :
    ∃ (x : Buffer) (w₁ w₂ : List Buffer), t.net.waiting = w₁ ++ w₂ ∧
      t'.net.waiting = w₁ ++ { x with state := .queued, number := t.queued.length } :: w₂ ∧
      w₂ = (t.net.behind addr).filter (·.state == .queued) ∧
      t'.handed = t.handed ∧ t'.queued = t.queued ++ [x.buffer] ∧ t'.net.addresses.Nodup := by
  obtain ⟨net, hqueue, hok⟩ := Fallible.bind_eq_ok.mp h
  cases hok
  obtain ⟨x, rfl, hstate, l₁, l₂, hlist, hlist'⟩ := Net.queuePacket_spec hqueue
  refine ⟨x, l₁.filter (·.state == .queued), l₂.filter (·.state == .queued), ?_, ?_, ?_, rfl, ?_, ?_⟩
  · simp [Net.waiting, hlist, hstate]
  · simp [Net.waiting, hlist']
  · rw [Net.behind_eq hnodup hlist]
  · rw [Net.bytesAt_eq hnodup hlist]
  · have hreplaces : t.net.Replaces net x [{ x with state := .queued, number := t.queued.length }] :=
      ⟨l₁, l₂, hlist, hlist'⟩
    exact (hreplaces.addresses_sublist (by simp)).nodup hnodup

theorem Accounted.queue {addr : Nat} (ht : t.Accounted) (h : t.queue addr = .ok t') :
    t'.Accounted := by
  obtain ⟨x, w₁, w₂, hwaiting, hwaiting', -, hhanded, hqueued, hnodup⟩ := queue_spec ht.addresses h
  have hkept : ∀ {k : Nat} {bytes : List UInt8}, t.queued[k]? = some bytes →
      t'.queued[k]? = some bytes := by
    grind
  refine ⟨hnodup, ?_, ?_, ?_⟩
  · have horder : t'.order.Perm (t.order ++ [t.queued.length]) := by
      grind [order, Perm.append_left]
    rw [hqueued, length_append, length_singleton, range_succ]
    exact horder.trans (ht.once.append_right _)
  · intro p hp
    rw [hhanded] at hp
    exact hkept (ht.handed p hp)
  · intro y hy
    rw [hwaiting', mem_append, mem_cons] at hy
    rcases hy with hy | rfl | hy
    · exact hkept (ht.waiting y (by simp [hwaiting, hy]))
    · rw [hqueued]
      simp
    · exact hkept (ht.waiting y (by simp [hwaiting, hy]))

def QueuesBehind (t : Traffic) : NetOp → Prop
  | .queuePacket addr => ∀ x ∈ t.net.behind addr, x.state ≠ .queued
  | _ => True

theorem order_take (t : Traffic) : t.take.order = t.order := by
  by_cases hwaiting : t.net.waiting = []
  all_goals grind [take_of_waiting_eq_nil, take_spec, order]

theorem step_accounted {op : NetOp} (ht : t.Accounted) (h : t.step op = .ok t') : t'.Accounted := by
  cases op with
  | getPacketBuffer fresh => exact (supply_leaves h).accounted ht
  | fill addr bytes => exact (fill_leaves h).accounted ht
  | queuePacket addr => exact ht.queue h
  | getNextQueuedPacket =>
    cases h
    exact ht.take
  | freeQueuedPacket addr => exact (free_leaves h).accounted ht

theorem pairwise_insert_iff {o₁ o₂ : List Nat} {n : Nat} (hbound : ∀ k ∈ o₁ ++ o₂, k < n) :
    (o₁ ++ n :: o₂).Pairwise (· < ·) ↔ o₂ = [] ∧ (o₁ ++ o₂).Pairwise (· < ·) := by
  constructor
  · intro h
    refine ⟨?_, h.sublist (List.Sublist.append_left (sublist_cons_self n o₂) o₁)⟩
    refine eq_nil_iff_forall_not_mem.mpr ?_
    intro k hk
    have hlt := rel_of_pairwise_cons (pairwise_append.mp h).2.1 hk
    have hgt := hbound k (mem_append_right o₁ hk)
    omega
  · grind

theorem step_sorted {op : NetOp} (ht : t.Accounted) (h : t.step op = .ok t') :
    t'.order.Pairwise (· < ·) ↔ t.QueuesBehind op ∧ t.order.Pairwise (· < ·) := by
  cases op with
  | getPacketBuffer fresh =>
    rw [(supply_leaves h).order]
    exact (and_iff_right trivial).symm
  | fill addr bytes =>
    rw [(fill_leaves h).order]
    exact (and_iff_right trivial).symm
  | getNextQueuedPacket =>
    cases h
    rw [order_take]
    exact (and_iff_right trivial).symm
  | freeQueuedPacket addr =>
    rw [(free_leaves h).order]
    exact (and_iff_right trivial).symm
  | queuePacket addr =>
    obtain ⟨x, w₁, w₂, hwaiting, hwaiting', hw₂, hhanded, -, -⟩ := queue_spec ht.addresses h
    have hbefore : t.order = (t.handed.map (·.1) ++ w₁.map (·.number)) ++ w₂.map (·.number) := by
      simp [order, hwaiting]
    have hafter : t'.order = (t.handed.map (·.1) ++ w₁.map (·.number)) ++
        t.queued.length :: w₂.map (·.number) := by
      simp [order, hwaiting', hhanded]
    have hbound : ∀ k ∈ t.order, k < t.queued.length := by
      intro k hk
      simpa using ht.once.mem_iff.mp hk
    have hbehind : t.QueuesBehind (.queuePacket addr) ↔ w₂.map (·.number) = [] := by
      rw [map_eq_nil_iff, hw₂, filter_eq_nil_iff]
      simp [QueuesBehind]
    rw [hbefore] at hbound ⊢
    rw [hbehind, hafter, pairwise_insert_iff hbound]

/-- Over a run: the packets are in order at its end if and only if they were at its start
and every buffer was queued behind those that waited. -/
theorem run_sorted {ops : List NetOp} (ht : t.Accounted) (h : Fallible.run step t ops = .ok t') :
    t'.order.Pairwise (· < ·) ↔
      Fallible.Along step QueuesBehind t ops ∧ t.order.Pairwise (· < ·) := by
  induction ops generalizing t with
  | nil =>
    cases h
    exact (and_iff_right trivial).symm
  | cons op ops ih =>
    obtain ⟨t₁, hstep, hrest⟩ := Fallible.bind_eq_ok.mp h
    grind [Fallible.Along, step, QueuesBehind, step_accounted, step_sorted]

theorem run_accounted {ops : List NetOp} (h : Fallible.run step new ops = .ok t) : t.Accounted :=
  Fallible.run_always (fun _ _ _ ht hstep => step_accounted ht hstep) accounted_new h

theorem pairwise_iff_eq_range {l : List Nat} {n : Nat} (h : l.Perm (List.range n)) :
    l.Pairwise (· < ·) ↔ l = List.range n := by
  constructor
  · intro hl
    refine h.eq_of_pairwise ?_ hl pairwise_lt_range
    intro a b _ _ hab hba
    omega
  · rintro rfl
    exact pairwise_lt_range

def sendPacket (t : Traffic) (fresh : Nat) (bytes : List UInt8) : Except NetAbort Traffic := do
  let addr := (t.net.getPacketBuffer fresh).2
  let t ← t.supply fresh
  let t ← t.fill addr bytes
  t.queue addr

/-- The loop of the daemon that sends what is queued, with one turn more than packets wait.
`error` counts the packets sent before `send` fails; the one it fails for is freed and the loop
left. -/
def drain : Nat → Option Nat → Traffic → Except NetAbort Traffic
  | 0, _, t => .ok t
  | turns + 1, error, t =>
    match t.net.getNextQueuedPacket with
    | none => .ok t
    | some (_, x) => do
      let t ← t.take.free x.addr
      match error with
      | some 0 => .ok t
      | some (k + 1) => drain turns (some k) t
      | none => drain turns none t

theorem exists_free_take (ht : t.net.addresses.Nodup)
    (h : t.net.getNextQueuedPacket = some (t.take.net, x)) : ∃ t', t.take.free x.addr = .ok t' := by
  obtain ⟨-, l₁, l₂, hlist, hlist', -⟩ := Net.getNextQueuedPacket_spec h
  have hreplaces : t.net.Replaces t.take.net x [{ x with state := .sending }] :=
    ⟨l₁, l₂, hlist, by simp [hlist']⟩
  have hmem : { x with state := .sending } ∈ t.take.net.buffers := by simp [hlist']
  obtain ⟨net, hfree⟩ := Net.exists_revise ((hreplaces.addresses_sublist (by simp)).nodup ht) hmem
    rfl .notSending (fun x => [{ x with state := .free }]) fun _ => []
  exact ⟨{ t.take with net := net }, Fallible.bind_of_ok hfree _⟩

theorem drain_turn (ht : t.Accounted) (hwaiting : t.net.waiting ≠ []) (turns : Nat) :
    ∃ t', t'.Accounted ∧ t'.order = t.order ∧ t'.queued = t.queued ∧
      t'.net.waiting.length + 1 = t.net.waiting.length ∧
      drain (turns + 1) none t = drain turns none t' := by
  obtain ⟨x, rest, hnext, hfirst, hrest, -, hqueued, -⟩ := take_spec hwaiting
  obtain ⟨t', hfree⟩ := exists_free_take ht.addresses hnext
  have hleaves := free_leaves hfree
  refine ⟨t', hleaves.accounted ht.take, hleaves.order.trans (order_take t),
    hleaves.queued.trans hqueued, ?_, ?_⟩
  · rw [hleaves.waiting, hrest, hfirst, length_cons]
  · rw [drain, hnext]
    exact Fallible.bind_of_ok hfree _

theorem drain_all {turns : Nat} (ht : t.Accounted) (hturns : t.net.waiting.length < turns) :
    ∃ t', drain turns none t = .ok t' ∧ t'.Accounted ∧ t'.net.waiting = [] ∧
      t'.order = t.order ∧ t'.queued = t.queued := by
  induction turns generalizing t with
  | zero => omega
  | succ turns ih =>
    by_cases hwaiting : t.net.waiting = []
    · grind [drain, Net.getNextQueuedPacket_none]
    · obtain ⟨t₁, ht₁, horder₁, hqueued₁, hlength, hdrain⟩ := drain_turn ht hwaiting turns
      grind

theorem Accounted.supplied_unused (ht : t.Accounted) {fresh : Nat}
    (hfresh : fresh ∉ t.net.addresses) (hx : x ∈ t.net.buffers)
    (haddr : x.addr = (t.net.getPacketBuffer fresh).2) : x.state = .free := by
  rcases t.net.getPacketBuffer_spec fresh with ⟨y, hfree, hy, l₁, l₂, hlist, -⟩ | ⟨-, hy, -⟩
  all_goals grind [Net.addresses, Leaves.addresses, addresses]

/-- For every interleaving of the operations: each queued packet is handed over once and as it
was, no buffer in use is supplied, and when all has been sent the packets were handed over in the
order of their queueing if and only if each was queued behind those that waited. -/
theorem handed_iff {ops : List NetOp} {t : Traffic} (h : Fallible.run step new ops = .ok t) :
    t.Accounted ∧
    (∀ fresh ∉ t.net.addresses, ∀ x ∈ t.net.buffers,
      x.addr = (t.net.getPacketBuffer fresh).2 → x.state = .free) ∧
    ∃ t', drain (t.net.waiting.length + 1) none t = .ok t' ∧ t'.Accounted ∧
      t'.net.waiting = [] ∧ t'.queued = t.queued ∧
      (t'.handed.map (·.1) = List.range t.queued.length ↔
        Fallible.Along step QueuesBehind new ops) := by
  have ht := run_accounted h
  obtain ⟨t', hdrain, ht', hnone, horder, hqueued⟩ := drain_all ht (Nat.lt_succ_self _)
  refine ⟨ht, fun fresh hfresh x hx haddr => ht.supplied_unused hfresh hx haddr, t', hdrain, ht',
    hnone, hqueued, ?_⟩
  have hall : t'.handed.map (·.1) = t.order := by
    rw [← horder, order, hnone, map_nil, append_nil]
  have hnew : new.order.Pairwise (· < ·) := by decide
  rw [hall, ← pairwise_iff_eq_range ht.once, run_sorted accounted_new h, and_iff_left hnew]

theorem handed_iff_twoPackets :
    ∃ t, Fallible.run step new [.getPacketBuffer 4, .fill 0 [7], .queuePacket 0,
        .getPacketBuffer 4, .queuePacket 1, .getNextQueuedPacket] = .ok t ∧
      t.queued.length = 2 ∧ t.Accounted ∧
      ∃ t', drain (t.net.waiting.length + 1) none t = .ok t' ∧ t'.net.waiting = [] := by
  obtain ⟨t, hrun, hlength⟩ := Fallible.exists_of_okAnd (x := Fallible.run step new
      [.getPacketBuffer 4, .fill 0 [7], .queuePacket 0, .getPacketBuffer 4, .queuePacket 1,
        .getNextQueuedPacket]) (p := fun t => t.queued.length == 2) (by decide +kernel)
  obtain ⟨haccounted, -, t', hdrain, -, hnone, -, -⟩ := handed_iff hrun
  exact ⟨t, hrun, by simpa using hlength, haccounted, t', hdrain, hnone⟩

inductive Turn
  | sendPacket (fresh : Nat) (bytes : List UInt8)
  | drain (error : Option Nat)
deriving DecidableEq, Repr

def turn (t : Traffic) : Turn → Except NetAbort Traffic
  | .sendPacket fresh bytes => t.sendPacket fresh bytes
  | .drain error => drain (t.net.waiting.length + 1) error t

/-- The second packet waits behind the one that could not be sent; the third is put in
the place of that one and is sent before the second. -/
theorem sendError_overtaken :
    ∃ t, Fallible.run turn new [.sendPacket 4 [1], .sendPacket 4 [2], .drain (some 0),
        .sendPacket 4 [3], .drain none] = .ok t ∧
      t.handed.map (fun p => (p.1, p.2.take 1)) = [(0, [1]), (2, [3]), (1, [2])] := by
  obtain ⟨t, hrun, hhanded⟩ := Fallible.exists_of_okAnd (x := Fallible.run turn new
      [.sendPacket 4 [1], .sendPacket 4 [2], .drain (some 0), .sendPacket 4 [3], .drain none])
    (p := fun t => t.handed.map (fun p => (p.1, p.2.take 1)) == [(0, [1]), (2, [3]), (1, [2])])
    (by decide +kernel)
  exact ⟨t, hrun, by simpa using hhanded⟩

end Traffic

end Avb4Linux.Maap
