import Avb4Linux.Maap.Daemon
import Avb4Linux.Maap.Senders

/-!
# To whom notifications are delivered

While no new connection gets a descriptor that a range still remembers, notifications reach only
the connections they are meant for.
-/

namespace Avb4Linux.Maap

open Lib Lib.Fallible

variable {d d' : Daemon}

def Delivery.Right (x : Delivery) : Prop :=
  x.sender = .client x.recipient

theorem lowestFree_not_mem (used : List Nat) : lowestFree used ∉ used := by
  have hex : ∃ n ∈ List.range (used.length + 1), n ∉ used := by
    by_contra hall
    push Not at hall
    have hsub := (List.nodup_range (n := used.length + 1)).subperm hall
    have hle := hsub.length_le
    rw [List.length_range] at hle
    omega
  obtain ⟨n, hn, hfree⟩ := hex
  unfold lowestFree
  cases hfind : (List.range (used.length + 1)).find? fun n => n ∉ used with
  | none => exact absurd hfree (by simpa using List.find?_eq_none.mp hfind n hn)
  | some m => simpa using List.find?_some hfind

theorem Daemon.fd_mem_used {i : Fin maxClientConnections} {conn : Conn}
    (h : d.slots.clientfd i = some conn) : conn.fd ∈ d.used := by
  refine List.mem_append_right _ (List.mem_filterMap.mpr ⟨i, List.mem_finRange i, ?_⟩)
  rw [h]
  rfl

section Slots

variable {n : Nat} {κ : Type} {s : Slots n κ}

theorem clientfd_close {i j : Fin n} {x : κ} (h : (s.close j).clientfd i = some x) :
    s.clientfd i = some x := by
  unfold Slots.close at h
  split at h
  all_goals grind

theorem clientfd_acceptClient {newfd : Option κ} {i : Fin n} {x : κ}
    (h : (acceptClient newfd s).1.clientfd i = some x) : s.clientfd i = some x ∨ newfd = some x := by
  unfold acceptClient at h
  split at h
  · exact .inl h
  · split at h
    · exact .inl h
    · unfold Slots.place at h
      grind

end Slots

def Daemon.Knows (d : Daemon) (s : Sender) : Prop :=
  ∀ i conn, d.slots.clientfd i = some conn → s.fd = some conn.fd → s = .client conn

structure Daemon.Private (d : Daemon) : Prop where
  sound : d.mc.Sound
  senders : d.mc.AllSenders d.Knows
  distinct : ∀ i conn, d.slots.clientfd i = some conn → d.Knows (.client conn)
  delivered : ∀ x ∈ d.delivered, x.Right

theorem Client.AllSenders.imp {σ : Type} {P Q : σ → Prop} {c : Client σ} (h : c.AllSenders P)
    (hPQ : ∀ s, P s → Q s) : c.AllSenders Q :=
  ⟨fun a ha => hPQ _ (h.ranges a ha), fun x hx => hPQ _ (h.notes x hx)⟩

theorem Daemon.slotOf_spec {fd : Nat} {y : Fin maxClientConnections × Conn}
    (h : d.slotOf fd = some y) : d.slots.clientfd y.1 = some y.2 ∧ y.2.fd = fd := by
  obtain ⟨i, -, hi⟩ := List.exists_of_findSome?_eq_some h
  obtain ⟨conn, hconn, hfd⟩ := Option.bind_eq_some_iff.mp hi
  grind

theorem Daemon.deliveries_right {x : Sender × Notify} (hknown : d.Knows x.1) :
    ∀ y ∈ d.deliveries x, y.Right := by
  intro y hy
  obtain ⟨z, hz, rfl⟩ := Option.map_eq_some_iff.mp (Option.mem_toList.mp hy)
  obtain ⟨fd, hfd, hslot⟩ := Option.bind_eq_some_iff.mp hz
  obtain ⟨hconn, rfl⟩ := slotOf_spec hslot
  exact hknown z.1 z.2 hconn hfd

theorem Daemon.Private.flush (h : d.Private) (e : Option Nat) : (d.flush e).Private := by
  refine ⟨flush_sound h.sound e, ⟨h.senders.ranges, ?_⟩, h.distinct, ?_⟩
  · intro x hx
    cases hx
  · intro y hy
    rcases List.mem_append.mp hy with hy | hy
    · exact h.delivered y hy
    · obtain ⟨x, hx, hy⟩ := List.mem_flatMap.mp hy
      exact deliveries_right (d := d.sendQueued e) (h.senders.notes x hx) y hy

theorem Daemon.Private.perform (h : d.Private) {op : Op Sender} {mc : Client Sender}
    (hsender : ∀ s, op.sender = some s → d.Knows s) (hok : d.mc.perform op = .ok mc) :
    { d with mc := mc }.Private :=
  ⟨(Client.perform_spec h.sound hok).1, Client.perform_senders h.sound h.senders hsender hok,
    h.distinct, h.delivered⟩

theorem Action.op_sender {sender s : Sender} {oom : Bool} {a : Action} {op : Op Sender}
    (h : Action.op sender oom a = some op) (hs : op.sender = some s) : s = sender := by
  cases a <;> cases h <;> cases hs <;> rfl

theorem Daemon.Private.close (h : d.Private) (i : Fin maxClientConnections) :
    { d with slots := d.slots.close i }.Private := by
  have hknows : ∀ s, d.Knows s → Daemon.Knows { d with slots := d.slots.close i } s :=
    fun s hs j conn hconn => hs j conn (clientfd_close hconn)
  exact ⟨h.sound, h.senders.imp hknows, fun j conn hconn =>
    hknows _ (h.distinct j conn (clientfd_close hconn)), h.delivered⟩

theorem Daemon.private_reads : Daemon.Reads Daemon.Private where
  buffer _ _ h := ⟨h.sound, h.senders, h.distinct, h.delivered⟩
  exit _ _ h := ⟨h.sound, h.senders, h.distinct, h.delivered⟩
  text _ _ h := ⟨h.sound, h.senders, h.distinct, h.delivered⟩
  packet _ _ _ _ h hok := h.perform (fun _ hs => by cases hs) hok
  command _ _ _ _ _ _ h hop hsender hok := by
    refine h.perform (fun s hs => ?_) hok
    rw [Action.op_sender hop hs]
    rcases hsender with rfl | ⟨i, conn, hconn, rfl⟩
    · intro j other _ hfd
      cases hfd
    · exact h.distinct i conn hconn
  close _ i h := h.close i

def Daemon.Unused (fd : Nat) (d : Daemon) : Prop :=
  d.mc.AllSenders fun s => s.fd ≠ some fd

theorem Daemon.Private.accept (h : d.Private) (hfree : d.Unused (lowestFree d.used)) (ok : Bool) :
    (d.accept ok).Private := by
  have hslots : ∀ i conn, (d.accept ok).slots.clientfd i = some conn →
      d.slots.clientfd i = some conn ∨ conn = d.newConn := by
    intro i conn hconn
    refine (clientfd_acceptClient hconn).imp_right fun hnew => ?_
    grind
  have hknows : ∀ s, d.Knows s → s.fd ≠ some (lowestFree d.used) → (d.accept ok).Knows s := by
    intro s hs hne i conn hconn hfd
    rcases hslots i conn hconn with hold | rfl
    · exact hs i conn hold hfd
    · exact absurd hfd hne
  refine ⟨h.sound, ⟨fun a ha => ?_, fun x hx => ?_⟩, fun i conn hconn => ?_, h.delivered⟩
  · exact hknows _ (h.senders.ranges a ha) (hfree.ranges a ha)
  · exact hknows _ (h.senders.notes x hx) (hfree.notes x hx)
  · rcases hslots i conn hconn with hold | rfl
    · refine hknows _ (h.distinct i conn hold) fun hfd => ?_
      have hmem := fd_mem_used hold
      rw [Option.some.inj hfd] at hmem
      exact lowestFree_not_mem d.used hmem
    · -- the descriptor was free, so that only the new connection has it
      intro j other hother hfd
      rcases hslots j other hother with hold | rfl
      · have hmem := fd_mem_used hold
        rw [← Option.some.inj hfd] at hmem
        exact absurd hmem (lowestFree_not_mem d.used)
      · rfl

def Daemon.Apart (d : Daemon) (t : Turn) : Prop :=
  ∀ r, t.select = .ready r → r.connection = some true →
    ∀ a ∈ d.mc.queue, (d.mc.mem a).state ≠ .RELEASED →
      (d.mc.mem a).sender.fd ≠ some (lowestFree d.used)

theorem Daemon.unused_handlePackets {fd : Nat} {ms : List (Message × Bool)} (hs : d.mc.Sound)
    (h : d.Unused fd) (hok : d.handlePackets ms = .ok d') :
    d'.Unused fd ∧ d'.used = d.used := by
  have hkeeps : (d'.mc.Sound ∧ d'.Unused fd) ∧ d'.slots = d.slots ∧ d'.own = d.own := by
    refine handlePackets_keeps
      (P := fun e => (e.mc.Sound ∧ e.Unused fd) ∧ e.slots = d.slots ∧ e.own = d.own)
      (fun _ _ h => h) ?_ ⟨⟨hs, h⟩, rfl, rfl⟩ hok
    rintro e stream oom mc ⟨⟨hsound, hunused⟩, hsame⟩ hmc
    have hsenders := Client.perform_senders hsound hunused (fun _ hs => by cases hs) hmc
    exact ⟨⟨(Client.perform_spec hsound hmc).1, hsenders⟩, hsame⟩
  grind [used]

theorem Daemon.Private.turn {t : Turn} (h : d.Private) (hapart : d.Apart t)
    (hok : d.turn t = .ok d') : d'.Private := by
  have hflush := h.flush t.sendError
  obtain ⟨-, rfl⟩ | ⟨r, hready, hread⟩ := turn_cases hok
  · have hperform : (d.flush t.sendError).mc.perform .timer =
        .ok (d.flush t.sendError).mc.handleTimer := rfl
    have htimer := hflush.perform (fun _ hs => by cases hs) hperform
    exact ⟨htimer.sound, htimer.senders, htimer.distinct, htimer.delivered⟩
  · refine private_reads.readAll hflush ?_ hread
    intro d₁ ok hpackets h₁ hconnection
    cases ok with
    | false => exact ⟨h₁.sound, h₁.senders, h₁.distinct, h₁.delivered⟩
    | true =>
      have hunused : (d.flush t.sendError).Unused (lowestFree d.used) := by
        refine ⟨fun a ha => ?_, ?_⟩
        · obtain ⟨hqueue, hlive⟩ := (h.sound.held.owned a).mp ha
          exact hapart r hready hconnection a hqueue hlive
        · intro x hx
          cases hx
      obtain ⟨hunused₁, hused⟩ := unused_handlePackets hflush.sound hunused hpackets
      have hsame : d₁.used = d.used := hused
      rw [← hsame] at hunused₁
      exact h₁.accept hunused₁ true

end Avb4Linux.Maap
