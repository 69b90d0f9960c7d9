import Avb4Linux.Maap.Flags

/-!
# Ranges that have been probed for

The invariant says of every probing range how many of its probes the log has and which packets it
has handled since it got its interval.
-/

namespace Avb4Linux.Maap

open Lib Lib.Fallible List

variable {σ : Type} {v v' : Ledger σ} {r low high : Nat}

def Packet.Meets (p : Packet) (base : UInt64) (low high : Nat) : Prop :=
  ∃ k < countOf low high, p.requestedStartAddress ≤ addressOf base (low + k) ∧
    addressOf base (low + k) < p.requestedStartAddress + p.requestedCount

def Packet.Beats (p : Packet) (srcMac : Nat) : Prop :=
  ¬(p.messageType = maapProbe ∧ compareMacAddresses srcMac p.sa = true)

/-- What happened since a range got its interval, if `left` of its probes are still to be
queued. -/
structure Ledger.Since (v : Ledger σ) (excused : Packet → Prop) (r low high left : Nat)
    (since : List Event) : Prop where
  assigned : ∀ l h, Event.assigned r l h ∉ since
  probes : 1 + maapProbeRetransmits ≤ since.count (Event.queued (v.probe low high)) + left
  handled : ∀ p, Event.handled p ∈ since → p.Meets v.base low high → p.Beats v.srcMac → excused p

def Ledger.Watched (v : Ledger σ) (excused : Packet → Prop) (r low high : Nat) : Prop :=
  ∃ before since, v.log = before ++ Event.assigned r low high :: since ∧
    v.Since excused r low high (v.core r).counter since

def Ledger.Probing (v : Ledger σ) (excused : Nat → Packet → Prop) : Prop :=
  ∀ r low high, ⟨low, high, some r⟩ ∈ v.slots → (v.core r).state = .PROBING →
    v.Watched (excused r) r low high

theorem Ledger.Grown.probe {new : List Event} (h : v.Grown v' new) (low high : Nat) :
    v'.probe low high = v.probe low high := by
  unfold Ledger.probe
  rw [h.base, h.srcMac, h.destMac]

variable {ex ex' : Packet → Prop} {w : List Event}

theorem Ledger.Watched.grow (h : v.Watched ex r low high) (hg : v.Grown v' w)
    (hassigned : ∀ l h, Event.assigned r l h ∉ w)
    (hprobes : (v.core r).counter ≤
      w.count (Event.queued (v.probe low high)) + (v'.core r).counter)
    (hhandled : ∀ p, Event.handled p ∈ w → p.Meets v.base low high → p.Beats v.srcMac → ex' p)
    (hex : ∀ p, ex p → ex' p) : v'.Watched ex' r low high := by
  obtain ⟨before, since, hlog, hsince⟩ := h
  have hcount := hsince.probes
  refine ⟨before, since ++ w, ?_, ?_, ?_, ?_⟩
  · rw [hg.log, hlog, append_assoc, cons_append]
  · grind [Since.assigned]
  · rw [hg.probe, count_append]
    omega
  · rw [hg.base, hg.srcMac]
    grind [Since.handled, Kept.handled]

theorem Ledger.Watched.start (hg : v.Grown v' [.assigned r low high, .queued (v.probe low high)])
    (hcounter : (v'.core r).counter = maapProbeRetransmits) : v'.Watched ex r low high := by
  refine ⟨v.log, [.queued (v.probe low high)], hg.log, ?_, ?_, ?_⟩
  all_goals grind [Grown.probe]

theorem Ledger.Probing.keep {ex : Nat → Packet → Prop} (h : v.Probing ex)
    (hslot : ⟨low, high, some r⟩ ∈ v.slots) (hprobing : (v'.core r).state = .PROBING)
    (hstate : (v'.core r).state = (v.core r).state)
    (hcounter : (v'.core r).counter = (v.core r).counter) (hg : v.Grown v' w)
    (hassigned : ∀ l h, Event.assigned r l h ∉ w) (hhandled : ∀ p, Event.handled p ∉ w)
    (hex : ∀ p, ex r p → ex' p) : v'.Watched ex' r low high := by
  refine (h r low high hslot (hstate ▸ hprobing)).grow hg hassigned ?_ ?_ hex
  · omega
  · intro p hmem
    exact absurd hmem (hhandled p)

theorem Ledger.Probing.same {ex : Nat → Packet → Prop} (h : v.Probing ex)
    (hslot : ⟨low, high, some r⟩ ∈ v.slots) (hprobing : (v'.core r).state = .PROBING)
    (hcore : v'.core r = v.core r) (hg : v.Grown v' w)
    (hassigned : ∀ l h, Event.assigned r l h ∉ w) (hhandled : ∀ p, Event.handled p ∉ w)
    (hex : ∀ p, ex r p → ex' p) : v'.Watched ex' r low high :=
  h.keep hslot hprobing (by rw [hcore]) (by rw [hcore]) hg hassigned hhandled hex

theorem slot_eq_of_owner {l : List Slot} (h : (owners l).Nodup) {s t : Slot} (hs : s ∈ l)
    (ht : t ∈ l) (hsr : s.owner = some r) (htr : t.owner = some r) : s = t := by
  induction l with
  | nil => cases hs
  | cons a l ih =>
    have hself : ∀ x, x ∈ a :: l → x.owner = some r → a.owner = some r → x = a := by
      grind [owners, mem_owners]
    have htail : (owners l).Nodup := h.sublist ((sublist_cons_self a l).filterMap _)
    grind

theorem Handed.mem_of_owner {s : Slot} {l l' : List Slot} (h : Handed s none l l')
    (hx : ⟨low, high, some r⟩ ∈ l') : ⟨low, high, some r⟩ ∈ l := by
  obtain ⟨a, b, rfl, rfl⟩ := h
  grind

section Transitions

variable {ex ex' : Nat → Packet → Prop}

theorem Drop.probing (hh : v.Held) (h : v.Probing ex) (hd : Drop r v v')
    (hex : ∀ a, a ≠ r → ∀ p, ex a p → ex' a p) : v'.Probing ex' := by
  obtain ⟨hrem⟩ := hd
  have hgone := (nodup_cons.mp ((hrem.owners_perm rfl).nodup_iff.mp hh.nodup)).1
  intro a low high hslot hprobing
  have hne : a ≠ r := by
    rintro rfl
    exact hgone (mem_owners.mpr ⟨_, hslot, rfl⟩)
  exact h.same (w := []) (hrem.mem hslot) hprobing (Ledger.setCore_of_ne _ hne)
    ⟨rfl, rfl, rfl, (append_nil _).symm⟩ (by simp) (by simp) (hex a hne)

theorem Move.probing (hh : v.Held) (h : v.Probing ex) (hm : Move r v v')
    (hex : ∀ a, a ≠ r → ∀ p, ex a p → ex' a p) : v'.Probing ex' := by
  obtain ⟨-, howner, hhand, hins, hrem, -⟩ := hm
  have hgone := (nodup_cons.mp ((hhand.owners_perm howner).nodup_iff.mp hh.nodup)).1
  intro a low high hslot hprobing
  rcases hins.mem_iff.mp (hrem.mem hslot) with heq | hkept
  · cases heq
    refine Ledger.Watched.start (v := v) ⟨rfl, rfl, rfl, rfl⟩ ?_
    rw [Ledger.setCore_self]
  · have hne : a ≠ r := by
      rintro rfl
      exact hgone (mem_owners.mpr ⟨_, hkept, rfl⟩)
    refine h.same (hhand.mem_of_owner hkept) hprobing (Ledger.setCore_of_ne _ hne)
      ⟨rfl, rfl, rfl, rfl⟩ ?_ (by simp) (hex a hne)
    intro l h
    simp [hne]

theorem Replace.probing (hh : v.Held) (h : v.Probing ex) (hr : Replace r v v')
    (hex : ∀ a, a ≠ r → ∀ p, ex a p → ex' a p) : v'.Probing ex' := by
  obtain ⟨hold, howner, hins, hrem, -⟩ := hr
  have hrfresh : r ≠ v.fresh := by
    rintro rfl
    exact hh.fresh_not_owner (mem_owners.mpr ⟨_, hold, howner⟩)
  intro a low high hslot hprobing
  have hne : a ≠ r := by
    rintro rfl
    rw [Ledger.setCore_self] at hprobing
    cases hprobing
  rcases hins.mem_iff.mp (hrem.mem hslot) with heq | hkept
  · cases heq
    refine Ledger.Watched.start (v := v) ⟨rfl, rfl, rfl, rfl⟩ ?_
    rw [Ledger.setCore_of_ne _ hne]
    dsimp only
    rw [Function.update_self]
    rfl
  · have hfresh : a ≠ v.fresh := by
      rintro rfl
      exact hh.fresh_not_owner (mem_owners.mpr ⟨_, hkept, rfl⟩)
    refine h.same hkept hprobing ?_ ⟨rfl, rfl, rfl, rfl⟩ ?_ (by simp) (hex a hne)
    all_goals grind [Ledger.setCore_of_ne, Function.update_of_ne]

theorem Ledger.Probing.waste (hh : v.Held) (h : v.Probing ex) (x : Core σ) :
    { v with core := Function.update v.core v.fresh x, fresh := v.fresh + 1 }.Probing ex := by
  intro a low high hslot hprobing
  have hfresh : a ≠ v.fresh := by
    rintro rfl
    exact hh.fresh_not_owner (mem_owners.mpr ⟨_, hslot, rfl⟩)
  exact h.same (w := []) hslot hprobing (Function.update_of_ne hfresh ..)
    ⟨rfl, rfl, rfl, (append_nil _).symm⟩ (by simp) (by simp) fun _ hp => hp

theorem Timed.probing (hh : v.Held) (h : v.Probing ex) (ht : Timed v v') : v'.Probing ex := by
  cases ht with
  | queue p =>
    intro a low high hslot hprobing
    exact h.same hslot hprobing rfl ⟨rfl, rfl, rfl, rfl⟩ (by simp) (by simp) fun _ hp => hp
  | free released =>
    intro a low high hslot hprobing
    exact h.same (w := []) hslot hprobing rfl ⟨rfl, rfl, rfl, (append_nil _).symm⟩ (by simp)
      (by simp) fun _ hp => hp
  | @tick r low high k slot probing counter =>
    intro a low' high' hslot hprobing
    by_cases hne : a = r
    · subst hne
      cases slot_eq_of_owner hh.nodup hslot slot rfl rfl
      refine (h a low high hslot probing).grow (w := [.queued (v.probe low high)])
        ⟨rfl, rfl, rfl, rfl⟩ (by simp) ?_ (by simp) fun _ hp => hp
      grind [Ledger.setCore_self]
    · exact h.same hslot hprobing (Ledger.setCore_of_ne _ hne) ⟨rfl, rfl, rfl, rfl⟩ (by simp)
        (by simp) fun _ hp => hp
  | @acquire r owned probing counter =>
    intro a low high hslot hprobing
    have hne : a ≠ r := by
      rintro rfl
      rw [Ledger.setCore_self] at hprobing
      cases hprobing
    exact h.same hslot hprobing (Ledger.setCore_of_ne _ hne) ⟨rfl, rfl, rfl, rfl⟩ (by simp)
      (by simp) fun _ hp => hp

theorem Reserve.probing {sender : σ} {attemptBase n : Nat} {late : Prop} (hh : v.Held)
    (h : v.Probing ex) (hr : Reserve sender attemptBase n late v v') : v'.Probing ex := by
  have hold : ∀ a low high, ⟨low, high, some a⟩ ∈ v.slots → a ≠ v.fresh := by
    rintro a low high hslot rfl
    exact hh.fresh_not_owner (mem_owners.mpr ⟨_, hslot, rfl⟩)
  cases hr with
  | refused => exact h
  | failed x =>
    intro a low high hslot hprobing
    exact h.same (w := []) hslot hprobing (Function.update_of_ne (hold a low high hslot) ..)
      ⟨rfl, rfl, rfl, (append_nil _).symm⟩ (by simp) (by simp) fun _ hp => hp
  | orphan x isLate inserted =>
    intro a low high hslot hprobing
    have hslot : ⟨low, high, some a⟩ ∈ v.slots := by
      refine (inserted.mem_iff.mp hslot).resolve_left ?_
      intro heq
      cases congrArg Slot.owner heq
    exact h.same (w := []) hslot hprobing (Function.update_of_ne (hold a low high hslot) ..)
      ⟨rfl, rfl, rfl, (append_nil _).symm⟩ (by simp) (by simp) fun _ hp => hp
  | placed small fits inserted placement =>
    intro a low high hslot hprobing
    rcases inserted.mem_iff.mp hslot with heq | hslot
    · cases heq
      refine Ledger.Watched.start (v := v) ⟨rfl, rfl, rfl, rfl⟩ ?_
      dsimp only
      rw [Function.update_self]
      rfl
    · have hfresh := hold a low high hslot
      refine h.same hslot hprobing (Function.update_of_ne hfresh ..) ⟨rfl, rfl, rfl, rfl⟩ ?_
        (by simp) fun _ hp => hp
      intro l h
      simp [hfresh]

theorem Resolves.probing {p : Packet} (hh : v.Held) (h : v.Probing ex) (hr : Resolves p r v v')
    (hex : ∀ a, a ≠ r → ∀ q, ex a q → ex' a q) (hself : ∀ q, ex r q → q = p) : v'.Probing ex' := by
  cases hr with
  | ignore wins equal =>
    intro a low high hslot hprobing
    by_cases hne : a = r
    · subst hne
      obtain ⟨before, since, hlog, hsince⟩ := h a low high hslot hprobing
      refine ⟨before, since, hlog, hsince.assigned, hsince.probes, ?_⟩
      intro q hmem hmeets hbeats
      cases hself q (hsince.handled q hmem hmeets hbeats)
      exact absurd ⟨equal.mp hprobing, wins⟩ hbeats
    · exact h.same (w := []) hslot hprobing rfl ⟨rfl, rfl, rfl, (append_nil _).symm⟩
        (by simp) (by simp) (hex a hne)
  | move loses hm => exact hm.probing hh h hex
  | giveUp probing loses hd => exact hd.probing hh h hex
  | defend slot defending probe =>
    intro a low high hslot hprobing
    have hne : a ≠ r := by
      grind
    exact h.same hslot hprobing rfl ⟨rfl, rfl, rfl, rfl⟩ (by simp) (by simp) (hex a hne)
  | replace defending claim loses hrep => exact hrep.probing hh h hex
  | quit defending claim loses same hd =>
    rcases same with rfl | ⟨x, rfl⟩
    · exact hd.probing hh h hex
    · exact hd.probing (hh.waste x) (h.waste hh x) hex

end Transitions

structure Ledger.Fair (v : Ledger σ) : Prop where
  unflagged : v.Unflagged
  probing : v.Probing fun _ _ => False

theorem ResolvedAll.probing {p : Packet} {rs w : List Nat} (hh : v.Held) (hflags : v.FlaggedIn w)
    (hlen : w.length = rs.length) (h : v.Probing fun a q => q = p ∧ a ∈ w)
    (hr : ResolvedAll p rs v v') : v'.Probing fun _ _ => False := by
  induction hr generalizing w with
  | nil =>
    grind
  | @cons v v₁ v₂ r rs marked owned hres hrest ih =>
    have hmem := hflags r ((hh.owned r).mp owned).1 marked
    have hcleared : (v.flag r false).Held := hh.setCore Iff.rfl
    have hprobing : (v.flag r false).Probing fun a q => q = p ∧ a ∈ w := by
      intro a low high hslot hprobing
      have hcore := (v.flag_core r false a).1
      exact h.keep (w := []) hslot hprobing (by rw [hcore]) (by rw [hcore])
        ⟨rfl, rfl, rfl, (append_nil _).symm⟩ (by simp) (by simp) fun _ hq => hq
    refine ih (w := w.erase r) (hres.held hcleared) (hflags.resolves hh hres)
      (length_erase_of_turn hmem hlen) ?_
    refine hres.probing hcleared hprobing ?_ fun q hq => hq.1
    grind

theorem Handled.fair {p : Packet} {l : List Nat} (hh : v.Held) (h : v.Fair)
    (hhit : ∀ a low high, ⟨low, high, some a⟩ ∈ v.slots → (v.core a).state = .PROBING →
      p.Meets v.base low high → p.Beats v.srcMac → a ∈ l)
    (hp : Handled p l v v') : v'.Fair := by
  refine ⟨hp.unflagged hh h.unflagged, ?_⟩
  obtain ⟨rs, hlen, hall⟩ := hp
  have hmarked := Ledger.marked_flagAll l { v with log := v.log ++ [Event.handled p] }
  have hheld := (hh.log (v.log ++ [Event.handled p])).flagAll l
  refine hall.probing (w := l) hheld (hmarked.flaggedIn h.unflagged) hlen.symm ?_
  intro a low high hslot hprobing
  rw [hmarked.slots] at hslot
  rw [hmarked.state] at hprobing
  have hgrown : v.Grown (Ledger.flagAll l { v with log := v.log ++ [Event.handled p] })
      [.handled p] :=
    ⟨hmarked.grown.base, hmarked.grown.srcMac, hmarked.grown.destMac,
      hmarked.grown.log.trans (append_nil _)⟩
  refine (h.probing a low high hslot hprobing).grow hgrown (by simp) ?_ ?_ fun _ hq => hq.elim
  · rw [hmarked.counter]
    exact Nat.le_add_left _ _
  · grind

end Avb4Linux.Maap
