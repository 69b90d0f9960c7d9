import Avb4Linux.Maap.Contest

/-!
# The ranges that a packet is about

The ranges `maap_handle_packet` comes to are those whose addresses the packet is about, each once,
as long as the packet starts in the pool, asks for an address and ends within 2^32 addresses.
-/

namespace Avb4Linux.Maap

open Lib Lib.Fallible List

variable {σ : Type} {v v' : Ledger σ} {c c' : Client σ} {r low high : Nat}

theorem Client.tryInterval_finds (start len : Nat) (c : Client σ) :
    c.tryInterval start len ≠ .error .noFlaggedRange := by
  unfold tryInterval
  dsimp only
  split
  · split
    · exact fun h => by cases h
    · exact fun h => by cases h
  · exact fun h => by cases h

theorem Client.drawInterval_finds (len k : Nat) (c : Client σ) :
    c.drawInterval len k ≠ .error .noFlaggedRange := by
  induction k generalizing c with
  | zero => exact fun h => by cases h
  | succ k ih =>
    refine bind_ne_error ?_ ?_
    · unfold drawOnce
      split
      · exact fun h => by cases h
      · exact tryInterval_finds _ _ _
    · rintro ⟨c₁, o⟩ -
      cases o with
      | some iv => exact fun h => by cases h
      | none => exact ih c₁

theorem Client.assignInterval_finds (r attemptBase len : Nat) (c : Client σ) :
    c.assignInterval r attemptBase len ≠ .error .noFlaggedRange := by
  unfold assignInterval
  split
  · exact fun h => by cases h
  · refine bind_ne_error ?_ ?_
    · unfold attemptInterval
      split
      · exact tryInterval_finds _ _ _
      · exact fun h => by cases h
    · rintro ⟨c₁, o⟩ -
      cases o with
      | some iv => exact fun h => by cases h
      | none =>
        refine bind_ne_error (drawInterval_finds _ _ _) ?_
        rintro ⟨c₂, o, k⟩ -
        cases o with
        | none => exact fun h => by cases h
        | some iv =>
          dsimp only
          split
          · exact fun h => by cases h
          · exact fun h => by cases h

theorem fixIntervals_finds (old : Option Nat) (l : List Node) (mem : Nat → Range σ) :
    fixIntervals old l mem ≠ .error .noFlaggedRange := by
  induction l generalizing mem with
  | nil => exact fun h => by cases h
  | cons n l ih =>
    rw [fixIntervals]
    split
    · exact fun h => by cases h
    · split
      · exact fun h => by cases h
      · exact ih _

theorem Client.removeRangeInterval_finds (a : Nat) (c : Client σ) :
    c.removeRangeInterval a ≠ .error .noFlaggedRange := by
  unfold removeRangeInterval
  split
  · exact fun h => by cases h
  · split
    · exact fun h => by cases h
    · exact bind_ne_error (fixIntervals_finds _ _ _) fun _ _ h => by cases h

theorem Client.dropRange_finds (a r : Nat) (c : Client σ) :
    c.dropRange a r ≠ .error .noFlaggedRange :=
  bind_ne_error (Client.removeRangeInterval_finds _ _) fun _ _ h => by cases h

theorem Client.resolve_finds (p : Packet) (oom : Bool) (n : Node) (r : Nat) (c : Client σ) :
    c.resolve p oom n r ≠ .error .noFlaggedRange := by
  unfold resolve
  split
  · split
    · exact fun h => by cases h
    · refine bind_ne_error (assignInterval_finds _ _ _ _) ?_
      intro x _
      split
      · exact bind_ne_error (removeRangeInterval_finds _ _) fun _ _ h => by cases h
      · exact dropRange_finds _ _ _
  · split
    · exact fun h => by cases h
    · split
      · exact fun h => by cases h
      · unfold yieldInterval
        dsimp only
        split
        · exact dropRange_finds _ _ _
        · refine bind_ne_error (assignInterval_finds _ _ _ _) ?_
          intro x _
          split
          · exact dropRange_finds _ _ _
          · exact dropRange_finds _ _ _
  · exact fun h => by cases h

variable {p : Packet} {oom : Bool}

theorem Client.resolveLoop_finds {start k : Nat} {w : List Nat} (h : c.Sound) (ht : c.ledger.Tidy)
    (hp : c.Pending p start w) (hlen : w.length = k) :
    c.resolveLoop p oom start k ≠ .error .noFlaggedRange := by
  induction k generalizing c w with
  | zero => exact fun h => by cases h
  | succ k ih =>
    obtain ⟨b, hb⟩ := exists_mem_of_length_pos (Nat.lt_of_lt_of_eq k.succ_pos hlen.symm)
    obtain ⟨n, r, hfind, hn, hdata, hr⟩ := hp.finds h ht hb
    rw [resolveLoop, bind_of_ok hfind]
    refine bind_ne_error (resolve_finds _ _ _ _ _) ?_
    intro c₁ hok
    obtain ⟨hsound, htidy, hpending, -⟩ := resolve_turn h ht hp hn hdata hok
    refine ih hsound htidy hpending ?_
    rw [length_erase_of_mem hr, hlen, Nat.add_sub_cancel]

def Event.defence : Event → Option Packet
  | .queued q => if q.messageType = maapDefend then some q else none
  | _ => none

def Client.answer (c : Client σ) (p : Packet) (r : Nat) : Option Packet :=
  if p.messageType = maapProbe ∧ (c.mem r).state = .DEFENDING then
    some (defendPacket c.addressBase c.destMac c.srcMac (c.node r).low (c.node r).high
      p.requestedStartAddress p.requestedCount p.sa)
  else none

theorem Resolves.answers (hh : v.Held) (hslot : ⟨low, high, some r⟩ ∈ v.slots)
    (hr : Resolves p r v v') : ∃ e, v.Grown v' e ∧ e.filterMap Event.defence =
      if p.messageType = maapProbe ∧ (v.core r).state = .DEFENDING then
        [defendPacket v.base v.destMac v.srcMac low high p.requestedStartAddress p.requestedCount
          p.sa]
      else [] := by
  cases hr with
  | ignore wins equal =>
    refine ⟨[], .refl v, ?_⟩
    rw [if_neg]
    · rfl
    · rintro ⟨hprobe, hstate⟩
      rw [equal.mpr hprobe] at hstate
      cases hstate
  | move loses hm =>
    obtain ⟨hprobing, -⟩ := hm
    refine ⟨_, ⟨rfl, rfl, rfl, rfl⟩, ?_⟩
    rw [if_neg]
    · rfl
    · rintro ⟨-, hstate⟩
      rw [hprobing] at hstate
      cases hstate
  | giveUp probing loses hd =>
    obtain ⟨-⟩ := hd
    refine ⟨[], ⟨rfl, rfl, rfl, (append_nil _).symm⟩, ?_⟩
    rw [if_neg]
    · rfl
    · rintro ⟨-, hstate⟩
      rw [probing] at hstate
      cases hstate
  | defend slot defending probe =>
    refine ⟨_, ⟨rfl, rfl, rfl, rfl⟩, ?_⟩
    cases slot_eq_of_owner hh.nodup hslot slot rfl rfl
    rw [if_pos ⟨probe, defending⟩]
    rfl
  | replace defending claim loses hrep =>
    obtain ⟨-⟩ := hrep
    refine ⟨_, ⟨rfl, rfl, rfl, rfl⟩, ?_⟩
    rw [if_neg fun hprobe => claim hprobe.1]
    rfl
  | quit defending claim loses same hd =>
    obtain ⟨-⟩ := hd
    refine ⟨[], ?_, ?_⟩
    · rcases same with rfl | ⟨x, rfl⟩
      · exact ⟨rfl, rfl, rfl, (append_nil _).symm⟩
      · exact ⟨rfl, rfl, rfl, (append_nil _).symm⟩
    · rw [if_neg fun hprobe => claim hprobe.1]
      rfl

theorem Client.Spares.answer (h : c.Sound) (h' : c'.Sound) (hs : c.Spares r c')
    (hslot : ⟨low, high, some r⟩ ∈ c.slots) : c'.answer p r = c.answer p r := by
  obtain ⟨e, hgrown⟩ := hs.frame.grown
  have hbase : c'.addressBase = c.addressBase := hgrown.base
  have hmac : c'.srcMac = c.srcMac := hgrown.srcMac
  have hdest : c'.destMac = c.destMac := hgrown.destMac
  have hbelow : r < c.ledger.fresh :=
    h.held.below r ((h.held.owned r).mp (mem_owners.mpr ⟨_, hslot, rfl⟩)).1
  have hstate : (c'.mem r).state = (c.mem r).state := congrArg Core.state (hs.frame.core hbelow)
  obtain ⟨hlow, hhigh⟩ := h.linked.node_slot hslot
  obtain ⟨hlow', hhigh'⟩ := h'.linked.node_slot (hs.frame.slot low high hslot)
  unfold Client.answer
  rw [hbase, hmac, hdest, hstate, hlow, hhigh, hlow', hhigh']

theorem Client.Station.finds (hc : c.Station) (stream : List UInt8) (oom : Bool) :
    c.handlePacket stream oom ≠ .error .noFlaggedRange := by
  unfold handlePacket
  split
  · exact fun h => by cases h
  split
  · generalize unpackMaap stream = p
    unfold handleValid
    dsimp only
    split
    · exact fun h => by cases h
    · have howned : ∀ n ∈ c.overlapping p, n.data ≠ none := fun n hn =>
        hc.tidy.owned n.slot (mem_map_of_mem ((c.overlapping_sublist p).subset hn))
      obtain ⟨mem, hmem⟩ := flagOverlaps_ok howned c.mem
      have hloop : (c.flagged p mem).resolveLoop p oom (p.offset c.addressBase)
          (c.overlapping p).length ≠ .error .noFlaggedRange :=
        resolveLoop_finds (flagged_spec hc.sound hmem).1 (hc.tidy.congr rfl rfl)
          (pending_flagged hc.sound hc.unflagged hmem) (flagOverlaps_spec hc.sound hmem).2.2
      refine bind_ne_error ?_ ?_
      · exact fun h => by cases hmem.symm.trans h
      · intro mem' hmem'
        obtain rfl : mem = mem' := Except.ok.inj (hmem.symm.trans hmem')
        exact bind_ne_error hloop fun _ _ h => by cases h
  · exact fun h => by cases h

end Avb4Linux.Maap
