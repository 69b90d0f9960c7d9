import Avb4Linux.Maap.Acquisition
import Avb4Linux.Maap.Conflicts

/-!
# Two stations that want the same addresses

Two ranges that overlap, of two clients with the same pool, when each client receives the packet
of the other: exactly one stays where it is.
-/

namespace Avb4Linux.Maap

open Lib Lib.Fallible

variable {σ τ : Type} {v v' : Ledger σ} {c c' : Client σ} {r low high : Nat}

def Client.Holds (c : Client σ) (r low high : Nat) (s : RangeState) : Prop :=
  ⟨low, high, some r⟩ ∈ c.slots ∧ (c.mem r).state = s

/-- The range has left its interval and probes for another one of the same size, from the
beginning. -/
def Client.Relocates (c c' : Client σ) (r low high : Nat) : Prop :=
  ⟨low, high, some r⟩ ∉ c'.slots ∧ ∃ low' high' e, c'.Holds r low' high' .PROBING ∧
    (high' < low ∨ high < low') ∧ high' - low' = high - low ∧
    (c'.mem r).counter = maapProbeRetransmits ∧
    c'.log = c.log ++ e ∧ .queued (c'.ledger.probe low' high') ∈ e

def Client.Releases (c c' : Client σ) (r : Nat) (kind : NotifyKind) (result : NotifyError → Prop) :
    Prop :=
  r ∉ owners c'.slots ∧ (c'.mem r).state = .RELEASED ∧ ∃ new note,
    c'.notifies = c.notifies ++ new ∧ ((c.mem r).sender, note) ∈ new ∧
    note.kind = kind ∧ note.id = (c.mem r).id ∧ result note.result

def Client.Leaves (c c' : Client σ) (r low high : Nat) : Prop :=
  c.Relocates c' r low high ∨ c.Releases c' r .ACQUIRED (· = .RESERVE_NOT_AVAILABLE)

theorem Move.outcome (hh : v.Held) (hl : v.Laid) (hslot : ⟨low, high, some r⟩ ∈ v.slots)
    (hm : Move r v v') : ∃ low' high', ⟨low', high', some r⟩ ∈ v'.slots ∧
      (high' < low ∨ high < low') ∧ high' - low' = high - low ∧ (v'.core r).state = .PROBING ∧
      (v'.core r).counter = maapProbeRetransmits ∧
      v.Grown v' [.assigned r low' high', .queued (v.probe low' high')] := by
  cases hm with
  | @mk old low' high' _ _ _ hprobing howner hhand hins hrem hplace =>
    obtain rfl := slot_eq_of_owner hh.nodup hslot hhand.self_mem rfl howner
    obtain ⟨hle, hinside, hsize⟩ := hl.replacement hslot hplace
    have hnew := hins.mem_iff.mpr (.inl rfl)
    have horder := hins.inOrder (hhand.inOrder hl.order) hle
    have hdisjoint : high' < low ∨ high < low' := horder.disjoint hnew hrem.self_mem fun heq => by
      cases congrArg Slot.owner heq
    have hlow : low ≤ high := hl.order.low_le_high _ hslot
    have hold : high < v.len.toNat := hl.inside _ hslot
    have hcount : countOf low high % 2 ^ 16 = high - low + 1 := countOf_eq hlow (hl.size _ hslot)
    rw [hcount] at hplace
    obtain ⟨-, hend⟩ := hplace.spot (by omega) (by omega) (by decide) (.inl (by omega))
    refine ⟨low', high', ?_, hdisjoint, by omega, ?_, ?_, ⟨rfl, rfl, rfl, rfl⟩⟩
    · refine (hrem.mem_or hnew).resolve_left ?_
      intro heq
      cases congrArg Slot.owner heq
    all_goals simp_all

theorem Drop.released (hd : Drop r v v') : (v'.core r).state = .RELEASED := by
  obtain ⟨-⟩ := hd
  rw [Ledger.setCore_self]

theorem Drop.fresh (hd : Drop r v v') : v'.fresh = v.fresh := by
  obtain ⟨-⟩ := hd
  rfl

theorem Move.fresh (hm : Move r v v') : v'.fresh = v.fresh := by
  obtain ⟨-⟩ := hm
  rfl

theorem Replace.fresh (hr : Replace r v v') : v'.fresh = v.fresh + 1 := by
  obtain ⟨-⟩ := hr
  rfl

theorem Replace.released (hr : Replace r v v') : (v'.core r).state = .RELEASED := by
  obtain ⟨-⟩ := hr
  rw [Ledger.setCore_self]

theorem Client.assignInterval_mem {attemptBase len : Nat}
    (h : c.assignInterval r attemptBase len = .ok (c', false)) : c'.mem = c.mem := by
  rcases assignInterval_cases h with ⟨hfound, -⟩ | ⟨-, k, rfl⟩ | ⟨-, -, iv, t, -, -, rfl⟩
  · cases hfound
  · rfl
  · rfl

theorem Client.relocate_told {n : Node} {c₁ : Client σ}
    (hassign : (c.disown n.addr).assignInterval r 0 (n.count % 2 ^ 16) = .ok (c₁, false))
    (hok : c.relocate n r = .ok c') : c'.notifies = c.notifies ++
      [((c.mem r).sender, ⟨.ACQUIRED, (c.mem r).id, 0, n.count, .RESERVE_NOT_AVAILABLE⟩)] := by
  unfold relocate at hok
  rw [bind_of_ok hassign] at hok
  simp only [Bool.false_eq_true, if_false] at hok
  have hmem := assignInterval_mem hassign
  dsimp only [disown] at hmem
  have hnotes : c₁.notifies = c.notifies := (silent_assignInterval hassign).notifies
  have hdrop := (silent_dropRange hok).notifies
  dsimp only [informNotAcquired, addNotify] at hdrop
  rw [hdrop, hnotes, hmem]

def Client.Adds (c c' : Client σ) (x : σ × Notify) : Prop :=
  ∃ new, c'.notifies = c.notifies ++ new ∧ x ∈ new

theorem Client.Adds.tells {c₁ c₂ c₃ c₄ : Client σ} {x : σ × Notify} {P P' : σ → Prop}
    (hbefore : c₁.Tells P c₂) (h : c₂.Adds c₃ x) (hafter : c₃.Tells P' c₄) : c₁.Adds c₄ x := by
  obtain ⟨l₁, h₁, -⟩ := hbefore
  obtain ⟨l₂, h₂, hx⟩ := h
  obtain ⟨l₃, h₃, -⟩ := hafter
  refine ⟨l₁ ++ (l₂ ++ l₃), ?_, ?_⟩
  all_goals grind

variable {oom : Bool} {p : Packet}

structure Client.Stage (c : Client σ) (r low high : Nat) (d : Client σ) : Prop where
  sound : d.Sound
  tidy : d.ledger.Tidy
  grown : ∃ e, c.ledger.Grown d.ledger e
  slot : ⟨low, high, some r⟩ ∈ d.slots
  state : (d.mem r).state = (c.mem r).state
  id : (d.mem r).id = (c.mem r).id
  sender : (d.mem r).sender = (c.mem r).sender
  tells : c.Tells (fun _ => True) d

theorem Client.handlePacket_stage (h : c.Sound) (ht : c.ledger.Tidy) (hu : c.ledger.Unflagged)
    (hp : unpackMaap (packMaap p) = p) (hvalid : p.valid = true)
    (hin : c.HandlesInTime (packMaap p) oom) :
    ∃ c', c.handlePacket (packMaap p) oom = .ok c' ∧ c'.Sound ∧
      ∀ r low high, ⟨low, high, some r⟩ ∈ c.slots → r ∈ c.hits p → ∃ d n c₂,
        c.Stage r low high d ∧ n ∈ d.ranges.nodes ∧ n.data = some r ∧
        d.resolve p oom n r = .ok c₂ ∧ c₂.Spares r c' := by
  obtain ⟨c', hok, hturns⟩ := handlePacket_turns h ht hu (length_packMaap p).ge
    (hp.symm ▸ hvalid) hin
  refine ⟨c', hok, (handlePacket_spec h hok).1, ?_⟩
  rw [hp] at hturns
  intro r low high hslot hhit
  obtain ⟨mem, hmem, c₁, n, c₂, hbefore, hsound, htidy, hn, hdata, hres, hafter⟩ := hturns r hhit
  obtain ⟨hflagged, hmarked, -⟩ := flagged_spec h hmem
  obtain ⟨hcleared, hledger⟩ := hsound.flag (r := r) false
  have hslot₁ : ⟨low, high, some r⟩ ∈ c₁.slots := hbefore.frame.slot low high hslot
  have hbelow : r < (c.flagged p mem).ledger.fresh :=
    hflagged.held.below r ((hflagged.held.owned r).mp (mem_owners.mpr ⟨_, hslot, rfl⟩)).1
  have hcore : ∃ b, (c₁.unflag r).ledger.core r = { c.ledger.core r with overlapping := b } := by
    refine ⟨false, ?_⟩
    have hframe := hbefore.frame.core hbelow
    have hmark := hmarked.core r
    have hunflag : (c₁.unflag r).ledger.core r =
        { c₁.ledger.core r with overlapping := false } := by
      have hflag : (c₁.unflag r).ledger = c₁.ledger.flag r false := hledger
      rw [hflag]
      exact Ledger.setCore_self _
    rw [hunflag, hframe, hmark]
  obtain ⟨b, hcore⟩ := hcore
  obtain ⟨e, hgrown⟩ := hbefore.frame.grown
  have hfirst : c.ledger.Grown (c.flagged p mem).ledger [.handled p] := ⟨rfl, rfl, rfl, rfl⟩
  have hlast : c₁.ledger.Grown (c₁.unflag r).ledger [] := ⟨rfl, rfl, rfl, (List.append_nil _).symm⟩
  have hsilent : c₁.Silent (c₁.unflag r) := c₁.silent_setRange rfl
  have hsame : c.Tells (fun _ => True) (c.flagged p mem) := ⟨[], (List.append_nil _).symm, by simp⟩
  refine ⟨c₁.unflag r, n, c₂, ⟨hcleared, htidy.congr rfl rfl, ⟨_, (hfirst.trans hgrown).trans hlast⟩,
    hslot₁, ?_, ?_, ?_, (hsame.trans hbefore.tells).trans hsilent.tells⟩, hn, hdata, hres, hafter⟩
  · exact congrArg Core.state hcore
  · exact congrArg Core.id hcore
  · exact congrArg Core.sender hcore

theorem Client.Spares.holds {s : RangeState} (h : c.Sound) (hs : c.Spares r c')
    (hc : c.Holds r low high s) : c'.Holds r low high s := by
  have hbelow : r < c.ledger.fresh :=
    h.held.below r ((h.held.owned r).mp (mem_owners.mpr ⟨_, hc.1, rfl⟩)).1
  exact ⟨hs.frame.slot low high hc.1, (congrArg Core.state (hs.frame.core hbelow)).trans hc.2⟩

section Outcomes

variable {p : Packet} {oom : Bool} {d c₂ : Client σ} {n : Node}

theorem Client.Spares.gone (hc' : c'.Sound) (hs : c.Spares r c')
    (hmem : r < c.ledger.fresh) (hstate : (c.ledger.core r).state = .RELEASED) :
    r ∉ owners c'.slots ∧ (c'.mem r).state = .RELEASED := by
  have hreleased : (c'.ledger.core r).state = .RELEASED := by
    rw [hs.frame.core hmem]
    exact hstate
  exact ⟨fun howner => ((hc'.held.owned r).mp howner).2 hreleased, hreleased⟩

theorem Client.Stage.below (hd : c.Stage r low high d) : r < d.ledger.fresh :=
  hd.sound.held.below r ((hd.sound.held.owned r).mp (mem_owners.mpr ⟨_, hd.slot, rfl⟩)).1

theorem Client.Stage.leaves (hd : c.Stage r low high d) (hc' : c'.Sound)
    (hn : n ∈ d.ranges.nodes) (hdata : n.data = some r) (hres : d.resolve p oom n r = .ok c₂)
    (hafter : c₂.Spares r c') (hstate : (c.mem r).state = .PROBING) (hbeats : p.Beats c.srcMac) :
    c.Leaves c' r low high := by
  obtain ⟨e, hgrown⟩ := hd.grown
  have hdstate := hd.state.trans hstate
  have hmac : d.srcMac = c.srcMac := hgrown.srcMac
  have hrel : d.relocate n r = .ok c₂ := by
    unfold Client.resolve at hres
    rw [hdstate, hmac] at hres
    dsimp only at hres
    rw [if_neg hbeats] at hres
    exact hres
  have hsound : c₂.Sound := (resolve_spec hd.sound hn hdata hres).1
  obtain ⟨-, hmove | ⟨hdrop, c₁, hassign⟩⟩ :=
    relocate_spec hd.sound hn hdata hdstate hrel
  · obtain ⟨low', high', hslot, hapart, hsize, hprobing, hcounter, hlog⟩ :=
      hmove.outcome hd.sound.held hd.tidy.laid hd.slot
    have hholds : c'.Holds r low' high' .PROBING := hafter.holds hsound ⟨hslot, hprobing⟩
    obtain ⟨e', hgrown'⟩ := hafter.frame.grown
    have hall := (hgrown.trans hlog).trans hgrown'
    have hcore := hafter.frame.core (Nat.lt_of_lt_of_le hd.below (Move.fresh hmove).ge)
    refine .inl ⟨?_, low', high', _, hholds, hapart, hsize, ?_, hall.log, ?_⟩
    · intro hold
      cases slot_eq_of_owner hc'.held.nodup hold hholds.1 rfl rfl
      have hle : low ≤ high := hd.tidy.order.low_le_high _ hd.slot
      omega
    · exact (congrArg Core.counter hcore).trans hcounter
    · have hprobe : c'.ledger.probe low' high' = d.ledger.probe low' high' :=
        (hlog.trans hgrown').probe low' high'
      rw [hprobe]
      simp
  · have htold := relocate_told hassign hrel
    have hfresh : r < c₂.ledger.fresh := Nat.lt_of_lt_of_le hd.below (Drop.fresh hdrop).ge
    obtain ⟨hgone, hreleased⟩ := hafter.gone hc' hfresh hdrop.released
    have hadds : d.Adds c₂ ((c.mem r).sender,
        ⟨.ACQUIRED, (c.mem r).id, 0, n.count, .RESERVE_NOT_AVAILABLE⟩) := by
      rw [hd.sender, hd.id] at htold
      exact ⟨_, htold, List.mem_singleton_self _⟩
    obtain ⟨new, hnew, hin⟩ := hadds.tells hd.tells hafter.tells
    exact .inr ⟨hgone, hreleased, new, _, hnew, hin, rfl, rfl, rfl⟩

end Outcomes

structure Client.Station (c : Client σ) : Prop where
  sound : c.Sound
  tidy : c.ledger.Tidy
  unflagged : c.ledger.Unflagged
  srcMac : c.srcMac < 2 ^ 48
  destMac : c.destMac < 2 ^ 48
  pool : c.addressBase.toNat + c.rangeLen.toNat ≤ 2 ^ 48

structure Client.About (c : Client σ) (low high : Nat) (p : Packet) : Prop where
  fits : p.Fits
  valid : p.valid = true
  start : p.requestedStartAddress = c.addressBase.toNat + low
  count : p.requestedCount = high - low + 1

theorem Client.About.unpack (h : c.About low high p) : unpackMaap (packMaap p) = p := by
  have hunpack := unpackMaap_packMaap h.fits []
  rwa [List.append_nil] at hunpack

theorem Client.Station.hit (hc : c.Station) {low' high' : Nat} (hp : c.About low' high' p)
    (hinside : high' < c.rangeLen.toNat) (hle : low' ≤ high')
    (hslot : ⟨low, high, some r⟩ ∈ c.slots) (hover : low ≤ high' ∧ low' ≤ high) : r ∈ c.hits p := by
  have hpool := hc.pool
  have hlow : low ≤ high := hc.tidy.order.low_le_high _ hslot
  have hhigh : high < c.rangeLen.toNat := hc.tidy.inside _ hslot
  have hsize : high - low + 1 ≤ 0xFFFF := hc.tidy.size _ hslot
  have hlen := c.rangeLen.toNat_lt
  have hstart := hp.start
  have hcount := hp.count
  refine hits_of_meets hc.sound hc.tidy.laid hp.fits.requestedStartAddress hslot ?_
    (by omega) (by omega)
  -- the first of the addresses that both intervals have
  refine ⟨max low low' - low, ?_, ?_, ?_⟩
  all_goals grind [countOf, addressOf]

theorem Client.About.other {c₂ : Client τ} (h : c₂.About low high p)
    (hbase : c₂.addressBase = c.addressBase) : c.About low high p :=
  ⟨h.fits, h.valid, hbase ▸ h.start, h.count⟩

structure Contest (c₁ : Client σ) (c₂ : Client τ) (r₁ r₂ low₁ high₁ low₂ high₂ : Nat) : Prop where
  first : c₁.Station
  second : c₂.Station
  base : c₂.addressBase = c₁.addressBase
  len : c₂.rangeLen = c₁.rangeLen
  macs : c₁.srcMac ≠ c₂.srcMac
  slot₁ : ⟨low₁, high₁, some r₁⟩ ∈ c₁.slots
  slot₂ : ⟨low₂, high₂, some r₂⟩ ∈ c₂.slots
  overlap : low₁ ≤ high₂ ∧ low₂ ≤ high₁

section

variable {c₁ : Client σ} {c₂ : Client τ} {r₁ r₂ low₁ high₁ low₂ high₂ : Nat}

theorem Contest.symm (h : Contest c₁ c₂ r₁ r₂ low₁ high₁ low₂ high₂) :
    Contest c₂ c₁ r₂ r₁ low₂ high₂ low₁ high₁ :=
  ⟨h.second, h.first, h.base.symm, h.len.symm, h.macs.symm, h.slot₂, h.slot₁, h.overlap.2,
    h.overlap.1⟩

variable {oom : Bool}

theorem Contest.handles (h : Contest c₁ c₂ r₁ r₂ low₁ high₁ low₂ high₂) {p : Packet}
    (hp : c₁.About low₂ high₂ p) (hin : c₁.HandlesInTime (packMaap p) oom) :
    ∃ c₁', c₁.handlePacket (packMaap p) oom = .ok c₁' ∧ c₁'.Sound ∧ ∃ d n c₃,
      c₁.Stage r₁ low₁ high₁ d ∧ n ∈ d.ranges.nodes ∧ n.data = some r₁ ∧
      d.resolve p oom n r₁ = .ok c₃ ∧ c₃.Spares r₁ c₁' := by
  obtain ⟨c₁', hok, hsound, hstage⟩ := Client.handlePacket_stage h.first.sound h.first.tidy
    h.first.unflagged hp.unpack hp.valid hin
  have hle : low₂ ≤ high₂ := h.second.tidy.order.low_le_high _ h.slot₂
  have hinside : high₂ < c₂.rangeLen.toNat := h.second.tidy.inside _ h.slot₂
  rw [h.len] at hinside
  exact ⟨c₁', hok, hsound, hstage r₁ low₁ high₁ h.slot₁
    (h.first.hit hp hinside hle h.slot₁ h.overlap)⟩

theorem Contest.compare (h : Contest c₁ c₂ r₁ r₂ low₁ high₁ low₂ high₂) :
    compareMacAddresses c₂.srcMac c₁.srcMac = !compareMacAddresses c₁.srcMac c₂.srcMac :=
  compareMacAddresses_swap h.first.srcMac h.second.srcMac h.macs

def defence (c₁ : Client σ) (c₂ : Client τ) (low₁ high₁ r₂ : Nat) : Packet :=
  defendPacket c₁.addressBase c₁.destMac c₁.srcMac low₁ high₁
    (c₂.rangePacket maapProbe (c₂.node r₂)).requestedStartAddress
    (c₂.rangePacket maapProbe (c₂.node r₂)).requestedCount c₂.srcMac

end

theorem Client.Initial.station [BEq σ] {c : Client σ} (h : c.Initial) {ops : List (Op σ)}
    (hsteps : Along Client.perform Client.PoolStep c ops)
    (hrun : Fallible.run Client.perform c ops = .ok c') (hsrc : c'.srcMac < 2 ^ 48)
    (hdest : c'.destMac < 2 ^ 48)
    (hpool : c'.addressBase.toNat + c'.rangeLen.toNat ≤ 2 ^ 48) : c'.Station := by
  have hinv : c'.Sound ∧ c'.ledger.Tidy ∧ c'.ledger.Unflagged := by
    refine run_invariant (P := fun c => c.Sound ∧ c.ledger.Tidy ∧ c.ledger.Unflagged) ?_
      ⟨h.sound, h.tidy, h.unflagged⟩ hsteps hrun
    rintro d op d' hstep ⟨hsound, htidy, hunflagged⟩ hok
    obtain ⟨hsound', hfollows⟩ := perform_spec hsound hok
    exact ⟨hsound', hfollows.tidy htidy hsound.held hstep,
      unflagged_perform hsound hunflagged hok⟩
  exact ⟨hinv.1, hinv.2.1, hinv.2.2, hsrc, hdest, hpool⟩

end Avb4Linux.Maap
