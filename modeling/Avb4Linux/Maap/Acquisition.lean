import Avb4Linux.Maap.Probing

/-!
# Acquisition

When a range is reported acquired, its probes have been queued and no packet that it loses to has
been handled since it got the interval.
-/

namespace Avb4Linux.Maap

open Lib Lib.Fallible List

variable {σ : Type} {v v' : Ledger σ} {r low high : Nat}

variable {c c' : Client σ}

theorem Packet.Meets.place {p : Packet} {base : UInt64} (h : p.Meets base low high)
    (hle : low ≤ high) (hhigh : high < 2 ^ 32) :
    ∃ k, low ≤ k ∧ k ≤ high ∧ p.requestedStartAddress ≤ addressOf base k ∧
      addressOf base k < p.requestedStartAddress + p.requestedCount := by
  obtain ⟨k, hk, hstart, hend⟩ := h
  grind [countOf]

theorem Client.hits_of_meets (h : c.Sound) (hl : c.ledger.Laid) {p : Packet}
    (hp : p.requestedStartAddress < 2 ^ 48) (hslot : ⟨low, high, some r⟩ ∈ c.slots)
    (hmeets : p.Meets c.addressBase low high)
    (hstart : c.addressBase.toNat ≤ p.requestedStartAddress)
    (hend : p.requestedStartAddress + p.requestedCount ≤ c.addressBase.toNat + 2 ^ 32) :
    r ∈ c.hits p := by
  have hlen := c.rangeLen.toNat_lt
  have hinside : high < c.rangeLen.toNat := hl.inside _ hslot
  have hle : low ≤ high := hl.order.low_le_high _ hslot
  obtain ⟨k, hlow, hhigh, hfrom, hto⟩ := hmeets.place hle (by omega)
  have haddress : addressOf c.addressBase k = c.addressBase.toNat + k := by
    unfold addressOf
    omega
  rw [haddress] at hfrom hto
  have hin : p.outside c.addressBase c.rangeLen = false := by
    unfold Packet.outside
    grind
  have hoffset : p.offset c.addressBase = p.requestedStartAddress - c.addressBase.toNat := by
    unfold Packet.offset
    omega
  have hlast : p.last c.addressBase =
      p.requestedStartAddress + p.requestedCount - 1 - c.addressBase.toNat := by
    unfold Packet.last intervalEnd
    rw [hoffset]
    omega
  have hordered : Ordered c.ranges.nodes := ordered_iff_inOrder.mpr hl.order
  have hnodes := Tree.takeWhile_nodesFrom (p.offset c.addressBase) p.requestedCount hordered
    h.linked.addrs
  obtain ⟨n, hn, heq⟩ := mem_slots.mp hslot
  have hnlow : n.low = low := congrArg Slot.low heq
  have hnhigh : n.high = high := congrArg Slot.high heq
  unfold hits
  rw [hin]
  refine mem_filterMap.mpr ⟨n, ?_, congrArg Slot.owner heq⟩
  unfold overlapping Packet.last
  rw [hnodes]
  refine mem_filter.mpr ⟨hn, ?_⟩
  rw [Node.overlaps_iff]
  have hlast' : intervalEnd (p.offset c.addressBase) p.requestedCount = _ := hlast
  rw [hlast', hoffset, hnlow, hnhigh]
  omega

theorem InOrder.disjoint {l : List Slot} (h : InOrder l) {s t : Slot} (hs : s ∈ l) (ht : t ∈ l)
    (hne : s ≠ t) : s.high < t.low ∨ t.high < s.low := by
  obtain ⟨hpairs, -⟩ := h
  induction l with
  | nil => cases hs
  | cons a l ih =>
    obtain ⟨hfirst, hrest⟩ := pairwise_cons.mp hpairs
    grind

theorem Client.yieldPacket_misses (h : c.Sound) (hl : c.ledger.Laid) {a low' high' : Nat}
    (hslot : ⟨low, high, some r⟩ ∈ c.slots) (hother : ⟨low', high', some a⟩ ∈ c.slots)
    (hne : a ≠ r) :
    ¬(unpackMaap (packMaap (c.yieldPacket (c.node r)))).Meets c.addressBase low' high' := by
  intro hmeets
  have hlen := c.rangeLen.toNat_lt
  have hbase := c.addressBase.toNat_lt
  have hinside : high < c.rangeLen.toNat := hl.inside _ hslot
  have hle : low ≤ high := hl.order.low_le_high _ hslot
  have hsize : high - low + 1 ≤ 0xFFFF := hl.size _ hslot
  have hinside' : high' < c.rangeLen.toNat := hl.inside _ hother
  have hle' : low' ≤ high' := hl.order.low_le_high _ hother
  have hdisjoint := hl.order.disjoint hslot hother fun heq => hne (by cases heq; rfl)
  obtain ⟨k, hlow, hhigh, hfrom, hto⟩ := hmeets.place hle' (by omega)
  obtain ⟨hnlow, hnhigh⟩ := h.linked.node_slot hslot
  have hcount : countOf low high % 2 ^ 16 = high - low + 1 := countOf_eq hle hsize
  have hstart : (c.yieldPacket (c.node r)).requestedStartAddress = addressOf c.addressBase low := by
    rw [← hnlow]
    rfl
  have hcount' : (c.yieldPacket (c.node r)).requestedCount = high - low + 1 := by
    rw [← hcount, ← hnlow, ← hnhigh]
    rfl
  grind [unpackMaap_start, unpackMaap_count, addressOf]

/-- A packet that takes the interval of a probing range away starts in the pool and does not
run over the end of the 32-bit offsets. -/
def Client.Admits (c : Client σ) (p : Packet) : Prop :=
  ∀ r low high, ⟨low, high, some r⟩ ∈ c.slots → (c.mem r).state = .PROBING →
    p.Meets c.addressBase low high → p.Beats c.srcMac →
    c.addressBase.toNat ≤ p.requestedStartAddress ∧
      p.requestedStartAddress + p.requestedCount ≤ c.addressBase.toNat + 2 ^ 32

/-- What an operation has to be like: a reservation asks for at least one address and does not
run over the end of the address space unless the pool does, and packets are as above. -/
def Client.ProbeStep (c : Client σ) : Op σ → Prop
  | .reserve _ base length _ => c.initialized = true → 1 ≤ length.toNat ∧
      (base.toNat + length.toNat ≤ 2 ^ 64 ∨ 2 ^ 64 < c.addressBase.toNat + c.rangeLen.toNat)
  | .packet stream _ => (unpackMaap stream).valid = true → c.Admits (unpackMaap stream)
  | _ => True

theorem Client.reserve_laid (h : c.Sound) (hl : c.ledger.Laid) {sender : σ} {base : UInt64}
    {length : UInt32} {oom : Bool} (hstep : c.ProbeStep (.reserve sender base length oom))
    (hok : c.reserve sender base length oom = .ok c') : c'.ledger.Laid := by
  by_cases hlate : c.Late base.toNat length.toNat
  · -- the interval that is left behind is a right one
    obtain ⟨-, note, rfl, -⟩ | ⟨c₁, found, hsearch, hassign, rfl⟩ := reserve_cases hok
    · exact hl
    · obtain ⟨rfl, -⟩ := assignInterval_late (c := c.prepared sender) hsearch.fits
        ((c.late_prepared sender).mpr hlate) hassign
      obtain ⟨hpositive, hwraps⟩ := hstep hsearch.initialized
      obtain ⟨hfound, -⟩ | ⟨-, k, rfl⟩ | ⟨-, -, iv, t, hiv, hins, rfl⟩ :=
        assignInterval_cases hassign
      · cases hfound
      · exact hl.congr rfl rfl
      · have hfits : length.toNat ≤ c.rangeLen.toNat := hsearch.fits
        have hsmall := hsearch.small
        obtain ⟨hspot, hhigh⟩ := hiv.placement.spot hpositive hfits base.toNat_lt hwraps
        have hspot' : iv.low + length.toNat ≤ c.rangeLen.toNat := hspot
        have hlaid := hl.insert (slots_inserted hiv hins 1000) (by omega)
          (show iv.high < c.rangeLen.toNat by omega) (by omega)
        exact Ledger.Laid.congr hlaid rfl rfl
  · obtain ⟨-, ⟨-, hsame⟩ | ⟨hinit, hreserve⟩⟩ := reserve_spec h hok
    · rw [hsame]
      exact hl
    · obtain ⟨hpositive, hwraps⟩ := hstep hinit
      exact hreserve.laid hl base.toNat_lt ⟨hpositive, hwraps, hlate⟩

theorem Client.laid_perform [BEq σ] {op : Op σ} (h : c.Sound) (hl : c.ledger.Laid)
    (hstep : c.ProbeStep op) (hok : c.perform op = .ok c') : c'.ledger.Laid := by
  refine Ledger.kept_laid.follows h.held hl (perform_spec h hok).2 ?_ ?_
  · intro base len
    exact ⟨⟨.nil, by simp⟩, by simp, by simp⟩
  · rintro sender base length oom rfl - -
    exact reserve_laid h hl hstep hok

theorem Client.Receives.fair {stream : List UInt8} (h : c.Sound) (hl : c.ledger.Laid)
    (hf : c.ledger.Fair)
    (hadmits : (unpackMaap stream).valid = true → c.Admits (unpackMaap stream))
    (hr : c.Receives stream v') : v'.Fair := by
  rcases hr with rfl | ⟨hvalid, hhandled⟩
  · exact hf
  · refine hhandled.fair h.held hf ?_
    intro a low high hslot hprobing hmeets hbeats
    obtain ⟨hstart, hend⟩ := hadmits hvalid a low high hslot hprobing hmeets hbeats
    exact hits_of_meets h hl (fieldAt_lt 26 6 stream) hslot hmeets hstart hend

theorem Timed.fair_steps (hh : v.Held) (h : v.Fair) (hs : Relation.ReflTransGen Timed v v') :
    v'.Held ∧ v'.Fair := by
  refine ⟨Inner.held_of_steps hh (inner_steps hs), unflagged_steps h.unflagged hs, ?_⟩
  induction hs with
  | refl => exact h.probing
  | tail hprev ht ih => exact ht.probing (Inner.held_of_steps hh (inner_steps hprev)) ih

theorem Client.fair_perform [BEq σ] {op : Op σ} (h : c.Sound) (hl : c.ledger.Laid)
    (hf : c.ledger.Fair) (hstep : c.ProbeStep op) (hok : c.perform op = .ok c') :
    c'.ledger.Fair := by
  refine ⟨unflagged_perform h hf.unflagged hok, ?_⟩
  have hfollows := (perform_spec h hok).2
  generalize hv : c'.ledger = v' at hfollows ⊢
  cases op with
  | init sender base len =>
    rcases hfollows with rfl | ⟨-, rfl⟩
    · exact hf.probing
    · intro a low high hslot
      cases hslot
  | reserve sender base length oom =>
    rcases hfollows with ⟨-, rfl⟩ | ⟨-, hreserve⟩
    · exact hf.probing
    · exact hreserve.probing h.held hf.probing
  | release sender id =>
    rcases hfollows with rfl | ⟨r, hdrop⟩
    · exact hf.probing
    · exact hdrop.probing h.held hf.probing fun _ _ _ hq => hq
  | status sender id =>
    cases hfollows
    exact hf.probing
  | yield sender id oom =>
    rcases hfollows with rfl | ⟨r, hr, hdefending, hreceives⟩
    · exact hf.probing
    · have howner : r ∈ owners c.slots := (h.held.owned r).mpr ⟨hr, by
        have hstate : (c.ledger.core r).state = .DEFENDING := hdefending
        rw [hstate]
        decide⟩
      obtain ⟨⟨low, high, o⟩, hslot, ho⟩ := mem_owners.mp howner
      cases ho
      refine (hreceives.fair h hl hf ?_).probing
      intro _ a low' high' hother hprobing hmeets
      grind [yieldPacket_misses]
  | packet stream oom => exact (Client.Receives.fair h hl hf hstep hfollows).probing
  | timer =>
    have htimer : c.handleTimer = c' := Except.ok.inj hok
    obtain ⟨-, hsteps⟩ := handleTimer_spec h
    rw [htimer, hv] at hsteps
    exact (Timed.fair_steps h.held hf hsteps).2.probing

/-- What the past of a range has to be when it is acquired: its current interval was the last
that was assigned to it, its probes for this interval have been queued since, and no packet
that it loses to has been handled since. -/
def Ledger.Earned (v : Ledger σ) (r : Nat) (past : List Event) : Prop :=
  ∃ low high before since, ⟨low, high, some r⟩ ∈ v.slots ∧
    past = before ++ Event.assigned r low high :: since ∧
    v.Since (fun _ => False) r low high 0 since

theorem split_grown {α : Type} {l w before after : List α} {x : α}
    (h : l ++ w = before ++ x :: after) :
    (∃ rest, l = before ++ x :: rest) ∨ ∃ first, before = l ++ first ∧ w = first ++ x :: after := by
  rcases append_eq_append_iff.mp h with ⟨first, hbefore, hw⟩ | ⟨rest, hl, hrest⟩
  · exact .inr ⟨first, hbefore, hw⟩
  · cases rest with
    | nil =>
      grind
    | cons y rest =>
      cases hrest
      exact .inl ⟨rest, hl⟩

theorem Timed.cases_log (h : v.Fair) (ht : Timed v v') :
    v'.slots = v.slots ∧ ∃ e, v.Grown v' e ∧
      (∀ a, (v'.core a).state = .DEFENDING → (v.core a).state = .DEFENDING ∨ .acquired a ∈ e) ∧
      ∀ a first after, e = first ++ Event.acquired a :: after → first = [] ∧ v.Earned a v.log := by
  have hcore : ∀ (a r k : Nat), ((v.setCore r fun x => { x with counter := k }).core a).state =
      (v.core a).state := by
    grind [Ledger.setCore_self, Ledger.setCore_of_ne]
  have hother : ∀ (x : Event) (a : Nat) (first after : List Event), (∀ b, x ≠ .acquired b) →
      [x] = first ++ Event.acquired a :: after → first = [] ∧ v.Earned a v.log := by
    intro x a first after hx heq
    have hmem : Event.acquired a ∈ [x] := by rw [heq]; simp
    exact absurd (mem_singleton.mp hmem).symm (hx a)
  cases ht with
  | queue p =>
    exact ⟨rfl, _, ⟨rfl, rfl, rfl, rfl⟩, fun a ha => .inl ha,
      fun a first after heq => hother _ a first after (fun b => by simp) heq⟩
  | free released =>
    refine ⟨rfl, [], ⟨rfl, rfl, rfl, (append_nil _).symm⟩, fun a ha => .inl ha, ?_⟩
    intro a first after heq
    simp at heq
  | @tick r low high k slot probing counter =>
    refine ⟨rfl, _, ⟨rfl, rfl, rfl, rfl⟩, ?_,
      fun a first after heq => hother _ a first after (fun b => by simp) heq⟩
    intro a ha
    exact .inl ((hcore a r k).symm.trans ha)
  | @acquire r owned probing counter =>
    refine ⟨rfl, _, ⟨rfl, rfl, rfl, rfl⟩, ?_, ?_⟩
    · grind [Ledger.setCore_of_ne]
    · intro a first after heq
      have hfirst : first = [] := by
        cases first with
        | nil => rfl
        | cons y first => simp at heq
      subst hfirst
      cases heq
      obtain ⟨⟨low, high, o⟩, hslot, ho⟩ := mem_owners.mp owned
      cases ho
      obtain ⟨before, since, hlog, hsince⟩ := h.probing r low high hslot probing
      rw [counter] at hsince
      exact ⟨rfl, low, high, before, since, hslot, hlog, hsince⟩

theorem Ledger.Earned.congr {past : List Event} {e : List Event} (hslots : v'.slots = v.slots)
    (hg : v.Grown v' e) (h : v'.Earned r past) : v.Earned r past := by
  obtain ⟨low, high, before, since, hslot, hpast, hsince⟩ := h
  refine ⟨low, high, before, since, hslots ▸ hslot, hpast, hsince.assigned, ?_, ?_⟩
  · rw [← hg.probe]
    exact hsince.probes
  · rw [← hg.base, ← hg.srcMac]
    exact hsince.handled

theorem Timed.earned_steps (hh : v.Held) (h : v.Fair) (hs : Relation.ReflTransGen Timed v v') :
    v'.slots = v.slots ∧ ∃ e, v.Grown v' e ∧
      (∀ a, (v'.core a).state = .DEFENDING → (v.core a).state = .DEFENDING ∨ .acquired a ∈ e) ∧
      ∀ a first after, e = first ++ Event.acquired a :: after → v.Earned a (v.log ++ first) := by
  induction hs with
  | refl =>
    refine ⟨rfl, [], ⟨rfl, rfl, rfl, (append_nil _).symm⟩, fun a ha => .inl ha, ?_⟩
    intro a first after heq
    simp at heq
  | @tail v₁ v₂ hprev ht ih =>
    obtain ⟨hslots, e, hg, hdefending, hearned⟩ := ih
    obtain ⟨hslots', e', hg', hdefending', hearned'⟩ :=
      ht.cases_log (fair_steps hh h hprev).2
    have hgrown : v.Grown v₂ (e ++ e') := by
      refine ⟨hg'.base.trans hg.base, hg'.srcMac.trans hg.srcMac, hg'.destMac.trans hg.destMac, ?_⟩
      rw [hg'.log, hg.log, append_assoc]
    refine ⟨hslots'.trans hslots, e ++ e', hgrown, ?_, ?_⟩
    · intro a ha
      rcases hdefending' a ha with ha | ha
      · rcases hdefending a ha with ha | ha
        · exact .inl ha
        · exact .inr (mem_append_left _ ha)
      · exact .inr (mem_append_right _ ha)
    · intro a first after heq
      rcases split_grown heq with ⟨rest, hrest⟩ | ⟨first', rfl, hrest⟩
      · exact hearned a first rest hrest
      · obtain ⟨rfl, hlast⟩ := hearned' a first' after hrest
        rw [hg.log] at hlast
        rw [append_nil]
        exact hlast.congr hslots hg

structure Ledger.Quiet (v v' : Ledger σ) : Prop where
  log : ∃ e, v'.log = v.log ++ e ∧ ∀ a, Event.acquired a ∉ e
  defending : ∀ a ∈ v'.members, (v'.core a).state = .DEFENDING →
    a ∈ v.members ∧ (v.core a).state = .DEFENDING

theorem Ledger.Quiet.refl (v : Ledger σ) : v.Quiet v :=
  ⟨⟨[], (List.append_nil _).symm, by simp⟩, fun _ ha hstate => ⟨ha, hstate⟩⟩

theorem Ledger.Quiet.trans {v₁ : Ledger σ} (h : v.Quiet v₁) (h' : v₁.Quiet v') : v.Quiet v' := by
  obtain ⟨⟨e, hlog, he⟩, hdefending⟩ := h
  obtain ⟨⟨e', hlog', he'⟩, hdefending'⟩ := h'
  refine ⟨⟨e ++ e', by rw [hlog', hlog, append_assoc], ?_⟩, ?_⟩
  all_goals grind

theorem Ledger.Quiet.setCore {f : Core σ → Core σ} (h : v.Quiet v')
    (hf : (f (v'.core r)).state = .DEFENDING → (v'.core r).state = .DEFENDING) :
    v.Quiet (v'.setCore r f) := by
  refine ⟨h.log, fun a ha hstate => h.defending a ha ?_⟩
  grind [setCore_self, setCore_of_ne]

theorem Ledger.Held.quiet_new (hh : v.Held) {x : Core σ} {e : List Event}
    (hlog : v'.log = v.log ++ e) (he : ∀ a, Event.acquired a ∉ e)
    (hcore : v'.core = Function.update v.core v.fresh x)
    (hmembers : v'.members = v.members ∨
      v'.members = insert v.fresh v.members ∧ x.state = .PROBING) : v.Quiet v' := by
  refine ⟨⟨e, hlog, he⟩, fun a ha hstate => ?_⟩
  rw [hcore] at hstate
  grind [Function.update_self, not_mem_fresh]

theorem Drop.quiet (hd : Drop r v v') : v.Quiet v' := by
  obtain ⟨-⟩ := hd
  refine Ledger.Quiet.setCore ⟨⟨[], (append_nil _).symm, by simp⟩,
    fun a ha hstate => ⟨ha, hstate⟩⟩ ?_
  intro hstate
  cases hstate

theorem Move.quiet (hm : Move r v v') : v.Quiet v' := by
  obtain ⟨-, -, -, -, -, -⟩ := hm
  refine Ledger.Quiet.setCore ⟨⟨_, rfl, by simp⟩, fun a ha hstate => ⟨ha, hstate⟩⟩ ?_
  exact fun hstate => hstate

theorem Replace.quiet (hh : v.Held) (hr : Replace r v v') : v.Quiet v' := by
  obtain ⟨-, -, -, -, -⟩ := hr
  refine Ledger.Quiet.setCore (hh.quiet_new rfl (by simp) rfl (.inr ⟨rfl, rfl⟩)) ?_
  intro hstate
  cases hstate

theorem Resolves.quiet {p : Packet} (hh : v.Held) (hr : Resolves p r v v') : v.Quiet v' := by
  cases hr with
  | ignore => exact .refl v
  | move loses hm => exact hm.quiet
  | giveUp probing loses hd => exact hd.quiet
  | defend => exact ⟨⟨_, rfl, by simp⟩, fun a ha hstate => ⟨ha, hstate⟩⟩
  | replace defending claim loses hrep => exact hrep.quiet hh
  | quit defending claim loses same hd =>
    rcases same with rfl | ⟨x, rfl⟩
    · exact hd.quiet
    · have hwaste : v.Quiet { v with
          core := Function.update v.core v.fresh x, fresh := v.fresh + 1 } :=
        hh.quiet_new (append_nil _).symm (by simp) rfl (.inl rfl)
      exact hwaste.trans hd.quiet

theorem ResolvedAll.quiet {p : Packet} {rs : List Nat} (hh : v.Held) (hr : ResolvedAll p rs v v') :
    v.Quiet v' := by
  induction hr with
  | nil => exact .refl _
  | @cons v _ _ r _ marked owned hres rest ih =>
    have hcleared : (v.flag r false).Held := hh.setCore Iff.rfl
    have hflag : v.Quiet (v.flag r false) := (Ledger.Quiet.refl v).setCore fun hstate => hstate
    exact (hflag.trans (hres.quiet hcleared)).trans (ih (hres.held hcleared))

theorem Ledger.quiet_flagAll (l : List Nat) (v : Ledger σ) : v.Quiet (v.flagAll l) := by
  induction l generalizing v with
  | nil => exact .refl v
  | cons r l ih =>
    have hflag : v.Quiet (v.flag r true) := (Ledger.Quiet.refl v).setCore fun hstate => hstate
    exact hflag.trans (ih (v.flag r true))

theorem Handled.quiet {p : Packet} {l : List Nat} (hh : v.Held) (hp : Handled p l v v') :
    v.Quiet v' := by
  obtain ⟨rs, -, hall⟩ := hp
  have hlogged : v.Quiet { v with log := v.log ++ [Event.handled p] } :=
    ⟨⟨_, rfl, by simp⟩, fun a ha hstate => ⟨ha, hstate⟩⟩
  exact (hlogged.trans (Ledger.quiet_flagAll l _)).trans (hall.quiet ((hh.log _).flagAll l))

theorem Reserve.quiet {sender : σ} {attemptBase n : Nat} {late : Prop} (hh : v.Held)
    (hr : Reserve sender attemptBase n late v v') : v.Quiet v' := by
  cases hr with
  | refused => exact .refl v
  | failed x => exact hh.quiet_new (append_nil _).symm (by simp) rfl (.inl rfl)
  | orphan x isLate inserted =>
    exact hh.quiet_new (append_nil _).symm (by simp) rfl (.inl rfl)
  | placed small fits inserted placement =>
    exact hh.quiet_new rfl (by simp) rfl (.inr ⟨rfl, rfl⟩)

theorem Client.Receives.quiet {stream : List UInt8} (h : c.Sound) (hr : c.Receives stream v') :
    c.ledger.Quiet v' := by
  rcases hr with rfl | ⟨-, hhandled⟩
  · exact .refl _
  · exact hhandled.quiet h.held

theorem Client.perform_earned [BEq σ] {op : Op σ} (h : c.Sound) (hf : c.ledger.Fair)
    (hok : c.perform op = .ok c') :
    (∃ e, c'.log = c.log ++ e ∧
      (∀ r ∈ c'.queue, (c'.mem r).state = .DEFENDING →
        (c.mem r).state = .DEFENDING ∨ .acquired r ∈ e) ∧
      ∀ r first after, e = first ++ Event.acquired r :: after →
        c.ledger.Earned r (c.log ++ first)) := by
  have hquiet : c.ledger.Quiet c'.ledger → ∃ e, c'.log = c.log ++ e ∧
      (∀ r ∈ c'.queue, (c'.mem r).state = .DEFENDING →
        (c.mem r).state = .DEFENDING ∨ .acquired r ∈ e) ∧
      ∀ r first after, e = first ++ Event.acquired r :: after →
        c.ledger.Earned r (c.log ++ first) := by
    rintro ⟨⟨e, hlog, he⟩, hdefending⟩
    refine ⟨e, hlog, fun r hr hstate => .inl (hdefending r hr hstate).2, ?_⟩
    grind
  have hfollows := (perform_spec h hok).2
  cases op with
  | init sender base len =>
    refine hquiet ?_
    rcases hfollows with hsame | ⟨-, hnew⟩
    · rw [hsame]
      exact .refl _
    · rw [hnew]
      exact ⟨⟨[], (append_nil _).symm, by simp⟩, fun a ha => ha.elim⟩
  | reserve sender base length oom =>
    refine hquiet ?_
    rcases hfollows with ⟨-, hsame⟩ | ⟨-, hreserve⟩
    · rw [hsame]
      exact .refl _
    · exact hreserve.quiet h.held
  | release sender id =>
    refine hquiet ?_
    rcases hfollows with hsame | ⟨r, hdrop⟩
    · rw [hsame]
      exact .refl _
    · exact hdrop.quiet
  | status sender id =>
    refine hquiet ?_
    have hsame : c'.ledger = c.ledger := hfollows
    rw [hsame]
    exact .refl _
  | yield sender id oom =>
    refine hquiet ?_
    rcases hfollows with hsame | ⟨r, -, -, hreceives⟩
    · rw [hsame]
      exact .refl _
    · exact hreceives.quiet h
  | packet stream oom => exact hquiet (Client.Receives.quiet h hfollows)
  | timer =>
    have htimer : c.handleTimer = c' := Except.ok.inj hok
    obtain ⟨-, hsteps⟩ := handleTimer_spec h
    rw [htimer] at hsteps
    obtain ⟨-, e, hg, hdefending, hearned⟩ := Timed.earned_steps h.held hf hsteps
    exact ⟨e, hg.log, fun r _ hstate => hdefending r hstate, hearned⟩

theorem Client.Initial.fair (h : c.Initial) : c.ledger.Fair := by
  refine ⟨h.unflagged, ?_⟩
  intro a low high hslot
  rw [h.slots] at hslot
  cases hslot

theorem Client.acquired_right [BEq σ] {c₁ c₂ : Client σ} (h : c.Initial) {ops : List (Op σ)}
    (hsteps : Along Client.perform Client.ProbeStep c ops)
    (hrun : Fallible.run Client.perform c ops = .ok c₁) {op : Op σ}
    (hok : c₁.perform op = .ok c₂) :
    (∃ e, c₂.log = c₁.log ++ e ∧
      (∀ r ∈ c₂.queue, (c₂.mem r).state = .DEFENDING →
        (c₁.mem r).state = .DEFENDING ∨ .acquired r ∈ e) ∧
      ∀ r first after, e = first ++ Event.acquired r :: after →
        c₁.ledger.Earned r (c₁.log ++ first)) := by
  have hinv : c₁.Sound ∧ c₁.ledger.Laid ∧ c₁.ledger.Fair := by
    refine run_invariant (P := fun c => c.Sound ∧ c.ledger.Laid ∧ c.ledger.Fair) ?_
      ⟨h.sound, h.tidy.laid, h.fair⟩ hsteps hrun
    rintro d op d' hstep ⟨hsound, hlaid, hfair⟩ hperform
    exact ⟨(perform_spec hsound hperform).1,
      laid_perform hsound hlaid hstep hperform,
      fair_perform hsound hlaid hfair hstep hperform⟩
  exact perform_earned hinv.1 hinv.2.2 hok

def probedThrice : List (Op Nat) :=
  [.init 5 0x91E0F0000000 65024, .reserve 5 0x91E0F0000000 2 false, .timer, .timer, .timer]

theorem probedThrice_fine :
    Along Client.perform Client.ProbeStep (quietClient 7 0) probedThrice :=
  ⟨trivial, fun _ _ => ⟨fun _ => ⟨by decide, .inl (by decide)⟩, fun _ _ => ⟨trivial, fun _ _ =>
    ⟨trivial, fun _ _ => ⟨trivial, fun _ _ => trivial⟩⟩⟩⟩⟩

theorem acquired_right_probedThrice :
    ∃ c₁ c₂, Fallible.run Client.perform (quietClient 7 0) probedThrice = .ok c₁ ∧
      c₁.perform .timer = .ok c₂ ∧ (c₂.mem 0).state = .DEFENDING ∧
      c₁.ledger.Earned 0 c₁.log := by
  obtain ⟨c₁, hrun, hc₁⟩ := exists_of_okAnd (x := Fallible.run Client.perform (quietClient 7 0)
    probedThrice) (p := fun c₁ => okAnd (c₁.perform .timer) fun c₂ =>
      (c₂.mem 0).state = .DEFENDING ∧
      c₂.log = c₁.log ++ [.acquired 0, .queued (c₁.rangePacket maapAnnounce (c₁.node 0))])
    (by decide +kernel)
  obtain ⟨c₂, hok, hc₂⟩ := exists_of_okAnd hc₁
  simp only [decide_eq_true_eq] at hc₂
  obtain ⟨e, hlog, -, hearned⟩ :=
    Client.acquired_right (quietClient_initial 7 0) probedThrice_fine hrun hok
  have he := append_cancel_left (hlog.symm.trans hc₂.2)
  have hpast := hearned 0 [] _ he
  rw [append_nil] at hpast
  exact ⟨c₁, c₂, hrun, hok, hc₂.1, hpast⟩

def belowPool : Packet :=
  { initPacket 7 9 with
    messageType := maapDefend
    requestedStartAddress := 0x91E0EFFFFFFF
    requestedCount := 3 }

def probedUnheard : List (Op Nat) :=
  [.init 5 0x91E0F0000000 65024, .reserve 5 0x91E0F0000000 2 false,
    .packet (packMaap belowPool) false, .timer, .timer, .timer]

theorem belowPool_meets : (unpackMaap (packMaap belowPool)).Meets 0x91E0F0000000 0 1 ∧
    (unpackMaap (packMaap belowPool)).Beats 7 := by
  refine ⟨⟨0, by decide, by decide, by decide⟩, ?_⟩
  unfold Packet.Beats
  decide

theorem belowPool_unnoticed :
    ∃ c₁ c₂, Fallible.run Client.perform (quietClient 7 0) probedUnheard = .ok c₁ ∧
      c₁.perform .timer = .ok c₂ ∧ (c₁.mem 0).state = .PROBING ∧
      (c₂.mem 0).state = .DEFENDING ∧
      c₂.log = c₁.log ++ [.acquired 0, .queued (c₁.rangePacket maapAnnounce (c₁.node 0))] ∧
      ¬c₁.ledger.Earned 0 c₁.log := by
  obtain ⟨c₁, hrun, hc₁⟩ := exists_of_okAnd (x := Fallible.run Client.perform (quietClient 7 0)
    probedUnheard) (p := fun c₁ => okAnd (c₁.perform .timer) fun c₂ =>
      (c₁.mem 0).state = .PROBING ∧ (c₂.mem 0).state = .DEFENDING ∧
      c₂.log = c₁.log ++ [.acquired 0, .queued (c₁.rangePacket maapAnnounce (c₁.node 0))] ∧
      c₁.addressBase = 0x91E0F0000000 ∧ c₁.srcMac = 7 ∧
      ∃ q ∈ [c₁.rangePacket maapProbe (c₁.node 0)],
      c₁.log = [.assigned 0 0 1, .queued q, .handled (unpackMaap (packMaap belowPool)), .queued q,
        .queued q, .queued q])
    (by decide +kernel)
  obtain ⟨c₂, hok, hc₂⟩ := exists_of_okAnd hc₁
  simp only [decide_eq_true_eq] at hc₂
  obtain ⟨hprobing, hdefending, hlog, hbase, hmac, q, -, hpast⟩ := hc₂
  refine ⟨c₁, c₂, hrun, hok, hprobing, hdefending, hlog, ?_⟩
  rintro ⟨low, high, before, since, -, hsplit, hsince⟩
  rw [hpast] at hsplit
  cases before with
  | nil =>
    cases hsplit
    refine hsince.handled (unpackMaap (packMaap belowPool)) (by simp) ?_ ?_
    · have hmeets := belowPool_meets.1
      rw [← hbase] at hmeets
      exact hmeets
    · have hbeats := belowPool_meets.2
      rw [← hmac] at hbeats
      exact hbeats
  | cons x before =>
    -- the interval was assigned once
    have hmem : Event.assigned 0 low high ∈ before ++ Event.assigned 0 low high :: since := by simp
    have htail : before ++ Event.assigned 0 low high :: since = _ := (List.cons.inj hsplit).2.symm
    rw [htail] at hmem
    simp at hmem

end Avb4Linux.Maap
