import Avb4Linux.Maap.Refinement

/-!
# Packets and timers

`maap_handle_packet` and `maap_handle_timer`, one conflict and one due range after the other.
-/

namespace Avb4Linux.Maap

open Lib Lib.Fallible List

variable {σ : Type} {c c' : Client σ} {r : Nat}

theorem Client.Sound.owner_of_node (h : c.Sound) {n : Node} (hn : n ∈ c.ranges.nodes)
    (hdata : n.data = some r) :
    ⟨n.low, n.high, some r⟩ ∈ c.slots ∧ r ∈ c.queue ∧ (c.mem r).state ≠ .RELEASED := by
  have hslot : n.slot = ⟨n.low, n.high, some r⟩ := by rw [Node.slot, hdata]
  have hmem : n.slot ∈ c.slots := mem_map_of_mem hn
  have howned := (h.held.owned r).mp (mem_owners.mpr ⟨n.slot, hmem, hdata⟩)
  exact ⟨hslot ▸ hmem, howned⟩

theorem Client.resolve_spec (h : c.Sound) {p : Packet} {oom : Bool} {n : Node}
    (hn : n ∈ c.ranges.nodes) (hdata : n.data = some r) (hok : c.resolve p oom n r = .ok c') :
    c'.Sound ∧ Resolves p r c.ledger c'.ledger := by
  obtain ⟨hslot, -, hlive⟩ := h.owner_of_node hn hdata
  have hres : c'.Wired ∧ Resolves p r c.ledger c'.ledger := by
    unfold Client.resolve at hok
    cases hstate : (c.mem r).state with
    | PROBING =>
      rw [hstate] at hok
      dsimp only at hok
      split at hok
      · rename_i hwins
        cases hok
        exact ⟨h.toWired, .ignore hwins.2 (iff_of_true hstate hwins.1)⟩
      · rename_i hloses
        obtain ⟨hw, hmove | ⟨hdrop, -⟩⟩ := relocate_spec h hn hdata hstate hok
        · exact ⟨hw, .move hloses hmove⟩
        · exact ⟨hw, .giveUp hstate hloses hdrop⟩
    | DEFENDING =>
      have hdefending : (c.ledger.core r).state = .DEFENDING := hstate
      rw [hstate] at hok
      dsimp only at hok
      split at hok
      · rename_i hprobe
        cases hok
        refine ⟨h.toWired.sendPacket _, ?_⟩
        obtain ⟨hlow, hhigh⟩ := h.linked.node_slot hslot
        have hdefend := Resolves.defend (p := p) (v := c.ledger) hslot hdefending hprobe
        rw [← hlow, ← hhigh] at hdefend
        exact hdefend
      · rename_i hclaim
        split at hok
        · rename_i hwins
          cases hok
          refine ⟨h.toWired, .ignore hwins (iff_of_false ?_ hclaim)⟩
          rw [hdefending]
          decide
        · rename_i hloses
          have hloses' := Bool.eq_false_iff.mpr hloses
          obtain ⟨hw, hreplace | ⟨-, v₁, hv₁, hdrop⟩⟩ := yieldInterval_spec h hn hdata hok
          · exact ⟨hw, .replace hdefending hclaim hloses' hreplace⟩
          · exact ⟨hw, .quit hdefending hclaim hloses' hv₁ hdrop⟩
    | RELEASED => exact absurd hstate hlive
  exact ⟨⟨hres.1, hres.2.held h.held⟩, hres.2⟩

theorem Client.Sound.flag (h : c.Sound) (b : Bool) :
    (c.setRange r fun range => { range with overlapping := b }).Sound ∧
      (c.setRange r fun range => { range with overlapping := b }).ledger = c.ledger.flag r b := by
  have hledger : (c.setRange r fun range => { range with overlapping := b }).ledger =
      c.ledger.flag r b := ledger_setRange fun x => rfl
  refine ⟨⟨h.toWired.setRange fun x => ⟨rfl, rfl⟩, ?_⟩, hledger⟩
  rw [hledger]
  exact h.held.setCore Iff.rfl

theorem findFlagged_spec {mem : Nat → Range σ} {l : List Node} {n : Node}
    (h : findFlagged mem l = .ok (n, r)) :
    n ∈ l ∧ n.data = some r ∧ (mem r).overlapping = true := by
  induction l with
  | nil => cases h
  | cons m l ih =>
    rw [findFlagged] at h
    grind

theorem Tree.nodesFrom_subset {t : Tree} {start count : Nat} {n : Node}
    (h : n ∈ t.nodesFrom start count) : n ∈ t.nodes := by
  unfold Tree.nodesFrom at h
  split at h
  · cases h
  · exact (dropWhile_sublist _).subset h

theorem Client.resolveLoop_spec (h : c.Sound) {p : Packet} {oom : Bool} {start k : Nat}
    (hok : c.resolveLoop p oom start k = .ok c') :
    c'.Sound ∧ ∃ rs, rs.length = k ∧ ResolvedAll p rs c.ledger c'.ledger := by
  induction k generalizing c with
  | zero =>
    cases hok
    exact ⟨h, [], rfl, .nil⟩
  | succ k ih =>
    obtain ⟨⟨n, r⟩, hfind, hok⟩ := bind_eq_ok.mp hok
    obtain ⟨c₁, hres, hok⟩ := bind_eq_ok.mp hok
    obtain ⟨hmem, hdata, hflag⟩ := findFlagged_spec hfind
    have hn := Tree.nodesFrom_subset hmem
    obtain ⟨hslot, -, -⟩ := h.owner_of_node hn hdata
    obtain ⟨hcleared, hledger⟩ := h.flag (r := r) false
    obtain ⟨hsound, hresolves⟩ := resolve_spec hcleared hn hdata hres
    obtain ⟨hsound', rs, hlen, hall⟩ := ih hsound hok
    rw [hledger] at hresolves
    exact ⟨hsound', r :: rs, by rw [length_cons, hlen],
      .cons hflag (mem_owners.mpr ⟨_, hslot, rfl⟩) hresolves hall⟩

theorem flagOverlaps_spec {l : List Node} {mem : Nat → Range σ}
    (h : c.Sound) (hok : flagOverlaps l c.mem = .ok mem) :
    Client.Sound { c with mem := mem } ∧
      Client.ledger { c with mem := mem } = c.ledger.flagAll (l.filterMap Node.data) ∧
      (l.filterMap Node.data).length = l.length := by
  induction l generalizing c with
  | nil =>
    cases hok
    exact ⟨h, rfl, rfl⟩
  | cons n l ih =>
    rw [flagOverlaps] at hok
    cases hdata : n.data with
    | none =>
      rw [hdata] at hok
      cases hok
    | some r =>
      rw [hdata] at hok
      obtain ⟨hflagged, hledger⟩ := h.flag (r := r) true
      obtain ⟨hsound, hall, hlen⟩ := ih hflagged hok
      rw [filterMap_cons, hdata]
      refine ⟨hsound, ?_, by rw [length_cons, length_cons, hlen]⟩
      dsimp only
      rw [Ledger.flagAll, ← hledger]
      exact hall

def Client.hits (c : Client σ) (p : Packet) : List Nat :=
  if p.outside c.addressBase c.rangeLen then [] else (c.overlapping p).filterMap Node.data

theorem Client.handleValid_spec (h : c.Sound) {p : Packet} {oom : Bool}
    (hok : c.handleValid p oom = .ok c') :
    c'.Sound ∧ Handled p (c.hits p) c.ledger c'.ledger := by
  unfold Client.handleValid at hok
  unfold Client.hits
  dsimp only at hok
  have hlogged : Client.Sound { c with log := c.log ++ [.handled p] } :=
    ⟨h.toWired.congr rfl rfl rfl rfl rfl fun _ => ⟨rfl, rfl⟩, h.held.log _⟩
  split at hok
  · rename_i hout
    cases hok
    rw [if_pos hout]
    exact ⟨hlogged, [], rfl, .nil⟩
  · rename_i hout
    rw [if_neg hout]
    obtain ⟨mem, hflag, hok⟩ := bind_eq_ok.mp hok
    obtain ⟨c₁, hloop, hok⟩ := bind_eq_ok.mp hok
    cases hok
    obtain ⟨hflagged, hledger, hlen⟩ := flagOverlaps_spec hlogged hflag
    obtain ⟨hsound, rs, hrs, hall⟩ := resolveLoop_spec hflagged hloop
    refine ⟨⟨hsound.toWired.startTimer, ?_⟩, rs, hrs.trans hlen.symm, ?_⟩
    · rw [ledger_startTimer]
      exact hsound.held
    · rw [ledger_startTimer]
      rw [hledger] at hall
      exact hall

def Client.Receives (c : Client σ) (stream : List UInt8) (v' : Ledger σ) : Prop :=
  v' = c.ledger ∨ (unpackMaap stream).valid = true ∧
    Handled (unpackMaap stream) (c.hits (unpackMaap stream)) c.ledger v'

theorem Client.handlePacket_spec (h : c.Sound) {stream : List UInt8} {oom : Bool}
    (hok : c.handlePacket stream oom = .ok c') : c'.Sound ∧ c.Receives stream c'.ledger := by
  unfold Client.handlePacket at hok
  split at hok
  · cases hok
    exact ⟨h, Or.inl rfl⟩
  · split at hok
    · rename_i hvalid
      obtain ⟨hsound, hhandled⟩ := handleValid_spec h hok
      exact ⟨hsound, Or.inr ⟨hvalid, hhandled⟩⟩
    · cases hok
      exact ⟨h, Or.inl rfl⟩

theorem Client.popTimer_spec (h : c.Wired) (hhead : c.timerQueue = some r) :
    (c.popTimer r).Wired ∧ r ∈ c.ledger.members ∧ r < c.nextRange ∧
      (c.popTimer r).ledger = { c.ledger with members := c.ledger.members \ {r} } := by
  have hchain := h.queued.chain
  rw [hhead] at hchain
  generalize hq : c.queue = q at hchain
  cases hchain with
  | @cons _ rest hrest =>
    have hnodup := (LinkedQueue.Chain.cons hrest).nodup
    have hr : r ∉ rest := (nodup_cons.mp hnodup).1
    have hbelow := h.queued.below
    have hsorted := h.queued.sorted
    rw [hq] at hbelow hsorted
    obtain ⟨hqueued, hqueue⟩ := Client.Queued.of_chain (c := c.popTimer r)
      (hrest.update_of_not_mem hr) (fun a ha => hbelow a (mem_cons_of_mem _ ha))
      (pairwise_cons.mp hsorted).2
    have hmembers : { a | a ∈ (c.popTimer r).queue } = { a | a ∈ c.queue } \ {r} := by
      grind
    refine ⟨⟨hqueued, h.linked.congr rfl (Nat.le_refl _) (Nat.le_refl _) fun _ _ => rfl⟩, ?_,
      hbelow r mem_cons_self, ?_⟩
    · have hmem : r ∈ c.queue := hq ▸ mem_cons_self
      exact hmem
    · exact Ledger.ext rfl rfl rfl rfl rfl hmembers rfl rfl rfl rfl

theorem insert_taken {M : Set Nat} (h : r ∈ M) : insert r (M \ {r}) = M := by
  grind

theorem Client.scheduled_spec (h : c.Wired) (hr : r < c.nextRange) (p : Packet) :
    ((c.scheduleTimer r).sendPacket p).Wired ∧
      ((c.scheduleTimer r).sendPacket p).ledger = { c.ledger with
        members := insert r c.ledger.members
        log := c.ledger.log ++ [.queued p] } := by
  obtain ⟨hw, hledger⟩ := scheduleTimer_spec h hr
  refine ⟨hw.sendPacket p, ?_⟩
  have hsend : ((c.scheduleTimer r).sendPacket p).ledger =
      { (c.scheduleTimer r).ledger with
        log := (c.scheduleTimer r).ledger.log ++ [.queued p] } := rfl
  rw [hsend, hledger]

theorem Client.handleProbeTimer_spec (h : c.Sound) (hhead : c.timerQueue = some r)
    (hstate : (c.mem r).state = .PROBING) :
    ((c.popTimer r).handleProbeTimer r).Wired ∧ Relation.ReflTransGen Timed c.ledger
      ((c.popTimer r).handleProbeTimer r).ledger ∧
      ((c.popTimer r).handleProbeTimer r).ledger.members = c.ledger.members := by
  obtain ⟨hpop, hmem, hlt, hledger⟩ := popTimer_spec h.toWired hhead
  have hprobing : (c.ledger.core r).state = .PROBING := hstate
  have howned : r ∈ owners c.ledger.slots :=
    (h.held.owned r).mpr ⟨hmem, by rw [hprobing]; decide⟩
  unfold Client.handleProbeTimer
  split
  · rename_i hzero
    have hcounter : (c.ledger.core r).counter = 0 := hzero
    have hlogged : Client.Wired { (c.popTimer r).informAcquired r with
        log := (c.popTimer r).log ++ [Event.acquired r] } :=
      hpop.congr rfl rfl rfl rfl rfl fun _ => ⟨rfl, rfl⟩
    have hacquired : ((c.popTimer r).acquire r).Wired :=
      hlogged.setRange (f := fun range => { range with state := .DEFENDING }) fun x => ⟨rfl, rfl⟩
    have hledger₁ : ((c.popTimer r).acquire r).ledger = { (c.popTimer r).ledger with
        log := (c.popTimer r).ledger.log ++ [Event.acquired r] }.setCore r
          fun x => { x with state := .DEFENDING } := ledger_setRange fun x => rfl
    obtain ⟨hw, hfinal⟩ := scheduled_spec hacquired hlt _
    refine ⟨hw, ?_⟩
    rw [hledger₁, hledger] at hfinal
    dsimp only [Ledger.setCore] at hfinal
    rw [insert_taken hmem] at hfinal
    rw [Client.sendAnnounce, hfinal]
    exact ⟨(Relation.ReflTransGen.single
      (Timed.acquire (v := c.ledger) howned hprobing hcounter)).tail (Timed.queue _), rfl⟩
  · rename_i hpos
    obtain ⟨⟨low, high, owner⟩, hslot, howner⟩ := mem_owners.mp howned
    cases howner
    obtain ⟨k, hk⟩ : ∃ k, (c.ledger.core r).counter = k + 1 :=
      ⟨(c.mem r).counter - 1, (Nat.succ_pred hpos).symm⟩
    have hdown : ((c.popTimer r).countDown r).Wired :=
      hpop.setRange (f := fun range => { range with counter := range.counter - 1 })
        fun x => ⟨rfl, rfl⟩
    have hledger₁ : ((c.popTimer r).countDown r).ledger = (c.popTimer r).ledger.setCore r
        fun x => { x with counter := x.counter - 1 } := ledger_setRange fun x => rfl
    have htimer := (scheduleTimer_spec hdown hlt).1
    have hfinal := launch_spec hdown hlt hslot htimer rfl
    refine ⟨htimer.sendPacket _, ?_⟩
    rw [hledger₁, hledger] at hfinal
    dsimp only [Ledger.setCore] at hfinal
    rw [insert_taken hmem, hk, Nat.add_sub_cancel] at hfinal
    rw [hfinal]
    exact ⟨Relation.ReflTransGen.single (Timed.tick (v := c.ledger) hslot hprobing hk), rfl⟩

theorem Client.actTimer_spec (h : c.Sound) (hhead : c.timerQueue = some r) :
    (c.actTimer r).Sound ∧ Relation.ReflTransGen Timed c.ledger (c.actTimer r).ledger ∧
      (c.actTimer r).ledger.members ⊆ c.ledger.members := by
  have hact : (c.actTimer r).Wired ∧
      Relation.ReflTransGen Timed c.ledger (c.actTimer r).ledger ∧
        (c.actTimer r).ledger.members ⊆ c.ledger.members := by
    unfold Client.actTimer
    cases hstate : (c.mem r).state with
    | PROBING =>
      grind [handleProbeTimer_spec]
    | DEFENDING =>
      obtain ⟨hpop, hmem, hlt, hledger⟩ := popTimer_spec h.toWired hhead
      obtain ⟨hw, hfinal⟩ := scheduled_spec hpop hlt _
      refine ⟨hw, ?_⟩
      grind [insert_taken, handleDefendTimer, sendAnnounce, Timed.queue, subset_rfl]
    | RELEASED =>
      obtain ⟨hpop, -, -, hledger⟩ := popTimer_spec h.toWired hhead
      refine ⟨hpop, ?_⟩
      dsimp only
      rw [hledger]
      exact ⟨.single (Timed.free (v := c.ledger) hstate), Set.sdiff_subset⟩
  exact ⟨⟨hact.1, Inner.held_of_steps h.held (Timed.inner_steps hact.2.1)⟩, hact.2⟩

theorem Client.timerLoop_spec (h : c.Sound) (now : Time) (fuel : Nat) :
    (c.timerLoop now fuel).Sound ∧
      Relation.ReflTransGen Timed c.ledger (c.timerLoop now fuel).ledger := by
  induction fuel generalizing c with
  | zero => exact ⟨h, .refl⟩
  | succ fuel ih =>
    rw [Client.timerLoop]
    cases hhead : c.timerQueue with
    | none => exact ⟨h, .refl⟩
    | some r =>
      dsimp only
      split
      · obtain ⟨hsound, hsteps, -⟩ := actTimer_spec h hhead
        obtain ⟨hsound', hsteps'⟩ := ih hsound
        exact ⟨hsound', hsteps.trans hsteps'⟩
      · exact ⟨h, .refl⟩

theorem Client.handleTimer_spec (h : c.Sound) :
    c.handleTimer.Sound ∧ Relation.ReflTransGen Timed c.ledger c.handleTimer.ledger := by
  have hread : c.monotonic.2.Sound :=
    ⟨h.toWired.congr rfl rfl rfl rfl rfl fun _ => ⟨rfl, rfl⟩, h.held⟩
  obtain ⟨hsound, hsteps⟩ := timerLoop_spec hread c.monotonic.1 c.nextRange
  have hledger : c.handleTimer.ledger = _ := ledger_startTimer
    (c.monotonic.2.timerLoop c.monotonic.1 c.nextRange)
  refine ⟨⟨hsound.toWired.startTimer, ?_⟩, ?_⟩
  · rw [hledger]
    exact hsound.held
  · rw [hledger]
    exact hsteps

def Client.Follows (c : Client σ) : Op σ → Ledger σ → Prop
  | .init _ base len, v' =>
    v' = c.ledger ∨ c.initialized = false ∧
      v' = { c.ledger with base := base, len := len, slots := [], members := ∅, maxid := 0 }
  | .reserve sender base length _, v' =>
    c.initialized = false ∧ v' = c.ledger ∨ c.initialized = true ∧
      Reserve sender base.toNat length.toNat (c.Late base.toNat length.toNat) c.ledger v'
  | .release _ _, v' => v' = c.ledger ∨ ∃ r, Drop r c.ledger v'
  | .status _ _, v' => v' = c.ledger
  | .yield _ _ _, v' => v' = c.ledger ∨ ∃ r ∈ c.queue, (c.mem r).state = .DEFENDING ∧
    c.Receives (packMaap (c.yieldPacket (c.node r))) v'
  | .packet stream _, v' => c.Receives stream v'
  | .timer, v' => Relation.ReflTransGen Inner c.ledger v'

theorem Client.init_spec (h : c.Sound) (sender : σ) (base : UInt64) (len : UInt32) :
    (c.init sender base len).Sound ∧
      c.Follows (.init sender base len) (c.init sender base len).ledger := by
  unfold Client.init
  split
  · exact ⟨⟨h.toWired.addNotify _ _, h.held⟩, Or.inl rfl⟩
  · rename_i hinit
    have hqueue : (Client.informInitialized sender .NONE { c with
        addressBase := base, rangeLen := len, ranges := .nil, timerQueue := none, maxid := 0,
        notifies := [], initialized := true }).queue = [] := by
      unfold Client.queue
      exact LinkedQueue.Chain.nil.follow_eq (Nat.zero_le _)
    have hledger : (Client.informInitialized sender .NONE { c with
        addressBase := base, rangeLen := len, ranges := .nil, timerQueue := none, maxid := 0,
        notifies := [], initialized := true }).ledger =
          { c.ledger with base := base, len := len, slots := [], members := ∅, maxid := 0 } := by
      refine Ledger.ext rfl rfl rfl rfl rfl ?_ rfl rfl rfl rfl
      ext a
      constructor
      · intro ha
        have ha' : a ∈ ([] : List Nat) := hqueue ▸ ha
        cases ha'
      · exact False.elim
    refine ⟨⟨⟨(Client.Queued.of_chain .nil (by simp) .nil).1, ?_⟩, ?_⟩, Or.inr ⟨?_, hledger⟩⟩
    · exact ⟨nodup_nil, by simp [Client.informInitialized, Client.addNotify, Tree.nodes],
        by simp [Client.informInitialized, Client.addNotify, Tree.nodes]⟩
    · rw [hledger]
      exact ⟨nodup_nil, fun a => by simp [owners], fun a ha => ha.elim⟩
    · simpa using hinit

theorem Client.perform_spec [BEq σ] (h : c.Sound) {op : Op σ} (hok : c.perform op = .ok c') :
    c'.Sound ∧ c.Follows op c'.ledger := by
  cases op with
  | init sender base len =>
    cases hok
    exact init_spec h sender base len
  | reserve sender base length oom => exact reserve_spec h hok
  | release sender id => exact release_spec h hok
  | status sender id =>
    cases hok
    unfold Client.status
    split
    · exact ⟨⟨h.toWired.addNotify _ _, h.held⟩, rfl⟩
    · split
      · exact ⟨⟨h.toWired.addNotify _ _, h.held⟩, rfl⟩
      · exact ⟨⟨h.toWired.addNotify _ _, h.held⟩, rfl⟩
  | yield sender id oom =>
    have hyield : c.yield sender id oom = .ok c' := hok
    unfold Client.yield at hyield
    split at hyield
    · cases hyield
      exact ⟨⟨h.toWired.addNotify _ _, h.held⟩, Or.inl rfl⟩
    · cases hfind : c.queue.find? fun r => (c.mem r).id = id && (c.mem r).state = .DEFENDING with
      | none =>
        rw [hfind] at hyield
        cases hyield
        exact ⟨⟨h.toWired.addNotify _ _, h.held⟩, Or.inl rfl⟩
      | some r =>
        rw [hfind] at hyield
        obtain ⟨hsound, hreceives⟩ := handlePacket_spec h hyield
        have hfound := List.find?_some hfind
        simp only [Bool.and_eq_true, decide_eq_true_eq] at hfound
        exact ⟨hsound, Or.inr ⟨r, mem_of_find?_eq_some hfind, hfound.2, hreceives⟩⟩
  | packet stream oom => exact handlePacket_spec h hok
  | timer =>
    cases hok
    obtain ⟨hsound, hsteps⟩ := handleTimer_spec h
    exact ⟨hsound, Timed.inner_steps hsteps⟩

theorem Client.Initial.queue (h : c.Initial) : c.queue = [] := by
  unfold Client.queue
  rw [h.timerQueue]
  exact LinkedQueue.Chain.nil.follow_eq (Nat.zero_le _)

theorem Client.Initial.sound (h : c.Initial) : c.Sound := by
  have hqueue := h.queue
  refine ⟨⟨?_, ?_⟩, ?_⟩
  · refine (Client.Queued.of_chain (l := []) ?_ (by simp) .nil).1
    rw [h.timerQueue]
    exact .nil
  · refine ⟨?_, ?_, ?_⟩
    · rw [h.ranges]
      exact nodup_nil
    · simp [h.ranges, Tree.nodes]
    · simp [h.ranges, Tree.nodes]
  · refine ⟨?_, fun a => ?_, fun a ha => ?_⟩
    · dsimp only [Client.ledger, Client.slots]
      rw [h.ranges]
      exact nodup_nil
    · dsimp only [Client.ledger, Client.slots]
      rw [h.ranges, hqueue]
      simp [owners, Tree.nodes]
    · have ha' : a ∈ ([] : List Nat) := hqueue ▸ ha
      cases ha'

theorem Client.sound_of_run [BEq σ] (h : c.Initial) {ops : List (Op σ)}
    (hrun : Fallible.run Client.perform c ops = .ok c') : c'.Sound :=
  run_always (fun _ _ _ hs hstep => (Client.perform_spec hs hstep).1) h.sound hrun

end Avb4Linux.Maap
