import Avb4Linux.Maap.Invariants

/-!
# The address pool

When the intervals in the pool are disjoint, in order, inside the pool and owned.
-/

namespace Avb4Linux.Maap

open Lib Lib.Fallible

variable {σ : Type} {v v' : Ledger σ} {r : Nat}

structure Ledger.Tidy (v : Ledger σ) : Prop where
  order : InOrder v.slots
  inside : ∀ s ∈ v.slots, s.high < v.len.toNat
  size : ∀ s ∈ v.slots, s.high - s.low + 1 ≤ 0xFFFF
  owned : ∀ s ∈ v.slots, s.owner ≠ none

variable {attemptBase high low n : Nat} {c : Client σ}

theorem Placement.spot {base : UInt64} {len : UInt32} {a : Nat}
    (h : Placement base len a n low high) (hn : 1 ≤ n) (hfits : n ≤ len.toNat) (ha : a < 2 ^ 64)
    (hwrap : a + n ≤ 2 ^ 64 ∨ 2 ^ 64 < base.toNat + len.toNat) :
    low + n ≤ len.toNat ∧ high + 1 = low + n := by
  have hlen := len.toNat_lt
  have hbase := base.toNat_lt
  have hlow : low + n ≤ len.toNat := by
    rcases h.starts with hlow | ⟨hattempt, hlow⟩
    all_goals grind [attempts, placeOf]
  have hhigh := h.ends
  unfold intervalEnd at hhigh
  omega

theorem countOf_eq (hle : low ≤ high) (hsize : high - low + 1 ≤ 0xFFFF) :
    countOf low high % 2 ^ 16 = high - low + 1 := by
  unfold countOf
  omega

structure Ledger.Laid (v : Ledger σ) : Prop where
  order : InOrder v.slots
  inside : ∀ s ∈ v.slots, s.high < v.len.toNat
  size : ∀ s ∈ v.slots, s.high - s.low + 1 ≤ 0xFFFF

theorem Ledger.Tidy.laid (h : v.Tidy) : v.Laid :=
  ⟨h.order, h.inside, h.size⟩

theorem Ledger.Laid.tidy (h : v.Laid) (howned : ∀ s ∈ v.slots, s.owner ≠ none) : v.Tidy :=
  ⟨h.order, h.inside, h.size, howned⟩

theorem Ledger.Laid.congr (h : v.Laid) (hslots : v'.slots = v.slots) (hlen : v'.len = v.len) :
    v'.Laid := by
  obtain ⟨horder, hinside, hsize⟩ := h
  rw [← hslots] at horder hinside hsize
  rw [← hlen] at hinside
  exact ⟨horder, hinside, hsize⟩

theorem Ledger.Laid.replacement (h : v.Laid) {old : Slot} (hold : old ∈ v.slots)
    (hp : Placement v.base v.len 0 (countOf old.low old.high % 2 ^ 16) low high) :
    low ≤ high ∧ high < v.len.toNat ∧ high - low + 1 ≤ 0xFFFF := by
  have hle := h.order.low_le_high old hold
  have hinside := h.inside old hold
  have hsize := h.size old hold
  rw [countOf_eq hle hsize] at hp
  obtain ⟨hspot, hhigh⟩ := hp.spot (by omega) (by omega) (by decide) (Or.inl (by omega))
  omega

theorem Ledger.Laid.insert (h : v.Laid) {slots : List Slot} {o : Option Nat}
    (hins : Inserted ⟨low, high, o⟩ v.slots slots) (hle : low ≤ high)
    (hinside : high < v.len.toNat) (hsize : high - low + 1 ≤ 0xFFFF) :
    { v with slots := slots }.Laid := by
  refine ⟨hins.inOrder h.order hle, fun s hs => ?_, fun s hs => ?_⟩
  · rcases hins.mem_iff.mp hs with rfl | hs
    · exact hinside
    · exact h.inside s hs
  · rcases hins.mem_iff.mp hs with rfl | hs
    · exact hsize
    · exact h.size s hs

theorem Ledger.Laid.remove (h : v.Laid) {slots : List Slot} {s : Slot}
    (hrem : Removed s v.slots slots) : { v with slots := slots }.Laid :=
  ⟨hrem.inOrder h.order, fun s hs => h.inside s (hrem.mem hs), fun s hs => h.size s (hrem.mem hs)⟩

theorem Ledger.Laid.hand (h : v.Laid) {slots : List Slot} {s : Slot} {o : Option Nat}
    (hhand : Handed s o v.slots slots) : { v with slots := slots }.Laid := by
  refine ⟨hhand.inOrder h.order, fun x hx => ?_, fun x hx => ?_⟩
  · obtain ⟨t, ht, -, hhigh⟩ := hhand.same_interval hx
    rw [hhigh]
    exact h.inside t ht
  · obtain ⟨t, ht, hlow, hhigh⟩ := hhand.same_interval hx
    rw [hlow, hhigh]
    exact h.size t ht

theorem Drop.laid (h : v.Laid) (hd : Drop r v v') : v'.Laid := by
  obtain ⟨hrem⟩ := hd
  exact (h.remove hrem).congr rfl rfl

theorem Move.laid (h : v.Laid) (hm : Move r v v') : v'.Laid := by
  obtain ⟨-, -, hhand, hins, hrem, hplace⟩ := hm
  obtain ⟨hle, hinside, hsize⟩ := h.replacement hhand.self_mem hplace
  exact (((h.hand hhand).insert hins hle hinside hsize).remove hrem).congr rfl rfl

theorem Replace.laid (h : v.Laid) (hr : Replace r v v') : v'.Laid := by
  obtain ⟨hold, -, hins, hrem, hplace⟩ := hr
  obtain ⟨hle, hinside, hsize⟩ := h.replacement hold hplace
  exact ((h.insert hins hle hinside hsize).remove hrem).congr rfl rfl

theorem Ledger.kept_laid : Kept (Ledger.Laid (σ := σ)) :=
  ⟨fun halike h => h.congr halike.slots halike.len, fun h hd => hd.laid h, fun h hm => hm.laid h,
    fun _ h hr => hr.laid h⟩

theorem Drop.tidy (h : v.Tidy) (hd : Drop r v v') : v'.Tidy := by
  refine (hd.laid h.laid).tidy ?_
  obtain ⟨hrem⟩ := hd
  exact fun s hs => h.owned s (hrem.mem hs)

theorem Move.tidy (h : v.Tidy) (hm : Move r v v') : v'.Tidy := by
  refine (hm.laid h.laid).tidy (unowned_eq_zero.mp ?_)
  obtain ⟨-, howner, hhand, hins, hrem, -⟩ := hm
  have hbefore := hhand.unowned_eq howner
  have hbetween := hins.unowned_eq
  have hafter := hrem.unowned_eq
  rw [unowned_eq_zero.mpr h.owned] at hbefore
  simp_all

theorem Replace.tidy (h : v.Tidy) (hr : Replace r v v') : v'.Tidy := by
  refine (hr.laid h.laid).tidy ?_
  obtain ⟨-, -, hins, hrem, -⟩ := hr
  intro s hs
  rcases hins.mem_iff.mp (hrem.mem hs) with rfl | hs
  · exact Option.some_ne_none _
  · exact h.owned s hs

theorem Ledger.Tidy.congr (h : v.Tidy) (hslots : v'.slots = v.slots) (hlen : v'.len = v.len) :
    v'.Tidy := by
  obtain ⟨horder, hinside, hsize, howned⟩ := h
  rw [← hslots] at horder hinside hsize howned
  rw [← hlen] at hinside
  exact ⟨horder, hinside, hsize, howned⟩

theorem Ledger.kept_tidy : Kept (Ledger.Tidy (σ := σ)) :=
  ⟨fun halike h => h.congr halike.slots halike.len, fun h hd => hd.tidy h, fun h hm => hm.tidy h,
    fun _ h hr => hr.tidy h⟩

structure ReserveFine (base : UInt64) (len : UInt32) (attemptBase n : Nat) (late : Prop) : Prop where
  positive : 1 ≤ n
  wraps : attemptBase + n ≤ 2 ^ 64 ∨ 2 ^ 64 < base.toNat + len.toNat
  inTime : ¬late

theorem Reserve.laid {sender : σ} {late : Prop} (h : v.Laid)
    (hr : Reserve sender attemptBase n late v v') (ha : attemptBase < 2 ^ 64)
    (hfine : ReserveFine v.base v.len attemptBase n late) : v'.Laid := by
  cases hr with
  | refused => exact h
  | failed x => exact h.congr rfl rfl
  | orphan x isLate inserted => exact absurd isLate hfine.inTime
  | placed small fits inserted placement =>
    have hpositive := hfine.positive
    obtain ⟨hspot, hhigh⟩ := placement.spot hpositive fits ha hfine.wraps
    have hlaid := h.insert inserted (by omega) (by omega) (by omega)
    exact Ledger.Laid.congr hlaid rfl rfl

theorem Reserve.tidy {sender : σ} {late : Prop} (h : v.Tidy)
    (hr : Reserve sender attemptBase n late v v') (ha : attemptBase < 2 ^ 64)
    (hfine : ReserveFine v.base v.len attemptBase n late) : v'.Tidy := by
  refine (hr.laid h.laid ha hfine).tidy ?_
  cases hr with
  | refused => exact h.owned
  | failed x => exact h.owned
  | orphan x isLate inserted => exact absurd isLate hfine.inTime
  | placed small fits inserted placement =>
    intro s hs
    rcases inserted.mem_iff.mp hs with rfl | hs
    · exact Option.some_ne_none _
    · exact h.owned s hs

/-- What an operation has to be like: a reservation asks for at least one address, does
not run over the end of the address space unless the pool does, and finds its interval
before the last draw. -/
def Client.PoolStep (c : Client σ) : Op σ → Prop
  | .reserve _ base length _ => c.initialized = true → ReserveFine c.addressBase c.rangeLen
      base.toNat length.toNat (c.Late base.toNat length.toNat)
  | _ => True

structure Client.PoolRight (c : Client σ) : Prop where
  ordered : c.ranges.nodes.Pairwise fun a b => a.high < b.low
  inside : ∀ n ∈ c.ranges.nodes, n.low ≤ n.high ∧ n.high < c.rangeLen.toNat
  owned : ∀ n ∈ c.ranges.nodes, ∃ r ∈ c.queue, n.data = some r ∧
    (c.mem r).interval = some n.addr

theorem Client.Follows.tidy {op : Op σ} (h : c.ledger.Tidy) (hh : c.ledger.Held)
    (hf : c.Follows op v') (hstep : c.PoolStep op) : v'.Tidy := by
  refine Ledger.kept_tidy.follows hh h hf ?_ ?_
  · intro base len
    exact ⟨⟨.nil, by simp⟩, by simp, by simp, by simp⟩
  · rintro sender base length oom rfl hinit hreserve
    exact hreserve.tidy h base.toNat_lt (hstep hinit)

theorem Client.Sound.poolRight (h : c.Sound) (ht : c.ledger.Tidy) : c.PoolRight := by
  have hordered : Ordered c.ranges.nodes := ordered_iff_inOrder.mpr ht.order
  refine ⟨hordered.pairwise, fun n hn => ?_, fun n hn => ?_⟩
  · exact ⟨hordered.low_le_high n hn, ht.inside n.slot (List.mem_map_of_mem hn)⟩
  · obtain ⟨r, hr⟩ := Option.ne_none_iff_exists'.mp (ht.owned n.slot (List.mem_map_of_mem hn))
    exact ⟨r, (h.owner_of_node hn hr).2.1, hr, (h.linked.back n hn r hr).1⟩

theorem Client.Initial.slots (h : c.Initial) : c.ledger.slots = [] := by
  dsimp only [Client.ledger, Client.slots]
  rw [h.ranges]
  rfl

theorem Client.Initial.tidy (h : c.Initial) : c.ledger.Tidy := by
  have hnil := h.slots
  refine ⟨?_, ?_, ?_, ?_⟩
  · rw [hnil]
    exact ⟨.nil, by simp⟩
  · simp [hnil]
  · simp [hnil]
  · simp [hnil]

theorem Client.pool_right [BEq σ] {c c' : Client σ} (h : c.Initial) {ops : List (Op σ)}
    (hsteps : Along Client.perform Client.PoolStep c ops)
    (hrun : Fallible.run Client.perform c ops = .ok c') : c'.PoolRight := by
  have hinv : c'.Sound ∧ c'.ledger.Tidy := by
    refine run_invariant (P := fun c => c.Sound ∧ c.ledger.Tidy) ?_ ⟨h.sound, h.tidy⟩ hsteps hrun
    rintro d op d' hstep ⟨hsound, hd⟩ hok
    obtain ⟨hsound', hfollows⟩ := perform_spec hsound hok
    exact ⟨hsound', hfollows.tidy hd hsound.held hstep⟩
  exact hinv.1.poolRight hinv.2

theorem quietClient_initial (srcMac random : Nat) : (quietClient srcMac random).Initial :=
  ⟨rfl, rfl, rfl, rfl, rfl⟩

def reserveTwo : List (Op Nat) :=
  [.init 5 0x91E0F0000000 65024, .reserve 5 0x91E0F0000000 2 false]

theorem reserveTwo_fine (srcMac random : Nat) :
    Along Client.perform Client.PoolStep (quietClient srcMac random) reserveTwo := by
  refine ⟨trivial, fun c hc => ⟨fun _ => ⟨by decide, Or.inl (by decide), fun hlate => ?_⟩,
    fun _ _ => trivial⟩⟩
  cases hc
  have hattempts : attempts 0x91E0F0000000 65024 (0x91E0F0000000 : UInt64).toNat
      (2 : UInt32).toNat = true := by decide
  have hmiss := hlate.attempt hattempts
  cases hmiss

theorem pool_right_reserveTwo : ∃ c', Fallible.run Client.perform (quietClient 7 0) reserveTwo =
    .ok c' ∧ c'.ranges.nodes = [⟨0, 0, 1, some 0⟩] ∧ c'.PoolRight := by
  obtain ⟨c', hrun, hnodes⟩ := exists_of_okAnd (x := Fallible.run Client.perform (quietClient 7 0)
    reserveTwo) (p := fun c => c.ranges.nodes = [⟨0, 0, 1, some 0⟩]) (by decide +kernel)
  exact ⟨c', hrun, by simpa using hnodes,
    Client.pool_right (quietClient_initial 7 0) (reserveTwo_fine 7 0) hrun⟩

theorem pool_wrong_for_length_zero : ∃ c', Fallible.run Client.perform (quietClient 7 0)
    [.init 5 0x91E0F0000000 65024, .reserve 5 0x91E0F0000001 0 false] = .ok c' ∧
      c'.ranges.nodes = [⟨0, 1, 0, some 0⟩] ∧ ¬c'.PoolRight := by
  obtain ⟨c', hrun, hnodes⟩ := exists_of_okAnd (x := Fallible.run Client.perform (quietClient 7 0)
    [.init 5 0x91E0F0000000 65024, .reserve 5 0x91E0F0000001 0 false])
    (p := fun c => c.ranges.nodes = [⟨0, 1, 0, some 0⟩]) (by decide +kernel)
  rw [decide_eq_true_eq] at hnodes
  refine ⟨c', hrun, hnodes, fun hright => ?_⟩
  have hle := (hright.inside ⟨0, 1, 0, some 0⟩ (by simp [hnodes])).1
  exact absurd hle (by decide)

end Avb4Linux.Maap
