import Avb4Linux.Maap.Overlaps

/-!
# Yielding on command

`maap_yield_range` makes up an announcement of another station for the interval of the range and
hands it to `maap_handle_packet`.
-/

namespace Avb4Linux.Maap

open Lib Lib.Fallible

variable {σ : Type} {v v' : Ledger σ} {c c' : Client σ} {r low high : Nat}

theorem Client.initialized_scheduleTimer (c : Client σ) (r : Nat) :
    (c.scheduleTimer r).initialized = c.initialized := by
  obtain ⟨t, rnd, clock, heq⟩ := c.scheduleTimer_eq r
  rw [heq]
  rfl

theorem Client.initialized_startTimer (c : Client σ) :
    c.startTimer.initialized = c.initialized := by
  unfold startTimer
  split
  · rfl
  · split
    · rfl
    · rfl

theorem Client.initialized_assignInterval {attemptBase len : Nat} {found : Bool}
    (h : c.assignInterval r attemptBase len = .ok (c', found)) :
    c'.initialized = c.initialized := by
  obtain ⟨-, iv, t, k, -, -, rfl⟩ | ⟨-, k, rfl⟩ | ⟨-, -, iv, t, -, -, rfl⟩ :=
    assignInterval_cases h
  · rfl
  · rfl
  · rfl

variable {a k : Nat} {p : Packet} {oom : Bool} {d : Client σ}

theorem Client.initialized_removeRangeInterval (h : c.removeRangeInterval a = .ok c') :
    c'.initialized = c.initialized := by
  grind [removeRangeInterval, bind_eq_ok]

theorem Client.initialized_dropRange (h : c.dropRange a r = .ok c') :
    c'.initialized = c.initialized := by
  obtain ⟨c₁, hremove, h⟩ := bind_eq_ok.mp h
  cases h
  have hkept := initialized_removeRangeInterval hremove
  exact hkept

theorem Client.initialized_resolve {n : Node} (h : c.resolve p oom n r = .ok c') :
    c'.initialized = c.initialized := by
  unfold resolve at h
  split at h
  · split at h
    · cases h
      rfl
    · obtain ⟨⟨c₁, found⟩, hassign, h⟩ := bind_eq_ok.mp h
      have hfirst := initialized_assignInterval hassign
      cases found with
      | true =>
        obtain ⟨c₂, hremove, h⟩ := bind_eq_ok.mp h
        cases h
        have hlast := initialized_removeRangeInterval hremove
        exact (initialized_scheduleTimer _ _).trans (hlast.trans hfirst)
      | false => exact (initialized_dropRange h).trans hfirst
  · split at h
    · cases h
      rfl
    · split at h
      · cases h
        rfl
      · unfold yieldInterval at h
        dsimp only at h
        split at h
        · have hkept := initialized_dropRange h
          exact hkept
        · obtain ⟨⟨c₁, found⟩, hassign, h⟩ := bind_eq_ok.mp h
          have hfirst := initialized_assignInterval hassign
          cases found with
          | true =>
            have hlast := initialized_dropRange h
            exact hlast.trans ((initialized_scheduleTimer c₁ _).trans hfirst)
          | false => exact (initialized_dropRange h).trans hfirst
  · cases h
    rfl

theorem Client.initialized_resolveLoop {start : Nat} (h : c.resolveLoop p oom start k = .ok c') :
    c'.initialized = c.initialized := by
  induction k generalizing c with
  | zero =>
    cases h
    rfl
  | succ k ih =>
    obtain ⟨x, -, h⟩ := bind_eq_ok.mp h
    obtain ⟨c₁, hres, h⟩ := bind_eq_ok.mp h
    have hturn := initialized_resolve hres
    exact (ih h).trans hturn

theorem Client.initialized_handlePacket {stream : List UInt8}
    (h : c.handlePacket stream oom = .ok c') : c'.initialized = c.initialized := by
  unfold handlePacket at h
  split at h
  · cases h
    rfl
  · split at h
    · unfold handleValid at h
      dsimp only at h
      split at h
      · cases h
        rfl
      · obtain ⟨mem, -, h⟩ := bind_eq_ok.mp h
        obtain ⟨c₁, hloop, h⟩ := bind_eq_ok.mp h
        cases h
        have hkept := initialized_resolveLoop hloop
        exact (initialized_startTimer c₁).trans hkept
    · cases h
      rfl

theorem Client.initialized_timerLoop (now : Time) (fuel : Nat) (c : Client σ) :
    (c.timerLoop now fuel).initialized = c.initialized := by
  induction fuel generalizing c with
  | zero => rfl
  | succ fuel ih =>
    rw [timerLoop]
    cases c.timerQueue with
    | none => rfl
    | some r =>
      dsimp only
      split
      · refine (ih _).trans ?_
        unfold actTimer
        split
        · unfold handleProbeTimer
          split
          · exact initialized_scheduleTimer _ _
          · exact initialized_scheduleTimer _ _
        · exact initialized_scheduleTimer _ _
        · rfl
      · rfl

theorem Client.initialized_perform [BEq σ] {op : Op σ} (hinit : c.initialized = true)
    (hok : c.perform op = .ok c') : c'.initialized = true := by
  rw [← hinit]
  cases op with
  | init sender base len =>
    cases hok
    unfold Client.init
    rw [if_pos hinit]
    rfl
  | reserve sender base length oom =>
    have h : c.reserve sender base length oom = .ok c' := hok
    unfold reserve at h
    split at h
    · cases h
      rfl
    · split at h
      · cases h
        rfl
      · split at h
        · cases h
          rfl
        · obtain ⟨⟨c₁, found⟩, hassign, h⟩ := bind_eq_ok.mp h
          have hfirst := initialized_assignInterval hassign
          cases found with
          | true =>
            cases h
            exact (initialized_startTimer _).trans
              ((initialized_scheduleTimer _ _).trans hfirst)
          | false =>
            cases h
            exact hfirst
  | release sender id =>
    have h : c.release sender id = .ok c' := hok
    unfold release at h
    split at h
    · cases h
      rfl
    · split at h
      · cases h
        rfl
      · split at h
        · cases h
        · refine (initialized_dropRange h).trans ?_
          unfold informBoth
          dsimp only
          split
          · rfl
          · rfl
  | status sender id =>
    cases hok
    unfold status
    split
    · rfl
    · split
      · rfl
      · rfl
  | yield sender id oom =>
    have h : c.yield sender id oom = .ok c' := hok
    unfold Client.yield at h
    split at h
    · cases h
      rfl
    · split at h
      · cases h
        rfl
      · exact initialized_handlePacket h
  | packet stream oom => exact initialized_handlePacket hok
  | timer =>
    cases hok
    exact (initialized_startTimer _).trans (initialized_timerLoop _ _ _)

def Ledger.Vacant (v : Ledger σ) : Prop :=
  v.members = ∅ ∧ v.slots = []

theorem Timed.vacant (h : v.Vacant) (ht : Timed v v') : v'.Vacant := by
  obtain ⟨hmembers, hslots⟩ := h
  cases ht with
  | queue p => exact ⟨hmembers, hslots⟩
  | free released => exact ⟨by rw [hmembers, Set.empty_sdiff], hslots⟩
  | tick slot probing counter =>
    rw [hslots] at slot
    cases slot
  | acquire owned probing counter =>
    rw [hslots] at owned
    cases owned

theorem Timed.vacant_steps (h : v.Vacant) (hs : Relation.ReflTransGen Timed v v') : v'.Vacant := by
  induction hs with
  | refl => exact h
  | tail hprev ht ih => exact ht.vacant ih

theorem Client.Receives.vacant {stream : List UInt8} (h : c.ledger.Vacant)
    (hr : c.Receives stream v') : v'.Vacant := by
  rcases hr with rfl | ⟨-, rs, hlen, hall⟩
  · exact h
  · have hnodes : c.ranges.nodes = [] := List.map_eq_nil_iff.mp h.2
    have hhits : c.hits (unpackMaap stream) = [] := by
      unfold hits
      split
      · rfl
      · have hsub := c.overlapping_sublist (unpackMaap stream)
        grind
    rw [hhits] at hlen hall
    obtain rfl := List.length_eq_zero_iff.mp hlen
    cases hall
    exact h

theorem Client.vacant_perform [BEq σ] {op : Op σ} (h : c.Sound) (hinit : c.initialized = false)
    (hv : c.ledger.Vacant) (hok : c.perform op = .ok c') :
    c'.initialized = true ∨ c'.ledger.Vacant := by
  have hfollows := (perform_spec h hok).2
  cases op with
  | init sender base len =>
    cases hok
    unfold Client.init
    rw [if_neg (by simp [hinit])]
    exact .inl rfl
  | reserve sender base length oom =>
    rcases hfollows with ⟨-, hsame⟩ | ⟨hinit', -⟩
    all_goals grind
  | release sender id =>
    rcases hfollows with hsame | ⟨r, hdrop⟩
    · rw [hsame]
      exact .inr hv
    · generalize c'.ledger = v' at hdrop
      obtain ⟨hrem⟩ := hdrop
      have hmem := hrem.self_mem
      rw [hv.2] at hmem
      cases hmem
  | status sender id =>
    have hsame : c'.ledger = c.ledger := hfollows
    rw [hsame]
    exact .inr hv
  | yield sender id oom =>
    rcases hfollows with hsame | ⟨r, hr, -⟩
    · rw [hsame]
      exact .inr hv
    · have hmem : r ∈ c.ledger.members := hr
      rw [hv.1] at hmem
      cases hmem
  | packet stream oom => exact .inr (Client.Receives.vacant hv hfollows)
  | timer =>
    have htimer : c.handleTimer = c' := Except.ok.inj hok
    rw [← htimer]
    exact .inr (Timed.vacant_steps hv (handleTimer_spec h).2)

theorem Client.initialized_or_vacant_perform [BEq σ] {op : Op σ} (h : c.Sound)
    (hcase : c.initialized = true ∨ c.ledger.Vacant) (hok : c.perform op = .ok c') :
    c'.initialized = true ∨ c'.ledger.Vacant := by
  by_cases hinit : c.initialized = true
  · exact .inl (initialized_perform hinit hok)
  · exact vacant_perform h (Bool.eq_false_iff.mpr hinit) (hcase.resolve_left hinit) hok

theorem Client.Initial.vacant (h : d.Initial) : d.ledger.Vacant := by
  refine ⟨?_, h.slots⟩
  ext a
  have hqueue := h.queue
  simp [ledger, hqueue]

theorem Client.Initial.initialized_or_vacant [BEq σ] {c : Client σ} {ops : List (Op σ)}
    (h : d.Initial) (hrun : Fallible.run Client.perform d ops = .ok c) :
    c.initialized = true ∨ c.ledger.Vacant := by
  have hinv : c.Sound ∧ (c.initialized = true ∨ c.ledger.Vacant) := by
    refine run_always (P := fun c => c.Sound ∧ (c.initialized = true ∨ c.ledger.Vacant)) ?_
      ⟨h.sound, .inr h.vacant⟩ hrun
    rintro c op c' ⟨hsound, hcase⟩ hok
    exact ⟨(perform_spec hsound hok).1, initialized_or_vacant_perform hsound hcase hok⟩
  exact hinv.2

theorem Replace.outcome (hh : v.Held) (hl : v.Laid) (hslot : ⟨low, high, some r⟩ ∈ v.slots)
    (hr : Replace r v v') : ∃ low' high', v'.members = insert v.fresh v.members ∧
      ⟨low', high', some v.fresh⟩ ∈ v'.slots ∧ (v'.core v.fresh).state = .PROBING ∧
      (v'.core v.fresh).id = (v.core r).id ∧ (v'.core v.fresh).sender = (v.core r).sender ∧
      low' ≤ high' ∧ high' < v.len.toNat ∧ high' - low' = high - low ∧
      ∀ s ∈ v.slots, high' < s.low ∨ s.high < low' := by
  have hrne : v.fresh ≠ r := by
    rintro rfl
    exact hh.fresh_not_owner (mem_owners.mpr ⟨_, hslot, rfl⟩)
  cases hr with
  | @mk old low' high' _ _ hold howner hins hrem hplace =>
    obtain rfl := slot_eq_of_owner hh.nodup hslot hold rfl howner
    obtain ⟨hle, hinside, hsize⟩ := hl.replacement hold hplace
    have hnew := hins.mem_iff.mpr (.inl rfl)
    have horder := hins.inOrder hl.order hle
    have hlow : low ≤ high := hl.order.low_le_high _ hslot
    have hlen : high < v.len.toNat := hl.inside _ hslot
    have hcount : countOf low high % 2 ^ 16 = high - low + 1 := countOf_eq hlow (hl.size _ hslot)
    rw [hcount] at hplace
    obtain ⟨-, hend⟩ := hplace.spot (by omega) (by omega) (by decide) (.inl (by omega))
    refine ⟨low', high', rfl, ?_, ?_, ?_, ?_, hle, hinside, by omega, ?_⟩
    · refine (hrem.mem_or hnew).resolve_left ?_
      intro heq
      exact hrne (Option.some.inj (congrArg Slot.owner heq))
    · rw [Ledger.setCore_of_ne _ hrne]
      dsimp only
      rw [Function.update_self]
      rfl
    · rw [Ledger.setCore_of_ne _ hrne]
      dsimp only
      rw [Function.update_self]
      rfl
    · rw [Ledger.setCore_of_ne _ hrne]
      dsimp only
      rw [Function.update_self]
      rfl
    · intro s hs
      refine horder.disjoint hnew (hins.mem_iff.mpr (.inr hs)) ?_
      rintro rfl
      exact hh.fresh_not_owner (mem_owners.mpr ⟨_, hs, rfl⟩)

theorem Replace.others (hh : v.Held) (hr : Replace r v v') (ha : a ∈ v.members) (hne : a ≠ r) :
    v'.core a = v.core a ∧
      ∀ low high, (⟨low, high, some a⟩ : Slot) ∈ v'.slots ↔ ⟨low, high, some a⟩ ∈ v.slots := by
  have hbelow : a < v.fresh := hh.below a ha
  refine ⟨(hr.frame hne).core hbelow, fun low high => ⟨?_, (hr.frame hne).slot low high⟩⟩
  obtain ⟨-, -, hins, hrem, -⟩ := hr
  intro hslot
  refine (hins.mem_iff.mp (hrem.mem hslot)).resolve_left ?_
  grind

end Avb4Linux.Maap
