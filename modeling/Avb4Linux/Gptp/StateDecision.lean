import Avb4Linux.Gptp.Port
import Mathlib.Data.List.GetD

/-!
# The state decision

What `processStateChange` does to a clock with any array of ports: both loops stay at
the first port of the array.
-/

namespace Avb4Linux.Gptp

open Lib List

variable {F : Type}

@[simp]
theorem Clock.isBetterThan_follow (c : Clock) (a : Announce) (msg : Option Announce) :
    (c.follow a).isBetterThan msg = c.isBetterThan msg := rfl

@[simp]
theorem Clock.isBetterThan_noteEBest (c : Clock) (e : Announce) (msg : Option Announce) :
    (c.noteEBest e).isBetterThan msg = c.isBetterThan msg := by
  unfold noteEBest
  dsimp only
  split <;> rfl

variable {c : Clock} {e : Announce} {ports : List (Option (Port F))} {j : Nat} {p : Port F}
  {s : System F}

theorem Clock.noteEBest_of_better (h : c.isBetterThan (some e) = true) :
    c.noteEBest e = { c with lastEBestIdentity := e.grandmasterIdentity }.becomeGrandmaster := by
  unfold noteEBest
  exact if_pos h

structure Station.Recommended (state : PortState) (s t : Station F) : Prop where
  clock : t.clock = s.clock
  ifindex : t.port.ifindex = s.port.ifindex
  qualifiedAnnounce : t.port.qualifiedAnnounce = s.port.qualifiedAnnounce
  portState : t.port.portState = state
  recommended : t.recommended = s.recommended ++ [(s.port.ifindex, state)]

theorem Station.recommendState_master (changed : Bool) (s : Station F) :
    s.Recommended .PTP_MASTER (s.recommendState .PTP_MASTER changed) := by
  unfold recommendState
  by_cases h : s.port.portState = .PTP_MASTER
  · simp only [h, if_true]
    exact ⟨rfl, rfl, rfl, h, rfl⟩
  · simp only [h, if_false]
    obtain ⟨hclock, hport, -, -, hrec⟩ := becomeMaster_sameBut true
      { s with recommended := s.recommended ++ [(s.port.ifindex, .PTP_MASTER)] }
    constructor <;> simp [hclock, hport, hrec]

theorem Station.recommendState_slave (changed : Bool) (s : Station F) :
    s.Recommended .PTP_SLAVE (s.recommendState .PTP_SLAVE changed) := by
  unfold recommendState
  by_cases h : s.port.portState = .PTP_SLAVE
  · simp only [h, if_true]
    cases changed
    · exact ⟨rfl, rfl, rfl, h, rfl⟩
    · constructor <;> simp [h]
  · simp only [h, if_false]
    obtain ⟨hclock, hport, -, -, hrec⟩ := becomeSlave_sameBut
      { s with recommended := s.recommended ++ [(s.port.ifindex, .PTP_SLAVE)] }
    constructor <;> simp [hclock, hport, hrec]

theorem seek_of_some (h : ports.getD j none = some p) : seek ports j = j := by
  have hlt : j < ports.length := by
    grind
  rw [getD_eq_getElem _ _ hlt] at h
  unfold seek
  rw [drop_eq_getElem_cons hlt, h]
  rfl

def System.first (s : System F) : Option (Port F) :=
  s.ports.getD (seek s.ports 0) none

theorem System.exists_first (h : some p ∈ s.ports) : ∃ q, s.first = some q := by
  grind [Option.isSome, Option.isSome_iff_exists, first, seek]

theorem System.numberPorts_pos (h : some p ∈ s.ports) : 0 < s.numberPorts :=
  List.countP_pos_iff.mpr ⟨some p, h, rfl⟩

theorem findEBest_stays (hj : ports.getD j none = some p) (n : Nat) :
    findEBest ports n j p.qualifiedAnnounce = p.qualifiedAnnounce := by
  have hseek : seek ports j = j := seek_of_some hj
  induction n with
  | zero => rfl
  | succ n ih =>
    rw [findEBest, hseek, hj]
    grind

theorem findEBest_stays_out (hj : ports.getD j none = some p) (hp : p.participates = false)
    (n : Nat) (e : Option Announce) : findEBest ports n j e = e := by
  have hseek : seek ports j = j := seek_of_some hj
  induction n with
  | zero => rfl
  | succ n ih =>
    rw [findEBest, hseek, hj]
    simp only [hp, Bool.false_eq_true, if_false, ih]

theorem System.findEBest_eq (h : s.first = some p) {n : Nat} (hn : 0 < n) :
    findEBest s.ports n 0 none = if p.participates then p.qualifiedAnnounce else none := by
  obtain ⟨n, rfl⟩ := Nat.exists_eq_succ_of_ne_zero (Nat.ne_of_gt hn)
  have hj : s.ports.getD (seek s.ports 0) none = some p := h
  rw [findEBest, hj]
  by_cases hp : p.participates
  all_goals grind [findEBest_stays, Bool.false_eq_true, findEBest_stays_out]

theorem System.getD_update (hj : s.ports.getD j none = some p) (t : Station F) :
    (s.update j t).ports.getD j none = some t.port := by
  grind [update]

theorem System.recommend_succ_master (changed : Bool) (n : Nat) {eBest : Option Announce}
    (hj : s.ports.getD (seek s.ports j) none = some p) (hp : p.participates = true)
    (hbetter : s.clock.isBetterThan eBest = true) :
    s.recommend changed (n + 1) j eBest =
      (s.update (seek s.ports j) ((s.station p).recommendState .PTP_MASTER changed)).recommend
        changed n (seek s.ports j) none := by
  rw [recommend]
  simp only [hj, hp, hbetter, if_true]

theorem System.recommend_succ_slave (changed : Bool) (n : Nat)
    (hj : s.ports.getD (seek s.ports j) none = some p) (hp : p.participates = true)
    (hbetter : s.clock.isBetterThan (some e) = false) (ha : p.qualifiedAnnounce = some e) :
    s.recommend changed (n + 1) j (some e) =
      (s.update (seek s.ports j) (((s.station p).recommendState .PTP_SLAVE changed).setClock
        (Clock.follow e))).recommend changed n (seek s.ports j) (some e) := by
  have hsame : sameAnnounce (some e) p.qualifiedAnnounce = true := by simp [sameAnnounce, ha]
  rw [recommend]
  simp only [hj, hp, hbetter, hsame, if_true, Bool.false_eq_true, if_false]

theorem System.recommend_master (changed : Bool) (n : Nat) {eBest : Option Announce}
    (hj : s.ports.getD (seek s.ports j) none = some p) (hp : p.participates = true)
    (hbetter : s.clock.isBetterThan eBest = true) :
    (s.recommend changed n j eBest).recommended =
      s.recommended ++ List.replicate n (p.ifindex, .PTP_MASTER) := by
  induction n generalizing s p j eBest with
  | zero => simp [recommend]
  | succ n ih =>
    obtain ⟨hclock, hindex, -, hstate, hrec⟩ :=
      (s.station p).recommendState_master changed
    have hget := getD_update hj ((s.station p).recommendState .PTP_MASTER changed)
    rw [recommend_succ_master changed n hj hp hbetter,
      ih (by rw [seek_of_some hget]; exact hget) (by simp [Port.participates, hstate]) rfl]
    have hnow : (s.update (seek s.ports j)
        ((s.station p).recommendState .PTP_MASTER changed)).recommended =
        s.recommended ++ [(p.ifindex, .PTP_MASTER)] := hrec
    rw [hnow, hindex, replicate_succ, append_assoc]
    rfl

theorem System.recommend_slave (changed : Bool) (n : Nat)
    (hj : s.ports.getD (seek s.ports j) none = some p) (hp : p.participates = true)
    (hbetter : s.clock.isBetterThan (some e) = false) (ha : p.qualifiedAnnounce = some e) :
    (s.recommend changed n j (some e)).recommended =
      s.recommended ++ List.replicate n (p.ifindex, .PTP_SLAVE) := by
  induction n generalizing s p j with
  | zero => simp [recommend]
  | succ n ih =>
    obtain ⟨hclock, hindex, hann, hstate, hrec⟩ := (s.station p).recommendState_slave changed
    have hget := getD_update hj (((s.station p).recommendState .PTP_SLAVE changed).setClock
      (Clock.follow e))
    rw [recommend_succ_slave changed n hj hp hbetter ha,
      ih (by rw [seek_of_some hget]; exact hget) (by simp [Port.participates, hstate])
      (by
        have hfollow : (s.update (seek s.ports j)
            (((s.station p).recommendState .PTP_SLAVE changed).setClock (Clock.follow e))).clock =
            s.clock.follow e := by
          simp only [update, Station.setClock, hclock]
          rfl
        rw [hfollow, Clock.isBetterThan_follow]
        exact hbetter)
      (hann.trans ha)]
    have hnow : (s.update (seek s.ports j)
        (((s.station p).recommendState .PTP_SLAVE changed).setClock
          (Clock.follow e))).recommended = s.recommended ++ [(p.ifindex, .PTP_SLAVE)] := hrec
    grind [station]

def System.Eligible (s : System F) (p : Port F) : Prop :=
  some p ∈ s.ports ∧ p.participates = true

def System.Placed (s : System F) : Prop :=
  ∀ j p, s.ports[j]? = some (some p) → p.ifindex.toNat = j + 1

theorem System.Placed.eq (h : s.Placed) {q : Port F} (hp : some p ∈ s.ports)
    (hq : some q ∈ s.ports) (hindex : p.ifindex = q.ifindex) : p = q := by
  obtain ⟨i, hi⟩ := mem_iff_getElem?.mp hp
  obtain ⟨j, hj⟩ := mem_iff_getElem?.mp hq
  have hi' := h i p hi
  have hj' := h j q hj
  grind

def System.recommendations (s : System F) : List (UInt16 × PortState) :=
  s.processStateChange.recommended.drop s.recommended.length

def System.Due (s : System F) : Prop :=
  s.clock.priority1 ≠ 255 ∧ ∃ p a, s.Eligible p ∧ p.qualifiedAnnounce = some a

def System.Best (s : System F) (e : Announce) : Prop :=
  (∃ p, s.Eligible p ∧ p.qualifiedAnnounce = some e) ∧
    ∀ q a, s.Eligible q → q.qualifiedAnnounce = some a → a.isBetterThan e = false

/-- A decision as it should be: `EBest` is the best Announce, every port that takes part is
recommended slave only if it holds `EBest` and master otherwise, and all are masters exactly when
the clock is better. -/
def System.DecidesRight (s : System F) : Prop :=
  s.Due → ∃ e, findEBest s.ports s.numberPorts 0 none = some e ∧ s.Best e ∧
    ∃ state : Port F → PortState,
      (∀ p, s.Eligible p → ∀ r, (p.ifindex, r) ∈ s.recommendations ↔ r = state p) ∧
      (∀ p, s.Eligible p → state p = .PTP_MASTER ∨
        state p = .PTP_SLAVE ∧ sameAnnounce (some e) p.qualifiedAnnounce = true) ∧
      ((∀ p, s.Eligible p → state p = .PTP_MASTER) ↔ s.clock.isBetterThan (some e) = true)

def System.verdict (s : System F) (e : Announce) : PortState :=
  if s.clock.isBetterThan (some e) then .PTP_MASTER else .PTP_SLAVE

theorem System.recommendations_eq (hfirst : s.first = some p) (hn : 0 < s.numberPorts)
    (hp : p.participates = true) (ha : p.qualifiedAnnounce = some e)
    (h255 : s.clock.priority1 ≠ 255) :
    s.recommendations = List.replicate s.numberPorts (p.ifindex, s.verdict e) := by
  have hbest : findEBest s.ports s.numberPorts 0 none = some e := by
    rw [findEBest_eq hfirst hn, hp]
    simpa using ha
  have hj : (s.setClock (Clock.noteEBest e)).ports.getD
      (seek (s.setClock (Clock.noteEBest e)).ports 0) none = some p := hfirst
  have hclock : (s.setClock (Clock.noteEBest e)).clock.isBetterThan (some e) =
      s.clock.isBetterThan (some e) := s.clock.isBetterThan_noteEBest e _
  unfold recommendations processStateChange verdict
  simp only [h255, if_false, hbest]
  by_cases hbetter : s.clock.isBetterThan (some e)
  · rw [hbetter] at hclock
    rw [recommend_master _ _ hj hp hclock, if_pos hbetter]
    exact drop_left
  · rw [Bool.eq_false_iff.mpr hbetter] at hclock
    rw [recommend_slave _ _ hj hp hclock ha, if_neg hbetter]
    exact drop_left

/-- The decision is right exactly when no port but the first one of the array takes
part, or there is nothing to decide. -/
theorem System.decidesRight_iff (s : System F) (hplaced : s.Placed) :
    s.DecidesRight ↔ (s.Due → ∀ p, s.Eligible p → s.first = some p) := by
  constructor
  · intro hright hdue p hp
    obtain ⟨e, hbest, -, state, hstates, -, -⟩ := hright hdue
    obtain ⟨q, hq⟩ := exists_first hp.1
    have hn := numberPorts_pos hp.1
    have hfind := findEBest_eq hq hn
    rw [hbest] at hfind
    have hqp : q.participates = true := by
      by_contra hno
      rw [if_neg hno] at hfind
      cases hfind
    rw [if_pos hqp] at hfind
    have hrec := recommendations_eq hq hn hqp hfind.symm hdue.1
    have hmem := (hstates p hp (state p)).mpr rfl
    rw [hrec] at hmem
    have hindex : p.ifindex = q.ifindex := congrArg Prod.fst (eq_of_mem_replicate hmem)
    have hqmem : some q ∈ s.ports := by
      have hget : s.ports.getD (seek s.ports 0) none = some q := hq
      have hlt : seek s.ports 0 < s.ports.length := by
        by_contra hge
        rw [getD_eq_default _ _ (by omega)] at hget
        cases hget
      rw [getD_eq_getElem _ _ hlt] at hget
      exact hget ▸ getElem_mem hlt
    rw [hq, hplaced.eq hp.1 hqmem hindex]
  · intro honly hdue
    obtain ⟨h255, p, e, hp, ha⟩ := hdue
    have hfirst : s.first = some p := honly ⟨h255, p, e, hp, ha⟩ p hp
    have hn := numberPorts_pos hp.1
    have hall : ∀ q, s.Eligible q → q = p := by
      intro q hq
      have hfirst' := honly ⟨h255, p, e, hp, ha⟩ q hq
      rw [hfirst] at hfirst'
      exact (Option.some.inj hfirst').symm
    have hrec := recommendations_eq hfirst hn hp.2 ha h255
    refine ⟨e, ?_, ⟨⟨p, hp, ha⟩, ?_⟩, fun _ => s.verdict e, ?_, ?_, ?_⟩
    · rw [findEBest_eq hfirst hn, if_pos hp.2, ha]
    · intro q a hq hqa
      rw [hall q hq, ha] at hqa
      cases hqa
      exact e.isBetterThan_self
    · intro q hq r
      rw [hall q hq, hrec, mem_replicate]
      constructor
      · rintro ⟨-, h⟩
        exact congrArg Prod.snd h
      · intro h
        exact ⟨Nat.ne_of_gt hn, by rw [h]⟩
    · intro q hq
      rw [hall q hq, ha]
      unfold verdict
      by_cases hbetter : s.clock.isBetterThan (some e)
      · left
        rw [if_pos hbetter]
      · right
        rw [if_neg hbetter]
        exact ⟨rfl, by simp [sameAnnounce]⟩
    · unfold verdict
      constructor
      · intro hmaster
        by_contra hno
        have := hmaster p hp
        rw [if_neg hno] at this
        cases this
      · intro hbetter _ _
        rw [if_pos hbetter]

def newPort (ifindex : UInt16) (announce : Option Announce) : Port Unit where
  ifindex := ifindex
  automotiveProfile := false
  isGM := false
  portState := .PTP_INITIALIZING
  qualifiedAnnounce := announce
  asCapable := false
  wrongSeqIDCounter := 0
  syncReceiptThresh := 5
  syncCount := 0
  pdelayCount := 0
  pDelayInterval := 0
  syncInterval := -3
  initialLogPdelayReqInterval := 0
  initialLogSyncInterval := -3
  operLogPdelayReqInterval := 0
  operLogSyncInterval := 0
  oneWayDelay := 3600000000000
  neighborPropDelayThresh := 800
  peerRateOffset := ()
  peerOffset := none
  lastSync := none
  lastPDelayReq := none
  lastPDelayResp := none
  lastPDelayRespFollowUp := none
  pdelayStarted := false
  pdelayHalted := false
  syncRateIntervalTimerStarted := false
  pdelaySequenceId := 0
  duplicateRespCounter := 0
  lastInvalidSeqID := 0

def newClock (octet priority1 : UInt8) : Clock where
  clockIdentity := Vector.replicate 8 octet
  priority1 := priority1
  priority2 := 248
  clockQuality := ⟨248, 0x22, 0x436A⟩
  grandmasterClockIdentity := Vector.replicate 8 0
  grandmasterPriority1 := 0
  grandmasterPriority2 := 0
  grandmasterClockQuality := ⟨0, 0, 0⟩
  lastEBestIdentity := Vector.replicate 8 0xFF

def secondPortHears : System Unit where
  clock := newClock 1 246
  ports := [some (newPort 1 none), some (newPort 2 (some ((newClock 2 246).becomeGrandmaster.announce 1 0)))]
  timers := []
  nextAddr := 1
  freed := []
  recommended := []

theorem decides_wrong_for_second_port : ¬ secondPortHears.DecidesRight := by
  intro h
  have hdue : secondPortHears.Due :=
    ⟨by decide, newPort 2 (some ((newClock 2 246).becomeGrandmaster.announce 1 0)), _,
      ⟨by simp [secondPortHears], by decide⟩, rfl⟩
  obtain ⟨e, hbest, -⟩ := h hdue
  have hnone : findEBest secondPortHears.ports secondPortHears.numberPorts 0 none = none := rfl
  rw [hnone] at hbest
  cases hbest

def onlyPortHears : System Unit where
  clock := newClock 1 246
  ports := [none, some (newPort 2 (some ((newClock 2 246).becomeGrandmaster.announce 1 0)))]
  timers := []
  nextAddr := 1
  freed := []
  recommended := []

theorem onlyPortHears_placed : onlyPortHears.Placed := by
  intro j p h
  obtain _ | _ | j := j
  · cases h
  · cases h
    rfl
  · cases h

theorem onlyPortHears_decides :
    onlyPortHears.DecidesRight ∧ onlyPortHears.recommendations = [(2, .PTP_MASTER)] := by
  refine ⟨(onlyPortHears.decidesRight_iff onlyPortHears_placed).mpr ?_, by decide⟩
  rintro - p ⟨hmem, -⟩
  simp only [onlyPortHears, mem_cons, reduceCtorEq, not_mem_nil, or_false, false_or] at hmem
  rw [hmem]
  rfl

theorem Station.findEBest_system (s : Station F) :
    findEBest s.system.ports s.system.numberPorts 0 none =
      if s.port.participates then s.port.qualifiedAnnounce else none :=
  System.findEBest_eq rfl Nat.one_pos

theorem Station.processStateChange_eq (s : Station F) (h255 : s.clock.priority1 ≠ 255)
    (hp : s.port.participates = true) (ha : s.port.qualifiedAnnounce = some e) :
    s.processStateChange =
      if s.clock.isBetterThan (some e) then
        (s.setClock (Clock.noteEBest e)).recommendState .PTP_MASTER
          (e.grandmasterIdentity ≠ s.clock.lastEBestIdentity)
      else
        ((s.setClock (Clock.noteEBest e)).recommendState .PTP_SLAVE
          (e.grandmasterIdentity ≠ s.clock.lastEBestIdentity)).setClock (Clock.follow e) := by
  have hbest := s.findEBest_system
  rw [if_pos hp, ha] at hbest
  have hclock : s.system.clock.priority1 ≠ 255 := h255
  have hone : s.system.numberPorts = 1 := rfl
  have hsame := s.clock.isBetterThan_noteEBest e (some e)
  unfold processStateChange System.processStateChange
  rw [if_neg hclock, hbest, hone]
  by_cases hbetter : s.clock.isBetterThan (some e)
  · rw [hbetter] at hsame
    rw [if_pos hbetter]
    dsimp only
    rw [System.recommend_succ_master _ 0 (s := s.system.setClock (Clock.noteEBest e))
      (p := s.port) rfl hp hsame]
    rfl
  · rw [Bool.eq_false_iff.mpr hbetter] at hsame
    rw [if_neg hbetter]
    dsimp only
    rw [System.recommend_succ_slave _ 0 (s := s.system.setClock (Clock.noteEBest e))
      (p := s.port) rfl hp hsame ha]
    rfl

def Station.KeepsItself (s : Station F) : Prop :=
  let t := s.processStateChange
  t.recommended = s.recommended ++ [(s.port.ifindex, .PTP_MASTER)] ∧
    t.port.portState = .PTP_MASTER ∧
    t.clock.grandmasterClockIdentity = s.clock.clockIdentity ∧
    t.clock.grandmasterPriority1 = s.clock.priority1 ∧
    t.clock.grandmasterPriority2 = s.clock.priority2 ∧
    t.clock.grandmasterClockQuality = s.clock.clockQuality

def Station.Adopts (s : Station F) (c : Clock) : Prop :=
  let t := s.processStateChange
  t.recommended = s.recommended ++ [(s.port.ifindex, .PTP_SLAVE)] ∧
    t.port.portState = .PTP_SLAVE ∧
    t.clock.grandmasterClockIdentity = c.clockIdentity ∧
    t.clock.grandmasterPriority1 = c.priority1 ∧
    t.clock.grandmasterPriority2 = c.priority2 ∧
    t.clock.grandmasterClockQuality = c.clockQuality

structure Station.Hears (s : Station F) (c : Clock) : Prop where
  notSlaveOnly : s.clock.priority1 ≠ 255
  participates : s.port.participates = true
  holds : ∃ portNumber addr,
    s.port.qualifiedAnnounce = some (c.becomeGrandmaster.announce portNumber addr)

theorem Clock.isBetterThan_announce (c d : Clock) (n : UInt16) (addr : Nat) :
    c.isBetterThan (some (d.becomeGrandmaster.announce n addr)) =
      decide (memcmp c.priorityVector d.priorityVector < 0) := rfl

theorem Station.keepsItself_of_better {s : Station F} (h : s.Hears c)
    (hbetter : memcmp s.clock.priorityVector c.priorityVector < 0) : s.KeepsItself := by
  obtain ⟨n, addr, ha⟩ := h.holds
  have hclock : s.clock.isBetterThan (some (c.becomeGrandmaster.announce n addr)) = true := by
    rw [Clock.isBetterThan_announce]
    exact decide_eq_true hbetter
  have heq := s.processStateChange_eq h.notSlaveOnly h.participates ha
  rw [if_pos hclock] at heq
  obtain ⟨hsame, -, -, hstate, hrec⟩ := (s.setClock (Clock.noteEBest
    (c.becomeGrandmaster.announce n addr))).recommendState_master
    (decide ((c.becomeGrandmaster.announce n addr).grandmasterIdentity ≠ s.clock.lastEBestIdentity))
  unfold KeepsItself
  rw [heq]
  refine ⟨hrec, hstate, ?_⟩
  rw [hsame, setClock_clock, Clock.noteEBest_of_better hclock]
  exact ⟨rfl, rfl, rfl, rfl⟩

theorem Station.adopts_of_not_better {s : Station F} (h : s.Hears c)
    (hbetter : ¬ memcmp s.clock.priorityVector c.priorityVector < 0) : s.Adopts c := by
  obtain ⟨n, addr, ha⟩ := h.holds
  have hclock : ¬ s.clock.isBetterThan (some (c.becomeGrandmaster.announce n addr)) = true := by
    rw [Clock.isBetterThan_announce, decide_eq_true_eq]
    exact hbetter
  have heq := s.processStateChange_eq h.notSlaveOnly h.participates ha
  rw [if_neg hclock] at heq
  obtain ⟨-, -, -, hstate, hrec⟩ := (s.setClock (Clock.noteEBest
    (c.becomeGrandmaster.announce n addr))).recommendState_slave
    (decide ((c.becomeGrandmaster.announce n addr).grandmasterIdentity ≠ s.clock.lastEBestIdentity))
  unfold Adopts
  rw [heq]
  exact ⟨hrec, hstate, rfl, rfl, rfl, rfl⟩

/-- Two clocks that hear each other agree on which of them is the grandmaster. -/
theorem two_clocks_agree (a b : Station F) (hab : a.Hears b.clock) (hba : b.Hears a.clock)
    (hdistinct : a.clock.clockIdentity ≠ b.clock.clockIdentity) :
    a.KeepsItself ∧ b.Adopts a.clock ∨ b.KeepsItself ∧ a.Adopts b.clock := by
  have hne : a.clock.priorityVector ≠ b.clock.priorityVector := fun h =>
    hdistinct (identity_of_priorityVector h)
  have hlen : a.clock.priorityVector.length = b.clock.priorityVector.length := by
    simp [Clock.priorityVector, length_priorityVector]
  have hswap := memcmp_neg_swap hlen hne
  by_cases h : memcmp a.clock.priorityVector b.clock.priorityVector < 0
  · exact Or.inl ⟨Station.keepsItself_of_better hab h, Station.adopts_of_not_better hba (hswap.mp h)⟩
  · have h' : memcmp b.clock.priorityVector a.clock.priorityVector < 0 := by
      by_contra hno
      exact h (hswap.mpr hno)
    exact Or.inr ⟨Station.keepsItself_of_better hba h', Station.adopts_of_not_better hab h⟩

def hearing (clock other : Clock) : Station Unit where
  clock := clock
  port := newPort 1 (some (other.becomeGrandmaster.announce 1 0))
  timers := []
  nextAddr := 1
  freed := []
  recommended := []

theorem two_new_clocks_agree :
    (hearing (newClock 1 246) (newClock 2 246)).KeepsItself ∧
        (hearing (newClock 2 246) (newClock 1 246)).Adopts (newClock 1 246) ∨
      (hearing (newClock 2 246) (newClock 1 246)).KeepsItself ∧
        (hearing (newClock 1 246) (newClock 2 246)).Adopts (newClock 2 246) :=
  two_clocks_agree (hearing (newClock 1 246) (newClock 2 246))
    (hearing (newClock 2 246) (newClock 1 246))
    ⟨by decide, by decide, 1, 0, rfl⟩ ⟨by decide, by decide, 1, 0, rfl⟩ (by decide)

end Avb4Linux.Gptp
