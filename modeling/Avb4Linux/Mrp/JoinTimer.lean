import Avb4Linux.Mrp.Declarations

/-!
# The join timer and pending transmissions

Every branch of the event functions keeps the join timer running while something is pending, except
the one for the LeaveAll timer.
-/

namespace Avb4Linux.Mrp

open Lib Lib.Runs

variable {V K D C : Type}

def Database.Pending (db : Database V) : Prop :=
  ∃ a ∈ db.attribList, a.applicant.mrpState.pending = true

def Database.Scheduled (db : Database V) : Prop :=
  db.mrpDb.joinTimerRunning = true ∧ db.mrpDb.joinTimer.isSome = true

def Database.AllSent (db : Database V) : Prop :=
  ∀ a ∈ db.attribList, a.applicant.mrpState ≠ .VP ∧ a.applicant.mrpState ≠ .VN

instance (db : Database V) : Decidable db.Pending :=
  inferInstanceAs (Decidable (∃ a ∈ db.attribList, a.applicant.mrpState.pending = true))

instance (db : Database V) : Decidable db.Scheduled :=
  inferInstanceAs (Decidable (_ ∧ _))

structure JoinInv (key : V → K) (db : Database V) : Prop where
  tidy : Tidy key db.attribList
  armed : db.mrpDb.joinTimer.isSome = db.mrpDb.joinTimerRunning
  scheduled : db.Pending → db.Scheduled

variable [DecidableEq K] {key : V → K}

theorem exists_mem_iff_cellAt {l : List (Attrib V)} (ht : Tidy key l) (p : Cell → Prop) :
    (∃ a ∈ l, p a.cell) ↔ ∃ k c, cellAt key l k = some c ∧ p c := by
  constructor
  · rintro ⟨a, ha, hp⟩
    exact ⟨key a.value, a.cell, by rw [cellAt, attribAt_of_mem ht.unique ha]; rfl, hp⟩
  · rintro ⟨k, c, hc, hp⟩
    simp only [cellAt, Option.map_eq_some_iff] at hc
    obtain ⟨a, ha, rfl⟩ := hc
    exact ⟨a, KeyedList.mem_of_get ha, hp⟩

theorem JoinInv.of_less {db db' : Database V} (h : JoinInv key db)
    (ht : Tidy key db'.attribList)
    (hless : ∀ k, (cellAt key db'.attribList k).map Cell.app = none ∨
      (cellAt key db'.attribList k).map Cell.app = (cellAt key db.attribList k).map Cell.app)
    (htimer : db'.mrpDb.joinTimer = db.mrpDb.joinTimer)
    (hrunning : db'.mrpDb.joinTimerRunning = db.mrpDb.joinTimerRunning) : JoinInv key db' := by
  refine ⟨ht, by rw [htimer, hrunning]; exact h.armed, ?_⟩
  intro hp
  obtain ⟨k, c', hc', hp'⟩ := (exists_mem_iff_cellAt ht fun c => c.app.pending = true).mp hp
  have happ : (cellAt key db.attribList k).map Cell.app = some c'.app := by
    grind
  obtain ⟨c, hc, happ⟩ := Option.map_eq_some_iff.mp happ
  have hpend : db.Pending :=
    (exists_mem_iff_cellAt h.tidy fun c => c.app.pending = true).mpr ⟨k, c, hc, by rw [happ]; exact hp'⟩
  unfold Database.Scheduled
  rw [htimer, hrunning]
  exact h.scheduled hpend

theorem applicantNext_txla_pending {s : AppState} {b : Bool}
    (h : (applicantNext s .TXLA b).pending = true) : s = .VP ∨ s = .VN := by
  cases s <;> cases b <;> first | exact absurd h (by decide) | decide

theorem applicantNext_txla_of_unsent {s : AppState} (b : Bool) (h : s = .VP ∨ s = .VN) :
    (applicantNext s .TXLA b).pending = true := by
  rcases h with rfl | rfl <;> rfl

section

variable {reclaims : Bool} {now : Nat} {event : Event} {scope : K → Bool} {forced : Bool}
  {db db' : Database V} {notes : List (Note V)}

theorem EventSpec.joinInv (h : EventSpec key reclaims now event scope forced db db' notes)
    (hlva : event = .LVATIMER → (∀ k, scope k = true) ∧ db.AllSent) (inv : JoinInv key db) :
    JoinInv key db' := by
  cases h.join with
  | stopped hev timer running =>
    refine ⟨h.tidy, by rw [timer, running]; rfl, ?_⟩
    intro hp
    rcases hev with rfl | ⟨rfl, hnone⟩
    · -- only an applicant found in VP or VN can be pending now
      obtain ⟨hscope, hsent⟩ := hlva rfl
      obtain ⟨k, c', hc', hp'⟩ :=
        (exists_mem_iff_cellAt h.tidy fun c => c.app.pending = true).mp hp
      rw [h.cell, if_pos (hscope k)] at hc'
      obtain ⟨c, hc, rfl⟩ := Option.map_eq_some_iff.mp hc'
      obtain ⟨a, ha, hva⟩ := (exists_mem_iff_cellAt inv.tidy fun c => c.app = .VP ∨ c.app = .VN).mpr
        ⟨k, c, hc, applicantNext_txla_pending hp'⟩
      rcases hva with hva | hva
      · exact absurd hva (hsent a ha).1
      · exact absurd hva (hsent a ha).2
    · obtain ⟨a, ha, hpa⟩ := hp
      exact absurd hpa (by simp [hnone a ha])
  | restarted hev timer running =>
    exact ⟨h.tidy, by rw [timer, running]; rfl, fun _ => ⟨running, by rw [timer]; rfl⟩⟩
  | started hev timer running =>
    have hsome : db'.mrpDb.joinTimer.isSome = true := by
      grind [mrpJointimerStart, JoinInv.armed]
    exact ⟨h.tidy, by rw [hsome, running], fun _ => ⟨running, hsome⟩⟩
  | kept hev apps timer running => exact inv.of_less h.tidy apps timer running

theorem EventSpec.allSent_of_scheduled
    (h : EventSpec key reclaims now .LVATIMER scope forced db db' notes)
    (hscope : ∀ k, scope k = true) (ht : Tidy key db.attribList)
    (hgood : db'.Pending → db'.Scheduled) : db.AllSent := by
  have hstopped : db'.mrpDb.joinTimerRunning = false := by
    cases h.join with
    | stopped hev timer running => exact running
    | restarted hev timer running => exact absurd hev (by decide)
    | started hev timer running => exact absurd rfl hev.1
    | kept hev apps timer running => exact absurd rfl hev.1
  by_contra hne
  simp only [Database.AllSent, not_forall] at hne
  obtain ⟨a, ha, hva⟩ := hne
  have hva' : a.cell.app = .VP ∨ a.cell.app = .VN := by
    by_cases hvp : a.cell.app = .VP
    · exact Or.inl hvp
    · exact Or.inr (not_not.mp fun hvn => hva ⟨hvp, hvn⟩)
  have hcell : cellAt key db.attribList (key a.value) = some a.cell := by
    rw [cellAt, attribAt_of_mem ht.unique ha]
    rfl
  have hpend : db'.Pending := by
    let c : Cell := ⟨applicantNext a.cell.app .TXLA (a.cell.reg = .IN), (regStep a.cell.reg .TXLA).1⟩
    have hc : cellAt key db'.attribList (key a.value) = some c := by
      rw [h.cell, if_pos (hscope _), hcell]
      rfl
    exact (exists_mem_iff_cellAt h.tidy fun c => c.app.pending = true).mpr
      ⟨key a.value, c, hc, applicantNext_txla_of_unsent _ hva'⟩
  exact absurd (hstopped.symm.trans (hgood hpend).1) (by decide)

end

variable {P : Participant V K D C}

theorem Pruned.joinInv {prunes : Bool} {db db' : Database V} (h : Pruned key prunes db db')
    (inv : JoinInv key db) : JoinInv key db' := by
  refine inv.of_less h.tidy ?_ h.joinTimer h.joinTimerRunning
  intro k
  rcases h.cells k with heq | ⟨-, hnone⟩
  all_goals grind

theorem Collected.joinInv {db db' : Database V} {notes : List (Note V)}
    (h : Collected key db db' notes) (inv : JoinInv key db) : JoinInv key db' := by
  refine inv.of_less h.tidy ?_ (by rw [h.mrpDb]) (by rw [h.mrpDb])
  intro k
  have hk := congrArg Prod.fst (h.cells k)
  simp only at hk
  rw [hk]
  cases cellAt key db.attribList k with
  | none => exact Or.inl rfl
  | some c =>
    grind [settle]

def Participant.LeaveAllFindsSent (P : Participant V K D C) (d : D) (i : Input V C) : Prop :=
  i.act = .timer .leaveAll → (P.base d).AllSent

theorem Participant.Lawful.step_joinInv (hP : P.Lawful) (d : D) (i : Input V C)
    (hok : P.LeaveAllFindsSent d i) (inv : JoinInv P.key (P.base d)) :
    JoinInv P.key (P.base (P.step d i)) := by
  cases hP.act_spec i.env d i.act inv.tidy with
  | called c hc db spec pruned spared =>
    refine pruned.joinInv (spec.joinInv ?_ inv)
    intro hev
    obtain ⟨hact, hscope⟩ := hP.call_timer (t := .leaveAll) hc hev
    exact ⟨hscope, hok hact⟩
  | collected hact spec => exact spec.joinInv inv
  | idle hact hc pruned hn => exact pruned.joinInv inv

theorem Participant.Lawful.leaveAllFindsSent (hP : P.Lawful) (d : D) (i : Input V C)
    (inv : JoinInv P.key (P.base d))
    (hgood : (P.base (P.step d i)).Pending → (P.base (P.step d i)).Scheduled) :
    P.LeaveAllFindsSent d i := by
  obtain ⟨env, act⟩ := i
  intro hact
  have hact : act = .timer .leaveAll := hact
  subst hact
  cases hP.act_spec env d (.timer .leaveAll) inv.tidy with
  | called c hc db spec pruned spared =>
    obtain rfl := Option.some.inj hc
    have hcells := pruned_cells (Bool.and_false _) pruned
    refine spec.allSent_of_scheduled (fun _ => rfl) inv.tidy ?_
    intro hp
    obtain ⟨k, c, hc, hpc⟩ := (exists_mem_iff_cellAt spec.tidy fun c => c.app.pending = true).mp hp
    have hpend : (P.base (P.step d ⟨env, .timer .leaveAll⟩)).Pending :=
      (exists_mem_iff_cellAt pruned.tidy fun c => c.app.pending = true).mpr
        ⟨k, c, (hcells k).trans hc, hpc⟩
    obtain ⟨hrunning, harmed⟩ := hgood hpend
    exact ⟨pruned.joinTimerRunning.symm.trans hrunning, by rw [← pruned.joinTimer]; exact harmed⟩
  | collected hact spec => exact absurd hact (by simp)
  | idle hact hc pruned hn => exact absurd hc (by simp [Participant.call])

theorem Participant.Lawful.initial_joinInv (hP : P.Lawful) {d : D} (h : P.initial d) :
    JoinInv P.key (P.base d) := by
  obtain ⟨htimer, hrunning, -⟩ := hP.initial_timers d h
  refine ⟨hP.initial_tidy h, by rw [htimer, hrunning]; rfl, ?_⟩
  rintro ⟨a, ha, -⟩
  rw [hP.initial_attribs d h] at ha
  exact absurd ha (by simp)

def Participant.SchedulesIff (P : Participant V K D C) (d : D) (is : List (Input V C)) : Prop :=
  (∀ js, js <+: is → (P.base (run P.step d js)).Pending → (P.base (run P.step d js)).Scheduled) ↔
    Along P.step P.LeaveAllFindsSent d is

theorem Participant.Lawful.schedulesIff (hP : P.Lawful) {d : D} (hd : P.initial d)
    (is : List (Input V C)) : P.SchedulesIff d is :=
  prefixes_good_iff (fun d => JoinInv P.key (P.base d))
    (fun d => (P.base d).Pending → (P.base d).Scheduled) (fun _ inv => inv.scheduled)
    hP.step_joinInv (fun d i inv hgood => hP.leaveAllFindsSent d i inv hgood) d is
    (hP.initial_joinInv hd)

theorem mvrp_leaveAll_unscheduled :
    let d := run mvrp.step (mvrpInit { now := 0 })
      [⟨{ now := msec 9950 }, .cmd (.join 5) ⟨0, 0⟩⟩, ⟨{ now := msec 10000 }, .timer .leaveAll⟩]
    (cellAt mvrp.key d.attribList 5).map Cell.app = some .AA ∧ d.Pending ∧ ¬ d.Scheduled := by
  decide

theorem participants_schedulesIff (env : Env) (maxInteresting : Nat) (enablePruning : Bool)
    (vs : List (Input Vid (Cmd Vid))) (ms : List (Input MmrpValue (Cmd MmrpValue)))
    (ss : List (Input MsrpValue MsrpCmd)) :
    mvrp.SchedulesIff (mvrpInit env) vs ∧ mmrp.SchedulesIff (mmrpInit env) ms ∧
      msrp.SchedulesIff (msrpInit env maxInteresting enablePruning) ss :=
  ⟨mvrp_lawful.schedulesIff ⟨env, rfl⟩ vs, mmrp_lawful.schedulesIff ⟨env, rfl⟩ ms,
    msrp_lawful.schedulesIff ⟨env, maxInteresting, enablePruning, rfl⟩ ss⟩

end Avb4Linux.Mrp
