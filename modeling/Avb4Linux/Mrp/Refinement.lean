import Avb4Linux.Mrp.Cells

/-!
# The branches meet their specification

Each branch of an event function, run on a tidy database and followed by the
notification scan, meets `EventSpec`.
-/

namespace Avb4Linux.Mrp

open Lib List

variable {V K : Type} {key : V → K}

@[simp]
theorem registrarNext_mrpState (r : Registrar) (event : Event) :
    (registrarNext r event).mrpState = (regStep r.mrpState event).1 := by
  unfold registrarNext regStep
  cases registrarSwitch r.mrpState event <;> rfl

theorem registrarNext_notify {r : Registrar} (event : Event) (h : r.notify = .NONE) :
    (registrarNext r event).notify = (regStep r.mrpState event).2 := by
  unfold registrarNext regStep
  cases registrarSwitch r.mrpState event <;> simp [h]

theorem fsmAttrib_cell (a : Attrib V) (event : Event) :
    (fsmAttrib a event).cell =
      ⟨applicantNext a.cell.app event (a.cell.reg = .IN), (regStep a.cell.reg event).1⟩ :=
  congrArg₂ Cell.mk (mrpApplicantFsm_mrpState _ _ _) (registrarNext_mrpState _ _)

@[simp]
theorem lvtimerAttrib_cell (a : Attrib V) :
    (lvtimerAttrib a).cell = ⟨a.cell.app, (regStep a.cell.reg .LVTIMER).1⟩ := by
  simp [Attrib.cell, lvtimerAttrib]

theorem reclaimable_eq_cell (a : Attrib V) : reclaimable a = a.cell.reclaimable := rfl

variable {f : Attrib V → Attrib V} {l l' : List (Attrib V)} {db db' : Database V} {a : Attrib V}
  {now : Nat} {txpdu : Database V → Database V × Option Frame}

theorem unique_map_value (hf : ∀ a, (f a).value = a.value)
    (hu : KeyedList.Unique (fun a : Attrib V => key a.value) l) :
    KeyedList.Unique (fun a : Attrib V => key a.value) (l.map f) := by
  refine KeyedList.unique_map ?_ hu
  intro a
  exact congrArg key (hf a)

theorem unique_congr_tx (h : l'.map Attrib.clearTx = l.map Attrib.clearTx)
    (hu : KeyedList.Unique (fun a : Attrib V => key a.value) l) :
    KeyedList.Unique (fun a : Attrib V => key a.value) l' := by
  have hkeys : ∀ m : List (Attrib V),
      (m.map Attrib.clearTx).map (fun a => key a.value) = m.map fun a => key a.value := by
    intro m
    rw [map_map]
    rfl
  unfold KeyedList.Unique at *
  rw [← hkeys l', h, hkeys l]
  exact hu

theorem quiet_congr_tx (h : l'.map Attrib.clearTx = l.map Attrib.clearTx)
    (hq : ∀ a ∈ l, a.registrar.notify = .NONE) : ∀ a ∈ l', a.registrar.notify = .NONE := by
  intro a ha
  have hmem : a.clearTx ∈ l.map Attrib.clearTx := h ▸ mem_map_of_mem ha
  obtain ⟨b, hb, hba⟩ := mem_map.mp hmem
  have : a.registrar = b.registrar := (congrArg Attrib.registrar hba).symm
  rw [this]
  exact hq b hb

theorem scanNotify_attribList (db : Database V) (pdu : Option Frame) (notes : List (Note V)) :
    (scanNotify db pdu notes).1.attribList = db.attribList.map Attrib.clearNotify := by
  simp [scanNotify, notifyAll_eq]

theorem scanNotify_tidy (pdu : Option Frame) (notes : List (Note V))
    (hu : KeyedList.Unique (fun a : Attrib V => key a.value) db.attribList) :
    Tidy key (scanNotify db pdu notes).1.attribList := by
  rw [scanNotify_attribList]
  constructor
  · exact unique_map_value (f := Attrib.clearNotify) (fun _ => rfl) hu
  · intro a ha
    obtain ⟨b, -, rfl⟩ := mem_map.mp ha
    rfl

variable [DecidableEq K]

theorem attribAt_map (hf : ∀ a, (f a).value = a.value) (l : List (Attrib V)) (k : K) :
    attribAt key (l.map f) k = (attribAt key l k).map f := by
  apply KeyedList.get_map
  intro a
  exact congrArg key (hf a)

theorem cellAt_map (hf : ∀ a, (f a).value = a.value) (l : List (Attrib V)) (k : K) :
    cellAt key (l.map f) k = (attribAt key l k).map fun a => (f a).cell := by
  unfold cellAt
  rw [attribAt_map hf, Option.map_map]
  rfl

theorem cellAt_congr_tx (h : l'.map Attrib.clearTx = l.map Attrib.clearTx) (k : K) :
    cellAt key l' k = cellAt key l k := by
  have hclear : ∀ m : List (Attrib V),
      cellAt key (m.map Attrib.clearTx) k = cellAt key m k := fun m =>
    cellAt_map (f := Attrib.clearTx) (fun _ => rfl) m k
  rw [← hclear l', h, hclear l]

theorem attribAt_of_mem (hu : KeyedList.Unique (fun a : Attrib V => key a.value) l) (ha : a ∈ l) :
    attribAt key l (key a.value) = some a :=
  KeyedList.get_of_mem hu ha

theorem notesAbout_append (k : K) (ns ms : List (Note V)) :
    notesAbout key k (ns ++ ms) = notesAbout key k ns ++ notesAbout key k ms := by
  simp [notesAbout]

theorem notesAbout_select (hu : KeyedList.Unique (fun a : Attrib V => key a.value) l)
    (p : Attrib V → Bool) (f : Attrib V → Notify) (k : K) :
    notesAbout key k ((l.filter p).map fun a => ⟨f a, a⟩) =
      ((attribAt key l k).toList.filter p).map f := by
  unfold notesAbout attribAt
  rw [← KeyedList.filter_key hu k, filter_map, map_map, filter_filter,
    filter_filter]
  congr 1
  apply filter_congr
  intro a _
  simp [Bool.and_comm]

def pendingNotes (a : Option (Attrib V)) : List Notify :=
  a.elim [] fun a => if a.registrar.notify = .NONE then [] else [a.registrar.notify]

theorem pendingNotes_quiet (hq : ∀ a ∈ l, a.registrar.notify = .NONE) (k : K) :
    pendingNotes (attribAt key l k) = [] := by
  unfold pendingNotes
  cases h : attribAt key l k with
  | none => rfl
  | some a => simp [hq a (KeyedList.mem_of_get h)]

@[simp]
theorem scanNotify_cellAt (db : Database V) (pdu : Option Frame) (notes : List (Note V))
    (k : K) : cellAt key (scanNotify db pdu notes).1.attribList k = cellAt key db.attribList k := by
  rw [scanNotify_attribList]
  exact cellAt_map (f := Attrib.clearNotify) (fun _ => rfl) db.attribList k

theorem scanNotify_notes (pdu : Option Frame) (notes : List (Note V))
    (hu : KeyedList.Unique (fun a : Attrib V => key a.value) db.attribList) (k : K) :
    notesAbout key k (scanNotify db pdu notes).2.notes =
      notesAbout key k notes ++ pendingNotes (attribAt key db.attribList k) := by
  have hscan : (scanNotify db pdu notes).2.notes = notes ++
      (db.attribList.filter fun a => a.registrar.notify ≠ .NONE).map
        fun a => ⟨a.registrar.notify, a⟩ := by
    simp [scanNotify, notifyAll_eq]
  rw [hscan, notesAbout_append, notesAbout_select hu]
  congr 1
  unfold pendingNotes
  cases attribAt key db.attribList k with
  | none => rfl
  | some a => by_cases hn : a.registrar.notify = .NONE <;> simp [hn]

theorem eventSpec_of_scan {reclaims : Bool} {event : Event} {scope : K → Bool} {forced : Bool}
    (pdu : Option Frame) {notes : List (Note V)}
    (hu : KeyedList.Unique (fun a : Attrib V => key a.value) db'.attribList)
    (cells : ∀ k, (cellAt key db'.attribList k,
        notesAbout key k notes ++ pendingNotes (attribAt key db'.attribList k)) =
      if scope k then cellStep reclaims event forced (cellAt key db.attribList k)
      else (cellAt key db.attribList k, [])) (join : JoinSpec key now event db db')
    (leave : LeaveSpec key now event db db') :
    EventSpec key reclaims now event scope forced db (scanNotify db' pdu notes).1
      (scanNotify db' pdu notes).2.notes where
  tidy := scanNotify_tidy pdu notes hu
  cells k := by
    rw [scanNotify_cellAt, scanNotify_notes pdu notes hu]
    exact cells k
  join := by
    cases join with
    | stopped h timer running =>
      refine .stopped ?_ timer running
      rcases h with h | ⟨h, hp⟩
      · exact Or.inl h
      · refine Or.inr ⟨h, ?_⟩
        rw [scanNotify_attribList]
        intro a ha
        obtain ⟨b, hb, rfl⟩ := mem_map.mp ha
        exact hp b hb
    | restarted h timer running => exact .restarted h timer running
    | started h timer running => exact .started h timer running
    | kept h apps timer running =>
      refine .kept h ?_ timer running
      intro k
      rw [scanNotify_cellAt]
      exact apps k
  leave := by
    have hiff : ∀ k, EntersLv key db (scanNotify db' pdu notes).1 k ↔ EntersLv key db db' k := by
      intro k
      unfold EntersLv
      rw [scanNotify_cellAt]
    cases leave with
    | started h timer running =>
      obtain ⟨k, hk⟩ := h
      exact .started ⟨k, (hiff k).mpr hk⟩ timer running
    | kept h timer running => exact .kept (fun k hk => h k ((hiff k).mp hk)) timer running

theorem mrpLvatimerFsm_frame (now : Nat) (rnd : Nat) (m : MrpDatabase) (e : Event) :
    ∃ lva timer running, mrpLvatimerFsm now rnd m e =
      { m with lva := lva, lvaTimer := timer, lvaTimerRunning := running } := by
  unfold mrpLvatimerFsm
  split
  · exact ⟨_, _, _, rfl⟩
  · split <;> exact ⟨_, _, _, rfl⟩
  · exact ⟨_, _, _, rfl⟩
  · exact ⟨_, _, _, rfl⟩
  · exact ⟨_, _, _, rfl⟩

@[simp]
theorem mrpLvatimerFsm_joinTimer (now : Nat) (rnd : Nat) (m : MrpDatabase) (e : Event) :
    (mrpLvatimerFsm now rnd m e).joinTimer = m.joinTimer := by
  obtain ⟨lva, timer, running, h⟩ := mrpLvatimerFsm_frame now rnd m e
  rw [h]

@[simp]
theorem mrpLvatimerFsm_joinTimerRunning (now : Nat) (rnd : Nat) (m : MrpDatabase) (e : Event) :
    (mrpLvatimerFsm now rnd m e).joinTimerRunning = m.joinTimerRunning := by
  obtain ⟨lva, timer, running, h⟩ := mrpLvatimerFsm_frame now rnd m e
  rw [h]

@[simp]
theorem mrpLvatimerFsm_lvTimer (now : Nat) (rnd : Nat) (m : MrpDatabase) (e : Event) :
    (mrpLvatimerFsm now rnd m e).lvTimer = m.lvTimer := by
  obtain ⟨lva, timer, running, h⟩ := mrpLvatimerFsm_frame now rnd m e
  rw [h]

@[simp]
theorem mrpLvatimerFsm_lvTimerRunning (now : Nat) (rnd : Nat) (m : MrpDatabase) (e : Event) :
    (mrpLvatimerFsm now rnd m e).lvTimerRunning = m.lvTimerRunning := by
  obtain ⟨lva, timer, running, h⟩ := mrpLvatimerFsm_frame now rnd m e
  rw [h]

theorem regStep_eq_lv {r : RegState} {event : Event} (hs : startsLvtimer event = true) :
    (regStep r event).1 = .LV ↔ r = .IN ∨ r = .LV := by
  cases event <;> first | exact absurd hs (by decide) | cases r <;> decide

theorem regStep_notify_leaveAll (r : RegState) {event : Event}
    (h : event = .TXLA ∨ event = .RLA) : (regStep r event).2 = .NONE := by
  rcases h with rfl | rfl <;> rfl

theorem startsLeave_iff (hu : KeyedList.Unique (fun a : Attrib V => key a.value) l)
    {event : Event} (hs : startsLvtimer event = true) (sel : V → Bool) :
    startsLeave event sel l = true ↔
      ∃ k, (cellAt key l k).map Cell.reg = some .IN ∧
        (cellAt key (l.map fun a => if sel a.value then fsmAttrib a event else a) k).map Cell.reg =
          some .LV := by
  have hval : ∀ a : Attrib V, (if sel a.value then fsmAttrib a event else a).value = a.value := by
    intro a
    split <;> rfl
  simp only [startsLeave, hs, Bool.true_and, any_eq_true, Bool.and_eq_true]
  constructor
  · rintro ⟨a, ha, hsel, hin⟩
    refine ⟨key a.value, ?_⟩
    have hreg : a.registrar.mrpState = .IN := of_decide_eq_true hin
    rw [cellAt_map hval]
    unfold cellAt
    rw [attribAt_of_mem hu ha]
    have hlv : (fsmAttrib a event).cell.reg = .LV := by
      rw [fsmAttrib_cell]
      exact (regStep_eq_lv hs).mpr (Or.inl hreg)
    exact ⟨congrArg some hreg, by simp [hsel, hlv]⟩
  · rintro ⟨k, hin, hlv⟩
    rw [cellAt_map hval] at hlv
    unfold cellAt at hin
    cases hat : attribAt key l k with
    | none => simp [hat] at hin
    | some a =>
      simp only [hat, Option.map_some, Option.some.injEq] at hin hlv
      refine ⟨a, KeyedList.mem_of_get hat, ?_, decide_eq_true hin⟩
      grind

theorem leaveSpec_of_fsmAll {event e : Event}
    (hu : KeyedList.Unique (fun a : Attrib V => key a.value) db.attribList)
    (hs : startsLvtimer e = true) (sel : V → Bool) (hev : event ≠ .LVTIMER)
    (hcell : ∀ k, cellAt key db'.attribList k =
      cellAt key (db.attribList.map fun a => if sel a.value then fsmAttrib a e else a) k)
    (timer : db'.mrpDb.lvTimer =
      if startsLeave e sel db.attribList then some (now + lvTimerVal) else db.mrpDb.lvTimer)
    (running : db'.mrpDb.lvTimerRunning =
      if startsLeave e sel db.attribList then true else db.mrpDb.lvTimerRunning) :
    LeaveSpec key now event db db' := by
  have hiff := startsLeave_iff hu hs sel
  simp only [← hcell] at hiff
  by_cases h : startsLeave e sel db.attribList = true
  · rw [if_pos h] at timer running
    exact .started (hiff.mp h) timer running
  · rw [if_neg h] at timer running
    refine .kept (fun k hk => h (hiff.mpr ⟨k, hk⟩)) ?_ ?_
    · rw [if_neg hev, timer]
    · rw [if_neg hev, running]

theorem leaveSpec_of_regs {event : Event} (hev : event ≠ .LVTIMER)
    (hregs : ∀ k, (cellAt key db'.attribList k).map Cell.reg =
      (cellAt key db.attribList k).map Cell.reg) (timer : db'.mrpDb.lvTimer = db.mrpDb.lvTimer)
    (running : db'.mrpDb.lvTimerRunning = db.mrpDb.lvTimerRunning) :
    LeaveSpec key now event db db' := by
  refine .kept ?_ (by rw [if_neg hev, timer]) (by rw [if_neg hev, running])
  rintro k ⟨hin, hlv⟩
  grind

theorem TxOnly.timers (h : TxOnly txpdu) (db : Database V) :
    (txpdu db).1.mrpDb.joinTimer = db.mrpDb.joinTimer ∧
      (txpdu db).1.mrpDb.joinTimerRunning = db.mrpDb.joinTimerRunning ∧
      (txpdu db).1.mrpDb.lvTimer = db.mrpDb.lvTimer ∧
      (txpdu db).1.mrpDb.lvTimerRunning = db.mrpDb.lvTimerRunning := by
  rw [(h db).1]
  exact ⟨rfl, rfl, rfl, rfl⟩

theorem fsmAttrib_quiet (hq : a.registrar.notify = .NONE) {event : Event}
    (h : event = .TXLA ∨ event = .RLA) : (fsmAttrib a event).registrar.notify = .NONE := by
  change (registrarNext a.registrar event).notify = .NONE
  rw [registrarNext_notify event hq]
  exact regStep_notify_leaveAll _ h

theorem lvatimerBranch_spec (htx : TxOnly txpdu) (env : Env) (reclaims : Bool)
    (ht : Tidy key db.attribList) : let r := lvatimerBranch env txpdu db
    EventSpec key reclaims env.now .LVATIMER (fun _ => true) false db
      (scanNotify r.1 r.2 []).1 (scanNotify r.1 r.2 []).2.notes := by
  intro r
  let m := mrpJointimerStop (mrpLvatimerStop db.mrpDb)
  let m1 := if startsLeave .TXLA (fun _ => true) db.attribList then mrpLvtimerStart env.now m else m
  let m2 := mrpLvatimerFsm env.now env.rnd (mrpLvatimerFsm env.now env.rnd m1 .LVATIMER) .TX
  let l := db.attribList.map fun a => fsmAttrib a .TXLA
  have hr : r = txpdu ⟨m2, l⟩ := by
    simp only [r, lvatimerBranch, fsmAll_eq, if_true, m2, m1, l, m]
  obtain ⟨hj, hjr, hl, hlr⟩ := htx.timers ⟨m2, l⟩
  have hlist : r.1.attribList.map Attrib.clearTx = l.map Attrib.clearTx := hr ▸ (htx ⟨m2, l⟩).2
  have hul : KeyedList.Unique (fun a : Attrib V => key a.value) l :=
    unique_map_value (f := fun a => fsmAttrib a .TXLA) (fun _ => rfl) ht.unique
  have hql : ∀ a ∈ l, a.registrar.notify = .NONE := by
    intro a ha
    obtain ⟨b, hb, rfl⟩ := mem_map.mp ha
    exact fsmAttrib_quiet (ht.quiet b hb) (Or.inl rfl)
  have hcell : ∀ k, cellAt key r.1.attribList k = cellAt key l k := cellAt_congr_tx hlist
  apply eventSpec_of_scan
  · exact unique_congr_tx hlist hul
  · intro k
    rw [pendingNotes_quiet (quiet_congr_tx hlist hql), hcell,
      cellAt_map (f := fun a => fsmAttrib a .TXLA) (fun _ => rfl)]
    simp only [fsmAttrib_cell, cellStep, if_true, cellAt, Option.map_map]
    rfl
  · refine .stopped (Or.inl rfl) ?_ ?_
    · rw [hr, hj]
      simp only [m2, mrpLvatimerFsm_joinTimer, m1]
      split <;> rfl
    · rw [hr, hjr]
      simp only [m2, mrpLvatimerFsm_joinTimerRunning, m1]
      split <;> rfl
  · refine leaveSpec_of_fsmAll ht.unique (show startsLvtimer .TXLA = true from rfl)
      (fun _ => true) (by decide) ?_ ?_ ?_
    · intro k
      simp only [if_true]
      exact hcell k
    · rw [hr, hl]
      simp only [m2, mrpLvatimerFsm_lvTimer, m1]
      split <;> rfl
    · rw [hr, hlr]
      simp only [m2, mrpLvatimerFsm_lvTimerRunning, m1]
      split <;> rfl

def keysWith (key : V → K) (sel : V → Bool) (l : List (Attrib V)) (k : K) : Bool :=
  (attribAt key l k).any fun a => sel a.value

theorem rlaBranch_spec (env : Env) (reclaims : Bool) (sel : V → Bool)
    (ht : Tidy key db.attribList) :
    EventSpec key reclaims env.now .RLA (keysWith key sel db.attribList) false db
      (scanNotify (rlaBranch env sel db) none []).1
      (scanNotify (rlaBranch env sel db) none []).2.notes := by
  let f : Attrib V → Attrib V := fun a => if sel a.value then fsmAttrib a .RLA else a
  let m := mrpJointimerStart env.now db.mrpDb
  let m1 := if startsLeave .RLA sel db.attribList then mrpLvtimerStart env.now m else m
  have hr : rlaBranch env sel db =
      ⟨mrpLvatimerFsm env.now env.rnd m1 .RLA, db.attribList.map f⟩ := by
    simp only [rlaBranch, fsmAll_eq, m1, m, f]
  have hval : ∀ a, (f a).value = a.value := by
    intro a
    simp only [f]
    split <;> rfl
  have hquiet : ∀ a ∈ db.attribList.map f, a.registrar.notify = .NONE := by
    intro a ha
    obtain ⟨b, hb, rfl⟩ := mem_map.mp ha
    simp only [f]
    split
    · exact fsmAttrib_quiet (ht.quiet b hb) (Or.inr rfl)
    · exact ht.quiet b hb
  rw [hr]
  apply eventSpec_of_scan
  · exact unique_map_value hval ht.unique
  · intro k
    rw [pendingNotes_quiet hquiet, cellAt_map hval]
    unfold keysWith cellAt
    cases attribAt key db.attribList k with
    | none => rfl
    | some a =>
      by_cases hsel : sel a.value = true
      · simp only [Option.any_some, hsel, if_true, Option.map_some, f, fsmAttrib_cell, cellStep]
        rfl
      · simp [hsel, f, notesAbout]
  · refine .started (by decide) ?_ ?_
    · simp only [mrpLvatimerFsm_joinTimer, m1]
      split <;> rfl
    · simp only [mrpLvatimerFsm_joinTimerRunning, m1]
      split <;> rfl
  · refine leaveSpec_of_fsmAll ht.unique (show startsLvtimer .RLA = true from rfl) sel
      (by decide) (fun _ => rfl) ?_ ?_
    · simp only [mrpLvatimerFsm_lvTimer, m1]
      split <;> rfl
    · simp only [mrpLvatimerFsm_lvTimerRunning, m1]
      split <;> rfl

theorem applicantNext_tx_pending {s : AppState} {b : Bool}
    (h : (applicantNext s .TX b).pending = true) : applicantNext s .TX b ≠ s := by
  cases s <;> cases b <;> revert h <;> decide

def applicantAttrib (event : Event) (a : Attrib V) : Attrib V :=
  { a with applicant := mrpApplicantFsm a.applicant event (mrpRegistrarIn a.registrar) }

theorem applicantAttrib_cell (event : Event) (a : Attrib V) :
    (applicantAttrib event a).cell =
      ⟨applicantNext a.cell.app event (a.cell.reg = .IN), a.cell.reg⟩ :=
  congrArg₂ Cell.mk (mrpApplicantFsm_mrpState _ _ _) rfl

theorem applicantAttrib_tx_implies (h : (applicantAttrib .TX a).applicant.mrpState.pending = true) :
    mrpApplicantStateTransitionImpliesTx (applicantAttrib .TX a).applicant = true := by
  have hstate : (applicantAttrib .TX a).applicant.mrpState =
      applicantNext a.applicant.mrpState .TX (mrpRegistrarIn a.registrar) :=
    mrpApplicantFsm_mrpState _ _ _
  have hprev : (applicantAttrib .TX a).applicant.mrpPreviousState = some a.applicant.mrpState := by
    simp only [applicantAttrib, mrpApplicantFsm]
    cases a.applicant.mrpState <;> rfl
  have hne : (applicantAttrib .TX a).applicant.mrpPreviousState ≠
      some (applicantAttrib .TX a).applicant.mrpState := by
    grind [applicantNext_tx_pending, Option.some.inj]
  unfold mrpApplicantStateTransitionImpliesTx
  rw [if_neg hne]
  revert h
  cases (applicantAttrib .TX a).applicant.mrpState <;> decide

theorem txBranch_spec (htx : TxOnly txpdu) (env : Env) (reclaims : Bool)
    (ht : Tidy key db.attribList) : let r := txBranch env txpdu db
    EventSpec key reclaims env.now .TX (fun _ => true) false db
      (scanNotify r.1 r.2 []).1 (scanNotify r.1 r.2 []).2.notes := by
  intro r
  let l := db.attribList.map (applicantAttrib .TX)
  let x := txpdu ⟨mrpJointimerStop db.mrpDb, l⟩
  let count := l.countP fun a => mrpApplicantStateTransitionImpliesTx a.applicant
  have hr : r = if count = 0 then x
      else ({ x.1 with mrpDb := mrpJointimerStart env.now x.1.mrpDb }, x.2) := rfl
  obtain ⟨hj, hjr, hl, hlr⟩ := htx.timers ⟨mrpJointimerStop db.mrpDb, l⟩
  have hrl : r.1.attribList = x.1.attribList := by
    rw [hr]
    split <;> rfl
  have hlist : r.1.attribList.map Attrib.clearTx = l.map Attrib.clearTx :=
    hrl ▸ (htx ⟨mrpJointimerStop db.mrpDb, l⟩).2
  have hql : ∀ a ∈ l, a.registrar.notify = .NONE := by
    intro a ha
    obtain ⟨b, hb, rfl⟩ := mem_map.mp ha
    exact ht.quiet b hb
  have hcell : ∀ k, cellAt key r.1.attribList k = (cellAt key db.attribList k).map fun c =>
      ⟨applicantNext c.app .TX (c.reg = .IN), c.reg⟩ := by
    intro k
    rw [cellAt_congr_tx hlist, cellAt_map (f := applicantAttrib .TX) (fun _ => rfl)]
    simp only [applicantAttrib_cell, cellAt, Option.map_map]
    rfl
  apply eventSpec_of_scan
  · exact unique_congr_tx hlist
      (unique_map_value (f := applicantAttrib .TX) (fun _ => rfl) ht.unique)
  · intro k
    rw [pendingNotes_quiet (quiet_congr_tx hlist hql), hcell]
    rfl
  · by_cases hcount : count = 0
    · rw [if_pos hcount] at hr
      refine .stopped (Or.inr ⟨rfl, ?_⟩) (by rw [hr, hj]; rfl) (by rw [hr, hjr]; rfl)
      -- nothing that needs another opportunity was counted, so nothing is pending
      intro a ha
      have hmem : a.clearTx ∈ l.map Attrib.clearTx := hlist ▸ mem_map_of_mem ha
      obtain ⟨b, hb, hba⟩ := mem_map.mp hmem
      have hstate : a.applicant.mrpState = b.applicant.mrpState :=
        (congrArg (fun x : Attrib V => x.applicant.mrpState) hba).symm
      grind [applicantAttrib_tx_implies]
    · rw [if_neg hcount] at hr
      refine .restarted rfl ?_ (by rw [hr]; rfl)
      rw [hr]
      change (if x.1.mrpDb.joinTimerRunning then x.1.mrpDb.joinTimer
        else some (env.now + joinTimerVal)) = _
      rw [hjr]
      rfl
  · refine leaveSpec_of_regs (by decide) ?_ ?_ ?_
    · intro k
      rw [hcell, Option.map_map]
      rfl
    · rw [hr]
      split <;> exact hl
    · rw [hr]
      split <;> exact hlr

theorem periodicBranch_spec (env : Env) (reclaims : Bool) (ht : Tidy key db.attribList) :
    EventSpec key reclaims env.now .PERIODIC (fun _ => true) false db
      (scanNotify (periodicBranch env db) none []).1
      (scanNotify (periodicBranch env db) none []).2.notes := by
  have hl : (periodicBranch env db).attribList =
      db.attribList.map (applicantAttrib .PERIODIC) := rfl
  have hcell : ∀ k, cellAt key (periodicBranch env db).attribList k =
      (cellAt key db.attribList k).map fun c =>
        ⟨applicantNext c.app .PERIODIC (c.reg = .IN), c.reg⟩ := by
    intro k
    rw [hl, cellAt_map (f := applicantAttrib .PERIODIC) (fun _ => rfl)]
    simp only [applicantAttrib_cell, cellAt, Option.map_map]
    rfl
  have hquiet : ∀ a ∈ (periodicBranch env db).attribList, a.registrar.notify = .NONE := by
    intro a ha
    obtain ⟨b, hb, rfl⟩ := mem_map.mp ha
    exact ht.quiet b hb
  apply eventSpec_of_scan
  · exact unique_map_value (f := applicantAttrib .PERIODIC) (fun _ => rfl) ht.unique
  · intro k
    rw [pendingNotes_quiet hquiet, hcell]
    rfl
  · cases hlist : db.attribList with
    | nil =>
      refine .kept (by decide) ?_ ?_ ?_
      · intro k
        rw [hl, hlist]
        exact Or.inl rfl
      · simp [periodicBranch, hlist]
      · simp [periodicBranch, hlist]
    | cons a tl =>
      refine .started (by decide) ?_ ?_
      · simp [periodicBranch, hlist]
      · simp [periodicBranch, hlist, mrpJointimerStart]
  · refine leaveSpec_of_regs (by decide) ?_ ?_ ?_
    · intro k
      rw [hcell, Option.map_map]
      rfl
    · simp only [periodicBranch]
      split <;> rfl
    · simp only [periodicBranch]
      split <;> rfl

theorem regStep_lvtimer_ne_lv (r : RegState) : (regStep r .LVTIMER).1 ≠ .LV := by
  cases r <;> decide

theorem lvtimerBranch_spec (env : Env) (reclaims : Bool) (ht : Tidy key db.attribList) :
    let r := lvtimerBranch env reclaims db
    EventSpec key reclaims env.now .LVTIMER (fun _ => true) false db
      (scanNotify r.1 none r.2).1 (scanNotify r.1 none r.2).2.notes := by
  intro r
  let l := db.attribList.map lvtimerAttrib
  have hr : r = (⟨mrpLvtimerStop db.mrpDb, l.filter fun a => !(reclaims && reclaimable a)⟩,
      (l.filter fun a => reclaims && reclaimable a).map fun a => ⟨.LV, a⟩) := by
    simp only [r, lvtimerBranch, lvtimerAll_eq, l]
  have hul : KeyedList.Unique (fun a : Attrib V => key a.value) l :=
    unique_map_value (f := lvtimerAttrib) (fun _ => rfl) ht.unique
  have hat : ∀ k, attribAt key r.1.attribList k =
      ((attribAt key db.attribList k).map lvtimerAttrib).filter
        fun a => !(reclaims && reclaimable a) := by
    intro k
    rw [hr]
    unfold attribAt
    rw [KeyedList.get_filter hul]
    exact congrArg _ (attribAt_map (f := lvtimerAttrib) (fun _ => rfl) db.attribList k)
  have hcells : ∀ k, (cellAt key r.1.attribList k,
      notesAbout key k r.2 ++ pendingNotes (attribAt key r.1.attribList k)) =
        cellStep reclaims .LVTIMER false (cellAt key db.attribList k) := by
    intro k
    have hnotes : notesAbout key k r.2 =
        (((attribAt key db.attribList k).map lvtimerAttrib).toList.filter
          fun a => reclaims && reclaimable a).map fun _ => .LV := by
      rw [hr, notesAbout_select hul, attribAt_map (f := lvtimerAttrib) (fun _ => rfl)]
    unfold cellAt
    rw [hnotes, hat]
    cases h : attribAt key db.attribList k with
    | none => rfl
    | some a =>
      have hnotify : (lvtimerAttrib a).registrar.notify = (regStep a.cell.reg .LVTIMER).2 :=
        registrarNext_notify .LVTIMER (ht.quiet a (KeyedList.mem_of_get h))
      simp only [cellStep, Option.map_some, Option.elim_some, settle, ← lvtimerAttrib_cell,
        ← reclaimable_eq_cell, ← hnotify]
      grind [lvtimerAttrib, Option.filter, pendingNotes]
  have hnot : ∀ k, ¬ EntersLv key db r.1 k := by
    rintro k ⟨-, hlv⟩
    have hfst := congrArg Prod.fst (hcells k)
    cases hc : cellAt key db.attribList k with
    | none =>
      rw [hc] at hfst
      rw [show cellAt key r.1.attribList k = none from hfst] at hlv
      exact absurd hlv (by decide)
    | some c =>
      rw [hc] at hfst
      simp only [cellStep, Option.elim_some, settle] at hfst
      grind [regStep_lvtimer_ne_lv, Option.some.inj]
  apply eventSpec_of_scan
  · rw [hr]
    exact KeyedList.unique_filter hul _
  · exact hcells
  · refine .kept (by decide) ?_ (by rw [hr]; rfl) (by rw [hr]; rfl)
    intro k
    unfold cellAt
    rw [hat]
    cases attribAt key db.attribList k with
    | none => exact Or.inl rfl
    | some a =>
      cases hc : reclaims && reclaimable (lvtimerAttrib a)
      · right
        simp [Option.filter, hc]
      · left
        simp [Option.filter, hc]
  · exact .kept hnot (by rw [hr]; rfl) (by rw [hr]; rfl)

theorem fsmAll_values (now : Nat) (event : Event) (sel : V → Bool) (m : MrpDatabase)
    (l : List (Attrib V)) :
    (fsmAll now event sel m l).2.map Attrib.value = l.map Attrib.value := by
  rw [fsmAll_eq, map_map]
  refine map_congr_left fun a _ => ?_
  simp only [Function.comp_apply]
  split <;> rfl

theorem applicantAll_values (event : Event) (l : List (Attrib V)) :
    (applicantAll event l).map Attrib.value = l.map Attrib.value := by
  rw [applicantAll, map_map]
  rfl

theorem scanNotify_values (db : Database V) (pdu : Option Frame) (notes : List (Note V)) :
    (scanNotify db pdu notes).1.attribList.map Attrib.value = db.attribList.map Attrib.value := by
  rw [scanNotify_attribList, map_map]
  rfl

theorem TxOnly.values {txpdu : Database V → Database V × Option Frame} (h : TxOnly txpdu)
    (db : Database V) :
    (txpdu db).1.attribList.map Attrib.value = db.attribList.map Attrib.value :=
  map_value_of_clearTx (h db).2

theorem lvtimerAll_values (now : Nat) (reclaims : Bool) (m : MrpDatabase) (l : List (Attrib V)) :
    (lvtimerAll now reclaims m l).2.1.map Attrib.value <+ l.map Attrib.value := by
  rw [lvtimerAll_eq]
  refine (filter_sublist.map Attrib.value).trans ?_
  rw [map_map]
  exact Sublist.refl _

theorem reclaim_values (db : Database V) :
    (reclaim db).1.attribList.map Attrib.value <+ db.attribList.map Attrib.value := by
  simp only [reclaim, reclaimAll_eq]
  exact filter_sublist.map _

theorem lvatimerBranch_values {txpdu : Database V → Database V × Option Frame} (h : TxOnly txpdu)
    (env : Env) (db : Database V) :
    (lvatimerBranch env txpdu db).1.attribList.map Attrib.value =
      db.attribList.map Attrib.value :=
  (h.values _).trans (fsmAll_values _ _ _ _ _)

theorem txBranch_values {txpdu : Database V → Database V × Option Frame} (h : TxOnly txpdu)
    (env : Env) (db : Database V) :
    (txBranch env txpdu db).1.attribList.map Attrib.value = db.attribList.map Attrib.value := by
  have hsent := (h.values ⟨mrpJointimerStop db.mrpDb, applicantAll .TX db.attribList⟩).trans
    (applicantAll_values _ _)
  rw [txBranch]
  dsimp only
  split <;> exact hsent

end Avb4Linux.Mrp
