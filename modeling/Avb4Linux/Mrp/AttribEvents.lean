import Avb4Linux.Mrp.Refinement

/-!
# Attribute events meet their specification

The branch of `NEW`, `JOIN`, `LV` and the received attribute events: the attribute
is found by its key, added or merged, both machines run, and it may be reclaimed.
-/

namespace Avb4Linux.Mrp

open Lib

variable {V K : Type} [DecidableEq K] {key : V → K} {ops : Ops V}
variable {l : List (Attrib V)} {a r : Attrib V} {db : Database V}

theorem key_of_attribAt {k : K} (h : attribAt key l k = some a) : key a.value = k := by
  have hk := KeyedList.key_of_get h
  exact hk

theorem LawfulOps.lookup_eq (h : LawfulOps ops key) (l : List (Attrib V)) (v : V) :
    ops.lookup l v = attribAt key l (key v) := by
  grind [Ops.lookup, attribAt, KeyedList.get, same_iff]

theorem LawfulOps.update_eq (h : LawfulOps ops key) (v : V)
    (f : Attrib V → Option (Attrib V)) (l : List (Attrib V)) :
    ops.update v f l = KeyedList.update (fun a : Attrib V => key a.value) (key v) f l := by
  induction l with
  | nil => rfl
  | cons a tl ih =>
    unfold Ops.update KeyedList.update
    simp only [h.same_iff, ih]
    cases f a <;> rfl

def mergedAttrib (ops : Ops V) (key : V → K) (r : Attrib V) (l : List (Attrib V)) : Attrib V :=
  (attribAt key l (key r.value)).elim r (ops.merge l r)

theorem LawfulOps.mergedAttrib_key (h : LawfulOps ops key) (r : Attrib V)
    (l : List (Attrib V)) : key (mergedAttrib ops key r l).value = key r.value := by
  unfold mergedAttrib
  cases hat : attribAt key l (key r.value) with
  | none => rfl
  | some a => exact h.merge_key l r a (key_of_attribAt hat)

theorem LawfulOps.addOrMerge_at (h : LawfulOps ops key) (r : Attrib V)
    (hu : KeyedList.Unique (fun a : Attrib V => key a.value) l) (k : K) :
    attribAt key (addOrMerge ops r l) k =
      if k = key r.value then some (mergedAttrib ops key r l) else attribAt key l k := by
  unfold addOrMerge mergedAttrib
  rw [h.lookup_eq]
  cases hat : attribAt key l (key r.value) with
  | none =>
    obtain ⟨l₁, l₂, rfl, hadd⟩ := h.add_split l r
    simp only [hadd, Option.elim_none]
    have hget := KeyedList.get_insert l₁ l₂ r k hat
    simp only [eq_comm (a := k)]
    exact hget
  | some a =>
    simp only [h.update_eq, Option.elim_some]
    have hkey : ∀ b b' : Attrib V, key b.value = key r.value →
        some (ops.merge l r b) = some b' → key b'.value = key r.value := by
      rintro b b' hb ⟨rfl⟩
      exact h.merge_key l r b hb
    refine (KeyedList.get_update hu (key r.value) hkey k).trans ?_
    have hget : KeyedList.get (fun a : Attrib V => key a.value) l (key r.value) = some a := hat
    rw [hget]
    rfl

theorem LawfulOps.addOrMerge_unique (h : LawfulOps ops key) (r : Attrib V)
    (hu : KeyedList.Unique (fun a : Attrib V => key a.value) l) :
    KeyedList.Unique (fun a : Attrib V => key a.value) (addOrMerge ops r l) := by
  unfold addOrMerge
  rw [h.lookup_eq]
  cases hat : attribAt key l (key r.value) with
  | none =>
    obtain ⟨l₁, l₂, rfl, hadd⟩ := h.add_split l r
    simp only [hadd]
    exact KeyedList.unique_insert hu hat
  | some a =>
    simp only [h.update_eq]
    refine KeyedList.unique_update hu (key r.value) ?_
    rintro b b' hb ⟨rfl⟩
    exact h.merge_key l r b hb

structure Attrib.Fresh (r : Attrib V) : Prop where
  cell : r.cell = Cell.fresh
  notify : r.registrar.notify = .NONE

def mergeForces (ops : Ops V) (key : V → K) (r : Attrib V) (l : List (Attrib V)) : Bool :=
  (attribAt key l (key r.value)).any fun a =>
    a.registrar.mrpState ≠ .MT && (ops.merge l r a).registrar.mrpState = .MT

theorem LawfulOps.mergedAttrib_cell (h : LawfulOps ops key) (hr : r.Fresh) (l : List (Attrib V)) :
    (mergedAttrib ops key r l).cell =
      let c := (cellAt key l (key r.value)).getD Cell.fresh
      if mergeForces ops key r l then { c with reg := .MT } else c := by
  unfold mergedAttrib mergeForces cellAt
  cases attribAt key l (key r.value) with
  | none => exact hr.cell
  | some a =>
    have happ : (ops.merge l r a).cell.app = a.cell.app :=
      congrArg Applicant.mrpState (h.merge_applicant l r a)
    simp only [Option.elim_some, Option.map_some, Option.getD_some, Option.any_some]
    rcases h.merge_state l r a with hs | hs
    · have hcell : (ops.merge l r a).cell = a.cell := congrArg₂ Cell.mk happ hs
      grind
    · have hcell : (ops.merge l r a).cell = { a.cell with reg := .MT } :=
        congrArg₂ Cell.mk happ hs
      rw [hcell, hs]
      split <;> rename_i hc
      · rfl
      · have hmt : a.registrar.mrpState = .MT := by simpa using hc
        exact congrArg (Cell.mk a.cell.app) hmt.symm

theorem mergedAttrib_reg (h : LawfulOps ops key) (hr : r.Fresh) (l : List (Attrib V)) :
    let c := (mergedAttrib ops key r l).cell
    (cellAt key l (key r.value)).map Cell.reg = some c.reg ∨ c.reg = .MT := by
  intro c
  have hcell : c = _ := h.mergedAttrib_cell hr l
  rw [hcell]
  cases cellAt key l (key r.value) with
  | none =>
    right
    simp only [Option.getD_none]
    split <;> rfl
  | some c =>
    grind

theorem LawfulOps.mergedAttrib_notify (h : LawfulOps ops key) (hr : r.Fresh)
    (hq : ∀ a ∈ l, a.registrar.notify = .NONE) :
    (mergedAttrib ops key r l).registrar.notify = .NONE := by
  unfold mergedAttrib
  cases hat : attribAt key l (key r.value) with
  | none => exact hr.notify
  | some a => exact (h.merge_notify l r a).trans (hq a (KeyedList.mem_of_get hat))

def isLeave : Event → Bool
  | .LV | .RLV => true
  | _ => false

theorem remapRegistrar_mrpState (now : Nat) {event : Event} (r : Registrar)
    (db : MrpDatabase) :
    (remapRegistrar now event r db).1.mrpState = (remapStep event r.mrpState).1 := by
  cases event with
  | NEW => rfl
  | _ => simp only [remapRegistrar, remapStep, mrpRegistrarFsm_eq, registrarNext_mrpState]

theorem remapRegistrar_notify (now : Nat) {event : Event} {r : Registrar}
    (h : r.notify = .NONE) (db : MrpDatabase) :
    (remapRegistrar now event r db).1.notify = (remapStep event r.mrpState).2 := by
  cases event <;>
    simp only [remapRegistrar, remapStep, mrpRegistrarFsm_eq, registrarNext_notify _ h]

theorem remapRegistrar_timers (now : Nat) {event : Event} (hev : isAttribEvent event = true)
    (r : Registrar) (db : MrpDatabase) :
    (remapRegistrar now event r db).2 =
      if isLeave event && mrpRegistrarIn r then mrpLvtimerStart now db else db := by
  cases event <;> first
    | exact absurd hev (by decide)
    | (simp only [remapRegistrar, mrpRegistrarFsm_eq]; rfl)
    | (simp only [remapRegistrar, mrpRegistrarFsm_eq]; split <;> rfl)

theorem remapStep_eq_lv {event : Event} (hev : isAttribEvent event = true) {r : RegState}
    (hr : r ≠ .LV) : (remapStep event r).1 = .LV ↔ isLeave event = true ∧ r = .IN := by
  cases event <;> first
    | exact absurd hev (by decide)
    | (cases r <;> first | exact absurd rfl hr | decide)

def remapAttrib (now : Nat) (event : Event) (m : MrpDatabase) (a : Attrib V) : Attrib V :=
  { a with
    applicant := mrpApplicantFsm a.applicant event (mrpRegistrarIn a.registrar)
    registrar := (remapRegistrar now event a.registrar m).1 }

theorem remapAttrib_cell (now : Nat) (event : Event) (m : MrpDatabase) (a : Attrib V) :
    (remapAttrib now event m a).cell =
      ⟨applicantNext a.cell.app event (a.cell.reg = .IN), (remapStep event a.cell.reg).1⟩ :=
  congrArg₂ Cell.mk (mrpApplicantFsm_mrpState _ _ _) (remapRegistrar_mrpState _ _ _)

theorem attribFsm_eq (h : LawfulOps ops key) (env : Env) (reclaims : Bool) (event : Event) {v : V}
    (ha : attribAt key db.attribList (key v) = some a) :
    let a' := remapAttrib env.now event db.mrpDb a
    let gone := reclaims && reclaimable a'
    attribFsm ops env reclaims event v db =
      (⟨(remapRegistrar env.now event a.registrar db.mrpDb).2,
          KeyedList.update (fun a : Attrib V => key a.value) (key v)
            (fun _ => if gone then none else some a') db.attribList⟩,
        if gone then [⟨.LV, a'⟩] else []) := by
  intro a' gone
  unfold attribFsm
  rw [h.lookup_eq, ha]
  simp only [h.update_eq]
  change (if gone = true then _ else _) = _
  cases gone <;> rfl

theorem attribBranch_absent (h : LawfulOps ops key) (env : Env) (reclaims forced : Bool)
    (ht : Tidy key db.attribList) (habs : attribAt key db.attribList (key r.value) = none) :
    attribBranch ops env reclaims .RMT r db =
        ({ db with mrpDb := mrpJointimerStart env.now db.mrpDb }, [], false) ∧
      EventSpec key reclaims env.now .RMT (fun k => k = key r.value) forced db
        { db with mrpDb := mrpJointimerStart env.now db.mrpDb } [] := by
  constructor
  · unfold attribBranch
    rw [if_pos ⟨rfl, (h.lookup_eq _ _).trans habs⟩]
  · refine ⟨ht, ?_, .started (by decide) rfl rfl, ?_⟩
    · grind [cellAt, cellStep, notesAbout]
    · exact leaveSpec_of_regs (by decide) (fun _ => rfl) rfl rfl

theorem attribBranch_present (h : LawfulOps ops key) (env : Env) (reclaims : Bool) {event : Event}
    (hu : KeyedList.Unique (fun a : Attrib V => key a.value) db.attribList)
    (hmt : ¬ (event = .RMT ∧ attribAt key db.attribList (key r.value) = none)) :
    let m := mrpJointimerStart env.now db.mrpDb
    let a := mergedAttrib ops key r db.attribList
    let a' := remapAttrib env.now event m a
    let gone := reclaims && reclaimable a'
    ∃ l, attribBranch ops env reclaims event r db =
        (⟨(remapRegistrar env.now event a.registrar m).2, l⟩,
          if gone then [⟨.LV, a'⟩] else [], true) ∧
      KeyedList.Unique (fun a : Attrib V => key a.value) l ∧
      ∀ k, attribAt key l k =
        if k = key r.value then (if gone then none else some a')
        else attribAt key db.attribList k := by
  intro m a a' gone
  let l := addOrMerge ops r db.attribList
  have hul := h.addOrMerge_unique r hu
  have hat : attribAt key l (key r.value) = some a := by
    rw [h.addOrMerge_at r hu, if_pos rfl]
  have hupd : ∀ b b' : Attrib V, key b.value = key r.value →
      (if gone then none else some a') = some b' → key b'.value = key r.value := by
    rintro b b' - hb
    split at hb
    · exact absurd hb (by simp)
    · obtain rfl := Option.some.inj hb
      exact h.mergedAttrib_key r db.attribList
  refine ⟨KeyedList.update (fun a : Attrib V => key a.value) (key r.value)
    (fun _ => if gone then none else some a') l, ?_, KeyedList.unique_update hul _ hupd, ?_⟩
  · have hfsm := attribFsm_eq h env reclaims event
      (show attribAt key (Database.mk m l).attribList (key r.value) = some a from hat)
    simp only [attribBranch, h.lookup_eq, if_neg hmt]
    rw [hfsm]
  · intro k
    refine (KeyedList.get_update hul _ hupd k).trans ?_
    have hget : KeyedList.get (fun a : Attrib V => key a.value) l (key r.value) = some a := hat
    have hother := h.addOrMerge_at r hu k
    rw [hget]
    by_cases hk : k = key r.value
    · simp only [hk, if_true, Option.bind_some]
    · simp only [hk, if_false]
      rw [if_neg hk] at hother
      exact hother

theorem attribStep_settle (h : LawfulOps ops key) (now : Nat) (reclaims : Bool) {event : Event}
    (hev : isAttribEvent event = true) (hr : r.Fresh) (hq : ∀ a ∈ l, a.registrar.notify = .NONE)
    (hmt : ¬ (event = .RMT ∧ attribAt key l (key r.value) = none)) (m : MrpDatabase) :
    let a' := remapAttrib now event m (mergedAttrib ops key r l)
    cellStep reclaims event (mergeForces ops key r l) (cellAt key l (key r.value)) =
      settle reclaims a'.cell a'.registrar.notify := by
  intro a'
  have hcell := h.mergedAttrib_cell hr l
  have hnotify : a'.registrar.notify =
      (remapStep event (mergedAttrib ops key r l).cell.reg).2 :=
    remapRegistrar_notify now (h.mergedAttrib_notify hr hq) m
  have hnone : ¬ (event = .RMT ∧ cellAt key l (key r.value) = none) := by
    rintro ⟨he, hc⟩
    exact hmt ⟨he, by simpa [cellAt] using hc⟩
  rw [hnotify, remapAttrib_cell, hcell, cellStep_attrib reclaims hev _ hnone]

theorem settle_notes {k : K} (hk : key a.value = k) (reclaims : Bool) :
    let found := if reclaims && reclaimable a then none else some a
    let notes := if reclaims && reclaimable a then [⟨Notify.LV, a⟩] else []
    (found.map Attrib.cell, notesAbout key k notes ++ pendingNotes found) =
      settle reclaims a.cell a.registrar.notify := by
  intro found notes
  by_cases hgone : (reclaims && reclaimable a) = true
  · have hcell : (reclaims && a.cell.reclaimable) = true := hgone
    grind [settle, notesAbout, pendingNotes]
  · have hcell : ¬ (reclaims && a.cell.reclaimable) = true := hgone
    grind [settle, notesAbout, pendingNotes]

theorem leaveSpec_of_attrib {now : Nat} {event : Event} (hev : isAttribEvent event = true)
    {db' : Database V} (k₀ : K) {c c' : Cell}
    (hother : ∀ k, k ≠ k₀ → cellAt key db'.attribList k = cellAt key db.attribList k)
    (hold : (cellAt key db.attribList k₀).map Cell.reg = some c.reg ∨ c.reg = .MT)
    (hreg : c'.reg = (remapStep event c.reg).1)
    (hnew : cellAt key db'.attribList k₀ = some c' ∨
      cellAt key db'.attribList k₀ = none ∧ c'.reg = .MT) {m : MrpDatabase}
    (hm : m.lvTimer = db.mrpDb.lvTimer ∧ m.lvTimerRunning = db.mrpDb.lvTimerRunning)
    (htimers : db'.mrpDb = if isLeave event && c.reg = .IN then mrpLvtimerStart now m else m) :
    LeaveSpec key now event db db' := by
  have hne : event ≠ .LVTIMER := by
    rintro rfl
    exact absurd hev (by decide)
  by_cases hin : isLeave event = true ∧ c.reg = .IN
  · rw [if_pos (by simpa using hin)] at htimers
    refine .started ⟨k₀, ?_, ?_⟩ (by rw [htimers]; rfl) (by rw [htimers]; rfl)
    all_goals grind [remapStep_eq_lv]
  · rw [if_neg (by simpa using hin)] at htimers
    refine .kept ?_ (by rw [if_neg hne, htimers, hm.1]) (by rw [if_neg hne, htimers, hm.2])
    rintro k ⟨hbefore, hafter⟩
    by_cases hk : k = k₀
    all_goals grind [remapStep_eq_lv]

theorem attribBranch_spec (h : LawfulOps ops key) (env : Env) (reclaims : Bool) {event : Event}
    (hev : isAttribEvent event = true) (hr : r.Fresh) (ht : Tidy key db.attribList) :
    let x := attribBranch ops env reclaims event r db
    let y := if x.2.2 then scanNotify x.1 none x.2.1 else (x.1, {})
    EventSpec key reclaims env.now event (fun k => k = key r.value)
      (mergeForces ops key r db.attribList) db y.1 y.2.notes := by
  intro x y
  have hkinds : event ≠ .LVATIMER ∧ event ≠ .TX ∧ event ≠ .LVTIMER := by
    refine ⟨?_, ?_, ?_⟩ <;> rintro rfl <;> exact absurd hev (by decide)
  by_cases hmt : event = .RMT ∧ attribAt key db.attribList (key r.value) = none
  · obtain ⟨rfl, habs⟩ := hmt
    obtain ⟨hx, hspec⟩ :=
      attribBranch_absent h env reclaims (mergeForces ops key r db.attribList) ht habs
    grind
  obtain ⟨l, hx, hul, hat⟩ := attribBranch_present h env reclaims ht.unique hmt
  let m := mrpJointimerStart env.now db.mrpDb
  let a := mergedAttrib ops key r db.attribList
  let a' := remapAttrib env.now event m a
  have hy : y = scanNotify x.1 none x.2.1 := by
    simp only [y, x, hx, if_true]
  have hakey : key a'.value = key r.value := h.mergedAttrib_key r db.attribList
  have hstep := attribStep_settle h env.now reclaims hev hr ht.quiet hmt m
  rw [hy]
  simp only [x, hx]
  apply eventSpec_of_scan
  · exact hul
  · intro k
    unfold cellAt
    rw [hat]
    by_cases hk : k = key r.value
    · subst hk
      simp only [decide_true, if_true]
      exact (settle_notes hakey reclaims).trans hstep.symm
    · have hquiet : pendingNotes (attribAt key db.attribList k) = [] :=
        pendingNotes_quiet ht.quiet k
      have hnote : key a'.value ≠ k := fun hak => hk (hak.symm.trans hakey)
      simp only [hk, decide_false, if_false, hquiet, Bool.false_eq_true, List.append_nil]
      split
      · have hlast : key (Note.mk .LV a').attrib.value ≠ k := hnote
        simp [notesAbout, hlast, a', a, m]
      · simp [notesAbout]
  · refine .started hkinds ?_ ?_
    · rw [remapRegistrar_timers env.now hev]
      split <;> rfl
    · rw [remapRegistrar_timers env.now hev]
      split <;> rfl
  · refine leaveSpec_of_attrib hev (key r.value) (c := a.cell) (m := m) ?_ ?_
      (congrArg Cell.reg (remapAttrib_cell env.now event m a)) ?_ ⟨rfl, rfl⟩ ?_
    · intro k hk
      unfold cellAt
      rw [hat, if_neg hk]
    · exact mergedAttrib_reg h hr db.attribList
    · unfold cellAt
      rw [hat, if_pos rfl]
      split
      · rename_i hgone
        have hmt : a'.registrar.mrpState = .MT := by
          simp only [reclaimable, Bool.and_eq_true, decide_eq_true_eq] at hgone
          exact hgone.2.1
        exact Or.inr ⟨rfl, hmt⟩
      · exact Or.inl rfl
    · exact remapRegistrar_timers env.now hev a.registrar m

end Avb4Linux.Mrp
