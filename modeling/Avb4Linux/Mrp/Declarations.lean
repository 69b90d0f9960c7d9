import Avb4Linux.Lib.Runs
import Avb4Linux.Mrp.Protocols

/-!
# A declaration stays until it is withdrawn

An attribute that a client asked to declare keeps an applicant in a declaring state until a client
withdraws it.
-/

namespace Avb4Linux.Mrp

open Lib Lib.Runs

def AppState.declared : AppState → Bool
  | .VP | .VN | .AN | .AA | .QA | .AP | .QP => true
  | _ => false

theorem applicantNext_declared {s : AppState} {event : Event} (b : Bool)
    (hs : s.declared = true) (hlv : event ≠ .LV) (hbegin : event ≠ .BEGIN) :
    (applicantNext s event b).declared = true := by
  cases s <;> first | exact absurd hs (by decide) | skip
  all_goals cases event <;> first | exact absurd rfl hlv | exact absurd rfl hbegin | skip
  all_goals cases b <;> decide

theorem applicantNext_requested (s : AppState) {event : Event} (b : Bool)
    (h : event = .NEW ∨ event = .JOIN) : (applicantNext s event b).declared = true := by
  rcases h with rfl | rfl <;> cases s <;> rfl

theorem settle_declared (reclaims : Bool) {c : Cell} (n : Notify)
    (hc : c.app.declared = true) : (settle reclaims c n).1 = some c := by
  have hkeep : c.reclaimable = false := by
    unfold Cell.reclaimable
    cases happ : c.app <;> rw [happ] at hc <;> first | exact absurd hc (by decide) | simp
  simp [settle, hkeep]

theorem cellStep_declared (reclaims forced : Bool) {event : Event} (hlv : event ≠ .LV)
    {c : Cell} (hc : c.app.declared = true) :
    ∃ c', (cellStep reclaims event forced (some c)).1 = some c' ∧ c'.app.declared = true := by
  by_cases hev : isAttribEvent event = true
  · let c1 := if forced then { c with reg := .MT } else c
    have hc1 : c1.app.declared = true := by
      simp only [c1]
      split <;> exact hc
    have hbegin : event ≠ .BEGIN := by
      rintro rfl
      exact absurd hev (by decide)
    have hnext := applicantNext_declared (c1.reg = .IN) hc1 hlv hbegin
    refine ⟨⟨applicantNext c1.app event (c1.reg = .IN), (remapStep event c1.reg).1⟩, ?_, hnext⟩
    rw [cellStep_attrib reclaims hev forced (by simp)]
    exact settle_declared reclaims _ hnext
  · cases event with
    | LVATIMER => exact ⟨_, rfl, applicantNext_declared _ hc (by decide) (by decide)⟩
    | RLA => exact ⟨_, rfl, applicantNext_declared _ hc (by decide) (by decide)⟩
    | TX => exact ⟨_, rfl, applicantNext_declared _ hc (by decide) (by decide)⟩
    | PERIODIC => exact ⟨_, rfl, applicantNext_declared _ hc (by decide) (by decide)⟩
    | LVTIMER => exact ⟨_, settle_declared reclaims (c := ⟨c.app, _⟩) _ hc, hc⟩
    | _ => first | exact absurd rfl hev | exact ⟨c, rfl, hc⟩

theorem cellStep_requested (reclaims forced : Bool) {event : Event}
    (h : event = .NEW ∨ event = .JOIN) (c : Option Cell) :
    ∃ c', (cellStep reclaims event forced c).1 = some c' ∧ c'.app.declared = true := by
  have hev : isAttribEvent event = true := by rcases h with rfl | rfl <;> rfl
  have hrmt : ¬ (event = .RMT ∧ c = none) := by
    grind
  rw [cellStep_attrib reclaims hev forced hrmt]
  exact ⟨_, settle_declared reclaims _ (applicantNext_requested _ _ h),
    applicantNext_requested _ _ h⟩

variable {V K D C : Type} [DecidableEq K]

def Participant.requestFor (P : Participant V K D C) (k : K) (d : D) : Act V C → Option Event
  | .cmd c client =>
    (P.request c client d).bind fun x => if P.key x.2 = k then some x.1 else none
  | _ => none

def Participant.lastRequest (P : Participant V K D C) (k : K) :
    Option Event → D → List (Input V C) → Option Event
  | last, _, [] => last
  | last, d, i :: is => P.lastRequest k ((P.requestFor k d i.act).or last) (P.step d i) is

def Participant.Declares (P : Participant V K D C) (d : D) (k : K) : Prop :=
  ∃ c, cellAt P.key (P.base d).attribList k = some c ∧ c.app.declared = true

variable {P : Participant V K D C}

theorem call_ne_leave {d : D} {act : Act V C} {c : Call K} (hc : P.call d act = some c) {k : K}
    (hk : c.scope k = true) (hreq : P.requestFor k d act = none) : c.event ≠ .LV := by
  cases act with
  | cmd cmd client =>
    simp only [Participant.call, Option.map_eq_some_iff] at hc
    obtain ⟨x, hx, rfl⟩ := hc
    have hkey : k = P.key x.2 := by
      grind [Participant.attribCall]
    simp [Participant.requestFor, hx, ← hkey] at hreq
  | pdu e v src =>
    obtain rfl := Option.some.inj hc
    exact e.received_ne_lv
  | leaveAll v src =>
    obtain rfl := Option.some.inj hc
    exact (by decide : Event.RLA ≠ .LV)
  | timer t =>
    obtain rfl := Option.some.inj hc
    exact t.event_ne_lv
  | bye client => exact absurd hc (by simp [Participant.call])
  | reclaim => exact absurd hc (by simp [Participant.call])

theorem pruned_cells {prunes : Bool} (hp : prunes = false) {db db' : Database V}
    {key : V → K} (h : Pruned key prunes db db') (k : K) :
    cellAt key db'.attribList k = cellAt key db.attribList k := by
  rcases h.cells k with heq | ⟨htrue, -⟩
  · exact heq
  · exact absurd (hp.symm.trans htrue) (by decide)

theorem Participant.Lawful.call_of_request (hP : P.Lawful) {d : D} {act : Act V C} {k : K}
    {e : Event} (hprunes : P.prunes d = false) (hreq : P.requestFor k d act = some e) :
    ∃ c, P.call d act = some c ∧ c.event = e ∧ c.scope k = true := by
  cases act with
  | cmd cmd client =>
    cases hx : P.request cmd client d with
    | none => simp [Participant.requestFor, hx] at hreq
    | some x =>
      simp only [Participant.requestFor, hx, Option.bind_some] at hreq
      split at hreq
      · rename_i hk
        refine ⟨P.attribCall d x.1 { value := x.2 }, ?_, Option.some.inj hreq, ?_⟩
        all_goals grind [call, attribCall, attends]
      · exact absurd hreq (by simp)
  | _ => exact absurd hreq (by simp [Participant.requestFor])

theorem Participant.Lawful.called_declares (hP : P.Lawful) (env : Env) {d : D} {act : Act V C}
    (ht : Tidy P.key (P.base d).attribList) {c : Call K} (hc : P.call d act = some c) {k : K}
    (hk : c.scope k = true) (he : c.event = .NEW ∨ c.event = .JOIN) :
    P.Declares (P.act env d act).1 k := by
  unfold Participant.Declares
  cases hP.act_spec env d act ht with
  | called c' hc' db spec pruned spared =>
    obtain rfl := Option.some.inj (hc.symm.trans hc')
    rw [spared k hk, spec.cell, if_pos hk]
    exact cellStep_requested _ _ he _
  | collected hact spec =>
    subst hact
    exact absurd hc (by simp [Participant.call])
  | idle hact hnone pruned hn => exact absurd (hc.symm.trans hnone) (by simp)

theorem Participant.Lawful.requested_declares (hP : P.Lawful) (env : Env) {d : D}
    {act : Act V C} (ht : Tidy P.key (P.base d).attribList) (hprunes : P.prunes d = false) {k : K}
    {e : Event} (hreq : P.requestFor k d act = some e) (he : e = .NEW ∨ e = .JOIN) :
    P.Declares (P.act env d act).1 k := by
  obtain ⟨c, hc, rfl, hk⟩ := hP.call_of_request hprunes hreq
  exact hP.called_declares env ht hc hk he

theorem Participant.Lawful.act_declares (hP : P.Lawful) (env : Env) {d : D} {act : Act V C}
    (ht : Tidy P.key (P.base d).attribList) (hprunes : P.prunes d = false) {k : K}
    (hreq : P.requestFor k d act = none) (h : P.Declares d k) :
    P.Declares (P.act env d act).1 k := by
  obtain ⟨cell, hcell, hdecl⟩ := h
  unfold Participant.Declares
  cases hP.act_spec env d act ht with
  | called c hc db spec pruned spared =>
    rw [pruned_cells (by rw [hprunes, Bool.false_and]) pruned, spec.cell, hcell]
    split
    · rename_i hk
      exact cellStep_declared _ _ (call_ne_leave hc hk hreq) hdecl
    · exact ⟨cell, rfl, hdecl⟩
  | collected hact spec =>
    have hk := congrArg Prod.fst (spec.cells k)
    grind [settle_declared]
  | idle hact hc pruned hn =>
    grind [pruned_cells]

theorem Participant.Lawful.act_tidy (hP : P.Lawful) (env : Env) {d : D} (act : Act V C)
    (ht : Tidy P.key (P.base d).attribList) :
    Tidy P.key (P.base (P.act env d act).1).attribList := by
  cases hP.act_spec env d act ht with
  | called c hc db spec pruned spared => exact pruned.tidy
  | collected hact spec => exact spec.tidy
  | idle hact hc pruned hn => exact pruned.tidy

theorem Participant.Lawful.initial_tidy (hP : P.Lawful) {d : D} (h : P.initial d) :
    Tidy P.key (P.base d).attribList := by
  rw [hP.initial_attribs d h]
  exact ⟨List.nodup_nil, by simp⟩

theorem Participant.Lawful.run_declares (hP : P.Lawful) (k : K) {e : Event}
    (he : e = .NEW ∨ e = .JOIN) (is : List (Input V C)) (d : D) (last : Option Event)
    (ht : Tidy P.key (P.base d).attribList) (hprunes : P.prunes d = false)
    (hlast : last = some e → P.Declares d k)
    (h : P.lastRequest k last d is = some e) : P.Declares (run P.step d is) k := by
  induction is generalizing d last with
  | nil => exact hlast h
  | cons i is ih =>
    refine ih (P.step d i) _ (hP.act_tidy i.env i.act ht)
      ((hP.prunes_act i.env d i.act).trans hprunes) ?_ h
    intro hor
    cases hreq : P.requestFor k d i.act with
    | none =>
      rw [hreq, Option.none_or] at hor
      exact hP.act_declares i.env ht hprunes hreq (hlast hor)
    | some e' =>
      rw [hreq, Option.some_or] at hor
      exact hP.requested_declares i.env ht hprunes hreq (Option.some.inj hor ▸ he)

def Participant.KeepsDeclarations (P : Participant V K D C) : Prop :=
  ∀ d, P.initial d → P.prunes d = false → ∀ (is : List (Input V C)) (k : K) (e : Event),
    P.lastRequest k none d is = some e → e = .NEW ∨ e = .JOIN → P.Declares (run P.step d is) k

theorem Participant.Lawful.keepsDeclarations (hP : P.Lawful) : P.KeepsDeclarations := by
  intro d hd hprunes is k e hlast he
  exact hP.run_declares k he is d none (hP.initial_tidy hd) hprunes (by simp) hlast

theorem participants_keepDeclarations :
    mvrp.KeepsDeclarations ∧ mmrp.KeepsDeclarations ∧ msrp.KeepsDeclarations :=
  ⟨mvrp_lawful.keepsDeclarations, mmrp_lawful.keepsDeclarations, msrp_lawful.keepsDeclarations⟩

end Avb4Linux.Mrp
