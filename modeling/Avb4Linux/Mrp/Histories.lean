import Avb4Linux.Mrp.DeclaredData
import Avb4Linux.Mrp.Link
import Avb4Linux.Mrp.MvrpRoundTrip

/-!
# Declarations and registrations as functions of the history

What a participant declares is decided by the latest request about it, and what it has registered
by the latest event that speaks for or against it.
-/

namespace Avb4Linux.Mrp

open Lib Lib.Runs

variable {V K D C : Type} [DecidableEq K] {P : Participant V K D C}
  {word : Bool → Event → Option Bool} {p : Cell → Prop}

/-- What the call of an act says about an attribute it concerns. -/
def Participant.said (P : Participant V K D C) (word : Bool → Event → Option Bool) (k : K) (d : D)
    (i : Input V C) : Option Bool :=
  ((P.call d i.act).filter (·.scope k)).bind fun c => word c.forced c.event

/-- A property that the latest event to speak of an attribute decides, for each attribute and in
every state that a participant without pruning reaches. -/
def Participant.Follows (P : Participant V K D C) (word : Bool → Event → Option Bool)
    (p : Cell → Prop) : Prop :=
  ∀ d, P.initial d → P.prunes d = false → ∀ (is : List (Input V C)) (k : K),
    (∃ x ∈ cellAt P.key (P.base (run P.step d is)).attribList k, p x) ↔
      latest P.step (P.said word k) none d is = some true

/-- The same of one event and one attribute; what is reclaimed must not have the property. -/
structure CellFollows (word : Bool → Event → Option Bool) (p : Cell → Prop) : Prop where
  kept : ∀ c, p c → c.reclaimable = false
  step : ∀ reclaims forced event c, (∃ x ∈ (cellStep reclaims event forced c).1, p x) ↔
    (word forced event).elim (∃ x ∈ c, p x) (· = true)

theorem Participant.Lawful.step_follows (hP : P.Lawful) (h : CellFollows word p) (k : K) (d : D)
    (i : Input V C) (ht : Tidy P.key (P.base d).attribList) (hprunes : P.prunes d = false) :
    (∃ x ∈ cellAt P.key (P.base (P.step d i)).attribList k, p x) ↔
      (P.said word k d i).elim (∃ x ∈ cellAt P.key (P.base d).attribList k, p x) (· = true) := by
  unfold said step
  cases hP.act_spec i.env d i.act ht with
  | called c hc db spec pruned spared =>
    rw [pruned_cells (by rw [hprunes, Bool.false_and]) pruned, spec.cell, hc, Option.filter_some]
    by_cases hk : c.scope k = true
    · simpa [hk] using h.step P.reclaims c.forced c.event _
    · simp [hk]
  | collected hact spec =>
    have hk := congrArg Prod.fst (spec.cells k)
    have hcall : P.call d i.act = none := by rw [hact]; rfl
    rw [hcall]
    cases hcell : cellAt P.key (P.base d).attribList k with
    | none => simp_all
    | some c =>
      have hkept := h.kept c
      by_cases hc : c.reclaimable = true <;> simp_all [settle]
  | idle hact hc pruned hn =>
    rw [pruned_cells (by rw [hprunes, Bool.false_and]) pruned, hc]
    rfl

theorem Participant.Lawful.follows (hP : P.Lawful) (h : CellFollows word p) :
    P.Follows word p := by
  intro d hd hprunes is k
  have hnone : cellAt P.key (P.base d).attribList k = none := by
    rw [hP.initial_attribs d hd]
    rfl
  have hrun := holds_iff_latest
    (fun d => Tidy P.key (P.base d).attribList ∧ P.prunes d = false)
    (fun d => ∃ x ∈ cellAt P.key (P.base d).attribList k, p x) (· = true)
    (fun d i hd => ⟨hP.act_tidy i.env i.act hd.1, (hP.prunes_act i.env d i.act).trans hd.2⟩)
    (fun d i hd => hP.step_follows h k d i hd.1 hd.2) is d none ⟨hP.initial_tidy hd, hprunes⟩
    (by simp [hnone])
  simpa using hrun

/-- What a client asks for. -/
def Event.asked : Event → Option Bool
  | .NEW | .JOIN => some true
  | .LV => some false
  | _ => none

theorem cellStep_leave {reclaims forced : Bool} {c : Option Cell} {x : Cell}
    (h : x ∈ (cellStep reclaims .LV forced c).1) : x.app.declared = false := by
  rw [cellStep_attrib reclaims rfl forced (by simp)] at h
  rw [settle_some h]
  generalize (if forced then { c.getD Cell.fresh with reg := .MT } else c.getD Cell.fresh) = y
  obtain ⟨s, r⟩ := y
  cases s <;> rfl

theorem declared_follows :
    CellFollows (fun _ => Event.asked) (fun c => c.app.declared = true) where
  kept c hc := by
    have hsettle := settle_declared true .NONE hc
    grind [settle]
  step reclaims forced event c := by
    obtain hnone | ⟨_ | _, hsome⟩ := Option.eq_none_or_eq_some event.asked
    · rw [hnone]
      constructor
      · rintro ⟨x, hx, hdecl⟩
        refine cellStep_undeclared ⟨?_, ?_⟩ hx hdecl <;> rintro rfl <;> cases hnone
      · rintro ⟨y, rfl, hdecl⟩
        exact cellStep_declared reclaims forced (by rintro rfl; cases hnone) hdecl
    · have hlv : event = .LV := by
        cases event <;> first | rfl | cases hsome
      subst hlv
      refine iff_of_false ?_ Bool.false_ne_true
      rintro ⟨x, hx, hdecl⟩
      simp [cellStep_leave hx] at hdecl
    · rw [hsome]
      refine iff_of_true (cellStep_requested reclaims forced ?_ c) rfl
      cases event <;> cases hsome <;> decide

/-- An attribute is declared exactly if the latest request about it was a New or a Join, whatever
is received and however the timers fire. -/
theorem participants_declareAsked :
    mvrp.Follows (fun _ => Event.asked) (fun c => c.app.declared = true) ∧
      mmrp.Follows (fun _ => Event.asked) (fun c => c.app.declared = true) ∧
      msrp.Follows (fun _ => Event.asked) (fun c => c.app.declared = true) :=
  ⟨mvrp_lawful.follows declared_follows, mmrp_lawful.follows declared_follows,
    msrp_lawful.follows declared_follows⟩

/-- What is heard of an attribute. A New of a local client speaks against it, and so does every
event that merges other contents into it and does not register it. -/
def Event.heard (forced : Bool) : Event → Option Bool
  | .JOIN | .RNEW | .RJOININ | .RJOINMT => some true
  | .NEW | .LV | .RLV | .RLA | .LVATIMER => some false
  | .RIN | .RMT => if forced then some false else none
  | _ => none

theorem settle_registered (reclaims : Bool) (c : Cell) (n : Notify) :
    (∃ x ∈ (settle reclaims c n).1, x.reg = .IN) ↔ c.reg = .IN := by
  unfold settle
  split
  · rename_i h
    simp_all [Cell.reclaimable]
  · simp

theorem registered_follows : CellFollows Event.heard (fun c => c.reg = .IN) where
  kept c hc := by simp [Cell.reclaimable, hc]
  step reclaims forced event c := by
    by_cases hev : isAttribEvent event = true
    · by_cases habsent : event = .RMT ∧ c = none
      · obtain ⟨rfl, rfl⟩ := habsent
        cases forced <;> simp [cellStep, Event.heard]
      · have hold : (∃ x ∈ c, x.reg = .IN) ↔ (c.getD .fresh).reg = .IN := by
          cases c <;> simp [Cell.fresh]
        rw [cellStep_attrib reclaims hev forced habsent, settle_registered, hold]
        obtain ⟨app, reg⟩ := c.getD .fresh
        cases event <;> first | exact absurd hev (by decide) | skip
        all_goals
          cases forced <;> cases reg <;> simp [remapStep, regStep, registrarSwitch, Event.heard]
    · obtain _ | ⟨app, reg⟩ := c
      · cases event <;> simp_all [cellStep, Event.heard, isAttribEvent]
      · cases event with
        | LVTIMER =>
          rw [cellStep, Option.elim_some, settle_registered]
          cases reg <;> simp [regStep, registrarSwitch, Event.heard]
        | _ =>
          first
          | exact absurd rfl hev
          | (cases reg <;> simp [cellStep, regStep, registrarSwitch, Event.heard])

/-- An attribute is registered exactly if the latest event to speak of it was a Join or a received
New; a Leave and a LeaveAll of either side speak against it. -/
theorem participants_registerHeard :
    mvrp.Follows Event.heard (fun c => c.reg = .IN) ∧
      mmrp.Follows Event.heard (fun c => c.reg = .IN) ∧
      msrp.Follows Event.heard (fun c => c.reg = .IN) :=
  ⟨mvrp_lawful.follows registered_follows, mmrp_lawful.follows registered_follows,
    msrp_lawful.follows registered_follows⟩

variable {v : Vid} {d : Database Vid}

theorem mem_of_mem_mvrpSent {l : List (Attrib Vid)} {a : Attrib Vid} (h : a ∈ mvrpSent l) :
    a ∈ l := by
  obtain ⟨r, hr, ha⟩ := List.mem_flatten.mp h
  exact (mvrpVidFormat.flatten_runs_sublist l).subset
    (List.mem_flatten.mpr ⟨r, (mvrpVidFormat.fitting_initial _ _ _ _).subset hr, ha⟩)

theorem Timer.declared_of_sndmsg {t : Timer} (ht : t = .join ∨ t = .leaveAll) {a : Attrib V}
    (h : (t.applicant a).sndmsg = .NEW ∨ (t.applicant a).sndmsg = .JOIN) :
    a.applicant.mrpState.declared = true := by
  unfold Timer.applicant mrpApplicantFsm at h
  rcases ht with rfl | rfl <;> cases hs : a.applicant.mrpState <;> rw [hs] at h <;>
    first | rfl | (rcases h with h | h <;> cases h)

/-- A New or a Join stands in a PDU only for what its sender declares. -/
theorem declares_of_sent {now : Nat} (hs : Sound now d) {env : Env} {act : Act Vid (Cmd Vid)}
    {frame : Frame} (hframe : (mvrp.act env d act).2.pdu = some frame) {e : PduEvent}
    (hr : ⟨e.received, some v⟩ ∈ mvrpParse frame) (he : e.sndmsg = .NEW ∨ e.sndmsg = .JOIN) :
    mvrp.Declares d v := by
  obtain ⟨t, ht, rfl⟩ : ∃ t, (t = .join ∨ t = .leaveAll) ∧ act = .timer t := by
    by_contra hno
    rw [act_pdu_none env (fun h => hno ⟨_, .inl rfl, h⟩) (fun h => hno ⟨_, .inr rfl, h⟩)] at hframe
    cases hframe
  have hpdu : (mvrp.act env d (.timer t)).2.pdu = t.branch env (mvrpTxpdu env) d := by
    rcases ht with rfl | rfl <;> rfl
  obtain ⟨m, hbranch, -⟩ := t.branch_eq ht env (mvrpTxpdu env) d
  rw [hpdu, hbranch] at hframe
  have hvids : ∀ b ∈ t.advance d.attribList, b.value ≤ 0xFFF := by
    intro b hb
    obtain ⟨a, ha, hvalue, -⟩ := Timer.mem_advance ht hb
    exact hvalue ▸ UInt16.not_lt.mp (hs.mem_vids ha)
  rw [(mvrpParse_mvrpTxpdu hvids hframe).1, List.mem_append] at hr
  rcases hr with hflag | hcall
  · unfold mvrpFlag at hflag
    split at hflag
    · cases congrArg Received.value (List.mem_singleton.mp hflag)
    · cases hflag
  · obtain ⟨b, hb, hown⟩ := List.mem_filterMap.mp hcall
    obtain ⟨e', hevt, heq⟩ := Option.map_eq_some_iff.mp hown
    obtain ⟨a, ha, hvalue, happ⟩ := Timer.mem_advance ht (mem_of_mem_mvrpSent hb)
    obtain ⟨hevent, hv⟩ := Received.mk.inj heq
    obtain rfl := PduEvent.received_injective hevent
    rw [PduEvent.sndmsg_of_vectevt hevt, happ] at he
    refine ⟨a.cell, ?_, Timer.declared_of_sndmsg ht he⟩
    rw [← Option.some.inj hv, hvalue]
    exact cell_of_mem hs.tidy ha

/-- The act is no request of a client for the VID. -/
def Act.unasked (v : Vid) (d : Database Vid) (act : Act Vid (Cmd Vid)) : Bool :=
  mvrp.requestFor v d act ≠ some .NEW && mvrp.requestFor v d act ≠ some .JOIN

def Link.Unasked (v : Vid) (s : Link) : LinkInput → Bool
  | .wait _ => true
  | .a _ _ act => act.unasked v s.a
  | .b _ _ act => act.unasked v s.b

structure Silent (v : Vid) (d : Database Vid) : Prop where
  undeclared : ¬ mvrp.Declares d v
  unregistered : ¬ ∃ c ∈ mvrpCell d v, c.reg = .IN

def Event.speaksFor (event : Event) : Bool :=
  event.asked = some true || event.heard false = some true

theorem unsaid_step (hword : CellFollows word p)
    (hspeaks : ∀ b e, word b e = some true → e.speaksFor = true)
    (ht : Tidy mvrp.key d.attribList) {i : Input Vid (Cmd Vid)}
    (hi : ∀ c, mvrp.call d i.act = some c → c.scope v = true → c.event.speaksFor = false)
    (hno : ¬ ∃ c ∈ mvrpCell d v, p c) : ¬ ∃ c ∈ mvrpCell (mvrp.step d i) v, p c := by
  intro hyes
  have hstep := (mvrp_lawful.step_follows hword v d i ht rfl).mp hyes
  cases hw : mvrp.said word v d i with
  | none =>
    rw [hw] at hstep
    exact hno hstep
  | some b =>
    obtain ⟨c, hc, hb⟩ := Option.bind_eq_some_iff.mp hw
    obtain ⟨hcall, hk⟩ := Option.filter_eq_some_iff.mp hc
    simp only [hw, Option.elim_some] at hstep
    have hfor := hspeaks _ _ (hstep ▸ hb)
    rw [hi c hcall hk] at hfor
    cases hfor

theorem Silent.step (h : Silent v d) (ht : Tidy mvrp.key d.attribList) {i : Input Vid (Cmd Vid)}
    (hi : ∀ c, mvrp.call d i.act = some c → c.scope v = true → c.event.speaksFor = false) :
    Silent v (mvrp.step d i) := by
  refine ⟨unsaid_step declared_follows ?_ ht hi h.undeclared,
    unsaid_step registered_follows ?_ ht hi h.unregistered⟩
  all_goals rintro (_ | _) (_ | _) <;> decide

theorem act_speaksFor {act : Act Vid (Cmd Vid)} {now : Nat} {m : MrpDatabase}
    (hpossible : act.possible now m = true) (hask : act.unasked v d = true)
    (c : Call Vid) (hcall : mvrp.call d act = some c) (hk : c.scope v = true) :
    c.event.speaksFor = false := by
  cases act with
  | cmd cmd client =>
    obtain ⟨x, hx, rfl⟩ := Option.map_eq_some_iff.mp hcall
    have hv : v = x.2 := of_decide_eq_true hk
    rw [Act.unasked, mvrp_requestFor hx hv] at hask
    obtain hevent | hevent | hevent : x.1 = .LV ∨ x.1 = .JOIN ∨ x.1 = .NEW := Cmd.request_event hx
    · exact congrArg Event.speaksFor hevent
    all_goals simp [hevent] at hask
  | timer t =>
    obtain rfl := Option.some.inj hcall
    cases t <;> rfl
  | bye client => cases hcall
  | reclaim => cases hcall
  | pdu e w src => cases hpossible
  | leaveAll w src => cases hpossible

theorem Silent.frame (env : Env) (src : MacAddr) {rs : List (Received Vid)}
    (hparsed : ∀ r ∈ rs, r.Parsed)
    (hrs : ∀ e : PduEvent, ⟨e.received, some v⟩ ∈ rs → e.received.speaksFor = false)
    (h : Silent v d) (ht : Tidy mvrp.key d.attribList) :
    Silent v (run mvrp.step d (frameInputs env src rs)) := by
  induction rs generalizing d with
  | nil => exact h
  | cons r rs ih =>
    refine ih (fun q hq => hparsed q (by simp [hq])) (fun e he => hrs e (by simp [he]))
      (h.step ht ?_) (mvrp_lawful.act_tidy env (r.act src) ht)
    intro c hcall hk
    cases hparsed r (by simp) with
    | event e w =>
      have hact : (Received.act src ⟨e.received, some w⟩ : Act Vid (Cmd Vid)) = .pdu e w src := by
        cases e <;> rfl
      obtain rfl := Option.some.inj ((congrArg (mvrp.call d) hact).symm.trans hcall)
      have hv : v = w := of_decide_eq_true hk
      exact hrs e (by simp [hv])
    | leaveAll w =>
      obtain rfl := Option.some.inj hcall
      rfl

/-- A station acts and its peer gets what it sends. -/
theorem Silent.exchange {now : Nat} {d' : Database Vid} {act : Act Vid (Cmd Vid)} {m : MrpDatabase}
    (hs : Sound now d) (h : Silent v d) (h' : Silent v d') (ht' : Tidy mvrp.key d'.attribList)
    (hpossible : act.possible now m = true) (hask : act.unasked v d = true) (env peer : Env) :
    Silent v (mvrp.act env d act).1 ∧ Silent v (deliver peer (mvrp.act env d act).2.pdu d') := by
  refine ⟨h.step (i := ⟨env, act⟩) hs.tidy (act_speaksFor hpossible hask), ?_⟩
  cases hframe : (mvrp.act env d act).2.pdu with
  | none => exact h'
  | some frame =>
    rw [deliver, Option.elim_some, mvrpRecvMsg_eq_run]
    refine h'.frame peer _ (mem_mvrpParse frame) ?_ ht'
    intro e he
    by_contra hspeaks
    refine h.undeclared (declares_of_sent hs hframe he ?_)
    cases e <;> first | exact absurd rfl hspeaks | decide

/-- On a lossless link of two stations, whatever their timers do, a VID for which no client of
either one asks is never declared and never registered. -/
theorem Link.silent_of_unasked (envA envB : Env) (now : Nat) (v : Vid) (is : List LinkInput)
    (hrun : Along Link.step (fun s i => s.Possible i ∧ s.Unasked v i = true)
      (Link.start envA envB now) is) :
    Silent v (run Link.step (Link.start envA envB now) is).a ∧
      Silent v (run Link.step (Link.start envA envB now) is).b := by
  have hstep : ∀ (s : Link) (i : LinkInput), s.Possible i ∧ s.Unasked v i = true →
      (Sound s.clock s.a ∧ Sound s.clock s.b) ∧ Silent v s.a ∧ Silent v s.b →
      (Sound (s.step i).clock (s.step i).a ∧ Sound (s.step i).clock (s.step i).b) ∧
        Silent v (s.step i).a ∧ Silent v (s.step i).b := by
    rintro s i ⟨hi, hask⟩ ⟨⟨ha, hb⟩, hva, hvb⟩
    refine ⟨Link.sound_step hi ha hb, ?_⟩
    cases i with
    | wait t => exact ⟨hva, hvb⟩
    | a env peer act => exact hva.exchange ha hvb hb.tidy hi hask _ _
    | b env peer act => exact (hvb.exchange hb hva ha.tidy hi hask _ _).symm
  refine (run_invariant hstep _ is
    ⟨⟨Sound.init (envA.at now), Sound.init (envB.at now)⟩, ?_, ?_⟩ hrun).2
  all_goals exact ⟨by rintro ⟨c, ⟨⟩, -⟩, by rintro ⟨c, ⟨⟩, -⟩⟩

theorem Link.silent_of_unasked_seven :
    let env : Env := { now := 0 }
    let s := run Link.step (Link.start env env 0)
      [.a env env (.cmd (.join 7) ⟨0, 0⟩), .wait (msec 100), .a env env (.timer .join)]
    Silent 8 s.a ∧ Silent 8 s.b :=
  Link.silent_of_unasked { now := 0 } { now := 0 } 0 8 _ (by decide +kernel)

end Avb4Linux.Mrp
