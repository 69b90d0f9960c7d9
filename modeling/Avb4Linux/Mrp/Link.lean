import Avb4Linux.Mrp.MvrpNode

/-!
# Two MVRP participants on a lossless link

Two databases, one clock, and a link that hands each PDU to the peer at once.
-/

namespace Avb4Linux.Mrp

open Lib Lib.Runs

structure Link where
  clock : Nat
  a : Database Vid
  b : Database Vid

inductive LinkInput where
  | wait (t : Nat)
  | a (env peer : Env) (act : Act Vid (Cmd Vid))
  | b (env peer : Env) (act : Act Vid (Cmd Vid))
  deriving DecidableEq

def Env.at (env : Env) (now : Nat) : Env :=
  { env with now := now }

def Link.step (s : Link) : LinkInput → Link
  | .wait t => { s with clock := t }
  | .a env peer act =>
    let r := mvrp.act (env.at s.clock) s.a act
    { s with a := r.1, b := deliver (peer.at s.clock) r.2.pdu s.b }
  | .b env peer act =>
    let r := mvrp.act (env.at s.clock) s.b act
    { s with b := r.1, a := deliver (peer.at s.clock) r.2.pdu s.a }

def Link.start (envA envB : Env) (now : Nat) : Link :=
  ⟨now, mvrpInit (envA.at now), mvrpInit (envB.at now)⟩

def MrpDatabase.expiries (m : MrpDatabase) : List Nat :=
  [m.joinTimer, m.lvTimer, m.lvaTimer].reduceOption

theorem MrpDatabase.joinTimer_mem_expiries {m : MrpDatabase} {j : Nat}
    (h : m.joinTimer = some j) : j ∈ m.expiries :=
  List.mem_filterMap.mpr ⟨some j, by simp [h], rfl⟩

/-- Whether a timer has expired. The periodic timer belongs to the daemon, not to the
database, and may fire at any time. -/
def Timer.due (t : Timer) (now : Nat) (m : MrpDatabase) : Bool :=
  match t with
  | .join => m.joinTimer.any (· ≤ now)
  | .leave => m.lvTimer.any (· ≤ now)
  | .leaveAll => m.lvaTimer.any (· ≤ now)
  | .periodic => true

def Act.possible (now : Nat) (m : MrpDatabase) : Act Vid (Cmd Vid) → Bool
  | .cmd c _ => c.request.all fun x => x.2 ≤ 0xFFF
  | .bye _ | .reclaim => true
  | .pdu _ _ _ | .leaveAll _ _ => false
  | .timer t => t.due now m

def Link.Possible (s : Link) : LinkInput → Prop
  | .wait t => s.clock ≤ t ∧ ∀ e ∈ s.a.mrpDb.expiries ++ s.b.mrpDb.expiries, t ≤ e
  | .a _ _ act => act.possible s.clock s.a.mrpDb = true
  | .b _ _ act => act.possible s.clock s.b.mrpDb = true

instance Link.decidablePossible (s : Link) (i : LinkInput) : Decidable (s.Possible i) :=
  match i with
  | .wait t =>
    inferInstanceAs (Decidable (s.clock ≤ t ∧
      ∀ e ∈ s.a.mrpDb.expiries ++ s.b.mrpDb.expiries, t ≤ e))
  | .a _ _ act => inferInstanceAs (Decidable (act.possible s.clock s.a.mrpDb = true))
  | .b _ _ act => inferInstanceAs (Decidable (act.possible s.clock s.b.mrpDb = true))

def Act.pduFits (d : Database Vid) : Act Vid (Cmd Vid) → Bool
  | .timer .join => Timer.join.Fits d
  | .timer .leaveAll => Timer.leaveAll.Fits d
  | _ => true

/-- What is asked of a step for `v` to stay registered at B: PDUs fit; A does not
withdraw `v`, and no LeaveAll of its own finds its applicant in `VP`; B has no New and
no Leave for `v`. -/
def Link.Calm (v : Vid) (s : Link) : LinkInput → Bool
  | .wait _ => true
  | .a _ _ act =>
    act.pduFits s.a && mvrp.requestFor v s.a act ≠ some .LV &&
      !(act = .timer .leaveAll && (mvrpCell s.a v).map Cell.app = some .VP)
  | .b _ _ act =>
    act.pduFits s.b && mvrp.requestFor v s.b act ≠ some .NEW &&
      mvrp.requestFor v s.b act ≠ some .LV

def Link.lastRequest (v : Vid) : Option Event → Link → List LinkInput → Option Event
  | last, _, [] => last
  | last, s, .a env peer act :: is =>
    Link.lastRequest v ((mvrp.requestFor v s.a act).or last) (s.step (.a env peer act)) is
  | last, s, i :: is => Link.lastRequest v last (s.step i) is

variable {v : Vid} {d : Database Vid}

theorem act_pdu_none (env : Env) {act : Act Vid (Cmd Vid)} (hjoin : act ≠ .timer .join)
    (hlva : act ≠ .timer .leaveAll) : (mvrp.act env d act).2.pdu = none := by
  have hattrib : ∀ (event : Event) (r : Attrib Vid) (db : Database Vid),
      isAttribEvent event = true → (mvrpEvent env event (some r) db).2.pdu = none := by
    intro event r db hev
    cases event <;> first
      | exact absurd hev (by decide)
      | (unfold mvrpEvent; dsimp only; split <;> rfl)
  cases act with
  | cmd c client =>
    have hact : (mvrp.act env d (.cmd c client)).2 = (mvrpRecvCmd env c client d).2 := rfl
    rw [hact, mvrpRecvCmd, recvCmd]
    cases hreq : c.request with
    | none => rfl
    | some x => exact hattrib _ _ _ (isAttribEvent_request hreq)
  | bye client => rfl
  | pdu e w src => exact hattrib _ _ _ (isAttribEvent_received e)
  | leaveAll x src => rfl
  | timer t =>
    cases t with
    | join => exact absurd rfl hjoin
    | leaveAll => exact absurd rfl hlva
    | leave => rfl
    | periodic => rfl
  | reclaim => rfl

theorem Act.vidsOk_of_possible {now : Nat} {m : MrpDatabase} {act : Act Vid (Cmd Vid)}
    (h : act.possible now m = true) : act.VidsOk := by
  cases act with
  | cmd c client =>
    intro x hx
    grind [possible, UInt16.not_lt]
  | pdu e w src => exact absurd h Bool.false_ne_true
  | leaveAll x src => trivial
  | timer t => trivial
  | bye client => trivial
  | reclaim => trivial

variable {t : Timer} {env peer : Env} {a : Attrib Vid} {s : Link}

theorem Timer.parsed_sent (ht : t = .join ∨ t = .leaveAll) (l : List (Attrib Vid)) :
    ∀ r ∈ t.sent l, r.Parsed := by
  intro r hr
  obtain ⟨a, -, e, rfl, -⟩ := mem_sent ht hr
  exact .event e a.value

theorem Sound.frame (src : MacAddr) {rs : List (Received Vid)}
    (hok : ∀ r ∈ rs, (r.act src : Act Vid (Cmd Vid)).VidsOk) (hs : Sound env.now d) :
    Sound env.now (run mvrp.step d (frameInputs env src rs)) := by
  induction rs generalizing d with
  | nil => exact hs
  | cons r rs ih =>
    exact ih (fun q hq => hok q (by simp [hq])) (hs.act (hok r (by simp)))

theorem mvrpVidEvents_vidsOk (src : MacAddr) (vid : Vid) (ds : List Nat) :
    ∀ r ∈ mvrpVidEvents vid ds, (r.act src : Act Vid (Cmd Vid)).VidsOk := by
  induction ds generalizing vid with
  | nil => simp [mvrpVidEvents]
  | cons d ds ih =>
    intro r hr
    rw [mvrpVidEvents] at hr
    split at hr
    · exact ih _ r hr
    rename_i hvid
    split at hr
    · rename_i e _
      rcases List.mem_cons.mp hr with rfl | hr
      · cases e <;> exact hvid
      · exact ih _ r hr
    · exact ih _ r hr

theorem Sound.deliver (hs : Sound env.now d) (pdu : Option Frame) :
    Sound env.now (deliver env pdu d) := by
  cases pdu with
  | none => exact hs
  | some frame =>
    have hrun : Mrp.deliver env (some frame) d =
        run mvrp.step d (frameInputs env (frameSrc frame) (mvrpParse frame)) :=
      mvrpRecvMsg_eq_run env frame d
    rw [hrun]
    exact hs.frame _ (forall_mvrpParse trivial (mvrpVidEvents_vidsOk _) frame)

theorem declares_frame (env : Env) (src : MacAddr) (rs : List (Received Vid))
    (ht : Tidy mvrp.key d.attribList) (h : mvrp.Declares d v) :
    mvrp.Declares (run mvrp.step d (frameInputs env src rs)) v := by
  induction rs generalizing d with
  | nil => exact h
  | cons r rs ih =>
    exact ih (mvrp_lawful.act_tidy env (r.act src) ht)
      (mvrp_lawful.act_declares env ht rfl (r.requestFor src d v) h)

theorem requestFor_event {act : Act Vid (Cmd Vid)} {e : Event}
    (h : mvrp.requestFor v d act = some e) : e = .LV ∨ e = .JOIN ∨ e = .NEW := by
  cases act with
  | cmd c client =>
    obtain ⟨x, hx, hif⟩ := Option.bind_eq_some_iff.mp h
    have hevent : x.1 = .LV ∨ x.1 = .JOIN ∨ x.1 = .NEW := Cmd.request_event hx
    grind
  | _ => exact absurd h (by simp [Participant.requestFor])

theorem declares_act (env : Env) {act : Act Vid (Cmd Vid)} (ht : Tidy mvrp.key d.attribList)
    (hreq : mvrp.requestFor v d act ≠ some .LV) (h : mvrp.Declares d v) :
    mvrp.Declares (mvrp.act env d act).1 v := by
  cases hr : mvrp.requestFor v d act with
  | none => exact mvrp_lawful.act_declares env ht rfl hr h
  | some e =>
    refine mvrp_lawful.requested_declares env ht rfl hr ?_
    grind [requestFor_event]

theorem cell_of_mem (ht : Tidy mvrp.key d.attribList) (ha : a ∈ d.attribList) :
    mvrpCell d a.value = some a.cell := by
  have hat : attribAt mvrp.key d.attribList a.value = some a := attribAt_of_mem ht.unique ha
  rw [mvrpCell, cellAt, hat]
  rfl

theorem mem_of_cell {c : Cell} (h : mvrpCell d v = some c) :
    ∃ a ∈ d.attribList, a.value = v ∧ a.cell = c := by
  obtain ⟨a, ha, hc⟩ := Option.map_eq_some_iff.mp h
  have hkey := KeyedList.key_of_get ha
  exact ⟨a, KeyedList.mem_of_get ha, hkey, hc⟩

theorem PduEvent.received_ne_rla (e : PduEvent) : e.received ≠ .RLA := by
  cases e <;> decide

theorem PduEvent.received_eq_rlv {e : PduEvent} (h : e.received = .RLV) : e.sndmsg = .LV := by
  cases e <;> first | rfl | exact absurd h (by decide)

theorem isJoin_of_sndmsg {e : PduEvent} (h : e.sndmsg = .JOIN ∨ e.sndmsg = .NEW) :
    isJoin e.received = true := by
  cases e <;> first | rfl | exact absurd h (by decide)

theorem applicant_sndmsg_ne_lv (ht : t = .join ∨ t = .leaveAll)
    (h : a.applicant.mrpState.declared = true) : (t.applicant a).sndmsg ≠ .LV := by
  unfold Timer.applicant mrpApplicantFsm
  rcases ht with rfl | rfl <;> cases hs : a.applicant.mrpState <;> rw [hs] at h <;> first
    | exact absurd h (by decide)
    | (dsimp [Timer.applicantEvent, Timer.event, applicantSwitch]; decide)

theorem applicant_join_unsent (h : a.applicant.mrpState = .VP ∨ a.applicant.mrpState = .VN) :
    (Timer.join.applicant a).encode ≠ .OPTIONAL ∧
      ((Timer.join.applicant a).sndmsg = .JOIN ∨ (Timer.join.applicant a).sndmsg = .NEW) := by
  grind [Timer.applicant, mrpApplicantFsm, Timer.applicantEvent, Timer.event, applicantSwitch]

theorem applicant_leaveAll_declared (h : a.applicant.mrpState.declared = true)
    (hvp : a.applicant.mrpState ≠ .VP) :
    (Timer.leaveAll.applicant a).encode ≠ .OPTIONAL ∧
      ((Timer.leaveAll.applicant a).sndmsg = .JOIN ∨
        (Timer.leaveAll.applicant a).sndmsg = .NEW) := by
  unfold Timer.applicant mrpApplicantFsm
  cases hs : a.applicant.mrpState <;> rw [hs] at h hvp <;> first
    | exact absurd h (by decide)
    | exact absurd rfl hvp
    | (dsimp [Timer.applicantEvent, Timer.event, applicantSwitch]; decide)

theorem sent_spares (ht : t = .join ∨ t = .leaveAll) (htidy : Tidy mvrp.key d.attribList)
    (h : mvrp.Declares d v) : ∀ r ∈ t.sent d.attribList, r.Spares v := by
  intro r hr
  obtain ⟨a, ha, e, rfl, hmsg⟩ := Timer.mem_sent ht hr
  refine ⟨e.received_ne_rla, ?_⟩
  · intro hv hrlv
    obtain ⟨c, hcell, happ⟩ := h
    have hcell : mvrpCell d v = some c := hcell
    rw [← Option.some.inj hv, cell_of_mem htidy ha] at hcell
    have hdecl : a.applicant.mrpState.declared = true := by
      rw [← Option.some.inj hcell] at happ
      exact happ
    exact applicant_sndmsg_ne_lv ht hdecl (hmsg.symm.trans (PduEvent.received_eq_rlv hrlv))

theorem sent_registers (ht : t = .join ∨ t = .leaveAll) (ha : a ∈ d.attribList)
    (h : (t.applicant a).encode ≠ .OPTIONAL ∧
      ((t.applicant a).sndmsg = .JOIN ∨ (t.applicant a).sndmsg = .NEW)) :
    ∃ r ∈ t.sent d.attribList, r.Registers a.value := by
  obtain ⟨e, he, hmsg⟩ := Timer.sent_of_encode ht ha h.1
  refine ⟨_, he, rfl, isJoin_of_sndmsg ?_⟩
  rw [hmsg]
  exact h.2

theorem own_reg (env : Env) {now : Nat} {act : Act Vid (Cmd Vid)}
    (ht : Tidy mvrp.key d.attribList) {x : RegState} (hreg : mvrp.reg d v = some x)
    (hx : x ≠ .MT) (hposs : act.possible now d.mrpDb = true)
    (hnew : mvrp.requestFor v d act ≠ some .NEW) (hlv : mvrp.requestFor v d act ≠ some .LV)
    (hleave : act = .timer .leave → x = .IN) :
    ∃ y, mvrp.reg (mvrp.act env d act).1 v = some y ∧ y ≠ .MT ∧
      (y = .LV → x = .LV ∨ act = .timer .leaveAll) := by
  obtain ⟨c, hcell, rfl⟩ := Option.map_eq_some_iff.mp hreg
  have hcell : mvrpCell d v = some c := hcell
  have hsame : ∀ c', mvrpCell (mvrp.act env d act).1 v = some c' →
      mvrp.reg (mvrp.act env d act).1 v = some c'.reg := by
    intro c' h
    exact congrArg (Option.map Cell.reg) h
  cases hc : mvrp.call d act with
  | none =>
    exact ⟨_, hsame _ (mvrpCell_idle ht hc env hcell (Cell.reclaimable_of_reg hx)), hx, Or.inl⟩
  | some cl =>
    have hcalled := mvrpCell_called ht hc env v
    rw [hcell] at hcalled
    by_cases hscope : cl.scope v = true
    · rw [if_pos hscope] at hcalled
      cases act with
      | cmd cmd client =>
        simp only [Participant.call, Option.map_eq_some_iff] at hc
        obtain ⟨q, hq, rfl⟩ := hc
        have hkey : v = q.2 := of_decide_eq_true hscope
        rw [mvrp_requestFor hq hkey] at hnew hlv
        have hjoin : q.1 = .JOIN := by
          rcases Cmd.request_event hq with h | h | h
          all_goals grind
        have hevent : (mvrp.attribCall d q.1 { value := q.2 }).event = .JOIN := hjoin
        have hin : (cellStep true .JOIN false (some c)).1 =
            some ⟨applicantNext c.app .JOIN (c.reg = .IN), .IN⟩ := by
          have hjoined : (remapStep .JOIN c.reg).1 = .IN := by
            cases c.reg <;> rfl
          have hne : (remapStep .JOIN c.reg).1 ≠ .MT := by
            rw [hjoined]
            decide
          rw [cellStep_kept rfl (Cell.reclaimable_of_reg hne), hjoined]
        grind
      | timer t =>
        obtain rfl := Option.some.inj hc
        cases t with
        | join => exact ⟨_, hsame _ hcalled, hx, Or.inl⟩
        | periodic => exact ⟨_, hsame _ hcalled, hx, Or.inl⟩
        | leaveAll =>
          refine ⟨_, hsame _ hcalled, ?_, fun _ => Or.inr rfl⟩
          dsimp only
          cases hr : c.reg <;> first | exact absurd hr hx | decide
        | leave =>
          have hin := hleave rfl
          have hkept : (cellStep true .LVTIMER false (some c)).1 = some ⟨c.app, .IN⟩ := by
            simp [cellStep, hin, regStep, registrarSwitch, settle, Cell.reclaimable]
          exact ⟨.IN, hsame _ (hcalled.trans hkept), by decide, fun h => absurd h (by decide)⟩
      | pdu e w src => exact absurd hposs Bool.false_ne_true
      | leaveAll w src => exact absurd hposs Bool.false_ne_true
      | bye client => exact absurd hc (by simp [Participant.call])
      | reclaim => exact absurd hc (by simp [Participant.call])
    · grind

theorem lvTimer_of_lv (env : Env) {act : Act Vid (Cmd Vid)} (ht : Tidy mvrp.key d.attribList)
    (hact : act ≠ .timer .leave) (hafter : mvrp.reg (mvrp.act env d act).1 v = some .LV)
    (hbefore : mvrp.reg d v = some .IN ∨ mvrp.reg d v = some .LV) :
    (mvrp.act env d act).1.mrpDb.lvTimer = some (env.now + lvTimerVal) ∨
      mvrp.reg d v = some .LV ∧ (mvrp.act env d act).1.mrpDb.lvTimer = d.mrpDb.lvTimer := by
  cases mvrp_lawful.act_leave env d act ht with
  | started hne h timer => exact Or.inl timer
  | fired h _ => exact absurd h hact
  | kept hne h timer =>
    rcases hbefore with hin | hlv
    · exact absurd ⟨hin, hafter⟩ (h v)
    · exact Or.inr ⟨hlv, timer⟩

theorem joinTimerVal_lt : joinTimerVal < lvTimerVal := by decide

structure Link.Held (v : Vid) (s : Link) : Prop where
  soundA : Sound s.clock s.a
  soundB : Sound s.clock s.b
  declares : mvrp.Declares s.a v
  registered : mvrp.reg s.b v = some .IN ∨ mvrp.reg s.b v = some .LV ∧
    ∃ j L, Unsent v s.a j ∧ s.b.mrpDb.lvTimer = some L ∧ j < L

theorem Link.sound_step {i : LinkInput} (hi : s.Possible i) (ha : Sound s.clock s.a)
    (hb : Sound s.clock s.b) :
    Sound (s.step i).clock (s.step i).a ∧ Sound (s.step i).clock (s.step i).b := by
  cases i with
  | wait t =>
    refine ⟨ha.later hi.1 ?_, hb.later hi.1 ?_⟩
    · intro j hj
      exact hi.2 j (List.mem_append_left _ (MrpDatabase.joinTimer_mem_expiries hj))
    · intro j hj
      exact hi.2 j (List.mem_append_right _ (MrpDatabase.joinTimer_mem_expiries hj))
  | a env peer act =>
    have ha : Sound (env.at s.clock).now s.a := ha
    have hb : Sound (peer.at s.clock).now s.b := hb
    exact ⟨ha.act (Act.vidsOk_of_possible hi), hb.deliver _⟩
  | b env peer act =>
    have ha : Sound (peer.at s.clock).now s.a := ha
    have hb : Sound (env.at s.clock).now s.b := hb
    exact ⟨ha.deliver _, hb.act (Act.vidsOk_of_possible hi)⟩

theorem Link.Held.wait (h : s.Held v) {t : Nat} (hi : s.Possible (.wait t)) :
    (s.step (.wait t)).Held v := by
  obtain ⟨ha, hb⟩ := sound_step hi h.soundA h.soundB
  exact ⟨ha, hb, h.declares, h.registered⟩

theorem Link.Held.reg_ne_mt (h : s.Held v) : ∃ x, mvrp.reg s.b v = some x ∧ x ≠ .MT := by
  rcases h.registered with hin | ⟨hlv, -⟩
  all_goals grind

theorem Link.Held.a_sends (h : s.Held v) (ht : t = .join ∨ t = .leaveAll)
    (hcalm : s.Calm v (.a env peer (.timer t)) = true) :
    mvrp.reg (s.step (.a env peer (.timer t))).b v = some .IN := by
  simp only [Link.Calm, Bool.and_eq_true] at hcalm
  obtain ⟨⟨hfits, -⟩, hvp⟩ := hcalm
  have hfits : t.Fits s.a := by
    rcases ht with rfl | rfl <;> exact of_decide_eq_true hfits
  have hdeliver := deliver_timer ht h.soundA hfits (env.at s.clock) (peer.at s.clock) s.b
  have hspares := sent_spares ht h.soundA.tidy h.declares
  have hparsed := t.parsed_sent ht s.a.attribList
  obtain ⟨c, hcell, hdecl⟩ := h.declares
  obtain ⟨a, ha, hvalue, rfl⟩ := mem_of_cell hcell
  have hdecl : a.applicant.mrpState.declared = true := hdecl
  have hstep : (s.step (.a env peer (.timer t))).b =
      deliver (peer.at s.clock) (mvrp.act (env.at s.clock) s.a (.timer t)).2.pdu s.b := rfl
  rw [hstep, hdeliver]
  obtain ⟨x, hreg, hx⟩ := h.reg_ne_mt
  rcases ht with rfl | rfl
  · refine registered_frame _ _ hparsed hspares h.soundB.tidy hreg hx ?_
    rcases h.registered with hin | ⟨hlv, j, L, hunsent, -⟩
    · exact Or.inl (Option.some.inj (hreg.symm.trans hin))
    · obtain ⟨c', hcell', happ⟩ := hunsent.cell
      have hcell' : a.cell = c' := Option.some.inj (hcell.symm.trans hcell')
      have happ : a.applicant.mrpState = .VP ∨ a.applicant.mrpState = .VN := by
        rw [← hcell'] at happ
        exact happ
      rw [← hvalue]
      exact Or.inr (sent_registers (Or.inl rfl) ha (applicant_join_unsent happ))
  · -- the LeaveAll takes B's registrar to LV, and the declaration behind it back to IN
    obtain ⟨c, hc, rfl⟩ := Option.map_eq_some_iff.mp hreg
    have hla := mvrpCell_leaveAll h.soundB.tidy (peer.at s.clock) none
      (env.at s.clock).stationAddr hc
    have hlv : (regStep c.reg .RLA).1 = .LV := by
      cases hr : c.reg <;> first | rfl | exact absurd hr hx
    have hreg' : mvrp.reg (mvrp.act (peer.at s.clock) s.b
        (.leaveAll none (env.at s.clock).stationAddr)).1 v = some .LV := by
      rw [← hlv]
      exact congrArg (Option.map Cell.reg) hla
    have hne : a.applicant.mrpState ≠ .VP := by
      intro heq
      have hcell : mvrpCell s.a v = some a.cell := hcell
      rw [hcell] at hvp
      simp [Attrib.cell, heq] at hvp
    have hjoin : ∃ r ∈ Timer.leaveAll.sent s.a.attribList, r.Registers v := by
      rw [← hvalue]
      exact sent_registers (Or.inr rfl) ha (applicant_leaveAll_declared hdecl hne)
    have htidy := mvrp_tidy h.soundB.tidy (peer.at s.clock)
      (.leaveAll none (env.at s.clock).stationAddr)
    have hback := registered_frame (peer.at s.clock) (env.at s.clock).stationAddr hparsed hspares
      htidy hreg' (show RegState.LV ≠ .MT by decide) (Or.inr hjoin)
    exact hback

theorem Link.Held.a_step (h : s.Held v) {act : Act Vid (Cmd Vid)}
    (hi : s.Possible (.a env peer act)) (hcalm : s.Calm v (.a env peer act) = true) :
    (s.step (.a env peer act)).Held v := by
  obtain ⟨ha, hb⟩ := sound_step hi h.soundA h.soundB
  have hreq : mvrp.requestFor v s.a act ≠ some .LV := by
    grind [Calm]
  refine ⟨ha, hb, declares_act (env.at s.clock) h.soundA.tidy hreq h.declares, ?_⟩
  by_cases hsend : act = .timer .join ∨ act = .timer .leaveAll
  · grind [a_sends]
  · rw [not_or] at hsend
    have hb : (s.step (.a env peer act)).b = s.b := by
      have hpdu := act_pdu_none (d := s.a) (env.at s.clock) hsend.1 hsend.2
      simp only [Link.step, hpdu]
      rfl
    rw [hb]
    rcases h.registered with hin | ⟨hlv, j, L, hunsent, hL, hlt⟩
    · exact Or.inl hin
    · exact Or.inr ⟨hlv, j, L,
        hunsent.act h.soundA.tidy (env.at s.clock) hsend.1 hsend.2 hreq, hL, hlt⟩

theorem Link.Held.b_sends (h : s.Held v) {act : Act Vid (Cmd Vid)}
    (hcalm : s.Calm v (.b env peer act) = true) :
    mvrp.Declares (s.step (.b env peer act)).a v ∧
      (∀ j, Unsent v s.a j → Unsent v (s.step (.b env peer act)).a j) ∧
      (act = .timer .leaveAll →
        ∃ j, j ≤ s.clock + joinTimerVal ∧ Unsent v (s.step (.b env peer act)).a j) := by
  have hstep : (s.step (.b env peer act)).a =
      deliver (peer.at s.clock) (mvrp.act (env.at s.clock) s.b act).2.pdu s.a := rfl
  rw [hstep]
  by_cases hsend : act = .timer .join ∨ act = .timer .leaveAll
  · obtain ⟨t, ht, rfl⟩ : ∃ t : Timer, (t = .join ∨ t = .leaveAll) ∧ act = .timer t := by
      grind
    simp only [Link.Calm, Bool.and_eq_true] at hcalm
    have hfits : t.Fits s.b := by
      rcases ht with rfl | rfl <;> exact of_decide_eq_true hcalm.1.1
    rw [deliver_timer ht h.soundB hfits]
    refine ⟨declares_frame _ _ _ h.soundA.tidy h.declares,
      fun j hj => hj.frame _ _ _ h.soundA.tidy, ?_⟩
    intro hact
    obtain rfl : t = .leaveAll := by injection hact
    have hsound : Sound (peer.at s.clock).now s.a := h.soundA
    obtain ⟨j, -, hle, hunsent⟩ := unsent_of_leaveAll hsound h.declares none
      (env.at s.clock).stationAddr
    have hrest := hunsent.frame (peer.at s.clock) (env.at s.clock).stationAddr
      (Timer.leaveAll.sent s.b.attribList) (mvrp_tidy h.soundA.tidy _ _)
    exact ⟨j, hle, hrest⟩
  · rw [not_or] at hsend
    rw [act_pdu_none (env.at s.clock) hsend.1 hsend.2]
    exact ⟨h.declares, fun j hj => hj, fun hact => absurd hact hsend.2⟩

theorem Link.Held.leave_in (h : s.Held v) (hdue : Timer.leave.due s.clock s.b.mrpDb = true) :
    mvrp.reg s.b v = some .IN := by
  rcases h.registered with hin | ⟨-, j, L, hunsent, hL, hlt⟩
  · exact hin
  · obtain ⟨j', hj', hge, -⟩ := h.soundA.join hunsent.running
    obtain rfl : j = j' := Option.some.inj (hunsent.timer.symm.trans hj')
    grind [Timer.due]

theorem Link.Held.b_step (h : s.Held v) {act : Act Vid (Cmd Vid)}
    (hi : s.Possible (.b env peer act)) (hcalm : s.Calm v (.b env peer act) = true) :
    (s.step (.b env peer act)).Held v := by
  obtain ⟨ha, hb⟩ := sound_step hi h.soundA h.soundB
  obtain ⟨hdecl, hkeep, hall⟩ := h.b_sends hcalm
  have hreqs : mvrp.requestFor v s.b act ≠ some .NEW ∧ mvrp.requestFor v s.b act ≠ some .LV := by
    grind [Calm]
  refine ⟨ha, hb, hdecl, ?_⟩
  have hstep : (s.step (.b env peer act)).b = (mvrp.act (env.at s.clock) s.b act).1 := rfl
  rw [hstep]
  obtain ⟨x, hreg, hx⟩ := h.reg_ne_mt
  have hleave : act = .timer .leave → x = .IN := by
    rintro rfl
    exact Option.some.inj (hreg.symm.trans (h.leave_in hi))
  obtain ⟨y, hy, hne, hlv⟩ := own_reg (env.at s.clock) h.soundB.tidy hreg hx hi hreqs.1 hreqs.2
    hleave
  cases y with
  | MT => exact absurd rfl hne
  | IN => exact Or.inl hy
  | LV =>
    right
    have hnotleave : act ≠ .timer .leave := by
      grind
    have hbefore : mvrp.reg s.b v = some .IN ∨ mvrp.reg s.b v = some .LV :=
      h.registered.imp id fun hr => hr.1
    -- A waits to send: it did before, or this act is B's LeaveAll
    obtain ⟨j, hunsent⟩ : ∃ j, Unsent v (s.step (.b env peer act)).a j := by
      grind [registered]
    obtain ⟨j', hj', -, hle⟩ := ha.join hunsent.running
    obtain rfl : j = j' := Option.some.inj (hunsent.timer.symm.trans hj')
    have hclock : (s.step (.b env peer act)).clock = s.clock := rfl
    have hval := joinTimerVal_lt
    refine ⟨hy, j, ?_⟩
    rcases lvTimer_of_lv (env.at s.clock) h.soundB.tidy hnotleave hy hbefore with
      htimer | ⟨hwas, htimer⟩
    · grind [Env.at]
    · rcases h.registered with hin | ⟨-, j₀, L, hunsent₀, hL, hlt⟩
      · exact absurd (hwas.symm.trans hin) (by decide)
      · have hsame := (hkeep j₀ hunsent₀).timer
        grind

theorem Link.Held.step {i : LinkInput} (hi : s.Possible i ∧ s.Calm v i = true) (h : s.Held v) :
    (s.step i).Held v := by
  cases i with
  | wait t => exact h.wait hi.1
  | a env peer act => exact h.a_step hi.1 hi.2
  | b env peer act => exact h.b_step hi.1 hi.2

theorem Sound.init (env : Env) : Sound env.now (mvrpInit env) := by
  refine ⟨mvrp_lawful.initial_tidy ⟨env, rfl⟩, rfl, ?_, ?_⟩
  · intro hrun
    exact absurd hrun Bool.false_ne_true
  · intro w hw
    rfl

end Avb4Linux.Mrp
