import Avb4Linux.Lib.Runs
import Avb4Linux.Mrp.Participant

/-!
# Received frames as acts

The receive functions call the event function for what they decode and do nothing else to the
database.
-/

namespace Avb4Linux.Mrp

open Lib.Runs Lib.Packing List

variable {V K D C : Type}

inductive Received.Parsed : Received V → Prop where
  | event (e : PduEvent) (v : V) : Received.Parsed ⟨e.received, some v⟩
  | leaveAll (v : Option V) : Received.Parsed ⟨.RLA, v⟩

def Received.act (src : MacAddr) : Received V → Act V C
  | ⟨.RNEW, some v⟩ => .pdu .NEW v src
  | ⟨.RJOININ, some v⟩ => .pdu .JOININ v src
  | ⟨.RIN, some v⟩ => .pdu .IN v src
  | ⟨.RJOINMT, some v⟩ => .pdu .JOINMT v src
  | ⟨.RMT, some v⟩ => .pdu .MT v src
  | ⟨.RLV, some v⟩ => .pdu .LV v src
  | ⟨_, v⟩ => .leaveAll v src

theorem Received.Parsed.act_eq {r : Received V} (h : r.Parsed) (P : Participant V K D C)
    (env : Env) (src : MacAddr) (d : D) :
    P.act env d (r.act src) = P.event env r.event (r.value.map (receivedAttrib src)) d := by
  cases h with
  | event e v => cases e <;> rfl
  | leaveAll v => rfl

theorem Received.act_ne_timer (src : MacAddr) (r : Received V) (t : Timer) :
    (r.act src : Act V C) ≠ .timer t := by
  unfold Received.act
  split <;> simp

def frameInputs (env : Env) (src : MacAddr) (rs : List (Received V)) : List (Input V C) :=
  rs.map fun r => ⟨env, r.act src⟩

theorem runReceived_eq_run (P : Participant V K D C) (env : Env) (src : MacAddr)
    (rs : List (Received V)) (hrs : ∀ r ∈ rs, r.Parsed) (d : D) :
    (runReceived (P.event env) src rs d).1 = run P.step d (frameInputs env src rs) := by
  induction rs generalizing d with
  | nil => rfl
  | cons r rs ih =>
    have hr : P.step d ⟨env, r.act src⟩ =
        (P.event env r.event (r.value.map (receivedAttrib src)) d).1 := by
      unfold Participant.step
      rw [(hrs r (by simp)).act_eq P env src d]
    have hrest := ih (fun r hr => hrs r (by simp [hr])) (P.step d ⟨env, r.act src⟩)
    grind [runReceived, frameInputs, run_cons]

theorem mem_parseVectors {P : VectorParser V} {Q : Received V → Prop} (hrla : Q P.rla)
    (hvalues : ∀ cur ds, ∀ r ∈ P.values cur ds, Q r) (fuel : Nat) (saw : Bool)
    (cur : List UInt8) : ∀ r ∈ (parseVectors P fuel saw cur).1, Q r := by
  have hflag : ∀ b : Bool, ∀ r ∈ (if b then [P.rla] else []), Q r := by
    intro b r hr
    cases b <;> simp_all
  induction fuel generalizing saw cur with
  | zero => simp [parseVectors]
  | succ fuel ih =>
    intro r hr
    rw [parseVectors] at hr
    grind

theorem mem_mvrpVidEvents (vid : Vid) (ds : List Nat) :
    ∀ r ∈ mvrpVidEvents vid ds, r.Parsed := by
  induction ds generalizing vid with
  | nil => simp [mvrpVidEvents]
  | cons d ds ih =>
    intro r hr
    rw [mvrpVidEvents] at hr
    split at hr
    · exact ih _ r hr
    · split at hr
      · rcases mem_cons.mp hr with rfl | hr
        · exact .event _ _
        · exact ih _ r hr
      · exact ih _ r hr

theorem mem_mvrpMessages {Q : Received Vid → Prop} (hrla : Q ⟨.RLA, none⟩)
    (hvalues : ∀ vid ds, ∀ r ∈ mvrpVidEvents vid ds, Q r) (fuel : Nat) (version : UInt8)
    (endmarks : Nat) (saw : Bool) (cur : List UInt8) :
    ∀ r ∈ mvrpMessages fuel version endmarks saw cur, Q r := by
  induction fuel generalizing endmarks saw cur with
  | zero => simp [mvrpMessages]
  | succ fuel ih =>
    intro r hr
    have hvectors := mem_parseVectors (P := mvrpVidParser) hrla
      (fun cur ds => hvalues _ ds) fuel saw (cur.drop 2)
    rw [mvrpMessages] at hr
    grind

theorem forall_mvrpParse {Q : Received Vid → Prop} (hrla : Q ⟨.RLA, none⟩)
    (hvalues : ∀ vid ds, ∀ r ∈ mvrpVidEvents vid ds, Q r) (frame : Frame) :
    ∀ r ∈ mvrpParse frame, Q r := by
  intro r hr
  unfold mvrpParse at hr
  repeat' split at hr
  all_goals first
    | exact absurd hr (by simp)
    | exact mem_mvrpMessages hrla hvalues _ _ _ _ _ r hr

theorem mem_mvrpParse (frame : Frame) : ∀ r ∈ mvrpParse frame, r.Parsed :=
  forall_mvrpParse (.leaveAll none) mem_mvrpVidEvents frame

theorem mvrpRecvMsg_eq_run (env : Env) (frame : Frame) (db : Database Vid) :
    (mvrpRecvMsg env frame db).1 =
      run mvrp.step db (frameInputs env (frameSrc frame) (mvrpParse frame)) :=
  runReceived_eq_run mvrp env _ _ (mem_mvrpParse frame) db

theorem mem_mmrpSvcEvents (v : UInt8) (ds : List Nat) :
    ∀ r ∈ mmrpSvcEvents v ds, r.Parsed := by
  induction ds generalizing v with
  | nil => simp [mmrpSvcEvents]
  | cons d ds ih =>
    intro r hr
    rw [mmrpSvcEvents] at hr
    split at hr
    · exact ih _ r hr
    · split at hr
      · rcases mem_cons.mp hr with rfl | hr
        · exact .event _ _
        · exact ih _ r hr
      · exact ih _ r hr

theorem mem_mmrpMacEvents (a : MacAddr) (ds : List Nat) :
    ∀ r ∈ mmrpMacEvents a ds, r.Parsed := by
  induction ds generalizing a with
  | nil => simp [mmrpMacEvents]
  | cons d ds ih =>
    intro r hr
    rw [mmrpMacEvents] at hr
    split at hr
    · rcases mem_cons.mp hr with rfl | hr
      · exact .event _ _
      · exact ih _ r hr
    · exact ih _ r hr

theorem mem_mmrpVectors {P : VectorParser MmrpValue}
    (hP : P = mmrpSvcParser ∨ P = mmrpMacParser) (fuel : Nat) (saw : Bool) (cur : List UInt8) :
    ∀ r ∈ (parseVectors P fuel saw cur).1, r.Parsed := by
  rcases hP with rfl | rfl
  · exact mem_parseVectors (.leaveAll _) (fun _ ds => mem_mmrpSvcEvents _ ds) fuel saw cur
  · exact mem_parseVectors (.leaveAll _) (fun _ ds => mem_mmrpMacEvents _ ds) fuel saw cur

theorem mem_mmrpMessages (fuel endmarks : Nat) (saw : Bool) (cur : List UInt8) :
    ∀ r ∈ mmrpMessages fuel endmarks saw cur, r.Parsed := by
  induction fuel generalizing endmarks saw cur with
  | zero => simp [mmrpMessages]
  | succ fuel ih =>
    grind [mmrpMessages, mmrpSvcParser, mmrpMacParser, mem_mmrpVectors]

theorem mem_mmrpParse (frame : Frame) : ∀ r ∈ mmrpParse frame, r.Parsed := by
  grind [mmrpParse, mem_mmrpMessages]

theorem mmrpRecvMsg_eq_run (env : Env) (frame : Frame) (db : Database MmrpValue) :
    (mmrpRecvMsg env frame db).1 =
      run mmrp.step db (frameInputs env (frameSrc frame) (mmrpParse frame)) :=
  runReceived_eq_run mmrp env _ _ (mem_mmrpParse frame) db

structure MsrpCalls (Q : Received MsrpValue → Prop) : Prop where
  rla : ∀ type, Q ⟨.RLA, some { type := type }⟩
  talker : ∀ (e : PduEvent) type t, Q ⟨e.received, some { type := type, talkListen := t }⟩
  listener : ∀ (e : PduEvent) sid x, x < 4 →
    Q ⟨e.received, some
      { type := .LISTENER, talkListen := { streamID := sid }, substate := UInt32.ofNat x }⟩
  domain : ∀ (e : PduEvent) dom, Q ⟨e.received, some { type := .DOMAIN, domain := dom }⟩

variable {Q : Received MsrpValue → Prop}

theorem mem_msrpCall (d : Nat) {v : MsrpValue} (hv : ∀ e : PduEvent, Q ⟨e.received, some v⟩) :
    ∀ r ∈ msrpCall d v, Q r := by
  intro r hr
  unfold msrpCall at hr
  grind

theorem MsrpCalls.talkerEvents (h : MsrpCalls Q) (type : MsrpType) (t : TalkListen)
    (ds : List Nat) : ∀ r ∈ msrpTalkerEvents type t ds, Q r := by
  induction ds generalizing t with
  | nil => simp [msrpTalkerEvents]
  | cons d ds ih =>
    intro r hr
    rw [msrpTalkerEvents, mem_append] at hr
    rcases hr with hr | hr
    · exact mem_msrpCall _ (fun e => h.talker e type t) r hr
    · exact ih _ r hr

theorem MsrpCalls.listenerEvents (h : MsrpCalls Q) (sid : StreamId) (ds : List Nat)
    {ss : List Nat} (hss : ∀ x ∈ ss, x < 4) : ∀ r ∈ msrpListenerEvents sid ds ss, Q r := by
  induction ds generalizing sid ss with
  | nil => simp [msrpListenerEvents]
  | cons d ds ih =>
    cases ss with
    | nil => simp [msrpListenerEvents]
    | cons x ss =>
      intro r hr
      rw [msrpListenerEvents, mem_append] at hr
      rcases hr with hr | hr
      · split at hr
        · simp at hr
        · exact mem_msrpCall _ (fun e => h.listener e sid x (hss x (by simp))) r hr
      · exact ih _ (fun y hy => hss y (by simp [hy])) r hr

theorem MsrpCalls.domainEvents (h : MsrpCalls Q) (dom : SrDomain) (ds : List Nat) :
    ∀ r ∈ msrpDomainEvents dom ds, Q r := by
  induction ds generalizing dom with
  | nil => simp [msrpDomainEvents]
  | cons d ds ih =>
    intro r hr
    rw [msrpDomainEvents, mem_append] at hr
    rcases hr with hr | hr
    · exact mem_msrpCall _ (fun e => h.domain e dom) r hr
    · exact ih _ r hr

theorem MsrpCalls.values (h : MsrpCalls Q) {b : UInt8} {P : MsrpParser}
    (hP : msrpParser b = some P) (cur : List UInt8) (ds : List Nat) {ss : List Nat}
    (hss : ∀ x ∈ ss, x < 4) : ∀ r ∈ P.values cur ds ss, Q r := by
  unfold msrpParser at hP
  grind [Option.some.inj, talkerEvents, listenerEvents, domainEvents]

theorem substates_lt (k n : Nat) (bs : List UInt8) : ∀ x ∈ substates k n bs, x < 4 := by
  induction k generalizing n bs with
  | zero => simp [substates]
  | succ k ih =>
    grind [substates, decode4]

theorem MsrpCalls.vectors (h : MsrpCalls Q) {b : UInt8} {P : MsrpParser}
    (hP : msrpParser b = some P) (fuel : Nat) (saw : List MsrpType) (cur : List UInt8) :
    ∀ r ∈ (msrpVectors P fuel saw cur).1, Q r := by
  have hflag : ∀ b : Bool, ∀ r ∈ (if b then [(⟨.RLA, some { type := P.type }⟩ :
      Received MsrpValue)] else []), Q r := by
    grind [rla]
  induction fuel generalizing saw cur with
  | zero => simp [msrpVectors]
  | succ fuel ih =>
    intro r hr
    rw [msrpVectors] at hr
    split at hr
    · simp at hr
    dsimp only at hr
    generalize (if P.fourPacked = true then numSubstateBytes _ else 0) = nb4 at hr
    generalize (if P.fourPacked = true then vectNumvalues _ / 4 else 0) = n4 at hr
    split at hr
    · rcases mem_append.mp hr with hr | hr
      · exact hflag _ r hr
      · exact ih _ _ r hr
    split at hr
    · exact hflag _ r hr
    split at hr
    · exact hflag _ r hr
    rw [mem_append, mem_append] at hr
    rcases hr with (hr | hr) | hr
    · exact hflag _ r hr
    · exact h.values hP _ _ (substates_lt _ _ _) r hr
    · exact ih _ _ r hr

theorem MsrpCalls.messageList (h : MsrpCalls Q) (fuel endmarks : Nat) (saw : List MsrpType)
    (cur : List UInt8) : ∀ r ∈ msrpMessageList fuel endmarks saw cur, Q r := by
  induction fuel generalizing endmarks saw cur with
  | zero => simp [msrpMessageList]
  | succ fuel ih =>
    intro r hr
    rw [msrpMessageList] at hr
    split at hr
    · simp at hr
    split at hr
    · split at hr
      · exact ih _ _ _ r hr
      · simp at hr
    split at hr
    · simp at hr
    · rename_i P hparser
      have hvectors := h.vectors hparser fuel saw (cur.drop 4)
      grind

theorem MsrpCalls.parse (h : MsrpCalls Q) (frame : Frame) : ∀ r ∈ msrpParse frame, Q r := by
  grind [msrpParse, messageList]

theorem mem_msrpParse (frame : Frame) : ∀ r ∈ msrpParse frame, r.Parsed :=
  MsrpCalls.parse ⟨fun _ => .leaveAll _, fun e _ _ => .event e _, fun e _ _ _ => .event e _,
    fun e _ => .event e _⟩ frame

theorem msrpRecvMsg_eq_run (env : Env) (frame : Frame) (db : MsrpDatabase) :
    (msrpRecvMsg env frame db).1 =
      run msrp.step db (frameInputs env (frameSrc frame) (msrpParse frame)) :=
  runReceived_eq_run msrp env _ _ (mem_msrpParse frame) db

end Avb4Linux.Mrp
