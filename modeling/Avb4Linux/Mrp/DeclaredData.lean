import Avb4Linux.Mrp.Frames
import Avb4Linux.Mrp.MsrpRoundTrip
import Avb4Linux.Mrp.Pruning
import Avb4Linux.Mrp.Transmit

/-!
# MSRP: what is sent about a declared stream

A stream has one record for what is declared and what is registered.
-/

namespace Avb4Linux.Mrp

open Lib Lib.Runs List

/-- A database with the most recent declaration of each key that has not been
withdrawn since. -/
structure Traced where
  db : MsrpDatabase
  declared : MsrpKey → Option MsrpValue

def MsrpDatabase.declare (d : MsrpDatabase) (act : Act MsrpValue MsrpCmd)
    (g : MsrpKey → Option MsrpValue) : MsrpKey → Option MsrpValue :=
  match act with
  | .cmd c client =>
    match msrp.request c client d with
    | some (e, v) => fun k => if k = msrpKey v then (if e = .LV then none else some v) else g k
    | none => g
  | _ => g

def Traced.step (s : Traced) (i : Input MsrpValue MsrpCmd) : Traced :=
  ⟨msrp.step s.db i, s.db.declare i.act s.declared⟩

def Traced.start (env : Env) (maxInteresting : Nat) (enablePruning : Bool) : Traced :=
  ⟨msrpInit env maxInteresting enablePruning, fun _ => none⟩

/-- A declaration that is not ignored and whose record, if there is one, was declared
too. A Talker must repeat what `msrp_merge` does not take over, a Listener must not
leave AskingFailed while there is no Talker. -/
def MsrpDatabase.Accepts (d : MsrpDatabase) (v : MsrpValue) : Prop :=
  msrpInterested d v = true ∧ (v.type = .LISTENER → v.substate.toNat < 4) ∧
    ∀ a ∈ d.attribList, msrpKey a.value = msrpKey v →
      a.value.operation = .DECLARE ∧
      (v.type.isTalker = true →
        { a.value.talkListen with
          failureCode := v.talkListen.failureCode
          bridgeID := v.talkListen.bridgeID } = v.talkListen) ∧
      (v.type = .LISTENER → a.value.substate = listenerAskFailed →
        v.substate = a.value.substate ∨
          talkerPresent d.attribList a.value.talkListen.streamID = true)

def MsrpDatabase.Compatible (d : MsrpDatabase) (act : Act MsrpValue MsrpCmd) : Prop :=
  match act with
  | .cmd c client =>
    match msrp.request c client d with
    | some (e, v) => e = .LV ∨ v.type = .DOMAIN ∨ d.Accepts v
    | none => True
  | .pdu _ v _ => v.operation = .REGISTER ∧ v.substate.toNat < 4
  | _ => True

instance MsrpDatabase.decidableCompatible (d : MsrpDatabase) (act : Act MsrpValue MsrpCmd) :
    Decidable (d.Compatible act) := by
  unfold MsrpDatabase.Compatible MsrpDatabase.Accepts
  split
  · split <;> infer_instance
  · infer_instance
  · infer_instance

variable {d : MsrpDatabase}

theorem msrpEvent_values (env : Env) {event : Event} (hev : isAttribEvent event = false)
    (r : Option (Attrib MsrpValue)) :
    (msrpEvent env event r d).1.attribList.map Attrib.value ⊆ d.attribList.map Attrib.value := by
  have hscan : ∀ (b : Database MsrpValue) (pdu : Option Frame) (notes : List (Note MsrpValue)),
      b.attribList.map Attrib.value ⊆ d.attribList.map Attrib.value →
      (d.withBase (scanNotify b pdu notes).1).attribList.map Attrib.value ⊆
        d.attribList.map Attrib.value := by
    grind [MsrpDatabase.withBase, scanNotify, scanNotify_values]
  cases event with
  | LVATIMER =>
    have htx := lvatimerBranch_values (msrpTxpdu_txOnly env true) env d.toDatabase
    exact hscan _ _ _ (htx ▸ List.Subset.refl _)
  | RLA =>
    cases r with
    | none => exact List.Subset.refl _
    | some r =>
      have hrla : (rlaBranch env (fun v => v.type = r.value.type) d.toDatabase).attribList.map
          Attrib.value = d.attribList.map Attrib.value := fsmAll_values _ _ _ _ _
      exact hscan _ _ _ (hrla ▸ List.Subset.refl _)
  | TX =>
    have htx := txBranch_values (msrpTxpdu_txOnly env false) env d.toDatabase
    exact hscan _ _ _ (htx ▸ List.Subset.refl _)
  | LVTIMER => exact hscan _ _ _ (lvtimerAll_values _ _ _ _).subset
  | PERIODIC => exact hscan _ _ _ (List.Subset.refl _)
  | _ => first | exact absurd hev (by decide) | exact hscan _ _ _ (List.Subset.refl _)

variable {v w : MsrpValue} {c : MsrpCmd} {client : SockAddr} {e : Event} {r : Attrib MsrpValue}
  {lva reclaims sendEmpty : Bool}

theorem msrpEvent_value (env : Env) {event : Event} (hev : isAttribEvent event = true)
    (r : Attrib MsrpValue) (ht : Tidy msrp.key d.attribList)
    (hv : v ∈ (msrpEvent env event (some r) d).1.attribList.map Attrib.value) :
    (msrpKey v ≠ msrpKey r.value ∨ msrpInterested d r.value = false) ∧
        v ∈ d.attribList.map Attrib.value ∨
      msrpInterested d r.value = true ∧ v = (mergedAttrib msrpOps msrpKey r d.attribList).value := by
  cases hint : msrpInterested d r.value with
  | false =>
    left
    have hevent : (msrpEvent env event (some r) d).1 =
        d.withBase (scanNotify d.toDatabase none []).1 := by
      cases event <;> first
        | exact absurd hev (by decide)
        | (simp only [msrpEvent, hint, Bool.false_eq_true, if_false])
    rw [hevent] at hv
    have hsame := scanNotify_values d.toDatabase none []
    exact ⟨Or.inr rfl, hsame ▸ hv⟩
  | true =>
    let x := attribBranch msrpOps env true event r d.toDatabase
    have hevent : (msrpEvent env event (some r) d).1.attribList.map Attrib.value =
        x.1.attribList.map Attrib.value := by
      have hscan := scanNotify_values x.1 none x.2.1
      cases event <;> first
        | exact absurd hev (by decide)
        | (simp only [msrpEvent, hint, if_true]; split <;> first | exact hscan | rfl)
    rw [hevent] at hv
    by_cases hmt : event = .RMT ∧ attribAt msrpKey d.attribList (msrpKey r.value) = none
    · obtain ⟨rfl, habs⟩ := hmt
      have hx : x = _ := (attribBranch_absent msrpOps_lawful env true false ht habs).1
      rw [hx] at hv
      obtain ⟨a, ha, rfl⟩ := mem_map.mp hv
      exact Or.inl ⟨Or.inl (KeyedList.get_eq_none.mp habs a ha), hv⟩
    · obtain ⟨l, hbranch, hu, hat⟩ := attribBranch_present msrpOps_lawful env true ht.unique hmt
      have hx : x.1.attribList = l := by
        grind
      rw [hx] at hv
      obtain ⟨a, ha, rfl⟩ := mem_map.mp hv
      have hself := hat (msrpKey a.value)
      rw [attribAt_of_mem hu ha] at hself
      by_cases hkey : msrpKey a.value = msrpKey r.value
      · right
        rw [if_pos hkey] at hself
        split at hself
        · exact absurd hself (by simp)
        · rw [Option.some.inj hself]
          exact ⟨rfl, rfl⟩
      · left
        rw [if_neg hkey] at hself
        exact ⟨Or.inl hkey, mem_map_of_mem (KeyedList.mem_of_get hself.symm)⟩

theorem msrpPrune_values (c : MsrpCmd) (d : MsrpDatabase) :
    (msrpPrune c d).attribList.map Attrib.value ⊆ d.attribList.map Attrib.value := by
  have hdrop : ∀ (sid : StreamId) (d : MsrpDatabase),
      (dropTalkers sid d).attribList.map Attrib.value ⊆ d.attribList.map Attrib.value := by
    intro sid d v hv
    obtain ⟨a, ha, rfl⟩ := mem_map.mp hv
    exact mem_map_of_mem (mem_of_mem_filter ha)
  cases c with
  | withdrawListener sid =>
    dsimp only [msrpPrune]
    split
    · exact hdrop sid d
    · exact List.Subset.refl _
  | addInteresting sid =>
    dsimp only [msrpPrune]
    split <;> exact List.Subset.refl _
  | removeInteresting sid =>
    dsimp only [msrpPrune]
    grind
  | _ => exact List.Subset.refl _

theorem request_served {x : Event × MsrpValue} (h : msrp.request c client d = some x) :
    msrpRefuses client d = false ∧ c.request d = some x := by
  have hif : (if msrpRefuses client d = true then none else c.request d) = some x := h
  grind

theorem request_addClient (c : MsrpCmd) (client : SockAddr) :
    c.request (d.withBase (addClient client d.toDatabase)) = c.request d := by
  cases c <;> rfl

theorem recvCmd_values_none (env : Env) (h : msrp.request c client d = none) :
    (msrpRecvCmd env c client d).1.attribList.map Attrib.value ⊆
      d.attribList.map Attrib.value := by
  cases hrefuse : msrpRefuses client d with
  | true =>
    rw [msrpRecvCmd_refused env c hrefuse]
    exact List.Subset.refl _
  | false =>
    have hreq : c.request d = none := by
      have hif : (if msrpRefuses client d = true then none else c.request d) = none := h
      rwa [hrefuse, if_neg Bool.false_ne_true] at hif
    rw [msrpRecvCmd_served env c hrefuse, msrpServeCmd, request_addClient, hreq]
    exact msrpPrune_values c _

theorem recvCmd_values_some (env : Env) (h : msrp.request c client d = some (e, v)) :
    (msrpRecvCmd env c client d).1.attribList.map Attrib.value ⊆
      (msrpEvent env e (some { value := v })
        (d.withBase (addClient client d.toDatabase))).1.attribList.map Attrib.value := by
  grind [request_served, msrpRecvCmd_served, msrpServeCmd, request_addClient, msrpPrune_values]

section

variable {l : List (Attrib MsrpValue)} {r a : Attrib MsrpValue}

theorem msrpMerge_received (hdecl : a.value.operation = .DECLARE)
    (hrecv : r.value.operation = .REGISTER) (htype : a.value.type ≠ .DOMAIN) :
    (msrpMerge l r a).value = a.value := by
  grind [msrpMerge]

theorem msrpMerge_operation : (msrpMerge l r a).value.operation = a.value.operation := by
  unfold msrpMerge
  grind

theorem msrpMerge_substate : (msrpMerge l r a).value.substate = a.value.substate ∨
    (msrpMerge l r a).value.substate = r.value.substate := by
  unfold msrpMerge
  grind

theorem MsrpValue.wire_congr_talker {v w : MsrpValue} (hv : v.type.isTalker = true)
    (htype : v.type = w.type) (htl : v.talkListen = w.talkListen) : v.wire = w.wire := by
  unfold MsrpValue.wire
  rw [← htype, htl]
  cases hvt : v.type <;> rw [hvt] at hv <;> first | rfl | exact absurd hv (by decide)

theorem msrpMerge_talker (hop : r.value.operation = a.value.operation)
    (ha : a.value.type.isTalker = true)
    (hfit : { a.value.talkListen with
      failureCode := r.value.talkListen.failureCode
      bridgeID := r.value.talkListen.bridgeID } = r.value.talkListen) :
    (msrpMerge l r a).value.type = r.value.type ∧
      (msrpMerge l r a).value.talkListen = r.value.talkListen := by
  unfold msrpMerge
  dsimp only
  rw [if_pos hop]
  cases hat : a.value.type <;> rw [hat] at ha <;> first | exact absurd ha (by decide) | skip
  all_goals
    dsimp only
    split
    · rename_i heq
      exact ⟨heq, hfit⟩
    · exact ⟨rfl, hfit⟩

theorem msrpMerge_listener (hop : r.value.operation = a.value.operation)
    (ha : a.value.type = .LISTENER)
    (hask : a.value.substate = listenerAskFailed → r.value.substate = a.value.substate ∨
      talkerPresent l a.value.talkListen.streamID = true) :
    (msrpMerge l r a).value.type = .LISTENER ∧
      (msrpMerge l r a).value.talkListen = a.value.talkListen ∧
      (msrpMerge l r a).value.substate = r.value.substate := by
  unfold msrpMerge
  grind

end

theorem MsrpValue.wire_listener (hv : v.type = .LISTENER) (hw : w.type = .LISTENER)
    (hsid : v.talkListen.streamID = w.talkListen.streamID) (hsub : v.substate = w.substate) :
    v.wire = w.wire := by
  unfold MsrpValue.wire
  rw [hv, hw, hsid, hsub]

theorem MsrpDatabase.Accepts.merged (h : d.Accepts v) (htype : v.type ≠ .DOMAIN)
    (hop : v.operation = .DECLARE) :
    (mergedAttrib msrpOps msrpKey { value := v } d.attribList).value.operation = .DECLARE ∧
      (mergedAttrib msrpOps msrpKey { value := v } d.attribList).value.wire = v.wire := by
  unfold mergedAttrib
  cases hat : attribAt msrpKey d.attribList (msrpKey v) with
  | none => exact ⟨hop, rfl⟩
  | some a =>
    have hkey : msrpKey a.value = msrpKey v := key_of_attribAt hat
    obtain ⟨hdecl, htalker, hlistener⟩ := h.2.2 a (KeyedList.mem_of_get hat) hkey
    have hsame : v.operation = a.value.operation := hop.trans hdecl.symm
    have hmerged : (some a).elim { value := v } (msrpOps.merge d.attribList { value := v }) =
        msrpMerge d.attribList { value := v } a := rfl
    rw [hmerged]
    refine ⟨msrpMerge_operation.trans hdecl, ?_⟩
    by_cases hv : v.type.isTalker = true
    · have ha : a.value.type.isTalker = true :=
        isTalker_of_key (hkey.trans (msrpKey_talker hv))
      grind [msrpMerge_talker, MsrpValue.wire_congr_talker]
    · have hv : v.type = .LISTENER := by
        cases hvt : v.type <;> rw [hvt] at hv htype <;> first
          | rfl
          | exact absurd rfl htype
          | exact absurd rfl hv
      grind [msrpKey, msrpKey_eq_listener, msrpMerge_listener, MsrpValue.wire_listener]

theorem applicantNext_undeclared {s : AppState} {event : Event} (b : Bool)
    (hev : event ≠ .NEW ∧ event ≠ .JOIN) (h : (applicantNext s event b).declared = true) :
    s.declared = true := by
  cases s <;> first | rfl | skip
  all_goals
    cases event <;> first
      | exact absurd rfl hev.1
      | exact absurd rfl hev.2
      | (cases b <;> exact absurd h (by decide))

theorem settle_some {c c' : Cell} {n : Notify} (h : (settle reclaims c n).1 = some c') :
    c' = c := by
  unfold settle at h
  grind

theorem cellStep_undeclared {forced : Bool} {event : Event} (hev : event ≠ .NEW ∧ event ≠ .JOIN)
    {c : Option Cell} {c' : Cell} (h : (cellStep reclaims event forced c).1 = some c')
    (hdecl : c'.app.declared = true) : ∃ c₀, c = some c₀ ∧ c₀.app.declared = true := by
  by_cases hattrib : isAttribEvent event = true
  · by_cases hmt : event = .RMT ∧ c = none
    · grind [cellStep]
    · rw [cellStep_attrib reclaims hattrib forced hmt] at h
      rw [settle_some h] at hdecl
      have hbefore := applicantNext_undeclared _ hev hdecl
      cases c with
      | none => cases forced <;> exact absurd hbefore (by decide)
      | some c₀ =>
        grind
  · cases c with
    | none => cases event <;> exact absurd h (by simp [cellStep, isAttribEvent] at hattrib ⊢)
    | some c₀ =>
      refine ⟨c₀, rfl, ?_⟩
      cases event with
      | LVATIMER => exact applicantNext_undeclared _ (by decide) (Option.some.inj h ▸ hdecl)
      | RLA => exact applicantNext_undeclared _ (by decide) (Option.some.inj h ▸ hdecl)
      | TX => exact applicantNext_undeclared _ (by decide) (Option.some.inj h ▸ hdecl)
      | PERIODIC => exact applicantNext_undeclared _ (by decide) (Option.some.inj h ▸ hdecl)
      | LVTIMER =>
        rw [settle_some h] at hdecl
        exact hdecl
      | _ => first | exact absurd rfl hattrib | exact Option.some.inj h ▸ hdecl

section

variable {V K D C : Type} [DecidableEq K] {P : Participant V K D C}

theorem call_undeclared {d : D} {act : Act V C} {c : Call K} (hc : P.call d act = some c) {k : K}
    (hk : c.scope k = true) (hreq : ∀ e, P.requestFor k d act = some e → e = .LV) :
    c.event ≠ .NEW ∧ c.event ≠ .JOIN := by
  cases act with
  | cmd cmd client =>
    simp only [Participant.call, Option.map_eq_some_iff] at hc
    obtain ⟨x, hx, rfl⟩ := hc
    have hkey : k = P.key x.2 := by
      grind [Participant.attribCall]
    have hlv : x.1 = .LV := hreq x.1 (by simp [Participant.requestFor, hx, ← hkey])
    have hevent : (P.attribCall d x.1 { value := x.2 }).event = .LV := hlv
    rw [hevent]
    decide
  | pdu e v src =>
    obtain rfl := Option.some.inj hc
    exact ⟨e.received_remote.1, e.received_remote.2.1⟩
  | leaveAll v src =>
    obtain rfl := Option.some.inj hc
    exact (by decide : Event.RLA ≠ .NEW ∧ Event.RLA ≠ .JOIN)
  | timer t =>
    obtain rfl := Option.some.inj hc
    exact ⟨t.event_remote.1, t.event_remote.2.1⟩
  | bye client => exact absurd hc (by simp [Participant.call])
  | reclaim => exact absurd hc (by simp [Participant.call])

theorem Participant.Lawful.declares_before (hP : P.Lawful) (env : Env) {d : D} {act : Act V C}
    (ht : Tidy P.key (P.base d).attribList) {k : K}
    (hreq : ∀ e, P.requestFor k d act = some e → e = .LV)
    (h : P.Declares (P.act env d act).1 k) : P.Declares d k := by
  obtain ⟨c', hc', hdecl⟩ := h
  have hkept : ∀ {prunes : Bool} {db : Database V},
      Pruned P.key prunes db (P.base (P.act env d act).1) →
      cellAt P.key db.attribList k = some c' := by
    intro prunes db hp
    rcases hp.cells k with heq | ⟨-, hnone⟩
    all_goals grind
  cases hP.act_spec env d act ht with
  | called c hc db spec pruned spared =>
    have hmid := hkept pruned
    rw [spec.cell k] at hmid
    split at hmid
    · rename_i hk
      exact cellStep_undeclared (call_undeclared hc hk hreq) hmid hdecl
    · exact ⟨c', hmid, hdecl⟩
  | collected hact spec =>
    have hcell := congrArg Prod.fst (spec.cells k)
    cases hbefore : cellAt P.key (P.base d).attribList k with
    | none =>
      grind
    | some c =>
      rw [hbefore, hc'] at hcell
      have hsame := settle_some hcell.symm
      exact ⟨c, hbefore, hsame ▸ hdecl⟩
  | idle hact hc pruned hn => exact ⟨c', hkept pruned, hdecl⟩

end

theorem declares_iff (ht : Tidy msrp.key d.attribList) {a : Attrib MsrpValue}
    (ha : a ∈ d.attribList) :
    msrp.Declares d (msrpKey a.value) ↔ a.applicant.mrpState.declared = true := by
  have hat : attribAt msrpKey d.attribList (msrpKey a.value) = some a :=
    attribAt_of_mem ht.unique ha
  have hcell : cellAt msrp.key (msrp.base d).attribList (msrpKey a.value) = some a.cell :=
    congrArg (Option.map Attrib.cell) hat
  constructor
  · rintro ⟨c, hc, hdecl⟩
    rw [hcell] at hc
    rw [← Option.some.inj hc] at hdecl
    exact hdecl
  · intro hdecl
    exact ⟨a.cell, hcell, hdecl⟩

/-- What is declared is the most recent declaration, and all substates can be sent. -/
structure Traced.Faithful (s : Traced) : Prop where
  tidy : Tidy msrp.key s.db.attribList
  substates : Declarable s.db.attribList
  sent : ∀ a ∈ s.db.attribList, a.value.type ≠ .DOMAIN →
    a.applicant.mrpState.declared = true → ∀ v, s.declared (msrpKey a.value) = some v →
    a.value.operation = .DECLARE ∧ a.value.wire = v.wire

def MsrpDatabase.attribEvent (d : MsrpDatabase) :
    Act MsrpValue MsrpCmd → Option (Event × Attrib MsrpValue)
  | .cmd c client => (msrp.request c client d).map fun x => (x.1, { value := x.2 })
  | .pdu e v src => some (e.received, receivedAttrib src v)
  | _ => none

theorem act_values (env : Env) (act : Act MsrpValue MsrpCmd) (ht : Tidy msrp.key d.attribList)
    (hv : v ∈ (msrp.act env d act).1.attribList.map Attrib.value) :
    (v ∈ d.attribList.map Attrib.value ∧ ∀ e r, d.attribEvent act = some (e, r) →
        msrpKey v ≠ msrpKey r.value ∨ msrpInterested d r.value = false) ∨
      ∃ e r, d.attribEvent act = some (e, r) ∧ msrpInterested d r.value = true ∧
        v = (mergedAttrib msrpOps msrpKey r d.attribList).value := by
  cases act with
  | cmd c client =>
    have hv : v ∈ (msrpRecvCmd env c client d).1.attribList.map Attrib.value := hv
    cases hreq : msrp.request c client d with
    | none =>
      exact Or.inl ⟨recvCmd_values_none env hreq hv, by simp [MsrpDatabase.attribEvent, hreq]⟩
    | some x =>
      have hattrib : d.attribEvent (.cmd c client) = some (x.1, { value := x.2 }) := by
        simp [MsrpDatabase.attribEvent, hreq]
      have htidy : Tidy msrp.key (d.withBase (addClient client d.toDatabase)).attribList := ht
      have hev := msrp_lawful.request_attrib c client d x hreq
      rcases msrpEvent_value env hev _ htidy (recvCmd_values_some env hreq hv) with
        ⟨hother, hmem⟩ | ⟨hint, hmerged⟩
      · refine Or.inl ⟨hmem, ?_⟩
        intro e r her
        rw [hattrib] at her
        obtain ⟨rfl, rfl⟩ := Prod.mk.inj (Option.some.inj her)
        exact hother
      · exact Or.inr ⟨_, _, hattrib, hint, hmerged⟩
  | pdu e w src =>
    rcases msrpEvent_value env (isAttribEvent_received e) _ ht hv with
      ⟨hother, hmem⟩ | ⟨hint, hmerged⟩
    · refine Or.inl ⟨hmem, ?_⟩
      intro e' r her
      obtain ⟨rfl, rfl⟩ := Prod.mk.inj (Option.some.inj her)
      exact hother
    · exact Or.inr ⟨_, _, rfl, hint, hmerged⟩
  | leaveAll w src =>
    have hmem : v ∈ (msrpEvent env .RLA (w.map (receivedAttrib src)) d).1.attribList.map
        Attrib.value := hv
    grind [isAttribEvent, msrpEvent_values, MsrpDatabase.attribEvent]
  | timer t =>
    have hmem : v ∈ (msrpEvent env t.event none d).1.attribList.map Attrib.value := hv
    exact Or.inl ⟨msrpEvent_values env t.event_not_attrib _ hmem,
      by simp [MsrpDatabase.attribEvent]⟩
  | bye client => exact Or.inl ⟨hv, by simp [MsrpDatabase.attribEvent]⟩
  | reclaim => exact Or.inl ⟨(reclaim_values _).subset hv, by simp [MsrpDatabase.attribEvent]⟩

theorem request_operation (h : c.request d = some (e, v)) (hlv : e ≠ .LV)
    (htype : v.type ≠ .DOMAIN) : v.operation = .DECLARE := by
  cases c <;> simp only [MsrpCmd.request, Option.some.injEq, Prod.mk.injEq, reduceCtorEq] at h <;>
    obtain ⟨rfl, rfl⟩ := h <;> first | rfl | exact absurd rfl hlv | exact absurd rfl htype

theorem request_withdrawn (h : c.request d = some (e, v)) (hlv : e = .LV)
    (htype : v.type = .LISTENER) (hsub : Declarable d.attribList) : v.substate.toNat < 4 := by
  cases c with
  | withdrawListener sid =>
    simp only [MsrpCmd.request, Option.some.injEq, Prod.mk.injEq] at h
    rw [← h.2]
    dsimp only
    cases hl : msrpOps.lookup d.attribList
        { type := .LISTENER, talkListen := { streamID := sid } } with
    | none => decide
    | some a =>
      rw [msrpOps_lawful.lookup_eq] at hl
      have hkey : msrpKey a.value = .listener sid := key_of_attribAt hl
      exact hsub a (KeyedList.mem_of_get hl) (msrpKey_eq_listener.mp hkey).1
  | stream isNew failed t =>
    simp only [MsrpCmd.request, Option.some.injEq, Prod.mk.injEq] at h
    grind
  | leaveStream sid =>
    grind [MsrpCmd.request, Option.some.injEq, Prod.mk.injEq]
  | reportListener sid substate =>
    grind [MsrpCmd.request, Option.some.injEq, Prod.mk.injEq]
  | domainStatus report dom =>
    grind [MsrpCmd.request, Option.some.injEq, Prod.mk.injEq]
  | _ => exact absurd h (by simp [MsrpCmd.request])

theorem attribEvent_substate {act : Act MsrpValue MsrpCmd} (hcomp : d.Compatible act)
    (hsub : Declarable d.attribList) (h : d.attribEvent act = some (e, r))
    (hr : r.value.type = .LISTENER) : r.value.substate.toNat < 4 := by
  cases act with
  | pdu e' w src =>
    obtain ⟨rfl, rfl⟩ := Prod.mk.inj (Option.some.inj h)
    exact hcomp.2
  | cmd c client =>
    obtain ⟨x, hx, her⟩ := Option.map_eq_some_iff.mp h
    obtain ⟨rfl, rfl⟩ := Prod.mk.inj her
    have hr : x.2.type = .LISTENER := hr
    simp only [MsrpDatabase.Compatible, hx] at hcomp
    rcases hcomp with hlv | hdom | hacc
    · exact request_withdrawn (request_served hx).2 hlv hr hsub
    · exact absurd (hr.symm.trans hdom) (by decide)
    · exact hacc.2.1 hr
  | _ => exact absurd h (by simp [MsrpDatabase.attribEvent])

theorem mergedAttrib_substate (hsub : Declarable d.attribList)
    (hr : r.value.type = .LISTENER → r.value.substate.toNat < 4)
    (hm : (mergedAttrib msrpOps msrpKey r d.attribList).value.type = .LISTENER) :
    (mergedAttrib msrpOps msrpKey r d.attribList).value.substate.toNat < 4 := by
  have hkey := msrpOps_lawful.mergedAttrib_key r d.attribList
  have hlistener := msrpKey_eq_listener.mpr ⟨hm, rfl⟩
  have hrt := (msrpKey_eq_listener.mp (hkey.symm.trans hlistener)).1
  unfold mergedAttrib
  cases hat : attribAt msrpKey d.attribList (msrpKey r.value) with
  | none => exact hr hrt
  | some a =>
    have ha : a.value.type = .LISTENER :=
      (msrpKey_eq_listener.mp ((key_of_attribAt hat).trans (hkey.symm.trans hlistener))).1
    have hmerge : (some a).elim r (msrpOps.merge d.attribList r) = msrpMerge d.attribList r a := rfl
    rw [hmerge]
    rcases msrpMerge_substate (l := d.attribList) (r := r) (a := a) with h | h <;> rw [h]
    · exact hsub a (KeyedList.mem_of_get hat) ha
    · exact hr hrt

theorem declare_of_requestFor {act : Act MsrpValue MsrpCmd} {k : MsrpKey}
    (hreq : msrp.requestFor k d act = none) (g : MsrpKey → Option MsrpValue) :
    d.declare act g k = g k := by
  cases act with
  | cmd c client =>
    simp only [MsrpDatabase.declare]
    cases hx : msrp.request c client d with
    | none => rfl
    | some x =>
      have hne : ¬ k = msrpKey x.2 := by
        rintro rfl
        have hkey : msrp.key x.2 = msrpKey x.2 := rfl
        simp [Participant.requestFor, hx, hkey] at hreq
      exact if_neg hne
  | _ => rfl

theorem declare_of_request (h : msrp.request c client d = some (e, w))
    (g : MsrpKey → Option MsrpValue) :
    d.declare (.cmd c client) g (msrpKey w) = if e = .LV then none else some w := by
  simp only [MsrpDatabase.declare, h, if_true]

theorem MsrpValue.ne_domain (hv : v.type ≠ .DOMAIN) (hkey : msrpKey w = msrpKey v) :
    w.type ≠ .DOMAIN := by
  intro hdom
  refine hv ?_
  unfold msrpKey at hkey
  grind

variable {s : Traced} {a : Attrib MsrpValue}

theorem Traced.Faithful.requested (h : s.Faithful) {env : Env}
    (hcomp : s.db.Compatible (.cmd c client)) (hx : msrp.request c client s.db = some (e, w))
    (ha : a ∈ (msrp.act env s.db (.cmd c client)).1.attribList)
    (hkey : msrpKey w = msrpKey a.value) (hlv : e ≠ .LV) (htype : w.type ≠ .DOMAIN) :
    a.value.operation = .DECLARE ∧ a.value.wire = w.wire := by
  have hacc : s.db.Accepts w := by
    grind [MsrpDatabase.Compatible]
  have hattrib : s.db.attribEvent (.cmd c client) = some (e, { value := w }) := by
    simp [MsrpDatabase.attribEvent, hx]
  rcases act_values env _ h.tidy (mem_map_of_mem ha) with
    ⟨-, hother⟩ | ⟨e', r, her, -, hmerged⟩
  · rcases hother _ _ hattrib with hne | hnot
    · exact absurd hkey.symm hne
    · exact absurd (hacc.1.symm.trans hnot) (by decide)
  · rw [hattrib] at her
    obtain ⟨rfl, rfl⟩ := Prod.mk.inj (Option.some.inj her)
    rw [hmerged]
    exact hacc.merged htype (request_operation (request_served hx).2 hlv htype)

theorem Traced.Faithful.received (h : s.Faithful) (hop : r.value.operation = .REGISTER)
    (htype : r.value.type ≠ .DOMAIN) (hdecl : msrp.Declares s.db (msrpKey r.value))
    (hv : s.declared (msrpKey r.value) = some v) :
    (mergedAttrib msrpOps msrpKey r s.db.attribList).value.operation = .DECLARE ∧
      (mergedAttrib msrpOps msrpKey r s.db.attribList).value.wire = v.wire := by
  obtain ⟨c, hcell, happ⟩ := hdecl
  obtain ⟨b, hat, rfl⟩ := Option.map_eq_some_iff.mp hcell
  have hat : attribAt msrpKey s.db.attribList (msrpKey r.value) = some b := hat
  have hkey : msrpKey b.value = msrpKey r.value := key_of_attribAt hat
  have hb := h.sent b (KeyedList.mem_of_get hat) (MsrpValue.ne_domain htype hkey) happ v
    (hkey ▸ hv)
  have hmerged : mergedAttrib msrpOps msrpKey r s.db.attribList =
      msrpMerge s.db.attribList r b := by
    rw [mergedAttrib, hat]
    rfl
  rw [hmerged, msrpMerge_received hb.1 hop (MsrpValue.ne_domain htype hkey)]
  exact hb

theorem Traced.Faithful.sent_after (h : s.Faithful) (env : Env) {act : Act MsrpValue MsrpCmd}
    (hcomp : s.db.Compatible act) (ha : a ∈ (msrp.act env s.db act).1.attribList)
    (htype : a.value.type ≠ .DOMAIN) (hdecl : a.applicant.mrpState.declared = true)
    (hv : s.db.declare act s.declared (msrpKey a.value) = some v) :
    a.value.operation = .DECLARE ∧ a.value.wire = v.wire := by
  have htidy : Tidy msrp.key (msrp.act env s.db act).1.attribList :=
    msrp_lawful.act_tidy env act h.tidy
  cases hreq : msrp.requestFor (msrpKey a.value) s.db act with
  | some e =>
    cases act with
    | cmd c client =>
      obtain ⟨x, hx, hif⟩ := Option.bind_eq_some_iff.mp hreq
      by_cases hkey : msrpKey x.2 = msrpKey a.value
      · grind [declare_of_request, Option.some.inj, requested, MsrpValue.ne_domain]
      · have hkey : ¬ msrp.key x.2 = msrpKey a.value := hkey
        grind
    | _ => exact absurd hreq (by simp [Participant.requestFor])
  | none =>
    rw [declare_of_requestFor hreq] at hv
    have hbefore : msrp.Declares s.db (msrpKey a.value) :=
      msrp_lawful.declares_before env h.tidy (by simp [hreq]) ((declares_iff htidy ha).mpr hdecl)
    rcases act_values env act h.tidy (mem_map_of_mem ha) with
      ⟨hmem, -⟩ | ⟨e, r, hattrib, -, hmerged⟩
    · obtain ⟨b, hb, hvalue⟩ := mem_map.mp hmem
      rw [← hvalue] at htype hv hbefore ⊢
      exact h.sent b hb htype ((declares_iff h.tidy hb).mp hbefore) v hv
    · have hkey : msrpKey a.value = msrpKey r.value := by
        rw [hmerged]
        exact msrpOps_lawful.mergedAttrib_key r s.db.attribList
      cases act with
      | pdu e' w src =>
        obtain ⟨-, rfl⟩ := Prod.mk.inj (Option.some.inj hattrib)
        rw [hkey] at hbefore hv
        rw [hmerged]
        exact h.received hcomp.1 (MsrpValue.ne_domain htype hkey.symm) hbefore hv
      | cmd c client =>
        obtain ⟨x, hx, her⟩ := Option.map_eq_some_iff.mp hattrib
        obtain ⟨-, rfl⟩ := Prod.mk.inj her
        have hkey : msrp.key x.2 = msrpKey a.value := hkey.symm
        simp [Participant.requestFor, hx, hkey] at hreq
      | _ => exact absurd hattrib (by simp [MsrpDatabase.attribEvent])

theorem Traced.Faithful.step (s : Traced) (i : Input MsrpValue MsrpCmd)
    (hcomp : s.db.Compatible i.act) (h : s.Faithful) : (s.step i).Faithful := by
  refine ⟨msrp_lawful.act_tidy i.env i.act h.tidy, ?_, ?_⟩
  · intro a ha htype
    rcases act_values i.env i.act h.tidy (mem_map_of_mem ha) with
      ⟨hmem, -⟩ | ⟨e, r, hattrib, -, hmerged⟩
    · obtain ⟨b, hb, hvalue⟩ := mem_map.mp hmem
      rw [← hvalue] at htype ⊢
      exact h.substates b hb htype
    · rw [hmerged] at htype ⊢
      exact mergedAttrib_substate h.substates (attribEvent_substate hcomp h.substates hattrib) htype
  · intro a ha htype hdecl v hv
    exact h.sent_after i.env hcomp ha htype hdecl hv

theorem mem_msrpEmitted {C : Type} {F : VectorFormat MsrpValue C}
    {t : List (Attrib MsrpValue) × List UInt8} {vec : Vect MsrpValue}
    (hvec : vec ∈ msrpEmitted F lva t) : ∀ x ∈ vec.values, x.1.value ∈ t.1.map Attrib.value := by
  unfold msrpEmitted at hvec
  dsimp only at hvec
  cases hloop : (emitLoop F maxFrameSize 0 (messageListStart + t.2.length)
      (F.dataStart (messageListStart + t.2.length)) lva (0, 0) t.1).2 with
  | none =>
    rw [hloop] at hvec
    exact absurd hvec not_mem_nil
  | some vs =>
    rw [hloop] at hvec
    intro x hx
    have hmem := (emitLoop_vects hloop).1.subset hvec
    exact mem_map_of_mem (F.fst_mem_vects vec hmem x hx)

theorem mem_msrpEncodedCalls {C : Type} {F : VectorFormat MsrpValue C} {type : MsrpType}
    {t : List (Attrib MsrpValue) × List UInt8} {r : Received MsrpValue}
    (hr : r ∈ msrpEncodedCalls type sendEmpty (msrpEmitted F lva t)) :
    r.event = .RLA ∨ ∃ v ∈ t.1.map Attrib.value, r.value = some v.wire := by
  rcases mem_append.mp hr with hr | hr
  · grind
  · right
    obtain ⟨vec, hvec, hr⟩ := mem_flatMap.mp hr
    obtain ⟨x, hx, hr⟩ := mem_flatMap.mp hr
    grind [mem_msrpEmitted, msrpEncodedCall]

theorem markListeners_values (l : List (Attrib MsrpValue)) :
    (markListeners l).map Attrib.value = l.map Attrib.value := by
  rw [markListeners, map_map]
  refine map_congr_left fun a _ => ?_
  simp only [Function.comp_apply]
  split <;> rfl

theorem mem_msrpEncoded {l : List (Attrib MsrpValue)} {r : Received MsrpValue}
    (hr : r ∈ msrpEncoded sendEmpty lva l) :
    r.event = .RLA ∨ ∃ v ∈ l.map Attrib.value, r.value = some v.wire := by
  have hemit : ∀ {C : Type} (F : VectorFormat MsrpValue C)
      (t : List (Attrib MsrpValue) × List UInt8),
      (msrpEmit F sendEmpty lva t).1.map Attrib.value = t.1.map Attrib.value :=
    fun F t => map_value_of_clearTx (msrpEmit_clearTx F sendEmpty lva t)
  unfold msrpEncoded at hr
  dsimp only at hr
  rcases mem_append.mp hr with hr | hr
  · rcases mem_append.mp hr with hr | hr
    · rcases mem_append.mp hr with hr | hr
      · exact mem_msrpEncodedCalls hr
      · have h := mem_msrpEncodedCalls hr
        rwa [hemit] at h
    · have h := mem_msrpEncodedCalls hr
      rwa [markListeners_values, hemit, hemit] at h
  · have h := mem_msrpEncodedCalls hr
    rwa [hemit, markListeners_values, hemit, hemit] at h

theorem MsrpValue.wire_key (v : MsrpValue) : msrpKey v.wire = msrpKey v := by
  unfold MsrpValue.wire
  cases hv : v.type <;> simp [msrpKey, hv]

theorem timer_pdu_values {t : Timer} {env : Env} {frame : Frame} (hsub : Declarable d.attribList)
    (hframe : (msrp.act env d (.timer t)).2.pdu = some frame) {r : Received MsrpValue}
    (hr : r ∈ msrpParse frame) (hevent : r.event ≠ .RLA) :
    ∃ a ∈ d.attribList, r.value = some a.value.wire := by
  have ht : t = .join ∨ t = .leaveAll := by
    cases t with
    | join => exact Or.inl rfl
    | leaveAll => exact Or.inr rfl
    | leave => exact absurd hframe (by simp [Participant.act, msrp, msrpEvent, Timer.event, scanNotify])
    | periodic => exact absurd hframe (by simp [Participant.act, msrp, msrpEvent, Timer.event, scanNotify])
  have hpdu : (msrp.act env d (.timer t)).2.pdu = t.branch env (msrpTxpdu env) d.toDatabase := by
    rcases ht with rfl | rfl <;> rfl
  obtain ⟨m, hbranch, -⟩ := t.branch_eq ht env (msrpTxpdu env) d.toDatabase
  rw [hpdu, hbranch] at hframe
  have hvalues : (t.advance d.attribList).map Attrib.value = d.attribList.map Attrib.value := by
    rcases ht with rfl | rfl
    · exact applicantAll_values _ _
    · rw [Timer.advance, map_map]
      rfl
  obtain ⟨hparse, -⟩ := msrpParse_msrpTxpdu (hsub.of_map hvalues) hframe
  grind [mem_msrpEncoded]

/-- What is sent about a stream that is declared is its most recent declaration. -/
theorem msrp_sends_declared (env₀ : Env) (maxInteresting : Nat) (enablePruning : Bool)
    (is : List (Input MsrpValue MsrpCmd))
    (hok : Along Traced.step (fun s i => s.db.Compatible i.act)
      (Traced.start env₀ maxInteresting enablePruning) is) :
    let s := run Traced.step (Traced.start env₀ maxInteresting enablePruning) is
    (∀ a ∈ s.db.attribList, a.value.type ≠ .DOMAIN → a.applicant.mrpState.declared = true →
      ∀ v, s.declared (msrpKey a.value) = some v → a.value.wire = v.wire) ∧
    ∀ env t frame, (msrp.act env s.db (.timer t)).2.pdu = some frame →
      ∀ r ∈ msrpParse frame, r.event ≠ .RLA → ∀ w, r.value = some w → w.type ≠ .DOMAIN →
        msrp.Declares s.db (msrpKey w) → ∀ v, s.declared (msrpKey w) = some v → w = v.wire := by
  intro s
  have hstart : (Traced.start env₀ maxInteresting enablePruning).Faithful :=
    ⟨msrp_lawful.initial_tidy ⟨env₀, maxInteresting, enablePruning, rfl⟩,
      fun a ha => absurd ha not_mem_nil, fun a ha => absurd ha not_mem_nil⟩
  have h : s.Faithful := run_invariant Traced.Faithful.step _ is hstart hok
  refine ⟨fun a ha htype hdecl v hv => (h.sent a ha htype hdecl v hv).2, ?_⟩
  intro env t frame hframe r hr hevent w hw htype hdecl v hv
  obtain ⟨a, ha, hvalue⟩ := timer_pdu_values h.substates hframe hr hevent
  obtain rfl := Option.some.inj (hw.symm.trans hvalue)
  rw [MsrpValue.wire_key] at hdecl hv
  have hdomain : a.value.type ≠ .DOMAIN := MsrpValue.ne_domain htype a.value.wire_key.symm
  exact (h.sent a ha hdomain ((declares_iff h.tidy ha).mp hdecl) v hv).2

theorem msrp_sends_declared_talker :
    let env : Env := { now := 0 }
    let t : TalkListen := { streamID := Vector.replicate 8 1, vlanID := 2, maxFrameSize := 100 }
    let failed : TalkListen := { t with failureCode := 1, bridgeID := Vector.replicate 8 7 }
    let listener : MsrpValue :=
      { type := .LISTENER, talkListen := { streamID := t.streamID }, substate := 2 }
    let src : MacAddr := Vector.replicate 6 2
    let is : List (Input MsrpValue MsrpCmd) :=
      [⟨env, .cmd (.stream true false t) ⟨0, 0⟩⟩,
        ⟨env, .pdu .JOININ { type := .TALKER_FAILED, talkListen := failed } src⟩,
        ⟨env, .pdu .JOININ listener src⟩,
        ⟨env, .cmd (.stream false true failed) ⟨0, 0⟩⟩]
    let s := run Traced.step (Traced.start env 8 false) is
    s.declared (.talker t.streamID) =
        some { type := .TALKER_FAILED, talkListen := failed, operation := .DECLARE } ∧
      (∀ a ∈ s.db.attribList, a.value.type ≠ .DOMAIN → a.applicant.mrpState.declared = true →
        ∀ v, s.declared (msrpKey a.value) = some v → a.value.wire = v.wire) := by
  intro env t failed listener src is s
  exact ⟨by decide, (msrp_sends_declared env 8 false is (by decide)).1⟩

/-- What is sent otherwise: a Listener stays in AskingFailed without a Talker; a Talker
keeps its destination; a Listener keeps the substate that was registered before. -/
theorem msrp_sends_other_data :
    let env : Env := { now := 0 }
    let sid : StreamId := Vector.replicate 8 1
    let src : MacAddr := Vector.replicate 6 2
    let t : TalkListen := { streamID := sid, destAddr := Vector.replicate 6 3 }
    let t' : TalkListen := { streamID := sid, destAddr := Vector.replicate 6 4 }
    let listener (x : UInt32) : MsrpValue :=
      { type := .LISTENER, talkListen := { streamID := sid }, substate := x }
    let sent (is : List (Input MsrpValue MsrpCmd)) :=
      let s := run Traced.step (Traced.start env 8 false) is
      (s.declared, ((msrp.act env s.db (.timer .join)).2.pdu.elim [] msrpParse).map Received.value)
    let asking := sent [⟨env, .cmd (.reportListener sid 1) ⟨0, 0⟩⟩,
      ⟨env, .cmd (.reportListener sid 2) ⟨0, 0⟩⟩]
    let moved := sent [⟨env, .cmd (.stream true false t) ⟨0, 0⟩⟩,
      ⟨env, .cmd (.stream true false t') ⟨0, 0⟩⟩]
    let registered := sent [⟨env, .pdu .JOININ (listener 2) src⟩,
      ⟨env, .cmd (.reportListener sid 1) ⟨0, 0⟩⟩]
    (asking.1 (.listener sid) = some { listener 2 with operation := .DECLARE } ∧
      asking.2 = [some (listener 1)]) ∧
    (moved.1 (.talker sid) = some { type := .TALKER_ADV, talkListen := t', operation := .DECLARE } ∧
      moved.2 = [some { type := .TALKER_ADV, talkListen := t }]) ∧
    (registered.1 (.listener sid) = some { listener 1 with operation := .DECLARE } ∧
      registered.2 = [some (listener 2)]) := by
  decide +kernel

end Avb4Linux.Mrp
