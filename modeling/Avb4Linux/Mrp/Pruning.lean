import Avb4Linux.Mrp.Declarations

/-!
# Pruning of uninteresting streams

With pruning, `msrp_event` admits a talker only if it is of interest.
-/

namespace Avb4Linux.Mrp

open Lib Lib.Runs

def MsrpDatabase.OnlyInteresting (d : MsrpDatabase) : Prop :=
  ∀ a ∈ d.attribList, a.value.type.isTalker = true →
    a.value.talkListen.streamID ∈ d.interestingStreamIds ∨
    ∃ b ∈ d.attribList, b.value.type = .LISTENER ∧
      b.value.talkListen.streamID = a.value.talkListen.streamID

instance MsrpDatabase.decidableOnlyInteresting (d : MsrpDatabase) :
    Decidable d.OnlyInteresting :=
  inferInstanceAs (Decidable (∀ a ∈ d.attribList, a.value.type.isTalker = true →
    a.value.talkListen.streamID ∈ d.interestingStreamIds ∨
    ∃ b ∈ d.attribList, b.value.type = .LISTENER ∧
      b.value.talkListen.streamID = a.value.talkListen.streamID))

def MsrpDatabase.cell (d : MsrpDatabase) (k : MsrpKey) : Option Cell :=
  cellAt msrpKey d.attribList k

def MsrpDatabase.Wanted (d : MsrpDatabase) (sid : StreamId) : Prop :=
  d.cell (.talker sid) ≠ none →
    sid ∈ d.interestingStreamIds ∨ d.cell (.listener sid) ≠ none

def Cell.observed (c : Cell) : Bool :=
  c.app = .VO || c.app = .AO || c.app = .QO

def Cell.discarded (event : Event) (forced : Bool) (c : Cell) : Bool :=
  match event with
  | .LVTIMER => c.observed && c.reg ≠ .IN
  | .RIN => c.observed && (forced || c.reg = .MT)
  | .RMT => (c.observed || c.app = .LO) && (forced || c.reg = .MT)
  | _ => false

def MsrpDatabase.discards (d : MsrpDatabase) (act : Act MsrpValue MsrpCmd) (k : MsrpKey) : Bool :=
  (d.cell k).any fun c =>
    match act with
    | .timer .leave => c.discarded .LVTIMER false
    | .reclaim => c.reclaimable
    | .pdu e v src =>
      msrpInterested d v && k = msrpKey v &&
        c.discarded e.received (mergeForces msrpOps msrpKey (receivedAttrib src v) d.attribList)
    | _ => false

/-- An act that reclaims the listener of a stream finds its id interesting, or leaves
no talker of it; the set is cleared only if every talker has a listener. -/
def MsrpDatabase.Orderly (d : MsrpDatabase) (i : Input MsrpValue MsrpCmd) : Prop :=
  (∀ client, i.act = .cmd .clearInteresting client → msrpRefuses client d = false →
    ∀ sid, d.cell (.talker sid) ≠ none → d.cell (.listener sid) ≠ none) ∧
  ∀ sid, d.discards i.act (.listener sid) = true →
    sid ∈ d.interestingStreamIds ∨ d.cell (.talker sid) = none ∨
      d.discards i.act (.talker sid) = true

theorem cellAt_ne_none {V K : Type} [DecidableEq K] {key : V → K} {l : List (Attrib V)} {k : K} :
    cellAt key l k ≠ none ↔ ∃ a ∈ l, key a.value = k := by
  unfold cellAt attribAt
  rw [ne_eq, Option.map_eq_none_iff, KeyedList.get_eq_none]
  simp

theorem msrpKey_eq_talker {v : MsrpValue} {sid : StreamId} :
    msrpKey v = .talker sid ↔ v.type.isTalker = true ∧ v.talkListen.streamID = sid := by
  grind [isTalker_of_key, msrpKey_talker, MsrpKey.talker.inj]

theorem msrpKey_eq_listener {v : MsrpValue} {sid : StreamId} :
    msrpKey v = .listener sid ↔ v.type = .LISTENER ∧ v.talkListen.streamID = sid := by
  unfold msrpKey
  cases v.type <;> simp

theorem MsrpDatabase.onlyInteresting_iff {d : MsrpDatabase} :
    d.OnlyInteresting ↔ ∀ sid, d.Wanted sid := by
  unfold MsrpDatabase.OnlyInteresting MsrpDatabase.Wanted MsrpDatabase.cell
  constructor
  · grind [cellAt_ne_none, msrpKey_eq_talker, msrpKey_eq_listener]
  · grind [cellAt, msrpKey, cellAt_ne_none, msrpKey_talker, msrpKey_eq_listener]

theorem msrpLookup_isNone (d : MsrpDatabase) (v : MsrpValue) :
    (msrpOps.lookup d.attribList v).isNone = false ↔ d.cell (msrpKey v) ≠ none := by
  unfold MsrpDatabase.cell
  rw [cellAt_ne_none, Option.isNone_eq_false_iff, Ops.lookup, List.find?_isSome]
  exact exists_congr fun a => and_congr_right fun _ => msrpSame_iff a.value v

theorem msrpInterested_iff {d : MsrpDatabase} (hp : d.enablePruning = true) {v : MsrpValue}
    (hv : v.type.isTalker = true) :
    msrpInterested d v = true ↔ v.talkListen.streamID ∈ d.interestingStreamIds ∨
      d.cell (.listener v.talkListen.streamID) ≠ none := by
  grind [msrpLookup_isNone, msrpKey, msrpInterested]

theorem cellStep_isNone {event : Event} (hev : event ≠ .NEW ∧ event ≠ .JOIN ∧ event ≠ .LV)
    (forced : Bool) (c : Cell) :
    (cellStep true event forced (some c)).1 = none ↔ c.discarded event forced = true := by
  obtain ⟨app, reg⟩ := c
  cases event <;> first
    | exact absurd rfl hev.1
    | exact absurd rfl hev.2.1
    | exact absurd rfl hev.2.2
    | (cases forced <;> cases app <;> cases reg <;> decide)

theorem PduEvent.received_remote (e : PduEvent) :
    e.received ≠ .NEW ∧ e.received ≠ .JOIN ∧ e.received ≠ .LV := by
  cases e <;> decide

theorem Timer.event_remote (t : Timer) : t.event ≠ .NEW ∧ t.event ≠ .JOIN ∧ t.event ≠ .LV := by
  cases t <;> decide

variable {d : MsrpDatabase} {act : Act MsrpValue MsrpCmd} {k : MsrpKey}

theorem MsrpDatabase.cell_after (env : Env) (hcmd : act.isCmd = false)
    (ht : Tidy msrp.key d.attribList) {c : Cell} (hc : d.cell k = some c) :
    (msrp.act env d act).1.cell k = none ↔ d.discards act k = true := by
  have hmid : cellAt msrp.key (msrp.base d).attribList k = some c := hc
  cases msrp_lawful.act_spec env d act ht with
  | called cl hcall db spec pruned spared =>
    have hafter : (msrp.act env d act).1.cell k = cellAt msrp.key db.attribList k := by
      rcases pruned.cells k with h | ⟨h, -⟩
      · exact h
      · grind
    rw [hafter, spec.cell k]
    cases act with
    | cmd cmd client => exact absurd hcmd (by simp [Act.isCmd])
    | pdu e v src =>
      obtain rfl := Option.some.inj hcall
      have hscope : (msrp.attribCall d e.received (receivedAttrib src v)).scope k =
          (msrpInterested d v && decide (k = msrpKey v)) := by
        simp [Participant.attribCall, msrp, receivedAttrib]
      have hdisc : d.discards (.pdu e v src) k = (msrpInterested d v && decide (k = msrpKey v) &&
          c.discarded e.received
            (mergeForces msrpOps msrpKey (receivedAttrib src v) d.attribList)) := by
        rw [MsrpDatabase.discards, hc]
        rfl
      rw [hscope, hdisc, hmid]
      by_cases hon : (msrpInterested d v && decide (k = msrpKey v)) = true
      · rw [if_pos hon, hon, Bool.true_and]
        exact cellStep_isNone e.received_remote _ c
      · grind
    | leaveAll v src =>
      obtain rfl := Option.some.inj hcall
      grind [discards, cellStep]
    | timer t =>
      obtain rfl := Option.some.inj hcall
      have hdisc : d.discards (.timer t) k = c.discarded t.event false := by
        rw [MsrpDatabase.discards, hc]
        cases t <;> rfl
      grind [msrp, Timer.event, Cell.discarded, cellStep_isNone, Timer.event_remote]
    | bye client => exact absurd hcall (by simp [Participant.call])
    | reclaim => exact absurd hcall (by simp [Participant.call])
  | collected hact spec =>
    subst hact
    have hafter := congrArg Prod.fst (spec.cells k)
    rw [hmid] at hafter
    have hsettle : (msrp.act env d .reclaim).1.cell k = (settle true c .NONE).1 := hafter
    grind [discards, settle]
  | idle hact hcall pruned hn =>
    cases act with
    | bye client =>
      have hafter : (msrp.act env d (.bye client)).1.cell k = d.cell k := rfl
      grind [discards, bye]
    | reclaim => exact absurd rfl hact
    | cmd cmd client => exact absurd hcmd (by simp [Act.isCmd])
    | pdu e v src => exact absurd hcall (by simp [Participant.call])
    | leaveAll v src => exact absurd hcall (by simp [Participant.call])
    | timer t => exact absurd hcall (by simp [Participant.call])

theorem MsrpDatabase.cell_new (env : Env) (hcmd : act.isCmd = false)
    (ht : Tidy msrp.key d.attribList) (hc : d.cell k = none)
    (hafter : (msrp.act env d act).1.cell k ≠ none) :
    ∃ e v src, act = .pdu e v src ∧ msrpKey v = k ∧ msrpInterested d v = true := by
  have hmid : cellAt msrp.key (msrp.base d).attribList k = none := hc
  cases msrp_lawful.act_spec env d act ht with
  | called cl hcall db spec pruned spared =>
    have hcell : (msrp.act env d act).1.cell k = cellAt msrp.key db.attribList k := by
      rcases pruned.cells k with h | ⟨h, -⟩
      · exact h
      · grind
    rw [hcell, spec.cell k, hmid] at hafter
    cases act with
    | cmd cmd client => exact absurd hcmd (by simp [Act.isCmd])
    | pdu e v src =>
      obtain rfl := Option.some.inj hcall
      refine ⟨e, v, src, rfl, ?_⟩
      by_contra hon
      refine hafter (if_neg ?_)
      simp only [Participant.attribCall, msrp, receivedAttrib, Bool.not_not, Bool.and_eq_true]
      exact fun h => hon ⟨(of_decide_eq_true h.2).symm, h.1⟩
    | leaveAll v src =>
      obtain rfl := Option.some.inj hcall
      simp [cellStep] at hafter
    | timer t =>
      obtain rfl := Option.some.inj hcall
      cases t <;> simp [cellStep, Timer.event] at hafter
    | bye client => exact absurd hcall (by simp [Participant.call])
    | reclaim => exact absurd hcall (by simp [Participant.call])
  | collected hact spec =>
    have hcell := congrArg Prod.fst (spec.cells k)
    rw [hmid] at hcell
    exact absurd hcell hafter
  | idle hact hcall pruned hn =>
    have hcell : (msrp.act env d act).1.cell k = d.cell k := by
      rcases pruned.cells k with h | ⟨h, -⟩
      · exact h
      · grind
    exact absurd (hcell.trans hc) hafter

theorem msrpEvent_interesting (env : Env) (event : Event) (r : Option (Attrib MsrpValue)) :
    (msrpEvent env event r d).1.interestingStreamIds = d.interestingStreamIds := by
  cases event <;> cases r <;> simp only [msrpEvent] <;> (repeat' split) <;> rfl

theorem act_interesting (env : Env) (hcmd : act.isCmd = false) :
    (msrp.act env d act).1.interestingStreamIds = d.interestingStreamIds := by
  cases act with
  | cmd cmd client => exact absurd hcmd (by simp [Act.isCmd])
  | pdu e v src => exact msrpEvent_interesting env e.received (some (receivedAttrib src v))
  | leaveAll v src => exact msrpEvent_interesting env .RLA (v.map (receivedAttrib src))
  | timer t => exact msrpEvent_interesting env t.event none
  | bye client => rfl
  | reclaim => rfl

theorem MsrpDatabase.Wanted.after_act (env : Env) (hcmd : act.isCmd = false)
    (ht : Tidy msrp.key d.attribList) (hp : d.enablePruning = true)
    (hok : d.Orderly ⟨env, act⟩) {sid : StreamId} (h : d.Wanted sid) :
    (msrp.act env d act).1.Wanted sid := by
  intro hafter
  rw [act_interesting env hcmd]
  have hlistener : d.cell (.listener sid) ≠ none → d.discards act (.listener sid) = false →
      (msrp.act env d act).1.cell (.listener sid) ≠ none := by
    intro hl hkept hnone
    obtain ⟨c, hc⟩ := Option.ne_none_iff_exists'.mp hl
    grind [cell_after]
  cases htalker : d.cell (.talker sid) with
  | none =>
    obtain ⟨e, v, src, rfl, hkey, hint⟩ := cell_new env hcmd ht htalker hafter
    obtain ⟨htype, rfl⟩ := msrpKey_eq_talker.mp hkey
    refine ((msrpInterested_iff hp htype).mp hint).imp id fun hl => hlistener hl ?_
    simp [MsrpDatabase.discards, hkey]
  | some t =>
    have hstays : d.discards act (.talker sid) = false := by
      grind [cell_after]
    rcases h (by simp [htalker]) with hin | hl
    · exact Or.inl hin
    · cases hdisc : d.discards act (.listener sid) with
      | false => exact Or.inr (hlistener hl hdisc)
      | true =>
        rcases hok.2 sid hdisc with hin | hnone | hgone
        all_goals grind

theorem msrpEvent_cell (env : Env) {event : Event} (hev : isAttribEvent event = true)
    {r : Attrib MsrpValue} (hr : r.Fresh) (ht : Tidy msrp.key d.attribList)
    (hk : k ≠ msrpKey r.value ∨ msrpInterested d r.value = false) :
    (msrpEvent env event (some r) d).1.cell k = d.cell k := by
  have hcell := (msrpEvent_attrib env hev hr ht).cell k
  refine hcell.trans (if_neg ?_)
  simp only [Participant.attribCall, msrp, Bool.not_not, Bool.and_eq_true]
  grind

theorem MsrpDatabase.Wanted.after_event (env : Env) {event : Event}
    (hev : isAttribEvent event = true) {r : Attrib MsrpValue} (hr : r.Fresh)
    (ht : Tidy msrp.key d.attribList) (hp : d.enablePruning = true) {sid : StreamId}
    (hkey : msrpKey r.value ≠ .listener sid) (h : d.Wanted sid) :
    (msrpEvent env event (some r) d).1.Wanted sid := by
  intro hafter
  rw [msrpEvent_interesting, msrpEvent_cell env hev hr ht (Or.inl hkey.symm)]
  by_cases htalker : msrpKey r.value = .talker sid
  · obtain ⟨htype, rfl⟩ := msrpKey_eq_talker.mp htalker
    cases hint : msrpInterested d r.value with
    | true => exact (msrpInterested_iff hp htype).mp hint
    | false =>
      rw [msrpEvent_cell env hev hr ht (Or.inr hint)] at hafter
      exact h hafter
  · rw [msrpEvent_cell env hev hr ht (Or.inl (Ne.symm htalker))] at hafter
    exact h hafter

theorem dropTalkers_wanted (ht : Tidy msrp.key d.attribList) {s sid : StreamId}
    (h : sid ≠ s → d.Wanted sid) : (dropTalkers s d).Wanted sid := by
  have hcell : ∀ k, (dropTalkers s d).cell k = if k = .talker s then none else d.cell k :=
    dropTalkers_cell s ht
  intro htalker
  rw [hcell] at htalker ⊢
  by_cases heq : sid = s
  · grind
  · rw [if_neg (by simp [heq])] at htalker
    rw [if_neg (by simp)]
    exact h heq htalker

theorem cellStep_new (forced : Bool) (c : Option Cell) :
    (cellStep true .NEW forced c).1 ≠ none := by
  cases c with
  | none => cases forced <;> decide
  | some c =>
    obtain ⟨app, reg⟩ := c
    cases forced <;> cases app <;> cases reg <;> decide

theorem msrpEvent_reported (env : Env) (v : MsrpValue) (hv : v.type = .LISTENER)
    (ht : Tidy msrp.key d.attribList) :
    (msrpEvent env .NEW (some { value := v }) d).1.cell (msrpKey v) ≠ none := by
  have hev : isAttribEvent .NEW = true := rfl
  have hspec := msrpEvent_attrib env hev (fresh_request v) ht
  have hint : msrpInterested d v = true := by
    simp [msrpInterested, MsrpType.isTalker, hv]
  have hscope : (msrp.attribCall d .NEW { value := v }).scope (msrpKey v) = true := by
    simp [Participant.attribCall, msrp, hint]
  have hcell := hspec.cell (msrpKey v)
  rw [if_pos hscope] at hcell
  intro hnone
  exact cellStep_new _ _ (hcell.symm.trans hnone)

theorem MsrpDatabase.Wanted.served (env : Env) (cmd : MsrpCmd) (ht : Tidy msrp.key d.attribList)
    (hp : d.enablePruning = true) {sid : StreamId}
    (hclear : cmd = .clearInteresting → d.cell (.talker sid) ≠ none →
      d.cell (.listener sid) ≠ none)
    (h : d.Wanted sid) : (msrpServeCmd env cmd d).1.Wanted sid := by
  cases cmd with
  | query => exact h
  | invalid => exact h
  | stream isNew failed t =>
    refine h.after_event env ?_ (fresh_request _) ht hp ?_
    · cases isNew <;> rfl
    · cases failed <;> simp [msrpKey]
  | leaveStream s => exact h.after_event env rfl (fresh_request _) ht hp (by simp [msrpKey])
  | domainStatus report dom =>
    refine h.after_event env ?_ (fresh_request _) ht hp (by simp [msrpKey])
    cases report <;> rfl
  | reportListener s substate =>
    by_cases heq : s = sid
    · subst heq
      intro htalker
      exact Or.inr (msrpEvent_reported env _ rfl ht)
    · exact h.after_event env rfl (fresh_request _) ht hp (by simp [msrpKey, heq])
  | withdrawListener s =>
    let v : MsrpValue := { type := .LISTENER, talkListen := { streamID := s } }
    let substate := (msrpOps.lookup d.attribList v).elim 0 fun a => a.value.substate
    let r : Attrib MsrpValue := { value := { v with substate := substate } }
    let m := (msrpEvent env .LV (some r) d).1
    have hserve : (msrpServeCmd env (.withdrawListener s) d).1 =
        if m.enablePruning && !m.interestingStreamIds.contains s then dropTalkers s m else m := rfl
    have htidy : Tidy msrp.key m.attribList := (msrpEvent_attrib env rfl (fresh_request _) ht).tidy
    have hother : sid ≠ s → m.Wanted sid := by
      intro hne
      exact h.after_event env rfl (fresh_request _) ht hp
        (by simp [msrpKey, v, Ne.symm hne])
    rw [hserve]
    by_cases hkeep : (m.enablePruning && !m.interestingStreamIds.contains s) = true
    · rw [if_pos hkeep]
      exact dropTalkers_wanted htidy hother
    · rw [if_neg hkeep]
      by_cases heq : sid = s
      · intro htalker
        grind [msrpEvent_enablePruning]
      · exact hother heq
  | addInteresting s =>
    have hserve : (msrpServeCmd env (.addInteresting s) d).1 =
        if d.enablePruning && !d.interestingStreamIds.contains s &&
            d.interestingStreamIds.length < d.maxInteresting then
          { d with interestingStreamIds := d.interestingStreamIds ++ [s] }
        else d := rfl
    rw [hserve]
    by_cases hroom : (d.enablePruning && !d.interestingStreamIds.contains s &&
        d.interestingStreamIds.length < d.maxInteresting) = true
    · rw [if_pos hroom]
      intro htalker
      exact (h htalker).imp (fun hin => List.mem_append_left _ hin) id
    · rw [if_neg hroom]
      exact h
  | removeInteresting s =>
    let m : MsrpDatabase := { d with interestingStreamIds := d.interestingStreamIds.erase s }
    let v : MsrpValue := { type := .LISTENER, talkListen := { streamID := s } }
    have hserve : (msrpServeCmd env (.removeInteresting s) d).1 =
        if d.enablePruning && d.interestingStreamIds.contains s then
          if (msrpOps.lookup d.attribList v).isNone then dropTalkers s m else m
        else d := rfl
    have htidy : Tidy msrp.key m.attribList := ht
    have hother : sid ≠ s → m.Wanted sid := by
      intro hne htalker
      exact (h htalker).imp (fun hin => (List.mem_erase_of_ne hne).mpr hin) id
    rw [hserve]
    by_cases hin : (d.enablePruning && d.interestingStreamIds.contains s) = true
    · rw [if_pos hin]
      by_cases hlistener : (msrpOps.lookup d.attribList v).isNone = true
      · rw [if_pos hlistener]
        exact dropTalkers_wanted htidy hother
      · rw [if_neg hlistener]
        have hcell := (msrpLookup_isNone d v).mp (eq_false_of_ne_true hlistener)
        by_cases heq : sid = s
        · subst heq
          exact fun _ => Or.inr hcell
        · exact hother heq
    · rw [if_neg hin]
      exact h
  | clearInteresting =>
    intro htalker
    exact Or.inr (hclear rfl htalker)

structure MsrpDatabase.Pruning (d : MsrpDatabase) : Prop where
  tidy : Tidy msrp.key d.attribList
  enabled : d.enablePruning = true
  only : d.OnlyInteresting

theorem msrpRecvCmd_refused (env : Env) (cmd : MsrpCmd) {client : SockAddr}
    (h : msrpRefuses client d = true) :
    (msrpRecvCmd env cmd client d).1 =
      msrpBye client (d.withBase (addClient client d.toDatabase)) :=
  congrArg Prod.fst (if_pos h)

theorem msrpRecvCmd_served (env : Env) (cmd : MsrpCmd) {client : SockAddr}
    (h : msrpRefuses client d = false) :
    (msrpRecvCmd env cmd client d).1 =
      (msrpServeCmd env cmd (d.withBase (addClient client d.toDatabase))).1 :=
  congrArg Prod.fst (if_neg (ne_true_of_eq_false h))

theorem MsrpDatabase.Pruning.step (d : MsrpDatabase) (i : Input MsrpValue MsrpCmd)
    (hok : d.Orderly i) (h : d.Pruning) : (msrp.step d i).Pruning := by
  obtain ⟨env, act⟩ := i
  have hwanted := onlyInteresting_iff.mp h.only
  refine ⟨msrp_lawful.act_tidy env act h.tidy, (msrp_lawful.prunes_act env d act).trans h.enabled,
    onlyInteresting_iff.mpr fun sid => ?_⟩
  cases hcmd : act.isCmd with
  | false => exact (hwanted sid).after_act env hcmd h.tidy h.enabled hok
  | true =>
    cases act with
    | cmd cmd client =>
      have hstep : msrp.step d ⟨env, .cmd cmd client⟩ = (msrpRecvCmd env cmd client d).1 := rfl
      rw [hstep]
      cases hrefuse : msrpRefuses client d with
      | true =>
        rw [msrpRecvCmd_refused env cmd hrefuse]
        exact hwanted sid
      | false =>
        rw [msrpRecvCmd_served env cmd hrefuse]
        have htidy : Tidy msrp.key (d.withBase (addClient client d.toDatabase)).attribList :=
          h.tidy
        refine MsrpDatabase.Wanted.served env cmd htidy h.enabled ?_ (hwanted sid)
        rintro rfl htalker
        exact hok.1 client rfl hrefuse sid htalker
    | _ => exact absurd hcmd (by simp [Act.isCmd])

theorem MsrpDatabase.Pruning.orderly (d : MsrpDatabase) (i : Input MsrpValue MsrpCmd)
    (h : d.Pruning) (hgood : (msrp.step d i).OnlyInteresting) : d.Orderly i := by
  obtain ⟨env, act⟩ := i
  have hgood := onlyInteresting_iff.mp hgood
  constructor
  · intro client hact hrefuse sid htalker
    have hact : act = .cmd .clearInteresting client := hact
    subst hact
    have hstep : msrp.step d ⟨env, .cmd .clearInteresting client⟩ =
        { d.withBase (addClient client d.toDatabase) with interestingStreamIds := [] } :=
      msrpRecvCmd_served env .clearInteresting hrefuse
    rw [hstep] at hgood
    rcases hgood sid htalker with hin | hl
    · exact absurd hin List.not_mem_nil
    · exact hl
  · intro sid hdisc
    have hdisc : d.discards act (.listener sid) = true := hdisc
    have hcmd : act.isCmd = false := by
      cases act with
      | cmd cmd client => simp [MsrpDatabase.discards] at hdisc
      | _ => rfl
    cases htalker : d.cell (.talker sid) with
    | none => exact Or.inr (Or.inl rfl)
    | some t =>
      cases hgone : d.discards act (.talker sid) with
      | true => exact Or.inr (Or.inr rfl)
      | false =>
        left
        have hstays : (msrp.act env d act).1.cell (.talker sid) ≠ none := by
          intro hnone
          have hdrop := (cell_after env hcmd h.tidy htalker).mp hnone
          exact absurd (hdrop.symm.trans hgone) (by decide)
        rcases hgood sid hstays with hin | hl
        · have hids : (msrp.step d ⟨env, act⟩).interestingStreamIds = d.interestingStreamIds :=
            act_interesting env hcmd
          rwa [hids] at hin
        · obtain ⟨c, hc⟩ : ∃ c, d.cell (.listener sid) = some c := by
            cases hcell : d.cell (.listener sid) with
            | none => simp [MsrpDatabase.discards, hcell] at hdisc
            | some c => exact ⟨c, rfl⟩
          exact absurd ((cell_after env hcmd h.tidy hc).mpr hdisc) hl

/-- With pruning, every talker is of interest in all states of a run exactly if every
act of the run is orderly. -/
theorem msrp_onlyInteresting_iff (env : Env) (maxInteresting : Nat)
    (is : List (Input MsrpValue MsrpCmd)) :
    (∀ js, js <+: is → (run msrp.step (msrpInit env maxInteresting true) js).OnlyInteresting) ↔
      Along msrp.step MsrpDatabase.Orderly (msrpInit env maxInteresting true) is := by
  refine prefixes_good_iff MsrpDatabase.Pruning MsrpDatabase.OnlyInteresting
    (fun _ h => h.only) MsrpDatabase.Pruning.step MsrpDatabase.Pruning.orderly _ is ?_
  refine ⟨msrp_lawful.initial_tidy ⟨env, maxInteresting, true, rfl⟩, rfl, ?_⟩
  intro a ha
  exact absurd ha List.not_mem_nil

/-- Two runs that leave a talker behind: the set is cleared after the talker was
admitted; the listener that made it interesting leaves. -/
theorem msrp_talker_left_behind :
    let env : Env := { now := 0 }
    let sid : StreamId := Vector.replicate 8 1
    let src : MacAddr := Vector.replicate 6 2
    let talker : MsrpValue := { type := .TALKER_ADV, talkListen := { streamID := sid } }
    let listener : MsrpValue :=
      { type := .LISTENER, talkListen := { streamID := sid }, substate := 2 }
    let cleared := run msrp.step (msrpInit env 8 true)
      [⟨env, .cmd (.addInteresting sid) ⟨0, 0⟩⟩, ⟨env, .pdu .JOININ talker src⟩,
        ⟨env, .cmd .clearInteresting ⟨0, 0⟩⟩]
    let left := run msrp.step (msrpInit env 8 true)
      [⟨env, .pdu .JOININ listener src⟩, ⟨env, .pdu .JOININ talker src⟩,
        ⟨env, .pdu .LV listener src⟩, ⟨{ now := msec 100 }, .timer .join⟩,
        ⟨{ now := msec 1000 }, .timer .leave⟩]
    ¬ cleared.OnlyInteresting ∧ ¬ left.OnlyInteresting := by
  decide

end Avb4Linux.Mrp
