import Avb4Linux.Mrp.Participant

/-!
# The participants are lawful

Every act on a tidy MVRP, MMRP or MSRP database meets `ActSpec`.
-/

namespace Avb4Linux.Mrp

open Lib

theorem mvrpTxpdu_txOnly (env : Env) (sendEmpty : Bool) : TxOnly (mvrpTxpdu env sendEmpty) := by
  intro db
  exact ⟨rfl, emitVectors_clearTx _ _ _ _ _ _ _⟩

theorem mmrpTxpdu_txOnly (env : Env) (sendEmpty : Bool) : TxOnly (mmrpTxpdu env sendEmpty) := by
  intro db
  have hmac := emitVectors_clearTx mmrpMacFormat maxFrameSize messageListStart sendEmpty
    db.mrpDb.lva.tx (0, 0) db.attribList
  grind [mmrpTxpdu, emitVectors_clearTx]

theorem markListeners_clearTx (l : List (Attrib MsrpValue)) :
    (markListeners l).map Attrib.clearTx = l.map Attrib.clearTx := by
  unfold markListeners
  rw [List.map_map]
  apply List.map_congr_left
  intro a _
  simp only [Function.comp_apply]
  split <;> rfl

theorem msrpEmit_clearTx {C : Type} (F : VectorFormat MsrpValue C) (sendEmpty lva : Bool)
    (s : List (Attrib MsrpValue) × List UInt8) :
    (msrpEmit F sendEmpty lva s).1.map Attrib.clearTx = s.1.map Attrib.clearTx :=
  emitVectors_clearTx _ _ _ _ _ _ _

theorem msrpEmitListeners_clearTx (sendEmpty lva : Bool)
    (s : List (Attrib MsrpValue) × List UInt8) :
    (msrpEmitListeners sendEmpty lva s).1.map Attrib.clearTx = s.1.map Attrib.clearTx := by
  unfold msrpEmitListeners
  split
  · rfl
  · exact (msrpEmit_clearTx _ _ _ _).trans (markListeners_clearTx s.1)

theorem msrpMessages_clearTx (sendEmpty lva : Bool) (l : List (Attrib MsrpValue)) :
    (msrpMessages sendEmpty lva l).1.map Attrib.clearTx = l.map Attrib.clearTx := by
  let r1 := msrpEmit msrpTalkerAdvFormat sendEmpty lva (l, [])
  have h1 : r1.1.map Attrib.clearTx = l.map Attrib.clearTx := msrpEmit_clearTx _ _ _ _
  unfold msrpMessages
  simp only
  split
  · exact h1
  · rename_i b1 _
    let r2 := msrpEmit msrpTalkerFailedFormat sendEmpty lva (r1.1, b1)
    grind [Attrib.clearTx, msrpEmit_clearTx, msrpEmitListeners, msrpEmitListeners_clearTx]

theorem msrpTxpdu_txOnly (env : Env) (sendEmpty : Bool) : TxOnly (msrpTxpdu env sendEmpty) := by
  intro db
  exact ⟨rfl, msrpMessages_clearTx _ _ _⟩

theorem mvrpAdd_split (l : List (Attrib Vid)) (r : Attrib Vid) :
    ∃ l₁ l₂, l = l₁ ++ l₂ ∧ mvrpAdd l r = l₁ ++ r :: l₂ := by
  induction l with
  | nil => exact ⟨[], [], rfl, rfl⟩
  | cons a tl ih =>
    unfold mvrpAdd
    split
    · grind
    · exact ⟨[], a :: tl, rfl, rfl⟩

theorem insertByType_split {V : Type} (sameType lt : V → V → Bool) (l : List (Attrib V))
    (r : Attrib V) : ∃ l₁ l₂, l = l₁ ++ l₂ ∧ insertByType sameType lt l r = l₁ ++ r :: l₂ := by
  fun_induction insertByType sameType lt l r with
  | case1 r => exact ⟨[], [], rfl, rfl⟩
  | case2 a r htype hlt => exact ⟨[a], [], rfl, rfl⟩
  | case3 a r htype hlt b tl hsame ih =>
    grind
  | case4 a r htype hlt b tl hsame => exact ⟨[a], b :: tl, rfl, rfl⟩
  | case5 a tl r htype hlt => exact ⟨[], a :: tl, rfl, rfl⟩
  | case6 a tl r htype ih =>
    grind

theorem mvrpOps_lawful : LawfulOps mvrpOps mvrp.key where
  same_iff _ _ := beq_iff_eq
  add_split := mvrpAdd_split
  merge_key _ _ _ h := h
  merge_applicant _ _ _ := rfl
  merge_notify _ _ _ := rfl
  merge_state _ _ _ := Or.inl rfl

theorem mmrpOps_lawful : LawfulOps mmrpOps mmrp.key where
  same_iff _ _ := beq_iff_eq
  add_split := insertByType_split _ _
  merge_key _ _ _ h := h
  merge_applicant _ _ _ := rfl
  merge_notify _ _ _ := rfl
  merge_state _ _ _ := Or.inl rfl

theorem msrpSame_iff (a v : MsrpValue) : msrpSame a v = true ↔ msrpKey a = msrpKey v := by
  unfold msrpSame msrpKey
  cases ha : a.type <;> cases hv : v.type <;> simp

theorem msrpKey_talker {v : MsrpValue} (h : v.type.isTalker = true) :
    msrpKey v = .talker v.talkListen.streamID := by
  unfold msrpKey
  cases ht : v.type <;> rw [ht] at h <;> first | rfl | exact absurd h (by decide)

theorem isTalker_of_key {v : MsrpValue} {sid : StreamId} (h : msrpKey v = .talker sid) :
    v.type.isTalker = true := by
  unfold msrpKey at h
  cases ht : v.type <;> rw [ht] at h <;> first | rfl | exact absurd h (by simp)

theorem msrpMerge_key (l : List (Attrib MsrpValue)) (r a : Attrib MsrpValue)
    (h : msrpKey a.value = msrpKey r.value) :
    msrpKey (msrpMerge l r a).value = msrpKey r.value := by
  have htalker : a.value.type.isTalker = true →
      ∀ t : TalkListen, t.streamID = a.value.talkListen.streamID →
        msrpKey { a.value with type := r.value.type, talkListen := t } = msrpKey r.value := by
    grind [MsrpType.isTalker, isTalker_of_key, msrpKey_talker]
  unfold msrpMerge
  simp only
  split
  · rename_i ha
    split
    · split
      · rw [← h]
        rfl
      · exact htalker (by rw [ha]; rfl) _ rfl
    · exact h
  · rename_i ha
    split
    · split
      · rw [← h]
        rfl
      · exact htalker (by rw [ha]; rfl) _ rfl
    · exact h
  · split
    · exact h
    · split
      · exact h
      · rw [← h]
        split <;> rfl
  · split
    · exact h
    · rw [← h]
      rfl

theorem msrpMerge_machines (l : List (Attrib MsrpValue)) (r a : Attrib MsrpValue) :
    (msrpMerge l r a).applicant = a.applicant ∧
      (msrpMerge l r a).registrar.notify = a.registrar.notify ∧
      ((msrpMerge l r a).registrar.mrpState = a.registrar.mrpState ∨
        (msrpMerge l r a).registrar.mrpState = .MT) := by
  unfold msrpMerge
  simp only
  split
  · split
    · split
      · exact ⟨rfl, rfl, Or.inl rfl⟩
      · exact ⟨rfl, rfl, Or.inr rfl⟩
    · exact ⟨rfl, rfl, Or.inl rfl⟩
  · split
    · split
      · exact ⟨rfl, rfl, Or.inl rfl⟩
      · exact ⟨rfl, rfl, Or.inr rfl⟩
    · exact ⟨rfl, rfl, Or.inl rfl⟩
  · split
    · exact ⟨rfl, rfl, Or.inl rfl⟩
    · split
      · exact ⟨rfl, rfl, Or.inl rfl⟩
      · exact ⟨rfl, rfl, Or.inr rfl⟩
  · split
    · exact ⟨rfl, rfl, Or.inl rfl⟩
    · exact ⟨rfl, rfl, Or.inr rfl⟩

theorem msrpOps_lawful : LawfulOps msrpOps msrpKey where
  same_iff := msrpSame_iff
  add_split := insertByType_split _ _
  merge_key := msrpMerge_key
  merge_applicant l r a := (msrpMerge_machines l r a).1
  merge_notify l r a := (msrpMerge_machines l r a).2.1
  merge_state l r a := (msrpMerge_machines l r a).2.2

variable {V K : Type} [DecidableEq K] {key : V → K}

theorem EventSpec.of_addClient {reclaims : Bool} {now : Nat} {event : Event}
    {scope : K → Bool} {forced : Bool} {client : SockAddr} {db db' : Database V}
    {notes : List (Note V)}
    (h : EventSpec key reclaims now event scope forced (addClient client db) db' notes) :
    EventSpec key reclaims now event scope forced db db' notes where
  tidy := h.tidy
  cells := h.cells
  join := by
    cases h.join with
    | stopped hev timer running => exact .stopped hev timer running
    | restarted hev timer running => exact .restarted hev timer running
    | started hev timer running => exact .started hev timer running
    | kept hev apps timer running => exact .kept hev apps timer running
  leave := by
    cases h.leave with
    | started hk timer running => exact .started hk timer running
    | kept hk timer running => exact .kept hk timer running

theorem eventSpec_nobody (reclaims forced : Bool) (now : Nat) {event : Event}
    (hev : event ≠ .LVATIMER ∧ event ≠ .TX ∧ event ≠ .LVTIMER) {db : Database V}
    (ht : Tidy key db.attribList) :
    EventSpec key reclaims now event (fun _ => false) forced db (scanNotify db none []).1
      (scanNotify db none []).2.notes := by
  apply eventSpec_of_scan
  · exact ht.unique
  · intro k
    rw [pendingNotes_quiet ht.quiet]
    rfl
  · exact .kept ⟨hev.1, hev.2.1⟩ (fun _ => Or.inr rfl) rfl rfl
  · exact leaveSpec_of_regs hev.2.2 (fun _ => rfl) rfl rfl

theorem pruned_self {prunes : Bool} {db : Database V} (ht : Tidy key db.attribList) :
    Pruned key prunes db db :=
  ⟨ht, fun _ => Or.inl rfl, rfl, rfl, rfl, rfl⟩

theorem pruned_of_clients {prunes : Bool} {db db' : Database V} (ht : Tidy key db.attribList)
    {clients : List SockAddr} (h : db' = { db with mrpDb := { db.mrpDb with clients := clients } }) :
    Pruned key prunes db db' := by
  subst h
  exact ⟨ht, fun _ => Or.inl rfl, rfl, rfl, rfl, rfl⟩

theorem reclaim_spec {db : Database V} (ht : Tidy key db.attribList) :
    Collected key db (reclaim db).1 (reclaim db).2.notes := by
  have hr : reclaim db = ({ db with attribList := db.attribList.filter fun a => !reclaimable a },
      ⟨none, (db.attribList.filter reclaimable).map fun a => ⟨.LV, a⟩⟩) := by
    simp only [reclaim, reclaimAll_eq]
  rw [hr]
  refine ⟨⟨KeyedList.unique_filter ht.unique _, ?_⟩, ?_, rfl⟩
  · intro a ha
    exact ht.quiet a (List.mem_of_mem_filter ha)
  · intro k
    have hat : attribAt key (db.attribList.filter fun a => !reclaimable a) k =
        (attribAt key db.attribList k).filter fun a => !reclaimable a :=
      KeyedList.get_filter ht.unique _ k
    rw [notesAbout_select ht.unique]
    unfold cellAt
    rw [hat]
    cases attribAt key db.attribList k with
    | none => rfl
    | some a =>
      by_cases hc : reclaimable a = true
      · have hcell : a.cell.reclaimable = true := hc
        simp [Option.filter, hc, settle, hcell]
      · have hcell : ¬ a.cell.reclaimable = true := hc
        simp [Option.filter, hc, settle, hcell]

theorem fresh_request (v : V) : Attrib.Fresh ({ value := v } : Attrib V) := ⟨rfl, rfl⟩

theorem fresh_received (src : MacAddr) (v : V) : Attrib.Fresh (receivedAttrib src v) := ⟨rfl, rfl⟩

theorem isAttribEvent_request {c : Cmd V} {x : Event × V} (h : c.request = some x) :
    isAttribEvent x.1 = true := by
  cases c <;> simp only [Cmd.request, Option.some.injEq, reduceCtorEq] at h <;> subst h <;> rfl

theorem recvCmd_spec {P : Participant V K (Database V) (Cmd V)} (hbase : ∀ d, P.base d = d)
    (hcmd : ∀ env c client d, P.recvCmd env c client d = recvCmd (P.event env) c client d)
    (hreq : ∀ c client d, P.request c client d = c.request)
    (hignores : ∀ d v, P.ignores d v = false)
    (hattrib : ∀ (env : Env) (event : Event) (v : V) (d : Database V),
      isAttribEvent event = true → Tidy P.key d.attribList →
      EventSpec P.key P.reclaims env.now event (fun k => k = P.key v)
        (mergeForces P.ops P.key { value := v } d.attribList) d
        (P.event env event (some { value := v }) d).1
        (P.event env event (some { value := v }) d).2.notes)
    (env : Env) (c : Cmd V) (client : SockAddr) (d : Database V)
    (ht : Tidy P.key d.attribList) :
    ActSpec P env.now d (.cmd c client) (P.act env d (.cmd c client)).1
      (P.act env d (.cmd c client)).2.notes := by
  simp only [Participant.act, hcmd, recvCmd]
  cases hc : c.request with
  | none =>
    refine .idle (by simp) ?_ ?_ rfl
    · simp only [Participant.call, hreq, hc, Option.map_none]
    · rw [hbase, hbase]
      exact pruned_of_clients ht rfl
  | some x =>
    obtain ⟨event, v⟩ := x
    have hev : isAttribEvent event = true := isAttribEvent_request hc
    have hspec := hattrib env event v (addClient client d) hev ht
    refine .called (P.attribCall d event { value := v }) ?_ _ ?_ (pruned_self ?_) ?_
    · simp only [Participant.call, hreq, hc, Option.map_some]
    · simp only [Participant.attribCall, hignores, hbase, Bool.not_false, Bool.true_and]
      exact hspec.of_addClient
    · rw [hbase]
      exact hspec.tidy
    · intro k _
      rw [hbase]

theorem mvrpEvent_attrib (env : Env) {event : Event} (hev : isAttribEvent event = true)
    {r : Attrib Vid} (hr : r.Fresh) {db : Database Vid} (ht : Tidy mvrp.key db.attribList) :
    EventSpec mvrp.key true env.now event (fun k => k = mvrp.key r.value)
      (mergeForces mvrpOps mvrp.key r db.attribList) db (mvrpEvent env event (some r) db).1
      (mvrpEvent env event (some r) db).2.notes := by
  have h := attribBranch_spec mvrpOps_lawful env true hev hr ht
  cases event <;> first
    | exact absurd hev (by decide)
    | exact h

theorem mvrpEvent_timer (env : Env) (t : Timer) {db : Database Vid}
    (ht : Tidy mvrp.key db.attribList) :
    EventSpec mvrp.key true env.now t.event (fun _ => true) false db
      (mvrpEvent env t.event none db).1 (mvrpEvent env t.event none db).2.notes := by
  cases t with
  | join => exact txBranch_spec (mvrpTxpdu_txOnly env false) env true ht
  | leave => exact lvtimerBranch_spec env true ht
  | leaveAll => exact lvatimerBranch_spec (mvrpTxpdu_txOnly env true) env true ht
  | periodic => exact periodicBranch_spec env true ht

theorem mvrp_lawful : mvrp.Lawful where
  initial_attribs := by
    rintro d ⟨env, rfl⟩
    rfl
  initial_timers := by
    rintro d ⟨env, rfl⟩
    exact ⟨rfl, rfl, rfl, rfl⟩
  act_spec := by
    intro env d act ht
    cases act with
    | cmd c client =>
      exact recvCmd_spec (P := mvrp) (fun _ => rfl) (fun _ _ _ _ => rfl) (fun _ _ _ => rfl)
        (fun _ _ => rfl) (fun env event v d hev ht => mvrpEvent_attrib env hev (fresh_request v) ht)
        env c client d ht
    | bye client => exact .idle (by simp) rfl (pruned_of_clients ht rfl) rfl
    | pdu e v src =>
      have hspec := mvrpEvent_attrib env (isAttribEvent_received e) (fresh_received src v) ht
      exact .called _ rfl _ hspec (pruned_self hspec.tidy) (fun _ _ => rfl)
    | leaveAll v src =>
      have hspec := rlaBranch_spec env true (fun _ => true) ht
      exact .called _ rfl _ hspec (pruned_self hspec.tidy) (fun _ _ => rfl)
    | timer t =>
      have hspec := mvrpEvent_timer env t ht
      refine .called _ rfl _ ?_ (pruned_self hspec.tidy) (fun _ _ => rfl)
      cases t <;> exact hspec
    | reclaim => exact .collected rfl (reclaim_spec ht)
  prunes_act _ _ _ := rfl
  attends _ _ _ := rfl
  request_attrib _ _ _ _ h := isAttribEvent_request h

theorem mmrpEvent_attrib (env : Env) {event : Event} (hev : isAttribEvent event = true)
    {r : Attrib MmrpValue} (hr : r.Fresh) {db : Database MmrpValue}
    (ht : Tidy mmrp.key db.attribList) :
    EventSpec mmrp.key false env.now event (fun k => k = mmrp.key r.value)
      (mergeForces mmrpOps mmrp.key r db.attribList) db (mmrpEvent env event (some r) db).1
      (mmrpEvent env event (some r) db).2.notes := by
  have h := attribBranch_spec mmrpOps_lawful env false hev hr ht
  cases event <;> first
    | exact absurd hev (by decide)
    | exact h

theorem mmrpEvent_timer (env : Env) (t : Timer) {db : Database MmrpValue}
    (ht : Tidy mmrp.key db.attribList) :
    EventSpec mmrp.key false env.now t.event (fun _ => true) false db
      (mmrpEvent env t.event none db).1 (mmrpEvent env t.event none db).2.notes := by
  cases t with
  | join => exact txBranch_spec (mmrpTxpdu_txOnly env false) env false ht
  | leave => exact lvtimerBranch_spec env false ht
  | leaveAll => exact lvatimerBranch_spec (mmrpTxpdu_txOnly env true) env false ht
  | periodic => exact periodicBranch_spec env false ht

theorem eventSpec_joinStarted (reclaims : Bool) (now : Nat) {db : Database V}
    (ht : Tidy key db.attribList) :
    EventSpec key reclaims now .RLA (fun _ => false) false db
      { db with mrpDb := mrpJointimerStart now db.mrpDb } [] :=
  ⟨ht, fun _ => rfl, .started (by decide) rfl rfl,
    leaveSpec_of_regs (by decide) (fun _ => rfl) rfl rfl⟩

theorem keysWith_nobody (l : List (Attrib V)) :
    keysWith key (fun _ => false) l = fun _ => false := by
  funext k
  unfold keysWith
  cases attribAt key l k <;> rfl

theorem mmrpEvent_leaveAll (env : Env) (v : Option MmrpValue) (src : MacAddr)
    {db : Database MmrpValue} (ht : Tidy mmrp.key db.attribList) :
    let r := mmrpEvent env .RLA (v.map (receivedAttrib src)) db
    EventSpec mmrp.key false env.now .RLA (keysWith mmrp.key (mmrp.selects v) db.attribList) false
      db r.1 r.2.notes := by
  cases v with
  | none =>
    have hscope : keysWith mmrp.key (mmrp.selects none) db.attribList = fun _ => false :=
      keysWith_nobody db.attribList
    rw [hscope]
    exact eventSpec_joinStarted false env.now ht
  | some v => exact rlaBranch_spec env false (fun w => w.sameType v) ht

theorem mmrp_lawful : mmrp.Lawful where
  initial_attribs := by
    rintro d ⟨env, rfl⟩
    rfl
  initial_timers := by
    rintro d ⟨env, rfl⟩
    exact ⟨rfl, rfl, rfl, rfl⟩
  act_spec := by
    intro env d act ht
    cases act with
    | cmd c client =>
      exact recvCmd_spec (P := mmrp) (fun _ => rfl) (fun _ _ _ _ => rfl) (fun _ _ _ => rfl)
        (fun _ _ => rfl) (fun env event v d hev ht => mmrpEvent_attrib env hev (fresh_request v) ht)
        env c client d ht
    | bye client => exact .idle (by simp) rfl (pruned_of_clients ht rfl) rfl
    | pdu e v src =>
      have hspec := mmrpEvent_attrib env (isAttribEvent_received e) (fresh_received src v) ht
      exact .called _ rfl _ hspec (pruned_self hspec.tidy) (fun _ _ => rfl)
    | leaveAll v src =>
      have hspec := mmrpEvent_leaveAll env v src ht
      exact .called _ rfl _ hspec (pruned_self hspec.tidy) (fun _ _ => rfl)
    | timer t =>
      have hspec := mmrpEvent_timer env t ht
      refine .called _ rfl _ ?_ (pruned_self hspec.tidy) (fun _ _ => rfl)
      cases t <;> exact hspec
    | reclaim => exact .collected rfl (reclaim_spec ht)
  prunes_act _ _ _ := rfl
  attends _ _ _ := rfl
  request_attrib _ _ _ _ h := isAttribEvent_request h

theorem msrpEvent_enablePruning (env : Env) (event : Event) (r : Option (Attrib MsrpValue))
    (db : MsrpDatabase) : (msrpEvent env event r db).1.enablePruning = db.enablePruning := by
  cases event <;> cases r <;> simp only [msrpEvent] <;> (repeat' split) <;> rfl

variable {db : MsrpDatabase}

theorem msrpEvent_attrib (env : Env) {event : Event} (hev : isAttribEvent event = true)
    {r : Attrib MsrpValue} (hr : r.Fresh) (ht : Tidy msrp.key db.attribList) :
    let c := msrp.attribCall db event r
    EventSpec msrp.key true env.now c.event c.scope c.forced db.toDatabase
      (msrpEvent env event (some r) db).1.toDatabase (msrpEvent env event (some r) db).2.notes := by
  intro c
  have hkinds : event ≠ .LVATIMER ∧ event ≠ .TX ∧ event ≠ .LVTIMER := by
    refine ⟨?_, ?_, ?_⟩ <;> rintro rfl <;> exact absurd hev (by decide)
  by_cases hi : msrpInterested db r.value = true
  · have hscope : c.scope = fun k => decide (k = msrp.key r.value) := by
      funext k
      simp [c, Participant.attribCall, msrp, hi]
    have h := attribBranch_spec msrpOps_lawful env true hev hr ht
    have hevent : msrpEvent env event (some r) db =
        let x := attribBranch msrpOps env true event r db.toDatabase
        let y := if x.2.2 then scanNotify x.1 none x.2.1 else (x.1, {})
        (db.withBase y.1, y.2) := by
      cases event <;> first
        | exact absurd hev (by decide)
        | (simp only [msrpEvent, hi, if_true]; split <;> rfl)
    rw [hevent, hscope]
    exact h
  · have hscope : c.scope = fun _ => false := by
      funext k
      simp [c, Participant.attribCall, msrp, hi]
    have hevent : msrpEvent env event (some r) db =
        (db.withBase (scanNotify db.toDatabase none []).1, (scanNotify db.toDatabase none []).2) := by
      cases event <;> first
        | exact absurd hev (by decide)
        | (simp only [msrpEvent, if_neg hi])
    rw [hevent, hscope]
    exact eventSpec_nobody true c.forced env.now hkinds ht

theorem msrpEvent_timer (env : Env) (t : Timer) (ht : Tidy msrp.key db.attribList) :
    EventSpec msrp.key true env.now t.event (fun _ => t ≠ .periodic || msrp.periodic) false
      db.toDatabase (msrpEvent env t.event none db).1.toDatabase
      (msrpEvent env t.event none db).2.notes := by
  cases t with
  | join => exact txBranch_spec (msrpTxpdu_txOnly env false) env true ht
  | leave => exact lvtimerBranch_spec env true ht
  | leaveAll => exact lvatimerBranch_spec (msrpTxpdu_txOnly env true) env true ht
  | periodic => exact eventSpec_nobody true false env.now (by decide) ht

theorem msrpEvent_leaveAll (env : Env) (v : Option MsrpValue) (src : MacAddr)
    (ht : Tidy msrp.key db.attribList) : let r := msrpEvent env .RLA (v.map (receivedAttrib src)) db
    EventSpec msrp.key true env.now .RLA (keysWith msrp.key (msrp.selects v) db.attribList) false
      db.toDatabase r.1.toDatabase r.2.notes := by
  cases v with
  | none =>
    have hscope : keysWith msrp.key (msrp.selects none) db.attribList = fun _ => false :=
      keysWith_nobody db.attribList
    rw [hscope]
    exact eventSpec_joinStarted true env.now ht
  | some v => exact rlaBranch_spec env true (fun w => w.type = v.type) ht

theorem dropTalkers_cell (sid : StreamId) (ht : Tidy msrp.key db.attribList) (k : MsrpKey) :
    cellAt msrp.key (dropTalkers sid db).attribList k =
      if k = .talker sid then none else cellAt msrp.key db.attribList k := by
  have hget := KeyedList.get_filter ht.unique
    (fun a => !(a.value.type.isTalker && a.value.talkListen.streamID == sid)) k
  unfold cellAt attribAt dropTalkers
  rw [hget]
  cases hat : KeyedList.get (fun a : Attrib MsrpValue => msrp.key a.value) db.attribList k with
  | none => simp
  | some a =>
    have hkey : msrpKey a.value = k := by
      have h := KeyedList.key_of_get hat
      exact h
    grind [MsrpType.isTalker, msrpKey]

theorem dropTalkers_pruned (sid : StreamId) (ht : Tidy msrp.key db.attribList) :
    Pruned msrp.key true db.toDatabase (dropTalkers sid db).toDatabase := by
  refine ⟨⟨KeyedList.unique_filter ht.unique _, ?_⟩, ?_, rfl, rfl, rfl, rfl⟩
  · intro a ha
    exact ht.quiet a (List.mem_of_mem_filter ha)
  · grind [dropTalkers_cell]

theorem msrpPrune_spec (cmd : MsrpCmd) (ht : Tidy msrp.key db.attribList) :
    Pruned msrp.key db.enablePruning db.toDatabase (msrpPrune cmd db).toDatabase := by
  have hdrop : ∀ (sid : StreamId), db.enablePruning = true →
      Pruned msrp.key db.enablePruning db.toDatabase (dropTalkers sid db).toDatabase := by
    intro sid he
    rw [he]
    exact dropTalkers_pruned sid ht
  cases cmd with
  | withdrawListener sid =>
    dsimp only [msrpPrune]
    split
    · grind
    · exact pruned_self ht
  | addInteresting sid =>
    dsimp only [msrpPrune]
    split <;> exact pruned_self ht
  | removeInteresting sid =>
    dsimp only [msrpPrune]
    split
    · rename_i hc
      simp only [Bool.and_eq_true] at hc
      split
      · exact hdrop sid hc.1
      · exact pruned_self ht
    · exact pruned_self ht
  | _ => exact pruned_self ht

theorem msrpPrune_spared {c : MsrpCmd} {db' : MsrpDatabase} {x : Event × MsrpValue}
    (hreq : c.request db = some x) (ht : Tidy msrp.key db'.attribList) :
    cellAt msrp.key (msrpPrune c db').attribList (msrpKey x.2) =
      cellAt msrp.key db'.attribList (msrpKey x.2) := by
  cases c with
  | withdrawListener sid =>
    obtain rfl := Option.some.inj hreq
    dsimp only [msrpPrune]
    split
    · exact (dropTalkers_cell sid ht _).trans (if_neg (by simp [msrpKey]))
    · rfl
  | addInteresting sid => exact absurd hreq (by simp [MsrpCmd.request])
  | removeInteresting sid => exact absurd hreq (by simp [MsrpCmd.request])
  | _ => rfl

theorem msrpPrune_enablePruning (cmd : MsrpCmd) (db : MsrpDatabase) :
    (msrpPrune cmd db).enablePruning = db.enablePruning := by
  cases cmd <;> dsimp only [msrpPrune] <;> (repeat' split) <;> rfl

theorem isAttribEvent_msrpRequest {c : MsrpCmd} {x : Event × MsrpValue}
    (h : c.request db = some x) : isAttribEvent x.1 = true := by
  cases c <;> simp only [MsrpCmd.request, Option.some.injEq, reduceCtorEq] at h <;> subst h <;>
    first | rfl | (dsimp only; split <;> rfl)

theorem msrpRecvCmd_spec (env : Env) (c : MsrpCmd) (client : SockAddr)
    (ht : Tidy msrp.key db.attribList) :
    ActSpec msrp env.now db (.cmd c client) (msrpRecvCmd env c client db).1
      (msrpRecvCmd env c client db).2.notes := by
  let db1 := db.withBase (addClient client db.toDatabase)
  by_cases hrefuse : msrpRefuses client db = true
  · have hcmd : msrpRecvCmd env c client db = (msrpBye client db1, {}) := if_pos hrefuse
    have hcall : msrp.call db (.cmd c client) = none := by
      simp [Participant.call, msrp, hrefuse]
    rw [hcmd]
    exact .idle (by simp) hcall (pruned_of_clients ht rfl) rfl
  · have hcmd : msrpRecvCmd env c client db = msrpServeCmd env c db1 := if_neg hrefuse
    have hreq : c.request db1 = c.request db := by cases c <;> rfl
    rw [hcmd]
    unfold msrpServeCmd
    rw [hreq]
    cases hc : c.request db with
    | none =>
      have hcall : msrp.call db (.cmd c client) = none := by
        simp [Participant.call, msrp, hrefuse, hc]
      have hp := msrpPrune_spec c (show Tidy msrp.key db1.attribList from ht)
      rw [← Bool.and_true db1.enablePruning] at hp
      exact .idle (by simp) hcall ⟨hp.tidy, hp.cells, hp.joinTimer, hp.joinTimerRunning,
        hp.lvTimer, hp.lvTimerRunning⟩ rfl
    | some x =>
      obtain ⟨event, v⟩ := x
      have hcall : msrp.call db (.cmd c client) =
          some (msrp.attribCall db event { value := v }) := by
        simp [Participant.call, msrp, hrefuse, hc]
      have hspec := msrpEvent_attrib env (isAttribEvent_msrpRequest hc) (fresh_request v)
        (show Tidy msrp.key db1.attribList from ht)
      have hp := msrpPrune_spec c (show Tidy msrp.key _ from hspec.tidy)
      rw [msrpEvent_enablePruning, ← Bool.and_true db1.enablePruning] at hp
      refine .called _ hcall _ hspec.of_addClient hp ?_
      intro k hk
      simp only [Participant.attribCall, Bool.and_eq_true, decide_eq_true_eq] at hk
      rw [hk.2]
      exact msrpPrune_spared hc hspec.tidy

theorem msrp_lawful : msrp.Lawful where
  initial_attribs := by
    rintro d ⟨env, maxInteresting, enablePruning, rfl⟩
    rfl
  initial_timers := by
    rintro d ⟨env, maxInteresting, enablePruning, rfl⟩
    exact ⟨rfl, rfl, rfl, rfl⟩
  act_spec := by
    intro env d act ht
    cases act with
    | cmd c client => exact msrpRecvCmd_spec env c client ht
    | bye client => exact .idle (by simp) rfl (pruned_of_clients ht rfl) rfl
    | pdu e v src =>
      have hspec := msrpEvent_attrib env (isAttribEvent_received e) (fresh_received src v) ht
      exact .called _ rfl _ hspec (pruned_self hspec.tidy) (fun _ _ => rfl)
    | leaveAll v src =>
      have hspec := msrpEvent_leaveAll env v src ht
      exact .called _ rfl _ hspec (pruned_self hspec.tidy) (fun _ _ => rfl)
    | timer t =>
      have hspec := msrpEvent_timer env t ht
      exact .called _ rfl _ hspec (pruned_self hspec.tidy) (fun _ _ => rfl)
    | reclaim => exact .collected rfl (reclaim_spec ht)
  prunes_act := by
    intro env d act
    cases act with
    | cmd c client =>
      change (msrpRecvCmd env c client d).1.enablePruning = d.enablePruning
      unfold msrpRecvCmd
      simp only
      split
      · rfl
      · unfold msrpServeCmd
        split
        · exact msrpPrune_enablePruning _ _
        · exact (msrpPrune_enablePruning _ _).trans (msrpEvent_enablePruning _ _ _ _)
    | pdu e v src => exact msrpEvent_enablePruning env e.received (some (receivedAttrib src v)) d
    | leaveAll v src => exact msrpEvent_enablePruning env .RLA (v.map (receivedAttrib src)) d
    | timer t => exact msrpEvent_enablePruning env t.event none d
    | _ => rfl
  attends := by
    intro d v h
    have hp : d.enablePruning = false := h
    simp [msrp, msrpInterested, hp]
  request_attrib := by
    intro c client d x h
    simp only [msrp] at h
    split at h
    · exact absurd h (by simp)
    · exact isAttribEvent_msrpRequest h

end Avb4Linux.Mrp
