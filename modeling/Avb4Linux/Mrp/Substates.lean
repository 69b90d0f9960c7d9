import Avb4Linux.Mrp.DeclaredData

/-!
# MSRP: the substates of listeners

`S+L` takes any 32-bit number, and `msrp_merge` or `msrp_add` stores it unless the listener's
record is kept as it is; in a PDU four substates are packed into a byte in base four.
-/

namespace Avb4Linux.Mrp

open Lib Lib.Runs Lib.Packing List

/-- What reaches an MSRP database: a command, a `BYE`, a received frame, an expired timer,
the garbage collection. -/
inductive Arrival where
  | cmd (env : Env) (c : MsrpCmd) (client : SockAddr)
  | bye (client : SockAddr)
  | frame (env : Env) (bytes : Frame)
  | timer (env : Env) (t : Timer)
  | reclaim

def MsrpDatabase.arrive (d : MsrpDatabase) : Arrival → MsrpDatabase
  | .cmd env c client => (msrpRecvCmd env c client d).1
  | .bye client => msrpBye client d
  | .frame env bytes => (msrpRecvMsg env bytes d).1
  | .timer env t => (msrpEvent env t.event none d).1
  | .reclaim => (msrpReclaim d).1

def MsrpDatabase.KeepsListener (d : MsrpDatabase) (sid : StreamId) : Prop :=
  ∃ a ∈ d.attribList, msrpKey a.value = .listener sid ∧
    (a.value.operation = .REGISTER ∨
      a.value.substate = listenerAskFailed ∧ talkerPresent d.attribList sid = false)

/-- A report of a substate above 3 is refused or finds a record that is kept. -/
def MsrpDatabase.Withstands (d : MsrpDatabase) : Arrival → Prop
  | .cmd _ (.reportListener sid n) client =>
    n.toNat < 4 ∨ msrpRefuses client d = true ∨ d.KeepsListener sid
  | _ => True

variable {d : MsrpDatabase} {l : List (Attrib MsrpValue)} {r a : Attrib MsrpValue}

theorem msrpMerge_reported (ha : a.value.type = .LISTENER) (hr : r.value.operation = .DECLARE) :
    (msrpMerge l r a).value.substate =
      if a.value.operation = .REGISTER ∨ a.value.substate = listenerAskFailed ∧
          talkerPresent l a.value.talkListen.streamID = false
      then a.value.substate else r.value.substate := by
  obtain ⟨⟨t, talk, dom, sub, op⟩, applicant, registrar⟩ := a
  obtain rfl : t = .LISTENER := ha
  cases op <;> simp only [msrpMerge, hr] <;> split_ifs <;> simp_all

theorem mergedAttrib_report {sid : StreamId} {n : UInt32} (hu : Tidy msrp.key d.attribList)
    (hr : r.value = { type := .LISTENER, talkListen := { streamID := sid }, substate := n
                      operation := .DECLARE }) :
    (¬ d.KeepsListener sid → (mergedAttrib msrpOps msrpKey r d.attribList).value.substate = n) ∧
      (d.KeepsListener sid → Declarable d.attribList →
        (mergedAttrib msrpOps msrpKey r d.attribList).value.substate.toNat < 4) := by
  have hkey : msrpKey r.value = .listener sid := by rw [hr]; rfl
  unfold mergedAttrib
  cases hat : attribAt msrpKey d.attribList (msrpKey r.value) with
  | none =>
    refine ⟨fun _ => by rw [Option.elim_none, hr], ?_⟩
    rintro ⟨a, ha, hlistener, -⟩
    exact absurd (hlistener.trans hkey.symm) (KeyedList.get_eq_none.mp hat a ha)
  | some a =>
    have hmem : a ∈ d.attribList := KeyedList.mem_of_get hat
    have hlistener : msrpKey a.value = .listener sid := (key_of_attribAt hat).trans hkey
    obtain ⟨htype, hsid⟩ := msrpKey_eq_listener.mp hlistener
    have hmerge := msrpMerge_reported (l := d.attribList) (r := r) htype (by rw [hr])
    rw [hsid] at hmerge
    have helim : (some a).elim r (msrpOps.merge d.attribList r) = msrpMerge d.attribList r a := rfl
    rw [helim, hmerge]
    constructor
    · intro hnot
      rw [if_neg fun h => hnot ⟨a, hmem, hlistener, h⟩, hr]
    · rintro ⟨b, hb, hbkey, hkept⟩ hsub
      have hself : attribAt msrpKey d.attribList (msrpKey b.value) = some b :=
        attribAt_of_mem hu.unique hb
      rw [hbkey, ← hkey, hat] at hself
      obtain rfl := Option.some.inj hself
      rw [if_pos hkept]
      exact hsub a hmem htype

theorem Declarable.act (ht : Tidy msrp.key d.attribList) (hd : Declarable d.attribList) (env : Env)
    {act : Act MsrpValue MsrpCmd}
    (hr : ∀ e r, d.attribEvent act = some (e, r) →
      (mergedAttrib msrpOps msrpKey r d.attribList).value.type = .LISTENER →
      (mergedAttrib msrpOps msrpKey r d.attribList).value.substate.toNat < 4) :
    Declarable (msrp.act env d act).1.attribList := by
  intro a ha htype
  rcases act_values env act ht (mem_map_of_mem ha) with ⟨hmem, -⟩ | ⟨e, r, hevent, -, heq⟩
  · obtain ⟨b, hb, heq⟩ := mem_map.mp hmem
    rw [← heq] at htype ⊢
    exact hd b hb htype
  · rw [heq] at htype ⊢
    exact hr e r hevent htype

theorem Declarable.cmd (ht : Tidy msrp.key d.attribList) (hd : Declarable d.attribList) {env : Env}
    {c : MsrpCmd} {client : SockAddr} (hok : d.Withstands (.cmd env c client)) :
    Declarable (msrp.act env d (.cmd c client)).1.attribList := by
  refine hd.act ht env fun e r hevent htype => ?_
  obtain ⟨x, hx, her⟩ := Option.map_eq_some_iff.mp hevent
  obtain ⟨rfl, rfl⟩ := Prod.mk.inj her
  obtain ⟨hserved, hreq⟩ := request_served hx
  by_cases hreport : ∃ sid n, c = .reportListener sid n
  · obtain ⟨sid, n, rfl⟩ := hreport
    obtain rfl := Option.some.inj hreq
    obtain ⟨hfresh, hkept⟩ := mergedAttrib_report (r := ⟨_, {}, {}⟩) ht rfl
    by_cases hk : d.KeepsListener sid
    · exact hkept hk hd
    · rw [hfresh hk]
      rcases hok with hn | hrefuse | hk'
      all_goals grind
  · refine mergedAttrib_substate hd (fun hlistener => ?_) htype
    by_cases hlv : x.1 = .LV
    · exact request_withdrawn (e := x.1) hreq hlv hlistener hd
    · cases c <;> simp only [MsrpCmd.request, Option.some.injEq, reduceCtorEq] at hreq <;> subst hreq
      all_goals grind

theorem Received.act_substate (bytes : Frame) (env : Env) :
    ∀ i ∈ (frameInputs env (frameSrc bytes) (msrpParse bytes) : List (Input MsrpValue MsrpCmd)),
      ∀ d : MsrpDatabase, ∀ e r, d.attribEvent i.act = some (e, r) →
        r.value.type = .LISTENER → r.value.substate.toNat < 4 := by
  intro i hi d e r hevent htype
  obtain ⟨x, hx, rfl⟩ := mem_map.mp hi
  let Q (x : Received MsrpValue) : Prop :=
    ∀ v, x.value = some v → v.type = .LISTENER → v.substate.toNat < 4
  have hcalls : MsrpCalls Q := by
    refine ⟨?_, ?_, ?_, ?_⟩
    · rintro type v ⟨rfl⟩ -
      exact Nat.zero_lt_succ 3
    · rintro e type t v ⟨rfl⟩ -
      exact Nat.zero_lt_succ 3
    all_goals grind [UInt32.toNat_ofNat']
  have hvalue := hcalls.parse bytes x hx
  have hact : ∃ e' v, (x.act (frameSrc bytes) : Act MsrpValue MsrpCmd) =
      .pdu e' v (frameSrc bytes) ∧ x.value = some v ∧ r.value = v := by
    unfold Received.act at hevent ⊢
    split at hevent <;> simp_all [MsrpDatabase.attribEvent, receivedAttrib] <;>
      exact hevent.2 ▸ rfl
  grind

structure SubstateInv (d : MsrpDatabase) : Prop where
  tidy : Tidy msrp.key d.attribList
  substates : Declarable d.attribList

theorem SubstateInv.act (h : SubstateInv d) (env : Env) (act : Act MsrpValue MsrpCmd)
    (hr : ∀ e r, d.attribEvent act = some (e, r) →
      r.value.type = .LISTENER → r.value.substate.toNat < 4) :
    SubstateInv (msrp.act env d act).1 :=
  ⟨msrp_lawful.act_tidy env act h.tidy, h.substates.act h.tidy env fun e r hevent htype =>
    mergedAttrib_substate h.substates (hr e r hevent) htype⟩

theorem SubstateInv.arrive (h : SubstateInv d) {x : Arrival} (hok : d.Withstands x) :
    SubstateInv (d.arrive x) := by
  cases x with
  | cmd env c client =>
    exact ⟨msrp_lawful.act_tidy env (.cmd c client) h.tidy, h.substates.cmd h.tidy hok⟩
  | bye client => exact h.act { now := 0 } (.bye client) (by simp [MsrpDatabase.attribEvent])
  | timer env t => exact h.act env (.timer t) (by simp [MsrpDatabase.attribEvent])
  | reclaim => exact h.act { now := 0 } .reclaim (by simp [MsrpDatabase.attribEvent])
  | frame env bytes =>
    have hrun := msrpRecvMsg_eq_run env bytes d
    simp only [MsrpDatabase.arrive, hrun]
    exact run_invariant (fun d i hi h => h.act i.env i.act hi) d _ h
      (along_of_forall_mem (fun s i hi => Received.act_substate bytes env i hi s) d)

theorem withstands_of_declarable (h : SubstateInv d) {x : Arrival}
    (hgood : Declarable (d.arrive x).attribList) : d.Withstands x := by
  cases x with
  | cmd env c client =>
    cases c with
    | reportListener sid n =>
      by_contra hnot
      simp only [MsrpDatabase.Withstands, not_or] at hnot
      obtain ⟨hn, hserved, hk⟩ := hnot
      let v : MsrpValue := { type := .LISTENER, talkListen := { streamID := sid }, substate := n
                             operation := .DECLARE }
      have hreq : msrp.request (.reportListener sid n) client d = some (.NEW, v) :=
        if_neg hserved
      have hcall : msrp.call d (.cmd (.reportListener sid n) client) =
          some (msrp.attribCall d .NEW { value := v }) := by
        simp [Participant.call, hreq]
      have hdecl := msrp_lawful.called_declares env h.tidy hcall (k := .listener sid) (by
        simp [Participant.attribCall, msrp, v, msrpKey, msrpInterested, MsrpType.isTalker])
        (Or.inl rfl)
      obtain ⟨cell, hcell, -⟩ := hdecl
      obtain ⟨a, hat, -⟩ := Option.map_eq_some_iff.mp hcell
      have hmem : a ∈ (d.arrive (.cmd env (.reportListener sid n) client)).attribList :=
        KeyedList.mem_of_get hat
      have hkey : msrpKey a.value = .listener sid := key_of_attribAt hat
      have hevent : d.attribEvent (.cmd (.reportListener sid n) client) =
          some (.NEW, { value := v }) := by
        simp [MsrpDatabase.attribEvent, hreq]
      have hlt := hgood a hmem (msrpKey_eq_listener.mp hkey).1
      rcases act_values env (.cmd (.reportListener sid n) client) h.tidy (mem_map_of_mem hmem) with
        ⟨-, hother⟩ | ⟨e, r, her, -, heq⟩
      · rcases hother _ _ hevent with hne | hnot
        · exact hne hkey
        · simp [msrpInterested, v, MsrpType.isTalker] at hnot
      · obtain ⟨rfl, rfl⟩ := Prod.mk.inj (Option.some.inj (hevent.symm.trans her))
        rw [heq, (mergedAttrib_report (r := { value := v }) h.tidy rfl).1 hk] at hlt
        exact hn hlt
    | _ => trivial
  | _ => trivial

/-- The substates of a database stay below 4 exactly as long as every report above 3 is
refused or overruled; and substates below 4 are read back from their packed bytes. -/
theorem msrp_substates_iff (env : Env) (maxInteresting : Nat) (enablePruning : Bool)
    (xs : List Arrival) :
    ((∀ ys, ys <+: xs → Declarable
        (run MsrpDatabase.arrive (msrpInit env maxInteresting enablePruning) ys).attribList) ↔
      Along MsrpDatabase.arrive MsrpDatabase.Withstands
        (msrpInit env maxInteresting enablePruning) xs) ∧
    ∀ l vs : List (Attrib MsrpValue), Declarable l → vs ⊆ l →
      (∀ a ∈ vs, a.value.type = .LISTENER) →
      ∀ cur, substates ((vs.length + 3) / 4) vs.length
        (pack4 (vs.map fun a => a.value.substate.toNat) ++ cur) =
          vs.map fun a => a.value.substate.toNat := by
  constructor
  · refine prefixes_good_iff SubstateInv (fun d => Declarable d.attribList)
      (fun _ h => h.substates) (fun d x hok h => h.arrive hok)
      (fun d x h hgood => withstands_of_declarable h hgood) _ xs ?_
    exact ⟨msrp_lawful.initial_tidy ⟨env, maxInteresting, enablePruning, rfl⟩, by
      simp [Declarable, msrpInit]⟩
  · intro l vs hl hvs htype cur
    have hsmall : ∀ x ∈ vs.map fun a => a.value.substate.toNat, x < 4 := by
      intro x hx
      obtain ⟨a, ha, rfl⟩ := mem_map.mp hx
      exact hl a (hvs ha) (htype a ha)
    simpa using substates_pack4 hsmall cur

/-- A client reports `S+L` with substate 2 for one stream and 5 for the next; in the PDU
sent for them the first stream has substate 3. -/
theorem msrp_substate_spoils_neighbour :
    let sid (i : UInt8) : StreamId := #v[0, 1, 2, 3, 4, 5, 0, i]
    let report (i : UInt8) (n : UInt32) : Arrival :=
      .cmd { now := 0 } (.reportListener (sid i) n) ⟨0x7F000001, 7500⟩
    let d := run MsrpDatabase.arrive (msrpInit { now := 0 } 8 false) [report 1 2, report 2 5]
    let frame := (msrpEvent { now := 0 } .TX none d).2.pdu.getD []
    ¬ Declarable d.attribList ∧
      (msrpParse frame).map (fun r => r.value.map fun v => (v.talkListen.streamID, v.substate)) =
        [some (sid 1, 3), some (sid 2, 1)] := by
  refine ⟨?_, ?_⟩
  · intro h
    exact absurd h (by unfold Declarable; decide)
  · decide

end Avb4Linux.Mrp
