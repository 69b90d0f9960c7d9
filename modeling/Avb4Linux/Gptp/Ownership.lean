import Avb4Linux.Gptp.Roles
import Mathlib.Algebra.Order.Group.Multiset
import Mathlib.Data.Multiset.Range
import Mathlib.Tactic.Abel

/-!
# Who frees a received message

Every received frame becomes an object, which is freed by the receiver if the message
says that it is garbage, or else kept in one of four places of the port until something
else takes its place.
-/

namespace Avb4Linux.Gptp

open Lib Option

variable {F : Type}

def Station.tracked (s : Station F) : Multiset Nat :=
  s.freed + (s.port.lastSync.map Sync.addr).toList +
    (s.port.lastPDelayResp.map PathDelayResp.addr).toList +
    (s.port.lastPDelayRespFollowUp.map PathDelayRespFollowUp.addr).toList +
    (s.port.qualifiedAnnounce.map Announce.addr).toList

/-- Every object that was built has been freed once or is held in one place, and at most
four are held. -/
structure Station.Accounted (s : Station F) : Prop where
  once : s.tracked = Multiset.range s.nextAddr
  bounded : s.nextAddr ≤ s.freed.length + 4

theorem card_toList_le (o : Option Nat) : o.toList.length ≤ 1 := by
  cases o <;> simp

variable {s t u : Station F} {a : Multiset Nat}

theorem Station.accounted_of_once (h : s.tracked = Multiset.range s.nextAddr) : s.Accounted := by
  refine ⟨h, ?_⟩
  have hcard := congrArg Multiset.card h
  have h1 := card_toList_le (s.port.lastSync.map Sync.addr)
  have h2 := card_toList_le (s.port.lastPDelayResp.map PathDelayResp.addr)
  have h3 := card_toList_le (s.port.lastPDelayRespFollowUp.map PathDelayRespFollowUp.addr)
  have h4 := card_toList_le (s.port.qualifiedAnnounce.map Announce.addr)
  simp only [tracked, Multiset.card_add, Multiset.coe_card, Multiset.card_range] at hcard
  omega

theorem Station.Accounted.followUp_lt (h : s.Accounted) {fup : PathDelayRespFollowUp}
    (hfup : s.port.lastPDelayRespFollowUp = some fup) : fup.addr < s.nextAddr := by
  have hmem : fup.addr ∈ s.tracked := by
    simp [tracked, hfup]
  rw [h.once] at hmem
  exact Multiset.mem_range.mp hmem

structure Station.Gains (extra : Multiset Nat) (s t : Station F) : Prop where
  tracked : t.tracked = s.tracked + extra
  nextAddr : t.nextAddr = s.nextAddr

theorem Station.Gains.trans {b : Multiset Nat} (h : s.Gains a t) (h' : t.Gains b u) :
    s.Gains (a + b) u :=
  ⟨by rw [h'.tracked, h.tracked, add_assoc], h'.nextAddr.trans h.nextAddr⟩

theorem Station.Gains.trans_zero (h : s.Gains a t) (h' : t.Gains 0 u) : s.Gains a u := by
  have hboth := h.trans h'
  rwa [add_zero] at hboth

theorem Station.Gains.zero_trans (h : s.Gains 0 t) (h' : t.Gains a u) : s.Gains a u := by
  have hboth := h.trans h'
  rwa [zero_add] at hboth

theorem Station.SameHoldings.gains (h : s.SameHoldings t) : s.Gains 0 t := by
  refine ⟨?_, h.nextAddr⟩
  simp only [Station.tracked, h.freed, h.lastSync, h.lastPDelayResp, h.lastPDelayRespFollowUp,
    h.qualifiedAnnounce, add_zero]

theorem Station.Calm.gains (h : s.Calm t) : s.Gains 0 t :=
  h.holdings.gains

section Functions

variable (s : Station F)

theorem Station.gains_delete (addr : Nat) : s.Gains {addr} (s.delete (some addr)) := by
  refine ⟨?_, rfl⟩
  simp only [tracked, delete_freed, delete_port, ← Multiset.coe_add, toList_some,
    Multiset.coe_singleton]
  abel

theorem Station.gains_dropResp : s.Gains 0 s.dropResp := by
  refine ⟨?_, rfl⟩
  simp only [tracked, dropResp, setPort_freed, setPort_port, delete_freed, delete_port,
    ← Multiset.coe_add, map_none, toList_none, Multiset.coe_nil]
  abel

theorem Station.gains_dropSync : s.Gains 0 s.dropSync := by
  refine ⟨?_, rfl⟩
  simp only [tracked, dropSync, setPort_freed, setPort_port, delete_freed, delete_port,
    ← Multiset.coe_add, map_none, toList_none, Multiset.coe_nil]
  abel

theorem Station.gains_setQualifiedAnnounce (a : Option Announce) :
    s.Gains (a.map Announce.addr).toList (s.setQualifiedAnnounce a) := by
  refine ⟨?_, rfl⟩
  simp only [tracked, setQualifiedAnnounce, setPort_freed, setPort_port, delete_freed, delete_port,
    ← Multiset.coe_add]
  abel

theorem Station.gains_processSync {m : Sync} (able : s.port.participates = true) :
    s.Gains {m.addr} (s.processSync m).1 := by
  refine ⟨?_, ?_⟩
  · unfold processSync
    rw [if_neg (s.port.participates_iff.mp able)]
    simp only [tracked, setPort_freed, setPort_port, delete_freed, delete_port,
      ← Multiset.coe_add, map_some, toList_some, Multiset.coe_singleton]
    abel
  · unfold processSync
    rw [if_neg (s.port.participates_iff.mp able)]
    rfl

theorem Station.gains_storeResp {u : Station F} (hu : s.Calm u) (m : PathDelayResp) :
    s.Gains {m.addr} ((u.setPort fun p => { p with lastPDelayResp := some m }).delete
      (s.port.lastPDelayResp.map PathDelayResp.addr)) := by
  have hsame := hu.holdings
  refine ⟨?_, hsame.nextAddr⟩
  simp only [tracked, setPort_freed, setPort_port, delete_freed, delete_port, ← Multiset.coe_add,
    map_some, toList_some, Multiset.coe_singleton, hsame.freed, hsame.lastSync,
    hsame.lastPDelayRespFollowUp, hsame.qualifiedAnnounce]
  abel

theorem Station.gains_processResp {m : PathDelayResp} (able : s.port.participates = true) :
    s.Gains {m.addr} (s.processResp m).1 := by
  unfold processResp
  rw [if_neg (s.port.participates_iff.mp able)]
  refine s.gains_storeResp ?_ m
  split
  · exact .refl s
  · exact s.calm_verifyDuplicate _ _

variable {fup : PathDelayRespFollowUp}

theorem Station.gains_defer_new
    (h : ∀ f, s.port.lastPDelayRespFollowUp = some f → f.addr ≠ fup.addr) :
    s.Gains {fup.addr} (s.defer fup) := by
  have hkeep : s.port.lastPDelayRespFollowUp.filter (fun f => f.addr ≠ fup.addr) =
      s.port.lastPDelayRespFollowUp := by
    cases hf : s.port.lastPDelayRespFollowUp with
    | none => rfl
    | some f => exact filter_some_pos (decide_eq_true (h f hf))
  refine ⟨?_, rfl⟩
  simp only [tracked, defer, hkeep, addEventTimer_freed, addEventTimer_port, setPort_freed,
    setPort_port, delete_freed, delete_port, ← Multiset.coe_add, map_some,
    toList_some, Multiset.coe_singleton]
  abel

theorem Station.gains_defer_again (h : s.port.lastPDelayRespFollowUp = some fup) :
    s.Gains 0 (s.defer fup) := by
  have hdrop : (some fup).filter (fun f => f.addr ≠ fup.addr) = none := by
    simp [Option.filter]
  refine ⟨?_, rfl⟩
  simp only [tracked, defer, h, hdrop, addEventTimer_freed, addEventTimer_port, setPort_freed,
    setPort_port, delete_freed, delete_port, map_none, toList_none, List.append_nil,
    add_zero]

theorem Station.gains_requestDelay (tx : Option Timestamp) : s.Gains 0 (s.requestDelay tx) :=
  ⟨(add_zero _).symm, rfl⟩

theorem Station.gains_processRespFollowUp (ops : RatioOps F) (able : s.port.participates = true)
    (h : ∀ f, s.port.lastPDelayRespFollowUp = some f → f.addr ≠ fup.addr) :
    s.Gains (if (s.processRespFollowUp ops fup).2 then 0 else {fup.addr})
      (s.processRespFollowUp ops fup).1 := by
  have htimer : s.Gains 0 (s.deleteEventTimer .PDELAY_RESP_RECEIPT_TIMEOUT_EXPIRES) :=
    (s.calm_deleteEventTimer rfl).gains
  have hcase := s.processRespFollowUp_case ops fup
  generalize s.processRespFollowUp ops fup = x at hcase ⊢
  cases hcase with
  | ignored unable =>
    rw [able] at unable
    cases unable
  | dropped able calm => exact calm.gains.trans_zero (gains_dropResp _)
  | deferred => exact htimer.zero_trans (gains_defer_new _ h)
  | measured =>
    exact (htimer.trans_zero (calm_measure _ _ _ _ _).gains).trans_zero (gains_dropResp _)

theorem Station.gains_dropFollowUp (h : s.port.lastPDelayRespFollowUp = some fup) :
    s.Gains 0 ((s.delete (some fup.addr)).setPort fun p =>
      { p with lastPDelayRespFollowUp := none }) := by
  refine ⟨?_, rfl⟩
  simp only [tracked, setPort_freed, setPort_port, delete_freed, delete_port, ← Multiset.coe_add, h,
    map_some, map_none, toList_some, toList_none, Multiset.coe_nil]
  abel

theorem Station.gains_processDeferred {ops : RatioOps F} {t : Station F}
    (h : s.processDeferred ops = some t) : s.Gains 0 t := by
  unfold processDeferred at h
  split at h
  · cases h
  · rename_i fup hfup
    have htimer : s.Calm (s.deleteEventTimer .PDELAY_RESP_RECEIPT_TIMEOUT_EXPIRES) :=
      s.calm_deleteEventTimer rfl
    have hcase := s.processRespFollowUp_case ops fup
    dsimp only at h
    generalize s.processRespFollowUp ops fup = x at hcase h
    cases hcase with
    | ignored unable =>
      cases h
      exact (Calm.refl s).gains
    | dropped able calm =>
      cases h
      have hstored := calm.holdings.lastPDelayRespFollowUp.trans hfup
      exact (calm.gains.trans_zero (gains_dropResp _)).trans_zero (gains_dropFollowUp _ hstored)
    | deferred =>
      cases h
      exact htimer.gains.trans_zero (gains_defer_again _ hfup)
    | @measured req resp =>
      cases h
      have hcalm := htimer.trans (calm_measure _ ops req resp fup)
      have hstored := hcalm.holdings.lastPDelayRespFollowUp.trans hfup
      exact (hcalm.gains.trans_zero (gains_dropResp _)).trans_zero (gains_dropFollowUp _ hstored)

theorem Station.gains_processSyncAnnounceTimeout (e : Event) :
    s.Gains 0 (s.processSyncAnnounceTimeout e) := by
  have hawait : s.Gains 0 (s.awaitAgain e) := by
    unfold awaitAgain
    split
    · exact (s.sameHoldings_addEventTimer (by decide)).gains
    · exact (s.calm_restartTimer rfl).gains
  unfold processSyncAnnounceTimeout
  split
  · exact (Calm.refl s).gains
  · split
    · exact hawait
    · have hclock := ((s.awaitAgain e).sameHoldings_setClock
        (f := Clock.becomeGrandmaster) fun c => ⟨rfl, rfl, rfl⟩).gains
      have hstate := (sameHoldings_setPort ((s.awaitAgain e).setClock Clock.becomeGrandmaster)
        (f := fun p => { p with portState := .PTP_MASTER }) fun p => by simp).gains
      have htimers := ((hawait.trans_zero hclock).trans_zero hstate).trans_zero
        (gains_setQualifiedAnnounce _ none)
      exact (htimers.trans_zero (calm_addEventTimer _ rfl).gains).trans_zero
        (calm_restartTimer _ rfl).gains

theorem Station.gains_processEvent {ops : RatioOps F} {tx : Option Timestamp} {e : Event}
    {t : Station F} (h : s.processEvent ops tx e = some t) : s.Gains 0 t := by
  cases processEvent_case h with
  | calm same => exact same.gains
  | @takesRole u before after =>
    exact (before.gains.trans_zero u.sameHoldings_takeRole.gains).trans_zero after.gains
  | decides result =>
    subst result
    exact s.sameHoldings_processStateChange.gains
  | requests tx result =>
    subst result
    exact s.gains_requestDelay tx
  | timesOut receipt result =>
    subst result
    exact s.gains_processSyncAnnounceTimeout e
  | resumes deferred result => exact s.gains_processDeferred result

end Functions

def Station.accepts (servo : Servo) (m : FollowUp) (s : Station F) : Bool :=
  s.port.participates &&
    match s.port.lastSync with
    | none => false
    | some sync =>
      sync.sequenceId = m.sequenceId && sync.sourcePortIdentity = m.sourcePortIdentity &&
        sync.timestamp.version = servo.timestampVersion

def Station.leaks (servo : Servo) (m : Message) (s : Station F) : Bool :=
  match m with
  | .sync _ => !s.port.participates
  | .followUp m => !s.accepts servo m
  | .pathDelayReq => false
  | .pathDelayResp _ => !s.port.participates
  | .pathDelayRespFollowUp _ => !s.port.participates
  | .announce m => m.rejected s.clock
  | .signalling _ => true

structure Station.Brings (addr : Nat) (leak : Bool) (s : Station F) (x : Station F × Bool) :
    Prop where
  exists_gains : ∃ stored : Multiset Nat, s.Gains stored x.1 ∧
    stored + (if x.2 then {addr} else 0) = if leak then 0 else {addr}

section Messages

variable (s : Station F)

theorem Station.brings_processFollowUp (servo : Servo) (m : FollowUp) (addr : Nat) :
    s.Brings addr (!s.accepts servo m) (s.processFollowUp servo m) := by
  have hstop : s.Gains 0 s.stopSyncReceiptTimer := (s.calm_deleteEventTimer rfl).gains
  have hcase := s.processFollowUp_case servo m
  generalize s.processFollowUp servo m = x at hcase ⊢
  cases hcase with
  | ignored unable =>
    have hno : s.accepts servo m = false := by
      grind [accepts]
    exact ⟨0, hstop, by simp [hno]⟩
  | wrong able stored differs =>
    have hno : s.accepts servo m = false := by
      grind [accepts, Bool.and_eq_false_iff, decide_eq_false_iff_not]
    exact ⟨0, (hstop.trans_zero (sameHoldings_wrongFollowUp _).gains).trans_zero (gains_dropSync _),
      by simp [hno]⟩
  | outdated able stored sequence source version =>
    have hno : s.accepts servo m = false := by
      simp [accepts, stored, version]
    exact ⟨0, hstop.trans_zero (gains_dropSync _), by simp [hno]⟩
  | taken able stored sequence source version =>
    have hyes : s.accepts servo m = true := by
      simp [accepts, able, stored, sequence, source, version]
    exact ⟨0, (hstop.trans_zero (calm_synchronize _ servo).gains).trans_zero (gains_dropSync _),
      by simp [hyes]⟩

theorem Station.brings_processAnnounce (m : Announce) :
    s.Brings m.addr (m.rejected s.clock) (s.processAnnounce m) := by
  have hdelete : s.Gains 0 (s.deleteEventTimer .ANNOUNCE_RECEIPT_TIMEOUT_EXPIRES) :=
    (s.sameHoldings_deleteEventTimer (by decide)).gains
  have hadd : ∀ u : Station F, u.Gains 0 (u.addEventTimer .ANNOUNCE_RECEIPT_TIMEOUT_EXPIRES) :=
    fun u => (u.sameHoldings_addEventTimer (by decide)).gains
  unfold processAnnounce
  dsimp only
  split
  · rename_i hrejected
    rw [deleteEventTimer_clock] at hrejected
    exact ⟨0, hdelete.trans_zero (hadd _), by simp [hrejected]⟩
  · rename_i hrejected
    rw [deleteEventTimer_clock] at hrejected
    refine ⟨{m.addr}, ?_, by simp [hrejected]⟩
    exact ((hdelete.zero_trans (gains_setQualifiedAnnounce _ (some m))).trans_zero
      (calm_addEventTimer _ rfl).gains).trans_zero (hadd _)

theorem Station.brings_unable {addr : Nat} : s.Brings addr true (s, false) :=
  ⟨0, (Calm.refl s).gains, by simp⟩

theorem Station.unable_iff :
    s.port.participates = false ↔
      s.port.portState = .PTP_DISABLED ∨ s.port.portState = .PTP_FAULTY := by
  rw [← Bool.not_eq_true, Port.participates_iff, not_not]

theorem Station.brings_processSync (m : Sync) :
    s.Brings m.addr (!s.port.participates) (s.processSync m) := by
  cases hp : s.port.participates with
  | false =>
    grind [processSync, unable_iff, brings_unable]
  | true =>
    refine ⟨{m.addr}, s.gains_processSync hp, ?_⟩
    grind [processSync]

theorem Station.brings_processResp (m : PathDelayResp) :
    s.Brings m.addr (!s.port.participates) (s.processResp m) := by
  cases hp : s.port.participates with
  | false =>
    grind [processResp, unable_iff, brings_unable]
  | true =>
    refine ⟨{m.addr}, s.gains_processResp hp, ?_⟩
    grind [processResp]

theorem Station.brings_processRespFollowUp (ops : RatioOps F) (m : PathDelayRespFollowUp)
    (hfresh : ∀ f, s.port.lastPDelayRespFollowUp = some f → f.addr ≠ m.addr) :
    s.Brings m.addr (!s.port.participates) (s.processRespFollowUp ops m) := by
  cases hp : s.port.participates with
  | false =>
    grind [processRespFollowUp, unable_iff, brings_unable]
  | true =>
    refine ⟨_, s.gains_processRespFollowUp ops hp hfresh, ?_⟩
    cases (s.processRespFollowUp ops m).2 <;> simp

theorem Station.brings_processMessage (ops : RatioOps F) (servo : Servo) (m : Message) (addr : Nat)
    (hfresh : ∀ f, s.port.lastPDelayRespFollowUp = some f → f.addr ≠ addr) :
    s.Brings addr (s.leaks servo m) (s.processMessage ops servo (m.place addr)) := by
  cases m with
  | sync m => exact s.brings_processSync { m with addr := addr }
  | followUp m => exact s.brings_processFollowUp servo { m with addr := addr } addr
  | pathDelayReq => exact ⟨0, (Calm.refl s).gains, by simp [leaks, processMessage, Message.place]⟩
  | pathDelayResp m => exact s.brings_processResp { m with addr := addr }
  | pathDelayRespFollowUp m =>
    exact s.brings_processRespFollowUp ops { m with addr := addr } hfresh
  | announce m => exact s.brings_processAnnounce { m with addr := addr }
  | signalling m =>
    exact ⟨0, (s.calm_processSignalling _).gains, by
      simp [leaks, processMessage, processSignalling, Message.place]⟩

theorem Station.tracked_receive (ops : RatioOps F) (servo : Servo) (m : Message)
    (h : s.Accounted) :
    (s.receive ops servo m).tracked = s.tracked + (if s.leaks servo m then 0 else {s.nextAddr}) ∧
      (s.receive ops servo m).nextAddr = s.nextAddr + 1 := by
  obtain ⟨stored, hgains, hsum⟩ := brings_processMessage { s with nextAddr := s.nextAddr + 1 } ops
    servo m s.nextAddr fun f hf => Nat.ne_of_lt (h.followUp_lt hf)
  unfold receive
  dsimp only
  generalize ({ s with nextAddr := s.nextAddr + 1 }.processMessage ops servo
    (m.place s.nextAddr)) = x at hgains hsum ⊢
  have hleak : s.leaks servo m = { s with nextAddr := s.nextAddr + 1 }.leaks servo m := by
    cases m <;> rfl
  rw [hleak, ← hsum]
  obtain ⟨t, garbage⟩ := x
  cases garbage with
  | false =>
    refine ⟨?_, hgains.nextAddr⟩
    simp only [Bool.false_eq_true, if_false, add_zero]
    exact hgains.tracked
  | true =>
    have hfreed := hgains.trans (gains_delete t s.nextAddr)
    exact ⟨hfreed.tracked, hfreed.nextAddr⟩

end Messages

def Station.Leaking (s : Station F) : Input → Prop
  | .receive m servo => s.leaks servo m = true
  | _ => False

theorem Station.Fired.gains {timer : Timer} (h : s.Fired timer u) : s.Gains 0 u := by
  refine ⟨?_, h.nextAddr⟩
  simp only [Station.tracked, h.freed, h.port, add_zero]

theorem Station.gains_step {ops : RatioOps F} {i : Input}
    (h : Station.step ops (some s) i = some t) (hi : ∀ m servo, i ≠ .receive m servo) :
    s.Gains 0 t := by
  cases i with
  | event e tx =>
    simp only [step] at h
    split at h
    · exact s.gains_processEvent h
    · cases h
      exact (Calm.refl s).gains
  | expire n tx =>
    cases htimer : s.timers[n]? with
    | none =>
      simp only [step, htimer] at h
      cases h
      exact (Calm.refl s).gains
    | some timer =>
      obtain ⟨u, hu, hstep⟩ := step_expire ops tx htimer
      exact hu.gains.trans_zero (u.gains_processEvent (hstep.symm.trans h))
  | receive m servo => exact absurd rfl (hi m servo)

theorem Station.Accounted.of_gains (hs : s.Accounted) (h : s.Gains 0 t) : t.Accounted := by
  refine accounted_of_once ?_
  rw [h.tracked, add_zero, h.nextAddr]
  exact hs.once

theorem Station.accounted_step {ops : RatioOps F} {i : Input} (hs : s.Accounted)
    (h : Station.step ops (some s) i = some t) : t.Accounted ↔ ¬ s.Leaking i := by
  cases i with
  | event e tx => exact iff_of_true (hs.of_gains (gains_step h (by simp))) (fun hleak => hleak)
  | expire n tx => exact iff_of_true (hs.of_gains (gains_step h (by simp))) (fun hleak => hleak)
  | receive m servo =>
    cases h
    obtain ⟨htracked, hnext⟩ := s.tracked_receive ops servo m hs
    rw [hs.once] at htracked
    constructor
    · intro ht (hleak : s.leaks servo m = true)
      -- one object is missing
      rw [ht.once, hnext, if_pos hleak, add_zero] at htracked
      grind [Multiset.card, Multiset.card_range]
    · intro (hleak : ¬ s.leaks servo m = true)
      refine accounted_of_once ?_
      rw [htracked, hnext, if_neg hleak, Multiset.range_succ, ← Multiset.singleton_add, add_comm]

/-- All received messages are accounted for in all states of a run exactly when they are at
the start and no message leaks. -/
theorem Station.messages_accounted_iff (ops : RatioOps F) (s : Station F) (is : List Input) :
    (∀ js, js <+: is → Runs.IfSome Station.Accounted (Runs.run (Station.step ops) (some s) js)) ↔
      s.Accounted ∧ Runs.Along (Station.step ops)
        (fun o i => Runs.IfSome (fun t => ¬ t.Leaking i) o) (some s) is := by
  have hruns : s.Accounted → ((∀ js, js <+: is →
      Runs.IfSome Station.Accounted (Runs.run (Station.step ops) (some s) js)) ↔
        Runs.Along (Station.step ops) (fun o i => Runs.IfSome (fun t => ¬ t.Leaking i) o) (some s)
          is) := by
    intro hs
    refine Runs.ending_prefixes_good_iff Station.Accounted Station.Accounted (fun _ h => h)
      (fun _ => rfl) ?_ ?_ is hs
    · intro r i t hok hr ht
      exact (accounted_step hr ht).mpr hok
    · intro r i hr hgood hleak
      cases i with
      | event e tx => exact hleak
      | expire n tx => exact hleak
      | receive m servo => exact (accounted_step hr rfl).mp (hgood _ rfl) hleak
  constructor
  · intro h
    have hs : s.Accounted := h [] List.nil_prefix s rfl
    exact ⟨hs, (hruns hs).mp h⟩
  · rintro ⟨hs, h⟩
    exact (hruns hs).mpr h

theorem signalling_leaks :
    ∃ t, Runs.run (Station.step noRatios) (some newStation)
        [.event .POWERUP none, .receive (.signalling ⟨0, 0, 0, 0⟩) quietServo] = some t ∧
      ¬ t.Accounted := by
  refine ⟨_, rfl, ?_⟩
  intro h
  have hcard : Multiset.card (0 : Multiset Nat) = 1 := congrArg Multiset.card h.once
  cases hcard

end Avb4Linux.Gptp
