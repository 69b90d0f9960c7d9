import Avb4Linux.Gptp.Frames
import Avb4Linux.Lib.Runs

/-!
# Masters and slaves over time

How the role of a port without the automotive profile changes in one step, and what follows for
its runs.
-/

namespace Avb4Linux.Gptp

open Lib

variable {F : Type}

structure Clock.OwnGrandmaster (c : Clock) : Prop where
  identity : c.grandmasterClockIdentity = c.clockIdentity
  priority1 : c.grandmasterPriority1 = c.priority1
  priority2 : c.grandmasterPriority2 = c.priority2

theorem Clock.ownGrandmaster_becomeGrandmaster (c : Clock) : c.becomeGrandmaster.OwnGrandmaster :=
  ⟨rfl, rfl, rfl⟩

theorem Clock.ownGrandmaster_noteEBest {c : Clock} {e : Announce}
    (h : c.isBetterThan (some e) = true) : (c.noteEBest e).OwnGrandmaster := by
  rw [noteEBest_of_better h]
  exact ownGrandmaster_becomeGrandmaster _

def Station.exhausts (m : FollowUp) (s : Station F) : Bool :=
  s.port.participates &&
    match s.port.lastSync with
    | none => false
    | some sync =>
      (sync.sequenceId ≠ m.sequenceId || sync.sourcePortIdentity ≠ m.sourcePortIdentity) &&
        s.port.syncReceiptThresh ≤ s.port.incWrongSeqIDCounter.wrongSeqIDCounter

def Station.Exhausted (s : Station F) : Input → Prop
  | .receive (.followUp m) _ => s.exhausts m = true
  | _ => False

def Input.Announced : Input → Prop
  | .receive (.announce _) _ => True
  | _ => False

abbrev Station.receiptTimers (s : Station F) : Nat :=
  s.pendingTimers .ANNOUNCE_RECEIPT_TIMEOUT_EXPIRES

inductive Station.RoleStep (i : Input) (s t : Station F) : Prop where
  | kept (same : s.SameRole t)
  | waits (clock : t.clock = s.clock) (state : t.port.portState = s.port.portState)
      (timer : 0 < t.receiptTimers)
      (master : s.port.portState = .PTP_MASTER → i.Announced ∨ 0 < s.receiptTimers)
  | follows (state : t.port.portState = .PTP_SLAVE) (timers : s.receiptTimers ≤ t.receiptTimers)
      (timer : s.port.portState ≠ .PTP_SLAVE → 0 < t.receiptTimers)
  | leads (state : t.port.portState = .PTP_MASTER) (own : t.clock.OwnGrandmaster)
  | stays (was : s.port.portState = .PTP_MASTER) (clock : t.clock = s.clock)
      (state : t.port.portState = .PTP_MASTER) (timer : t.receiptTimers = 0)
  | usurps (wrong : s.Exhausted i) (clock : t.clock = s.clock)
      (state : t.port.portState = .PTP_MASTER) (timer : t.receiptTimers = 0)

variable {i : Input} {s s₀ t u : Station F} {timer : Timer}

theorem Station.RoleStep.trans_sameRole (h : s.RoleStep i t) (h' : t.SameRole u) :
    s.RoleStep i u := by
  have htimer : u.receiptTimers = t.receiptTimers := h'.announceReceipts
  cases h with
  | kept same => exact .kept (same.trans h')
  | waits clock state timer master =>
    exact .waits (h'.clock.trans clock) (h'.portState.trans state) (by rw [htimer]; exact timer) master
  | follows state timers timer =>
    rw [← htimer] at timers timer
    exact .follows (h'.portState.trans state) timers timer
  | leads state own => exact .leads (h'.portState.trans state) (by rw [h'.clock]; exact own)
  | stays was clock state timer =>
    exact .stays was (h'.clock.trans clock) (h'.portState.trans state) (htimer.trans timer)
  | usurps wrong clock state timer =>
    exact .usurps wrong (h'.clock.trans clock) (h'.portState.trans state) (htimer.trans timer)

theorem Station.RoleStep.of_sameRole {r : Station F} (h : r.SameRole s)
    (hi : s.Exhausted i → r.Exhausted i) (h' : s.RoleStep i t) : r.RoleStep i t := by
  have htimers : s.receiptTimers = r.receiptTimers := h.announceReceipts
  cases h' with
  | kept same => exact .kept (h.trans same)
  | waits clock state timer master =>
    rw [h.portState, htimers] at master
    exact .waits (clock.trans h.clock) (state.trans h.portState) timer master
  | follows state timers timer =>
    rw [htimers] at timers
    rw [h.portState] at timer
    exact .follows state timers timer
  | leads state own => exact .leads state own
  | stays was clock state timer =>
    exact .stays (h.portState.symm.trans was) (clock.trans h.clock) state timer
  | usurps wrong clock state timer => exact .usurps (hi wrong) (clock.trans h.clock) state timer

section Functions

variable (s : Station F)

theorem Station.receiptTimers_becomeMaster (annc : Bool) : (s.becomeMaster annc).receiptTimers = 0 := by
  unfold becomeMaster receiptTimers
  dsimp only
  split <;> simp

theorem Station.receiptTimers_becomeSlave (hauto : s.port.automotiveProfile = false) :
    s.becomeSlave.receiptTimers = s.receiptTimers + 1 := by
  simp [becomeSlave, receiptTimers, hauto]

theorem Station.receiptTimers_recommend_slave (changed : Bool)
    (hauto : s.port.automotiveProfile = false) :
    s.receiptTimers ≤ (s.recommendState .PTP_SLAVE changed).receiptTimers ∧
      (s.port.portState ≠ .PTP_SLAVE →
        0 < (s.recommendState .PTP_SLAVE changed).receiptTimers) := by
  unfold recommendState
  dsimp only
  by_cases hslave : s.port.portState = .PTP_SLAVE
  · rw [if_pos hslave]
    refine ⟨?_, fun h => absurd hslave h⟩
    split
    · exact le_rfl
    · exact le_rfl
  · rw [if_neg hslave]
    have htimers := receiptTimers_becomeSlave
      { s with recommended := s.recommended ++ [(s.port.ifindex, .PTP_SLAVE)] } hauto
    simp only [receiptTimers, pendingTimers_setPort] at htimers ⊢
    rw [htimers]
    exact ⟨Nat.le_succ _, fun _ => Nat.succ_pos _⟩

variable (i : Input)

theorem Station.takeRole_roleStep (hauto : s.port.automotiveProfile = false)
    (h255 : s.clock.priority1 ≠ 255) : s.RoleStep i s.takeRole := by
  unfold takeRole
  simp only [h255, false_or]
  by_cases hslave : s.port.portState = .PTP_SLAVE
  · rw [if_pos hslave]
    have htimers := s.receiptTimers_becomeSlave hauto
    exact .follows (by rw [s.becomeSlave_sameBut.port]) (by omega) (by omega)
  · rw [if_neg hslave]
    by_cases hmaster : s.port.portState = .PTP_MASTER
    · rw [if_pos hmaster]
      obtain ⟨hclock, hport, -, -, -⟩ := s.becomeMaster_sameBut true
      exact .stays hmaster hclock (by rw [hport]) (s.receiptTimers_becomeMaster true)
    · rw [if_neg hmaster]
      exact .waits rfl rfl (by simp [receiptTimers]) fun h => absurd h hmaster

theorem Station.takeRole_waits (hauto : s.port.automotiveProfile = false)
    (h255 : s.clock.priority1 ≠ 255) (h : s.takeRole.port.portState ≠ .PTP_MASTER) :
    0 < s.takeRole.receiptTimers := by
  unfold takeRole at h ⊢
  simp only [h255, false_or] at h ⊢
  by_cases hslave : s.port.portState = .PTP_SLAVE
  · rw [if_pos hslave, s.receiptTimers_becomeSlave hauto]
    omega
  · rw [if_neg hslave] at h ⊢
    by_cases hmaster : s.port.portState = .PTP_MASTER
    · rw [if_pos hmaster, (s.becomeMaster_sameBut true).port] at h
      exact absurd rfl h
    · rw [if_neg hmaster]
      simp [receiptTimers]

theorem Station.processStateChange_roleStep (hauto : s.port.automotiveProfile = false)
    (h255 : s.clock.priority1 ≠ 255) : s.RoleStep i s.processStateChange := by
  obtain heq | ⟨e, hbetter, changed, heq⟩ | ⟨e, changed, heq⟩ := s.processStateChange_cases h255
  · rw [heq]
    exact .kept (.refl s)
  · rw [heq]
    have hrec := (s.setClock (Clock.noteEBest e)).recommendState_master changed
    refine .leads hrec.portState ?_
    rw [hrec.clock]
    exact Clock.ownGrandmaster_noteEBest hbetter
  · rw [heq]
    have hrec := (s.setClock (Clock.noteEBest e)).recommendState_slave changed
    obtain ⟨htimers, htimer⟩ := (s.setClock (Clock.noteEBest e)).receiptTimers_recommend_slave
      changed hauto
    exact .follows hrec.portState htimers htimer

theorem Station.awaitAgain_fixed (e : Event) : s.Fixed (s.awaitAgain e) := by
  unfold awaitAgain
  split
  · exact ⟨rfl, rfl, rfl, rfl, rfl⟩
  · exact ⟨rfl, rfl, rfl, rfl, rfl⟩

theorem Station.processSyncAnnounceTimeout_fixed (e : Event) :
    s.Fixed (s.processSyncAnnounceTimeout e) := by
  unfold processSyncAnnounceTimeout
  split
  · exact .refl s
  · split
    · exact s.awaitAgain_fixed e
    · exact (s.awaitAgain_fixed e).trans ⟨rfl, rfl, rfl, rfl, rfl⟩

theorem Station.processSyncAnnounceTimeout_leads {e : Event} (h255 : s.clock.priority1 ≠ 255)
    (hstate : s.port.portState ≠ .PTP_MASTER) :
    (s.processSyncAnnounceTimeout e).port.portState = .PTP_MASTER ∧
      (s.processSyncAnnounceTimeout e).clock.OwnGrandmaster := by
  unfold processSyncAnnounceTimeout
  rw [if_neg h255, if_neg hstate]
  exact ⟨rfl, Clock.ownGrandmaster_becomeGrandmaster _⟩

theorem Station.processSyncAnnounceTimeout_master {e : Event} (h255 : s.clock.priority1 ≠ 255)
    (hstate : s.port.portState = .PTP_MASTER) :
    s.processSyncAnnounceTimeout e = s.awaitAgain e := by
  unfold processSyncAnnounceTimeout
  rw [if_neg h255, if_pos hstate]

theorem Station.syncTimeout_roleStep (h255 : s.clock.priority1 ≠ 255) :
    s.RoleStep i (s.processSyncAnnounceTimeout .SYNC_RECEIPT_TIMEOUT_EXPIRES) := by
  by_cases hstate : s.port.portState = .PTP_MASTER
  · rw [s.processSyncAnnounceTimeout_master h255 hstate]
    exact .kept (s.calm_restartTimer rfl).role
  · obtain ⟨hmaster, hown⟩ := s.processSyncAnnounceTimeout_leads h255 hstate
    exact .leads hmaster hown

theorem Station.announceTimeout_roleStep {r : Station F} (h255 : s.clock.priority1 ≠ 255)
    (hclock : s.clock = r.clock) (hport : s.port = r.port) (htimer : 0 < r.receiptTimers) :
    r.RoleStep i (s.processSyncAnnounceTimeout .ANNOUNCE_RECEIPT_TIMEOUT_EXPIRES) := by
  by_cases hstate : s.port.portState = .PTP_MASTER
  · rw [s.processSyncAnnounceTimeout_master h255 hstate]
    refine .waits hclock (congrArg Port.portState hport) ?_ fun _ => Or.inr htimer
    simp [receiptTimers, awaitAgain]
  · obtain ⟨hmaster, hown⟩ := s.processSyncAnnounceTimeout_leads h255 hstate
    exact .leads hmaster hown

theorem Station.processAnnounce_role (a : Announce) :
    (s.processAnnounce a).1.clock = s.clock ∧
      (s.processAnnounce a).1.port.portState = s.port.portState ∧
      s.Fixed (s.processAnnounce a).1 ∧ 0 < (s.processAnnounce a).1.receiptTimers := by
  unfold processAnnounce receiptTimers
  dsimp only
  split
  · exact ⟨rfl, rfl, ⟨rfl, rfl, rfl, rfl, rfl⟩, by simp⟩
  · exact ⟨rfl, rfl, ⟨rfl, rfl, rfl, rfl, rfl⟩, by simp⟩

theorem Station.wrongFollowUp_master
    (h : s.port.syncReceiptThresh ≤ s.port.incWrongSeqIDCounter.wrongSeqIDCounter) :
    s.wrongFollowUp.clock = s.clock ∧ s.wrongFollowUp.port.portState = .PTP_MASTER ∧
      s.wrongFollowUp.receiptTimers = 0 := by
  obtain ⟨hclock, hport, -, -, -⟩ := (s.setPort Port.incWrongSeqIDCounter).becomeMaster_sameBut true
  have hcount : ¬ (s.setPort Port.incWrongSeqIDCounter).port.wrongSeqIDCounter <
      (s.setPort Port.incWrongSeqIDCounter).port.syncReceiptThresh := UInt32.not_lt.mpr h
  unfold wrongFollowUp
  dsimp only
  rw [if_neg hcount]
  refine ⟨hclock, ?_, receiptTimers_becomeMaster _ true⟩
  rw [setPort_port, hport]

theorem Station.wrongFollowUp_role :
    s.SameRole s.wrongFollowUp ∨ s.port.syncReceiptThresh ≤ s.port.incWrongSeqIDCounter.wrongSeqIDCounter := by
  grind [Port.incWrongSeqIDCounter, setPort, UInt32.not_le, wrongFollowUp, sameRole_setPort]

theorem Station.processFollowUp_role (servo : Servo) (m : FollowUp) :
    s.SameRole (s.processFollowUp servo m).1 ∨
      s.exhausts m = true ∧ (s.processFollowUp servo m).1.clock = s.clock ∧
        (s.processFollowUp servo m).1.port.portState = .PTP_MASTER ∧
        (s.processFollowUp servo m).1.receiptTimers = 0 := by
  have hstop : s.SameRole s.stopSyncReceiptTimer := (s.calm_deleteEventTimer rfl).role
  have hcase := s.processFollowUp_case servo m
  generalize s.processFollowUp servo m = x at hcase ⊢
  cases hcase with
  | ignored => exact Or.inl hstop
  | wrong able stored differs =>
    have hdrop := s.stopSyncReceiptTimer.wrongFollowUp.sameRole_dropSync
    obtain hrole | hthresh := s.stopSyncReceiptTimer.wrongFollowUp_role
    · exact Or.inl ((hstop.trans hrole).trans hdrop)
    · obtain ⟨hclock, hmaster, htimers⟩ := s.stopSyncReceiptTimer.wrongFollowUp_master hthresh
      refine Or.inr ⟨?_, hdrop.clock.trans hclock, hdrop.portState.trans hmaster,
        hdrop.announceReceipts.trans htimers⟩
      simp only [exhausts, able, stored, Bool.true_and, Bool.and_eq_true, Bool.or_eq_true,
        decide_eq_true_eq]
      exact ⟨differs, hthresh⟩
  | outdated => exact Or.inl (hstop.trans (sameRole_dropSync _))
  | taken =>
    exact Or.inl ((hstop.trans (calm_synchronize _ servo).role).trans (sameRole_dropSync _))

theorem Station.processFollowUp_exhausted (servo : Servo) {m : FollowUp}
    (h : s.exhausts m = true) :
    (s.processFollowUp servo m).1.clock = s.clock ∧
      (s.processFollowUp servo m).1.port.portState = .PTP_MASTER := by
  have hcase := s.processFollowUp_case servo m
  generalize s.processFollowUp servo m = x at hcase ⊢
  cases hcase with
  | ignored unable =>
    grind [exhausts]
  | wrong able stored differs =>
    have hthresh : s.port.syncReceiptThresh ≤ s.port.incWrongSeqIDCounter.wrongSeqIDCounter := by
      grind [exhausts]
    have hdrop := s.stopSyncReceiptTimer.wrongFollowUp.sameRole_dropSync
    obtain ⟨hclock, hmaster, -⟩ := s.stopSyncReceiptTimer.wrongFollowUp_master hthresh
    exact ⟨hdrop.clock.trans hclock, hdrop.portState.trans hmaster⟩
  | outdated able stored sequence source => simp [exhausts, stored, sequence, source] at h
  | taken able stored sequence source => simp [exhausts, stored, sequence, source] at h

theorem Station.processFollowUp_fixed (servo : Servo) (m : FollowUp) :
    s.Fixed (s.processFollowUp servo m).1 := by
  have hstop : s.Fixed s.stopSyncReceiptTimer := ⟨rfl, rfl, rfl, rfl, rfl⟩
  have hcase := s.processFollowUp_case servo m
  generalize s.processFollowUp servo m = x at hcase ⊢
  cases hcase with
  | ignored => exact hstop
  | wrong =>
    exact (hstop.trans (sameHoldings_wrongFollowUp _).toFixed).trans (sameRole_dropSync _).fixed
  | outdated => exact hstop.trans (sameRole_dropSync _).fixed
  | taken =>
    exact (hstop.trans (calm_synchronize _ servo).role.fixed).trans (sameRole_dropSync _).fixed

end Functions

theorem Station.processEvent_roleStep {ops : RatioOps F} {tx : Option Timestamp} {e : Event}
    (hi : ∀ u : Station F, ¬ u.Exhausted i) (hauto : s.port.automotiveProfile = false)
    (h255 : s.clock.priority1 ≠ 255) (he : e ≠ .ANNOUNCE_RECEIPT_TIMEOUT_EXPIRES)
    (h : s.processEvent ops tx e = some t) : s.RoleStep i t ∧ s.Fixed t := by
  cases processEvent_case h with
  | calm same => exact ⟨.kept same.role, same.role.fixed⟩
  | @takesRole u before after =>
    rw [← before.role.automotiveProfile] at hauto
    rw [← before.role.clock] at h255
    have hstep := (u.takeRole_roleStep i hauto h255).trans_sameRole after.role
    exact ⟨hstep.of_sameRole before.role (fun h => absurd h (hi u)),
      (before.role.fixed.trans u.sameHoldings_takeRole.toFixed).trans after.role.fixed⟩
  | decides result =>
    subst result
    exact ⟨s.processStateChange_roleStep i hauto h255, s.sameHoldings_processStateChange.toFixed⟩
  | requests tx result =>
    subst result
    exact ⟨.kept (s.sameRole_requestDelay tx), (s.sameRole_requestDelay tx).fixed⟩
  | timesOut receipt result =>
    grind [syncTimeout_roleStep, processSyncAnnounceTimeout_fixed]
  | resumes deferred result =>
    have hsame := s.sameRole_processDeferred result
    exact ⟨.kept hsame, hsame.fixed⟩

theorem Station.Fired.sameRole (h : s.Fired timer u)
    (he : timer.event ≠ .ANNOUNCE_RECEIPT_TIMEOUT_EXPIRES) : s.SameRole u := by
  have hcount := h.pendingTimers .ANNOUNCE_RECEIPT_TIMEOUT_EXPIRES
  rw [if_neg he] at hcount
  refine ⟨h.clock, ?_, ?_, ?_, hcount.symm⟩ <;> rw [h.port]

theorem Station.Fired.fixed (h : s.Fired timer u) : s.Fixed u := by
  constructor <;> simp only [h.clock, h.port]

theorem Station.Fired.roleStep {ops : RatioOps F} {tx : Option Timestamp} {n : Nat}
    (hu : s.Fired timer u) (hauto : s.port.automotiveProfile = false)
    (h255 : s.clock.priority1 ≠ 255) (h : u.processEvent ops tx timer.event = some t) :
    s.RoleStep (.expire n tx) t ∧ s.Fixed t := by
  rw [← hu.port] at hauto
  rw [← hu.clock] at h255
  by_cases he : timer.event = .ANNOUNCE_RECEIPT_TIMEOUT_EXPIRES
  · have hcount := hu.pendingTimers .ANNOUNCE_RECEIPT_TIMEOUT_EXPIRES
    rw [if_pos he] at hcount
    rw [he] at h
    cases h
    rw [if_neg (by rw [hauto]; decide)]
    refine ⟨announceTimeout_roleStep _ _ h255 hu.clock hu.port ?_,
      hu.fixed.trans (processSyncAnnounceTimeout_fixed _ _)⟩
    rw [receiptTimers, hcount]
    omega
  · have hfire := hu.sameRole he
    obtain ⟨hstep, hfixed⟩ := processEvent_roleStep (i := .expire n tx) (fun _ h => h) hauto h255 he h
    exact ⟨hstep.of_sameRole hfire (fun h => h), hfire.fixed.trans hfixed⟩

theorem Station.processMessage_roleStep (ops : RatioOps F) (servo : Servo) (m : Message)
    (addr : Nat) (s : Station F) :
    s.RoleStep (.receive m servo) (s.processMessage ops servo (m.place addr)).1 ∧
      s.Fixed (s.processMessage ops servo (m.place addr)).1 := by
  have kept : ∀ {t}, s.SameRole t → s.RoleStep (.receive m servo) t ∧ s.Fixed t :=
    fun h => ⟨.kept h, h.fixed⟩
  cases m with
  | sync m => exact kept (s.sameRole_processSync _)
  | followUp m =>
    refine ⟨?_, s.processFollowUp_fixed servo _⟩
    obtain hsame | ⟨hwrong, hclock, hstate, htimers⟩ :=
      s.processFollowUp_role servo { m with addr := addr }
    · exact .kept hsame
    · exact .usurps hwrong hclock hstate htimers
  | pathDelayReq => exact kept (.refl s)
  | pathDelayResp m => exact kept (s.sameRole_processResp _)
  | pathDelayRespFollowUp m => exact kept (s.sameRole_processRespFollowUp ops _)
  | announce m =>
    obtain ⟨hclock, hstate, hfixed, htimer⟩ := s.processAnnounce_role { m with addr := addr }
    exact ⟨.waits hclock hstate htimer fun _ => Or.inl trivial, hfixed⟩
  | signalling m => exact kept (s.calm_processSignalling _).role

theorem Station.receive_roleStep (ops : RatioOps F) (servo : Servo) (m : Message) (s : Station F) :
    s.RoleStep (.receive m servo) (s.receive ops servo m) ∧ s.Fixed (s.receive ops servo m) := by
  have hbuilt : s.SameRole { s with nextAddr := s.nextAddr + 1 } := ⟨rfl, rfl, rfl, rfl, rfl⟩
  obtain ⟨hstep, hfixed⟩ := processMessage_roleStep ops servo m s.nextAddr
    { s with nextAddr := s.nextAddr + 1 }
  have hrole := hstep.of_sameRole hbuilt (by cases m <;> exact fun h => h)
  unfold receive
  dsimp only
  split
  · have hdelete := sameRole_delete ({ s with nextAddr := s.nextAddr + 1 }.processMessage ops servo
      (m.place s.nextAddr)).1 (some s.nextAddr)
    exact ⟨hrole.trans_sameRole hdelete, (hbuilt.fixed.trans hfixed).trans hdelete.fixed⟩
  · exact ⟨hrole, hbuilt.fixed.trans hfixed⟩

theorem Station.step_roleStep {ops : RatioOps F} (hauto : s.port.automotiveProfile = false)
    (h255 : s.clock.priority1 ≠ 255) (h : Station.step ops (some s) i = some t) :
    s.RoleStep i t ∧ s.Fixed t := by
  cases i with
  | event e tx =>
    simp only [step] at h
    split at h
    · rename_i hext
      refine processEvent_roleStep (fun _ h => h) hauto h255 ?_ h
      rintro rfl
      cases hext
    · cases h
      exact ⟨.kept (.refl s), .refl s⟩
  | expire n tx =>
    cases htimer : s.timers[n]? with
    | none =>
      simp only [step, htimer] at h
      cases h
      exact ⟨.kept (.refl s), .refl s⟩
    | some timer =>
      obtain ⟨u, hu, hstep⟩ := step_expire ops tx htimer
      exact hu.roleStep hauto h255 (hstep.symm.trans h)
  | receive m servo =>
    cases h
    exact receive_roleStep ops servo m s

theorem Station.step_exhausted (ops : RatioOps F) (h : s.Exhausted i) :
    ∃ t, Station.step ops (some s) i = some t ∧ t.clock = s.clock ∧
      t.port.portState = .PTP_MASTER := by
  cases i with
  | event e tx => exact h.elim
  | expire n tx => exact h.elim
  | receive m servo =>
    cases m with
    | followUp m =>
      obtain ⟨hclock, hstate⟩ := processFollowUp_exhausted { s with nextAddr := s.nextAddr + 1 } servo
        (m := { m with addr := s.nextAddr }) h
      refine ⟨_, rfl, ?_⟩
      unfold receive processMessage Message.place
      dsimp only
      split
      · exact ⟨hclock, hstate⟩
      · exact ⟨hclock, hstate⟩
    | _ => exact h.elim

structure Station.Ordinary (s : Station F) : Prop where
  automotiveProfile : s.port.automotiveProfile = false
  priority1 : s.clock.priority1 ≠ 255

theorem Station.Ordinary.of_fixed (h : s.Ordinary) (hfixed : s.Fixed t) : t.Ordinary :=
  ⟨hfixed.automotiveProfile.trans h.automotiveProfile, by rw [hfixed.priority1]; exact h.priority1⟩

/-- If the port is a master, the grandmaster is the clock itself, and what it announces is
its own priority vector. -/
def Station.Consistent (s : Station F) : Prop :=
  s.port.portState = .PTP_MASTER →
    s.clock.OwnGrandmaster ∧
      ∀ portNumber addr, (s.clock.announce portNumber addr).priorityVector = s.clock.priorityVector

theorem Station.consistent_iff (s : Station F) :
    s.Consistent ↔ (s.port.portState = .PTP_MASTER → s.clock.OwnGrandmaster) := by
  constructor
  · intro h hmaster
    exact (h hmaster).1
  · intro h hmaster
    refine ⟨h hmaster, ?_⟩
    intro portNumber addr
    simp only [Announce.priorityVector, Clock.announce, Clock.priorityVector, (h hmaster).identity]

theorem Station.consistent_step {ops : RatioOps F} (hs : s.Ordinary) (hc : s.Consistent)
    (hi : s.Exhausted i → s.clock.OwnGrandmaster) (h : Station.step ops (some s) i = some t) :
    t.Ordinary ∧ t.Consistent := by
  obtain ⟨hrole, hfixed⟩ := step_roleStep hs.automotiveProfile hs.priority1 h
  rw [consistent_iff] at hc
  refine ⟨hs.of_fixed hfixed, (consistent_iff t).mpr ?_⟩
  intro hmaster
  cases hrole with
  | kept same =>
    rw [same.clock]
    exact hc (same.portState.symm.trans hmaster)
  | waits clock state =>
    rw [clock]
    exact hc (state.symm.trans hmaster)
  | follows state =>
    rw [state] at hmaster
    cases hmaster
  | leads state own => exact own
  | stays was clock =>
    rw [clock]
    exact hc was
  | usurps wrong clock =>
    rw [clock]
    exact hi wrong

/-- A master is the grandmaster in all states of a run, exactly when it is at the start
and no Follow_Up too many arrives while the grandmaster is another clock. -/
theorem Station.master_consistent_iff (ops : RatioOps F) (s : Station F) (hs : s.Ordinary)
    (is : List Input) :
    (∀ js, js <+: is → Runs.IfSome Station.Consistent (Runs.run (Station.step ops) (some s) js)) ↔
      s.Consistent ∧ Runs.Along (Station.step ops)
        (fun o i => Runs.IfSome (fun t => t.Exhausted i → t.clock.OwnGrandmaster) o) (some s) is := by
  have hruns : s.Consistent → ((∀ js, js <+: is →
      Runs.IfSome Station.Consistent (Runs.run (Station.step ops) (some s) js)) ↔
        Runs.Along (Station.step ops)
          (fun o i => Runs.IfSome (fun t => t.Exhausted i → t.clock.OwnGrandmaster) o) (some s) is) := by
    intro hc
    refine Runs.ending_prefixes_good_iff (fun t => t.Ordinary ∧ t.Consistent) Station.Consistent
      (fun t h => h.2) (fun _ => rfl) ?_ ?_ is ⟨hs, hc⟩
    · rintro r i t hok ⟨hr, hc⟩ ht
      exact consistent_step hr hc hok ht
    · rintro r i - hgood hwrong
      obtain ⟨t, ht, hclock, hmaster⟩ := step_exhausted ops hwrong
      rw [← hclock]
      exact (hgood t ht hmaster).1
  constructor
  · intro h
    have hc : s.Consistent := h [] List.nil_prefix s rfl
    exact ⟨hc, (hruns hc).mp h⟩
  · rintro ⟨hc, h⟩
    exact (hruns hc).mpr h

def noRatios : RatioOps Unit where
  nearOne _ := false
  scale _ _ := 0
  quotient _ _ := ()
  within _ := false

def newStation : Station Unit where
  clock := newClock 1 246
  port := newPort 1 none
  timers := []
  nextAddr := 0
  freed := []
  recommended := []

def ownPort : PortIdentity := ⟨Vector.replicate 8 1, 1⟩

@[inherit_doc ownPort]
def peerPort : PortIdentity := ⟨Vector.replicate 8 2, 1⟩

def timeZero : Timestamp := ⟨0, 0, 0, 0⟩

def quietServo : Servo := ⟨0, false, false⟩

def measuring : List Input :=
  [.event .POWERUP none, .expire 1 (some timeZero),
    .receive (.pathDelayResp ⟨0, peerPort, 0, timeZero, ownPort, timeZero⟩) quietServo,
    .receive (.pathDelayRespFollowUp ⟨0, peerPort, 0, ownPort, timeZero⟩) quietServo]

def enslaving : List Input :=
  [.receive (.announce ((newClock 2 245).becomeGrandmaster.announce 1 0)) quietServo,
    .expire 1 none]

def lostSync : List Input :=
  [.receive (.sync ⟨0, peerPort, 1, timeZero⟩) quietServo,
    .receive (.followUp ⟨0, peerPort, 2⟩) quietServo]

theorem master_of_another_clock :
    ∃ t, Runs.run (Station.step noRatios) (some newStation)
        (measuring ++ enslaving ++ (List.replicate 5 lostSync).flatten) = some t ∧
      ¬ t.Consistent := by
  have hrun : ((Runs.run (Station.step noRatios) (some newStation)
      (measuring ++ enslaving ++ (List.replicate 5 lostSync).flatten)).any fun t =>
        t.port.portState = .PTP_MASTER &&
          t.clock.grandmasterClockIdentity ≠ t.clock.clockIdentity) = true := by
    decide +kernel
  obtain ⟨t, ht, hp⟩ := (Option.any_eq_true _ _).mp hrun
  simp only [Bool.and_eq_true, decide_eq_true_eq] at hp
  refine ⟨t, ht, ?_⟩
  intro hc
  exact hp.2 (hc hp.1).1.identity

theorem newStation_ordinary : newStation.Ordinary :=
  ⟨rfl, by decide⟩

theorem newStation_consistent : newStation.Ordinary ∧
    ∀ js, js <+: [Input.event .POWERUP none, .expire 0 none] →
      Runs.IfSome Station.Consistent (Runs.run (Station.step noRatios) (some newStation) js) := by
  refine ⟨newStation_ordinary, (newStation.master_consistent_iff noRatios newStation_ordinary
    [.event .POWERUP none, .expire 0 none]).mpr ⟨?_, ?_⟩⟩
  · intro hmaster
    cases hmaster
  · refine Runs.along_of_forall_mem ?_ _
    intro o i hi t _ hwrong
    simp only [List.mem_cons, List.not_mem_nil, or_false] at hi
    obtain rfl | rfl := hi
    · exact hwrong.elim
    · exact hwrong.elim

def Station.Waiting (s : Station F) : Prop :=
  s.port.portState ≠ .PTP_MASTER → 0 < s.receiptTimers

theorem Station.waiting_step {ops : RatioOps F} (hs : s.Ordinary) (hw : s.Waiting)
    (h : Station.step ops (some s) i = some t) : t.Waiting := by
  obtain ⟨hrole, -⟩ := step_roleStep hs.automotiveProfile hs.priority1 h
  intro hstate
  cases hrole with
  | kept same =>
    rw [same.portState] at hstate
    rw [receiptTimers, same.announceReceipts]
    exact hw hstate
  | waits clock state timer => exact timer
  | follows state timers timer =>
    by_cases hslave : s.port.portState = .PTP_SLAVE
    · have hpos := hw (by rw [hslave]; decide)
      omega
    · exact timer hslave
  | leads state => exact absurd state hstate
  | stays was clock state => exact absurd state hstate
  | usurps wrong clock state => exact absurd state hstate

theorem Station.waiting_powerUp (hs : s.Ordinary) : s.powerUp.Waiting := by
  have hcalm := s.calm_powerUp.role
  intro hstate
  rw [hcalm.portState] at hstate
  rw [receiptTimers, hcalm.announceReceipts]
  exact s.takeRole_waits hs.automotiveProfile hs.priority1 hstate

def Station.Unheard (s : Station F) : Prop :=
  s.port.portState = .PTP_MASTER → 0 < s.receiptTimers → s.clock.OwnGrandmaster

theorem Station.unheard_step {ops : RatioOps F} (hs : s.Ordinary) (hu : s.Unheard)
    (hi : ¬ i.Announced) (h : Station.step ops (some s) i = some t) : t.Unheard := by
  obtain ⟨hrole, -⟩ := step_roleStep hs.automotiveProfile hs.priority1 h
  intro hmaster htimers
  cases hrole with
  | kept same =>
    rw [same.clock]
    rw [receiptTimers, same.announceReceipts] at htimers
    exact hu (same.portState.symm.trans hmaster) htimers
  | waits clock state timer master =>
    have hwas := state.symm.trans hmaster
    rw [clock]
    exact hu hwas ((master hwas).resolve_left hi)
  | follows state =>
    rw [state] at hmaster
    cases hmaster
  | leads state own => exact own
  | stays was clock state timer => omega
  | usurps wrong clock state timer => omega

theorem Station.fixed_step {ops : RatioOps F} (hs : s.Ordinary)
    (h : Station.step ops (some s) i = some t) : s.Fixed t :=
  (step_roleStep hs.automotiveProfile hs.priority1 h).2

theorem Station.run_keeps {ops : RatioOps F} {P : Station F → Prop} {is : List Input}
    (hs₀ : s₀.Ordinary)
    (hstep : ∀ {s t i}, i ∈ is → s.Ordinary → P s → Station.step ops (some s) i = some t → P t)
    (hfixed : s₀.Fixed s) (hs : P s) (h : Runs.run (Station.step ops) (some s) is = some t) :
    s₀.Fixed t ∧ P t := by
  have hinv : ∀ r i u, i ∈ is → s₀.Fixed r ∧ P r → Station.step ops (some r) i = some u →
      s₀.Fixed u ∧ P u := by
    rintro r i u hi ⟨hr, hP⟩ hu
    have hord := hs₀.of_fixed hr
    exact ⟨hr.trans (fixed_step hord hu), hstep hi hord hP hu⟩
  refine Runs.ending_invariant (fun _ => rfl) hinv ⟨hfixed, hs⟩ ?_ h
  refine Runs.along_of_forall_mem ?_ _
  intro o i hi r _
  exact hi

theorem Station.waiting_run {ops : RatioOps F} {is : List Input} (hs₀ : s₀.Ordinary)
    (hpower : ∃ tx, Input.event .POWERUP tx ∈ is)
    (h : Runs.run (Station.step ops) (some s₀) is = some s) : s₀.Fixed s ∧ s.Waiting := by
  obtain ⟨tx, hmem⟩ := hpower
  obtain ⟨before, after, rfl⟩ := List.append_of_mem hmem
  rw [Runs.run_append, Runs.run_cons] at h
  cases hbefore : Runs.run (Station.step ops) (some s₀) before with
  | none =>
    grind [Runs.run, step, Runs.run_ended, Runs.run_cons]
  | some r =>
    rw [hbefore] at h
    obtain ⟨hr, -⟩ := run_keeps (P := fun _ => True) hs₀ (fun _ _ _ _ => trivial) (.refl s₀) trivial
      hbefore
    have hord := hs₀.of_fixed hr
    have hup : Station.step ops (some r) (.event .POWERUP tx) = some r.powerUp := rfl
    rw [hup] at h
    exact run_keeps hs₀ (fun _ hs hw hstep => waiting_step hs hw hstep)
      (hr.trans (fixed_step hord hup)) (waiting_powerUp hord) h

/-- After power-up a port that is not a master has a timer for the next Announce, and when
such a timer fires and no Announce has arrived in between, the port is a master and its
clock the grandmaster. -/
theorem Station.failover (ops : RatioOps F) {s₀ s : Station F} (hs₀ : s₀.Ordinary)
    {is : List Input} (hpower : ∃ tx, Input.event .POWERUP tx ∈ is)
    (hrun : Runs.run (Station.step ops) (some s₀) is = some s)
    (hstate : s.port.portState ≠ .PTP_MASTER) :
    0 < s.receiptTimers ∧
      ∀ js, (∀ i ∈ js, ¬ i.Announced) →
        ∀ t, Runs.run (Station.step ops) (some s) js = some t →
          ∀ n timer tx, t.timers[n]? = some timer →
            timer.event = .ANNOUNCE_RECEIPT_TIMEOUT_EXPIRES →
            ∃ u, Station.step ops (some t) (.expire n tx) = some u ∧
              u.port.portState = .PTP_MASTER ∧
              u.clock.grandmasterClockIdentity = s₀.clock.clockIdentity := by
  obtain ⟨hfixed, hwaiting⟩ := waiting_run hs₀ hpower hrun
  refine ⟨hwaiting hstate, ?_⟩
  intro js hjs t ht n timer tx htimer hevent
  obtain ⟨htfixed, hunheard⟩ := run_keeps (P := Station.Unheard) hs₀
    (fun hi hs hu hstep => unheard_step hs hu (hjs _ hi) hstep) hfixed
    (fun hmaster => absurd hmaster hstate) ht
  have hord := hs₀.of_fixed htfixed
  obtain ⟨u, hu, hstep⟩ := step_expire ops tx htimer
  have hauto : u.port.automotiveProfile = false := by
    rw [hu.port]
    exact hord.automotiveProfile
  have h255 : u.clock.priority1 ≠ 255 := by
    rw [hu.clock]
    exact hord.priority1
  have hcount := hu.pendingTimers .ANNOUNCE_RECEIPT_TIMEOUT_EXPIRES
  rw [if_pos hevent] at hcount
  have hevents : u.processEvent ops tx timer.event =
      some (u.processSyncAnnounceTimeout .ANNOUNCE_RECEIPT_TIMEOUT_EXPIRES) := by
    rw [hevent]
    simp only [processEvent, hauto, Bool.false_eq_true, if_false]
  refine ⟨_, hstep.trans hevents, ?_⟩
  have hid : u.clock.clockIdentity = s₀.clock.clockIdentity := by
    rw [hu.clock]
    exact htfixed.clockIdentity
  by_cases hmaster : u.port.portState = .PTP_MASTER
  · rw [u.processSyncAnnounceTimeout_master h255 hmaster]
    have hown := hunheard (by rw [← hu.port]; exact hmaster) (by rw [receiptTimers, hcount]; omega)
    refine ⟨hmaster, ?_⟩
    exact (congrArg _ hu.clock).trans (hown.identity.trans htfixed.clockIdentity)
  · obtain ⟨hstate', hown⟩ := u.processSyncAnnounceTimeout_leads
      (e := .ANNOUNCE_RECEIPT_TIMEOUT_EXPIRES) h255 hmaster
    refine ⟨hstate', hown.identity.trans ?_⟩
    rw [(u.processSyncAnnounceTimeout_fixed _).clockIdentity]
    exact hid

theorem newStation_failover :
    ∃ u, Runs.run (Station.step noRatios) (some newStation)
        [.event .POWERUP none, .expire 0 none] = some u ∧
      u.port.portState = .PTP_MASTER ∧
      u.clock.grandmasterClockIdentity = newStation.clock.clockIdentity := by
  have hrun : Runs.run (Station.step noRatios) (some newStation) [.event .POWERUP none] =
      some newStation.powerUp := rfl
  exact (Station.failover noRatios newStation_ordinary ⟨none, List.mem_singleton.mpr rfl⟩ hrun
    (by decide)).2 [] (fun i hi => absurd hi List.not_mem_nil) _ rfl 0
      ⟨.ANNOUNCE_RECEIPT_TIMEOUT_EXPIRES, 1⟩ none rfl rfl

end Avb4Linux.Gptp
