import Avb4Linux.Gptp.StateDecision
import Mathlib.Data.List.Perm.Basic

/-!
# What the functions of a port leave alone

Most of them change timers and settings only (`Calm`); the others leave the role of the port or
the messages that it holds alone.
-/

namespace Avb4Linux.Gptp

variable {F : Type}

def Station.pendingTimers (e : Event) (s : Station F) : Nat :=
  s.timers.countP fun t => t.event = e

section Counting

variable (s : Station F) (e e' : Event)

@[simp]
theorem Station.pendingTimers_addEventTimer :
    (s.addEventTimer e').pendingTimers e = s.pendingTimers e + if e' = e then 1 else 0 := by
  simp [pendingTimers, List.countP_append, List.countP_cons]

@[simp]
theorem Station.pendingTimers_deleteEventTimer :
    (s.deleteEventTimer e').pendingTimers e = if e' = e then 0 else s.pendingTimers e := by
  by_cases h : e' = e
  · subst h
    simp [pendingTimers, List.countP_eq_zero]
  · grind [pendingTimers, deleteEventTimer_timers, List.countP_filter, List.countP_congr]

@[simp]
theorem Station.pendingTimers_setPort (f : Port F → Port F) :
    (s.setPort f).pendingTimers e = s.pendingTimers e := rfl

@[simp]
theorem Station.pendingTimers_setClock (f : Clock → Clock) :
    (s.setClock f).pendingTimers e = s.pendingTimers e := rfl

@[simp]
theorem Station.pendingTimers_delete (a : Option Nat) :
    (s.delete a).pendingTimers e = s.pendingTimers e := rfl

end Counting

structure Station.Fired (timer : Timer) (s u : Station F) : Prop where
  clock : u.clock = s.clock
  port : u.port = s.port
  nextAddr : u.nextAddr = s.nextAddr
  freed : u.freed = s.freed
  pendingTimers : ∀ e, s.pendingTimers e = u.pendingTimers e + if timer.event = e then 1 else 0

variable {s t u : Station F}

theorem Station.fired_eraseIdx {n : Nat} {timer : Timer} (h : s.timers[n]? = some timer) :
    s.Fired timer { s with timers := s.timers.eraseIdx n } := by
  refine ⟨rfl, rfl, rfl, rfl, ?_⟩
  intro e
  obtain ⟨hn, rfl⟩ := List.getElem?_eq_some_iff.mp h
  have hperm := (List.getElem_cons_eraseIdx_perm hn).countP_eq fun t => decide (t.event = e)
  rw [List.countP_cons] at hperm
  simpa [pendingTimers] using hperm.symm

theorem Station.step_expire (ops : RatioOps F) (tx : Option Timestamp) {n : Nat} {timer : Timer}
    (h : s.timers[n]? = some timer) :
    ∃ u, s.Fired timer u ∧
      Station.step ops (some s) (.expire n tx) = u.processEvent ops tx timer.event := by
  refine ⟨{ s with timers := s.timers.eraseIdx n }, fired_eraseIdx h, ?_⟩
  simp only [step, h]

/-! ### Frames -/

structure Station.Fixed (s t : Station F) : Prop where
  clockIdentity : t.clock.clockIdentity = s.clock.clockIdentity
  priority1 : t.clock.priority1 = s.clock.priority1
  priority2 : t.clock.priority2 = s.clock.priority2
  automotiveProfile : t.port.automotiveProfile = s.port.automotiveProfile
  ifindex : t.port.ifindex = s.port.ifindex

structure Station.SameRole (s t : Station F) : Prop where
  clock : t.clock = s.clock
  automotiveProfile : t.port.automotiveProfile = s.port.automotiveProfile
  ifindex : t.port.ifindex = s.port.ifindex
  portState : t.port.portState = s.port.portState
  announceReceipts : t.pendingTimers .ANNOUNCE_RECEIPT_TIMEOUT_EXPIRES =
    s.pendingTimers .ANNOUNCE_RECEIPT_TIMEOUT_EXPIRES

structure Station.SameHoldings (s t : Station F) : Prop extends s.Fixed t where
  qualifiedAnnounce : t.port.qualifiedAnnounce = s.port.qualifiedAnnounce
  lastSync : t.port.lastSync = s.port.lastSync
  lastPDelayReq : t.port.lastPDelayReq = s.port.lastPDelayReq
  lastPDelayResp : t.port.lastPDelayResp = s.port.lastPDelayResp
  lastPDelayRespFollowUp : t.port.lastPDelayRespFollowUp = s.port.lastPDelayRespFollowUp
  nextAddr : t.nextAddr = s.nextAddr
  freed : t.freed = s.freed
  deferrals : t.pendingTimers .PDELAY_DEFERRED_PROCESSING =
    s.pendingTimers .PDELAY_DEFERRED_PROCESSING

structure Station.Calm (s t : Station F) : Prop where
  role : s.SameRole t
  holdings : s.SameHoldings t

theorem Station.Fixed.refl (s : Station F) : s.Fixed s := by
  constructor <;> rfl

theorem Station.Fixed.trans (h : s.Fixed t) (h' : t.Fixed u) : s.Fixed u where
  clockIdentity := h'.clockIdentity.trans h.clockIdentity
  priority1 := h'.priority1.trans h.priority1
  priority2 := h'.priority2.trans h.priority2
  automotiveProfile := h'.automotiveProfile.trans h.automotiveProfile
  ifindex := h'.ifindex.trans h.ifindex

theorem Station.SameRole.refl (s : Station F) : s.SameRole s := by
  constructor <;> rfl

theorem Station.SameRole.trans (h : s.SameRole t) (h' : t.SameRole u) :
    s.SameRole u where
  clock := h'.clock.trans h.clock
  automotiveProfile := h'.automotiveProfile.trans h.automotiveProfile
  ifindex := h'.ifindex.trans h.ifindex
  portState := h'.portState.trans h.portState
  announceReceipts := h'.announceReceipts.trans h.announceReceipts

theorem Station.SameRole.fixed (h : s.SameRole t) : s.Fixed t := by
  constructor <;> simp only [h.clock, h.automotiveProfile, h.ifindex]

theorem Station.SameHoldings.refl (s : Station F) : s.SameHoldings s where
  toFixed := .refl s
  qualifiedAnnounce := rfl
  lastSync := rfl
  lastPDelayReq := rfl
  lastPDelayResp := rfl
  lastPDelayRespFollowUp := rfl
  nextAddr := rfl
  freed := rfl
  deferrals := rfl

theorem Station.SameHoldings.trans (h : s.SameHoldings t) (h' : t.SameHoldings u) :
    s.SameHoldings u where
  toFixed := h.toFixed.trans h'.toFixed
  qualifiedAnnounce := h'.qualifiedAnnounce.trans h.qualifiedAnnounce
  lastSync := h'.lastSync.trans h.lastSync
  lastPDelayReq := h'.lastPDelayReq.trans h.lastPDelayReq
  lastPDelayResp := h'.lastPDelayResp.trans h.lastPDelayResp
  lastPDelayRespFollowUp := h'.lastPDelayRespFollowUp.trans h.lastPDelayRespFollowUp
  nextAddr := h'.nextAddr.trans h.nextAddr
  freed := h'.freed.trans h.freed
  deferrals := h'.deferrals.trans h.deferrals

theorem Station.Calm.refl (s : Station F) : s.Calm s :=
  ⟨.refl s, .refl s⟩

theorem Station.Calm.trans (h : s.Calm t) (h' : t.Calm u) : s.Calm u :=
  ⟨h.role.trans h'.role, h.holdings.trans h'.holdings⟩

/-! ### Primitive changes -/

section Primitive

variable (s : Station F) {e : Event}

theorem Station.sameHoldings_addEventTimer (he : e ≠ .PDELAY_DEFERRED_PROCESSING) :
    s.SameHoldings (s.addEventTimer e) :=
  ⟨⟨rfl, rfl, rfl, rfl, rfl⟩, rfl, rfl, rfl, rfl, rfl, rfl, rfl, by simp [he]⟩

theorem Station.sameHoldings_deleteEventTimer (he : e ≠ .PDELAY_DEFERRED_PROCESSING) :
    s.SameHoldings (s.deleteEventTimer e) :=
  ⟨⟨rfl, rfl, rfl, rfl, rfl⟩, rfl, rfl, rfl, rfl, rfl, rfl, rfl, by simp [he]⟩

theorem Station.sameRole_addEventTimer (he : e ≠ .ANNOUNCE_RECEIPT_TIMEOUT_EXPIRES) :
    s.SameRole (s.addEventTimer e) :=
  ⟨rfl, rfl, rfl, rfl, by simp [he]⟩

theorem Station.sameRole_deleteEventTimer (he : e ≠ .ANNOUNCE_RECEIPT_TIMEOUT_EXPIRES) :
    s.SameRole (s.deleteEventTimer e) :=
  ⟨rfl, rfl, rfl, rfl, by simp [he]⟩

theorem Station.sameRole_delete (a : Option Nat) : s.SameRole (s.delete a) :=
  ⟨rfl, rfl, rfl, rfl, rfl⟩

variable {f : Port F → Port F}

theorem Station.sameRole_setPort
    (hf : ∀ p, (f p).automotiveProfile = p.automotiveProfile ∧ (f p).ifindex = p.ifindex ∧
      (f p).portState = p.portState) : s.SameRole (s.setPort f) :=
  ⟨rfl, (hf s.port).1, (hf s.port).2.1, (hf s.port).2.2, rfl⟩

theorem Station.sameHoldings_setPort
    (hf : ∀ p, (f p).automotiveProfile = p.automotiveProfile ∧ (f p).ifindex = p.ifindex ∧
      (f p).qualifiedAnnounce = p.qualifiedAnnounce ∧ (f p).lastSync = p.lastSync ∧
      (f p).lastPDelayReq = p.lastPDelayReq ∧ (f p).lastPDelayResp = p.lastPDelayResp ∧
      (f p).lastPDelayRespFollowUp = p.lastPDelayRespFollowUp) : s.SameHoldings (s.setPort f) := by
  obtain ⟨h1, h2, h3, h4, h5, h6, h7⟩ := hf s.port
  exact ⟨⟨rfl, rfl, rfl, h1, h2⟩, h3, h4, h5, h6, h7, rfl, rfl, rfl⟩

def Event.minor (e : Event) : Bool :=
  e ≠ .ANNOUNCE_RECEIPT_TIMEOUT_EXPIRES && e ≠ .PDELAY_DEFERRED_PROCESSING

theorem Event.ne_of_minor (he : e.minor = true) :
    e ≠ .ANNOUNCE_RECEIPT_TIMEOUT_EXPIRES ∧ e ≠ .PDELAY_DEFERRED_PROCESSING := by
  simpa [Event.minor] using he

theorem Station.calm_addEventTimer (he : e.minor = true) : s.Calm (s.addEventTimer e) :=
  ⟨s.sameRole_addEventTimer (Event.ne_of_minor he).1,
    s.sameHoldings_addEventTimer (Event.ne_of_minor he).2⟩

theorem Station.calm_deleteEventTimer (he : e.minor = true) : s.Calm (s.deleteEventTimer e) :=
  ⟨s.sameRole_deleteEventTimer (Event.ne_of_minor he).1,
    s.sameHoldings_deleteEventTimer (Event.ne_of_minor he).2⟩

theorem Station.calm_restartTimer (he : e.minor = true) : s.Calm (s.restartTimer e) :=
  (s.calm_deleteEventTimer he).trans ((s.deleteEventTimer e).calm_addEventTimer he)

theorem Station.calm_setPort
    (hf : ∀ p, (f p).portState = p.portState ∧ (f p).automotiveProfile = p.automotiveProfile ∧
      (f p).ifindex = p.ifindex ∧ (f p).qualifiedAnnounce = p.qualifiedAnnounce ∧
      (f p).lastSync = p.lastSync ∧ (f p).lastPDelayReq = p.lastPDelayReq ∧
      (f p).lastPDelayResp = p.lastPDelayResp ∧
      (f p).lastPDelayRespFollowUp = p.lastPDelayRespFollowUp) : s.Calm (s.setPort f) :=
  ⟨s.sameRole_setPort fun p => ⟨(hf p).2.1, (hf p).2.2.1, (hf p).1⟩,
    s.sameHoldings_setPort fun p => (hf p).2⟩

end Primitive

/-! ### Calm functions -/

section Functions

variable (s : Station F)

theorem Station.calm_startPDelay : s.Calm s.startPDelay := by
  unfold startPDelay
  split
  · exact .refl s
  · split
    · exact .refl s
    · exact (s.calm_setPort fun p => by simp).trans (calm_restartTimer _ rfl)

theorem Station.calm_stopPDelay : s.Calm s.stopPDelay :=
  (s.calm_setPort fun p => by simp).trans (calm_deleteEventTimer _ rfl)

theorem Station.calm_verifyDuplicate (resp old : PathDelayResp) :
    s.Calm (s.verifyDuplicate resp old) := by
  unfold verifyDuplicate
  dsimp only
  split
  · refine Calm.trans ?_ (calm_setPort _ fun p => by simp)
    split
    · split
      · exact ((s.calm_setPort fun p => by simp).trans (calm_stopPDelay _)).trans
          (calm_addEventTimer _ rfl)
      · exact s.calm_setPort fun p => by simp
    · exact s.calm_setPort fun p => by simp
  · exact s.calm_setPort fun p => by simp

theorem Station.calm_syncDone : s.Calm s.syncDone := by
  have hstart : ∀ u : Station F, s.Calm u →
      s.Calm (if u.port.pdelayStarted then u else u.startPDelay) := by
    intro u hu
    split
    · exact hu
    · exact hu.trans u.calm_startPDelay
  unfold syncDone
  refine hstart _ ?_
  split
  · exact (s.calm_setPort fun p => by simp).trans (calm_addEventTimer _ rfl)
  · exact .refl s

theorem Station.calm_synchronize (servo : Servo) : s.Calm (s.synchronize servo) := by
  unfold synchronize
  dsimp only
  split
  · exact .refl s
  · split
    · exact .refl s
    · split
      · exact ((s.calm_setPort fun p => by simp).trans (calm_syncDone _)).trans
          (calm_restartTimer _ rfl)
      · exact .refl s

theorem Station.calm_setInterval (interval : Int) (initial : Port F → Int)
    (set : Int → Port F → Port F) {e : Event} (hset : ∀ i, s.Calm (s.setPort (set i)))
    (he : e.minor = true) : s.Calm (s.setInterval interval initial set e) := by
  unfold setInterval
  split
  · exact (hset (initial s.port)).trans (calm_restartTimer _ he)
  · split
    · exact .refl s
    · exact (hset interval).trans (calm_restartTimer _ he)

theorem Station.calm_processSignalling (m : Signalling) : s.Calm (s.processSignalling m).1 := by
  have hlink := s.calm_setInterval m.linkDelayInterval Port.initialLogPdelayReqInterval
    (fun i p => { p with pDelayInterval := i }) (fun i => calm_setPort _ fun p => by simp)
    (e := .PDELAY_INTERVAL_TIMEOUT_EXPIRES) rfl
  have hsync := (s.setInterval m.linkDelayInterval Port.initialLogPdelayReqInterval
      (fun i p => { p with pDelayInterval := i }) .PDELAY_INTERVAL_TIMEOUT_EXPIRES).calm_setInterval
    m.timeSyncInterval Port.initialLogSyncInterval
    (fun i p => { p with syncInterval := i }) (fun i => calm_setPort _ fun p => by simp)
    (e := .SYNC_INTERVAL_TIMEOUT_EXPIRES) rfl
  unfold processSignalling
  dsimp only
  split
  · exact hlink.trans hsync
  · exact (hlink.trans hsync).trans (calm_restartTimer _ rfl)

theorem Station.calm_loseCapability : s.Calm s.loseCapability := by
  unfold loseCapability
  split
  · exact .refl s
  · exact s.calm_setPort fun p => by simp [Port.setAsCapable]

theorem Station.calm_changeRate : s.Calm s.changeRate := by
  unfold changeRate
  dsimp only
  split
  · exact (s.calm_setPort fun p => by simp).trans (calm_restartTimer _ rfl)
  · exact s.calm_setPort fun p => by simp

end Functions

/-! ### What can happen to a follow-up -/

theorem Port.participates_iff (p : Port F) :
    p.participates = true ↔ ¬ (p.portState = .PTP_DISABLED ∨ p.portState = .PTP_FAULTY) := by
  simp [participates, not_or]

inductive Station.FollowUpCase (servo : Servo) (m : FollowUp) (s : Station F) :
    Station F × Bool → Prop where
  | ignored (unable : s.port.participates = false ∨ s.port.lastSync = none) :
    FollowUpCase servo m s (s.stopSyncReceiptTimer, false)
  | wrong {sync : Sync} (able : s.port.participates = true) (stored : s.port.lastSync = some sync)
      (differs : sync.sequenceId ≠ m.sequenceId ∨ sync.sourcePortIdentity ≠ m.sourcePortIdentity) :
    FollowUpCase servo m s (s.stopSyncReceiptTimer.wrongFollowUp.dropSync, false)
  | outdated {sync : Sync} (able : s.port.participates = true)
      (stored : s.port.lastSync = some sync) (sequence : sync.sequenceId = m.sequenceId)
      (source : sync.sourcePortIdentity = m.sourcePortIdentity)
      (version : sync.timestamp.version ≠ servo.timestampVersion) :
    FollowUpCase servo m s (s.stopSyncReceiptTimer.dropSync, false)
  | taken {sync : Sync} (able : s.port.participates = true) (stored : s.port.lastSync = some sync)
      (sequence : sync.sequenceId = m.sequenceId)
      (source : sync.sourcePortIdentity = m.sourcePortIdentity)
      (version : sync.timestamp.version = servo.timestampVersion) :
    FollowUpCase servo m s ((s.stopSyncReceiptTimer.synchronize servo).dropSync, true)

theorem Station.processFollowUp_case (s : Station F) (servo : Servo) (m : FollowUp) :
    s.FollowUpCase servo m (s.processFollowUp servo m) := by
  unfold processFollowUp
  dsimp only
  split
  · rename_i hstate
    refine .ignored (Or.inl ?_)
    rw [← Bool.not_eq_true, Port.participates_iff, not_not]
    exact hstate
  · rename_i hstate
    have hp := s.port.participates_iff.mpr hstate
    split
    · rename_i hnone
      exact .ignored (Or.inr hnone)
    · rename_i sync hsync
      split
      · rename_i hwrong
        exact .wrong hp hsync hwrong
      · rename_i hright
        simp only [ne_eq, not_or, not_not] at hright
        split
        · rename_i hversion
          exact .outdated hp hsync hright.1 hright.2 hversion
        · rename_i hversion
          exact .taken hp hsync hright.1 hright.2 (not_not.mp hversion)

inductive Station.RespFollowUpCase (ops : RatioOps F) (fup : PathDelayRespFollowUp)
    (s : Station F) : Station F × Bool → Prop where
  | ignored (unable : s.port.participates = false) : RespFollowUpCase ops fup s (s, false)
  | dropped {u : Station F} (able : s.port.participates = true) (calm : s.Calm u)
      (port : u.port = s.port) : RespFollowUpCase ops fup s (u.dropResp, true)
  | deferred {req : PathDelayReq} {resp : PathDelayResp} (able : s.port.participates = true)
      (request : s.port.lastPDelayReq = some req) (response : s.port.lastPDelayResp = some resp)
      (same : exchangeMatches req resp fup = true)
      (pending : req.timestamp.nanoseconds = pdelayPendingTimestamp.nanoseconds) :
    RespFollowUpCase ops fup s
      ((s.deleteEventTimer .PDELAY_RESP_RECEIPT_TIMEOUT_EXPIRES).defer fup, false)
  | measured {req : PathDelayReq} {resp : PathDelayResp} (able : s.port.participates = true)
      (request : s.port.lastPDelayReq = some req) (response : s.port.lastPDelayResp = some resp)
      (same : exchangeMatches req resp fup = true) :
    RespFollowUpCase ops fup s
      (((s.deleteEventTimer .PDELAY_RESP_RECEIPT_TIMEOUT_EXPIRES).setPort
        (Port.measure ops req resp fup)).dropResp, true)

theorem Station.processRespFollowUp_case (s : Station F) (ops : RatioOps F)
    (fup : PathDelayRespFollowUp) :
    s.RespFollowUpCase ops fup (s.processRespFollowUp ops fup) := by
  have htimer : s.Calm (s.deleteEventTimer .PDELAY_RESP_RECEIPT_TIMEOUT_EXPIRES) :=
    s.calm_deleteEventTimer rfl
  unfold processRespFollowUp
  split
  · rename_i hstate
    refine .ignored ?_
    rw [← Bool.not_eq_true, Port.participates_iff, not_not]
    exact hstate
  · rename_i hstate
    have hp := s.port.participates_iff.mpr hstate
    split
    · rename_i req resp hreq hresp
      split
      · rename_i hsame
        dsimp only
        split
        · exact .dropped hp htimer rfl
        · split
          · rename_i hpending
            exact .deferred hp hreq hresp hsame hpending
          · split
            · exact .dropped hp htimer rfl
            · exact .measured hp hreq hresp hsame
      · exact .dropped hp (.refl s) rfl
    · exact .dropped hp (.refl s) rfl

/-! ### Messages of the port -/

section Messages

variable (s : Station F)

theorem Station.sameRole_dropResp : s.SameRole s.dropResp :=
  (s.sameRole_delete _).trans (sameRole_setPort _ fun p => by simp)

theorem Station.sameRole_defer (fup : PathDelayRespFollowUp) : s.SameRole (s.defer fup) :=
  ((s.sameRole_delete _).trans (sameRole_setPort _ fun p => by simp)).trans
    (sameRole_addEventTimer _ (by decide))

theorem Station.calm_measure (ops : RatioOps F) (req : PathDelayReq) (resp : PathDelayResp)
    (fup : PathDelayRespFollowUp) : s.Calm (s.setPort (Port.measure ops req resp fup)) := by
  grind [calm_setPort, Port.measure, Port.setAsCapable]

theorem Station.sameRole_processRespFollowUp (ops : RatioOps F) (fup : PathDelayRespFollowUp) :
    s.SameRole (s.processRespFollowUp ops fup).1 := by
  have htimer : s.SameRole (s.deleteEventTimer .PDELAY_RESP_RECEIPT_TIMEOUT_EXPIRES) :=
    (s.calm_deleteEventTimer rfl).role
  have hcase := s.processRespFollowUp_case ops fup
  generalize s.processRespFollowUp ops fup = x at hcase ⊢
  cases hcase with
  | ignored => exact .refl s
  | dropped able calm => exact calm.role.trans (sameRole_dropResp _)
  | deferred => exact htimer.trans (sameRole_defer _ fup)
  | measured =>
    exact (htimer.trans (calm_measure _ _ _ _ _).role).trans (sameRole_dropResp _)

theorem Station.sameRole_processDeferred {ops : RatioOps F} {t : Station F}
    (h : s.processDeferred ops = some t) : s.SameRole t := by
  unfold processDeferred at h
  split at h
  · cases h
  · rename_i fup _
    have hfup := s.sameRole_processRespFollowUp ops fup
    dsimp only at h
    split at h
    · rw [← Option.some.inj h]
      exact (hfup.trans (sameRole_delete _ _)).trans (sameRole_setPort _ fun p => by simp)
    · rw [← Option.some.inj h]
      exact hfup

theorem Station.sameRole_processResp (resp : PathDelayResp) :
    s.SameRole (s.processResp resp).1 := by
  have hstore : ∀ u : Station F, s.SameRole u → s.SameRole
      ((u.setPort fun p => { p with lastPDelayResp := some resp }).delete
        (s.port.lastPDelayResp.map PathDelayResp.addr)) := by
    intro u hu
    exact (hu.trans (sameRole_setPort _ fun p => by simp)).trans (sameRole_delete _ _)
  unfold processResp
  split
  · exact .refl s
  · refine hstore _ ?_
    split
    · exact .refl s
    · exact (s.calm_verifyDuplicate _ _).role

theorem Station.sameRole_requestDelay (tx : Option Timestamp) : s.SameRole (s.requestDelay tx) :=
  ((s.sameRole_setPort fun p => by simp).trans (calm_addEventTimer _ rfl).role).trans
    (calm_restartTimer _ rfl).role

theorem Station.sameRole_processSync (sync : Sync) : s.SameRole (s.processSync sync).1 := by
  unfold processSync
  split
  · exact .refl s
  · dsimp only
    exact (s.sameRole_delete _).trans (sameRole_setPort _ fun p => by simp)

theorem Station.sameRole_dropSync : s.SameRole s.dropSync :=
  (s.sameRole_delete _).trans (sameRole_setPort _ fun p => by simp)

end Messages

/-! ### Roles of the port -/

section Roles

variable (s : Station F)

theorem Station.sameHoldings_becomeMaster (annc : Bool) : s.SameHoldings (s.becomeMaster annc) := by
  obtain ⟨hclock, hport, hnext, hfreed, -⟩ := s.becomeMaster_sameBut annc
  have hdeferrals : (s.becomeMaster annc).pendingTimers .PDELAY_DEFERRED_PROCESSING =
      s.pendingTimers .PDELAY_DEFERRED_PROCESSING := by
    unfold becomeMaster
    dsimp only
    split <;> simp
  refine ⟨⟨?_, ?_, ?_, ?_, ?_⟩, ?_, ?_, ?_, ?_, ?_, hnext, hfreed, hdeferrals⟩ <;>
    simp [hclock, hport]

theorem Station.sameHoldings_becomeSlave : s.SameHoldings s.becomeSlave := by
  obtain ⟨hclock, hport, hnext, hfreed, -⟩ := s.becomeSlave_sameBut
  have hdeferrals : s.becomeSlave.pendingTimers .PDELAY_DEFERRED_PROCESSING =
      s.pendingTimers .PDELAY_DEFERRED_PROCESSING := by
    unfold becomeSlave
    dsimp only
    split <;> simp
  refine ⟨⟨?_, ?_, ?_, ?_, ?_⟩, ?_, ?_, ?_, ?_, ?_, hnext, hfreed, hdeferrals⟩ <;>
    simp [hclock, hport]

theorem Station.calm_recommended (r : List (UInt16 × PortState)) :
    s.Calm { s with recommended := r } :=
  ⟨⟨rfl, rfl, rfl, rfl, rfl⟩, ⟨⟨rfl, rfl, rfl, rfl, rfl⟩, rfl, rfl, rfl, rfl, rfl, rfl, rfl, rfl⟩⟩

theorem Station.sameHoldings_recommendState (state : PortState) (changed : Bool) :
    s.SameHoldings (s.recommendState state changed) := by
  have hnote := (s.calm_recommended (s.recommended ++ [(s.port.ifindex, state)])).holdings
  unfold recommendState
  dsimp only
  split
  · split
    · exact hnote
    · exact (hnote.trans (sameHoldings_becomeMaster _ true)).trans
        (sameHoldings_setPort _ fun p => by simp)
  · split
    · split
      · exact hnote.trans (sameHoldings_setPort _ fun p => by simp)
      · exact hnote
    · exact (hnote.trans (sameHoldings_becomeSlave _)).trans
        (sameHoldings_setPort _ fun p => by simp)
  · exact hnote

theorem Station.sameHoldings_setClock {f : Clock → Clock}
    (hf : ∀ c, (f c).clockIdentity = c.clockIdentity ∧ (f c).priority1 = c.priority1 ∧
      (f c).priority2 = c.priority2) : s.SameHoldings (s.setClock f) := by
  obtain ⟨h1, h2, h3⟩ := hf s.clock
  exact ⟨⟨h1, h2, h3, rfl, rfl⟩, rfl, rfl, rfl, rfl, rfl, rfl, rfl, rfl⟩

theorem Clock.noteEBest_fixed (e : Announce) (c : Clock) :
    (c.noteEBest e).clockIdentity = c.clockIdentity ∧ (c.noteEBest e).priority1 = c.priority1 ∧
      (c.noteEBest e).priority2 = c.priority2 := by
  unfold noteEBest
  dsimp only
  split <;> exact ⟨rfl, rfl, rfl⟩

theorem Station.processStateChange_cases (h255 : s.clock.priority1 ≠ 255) :
    s.processStateChange = s ∨
      (∃ e, s.clock.isBetterThan (some e) = true ∧ ∃ changed, s.processStateChange =
        (s.setClock (Clock.noteEBest e)).recommendState .PTP_MASTER changed) ∨
      ∃ e changed, s.processStateChange =
        ((s.setClock (Clock.noteEBest e)).recommendState .PTP_SLAVE changed).setClock
          (Clock.follow e) := by
  by_cases hbest : s.port.participates = true ∧ s.port.qualifiedAnnounce ≠ none
  · obtain ⟨e, he⟩ := Option.ne_none_iff_exists'.mp hbest.2
    have heq := s.processStateChange_eq h255 hbest.1 he
    grind
  · left
    have hnone : findEBest s.system.ports s.system.numberPorts 0 none = none := by
      rw [s.findEBest_system]
      grind
    unfold processStateChange System.processStateChange
    rw [if_neg (show s.system.clock.priority1 ≠ 255 from h255), hnone]
    rfl

theorem Station.sameHoldings_processStateChange : s.SameHoldings s.processStateChange := by
  by_cases h255 : s.clock.priority1 = 255
  · have hsame : s.processStateChange = s := by
      unfold processStateChange System.processStateChange
      rw [if_pos (show s.system.clock.priority1 = 255 from h255)]
      rfl
    rw [hsame]
    exact .refl s
  · have hnote : ∀ e, s.SameHoldings (s.setClock (Clock.noteEBest e)) := fun e =>
      s.sameHoldings_setClock (Clock.noteEBest_fixed e)
    obtain heq | ⟨e, -, changed, heq⟩ | ⟨e, changed, heq⟩ := s.processStateChange_cases h255
    · rw [heq]
      exact .refl s
    · rw [heq]
      exact (hnote e).trans (sameHoldings_recommendState _ _ _)
    · rw [heq]
      exact ((hnote e).trans (sameHoldings_recommendState _ _ _)).trans
        (sameHoldings_setClock _ fun c => ⟨rfl, rfl, rfl⟩)

theorem Station.sameHoldings_wrongFollowUp : s.SameHoldings s.wrongFollowUp := by
  have hcount := s.sameHoldings_setPort (f := Port.incWrongSeqIDCounter) fun p => by
    simp [Port.incWrongSeqIDCounter]
  unfold wrongFollowUp
  dsimp only
  split
  · exact hcount
  · exact (hcount.trans (sameHoldings_becomeMaster _ true)).trans
      (sameHoldings_setPort _ fun p => by simp)

theorem Station.sameHoldings_takeRole : s.SameHoldings s.takeRole := by
  grind [takeRole, sameHoldings_becomeSlave, sameHoldings_becomeMaster, sameHoldings_addEventTimer]

theorem Station.calm_powerUp : s.takeRole.Calm s.powerUp := by
  have hstart : ∀ u : Station F, s.takeRole.Calm u → s.takeRole.Calm
      (if u.port.automotiveProfile ∧ u.port.isGM = false then
        u.restartTimer .SYNC_RECEIPT_TIMEOUT_EXPIRES else u) := by
    intro u hu
    split
    · exact hu.trans (calm_restartTimer _ rfl)
    · exact hu
  unfold powerUp
  refine hstart _ ?_
  split
  · exact calm_startPDelay _
  · exact .refl _

theorem Station.calm_linkUp : ∃ u, s.Calm u ∧ u.takeRole.Calm s.linkUp := by
  refine ⟨(s.setPort fun p => { p with pdelayHalted := false }).startPDelay,
    (s.calm_setPort fun p => by simp).trans (calm_startPDelay _), ?_⟩
  unfold linkUp
  dsimp only
  split
  · have hset : ∀ u : Station F, u.Calm (u.setPort fun p =>
        { p.setAsCapable true with
          syncInterval := p.initialLogSyncInterval
          pDelayInterval := p.initialLogPdelayReqInterval
          pdelayCount := 0
          syncCount := 0 }) := fun u => u.calm_setPort fun p => by simp [Port.setAsCapable]
    split
    · exact hset _
    · exact (hset _).trans (calm_restartTimer _ rfl)
  · exact .refl _

end Roles

/-! ### What an event can do -/

inductive Station.EventCase (ops : RatioOps F) (e : Event) (s t : Station F) : Prop where
  | calm (same : s.Calm t)
  | takesRole {u : Station F} (before : s.Calm u) (after : u.takeRole.Calm t)
  | decides (result : t = s.processStateChange)
  | requests (tx : Option Timestamp) (result : t = s.requestDelay tx)
  | timesOut (receipt : e = .SYNC_RECEIPT_TIMEOUT_EXPIRES ∨ e = .ANNOUNCE_RECEIPT_TIMEOUT_EXPIRES)
      (result : t = s.processSyncAnnounceTimeout e)
  | resumes (deferred : e = .PDELAY_DEFERRED_PROCESSING) (result : s.processDeferred ops = some t)

theorem Station.processEvent_case {ops : RatioOps F} {tx : Option Timestamp} {e : Event}
    (h : s.processEvent ops tx e = some t) : s.EventCase ops e t := by
  cases e with
  | POWERUP | INITIALIZE =>
    cases h
    exact .takesRole (.refl s) s.calm_powerUp
  | LINKUP =>
    cases h
    obtain ⟨u, hu, hcalm⟩ := s.calm_linkUp
    exact .takesRole hu hcalm
  | LINKDOWN =>
    cases h
    exact .calm (s.calm_stopPDelay.trans (calm_loseCapability _))
  | STATE_CHANGE_EVENT =>
    cases h
    split
    · exact .calm (.refl s)
    · exact .decides rfl
  | SYNC_INTERVAL_TIMEOUT_EXPIRES =>
    cases h
    exact .calm (s.calm_syncDone.trans (calm_restartTimer _ rfl))
  | PDELAY_INTERVAL_TIMEOUT_EXPIRES =>
    cases h
    exact .requests tx rfl
  | SYNC_RECEIPT_TIMEOUT_EXPIRES =>
    cases h
    split
    · exact .calm (s.calm_restartTimer rfl)
    · exact .timesOut (Or.inl rfl) rfl
  | ANNOUNCE_RECEIPT_TIMEOUT_EXPIRES =>
    cases h
    split
    · exact .calm (.refl s)
    · exact .timesOut (Or.inr rfl) rfl
  | ANNOUNCE_INTERVAL_TIMEOUT_EXPIRES =>
    cases h
    exact .calm (s.calm_restartTimer rfl)
  | FAULT_DETECTED =>
    cases h
    exact .calm s.calm_loseCapability
  | PDELAY_DEFERRED_PROCESSING => exact .resumes rfl h
  | PDELAY_RESP_RECEIPT_TIMEOUT_EXPIRES =>
    cases h
    exact .calm (s.calm_loseCapability.trans (calm_setPort _ fun p => by simp))
  | PDELAY_RESP_PEER_MISBEHAVING_TIMEOUT_EXPIRES =>
    cases h
    have hset := s.calm_setPort (f := fun p => { p with pdelayHalted := false }) fun p => by simp
    split
    · exact .calm (hset.trans (calm_startPDelay _))
    · exact .calm hset
  | SYNC_RATE_INTERVAL_TIMEOUT_EXPIRED =>
    cases h
    exact .calm s.calm_changeRate

end Avb4Linux.Gptp
