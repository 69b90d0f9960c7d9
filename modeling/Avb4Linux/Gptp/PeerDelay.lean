import Avb4Linux.Gptp.Ownership

/-!
# Peer delay exchanges

What a step can do to the three messages of an exchange that the port keeps, and what
follows over runs: whose messages a measurement is made of, and whether the handler of a
deferred follow-up finds it.
-/

namespace Avb4Linux.Gptp

open Lib

variable {F : Type}

abbrev Station.deferrals (s : Station F) : Nat :=
  s.pendingTimers .PDELAY_DEFERRED_PROCESSING

def Station.portIdentity (s : Station F) : PortIdentity :=
  ⟨s.clock.clockIdentity, s.port.ifindex⟩

structure Station.SameExchange (s t : Station F) : Prop extends s.Fixed t where
  lastPDelayReq : t.port.lastPDelayReq = s.port.lastPDelayReq
  lastPDelayResp : t.port.lastPDelayResp = s.port.lastPDelayResp
  lastPDelayRespFollowUp : t.port.lastPDelayRespFollowUp = s.port.lastPDelayRespFollowUp
  deferrals : t.deferrals = s.deferrals

variable {s t u : Station F} {i : Input} {fup : PathDelayRespFollowUp}

theorem Station.SameHoldings.exchange (h : s.SameHoldings t) : s.SameExchange t :=
  ⟨h.toFixed, h.lastPDelayReq, h.lastPDelayResp, h.lastPDelayRespFollowUp, h.deferrals⟩

theorem Station.SameExchange.trans (h : s.SameExchange t) (h' : t.SameExchange u) :
    s.SameExchange u where
  toFixed := h.toFixed.trans h'.toFixed
  lastPDelayReq := h'.lastPDelayReq.trans h.lastPDelayReq
  lastPDelayResp := h'.lastPDelayResp.trans h.lastPDelayResp
  lastPDelayRespFollowUp := h'.lastPDelayRespFollowUp.trans h.lastPDelayRespFollowUp
  deferrals := h'.deferrals.trans h.deferrals

def Station.defers (fup : PathDelayRespFollowUp) (s : Station F) : Bool :=
  s.port.participates &&
    match s.port.lastPDelayReq, s.port.lastPDelayResp with
    | some req, some resp =>
      exchangeMatches req resp fup &&
        req.timestamp.nanoseconds = pdelayPendingTimestamp.nanoseconds
    | _, _ => false

inductive Station.ExchangeStep (i : Input) (s t : Station F) : Prop where
  | kept (same : s.SameExchange t)
  | requests (fixed : s.Fixed t) (request : ∃ sequenceId timestamp,
        t.port.lastPDelayReq = some ⟨s.portIdentity, sequenceId, timestamp⟩)
      (response : t.port.lastPDelayResp = s.port.lastPDelayResp)
      (followUp : t.port.lastPDelayRespFollowUp = s.port.lastPDelayRespFollowUp)
      (deferrals : t.deferrals = s.deferrals)
  | answers {m : PathDelayResp} {servo : Servo} {addr : Nat}
      (input : i = .receive (.pathDelayResp m) servo) (fixed : s.Fixed t)
      (request : t.port.lastPDelayReq = s.port.lastPDelayReq)
      (response : t.port.lastPDelayResp = some { m with addr := addr })
      (followUp : t.port.lastPDelayRespFollowUp = s.port.lastPDelayRespFollowUp)
      (deferrals : t.deferrals = s.deferrals)
  | completes (fixed : s.Fixed t) (request : t.port.lastPDelayReq = s.port.lastPDelayReq)
      (response : t.port.lastPDelayResp = none)
      (followUp : t.port.lastPDelayRespFollowUp = s.port.lastPDelayRespFollowUp)
      (deferrals : t.deferrals = s.deferrals)
  | waits {m : PathDelayRespFollowUp} {servo : Servo} {addr : Nat}
      (input : i = .receive (.pathDelayRespFollowUp m) servo) (early : s.defers m = true)
      (fixed : s.Fixed t) (request : t.port.lastPDelayReq = s.port.lastPDelayReq)
      (response : t.port.lastPDelayResp = s.port.lastPDelayResp)
      (followUp : t.port.lastPDelayRespFollowUp = some { m with addr := addr })
      (deferrals : t.deferrals = s.deferrals + 1)
  | resumes (fixed : s.Fixed t) (request : t.port.lastPDelayReq = s.port.lastPDelayReq)
      (response : t.port.lastPDelayResp = s.port.lastPDelayResp ∨ t.port.lastPDelayResp = none)
      (followUp : t.port.lastPDelayRespFollowUp = s.port.lastPDelayRespFollowUp ∨
        t.port.lastPDelayRespFollowUp = none)
      (deferrals : t.deferrals + 1 = s.deferrals)

theorem Station.ExchangeStep.trans_same (h : s.ExchangeStep i t) (h' : t.SameExchange u) :
    s.ExchangeStep i u := by
  obtain ⟨hfixed, hreq, hresp, hfup, hdeferrals⟩ := h'
  cases h with
  | kept same => exact .kept (same.trans ⟨hfixed, hreq, hresp, hfup, hdeferrals⟩)
  | requests fixed request response followUp deferrals =>
    rw [← hreq] at request
    exact .requests (fixed.trans hfixed) request (hresp.trans response) (hfup.trans followUp)
      (hdeferrals.trans deferrals)
  | answers input fixed request response followUp deferrals =>
    exact .answers input (fixed.trans hfixed) (hreq.trans request) (hresp.trans response)
      (hfup.trans followUp) (hdeferrals.trans deferrals)
  | completes fixed request response followUp deferrals =>
    exact .completes (fixed.trans hfixed) (hreq.trans request) (hresp.trans response)
      (hfup.trans followUp) (hdeferrals.trans deferrals)
  | waits input early fixed request response followUp deferrals =>
    exact .waits input early (fixed.trans hfixed) (hreq.trans request) (hresp.trans response)
      (hfup.trans followUp) (hdeferrals.trans deferrals)
  | resumes fixed request response followUp deferrals =>
    rw [← hresp] at response
    rw [← hfup] at followUp
    rw [← hdeferrals] at deferrals
    exact .resumes (fixed.trans hfixed) (hreq.trans request) response followUp deferrals

theorem Station.ExchangeStep.of_eq {r : Station F} (hclock : s.clock = r.clock)
    (hport : s.port = r.port) (hdeferrals : s.deferrals = r.deferrals) (h : s.ExchangeStep i t) :
    r.ExchangeStep i t := by
  have hrs : r.Fixed s := by
    constructor <;> simp only [hclock, hport]
  have hid : s.portIdentity = r.portIdentity := by
    simp only [portIdentity, hclock, hport]
  cases h with
  | kept same =>
    refine .kept ⟨hrs.trans same.toFixed, ?_, ?_, ?_, same.deferrals.trans hdeferrals⟩
    · rw [← hport, same.lastPDelayReq]
    · rw [← hport, same.lastPDelayResp]
    · rw [← hport, same.lastPDelayRespFollowUp]
  | requests fixed request response followUp deferrals =>
    rw [hport] at response followUp
    rw [hid] at request
    exact .requests (hrs.trans fixed) request response followUp (deferrals.trans hdeferrals)
  | answers input fixed request response followUp deferrals =>
    rw [hport] at request followUp
    exact .answers input (hrs.trans fixed) request response followUp (deferrals.trans hdeferrals)
  | completes fixed request response followUp deferrals =>
    rw [hport] at request followUp
    exact .completes (hrs.trans fixed) request response followUp (deferrals.trans hdeferrals)
  | waits input early fixed request response followUp deferrals =>
    rw [hport] at request response
    rw [hdeferrals] at deferrals
    rw [defers, hport] at early
    exact .waits input early (hrs.trans fixed) request response followUp deferrals
  | resumes fixed request response followUp deferrals =>
    rw [hport] at request response followUp
    rw [hdeferrals] at deferrals
    exact .resumes (hrs.trans fixed) request response followUp deferrals

section Functions

variable (s : Station F)

theorem Station.exchange_processSyncAnnounceTimeout (e : Event) :
    s.SameExchange (s.processSyncAnnounceTimeout e) := by
  have hawait : s.SameExchange (s.awaitAgain e) := by
    unfold awaitAgain
    split
    · exact (s.sameHoldings_addEventTimer (by decide)).exchange
    · exact (s.calm_restartTimer rfl).holdings.exchange
  unfold processSyncAnnounceTimeout
  split
  · exact (SameHoldings.refl s).exchange
  · split
    · exact hawait
    · exact hawait.trans ⟨⟨rfl, rfl, rfl, rfl, rfl⟩, rfl, rfl, rfl, by
        simp [deferrals, takeOver, setQualifiedAnnounce]⟩

theorem Station.exchange_processAnnounce (m : Announce) :
    s.SameExchange (s.processAnnounce m).1 := by
  unfold processAnnounce
  dsimp only
  split
  · exact ⟨⟨rfl, rfl, rfl, rfl, rfl⟩, rfl, rfl, rfl, by simp [deferrals]⟩
  · exact ⟨⟨rfl, rfl, rfl, rfl, rfl⟩, rfl, rfl, rfl, by simp [deferrals, setQualifiedAnnounce]⟩

theorem Station.exchange_processSync (m : Sync) : s.SameExchange (s.processSync m).1 := by
  unfold processSync
  split
  · exact (SameHoldings.refl s).exchange
  · exact ⟨⟨rfl, rfl, rfl, rfl, rfl⟩, rfl, rfl, rfl, rfl⟩

theorem Station.exchange_dropSync : s.SameExchange s.dropSync :=
  ⟨⟨rfl, rfl, rfl, rfl, rfl⟩, rfl, rfl, rfl, rfl⟩

theorem Station.exchange_processFollowUp (servo : Servo) (m : FollowUp) :
    s.SameExchange (s.processFollowUp servo m).1 := by
  have hstop : s.SameExchange s.stopSyncReceiptTimer :=
    (s.calm_deleteEventTimer rfl).holdings.exchange
  have hcase := s.processFollowUp_case servo m
  generalize s.processFollowUp servo m = x at hcase ⊢
  cases hcase with
  | ignored => exact hstop
  | wrong =>
    exact (hstop.trans (sameHoldings_wrongFollowUp _).exchange).trans (exchange_dropSync _)
  | outdated => exact hstop.trans (exchange_dropSync _)
  | taken =>
    exact (hstop.trans (calm_synchronize _ servo).holdings.exchange).trans (exchange_dropSync _)

theorem Station.processResp_answers {m : PathDelayResp} {servo : Servo} {addr : Nat} :
    s.ExchangeStep (.receive (.pathDelayResp m) servo)
      (s.processResp { m with addr := addr }).1 := by
  have hstore : ∀ u : Station F, s.SameExchange u →
      s.ExchangeStep (.receive (.pathDelayResp m) servo)
        ((u.setPort fun p => { p with lastPDelayResp := some { m with addr := addr } }).delete
          (s.port.lastPDelayResp.map PathDelayResp.addr)) := by
    intro u hu
    exact .answers rfl (hu.toFixed.trans ⟨rfl, rfl, rfl, rfl, rfl⟩) hu.lastPDelayReq rfl
      hu.lastPDelayRespFollowUp hu.deferrals
  unfold processResp
  split
  · exact .kept (SameHoldings.refl s).exchange
  · refine hstore _ ?_
    split
    · exact (SameHoldings.refl s).exchange
    · exact (s.calm_verifyDuplicate _ _).holdings.exchange

theorem Station.requestDelay_requests (i : Input) (tx : Option Timestamp) :
    s.ExchangeStep i (s.requestDelay tx) :=
  .requests (s.sameRole_requestDelay tx).fixed ⟨_, _, rfl⟩ rfl rfl (by
    simp [deferrals, requestDelay])

theorem Station.SameExchange.completes {s u : Station F} {i : Input} (h : s.SameExchange u) :
    s.ExchangeStep i u.dropResp :=
  .completes (h.toFixed.trans ⟨rfl, rfl, rfl, rfl, rfl⟩) h.lastPDelayReq rfl
    h.lastPDelayRespFollowUp h.deferrals

theorem Station.processRespFollowUp_exchange (ops : RatioOps F) {m : PathDelayRespFollowUp}
    {servo : Servo} {addr : Nat} :
    s.ExchangeStep (.receive (.pathDelayRespFollowUp m) servo)
      (s.processRespFollowUp ops { m with addr := addr }).1 := by
  have htimer : s.SameExchange (s.deleteEventTimer .PDELAY_RESP_RECEIPT_TIMEOUT_EXPIRES) :=
    (s.calm_deleteEventTimer rfl).holdings.exchange
  have hcase := s.processRespFollowUp_case ops { m with addr := addr }
  generalize s.processRespFollowUp ops { m with addr := addr } = x at hcase ⊢
  cases hcase with
  | ignored => exact .kept (SameHoldings.refl s).exchange
  | dropped able calm => exact calm.holdings.exchange.completes
  | deferred able request response same pending =>
    have hearly : s.defers m = true := by
      simp only [defers, able, request, response, Bool.true_and, Bool.and_eq_true,
        decide_eq_true_eq]
      exact ⟨same, pending⟩
    exact .waits rfl hearly (htimer.toFixed.trans (sameRole_defer _ _).fixed) rfl rfl rfl (by
      simp [deferrals, defer])
  | measured => exact (htimer.trans (calm_measure _ _ _ _ _).holdings.exchange).completes

theorem Station.Fired.deferrals_resumed {timer : Timer} {s u : Station F} (h : s.Fired timer u)
    (hevent : timer.event = .PDELAY_DEFERRED_PROCESSING) : s.deferrals = u.deferrals + 1 := by
  grind [pendingTimers, pendingTimers]

theorem Station.processDeferred_exchange {ops : RatioOps F} {timer : Timer} {r t : Station F}
    {i : Input} (hs : r.Fired timer s) (hevent : timer.event = .PDELAY_DEFERRED_PROCESSING)
    (h : s.processDeferred ops = some t) : r.ExchangeStep i t := by
  have hcount := hs.deferrals_resumed hevent
  have hdone : ∀ {u : Station F} {fup : PathDelayRespFollowUp}, s.SameExchange u →
      r.ExchangeStep i ((u.dropResp.delete (some fup.addr)).setPort fun p =>
        { p with lastPDelayRespFollowUp := none }) := by
    intro u fup hu
    have hdeferrals := hu.deferrals
    refine .resumes ((hs.fixed.trans hu.toFixed).trans ⟨rfl, rfl, rfl, rfl, rfl⟩) ?_ (Or.inr rfl)
      (Or.inr rfl) ?_
    · rw [← hs.port]
      exact hu.lastPDelayReq
    · rw [hcount, ← hdeferrals]
      rfl
  unfold processDeferred at h
  split at h
  · cases h
  · rename_i fup hfup
    have htimer : s.SameExchange (s.deleteEventTimer .PDELAY_RESP_RECEIPT_TIMEOUT_EXPIRES) :=
      (s.calm_deleteEventTimer rfl).holdings.exchange
    have hcase := s.processRespFollowUp_case ops fup
    dsimp only at h
    generalize s.processRespFollowUp ops fup = x at hcase h
    cases hcase with
    | ignored =>
      cases h
      refine .resumes hs.fixed ?_ (Or.inl ?_) (Or.inl ?_) hcount.symm <;> rw [hs.port]
    | dropped able calm =>
      cases h
      exact hdone calm.holdings.exchange
    | deferred =>
      cases h
      refine .kept ⟨(hs.fixed.trans htimer.toFixed).trans (sameRole_defer _ _).fixed, ?_, ?_, ?_, ?_⟩
      · rw [← hs.port]
        rfl
      · rw [← hs.port]
        rfl
      · rw [← hs.port, hfup]
        rfl
      · rw [hcount]
        simp [deferrals, defer]
    | measured =>
      cases h
      exact hdone (htimer.trans (calm_measure _ _ _ _ _).holdings.exchange)

theorem Station.processEvent_exchange {ops : RatioOps F} {tx : Option Timestamp} {e : Event}
    {t : Station F} (i : Input) (he : e ≠ .PDELAY_DEFERRED_PROCESSING)
    (h : s.processEvent ops tx e = some t) : s.ExchangeStep i t := by
  cases processEvent_case h with
  | calm same => exact .kept same.holdings.exchange
  | @takesRole u before after =>
    exact .kept ((before.holdings.trans u.sameHoldings_takeRole).trans after.holdings).exchange
  | decides result =>
    subst result
    exact .kept s.sameHoldings_processStateChange.exchange
  | requests tx result =>
    subst result
    exact s.requestDelay_requests i tx
  | timesOut receipt result =>
    subst result
    exact .kept (s.exchange_processSyncAnnounceTimeout e)
  | resumes deferred result => exact absurd deferred he

theorem Station.processMessage_exchange (ops : RatioOps F) (servo : Servo) (m : Message)
    (addr : Nat) :
    s.ExchangeStep (.receive m servo) (s.processMessage ops servo (m.place addr)).1 := by
  cases m with
  | sync m => exact .kept (s.exchange_processSync _)
  | followUp m => exact .kept (s.exchange_processFollowUp servo _)
  | pathDelayReq => exact .kept (SameHoldings.refl s).exchange
  | pathDelayResp m => exact s.processResp_answers
  | pathDelayRespFollowUp m => exact s.processRespFollowUp_exchange ops
  | announce m => exact .kept (s.exchange_processAnnounce _)
  | signalling m => exact .kept (s.calm_processSignalling _).holdings.exchange

theorem Station.receive_exchange (ops : RatioOps F) (servo : Servo) (m : Message) :
    s.ExchangeStep (.receive m servo) (s.receive ops servo m) := by
  have hmessage := processMessage_exchange { s with nextAddr := s.nextAddr + 1 } ops servo m
    s.nextAddr
  unfold receive
  dsimp only
  generalize ({ s with nextAddr := s.nextAddr + 1 }.processMessage ops servo
    (m.place s.nextAddr)) = x at hmessage ⊢
  have hstep : s.ExchangeStep (.receive m servo) x.1 := by
    refine ExchangeStep.of_eq ?_ ?_ ?_ hmessage <;> rfl
  split
  · exact hstep.trans_same ⟨⟨rfl, rfl, rfl, rfl, rfl⟩, rfl, rfl, rfl, rfl⟩
  · exact hstep

end Functions

theorem Station.step_exchange {ops : RatioOps F} (h : Station.step ops (some s) i = some t) :
    s.ExchangeStep i t := by
  cases i with
  | event e tx =>
    simp only [step] at h
    split at h
    · rename_i hext
      refine s.processEvent_exchange _ ?_ h
      rintro rfl
      cases hext
    · cases h
      exact .kept (SameHoldings.refl s).exchange
  | expire n tx =>
    cases htimer : s.timers[n]? with
    | none =>
      simp only [step, htimer] at h
      cases h
      exact .kept (SameHoldings.refl s).exchange
    | some timer =>
      obtain ⟨u, hu, hstep⟩ := step_expire ops tx htimer
      have hevent := hstep.symm.trans h
      by_cases he : timer.event = .PDELAY_DEFERRED_PROCESSING
      · rw [he] at hevent
        exact u.processDeferred_exchange hu he hevent
      · have hcount := hu.pendingTimers .PDELAY_DEFERRED_PROCESSING
        rw [if_neg he] at hcount
        exact (u.processEvent_exchange _ he hevent).of_eq hu.clock hu.port hcount.symm
  | receive m servo =>
    cases h
    exact s.receive_exchange ops servo m

structure Measurement (F : Type) where
  oneWayDelay : Int
  asCapable : Bool
  peerRateOffset : F
  peerOffset : Option (Timestamp × Timestamp)

def Port.measurement (p : Port F) : Measurement F :=
  ⟨p.oneWayDelay, p.asCapable, p.peerRateOffset, p.peerOffset⟩

def Station.followUpOf (s : Station F) : Input → Option PathDelayRespFollowUp
  | .receive (.pathDelayRespFollowUp m) _ => some m
  | .expire n _ =>
    if (s.timers[n]?).map Timer.event = some .PDELAY_DEFERRED_PROCESSING then
      s.port.lastPDelayRespFollowUp
    else none
  | _ => none

structure OneExchange (req : PathDelayReq) (resp : PathDelayResp) (fup : PathDelayRespFollowUp) :
    Prop where
  responseSequence : resp.sequenceId = req.sequenceId
  followUpSequence : fup.sequenceId = req.sequenceId
  responseRequester : resp.requestingPortIdentity = req.sourcePortIdentity
  followUpRequester : fup.requestingPortIdentity = req.sourcePortIdentity
  source : fup.sourcePortIdentity = resp.sourcePortIdentity

/-- If a follow-up changes the measurement, the port holds a request and a response of the
same exchange. -/
def Station.MeasuresRight (ops : RatioOps F) (i : Input) (s : Station F) : Prop :=
  ∀ t fup, Station.step ops (some s) i = some t → s.followUpOf i = some fup →
    t.port.measurement ≠ s.port.measurement →
      ∃ req resp, s.port.lastPDelayReq = some req ∧ s.port.lastPDelayResp = some resp ∧
        OneExchange req resp fup

def Input.Names (id : PortIdentity) : Input → Prop
  | .receive (.pathDelayResp m) _ => m.requestingPortIdentity = id
  | .receive (.pathDelayRespFollowUp m) _ => m.requestingPortIdentity = id
  | _ => True

structure Station.ExchangesOf (id : PortIdentity) (s : Station F) : Prop where
  identity : s.portIdentity = id
  request : ∀ req, s.port.lastPDelayReq = some req → req.sourcePortIdentity = id
  response : ∀ resp, s.port.lastPDelayResp = some resp → resp.requestingPortIdentity = id
  followUp : ∀ fup, s.port.lastPDelayRespFollowUp = some fup → fup.requestingPortIdentity = id

theorem Station.Fixed.portIdentity (h : s.Fixed t) : t.portIdentity = s.portIdentity := by
  simp only [Station.portIdentity, h.clockIdentity, h.ifindex]

theorem Station.ExchangesOf.step {ops : RatioOps F} {id : PortIdentity} (hs : s.ExchangesOf id)
    (hi : i.Names id) (h : Station.step ops (some s) i = some t) : t.ExchangesOf id := by
  obtain ⟨hid, hreq, hresp, hfup⟩ := hs
  cases step_exchange h with
  | kept same =>
    refine ⟨same.toFixed.portIdentity.trans hid, ?_, ?_, ?_⟩
    · rw [same.lastPDelayReq]
      exact hreq
    · rw [same.lastPDelayResp]
      exact hresp
    · rw [same.lastPDelayRespFollowUp]
      exact hfup
  | requests fixed request response followUp =>
    obtain ⟨sequenceId, timestamp, hrequest⟩ := request
    rw [← response] at hresp
    rw [← followUp] at hfup
    refine ⟨fixed.portIdentity.trans hid, ?_, hresp, hfup⟩
    grind
  | answers input fixed request response followUp =>
    subst input
    rw [← request] at hreq
    rw [← followUp] at hfup
    refine ⟨fixed.portIdentity.trans hid, hreq, ?_, hfup⟩
    intro resp h
    rw [response] at h
    cases h
    exact hi
  | completes fixed request response followUp =>
    rw [← request] at hreq
    rw [← followUp] at hfup
    refine ⟨fixed.portIdentity.trans hid, hreq, ?_, hfup⟩
    intro resp h
    rw [response] at h
    cases h
  | waits input early fixed request response followUp =>
    subst input
    rw [← request] at hreq
    rw [← response] at hresp
    refine ⟨fixed.portIdentity.trans hid, hreq, hresp, ?_⟩
    intro fup h
    rw [followUp] at h
    cases h
    exact hi
  | resumes fixed request response followUp =>
    rw [← request] at hreq
    refine ⟨fixed.portIdentity.trans hid, hreq, ?_, ?_⟩
    all_goals grind

theorem Station.measurement_dropResp (s : Station F) :
    s.dropResp.port.measurement = s.port.measurement := rfl

theorem Station.measurement_processDeferred {ops : RatioOps F}
    (hfup : s.port.lastPDelayRespFollowUp = some fup) (h : s.processDeferred ops = some t) :
    t.port.measurement = (s.processRespFollowUp ops fup).1.port.measurement := by
  unfold processDeferred at h
  rw [hfup] at h
  dsimp only at h
  split at h
  · rw [← Option.some.inj h]
    rfl
  · rw [← Option.some.inj h]

theorem Station.port_receive (ops : RatioOps F) (servo : Servo) (m : Message) (s : Station F) :
    (s.receive ops servo m).port = ({ s with nextAddr := s.nextAddr + 1 }.processMessage ops servo
      (m.place s.nextAddr)).1.port := by
  unfold receive
  dsimp only
  split <;> rfl

theorem Station.matches_of_measured {ops : RatioOps F}
    (h : (s.processRespFollowUp ops fup).1.port.measurement ≠ s.port.measurement) :
    ∃ req resp, s.port.lastPDelayReq = some req ∧ s.port.lastPDelayResp = some resp ∧
      exchangeMatches req resp fup = true := by
  grind [processRespFollowUp_case, processRespFollowUp, measurement_dropResp]

theorem OneExchange.of_matches {req : PathDelayReq} {resp : PathDelayResp} {id : PortIdentity}
    (h : exchangeMatches req resp fup = true) (hreq : req.sourcePortIdentity = id)
    (hresp : resp.requestingPortIdentity = id) (hfup : fup.requestingPortIdentity = id) :
    OneExchange req resp fup := by
  simp only [exchangeMatches, Bool.and_eq_true, decide_eq_true_eq] at h
  obtain ⟨⟨⟨hseq, hseq'⟩, -⟩, hsource⟩ := h
  exact ⟨hseq'.trans hseq.symm, hseq.symm, hresp.trans hreq.symm, hfup.trans hreq.symm, hsource⟩

theorem Station.ExchangesOf.measuresRight {ops : RatioOps F} {id : PortIdentity}
    (hs : s.ExchangesOf id) (hi : i.Names id) : s.MeasuresRight ops i := by
  intro t fup hstep hfup hchanged
  cases i with
  | event e tx => cases hfup
  | expire n tx =>
    cases htimer : s.timers[n]? with
    | none => simp [followUpOf, htimer] at hfup
    | some timer =>
      simp only [followUpOf, htimer, Option.map_some, Option.some.injEq] at hfup
      obtain ⟨u, hu, hexpire⟩ := step_expire ops tx htimer
      split at hfup
      · rename_i hevent
        rw [hexpire, hevent] at hstep
        rw [← hu.port] at hfup hchanged ⊢
        rw [measurement_processDeferred hfup hstep] at hchanged
        obtain ⟨req, resp, hreq, hresp, hsame⟩ := matches_of_measured hchanged
        rw [hu.port] at hreq hresp hfup
        rw [hu.port]
        exact ⟨req, resp, hreq, hresp, .of_matches hsame (hs.request req hreq)
          (hs.response resp hresp) (hs.followUp fup hfup)⟩
      · cases hfup
  | receive m servo =>
    cases m with
    | pathDelayRespFollowUp m =>
      cases hfup
      cases hstep
      rw [port_receive] at hchanged
      obtain ⟨req, resp, hreq, hresp, hsame⟩ :=
        matches_of_measured (s := { s with nextAddr := s.nextAddr + 1 }) hchanged
      exact ⟨req, resp, hreq, hresp, .of_matches hsame (hs.request req hreq)
        (hs.response resp hresp) hi⟩
    | _ => cases hfup

structure Station.NoExchange (s : Station F) : Prop where
  request : s.port.lastPDelayReq = none
  response : s.port.lastPDelayResp = none
  followUp : s.port.lastPDelayRespFollowUp = none

/-- In a run in which all responses and response follow-ups name the port as the requesting
one, every measurement is made of the messages of one exchange. -/
theorem Station.measurements_right (ops : RatioOps F) (s : Station F) (hs : s.NoExchange)
    (is : List Input) (his : ∀ i ∈ is, i.Names s.portIdentity) :
    Runs.Along (Station.step ops) (fun o i => Runs.IfSome (Station.MeasuresRight ops i) o)
      (some s) is := by
  have hstart : s.ExchangesOf s.portIdentity := by
    refine ⟨rfl, ?_, ?_, ?_⟩
    · simp [hs.request]
    · simp [hs.response]
    · simp [hs.followUp]
  have hok : Runs.Along (Station.step ops) (fun _ i => i.Names s.portIdentity) (some s) is :=
    Runs.along_of_forall_mem (fun _ i hi => his i hi) _
  refine Runs.Along.of_invariant (Runs.IfSome (Station.ExchangesOf s.portIdentity)) ?_ ?_
    (Runs.ifSome_some.mpr hstart) hok
  · intro o i hi ho
    exact Runs.ifSome_step (fun _ => rfl) (fun r i t hi hr ht => hr.step hi ht) o i (fun _ _ => hi)
      ho
  · intro o i hi ho r hr
    exact (ho r hr).measuresRight hi

def foreignPort : PortIdentity := ⟨Vector.replicate 8 3, 7⟩

def foreignExchange : List Input :=
  [.event .POWERUP none, .expire 1 (some timeZero),
    .receive (.pathDelayResp ⟨0, peerPort, 0, timeZero, foreignPort, timeZero⟩) quietServo,
    .receive (.pathDelayRespFollowUp ⟨0, peerPort, 0, foreignPort, timeZero⟩) quietServo]

theorem foreign_exchange_is_measured :
    ¬ Runs.Along (Station.step noRatios)
      (fun o i => Runs.IfSome (Station.MeasuresRight noRatios i) o) (some newStation)
      foreignExchange := by
  rintro ⟨-, -, -, h, -⟩
  obtain ⟨req, resp, hreq, hresp, hsame⟩ := h _ rfl _ _ rfl rfl (by
    intro heq
    have hcapable := congrArg Measurement.asCapable heq
    revert hcapable
    decide +kernel)
  cases hresp
  cases hreq
  exact absurd hsame.responseRequester (by decide)

theorem newStation_measures_right :
    newStation.NoExchange ∧ Runs.Along (Station.step noRatios)
      (fun o i => Runs.IfSome (Station.MeasuresRight noRatios i) o) (some newStation) measuring := by
  have hnew : newStation.NoExchange := ⟨rfl, rfl, rfl⟩
  refine ⟨hnew, newStation.measurements_right noRatios hnew measuring ?_⟩
  intro i hi
  simp only [measuring, List.mem_cons, List.not_mem_nil, or_false] at hi
  obtain rfl | rfl | rfl | rfl := hi
  · trivial
  · trivial
  · rfl
  · rfl

def Station.DefersAgain (s : Station F) : Input → Prop
  | .receive (.pathDelayRespFollowUp m) _ => s.defers m = true ∧ 0 < s.deferrals
  | _ => False

structure Station.OneWaits (s : Station F) : Prop where
  atMostOne : s.deferrals ≤ 1
  stored : 0 < s.deferrals → s.port.lastPDelayRespFollowUp ≠ none

theorem Station.OneWaits.step {ops : RatioOps F} (hs : s.OneWaits) (hi : ¬ s.DefersAgain i)
    (h : Station.step ops (some s) i = some t) : t.OneWaits := by
  obtain ⟨hmost, hstored⟩ := hs
  have same : t.deferrals = s.deferrals →
      t.port.lastPDelayRespFollowUp = s.port.lastPDelayRespFollowUp → t.OneWaits := by
    intro hdeferrals hfup
    refine ⟨by omega, ?_⟩
    intro hpos
    rw [hfup]
    exact hstored (by omega)
  cases step_exchange h with
  | kept hsame => exact same hsame.deferrals hsame.lastPDelayRespFollowUp
  | requests fixed request response followUp deferrals => exact same deferrals followUp
  | answers input fixed request response followUp deferrals => exact same deferrals followUp
  | completes fixed request response followUp deferrals => exact same deferrals followUp
  | waits input early fixed request response followUp deferrals =>
    subst input
    have hnone : ¬ 0 < s.deferrals := fun hpos => hi ⟨early, hpos⟩
    refine ⟨by omega, ?_⟩
    grind
  | resumes fixed request response followUp deferrals =>
    exact ⟨by omega, by omega⟩

theorem Station.aborts {ops : RatioOps F} (h : Station.step ops (some s) i = none) :
    0 < s.deferrals ∧ s.port.lastPDelayRespFollowUp = none := by
  have habort : ∀ {u : Station F} {tx : Option Timestamp} {e : Event},
      u.processEvent ops tx e = none →
        e = .PDELAY_DEFERRED_PROCESSING ∧ u.port.lastPDelayRespFollowUp = none := by
    intro u tx e hnone
    cases e with
    | PDELAY_DEFERRED_PROCESSING =>
      grind [processEvent, processDeferred]
    | _ => cases hnone
  cases i with
  | event e tx =>
    simp only [step] at h
    split at h
    · rename_i hext
      rw [(habort h).1] at hext
      cases hext
    · cases h
  | expire n tx =>
    cases htimer : s.timers[n]? with
    | none =>
      simp only [step, htimer] at h
      cases h
    | some timer =>
      obtain ⟨u, hu, hstep⟩ := step_expire ops tx htimer
      obtain ⟨hevent, hnone⟩ := habort (hstep.symm.trans h)
      have hcount := hu.deferrals_resumed hevent
      rw [hu.port] at hnone
      exact ⟨by omega, hnone⟩
  | receive m servo => cases h

/-- In a run in which no follow-up has to wait while another one is waiting, the handler
always finds the follow-up. -/
theorem Station.deferred_found (ops : RatioOps F) (s : Station F) (hs : s.deferrals = 0)
    (is : List Input)
    (his : Runs.Along (Station.step ops) (fun o i => Runs.IfSome (fun t => ¬ t.DefersAgain i) o)
      (some s) is) :
    Runs.run (Station.step ops) (some s) is ≠ none := by
  have hstart : s.OneWaits := ⟨by omega, by omega⟩
  have hinv : ∀ o i, Runs.IfSome (fun t => ¬ t.DefersAgain i) o → (∃ t, o = some t ∧ t.OneWaits) →
      ∃ t, Station.step ops o i = some t ∧ t.OneWaits := by
    rintro o i hok ⟨r, rfl, hr⟩
    cases hstep : Station.step ops (some r) i with
    | none =>
      obtain ⟨hpos, hnone⟩ := aborts hstep
      exact absurd hnone (hr.stored hpos)
    | some t => exact ⟨t, rfl, hr.step (hok r rfl) hstep⟩
  obtain ⟨t, ht, -⟩ := Runs.run_invariant hinv (some s) is ⟨s, rfl, hstart⟩ his
  rw [ht]
  exact Option.some_ne_none t

def haltedRequest : List Input :=
  [.event .POWERUP none, .event .LINKDOWN none,
    .receive (.signalling ⟨0, 0, -128, -128⟩) quietServo, .expire 1 none]

def lateResponse : Input :=
  .receive (.pathDelayResp ⟨0, peerPort, 0, timeZero, ownPort, timeZero⟩) quietServo

@[inherit_doc lateResponse]
def lateFollowUp : Input :=
  .receive (.pathDelayRespFollowUp ⟨0, peerPort, 0, ownPort, timeZero⟩) quietServo

/-- Two follow-ups wait for the timestamp of the request. The first timer frees the one that is
stored, and the second finds none. -/
theorem second_followUp_aborts :
    Runs.run (Station.step noRatios) (some newStation)
      (haltedRequest ++ [lateResponse, lateFollowUp, lateFollowUp] ++
        [.expire 1 none, .expire 1 none, .expire 1 none]) = none := by
  rw [← Option.isNone_iff_eq_none]
  decide +kernel

theorem one_followUp_found :
    Runs.run (Station.step noRatios) (some newStation)
      (haltedRequest ++ [lateResponse, lateFollowUp, .expire 1 none, .expire 1 none]) ≠ none := by
  refine newStation.deferred_found noRatios rfl _ ⟨?_, ?_, ?_, ?_, ?_, ?_, ?_, ?_, trivial⟩
  case refine_6 =>
    rintro t ⟨rfl⟩ ⟨-, hpos⟩
    revert hpos
    decide +kernel
  all_goals exact fun _ _ h => h

end Avb4Linux.Gptp
