import Avb4Linux.Gptp.Clock
import Mathlib.Algebra.Group.Nat.Defs
import Mathlib.Algebra.Ring.Int.Defs

/-!
# An Ethernet port

`CommonPort` and `EtherPort` with the messages they process.
-/

namespace Avb4Linux.Gptp

inductive PortState where
  | PTP_MASTER | PTP_PRE_MASTER | PTP_SLAVE | PTP_UNCALIBRATED | PTP_DISABLED | PTP_FAULTY
  | PTP_INITIALIZING | PTP_LISTENING
  deriving DecidableEq, Repr

inductive Event where
  | POWERUP | INITIALIZE | LINKUP | LINKDOWN | STATE_CHANGE_EVENT
  | SYNC_INTERVAL_TIMEOUT_EXPIRES | PDELAY_INTERVAL_TIMEOUT_EXPIRES
  | SYNC_RECEIPT_TIMEOUT_EXPIRES | ANNOUNCE_RECEIPT_TIMEOUT_EXPIRES
  | ANNOUNCE_INTERVAL_TIMEOUT_EXPIRES | FAULT_DETECTED | PDELAY_DEFERRED_PROCESSING
  | PDELAY_RESP_RECEIPT_TIMEOUT_EXPIRES | PDELAY_RESP_PEER_MISBEHAVING_TIMEOUT_EXPIRES
  | SYNC_RATE_INTERVAL_TIMEOUT_EXPIRED
  deriving DecidableEq, Repr

structure Sync where
  addr : Nat
  sourcePortIdentity : PortIdentity
  sequenceId : UInt16
  timestamp : Timestamp

structure FollowUp where
  addr : Nat
  sourcePortIdentity : PortIdentity
  sequenceId : UInt16

structure PathDelayReq where
  sourcePortIdentity : PortIdentity
  sequenceId : UInt16
  timestamp : Timestamp
  deriving DecidableEq

structure PathDelayResp where
  addr : Nat
  sourcePortIdentity : PortIdentity
  sequenceId : UInt16
  timestamp : Timestamp
  requestingPortIdentity : PortIdentity
  requestReceiptTimestamp : Timestamp

structure PathDelayRespFollowUp where
  addr : Nat
  sourcePortIdentity : PortIdentity
  sequenceId : UInt16
  requestingPortIdentity : PortIdentity
  responseOriginTimestamp : Timestamp

structure Signalling where
  addr : Nat
  linkDelayInterval : Int
  timeSyncInterval : Int
  announceInterval : Int

structure RatioOps (F : Type) where
  nearOne : F → Bool
  scale : Nat → F → Int
  quotient : Nat → Nat → F
  within : F → Bool

structure Port (F : Type) where
  ifindex : UInt16
  automotiveProfile : Bool
  isGM : Bool
  portState : PortState
  qualifiedAnnounce : Option Announce
  asCapable : Bool
  wrongSeqIDCounter : UInt32
  syncReceiptThresh : UInt32
  syncCount : UInt32
  pdelayCount : UInt32
  pDelayInterval : Int
  syncInterval : Int
  initialLogPdelayReqInterval : Int
  initialLogSyncInterval : Int
  operLogPdelayReqInterval : Int
  operLogSyncInterval : Int
  oneWayDelay : Int
  neighborPropDelayThresh : Int
  peerRateOffset : F
  /-- `_peer_offset_ts_mine` and `_peer_offset_ts_theirs`, if `_peer_offset_init` -/
  peerOffset : Option (Timestamp × Timestamp)
  lastSync : Option Sync
  lastPDelayReq : Option PathDelayReq
  lastPDelayResp : Option PathDelayResp
  lastPDelayRespFollowUp : Option PathDelayRespFollowUp
  pdelayStarted : Bool
  pdelayHalted : Bool
  syncRateIntervalTimerStarted : Bool
  pdelaySequenceId : UInt16
  duplicateRespCounter : UInt32
  lastInvalidSeqID : UInt16

structure Timer where
  event : Event
  target : UInt16
  deriving DecidableEq, Repr

/-- A port with the clock and the timer queue. Received messages are objects with
addresses; `freed` and `recommended` are histories that no function reads. -/
structure Station (F : Type) where
  clock : Clock
  port : Port F
  timers : List Timer
  nextAddr : Nat
  freed : List Nat
  recommended : List (UInt16 × PortState)

variable {F : Type}

/-! ### Timers -/

def Station.addEventTimer (e : Event) (s : Station F) : Station F :=
  { s with timers := s.timers ++ [⟨e, s.port.ifindex⟩] }

/-- `deleteEventTimerLocked`; `cancelEvent` does not look at the port. -/
def Station.deleteEventTimer (e : Event) (s : Station F) : Station F :=
  { s with timers := s.timers.filter fun t => t.event ≠ e }

/-- `startSyncReceiptTimer`, `startSyncIntervalTimer`, `startAnnounceIntervalTimer` and
`startPDelayIntervalTimer` for their events. -/
@[simp]
def Station.restartTimer (e : Event) (s : Station F) : Station F :=
  (s.deleteEventTimer e).addEventTimer e

@[simp]
def Station.stopSyncReceiptTimer (s : Station F) : Station F :=
  s.deleteEventTimer .SYNC_RECEIPT_TIMEOUT_EXPIRES

def Station.setPort (f : Port F → Port F) (s : Station F) : Station F :=
  { s with port := f s.port }

def Station.setClock (f : Clock → Clock) (s : Station F) : Station F :=
  { s with clock := f s.clock }

def Station.delete (addr : Option Nat) (s : Station F) : Station F :=
  { s with freed := s.freed ++ addr.toList }

/-! Each of these changes one field. -/

section Fields

variable (s : Station F)

@[simp]
theorem Station.addEventTimer_clock (e : Event) : (s.addEventTimer e).clock = s.clock := rfl

@[simp]
theorem Station.addEventTimer_port (e : Event) : (s.addEventTimer e).port = s.port := rfl

@[simp]
theorem Station.addEventTimer_timers (e : Event) : (s.addEventTimer e).timers = s.timers ++ [⟨e, s.port.ifindex⟩] := rfl

@[simp]
theorem Station.addEventTimer_nextAddr (e : Event) : (s.addEventTimer e).nextAddr = s.nextAddr := rfl

@[simp]
theorem Station.addEventTimer_freed (e : Event) : (s.addEventTimer e).freed = s.freed := rfl

@[simp]
theorem Station.addEventTimer_recommended (e : Event) : (s.addEventTimer e).recommended = s.recommended := rfl

@[simp]
theorem Station.deleteEventTimer_clock (e : Event) : (s.deleteEventTimer e).clock = s.clock := rfl

@[simp]
theorem Station.deleteEventTimer_port (e : Event) : (s.deleteEventTimer e).port = s.port := rfl

@[simp]
theorem Station.deleteEventTimer_timers (e : Event) : (s.deleteEventTimer e).timers = s.timers.filter fun t => t.event ≠ e := rfl

@[simp]
theorem Station.deleteEventTimer_nextAddr (e : Event) : (s.deleteEventTimer e).nextAddr = s.nextAddr := rfl

@[simp]
theorem Station.deleteEventTimer_freed (e : Event) : (s.deleteEventTimer e).freed = s.freed := rfl

@[simp]
theorem Station.deleteEventTimer_recommended (e : Event) : (s.deleteEventTimer e).recommended = s.recommended := rfl

@[simp]
theorem Station.setPort_clock (f : Port F → Port F) : (s.setPort f).clock = s.clock := rfl

@[simp]
theorem Station.setPort_port (f : Port F → Port F) : (s.setPort f).port = f s.port := rfl

@[simp]
theorem Station.setPort_nextAddr (f : Port F → Port F) : (s.setPort f).nextAddr = s.nextAddr := rfl

@[simp]
theorem Station.setPort_freed (f : Port F → Port F) : (s.setPort f).freed = s.freed := rfl

@[simp]
theorem Station.setPort_recommended (f : Port F → Port F) : (s.setPort f).recommended = s.recommended := rfl

@[simp]
theorem Station.setClock_clock (f : Clock → Clock) : (s.setClock f).clock = f s.clock := rfl

@[simp]
theorem Station.setClock_port (f : Clock → Clock) : (s.setClock f).port = s.port := rfl

@[simp]
theorem Station.delete_port (a : Option Nat) : (s.delete a).port = s.port := rfl

@[simp]
theorem Station.delete_freed (a : Option Nat) : (s.delete a).freed = s.freed ++ a.toList := rfl

end Fields

/-! ### Roles -/

def Station.becomeMaster (annc : Bool) (s : Station F) : Station F :=
  let s := s.setPort fun p => { p with portState := .PTP_MASTER }
  let s := (s.deleteEventTimer .ANNOUNCE_RECEIPT_TIMEOUT_EXPIRES).stopSyncReceiptTimer
  let s :=
    if annc ∧ s.port.automotiveProfile = false then
      s.restartTimer .ANNOUNCE_INTERVAL_TIMEOUT_EXPIRES
    else s
  s.restartTimer .SYNC_INTERVAL_TIMEOUT_EXPIRES

def Station.becomeSlave (s : Station F) : Station F :=
  let s := (s.deleteEventTimer .ANNOUNCE_INTERVAL_TIMEOUT_EXPIRES).deleteEventTimer
    .SYNC_INTERVAL_TIMEOUT_EXPIRES
  let s := s.setPort fun p => { p with portState := .PTP_SLAVE }
  if s.port.automotiveProfile then s
  else s.addEventTimer .ANNOUNCE_RECEIPT_TIMEOUT_EXPIRES

structure Station.SameBut (state : PortState) (s t : Station F) : Prop where
  clock : t.clock = s.clock
  port : t.port = { s.port with portState := state }
  nextAddr : t.nextAddr = s.nextAddr
  freed : t.freed = s.freed
  recommended : t.recommended = s.recommended

theorem Station.becomeMaster_sameBut (annc : Bool) (s : Station F) :
    s.SameBut .PTP_MASTER (s.becomeMaster annc) := by
  unfold becomeMaster
  constructor <;> dsimp only <;> split <;> simp

theorem Station.becomeSlave_sameBut (s : Station F) : s.SameBut .PTP_SLAVE s.becomeSlave := by
  unfold becomeSlave
  constructor <;> dsimp only <;> split <;> simp

def Station.recommendState (state : PortState) (changedExternalMaster : Bool) (s : Station F) :
    Station F :=
  let s := { s with recommended := s.recommended ++ [(s.port.ifindex, state)] }
  match state with
  | .PTP_MASTER =>
    if s.port.portState = .PTP_MASTER then s
    else (s.becomeMaster true).setPort fun p => { p with syncCount := 0 }
  | .PTP_SLAVE =>
    if s.port.portState = .PTP_SLAVE then
      if changedExternalMaster then s.setPort fun p => { p with syncCount := 0 } else s
    else s.becomeSlave.setPort fun p => { p with syncCount := 0 }
  | _ => s

/-! ### The state decision -/

structure System (F : Type) where
  clock : Clock
  ports : List (Option (Port F))
  timers : List Timer
  nextAddr : Nat
  freed : List Nat
  recommended : List (UInt16 × PortState)

def System.station (p : Port F) (s : System F) : Station F :=
  ⟨s.clock, p, s.timers, s.nextAddr, s.freed, s.recommended⟩

def System.update (j : Nat) (t : Station F) (s : System F) : System F where
  clock := t.clock
  ports := s.ports.set j (some t.port)
  timers := t.timers
  nextAddr := t.nextAddr
  freed := t.freed
  recommended := t.recommended

def System.numberPorts (s : System F) : Nat :=
  s.ports.countP Option.isSome

def seek (ports : List (Option (Port F))) (j : Nat) : Nat :=
  j + (ports.drop j).findIdx Option.isSome

def Port.participates (p : Port F) : Bool :=
  p.portState ≠ .PTP_DISABLED && p.portState ≠ .PTP_FAULTY

/-- The loop that finds `EBest`, with `number_ports - i` turns left. The index of the
array moves on over empty slots only. -/
def findEBest (ports : List (Option (Port F))) : Nat → Nat → Option Announce → Option Announce
  | 0, _, eBest => eBest
  | n + 1, j, eBest =>
    match ports.getD (seek ports j) none with
    | none => eBest
    | some p =>
      if p.participates then
        match eBest, p.qualifiedAnnounce with
        | none, a => findEBest ports n (seek ports j) a
        | some e, some a =>
          findEBest ports n (seek ports j) (some (if a.isBetterThan e then a else e))
        | some e, none => findEBest ports n (seek ports j) (some e)
      else findEBest ports n (seek ports j) eBest

def sameAnnounce (a b : Option Announce) : Bool :=
  a.map Announce.addr = b.map Announce.addr

/-- The loop that recommends states, with `number_ports - i` turns left. -/
def System.recommend (changed : Bool) : Nat → Nat → Option Announce → System F → System F
  | 0, _, _, s => s
  | n + 1, j, eBest, s =>
    let j := seek s.ports j
    match s.ports.getD j none with
    | none => s
    | some p =>
      if p.participates then
        if s.clock.isBetterThan eBest then
          (s.update j ((s.station p).recommendState .PTP_MASTER changed)).recommend changed n j none
        else
          match eBest with
          | none => s
          | some e =>
            if sameAnnounce eBest p.qualifiedAnnounce then
              (s.update j (((s.station p).recommendState .PTP_SLAVE changed).setClock
                (Clock.follow e))).recommend changed n j eBest
            else
              (s.update j ((s.station p).recommendState .PTP_MASTER changed)).recommend changed n j
                eBest
      else s.recommend changed n j eBest

def Clock.noteEBest (e : Announce) (c : Clock) : Clock :=
  let c := { c with lastEBestIdentity := e.grandmasterIdentity }
  if c.isBetterThan (some e) then c.becomeGrandmaster else c

def System.setClock (f : Clock → Clock) (s : System F) : System F :=
  { s with clock := f s.clock }

def System.processStateChange (s : System F) : System F :=
  if s.clock.priority1 = 255 then s
  else
    match findEBest s.ports s.numberPorts 0 none with
    | none => s
    | some e =>
      (s.setClock (Clock.noteEBest e)).recommend
        (e.grandmasterIdentity ≠ s.clock.lastEBestIdentity) s.numberPorts 0 (some e)

def Station.system (s : Station F) : System F :=
  ⟨s.clock, [some s.port], s.timers, s.nextAddr, s.freed, s.recommended⟩

def Station.processStateChange (s : Station F) : Station F :=
  let t := s.system.processStateChange
  t.station ((t.ports.getD 0 none).getD s.port)

/-! ### Peer delay -/

/-- `startPDelay`; 127 is `sigMsgInterval_NoSend`. -/
def Station.startPDelay (s : Station F) : Station F :=
  if s.port.pdelayHalted then s
  else if s.port.automotiveProfile ∧ s.port.pDelayInterval = 127 then s
  else
    (s.setPort fun p => { p with pdelayStarted := true }).restartTimer
      .PDELAY_INTERVAL_TIMEOUT_EXPIRES

def Station.stopPDelay (s : Station F) : Station F :=
  (s.setPort fun p => { p with pdelayHalted := true, pdelayStarted := false }).deleteEventTimer
    .PDELAY_INTERVAL_TIMEOUT_EXPIRES

def Port.setAsCapable (ascap : Bool) (p : Port F) : Port F :=
  { p with asCapable := ascap, peerOffset := if ascap then p.peerOffset else none }

def Port.linkDelay (p : Port F) : Nat :=
  p.oneWayDelay.toNat

def invalidLinkDelay : Nat := 3600000000000

def elapsed (a b : Timestamp) : Int :=
  ((b.secondsMs.toNat : Int) - a.secondsMs.toNat) * 2 ^ 32 * 1000000000 +
    ((b.secondsLs.toNat : Int) - a.secondsLs.toNat) * 1000000000 +
    ((b.nanoseconds.toNat : Int) - a.nanoseconds.toNat)

def Timestamp.toNs (t : Timestamp) : Int :=
  ((t.secondsMs.toNat : Int) * 2 ^ 32 + t.secondsLs.toNat) * 1000000000 + t.nanoseconds.toNat

def turnAround (ops : RatioOps F) (resp : PathDelayResp) (fup : PathDelayRespFollowUp) (rate : F) :
    Int :=
  let t := elapsed resp.requestReceiptTimestamp fup.responseOriginTimestamp % 2 ^ 64
  if ops.nearOne rate then ops.scale t.toNat rate % 2 ^ 64 else t

def measuredDelay (ops : RatioOps F) (req : PathDelayReq) (resp : PathDelayResp)
    (fup : PathDelayRespFollowUp) (rate : F) : Int :=
  (Int.bmod (elapsed req.timestamp resp.timestamp - turnAround ops resp fup rate) (2 ^ 64)).tdiv 2

def measuredRate (ops : RatioOps F) (req : PathDelayReq) (resp : PathDelayResp) (delay : Int)
    (p : Port F) : F :=
  match p.peerOffset with
  | none => p.peerRateOffset
  | some (mine, theirs) =>
    let mineElapsed := (req.timestamp.toNs - mine.toNs) % 2 ^ 64
    let theirsElapsed :=
      (resp.requestReceiptTimestamp.toNs - theirs.toNs - p.linkDelay + delay.toNat) % 2 ^ 64
    let rate := ops.quotient mineElapsed.toNat theirsElapsed.toNat
    if ops.within rate then rate else p.peerRateOffset

def Port.measure (ops : RatioOps F) (req : PathDelayReq) (resp : PathDelayResp)
    (fup : PathDelayRespFollowUp) (p : Port F) : Port F :=
  let delay := measuredDelay ops req resp fup p.peerRateOffset
  let p :=
    { p with
      pdelayCount := p.pdelayCount + 1
      peerRateOffset := measuredRate ops req resp delay p
      oneWayDelay := delay }
  let p :=
    if p.automotiveProfile then p
    else p.setAsCapable (decide (delay.natAbs ≤ p.neighborPropDelayThresh))
  { p with peerOffset := some (req.timestamp, resp.requestReceiptTimestamp) }

/-- Whether `PTPMessagePathDelayRespFollowUp::processMessage` takes the three messages for
one exchange. The clock identities it compares are those of two new objects, which are
always equal. -/
def exchangeMatches (req : PathDelayReq) (resp : PathDelayResp) (fup : PathDelayRespFollowUp) :
    Bool :=
  req.sequenceId = fup.sequenceId && resp.sequenceId = fup.sequenceId &&
    resp.requestingPortIdentity.portNumber = fup.requestingPortIdentity.portNumber &&
    fup.sourcePortIdentity = resp.sourcePortIdentity

def Station.dropResp (s : Station F) : Station F :=
  (s.delete (s.port.lastPDelayResp.map PathDelayResp.addr)).setPort fun p =>
    { p with lastPDelayResp := none }

def Station.defer (fup : PathDelayRespFollowUp) (s : Station F) : Station F :=
  let old := s.port.lastPDelayRespFollowUp.filter fun f => f.addr ≠ fup.addr
  let s := s.delete (old.map PathDelayRespFollowUp.addr)
  (s.setPort fun p => { p with lastPDelayRespFollowUp := some fup }).addEventTimer
    .PDELAY_DEFERRED_PROCESSING

def Station.processRespFollowUp (ops : RatioOps F) (fup : PathDelayRespFollowUp)
    (s : Station F) : Station F × Bool :=
  if s.port.portState = .PTP_DISABLED ∨ s.port.portState = .PTP_FAULTY then (s, false)
  else
    match s.port.lastPDelayReq, s.port.lastPDelayResp with
    | some req, some resp =>
      if exchangeMatches req resp fup then
        let s := s.deleteEventTimer .PDELAY_RESP_RECEIPT_TIMEOUT_EXPIRES
        if req.timestamp.nanoseconds = invalidTimestamp.nanoseconds then (s.dropResp, true)
        else if req.timestamp.nanoseconds = pdelayPendingTimestamp.nanoseconds then
          (s.defer fup, false)
        else if req.timestamp.version ≠ resp.timestamp.version then (s.dropResp, true)
        else ((s.setPort (Port.measure ops req resp fup)).dropResp, true)
      else (s.dropResp, true)
    | _, _ => (s.dropResp, true)

/-- The search for a peer that answers twice, in `PTPMessagePathDelayResp::processMessage`.
Three requests in a row with two answers stop the requests. -/
def Station.verifyDuplicate (resp old : PathDelayResp) (s : Station F) : Station F :=
  if resp.sequenceId = old.sequenceId then
    let s :=
      if resp.sourcePortIdentity.portNumber ≠ old.sourcePortIdentity.portNumber ∧
          (s.port.lastInvalidSeqID.toNat + 1 = resp.sequenceId.toNat ∨
            s.port.duplicateRespCounter = 0) then
        let s := s.setPort fun p => { p with duplicateRespCounter := p.duplicateRespCounter + 1 }
        if s.port.duplicateRespCounter = 3 then
          s.stopPDelay.addEventTimer .PDELAY_RESP_PEER_MISBEHAVING_TIMEOUT_EXPIRES
        else s
      else s.setPort fun p => { p with duplicateRespCounter := 0 }
    s.setPort fun p => { p with lastInvalidSeqID := resp.sequenceId }
  else s.setPort fun p => { p with duplicateRespCounter := 0 }

/-- `PTPMessagePathDelayResp::processMessage`. -/
def Station.processResp (resp : PathDelayResp) (s : Station F) : Station F × Bool :=
  if s.port.portState = .PTP_DISABLED ∨ s.port.portState = .PTP_FAULTY then (s, false)
  else
    let old := s.port.lastPDelayResp
    let s :=
      match old with
      | none => s
      | some o => s.verifyDuplicate resp o
    ((s.setPort fun p => { p with lastPDelayResp := some resp }).delete
      (old.map PathDelayResp.addr), false)

/-- The event `PDELAY_INTERVAL_TIMEOUT_EXPIRES`: a new request, which is not sent while
the requests are halted. The timestamper answers with `tx`, if at all. -/
def Station.requestDelay (tx : Option Timestamp) (s : Station F) : Station F :=
  let timestamp :=
    if s.port.pdelayHalted then pdelayPendingTimestamp else tx.getD invalidTimestamp
  let s := s.setPort fun p =>
    { p with
      lastPDelayReq :=
        some ⟨⟨s.clock.clockIdentity, p.ifindex⟩, p.pdelaySequenceId, timestamp⟩
      pdelaySequenceId := p.pdelaySequenceId + 1 }
  (s.addEventTimer .PDELAY_RESP_RECEIPT_TIMEOUT_EXPIRES).restartTimer
    .PDELAY_INTERVAL_TIMEOUT_EXPIRES

/-- The event `PDELAY_DEFERRED_PROCESSING`; `none` is the call of `abort`. -/
def Station.processDeferred (ops : RatioOps F) (s : Station F) : Option (Station F) :=
  match s.port.lastPDelayRespFollowUp with
  | none => none
  | some fup =>
    let x := s.processRespFollowUp ops fup
    if x.2 then
      some ((x.1.delete (some fup.addr)).setPort fun p => { p with lastPDelayRespFollowUp := none })
    else some x.1

/-! ### Synchronization -/

def Station.syncDone (s : Station F) : Station F :=
  let s :=
    if s.port.automotiveProfile ∧ s.port.syncRateIntervalTimerStarted = false ∧
        s.port.syncInterval ≠ s.port.operLogSyncInterval then
      (s.setPort fun p => { p with syncRateIntervalTimerStarted := true }).addEventTimer
        .SYNC_RATE_INTERVAL_TIMEOUT_EXPIRED
    else s
  if s.port.pdelayStarted then s else s.startPDelay

def Station.processSync (sync : Sync) (s : Station F) : Station F × Bool :=
  if s.port.portState = .PTP_DISABLED ∨ s.port.portState = .PTP_FAULTY then (s, false)
  else
    ((s.delete (s.port.lastSync.map Sync.addr)).setPort fun p => { p with lastSync := some sync },
      false)

/-- What the rest of the program answers while a Follow_Up is processed: the version of
the timestamper, whether the time of the master went backwards, and whether the servo
set the phase of the clock. -/
structure Servo where
  timestampVersion : UInt8
  negativeTimeJump : Bool
  phaseAdjusted : Bool

/-- `PTPMessageFollowUp::processMessage` with the arrival time of the Sync. The servo
starts the peer delay measurements again when it sets the phase. -/
def Station.synchronize (servo : Servo) (s : Station F) : Station F :=
  if invalidLinkDelay ≤ s.port.linkDelay then s
  else if servo.negativeTimeJump then s
  else if s.port.portState = .PTP_SLAVE then
    let s := s.setPort fun p =>
      { p with
        syncCount := p.syncCount + 1
        peerOffset := if servo.phaseAdjusted then none else p.peerOffset }
    s.syncDone.restartTimer .SYNC_RECEIPT_TIMEOUT_EXPIRES
  else s

def Port.incWrongSeqIDCounter (p : Port F) : Port F :=
  { p with
    wrongSeqIDCounter := if p.asCapable then p.wrongSeqIDCounter + 1 else p.wrongSeqIDCounter }

def Station.wrongFollowUp (s : Station F) : Station F :=
  let s := s.setPort Port.incWrongSeqIDCounter
  if s.port.wrongSeqIDCounter < s.port.syncReceiptThresh then s
  else (s.becomeMaster true).setPort fun p => { p with wrongSeqIDCounter := 0 }

def Station.dropSync (s : Station F) : Station F :=
  (s.delete (s.port.lastSync.map Sync.addr)).setPort fun p => { p with lastSync := none }

def Station.processFollowUp (servo : Servo) (fup : FollowUp) (s : Station F) : Station F × Bool :=
  let s := s.stopSyncReceiptTimer
  if s.port.portState = .PTP_DISABLED ∨ s.port.portState = .PTP_FAULTY then (s, false)
  else
    match s.port.lastSync with
    | none => (s, false)
    | some sync =>
      if sync.sequenceId ≠ fup.sequenceId ∨ sync.sourcePortIdentity ≠ fup.sourcePortIdentity then
        (s.wrongFollowUp.dropSync, false)
      else if sync.timestamp.version ≠ servo.timestampVersion then (s.dropSync, false)
      else ((s.synchronize servo).dropSync, true)

/-! ### Announce and Signalling messages -/

def Announce.rejected (a : Announce) (clock : Clock) : Bool :=
  255 ≤ a.stepsRemoved || a.sourcePortIdentity.clockId = clock.clockIdentity ||
    a.pathTrace.contains clock.clockIdentity

def Station.setQualifiedAnnounce (a : Option Announce) (s : Station F) : Station F :=
  (s.delete (s.port.qualifiedAnnounce.map Announce.addr)).setPort fun p =>
    { p with qualifiedAnnounce := a }

def Station.processAnnounce (a : Announce) (s : Station F) : Station F × Bool :=
  let s := s.deleteEventTimer .ANNOUNCE_RECEIPT_TIMEOUT_EXPIRES
  let s :=
    if a.rejected s.clock then s
    else (s.setQualifiedAnnounce (some a)).addEventTimer .STATE_CHANGE_EVENT
  (s.addEventTimer .ANNOUNCE_RECEIPT_TIMEOUT_EXPIRES, false)

/-- A part of `PTPMessageSignalling::processMessage`: an interval is set and its timer
starts again, unless the value says otherwise (126 initial, 127 do not send, -128 no
change). -/
def Station.setInterval (interval : Int) (initial : Port F → Int) (set : Int → Port F → Port F)
    (e : Event) (s : Station F) : Station F :=
  if interval = 126 then (s.setPort fun p => set (initial p) p).restartTimer e
  else if interval = 127 ∨ interval = -128 then s
  else (s.setPort (set interval)).restartTimer e

def Station.processSignalling (m : Signalling) (s : Station F) : Station F × Bool :=
  let s := s.setInterval m.linkDelayInterval Port.initialLogPdelayReqInterval
    (fun i p => { p with pDelayInterval := i }) .PDELAY_INTERVAL_TIMEOUT_EXPIRES
  let s := s.setInterval m.timeSyncInterval Port.initialLogSyncInterval
    (fun i p => { p with syncInterval := i }) .SYNC_INTERVAL_TIMEOUT_EXPIRES
  let s :=
    if s.port.automotiveProfile ∨ m.announceInterval = 126 ∨ m.announceInterval = 127 ∨
        m.announceInterval = -128 then s
    else s.restartTimer .ANNOUNCE_INTERVAL_TIMEOUT_EXPIRES
  (s, false)

/-! ### Events -/

def Station.awaitAgain (e : Event) (s : Station F) : Station F :=
  if e = .ANNOUNCE_RECEIPT_TIMEOUT_EXPIRES then s.addEventTimer .ANNOUNCE_RECEIPT_TIMEOUT_EXPIRES
  else s.restartTimer .SYNC_RECEIPT_TIMEOUT_EXPIRES

def Station.takeOver (s : Station F) : Station F :=
  let s := s.setClock Clock.becomeGrandmaster
  let s := s.setPort fun p => { p with portState := .PTP_MASTER }
  let s := (s.setQualifiedAnnounce none).addEventTimer .SYNC_INTERVAL_TIMEOUT_EXPIRES
  s.restartTimer .ANNOUNCE_INTERVAL_TIMEOUT_EXPIRES

def Station.processSyncAnnounceTimeout (e : Event) (s : Station F) : Station F :=
  if s.clock.priority1 = 255 then s
  else if s.port.portState = .PTP_MASTER then s.awaitAgain e
  else (s.awaitAgain e).takeOver

def Station.takeRole (s : Station F) : Station F :=
  if s.clock.priority1 = 255 ∨ s.port.portState = .PTP_SLAVE then s.becomeSlave
  else if s.port.portState = .PTP_MASTER then s.becomeMaster true
  else s.addEventTimer .ANNOUNCE_RECEIPT_TIMEOUT_EXPIRES

def Station.powerUp (s : Station F) : Station F :=
  let s := s.takeRole
  let s :=
    if s.port.automotiveProfile ∨
        s.port.portState ≠ .PTP_SLAVE ∧ s.port.portState ≠ .PTP_MASTER then s.startPDelay
    else s
  if s.port.automotiveProfile ∧ s.port.isGM = false then
    s.restartTimer .SYNC_RECEIPT_TIMEOUT_EXPIRES
  else s

def Station.linkUp (s : Station F) : Station F :=
  let s := (s.setPort fun p => { p with pdelayHalted := false }).startPDelay.takeRole
  if s.port.automotiveProfile then
    let s := s.setPort fun p =>
      { p.setAsCapable true with
        syncInterval := p.initialLogSyncInterval
        pDelayInterval := p.initialLogPdelayReqInterval
        pdelayCount := 0
        syncCount := 0 }
    if s.port.isGM then s else s.restartTimer .SYNC_RECEIPT_TIMEOUT_EXPIRES
  else s

def Station.loseCapability (s : Station F) : Station F :=
  if s.port.automotiveProfile then s else s.setPort (Port.setAsCapable false)

/-- The event `SYNC_RATE_INTERVAL_TIMEOUT_EXPIRED`. -/
def Station.changeRate (s : Station F) : Station F :=
  let signal := s.port.syncInterval ≠ s.port.operLogSyncInterval ∨
    s.port.pDelayInterval ≠ s.port.operLogPdelayReqInterval
  let s := s.setPort fun p =>
    { p with
      syncRateIntervalTimerStarted := false
      syncInterval := p.operLogSyncInterval
      pDelayInterval := p.operLogPdelayReqInterval }
  if signal ∧ s.port.isGM = false then s.restartTimer .SYNC_RECEIPT_TIMEOUT_EXPIRES else s

def Station.processEvent (ops : RatioOps F) (tx : Option Timestamp) (e : Event) (s : Station F) :
    Option (Station F) :=
  match e with
  | .POWERUP => some s.powerUp
  | .INITIALIZE => some s.powerUp
  | .LINKUP => some s.linkUp
  | .LINKDOWN => some s.stopPDelay.loseCapability
  | .STATE_CHANGE_EVENT =>
    some (if s.port.automotiveProfile then s else s.processStateChange)
  | .SYNC_INTERVAL_TIMEOUT_EXPIRES =>
    some (s.syncDone.restartTimer .SYNC_INTERVAL_TIMEOUT_EXPIRES)
  | .PDELAY_INTERVAL_TIMEOUT_EXPIRES => some (s.requestDelay tx)
  | .SYNC_RECEIPT_TIMEOUT_EXPIRES =>
    some (if s.port.automotiveProfile then s.restartTimer .SYNC_RECEIPT_TIMEOUT_EXPIRES
      else s.processSyncAnnounceTimeout e)
  | .ANNOUNCE_RECEIPT_TIMEOUT_EXPIRES =>
    some (if s.port.automotiveProfile then s else s.processSyncAnnounceTimeout e)
  | .ANNOUNCE_INTERVAL_TIMEOUT_EXPIRES =>
    some (s.restartTimer .ANNOUNCE_INTERVAL_TIMEOUT_EXPIRES)
  | .FAULT_DETECTED => some s.loseCapability
  | .PDELAY_DEFERRED_PROCESSING => s.processDeferred ops
  | .PDELAY_RESP_RECEIPT_TIMEOUT_EXPIRES =>
    some (s.loseCapability.setPort fun p => { p with pdelayCount := 0 })
  | .PDELAY_RESP_PEER_MISBEHAVING_TIMEOUT_EXPIRES =>
    let s := s.setPort fun p => { p with pdelayHalted := false }
    some (if s.port.portState ≠ .PTP_SLAVE ∧ s.port.portState ≠ .PTP_MASTER then s.startPDelay
      else s)
  | .SYNC_RATE_INTERVAL_TIMEOUT_EXPIRED => some s.changeRate

/-! ### Runs -/

inductive Message where
  | sync (m : Sync)
  | followUp (m : FollowUp)
  | pathDelayReq
  | pathDelayResp (m : PathDelayResp)
  | pathDelayRespFollowUp (m : PathDelayRespFollowUp)
  | announce (m : Announce)
  | signalling (m : Signalling)

def Message.place (addr : Nat) : Message → Message
  | .sync m => .sync { m with addr := addr }
  | .followUp m => .followUp { m with addr := addr }
  | .pathDelayReq => .pathDelayReq
  | .pathDelayResp m => .pathDelayResp { m with addr := addr }
  | .pathDelayRespFollowUp m => .pathDelayRespFollowUp { m with addr := addr }
  | .announce m => .announce { m with addr := addr }
  | .signalling m => .signalling { m with addr := addr }

def Station.processMessage (ops : RatioOps F) (servo : Servo) (m : Message) (s : Station F) :
    Station F × Bool :=
  match m with
  | .sync m => s.processSync m
  | .followUp m => s.processFollowUp servo m
  | .pathDelayReq => (s, true)
  | .pathDelayResp m => s.processResp m
  | .pathDelayRespFollowUp m => s.processRespFollowUp ops m
  | .announce m => s.processAnnounce m
  | .signalling m => s.processSignalling m

/-- `EtherPort::processMessage`. -/
def Station.receive (ops : RatioOps F) (servo : Servo) (m : Message) (s : Station F) : Station F :=
  let x := { s with nextAddr := s.nextAddr + 1 }.processMessage ops servo (m.place s.nextAddr)
  if x.2 then x.1.delete (some s.nextAddr) else x.1

inductive Input where
  | event (e : Event) (tx : Option Timestamp)
  | expire (i : Nat) (tx : Option Timestamp)
  | receive (m : Message) (servo : Servo)

def Event.external (e : Event) : Bool :=
  e = .POWERUP || e = .INITIALIZE || e = .LINKUP || e = .LINKDOWN || e = .FAULT_DETECTED

def Station.step (ops : RatioOps F) (s : Option (Station F)) (i : Input) : Option (Station F) :=
  match s with
  | none => none
  | some s =>
    match i with
    | .event e tx => if e.external then s.processEvent ops tx e else some s
    | .expire i tx =>
      match s.timers[i]? with
      | none => some s
      | some t => { s with timers := s.timers.eraseIdx i }.processEvent ops tx t.event
    | .receive m servo => some (s.receive ops servo m)

end Avb4Linux.Gptp
