import Avb4Linux.Lib.LockTrace

/-!
# The network lock

An event message is sent under `net_lock`, which `HWTimestamper_txtimestamp` releases; a
receiver tries to take it; a clock adjustment takes the locks of all interfaces.
-/

namespace Avb4Linux.Gptp.NetLock

open Lib.LockTrace

def ecSuccess : Int := 0
def ecFailure : Int := -1
def ecEagain : Int := -72
def txTimeoutIter : Nat := 6
def eintr : Int := 4
def solSocket : Int := 1
def soTimestamping : Int := 37

inductive NetResult where
  | succeed | trfail | fatal
deriving DecidableEq, Repr

abbrev Cmsg := Int × Int

structure MessageId where
  messageType : Fin 16
  sequenceId : UInt16
deriving DecidableEq, Repr

structure Timestamper (ι : Type) where
  sd : Int
  net_lock : ι
  iface_list : List ι

structure Port (ι : Type) where
  net_iface : ι
  hw_timestamper : Timestamper ι
  opened : hw_timestamper.sd ≠ -1
  own_lock : hw_timestamper.net_lock = net_iface
  distinct : hw_timestamper.iface_list.Nodup

variable {ι : Type}

structure Setup where
  lockInit : Bool
  sd_general : Int
  sd_event : Int
  getHwaddr : Bool
  getIndex : Bool
  addMembership : Bool
  bind : Bool
  postInit : Bool
  hwInit : Bool

def initPort (iface : ι) (r : Setup) : Option (Port ι) :=
  if !r.lockInit then none
  else if r.sd_general = -1 then none
  else if h : r.sd_event = -1 then none
  else if !r.getHwaddr || !r.getIndex || !r.addMembership || !r.bind || !r.postInit then none
  else some {
    net_iface := iface
    hw_timestamper := ⟨r.sd_event, iface, if r.hwInit then [iface] else []⟩
    opened := h
    own_lock := rfl
    distinct := by split <;> simp }

def send (iface : ι) (timestamp sent : Bool) : Traced ι NetResult := do
  if timestamp then lock iface
  if sent then pure .succeed else pure .fatal

inductive Reflected where
  | eagain
  | error
  | message (id : MessageId) (cmsgs : List Cmsg)
deriving DecidableEq, Repr

/-- `HWTimestamper_txtimestamp`, up to `done:`. -/
def Reflected.ret (messageId : MessageId) : Reflected → Int
  | .eagain => ecEagain
  | .error => ecFailure
  | .message reflectedMessageId cmsgs =>
    if messageId ≠ reflectedMessageId then ecEagain
    else if (solSocket, soTimestamping) ∈ cmsgs then ecSuccess
    else ecEagain

def Timestamper.txtimestamp (ts : Timestamper ι) (messageId : MessageId) (r : Reflected)
    (last : Bool) : Traced ι Int :=
  if ts.sd = -1 then pure (-1)
  else do
    if r.ret messageId = ecSuccess ∨ last then unlock ts.net_lock
    pure (r.ret messageId)

/-- The loop of `PTPMessageCommon::getTxTimestamp`; the tries are numbered from `k`. -/
def Port.retry (port : Port ι) (messageId : MessageId) (tries : Nat → Reflected) :
    Nat → Nat → Int → Traced ι Int
  | 0, _, ts_good => pure ts_good
  | iter + 1, k, ts_good =>
    if ts_good = ecSuccess then pure ts_good
    else do
      let ts_good ← port.hw_timestamper.txtimestamp messageId (tries k) (iter == 0)
      port.retry messageId tries iter (k + 1) ts_good

def Port.getTxTimestamp (port : Port ι) (messageId : MessageId) (tries : Nat → Reflected) :
    Traced ι Bool := do
  let ts_good ← port.hw_timestamper.txtimestamp messageId (tries 0) false
  let ts_good ← port.retry messageId tries txTimeoutIter 1 ts_good
  pure (ts_good == ecSuccess)

structure EventCalls where
  messageId : MessageId
  sent : Bool
  tries : Nat → Reflected

def Port.sendEvent (port : Port ι) (c : EventCalls) : Traced ι Bool := do
  let _ ← send port.net_iface true c.sent
  port.getTxTimestamp c.messageId c.tries

def Port.sendSync (port : Port ι) (c : EventCalls) : Traced ι Bool :=
  port.sendEvent c

def Port.sendPathDelayReq (port : Port ι) (pdelayHalted : Bool) (c : EventCalls) :
    Traced ι Bool :=
  if pdelayHalted then pure false else port.sendEvent c

def Port.sendPathDelayResp (port : Port ι) (c : EventCalls) : Traced ι Bool :=
  port.sendEvent c

def Port.sendGeneral (port : Port ι) (sent : Bool) : Traced ι Bool := do
  let rtx ← send port.net_iface false sent
  pure (rtx == .succeed)

inductive Received where
  | enomsg
  | error
  | packet (payload : List UInt8) (cmsgs : List Cmsg)

structure ReceiveCalls where
  got_net_lock : Bool
  select : Int
  isset : Bool
  recvmsg : Received

structure Reception where
  ret : NetResult
  length : Nat := 0
  pushed : Bool := false

/-- `LinuxNetworkInterface::nrecv`, between the lock and `done:`. -/
def receive (c : ReceiveCalls) : Reception :=
  if c.select = 0 then { ret := .trfail }
  else if c.select = -1 then
    -- the source compares the result, not `errno`
    if c.select = eintr then { ret := .trfail } else { ret := .fatal }
  else if !c.isset then { ret := .trfail }
  else match c.recvmsg with
    | .enomsg => { ret := .trfail }
    | .error => { ret := .fatal }
    | .packet payload cmsgs => {
      ret := .succeed
      length := payload.length
      pushed := (payload.head?.any fun b => b &&& 8 == 0) && (solSocket, soTimestamping) ∈ cmsgs }

def Port.nrecv (port : Port ι) (c : ReceiveCalls) : Traced ι Reception := do
  tryLock port.net_iface c.got_net_lock
  if c.got_net_lock then
    let r := receive c
    unlock port.net_iface
    pure r
  else pure { ret := .trfail }

structure QueueCalls where
  dropMembership : Bool
  addMembership : Bool

def disableRxQueue (iface : ι) (c : QueueCalls) : Traced ι Bool := do
  lock iface
  pure !c.dropMembership

def clearReenableRxQueue (iface : ι) (c : QueueCalls) : Traced ι Bool :=
  if !c.addMembership then pure true
  else do
    unlock iface
    pure false

def Port.adjclockphase (port : Port ι) (c : ι → QueueCalls) (adjusted : Bool) :
    Traced ι Bool := do
  port.hw_timestamper.iface_list.forM fun i => discard (disableRxQueue i (c i))
  port.hw_timestamper.iface_list.forM fun i => discard (clearReenableRxQueue i (c i))
  pure adjusted

inductive Call (ι : Type) where
  | sendSync (c : EventCalls)
  | sendPathDelayReq (pdelayHalted : Bool) (c : EventCalls)
  | sendPathDelayResp (c : EventCalls)
  | sendGeneral (sent : Bool)
  | nrecv (c : ReceiveCalls)
  | adjclockphase (c : ι → QueueCalls) (adjusted : Bool)

def Port.ops (port : Port ι) : Call ι → List (Op ι)
  | .sendSync c => (port.sendSync c).ops
  | .sendPathDelayReq pdelayHalted c => (port.sendPathDelayReq pdelayHalted c).ops
  | .sendPathDelayResp c => (port.sendPathDelayResp c).ops
  | .sendGeneral sent => (port.sendGeneral sent).ops
  | .nrecv c => (port.nrecv c).ops
  | .adjclockphase c adjusted => (port.adjclockphase c adjusted).ops

def Port.Rejoins (port : Port ι) : Call ι → Prop
  | .adjclockphase c _ => ∀ i ∈ port.hw_timestamper.iface_list, (c i).addMembership = true
  | _ => True

theorem Port.txtimestamp_ops (port : Port ι) (messageId : MessageId) (r : Reflected)
    (last : Bool) :
    (port.hw_timestamper.txtimestamp messageId r last).ops =
      if (port.hw_timestamper.txtimestamp messageId r last).result = ecSuccess ∨ last = true then
        [.unlock port.net_iface]
      else [] := by
  rw [Timestamper.txtimestamp, if_neg port.opened, ← port.own_lock]
  by_cases h : r.ret messageId = ecSuccess ∨ last = true <;> simp [h]

theorem Port.retry_ops (port : Port ι) (messageId : MessageId) (tries : Nat → Reflected)
    (iter k : Nat) {ts_good : Int} (h : ts_good ≠ ecSuccess) (hiter : 0 < iter) :
    (port.retry messageId tries iter k ts_good).ops = [.unlock port.net_iface] := by
  induction iter generalizing k ts_good with
  | zero => exact absurd hiter (Nat.lt_irrefl 0)
  | succ iter ih =>
    rw [Port.retry, if_neg h, ops_bind, port.txtimestamp_ops]
    by_cases hgood : (port.hw_timestamper.txtimestamp messageId (tries k) (iter == 0)).result =
        ecSuccess
    · rw [if_pos (.inl hgood), hgood]
      cases iter <;> simp [Port.retry]
    · cases iter with
      | zero => simp [Port.retry]
      | succ iter =>
        grind

theorem Port.getTxTimestamp_ops (port : Port ι) (messageId : MessageId)
    (tries : Nat → Reflected) :
    (port.getTxTimestamp messageId tries).ops = [.unlock port.net_iface] := by
  simp only [Port.getTxTimestamp, ops_bind, ops_pure, List.append_nil, port.txtimestamp_ops]
  by_cases hgood : (port.hw_timestamper.txtimestamp messageId (tries 0) false).result = ecSuccess
  · simp [hgood, Port.retry, txTimeoutIter]
  · rw [port.retry_ops messageId tries _ 1 hgood (by decide)]
    simp [hgood]

theorem Port.sendEvent_ops (port : Port ι) (c : EventCalls) :
    (port.sendEvent c).ops = [.lock port.net_iface, .unlock port.net_iface] := by
  rw [Port.sendEvent, ops_bind, port.getTxTimestamp_ops]
  cases hsent : c.sent <;> simp [send]

theorem Port.adjclockphase_ops (port : Port ι) (c : ι → QueueCalls) (adjusted : Bool) :
    (port.adjclockphase c adjusted).ops =
      port.hw_timestamper.iface_list.map .lock ++
        (port.hw_timestamper.iface_list.filter fun i => (c i).addMembership).map .unlock := by
  simp only [Port.adjclockphase, ops_bind, ops_forM, ops_pure, List.append_nil, ops_discard]
  congr 1
  · rw [List.map_eq_flatMap]
    rfl
  · induction port.hw_timestamper.iface_list with
    | nil => rfl
    | cons i l ih =>
      rw [List.flatMap_cons, ih]
      cases hadd : (c i).addMembership <;> simp [clearReenableRxQueue, hadd]

variable [DecidableEq ι]

theorem balanced_once (i : ι) : Balanced [.lock i, .unlock i] :=
  (balanced_locks_iff (List.nodup_singleton i) (List.Sublist.refl [i])).mpr fun _ h => h

theorem Port.balanced_iff (port : Port ι) (c : Call ι) :
    Balanced (port.ops c) ↔ port.Rejoins c := by
  cases c with
  | sendSync c =>
    rw [Port.ops, Port.sendSync, port.sendEvent_ops]
    exact iff_of_true (balanced_once _) trivial
  | sendPathDelayReq pdelayHalted c =>
    refine iff_of_true ?_ trivial
    cases pdelayHalted
    · change Balanced (port.sendEvent c).ops
      rw [port.sendEvent_ops]
      exact balanced_once port.net_iface
    · rfl
  | sendPathDelayResp c =>
    rw [Port.ops, Port.sendPathDelayResp, port.sendEvent_ops]
    exact iff_of_true (balanced_once _) trivial
  | sendGeneral sent =>
    refine iff_of_true ?_ trivial
    cases sent <;> rfl
  | nrecv c =>
    refine iff_of_true ?_ trivial
    cases hgot : c.got_net_lock
    · simp [Port.ops, Port.nrecv, hgot, Lib.LockTrace.Balanced, replay, Op.apply]
    · simp only [Port.ops, Port.nrecv, hgot, if_true]
      exact balanced_once port.net_iface
  | adjclockphase c adjusted =>
    rw [Port.ops, port.adjclockphase_ops,
      balanced_locks_iff port.distinct List.filter_sublist]
    refine forall₂_congr fun i hi => ?_
    rw [List.mem_filter, and_iff_right hi]

/-- Over any calls, with any results of the socket calls, every lock that has been taken is
released once, exactly if each interface that leaves the multicast group can join it again. -/
theorem Port.calls_balanced_iff (port : Port ι) (calls : List (Call ι)) :
    (∀ before, before <+: calls → Balanced (before.flatMap port.ops)) ↔
      ∀ c ∈ calls, port.Rejoins c := by
  induction calls with
  | nil =>
    refine iff_of_true ?_ (by simp)
    intro before h
    rw [List.prefix_nil.mp h]
    rfl
  | cons c calls ih =>
    rw [List.forall_mem_cons, ← ih, ← port.balanced_iff c]
    constructor
    · intro h
      have hc : Balanced (port.ops c) := by
        simpa using h [c] ⟨calls, rfl⟩
      refine ⟨hc, fun before hbefore => ?_⟩
      have hboth := h (c :: before) (List.cons_prefix_cons.mpr ⟨rfl, hbefore⟩)
      rw [List.flatMap_cons] at hboth
      exact hc.of_append hboth
    · rintro ⟨hc, h⟩ before hbefore
      cases before with
      | nil => rfl
      | cons c' before =>
        obtain ⟨rfl, hrest⟩ := List.cons_prefix_cons.mp hbefore
        rw [List.flatMap_cons]
        exact hc.append (h before hrest)

theorem adjclockphase_keeps_lock :
    ∃ port, initPort () ⟨true, 3, 4, true, true, true, true, true, true⟩ = some port ∧
      port.ops (.adjclockphase (fun _ => ⟨true, false⟩) true) = [.lock ()] ∧
      ¬ Balanced (port.ops (.adjclockphase (fun _ => ⟨true, false⟩) true)) := by
  refine ⟨_, rfl, rfl, ?_⟩
  rw [Port.balanced_iff]
  intro h
  cases h () List.mem_cons_self

end Avb4Linux.Gptp.NetLock
