import Avb4Linux.Lib.LinkedQueue
import Avb4Linux.Maap.Intervals
import Avb4Linux.Maap.Packet

/-!
# The MAAP client

`maap.c`. A range is known by its address in `mem`. A failed assertion, a null pointer and a
division by zero are an `Abort`. The values that `random()` and the clock will return are part of
the state, and so is a history, which no function reads.
-/

namespace Avb4Linux.Maap

open Lib

structure Time where
  tvSec : Nat
  tvNsec : Nat
  deriving DecidableEq, Repr

/-- `Time_setFromNanos`. -/
def Time.ofNanos (nsec : Nat) : Time :=
  ⟨nsec / 1000000000, nsec % 1000000000⟩

def Time.add (a b : Time) : Time :=
  if 1000000000 < a.tvNsec + b.tvNsec then
    ⟨a.tvSec + b.tvSec + 1, a.tvNsec + b.tvNsec - 1000000000⟩
  else ⟨a.tvSec + b.tvSec, a.tvNsec + b.tvNsec⟩

/-- `Time_cmp(a, b) <= 0`, and `Time_passed(b, a)`. -/
def Time.le (a b : Time) : Bool :=
  a.tvSec < b.tvSec || a.tvSec = b.tvSec && a.tvNsec ≤ b.tvNsec

structure Clock where
  reading : Nat → Time
  normal : ∀ i, (reading i).tvNsec < 1000000000
  mono : ∀ i j, i ≤ j → (reading i).le (reading j) = true

def Clock.tail (k : Clock) : Clock where
  reading := fun i => k.reading (i + 1)
  normal := fun i => k.normal (i + 1)
  mono := fun i j h => k.mono (i + 1) (j + 1) (Nat.succ_le_succ h)

/-! ### Ranges and notifications -/

inductive RangeState where
  | PROBING | DEFENDING | RELEASED
  deriving DecidableEq, Repr

/-- `struct range`, with its `next_timer` field kept elsewhere. An id is the 32-bit
pattern of an `int`. -/
structure Range (σ : Type) where
  id : UInt32
  state : RangeState
  counter : Nat
  overlapping : Bool
  nextActTime : Time
  interval : Option Nat
  sender : σ

inductive NotifyKind where
  | INITIALIZED | ACQUIRING | ACQUIRED | RELEASED | STATUS | YIELDED
  deriving DecidableEq, Repr

inductive NotifyError where
  | NONE | REQUIRES_INITIALIZATION | ALREADY_INITIALIZED | RESERVE_NOT_AVAILABLE
  | RELEASE_INVALID_ID | OUT_OF_MEMORY
  deriving DecidableEq, Repr

structure Notify where
  kind : NotifyKind
  id : UInt32
  start : Nat
  count : Nat
  result : NotifyError
  deriving DecidableEq, Repr

inductive Event where
  | assigned (range low high : Nat)
  | queued (p : Packet)
  | handled (p : Packet)
  | acquired (range : Nat)
  deriving DecidableEq, Repr

inductive Abort where
  | intervalOutsidePool
  | rangeElsewhere
  | orphanNode
  | rangeKept
  | noFlaggedRange
  | nullPointer
  | divisionByZero
  deriving DecidableEq, Repr

/-- `Maap_Client`, with the memory its pointers point to. `net` holds the packets
queued for sending. -/
structure Client (σ : Type) where
  destMac : Nat
  srcMac : Nat
  addressBase : UInt64 := 0
  rangeLen : UInt32 := 0
  ranges : Tree := .nil
  timerQueue : Option Nat := none
  timer : Option Time := none
  net : List (List UInt8) := []
  maxid : UInt32 := 0
  notifies : List (σ × Notify) := []
  initialized : Bool := false
  mem : Nat → Range σ
  nextTimer : Nat → Option Nat := fun _ => none
  nextRange : Nat := 0
  nextInterval : Nat := 0
  rnd : Nat → Nat
  clock : Clock
  log : List Event := []

variable {σ : Type}

/-! ### Small steps -/

def Client.random (c : Client σ) : Nat × Client σ :=
  (c.rnd 0, { c with rnd := fun n => c.rnd (n + 1) })

def Client.monotonic (c : Client σ) : Time × Client σ :=
  (c.clock.reading 0, { c with clock := c.clock.tail })

def Client.setRange (r : Nat) (f : Range σ → Range σ) (c : Client σ) : Client σ :=
  { c with mem := Function.update c.mem r (f (c.mem r)) }

def Client.node (r : Nat) (c : Client σ) : Node :=
  (((c.mem r).interval.bind fun a => c.ranges.nodes.find? fun n => n.addr = a)).getD
    ⟨0, 0, 0, none⟩

def countOf (low high : Nat) : Nat :=
  (high + 2 ^ 32 + 1 - low) % 2 ^ 32

def Node.count (n : Node) : Nat :=
  countOf n.low n.high

/-- `get_start_address` and `get_end_address`, for an end of an interval. -/
def addressOf (base : UInt64) (place : Nat) : Nat :=
  (base.toNat + place) % 2 ^ 64

/-- `start_timer`; `timer_settime` refuses a time whose nanoseconds are not below a
second. -/
def Client.startTimer (c : Client σ) : Client σ :=
  match c.timerQueue with
  | none => c
  | some r =>
    if (c.mem r).nextActTime.tvNsec < 1000000000 then
      { c with timer := some (c.mem r).nextActTime }
    else c

/-! ### Packets -/

def Client.sendPacket (p : Packet) (c : Client σ) : Client σ :=
  { c with net := c.net ++ [packMaap p], log := c.log ++ [.queued p] }

def intervalPacket (base : UInt64) (destMac srcMac messageType low high : Nat) : Packet :=
  { initPacket destMac srcMac with
    messageType := messageType
    requestedStartAddress := addressOf base low
    requestedCount := countOf low high % 2 ^ 16 }

def Client.rangePacket (c : Client σ) (messageType : Nat) (n : Node) : Packet :=
  intervalPacket c.addressBase c.destMac c.srcMac messageType n.low n.high

def Client.sendProbe (r : Nat) (c : Client σ) : Client σ :=
  c.sendPacket (c.rangePacket maapProbe (c.node r))

def Client.sendAnnounce (r : Nat) (c : Client σ) : Client σ :=
  c.sendPacket (c.rangePacket maapAnnounce (c.node r))

def defendPacket (base : UInt64) (destMac srcMac low high start count destination : Nat) : Packet :=
  let last := (start + count + (2 ^ 64 - 1)) % 2 ^ 64
  let ownStart := addressOf base low
  let ownEnd := addressOf base high
  let conflictStart := if ownStart < start then start else ownStart
  let conflictEnd := if last < ownEnd then last else ownEnd
  { initPacket destMac srcMac with
    da := destination
    messageType := maapDefend
    requestedStartAddress := start
    requestedCount := count
    conflictStartAddress := conflictStart
    conflictCount := (conflictEnd + 2 ^ 64 + 1 - conflictStart) % 2 ^ 16 }

def Client.sendDefend (r start count destination : Nat) (c : Client σ) : Client σ :=
  c.sendPacket (defendPacket c.addressBase c.destMac c.srcMac (c.node r).low (c.node r).high start
    count destination)

/-! ### Notifications -/

def Client.addNotify (sender : σ) (note : Notify) (c : Client σ) : Client σ :=
  { c with notifies := c.notifies ++ [(sender, note)] }

def Client.noteAbout (c : Client σ) (kind : NotifyKind) (id : UInt32) (range : Option Nat)
    (result : NotifyError) : Notify :=
  match range with
  | none => ⟨kind, id, 0, 0, result⟩
  | some r => ⟨kind, id, addressOf c.addressBase (c.node r).low, (c.node r).count, result⟩

def Client.informInitialized (sender : σ) (result : NotifyError) (c : Client σ) : Client σ :=
  c.addNotify sender ⟨.INITIALIZED, -1, c.addressBase.toNat, c.rangeLen.toNat, result⟩

def Client.informAcquiring (r : Nat) (c : Client σ) : Client σ :=
  c.addNotify (c.mem r).sender (c.noteAbout .ACQUIRING (c.mem r).id (some r) .NONE)

def Client.informAcquired (r : Nat) (c : Client σ) : Client σ :=
  c.addNotify (c.mem r).sender (c.noteAbout .ACQUIRED (c.mem r).id (some r) .NONE)

def Client.informNotAcquired (sender : σ) (id : UInt32) (rangeSize : Nat) (result : NotifyError)
    (c : Client σ) : Client σ :=
  c.addNotify sender ⟨.ACQUIRED, id, 0, rangeSize, result⟩

def Client.informReleased (sender : σ) (id : UInt32) (range : Option Nat) (result : NotifyError)
    (c : Client σ) : Client σ :=
  c.addNotify sender (c.noteAbout .RELEASED id range result)

def Client.informStatus (sender : σ) (id : UInt32) (range : Option Nat) (result : NotifyError)
    (c : Client σ) : Client σ :=
  c.addNotify sender (c.noteAbout .STATUS id range result)

def Client.informYielded (sender : σ) (id : UInt32) (range : Option Nat) (result : NotifyError)
    (c : Client σ) : Client σ :=
  c.addNotify sender (c.noteAbout .YIELDED id range result)

/-! ### The timer queue -/

def maapProbeRetransmits : Nat := 3

/-- The next time to act: `base` milliseconds from now and `rand_ms(variation)` more. -/
def Client.setActTime (r base variation : Nat) (c : Client σ) : Client σ :=
  let x := c.random
  let ms := base + (x.1 % (variation - 1) + 1)
  let t := x.2.monotonic
  t.2.setRange r fun range =>
    { range with nextActTime := t.1.add (Time.ofNanos (ms * 1000000)) }

def Client.requeue (r : Nat) (c : Client σ) : Client σ :=
  let q := LinkedQueue.unlink c.nextRange r ⟨c.timerQueue, c.nextTimer⟩
  let q := LinkedQueue.insert c.nextRange
    (fun a => (c.mem a).nextActTime.le (c.mem r).nextActTime) r q
  { c with timerQueue := q.head, nextTimer := q.next }

def Client.scheduleTimer (r : Nat) (c : Client σ) : Client σ :=
  match (c.mem r).state with
  | .PROBING => (c.setActTime r 500 100).requeue r
  | .DEFENDING => (c.setActTime r 30000 2000).requeue r
  | .RELEASED => c.requeue r

def Client.queue (c : Client σ) : List Nat :=
  LinkedQueue.follow c.nextTimer c.nextRange c.timerQueue

/-! ### Intervals -/

def allocInterval (addr start len : Nat) : Node :=
  { addr := addr, low := start, high := intervalEnd start len }

/-- `range_max`: `range_len - 1` in 32 bits. -/
def rangeMax (rangeLen : UInt32) : Nat :=
  (rangeLen.toNat + (2 ^ 32 - 1)) % 2 ^ 32

def Client.tryInterval (start len : Nat) (c : Client σ) : Except Abort (Client σ × Option Node) :=
  let iv := allocInterval c.nextInterval start len
  if iv.high ≤ rangeMax c.rangeLen then
    match c.ranges.insert iv with
    | none => .ok (c, none)
    | some t => .ok ({ c with ranges := t, nextInterval := c.nextInterval + 1 }, some iv)
  else .error .intervalOutsidePool

/-- What `random()` is reduced by: `range_len + 1 - len` in 32 bits. -/
def modulus (rangeLen : UInt32) (len : Nat) : Nat :=
  (rangeLen.toNat + 1 + 2 ^ 32 - len) % 2 ^ 32

def Client.drawOnce (len : Nat) (c : Client σ) : Except Abort (Client σ × Option Node) :=
  if modulus c.rangeLen len = 0 then .error .divisionByZero
  else c.random.2.tryInterval (c.random.1 % modulus c.rangeLen len) len

def Client.drawInterval (len : Nat) : Nat → Client σ → Except Abort (Client σ × Option Node × Nat)
  | 0, c => .ok (c, none, 0)
  | n + 1, c => do
    let x ← c.drawOnce len
    match x.2 with
    | some iv => .ok (x.1, some iv, n)
    | none => drawInterval len n x.1

def Client.attach (r : Nat) (iv : Node) (c : Client σ) : Client σ :=
  { c.setRange r fun range => { range with interval := some iv.addr } with
    ranges := c.ranges.setData iv.addr (some r)
    log := c.log ++ [.assigned r iv.low iv.high] }

/-- Whether `assign_interval` tries the base asked for. -/
def attempts (base : UInt64) (rangeLen : UInt32) (attemptBase len : Nat) : Bool :=
  base.toNat ≤ attemptBase &&
    (attemptBase + len + (2 ^ 64 - 1)) % 2 ^ 64 ≤
      (base.toNat + rangeLen.toNat + (2 ^ 64 - 1)) % 2 ^ 64

def placeOf (base : UInt64) (attemptBase : Nat) : Nat :=
  (attemptBase - base.toNat) % 2 ^ 32

/-- The first attempt of `assign_interval`, at the base asked for. -/
def Client.attemptInterval (attemptBase len : Nat) (c : Client σ) :
    Except Abort (Client σ × Option Node) :=
  if attempts c.addressBase c.rangeLen attemptBase len then
    c.tryInterval (placeOf c.addressBase attemptBase) len
  else .ok (c, none)

/-- `assign_interval`: whether it returns 0. When the last of the thousand draws is the
first that fits, its interval stays in the tree and the function fails. -/
def Client.assignInterval (r attemptBase len : Nat) (c : Client σ) :
    Except Abort (Client σ × Bool) :=
  if c.rangeLen.toNat < len then .ok (c, false)
  else do
    let x ← c.attemptInterval attemptBase len
    match x.2 with
    | some iv => .ok (x.1.attach r iv, true)
    | none =>
      let y ← x.1.drawInterval len 1000
      match y.2.1 with
      | some iv => if y.2.2 = 0 then .ok (y.1, false) else .ok (y.1.attach r iv, true)
      | none => .ok (y.1, false)

/-- The loop of `remove_range_interval` that makes the ranges point to the nodes that
hold them. -/
def fixIntervals (old : Option Nat) : List Node → (Nat → Range σ) → Except Abort (Nat → Range σ)
  | [], mem => .ok mem
  | n :: ns, mem =>
    match n.data with
    | none => .error .orphanNode
    | some r =>
      if old = some r then .error .rangeKept
      else fixIntervals old ns (Function.update mem r { mem r with interval := some n.addr })

def Client.removeRangeInterval (a : Nat) (c : Client σ) : Except Abort (Client σ) :=
  match c.ranges.nodes.find? fun n => n.addr = a with
  | none => .error .nullPointer
  | some n =>
    if n.data.any fun r => (c.mem r).interval ≠ some a then .error .rangeElsewhere
    else do
      let mem ← fixIntervals n.data (c.ranges.remove a).nodes c.mem
      .ok { c with ranges := c.ranges.remove a, mem := mem }

def Client.dropRange (a r : Nat) (c : Client σ) : Except Abort (Client σ) := do
  let c ← c.removeRangeInterval a
  .ok (c.setRange r fun range => { range with state := .RELEASED })

/-! ### Commands -/

def freshRange (id : UInt32) (sender : σ) (now : Time) : Range σ where
  id := id
  state := .PROBING
  counter := maapProbeRetransmits
  overlapping := false
  nextActTime := now
  interval := none
  sender := sender

def Client.newRange (id : UInt32) (sender : σ) (c : Client σ) : Client σ :=
  let t := c.monotonic
  { t.2 with
    nextRange := c.nextRange + 1
    mem := Function.update c.mem c.nextRange (freshRange id sender t.1)
    nextTimer := Function.update c.nextTimer c.nextRange none }

def Client.init (sender : σ) (base : UInt64) (len : UInt32) (c : Client σ) : Client σ :=
  if c.initialized then
    c.informInitialized sender
      (if base = c.addressBase ∧ len = c.rangeLen then .NONE else .ALREADY_INITIALIZED)
  else
    { c with
      addressBase := base, rangeLen := len, ranges := .nil, timerQueue := none, maxid := 0,
      notifies := [], initialized := true }.informInitialized sender .NONE

/-- `maap_reserve_range`; `oom` says that `malloc` fails. -/
def Client.reserve (sender : σ) (attemptBase : UInt64) (length : UInt32) (oom : Bool)
    (c : Client σ) : Except Abort (Client σ) :=
  if !c.initialized then
    .ok (c.informNotAcquired sender (-1) length.toNat .REQUIRES_INITIALIZATION)
  else if 0xFFFF < length.toNat ∨ c.rangeLen.toNat < length.toNat then
    .ok (c.informNotAcquired sender (-1) length.toNat .RESERVE_NOT_AVAILABLE)
  else if oom then .ok (c.informNotAcquired sender (-1) length.toNat .OUT_OF_MEMORY)
  else do
    let r := c.nextRange
    let c := { c with maxid := c.maxid + 1 }.newRange (c.maxid + 1) sender
    let x ← c.assignInterval r attemptBase.toNat length.toNat
    if x.2 then .ok (((x.1.informAcquiring r).scheduleTimer r).startTimer.sendProbe r)
    else .ok (x.1.informNotAcquired sender (-1) length.toNat .RESERVE_NOT_AVAILABLE)

def Client.informBoth [BEq σ] (sender : σ) (id : UInt32) (r : Nat) (c : Client σ) : Client σ :=
  let owner := (c.mem r).sender
  let c := c.informReleased sender id (some r) .NONE
  if sender != owner then c.informReleased owner id (some r) .NONE else c

def Client.release [BEq σ] (sender : σ) (id : UInt32) (c : Client σ) : Except Abort (Client σ) :=
  if !c.initialized then .ok (c.informReleased sender id none .REQUIRES_INITIALIZATION)
  else
    match c.queue.find? fun r => (c.mem r).id = id && (c.mem r).state ≠ .RELEASED with
    | none => .ok (c.informReleased sender id none .RELEASE_INVALID_ID)
    | some r =>
      match (c.mem r).interval with
      | none => .error .nullPointer
      | some a => (c.informBoth sender id r).dropRange a r

def Client.status (sender : σ) (id : UInt32) (c : Client σ) : Client σ :=
  if !c.initialized then c.informStatus sender id none .REQUIRES_INITIALIZATION
  else
    match c.queue.find? fun r => (c.mem r).id = id && (c.mem r).state = .DEFENDING with
    | none => c.informStatus sender id none .RELEASE_INVALID_ID
    | some r => c.informStatus sender id (some r) .NONE

/-! ### Received packets -/

def Client.disown (a : Nat) (c : Client σ) : Client σ :=
  { c with ranges := c.ranges.setData a none }

def Client.restart (n : Node) (r : Nat) (c : Client σ) : Except Abort (Client σ) := do
  let c ← (c.informAcquiring r).removeRangeInterval n.addr
  let c := c.setRange r fun range => { range with counter := maapProbeRetransmits }
  .ok ((c.scheduleTimer r).sendProbe r)

def Client.relocate (n : Node) (r : Nat) (c : Client σ) : Except Abort (Client σ) := do
  let x ← (c.disown n.addr).assignInterval r 0 (n.count % 2 ^ 16)
  if x.2 then x.1.restart n r
  else
    (x.1.informNotAcquired (x.1.mem r).sender (x.1.mem r).id n.count
      .RESERVE_NOT_AVAILABLE).dropRange n.addr r

def Client.yieldInterval (n : Node) (r : Nat) (oom : Bool) (c : Client σ) :
    Except Abort (Client σ) :=
  let sender := (c.mem r).sender
  let id := (c.mem r).id
  if oom then (c.informYielded sender id (some r) .OUT_OF_MEMORY).dropRange n.addr r
  else do
    let new := c.nextRange
    let x ← (c.newRange id sender).assignInterval new 0 (n.count % 2 ^ 16)
    if x.2 then
      let c := (x.1.scheduleTimer new).sendProbe new
      ((c.informYielded sender id (some r) .NONE).informAcquiring new).dropRange n.addr r
    else (x.1.informYielded sender id (some r) .RESERVE_NOT_AVAILABLE).dropRange n.addr r

/-- What `maap_handle_packet` does about one range that overlaps the packet. -/
def Client.resolve (p : Packet) (oom : Bool) (n : Node) (r : Nat) (c : Client σ) :
    Except Abort (Client σ) :=
  match (c.mem r).state with
  | .PROBING =>
    if p.messageType = maapProbe ∧ compareMacAddresses c.srcMac p.sa = true then .ok c
    else c.relocate n r
  | .DEFENDING =>
    if p.messageType = maapProbe then
      .ok (c.sendDefend r p.requestedStartAddress p.requestedCount p.sa)
    else if compareMacAddresses c.srcMac p.sa then .ok c
    else c.yieldInterval n r oom
  | .RELEASED => .ok c

def flagOverlaps : List Node → (Nat → Range σ) → Except Abort (Nat → Range σ)
  | [], mem => .ok mem
  | n :: ns, mem =>
    match n.data with
    | none => .error .nullPointer
    | some r => flagOverlaps ns (Function.update mem r { mem r with overlapping := true })

def findFlagged (mem : Nat → Range σ) : List Node → Except Abort (Node × Nat)
  | [] => .error .noFlaggedRange
  | n :: ns =>
    match n.data with
    | none => .error .nullPointer
    | some r => if (mem r).overlapping then .ok (n, r) else findFlagged mem ns

def Client.resolveLoop (p : Packet) (oom : Bool) (start : Nat) :
    Nat → Client σ → Except Abort (Client σ)
  | 0, c => .ok c
  | k + 1, c => do
    let x ← findFlagged c.mem (c.ranges.nodesFrom start p.requestedCount)
    let c ← (c.setRange x.2 fun range => { range with overlapping := false }).resolve p oom x.1 x.2
    resolveLoop p oom start k c

def Packet.valid (p : Packet) : Bool :=
  p.ethertype = maapType && p.subtype = maapSubtype && p.controlDataLength = 16 &&
    p.version = 0 && maapProbe ≤ p.messageType && p.messageType ≤ maapAnnounce

def Packet.outside (p : Packet) (base : UInt64) (rangeLen : UInt32) : Bool :=
  (p.requestedStartAddress + p.requestedCount + (2 ^ 64 - 1)) % 2 ^ 64 < base.toNat ||
    (base.toNat + rangeLen.toNat + (2 ^ 64 - 1)) % 2 ^ 64 < p.requestedStartAddress

def Packet.offset (p : Packet) (base : UInt64) : Nat :=
  (p.requestedStartAddress + 2 ^ 64 - base.toNat) % 2 ^ 32

def Packet.last (p : Packet) (base : UInt64) : Nat :=
  intervalEnd (p.offset base) p.requestedCount

/-- The nodes that the first loop of `maap_handle_packet` visits. -/
def Client.overlapping (c : Client σ) (p : Packet) : List Node :=
  (c.ranges.nodesFrom (p.offset c.addressBase) p.requestedCount).takeWhile fun n =>
    n.overlaps (p.offset c.addressBase) (p.last c.addressBase)

/-- `maap_handle_packet` for a packet that has been found valid. -/
def Client.handleValid (p : Packet) (oom : Bool) (c : Client σ) : Except Abort (Client σ) :=
  let c := { c with log := c.log ++ [.handled p] }
  if p.outside c.addressBase c.rangeLen then .ok c
  else do
    let nodes := c.overlapping p
    let mem ← flagOverlaps nodes c.mem
    let c ← { c with mem := mem }.resolveLoop p oom (p.offset c.addressBase) nodes.length
    .ok c.startTimer

def Client.handlePacket (stream : List UInt8) (oom : Bool) (c : Client σ) :
    Except Abort (Client σ) :=
  if stream.length < maapPktSize then .ok c
  else if (unpackMaap stream).valid then c.handleValid (unpackMaap stream) oom
  else .ok c

/-- The announcement with which `maap_yield_range` makes a range yield. -/
def Client.yieldPacket (c : Client σ) (n : Node) : Packet :=
  intervalPacket c.addressBase 0x010000000000 0x010000000000 maapAnnounce n.low n.high

/-- `maap_yield_range`; the buffer it packs into is larger than a packet. -/
def Client.yield (sender : σ) (id : UInt32) (oom : Bool) (c : Client σ) :
    Except Abort (Client σ) :=
  if !c.initialized then .ok (c.informYielded sender id none .REQUIRES_INITIALIZATION)
  else
    match c.queue.find? fun r => (c.mem r).id = id && (c.mem r).state = .DEFENDING with
    | none => .ok (c.informYielded sender id none .RELEASE_INVALID_ID)
    | some r => c.handlePacket (packMaap (c.yieldPacket (c.node r))) oom

/-! ### Timers -/

def Client.acquire (r : Nat) (c : Client σ) : Client σ :=
  { c.informAcquired r with log := c.log ++ [Event.acquired r] }.setRange r
    fun range => { range with state := .DEFENDING }

def Client.countDown (r : Nat) (c : Client σ) : Client σ :=
  c.setRange r fun range => { range with counter := range.counter - 1 }

def Client.handleProbeTimer (r : Nat) (c : Client σ) : Client σ :=
  if (c.mem r).counter = 0 then ((c.acquire r).scheduleTimer r).sendAnnounce r
  else ((c.countDown r).scheduleTimer r).sendProbe r

def Client.handleDefendTimer (r : Nat) (c : Client σ) : Client σ :=
  (c.scheduleTimer r).sendAnnounce r

def Client.popTimer (r : Nat) (c : Client σ) : Client σ :=
  { c with
    timerQueue := c.nextTimer r
    nextTimer := Function.update c.nextTimer r none }

/-- What `maap_handle_timer` does for a range whose time has come. -/
def Client.actTimer (r : Nat) (c : Client σ) : Client σ :=
  match (c.mem r).state with
  | .PROBING => (c.popTimer r).handleProbeTimer r
  | .DEFENDING => (c.popTimer r).handleDefendTimer r
  | .RELEASED => c.popTimer r

def Client.timerLoop (now : Time) : Nat → Client σ → Client σ
  | 0, c => c
  | fuel + 1, c =>
    match c.timerQueue with
    | none => c
    | some r => if (c.mem r).nextActTime.le now then timerLoop now fuel (c.actTimer r) else c

def Client.handleTimer (c : Client σ) : Client σ :=
  let t := c.monotonic
  (t.2.timerLoop t.1 c.nextRange).startTimer

/-! ### Runs -/

inductive Op (σ : Type) where
  | init (sender : σ) (base : UInt64) (len : UInt32)
  | reserve (sender : σ) (base : UInt64) (length : UInt32) (oom : Bool)
  | release (sender : σ) (id : UInt32)
  | status (sender : σ) (id : UInt32)
  | yield (sender : σ) (id : UInt32) (oom : Bool)
  | packet (stream : List UInt8) (oom : Bool)
  | timer

def Client.perform [BEq σ] (c : Client σ) : Op σ → Except Abort (Client σ)
  | .init sender base len => .ok (c.init sender base len)
  | .reserve sender base length oom => c.reserve sender base length oom
  | .release sender id => c.release sender id
  | .status sender id => .ok (c.status sender id)
  | .yield sender id oom => c.yield sender id oom
  | .packet stream oom => c.handlePacket stream oom
  | .timer => .ok c.handleTimer

structure Client.Initial (c : Client σ) : Prop where
  ranges : c.ranges = .nil
  timerQueue : c.timerQueue = none
  initialized : c.initialized = false
  notifies : c.notifies = []
  log : c.log = []

def secondsClock : Clock where
  reading := fun i => ⟨i, 0⟩
  normal := fun _ => Nat.succ_pos _
  mono := fun i j h => by
    simp only [Time.le, Bool.or_eq_true, Bool.and_eq_true, decide_eq_true_eq]
    omega

def quietClient (srcMac random : Nat) : Client Nat where
  destMac := 0x91E0F000FF00
  srcMac := srcMac
  mem := fun _ => ⟨0, .RELEASED, 0, false, ⟨0, 0⟩, none, 0⟩
  rnd := fun _ => random
  clock := secondsClock

end Avb4Linux.Maap
