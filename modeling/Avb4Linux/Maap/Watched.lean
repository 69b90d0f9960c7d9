import Avb4Linux.Lib.Lifetime
import Avb4Linux.Maap.Client

/-!
# The MAAP client and its memory

The operations of the client once more, with what they do to the `Range` and `Interval` objects.
-/

namespace Avb4Linux.Maap

open Lib Lib.Lifetime

variable {σ : Type}

inductive Cell where
  | range (r : Nat)
  | interval (a : Nat)
  deriving DecidableEq, Repr

abbrev Watched (α : Type) : Type := Checked Cell Abort α

/-- The node that `remove_interval` returns, for a node at `a` with these children: its
successor if there are two. -/
def Tree.snipped (a : Nat) (l r : Tree) : Nat :=
  match l with
  | nil => a
  | node .. =>
    match r.takeMin with
    | none => a
    | some x => x.1.addr

def Tree.freed (a : Nat) : Tree → Nat
  | nil => a
  | node l n r =>
    if n.addr = a then snipped a l r
    else if l.nodes.any fun m => m.addr = a then l.freed a else r.freed a

def Tree.cells (t : Tree) : List Cell :=
  t.nodes.map fun n => .interval n.addr

def Node.cells (n : Node) : List Cell :=
  n.data.toList.map .range

def Client.timerCells (r : Nat) (c : Client σ) : List Cell :=
  (r :: c.queue).map .range

def Client.headCells (c : Client σ) : List Cell :=
  c.timerQueue.toList.map .range

def Client.readInterval (r : Nat) (c : Client σ) : Watched Unit := do
  touch (.range r)
  match (c.mem r).interval with
  | none => abort .nullPointer
  | some a => touch (.interval a)

def Client.watchedTry (start len : Nat) (c : Client σ) : Watched (Client σ × Option Node) := do
  let iv := allocInterval c.nextInterval start len
  alloc (.interval c.nextInterval)
  if iv.high ≤ rangeMax c.rangeLen then
    touchAll c.ranges.cells
    match c.ranges.insert iv with
    | none => do
      free (.interval c.nextInterval)
      pure (c, none)
    | some t => pure ({ c with ranges := t, nextInterval := c.nextInterval + 1 }, some iv)
  else abort .intervalOutsidePool

def Client.watchedDrawOnce (len : Nat) (c : Client σ) : Watched (Client σ × Option Node) :=
  if modulus c.rangeLen len = 0 then abort .divisionByZero
  else c.random.2.watchedTry (c.random.1 % modulus c.rangeLen len) len

def Client.watchedDraw (len : Nat) : Nat → Client σ → Watched (Client σ × Option Node × Nat)
  | 0, c => pure (c, none, 0)
  | n + 1, c => do
    let x ← c.watchedDrawOnce len
    match x.2 with
    | some iv => pure (x.1, some iv, n)
    | none => watchedDraw len n x.1

def Client.watchedAttempt (attemptBase len : Nat) (c : Client σ) :
    Watched (Client σ × Option Node) :=
  if attempts c.addressBase c.rangeLen attemptBase len then
    c.watchedTry (placeOf c.addressBase attemptBase) len
  else pure (c, none)

def Client.watchedAttach (r : Nat) (iv : Node) (c : Client σ) : Watched (Client σ × Bool) := do
  touch (.interval iv.addr)
  touch (.range r)
  pure (c.attach r iv, true)

def Client.watchedAssign (r attemptBase len : Nat) (c : Client σ) : Watched (Client σ × Bool) :=
  if c.rangeLen.toNat < len then pure (c, false)
  else do
    let x ← c.watchedAttempt attemptBase len
    match x.2 with
    | some iv => x.1.watchedAttach r iv
    | none =>
      let y ← x.1.watchedDraw len 1000
      match y.2.1 with
      | some iv => if y.2.2 = 0 then pure (y.1, false) else y.1.watchedAttach r iv
      | none => pure (y.1, false)

def watchedFix (old : Option Nat) : List Node → (Nat → Range σ) → Watched (Nat → Range σ)
  | [], mem => pure mem
  | n :: ns, mem =>
    match n.data with
    | none => abort .orphanNode
    | some r =>
      if old = some r then abort .rangeKept
      else do
        touch (.range r)
        watchedFix old ns (Function.update mem r { mem r with interval := some n.addr })

def Client.watchedRemove (a : Nat) (c : Client σ) : Watched (Client σ) := do
  touch (.interval a)
  match c.ranges.nodes.find? fun n => n.addr = a with
  | none => abort .nullPointer
  | some n => do
    touchAll n.cells
    if n.data.any fun r => (c.mem r).interval ≠ some a then abort .rangeElsewhere
    else do
      touchAll c.ranges.cells
      free (.interval (c.ranges.freed a))
      -- `minimum_interval` and `next_interval`
      touchAll (c.ranges.remove a).cells
      let mem ← watchedFix n.data (c.ranges.remove a).nodes c.mem
      pure { c with ranges := c.ranges.remove a, mem := mem }

def Client.watchedDrop (a r : Nat) (c : Client σ) : Watched (Client σ) := do
  let c ← c.watchedRemove a
  touch (.range r)
  pure (c.setRange r fun range => { range with state := .RELEASED })

def Client.watchedReserve (sender : σ) (attemptBase : UInt64) (length : UInt32) (oom : Bool)
    (c : Client σ) : Watched (Client σ) :=
  if !c.initialized then
    pure (c.informNotAcquired sender (-1) length.toNat .REQUIRES_INITIALIZATION)
  else if 0xFFFF < length.toNat ∨ c.rangeLen.toNat < length.toNat then
    pure (c.informNotAcquired sender (-1) length.toNat .RESERVE_NOT_AVAILABLE)
  else if oom then pure (c.informNotAcquired sender (-1) length.toNat .OUT_OF_MEMORY)
  else do
    let r := c.nextRange
    alloc (.range r)
    let c := { c with maxid := c.maxid + 1 }.newRange (c.maxid + 1) sender
    let x ← c.watchedAssign r attemptBase.toNat length.toNat
    if x.2 then
      x.1.readInterval r
      let c := x.1.informAcquiring r
      touchAll (c.timerCells r)
      let c := c.scheduleTimer r
      touchAll c.headCells
      let c := c.startTimer
      c.readInterval r
      pure (c.sendProbe r)
    else
      free (.range r)
      pure (x.1.informNotAcquired sender (-1) length.toNat .RESERVE_NOT_AVAILABLE)

def Client.watchedRelease [BEq σ] (sender : σ) (id : UInt32) (c : Client σ) :
    Watched (Client σ) :=
  if !c.initialized then pure (c.informReleased sender id none .REQUIRES_INITIALIZATION)
  else do
    touchAll (c.queue.map .range)
    match c.queue.find? fun r => (c.mem r).id = id && (c.mem r).state ≠ .RELEASED with
    | none => pure (c.informReleased sender id none .RELEASE_INVALID_ID)
    | some r => do
      c.readInterval r
      match (c.mem r).interval with
      | none => abort .nullPointer
      | some a => (c.informBoth sender id r).watchedDrop a r

def Client.watchedStatus (sender : σ) (id : UInt32) (c : Client σ) : Watched (Client σ) :=
  if !c.initialized then pure (c.informStatus sender id none .REQUIRES_INITIALIZATION)
  else do
    touchAll (c.queue.map .range)
    match c.queue.find? fun r => (c.mem r).id = id && (c.mem r).state = .DEFENDING with
    | none => pure (c.informStatus sender id none .RELEASE_INVALID_ID)
    | some r => do
      c.readInterval r
      pure (c.informStatus sender id (some r) .NONE)

def Client.watchedRestart (n : Node) (r : Nat) (c : Client σ) : Watched (Client σ) := do
  c.readInterval r
  let c ← (c.informAcquiring r).watchedRemove n.addr
  let c := c.setRange r fun range => { range with counter := maapProbeRetransmits }
  touchAll (c.timerCells r)
  let c := c.scheduleTimer r
  c.readInterval r
  pure (c.sendProbe r)

def Client.watchedRelocate (n : Node) (r : Nat) (c : Client σ) : Watched (Client σ) := do
  touch (.interval n.addr)
  let x ← (c.disown n.addr).watchedAssign r 0 (n.count % 2 ^ 16)
  if x.2 then x.1.watchedRestart n r
  else
    touch (.range r)
    (x.1.informNotAcquired (x.1.mem r).sender (x.1.mem r).id n.count
      .RESERVE_NOT_AVAILABLE).watchedDrop n.addr r

def Client.watchedYield (n : Node) (r : Nat) (oom : Bool) (c : Client σ) : Watched (Client σ) :=
  let sender := (c.mem r).sender
  let id := (c.mem r).id
  if oom then do
    touch (.interval n.addr)
    c.readInterval r
    (c.informYielded sender id (some r) .OUT_OF_MEMORY).watchedDrop n.addr r
  else do
    let new := c.nextRange
    touch (.interval n.addr)
    alloc (.range new)
    touch (.range r)
    let x ← (c.newRange id sender).watchedAssign new 0 (n.count % 2 ^ 16)
    if x.2 then
      touchAll (x.1.timerCells new)
      let c := x.1.scheduleTimer new
      c.readInterval new
      let c := c.sendProbe new
      c.readInterval r
      let c := c.informYielded sender id (some r) .NONE
      c.readInterval new
      (c.informAcquiring new).watchedDrop n.addr r
    else
      x.1.readInterval r
      free (.range new)
      (x.1.informYielded sender id (some r) .RESERVE_NOT_AVAILABLE).watchedDrop n.addr r

def Client.watchedResolve (p : Packet) (oom : Bool) (n : Node) (r : Nat) (c : Client σ) :
    Watched (Client σ) := do
  touch (.range r)
  match (c.mem r).state with
  | .PROBING =>
    if p.messageType = maapProbe ∧ compareMacAddresses c.srcMac p.sa = true then pure c
    else c.watchedRelocate n r
  | .DEFENDING =>
    if p.messageType = maapProbe then do
      c.readInterval r
      pure (c.sendDefend r p.requestedStartAddress p.requestedCount p.sa)
    else if compareMacAddresses c.srcMac p.sa then pure c
    else c.watchedYield n r oom
  | .RELEASED => pure c

def watchedFlag : List Node → (Nat → Range σ) → Watched (Nat → Range σ)
  | [], mem => pure mem
  | n :: ns, mem =>
    match n.data with
    | none => abort .nullPointer
    | some r => do
      touch (.range r)
      watchedFlag ns (Function.update mem r { mem r with overlapping := true })

def watchedFind (mem : Nat → Range σ) : List Node → Watched (Node × Nat)
  | [] => abort .noFlaggedRange
  | n :: ns =>
    match n.data with
    | none => abort .nullPointer
    | some r => do
      touch (.range r)
      if (mem r).overlapping then pure (n, r) else watchedFind mem ns

def Client.watchedLoop (p : Packet) (oom : Bool) (start : Nat) :
    Nat → Client σ → Watched (Client σ)
  | 0, c => pure c
  | k + 1, c => do
    touchAll c.ranges.cells
    let x ← watchedFind c.mem (c.ranges.nodesFrom start p.requestedCount)
    let c ← (c.setRange x.2 fun range => { range with overlapping := false }).watchedResolve p oom
      x.1 x.2
    watchedLoop p oom start k c

def Client.watchedValid (p : Packet) (oom : Bool) (c : Client σ) : Watched (Client σ) :=
  let c := { c with log := c.log ++ [.handled p] }
  if p.outside c.addressBase c.rangeLen then pure c
  else do
    let nodes := c.overlapping p
    touchAll c.ranges.cells
    let mem ← watchedFlag nodes c.mem
    let c ← { c with mem := mem }.watchedLoop p oom (p.offset c.addressBase) nodes.length
    touchAll c.headCells
    pure c.startTimer

def Client.watchedPacket (stream : List UInt8) (oom : Bool) (c : Client σ) : Watched (Client σ) :=
  if stream.length < maapPktSize then pure c
  else if (unpackMaap stream).valid then c.watchedValid (unpackMaap stream) oom
  else pure c

def Client.watchedYieldRange (sender : σ) (id : UInt32) (oom : Bool) (c : Client σ) :
    Watched (Client σ) :=
  if !c.initialized then pure (c.informYielded sender id none .REQUIRES_INITIALIZATION)
  else do
    touchAll (c.queue.map .range)
    match c.queue.find? fun r => (c.mem r).id = id && (c.mem r).state = .DEFENDING with
    | none => pure (c.informYielded sender id none .RELEASE_INVALID_ID)
    | some r => do
      c.readInterval r
      c.watchedPacket (packMaap (c.yieldPacket (c.node r))) oom

def Client.watchedProbeTimer (r : Nat) (c : Client σ) : Watched (Client σ) :=
  if (c.mem r).counter = 0 then do
    c.readInterval r
    let c := c.acquire r
    touchAll (c.timerCells r)
    let c := c.scheduleTimer r
    c.readInterval r
    pure (c.sendAnnounce r)
  else do
    let c := c.countDown r
    touchAll (c.timerCells r)
    let c := c.scheduleTimer r
    c.readInterval r
    pure (c.sendProbe r)

def Client.watchedDefendTimer (r : Nat) (c : Client σ) : Watched (Client σ) := do
  touchAll (c.timerCells r)
  let c := c.scheduleTimer r
  c.readInterval r
  pure (c.sendAnnounce r)

def Client.watchedAct (r : Nat) (c : Client σ) : Watched (Client σ) := do
  touch (.range r)
  match (c.mem r).state with
  | .PROBING => (c.popTimer r).watchedProbeTimer r
  | .DEFENDING => (c.popTimer r).watchedDefendTimer r
  | .RELEASED => do
    free (.range r)
    pure (c.popTimer r)

def Client.watchedTimerLoop (now : Time) : Nat → Client σ → Watched (Client σ)
  | 0, c => pure c
  | fuel + 1, c =>
    match c.timerQueue with
    | none => pure c
    | some r => do
      touch (.range r)
      if (c.mem r).nextActTime.le now then
        let c ← c.watchedAct r
        watchedTimerLoop now fuel c
      else pure c

def Client.watchedTimer (c : Client σ) : Watched (Client σ) := do
  let t := c.monotonic
  let c ← t.2.watchedTimerLoop t.1 c.nextRange
  touchAll c.headCells
  pure c.startTimer

def Client.watchedPerform [BEq σ] (c : Client σ) : Op σ → Watched (Client σ)
  | .init sender base len => pure (c.init sender base len)
  | .reserve sender base length oom => c.watchedReserve sender base length oom
  | .release sender id => c.watchedRelease sender id
  | .status sender id => c.watchedStatus sender id
  | .yield sender id oom => c.watchedYieldRange sender id oom
  | .packet stream oom => c.watchedPacket stream oom
  | .timer => c.watchedTimer

def Client.watchedRun [BEq σ] : Client σ → List (Op σ) → Watched (Client σ)
  | c, [] => pure c
  | c, op :: ops => do
    let c ← c.watchedPerform op
    watchedRun c ops

def Client.clearRanges : Nat → Client σ → Except Abort (Client σ)
  | 0, c => .ok c
  | fuel + 1, c =>
    match c.ranges with
    | .nil => .ok c
    | .node _ n _ => do
      let c ← c.removeRangeInterval n.addr
      clearRanges fuel c

def Client.closed (c : Client σ) : Client σ :=
  { c with timer := none, net := [], notifies := [], initialized := false }

def Client.deinit (c : Client σ) : Except Abort (Client σ) :=
  if c.initialized then do
    let c ← { c with timerQueue := none }.clearRanges c.ranges.nodes.length
    .ok c.closed
  else .ok c

def Client.watchedClearQueue : Nat → Client σ → Watched (Client σ)
  | 0, c => pure c
  | fuel + 1, c =>
    match c.timerQueue with
    | none => pure c
    | some r => do
      touch (.range r)
      if (c.mem r).state = .RELEASED then
        free (.range r)
        watchedClearQueue fuel { c with timerQueue := c.nextTimer r }
      else watchedClearQueue fuel { c with timerQueue := c.nextTimer r }

def freeRange : Option Nat → Watched Unit
  | none => pure ()
  | some r => free (.range r)

def Client.watchedClearRanges : Nat → Client σ → Watched (Client σ)
  | 0, c => pure c
  | fuel + 1, c =>
    match c.ranges with
    | .nil => pure c
    | .node _ n _ => do
      touch (.interval n.addr)
      let c ← c.watchedRemove n.addr
      freeRange n.data
      watchedClearRanges fuel c

def Client.watchedDeinit (c : Client σ) : Watched (Client σ) :=
  if c.initialized then do
    let c ← c.watchedClearQueue c.nextRange
    let c ← c.watchedClearRanges c.ranges.nodes.length
    pure c.closed
  else pure c

def Client.lifetime [BEq σ] (c : Client σ) (ops : List (Op σ)) : Watched (Client σ) := do
  let c ← c.watchedRun ops
  c.watchedDeinit

end Avb4Linux.Maap
