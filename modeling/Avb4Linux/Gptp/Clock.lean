import Avb4Linux.Lib.Memcmp

/-!
# Clocks and Announce messages

What the best master clock algorithm reads of `IEEE1588Clock`, and the fields of
`PTPMessageAnnounce` (`ptp_message.cpp`, `ieee1588clock.cpp`).
-/

namespace Avb4Linux.Gptp

open Lib

abbrev ClockIdentity := Vector UInt8 8

structure PortIdentity where
  clockId : ClockIdentity
  portNumber : UInt16
  deriving DecidableEq

structure ClockQuality where
  cqClass : UInt8
  clockAccuracy : UInt8
  offsetScaledLogVariance : UInt16
  deriving DecidableEq

structure Timestamp where
  nanoseconds : UInt32
  secondsLs : UInt32
  secondsMs : UInt16
  version : UInt8 := 0xFF
  deriving DecidableEq

def invalidTimestamp : Timestamp := { nanoseconds := 0xC0000000, secondsLs := 0, secondsMs := 0 }

def pdelayPendingTimestamp : Timestamp :=
  { nanoseconds := 0xC0000001, secondsLs := 0, secondsMs := 0 }

structure Clock where
  clockIdentity : ClockIdentity
  priority1 : UInt8
  priority2 : UInt8
  clockQuality : ClockQuality
  grandmasterClockIdentity : ClockIdentity
  grandmasterPriority1 : UInt8
  grandmasterPriority2 : UInt8
  grandmasterClockQuality : ClockQuality
  lastEBestIdentity : ClockIdentity

structure Announce where
  addr : Nat
  sourcePortIdentity : PortIdentity
  stepsRemoved : UInt16
  pathTrace : List ClockIdentity
  grandmasterPriority1 : UInt8
  grandmasterPriority2 : UInt8
  grandmasterClockQuality : ClockQuality
  grandmasterIdentity : ClockIdentity

def priorityVector (priority1 : UInt8) (quality : ClockQuality) (priority2 : UInt8)
    (identity : ClockIdentity) : List UInt8 :=
  [priority1, quality.cqClass, quality.clockAccuracy,
    (quality.offsetScaledLogVariance >>> 8).toUInt8, quality.offsetScaledLogVariance.toUInt8,
    priority2] ++ identity.toList

def Announce.priorityVector (a : Announce) : List UInt8 :=
  Gptp.priorityVector a.grandmasterPriority1 a.grandmasterClockQuality a.grandmasterPriority2
    a.grandmasterIdentity

def Clock.priorityVector (c : Clock) : List UInt8 :=
  Gptp.priorityVector c.priority1 c.clockQuality c.priority2 c.clockIdentity

def Announce.isBetterThan (a b : Announce) : Bool :=
  memcmp a.priorityVector b.priorityVector < 0

def Clock.isBetterThan (c : Clock) (msg : Option Announce) : Bool :=
  match msg with
  | none => true
  | some a => memcmp c.priorityVector a.priorityVector < 0

def Clock.becomeGrandmaster (c : Clock) : Clock :=
  { c with
    grandmasterClockIdentity := c.clockIdentity
    grandmasterPriority1 := c.priority1
    grandmasterPriority2 := c.priority2
    grandmasterClockQuality := c.clockQuality }

def Clock.follow (a : Announce) (c : Clock) : Clock :=
  { c with
    grandmasterClockIdentity := a.grandmasterIdentity
    grandmasterPriority1 := a.grandmasterPriority1
    grandmasterPriority2 := a.grandmasterPriority2
    grandmasterClockQuality := a.grandmasterClockQuality }

/-- The constructor of `PTPMessageAnnounce` for a message to be sent by a port; `addr`
is where the receiver builds it again. -/
def Clock.announce (c : Clock) (portNumber : UInt16) (addr : Nat) : Announce where
  addr := addr
  sourcePortIdentity := ⟨c.clockIdentity, portNumber⟩
  stepsRemoved := 0
  pathTrace := [c.clockIdentity]
  grandmasterPriority1 := c.priority1
  grandmasterPriority2 := c.priority2
  grandmasterClockQuality := c.clockQuality
  grandmasterIdentity := c.grandmasterClockIdentity

theorem length_priorityVector (p1 : UInt8) (q : ClockQuality) (p2 : UInt8) (id : ClockIdentity) :
    (priorityVector p1 q p2 id).length = 14 := by
  simp [priorityVector]

theorem identity_of_priorityVector {p1 p1' : UInt8} {q q' : ClockQuality} {p2 p2' : UInt8}
    {id id' : ClockIdentity} (h : priorityVector p1 q p2 id = priorityVector p1' q' p2' id') :
    id = id' := by
  have hdrop := congrArg (List.drop 6) h
  exact Vector.toList_inj.mp hdrop

theorem Announce.isBetterThan_self (a : Announce) : a.isBetterThan a = false := by
  simp [isBetterThan, memcmp_neg_irrefl]

end Avb4Linux.Gptp
