import Avb4Linux.Lib.Fallible

/-!
# The sound device of the network driver

The callbacks and the receive routine of `alsa.c`.
-/

namespace Avb4Linux.Alsa

open Lib

abbrev U32 := BitVec 32

inductive Direction where
  | capture | playback
deriving DecidableEq, Repr

structure Stream where
  started : Bool := false
  channels : Nat := 0
  period_size : Nat := 0
  buffer_size : Nat := 0
  hw_pointer : Nat := 0
  cnt : Nat := 0
deriving DecidableEq, Repr

/-- What `alsa.c` uses of `igb_adapter`. Without values it is zero-initialised. -/
structure Adapter where
  rate : Nat := 0
  samples_per_packet : Nat := 0
  capture : Stream := {}
  playback : Stream := {}
  next_to_clean : Nat := 0
deriving DecidableEq, Repr

namespace Adapter

def stream (a : Adapter) : Direction → Stream
  | .capture => a.capture
  | .playback => a.playback

def setStream (a : Adapter) (s : Stream) : Direction → Adapter
  | .capture => { a with capture := s }
  | .playback => { a with playback := s }

end Adapter

inductive Fault where
  | divisionByZero
deriving DecidableEq, Repr

def divide (n d : Nat) : Except Fault Nat :=
  if d = 0 then .error .divisionByZero else .ok (n / d)

def remainder (n d : Nat) : Except Fault Nat :=
  if d = 0 then .error .divisionByZero else .ok (n % d)

structure Runtime where
  rate : Nat
  channels : Nat
  period_size : Nat
  buffer_size : Nat
deriving DecidableEq, Repr

inductive TriggerCmd where
  | start | stop | other
deriving DecidableEq, Repr

def eInval : Int := 22

def packetSamples : Nat → Option Nat
  | 44100 | 48000 => some 6
  | 88200 | 96000 => some 12
  | 176400 | 192000 => some 24
  | _ => none

namespace Adapter

def probe (samplerate : Nat) (a : Adapter) : Int × Adapter :=
  let a := { a with
    capture := { a.capture with started := false }
    playback := { a.playback with started := false } }
  match packetSamples samplerate with
  | some n => (0, { a with samples_per_packet := n, rate := samplerate })
  | none => (-1, a)

def remove (a : Adapter) : Adapter :=
  { a with
    capture := { a.capture with started := false }
    playback := { a.playback with started := false } }

def openStream (d : Direction) (a : Adapter) : Adapter :=
  a.setStream { a.stream d with started := false } d

def prepare (d : Direction) (runtime : Runtime) (a : Adapter) : Int × Adapter :=
  if runtime.rate ≠ a.rate then (-1, a)
  else
    let a := { a with rate := runtime.rate }
    let a := a.setStream { a.stream d with
      channels := runtime.channels
      period_size := runtime.period_size
      buffer_size := runtime.buffer_size
      hw_pointer := 0
      cnt := 0 } d
    (0, { a with samples_per_packet := (packetSamples a.rate).getD a.samples_per_packet })

def trigger (d : Direction) (cmd : TriggerCmd) (a : Adapter) : Int × Adapter :=
  match cmd with
  | .start => (0, a.setStream { a.stream d with started := true } d)
  | .stop => (0, a.setStream { a.stream d with started := false } d)
  | .other => (-eInval, a)

def pointer (d : Direction) (a : Adapter) : Except Fault Nat :=
  divide (a.stream d).hw_pointer (a.stream d).channels

end Adapter

def maxDescriptors : Nat := 256

def presentationTimeOffset : U32 := 300000

def ntohl (x : U32) : U32 :=
  x.extractLsb' 0 8 ++ x.extractLsb' 8 8 ++ x.extractLsb' 16 8 ++ x.extractLsb' 24 8

structure Received where
  flags1 : BitVec 8
  sequence_number : BitVec 8
  timestamp : U32
  data_block_continuity : BitVec 8
  audio_data : Nat → U32

structure Sent where
  flags1 : BitVec 8
  sequence_number : BitVec 8
  timestamp : U32
  data_block_continuity : BitVec 8
  audio_data : List U32
deriving DecidableEq

def fromPacket (data : U32) : U32 :=
  ntohl (data >>> 8)

def toPacket (data : U32) : U32 :=
  ntohl ((data >>> 8) ||| 0x40000000#32)

def silence : U32 :=
  ntohl (0#32 ||| 0x40000000#32)

/-- `count1` and `count2`: how many of the samples of a packet lie before the end of the
buffer, and how many come after it. -/
def Stream.counts (s : Stream) (samples_per_packet tmp : Nat) : Nat × Nat :=
  if tmp + samples_per_packet > s.buffer_size then
    let count2 := tmp + samples_per_packet - s.buffer_size
    (samples_per_packet - count2, count2)
  else (samples_per_packet, 0)

def Stream.nextAddr (s : Stream) (count : Nat × Nat) (addr : Nat) : Nat :=
  if count.2 = 0 then addr + count.1 * s.channels else count.2 * s.channels

/-- The places a packet is copied to or from: one loop from the address on and one from the
start of the ring. -/
def Stream.places (s : Stream) (count : Nat × Nat) (addr : Nat) : List Nat :=
  (List.range (count.1 * s.channels)).map (addr + ·) ++ List.range (count.2 * s.channels)

/-- The local variables of the receive routine for one direction, with the hardware pointer,
which it moves on at every packet. -/
structure Cursor where
  addr : Nat
  newptr : Nat
  hw_pointer : Nat
  cnt : Nat
deriving DecidableEq

structure Loop where
  tmp : Nat
  capture : Cursor
  playback : Cursor
  writes : List (Nat × U32) := []
  reads : List Nat := []
  sent : List Sent := []
deriving DecidableEq

def Stream.cursor (s : Stream) : Cursor :=
  { addr := s.hw_pointer, newptr := s.hw_pointer, hw_pointer := s.hw_pointer, cnt := s.cnt }

def Cursor.moveOn (c : Cursor) (addr newptr samples_per_packet : Nat) : Cursor :=
  { addr, newptr, hw_pointer := newptr, cnt := c.cnt + samples_per_packet }

namespace Adapter

def enter (a : Adapter) : Loop :=
  { tmp := a.next_to_clean, capture := a.capture.cursor, playback := a.playback.cursor }

def playbackSplit (a : Adapter) (tmp1 : Nat) : Nat × Nat :=
  if a.playback.started then a.playback.counts a.samples_per_packet tmp1
  else (a.samples_per_packet, 0)

def storePacket (a : Adapter) (packet : Received) (count : Nat × Nat) (newptr : Nat) (l : Loop) :
    Loop :=
  let channels := a.capture.channels
  { l with
    writes := l.writes ++
      (List.range (count.1 * channels)).map
        (fun j => (l.capture.addr + j, fromPacket (packet.audio_data j))) ++
      (List.range (count.2 * channels)).map
        (fun j => (j, fromPacket (packet.audio_data (j + count.1 * channels))))
    capture := l.capture.moveOn (a.capture.nextAddr count l.capture.addr) newptr
      a.samples_per_packet }

def capturePacket (a : Adapter) (packet : Received) (l : Loop) : Except Fault Loop :=
  if a.capture.started then do
    -- the position on entry, also for the packets after the first one
    let tmp ← divide a.capture.hw_pointer a.capture.channels
    let newptr ← remainder (l.capture.newptr + a.samples_per_packet * a.capture.channels)
      (a.capture.buffer_size * a.capture.channels)
    .ok (a.storePacket packet (a.capture.counts a.samples_per_packet tmp) newptr l)
  else .ok l

def answer (packet : Received) (audio_data : List U32) : Sent :=
  { flags1 := packet.flags1
    sequence_number := packet.sequence_number
    timestamp := ntohl (ntohl packet.timestamp + presentationTimeOffset)
    data_block_continuity := packet.data_block_continuity
    audio_data }

def fillPacket (a : Adapter) (ring : Nat → U32) (packet : Received) (count : Nat × Nat)
    (newptr : Nat) (l : Loop) : Loop :=
  let places := a.playback.places count l.playback.addr
  { l with
    reads := l.reads ++ places
    sent := l.sent ++ [answer packet (places.map fun place => toPacket (ring place))]
    playback := l.playback.moveOn (a.playback.nextAddr count l.playback.addr) newptr
      a.samples_per_packet }

def fillSilence (a : Adapter) (packet : Received) (count : Nat × Nat) (l : Loop) : Loop :=
  { l with
    sent := l.sent ++
      [answer packet (List.replicate ((count.1 + count.2) * a.playback.channels) silence)] }

def playbackPacket (a : Adapter) (ring : Nat → U32) (packet : Received) (l : Loop) :
    Except Fault Loop := do
  let tmp1 ← divide a.playback.hw_pointer a.playback.channels
  let count := a.playbackSplit tmp1
  if a.playback.started then
    let newptr ← remainder (l.playback.newptr + a.samples_per_packet * a.playback.channels)
      (a.playback.buffer_size * a.playback.channels)
    .ok (a.fillPacket ring packet count newptr l)
  else .ok (a.fillSilence packet count l)

def receivePacket (a : Adapter) (ring : Nat → U32) (l : Loop) (packet : Received) :
    Except Fault Loop := do
  let l ← a.capturePacket packet l
  let l ← a.playbackPacket ring packet l
  .ok { l with tmp := (l.tmp + 1) % maxDescriptors }

end Adapter

def Stream.settle (s : Stream) (c : Cursor) : Bool × Stream :=
  if s.started && c.cnt ≥ s.period_size then
    (true, { s with hw_pointer := c.hw_pointer, cnt := c.cnt - s.period_size })
  else (false, { s with hw_pointer := c.hw_pointer, cnt := c.cnt })

structure Outcome where
  adapter : Adapter
  writes : List (Nat × U32)
  reads : List Nat
  sent : List Sent
  captureElapsed : Bool
  playbackElapsed : Bool
deriving DecidableEq

namespace Adapter

def leave (a : Adapter) (l : Loop) : Outcome :=
  let capture := a.capture.settle l.capture
  let playback := a.playback.settle l.playback
  { adapter := { a with
      capture := capture.2
      playback := playback.2
      next_to_clean := l.tmp }
    writes := l.writes
    reads := l.reads
    sent := l.sent
    captureElapsed := capture.1
    playbackElapsed := playback.1 }

/-- `snd_avb_receive`, with the packets whose descriptors are ready and the memory from the
start of the playback ring on. -/
def receive (a : Adapter) (ring : Nat → U32) (packets : List Received) : Except Fault Outcome := do
  let l ← Fallible.run (a.receivePacket ring) a.enter packets
  .ok (a.leave l)

end Adapter

end Avb4Linux.Alsa
