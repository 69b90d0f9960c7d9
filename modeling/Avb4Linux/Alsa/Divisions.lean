import Avb4Linux.Alsa.Adapter

/-!
# Divisions of the sound device

The receive routine divides by numbers of channels and sizes of rings, which only the `prepare`
callbacks set.
-/

namespace Avb4Linux.Alsa

open Lib Fallible

variable {d n q : Nat}

theorem divide_of_ne (n : Nat) (h : d ≠ 0) : divide n d = .ok (n / d) :=
  if_neg h

theorem remainder_of_ne (n : Nat) (h : d ≠ 0) : remainder n d = .ok (n % d) :=
  if_neg h

def Stream.Divides (s : Stream) : Prop :=
  s.channels ≠ 0 ∧ s.buffer_size ≠ 0

instance (s : Stream) : Decidable s.Divides :=
  inferInstanceAs (Decidable (_ ∧ _))

theorem Stream.Divides.size_ne {s : Stream} (h : s.Divides) : s.buffer_size * s.channels ≠ 0 :=
  Nat.mul_ne_zero h.2 h.1

namespace Adapter

variable {a : Adapter} {ring : Nat → U32}

def Divides (a : Adapter) : Prop :=
  (a.capture.started = true → a.capture.Divides) ∧
    a.playback.channels ≠ 0 ∧ (a.playback.started = true → a.playback.Divides)

instance (a : Adapter) : Decidable a.Divides :=
  inferInstanceAs (Decidable (_ ∧ _))

def captured (a : Adapter) (packet : Received) (l : Loop) : Loop :=
  if a.capture.started then
    a.storePacket packet
      (a.capture.counts a.samples_per_packet (a.capture.hw_pointer / a.capture.channels))
      ((l.capture.newptr + a.samples_per_packet * a.capture.channels) %
        (a.capture.buffer_size * a.capture.channels)) l
  else l

def played (a : Adapter) (ring : Nat → U32) (packet : Received) (l : Loop) : Loop :=
  if a.playback.started then
    a.fillPacket ring packet
      (a.playback.counts a.samples_per_packet (a.playback.hw_pointer / a.playback.channels))
      ((l.playback.newptr + a.samples_per_packet * a.playback.channels) %
        (a.playback.buffer_size * a.playback.channels)) l
  else a.fillSilence packet (a.samples_per_packet, 0) l

def handled (a : Adapter) (ring : Nat → U32) (l : Loop) (packet : Received) : Loop :=
  let l := a.played ring packet (a.captured packet l)
  { l with tmp := (l.tmp + 1) % maxDescriptors }

theorem capturePacket_ok (h : a.capture.started = true → a.capture.Divides) (packet : Received)
    (l : Loop) : a.capturePacket packet l = .ok (a.captured packet l) := by
  unfold capturePacket captured
  split
  · rename_i hstarted
    rw [divide_of_ne _ (h hstarted).1, remainder_of_ne _ (h hstarted).size_ne]
    rfl
  · rfl

variable {packet : Received} {l l' : Loop}

theorem playbackPacket_ok (hchannels : a.playback.channels ≠ 0)
    (h : a.playback.started = true → a.playback.Divides) (packet : Received) (l : Loop) :
    a.playbackPacket ring packet l = .ok (a.played ring packet l) := by
  unfold playbackPacket played playbackSplit
  rw [divide_of_ne _ hchannels]
  cases hstarted : a.playback.started with
  | false => rfl
  | true =>
    rw [remainder_of_ne _ (h hstarted).size_ne]
    rfl

theorem receivePacket_ok (h : a.Divides) (l : Loop) (packet : Received) :
    a.receivePacket ring l packet = .ok (a.handled ring l packet) := by
  obtain ⟨hcapture, hchannels, hplayback⟩ := h
  rw [receivePacket, capturePacket_ok hcapture]
  refine (bind_of_ok rfl _).trans ?_
  rw [playbackPacket_ok hchannels hplayback]
  rfl

theorem receive_ok (h : a.Divides) (ring : Nat → U32) (packets : List Received) :
    a.receive ring packets = .ok (a.leave (packets.foldl (a.handled ring) a.enter)) := by
  rw [receive, run_eq_foldl (receivePacket_ok h)]
  rfl

end Adapter

inductive Call where
  | probe (samplerate : Nat)
  | remove
  | openStream (d : Direction)
  | closeStream (d : Direction)
  | prepare (d : Direction) (runtime : Runtime)
  | trigger (d : Direction) (cmd : TriggerCmd)
  | pointer (d : Direction)
  | receive (ring : Nat → U32) (packets : List Received)

namespace Adapter

def call (a : Adapter) : Call → Except Fault Adapter
  | .probe samplerate => .ok (a.probe samplerate).2
  | .remove => .ok a.remove
  | .openStream d => .ok (a.openStream d)
  | .closeStream _ => .ok a
  | .prepare d runtime => .ok (a.prepare d runtime).2
  | .trigger d cmd => .ok (a.trigger d cmd).2
  | .pointer d => do
    let _ ← a.pointer d
    .ok a
  | .receive ring packets => do
    let o ← a.receive ring packets
    .ok o.adapter

def Safe (a : Adapter) : Call → Prop
  | .pointer d => (a.stream d).channels ≠ 0
  | .receive _ packets => packets = [] ∨ a.Divides
  | _ => True

end Adapter

namespace Adapter

variable {a : Adapter}

end Adapter

end Avb4Linux.Alsa
