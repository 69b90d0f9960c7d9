import Avb4Linux.Alsa.Divisions
import Avb4Linux.Lib.Ring
import Mathlib.Tactic.IntervalCases

/-!
# The rings of the sound device

A call keeps two accounts of a position: the hardware pointer, taken modulo the size of the
ring at every packet, and the address of the samples, which goes back only if a packet is split.
-/

namespace Avb4Linux.Alsa

open Lib List Nat

theorem getLsbD_ntohl (x : U32) {i : Nat} (hi : i < 32) :
    (ntohl x).getLsbD i = x.getLsbD (24 - i / 8 * 8 + i % 8) := by
  unfold ntohl
  grind

theorem ntohl_ntohl (x : U32) : ntohl (ntohl x) = x := by
  apply BitVec.eq_of_getLsbD_eq
  grind [getLsbD_ntohl]

theorem fromPacket_eq (x : U32) : fromPacket x = (ntohl x).setWidth 24 ++ 0#8 := by
  apply BitVec.eq_of_getLsbD_eq
  intro i hi
  rw [fromPacket, getLsbD_ntohl _ hi, BitVec.getLsbD_ushiftRight, BitVec.getLsbD_append]
  grind [BitVec.getLsbD_setWidth, getLsbD_ntohl]

theorem ntohl_toPacket (x : U32) : ntohl (toPacket x) = 0x40#8 ++ x.extractLsb' 8 24 := by
  rw [toPacket, ntohl_ntohl]
  apply BitVec.eq_of_getLsbD_eq
  intro i hi
  rw [BitVec.getLsbD_or, BitVec.getLsbD_ushiftRight, BitVec.getLsbD_append]
  split
  · rename_i hlow
    have hlabel : (0x40000000#32).getLsbD i = false := by
      interval_cases i <;> rfl
    grind
  · rename_i hlow
    have hlabel : (0x40000000#32).getLsbD i = (0x40#8).getLsbD (i - 24) := by
      interval_cases i <;> first | rfl | omega
    rw [hlabel, BitVec.getLsbD_of_ge x _ (by omega), Bool.false_or]

theorem ntohl_silence : ntohl silence = 0x40#8 ++ 0#24 := by
  rfl

namespace Stream

def size (s : Stream) : Nat :=
  s.buffer_size * s.channels

def walk (s : Stream) (count : Nat × Nat) : Nat → Nat → List Nat
  | 0, _ => []
  | n + 1, addr => s.places count addr ++ s.walk count n (s.nextAddr count addr)

def ahead (s : Stream) (samples_per_packet n : Nat) : List Nat :=
  Ring.positions s.size s.hw_pointer (n * (samples_per_packet * s.channels))

def split (s : Stream) (samples_per_packet : Nat) : Nat × Nat :=
  s.counts samples_per_packet (s.hw_pointer / s.channels)

structure Holds (s : Stream) (samples_per_packet : Nat) : Prop where
  channels_pos : 0 < s.channels
  packet_le : samples_per_packet ≤ s.buffer_size
  inside : s.hw_pointer < s.size

/-- The `n` packets end before the end of the ring, or the first one is split at a frame and
there is only this one, or every packet fills the ring. -/
def Fits (s : Stream) (samples_per_packet n : Nat) : Prop :=
  n = 0 ∨ s.hw_pointer + n * (samples_per_packet * s.channels) ≤ s.size ∨
    (s.buffer_size < s.hw_pointer / s.channels + samples_per_packet ∧
      s.hw_pointer % s.channels = 0 ∧ (n = 1 ∨ samples_per_packet = s.buffer_size))

instance (s : Stream) (samples_per_packet n : Nat) : Decidable (s.Fits samples_per_packet n) :=
  inferInstanceAs (Decidable (_ ∨ _))

variable {s : Stream} {spp n : Nat}

theorem Holds.size_pos (h : s.Holds spp) : 0 < s.size :=
  Nat.zero_lt_of_lt h.inside

theorem Holds.divides (h : s.Holds spp) : s.Divides := by
  have hsize := h.size_pos
  refine ⟨ne_of_gt h.channels_pos, ?_⟩
  grind [size, zero_mul]

theorem Holds.frame_lt (h : s.Holds spp) : s.hw_pointer / s.channels < s.buffer_size := by
  apply Nat.div_lt_of_lt_mul
  rw [Nat.mul_comm]
  exact h.inside

theorem split_before (h : s.hw_pointer / s.channels + spp ≤ s.buffer_size) :
    s.split spp = (spp, 0) :=
  if_neg (Nat.not_lt.mpr h)

theorem Holds.split_across (h : s.Holds spp)
    (hlt : s.buffer_size < s.hw_pointer / s.channels + spp) :
    s.split spp = (s.buffer_size - s.hw_pointer / s.channels,
      s.hw_pointer / s.channels + spp - s.buffer_size) := by
  have hframe := h.frame_lt
  refine (if_pos hlt).trans ?_
  congr 1
  omega

theorem Holds.split_add (h : s.Holds spp) : (s.split spp).1 + (s.split spp).2 = spp := by
  grind [frame_lt, lt_or_ge, split_across, split_before]

theorem length_places (count : Nat × Nat) (addr : Nat) :
    (s.places count addr).length = (count.1 + count.2) * s.channels := by
  grind [places, add_mul]

theorem length_walk (count : Nat × Nat) (n addr : Nat) :
    (s.walk count n addr).length = n * ((count.1 + count.2) * s.channels) := by
  induction n generalizing addr with
  | zero => rw [walk, length_nil, zero_mul]
  | succ n ih => rw [walk, length_append, length_places, ih, succ_mul, add_comm]

theorem walk_before (c n addr : Nat) :
    s.walk (c, 0) n addr = (List.range (n * (c * s.channels))).map (addr + ·) := by
  induction n generalizing addr with
  | zero => rw [walk, zero_mul, range_zero, map_nil]
  | succ n ih =>
    have hplaces : s.places (c, 0) addr = (List.range (c * s.channels)).map (addr + ·) := by
      rw [places, zero_mul, range_zero, append_nil]
    rw [walk, hplaces, ih, succ_mul, add_comm (n * _), range_add, map_append,
      map_map]
    congr 2
    funext j
    exact add_assoc _ _ _

theorem Holds.right_before (h : s.Holds spp)
    (hle : s.hw_pointer / s.channels + spp ≤ s.buffer_size) :
    s.walk (s.split spp) n s.hw_pointer = s.ahead spp n ↔
      s.hw_pointer + n * (spp * s.channels) ≤ s.size := by
  have hsize := h.size_pos
  have hinside := h.inside
  rw [split_before hle, walk_before, ahead]
  constructor
  · intro heq
    by_contra hgt
    -- the place at the end of the ring is outside it
    have hj : s.size - s.hw_pointer < n * (spp * s.channels) := by omega
    have hat := congrArg (fun places => places[s.size - s.hw_pointer]?) heq
    simp only [Ring.getElem?_positions hj, List.getElem?_map, List.getElem?_range hj,
      Option.map_some, Option.some.injEq] at hat
    rw [Nat.add_sub_cancel' hinside.le, Nat.mod_self] at hat
    omega
  · intro hle
    rw [Ring.positions_of_le hle]

/-- The parts of a packet that is split, in samples. The first one ends where the ring ends if
the position is at a frame, and beyond it otherwise. -/
structure Parts (s : Stream) (spp first second : Nat) : Prop where
  first_eq : (s.split spp).1 * s.channels = first
  second_eq : (s.split spp).2 * s.channels = second
  second_pos : 0 < second
  sum_eq : first + second = spp * s.channels
  end_eq : s.hw_pointer + first = s.size + s.hw_pointer % s.channels
  next_eq (addr : Nat) : s.nextAddr (s.split spp) addr = second

theorem Holds.parts (h : s.Holds spp) (hlt : s.buffer_size < s.hw_pointer / s.channels + spp) :
    ∃ first second, s.Parts spp first second := by
  have hframe := h.frame_lt
  have hsplit := h.split_across hlt
  have hdiv := div_add_mod s.hw_pointer s.channels
  have hsize : s.size = s.hw_pointer / s.channels * s.channels +
      (s.buffer_size - s.hw_pointer / s.channels) * s.channels := by
    rw [← add_mul, size]
    congr 1
    omega
  refine ⟨_, _, rfl, rfl, ?_, ?_, ?_, ?_⟩
  · rw [hsplit]
    exact mul_pos (by dsimp only; omega) h.channels_pos
  · rw [← add_mul, h.split_add]
  · rw [hsplit]
    dsimp only
    rw [mul_comm] at hdiv
    omega
  · intro addr
    rw [hsplit]
    exact if_neg (by dsimp only; omega)

theorem getElem?_places_second (count : Nat × Nat) (addr : Nat) (h : 0 < count.2 * s.channels) :
    (s.places count addr)[count.1 * s.channels]? = some 0 := by
  grind [range, places, getElem, le_of_eq]

theorem getElem?_places_first {count : Nat × Nat} (addr : Nat) {j : Nat}
    (h : j < count.1 * s.channels) : (s.places count addr)[j]? = some (addr + j) := by
  grind [places, getElem]

section Across

variable {first second : Nat} (h : s.Holds spp) (hparts : s.Parts spp first second)

include h hparts

theorem Holds.length_places_split (addr : Nat) :
    (s.places (s.split spp) addr).length = first + second := by
  rw [length_places, h.split_add, hparts.sum_eq]

theorem Holds.second_le : second ≤ s.hw_pointer := by
  have hle : spp * s.channels ≤ s.size := mul_le_mul_right s.channels h.packet_le
  have hsum := hparts.sum_eq
  have hend := hparts.end_eq
  omega

theorem Holds.places_aligned (hr : s.hw_pointer % s.channels = 0) :
    s.places (s.split spp) s.hw_pointer =
      Ring.positions s.size s.hw_pointer (spp * s.channels) := by
  have hinside := h.inside
  have hsecond := h.second_le hparts
  have hend := hparts.end_eq
  rw [← hparts.sum_eq, Ring.positions_wrap (by omega) (by omega), places, hparts.first_eq,
    hparts.second_eq]

theorem Holds.right_of_full (hr : s.hw_pointer % s.channels = 0) (hfull : spp = s.buffer_size)
    (n : Nat) : s.walk (s.split spp) n s.hw_pointer = s.ahead spp n := by
  have hpacket : spp * s.channels = s.size := by rw [hfull, size]
  have hsum := hparts.sum_eq
  have hend := hparts.end_eq
  have hback : second = s.hw_pointer := by omega
  unfold ahead
  induction n with
  | zero => rw [walk, zero_mul, Ring.positions, range_zero, map_nil]
  | succ n ih =>
    rw [walk, hparts.next_eq, hback, ih, h.places_aligned hparts hr, succ_mul,
      Nat.add_comm (n * _), Ring.positions_add, hpacket, Ring.positions_add_size]

theorem Holds.not_right_of_unaligned (hr : s.hw_pointer % s.channels ≠ 0) :
    s.walk (s.split spp) (n + 1) s.hw_pointer ≠ s.ahead spp (n + 1) := by
  intro heq
  have hinside := h.inside
  have hend := hparts.end_eq
  have hsum := hparts.sum_eq
  -- the first part goes on beyond the end of the ring
  have hj : s.size - s.hw_pointer < first := by omega
  have hj' : s.size - s.hw_pointer < (n + 1) * (spp * s.channels) := by
    rw [succ_mul]
    omega
  have hat := congrArg (fun places => places[s.size - s.hw_pointer]?) heq
  simp only [walk, ahead, Ring.getElem?_positions hj'] at hat
  rw [List.getElem?_append_left (by rw [h.length_places_split hparts]; omega),
    getElem?_places_first _ (by rwa [hparts.first_eq]), Option.some.injEq,
    Nat.add_sub_cancel' hinside.le, Nat.mod_self] at hat
  omega

theorem Holds.not_right_of_second (hr : s.hw_pointer % s.channels = 0)
    (hsmall : spp < s.buffer_size) :
    s.walk (s.split spp) (n + 2) s.hw_pointer ≠ s.ahead spp (n + 2) := by
  intro heq
  have hend := hparts.end_eq
  have hsum := hparts.sum_eq
  have hpos := hparts.second_pos
  have hpacket : spp * s.channels < s.size := mul_lt_mul_of_pos_right hsmall h.channels_pos
  -- the second packet goes back to the start as well, although it is not at the end
  have hj : first + second + first < (n + 2) * (spp * s.channels) := by
    rw [add_mul, ← hsum]
    omega
  have hat := congrArg (fun places => places[first + second + first]?) heq
  simp only [walk, ahead, Ring.getElem?_positions hj, hparts.next_eq] at hat
  have hlen := h.length_places_split hparts
  rw [List.getElem?_append_right (by rw [hlen]; omega), hlen, Nat.add_sub_cancel_left,
    List.getElem?_append_left (by rw [hlen]; omega)] at hat
  have hstart := getElem?_places_second (s := s) (s.split spp) second
    (by rw [hparts.second_eq]; exact hpos)
  rw [hparts.first_eq] at hstart
  rw [hstart, Option.some.injEq] at hat
  have hplace : s.hw_pointer + (first + second + first) = spp * s.channels + s.size := by omega
  rw [hplace, add_mod_right, mod_eq_of_lt hpacket] at hat
  omega

end Across

theorem Holds.right_across_iff (h : s.Holds spp)
    (hlt : s.buffer_size < s.hw_pointer / s.channels + spp) :
    s.walk (s.split spp) n s.hw_pointer = s.ahead spp n ↔
      n = 0 ∨ (s.hw_pointer % s.channels = 0 ∧ (n = 1 ∨ spp = s.buffer_size)) := by
  obtain ⟨first, second, hparts⟩ := h.parts hlt
  constructor
  · intro heq
    cases n with
    | zero => exact .inl rfl
    | succ n =>
      by_cases hr : s.hw_pointer % s.channels = 0
      · refine .inr ⟨hr, ?_⟩
        cases n with
        | zero => exact .inl rfl
        | succ n =>
          refine .inr (le_antisymm h.packet_le (not_lt.mp ?_))
          intro hsmall
          exact h.not_right_of_second hparts hr hsmall heq
      · exact absurd heq (h.not_right_of_unaligned hparts hr)
  · rintro (rfl | ⟨hr, rfl | hfull⟩)
    · rw [walk, ahead, zero_mul, Ring.positions, range_zero, map_nil]
    · rw [walk, walk, append_nil, h.places_aligned hparts hr, ahead, one_mul]
    · exact h.right_of_full hparts hr hfull n

theorem Holds.right_iff (h : s.Holds spp) :
    s.walk (s.split spp) n s.hw_pointer = s.ahead spp n ↔ s.Fits spp n := by
  have hinside := h.inside
  rcases lt_or_ge s.buffer_size (s.hw_pointer / s.channels + spp) with hlt | hle
  · rw [h.right_across_iff hlt, Fits]
    constructor
    · grind
    · rintro (hzero | hend | ⟨-, hrest⟩)
      · exact .inl hzero
      · left
        by_contra hn
        -- one packet already reaches the end
        obtain ⟨first, second, hparts⟩ := h.parts hlt
        have hsum := hparts.sum_eq
        have hpos := hparts.second_pos
        have hfirst := hparts.end_eq
        have hone : spp * s.channels ≤ n * (spp * s.channels) :=
          Nat.le_mul_of_pos_left _ (Nat.pos_of_ne_zero hn)
        omega
      · exact .inr hrest
  · rw [h.right_before hle, Fits]
    grind

end Stream

namespace Adapter

variable {a : Adapter} {ring : Nat → U32} {l : Loop} {packet : Received} {packets : List Received}

@[simp] theorem handled_writes : (a.handled ring l packet).writes = (a.captured packet l).writes := by
  unfold handled played
  split <;> rfl

@[simp] theorem handled_capture :
    (a.handled ring l packet).capture = (a.captured packet l).capture := by
  unfold handled played
  split <;> rfl

@[simp] theorem handled_reads : (a.handled ring l packet).reads = (a.played ring packet l).reads := by
  unfold handled played captured
  split <;> split <;> rfl

@[simp] theorem handled_sent : (a.handled ring l packet).sent = (a.played ring packet l).sent := by
  unfold handled played captured
  split <;> split <;> rfl

@[simp] theorem handled_playback :
    (a.handled ring l packet).playback = (a.played ring packet l).playback := by
  unfold handled played captured
  split <;> split <;> rfl

def words (packet : Received) (k : Nat) : List U32 :=
  (List.range k).map packet.audio_data

theorem captured_writes (h : a.capture.Holds a.samples_per_packet)
    (hstarted : a.capture.started = true) :
    (a.captured packet l).writes = l.writes ++
      (a.capture.places (a.capture.split a.samples_per_packet) l.capture.addr).zip
        ((words packet (a.samples_per_packet * a.capture.channels)).map fromPacket) := by
  generalize hcount : a.capture.split a.samples_per_packet = count
  have hsum : count.1 * a.capture.channels + count.2 * a.capture.channels =
      a.samples_per_packet * a.capture.channels := by
    rw [← add_mul, ← hcount, h.split_add]
  have hloops : (a.captured packet l).writes = l.writes ++
      (List.range (count.1 * a.capture.channels)).map
        (fun j => (l.capture.addr + j, fromPacket (packet.audio_data j))) ++
      (List.range (count.2 * a.capture.channels)).map
        (fun j => (j, fromPacket (packet.audio_data (j + count.1 * a.capture.channels)))) := by
    rw [captured, if_pos hstarted, ← hcount]
    rfl
  rw [hloops, words, ← hsum, range_add, map_append, map_append, map_map,
    map_map, map_map, Stream.places, zip_append (by simp), zip_map',
    append_assoc]
  congr 2
  have hsecond := zip_map' (f := id)
    (g := (fromPacket ∘ packet.audio_data) ∘ fun j => count.1 * a.capture.channels + j)
    (l := List.range (count.2 * a.capture.channels))
  rw [map_id] at hsecond
  rw [hsecond]
  simp only [Function.comp_apply, add_comm, id]

theorem captured_addr (hstarted : a.capture.started = true) :
    (a.captured packet l).capture.addr =
      a.capture.nextAddr (a.capture.split a.samples_per_packet) l.capture.addr := by
  rw [captured, if_pos hstarted]
  rfl

theorem played_reads (hstarted : a.playback.started = true) :
    (a.played ring packet l).reads = l.reads ++
      a.playback.places (a.playback.split a.samples_per_packet) l.playback.addr := by
  rw [played, if_pos hstarted]
  rfl

theorem played_addr (hstarted : a.playback.started = true) :
    (a.played ring packet l).playback.addr =
      a.playback.nextAddr (a.playback.split a.samples_per_packet) l.playback.addr := by
  rw [played, if_pos hstarted]
  rfl

theorem writes_foldl (h : a.capture.Holds a.samples_per_packet)
    (hstarted : a.capture.started = true) (packets : List Received) (l : Loop) :
    (packets.foldl (a.handled ring) l).writes = l.writes ++
      (a.capture.walk (a.capture.split a.samples_per_packet) packets.length l.capture.addr).zip
        ((packets.flatMap fun packet =>
          words packet (a.samples_per_packet * a.capture.channels)).map fromPacket) := by
  induction packets generalizing l with
  | nil => rw [foldl_nil, length_nil, Stream.walk, zip_nil_left, append_nil]
  | cons packet packets ih =>
    have hlen : (a.capture.places (a.capture.split a.samples_per_packet) l.capture.addr).length =
        ((words packet (a.samples_per_packet * a.capture.channels)).map fromPacket).length := by
      rw [Stream.length_places, h.split_add, words, length_map, length_map,
        length_range]
    grind [handled_writes, handled_capture, captured_writes, captured_addr, Stream.walk]

theorem writes_foldl_stopped (hstopped : a.capture.started = false) (packets : List Received)
    (l : Loop) : (packets.foldl (a.handled ring) l).writes = l.writes := by
  induction packets generalizing l with
  | nil => rfl
  | cons packet packets ih =>
    rw [foldl_cons, ih, handled_writes, captured, hstopped]
    rfl

theorem reads_foldl (hstarted : a.playback.started = true) (packets : List Received) (l : Loop) :
    (packets.foldl (a.handled ring) l).reads = l.reads ++
      a.playback.walk (a.playback.split a.samples_per_packet) packets.length l.playback.addr := by
  induction packets generalizing l with
  | nil => rw [foldl_nil, length_nil, Stream.walk, append_nil]
  | cons packet packets ih =>
    grind [handled_reads, handled_playback, played_reads, played_addr, Stream.walk]

theorem reads_foldl_stopped (hstopped : a.playback.started = false) (packets : List Received)
    (l : Loop) : (packets.foldl (a.handled ring) l).reads = l.reads := by
  induction packets generalizing l with
  | nil => rfl
  | cons packet packets ih =>
    rw [foldl_cons, ih, handled_reads, played, hstopped]
    rfl

theorem sent_foldl (hstarted : a.playback.started = true) (packets : List Received) (l : Loop)
    (hl : l.sent.flatMap Sent.audio_data = l.reads.map fun place => toPacket (ring place)) :
    (packets.foldl (a.handled ring) l).sent.flatMap Sent.audio_data =
      (packets.foldl (a.handled ring) l).reads.map fun place => toPacket (ring place) := by
  induction packets generalizing l with
  | nil => exact hl
  | cons packet packets ih =>
    grind [handled_sent, handled_reads, played, fillPacket, answer]

theorem sent_foldl_stopped (hstopped : a.playback.started = false) (packets : List Received)
    (l : Loop) : (packets.foldl (a.handled ring) l).sent.flatMap Sent.audio_data =
      l.sent.flatMap Sent.audio_data ++
        List.replicate (packets.length * (a.samples_per_packet * a.playback.channels)) silence := by
  induction packets generalizing l with
  | nil => rw [foldl_nil, length_nil, zero_mul, replicate_zero, append_nil]
  | cons packet packets ih =>
    rw [foldl_cons, ih, handled_sent, played, hstopped, length_cons, succ_mul,
      add_comm (_ * _), replicate_add]
    simp only [fillSilence, answer, flatMap_append, flatMap_singleton, append_assoc,
      Bool.false_eq_true, if_false, add_zero]

end Adapter

def Stream.moved (s : Stream) (samples_per_packet : Nat) (c : Cursor) : Cursor :=
  if s.started then
    c.moveOn (s.nextAddr (s.split samples_per_packet) c.addr)
      ((c.newptr + samples_per_packet * s.channels) % s.size) samples_per_packet
  else c

theorem Stream.moved_pointer {s : Stream} {spp : Nat} {c : Cursor} (hnew : c.hw_pointer = c.newptr)
    (hlt : c.newptr < s.size) (n : Nat) :
    ((s.moved spp)^[n] c).hw_pointer =
      if s.started then (c.newptr + n * (spp * s.channels)) % s.size else c.hw_pointer := by
  cases hstarted : s.started with
  | false =>
    grind [moved, Function.iterate_fixed]
  | true =>
    induction n generalizing c with
    | zero =>
      rw [if_pos rfl, zero_mul, add_zero, mod_eq_of_lt hlt, Function.iterate_zero, id,
        hnew]
    | succ n ih =>
      have hstep : (s.moved spp c).newptr = (c.newptr + spp * s.channels) % s.size := by
        rw [moved, hstarted]
        rfl
      have hcopy : (s.moved spp c).hw_pointer = (s.moved spp c).newptr := by
        rw [moved, hstarted]
        rfl
      have hinside : (s.moved spp c).newptr < s.size := by
        rw [hstep]
        exact mod_lt _ (zero_lt_of_lt hlt)
      rw [Function.iterate_succ_apply, ih hcopy hinside, if_pos rfl, if_pos rfl, hstep,
        mod_add_mod, succ_mul, add_comm (n * _), add_assoc]

namespace Adapter

variable {a : Adapter} {ring : Nat → U32}

theorem capture_foldl (packets : List Received) (l : Loop) :
    (packets.foldl (a.handled ring) l).capture =
      (a.capture.moved a.samples_per_packet)^[packets.length] l.capture := by
  induction packets generalizing l with
  | nil => rfl
  | cons packet packets ih =>
    have hstep : (a.captured packet l).capture =
        a.capture.moved a.samples_per_packet l.capture := by
      unfold captured Stream.moved
      split <;> rfl
    rw [foldl_cons, ih, handled_capture, hstep, length_cons, Function.iterate_succ_apply]

theorem playback_foldl (packets : List Received) (l : Loop) :
    (packets.foldl (a.handled ring) l).playback =
      (a.playback.moved a.samples_per_packet)^[packets.length] l.playback := by
  induction packets generalizing l with
  | nil => rfl
  | cons packet packets ih =>
    have hstep : (a.played ring packet l).playback =
        a.playback.moved a.samples_per_packet l.playback := by
      unfold played Stream.moved
      split <;> rfl
    simp_all

end Adapter

@[simp] theorem Stream.settle_pointer (s : Stream) (c : Cursor) :
    (s.settle c).2.hw_pointer = c.hw_pointer := by
  unfold settle
  split <;> rfl

def payload (data : U32) : BitVec 24 :=
  (ntohl data).setWidth 24

def labelled (sample : BitVec 24) : U32 :=
  0x40#8 ++ sample

/-- A call has stored the samples of the packets at consecutive places of the capture ring, has
taken those it sends from consecutive places of the playback ring, and has left the hardware
pointers behind them. -/
structure Outcome.Right (o : Outcome) (a : Adapter) (ring : Nat → U32) (packets : List Received) :
    Prop where
  stored : o.writes =
    if a.capture.started then
      (a.capture.ahead a.samples_per_packet packets.length).zip
        ((packets.flatMap fun packet =>
          Adapter.words packet (a.samples_per_packet * a.capture.channels)).map
            fun data => payload data ++ 0#8)
    else []
  taken : o.reads =
    if a.playback.started then a.playback.ahead a.samples_per_packet packets.length else []
  sent : (o.sent.flatMap Sent.audio_data).map ntohl =
    if a.playback.started then
      (a.playback.ahead a.samples_per_packet packets.length).map
        fun place => labelled ((ring place).extractLsb' 8 24)
    else
      List.replicate (packets.length * (a.samples_per_packet * a.playback.channels)) (labelled 0)
  capture_pointer : o.adapter.capture.hw_pointer =
    if a.capture.started then
      (a.capture.hw_pointer + packets.length * (a.samples_per_packet * a.capture.channels)) %
        a.capture.size
    else a.capture.hw_pointer
  playback_pointer : o.adapter.playback.hw_pointer =
    if a.playback.started then
      (a.playback.hw_pointer + packets.length * (a.samples_per_packet * a.playback.channels)) %
        a.playback.size
    else a.playback.hw_pointer
  capture_inside : ∀ w ∈ o.writes, w.1 < a.capture.size
  playback_inside : ∀ place ∈ o.reads, place < a.playback.size

namespace Adapter

variable {a : Adapter} {ring : Nat → U32}

theorem length_words (packets : List Received) (k : Nat) :
    (packets.flatMap fun packet => words packet k).length = packets.length * k := by
  induction packets with
  | nil => rw [flatMap_nil, length_nil, length_nil, zero_mul]
  | cons packet packets ih =>
    grind [words, add_comm]

theorem stored_iff (ring : Nat → U32) (h : a.capture.Holds a.samples_per_packet) (packets : List Received) :
    ((packets.foldl (a.handled ring) a.enter).writes =
      if a.capture.started then
        (a.capture.ahead a.samples_per_packet packets.length).zip
          ((packets.flatMap fun packet =>
            words packet (a.samples_per_packet * a.capture.channels)).map
              fun data => payload data ++ 0#8)
      else []) ↔
      (a.capture.started = true → a.capture.Fits a.samples_per_packet packets.length) := by
  cases hstarted : a.capture.started with
  | false =>
    rw [writes_foldl_stopped hstarted]
    exact ⟨fun _ hfalse => absurd hfalse Bool.false_ne_true, fun _ => rfl⟩
  | true =>
    have hpayload : fromPacket = fun data => payload data ++ 0#8 := funext fromPacket_eq
    rw [writes_foldl h hstarted, ← hpayload, if_pos rfl, ← h.right_iff]
    have hwords := length_words packets (a.samples_per_packet * a.capture.channels)
    constructor
    · intro heq _
      have hplaces := congrArg (List.map Prod.fst) heq
      rwa [enter, nil_append, map_fst_zip, map_fst_zip] at hplaces
      · rw [Stream.ahead, Ring.length_positions, length_map, hwords]
      · rw [Stream.length_walk, h.split_add, length_map, hwords]
    · intro heq
      rw [← heq rfl]
      rfl

theorem taken_iff (ring : Nat → U32) (h : a.playback.Holds a.samples_per_packet) (packets : List Received) :
    ((packets.foldl (a.handled ring) a.enter).reads =
      if a.playback.started then a.playback.ahead a.samples_per_packet packets.length else []) ↔
      (a.playback.started = true → a.playback.Fits a.samples_per_packet packets.length) := by
  cases hstarted : a.playback.started with
  | false =>
    rw [reads_foldl_stopped hstarted]
    exact ⟨fun _ hfalse => absurd hfalse Bool.false_ne_true, fun _ => rfl⟩
  | true =>
    rw [reads_foldl hstarted, if_pos rfl, ← h.right_iff]
    exact ⟨fun heq _ => heq, fun heq => heq rfl⟩

theorem sent_of_taken {packets : List Received}
    (h : (packets.foldl (a.handled ring) a.enter).reads =
      if a.playback.started then a.playback.ahead a.samples_per_packet packets.length else []) :
    ((packets.foldl (a.handled ring) a.enter).sent.flatMap Sent.audio_data).map ntohl =
      if a.playback.started then
        (a.playback.ahead a.samples_per_packet packets.length).map
          fun place => labelled ((ring place).extractLsb' 8 24)
      else
        List.replicate (packets.length * (a.samples_per_packet * a.playback.channels))
          (labelled 0) := by
  cases hstarted : a.playback.started with
  | false =>
    rw [sent_foldl_stopped hstarted, map_append, map_replicate, ntohl_silence]
    rfl
  | true =>
    rw [hstarted, if_pos rfl] at h
    rw [sent_foldl hstarted packets a.enter rfl, h, map_map, if_pos rfl]
    apply map_congr_left
    intro place _
    exact ntohl_toPacket (ring place)

/-- A call handles the rings as it should exactly if the packets of each started stream fit:
they end before the end of the ring, or there is only one, or each fills the ring. -/
theorem receive_right_iff (a : Adapter) (ring : Nat → U32) (packets : List Received)
    (hcapture : a.capture.Holds a.samples_per_packet)
    (hplayback : a.playback.Holds a.samples_per_packet) :
    (∃ o, a.receive ring packets = .ok o ∧ o.Right a ring packets) ↔
      (a.capture.started = true → a.capture.Fits a.samples_per_packet packets.length) ∧
      (a.playback.started = true → a.playback.Fits a.samples_per_packet packets.length) := by
  have hdivides : a.Divides :=
    ⟨fun _ => hcapture.divides, hplayback.divides.1, fun _ => hplayback.divides⟩
  have hok := receive_ok hdivides ring packets
  rw [← stored_iff ring hcapture, ← taken_iff ring hplayback]
  constructor
  · rintro ⟨o, ho, hright⟩
    rw [hok] at ho
    cases ho
    exact ⟨hright.stored, hright.taken⟩
  · rintro ⟨hstored, htaken⟩
    refine ⟨_, hok, hstored, htaken, sent_of_taken htaken, ?_, ?_, ?_, ?_⟩
    · dsimp only [leave]
      rw [Stream.settle_pointer, capture_foldl]
      exact Stream.moved_pointer rfl hcapture.inside packets.length
    · dsimp only [leave]
      rw [Stream.settle_pointer, playback_foldl]
      exact Stream.moved_pointer rfl hplayback.inside packets.length
    · intro w hw
      dsimp only [leave] at hw
      rw [hstored] at hw
      split at hw
      · exact Ring.lt_of_mem_positions hcapture.size_pos (of_mem_zip hw).1
      · cases hw
    · intro place hplace
      dsimp only [leave] at hplace
      rw [htaken] at hplace
      split at hplace
      · exact Ring.lt_of_mem_positions hplayback.size_pos hplace
      · cases hplace

end Adapter

def halfway : Stream :=
  { started := true, channels := 1, period_size := 6, buffer_size := 12, hw_pointer := 6 }

def bothHalfway : Adapter :=
  { rate := 48000, samples_per_packet := 6, capture := halfway, playback := halfway }

def numbered : Received :=
  { flags1 := 0, sequence_number := 0, timestamp := 0, data_block_continuity := 0
    audio_data := fun j => BitVec.ofNat 32 j }

theorem halfway_holds : halfway.Holds 6 :=
  ⟨by decide, by decide, by decide⟩

theorem bothHalfway_one_right :
    ∃ o, bothHalfway.receive (fun _ => 0) [numbered] = .ok o ∧
      o.Right bothHalfway (fun _ => 0) [numbered] :=
  (Adapter.receive_right_iff bothHalfway (fun _ => 0) [numbered] halfway_holds halfway_holds).mpr
    ⟨by decide, by decide⟩

theorem bothHalfway_two_outside :
    (∃ o, bothHalfway.receive (fun _ => 0) [numbered, numbered] = .ok o ∧
      o.writes.map Prod.fst = [6, 7, 8, 9, 10, 11, 12, 13, 14, 15, 16, 17] ∧
      o.reads = [6, 7, 8, 9, 10, 11, 12, 13, 14, 15, 16, 17] ∧
      o.adapter.capture.hw_pointer = 6 ∧ o.adapter.playback.hw_pointer = 6) ∧
    ¬ ∃ o, bothHalfway.receive (fun _ => 0) [numbered, numbered] = .ok o ∧
      o.Right bothHalfway (fun _ => 0) [numbered, numbered] := by
  refine ⟨⟨_, rfl, rfl, rfl, rfl, rfl⟩, ?_⟩
  rintro ⟨o, ho, hright⟩
  cases ho
  have houtside := hright.playback_inside 12 (by decide)
  exact absurd houtside (by decide)

end Avb4Linux.Alsa
