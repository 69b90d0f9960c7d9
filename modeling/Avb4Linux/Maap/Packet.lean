import Mathlib.Data.Nat.Init
import Mathlib.Tactic.Ring

/-!
# MAAP packets

`maap_packet.c`: the packet structure, its packing into bytes and back, and the
comparison of MAC addresses that decides conflicts.
-/

namespace Avb4Linux.Maap

open Nat

def beBytes : Nat → Nat → List UInt8
  | 0, _ => []
  | k + 1, v => UInt8.ofNat (v / 256 ^ k) :: beBytes k v

def beValue (l : List UInt8) : Nat :=
  l.foldl (fun acc b => acc * 256 + b.toNat) 0

theorem foldl_beBytes (k v acc : Nat) :
    (beBytes k v).foldl (fun acc b => acc * 256 + b.toNat) acc = acc * 256 ^ k + v % 256 ^ k := by
  induction k generalizing acc with
  | zero => simp [beBytes, mod_one]
  | succ k ih =>
    have hbyte : (UInt8.ofNat (v / 256 ^ k)).toNat = v / 256 ^ k % 256 := by simp
    have hsplit : v % 256 ^ (k + 1) = v / 256 ^ k % 256 * 256 ^ k + v % 256 ^ k := by
      rw [pow_succ, mod_mul, mul_comm (256 ^ k), add_comm]
    rw [beBytes, List.foldl_cons, ih, hbyte, hsplit, pow_succ]
    ring

theorem beValue_beBytes (k v : Nat) : beValue (beBytes k v) = v % 256 ^ k := by
  rw [beValue, foldl_beBytes, zero_mul, zero_add]

theorem length_beBytes (k v : Nat) : (beBytes k v).length = k := by
  induction k with
  | zero => rfl
  | succ k ih => rw [beBytes, List.length_cons, ih]

def packed : List (Nat × Nat) → List UInt8
  | [] => []
  | f :: fs => beBytes f.1 f.2 ++ packed fs

def width : List (Nat × Nat) → Nat
  | [] => 0
  | f :: fs => f.1 + width fs

def fieldAt (off len : Nat) (stream : List UInt8) : Nat :=
  beValue ((stream.drop off).take len)

theorem foldl_beValue_lt (l : List UInt8) (acc : Nat) :
    l.foldl (fun acc b => acc * 256 + b.toNat) acc < (acc + 1) * 256 ^ l.length := by
  induction l generalizing acc with
  | nil => simp
  | cons b l ih =>
    have hb := b.toNat_lt
    have hstep : (acc * 256 + b.toNat + 1) * 256 ^ l.length ≤ (acc + 1) * 256 * 256 ^ l.length :=
      mul_le_mul_right _ (by omega)
    grind

theorem fieldAt_lt (off len : Nat) (stream : List UInt8) : fieldAt off len stream < 256 ^ len := by
  have hvalue := foldl_beValue_lt ((stream.drop off).take len) 0
  rw [Nat.zero_add, Nat.one_mul] at hvalue
  exact Nat.lt_of_lt_of_le hvalue (Nat.pow_le_pow_right (by decide) (List.length_take_le _ _))

theorem fieldAt_packed {fs : List (Nat × Nat)} {i k v : Nat} (h : fs[i]? = some (k, v))
    (rest : List UInt8) :
    fieldAt (width (fs.take i)) k (packed fs ++ rest) = v % 256 ^ k := by
  induction fs generalizing i with
  | nil => cases h
  | cons f fs ih =>
    cases i with
    | zero =>
      obtain rfl : f = (k, v) := Option.some.inj h
      have htake : (beBytes k v ++ (packed fs ++ rest)).take k = beBytes k v :=
        List.take_left' (length_beBytes k v)
      rw [fieldAt, List.take_zero, width, List.drop_zero, packed, List.append_assoc, htake,
        beValue_beBytes]
    | succ i =>
      rw [List.take_succ_cons, packed, width, fieldAt, List.append_assoc, ← List.drop_drop,
        List.drop_left' (length_beBytes f.1 f.2)]
      exact ih h

structure Packet where
  da : Nat
  sa : Nat
  ethertype : Nat
  subtype : Nat
  sv : Nat
  version : Nat
  messageType : Nat
  maapVersion : Nat
  controlDataLength : Nat
  streamId : Nat
  requestedStartAddress : Nat
  requestedCount : Nat
  conflictStartAddress : Nat
  conflictCount : Nat
  deriving DecidableEq, Repr

def maapProbe : Nat := 1

def maapDefend : Nat := 2

def maapAnnounce : Nat := 3

def maapType : Nat := 0x22F0

def maapSubtype : Nat := 0xFE

def maapPktSize : Nat := 42

def initPacket (destMac srcMac : Nat) : Packet where
  da := destMac
  sa := srcMac
  ethertype := maapType
  subtype := maapSubtype
  sv := 0
  version := 0
  messageType := 0
  maapVersion := 1
  controlDataLength := 16
  streamId := 0
  requestedStartAddress := 0
  requestedCount := 0
  conflictStartAddress := 0
  conflictCount := 0

def Packet.flags (p : Packet) : Nat :=
  p.sv * 128 + p.version % 8 * 16 + p.messageType % 16

def Packet.versionAndLength (p : Packet) : Nat :=
  p.maapVersion % 32 * 2048 + p.controlDataLength % 2048

def Packet.fields (p : Packet) : List (Nat × Nat) :=
  [(6, p.da), (6, p.sa), (2, p.ethertype), (1, p.subtype), (1, p.flags),
    (2, p.versionAndLength), (8, p.streamId), (6, p.requestedStartAddress),
    (2, p.requestedCount), (6, p.conflictStartAddress), (2, p.conflictCount)]

def packMaap (p : Packet) : List UInt8 :=
  packed p.fields

def unpackMaap (stream : List UInt8) : Packet where
  da := fieldAt 0 6 stream
  sa := fieldAt 6 6 stream
  ethertype := fieldAt 12 2 stream
  subtype := fieldAt 14 1 stream
  sv := fieldAt 15 1 stream / 128
  version := fieldAt 15 1 stream / 16 % 8
  messageType := fieldAt 15 1 stream % 16
  maapVersion := fieldAt 16 2 stream / 2048
  controlDataLength := fieldAt 16 2 stream % 2048
  streamId := fieldAt 18 8 stream
  requestedStartAddress := fieldAt 26 6 stream
  requestedCount := fieldAt 32 2 stream
  conflictStartAddress := fieldAt 34 6 stream
  conflictCount := fieldAt 40 2 stream

structure Packet.Fits (p : Packet) : Prop where
  da : p.da < 2 ^ 48
  sa : p.sa < 2 ^ 48
  ethertype : p.ethertype < 2 ^ 16
  subtype : p.subtype < 2 ^ 8
  sv : p.sv < 2
  version : p.version < 8
  messageType : p.messageType < 16
  maapVersion : p.maapVersion < 32
  controlDataLength : p.controlDataLength < 2048
  streamId : p.streamId < 2 ^ 64
  requestedStartAddress : p.requestedStartAddress < 2 ^ 48
  requestedCount : p.requestedCount < 2 ^ 16
  conflictStartAddress : p.conflictStartAddress < 2 ^ 48
  conflictCount : p.conflictCount < 2 ^ 16

theorem length_packed (fs : List (Nat × Nat)) : (packed fs).length = width fs := by
  induction fs with
  | nil => rfl
  | cons f fs ih => rw [packed, List.length_append, length_beBytes, ih, width]

theorem length_packMaap (p : Packet) : (packMaap p).length = maapPktSize :=
  length_packed _

theorem fieldAt_field (p : Packet) {i k v : Nat} (h : p.fields[i]? = some (k, v))
    (rest : List UInt8) :
    fieldAt (width (p.fields.take i)) k (packMaap p ++ rest) = v % 256 ^ k :=
  fieldAt_packed h rest

theorem unpackMaap_start (p : Packet) :
    (unpackMaap (packMaap p)).requestedStartAddress = p.requestedStartAddress % 2 ^ 48 := by
  have hfield : fieldAt 26 6 (packMaap p ++ []) = p.requestedStartAddress % 256 ^ 6 :=
    fieldAt_field p (i := 7) rfl []
  rwa [List.append_nil] at hfield

theorem unpackMaap_count (p : Packet) :
    (unpackMaap (packMaap p)).requestedCount = p.requestedCount % 2 ^ 16 := by
  have hfield : fieldAt 32 2 (packMaap p ++ []) = p.requestedCount % 256 ^ 2 :=
    fieldAt_field p (i := 8) rfl []
  rwa [List.append_nil] at hfield

theorem unpackMaap_packMaap {p : Packet} (h : p.Fits) (rest : List UInt8) :
    unpackMaap (packMaap p ++ rest) = p := by
  have hda : fieldAt 0 6 (packMaap p ++ rest) = p.da % 256 ^ 6 :=
    fieldAt_field p (i := 0) rfl rest
  have hsa : fieldAt 6 6 (packMaap p ++ rest) = p.sa % 256 ^ 6 :=
    fieldAt_field p (i := 1) rfl rest
  have hether : fieldAt 12 2 (packMaap p ++ rest) = p.ethertype % 256 ^ 2 :=
    fieldAt_field p (i := 2) rfl rest
  have hsub : fieldAt 14 1 (packMaap p ++ rest) = p.subtype % 256 ^ 1 :=
    fieldAt_field p (i := 3) rfl rest
  have hflags : fieldAt 15 1 (packMaap p ++ rest) = p.flags % 256 ^ 1 :=
    fieldAt_field p (i := 4) rfl rest
  have hlength : fieldAt 16 2 (packMaap p ++ rest) = p.versionAndLength % 256 ^ 2 :=
    fieldAt_field p (i := 5) rfl rest
  have hstream : fieldAt 18 8 (packMaap p ++ rest) = p.streamId % 256 ^ 8 :=
    fieldAt_field p (i := 6) rfl rest
  have hstart : fieldAt 26 6 (packMaap p ++ rest) = p.requestedStartAddress % 256 ^ 6 :=
    fieldAt_field p (i := 7) rfl rest
  have hcount : fieldAt 32 2 (packMaap p ++ rest) = p.requestedCount % 256 ^ 2 :=
    fieldAt_field p (i := 8) rfl rest
  have hcstart : fieldAt 34 6 (packMaap p ++ rest) = p.conflictStartAddress % 256 ^ 6 :=
    fieldAt_field p (i := 9) rfl rest
  have hccount : fieldAt 40 2 (packMaap p ++ rest) = p.conflictCount % 256 ^ 2 :=
    fieldAt_field p (i := 10) rfl rest
  obtain ⟨h1, h2, h3, h4, h5, h6, h7, h8, h9, h10, h11, h12, h13, h14⟩ := h
  unfold unpackMaap
  rw [hda, hsa, hether, hsub, hflags, hlength, hstream, hstart, hcount, hcstart, hccount]
  cases p
  unfold Packet.flags Packet.versionAndLength
  simp only [Packet.mk.injEq]
  dsimp only at *
  refine ⟨?_, ?_, ?_, ?_, ?_, ?_, ?_, ?_, ?_, ?_, ?_, ?_, ?_, ?_⟩ <;> omega

def compareBytes : Nat → Nat → Nat → Bool
  | 0, _, _ => true
  | k + 1, localMac, remoteMac =>
    if localMac % 256 < remoteMac % 256 then true
    else if remoteMac % 256 < localMac % 256 then false
    else compareBytes k (localMac / 256) (remoteMac / 256)

def compareMacAddresses (localMac remoteMac : Nat) : Bool :=
  compareBytes 6 localMac remoteMac

theorem compareBytes_swap {k a b : Nat} (h : a % 256 ^ k ≠ b % 256 ^ k) :
    compareBytes k b a = !compareBytes k a b := by
  induction k generalizing a b with
  | zero => exact absurd (by simp [mod_one]) h
  | succ k ih =>
    rw [compareBytes, compareBytes]
    rcases lt_trichotomy (a % 256) (b % 256) with hlt | heq | hgt
    · grind
    · have hrest : a / 256 % 256 ^ k ≠ b / 256 % 256 ^ k := by
        intro hk
        apply h
        rw [pow_succ, mul_comm, mod_mul, mod_mul, heq, hk]
      grind
    · grind

theorem compareMacAddresses_swap {a b : Nat} (ha : a < 2 ^ 48) (hb : b < 2 ^ 48) (h : a ≠ b) :
    compareMacAddresses b a = !compareMacAddresses a b := by
  apply compareBytes_swap
  rwa [mod_eq_of_lt (by omega), mod_eq_of_lt (by omega)]

end Avb4Linux.Maap
