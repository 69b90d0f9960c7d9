import Mathlib.Data.UInt
import Avb4Linux.Maap.Packet

/-!
# The bytes of a MAAP packet

`pack_maap` and `unpack_maap` with members of a fixed width, shifts and masks.
-/

namespace Avb4Linux.Maap.Wire

open List Nat

structure MaapPacket where
  da : UInt64
  sa : UInt64
  ethertype : UInt16
  subtype : UInt16
  sv : UInt8
  version : UInt8
  messageType : UInt8
  maapVersion : UInt8
  controlDataLength : UInt16
  streamId : UInt64
  requestedStartAddress : UInt64
  requestedCount : UInt16
  conflictStartAddress : UInt64
  conflictCount : UInt16
  deriving DecidableEq, Repr

def memcpy (dst src : List UInt8) (n : Nat) : List UInt8 :=
  src.take n ++ dst.drop n

def be64toh (bytes : List UInt8) : UInt64 :=
  UInt64.ofNat (beValue bytes)

def be16toh (bytes : List UInt8) : UInt16 :=
  UInt16.ofNat (beValue bytes)

def htobe64 (x : UInt64) : List UInt8 :=
  beBytes 8 x.toNat

def htobe16 (x : UInt16) : List UInt8 :=
  beBytes 2 x.toNat

def unpackMaap (tmp64 tmp16 stream : List UInt8) : MaapPacket :=
  let tmp64 := memcpy tmp64 stream 6
  let da := be64toh tmp64 >>> 16
  let stream := stream.drop 6
  let tmp64 := memcpy tmp64 stream 6
  let sa := be64toh tmp64 >>> 16
  let stream := stream.drop 6
  let tmp16 := memcpy tmp16 stream 2
  let ethertype := be16toh tmp16
  let stream := stream.drop 2
  let tmp8 := stream.headD 0
  let subtype := tmp8.toUInt16
  let stream := stream.drop 1
  let tmp8 := stream.headD 0
  let sv := (tmp8 &&& 0x80) >>> 7
  let version := (tmp8 &&& 0x70) >>> 4
  let messageType := tmp8 &&& 0x0f
  let stream := stream.drop 1
  let tmp8 := stream.headD 0
  let maapVersion := (tmp8 &&& 0xf8) >>> 3
  let tmp16 := memcpy tmp16 stream 2
  let controlDataLength := be16toh tmp16 &&& 0x07ff
  let stream := stream.drop 2
  let tmp64 := memcpy tmp64 stream 8
  let streamId := be64toh tmp64
  let stream := stream.drop 8
  let tmp64 := memcpy tmp64 stream 6
  let requestedStartAddress := be64toh tmp64 >>> 16
  let stream := stream.drop 6
  let tmp16 := memcpy tmp16 stream 2
  let requestedCount := be16toh tmp16
  let stream := stream.drop 2
  let tmp64 := memcpy tmp64 stream 6
  let conflictStartAddress := be64toh tmp64 >>> 16
  let stream := stream.drop 6
  let tmp16 := memcpy tmp16 stream 2
  let conflictCount := be16toh tmp16
  { da, sa, ethertype, subtype, sv, version, messageType, maapVersion, controlDataLength,
    streamId, requestedStartAddress, requestedCount, conflictStartAddress, conflictCount }

def MaapPacket.flags (p : MaapPacket) : UInt8 :=
  p.sv <<< 7 ||| (p.version &&& 0x07) <<< 4 ||| (p.messageType &&& 0x0f)

def MaapPacket.versionAndLength (p : MaapPacket) : UInt16 :=
  (p.maapVersion.toUInt16 &&& 0x001f) <<< 11 ||| (p.controlDataLength &&& 0x07ff)

def packMaap (p : MaapPacket) : List UInt8 :=
  (htobe64 (p.da <<< 16)).take 6 ++
    ((htobe64 (p.sa <<< 16)).take 6 ++
    (htobe16 p.ethertype ++
    ([p.subtype.toUInt8] ++
    ([p.flags] ++
    (htobe16 p.versionAndLength ++
    (htobe64 p.streamId ++
    ((htobe64 (p.requestedStartAddress <<< 16)).take 6 ++
    (htobe16 p.requestedCount ++
    ((htobe64 (p.conflictStartAddress <<< 16)).take 6 ++
    (htobe16 p.conflictCount ++ []))))))))))

def MaapPacket.toPacket (p : MaapPacket) : Packet where
  da := p.da.toNat
  sa := p.sa.toNat
  ethertype := p.ethertype.toNat
  subtype := p.subtype.toNat
  sv := p.sv.toNat
  version := p.version.toNat
  messageType := p.messageType.toNat
  maapVersion := p.maapVersion.toNat
  controlDataLength := p.controlDataLength.toNat
  streamId := p.streamId.toNat
  requestedStartAddress := p.requestedStartAddress.toNat
  requestedCount := p.requestedCount.toNat
  conflictStartAddress := p.conflictStartAddress.toNat
  conflictCount := p.conflictCount.toNat

theorem MaapPacket.toPacket_injective {p q : MaapPacket} (h : p.toPacket = q.toPacket) :
    p = q := by
  cases p
  cases q
  simp only [toPacket, Packet.mk.injEq, UInt64.toNat_inj, UInt16.toNat_inj, UInt8.toNat_inj] at h
  simp only [MaapPacket.mk.injEq]
  exact h

theorem foldl_beValue (l : List UInt8) (acc : Nat) :
    l.foldl (fun acc b => acc * 256 + b.toNat) acc = acc * 256 ^ l.length + beValue l := by
  induction l generalizing acc with
  | nil => simp [beValue]
  | cons b l ih =>
    grind [beValue, pow_succ]

theorem beValue_append (a b : List UInt8) :
    beValue (a ++ b) = beValue a * 256 ^ b.length + beValue b := by
  rw [beValue, foldl_append, foldl_beValue b]
  rfl

theorem beValue_lt (l : List UInt8) : beValue l < 256 ^ l.length := by
  have h := foldl_beValue_lt l 0
  rwa [zero_add, one_mul] at h

theorem beBytes_mod (k v n : Nat) (h : k ≤ n) : beBytes k (v % 256 ^ n) = beBytes k v := by
  induction k with
  | zero => rfl
  | succ k ih =>
    obtain ⟨m, rfl⟩ : ∃ m, n = k + (m + 1) := ⟨n - k - 1, by omega⟩
    have hbyte : UInt8.ofNat (v % 256 ^ (k + (m + 1)) / 256 ^ k) = UInt8.ofNat (v / 256 ^ k) := by
      apply UInt8.toNat_inj.mp
      rw [pow_add, mod_mul_right_div_self, UInt8.toNat_ofNat', UInt8.toNat_ofNat',
        pow_succ, mul_comm (256 ^ m)]
      exact mod_mul_right_mod (v / 256 ^ k) 256 (256 ^ m)
    rw [beBytes, beBytes, hbyte, ih (by omega)]

theorem beBytes_beValue (l : List UInt8) : beBytes l.length (beValue l) = l := by
  induction l with
  | nil => rfl
  | cons b l ih =>
    have hvalue : beValue (b :: l) = b.toNat * 256 ^ l.length + beValue l := by
      have h := beValue_append [b] l
      simpa [beValue] using h
    have hlt := beValue_lt l
    have hhead : UInt8.ofNat (beValue (b :: l) / 256 ^ l.length) = b := by
      rw [hvalue, Nat.mul_comm, Nat.mul_add_div (Nat.pow_pos (by decide)), Nat.div_eq_of_lt hlt, Nat.add_zero]
      simp
    have hrest : beBytes l.length (beValue (b :: l)) = l := by
      rw [← beBytes_mod _ _ l.length le_rfl, hvalue, Nat.mul_comm, Nat.mul_add_mod,
        mod_eq_of_lt hlt, ih]
    rw [length_cons, beBytes, hhead, hrest]

theorem take_beBytes (k j v : Nat) : (beBytes (k + j) (v * 256 ^ j)).take k = beBytes k v := by
  induction k with
  | zero => rfl
  | succ k ih =>
    have hbyte : v * 256 ^ j / 256 ^ (k + j) = v / 256 ^ k := by
      rw [Nat.pow_add]
      exact Nat.mul_div_mul_right v _ (Nat.pow_pos (by decide))
    rw [show k + 1 + j = k + j + 1 by omega, beBytes, take_succ_cons, ih, hbyte, beBytes]

theorem length_memcpy {dst src : List UInt8} {n : Nat} (hdst : n ≤ dst.length)
    (hsrc : n ≤ src.length) : (memcpy dst src n).length = dst.length := by
  rw [memcpy, length_append, length_take, length_drop]
  omega

theorem toNat_six {tmp src : List UInt8} (htmp : tmp.length = 8) (hsrc : 6 ≤ src.length) :
    (be64toh (memcpy tmp src 6) >>> 16).toNat = beValue (src.take 6) := by
  have hlen : (tmp.drop 6).length = 2 := by
    rw [length_drop]
    omega
  have hlow := beValue_lt (tmp.drop 6)
  have hhigh := beValue_lt (src.take 6)
  rw [length_take, min_eq_left hsrc] at hhigh
  rw [hlen] at hlow
  have hvalue : beValue (memcpy tmp src 6) = beValue (src.take 6) * 65536 + beValue (tmp.drop 6) := by
    rw [memcpy, beValue_append, hlen]
    norm_num
  have hfits : beValue (memcpy tmp src 6) < 2 ^ 64 := by omega
  rw [UInt64.toNat_shiftRight, be64toh, UInt64.toNat_ofNat_of_lt' hfits, hvalue]
  change (_ : Nat) >>> 16 = _
  rw [shiftRight_eq_div_pow]
  omega

theorem toNat_eight {tmp src : List UInt8} (htmp : tmp.length = 8) (hsrc : 8 ≤ src.length) :
    (be64toh (memcpy tmp src 8)).toNat = beValue (src.take 8) := by
  have hvalue := beValue_lt (src.take 8)
  grind [min_eq_left, be64toh, memcpy, UInt64.toNat_ofNat_of_lt']

theorem toNat_two {tmp src : List UInt8} (htmp : tmp.length = 2) (hsrc : 2 ≤ src.length) :
    (be16toh (memcpy tmp src 2)).toNat = beValue (src.take 2) := by
  have hvalue := beValue_lt (src.take 2)
  grind [min_eq_left, be16toh, memcpy, UInt16.toNat_ofNat_of_lt']

theorem toNat_headD {src : List UInt8} (hsrc : 1 ≤ src.length) :
    (src.headD 0).toNat = beValue (src.take 1) := by
  cases src with
  | nil => cases hsrc
  | cons b src => simp [beValue]

theorem toNat_flagBits (b : UInt8) :
    ((b &&& 0x80) >>> 7).toNat = b.toNat / 128 ∧ ((b &&& 0x70) >>> 4).toNat = b.toNat / 16 % 8 ∧
      (b &&& 0x0f).toNat = b.toNat % 16 ∧ ((b &&& 0xf8) >>> 3).toNat = b.toNat / 8 := by
  have hbits : ∀ n : Fin 256, (n.val &&& 0x80) >>> 7 = n.val / 128 ∧
      (n.val &&& 0x70) >>> 4 = n.val / 16 % 8 ∧ n.val &&& 0x0f = n.val % 16 ∧
      (n.val &&& 0xf8) >>> 3 = n.val / 8 := by
    decide +kernel
  have h := hbits ⟨b.toNat, b.toNat_lt⟩
  simp_all

theorem toNat_and_mask (x : UInt16) : (x &&& 0x07ff).toNat = x.toNat % 2048 := by
  rw [UInt16.toNat_and]
  exact and_two_pow_sub_one_eq_mod x.toNat 11

theorem beValue_two {src : List UInt8} (hsrc : 2 ≤ src.length) :
    beValue (src.take 2) / 2048 = beValue (src.take 1) / 8 := by
  match src, hsrc with
  | a :: b :: _, _ =>
    have ha := a.toNat_lt
    have hb := b.toNat_lt
    simp only [take_succ_cons, take_zero, beValue, foldl_cons, foldl_nil]
    omega

theorem toPacket_unpackMaap {tmp64 tmp16 stream : List UInt8} (h64 : tmp64.length = 8)
    (h16 : tmp16.length = 2) (hlen : maapPktSize ≤ stream.length) :
    (unpackMaap tmp64 tmp16 stream).toPacket = Maap.unpackMaap stream := by
  unfold maapPktSize at hlen
  have hrest (k : Nat) : (stream.drop k).length = stream.length - k := length_drop
  -- the variables keep their width from one field to the next
  have hsix (k : Nat) (hk : k + 6 ≤ 42) {tmp : List UInt8} (htmp : tmp.length = 8) :
      (memcpy tmp (stream.drop k) 6).length = 8 := by
    rw [length_memcpy (by omega) (by rw [hrest]; omega), htmp]
  have hda := hsix 0 (by omega) h64
  have hsa := hsix 6 (by omega) hda
  have hid : (memcpy (memcpy (memcpy tmp64 (stream.drop 0) 6) (stream.drop 6) 6)
      (stream.drop 18) 8).length = 8 := by
    rw [length_memcpy (by omega) (by rw [hrest]; omega), hsa]
  have hstart := hsix 26 (by omega) hid
  have htwo (k : Nat) (hk : k + 2 ≤ 42) {tmp : List UInt8} (htmp : tmp.length = 2) :
      (memcpy tmp (stream.drop k) 2).length = 2 := by
    rw [length_memcpy (by omega) (by rw [hrest]; omega), htmp]
  have hether := htwo 12 (by omega) h16
  have hlength := htwo 16 (by omega) hether
  have hcount := htwo 32 (by omega) hlength
  have hone (k : Nat) (hk : k + 1 ≤ 42) : ((stream.drop k).headD 0).toNat = fieldAt k 1 stream :=
    toNat_headD (by rw [hrest]; omega)
  have hflags := toNat_flagBits ((stream.drop 15).headD 0)
  have hversion := (toNat_flagBits ((stream.drop 16).headD 0)).2.2.2
  rw [hone 15 (by omega)] at hflags
  rw [hone 16 (by omega)] at hversion
  unfold unpackMaap MaapPacket.toPacket Maap.unpackMaap
  simp only [drop_drop, Packet.mk.injEq]
  refine ⟨?_, ?_, ?_, ?_, hflags.1, hflags.2.1, hflags.2.2.1, ?_, ?_, ?_, ?_, ?_, ?_, ?_⟩
  · exact toNat_six h64 (by omega)
  · exact toNat_six hda (by rw [hrest]; omega)
  · exact toNat_two h16 (by rw [hrest]; omega)
  · exact hone 14 (by omega)
  · exact hversion.trans (beValue_two (by rw [hrest]; omega)).symm
  · rw [toNat_and_mask]
    exact congrArg (· % 2048) (toNat_two hether (by rw [hrest]; omega))
  · exact toNat_eight hsa (by rw [hrest]; omega)
  · exact toNat_six hid (by rw [hrest]; omega)
  · exact toNat_two hlength (by rw [hrest]; omega)
  · exact toNat_six hstart (by rw [hrest]; omega)
  · exact toNat_two hcount (by rw [hrest]; omega)

theorem take_htobe64 (x : UInt64) : (htobe64 (x <<< 16)).take 6 = beBytes 6 x.toNat := by
  have hshift : (x <<< 16).toNat = x.toNat * 256 ^ 2 % 256 ^ 8 := by
    rw [UInt64.toNat_shiftLeft]
    change x.toNat <<< 16 % _ = _
    rw [shiftLeft_eq]
    norm_num
  rw [htobe64, hshift, beBytes_mod 8 _ 8 le_rfl]
  exact take_beBytes 6 2 x.toNat

theorem toNat_flags (p : MaapPacket) : p.flags.toNat = p.toPacket.flags % 256 := by
  have hsv : p.sv.toNat <<< 7 % 2 ^ 8 = (p.sv.toNat % 2) <<< 7 := by
    simp only [shiftLeft_eq]
    omega
  have hversion : (p.version.toNat &&& 7) <<< 4 % 2 ^ 8 = (p.version.toNat % 8) <<< 4 := by
    rw [show p.version.toNat &&& 7 = p.version.toNat % 8 from and_two_pow_sub_one_eq_mod _ 3]
    simp only [shiftLeft_eq]
    omega
  have htype : p.messageType.toNat &&& 15 = p.messageType.toNat % 16 :=
    and_two_pow_sub_one_eq_mod _ 4
  have hbits : p.flags.toNat = p.sv.toNat <<< 7 % 2 ^ 8 |||
      (p.version.toNat &&& 7) <<< 4 % 2 ^ 8 ||| (p.messageType.toNat &&& 15) := by
    simp only [MaapPacket.flags, UInt8.toNat_or, UInt8.toNat_shiftLeft, UInt8.toNat_and]
    rfl
  have hlow : (p.version.toNat % 8) <<< 4 + p.messageType.toNat % 16 < 2 ^ 7 := by
    simp only [Nat.shiftLeft_eq]
    omega
  rw [hbits, hsv, hversion, htype, Nat.or_assoc,
    ← Nat.shiftLeft_add_eq_or_of_lt (by omega) (p.version.toNat % 8),
    ← Nat.shiftLeft_add_eq_or_of_lt hlow]
  simp only [Nat.shiftLeft_eq, Packet.flags, MaapPacket.toPacket]
  omega

theorem toNat_versionAndLength (p : MaapPacket) :
    p.versionAndLength.toNat = p.toPacket.versionAndLength := by
  have hversion : (p.maapVersion.toNat &&& 31) <<< 11 % 2 ^ 16 =
      (p.maapVersion.toNat % 32) <<< 11 := by
    rw [show p.maapVersion.toNat &&& 31 = p.maapVersion.toNat % 32 from
      and_two_pow_sub_one_eq_mod _ 5]
    simp only [shiftLeft_eq]
    omega
  have hlength : p.controlDataLength.toNat &&& 2047 = p.controlDataLength.toNat % 2048 :=
    and_two_pow_sub_one_eq_mod _ 11
  have hbits : p.versionAndLength.toNat = (p.maapVersion.toNat &&& 31) <<< 11 % 2 ^ 16 |||
      (p.controlDataLength.toNat &&& 2047) := by
    simp only [MaapPacket.versionAndLength, UInt16.toNat_or, UInt16.toNat_shiftLeft,
      UInt16.toNat_and, UInt8.toNat_toUInt16]
    rfl
  rw [hbits, hversion, hlength, ← shiftLeft_add_eq_or_of_lt (by omega), shiftLeft_eq]
  rfl

theorem singleton_eq_beBytes {b : UInt8} {v : Nat} (h : b.toNat = v % 256) : [b] = beBytes 1 v := by
  have hb : b = UInt8.ofNat (v / 256 ^ 0) := by
    apply UInt8.toNat_inj.mp
    rw [h, Nat.pow_zero, Nat.div_one, UInt8.toNat_ofNat']
  rw [hb]
  rfl

theorem packMaap_eq (p : MaapPacket) : packMaap p = Maap.packMaap p.toPacket := by
  have hsubtype : [p.subtype.toUInt8] = beBytes 1 p.subtype.toNat :=
    singleton_eq_beBytes p.subtype.toNat_toUInt8
  have hflags : [p.flags] = beBytes 1 p.toPacket.flags :=
    singleton_eq_beBytes (toNat_flags p)
  have hlength : htobe16 p.versionAndLength = beBytes 2 p.toPacket.versionAndLength := by
    rw [htobe16, toNat_versionAndLength]
  unfold packMaap
  rw [take_htobe64, take_htobe64, take_htobe64, take_htobe64, hsubtype, hflags, hlength]
  rfl

def fieldsFrom (stream : List UInt8) : Nat → List Nat → List (Nat × Nat)
  | _, [] => []
  | off, w :: ws => (w, fieldAt off w stream) :: fieldsFrom stream (off + w) ws

theorem packed_fieldsFrom {stream : List UInt8} (off : Nat) (ws : List Nat)
    (h : off + ws.sum ≤ stream.length) :
    packed (fieldsFrom stream off ws) = (stream.drop off).take ws.sum := by
  induction ws generalizing off with
  | nil => rfl
  | cons w ws ih =>
    rw [sum_cons] at h
    have hlen : ((stream.drop off).take w).length = w := by
      rw [length_take, length_drop]
      omega
    have hfirst : beBytes w (fieldAt off w stream) = (stream.drop off).take w := by
      have hback := beBytes_beValue ((stream.drop off).take w)
      rwa [hlen] at hback
    rw [fieldsFrom, packed, hfirst, ih (off + w) (by omega), sum_cons, take_add,
      drop_drop]

def fieldWidths : List Nat :=
  [6, 6, 2, 1, 1, 2, 8, 6, 2, 6, 2]

theorem fields_unpackMaap (stream : List UInt8) :
    (Maap.unpackMaap stream).fields = fieldsFrom stream 0 fieldWidths := by
  have hflags : (Maap.unpackMaap stream).flags = fieldAt 15 1 stream := by
    have hbyte := fieldAt_lt 15 1 stream
    simp only [Packet.flags, Maap.unpackMaap]
    omega
  have hlength : (Maap.unpackMaap stream).versionAndLength = fieldAt 16 2 stream := by
    have hword := fieldAt_lt 16 2 stream
    simp only [Packet.versionAndLength, Maap.unpackMaap]
    omega
  rw [Packet.fields, hflags, hlength]
  rfl

theorem packMaap_unpackMaap {stream : List UInt8} (h : stream.length = maapPktSize) :
    Maap.packMaap (Maap.unpackMaap stream) = stream := by
  rw [Maap.packMaap, fields_unpackMaap, packed_fieldsFrom 0 fieldWidths (le_of_eq h.symm)]
  exact take_of_length_le (le_of_eq h)

structure MaapPacket.Fits (p : MaapPacket) : Prop where
  da : p.da < 2 ^ 48
  sa : p.sa < 2 ^ 48
  subtype : p.subtype < 2 ^ 8
  sv : p.sv < 2
  version : p.version < 8
  messageType : p.messageType < 16
  maapVersion : p.maapVersion < 32
  controlDataLength : p.controlDataLength < 2048
  requestedStartAddress : p.requestedStartAddress < 2 ^ 48
  conflictStartAddress : p.conflictStartAddress < 2 ^ 48

theorem MaapPacket.Fits.toPacket {p : MaapPacket} (h : p.Fits) : p.toPacket.Fits where
  da := UInt64.lt_iff_toNat_lt.mp h.da
  sa := UInt64.lt_iff_toNat_lt.mp h.sa
  ethertype := p.ethertype.toNat_lt
  subtype := UInt16.lt_iff_toNat_lt.mp h.subtype
  sv := UInt8.lt_iff_toNat_lt.mp h.sv
  version := UInt8.lt_iff_toNat_lt.mp h.version
  messageType := UInt8.lt_iff_toNat_lt.mp h.messageType
  maapVersion := UInt8.lt_iff_toNat_lt.mp h.maapVersion
  controlDataLength := UInt16.lt_iff_toNat_lt.mp h.controlDataLength
  streamId := p.streamId.toNat_lt
  requestedStartAddress := UInt64.lt_iff_toNat_lt.mp h.requestedStartAddress
  requestedCount := p.requestedCount.toNat_lt
  conflictStartAddress := UInt64.lt_iff_toNat_lt.mp h.conflictStartAddress
  conflictCount := p.conflictCount.toNat_lt

/-- `pack_maap` and `unpack_maap` are inverse to each other, whatever the variables of
`unpack_maap` hold at the start and whatever follows the packet in the buffer. -/
theorem packMaap_inverse {tmp64 tmp16 : List UInt8} (h64 : tmp64.length = 8)
    (h16 : tmp16.length = 2) :
    (∀ p : MaapPacket, p.Fits → ∀ rest, unpackMaap tmp64 tmp16 (packMaap p ++ rest) = p) ∧
      ∀ stream : List UInt8, stream.length = maapPktSize →
        packMaap (unpackMaap tmp64 tmp16 stream) = stream := by
  constructor
  · intro p hp rest
    apply MaapPacket.toPacket_injective
    have hlen : maapPktSize ≤ (packMaap p ++ rest).length := by
      rw [packMaap_eq, length_append, length_packMaap]
      exact le_add_right _ _
    rw [toPacket_unpackMaap h64 h16 hlen, packMaap_eq, unpackMaap_packMaap hp.toPacket]
  · intro stream hlen
    rw [packMaap_eq, toPacket_unpackMaap h64 h16 (le_of_eq hlen.symm), packMaap_unpackMaap hlen]

def widestProbe : MaapPacket where
  da := 0x91E0F000FF00
  sa := 0xFFFFFFFFFFFF
  ethertype := 0x22F0
  subtype := 0xFE
  sv := 1
  version := 7
  messageType := 1
  maapVersion := 31
  controlDataLength := 2047
  streamId := 0xFFFFFFFFFFFFFFFF
  requestedStartAddress := 0x91E0F0000000
  requestedCount := 5
  conflictStartAddress := 0
  conflictCount := 0

theorem packMaap_inverse_widestProbe :
    unpackMaap (List.replicate 8 0xEE) [0xEE, 0xEE] (packMaap widestProbe ++ [0xAA]) =
        widestProbe ∧
      packMaap (unpackMaap (List.replicate 8 0xEE) [0xEE, 0xEE] (List.replicate 42 0xFF)) =
        List.replicate 42 0xFF := by
  have hfits : widestProbe.Fits := by constructor <;> decide
  exact ⟨(packMaap_inverse rfl rfl).1 widestProbe hfits [0xAA],
    (packMaap_inverse rfl rfl).2 (List.replicate 42 0xFF) rfl⟩

end Avb4Linux.Maap.Wire
