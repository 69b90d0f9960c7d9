import Mathlib.Data.Nat.Digits.Defs
import Avb4Linux.Mrp.MsrpReception
import Avb4Linux.Mrp.Mmrp
import Avb4Linux.Mrp.Mvrp

/-!
# Answers to dump requests

The dump functions write one line for each attribute into a buffer of `MAX_MRPD_CMDSZ` bytes.
-/

namespace Avb4Linux.Mrp

def hex2 (b : UInt8) : List Char :=
  [Nat.digitChar (b.toNat / 16), Nat.digitChar (b.toNat % 16)]

def hex4 (w : UInt16) : List Char :=
  [Nat.digitChar (w.toNat / 4096), Nat.digitChar (w.toNat / 256 % 16),
    Nat.digitChar (w.toNat / 16 % 16), Nat.digitChar (w.toNat % 16)]

def hexBytes {n : Nat} (v : Vector UInt8 n) : List Char :=
  v.toList.flatMap hex2

def decimal (n : Nat) : List Char :=
  Nat.toDigits 10 n

def decimal32 (w : UInt32) : List Char :=
  if w.toNat < 2 ^ 31 then decimal w.toNat else '-' :: decimal (2 ^ 32 - w.toNat)

def field (c : Char) : List Char :=
  [',', c, '=']

theorem length_hex4 (w : UInt16) : (hex4 w).length = 4 :=
  rfl

theorem length_field (c : Char) : (field c).length = 3 :=
  rfl

theorem length_hexBytes {n : Nat} (v : Vector UInt8 n) : (hexBytes v).length = 2 * n := by
  have hflat : ∀ l : List UInt8, (l.flatMap hex2).length = 2 * l.length := by
    intro l
    induction l with
    | nil => rfl
    | cons b l ih =>
      simp only [List.flatMap_cons, List.length_append, List.length_cons, ih, hex2,
        List.length_nil]
      omega
  unfold hexBytes
  rw [hflat, Vector.length_toList]

def AppState.name : AppState → List Char
  | .VO => ['V', 'O']
  | .VP => ['V', 'P']
  | .VN => ['V', 'N']
  | .AN => ['A', 'N']
  | .AA => ['A', 'A']
  | .QA => ['Q', 'A']
  | .LA => ['L', 'A']
  | .AO => ['A', 'O']
  | .QO => ['Q', 'O']
  | .AP => ['A', 'P']
  | .QP => ['Q', 'P']
  | .LO => ['L', 'O']

def RegState.name : RegState → List Char
  | .IN => ['I', 'N']
  | .LV => ['L', 'V']
  | .MT => ['M', 'T']

variable {V : Type}

def mrpDecodeState (a : Attrib V) : List Char :=
  a.applicant.mrpState.name ++ ['/'] ++ a.registrar.mrpState.name

def regsrc (a : Attrib V) : List Char :=
  ['R', '='] ++ hexBytes a.registrar.macaddr ++ [' '] ++ mrpDecodeState a

def mvrpDumpLine (a : Attrib Vid) : List Char :=
  ['V', ':', 'I', '='] ++ hex4 a.value ++ [' '] ++ regsrc a ++ ['\n']

/-- `variant` in `mmrp_dumptable`. -/
def mmrpVariant : MmrpValue → List Char
  | .svcreq v => ['S', '='] ++ decimal v.toNat
  | .macaddr m => ['M', '='] ++ hexBytes m

def mmrpDumpLine (a : Attrib MmrpValue) : List Char :=
  ['M'] ++ a.registrar.mrpState.name ++ [' '] ++ mmrpVariant a.value ++
    [' ', 'R', '='] ++ hexBytes a.registrar.macaddr ++ ['\n']

def talkerVariant (t : TalkListen) : List Char :=
  ['T', ':', 'S', '='] ++ hexBytes t.streamID ++ field 'A' ++ hexBytes t.destAddr ++
    field 'V' ++ hex4 t.vlanID ++ field 'Z' ++ decimal t.maxFrameSize.toNat ++
    field 'I' ++ decimal t.maxIntervalFrames.toNat ++
    field 'P' ++ decimal t.priorityAndRank.toNat ++
    field 'L' ++ decimal32 t.accumulatedLatency ++ field 'B' ++ hexBytes t.bridgeID ++
    field 'C' ++ decimal t.failureCode.toNat

/-- `variant` in `msrp_dumptable`. -/
def msrpVariant (v : MsrpValue) : List Char :=
  match v.type with
  | .LISTENER =>
    ['L', ':', 'D', '='] ++ decimal32 v.substate ++ field 'S' ++ hexBytes v.talkListen.streamID
  | .DOMAIN =>
    ['D', ':', 'C', '='] ++ decimal v.domain.srClassID.toNat ++
      field 'P' ++ decimal v.domain.srClassPriority.toNat ++
      field 'V' ++ hex4 v.domain.srClassVID ++
      field 'N' ++ decimal v.domain.neighborSRclassPriority.toNat
  | .TALKER_ADV | .TALKER_FAILED => talkerVariant v.talkListen

def msrpDumpLine (a : Attrib MsrpValue) : List Char :=
  msrpVariant a.value ++ [' '] ++ regsrc a ++ ['\n']

@[simp]
theorem AppState.length_name (s : AppState) : s.name.length = 2 := by
  cases s <;> rfl

@[simp]
theorem RegState.length_name (s : RegState) : s.name.length = 2 := by
  cases s <;> rfl

theorem length_regsrc (a : Attrib V) : (regsrc a).length = 20 := by
  simp [regsrc, mrpDecodeState, length_hexBytes]

theorem length_mvrpDumpLine (a : Attrib Vid) : (mvrpDumpLine a).length = 30 := by
  simp [mvrpDumpLine, hex4, length_regsrc]

def mmrpLineLength (a : Attrib MmrpValue) : Nat :=
  match a.value with
  | .svcreq v => 22 + (decimal v.toNat).length
  | .macaddr _ => 34

theorem length_mmrpDumpLine (a : Attrib MmrpValue) :
    (mmrpDumpLine a).length = mmrpLineLength a := by
  unfold mmrpDumpLine mmrpLineLength
  cases a.value with
  | svcreq v =>
    simp only [mmrpVariant, List.length_append, RegState.length_name, length_hexBytes]
    simp
    omega
  | macaddr m =>
    simp [mmrpVariant, length_hexBytes]

def msrpLineLength (a : Attrib MsrpValue) : Nat :=
  match a.value.type with
  | .LISTENER => 45 + (decimal32 a.value.substate).length
  | .DOMAIN =>
    39 + (decimal a.value.domain.srClassID.toNat).length +
      (decimal a.value.domain.srClassPriority.toNat).length +
      (decimal a.value.domain.neighborSRclassPriority.toNat).length
  | .TALKER_ADV | .TALKER_FAILED =>
    let t := a.value.talkListen
    98 + (decimal t.maxFrameSize.toNat).length + (decimal t.maxIntervalFrames.toNat).length +
      (decimal t.priorityAndRank.toNat).length + (decimal32 t.accumulatedLatency).length +
      (decimal t.failureCode.toNat).length

theorem length_talkerVariant (t : TalkListen) :
    (talkerVariant t).length =
      76 + (decimal t.maxFrameSize.toNat).length + (decimal t.maxIntervalFrames.toNat).length +
        (decimal t.priorityAndRank.toNat).length + (decimal32 t.accumulatedLatency).length +
        (decimal t.failureCode.toNat).length := by
  unfold talkerVariant
  simp only [List.length_append, length_hexBytes, length_hex4, length_field, List.length_cons,
    List.length_nil]
  omega

theorem length_msrpVariant_add (a : Attrib MsrpValue) :
    (msrpVariant a.value).length + 22 = msrpLineLength a := by
  unfold msrpVariant msrpLineLength
  cases a.value.type with
  | LISTENER =>
    simp only [List.length_append, length_hexBytes, length_field, List.length_cons,
      List.length_nil]
    omega
  | DOMAIN =>
    simp only [List.length_append, length_hex4, length_field, List.length_cons,
      List.length_nil]
    omega
  | TALKER_ADV =>
    simp only [length_talkerVariant]
    omega
  | TALKER_FAILED =>
    simp only [length_talkerVariant]
    omega

theorem length_msrpDumpLine (a : Attrib MsrpValue) :
    (msrpDumpLine a).length = msrpLineLength a := by
  rw [← length_msrpVariant_add, msrpDumpLine]
  simp only [List.length_append, length_regsrc, List.length_cons, List.length_nil]

def maxMrpdCmdsz : Nat := 1500

/-- `sprintf(buf + off, "%s", text)`: the text and a terminating zero, or `none` if
they do not stay inside the buffer. -/
def sprintfAt (off : Nat) (text buf : List Char) : Option (List Char) :=
  if off + text.length < buf.length then
    some (buf.take off ++ text ++ '\x00' :: buf.drop (off + text.length + 1))
  else none

/-- The loop over the attributes. `strnlen(stage, 128)` is the length of the line,
which is shorter. -/
def dumpLoop : List (List Char) → Nat → List Char → Option (List Char)
  | [], _, buf => some buf
  | line :: lines, off, buf => do
    let buf ← sprintfAt off line buf
    dumpLoop lines (off + line.length) buf

def dumptable (empty : List Char) (lines : List (List Char)) : Option (List Char) :=
  let msgbuf := List.replicate maxMrpdCmdsz '\x00'
  match lines with
  | [] => sprintfAt 0 empty msgbuf
  | line :: lines => dumpLoop (line :: lines) 0 msgbuf

def mvrpDumptable (db : Database Vid) : Option (List Char) :=
  dumptable ['M', 'V', 'R', 'P', ':', 'E', 'm', 'p', 't', 'y', '\n']
    (db.attribList.map mvrpDumpLine)

def mmrpDumptable (db : Database MmrpValue) : Option (List Char) :=
  dumptable ['M', 'M', 'R', 'P', ':', 'E', 'm', 'p', 't', 'y', '\n']
    (db.attribList.map mmrpDumpLine)

def msrpDumptable (db : MsrpDatabase) : Option (List Char) :=
  dumptable ['M', 'S', 'R', 'P', ':', 'E', 'm', 'p', 't', 'y', '\n']
    (db.attribList.map msrpDumpLine)

theorem sprintfAt_zeros (done text : List Char) (k : Nat) :
    sprintfAt done.length text (done ++ List.replicate k '\x00') =
      if text.length < k then some (done ++ text ++ List.replicate (k - text.length) '\x00')
      else none := by
  unfold sprintfAt
  rw [List.length_append, List.length_replicate]
  by_cases h : text.length < k
  · have hroom : done.length + text.length < done.length + k := by omega
    have hdrop : done.length + text.length + 1 = done.length + (text.length + 1) := by omega
    have hzeros : k - text.length = (k - (text.length + 1)) + 1 := by omega
    rw [if_pos hroom, if_pos h, List.take_left, hdrop, List.drop_append, List.drop_replicate,
      hzeros, List.replicate_succ]
    simp
  · grind

theorem dumpLoop_zeros (lines : List (List Char)) (done : List Char) {k : Nat} (hk : 0 < k) :
    dumpLoop lines done.length (done ++ List.replicate k '\x00') =
      if lines.flatten.length < k then
        some (done ++ lines.flatten ++ List.replicate (k - lines.flatten.length) '\x00')
      else none := by
  induction lines generalizing done k with
  | nil => simp [dumpLoop, hk]
  | cons line lines ih =>
    rw [dumpLoop, sprintfAt_zeros]
    by_cases h : line.length < k
    · have hk' : 0 < k - line.length := by omega
      have hrest := ih (done ++ line) hk'
      rw [List.length_append] at hrest
      rw [if_pos h]
      dsimp only [Option.bind_eq_bind, Option.bind_some]
      rw [hrest, List.flatten_cons, List.length_append, Nat.sub_sub, List.append_assoc done line]
      by_cases hfit : lines.flatten.length < k - line.length
      · rw [if_pos hfit, if_pos (by omega)]
      · rw [if_neg hfit, if_neg (by omega)]
    · rw [if_neg h, List.flatten_cons, List.length_append, if_neg (by omega)]
      rfl

def reply (empty : List Char) (lines : List (List Char)) : List Char :=
  if lines = [] then empty else lines.flatten

theorem dumptable_eq (empty : List Char) (lines : List (List Char)) :
    dumptable empty lines =
      if (reply empty lines).length < maxMrpdCmdsz then
        some (reply empty lines ++
          List.replicate (maxMrpdCmdsz - (reply empty lines).length) '\x00')
      else none := by
  cases lines with
  | nil =>
    have h := sprintfAt_zeros [] empty maxMrpdCmdsz
    rw [List.nil_append, List.nil_append] at h
    exact h
  | cons line lines =>
    have h := dumpLoop_zeros (line :: lines) [] (k := maxMrpdCmdsz) (by decide)
    rw [List.nil_append, List.nil_append] at h
    rw [reply, if_neg (List.cons_ne_nil line lines)]
    exact h

def totalLength (len : Attrib V → Nat) : List (Attrib V) → Nat
  | [] => 0
  | a :: l => len a + totalLength len l

theorem length_flatten_lines {line : Attrib V → List Char} {len : Attrib V → Nat}
    (h : ∀ a, (line a).length = len a) (l : List (Attrib V)) :
    (l.map line).flatten.length = totalLength len l := by
  induction l with
  | nil => rfl
  | cons a l ih =>
    rw [List.map_cons, List.flatten_cons, List.length_append, ih, h]
    rfl

theorem dumptable_isSome_iff {line : Attrib V → List Char} {len : Attrib V → Nat}
    (h : ∀ a, (line a).length = len a) {empty : List Char} (hempty : empty.length < maxMrpdCmdsz)
    (l : List (Attrib V)) :
    (dumptable empty (l.map line)).isSome = true ↔ totalLength len l < maxMrpdCmdsz := by
  grind [reply, maxMrpdCmdsz, totalLength, Nat.lt_of_le_of_lt, length_flatten_lines, dumptable_eq]

theorem totalLength_const (n : Nat) (l : List (Attrib V)) :
    totalLength (fun _ => n) l = n * l.length := by
  induction l with
  | nil => rfl
  | cons a l ih => rw [totalLength, ih, List.length_cons, Nat.mul_succ, Nat.add_comm]

theorem mvrpDumptable_isSome_iff (db : Database Vid) :
    (mvrpDumptable db).isSome = true ↔ db.attribList.length < 50 := by
  have hvids : (mvrpDumptable db).isSome = true ↔
      totalLength (fun _ => 30) db.attribList < maxMrpdCmdsz :=
    dumptable_isSome_iff length_mvrpDumpLine (by decide) db.attribList
  rw [hvids, totalLength_const, maxMrpdCmdsz]
  omega

/-- A dump request is answered inside the reply buffer exactly if the lines of the
database are shorter than it; for MVRP these are fewer than fifty VIDs. -/
theorem dumptables_inside_iff (v : Database Vid) (m : Database MmrpValue) (s : MsrpDatabase) :
    ((mvrpDumptable v).isSome = true ↔ v.attribList.length < 50) ∧
      ((mmrpDumptable m).isSome = true ↔
        totalLength mmrpLineLength m.attribList < maxMrpdCmdsz) ∧
      ((msrpDumptable s).isSome = true ↔
        totalLength msrpLineLength s.attribList < maxMrpdCmdsz) := by
  refine ⟨?_, ?_, ?_⟩
  · exact mvrpDumptable_isSome_iff v
  · exact dumptable_isSome_iff length_mmrpDumpLine (by decide) m.attribList
  · exact dumptable_isSome_iff length_msrpDumpLine (by decide) s.attribList

def fiftyVids : Frame :=
  mvrpCustomerBridgeAddr ++ [2, 0, 0, 0, 0, 1] ++ Lib.Packing.be16 mvrpEtype ++
    [0, 1, 2, 0, 50, 0, 1] ++ List.replicate 17 43 ++ [0, 0, 0, 0]

/-- After one PDU with fifty VIDs the answer to `V??` is 1500 characters long, and its
terminating zero is written behind the buffer. -/
theorem mvrp_dump_overruns :
    (mvrpRecvMsg { now := 0 } fiftyVids (mvrpInit { now := 0 })).1.attribList.length = 50 ∧
      mvrpDumptable (mvrpRecvMsg { now := 0 } fiftyVids (mvrpInit { now := 0 })).1 = none := by
  have hlen :
      (mvrpRecvMsg { now := 0 } fiftyVids (mvrpInit { now := 0 })).1.attribList.length = 50 := by
    decide +kernel
  refine ⟨hlen, ?_⟩
  rw [← Option.not_isSome_iff_eq_none, mvrpDumptable_isSome_iff, hlen]
  decide

end Avb4Linux.Mrp
