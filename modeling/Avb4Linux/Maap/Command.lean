import Mathlib.Algebra.Group.Nat.Defs
import Mathlib.Data.List.Basic
import Mathlib.Data.List.GetD
import Mathlib.Data.List.TakeWhile

/-!
# The commands of the MAAP daemon

`parse_write` and `parse_text_cmd` of `maap_parse.c`.
-/

namespace Avb4Linux.Maap

open List

def cString (p : Nat) (mem : List UInt8) : List UInt8 :=
  (mem.drop p).takeWhile (· ≠ 0)

def ascii (text : List Char) : List UInt8 :=
  text.map fun c => UInt8.ofNat c.toNat

def strncmpEq (a b : List UInt8) (n : Nat) : Bool :=
  (a ++ [0]).take n = (b ++ [0]).take n

def isDelimiter (b : UInt8) : Bool :=
  b = 0x20 || b = 0x0d || b = 0x0a

/-- What `strtok` returns, the pointer it saves, and the memory it leaves with the
addresses it wrote to. -/
structure Token where
  start : Nat
  saved : Nat
  mem : List UInt8
  written : List Nat

def strtok (p : Nat) (mem : List UInt8) : Option Token :=
  let start := p + ((cString p mem).takeWhile isDelimiter).length
  let token := (cString start mem).takeWhile fun b => !isDelimiter b
  if token.isEmpty then none
  else
    let stop := start + token.length
    if mem.getD stop 0 = 0 then some ⟨start, stop, mem, []⟩
    else some ⟨start, stop + 1, mem.set stop 0, [stop]⟩

structure Arguments where
  argv : List Nat
  mem : List UInt8
  written : List Nat

def collect : Nat → Nat → List UInt8 → Arguments
  | 0, p, mem =>
    match strtok p mem with
    | none => ⟨[], mem, []⟩
    | some t => ⟨[], t.mem, t.written⟩
  | room + 1, p, mem =>
    match strtok p mem with
    | none => ⟨[], mem, []⟩
    | some t =>
      let rest := collect room t.saved t.mem
      ⟨t.start :: rest.argv, rest.mem, t.written ++ rest.written⟩

def isSpace (b : UInt8) : Bool :=
  b = 0x20 || 0x09 ≤ b && b ≤ 0x0d

def digitValue (b : UInt8) : Option Nat :=
  if 0x30 ≤ b ∧ b ≤ 0x39 then some (b.toNat - 0x30)
  else if 0x41 ≤ b ∧ b ≤ 0x5a then some (b.toNat - 0x41 + 10)
  else if 0x61 ≤ b ∧ b ≤ 0x7a then some (b.toNat - 0x61 + 10)
  else none

def digitsOf (base : Nat) : List UInt8 → List Nat
  | [] => []
  | b :: bs =>
    match digitValue b with
    | none => []
    | some d => if d < base then d :: digitsOf base bs else []

/-- The base of a number and its text without the mark of the base; base 0 leaves the
choice to the text. -/
def baseOf (base : Nat) (s : List UInt8) : Nat × List UInt8 :=
  if (base = 0 ∨ base = 16) ∧ (s.take 2 = ascii ['0', 'x'] ∨ s.take 2 = ascii ['0', 'X']) then
    (16, s.drop 2)
  else if base = 0 then (if s.take 1 = ascii ['0'] then 8 else 10, s)
  else (base, s)

def strtoul (s : List UInt8) (base : Nat) : Nat :=
  let s := s.dropWhile isSpace
  let negative := s.take 1 = ascii ['-']
  let s := if negative ∨ s.take 1 = ascii ['+'] then s.drop 1 else s
  let x := baseOf base s
  let value := (digitsOf x.1 x.2).foldl (fun v d => v * x.1 + d) 0
  if 2 ^ 64 ≤ value then 2 ^ 64 - 1
  else if negative then (2 ^ 64 - value) % 2 ^ 64
  else value

inductive CmdKind where
  | INIT | RESERVE | RELEASE | STATUS | YIELD | EXIT
  deriving DecidableEq, Repr

def CmdKind.ofTag : Nat → Option CmdKind
  | 1 => some INIT
  | 2 => some RESERVE
  | 3 => some RELEASE
  | 4 => some STATUS
  | 5 => some YIELD
  | 6 => some EXIT
  | _ => none

structure Cmd where
  kind : CmdKind
  id : UInt32
  start : UInt64
  count : UInt32
  deriving DecidableEq, Repr

def maapDynamicPoolBase : UInt64 := 0x91E0F0000000

def maapDynamicPoolSize : UInt32 := 0xFE00

/-- `parse_text_cmd` from `argv` on. The comparison of `status` and of `yield` includes
the end of the text, the others do not. -/
def parseTextCmd : List (List UInt8) → Option Cmd
  | [a] =>
    if strncmpEq a (ascii ['i', 'n', 'i', 't']) 4 then
      some ⟨.INIT, -1, maapDynamicPoolBase, maapDynamicPoolSize⟩
    else if strncmpEq a (ascii ['e', 'x', 'i', 't']) 4 then some ⟨.EXIT, -1, 0, 0⟩
    else none
  | [a, b] =>
    if strncmpEq a (ascii ['i', 'n', 'i', 't']) 4 then none
    else if strncmpEq a (ascii ['r', 'e', 's', 'e', 'r', 'v', 'e']) 7 then
      some ⟨.RESERVE, -1, 0, UInt32.ofNat (strtoul b 0)⟩
    else if strncmpEq a (ascii ['r', 'e', 'l', 'e', 'a', 's', 'e']) 7 then
      some ⟨.RELEASE, UInt32.ofNat (strtoul b 0), 0, 0⟩
    else if strncmpEq a (ascii ['s', 't', 'a', 't', 'u', 's']) 7 then
      some ⟨.STATUS, UInt32.ofNat (strtoul b 0), 0, 0⟩
    else if strncmpEq a (ascii ['y', 'i', 'e', 'l', 'd']) 7 then
      some ⟨.YIELD, UInt32.ofNat (strtoul b 0), 0, 0⟩
    else none
  | [a, b, c] =>
    if strncmpEq a (ascii ['i', 'n', 'i', 't']) 4 then
      some ⟨.INIT, -1, UInt64.ofNat (strtoul b 16), UInt32.ofNat (strtoul c 0)⟩
    else if strncmpEq a (ascii ['r', 'e', 's', 'e', 'r', 'v', 'e']) 7 then
      some ⟨.RESERVE, -1, UInt64.ofNat (strtoul b 16), UInt32.ofNat (strtoul c 0)⟩
    else none
  | _ => none

def loadLe (mem : List UInt8) : Nat → Nat → Nat
  | 0, _ => 0
  | n + 1, p => (mem.getD p 0).toNat + 256 * loadLe mem n (p + 1)

/-- What `parse_write` makes of the memory: the command, if it recognizes one, whether
the input is text, and what it writes. -/
structure Parsed where
  command : Option Cmd
  isText : Bool
  mem : List UInt8
  written : List Nat

def parseText (mem : List UInt8) : Parsed :=
  let args := collect 5 0 mem
  ⟨parseTextCmd (args.argv.map fun p => cString p args.mem), true, args.mem, args.written⟩

def parseWrite (mem : List UInt8) : Parsed :=
  match CmdKind.ofTag (loadLe mem 4 0) with
  | some kind =>
    ⟨some ⟨kind, UInt32.ofNat (loadLe mem 4 4), UInt64.ofNat (loadLe mem 8 8),
      UInt32.ofNat (loadLe mem 4 16)⟩, false, mem, []⟩
  | none => parseText mem

inductive Action where
  | init (start : UInt64) (count : UInt32)
  | reserve (start : UInt64) (count : UInt32)
  | release (id : UInt32)
  | status (id : UInt32)
  | yield (id : UInt32)
  | exit
  | invalid
  deriving DecidableEq, Repr

def Cmd.action (c : Cmd) : Action :=
  match c.kind with
  | .INIT => .init c.start c.count
  | .RESERVE => .reserve c.start c.count
  | .RELEASE => .release c.id
  | .STATUS => .status c.id
  | .YIELD => .yield c.id
  | .EXIT => .exit

def Parsed.action (p : Parsed) : Action :=
  p.command.elim .invalid Cmd.action

def recvbufferSize : Nat := 1600

structure Message where
  bytes : List UInt8
  received : 0 < bytes.length
  fits : bytes.length ≤ recvbufferSize

def overwrite (bs mem : List UInt8) : List UInt8 :=
  bs ++ mem.drop bs.length

def Message.terminated (m : Message) : List UInt8 :=
  m.bytes ++ [0]

def Message.handle (m : Message) (mem : List UInt8) : Parsed :=
  parseWrite (overwrite m.terminated mem)

def Message.written (m : Message) (mem : List UInt8) : List Nat :=
  List.range m.terminated.length ++ (m.handle mem).written

inductive Input where
  | packet (m : Message)
  | console (m : Message) (short : m.bytes.length < recvbufferSize)
  | client (m : Message)

def Input.leave (mem : List UInt8) : Input → List UInt8
  | .packet m => overwrite m.bytes mem
  | .console m _ => (m.handle mem).mem
  | .client m => (m.handle mem).mem

def memoryAfter (mem : List UInt8) (is : List Input) : List UInt8 :=
  is.foldl Input.leave mem

theorem takeWhile_terminated (t r : List UInt8) :
    (t ++ 0 :: r).takeWhile (· ≠ 0) = t.takeWhile (· ≠ 0) := by
  induction t with
  | nil => rfl
  | cons b t ih =>
    rw [cons_append, takeWhile_cons, takeWhile_cons, ih]

variable {j p : Nat} {k : CmdKind} {bs r : List UInt8}

theorem cString_terminated (t r : List UInt8) (hp : p ≤ t.length) :
    cString p (t ++ 0 :: r) = cString p t := by
  unfold cString
  rw [drop_append_of_le_length hp, takeWhile_terminated]

theorem length_cString_le (t : List UInt8) (p : Nat) : (cString p t).length ≤ t.length - p := by
  have h := (List.takeWhile_prefix (l := t.drop p) (· ≠ 0)).length_le
  rwa [length_drop] at h

theorem length_takeWhile_cString_le (t : List UInt8) (p : Nat) (f : UInt8 → Bool) :
    ((cString p t).takeWhile f).length ≤ t.length - p :=
  Nat.le_trans (List.takeWhile_prefix f).length_le (length_cString_le t p)

theorem strtok_terminated (t : List UInt8) (hp : p ≤ t.length) :
    (∀ r, strtok p (t ++ 0 :: r) = none) ∨
      ∃ start saved t' written, start ≤ t'.length ∧ saved ≤ t'.length ∧ t'.length = t.length ∧
        (∀ a ∈ written, a < t.length) ∧
        ∀ r, strtok p (t ++ 0 :: r) = some ⟨start, saved, t' ++ 0 :: r, written⟩ := by
  have hstart : p + ((cString p t).takeWhile isDelimiter).length ≤ t.length := by
    have := length_takeWhile_cString_le t p isDelimiter
    omega
  generalize hs : p + ((cString p t).takeWhile isDelimiter).length = start at hstart
  have hstop : start + ((cString start t).takeWhile fun b => !isDelimiter b).length ≤ t.length := by
    have := length_takeWhile_cString_le t start fun b => !isDelimiter b
    omega
  generalize htok : (cString start t).takeWhile (fun b => !isDelimiter b) = token at hstop
  have hrun : ∀ r, strtok p (t ++ 0 :: r) =
      if token.isEmpty then none
      else if (t ++ 0 :: r).getD (start + token.length) 0 = 0 then
        some ⟨start, start + token.length, t ++ 0 :: r, []⟩
      else some ⟨start, start + token.length + 1, (t ++ 0 :: r).set (start + token.length) 0,
        [start + token.length]⟩ := by
    grind [strtok, cString_terminated]
  by_cases hempty : token.isEmpty
  · left
    intro r
    rw [hrun, if_pos hempty]
  right
  rcases Nat.lt_or_ge (start + token.length) t.length with hin | hout
  · by_cases hzero : t.getD (start + token.length) 0 = 0
    · refine ⟨start, start + token.length, t, [], hstart, hstop, rfl, by simp, fun r => ?_⟩
      rw [hrun, if_neg hempty, getD_append _ _ _ _ hin, if_pos hzero]
    · refine ⟨start, start + token.length + 1, t.set (start + token.length) 0,
        [start + token.length], by simpa using hstart, by rw [length_set]; omega, by simp,
        by simpa using hin, fun r => ?_⟩
      rw [hrun, if_neg hempty, getD_append _ _ _ _ hin, if_neg hzero,
        set_append_left _ _ hin]
  · refine ⟨start, start + token.length, t, [], hstart, hstop, rfl, by simp, fun r => ?_⟩
    have hend : (t ++ 0 :: r).getD (start + token.length) 0 = 0 := by
      rw [getD_append_right _ _ _ _ hout]
      have hlast : start + token.length - t.length = 0 := by omega
      rw [hlast]
      rfl
    rw [hrun, if_neg hempty, if_pos hend]

theorem collect_terminated (room : Nat) (t : List UInt8) (hp : p ≤ t.length) :
    ∃ argv t' written, (∀ a ∈ argv, a ≤ t'.length) ∧ t'.length = t.length ∧
      (∀ a ∈ written, a < t.length) ∧
      ∀ r, collect room p (t ++ 0 :: r) = ⟨argv, t' ++ 0 :: r, written⟩ := by
  induction room generalizing p t with
  | zero =>
    rcases strtok_terminated t hp with hnone | ⟨start, saved, t', written, -, -, hlen, hw, htok⟩
    · exact ⟨[], t, [], by simp, rfl, by simp, fun r => by rw [collect, hnone r]⟩
    · exact ⟨[], t', written, by simp, hlen, hw, fun r => by rw [collect, htok r]⟩
  | succ room ih =>
    rcases strtok_terminated t hp with
      hnone | ⟨start, saved, t', written, hstart, hsaved, hlen, hw, htok⟩
    · exact ⟨[], t, [], by simp, rfl, by simp, fun r => by rw [collect, hnone r]⟩
    · obtain ⟨argv, t'', written', hargv, hlen', hw', hrest⟩ := ih t' hsaved
      refine ⟨start :: argv, t'', written ++ written', ?_, by omega, ?_, fun r => ?_⟩
      · intro a ha
        rcases mem_cons.mp ha with rfl | ha
        · omega
        · exact hargv a ha
      · intro a ha
        rcases mem_append.mp ha with ha | ha
        · exact hw a ha
        · exact hlen ▸ hw' a ha
      · rw [collect, htok r]
        simp only [hrest r]

theorem parseText_terminated (t : List UInt8) :
    ∃ command written, (∀ a ∈ written, a < t.length) ∧
      ∀ r, (parseText (t ++ 0 :: r)).command = command ∧
        (parseText (t ++ 0 :: r)).written = written := by
  obtain ⟨argv, t', written, hargv, -, hw, hrun⟩ := collect_terminated 5 t (Nat.zero_le _)
  refine ⟨parseTextCmd (argv.map fun p => cString p t'), written, hw, fun r => ?_⟩
  have hmap : (argv.map fun p => cString p (t' ++ 0 :: r)) = argv.map fun p => cString p t' :=
    map_congr_left fun p hp => cString_terminated t' r (hargv p hp)
  simp only [parseText, hrun r, hmap, and_self]

theorem loadLe_append (bs r : List UInt8) (n p : Nat) (h : p + n ≤ bs.length) :
    loadLe (bs ++ r) n p = loadLe bs n p := by
  induction n generalizing p with
  | zero => rfl
  | succ n ih =>
    rw [loadLe, loadLe, ih (p + 1) (by omega), getD_append _ _ _ _ (by omega)]

theorem loadLe_four (mem : List UInt8) (p : Nat) :
    loadLe mem 4 p = (mem.getD p 0).toNat + 256 * (mem.getD (p + 1) 0).toNat +
      65536 * (mem.getD (p + 2) 0).toNat + 16777216 * (mem.getD (p + 3) 0).toNat := by
  grind [loadLe]

theorem loadLe_tag (b : UInt8) (mem : List UInt8) :
    loadLe (b :: mem) 4 0 = b.toNat + 256 * (mem.getD 0 0).toNat + 65536 * (mem.getD 1 0).toNat +
      16777216 * (mem.getD 2 0).toNat :=
  loadLe_four (b :: mem) 0

def CmdKind.size : CmdKind → Nat
  | INIT | RESERVE => 20
  | RELEASE | STATUS | YIELD => 8
  | EXIT => 4

def opening : List UInt8 → Option CmdKind
  | [] => none
  | b :: bs => if (bs.take 3).all (· = 0) then CmdKind.ofTag b.toNat else none

def Message.Complete (m : Message) : Prop :=
  ∀ k, opening m.terminated = some k → k.size ≤ m.terminated.length

theorem CmdKind.le_of_ofTag {n : Nat} (h : CmdKind.ofTag n = some k) : n ≤ 6 := by
  unfold CmdKind.ofTag at h
  split at h <;> first | omega | cases h

theorem getD_eq_zero_of_mem_take (h : (bs.take 3).all (· = 0) = true) (hj : j < 3) :
    bs.getD j 0 = 0 := by
  rcases Nat.lt_or_ge j bs.length with hin | hout
  · have hmem : bs.getD j 0 ∈ bs.take 3 := by
      rw [getD_eq_getElem _ _ hin]
      exact mem_take_iff_getElem.mpr ⟨j, by omega, rfl⟩
    exact of_decide_eq_true (all_eq_true.mp h _ hmem)
  · exact getD_eq_default _ _ hout

theorem all_take_of_getD (h : ∀ j < 3, (bs ++ r).getD j 0 = 0) :
    (bs.take 3).all (· = 0) = true := by
  rw [all_eq_true]
  intro b hb
  obtain ⟨j, hj, rfl⟩ := mem_take_iff_getElem.mp hb
  have hzero := h j (by omega)
  grind

theorem opening_of_tag (hne : bs ≠ []) (h : CmdKind.ofTag (loadLe (bs ++ r) 4 0) = some k) :
    opening bs = some k := by
  obtain ⟨b, bs, rfl⟩ := exists_cons_of_ne_nil hne
  have hrange := CmdKind.le_of_ofTag h
  rw [cons_append, loadLe_tag] at h hrange
  have h0 : ((bs ++ r).getD 0 0).toNat = 0 := by omega
  have h1 : ((bs ++ r).getD 1 0).toNat = 0 := by omega
  have h2 : ((bs ++ r).getD 2 0).toNat = 0 := by omega
  have hzero : ∀ j < 3, (bs ++ r).getD j 0 = 0 := by
    intro j hj
    have hj' : j = 0 ∨ j = 1 ∨ j = 2 := by omega
    apply UInt8.toNat_inj.mp
    grind
  rw [h0, h1, h2] at h
  rw [opening, if_pos (all_take_of_getD hzero)]
  exact h

theorem loadLe_of_opening (h : opening bs = some k)
    (hzero : ∀ j, bs.length ≤ j → j < 4 → (bs ++ r).getD j 0 = 0) :
    CmdKind.ofTag (loadLe (bs ++ r) 4 0) = some k := by
  obtain _ | ⟨b, bs⟩ := bs
  · cases h
  rw [opening] at h
  split at h
  · rename_i hall
    have hbyte : ∀ j < 3, ((bs ++ r).getD j 0).toNat = 0 := by
      intro j hj
      rcases Nat.lt_or_ge j bs.length with hin | hout
      · rw [getD_append _ _ _ _ hin, getD_eq_zero_of_mem_take hall hj]
        rfl
      · have hnext : (bs ++ r).getD j 0 = 0 := hzero (j + 1) (by simpa using hout) (by omega)
        rw [hnext]
        rfl
    have h0 := hbyte 0 (by omega)
    have h1 := hbyte 1 (by omega)
    have h2 := hbyte 2 (by omega)
    rw [cons_append, loadLe_tag, h0, h1, h2]
    exact h
  · cases h

def Message.effect (m : Message) (mem : List UInt8) : Action × Bool :=
  ((m.handle mem).action, (m.handle mem).isText)

theorem parseWrite_of_text {mem : List UInt8} (h : CmdKind.ofTag (loadLe mem 4 0) = none) :
    parseWrite mem = parseText mem := by
  rw [parseWrite, h]

theorem parseWrite_of_tag {mem : List UInt8} (h : CmdKind.ofTag (loadLe mem 4 0) = some k) :
    parseWrite mem =
      ⟨some ⟨k, UInt32.ofNat (loadLe mem 4 4), UInt64.ofNat (loadLe mem 8 8),
        UInt32.ofNat (loadLe mem 4 16)⟩, false, mem, []⟩ := by
  rw [parseWrite, h]

theorem Message.terminated_ne_nil (m : Message) : m.terminated ≠ [] := by
  simp [terminated]

theorem Message.handle_text (m : Message) (h : opening m.terminated = none) (mem : List UInt8) :
    m.handle mem = parseText (m.bytes ++ 0 :: mem.drop m.terminated.length) := by
  have hshape : overwrite m.terminated mem =
      m.bytes ++ 0 :: mem.drop m.terminated.length := by
    simp [overwrite, terminated]
  unfold handle
  rw [← hshape]
  apply parseWrite_of_text
  cases htag : CmdKind.ofTag (loadLe (overwrite m.terminated mem) 4 0) with
  | none => rfl
  | some k =>
    rw [opening_of_tag m.terminated_ne_nil htag] at h
    cases h

theorem Message.handle_binary (m : Message) (h : opening m.terminated = some k)
    (hsize : k.size ≤ m.terminated.length) (mem : List UInt8) :
    m.effect mem = ((⟨k, UInt32.ofNat (loadLe m.terminated 4 4),
      UInt64.ofNat (loadLe m.terminated 8 8), UInt32.ofNat (loadLe m.terminated 4 16)⟩ : Cmd).action,
      false) ∧ (m.handle mem).written = [] := by
  have hfour : 4 ≤ k.size := by cases k <;> decide
  have htag : CmdKind.ofTag (loadLe (overwrite m.terminated mem) 4 0) = some k :=
    loadLe_of_opening h fun j hj hlt => by omega
  have hrun := parseWrite_of_tag htag
  refine ⟨?_, by rw [handle, hrun]⟩
  unfold effect handle Parsed.action
  rw [hrun]
  unfold overwrite
  cases k with
  | INIT | RESERVE =>
    have h20 : 20 ≤ m.terminated.length := hsize
    grind [Option.elim, Cmd.action, loadLe_append]
  | RELEASE | STATUS | YIELD =>
    have h8 : 8 ≤ m.terminated.length := hsize
    simp only [Option.elim, Cmd.action]
    rw [loadLe_append _ _ 4 4 (by omega)]
  | EXIT => rfl

def fillPacket (x : UInt8) : Message where
  bytes := List.replicate recvbufferSize x
  received := by rw [List.length_replicate]; decide
  fits := by rw [List.length_replicate]

theorem getD_after_fill (m : Message) (x : UInt8) (mem : List UInt8)
    (hlow : m.terminated.length ≤ j) (hhigh : j < recvbufferSize) :
    (overwrite m.terminated (memoryAfter mem [.packet (fillPacket x)])).getD j 0 = x := by
  have hfill : memoryAfter mem [.packet (fillPacket x)] =
      List.replicate recvbufferSize x ++ mem.drop recvbufferSize := by
    simp [memoryAfter, Input.leave, overwrite, fillPacket]
  rw [hfill, overwrite, getD_append_right _ _ _ _ hlow, getD_eq_getElem?_getD,
    List.getElem?_drop]
  have hplace : m.terminated.length + (j - m.terminated.length) = j := by omega
  rw [hplace, List.getElem?_append_left (by rw [length_replicate]; exact hhigh),
    List.getElem?_replicate, if_pos hhigh]
  rfl

theorem loadLe_after_fill_ne (m : Message) (mem : List UInt8) (hlow : m.terminated.length ≤ p + 3)
    (hhigh : p + 3 < recvbufferSize) :
    UInt32.ofNat (loadLe (overwrite m.terminated (memoryAfter mem [.packet (fillPacket 0)])) 4 p) ≠
      UInt32.ofNat
        (loadLe (overwrite m.terminated (memoryAfter mem [.packet (fillPacket 255)])) 4 p) := by
  rw [loadLe_four, loadLe_four, getD_after_fill m 0 mem hlow hhigh,
    getD_after_fill m 255 mem hlow hhigh]
  generalize overwrite m.terminated (memoryAfter mem [.packet (fillPacket 0)]) = low
  generalize overwrite m.terminated (memoryAfter mem [.packet (fillPacket 255)]) = high
  grind [UInt8.toNat_lt, UInt32.toNat, UInt32.toNat_ofNat', Nat.mod_eq_of_lt]

/-- What is right about a message, over all that the daemon may have received before:
its effect does not depend on it, and only the receive buffer is written to. -/
def Message.Right (m : Message) (mem : List UInt8) : Prop :=
  (∀ is js, m.effect (memoryAfter mem is) = m.effect (memoryAfter mem js)) ∧
    ∀ is, ∀ a ∈ m.written (memoryAfter mem is), a < recvbufferSize

theorem Message.right_of_complete (m : Message) (mem : List UInt8)
    (hshort : m.bytes.length < recvbufferSize) (hcomplete : m.Complete) : m.Right mem := by
  have hlength : m.terminated.length = m.bytes.length + 1 := by simp [terminated]
  cases hopen : opening m.terminated with
  | none =>
    obtain ⟨command, written, hw, htext⟩ := parseText_terminated m.bytes
    have heffect : ∀ mem', m.effect mem' = (command.elim .invalid Cmd.action, true) := by
      intro mem'
      unfold effect Parsed.action
      rw [m.handle_text hopen, (htext _).1]
      rfl
    refine ⟨fun is js => by rw [heffect, heffect], fun is a ha => ?_⟩
    rcases mem_append.mp ha with ha | ha
    all_goals grind [handle_text]
  | some k =>
    have hbinary := m.handle_binary hopen (hcomplete k hopen)
    refine ⟨fun is js => by rw [(hbinary _).1, (hbinary _).1], fun is a ha => ?_⟩
    rcases mem_append.mp ha with ha | ha
    all_goals grind

theorem Message.complete_of_stable (m : Message) (mem : List UInt8)
    (h : ∀ is js, m.effect (memoryAfter mem is) = m.effect (memoryAfter mem js)) : m.Complete := by
  intro k hopen
  by_contra hsize
  have hsmall : k.size ≤ 20 := by cases k <;> decide
  have hlimit : recvbufferSize = 1600 := rfl
  have heq := h [.packet (fillPacket 0)] [.packet (fillPacket 255)]
  have hlow := loadLe_of_opening (r := (memoryAfter mem [.packet (fillPacket 0)]).drop
    m.terminated.length) hopen fun j hj hlt => getD_after_fill m 0 mem hj (by omega)
  have hrunlow := parseWrite_of_tag hlow
  rcases Nat.lt_or_ge m.terminated.length 4 with hfew | hmany
  · -- the tag itself is not complete: with the second packet the message is text
    have hhigh : CmdKind.ofTag (loadLe (overwrite m.terminated
        (memoryAfter mem [.packet (fillPacket 255)])) 4 0) = none := by
      cases htag : CmdKind.ofTag (loadLe (overwrite m.terminated
        (memoryAfter mem [.packet (fillPacket 255)])) 4 0) with
      | none => rfl
      | some k' =>
        have hle := CmdKind.le_of_ofTag htag
        rw [loadLe_four, getD_after_fill m 255 mem (j := 0 + 3) (by omega) (by omega)] at hle
        have hf : (255 : UInt8).toNat = 255 := by decide
        omega
    have hflag := congrArg Prod.snd heq
    unfold effect handle at hflag
    rw [parseWrite_of_text hhigh, overwrite, hrunlow] at hflag
    cases hflag
  · have hhigh : CmdKind.ofTag (loadLe (overwrite m.terminated
        (memoryAfter mem [.packet (fillPacket 255)])) 4 0) = some k :=
      loadLe_of_opening hopen fun j hj hlt => by omega
    have haction := congrArg Prod.fst heq
    unfold effect handle Parsed.action at haction
    rw [parseWrite_of_tag hhigh] at haction
    unfold overwrite at haction
    rw [hrunlow] at haction
    cases k with
    | INIT | RESERVE =>
      have hshort : ¬ 20 ≤ m.terminated.length := hsize
      have hne := loadLe_after_fill_ne m mem (p := 16) (by omega) (by omega)
      simp only [Option.elim, Cmd.action] at haction
      injection haction with _ hcount
      exact hne hcount
    | RELEASE | STATUS | YIELD =>
      have hshort : ¬ 8 ≤ m.terminated.length := hsize
      have hne := loadLe_after_fill_ne m mem (p := 4) (by omega) (by omega)
      simp only [Option.elim, Cmd.action] at haction
      injection haction with hid
      exact hne hid
    | EXIT => exact hsize hmany

/-- A message is handled right exactly when it leaves room for the zero byte and, if it
opens as a binary command, holds what the command uses. -/
theorem Message.message_right_iff (m : Message) (mem : List UInt8) :
    m.Right mem ↔ m.bytes.length < recvbufferSize ∧ m.Complete := by
  constructor
  · intro h
    refine ⟨?_, m.complete_of_stable mem h.1⟩
    have hzero : m.bytes.length ∈ m.written (memoryAfter mem []) := by
      apply mem_append_left
      rw [mem_range, terminated, length_append]
      exact Nat.lt_succ_self _
    exact h.2 [] _ hzero
  · rintro ⟨hshort, hcomplete⟩
    exact m.right_of_complete mem hshort hcomplete

/-- The first four bytes of a release command: the id is what an earlier packet left in
the buffer. A message that fills the buffer is followed by a zero byte outside it. -/
theorem release_wrong_when_short :
    (∃ m : Message, m.bytes = [3, 0, 0, 0] ∧
      (m.effect (memoryAfter [] [.packet (fillPacket 0)])).1 = .release 0 ∧
      (m.effect (memoryAfter [] [.packet (fillPacket 255)])).1 = .release 0xFFFFFF00) ∧
    ∃ m : Message, ∀ mem, ∃ a ∈ m.written mem, ¬ a < recvbufferSize := by
  constructor
  · exact ⟨⟨[3, 0, 0, 0], by decide, by decide⟩, rfl, by decide +kernel, by decide +kernel⟩
  · refine ⟨fillPacket 0, fun mem => ⟨recvbufferSize, ?_, Nat.lt_irrefl _⟩⟩
    apply mem_append_left
    rw [mem_range, Message.terminated, length_append, fillPacket, length_replicate]
    exact Nat.lt_succ_self _

end Avb4Linux.Maap
