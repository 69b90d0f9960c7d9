import Avb4Linux.Lib.Scan
import Avb4Linux.Maap.Packet

/-!
# Parameters of client commands

`parse` of `daemons/common/parse.c`.
-/

namespace Avb4Linux.Mrp

open Lib.Scan
open Maap (beBytes length_beBytes)

variable {σ : Type}

inductive ParseType where
  | null | u8 | u16_04x | u16 | u32 | u64 | h64 | c64 | mac
  deriving DecidableEq, Repr

abbrev ParseType.Val : ParseType → Type
  | .null => Unit
  | .u8 => UInt8
  | .u16_04x | .u16 => UInt16
  | .u32 => UInt32
  | .u64 | .h64 => UInt64
  | .c64 => Vector UInt8 8
  | .mac => Vector UInt8 6

/-- The loop that unpacks a `uint64_t`: byte `i` is the value shifted by `n - 1 - i` bytes. -/
def unpack (n : Nat) (v : UInt64) : Vector UInt8 n :=
  ⟨(beBytes n v.toNat).toArray, by simp [length_beBytes]⟩

open List

/-- The conversion and the store behind it; numbers are reduced to the type they are
read to. -/
def ParseType.read : (t : ParseType) → List Char → Option t.Val
  | .null, _ => some ()
  | .u8, s => (scanAll 10 s).map UInt8.ofInt
  | .u16_04x, s => (scan 16 4 s).map UInt16.ofInt
  | .u16, s => (scanAll 10 s).map UInt16.ofInt
  | .u32, s => (scanAll 10 s).map UInt32.ofInt
  | .u64, s => (scanAll 10 s).map UInt64.ofInt
  | .h64, s => (scanAll 16 s).map UInt64.ofInt
  | .c64, s => (scanAll 16 s).map fun v => unpack 8 (UInt64.ofInt v)
  | .mac, s => (scanAll 16 s).map fun v => unpack 6 (UInt64.ofInt v)

/-- `struct parse_param`; the pointer is what storing a value does. -/
structure Param (σ : Type) where
  name : List Char
  type : ParseType
  store : type.Val → σ → σ

structure Parsed (σ : Type) where
  rc : Int
  errIndex : Nat
  buf : List Char
  out : σ

/-- What a string function reads at `p`, up to the terminating NUL. -/
def cString (b : List Char) (p : Nat) : Option (List Char) :=
  if nul ∈ b.drop p then some ((b.drop p).takeWhile (· ≠ nul)) else none

/-- The search for a NUL from the end, at `i = n - 1`. The byte is read before `i` is
compared with zero. -/
def scanBack (b : List Char) : Nat → Option Nat
  | 0 => none
  | n + 1 => do
    if (← b[n]?) = nul then some n else scanBack b n

def delimiterFrom : List Char → Nat → Option Nat
  | [], _ => none
  | c :: b, toGuard =>
    if c ≠ ',' ∧ 0 < toGuard then (delimiterFrom b (toGuard - 1)).map (· + 1) else some 0

/-- The `switch` over the type. `result` keeps its value where nothing is scanned. -/
def Param.convert (spec : Param σ) (result : Bool) (data : List Char) (out : σ) : Bool × σ :=
  if spec.type = .null then (result, out)
  else match spec.type.read data with
    | none => (false, out)
    | some v => (true, spec.store v out)

def parseLoop : List (Param σ) → List Char → Nat → Nat → Bool → Nat → σ → Option (Parsed σ)
  | [], b, _, _, _, _, out => some ⟨0, 0, b, out⟩
  | spec :: specs, b, s, guard, result, count, out => do
    match strstr spec.name (← cString b s) with
    | none => some ⟨-1, count + 1, b, out⟩
    | some i =>
      let data := s + i + spec.name.length
      let delimiter := data + (← delimiterFrom (b.drop data) (guard - data))
      let b := if delimiter < guard then b.set delimiter nul else b
      let r := spec.convert result (← cString b data) out
      if r.1 then
        if delimiter < guard then
          parseLoop specs (b.set delimiter ',') (delimiter + 1) guard r.1 (count + 1) r.2
        else parseLoop specs b s guard r.1 (count + 1) r.2
      else some ⟨-1, count + 1, b, r.2⟩

/-- `parse`; the length is the buffer's. -/
def parse (b : List Char) (specs : List (Param σ)) (out : σ) : Option (Parsed σ) := do
  let _ ← scanBack b b.length
  let guard := (← cString b 0).length
  parseLoop specs b 0 guard false 0 out

variable {spec : Param σ} {specs : List (Param σ)} {b front lead field rest text post : List Char}
  {result : Bool} {i count : Nat} {out : σ}

theorem cString_append (front : List Char) (hb : b = front ++ (text ++ nul :: post)) (hnul : nul ∉ text) :
    cString b front.length = some text := by
  have hrun : (text ++ nul :: post).takeWhile (· ≠ nul) = text := by
    rw [takeWhile_append_of_pos (by simpa using fun c hc (h : c = nul) => hnul (h ▸ hc))]
    simp
  unfold cString
  rw [hb, drop_left, if_pos (by simp), hrun]

theorem delimiterFrom_append {c : Char} {toGuard : Nat} (hfield : ',' ∉ field)
    (hle : field.length ≤ toGuard) (hstop : c = ',' ∨ toGuard = field.length) :
    delimiterFrom (field ++ c :: post) toGuard = some field.length := by
  induction field generalizing toGuard with
  | nil =>
    grind [Nat.ne_of_gt, delimiterFrom]
  | cons d field ih =>
    grind [Nat.lt_of_lt_of_le, delimiterFrom]

theorem set_between (l m r : List Char) (c d : Char) :
    (l ++ (m ++ c :: r)).set (l.length + m.length) d = l ++ (m ++ d :: r) := by
  grind

theorem parseLoop_last (hb : b = front ++ ((lead ++ field) ++ nul :: post))
    (hnul : nul ∉ lead ++ field) (hi : strstr spec.name (lead ++ field) = some i)
    (hlead : lead.length = i + spec.name.length) (hfield : ',' ∉ field) :
    parseLoop (spec :: specs) b front.length (front.length + (lead ++ field).length) result count
        out =
      if (spec.convert result field out).1 then
        parseLoop specs b front.length (front.length + (lead ++ field).length) true (count + 1)
          (spec.convert result field out).2
      else some ⟨-1, count + 1, b, (spec.convert result field out).2⟩ := by
  have hdata : b = (front ++ lead) ++ (field ++ nul :: post) := by simpa using hb
  have hpos : front.length + i + spec.name.length = (front ++ lead).length := by
    rw [length_append]
    omega
  have hguard : front.length + (lead ++ field).length = (front ++ lead).length + field.length := by
    simp only [length_append]
    omega
  have hdelim : delimiterFrom (b.drop (front ++ lead).length) field.length = some field.length := by
    rw [hdata, drop_left]
    exact delimiterFrom_append hfield (Nat.le_refl _) (Or.inr rfl)
  have hstr : cString b (front ++ lead).length = some field :=
    cString_append _ hdata fun h => hnul (mem_append_right _ h)
  rw [parseLoop, cString_append front hb hnul]
  simp only [Option.bind_eq_bind, Option.bind_some, hi, hpos, hguard, Nat.add_sub_cancel_left, hdelim,
    Nat.lt_irrefl, if_false, hstr]
  split
  · rename_i hok
    rw [hok]
  · rfl

theorem parseLoop_next (hb : b = front ++ ((lead ++ (field ++ ',' :: rest)) ++ nul :: post))
    (hnul : nul ∉ lead ++ (field ++ ',' :: rest))
    (hi : strstr spec.name (lead ++ (field ++ ',' :: rest)) = some i)
    (hlead : lead.length = i + spec.name.length) (hfield : ',' ∉ field) :
    parseLoop (spec :: specs) b front.length
        (front.length + (lead ++ (field ++ ',' :: rest)).length) result count out =
      if (spec.convert result field out).1 then
        parseLoop specs b (front ++ lead ++ field ++ [',']).length
          ((front ++ lead ++ field ++ [',']).length + rest.length) true (count + 1)
          (spec.convert result field out).2
      else some ⟨-1, count + 1, (front ++ lead) ++ (field ++ nul :: (rest ++ nul :: post)),
        (spec.convert result field out).2⟩ := by
  have hdata : b = (front ++ lead) ++ (field ++ ',' :: (rest ++ nul :: post)) := by simpa using hb
  have hpos : front.length + i + spec.name.length = (front ++ lead).length := by
    rw [length_append]
    omega
  have hguard : front.length + (lead ++ (field ++ ',' :: rest)).length =
      (front ++ lead).length + (field.length + (rest.length + 1)) := by
    simp only [length_append, length_cons]
    omega
  have hdelim : delimiterFrom (b.drop (front ++ lead).length) (field.length + (rest.length + 1)) =
      some field.length := by
    rw [hdata, drop_left]
    exact delimiterFrom_append hfield (Nat.le_add_right _ _) (Or.inl rfl)
  have hlt : (front ++ lead).length + field.length <
      (front ++ lead).length + (field.length + (rest.length + 1)) := by omega
  have hmark : b.set ((front ++ lead).length + field.length) nul =
      (front ++ lead) ++ (field ++ nul :: (rest ++ nul :: post)) := by rw [hdata, set_between]
  have hstr : cString (b.set ((front ++ lead).length + field.length) nul) (front ++ lead).length =
      some field := cString_append _ hmark fun h => hnul (by simp [h])
  have hback : (b.set ((front ++ lead).length + field.length) nul).set
      ((front ++ lead).length + field.length) ',' = b := by rw [hmark, set_between, ← hdata]
  have hnext : (front ++ lead).length + field.length + 1 =
      (front ++ lead ++ field ++ [',']).length := by simp [Nat.add_assoc]
  have hend : (front ++ lead).length + (field.length + (rest.length + 1)) =
      (front ++ lead ++ field ++ [',']).length + rest.length := by rw [← hnext]; omega
  rw [parseLoop, cString_append front hb hnul]
  simp only [Option.bind_eq_bind, Option.bind_some, hi, hpos, hguard, Nat.add_sub_cancel_left, hdelim,
    if_pos hlt, hstr, hback, hnext]
  rw [hend, hmark]
  split
  · rename_i hok
    rw [hok]
  · rfl

def Param.converts (spec : Param σ) (result : Bool) (data : List Char) : Bool :=
  if spec.type = .null then result else (spec.type.read data).isSome

/-- Whether the parameters are found and converted up to one whose text is not followed
by a delimiter. `text` is what the string still holds. -/
def Restores : List (Param σ) → Bool → List Char → Prop
  | [], _, _ => True
  | spec :: specs, result, text =>
    match strstr spec.name text with
    | none => True
    | some i =>
      let data := text.drop (i + spec.name.length)
      let field := data.takeWhile (· ≠ ',')
      if spec.converts result field then
        Restores specs true (if field = data then text else data.drop (field.length + 1))
      else field = data

theorem convert_fst (spec : Param σ) (result : Bool) (data : List Char) (out : σ) :
    (spec.convert result data out).1 = spec.converts result data := by
  unfold Param.convert Param.converts
  split
  · rfl
  · cases spec.type.read data <;> rfl

theorem takeWhile_of_notMem (hfield : ',' ∉ field) : field.takeWhile (· ≠ ',') = field := by
  refine takeWhile_eq_self_iff.mpr fun c hc => ?_
  simpa using fun h : c = ',' => hfield (h ▸ hc)

theorem takeWhile_append_comma (hfield : ',' ∉ field) :
    (field ++ ',' :: rest).takeWhile (· ≠ ',') = field := by
  have hall := takeWhile_eq_self_iff.mp (takeWhile_of_notMem hfield)
  rw [takeWhile_append_of_pos hall]
  simp

theorem exists_field (data : List Char) :
    ',' ∉ data ∨ ∃ field rest, data = field ++ ',' :: rest ∧ ',' ∉ field := by
  by_cases h : ',' ∈ data
  · obtain ⟨field, rest, rfl, hfield⟩ := eq_append_cons_of_mem h
    exact Or.inr ⟨field, rest, rfl, hfield⟩
  · exact Or.inl h

theorem parseLoop_restores (front : List Char) (hb : b = front ++ (text ++ nul :: post)) (hnul : nul ∉ text) :
    (∃ r, parseLoop specs b front.length (front.length + text.length) result count out = some r ∧
      r.buf = b) ↔ Restores specs result text := by
  induction specs generalizing front text result count out with
  | nil => simp [parseLoop, Restores]
  | cons spec specs ih =>
    rw [Restores]
    cases hi : strstr spec.name text with
    | none => simp [parseLoop, cString_append front hb hnul, hi]
    | some i =>
      obtain ⟨lead, data, rfl, hlead⟩ : ∃ lead data, text = lead ++ data ∧
          lead.length = i + spec.name.length :=
        ⟨_, _, (take_append_drop (i + spec.name.length) text).symm,
          length_take_of_le (strstr_le hi)⟩
      dsimp only
      rw [← hlead, drop_left]
      rcases exists_field data with hfield | ⟨field, rest, rfl, hfield⟩
      · rw [parseLoop_last hb hnul hi hlead hfield, convert_fst, takeWhile_of_notMem hfield]
        by_cases hok : spec.converts result data = true
        · simpa [hok] using ih front hb hnul
        · simp [hok]
      · have hdrop : (field ++ ',' :: rest).drop (field.length + 1) = rest := by simp
        have hne : field ≠ field ++ ',' :: rest := by simp
        rw [parseLoop_next hb hnul hi hlead hfield, convert_fst, takeWhile_append_comma hfield]
        by_cases hok : spec.converts result field = true
        · rw [if_pos hok, if_pos hok, if_neg hne, hdrop]
          exact ih _ (by simpa using hb) fun h => hnul (by simp [h])
        · -- the mark is not a comma
          rw [if_neg hok, if_neg hok, hb]
          simp [nul]

theorem scanBack_isSome (n : Nat) (hn : n ≤ b.length) :
    (scanBack b n).isSome ↔ nul ∈ b.take n := by
  induction n with
  | zero => simp [scanBack]
  | succ n ih =>
    have hget : b[n]? = some b[n] := getElem?_eq_getElem hn
    rw [scanBack, hget, take_succ_eq_append_getElem hn, mem_append, mem_singleton,
      ← ih (Nat.le_of_succ_le hn)]
    grind

theorem parse_eq_parseLoop (hnul : nul ∉ text) (post : List Char) (specs : List (Param σ)) (out : σ) :
    parse (text ++ nul :: post) specs out =
      parseLoop specs (text ++ nul :: post) 0 text.length false 0 out := by
  have htext : cString (text ++ nul :: post) 0 = some text := cString_append [] rfl hnul
  have hback := scanBack_isSome (text ++ nul :: post).length (Nat.le_refl _)
  rw [take_length] at hback
  obtain ⟨n, hn⟩ := Option.isSome_iff_exists.mp (hback.mpr (by simp))
  unfold parse
  rw [hn, htext]
  rfl

/-- The parser reads only the buffer and leaves it as it was, exactly if a NUL ends the
string and no conversion fails in a field that a delimiter follows. -/
theorem parse_restores_iff (b : List Char) (specs : List (Param σ)) (out : σ) :
    (∃ r, parse b specs out = some r ∧ r.buf = b) ↔
      nul ∈ b ∧ Restores specs false (b.takeWhile (· ≠ nul)) := by
  by_cases h : nul ∈ b
  · obtain ⟨text, post, rfl, hnul⟩ := eq_append_cons_of_mem h
    have hrun : (text ++ nul :: post).takeWhile (· ≠ nul) = text := by
      simpa [cString] using cString_append [] (rfl : text ++ nul :: post = _) hnul
    have hloop : (∃ r, parseLoop specs (text ++ nul :: post) 0 (0 + text.length) false 0 out = some r ∧
        r.buf = text ++ nul :: post) ↔ Restores specs false text := parseLoop_restores [] rfl hnul
    grind [parse_eq_parseLoop]
  · have hback := scanBack_isSome b.length (Nat.le_refl _)
    rw [take_length] at hback
    have hnone : scanBack b b.length = none := by simpa [h] using hback
    simp [parse, hnone, h]

/-- The class is not a number: the comma behind it is left overwritten. Without a NUL the
byte before the buffer is read. -/
theorem parse_keeps_mark :
    (parse ['C', '=', 'x', ',', 'P', '=', '1', nul] [⟨['C', '='], .u8, fun v _ => v⟩] 0).map
        Parsed.buf = some ['C', '=', 'x', nul, 'P', '=', '1', nul] ∧
      (parse ['C', '=', '1'] [⟨['C', '='], .u8, fun v _ => v⟩] 0).isNone := by
  decide +kernel

end Avb4Linux.Mrp
