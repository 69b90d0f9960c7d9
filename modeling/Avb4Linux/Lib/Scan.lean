import Mathlib.Data.List.TakeWhile
import Mathlib.Data.Nat.Digits.Defs

/-!
# Numbers and strings in C text

`scan` is one integer conversion of `sscanf`, and `strstr` the search of a string in another.
-/

namespace Avb4Linux.Lib.Scan

def nul : Char := Char.ofNat 0

def digitValue (c : Char) : Nat :=
  if c.isDigit then c.toNat - '0'.toNat
  else if 'a' ≤ c ∧ c ≤ 'f' then c.toNat - 87
  else if 'A' ≤ c ∧ c ≤ 'F' then c.toNat - 55
  else 16

/-- The value of a digit string behind a number already read. -/
def numeral (base : Nat) (l : List Char) (init : Nat) : Nat :=
  l.foldl (fun v c => base * v + digitValue c) init

def unmarked (base : Nat) (s : List Char) : List Char :=
  match s with
  | '0' :: c :: s' => if base = 16 ∧ (c = 'x' ∨ c = 'X') then s' else s
  | _ => s

def magnitude (base : Nat) (s : List Char) : Option Nat :=
  match (unmarked base s).takeWhile fun c => digitValue c < base with
  | [] => none
  | l => some (numeral base l 0)

def isSpace (c : Char) : Bool :=
  c = ' ' ∨ 9 ≤ c.toNat ∧ c.toNat ≤ 13

def scan (base width : Nat) (s : List Char) : Option Int :=
  match (s.dropWhile isSpace).take width with
  | '-' :: s => (magnitude base s).map fun n => -n
  | '+' :: s => (magnitude base s).map fun n => n
  | s => (magnitude base s).map fun n => n

def scanAll (base : Nat) (s : List Char) : Option Int :=
  scan base s.length s

def strstr (name : List Char) : List Char → Option Nat
  | [] => if name = [] then some 0 else none
  | c :: s => if name.isPrefixOf (c :: s) then some 0 else (strstr name s).map (· + 1)

section

variable {base w : Nat} {l rest : List Char}

end

section

variable {n c : Char} {name s : List Char}

theorem strstr_le {i : Nat} (h : strstr name s = some i) : i + name.length ≤ s.length := by
  induction s generalizing i with
  | nil =>
    simp only [strstr] at h
    grind
  | cons c s ih =>
    simp only [strstr] at h
    grind [List.isPrefixOf_iff_prefix, Option.some.inj, Option.map_eq_some_iff, List.length_cons]

end

end Avb4Linux.Lib.Scan
