import Mathlib.Computability.StateTransition
import Avb4Linux.Mrp.Codec
import Avb4Linux.Mrp.ReadBounds

/-!
# MMRP: the walk over a frame

The loop of `mmrp_recv_msg` over the messages as a transition system.
-/

namespace Avb4Linux.Mrp

open StateTransition Nat

/-- Where `mmrp_recv_msg` stands at the head of its loop: the calls made so far, the
end marks in a row, `saw_lva` and the rest of the frame. -/
structure MmrpReader where
  calls : List (Received MmrpValue)
  endmarks : Nat
  saw : Bool
  rest : List UInt8

def MmrpReader.round (s : MmrpReader) : Option MmrpReader :=
  if s.rest.length ≤ endmarkSz then none
  else if byteAt s.rest 0 = 0 ∧ byteAt s.rest 1 = 0 then
    if s.endmarks + 1 < 2 then
      some { s with endmarks := s.endmarks + 1, rest := s.rest.drop 2 }
    else none
  else
    (mmrpParserAt s.rest).bind fun P =>
      let r := parseVectors P s.rest.length s.saw (s.rest.drop 2)
      r.2.map fun x => ⟨s.calls ++ r.1, 0, x.2, x.1⟩

def MmrpReader.start (frame : Frame) : MmrpReader :=
  ⟨[], 0, false, frame.drop messageListStart⟩

def MmrpReads (frame : Frame) (calls : List (Received MmrpValue)) (offset : Nat) : Prop :=
  ∃ endmarks saw, Reaches MmrpReader.round (MmrpReader.start frame)
    ⟨calls, endmarks, saw, frame.drop offset⟩

section

variable {V : Type} {P : VectorParser V}

theorem parseVectors_length {fuel : Nat} {saw saw' : Bool} {cur cur' : List UInt8}
    (h : (parseVectors P fuel saw cur).2 = some (cur', saw')) : cur'.length ≤ cur.length := by
  induction fuel generalizing saw cur with
  | zero => exact absurd h (by simp [parseVectors])
  | succ fuel ih =>
    rw [parseVectors] at h
    grind

theorem forall_parseVectors {Q : Received V → Prop} (hrla : Q P.rla)
    (hvalues : ∀ cur ds, ∀ r ∈ P.values cur ds, Q r) (fuel : Nat) (saw : Bool)
    (cur : List UInt8) : ∀ r ∈ (parseVectors P fuel saw cur).1, Q r := by
  induction fuel generalizing saw cur with
  | zero => simp [parseVectors]
  | succ fuel ih =>
    have hflag : ∀ lva : Bool, ∀ r ∈ if lva then [P.rla] else [], Q r := by
      grind
    rw [parseVectors]
    grind

end

inductive MmrpReader.Round (s t : MmrpReader) : Prop where
  | endmark (hlen : endmarkSz < s.rest.length) (hmark : byteAt s.rest 0 = 0 ∧ byteAt s.rest 1 = 0)
      (hfirst : s.endmarks = 0)
      (ht : t = { s with endmarks := s.endmarks + 1, rest := s.rest.drop 2 })
  | message (hlen : endmarkSz < s.rest.length)
      (hmark : ¬ (byteAt s.rest 0 = 0 ∧ byteAt s.rest 1 = 0)) (P : VectorParser MmrpValue)
      (hP : mmrpParserAt s.rest = some P)
      (hr : (parseVectors P s.rest.length s.saw (s.rest.drop 2)).2 = some (t.rest, t.saw))
      (hcalls : t.calls = s.calls ++ (parseVectors P s.rest.length s.saw (s.rest.drop 2)).1)
      (hmarks : t.endmarks = 0)

theorem MmrpReader.round_case {s t : MmrpReader} (h : s.round = some t) : s.Round t := by
  unfold MmrpReader.round at h
  split at h
  · exact absurd h (by simp)
  rename_i hlen
  have hlen : endmarkSz < s.rest.length := Nat.lt_of_not_le hlen
  split at h
  · rename_i hmark
    split at h
    · rename_i hfirst
      exact .endmark hlen hmark (by omega) (Option.some.inj h).symm
    · exact absurd h (by simp)
  · rename_i hmark
    obtain ⟨P, hP, h⟩ := Option.bind_eq_some_iff.mp h
    obtain ⟨x, hx, rfl⟩ := Option.map_eq_some_iff.mp h
    exact .message hlen hmark P hP hx rfl rfl

theorem MmrpReader.round_length {s t : MmrpReader} (h : s.round = some t) :
    t.rest.length < s.rest.length := by
  cases round_case h with
  | endmark hlen _ _ ht =>
    grind
  | message hlen _ P _ hr _ _ =>
    unfold endmarkSz at hlen
    have hle := parseVectors_length hr
    rw [List.length_drop] at hle
    omega

theorem MmrpReader.reaches_length {s t : MmrpReader} (h : Reaches MmrpReader.round s t) :
    t.rest.length ≤ s.rest.length := by
  induction h with
  | refl => exact le_refl _
  | tail _ hstep ih => exact le_trans (le_of_lt (round_length hstep)) ih

theorem MmrpReader.reaches_step {s t : MmrpReader} (h : Reaches MmrpReader.round s t)
    (hne : t.rest.length < s.rest.length) :
    ∃ u, s.round = some u ∧ Reaches MmrpReader.round u t := by
  rcases Relation.ReflTransGen.cases_head h with rfl | ⟨u, hu, hut⟩
  · exact absurd hne (lt_irrefl _)
  · exact ⟨u, hu, hut⟩

theorem MmrpReader.reaches_later {s t u : MmrpReader} (ht : Reaches MmrpReader.round s t)
    (hu : Reaches MmrpReader.round s u) (hlen : u.rest.length ≤ t.rest.length) :
    Reaches MmrpReader.round t u := by
  rcases reaches_total ht hu with h | h
  · exact h
  · rcases Relation.ReflTransGen.cases_head h with rfl | ⟨w, hw, hwt⟩
    · exact Relation.ReflTransGen.refl
    · have hshort := round_length hw
      have hle := reaches_length hwt
      omega

theorem MmrpReader.reaches_unique {s t u : MmrpReader} (ht : Reaches MmrpReader.round s t)
    (hu : Reaches MmrpReader.round s u) (hrest : u.rest = t.rest) : u = t := by
  have h := reaches_later ht hu (by rw [hrest])
  rcases Relation.ReflTransGen.cases_head h with rfl | ⟨w, hw, hwu⟩
  · rfl
  · have hshort := round_length hw
    have hle := reaches_length hwu
    rw [hrest] at hle
    omega

end Avb4Linux.Mrp
