import Avb4Linux.Mrp.MsrpReception
import Avb4Linux.Mrp.ReadBounds

/-!
# Which bytes `msrp_recv_msg` reads

The parser of `msrp_recv_msg` with every read checked against the end of the frame,
and the layout of the frames it reads without leaving them.
-/

namespace Avb4Linux.Mrp

open Lib.Packing Option

theorem bytesAt_take {n m i : Nat} (cur : List UInt8) (h : i + n ≤ m) :
    bytesAt n (cur.take m) i = bytesAt n cur i := by
  unfold bytesAt
  congr 1
  funext j
  exact byteAt_take cur (by omega)

theorem msrpDigits_take (k n : Nat) (bs : List UInt8) :
    msrpDigits k n (bs.take (k + 1)) = msrpDigits k n bs := by
  induction k generalizing n bs with
  | zero =>
    unfold msrpDigits
    rw [headD_take_succ]
  | succ k ih =>
    unfold msrpDigits
    rw [headD_take_succ, tail_take_succ]
    dsimp only
    rw [ih]

theorem substates_take (k n : Nat) (bs : List UInt8) :
    substates k n (bs.take k) = substates k n bs := by
  induction k generalizing n bs with
  | zero => rfl
  | succ k ih =>
    unfold substates
    rw [headD_take_succ, tail_take_succ, ih]

/-- `msrpVectors` with every read checked. The fields of a talker are read once for
each value; all of them lie before the packed events, which are read anyway. -/
def msrpVectorsChecked (P : MsrpParser) : Nat → List MsrpType → List UInt8 →
    Option (List (Received MsrpValue) × Option (List UInt8 × List MsrpType))
  | 0, _, _ => none
  | fuel + 1, saw, cur => do
    let head ← readBytes 2 cur
    if byteAt head 0 = 0 ∧ byteAt head 1 = 0 then some ([], some (cur, saw))
    else
      let n := vectNumvalues (headerAt head)
      let lva := vectLva (headerAt head) && !saw.contains P.type
      let rla : List (Received MsrpValue) :=
        if lva then [⟨.RLA, some { type := P.type }⟩] else []
      let saw' := if lva then P.type :: saw else saw
      let nb := numVectorBytes n
      let nb4 := if P.fourPacked then numSubstateBytes n else 0
      if n = 0 then
        let rest ← msrpVectorsChecked P fuel saw' (cur.drop (2 + P.firstLen))
        some (rla ++ rest.1, rest.2)
      else if cur.length ≤ 2 + n / 3 + (if P.fourPacked then n / 4 else 0) then some (rla, none)
      else if P.fourPacked && cur.length ≤ 2 + P.firstLen + nb + nb4 then some (rla, none)
      else
        let first ← readBytes P.firstLen (cur.drop 2)
        let fours ← readBytes nb4 (cur.drop (2 + P.firstLen + nb))
        let packed ← readBytes (nb + 1) (cur.drop (2 + P.firstLen))
        let rest ← msrpVectorsChecked P fuel saw' (cur.drop (2 + P.firstLen + nb + nb4))
        some (rla ++ P.values first (msrpDigits nb n packed) (substates nb4 n fours) ++ rest.1,
          rest.2)

/-- `msrp_recv_msg_check_attrib_list_len` with every read checked; the second byte
of the end mark is read only if the first is zero. -/
def msrpCheckAttribListLenChecked (firstLen : Nat) (cur : List UInt8) : Option Bool := do
  let field ← readBytes 2 cur
  let listLen := (rd16 (byteAt field 0) (byteAt field 1)).toNat
  if firstLen + 2 + 1 ≤ listLen ∧ listLen < cur.length then
    let mark0 ← readBytes 1 (cur.drop listLen)
    if byteAt mark0 0 = 0 then
      let mark1 ← readBytes 1 (cur.drop (listLen + 1))
      some (byteAt mark1 0 = 0)
    else some false
  else some false

def msrpMessage (fuel : Nat) (saw : List MsrpType) (cur : List UInt8) :
    List (Received MsrpValue) × Option (List UInt8 × List MsrpType) :=
  match msrpParser (byteAt cur 0) with
  | none => ([], none)
  | some P =>
    if (byteAt cur 1).toNat ≠ P.firstLen then ([], none)
    else if msrpCheckAttribListLen P.firstLen (cur.drop 2) then
      msrpVectors P fuel saw (cur.drop 4)
    else
      let n := vectNumvalues (headerAt (cur.drop 4))
      let skip := 2 + P.firstLen + (n + 2) / 3 + if P.fourPacked then (n + 3) / 4 else 0
      ([], some (cur.drop (4 + skip), saw))

def msrpMessageChecked (fuel : Nat) (saw : List MsrpType) (cur : List UInt8) :
    Option (List (Received MsrpValue) × Option (List UInt8 × List MsrpType)) := do
  let head ← readBytes 2 cur
  match msrpParser (byteAt head 0) with
  | none => some ([], none)
  | some P =>
    if (byteAt head 1).toNat ≠ P.firstLen then some ([], none)
    else
      let listed ← msrpCheckAttribListLenChecked P.firstLen (cur.drop 2)
      if listed then msrpVectorsChecked P fuel saw (cur.drop 4)
      else
        let header ← readBytes 2 (cur.drop 4)
        let n := vectNumvalues (headerAt header)
        let skip := 2 + P.firstLen + (n + 2) / 3 + if P.fourPacked then (n + 3) / 4 else 0
        some ([], some (cur.drop (4 + skip), saw))

/-- `msrp_recv_msg` with every read checked, up to the calls of `msrp_event`. -/
def msrpParseChecked (frame : Frame) : Option (List (Received MsrpValue)) :=
  parseFrameChecked msrpEtype msrpAddr
    (fun _ fuel cur => messagesChecked msrpMessageChecked fuel 0 [] cur) frame

def MsrpParser.packedBytes (P : MsrpParser) (n : Nat) : Nat :=
  numVectorBytes n + if P.fourPacked then numSubstateBytes n else 0

def MsrpParser.RunsOff (P : MsrpParser) (n len : Nat) : Prop :=
  len ≤ 2 + n / 3 + (if P.fourPacked then n / 4 else 0) ∨
    P.fourPacked ∧ len ≤ 2 + P.firstLen + P.packedBytes n

/-- Vectors that the loop reads without leaving the frame, with the cursor at the
end mark, or `none` if the loop jumps to `out`. -/
inductive MsrpVectorsFit (P : MsrpParser) : List UInt8 → Option (List UInt8) → Prop
  | mark {cur} : 2 ≤ cur.length → byteAt cur 0 = 0 ∧ byteAt cur 1 = 0 →
      MsrpVectorsFit P cur (some cur)
  | empty {cur next} : 2 ≤ cur.length → ¬(byteAt cur 0 = 0 ∧ byteAt cur 1 = 0) →
      vectNumvalues (headerAt cur) = 0 → MsrpVectorsFit P (cur.drop (2 + P.firstLen)) next →
      MsrpVectorsFit P cur next
  | out {cur} : 2 ≤ cur.length → ¬(byteAt cur 0 = 0 ∧ byteAt cur 1 = 0) →
      vectNumvalues (headerAt cur) ≠ 0 → P.RunsOff (vectNumvalues (headerAt cur)) cur.length →
      MsrpVectorsFit P cur none
  | vector {cur next} : ¬(byteAt cur 0 = 0 ∧ byteAt cur 1 = 0) →
      vectNumvalues (headerAt cur) ≠ 0 →
      2 + P.firstLen + P.packedBytes (vectNumvalues (headerAt cur)) < cur.length →
      MsrpVectorsFit P
        (cur.drop (2 + P.firstLen + P.packedBytes (vectNumvalues (headerAt cur)))) next →
      MsrpVectorsFit P cur next

def MsrpListFits (firstLen : Nat) (cur : List UInt8) : Prop :=
  2 ≤ cur.length ∧
    (firstLen + 2 + 1 ≤ (rd16 (byteAt cur 0) (byteAt cur 1)).toNat →
      byteAt cur (rd16 (byteAt cur 0) (byteAt cur 1)).toNat = 0 →
      cur.length ≠ (rd16 (byteAt cur 0) (byteAt cur 1)).toNat + 1)

inductive MsrpMessageFits : List UInt8 → Option (List UInt8) → Prop
  | unknown {cur} : msrpParser (byteAt cur 0) = none → MsrpMessageFits cur none
  | wrongLength {cur P} : msrpParser (byteAt cur 0) = some P →
      (byteAt cur 1).toNat ≠ P.firstLen → MsrpMessageFits cur none
  | vectors {cur next P} : msrpParser (byteAt cur 0) = some P →
      (byteAt cur 1).toNat = P.firstLen → MsrpListFits P.firstLen (cur.drop 2) →
      msrpCheckAttribListLen P.firstLen (cur.drop 2) = true →
      MsrpVectorsFit P (cur.drop 4) next → MsrpMessageFits cur next
  | skipped {cur P} : msrpParser (byteAt cur 0) = some P →
      (byteAt cur 1).toNat = P.firstLen → MsrpListFits P.firstLen (cur.drop 2) →
      msrpCheckAttribListLen P.firstLen (cur.drop 2) = false → 6 ≤ cur.length →
      MsrpMessageFits cur (some (cur.drop (4 + (2 + P.firstLen +
        (vectNumvalues (headerAt (cur.drop 4)) + 2) / 3 +
        if P.fourPacked then (vectNumvalues (headerAt (cur.drop 4)) + 3) / 4 else 0))))

def MsrpFits (frame : Frame) : Prop :=
  FrameFits msrpEtype msrpAddr (fun _ cur => MessagesFit MsrpMessageFits 0 cur) frame

def MsrpParser.Local (P : MsrpParser) : Prop :=
  ∀ cur digits subs, P.values (cur.take P.firstLen) digits subs = P.values cur digits subs

theorem talkerFields_take {failed : Bool} {m : Nat} (cur : List UInt8)
    (h : (if failed then 34 else 25) ≤ m) :
    talkerFields failed (cur.take m) = talkerFields failed cur := by
  have hm : 25 ≤ m := by
    grind
  have hbyte : ∀ i, i < 25 → byteAt (cur.take m) i = byteAt cur i :=
    fun i hi => byteAt_take cur (Nat.lt_of_lt_of_le hi hm)
  have hvector : ∀ n i, i + n ≤ 25 → bytesAt n (cur.take m) i = bytesAt n cur i :=
    fun n i hi => bytesAt_take cur (Nat.le_trans hi hm)
  unfold talkerFields
  rw [hvector 8 0 (by omega), hvector 6 8 (by omega), hbyte 14 (by omega), hbyte 15 (by omega),
    hbyte 16 (by omega), hbyte 17 (by omega), hbyte 18 (by omega), hbyte 19 (by omega),
    hbyte 20 (by omega), hbyte 21 (by omega), hbyte 22 (by omega), hbyte 23 (by omega),
    hbyte 24 (by omega)]
  cases failed with
  | false => rfl
  | true =>
    have h34 : 34 ≤ m := h
    rw [bytesAt_take cur (by omega), byteAt_take cur (by omega)]

theorem domainFields_take (cur : List UInt8) : domainFields (cur.take 4) = domainFields cur := by
  unfold domainFields
  rw [byteAt_take cur (by omega), byteAt_take cur (by omega), byteAt_take cur (by omega),
    byteAt_take cur (by omega)]

theorem msrpParser_local {type : UInt8} {P : MsrpParser} (h : msrpParser type = some P) :
    P.Local := by
  intro cur digits subs
  unfold msrpParser at h
  split at h
  · cases h
    exact congrArg (msrpTalkerEvents .TALKER_ADV · digits) (talkerFields_take cur (by decide))
  · cases h
    exact congrArg (msrpTalkerEvents .TALKER_FAILED · digits) (talkerFields_take cur (by decide))
  · cases h
    exact congrArg (msrpListenerEvents · digits subs) (bytesAt_take cur (by decide))
  · cases h
    exact congrArg (msrpDomainEvents · digits) (domainFields_take cur)
  · cases h

theorem MsrpVectorsFit.length_le {P : MsrpParser} {cur : List UInt8} {next : Option (List UInt8)}
    (h : MsrpVectorsFit P cur next) : ∀ cur' ∈ next, cur'.length ≤ cur.length := by
  induction h with
  | mark => simp
  | out => simp
  | empty _ _ _ _ ih =>
    grind
  | vector _ _ _ _ ih =>
    grind

theorem msrpCheckAttribListLenChecked_iff {firstLen : Nat} {cur : List UInt8} {b : Bool} :
    msrpCheckAttribListLenChecked firstLen cur = some b ↔
      MsrpListFits firstLen cur ∧ msrpCheckAttribListLen firstLen cur = b := by
  unfold msrpCheckAttribListLenChecked MsrpListFits msrpCheckAttribListLen
  by_cases hlen : 2 ≤ cur.length
  · rw [readBytes_of_le hlen]
    dsimp only [bind_eq_bind, bind_some]
    rw [byteAt_take cur (by omega), byteAt_take cur (by omega)]
    generalize (rd16 (byteAt cur 0) (byteAt cur 1)).toNat = listLen
    by_cases hsize : firstLen + 2 + 1 ≤ listLen ∧ listLen < cur.length
    · have hread0 : 1 ≤ (cur.drop listLen).length := by
        rw [List.length_drop]
        omega
      rw [if_pos hsize, readBytes_of_le hread0, bind_some, byteAt_take _ (by omega),
        byteAt_drop, Nat.add_zero]
      by_cases hmark : byteAt cur listLen = 0
      · rw [if_pos hmark]
        by_cases hlast : cur.length = listLen + 1
        · have hread1 : readBytes 1 (cur.drop (listLen + 1)) = none := by
            apply if_neg
            rw [List.length_drop]
            omega
          rw [hread1]
          simp [hsize, hmark, hlast]
        · have hread1 : 1 ≤ (cur.drop (listLen + 1)).length := by
            rw [List.length_drop]
            omega
          rw [readBytes_of_le hread1, bind_some, byteAt_take _ (by omega), byteAt_drop,
            Nat.add_zero]
          simp [hsize, hmark, hlast, hlen]
      · rw [if_neg hmark]
        simp [hsize, hmark, hlen]
    · grind
  · have hread : readBytes 2 cur = none := if_neg hlen
    rw [hread]
    simp [hlen]

theorem msrpVectorsChecked_sound {P : MsrpParser} (hP : P.Local) {fuel : Nat}
    {saw : List MsrpType} {cur : List UInt8}
    {r : List (Received MsrpValue) × Option (List UInt8 × List MsrpType)}
    (h : msrpVectorsChecked P fuel saw cur = some r) :
    msrpVectors P fuel saw cur = r ∧ MsrpVectorsFit P cur (r.2.map Prod.fst) := by
  induction fuel generalizing saw cur r with
  | zero => simp [msrpVectorsChecked] at h
  | succ fuel ih =>
    rw [msrpVectorsChecked] at h
    obtain ⟨head, hhead, h⟩ := bind_eq_some_iff.mp h
    obtain ⟨hlen, rfl⟩ := readBytes_eq_some.mp hhead
    rw [byteAt_take cur (by omega), byteAt_take cur (by omega), headerAt_take] at h
    rw [msrpVectors]
    by_cases hmark : byteAt cur 0 = 0 ∧ byteAt cur 1 = 0
    · rw [if_pos hmark] at h ⊢
      cases h
      exact ⟨rfl, .mark hlen hmark⟩
    · rw [if_neg hmark] at h ⊢
      dsimp only at h ⊢
      by_cases hn : vectNumvalues (headerAt cur) = 0
      · rw [if_pos hn] at h ⊢
        obtain ⟨rest, hrest, h⟩ := bind_eq_some_iff.mp h
        obtain ⟨hparse, hfit⟩ := ih hrest
        cases h
        rw [hparse]
        exact ⟨rfl, .empty hlen hmark hn hfit⟩
      · rw [if_neg hn] at h ⊢
        by_cases hfar : cur.length ≤ 2 + vectNumvalues (headerAt cur) / 3 +
            (if P.fourPacked then vectNumvalues (headerAt cur) / 4 else 0)
        · rw [if_pos hfar] at h ⊢
          cases h
          exact ⟨rfl, .out hlen hmark hn (Or.inl hfar)⟩
        · rw [if_neg hfar] at h ⊢
          by_cases hfour : (P.fourPacked && decide (cur.length ≤ 2 + P.firstLen +
              numVectorBytes (vectNumvalues (headerAt cur)) +
              if P.fourPacked then numSubstateBytes (vectNumvalues (headerAt cur)) else 0)) = true
          · rw [if_pos hfour] at h ⊢
            cases h
            rw [Bool.and_eq_true, decide_eq_true_eq, Nat.add_assoc] at hfour
            exact ⟨rfl, .out hlen hmark hn (Or.inr hfour)⟩
          · rw [if_neg hfour] at h ⊢
            obtain ⟨first, hfirst, h⟩ := bind_eq_some_iff.mp h
            obtain ⟨fours, hfours, h⟩ := bind_eq_some_iff.mp h
            obtain ⟨packed, hpacked, h⟩ := bind_eq_some_iff.mp h
            obtain ⟨rest, hrest, h⟩ := bind_eq_some_iff.mp h
            obtain ⟨_, rfl⟩ := readBytes_eq_some.mp hfirst
            obtain ⟨_, rfl⟩ := readBytes_eq_some.mp hfours
            obtain ⟨hroom, rfl⟩ := readBytes_eq_some.mp hpacked
            obtain ⟨hparse, hfit⟩ := ih hrest
            cases h
            rw [hP, msrpDigits_take, substates_take, hparse]
            rw [List.length_drop] at hroom
            have hbound : 2 + P.firstLen + P.packedBytes (vectNumvalues (headerAt cur)) <
                cur.length := by
              unfold MsrpParser.packedBytes
              cases hpacked : P.fourPacked with
              | false => simpa using Nat.lt_of_sub_pos (by omega)
              | true =>
                rw [hpacked] at hfour
                simpa [Nat.add_assoc] using hfour
            rw [Nat.add_assoc] at hfit
            exact ⟨rfl, .vector hmark hn hbound hfit⟩

theorem MsrpParser.not_runsOff {P : MsrpParser} {n len : Nat}
    (h : 2 + P.firstLen + P.packedBytes n < len) : ¬ P.RunsOff n len := by
  have h3 := div_three_le_numVectorBytes n
  have h4 : n / 4 ≤ numSubstateBytes n := by
    unfold numSubstateBytes
    split <;> omega
  unfold MsrpParser.RunsOff
  unfold MsrpParser.packedBytes at h ⊢
  grind

theorem msrpVectorsChecked_complete {P : MsrpParser} {fuel : Nat} (saw : List MsrpType)
    {cur : List UInt8} {next : Option (List UInt8)} (h : MsrpVectorsFit P cur next)
    (hfuel : cur.length < fuel) :
    ∃ r, msrpVectorsChecked P fuel saw cur = some r ∧ r.2.map Prod.fst = next := by
  induction h generalizing fuel saw with
  | @mark cur hlen hmark =>
    obtain ⟨fuel, rfl⟩ : ∃ f, fuel = f + 1 := ⟨fuel - 1, by omega⟩
    rw [msrpVectorsChecked, readBytes_of_le hlen]
    dsimp only [bind_eq_bind, bind_some]
    rw [byteAt_take cur (by omega), byteAt_take cur (by omega), if_pos hmark]
    exact ⟨_, rfl, rfl⟩
  | @empty cur next hlen hmark hn _ ih =>
    obtain ⟨fuel, rfl⟩ : ∃ f, fuel = f + 1 := ⟨fuel - 1, by omega⟩
    have hless : (cur.drop (2 + P.firstLen)).length < fuel := by
      rw [List.length_drop]
      omega
    obtain ⟨r, hr, hnext⟩ := ih (if (vectLva (headerAt cur) && !saw.contains P.type) = true
      then P.type :: saw else saw) hless
    rw [msrpVectorsChecked, readBytes_of_le hlen]
    dsimp only [bind_eq_bind, bind_some]
    rw [byteAt_take cur (by omega), byteAt_take cur (by omega), if_neg hmark, headerAt_take,
      if_pos hn, hr]
    exact ⟨_, rfl, hnext⟩
  | @out cur hlen hmark hn hout =>
    obtain ⟨fuel, rfl⟩ : ∃ f, fuel = f + 1 := ⟨fuel - 1, by omega⟩
    rw [msrpVectorsChecked, readBytes_of_le hlen]
    dsimp only [bind_eq_bind, bind_some]
    rw [byteAt_take cur (by omega), byteAt_take cur (by omega), if_neg hmark, headerAt_take,
      if_neg hn]
    by_cases hfar : cur.length ≤ 2 + vectNumvalues (headerAt cur) / 3 +
        (if P.fourPacked then vectNumvalues (headerAt cur) / 4 else 0)
    · rw [if_pos hfar]
      exact ⟨_, rfl, rfl⟩
    · have hfour := hout.resolve_left hfar
      rw [MsrpParser.packedBytes, ← Nat.add_assoc, ← decide_eq_true_eq (p := cur.length ≤ _),
        ← Bool.and_eq_true] at hfour
      rw [if_neg hfar, if_pos hfour]
      exact ⟨_, rfl, rfl⟩
  | @vector cur next hmark hn hroom _ ih =>
    obtain ⟨fuel, rfl⟩ : ∃ f, fuel = f + 1 := ⟨fuel - 1, by omega⟩
    obtain ⟨hfar, hfour⟩ := not_or.mp (MsrpParser.not_runsOff hroom)
    rw [MsrpParser.packedBytes, ← Nat.add_assoc] at hroom hfour ih
    rw [← decide_eq_true_eq (p := cur.length ≤ _), ← Bool.and_eq_true] at hfour
    have hfirst : P.firstLen ≤ (cur.drop 2).length := by
      rw [List.length_drop]
      omega
    have hfours : (if P.fourPacked then numSubstateBytes (vectNumvalues (headerAt cur)) else 0) ≤
        (cur.drop (2 + P.firstLen + numVectorBytes (vectNumvalues (headerAt cur)))).length := by
      rw [List.length_drop]
      omega
    have hpacked : numVectorBytes (vectNumvalues (headerAt cur)) + 1 ≤
        (cur.drop (2 + P.firstLen)).length := by
      rw [List.length_drop]
      omega
    have hless : (cur.drop (2 + P.firstLen + numVectorBytes (vectNumvalues (headerAt cur)) +
        if P.fourPacked then numSubstateBytes (vectNumvalues (headerAt cur)) else 0)).length <
        fuel := by
      rw [List.length_drop]
      omega
    obtain ⟨r, hr, hnext⟩ := ih (if (vectLva (headerAt cur) && !saw.contains P.type) = true
      then P.type :: saw else saw) hless
    rw [msrpVectorsChecked, readBytes_of_le (by omega)]
    dsimp only [bind_eq_bind, bind_some]
    rw [byteAt_take cur (by omega), byteAt_take cur (by omega), if_neg hmark, headerAt_take,
      if_neg hn, if_neg hfar, if_neg hfour, readBytes_of_le hfirst, bind_some,
      readBytes_of_le hfours, bind_some, readBytes_of_le hpacked, bind_some, hr]
    exact ⟨_, rfl, hnext⟩

theorem msrpMessageList_eq (fuel endmarks : Nat) (saw : List MsrpType) (cur : List UInt8) :
    msrpMessageList fuel endmarks saw cur = messages msrpMessage fuel endmarks saw cur := by
  induction fuel generalizing endmarks saw cur with
  | zero => rfl
  | succ fuel ih =>
    rw [msrpMessageList, messages, msrpMessage]
    grind

theorem msrpMessageChecked_sound (fuel : Nat) (saw : List MsrpType) (cur : List UInt8)
    (r : List (Received MsrpValue) × Option (List UInt8 × List MsrpType))
    (_ : endmarkSz < cur.length) (h : msrpMessageChecked fuel saw cur = some r) :
    msrpMessage fuel saw cur = r ∧ MsrpMessageFits cur (r.2.map Prod.fst) := by
  unfold msrpMessageChecked at h
  obtain ⟨head, hhead, h⟩ := bind_eq_some_iff.mp h
  obtain ⟨_, rfl⟩ := readBytes_eq_some.mp hhead
  rw [byteAt_take cur (by omega), byteAt_take cur (by omega)] at h
  unfold msrpMessage
  cases hP : msrpParser (byteAt cur 0) with
  | none =>
    rw [hP] at h
    cases h
    exact ⟨rfl, .unknown hP⟩
  | some P =>
    rw [hP] at h
    dsimp only at h ⊢
    by_cases hlength : (byteAt cur 1).toNat ≠ P.firstLen
    · rw [if_pos hlength] at h ⊢
      cases h
      exact ⟨rfl, .wrongLength hP hlength⟩
    · rw [if_neg hlength] at h ⊢
      obtain ⟨listed, hlisted, h⟩ := bind_eq_some_iff.mp h
      obtain ⟨hlist, rfl⟩ := msrpCheckAttribListLenChecked_iff.mp hlisted
      cases hcheck : msrpCheckAttribListLen P.firstLen (cur.drop 2) with
      | true =>
        rw [hcheck, if_pos rfl] at h
        obtain ⟨hparse, hfit⟩ := msrpVectorsChecked_sound (msrpParser_local hP) h
        exact ⟨hparse, .vectors hP (not_not.mp hlength) hlist hcheck hfit⟩
      | false =>
        rw [hcheck, if_neg Bool.false_ne_true] at h
        obtain ⟨header, hheader, h⟩ := bind_eq_some_iff.mp h
        obtain ⟨hroom, rfl⟩ := readBytes_eq_some.mp hheader
        rw [List.length_drop] at hroom
        rw [headerAt_take] at h
        cases h
        exact ⟨rfl, .skipped hP (not_not.mp hlength) hlist hcheck (by omega)⟩

theorem msrpMessageChecked_complete (fuel : Nat) (saw : List MsrpType) (cur : List UInt8)
    (next : Option (List UInt8)) (hlen : endmarkSz < cur.length) (hfuel : cur.length ≤ fuel)
    (h : MsrpMessageFits cur next) :
    ∃ r, msrpMessageChecked fuel saw cur = some r ∧ r.2.map Prod.fst = next := by
  have hread : readBytes 2 cur = some (cur.take 2) := readBytes_of_le (Nat.le_of_lt hlen)
  have hless : (cur.drop 4).length < fuel := by
    rw [List.length_drop]
    omega
  unfold msrpMessageChecked
  rw [hread]
  dsimp only [bind_eq_bind, bind_some]
  rw [byteAt_take cur (by omega), byteAt_take cur (by omega)]
  cases h with
  | unknown hP =>
    rw [hP]
    exact ⟨_, rfl, rfl⟩
  | wrongLength hP hlength =>
    simp_all
  | vectors hP hlength hlist hcheck hfit =>
    rw [hP]
    dsimp only
    rw [if_neg (not_not.mpr hlength), msrpCheckAttribListLenChecked_iff.mpr ⟨hlist, hcheck⟩,
      bind_some, if_pos rfl]
    exact msrpVectorsChecked_complete saw hfit hless
  | skipped hP hlength hlist hcheck hroom =>
    have hheader : 2 ≤ (cur.drop 4).length := by
      rw [List.length_drop]
      omega
    rw [hP]
    dsimp only
    rw [if_neg (not_not.mpr hlength), msrpCheckAttribListLenChecked_iff.mpr ⟨hlist, hcheck⟩,
      bind_some, if_neg Bool.false_ne_true, readBytes_of_le hheader, bind_some,
      headerAt_take]
    exact ⟨_, rfl, rfl⟩

theorem MsrpMessageFits.length_lt (cur cur' : List UInt8) (hlen : endmarkSz < cur.length)
    (h : MsrpMessageFits cur (some cur')) : cur'.length < cur.length := by
  have hpos : 2 < cur.length := hlen
  cases h with
  | vectors _ _ _ _ hfit =>
    have := hfit.length_le cur' rfl
    rw [List.length_drop] at this
    omega
  | skipped =>
    rw [List.length_drop]
    omega

/-- `msrp_recv_msg` reads a frame without leaving it, and makes its calls from what
it read there, exactly if the frame fits. -/
theorem msrpParseChecked_iff (frame : Frame) :
    msrpParseChecked frame = some (msrpParse frame) ↔ MsrpFits frame := by
  have hwalk : ∀ (_ : UInt8) fuel cur, cur.length < fuel →
      (messagesChecked msrpMessageChecked fuel 0 [] cur =
          some (msrpMessageList fuel 0 [] cur) ↔ MessagesFit MsrpMessageFits 0 cur) := by
    intro _ fuel cur hfuel
    rw [msrpMessageList_eq]
    exact messagesChecked_iff msrpMessageChecked_sound msrpMessageChecked_complete
      MsrpMessageFits.length_lt [] hfuel
  exact parseFrameChecked_iff hwalk frame

/-- A domain vector that ends with its first value: the event of the domain is the
zero behind the frame. -/
def msrpCutFrame : Frame :=
  msrpAddr ++ [2, 0, 0, 0, 0, 1] ++ be16 msrpEtype ++ [0, 4, 4, 0, 7, 0, 1, 6, 3, 0, 0]

theorem msrp_reads_behind_frame :
    msrpParseChecked msrpCutFrame = none ∧
      msrpParse msrpCutFrame =
        [⟨.RNEW, some { type := .DOMAIN, domain := domainFields [6, 3, 0, 0] }⟩] := by
  decide +kernel

end Avb4Linux.Mrp
