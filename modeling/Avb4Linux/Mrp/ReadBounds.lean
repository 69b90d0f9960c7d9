import Avb4Linux.Mrp.Mmrp
import Avb4Linux.Mrp.Mvrp

/-!
# Which bytes the receive functions read

The parsers of `mvrp_recv_msg` and `mmrp_recv_msg` with every read checked against the end of the
frame, and the layout of the frames they read without leaving them.
-/

namespace Avb4Linux.Mrp

open Lib.Packing List Option

def readBytes (n : Nat) (cur : List UInt8) : Option (List UInt8) :=
  if n ≤ cur.length then some (cur.take n) else none

theorem readBytes_eq_some {n : Nat} {cur bs : List UInt8} :
    readBytes n cur = some bs ↔ n ≤ cur.length ∧ cur.take n = bs := by
  unfold readBytes
  split <;> simp [*]

theorem readBytes_of_le {n : Nat} {cur : List UInt8} (h : n ≤ cur.length) :
    readBytes n cur = some (cur.take n) :=
  if_pos h

theorem byteAt_take {n i : Nat} (cur : List UInt8) (h : i < n) :
    byteAt (cur.take n) i = byteAt cur i := by
  simp only [byteAt, getD_eq_getElem?_getD, List.getElem?_take_of_lt h]

theorem byteAt_drop (cur : List UInt8) (k i : Nat) :
    byteAt (cur.drop k) i = byteAt cur (k + i) := by
  simp only [byteAt, getD_eq_getElem?_getD, List.getElem?_drop]

theorem headerAt_take (cur : List UInt8) : headerAt (cur.take 2) = headerAt cur := by
  unfold headerAt
  rw [byteAt_take cur (by omega), byteAt_take cur (by omega)]

theorem headD_take_succ (n : Nat) (bs : List UInt8) : (bs.take (n + 1)).headD 0 = bs.headD 0 := by
  cases bs <;> rfl

theorem tail_take_succ (n : Nat) (bs : List UInt8) : (bs.take (n + 1)).tail = bs.tail.take n := by
  cases bs <;> simp

theorem eventDigits_take (k n : Nat) (bs : List UInt8) :
    eventDigits k n (bs.take (k + 1)) = eventDigits k n bs := by
  induction k generalizing n bs with
  | zero =>
    unfold eventDigits
    rw [headD_take_succ]
  | succ k ih =>
    unfold eventDigits
    rw [headD_take_succ, tail_take_succ, ih]

section Vectors

variable {V : Type} (P : VectorParser V)

/-- `parseVectors` with every read checked: the two bytes of the loop test, which
are also the vector header, the first value, and the packed events with the byte
behind them. -/
def parseVectorsChecked :
    Nat → Bool → List UInt8 → Option (List (Received V) × Option (List UInt8 × Bool))
  | 0, _, _ => none
  | fuel + 1, saw, cur => do
    let head ← readBytes 2 cur
    if byteAt head 0 = 0 ∧ byteAt head 1 = 0 then some ([], some (cur, saw))
    else
      let numvalues := vectNumvalues (headerAt head)
      let lva := vectLva (headerAt head) && (P.everyLva || !saw)
      let rla := if lva then [P.rla] else []
      if numvalues = 0 ∨ cur.length ≤ 2 + numvalues / 3 then some (rla, none)
      else
        let nb := numVectorBytes numvalues
        let first ← readBytes P.firstLen (cur.drop 2)
        let packed ← readBytes (nb + 1) (cur.drop (2 + P.firstLen))
        let rest ← parseVectorsChecked fuel (saw || (lva && !P.everyLva))
          (cur.drop (2 + P.firstLen + nb))
        some (rla ++ P.values first (eventDigits nb numvalues packed) ++ rest.1, rest.2)

def VectorParser.Local : Prop :=
  ∀ cur digits, P.values (cur.take P.firstLen) digits = P.values cur digits

inductive VectorsFit (firstLen : Nat) : List UInt8 → Option (List UInt8) → Prop
  | mark {cur} : 2 ≤ cur.length → byteAt cur 0 = 0 ∧ byteAt cur 1 = 0 →
      VectorsFit firstLen cur (some cur)
  | out {cur} : 2 ≤ cur.length → ¬(byteAt cur 0 = 0 ∧ byteAt cur 1 = 0) →
      vectNumvalues (headerAt cur) = 0 ∨ cur.length ≤ 2 + vectNumvalues (headerAt cur) / 3 →
      VectorsFit firstLen cur none
  | vector {cur next} : ¬(byteAt cur 0 = 0 ∧ byteAt cur 1 = 0) →
      vectNumvalues (headerAt cur) ≠ 0 →
      2 + firstLen + numVectorBytes (vectNumvalues (headerAt cur)) < cur.length →
      VectorsFit firstLen
        (cur.drop (2 + firstLen + numVectorBytes (vectNumvalues (headerAt cur)))) next →
      VectorsFit firstLen cur next

theorem VectorsFit.length_le {firstLen : Nat} {cur : List UInt8} {next : Option (List UInt8)}
    (h : VectorsFit firstLen cur next) : ∀ cur' ∈ next, cur'.length ≤ cur.length := by
  induction h with
  | mark => simp
  | out => simp
  | vector _ _ _ _ ih =>
    grind

theorem div_three_le_numVectorBytes (n : Nat) : n / 3 ≤ numVectorBytes n := by
  unfold numVectorBytes
  split <;> omega

theorem parseVectorsChecked_sound (hP : P.Local) {fuel : Nat} {saw : Bool} {cur : List UInt8}
    {r : List (Received V) × Option (List UInt8 × Bool)}
    (h : parseVectorsChecked P fuel saw cur = some r) :
    parseVectors P fuel saw cur = r ∧ VectorsFit P.firstLen cur (r.2.map Prod.fst) := by
  induction fuel generalizing saw cur r with
  | zero => simp [parseVectorsChecked] at h
  | succ fuel ih =>
    rw [parseVectorsChecked] at h
    obtain ⟨head, hhead, h⟩ := bind_eq_some_iff.mp h
    obtain ⟨hlen, rfl⟩ := readBytes_eq_some.mp hhead
    rw [byteAt_take cur (by omega), byteAt_take cur (by omega), headerAt_take] at h
    rw [parseVectors]
    by_cases hmark : byteAt cur 0 = 0 ∧ byteAt cur 1 = 0
    · rw [if_pos hmark] at h ⊢
      cases h
      exact ⟨rfl, .mark hlen hmark⟩
    · rw [if_neg hmark] at h ⊢
      dsimp only at h ⊢
      by_cases hout : vectNumvalues (headerAt cur) = 0 ∨
          cur.length ≤ 2 + vectNumvalues (headerAt cur) / 3
      · rw [if_pos hout] at h ⊢
        cases h
        exact ⟨rfl, .out hlen hmark hout⟩
      · rw [if_neg hout] at h ⊢
        obtain ⟨first, hfirst, h⟩ := bind_eq_some_iff.mp h
        obtain ⟨packed, hpacked, h⟩ := bind_eq_some_iff.mp h
        obtain ⟨rest, hrest, h⟩ := bind_eq_some_iff.mp h
        obtain ⟨_, rfl⟩ := readBytes_eq_some.mp hfirst
        obtain ⟨hroom, rfl⟩ := readBytes_eq_some.mp hpacked
        obtain ⟨hparse, hfit⟩ := ih hrest
        cases h
        rw [hP, eventDigits_take, hparse]
        rw [length_drop] at hroom
        exact ⟨rfl, .vector hmark (fun h0 => hout (Or.inl h0)) (by omega) hfit⟩

theorem parseVectorsChecked_complete {fuel : Nat} (saw : Bool) {cur : List UInt8}
    {next : Option (List UInt8)} (h : VectorsFit P.firstLen cur next) (hfuel : cur.length < fuel) :
    ∃ r, parseVectorsChecked P fuel saw cur = some r ∧ r.2.map Prod.fst = next := by
  induction h generalizing fuel saw with
  | @mark cur hlen hmark =>
    obtain ⟨fuel, rfl⟩ : ∃ f, fuel = f + 1 := ⟨fuel - 1, by omega⟩
    rw [parseVectorsChecked, readBytes_of_le hlen]
    dsimp only [bind_eq_bind, bind_some]
    rw [byteAt_take cur (by omega), byteAt_take cur (by omega), if_pos hmark]
    exact ⟨_, rfl, rfl⟩
  | @out cur hlen hmark hout =>
    obtain ⟨fuel, rfl⟩ : ∃ f, fuel = f + 1 := ⟨fuel - 1, by omega⟩
    rw [parseVectorsChecked, readBytes_of_le hlen]
    dsimp only [bind_eq_bind, bind_some]
    rw [byteAt_take cur (by omega), byteAt_take cur (by omega), if_neg hmark, headerAt_take,
      if_pos hout]
    exact ⟨_, rfl, rfl⟩
  | @vector cur next hmark hn hroom _ ih =>
    obtain ⟨fuel, rfl⟩ : ∃ f, fuel = f + 1 := ⟨fuel - 1, by omega⟩
    have hdiv := div_three_le_numVectorBytes (vectNumvalues (headerAt cur))
    have hin : ¬(vectNumvalues (headerAt cur) = 0 ∨
        cur.length ≤ 2 + vectNumvalues (headerAt cur) / 3) := by omega
    have hfirst : P.firstLen ≤ (cur.drop 2).length := by rw [length_drop]; omega
    have hpacked : numVectorBytes (vectNumvalues (headerAt cur)) + 1 ≤
        (cur.drop (2 + P.firstLen)).length := by rw [length_drop]; omega
    rw [parseVectorsChecked, readBytes_of_le (by omega)]
    dsimp only [bind_eq_bind, bind_some]
    rw [byteAt_take cur (by omega), byteAt_take cur (by omega), if_neg hmark, headerAt_take,
      if_neg hin, readBytes_of_le hfirst, bind_some, readBytes_of_le hpacked,
      bind_some]
    have hless : (cur.drop (2 + P.firstLen + numVectorBytes (vectNumvalues (headerAt cur)))).length
        < fuel := by
      rw [length_drop]
      omega
    obtain ⟨r, hr, hnext⟩ :=
      ih (saw || (vectLva (headerAt cur) && (P.everyLva || !saw)) && !P.everyLva) hless
    rw [hr]
    exact ⟨_, rfl, hnext⟩

end Vectors

/-! ### Message lists

The outer loop is the same in the three functions: it stops at two end marks or
when no more than the size of one is left. -/

section Messages

variable {V S : Type}

def messages (message : Nat → S → List UInt8 → List (Received V) × Option (List UInt8 × S)) :
    Nat → Nat → S → List UInt8 → List (Received V)
  | 0, _, _, _ => []
  | fuel + 1, endmarks, s, cur =>
    if cur.length ≤ endmarkSz then []
    else if byteAt cur 0 = 0 ∧ byteAt cur 1 = 0 then
      if endmarks + 1 < 2 then messages message fuel (endmarks + 1) s (cur.drop 2) else []
    else
      let r := message fuel s cur
      match r.2 with
      | none => r.1
      | some (cur', s') => r.1 ++ messages message fuel 0 s' cur'

def messagesChecked
    (message : Nat → S → List UInt8 → Option (List (Received V) × Option (List UInt8 × S))) :
    Nat → Nat → S → List UInt8 → Option (List (Received V))
  | 0, _, _, _ => none
  | fuel + 1, endmarks, s, cur =>
    if cur.length ≤ endmarkSz then some []
    else do
      let head ← readBytes 2 cur
      if byteAt head 0 = 0 ∧ byteAt head 1 = 0 then
        if endmarks + 1 < 2 then messagesChecked message fuel (endmarks + 1) s (cur.drop 2)
        else some []
      else
        let r ← message fuel s cur
        match r.2 with
        | none => some r.1
        | some (cur', s') =>
          let rest ← messagesChecked message fuel 0 s' cur'
          some (r.1 ++ rest)

inductive MessagesFit (fit : List UInt8 → Option (List UInt8) → Prop) : Nat → List UInt8 → Prop
  | stop {endmarks cur} : cur.length ≤ endmarkSz → MessagesFit fit endmarks cur
  | mark {endmarks cur} : endmarkSz < cur.length → byteAt cur 0 = 0 ∧ byteAt cur 1 = 0 →
      (endmarks + 1 < 2 → MessagesFit fit (endmarks + 1) (cur.drop 2)) →
      MessagesFit fit endmarks cur
  | out {endmarks cur} : endmarkSz < cur.length → ¬(byteAt cur 0 = 0 ∧ byteAt cur 1 = 0) →
      fit cur none → MessagesFit fit endmarks cur
  | message {endmarks cur cur'} : endmarkSz < cur.length →
      ¬(byteAt cur 0 = 0 ∧ byteAt cur 1 = 0) → fit cur (some cur') → MessagesFit fit 0 cur' →
      MessagesFit fit endmarks cur

variable {fit : List UInt8 → Option (List UInt8) → Prop}
  {message : Nat → S → List UInt8 → List (Received V) × Option (List UInt8 × S)}
  {checked : Nat → S → List UInt8 → Option (List (Received V) × Option (List UInt8 × S))}

theorem messagesChecked_sound
    (hsound : ∀ fuel s cur r, endmarkSz < cur.length → checked fuel s cur = some r →
      message fuel s cur = r ∧ fit cur (r.2.map Prod.fst))
    {fuel endmarks : Nat} {s : S} {cur : List UInt8} {rs : List (Received V)}
    (h : messagesChecked checked fuel endmarks s cur = some rs) :
    messages message fuel endmarks s cur = rs ∧ MessagesFit fit endmarks cur := by
  induction fuel generalizing endmarks s cur rs with
  | zero => simp [messagesChecked] at h
  | succ fuel ih =>
    rw [messagesChecked] at h
    rw [messages]
    by_cases hstop : cur.length ≤ endmarkSz
    · rw [if_pos hstop] at h ⊢
      cases h
      exact ⟨rfl, .stop hstop⟩
    · rw [if_neg hstop] at h ⊢
      have hlen : endmarkSz < cur.length := Nat.lt_of_not_le hstop
      obtain ⟨head, hhead, h⟩ := bind_eq_some_iff.mp h
      obtain ⟨_, rfl⟩ := readBytes_eq_some.mp hhead
      rw [byteAt_take cur (by omega), byteAt_take cur (by omega)] at h
      by_cases hmark : byteAt cur 0 = 0 ∧ byteAt cur 1 = 0
      · rw [if_pos hmark] at h ⊢
        by_cases hfirst : endmarks + 1 < 2
        · rw [if_pos hfirst] at h ⊢
          obtain ⟨hrs, hfit⟩ := ih h
          exact ⟨hrs, .mark hlen hmark fun _ => hfit⟩
        · rw [if_neg hfirst] at h ⊢
          cases h
          exact ⟨rfl, .mark hlen hmark fun h2 => absurd h2 hfirst⟩
      · rw [if_neg hmark] at h ⊢
        obtain ⟨r, hr, h⟩ := bind_eq_some_iff.mp h
        obtain ⟨hmessage, hfit⟩ := hsound fuel s cur r hlen hr
        rw [hmessage]
        obtain ⟨calls, next⟩ := r
        cases next with
        | none =>
          cases h
          exact ⟨rfl, .out hlen hmark hfit⟩
        | some next =>
          obtain ⟨rest, hrest, h⟩ := bind_eq_some_iff.mp h
          obtain ⟨hwalk, hrestFit⟩ := ih hrest
          cases h
          refine ⟨?_, .message hlen hmark hfit hrestFit⟩
          dsimp only
          rw [hwalk]

theorem messagesChecked_complete
    (hcomplete : ∀ fuel s cur next, endmarkSz < cur.length → cur.length ≤ fuel → fit cur next →
      ∃ r, checked fuel s cur = some r ∧ r.2.map Prod.fst = next)
    (hless : ∀ cur cur', endmarkSz < cur.length → fit cur (some cur') →
      cur'.length < cur.length)
    {fuel endmarks : Nat} (s : S) {cur : List UInt8} (h : MessagesFit fit endmarks cur)
    (hfuel : cur.length < fuel) :
    ∃ rs, messagesChecked checked fuel endmarks s cur = some rs := by
  have hread : ∀ {cur : List UInt8}, endmarkSz < cur.length →
      readBytes 2 cur = some (cur.take 2) := fun h => readBytes_of_le (Nat.le_of_lt h)
  induction h generalizing fuel s with
  | @stop endmarks cur hstop =>
    obtain ⟨fuel, rfl⟩ : ∃ f, fuel = f + 1 := ⟨fuel - 1, by omega⟩
    rw [messagesChecked, if_pos hstop]
    exact ⟨_, rfl⟩
  | @mark endmarks cur hlen hmark _ ih =>
    obtain ⟨fuel, rfl⟩ : ∃ f, fuel = f + 1 := ⟨fuel - 1, by omega⟩
    rw [messagesChecked, if_neg (Nat.not_le_of_lt hlen), hread hlen]
    dsimp only [bind_eq_bind, bind_some]
    rw [byteAt_take cur (by omega), byteAt_take cur (by omega), if_pos hmark]
    by_cases hfirst : endmarks + 1 < 2
    · rw [if_pos hfirst]
      have hdrop : (cur.drop 2).length < fuel := by
        rw [length_drop]
        omega
      exact ih hfirst s hdrop
    · rw [if_neg hfirst]
      exact ⟨_, rfl⟩
  | @out endmarks cur hlen hmark hfit =>
    obtain ⟨fuel, rfl⟩ : ∃ f, fuel = f + 1 := ⟨fuel - 1, by omega⟩
    obtain ⟨⟨calls, next⟩, hr, hnext⟩ := hcomplete fuel s cur none hlen (by omega) hfit
    rw [messagesChecked, if_neg (Nat.not_le_of_lt hlen), hread hlen]
    dsimp only [bind_eq_bind, bind_some]
    rw [byteAt_take cur (by omega), byteAt_take cur (by omega), if_neg hmark, hr]
    simp_all
  | @message endmarks cur cur' hlen hmark hfit _ ih =>
    obtain ⟨fuel, rfl⟩ : ∃ f, fuel = f + 1 := ⟨fuel - 1, by omega⟩
    obtain ⟨⟨calls, next⟩, hr, hnext⟩ := hcomplete fuel s cur (some cur') hlen (by omega) hfit
    rw [messagesChecked, if_neg (Nat.not_le_of_lt hlen), hread hlen]
    dsimp only [bind_eq_bind, bind_some]
    rw [byteAt_take cur (by omega), byteAt_take cur (by omega), if_neg hmark, hr]
    obtain ⟨⟨cur', s'⟩, rfl, rfl⟩ := map_eq_some_iff.mp hnext
    have hfuel' : cur'.length < fuel := by
      have := hless cur cur' hlen hfit
      omega
    obtain ⟨rest, hrest⟩ := ih s' hfuel'
    grind

theorem messagesChecked_iff
    (hsound : ∀ fuel s cur r, endmarkSz < cur.length → checked fuel s cur = some r →
      message fuel s cur = r ∧ fit cur (r.2.map Prod.fst))
    (hcomplete : ∀ fuel s cur next, endmarkSz < cur.length → cur.length ≤ fuel → fit cur next →
      ∃ r, checked fuel s cur = some r ∧ r.2.map Prod.fst = next)
    (hless : ∀ cur cur', endmarkSz < cur.length → fit cur (some cur') →
      cur'.length < cur.length)
    {fuel endmarks : Nat} (s : S) {cur : List UInt8} (hfuel : cur.length < fuel) :
    messagesChecked checked fuel endmarks s cur = some (messages message fuel endmarks s cur) ↔
      MessagesFit fit endmarks cur := by
  constructor
  · intro h
    exact (messagesChecked_sound hsound h).2
  · intro h
    obtain ⟨rs, hrs⟩ := messagesChecked_complete hcomplete hless s h hfuel
    rw [hrs, (messagesChecked_sound hsound hrs).1]

/-- The checks on the header of a frame, with the reads checked. `walk` gets the
protocol version, a bound on the number of turns and the message list. -/
def parseFrameChecked (etype : UInt16) (addr : List UInt8)
    (walk : UInt8 → Nat → List UInt8 → Option (List (Received V))) (frame : Frame) :
    Option (List (Received V)) :=
  if frame.length < 17 then some []
  else do
    let header ← readBytes messageListStart frame
    if rd16 (byteAt header 12) (byteAt header 13) ≠ etype then some []
    else if header.take 6 ≠ addr then some []
    else walk (byteAt header 14) (frame.length + 1) (frame.drop messageListStart)

def FrameFits (etype : UInt16) (addr : List UInt8) (fits : UInt8 → List UInt8 → Prop)
    (frame : Frame) : Prop :=
  17 ≤ frame.length → rd16 (byteAt frame 12) (byteAt frame 13) = etype → frame.take 6 = addr →
    fits (byteAt frame 14) (frame.drop messageListStart)

theorem parseFrameChecked_iff {etype : UInt16} {addr : List UInt8}
    {walk : UInt8 → Nat → List UInt8 → Option (List (Received V))}
    {parse : UInt8 → Nat → List UInt8 → List (Received V)} {fits : UInt8 → List UInt8 → Prop}
    (hwalk : ∀ version fuel cur, cur.length < fuel →
      (walk version fuel cur = some (parse version fuel cur) ↔ fits version cur))
    (frame : Frame) :
    parseFrameChecked etype addr walk frame =
        some (if frame.length < 17 then []
          else if rd16 (byteAt frame 12) (byteAt frame 13) ≠ etype then []
          else if frame.take 6 ≠ addr then []
          else parse (byteAt frame 14) (frame.length + 1) (frame.drop messageListStart)) ↔
      FrameFits etype addr fits frame := by
  unfold parseFrameChecked FrameFits
  by_cases hshort : frame.length < 17
  · grind
  · have hheader : messageListStart ≤ frame.length := by
      unfold messageListStart
      omega
    rw [if_neg hshort, if_neg hshort, readBytes_of_le hheader]
    dsimp only [bind_eq_bind, bind_some]
    rw [byteAt_take frame (by decide), byteAt_take frame (by decide),
      byteAt_take frame (by decide), take_take]
    by_cases htype : rd16 (byteAt frame 12) (byteAt frame 13) ≠ etype
    · grind
    · grind [messageListStart]

end Messages

def mvrpMessage (version : UInt8) (fuel : Nat) (saw : Bool) (cur : List UInt8) :
    List (Received Vid) × Option (List UInt8 × Bool) :=
  if byteAt cur 0 = 1 then
    if byteAt cur 1 ≠ 2 then ([], none)
    else parseVectors mvrpVidParser fuel saw (cur.drop 2)
  else if version = 0 then ([], none)
  else
    let numvalues := vectNumvalues (headerAt (cur.drop 2))
    ([], some (cur.drop (2 + (2 + (byteAt cur 1).toNat + (numvalues + 2) / 3)), saw))

def mvrpMessageChecked (version : UInt8) (fuel : Nat) (saw : Bool) (cur : List UInt8) :
    Option (List (Received Vid) × Option (List UInt8 × Bool)) := do
  let head ← readBytes 2 cur
  if byteAt head 0 = 1 then
    if byteAt head 1 ≠ 2 then some ([], none)
    else parseVectorsChecked mvrpVidParser fuel saw (cur.drop 2)
  else if version = 0 then some ([], none)
  else
    let header ← readBytes 2 (cur.drop 2)
    let numvalues := vectNumvalues (headerAt header)
    some ([], some (cur.drop (2 + (2 + (byteAt head 1).toNat + (numvalues + 2) / 3)), saw))

/-- `mvrp_recv_msg` with every read checked, up to the calls of `mvrp_event`. -/
def mvrpParseChecked (frame : Frame) : Option (List (Received Vid)) :=
  parseFrameChecked mvrpEtype mvrpCustomerBridgeAddr
    (fun version fuel cur => messagesChecked (mvrpMessageChecked version) fuel 0 false cur) frame

inductive MvrpMessageFits (version : UInt8) : List UInt8 → Option (List UInt8) → Prop
  | wrongLength {cur} : byteAt cur 0 = 1 → byteAt cur 1 ≠ 2 → MvrpMessageFits version cur none
  | vids {cur next} : byteAt cur 0 = 1 → byteAt cur 1 = 2 → VectorsFit 2 (cur.drop 2) next →
      MvrpMessageFits version cur next
  | unknown {cur} : byteAt cur 0 ≠ 1 → version = 0 → MvrpMessageFits version cur none
  | skipped {cur} : byteAt cur 0 ≠ 1 → version ≠ 0 → 4 ≤ cur.length →
      MvrpMessageFits version cur (some (cur.drop (2 + (2 + (byteAt cur 1).toNat +
        (vectNumvalues (headerAt (cur.drop 2)) + 2) / 3))))

def MvrpFits (frame : Frame) : Prop :=
  FrameFits mvrpEtype mvrpCustomerBridgeAddr
    (fun version cur => MessagesFit (MvrpMessageFits version) 0 cur) frame

theorem mvrpVidParser_local : mvrpVidParser.Local := by
  intro cur digits
  have h0 : byteAt (cur.take 2) 0 = byteAt cur 0 := byteAt_take cur (by omega)
  have h1 : byteAt (cur.take 2) 1 = byteAt cur 1 := byteAt_take cur (by omega)
  dsimp only [mvrpVidParser]
  rw [h0, h1]

theorem mvrpMessages_eq (fuel : Nat) (version : UInt8) (endmarks : Nat) (saw : Bool)
    (cur : List UInt8) :
    mvrpMessages fuel version endmarks saw cur =
      messages (mvrpMessage version) fuel endmarks saw cur := by
  induction fuel generalizing endmarks saw cur with
  | zero => rfl
  | succ fuel ih =>
    grind [mvrpMessages, messages, byteAt, mvrpMessage, parseVectors, mvrpVidParser]

theorem mvrpMessageChecked_sound {version : UInt8} (fuel : Nat) (saw : Bool) (cur : List UInt8)
    (r : List (Received Vid) × Option (List UInt8 × Bool)) (_ : endmarkSz < cur.length)
    (h : mvrpMessageChecked version fuel saw cur = some r) :
    mvrpMessage version fuel saw cur = r ∧ MvrpMessageFits version cur (r.2.map Prod.fst) := by
  unfold mvrpMessageChecked at h
  obtain ⟨head, hhead, h⟩ := bind_eq_some_iff.mp h
  obtain ⟨_, rfl⟩ := readBytes_eq_some.mp hhead
  rw [byteAt_take cur (by omega), byteAt_take cur (by omega)] at h
  unfold mvrpMessage
  by_cases htype : byteAt cur 0 = 1
  · rw [if_pos htype] at h ⊢
    by_cases hlength : byteAt cur 1 ≠ 2
    · rw [if_pos hlength] at h ⊢
      cases h
      exact ⟨rfl, .wrongLength htype hlength⟩
    · rw [if_neg hlength] at h ⊢
      obtain ⟨hparse, hfit⟩ := parseVectorsChecked_sound mvrpVidParser mvrpVidParser_local h
      exact ⟨hparse, .vids htype (not_not.mp hlength) hfit⟩
  · rw [if_neg htype] at h ⊢
    by_cases hversion : version = 0
    · rw [if_pos hversion] at h ⊢
      cases h
      exact ⟨rfl, .unknown htype hversion⟩
    · rw [if_neg hversion] at h ⊢
      obtain ⟨header, hheader, h⟩ := bind_eq_some_iff.mp h
      obtain ⟨hroom, rfl⟩ := readBytes_eq_some.mp hheader
      rw [length_drop] at hroom
      dsimp only at h
      rw [headerAt_take] at h
      cases h
      exact ⟨rfl, .skipped htype hversion (by omega)⟩

theorem mvrpMessageChecked_complete {version : UInt8} (fuel : Nat) (saw : Bool)
    (cur : List UInt8) (next : Option (List UInt8)) (hlen : endmarkSz < cur.length)
    (hfuel : cur.length ≤ fuel) (h : MvrpMessageFits version cur next) :
    ∃ r, mvrpMessageChecked version fuel saw cur = some r ∧ r.2.map Prod.fst = next := by
  have hread : readBytes 2 cur = some (cur.take 2) := readBytes_of_le (Nat.le_of_lt hlen)
  have hless : (cur.drop 2).length < fuel := by
    rw [length_drop]
    omega
  unfold mvrpMessageChecked
  rw [hread]
  dsimp only [bind_eq_bind, bind_some]
  rw [byteAt_take cur (by omega), byteAt_take cur (by omega)]
  cases h with
  | wrongLength htype hlength =>
    simp_all
  | vids htype hlength hfit =>
    rw [if_pos htype, if_neg (not_not.mpr hlength)]
    exact parseVectorsChecked_complete mvrpVidParser saw hfit hless
  | unknown htype hversion =>
    simp_all
  | skipped htype hversion hroom =>
    have hheader : 2 ≤ (cur.drop 2).length := by
      rw [length_drop]
      omega
    rw [if_neg htype, if_neg hversion, readBytes_of_le hheader, bind_some, headerAt_take]
    exact ⟨_, rfl, rfl⟩

theorem MvrpMessageFits.length_lt {version : UInt8} (cur cur' : List UInt8)
    (hlen : endmarkSz < cur.length) (h : MvrpMessageFits version cur (some cur')) :
    cur'.length < cur.length := by
  have hpos : 2 < cur.length := hlen
  cases h with
  | vids _ _ hfit =>
    have := hfit.length_le cur' rfl
    rw [length_drop] at this
    omega
  | skipped =>
    rw [length_drop]
    omega

theorem mvrpParseChecked_iff (frame : Frame) :
    mvrpParseChecked frame = some (mvrpParse frame) ↔ MvrpFits frame := by
  have hwalk : ∀ version fuel cur, cur.length < fuel →
      (messagesChecked (mvrpMessageChecked version) fuel 0 false cur =
          some (mvrpMessages fuel version 0 false cur) ↔
        MessagesFit (MvrpMessageFits version) 0 cur) := by
    intro version fuel cur hfuel
    rw [mvrpMessages_eq]
    exact messagesChecked_iff mvrpMessageChecked_sound mvrpMessageChecked_complete
      MvrpMessageFits.length_lt false hfuel
  exact parseFrameChecked_iff hwalk frame

def mmrpParserAt (cur : List UInt8) : Option (VectorParser MmrpValue) :=
  if byteAt cur 0 = 1 ∧ byteAt cur 1 = 1 then some mmrpSvcParser
  else if byteAt cur 0 = 2 ∧ byteAt cur 1 = 6 then some mmrpMacParser
  else none

def mmrpMessage (fuel : Nat) (saw : Bool) (cur : List UInt8) :
    List (Received MmrpValue) × Option (List UInt8 × Bool) :=
  match mmrpParserAt cur with
  | none => ([], none)
  | some P => parseVectors P fuel saw (cur.drop 2)

def mmrpMessageChecked (fuel : Nat) (saw : Bool) (cur : List UInt8) :
    Option (List (Received MmrpValue) × Option (List UInt8 × Bool)) := do
  let head ← readBytes 2 cur
  match mmrpParserAt head with
  | none => some ([], none)
  | some P => parseVectorsChecked P fuel saw (cur.drop 2)

/-- `mmrp_recv_msg` with every read checked, up to the calls of `mmrp_event`. -/
def mmrpParseChecked (frame : Frame) : Option (List (Received MmrpValue)) :=
  parseFrameChecked mmrpEtype mmrpAddr
    (fun _ fuel cur => messagesChecked mmrpMessageChecked fuel 0 false cur) frame

inductive MmrpMessageFits : List UInt8 → Option (List UInt8) → Prop
  | unknown {cur} : mmrpParserAt cur = none → MmrpMessageFits cur none
  | vectors {cur next P} : mmrpParserAt cur = some P → VectorsFit P.firstLen (cur.drop 2) next →
      MmrpMessageFits cur next

def MmrpFits (frame : Frame) : Prop :=
  FrameFits mmrpEtype mmrpAddr (fun _ cur => MessagesFit MmrpMessageFits 0 cur) frame

theorem mmrpSvcParser_local : mmrpSvcParser.Local := by
  intro cur digits
  have h0 : byteAt (cur.take 1) 0 = byteAt cur 0 := byteAt_take cur (by omega)
  dsimp only [mmrpSvcParser]
  rw [h0]

theorem mmrpMacParser_local : mmrpMacParser.Local := by
  intro cur digits
  have hbytes : (fun i : Fin 6 => byteAt (cur.take 6) i) = fun i : Fin 6 => byteAt cur i := by
    funext i
    exact byteAt_take cur i.isLt
  dsimp only [mmrpMacParser]
  rw [hbytes]

theorem mmrpParserAt_take (cur : List UInt8) : mmrpParserAt (cur.take 2) = mmrpParserAt cur := by
  unfold mmrpParserAt
  rw [byteAt_take cur (by omega), byteAt_take cur (by omega)]

theorem mmrpParserAt_local {cur : List UInt8} {P : VectorParser MmrpValue}
    (h : mmrpParserAt cur = some P) : P.Local := by
  grind [mmrpParserAt, mmrpSvcParser_local, mmrpMacParser_local]

theorem mmrpMessages_eq (fuel endmarks : Nat) (saw : Bool) (cur : List UInt8) :
    mmrpMessages fuel endmarks saw cur = messages mmrpMessage fuel endmarks saw cur := by
  induction fuel generalizing endmarks saw cur with
  | zero => rfl
  | succ fuel ih =>
    grind [byteAt, mmrpSvcParser, mmrpMacParser, mmrpParserAt, mmrpMessages, messages, mmrpMessage]

theorem mmrpMessageChecked_sound (fuel : Nat) (saw : Bool) (cur : List UInt8)
    (r : List (Received MmrpValue) × Option (List UInt8 × Bool)) (_ : endmarkSz < cur.length)
    (h : mmrpMessageChecked fuel saw cur = some r) :
    mmrpMessage fuel saw cur = r ∧ MmrpMessageFits cur (r.2.map Prod.fst) := by
  unfold mmrpMessageChecked at h
  obtain ⟨head, hhead, h⟩ := bind_eq_some_iff.mp h
  obtain ⟨_, rfl⟩ := readBytes_eq_some.mp hhead
  rw [mmrpParserAt_take] at h
  unfold mmrpMessage
  cases hP : mmrpParserAt cur with
  | none =>
    rw [hP] at h
    cases h
    exact ⟨rfl, .unknown hP⟩
  | some P =>
    rw [hP] at h
    obtain ⟨hparse, hfit⟩ := parseVectorsChecked_sound P (mmrpParserAt_local hP) h
    exact ⟨hparse, .vectors hP hfit⟩

theorem mmrpMessageChecked_complete (fuel : Nat) (saw : Bool) (cur : List UInt8)
    (next : Option (List UInt8)) (hlen : endmarkSz < cur.length) (hfuel : cur.length ≤ fuel)
    (h : MmrpMessageFits cur next) :
    ∃ r, mmrpMessageChecked fuel saw cur = some r ∧ r.2.map Prod.fst = next := by
  have hread : readBytes 2 cur = some (cur.take 2) := readBytes_of_le (Nat.le_of_lt hlen)
  have hless : (cur.drop 2).length < fuel := by
    rw [length_drop]
    omega
  unfold mmrpMessageChecked
  rw [hread]
  dsimp only [bind_eq_bind, bind_some]
  rw [mmrpParserAt_take]
  cases h with
  | unknown hP =>
    rw [hP]
    exact ⟨_, rfl, rfl⟩
  | vectors hP hfit =>
    rw [hP]
    exact parseVectorsChecked_complete _ saw hfit hless

theorem MmrpMessageFits.length_lt (cur cur' : List UInt8) (hlen : endmarkSz < cur.length)
    (h : MmrpMessageFits cur (some cur')) : cur'.length < cur.length := by
  have hpos : 2 < cur.length := hlen
  cases h with
  | vectors _ hfit =>
    have := hfit.length_le cur' rfl
    rw [length_drop] at this
    omega

theorem mmrpParseChecked_iff (frame : Frame) :
    mmrpParseChecked frame = some (mmrpParse frame) ↔ MmrpFits frame := by
  have hwalk : ∀ (_ : UInt8) fuel cur, cur.length < fuel →
      (messagesChecked mmrpMessageChecked fuel 0 false cur =
          some (mmrpMessages fuel 0 false cur) ↔ MessagesFit MmrpMessageFits 0 cur) := by
    intro _ fuel cur hfuel
    rw [mmrpMessages_eq]
    exact messagesChecked_iff mmrpMessageChecked_sound mmrpMessageChecked_complete
      MmrpMessageFits.length_lt false hfuel
  exact parseFrameChecked_iff hwalk frame

theorem mvrp_mmrp_reads_iff (frame : Frame) :
    (mvrpParseChecked frame = some (mvrpParse frame) ↔ MvrpFits frame) ∧
      (mmrpParseChecked frame = some (mmrpParse frame) ↔ MmrpFits frame) :=
  ⟨mvrpParseChecked_iff frame, mmrpParseChecked_iff frame⟩

example : mvrpParseChecked (mvrpCustomerBridgeAddr ++ [2, 0, 0, 0, 0, 1] ++ be16 mvrpEtype ++
    [0, 1, 2, 0, 1, 0, 2, 36, 0, 0, 0, 0]) = some [⟨.RJOININ, some 2⟩] := by
  decide +kernel

def mvrpCutFrame : Frame :=
  mvrpCustomerBridgeAddr ++ [2, 0, 0, 0, 0, 1] ++ be16 mvrpEtype ++ [0, 1, 2, 0, 1, 0]

def mmrpCutFrame : Frame :=
  mmrpAddr ++ [2, 0, 0, 0, 0, 1] ++ be16 mmrpEtype ++ [0, 2, 6, 0, 1, 1]

theorem mvrp_mmrp_read_behind_frame :
    mvrpParseChecked mvrpCutFrame = none ∧
      mvrpParse mvrpCutFrame = [⟨.RNEW, some 0⟩] ∧
      mmrpParseChecked mmrpCutFrame = none ∧
      mmrpParse mmrpCutFrame =
        [⟨.RNEW, some (.macaddr ⟨#[1, 0, 0, 0, 0, 0], rfl⟩)⟩] := by
  decide +kernel

end Avb4Linux.Mrp
