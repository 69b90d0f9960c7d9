import Avb4Linux.Lib.KeyedList
import Avb4Linux.Lib.Runs

/-!
# The reservations of the shaper daemon

`process_command` in `shaper_daemon.c`.
-/

namespace Avb4Linux.Shaper

open Lib

abbrev CString := List UInt8

structure CmdIp where
  reserve_bw : Bool := false
  unreserve_bw : Bool := false
  interface : CString := []
  class_a : Bool := false
  class_b : Bool := false
  measurement_interval : Int := 0
  max_frame_size : Int := 0
  max_frame_interval : Int := 0
  stream_da : CString := []
  delete_qdisc : Bool := false
  quit : Bool := false

def CmdIp.unreserves (input : CmdIp) : Bool :=
  input.unreserve_bw && !input.reserve_bw && !input.quit && !input.delete_qdisc

inductive SrClass where
  | A | B
deriving DecidableEq, Repr

inductive ClassId where
  | a48 | a44 | b48 | b44
deriving DecidableEq, Repr

def ClassId.parent : ClassId → SrClass
  | .a48 | .a44 => .A
  | .b48 | .b44 => .B

def SrClass.classId : SrClass → Int → Option ClassId
  | .A, interval => if interval = 125 then some .a48 else if interval = 136 then some .a44 else none
  | .B, interval => if interval = 250 then some .b48 else if interval = 272 then some .b44 else none

inductive ClassCommand where
  | add | change
deriving DecidableEq, Repr

inductive Tc where
  | addRoot (interface : CString)
  | delRoot (interface : CString)
  | addQdisc (interface : CString) (k : SrClass)
  | setClass (command : ClassCommand) (interface : CString) (class_id : ClassId) (rate cburst : Int)
  | addFilter (interface : CString) (filter_handle : Int) (parent : SrClass) (class_id : ClassId)
      (dest_addr : CString)
  | delFilter (interface : CString) (parent : SrClass) (filter_handle : Int)
deriving DecidableEq, Repr

inductive Message where
  | error (text : String)
  | failed (command : Tc)
  | badInterval (k : SrClass) (measurement_interval : Int)
  | usage
deriving DecidableEq, Repr

structure StreamDa where
  dest_addr : CString
  bandwidth : Int
  class_id : ClassId
  filter_handle : Int
deriving DecidableEq, Repr

/-- The variables of the daemon, with the commands it has issued and the messages it has
sent. -/
structure Daemon where
  streams : List StreamDa := []
  started : SrClass → Bool := fun _ => false
  present : ClassId → Bool := fun _ => false
  bw : ClassId → Int := fun _ => 0
  filterhandle : SrClass → Int := fun | .A => 1 | .B => 20
  interface : CString := []
  issued : List Tc := []
  messages : List Message := []

namespace Daemon

def tell (m : Message) (d : Daemon) : Daemon :=
  { d with messages := d.messages ++ [m] }

def refuse (text : String) (d : Daemon) : Daemon :=
  (d.tell (.error text)).tell .usage

def system (tc : Tc → Bool) (c : Tc) (d : Daemon) : Daemon :=
  { d with
    issued := d.issued ++ [c]
    messages := if tc c then d.messages else d.messages ++ [.failed c] }

def insertStreamDa (s : StreamDa) (d : Daemon) : Daemon :=
  { d with streams := d.streams ++ [s] }

/-- `get_stream_da` and `check_stream_da`. -/
def getStreamDa (dest_addr : CString) (d : Daemon) : Option StreamDa :=
  KeyedList.get StreamDa.dest_addr d.streams dest_addr

def removeStreamDa (dest_addr : CString) (d : Daemon) : Daemon :=
  { d with streams := KeyedList.update StreamDa.dest_addr dest_addr (fun _ => none) d.streams }

def addBw (c : ClassId) (amount : Int) (d : Daemon) : Daemon :=
  { d with bw := Function.update d.bw c (d.bw c + amount) }

def deleteQdisc (tc : Tc → Bool) (d : Daemon) : Daemon :=
  if d.started .A || d.started .B then
    let d := { d with streams := [] }
    let d := if d.interface ≠ [] then d.system tc (.delRoot d.interface) else d
    { d with started := fun _ => false, present := fun _ => false, bw := fun _ => 0 }
  else d

def addStream (tc : Tc → Bool) (dest_addr : CString) (bandwidth maxburst : Int) (c : ClassId)
    (d : Daemon) : Daemon :=
  let d := d.addBw c bandwidth
  let command := if d.present c then ClassCommand.change else .add
  let d := { d with present := Function.update d.present c true }
  let d := d.system tc (.setClass command d.interface c (d.bw c) maxburst)
  let handle := d.filterhandle c.parent
  let d := d.system tc (.addFilter d.interface handle c.parent c dest_addr)
  let d := d.insertStreamDa ⟨dest_addr, bandwidth, c, handle⟩
  { d with filterhandle := Function.update d.filterhandle c.parent (handle + 1) }

def startClass (tc : Tc → Bool) (k : SrClass) (d : Daemon) : Daemon × Bool :=
  if d.started k then (d, true)
  else
    let qdisc := Tc.addQdisc d.interface k
    ({ d with started := Function.update d.started k true }.system tc qdisc, tc qdisc)

def reserve (tc : Tc → Bool) (input : CmdIp) (bandwidth maxburst : Int) (k : SrClass)
    (d : Daemon) : Daemon × Int :=
  let (d, created) := d.startClass tc k
  if !created then (d, -1)
  else
    match k.classId input.measurement_interval with
    | none => (d.tell (.badInterval k input.measurement_interval), -1)
    | some c => (d.addStream tc input.stream_da bandwidth maxburst c, 1)

def filterOf (s : StreamDa) (d : Daemon) : Tc :=
  .delFilter d.interface s.class_id.parent s.filter_handle

def releaseBw (tc : Tc → Bool) (s : StreamDa) (maxburst : Int) (d : Daemon) : Daemon :=
  let d := d.addBw s.class_id (-s.bandwidth)
  let class_bw := if d.bw s.class_id = 0 then 1 else d.bw s.class_id
  let d := d.system tc (.setClass .change d.interface s.class_id class_bw maxburst)
  d.system tc (d.filterOf s)

def unreserve (tc : Tc → Bool) (input : CmdIp) (maxburst : Int) (d : Daemon) : Daemon × Int :=
  match d.getStreamDa input.stream_da with
  | none => (d.tell (.error "Unknown Stream DA"), 1)
  | some s =>
    let filter := d.filterOf s
    let d := d.releaseBw tc s maxburst
    if !tc filter then (d, -1) else (d.removeStreamDa s.dest_addr, 1)

section

-- The bandwidth for a measurement interval, a frame size and a frame interval, which the
-- source rounds up from a quotient of floating-point numbers.
variable (rate : Int → Int → Int → Int)

def change (tc : Tc → Bool) (input : CmdIp) (d : Daemon) : Daemon × Int :=
  let bandwidth := rate input.measurement_interval input.max_frame_size input.max_frame_interval
  let maxburst := input.max_frame_size * input.max_frame_interval * 2
  if input.reserve_bw then
    if (d.getStreamDa input.stream_da).isSome then
      (d.tell (.error "Stream DA already present"), 1)
    else d.reserve tc input bandwidth maxburst (if input.class_a then .A else .B)
  else if input.unreserve_bw then d.unreserve tc input maxburst
  else (d, 1)

/-- The rest of `process_command`: the root qdisc is created while no class is started. -/
def configure (tc : Tc → Bool) (input : CmdIp) (d : Daemon) : Daemon × Int :=
  if d.started .A || d.started .B then d.change rate tc input
  else if input.interface = [] then
    let d :=
      if input.unreserve_bw || input.reserve_bw then
        d.tell (.error "Interface is mandatory for the first command")
      else d
    (d.tell .usage, -1)
  else
    let d := d.system tc (.addRoot input.interface)
    if !tc (.addRoot input.interface) then (d, -1)
    else { d with interface := input.interface }.change rate tc input

/-- `process_command`. The test for a missing address of a stream compares the address of an
array with zero, and is never true. -/
def processCommand (tc : Tc → Bool) (input : CmdIp) (d : Daemon) : Daemon × Int :=
  if input.reserve_bw && input.unreserve_bw then
    (d.refuse "Cannot reserve and unreserve bandwidth at the same time", -1)
  else if input.reserve_bw &&
      (input.max_frame_size = 0 || input.measurement_interval = 0 ||
        input.max_frame_interval = 0 || (!input.class_a && !input.class_b)) then
    (d.refuse ("class, max_frame_size, measurement_interval and max_frame_interval are " ++
      "mandatory inputs"), -1)
  else if input.reserve_bw && input.class_a && input.class_b then
    (d.refuse "Cannot reserve for both class A and class B", -1)
  else if (input.quit || input.delete_qdisc) && (input.reserve_bw || input.unreserve_bw) then
    (d.refuse "Quit or Delete cannot be used with other commands", -1)
  else if input.quit then (d.deleteQdisc tc, 0)
  else if input.delete_qdisc then (d.deleteQdisc tc).configure rate tc input
  else d.configure rate tc input

end

end Daemon

structure Command where
  input : CmdIp
  tc : Tc → Bool

def Daemon.step (rate : Int → Int → Int → Int) (d : Daemon) (c : Command) : Daemon :=
  (d.processCommand rate c.tc c.input).1

namespace Daemon

inductive Change (d t : Daemon) : Prop where
  | kept (streams : t.streams = d.streams) (bw : t.bw = d.bw)
      (started : ∀ k, d.started k = true → t.started k = true)
  | cleared (streams : t.streams = []) (bw : t.bw = fun _ => 0)
  | added (s : StreamDa) (new : d.getStreamDa s.dest_addr = none)
      (streams : t.streams = d.streams ++ [s])
      (bw : t.bw = Function.update d.bw s.class_id (d.bw s.class_id + s.bandwidth))
      (started : t.started s.class_id.parent = true)

theorem Change.refl (d : Daemon) : d.Change d := .kept rfl rfl fun _ h => h

variable {d t : Daemon} {s : StreamDa}

theorem Change.trans {u : Daemon} (h : d.Change u) (hstreams : t.streams = u.streams)
    (hbw : t.bw = u.bw) (hstarted : ∀ k, u.started k = true → t.started k = true) : d.Change t := by
  cases h with
  | kept streams bw started =>
    exact .kept (hstreams.trans streams) (hbw.trans bw) fun k hk => hstarted k (started k hk)
  | cleared streams bw => exact .cleared (hstreams.trans streams) (hbw.trans bw)
  | added s new streams bw started =>
    exact .added s new (hstreams.trans streams) (hbw.trans bw) (hstarted _ started)

section Commands

variable (d : Daemon) (tc : Tc → Bool) (input : CmdIp)

theorem deleteQdisc_change : d.Change (d.deleteQdisc tc) := by
  unfold deleteQdisc
  split
  · refine .cleared ?_ rfl
    dsimp only
    split <;> rfl
  · exact .refl d

theorem startClass_eq (k : SrClass) :
    (d.startClass tc k).1.streams = d.streams ∧ (d.startClass tc k).1.bw = d.bw ∧
      (d.startClass tc k).1.started = Function.update d.started k true := by
  unfold startClass
  split
  next h => exact ⟨rfl, rfl, (Function.update_eq_self_iff.mpr h.symm).symm⟩
  next => exact ⟨rfl, rfl, rfl⟩

theorem classId_parent {k : SrClass} {interval : Int} {c : ClassId}
    (h : k.classId interval = some c) : c.parent = k := by
  cases k <;> simp only [SrClass.classId] at h <;> split at h
  all_goals first
    | (cases h; rfl)
    | (split at h <;> cases h; rfl)

theorem reserve_change (bandwidth maxburst : Int) (k : SrClass)
    (hnew : d.getStreamDa input.stream_da = none) :
    d.Change (d.reserve tc input bandwidth maxburst k).1 := by
  obtain ⟨hstreams, hbw, hstarted⟩ := d.startClass_eq tc k
  have hkept : ∀ j, d.started j = true → (d.startClass tc k).1.started j = true := by
    intro j hj
    rw [hstarted, Function.update_apply]
    split
    · rfl
    · exact hj
  unfold reserve
  dsimp only
  split
  · exact .kept hstreams hbw hkept
  · split
    · exact .kept hstreams hbw hkept
    next c hc =>
      refine .added ⟨input.stream_da, bandwidth, c,
        (d.startClass tc k).1.filterhandle c.parent⟩ hnew ?_ ?_ ?_
      · exact congrArg (· ++ [_]) hstreams
      · exact congrArg (fun b => Function.update b c (b c + bandwidth)) hbw
      · change (d.startClass tc k).1.started c.parent = true
        rw [hstarted, classId_parent hc, Function.update_self]

variable (rate : Int → Int → Int → Int)

theorem change_change (hnot : input.reserve_bw = false → input.unreserve_bw = true →
    d.getStreamDa input.stream_da = none) : d.Change (d.change rate tc input).1 := by
  unfold change
  dsimp only
  split
  · split
    · exact .kept rfl rfl fun _ h => h
    next hnone => exact d.reserve_change tc input _ _ _ (Option.not_isSome_iff_eq_none.mp hnone)
  next hreserve =>
    split
    next hunreserve =>
      unfold unreserve
      rw [hnot (Bool.eq_false_iff.mpr hreserve) hunreserve]
      exact .kept rfl rfl fun _ h => h
    next => exact .refl d

theorem configure_change (hnot : input.reserve_bw = false → input.unreserve_bw = true →
    d.getStreamDa input.stream_da = none) : d.Change (d.configure rate tc input).1 := by
  unfold configure
  split
  · exact d.change_change tc input rate hnot
  · split
    · dsimp only
      split <;> exact .kept rfl rfl fun _ h => h
    · dsimp only
      split
      · exact .kept rfl rfl fun _ h => h
      · -- the root qdisc and the interface make no difference here
        have hchange := change_change { d.system tc (.addRoot input.interface) with
          interface := input.interface } tc input rate hnot
        cases hchange with
        | kept streams bw started => exact .kept streams bw started
        | cleared streams bw => exact .cleared streams bw
        | added s new streams bw started => exact .added s new streams bw started

theorem configure_eq (hreserve : input.reserve_bw = false) (hunreserve : input.unreserve_bw = false) :
    (d.configure rate tc input).1.streams = d.streams ∧
      (d.configure rate tc input).1.bw = d.bw ∧
      (d.configure rate tc input).1.started = d.started := by
  unfold configure change
  simp only [hreserve, hunreserve, Bool.or_self, Bool.false_eq_true, if_false]
  split
  · exact ⟨rfl, rfl, rfl⟩
  · split
    · exact ⟨rfl, rfl, rfl⟩
    · split <;> exact ⟨rfl, rfl, rfl⟩

theorem processCommand_change (hnot : input.unreserves = true →
    d.getStreamDa input.stream_da = none) : d.Change (d.processCommand rate tc input).1 := by
  have hrefuse : ∀ text, d.Change (d.refuse text) := fun _ => .kept rfl rfl fun _ h => h
  unfold processCommand
  split
  · exact hrefuse _
  · split
    · exact hrefuse _
    · split
      · exact hrefuse _
      · split
        · exact hrefuse _
        next halone =>
          split
          · exact d.deleteQdisc_change tc
          next hquit =>
            split
            next hdelete =>
              simp only [hdelete, Bool.or_true, Bool.true_and, Bool.or_eq_true, not_or,
                Bool.not_eq_true] at halone
              obtain ⟨hstreams, hbw, hstarted⟩ :=
                (d.deleteQdisc tc).configure_eq tc input rate halone.1 halone.2
              refine (d.deleteQdisc_change tc).trans hstreams hbw fun k hk => ?_
              rw [hstarted]
              exact hk
            next hdelete =>
              refine d.configure_change tc input rate fun hreserve hunreserve => hnot ?_
              simp [CmdIp.unreserves, hreserve, hunreserve, hquit, hdelete]

theorem processCommand_unreserve (h : input.unreserves = true)
    (hstarted : (d.started .A || d.started .B) = true) :
    d.processCommand rate tc input =
      d.unreserve tc input (input.max_frame_size * input.max_frame_interval * 2) := by
  simp only [CmdIp.unreserves, Bool.and_eq_true, Bool.not_eq_true'] at h
  obtain ⟨⟨⟨hunreserve, hreserve⟩, hquit⟩, hdelete⟩ := h
  simp [processCommand, configure, change, hunreserve, hreserve, hquit, hdelete, hstarted]

end Commands

def reserved (c : ClassId) (l : List StreamDa) : Int :=
  ((l.filter fun s => s.class_id = c).map StreamDa.bandwidth).foldr (· + ·) 0

def share (c : ClassId) (s : StreamDa) : Int :=
  if s.class_id = c then s.bandwidth else 0

theorem reserved_cons (c : ClassId) (s : StreamDa) (l : List StreamDa) :
    reserved c (s :: l) = share c s + reserved c l := by
  unfold reserved share
  by_cases h : s.class_id = c <;> simp [h]

theorem reserved_append (c : ClassId) (l : List StreamDa) (s : StreamDa) :
    reserved c (l ++ [s]) = reserved c l + share c s := by
  induction l with
  | nil => exact (reserved_cons c s []).trans (Int.add_comm _ _)
  | cons a l ih =>
    rw [List.cons_append, reserved_cons, reserved_cons, ih]
    omega

theorem reserved_remove {l : List StreamDa} {a : CString}
    (h : KeyedList.get StreamDa.dest_addr l a = some s) (c : ClassId) :
    reserved c (KeyedList.update StreamDa.dest_addr a (fun _ => none) l) + share c s =
      reserved c l := by
  induction l with
  | nil => cases h
  | cons b l ih =>
    grind [KeyedList.get_cons, KeyedList.update, reserved_cons]

theorem update_bw (bw : ClassId → Int) (s : StreamDa) (amount : Int) (c : ClassId) :
    Function.update bw s.class_id (bw s.class_id + amount) c =
      bw c + if s.class_id = c then amount else 0 := by
  grind

structure Accounts (d : Daemon) : Prop where
  totals : ∀ c, d.bw c = reserved c d.streams
  unique : KeyedList.Unique StreamDa.dest_addr d.streams

structure Inv (d : Daemon) : Prop extends d.Accounts where
  idle : d.started .A = false → d.started .B = false → d.streams = []

/-- The filter of a stream that is given up can be deleted, or there is no bandwidth to
release. -/
def Releases (d : Daemon) (c : Command) : Prop :=
  c.input.unreserves = true → ∀ s, d.getStreamDa c.input.stream_da = some s →
    s.bandwidth = 0 ∨ c.tc (d.filterOf s) = true

theorem Inv.change (h : d.Inv) (hchange : d.Change t) : t.Inv := by
  cases hchange with
  | kept streams bw started =>
    refine ⟨⟨?_, ?_⟩, fun hA hB => ?_⟩
    · rw [streams, bw]
      exact h.totals
    · rw [streams]
      exact h.unique
    · rw [streams]
      refine h.idle ?_ ?_ <;> rw [Bool.eq_false_iff] at *
      · exact mt (started .A) hA
      · exact mt (started .B) hB
  | cleared streams bw =>
    refine ⟨⟨fun c => ?_, ?_⟩, fun _ _ => streams⟩
    · rw [streams, bw]
      rfl
    · rw [streams]
      exact List.nodup_nil
  | added s new streams bw started =>
    refine ⟨⟨fun c => ?_, ?_⟩, fun hA hB => ?_⟩
    · rw [streams, bw, update_bw, reserved_append, h.totals c]
      rfl
    · rw [streams]
      refine KeyedList.unique_insert ?_ ?_ <;> rw [List.append_nil]
      · exact h.unique
      · exact new
    · cases hparent : s.class_id.parent <;> rw [hparent] at started
      all_goals grind

theorem Inv.releaseBw (h : d.Inv) (tc : Tc → Bool) (s : StreamDa) (maxburst : Int) (c : ClassId) :
    (d.releaseBw tc s maxburst).bw c = reserved c d.streams + -share c s := by
  change Function.update d.bw s.class_id (d.bw s.class_id + -s.bandwidth) c = _
  rw [update_bw, h.totals c]
  unfold share
  split <;> simp

theorem Inv.started_of_found (h : d.Inv) {a : CString} (hs : d.getStreamDa a = some s) :
    (d.started .A || d.started .B) = true := by
  rw [Bool.or_eq_true]
  by_contra hnot
  rw [not_or, Bool.not_eq_true, Bool.not_eq_true] at hnot
  have hmem := KeyedList.mem_of_get hs
  rw [h.idle hnot.1 hnot.2] at hmem
  cases hmem

variable (rate : Int → Int → Int → Int)

theorem step_unreserve (h : d.Inv) {c : Command} (hc : c.input.unreserves = true)
    (hs : d.getStreamDa c.input.stream_da = some s) :
    ∃ maxburst, d.step rate c =
      if c.tc (d.filterOf s) then (d.releaseBw c.tc s maxburst).removeStreamDa s.dest_addr
      else d.releaseBw c.tc s maxburst := by
  refine ⟨c.input.max_frame_size * c.input.max_frame_interval * 2, ?_⟩
  grind [step, processCommand_unreserve, Inv.started_of_found, unreserve, filterOf]

theorem Inv.step (h : d.Inv) (c : Command) (hc : d.Releases c) : (d.step rate c).Inv := by
  by_cases hfound : c.input.unreserves = true ∧ (d.getStreamDa c.input.stream_da).isSome
  · obtain ⟨hunreserves, hsome⟩ := hfound
    obtain ⟨s, hs⟩ := Option.isSome_iff_exists.mp hsome
    have hself : KeyedList.get StreamDa.dest_addr d.streams s.dest_addr = some s := by
      rw [KeyedList.key_of_get hs]
      exact hs
    obtain ⟨maxburst, hstep⟩ := step_unreserve rate h hunreserves hs
    rw [hstep]
    split
    · refine ⟨⟨fun k => ?_, KeyedList.unique_update h.unique _ ?_⟩, fun hA hB => ?_⟩
      · have hremove := reserved_remove hself k
        have hrelease := h.releaseBw c.tc s maxburst k
        change (d.releaseBw c.tc s maxburst).bw k = reserved k
          (KeyedList.update StreamDa.dest_addr s.dest_addr (fun _ => none) d.streams)
        omega
      · intro a a' _ ha
        cases ha
      · have hempty := h.idle hA hB
        change KeyedList.update StreamDa.dest_addr s.dest_addr (fun _ => none) d.streams = []
        rw [hempty]
        rfl
    next hfails =>
      -- the stream stays, but it has no bandwidth
      have hzero : s.bandwidth = 0 := (hc hunreserves s hs).resolve_right hfails
      refine ⟨⟨fun k => ?_, h.unique⟩, h.idle⟩
      rw [h.releaseBw, share, hzero, ite_self]
      exact Int.add_zero _
  · refine h.change (d.processCommand_change c.tc c.input rate fun hunreserves => ?_)
    simp_all

theorem Inv.releases (h : d.Inv) (c : Command) (hgood : (d.step rate c).Accounts) :
    d.Releases c := by
  intro hunreserves s hs
  rw [or_iff_not_imp_right]
  intro hfails
  obtain ⟨maxburst, hstep⟩ := step_unreserve rate h hunreserves hs
  rw [hstep, if_neg hfails] at hgood
  have htotal := hgood.totals s.class_id
  rw [h.releaseBw, share, if_pos rfl] at htotal
  change _ = reserved s.class_id d.streams at htotal
  omega

/-- Whatever the external commands do, the accounts are right after each command exactly if no
filter of a stream that is given up has to stay. -/
theorem accounts_right_iff (cs : List Command) :
    (∀ before, before <+: cs → (Runs.run (Daemon.step rate) {} before).Accounts) ↔
      Runs.Along (Daemon.step rate) Releases {} cs :=
  Runs.prefixes_good_iff Inv Accounts (fun _ h => h.toAccounts)
    (fun _ c hc h => h.step rate c hc) (fun _ c h hgood => h.releases rate c hgood) {} cs
    ⟨⟨fun _ => rfl, List.nodup_nil⟩, fun _ _ => rfl⟩

end Daemon

def stuckFilter : List Command :=
  [⟨{ reserve_bw := true, interface := [101], class_a := true, measurement_interval := 125,
      max_frame_size := 74, max_frame_interval := 1, stream_da := [17] }, fun _ => true⟩,
    ⟨{ unreserve_bw := true, stream_da := [17] }, fun
      | .delFilter _ _ _ => false
      | _ => true⟩]

theorem stuckFilter_loses_bandwidth :
    ¬ (Runs.run (Daemon.step fun interval size frames => size * frames * 1000000 / interval) {}
      stuckFilter).Accounts := by
  intro h
  exact absurd (h.totals .a48) (by decide)

end Avb4Linux.Shaper
