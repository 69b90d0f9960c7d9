import Avb4Linux.ClientSlots
import Avb4Linux.Maap.Command
import Avb4Linux.Maap.Timers

/-!
# The MAAP daemon

The event loop of `act_as_server` in `maap_daemon.c`.
-/

namespace Avb4Linux.Maap

open Lib Lib.Fallible

structure Conn where
  fd : Nat
  number : Nat
  deriving DecidableEq, Repr

inductive Sender where
  | console
  | client (conn : Conn)
  deriving Repr

def Sender.fd : Sender → Option Nat
  | .console => none
  | .client conn => some conn.fd

instance Sender.instBEq : BEq Sender where
  beq a b := a.fd == b.fd

structure Delivery where
  recipient : Conn
  sender : Sender
  note : Notify
  text : Bool

/-- The variables of `act_as_server`, the descriptors that are not those of clients, and a
history. -/
structure Daemon where
  mc : Client Sender
  slots : Slots maxClientConnections Conn
  wantsText : Fin maxClientConnections → Bool
  recvbuffer : List UInt8
  daemonize : Bool
  exitReceived : Bool
  own : List Nat
  accepted : Nat
  delivered : List Delivery
  timerRuns : Nat

inductive Ending where
  | aborted (a : Abort)
  | selectFailed
  | networkFailed
  | exited
  deriving DecidableEq, Repr

/-- What is read from a client or from the console: an end or an error, or a message;
`oom` says that `malloc` fails while it is handled. -/
inductive Reading where
  | ended
  | data (m : Message) (oom : Bool)

/-- What is there when `select` finds some descriptor ready: the packets up to the first wait,
whether reading them ends with another error, the success of `accept`, and what the console and
the slots give. -/
structure Readable where
  packets : List (Message × Bool)
  packetError : Bool
  connection : Option Bool
  console : Option Reading
  clients : Fin maxClientConnections → Option Reading

inductive Select where
  | failed
  | timeout
  | ready (r : Readable)

structure Turn where
  sendError : Option Nat
  select : Select

def Daemon.sendQueued (sendError : Option Nat) (d : Daemon) : Daemon :=
  { d with mc := { d.mc with net := sendError.elim [] fun k => d.mc.net.drop (k + 1) } }

def Daemon.slotOf (d : Daemon) (fd : Nat) : Option (Fin maxClientConnections × Conn) :=
  (List.finRange maxClientConnections).findSome? fun i =>
    (d.slots.clientfd i).bind fun conn => if conn.fd = fd then some (i, conn) else none

def Daemon.deliveries (d : Daemon) (x : Sender × Notify) : List Delivery :=
  ((x.1.fd.bind d.slotOf).map fun y => ⟨y.2, x.1, x.2, d.wantsText y.1⟩).toList

def Daemon.deliver (d : Daemon) : Daemon :=
  { d with
    delivered := d.delivered ++ d.mc.notifies.flatMap d.deliveries
    mc := { d.mc with notifies := [] } }

def Daemon.perform (op : Op Sender) (d : Daemon) : Except Ending Daemon :=
  match d.mc.perform op with
  | .error a => .error (.aborted a)
  | .ok mc => .ok { d with mc := mc }

def Daemon.handlePackets : List (Message × Bool) → Daemon → Except Ending Daemon
  | [], d => .ok d
  | (m, oom) :: ms, d => do
    let d ← { d with recvbuffer := overwrite m.bytes d.recvbuffer }.perform (.packet m.bytes oom)
    handlePackets ms d

def Action.op (sender : Sender) (oom : Bool) : Action → Option (Op Sender)
  | .init start count => some (.init sender start count)
  | .reserve start count => some (.reserve sender start count oom)
  | .release id => some (.release sender id)
  | .status id => some (.status sender id)
  | .yield id => some (.yield sender id oom)
  | .exit => none
  | .invalid => none

def Daemon.command (sender : Sender) (m : Message) (oom : Bool) (d : Daemon) :
    Except Ending Daemon :=
  let parsed := m.handle d.recvbuffer
  let d := { d with recvbuffer := parsed.mem }
  match parsed.action.op sender oom with
  | some op => d.perform op
  | none => .ok { d with exitReceived := d.exitReceived || parsed.action = .exit }

def lowestFree (used : List Nat) : Nat :=
  ((List.range (used.length + 1)).find? fun n => n ∉ used).getD 0

def Daemon.used (d : Daemon) : List Nat :=
  d.own ++ (List.finRange maxClientConnections).filterMap fun i =>
    (d.slots.clientfd i).map Conn.fd

def Daemon.newConn (d : Daemon) : Conn :=
  ⟨lowestFree d.used, d.accepted⟩

def Daemon.accept (d : Daemon) (ok : Bool) : Daemon :=
  { d with
    slots := (acceptClient (if ok then some d.newConn else none) d.slots).1
    accepted := d.accepted + 1 }

def Daemon.readConsole (console : Option Reading) (d : Daemon) : Except Ending Daemon :=
  match console with
  | some (.data m oom) => if d.daemonize then .ok d else d.command .console m oom
  | _ => .ok d

/-- Read from the client in a slot. A connection that has been accepted in this turn is not
in `read_fds`. -/
def Daemon.serve (before : Slots maxClientConnections Conn)
    (clients : Fin maxClientConnections → Option Reading) (i : Fin maxClientConnections)
    (d : Daemon) : Except Ending Daemon :=
  match if (before.clientfd i).isSome then d.slots.clientfd i else none with
  | none => .ok d
  | some conn =>
    match clients i with
    | none => .ok d
    | some .ended => .ok { d with slots := d.slots.close i }
    | some (.data m oom) =>
      { d with
        wantsText := Function.update d.wantsText i (m.handle d.recvbuffer).isText }.command
        (.client conn) m oom

def Daemon.serveAll (before : Slots maxClientConnections Conn)
    (clients : Fin maxClientConnections → Option Reading) :
    List (Fin maxClientConnections) → Daemon → Except Ending Daemon
  | [], d => .ok d
  | i :: is, d => do
    let d ← d.serve before clients i
    serveAll before clients is d

def Daemon.readClients (r : Readable) (d : Daemon) : Except Ending Daemon := do
  let d' ← (r.connection.elim d d.accept).readConsole r.console
  d'.serveAll d.slots r.clients (List.finRange maxClientConnections)

def Daemon.readAll (r : Readable) (d : Daemon) : Except Ending Daemon := do
  let d ← d.handlePackets r.packets
  if r.packetError then .error .networkFailed else d.readClients r

def Daemon.flush (sendError : Option Nat) (d : Daemon) : Daemon :=
  (d.sendQueued sendError).deliver

def Daemon.runTimer (d : Daemon) : Daemon :=
  { d with mc := d.mc.handleTimer, timerRuns := d.timerRuns + 1 }

def Daemon.turn (d : Daemon) (t : Turn) : Except Ending Daemon :=
  if d.exitReceived then .error .exited
  else
    match t.select with
    | .failed => .error .selectFailed
    | .timeout => .ok (d.flush t.sendError).runTimer
    | .ready r => (d.flush t.sendError).readAll r

structure Daemon.Initial (d : Daemon) : Prop where
  mc : d.mc.Initial
  slots : d.slots = .empty maxClientConnections_pos
  exitReceived : d.exitReceived = false
  delivered : d.delivered = []

structure Daemon.Reads (P : Daemon → Prop) : Prop where
  buffer : ∀ d mem, P d → P { d with recvbuffer := mem }
  exit : ∀ d b, P d → P { d with exitReceived := b }
  text : ∀ d f, P d → P { d with wantsText := f }
  packet : ∀ d stream oom mc, P d → d.mc.perform (.packet stream oom) = .ok mc →
    P { d with mc := mc }
  command : ∀ d sender oom a op mc, P d → Action.op sender oom a = some op →
    (sender = .console ∨ ∃ i conn, d.slots.clientfd i = some conn ∧ sender = .client conn) →
    d.mc.perform op = .ok mc → P { d with mc := mc }
  close : ∀ d i, P d → P { d with slots := d.slots.close i }

section Reads

variable {P : Daemon → Prop} {d d' : Daemon}

theorem Daemon.perform_ok {op : Op Sender} (h : d.perform op = .ok d') :
    ∃ mc, d.mc.perform op = .ok mc ∧ d' = { d with mc := mc } := by
  unfold perform at h
  grind

theorem Daemon.handlePackets_keeps (hbuffer : ∀ d mem, P d → P { d with recvbuffer := mem })
    (hpacket : ∀ d stream oom mc, P d → d.mc.perform (.packet stream oom) = .ok mc →
      P { d with mc := mc }) {ms : List (Message × Bool)} (hd : P d)
    (hok : d.handlePackets ms = .ok d') : P d' := by
  induction ms generalizing d with
  | nil =>
    cases hok
    exact hd
  | cons x ms ih =>
    obtain ⟨d₁, hfirst, hrest⟩ := bind_eq_ok.mp hok
    grind [perform_ok]

theorem Daemon.Reads.handlePackets (h : Daemon.Reads P) {ms : List (Message × Bool)} (hd : P d)
    (hok : d.handlePackets ms = .ok d') : P d' :=
  Daemon.handlePackets_keeps h.buffer h.packet hd hok

theorem Daemon.Reads.command_ok (h : Daemon.Reads P) {sender : Sender} {m : Message} {oom : Bool}
    (hd : P d)
    (hsender : sender = .console ∨ ∃ i conn, d.slots.clientfd i = some conn ∧ sender = .client conn)
    (hok : d.command sender m oom = .ok d') : P d' := by
  unfold Daemon.command at hok
  dsimp only at hok
  cases hop : (m.handle d.recvbuffer).action.op sender oom with
  | none =>
    rw [hop] at hok
    cases hok
    exact h.exit _ _ (h.buffer d (m.handle d.recvbuffer).mem hd)
  | some op =>
    rw [hop] at hok
    obtain ⟨mc, hmc, rfl⟩ := perform_ok hok
    exact h.command _ _ _ _ _ _ (h.buffer d _ hd) hop hsender hmc

theorem Daemon.Reads.readConsole (h : Daemon.Reads P) {console : Option Reading} (hd : P d)
    (hok : d.readConsole console = .ok d') : P d' := by
  unfold Daemon.readConsole at hok
  grind [command_ok]

theorem Daemon.Reads.serve (h : Daemon.Reads P) {before : Slots maxClientConnections Conn}
    {clients : Fin maxClientConnections → Option Reading} {i : Fin maxClientConnections} (hd : P d)
    (hok : d.serve before clients i = .ok d') : P d' := by
  unfold Daemon.serve at hok
  cases hconn : if (before.clientfd i).isSome then d.slots.clientfd i else none with
  | none =>
    rw [hconn] at hok
    cases hok
    exact hd
  | some conn =>
    rw [hconn] at hok
    have hslot : d.slots.clientfd i = some conn := by
      split at hconn
      · exact hconn
      · cases hconn
    dsimp only at hok
    cases hread : clients i with
    | none =>
      rw [hread] at hok
      cases hok
      exact hd
    | some reading =>
      rw [hread] at hok
      cases reading with
      | ended =>
        cases hok
        exact h.close d i hd
      | data m oom =>
        have htext := h.text d (Function.update d.wantsText i (m.handle d.recvbuffer).isText) hd
        exact h.command_ok htext (.inr ⟨i, conn, hslot, rfl⟩) hok

theorem Daemon.Reads.serveAll (h : Daemon.Reads P) {before : Slots maxClientConnections Conn}
    {clients : Fin maxClientConnections → Option Reading} {is : List (Fin maxClientConnections)}
    (hd : P d) (hok : d.serveAll before clients is = .ok d') : P d' := by
  induction is generalizing d with
  | nil =>
    cases hok
    exact hd
  | cons i is ih =>
    obtain ⟨d₁, hserve, hrest⟩ := bind_eq_ok.mp hok
    exact ih (h.serve hd hserve) hrest

theorem Daemon.Reads.readAll (h : Daemon.Reads P) {r : Readable} (hd : P d)
    (haccept : ∀ d₁ ok, d.handlePackets r.packets = .ok d₁ → P d₁ → r.connection = some ok →
      P (d₁.accept ok))
    (hok : d.readAll r = .ok d') : P d' := by
  obtain ⟨d₁, hpackets, hrest⟩ := bind_eq_ok.mp hok
  have hd₁ := h.handlePackets hd hpackets
  split at hrest
  · cases hrest
  · obtain ⟨d₂, hconsole, hserve⟩ := bind_eq_ok.mp hrest
    refine h.serveAll (h.readConsole ?_ hconsole) hserve
    cases hconnection : r.connection with
    | none => exact hd₁
    | some ok => exact haccept d₁ ok hpackets hd₁ hconnection

end Reads

section Timers

variable {d d' : Daemon}

theorem Daemon.turn_cases {t : Turn} (h : d.turn t = .ok d') :
    t.select = .timeout ∧ d' = (d.flush t.sendError).runTimer ∨
      ∃ r, t.select = .ready r ∧ (d.flush t.sendError).readAll r = .ok d' := by
  unfold turn at h
  grind

theorem Daemon.turn_timerRuns {t : Turn} (h : d.turn t = .ok d') :
    t.select = .timeout ∧ d' = (d.flush t.sendError).runTimer ∨
      t.select ≠ .timeout ∧ d'.timerRuns = d.timerRuns := by
  refine (turn_cases h).imp_right ?_
  rintro ⟨r, hready, hread⟩
  refine ⟨by simp [hready], ?_⟩
  have hkeeps : Daemon.Reads fun e => e.timerRuns = d.timerRuns :=
    ⟨fun _ _ h => h, fun _ _ h => h, fun _ _ h => h, fun _ _ _ _ h _ => h,
      fun _ _ _ _ _ _ h _ _ _ => h, fun _ _ h => h⟩
  exact hkeeps.readAll (d := d.flush t.sendError) rfl (fun _ _ _ h _ => h) hread

theorem Daemon.flush_sound (hs : d.mc.Sound) (e : Option Nat) : (d.flush e).mc.Sound :=
  ⟨hs.toWired.congr rfl rfl rfl rfl rfl fun _ => ⟨rfl, rfl⟩, hs.held⟩

theorem Daemon.turn_sound {t : Turn} (hs : d.mc.Sound) (h : d.turn t = .ok d') : d'.mc.Sound := by
  have hflush := flush_sound hs t.sendError
  obtain ⟨-, rfl⟩ | ⟨r, -, hread⟩ := turn_cases h
  · exact (Client.handleTimer_spec hflush).1
  · have hkeeps : Daemon.Reads fun e => e.mc.Sound :=
      ⟨fun _ _ h => h, fun _ _ h => h, fun _ _ h => h,
        fun _ _ _ _ h hmc => (Client.perform_spec h hmc).1,
        fun _ _ _ _ _ _ h _ _ hmc => (Client.perform_spec h hmc).1, fun _ _ h => h⟩
    exact hkeeps.readAll hflush (fun _ _ _ h _ => h) hread

theorem Daemon.sound_of_run (h : d.Initial) {ts : List Turn}
    (hrun : Fallible.run Daemon.turn d ts = .ok d') : d'.mc.Sound :=
  run_always (P := fun e => e.mc.Sound) (fun _ _ _ hs hstep => Daemon.turn_sound hs hstep)
    h.mc.sound hrun

def Daemon.ActsUpon (d : Daemon) (ts : List Turn) : Prop :=
  ∃ us t d₁ d₂, us ++ [t] <+: ts ∧ Fallible.run Daemon.turn d us = .ok d₁ ∧ d₁.turn t = .ok d₂ ∧
    d₂.timerRuns = d₁.timerRuns + 1 ∧ d₂.mc.due (d₁.mc.clock.reading 0) = []

theorem Daemon.not_actsUpon {ts : List Turn} (h : ∀ t ∈ ts, t.select ≠ .timeout) :
    ¬ d.ActsUpon ts := by
  rintro ⟨us, t, d₁, d₂, ⟨rest, rfl⟩, -, hturn, hruns, -⟩
  obtain ⟨htimeout, -⟩ | ⟨-, hsame⟩ := turn_timerRuns hturn
  · exact h t (by simp) htimeout
  · omega

/-- From every state that the daemon reaches, the ranges that are due are acted upon in
some turns exactly if no descriptor is ready in one of them. -/
theorem Daemon.actsUpon_iff {d₀ : Daemon} (h : d₀.Initial) {us ts : List Turn}
    (hreach : Fallible.run Daemon.turn d₀ us = .ok d)
    (hrun : Fallible.run Daemon.turn d ts = .ok d') :
    d.ActsUpon ts ↔ ∃ t ∈ ts, t.select = .timeout := by
  constructor
  · intro hacts
    by_contra hbusy
    push Not at hbusy
    exact not_actsUpon hbusy hacts
  · rintro ⟨t, ht, htimeout⟩
    obtain ⟨vs, rest, rfl⟩ := List.append_of_mem ht
    rw [run_append] at hrun
    obtain ⟨d₁, hvs, hrest⟩ := bind_eq_ok.mp hrun
    obtain ⟨d₂, hturn, -⟩ := bind_eq_ok.mp hrest
    have hreach₁ : Fallible.run Daemon.turn d₀ (us ++ vs) = .ok d₁ := by
      rw [run_append]
      exact bind_eq_ok.mpr ⟨d, hreach, hvs⟩
    have hsound := sound_of_run h hreach₁
    refine ⟨vs, t, d₁, d₂, ⟨rest, by simp⟩, hvs, hturn, ?_⟩
    obtain ⟨-, rfl⟩ | ⟨hbusy, -⟩ := turn_timerRuns hturn
    · refine ⟨rfl, ?_⟩
      exact Client.due_handleTimer (flush_sound hsound t.sendError)
    · exact absurd htimeout hbusy

end Timers

def newDaemon : Daemon where
  mc :=
    { destMac := 0x91E0F000FF00
      srcMac := 7
      mem := fun _ => ⟨0, .RELEASED, 0, false, ⟨0, 0⟩, none, .console⟩
      rnd := fun _ => 0
      clock := secondsClock }
  slots := .empty maxClientConnections_pos
  wantsText := fun _ => false
  recvbuffer := List.replicate 24 0
  daemonize := true
  exitReceived := false
  own := [0, 1, 2, 3, 4]
  accepted := 0
  delivered := []
  timerRuns := 0

theorem newDaemon_initial : newDaemon.Initial :=
  ⟨⟨rfl, rfl, rfl, rfl, rfl⟩, rfl, rfl, rfl⟩

def Turn.quiet : Turn :=
  ⟨none, .timeout⟩

def Turn.connects : Turn :=
  ⟨none, .ready ⟨[], false, some true, none, fun _ => none⟩⟩

def Turn.reads (i : Fin maxClientConnections) (x : Reading) : Turn :=
  ⟨none, .ready ⟨[], false, none, none, fun j => if j = i then some x else none⟩⟩

def sayInit : Reading :=
  .data ⟨ascii ['i', 'n', 'i', 't'], by decide, by decide⟩ false

def sayReserve : Reading :=
  .data ⟨ascii ['r', 'e', 's', 'e', 'r', 'v', 'e', ' ', '1'], by decide, by decide⟩ false

def firstReservation : List Turn :=
  [.connects, .reads ⟨0, maxClientConnections_pos⟩ sayInit, .reads ⟨0, maxClientConnections_pos⟩ sayReserve]

def streamFrame : Message where
  bytes := List.replicate 12 0 ++ [0x22, 0xF0] ++ List.replicate 46 0
  received := by decide
  fits := by decide

def Turn.stream : Turn :=
  ⟨none, .ready ⟨[(streamFrame, false)], false, none, none, fun _ => none⟩⟩

theorem firstReservation_due :
    ∃ d, Fallible.run Daemon.turn newDaemon firstReservation = .ok d ∧
      (d.exitReceived = false ∧ d.mc.due (d.mc.clock.reading 0) = [0]) := by
  obtain ⟨d, hrun, hd⟩ := exists_of_okAnd (x := Fallible.run Daemon.turn newDaemon firstReservation)
    (p := fun d => d.exitReceived = false ∧ d.mc.due (d.mc.clock.reading 0) = [0])
    (by decide +kernel)
  exact ⟨d, hrun, by simpa using hd⟩

theorem Daemon.serveAll_none (before : Slots maxClientConnections Conn)
    (is : List (Fin maxClientConnections)) (d : Daemon) :
    d.serveAll before (fun _ => none) is = .ok d := by
  induction is with
  | nil => rfl
  | cons i is ih =>
    have hserve : d.serve before (fun _ => none) i = .ok d := by
      unfold serve
      split <;> rfl
    exact (bind_of_ok hserve _).trans ih

theorem Client.handlePacket_stream {σ : Type} (c : Client σ) :
    c.handlePacket streamFrame.bytes false = .ok c := by
  have hlong : ¬ streamFrame.bytes.length < maapPktSize := by decide
  have hvalid : (unpackMaap streamFrame.bytes).valid = false := by decide +kernel
  unfold handlePacket
  rw [if_neg hlong, hvalid]
  rfl

theorem Daemon.turn_stream {d : Daemon} (h : d.exitReceived = false) :
    ∃ d', d.turn .stream = .ok d' ∧ d'.exitReceived = false := by
  have hperform : ∀ e : Daemon, e.perform (.packet streamFrame.bytes false) = .ok e := by
    intro e
    unfold Daemon.perform
    rw [show e.mc.perform (.packet streamFrame.bytes false) = .ok e.mc from e.mc.handlePacket_stream]
  refine ⟨{ d.flush none with
    recvbuffer := overwrite streamFrame.bytes (d.flush none).recvbuffer }, ?_, h⟩
  unfold Daemon.turn
  rw [if_neg (by simp [h])]
  refine bind_eq_ok.mpr ⟨_, bind_eq_ok.mpr ⟨_, hperform _, rfl⟩, ?_⟩
  exact bind_eq_ok.mpr ⟨_, rfl, serveAll_none _ _ _⟩

theorem Daemon.run_stream {d : Daemon} (h : d.exitReceived = false) (n : Nat) :
    ∃ d', Fallible.run Daemon.turn d (List.replicate n .stream) = .ok d' ∧
      d'.exitReceived = false :=
  run_replicate (P := fun _ (e : Daemon) => e.exitReceived = false) (m := 0)
    (fun _ _ he => Daemon.turn_stream he) h n

theorem firstReservation_actsUpon :
    ∃ d d', Fallible.run Daemon.turn newDaemon firstReservation = .ok d ∧
      Fallible.run Daemon.turn d [.stream, .quiet] = .ok d' ∧
      (d.ActsUpon [.stream, .quiet] ↔ ∃ t ∈ [Turn.stream, .quiet], t.select = .timeout) := by
  obtain ⟨d, hreach, hexit, -⟩ := firstReservation_due
  obtain ⟨d₁, hstream, hexit₁⟩ := Daemon.turn_stream hexit
  have hquiet : d₁.turn .quiet = .ok (d₁.flush none).runTimer := by
    unfold Daemon.turn
    rw [if_neg (by simp [hexit₁])]
    rfl
  have hrun : Fallible.run Daemon.turn d [.stream, .quiet] = .ok (d₁.flush none).runTimer :=
    bind_eq_ok.mpr ⟨d₁, hstream, bind_eq_ok.mpr ⟨_, hquiet, rfl⟩⟩
  exact ⟨d, _, hreach, hrun, Daemon.actsUpon_iff newDaemon_initial hreach hrun⟩

theorem stream_starves_timers :
    ∃ d, Fallible.run Daemon.turn newDaemon firstReservation = .ok d ∧
      d.mc.due (d.mc.clock.reading 0) = [0] ∧
      ∀ n, (∃ d', Fallible.run Daemon.turn d (List.replicate n .stream) = .ok d') ∧
        ¬ d.ActsUpon (List.replicate n .stream) := by
  obtain ⟨d, hreach, hexit, hdue⟩ := firstReservation_due
  refine ⟨d, hreach, hdue, fun n => ⟨?_, ?_⟩⟩
  · obtain ⟨d', hrun, -⟩ := Daemon.run_stream hexit n
    exact ⟨d', hrun⟩
  · refine Daemon.not_actsUpon ?_
    intro t ht
    rw [List.eq_of_mem_replicate ht]
    simp [Turn.stream]

end Avb4Linux.Maap
