import Avb4Linux.Gptp.Port
import Avb4Linux.Lib.LockOrder

/-!
# The locks of the daemon

Which locks the timer thread, the receive thread and the link watcher take, and in which
order.
-/

namespace Avb4Linux.Gptp.Deadlock

open Lib Lib.LockOrder

inductive Lock where
  | timerq | pdelayRx | pDelayIntervalTimer | announceIntervalTimer | syncIntervalTimer
  | syncReceiptTimer | portTx
  deriving DecidableEq, Repr

inductive Thread where
  | timer | receiver | link
  deriving DecidableEq, Repr

def addEventTimerLocked : Code Lock :=
  .locked .timerq .skip

def deleteEventTimerLocked : Code Lock :=
  .locked .timerq .skip

def startSyncReceiptTimer : Code Lock :=
  .locked .timerq (.locked .syncReceiptTimer .skip)

def stopSyncReceiptTimer : Code Lock :=
  .locked .timerq (.locked .syncReceiptTimer .skip)

def startSyncIntervalTimer : Code Lock :=
  .ifFree .syncIntervalTimer (.inOrder [deleteEventTimerLocked, addEventTimerLocked])

def startAnnounceIntervalTimer : Code Lock :=
  .locked .announceIntervalTimer (.inOrder [deleteEventTimerLocked, addEventTimerLocked])

def startPDelayIntervalTimer : Code Lock :=
  .locked .pDelayIntervalTimer (.inOrder [deleteEventTimerLocked, addEventTimerLocked])

def startAnnounce : Code Lock :=
  startAnnounceIntervalTimer

def startPDelay : Code Lock :=
  .maybe startPDelayIntervalTimer

def stopPDelay : Code Lock :=
  deleteEventTimerLocked

def startSyncRateIntervalTimer : Code Lock :=
  .maybe addEventTimerLocked

def syncDone : Code Lock :=
  .inOrder [.maybe startSyncRateIntervalTimer, .maybe startPDelay]

def becomeMaster : Code Lock :=
  .inOrder [deleteEventTimerLocked, stopSyncReceiptTimer, .maybe startAnnounce,
    startSyncIntervalTimer]

def becomeSlave : Code Lock :=
  .inOrder [deleteEventTimerLocked, deleteEventTimerLocked, .maybe addEventTimerLocked]

def recommendState : Code Lock :=
  .maybe (.either becomeMaster becomeSlave)

def processStateChange : Code Lock :=
  .maybe recommendState

def processSyncAnnounceTimeout (restart : Code Lock) : Code Lock :=
  .maybe (.inOrder [restart, .maybe (.inOrder [addEventTimerLocked, startAnnounce])])

def setMasterOffset (zero : Bool) : Code Lock :=
  if zero then .skip else .maybe (.locked .portTx .skip)

def processPathDelayRespFollowUp : Code Lock :=
  .maybe (.ifFree .pdelayRx
    (.maybe (.inOrder [deleteEventTimerLocked, .maybe addEventTimerLocked])))

def processMessage : Message → Code Lock
  | .sync _ => .skip
  | .followUp _ =>
    .inOrder [stopSyncReceiptTimer,
      .maybe (.either becomeMaster
        (.maybe (.inOrder [setMasterOffset false, syncDone, startSyncReceiptTimer])))]
  | .pathDelayReq => .maybe (.locked .portTx .skip)
  | .pathDelayResp _ =>
    .maybe (.ifFree .pdelayRx (.maybe (.inOrder [stopPDelay, addEventTimerLocked])))
  | .pathDelayRespFollowUp _ => processPathDelayRespFollowUp
  | .announce _ =>
    .inOrder [deleteEventTimerLocked, .maybe addEventTimerLocked, addEventTimerLocked]
  | .signalling _ =>
    .inOrder [.maybe startPDelayIntervalTimer, .maybe startSyncIntervalTimer,
      .maybe startAnnounceIntervalTimer]

def processEvent : Event → Code Lock
  | .POWERUP | .INITIALIZE =>
    .inOrder [.either becomeSlave (.either becomeMaster addEventTimerLocked), .maybe startPDelay,
      .maybe startSyncReceiptTimer]
  | .LINKUP =>
    .inOrder [startPDelay, .either becomeSlave (.either becomeMaster addEventTimerLocked),
      .maybe startSyncReceiptTimer]
  | .LINKDOWN => stopPDelay
  | .STATE_CHANGE_EVENT => .maybe processStateChange
  | .SYNC_INTERVAL_TIMEOUT_EXPIRES =>
    .inOrder [.maybe (.locked .portTx .skip), setMasterOffset true, syncDone,
      startSyncIntervalTimer]
  | .PDELAY_INTERVAL_TIMEOUT_EXPIRES =>
    .inOrder [.locked .portTx .skip, addEventTimerLocked, startPDelayIntervalTimer]
  | .SYNC_RECEIPT_TIMEOUT_EXPIRES =>
    .either startSyncReceiptTimer (processSyncAnnounceTimeout startSyncReceiptTimer)
  | .ANNOUNCE_RECEIPT_TIMEOUT_EXPIRES => .maybe (processSyncAnnounceTimeout addEventTimerLocked)
  | .ANNOUNCE_INTERVAL_TIMEOUT_EXPIRES => startAnnounceIntervalTimer
  | .FAULT_DETECTED => .skip
  | .PDELAY_DEFERRED_PROCESSING => .locked .pdelayRx processPathDelayRespFollowUp
  | .PDELAY_RESP_RECEIPT_TIMEOUT_EXPIRES => .skip
  | .PDELAY_RESP_PEER_MISBEHAVING_TIMEOUT_EXPIRES => .maybe startPDelay
  | .SYNC_RATE_INTERVAL_TIMEOUT_EXPIRED => .maybe startSyncReceiptTimer

inductive Activity where
  | fires (e : Event)
  | receives (m : Message)
  | fails
  | link (up : Bool)

def Activity.thread : Activity → Thread
  | .fires _ => .timer
  | .receives _ => .receiver
  | .fails => .receiver
  | .link _ => .link

def Activity.code : Activity → Code Lock
  | .fires e => .locked .timerq (.maybe (processEvent e))
  | .receives m => processMessage m
  | .fails => processEvent .FAULT_DETECTED
  | .link up => processEvent (if up then .LINKUP else .LINKDOWN)

inductive Move where
  | start (a : Activity)
  | go (t : Thread) (choice : Bool)

def Move.lift : Move → LockOrder.Move Thread Lock
  | .start a => .start a.thread a.code
  | .go t choice => .go t choice

def step (s : State Thread Lock) (m : Move) : State Thread Lock :=
  s.step m.lift

def WaitForever (W : Finset Thread) (s : State Thread Lock) : Prop :=
  ∀ ms, (Runs.run step s ms).Stuck W

/-! ### The order of the locks

The timer thread holds the lock of the timer queue when it takes one of three locks; the
others hold one of the three when they take that of the timer queue. -/

def crossing : Lock → Bool
  | .pdelayRx => true
  | .pDelayIntervalTimer => true
  | .announceIntervalTimer => true
  | _ => false

def rank (late : Lock → Bool) : Lock → Nat
  | .syncIntervalTimer => 0
  | .timerq => 1
  | .syncReceiptTimer => 3
  | .portTx => 3
  | l => if late l then 2 else 0

theorem rank_congr {late late' : Lock → Bool} {l : Lock}
    (h : crossing l = true → late l = late' l) : rank late l = rank late' l := by
  cases l with
  | pdelayRx => simp [rank, h rfl]
  | pDelayIntervalTimer => simp [rank, h rfl]
  | announceIntervalTimer => simp [rank, h rfl]
  | _ => rfl

theorem ordered_fires (e : Event) :
    (Activity.fires e).code.ordered
      (rank fun l => decide (l ∈ (Activity.fires e).code.locks)) [] = true := by
  cases e <;> rfl

theorem ordered_of_ne_timer {a : Activity} (h : a.thread ≠ .timer) :
    a.code.ordered (rank fun _ => false) [] = true := by
  cases a with
  | fires e => exact absurd rfl h
  | receives m => cases m <;> rfl
  | fails => rfl
  | link up => cases up <;> rfl

def late (s : State Thread Lock) (l : Lock) : Bool :=
  decide (l ∈ mayUse (s.work .timer))

def Apart (s : State Thread Lock) : Prop :=
  ∀ t, t ≠ .timer → ∀ l, crossing l = true → l ∈ mayUse (s.work .timer) → l ∉ mayUse (s.work t)

structure Inv (s : State Thread Lock) : Prop where
  owned : s.Owned
  timer : Ordered (rank (late s)) (s.work .timer)
  others : ∀ t, t ≠ .timer → Ordered (rank fun _ => false) (s.work t)
  apart : Apart s

theorem Inv.not_stuck {s : State Thread Lock} (h : Inv s) {W : Finset Thread} (hW : W.Nonempty) :
    ¬ s.Stuck W := by
  have hordered : ∀ t, Ordered (rank (late s)) (s.work t) := ?_
  · exact State.not_stuck h.owned hordered hW
  intro t
  by_cases ht : t = .timer
  · rw [ht]
    exact h.timer
  · refine (h.others t ht).congr ?_
    intro l hl
    refine rank_congr fun hcrossing => ?_
    have hfree : l ∉ mayUse (s.work .timer) := fun htimer => h.apart t ht l hcrossing htimer hl
    simp [late, hfree]

theorem inv_idle : Inv .idle :=
  ⟨State.owned_idle, trivial, fun _ _ => trivial, fun _ _ _ _ h => absurd h List.not_mem_nil⟩

theorem inv_go {s : State Thread Lock} (h : Inv s) (t : Thread) (choice : Bool) :
    Inv (s.go t choice) := by
  have hturn := s.turn_go t choice
  generalize s.go t choice = s' at hturn ⊢
  have huse : ∀ u, ∀ l ∈ mayUse (s'.work u), l ∈ mayUse (s.work u) := by
    intro u
    by_cases hu : u = t
    · rw [hu]
      exact hturn.mayUse_subset
    · rw [hturn.work_of_ne hu]
      exact fun l hl => hl
  have hordered : ∀ rank u, Ordered rank (s.work u) → Ordered rank (s'.work u) := by
    intro rank u hs
    by_cases hu : u = t
    · rw [hu] at hs ⊢
      exact hturn.ordered hs
    · rw [hturn.work_of_ne hu]
      exact hs
  refine ⟨hturn.owned h.owned, ?_, fun u hu => hordered _ u (h.others u hu), ?_⟩
  · refine (hordered _ _ h.timer).congr ?_
    grind [rank_congr, late]
  · intro u hu l hcrossing htimer hl
    exact h.apart u hu l hcrossing (huse _ l htimer) (huse _ l hl)

/-- An activity starts only while no other thread uses one of the three locks that it
needs, if one of the two threads is the timer thread. -/
def Move.Keeps (s : State Thread Lock) : Move → Prop
  | .start a =>
    ∀ t, t ≠ a.thread → t = .timer ∨ a.thread = .timer →
      ∀ l, crossing l = true → l ∈ a.code.locks → l ∉ mayUse (s.work t)
  | .go _ _ => True

theorem inv_start {s : State Thread Lock} (h : Inv s) {a : Activity}
    (hidle : s.work a.thread = []) (hok : (Move.start a).Keeps s) :
    Inv (s.setWork a.thread [.run a.code]) := by
  have howned : (s.setWork a.thread [.run a.code]).Owned := by
    have hstep := h.owned.step (.start a.thread a.code)
    simpa [State.step, hidle] using hstep
  have hwork : ∀ t, t ≠ a.thread → (s.setWork a.thread [.run a.code]).work t = s.work t :=
    fun t ht => State.setWork_of_ne ht
  have hself : (s.setWork a.thread [.run a.code]).work a.thread = [.run a.code] :=
    State.setWork_self
  have hlocks : mayUse [Item.run a.code] = a.code.locks := by
    simp [mayUse]
  generalize s.setWork a.thread [.run a.code] = s' at howned hwork hself ⊢
  by_cases htimer : a.thread = .timer
  · rw [htimer] at hwork hself
    refine ⟨howned, ?_, ?_, ?_⟩
    · have hlate : late s' = fun l => decide (l ∈ a.code.locks) := by
        funext l
        simp only [late, hself, hlocks]
      rw [hself, hlate]
      cases a with
      | fires e => exact ⟨ordered_fires e, trivial⟩
      | _ => cases htimer
    · intro t ht
      rw [hwork t ht]
      exact h.others t ht
    · intro t ht l hcrossing huse
      rw [hself, hlocks] at huse
      rw [hwork t ht]
      exact hok t (by rwa [htimer]) (.inr htimer) l hcrossing huse
  · have hsame : s'.work .timer = s.work .timer := hwork _ (Ne.symm htimer)
    have hlate : late s' = late s := by
      funext l
      simp only [late, hsame]
    refine ⟨howned, ?_, ?_, ?_⟩
    · rw [hsame, hlate]
      exact h.timer
    · intro t ht
      by_cases hta : t = a.thread
      · rw [hta, hself]
        exact ⟨ordered_of_ne_timer htimer, trivial⟩
      · rw [hwork t hta]
        exact h.others t ht
    · intro t ht l hcrossing huse hl
      rw [hsame] at huse
      by_cases hta : t = a.thread
      · rw [hta, hself, hlocks] at hl
        exact hok .timer (Ne.symm htimer) (.inl rfl) l hcrossing hl huse
      · rw [hwork t hta] at hl
        exact h.apart t ht l hcrossing huse hl

theorem inv_step (s : State Thread Lock) (m : Move) (hok : m.Keeps s) (h : Inv s) :
    Inv (step s m) := by
  cases m with
  | go t choice => exact inv_go h t choice
  | start a =>
    grind [step, Move.lift, State.step, Activity.thread, inv_start, List.isEmpty_iff]

/-- No threads ever wait for each other forever in an interleaving in which the timer
thread and another one never use the same of the three locks at one time. -/
theorem no_deadlock (ms : List Move) (h : Runs.Along step (fun s m => m.Keeps s) .idle ms)
    (W : Finset Thread) (hW : W.Nonempty) : ¬ WaitForever W (Runs.run step .idle ms) := by
  intro hwait
  have hinv : Inv (Runs.run step .idle ms) := Runs.run_invariant inv_step .idle ms inv_idle h
  exact hinv.not_stuck hW (hwait [])

def linkDownDuringInterval : List Move :=
  [.start (.fires .PDELAY_INTERVAL_TIMEOUT_EXPIRES), .go .timer true, .start (.link false),
    .go .link true, .go .timer true]

theorem linkDownDuringInterval_no_deadlock :
    Runs.Along step (fun s m => m.Keeps s) .idle linkDownDuringInterval ∧
      ¬ WaitForever {.timer, .link} (Runs.run step .idle linkDownDuringInterval) := by
  have h : Runs.Along step (fun s m => m.Keeps s) .idle linkDownDuringInterval := by
    refine ⟨?_, trivial, ?_, trivial, trivial, trivial⟩
    · intro t _ _ l _ _ hl
      cases hl
    · intro t _ _ l hcrossing hl
      obtain rfl : l = .timerq := List.mem_singleton.mp hl
      cases hcrossing
  exact ⟨h, no_deadlock linkDownDuringInterval h _ (by decide)⟩

theorem run_step (s : State Thread Lock) (ms : List Move) :
    Runs.run step s ms = Runs.run State.step s (ms.map Move.lift) := by
  induction ms generalizing s with
  | nil => rfl
  | cons m ms ih => exact ih (step s m)

theorem owned_run (ms : List Move) : (Runs.run step .idle ms).Owned := by
  rw [run_step]
  exact State.owned_idle.run _

/-- The receive thread is about to add the interval timer that a signalling message asks
for when that timer fires and its handler is about to start it again. -/
def signallingDuringInterval : List Move :=
  [.start (.receives (.signalling ⟨0, 0, 0, 0⟩)),
    .start (.fires .PDELAY_INTERVAL_TIMEOUT_EXPIRES)] ++
  List.replicate 4 (.go .receiver true) ++ List.replicate 11 (.go .timer true)

theorem signallingDuringInterval_deadlock :
    WaitForever {.timer, .receiver} (Runs.run step .idle signallingDuringInterval) := by
  have hstuck : (Runs.run step .idle signallingDuringInterval).Stuck {.timer, .receiver} := by
    intro t ht
    cases t with
    | timer => exact ⟨.pDelayIntervalTimer, ⟨⟨_, _, rfl⟩, rfl⟩, .receiver, by decide, 0, rfl⟩
    | receiver => exact ⟨.timerq, ⟨⟨_, _, rfl⟩, rfl⟩, .timer, by decide, 0, rfl⟩
    | link => exact absurd ht (by decide)
  intro ms
  rw [run_step]
  exact hstuck.forever (owned_run _) _

end Avb4Linux.Gptp.Deadlock
