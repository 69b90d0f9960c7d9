import Avb4Linux.Lib.Mutex
import Avb4Linux.Lib.Runs

/-!
# The timer thread and the receive thread

The two threads that work on the request and the response of a peer delay exchange, one access
to shared data after the other (`ptp_message.cpp`, `ether_port.cpp`, `linux_hal_common.cpp`).
-/

namespace Avb4Linux.Gptp.Threads

open Lib Option

inductive Thread where
  | receiver | timer
  deriving DecidableEq, Repr

inductive Object where
  | request (addr : Nat)
  | response (addr : Nat)
  deriving DecidableEq, Repr

def Object.addr : Object → Nat
  | .request a => a
  | .response a => a

/-- The locks `pdelay_rx_lock` and `timerq_lock`, the pointers of the port, and a history
of who freed what. -/
structure Shared where
  rxLock : Mutex Thread
  timerLock : Mutex Thread
  lastPDelayReq : Option Nat
  lastPDelayResp : Option Nat
  followUpStored : Bool
  nextAddr : Nat
  freed : List (Thread × Object)

inductive Place where
  | tryLock
  | load
  | compare (req resp : Nat)
  | cancelTimer (req resp : Nat)
  | cancelling (req resp : Nat)
  | measure (req resp : Nat)
  | postpone
  | drop (resp : Option Nat)
  | unlock (garbage : Bool)
  deriving DecidableEq

inductive Receiver where
  | idle
  | followUp (place : Place)
  | tryLockResponse
  | storeResponse
  | unlockResponse

inductive Timer where
  | idle
  | deleteRequest
  | storeRequest
  | lockDeferred
  | deferred (place : Place)
  | finishDeferred (garbage : Bool)
  | leave
  | aborted
  deriving DecidableEq

structure State where
  shared : Shared
  receiver : Receiver
  timer : Timer

inductive Next where
  | goto (place : Place)
  | returns (garbage : Bool)

/-- One access in `PTPMessagePathDelayRespFollowUp::processMessage`. The choice stands for
what the messages contain. -/
def Place.step (t : Thread) (choice : Bool) (s : Shared) : Place → Next × Shared
  | .tryLock =>
    if s.rxLock.available t then (.goto .load, { s with rxLock := s.rxLock.lock t })
    else (.returns false, s)
  | .load =>
    match s.lastPDelayReq, s.lastPDelayResp with
    | some req, some resp => (.goto (.compare req resp), s)
    | _, resp => (.goto (.drop resp), s)
  | .compare req resp =>
    if choice then (.goto (.cancelTimer req resp), s) else (.goto (.drop (some resp)), s)
  | .cancelTimer req resp =>
    if s.timerLock.available t then
      (.goto (.cancelling req resp), { s with timerLock := s.timerLock.lock t })
    else (.goto (.cancelTimer req resp), s)
  | .cancelling req resp =>
    (.goto (.measure req resp), { s with timerLock := s.timerLock.unlock })
  | .measure _ resp => if choice then (.goto .postpone, s) else (.goto (.drop (some resp)), s)
  | .postpone =>
    if s.timerLock.available t then (.goto (.unlock false), { s with followUpStored := true })
    else (.goto .postpone, s)
  | .drop resp =>
    (.goto (.unlock true),
      { s with
        freed := s.freed ++ (resp.map fun a => (t, Object.response a)).toList
        lastPDelayResp := none })
  | .unlock garbage => (.returns garbage, { s with rxLock := s.rxLock.unlock })

def State.stepReceiver (choice : Bool) (s : State) : State :=
  match s.receiver with
  | .idle => { s with receiver := if choice then .followUp .tryLock else .tryLockResponse }
  | .followUp place =>
    match place.step .receiver choice s.shared with
    | (.goto p, shared) => { s with shared := shared, receiver := .followUp p }
    | (.returns _, shared) => { s with shared := shared, receiver := .idle }
  | .tryLockResponse =>
    if s.shared.rxLock.available .receiver then
      { s with
        shared := { s.shared with rxLock := s.shared.rxLock.lock .receiver }
        receiver := .storeResponse }
    else { s with receiver := .idle }
  | .storeResponse =>
    { s with
      shared :=
        { s.shared with
          freed := s.shared.freed ++
            (s.shared.lastPDelayResp.map fun a => (Thread.receiver, Object.response a)).toList
          lastPDelayResp := some s.shared.nextAddr
          nextAddr := s.shared.nextAddr + 1 }
      receiver := .unlockResponse }
  | .unlockResponse =>
    { s with
      shared := { s.shared with rxLock := s.shared.rxLock.unlock }
      receiver := .idle }

def State.stepTimer (choice : Bool) (s : State) : State :=
  match s.timer with
  | .idle =>
    if s.shared.timerLock.available .timer then
      { s with
        shared := { s.shared with timerLock := s.shared.timerLock.lock .timer }
        timer := if choice then .deleteRequest else .lockDeferred }
    else s
  | .deleteRequest =>
    { s with
      shared :=
        { s.shared with
          freed := s.shared.freed ++
            (s.shared.lastPDelayReq.map fun a => (Thread.timer, Object.request a)).toList }
      timer := .storeRequest }
  | .storeRequest =>
    { s with
      shared :=
        { s.shared with
          lastPDelayReq := some s.shared.nextAddr
          nextAddr := s.shared.nextAddr + 1 }
      timer := .leave }
  | .lockDeferred =>
    if s.shared.rxLock.available .timer then
      if s.shared.followUpStored then
        { s with
          shared := { s.shared with rxLock := s.shared.rxLock.lock .timer }
          timer := .deferred .tryLock }
      else { s with timer := .aborted }
    else s
  | .deferred place =>
    match place.step .timer choice s.shared with
    | (.goto p, shared) => { s with shared := shared, timer := .deferred p }
    | (.returns garbage, shared) => { s with shared := shared, timer := .finishDeferred garbage }
  | .finishDeferred garbage =>
    { s with
      shared :=
        { s.shared with
          followUpStored := s.shared.followUpStored && !garbage
          rxLock := s.shared.rxLock.unlock }
      timer := .leave }
  | .leave =>
    { s with
      shared := { s.shared with timerLock := s.shared.timerLock.unlock }
      timer := .idle }
  | .aborted => s

inductive Move where
  | receiver (choice : Bool)
  | timer (choice : Bool)

def State.step (s : State) (m : Move) : State :=
  if s.timer = .aborted then s
  else
    match m with
    | .receiver choice => s.stepReceiver choice
    | .timer choice => s.stepTimer choice

def State.start : State where
  shared := ⟨none, none, none, none, false, 0, []⟩
  receiver := .idle
  timer := .idle

def Place.objects : Place → List Object
  | .compare req resp => [.request req, .response resp]
  | .cancelTimer req resp => [.request req, .response resp]
  | .cancelling req resp => [.request req, .response resp]
  | .measure req resp => [.request req, .response resp]
  | .drop resp => (resp.map Object.response).toList
  | _ => []

def Receiver.objects : Receiver → List Object
  | .followUp place => place.objects
  | _ => []

def State.Safe (s : State) : Prop :=
  ∀ o ∈ s.receiver.objects, (Thread.timer, o) ∉ s.shared.freed

def Place.locked : Place → Bool
  | .tryLock => false
  | _ => true

@[inherit_doc Place.locked]
def Receiver.locked : Receiver → Bool
  | .followUp place => place.locked
  | .storeResponse => true
  | .unlockResponse => true
  | _ => false

def Timer.rxDepth : Timer → Option Nat
  | .deferred .tryLock => some 0
  | .deferred _ => some 1
  | .finishDeferred _ => some 0
  | _ => none

def Timer.objects : Timer → List Object
  | .deferred place => place.objects
  | _ => []

def State.rxHolder (s : State) : Mutex Thread :=
  if s.receiver.locked then some (.receiver, 0) else s.timer.rxDepth.map fun n => (.timer, n)

structure State.Inv (s : State) : Prop where
  rxLock : s.shared.rxLock = s.rxHolder
  exclusive : s.receiver.locked = true → s.timer.rxDepth = none
  freed_lt : ∀ t o, (t, o) ∈ s.shared.freed → o.addr < s.shared.nextAddr
  request_lt : ∀ a, s.shared.lastPDelayReq = some a → a < s.shared.nextAddr
  response_lt : ∀ a, s.shared.lastPDelayResp = some a → a < s.shared.nextAddr
  request_live : ∀ a, s.shared.lastPDelayReq = some a →
    ((Thread.timer, Object.request a) ∈ s.shared.freed ↔ s.timer = .storeRequest)
  response_live : ∀ a, s.shared.lastPDelayResp = some a →
    (Thread.timer, Object.response a) ∉ s.shared.freed
  receiver_request : ∀ a, Object.request a ∈ s.receiver.objects →
    s.shared.lastPDelayReq = some a ∧ s.timer ≠ .storeRequest
  receiver_response : ∀ a, Object.response a ∈ s.receiver.objects →
    s.shared.lastPDelayResp = some a
  timer_response : ∀ a, Object.response a ∈ s.timer.objects → s.shared.lastPDelayResp = some a

theorem State.Inv.safe {s : State} (h : s.Inv) : s.Safe := by
  intro o ho
  cases o with
  | request a =>
    obtain ⟨hlast, htimer⟩ := h.receiver_request a ho
    rw [h.request_live a hlast]
    exact htimer
  | response a => exact h.response_live a (h.receiver_response a ho)

def State.Replaces (s : State) : Move → Prop
  | .timer _ => s.timer = .deleteRequest ∧ ∃ a, Object.request a ∈ s.receiver.objects
  | .receiver _ =>
    s.timer = .storeRequest ∧ s.receiver = .followUp .load ∧ s.shared.lastPDelayReq.isSome ∧
      s.shared.lastPDelayResp.isSome

structure Shared.SameData (s t : Shared) : Prop where
  lastPDelayReq : t.lastPDelayReq = s.lastPDelayReq
  lastPDelayResp : t.lastPDelayResp = s.lastPDelayResp
  nextAddr : t.nextAddr = s.nextAddr
  freed : t.freed = s.freed

theorem State.Inv.keep {s t : State} (h : s.Inv) (hdata : s.shared.SameData t.shared)
    (hrx : t.shared.rxLock = t.rxHolder)
    (hexclusive : t.receiver.locked = true → t.timer.rxDepth = none)
    (hstore : t.timer = .storeRequest ↔ s.timer = .storeRequest)
    (hreceiver : ∀ o ∈ t.receiver.objects, o ∈ s.receiver.objects)
    (htimer : ∀ o ∈ t.timer.objects, o ∈ s.timer.objects) : t.Inv := by
  obtain ⟨hreq, hresp, hnext, hfreed⟩ := hdata
  refine ⟨hrx, hexclusive, ?_, ?_, ?_, ?_, ?_, ?_, ?_, ?_⟩
  · rw [hfreed, hnext]
    exact h.freed_lt
  · rw [hreq, hnext]
    exact h.request_lt
  · rw [hresp, hnext]
    exact h.response_lt
  · rw [hreq, hfreed, hstore]
    exact h.request_live
  · rw [hresp, hfreed]
    exact h.response_live
  · intro a ha
    rw [hreq, ne_eq, hstore]
    exact h.receiver_request a (hreceiver _ ha)
  · intro a ha
    rw [hresp]
    exact h.receiver_response a (hreceiver _ ha)
  · intro a ha
    rw [hresp]
    exact h.timer_response a (htimer _ ha)

theorem State.Inv.rxDepth_of_available {s : State} (h : s.Inv) (hfree : s.receiver.locked = false)
    (havailable : s.shared.rxLock.available .receiver = true) : s.timer.rxDepth = none := by
  rw [h.rxLock, rxHolder, if_neg (by rw [hfree]; decide)] at havailable
  cases hdepth : s.timer.rxDepth with
  | none => rfl
  | some n =>
    rw [hdepth] at havailable
    cases havailable

def Place.quiet : Place → Bool
  | .compare _ _ => true
  | .cancelTimer _ _ => true
  | .cancelling _ _ => true
  | .measure _ _ => true
  | .postpone => true
  | _ => false

theorem Place.step_quiet (t : Thread) (c : Bool) (s : Shared) {p : Place} (hp : p.quiet = true) :
    ∃ q s', p.step t c s = (.goto q, s') ∧ s.SameData s' ∧ s'.rxLock = s.rxLock ∧
      q.locked = true ∧ ∀ o ∈ q.objects, o ∈ p.objects := by
  have hdrop : ∀ req resp, ∀ o ∈ (Place.drop (some resp)).objects,
      o ∈ (Place.compare req resp).objects := by
    grind [objects, List.mem_singleton]
  cases p with
  | compare req resp =>
    cases c
    · exact ⟨_, _, rfl, ⟨rfl, rfl, rfl, rfl⟩, rfl, rfl, hdrop req resp⟩
    · exact ⟨_, _, rfl, ⟨rfl, rfl, rfl, rfl⟩, rfl, rfl, fun o ho => ho⟩
  | cancelTimer req resp =>
    by_cases havailable : s.timerLock.available t = true
    · exact ⟨_, _, if_pos havailable, ⟨rfl, rfl, rfl, rfl⟩, rfl, rfl, fun o ho => ho⟩
    · exact ⟨_, _, if_neg havailable, ⟨rfl, rfl, rfl, rfl⟩, rfl, rfl, fun o ho => ho⟩
  | cancelling req resp => exact ⟨_, _, rfl, ⟨rfl, rfl, rfl, rfl⟩, rfl, rfl, fun o ho => ho⟩
  | measure req resp =>
    cases c
    · exact ⟨_, _, rfl, ⟨rfl, rfl, rfl, rfl⟩, rfl, rfl, hdrop req resp⟩
    · exact ⟨_, _, rfl, ⟨rfl, rfl, rfl, rfl⟩, rfl, rfl, fun o ho => absurd ho List.not_mem_nil⟩
  | postpone =>
    by_cases havailable : s.timerLock.available t = true
    · exact ⟨_, _, if_pos havailable, ⟨rfl, rfl, rfl, rfl⟩, rfl, rfl, fun o ho => ho⟩
    · exact ⟨_, _, if_neg havailable, ⟨rfl, rfl, rfl, rfl⟩, rfl, rfl, fun o ho => ho⟩
  | tryLock | load | drop | unlock => cases hp

section Receiver

variable {shared : Shared} {receiver : Receiver} {timer : Timer}

theorem State.Inv.receiver_locks {r : Receiver} (h : State.Inv ⟨shared, receiver, timer⟩)
    (hfree : receiver.locked = false) (hlocked : r.locked = true) (hobjects : r.objects = [])
    (havailable : shared.rxLock.available .receiver = true) :
    State.Inv ⟨{ shared with rxLock := shared.rxLock.lock .receiver }, r, timer⟩ := by
  have hdepth : timer.rxDepth = none := h.rxDepth_of_available hfree havailable
  have hrx : shared.rxLock = none := by
    rw [h.rxLock, rxHolder]
    simp [hfree, hdepth]
  refine h.keep ⟨rfl, rfl, rfl, rfl⟩ ?_ (fun _ => hdepth) Iff.rfl ?_ (fun o ho => ho)
  · simp [hrx, rxHolder, hlocked]
  · simp [hobjects]

theorem State.Inv.receiver_unlocks {r : Receiver} (h : State.Inv ⟨shared, receiver, timer⟩)
    (hlocked : receiver.locked = true) (hfree : r.locked = false) (hobjects : r.objects = []) :
    State.Inv ⟨{ shared with rxLock := shared.rxLock.unlock }, r, timer⟩ := by
  have hdepth : timer.rxDepth = none := h.exclusive hlocked
  have hrx : shared.rxLock = some (.receiver, 0) := by
    rw [h.rxLock, rxHolder]
    simp [hlocked]
  refine h.keep ⟨rfl, rfl, rfl, rfl⟩ ?_ (fun _ => hdepth) Iff.rfl ?_ (fun o ho => ho)
  · simp [hrx, rxHolder, hfree, hdepth]
  · simp [hobjects]

theorem State.Inv.receiver_loads {req resp : Nat}
    (h : State.Inv ⟨shared, .followUp .load, timer⟩) (hreq : shared.lastPDelayReq = some req)
    (hresp : shared.lastPDelayResp = some resp) (htimer : timer ≠ .storeRequest) :
    State.Inv ⟨shared, .followUp (.compare req resp), timer⟩ := by
  refine ⟨h.rxLock, h.exclusive, h.freed_lt, h.request_lt, h.response_lt, h.request_live,
    h.response_live, ?_, ?_, h.timer_response⟩
  · grind [Receiver.objects, Place.objects, Object.request.injEq]
  · grind [Receiver.objects, Place.objects, Object.response.injEq]

theorem State.Inv.receiver_misses (h : State.Inv ⟨shared, .followUp .load, timer⟩) :
    State.Inv ⟨shared, .followUp (.drop shared.lastPDelayResp), timer⟩ := by
  refine ⟨h.rxLock, h.exclusive, h.freed_lt, h.request_lt, h.response_lt, h.request_live,
    h.response_live, ?_, ?_, h.timer_response⟩
  · intro a ha
    simp [Receiver.objects, Place.objects] at ha
  · intro a ha
    simpa [Receiver.objects, Place.objects] using ha

theorem Timer.objects_of_rxDepth {timer : Timer} (h : timer.rxDepth = none) :
    timer.objects = [] := by
  cases timer with
  | deferred place => cases place <;> cases h
  | _ => rfl

theorem State.Inv.receiver_drops {resp : Option Nat}
    (h : State.Inv ⟨shared, .followUp (.drop resp), timer⟩) :
    State.Inv ⟨{ shared with
      freed := shared.freed ++ (resp.map fun a => (Thread.receiver, Object.response a)).toList
      lastPDelayResp := none }, .followUp (.unlock true), timer⟩ := by
  have hobjects := Timer.objects_of_rxDepth (h.exclusive rfl)
  refine ⟨h.rxLock, h.exclusive, ?_, h.request_lt, ?_, ?_, ?_, ?_, ?_, ?_⟩
  · intro t o ho
    simp only [List.mem_append, mem_toList, map_eq_some_iff] at ho
    obtain ho | ⟨a, rfl, heq⟩ := ho
    · exact h.freed_lt t o ho
    · cases heq
      exact h.response_lt a (h.receiver_response a (by simp [Receiver.objects, Place.objects]))
  · intro a ha
    cases ha
  · intro a ha
    rw [← h.request_live a ha]
    simp
  · intro a ha
    cases ha
  · intro a ha
    cases ha
  · intro a ha
    cases ha
  · intro a ha
    simp [hobjects] at ha

theorem State.Inv.receiver_stores (h : State.Inv ⟨shared, .storeResponse, timer⟩) :
    State.Inv ⟨{ shared with
      freed := shared.freed ++
        (shared.lastPDelayResp.map fun a => (Thread.receiver, Object.response a)).toList
      lastPDelayResp := some shared.nextAddr
      nextAddr := shared.nextAddr + 1 }, .unlockResponse, timer⟩ := by
  have hobjects := Timer.objects_of_rxDepth (h.exclusive rfl)
  refine ⟨h.rxLock, h.exclusive, ?_, ?_, ?_, ?_, ?_, ?_, ?_, ?_⟩
  · intro t o ho
    simp only [List.mem_append, mem_toList, map_eq_some_iff] at ho
    obtain ho | ⟨a, ha, heq⟩ := ho
    · exact Nat.lt_succ_of_lt (h.freed_lt t o ho)
    · cases heq
      exact Nat.lt_succ_of_lt (h.response_lt a ha)
  · intro a ha
    exact Nat.lt_succ_of_lt (h.request_lt a ha)
  · rintro a ⟨rfl⟩
    exact Nat.lt_succ_self _
  · intro a ha
    rw [← h.request_live a ha]
    simp
  · rintro a ⟨rfl⟩ hmem
    simp only [List.mem_append, mem_toList, map_eq_some_iff, Prod.mk.injEq,
      reduceCtorEq, false_and, and_false, exists_const, or_false] at hmem
    exact Nat.lt_irrefl _ (h.freed_lt _ _ hmem)
  · intro a ha
    cases ha
  · intro a ha
    cases ha
  · intro a ha
    simp [hobjects] at ha

theorem State.inv_stepReceiver {s : State} (h : s.Inv) (c : Bool)
    (hok : ¬ s.Replaces (.receiver c)) : (s.stepReceiver c).Inv := by
  obtain ⟨shared, receiver, timer⟩ := s
  cases receiver with
  | idle =>
    cases c
    · exact h.keep ⟨rfl, rfl, rfl, rfl⟩ h.rxLock h.exclusive Iff.rfl (fun o ho => ho) (fun o ho => ho)
    · exact h.keep ⟨rfl, rfl, rfl, rfl⟩ h.rxLock h.exclusive Iff.rfl (fun o ho => ho) (fun o ho => ho)
  | followUp place =>
    by_cases hquiet : place.quiet = true
    · obtain ⟨q, shared', hstep, hdata, hrx, hlocked, hobjects⟩ :=
        Place.step_quiet .receiver c shared hquiet
      have hplace : place.locked = true := by
        cases place with
        | tryLock => cases hquiet
        | _ => rfl
      simp only [stepReceiver, hstep]
      refine h.keep hdata ?_ (fun _ => h.exclusive hplace) Iff.rfl hobjects (fun o ho => ho)
      have hholder := hrx.trans h.rxLock
      grind [rxHolder, Receiver.locked]
    · cases place with
      | tryLock =>
        simp only [stepReceiver, Place.step]
        by_cases havailable : shared.rxLock.available .receiver = true
        · rw [if_pos havailable]
          exact h.receiver_locks rfl rfl rfl havailable
        · rw [if_neg havailable]
          exact h.keep ⟨rfl, rfl, rfl, rfl⟩ h.rxLock h.exclusive Iff.rfl (fun o ho => ho)
            (fun o ho => ho)
      | load =>
        simp only [stepReceiver, Place.step]
        cases hreq : shared.lastPDelayReq with
        | none => exact h.receiver_misses
        | some req =>
          cases hresp : shared.lastPDelayResp with
          | none =>
            have hmiss := h.receiver_misses
            rwa [hresp] at hmiss
          | some resp =>
            refine h.receiver_loads hreq hresp ?_
            intro htimer
            exact hok ⟨htimer, rfl, by simp [hreq], by simp [hresp]⟩
      | drop resp => exact h.receiver_drops
      | unlock garbage => exact h.receiver_unlocks rfl rfl rfl
      | _ => exact absurd rfl hquiet
  | tryLockResponse =>
    simp only [stepReceiver]
    by_cases havailable : shared.rxLock.available .receiver = true
    · rw [if_pos havailable]
      exact h.receiver_locks rfl rfl rfl havailable
    · rw [if_neg havailable]
      exact h.keep ⟨rfl, rfl, rfl, rfl⟩ h.rxLock h.exclusive Iff.rfl (fun o ho => ho)
        (fun o ho => ho)
  | storeResponse => exact h.receiver_stores
  | unlockResponse => exact h.receiver_unlocks rfl rfl rfl

end Receiver

section Timer

variable {shared : Shared} {receiver : Receiver} {timer : Timer}

theorem State.Inv.timer_waits {t : Timer} {lock : Mutex Thread} {stored : Bool}
    (h : State.Inv ⟨shared, receiver, timer⟩) (hbefore : timer ≠ .storeRequest)
    (hafter : t ≠ .storeRequest) (hdepth : t.rxDepth = timer.rxDepth) (hobjects : t.objects = []) :
    State.Inv ⟨{ shared with timerLock := lock, followUpStored := stored }, receiver, t⟩ := by
  refine h.keep ⟨rfl, rfl, rfl, rfl⟩ ?_ ?_ (iff_of_false hafter hbefore) (fun o ho => ho) ?_
  · refine h.rxLock.trans ?_
    simp only [rxHolder, hdepth]
  · intro hlocked
    exact hdepth.trans (h.exclusive hlocked)
  · simp [hobjects]

theorem State.Inv.receiver_free {n : Nat} (h : State.Inv ⟨shared, receiver, timer⟩)
    (hdepth : timer.rxDepth = some n) :
    receiver.locked = false ∧ shared.rxLock = some (.timer, n) := by
  have hfree : receiver.locked = false := by
    by_contra hlocked
    have hnone := h.exclusive (by simpa using hlocked)
    simp only [hdepth, reduceCtorEq] at hnone
  refine ⟨hfree, ?_⟩
  rw [h.rxLock]
  simp [rxHolder, hfree, hdepth]

theorem Receiver.objects_of_free {r : Receiver} (h : r.locked = false) : r.objects = [] := by
  cases r with
  | followUp place =>
    cases place with
    | tryLock => rfl
    | _ => cases h
  | _ => rfl

theorem State.Inv.timer_relocks {t : Timer} {stored : Bool} {rx : Mutex Thread}
    (h : State.Inv ⟨shared, receiver, timer⟩) (hfree : receiver.locked = false)
    (hbefore : timer ≠ .storeRequest) (hafter : t ≠ .storeRequest) (hobjects : t.objects = [])
    (hrx : rx = t.rxDepth.map fun n => (.timer, n)) :
    State.Inv ⟨{ shared with rxLock := rx, followUpStored := stored }, receiver, t⟩ := by
  refine h.keep ⟨rfl, rfl, rfl, rfl⟩ ?_ ?_ (iff_of_false hafter hbefore) (fun o ho => ho) ?_
  all_goals grind [rxHolder]

theorem State.Inv.timer_deletes (h : State.Inv ⟨shared, receiver, .deleteRequest⟩)
    (hunread : ∀ a, Object.request a ∉ receiver.objects) :
    State.Inv ⟨{ shared with
      freed := shared.freed ++
        (shared.lastPDelayReq.map fun a => (Thread.timer, Object.request a)).toList },
      receiver, .storeRequest⟩ := by
  refine ⟨h.rxLock, h.exclusive, ?_, h.request_lt, h.response_lt, ?_, ?_, ?_,
    h.receiver_response, ?_⟩
  · intro t o ho
    simp only [List.mem_append, mem_toList, map_eq_some_iff] at ho
    obtain ho | ⟨a, ha, heq⟩ := ho
    · exact h.freed_lt t o ho
    · cases heq
      exact h.request_lt a ha
  · grind
  · intro a ha hmem
    refine h.response_live a ha ?_
    simpa using hmem
  · intro a ha
    exact absurd ha (hunread a)
  · intro a ha
    cases ha

theorem State.Inv.timer_stores (h : State.Inv ⟨shared, receiver, .storeRequest⟩) :
    State.Inv ⟨{ shared with
      lastPDelayReq := some shared.nextAddr
      nextAddr := shared.nextAddr + 1 }, receiver, .leave⟩ := by
  refine ⟨h.rxLock, h.exclusive, ?_, ?_, ?_, ?_, h.response_live, ?_, h.receiver_response, ?_⟩
  · intro t o ho
    exact Nat.lt_succ_of_lt (h.freed_lt t o ho)
  · rintro a ⟨rfl⟩
    exact Nat.lt_succ_self _
  · intro a ha
    exact Nat.lt_succ_of_lt (h.response_lt a ha)
  · rintro a ⟨rfl⟩
    refine iff_of_false ?_ (by simp)
    intro hmem
    exact Nat.lt_irrefl _ (h.freed_lt _ _ hmem)
  · intro a ha
    exact absurd rfl (h.receiver_request a ha).2
  · intro a ha
    cases ha

theorem State.Inv.timer_loads {place : Place}
    (h : State.Inv ⟨shared, receiver, .deferred .load⟩) (hlocked : place.locked = true)
    (hresponse : ∀ a, Object.response a ∈ place.objects → shared.lastPDelayResp = some a) :
    State.Inv ⟨shared, receiver, .deferred place⟩ := by
  have hdepth : (Timer.deferred place).rxDepth = some 1 := by
    cases place with
    | tryLock => cases hlocked
    | _ => rfl
  obtain ⟨hfree, hrx⟩ := h.receiver_free rfl
  have hobjects := Receiver.objects_of_free hfree
  refine ⟨?_, ?_, h.freed_lt, h.request_lt, h.response_lt, ?_, h.response_live, ?_,
    h.receiver_response, hresponse⟩
  · simp [rxHolder, hfree, hdepth, hrx]
  · intro hreceiver
    simp [hfree] at hreceiver
  · intro a ha
    rw [h.request_live a ha]
    exact iff_of_false (by simp) (by simp)
  · intro a ha
    simp [hobjects] at ha

theorem State.Inv.timer_drops {resp : Option Nat}
    (h : State.Inv ⟨shared, receiver, .deferred (.drop resp)⟩) :
    State.Inv ⟨{ shared with
      freed := shared.freed ++ (resp.map fun a => (Thread.timer, Object.response a)).toList
      lastPDelayResp := none }, receiver, .deferred (.unlock true)⟩ := by
  have hobjects := Receiver.objects_of_free (h.receiver_free rfl).1
  refine ⟨h.rxLock, h.exclusive, ?_, h.request_lt, ?_, ?_, ?_, ?_, ?_, ?_⟩
  · intro t o ho
    simp only [List.mem_append, mem_toList, map_eq_some_iff] at ho
    obtain ho | ⟨a, rfl, heq⟩ := ho
    · exact h.freed_lt t o ho
    · cases heq
      exact h.response_lt a (h.timer_response a (by simp [Timer.objects, Place.objects]))
  · intro a ha
    cases ha
  · intro a ha
    have hlive := h.request_live a ha
    simp_all
  · intro a ha
    cases ha
  · intro a ha
    simp [hobjects] at ha
  · intro a ha
    simp [hobjects] at ha
  · intro a ha
    cases ha

theorem State.Inv.timer_defers {place : Place} (c : Bool)
    (h : State.Inv ⟨shared, receiver, .deferred place⟩) :
    (State.stepTimer c ⟨shared, receiver, .deferred place⟩).Inv := by
  by_cases hquiet : place.quiet = true
  · obtain ⟨q, shared', hstep, hdata, hrx, hlocked, hobjects⟩ :=
      Place.step_quiet .timer c shared hquiet
    have hdepth : (Timer.deferred q).rxDepth = (Timer.deferred place).rxDepth := by
      cases place with
      | tryLock => cases hquiet
      | _ =>
        cases q with
        | tryLock => cases hlocked
        | _ => rfl
    simp only [stepTimer, hstep]
    refine h.keep hdata ?_ ?_ (iff_of_false (by simp) (by simp)) (fun o ho => ho) hobjects
    · refine (hrx.trans h.rxLock).trans ?_
      simp only [rxHolder, hdepth]
    · intro hreceiver
      exact hdepth.trans (h.exclusive hreceiver)
  · cases place with
    | tryLock =>
      obtain ⟨hfree, hrx⟩ := h.receiver_free rfl
      have havailable : shared.rxLock.available .timer = true := by
        rw [hrx]
        rfl
      simp only [stepTimer, Place.step, if_pos havailable]
      refine h.timer_relocks hfree (by simp) (by simp) rfl ?_
      rw [hrx]
      rfl
    | load =>
      simp only [stepTimer, Place.step]
      cases hreq : shared.lastPDelayReq with
      | none =>
        refine h.timer_loads rfl ?_
        intro a ha
        simpa [Place.objects] using ha
      | some req =>
        cases hresp : shared.lastPDelayResp with
        | none =>
          refine h.timer_loads rfl ?_
          intro a ha
          cases ha
        | some resp =>
          refine h.timer_loads rfl ?_
          grind [Place.objects, Object.response.injEq]
    | drop resp => exact h.timer_drops
    | unlock garbage =>
      obtain ⟨hfree, hrx⟩ := h.receiver_free rfl
      refine h.timer_relocks hfree (by simp) (by simp) rfl ?_
      rw [hrx]
      rfl
    | _ => exact absurd rfl hquiet

theorem State.inv_stepTimer {s : State} (h : s.Inv) (c : Bool)
    (hok : ¬ s.Replaces (.timer c)) : (s.stepTimer c).Inv := by
  obtain ⟨shared, receiver, timer⟩ := s
  cases timer with
  | idle =>
    simp only [stepTimer]
    by_cases havailable : shared.timerLock.available .timer = true
    · rw [if_pos havailable]
      cases c
      · exact h.timer_waits (by simp) (by simp) rfl rfl
      · exact h.timer_waits (by simp) (by simp) rfl rfl
    · rw [if_neg havailable]
      exact h
  | deleteRequest =>
    refine h.timer_deletes ?_
    intro a ha
    exact hok ⟨rfl, a, ha⟩
  | storeRequest => exact h.timer_stores
  | lockDeferred =>
    simp only [stepTimer]
    by_cases havailable : shared.rxLock.available .timer = true
    · rw [if_pos havailable]
      cases hstored : shared.followUpStored with
      | false => exact h.timer_waits (by simp) (by simp) rfl rfl
      | true =>
        have hrx := h.rxLock
        have hfree : receiver.locked = false := by
          by_contra hlocked
          simp only [Bool.not_eq_false] at hlocked
          simp only [rxHolder, hlocked, if_true] at hrx
          simp [hrx] at havailable
        simp only [rxHolder, hfree] at hrx
        refine h.timer_relocks hfree (by simp) (by simp) rfl ?_
        rw [hrx]
        rfl
    · rw [if_neg havailable]
      exact h
  | deferred place => exact h.timer_defers c
  | finishDeferred garbage =>
    obtain ⟨hfree, hrx⟩ := h.receiver_free rfl
    refine h.timer_relocks hfree (by simp) (by simp) rfl ?_
    rw [hrx]
    rfl
  | leave => exact h.timer_waits (by simp) (by simp) rfl rfl
  | aborted => exact h

end Timer

theorem State.inv_start : State.start.Inv := by
  refine ⟨rfl, fun _ => rfl, ?_, ?_, ?_, ?_, ?_, ?_, ?_, ?_⟩
  · intro t o ho
    cases ho
  all_goals
    intro a ha
    cases ha

theorem State.not_replaces_of_safe {s : State} {m : Move} (h : s.Inv) (hsafe : (s.step m).Safe) :
    ¬ s.Replaces m := by
  obtain ⟨shared, receiver, timer⟩ := s
  cases m with
  | timer c =>
    rintro ⟨htimer, a, ha⟩
    dsimp only at htimer ha
    subst htimer
    have hlast := (h.receiver_request a ha).1
    refine hsafe (.request a) ha ?_
    simp [step, stepTimer, show shared.lastPDelayReq = some a from hlast]
  | receiver c =>
    rintro ⟨htimer, hreceiver, hreq, hresp⟩
    dsimp only at htimer hreceiver
    subst htimer hreceiver
    obtain ⟨req, hreq⟩ := isSome_iff_exists.mp hreq
    obtain ⟨resp, hresp⟩ := isSome_iff_exists.mp hresp
    dsimp only at hreq hresp
    have hfreed := (h.request_live req hreq).mpr rfl
    simp only [step, reduceCtorEq, if_false, stepReceiver, Place.step, hreq, hresp] at hsafe
    refine hsafe (.request req) ?_ hfreed
    simp [Receiver.objects, Place.objects]

theorem State.inv_step {s : State} {m : Move} (hok : ¬ s.Replaces m) (h : s.Inv) :
    (s.step m).Inv := by
  simp only [step]
  grind [inv_stepReceiver, inv_stepTimer]

/-- In every interleaving of the two threads, the objects that the receive thread reads
are never freed by the timer thread exactly if the request is never replaced while the
receive thread reads it. -/
theorem State.reads_safe_iff (ms : List Move) :
    (∀ js, js <+: ms → (Runs.run State.step .start js).Safe) ↔
      Runs.Along State.step (fun s m => ¬ s.Replaces m) .start ms :=
  Runs.prefixes_good_iff State.Inv State.Safe (fun _ h => h.safe)
    (fun _ _ hok h => inv_step hok h) (fun _ _ h hsafe => not_replaces_of_safe h hsafe) .start ms
    inv_start

def intervalDuringFollowUp : List Move :=
  [.timer true, .timer true, .timer true, .timer true,
    .receiver false, .receiver true, .receiver true, .receiver true,
    .receiver true, .receiver true, .receiver true,
    .timer true, .receiver true, .timer true]

theorem request_freed_while_read :
    ¬ (Runs.run State.step .start intervalDuringFollowUp).Safe := by
  intro hsafe
  exact hsafe (.request 0) (by decide) (by decide)

end Avb4Linux.Gptp.Threads
