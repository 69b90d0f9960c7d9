import Avb4Linux.Gptp.Port
import Avb4Linux.Lib.Runs
import Mathlib.Data.List.Nodup

/-!
# The timer queue

`LinuxTimerQueue` in `linux_hal_common.cpp` and the event timers of `ieee1588clock.cpp`.
-/

namespace Avb4Linux.Gptp

open Lib.Runs

structure ActionArg (α : Type) where
  timerHandle : Nat
  innerArg : α
  type : Int

structure OsTimer where
  handle : Nat
  sivalInt : UInt32
  expires : Nat

structure Signal where
  sivalInt : UInt32
  handle : Nat
  deriving DecidableEq

inductive Record where
  | added (handle now delay : Nat)
  | ran (handle now : Nat)
  | cancelled (handle : Nat)
  deriving DecidableEq

structure TimerQueue (α : Type) where
  timerQueueMap : List (UInt32 × ActionArg α) := []
  key : UInt32 := 0
  timers : List OsTimer := []
  signals : List Signal := []
  received : Option Signal := none
  running : Option (ActionArg α) := none
  now : Nat := 0
  nextHandle : Nat := 0
  log : List Record := []

namespace TimerQueue

variable {α : Type}

def findKey (used : List UInt32) : Nat → UInt32 → Option UInt32
  | 0, _ => none
  | fuel + 1, key => if key ∈ used then findKey used fuel (key + 1) else some key

def keys (q : TimerQueue α) : List UInt32 :=
  q.timerQueueMap.map Prod.fst

/-- `addEvent`; the results of `timer_create` and of `timer_settime` are inputs. A timer
that is set to zero is not armed. -/
def addEvent (micros : Nat) (type : Int) (arg : α) (created set : Bool) (q : TimerQueue α) :
    TimerQueue α :=
  match findKey q.keys (q.timerQueueMap.length + 1) q.key with
  | none => q
  | some key =>
    if created then
      { q with
        key := key
        timerQueueMap := (key, ⟨q.nextHandle, arg, type⟩) :: q.timerQueueMap
        timers :=
          if set && micros ≠ 0 then ⟨q.nextHandle, key, q.now + micros * 1000⟩ :: q.timers
          else q.timers
        nextHandle := q.nextHandle + 1
        log := q.log ++ [.added q.nextHandle q.now (micros * 1000)] }
    else { q with key := key }

def ofType (type : Int) (q : TimerQueue α) : List (UInt32 × ActionArg α) :=
  q.timerQueueMap.filter fun x => x.2.type = type

def cancelEvent (type : Int) (q : TimerQueue α) : TimerQueue α :=
  { q with
    timerQueueMap := q.timerQueueMap.filter fun x => x.2.type ≠ type
    timers := q.timers.filter fun t => t.handle ∉ (q.ofType type).map fun x => x.2.timerHandle
    log := q.log ++ (q.ofType type).map fun x => .cancelled x.2.timerHandle }

def expire (handle : Nat) (q : TimerQueue α) : TimerQueue α :=
  match q.timers.find? fun t => t.handle = handle && t.expires ≤ q.now with
  | none => q
  | some t =>
    { q with
      timers := q.timers.filter fun t => t.handle ≠ handle
      signals := q.signals ++ [⟨t.sivalInt, handle⟩] }

def receive (i : Nat) (q : TimerQueue α) : TimerQueue α :=
  if q.received.isNone && q.running.isNone then
    match q.signals[i]? with
    | none => q
    | some s => { q with signals := q.signals.eraseIdx i, received := some s }
  else q

def handle (q : TimerQueue α) : TimerQueue α :=
  match q.received with
  | none => q
  | some s =>
    match q.timerQueueMap.find? fun x => x.1 = s.sivalInt with
    | none => { q with received := none }
    | some x =>
      { q with
        received := none
        timerQueueMap := q.timerQueueMap.filter fun y => y.1 ≠ x.1
        running := some x.2
        log := q.log ++ [.ran x.2.timerHandle q.now] }

def finish (q : TimerQueue α) : TimerQueue α :=
  match q.running with
  | none => q
  | some arg =>
    { q with
      running := none
      timers := q.timers.filter fun t => t.handle ≠ arg.timerHandle }

inductive Move (α : Type) where
  | wait (ns : Nat)
  | addEvent (micros : Nat) (type : Int) (arg : α) (created set : Bool)
  | cancelEvent (type : Int)
  | expire (handle : Nat)
  | lose (i : Nat)
  | receive (i : Nat)
  | handle
  | finish

def step (q : TimerQueue α) : Move α → TimerQueue α
  | .wait ns => { q with now := q.now + ns }
  | .addEvent micros type arg created set => q.addEvent micros type arg created set
  | .cancelEvent type => q.cancelEvent type
  | .expire handle => q.expire handle
  | .lose i => { q with signals := q.signals.eraseIdx i }
  | .receive i => q.receive i
  | .handle => q.handle
  | .finish => q.finish

end TimerQueue

/-- What may happen to an event after what has happened: its handler runs if it has been
added long enough ago, and has neither run nor been cancelled. -/
def Record.Fine (before : List Record) : Record → Prop
  | .ran handle now => (∀ t, .ran handle t ∉ before) ∧ .cancelled handle ∉ before ∧
      ∃ t delay, .added handle t delay ∈ before ∧ t + delay ≤ now
  | _ => True

def RightLog (log : List Record) : Prop :=
  ∀ before r after, log = before ++ r :: after → r.Fine before

theorem RightLog.snoc {log : List Record} {r : Record} (h : RightLog log) (hr : r.Fine log) :
    RightLog (log ++ [r]) := by
  intro before x after heq
  rcases List.eq_nil_or_concat after with rfl | ⟨rest, last, rfl⟩
  · simp_all
  · have hsplit : log ++ [r] = (before ++ x :: rest) ++ [last] := by simpa using heq
    exact h before x rest (List.append_inj' hsplit rfl).1

theorem RightLog.append_cancelled {log : List Record} (h : RightLog log) (handles : List Nat) :
    RightLog (log ++ handles.map .cancelled) := by
  induction handles generalizing log with
  | nil => simpa using h
  | cons a handles ih =>
    have hnext := ih (h.snoc (r := .cancelled a) trivial)
    simpa using hnext

namespace TimerQueue

variable {α : Type} {q : TimerQueue α}

def Pending (q : TimerQueue α) (s : Signal) : Prop :=
  s ∈ q.signals ∨ q.received = some s

/-- When an event is added, every signal that has not been handled belongs to an event that
is still pending. -/
def NoStale (q : TimerQueue α) : Move α → Prop
  | .addEvent _ _ _ _ _ => ∀ s, q.Pending s → s.sivalInt ∈ q.keys
  | _ => True

structure Inv (q : TimerQueue α) : Prop where
  keys : q.keys.Nodup
  handles : (q.timerQueueMap.map fun x => x.2.timerHandle).Nodup
  notRan : ∀ x ∈ q.timerQueueMap, ∀ t, .ran x.2.timerHandle t ∉ q.log
  notCancelled : ∀ x ∈ q.timerQueueMap, .cancelled x.2.timerHandle ∉ q.log
  armed : ∀ t ∈ q.timers, ∃ x ∈ q.timerQueueMap, x.1 = t.sivalInt ∧ x.2.timerHandle = t.handle
  times : ∀ t ∈ q.timers, ∃ now delay, .added t.handle now delay ∈ q.log ∧ now + delay = t.expires
  due : ∀ s, q.Pending s → ∃ now delay, .added s.handle now delay ∈ q.log ∧ now + delay ≤ q.now
  fired : ∀ s, q.Pending s → ∀ t ∈ q.timers, t.handle ≠ s.handle
  means : ∀ s, q.Pending s → ∀ x ∈ q.timerQueueMap, x.1 = s.sivalInt → x.2.timerHandle = s.handle
  mapBelow : ∀ x ∈ q.timerQueueMap, x.2.timerHandle < q.nextHandle
  signalBelow : ∀ s, q.Pending s → s.handle < q.nextHandle
  logBelow : ∀ h, (∃ t, .ran h t ∈ q.log) ∨ .cancelled h ∈ q.log → h < q.nextHandle
  right : RightLog q.log

theorem findKey_free {used : List UInt32} {fuel : Nat} {start key : UInt32}
    (h : findKey used fuel start = some key) : key ∉ used := by
  induction fuel generalizing start with
  | zero => cases h
  | succ fuel ih =>
    rw [findKey] at h
    grind

theorem Inv.shrink (h : q.Inv) {q' : TimerQueue α} (hmap : q'.timerQueueMap = q.timerQueueMap)
    (htimers : ∀ t ∈ q'.timers, t ∈ q.timers) (hpending : ∀ s, q'.Pending s → q.Pending s)
    (hnow : q.now ≤ q'.now) (hnext : q'.nextHandle = q.nextHandle) (hlog : q'.log = q.log) :
    q'.Inv := by
  constructor
  · rw [TimerQueue.keys, hmap]
    exact h.keys
  · rw [hmap]
    exact h.handles
  · rw [hmap, hlog]
    exact h.notRan
  · rw [hmap, hlog]
    exact h.notCancelled
  · rw [hmap]
    exact fun t ht => h.armed t (htimers t ht)
  · rw [hlog]
    exact fun t ht => h.times t (htimers t ht)
  · rw [hlog]
    intro s hs
    obtain ⟨now, delay, hadded, hle⟩ := h.due s (hpending s hs)
    exact ⟨now, delay, hadded, Nat.le_trans hle hnow⟩
  · exact fun s hs t ht => h.fired s (hpending s hs) t (htimers t ht)
  · rw [hmap]
    exact fun s hs => h.means s (hpending s hs)
  · rw [hmap, hnext]
    exact h.mapBelow
  · rw [hnext]
    exact fun s hs => h.signalBelow s (hpending s hs)
  · rw [hlog, hnext]
    exact h.logBelow
  · rw [hlog]
    exact h.right

theorem Inv.addEvent (h : q.Inv) (hstale : ∀ s, q.Pending s → s.sivalInt ∈ q.keys) (micros : Nat)
    (type : Int) (arg : α) (created set : Bool) : (q.addEvent micros type arg created set).Inv := by
  unfold TimerQueue.addEvent
  split
  · exact h
  · rename_i key hkey
    have hfree := findKey_free hkey
    split
    swap
    · exact h.shrink rfl (fun _ ht => ht) (fun _ hs => hs) (Nat.le_refl _) rfl rfl
    · have htimers : ∀ t ∈ (if set && micros ≠ 0 then
          (⟨q.nextHandle, key, q.now + micros * 1000⟩ : OsTimer) :: q.timers else q.timers),
          t = ⟨q.nextHandle, key, q.now + micros * 1000⟩ ∨ t ∈ q.timers := by
        grind
      have hlogged : ∀ h' now delay, .added h' now delay ∈ q.log → .added h' now delay ∈
          q.log ++ [.added q.nextHandle q.now (micros * 1000)] :=
        fun _ _ _ hmem => List.mem_append_left _ hmem
      constructor
      · exact List.nodup_cons.mpr ⟨hfree, h.keys⟩
      · refine List.nodup_cons.mpr ⟨fun hmem => ?_, h.handles⟩
        obtain ⟨x, hx, heq⟩ := List.mem_map.mp hmem
        have hlt := h.mapBelow x hx
        dsimp only at heq
        omega
      · intro x hx t hmem
        have hold : .ran x.2.timerHandle t ∈ q.log := by simpa using hmem
        rcases List.mem_cons.mp hx with rfl | hx
        · exact Nat.lt_irrefl _ (h.logBelow _ (.inl ⟨t, hold⟩))
        · exact h.notRan x hx t hold
      · intro x hx hmem
        have hold : .cancelled x.2.timerHandle ∈ q.log := by simpa using hmem
        rcases List.mem_cons.mp hx with rfl | hx
        · exact Nat.lt_irrefl _ (h.logBelow _ (.inr hold))
        · exact h.notCancelled x hx hold
      · intro t ht
        rcases htimers t ht with rfl | ht
        · exact ⟨_, List.mem_cons_self, rfl, rfl⟩
        · obtain ⟨x, hx, hxt⟩ := h.armed t ht
          exact ⟨x, List.mem_cons_of_mem _ hx, hxt⟩
      · grind [times]
      · intro s hs
        obtain ⟨now, delay, hadded, hle⟩ := h.due s hs
        exact ⟨now, delay, hlogged _ _ _ hadded, hle⟩
      · intro s hs t ht
        rcases htimers t ht with rfl | ht
        · exact (Nat.ne_of_lt (h.signalBelow s hs)).symm
        · exact h.fired s hs t ht
      · intro s hs x hx heq
        rcases List.mem_cons.mp hx with rfl | hx
        · -- the key was free, so that no signal carries it
          have hused := hstale s hs
          rw [← heq] at hused
          exact absurd hused hfree
        · exact h.means s hs x hx heq
      · intro x hx
        rcases List.mem_cons.mp hx with rfl | hx
        · exact Nat.lt_succ_self _
        · exact Nat.lt_succ_of_lt (h.mapBelow x hx)
      · exact fun s hs => Nat.lt_succ_of_lt (h.signalBelow s hs)
      · intro a ha
        refine Nat.lt_succ_of_lt (h.logBelow a ?_)
        simpa using ha
      · exact h.right.snoc trivial

theorem Inv.eq_of_key (h : q.Inv) {x y : UInt32 × ActionArg α} (hx : x ∈ q.timerQueueMap)
    (hy : y ∈ q.timerQueueMap) (heq : x.1 = y.1) : x = y :=
  List.inj_on_of_nodup_map h.keys hx hy heq

theorem Inv.eq_of_handle (h : q.Inv) {x y : UInt32 × ActionArg α} (hx : x ∈ q.timerQueueMap)
    (hy : y ∈ q.timerQueueMap) (heq : x.2.timerHandle = y.2.timerHandle) : x = y :=
  List.inj_on_of_nodup_map h.handles hx hy heq

theorem nodup_map_filter {β γ : Type} {f : β → γ} {l : List β} (h : (l.map f).Nodup)
    (p : β → Bool) : ((l.filter p).map f).Nodup :=
  h.sublist (List.filter_sublist.map f)

theorem Inv.cancelEvent (h : q.Inv) (type : Int) : (q.cancelEvent type).Inv := by
  have hkept : ∀ x ∈ (q.cancelEvent type).timerQueueMap, x ∈ q.timerQueueMap ∧ x.2.type ≠ type := by
    intro x hx
    simpa using List.mem_filter.mp hx
  have hran : ∀ a t, .ran a t ∈ (q.cancelEvent type).log → .ran a t ∈ q.log := by
    intro a t hmem
    simpa [TimerQueue.cancelEvent] using hmem
  have hcancelled : ∀ a, .cancelled a ∈ (q.cancelEvent type).log →
      .cancelled a ∈ q.log ∨ ∃ y ∈ q.timerQueueMap, y.2.type = type ∧ y.2.timerHandle = a := by
    intro a hmem
    rcases List.mem_append.mp hmem with hmem | hmem
    · exact .inl hmem
    · obtain ⟨y, hy, heq⟩ := List.mem_map.mp hmem
      obtain ⟨hy, htype⟩ := List.mem_filter.mp hy
      exact .inr ⟨y, hy, by simpa using htype, by simpa using heq⟩
  have hadded : ∀ a now delay, .added a now delay ∈ q.log →
      .added a now delay ∈ (q.cancelEvent type).log := fun _ _ _ => List.mem_append_left _
  constructor
  · exact nodup_map_filter h.keys _
  · exact nodup_map_filter h.handles _
  · intro x hx t hmem
    exact h.notRan x (hkept x hx).1 t (hran _ t hmem)
  · intro x hx hmem
    rcases hcancelled _ hmem with hmem | ⟨y, hy, htype, heq⟩
    · exact h.notCancelled x (hkept x hx).1 hmem
    · obtain rfl := h.eq_of_handle hy (hkept x hx).1 heq
      exact (hkept y hx).2 htype
  · intro t ht
    obtain ⟨ht, hother⟩ := List.mem_filter.mp ht
    obtain ⟨x, hx, hkey, hhandle⟩ := h.armed t ht
    refine ⟨x, List.mem_filter.mpr ⟨hx, ?_⟩, hkey, hhandle⟩
    -- an event of the type would have lost its timer
    grind [ofType]
  · intro t ht
    obtain ⟨now, delay, hmem, heq⟩ := h.times t (List.mem_filter.mp ht).1
    exact ⟨now, delay, hadded _ _ _ hmem, heq⟩
  · intro s hs
    obtain ⟨now, delay, hmem, hle⟩ := h.due s hs
    exact ⟨now, delay, hadded _ _ _ hmem, hle⟩
  · exact fun s hs t ht => h.fired s hs t (List.mem_filter.mp ht).1
  · exact fun s hs x hx => h.means s hs x (hkept x hx).1
  · exact fun x hx => h.mapBelow x (hkept x hx).1
  · exact h.signalBelow
  · rintro a (⟨t, hmem⟩ | hmem)
    · exact h.logBelow a (.inl ⟨t, hran a t hmem⟩)
    · rcases hcancelled a hmem with hmem | ⟨y, hy, -, rfl⟩
      · exact h.logBelow a (.inr hmem)
      · exact h.mapBelow y hy
  · have hright := h.right.append_cancelled ((q.ofType type).map fun x => x.2.timerHandle)
    rw [List.map_map] at hright
    exact hright

theorem Inv.expire (h : q.Inv) (handle : Nat) : (q.expire handle).Inv := by
  unfold TimerQueue.expire
  split
  · exact h
  · rename_i t hfind
    have ht := List.mem_of_find?_eq_some hfind
    have hfound := List.find?_some hfind
    simp only [Bool.and_eq_true, decide_eq_true_eq] at hfound
    obtain ⟨rfl, hexpires⟩ := hfound
    obtain ⟨x, hx, hkey, hhandle⟩ := h.armed t ht
    have hpending : ∀ s : Signal, (s ∈ q.signals ++ [⟨t.sivalInt, t.handle⟩] ∨ q.received = some s) →
        q.Pending s ∨ s = ⟨t.sivalInt, t.handle⟩ := by
      rintro s (hs | hs)
      · rcases List.mem_append.mp hs with hs | hs
        · exact .inl (.inl hs)
        · exact .inr (List.mem_singleton.mp hs)
      · exact .inl (.inr hs)
    have hothers : ∀ u ∈ q.timers.filter fun u => u.handle ≠ t.handle,
        u ∈ q.timers ∧ u.handle ≠ t.handle := by
      intro u hu
      simpa using List.mem_filter.mp hu
    refine ⟨h.keys, h.handles, h.notRan, h.notCancelled, fun u hu => h.armed u (hothers u hu).1,
      fun u hu => h.times u (hothers u hu).1, ?_, ?_, ?_, h.mapBelow, ?_, h.logBelow, h.right⟩
    · intro s hs
      rcases hpending s hs with hs | rfl
      · exact h.due s hs
      · grind [times]
    · intro s hs u hu
      rcases hpending s hs with hs | rfl
      · exact h.fired s hs u (hothers u hu).1
      · exact (hothers u hu).2
    · intro s hs y hy heq
      rcases hpending s hs with hs | rfl
      · exact h.means s hs y hy heq
      · rw [h.eq_of_key hy hx (heq.trans hkey.symm)]
        exact hhandle
    · intro s hs
      rcases hpending s hs with hs | rfl
      · exact h.signalBelow s hs
      · rw [← hhandle]
        exact h.mapBelow x hx

theorem Inv.receive (h : q.Inv) (i : Nat) : (q.receive i).Inv := by
  unfold TimerQueue.receive
  split
  · split
    · exact h
    · rename_i s hs
      refine h.shrink rfl (fun _ ht => ht) ?_ (Nat.le_refl _) rfl rfl
      rintro s' (hs' | hs')
      · exact .inl (List.mem_of_mem_eraseIdx hs')
      · obtain rfl := Option.some.inj hs'
        exact .inl (List.mem_of_getElem? hs)
  · exact h

theorem Inv.handle (h : q.Inv) : q.handle.Inv := by
  unfold TimerQueue.handle
  split
  · exact h
  · rename_i s hs
    have hpending : q.Pending s := .inr hs
    split
    · refine h.shrink rfl (fun _ ht => ht) ?_ (Nat.le_refl _) rfl rfl
      rintro s' (hs' | hs')
      · exact .inl hs'
      · cases hs'
    · rename_i x hfind
      have hx := List.mem_of_find?_eq_some hfind
      have hkey : x.1 = s.sivalInt := by simpa using List.find?_some hfind
      have hhandle := h.means s hpending x hx hkey
      have hkept : ∀ y ∈ q.timerQueueMap.filter fun y => y.1 ≠ x.1,
          y ∈ q.timerQueueMap ∧ y.1 ≠ x.1 := by
        intro y hy
        simpa using List.mem_filter.mp hy
      have hstill : ∀ s' : Signal, (s' ∈ q.signals ∨ none = some s') → q.Pending s' := by
        rintro s' (hs' | hs')
        · exact .inl hs'
        · cases hs'
      have hran : ∀ a t, .ran a t ∈ q.log ++ [.ran x.2.timerHandle q.now] →
          .ran a t ∈ q.log ∨ a = x.2.timerHandle := by
        grind
      have hcancelled : ∀ a, .cancelled a ∈ q.log ++ [.ran x.2.timerHandle q.now] →
          .cancelled a ∈ q.log := by
        intro a hmem
        simpa using hmem
      have hadded : ∀ a now delay, .added a now delay ∈ q.log →
          .added a now delay ∈ q.log ++ [.ran x.2.timerHandle q.now] :=
        fun _ _ _ => List.mem_append_left _
      constructor
      · exact nodup_map_filter h.keys _
      · exact nodup_map_filter h.handles _
      · intro y hy t hmem
        rcases hran _ t hmem with hmem | heq
        · exact h.notRan y (hkept y hy).1 t hmem
        · exact (hkept y hy).2 (congrArg Prod.fst (h.eq_of_handle (hkept y hy).1 hx heq))
      · exact fun y hy hmem => h.notCancelled y (hkept y hy).1 (hcancelled _ hmem)
      · intro t ht
        obtain ⟨y, hy, hykey, hyhandle⟩ := h.armed t ht
        refine ⟨y, List.mem_filter.mpr ⟨hy, ?_⟩, hykey, hyhandle⟩
        -- the timer of the event has fired
        by_contra hsame
        obtain rfl := h.eq_of_key hy hx (by simpa using hsame)
        exact h.fired s hpending t ht (hyhandle.symm.trans hhandle)
      · intro t ht
        obtain ⟨now, delay, hmem, heq⟩ := h.times t ht
        exact ⟨now, delay, hadded _ _ _ hmem, heq⟩
      · intro s' hs'
        obtain ⟨now, delay, hmem, hle⟩ := h.due s' (hstill s' hs')
        exact ⟨now, delay, hadded _ _ _ hmem, hle⟩
      · exact fun s' hs' => h.fired s' (hstill s' hs')
      · exact fun s' hs' y hy => h.means s' (hstill s' hs') y (hkept y hy).1
      · exact fun y hy => h.mapBelow y (hkept y hy).1
      · exact fun s' hs' => h.signalBelow s' (hstill s' hs')
      · rintro a (⟨t, hmem⟩ | hmem)
        · rcases hran a t hmem with hmem | rfl
          · exact h.logBelow a (.inl ⟨t, hmem⟩)
          · exact h.mapBelow x hx
        · exact h.logBelow a (.inr (hcancelled a hmem))
      · obtain ⟨now, delay, hmem, hle⟩ := h.due s hpending
        rw [← hhandle] at hmem
        exact h.right.snoc ⟨h.notRan x hx, h.notCancelled x hx, now, delay, hmem, hle⟩

theorem Inv.step (h : q.Inv) {m : Move α} (hstale : q.NoStale m) : (q.step m).Inv := by
  cases m with
  | wait ns => exact h.shrink rfl (fun _ ht => ht) (fun _ hs => hs) (Nat.le_add_right _ _) rfl rfl
  | addEvent micros type arg created set => exact h.addEvent hstale micros type arg created set
  | cancelEvent type => exact h.cancelEvent type
  | expire handle => exact h.expire handle
  | lose i =>
    refine h.shrink rfl (fun _ ht => ht) ?_ (Nat.le_refl _) rfl rfl
    exact fun s hs => hs.imp_left List.mem_of_mem_eraseIdx
  | receive i => exact h.receive i
  | handle => exact h.handle
  | finish =>
    unfold TimerQueue.step TimerQueue.finish
    dsimp only
    split
    · exact h
    · exact h.shrink rfl (fun _ ht => (List.mem_filter.mp ht).1) (fun _ hs => hs) (Nat.le_refl _)
        rfl rfl

theorem inv_empty : (({} : TimerQueue α)).Inv := by
  constructor
  case right =>
    intro before r after heq
    cases before <;> cases heq
  all_goals simp [TimerQueue.keys, Pending]

/-- In every run in which no event is added while the signal of an event that is gone is
pending, every handler runs at most once, not before its time and not after the event has
been cancelled. -/
theorem handlers_right {ms : List (Move α)} (h : Along step NoStale ({} : TimerQueue α) ms) :
    RightLog (run step ({} : TimerQueue α) ms).log := by
  have hinv : (run step ({} : TimerQueue α) ms).Inv :=
    run_invariant (fun _ _ hstale hq => hq.step hstale) _ _ inv_empty h
  exact hinv.right

def oneEvent : List (Move Unit) :=
  [.addEvent 1000 17 () true true, .wait 1000000, .expire 0, .receive 0, .handle, .finish]

theorem oneEvent_right : (run step {} oneEvent).log = [.added 0 0 1000000, .ran 0 1000000] ∧
    RightLog (run step {} oneEvent).log := by
  refine ⟨by decide, handlers_right ⟨?_, trivial, trivial, trivial, trivial, trivial, trivial⟩⟩
  rintro s (hs | hs)
  · cases hs
  · cases hs

/-- An event is cancelled when its signal is already pending, and another one is added,
which is due four milliseconds later. -/
def reusedKey : List (Move Unit) :=
  [.addEvent 1000 17 () true true, .wait 1000000, .expire 0, .cancelEvent 17,
    .addEvent 5000 11 () true true, .receive 0, .handle]

theorem reusedKey_early : (run step {} reusedKey).log =
      [.added 0 0 1000000, .cancelled 0, .added 1 1000000 5000000, .ran 1 1000000] ∧
    ¬ RightLog (run step {} reusedKey).log := by
  have hlog : (run step {} reusedKey).log =
      [.added 0 0 1000000, .cancelled 0, .added 1 1000000 5000000, .ran 1 1000000] := by decide
  refine ⟨hlog, fun hright => ?_⟩
  obtain ⟨-, -, t, delay, hadded, hle⟩ := hright
    [.added 0 0 1000000, .cancelled 0, .added 1 1000000 5000000] (.ran 1 1000000) [] hlog
  simp at hadded
  omega

end TimerQueue

structure EventDescriptor (π : Type) where
  port : π
  event : Event

def Event.toInt : Event → Int
  | .POWERUP => 5
  | .INITIALIZE => 6
  | .LINKUP => 7
  | .LINKDOWN => 8
  | .STATE_CHANGE_EVENT => 9
  | .SYNC_INTERVAL_TIMEOUT_EXPIRES => 10
  | .PDELAY_INTERVAL_TIMEOUT_EXPIRES => 11
  | .SYNC_RECEIPT_TIMEOUT_EXPIRES => 12
  | .ANNOUNCE_RECEIPT_TIMEOUT_EXPIRES => 14
  | .ANNOUNCE_INTERVAL_TIMEOUT_EXPIRES => 15
  | .FAULT_DETECTED => 16
  | .PDELAY_DEFERRED_PROCESSING => 17
  | .PDELAY_RESP_RECEIPT_TIMEOUT_EXPIRES => 18
  | .PDELAY_RESP_PEER_MISBEHAVING_TIMEOUT_EXPIRES => 19
  | .SYNC_RATE_INTERVAL_TIMEOUT_EXPIRED => 20

theorem Event.toInt_injective {a b : Event} (h : a.toInt = b.toInt) : a = b := by
  cases a <;> cases b <;> first | rfl | (exact absurd h (by decide))

namespace TimerQueue

def Move.Typed {π : Type} : Move (EventDescriptor π) → Prop
  | .addEvent _ type arg _ _ => type = arg.event.toInt
  | _ => True

theorem mem_step {α : Type} {q : TimerQueue α} {m : Move α} {x : UInt32 × ActionArg α}
    (h : x ∈ (q.step m).timerQueueMap) :
    x ∈ q.timerQueueMap ∨ ∃ micros created set,
      m = .addEvent micros x.2.type x.2.innerArg created set := by
  cases m with
  | addEvent micros type arg created set =>
    grind [step, addEvent]
  | cancelEvent type => exact .inl (List.mem_filter.mp h).1
  | handle =>
    dsimp only [TimerQueue.step, TimerQueue.handle] at h
    grind
  | expire handle =>
    grind [step, expire]
  | receive i =>
    dsimp only [TimerQueue.step, TimerQueue.receive] at h
    grind
  | finish =>
    grind [step, finish]
  | wait ns => exact .inl h
  | lose i => exact .inl h

end TimerQueue

structure EventTimers (π : Type) where
  timerq : TimerQueue (EventDescriptor π)
  typed : ∀ x ∈ timerq.timerQueueMap, x.2.type = x.2.innerArg.event.toInt

namespace EventTimers

variable {π : Type}

def step (c : EventTimers π) (m : TimerQueue.Move (EventDescriptor π)) (hm : m.Typed) :
    EventTimers π where
  timerq := c.timerq.step m
  typed x hx := by
    rcases TimerQueue.mem_step hx with hold | ⟨micros, created, set, rfl⟩
    · exact c.typed x hold
    · exact hm

def addEventTimer (c : EventTimers π) (target : π) (e : Event) (timeNs : UInt64)
    (created set : Bool) : EventTimers π :=
  c.step (.addEvent (timeNs / 1000).toUInt32.toNat e.toInt ⟨target, e⟩ created set) rfl

def deleteEventTimer (c : EventTimers π) (_target : π) (event : Event) : EventTimers π :=
  c.step (.cancelEvent event.toInt) trivial

def pending (c : EventTimers π) : List (UInt32 × ActionArg (EventDescriptor π)) :=
  c.timerq.timerQueueMap

def DeletesRight (c : EventTimers π) (target : π) (event : Event) : Prop :=
  ∀ x, x ∈ (c.deleteEventTimer target event).pending ↔
    x ∈ c.pending ∧ ¬ (x.2.innerArg.port = target ∧ x.2.innerArg.event = event)

theorem mem_deleteEventTimer {c : EventTimers π} {target : π} {event : Event}
    {x : UInt32 × ActionArg (EventDescriptor π)} :
    x ∈ (c.deleteEventTimer target event).pending ↔
      x ∈ c.pending ∧ x.2.innerArg.event ≠ event := by
  have hmem : x ∈ (c.deleteEventTimer target event).pending ↔
      x ∈ c.pending ∧ x.2.type ≠ event.toInt := by
    simp [deleteEventTimer, pending, step, TimerQueue.step, TimerQueue.cancelEvent]
  rw [hmem]
  refine and_congr_right fun hx => not_congr ?_
  rw [c.typed x hx]
  exact ⟨Event.toInt_injective, congrArg Event.toInt⟩

/-- The timers of a port and an event type are deleted right exactly if no other port has a
pending event of the type. -/
theorem deletesRight_iff (c : EventTimers π) (target : π) (event : Event) :
    c.DeletesRight target event ↔
      ∀ x ∈ c.pending, x.2.innerArg.event = event → x.2.innerArg.port = target := by
  constructor
  · intro hright x hx hevent
    by_contra hother
    have hkept := (hright x).mpr ⟨hx, fun hboth => hother hboth.1⟩
    exact (mem_deleteEventTimer.mp hkept).2 hevent
  · intro hown x
    rw [mem_deleteEventTimer]
    refine and_congr_right fun hx => ⟨fun hne hboth => hne hboth.2, fun hne hevent => ?_⟩
    exact hne ⟨hown x hx hevent, hevent⟩

def twoPorts : EventTimers Nat :=
  let c : EventTimers Nat := ⟨{}, by simp⟩
  (c.addEventTimer 1 .PDELAY_INTERVAL_TIMEOUT_EXPIRES 1000000000 true true).addEventTimer 2
    .PDELAY_INTERVAL_TIMEOUT_EXPIRES 1000000000 true true

theorem twoPorts_loses_timer :
    twoPorts.pending.map (fun x => x.2.innerArg.port) = [2, 1] ∧
      (twoPorts.deleteEventTimer 1 .PDELAY_INTERVAL_TIMEOUT_EXPIRES).pending.length = 0 ∧
      ¬ twoPorts.DeletesRight 1 .PDELAY_INTERVAL_TIMEOUT_EXPIRES := by
  refine ⟨by decide, by decide, fun hright => ?_⟩
  have hkept := (hright (1, ⟨1, ⟨2, .PDELAY_INTERVAL_TIMEOUT_EXPIRES⟩, 11⟩)).mpr
    ⟨List.mem_cons_self, by simp⟩
  cases hkept

end EventTimers

end Avb4Linux.Gptp
