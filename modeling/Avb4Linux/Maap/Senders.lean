import Avb4Linux.Maap.Invariants

/-!
# Senders

A range that takes a slot belongs to whoever reserved it, and a notification goes to the owner of a
range or to whoever gave the command.
-/

namespace Avb4Linux.Maap

open Lib Lib.Fallible Function

variable {σ : Type} {c c' : Client σ} {r : Nat} {P : σ → Prop}

def Ledger.Senders (P : σ → Prop) (v : Ledger σ) : Prop :=
  ∀ a ∈ owners v.slots, P (v.core a).sender

theorem Ledger.Senders.alike {v v' : Ledger σ} (h : v.Senders P) (ha : v.Alike v') :
    v'.Senders P := by
  intro a hmem
  rw [ha.slots] at hmem
  rw [ha.sender a hmem]
  exact h a hmem

theorem update_sender {core : Nat → Core σ} {x : Core σ} (hx : x.sender = (core r).sender)
    (a : Nat) : (Function.update core r x a).sender = (core a).sender := by
  grind

theorem Ledger.kept_senders (P : σ → Prop) : Kept (Ledger.Senders P) := by
  refine ⟨fun ha h => h.alike ha, ?_, ?_, ?_⟩
  · rintro v v' r h ⟨hrem⟩ a ha
    rw [Ledger.setCore, update_sender (by rfl)]
    exact h a ((hrem.owners_perm rfl).mem_iff.mpr (List.mem_cons_of_mem _ ha))
  · rintro v v' r h ⟨-, howner, hhand, hins, hrem, -⟩ a ha
    rw [Ledger.setCore, update_sender (by rfl)]
    have hperm := (hhand.owners_perm howner).trans
      ((hins.owners_perm rfl).symm.trans (List.Perm.of_eq (hrem.owners_none rfl).symm))
    exact h a (hperm.mem_iff.mpr ha)
  · rintro v v' r hh h ⟨hold, howner, hins, hrem, -⟩ a ha
    rw [Ledger.setCore, update_sender (by rfl)]
    have hperm := (hins.owners_perm rfl).symm.trans (hrem.owners_perm howner)
    have hmem := hperm.mem_iff.mpr (List.mem_cons_of_mem _ ha)
    dsimp only
    rcases List.mem_cons.mp hmem with rfl | hmem
    · rw [update_self]
      exact h r (mem_owners.mpr ⟨_, hold, howner⟩)
    · have hne : a ≠ v.fresh := fun heq => hh.fresh_not_owner (heq ▸ hmem)
      rw [update_of_ne hne]
      exact h a hmem

theorem Reserve.senders {v v' : Ledger σ} {sender : σ} {attemptBase n : Nat} {late : Prop}
    (h : v.Senders P) (hh : v.Held) (hsender : P sender)
    (hr : Reserve sender attemptBase n late v v') : v'.Senders P := by
  have hwaste := fun x => h.alike (Ledger.Alike.waste hh x)
  cases hr with
  | refused => exact h
  | failed x => exact hwaste x
  | orphan x isLate inserted =>
    intro a ha
    dsimp only at ha
    rw [inserted.owners_none rfl] at ha
    exact hwaste x a ha
  | placed small fits inserted placement =>
    intro a ha
    dsimp only at ha ⊢
    rcases List.mem_cons.mp ((inserted.owners_perm rfl).mem_iff.mp ha) with rfl | hmem
    · rw [update_self]
      exact hsender
    · have hne : a ≠ v.fresh := fun heq => hh.fresh_not_owner (heq ▸ hmem)
      rw [update_of_ne hne]
      exact h a hmem

def Client.Tells (P : σ → Prop) (c c' : Client σ) : Prop :=
  ∃ new, c'.notifies = c.notifies ++ new ∧ ∀ x ∈ new, P x.1

theorem Client.Tells.trans {c₁ c₂ c₃ : Client σ} (h : c₁.Tells P c₂) (h' : c₂.Tells P c₃) :
    c₁.Tells P c₃ := by
  obtain ⟨new, hnew, hP⟩ := h
  obtain ⟨new', hnew', hP'⟩ := h'
  refine ⟨new ++ new', by rw [hnew', hnew, List.append_assoc], fun x hx => ?_⟩
  exact (List.mem_append.mp hx).elim (hP x) (hP' x)

theorem Client.tells_addNotify (c : Client σ) {sender : σ} (hsender : P sender) (note : Notify) :
    c.Tells P (c.addNotify sender note) := by
  refine ⟨[(sender, note)], rfl, fun x hx => ?_⟩
  rw [List.mem_singleton.mp hx]
  exact hsender

structure Client.Silent (c c' : Client σ) : Prop where
  notifies : c'.notifies = c.notifies
  sender : ∀ a, (c'.mem a).sender = (c.mem a).sender

theorem Client.Silent.refl (c : Client σ) : c.Silent c :=
  ⟨rfl, fun _ => rfl⟩

theorem Client.Silent.trans {c₁ c₂ c₃ : Client σ} (h : c₁.Silent c₂) (h' : c₂.Silent c₃) :
    c₁.Silent c₃ :=
  ⟨h'.notifies.trans h.notifies, fun a => (h'.sender a).trans (h.sender a)⟩

theorem Client.Silent.tells (h : c.Silent c') : c.Tells P c' :=
  ⟨[], by rw [h.notifies, List.append_nil], by simp⟩

theorem Client.silent_setRange (c : Client σ) {f : Range σ → Range σ}
    (hf : (f (c.mem r)).sender = (c.mem r).sender) : c.Silent (c.setRange r f) := by
  refine ⟨rfl, fun a => ?_⟩
  by_cases ha : a = r
  · subst ha
    simp [setRange, hf]
  · simp [setRange, ha]

theorem Client.silent_scheduleTimer (c : Client σ) (r : Nat) : c.Silent (c.scheduleTimer r) := by
  obtain ⟨t, rnd, clock, heq⟩ := c.scheduleTimer_eq r
  rw [heq]
  have hset := c.silent_setRange (r := r) (f := fun x => { x with nextActTime := t }) rfl
  exact ⟨rfl, hset.sender⟩

theorem Client.silent_sendPacket (c : Client σ) (p : Packet) : c.Silent (c.sendPacket p) :=
  ⟨rfl, fun _ => rfl⟩

theorem Client.silent_scheduled (c : Client σ) (r : Nat) (p : Packet) :
    c.Silent ((c.scheduleTimer r).sendPacket p) :=
  (c.silent_scheduleTimer r).trans (Client.silent_sendPacket _ p)

theorem Client.silent_startTimer (c : Client σ) : c.Silent c.startTimer := by
  unfold startTimer
  split
  · exact .refl c
  · split <;> exact ⟨rfl, fun _ => rfl⟩

theorem Client.silent_assignInterval {attemptBase len : Nat} {found : Bool}
    (h : c.assignInterval r attemptBase len = .ok (c', found)) : c.Silent c' := by
  obtain ⟨-, iv, t, k, -, -, rfl⟩ | ⟨-, k, rfl⟩ | ⟨-, -, iv, t, -, -, rfl⟩ :=
    assignInterval_cases h
  · have hset := (c.inserted t k).silent_setRange (r := r)
      (f := fun x => { x with interval := some iv.addr }) rfl
    exact ⟨rfl, hset.sender⟩
  · exact ⟨rfl, fun _ => rfl⟩
  · exact ⟨rfl, fun _ => rfl⟩

theorem fixIntervals_sender {old : Option Nat} {l : List Node} {mem mem' : Nat → Range σ}
    (h : fixIntervals old l mem = .ok mem') (a : Nat) : (mem' a).sender = (mem a).sender := by
  induction l generalizing mem with
  | nil =>
    cases h
    rfl
  | cons n l ih =>
    rw [fixIntervals] at h
    grind

theorem Client.silent_removeRangeInterval {a : Nat} (h : c.removeRangeInterval a = .ok c') :
    c.Silent c' := by
  unfold removeRangeInterval at h
  split at h
  · cases h
  · split at h
    · cases h
    · obtain ⟨mem, hfix, h⟩ := bind_eq_ok.mp h
      cases h
      exact ⟨rfl, fixIntervals_sender hfix⟩

theorem Client.silent_dropRange {a : Nat} (h : c.dropRange a r = .ok c') : c.Silent c' := by
  obtain ⟨c₁, hremove, h⟩ := bind_eq_ok.mp h
  cases h
  exact (silent_removeRangeInterval hremove).trans (c₁.silent_setRange rfl)

theorem Client.tells_relocate {n : Node} (hr : P (c.mem r).sender)
    (hok : c.relocate n r = .ok c') : c.Tells P c' := by
  obtain ⟨⟨c₁, found⟩, hassign, hok⟩ := bind_eq_ok.mp hok
  have hdisown : c.Silent (c.disown n.addr) := ⟨rfl, fun _ => rfl⟩
  have hsilent := hdisown.trans (silent_assignInterval hassign)
  have hr₁ : P (c₁.mem r).sender := by
    rw [hsilent.sender]
    exact hr
  refine hsilent.tells.trans ?_
  dsimp only at hok
  split at hok
  · obtain ⟨c₂, hremove, hok⟩ := bind_eq_ok.mp hok
    cases hok
    have hset := c₂.silent_setRange (r := r)
      (f := fun x => { x with counter := maapProbeRetransmits }) rfl
    have hremoved := (silent_removeRangeInterval hremove).trans hset
    exact (c₁.tells_addNotify hr₁ _).trans (hremoved.trans (silent_scheduled _ r _)).tells
  · exact (c₁.tells_addNotify hr₁ _).trans (silent_dropRange hok).tells

theorem Client.tells_yieldInterval {n : Node} {oom : Bool} (hr : P (c.mem r).sender)
    (hok : c.yieldInterval n r oom = .ok c') : c.Tells P c' := by
  unfold yieldInterval at hok
  dsimp only at hok
  split at hok
  · exact (c.tells_addNotify hr _).trans (silent_dropRange hok).tells
  · obtain ⟨⟨c₁, found⟩, hassign, hok⟩ := bind_eq_ok.mp hok
    have hsilent := silent_assignInterval hassign
    have hnotifies : c₁.notifies = c.notifies := hsilent.notifies
    have htells : c.Tells P c₁ := ⟨[], by rw [hnotifies, List.append_nil], by simp⟩
    have hnew : (c₁.mem c.nextRange).sender = (c.mem r).sender := by
      rw [hsilent.sender]
      simp [newRange, freshRange]
    refine htells.trans ?_
    dsimp only at hok
    split at hok
    · have hprobe : c₁.Silent ((c₁.scheduleTimer c.nextRange).sendProbe c.nextRange) :=
        c₁.silent_scheduled c.nextRange _
      have hnew₂ : P (((c₁.scheduleTimer c.nextRange).sendProbe c.nextRange).mem
          c.nextRange).sender := by
        rw [hprobe.sender, hnew]
        exact hr
      refine hprobe.tells.trans (Client.Tells.trans ?_ (silent_dropRange hok).tells)
      exact (tells_addNotify _ hr _).trans (tells_addNotify _ hnew₂ _)
    · exact (c₁.tells_addNotify hr _).trans (silent_dropRange hok).tells

theorem Client.tells_resolve {p : Packet} {oom : Bool} {n : Node} (hr : P (c.mem r).sender)
    (hok : c.resolve p oom n r = .ok c') : c.Tells P c' := by
  have hkept : c.Tells P c := (Client.Silent.refl c).tells
  unfold resolve at hok
  split at hok
  · grind [tells_relocate]
  · split at hok
    · cases hok
      exact (c.silent_sendPacket _).tells
    · grind [tells_yieldInterval]
  · cases hok
    exact hkept

theorem Client.Sound.sender_of_live (h : c.Sound) (hranges : c.ledger.Senders P)
    (hr : r ∈ c.queue) (hlive : (c.mem r).state ≠ .RELEASED) : P (c.mem r).sender :=
  hranges r ((h.held.owned r).mpr ⟨hr, hlive⟩)

theorem Client.tells_resolveLoop {p : Packet} {oom : Bool} {start k : Nat} (h : c.Sound)
    (hranges : c.ledger.Senders P) (hok : c.resolveLoop p oom start k = .ok c') :
    c.Tells P c' := by
  induction k generalizing c with
  | zero =>
    cases hok
    exact (Client.Silent.refl _).tells
  | succ k ih =>
    obtain ⟨⟨n, r⟩, hfind, hok⟩ := bind_eq_ok.mp hok
    obtain ⟨c₁, hres, hok⟩ := bind_eq_ok.mp hok
    obtain ⟨hmem, hdata, -⟩ := findFlagged_spec hfind
    have hn := Tree.nodesFrom_subset hmem
    obtain ⟨-, hqueue, hlive⟩ := h.owner_of_node hn hdata
    have hsilent := c.silent_setRange (r := r) (f := fun x => { x with overlapping := false }) rfl
    obtain ⟨hflag, hledger⟩ := h.flag (r := r) false
    obtain ⟨hsound, hresolves⟩ := resolve_spec hflag hn hdata hres
    have hranges₁ : c₁.ledger.Senders P := by
      refine (Ledger.kept_senders P).resolves hflag.held ?_ hresolves
      rw [hledger]
      exact hranges.alike (.setCore rfl rfl)
    have hsender : P ((c.setRange r fun x => { x with overlapping := false }).mem r).sender := by
      rw [hsilent.sender]
      exact h.sender_of_live hranges hqueue hlive
    exact (hsilent.tells.trans (tells_resolve hsender hres)).trans (ih hsound hranges₁ hok)

theorem Client.tells_handlePacket {stream : List UInt8} {oom : Bool} (h : c.Sound)
    (hranges : c.ledger.Senders P) (hok : c.handlePacket stream oom = .ok c') :
    c.Tells P c' := by
  have hkept : c.Tells P c := (Client.Silent.refl c).tells
  unfold handlePacket at hok
  split at hok
  · cases hok
    exact hkept
  · split at hok
    · unfold handleValid at hok
      dsimp only at hok
      split at hok
      · cases hok
        exact hkept
      · obtain ⟨mem, hflag, hok⟩ := bind_eq_ok.mp hok
        obtain ⟨c₁, hloop, hok⟩ := bind_eq_ok.mp hok
        cases hok
        have hlogged : Client.Sound { c with log := c.log ++ [.handled (unpackMaap stream)] } :=
          ⟨h.toWired.congr rfl rfl rfl rfl rfl fun _ => ⟨rfl, rfl⟩, h.held.log _⟩
        obtain ⟨hflagged, hledger, -⟩ := flagOverlaps_spec hlogged hflag
        have hranges₁ : Ledger.Senders P (Client.ledger { c with
            log := c.log ++ [.handled (unpackMaap stream)], mem := mem }) := by
          rw [hledger]
          exact ((Ledger.kept_senders P).flagAll hlogged.held (hranges.alike (.log _)) _).1
        have hloop' := tells_resolveLoop hflagged hranges₁ hloop
        have hstart : c.Tells P { c with
            log := c.log ++ [.handled (unpackMaap stream)], mem := mem } := ⟨[], by simp, by simp⟩
        exact (hstart.trans hloop').trans c₁.silent_startTimer.tells
    · cases hok
      exact hkept

theorem Client.tells_actTimer (h : c.Sound) (hranges : c.ledger.Senders P)
    (hhead : c.timerQueue = some r) : c.Tells P (c.actTimer r) := by
  have hqueue : r ∈ c.queue := (popTimer_spec h.toWired hhead).2.1
  have hpop : c.Silent (c.popTimer r) := ⟨rfl, fun _ => rfl⟩
  unfold actTimer
  cases hstate : (c.mem r).state with
  | RELEASED => exact hpop.tells
  | DEFENDING => exact (hpop.trans (silent_scheduled _ r _)).tells
  | PROBING =>
    have hsender := h.sender_of_live hranges hqueue (by rw [hstate]; decide)
    dsimp only
    unfold handleProbeTimer
    split
    · have hacquire : (c.popTimer r).Tells P ((c.popTimer r).acquire r) :=
        tells_addNotify (c.popTimer r) hsender _
      exact (hpop.tells.trans hacquire).trans (silent_scheduled _ r _).tells
    · have hcount := (c.popTimer r).silent_setRange (r := r)
        (f := fun x => { x with counter := x.counter - 1 }) rfl
      exact (hpop.trans (hcount.trans (silent_scheduled _ r _))).tells

theorem Client.tells_timerLoop (h : c.Sound) (hranges : c.ledger.Senders P) (now : Time)
    (fuel : Nat) : c.Tells P (c.timerLoop now fuel) := by
  induction fuel generalizing c with
  | zero => exact (Client.Silent.refl c).tells
  | succ fuel ih =>
    rw [timerLoop]
    cases hhead : c.timerQueue with
    | none => exact (Client.Silent.refl c).tells
    | some r =>
      dsimp only
      split
      · obtain ⟨hsound, hsteps, -⟩ := actTimer_spec h hhead
        have hranges₁ := (Ledger.kept_senders P).inner_steps h.held hranges (Timed.inner_steps hsteps)
        exact (tells_actTimer h hranges hhead).trans (ih hsound hranges₁)
      · exact (Client.Silent.refl c).tells

theorem Client.tells_handleTimer (h : c.Sound) (hranges : c.ledger.Senders P) :
    c.Tells P c.handleTimer := by
  have hread : c.monotonic.2.Sound :=
    ⟨h.toWired.congr rfl rfl rfl rfl rfl fun _ => ⟨rfl, rfl⟩, h.held⟩
  have hloop := tells_timerLoop hread hranges c.monotonic.1 c.nextRange
  exact hloop.trans (silent_startTimer _).tells

theorem Client.tells_reserve {sender : σ} {base : UInt64} {length : UInt32} {oom : Bool}
    (hsender : P sender) (hok : c.reserve sender base length oom = .ok c') : c.Tells P c' := by
  unfold reserve at hok
  split at hok
  · cases hok
    exact c.tells_addNotify hsender _
  · split at hok
    · cases hok
      exact c.tells_addNotify hsender _
    · split at hok
      · cases hok
        exact c.tells_addNotify hsender _
      · obtain ⟨⟨c₁, found⟩, hassign, hok⟩ := bind_eq_ok.mp hok
        have hsilent := silent_assignInterval hassign
        have hnotifies : c₁.notifies = c.notifies := hsilent.notifies
        have htells : c.Tells P c₁ := ⟨[], by rw [hnotifies, List.append_nil], by simp⟩
        have hnew : P (c₁.mem c.nextRange).sender := by
          rw [hsilent.sender]
          simpa [newRange, freshRange] using hsender
        refine htells.trans ?_
        dsimp only at hok
        split at hok
        · cases hok
          have htimer := (silent_scheduleTimer (c₁.informAcquiring c.nextRange)
            c.nextRange).trans (silent_startTimer _)
          exact (c₁.tells_addNotify hnew _).trans (htimer.trans (silent_sendPacket _ _)).tells
        · cases hok
          exact c₁.tells_addNotify hsender _

theorem Client.tells_release [BEq σ] {sender : σ} {id : UInt32} (h : c.Sound)
    (hranges : c.ledger.Senders P) (hsender : P sender) (hok : c.release sender id = .ok c') :
    c.Tells P c' := by
  unfold release at hok
  split at hok
  · cases hok
    exact c.tells_addNotify hsender _
  · split at hok
    · cases hok
      exact c.tells_addNotify hsender _
    · rename_i r hfind
      have hfound := List.find?_some hfind
      simp only [ne_eq, decide_not, Bool.and_eq_true, decide_eq_true_eq, Bool.not_eq_eq_eq_not,
        Bool.not_true, decide_eq_false_iff_not] at hfound
      have howner := h.sender_of_live hranges (List.mem_of_find?_eq_some hfind) hfound.2
      split at hok
      · cases hok
      · refine Client.Tells.trans ?_ (silent_dropRange hok).tells
        have hone := c.tells_addNotify hsender (c.noteAbout .RELEASED id (some r) .NONE)
        unfold informBoth
        dsimp only
        split
        · exact hone.trans (tells_addNotify _ howner _)
        · exact hone

def Op.sender : Op σ → Option σ
  | .init sender _ _ => some sender
  | .reserve sender _ _ _ => some sender
  | .release sender _ => some sender
  | .status sender _ => some sender
  | .yield sender _ _ => some sender
  | .packet _ _ => none
  | .timer => none

def Client.Initializes (c : Client σ) : Op σ → Prop
  | .init _ _ _ => c.initialized = false
  | _ => False

theorem Client.perform_tells [BEq σ] {op : Op σ} (h : c.Sound) (hranges : c.ledger.Senders P)
    (hsender : ∀ s, op.sender = some s → P s) (hinit : ¬ c.Initializes op)
    (hok : c.perform op = .ok c') : c.Tells P c' := by
  cases op with
  | init sender base len =>
    cases hok
    have hinitialized : c.initialized = true := by simpa [Client.Initializes] using hinit
    unfold init
    rw [if_pos hinitialized]
    exact c.tells_addNotify (hsender sender rfl) _
  | reserve sender base length oom => exact tells_reserve (hsender sender rfl) hok
  | release sender id => exact tells_release h hranges (hsender sender rfl) hok
  | status sender id =>
    cases hok
    unfold status
    split
    · exact c.tells_addNotify (hsender sender rfl) _
    · split <;> exact c.tells_addNotify (hsender sender rfl) _
  | yield sender id oom =>
    have hyield : c.yield sender id oom = .ok c' := hok
    unfold yield at hyield
    split at hyield
    · cases hyield
      exact c.tells_addNotify (hsender sender rfl) _
    · split at hyield
      · cases hyield
        exact c.tells_addNotify (hsender sender rfl) _
      · exact tells_handlePacket h hranges hyield
  | packet stream oom => exact tells_handlePacket h hranges hok
  | timer =>
    cases hok
    exact tells_handleTimer h hranges

structure Client.AllSenders (P : σ → Prop) (c : Client σ) : Prop where
  ranges : c.ledger.Senders P
  notes : ∀ x ∈ c.notifies, P x.1

theorem Client.perform_senders [BEq σ] {op : Op σ} (h : c.Sound) (hall : c.AllSenders P)
    (hsender : ∀ s, op.sender = some s → P s) (hok : c.perform op = .ok c') :
    c'.AllSenders P := by
  obtain ⟨-, hfollows⟩ := perform_spec h hok
  refine ⟨?_, fun x hx => ?_⟩
  · refine (Ledger.kept_senders P).follows h.held hall.ranges hfollows ?_ ?_
    · intro base len a ha
      cases ha
    · rintro sender base length oom rfl - hreserve
      exact hreserve.senders hall.ranges h.held (hsender sender rfl)
  · by_cases hinit : c.Initializes op
    · cases op with
      | init sender base len =>
        cases hok
        have hfalse : c.initialized = false := hinit
        rw [init, if_neg (by simp [hfalse])] at hx
        rw [List.mem_singleton.mp hx]
        exact hsender sender rfl
      | _ => cases hinit
    · obtain ⟨new, hnew, hP⟩ := perform_tells h hall.ranges hsender hinit hok
      rw [hnew] at hx
      exact (List.mem_append.mp hx).elim (hall.notes x) (hP x)

end Avb4Linux.Maap
