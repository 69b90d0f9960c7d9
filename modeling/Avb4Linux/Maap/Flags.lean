import Avb4Linux.Maap.Reservation

/-!
# The flags of the ranges

`maap_handle_packet` flags the ranges that a packet conflicts with and clears the flags one
after the other, so that no range is flagged between two packets.
-/

namespace Avb4Linux.Maap

open Lib Lib.Fallible

variable {σ : Type} {v v' : Ledger σ} {r : Nat}

def Ledger.FlagsFrom (v v' : Ledger σ) : Prop :=
  ∀ a ∈ v'.members, (v'.core a).overlapping = true →
    a ∈ v.members ∧ (v.core a).overlapping = true

theorem Ledger.FlagsFrom.refl (v : Ledger σ) : v.FlagsFrom v :=
  fun _ ha hflag => ⟨ha, hflag⟩

theorem Ledger.FlagsFrom.setCore {f : Core σ → Core σ} (h : v.FlagsFrom v')
    (hf : ∀ x, (f x).overlapping = x.overlapping) : v.FlagsFrom (v'.setCore r f) := by
  intro a ha hflag
  refine h a ha ?_
  grind [setCore_self, setCore_of_ne]

theorem Ledger.Held.flagsFrom_fresh (hh : v.Held) {x : Core σ} (hx : x.overlapping = false)
    (hcore : v'.core = Function.update v.core v.fresh x)
    (hmembers : v'.members = insert v.fresh v.members) : v.FlagsFrom v' := by
  intro a ha hflag
  rw [hcore] at hflag
  grind

theorem Ledger.Held.flagsFrom_waste (hh : v.Held) (x : Core σ) (hmembers : v'.members = v.members)
    (hcore : v'.core = Function.update v.core v.fresh x) : v.FlagsFrom v' := by
  intro a ha hflag
  rw [hmembers] at ha
  have hne : a ≠ v.fresh := Nat.ne_of_lt (hh.below a ha)
  simp_all

theorem Drop.flagsFrom (hd : Drop r v v') : v.FlagsFrom v' := by
  obtain ⟨-⟩ := hd
  exact Ledger.FlagsFrom.setCore (fun _ ha hflag => ⟨ha, hflag⟩) fun _ => rfl

theorem Move.flagsFrom (hm : Move r v v') : v.FlagsFrom v' := by
  obtain ⟨-⟩ := hm
  exact Ledger.FlagsFrom.setCore (fun _ ha hflag => ⟨ha, hflag⟩) fun _ => rfl

theorem Replace.flagsFrom (hh : v.Held) (hr : Replace r v v') : v.FlagsFrom v' := by
  obtain ⟨-⟩ := hr
  exact Ledger.FlagsFrom.setCore (hh.flagsFrom_fresh rfl rfl rfl) fun _ => rfl

variable {p : Packet} {l rs w : List Nat}

theorem Resolves.flagsFrom (hh : v.Held) (hr : Resolves p r v v') : v.FlagsFrom v' := by
  cases hr with
  | ignore => exact .refl v
  | move loses hm => exact hm.flagsFrom
  | giveUp probing loses hd => exact hd.flagsFrom
  | defend => exact .refl v
  | replace defending claim loses hrep => exact hrep.flagsFrom hh
  | quit defending claim loses same hd =>
    rcases same with rfl | ⟨x, rfl⟩
    · exact hd.flagsFrom
    · intro a ha hflag
      obtain ⟨ha, hflag⟩ := hd.flagsFrom a ha hflag
      have hwaste : v.FlagsFrom { v with
          core := Function.update v.core v.fresh x, fresh := v.fresh + 1 } :=
        hh.flagsFrom_waste x rfl rfl
      exact hwaste a ha hflag

theorem Timed.flagsFrom (ht : Timed v v') : v.FlagsFrom v' := by
  have hlog : ∀ log, v.FlagsFrom { v with log := log } := fun _ => .refl v
  cases ht with
  | queue p => exact hlog _
  | free released => exact fun a ha hflag => ⟨ha.1, hflag⟩
  | tick slot probing counter => exact (hlog _).setCore fun _ => rfl
  | acquire owned probing counter => exact (hlog _).setCore fun _ => rfl

theorem Reserve.flagsFrom {sender : σ} {attemptBase n : Nat} {late : Prop} (hh : v.Held)
    (hr : Reserve sender attemptBase n late v v') : v.FlagsFrom v' := by
  cases hr with
  | refused => exact .refl v
  | failed x => exact hh.flagsFrom_waste x rfl rfl
  | orphan x isLate inserted => exact hh.flagsFrom_waste x rfl rfl
  | placed small fits inserted placement => exact hh.flagsFrom_fresh rfl rfl rfl

def Ledger.Unflagged (v : Ledger σ) : Prop :=
  ∀ a ∈ v.members, (v.core a).overlapping = false

theorem Ledger.Unflagged.of_flagsFrom (h : v.Unflagged) (hf : v.FlagsFrom v') : v'.Unflagged := by
  intro a ha
  refine Bool.eq_false_iff.mpr ?_
  intro hflag
  obtain ⟨ha, hflag⟩ := hf a ha hflag
  rw [h a ha] at hflag
  cases hflag

structure Ledger.Grown (v v' : Ledger σ) (new : List Event) : Prop where
  base : v'.base = v.base
  srcMac : v'.srcMac = v.srcMac
  destMac : v'.destMac = v.destMac
  log : v'.log = v.log ++ new

structure Ledger.Marked (l : List Nat) (v v' : Ledger σ) : Prop where
  slots : v'.slots = v.slots
  members : v'.members = v.members
  grown : v.Grown v' []
  core : ∀ a, v'.core a = { v.core a with overlapping := (v'.core a).overlapping }
  flags : ∀ a, (v'.core a).overlapping = true → (v.core a).overlapping = true ∨ a ∈ l

theorem Ledger.Marked.state (h : v.Marked l v') (a : Nat) :
    (v'.core a).state = (v.core a).state := by
  rw [h.core a]

theorem Ledger.Marked.counter (h : v.Marked l v') (a : Nat) :
    (v'.core a).counter = (v.core a).counter := by
  rw [h.core a]

theorem Ledger.flag_core (v : Ledger σ) (r : Nat) (b : Bool) (a : Nat) :
    (v.flag r b).core a = { v.core a with overlapping := ((v.flag r b).core a).overlapping } ∧
      (((v.flag r b).core a).overlapping = true → (v.core a).overlapping = true ∨ a = r) := by
  unfold Ledger.flag
  by_cases hne : a = r
  · simp_all
  · rw [setCore_of_ne _ hne]
    exact ⟨rfl, .inl⟩

theorem Ledger.marked_flagAll (l : List Nat) (v : Ledger σ) : v.Marked l (v.flagAll l) := by
  induction l generalizing v with
  | nil =>
    exact ⟨rfl, rfl, ⟨rfl, rfl, rfl, (List.append_nil _).symm⟩, fun _ => rfl, fun _ h => .inl h⟩
  | cons r l ih =>
    obtain ⟨hslots, hmembers, hgrown, hcore, hflags⟩ := ih (v.flag r true)
    refine ⟨hslots, hmembers, ⟨hgrown.base, hgrown.srcMac, hgrown.destMac, hgrown.log⟩, ?_, ?_⟩
    · intro a
      have hfirst := (v.flag_core r true a).1
      have hrest := hcore a
      rw [hfirst] at hrest
      exact hrest
    · intro a hflag
      rcases hflags a hflag with hflag | hmem
      · rcases (v.flag_core r true a).2 hflag with hflag | rfl
        · exact .inl hflag
        · exact .inr List.mem_cons_self
      · exact .inr (List.mem_cons_of_mem r hmem)

theorem Ledger.Held.flagAll (h : v.Held) (l : List Nat) : (v.flagAll l).Held := by
  induction l generalizing v with
  | nil => exact h
  | cons r l ih => exact ih (h.setCore Iff.rfl)

theorem Ledger.flagAll_core_of_flagged {a : Nat} (l : List Nat)
    (h : (v.core a).overlapping = true) : ((v.flagAll l).core a).overlapping = true := by
  induction l generalizing v with
  | nil => exact h
  | cons r l ih =>
    refine ih ?_
    grind [flag, setCore_self, setCore_of_ne]

theorem Ledger.flagAll_mem {a : Nat} (h : a ∈ l) : ((v.flagAll l).core a).overlapping = true := by
  induction l generalizing v with
  | nil => cases h
  | cons r l ih =>
    rcases List.mem_cons.mp h with rfl | h
    · refine flagAll_core_of_flagged l ?_
      unfold Ledger.flag
      rw [setCore_self]
    · exact ih h

def Ledger.FlaggedIn (w : List Nat) (v : Ledger σ) : Prop :=
  ∀ a ∈ v.members, (v.core a).overlapping = true → a ∈ w

theorem Ledger.FlaggedIn.resolves (hh : v.Held) (h : v.FlaggedIn w)
    (hr : Resolves p r (v.flag r false) v') : v'.FlaggedIn (w.erase r) := by
  have hcleared : (v.flag r false).Held := hh.setCore Iff.rfl
  intro a ha hflag
  obtain ⟨ha, hflag⟩ := hr.flagsFrom hcleared a ha hflag
  unfold Ledger.flag at hflag
  have hne : a ≠ r := by
    rintro rfl
    rw [setCore_self] at hflag
    cases hflag
  rw [setCore_of_ne _ hne] at hflag
  exact (List.mem_erase_of_ne hne).mpr (h a ha hflag)

theorem Ledger.Marked.flaggedIn {log : List Event} (h : { v with log := log }.Marked l v')
    (hu : v.Unflagged) : v'.FlaggedIn l := by
  intro a ha hflag
  rw [h.members] at ha
  refine (h.flags a hflag).resolve_left ?_
  dsimp only
  rw [hu a ha]
  exact Bool.false_ne_true

theorem length_erase_of_turn (hmem : r ∈ w) (hlen : w.length = (r :: rs).length) :
    (w.erase r).length = rs.length := by
  rw [List.length_erase_of_mem hmem, hlen, List.length_cons, Nat.add_sub_cancel]

theorem ResolvedAll.unflagged (hh : v.Held) (h : v.FlaggedIn w) (hlen : w.length = rs.length)
    (hr : ResolvedAll p rs v v') : v'.Unflagged := by
  induction hr generalizing w with
  | nil =>
    obtain rfl := List.length_eq_zero_iff.mp hlen
    intro a ha
    refine Bool.eq_false_iff.mpr ?_
    intro hflag
    cases h a ha hflag
  | cons marked owned hres hrest ih =>
    have hmem := h _ ((hh.owned _).mp owned).1 marked
    exact ih (hres.held (hh.setCore Iff.rfl)) (h.resolves hh hres) (length_erase_of_turn hmem hlen)

theorem Handled.unflagged (hh : v.Held) (h : v.Unflagged) (hp : Handled p l v v') :
    v'.Unflagged := by
  obtain ⟨rs, hlen, hall⟩ := hp
  have hmarked := Ledger.marked_flagAll l { v with log := v.log ++ [Event.handled p] }
  exact hall.unflagged ((hh.log (v.log ++ [Event.handled p])).flagAll l)
    (hmarked.flaggedIn h) hlen.symm

variable {c c' : Client σ}

theorem Client.Receives.unflagged {stream : List UInt8} (h : c.Sound) (hu : c.ledger.Unflagged)
    (hr : c.Receives stream v') : v'.Unflagged := by
  rcases hr with rfl | ⟨-, hhandled⟩
  · exact hu
  · exact hhandled.unflagged h.held hu

theorem Timed.unflagged_steps (h : v.Unflagged) (hs : Relation.ReflTransGen Timed v v') :
    v'.Unflagged := by
  induction hs with
  | refl => exact h
  | tail hprev ht ih => exact ih.of_flagsFrom ht.flagsFrom

theorem Client.unflagged_perform [BEq σ] {op : Op σ} (h : c.Sound) (hu : c.ledger.Unflagged)
    (hok : c.perform op = .ok c') : c'.ledger.Unflagged := by
  have hfollows := (perform_spec h hok).2
  generalize hv : c'.ledger = v' at hfollows ⊢
  cases op with
  | init sender base len =>
    rcases hfollows with rfl | ⟨-, rfl⟩
    · exact hu
    · intro a ha
      cases ha
  | reserve sender base length oom =>
    rcases hfollows with ⟨-, rfl⟩ | ⟨-, hreserve⟩
    · exact hu
    · exact hu.of_flagsFrom (hreserve.flagsFrom h.held)
  | release sender id =>
    rcases hfollows with rfl | ⟨r, hdrop⟩
    · exact hu
    · exact hu.of_flagsFrom hdrop.flagsFrom
  | status sender id =>
    cases hfollows
    exact hu
  | yield sender id oom =>
    rcases hfollows with rfl | ⟨r, -, -, hreceives⟩
    · exact hu
    · exact hreceives.unflagged h hu
  | packet stream oom => exact Client.Receives.unflagged h hu hfollows
  | timer =>
    have htimer : c.handleTimer = c' := Except.ok.inj hok
    grind [handleTimer_spec, Timed.unflagged_steps]

theorem Client.Initial.unflagged (h : c.Initial) : c.ledger.Unflagged := by
  intro a ha
  have hmem : a ∈ c.queue := ha
  rw [h.queue] at hmem
  cases hmem

end Avb4Linux.Maap
