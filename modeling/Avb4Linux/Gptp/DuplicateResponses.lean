import Avb4Linux.Gptp.PeerDelay

/-!
# Peers that answer twice

Three requests in a row that have two answers halt the requests.
-/

namespace Avb4Linux.Gptp

open Lib List

variable {F : Type}

def Port.watch (p : Port F) : UInt32 × UInt16 := (p.duplicateRespCounter, p.lastInvalidSeqID)

section Functions

variable (s : Station F)

theorem Station.watch_startPDelay : s.startPDelay.port.watch = s.port.watch := by
  unfold startPDelay
  split
  · rfl
  · split <;> rfl

theorem Station.watch_becomeMaster (annc : Bool) :
    (s.becomeMaster annc).port.watch = s.port.watch := by
  rw [(s.becomeMaster_sameBut annc).port]
  rfl

theorem Station.watch_becomeSlave : s.becomeSlave.port.watch = s.port.watch := by
  rw [s.becomeSlave_sameBut.port]
  rfl

theorem Station.watch_recommendState (state : PortState) (changed : Bool) :
    (s.recommendState state changed).port.watch = s.port.watch := by
  unfold recommendState
  dsimp only
  split
  · split
    · rfl
    · exact watch_becomeMaster _ true
  · split
    · split <;> rfl
    · exact watch_becomeSlave _
  · rfl

theorem Station.watch_takeRole : s.takeRole.port.watch = s.port.watch := by
  unfold takeRole
  split
  · exact s.watch_becomeSlave
  · split
    · exact s.watch_becomeMaster true
    · rfl

theorem Station.watch_powerUp : s.powerUp.port.watch = s.port.watch := by
  unfold powerUp
  dsimp only
  split <;> split <;> simp [watch_startPDelay, watch_takeRole]

theorem Station.watch_linkUp : s.linkUp.port.watch = s.port.watch := by
  have hrole : (s.setPort fun p =>
      { p with pdelayHalted := false }).startPDelay.takeRole.port.watch = s.port.watch := by
    rw [watch_takeRole, watch_startPDelay]
    rfl
  unfold linkUp
  dsimp only
  split
  · split <;> exact hrole
  · exact hrole

theorem Station.watch_loseCapability : s.loseCapability.port.watch = s.port.watch := by
  unfold loseCapability
  split <;> rfl

theorem Station.watch_syncDone : s.syncDone.port.watch = s.port.watch := by
  have hstart : ∀ u : Station F, u.port.watch = s.port.watch →
      (if u.port.pdelayStarted then u else u.startPDelay).port.watch = s.port.watch := by
    grind [watch_startPDelay]
  unfold syncDone
  refine hstart _ ?_
  split <;> rfl

theorem Station.watch_processStateChange : s.processStateChange.port.watch = s.port.watch := by
  by_cases h255 : s.clock.priority1 = 255
  · unfold processStateChange System.processStateChange
    rw [if_pos (show s.system.clock.priority1 = 255 from h255)]
    rfl
  · grind [processStateChange_cases, watch_recommendState, setClock_port]

theorem Station.watch_processSyncAnnounceTimeout (e : Event) :
    (s.processSyncAnnounceTimeout e).port.watch = s.port.watch := by
  unfold processSyncAnnounceTimeout awaitAgain
  split
  · rfl
  · split <;> split <;> rfl

theorem Station.watch_processRespFollowUp (ops : RatioOps F) (fup : PathDelayRespFollowUp) :
    (s.processRespFollowUp ops fup).1.port.watch = s.port.watch := by
  have hcase := s.processRespFollowUp_case ops fup
  generalize s.processRespFollowUp ops fup = x at hcase ⊢
  cases hcase with
  | ignored => rfl
  | @dropped u able calm port =>
    change u.port.watch = s.port.watch
    rw [port]
  | deferred => rfl
  | measured =>
    unfold Port.measure
    dsimp only [dropResp, setPort, delete, deleteEventTimer]
    split <;> rfl

theorem Station.watch_processDeferred {ops : RatioOps F} {t : Station F}
    (h : s.processDeferred ops = some t) : t.port.watch = s.port.watch := by
  unfold processDeferred at h
  split at h
  · cases h
  · dsimp only at h
    split at h <;> cases h
    · exact s.watch_processRespFollowUp ops _
    · exact s.watch_processRespFollowUp ops _

theorem Station.watch_processFollowUp (servo : Servo) (m : FollowUp) :
    (s.processFollowUp servo m).1.port.watch = s.port.watch := by
  have hcase := s.processFollowUp_case servo m
  generalize s.processFollowUp servo m = x at hcase ⊢
  cases hcase with
  | ignored => rfl
  | wrong =>
    change (wrongFollowUp _).port.watch = s.port.watch
    unfold wrongFollowUp
    dsimp only
    split
    · rfl
    · exact watch_becomeMaster _ true
  | outdated => rfl
  | taken =>
    change (synchronize servo _).port.watch = s.port.watch
    unfold synchronize
    split
    · rfl
    · split
      · rfl
      · split
        · exact watch_syncDone _
        · rfl

theorem Station.watch_processSignalling (m : Signalling) :
    (s.processSignalling m).1.port.watch = s.port.watch := by
  have hset : ∀ (u : Station F) (interval : Int) (initial : Port F → Int)
      (set : Int → Port F → Port F) (e : Event), (∀ i p, (set i p).watch = p.watch) →
      (u.setInterval interval initial set e).port.watch = u.port.watch := by
    intro u interval initial set e hwatch
    unfold setInterval
    split
    · exact hwatch _ _
    · split
      · rfl
      · exact hwatch _ _
  unfold processSignalling
  dsimp only
  split
  · refine (hset _ _ _ _ _ ?_).trans (hset _ _ _ _ _ ?_) <;> exact fun _ _ => rfl
  · change (setInterval _ _ _ _ _).port.watch = _
    refine (hset _ _ _ _ _ ?_).trans (hset _ _ _ _ _ ?_) <;> exact fun _ _ => rfl

theorem Station.watch_processEvent {ops : RatioOps F} {tx : Option Timestamp} {e : Event}
    {t : Station F} (h : s.processEvent ops tx e = some t) : t.port.watch = s.port.watch := by
  cases e with
  | POWERUP | INITIALIZE =>
    cases h
    exact s.watch_powerUp
  | LINKUP =>
    cases h
    exact s.watch_linkUp
  | LINKDOWN =>
    cases h
    exact s.stopPDelay.watch_loseCapability
  | STATE_CHANGE_EVENT =>
    cases h
    split
    · rfl
    · exact s.watch_processStateChange
  | SYNC_INTERVAL_TIMEOUT_EXPIRES =>
    cases h
    exact s.watch_syncDone
  | PDELAY_INTERVAL_TIMEOUT_EXPIRES | ANNOUNCE_INTERVAL_TIMEOUT_EXPIRES =>
    cases h
    rfl
  | SYNC_RECEIPT_TIMEOUT_EXPIRES | ANNOUNCE_RECEIPT_TIMEOUT_EXPIRES =>
    cases h
    split
    · rfl
    · exact s.watch_processSyncAnnounceTimeout _
  | FAULT_DETECTED =>
    cases h
    exact s.watch_loseCapability
  | PDELAY_DEFERRED_PROCESSING => exact s.watch_processDeferred h
  | PDELAY_RESP_RECEIPT_TIMEOUT_EXPIRES =>
    cases h
    exact s.watch_loseCapability
  | PDELAY_RESP_PEER_MISBEHAVING_TIMEOUT_EXPIRES =>
    cases h
    split
    · exact watch_startPDelay _
    · rfl
  | SYNC_RATE_INTERVAL_TIMEOUT_EXPIRED =>
    cases h
    unfold changeRate
    dsimp only
    split <;> rfl

end Functions

def Input.isResponse : Input → Bool
  | .receive (.pathDelayResp _) _ => true
  | _ => false

variable {s s' t u : Station F}

theorem Station.watch_step {ops : RatioOps F} {i : Input} (hi : i.isResponse = false)
    (h : Station.step ops (some s) i = some t) : t.port.watch = s.port.watch := by
  cases i with
  | event e tx =>
    grind [step, watch_processEvent]
  | expire n tx =>
    cases htimer : s.timers[n]? with
    | none =>
      simp only [step, htimer] at h
      cases h
      rfl
    | some timer =>
      obtain ⟨u, hu, hstep⟩ := step_expire ops tx htimer
      rw [u.watch_processEvent (hstep.symm.trans h), hu.port]
  | receive m servo =>
    cases h
    rw [port_receive]
    cases m with
    | sync m =>
      change (processSync _ _).1.port.watch = _
      unfold processSync
      split <;> rfl
    | followUp m => exact watch_processFollowUp _ servo _
    | pathDelayReq => rfl
    | pathDelayResp m => cases hi
    | pathDelayRespFollowUp m => exact watch_processRespFollowUp _ ops _
    | announce m =>
      change (processAnnounce _ _).1.port.watch = _
      unfold processAnnounce
      dsimp only
      split <;> rfl
    | signalling m => exact watch_processSignalling _ _

theorem Station.stored_step {ops : RatioOps F} {i : Input} (hi : i.isResponse = false)
    (h : Station.step ops (some s) i = some t) :
    t.port.lastPDelayResp = s.port.lastPDelayResp ∨ t.port.lastPDelayResp = none := by
  cases step_exchange h with
  | kept same => exact .inl same.lastPDelayResp
  | requests _ _ response => exact .inl response
  | answers input =>
    subst input
    cases hi
  | completes _ _ response => exact .inr response
  | waits _ _ _ _ response => exact .inl response
  | resumes _ _ response => exact response

structure Station.Unmoved (s t : Station F) : Prop where
  pdelayHalted : t.port.pdelayHalted = s.port.pdelayHalted
  timers : t.timers = s.timers

structure Station.Halts (s t : Station F) : Prop where
  pdelayHalted : t.port.pdelayHalted = true
  timers : t.timers =
    s.timers.filter (fun x => x.event ≠ .PDELAY_INTERVAL_TIMEOUT_EXPIRES) ++
      [⟨.PDELAY_RESP_PEER_MISBEHAVING_TIMEOUT_EXPIRES, s.port.ifindex⟩]

def Port.expects (sequenceId : UInt16) (p : Port F) : Prop :=
  p.lastInvalidSeqID.toNat + 1 = sequenceId.toNat ∨ p.duplicateRespCounter = 0

inductive Station.RespCase (m : PathDelayResp) (s t : Station F) : Prop where
  | first (stored : s.port.lastPDelayResp = none) (watch : t.port.watch = s.port.watch)
      (unmoved : s.Unmoved t)
  | another {old : PathDelayResp} (stored : s.port.lastPDelayResp = some old)
      (other : m.sequenceId ≠ old.sequenceId)
  | again {old : PathDelayResp} (stored : s.port.lastPDelayResp = some old)
      (unexpected : ¬ (m.sourcePortIdentity.portNumber ≠ old.sourcePortIdentity.portNumber ∧
        s.port.expects m.sequenceId))
      (watch : t.port.watch = (0, m.sequenceId)) (unmoved : s.Unmoved t)
  | twice {old : PathDelayResp} (stored : s.port.lastPDelayResp = some old)
      (differ : m.sourcePortIdentity.portNumber ≠ old.sourcePortIdentity.portNumber)
      (watch : t.port.watch = (s.port.duplicateRespCounter + 1, m.sequenceId))
      (halts : s.port.duplicateRespCounter + 1 = 3 → s.Halts t)
      (unmoved : s.port.duplicateRespCounter + 1 ≠ 3 → s.Unmoved t)

theorem Station.verifyDuplicate_counted {m old : PathDelayResp}
    (hseq : m.sequenceId = old.sequenceId)
    (hdup : m.sourcePortIdentity.portNumber ≠ old.sourcePortIdentity.portNumber ∧
      s.port.expects m.sequenceId) :
    (s.verifyDuplicate m old).port.watch = (s.port.duplicateRespCounter + 1, m.sequenceId) ∧
      (s.port.duplicateRespCounter + 1 = 3 → s.Halts (s.verifyDuplicate m old)) ∧
      (s.port.duplicateRespCounter + 1 ≠ 3 → s.Unmoved (s.verifyDuplicate m old)) := by
  unfold Port.expects at hdup
  unfold verifyDuplicate
  rw [if_pos hseq, if_pos hdup]
  dsimp only [setPort]
  by_cases hthree : s.port.duplicateRespCounter + 1 = 3
  · rw [if_pos hthree]
    exact ⟨rfl, fun _ => ⟨rfl, rfl⟩, fun hne => absurd hthree hne⟩
  · rw [if_neg hthree]
    exact ⟨rfl, fun heq => absurd heq hthree, fun _ => ⟨rfl, rfl⟩⟩

theorem Station.verifyDuplicate_cleared {m old : PathDelayResp}
    (hseq : m.sequenceId = old.sequenceId)
    (hdup : ¬ (m.sourcePortIdentity.portNumber ≠ old.sourcePortIdentity.portNumber ∧
      s.port.expects m.sequenceId)) :
    (s.verifyDuplicate m old).port.watch = (0, m.sequenceId) ∧
      s.Unmoved (s.verifyDuplicate m old) := by
  unfold Port.expects at hdup
  unfold verifyDuplicate
  rw [if_pos hseq, if_neg hdup]
  exact ⟨rfl, rfl, rfl⟩

theorem Station.watch_store (u : Station F) (m : PathDelayResp) (addr : Option Nat) :
    ((u.setPort fun p => { p with lastPDelayResp := some m }).delete addr).port.watch =
        u.port.watch ∧
      u.Unmoved ((u.setPort fun p => { p with lastPDelayResp := some m }).delete addr) :=
  ⟨rfl, rfl, rfl⟩

theorem Station.Unmoved.trans (h : s.Unmoved t) (h' : t.Unmoved u) : s.Unmoved u :=
  ⟨h'.pdelayHalted.trans h.pdelayHalted, h'.timers.trans h.timers⟩

theorem Station.Halts.unmoved (h : s.Halts t) (h' : t.Unmoved u) : s.Halts u :=
  ⟨h'.pdelayHalted.trans h.pdelayHalted, h'.timers.trans h.timers⟩

theorem Station.Unmoved.of_same (h : s'.Unmoved t) (hport : s'.port = s.port)
    (htimers : s'.timers = s.timers) : s.Unmoved t := by
  obtain ⟨hhalted, htimed⟩ := h
  exact ⟨by rw [hhalted, hport], by rw [htimed, htimers]⟩

theorem Station.Halts.of_same (h : s'.Halts t) (hport : s'.port = s.port)
    (htimers : s'.timers = s.timers) : s.Halts t := by
  obtain ⟨hhalted, htimed⟩ := h
  exact ⟨hhalted, by rw [htimed, hport, htimers]⟩

theorem Station.receive_response (ops : RatioOps F) (servo : Servo) (m : PathDelayResp)
    (hp : s.port.participates = true) :
    (s.receive ops servo (.pathDelayResp m)).port.lastPDelayResp =
        some { m with addr := s.nextAddr } ∧
      s.RespCase m (s.receive ops servo (.pathDelayResp m)) := by
  have hstate := (s.port.participates_iff).mp hp
  have hreceive : s.receive ops servo (.pathDelayResp m) =
      ({ s with nextAddr := s.nextAddr + 1 }.processResp { m with addr := s.nextAddr }).1 := by
    simp [receive, Message.place, processMessage, processResp, hstate]
  rw [hreceive]
  unfold processResp
  rw [if_neg hstate]
  refine ⟨rfl, ?_⟩
  cases hstored : s.port.lastPDelayResp with
  | none => exact .first hstored rfl ⟨rfl, rfl⟩
  | some old =>
    dsimp only
    generalize hs : ({ s with nextAddr := s.nextAddr + 1 } : Station F) = s₁
    generalize hm : ({ m with addr := s.nextAddr } : PathDelayResp) = m₁
    have hport : s₁.port = s.port := by rw [← hs]
    have hmoved : s₁.timers = s.timers := by rw [← hs]
    have hmseq : m₁.sequenceId = m.sequenceId := by rw [← hm]
    have hmsource : m₁.sourcePortIdentity = m.sourcePortIdentity := by rw [← hm]
    obtain ⟨hwatch, hstore⟩ := (s₁.verifyDuplicate m₁ old).watch_store m₁ (some old.addr)
    by_cases hseq : m.sequenceId = old.sequenceId
    · by_cases hdup : m.sourcePortIdentity.portNumber ≠ old.sourcePortIdentity.portNumber ∧
          s.port.expects m.sequenceId
      · have hcounted := s₁.verifyDuplicate_counted (m := m₁) (hmseq.trans hseq)
        rw [hport, hmseq, hmsource] at hcounted
        obtain ⟨hcount, hhalts, hgoes⟩ := hcounted hdup
        refine .twice hstored hdup.1 (hwatch.trans hcount) (fun hthree => ?_) (fun hthree => ?_)
        · exact (hhalts hthree).of_same hport hmoved |>.unmoved hstore
        · exact (hgoes hthree).of_same hport hmoved |>.trans hstore
      · have hcleared := s₁.verifyDuplicate_cleared (m := m₁) (hmseq.trans hseq)
        rw [hport, hmseq, hmsource] at hcleared
        obtain ⟨hzero, hgoes⟩ := hcleared hdup
        exact .again hstored hdup (hwatch.trans hzero)
          ((hgoes.of_same hport hmoved).trans hstore)
    · exact .another hstored hseq

abbrev Answers := List (Nat × PortIdentity)

def Twice (h : Answers) (n : Nat) : Prop :=
  ∃ x ∈ h, ∃ y ∈ h, x.1 = n ∧ y.1 = n ∧ x.2 ≠ y.2

def TwiceAgo (h : Answers) (n k : Nat) : Prop :=
  k ≤ n ∧ Twice h (n - k)

def ThirdTwice (h : Answers) (n : Nat) (source : PortIdentity) : Prop :=
  ¬ Twice h n ∧
    ∃ k : Fin 3, k.val ≤ n ∧ ∀ j : Fin 3, Twice (h ++ [(n, source)]) (n - k.val + j.val)

instance (h : Answers) (n : Nat) : Decidable (Twice h n) :=
  inferInstanceAs (Decidable (∃ x ∈ h, ∃ y ∈ h, x.1 = n ∧ y.1 = n ∧ x.2 ≠ y.2))

instance (h : Answers) (n k : Nat) : Decidable (TwiceAgo h n k) :=
  inferInstanceAs (Decidable (k ≤ n ∧ Twice h (n - k)))

instance (h : Answers) (n : Nat) (source : PortIdentity) : Decidable (ThirdTwice h n source) :=
  inferInstanceAs (Decidable (_ ∧ _))

section History

variable {h : Answers} {n k : Nat} {a b : PortIdentity}

theorem Twice.mem (ht : Twice h k) : ∃ x ∈ h, x.1 = k := by
  obtain ⟨x, hx, -, -, hk, -⟩ := ht
  exact ⟨x, hx, hk⟩

theorem Twice.le (ht : Twice h k) (hle : ∀ x ∈ h, x.1 ≤ n) : k ≤ n := by
  obtain ⟨x, hx, rfl⟩ := ht.mem
  exact hle x hx

theorem twice_append_of_ne (hk : k ≠ n) : Twice (h ++ [(n, a)]) k ↔ Twice h k := by
  constructor
  · rintro ⟨x, hx, y, hy, rfl, hyk, hne⟩
    have old : ∀ z ∈ h ++ [(n, a)], z.1 = x.1 → z ∈ h := by
      grind
    exact ⟨x, old x hx rfl, y, old y hy hyk, rfl, hyk, hne⟩
  · rintro ⟨x, hx, y, hy, hrest⟩
    exact ⟨x, mem_append_left _ hx, y, mem_append_left _ hy, hrest⟩

theorem not_twice_first (hlt : ∀ x ∈ h, x.1 < n) : ¬ Twice (h ++ [(n, a)]) n := by
  have only : ∀ x ∈ h ++ [(n, a)], x.1 = n → x.2 = a := by
    grind
  rintro ⟨x, hx, y, hy, hxn, hyn, hne⟩
  exact hne ((only x hx hxn).trans (only y hy hyn).symm)

theorem twice_second_iff (hlt : ∀ x ∈ h, x.1 < n) :
    Twice (h ++ [(n, a)] ++ [(n, b)]) n ↔ a ≠ b := by
  have only : ∀ x ∈ h ++ [(n, a)] ++ [(n, b)], x.1 = n → x.2 = a ∨ x.2 = b := by
    grind
  constructor
  · rintro ⟨x, hx, y, hy, hxn, hyn, hne⟩ rfl
    grind
  · intro hne
    exact ⟨(n, a), by simp, (n, b), by simp, rfl, rfl, hne⟩

theorem twiceAgo_append (hk : 0 < k) : TwiceAgo (h ++ [(n, a)]) n k ↔ TwiceAgo h n k := by
  refine and_congr_right fun hkn => twice_append_of_ne ?_
  omega

theorem thirdTwice_iff (hle : ∀ x ∈ h, x.1 ≤ n) :
    ThirdTwice h n a ↔
      ¬ Twice h n ∧ Twice (h ++ [(n, a)]) n ∧ TwiceAgo h n 1 ∧ TwiceAgo h n 2 := by
  have hall : ∀ x ∈ h ++ [(n, a)], x.1 ≤ n := by
    grind
  refine and_congr_right fun _ => ?_
  constructor
  · rintro ⟨k, hkn, hthree⟩
    have hlast := (hthree 2).le hall
    have hk : k.val = 2 := by
      grind
    rw [hk] at hkn
    have h0 := hthree 0
    have h1 := hthree 1
    have h2 := hthree 2
    simp only [hk, Fin.val_zero, Fin.val_one, Fin.val_two] at h0 h1 h2
    rw [show n - 2 + 2 = n by omega] at h2
    rw [show n - 2 + 1 = n - 1 by omega] at h1
    refine ⟨h2, ⟨by omega, ?_⟩, hkn, ?_⟩
    all_goals grind [twice_append_of_ne]
  · rintro ⟨hnow, hone, htwo, htwice⟩
    refine ⟨2, htwo, fun j => ?_⟩
    have hcases : j = 0 ∨ j = 1 ∨ j = 2 := by omega
    rcases hcases with rfl | rfl | rfl
    · exact (twice_append_of_ne (by simp; omega)).mpr htwice
    · have heq : n - 2 + 1 = n - 1 := by omega
      simp only [Fin.val_two, Fin.val_one, heq]
      exact (twice_append_of_ne (by omega)).mpr hone.2
    · grind

end History

structure Answer where
  request : Nat
  message : PathDelayResp
  echoes : message.sequenceId = UInt16.ofNat request

inductive Arrival where
  | answer (a : Answer) (servo : Servo)
  | other (i : Input) (silent : i.isResponse = false)

structure Watched (F : Type) where
  station : Option (Station F)
  answers : Answers

def Watched.step (ops : RatioOps F) (w : Watched F) : Arrival → Watched F
  | .answer a servo =>
    { station := Station.step ops w.station (.receive (.pathDelayResp a.message) servo)
      answers :=
        if w.station.any fun s => s.port.participates then
          w.answers ++ [(a.request, a.message.sourcePortIdentity)]
        else w.answers }
  | .other i _ => { w with station := Station.step ops w.station i }

/-- The requests are halted by a response if it is the second answer from a different source
to the third of three such requests in a row, and by no other. -/
def Station.HaltsRight (h : Answers) (a : Answer) (s t : Station F) : Prop :=
  (ThirdTwice h a.request a.message.sourcePortIdentity → s.Halts t) ∧
    (¬ ThirdTwice h a.request a.message.sourcePortIdentity → s.Unmoved t)

def Watched.HaltsRight (ops : RatioOps F) (w : Watched F) : Arrival → Prop
  | .answer a servo => ∀ s, w.station = some s → s.port.participates = true →
      s.HaltsRight w.answers a (s.receive ops servo (.pathDelayResp a.message))
  | .other _ _ => True

/-- What the search relies on. A request has one or two answers, and a follow-up takes the
stored response away after them but not between them; two sources differ in the port number;
a request that is answered twice either comes right after one that is, with a sequence id that
has not wrapped and no more than two such requests before it, or finds the counter at zero. -/
def Answer.Regular (h : Answers) (counter : UInt32) (a : Answer) : Option PathDelayResp → Prop
  | none => ∀ x ∈ h, x.1 < a.request
  | some old =>
    h.getLast? = some (a.request, old.sourcePortIdentity) ∧
      (∀ x ∈ h.dropLast, x.1 < a.request) ∧
      (old.sourcePortIdentity ≠ a.message.sourcePortIdentity →
        old.sourcePortIdentity.portNumber ≠ a.message.sourcePortIdentity.portNumber ∧
        if TwiceAgo h a.request 1 then
          a.message.sequenceId ≠ 0 ∧ ¬ (TwiceAgo h a.request 2 ∧ TwiceAgo h a.request 3)
        else counter = 0)

instance (h : Answers) (counter : UInt32) (a : Answer) :
    (stored : Option PathDelayResp) → Decidable (a.Regular h counter stored)
  | none => inferInstanceAs (Decidable (∀ x ∈ h, x.1 < a.request))
  | some _ => inferInstanceAs (Decidable (_ ∧ _ ∧ _))

def Watched.Regular (w : Watched F) : Arrival → Prop
  | .answer a _ => ∀ s, w.station = some s → s.port.participates = true →
      a.Regular w.answers s.port.duplicateRespCounter s.port.lastPDelayResp
  | .other _ _ => True

def Counts (h : Answers) (n : Nat) (c : UInt32) : Prop :=
  (c = 1 ∧ ¬ TwiceAgo h n 1) ∨ (c = 2 ∧ TwiceAgo h n 1 ∧ ¬ TwiceAgo h n 2) ∨
    (c = 3 ∧ TwiceAgo h n 1 ∧ TwiceAgo h n 2)

structure Station.Watches (h : Answers) (s : Station F) : Prop where
  stored : ∀ old, s.port.lastPDelayResp = some old →
    ∃ n, h.getLast? = some (n, old.sourcePortIdentity) ∧ old.sequenceId = UInt16.ofNat n
  counted : s.port.duplicateRespCounter ≠ 0 → ∃ n, Twice h n ∧ (∀ k, n < k → ¬ Twice h k) ∧
    s.port.lastInvalidSeqID = UInt16.ofNat n ∧ Counts h n s.port.duplicateRespCounter
  forgotten : s.port.duplicateRespCounter = 0 → ∀ k, Twice h k → ∃ x ∈ h.dropLast, k < x.1

theorem Station.Watches.of_watch {h : Answers} (hs : s.Watches h)
    (hwatch : t.port.watch = s.port.watch)
    (hstored : t.port.lastPDelayResp = s.port.lastPDelayResp ∨ t.port.lastPDelayResp = none) :
    t.Watches h := by
  obtain ⟨hcounter, hinvalid⟩ := Prod.ext_iff.mp hwatch
  change t.port.duplicateRespCounter = s.port.duplicateRespCounter at hcounter
  change t.port.lastInvalidSeqID = s.port.lastInvalidSeqID at hinvalid
  constructor
  · intro old hold
    rcases hstored with heq | heq
    · exact hs.stored old (heq.symm.trans hold)
    · rw [heq] at hold
      cases hold
  all_goals grind [counted, forgotten]

section Step

variable {h : Answers} {s t : Station F} {a : Answer} {addr : Nat}

theorem Answer.stored (h : Answers)
    (ht : t.port.lastPDelayResp = some { a.message with addr := addr }) :
    ∀ old, t.port.lastPDelayResp = some old →
      ∃ n, (h ++ [(a.request, a.message.sourcePortIdentity)]).getLast? =
        some (n, old.sourcePortIdentity) ∧ old.sequenceId = UInt16.ofNat n := by
  grind [getLast, echoes]

variable {n : Nat}

theorem twice_append_iff {b : PortIdentity} (hnot : ¬ Twice h n)
    (hnot' : ¬ Twice (h ++ [(n, b)]) n) (k : Nat) : Twice (h ++ [(n, b)]) k ↔ Twice h k := by
  grind [twice_append_of_ne]

theorem Station.Watches.first (hs : s.Watches h) (hlt : ∀ x ∈ h, x.1 < a.request)
    (ht : t.port.lastPDelayResp = some { a.message with addr := addr })
    (hwatch : t.port.watch = s.port.watch) (hmoved : s.Unmoved t) :
    t.Watches (h ++ [(a.request, a.message.sourcePortIdentity)]) ∧ s.HaltsRight h a t := by
  have hnot : ¬ Twice h a.request := by
    intro htwice
    obtain ⟨x, hx, heq⟩ := htwice.mem
    exact absurd (hlt x hx) (heq ▸ Nat.lt_irrefl _)
  have hnot' := not_twice_first hlt (a := a.message.sourcePortIdentity)
  have hsame := twice_append_iff hnot hnot'
  obtain ⟨hcounter, hinvalid⟩ := Prod.ext_iff.mp hwatch
  change t.port.duplicateRespCounter = s.port.duplicateRespCounter at hcounter
  change t.port.lastInvalidSeqID = s.port.lastInvalidSeqID at hinvalid
  refine ⟨⟨a.stored h ht, ?_, ?_⟩, ?_, fun _ => hmoved⟩
  · grind [counted, Counts, TwiceAgo]
  · intro hzero k hk
    rw [dropLast_concat]
    obtain ⟨x, hx, hlt⟩ := hs.forgotten (hcounter.symm.trans hzero) k ((hsame k).mp hk)
    exact ⟨x, (dropLast_sublist h).subset hx, hlt⟩
  · grind [thirdTwice_iff]

theorem Station.Watches.again {before : Answers}
    (hlt : ∀ x ∈ before, x.1 < a.request)
    (ht : t.port.lastPDelayResp = some { a.message with addr := addr })
    (hcounter : t.port.duplicateRespCounter = 0) (hmoved : s.Unmoved t) :
    t.Watches (before ++ [(a.request, a.message.sourcePortIdentity)] ++
        [(a.request, a.message.sourcePortIdentity)]) ∧
      s.HaltsRight (before ++ [(a.request, a.message.sourcePortIdentity)]) a t := by
  have hnot := not_twice_first hlt (a := a.message.sourcePortIdentity)
  have hnot' : ¬ Twice (before ++ [(a.request, a.message.sourcePortIdentity)] ++
      [(a.request, a.message.sourcePortIdentity)]) a.request := by
    rw [twice_second_iff hlt]
    exact fun h => h rfl
  have hle : ∀ x ∈ before ++ [(a.request, a.message.sourcePortIdentity)], x.1 ≤ a.request := by
    grind
  refine ⟨⟨a.stored _ ht, fun hne => absurd hcounter hne, ?_⟩, ?_, fun _ => hmoved⟩
  · intro _ k hk
    rw [dropLast_concat]
    have hk' := (twice_append_iff hnot hnot' k).mp hk
    have hne : k ≠ a.request := by
      rintro rfl
      exact hnot hk'
    exact ⟨_, mem_append_right before (mem_singleton_self _),
      lt_of_le_of_ne (hk'.le hle) hne⟩
  · grind [thirdTwice_iff]

theorem toNat_ofNat_succ (h : UInt16.ofNat (n + 1) ≠ 0) :
    (UInt16.ofNat n).toNat + 1 = (UInt16.ofNat (n + 1)).toNat := by
  have hne : (UInt16.ofNat (n + 1)).toNat ≠ 0 := fun h0 => h (UInt16.toNat_inj.mp h0)
  simp only [UInt16.toNat_ofNat'] at hne ⊢
  omega

theorem Station.Watches.expects {before : Answers} {source : PortIdentity}
    (hs : s.Watches (before ++ [(a.request, source)])) (hlt : ∀ x ∈ before, x.1 < a.request)
    (hreg : if TwiceAgo (before ++ [(a.request, source)]) a.request 1 then
        a.message.sequenceId ≠ 0 ∧
          ¬ (TwiceAgo (before ++ [(a.request, source)]) a.request 2 ∧
            TwiceAgo (before ++ [(a.request, source)]) a.request 3)
      else s.port.duplicateRespCounter = 0) :
    s.port.expects a.message.sequenceId ∧
      Counts (before ++ [(a.request, source)]) a.request (s.port.duplicateRespCounter + 1) := by
  split at hreg
  next hone =>
    obtain ⟨hwrap, hfew⟩ := hreg
    have hne : s.port.duplicateRespCounter ≠ 0 := by
      intro hzero
      obtain ⟨x, hx, hlast⟩ := hs.forgotten hzero _ hone.2
      grind
    obtain ⟨n, htwice, hmax, hinvalid, hcounts⟩ := hs.counted hne
    -- the last request with two answers is the one before
    have hn : n + 1 = a.request := by
      have hge : ¬ n < a.request - 1 := fun hlt' => hmax _ hlt' hone.2
      have hle : n ≤ a.request := by
        refine htwice.le fun x hx => ?_
        grind
      grind [not_twice_first]
    have hago : ∀ k, TwiceAgo (before ++ [(a.request, source)]) n k ↔
        TwiceAgo (before ++ [(a.request, source)]) a.request (k + 1) := by
      grind [TwiceAgo, Nat.add_sub_add_right]
    constructor
    · left
      rw [hinvalid, a.echoes, ← hn]
      rw [a.echoes, ← hn] at hwrap
      exact toNat_ofNat_succ hwrap
    · rcases hcounts with ⟨hc, hnot⟩ | ⟨hc, hago1, hnot⟩ | ⟨-, hago1, hago2⟩
      · exact .inr (.inl ⟨by rw [hc]; rfl, hone, mt (hago 1).mpr hnot⟩)
      · exact .inr (.inr ⟨by rw [hc]; rfl, hone, (hago 1).mp hago1⟩)
      · exact absurd ⟨(hago 1).mp hago1, (hago 2).mp hago2⟩ hfew
  next hone =>
    exact ⟨.inr hreg, .inl ⟨by rw [hreg]; rfl, hone⟩⟩

theorem Counts.eq_three_iff {c : UInt32} (hc : Counts h n c) :
    c = 3 ↔ TwiceAgo h n 1 ∧ TwiceAgo h n 2 := by
  rcases hc with ⟨rfl, hnot⟩ | ⟨rfl, -, hnot⟩ | ⟨rfl, hboth⟩
  all_goals grind

theorem Counts.ne_zero {c : UInt32} (hc : Counts h n c) : c ≠ 0 := by
  rcases hc with ⟨rfl, -⟩ | ⟨rfl, -⟩ | ⟨rfl, -⟩ <;> decide

theorem Station.Watches.twice {before : Answers} {source : PortIdentity}
    (hdiff : source ≠ a.message.sourcePortIdentity) (hlt : ∀ x ∈ before, x.1 < a.request)
    (hcounts : Counts (before ++ [(a.request, source)]) a.request
      (s.port.duplicateRespCounter + 1))
    (ht : t.port.lastPDelayResp = some { a.message with addr := addr })
    (hwatch : t.port.watch = (s.port.duplicateRespCounter + 1, a.message.sequenceId))
    (hhalts : s.port.duplicateRespCounter + 1 = 3 → s.Halts t)
    (hmoved : s.port.duplicateRespCounter + 1 ≠ 3 → s.Unmoved t) :
    t.Watches (before ++ [(a.request, source)] ++
        [(a.request, a.message.sourcePortIdentity)]) ∧
      s.HaltsRight (before ++ [(a.request, source)]) a t := by
  obtain ⟨hcounter, hinvalid⟩ := Prod.ext_iff.mp hwatch
  change t.port.duplicateRespCounter = s.port.duplicateRespCounter + 1 at hcounter
  change t.port.lastInvalidSeqID = a.message.sequenceId at hinvalid
  have htwice := (twice_second_iff hlt).mpr hdiff
  have hle : ∀ x ∈ before ++ [(a.request, source)], x.1 ≤ a.request := by
    grind
  have hthird : ThirdTwice (before ++ [(a.request, source)]) a.request
      a.message.sourcePortIdentity ↔ s.port.duplicateRespCounter + 1 = 3 := by
    rw [thirdTwice_iff hle, hcounts.eq_three_iff, and_iff_right (not_twice_first hlt),
      and_iff_right htwice]
  refine ⟨⟨a.stored _ ht, ?_, ?_⟩, fun h3 => hhalts (hthird.mp h3),
    fun h3 => hmoved (mt hthird.mpr h3)⟩
  · intro _
    refine ⟨a.request, htwice, ?_, hinvalid.trans a.echoes, ?_⟩
    · intro k hk hk'
      have hkle := ((twice_append_of_ne (Nat.ne_of_gt hk)).mp hk').le hle
      omega
    · grind [Counts, twiceAgo_append]
  · grind [Counts.ne_zero]

theorem Station.Watches.receive (hs : s.Watches h) (hp : s.port.participates = true)
    (hreg : a.Regular h s.port.duplicateRespCounter s.port.lastPDelayResp) (ops : RatioOps F) (servo : Servo) :
    (s.receive ops servo (.pathDelayResp a.message)).Watches
        (h ++ [(a.request, a.message.sourcePortIdentity)]) ∧
      s.HaltsRight h a (s.receive ops servo (.pathDelayResp a.message)) := by
  obtain ⟨ht, hcase⟩ := s.receive_response ops servo a.message hp
  generalize s.receive ops servo (.pathDelayResp a.message) = t at ht hcase ⊢
  cases hcase with
  | first stored watch unmoved =>
    rw [stored] at hreg
    exact hs.first hreg ht watch unmoved
  | @another old stored other =>
    rw [stored] at hreg
    obtain ⟨n, hlast, hseq⟩ := hs.stored old stored
    rw [hreg.1] at hlast
    cases hlast
    exact absurd (a.echoes.trans hseq.symm) other
  | @again old stored unexpected watch unmoved =>
    rw [stored] at hreg
    obtain ⟨hlast, hlt, hdiff⟩ := hreg
    obtain ⟨before, rfl⟩ := List.getLast?_eq_some_iff.mp hlast
    rw [dropLast_concat] at hlt
    by_cases hsource : old.sourcePortIdentity = a.message.sourcePortIdentity
    · rw [hsource]
      exact again hlt ht (congrArg Prod.fst watch) unmoved
    · obtain ⟨hport, hreg⟩ := hdiff hsource
      exact absurd ⟨hport.symm, (hs.expects hlt hreg).1⟩ unexpected
  | @twice old stored differ watch halts unmoved =>
    rw [stored] at hreg
    obtain ⟨hlast, hlt, hdiff⟩ := hreg
    obtain ⟨before, rfl⟩ := List.getLast?_eq_some_iff.mp hlast
    rw [dropLast_concat] at hlt
    have hsource : old.sourcePortIdentity ≠ a.message.sourcePortIdentity := by
      intro heq
      exact differ (by rw [heq])
    exact Station.Watches.twice hsource hlt (hs.expects hlt (hdiff hsource).2).2 ht watch halts
      unmoved

end Step

def Watched.Inv (w : Watched F) : Prop :=
  ∀ s, w.station = some s → s.Watches w.answers

theorem Watched.Inv.haltsRight {w : Watched F} (hw : w.Inv) {ops : RatioOps F} {i : Arrival}
    (hi : w.Regular i) : w.HaltsRight ops i := by
  cases i with
  | answer a servo =>
    intro s hs hp
    exact ((hw s hs).receive hp (hi s hs hp) ops servo).2
  | other i silent => trivial

theorem Watched.Inv.step {w : Watched F} (hw : w.Inv) {ops : RatioOps F} {i : Arrival}
    (hi : w.Regular i) : (w.step ops i).Inv := by
  cases i with
  | answer a servo =>
    intro t ht
    obtain ⟨o, h⟩ := w
    cases o with
    | none => cases ht
    | some s =>
      cases ht
      by_cases hp : s.port.participates = true
      · simp only [Watched.step, Option.any_some, hp, if_true]
        exact ((hw s rfl).receive hp (hi s rfl hp) ops servo).1
      · simp only [Watched.step, Option.any_some, hp]
        -- the port ignores the response
        have hport : (s.receive ops servo (.pathDelayResp a.message)).port = s.port := by
          have hstate := mt s.port.participates_iff.mpr hp
          rw [Station.port_receive]
          change (Station.processResp _ _).1.port = s.port
          unfold Station.processResp
          rw [if_pos (not_not.mp hstate)]
        refine (hw s rfl).of_watch ?_ (.inl ?_) <;> rw [hport]
  | other i silent =>
    intro t ht
    obtain ⟨o, h⟩ := w
    cases o with
    | none => cases ht
    | some s => exact (hw s rfl).of_watch (Station.watch_step silent ht) (Station.stored_step silent ht)

/-- In a run in which the search finds what it relies on, the requests are halted by the
responses exactly when three requests in a row have been answered twice. -/
theorem Station.duplicates_right (ops : RatioOps F) (s : Station F)
    (hstored : s.port.lastPDelayResp = none) (hcounter : s.port.duplicateRespCounter = 0)
    (is : List Arrival)
    (his : Runs.Along (Watched.step ops) Watched.Regular ⟨some s, []⟩ is) :
    Runs.Along (Watched.step ops) (Watched.HaltsRight ops) ⟨some s, []⟩ is := by
  refine his.of_invariant Watched.Inv (fun w i hi hw => hw.step hi)
    (fun w i hi hw => hw.haltsRight hi) ?_
  rintro t ⟨rfl⟩
  refine ⟨?_, fun hne => absurd hcounter hne, ?_⟩
  · intro old hold
    rw [hstored] at hold
    cases hold
  · rintro - k ⟨x, hx, -⟩
    cases hx

def answerOf (source : PortIdentity) (n : Nat) : Arrival :=
  .answer ⟨n, ⟨0, source, UInt16.ofNat n, timeZero, ownPort, timeZero⟩, rfl⟩ quietServo

def followUpOf (n : Nat) : Arrival :=
  .other (.receive (.pathDelayRespFollowUp
    ⟨0, peerPort, UInt16.ofNat n, ownPort, timeZero⟩) quietServo) rfl

def bothAnswer (a b : PortIdentity) : List Arrival :=
  [answerOf a 0, answerOf b 0, followUpOf 0, answerOf a 1, answerOf b 1, followUpOf 1,
    answerOf a 2, answerOf b 2]

theorem bothAnswer_halts :
    Runs.Along (Watched.step noRatios) (Watched.HaltsRight noRatios) ⟨some newStation, []⟩
      (bothAnswer peerPort foreignPort) := by
  refine newStation.duplicates_right noRatios rfl rfl _ ⟨?_, ?_, trivial, ?_, ?_, trivial, ?_, ?_, trivial⟩
  all_goals
    rintro s ⟨rfl⟩ -
    decide +kernel

theorem equal_numbers_unnoticed :
    ¬ Runs.Along (Watched.step noRatios) (Watched.HaltsRight noRatios) ⟨some newStation, []⟩
      (bothAnswer peerPort { foreignPort with portNumber := 1 }) := by
  rintro ⟨-, -, -, -, -, -, -, h, -⟩
  have hhalts := (h _ rfl (by decide +kernel)).1 (by decide +kernel)
  exact absurd hhalts.pdelayHalted (by decide +kernel)

end Avb4Linux.Gptp
