import Avb4Linux.Mrp.AttribList
import Avb4Linux.Lib.Memcmp

/-!
# The order of the attribute list

`*_add` depends on the attributes of a type being together and sorted.
-/

namespace Avb4Linux.Mrp

open Lib Lib.DoublyLinked Lib.Groups Lib.Runs Function List

variable {V T K : Type}

structure InOrder (c : ListCode V T) (key : V → K) (vs : List V) : Prop where
  unique : (vs.map key).Nodup
  contiguous : Contiguous c.type vs
  sorted : SortedWithin c.type (fun v w => c.less v w = true) vs

structure AttribList.Orderly (c : ListCode V T) (key : V → K) (s : AttribList V) : Prop where
  wellFormed : s.WellFormed
  inOrder : InOrder c key (s.toList.map Attrib.value)

def Sooner (sortKey : V → List Nat) (v w : V) : Prop :=
  sortKey v < sortKey w

structure ListCode.Ordered [DecidableEq T] [DecidableEq K] (c : ListCode V T) (key : V → K) (sortKey : V → List Nat) : Prop
    extends c.Lawful key where
  less_iff : ∀ v w, c.type v = c.type w → key v ≠ key w →
    (c.less v w = true ↔ sortKey v < sortKey w)
  sortKey_ne : ∀ v w, c.type v = c.type w → key v ≠ key w → sortKey v ≠ sortKey w

structure Kept (c : ListCode V T) (key : V → K) (sortKey : V → List Nat) (vs : List V) :
    Prop where
  unique : (vs.map key).Nodup
  arranged : Arranged c.type (Sooner sortKey) vs

variable {c : ListCode V T} {key : V → K} {sortKey : V → List Nat} {vs ws : List V}
  {l : List (Attrib V)} {r : Attrib V}

theorem Kept.sublist (h : Kept c key sortKey vs) (hsub : ws <+ vs) : Kept c key sortKey ws :=
  ⟨h.unique.sublist (hsub.map key), h.arranged.sublist hsub⟩

theorem kept_nil : Kept c key sortKey [] :=
  ⟨nodup_nil, arranged_nil⟩

variable [DecidableEq T] [DecidableEq K]

theorem Kept.inOrder (hc : c.Ordered key sortKey) (h : Kept c key sortKey vs) :
    InOrder c key vs := by
  refine ⟨h.unique, h.arranged.contiguous, ?_⟩
  refine (h.arranged.sortedWithin.and (pairwise_map.mp h.unique)).imp fun {v w} hvw htype => ?_
  exact (hc.less_iff v w htype hvw.2).mpr (hvw.1 htype)

theorem insertByType_absent (hnew : ∀ a ∈ l, c.type a.value ≠ c.type r.value) :
    insertByType (fun v w => c.type v = c.type w) c.less l r = l ++ [r] := by
  induction l with
  | nil => rfl
  | cons a l ih =>
    have ha : ¬ c.type r.value = c.type a.value := fun h => hnew a mem_cons_self h.symm
    rw [insertByType.eq_def]
    grind

theorem insertByType_pairwise (hc : c.Ordered key sortKey) {rank : T → Nat}
    (hkey : ∀ a ∈ l, key a.value ≠ key r.value)
    (hpres : ∃ a ∈ l, c.type a.value = c.type r.value)
    (h : l.Pairwise fun a b => Precedes c.type (Sooner sortKey) rank a.value b.value) :
    (insertByType (fun v w => c.type v = c.type w) c.less l r).Pairwise
      fun a b => Precedes c.type (Sooner sortKey) rank a.value b.value := by
  fun_induction insertByType (fun v w => decide (c.type v = c.type w)) c.less l r with
  | case1 r => simp at hpres
  | case2 a r htype hlt =>
    have htype := (of_decide_eq_true htype).symm
    have hbefore := (hc.less_iff _ _ htype (hkey a mem_cons_self)).mp hlt
    exact pairwise_pair.mpr (Or.inr ⟨htype, hbefore⟩)
  | case3 a r htype hlt b tl hsame ih =>
    have htype := (of_decide_eq_true htype).symm
    have hbefore := (hc.less_iff _ _ htype (hkey a mem_cons_self)).mp hlt
    obtain ⟨ha, htl⟩ := pairwise_cons.mp h
    have hb : c.type b.value = c.type r.value := (of_decide_eq_true hsame).symm.trans htype
    refine pairwise_cons.mpr ⟨fun y hy => ?_, ih (fun y hy => hkey y (mem_cons_of_mem a hy))
      ⟨b, mem_cons_self, hb⟩ htl⟩
    obtain ⟨l₁, l₂, hl, hins⟩ := insertByType_split (fun v w => decide (c.type v = c.type w))
      c.less (b :: tl) r
    rw [hins] at hy
    by_cases hyr : y = r
    · exact Or.inr (hyr ▸ ⟨htype, hbefore⟩)
    · exact ha y (by rw [hl]; grind)
  | case4 a r htype hlt b tl hsame =>
    have htype := (of_decide_eq_true htype).symm
    have hbefore := (hc.less_iff _ _ htype (hkey a mem_cons_self)).mp hlt
    obtain ⟨ha, htl⟩ := pairwise_cons.mp h
    have hab : rank (c.type a.value) < rank (c.type b.value) :=
      (ha b mem_cons_self).resolve_right fun hx => hsame (decide_eq_true hx.1)
    refine pairwise_cons.mpr ⟨fun y hy => ?_, pairwise_cons.mpr ⟨fun y hy => Or.inl ?_, htl⟩⟩
    · rcases mem_cons.mp hy with rfl | hy
      · exact Or.inr ⟨htype, hbefore⟩
      · exact ha y hy
    · rw [← htype]
      rcases mem_cons.mp hy with rfl | hy
      · exact hab
      · rcases (pairwise_cons.mp htl).1 y hy with hlt | ⟨heq, -⟩
        · omega
        · rwa [← heq]
  | case5 a tl r htype hlt =>
    have htype := of_decide_eq_true htype
    have hne := hkey a mem_cons_self
    have hbefore : sortKey r.value < sortKey a.value := by
      have hnot := mt (hc.less_iff _ _ htype.symm hne).mpr hlt
      exact lt_of_le_of_ne (not_lt.mp hnot) (hc.sortKey_ne _ _ htype hne.symm)
    refine pairwise_cons.mpr ⟨fun y hy => ?_, h⟩
    rcases mem_cons.mp hy with rfl | hy
    · exact Or.inr ⟨htype, hbefore⟩
    · rcases (pairwise_cons.mp h).1 y hy with hlt' | ⟨heq, hay⟩
      · exact Or.inl (htype ▸ hlt')
      · exact Or.inr ⟨htype.trans heq, lt_trans hbefore hay⟩
  | case6 a tl r htype ih =>
    obtain ⟨ha, htl⟩ := pairwise_cons.mp h
    have hne : ¬ c.type r.value = c.type a.value := fun heq => htype (decide_eq_true heq)
    obtain ⟨b, hb, hbr⟩ := hpres
    have hb : b ∈ tl := by
      grind
    refine pairwise_cons.mpr ⟨fun y hy => ?_, ih (fun y hy => hkey y (mem_cons_of_mem a hy))
      ⟨b, hb, hbr⟩ htl⟩
    obtain ⟨l₁, l₂, hl, hins⟩ := insertByType_split (fun v w => decide (c.type v = c.type w))
      c.less tl r
    rw [hins] at hy
    by_cases hyr : y = r
    · subst hyr
      rcases ha b hb with hlt | ⟨heq, -⟩
      · exact Or.inl (hbr ▸ hlt)
      · exact absurd (heq.trans hbr).symm hne
    · exact ha y (by rw [hl]; grind)

theorem Kept.add (hc : c.Ordered key sortKey) (hkey : ∀ a ∈ l, key a.value ≠ key r.value)
    (h : Kept c key sortKey (l.map Attrib.value)) :
    Kept c key sortKey ((c.ops.add l r).map Attrib.value) := by
  constructor
  · obtain ⟨l₁, l₂, hl, hadd⟩ := hc.add_split l r
    have hunique := h.unique
    rw [hl] at hunique hkey
    rw [hadd]
    simp only [map_append, map_cons, map_map, nodup_append, nodup_cons] at hunique ⊢
    grind
  · rw [hc.add_eq]
    by_cases hpres : ∃ a ∈ l, c.type a.value = c.type r.value
    · obtain ⟨rank, hrank⟩ := h.arranged
      exact ⟨rank, pairwise_map.mpr (insertByType_pairwise hc hkey hpres (pairwise_map.mp hrank))⟩
    · grind [insertByType_absent, arranged, Arranged.concat]

theorem addOrMerge_cases (hc : c.Ordered key sortKey) (l : List (Attrib V)) (r : Attrib V) :
    (∀ a ∈ l, key a.value ≠ key r.value) ∧ addOrMerge c.ops r l = c.ops.add l r ∨
      ∃ l₁ a l₂, l = l₁ ++ a :: l₂ ∧ key a.value = key r.value ∧
        addOrMerge c.ops r l = l₁ ++ c.ops.merge l r a :: l₂ := by
  have hupdate (f : Attrib V → Attrib V) (l : List (Attrib V)) :
      (∀ a ∈ l, key a.value ≠ key r.value) ∧ c.ops.lookup l r.value = none ∨
        ∃ l₁ a l₂, l = l₁ ++ a :: l₂ ∧ key a.value = key r.value ∧
          c.ops.lookup l r.value = some a ∧
          c.ops.update r.value (fun b => some (f b)) l = l₁ ++ f a :: l₂ := by
    induction l with
    | nil => exact Or.inl ⟨by simp, rfl⟩
    | cons b l ih =>
      by_cases hb : key b.value = key r.value
      · have hsame := (hc.same_iff b.value r.value).mpr hb
        exact Or.inr ⟨[], b, l, rfl, hb, by simp [Ops.lookup, hsame], by simp [Ops.update, hsame]⟩
      · have hsame : c.ops.same b.value r.value = false := by
          rw [← Bool.not_eq_true, hc.same_iff]
          exact hb
        grind [Ops.lookup, Ops.update]
  unfold addOrMerge
  rcases hupdate (c.ops.merge l r) l with ⟨hno, hnone⟩ | ⟨l₁, a, l₂, hl, ha, hsome, heq⟩
  all_goals grind

structure ListCode.Steady (c : ListCode V T) (key : V → K) (sortKey : V → List Nat) : Prop
    extends c.Ordered key sortKey where
  merge_value : ∀ l r a, (c.ops.merge l r a).value = a.value

theorem Kept.steadyPut (hc : c.Steady key sortKey) (h : Kept c key sortKey (l.map Attrib.value)) :
    Kept c key sortKey ((addOrMerge c.ops r l).map Attrib.value) := by
  rcases addOrMerge_cases hc.toOrdered l r with ⟨hno, heq⟩ | ⟨l₁, a, l₂, hl, -, heq⟩
  · rw [heq]
    exact h.add hc.toOrdered hno
  · rw [heq]
    rw [hl] at h
    simpa [hc.merge_value] using h

theorem ListCode.Steady.orderly (hc : c.Steady key sortKey) (s : AttribList V)
    (ops : List (ListOp V)) : (run (AttribList.step c) s.start ops).Orderly c key := by
  let Inv (s : AttribList V) : Prop :=
    (∃ l, s.Linked l) ∧ Kept c key sortKey (s.toList.map Attrib.value)
  have hstep (s : AttribList V) (op : ListOp V) (_ : True) (h : Inv s) : Inv (s.step c op) := by
    obtain ⟨⟨l, hl⟩, hkept⟩ := h
    obtain ⟨l', hl', ⟨x, -, heq⟩ | ⟨-, hsub⟩⟩ := hl.step hc.toLawful op
    · exact ⟨⟨l', hl'⟩, heq ▸ hkept.steadyPut hc⟩
    · exact ⟨⟨l', hl'⟩, hkept.sublist hsub⟩
  have hstart : Inv s.start := by
    refine ⟨⟨[], s.linked_start⟩, ?_⟩
    rw [s.linked_start.toList_eq]
    exact kept_nil
  obtain ⟨⟨l, hl⟩, hkept⟩ := run_invariant hstep s.start ops hstart
    (along_of_forall_mem (fun _ _ _ => trivial) _)
  exact ⟨hl.wellFormed, hkept.inOrder hc.toOrdered⟩

theorem memcmpLt_iff {as bs : List UInt8} (h : as.length = bs.length) :
    memcmpLt as bs = true ↔ byteValues as < byteValues bs := by
  rw [← memcmp_neg_iff h]
  induction as generalizing bs with
  | nil => cases bs <;> simp [memcmpLt, memcmp]
  | cons a as ih =>
    cases bs with
    | nil => simp at h
    | cons b bs =>
      grind [memcmpLt, memcmp, UInt8.lt_iff_toNat_lt]

theorem mvrpAdd_eq (l : List (Attrib Vid)) (r : Attrib Vid) :
    mvrpAdd l r = insertByType (fun _ _ => true) (fun v w => decide (v < w)) l r := by
  induction l with
  | nil => rfl
  | cons a l ih =>
    rw [mvrpAdd, insertByType.eq_def]
    grind [AttribList.value, mvrpAdd]

def vidSortKey (v : Vid) : List Nat := [v.toNat]

theorem mvrpList_steady : mvrpList.Steady mvrp.key vidSortKey where
  toLawfulOps := mvrpOps_lawful
  add_eq l r := (mvrpAdd_eq l r).trans (by simp [mvrpList])
  fixes_or := Or.inr fun _ _ => rfl
  less_iff v w _ _ := by simp [mvrpList, vidSortKey, UInt16.lt_iff_toNat_lt, cons_lt_cons_iff]
  sortKey_ne v w _ hne h := by
    have hnat : v.toNat = w.toNat := by simpa [vidSortKey] using h
    exact hne (UInt16.toNat_inj.mp hnat)
  merge_value _ _ _ := rfl

def mmrpSortKey : MmrpValue → List Nat
  | .svcreq v => [v.toNat]
  | .macaddr a => byteValues a.toList

theorem MmrpValue.sameType_eq (v w : MmrpValue) : v.sameType w = decide (v.type = w.type) := by
  cases v <;> cases w <;> rfl

theorem mmrpList_steady : mmrpList.Steady mmrp.key mmrpSortKey where
  toLawfulOps := mmrpOps_lawful
  add_eq l r := by
    have hsame : MmrpValue.sameType = fun v w => decide (v.type = w.type) := by
      funext v w
      exact v.sameType_eq w
    exact congrArg (insertByType · MmrpValue.lt l r) hsame
  fixes_or := Or.inl rfl
  less_iff v w htype _ := by
    rcases v with v | a <;> rcases w with w | b <;>
      simp only [mmrpList, MmrpValue.type, reduceCtorEq] at htype
    · simp [mmrpList, MmrpValue.lt, mmrpSortKey, UInt8.lt_iff_toNat_lt, cons_lt_cons_iff]
    · exact memcmpLt_iff (by simp)
  sortKey_ne v w htype hne h := by
    rcases v with v | a <;> rcases w with w | b <;>
      simp only [mmrpList, MmrpValue.type, reduceCtorEq] at htype
    · have hnat : v.toNat = w.toNat := by simpa [mmrpSortKey] using h
      exact hne (congrArg MmrpValue.svcreq (UInt8.toNat_inj.mp hnat))
    · have hbytes : a.toList = b.toList := byteValues_injective h
      exact hne (congrArg MmrpValue.macaddr (Vector.toList_inj.mp hbytes))
  merge_value _ _ _ := rfl

/-- A database's list after an act: perhaps an attribute added or merged, then only
machines moved and attributes removed. -/
def Edited (ops : Ops V) (l l' : List (Attrib V)) : Prop :=
  l'.map Attrib.value <+ l.map Attrib.value ∨
    ∃ r, l'.map Attrib.value <+ (addOrMerge ops r l).map Attrib.value

theorem Ops.update_sublist {ops : Ops V} {v : V} {a : Attrib V} {f : Attrib V → Option (Attrib V)}
    (ha : ops.lookup l v = some a) (hf : ∀ b, f a = some b → b.value = a.value) :
    (ops.update v f l).map Attrib.value <+ l.map Attrib.value := by
  induction l with
  | nil => exact Sublist.refl _
  | cons b l ih =>
    rw [Ops.update]
    by_cases hb : ops.same b.value v = true
    all_goals grind [lookup]

theorem attribBranch_edited (ops : Ops V) (env : Env) (reclaims : Bool) (event : Event)
    (r : Attrib V) (db : Database V) :
    Edited ops db.attribList (attribBranch ops env reclaims event r db).1.attribList := by
  rw [attribBranch]
  dsimp only
  split
  · exact Or.inl (Sublist.refl _)
  · refine Or.inr ⟨r, ?_⟩
    grind [attribFsm, Ops.update_sublist]

theorem Edited.scan {ops : Ops V} {l : List (Attrib V)} {db : Database V}
    (h : Edited ops l db.attribList) (pdu : Option Frame) (notes : List (Note V)) :
    Edited ops l (scanNotify db pdu notes).1.attribList := by
  unfold Edited
  rw [scanNotify_values]
  exact h

theorem edited_of_sublist {ops : Ops V} {l l' : List (Attrib V)}
    (h : l'.map Attrib.value <+ l.map Attrib.value) : Edited ops l l' :=
  Or.inl h

theorem edited_of_eq {ops : Ops V} {l l' : List (Attrib V)}
    (h : l'.map Attrib.value = l.map Attrib.value) : Edited ops l l' :=
  edited_of_sublist (h ▸ Sublist.refl _)

theorem mvrpEvent_edited (env : Env) (event : Event) (r : Option (Attrib Vid)) (db : Database Vid) :
    Edited mvrpOps db.attribList (mvrpEvent env event r db).1.attribList := by
  have hsame : Edited mvrpOps db.attribList db.attribList := Or.inl (Sublist.refl _)
  have hattrib (x : Attrib Vid) := attribBranch_edited mvrpOps env true event x db
  cases event with
  | LVATIMER =>
    exact (edited_of_eq (lvatimerBranch_values (mvrpTxpdu_txOnly env true) env db)).scan _ _
  | RLA => exact (edited_of_eq (fsmAll_values _ _ _ _ _)).scan _ _
  | TX => exact (edited_of_eq (txBranch_values (mvrpTxpdu_txOnly env false) env db)).scan _ _
  | LVTIMER => exact (edited_of_sublist (lvtimerAll_values _ _ _ _)).scan _ _
  | PERIODIC => exact (edited_of_eq (applicantAll_values _ _)).scan _ _
  | BEGIN | FLUSH | REDECLARE | TXLA | TXLAF | PERIODIC_ENABLE | PERIODIC_DISABLE =>
    exact hsame.scan _ _
  | _ =>
    cases r with
    | none => exact hsame
    | some x =>
      simp only [mvrpEvent]
      split
      · exact (hattrib x).scan _ _
      · exact hattrib x

theorem mmrpEvent_edited (env : Env) (event : Event) (r : Option (Attrib MmrpValue))
    (db : Database MmrpValue) :
    Edited mmrpOps db.attribList (mmrpEvent env event r db).1.attribList := by
  have hsame : Edited mmrpOps db.attribList db.attribList := Or.inl (Sublist.refl _)
  have hattrib (x : Attrib MmrpValue) := attribBranch_edited mmrpOps env false event x db
  cases event with
  | LVATIMER =>
    exact (edited_of_eq (lvatimerBranch_values (mmrpTxpdu_txOnly env true) env db)).scan _ _
  | RLA =>
    cases r with
    | none => exact hsame
    | some x => exact (edited_of_eq (fsmAll_values _ _ _ _ _)).scan _ _
  | TX => exact (edited_of_eq (txBranch_values (mmrpTxpdu_txOnly env false) env db)).scan _ _
  | LVTIMER => exact (edited_of_sublist (lvtimerAll_values _ _ _ _)).scan _ _
  | PERIODIC => exact (edited_of_eq (applicantAll_values _ _)).scan _ _
  | BEGIN | FLUSH | REDECLARE | TXLA | TXLAF | PERIODIC_ENABLE | PERIODIC_DISABLE =>
    exact hsame.scan _ _
  | _ =>
    cases r with
    | none => exact hsame
    | some x =>
      simp only [mmrpEvent]
      split
      · exact (hattrib x).scan _ _
      · exact hattrib x

theorem recvCmd_edited {ops : Ops V}
    {step : Event → Option (Attrib V) → Database V → Database V × Effects V}
    (h : ∀ event r db, Edited ops db.attribList (step event r db).1.attribList) (cmd : Cmd V)
    (client : SockAddr) (db : Database V) :
    Edited ops db.attribList (recvCmd step cmd client db).1.attribList := by
  rw [recvCmd]
  split
  · exact edited_of_eq rfl
  · exact h _ _ (addClient client db)

omit [DecidableEq K] in
theorem Participant.act_edited {P : Participant V K (Database V) (Cmd V)}
    (hevent : ∀ env event r db, Edited P.ops db.attribList (P.event env event r db).1.attribList)
    (hcmd : P.recvCmd = fun env => Mrp.recvCmd (P.event env)) (hbye : P.bye = Mrp.bye)
    (hreclaim : P.reclaim = Mrp.reclaim) (env : Env) (db : Database V) (act : Act V (Cmd V)) :
    Edited P.ops db.attribList (P.act env db act).1.attribList := by
  cases act with
  | cmd c client =>
    rw [Participant.act, hcmd]
    exact recvCmd_edited (hevent env) c client db
  | bye client =>
    rw [Participant.act, hbye]
    exact edited_of_eq rfl
  | reclaim =>
    rw [Participant.act, hreclaim]
    exact edited_of_sublist (reclaim_values db)
  | _ => exact hevent env _ _ db

def Participant.KeepsOrder {D C : Type} (P : Participant V K D C) (c : ListCode V T) : Prop :=
  ∀ (d : D) (is : List (Input V C)), P.initial d →
    InOrder c P.key ((P.base (run P.step d is)).attribList.map Attrib.value)

theorem ListCode.Steady.keepsOrder {D C : Type} {P : Participant V K D C}
    (hc : c.Steady P.key sortKey) (hP : P.Lawful)
    (hedit : ∀ env d act, Edited c.ops (P.base d).attribList (P.base (P.act env d act).1).attribList) :
    P.KeepsOrder c := by
  intro d is hd
  let Inv (d : D) : Prop := Kept c P.key sortKey ((P.base d).attribList.map Attrib.value)
  have hstep (d : D) (i : Input V C) (_ : True) (h : Inv d) : Inv (P.step d i) := by
    rcases hedit i.env d i.act with hsub | ⟨r, hsub⟩
    · exact Kept.sublist h hsub
    · exact (Kept.steadyPut hc h).sublist hsub
  have hstart : Inv d := by
    simp only [Inv, hP.initial_attribs d hd]
    exact kept_nil
  exact (run_invariant hstep d is hstart (along_of_forall_mem (fun _ _ _ => trivial) _)).inOrder
    hc.toOrdered

theorem mvrp_mmrp_lists_orderly :
    (∀ (s : AttribList Vid) (ops : List (ListOp Vid)),
        (run (AttribList.step mvrpList) s.start ops).Orderly mvrpList mvrp.key) ∧
      (∀ (s : AttribList MmrpValue) (ops : List (ListOp MmrpValue)),
        (run (AttribList.step mmrpList) s.start ops).Orderly mmrpList mmrp.key) ∧
      mvrp.KeepsOrder mvrpList ∧ mmrp.KeepsOrder mmrpList :=
  ⟨mvrpList_steady.orderly, mmrpList_steady.orderly,
    mvrpList_steady.keepsOrder mvrp_lawful (mvrp.act_edited mvrpEvent_edited rfl rfl rfl),
    mmrpList_steady.keepsOrder mmrp_lawful (mmrp.act_edited mmrpEvent_edited rfl rfl rfl)⟩

def msrpSortKey (v : MsrpValue) : List Nat :=
  if v.type = .DOMAIN then [v.domain.srClassID.toNat] else byteValues v.talkListen.streamID.toList

/-- Domains are compared byte for byte, but two class ids already differ in the first
byte. -/
theorem msrpList_ordered : msrpList.Ordered msrpKey msrpSortKey where
  toLawfulOps := msrpOps_lawful
  add_eq _ _ := rfl
  fixes_or := Or.inl rfl
  less_iff v w htype hne := by
    have htype : v.type = w.type := htype
    by_cases hv : v.type = .DOMAIN
    · have hid : v.domain.srClassID ≠ w.domain.srClassID := by
        simpa [msrpKey, hv, ← htype] using hne
      simp [msrpList, msrpLt, msrpSortKey, hv, ← htype, SrDomain.memory, memcmpLt, hid,
        cons_lt_cons_iff, UInt8.lt_iff_toNat_lt]
    · simp only [msrpList, msrpLt, msrpSortKey, ← htype, if_neg hv]
      exact memcmpLt_iff (by simp)
  sortKey_ne v w htype hne h := by
    have htype : v.type = w.type := htype
    refine hne ?_
    by_cases hv : v.type = .DOMAIN
    · have hnat : v.domain.srClassID.toNat = w.domain.srClassID.toNat := by
        simpa [msrpSortKey, hv, ← htype] using h
      simp [msrpKey, hv, ← htype, UInt8.toNat_inj.mp hnat]
    · simp only [msrpSortKey, ← htype, if_neg hv] at h
      have hsid : v.talkListen.streamID = w.talkListen.streamID :=
        Vector.toList_inj.mp (byteValues_injective h)
      cases ht : v.type <;> first | exact absurd ht hv | simp [msrpKey, ht, ← htype, hsid]

def Retypes (x a : Attrib MsrpValue) : Prop :=
  a.value.type ≠ x.value.type ∧ x.value.operation = a.value.operation

instance (x a : Attrib MsrpValue) : Decidable (Retypes x a) :=
  inferInstanceAs (Decidable (_ ∧ _))

theorem msrpMerge_type {l : List (Attrib MsrpValue)} {x a : Attrib MsrpValue}
    (hkey : msrpKey a.value = msrpKey x.value) :
    (msrpMerge l x a).value.type = (if Retypes x a then x.value.type else a.value.type) ∧
      msrpSortKey (msrpMerge l x a).value = msrpSortKey a.value := by
  obtain ⟨⟨t, talk, dom, sub, op⟩, applicant, registrar⟩ := a
  obtain ⟨⟨t', talk', dom', sub', op'⟩, applicant', registrar'⟩ := x
  cases t <;> cases t' <;> simp only [msrpKey, reduceCtorEq] at hkey <;>
    simp only [msrpMerge, Retypes] <;> split_ifs <;> simp_all [msrpSortKey]

/-- A step that retypes a talker finds it where the new type fits. -/
def AttribList.Fitting (s : AttribList MsrpValue) : ListOp MsrpValue → Prop
  | .put x => ∀ l₁ a l₂, s.toList = l₁ ++ a :: l₂ → msrpKey a.value = msrpKey x.value →
      Retypes x a → Fits MsrpValue.type (Sooner msrpSortKey) (l₁.map Attrib.value) a.value
        x.value.type (l₂.map Attrib.value)
  | _ => True

section

variable {l : List (Attrib MsrpValue)} {x : Attrib MsrpValue}

theorem addOrMerge_nodup (h : ((l.map Attrib.value).map msrpKey).Nodup) :
    (((addOrMerge msrpOps x l).map Attrib.value).map msrpKey).Nodup := by
  rw [map_map] at h ⊢
  exact msrpOps_lawful.addOrMerge_unique x h

theorem Kept.msrpPut (h : Kept msrpList msrpKey msrpSortKey (l.map Attrib.value))
    (hfit : ∀ l₁ a l₂, l = l₁ ++ a :: l₂ → msrpKey a.value = msrpKey x.value → Retypes x a →
      Fits MsrpValue.type (Sooner msrpSortKey) (l₁.map Attrib.value) a.value x.value.type
        (l₂.map Attrib.value)) :
    Kept msrpList msrpKey msrpSortKey ((addOrMerge msrpOps x l).map Attrib.value) := by
  refine ⟨addOrMerge_nodup h.unique, ?_⟩
  rcases addOrMerge_cases msrpList_ordered l x with ⟨hno, heq⟩ | ⟨l₁, a, l₂, hl, hkey, heq⟩
  · have hadd : addOrMerge msrpOps x l = msrpOps.add l x := heq
    rw [hadd]
    exact (h.add msrpList_ordered hno).arranged
  · have hmerge : addOrMerge msrpOps x l = l₁ ++ msrpMerge l x a :: l₂ := heq
    obtain ⟨htype, hsort⟩ := msrpMerge_type (l := l) hkey
    have harr := h.arranged
    rw [hl, map_append, map_cons] at harr
    rw [hmerge, map_append, map_cons]
    by_cases hretype : Retypes x a
    · rw [if_pos hretype] at htype
      refine harr.retype (fun _ _ _ => lt_trans) (fun y hy => ?_) (fun y hy => ?_) ?_ ?_
      · rwa [Sooner, hsort]
      · rwa [Sooner, hsort]
      · exact fun hsame => hretype.1 (hsame.trans htype)
      · have hfits := hfit l₁ a l₂ hl hkey hretype
        rwa [← htype] at hfits
    · rw [if_neg hretype] at htype
      obtain ⟨rank, hrank⟩ := harr
      obtain ⟨-, h₂, h₁₂⟩ := pairwise_append.mp hrank
      refine Arranged.of_replace rank hrank (fun _ _ _ _ hab => hab) (fun y hy => ?_) (fun y hy => ?_)
      · have hy := h₁₂ y hy a.value mem_cons_self
        simpa only [Precedes, Sooner, msrpList, htype, hsort] using hy
      · have hy := (pairwise_cons.mp h₂).1 y hy
        simpa only [Precedes, Sooner, msrpList, htype, hsort] using hy

theorem fits_of_inOrder {l₁ l₂ : List (Attrib MsrpValue)} {a : Attrib MsrpValue}
    (h : InOrder msrpList msrpKey ((addOrMerge msrpOps x l).map Attrib.value))
    (hu : ((l.map Attrib.value).map msrpKey).Nodup) (hl : l = l₁ ++ a :: l₂)
    (hkey : msrpKey a.value = msrpKey x.value) (hretype : Retypes x a) :
    Fits MsrpValue.type (Sooner msrpSortKey) (l₁.map Attrib.value) a.value x.value.type
      (l₂.map Attrib.value) := by
  have hmerge : addOrMerge msrpOps x l = l₁ ++ msrpMerge l x a :: l₂ := by
    rcases addOrMerge_cases msrpList_ordered l x with ⟨hno, -⟩ | ⟨m₁, b, m₂, hm, hb, heq⟩
    · exact absurd hkey (hno a (by simp [hl]))
    · -- the keys are distinct, so this is the attribute that was found
      rw [hl, map_map, map_append, map_cons, nodup_middle, nodup_cons, ← map_append] at hu
      have hout : b ∉ l₁ ++ l₂ := fun hmem => by
        have hmem := mem_map_of_mem (f := msrpKey ∘ Attrib.value) hmem
        rw [Function.comp_apply, hb, ← hkey] at hmem
        exact hu.1 hmem
      rw [mem_append, not_or] at hout
      rw [hl] at hm
      obtain ⟨rfl, rfl, rfl⟩ := (append_cons_inj_of_notMem hout.1 hout.2).mp hm
      exact heq
  rw [hmerge, map_append, map_cons] at h
  obtain ⟨htype, hsort⟩ := msrpMerge_type (l := l) hkey
  rw [if_pos hretype] at htype
  rw [← htype]
  refine fits_of_contiguous h.contiguous ?_ (fun y hy => ?_) (fun y hy => ?_) ?_
  · refine (h.sorted.and (pairwise_map.mp h.unique)).imp fun {v w} hvw hsame => ?_
    exact (msrpList_ordered.less_iff v w hsame hvw.2).mp (hvw.1 hsame)
  · rwa [Sooner, hsort] at hy
  · rwa [Sooner, hsort] at hy
  · rw [htype]
    exact hretype.1

end

structure AttribList.MsrpInv (s : AttribList MsrpValue) : Prop where
  linked : ∃ l, s.Linked l
  unique : ((s.toList.map Attrib.value).map msrpKey).Nodup

theorem AttribList.MsrpInv.step {s : AttribList MsrpValue} (h : s.MsrpInv)
    (op : ListOp MsrpValue) : (s.step msrpList op).MsrpInv := by
  obtain ⟨l, hl⟩ := h.linked
  obtain ⟨l', hl', ⟨x, -, heq⟩ | ⟨-, hsub⟩⟩ := hl.step msrpList_ordered.toLawful op
  · exact ⟨⟨l', hl'⟩, heq ▸ addOrMerge_nodup h.unique⟩
  · exact ⟨⟨l', hl'⟩, h.unique.sublist (hsub.map msrpKey)⟩

theorem AttribList.MsrpInv.start (s : AttribList MsrpValue) : s.start.MsrpInv :=
  ⟨⟨[], s.linked_start⟩, by simp [s.linked_start.toList_eq]⟩

/-- The pointers are always well formed and no key occurs twice; the list stays in order
exactly as long as every talker that changes its type does so in a place that fits. -/
theorem msrp_list_orderly_iff (s : AttribList MsrpValue) (ops : List (ListOp MsrpValue)) :
    ((run (AttribList.step msrpList) s.start ops).WellFormed ∧
        (((run (AttribList.step msrpList) s.start ops).toList.map Attrib.value).map
          msrpKey).Nodup) ∧
      ((∀ js, js <+: ops →
          (run (AttribList.step msrpList) s.start js).Orderly msrpList msrpKey) ↔
        Along (AttribList.step msrpList) AttribList.Fitting s.start ops) := by
  constructor
  · have hstep (s : AttribList MsrpValue) (op : ListOp MsrpValue) (_ : True) (h : s.MsrpInv) :
        (s.step msrpList op).MsrpInv := h.step op
    obtain ⟨⟨l, hl⟩, hunique⟩ := run_invariant hstep s.start ops (.start s)
      (along_of_forall_mem (fun _ _ _ => trivial) _)
    exact ⟨hl.wellFormed, hunique⟩
  · refine prefixes_good_iff (fun s : AttribList MsrpValue => (∃ l, s.Linked l) ∧
      Kept msrpList msrpKey msrpSortKey (s.toList.map Attrib.value)) _ ?_ ?_ ?_ s.start ops ?_
    · rintro s ⟨⟨l, hl⟩, hkept⟩
      exact ⟨hl.wellFormed, hkept.inOrder msrpList_ordered⟩
    · rintro s op hfit ⟨⟨l, hl⟩, hkept⟩
      obtain ⟨l', hl', ⟨x, rfl, heq⟩ | ⟨-, hsub⟩⟩ := hl.step msrpList_ordered.toLawful op
      · exact ⟨⟨l', hl'⟩, heq ▸ hkept.msrpPut hfit⟩
      · exact ⟨⟨l', hl'⟩, hkept.sublist hsub⟩
    · rintro s op ⟨⟨l, hl⟩, hkept⟩ hgood
      obtain ⟨l', hl', ⟨x, rfl, heq⟩ | ⟨hput, -⟩⟩ := hl.step msrpList_ordered.toLawful op
      · have horder := hgood.inOrder
        rw [heq] at horder
        intro l₁ a l₂ hsplit hkey hretype
        exact fits_of_inOrder horder hkept.unique hsplit hkey hretype
      · cases op with
        | put x => exact absurd rfl (hput x)
        | _ => trivial
    · refine ⟨⟨[], s.linked_start⟩, ?_⟩
      rw [s.linked_start.toList_eq]
      exact kept_nil

/-- Three Talker Advertise are received, then a Talker Failed for the one in the middle. -/
theorem msrp_list_interleaved :
    let talker (type : MsrpType) (n : UInt8) : MsrpValue :=
      { type := type, talkListen := { streamID := Vector.replicate 8 n } }
    let recv (v : MsrpValue) : Input MsrpValue MsrpCmd :=
      ⟨{ now := 0 }, .pdu .JOININ v (Vector.replicate 6 7)⟩
    let d := run msrp.step (msrpInit { now := 0 } 8 false)
      [recv (talker .TALKER_ADV 1), recv (talker .TALKER_ADV 2), recv (talker .TALKER_ADV 3),
        recv (talker .TALKER_FAILED 2)]
    d.attribList.map Attrib.value =
        [talker .TALKER_ADV 1, talker .TALKER_FAILED 2, talker .TALKER_ADV 3] ∧
      ¬ Contiguous msrpList.type (d.attribList.map Attrib.value) := by
  intro talker recv d
  have hlist : d.attribList.map Attrib.value =
      [talker .TALKER_ADV 1, talker .TALKER_FAILED 2, talker .TALKER_ADV 3] := by
    decide
  refine ⟨hlist, fun hcont => ?_⟩
  have hsame := hcont [] _ [talker .TALKER_FAILED 2] _ [] hlist rfl (talker .TALKER_FAILED 2)
    (by simp)
  exact absurd hsame (by decide)

end Avb4Linux.Mrp
