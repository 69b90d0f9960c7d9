import Avb4Linux.Mrp.Vectors

/-!
# What the branches of an event function do

Closed forms for the loops of `Avb4Linux.Mrp.Database` and `emitLoop`.
-/

namespace Avb4Linux.Mrp

variable {V C : Type}

@[simp]
theorem mrpLvtimerStart_twice (now : Nat) (db : MrpDatabase) :
    mrpLvtimerStart now (mrpLvtimerStart now db) = mrpLvtimerStart now db := rfl

def startsLeave (event : Event) (sel : V → Bool) (l : List (Attrib V)) : Bool :=
  startsLvtimer event && l.any fun a => sel a.value && mrpRegistrarIn a.registrar

theorem fsmAll_eq (now : Nat) (event : Event) (sel : V → Bool) (db : MrpDatabase)
    (l : List (Attrib V)) :
    fsmAll now event sel db l =
      (if startsLeave event sel l then mrpLvtimerStart now db else db,
        l.map fun a => if sel a.value then fsmAttrib a event else a) := by
  induction l generalizing db with
  | nil => simp [fsmAll, startsLeave]
  | cons a tl ih =>
    unfold fsmAll
    cases hs : sel a.value with
    | false => simp [ih, startsLeave, hs]
    | true =>
      simp only [if_true, mrpRegistrarFsm_eq, ih, List.map_cons, hs]
      refine Prod.ext ?_ rfl
      by_cases he : startsLvtimer event = true <;>
        by_cases ha : mrpRegistrarIn a.registrar = true <;>
          by_cases ht : (tl.any fun a => sel a.value && mrpRegistrarIn a.registrar) = true <;>
            simp [startsLeave, hs, he, ha, ht]

def Attrib.clearNotify (a : Attrib V) : Attrib V :=
  { a with registrar := { a.registrar with notify := .NONE } }

theorem notifyAll_eq (l : List (Attrib V)) :
    notifyAll l =
      (l.map Attrib.clearNotify,
        (l.filter fun a => a.registrar.notify ≠ .NONE).map fun a => ⟨a.registrar.notify, a⟩) := by
  induction l with
  | nil => rfl
  | cons a tl ih =>
    unfold notifyAll
    by_cases h : a.registrar.notify = .NONE
    · have hself : a.clearNotify = a := by
        unfold Attrib.clearNotify
        rw [← h]
      simp [ih, h, hself]
    · simp [ih, h, Attrib.clearNotify]

theorem reclaimAll_eq (l : List (Attrib V)) :
    reclaimAll l =
      (l.filter fun a => !reclaimable a, (l.filter reclaimable).map fun a => ⟨.LV, a⟩) := by
  induction l with
  | nil => rfl
  | cons a tl ih =>
    unfold reclaimAll
    cases h : reclaimable a <;> simp [ih, h]

def lvtimerAttrib (a : Attrib V) : Attrib V :=
  { a with registrar := registrarNext a.registrar .LVTIMER }

theorem lvtimerAll_eq (now : Nat) (reclaims : Bool) (db : MrpDatabase)
    (l : List (Attrib V)) :
    lvtimerAll now reclaims db l =
      (db, (l.map lvtimerAttrib).filter (fun a => !(reclaims && reclaimable a)),
        ((l.map lvtimerAttrib).filter (fun a => reclaims && reclaimable a)).map
          fun a => ⟨.LV, a⟩) := by
  induction l with
  | nil => rfl
  | cons a tl ih =>
    unfold lvtimerAll
    simp only [mrpRegistrarFsm_eq, startsLvtimer, Bool.false_and, Bool.false_eq_true, if_false, ih]
    grind [registrarNext, Attrib, lvtimerAttrib]

theorem map_clearTx_take (n : Nat) (l : List (Attrib V)) :
    ((l.take n).map Attrib.clearTx ++ l.drop n).map Attrib.clearTx = l.map Attrib.clearTx := by
  rw [List.map_append, List.map_map]
  change (l.take n).map Attrib.clearTx ++ (l.drop n).map Attrib.clearTx = _
  rw [← List.map_append, List.take_append_drop]

theorem emitLoop_clearTx (F : VectorFormat V C) (eof skip ptr vp : Nat) (lva : Bool)
    (fill : Nat × Nat) (l : List (Attrib V)) :
    (emitLoop F eof skip ptr vp lva fill l).1.map Attrib.clearTx = l.map Attrib.clearTx := by
  fun_induction emitLoop F eof skip ptr vp lva fill l with
  | case1 => rfl
  | case2 skip ptr vp lva fill a tl rest ih => exact congrArg (a.clearTx :: ·) ih
  | case3 => rfl
  | case4 ptr vp lva fill a tl h1 h2 rest ih => exact congrArg (a.clearTx :: ·) ih
  | case5 ptr vp lva fill a tl h1 h2 h3 rest ih => exact congrArg (a.clearTx :: ·) ih
  | case6 => rfl
  | case7 ptr vp lva fill a tl h1 h2 h3 e he run cleared =>
    exact congrArg (a.clearTx :: ·) (map_clearTx_take run.1 tl)
  | case8 ptr vp lva fill a tl h1 h2 h3 e he run es hes v hroom vp' fill' rest ih =>
    exact congrArg (a.clearTx :: ·) ih
  | case9 ptr vp lva fill a tl h1 h2 h3 e he run cleared =>
    exact congrArg (a.clearTx :: ·) (map_clearTx_take run.1 tl)

theorem emitVectors_clearTx (F : VectorFormat V C) (eof base : Nat) (sendEmpty lva : Bool)
    (fill : Nat × Nat) (l : List (Attrib V)) :
    (emitVectors F eof base sendEmpty lva fill l).1.map Attrib.clearTx =
      l.map Attrib.clearTx := by
  unfold emitVectors
  split
  · rfl
  · exact emitLoop_clearTx F eof 0 base (F.dataStart base) lva fill l

theorem map_value_of_clearTx {l l' : List (Attrib V)}
    (h : l'.map Attrib.clearTx = l.map Attrib.clearTx) :
    l'.map Attrib.value = l.map Attrib.value := by
  have hvalues := congrArg (List.map Attrib.value) h
  rwa [List.map_map, List.map_map] at hvalues

def TxOnly (txpdu : Database V → Database V × Option Frame) : Prop :=
  ∀ db, (txpdu db).1.mrpDb = { db.mrpDb with lva := { db.mrpDb.lva with tx := false } } ∧
    (txpdu db).1.attribList.map Attrib.clearTx = db.attribList.map Attrib.clearTx

end Avb4Linux.Mrp
