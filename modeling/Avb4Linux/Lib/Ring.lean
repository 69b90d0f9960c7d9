import Mathlib.Data.List.Basic
import Mathlib.Data.Nat.Basic

/-!
# Consecutive positions of a ring
-/

namespace Avb4Linux.Lib.Ring

def positions (N p k : Nat) : List Nat :=
  (List.range k).map fun j => (p + j) % N

variable {N p k m j : Nat}

@[simp] theorem length_positions : (positions N p k).length = k := by
  rw [positions, List.length_map, List.length_range]

theorem getElem?_positions (h : j < k) : (positions N p k)[j]? = some ((p + j) % N) := by
  rw [positions, List.getElem?_map, List.getElem?_range h, Option.map_some]

theorem lt_of_mem_positions (hN : 0 < N) {q : Nat} (h : q ∈ positions N p k) : q < N := by
  obtain ⟨j, -, rfl⟩ := List.mem_map.mp h
  exact Nat.mod_lt _ hN

theorem positions_add : positions N p (k + m) = positions N p k ++ positions N (p + k) m := by
  rw [positions, List.range_add, List.map_append, List.map_map, positions, positions]
  congr 2
  funext j
  rw [Function.comp_apply, Nat.add_assoc]

theorem positions_add_size : positions N (p + N) k = positions N p k := by
  have hmod (j : Nat) : (p + N + j) % N = (p + j) % N := by
    rw [Nat.add_right_comm, Nat.add_mod_right]
  simp only [positions, hmod]

theorem positions_of_le (h : p + k ≤ N) : positions N p k = (List.range k).map (p + ·) := by
  apply List.map_congr_left
  intro j hj
  have hj := List.mem_range.mp hj
  exact Nat.mod_eq_of_lt (by omega)

theorem positions_wrap (hp : p + k = N) (h : m ≤ N) :
    positions N p (k + m) = (List.range k).map (p + ·) ++ List.range m := by
  have hstart : positions N N m = positions N 0 m := by
    have hsize := positions_add_size (N := N) (p := 0) (k := m)
    rwa [Nat.zero_add] at hsize
  rw [positions_add, positions_of_le (Nat.le_of_eq hp), hp, hstart, positions_of_le (by omega)]
  simp only [Nat.zero_add, List.map_id']

end Avb4Linux.Lib.Ring
