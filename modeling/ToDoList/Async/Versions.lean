import Mathlib.Data.List.Basic

/-!
# Versions of a store

A store together with the states it has been in. A copy of a part of the
store that was read at version `n` is up to date unless that part has changed
since.
-/

namespace Async

structure Versions (α : Type) where
  earlier : List α
  now : α

namespace Versions

variable {α β : Type}

def all (v : Versions α) : List α := v.earlier ++ [v.now]

def read (v : Versions α) (n : Nat) : Option α := v.all[n]?

def push (v : Versions α) (x : α) : Versions α := ⟨v.all, x⟩

variable {v : Versions α} {x y : α} {n : Nat}

theorem lt_of_read (h : v.read n = some x) : n < v.earlier.length + 1 := by
  unfold read all at h
  have hlt := (List.getElem?_eq_some_iff.mp h).1
  rw [List.length_append, List.length_singleton] at hlt
  exact hlt

theorem read_push (h : v.read n = some x) (y : α) : (v.push y).read n = some x := by
  have hlt : n < v.all.length := by
    rw [all, List.length_append, List.length_singleton]
    exact lt_of_read h
  show ((v.all ++ [y])[n]?) = some x
  rw [List.getElem?_append_left hlt]
  exact h

theorem mem_of_read (h : v.read n = some x) : x ∈ v.all := List.mem_of_getElem? h

end Versions

end Async
