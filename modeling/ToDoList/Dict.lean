import Mathlib.Logic.Function.Basic

/-!
# Dictionaries

A dictionary is a partial map; `merge` is the union that prefers its second
argument.
-/

def Dict (K V : Type) : Type := K → Option V

namespace Dict

variable {K V : Type}

def empty : Dict K V := fun _ => none

def ofList [BEq K] (l : List (K × V)) : Dict K V := fun k => l.lookup k

def merge (d e : Dict K V) : Dict K V := fun k => (e k).or (d k)

theorem mem_of_ofList [BEq K] [LawfulBEq K] {l : List (K × V)} {k : K} {v : V} (h : ofList l k = some v) :
    (k, v) ∈ l := by
  obtain ⟨l₁, l₂, rfl, _⟩ := List.lookup_eq_some_iff.mp h
  exact List.mem_append_right l₁ List.mem_cons_self

theorem key_of_ofList [BEq K] [LawfulBEq K] {l : List (K × V)} {k : K} {v : V} (h : ofList l k = some v) :
    k ∈ l.map Prod.fst :=
  List.mem_map_of_mem (mem_of_ofList h)

theorem ofList_cons [DecidableEq K] (k' : K) (v : V) (l : List (K × V)) (k : K) :
    ofList ((k', v) :: l) k = if k = k' then some v else ofList l k := by
  unfold ofList
  rw [List.lookup_cons]
  by_cases h : k = k'
  · simp [h]
  · have hb : (k == k') = false := by simpa using h
    simp [h, hb]

theorem ofList_of_not_mem [BEq K] [LawfulBEq K] {l : List (K × V)} {k : K} (h : k ∉ l.map Prod.fst) :
    ofList l k = none := by
  by_contra hne
  obtain ⟨v, hv⟩ := Option.ne_none_iff_exists'.mp hne
  exact h (key_of_ofList hv)

theorem merge_apply (d e : Dict K V) (k : K) : d.merge e k = (e k).or (d k) := rfl

theorem merge_of_some {d e : Dict K V} {k : K} {v : V} (h : e k = some v) : d.merge e k = some v := by
  rw [merge_apply, h]; rfl

theorem merge_of_none {d e : Dict K V} {k : K} (h : e k = none) : d.merge e k = d k := by
  rw [merge_apply, h]; rfl

theorem merge_ofList_cons [DecidableEq K] {k' : K} {l : List (K × V)} (h : k' ∉ l.map Prod.fst) (d : Dict K V)
    (v : V) :
    d.merge (ofList ((k', v) :: l)) = (d.merge (ofList [(k', v)])).merge (ofList l) := by
  funext k
  simp only [merge_apply, ofList_cons]
  by_cases hk : k = k'
  · subst hk
    simp [ofList_of_not_mem h]
  · simp [hk, ofList]

/-- No key has two values. -/
def Agrees (d e : Dict K V) : Prop := ∀ k v w, d k = some v → e k = some w → v = w

theorem merge_right_comm {e f : Dict K V} (h : e.Agrees f) (d : Dict K V) :
    (d.merge e).merge f = (d.merge f).merge e := by
  funext k
  cases he : e k with
  | none => rw [merge_of_none he, merge_apply, merge_of_none he]; rfl
  | some v =>
    rw [merge_of_some he]
    cases hf : f k with
    | none => rw [merge_of_none hf, merge_of_some he]
    | some w => rw [merge_of_some hf, h k v w he hf]

theorem merge_merge_self (d e : Dict K V) : (d.merge e).merge e = d.merge e := by
  funext k
  cases he : e k with
  | none => rw [merge_of_none he]
  | some v => rw [merge_of_some he, merge_of_some he]

end Dict
