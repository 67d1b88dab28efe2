import Mathlib.Data.List.ReduceOption
import Mathlib.Data.List.Sort

/-!
# Ordered tables

A table keeps its entries in the order of their keys. A scan seeks a key and
reads on while a condition holds. Where the condition holds of an interval that
starts at that key, the scan reads the entries that meet it and no others.
-/

namespace Ordered

structure Table (K V : Type) [LinearOrder K] where
  entries : List (K × V)
  sorted : entries.Pairwise fun a b => a.1 < b.1

variable {K V : Type} [LinearOrder K]

namespace Table

def empty : Table K V := ⟨[], .nil⟩

def put (k : K) (v : V) (t : Table K V) : Table K V where
  entries := t.entries.filter (fun e => e.1 < k) ++ (k, v) :: t.entries.filter (fun e => k < e.1)
  sorted := by
    rw [List.pairwise_append, List.pairwise_cons]
    refine ⟨t.sorted.filter _, ⟨?_, t.sorted.filter _⟩, ?_⟩
    · intro e he
      simpa using (List.mem_filter.mp he).2
    · intro a ha b hb
      have hak : a.1 < k := by simpa using (List.mem_filter.mp ha).2
      rcases List.mem_cons.mp hb with rfl | hb
      · exact hak
      · have hkb : k < b.1 := by simpa using (List.mem_filter.mp hb).2
        exact hak.trans hkb

def delete (k : K) (t : Table K V) : Table K V where
  entries := t.entries.filter fun e => e.1 ≠ k
  sorted := t.sorted.filter _

/-- The entries from the key on. -/
def seek (k : K) (t : Table K V) : List (K × V) := t.entries.dropWhile fun e => e.1 < k

def scan (k : K) (p : K → Bool) (t : Table K V) : List (K × V) := (t.seek k).takeWhile fun e => p e.1

def keys (t : Table K V) : List K := t.entries.map Prod.fst

variable (t : Table K V)

@[simp] theorem mem_empty (e : K × V) : e ∈ (empty : Table K V).entries ↔ False := by simp [empty]

@[simp] theorem mem_put (k : K) (v : V) (e : K × V) :
    e ∈ (t.put k v).entries ↔ e = (k, v) ∨ (e ∈ t.entries ∧ e.1 ≠ k) := by
  simp only [put, List.mem_append, List.mem_cons, List.mem_filter, decide_eq_true_eq]
  constructor
  · rintro (⟨h, hlt⟩ | h | ⟨h, hlt⟩)
    · exact .inr ⟨h, hlt.ne⟩
    · exact .inl h
    · exact .inr ⟨h, hlt.ne'⟩
  · rintro (h | ⟨h, hne⟩)
    · exact .inr (.inl h)
    · rcases lt_or_gt_of_ne hne with hlt | hlt
      · exact .inl ⟨h, hlt⟩
      · exact .inr (.inr ⟨h, hlt⟩)

@[simp] theorem mem_delete (k : K) (e : K × V) : e ∈ (t.delete k).entries ↔ e ∈ t.entries ∧ e.1 ≠ k := by
  simp [delete]

theorem keys_sorted : t.keys.Pairwise (· < ·) := by
  unfold keys
  rw [List.pairwise_map]
  exact t.sorted

/-! ## Scans -/

theorem takeWhile_eq_filter {p : K → Bool} {l : List (K × V)} (hl : l.Pairwise fun a b => a.1 < b.1)
    (hp : ∀ a ∈ l, ∀ b ∈ l, a.1 ≤ b.1 → p b.1 = true → p a.1 = true) :
    l.takeWhile (fun e => p e.1) = l.filter fun e => p e.1 := by
  induction l with
  | nil => rfl
  | cons e l ih =>
    rw [List.pairwise_cons] at hl
    by_cases he : p e.1 = true
    · rw [List.takeWhile_cons, List.filter_cons, if_pos he, if_pos he, ih hl.2]
      intro a ha b hb
      exact hp a (by simp [ha]) b (by simp [hb])
    · have hrest : l.filter (fun e => p e.1) = [] := by
        rw [List.filter_eq_nil_iff]
        intro b hb hpb
        exact he (hp e (by simp) b (by simp [hb]) (hl.1 b hb).le hpb)
      rw [List.takeWhile_cons, List.filter_cons, if_neg he, if_neg he, hrest]

theorem seek_eq_filter (k : K) : t.seek k = t.entries.filter fun e => k ≤ e.1 := by
  unfold seek
  have h := t.sorted
  revert h
  induction t.entries with
  | nil => intro _; rfl
  | cons e l ih =>
    intro h
    rw [List.pairwise_cons] at h
    by_cases he : e.1 < k
    · rw [List.dropWhile_cons, if_pos (by simpa using he), List.filter_cons, if_neg (by simpa using he), ih h.2]
    · rw [List.dropWhile_cons, if_neg (by simpa using he), eq_comm, List.filter_eq_self]
      intro b hb
      rcases List.mem_cons.mp hb with rfl | hb
      · simpa using he
      · simpa using (not_lt.mp he).trans (h.1 b hb).le

/-- Of the keys of the table, the condition holds of an interval that starts at
`k`. -/
structure Starts (k : K) (p : K → Bool) : Prop where
  le : ∀ e ∈ t.entries, p e.1 = true → k ≤ e.1
  down : ∀ a ∈ t.entries, ∀ b ∈ t.entries, k ≤ a.1 → a.1 ≤ b.1 → p b.1 = true → p a.1 = true

variable {t}

theorem scan_eq_filter {k : K} {p : K → Bool} (h : t.Starts k p) :
    t.scan k p = t.entries.filter fun e => p e.1 := by
  unfold scan
  rw [seek_eq_filter, takeWhile_eq_filter (t.sorted.filter _)]
  · rw [List.filter_filter]
    apply List.filter_congr
    intro e he
    by_cases hp : p e.1 = true
    · simp [hp, h.le e he hp]
    · simp [hp]
  · intro a ha b hb hab hp
    obtain ⟨ha, hka⟩ := List.mem_filter.mp ha
    exact h.down a ha b (List.mem_filter.mp hb).1 (by simpa using hka) hab hp

theorem mem_scan {k : K} {p : K → Bool} (h : t.Starts k p) (e : K × V) :
    e ∈ t.scan k p ↔ e ∈ t.entries ∧ p e.1 = true := by
  rw [scan_eq_filter h, List.mem_filter]

variable (t)

theorem scan_sorted (k : K) (p : K → Bool) : (t.scan k p).Pairwise fun a b => a.1 < b.1 :=
  (t.sorted.sublist (List.dropWhile_sublist _)).sublist (List.takeWhile_sublist _)

end Table

/-! ## Sets of keys -/

/-- An ordered set is a table without values. -/
abbrev KeySet (K : Type) [LinearOrder K] := Table K Unit

namespace KeySet

def insert (k : K) (s : KeySet K) : KeySet K := s.put k ()

def insertAll (ks : List K) (s : KeySet K) : KeySet K := ks.foldl (fun s k => insert k s) s

def eraseAll (ks : List K) (s : KeySet K) : KeySet K := ks.foldl (fun s k => s.delete k) s

theorem mem_keys (s : KeySet K) (k : K) : k ∈ s.keys ↔ (k, ()) ∈ s.entries := by
  unfold Table.keys
  rw [List.mem_map]
  constructor
  · rintro ⟨⟨x, _⟩, h, rfl⟩
    exact h
  · intro h
    exact ⟨_, h, rfl⟩

@[simp] theorem mem_insert (s : KeySet K) (k x : K) : x ∈ (insert k s).keys ↔ x = k ∨ x ∈ s.keys := by
  rw [mem_keys, mem_keys, insert, Table.mem_put]
  by_cases h : x = k <;> simp [h]

@[simp] theorem mem_insertAll (ks : List K) (s : KeySet K) (x : K) : x ∈ (insertAll ks s).keys ↔
    x ∈ ks ∨ x ∈ s.keys := by
  unfold insertAll
  induction ks generalizing s with
  | nil => simp
  | cons k ks ih =>
    rw [List.foldl_cons, ih, mem_insert, List.mem_cons]
    tauto

theorem mem_foldl_insertAll {A : Type} (f : A → List K) (l : List A) (s : KeySet K) (x : K) :
    x ∈ (l.foldl (fun s a => insertAll (f a) s) s).keys ↔ (∃ a ∈ l, x ∈ f a) ∨ x ∈ s.keys := by
  induction l generalizing s with
  | nil => simp
  | cons a l ih =>
    rw [List.foldl_cons, ih, mem_insertAll]
    simp only [List.mem_cons, exists_eq_or_imp]
    rw [or_assoc]
    exact or_left_comm

@[simp] theorem mem_eraseAll (ks : List K) (s : KeySet K) (x : K) : x ∈ (eraseAll ks s).keys ↔
    x ∉ ks ∧ x ∈ s.keys := by
  unfold eraseAll
  induction ks generalizing s with
  | nil => simp
  | cons k ks ih =>
    rw [List.foldl_cons, ih, mem_keys, mem_keys, Table.mem_delete, List.mem_cons]
    tauto

end KeySet

/-! ## Looking keys up -/

/-- A condition that holds from an index on is first met there. -/
theorem find?_of_threshold {A : Type} {l : List A} {p : A → Bool} {k : Nat}
    (h : ∀ i (hi : i < l.length), p l[i] = true ↔ k ≤ i) : l.find? p = l[k]? := by
  by_cases hk : k < l.length
  · rw [List.getElem?_eq_getElem hk, List.find?_eq_some_iff_getElem]
    refine ⟨(h k hk).mpr le_rfl, k, hk, rfl, ?_⟩
    intro j hj
    have hnot := (h j (by omega)).not.mpr (by omega)
    simpa using hnot
  · rw [List.getElem?_eq_none (not_lt.mp hk), List.find?_eq_none]
    intro a ha
    obtain ⟨j, hj, rfl⟩ := List.getElem_of_mem ha
    exact (h j hj).not.mpr (by omega)

section
variable {A : Type} {f : A → K} {l : List A}

theorem find?_of_mem (hl : l.Pairwise fun a b => f a < f b) {a : A} (ha : a ∈ l) :
    l.find? (fun b => f b = f a) = some a := by
  cases hf : l.find? (fun b => f b = f a) with
  | none => simpa using List.find?_eq_none.mp hf a ha
  | some b =>
    have hb : f b = f a := by simpa using List.find?_some hf
    have hnodup : (l.map f).Nodup := by
      have hmap : (l.map f).Pairwise (· < ·) := List.pairwise_map.mpr hl
      exact hmap.nodup
    rw [List.inj_on_of_nodup_map hnodup (List.mem_of_find?_eq_some hf) ha hb]

/-- Looking up, in order, the keys of the elements that meet a condition gives
these elements in their order. -/
theorem mapM_find? (hl : l.Pairwise fun a b => f a < f b) {ks : List K} (hks : ks.Pairwise (· < ·)) {p : A → Bool}
    (h : ∀ k, k ∈ ks ↔ ∃ a ∈ l, p a = true ∧ f a = k) :
    ks.mapM (fun k => l.find? fun a => f a = k) = some (l.filter p) := by
  have hsorted : ((l.filter p).map f).Pairwise (· < ·) := List.pairwise_map.mpr (hl.filter _)
  have heq : ks = (l.filter p).map f := by
    apply hks.eq_of_mem_iff hsorted
    intro k
    rw [h]
    simp [and_assoc]
  have hfound : ∀ u : List A, (∀ a ∈ u, a ∈ l) → (u.map f).mapM (fun k => l.find? fun a => f a = k) = some u := by
    intro u hu
    induction u with
    | nil => rfl
    | cons a u ih =>
      rw [List.map_cons, List.mapM_cons, find?_of_mem hl (hu a (by simp)), ih fun b hb => hu b (by simp [hb])]
      rfl
  rw [heq]
  apply hfound
  intro a ha
  exact (List.mem_filter.mp ha).1

end

theorem reduceOption_of_mapM {B C : Type} {g : C → Option B} {ks : List C} {u : List B} (h : ks.mapM g = some u) :
    (ks.map g).reduceOption = u := by
  induction ks generalizing u with
  | nil =>
    cases h
    exact List.reduceOption_nil
  | cons k ks ih =>
    rw [List.mapM_cons] at h
    obtain ⟨b, hb, h⟩ := Option.bind_eq_some_iff.mp h
    obtain ⟨v, hv, h⟩ := Option.bind_eq_some_iff.mp h
    rw [List.map_cons, hb, List.reduceOption_cons_of_some, ih hv]
    simpa using h

end Ordered
