import Mathlib.Data.List.Infix

/-!
# Slash-separated paths

`segments` drops the empty pieces between, before and after slashes. A
`Segment` is a string that is a path of its own, with one segment.
-/

namespace Path

def segments (path : String) : List String :=
  ((path.toList.splitOn '/').filter (· ≠ [])).map String.ofList

def Segment (s : String) : Prop := s ≠ "" ∧ '/' ∉ s.toList

instance (s : String) : Decidable (Segment s) := inferInstanceAs (Decidable (_ ∧ _))

def DoubleSlash (path : String) : Prop := ['/', '/'] <:+: path.toList

instance (path : String) : Decidable (DoubleSlash path) := inferInstanceAs (Decidable (_ <:+: _))

theorem segments_append_slash (a b : String) : segments (a ++ "/" ++ b) = segments a ++ segments b := by
  have h : (a ++ "/" ++ b).toList = a.toList ++ '/' :: b.toList := by
    rw [String.toList_append, String.toList_append, List.append_assoc]; rfl
  unfold segments
  rw [h, List.splitOn_eq_splitOnP, List.splitOnP_append_cons _ _ (by simp), List.filter_append, List.map_append]
  rfl

theorem Segment.toList_ne_nil {s : String} (h : Segment s) : s.toList ≠ [] :=
  fun e => h.1 (String.toList_inj.mp e)

theorem segments_of_segment {s : String} (h : Segment s) : segments s = [s] := by
  unfold segments
  rw [List.splitOn_eq_singleton h.2]
  simp [h.toList_ne_nil, String.ofList_toList]

theorem not_doubleSlash {s : String} (h : '/' ∉ s.toList) : ¬ DoubleSlash s :=
  fun hi => h (hi.subset (by simp))

theorem Segment.append {s t : String} (hs : Segment s) (ht : '/' ∉ t.toList) : Segment (s ++ t) := by
  refine ⟨fun e => hs.1 ?_, ?_⟩
  · have := congrArg String.toList e
    rw [String.toList_append] at this
    exact absurd (List.append_eq_nil_iff.mp this).1 hs.toList_ne_nil
  · rw [String.toList_append]
    exact fun h => (List.mem_append.mp h).elim hs.2 ht

/-! ## The segments of a path -/

theorem not_mem_of_splitOn {l piece : List Char} (h : piece ∈ l.splitOn '/') : '/' ∉ piece := by
  induction l generalizing piece with
  | nil => simp_all
  | cons x xs ih =>
    obtain ⟨y, ys, hy⟩ := List.exists_cons_of_ne_nil (List.splitOn_ne_nil '/' xs)
    rw [List.splitOn_cons_eq_if_modifyHead, hy] at h
    rw [hy] at ih
    by_cases hx : x = '/'
    · simp only [hx, beq_self_eq_true, if_true] at h
      rcases List.mem_cons.mp h with rfl | h
      · simp
      · exact ih h
    · simp only [beq_iff_eq, hx, if_false, List.modifyHead_cons, List.mem_cons] at h
      rcases h with rfl | h
      · simp [ih List.mem_cons_self, Ne.symm hx]
      · exact ih (List.mem_cons_of_mem _ h)

theorem segment_of_mem {path s : String} (h : s ∈ segments path) : Segment s := by
  unfold segments at h
  obtain ⟨piece, hp, rfl⟩ := List.mem_map.mp h
  obtain ⟨hp, hne⟩ := List.mem_filter.mp hp
  refine ⟨fun he => ?_, by simpa using not_mem_of_splitOn hp⟩
  have : piece = [] := by simpa using congrArg String.toList he
  simp [this] at hne

def join (path : List String) : String := String.ofList (['/'].intercalate (path.map String.toList))

theorem splitOn_join {path : List String} (hne : path ≠ []) (h : ∀ s ∈ path, Segment s) :
    (join path).toList.splitOn '/' = path.map String.toList := by
  unfold join
  rw [String.toList_ofList]
  apply List.splitOn_intercalate
  · intro l hl
    obtain ⟨s, hs, rfl⟩ := List.mem_map.mp hl
    exact (h s hs).2
  · simpa using hne

theorem segments_join {path : List String} (h : ∀ s ∈ path, Segment s) : segments (join path) = path := by
  by_cases hne : path = []
  · subst hne; decide
  · unfold segments
    rw [splitOn_join hne h, List.filter_eq_self.mpr, List.map_map]
    · simp [Function.comp_def, String.ofList_toList]
    · intro l hl
      obtain ⟨s, hs, rfl⟩ := List.mem_map.mp hl
      simpa using (h s hs).toList_ne_nil

theorem doubleSlash_join {path : List String} (h : ∀ s ∈ path, Segment s) : ¬ DoubleSlash (join path) := by
  by_cases hne : path = []
  · subst hne; decide
  · intro hd
    obtain ⟨u, v, huv⟩ := hd
    have hsplit := splitOn_join hne h
    rw [← huv, List.append_assoc] at hsplit
    have hnil : [] ∈ path.map String.toList := by
      rw [← hsplit]
      simp [List.splitOn_append_cons_self, List.splitOn_cons_eq_if_modifyHead]
    obtain ⟨s, hs, he⟩ := List.mem_map.mp hnil
    exact (h s hs).toList_ne_nil he

/-! ## Paths with one segment -/

def Trimmed (s : String) : Prop := s.toList.head? ≠ some '/' ∧ s.toList.getLast? ≠ some '/'

instance (s : String) : Decidable (Trimmed s) := inferInstanceAs (Decidable (_ ∧ _))

theorem splitOn_head {l : List Char} (h : (l.splitOn '/').head? = some []) : l = [] ∨ l.head? = some '/' := by
  cases l with
  | nil => exact .inl rfl
  | cons x xs =>
    rw [List.splitOn_eq_splitOnP, List.splitOnP_cons_eq_if_modifyHead] at h
    split at h
    · rename_i hx
      exact .inr (by simpa using hx)
    · obtain ⟨y, ys, hy⟩ := List.exists_cons_of_ne_nil (List.splitOnP_ne_nil (· == '/') xs)
      rw [hy] at h
      cases h

theorem splitOn_tail {l : List Char} (h : [] ∈ (l.splitOn '/').tail) :
    l.getLast? = some '/' ∨ ['/', '/'] <:+: l := by
  induction l with
  | nil => cases h
  | cons x xs ih =>
    have hcons : xs.getLast? = some '/' ∨ ['/', '/'] <:+: xs →
        (x :: xs).getLast? = some '/' ∨ ['/', '/'] <:+: x :: xs := by
      intro h
      refine h.imp (fun h => ?_) fun h => h.trans (List.suffix_cons x xs).isInfix
      rw [List.getLast?_cons, h]
      rfl
    obtain ⟨y, ys, hy⟩ := List.exists_cons_of_ne_nil (List.splitOnP_ne_nil (· == '/') xs)
    rw [List.splitOn_eq_splitOnP] at ih
    rw [List.splitOn_eq_splitOnP, List.splitOnP_cons_eq_if_modifyHead, hy] at h
    rw [hy] at ih
    split at h
    · rename_i hx
      have hx : x = '/' := by simpa using hx
      subst hx
      rcases List.mem_cons.mp h with hy' | hys
      · have hhead : (xs.splitOn '/').head? = some [] := by
          rw [List.splitOn_eq_splitOnP, hy, ← hy']
          rfl
        rcases splitOn_head hhead with rfl | hhead
        · exact .inl rfl
        · obtain ⟨z, zs, rfl⟩ := List.exists_cons_of_ne_nil (l := xs) fun h => by rw [h] at hhead; cases hhead
          cases hhead
          exact .inr ⟨[], zs, rfl⟩
      · exact hcons (ih hys)
    · exact hcons (ih h)

theorem segments_eq_singleton {s t : String} (h : segments s = [t]) (hs : Trimmed s) (hd : ¬ DoubleSlash s) :
    s = t := by
  have hne : ∀ piece ∈ s.toList.splitOn '/', piece ≠ [] := by
    intro piece hp heq
    subst heq
    obtain ⟨y, ys, hy⟩ := List.exists_cons_of_ne_nil (List.splitOnP_ne_nil (· == '/') s.toList)
    rw [List.splitOn_eq_splitOnP, hy] at hp
    rcases List.mem_cons.mp hp with hp | hp
    · have hhead : (s.toList.splitOn '/').head? = some [] := by
        rw [List.splitOn_eq_splitOnP, hy, ← hp]
        rfl
      rcases splitOn_head hhead with hnil | hhead
      · rw [segments, hnil] at h
        cases h
      · exact hs.1 hhead
    · have htail : [] ∈ (s.toList.splitOn '/').tail := by
        rw [List.splitOn_eq_splitOnP, hy]
        exact hp
      exact (splitOn_tail htail).elim hs.2 hd
  have hall : (s.toList.splitOn '/').filter (· ≠ []) = s.toList.splitOn '/' :=
    List.filter_eq_self.mpr fun piece hp => by simpa using hne piece hp
  rw [segments, hall, List.map_eq_singleton_iff] at h
  obtain ⟨piece, hp, rfl⟩ := h
  have hi : ['/'].intercalate (s.toList.splitOn '/') = s.toList := List.intercalate_splitOn '/'
  rw [hp, List.intercalate_singleton] at hi
  rw [hi, String.ofList_toList]

end Path
