import Mathlib

/-!
# Folds over ordered maps and sets

Two loops that programs over `Std.TreeMap` write again and again: erase every
key of a set, and rewrite every value.  What a later lookup sees.
-/

namespace TreeFold

variable {α β : Type*} {cmp : α → α → Ordering} [Std.TransCmp cmp] [Std.LawfulEqCmp cmp]

/-- Erasing a list of keys does not touch a key outside it. -/
theorem getElem?_foldl_erase_list {k : α} :
    ∀ (l : List α) (m : Std.TreeMap α β cmp), k ∉ l →
      (l.foldl (fun m a => m.erase a) m)[k]? = m[k]? := by
  intro l
  induction l with
  | nil => intro m _; rfl
  | cons a l ih =>
    intro m hk
    simp only [List.mem_cons, not_or] at hk
    rw [List.foldl_cons, ih _ hk.2, Std.TreeMap.getElem?_erase, if_neg]
    rw [Std.LawfulEqCmp.compare_eq_iff_eq]
    exact Ne.symm hk.1

/-- Erasing every element of a set does not touch a key outside it. -/
theorem getElem?_foldl_erase {k : α} (s : Std.TreeSet α cmp) (m : Std.TreeMap α β cmp)
    (hk : k ∉ s) : (s.foldl (fun m a => m.erase a) m)[k]? = m[k]? := by
  rw [Std.TreeSet.foldl_eq_foldl_toList]
  exact getElem?_foldl_erase_list _ m (by rwa [Std.TreeSet.mem_toList])

omit [Std.LawfulEqCmp cmp] in
/-- Erasing keys leaves a key as it is, or takes it away. -/
theorem getElem?_foldl_erase_list_or (k : α) :
    ∀ (l : List α) (m : Std.TreeMap α β cmp),
      (l.foldl (fun m a => m.erase a) m)[k]? = m[k]? ∨
        (l.foldl (fun m a => m.erase a) m)[k]? = none := by
  intro l
  induction l with
  | nil => intro m; exact .inl rfl
  | cons a l ih =>
    intro m
    rw [List.foldl_cons]
    obtain h | h := ih (m.erase a)
    · rw [h, Std.TreeMap.getElem?_erase]
      split
      · exact .inr rfl
      · exact .inl rfl
    · exact .inr h

omit [Std.LawfulEqCmp cmp] in
theorem getElem?_foldl_erase_or (k : α) (s : Std.TreeSet α cmp) (m : Std.TreeMap α β cmp) :
    (s.foldl (fun m a => m.erase a) m)[k]? = m[k]? ∨
      (s.foldl (fun m a => m.erase a) m)[k]? = none := by
  rw [Std.TreeSet.foldl_eq_foldl_toList]
  exact getElem?_foldl_erase_list_or k _ m

theorem getElem?_insert_ne {k a : α} {v : β} (m : Std.TreeMap α β cmp) (h : a ≠ k) :
    (m.insert a v)[k]? = m[k]? := by
  rw [Std.TreeMap.getElem?_insert, if_neg]
  rwa [Std.LawfulEqCmp.compare_eq_iff_eq]

theorem mem_insert_iff {k a : α} {s : Std.TreeSet α cmp} : k ∈ s.insert a ↔ k = a ∨ k ∈ s := by
  rw [Std.TreeSet.mem_insert, Std.LawfulEqCmp.compare_eq_iff_eq, eq_comm]

theorem mem_filter_iff {k : α} {s : Std.TreeSet α cmp} {f : α → Bool} :
    k ∈ s.filter f ↔ k ∈ s ∧ f k := by
  rw [Std.TreeSet.mem_filter]
  constructor
  · rintro ⟨hk, hf⟩
    exact ⟨hk, by rwa [Std.TreeSet.get_eq] at hf⟩
  · rintro ⟨hk, hf⟩
    exact ⟨hk, by rwa [Std.TreeSet.get_eq]⟩

end TreeFold
