import Mathlib

/-!
# A quantity and its holders

A quantity that finitely many holders have some of, and how its total changes
when some of it changes hands: a change at one holder, a move between two, and a
loss.
-/

namespace Holders

variable {ι : Type*} [Fintype ι] [DecidableEq ι] {f g : ι → ℕ} {a b : ι}

/-- A change at one holder changes the total as much. -/
theorem total_change (h : ∀ c, c ≠ a → g c = f c) : ∑ i, g i + f a = ∑ i, f i + g a := by
  have hrest : ∑ i ∈ Finset.univ.erase a, g i = ∑ i ∈ Finset.univ.erase a, f i :=
    Finset.sum_congr rfl fun c hc => h c (Finset.ne_of_mem_erase hc)
  rw [← Finset.add_sum_erase _ g (Finset.mem_univ a), ← Finset.add_sum_erase _ f (Finset.mem_univ a),
    hrest]
  omega

/-- What two holders have together is part of the total. -/
theorem add_le_total (f : ι → ℕ) (hab : a ≠ b) : f a + f b ≤ ∑ i, f i := by
  rw [← Finset.add_sum_erase _ f (Finset.mem_univ a)]
  refine Nat.add_le_add_left (Finset.single_le_sum (fun _ _ => Nat.zero_le _) ?_) _
  exact Finset.mem_erase.2 ⟨hab.symm, Finset.mem_univ b⟩

/-- A move between two holders does not change the total. -/
theorem total_move (hab : a ≠ b) (h : ∀ c, c ≠ a → c ≠ b → g c = f c)
    (hmove : g a + g b = f a + f b) : ∑ i, g i = ∑ i, f i := by
  -- first the change at `b`, then the one at `a`
  have hb := total_change (f := f) (g := Function.update f b (g b)) (a := b) fun c hc =>
    Function.update_of_ne hc _ _
  have ha := total_change (f := Function.update f b (g b)) (g := g) (a := a) fun c hc => by
    by_cases hcb : c = b
    · rw [hcb, Function.update_self]
    · rw [Function.update_of_ne hcb, h c hc hcb]
  rw [Function.update_self] at hb
  rw [Function.update_of_ne hab] at ha
  omega

omit [DecidableEq ι] in
/-- What nobody gains is not gained in total. -/
theorem total_le (h : ∀ c, g c ≤ f c) : ∑ i, g i ≤ ∑ i, f i :=
  Finset.sum_le_sum fun c _ => h c

end Holders
