import Mathlib

/-!
# Write-once registries

A registry assigns to some addresses an immutable entry.  Addresses may be
*opened* (marked as created during the current session), an opened address may
be *doomed* (marked for removal at the end of the session), and an address with
no entry may receive one.  A failed sub-session is rolled back, but the marks
it left in the set of opened addresses may stay.

What such a registry promises is the preorder `r ≤ r'` — *`r'` is a legal
future of `r`*:

* every entry of `r` is still there, unchanged, in `r'`;
* an address opened since then had no entry in `r`;
* an address doomed since then was open in `r` or had no entry in `r`.

`Registry.permanent` is the point of the order: an entry that was neither open
nor doomed is untouchable in every legal future.  `le_openAt`, `le_deposit`,
`le_doom` and `le_rollback` are the moves an implementation may make.
-/

/-- A partial assignment of entries to addresses, with the addresses opened and
the addresses doomed during the current session. -/
@[ext] structure Registry (Addr Entry : Type*) where
  entry : Addr → Option Entry
  opened : Set Addr
  doomed : Set Addr

namespace Registry

variable {Addr Entry : Type*} {r r' r₁ r₂ : Registry Addr Entry} {a : Addr} {c : Entry}

/-- `r'` is a legal future of `r`. -/
structure Future (r r' : Registry Addr Entry) : Prop where
  entry_kept : ∀ a c, r.entry a = some c → r'.entry a = some c
  opened_fresh : ∀ a ∈ r'.opened, a ∈ r.opened ∨ r.entry a = none
  doomed_open : ∀ a ∈ r'.doomed, a ∈ r.doomed ∨ a ∈ r.opened ∨ r.entry a = none

theorem Future.refl (r : Registry Addr Entry) : Future r r :=
  ⟨fun _ _ h => h, fun _ h => .inl h, fun _ h => .inl h⟩

/-- An address without an entry later had none before. -/
theorem Future.entry_none (h : Future r r') (ha : r'.entry a = none) : r.entry a = none := by
  cases hr : r.entry a with
  | none => rfl
  | some c => rw [h.entry_kept a c hr] at ha; cases ha

theorem Future.trans (h₁ : Future r r₁) (h₂ : Future r₁ r₂) : Future r r₂ where
  entry_kept a c h := h₂.entry_kept a c (h₁.entry_kept a c h)
  opened_fresh a ha := by
    rcases h₂.opened_fresh a ha with h | h
    · exact h₁.opened_fresh a h
    · exact .inr (h₁.entry_none h)
  doomed_open a ha := by
    rcases h₂.doomed_open a ha with h | h | h
    · exact h₁.doomed_open a h
    · exact .inr (h₁.opened_fresh a h)
    · exact .inr (.inr (h₁.entry_none h))

instance : Preorder (Registry Addr Entry) where
  le := Future
  le_refl := Future.refl
  le_trans _ _ _ := Future.trans

/-- **Entries are permanent.**  An entry that is neither open nor doomed stays
as it is, and stays neither, in every legal future. -/
theorem permanent (h : r ≤ r') (hc : r.entry a = some c) (ho : a ∉ r.opened)
    (hd : a ∉ r.doomed) : r'.entry a = some c ∧ a ∉ r'.opened ∧ a ∉ r'.doomed := by
  have hne : r.entry a ≠ none := by simp [hc]
  refine ⟨h.entry_kept a c hc, fun hm => ?_, fun hm => ?_⟩
  · exact (h.opened_fresh a hm).elim ho hne
  · exact (h.doomed_open a hm).elim hd fun h' => h'.elim ho hne

/-! ## The moves of an implementation -/

/-- A future that shows the same entries and the same marks. -/
theorem le_of_same (he : ∀ a, r.entry a = r'.entry a) (ho : r'.opened ⊆ r.opened)
    (hd : r'.doomed ⊆ r.doomed) : r ≤ r' where
  entry_kept a _ h := he a ▸ h
  opened_fresh _ ha := .inl (ho ha)
  doomed_open _ ha := .inl (hd ha)

/-- Entries may be added. -/
theorem le_of_extends (he : ∀ a c, r.entry a = some c → r'.entry a = some c)
    (ho : r'.opened ⊆ r.opened) (hd : r'.doomed ⊆ r.doomed) : r ≤ r' where
  entry_kept := he
  opened_fresh _ ha := .inl (ho ha)
  doomed_open _ ha := .inl (hd ha)

/-- An address with no entry may be opened. -/
theorem le_openAt (ha : r.entry a = none) : r ≤ { r with opened := insert a r.opened } where
  entry_kept _ _ h := h
  opened_fresh b hb := by
    rcases hb with rfl | hb
    · exact .inr ha
    · exact .inl hb
  doomed_open _ hb := .inl hb

/-- An open address may be doomed. -/
theorem le_doom (ha : a ∈ r.opened) : r ≤ { r with doomed := insert a r.doomed } where
  entry_kept _ _ h := h
  opened_fresh _ hb := .inl hb
  doomed_open b hb := by
    rcases hb with rfl | hb
    · exact .inr (.inl ha)
    · exact .inl hb

/-- An address with no entry at the start of a session may be given one at its
end, whatever the session did in between. -/
theorem le_deposit {f : Addr → Option Entry} (h : r ≤ r') (ha : r.entry a = none)
    (hf : ∀ b, b ≠ a → f b = r'.entry b) : r ≤ { r' with entry := f } where
  entry_kept b c hb := by
    have hne : b ≠ a := by rintro rfl; rw [ha] at hb; cases hb
    show f b = some c
    rw [hf b hne]
    exact h.entry_kept b c hb
  opened_fresh := h.opened_fresh
  doomed_open := h.doomed_open

/-- Rolling back a session restores the entries and the doomed addresses; the
addresses it opened may stay marked. -/
theorem le_rollback (h : r ≤ r') : r ≤ { r with opened := r'.opened } where
  entry_kept _ _ h := h
  opened_fresh := h.opened_fresh
  doomed_open _ ha := .inl ha

end Registry
