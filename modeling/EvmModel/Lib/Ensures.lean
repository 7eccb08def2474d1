import Mathlib

/-!
# Correctness in the `Except` monad

Four ways to speak about a computation that may fail:

* `Ensures x Q` — *if* `x` returns a value, that value satisfies `Q`; a
  computation that fails ensures everything;
* `Returns x Q` — `x` *does* return a value, and that value satisfies `Q`;
* `Avoids x e` — `x` does not fail with `e`;
* `FailsOnly x e` — `x` fails with nothing but `e`.

The rules below peel a `do` block one statement at a time, so that a proof
about a monadic program follows the program and never unfolds `bind`.
-/

universe u v

/-- Whenever `x` succeeds, its value satisfies `Q`. -/
def Ensures {ε : Type u} {α : Type v} (x : Except ε α) (Q : α → Prop) : Prop :=
  ∀ a, x = .ok a → Q a

/-- `x` succeeds with a value that satisfies `Q`. -/
def Returns {ε : Type u} {α : Type v} (x : Except ε α) (Q : α → Prop) : Prop :=
  ∃ a, x = .ok a ∧ Q a

/-- `x` does not fail with `e`. -/
def Avoids {ε : Type u} {α : Type v} (x : Except ε α) (e : ε) : Prop := x ≠ .error e

/-- If `x` fails, it fails with `e`. -/
def FailsOnly {ε : Type u} {α : Type v} (x : Except ε α) (e : ε) : Prop :=
  ∀ e', x = .error e' → e' = e

/-! ## Partial correctness -/

namespace Ensures

variable {ε : Type u} {α β : Type v} {Q : α → Prop} {R : β → Prop}

@[simp] theorem ok_iff {a : α} : Ensures (.ok a : Except ε α) Q ↔ Q a :=
  ⟨fun h => h a rfl, fun h _ hb => Except.ok.inj hb ▸ h⟩

@[simp] theorem error {e : ε} : Ensures (.error e : Except ε α) Q := nofun

@[simp] theorem throw {e : ε} : Ensures (throw e : Except ε α) Q := nofun

theorem mono {Q' : α → Prop} {x : Except ε α} (h : Ensures x Q) (hQ : ∀ a, Q a → Q' a) :
    Ensures x Q' :=
  fun a ha => hQ a (h a ha)

/-- The rule of sequencing. -/
theorem bind {x : Except ε α} {f : α → Except ε β} (hx : Ensures x Q)
    (hf : ∀ a, Q a → Ensures (f a) R) : Ensures (x >>= f) R := by
  cases x with
  | error e => exact error
  | ok a => exact hf a (ok_iff.1 hx)

/-- Sequencing when the continuation needs nothing but the value it is given. -/
theorem bind_any {x : Except ε α} {f : α → Except ε β} (hf : ∀ a, x = .ok a → Ensures (f a) R) :
    Ensures (x >>= f) R :=
  bind (Q := fun a => x = .ok a) (fun _ h => h) hf

theorem ite {c : Prop} [Decidable c] {x y : Except ε α} (hx : c → Ensures x Q)
    (hy : ¬c → Ensures y Q) : Ensures (if c then x else y) Q := by
  split
  · exact hx ‹_›
  · exact hy ‹_›

/-- An invariant of a loop that may fail. -/
theorem foldlM {ι : Type v} {P : List ι → α → Prop} {f : α → ι → Except ε α} {l : List ι}
    (hstep : ∀ done i rest a, l = done ++ i :: rest → P done a → Ensures (f a i) (P (done ++ [i])))
    {a : α} (h : P [] a) : Ensures (l.foldlM f a) (P l) := by
  have hgen : ∀ rest done a, l = done ++ rest → P done a → Ensures (rest.foldlM f a) (P l) := by
    intro rest
    induction rest with
    | nil =>
      intro done a hl hP
      rw [List.append_nil] at hl
      exact ok_iff.2 (hl ▸ hP)
    | cons i rest ih =>
      intro done a hl hP
      rw [List.foldlM_cons]
      refine bind (hstep done i rest a hl hP) fun b hb => ?_
      exact ih (done ++ [i]) b (by rw [hl, List.append_assoc]; rfl) hb
  exact hgen l [] a rfl h

end Ensures

/-! ## Total correctness -/

/-- A computation whose value is known hands it on. -/
theorem Except.bind_of_eq_ok {ε : Type u} {α β : Type v} {x : Except ε α} {a : α} (h : x = .ok a)
    (f : α → Except ε β) : (x >>= f) = f a := by
  rw [h]
  rfl

/-- A sequence succeeds when both of its parts do. -/
theorem Except.bind_eq_ok_iff {ε : Type u} {α β : Type v} {x : Except ε α} {f : α → Except ε β}
    {b : β} : (x >>= f) = .ok b ↔ ∃ a, x = .ok a ∧ f a = .ok b := by
  cases x with
  | error e => simp [bind, Except.bind]
  | ok a => simp [bind, Except.bind]

/-- A computation that succeeds has a value. -/
theorem Except.exists_eq_ok_of_isOk {ε : Type u} {α : Type v} {x : Except ε α}
    (h : x.isOk = true) : ∃ a, x = .ok a := by
  cases x with
  | error e => cases h
  | ok a => exact ⟨a, rfl⟩

theorem Except.toOption_eq_some_iff {ε : Type u} {α : Type v} {x : Except ε α} {a : α} :
    x.toOption = some a ↔ x = .ok a := by
  cases x with
  | error e => simp [Except.toOption]
  | ok b => simp [Except.toOption]

/-- A computation that succeeds returns what it ensures. -/
theorem Ensures.returns {ε : Type u} {α : Type v} {x : Except ε α} {Q : α → Prop}
    (h : Ensures x Q) (hok : x.isOk = true) : Returns x Q := by
  obtain ⟨a, ha⟩ := Except.exists_eq_ok_of_isOk hok
  exact ⟨a, ha, h a ha⟩

namespace Returns

variable {ε : Type u} {α β : Type v} {Q : α → Prop} {R : β → Prop}

theorem of_eq {x : Except ε α} {a : α} (h : x = .ok a) (hQ : Q a) : Returns x Q := ⟨a, h, hQ⟩

theorem ok {a : α} (hQ : Q a) : Returns (.ok a : Except ε α) Q := ⟨a, rfl, hQ⟩

/-- What has been evaluated of a computation is known of its value. -/
theorem of_toOption_map {x : Except ε α} {f : α → β} {b : β} (h : x.toOption.map f = some b) :
    Returns x fun a => f a = b := by
  obtain ⟨a, ha, hb⟩ := Option.map_eq_some_iff.1 h
  exact of_eq (Except.toOption_eq_some_iff.1 ha) hb

theorem mono {Q' : α → Prop} {x : Except ε α} (h : Returns x Q) (hQ : ∀ a, Q a → Q' a) :
    Returns x Q' := by
  obtain ⟨a, ha, hQa⟩ := h
  exact ⟨a, ha, hQ a hQa⟩

/-- A computation that returns a value with a property returns no other. -/
theorem ensures {x : Except ε α} (h : Returns x Q) : Ensures x Q := by
  obtain ⟨a, rfl, ha⟩ := h
  exact Ensures.ok_iff.2 ha

/-- The rule of sequencing. -/
theorem bind {x : Except ε α} {f : α → Except ε β} (hx : Returns x Q)
    (hf : ∀ a, Q a → Returns (f a) R) : Returns (x >>= f) R := by
  obtain ⟨a, rfl, ha⟩ := hx
  exact hf a ha

theorem ite {c : Prop} [Decidable c] {x y : Except ε α} (hx : c → Returns x Q)
    (hy : ¬c → Returns y Q) : Returns (if c then x else y) Q := by
  split
  · exact hx ‹_›
  · exact hy ‹_›

/-- Sequencing after a computation whose value is known. -/
theorem bind_eq {x : Except ε α} {a : α} {f : α → Except ε β} (hx : x = .ok a)
    (hf : Returns (f a) R) : Returns (x >>= f) R := by
  rw [Except.bind_of_eq_ok hx]
  exact hf

/-- A loop that may fail and a loop that may not, side by side: a relation
between the two accumulators that every iteration keeps is kept by the loops. -/
theorem foldlM {γ ι : Type v} {V : α → γ → Prop} {f : α → ι → Except ε α} {g : γ → ι → γ}
    (hstep : ∀ a c i, V a c → Returns (f a i) (V · (g c i))) (l : List ι) :
    ∀ {a c}, V a c → Returns (l.foldlM f a) (V · (l.foldl g c)) := by
  induction l with
  | nil =>
    intro a c h
    exact ok h
  | cons i l ih =>
    intro a c h
    rw [List.foldlM_cons, List.foldl_cons]
    exact bind (hstep a c i h) fun _ h' => ih h'

end Returns

/-! ## Exceptions that are not raised -/

namespace Avoids

variable {ε : Type u} {α β : Type v} {e : ε}

@[simp] theorem ok {a : α} : Avoids (.ok a : Except ε α) e := nofun

@[simp] theorem error_iff {e' : ε} : Avoids (.error e' : Except ε α) e ↔ e' ≠ e :=
  ⟨fun h he => h (congrArg Except.error he), fun h he => h (Except.error.inj he)⟩

/-- The rule of sequencing. -/
theorem bind {x : Except ε α} {f : α → Except ε β} (hx : Avoids x e)
    (hf : ∀ a, x = .ok a → Avoids (f a) e) : Avoids (x >>= f) e := by
  cases x with
  | error e' => exact error_iff.2 (error_iff.1 hx)
  | ok a => exact hf a rfl

theorem ite {c : Prop} [Decidable c] {x y : Except ε α} (hx : c → Avoids x e)
    (hy : ¬c → Avoids y e) : Avoids (if c then x else y) e := by
  split
  · exact hx ‹_›
  · exact hy ‹_›

end Avoids

namespace FailsOnly

variable {ε : Type u} {α β : Type v} {e : ε}

@[simp] theorem ok {a : α} : FailsOnly (.ok a : Except ε α) e := nofun

@[simp] theorem error_iff {e' : ε} : FailsOnly (.error e' : Except ε α) e ↔ e' = e :=
  ⟨fun h => h e' rfl, fun h _ he => (Except.error.inj he) ▸ h⟩

/-- The rule of sequencing. -/
theorem bind {x : Except ε α} {f : α → Except ε β} (hx : FailsOnly x e)
    (hf : ∀ a, x = .ok a → FailsOnly (f a) e) : FailsOnly (x >>= f) e := by
  cases x with
  | error e' => exact error_iff.2 (error_iff.1 hx)
  | ok a => exact hf a rfl

theorem ite {c : Prop} [Decidable c] {x y : Except ε α} (hx : c → FailsOnly x e)
    (hy : ¬c → FailsOnly y e) : FailsOnly (if c then x else y) e := by
  split
  · exact hx ‹_›
  · exact hy ‹_›

/-- A computation that returns does not fail at all. -/
theorem of_returns {Q : α → Prop} {x : Except ε α} (h : Returns x Q) : FailsOnly x e := by
  obtain ⟨a, rfl, -⟩ := h
  exact ok

/-- A computation that can fail in one way, and does not, returns. -/
theorem returns {x : Except ε α} (h : FailsOnly x e) (havoids : Avoids x e) : ∃ a, x = .ok a := by
  cases x with
  | error e' =>
    obtain rfl := error_iff.1 h
    exact absurd rfl havoids
  | ok a => exact ⟨a, rfl⟩

end FailsOnly

/-- A traversal whose every visit succeeds is a map. -/
theorem Except.mapM_eq_ok {ε : Type u} {α β : Type v} {f : α → Except ε β} {g : α → β} :
    ∀ {l : List α}, (∀ x ∈ l, f x = .ok (g x)) → l.mapM f = .ok (l.map g) := by
  intro l
  induction l with
  | nil => intro _; rfl
  | cons x l ih =>
    intro h
    rw [List.mapM_cons, h x List.mem_cons_self, ih fun y hy => h y (List.mem_cons_of_mem x hy)]
    rfl
