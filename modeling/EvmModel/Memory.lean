import EvmModel.GasBound
import EvmModel.Preimages
import EvmModel.Touches

/-!
# Memory

In the run of any code the memory of every frame has been paid for from the gas
of the code, and so it is never large; and within these bounds the reads and
writes of the code are those of a map from addresses to bytes.

* `State.Paid` — the memory is paid for, which every instruction keeps;
* `memory_is_paid_for` — in every frame the memory lies within the active words,
  and their price and the gas that is left are within the gas of the code; each
  instruction is charged for the words it adds;
* `memory_is_a_byte_map` — what is loaded and written, whatever the padding and
  the shortcuts of the code;
* `stored_words_are_read_back` — so a word that is stored is what a later `MLOAD`
  pushes.
-/

namespace EvmYul
namespace EVM

open memoryExpansionCost

/-! ## Whole runs -/

/-- The memory of a frame lies within its active words, and their price and the
gas that is left are within `g`. -/
structure State.Paid (g : ℕ) (s : State) : Prop where
  within : s.Within
  paid : Cₘ s.activeWords + s.gasAvailable.val ≤ g

/-- So many words are too dear for a gas that fits into 64 bits. -/
theorem words_lt_of_paid {w : UInt256} {g : ℕ} (h : Cₘ w ≤ g) (hg : g < 2 ^ 64) :
    w.val < 2 ^ 38 := by
  by_contra hge
  have hge : 2 ^ 38 ≤ w.val := not_lt.1 hge
  have hsquare : 2 ^ 38 * 2 ^ 38 ≤ w.val * w.val := Nat.mul_le_mul hge hge
  have hquot : 2 ^ 38 * 2 ^ 38 / 512 ≤ w.val * w.val / 512 := Nat.div_le_div_right hsquare
  unfold Cₘ at h
  omega

section

variable {E : Externals} {g f : ℕ} {validJumps : Array UInt256} {s sZ s' : State} {cost₂ : ℕ}

/-- An instruction that passes the check has its memory paid for. -/
theorem State.Paid.passed (h : s.Paid g)
    (hZ : X.Z validJumps (X.instr s).1 s = .ok (sZ, cost₂)) :
    Cₘ (μᵢ' s (X.instr s).1) + sZ.gasAvailable.val ≤ g := by
  have hmemory := (X.Z_spec _ _ _ _ hZ).memory_paid
  obtain rfl := X.Z_state hZ
  have hprice : Cₘ (μᵢ' s (X.instr s).1) ≤ Cₘ s.activeWords + memoryExpansionCost s (X.instr s).1 :=
    le_add_tsub
  have hpaid := h.paid
  rw [State.gasAvailable_charge hmemory]
  omega

/-- What is paid for memory does not change what is written to it. -/
theorem touches_of_passed (hZ : X.Z validJumps (X.instr s).1 s = .ok (sZ, cost₂))
    (hstep : step E f cost₂ (some (X.instr s)) sZ = .ok s') :
    Touches (callOutput E f cost₂ (X.instr s).1 sZ) (X.instr s).1 s s'.toMachineState := by
  obtain rfl := X.Z_state hZ
  have htouches := step_touches hstep
  exact ⟨htouches.words, htouches.memory⟩

/-- One instruction keeps the memory paid for. -/
theorem State.Paid.next (h : s.Paid g) (hZ : X.Z validJumps (X.instr s).1 s = .ok (sZ, cost₂))
    (hstep : step E f cost₂ (some (X.instr s)) sZ = .ok s') : s'.Paid g := by
  have htouches := touches_of_passed hZ hstep
  have hcovered := X.covered f hZ
  have hgas : s'.gasAvailable.val ≤ sZ.gasAvailable.val :=
    (thrifty E _ hcovered _ hstep).trans hcovered.gas_le
  have hpassed := h.passed hZ
  refine ⟨htouches.within h.within, ?_⟩
  rw [htouches.words]
  omega

/-- Memory that is paid for is written byte by byte. -/
theorem State.Paid.byteAt_next (h : s.Paid g) (hg : g < 2 ^ 64)
    (hZ : X.Z validJumps (X.instr s).1 s = .ok (sZ, cost₂))
    (hstep : step E f cost₂ (some (X.instr s)) sZ = .ok s') (k : ℕ) :
    byteAt s'.memory k =
      (copied (callOutput E f cost₂ (X.instr s).1 sZ) s (X.instr s).1).update
        (byteAt s.memory) k := by
  have htouched := words_lt_of_paid ((Nat.le_add_right _ _).trans (h.passed hZ)) hg
  exact (touches_of_passed hZ hstep).byteAt_memory h.within (by omega) k

/-- Memory that is paid for is loaded word by word. -/
theorem State.Paid.mload (h : s.Paid g) (hg : g < 2 ^ 64)
    (hZ : X.Z validJumps (X.instr s).1 s = .ok (sZ, cost₂))
    (hstep : step E f cost₂ (some (X.instr s)) sZ = .ok s') (hop : (X.instr s).1 = .MLOAD) :
    s'.stack = wordAt (byteAt s.memory) s.stack[0]!.val :: s.stack.drop 1 := by
  have hwords := words_lt_of_paid ((Nat.le_add_right _ _).trans h.paid) hg
  obtain rfl := X.Z_state hZ
  rw [step_mload hop hstep]
  exact congrArg (· :: s.stack.drop 1) (h.within.lookupMemory_eq (by omega) _)

end

namespace Invocation

/-- Code runs with its memory paid for. -/
def Paid (g : ℕ) : Invocation → Prop
  | .X _ _ s => s.Paid g
  | _ => True

theorem Paid.of_reaches {E : Externals} {g : ℕ} {i j : Invocation} (hcovered : i.Covered)
    (hgas : i.gas ≤ g) (hpaid : i.Paid g) (hij : Reaches E i j) :
    j.Covered ∧ j.gas ≤ g ∧ j.Paid g := by
  induction hij with
  | refl => exact ⟨hcovered, hgas, hpaid⟩
  | @tail j k _ hjk ih =>
    obtain ⟨hcovered, hgas, hpaid⟩ := ih
    obtain ⟨hk, hle⟩ := hcovered.of_invokes hjk
    refine ⟨hk, hle.trans hgas, ?_⟩
    cases hjk with
    | X_X hZ hstep hH => exact hpaid.next hZ hstep
    | @Ξ_X f x =>
      refine ⟨Nat.zero_le _, ?_⟩
      show Cₘ 0 + x.g.val ≤ g
      rw [show Cₘ 0 = 0 from rfl, zero_add]
      exact hgas
    | _ => trivial

/-- In the run of any code, from the gas it is started with. -/
theorem paid_of_code {E : Externals} {f f' : ℕ} {x : Ξ.Input} {validJumps : Array UInt256}
    {s : State} (h : Reaches E (.Ξ f x) (.X f' validJumps s)) : s.Paid x.g.val :=
  (Paid.of_reaches (i := .Ξ f x) trivial le_rfl trivial h).2.2

end Invocation

/-! ## Stores and loads -/

theorem wordAt_toByteArray (v : UInt256) : wordAt (byteAt v.toByteArray) 0 = v := by
  have hbytes : ((List.range 32).map fun i => byteAt v.toByteArray (0 + i)) =
      v.toByteArray.data.toList := by
    rw [toList_eq_map_byteAt, v.size_toByteArray]
    simp only [Nat.zero_add]
  have hval : fromBytes' v.toByteArray.data.toList.reverse = v.val :=
    v.fromByteArrayBigEndian_toByteArray
  rw [wordAt, hbytes, hval]
  exact Fin.ext (UInt256.val_ofNat_of_lt v.isLt)

/-- Nothing is written to the word at `a`. -/
def Copied.Avoids (c : Copied) (a : ℕ) : Prop :=
  c.len = 0 ∨ c.dest + c.len ≤ a ∨ a + 32 ≤ c.dest

theorem Copied.Avoids.wordAt_eq {c : Copied} {a : ℕ} (h : c.Avoids a) {m m' : ℕ → UInt8}
    (hm : ∀ k, m' k = c.update m k) : wordAt m' a = wordAt m a := by
  unfold Avoids at h
  refine wordAt_congr fun i hi => ?_
  rw [hm, Copied.update, if_neg (by omega)]

/-- The code gets from `s` to `t`, and none of the instructions on the way writes
to the word at `a`. -/
inductive LeavesWord (E : Externals) (validJumps : Array UInt256) (a : ℕ) :
    ℕ → State → ℕ → State → Prop
  | here (f : ℕ) (s : State) : LeavesWord E validJumps a f s f s
  | next {f f' cost₂ : ℕ} {s sZ s' t : State}
      (hZ : X.Z validJumps (X.instr s).1 s = .ok (sZ, cost₂))
      (hstep : step E f cost₂ (some (X.instr s)) sZ = .ok s')
      (hH : X.H s'.toMachineState (X.instr s).1 = none)
      (havoids : (copied (callOutput E f cost₂ (X.instr s).1 sZ) s (X.instr s).1).Avoids a)
      (h : LeavesWord E validJumps a f s' f' t) : LeavesWord E validJumps a (f + 1) s f' t

theorem LeavesWord.wordAt_eq {E : Externals} {validJumps : Array UInt256} {a f f' g : ℕ}
    {s t : State} (h : LeavesWord E validJumps a f s f' t) (hg : g < 2 ^ 64) (hs : s.Paid g) :
    t.Paid g ∧ wordAt (byteAt t.memory) a = wordAt (byteAt s.memory) a := by
  induction h with
  | here => exact ⟨hs, rfl⟩
  | next hZ hstep _ havoids _ ih =>
    obtain ⟨ht, hword⟩ := ih (hs.next hZ hstep)
    exact ⟨ht, hword.trans (havoids.wordAt_eq (hs.byteAt_next hg hZ hstep))⟩

/-! ## A run that stores a word -/

/-- A call of a contract that stores its own address and loads it again:
`ADDRESS CALLDATASIZE MSTORE CALLDATASIZE MLOAD`. -/
def callStoring : Υ.Input :=
  { callSelfdestructing with
    σ := callSelfdestructing.σ.insert 0xc0de
      { (default : Account) with code := ⟨#[0x30, 0x36, 0x52, 0x36, 0x51]⟩ } }

namespace callStoring

def x : Ξ.Input := (callStoring.toΘ 0xc0de).toΞ

def validJumps : Array UInt256 := D_J x.I.code 0

/-- The code gets to `s` with `f` units of fuel to spend on the next instruction,
which is `op` and leads to `s'`. -/
structure Executes (f : ℕ) (op : Operation) (s sZ : State) (cost₂ : ℕ) (s' : State) : Prop where
  reaches : Reaches (Frame.aimedAt 0) (.Ξ 10 x) (.X (f + 1) validJumps s)
  instr : (X.instr s).1 = op
  passes : X.Z validJumps (X.instr s).1 s = .ok (sZ, cost₂)
  steps : step (Frame.aimedAt 0) f cost₂ (some (X.instr s)) sZ = .ok s'

theorem executes_of_advance {f : ℕ} {op : Operation} {s s' : State}
    (hreaches : Reaches (Frame.aimedAt 0) (.Ξ 10 x) (.X (f + 1) validJumps s))
    (hop : (X.instr s).1 = op) (h : advance (Frame.aimedAt 0) f validJumps s = some s') :
    ∃ sZ cost₂, Executes f op s sZ cost₂ s' := by
  obtain ⟨sZ, cost₂, hZ, hstep, -⟩ := advance_spec h
  exact ⟨sZ, cost₂, hreaches, hop, hZ, hstep⟩

/-- The store, and the load two instructions later. -/
theorem stores_and_loads : ∃ s sZ cost₂ s' t tZ costₜ t', Executes 6 .MSTORE s sZ cost₂ s' ∧
    Executes 4 .MLOAD t tZ costₜ t' ∧ LeavesWord (Frame.aimedAt 0) validJumps 0 6 s' 5 t ∧
    s.stack = [0, 0xc0de] ∧ s.activeWords = 0 ∧ s.memory.size = 0 ∧ t.stack = [0] := by
  let next := fun f => advance (Frame.aimedAt 0) f validJumps
  have hrun : ((advances (Frame.aimedAt 0) validJumps 2 7 x.fresh).bind fun s =>
      (next 6 s).bind fun s' => (next 5 s').bind fun t => (next 4 t).map fun _ =>
        ([(X.instr s).1, (X.instr s').1, (X.instr t).1], [s.stack, t.stack],
          s.activeWords, s.memory.size)) =
      some ([.MSTORE, .CALLDATASIZE, .MLOAD], [[0, 0xc0de], [0]], 0, 0) := by decide +kernel
  obtain ⟨s, hs, hrun⟩ := Option.bind_eq_some_iff.1 hrun
  obtain ⟨s', hs', hrun⟩ := Option.bind_eq_some_iff.1 hrun
  obtain ⟨t, ht, hrun⟩ := Option.bind_eq_some_iff.1 hrun
  obtain ⟨t', ht', hfacts⟩ := Option.map_eq_some_iff.1 hrun
  simp only [Prod.mk.injEq, List.cons.injEq, and_true] at hfacts
  obtain ⟨⟨hstore, hop, hload⟩, ⟨hstack, htop⟩, hwords, hmemory⟩ := hfacts
  have hreaches : Reaches (Frame.aimedAt 0) (.Ξ 10 x) (.X 7 validJumps s) :=
    .head .Ξ_X (reaches_of_advances hs)
  have hthere := (hreaches.trans (reaches_of_advance hs')).trans (reaches_of_advance ht)
  obtain ⟨sZ, cost₂, hexecutes⟩ := executes_of_advance hreaches hstore hs'
  obtain ⟨tZ, costₜ, hexecutes'⟩ := executes_of_advance hthere hload ht'
  obtain ⟨uZ, costᵤ, hZ, hstep, hH⟩ := advance_spec ht
  have havoids : (copied (callOutput (Frame.aimedAt 0) 5 costᵤ (X.instr s').1 uZ) s'
      (X.instr s').1).Avoids 0 := by
    rw [hop]
    exact .inl rfl
  exact ⟨s, sZ, cost₂, s', t, tZ, costₜ, t', hexecutes, hexecutes',
    .next hZ hstep hH havoids (.here 5 t), hstack, hwords, hmemory, htop⟩

end callStoring

/-! ## Memory -/

/-- **Memory is a map of bytes.**  In the run of any code whose gas fits into 64
bits, in every frame of it, `MLOAD` pushes the word that the bytes from its
operand on spell, and an instruction writes the bytes it is said to write, a
call those of the output of its message, and leaves all others as they are. -/
theorem memory_is_a_byte_map {E : Externals} {f f' : ℕ} {x : Ξ.Input}
    {validJumps : Array UInt256} {s : State} (hg : x.g.val < 2 ^ 64)
    (h : Reaches E (.Ξ f x) (.X f' validJumps s)) :
    ∀ n sZ cost₂ s', X.Z validJumps (X.instr s).1 s = .ok (sZ, cost₂) →
      step E n cost₂ (some (X.instr s)) sZ = .ok s' →
        ((X.instr s).1 = .MLOAD →
          s'.stack = wordAt (byteAt s.memory) s.stack[0]!.val :: s.stack.drop 1) ∧
        ∀ k, byteAt s'.memory k =
          (copied (callOutput E n cost₂ (X.instr s).1 sZ) s (X.instr s).1).update
            (byteAt s.memory) k := by
  have hpaid := Invocation.paid_of_code h
  intro n sZ cost₂ s' hZ hstep
  exact ⟨hpaid.mload hg hZ hstep, hpaid.byteAt_next hg hZ hstep⟩

/-- The contract that stores its address writes the first 32 bytes, and loads the
word they spell. -/
theorem memory_is_a_byte_map_callStoring :
    ∃ s sZ cost₂ s' t tZ costₜ t', callStoring.Executes 6 .MSTORE s sZ cost₂ s' ∧
      callStoring.Executes 4 .MLOAD t tZ costₜ t' ∧
      (∀ k, byteAt s'.memory k =
        if k < 32 then byteAt (0xc0de : UInt256).toByteArray k else 0) ∧
      t'.stack = [wordAt (byteAt t.memory) 0] := by
  obtain ⟨s, sZ, cost₂, s', t, tZ, costₜ, t', h, h', -, hstack, -, hmemory, htop⟩ :=
    callStoring.stores_and_loads
  have hg : callStoring.x.g.val < 2 ^ 64 := by decide +kernel
  have hwrites := (memory_is_a_byte_map hg h.reaches 6 sZ cost₂ s' h.passes h.steps).2
  have hloads := (memory_is_a_byte_map hg h'.reaches 4 tZ costₜ t' h'.passes h'.steps).1 h'.instr
  refine ⟨s, sZ, cost₂, s', t, tZ, costₜ, t', h, h', fun k => ?_, ?_⟩
  · rw [hwrites, h.instr, Copied.update, byteAt_of_le (b := s.memory) (by omega)]
    show (if s.stack[0]!.val ≤ k ∧ k < s.stack[0]!.val + 32 then
      byteAt s.stack[1]!.toByteArray (0 + (k - s.stack[0]!.val)) else 0) = _
    simp [hstack]
  · rw [hloads, htop]
    rfl

/-- **A word that is stored is read back.**  When the code stores a word and goes
on without writing to the word at the address of a later `MLOAD`, the `MLOAD`
pushes the word that was stored, if the address is the same, and the word that
was there before the store, if the two do not overlap. -/
theorem stored_words_are_read_back {E : Externals} {f n m : ℕ} {x : Ξ.Input}
    {validJumps : Array UInt256} {s sZ s' t tZ t' : State} {cost₂ costₜ : ℕ}
    (hg : x.g.val < 2 ^ 64) (h : Reaches E (.Ξ f x) (.X (n + 1) validJumps s))
    (hstore : (X.instr s).1 = .MSTORE)
    (hZ : X.Z validJumps (X.instr s).1 s = .ok (sZ, cost₂))
    (hstep : step E n cost₂ (some (X.instr s)) sZ = .ok s')
    (hleaves : LeavesWord E validJumps t.stack[0]!.val n s' (m + 1) t)
    (hload : (X.instr t).1 = .MLOAD)
    (htZ : X.Z validJumps (X.instr t).1 t = .ok (tZ, costₜ))
    (htstep : step E m costₜ (some (X.instr t)) tZ = .ok t') :
    (t.stack[0]! = s.stack[0]! → t'.stack[0]! = s.stack[1]!) ∧
      (t.stack[0]!.val + 32 ≤ s.stack[0]!.val ∨ s.stack[0]!.val + 32 ≤ t.stack[0]!.val →
        t'.stack[0]! = wordAt (byteAt s.memory) t.stack[0]!.val) := by
  have hpaid := Invocation.paid_of_code h
  obtain ⟨hpaid', hword⟩ := hleaves.wordAt_eq hg (hpaid.next hZ hstep)
  have hpushed : t'.stack[0]! = wordAt (byteAt s'.memory) t.stack[0]!.val := by
    rw [hpaid'.mload hg htZ htstep hload, hword]
    rfl
  have hbytes := hpaid.byteAt_next hg hZ hstep
  rw [hstore] at hbytes
  rw [hpushed]
  refine ⟨fun hsame => ?_, fun hapart => ?_⟩
  · have hupdate : ∀ k, byteAt s'.memory k =
        if s.stack[0]!.val ≤ k ∧ k < s.stack[0]!.val + 32 then
          byteAt s.stack[1]!.toByteArray (0 + (k - s.stack[0]!.val))
        else byteAt s.memory k := hbytes
    rw [hsame, ← wordAt_toByteArray s.stack[1]!]
    refine wordAt_congr fun i hi => ?_
    rw [hupdate, if_pos (by omega), Nat.add_sub_cancel_left]
  · exact Copied.Avoids.wordAt_eq (.inr hapart.symm) hbytes

/-- The address of the contract is loaded again. -/
theorem stored_words_are_read_back_callStoring :
    ∃ t tZ costₜ t', callStoring.Executes 4 .MLOAD t tZ costₜ t' ∧ t'.stack[0]! = 0xc0de := by
  obtain ⟨s, sZ, cost₂, s', t, tZ, costₜ, t', h, h', hleaves, hstack, -, -, htop⟩ :=
    callStoring.stores_and_loads
  have hzero : t.stack[0]! = 0 := by rw [htop]; rfl
  have hread := (stored_words_are_read_back (by decide +kernel) h.reaches h.instr h.passes h.steps
    (by rw [hzero]; exact hleaves) h'.instr h'.passes h'.steps).1
  rw [htop, hstack] at hread
  exact ⟨t, tZ, costₜ, t', h', hread rfl⟩

end EVM
end EvmYul
