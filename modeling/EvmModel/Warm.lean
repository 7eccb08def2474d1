import EvmModel.Lib.TreeFold
import EvmModel.BigStep
import EvmModel.Permanence

/-!
# The accrued substate only grows

Along a run addresses and storage keys that have been touched stay warm, the log
is only added to, and no mark for removal is taken back; the set of touched
accounts of the source is never written at all.

* `Substate.Grows` — the order;
* `step_grows` — the instructions keep it;
* `substate_grows` — so does every run, also when part of it is rolled back.
-/

namespace EvmYul

/-! ## The order -/

instance storageKeysCmp.transCmp : Std.TransCmp storageKeysCmp :=
  inferInstanceAs (Std.TransCmp (compareLex (compareOn Prod.fst) (compareOn Prod.snd)))

/-- `A'` has everything that has accrued in `A`. -/
structure Substate.Grows (A A' : Substate) : Prop where
  logs : ∃ l, A'.logSeries = A.logSeries ++ l
  doomed : ∀ a ∈ A.selfDestructSet, a ∈ A'.selfDestructSet
  accounts : ∀ a ∈ A.accessedAccounts, a ∈ A'.accessedAccounts
  keys : ∀ k ∈ A.accessedStorageKeys, k ∈ A'.accessedStorageKeys
  touched : A'.touchedAccounts = A.touchedAccounts

namespace Substate.Grows

variable {A A' A'' : Substate}

@[refl] theorem refl (A : Substate) : A.Grows A :=
  ⟨⟨#[], (Array.append_empty).symm⟩, fun _ h => h, fun _ h => h, fun _ h => h, rfl⟩

theorem of_eq (h : A' = A) : A.Grows A' := h ▸ refl A

theorem trans (h : A.Grows A') (h' : A'.Grows A'') : A.Grows A'' where
  logs := by
    obtain ⟨l, hl⟩ := h.logs
    obtain ⟨l', hl'⟩ := h'.logs
    exact ⟨l ++ l', by rw [hl', hl, Array.append_assoc]⟩
  doomed a ha := h'.doomed a (h.doomed a ha)
  accounts a ha := h'.accounts a (h.accounts a ha)
  keys k hk := h'.keys k (h.keys k hk)
  touched := h'.touched.trans h.touched

theorem addAccessedAccount (A : Substate) (a : AccountAddress) :
    A.Grows (A.addAccessedAccount a) :=
  { refl A with accounts := fun _ h => TreeFold.mem_insert_iff.2 (.inr h) }

theorem addAccessedStorageKey (A : Substate) (k : AccountAddress × UInt256) :
    A.Grows (A.addAccessedStorageKey k) :=
  { refl A with keys := fun _ h => Std.TreeSet.mem_insert.2 (.inr h) }

end Substate.Grows

namespace EVM

/-! ## Operations on the state -/

theorem sstore_grows (s : EvmYul.State) (k v : UInt256) : s.substate.Grows (s.sstore k v).substate := by
  cases hacc : s.lookupAccount s.executionEnv.codeOwner with
  | none =>
    simp only [EvmYul.State.sstore, hacc]
    rfl
  | some acc =>
    simp only [EvmYul.State.sstore, hacc]
    exact { Substate.Grows.addAccessedStorageKey s.substate (s.executionEnv.codeOwner, k) with }

theorem logOp_grows (s : SharedState) (a b : UInt256) (t : Array UInt256) :
    s.substate.Grows (SharedState.logOp a b t s).substate :=
  { Substate.Grows.refl s.substate with logs := ⟨#[_], rfl⟩ }

theorem extCodeHash_grows (E : Externals) (s : EvmYul.State) (v : UInt256) :
    s.substate.Grows (s.extCodeHash E v).1.substate := by
  unfold EvmYul.State.extCodeHash
  dsimp only
  split
  · exact .addAccessedAccount _ _
  · split
    · exact .addAccessedAccount _ _
    · exact .addAccessedAccount _ _

/-! ## The instructions -/

theorem unaryStateOp_grows (op : EvmYul.State → UInt256 → EvmYul.State × UInt256)
    (h : ∀ (s : EvmYul.State) (v : UInt256), s.substate.Grows (op s v).1.substate) (s : State) :
    Ensures (unaryStateOp op s) fun s' => s.substate.Grows s'.substate := by
  unfold unaryStateOp
  split
  · exact Ensures.ok_iff.2 (h _ _)
  · exact Ensures.error

/-- An instruction that calls nobody adds to the substate. -/
theorem step_grows (E : Externals) (op : Operation) (arg : Option (UInt256 × ℕ)) (s : State)
    (hcall : op.isCallOrCreate = false) :
    Ensures (EvmYul.step E op arg s) fun s' => s.substate.Grows s'.substate := by
  cases op with
  | CREATE | CALL | CALLCODE | DELEGATECALL | CREATE2 | STATICCALL => cases hcall
  | BALANCE => exact unaryStateOp_grows EvmYul.State.balance (fun _ _ => .addAccessedAccount _ _) s
  | EXTCODESIZE => exact unaryStateOp_grows EvmYul.State.extCodeSize (fun _ _ => .addAccessedAccount _ _) s
  | EXTCODEHASH => exact unaryStateOp_grows (EvmYul.State.extCodeHash E) (extCodeHash_grows E) s
  | SLOAD => exact unaryStateOp_grows EvmYul.State.sload (fun _ _ => .addAccessedStorageKey _ _) s
  | SSTORE =>
    show Ensures (binaryStateOp _ s) _
    unfold binaryStateOp
    split
    · exact Ensures.ok_iff.2 (sstore_grows _ _ _)
    · exact Ensures.error
  | EXTCODECOPY =>
    show Ensures (quaternaryCopyOp _ s) _
    unfold quaternaryCopyOp
    split
    · exact Ensures.ok_iff.2 (.addAccessedAccount _ _)
    · exact Ensures.error
  | Log n =>
    show Ensures (logNOp n s) _
    unfold logNOp
    split
    · exact Ensures.ite (fun _ => Ensures.ok_iff.2 (logOp_grows _ _ _ _)) fun _ => Ensures.error
    · exact Ensures.error
  | SELFDESTRUCT =>
    show Ensures (selfdestruct s) _
    unfold selfdestruct
    split
    · refine Ensures.ok_iff.2 { Substate.Grows.addAccessedAccount s.substate _ with doomed := ?_ }
      intro a ha
      show a ∈ if s.createdAccounts.contains s.executionEnv.codeOwner then _ else _
      split
      · exact TreeFold.mem_insert_iff.2 (.inr ha)
      · exact ha
    · exact Ensures.error
  | TLOAD =>
    refine unaryStateOp_grows EvmYul.State.tload (fun s v => ?_) s
    unfold EvmYul.State.tload
    split <;> rfl
  | TSTORE =>
    show Ensures (binaryStateOp _ s) _
    unfold binaryStateOp
    split
    · refine Ensures.ok_iff.2 ?_
      cases hacc : s.lookupAccount s.executionEnv.codeOwner <;>
        simp only [EvmYul.State.tstore, hacc] <;> rfl
    · exact Ensures.error
  -- the substate is not touched
  | INVALID => exact Ensures.error
  | Push n =>
    by_cases hn : n.val = 0
    · simp only [EvmYul.step, hn, if_true]
      exact Ensures.ok_iff.2 (.refl _)
    · cases arg with
      | none => simp [EvmYul.step, hn, push]
      | some p =>
        simp only [EvmYul.step, hn, if_false, push]
        exact Ensures.ok_iff.2 (.refl _)
  | Dup n => exact Ensures.ite (fun _ => Ensures.ok_iff.2 (.refl _)) fun _ => Ensures.error
  | Exchange n => exact Ensures.ite (fun _ => Ensures.ok_iff.2 (.refl _)) fun _ => Ensures.error
  | STOP | PC | JUMPDEST => exact Ensures.ok_iff.2 (.refl _)
  | ADDRESS | ORIGIN | CALLER | CALLVALUE | CALLDATASIZE | CODESIZE | GASPRICE | RETURNDATASIZE
  | COINBASE | TIMESTAMP | NUMBER | PREVRANDAO | GASLIMIT | CHAINID | SELFBALANCE | BASEFEE
  | BLOBBASEFEE | MSIZE | GAS => exact Ensures.ok_iff.2 (.refl _)
  | _ =>
    simp only [EvmYul.step, execUnOp, execBinOp, execTriOp, unaryExecutionEnvOp,
      unaryMachineStateOp', binaryMachineStateOp, binaryMachineStateOp', ternaryMachineStateOp,
      unaryStateOp, ternaryCopyOp, pop, jump, jumpi]
    split
    · exact Ensures.ok_iff.2 (.refl _)
    · exact Ensures.error

/-! ## Runs -/

/-- What an invocation hands on has everything that had accrued. -/
theorem Yields.grows {E : Externals} {i : Invocation} {w : World} (h : Yields E i w) :
    i.world.A.Grows w.A := by
  induction h with
  | call_refused => exact .addAccessedAccount _ _
  | call_made _ _ ih => exact (Substate.Grows.addAccessedAccount _ _).trans ih
  | step_not_created | Θ_failed | Θ_precompiled_failed | Θ_precompiled | Θ_emptied =>
    exact .refl _
  | @step_instr _ gasCost _ s _ p _ hop h =>
    exact step_grows E p.1 p.2 (s.count.charge gasCost) hop _ h
  | step_call _ hcall _ ih =>
    rw [Invocation.world, step.callInput_world hcall] at ih
    exact ih
  | step_created _ hcreate _ _ _ ih =>
    exact (Substate.Grows.of_eq (congrArg World.A (step.createInput_world hcreate))).trans ih
  | X_halt hZ _ ih =>
    rw [Invocation.world, X.Z_world hZ] at ih
    exact ih
  | X_next hZ _ _ _ _ ihstep ihX =>
    rw [Invocation.world, X.Z_world hZ] at ihstep
    exact ihstep.trans ihX
  | Ξ_code _ ih | Θ_code _ _ ih => exact ih
  | Lambda_failed | Lambda_discarded => exact .addAccessedAccount _ _
  | Lambda_deposited _ _ _ ih => exact (Substate.Grows.addAccessedAccount _ _).trans ih

/-- The invocations made start with everything that had accrued. -/
theorem Invokes.grows {E : Externals} {i j : Invocation} (h : Invokes E i j) :
    i.world.A.Grows j.world.A := by
  cases h with
  | call_Θ => exact .addAccessedAccount _ _
  | Ξ_X | Θ_Ξ => exact .refl _
  | step_call _ hcall =>
    rw [Invocation.world, Invocation.world, step.callInput_world hcall]
  | @step_Lambda _ _ _ s _ c _ hcreate =>
    have hA : c.evmState.substate = s.substate :=
      congrArg World.A (step.createInput_world hcreate)
    exact .of_eq hA
  | X_step hZ =>
    rw [Invocation.world, Invocation.world, X.Z_world hZ]
  | @X_X f _ s sZ s' cost₂ hZ hs' =>
    have hgrows := (Returned.yields (i := .step f cost₂ _ sZ) ⟨s', hs', rfl⟩).grows
    rw [Invocation.world, X.Z_world hZ] at hgrows
    exact hgrows
  | Lambda_Ξ => exact .addAccessedAccount _ _

/-- **The accrued substate only grows.**  Every frame of a run starts with what
had accrued when the run started, and hands that on with what it adds: a failure
takes back no more than what was added inside the part that failed. -/
theorem substate_grows (E : Externals) (i : Invocation) :
    ∀ j, Reaches E i j → i.world.A.Grows j.world.A ∧
      ∀ w, Returned E j w → i.world.A.Grows w.A := by
  intro j hj
  obtain ⟨-, hgrows⟩ := hj.carries (P := fun _ => True) (R := fun w w' => w.A.Grows w'.A)
    (fun _ => .refl _) (fun h h' => h.trans h') (fun _ h => ⟨trivial, h.grows⟩) trivial
  exact ⟨hgrows, fun w hw => hgrows.trans hw.yields.grows⟩

/-- The code of a contract that is called returns, and has taken nothing back. -/
theorem substate_grows_callSelfdestructing :
    let s := (callSelfdestructing.toΘ 0xc0de).toΞ.fresh
    callSelfdestructing.AStar.Grows s.substate ∧
      ∃ w, Returned (Frame.aimedAt 0) (.X 8 (D_J s.executionEnv.code 0) s) w ∧
        callSelfdestructing.AStar.Grows w.A := by
  intro s
  obtain ⟨hstart, hreturned⟩ := substate_grows (Frame.aimedAt 0) (callSelfdestructing.top 10) _
    (callSelfdestructing.reaches_code rfl (by decide) _ 8)
  have hruns : (match X (Frame.aimedAt 0) 8 (D_J s.executionEnv.code 0) s with
      | .ok (.success _ _) => true
      | _ => false) = true := by decide +kernel
  split at hruns
  next s' o h => exact ⟨hstart, s'.world, ⟨s', o, h, rfl⟩, hreturned _ ⟨s', o, h, rfl⟩⟩
  · cases hruns

end EVM
end EvmYul
