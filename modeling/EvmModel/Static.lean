import EvmModel.BigStep
import EvmModel.TrustedBase

/-!
# Static frames

A frame without permission to write leaves the accounts, the log and the
accounts marked for removal as they are, and so does everything it calls.  The
check for exceptional halting turns down the instructions that write; what is
left are the calls, which hand on no permission and, apart from `CALLCODE`, no
value, and `CALLCODE` sends its value from the running account to itself.

* `Invocation.Static` — what the frames under a static one look like;
* `World.Frozen` — the accounts, the log and the marks are the same, and no
  account is newly created;
* `static_frames_write_nothing` — throughout the run of a static frame the world
  is frozen.
-/

namespace EvmYul

/-! ## Worlds that stay as they are -/

/-- `w'` has the accounts, the log and the marked accounts of `w`, and no more
created accounts. -/
structure World.Frozen (w w' : World) : Prop where
  accounts : ∀ a : AccountAddress, w'.σ[a]? = w.σ[a]?
  logs : w'.A.logSeries = w.A.logSeries
  doomed : w'.A.selfDestructSet = w.A.selfDestructSet
  created : ∀ a ∈ w'.createdAccounts, a ∈ w.createdAccounts

namespace World.Frozen

theorem refl (w : World) : w.Frozen w := ⟨fun _ => rfl, rfl, rfl, fun _ h => h⟩

theorem of_eq {w w' : World} (h : w' = w) : w.Frozen w' := h ▸ refl w

theorem trans {u v w : World} (huv : u.Frozen v) (hvw : v.Frozen w) : u.Frozen w where
  accounts a := (hvw.accounts a).trans (huv.accounts a)
  logs := hvw.logs.trans huv.logs
  doomed := hvw.doomed.trans huv.doomed
  created a h := huv.created a (hvw.created a h)

end World.Frozen

/-- Writing an account back as it is changes nothing. -/
theorem AccountMap.getElem?_insert_same {σ : AccountMap} {a : AccountAddress} {acc : Account}
    (h : σ[a]? = some acc) (b : AccountAddress) : (σ.insert a acc)[b]? = σ[b]? := by
  rw [Std.TreeMap.getElem?_insert]
  split
  next hab =>
    obtain rfl := Std.LawfulEqCmp.compare_eq_iff_eq.1 hab
    exact h.symm
  · rfl

namespace EVM

/-! ## Messages that move nothing -/

/-- No value is sent, or what is sent comes from the recipient, which has it. -/
def Θ.Input.Inward (x : Θ.Input) : Prop := x.v = 0 ∨ x.s = x.r ∧ x.v ≤ x.σ.balance x.r

namespace Θ.Input

variable {x : Θ.Input}

theorem v_eq_zero_of_absent (h : x.Inward) (hr : x.σ[x.r]? = none) : x.v = 0 := by
  obtain hv | ⟨-, hv⟩ := h
  · exact hv
  · have hzero : x.σ.balance x.r = 0 := by simp only [AccountMap.balance, hr]
    rw [hzero] at hv
    exact nonpos_iff_eq_zero.1 hv

/-- The transfer of such a message leaves every account as it is. -/
theorem getElem?_σ₁ (h : x.Inward) (a : AccountAddress) : x.σ₁[a]? = x.σ[a]? := by
  by_cases hv : x.v = 0
  · -- nothing is sent
    have hcredit : ∀ b : AccountAddress, x.σ'₁[b]? = x.σ[b]? := by
      intro b
      unfold σ'₁
      cases hr : x.σ[x.r]? with
      | none => simp [hv]
      | some acc => simpa [hv] using AccountMap.getElem?_insert_same hr b
    rw [← hcredit a]
    unfold σ₁
    cases hs : x.σ'₁[x.s]? with
    | none => rfl
    | some acc => simpa [hv] using AccountMap.getElem?_insert_same hs a
  · -- what is sent comes back to the account it is sent from
    obtain ⟨hsr, -⟩ := h.resolve_left hv
    cases hr : x.σ[x.r]? with
    | none => exact absurd (v_eq_zero_of_absent h hr) hv
    | some acc =>
      have hcredit : x.σ'₁ = x.σ.insert x.r { acc with balance := acc.balance + x.v } := by
        simp only [σ'₁, hr]
      have hs : x.σ'₁[x.r]? = some { acc with balance := acc.balance + x.v } := by
        rw [hcredit, Std.TreeMap.getElem?_insert_self]
      have hback : x.σ₁ = x.σ'₁.insert x.r acc := by
        simp only [σ₁, hsr, hs, add_sub_cancel_right]
      rw [hback, hcredit, ← AccountMap.getElem?_insert_same hr a]
      simp only [Std.TreeMap.getElem?_insert]
      split <;> rfl

end Θ.Input

/-! ## The frames under a static one -/

namespace Invocation

/-- An invocation without permission to write. -/
def Static : Invocation → Prop
  | .call _ c => c.permission = false ∧ (c.allowed → c.toΘ.Inward)
  | .step _ _ instr s =>
    s.executionEnv.perm = false ∧ ∃ p, instr = some p ∧ ¬X.W p.1 s.stack
  | .X _ _ s => s.executionEnv.perm = false
  | .Ξ _ x => x.I.perm = false
  | .Lambda _ _ => False
  | .Θ _ x => x.w = false ∧ x.Inward

end Invocation

/-- The instructions that write are among those that are turned down. -/
theorem X.W_of_isWrite {op : Operation} (h : op.isWrite) (stack : Stack) : X.W op stack := by
  refine .inl ?_
  cases op with
  | SSTORE | TSTORE | SELFDESTRUCT => decide
  | Log n => revert n; decide
  | _ => cases h

theorem X.W_of_isCreate {op : Operation} (h : op.isCreate) (stack : Stack) : X.W op stack := by
  refine .inl ?_
  cases op with
  | CREATE | CREATE2 => decide
  | _ => cases h

/-- The calls of a static frame are static and move nothing. -/
theorem step.callInput_static {w : Operation} {gasCost : ℕ} {s : State} {c : call.Input}
    {stack : Stack} (hperm : s.executionEnv.perm = false) (hW : ¬X.W w s.stack)
    (h : step.callInput w gasCost s = some (c, stack)) :
    c.permission = false ∧ (c.allowed → c.toΘ.Inward) := by
  unfold step.callInput at h
  dsimp only at h
  split at h
  next μ₀ μ₁ μ₂ μ₃ μ₄ μ₅ μ₆ stk hstack =>
    cases h
    have hv : μ₂ = 0 := by
      by_contra hne
      refine hW (.inr ⟨rfl, ?_⟩)
      rw [hstack]
      simpa using hne
    exact ⟨hperm, fun _ => .inl hv⟩
  next μ₀ μ₁ μ₂ μ₃ μ₄ μ₅ μ₆ stk hstack =>
    cases h
    refine ⟨hperm, fun hallowed => .inr ⟨rfl, ?_⟩⟩
    show μ₂ ≤ s.accountMap.balance (.ofUInt256 (.ofNat s.executionEnv.codeOwner.val))
    rw [AccountAddress.ofUInt256_ofNat]
    exact hallowed.1
  · cases h
    exact ⟨hperm, fun _ => .inl rfl⟩
  · cases h
    exact ⟨rfl, fun _ => .inl rfl⟩
  · cases h

/-- An instruction that a static frame can run reads, calls or is not there. -/
theorem step_frozen {E : Externals} {op : Operation} {arg : Option (UInt256 × ℕ)} {s s' : State}
    (hW : ¬X.W op s.stack) (hcall : op.isCallOrCreate = false)
    (h : EvmYul.step E op arg s = .ok s') : s.world.Frozen s'.world := by
  have hop : op.isWrite = false := by
    by_contra hne
    exact hW (X.W_of_isWrite (by simpa using hne) _)
  obtain ⟨hview, -⟩ := step_reads E op arg hop hcall s' h
  have hσ : s'.accountMap = s.accountMap := congrArg View.accounts hview
  have hcreated : s'.createdAccounts = s.createdAccounts := congrArg View.created hview
  refine ⟨fun a => ?_, congrArg View.logs hview, congrArg View.doomed hview, fun a ha => ?_⟩
  · show s'.accountMap[a]? = s.accountMap[a]?
    rw [hσ]
  · show a ∈ s.createdAccounts
    rw [← hcreated]
    exact ha

/-- The transfer of a message that moves nothing. -/
theorem Θ.Input.frozen_toΞ {x : Θ.Input} (h : x.Inward) : x.world.Frozen x.toΞ.world :=
  ⟨x.getElem?_σ₁ h, rfl, rfl, fun _ h => h⟩

namespace Invocation.Static

variable {E : Externals}

/-- A static frame is handed a static state by the check before an instruction. -/
theorem of_Z {f : ℕ} {validJumps : Array UInt256} {s sZ : State} {cost₂ : ℕ}
    (hs : s.executionEnv.perm = false) (hZ : X.Z validJumps (X.instr s).1 s = .ok (sZ, cost₂)) :
    (Invocation.step f cost₂ (some (X.instr s)) sZ).Static ∧ sZ.world = s.world := by
  have hpassed := X.Z_spec validJumps (X.instr s).1 s _ hZ
  obtain rfl : sZ = s.charge _ := hpassed.state
  exact ⟨⟨hs, X.instr s, rfl, hpassed.permitted hs⟩, rfl⟩

/-- What a static invocation hands on is frozen. -/
theorem frozen_of_yields {i : Invocation} {w : World} (h : Yields E i w) (hi : i.Static) :
    i.world.Frozen w := by
  induction h with
  | call_refused h => exact ⟨fun _ => rfl, rfl, rfl, fun _ h => h⟩
  | call_made h _ ih =>
    refine World.Frozen.trans ?_ (ih ⟨hi.1, hi.2 h⟩)
    exact ⟨fun _ => rfl, rfl, rfl, fun _ h => h⟩
  | @step_instr _ gasCost _ s _ _ hfetch hop h =>
    obtain ⟨-, p, rfl, hW⟩ := hi
    obtain rfl := Except.ok.inj hfetch
    exact step_frozen (s := s.count.charge gasCost) hW hop h
  | @step_call _ _ _ s _ c _ _ hfetch hcall _ ih =>
    obtain ⟨hperm, p, rfl, hW⟩ := hi
    obtain rfl := Except.ok.inj hfetch
    have hs : c.evmState.world = s.world := by rw [step.callInput_evmState hcall]; rfl
    exact (World.Frozen.of_eq hs).trans (ih (step.callInput_static (s := s.count) hperm hW hcall))
  | step_not_created hfetch hcreate | step_created hfetch hcreate =>
    obtain ⟨-, p, rfl, hW⟩ := hi
    obtain rfl := Except.ok.inj hfetch
    exact absurd (X.W_of_isCreate (step.createInput_isCreate hcreate) _) hW
  | X_halt hZ _ ih =>
    obtain ⟨hstatic, hw⟩ := of_Z hi hZ
    exact (World.Frozen.of_eq hw).trans (ih hstatic)
  | X_next hZ hs' _ _ _ ihstep ihX =>
    obtain ⟨hstatic, hw⟩ := of_Z hi hZ
    have hperm := (congrArg ExecutionEnv.perm (step_executionEnv hs')).trans hstatic.1
    exact (World.Frozen.of_eq hw).trans ((ihstep hstatic).trans (ihX hperm))
  | Ξ_code _ ih => exact ih hi
  | Lambda_failed | Lambda_discarded | Lambda_deposited => exact hi.elim
  | @Θ_failed _ x => exact .refl x.world
  | Θ_precompiled_failed =>
    exact ⟨fun _ => rfl, rfl, rfl, fun _ h => absurd h Std.TreeSet.not_mem_emptyc⟩
  | @Θ_precompiled _ x =>
    exact ⟨x.getElem?_σ₁ hi.2, rfl, rfl, fun _ h => absurd h Std.TreeSet.not_mem_emptyc⟩
  | @Θ_code _ x _ _ _ _ ih => exact (Θ.Input.frozen_toΞ hi.2).trans (ih hi.1)
  | @Θ_emptied _ x _ _ _ _ ih =>
    have hfrozen := (Θ.Input.frozen_toΞ hi.2).trans (ih hi.1)
    exact ⟨fun _ => rfl, rfl, rfl, hfrozen.created⟩

/-- The invocations a static one makes are static, and start with the same world. -/
theorem of_invokes {i j : Invocation} (hi : i.Static) (h : Invokes E i j) :
    j.Static ∧ i.world.Frozen j.world := by
  cases h with
  | call_Θ h => exact ⟨⟨hi.1, hi.2 h⟩, ⟨fun _ => rfl, rfl, rfl, fun _ h => h⟩⟩
  | @step_call _ _ _ s _ c _ hfetch hcall =>
    obtain ⟨hperm, p, rfl, hW⟩ := hi
    obtain rfl := Except.ok.inj hfetch
    have hs : c.evmState.world = s.world := by rw [step.callInput_evmState hcall]; rfl
    exact ⟨step.callInput_static (s := s.count) hperm hW hcall, .of_eq hs⟩
  | step_Lambda hfetch hcreate =>
    obtain ⟨-, p, rfl, hW⟩ := hi
    obtain rfl := Except.ok.inj hfetch
    exact absurd (X.W_of_isCreate (step.createInput_isCreate hcreate) _) hW
  | X_step hZ =>
    obtain ⟨hstatic, hw⟩ := of_Z hi hZ
    exact ⟨hstatic, .of_eq hw⟩
  | @X_X f _ s sZ s' cost₂ hZ hs' hH =>
    obtain ⟨hstatic, hw⟩ := of_Z hi hZ
    have hperm := (congrArg ExecutionEnv.perm (step_executionEnv hs')).trans hstatic.1
    have hyields := Returned.yields (i := .step f cost₂ _ sZ) ⟨s', hs', rfl⟩
    exact ⟨hperm, (World.Frozen.of_eq hw).trans (frozen_of_yields hyields hstatic)⟩
  | Ξ_X => exact ⟨hi, .refl _⟩
  | Lambda_Ξ => exact hi.elim
  | @Θ_Ξ _ x _ hc => exact ⟨hi.1, Θ.Input.frozen_toΞ hi.2⟩

end Invocation.Static

/-- **Static frames write nothing.**  In the run that starts with an invocation
without permission to write, every frame is static, starts with the accounts,
the log and the marks the run starts with, and hands them on. -/
theorem static_frames_write_nothing (E : Externals) {i : Invocation} (hi : i.Static) :
    ∀ j, Reaches E i j → j.Static ∧ i.world.Frozen j.world ∧
      ∀ w, Returned E j w → i.world.Frozen w := by
  intro j hj
  obtain ⟨hstatic, hfrozen⟩ := hj.carries World.Frozen.refl (fun h h' => h.trans h')
    (fun h h' => h.of_invokes h') hi
  refine ⟨hstatic, hfrozen, fun w hw => ?_⟩
  exact hfrozen.trans (hstatic.frozen_of_yields hw.yields)

/-- A frame without permission that loads a storage slot: `PUSH0 SLOAD STOP`. -/
def staticLoad : Ξ.Input where
  createdAccounts := ∅
  genesisBlockHeader := default
  blocks := #[]
  σ := (∅ : AccountMap).insert 0xc0de { (default : Account) with balance := 5 }
  σ₀ := ∅
  g := .ofNat 10000
  A := default
  I := { (default : ExecutionEnv) with codeOwner := 0xc0de, code := ⟨#[0x5f, 0x54, 0x00]⟩ }

/-- It returns, and has written nothing. -/
theorem static_frames_write_nothing_staticLoad :
    ∃ w, Returned (Frame.aimedAt 0) (.Ξ 10 staticLoad) w ∧ staticLoad.world.Frozen w := by
  have hstatic : (Invocation.Ξ 10 staticLoad).Static := rfl
  have hsucceeds : (match Ξ (Frame.aimedAt 0) 10 staticLoad with
      | .ok (.success _ _) => true
      | _ => false) = true := by decide +kernel
  split at hsucceeds
  next r o h =>
    have hreturned : Returned (Frame.aimedAt 0) (.Ξ 10 staticLoad) r.world := ⟨r, o, h, rfl⟩
    exact ⟨_, hreturned, (static_frames_write_nothing _ hstatic _ .refl).2.2 _ hreturned⟩
  · cases hsucceeds

end EVM
end EvmYul
