import EvmModel.Accounts
import EvmModel.ControlFlow

/-!
# Only its own code changes an account

The nonce, the code, the storage and the transient storage of an account are
changed by the frames that run in its name and by nobody else.  Messages and
self-destructions of others move balances only; `SSTORE`, `TSTORE` and the
counting up of the nonce are about the running account, and a creation writes
to the address its initialisation code runs at.

* `Invocation.Spares` — no frame of a run is in the name of the account;
* `Invocation.Spares.of_callsNobody` — as it is when the code that runs is that of
  another account and calls nobody;
* `spared_account_keeps_holdings` — then the account holds, throughout the run
  and after it, what it held before.
-/

namespace EvmYul

/-- `w'` has at `C` what `w` has there, the balance apart. -/
def World.SameHoldings (C : AccountAddress) (w w' : World) : Prop :=
  (w'.σ.account C).holdings = (w.σ.account C).holdings

namespace EVM

open AccountMap

/-! ## Frames in the name of an account -/

namespace Invocation

/-- The account in whose name an invocation runs. -/
def owner : Invocation → Option AccountAddress
  | .call _ c => some c.evmState.executionEnv.codeOwner
  | .step _ _ _ s => some s.executionEnv.codeOwner
  | .X _ _ s => some s.executionEnv.codeOwner
  | .Ξ _ x => some x.I.codeOwner
  | .Lambda _ _ => none
  | .Θ _ _ => none

/-- No frame of the run that starts with `i` is in the name of `C`. -/
def Spares (E : Externals) (C : AccountAddress) (i : Invocation) : Prop :=
  ∀ j, Reaches E i j → j.owner ≠ some C

variable {E : Externals} {C : AccountAddress} {i j : Invocation}

theorem Spares.of_invokes (h : i.Spares E C) (hij : Invokes E i j) : j.Spares E C :=
  fun k hk => h k (.head hij hk)

theorem Spares.ne {a : AccountAddress} (h : i.Spares E C) (ha : i.owner = some a) : a ≠ C := by
  rintro rfl
  exact h i .refl ha

end Invocation

/-! ## Code that calls nobody -/

/-- No instruction of the code calls or creates. -/
def CallsNobody (code : ByteArray) : Prop :=
  ∀ pc op, instrAt code pc = some op → op.isCallOrCreate = false

/-- It is enough that no byte of it stands for such an instruction. -/
theorem callsNobody_of_bytes {code : ByteArray}
    (h : ∀ b ∈ code.data.toList, ∀ op ∈ parseInstr b, op.isCallOrCreate = false) :
    CallsNobody code := by
  intro pc op hop
  obtain ⟨b, hb, hparse⟩ := Option.bind_eq_some_iff.1 hop
  exact h b (Array.mem_toList_iff.2 (Array.mem_of_getElem? hb)) op hparse

theorem CallsNobody.instr {s : State} (h : CallsNobody s.executionEnv.code) :
    (X.instr s).1.isCallOrCreate = false := by
  rcases X.instr_cases s with hend | hinstr
  · rw [hend]
    rfl
  · exact h _ _ hinstr

theorem step.callInput_isCallOrCreate {w : Operation} {gasCost : ℕ} {s : State}
    {p : call.Input × Stack} (h : step.callInput w gasCost s = some p) :
    w.isCallOrCreate = true := by
  unfold step.callInput at h
  dsimp only at h
  split at h <;> cases h <;> rfl

theorem isCallOrCreate_of_isCreate {w : Operation} (h : w.isCreate = true) :
    w.isCallOrCreate = true := by
  cases w with
  | CREATE | CREATE2 => rfl
  | _ => cases h

namespace Invocation

/-- The code of `I` runs in `I`, and calls nobody. -/
def Alone (I : ExecutionEnv) : Invocation → Prop
  | .Ξ _ x => x.I = I
  | .X _ _ s => s.executionEnv = I
  | .step _ _ instr s =>
    s.executionEnv = I ∧ ∃ p, instr = some p ∧ p.1.isCallOrCreate = false
  | _ => False

theorem Alone.of_invokes {E : Externals} {I : ExecutionEnv} (hI : CallsNobody I.code)
    {i j : Invocation} (hi : i.Alone I) (h : Invokes E i j) : j.Alone I := by
  cases h with
  | call_Θ | Lambda_Ξ | Θ_Ξ => exact hi.elim
  | Ξ_X => exact hi
  | X_step hZ =>
    obtain rfl := X.Z_state hZ
    obtain rfl := hi
    exact ⟨rfl, _, rfl, CallsNobody.instr hI⟩
  | X_X hZ hstep =>
    have henv := step_executionEnv hstep
    obtain rfl := X.Z_state hZ
    exact henv.trans hi
  | step_call hfetch hcall =>
    obtain ⟨-, p, rfl, hop⟩ := hi
    obtain rfl := Except.ok.inj hfetch
    rw [step.callInput_isCallOrCreate hcall] at hop
    cases hop
  | step_Lambda hfetch hcreate =>
    obtain ⟨-, p, rfl, hop⟩ := hi
    obtain rfl := Except.ok.inj hfetch
    rw [isCallOrCreate_of_isCreate (step.createInput_isCreate hcreate)] at hop
    cases hop

theorem Alone.of_reaches {E : Externals} {I : ExecutionEnv} (hI : CallsNobody I.code)
    {i j : Invocation} (hi : i.Alone I) (h : Reaches E i j) : j.Alone I := by
  induction h with
  | refl => exact hi
  | tail _ hjk ih => exact ih.of_invokes hI hjk

theorem Alone.owner_eq {I : ExecutionEnv} {i : Invocation} (h : i.Alone I) :
    i.owner = some I.codeOwner := by
  cases i with
  | call | Lambda | Θ => exact h.elim
  | Ξ | X => exact congrArg (fun I => some I.codeOwner) h
  | step => exact congrArg (fun I => some I.codeOwner) h.1

/-- Code that calls nobody runs in one frame, which is in the name of nobody else. -/
theorem Spares.of_callsNobody {E : Externals} {C : AccountAddress} {f : ℕ} {x : Θ.Input}
    {code : ByteArray} (hc : x.c = .Code code) (hcode : CallsNobody code) (hC : x.r ≠ C) :
    (Invocation.Θ f x).Spares E C := by
  intro j hj
  rcases hj.cases_head with rfl | ⟨k, hk, hkj⟩
  · exact (Option.some_ne_none C).symm
  cases hk with
  | @Θ_Ξ f =>
    have hI : CallsNobody x.toΞ.I.code := by
      rw [show x.toΞ.I.code = code by simp only [Θ.Input.toΞ, Θ.Input.I, hc]]
      exact hcode
    have halone : (Invocation.Ξ f x.toΞ).Alone x.toΞ.I := rfl
    rw [(halone.of_reaches hI hkj).owner_eq]
    exact fun h => hC (Option.some.inj h)

end Invocation

/-! ## The instructions -/

/-- `SSTORE` writes to the running account. -/
theorem account_sstore (s : EvmYul.State) (k v : UInt256) {C : AccountAddress}
    (h : s.executionEnv.codeOwner ≠ C) :
    (s.sstore k v).accountMap.account C = s.accountMap.account C := by
  cases hacc : s.lookupAccount s.executionEnv.codeOwner with
  | none => simp only [EvmYul.State.sstore, hacc]
  | some acc =>
    simp only [EvmYul.State.sstore, hacc]
    exact account_insert_ne h

/-- `TSTORE` writes to the running account. -/
theorem account_tstore (s : EvmYul.State) (k v : UInt256) {C : AccountAddress}
    (h : s.executionEnv.codeOwner ≠ C) :
    (s.tstore k v).accountMap.account C = s.accountMap.account C := by
  cases hacc : s.lookupAccount s.executionEnv.codeOwner with
  | none => simp only [EvmYul.State.tstore, hacc]
  | some acc =>
    simp only [EvmYul.State.tstore, hacc]
    exact account_insert_ne h

theorem binaryStateOp_holdings {op : EvmYul.State → UInt256 → UInt256 → EvmYul.State}
    (h : ∀ (s : EvmYul.State) (k v : UInt256) {C : AccountAddress}, s.executionEnv.codeOwner ≠ C →
      (op s k v).accountMap.account C = s.accountMap.account C) (s : State) :
    Ensures (binaryStateOp op s) fun s' => ∀ C, s.executionEnv.codeOwner ≠ C →
      (s'.accountMap.account C).holdings = (s.accountMap.account C).holdings := by
  unfold binaryStateOp
  split
  · exact Ensures.ok_iff.2 fun C hC => congrArg Account.holdings (h _ _ _ hC)
  · exact Ensures.error

/-- An instruction changes no account but the running one, balances apart. -/
theorem step_holdings (E : Externals) (op : Operation) (arg : Option (UInt256 × ℕ)) (s : State)
    (hcall : op.isCallOrCreate = false) : Ensures (EvmYul.step E op arg s) fun s' =>
      ∀ C, s.executionEnv.codeOwner ≠ C →
        (s'.accountMap.account C).holdings = (s.accountMap.account C).holdings := by
  cases hwrite : op.isWrite with
  | false =>
    refine (step_reads E op arg hwrite hcall).mono fun s' h C _ => ?_
    rw [show s'.accountMap = s.accountMap from congrArg View.accounts h.1]
  | true =>
    cases op with
    | SELFDESTRUCT =>
      refine selfdestruct_spec.mono ?_
      rintro s' ⟨-, ⟨r, b, hσ⟩, -⟩ C -
      rw [hσ, holdings_selfdestructAccounts]
    | SSTORE => exact binaryStateOp_holdings account_sstore s
    | TSTORE => exact binaryStateOp_holdings account_tstore s
    | Log n =>
      show Ensures (logNOp n s) _
      unfold logNOp
      split
      · exact Ensures.ite (fun _ => Ensures.ok_iff.2 fun _ _ => rfl) fun _ => Ensures.error
      · exact Ensures.error
    | _ => cases hwrite

/-! ## Creations -/

/-- The endowment of a new account changes no holdings elsewhere. -/
theorem Lambda.Input.holdings_σStar (x : Lambda.Input) {a C : AccountAddress} (h : a ≠ C) :
    ((x.σStar a).account C).holdings = (x.σ.account C).holdings := by
  unfold σStar
  cases hs : x.σ[x.s]? with
  | none => rfl
  | some ac =>
    dsimp only
    rw [account_insert_ne h]
    refine holdings_insert ?_ C
    rw [account_of_some hs]
    rfl

/-- The counting up of the nonce is about the creator. -/
theorem create.Input.holdings_toΛ {c : create.Input} {C : AccountAddress}
    (h : c.evmState.executionEnv.codeOwner ≠ C) :
    World.SameHoldings C c.evmState.world c.toΛ.world :=
  congrArg Account.holdings (account_insert_ne h)

/-! ## Runs -/

theorem Yields.holdings {E : Externals} {C : AccountAddress} {i : Invocation} {w : World}
    (h : Yields E i w) (hi : i.Spares E C) : World.SameHoldings C i.world w := by
  induction h with
  | call_refused | step_not_created | Lambda_failed | Lambda_discarded | Θ_failed
  | Θ_precompiled_failed | Θ_emptied => exact rfl
  | call_made h _ ih => exact ih (hi.of_invokes (.call_Θ h))
  | @step_instr _ gasCost _ s _ p _ hop h =>
    exact step_holdings E p.1 p.2 (s.count.charge gasCost) hop _ h C (hi.ne rfl)
  | step_call hfetch hcall _ ih =>
    have hs := ih (hi.of_invokes (.step_call hfetch hcall))
    rw [Invocation.world, step.callInput_world hcall] at hs
    exact hs
  | @step_created _ _ _ s _ c _ hfetch hcreate hnonce hallowed _ ih =>
    have hs := ih (hi.of_invokes (.step_Lambda hfetch hcreate hnonce hallowed))
    have hne : c.evmState.executionEnv.codeOwner ≠ C := by
      rw [step.createInput_evmState hcreate]
      exact hi.ne rfl
    have hcount := create.Input.holdings_toΛ hne
    rw [step.createInput_world hcreate] at hcount
    exact hs.trans hcount
  | X_halt hZ _ ih =>
    have hs := ih (hi.of_invokes (.X_step hZ))
    rw [Invocation.world, X.Z_world hZ] at hs
    exact hs
  | X_next hZ hs' hH _ _ ihstep ihX =>
    have hs := ihstep (hi.of_invokes (.X_step hZ))
    rw [Invocation.world, X.Z_world hZ] at hs
    exact (ihX (hi.of_invokes (.X_X hZ hs' hH))).trans hs
  | Ξ_code _ ih => exact ih (hi.of_invokes .Ξ_X)
  | @Lambda_deposited _ x _ _ _ _ hlₐ _ _ ih =>
    have hΞ := hi.of_invokes (.Lambda_Ξ hlₐ)
    have hne : Lambda.address E _ ≠ C := hΞ.ne rfl
    unfold World.SameHoldings
    refine (congrArg Account.holdings (account_insert_ne hne)).trans ?_
    exact (ih hΞ).trans (x.holdings_σStar hne)
  | @Θ_precompiled _ x => exact x.holdings_σ₁ C
  | @Θ_code _ x _ _ hc _ ih => exact (ih (hi.of_invokes (.Θ_Ξ hc))).trans (x.holdings_σ₁ C)

/-- The invocations made start with what the account held. -/
theorem Invokes.holdings {E : Externals} {C : AccountAddress} {i j : Invocation}
    (hi : i.Spares E C) (h : Invokes E i j) : World.SameHoldings C i.world j.world := by
  have hj := hi.of_invokes h
  cases h with
  | call_Θ | Ξ_X => exact rfl
  | step_call _ hcall =>
    rw [Invocation.world, Invocation.world, step.callInput_world hcall]
    exact rfl
  | @step_Lambda _ _ _ s _ c _ hcreate =>
    have hne : c.evmState.executionEnv.codeOwner ≠ C := by
      rw [step.createInput_evmState hcreate]
      exact hi.ne rfl
    have hcount := create.Input.holdings_toΛ hne
    rw [step.createInput_world hcreate] at hcount
    exact hcount
  | X_step hZ =>
    rw [Invocation.world, Invocation.world, X.Z_world hZ]
    exact rfl
  | @X_X f _ s sZ s' cost₂ hZ hs' hH =>
    have hyields := Returned.yields (i := .step f cost₂ _ sZ) ⟨s', hs', rfl⟩
    have hs := hyields.holdings (hi.of_invokes (.X_step hZ))
    rw [Invocation.world, X.Z_world hZ] at hs
    exact hs
  | @Lambda_Ξ _ x _ hlₐ => exact x.holdings_σStar (hj.ne rfl)
  | @Θ_Ξ _ x _ hc => exact x.holdings_σ₁ C

/-- **Only its own code changes an account.**  In a run with no frame in the
name of `C`, every frame starts with the nonce, the code and the storage `C` had
when the run started, and hands them on. -/
theorem spared_account_keeps_holdings (E : Externals) (C : AccountAddress) {i : Invocation}
    (hi : i.Spares E C) : ∀ j, Reaches E i j → World.SameHoldings C i.world j.world ∧
      ∀ w, Returned E j w → World.SameHoldings C i.world w := by
  intro j hj
  obtain ⟨hspares, hsame⟩ := hj.carries (R := World.SameHoldings C) (fun _ => rfl)
    (fun h h' => h'.trans h) (fun h h' => ⟨h.of_invokes h', h'.holdings h⟩) hi
  exact ⟨hsame, fun w hw => (hw.yields.holdings hspares).trans hsame⟩

/-- `PUSH1 1 PUSH0 SSTORE PUSH2 0xc0de SELFDESTRUCT`: code that writes to its
storage and leaves its ether to `0xc0de`. -/
def donating : ByteArray := ⟨#[0x60, 0x01, 0x5f, 0x55, 0x61, 0xc0, 0xde, 0xff]⟩

theorem donating_callsNobody : CallsNobody donating := callsNobody_of_bytes (by decide +kernel)

/-- Five wei from `0xfeed` to a contract with this code. -/
def payDonating : Θ.Input where
  blobVersionedHashes := []
  createdAccounts := ∅
  genesisBlockHeader := default
  blocks := #[]
  σ :=
    (((∅ : AccountMap).insert 0xfeed { (default : Account) with balance := .ofNat 5 }).insert
      0xbeef { (default : Account) with balance := .ofNat 3, code := donating }).insert
        0xc0de { (default : Account) with balance := .ofNat 7, nonce := 1 }
  σ₀ := ∅
  A := default
  s := 0xfeed
  o := 0xfeed
  r := 0xbeef
  c := .Code donating
  g := .ofNat 100000
  p := 0
  v := .ofNat 5
  v' := .ofNat 5
  d := .empty
  e := 0
  H := default
  w := true

/-- The contract has run. -/
theorem payDonating_returned : ∃ w, Returned (Frame.aimedAt 0) (.Θ 10 payDonating) w ∧
    (w.σ.account 0xbeef).storage[(0 : UInt256)]? = some 1 := by
  obtain ⟨r, hr, hstored⟩ : Returns (Θ (Frame.aimedAt 0) 10 payDonating) fun r =>
      (r.σ'.account 0xbeef).storage[(0 : UInt256)]? = some 1 :=
    .of_toOption_map (by decide +kernel)
  exact ⟨r.world, ⟨r, hr, rfl⟩, hstored⟩

theorem payDonating_spares (E : Externals) (f : ℕ) :
    (Invocation.Θ f payDonating).Spares E 0xc0de :=
  .of_callsNobody rfl donating_callsNobody (by decide)

/-- The contract has written to its own storage, and `0xc0de`, to which it has sent
ether, has its nonce, its code and its storage. -/
theorem spared_account_keeps_holdings_payDonating :
    ∃ w, Returned (Frame.aimedAt 0) (.Θ 10 payDonating) w ∧
      (w.σ.account 0xbeef).storage[(0 : UInt256)]? = some 1 ∧
      World.SameHoldings 0xc0de payDonating.world w := by
  obtain ⟨w, hw, hstored⟩ := payDonating_returned
  have hspares := payDonating_spares (Frame.aimedAt 0) 10
  exact ⟨w, hw, hstored, (spared_account_keeps_holdings _ 0xc0de hspares _ .refl).2 _ hw⟩

end EVM
end EvmYul
