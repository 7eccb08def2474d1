import EvmModel.Bytes

/-!
# The instruction set

`Operation` lists the instructions of `EvmYul/Operations.lean` at the operation
type of the EVM.  The four families of the source that differ only in a number
(`PUSH0` … `PUSH32`, `DUP1` … `DUP16`, `SWAP1` … `SWAP16`, `LOG0` … `LOG4`) are
one constructor each, indexed by that number.

`parseInstr` and `serializeInstr` are the byte code of `EvmYul/EVM/Instr.lean`,
`δ` and `α` its stack items removed and added, `decode` and `D_J` the decoding
of `EvmYul/EVM/Semantics.lean`.
-/

namespace EvmYul

inductive Operation where
  | STOP | ADD | MUL | SUB | DIV | SDIV | MOD | SMOD | ADDMOD | MULMOD | EXP | SIGNEXTEND
  | LT | GT | SLT | SGT | EQ | ISZERO | AND | OR | XOR | NOT | BYTE | SHL | SHR | SAR
  | KECCAK256
  | ADDRESS | BALANCE | ORIGIN | CALLER | CALLVALUE | CALLDATALOAD | CALLDATASIZE | CALLDATACOPY
  | CODESIZE | CODECOPY | GASPRICE | EXTCODESIZE | EXTCODECOPY | RETURNDATASIZE | RETURNDATACOPY
  | EXTCODEHASH
  | BLOCKHASH | COINBASE | TIMESTAMP | NUMBER | PREVRANDAO | GASLIMIT | CHAINID | SELFBALANCE
  | BASEFEE | BLOBHASH | BLOBBASEFEE
  | POP | MLOAD | MSTORE | MSTORE8 | SLOAD | SSTORE | JUMP | JUMPI | PC | MSIZE | GAS | JUMPDEST
  | TLOAD | TSTORE | MCOPY
  /-- `Push n` is `PUSHn`. -/
  | Push (n : Fin 33)
  /-- `Dup n` is `DUP(n+1)`. -/
  | Dup (n : Fin 16)
  /-- `Exchange n` is `SWAP(n+1)`. -/
  | Exchange (n : Fin 16)
  /-- `Log n` is `LOGn`. -/
  | Log (n : Fin 5)
  | CREATE | CALL | CALLCODE | RETURN | DELEGATECALL | CREATE2 | STATICCALL | REVERT | INVALID
  | SELFDESTRUCT
  deriving DecidableEq

namespace Operation

/-- The one instruction of its family with a price of its own. -/
abbrev PUSH0 : Operation := .Push 0

def isCreate : Operation → Bool
  | .CREATE => true
  | .CREATE2 => true
  | _ => false

/-- The instructions `EVM.step` handles itself, before it hands the rest to
`EvmYul.step`. -/
def isCallOrCreate : Operation → Bool
  | .CREATE | .CREATE2 | .CALL | .CALLCODE | .DELEGATECALL | .STATICCALL => true
  | _ => false

/-- The instructions that change storage, the log or the accounts, those that
call or create apart. -/
def isWrite : Operation → Bool
  | .SSTORE | .TSTORE | .Log _ | .SELFDESTRUCT => true
  | _ => false

end Operation

/-! ## Byte code -/

/-- The instruction a byte stands for; bytes outside the table are `INVALID`. -/
def parseInstr (b : UInt8) : Option Operation :=
  match b.toNat with
  | 0x00 => some .STOP
  | 0x01 => some .ADD
  | 0x02 => some .MUL
  | 0x03 => some .SUB
  | 0x04 => some .DIV
  | 0x05 => some .SDIV
  | 0x06 => some .MOD
  | 0x07 => some .SMOD
  | 0x08 => some .ADDMOD
  | 0x09 => some .MULMOD
  | 0x0a => some .EXP
  | 0x0b => some .SIGNEXTEND
  | 0x10 => some .LT
  | 0x11 => some .GT
  | 0x12 => some .SLT
  | 0x13 => some .SGT
  | 0x14 => some .EQ
  | 0x15 => some .ISZERO
  | 0x16 => some .AND
  | 0x17 => some .OR
  | 0x18 => some .XOR
  | 0x19 => some .NOT
  | 0x1a => some .BYTE
  | 0x1b => some .SHL
  | 0x1c => some .SHR
  | 0x1d => some .SAR
  | 0x20 => some .KECCAK256
  | 0x30 => some .ADDRESS
  | 0x31 => some .BALANCE
  | 0x32 => some .ORIGIN
  | 0x33 => some .CALLER
  | 0x34 => some .CALLVALUE
  | 0x35 => some .CALLDATALOAD
  | 0x36 => some .CALLDATASIZE
  | 0x37 => some .CALLDATACOPY
  | 0x38 => some .CODESIZE
  | 0x39 => some .CODECOPY
  | 0x3a => some .GASPRICE
  | 0x3b => some .EXTCODESIZE
  | 0x3c => some .EXTCODECOPY
  | 0x3d => some .RETURNDATASIZE
  | 0x3e => some .RETURNDATACOPY
  | 0x3f => some .EXTCODEHASH
  | 0x40 => some .BLOCKHASH
  | 0x41 => some .COINBASE
  | 0x42 => some .TIMESTAMP
  | 0x43 => some .NUMBER
  | 0x44 => some .PREVRANDAO
  | 0x45 => some .GASLIMIT
  | 0x46 => some .CHAINID
  | 0x47 => some .SELFBALANCE
  | 0x48 => some .BASEFEE
  | 0x49 => some .BLOBHASH
  | 0x4a => some .BLOBBASEFEE
  | 0x50 => some .POP
  | 0x51 => some .MLOAD
  | 0x52 => some .MSTORE
  | 0x53 => some .MSTORE8
  | 0x54 => some .SLOAD
  | 0x55 => some .SSTORE
  | 0x56 => some .JUMP
  | 0x57 => some .JUMPI
  | 0x58 => some .PC
  | 0x59 => some .MSIZE
  | 0x5a => some .GAS
  | 0x5b => some .JUMPDEST
  | 0x5c => some .TLOAD
  | 0x5d => some .TSTORE
  | 0x5e => some .MCOPY
  | 0xf0 => some .CREATE
  | 0xf1 => some .CALL
  | 0xf2 => some .CALLCODE
  | 0xf3 => some .RETURN
  | 0xf4 => some .DELEGATECALL
  | 0xf5 => some .CREATE2
  | 0xfa => some .STATICCALL
  | 0xfd => some .REVERT
  | 0xfe => some .INVALID
  | 0xff => some .SELFDESTRUCT
  | n =>
    if h : 0x5f ≤ n ∧ n < 0x80 then some (.Push ⟨n - 0x5f, by omega⟩)
    else if h : 0x80 ≤ n ∧ n < 0x90 then some (.Dup ⟨n - 0x80, by omega⟩)
    else if h : 0x90 ≤ n ∧ n < 0xa0 then some (.Exchange ⟨n - 0x90, by omega⟩)
    else if h : 0xa0 ≤ n ∧ n < 0xa5 then some (.Log ⟨n - 0xa0, by omega⟩)
    else some .INVALID

/-- The byte that stands for an instruction. -/
def serializeInstr : Operation → UInt8
  | .STOP => 0x00
  | .ADD => 0x01
  | .MUL => 0x02
  | .SUB => 0x03
  | .DIV => 0x04
  | .SDIV => 0x05
  | .MOD => 0x06
  | .SMOD => 0x07
  | .ADDMOD => 0x08
  | .MULMOD => 0x09
  | .EXP => 0x0a
  | .SIGNEXTEND => 0x0b
  | .LT => 0x10
  | .GT => 0x11
  | .SLT => 0x12
  | .SGT => 0x13
  | .EQ => 0x14
  | .ISZERO => 0x15
  | .AND => 0x16
  | .OR => 0x17
  | .XOR => 0x18
  | .NOT => 0x19
  | .BYTE => 0x1a
  | .SHL => 0x1b
  | .SHR => 0x1c
  | .SAR => 0x1d
  | .KECCAK256 => 0x20
  | .ADDRESS => 0x30
  | .BALANCE => 0x31
  | .ORIGIN => 0x32
  | .CALLER => 0x33
  | .CALLVALUE => 0x34
  | .CALLDATALOAD => 0x35
  | .CALLDATASIZE => 0x36
  | .CALLDATACOPY => 0x37
  | .CODESIZE => 0x38
  | .CODECOPY => 0x39
  | .GASPRICE => 0x3a
  | .EXTCODESIZE => 0x3b
  | .EXTCODECOPY => 0x3c
  | .RETURNDATASIZE => 0x3d
  | .RETURNDATACOPY => 0x3e
  | .EXTCODEHASH => 0x3f
  | .BLOCKHASH => 0x40
  | .COINBASE => 0x41
  | .TIMESTAMP => 0x42
  | .NUMBER => 0x43
  | .PREVRANDAO => 0x44
  | .GASLIMIT => 0x45
  | .CHAINID => 0x46
  | .SELFBALANCE => 0x47
  | .BASEFEE => 0x48
  | .BLOBHASH => 0x49
  | .BLOBBASEFEE => 0x4a
  | .POP => 0x50
  | .MLOAD => 0x51
  | .MSTORE => 0x52
  | .MSTORE8 => 0x53
  | .SLOAD => 0x54
  | .SSTORE => 0x55
  | .JUMP => 0x56
  | .JUMPI => 0x57
  | .PC => 0x58
  | .MSIZE => 0x59
  | .GAS => 0x5a
  | .JUMPDEST => 0x5b
  | .TLOAD => 0x5c
  | .TSTORE => 0x5d
  | .MCOPY => 0x5e
  | .Push n => UInt8.ofNat (0x5f + n)
  | .Dup n => UInt8.ofNat (0x80 + n)
  | .Exchange n => UInt8.ofNat (0x90 + n)
  | .Log n => UInt8.ofNat (0xa0 + n)
  | .CREATE => 0xf0
  | .CALL => 0xf1
  | .CALLCODE => 0xf2
  | .RETURN => 0xf3
  | .DELEGATECALL => 0xf4
  | .CREATE2 => 0xf5
  | .STATICCALL => 0xfa
  | .REVERT => 0xfd
  | .INVALID => 0xfe
  | .SELFDESTRUCT => 0xff

/-- Every instruction is parsed back from its byte. -/
theorem parseInstr_serializeInstr (op : Operation) : parseInstr (serializeInstr op) = some op := by
  cases op with
  | Push n => revert n; decide
  | Dup n => revert n; decide
  | Exchange n => revert n; decide
  | Log n => revert n; decide
  | _ => rfl

/-! ## Stack effect -/

/-- Stack items an instruction removes; `none` for the invalid one. -/
def δ : Operation → Option ℕ
  | .STOP | .ADDRESS | .ORIGIN | .CALLER | .CALLVALUE | .CALLDATASIZE | .CODESIZE | .GASPRICE
  | .RETURNDATASIZE | .COINBASE | .TIMESTAMP | .NUMBER | .PREVRANDAO | .GASLIMIT | .CHAINID
  | .SELFBALANCE | .BASEFEE | .BLOBBASEFEE | .PC | .MSIZE | .GAS | .JUMPDEST | .Push _ => some 0
  | .ISZERO | .NOT | .BALANCE | .CALLDATALOAD | .EXTCODESIZE | .EXTCODEHASH | .BLOCKHASH | .BLOBHASH
  | .POP | .MLOAD | .SLOAD | .TLOAD | .JUMP | .SELFDESTRUCT => some 1
  | .ADD | .MUL | .SUB | .DIV | .SDIV | .MOD | .SMOD | .EXP | .SIGNEXTEND | .LT | .GT | .SLT | .SGT
  | .EQ | .AND | .OR | .XOR | .BYTE | .SHL | .SHR | .SAR | .KECCAK256 | .MSTORE | .MSTORE8
  | .SSTORE | .TSTORE | .JUMPI | .RETURN | .REVERT => some 2
  | .ADDMOD | .MULMOD | .CALLDATACOPY | .CODECOPY | .RETURNDATACOPY | .MCOPY | .CREATE => some 3
  | .EXTCODECOPY | .CREATE2 => some 4
  | .DELEGATECALL | .STATICCALL => some 6
  | .CALL | .CALLCODE => some 7
  | .Dup n => some (n + 1)
  | .Exchange n => some (n + 2)
  | .Log n => some (n + 2)
  | .INVALID => none

/-- Stack items an instruction adds; `none` for the invalid one. -/
def α : Operation → Option ℕ
  | .STOP | .CALLDATACOPY | .CODECOPY | .EXTCODECOPY | .RETURNDATACOPY | .POP | .MSTORE | .MSTORE8
  | .SSTORE | .JUMP | .JUMPI | .JUMPDEST | .TSTORE | .MCOPY | .Log _ | .RETURN | .REVERT
  | .SELFDESTRUCT => some 0
  | .Dup n => some (n + 2)
  | .Exchange n => some (n + 2)
  | .INVALID => none
  | _ => some 1

/-! ## Decoding -/

namespace EVM

/-- Bytes of immediate data that follow an instruction. -/
def argOnNBytesOfInstr : Operation → ℕ
  | .Push n => n
  | _ => 0

/-- The position of the instruction after the one at `pc`. -/
def N (pc : UInt256) (instr : Operation) : UInt256 := pc + 1 + .ofNat (argOnNBytesOfInstr instr)

/-- The instruction at `pc`, with the value and the width of its immediate data. -/
def decode (arr : ByteArray) (pc : UInt256) : Option (Operation × Option (UInt256 × ℕ)) := do
  let instr ← (getByte? arr pc.val).bind parseInstr
  let argWidth := argOnNBytesOfInstr instr
  some (instr,
    if argWidth = 0 then none
    else some (uInt256OfByteArray (extract' arr (pc.val + 1) (pc.val + 1 + argWidth)), argWidth))

/-- Collect the jump destinations from position `i` on.  The source recurses
without a bound; a step moves at least one byte on, so `c.size` of them reach
the end of the code, and `fuel` counts them. -/
def D_J_aux (c : ByteArray) : ℕ → UInt256 → Array UInt256 → Array UInt256
  | 0, _, result => result
  | fuel + 1, i, result =>
    match (getByte? c i.val).bind parseInstr with
    | none => result
    | some cᵢ => D_J_aux c fuel (N i cᵢ) (if cᵢ = .JUMPDEST then result.push i else result)

/-- The valid jump destinations of a piece of code. -/
def D_J (c : ByteArray) (i : UInt256) : Array UInt256 := D_J_aux c c.size i #[]

/-- More fuel than the code is long changes nothing, as long as positions do
not wrap around at `2 ^ 256`. -/
theorem D_J_aux_stable (c : ByteArray) (hc : c.size + 33 < 2 ^ 256) :
    ∀ (fuel : ℕ) (i : UInt256) (result : Array UInt256), c.size ≤ i.val + fuel →
      D_J_aux c (fuel + 1) i result = D_J_aux c fuel i result := by
  intro fuel
  induction fuel with
  | zero =>
    intro i result hi
    have hnone : getByte? c i.val = none := Array.getElem?_eq_none (by simpa using hi)
    simp [D_J_aux, hnone]
  | succ fuel ih =>
    intro i result hi
    rw [D_J_aux, D_J_aux]
    cases hp : (getByte? c i.val).bind parseInstr with
    | none => rfl
    | some op =>
      have hlt : i.val < c.size := by
        by_contra hge
        have hnone : getByte? c i.val = none := Array.getElem?_eq_none (by simpa using hge)
        simp [hnone] at hp
      have harg : argOnNBytesOfInstr op ≤ 32 := by
        unfold argOnNBytesOfInstr
        split <;> omega
      have hN : (N i op).val = i.val + 1 + argOnNBytesOfInstr op := by
        simp only [N, UInt256.ofNat, Fin.val_add, Fin.val_ofNat, Fin.val_one]
        omega
      exact ih _ _ (by omega)

end EVM
end EvmYul
