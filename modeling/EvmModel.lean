import EvmModel.Lib.Ensures
import EvmModel.Lib.Registry
import EvmModel.Lib.TreeFold
import EvmModel.Blake2.Native
import EvmModel.Blake2.Reference
import EvmModel.Gas
import EvmModel.Blake2.Agreement
import EvmModel.Precompiles
import EvmModel.Machine
import EvmModel.Ledger
import EvmModel.Upsilon
import EvmModel.Frames
import EvmModel.Permanence
import EvmModel.TrustedBase
import EvmModel.Fuel
import EvmModel.GasBound
import EvmModel.Termination
import EvmModel.Accounts
import EvmModel.Balance
import EvmModel.Issuance
import EvmModel.Warm
import EvmModel.Chain.Block
import EvmModel.Chain.History
import EvmModel.Chain.Signing
import EvmModel.Chain.Fees
import EvmModel.Memory
