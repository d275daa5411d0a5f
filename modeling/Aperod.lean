import Aperod.Core.Equiv.Conservation
import Aperod.Consensus.Equiv.KeyImages
import Aperod.Node.Equiv.Restart
import Aperod.Core.Equiv.Mempool
import Aperod.Consensus.Equiv.VoteOrder
import Aperod.Consensus.Equiv.Slashing
import Aperod.Core.Equiv.Funding
import Aperod.Core.Equiv.HashBinding
import Aperod.Consensus.Equiv.BaseFee
import Aperod.Consensus.Equiv.BlockRules
import Aperod.Core.Equiv.RoundTrip
import Aperod.Node.Equiv.SnapshotFiles
import Aperod.Store.Equiv.Rewind
import Aperod.Lpod.Equiv.Payout
import Aperod.Store.Equiv.OrderTable
import Aperod.Avm.Equiv.Nonces
import Aperod.Crypto.Equiv.KeyImageProof
import Aperod.Api.Equiv.Wallet
import Aperod.P2p.Equiv.Headers
import Aperod.Core.Equiv.Vesting
import Aperod.Wallet.Equiv.Multisig
import Aperod.Wallet.Equiv.Mnemonic
