import ZkEvmTrace.Primitives
import ZkEvmTrace.Rlp
import ZkEvmTrace.PartialTrie
import ZkEvmTrace.Types
import ZkEvmTrace.Deltas
import ZkEvmTrace.Decoding
import ZkEvmTrace.Traces
import ZkEvmTrace.Proofs.Units
import ZkEvmTrace.Proofs.Roots
import ZkEvmTrace.Proofs.Layout
import ZkEvmTrace.Proofs.Errors
import ZkEvmTrace.Proofs.DeltaEffects
import ZkEvmTrace.Proofs.BlockEffects
import ZkEvmTrace.Proofs.Collapses
import ZkEvmTrace.Proofs.Replay
import ZkEvmTrace.Proofs.StorageRoots
import ZkEvmTrace.Proofs.Withdrawals
import ZkEvmTrace.Proofs.Checkpoints
