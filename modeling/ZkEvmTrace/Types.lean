import ZkEvmTrace.PartialTrie
import Mathlib.Data.List.AList

/-!
# Trace types and the error model

The records the decoder reads (`ProcessedSectionTxnInfo` and its parts, `OtherBlockData`)
and writes (`GenerationInputs`), the live `PartialTrieState`, and `TraceParsingError` with
its builder methods. A call that ends in a returned error or a panic gives a `Failure`.
-/

namespace ZkEvmTrace

inductive TrieType where
  | state
  | storage
  | receipt
  | txn
  deriving DecidableEq, Repr

/-- `TraceParsingErrorReason`, for the failures the decoding functions raise. -/
inductive TraceParsingErrorReason where
  | accountDecode (bytes : Bytes) (err : DecoderError)
  | missingAccountStorageTrie (hAddr : H256)
  | missingKeysCreatingSubPartialTrie (key : Nibbles) (trieType : TrieType)
  | missingWithdrawalAccount (addr : Address) (hAddr : H256) (amount : U256)
  | trieOpError (err : TrieOpError)
  deriving DecidableEq, Repr

/-- `TraceParsingError`: the reason, and the context the callers attach on the way up. -/
structure TraceParsingError where
  blockNum : Option U256
  blockChainId : Option U256
  txnIdx : Option Nat
  addr : Option Address
  hAddr : Option H256
  slot : Option U512
  slotValue : Option U512
  reason : TraceParsingErrorReason
  deriving DecidableEq, Repr

namespace TraceParsingError

def new (reason : TraceParsingErrorReason) : TraceParsingError :=
  ⟨none, none, none, none, none, none, none, reason⟩

@[simp] def withBlockNum (e : TraceParsingError) (blockNum : U256) : TraceParsingError :=
  { e with blockNum := some blockNum }

@[simp] def withBlockChainId (e : TraceParsingError) (blockChainId : U256) : TraceParsingError :=
  { e with blockChainId := some blockChainId }

@[simp] def withTxnIdx (e : TraceParsingError) (txnIdx : Nat) : TraceParsingError :=
  { e with txnIdx := some txnIdx }

@[simp] def withAddr (e : TraceParsingError) (addr : Address) : TraceParsingError :=
  { e with addr := some addr }

@[simp] def withHAddr (e : TraceParsingError) (hAddr : H256) : TraceParsingError :=
  { e with hAddr := some hAddr }

@[simp] def withSlot (e : TraceParsingError) (slot : U512) : TraceParsingError :=
  { e with slot := some slot }

@[simp] def withSlotValue (e : TraceParsingError) (slotValue : U512) : TraceParsingError :=
  { e with slotValue := some slotValue }

end TraceParsingError

/-- How a call ends when it returns no value: a returned error, or a panic. -/
inductive Failure where
  | error (e : TraceParsingError)
  | panic (msg : String)
  deriving DecidableEq, Repr

/-- An `unwrap`/`expect`: the value, or a panic with the message. -/
def orPanic {α : Type} (msg : String) : Option α → Except Failure α
  | some a => .ok a
  | none => .error (.panic msg)

@[simp] theorem orPanic_eq_ok {α : Type} {msg : String} {o : Option α} {a : α} :
    orPanic msg o = .ok a ↔ o = some a := by
  cases o <;> simp [orPanic]

def traceError {α : Type} (e : TraceParsingError) : Except Failure α := .error (.error e)

/-- `map_err` on a returned error; a panic passes through. -/
def mapTraceError {α : Type} (f : TraceParsingError → TraceParsingError) :
    Except Failure α → Except Failure α
  | .error (.error e) => .error (.error (f e))
  | r => r

@[simp] theorem mapTraceError_eq_ok {α : Type} {f : TraceParsingError → TraceParsingError}
    {x : Except Failure α} {a : α} : mapTraceError f x = .ok a ↔ x = .ok a := by
  rcases x with (_ | _) | _ <;> simp [mapTraceError]

/-- `U512::from_big_endian`, which asserts that the slice has at most 64 bytes. -/
def U512.fromBigEndian (bs : Bytes) : Except Failure U512 :=
  if h : bs.length ≤ 64 then
    .ok ⟨ofBytesBE bs, (ofBytesBE_lt bs).trans_le <|
      calc 256 ^ bs.length ≤ 256 ^ 64 := Nat.pow_le_pow_right (by norm_num) h
        _ = 2 ^ 512 := by rw [show (256 : Nat) = 2 ^ 8 by norm_num, ← pow_mul]⟩
  else .error (.panic "assertion failed: 8 * 8 >= slice.len()")

structure StateTrieWrites where
  balance : Option U256
  nonce : Option U256
  storageTrieChange : Bool
  codeHash : Option H256
  deriving DecidableEq, Repr

/-- `NodesUsedByTxn`: what one transaction read and wrote. -/
structure NodesUsedByTxn where
  stateAccesses : List H256
  stateWrites : List (H256 × StateTrieWrites)
  storageAccesses : List (H256 × List Nibbles)
  storageWrites : List (H256 × List (Nibbles × Bytes))
  stateAccountsWithNoAccessesButStorageTries : AList (fun _ : H256 => H256)
  selfDestructedAccounts : List H256
  deriving DecidableEq

/-- `TxnMetaState`: the raw transaction, its receipt node and its gas. -/
structure TxnMetaState where
  txnBytes : Option Bytes
  receiptNodeBytes : Bytes
  gasUsed : UInt64
  deriving DecidableEq, Repr

/-- `TxnMetaState::txn_bytes`: the raw transaction, empty when absent. -/
def TxnMetaState.txnBytes! (m : TxnMetaState) : Bytes := m.txnBytes.getD []

structure ProcessedSectionTxnInfo where
  nodesUsedByTxn : NodesUsedByTxn
  contractCodeAccessed : List (H256 × Bytes)
  meta : TxnMetaState
  deriving DecidableEq

/-! ## Block state and the generated inputs -/

/-- `PartialTrieState`: the live tries of a block. -/
structure PartialTrieState where
  state : PartialTrie
  storage : AList (fun _ : H256 => PartialTrie)
  txn : PartialTrie
  receipt : PartialTrie
  deriving DecidableEq

/-- `MptExtraBlockData`: the running counters of a block. -/
structure ExtraBlockData where
  checkpointStateTrieRoot : H256
  txnNumberBefore : U256
  txnNumberAfter : U256
  gasUsedBefore : U256
  gasUsedAfter : U256
  deriving DecidableEq, Repr

structure TrieInputs where
  stateTrie : PartialTrie
  transactionsTrie : PartialTrie
  receiptsTrie : PartialTrie
  storageTries : List (H256 × PartialTrie)
  deriving DecidableEq

structure TrieRoots where
  stateRoot : H256
  transactionsRoot : H256
  receiptsRoot : H256
  deriving DecidableEq, Repr

/-- The fields of `BlockMetadata` the decoder reads. -/
structure BlockMetadata where
  blockBeneficiary : Address
  blockNumber : U256
  blockChainId : U256
  deriving DecidableEq, Repr

structure BlockHashes where
  prevHashes : List H256
  curHash : H256
  deriving DecidableEq, Repr

structure BlockLevelData where
  bMeta : BlockMetadata
  bHashes : BlockHashes
  deriving DecidableEq, Repr

structure OtherBlockData where
  bData : BlockLevelData
  checkpointStateTrieRoot : H256
  deriving DecidableEq, Repr

/-- `GenerationInputs`: one provable unit. -/
structure GenerationInputs where
  txnNumberBefore : U256
  gasUsedBefore : U256
  gasUsedAfter : U256
  signedTxn : Option Bytes
  withdrawals : List (Address × U256)
  tries : TrieInputs
  trieRootsAfter : TrieRoots
  checkpointStateTrieRoot : H256
  contractCode : List (H256 × Bytes)
  blockMetadata : BlockMetadata
  blockHashes : BlockHashes
  deriving DecidableEq

/-- `TrieDeltaApplicationOutput`: paths that a deletion made load-bearing. -/
structure TrieDeltaApplicationOutput where
  additionalStateTriePathsToNotHash : List Nibbles
  additionalStorageTriePathsToNotHash : AList (fun _ : H256 => List Nibbles)
  deriving DecidableEq

def TrieDeltaApplicationOutput.default : TrieDeltaApplicationOutput := ⟨[], ∅⟩

inductive ProcessedSectionInfo where
  | continuations
  | txns (txns : List ProcessedSectionTxnInfo)

end ZkEvmTrace
