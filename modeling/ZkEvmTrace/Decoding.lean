import ZkEvmTrace.Deltas

/-!
# Block decoding

`process_txns`: each transaction in index order through `process_txn_info`, which threads
the live tries and the running counters; then the padding to at least two units and the
folding of the withdrawals into the last one. The minimal-subset builders that
`decoding.rs` calls are modelled from the spec's description of them.
-/

namespace ZkEvmTrace

variable (keccak : Bytes → H256)

/-- Modelled from the spec: `create_trie_subset_wrapped`, which reports a key the subset
cannot reach as `MissingKeysCreatingSubPartialTrie`. -/
def createTrieSubsetWrapped (trie : PartialTrie) (accesses : List Nibbles) (trieType : TrieType) :
    Except Failure PartialTrie :=
  match trie.createTrieSubset keccak accesses with
  | .ok t => .ok t
  | .error (.unexpectedKey key) => traceError (.new (.missingKeysCreatingSubPartialTrie key trieType))

theorem createTrieSubsetWrapped_eq_ok {trie trie' : PartialTrie} {accesses : List Nibbles}
    {trieType : TrieType} (h : createTrieSubsetWrapped keccak trie accesses trieType = .ok trie') :
    trie.createTrieSubset keccak accesses = .ok trie' := by
  unfold createTrieSubsetWrapped at h
  split at h <;> rename_i e
  · cases h; exact e
  · cases h

theorem exists_createTrieSubsetWrapped_eq_ok_iff {trie : PartialTrie} {accesses : List Nibbles}
    {trieType : TrieType} :
    (∃ t, createTrieSubsetWrapped keccak trie accesses trieType = .ok t) ↔
      ∀ k ∈ accesses, trie.markKey k = .ok () := by
  rw [← PartialTrie.exists_createTrieSubset_eq_ok_iff keccak]
  unfold createTrieSubsetWrapped
  split <;> rename_i e <;> simp [e, traceError]

/-- Modelled from the spec: `create_minimal_state_partial_trie`, the state trie cut down to the
accessed accounts and the extra paths. -/
def createMinimalStatePartialTrie (stateTrie : PartialTrie) (stateAccesses : List H256)
    (additionalStateTriePathsToNotHash : List Nibbles) : Except Failure PartialTrie :=
  createTrieSubsetWrapped keccak stateTrie
    (stateAccesses.map Nibbles.fromH256Be ++ additionalStateTriePathsToNotHash) .state

/-- Modelled from the spec: `create_minimal_storage_partial_tries`, one subset per accessed
account; indexing the storage map panics where the account has no trie. -/
def createMinimalStoragePartialTries (storageTries : AList (fun _ : H256 => PartialTrie))
    (accessesPerAccount : List (H256 × List Nibbles))
    (additionalStorageTriePathsToNotHash : AList (fun _ : H256 => List Nibbles)) :
    Except Failure (List (H256 × PartialTrie)) :=
  accessesPerAccount.mapM fun (hAddr, memAccesses) => do
    let baseStorageTrie ← orPanic "storage trie missing from the map" (storageTries.lookup hAddr)
    let partialStorageTrie ← createTrieSubsetWrapped keccak baseStorageTrie
      (memAccesses ++ (additionalStorageTriePathsToNotHash.lookup hAddr).getD []) .storage
    return (hAddr, partialStorageTrie)

/-- Modelled from the spec: `create_minimal_partial_tries_needed_by_txn`, the subsets of the
tries at the start of the transaction that its proof needs. -/
def createMinimalPartialTriesNeededByTxn (currBlockTries : PartialTrieState)
    (nodesUsedByTxn : NodesUsedByTxn) (txnIdx : Nat)
    (deltaApplicationOut : TrieDeltaApplicationOutput) : Except Failure TrieInputs := do
  let stateTrie ← createMinimalStatePartialTrie keccak currBlockTries.state
    nodesUsedByTxn.stateAccesses deltaApplicationOut.additionalStateTriePathsToNotHash
  let txnK ← txnKey txnIdx
  let transactionsTrie ← createTrieSubsetWrapped keccak currBlockTries.txn [txnK] .txn
  let receiptsTrie ← createTrieSubsetWrapped keccak currBlockTries.receipt [txnK] .receipt
  let storageTries ← createMinimalStoragePartialTries keccak currBlockTries.storage
    nodesUsedByTxn.storageAccesses deltaApplicationOut.additionalStorageTriePathsToNotHash
  return ⟨stateTrie, transactionsTrie, receiptsTrie, storageTries⟩

theorem createMinimalPartialTriesNeededByTxn_eq_ok {currBlockTries : PartialTrieState}
    {nodesUsedByTxn : NodesUsedByTxn} {txnIdx : Nat} {out : TrieDeltaApplicationOutput}
    {tries : TrieInputs}
    (h : createMinimalPartialTriesNeededByTxn keccak currBlockTries nodesUsedByTxn txnIdx out =
      .ok tries) :
    ∃ txnK, txnKey txnIdx = .ok txnK ∧
      createMinimalStatePartialTrie keccak currBlockTries.state nodesUsedByTxn.stateAccesses
        out.additionalStateTriePathsToNotHash = .ok tries.stateTrie ∧
      createTrieSubsetWrapped keccak currBlockTries.txn [txnK] .txn = .ok tries.transactionsTrie ∧
      createTrieSubsetWrapped keccak currBlockTries.receipt [txnK] .receipt =
        .ok tries.receiptsTrie ∧
      createMinimalStoragePartialTries keccak currBlockTries.storage
        nodesUsedByTxn.storageAccesses out.additionalStorageTriePathsToNotHash =
        .ok tries.storageTries := by
  simp only [createMinimalPartialTriesNeededByTxn, bind_eq_ok] at h
  obtain ⟨st, h₁, k, h₂, tt, h₃, rt, h₄, sts, h₅, h₆⟩ := h
  cases h₆
  exact ⟨k, h₂, h₁, h₃, h₄, h₅⟩

/-- The cut of a unit succeeds exactly when each of its five parts does. -/
theorem exists_createMinimalPartialTriesNeededByTxn_eq_ok_iff {currBlockTries : PartialTrieState}
    {nodesUsedByTxn : NodesUsedByTxn} {txnIdx : Nat} {out : TrieDeltaApplicationOutput} :
    (∃ tries, createMinimalPartialTriesNeededByTxn keccak currBlockTries nodesUsedByTxn txnIdx out =
      .ok tries) ↔
    (∃ stateTrie, createMinimalStatePartialTrie keccak currBlockTries.state
        nodesUsedByTxn.stateAccesses out.additionalStateTriePathsToNotHash = .ok stateTrie) ∧
      (∃ txnK, txnKey txnIdx = .ok txnK ∧
        (∃ t, createTrieSubsetWrapped keccak currBlockTries.txn [txnK] .txn = .ok t) ∧
        ∃ t, createTrieSubsetWrapped keccak currBlockTries.receipt [txnK] .receipt = .ok t) ∧
      ∃ storageTries, createMinimalStoragePartialTries keccak currBlockTries.storage
        nodesUsedByTxn.storageAccesses out.additionalStorageTriePathsToNotHash = .ok storageTries := by
  simp only [createMinimalPartialTriesNeededByTxn, bind_eq_ok]
  constructor
  · rintro ⟨_, st, h₁, k, h₂, tt, h₃, rt, h₄, sts, h₅, -⟩
    exact ⟨⟨st, h₁⟩, ⟨k, h₂, ⟨tt, h₃⟩, rt, h₄⟩, sts, h₅⟩
  · rintro ⟨⟨st, h₁⟩, ⟨k, h₂, ⟨tt, h₃⟩, rt, h₄⟩, sts, h₅⟩
    exact ⟨_, st, h₁, k, h₂, tt, h₃, rt, h₄, sts, h₅, rfl⟩

def calculateTrieInputHashes (tInputs : PartialTrieState) : TrieRoots :=
  ⟨tInputs.state.hash keccak, tInputs.txn.hash keccak, tInputs.receipt.hash keccak⟩

/-- `create_fully_hashed_out_sub_partial_trie`: the subset for no key, which always exists
(`createTrieSubset_nil`), so its `unwrap` cannot panic. -/
def createFullyHashedOutSubPartialTrie (trie : PartialTrie) : PartialTrie :=
  trie.keepPaths keccak []

theorem createTrieSubset_nil_eq (trie : PartialTrie) :
    trie.createTrieSubset keccak [] = .ok (createFullyHashedOutSubPartialTrie keccak trie) := rfl

/-- `create_dummy_proof_trie_inputs`: every trie hashed out, the state trie as given. -/
def createDummyProofTrieInputs (finalTriesAtEndOfBlock : PartialTrieState)
    (stateTrie : PartialTrie) : TrieInputs :=
  ⟨stateTrie, createFullyHashedOutSubPartialTrie keccak finalTriesAtEndOfBlock.txn,
    createFullyHashedOutSubPartialTrie keccak finalTriesAtEndOfBlock.receipt,
    finalTriesAtEndOfBlock.storage.entries.map fun e =>
      (e.1, createFullyHashedOutSubPartialTrie keccak e.2)⟩

/-- `create_dummy_gen_input_common`: a unit with no transaction, asserting that the counters
it is given did not move. -/
def createDummyGenInputCommon (otherData : OtherBlockData) (extraData : ExtraBlockData)
    (subTries : TrieInputs) : Except Failure GenerationInputs := do
  let trieRootsAfter : TrieRoots := ⟨subTries.stateTrie.hash keccak,
    subTries.transactionsTrie.hash keccak, subTries.receiptsTrie.hash keccak⟩
  if extraData.txnNumberBefore ≠ extraData.txnNumberAfter then
    throw (.panic "Txn numbers before/after differ in a dummy payload with no txn!")
  if extraData.gasUsedBefore ≠ extraData.gasUsedAfter then
    throw (.panic "Gas used before/after differ in a dummy payload with no txn!")
  return {
    signedTxn := none, tries := subTries, trieRootsAfter := trieRootsAfter
    checkpointStateTrieRoot := extraData.checkpointStateTrieRoot
    blockMetadata := otherData.bData.bMeta, blockHashes := otherData.bData.bHashes
    txnNumberBefore := extraData.txnNumberBefore, gasUsedBefore := extraData.gasUsedBefore
    gasUsedAfter := extraData.gasUsedAfter, contractCode := [], withdrawals := [] }

theorem createDummyGenInputCommon_eq_ok {otherData : OtherBlockData} {extraData : ExtraBlockData}
    {subTries : TrieInputs} {genInputs : GenerationInputs}
    (h : createDummyGenInputCommon keccak otherData extraData subTries = .ok genInputs) :
    extraData.txnNumberBefore = extraData.txnNumberAfter ∧
      extraData.gasUsedBefore = extraData.gasUsedAfter ∧
      genInputs = {
        signedTxn := none, tries := subTries
        trieRootsAfter := ⟨subTries.stateTrie.hash keccak, subTries.transactionsTrie.hash keccak,
          subTries.receiptsTrie.hash keccak⟩
        checkpointStateTrieRoot := extraData.checkpointStateTrieRoot
        blockMetadata := otherData.bData.bMeta, blockHashes := otherData.bData.bHashes
        txnNumberBefore := extraData.txnNumberBefore, gasUsedBefore := extraData.gasUsedBefore
        gasUsedAfter := extraData.gasUsedAfter, contractCode := [], withdrawals := [] } := by
  unfold createDummyGenInputCommon at h
  by_cases h₁ : extraData.txnNumberBefore = extraData.txnNumberAfter
  · by_cases h₂ : extraData.gasUsedBefore = extraData.gasUsedAfter
    · simp only [eq_true h₁, eq_true h₂, ne_eq, not_true_eq_false, ite_false, pure_bind] at h
      exact ⟨h₁, h₂, (Except.ok.inj h).symm⟩
    · simp [eq_true h₁, h₂, throw, throwThe, MonadExceptOf.throw, bind, Except.bind, pure,
        Except.pure] at h
  · simp [h₁, throw, throwThe, MonadExceptOf.throw, bind, Except.bind] at h

def createDummyGenInput (otherData : OtherBlockData) (extraData : ExtraBlockData)
    (finalTries : PartialTrieState) : Except Failure GenerationInputs :=
  createDummyGenInputCommon keccak otherData extraData
    (createDummyProofTrieInputs keccak finalTries
      (createFullyHashedOutSubPartialTrie keccak finalTries.state))

/-- `create_dummy_gen_input_with_state_addrs_accessed`: a dummy unit whose state trie keeps
the given accounts readable. -/
def createDummyGenInputWithStateAddrsAccessed (otherData : OtherBlockData)
    (extraData : ExtraBlockData) (finalTries : PartialTrieState)
    (accountAddrsAccessed : List H256) : Except Failure GenerationInputs := do
  let stateTrie ← createMinimalStatePartialTrie keccak finalTries.state accountAddrsAccessed []
  createDummyGenInputCommon keccak otherData extraData
    (createDummyProofTrieInputs keccak finalTries stateTrie)

def createDummyTxnPairForEmptyBlock (otherData : OtherBlockData) (extraData : ExtraBlockData)
    (finalTries : PartialTrieState) : Except Failure (List GenerationInputs) := do
  let first ← createDummyGenInput keccak otherData extraData finalTries
  let second ← createDummyGenInput keccak otherData extraData finalTries
  return [first, second]

/-- `pad_gen_inputs_with_dummy_inputs_if_needed`: two dummies for an empty block, one
prepended to a single transaction, none otherwise. -/
def padGenInputsWithDummyInputsIfNeeded (genInputs : List GenerationInputs)
    (otherData : OtherBlockData) (finalExtraData initialExtraData : ExtraBlockData)
    (initialTries finalTries : PartialTrieState) : Except Failure (List GenerationInputs) :=
  match genInputs with
  | [] => do
    if initialTries.state ≠ finalTries.state then
      throw (.panic "assertion failed: initial_tries.state == final_tries.state")
    if initialExtraData ≠ finalExtraData then
      throw (.panic "assertion failed: initial_extra_data == final_extra_data")
    let pair ← createDummyTxnPairForEmptyBlock keccak otherData finalExtraData initialTries
    return genInputs ++ pair
  | [g] => do
    let dummyTxn ← createDummyGenInput keccak otherData initialExtraData initialTries
    return dummyTxn :: [g]
  | _ => pure genInputs

theorem padGenInputsWithDummyInputsIfNeeded_eq_ok {genInputs padded : List GenerationInputs}
    {otherData : OtherBlockData} {finalExtraData initialExtraData : ExtraBlockData}
    {initialTries finalTries : PartialTrieState}
    (h : padGenInputsWithDummyInputsIfNeeded keccak genInputs otherData finalExtraData
      initialExtraData initialTries finalTries = .ok padded) :
    (genInputs = [] ∧ initialTries.state = finalTries.state ∧ initialExtraData = finalExtraData ∧
      ∃ dummy, createDummyGenInput keccak otherData finalExtraData initialTries = .ok dummy ∧
        padded = [dummy, dummy]) ∨
    (∃ g dummy, genInputs = [g] ∧
      createDummyGenInput keccak otherData initialExtraData initialTries = .ok dummy ∧
      padded = [dummy, g]) ∨
    (2 ≤ genInputs.length ∧ padded = genInputs) := by
  match genInputs, h with
  | [], h =>
    unfold padGenInputsWithDummyInputsIfNeeded at h
    by_cases h₁ : initialTries.state = finalTries.state
    · by_cases h₂ : initialExtraData = finalExtraData
      · simp only [eq_true h₁, eq_true h₂, ne_eq, not_true_eq_false, ite_false, pure_bind,
          createDummyTxnPairForEmptyBlock, bind_eq_ok] at h
        obtain ⟨_, ⟨d, hd, d₂, hd₂, hp⟩, h⟩ := h
        rw [hd] at hd₂
        cases hd₂; cases hp; cases h
        exact .inl ⟨rfl, h₁, h₂, d, hd, rfl⟩
      · simp [eq_true h₁, h₂, throw, throwThe, MonadExceptOf.throw, bind, Except.bind, pure,
          Except.pure] at h
    · simp [h₁, throw, throwThe, MonadExceptOf.throw, bind, Except.bind] at h
  | [g], h =>
    simp only [padGenInputsWithDummyInputsIfNeeded, bind_eq_ok] at h
    obtain ⟨d, hd, h⟩ := h
    cases h
    exact .inr (.inl ⟨g, d, rfl, hd, rfl⟩)
  | _ :: _ :: _, h =>
    cases h
    exact .inr (.inr ⟨by simp, rfl⟩)

def Address.asBytes (addr : Address) : Bytes := toBytesBE 20 addr.val

/-- One withdrawal of `update_trie_state_from_withdrawals`: the recipient's balance is credited
in place; a missing recipient is an error, an overflow a panic. -/
def creditWithdrawal (state : PartialTrie) (w : Address × H256 × U256) :
    Except Failure PartialTrie := do
  let (addr, hAddr, amt) := w
  let hAddrNibs := Nibbles.fromH256Be hAddr
  let accBytes ← match state.get hAddrNibs with
    | some accBytes => pure accBytes
    | none => traceError (((TraceParsingError.new (.missingWithdrawalAccount addr hAddr amt)).withAddr
        addr).withHAddr hAddr)
  let accData ← accountFromRlpedBytes accBytes
  let balance ← orPanic "arithmetic operation overflow" (accData.balance.checkedAdd amt)
  return state.insertIgnoringResult hAddrNibs { accData with balance }.encode

theorem creditWithdrawal_of_get_eq_none {state : PartialTrie} {w : Address × H256 × U256}
    (h : state.get (Nibbles.fromH256Be w.2.1) = none) :
    creditWithdrawal state w = traceError (((TraceParsingError.new
      (.missingWithdrawalAccount w.1 w.2.1 w.2.2)).withAddr w.1).withHAddr w.2.1) := by
  obtain ⟨addr, hAddr, amt⟩ := w
  simp only [creditWithdrawal, h, traceError, bind, Except.bind]

theorem creditWithdrawal_of_decode_eq_error {state : PartialTrie} {w : Address × H256 × U256}
    {bytes : Bytes} {err : DecoderError} (h : state.get (Nibbles.fromH256Be w.2.1) = some bytes)
    (hd : AccountRlp.decode bytes = .error err) :
    creditWithdrawal state w = traceError (.new (.accountDecode bytes err)) := by
  obtain ⟨addr, hAddr, amt⟩ := w
  simp only [creditWithdrawal, h, accountFromRlpedBytes, hd, traceError, pure, Except.pure, bind,
    Except.bind]

theorem creditWithdrawal_of_decode_eq_ok {state : PartialTrie} {w : Address × H256 × U256}
    {bytes : Bytes} {account : AccountRlp} {balance : U256}
    (h : state.get (Nibbles.fromH256Be w.2.1) = some bytes)
    (hd : AccountRlp.decode bytes = .ok account)
    (hb : account.balance.checkedAdd w.2.2 = some balance) :
    creditWithdrawal state w =
      .ok (state.insertIgnoringResult (Nibbles.fromH256Be w.2.1) { account with balance }.encode) := by
  obtain ⟨addr, hAddr, amt⟩ := w
  simp only [creditWithdrawal, h, accountFromRlpedBytes, hd, hb, orPanic, pure, Except.pure, bind,
    Except.bind]

def updateTrieStateFromWithdrawals (withdrawals : List (Address × H256 × U256))
    (state : PartialTrie) : Except Failure PartialTrie :=
  withdrawals.foldlM creditWithdrawal state

def withdrawalsWithHashedAddrs (withdrawals : List (Address × U256)) :
    List (Address × H256 × U256) :=
  withdrawals.map fun w => (w.1, keccak w.1.asBytes, w.2)

/-- `add_withdrawals_to_txns`: the withdrawals go into the last unit, whose state trie is first
re-cut for the recipients when it is a dummy; the live state is credited and the last unit's
state root set to the result. -/
def addWithdrawalsToTxns (txnIr : List GenerationInputs) (finalTrieState : PartialTrieState)
    (withdrawals : List (Address × U256)) :
    Except Failure (List GenerationInputs × PartialTrieState) := do
  let lastInputs ← orPanic "We cannot have an empty list of payloads." txnIr.getLast?
  let lastInputs ← match lastInputs.signedTxn with
    | none => do
      let stateTrie ← createMinimalStatePartialTrie keccak lastInputs.tries.stateTrie
        ((withdrawalsWithHashedAddrs keccak withdrawals).map fun w => w.2.1) []
      pure { lastInputs with tries := { lastInputs.tries with stateTrie := stateTrie } }
    | some _ => pure lastInputs
  let state ← updateTrieStateFromWithdrawals (withdrawalsWithHashedAddrs keccak withdrawals)
    finalTrieState.state
  let lastInputs := { lastInputs with
    withdrawals := withdrawals
    trieRootsAfter := { lastInputs.trieRootsAfter with stateRoot := state.hash keccak } }
  return (txnIr.dropLast ++ [lastInputs], { finalTrieState with state })

theorem addWithdrawalsToTxns_eq_ok {txnIr ir : List GenerationInputs}
    {finalTrieState finalTrieState' : PartialTrieState} {withdrawals : List (Address × U256)}
    (h : addWithdrawalsToTxns keccak txnIr finalTrieState withdrawals =
      .ok (ir, finalTrieState')) :
    ∃ lastInputs stateTrie state, txnIr.getLast? = some lastInputs ∧
      (lastInputs.signedTxn = none → createMinimalStatePartialTrie keccak
        lastInputs.tries.stateTrie ((withdrawalsWithHashedAddrs keccak withdrawals).map
          fun w => w.2.1) [] = .ok stateTrie) ∧
      (lastInputs.signedTxn ≠ none → stateTrie = lastInputs.tries.stateTrie) ∧
      updateTrieStateFromWithdrawals (withdrawalsWithHashedAddrs keccak withdrawals)
        finalTrieState.state = .ok state ∧
      ir = txnIr.dropLast ++ [{ lastInputs with
        tries := { lastInputs.tries with stateTrie }, withdrawals := withdrawals
        trieRootsAfter := { lastInputs.trieRootsAfter with stateRoot := state.hash keccak } }] ∧
      finalTrieState' = { finalTrieState with state } := by
  simp only [addWithdrawalsToTxns, bind_eq_ok, orPanic_eq_ok] at h
  obtain ⟨last, h₁, h₂⟩ := h
  split at h₂ <;> rename_i hs <;> simp only [bind_eq_ok, pure_bind] at h₂
  · obtain ⟨st, h₅, state, h₃, h₄⟩ := h₂
    cases h₄
    exact ⟨last, st, state, h₁, fun _ => h₅, fun h => absurd hs h, h₃, rfl, rfl⟩
  · obtain ⟨state, h₃, h₄⟩ := h₂
    cases h₄
    exact ⟨last, last.tries.stateTrie, state, h₁, fun h => absurd h (by simp [hs]), fun _ => rfl,
      h₃, rfl, rfl⟩

/-- The first step of `process_txn_info`: the storage tries its storage accesses need. -/
def seedStorageTries (currBlockTries : PartialTrieState) (txnInfo : ProcessedSectionTxnInfo) :
    PartialTrieState :=
  { currBlockTries with
    storage := initAnyNeededEmptyStorageTries currBlockTries.storage
      (txnInfo.nodesUsedByTxn.storageAccesses.map Prod.fst)
      txnInfo.nodesUsedByTxn.stateAccountsWithNoAccessesButStorageTries }

/-- `process_txn_info`: one transaction's unit, the live tries and counters moved past it. -/
def processTxnInfo (txnIdx : Nat) (txnInfo : ProcessedSectionTxnInfo)
    (currBlockTries : PartialTrieState) (extraData : ExtraBlockData) (otherData : OtherBlockData) :
    Except Failure (GenerationInputs × PartialTrieState × ExtraBlockData) := do
  let currBlockTries := seedStorageTries currBlockTries txnInfo
  let txnNumberAfter ← orPanic "arithmetic operation overflow"
    (extraData.txnNumberAfter.checkedAdd 1)
  let gasUsedAfter ← orPanic "arithmetic operation overflow"
    (extraData.gasUsedAfter.checkedAdd (UInt64.toU256 txnInfo.meta.gasUsed))
  let extraData := { extraData with txnNumberAfter, gasUsedAfter }
  let triesAtStartOfTxn := currBlockTries
  let currBlockTries ← updateTxnAndReceiptTries currBlockTries txnInfo.meta txnIdx
  let (currBlockTries, deltaOut) ← applyDeltasToTrieState keccak currBlockTries
    txnInfo.nodesUsedByTxn
  let tries ← createMinimalPartialTriesNeededByTxn keccak triesAtStartOfTxn txnInfo.nodesUsedByTxn
    txnIdx deltaOut
  let trieRootsAfter := calculateTrieInputHashes keccak currBlockTries
  let genInputs : GenerationInputs := {
    txnNumberBefore := extraData.txnNumberBefore, gasUsedBefore := extraData.gasUsedBefore
    gasUsedAfter := extraData.gasUsedAfter, signedTxn := txnInfo.meta.txnBytes
    withdrawals := [], tries := tries, trieRootsAfter := trieRootsAfter
    checkpointStateTrieRoot := extraData.checkpointStateTrieRoot
    contractCode := txnInfo.contractCodeAccessed, blockMetadata := otherData.bData.bMeta
    blockHashes := otherData.bData.bHashes }
  let txnNumberBefore ← orPanic "arithmetic operation overflow"
    (extraData.txnNumberBefore.checkedAdd 1)
  return (genInputs, currBlockTries,
    { extraData with txnNumberBefore, gasUsedBefore := extraData.gasUsedAfter })

theorem processTxnInfo_eq_ok {txnIdx : Nat} {txnInfo : ProcessedSectionTxnInfo}
    {tries tries' : PartialTrieState} {extraData extraData' : ExtraBlockData}
    {otherData : OtherBlockData} {genInputs : GenerationInputs}
    (h : processTxnInfo keccak txnIdx txnInfo tries extraData otherData =
      .ok (genInputs, tries', extraData')) :
    ∃ txnNumberAfter gasUsedAfter txnNumberBefore tries₁ out subTries,
      extraData.txnNumberAfter.checkedAdd 1 = some txnNumberAfter ∧
      extraData.gasUsedAfter.checkedAdd (UInt64.toU256 txnInfo.meta.gasUsed) = some gasUsedAfter ∧
      updateTxnAndReceiptTries (seedStorageTries tries txnInfo) txnInfo.meta txnIdx = .ok tries₁ ∧
      applyDeltasToTrieState keccak tries₁ txnInfo.nodesUsedByTxn = .ok (tries', out) ∧
      createMinimalPartialTriesNeededByTxn keccak (seedStorageTries tries txnInfo)
        txnInfo.nodesUsedByTxn txnIdx out = .ok subTries ∧
      extraData.txnNumberBefore.checkedAdd 1 = some txnNumberBefore ∧
      genInputs = {
        txnNumberBefore := extraData.txnNumberBefore, gasUsedBefore := extraData.gasUsedBefore
        gasUsedAfter := gasUsedAfter, signedTxn := txnInfo.meta.txnBytes, withdrawals := []
        tries := subTries, trieRootsAfter := calculateTrieInputHashes keccak tries'
        checkpointStateTrieRoot := extraData.checkpointStateTrieRoot
        contractCode := txnInfo.contractCodeAccessed, blockMetadata := otherData.bData.bMeta
        blockHashes := otherData.bData.bHashes } ∧
      extraData' = { extraData with
        txnNumberAfter := txnNumberAfter, gasUsedAfter := gasUsedAfter
        txnNumberBefore := txnNumberBefore, gasUsedBefore := gasUsedAfter } := by
  simp only [processTxnInfo, bind_eq_ok, orPanic_eq_ok] at h
  obtain ⟨a1, h1, a2, h2, t1, h3, ⟨t2, out⟩, h4, sub, h5, b1, h6, h7⟩ := h
  cases h7
  exact ⟨a1, a2, b1, t1, out, sub, h1, h2, h3, h4, h5, h6, rfl, rfl⟩

/-- The transaction loop of `process_txns`: `process_txn_info` on each transaction in index
order, each error stamped with its index; the first error ends the loop. -/
def processTxnsLoop (otherData : OtherBlockData) : Nat → List ProcessedSectionTxnInfo →
    PartialTrieState → ExtraBlockData →
    Except Failure (List GenerationInputs × PartialTrieState × ExtraBlockData)
  | _, [], currBlockTries, extraData => .ok ([], currBlockTries, extraData)
  | txnIdx, txnInfo :: rest, currBlockTries, extraData => do
    let (genInputs, currBlockTries, extraData) ← mapTraceError (·.withTxnIdx txnIdx)
      (processTxnInfo keccak txnIdx txnInfo currBlockTries extraData otherData)
    let (ir, currBlockTries, extraData) ←
      processTxnsLoop otherData (txnIdx + 1) rest currBlockTries extraData
    return (genInputs :: ir, currBlockTries, extraData)

theorem processTxnsLoop_cons_eq_ok {otherData : OtherBlockData} {txnIdx : Nat}
    {txnInfo : ProcessedSectionTxnInfo} {rest : List ProcessedSectionTxnInfo}
    {tries tries' : PartialTrieState} {extraData extraData' : ExtraBlockData}
    {ir : List GenerationInputs}
    (h : processTxnsLoop keccak otherData txnIdx (txnInfo :: rest) tries extraData =
      .ok (ir, tries', extraData')) :
    ∃ genInputs tries₁ extraData₁ ir',
      processTxnInfo keccak txnIdx txnInfo tries extraData otherData =
        .ok (genInputs, tries₁, extraData₁) ∧
      processTxnsLoop keccak otherData (txnIdx + 1) rest tries₁ extraData₁ =
        .ok (ir', tries', extraData') ∧ ir = genInputs :: ir' := by
  simp only [processTxnsLoop, bind_eq_ok, mapTraceError_eq_ok] at h
  obtain ⟨⟨u, t₁, e₁⟩, h₁, ⟨ir', t', e'⟩, h₂, h₃⟩ := h
  cases h₃
  exact ⟨u, t₁, e₁, ir', h₁, h₂, rfl⟩

def initialExtraData (otherData : OtherBlockData) : ExtraBlockData :=
  ⟨otherData.checkpointStateTrieRoot, 0, 0, 0, 0⟩

theorem processTxnsLoop_append_eq_ok {otherData : OtherBlockData} {txnIdx : Nat}
    {xs ys : List ProcessedSectionTxnInfo} {tries tries' : PartialTrieState}
    {extraData extraData' : ExtraBlockData} {ir : List GenerationInputs}
    (h : processTxnsLoop keccak otherData txnIdx (xs ++ ys) tries extraData =
      .ok (ir, tries', extraData')) :
    ∃ ir₁ tries₁ extraData₁ ir₂,
      processTxnsLoop keccak otherData txnIdx xs tries extraData = .ok (ir₁, tries₁, extraData₁) ∧
      processTxnsLoop keccak otherData (txnIdx + xs.length) ys tries₁ extraData₁ =
        .ok (ir₂, tries', extraData') ∧ ir = ir₁ ++ ir₂ := by
  induction xs generalizing txnIdx tries extraData ir with
  | nil => exact ⟨[], tries, extraData, ir, rfl, h, rfl⟩
  | cons x xs ih =>
    obtain ⟨u, t₁, e₁, ir', h₁, h₂, rfl⟩ := processTxnsLoop_cons_eq_ok keccak h
    obtain ⟨ir₁, t₂, e₂, ir₂, h₃, h₄, rfl⟩ := ih h₂
    refine ⟨u :: ir₁, t₂, e₂, ir₂, ?_, ?_, rfl⟩
    · simp only [processTxnsLoop, bind_eq_ok, mapTraceError_eq_ok]
      exact ⟨_, h₁, _, h₃, rfl⟩
    · rwa [List.length_cons, show txnIdx + (xs.length + 1) = txnIdx + 1 + xs.length by omega]

def processTxns (txns : List ProcessedSectionTxnInfo) (tries : PartialTrieState)
    (withdrawals : List (Address × U256)) (otherData : OtherBlockData) :
    Except Failure (List GenerationInputs) := do
  let initialTriesForDummies := tries
  let extraData := initialExtraData otherData
  let extraDataForDummies := extraData
  let (ir, currBlockTries, extraData) ←
    mapTraceError (fun e => (e.withBlockNum otherData.bData.bMeta.blockNumber).withBlockChainId
      otherData.bData.bMeta.blockChainId) (processTxnsLoop keccak otherData 0 txns tries extraData)
  let ir ← padGenInputsWithDummyInputsIfNeeded keccak ir otherData extraData extraDataForDummies
    initialTriesForDummies currBlockTries
  if withdrawals.isEmpty then return ir
  else do
    let (ir, _) ← addWithdrawalsToTxns keccak ir currBlockTries withdrawals
    return ir

theorem processTxns_eq_ok {txns : List ProcessedSectionTxnInfo} {tries : PartialTrieState}
    {withdrawals : List (Address × U256)} {otherData : OtherBlockData} {ir : List GenerationInputs}
    (h : processTxns keccak txns tries withdrawals otherData = .ok ir) :
    ∃ ir₀ tries' extraData padded,
      processTxnsLoop keccak otherData 0 txns tries (initialExtraData otherData) =
        .ok (ir₀, tries', extraData) ∧
      padGenInputsWithDummyInputsIfNeeded keccak ir₀ otherData extraData
        (initialExtraData otherData) tries tries' = .ok padded ∧
      ((withdrawals = [] ∧ ir = padded) ∨
        (withdrawals ≠ [] ∧ ∃ tries'', addWithdrawalsToTxns keccak padded tries' withdrawals =
          .ok (ir, tries''))) := by
  simp only [processTxns, bind_eq_ok, mapTraceError_eq_ok] at h
  obtain ⟨⟨ir₀, t', e⟩, h₁, padded, h₂, h₃⟩ := h
  refine ⟨ir₀, t', e, padded, h₁, h₂, ?_⟩
  by_cases hw : withdrawals.isEmpty
  · simp only [hw, ite_true, pure, Except.pure, Except.ok.injEq] at h₃
    exact .inl ⟨List.isEmpty_iff.mp hw, h₃.symm⟩
  · simp only [hw, Bool.false_eq_true, ite_false, bind_eq_ok] at h₃
    obtain ⟨⟨ir', t''⟩, h₄, h₅⟩ := h₃
    cases h₅
    exact .inr ⟨fun e => hw (List.isEmpty_iff.mpr e), t'', h₄⟩

/-- `into_proof_gen_ir`, given the pre-image tries `get_trie_pre_image` builds. -/
def intoProofGenIr (sectInfo : ProcessedSectionInfo) (preImage : PartialTrieState)
    (withdrawals : List (Address × U256)) (otherData : OtherBlockData) :
    Except Failure (List GenerationInputs) :=
  match sectInfo with
  | .continuations => .error (.panic "not yet implemented: MPT continuations are not implemented yet!")
  | .txns txns => processTxns keccak txns preImage withdrawals otherData

end ZkEvmTrace
