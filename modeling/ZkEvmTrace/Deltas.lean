import ZkEvmTrace.Types

/-!
# Delta application

`apply_deltas_to_trie_state` and the steps around it in `process_txn_info`: seeding the
storage tries a transaction accesses, inserting its transaction and receipt, and applying
its storage writes, state writes and self-destructs to the live tries, in that order.
-/

namespace ZkEvmTrace

variable (keccak : Bytes → H256)

def emptyCodeHash : H256 := keccak []

/-- The account of an address the state trie does not hold. -/
def emptyAccount : AccountRlp := ⟨0, 0, PartialTrie.emptyTrieHash keccak, emptyCodeHash keccak⟩

def emptyAccountBytesRlped : Bytes := (emptyAccount keccak).encode

/-- `account_from_rlped_bytes`: the decoded account, or `AccountDecode` with the bytes. -/
def accountFromRlpedBytes (bytes : Bytes) : Except Failure AccountRlp :=
  match AccountRlp.decode bytes with
  | .ok a => .ok a
  | .error err => traceError (.new (.accountDecode bytes err))

theorem accountFromRlpedBytes_eq_ok {bytes : Bytes} {a : AccountRlp} :
    accountFromRlpedBytes bytes = .ok a ↔ AccountRlp.decode bytes = .ok a := by
  unfold accountFromRlpedBytes
  split <;> rename_i e <;> simp [e, traceError]

def updateValIfSome {α : Type} (val : α) (update : Option α) : α := update.getD val

/-- A trie insert whose `Result` the caller drops: a failed insert leaves the trie as it was. -/
def PartialTrie.insertIgnoringResult (t : PartialTrie) (k : Nibbles) (v : Bytes) : PartialTrie :=
  match t.insert k v with
  | .ok t' => t'
  | .error _ => t

theorem get_insertIgnoringResult (t : PartialTrie) (k : Nibbles) (v : Bytes) (k' : Nibbles) :
    (t.insertIgnoringResult k v).get k' =
      if t.isHidden k then t.get k' else if k' = k then some v else t.get k' := by
  unfold PartialTrie.insertIgnoringResult
  split <;> rename_i h
  · rw [PartialTrie.isHidden_eq_false_of_insert_eq_ok h, PartialTrie.get_insert h]; rfl
  · rw [PartialTrie.isHidden_of_insert_eq_error h]; rfl

theorem isHidden_insertIgnoringResult (t : PartialTrie) (k : Nibbles) (v : Bytes) (k' : Nibbles) :
    (t.insertIgnoringResult k v).isHidden k' = t.isHidden k' := by
  unfold PartialTrie.insertIgnoringResult
  split <;> rename_i h
  · exact PartialTrie.isHidden_insert h k'
  · rfl

/-- `init_any_needed_empty_storage_tries`: every accessed account without a storage trie gets
one, the hash node of its known root or else the empty trie. -/
def initAnyNeededEmptyStorageTries (storage : AList (fun _ : H256 => PartialTrie))
    (accountsWithStorage : List H256)
    (stateAccountsWithNoAccessesButStorageTries : AList (fun _ : H256 => H256)) :
    AList (fun _ : H256 => PartialTrie) :=
  accountsWithStorage.foldl (fun storage hAddr =>
    if (storage.lookup hAddr).isSome then storage
    else storage.insert hAddr
      (((stateAccountsWithNoAccessesButStorageTries.lookup hAddr).map .hashNode).getD .empty))
    storage

/-- `Nibbles::from_bytes_be(&rlp::encode(&txn_idx)).unwrap()`: the transaction-trie key. -/
def txnKey (txnIdx : Nat) : Except Failure Nibbles :=
  orPanic "called `Result::unwrap()` on an `Err` value" (Nibbles.fromBytesBe (encodeUsize txnIdx))

/-- Modelled from the spec: `TrieState::insert_txn_node` and `insert_receipt_node` insert the
bytes at the key; their signature carries no error, so a failed insert aborts. -/
def insertNode (t : PartialTrie) (k : Nibbles) (bytes : Bytes) : Except Failure PartialTrie :=
  match t.insert k bytes with
  | .ok t' => .ok t'
  | .error _ => .error (.panic "called `Result::unwrap()` on an `Err` value")

def updateTxnAndReceiptTries (trieState : PartialTrieState) (meta : TxnMetaState) (txnIdx : Nat) :
    Except Failure PartialTrieState := do
  let txnK ← txnKey txnIdx
  let txn ← insertNode trieState.txn txnK meta.txnBytes!
  let receipt ← insertNode trieState.receipt txnK meta.receiptNodeBytes
  return { trieState with txn, receipt }

theorem insertNode_eq_ok {t t' : PartialTrie} {k : Nibbles} {bytes : Bytes}
    (h : insertNode t k bytes = .ok t') : t.insert k bytes = .ok t' := by
  unfold insertNode at h
  split at h <;> rename_i e
  · cases h; exact e
  · cases h

theorem updateTxnAndReceiptTries_eq_ok {trieState trieState' : PartialTrieState}
    {meta : TxnMetaState} {txnIdx : Nat}
    (h : updateTxnAndReceiptTries trieState meta txnIdx = .ok trieState') :
    ∃ txnK txn receipt, txnKey txnIdx = .ok txnK ∧
      trieState.txn.insert txnK meta.txnBytes! = .ok txn ∧
      trieState.receipt.insert txnK meta.receiptNodeBytes = .ok receipt ∧
      trieState' = { trieState with txn, receipt } := by
  simp only [updateTxnAndReceiptTries, bind_eq_ok] at h
  obtain ⟨k, h₁, txn, h₂, receipt, h₃, h₄⟩ := h
  cases h₄
  exact ⟨k, txn, receipt, h₁, insertNode_eq_ok h₂, insertNode_eq_ok h₃, rfl⟩

/-- Modelled from the spec: `delete_node_and_report_remaining_key_if_branch_collapsed` deletes the
key and reports the key of the slot a branch collapse left. Its result carries no error, so a
failed delete cannot reach its caller: the model stops there with a panic. -/
def PartialTrie.deleteNodeAndReportRemainingKeyIfBranchCollapsed (trie : PartialTrie)
    (deleteK : Nibbles) : Except Failure (PartialTrie × Option Nibbles) :=
  match trie.delete deleteK with
  | .ok trie' => .ok (trie', trie.collapsedKey trie' deleteK [])
  | .error _ => .error (.panic "trie delete failed")

namespace PartialTrie

theorem deleteNode_eq_ok {t t' : PartialTrie} {k : Nibbles} {r : Option Nibbles} :
    t.deleteNodeAndReportRemainingKeyIfBranchCollapsed k = .ok (t', r) ↔
      t.delete k = .ok t' ∧ r = t.collapsedKey t' k [] := by
  unfold deleteNodeAndReportRemainingKeyIfBranchCollapsed
  split <;> rename_i h
  · simp only [h, Except.ok.injEq, Prod.mk.injEq]
    constructor <;> rintro ⟨rfl, rfl⟩ <;> exact ⟨rfl, rfl⟩
  · simp [h]

theorem deleteNode_ne_error (t : PartialTrie) (k : Nibbles) (e : TraceParsingError) :
    t.deleteNodeAndReportRemainingKeyIfBranchCollapsed k ≠ .error (.error e) := by
  unfold deleteNodeAndReportRemainingKeyIfBranchCollapsed
  split <;> nofun

theorem get_deleteNode {t t' : PartialTrie} {k : Nibbles} {r : Option Nibbles}
    (h : t.deleteNodeAndReportRemainingKeyIfBranchCollapsed k = .ok (t', r)) (k' : Nibbles) :
    t'.get k' = if k' = k then none else t.get k' :=
  get_delete (deleteNode_eq_ok.mp h).1 k'

theorem isHidden_deleteNode {t t' : PartialTrie} {k : Nibbles} {r : Option Nibbles}
    (h : t.deleteNodeAndReportRemainingKeyIfBranchCollapsed k = .ok (t', r)) (k' : Nibbles) :
    t'.isHidden k' = t.isHidden k' :=
  isHidden_delete (deleteNode_eq_ok.mp h).1 k'

theorem markKey_of_deleteNode_report {t t' : PartialTrie} {k r : Nibbles}
    (h : t.deleteNodeAndReportRemainingKeyIfBranchCollapsed k = .ok (t', some r)) :
    t.markKey r = .ok () := by
  obtain ⟨r', rfl, hr⟩ := markKey_of_collapsedKey (deleteNode_eq_ok.mp h).2.symm
  exact hr

end PartialTrie

/-! ## `apply_deltas_to_trie_state` -/

def slotKey (slot : Nibbles) : Nibbles := Nibbles.fromH256Be (keccak slot.bytesBe)

/-- `additional_storage_trie_paths_to_not_hash.entry(h_addr).or_default().push(path)`. -/
def TrieDeltaApplicationOutput.pushStoragePath (out : TrieDeltaApplicationOutput) (hAddr : H256)
    (path : Nibbles) : TrieDeltaApplicationOutput :=
  { out with
    additionalStorageTriePathsToNotHash := out.additionalStorageTriePathsToNotHash.insert hAddr
      ((out.additionalStorageTriePathsToNotHash.lookup hAddr).getD [] ++ [path]) }

def TrieDeltaApplicationOutput.pushStatePath (out : TrieDeltaApplicationOutput) (path : Nibbles) :
    TrieDeltaApplicationOutput :=
  { out with additionalStateTriePathsToNotHash := out.additionalStateTriePathsToNotHash ++ [path] }

/-- One storage write of an account: a zero value deletes the slot and records the path a
collapse left; any other value is inserted, and a failed insert names the slot and value. -/
def applyStorageWrite (hAddr : H256) (acc : PartialTrie × TrieDeltaApplicationOutput)
    (write : Nibbles × Bytes) : Except Failure (PartialTrie × TrieDeltaApplicationOutput) :=
  let slot := slotKey keccak write.1
  let val := write.2
  match val == zeroStorageSlotValRlped with
  | false =>
    match acc.1.insert slot val with
    | .ok t => .ok (t, acc.2)
    | .error err => do
      let slotNum ← U512.fromBigEndian slot.bytesBe
      let slotValue ← U512.fromBigEndian val
      traceError (((TraceParsingError.new (.trieOpError err)).withSlot slotNum).withSlotValue
        slotValue)
  | true => do
    match ← acc.1.deleteNodeAndReportRemainingKeyIfBranchCollapsed slot with
    | (t, some remainingSlotKey) => .ok (t, acc.2.pushStoragePath hAddr remainingSlotKey)
    | (t, none) => .ok (t, acc.2)

theorem applyStorageWrite_eq_ok {hAddr : H256} {acc acc' : PartialTrie × TrieDeltaApplicationOutput}
    {write : Nibbles × Bytes} (h : applyStorageWrite keccak hAddr acc write = .ok acc') :
    (write.2 ≠ zeroStorageSlotValRlped ∧ acc.1.insert (slotKey keccak write.1) write.2 = .ok acc'.1 ∧
      acc'.2 = acc.2) ∨
    (write.2 = zeroStorageSlotValRlped ∧ ∃ r,
      acc.1.deleteNodeAndReportRemainingKeyIfBranchCollapsed (slotKey keccak write.1) =
        .ok (acc'.1, r) ∧ acc'.2 = (r.map (acc.2.pushStoragePath hAddr)).getD acc.2) := by
  unfold applyStorageWrite at h
  dsimp only at h
  split at h <;> rename_i hz
  · split at h <;> rename_i hins
    · cases h
      exact .inl ⟨by simpa using hz, hins, rfl⟩
    · simp only [bind_eq_ok, traceError] at h
      obtain ⟨_, _, _, _, h⟩ := h
      cases h
  · simp only [bind_eq_ok] at h
    obtain ⟨⟨t, r⟩, hd, h⟩ := h
    cases r <;> cases h <;> exact .inr ⟨by simpa using hz, _, hd, rfl⟩

/-- The writes to one account's storage trie, which must exist. -/
def applyAccountStorageWrites
    (acc : AList (fun _ : H256 => PartialTrie) × TrieDeltaApplicationOutput)
    (writes : H256 × List (Nibbles × Bytes)) :
    Except Failure (AList (fun _ : H256 => PartialTrie) × TrieDeltaApplicationOutput) :=
  match acc.1.lookup writes.1 with
  | none => traceError ((TraceParsingError.new (.missingAccountStorageTrie writes.1)).withHAddr
      writes.1)
  | some storageTrie => do
    let (storageTrie, out) ← writes.2.foldlM (applyStorageWrite keccak writes.1)
      (storageTrie, acc.2)
    return (acc.1.insert writes.1 storageTrie, out)

theorem applyAccountStorageWrites_eq_ok
    {acc acc' : AList (fun _ : H256 => PartialTrie) × TrieDeltaApplicationOutput}
    {writes : H256 × List (Nibbles × Bytes)}
    (h : applyAccountStorageWrites keccak acc writes = .ok acc') :
    ∃ storageTrie storageTrie', acc.1.lookup writes.1 = some storageTrie ∧
      writes.2.foldlM (applyStorageWrite keccak writes.1) (storageTrie, acc.2) =
        .ok (storageTrie', acc'.2) ∧
      acc'.1 = acc.1.insert writes.1 storageTrie' := by
  unfold applyAccountStorageWrites at h
  split at h <;> rename_i hl
  · cases h
  · simp only [bind_eq_ok] at h
    obtain ⟨⟨t, o⟩, h₁, h₂⟩ := h
    cases h₂
    exact ⟨_, t, hl, h₁, rfl⟩

/-- `StateTrieWrites::apply_writes_to_state_node`: the fields the write sets, and the storage
root recomputed from the account's storage trie when it changed. -/
def StateTrieWrites.applyWritesToStateNode (w : StateTrieWrites) (stateNode : AccountRlp)
    (hAddr : H256) (accStorageTries : AList (fun _ : H256 => PartialTrie)) :
    Except Failure AccountRlp := do
  let storageRootHashChange ← match w.storageTrieChange with
    | false => pure none
    | true =>
      match accStorageTries.lookup hAddr with
      | none => traceError ((TraceParsingError.new (.missingAccountStorageTrie hAddr)).withHAddr
          hAddr)
      | some storageTrie => pure (some (storageTrie.hash keccak))
  return { stateNode with
    balance := updateValIfSome stateNode.balance w.balance
    nonce := updateValIfSome stateNode.nonce w.nonce
    storageRoot := updateValIfSome stateNode.storageRoot storageRootHashChange
    codeHash := updateValIfSome stateNode.codeHash w.codeHash }

theorem StateTrieWrites.applyWritesToStateNode_eq_ok {w : StateTrieWrites}
    {stateNode stateNode' : AccountRlp} {hAddr : H256}
    {accStorageTries : AList fun _ : H256 => PartialTrie}
    (h : w.applyWritesToStateNode keccak stateNode hAddr accStorageTries = .ok stateNode') :
    ∃ storageRoot, (w.storageTrieChange = true → ∃ storageTrie,
        accStorageTries.lookup hAddr = some storageTrie ∧ storageRoot = storageTrie.hash keccak) ∧
      (w.storageTrieChange = false → storageRoot = stateNode.storageRoot) ∧
      stateNode' = { stateNode with
        balance := updateValIfSome stateNode.balance w.balance
        nonce := updateValIfSome stateNode.nonce w.nonce
        storageRoot := storageRoot
        codeHash := updateValIfSome stateNode.codeHash w.codeHash } := by
  unfold StateTrieWrites.applyWritesToStateNode at h
  split at h <;> rename_i hc
  · simp only [pure, Except.pure, bind, Except.bind, Except.ok.injEq] at h
    exact ⟨stateNode.storageRoot, fun h' => by simp [hc] at h', fun _ => rfl, h.symm⟩
  · split at h <;> rename_i hl
    · simp [traceError, bind, Except.bind] at h
    · simp only [pure, Except.pure, bind, Except.bind, Except.ok.injEq] at h
      exact ⟨_, fun _ => ⟨_, hl, rfl⟩, fun h' => by simp [hc] at h', h.symm⟩

/-- One state write: the current account, or the empty one for a new account, updated and
written back. The result of the insert is dropped. -/
def applyStateWrite (storage : AList (fun _ : H256 => PartialTrie)) (state : PartialTrie)
    (write : H256 × StateTrieWrites) : Except Failure PartialTrie := do
  let valK := Nibbles.fromH256Be write.1
  let valBytes := (state.get valK).getD (emptyAccountBytesRlped keccak)
  let account ← accountFromRlpedBytes valBytes
  let account ← write.2.applyWritesToStateNode keccak account write.1 storage
  return state.insertIgnoringResult valK account.encode

theorem applyStateWrite_eq_ok {storage : AList fun _ : H256 => PartialTrie}
    {state state' : PartialTrie} {write : H256 × StateTrieWrites}
    (h : applyStateWrite keccak storage state write = .ok state') :
    ∃ account account', AccountRlp.decode ((state.get (Nibbles.fromH256Be write.1)).getD
        (emptyAccountBytesRlped keccak)) = .ok account ∧
      write.2.applyWritesToStateNode keccak account write.1 storage = .ok account' ∧
      state' = state.insertIgnoringResult (Nibbles.fromH256Be write.1) account'.encode := by
  simp only [applyStateWrite, bind_eq_ok] at h
  obtain ⟨a, h₁, a', h₂, h₃⟩ := h
  cases h₃
  exact ⟨a, a', accountFromRlpedBytes_eq_ok.mp h₁, h₂, rfl⟩

/-- One self-destruct: the storage trie is removed (it must exist) and the state entry
deleted, recording the path a collapse left. -/
def applySelfDestruct
    (acc : AList (fun _ : H256 => PartialTrie) × PartialTrie × TrieDeltaApplicationOutput)
    (hashedAddr : H256) :
    Except Failure (AList (fun _ : H256 => PartialTrie) × PartialTrie × TrieDeltaApplicationOutput) :=
  let k := Nibbles.fromH256Be hashedAddr
  match acc.1.lookup hashedAddr with
  | none => traceError ((TraceParsingError.new (.missingAccountStorageTrie hashedAddr)).withHAddr
      hashedAddr)
  | some _ => do
    match ← acc.2.1.deleteNodeAndReportRemainingKeyIfBranchCollapsed k with
    | (state, some remainingAccountKey) =>
      .ok (acc.1.erase hashedAddr, state, acc.2.2.pushStatePath remainingAccountKey)
    | (state, none) => .ok (acc.1.erase hashedAddr, state, acc.2.2)

theorem applySelfDestruct_eq_ok
    {acc acc' : AList (fun _ : H256 => PartialTrie) × PartialTrie × TrieDeltaApplicationOutput}
    {hashedAddr : H256} (h : applySelfDestruct acc hashedAddr = .ok acc') :
    (acc.1.lookup hashedAddr).isSome ∧ acc'.1 = acc.1.erase hashedAddr ∧ ∃ r,
      acc.2.1.deleteNodeAndReportRemainingKeyIfBranchCollapsed (Nibbles.fromH256Be hashedAddr) =
        .ok (acc'.2.1, r) ∧ acc'.2.2 = (r.map acc.2.2.pushStatePath).getD acc.2.2 := by
  unfold applySelfDestruct at h
  split at h <;> rename_i hl
  · cases h
  · simp only [bind_eq_ok] at h
    obtain ⟨⟨t, r⟩, hd, h⟩ := h
    cases r <;> cases h <;> exact ⟨by simp [hl], rfl, _, hd, rfl⟩

/-- `apply_deltas_to_trie_state`: storage writes, then state writes, then self-destructs; the
first error ends it. -/
def applyDeltasToTrieState (trieState : PartialTrieState) (deltas : NodesUsedByTxn) :
    Except Failure (PartialTrieState × TrieDeltaApplicationOutput) := do
  let (storage, out) ← deltas.storageWrites.foldlM (applyAccountStorageWrites keccak)
    (trieState.storage, .default)
  let state ← deltas.stateWrites.foldlM (applyStateWrite keccak storage) trieState.state
  let (storage, state, out) ← deltas.selfDestructedAccounts.foldlM applySelfDestruct
    (storage, state, out)
  return ({ trieState with state, storage }, out)

theorem applyDeltasToTrieState_eq_ok {trieState trieState' : PartialTrieState}
    {deltas : NodesUsedByTxn} {out : TrieDeltaApplicationOutput}
    (h : applyDeltasToTrieState keccak trieState deltas = .ok (trieState', out)) :
    ∃ storage₁ out₁ state₁ storage₂ state₂,
      deltas.storageWrites.foldlM (applyAccountStorageWrites keccak)
        (trieState.storage, .default) = .ok (storage₁, out₁) ∧
      deltas.stateWrites.foldlM (applyStateWrite keccak storage₁) trieState.state = .ok state₁ ∧
      deltas.selfDestructedAccounts.foldlM applySelfDestruct (storage₁, state₁, out₁) =
        .ok (storage₂, state₂, out) ∧
      trieState' = { trieState with state := state₂, storage := storage₂ } := by
  simp only [applyDeltasToTrieState, bind_eq_ok] at h
  obtain ⟨⟨s₁, o₁⟩, h₁, st₁, h₂, ⟨s₂, st₂, o₂⟩, h₃, h₄⟩ := h
  cases h₄
  exact ⟨s₁, o₁, st₁, s₂, st₂, h₁, h₂, h₃, rfl⟩

end ZkEvmTrace
