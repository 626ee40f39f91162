import ZkEvmTrace.Proofs.DeltaEffects

/-!
# The keys a collapse reports

Where a delete of `apply_deltas_to_trie_state` collapses a branch, the key of the slot left in
it is reported, and `process_txn_info` asks the unit it cuts from the tries at the start of the
transaction to keep that key readable as well. Every such key is reachable there: the steps of
a delta hide no key and reveal none, and the key reported is one slot past a branch on the
walk of the deleted key. So the reported keys never make the cut fail: it succeeds with them
exactly when it succeeds for the transaction's own accesses.
-/

namespace ZkEvmTrace

variable (keccak : Bytes → H256)

/-- Every key a delta's output asks the unit to keep is reachable in the tries it is cut from:
the state keys in `state`, the storage keys of each account in that account's storage trie. -/
def TrieDeltaApplicationOutput.Reachable (out : TrieDeltaApplicationOutput) (state : PartialTrie)
    (storage : AList fun _ : H256 => PartialTrie) : Prop :=
  (∀ k ∈ out.additionalStateTriePathsToNotHash, state.markKey k = .ok ()) ∧
    ∀ hAddr storageTrie, storage.lookup hAddr = some storageTrie →
      ∀ k ∈ (out.additionalStorageTriePathsToNotHash.lookup hAddr).getD [],
        storageTrie.markKey k = .ok ()

/-- Every storage trie of `storage` hides the keys the same account's trie in `storage₀` hides. -/
def StorageHidesAs (storage₀ storage : AList fun _ : H256 => PartialTrie) : Prop :=
  ∀ hAddr storageTrie, storage.lookup hAddr = some storageTrie → ∃ storageTrie₀,
    storage₀.lookup hAddr = some storageTrie₀ ∧ ∀ k, storageTrie.isHidden k = storageTrie₀.isHidden k

namespace TrieDeltaApplicationOutput

variable {out : TrieDeltaApplicationOutput} {state : PartialTrie}
  {storage : AList fun _ : H256 => PartialTrie}

theorem reachable_default : TrieDeltaApplicationOutput.default.Reachable state storage :=
  ⟨fun _ hk => absurd hk (List.not_mem_nil _), fun _ _ _ _ hk => absurd hk (List.not_mem_nil _)⟩

theorem Reachable.pushStatePath (h : out.Reachable state storage) {k : Nibbles}
    (hk : state.markKey k = .ok ()) : (out.pushStatePath k).Reachable state storage := by
  refine ⟨fun k' hk' => ?_, h.2⟩
  rcases List.mem_append.mp hk' with hk' | hk'
  · exact h.1 k' hk'
  · rw [List.mem_singleton.mp hk']
    exact hk

theorem Reachable.pushStoragePath (h : out.Reachable state storage) {hAddr : H256}
    {storageTrie : PartialTrie} (hl : storage.lookup hAddr = some storageTrie) {k : Nibbles}
    (hk : storageTrie.markKey k = .ok ()) :
    (out.pushStoragePath hAddr k).Reachable state storage := by
  refine ⟨h.1, fun hAddr' t hl' k' hk' => ?_⟩
  by_cases he : hAddr' = hAddr
  · subst he
    obtain rfl := Option.some.inj (hl'.symm.trans hl)
    simp only [TrieDeltaApplicationOutput.pushStoragePath, AList.lookup_insert, Option.getD_some,
      List.mem_append, List.mem_singleton] at hk'
    rcases hk' with hk' | rfl
    · exact h.2 _ _ hl k' hk'
    · exact hk
  · simp only [TrieDeltaApplicationOutput.pushStoragePath, AList.lookup_insert_ne he] at hk'
    exact h.2 _ _ hl' k' hk'

end TrieDeltaApplicationOutput

section Steps

variable {state₀ : PartialTrie} {storage₀ : AList fun _ : H256 => PartialTrie}

theorem foldlM_applyStorageWrite_reachable {hAddr : H256} {t₀ : PartialTrie}
    (hl : storage₀.lookup hAddr = some t₀) {writes : List (Nibbles × Bytes)}
    {acc acc' : PartialTrie × TrieDeltaApplicationOutput}
    (h : writes.foldlM (applyStorageWrite keccak hAddr) acc = .ok acc')
    (hh : ∀ k, acc.1.isHidden k = t₀.isHidden k) (hr : acc.2.Reachable state₀ storage₀) :
    (∀ k, acc'.1.isHidden k = t₀.isHidden k) ∧ acc'.2.Reachable state₀ storage₀ := by
  refine foldlM_invariant (fun b _ => (∀ k, b.1.isHidden k = t₀.isHidden k) ∧
    b.2.Reachable state₀ storage₀) h ⟨hh, hr⟩ ?_
  rintro b w - b' ⟨hh, hr⟩ hw
  rcases applyStorageWrite_eq_ok keccak hw with ⟨-, hins, e⟩ | ⟨-, r, hd, e⟩
  · exact ⟨fun k => (PartialTrie.isHidden_insert hins k).trans (hh k), e ▸ hr⟩
  · refine ⟨fun k => (PartialTrie.isHidden_deleteNode hd k).trans (hh k), e ▸ ?_⟩
    cases r with
    | none => exact hr
    | some r =>
      exact hr.pushStoragePath hl
        (PartialTrie.markKey_eq_ok_of_isHidden hh (PartialTrie.markKey_of_deleteNode_report hd))

theorem foldlM_applyAccountStorageWrites_reachable {writes : List (H256 × List (Nibbles × Bytes))}
    {acc acc' : AList (fun _ : H256 => PartialTrie) × TrieDeltaApplicationOutput}
    (h : writes.foldlM (applyAccountStorageWrites keccak) acc = .ok acc')
    (hh : StorageHidesAs storage₀ acc.1) (hr : acc.2.Reachable state₀ storage₀) :
    StorageHidesAs storage₀ acc'.1 ∧ acc'.2.Reachable state₀ storage₀ := by
  refine foldlM_invariant (fun b _ => StorageHidesAs storage₀ b.1 ∧ b.2.Reachable state₀ storage₀)
    h ⟨hh, hr⟩ ?_
  rintro b w - b' ⟨hh, hr⟩ hw
  obtain ⟨t, t', hl, hf, e⟩ := applyAccountStorageWrites_eq_ok keccak hw
  obtain ⟨t₀, hl₀, ht⟩ := hh _ _ hl
  obtain ⟨ht', hr'⟩ := foldlM_applyStorageWrite_reachable keccak hl₀ hf ht hr
  refine ⟨fun hAddr t'' hl'' => ?_, hr'⟩
  rw [e] at hl''
  by_cases he : hAddr = w.1
  · subst he
    rw [AList.lookup_insert, Option.some.injEq] at hl''
    exact ⟨t₀, hl₀, hl'' ▸ ht'⟩
  · rw [AList.lookup_insert_ne he] at hl''
    exact hh _ _ hl''

theorem foldlM_applySelfDestruct_reachable {xs : List H256}
    {acc acc' : AList (fun _ : H256 => PartialTrie) × PartialTrie × TrieDeltaApplicationOutput}
    (h : xs.foldlM applySelfDestruct acc = .ok acc')
    (hh : ∀ k, acc.2.1.isHidden k = state₀.isHidden k) (hr : acc.2.2.Reachable state₀ storage₀) :
    acc'.2.2.Reachable state₀ storage₀ := by
  refine (foldlM_invariant (fun b _ => (∀ k, b.2.1.isHidden k = state₀.isHidden k) ∧
    b.2.2.Reachable state₀ storage₀) h ⟨hh, hr⟩ ?_).2
  rintro b x - b' ⟨hh, hr⟩ hx
  obtain ⟨-, -, r, hd, e⟩ := applySelfDestruct_eq_ok hx
  refine ⟨fun k => (PartialTrie.isHidden_deleteNode hd k).trans (hh k), e ▸ ?_⟩
  cases r with
  | none => exact hr
  | some r =>
    exact hr.pushStatePath
      (PartialTrie.markKey_eq_ok_of_isHidden hh (PartialTrie.markKey_of_deleteNode_report hd))

end Steps

/-- Every key `apply_deltas_to_trie_state` reports is reachable in the tries it started from. -/
theorem applyDeltasToTrieState_reachable {trieState trieState' : PartialTrieState}
    {deltas : NodesUsedByTxn} {out : TrieDeltaApplicationOutput}
    (h : applyDeltasToTrieState keccak trieState deltas = .ok (trieState', out)) :
    out.Reachable trieState.state trieState.storage := by
  obtain ⟨_, _, _, _, _, h₁, h₂, h₃, -⟩ := applyDeltasToTrieState_eq_ok keccak h
  obtain ⟨-, hr⟩ := foldlM_applyAccountStorageWrites_reachable keccak h₁
    (fun _ t hl => ⟨t, hl, fun _ => rfl⟩) TrieDeltaApplicationOutput.reachable_default
  exact foldlM_applySelfDestruct_reachable h₃
    (fun k => (foldlM_applyStateWrite_get_isHidden keccak h₂ k).2) hr

/-! ## The cut of a unit -/

theorem exists_createTrieSubsetWrapped_append_iff {trie : PartialTrie}
    {accesses extra : List Nibbles} {trieType : TrieType}
    (hx : ∀ k ∈ extra, trie.markKey k = .ok ()) :
    (∃ t, createTrieSubsetWrapped keccak trie (accesses ++ extra) trieType = .ok t) ↔
      ∃ t, createTrieSubsetWrapped keccak trie accesses trieType = .ok t := by
  simp only [exists_createTrieSubsetWrapped_eq_ok_iff, List.forall_mem_append]
  exact and_iff_left hx

theorem exists_createMinimalStatePartialTrie_iff {state : PartialTrie} {accesses : List H256}
    {paths : List Nibbles} (hx : ∀ k ∈ paths, state.markKey k = .ok ()) :
    (∃ t, createMinimalStatePartialTrie keccak state accesses paths = .ok t) ↔
      ∃ t, createMinimalStatePartialTrie keccak state accesses [] = .ok t := by
  rw [createMinimalStatePartialTrie, createMinimalStatePartialTrie,
    exists_createTrieSubsetWrapped_append_iff keccak hx, List.append_nil]

theorem exists_createMinimalStoragePartialTries_iff {storage : AList fun _ : H256 => PartialTrie}
    {accesses : List (H256 × List Nibbles)} {paths : AList fun _ : H256 => List Nibbles}
    (hx : ∀ hAddr t, storage.lookup hAddr = some t →
      ∀ k ∈ (paths.lookup hAddr).getD [], t.markKey k = .ok ()) :
    (∃ ts, createMinimalStoragePartialTries keccak storage accesses paths = .ok ts) ↔
      ∃ ts, createMinimalStoragePartialTries keccak storage accesses ∅ = .ok ts := by
  simp only [createMinimalStoragePartialTries, exists_mapM_eq_ok_iff]
  refine forall₂_congr fun a _ => ?_
  simp only [bind_eq_ok, orPanic_eq_ok, AList.lookup_empty, Option.getD_none, List.append_nil]
  constructor
  · rintro ⟨_, t, hl, s, hs, -⟩
    obtain ⟨s', hs'⟩ := (exists_createTrieSubsetWrapped_append_iff keccak (hx _ t hl)).mp ⟨s, hs⟩
    exact ⟨_, t, hl, s', hs', rfl⟩
  · rintro ⟨_, t, hl, s, hs, -⟩
    obtain ⟨s', hs'⟩ := (exists_createTrieSubsetWrapped_append_iff keccak (hx _ t hl)).mpr ⟨s, hs⟩
    exact ⟨_, t, hl, s', hs', rfl⟩

/-- Reachable reported keys do not change whether the cut of a unit succeeds. -/
theorem exists_createMinimalPartialTriesNeededByTxn_iff_default {tries : PartialTrieState}
    {nodesUsedByTxn : NodesUsedByTxn} {txnIdx : Nat} {out : TrieDeltaApplicationOutput}
    (h : out.Reachable tries.state tries.storage) :
    (∃ sub, createMinimalPartialTriesNeededByTxn keccak tries nodesUsedByTxn txnIdx out = .ok sub) ↔
      ∃ sub, createMinimalPartialTriesNeededByTxn keccak tries nodesUsedByTxn txnIdx
        TrieDeltaApplicationOutput.default = .ok sub := by
  rw [exists_createMinimalPartialTriesNeededByTxn_eq_ok_iff,
    exists_createMinimalPartialTriesNeededByTxn_eq_ok_iff,
    exists_createMinimalStatePartialTrie_iff keccak h.1,
    exists_createMinimalStoragePartialTries_iff keccak h.2]
  rfl

/-- In `process_txn_info`, the keys collapsed branches report never make the cut of the unit
fail: once the transaction's entries are inserted and its delta applied, every key reported is
reachable in the tries at the start of the transaction, and their cut succeeds exactly when the
cut for the transaction's own accesses does. -/
theorem processTxnInfo_collapsed_keys_cut {txnIdx : Nat} {txnInfo : ProcessedSectionTxnInfo}
    {tries tries₁ tries' : PartialTrieState} {out : TrieDeltaApplicationOutput}
    (hu : updateTxnAndReceiptTries (seedStorageTries tries txnInfo) txnInfo.meta txnIdx = .ok tries₁)
    (hd : applyDeltasToTrieState keccak tries₁ txnInfo.nodesUsedByTxn = .ok (tries', out)) :
    out.Reachable (seedStorageTries tries txnInfo).state (seedStorageTries tries txnInfo).storage ∧
      ((∃ sub, createMinimalPartialTriesNeededByTxn keccak (seedStorageTries tries txnInfo)
          txnInfo.nodesUsedByTxn txnIdx out = .ok sub) ↔
        ∃ sub, createMinimalPartialTriesNeededByTxn keccak (seedStorageTries tries txnInfo)
          txnInfo.nodesUsedByTxn txnIdx TrieDeltaApplicationOutput.default = .ok sub) := by
  obtain ⟨_, _, _, _, _, _, rfl⟩ := updateTxnAndReceiptTries_eq_ok hu
  have h := applyDeltasToTrieState_reachable keccak hd
  exact ⟨h, exists_createMinimalPartialTriesNeededByTxn_iff_default keccak h⟩

/-- Hashed account `3` with a storage trie holding the slot that every slot hashes to under
`zeroHash`, and key `[1]` beside it. -/
def collapseTries : PartialTrieState :=
  ⟨.empty, (∅ : AList fun _ : H256 => PartialTrie).insert 3
    ((PartialTrie.singleton (slotKey zeroHash []) [5]).insertIgnoringResult [1] [6]), .empty, .empty⟩

/-- A transaction that zeroes that slot, which collapses the root of the storage trie onto
key `[1]`. -/
def collapseTxn : ProcessedSectionTxnInfo :=
  ⟨⟨[], [], [(3, [[0, 1]])], [(3, [([], zeroStorageSlotValRlped)])], ∅, []⟩, [],
    ⟨some [1, 2], [3], 21000⟩⟩

set_option maxRecDepth 2000 in
example : ((applyDeltasToTrieState zeroHash collapseTries collapseTxn.nodesUsedByTxn).map
    fun r => r.2.additionalStorageTriePathsToNotHash.lookup 3).toOption = some (some [[1]]) := by
  decide

set_option maxRecDepth 2000 in
theorem collapsed_keys_cut_sample :
    ∃ tries₁ tries' out, updateTxnAndReceiptTries (seedStorageTries collapseTries collapseTxn)
        collapseTxn.meta 0 = .ok tries₁ ∧
      applyDeltasToTrieState zeroHash tries₁ collapseTxn.nodesUsedByTxn = .ok (tries', out) ∧
      out.Reachable (seedStorageTries collapseTries collapseTxn).state
        (seedStorageTries collapseTries collapseTxn).storage ∧
      ((∃ sub, createMinimalPartialTriesNeededByTxn zeroHash (seedStorageTries collapseTries collapseTxn)
          collapseTxn.nodesUsedByTxn 0 out = .ok sub) ↔
        ∃ sub, createMinimalPartialTriesNeededByTxn zeroHash
          (seedStorageTries collapseTries collapseTxn) collapseTxn.nodesUsedByTxn 0
          TrieDeltaApplicationOutput.default = .ok sub) :=
  match h : processTxnInfo zeroHash 0 collapseTxn collapseTries (initialExtraData sampleOtherData)
      sampleOtherData,
    (by decide : (processTxnInfo zeroHash 0 collapseTxn collapseTries
      (initialExtraData sampleOtherData) sampleOtherData).toBool) with
  | .ok (_, _, _), _ =>
    let ⟨_, _, _, _, _, _, _, _, hu, hd, _⟩ := processTxnInfo_eq_ok zeroHash h
    ⟨_, _, _, hu, hd, processTxnInfo_collapsed_keys_cut zeroHash hu hd⟩
  | .error _, hb => absurd hb (by simp [Except.toBool])

end ZkEvmTrace
