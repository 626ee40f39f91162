import ZkEvmTrace.Proofs.DeltaEffects

/-!
# Storage roots across a block

The state trie records, for each account with a storage trie in the map, that trie's root.
Storage writes run before state writes, a state write that flags a storage change records the
root of the account's (already written) storage trie, and a self-destruct removes both the
storage trie and the state entry: so the agreement is kept transaction after transaction.
It needs one more clause than the state trie's accounts give: an account the state trie shows
absent, and not behind a hash node, must have a storage trie with the empty trie's root, since
a state write to it starts from the empty account.
-/

namespace ZkEvmTrace

variable (keccak : Bytes → H256)

def PartialTrie.account (state : PartialTrie) (hAddr : H256) : Option AccountRlp :=
  (state.get (Nibbles.fromH256Be hAddr)).bind fun bytes => (AccountRlp.decode bytes).toOption

/-- Every account readable in the state trie with a storage trie in the map records that
trie's root. -/
def StorageRootsMatch (tries : PartialTrieState) : Prop :=
  ∀ hAddr account storageTrie, tries.state.account hAddr = some account →
    tries.storage.lookup hAddr = some storageTrie → account.storageRoot = storageTrie.hash keccak

/-- The state trie agrees with the storage trie of `hAddr`: the account there records its root,
and where the trie shows no account (not behind a hash node) the root is the empty trie's. -/
def RootAgrees (state : PartialTrie) (hAddr : H256) (storageTrie : PartialTrie) : Prop :=
  (∀ account, state.account hAddr = some account →
    account.storageRoot = storageTrie.hash keccak) ∧
  (state.get (Nibbles.fromH256Be hAddr) = none →
    state.isHidden (Nibbles.fromH256Be hAddr) = false →
    storageTrie.hash keccak = PartialTrie.emptyTrieHash keccak)

/-- Every storage trie of the map agrees with the state trie. -/
def StorageRootsAgree (tries : PartialTrieState) : Prop :=
  ∀ hAddr storageTrie, tries.storage.lookup hAddr = some storageTrie →
    RootAgrees keccak tries.state hAddr storageTrie

/-- Every account a delta writes storage to has a state write that flags the change. -/
def StorageWritesFlagged (nodes : NodesUsedByTxn) : Prop :=
  ∀ hAddr writes, (hAddr, writes) ∈ nodes.storageWrites →
    ∃ w, (hAddr, w) ∈ nodes.stateWrites ∧ w.storageTrieChange = true

/-- Each storage trie the seeding creates has the root of the account it is created for. -/
def SeedsMatch (tries : PartialTrieState) (txnInfo : ProcessedSectionTxnInfo) : Prop :=
  ∀ hAddr ∈ txnInfo.nodesUsedByTxn.storageAccesses.map Prod.fst,
    tries.storage.lookup hAddr = none → ∀ account, tries.state.account hAddr = some account →
      account.storageRoot = (seededStorageTrie
        txnInfo.nodesUsedByTxn.stateAccountsWithNoAccessesButStorageTries hAddr).hash keccak

/-- Each storage trie the seeding creates agrees with the state trie. -/
def SeedsAgree (tries : PartialTrieState) (txnInfo : ProcessedSectionTxnInfo) : Prop :=
  ∀ hAddr ∈ txnInfo.nodesUsedByTxn.storageAccesses.map Prod.fst,
    tries.storage.lookup hAddr = none → RootAgrees keccak tries.state hAddr
      (seededStorageTrie txnInfo.nodesUsedByTxn.stateAccountsWithNoAccessesButStorageTries hAddr)

section Agree

variable {keccak} {state state' : PartialTrie} {hAddr : H256} {storageTrie : PartialTrie}

theorem RootAgrees.congr (h : RootAgrees keccak state hAddr storageTrie)
    (hget : state'.get (Nibbles.fromH256Be hAddr) = state.get (Nibbles.fromH256Be hAddr))
    (hhidden : state'.isHidden (Nibbles.fromH256Be hAddr) =
      state.isHidden (Nibbles.fromH256Be hAddr)) :
    RootAgrees keccak state' hAddr storageTrie := by
  refine ⟨fun a ha => h.1 a ?_, fun hg hh => h.2 (hget ▸ hg) (hhidden ▸ hh)⟩
  rwa [PartialTrie.account, hget] at ha

theorem rootAgrees_of_isHidden (h : state.isHidden (Nibbles.fromH256Be hAddr) = true) :
    RootAgrees keccak state hAddr storageTrie := by
  refine ⟨fun a ha => ?_, fun _ hh => absurd h (by simp [hh])⟩
  simp [PartialTrie.account, PartialTrie.get_of_isHidden h] at ha

theorem rootAgrees_of_get_eq_encode {account : AccountRlp}
    (h : state.get (Nibbles.fromH256Be hAddr) = some account.encode)
    (hroot : account.storageRoot = storageTrie.hash keccak) :
    RootAgrees keccak state hAddr storageTrie := by
  refine ⟨fun a ha => ?_, fun hg => by simp [h] at hg⟩
  simp only [PartialTrie.account, h, Option.some_bind, AccountRlp.decode_encode,
    Except.toOption, Option.some.injEq] at ha
  exact ha ▸ hroot

theorem RootAgrees.storageRoot_of_decode (h : RootAgrees keccak state hAddr storageTrie)
    (hh : state.isHidden (Nibbles.fromH256Be hAddr) = false) {account : AccountRlp}
    (hd : AccountRlp.decode ((state.get (Nibbles.fromH256Be hAddr)).getD
      (emptyAccountBytesRlped keccak)) = .ok account) :
    account.storageRoot = storageTrie.hash keccak := by
  cases hg : state.get (Nibbles.fromH256Be hAddr) with
  | some bytes =>
    rw [hg, Option.getD_some] at hd
    exact h.1 account (by simp [PartialTrie.account, hg, hd, Except.toOption])
  | none =>
    rw [hg, Option.getD_none, emptyAccountBytesRlped, AccountRlp.decode_encode,
      Except.ok.injEq] at hd
    rw [← hd, h.2 hg hh]
    rfl

end Agree

section Phases

variable {keccak}

theorem storageRootsAgree_seedStorageTries {tries : PartialTrieState}
    {txnInfo : ProcessedSectionTxnInfo} (h : StorageRootsAgree keccak tries)
    (hseed : SeedsAgree keccak tries txnInfo) :
    StorageRootsAgree keccak (seedStorageTries tries txnInfo) := by
  intro hAddr st hl
  simp only [seedStorageTries, lookup_initAnyNeededEmptyStorageTries] at hl
  cases h₀ : tries.storage.lookup hAddr with
  | some t =>
    rw [h₀, Option.or_some, Option.some.injEq] at hl
    exact hl ▸ h hAddr t h₀
  | none =>
    rw [h₀, Option.none_or] at hl
    split at hl <;> rename_i hmem
    · cases hl
      exact hseed hAddr hmem h₀
    · cases hl

theorem agree_or_flagged_of_storageWrites {storage storage₁ : AList fun _ : H256 => PartialTrie}
    {state : PartialTrie} {nodes : NodesUsedByTxn} {out₁ : TrieDeltaApplicationOutput}
    (h : nodes.storageWrites.foldlM (applyAccountStorageWrites keccak) (storage, .default) =
      .ok (storage₁, out₁))
    (hagree : ∀ hAddr st, storage.lookup hAddr = some st → RootAgrees keccak state hAddr st)
    (hflag : StorageWritesFlagged nodes) :
    ∀ hAddr st, storage₁.lookup hAddr = some st → RootAgrees keccak state hAddr st ∨
      ∃ w, (hAddr, w) ∈ nodes.stateWrites ∧ w.storageTrieChange = true := by
  intro hAddr st hl
  by_cases hw : ∃ writes, (hAddr, writes) ∈ nodes.storageWrites
  · obtain ⟨writes, hw⟩ := hw
    exact .inr (hflag hAddr writes hw)
  · refine .inl (hagree hAddr st ?_)
    rwa [← lookup_foldlM_applyAccountStorageWrites keccak h hAddr
      fun w hw' e => hw ⟨w.2, e ▸ hw'⟩]

theorem agree_applyStateWrite {storage : AList fun _ : H256 => PartialTrie}
    {state state' : PartialTrie} {write : H256 × StateTrieWrites}
    {rest : List (H256 × StateTrieWrites)}
    (h : applyStateWrite keccak storage state write = .ok state') {hAddr : H256}
    {st : PartialTrie} (hl : storage.lookup hAddr = some st)
    (hI : RootAgrees keccak state hAddr st ∨
      ∃ w, (hAddr, w) ∈ write :: rest ∧ w.storageTrieChange = true) :
    RootAgrees keccak state' hAddr st ∨ ∃ w, (hAddr, w) ∈ rest ∧ w.storageTrieChange = true := by
  obtain ⟨hA, w⟩ := write
  obtain ⟨a, a', h₁, h₂, rfl⟩ := applyStateWrite_eq_ok keccak h
  by_cases hne : hAddr = hA
  · subst hne
    by_cases hh : state.isHidden (Nibbles.fromH256Be hAddr) = true
    · exact .inl (rootAgrees_of_isHidden (by rwa [isHidden_insertIgnoringResult]))
    have hget : (state.insertIgnoringResult (Nibbles.fromH256Be hAddr) a'.encode).get
        (Nibbles.fromH256Be hAddr) = some a'.encode := by
      rw [get_insertIgnoringResult, if_neg hh, if_pos rfl]
    obtain ⟨root, hroot, hkeep, rfl⟩ := StateTrieWrites.applyWritesToStateNode_eq_ok keccak h₂
    cases hc : w.storageTrieChange
    · rcases hI with hagree | ⟨w', hw', hf⟩
      · exact .inl (rootAgrees_of_get_eq_encode hget
          ((hkeep hc).trans (hagree.storageRoot_of_decode (Bool.eq_false_iff.mpr hh) h₁)))
      · rcases List.mem_cons.mp hw' with e | hw'
        · cases e
          exact absurd (hc ▸ hf) Bool.false_ne_true
        · exact .inr ⟨w', hw', hf⟩
    · obtain ⟨st', hl', hr⟩ := hroot hc
      rw [hl, Option.some.injEq] at hl'
      exact .inl (rootAgrees_of_get_eq_encode hget (hr.trans (hl' ▸ rfl)))
  · have hk : Nibbles.fromH256Be hAddr ≠ Nibbles.fromH256Be hA :=
      fun e => hne (Nibbles.fromH256Be_injective e)
    rcases hI with hagree | ⟨w', hw', hf⟩
    · refine .inl (hagree.congr ?_ (isHidden_insertIgnoringResult _ _ _ _))
      rw [get_insertIgnoringResult, if_neg hk]
      split <;> rfl
    · rcases List.mem_cons.mp hw' with e | hw'
      · exact absurd (congrArg Prod.fst e) hne
      · exact .inr ⟨w', hw', hf⟩

theorem agree_of_stateWrites {storage : AList fun _ : H256 => PartialTrie}
    {state state' : PartialTrie} {writes : List (H256 × StateTrieWrites)}
    (h : writes.foldlM (applyStateWrite keccak storage) state = .ok state')
    (h₀ : ∀ hAddr st, storage.lookup hAddr = some st → RootAgrees keccak state hAddr st ∨
      ∃ w, (hAddr, w) ∈ writes ∧ w.storageTrieChange = true) :
    ∀ hAddr st, storage.lookup hAddr = some st → RootAgrees keccak state' hAddr st := by
  have := foldlM_invariant (fun state rest => ∀ hAddr st, storage.lookup hAddr = some st →
    RootAgrees keccak state hAddr st ∨ ∃ w, (hAddr, w) ∈ rest ∧ w.storageTrieChange = true)
    h h₀ fun _ _ _ _ hI hw hAddr st hl => agree_applyStateWrite hw hl (hI hAddr st hl)
  intro hAddr st hl
  simpa using this hAddr st hl

theorem agree_of_selfDestructs {storage storage' : AList fun _ : H256 => PartialTrie}
    {state state' : PartialTrie} {out out' : TrieDeltaApplicationOutput} {accs : List H256}
    (h : accs.foldlM applySelfDestruct (storage, state, out) = .ok (storage', state', out'))
    (h₀ : ∀ hAddr st, storage.lookup hAddr = some st → RootAgrees keccak state hAddr st) :
    ∀ hAddr st, storage'.lookup hAddr = some st → RootAgrees keccak state' hAddr st := by
  refine foldlM_invariant (fun acc _ => ∀ hAddr st, acc.1.lookup hAddr = some st →
    RootAgrees keccak acc.2.1 hAddr st) h h₀ ?_
  rintro ⟨s, t, o⟩ hD _ ⟨s', t', o'⟩ hI hstep hAddr st hl
  obtain ⟨-, rfl, r, hd, -⟩ := applySelfDestruct_eq_ok hstep
  by_cases hne : hAddr = hD
  · subst hne
    simp [AList.lookup_erase] at hl
  · rw [AList.lookup_erase_ne hne] at hl
    refine (hI hAddr st hl).congr ?_ (PartialTrie.isHidden_deleteNode hd _)
    rw [PartialTrie.get_deleteNode hd, if_neg fun e => hne (Nibbles.fromH256Be_injective e)]

/-- One transaction keeps every storage trie in agreement with the state trie. -/
theorem storageRootsAgree_processTxnInfo {txnIdx : Nat} {txnInfo : ProcessedSectionTxnInfo}
    {tries tries' : PartialTrieState} {extraData extraData' : ExtraBlockData}
    {otherData : OtherBlockData} {genInputs : GenerationInputs}
    (h : processTxnInfo keccak txnIdx txnInfo tries extraData otherData =
      .ok (genInputs, tries', extraData'))
    (hagree : StorageRootsAgree keccak tries)
    (hflag : StorageWritesFlagged txnInfo.nodesUsedByTxn)
    (hseed : SeedsAgree keccak tries txnInfo) :
    StorageRootsAgree keccak tries' := by
  obtain ⟨_, _, _, _, _, _, -, -, h₃, h₄, -⟩ := processTxnInfo_eq_ok keccak h
  obtain ⟨_, _, _, -, -, -, rfl⟩ := updateTxnAndReceiptTries_eq_ok h₃
  obtain ⟨_, _, _, _, _, h₅, h₆, h₇, rfl⟩ := applyDeltasToTrieState_eq_ok keccak h₄
  exact agree_of_selfDestructs h₇ (agree_of_stateWrites h₆
    (agree_or_flagged_of_storageWrites h₅ (storageRootsAgree_seedStorageTries hagree hseed) hflag))

end Phases

/-! ## A block -/

/-- After every transaction of a block that has been processed, every storage trie agrees
with the state trie, given that the pre-block tries agree, that every delta flags the storage
change of each account it writes storage to, and that the seeding of each transaction creates
agreeing tries. -/
theorem processTxnsLoop_storage_roots_agree {otherData : OtherBlockData} {txnIdx : Nat}
    {txns : List ProcessedSectionTxnInfo} {tries : PartialTrieState} {extraData : ExtraBlockData}
    (h₀ : StorageRootsAgree keccak tries)
    (hflag : ∀ txnInfo ∈ txns, StorageWritesFlagged txnInfo.nodesUsedByTxn)
    (hseed : ∀ i (hi : i < txns.length) ir triesᵢ extraDataᵢ,
      processTxnsLoop keccak otherData txnIdx (txns.take i) tries extraData =
        .ok (ir, triesᵢ, extraDataᵢ) → SeedsAgree keccak triesᵢ txns[i]) :
    ∀ i ir triesᵢ extraDataᵢ,
      processTxnsLoop keccak otherData txnIdx (txns.take i) tries extraData =
        .ok (ir, triesᵢ, extraDataᵢ) → StorageRootsAgree keccak triesᵢ := by
  intro i
  induction i with
  | zero =>
    intro ir triesᵢ extraDataᵢ h
    simp only [List.take_zero, processTxnsLoop_nil, Except.ok.injEq, Prod.mk.injEq] at h
    exact h.2.1 ▸ h₀
  | succ i ih =>
    intro ir triesᵢ extraDataᵢ h
    by_cases hi : i < txns.length
    · rw [List.take_succ, List.getElem?_eq_getElem hi, Option.toList_some] at h
      obtain ⟨_, t₁, _, _, h₁, h₂, -⟩ := processTxnsLoop_append_eq_ok keccak h
      obtain ⟨_, t₂, _, _, h₃, h₄, -⟩ := processTxnsLoop_cons_eq_ok keccak h₂
      simp only [processTxnsLoop_nil, Except.ok.injEq, Prod.mk.injEq] at h₄
      rw [← h₄.2.1]
      exact storageRootsAgree_processTxnInfo h₃ (ih _ _ _ h₁) (hflag _ (List.getElem_mem hi))
        (hseed i hi _ _ _ h₁)
    · rw [List.take_of_length_le (by omega)] at h
      exact ih _ _ _ (by rwa [List.take_of_length_le (by omega)])

def balanceOnlyTxn : ProcessedSectionTxnInfo :=
  ⟨⟨[], [(3, ⟨some 5, none, false, none⟩)], [], [], ∅, []⟩, [], ⟨some [1, 2], [3], 21000⟩⟩

def emptyStorageTries : PartialTrieState :=
  ⟨.empty, (∅ : AList fun _ : H256 => PartialTrie).insert 3 .empty, .empty, .empty⟩

theorem storage_roots_agree_sample :
    ∃ r, processTxnsLoop numHash sampleOtherData 0 ([balanceOnlyTxn].take 1) emptyStorageTries
        (initialExtraData sampleOtherData) = .ok r ∧ StorageRootsAgree numHash r.2.1 :=
  have h₀ : StorageRootsAgree numHash emptyStorageTries := fun hAddr st hl => by
    by_cases h3 : hAddr = 3
    · subst h3
      simp only [emptyStorageTries, AList.lookup_insert, Option.some.injEq] at hl
      subst hl
      exact ⟨fun a ha => by simp [emptyStorageTries, PartialTrie.account] at ha, fun _ _ => rfl⟩
    · rw [emptyStorageTries] at hl
      dsimp only at hl
      rw [AList.lookup_insert_ne h3, AList.lookup_empty] at hl
      cases hl
  have hflag : ∀ txnInfo ∈ [balanceOnlyTxn], StorageWritesFlagged txnInfo.nodesUsedByTxn := by
    simp [StorageWritesFlagged, balanceOnlyTxn]
  have hseed : ∀ i (hi : i < [balanceOnlyTxn].length) ir triesᵢ extraDataᵢ,
      processTxnsLoop numHash sampleOtherData 0 ([balanceOnlyTxn].take i) emptyStorageTries
        (initialExtraData sampleOtherData) = .ok (ir, triesᵢ, extraDataᵢ) →
      SeedsAgree numHash triesᵢ [balanceOnlyTxn][i] := fun i hi _ _ _ _ => by
    obtain rfl : i = 0 := by simpa using hi
    simp [SeedsAgree, balanceOnlyTxn]
  match h : processTxnsLoop numHash sampleOtherData 0 ([balanceOnlyTxn].take 1) emptyStorageTries
      (initialExtraData sampleOtherData),
    (by decide : (processTxnsLoop numHash sampleOtherData 0 ([balanceOnlyTxn].take 1)
      emptyStorageTries (initialExtraData sampleOtherData)).toBool) with
  | .ok (ir, t, e), _ =>
    ⟨_, rfl, processTxnsLoop_storage_roots_agree numHash h₀ hflag hseed 1 ir t e h⟩
  | .error _, hb => absurd hb (by simp [Except.toBool])

/-- Tries whose storage map holds a trie for hashed account `3`, with root `1`, while the state
trie holds no account `3`. -/
def strayStorageTries : PartialTrieState :=
  ⟨.empty, (∅ : AList fun _ : H256 => PartialTrie).insert 3 (.hashNode 1), .empty, .empty⟩

/-- Over `strayStorageTries`, every storage trie matches the state trie, the transaction flags
its storage writes and the seeding creates no trie; yet after the transaction sets account `3`'s
balance, the account records the empty trie's root (`0` under the constant hash) while its
storage trie has root `1`. -/
theorem storage_roots_absent_account :
    StorageRootsMatch zeroHash strayStorageTries ∧
    (∀ txnInfo ∈ [balanceOnlyTxn], StorageWritesFlagged txnInfo.nodesUsedByTxn) ∧
    SeedsMatch zeroHash strayStorageTries balanceOnlyTxn ∧
    ∃ r, processTxnsLoop zeroHash sampleOtherData 0 [balanceOnlyTxn] strayStorageTries
        (initialExtraData sampleOtherData) = .ok r ∧ ¬ StorageRootsMatch zeroHash r.2.1 := by
  refine ⟨fun _ _ _ ha => by simp [strayStorageTries, PartialTrie.account] at ha,
    by simp [StorageWritesFlagged, balanceOnlyTxn], by simp [SeedsMatch, balanceOnlyTxn], ?_⟩
  have hr : (processTxnsLoop zeroHash sampleOtherData 0 [balanceOnlyTxn] strayStorageTries
      (initialExtraData sampleOtherData)).toOption.map (fun r =>
        ((r.2.1.state.account 3).map (·.storageRoot), (r.2.1.storage.lookup 3).map
          (·.hash zeroHash))) = some (some 0, some 1) := by
    set_option maxRecDepth 4000 in decide
  revert hr
  cases processTxnsLoop zeroHash sampleOtherData 0 [balanceOnlyTxn] strayStorageTries
      (initialExtraData sampleOtherData) with
  | error => simp [Except.toOption]
  | ok r =>
    intro hr
    simp only [Except.toOption, Option.map_some', Option.some.injEq, Prod.mk.injEq,
      Option.map_eq_some'] at hr
    obtain ⟨⟨a, ha, hroot⟩, ⟨st, hst, hh⟩⟩ := hr
    exact ⟨r, rfl, fun hm => absurd ((hroot.symm.trans (hm 3 a st ha hst)).trans hh) (by decide)⟩

end ZkEvmTrace
