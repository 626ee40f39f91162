import ZkEvmTrace.Proofs.DeltaEffects

/-!
# What a block does to the live tries

The transaction loop of `process_txns` runs `process_txn_info` on each transaction in turn, on
the live tries the previous one left. Over a whole block, no key of the state trie is hidden or
revealed, and a key that no transaction writes or self-destructs reads as before. An account whose
key is not behind a hash node and that no transaction self-destructs ends with the balance, nonce
and code hash that every state write of the block to it sets, in order: each transaction decodes
the account the one before it encoded. A storage trie that no transaction touches stays as it
is, and the storage tries read as `txnStorageView` says each transaction leaves the storage:
seeding gives an account a storage that reads nothing, writes set and clear slots in order, and
a self-destruct removes the storage, so no transaction loses another's write. Each fact is
proved for one transaction, then for the loop by induction.
-/

namespace ZkEvmTrace

variable (keccak : Bytes → H256)

/-- The state writes a delta makes to one account, in order. -/
def stateWritesOf (deltas : NodesUsedByTxn) (hAddr : H256) : List StateTrieWrites :=
  (deltas.stateWrites.filter fun w => w.1 = hAddr).map Prod.snd

/-- The state writes a block makes to one account, in transaction order. -/
def blockStateWritesOf (txns : List ProcessedSectionTxnInfo) (hAddr : H256) :
    List StateTrieWrites :=
  txns.flatMap fun txnInfo => stateWritesOf txnInfo.nodesUsedByTxn hAddr

theorem blockStateWritesOf_cons (txnInfo : ProcessedSectionTxnInfo)
    (txns : List ProcessedSectionTxnInfo) (hAddr : H256) :
    blockStateWritesOf (txnInfo :: txns) hAddr =
      stateWritesOf txnInfo.nodesUsedByTxn hAddr ++ blockStateWritesOf txns hAddr := rfl

def AccountRlp.valueFields (a : AccountRlp) : U256 × U256 × H256 := (a.balance, a.nonce, a.codeHash)

/-- What state writes leave in those fields: each write's value where it has one, as
`update_val_if_some` does. -/
def fieldsAfter (writes : List StateTrieWrites) (fields : U256 × U256 × H256) :
    U256 × U256 × H256 :=
  writes.foldl (fun f w => (updateValIfSome f.1 w.balance, updateValIfSome f.2.1 w.nonce,
    updateValIfSome f.2.2 w.codeHash)) fields

theorem fieldsAfter_append (writes writes' : List StateTrieWrites) (fields : U256 × U256 × H256) :
    fieldsAfter (writes ++ writes') fields = fieldsAfter writes' (fieldsAfter writes fields) :=
  List.foldl_append _ _ _ _

/-- What state writes to one account leave at its key, from `state` to `state'`: nothing
changed where there is no write; otherwise the bytes there before decode (the empty account
standing in for none), and the key ends holding an account whose balance, nonce and code hash
are those updated by every write in order. -/
def AccountWritesLeave (state state' : PartialTrie) (hAddr : H256)
    (writes : List StateTrieWrites) : Prop :=
  (writes = [] ∧ state'.get (Nibbles.fromH256Be hAddr) = state.get (Nibbles.fromH256Be hAddr)) ∨
  ∃ account₀ account : AccountRlp, AccountRlp.decode ((state.get (Nibbles.fromH256Be hAddr)).getD
      (emptyAccountBytesRlped keccak)) = .ok account₀ ∧
    state'.get (Nibbles.fromH256Be hAddr) = some account.encode ∧
    account.valueFields = fieldsAfter writes account₀.valueFields

theorem AccountWritesLeave.trans {state₁ state₂ state₃ : PartialTrie} {hAddr : H256}
    {writes₁ writes₂ : List StateTrieWrites}
    (h₁ : AccountWritesLeave keccak state₁ state₂ hAddr writes₁)
    (h₂ : AccountWritesLeave keccak state₂ state₃ hAddr writes₂) :
    AccountWritesLeave keccak state₁ state₃ hAddr (writes₁ ++ writes₂) := by
  rcases h₁ with ⟨rfl, e₁⟩ | ⟨a₀, a, d₁, g₁, f₁⟩ <;>
    rcases h₂ with ⟨rfl, e₂⟩ | ⟨b₀, b, d₂, g₂, f₂⟩
  · exact .inl ⟨rfl, e₂.trans e₁⟩
  · exact .inr ⟨b₀, b, e₁ ▸ d₂, g₂, f₂⟩
  · exact .inr ⟨a₀, a, d₁, e₂.trans g₁, by rwa [List.append_nil]⟩
  · rw [g₁, Option.getD_some, AccountRlp.decode_encode, Except.ok.injEq] at d₂
    subst d₂
    exact .inr ⟨a₀, b, d₁, g₂, by rw [f₂, f₁, fieldsAfter_append]⟩

/-- What the storage tries read: for each account, the value its storage trie reads at each slot
key, or `none` where the account has no storage trie. -/
def storageView (storage : AList fun _ : H256 => PartialTrie) (hAddr : H256) :
    Option (Nibbles → Option Bytes) :=
  (storage.lookup hAddr).map PartialTrie.get

/-- The storage a transaction leaves, as the storage tries read it: an account whose storage it
accesses and that has none gets a storage that reads nothing, its storage writes set and clear
slots in order, and a self-destruct removes the account's storage. -/
def txnStorageView (deltas : NodesUsedByTxn) (view : H256 → Option (Nibbles → Option Bytes))
    (hAddr : H256) : Option (Nibbles → Option Bytes) :=
  if hAddr ∈ deltas.selfDestructedAccounts then none
  else ((view hAddr).or (if hAddr ∈ deltas.storageAccesses.map Prod.fst then some fun _ => none
      else none)).map fun slots key =>
    slotValueAfter keccak (storageWritesOf deltas hAddr) key (slots key)

/-- The storage a block leaves: its transactions' in order. -/
def blockStorageView (txns : List ProcessedSectionTxnInfo)
    (view : H256 → Option (Nibbles → Option Bytes)) : H256 → Option (Nibbles → Option Bytes) :=
  txns.foldl (fun view txnInfo => txnStorageView keccak txnInfo.nodesUsedByTxn view) view

theorem get_seededStorageTrie (known : AList fun _ : H256 => H256) (hAddr : H256) :
    (seededStorageTrie known hAddr).get = fun _ => none := by
  funext k
  unfold seededStorageTrie
  cases known.lookup hAddr <;> simp

theorem storageView_seedStorageTries (tries : PartialTrieState)
    (txnInfo : ProcessedSectionTxnInfo) (hAddr : H256) :
    storageView (seedStorageTries tries txnInfo).storage hAddr =
      (storageView tries.storage hAddr).or
        (if hAddr ∈ txnInfo.nodesUsedByTxn.storageAccesses.map Prod.fst then some fun _ => none
        else none) := by
  simp only [storageView, seedStorageTries, lookup_initAnyNeededEmptyStorageTries]
  cases tries.storage.lookup hAddr <;> split_ifs <;> simp [get_seededStorageTrie]

section StateWrites

variable {storage : AList fun _ : H256 => PartialTrie} {state state' : PartialTrie}
  {hAddr : H256}

theorem applyStateWrite_writesLeave {write : H256 × StateTrieWrites}
    (h : applyStateWrite keccak storage state write = .ok state')
    (hh : state.isHidden (Nibbles.fromH256Be hAddr) = false) :
    AccountWritesLeave keccak state state' hAddr (if write.1 = hAddr then [write.2] else []) := by
  split <;> rename_i he
  · subst he
    obtain ⟨a, a', d, h₂, rfl⟩ := applyStateWrite_eq_ok keccak h
    obtain ⟨_, -, -, e⟩ := StateTrieWrites.applyWritesToStateNode_eq_ok keccak h₂
    exact .inr ⟨a, a', d,
      by rw [get_insertIgnoringResult, hh, if_neg Bool.false_ne_true, if_pos rfl], by rw [e]; rfl⟩
  · exact .inl ⟨rfl, (applyStateWrite_get_isHidden keccak h _).1
      fun e => he (Nibbles.fromH256Be_injective e).symm⟩

theorem foldlM_applyStateWrite_writesLeave {writes : List (H256 × StateTrieWrites)}
    (h : writes.foldlM (applyStateWrite keccak storage) state = .ok state')
    (hh : state.isHidden (Nibbles.fromH256Be hAddr) = false) :
    AccountWritesLeave keccak state state' hAddr
      ((writes.filter fun w => w.1 = hAddr).map Prod.snd) := by
  induction writes generalizing state with
  | nil => cases h; exact .inl ⟨rfl, rfl⟩
  | cons x xs ih =>
    obtain ⟨s₁, h₁, h₂⟩ := foldlM_cons_eq_ok.mp h
    have e : ((x :: xs).filter fun w => w.1 = hAddr).map Prod.snd =
        (if x.1 = hAddr then [x.2] else []) ++ (xs.filter fun w => w.1 = hAddr).map Prod.snd := by
      by_cases hx : x.1 = hAddr <;> simp [List.filter_cons, hx]
    rw [e]
    exact (applyStateWrite_writesLeave keccak h₁ hh).trans keccak
      (ih h₂ (((applyStateWrite_get_isHidden keccak h₁ _).2).trans hh))

end StateWrites

section Transaction

variable {txnIdx : Nat} {txnInfo : ProcessedSectionTxnInfo} {tries tries' : PartialTrieState}
  {extraData extraData' : ExtraBlockData} {otherData : OtherBlockData}
  {genInputs : GenerationInputs}

theorem processTxnInfo_applyDeltas
    (h : processTxnInfo keccak txnIdx txnInfo tries extraData otherData =
      .ok (genInputs, tries', extraData')) :
    ∃ tries₁ out, tries₁.state = tries.state ∧
      tries₁.storage = (seedStorageTries tries txnInfo).storage ∧
      applyDeltasToTrieState keccak tries₁ txnInfo.nodesUsedByTxn = .ok (tries', out) := by
  obtain ⟨_, _, _, tries₁, out, _, -, -, hu, ha, -⟩ := processTxnInfo_eq_ok keccak h
  obtain ⟨_, _, _, -, -, -, rfl⟩ := updateTxnAndReceiptTries_eq_ok hu
  refine ⟨_, out, ?_, ?_, ha⟩ <;> rfl

theorem processTxnInfo_storage_untouched
    (h : processTxnInfo keccak txnIdx txnInfo tries extraData otherData =
      .ok (genInputs, tries', extraData')) {hAddr : H256}
    (hacc : hAddr ∉ txnInfo.nodesUsedByTxn.storageAccesses.map Prod.fst)
    (hw : ∀ w ∈ txnInfo.nodesUsedByTxn.storageWrites, w.1 ≠ hAddr)
    (hsd : hAddr ∉ txnInfo.nodesUsedByTxn.selfDestructedAccounts) :
    tries'.storage.lookup hAddr = tries.storage.lookup hAddr := by
  obtain ⟨tries₁, _, -, hs, ha⟩ := processTxnInfo_applyDeltas keccak h
  obtain ⟨_, _, _, _, _, h₁, -, h₃, rfl⟩ := applyDeltasToTrieState_eq_ok keccak ha
  rw [lookup_foldlM_applySelfDestruct h₃ hsd, lookup_foldlM_applyAccountStorageWrites keccak h₁
    hAddr hw, hs, seedStorageTries, lookup_initAnyNeededEmptyStorageTries, if_neg hacc,
    Option.or_none]

/-- A transaction leaves the storage as `txnStorageView` says, as the storage tries read it. -/
theorem processTxnInfo_storageView
    (h : processTxnInfo keccak txnIdx txnInfo tries extraData otherData =
      .ok (genInputs, tries', extraData')) (hAddr : H256) :
    storageView tries'.storage hAddr =
      txnStorageView keccak txnInfo.nodesUsedByTxn (storageView tries.storage) hAddr := by
  obtain ⟨tries₁, _, -, hs, ha⟩ := processTxnInfo_applyDeltas keccak h
  obtain ⟨_, _, _, _, _, h₁, -, h₃, rfl⟩ := applyDeltasToTrieState_eq_ok keccak ha
  unfold txnStorageView
  rw [← storageView_seedStorageTries, ← hs]
  split_ifs with hsd
  · simp [storageView, (foldlM_applySelfDestruct_absent h₃ hAddr hsd).1]
  rw [storageView, lookup_foldlM_applySelfDestruct h₃ hsd, storageView]
  obtain ⟨hw, hg⟩ := foldlM_applyAccountStorageWrites_get keccak h₁
  cases hl : tries₁.storage.lookup hAddr with
  | none =>
    rw [lookup_foldlM_applyAccountStorageWrites keccak h₁ hAddr
      fun w hw' e => absurd (hw w hw') (by rw [e, hl]; decide), hl]
    rfl
  | some t =>
    obtain ⟨t', ht', hg'⟩ := hg hAddr t hl
    rw [ht']
    exact congrArg some (funext hg')

theorem processTxnInfo_state_get_isHidden
    (h : processTxnInfo keccak txnIdx txnInfo tries extraData otherData =
      .ok (genInputs, tries', extraData')) (k : Nibbles) :
    ((∀ w ∈ txnInfo.nodesUsedByTxn.stateWrites, k ≠ Nibbles.fromH256Be w.1) →
      (∀ hAddr ∈ txnInfo.nodesUsedByTxn.selfDestructedAccounts, k ≠ Nibbles.fromH256Be hAddr) →
      tries'.state.get k = tries.state.get k) ∧ tries'.state.isHidden k = tries.state.isHidden k := by
  obtain ⟨tries₁, _, hst, -, ha⟩ := processTxnInfo_applyDeltas keccak h
  obtain ⟨_, _, _, _, _, -, h₂, h₃, rfl⟩ := applyDeltasToTrieState_eq_ok keccak ha
  obtain ⟨g₂, i₂⟩ := foldlM_applyStateWrite_get_isHidden keccak h₂ k
  obtain ⟨g₃, i₃⟩ := foldlM_applySelfDestruct_get_isHidden h₃ k
  rw [← hst]
  exact ⟨fun hw hs => (g₃ hs).trans (g₂ hw), i₃.trans i₂⟩

/-- A transaction, at an account it does not self-destruct and whose key is not behind a hash
node: what its state writes to the account leave. -/
theorem processTxnInfo_writesLeave
    (h : processTxnInfo keccak txnIdx txnInfo tries extraData otherData =
      .ok (genInputs, tries', extraData')) {hAddr : H256}
    (hsd : hAddr ∉ txnInfo.nodesUsedByTxn.selfDestructedAccounts)
    (hh : tries.state.isHidden (Nibbles.fromH256Be hAddr) = false) :
    AccountWritesLeave keccak tries.state tries'.state hAddr
      (stateWritesOf txnInfo.nodesUsedByTxn hAddr) := by
  obtain ⟨tries₁, _, hst, -, ha⟩ := processTxnInfo_applyDeltas keccak h
  obtain ⟨_, _, state₁, _, _, -, h₂, h₃, rfl⟩ := applyDeltasToTrieState_eq_ok keccak ha
  have hd : AccountWritesLeave keccak state₁ _ hAddr [] :=
    .inl ⟨rfl, (foldlM_applySelfDestruct_get_isHidden h₃ _).1
      fun a ha e => hsd (Nibbles.fromH256Be_injective e ▸ ha)⟩
  rw [← hst]
  simpa only [List.append_nil] using
    (foldlM_applyStateWrite_writesLeave keccak h₂ (hst ▸ hh)).trans keccak hd

end Transaction

/-! ## The transaction loop -/

/-- What a block's transaction loop does to the storage map. An account whose storage no
transaction accesses, writes or self-destructs keeps its storage trie. And every account's
storage reads as the transactions' `txnStorageView` leave it, in order: seeding gives a storage
that reads nothing, writes set and clear slots, a self-destruct removes the storage. So an
account with a storage trie that no transaction self-destructs reads at each slot the last
value the whole block wrote there, and no transaction loses an earlier one's write. -/
theorem processTxnsLoop_storage {otherData : OtherBlockData} {txnIdx : Nat}
    {txns : List ProcessedSectionTxnInfo} {tries tries' : PartialTrieState}
    {extraData extraData' : ExtraBlockData} {ir : List GenerationInputs}
    (h : processTxnsLoop keccak otherData txnIdx txns tries extraData =
      .ok (ir, tries', extraData')) :
    (∀ hAddr, (∀ txnInfo ∈ txns, hAddr ∉ txnInfo.nodesUsedByTxn.storageAccesses.map Prod.fst ∧
        (∀ w ∈ txnInfo.nodesUsedByTxn.storageWrites, w.1 ≠ hAddr) ∧
        hAddr ∉ txnInfo.nodesUsedByTxn.selfDestructedAccounts) →
      tries'.storage.lookup hAddr = tries.storage.lookup hAddr) ∧
    ∀ hAddr, storageView tries'.storage hAddr =
      blockStorageView keccak txns (storageView tries.storage) hAddr := by
  induction txns generalizing txnIdx tries extraData ir with
  | nil =>
    simp only [processTxnsLoop_nil, Except.ok.injEq, Prod.mk.injEq] at h
    obtain ⟨-, rfl, -⟩ := h
    exact ⟨fun _ _ => rfl, fun _ => rfl⟩
  | cons x xs ih =>
    obtain ⟨_, _, _, _, h₁, h₂, -⟩ := processTxnsLoop_cons_eq_ok keccak h
    obtain ⟨ihf, ihv⟩ := ih h₂
    refine ⟨fun hAddr hu => ?_, fun hAddr => ?_⟩
    · obtain ⟨hacc, hw, hs⟩ := hu x (List.mem_cons_self x xs)
      rw [ihf hAddr fun t ht => hu t (List.mem_cons_of_mem x ht),
        processTxnInfo_storage_untouched keccak h₁ hacc hw hs]
    · rw [ihv, funext (processTxnInfo_storageView keccak h₁)]
      rfl

/-- What a block's transaction loop does to the state trie. No key is hidden or revealed. A key
that no transaction writes or self-destructs reads as before. An account whose key is not behind
a hash node and that no transaction self-destructs ends as all the block's state writes to it
leave it: its bytes before the block decode, and it holds an account with the balance, nonce
and code hash those writes set, in order. -/
theorem processTxnsLoop_state {otherData : OtherBlockData} {txnIdx : Nat}
    {txns : List ProcessedSectionTxnInfo} {tries tries' : PartialTrieState}
    {extraData extraData' : ExtraBlockData} {ir : List GenerationInputs}
    (h : processTxnsLoop keccak otherData txnIdx txns tries extraData =
      .ok (ir, tries', extraData')) :
    (∀ k, tries'.state.isHidden k = tries.state.isHidden k) ∧
    (∀ k, (∀ txnInfo ∈ txns,
        (∀ w ∈ txnInfo.nodesUsedByTxn.stateWrites, k ≠ Nibbles.fromH256Be w.1) ∧
        ∀ hAddr ∈ txnInfo.nodesUsedByTxn.selfDestructedAccounts, k ≠ Nibbles.fromH256Be hAddr) →
      tries'.state.get k = tries.state.get k) ∧
    ∀ hAddr, (∀ txnInfo ∈ txns, hAddr ∉ txnInfo.nodesUsedByTxn.selfDestructedAccounts) →
      tries.state.isHidden (Nibbles.fromH256Be hAddr) = false →
      AccountWritesLeave keccak tries.state tries'.state hAddr (blockStateWritesOf txns hAddr) := by
  induction txns generalizing txnIdx tries extraData ir with
  | nil =>
    simp only [processTxnsLoop_nil, Except.ok.injEq, Prod.mk.injEq] at h
    obtain ⟨-, rfl, -⟩ := h
    exact ⟨fun _ => rfl, fun _ _ => rfl, fun _ _ _ => .inl ⟨rfl, rfl⟩⟩
  | cons x xs ih =>
    obtain ⟨_, _, _, _, h₁, h₂, -⟩ := processTxnsLoop_cons_eq_ok keccak h
    obtain ⟨ihh, ihg, ihw⟩ := ih h₂
    have step := processTxnInfo_state_get_isHidden keccak h₁
    refine ⟨fun k => (ihh k).trans (step k).2, fun k hu => ?_, fun hAddr hsd hh => ?_⟩
    · obtain ⟨hw, hs⟩ := hu x (List.mem_cons_self x xs)
      exact (ihg k fun t ht => hu t (List.mem_cons_of_mem x ht)).trans ((step k).1 hw hs)
    · rw [blockStateWritesOf_cons]
      exact (processTxnInfo_writesLeave keccak h₁ (hsd x (List.mem_cons_self x xs)) hh).trans
        keccak (ihw hAddr (fun t ht => hsd t (List.mem_cons_of_mem x ht)) ((step _).2.trans hh))

def twoWriteTxns : List ProcessedSectionTxnInfo :=
  [⟨⟨[], [(3, ⟨some 5, none, false, none⟩)], [], [(3, [([0, 1], [2])])], ∅, []⟩, [],
      ⟨some [1, 2], [3], 21000⟩⟩,
    ⟨⟨[], [(3, ⟨none, some 1, false, none⟩)], [], [(3, [([0, 2], [7])])], ∅, []⟩, [],
      ⟨some [4], [5], 21000⟩⟩]

theorem twoWriteTxns_ok : ∃ r, processTxnsLoop zeroHash sampleOtherData 0 twoWriteTxns
    storageTries (initialExtraData sampleOtherData) = .ok r :=
  match h : processTxnsLoop zeroHash sampleOtherData 0 twoWriteTxns storageTries
      (initialExtraData sampleOtherData),
    (by decide : (processTxnsLoop zeroHash sampleOtherData 0 twoWriteTxns storageTries
      (initialExtraData sampleOtherData)).toBool) with
  | .ok r, _ => ⟨r, rfl⟩
  | .error _, hb => absurd hb (by simp [Except.toBool])

theorem storage_two_writes_sample :
    ∃ r, processTxnsLoop zeroHash sampleOtherData 0 twoWriteTxns storageTries
        (initialExtraData sampleOtherData) = .ok r ∧
      (∀ hAddr, (∀ txnInfo ∈ twoWriteTxns,
          hAddr ∉ txnInfo.nodesUsedByTxn.storageAccesses.map Prod.fst ∧
          (∀ w ∈ txnInfo.nodesUsedByTxn.storageWrites, w.1 ≠ hAddr) ∧
          hAddr ∉ txnInfo.nodesUsedByTxn.selfDestructedAccounts) →
        r.2.1.storage.lookup hAddr = storageTries.storage.lookup hAddr) ∧
      ∀ hAddr, storageView r.2.1.storage hAddr =
        blockStorageView zeroHash twoWriteTxns (storageView storageTries.storage) hAddr := by
  obtain ⟨⟨ir, t, e⟩, h⟩ := twoWriteTxns_ok
  exact ⟨_, h, processTxnsLoop_storage zeroHash h⟩

theorem state_two_writes_sample :
    ∃ r, processTxnsLoop zeroHash sampleOtherData 0 twoWriteTxns storageTries
        (initialExtraData sampleOtherData) = .ok r ∧
      (∀ k, r.2.1.state.isHidden k = storageTries.state.isHidden k) ∧
      (∀ k, (∀ txnInfo ∈ twoWriteTxns,
          (∀ w ∈ txnInfo.nodesUsedByTxn.stateWrites, k ≠ Nibbles.fromH256Be w.1) ∧
          ∀ hAddr ∈ txnInfo.nodesUsedByTxn.selfDestructedAccounts, k ≠ Nibbles.fromH256Be hAddr) →
        r.2.1.state.get k = storageTries.state.get k) ∧
      ∀ hAddr, (∀ txnInfo ∈ twoWriteTxns, hAddr ∉ txnInfo.nodesUsedByTxn.selfDestructedAccounts) →
        storageTries.state.isHidden (Nibbles.fromH256Be hAddr) = false →
        AccountWritesLeave zeroHash storageTries.state r.2.1.state hAddr
          (blockStateWritesOf twoWriteTxns hAddr) := by
  obtain ⟨⟨ir, t, e⟩, h⟩ := twoWriteTxns_ok
  exact ⟨_, h, processTxnsLoop_state zeroHash h⟩

end ZkEvmTrace
