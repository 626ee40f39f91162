import ZkEvmTrace.Decoding
import Mathlib.Data.List.Chain

/-!
# The units of a block

The shape of what `process_txns` returns: the transaction units of the loop, the dummy
units the padding puts before them, and the last unit that the withdrawals rewrite. The
loop facts are stated once per step of `process_txn_info` and carried over a run by
induction; the roots and the gas counters of consecutive units are then `Linked` lists. A
transaction's unit reads every key the transaction accesses as the live tries did when it
started.
-/

namespace ZkEvmTrace

variable (keccak : Bytes → H256)

def TrieInputs.roots (t : TrieInputs) : TrieRoots :=
  ⟨t.stateTrie.hash keccak, t.transactionsTrie.hash keccak, t.receiptsTrie.hash keccak⟩

/-- `xs` runs from `b` to `b'`: each element starts where the one before it finished. -/
def Linked {α β : Type} (start finish : α → β) : β → List α → β → Prop
  | b, [], b' => b' = b
  | b, x :: xs, b' => start x = b ∧ Linked start finish (finish x) xs b'

section Linked

variable {α β : Type} {start finish : α → β}

theorem linked_append {b b'' : β} {xs ys : List α} :
    Linked start finish b (xs ++ ys) b'' ↔
      ∃ b', Linked start finish b xs b' ∧ Linked start finish b' ys b'' := by
  induction xs generalizing b with
  | nil => exact ⟨fun h => ⟨b, rfl, h⟩, fun ⟨_, rfl, h⟩ => h⟩
  | cons x xs ih =>
    show start x = b ∧ Linked start finish (finish x) (xs ++ ys) b'' ↔ _
    simp only [ih, Linked, and_assoc, exists_and_left]

theorem Linked.head {b b' : β} {xs : List α} (h : Linked start finish b xs b') :
    ∀ x ∈ xs.head?, start x = b := by
  cases xs with
  | nil => simp
  | cons x xs => simpa using h.1

theorem Linked.chain' {b b' : β} {xs : List α} (h : Linked start finish b xs b') :
    xs.Chain' fun x y => start y = finish x := by
  induction xs generalizing b with
  | nil => exact List.chain'_nil
  | cons x xs ih => exact (ih h.2).cons' fun y hy => h.2.head y hy

theorem linked_const {b : β} {xs : List α} (h : ∀ x ∈ xs, start x = b ∧ finish x = b) :
    Linked start finish b xs b := by
  induction xs with
  | nil => rfl
  | cons x xs ih =>
    obtain ⟨hs, hf⟩ := h x (List.mem_cons_self x xs)
    exact ⟨hs, hf ▸ ih fun y hy => h y (List.mem_cons_of_mem x hy)⟩

theorem Linked.append_singleton {b b' : β} {ys : List α} {x y : α}
    (h : Linked start finish b (ys ++ [x]) b') (hy : start y = start x) :
    Linked start finish b (ys ++ [y]) (finish y) := by
  obtain ⟨c, h₁, h₂, -⟩ := linked_append.mp h
  exact linked_append.mpr ⟨c, h₁, hy.trans h₂, rfl⟩

end Linked

theorem hash_createTrieSubsetWrapped {trie trie' : PartialTrie} {accesses : List Nibbles}
    {trieType : TrieType} (h : createTrieSubsetWrapped keccak trie accesses trieType = .ok trie') :
    trie'.hash keccak = trie.hash keccak :=
  PartialTrie.hash_createTrieSubset keccak (createTrieSubsetWrapped_eq_ok keccak h)

theorem get_createTrieSubsetWrapped {trie trie' : PartialTrie} {accesses : List Nibbles}
    {trieType : TrieType} (h : createTrieSubsetWrapped keccak trie accesses trieType = .ok trie')
    {k : Nibbles} (hk : k ∈ accesses) : trie'.get k = trie.get k := by
  rw [PartialTrie.createTrieSubset_eq_ok keccak (createTrieSubsetWrapped_eq_ok keccak h)]
  exact PartialTrie.get_keepPaths keccak trie hk

/-- The storage subsets, one per entry of the storage accesses and in their order: each has the
root of the account's storage trie and reads every accessed slot as it. -/
theorem createMinimalStoragePartialTries_reads {storageTries : AList fun _ : H256 => PartialTrie}
    {accesses : List (H256 × List Nibbles)} {extra : AList fun _ : H256 => List Nibbles}
    {subTries : List (H256 × PartialTrie)}
    (h : createMinimalStoragePartialTries keccak storageTries accesses extra = .ok subTries) :
    List.Forall₂ (fun access sub => sub.1 = access.1 ∧ ∃ storageTrie,
      storageTries.lookup access.1 = some storageTrie ∧
      sub.2.hash keccak = storageTrie.hash keccak ∧
      ∀ slot ∈ access.2, sub.2.get slot = storageTrie.get slot) accesses subTries := by
  refine mapM_eq_ok_forall₂ (fun ⟨hAddr, mem⟩ sub hx => ?_) h
  simp only [bind_eq_ok, orPanic_eq_ok] at hx
  obtain ⟨st, hst, sub', hsub, he⟩ := hx
  cases he
  exact ⟨rfl, st, hst, hash_createTrieSubsetWrapped keccak hsub,
    fun _ hs => get_createTrieSubsetWrapped keccak hsub (List.mem_append_left _ hs)⟩

/-- The subsets a transaction's unit carries have the roots of the tries they are cut from. -/
theorem roots_createMinimalPartialTriesNeededByTxn {currBlockTries : PartialTrieState}
    {nodesUsedByTxn : NodesUsedByTxn} {txnIdx : Nat} {out : TrieDeltaApplicationOutput}
    {tries : TrieInputs}
    (h : createMinimalPartialTriesNeededByTxn keccak currBlockTries nodesUsedByTxn txnIdx out =
      .ok tries) :
    tries.roots keccak = calculateTrieInputHashes keccak currBlockTries := by
  obtain ⟨_, -, h₁, h₂, h₃, -⟩ := createMinimalPartialTriesNeededByTxn_eq_ok keccak h
  simp only [TrieInputs.roots, calculateTrieInputHashes, hash_createTrieSubsetWrapped keccak h₂,
    hash_createTrieSubsetWrapped keccak h₃,
    hash_createTrieSubsetWrapped keccak (h₁ : createTrieSubsetWrapped keccak _ _ _ = _)]

/-- A padding unit: no transaction and no withdrawals, counters at zero, and the roots of its
own tries as its roots after. -/
structure IsDummy (u : GenerationInputs) : Prop where
  signedTxn_eq : u.signedTxn = none
  contractCode_eq : u.contractCode = []
  withdrawals_eq : u.withdrawals = []
  txnNumberBefore_eq : u.txnNumberBefore = 0
  gasUsedBefore_eq : u.gasUsedBefore = 0
  gasUsedAfter_eq : u.gasUsedAfter = 0
  trieRootsAfter_eq : u.trieRootsAfter = u.tries.roots keccak

theorem createDummyGenInput_initialExtraData (otherData : OtherBlockData)
    (tries : PartialTrieState) :
    ∃ dummy, createDummyGenInput keccak otherData (initialExtraData otherData) tries = .ok dummy ∧
      IsDummy keccak dummy ∧ dummy.tries.roots keccak = calculateTrieInputHashes keccak tries :=
  ⟨_, rfl, ⟨rfl, rfl, rfl, rfl, rfl, rfl, rfl⟩, by
    simp only [TrieInputs.roots, createDummyProofTrieInputs, createFullyHashedOutSubPartialTrie,
      PartialTrie.hash_keepPaths, calculateTrieInputHashes]⟩

/-- The gas a list of transactions uses, summed without bound. -/
def gasUsedSum (txns : List ProcessedSectionTxnInfo) : Nat :=
  (txns.map fun t => t.meta.gasUsed.toNat).sum

section Step

variable {keccak} {txnIdx : Nat} {txnInfo : ProcessedSectionTxnInfo}
  {tries tries' : PartialTrieState} {extraData extraData' : ExtraBlockData}
  {otherData : OtherBlockData} {genInputs : GenerationInputs}

/-- A transaction's unit starts at the roots of the live tries before it and ends at those after
it. -/
theorem processTxnInfo_roots
    (h : processTxnInfo keccak txnIdx txnInfo tries extraData otherData =
      .ok (genInputs, tries', extraData')) :
    genInputs.tries.roots keccak = calculateTrieInputHashes keccak tries ∧
      genInputs.trieRootsAfter = calculateTrieInputHashes keccak tries' := by
  obtain ⟨_, _, _, _, _, _, -, -, -, -, h₅, -, rfl, -⟩ := processTxnInfo_eq_ok keccak h
  refine ⟨?_, rfl⟩
  rw [roots_createMinimalPartialTriesNeededByTxn keccak h₅]
  simp only [calculateTrieInputHashes, seedStorageTries]

theorem processTxnInfo_fields
    (h : processTxnInfo keccak txnIdx txnInfo tries extraData otherData =
      .ok (genInputs, tries', extraData')) :
    genInputs.signedTxn = txnInfo.meta.txnBytes ∧
      genInputs.contractCode = txnInfo.contractCodeAccessed ∧ genInputs.withdrawals = [] := by
  obtain ⟨_, _, _, _, _, _, -, -, -, -, -, -, rfl, -⟩ := processTxnInfo_eq_ok keccak h
  exact ⟨rfl, rfl, rfl⟩

theorem processTxnInfo_counters
    (h : processTxnInfo keccak txnIdx txnInfo tries extraData otherData =
      .ok (genInputs, tries', extraData')) :
    genInputs.txnNumberBefore = extraData.txnNumberBefore ∧
      genInputs.gasUsedBefore = extraData.gasUsedBefore ∧
      genInputs.gasUsedAfter.val = extraData.gasUsedAfter.val + txnInfo.meta.gasUsed.toNat ∧
      extraData'.txnNumberBefore.val = extraData.txnNumberBefore.val + 1 ∧
      extraData'.gasUsedBefore = genInputs.gasUsedAfter ∧
      extraData'.gasUsedAfter = genInputs.gasUsedAfter := by
  obtain ⟨_, _, _, _, _, _, -, h₂, -, -, -, h₆, rfl, rfl⟩ := processTxnInfo_eq_ok keccak h
  exact ⟨rfl, rfl, (U256.checkedAdd_eq_some.mp h₂).2, (U256.checkedAdd_eq_some.mp h₆).2, rfl, rfl⟩

/-- The unit of a transaction carries what the transaction reads as the live tries held it when
the transaction started, after seeding. Its state trie reads every account the transaction
accesses as the live state trie did; its transaction and receipt tries read the transaction's
key as the live ones did; and for each entry of the storage accesses, in order, it carries a
storage trie for that account with the root of the account's seeded storage trie, reading every
accessed slot as it did. -/
theorem processTxnInfo_unit_reads
    (h : processTxnInfo keccak txnIdx txnInfo tries extraData otherData =
      .ok (genInputs, tries', extraData')) :
    (∀ hAddr ∈ txnInfo.nodesUsedByTxn.stateAccesses,
      genInputs.tries.stateTrie.get (Nibbles.fromH256Be hAddr) =
        tries.state.get (Nibbles.fromH256Be hAddr)) ∧
    (∃ txnK, txnKey txnIdx = .ok txnK ∧ genInputs.tries.transactionsTrie.get txnK =
        tries.txn.get txnK ∧ genInputs.tries.receiptsTrie.get txnK = tries.receipt.get txnK) ∧
    List.Forall₂ (fun access sub => sub.1 = access.1 ∧ ∃ storageTrie,
        (seedStorageTries tries txnInfo).storage.lookup access.1 = some storageTrie ∧
        sub.2.hash keccak = storageTrie.hash keccak ∧
        ∀ slot ∈ access.2, sub.2.get slot = storageTrie.get slot)
      txnInfo.nodesUsedByTxn.storageAccesses genInputs.tries.storageTries := by
  obtain ⟨_, _, _, _, _, _, -, -, -, -, h₅, -, rfl, -⟩ := processTxnInfo_eq_ok keccak h
  obtain ⟨txnK, hk, h₁, h₂, h₃, h₄⟩ := createMinimalPartialTriesNeededByTxn_eq_ok keccak h₅
  exact ⟨fun hAddr ha => get_createTrieSubsetWrapped keccak h₁
      (List.mem_append_left _ (List.mem_map_of_mem _ ha)),
    ⟨txnK, hk, get_createTrieSubsetWrapped keccak h₂ (List.mem_singleton_self _),
      get_createTrieSubsetWrapped keccak h₃ (List.mem_singleton_self _)⟩,
    createMinimalStoragePartialTries_reads keccak h₄⟩

end Step

section Loop

variable {keccak} {otherData : OtherBlockData} {txnIdx : Nat} {txns : List ProcessedSectionTxnInfo}
  {tries tries' : PartialTrieState} {extraData extraData' : ExtraBlockData}
  {ir : List GenerationInputs}

@[simp] theorem processTxnsLoop_nil :
    processTxnsLoop keccak otherData txnIdx [] tries extraData = .ok ([], tries, extraData) := rfl

theorem processTxnsLoop_length
    (h : processTxnsLoop keccak otherData txnIdx txns tries extraData =
      .ok (ir, tries', extraData')) :
    ir.length = txns.length := by
  induction txns generalizing txnIdx tries extraData ir with
  | nil => cases h; rfl
  | cons x xs ih =>
    obtain ⟨_, _, _, _, -, h₂, rfl⟩ := processTxnsLoop_cons_eq_ok keccak h
    simp [ih h₂]

/-- Over a run, the units are linked by their roots: each starts at the roots the one before it
ended at, from the live tries at the start to those at the end. -/
theorem processTxnsLoop_roots
    (h : processTxnsLoop keccak otherData txnIdx txns tries extraData =
      .ok (ir, tries', extraData')) :
    Linked (·.tries.roots keccak) (·.trieRootsAfter) (calculateTrieInputHashes keccak tries) ir
      (calculateTrieInputHashes keccak tries') := by
  induction txns generalizing txnIdx tries extraData ir with
  | nil => cases h; rfl
  | cons x xs ih =>
    obtain ⟨_, _, _, _, h₁, h₂, rfl⟩ := processTxnsLoop_cons_eq_ok keccak h
    obtain ⟨hs, hf⟩ := processTxnInfo_roots h₁
    refine ⟨hs, ?_⟩
    dsimp only
    rw [hf]
    exact ih h₂

theorem processTxnsLoop_fields
    (h : processTxnsLoop keccak otherData txnIdx txns tries extraData =
      .ok (ir, tries', extraData')) :
    ∀ (k : Nat) (u : GenerationInputs), ir[k]? = some u → ∃ txnInfo, txns[k]? = some txnInfo ∧
      u.signedTxn = txnInfo.meta.txnBytes ∧ u.contractCode = txnInfo.contractCodeAccessed ∧
      u.withdrawals = [] := by
  induction txns generalizing txnIdx tries extraData ir with
  | nil => cases h; simp
  | cons x xs ih =>
    obtain ⟨_, _, _, _, h₁, h₂, rfl⟩ := processTxnsLoop_cons_eq_ok keccak h
    rintro (_ | k) u hu
    · rw [List.getElem?_cons_zero, Option.some.injEq] at hu
      subst hu
      exact ⟨x, List.getElem?_cons_zero, processTxnInfo_fields h₁⟩
    · rw [List.getElem?_cons_succ] at hu ⊢
      exact ih h₂ k u hu

/-- Over a run that starts with equal gas counters, the units are linked by their gas counters,
and the unit `k` places after the start counts `k` transactions and the gas of the first `k`
of them before it. -/
theorem processTxnsLoop_counters
    (h : processTxnsLoop keccak otherData txnIdx txns tries extraData =
      .ok (ir, tries', extraData'))
    (he : extraData.gasUsedBefore = extraData.gasUsedAfter) :
    extraData'.gasUsedBefore = extraData'.gasUsedAfter ∧
      Linked (·.gasUsedBefore) (·.gasUsedAfter) extraData.gasUsedBefore ir
        extraData'.gasUsedAfter ∧
      ∀ (k : Nat) (u : GenerationInputs), ir[k]? = some u →
        u.txnNumberBefore.val = extraData.txnNumberBefore.val + k ∧
        u.gasUsedBefore.val = extraData.gasUsedBefore.val + gasUsedSum (txns.take k) ∧
        u.gasUsedAfter.val = extraData.gasUsedBefore.val + gasUsedSum (txns.take (k + 1)) := by
  induction txns generalizing txnIdx tries extraData ir with
  | nil => cases h; exact ⟨he, he.symm, by simp⟩
  | cons x xs ih =>
    obtain ⟨u, _, e₁, _, h₁, h₂, rfl⟩ := processTxnsLoop_cons_eq_ok keccak h
    obtain ⟨hn, hb, ha, hn₁, hb₁, ha₁⟩ := processTxnInfo_counters h₁
    obtain ⟨he', hl, hk⟩ := ih h₂ (hb₁.trans ha₁.symm)
    refine ⟨he', ⟨hb, by dsimp only; rwa [← hb₁]⟩, ?_⟩
    rintro (_ | k) v hv
    · rw [List.getElem?_cons_zero, Option.some.injEq] at hv
      subst hv
      simp only [hn, hb, ha, he, gasUsedSum, List.take_succ_cons, List.take_zero, List.map_cons,
        List.map_nil, List.sum_cons, List.sum_nil]
      omega
    · rw [List.getElem?_cons_succ] at hv
      obtain ⟨k₁, k₂, k₃⟩ := hk k v hv
      simp only [gasUsedSum, List.take_succ_cons, List.map_cons, List.sum_cons] at k₂ k₃ ⊢
      rw [hb₁, ha, ← he] at k₂ k₃
      omega

end Loop

/-- After a run from the counters a block starts with, the padding cannot fail: it puts
`2 - n` dummy units, cut from the pre-block tries, before the `n` transaction units. -/
theorem padGenInputs_of_processTxnsLoop {otherData : OtherBlockData}
    {txns : List ProcessedSectionTxnInfo} {tries tries' : PartialTrieState}
    {extraData' : ExtraBlockData} {ir : List GenerationInputs}
    (h : processTxnsLoop keccak otherData 0 txns tries (initialExtraData otherData) =
      .ok (ir, tries', extraData')) :
    ∃ dummies, padGenInputsWithDummyInputsIfNeeded keccak ir otherData extraData'
        (initialExtraData otherData) tries tries' = .ok (dummies ++ ir) ∧
      dummies.length = 2 - txns.length ∧
      ∀ d ∈ dummies, IsDummy keccak d ∧
        d.tries.roots keccak = calculateTrieInputHashes keccak tries := by
  obtain ⟨d, hd, hdummy, hroots⟩ := createDummyGenInput_initialExtraData keccak otherData tries
  have hlen := processTxnsLoop_length h
  rcases ir with _ | ⟨g, _ | ⟨g₂, gs⟩⟩
  · obtain rfl : txns = [] := List.length_eq_zero.mp hlen.symm
    simp only [processTxnsLoop_nil, Except.ok.injEq, Prod.mk.injEq, true_and] at h
    obtain ⟨rfl, rfl⟩ := h
    refine ⟨[d, d], ?_, rfl, by simp [hdummy, hroots]⟩
    simp [padGenInputsWithDummyInputsIfNeeded, createDummyTxnPairForEmptyBlock, hd, bind,
      Except.bind, pure, Except.pure]
  · refine ⟨[d], ?_, by simp at hlen ⊢; omega, by simp [hdummy, hroots]⟩
    simp [padGenInputsWithDummyInputsIfNeeded, hd, bind, Except.bind, pure, Except.pure]
  · exact ⟨[], rfl, by simp at hlen ⊢; omega, by simp⟩

/-- What `process_txns` returns: the dummies, then the loop's units, the last one rewritten
by the withdrawals when there are any. -/
theorem processTxns_eq_ok_units {txns : List ProcessedSectionTxnInfo} {tries : PartialTrieState}
    {withdrawals : List (Address × U256)} {otherData : OtherBlockData} {us : List GenerationInputs}
    (h : processTxns keccak txns tries withdrawals otherData = .ok us) :
    ∃ ir tries' extraData' dummies,
      processTxnsLoop keccak otherData 0 txns tries (initialExtraData otherData) =
        .ok (ir, tries', extraData') ∧
      dummies.length = 2 - txns.length ∧
      (∀ d ∈ dummies, IsDummy keccak d ∧
        d.tries.roots keccak = calculateTrieInputHashes keccak tries) ∧
      ((withdrawals = [] ∧ us = dummies ++ ir) ∨
        (withdrawals ≠ [] ∧ ∃ tries'', addWithdrawalsToTxns keccak (dummies ++ ir) tries'
          withdrawals = .ok (us, tries''))) := by
  obtain ⟨ir, t', e', padded, h₁, h₂, h₃⟩ := processTxns_eq_ok keccak h
  obtain ⟨ds, hp, hlen, hds⟩ := padGenInputs_of_processTxnsLoop keccak h₁
  rw [hp, Except.ok.injEq] at h₂
  subst h₂
  exact ⟨ir, t', e', ds, h₁, hlen, hds, h₃⟩

theorem addWithdrawalsToTxns_last {txnIr ir : List GenerationInputs}
    {finalTrieState finalTrieState' : PartialTrieState} {withdrawals : List (Address × U256)}
    (h : addWithdrawalsToTxns keccak txnIr finalTrieState withdrawals =
      .ok (ir, finalTrieState')) :
    ∃ init last stateTrie stateRoot, txnIr = init ++ [last] ∧
      stateTrie.hash keccak = last.tries.stateTrie.hash keccak ∧
      ir = init ++ [{ last with
        tries := { last.tries with stateTrie }, withdrawals := withdrawals
        trieRootsAfter := { last.trieRootsAfter with stateRoot } }] := by
  obtain ⟨last, st, state, h₁, h₂, h₃, -, rfl, -⟩ := addWithdrawalsToTxns_eq_ok keccak h
  obtain ⟨init, rfl⟩ := List.getLast?_eq_some_iff.mp h₁
  refine ⟨init, last, st, _, rfl, ?_, by rw [List.dropLast_concat]⟩
  by_cases hs : last.signedTxn = none
  · exact hash_createTrieSubsetWrapped keccak (h₂ hs)
  · rw [h₃ hs]

/-- `u` is `v` as `add_withdrawals_to_txns` leaves it: unchanged, or, in a block with
withdrawals, with a state trie of the same root, the block's withdrawals and a new state root
after. -/
def WithdrawalsLeave (withdrawals : List (Address × U256)) (v u : GenerationInputs) : Prop :=
  u = v ∨ ∃ stateTrie stateRoot, withdrawals ≠ [] ∧
    stateTrie.hash keccak = v.tries.stateTrie.hash keccak ∧
    u = { v with
      tries := { v.tries with stateTrie }, withdrawals := withdrawals
      trieRootsAfter := { v.trieRootsAfter with stateRoot } }

theorem WithdrawalsLeave.kept {withdrawals : List (Address × U256)} {v u : GenerationInputs}
    (h : WithdrawalsLeave keccak withdrawals v u) :
    u.txnNumberBefore = v.txnNumberBefore ∧ u.gasUsedBefore = v.gasUsedBefore ∧
      u.gasUsedAfter = v.gasUsedAfter ∧ u.signedTxn = v.signedTxn ∧
      u.contractCode = v.contractCode ∧ u.tries.roots keccak = v.tries.roots keccak ∧
      u.trieRootsAfter.transactionsRoot = v.trieRootsAfter.transactionsRoot ∧
      u.trieRootsAfter.receiptsRoot = v.trieRootsAfter.receiptsRoot := by
  rcases h with rfl | ⟨_, _, -, hst, rfl⟩
  · exact ⟨rfl, rfl, rfl, rfl, rfl, rfl, rfl, rfl⟩
  · exact ⟨rfl, rfl, rfl, rfl, rfl, by simp only [TrieInputs.roots, hst], rfl, rfl⟩

theorem processTxns_getElem? {txns : List ProcessedSectionTxnInfo} {tries : PartialTrieState}
    {withdrawals : List (Address × U256)} {otherData : OtherBlockData} {us : List GenerationInputs}
    (h : processTxns keccak txns tries withdrawals otherData = .ok us) :
    ∃ ir tries' extraData' dummies,
      processTxnsLoop keccak otherData 0 txns tries (initialExtraData otherData) =
        .ok (ir, tries', extraData') ∧
      dummies.length = 2 - txns.length ∧
      (∀ d ∈ dummies, IsDummy keccak d ∧
        d.tries.roots keccak = calculateTrieInputHashes keccak tries) ∧
      us.length = dummies.length + ir.length ∧
      ∀ i u, us[i]? = some u → ∃ v, (dummies ++ ir)[i]? = some v ∧
        WithdrawalsLeave keccak withdrawals v u ∧ (i + 1 < us.length → u = v) := by
  obtain ⟨ir, t', e', ds, hloop, hlen, hds, hw⟩ := processTxns_eq_ok_units keccak h
  refine ⟨ir, t', e', ds, hloop, hlen, hds, ?_⟩
  rcases hw with ⟨-, rfl⟩ | ⟨hW, _, hadd⟩
  · exact ⟨List.length_append _ _, fun i u hu => ⟨u, hu, .inl rfl, fun _ => rfl⟩⟩
  · obtain ⟨init, last, st, sr, hsplit, hst, rfl⟩ := addWithdrawalsToTxns_last keccak hadd
    rw [hsplit, ← List.length_append, hsplit]
    refine ⟨by simp, fun i u hu => ?_⟩
    rcases Nat.lt_or_ge i init.length with hi | hi
    · rw [List.getElem?_append_left hi] at hu ⊢
      exact ⟨u, hu, .inl rfl, fun _ => rfl⟩
    · obtain rfl : i = init.length := by
        have := (List.getElem?_eq_some_iff.mp hu).1
        simp only [List.length_append, List.length_singleton] at this
        omega
      rw [List.getElem?_concat_length] at hu ⊢
      cases hu
      exact ⟨last, rfl, .inr ⟨st, sr, hW, hst, rfl⟩, by simp⟩

theorem processTxns_linked {β : Type} (start finish : GenerationInputs → β)
    {txns : List ProcessedSectionTxnInfo} {tries : PartialTrieState}
    {withdrawals : List (Address × U256)} {otherData : OtherBlockData} {us : List GenerationInputs}
    (hstart : ∀ v u, WithdrawalsLeave keccak withdrawals v u → start u = start v)
    (h : processTxns keccak txns tries withdrawals otherData = .ok us) :
    ∃ ir tries' extraData' dummies,
      processTxnsLoop keccak otherData 0 txns tries (initialExtraData otherData) =
        .ok (ir, tries', extraData') ∧
      (∀ d ∈ dummies, IsDummy keccak d ∧
        d.tries.roots keccak = calculateTrieInputHashes keccak tries) ∧
      ∀ b b', Linked start finish b (dummies ++ ir) b' → ∃ b'', Linked start finish b us b'' := by
  obtain ⟨ir, t', e', ds, hloop, -, hds, hw⟩ := processTxns_eq_ok_units keccak h
  refine ⟨ir, t', e', ds, hloop, hds, fun b b' hpad => ?_⟩
  rcases hw with ⟨-, rfl⟩ | ⟨hW, _, hadd⟩
  · exact ⟨b', hpad⟩
  · obtain ⟨init, last, st, sr, hsplit, hst, rfl⟩ := addWithdrawalsToTxns_last keccak hadd
    rw [hsplit] at hpad
    exact ⟨_, hpad.append_singleton (hstart _ _ (.inr ⟨st, sr, hW, hst, rfl⟩))⟩

/-- The unit of transaction `k` stands at position `k + (2 - n)`: the loop's unit `k`, as the
withdrawals leave it. -/
theorem processTxns_txnUnit {txns : List ProcessedSectionTxnInfo} {tries : PartialTrieState}
    {withdrawals : List (Address × U256)} {otherData : OtherBlockData} {us : List GenerationInputs}
    (h : processTxns keccak txns tries withdrawals otherData = .ok us) :
    ∃ ir tries' extraData',
      processTxnsLoop keccak otherData 0 txns tries (initialExtraData otherData) =
        .ok (ir, tries', extraData') ∧
      ∀ k, k < txns.length → ∃ u v, us[k + (2 - txns.length)]? = some u ∧ ir[k]? = some v ∧
        WithdrawalsLeave keccak withdrawals v u := by
  obtain ⟨ir, t', e', ds, hloop, hlen, -, hus, hpos⟩ := processTxns_getElem? keccak h
  have hir := processTxnsLoop_length hloop
  refine ⟨ir, t', e', hloop, fun k hk => ?_⟩
  have hp : k + (2 - txns.length) < us.length := by omega
  obtain ⟨v, hv, hleave, -⟩ := hpos _ _ (List.getElem?_eq_getElem hp)
  rw [List.getElem?_append_right (by omega), hlen, Nat.add_sub_cancel] at hv
  exact ⟨_, v, List.getElem?_eq_getElem hp, hv, hleave⟩

/-- The first `2 - n` units are dummies cut from the pre-block tries, as the withdrawals leave
them. -/
theorem processTxns_dummyUnit {txns : List ProcessedSectionTxnInfo} {tries : PartialTrieState}
    {withdrawals : List (Address × U256)} {otherData : OtherBlockData} {us : List GenerationInputs}
    (h : processTxns keccak txns tries withdrawals otherData = .ok us) :
    ∀ i u, i + txns.length < 2 → us[i]? = some u → ∃ d, IsDummy keccak d ∧
      d.tries.roots keccak = calculateTrieInputHashes keccak tries ∧
      WithdrawalsLeave keccak withdrawals d u := by
  obtain ⟨ir, -, -, ds, -, hlen, hds, -, hpos⟩ := processTxns_getElem? keccak h
  intro i u hi hu
  obtain ⟨d, hd, hleave, -⟩ := hpos i u hu
  rw [List.getElem?_append_left (by omega)] at hd
  exact ⟨d, (hds d (List.getElem?_mem hd)).1, (hds d (List.getElem?_mem hd)).2, hleave⟩

/-! ## A sample block

A block of chain `1` at height `7` over empty tries, a transaction that uses `21000` gas and
touches no account, and two stand-ins for keccak: a constant one, and one that reads its input
as a number. -/

/-- A constant hash, under which every slot and every account has the same key. -/
def zeroHash : Bytes → H256 := fun _ => 0

/-- A hash that reads its input as a big-endian number: it tells apart every input of at most
32 bytes, and the roots of tries with different contents. -/
def numHash (bs : Bytes) : H256 := ⟨ofBytesBE bs % 2 ^ 256, Nat.mod_lt _ (by norm_num)⟩

def sampleOtherData : OtherBlockData := ⟨⟨⟨0, 7, 1⟩, ⟨[], 0⟩⟩, 0⟩

def emptyTrieState : PartialTrieState := ⟨.empty, ∅, .empty, .empty⟩

def sampleTxn : ProcessedSectionTxnInfo :=
  ⟨⟨[], [], [], [], ∅, []⟩, [], ⟨some [1, 2], [3], 21000⟩⟩

def creditedAccountTxn : ProcessedSectionTxnInfo :=
  ⟨⟨[0], [(0, ⟨some 5, none, false, none⟩)], [], [], ∅, []⟩, [], ⟨some [1, 2], [3], 21000⟩⟩

def accessTxn : ProcessedSectionTxnInfo :=
  ⟨⟨[3], [], [(3, [[0, 1]])], [], ∅, []⟩, [], ⟨some [1, 2], [3], 21000⟩⟩

theorem unit_reads_sample :
    ∃ r, processTxnInfo zeroHash 0 accessTxn emptyTrieState (initialExtraData sampleOtherData)
        sampleOtherData = .ok r ∧
      (∀ hAddr ∈ accessTxn.nodesUsedByTxn.stateAccesses,
        r.1.tries.stateTrie.get (Nibbles.fromH256Be hAddr) =
          emptyTrieState.state.get (Nibbles.fromH256Be hAddr)) ∧
      (∃ txnK, txnKey 0 = .ok txnK ∧ r.1.tries.transactionsTrie.get txnK =
          emptyTrieState.txn.get txnK ∧
        r.1.tries.receiptsTrie.get txnK = emptyTrieState.receipt.get txnK) ∧
      List.Forall₂ (fun access sub => sub.1 = access.1 ∧ ∃ storageTrie,
          (seedStorageTries emptyTrieState accessTxn).storage.lookup access.1 = some storageTrie ∧
          sub.2.hash zeroHash = storageTrie.hash zeroHash ∧
          ∀ slot ∈ access.2, sub.2.get slot = storageTrie.get slot)
        accessTxn.nodesUsedByTxn.storageAccesses r.1.tries.storageTries :=
  match h : processTxnInfo zeroHash 0 accessTxn emptyTrieState (initialExtraData sampleOtherData)
      sampleOtherData,
    (by decide : (processTxnInfo zeroHash 0 accessTxn emptyTrieState
      (initialExtraData sampleOtherData) sampleOtherData).toBool) with
  | .ok (g, t, e), _ => ⟨_, rfl, processTxnInfo_unit_reads h⟩
  | .error _, hb => absurd hb (by simp [Except.toBool])

end ZkEvmTrace
