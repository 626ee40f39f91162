import ZkEvmTrace.Proofs.Units

/-!
# Trie roots across a block

Each unit of a block starts at the roots the unit before it ended at, the first at the
pre-block roots; the subset builders keep the root of what they cut, so no assumption on them
is needed. The transaction and receipt roots after each transaction are those of the
pre-block tries with every transaction so far bound at the key of its index.
-/

namespace ZkEvmTrace

variable (keccak : Bytes → H256)

/-- The roots of a block's units are continuous: the first unit starts at the pre-block roots,
each unit at the roots the one before it ended at, and a dummy that carries no withdrawals ends
where it starts. -/
theorem processTxns_trie_roots_continuous {txns : List ProcessedSectionTxnInfo}
    {tries : PartialTrieState} {withdrawals : List (Address × U256)} {otherData : OtherBlockData}
    {us : List GenerationInputs}
    (h : processTxns keccak txns tries withdrawals otherData = .ok us) :
    (∀ u ∈ us.head?, u.tries.roots keccak = calculateTrieInputHashes keccak tries) ∧
      us.Chain' (fun u v => v.tries.roots keccak = u.trieRootsAfter) ∧
      ∀ i u, i + txns.length < 2 → us[i]? = some u → u.withdrawals = [] →
        u.trieRootsAfter = u.tries.roots keccak := by
  obtain ⟨_, _, _, _, hloop, hds, hlink⟩ := processTxns_linked keccak (·.tries.roots keccak)
    (·.trieRootsAfter) (fun _ _ hl => (WithdrawalsLeave.kept keccak hl).2.2.2.2.2.1) h
  have hdummies := linked_const fun d hd => ⟨(hds d hd).2,
    ((hds d hd).1.trieRootsAfter_eq.trans (hds d hd).2 :)⟩
  obtain ⟨_, hl⟩ := hlink _ _ (linked_append.mpr ⟨_, hdummies, processTxnsLoop_roots hloop⟩)
  refine ⟨hl.head, hl.chain', fun i u hi hu hw => ?_⟩
  obtain ⟨d, hd, -, hleave⟩ := processTxns_dummyUnit keccak h i u hi hu
  rcases hleave with rfl | ⟨_, _, hW, -, rfl⟩
  · exact hd.trieRootsAfter_eq
  · exact absurd hw hW

theorem trie_roots_continuous_sample : ∃ us,
    processTxns numHash [sampleTxn] emptyTrieState [] sampleOtherData = .ok us ∧
      (∀ u ∈ us.head?, u.tries.roots numHash = calculateTrieInputHashes numHash emptyTrieState) ∧
      us.Chain' (fun u v => v.tries.roots numHash = u.trieRootsAfter) ∧
      ∀ i u, i + [sampleTxn].length < 2 → us[i]? = some u → u.withdrawals = [] →
        u.trieRootsAfter = u.tries.roots numHash :=
  match h : processTxns numHash [sampleTxn] emptyTrieState [] sampleOtherData,
    (by decide : (processTxns numHash [sampleTxn] emptyTrieState [] sampleOtherData).toBool) with
  | .ok us, _ => ⟨us, rfl, processTxns_trie_roots_continuous numHash h⟩
  | .error _, hb => absurd hb (by simp [Except.toBool])

/-! ## The transaction and receipt tries -/

def txnKeyNibbles (txnIdx : Nat) : Nibbles := (encodeUsize txnIdx).flatMap byteNibbles

/-- The key's `unwrap` never panics: the RLP of a `usize` has at most nine bytes. -/
theorem txnKey_eq (txnIdx : Nat) : txnKey txnIdx = .ok (txnKeyNibbles txnIdx) := by
  rw [txnKey, Nibbles.fromBytesBe, if_pos ((length_encodeUsize_le txnIdx).trans (by norm_num))]
  rfl

theorem txnKeyNibbles_injective {i j : Nat} (hi : i < 2 ^ 64) (hj : j < 2 ^ 64)
    (h : txnKeyNibbles i = txnKeyNibbles j) : i = j :=
  encodeUsize_inj hi hj (flatMap_byteNibbles_injective h)

/-- The trie `t` with the bytes of each transaction bound at the key of its index, in index
order from `txnIdx`. -/
def bindTxnNodes (bytes : ProcessedSectionTxnInfo → Bytes) :
    PartialTrie → Nat → List ProcessedSectionTxnInfo → Except TrieOpError PartialTrie
  | t, _, [] => .ok t
  | t, txnIdx, txnInfo :: rest => do
    bindTxnNodes bytes (← t.insert (txnKeyNibbles txnIdx) (bytes txnInfo)) (txnIdx + 1) rest

section Bind

variable {bytes : ProcessedSectionTxnInfo → Bytes} {t t' : PartialTrie} {txnIdx : Nat}
  {txns : List ProcessedSectionTxnInfo}

theorem bindTxnNodes_cons_eq_ok {txnInfo : ProcessedSectionTxnInfo}
    (h : bindTxnNodes bytes t txnIdx (txnInfo :: txns) = .ok t') :
    ∃ t₁, t.insert (txnKeyNibbles txnIdx) (bytes txnInfo) = .ok t₁ ∧
      bindTxnNodes bytes t₁ (txnIdx + 1) txns = .ok t' := by
  simp only [bindTxnNodes, bind_eq_ok] at h
  exact h

theorem get_bindTxnNodes_of_ne (h : bindTxnNodes bytes t txnIdx txns = .ok t') (k : Nibbles)
    (hk : ∀ j < txns.length, k ≠ txnKeyNibbles (txnIdx + j)) : t'.get k = t.get k := by
  induction txns generalizing t txnIdx with
  | nil => cases h; rfl
  | cons x xs ih =>
    obtain ⟨t₁, h₁, h₂⟩ := bindTxnNodes_cons_eq_ok h
    rw [ih h₂ fun j hj => by simpa [Nat.add_right_comm] using hk (j + 1) (by simpa using hj),
      PartialTrie.get_insert h₁, if_neg (by simpa using hk 0 (by simp))]

/-- Within `usize`, every bound transaction reads back at its key: no binding overwrites
another. -/
theorem get_bindTxnNodes (h : bindTxnNodes bytes t txnIdx txns = .ok t')
    (hlen : txnIdx + txns.length ≤ 2 ^ 64) :
    ∀ j txnInfo, txns[j]? = some txnInfo →
      t'.get (txnKeyNibbles (txnIdx + j)) = some (bytes txnInfo) := by
  induction txns generalizing t txnIdx with
  | nil => simp
  | cons x xs ih =>
    obtain ⟨t₁, h₁, h₂⟩ := bindTxnNodes_cons_eq_ok h
    simp only [List.length_cons] at hlen
    rintro (_ | j) txnInfo hj
    · rw [List.getElem?_cons_zero, Option.some.injEq] at hj
      subst hj
      rw [get_bindTxnNodes_of_ne h₂ _ fun j hj e => by
          have := txnKeyNibbles_injective (by omega) (by omega) e
          omega,
        PartialTrie.get_insert h₁, Nat.add_zero, if_pos rfl]
    · rw [List.getElem?_cons_succ] at hj
      rw [show txnIdx + (j + 1) = txnIdx + 1 + j by omega]
      exact ih h₂ (by omega) j txnInfo hj

end Bind

theorem processTxnInfo_txn_receipt {txnIdx : Nat} {txnInfo : ProcessedSectionTxnInfo}
    {tries tries' : PartialTrieState} {extraData extraData' : ExtraBlockData}
    {otherData : OtherBlockData} {genInputs : GenerationInputs}
    (h : processTxnInfo keccak txnIdx txnInfo tries extraData otherData =
      .ok (genInputs, tries', extraData')) :
    tries.txn.insert (txnKeyNibbles txnIdx) txnInfo.meta.txnBytes! = .ok tries'.txn ∧
      tries.receipt.insert (txnKeyNibbles txnIdx) txnInfo.meta.receiptNodeBytes =
        .ok tries'.receipt := by
  obtain ⟨_, _, _, _, _, _, -, -, h₃, h₄, -⟩ := processTxnInfo_eq_ok keccak h
  obtain ⟨k, txn, receipt, hk, ht, hr, rfl⟩ := updateTxnAndReceiptTries_eq_ok h₃
  obtain ⟨_, _, _, _, _, -, -, -, rfl⟩ := applyDeltasToTrieState_eq_ok keccak h₄
  rw [txnKey_eq, Except.ok.injEq] at hk
  subst hk
  exact ⟨ht, hr⟩

/-- Over a run, the transaction and receipt roots after unit `k` are those of the tries at the
start with the first `k + 1` transactions bound. -/
theorem processTxnsLoop_txn_receipt {otherData : OtherBlockData} {txnIdx : Nat}
    {txns : List ProcessedSectionTxnInfo} {tries tries' : PartialTrieState}
    {extraData extraData' : ExtraBlockData} {ir : List GenerationInputs}
    (h : processTxnsLoop keccak otherData txnIdx txns tries extraData =
      .ok (ir, tries', extraData')) :
    ∀ (k : Nat) (u : GenerationInputs), ir[k]? = some u → ∃ t r,
      bindTxnNodes (·.meta.txnBytes!) tries.txn txnIdx (txns.take (k + 1)) = .ok t ∧
      bindTxnNodes (·.meta.receiptNodeBytes) tries.receipt txnIdx (txns.take (k + 1)) = .ok r ∧
      u.trieRootsAfter.transactionsRoot = t.hash keccak ∧
      u.trieRootsAfter.receiptsRoot = r.hash keccak := by
  induction txns generalizing txnIdx tries extraData ir with
  | nil => cases h; simp
  | cons x xs ih =>
    obtain ⟨u, t₁, _, _, h₁, h₂, rfl⟩ := processTxnsLoop_cons_eq_ok keccak h
    obtain ⟨ht, hr⟩ := processTxnInfo_txn_receipt keccak h₁
    rintro (_ | k) v hv
    · rw [List.getElem?_cons_zero, Option.some.injEq] at hv
      subst hv
      refine ⟨t₁.txn, t₁.receipt, ?_, ?_, ?_, ?_⟩
      · simp [bindTxnNodes, ht, bind, Except.bind]
      · simp [bindTxnNodes, hr, bind, Except.bind]
      · rw [(processTxnInfo_roots h₁).2]; rfl
      · rw [(processTxnInfo_roots h₁).2]; rfl
    · rw [List.getElem?_cons_succ] at hv
      obtain ⟨t, r, h₃, h₄, h₅, h₆⟩ := ih h₂ k v hv
      refine ⟨t, r, ?_, ?_, h₅, h₆⟩
      · simp only [List.take_succ_cons, bindTxnNodes, ht, bind, Except.bind]; exact h₃
      · simp only [List.take_succ_cons, bindTxnNodes, hr, bind, Except.bind]; exact h₄

/-- The transaction and receipt roots a block records: after transaction `k`, those of the
pre-block tries with the bytes and receipt of every transaction up to `k` bound at the key of its
index, where each of them reads back. -/
theorem processTxns_txn_receipt_roots {txns : List ProcessedSectionTxnInfo}
    {tries : PartialTrieState} {withdrawals : List (Address × U256)} {otherData : OtherBlockData}
    {us : List GenerationInputs}
    (h : processTxns keccak txns tries withdrawals otherData = .ok us)
    (hn : txns.length ≤ 2 ^ 64) :
    (∀ i, txnKey i = .ok (txnKeyNibbles i)) ∧
      (∀ i j, i < 2 ^ 64 → j < 2 ^ 64 → txnKeyNibbles i = txnKeyNibbles j → i = j) ∧
      ∀ k, k < txns.length → ∃ u t r, us[k + (2 - txns.length)]? = some u ∧
        bindTxnNodes (·.meta.txnBytes!) tries.txn 0 (txns.take (k + 1)) = .ok t ∧
        bindTxnNodes (·.meta.receiptNodeBytes) tries.receipt 0 (txns.take (k + 1)) = .ok r ∧
        u.trieRootsAfter.transactionsRoot = t.hash keccak ∧
        u.trieRootsAfter.receiptsRoot = r.hash keccak ∧
        ∀ i txnInfo, (txns.take (k + 1))[i]? = some txnInfo →
          t.get (txnKeyNibbles i) = some txnInfo.meta.txnBytes! ∧
          r.get (txnKeyNibbles i) = some txnInfo.meta.receiptNodeBytes := by
  refine ⟨txnKey_eq, fun i j => txnKeyNibbles_injective, fun k hk => ?_⟩
  obtain ⟨ir, _, _, hloop, hunit⟩ := processTxns_txnUnit keccak h
  obtain ⟨u, v, hu, hv, hleave⟩ := hunit k hk
  obtain ⟨t, r, ht, hr, htr, hrr⟩ := processTxnsLoop_txn_receipt keccak hloop k v hv
  obtain ⟨-, -, -, -, -, -, hkt, hkr⟩ := hleave.kept
  have hlen : 0 + (txns.take (k + 1)).length ≤ 2 ^ 64 := by simp; omega
  refine ⟨u, t, r, hu, ht, hr, hkt.trans htr, hkr.trans hrr, fun i txnInfo hi => ?_⟩
  simpa using And.intro (get_bindTxnNodes ht hlen i txnInfo hi) (get_bindTxnNodes hr hlen i txnInfo hi)

theorem txn_receipt_roots_sample : ∃ us,
    processTxns zeroHash [sampleTxn, sampleTxn] emptyTrieState [] sampleOtherData = .ok us ∧
      [sampleTxn, sampleTxn].length ≤ 2 ^ 64 ∧
      (∀ i, txnKey i = .ok (txnKeyNibbles i)) ∧
      (∀ i j, i < 2 ^ 64 → j < 2 ^ 64 → txnKeyNibbles i = txnKeyNibbles j → i = j) ∧
      ∀ k, k < [sampleTxn, sampleTxn].length → ∃ u t r,
        us[k + (2 - [sampleTxn, sampleTxn].length)]? = some u ∧
        bindTxnNodes (·.meta.txnBytes!) emptyTrieState.txn 0 ([sampleTxn, sampleTxn].take (k + 1)) =
          .ok t ∧
        bindTxnNodes (·.meta.receiptNodeBytes) emptyTrieState.receipt 0
          ([sampleTxn, sampleTxn].take (k + 1)) = .ok r ∧
        u.trieRootsAfter.transactionsRoot = t.hash zeroHash ∧
        u.trieRootsAfter.receiptsRoot = r.hash zeroHash ∧
        ∀ i txnInfo, ([sampleTxn, sampleTxn].take (k + 1))[i]? = some txnInfo →
          t.get (txnKeyNibbles i) = some txnInfo.meta.txnBytes! ∧
          r.get (txnKeyNibbles i) = some txnInfo.meta.receiptNodeBytes :=
  match h : processTxns zeroHash [sampleTxn, sampleTxn] emptyTrieState [] sampleOtherData,
    (by decide : (processTxns zeroHash [sampleTxn, sampleTxn] emptyTrieState []
      sampleOtherData).toBool) with
  | .ok us, _ => ⟨us, rfl, by decide, processTxns_txn_receipt_roots zeroHash h (by decide)⟩
  | .error _, hb => absurd hb (by simp [Except.toBool])

end ZkEvmTrace
