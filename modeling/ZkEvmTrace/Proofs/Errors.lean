import ZkEvmTrace.Proofs.Units

/-!
# Errors of a block

The first transaction that fails ends the block: `process_txns` returns its error, stamped
with the transaction's index and the block's number and chain id, and a panic passes through
unchanged. The storage-insert failure of `apply_deltas_to_trie_state` names the hashed slot
key where the slot was meant, and no hashed address.
-/

namespace ZkEvmTrace

variable (keccak : Bytes → H256)

theorem processTxnsLoop_append_of_eq_ok {otherData : OtherBlockData} {txnIdx : Nat}
    {xs ys : List ProcessedSectionTxnInfo} {tries tries₁ : PartialTrieState}
    {extraData extraData₁ : ExtraBlockData} {ir₁ : List GenerationInputs}
    (h : processTxnsLoop keccak otherData txnIdx xs tries extraData =
      .ok (ir₁, tries₁, extraData₁)) :
    processTxnsLoop keccak otherData txnIdx (xs ++ ys) tries extraData =
      (processTxnsLoop keccak otherData (txnIdx + xs.length) ys tries₁ extraData₁).map
        fun r => (ir₁ ++ r.1, r.2) := by
  induction xs generalizing txnIdx tries extraData ir₁ with
  | nil =>
    cases h
    simp only [List.nil_append, List.length_nil, Nat.add_zero]
    generalize processTxnsLoop keccak otherData txnIdx ys tries₁ extraData₁ = r
    rcases r with _ | ⟨_, _, _⟩ <;> rfl
  | cons x xs ih =>
    obtain ⟨u, t, e, ir', h₁, h₂, rfl⟩ := processTxnsLoop_cons_eq_ok keccak h
    have hidx : txnIdx + (x :: xs).length = txnIdx + 1 + xs.length := by simp; omega
    rw [List.cons_append, processTxnsLoop, h₁]
    simp only [mapTraceError, bind, Except.bind]
    rw [ih h₂, hidx]
    generalize processTxnsLoop keccak otherData (txnIdx + 1 + xs.length) ys tries₁ extraData₁ = r
    rcases r with _ | ⟨_, _, _⟩ <;> rfl

/-- The first failing transaction ends the block with its error: stamped with its index, then
with the block's number and chain id. -/
theorem processTxns_first_error {txns : List ProcessedSectionTxnInfo} {tries : PartialTrieState}
    {withdrawals : List (Address × U256)} {otherData : OtherBlockData} {k : Nat}
    {ir : List GenerationInputs} {triesₖ : PartialTrieState} {extraDataₖ : ExtraBlockData}
    {txnInfo : ProcessedSectionTxnInfo} {err : Failure}
    (hpre : processTxnsLoop keccak otherData 0 (txns.take k) tries (initialExtraData otherData) =
      .ok (ir, triesₖ, extraDataₖ))
    (hk : txns[k]? = some txnInfo)
    (hfail : processTxnInfo keccak k txnInfo triesₖ extraDataₖ otherData = .error err) :
    processTxns keccak txns tries withdrawals otherData =
      mapTraceError (fun e => (e.withBlockNum otherData.bData.bMeta.blockNumber).withBlockChainId
        otherData.bData.bMeta.blockChainId) (mapTraceError (·.withTxnIdx k) (.error err)) := by
  obtain ⟨hkl, rfl⟩ := List.getElem?_eq_some_iff.mp hk
  have hsplit : txns = txns.take k ++ txns[k] :: txns.drop (k + 1) := by
    rw [← List.drop_eq_getElem_cons hkl, List.take_append_drop]
  have hlen : 0 + (txns.take k).length = k := by simp; omega
  have hloop : processTxnsLoop keccak otherData 0 txns tries (initialExtraData otherData) =
      mapTraceError (·.withTxnIdx k) (.error err) := by
    rw [hsplit, processTxnsLoop_append_of_eq_ok keccak hpre, hlen]
    simp only [processTxnsLoop, hfail]
    rcases err with _ | _ <;> rfl
  simp only [processTxns, initialExtraData] at hloop ⊢
  rw [hloop]
  rcases err with _ | _ <;> rfl

/-! ## A storage insert behind a hash node -/

def hiddenStorageTries : PartialTrieState :=
  ⟨.empty, (∅ : AList fun _ : H256 => PartialTrie).insert 3 (.hashNode 5), .empty, .empty⟩

def slotWriteTxn : ProcessedSectionTxnInfo :=
  ⟨⟨[], [], [], [(3, [([0, 1], [2])])], ∅, []⟩, [], ⟨some [1, 2], [3], 21000⟩⟩

/-- The failure of `slotWriteTxn` at index `1`: the insert into hash node `5`, at slot `0` with value
`2`. -/
def slotInsertError : TraceParsingError :=
  { blockNum := none, blockChainId := none, txnIdx := none, addr := none, hAddr := none
    slot := some 0, slotValue := some 2, reason := .trieOpError (.hashNodeInsert 5) }

set_option exponentiation.threshold 512 in
theorem first_error_storage_insert :
    ∃ ir triesₖ extraDataₖ, processTxnsLoop zeroHash sampleOtherData 0
        ([sampleTxn, slotWriteTxn].take 1) hiddenStorageTries (initialExtraData sampleOtherData) =
        .ok (ir, triesₖ, extraDataₖ) ∧
      [sampleTxn, slotWriteTxn][1]? = some slotWriteTxn ∧
      processTxnInfo zeroHash 1 slotWriteTxn triesₖ extraDataₖ sampleOtherData =
        .error (.error slotInsertError) ∧
      processTxns zeroHash [sampleTxn, slotWriteTxn] hiddenStorageTries [] sampleOtherData =
        mapTraceError (fun e => (e.withBlockNum sampleOtherData.bData.bMeta.blockNumber).withBlockChainId
          sampleOtherData.bData.bMeta.blockChainId)
          (mapTraceError (·.withTxnIdx 1) (.error (.error slotInsertError))) :=
  have hrun : (processTxnsLoop zeroHash sampleOtherData 0 ([sampleTxn, slotWriteTxn].take 1)
      hiddenStorageTries (initialExtraData sampleOtherData)).map
        (fun r => processTxnInfo zeroHash 1 slotWriteTxn r.2.1 r.2.2 sampleOtherData) =
      .ok (.error (.error slotInsertError)) := by
    decide
  match hl : processTxnsLoop zeroHash sampleOtherData 0 ([sampleTxn, slotWriteTxn].take 1)
      hiddenStorageTries (initialExtraData sampleOtherData), hrun with
  | .ok (ir, t, e), hr =>
    have hfail := Except.ok.inj hr
    ⟨ir, t, e, rfl, rfl, hfail, processTxns_first_error zeroHash hl rfl hfail⟩
  | .error _, hr => nomatch hr

/-- The storage insert of a block fails behind a hash node: the error has the block, the
transaction and the slot value, but no hashed address, and as its slot the hashed slot key
(`0` under the constant hash), not the written slot `[0, 1]`, whose value is `1`. -/
theorem storage_insert_error_context :
    processTxns zeroHash [slotWriteTxn] hiddenStorageTries [] sampleOtherData = .error (.error {
      blockNum := some 7, blockChainId := some 1, txnIdx := some 0, addr := none, hAddr := none
      slot := some 0, slotValue := some 2, reason := .trieOpError (.hashNodeInsert 5) }) ∧
    Nibbles.bytesBe [0, 1] = [1] := by
  set_option exponentiation.threshold 512 in decide

end ZkEvmTrace
