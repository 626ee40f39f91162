import ZkEvmTrace.Proofs.Units

/-!
# Counters and layout of a block's units

The transaction counter and the gas counters of every unit, computed exactly over the whole
block; and where the transaction units, the dummies and the withdrawals stand in the result.
The padding and the `expect` of `add_withdrawals_to_txns` cannot fail after a successful loop.
-/

namespace ZkEvmTrace

variable (keccak : Bytes → H256)

/-- The counters of every unit of a block: transaction unit `k` starts at transaction number `k`
and between the gas of the first `k` and of the first `k + 1` transactions, the dummies stand at
zero, and each unit's gas starts where the one before it ended. -/
theorem processTxns_gas_counters {txns : List ProcessedSectionTxnInfo} {tries : PartialTrieState}
    {withdrawals : List (Address × U256)} {otherData : OtherBlockData} {us : List GenerationInputs}
    (h : processTxns keccak txns tries withdrawals otherData = .ok us) :
    (∀ k, k < txns.length → ∃ u, us[k + (2 - txns.length)]? = some u ∧
      u.txnNumberBefore.val = k ∧ u.gasUsedBefore.val = gasUsedSum (txns.take k) ∧
      u.gasUsedAfter.val = gasUsedSum (txns.take (k + 1))) ∧
    (∀ i u, i + txns.length < 2 → us[i]? = some u →
      u.txnNumberBefore = 0 ∧ u.gasUsedBefore = 0 ∧ u.gasUsedAfter = 0) ∧
    us.Chain' fun u v => v.gasUsedBefore = u.gasUsedAfter := by
  refine ⟨fun k hk => ?_, fun i u hi hu => ?_, ?_⟩
  · obtain ⟨_, _, _, hloop, hunit⟩ := processTxns_txnUnit keccak h
    obtain ⟨u, v, hu, hv, hleave⟩ := hunit k hk
    obtain ⟨hn, hb, ha, -⟩ := WithdrawalsLeave.kept keccak hleave
    obtain ⟨-, -, hc⟩ := processTxnsLoop_counters hloop rfl
    obtain ⟨k₁, k₂, k₃⟩ := hc k v hv
    refine ⟨u, hu, ?_, ?_, ?_⟩ <;> simp [hn, hb, ha, k₁, k₂, k₃, initialExtraData]
  · obtain ⟨d, hd, -, hleave⟩ := processTxns_dummyUnit keccak h i u hi hu
    obtain ⟨hn, hb, ha, -⟩ := WithdrawalsLeave.kept keccak hleave
    exact ⟨hn.trans hd.txnNumberBefore_eq, hb.trans hd.gasUsedBefore_eq,
      ha.trans hd.gasUsedAfter_eq⟩
  · obtain ⟨_, _, _, ds, hloop, hds, hlink⟩ := processTxns_linked keccak (·.gasUsedBefore)
      (·.gasUsedAfter) (fun _ _ hl => (WithdrawalsLeave.kept keccak hl).2.1) h
    have hdummies : Linked (·.gasUsedBefore) (·.gasUsedAfter) 0 ds 0 :=
      linked_const fun d hd => ⟨(hds d hd).1.gasUsedBefore_eq, (hds d hd).1.gasUsedAfter_eq⟩
    obtain ⟨_, hl⟩ := hlink _ _
      (linked_append.mpr ⟨_, hdummies, (processTxnsLoop_counters hloop rfl).2.1⟩)
    exact hl.chain'

theorem gas_counters_sample : ∃ us,
    processTxns zeroHash [sampleTxn, sampleTxn] emptyTrieState [] sampleOtherData = .ok us ∧
      (∀ k, k < [sampleTxn, sampleTxn].length → ∃ u,
        us[k + (2 - [sampleTxn, sampleTxn].length)]? = some u ∧
        u.txnNumberBefore.val = k ∧
        u.gasUsedBefore.val = gasUsedSum ([sampleTxn, sampleTxn].take k) ∧
        u.gasUsedAfter.val = gasUsedSum ([sampleTxn, sampleTxn].take (k + 1))) ∧
      (∀ i u, i + [sampleTxn, sampleTxn].length < 2 → us[i]? = some u →
        u.txnNumberBefore = 0 ∧ u.gasUsedBefore = 0 ∧ u.gasUsedAfter = 0) ∧
      us.Chain' fun u v => v.gasUsedBefore = u.gasUsedAfter :=
  match h : processTxns zeroHash [sampleTxn, sampleTxn] emptyTrieState [] sampleOtherData,
    (by decide : (processTxns zeroHash [sampleTxn, sampleTxn] emptyTrieState []
      sampleOtherData).toBool) with
  | .ok us, _ => ⟨us, rfl, processTxns_gas_counters zeroHash h⟩
  | .error _, hb => absurd hb (by simp [Except.toBool])

/-! ## Layout -/

theorem processTxnsLoop_withdrawals {otherData : OtherBlockData} {txnIdx : Nat}
    {txns : List ProcessedSectionTxnInfo} {tries tries' : PartialTrieState}
    {extraData extraData' : ExtraBlockData} {ir : List GenerationInputs}
    (h : processTxnsLoop keccak otherData txnIdx txns tries extraData =
      .ok (ir, tries', extraData')) :
    ∀ u ∈ ir, u.withdrawals = [] := fun u hu => by
  obtain ⟨k, hk⟩ := List.mem_iff_getElem?.mp hu
  obtain ⟨_, -, -, -, hw⟩ := processTxnsLoop_fields h k u hk
  exact hw

section Withdrawals

variable {txns : List ProcessedSectionTxnInfo} {tries : PartialTrieState}
  {withdrawals : List (Address × U256)} {otherData : OtherBlockData} {us : List GenerationInputs}

theorem processTxns_withdrawals_init
    (h : processTxns keccak txns tries withdrawals otherData = .ok us) :
    ∀ i u, i + 1 < us.length → us[i]? = some u → u.withdrawals = [] := fun i u hi hu => by
  obtain ⟨_, _, _, ds, hloop, -, hds, -, hpos⟩ := processTxns_getElem? keccak h
  obtain ⟨v, hv, -, heq⟩ := hpos i u hu
  rw [heq hi]
  rcases List.mem_append.mp (List.getElem?_mem hv) with hv | hv
  · exact (hds v hv).1.withdrawals_eq
  · exact processTxnsLoop_withdrawals keccak hloop v hv

theorem processTxns_withdrawals_last
    (h : processTxns keccak txns tries withdrawals otherData = .ok us) :
    us.getLast?.map (·.withdrawals) = some withdrawals := by
  obtain ⟨ir, _, _, ds, hloop, hlen, hds, hw⟩ := processTxns_eq_ok_units keccak h
  rcases hw with ⟨rfl, rfl⟩ | ⟨-, _, hadd⟩
  · have hn := processTxnsLoop_length hloop
    obtain ⟨v, hl⟩ : ∃ v, (ds ++ ir).getLast? = some v :=
      Option.isSome_iff_exists.mp (List.getLast?_isSome.mpr fun e => by
        have := congrArg List.length e
        simp only [List.length_append, List.length_nil] at this
        omega)
    rw [hl]
    rcases List.mem_append.mp (List.mem_of_getLast?_eq_some hl) with hv | hv
    · simp [(hds v hv).1.withdrawals_eq]
    · simp [processTxnsLoop_withdrawals keccak hloop v hv]
  · obtain ⟨init, last, st, sr, -, -, rfl⟩ := addWithdrawalsToTxns_last keccak hadd
    simp

end Withdrawals

/-- Once the loop has succeeded, the padding and the `expect` of `add_withdrawals_to_txns`
cannot fail, and every result has `max n 2` units: the dummies first, then the transaction
units in order, with the withdrawals on the last unit only. -/
theorem processTxns_unit_layout {txns : List ProcessedSectionTxnInfo} {tries tries' : PartialTrieState}
    {withdrawals : List (Address × U256)} {otherData : OtherBlockData}
    {ir : List GenerationInputs} {extraData' : ExtraBlockData}
    (hloop : processTxnsLoop keccak otherData 0 txns tries (initialExtraData otherData) =
      .ok (ir, tries', extraData')) :
    (∃ padded, padGenInputsWithDummyInputsIfNeeded keccak ir otherData extraData'
        (initialExtraData otherData) tries tries' = .ok padded ∧ padded.getLast?.isSome) ∧
    ∀ us, processTxns keccak txns tries withdrawals otherData = .ok us →
      us.length = max txns.length 2 ∧
      (∀ k, k < txns.length → ∃ u txnInfo, us[k + (2 - txns.length)]? = some u ∧
        txns[k]? = some txnInfo ∧ u.signedTxn = txnInfo.meta.txnBytes) ∧
      (∀ i u, i + txns.length < 2 → us[i]? = some u → u.signedTxn = none ∧ u.contractCode = []) ∧
      (∀ i u, i + 1 < us.length → us[i]? = some u → u.withdrawals = []) ∧
      us.getLast?.map (·.withdrawals) = some withdrawals := by
  refine ⟨?_, fun us h => ⟨?_, fun k hk => ?_, fun i u hi hu => ?_, ?_, ?_⟩⟩
  · obtain ⟨ds, hp, hlen, -⟩ := padGenInputs_of_processTxnsLoop keccak hloop
    have hir := processTxnsLoop_length hloop
    refine ⟨_, hp, List.getLast?_isSome.mpr fun e => ?_⟩
    have := congrArg List.length e
    simp only [List.length_append, List.length_nil] at this
    omega
  · obtain ⟨ir, _, _, ds, hloop', hlen, -, hus, -⟩ := processTxns_getElem? keccak h
    have := processTxnsLoop_length hloop'
    omega
  · obtain ⟨_, _, _, hloop', hunit⟩ := processTxns_txnUnit keccak h
    obtain ⟨u, v, hu, hv, hleave⟩ := hunit k hk
    obtain ⟨txnInfo, hi, hs, -⟩ := processTxnsLoop_fields hloop' k v hv
    exact ⟨u, txnInfo, hu, hi, (WithdrawalsLeave.kept keccak hleave).2.2.2.1.trans hs⟩
  · obtain ⟨d, hd, -, hleave⟩ := processTxns_dummyUnit keccak h i u hi hu
    obtain ⟨-, -, -, hs, hc, -⟩ := WithdrawalsLeave.kept keccak hleave
    exact ⟨hs.trans hd.signedTxn_eq, hc.trans hd.contractCode_eq⟩
  · exact processTxns_withdrawals_init keccak h
  · exact processTxns_withdrawals_last keccak h

/-- In a block with no transaction, one withdrawal to an account the state does not hold: the
loop succeeds, and `process_txns` still fails. -/
theorem unit_layout_missing_recipient :
    processTxnsLoop zeroHash sampleOtherData 0 [] emptyTrieState (initialExtraData sampleOtherData) =
      .ok ([], emptyTrieState, initialExtraData sampleOtherData) ∧
    processTxns zeroHash [] emptyTrieState [(0, 1)] sampleOtherData = .error (.error {
      blockNum := none, blockChainId := none, txnIdx := none, addr := some 0, hAddr := some 0
      slot := none, slotValue := none, reason := .missingWithdrawalAccount 0 0 1 }) :=
  ⟨rfl, by decide⟩

set_option maxRecDepth 2000 in
theorem unit_layout_withdrawal_block :
    ∃ us, processTxns zeroHash [creditedAccountTxn] emptyTrieState [(1, 10)] sampleOtherData =
        .ok us ∧
      us.length = max [creditedAccountTxn].length 2 ∧
      (∀ k, k < [creditedAccountTxn].length → ∃ u txnInfo,
        us[k + (2 - [creditedAccountTxn].length)]? = some u ∧
        [creditedAccountTxn][k]? = some txnInfo ∧ u.signedTxn = txnInfo.meta.txnBytes) ∧
      (∀ i u, i + [creditedAccountTxn].length < 2 → us[i]? = some u →
        u.signedTxn = none ∧ u.contractCode = []) ∧
      (∀ i u, i + 1 < us.length → us[i]? = some u → u.withdrawals = []) ∧
      us.getLast?.map (·.withdrawals) = some [(1, 10)] :=
  match hl : processTxnsLoop zeroHash sampleOtherData 0 [creditedAccountTxn] emptyTrieState
      (initialExtraData sampleOtherData),
    (by decide : (processTxnsLoop zeroHash sampleOtherData 0 [creditedAccountTxn] emptyTrieState
      (initialExtraData sampleOtherData)).toBool) with
  | .ok (_, _, _), _ =>
    match h : processTxns zeroHash [creditedAccountTxn] emptyTrieState [(1, 10)] sampleOtherData,
      (by decide : (processTxns zeroHash [creditedAccountTxn] emptyTrieState [(1, 10)]
        sampleOtherData).toBool) with
    | .ok us, _ => ⟨us, rfl, (processTxns_unit_layout zeroHash hl).2 us h⟩
    | .error _, hb => absurd hb (by simp [Except.toBool])
  | .error _, hb => absurd hb (by simp [Except.toBool])

end ZkEvmTrace
