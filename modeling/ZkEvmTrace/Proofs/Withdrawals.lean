import ZkEvmTrace.Proofs.Units
import Mathlib.Algebra.BigOperators.Group.List

/-!
# Withdrawals

`update_trie_state_from_withdrawals` credits each recipient in list order, reading the
account the previous credits left: when every recipient holds a decodable account and no
running balance overflows, each account ends with its balance raised by the sum of its
withdrawals, and nothing else changes. The first recipient without an account, or with
undecodable bytes, ends it with its error. A dummy last unit's state trie is re-cut from its
own fully hashed-out trie, which exposes no account.
-/

namespace ZkEvmTrace

variable (keccak : Bytes → H256)

/-- The total the withdrawals credit to a hashed address. -/
def creditedSum (ws : List (Address × H256 × U256)) (hAddr : H256) : Nat :=
  ((ws.filter fun w => w.2.1 = hAddr).map fun w => w.2.2.val).sum

theorem creditedSum_append_singleton (ws : List (Address × H256 × U256))
    (w : Address × H256 × U256) (hAddr : H256) :
    creditedSum (ws ++ [w]) hAddr =
      creditedSum ws hAddr + if w.2.1 = hAddr then w.2.2.val else 0 := by
  unfold creditedSum
  by_cases h : w.2.1 = hAddr <;> simp [List.filter_append, List.sum_append, h]

theorem creditedSum_le_append (ws ws' : List (Address × H256 × U256)) (hAddr : H256) :
    creditedSum ws hAddr ≤ creditedSum (ws ++ ws') hAddr := by
  simp [creditedSum, List.filter_append, List.sum_append]

theorem creditedSum_eq_zero {ws : List (Address × H256 × U256)} {hAddr : H256}
    (h : ∀ w ∈ ws, w.2.1 ≠ hAddr) : creditedSum ws hAddr = 0 := by
  have hnil : ws.filter (fun w => decide (w.2.1 = hAddr)) = [] :=
    List.filter_eq_nil_iff.mpr fun w hw => by simpa using h w hw
  simp only [creditedSum, hnil, List.map_nil, List.sum_nil]

/-- Every recipient holds a decodable account whose balance takes all its withdrawals. -/
def WithdrawalsFit (state : PartialTrie) (ws : List (Address × H256 × U256)) : Prop :=
  ∀ w ∈ ws, ∃ bytes account, state.get (Nibbles.fromH256Be w.2.1) = some bytes ∧
    AccountRlp.decode bytes = .ok account ∧ account.balance.val + creditedSum ws w.2.1 < 2 ^ 256

theorem WithdrawalsFit.of_append {state : PartialTrie} {ws ws' : List (Address × H256 × U256)}
    (h : WithdrawalsFit state (ws ++ ws')) : WithdrawalsFit state ws := fun w hw => by
  obtain ⟨bytes, account, hb, hd, hlt⟩ := h w (List.mem_append_left ws' hw)
  exact ⟨bytes, account, hb, hd, lt_of_le_of_lt (by
    have := creditedSum_le_append ws ws' w.2.1; omega) hlt⟩

/-- `state'` is `state` with every recipient credited with all its withdrawals, and every other
key as it was. -/
def Credited (state : PartialTrie) (ws : List (Address × H256 × U256)) (state' : PartialTrie) :
    Prop :=
  (∀ w ∈ ws, ∀ bytes account, state.get (Nibbles.fromH256Be w.2.1) = some bytes →
    AccountRlp.decode bytes = .ok account → ∃ account',
      state'.get (Nibbles.fromH256Be w.2.1) = some account'.encode ∧
      account' = { account with balance := account'.balance } ∧
      account'.balance.val = account.balance.val + creditedSum ws w.2.1) ∧
  (∀ k, (∀ w ∈ ws, k ≠ Nibbles.fromH256Be w.2.1) → state'.get k = state.get k)

theorem updateTrieStateFromWithdrawals_append_of_ok {state sp : PartialTrie}
    {p : List (Address × H256 × U256)} (hp : updateTrieStateFromWithdrawals p state = .ok sp)
    (ws : List (Address × H256 × U256)) :
    updateTrieStateFromWithdrawals (p ++ ws) state = updateTrieStateFromWithdrawals ws sp := by
  simp only [updateTrieStateFromWithdrawals, List.foldlM_append] at hp ⊢
  rw [hp]
  rfl

section Credited

variable {state sp : PartialTrie} {p : List (Address × H256 × U256)}

theorem Credited.get_account (hc : Credited state p sp) {hAddr : H256} {bytes : Bytes}
    {account : AccountRlp} (hb : state.get (Nibbles.fromH256Be hAddr) = some bytes)
    (hd : AccountRlp.decode bytes = .ok account) :
    ∃ bytes' account', sp.get (Nibbles.fromH256Be hAddr) = some bytes' ∧
      AccountRlp.decode bytes' = .ok account' ∧
      account' = { account with balance := account'.balance } ∧
      account'.balance.val = account.balance.val + creditedSum p hAddr := by
  by_cases hin : ∃ w ∈ p, w.2.1 = hAddr
  · obtain ⟨w, hw, rfl⟩ := hin
    obtain ⟨a', hg', ha', hv'⟩ := hc.1 w hw bytes account hb hd
    exact ⟨a'.encode, a', hg', AccountRlp.decode_encode a', ha', hv'⟩
  · push_neg at hin
    refine ⟨bytes, account, ?_, hd, rfl, by rw [creditedSum_eq_zero hin, Nat.add_zero]⟩
    rw [hc.2 _ fun w hw e => hin w hw (Nibbles.fromH256Be_injective e).symm]
    exact hb

theorem Credited.append_singleton (hc : Credited state p sp) {w : Address × H256 × U256}
    {bytes : Bytes} {account accp : AccountRlp}
    (hb : state.get (Nibbles.fromH256Be w.2.1) = some bytes)
    (hd : AccountRlp.decode bytes = .ok account)
    (hap : accp = { account with balance := accp.balance })
    (hvp : accp.balance.val = account.balance.val + creditedSum p w.2.1)
    (hnh : sp.isHidden (Nibbles.fromH256Be w.2.1) = false)
    (hlt : accp.balance.val + w.2.2.val < 2 ^ 256) :
    Credited state (p ++ [w]) (sp.insertIgnoringResult (Nibbles.fromH256Be w.2.1)
      { accp with balance := ⟨accp.balance.val + w.2.2.val, hlt⟩ }.encode) := by
  refine ⟨fun w₀ hw₀ bytes₀ account₀ hb₀ hd₀ => ?_, fun k hk => ?_⟩
  · rw [get_insertIgnoringResult, hnh, if_neg Bool.false_ne_true]
    by_cases he : w₀.2.1 = w.2.1
    · rw [he, hb, Option.some.injEq] at hb₀
      subst hb₀
      rw [hd, Except.ok.injEq] at hd₀
      subst hd₀
      refine ⟨{ accp with balance := ⟨_, hlt⟩ }, by rw [he, if_pos rfl],
        congrArg (fun a : AccountRlp => { a with balance := ⟨_, hlt⟩ }) hap, ?_⟩
      rw [he, creditedSum_append_singleton, if_pos rfl]
      show accp.balance.val + w.2.2.val = _
      omega
    · have hw₀p : w₀ ∈ p := (List.mem_append.mp hw₀).resolve_right fun h =>
        he (congrArg (·.2.1) (List.mem_singleton.mp h))
      obtain ⟨a', hg', ha', hv'⟩ := hc.1 w₀ hw₀p bytes₀ account₀ hb₀ hd₀
      refine ⟨a', ?_, ha', ?_⟩
      · rwa [if_neg fun e => he (Nibbles.fromH256Be_injective e)]
      · rw [creditedSum_append_singleton, if_neg (Ne.symm he), Nat.add_zero]
        exact hv'
  · rw [get_insertIgnoringResult, hnh, if_neg Bool.false_ne_true, if_neg (hk w (by simp))]
    exact hc.2 k fun w' hw' => hk w' (List.mem_append_left _ hw')

end Credited

/-- Withdrawals that fit are all credited. -/
theorem updateTrieStateFromWithdrawals_credited {state : PartialTrie}
    {ws : List (Address × H256 × U256)} (hfit : WithdrawalsFit state ws) :
    ∃ state', updateTrieStateFromWithdrawals ws state = .ok state' ∧
      Credited state ws state' := by
  induction ws using List.reverseRecOn with
  | nil => exact ⟨state, rfl, fun w hw => absurd hw (List.not_mem_nil w), fun _ _ => rfl⟩
  | append_singleton p w ih =>
    obtain ⟨sp, hp, hc⟩ := ih hfit.of_append
    obtain ⟨bytes, account, hb, hd, hlt⟩ := hfit w (by simp)
    obtain ⟨bytesp, accp, hgp, hdp, hap, hvp⟩ := hc.get_account hb hd
    have hlt' : accp.balance.val + w.2.2.val < 2 ^ 256 := by
      have hsum := creditedSum_append_singleton p w w.2.1
      rw [if_pos rfl] at hsum
      omega
    refine ⟨_, ?_, hc.append_singleton hb hd hap hvp (PartialTrie.isHidden_of_get_eq_some hgp) hlt'⟩
    rw [updateTrieStateFromWithdrawals_append_of_ok hp]
    simp only [updateTrieStateFromWithdrawals, List.foldlM_cons, List.foldlM_nil,
      creditWithdrawal_of_decode_eq_ok hgp hdp (U256.checkedAdd_isSome hlt'), bind, Except.bind]
    rfl

theorem updateTrieStateFromWithdrawals_append_cons_of_error {state sp : PartialTrie}
    {p rest : List (Address × H256 × U256)} {w : Address × H256 × U256} {e : Failure}
    (hp : updateTrieStateFromWithdrawals p state = .ok sp) (he : creditWithdrawal sp w = .error e) :
    updateTrieStateFromWithdrawals (p ++ w :: rest) state = .error e := by
  rw [updateTrieStateFromWithdrawals_append_of_ok hp]
  simp only [updateTrieStateFromWithdrawals, List.foldlM_cons, he, bind, Except.bind]

theorem Credited.get_of_not_decodable {state state' : PartialTrie}
    {ws : List (Address × H256 × U256)} (hfit : WithdrawalsFit state ws)
    (hc : Credited state ws state') {hAddr : H256}
    (h : ∀ bytes account, state.get (Nibbles.fromH256Be hAddr) = some bytes →
      AccountRlp.decode bytes ≠ .ok account) :
    state'.get (Nibbles.fromH256Be hAddr) = state.get (Nibbles.fromH256Be hAddr) :=
  hc.2 _ fun w hw e => by
    obtain ⟨bytes, account, hb, hd, _⟩ := hfit w hw
    rw [← Nibbles.fromH256Be_injective e] at hb
    exact h bytes account hb hd

/-- The withdrawals credit every recipient with the sum of its withdrawals when they all fit;
otherwise the first recipient in list order without an account, or with undecodable bytes,
ends the run with its error. `add_withdrawals_to_txns` puts the root of the credited state and
the withdrawals into the last unit. -/
theorem withdrawals_credit_recipients (withdrawals : List (Address × U256))
    (tries : PartialTrieState) :
    (WithdrawalsFit tries.state (withdrawalsWithHashedAddrs keccak withdrawals) →
      ∃ state', updateTrieStateFromWithdrawals (withdrawalsWithHashedAddrs keccak withdrawals)
          tries.state = .ok state' ∧
        Credited tries.state (withdrawalsWithHashedAddrs keccak withdrawals) state') ∧
    (∀ p addr amt rest, withdrawals = p ++ (addr, amt) :: rest →
      WithdrawalsFit tries.state (withdrawalsWithHashedAddrs keccak p) →
      (tries.state.get (Nibbles.fromH256Be (keccak addr.asBytes)) = none →
        updateTrieStateFromWithdrawals (withdrawalsWithHashedAddrs keccak withdrawals) tries.state =
          traceError (((TraceParsingError.new (.missingWithdrawalAccount addr
            (keccak addr.asBytes) amt)).withAddr addr).withHAddr (keccak addr.asBytes))) ∧
      ∀ bytes err, tries.state.get (Nibbles.fromH256Be (keccak addr.asBytes)) = some bytes →
        AccountRlp.decode bytes = .error err →
        updateTrieStateFromWithdrawals (withdrawalsWithHashedAddrs keccak withdrawals) tries.state =
          traceError (.new (.accountDecode bytes err))) ∧
    ∀ txnIr ir tries', addWithdrawalsToTxns keccak txnIr tries withdrawals = .ok (ir, tries') →
      ∃ state', updateTrieStateFromWithdrawals (withdrawalsWithHashedAddrs keccak withdrawals)
          tries.state = .ok state' ∧
        ir.getLast?.map (fun u => (u.trieRootsAfter.stateRoot, u.withdrawals)) =
          some (state'.hash keccak, withdrawals) ∧
        tries' = { tries with state := state' } := by
  refine ⟨updateTrieStateFromWithdrawals_credited, fun p addr amt rest hw hfit => ?_, ?_⟩
  · obtain ⟨sp, hp, hc⟩ := updateTrieStateFromWithdrawals_credited hfit
    have hws : withdrawalsWithHashedAddrs keccak withdrawals =
        withdrawalsWithHashedAddrs keccak p ++ (addr, keccak addr.asBytes, amt) ::
          withdrawalsWithHashedAddrs keccak rest := by
      simp [hw, withdrawalsWithHashedAddrs]
    rw [hws]
    refine ⟨fun hn => updateTrieStateFromWithdrawals_append_cons_of_error hp ?_,
      fun bytes err hb hd => updateTrieStateFromWithdrawals_append_cons_of_error hp ?_⟩
    · refine creditWithdrawal_of_get_eq_none ((hc.get_of_not_decodable hfit ?_).trans hn)
      intro bytes account hb
      rw [hn] at hb
      cases hb
    · refine creditWithdrawal_of_decode_eq_error
        ((hc.get_of_not_decodable hfit fun bytes' account hb' => ?_).trans hb) hd
      rw [hb, Option.some.injEq] at hb'
      rw [← hb', hd]
      exact Except.noConfusion
  · intro txnIr ir tries' h
    obtain ⟨last, _, state, _, _, _, hs, rfl, rfl⟩ := addWithdrawalsToTxns_eq_ok keccak h
    exact ⟨state, hs, by simp, rfl⟩

def recipientState : PartialTrieState :=
  ⟨.singleton (Nibbles.fromH256Be 0) (emptyAccountBytesRlped zeroHash), ∅, .empty, .empty⟩

theorem withdrawals_credit_repeated_recipient :
    ∃ state', updateTrieStateFromWithdrawals (withdrawalsWithHashedAddrs zeroHash [(0, 2), (1, 3)])
        recipientState.state = .ok state' ∧
      Credited recipientState.state (withdrawalsWithHashedAddrs zeroHash [(0, 2), (1, 3)]) state' :=
  (withdrawals_credit_recipients zeroHash [(0, 2), (1, 3)] recipientState).1 fun w hw => by
    simp only [withdrawalsWithHashedAddrs, List.map_cons, List.map_nil, List.mem_cons,
      List.not_mem_nil, or_false] at hw
    rcases hw with rfl | rfl <;>
      exact ⟨emptyAccountBytesRlped zeroHash, emptyAccount zeroHash,
        by rw [recipientState, PartialTrie.get_singleton]; exact if_pos rfl,
        AccountRlp.decode_encode _, by decide⟩

def undecodableState : PartialTrieState :=
  ⟨.singleton (Nibbles.fromH256Be 0) [], ∅, .empty, .empty⟩

/-- A recipient whose entry does not decode is neither credited nor reported missing. -/
theorem withdrawal_to_undecodable_account :
    (undecodableState.state.get (Nibbles.fromH256Be (zeroHash (Address.asBytes 1)))).isSome ∧
      updateTrieStateFromWithdrawals (withdrawalsWithHashedAddrs zeroHash [(1, 1)])
        undecodableState.state = traceError (.new (.accountDecode [] .rlpExpectedToBeList)) := by
  set_option maxRecDepth 4000 in decide

/-! ## Withdrawals into a dummy unit -/

theorem Nibbles.fromH256Be_eq_cons (h : H256) : ∃ n ns, Nibbles.fromH256Be h = n :: ns := by
  unfold Nibbles.fromH256Be
  cases hb : toBytesBE 32 h.val with
  | nil => simpa [hb] using length_toBytesBE 32 h.val
  | cons b bs => exact ⟨_, _, rfl⟩

/-- No account can be reached below a hash node: the re-cut fails at the first one. -/
theorem createMinimalStatePartialTrie_hashNode (h hAddr : H256) (hAddrs : List H256)
    (extra : List Nibbles) :
    createMinimalStatePartialTrie keccak (.hashNode h) (hAddr :: hAddrs) extra =
      traceError (.new (.missingKeysCreatingSubPartialTrie (Nibbles.fromH256Be hAddr) .state)) := by
  obtain ⟨n, ns, hk⟩ := Nibbles.fromH256Be_eq_cons hAddr
  simp only [createMinimalStatePartialTrie, createTrieSubsetWrapped, List.map_cons,
    List.cons_append, hk, PartialTrie.createTrieSubset_hashNode]

/-- A block without transactions ends in a dummy unit whose state trie is one hash node, so
withdrawals to any account of a non-empty state cannot be re-cut into it: the block fails. -/
theorem empty_block_withdrawals_missing_keys (tries : PartialTrieState)
    (otherData : OtherBlockData) {addr : Address} {amt : U256} {rest : List (Address × U256)}
    (hacc : (tries.state.get (Nibbles.fromH256Be (keccak addr.asBytes))).isSome) :
    processTxns keccak [] tries ((addr, amt) :: rest) otherData =
      traceError (.new (.missingKeysCreatingSubPartialTrie (Nibbles.fromH256Be (keccak addr.asBytes))
        .state)) := by
  have hcut : createFullyHashedOutSubPartialTrie keccak tries.state =
      .hashNode (tries.state.hash keccak) := by
    cases hs : tries.state with
    | branch cs v => rfl
    | _ => simp [hs] at hacc
  obtain ⟨d, hd, -⟩ := createDummyGenInput_initialExtraData keccak otherData tries
  have hpad : padGenInputsWithDummyInputsIfNeeded keccak [] otherData (initialExtraData otherData)
      (initialExtraData otherData) tries tries = .ok [d, d] := by
    simp [padGenInputsWithDummyInputsIfNeeded, createDummyTxnPairForEmptyBlock, hd, bind,
      Except.bind, pure, Except.pure]
  obtain ⟨-, -, hdd⟩ := createDummyGenInputCommon_eq_ok keccak hd
  have hsig : d.signedTxn = none := by rw [hdd]
  have hst : d.tries.stateTrie = .hashNode (tries.state.hash keccak) := by
    rw [hdd]; exact hcut
  have hadd : addWithdrawalsToTxns keccak [d, d] tries ((addr, amt) :: rest) =
      traceError (.new (.missingKeysCreatingSubPartialTrie (Nibbles.fromH256Be (keccak addr.asBytes))
        .state)) := by
    simp only [addWithdrawalsToTxns, orPanic, List.getLast?_cons_cons, List.getLast?_singleton,
      hsig, hst, withdrawalsWithHashedAddrs, List.map_cons, createMinimalStatePartialTrie_hashNode,
      traceError, bind, Except.bind]
  simp only [processTxns, processTxnsLoop_nil, mapTraceError, hpad, List.isEmpty_cons, hadd,
    Bool.false_eq_true, ite_false, traceError, bind, Except.bind]

/-- One withdrawal to the one account of `recipientState`, in a block without transactions. -/
theorem empty_block_withdrawal_to_account :
    (recipientState.state.get (Nibbles.fromH256Be (zeroHash (Address.asBytes 1)))).isSome ∧
      processTxns zeroHash [] recipientState [(1, 1)] sampleOtherData =
        traceError (.new (.missingKeysCreatingSubPartialTrie
          (Nibbles.fromH256Be (zeroHash (Address.asBytes 1))) .state)) :=
  have hacc : (recipientState.state.get
      (Nibbles.fromH256Be (zeroHash (Address.asBytes 1)))).isSome := by
    rw [recipientState, PartialTrie.get_singleton]
    exact congrArg Option.isSome (if_pos rfl)
  ⟨hacc, empty_block_withdrawals_missing_keys zeroHash recipientState sampleOtherData hacc⟩

end ZkEvmTrace
