import ZkEvmTrace.Proofs.Collapses

/-!
# Replaying a transaction on its unit

The unit `process_txn_info` cuts for a transaction keeps the keys the transaction accesses and
hashes out the rest of the tries at its start. Where every key the transaction writes is among
those it accesses, that is enough to replay it: its transaction and receipt entries and its
delta, applied to the unit's tries as the decoder applies them to the live tries, succeed and
leave exactly the roots the unit records as `trie_roots_after`.

The proof is a simulation. A hashed-out copy of a trie has its root hash and reads every key it
does not hide as the trie does; an insert or a delete at a key both hide alike keeps the copy a
hashed-out copy of the result.

Over a block, every transaction's unit replays in this way; the last unit, which
`add_withdrawals_to_txns` rewrites, replays with the block's withdrawals where the transaction is
signed and accessed their recipients (`processTxns_units_replay`).
-/

namespace ZkEvmTrace

variable (keccak : Bytes → H256)

namespace PartialTrie

/-- `s` is `t` with some of its non-empty subtrees replaced by their hashes. -/
inductive HashedOut : PartialTrie → PartialTrie → Prop
  | refl (t : PartialTrie) : HashedOut t t
  | hash {t : PartialTrie} : t.isEmpty = false → HashedOut t (hashNode (t.hash keccak))
  | branch {cs cs' : Nibble → PartialTrie} (v : Option Bytes) :
      (∀ i, HashedOut (cs i) (cs' i)) → HashedOut (branch cs v) (branch cs' v)

variable {keccak} {t s : PartialTrie}

theorem HashedOut.hash_eq (h : HashedOut keccak t s) : s.hash keccak = t.hash keccak := by
  induction h with
  | refl => rfl
  | hash => rfl
  | branch v _ ih => simp only [PartialTrie.hash, ih]

theorem HashedOut.isEmpty_eq (h : HashedOut keccak t s) : s.isEmpty = t.isEmpty := by
  cases h with
  | refl => rfl
  | hash he => exact he.symm
  | branch => rfl

/-- A copy reads every key that it and the trie hide alike as the trie does. -/
theorem HashedOut.get_eq (h : HashedOut keccak t s) {k : Nibbles}
    (hk : s.isHidden k = t.isHidden k) : s.get k = t.get k := by
  induction h generalizing k with
  | refl => rfl
  | hash => rw [get_hashNode, get_of_isHidden (hk.symm.trans (isHidden_hashNode _ _))]
  | branch v _ ih =>
    cases k with
    | nil => rfl
    | cons n ns => exact ih n hk

theorem HashedOut.mkBranch {cs cs' : Nibble → PartialTrie} (h : ∀ i, HashedOut keccak (cs i) (cs' i))
    (v : Option Bytes) : HashedOut keccak (mkBranch cs v) (mkBranch cs' v) := by
  have he : (fun i => (cs' i).isEmpty) = fun i => (cs i).isEmpty := funext fun i => (h i).isEmpty_eq
  unfold PartialTrie.mkBranch
  rw [he]
  split
  · exact .refl _
  · exact .branch v h

theorem HashedOut.update {cs cs' : Nibble → PartialTrie} (h : ∀ i, HashedOut keccak (cs i) (cs' i))
    {n : Nibble} {c c' : PartialTrie} (hc : HashedOut keccak c c') (i : Nibble) :
    HashedOut keccak (Function.update cs n c i) (Function.update cs' n c' i) := by
  by_cases hi : i = n
  · subst hi
    simpa only [Function.update_same] using hc
  · simpa only [Function.update_noteq hi] using h i

/-- An insert at a key the copy does not hide succeeds on the copy too. -/
theorem HashedOut.insert (h : HashedOut keccak t s) {k : Nibbles} (hk : s.isHidden k = false)
    {v : Bytes} {t' : PartialTrie} (ht : t.insert k v = .ok t') :
    ∃ s', s.insert k v = .ok s' ∧ HashedOut keccak t' s' := by
  induction h generalizing k t' with
  | refl => exact ⟨t', ht, .refl _⟩
  | hash => simp at hk
  | branch w hcs ih =>
    cases k with
    | nil =>
      cases ht
      exact ⟨_, rfl, .branch _ hcs⟩
    | cons n ns =>
      obtain ⟨c, hc, rfl⟩ := map_eq_ok.mp ht
      obtain ⟨c', hc', hcc⟩ := ih n hk hc
      exact ⟨_, by simp only [PartialTrie.insert, hc']; rfl, .branch w (HashedOut.update hcs hcc)⟩

/-- A delete's walk at a key the copy does not hide succeeds on the copy too, and reports the
same collapse. -/
theorem HashedOut.deleteIntern (h : HashedOut keccak t s) {k : Nibbles} (hk : s.isHidden k = false)
    {t' : PartialTrie} (ht : t.deleteIntern k = .ok t') :
    ∃ s', s.deleteIntern k = .ok s' ∧ HashedOut keccak t' s' ∧
      ∀ pre, s.collapsedKey s' k pre = t.collapsedKey t' k pre := by
  induction h generalizing k t' with
  | refl => exact ⟨t', ht, .refl _, fun _ => rfl⟩
  | hash => simp at hk
  | branch w hcs ih =>
    cases k with
    | nil =>
      cases ht
      exact ⟨_, rfl, .mkBranch hcs none, fun _ => by simp only [collapsedKey_nil]⟩
    | cons n ns =>
      obtain ⟨c, hc, rfl⟩ := map_eq_ok.mp ht
      obtain ⟨c', hc', hcc, hck⟩ := ih n hk hc
      have hu := @HashedOut.update keccak _ _ hcs n _ _ hcc
      refine ⟨_, by simp only [PartialTrie.deleteIntern, hc']; rfl, .mkBranch hu w, fun pre => ?_⟩
      refine collapsedKey_mkBranch_congr (fun i => (hcs i).isEmpty_eq) (fun i => (hu i).isEmpty_eq) ?_
      simpa only [Function.update_same] using hck (pre ++ [n])

/-- A delete at a key the copy does not hide succeeds on the copy too, where the copy hides the
key of the slot the branch collapses onto as the trie does. -/
theorem HashedOut.delete (h : HashedOut keccak t s) {k : Nibbles} (hk : s.isHidden k = false)
    {t' : PartialTrie} (ht : t.delete k = .ok t')
    (hr : ∀ r, t.collapsedKey t' k [] = some r → s.isHidden r = t.isHidden r) :
    ∃ s', s.delete k = .ok s' ∧ HashedOut keccak t' s' ∧
      s.collapsedKey s' k [] = t.collapsedKey t' k [] := by
  obtain ⟨hd, hok⟩ := delete_eq_ok.mp ht
  obtain ⟨s', hs', hts, hck⟩ := h.deleteIntern hk hd
  refine ⟨s', delete_eq_ok.mpr ⟨hs', fun r hr' => ?_⟩, hts, hck []⟩
  rw [hck] at hr'
  rw [isHidden_deleteIntern hs', hr r hr', ← isHidden_deleteIntern hd, hok r hr']

theorem HashedOut.insertIgnoringResult (h : HashedOut keccak t s) {k : Nibbles}
    (hk : s.isHidden k = t.isHidden k) (v : Bytes) :
    HashedOut keccak (t.insertIgnoringResult k v) (s.insertIgnoringResult k v) := by
  unfold PartialTrie.insertIgnoringResult
  cases ht : t.insert k v with
  | ok t' =>
    obtain ⟨s', hs', hts⟩ := h.insert (hk.trans (isHidden_eq_false_of_insert_eq_ok ht)) ht
    rw [hs']
    exact hts
  | error =>
    cases hs : s.insert k v with
    | ok s' =>
      have he := (isHidden_eq_false_of_insert_eq_ok hs).symm.trans hk
      rw [isHidden_of_insert_eq_error ht] at he
      cases he
    | error => exact h

/-- A subset is a hashed-out copy of the trie it is cut from. -/
theorem hashedOut_keepPaths (t : PartialTrie) (ks : List Nibbles) :
    HashedOut keccak t (keepPaths keccak t ks) := by
  induction t generalizing ks with
  | branch cs v ih =>
    cases ks with
    | nil => exact .hash rfl
    | cons k ks => exact .branch v fun i => ih i _
  | _ => cases ks <;> exact .refl _

theorem isHidden_keepPaths (t : PartialTrie) {ks : List Nibbles} {k : Nibbles} (hk : k ∈ ks) :
    (keepPaths keccak t ks).isHidden k = t.isHidden k := by
  induction t generalizing ks k with
  | branch cs v ih =>
    obtain ⟨k', ks', rfl⟩ := List.exists_cons_of_ne_nil (List.ne_nil_of_mem hk)
    cases k with
    | nil => rfl
    | cons n ns => exact ih n (List.mem_filterMap.mpr ⟨n :: ns, hk, if_pos rfl⟩)
  | _ => cases ks <;> rfl

end PartialTrie

/-- `t'` is a hashed-out copy of `t` that hides each key of `keys` as `t` does. -/
def TrieCopy (keys : Nibbles → Prop) (t t' : PartialTrie) : Prop :=
  PartialTrie.HashedOut keccak t t' ∧ ∀ k, keys k → t'.isHidden k = t.isHidden k

/-- The accounts of `accts` have a storage trie in both maps or in neither, and where both have
one, the second's is a `TrieCopy` of the first's for that account's `keys`. -/
def StorageCopy (accts : List H256) (keys : H256 → Nibbles → Prop)
    (storage storage' : AList fun _ : H256 => PartialTrie) : Prop :=
  ∀ hAddr ∈ accts, (storage'.lookup hAddr).isSome = (storage.lookup hAddr).isSome ∧
    ∀ t t', storage.lookup hAddr = some t → storage'.lookup hAddr = some t' →
      TrieCopy keccak (keys hAddr) t t'

namespace TrieCopy

variable {keccak} {keys : Nibbles → Prop} {t t' : PartialTrie} {k : Nibbles}

theorem get_eq (h : TrieCopy keccak keys t t') (hk : keys k) : t'.get k = t.get k :=
  h.1.get_eq (h.2 k hk)

theorem mono (h : TrieCopy keccak keys t t') {keys' : Nibbles → Prop}
    (hk : ∀ k, keys' k → keys k) : TrieCopy keccak keys' t t' :=
  ⟨h.1, fun k h' => h.2 k (hk k h')⟩

theorem insert (h : TrieCopy keccak keys t t') (hk : keys k) {v : Bytes} {t₁ : PartialTrie}
    (ht : t.insert k v = .ok t₁) :
    ∃ t₁', t'.insert k v = .ok t₁' ∧ TrieCopy keccak keys t₁ t₁' := by
  obtain ⟨t₁', ht', hh⟩ :=
    h.1.insert ((h.2 k hk).trans (PartialTrie.isHidden_eq_false_of_insert_eq_ok ht)) ht
  exact ⟨t₁', ht', hh, fun k' hk' => by
    rw [PartialTrie.isHidden_insert ht', PartialTrie.isHidden_insert ht, h.2 k' hk']⟩

theorem insertIgnoringResult (h : TrieCopy keccak keys t t') (hk : keys k) (v : Bytes) :
    TrieCopy keccak keys (t.insertIgnoringResult k v) (t'.insertIgnoringResult k v) :=
  ⟨h.1.insertIgnoringResult (h.2 k hk) v, fun k' hk' => by
    rw [isHidden_insertIgnoringResult, isHidden_insertIgnoringResult, h.2 k' hk']⟩

/-- A reporting delete on a copy that keeps readable the key it reports reports the same key. -/
theorem deleteNode (h : TrieCopy keccak keys t t') (hk : keys k) {t₁ : PartialTrie}
    {r : Option Nibbles} (hd : t.deleteNodeAndReportRemainingKeyIfBranchCollapsed k = .ok (t₁, r))
    (hr : ∀ p ∈ r, keys p) :
    ∃ t₁', t'.deleteNodeAndReportRemainingKeyIfBranchCollapsed k = .ok (t₁', r) ∧
      TrieCopy keccak keys t₁ t₁' := by
  obtain ⟨hdel, rfl⟩ := PartialTrie.deleteNode_eq_ok.mp hd
  obtain ⟨t₁', hdel', hh, hck⟩ := h.1.delete
    ((h.2 k hk).trans (PartialTrie.isHidden_eq_false_of_delete_eq_ok hdel)) hdel
    fun p hp => h.2 p (hr p hp)
  exact ⟨t₁', PartialTrie.deleteNode_eq_ok.mpr ⟨hdel', hck.symm⟩, hh, fun k' hk' => by
    rw [PartialTrie.isHidden_delete hdel', PartialTrie.isHidden_delete hdel, h.2 k' hk']⟩

end TrieCopy

theorem trieCopy_of_createTrieSubsetWrapped {trie trie' : PartialTrie} {accesses : List Nibbles}
    {trieType : TrieType} (h : createTrieSubsetWrapped keccak trie accesses trieType = .ok trie') :
    TrieCopy keccak (· ∈ accesses) trie trie' := by
  rw [PartialTrie.createTrieSubset_eq_ok keccak (createTrieSubsetWrapped_eq_ok keccak h)]
  exact ⟨PartialTrie.hashedOut_keepPaths trie accesses,
    fun _ hk => PartialTrie.isHidden_keepPaths trie hk⟩

theorem StorageCopy.map_hash {accts : List H256} {keys : H256 → Nibbles → Prop}
    {storage storage' : AList fun _ : H256 => PartialTrie}
    (h : StorageCopy keccak accts keys storage storage') {hAddr : H256} (hA : hAddr ∈ accts) :
    (storage'.lookup hAddr).map (PartialTrie.hash keccak) =
      (storage.lookup hAddr).map (PartialTrie.hash keccak) := by
  obtain ⟨hs, hc⟩ := h hAddr hA
  cases hl : storage.lookup hAddr <;> cases hl' : storage'.lookup hAddr <;>
    simp only [hl, hl', Option.isSome_some, Option.isSome_none, Bool.true_eq_false,
      Bool.false_eq_true, Option.map_some', Option.some.injEq] at hs ⊢
  exact (hc _ _ hl hl').1.hash_eq

def storageMapOf (storageTries : List (H256 × PartialTrie)) : AList fun _ : H256 => PartialTrie :=
  storageTries.foldr (fun e m => m.insert e.1 e.2) ∅

theorem mem_of_lookup_storageMapOf {l : List (H256 × PartialTrie)} {hAddr : H256}
    {t : PartialTrie} (h : (storageMapOf l).lookup hAddr = some t) : (hAddr, t) ∈ l := by
  induction l with
  | nil => cases h
  | cons e l ih =>
    obtain ⟨a, u⟩ := e
    simp only [storageMapOf, List.foldr_cons] at h
    by_cases he : hAddr = a
    · subst he
      rw [AList.lookup_insert, Option.some.injEq] at h
      rw [h]
      exact List.mem_cons_self _ _
    · rw [AList.lookup_insert_ne he] at h
      exact List.mem_cons_of_mem _ (ih h)

theorem isSome_lookup_storageMapOf {l : List (H256 × PartialTrie)} {hAddr : H256}
    (h : hAddr ∈ l.map Prod.fst) : ((storageMapOf l).lookup hAddr).isSome := by
  induction l with
  | nil => cases h
  | cons e l ih =>
    obtain ⟨a, u⟩ := e
    simp only [storageMapOf, List.foldr_cons]
    by_cases he : hAddr = a
    · subst he
      rw [AList.lookup_insert]
      rfl
    · rw [AList.lookup_insert_ne he]
      exact ih (by simpa [he] using h)

def TrieInputs.toTrieState (tries : TrieInputs) : PartialTrieState :=
  ⟨tries.stateTrie, storageMapOf tries.storageTries, tries.transactionsTrie, tries.receiptsTrie⟩

/-- A unit replayed: the transaction's entries and delta, then the unit's withdrawals, applied to
the unit's tries as `process_txns` applies them to the live tries, and the roots they leave. -/
def replayUnit (txnIdx : Nat) (txnInfo : ProcessedSectionTxnInfo) (unit : GenerationInputs) :
    Except Failure TrieRoots := do
  let tries ← updateTxnAndReceiptTries unit.tries.toTrieState txnInfo.meta txnIdx
  let (tries, _) ← applyDeltasToTrieState keccak tries txnInfo.nodesUsedByTxn
  let state ← updateTrieStateFromWithdrawals (withdrawalsWithHashedAddrs keccak unit.withdrawals)
    tries.state
  return calculateTrieInputHashes keccak { tries with state }

/-- A unit replays to the roots it records when its transaction's entries and delta, then its
withdrawals, apply to its tries and leave those roots. -/
theorem replayUnit_of_apply {txnIdx : Nat} {txnInfo : ProcessedSectionTxnInfo}
    {unit : GenerationInputs} {T₀ T₁ : PartialTrieState} {out : TrieDeltaApplicationOutput}
    {state : PartialTrie}
    (hu : updateTxnAndReceiptTries unit.tries.toTrieState txnInfo.meta txnIdx = .ok T₀)
    (hd : applyDeltasToTrieState keccak T₀ txnInfo.nodesUsedByTxn = .ok (T₁, out))
    (hw : updateTrieStateFromWithdrawals (withdrawalsWithHashedAddrs keccak unit.withdrawals)
      T₁.state = .ok state)
    (hr : unit.trieRootsAfter = ⟨state.hash keccak, T₁.txn.hash keccak, T₁.receipt.hash keccak⟩) :
    replayUnit keccak txnIdx txnInfo unit = .ok unit.trieRootsAfter := by
  simp only [replayUnit, hu, hd, hw, hr, bind, Except.bind, pure, Except.pure,
    calculateTrieInputHashes]

/-- A slot key that every storage-access entry of the account lists. -/
def AccessedSlot (storageAccesses : List (H256 × List Nibbles)) (hAddr : H256) (k : Nibbles) :
    Prop :=
  ∀ e ∈ storageAccesses, e.1 = hAddr → k ∈ e.2

/-- What a transaction's trace must say for its unit to suffice to replay it, which the decoder
does not check: every account the transaction writes, self-destructs or updates the storage
root of is among its accesses, and every slot key it writes is an `AccessedSlot`. -/
structure AccessesCover (nodes : NodesUsedByTxn) : Prop where
  stateWrites : ∀ w ∈ nodes.stateWrites, w.1 ∈ nodes.stateAccesses
  storageRoots : ∀ w ∈ nodes.stateWrites, w.2.storageTrieChange = true →
    w.1 ∈ nodes.storageAccesses.map Prod.fst
  storageWrites : ∀ w ∈ nodes.storageWrites, w.1 ∈ nodes.storageAccesses.map Prod.fst ∧
    ∀ s ∈ w.2, AccessedSlot nodes.storageAccesses w.1 (slotKey keccak s.1)
  selfDestructs : ∀ hAddr ∈ nodes.selfDestructedAccounts,
    hAddr ∈ nodes.stateAccesses ∧ hAddr ∈ nodes.storageAccesses.map Prod.fst

instance (storageAccesses : List (H256 × List Nibbles)) (hAddr : H256) (k : Nibbles) :
    Decidable (AccessedSlot storageAccesses hAddr k) :=
  inferInstanceAs (Decidable (∀ e ∈ storageAccesses, e.1 = hAddr → k ∈ e.2))

instance (nodes : NodesUsedByTxn) : Decidable (AccessesCover keccak nodes) :=
  decidable_of_iff ((∀ w ∈ nodes.stateWrites, w.1 ∈ nodes.stateAccesses) ∧
      (∀ w ∈ nodes.stateWrites, w.2.storageTrieChange = true →
        w.1 ∈ nodes.storageAccesses.map Prod.fst) ∧
      (∀ w ∈ nodes.storageWrites, w.1 ∈ nodes.storageAccesses.map Prod.fst ∧
        ∀ s ∈ w.2, AccessedSlot nodes.storageAccesses w.1 (slotKey keccak s.1)) ∧
      ∀ hAddr ∈ nodes.selfDestructedAccounts,
        hAddr ∈ nodes.stateAccesses ∧ hAddr ∈ nodes.storageAccesses.map Prod.fst)
    ⟨fun ⟨a, b, c, d⟩ => ⟨a, b, c, d⟩, fun ⟨a, b, c, d⟩ => ⟨a, b, c, d⟩⟩

namespace TrieDeltaApplicationOutput

def storagePaths (out : TrieDeltaApplicationOutput) (hAddr : H256) : List Nibbles :=
  (out.additionalStorageTriePathsToNotHash.lookup hAddr).getD []

/-- `out'` records every path `out` records. -/
structure Extends (out out' : TrieDeltaApplicationOutput) : Prop where
  state : out.additionalStateTriePathsToNotHash ⊆ out'.additionalStateTriePathsToNotHash
  storage : ∀ hAddr, out.storagePaths hAddr ⊆ out'.storagePaths hAddr

variable {out out' out'' : TrieDeltaApplicationOutput}

theorem Extends.refl (out : TrieDeltaApplicationOutput) : out.Extends out :=
  ⟨List.Subset.refl _, fun _ => List.Subset.refl _⟩

theorem Extends.trans (h : out.Extends out') (h' : out'.Extends out'') : out.Extends out'' :=
  ⟨h.1.trans h'.1, fun hAddr => (h.2 hAddr).trans (h'.2 hAddr)⟩

theorem storagePaths_pushStoragePath (out : TrieDeltaApplicationOutput) (hAddr hAddr' : H256)
    (p : Nibbles) : (out.pushStoragePath hAddr p).storagePaths hAddr' =
      if hAddr' = hAddr then out.storagePaths hAddr ++ [p] else out.storagePaths hAddr' := by
  by_cases he : hAddr' = hAddr
  · subst he
    simp [storagePaths, pushStoragePath]
  · simp [storagePaths, pushStoragePath, AList.lookup_insert_ne he, he]

theorem mem_storagePaths_pushStoragePath (out : TrieDeltaApplicationOutput) (hAddr : H256)
    (p : Nibbles) : p ∈ (out.pushStoragePath hAddr p).storagePaths hAddr := by
  simp [storagePaths_pushStoragePath]

theorem extends_pushStoragePath (out : TrieDeltaApplicationOutput) (hAddr : H256) (p : Nibbles) :
    out.Extends (out.pushStoragePath hAddr p) := by
  refine ⟨List.Subset.refl _, fun hAddr' => ?_⟩
  rw [storagePaths_pushStoragePath]
  split
  · subst_vars
    exact List.subset_append_left _ _
  · exact List.Subset.refl _

theorem extends_pushStatePath (out : TrieDeltaApplicationOutput) (p : Nibbles) :
    out.Extends (out.pushStatePath p) :=
  ⟨List.subset_append_left _ _, fun _ => List.Subset.refl _⟩

theorem extends_getD_map {f : Nibbles → TrieDeltaApplicationOutput}
    (hf : ∀ p, out.Extends (f p)) (r : Option Nibbles) : out.Extends ((r.map f).getD out) := by
  cases r with
  | none => exact .refl out
  | some p => exact hf p

/-- A fold whose every step extends its output extends it. -/
theorem extends_foldlM {α β : Type} {f : β → α → Except Failure β}
    (o : β → TrieDeltaApplicationOutput) (hf : ∀ b x b', f b x = .ok b' → (o b).Extends (o b'))
    {xs : List α} {b b' : β} (h : xs.foldlM f b = .ok b') : (o b).Extends (o b') :=
  foldlM_invariant (fun c _ => (o b).Extends (o c)) h (.refl _)
    fun _ _ _ _ hb hs => hb.trans (hf _ _ _ hs)

end TrieDeltaApplicationOutput

theorem extends_applyStorageWrite {hAddr : H256}
    {acc acc' : PartialTrie × TrieDeltaApplicationOutput} {write : Nibbles × Bytes}
    (h : applyStorageWrite keccak hAddr acc write = .ok acc') : acc.2.Extends acc'.2 := by
  rcases applyStorageWrite_eq_ok keccak h with ⟨-, -, e⟩ | ⟨-, r, -, e⟩
  · exact e ▸ .refl _
  · exact e ▸ TrieDeltaApplicationOutput.extends_getD_map
      (TrieDeltaApplicationOutput.extends_pushStoragePath _ hAddr) r

theorem extends_applyAccountStorageWrites
    {acc acc' : AList (fun _ : H256 => PartialTrie) × TrieDeltaApplicationOutput}
    {writes : H256 × List (Nibbles × Bytes)}
    (h : applyAccountStorageWrites keccak acc writes = .ok acc') : acc.2.Extends acc'.2 := by
  obtain ⟨_, _, -, hf, -⟩ := applyAccountStorageWrites_eq_ok keccak h
  exact TrieDeltaApplicationOutput.extends_foldlM Prod.snd
    (fun _ _ _ => extends_applyStorageWrite keccak) hf

theorem extends_applySelfDestruct
    {acc acc' : AList (fun _ : H256 => PartialTrie) × PartialTrie × TrieDeltaApplicationOutput}
    {hAddr : H256} (h : applySelfDestruct acc hAddr = .ok acc') : acc.2.2.Extends acc'.2.2 := by
  obtain ⟨-, -, r, -, e⟩ := applySelfDestruct_eq_ok h
  exact e ▸ TrieDeltaApplicationOutput.extends_getD_map
    (TrieDeltaApplicationOutput.extends_pushStatePath _) r

theorem extends_foldlM_applyAccountStorageWrites {writes : List (H256 × List (Nibbles × Bytes))}
    {acc acc' : AList (fun _ : H256 => PartialTrie) × TrieDeltaApplicationOutput}
    (h : writes.foldlM (applyAccountStorageWrites keccak) acc = .ok acc') : acc.2.Extends acc'.2 :=
  TrieDeltaApplicationOutput.extends_foldlM Prod.snd
    (fun _ _ _ => extends_applyAccountStorageWrites keccak) h

theorem extends_foldlM_applySelfDestruct {xs : List H256}
    {acc acc' : AList (fun _ : H256 => PartialTrie) × PartialTrie × TrieDeltaApplicationOutput}
    (h : xs.foldlM applySelfDestruct acc = .ok acc') : acc.2.2.Extends acc'.2.2 :=
  TrieDeltaApplicationOutput.extends_foldlM (fun b => b.2.2)
    (fun _ _ _ => extends_applySelfDestruct) h

/-- The state keys a transaction's unit keeps readable: its accessed accounts, then the paths its
delta reported. -/
def unitStateKeys (nodes : NodesUsedByTxn) (out : TrieDeltaApplicationOutput) : List Nibbles :=
  nodes.stateAccesses.map Nibbles.fromH256Be ++ out.additionalStateTriePathsToNotHash

/-- The slot keys of an account that a transaction's unit keeps readable: those every
storage-access entry of the account lists, and the paths its delta reported for the account. -/
def UnitSlot (nodes : NodesUsedByTxn) (out : TrieDeltaApplicationOutput) (hAddr : H256)
    (k : Nibbles) : Prop :=
  AccessedSlot nodes.storageAccesses hAddr k ∨ k ∈ out.storagePaths hAddr

theorem applyStorageWrite_of_insert {hAddr : H256} {acc : PartialTrie × TrieDeltaApplicationOutput}
    {write : Nibbles × Bytes} {t : PartialTrie} (hz : write.2 ≠ zeroStorageSlotValRlped)
    (hi : acc.1.insert (slotKey keccak write.1) write.2 = .ok t) :
    applyStorageWrite keccak hAddr acc write = .ok (t, acc.2) := by
  have hb : (write.2 == zeroStorageSlotValRlped) = false := by simpa using hz
  simp only [applyStorageWrite, hb, hi]

theorem applyStorageWrite_of_deleteNode {hAddr : H256}
    {acc : PartialTrie × TrieDeltaApplicationOutput} {write : Nibbles × Bytes} {t : PartialTrie}
    {r : Option Nibbles} (hz : write.2 = zeroStorageSlotValRlped)
    (hd : acc.1.deleteNodeAndReportRemainingKeyIfBranchCollapsed (slotKey keccak write.1) =
      .ok (t, r)) :
    applyStorageWrite keccak hAddr acc write =
      .ok (t, (r.map (acc.2.pushStoragePath hAddr)).getD acc.2) := by
  have hb : (write.2 == zeroStorageSlotValRlped) = true := by simpa using hz
  simp only [applyStorageWrite, hb, hd, bind, Except.bind]
  cases r <;> rfl

/-- A storage write on a copy that keeps readable the slot and every path the write records. -/
theorem applyStorageWrite_simulate {hAddr : H256} {keys : Nibbles → Prop}
    {acc acc₁ acc' : PartialTrie × TrieDeltaApplicationOutput} {write : Nibbles × Bytes}
    (hc : TrieCopy keccak keys acc.1 acc'.1) (hk : keys (slotKey keccak write.1))
    (h : applyStorageWrite keccak hAddr acc write = .ok acc₁)
    (hout : ∀ p ∈ acc₁.2.storagePaths hAddr, keys p) :
    ∃ acc₁', applyStorageWrite keccak hAddr acc' write = .ok acc₁' ∧
      TrieCopy keccak keys acc₁.1 acc₁'.1 := by
  rcases applyStorageWrite_eq_ok keccak h with ⟨hz, hi, -⟩ | ⟨hz, r, hd, e⟩
  · obtain ⟨t', hi', hc'⟩ := hc.insert hk hi
    exact ⟨_, applyStorageWrite_of_insert keccak hz hi', hc'⟩
  · obtain ⟨t', hd', hc'⟩ := hc.deleteNode hk hd fun p hp => hout p (by
      obtain rfl : r = some p := hp
      exact e ▸ TrieDeltaApplicationOutput.mem_storagePaths_pushStoragePath _ _ _)
    exact ⟨_, applyStorageWrite_of_deleteNode keccak hz hd', hc'⟩

theorem applyAccountStorageWrites_of_lookup
    {acc : AList (fun _ : H256 => PartialTrie) × TrieDeltaApplicationOutput}
    {writes : H256 × List (Nibbles × Bytes)} {t t₁ : PartialTrie} {out : TrieDeltaApplicationOutput}
    (hl : acc.1.lookup writes.1 = some t)
    (hf : writes.2.foldlM (applyStorageWrite keccak writes.1) (t, acc.2) = .ok (t₁, out)) :
    applyAccountStorageWrites keccak acc writes = .ok (acc.1.insert writes.1 t₁, out) := by
  simp only [applyAccountStorageWrites, hl, hf, bind, Except.bind, pure, Except.pure]

theorem applyAccountStorageWrites_simulate {accts : List H256} {keys : H256 → Nibbles → Prop}
    {acc acc₁ acc' : AList (fun _ : H256 => PartialTrie) × TrieDeltaApplicationOutput}
    {writes : H256 × List (Nibbles × Bytes)} (hc : StorageCopy keccak accts keys acc.1 acc'.1)
    (hw : writes.1 ∈ accts ∧ ∀ s ∈ writes.2, keys writes.1 (slotKey keccak s.1))
    (h : applyAccountStorageWrites keccak acc writes = .ok acc₁)
    (hout : ∀ p ∈ acc₁.2.storagePaths writes.1, keys writes.1 p) :
    ∃ acc₁', applyAccountStorageWrites keccak acc' writes = .ok acc₁' ∧
      StorageCopy keccak accts keys acc₁.1 acc₁'.1 := by
  obtain ⟨t, t₁, hl, hf, e⟩ := applyAccountStorageWrites_eq_ok keccak h
  obtain ⟨hs, hcp⟩ := hc _ hw.1
  rw [hl, Option.isSome_some] at hs
  obtain ⟨t', hl'⟩ := Option.isSome_iff_exists.mp hs
  obtain ⟨⟨t₁', o₁'⟩, hf', hc₁⟩ : ∃ c, writes.2.foldlM (applyStorageWrite keccak writes.1)
      (t', acc'.2) = .ok c ∧ TrieCopy keccak (keys writes.1) t₁ c.1 :=
    foldlM_simulate_rest (fun b c => TrieCopy keccak (keys writes.1) b.1 c.1) hf
      (hcp t t' hl hl') hw.2 fun _ _ _ _ _ hR hx hb hrest =>
        applyStorageWrite_simulate keccak hR hx hb fun p hp => hout p
          ((TrieDeltaApplicationOutput.extends_foldlM Prod.snd
            (fun _ _ _ => extends_applyStorageWrite keccak) hrest).storage _ hp)
  refine ⟨_, applyAccountStorageWrites_of_lookup keccak hl' hf', fun hAddr hA => ?_⟩
  rw [e]
  by_cases he : hAddr = writes.1
  · subst he
    simp only [AList.lookup_insert, Option.isSome_some, Option.some.injEq, true_and]
    rintro _ _ rfl rfl
    exact hc₁
  · simp only [AList.lookup_insert_ne he]
    exact hc hAddr hA

theorem StateTrieWrites.applyWritesToStateNode_congr {w : StateTrieWrites} {a : AccountRlp}
    {hAddr : H256} {storage storage' : AList fun _ : H256 => PartialTrie}
    (h : w.storageTrieChange = true → (storage'.lookup hAddr).map (PartialTrie.hash keccak) =
      (storage.lookup hAddr).map (PartialTrie.hash keccak)) :
    w.applyWritesToStateNode keccak a hAddr storage' = w.applyWritesToStateNode keccak a hAddr storage := by
  unfold StateTrieWrites.applyWritesToStateNode
  cases hc : w.storageTrieChange
  · rfl
  · have he := h hc
    cases hl : storage.lookup hAddr <;> cases hl' : storage'.lookup hAddr <;>
      simp only [hl, hl', Option.map_none', Option.map_some', Option.some.injEq] at he ⊢
    · cases he
    · cases he
    · rw [he]

theorem applyStateWrite_simulate {accts : List H256} {keys : H256 → Nibbles → Prop}
    {stateKeys : Nibbles → Prop} {storage storage' : AList fun _ : H256 => PartialTrie}
    {state state₁ state' : PartialTrie} {write : H256 × StateTrieWrites}
    (hS : StorageCopy keccak accts keys storage storage')
    (hc : TrieCopy keccak stateKeys state state')
    (hw : stateKeys (Nibbles.fromH256Be write.1) ∧
      (write.2.storageTrieChange = true → write.1 ∈ accts))
    (h : applyStateWrite keccak storage state write = .ok state₁) :
    ∃ state₁', applyStateWrite keccak storage' state' write = .ok state₁' ∧
      TrieCopy keccak stateKeys state₁ state₁' := by
  obtain ⟨a, a', ha, ha', rfl⟩ := applyStateWrite_eq_ok keccak h
  refine ⟨_, ?_, hc.insertIgnoringResult hw.1 _⟩
  simp only [applyStateWrite, bind_eq_ok]
  refine ⟨a, ?_, a', ?_, rfl⟩
  · rw [hc.get_eq hw.1]
    exact accountFromRlpedBytes_eq_ok.mpr ha
  · rw [StateTrieWrites.applyWritesToStateNode_congr keccak fun hr => hS.map_hash keccak (hw.2 hr)]
    exact ha'

theorem applySelfDestruct_of_deleteNode
    {acc : AList (fun _ : H256 => PartialTrie) × PartialTrie × TrieDeltaApplicationOutput}
    {hAddr : H256} {t : PartialTrie} {r : Option Nibbles} (hl : (acc.1.lookup hAddr).isSome)
    (hd : acc.2.1.deleteNodeAndReportRemainingKeyIfBranchCollapsed (Nibbles.fromH256Be hAddr) =
      .ok (t, r)) :
    applySelfDestruct acc hAddr =
      .ok (acc.1.erase hAddr, t, (r.map acc.2.2.pushStatePath).getD acc.2.2) := by
  obtain ⟨st, hst⟩ := Option.isSome_iff_exists.mp hl
  simp only [applySelfDestruct, hst, hd, bind, Except.bind]
  cases r <;> rfl

/-- A self-destruct on copies that keep readable the account and every path it records. -/
theorem applySelfDestruct_simulate {accts : List H256} {keys : H256 → Nibbles → Prop}
    {stateKeys : Nibbles → Prop}
    {acc acc₁ acc' : AList (fun _ : H256 => PartialTrie) × PartialTrie × TrieDeltaApplicationOutput}
    {hAddr : H256}
    (hc : StorageCopy keccak accts keys acc.1 acc'.1 ∧ TrieCopy keccak stateKeys acc.2.1 acc'.2.1)
    (hA : stateKeys (Nibbles.fromH256Be hAddr) ∧ hAddr ∈ accts)
    (h : applySelfDestruct acc hAddr = .ok acc₁)
    (hout : ∀ p ∈ acc₁.2.2.additionalStateTriePathsToNotHash, stateKeys p) :
    ∃ acc₁', applySelfDestruct acc' hAddr = .ok acc₁' ∧
      StorageCopy keccak accts keys acc₁.1 acc₁'.1 ∧ TrieCopy keccak stateKeys acc₁.2.1 acc₁'.2.1 := by
  obtain ⟨hl, e₁, r, hd, e₂⟩ := applySelfDestruct_eq_ok h
  obtain ⟨t', hd', hc'⟩ := hc.2.deleteNode hA.1 hd fun p hp => hout p (by
    obtain rfl : r = some p := hp
    exact e₂ ▸ List.mem_append_right _ (List.mem_singleton_self p))
  refine ⟨_, applySelfDestruct_of_deleteNode ((hc.1 hAddr hA.2).1.trans hl) hd',
    fun b hb => ?_, hc'⟩
  rw [e₁]
  by_cases he : b = hAddr
  · subst he
    simp only [AList.lookup_erase, Option.isSome_none, true_and]
    exact fun _ _ h => by cases h
  · simp only [AList.lookup_erase_ne he]
    exact hc.1 b hb

theorem applyDeltasToTrieState_of_folds {trieState : PartialTrieState} {deltas : NodesUsedByTxn}
    {storage₁ storage₂ : AList fun _ : H256 => PartialTrie} {out₁ out₂ : TrieDeltaApplicationOutput}
    {state₁ state₂ : PartialTrie}
    (h₁ : deltas.storageWrites.foldlM (applyAccountStorageWrites keccak)
      (trieState.storage, .default) = .ok (storage₁, out₁))
    (h₂ : deltas.stateWrites.foldlM (applyStateWrite keccak storage₁) trieState.state = .ok state₁)
    (h₃ : deltas.selfDestructedAccounts.foldlM applySelfDestruct (storage₁, state₁, out₁) =
      .ok (storage₂, state₂, out₂)) :
    applyDeltasToTrieState keccak trieState deltas =
      .ok ({ trieState with state := state₂, storage := storage₂ }, out₂) := by
  simp only [applyDeltasToTrieState, h₁, h₂, h₃, bind, Except.bind, pure, Except.pure]

theorem updateTxnAndReceiptTries_of_insert (trieState : PartialTrieState) {meta : TxnMetaState}
    {txnIdx : Nat} {txnK : Nibbles} {txn receipt : PartialTrie} (hk : txnKey txnIdx = .ok txnK)
    (h₁ : trieState.txn.insert txnK meta.txnBytes! = .ok txn)
    (h₂ : trieState.receipt.insert txnK meta.receiptNodeBytes = .ok receipt) :
    updateTxnAndReceiptTries trieState meta txnIdx = .ok { trieState with txn, receipt } := by
  simp only [updateTxnAndReceiptTries, hk, insertNode, h₁, h₂, bind, Except.bind, pure,
    Except.pure]

theorem isSome_lookup_seedStorageTries {tries : PartialTrieState}
    {txnInfo : ProcessedSectionTxnInfo} {hAddr : H256}
    (h : hAddr ∈ txnInfo.nodesUsedByTxn.storageAccesses.map Prod.fst) :
    ((seedStorageTries tries txnInfo).storage.lookup hAddr).isSome := by
  rw [seedStorageTries, lookup_initAnyNeededEmptyStorageTries, if_pos h]
  cases tries.storage.lookup hAddr <;> rfl

/-- The storage tries of a unit, keyed by account, copy the storage tries they are cut from, for
the slots each account's storage-access entries list and the paths recorded for the account. -/
theorem storageCopy_createMinimalStoragePartialTries {storage : AList fun _ : H256 => PartialTrie}
    {accesses : List (H256 × List Nibbles)} {extra : AList fun _ : H256 => List Nibbles}
    {subTries : List (H256 × PartialTrie)}
    (h : createMinimalStoragePartialTries keccak storage accesses extra = .ok subTries)
    (hs : ∀ hAddr ∈ accesses.map Prod.fst, (storage.lookup hAddr).isSome) :
    StorageCopy keccak (accesses.map Prod.fst)
      (fun hAddr k => AccessedSlot accesses hAddr k ∨ k ∈ (extra.lookup hAddr).getD []) storage
      (storageMapOf subTries) := by
  obtain ⟨h₁, h₂⟩ := mapM_eq_ok_mem h
  intro hAddr hA
  refine ⟨?_, fun t t' hl hl' => ?_⟩
  · rw [hs hAddr hA]
    apply isSome_lookup_storageMapOf
    obtain ⟨a, ha, rfl⟩ := List.mem_map.mp hA
    obtain ⟨y, hy, hfy⟩ := h₁ a ha
    simp only [bind_eq_ok, orPanic_eq_ok] at hfy
    obtain ⟨_, _, _, _, he⟩ := hfy
    cases he
    exact List.mem_map_of_mem Prod.fst hy
  · obtain ⟨⟨a, slots⟩, ha, hfa⟩ := h₂ _ (mem_of_lookup_storageMapOf hl')
    simp only [bind_eq_ok, orPanic_eq_ok] at hfa
    obtain ⟨st, hst, sub, hsub, he⟩ := hfa
    cases he
    rw [hl, Option.some.injEq] at hst
    subst hst
    exact (trieCopy_of_createTrieSubsetWrapped keccak hsub).mono fun k hk =>
      hk.elim (fun hk => List.mem_append_left _ (hk _ ha rfl)) (List.mem_append_right _)

/-- A successful delta, applied to copies of the tries it started from that keep readable the
keys the transaction accesses and the paths the delta reports, succeeds too and leaves a copy of
the state trie it left; the copies' transaction and receipt tries stay as they were. -/
theorem applyDeltasToTrieState_simulate {nodes : NodesUsedByTxn} (hcov : AccessesCover keccak nodes)
    {trieState trieState₁ : PartialTrieState} {out : TrieDeltaApplicationOutput}
    (h : applyDeltasToTrieState keccak trieState nodes = .ok (trieState₁, out))
    (trieState' : PartialTrieState)
    (hS : StorageCopy keccak (nodes.storageAccesses.map Prod.fst) (UnitSlot nodes out)
      trieState.storage trieState'.storage)
    (hc : TrieCopy keccak (· ∈ unitStateKeys nodes out) trieState.state trieState'.state) :
    ∃ trieState₁' out', applyDeltasToTrieState keccak trieState' nodes = .ok (trieState₁', out') ∧
      TrieCopy keccak (· ∈ unitStateKeys nodes out) trieState₁.state trieState₁'.state ∧
      trieState₁'.txn = trieState'.txn ∧ trieState₁'.receipt = trieState'.receipt := by
  obtain ⟨S₁, o₁, st₁, S₂, st₂, h₁, h₂, h₃, rfl⟩ := applyDeltasToTrieState_eq_ok keccak h
  have ho₁ : o₁.Extends out := extends_foldlM_applySelfDestruct h₃
  obtain ⟨⟨S₁', o₁'⟩, h₁', hS₁⟩ : ∃ c, nodes.storageWrites.foldlM (applyAccountStorageWrites keccak)
      (trieState'.storage, .default) = .ok c ∧ StorageCopy keccak
        (nodes.storageAccesses.map Prod.fst) (UnitSlot nodes out) S₁ c.1 :=
    foldlM_simulate_rest (fun b c => StorageCopy keccak _ _ b.1 c.1) h₁ hS
      (fun w hw => ⟨(hcov.storageWrites w hw).1, fun s hs => .inl ((hcov.storageWrites w hw).2 s hs)⟩)
      fun _ _ _ _ _ hR hx hb hrest => applyAccountStorageWrites_simulate keccak hR hx hb
        fun p hp => .inr (((extends_foldlM_applyAccountStorageWrites keccak hrest).trans
          ho₁).storage _ hp)
  obtain ⟨st₁', h₂', hc₁⟩ : ∃ c, nodes.stateWrites.foldlM (applyStateWrite keccak S₁')
      trieState'.state = .ok c ∧ TrieCopy keccak (· ∈ unitStateKeys nodes out) st₁ c :=
    foldlM_simulate (fun st st' => TrieCopy keccak _ st st') h₂ hc
      (fun w hw => ⟨List.mem_append_left _ (List.mem_map_of_mem _ (hcov.stateWrites w hw)),
        hcov.storageRoots w hw⟩)
      fun _ _ _ _ hR hx hb => applyStateWrite_simulate keccak hS₁ hR hx hb
  have hsd : ∀ x ∈ nodes.selfDestructedAccounts, Nibbles.fromH256Be x ∈ unitStateKeys nodes out ∧
      x ∈ nodes.storageAccesses.map Prod.fst := fun x hx =>
    ⟨List.mem_append_left _ (List.mem_map_of_mem _ (hcov.selfDestructs x hx).1),
      (hcov.selfDestructs x hx).2⟩
  obtain ⟨⟨S₂', st₂', o₂'⟩, h₃', -, hc₂⟩ : ∃ c, nodes.selfDestructedAccounts.foldlM
      applySelfDestruct (S₁', st₁', o₁') = .ok c ∧
        StorageCopy keccak (nodes.storageAccesses.map Prod.fst) (UnitSlot nodes out) S₂ c.1 ∧
        TrieCopy keccak (· ∈ unitStateKeys nodes out) st₂ c.2.1 :=
    foldlM_simulate_rest (fun b c => StorageCopy keccak _ (UnitSlot nodes out) b.1 c.1 ∧
        TrieCopy keccak (· ∈ unitStateKeys nodes out) b.2.1 c.2.1) h₃ ⟨hS₁, hc₁⟩ hsd
      fun _ _ _ _ _ hR hx hb hrest => applySelfDestruct_simulate keccak hR hx hb fun p hp =>
        List.mem_append_right _ ((extends_foldlM_applySelfDestruct hrest).state hp)
  exact ⟨_, _, applyDeltasToTrieState_of_folds keccak h₁' h₂' h₃', hc₂, rfl, rfl⟩

/-- What replaying a unit's transaction on its tries leaves: a copy of the live state trie after
the transaction, for the accounts it accesses, and transaction and receipt tries with the live
roots. -/
theorem processTxnInfo_unit_simulates {txnIdx : Nat} {txnInfo : ProcessedSectionTxnInfo}
    {tries tries' : PartialTrieState} {extraData extraData' : ExtraBlockData}
    {otherData : OtherBlockData} {genInputs : GenerationInputs}
    (hcov : AccessesCover keccak txnInfo.nodesUsedByTxn)
    (h : processTxnInfo keccak txnIdx txnInfo tries extraData otherData =
      .ok (genInputs, tries', extraData')) :
    ∃ T₀ T₁ out, updateTxnAndReceiptTries genInputs.tries.toTrieState txnInfo.meta txnIdx = .ok T₀ ∧
      applyDeltasToTrieState keccak T₀ txnInfo.nodesUsedByTxn = .ok (T₁, out) ∧
      TrieCopy keccak (· ∈ txnInfo.nodesUsedByTxn.stateAccesses.map Nibbles.fromH256Be)
        tries'.state T₁.state ∧
      T₁.txn.hash keccak = tries'.txn.hash keccak ∧ T₁.receipt.hash keccak = tries'.receipt.hash keccak ∧
      genInputs.trieRootsAfter = calculateTrieInputHashes keccak tries' ∧ genInputs.withdrawals = [] := by
  obtain ⟨_, _, _, _, out, sub, -, -, hu, hd, hcut, -, rfl, -⟩ := processTxnInfo_eq_ok keccak h
  obtain ⟨txnK, hK, hst, htx, hrc, hsto⟩ := createMinimalPartialTriesNeededByTxn_eq_ok keccak hcut
  obtain ⟨txnK', txn, receipt, hK', hi₁, hi₂, rfl⟩ := updateTxnAndReceiptTries_eq_ok hu
  obtain rfl : txnK' = txnK := Except.ok.inj (hK'.symm.trans hK)
  obtain ⟨txn', hi₁', htc⟩ :=
    (trieCopy_of_createTrieSubsetWrapped keccak htx).insert (List.mem_singleton_self _) hi₁
  obtain ⟨receipt', hi₂', hrc'⟩ :=
    (trieCopy_of_createTrieSubsetWrapped keccak hrc).insert (List.mem_singleton_self _) hi₂
  rw [createMinimalStatePartialTrie] at hst
  obtain ⟨T, out', hd', hcT, htxn, hrec⟩ := applyDeltasToTrieState_simulate keccak hcov hd
    { sub.toTrieState with txn := txn', receipt := receipt' }
    (storageCopy_createMinimalStoragePartialTries keccak hsto fun _ hA =>
      isSome_lookup_seedStorageTries hA)
    (trieCopy_of_createTrieSubsetWrapped keccak hst)
  obtain ⟨_, _, _, _, _, -, -, -, rfl⟩ := applyDeltasToTrieState_eq_ok keccak hd
  exact ⟨_, T, out', updateTxnAndReceiptTries_of_insert sub.toTrieState hK hi₁' hi₂', hd',
    hcT.mono fun _ hk => List.mem_append_left _ hk,
    by rw [htxn]; exact htc.1.hash_eq, by rw [hrec]; exact hrc'.1.hash_eq, rfl, rfl⟩

/-- A transaction's unit suffices to replay it. Where the trace's accesses cover every key the
transaction writes, its transaction and receipt entries and its delta, applied to the unit's
tries as `process_txn_info` applied them to the live tries, succeed and leave exactly the roots
the unit records as `trie_roots_after`. -/
theorem processTxnInfo_unit_replays {txnIdx : Nat} {txnInfo : ProcessedSectionTxnInfo}
    {tries tries' : PartialTrieState} {extraData extraData' : ExtraBlockData}
    {otherData : OtherBlockData} {genInputs : GenerationInputs}
    (hcov : AccessesCover keccak txnInfo.nodesUsedByTxn)
    (h : processTxnInfo keccak txnIdx txnInfo tries extraData otherData =
      .ok (genInputs, tries', extraData')) :
    replayUnit keccak txnIdx txnInfo genInputs = .ok genInputs.trieRootsAfter := by
  obtain ⟨T₀, T₁, out, hu, hd, hc, htxn, hrec, hr, hw⟩ := processTxnInfo_unit_simulates keccak hcov h
  exact replayUnit_of_apply keccak hu hd (by rw [hw]; rfl)
    (by simp only [hr, calculateTrieInputHashes, hc.1.hash_eq, htxn, hrec])

/-- A transaction that zeroes the slot of `collapseTries` and accesses that slot alone: the delete
collapses the root of the storage trie onto key `[1]`, which the unit keeps readable only because
the delta reported it. -/
def collapseReplayTxn : ProcessedSectionTxnInfo :=
  ⟨⟨[], [], [(3, [slotKey zeroHash []])], [(3, [([], zeroStorageSlotValRlped)])], ∅, []⟩, [],
    ⟨some [1, 2], [3], 21000⟩⟩

set_option maxRecDepth 2000 in
theorem unit_replays_sample :
    AccessesCover zeroHash collapseReplayTxn.nodesUsedByTxn ∧
      ∃ r, processTxnInfo zeroHash 0 collapseReplayTxn collapseTries
          (initialExtraData sampleOtherData) sampleOtherData = .ok r ∧
        replayUnit zeroHash 0 collapseReplayTxn r.1 = .ok r.1.trieRootsAfter :=
  have hcov : AccessesCover zeroHash collapseReplayTxn.nodesUsedByTxn :=
    ⟨nofun, nofun, fun w hw => by
      obtain rfl := List.mem_singleton.mp hw
      refine ⟨List.mem_singleton_self _, fun s hs e he _ => ?_⟩
      obtain rfl := List.mem_singleton.mp hs
      obtain rfl := List.mem_singleton.mp he
      exact List.mem_singleton_self _, nofun⟩
  match h : processTxnInfo zeroHash 0 collapseReplayTxn collapseTries
      (initialExtraData sampleOtherData) sampleOtherData,
    (by decide : (processTxnInfo zeroHash 0 collapseReplayTxn collapseTries
      (initialExtraData sampleOtherData) sampleOtherData).toBool) with
  | .ok (_, _, _), _ => ⟨hcov, _, rfl, processTxnInfo_unit_replays zeroHash hcov h⟩
  | .error _, hb => absurd hb (by simp [Except.toBool])

set_option maxRecDepth 2000 in
/-- Cut for the accesses alone, the unit hashes key `[1]` out, and the delete, collapsing onto
that hash node, fails on it. -/
example : (do
    let (unit, _, _) ← processTxnInfo zeroHash 0 collapseReplayTxn collapseTries
      (initialExtraData sampleOtherData) sampleOtherData
    let tries ← createMinimalPartialTriesNeededByTxn zeroHash
      (seedStorageTries collapseTries collapseReplayTxn) collapseReplayTxn.nodesUsedByTxn 0 .default
    replayUnit zeroHash 0 collapseReplayTxn { unit with tries }).toBool = false := by
  decide

/-! ## Over a block -/

theorem creditWithdrawal_eq_ok {state state' : PartialTrie} {w : Address × H256 × U256}
    (h : creditWithdrawal state w = .ok state') :
    ∃ bytes account balance, state.get (Nibbles.fromH256Be w.2.1) = some bytes ∧
      AccountRlp.decode bytes = .ok account ∧ account.balance.checkedAdd w.2.2 = some balance ∧
      state' = state.insertIgnoringResult (Nibbles.fromH256Be w.2.1)
        { account with balance }.encode := by
  cases hg : state.get (Nibbles.fromH256Be w.2.1) with
  | none =>
    rw [creditWithdrawal_of_get_eq_none hg] at h
    cases h
  | some bytes =>
    cases hd : AccountRlp.decode bytes with
    | error e =>
      rw [creditWithdrawal_of_decode_eq_error hg hd] at h
      cases h
    | ok account =>
      cases hb : account.balance.checkedAdd w.2.2 with
      | none =>
        obtain ⟨addr, hAddr, amt⟩ := w
        simp [creditWithdrawal, hg, accountFromRlpedBytes, hd, hb, orPanic, bind, Except.bind,
          pure, Except.pure] at h
      | some balance =>
        rw [creditWithdrawal_of_decode_eq_ok hg hd hb] at h
        cases h
        exact ⟨_, _, _, rfl, hd, hb, rfl⟩

theorem creditWithdrawal_simulate {keys : Nibbles → Prop} {state state₁ state' : PartialTrie}
    {w : Address × H256 × U256} (hc : TrieCopy keccak keys state state')
    (hk : keys (Nibbles.fromH256Be w.2.1)) (h : creditWithdrawal state w = .ok state₁) :
    ∃ state₁', creditWithdrawal state' w = .ok state₁' ∧ TrieCopy keccak keys state₁ state₁' := by
  obtain ⟨bytes, account, balance, hg, hd, hb, rfl⟩ := creditWithdrawal_eq_ok h
  exact ⟨_, creditWithdrawal_of_decode_eq_ok ((hc.get_eq hk).trans hg) hd hb,
    hc.insertIgnoringResult hk _⟩

/-- The last unit of a block, rewritten by the withdrawals, suffices to replay its transaction
and then the withdrawals, where the transaction is signed and its accesses cover the keys it
writes and the withdrawals' recipients. -/
theorem processTxns_last_unit_replays {pre : List ProcessedSectionTxnInfo}
    {txnInfo : ProcessedSectionTxnInfo} {tries : PartialTrieState}
    {withdrawals : List (Address × U256)} {otherData : OtherBlockData} {ir : List GenerationInputs}
    (h : processTxns keccak (pre ++ [txnInfo]) tries withdrawals otherData = .ok ir)
    (hne : withdrawals ≠ []) (hsigned : txnInfo.meta.txnBytes ≠ none)
    (hcov : AccessesCover keccak txnInfo.nodesUsedByTxn)
    (hw : ∀ w ∈ withdrawals, keccak w.1.asBytes ∈ txnInfo.nodesUsedByTxn.stateAccesses) :
    ∃ unit, ir.getLast? = some unit ∧
      replayUnit keccak pre.length txnInfo unit = .ok unit.trieRootsAfter := by
  obtain ⟨_, tries', _, ds, hloop, -, -, hW⟩ := processTxns_eq_ok_units keccak h
  obtain ⟨ir₁, _, _, _, -, hl₂, rfl⟩ := processTxnsLoop_append_eq_ok keccak hloop
  obtain ⟨u, _, _, _, hu, hnil, rfl⟩ := processTxnsLoop_cons_eq_ok keccak hl₂
  simp only [processTxnsLoop_nil, Except.ok.injEq, Prod.mk.injEq] at hnil
  obtain ⟨rfl, rfl, rfl⟩ := hnil
  rw [Nat.zero_add] at hu
  obtain ⟨T₀, T₁, _, hu', hd, hc, htxn, hrec, hr, -⟩ := processTxnInfo_unit_simulates keccak hcov hu
  obtain ⟨_, _, hadd⟩ := hW.resolve_left fun hw => hne hw.1
  obtain ⟨_, _, state, hl, -, hst, hcred, rfl, -⟩ := addWithdrawalsToTxns_eq_ok keccak hadd
  have hlast : (ds ++ (ir₁ ++ [u])).getLast? = some u := by simp
  rw [hlast, Option.some.injEq] at hl
  subst hl
  obtain rfl := hst (by rw [(processTxnInfo_fields hu).1]; exact hsigned)
  obtain ⟨state', hcred', hcs⟩ : ∃ state', updateTrieStateFromWithdrawals
      (withdrawalsWithHashedAddrs keccak withdrawals) T₁.state = .ok state' ∧
      TrieCopy keccak (· ∈ txnInfo.nodesUsedByTxn.stateAccesses.map Nibbles.fromH256Be)
        state state' :=
    foldlM_simulate (fun s s' => TrieCopy keccak _ s s') hcred hc
      (fun _ hx => by
        obtain ⟨w, hw', rfl⟩ := List.mem_map.mp hx
        exact List.mem_map_of_mem _ (hw w hw'))
      fun _ _ _ _ hR hx hb => creditWithdrawal_simulate keccak hR hx hb
  exact ⟨_, List.getLast?_concat _, replayUnit_of_apply keccak hu' hd hcred'
    (by simp only [hr, calculateTrieInputHashes, hcs.1.hash_eq, htxn, hrec])⟩

/-- A transaction's unit that the withdrawals leave as `process_txn_info` cut it, a unit before
the last or any unit of a block without withdrawals, suffices to replay the transaction. -/
theorem processTxns_kept_unit_replays {txns : List ProcessedSectionTxnInfo}
    {tries : PartialTrieState} {withdrawals : List (Address × U256)} {otherData : OtherBlockData}
    {us : List GenerationInputs} (h : processTxns keccak txns tries withdrawals otherData = .ok us)
    {k : Nat} (hk : k < txns.length) (hcov : AccessesCover keccak txns[k].nodesUsedByTxn)
    (hkept : k + 1 < txns.length ∨ withdrawals = []) :
    ∃ u, us[k + (2 - txns.length)]? = some u ∧
      replayUnit keccak k txns[k] u = .ok u.trieRootsAfter := by
  obtain ⟨ir, _, _, ds, hloop, hlen, -, hus, hpos⟩ := processTxns_getElem? keccak h
  have hir := processTxnsLoop_length hloop
  rw [← List.take_append_drop k txns, List.drop_eq_getElem_cons hk] at hloop
  obtain ⟨ir₁, _, _, _, hl₁, hl₂, rfl⟩ := processTxnsLoop_append_eq_ok keccak hloop
  obtain ⟨v, _, _, ir₂, hv, -, rfl⟩ := processTxnsLoop_cons_eq_ok keccak hl₂
  have hk₁ : ir₁.length = k := by rw [processTxnsLoop_length hl₁, List.length_take]; omega
  have hpv : (ds ++ (ir₁ ++ v :: ir₂))[k + (2 - txns.length)]? = some v := by
    rw [List.getElem?_append_right (by omega), List.getElem?_append_right (by omega)]
    simp [hlen, hk₁]
  obtain ⟨u, hu⟩ : ∃ u, us[k + (2 - txns.length)]? = some u :=
    ⟨_, List.getElem?_eq_getElem (by omega)⟩
  obtain ⟨_, hv', hleave, hkeep⟩ := hpos _ u hu
  rw [hpv, Option.some.injEq] at hv'
  subst hv'
  obtain rfl : u = v := by
    rcases hkept with hlt | rfl
    · exact hkeep (by omega)
    · rcases hleave with rfl | ⟨_, _, hne, -⟩
      · rfl
      · exact absurd rfl hne
  rw [Nat.zero_add, List.length_take, Nat.min_eq_left hk.le] at hv
  obtain ⟨T₀, T₁, _, hu', hd, hc, htxn, hrec, hr, hw⟩ := processTxnInfo_unit_simulates keccak hcov hv
  exact ⟨u, hu, replayUnit_of_apply keccak hu' hd (by rw [hw]; rfl)
    (by simp only [hr, calculateTrieInputHashes, hc.1.hash_eq, htxn, hrec])⟩

/-- Every transaction's unit of a block suffices to replay it. Where a transaction's accesses
cover the keys it writes, its entries and delta applied to its unit's tries succeed and leave
exactly the roots the unit records; for the last unit of a block with withdrawals this holds,
withdrawals included, when the transaction is signed and its accesses also cover the
withdrawals' recipients. -/
theorem processTxns_units_replay {txns : List ProcessedSectionTxnInfo}
    {tries : PartialTrieState} {withdrawals : List (Address × U256)} {otherData : OtherBlockData}
    {us : List GenerationInputs} (h : processTxns keccak txns tries withdrawals otherData = .ok us)
    (k : Nat) (hk : k < txns.length) (hcov : AccessesCover keccak txns[k].nodesUsedByTxn)
    (hlast : k + 1 = txns.length → withdrawals ≠ [] → txns[k].meta.txnBytes ≠ none ∧
      ∀ w ∈ withdrawals, keccak w.1.asBytes ∈ txns[k].nodesUsedByTxn.stateAccesses) :
    ∃ u, us[k + (2 - txns.length)]? = some u ∧
      replayUnit keccak k txns[k] u = .ok u.trieRootsAfter := by
  by_cases hkept : k + 1 < txns.length ∨ withdrawals = []
  · exact processTxns_kept_unit_replays keccak h hk hcov hkept
  rw [not_or, not_lt] at hkept
  obtain ⟨hsigned, hw⟩ := hlast (by omega) hkept.2
  obtain ⟨ir, _, _, ds, hloop, hlen, -, hus, -⟩ := processTxns_getElem? keccak h
  have hir := processTxnsLoop_length hloop
  have hsplit : txns.take k ++ [txns[k]] = txns := by
    conv_rhs => rw [← List.take_append_drop k txns, List.drop_eq_getElem_cons hk]
    rw [List.drop_eq_nil_of_le (by omega)]
  obtain ⟨u, hu, hr⟩ := processTxns_last_unit_replays keccak (by rwa [hsplit]) hkept.2 hsigned
    hcov hw
  rw [List.length_take, Nat.min_eq_left hk.le] at hr
  have hi : us.length - 1 = k + (2 - txns.length) := by omega
  exact ⟨u, by rw [← hu, List.getLast?_eq_getElem?, hi], hr⟩

set_option maxRecDepth 2000 in
theorem units_replay_sample :
    ∃ us, processTxns zeroHash [creditedAccountTxn] emptyTrieState [(1, 10)] sampleOtherData =
        .ok us ∧
      ∃ u, us[1]? = some u ∧ replayUnit zeroHash 0 creditedAccountTxn u = .ok u.trieRootsAfter :=
  have hcov : AccessesCover zeroHash creditedAccountTxn.nodesUsedByTxn :=
    ⟨fun _ hw => (List.mem_singleton.mp hw).symm ▸ List.mem_singleton_self _,
      fun _ hw hs => (nomatch (List.mem_singleton.mp hw).symm ▸ hs), nofun, nofun⟩
  have hw : ∀ w ∈ [((1 : Address), (10 : U256))],
      zeroHash w.1.asBytes ∈ creditedAccountTxn.nodesUsedByTxn.stateAccesses :=
    fun _ _ => List.mem_singleton.mpr rfl
  match h : processTxns zeroHash [creditedAccountTxn] emptyTrieState [(1, 10)] sampleOtherData,
    (by decide : (processTxns zeroHash [creditedAccountTxn] emptyTrieState [(1, 10)]
      sampleOtherData).toBool) with
  | .ok us, _ =>
    ⟨us, rfl, processTxns_units_replay zeroHash h 0 (by decide) hcov fun _ _ => ⟨by decide, hw⟩⟩
  | .error _, hb => absurd hb (by simp [Except.toBool])

end ZkEvmTrace
