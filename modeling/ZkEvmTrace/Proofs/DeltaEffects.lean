import ZkEvmTrace.Proofs.Units

/-!
# What a transaction does to the live tries

What the steps of `process_txn_info` and `apply_deltas_to_trie_state` do to the storage map
and the state trie: the seeding of storage tries, the storage writes of each account and the
self-destructs, and from them what a whole delta leaves there. A state write whose insert fails
is dropped without an error. Seeding gives every account whose storage a transaction accesses a
storage trie, so a missing one fails none of its storage writes or storage-root updates.
-/

namespace ZkEvmTrace

variable (keccak : Bytes → H256)

/-- The storage trie seeding gives an account that has none: the hash node of its known root,
or the empty trie. -/
def seededStorageTrie (known : AList fun _ : H256 => H256) (hAddr : H256) : PartialTrie :=
  ((known.lookup hAddr).map .hashNode).getD .empty

theorem lookup_initAnyNeededEmptyStorageTries (storage : AList fun _ : H256 => PartialTrie)
    (accs : List H256) (known : AList fun _ : H256 => H256) (hAddr : H256) :
    (initAnyNeededEmptyStorageTries storage accs known).lookup hAddr =
      (storage.lookup hAddr).or
        (if hAddr ∈ accs then some (seededStorageTrie known hAddr) else none) := by
  induction accs generalizing storage with
  | nil => simp [initAnyNeededEmptyStorageTries]
  | cons a as ih =>
    simp only [initAnyNeededEmptyStorageTries, List.foldl_cons] at ih ⊢
    rw [ih]
    by_cases ha : hAddr = a
    · subst ha
      cases hl : storage.lookup hAddr <;>
        simp [hl, AList.lookup_insert, seededStorageTrie]
    · split <;> simp [AList.lookup_insert_ne ha, ha]

theorem lookup_foldlM_applyAccountStorageWrites {writes : List (H256 × List (Nibbles × Bytes))}
    {acc acc' : AList (fun _ : H256 => PartialTrie) × TrieDeltaApplicationOutput}
    (h : writes.foldlM (applyAccountStorageWrites keccak) acc = .ok acc') (hAddr : H256)
    (hw : ∀ w ∈ writes, w.1 ≠ hAddr) : acc'.1.lookup hAddr = acc.1.lookup hAddr := by
  refine (foldlM_invariant (fun b rest => (∀ w ∈ rest, w.1 ≠ hAddr) ∧
    b.1.lookup hAddr = acc.1.lookup hAddr) h ⟨hw, rfl⟩ ?_).2
  rintro b x xs b' ⟨hrest, hb⟩ hx
  obtain ⟨_, _, -, -, e⟩ := applyAccountStorageWrites_eq_ok keccak hx
  refine ⟨fun w hw => hrest w (List.mem_cons_of_mem x hw), ?_⟩
  rw [e, AList.lookup_insert_ne (hrest x (List.mem_cons_self x xs)).symm, hb]

/-- What storage writes leave at a hashed slot key: the last value written there, nothing where
that value is the zero slot, and the old value where no write goes. -/
def slotValueAfter (writes : List (Nibbles × Bytes)) (key : Nibbles) (old : Option Bytes) :
    Option Bytes :=
  writes.foldl (fun val w => if key = slotKey keccak w.1 then
    (if w.2 = zeroStorageSlotValRlped then none else some w.2) else val) old

theorem slotValueAfter_append (writes writes' : List (Nibbles × Bytes)) (key : Nibbles)
    (old : Option Bytes) : slotValueAfter keccak (writes ++ writes') key old =
      slotValueAfter keccak writes' key (slotValueAfter keccak writes key old) :=
  List.foldl_append _ _ _ _

/-- The storage writes a delta makes to one account, in order. -/
def storageWritesOf (deltas : NodesUsedByTxn) (hAddr : H256) : List (Nibbles × Bytes) :=
  (deltas.storageWrites.filter fun w => w.1 = hAddr).flatMap Prod.snd

theorem get_applyStorageWrite {hAddr : H256} {acc acc' : PartialTrie × TrieDeltaApplicationOutput}
    {write : Nibbles × Bytes} (h : applyStorageWrite keccak hAddr acc write = .ok acc')
    (key : Nibbles) :
    acc'.1.get key = if key = slotKey keccak write.1 then
      (if write.2 = zeroStorageSlotValRlped then none else some write.2) else acc.1.get key := by
  rcases applyStorageWrite_eq_ok keccak h with ⟨hne, hins, -⟩ | ⟨he, r, hd, -⟩
  · rw [PartialTrie.get_insert hins, if_neg hne]
  · rw [PartialTrie.get_deleteNode hd, if_pos he]

theorem get_foldlM_applyStorageWrite {hAddr : H256} {writes : List (Nibbles × Bytes)}
    {acc acc' : PartialTrie × TrieDeltaApplicationOutput}
    (h : writes.foldlM (applyStorageWrite keccak hAddr) acc = .ok acc') (key : Nibbles) :
    acc'.1.get key = slotValueAfter keccak writes key (acc.1.get key) := by
  induction writes generalizing acc with
  | nil => cases h; rfl
  | cons w ws ih =>
    obtain ⟨acc₁, h₁, h₂⟩ := foldlM_cons_eq_ok.mp h
    rw [ih h₂, get_applyStorageWrite keccak h₁]
    rfl

/-- The storage phase of a delta: every account written to had a storage trie, and each storage
trie reads, at every hashed slot key, what the account's writes left there. -/
theorem foldlM_applyAccountStorageWrites_get {writes : List (H256 × List (Nibbles × Bytes))}
    {acc acc' : AList (fun _ : H256 => PartialTrie) × TrieDeltaApplicationOutput}
    (h : writes.foldlM (applyAccountStorageWrites keccak) acc = .ok acc') :
    (∀ w ∈ writes, (acc.1.lookup w.1).isSome) ∧
    ∀ hAddr storageTrie, acc.1.lookup hAddr = some storageTrie → ∃ storageTrie',
      acc'.1.lookup hAddr = some storageTrie' ∧ ∀ key, storageTrie'.get key =
        slotValueAfter keccak ((writes.filter fun w => w.1 = hAddr).flatMap Prod.snd) key
          (storageTrie.get key) := by
  induction writes generalizing acc with
  | nil => cases h; exact ⟨fun _ hw => absurd hw (List.not_mem_nil _), fun _ t ht => ⟨t, ht, fun _ => rfl⟩⟩
  | cons w ws ih =>
    obtain ⟨acc₁, h₁, h₂⟩ := foldlM_cons_eq_ok.mp h
    obtain ⟨t₀, t₁, hl, hf, e⟩ := applyAccountStorageWrites_eq_ok keccak h₁
    obtain ⟨ihs, ihg⟩ := ih h₂
    refine ⟨fun w' hw' => ?_, fun hAddr storageTrie hst => ?_⟩
    · rcases List.mem_cons.mp hw' with rfl | hw'
      · simp [hl]
      · have := ihs w' hw'
        rw [e] at this
        by_cases he : w'.1 = w.1
        · rw [he, hl]; rfl
        · rwa [AList.lookup_insert_ne he] at this
    · by_cases he : hAddr = w.1
      · subst he
        rw [hl, Option.some.injEq] at hst
        subst hst
        obtain ⟨t', ht', hg'⟩ := ihg w.1 t₁ (by rw [e, AList.lookup_insert])
        refine ⟨t', ht', fun key => ?_⟩
        rw [hg', get_foldlM_applyStorageWrite keccak hf, List.filter_cons_of_pos (by simp),
          List.flatMap_cons, slotValueAfter_append]
      · obtain ⟨t', ht', hg'⟩ := ihg hAddr storageTrie (by rw [e, AList.lookup_insert_ne he, hst])
        refine ⟨t', ht', fun key => ?_⟩
        rw [hg', List.filter_cons_of_neg (by simpa using Ne.symm he)]

/-- The last state write a delta makes to an account. -/
def lastStateWrite (deltas : NodesUsedByTxn) (hAddr : H256) : Option StateTrieWrites :=
  ((deltas.stateWrites.filter fun w => w.1 = hAddr).getLast?).map Prod.snd

/-- An account carries what a state write sets: each field the write gives, and the root of the
account's storage trie where the write flags a storage change. -/
def StateWriteHolds (storage : AList fun _ : H256 => PartialTrie) (hAddr : H256)
    (w : StateTrieWrites) (account : AccountRlp) : Prop :=
  (∀ balance, w.balance = some balance → account.balance = balance) ∧
  (∀ nonce, w.nonce = some nonce → account.nonce = nonce) ∧
  (∀ codeHash, w.codeHash = some codeHash → account.codeHash = codeHash) ∧
  (w.storageTrieChange = true → ∃ storageTrie, storage.lookup hAddr = some storageTrie ∧
    account.storageRoot = storageTrie.hash keccak)

section StateWrites

variable {storage : AList fun _ : H256 => PartialTrie} {state state' : PartialTrie}

theorem applyStateWrite_get_isHidden {write : H256 × StateTrieWrites}
    (h : applyStateWrite keccak storage state write = .ok state') (k : Nibbles) :
    (k ≠ Nibbles.fromH256Be write.1 → state'.get k = state.get k) ∧
      state'.isHidden k = state.isHidden k := by
  obtain ⟨_, _, -, -, rfl⟩ := applyStateWrite_eq_ok keccak h
  refine ⟨fun hk => ?_, isHidden_insertIgnoringResult _ _ _ _⟩
  rw [get_insertIgnoringResult, if_neg hk]
  split <;> rfl

theorem applyStateWrite_holds {write : H256 × StateTrieWrites}
    (h : applyStateWrite keccak storage state write = .ok state')
    (hh : state.isHidden (Nibbles.fromH256Be write.1) = false) :
    ∃ account, state'.get (Nibbles.fromH256Be write.1) = some account.encode ∧
      StateWriteHolds keccak storage write.1 write.2 account := by
  obtain ⟨_, _, -, h₂, rfl⟩ := applyStateWrite_eq_ok keccak h
  obtain ⟨_, hroot, -, rfl⟩ := StateTrieWrites.applyWritesToStateNode_eq_ok keccak h₂
  refine ⟨_, by rw [get_insertIgnoringResult, hh, if_neg Bool.false_ne_true, if_pos rfl],
    fun b hb => by simp [updateValIfSome, hb], fun n hn => by simp [updateValIfSome, hn],
    fun c hc => by simp [updateValIfSome, hc], hroot⟩

/-- The state writes change only the keys they write, and hide no key. -/
theorem foldlM_applyStateWrite_get_isHidden {writes : List (H256 × StateTrieWrites)}
    (h : writes.foldlM (applyStateWrite keccak storage) state = .ok state') (k : Nibbles) :
    ((∀ w ∈ writes, k ≠ Nibbles.fromH256Be w.1) → state'.get k = state.get k) ∧
      state'.isHidden k = state.isHidden k := by
  induction writes generalizing state with
  | nil => cases h; exact ⟨fun _ => rfl, rfl⟩
  | cons x xs ih =>
    obtain ⟨s₁, h₁, h₂⟩ := foldlM_cons_eq_ok.mp h
    obtain ⟨hg, hh⟩ := applyStateWrite_get_isHidden keccak h₁ k
    obtain ⟨ihg, ihh⟩ := ih h₂
    exact ⟨fun hk => (ihg fun w hw => hk w (List.mem_cons_of_mem x hw)).trans
      (hg (hk x (List.mem_cons_self x xs))), ihh.trans hh⟩

/-- After the state writes, an account whose key is not behind a hash node carries what the
last write to it sets. -/
theorem foldlM_applyStateWrite_holds {writes : List (H256 × StateTrieWrites)}
    (h : writes.foldlM (applyStateWrite keccak storage) state = .ok state') {hAddr : H256}
    {w : StateTrieWrites}
    (hl : ((writes.filter fun w => w.1 = hAddr).getLast?).map Prod.snd = some w)
    (hh : state.isHidden (Nibbles.fromH256Be hAddr) = false) :
    ∃ account, state'.get (Nibbles.fromH256Be hAddr) = some account.encode ∧
      StateWriteHolds keccak storage hAddr w account := by
  induction writes using List.reverseRecOn generalizing state' with
  | nil => simp at hl
  | append_singleton p x ih =>
    obtain ⟨sp, hp, hx⟩ := foldlM_append_eq_ok.mp h
    obtain ⟨s', hx, hnil⟩ := foldlM_cons_eq_ok.mp hx
    cases hnil
    by_cases hx1 : x.1 = hAddr
    · obtain rfl : w = x.2 := by simpa [List.filter_append, hx1] using hl.symm
      subst hx1
      exact applyStateWrite_holds keccak hx
        (((foldlM_applyStateWrite_get_isHidden keccak hp _).2).trans hh)
    · obtain ⟨a, ha, hholds⟩ := ih hp (by simpa [List.filter_append, hx1] using hl)
      refine ⟨a, ?_, hholds⟩
      rw [(applyStateWrite_get_isHidden keccak hx _).1
        fun e => hx1 (Nibbles.fromH256Be_injective e).symm, ha]

end StateWrites

theorem applySelfDestruct_keeps_absent
    {acc acc' : AList (fun _ : H256 => PartialTrie) × PartialTrie × TrieDeltaApplicationOutput}
    {hashedAddr hAddr : H256} (h : applySelfDestruct acc hashedAddr = .ok acc')
    (habs : acc.1.lookup hAddr = none ∧ acc.2.1.get (Nibbles.fromH256Be hAddr) = none) :
    acc'.1.lookup hAddr = none ∧ acc'.2.1.get (Nibbles.fromH256Be hAddr) = none := by
  obtain ⟨-, h₁, r, h₂, -⟩ := applySelfDestruct_eq_ok h
  rw [h₁, PartialTrie.get_deleteNode h₂]
  by_cases he : hAddr = hashedAddr
  · subst he
    exact ⟨AList.lookup_erase _ _, if_pos rfl⟩
  · rw [AList.lookup_erase_ne he]
    exact ⟨habs.1, by split <;> [rfl; exact habs.2]⟩

/-- After the self-destructs, no self-destructed account has a storage trie or a state entry. -/
theorem foldlM_applySelfDestruct_absent {xs : List H256}
    {acc acc' : AList (fun _ : H256 => PartialTrie) × PartialTrie × TrieDeltaApplicationOutput}
    (h : xs.foldlM applySelfDestruct acc = .ok acc') :
    ∀ hAddr ∈ xs, acc'.1.lookup hAddr = none ∧ acc'.2.1.get (Nibbles.fromH256Be hAddr) = none := by
  induction xs generalizing acc with
  | nil => exact fun _ hx => absurd hx (List.not_mem_nil _)
  | cons x xs ih =>
    obtain ⟨acc₁, h₁, h₂⟩ := foldlM_cons_eq_ok.mp h
    intro hAddr hx
    rcases List.mem_cons.mp hx with rfl | hx
    · obtain ⟨-, e₁, r, e₂, -⟩ := applySelfDestruct_eq_ok h₁
      exact foldlM_invariant (fun b _ => b.1.lookup hAddr = none ∧
          b.2.1.get (Nibbles.fromH256Be hAddr) = none) h₂
        ⟨by rw [e₁, AList.lookup_erase], by rw [PartialTrie.get_deleteNode e₂, if_pos rfl]⟩
        fun _ _ _ _ hb hs => applySelfDestruct_keeps_absent hs hb
    · exact ih h₂ hAddr hx

theorem lookup_foldlM_applySelfDestruct {xs : List H256}
    {acc acc' : AList (fun _ : H256 => PartialTrie) × PartialTrie × TrieDeltaApplicationOutput}
    (h : xs.foldlM applySelfDestruct acc = .ok acc') {hAddr : H256} (hx : hAddr ∉ xs) :
    acc'.1.lookup hAddr = acc.1.lookup hAddr := by
  refine (foldlM_invariant (fun b rest => hAddr ∉ rest ∧ b.1.lookup hAddr = acc.1.lookup hAddr)
    h ⟨hx, rfl⟩ ?_).2
  rintro b x xs b' ⟨hrest, hb⟩ hs
  obtain ⟨-, e, -⟩ := applySelfDestruct_eq_ok hs
  refine ⟨fun hm => hrest (List.mem_cons_of_mem x hm), ?_⟩
  rw [e, AList.lookup_erase_ne fun he => hrest (by rw [he]; exact List.mem_cons_self x xs), hb]

theorem foldlM_applySelfDestruct_get_isHidden {xs : List H256}
    {acc acc' : AList (fun _ : H256 => PartialTrie) × PartialTrie × TrieDeltaApplicationOutput}
    (h : xs.foldlM applySelfDestruct acc = .ok acc') (k : Nibbles) :
    ((∀ hAddr ∈ xs, k ≠ Nibbles.fromH256Be hAddr) → acc'.2.1.get k = acc.2.1.get k) ∧
      acc'.2.1.isHidden k = acc.2.1.isHidden k := by
  induction xs generalizing acc with
  | nil => cases h; exact ⟨fun _ => rfl, rfl⟩
  | cons x xs ih =>
    obtain ⟨acc₁, h₁, h₂⟩ := foldlM_cons_eq_ok.mp h
    obtain ⟨-, -, r, e, -⟩ := applySelfDestruct_eq_ok h₁
    obtain ⟨ihg, ihh⟩ := ih h₂
    refine ⟨fun hk => (ihg fun a ha => hk a (List.mem_cons_of_mem x ha)).trans ?_, ihh.trans ?_⟩
    · rw [PartialTrie.get_deleteNode e, if_neg (hk x (List.mem_cons_self x xs))]
    · rw [PartialTrie.isHidden_deleteNode e]

/-- A self-destructed account ends with no storage trie and no entry in the state trie. -/
theorem applyDeltasToTrieState_self_destructed {trieState trieState' : PartialTrieState}
    {deltas : NodesUsedByTxn} {out : TrieDeltaApplicationOutput}
    (h : applyDeltasToTrieState keccak trieState deltas = .ok (trieState', out)) :
    ∀ hAddr ∈ deltas.selfDestructedAccounts, trieState'.storage.lookup hAddr = none ∧
      trieState'.state.get (Nibbles.fromH256Be hAddr) = none := by
  obtain ⟨_, _, _, _, _, -, -, h₃, rfl⟩ := applyDeltasToTrieState_eq_ok keccak h
  exact foldlM_applySelfDestruct_absent h₃

def storageTries : PartialTrieState :=
  ⟨.empty, (∅ : AList fun _ : H256 => PartialTrie).insert 3 .empty, .empty, .empty⟩

def selfDestructDelta : NodesUsedByTxn := ⟨[], [], [], [], ∅, [3]⟩

theorem self_destructed_sample :
    ∃ r, applyDeltasToTrieState zeroHash storageTries selfDestructDelta = .ok r ∧
      ∀ hAddr ∈ selfDestructDelta.selfDestructedAccounts, r.1.storage.lookup hAddr = none ∧
        r.1.state.get (Nibbles.fromH256Be hAddr) = none :=
  match h : applyDeltasToTrieState zeroHash storageTries selfDestructDelta,
    (by set_option maxRecDepth 4000 in decide :
      (applyDeltasToTrieState zeroHash storageTries selfDestructDelta).toBool) with
  | .ok (t, o), _ => ⟨_, rfl, applyDeltasToTrieState_self_destructed zeroHash h⟩
  | .error _, hb => absurd hb (by simp [Except.toBool])

/-- The storage of a delta: every account it writes storage to had a storage trie, and the
storage trie of every account it does not self-destruct reads, at each hashed slot key, the
last value the delta wrote there (nothing for the zero slot), and the old value elsewhere. -/
theorem applyDeltasToTrieState_storage_slots {trieState trieState' : PartialTrieState}
    {deltas : NodesUsedByTxn} {out : TrieDeltaApplicationOutput}
    (h : applyDeltasToTrieState keccak trieState deltas = .ok (trieState', out)) :
    (∀ w ∈ deltas.storageWrites, (trieState.storage.lookup w.1).isSome) ∧
    ∀ hAddr storageTrie, hAddr ∉ deltas.selfDestructedAccounts →
      trieState.storage.lookup hAddr = some storageTrie → ∃ storageTrie',
        trieState'.storage.lookup hAddr = some storageTrie' ∧ ∀ key, storageTrie'.get key =
          slotValueAfter keccak (storageWritesOf deltas hAddr) key (storageTrie.get key) := by
  obtain ⟨_, _, _, _, _, h₁, -, h₃, rfl⟩ := applyDeltasToTrieState_eq_ok keccak h
  obtain ⟨hs, hg⟩ := foldlM_applyAccountStorageWrites_get keccak h₁
  refine ⟨hs, fun hAddr t hsd hl => ?_⟩
  obtain ⟨t', ht', hg'⟩ := hg hAddr t hl
  exact ⟨t', (lookup_foldlM_applySelfDestruct h₃ hsd).trans ht', hg'⟩

def slotWrites : NodesUsedByTxn := ⟨[], [], [], [(3, [([0, 1], [2])])], ∅, []⟩

theorem storage_slots_sample :
    ∃ r, applyDeltasToTrieState zeroHash storageTries slotWrites = .ok r ∧
      (∀ w ∈ slotWrites.storageWrites, (storageTries.storage.lookup w.1).isSome) ∧
      ∀ hAddr storageTrie, hAddr ∉ slotWrites.selfDestructedAccounts →
        storageTries.storage.lookup hAddr = some storageTrie → ∃ storageTrie',
          r.1.storage.lookup hAddr = some storageTrie' ∧ ∀ key, storageTrie'.get key =
            slotValueAfter zeroHash (storageWritesOf slotWrites hAddr) key (storageTrie.get key) :=
  match h : applyDeltasToTrieState zeroHash storageTries slotWrites,
    (by set_option maxRecDepth 4000 in decide :
      (applyDeltasToTrieState zeroHash storageTries slotWrites).toBool) with
  | .ok (t, o), _ => ⟨_, rfl, applyDeltasToTrieState_storage_slots zeroHash h⟩
  | .error _, hb => absurd hb (by simp [Except.toBool])

/-- The state trie after a delta: keys that no state write and no self-destruct touches read
as before, no key is hidden or revealed, and an account that is not self-destructed and whose
key is not behind a hash node carries what the last state write to it sets. -/
theorem applyDeltasToTrieState_state_writes {trieState trieState' : PartialTrieState}
    {deltas : NodesUsedByTxn} {out : TrieDeltaApplicationOutput}
    (h : applyDeltasToTrieState keccak trieState deltas = .ok (trieState', out)) :
    (∀ k, (∀ w ∈ deltas.stateWrites, k ≠ Nibbles.fromH256Be w.1) →
      (∀ hAddr ∈ deltas.selfDestructedAccounts, k ≠ Nibbles.fromH256Be hAddr) →
      trieState'.state.get k = trieState.state.get k) ∧
    (∀ k, trieState'.state.isHidden k = trieState.state.isHidden k) ∧
    ∀ hAddr w, lastStateWrite deltas hAddr = some w → hAddr ∉ deltas.selfDestructedAccounts →
      trieState.state.isHidden (Nibbles.fromH256Be hAddr) = false → ∃ account,
        trieState'.state.get (Nibbles.fromH256Be hAddr) = some account.encode ∧
        StateWriteHolds keccak trieState'.storage hAddr w account := by
  obtain ⟨_, _, _, _, _, -, h₂, h₃, rfl⟩ := applyDeltasToTrieState_eq_ok keccak h
  refine ⟨fun k hw hs => ((foldlM_applySelfDestruct_get_isHidden h₃ k).1 hs).trans
      ((foldlM_applyStateWrite_get_isHidden keccak h₂ k).1 hw),
    fun k => (foldlM_applySelfDestruct_get_isHidden h₃ k).2.trans
      (foldlM_applyStateWrite_get_isHidden keccak h₂ k).2,
    fun hAddr w hl hsd hh => ?_⟩
  obtain ⟨a, ha, hb, hn, hc, hr⟩ := foldlM_applyStateWrite_holds keccak h₂ hl hh
  refine ⟨a, ((foldlM_applySelfDestruct_get_isHidden h₃ _).1 fun x hx e =>
    hsd (by rw [Nibbles.fromH256Be_injective e]; exact hx)).trans ha, hb, hn, hc, fun hf => ?_⟩
  rw [lookup_foldlM_applySelfDestruct h₃ hsd]
  exact hr hf

def balanceWrite : NodesUsedByTxn := ⟨[], [(3, ⟨some 5, none, false, none⟩)], [], [], ∅, []⟩

theorem state_writes_sample :
    ∃ r, applyDeltasToTrieState zeroHash storageTries balanceWrite = .ok r ∧
      (∀ k, (∀ w ∈ balanceWrite.stateWrites, k ≠ Nibbles.fromH256Be w.1) →
        (∀ hAddr ∈ balanceWrite.selfDestructedAccounts, k ≠ Nibbles.fromH256Be hAddr) →
        r.1.state.get k = storageTries.state.get k) ∧
      (∀ k, r.1.state.isHidden k = storageTries.state.isHidden k) ∧
      ∀ hAddr w, lastStateWrite balanceWrite hAddr = some w →
        hAddr ∉ balanceWrite.selfDestructedAccounts →
        storageTries.state.isHidden (Nibbles.fromH256Be hAddr) = false → ∃ account,
          r.1.state.get (Nibbles.fromH256Be hAddr) = some account.encode ∧
          StateWriteHolds zeroHash r.1.storage hAddr w account :=
  match h : applyDeltasToTrieState zeroHash storageTries balanceWrite,
    (by set_option maxRecDepth 4000 in decide :
      (applyDeltasToTrieState zeroHash storageTries balanceWrite).toBool) with
  | .ok (t, o), _ => ⟨_, rfl, applyDeltasToTrieState_state_writes zeroHash h⟩
  | .error _, hb => absurd hb (by simp [Except.toBool])

/-- Tries whose state trie is only a hash node. -/
def hiddenStateTries : PartialTrieState := ⟨.hashNode 9, ∅, .empty, .empty⟩

/-- The state write behind a hash node is dropped: the deltas apply without error, and the
state trie after them still reads nothing at the account. -/
theorem state_write_dropped :
    (applyDeltasToTrieState zeroHash hiddenStateTries balanceWrite).toOption.map
      (fun r => r.1.state.get (Nibbles.fromH256Be 3)) = some none := by
  decide

/-! ## What seeding provides

`process_txn_info` seeds the storage tries before it applies the deltas. A missing storage
trie is then never what fails a storage write or a storage-root update of an accessed account:
only a self-destruct can still meet one. -/

theorem U512.fromBigEndian_ne_error (bs : Bytes) (e : TraceParsingError) :
    U512.fromBigEndian bs ≠ .error (.error e) := by
  unfold U512.fromBigEndian
  split <;> nofun

theorem applyStorageWrite_eq_error {hAddr : H256} {acc : PartialTrie × TrieDeltaApplicationOutput}
    {write : Nibbles × Bytes} {e : TraceParsingError}
    (h : applyStorageWrite keccak hAddr acc write = traceError e) :
    ∃ err, e.reason = .trieOpError err := by
  unfold applyStorageWrite at h
  dsimp only at h
  split at h
  · split at h
    · cases h
    · rename_i err _
      obtain h | ⟨_, -, h⟩ := bind_eq_error.mp h
      · exact absurd h (U512.fromBigEndian_ne_error _ e)
      obtain h | ⟨_, -, h⟩ := bind_eq_error.mp h
      · exact absurd h (U512.fromBigEndian_ne_error _ e)
      cases h
      exact ⟨err, rfl⟩
  · obtain h | ⟨_, -, h⟩ := bind_eq_error.mp h
    · exact absurd h (PartialTrie.deleteNode_ne_error _ _ e)
    · split at h <;> cases h

theorem applyAccountStorageWrites_eq_error
    {acc : AList (fun _ : H256 => PartialTrie) × TrieDeltaApplicationOutput}
    {writes : H256 × List (Nibbles × Bytes)} {e : TraceParsingError} {hAddr : H256}
    (h : applyAccountStorageWrites keccak acc writes = traceError e)
    (he : e.reason = .missingAccountStorageTrie hAddr) : acc.1.lookup hAddr = none := by
  unfold applyAccountStorageWrites at h
  split at h <;> rename_i hl
  · cases h
    cases he
    exact hl
  · obtain h | ⟨_, -, h⟩ := bind_eq_error.mp h
    · obtain ⟨err, hr⟩ := foldlM_eq_error (fun _ => True)
        (fun f => ∀ e, f = .error e → ∃ err, e.reason = .trieOpError err)
        (fun _ _ _ _ _ => trivial)
        (fun _ _ _ _ hx _ he' => applyStorageWrite_eq_error keccak (he' ▸ hx)) trivial h e rfl
      rw [he] at hr
      cases hr
    · cases h

theorem isSome_lookup_applyAccountStorageWrites
    {acc acc' : AList (fun _ : H256 => PartialTrie) × TrieDeltaApplicationOutput}
    {writes : H256 × List (Nibbles × Bytes)}
    (h : applyAccountStorageWrites keccak acc writes = .ok acc') {hAddr : H256}
    (hl : (acc.1.lookup hAddr).isSome) : (acc'.1.lookup hAddr).isSome := by
  obtain ⟨_, _, -, -, e⟩ := applyAccountStorageWrites_eq_ok keccak h
  rw [e]
  by_cases ha : hAddr = writes.1
  · rw [ha, AList.lookup_insert]
    rfl
  · rwa [AList.lookup_insert_ne ha]

theorem isSome_lookup_foldlM_applyAccountStorageWrites
    {writes : List (H256 × List (Nibbles × Bytes))}
    {acc acc' : AList (fun _ : H256 => PartialTrie) × TrieDeltaApplicationOutput}
    (h : writes.foldlM (applyAccountStorageWrites keccak) acc = .ok acc') {hAddr : H256}
    (hl : (acc.1.lookup hAddr).isSome) : (acc'.1.lookup hAddr).isSome :=
  foldlM_invariant (fun b _ => (b.1.lookup hAddr).isSome) h hl
    fun _ _ _ _ hb hx => isSome_lookup_applyAccountStorageWrites keccak hx hb

/-- The storage-write phase raises the missing-trie error only for an account that had no
storage trie when it began. -/
theorem foldlM_applyAccountStorageWrites_eq_error
    {writes : List (H256 × List (Nibbles × Bytes))}
    {acc : AList (fun _ : H256 => PartialTrie) × TrieDeltaApplicationOutput}
    {e : TraceParsingError} {hAddr : H256}
    (h : writes.foldlM (applyAccountStorageWrites keccak) acc = traceError e)
    (he : e.reason = .missingAccountStorageTrie hAddr) : acc.1.lookup hAddr = none := by
  by_contra hn
  exact foldlM_eq_error (fun b => (b.1.lookup hAddr).isSome)
    (fun f => ∀ e, f = .error e → e.reason ≠ .missingAccountStorageTrie hAddr)
    (fun _ _ _ hb hx => isSome_lookup_applyAccountStorageWrites keccak hx hb)
    (fun _ _ _ hb hx e he' hr => Option.ne_none_iff_isSome.mpr hb
      (applyAccountStorageWrites_eq_error keccak (he' ▸ hx) hr))
    (Option.ne_none_iff_isSome.mp hn) h e rfl he

theorem StateTrieWrites.applyWritesToStateNode_eq_error {w : StateTrieWrites}
    {stateNode : AccountRlp} {hAddr a : H256} {accStorageTries : AList fun _ : H256 => PartialTrie}
    {e : TraceParsingError}
    (h : w.applyWritesToStateNode keccak stateNode hAddr accStorageTries = traceError e)
    (he : e.reason = .missingAccountStorageTrie a) : accStorageTries.lookup a = none := by
  unfold StateTrieWrites.applyWritesToStateNode at h
  split at h
  · cases h
  · split at h <;> rename_i hl
    · cases h
      cases he
      exact hl
    · cases h

theorem applyStateWrite_eq_error {storage : AList fun _ : H256 => PartialTrie}
    {state : PartialTrie} {write : H256 × StateTrieWrites} {e : TraceParsingError} {hAddr : H256}
    (h : applyStateWrite keccak storage state write = traceError e)
    (he : e.reason = .missingAccountStorageTrie hAddr) : storage.lookup hAddr = none := by
  obtain h | ⟨_, -, h⟩ := bind_eq_error.mp h
  · unfold accountFromRlpedBytes at h
    split at h <;> cases h
    cases he
  obtain h | ⟨_, -, h⟩ := bind_eq_error.mp h
  · exact StateTrieWrites.applyWritesToStateNode_eq_error keccak h he
  · cases h

theorem foldlM_applyStateWrite_eq_error {storage : AList fun _ : H256 => PartialTrie}
    {writes : List (H256 × StateTrieWrites)} {state : PartialTrie} {e : TraceParsingError}
    {hAddr : H256} (h : writes.foldlM (applyStateWrite keccak storage) state = traceError e)
    (he : e.reason = .missingAccountStorageTrie hAddr) : storage.lookup hAddr = none :=
  foldlM_eq_error (fun _ => True)
    (fun f => ∀ e, f = .error e → e.reason = .missingAccountStorageTrie hAddr →
      storage.lookup hAddr = none) (fun _ _ _ _ _ => trivial)
    (fun _ _ _ _ hx _ he' => applyStateWrite_eq_error keccak (he' ▸ hx)) trivial h e rfl he

/-- The seeding step of `process_txn_info`: every account whose storage the transaction
accesses ends with a storage trie; a storage trie that exists stays as it is; a new one is the
hash node of the account's known root, or the empty trie; no other account is touched. On the
tries it hands to `apply_deltas_to_trie_state`, a missing storage trie of an accessed account
fails neither a storage write nor a storage-root update: both phases succeed, and the error is a
self-destruct's. -/
theorem seedStorageTries_storage_tries (tries : PartialTrieState)
    (txnInfo : ProcessedSectionTxnInfo) :
    (∀ hAddr ∈ txnInfo.nodesUsedByTxn.storageAccesses.map Prod.fst,
      ((seedStorageTries tries txnInfo).storage.lookup hAddr).isSome) ∧
    (∀ hAddr storageTrie, tries.storage.lookup hAddr = some storageTrie →
      (seedStorageTries tries txnInfo).storage.lookup hAddr = some storageTrie) ∧
    (∀ hAddr ∈ txnInfo.nodesUsedByTxn.storageAccesses.map Prod.fst,
      tries.storage.lookup hAddr = none →
      (seedStorageTries tries txnInfo).storage.lookup hAddr = some (seededStorageTrie
        txnInfo.nodesUsedByTxn.stateAccountsWithNoAccessesButStorageTries hAddr)) ∧
    (∀ hAddr ∉ txnInfo.nodesUsedByTxn.storageAccesses.map Prod.fst,
      (seedStorageTries tries txnInfo).storage.lookup hAddr = tries.storage.lookup hAddr) ∧
    ∀ txnIdx tries₁ e hAddr,
      updateTxnAndReceiptTries (seedStorageTries tries txnInfo) txnInfo.meta txnIdx =
        .ok tries₁ →
      applyDeltasToTrieState keccak tries₁ txnInfo.nodesUsedByTxn = traceError e →
      e.reason = .missingAccountStorageTrie hAddr →
      hAddr ∈ txnInfo.nodesUsedByTxn.storageAccesses.map Prod.fst →
      ∃ storage₁ out₁ state₁,
        txnInfo.nodesUsedByTxn.storageWrites.foldlM (applyAccountStorageWrites keccak)
          (tries₁.storage, .default) = .ok (storage₁, out₁) ∧
        txnInfo.nodesUsedByTxn.stateWrites.foldlM (applyStateWrite keccak storage₁)
          tries₁.state = .ok state₁ ∧
        txnInfo.nodesUsedByTxn.selfDestructedAccounts.foldlM applySelfDestruct
          (storage₁, state₁, out₁) = traceError e := by
  have hseed := lookup_initAnyNeededEmptyStorageTries tries.storage
    (txnInfo.nodesUsedByTxn.storageAccesses.map Prod.fst)
    txnInfo.nodesUsedByTxn.stateAccountsWithNoAccessesButStorageTries
  have hsome : ∀ hAddr ∈ txnInfo.nodesUsedByTxn.storageAccesses.map Prod.fst,
      ((seedStorageTries tries txnInfo).storage.lookup hAddr).isSome := fun hAddr ha => by
    simp only [seedStorageTries, hseed, if_pos ha]
    cases tries.storage.lookup hAddr <;> rfl
  refine ⟨hsome, fun hAddr t hl => by simp [seedStorageTries, hseed, hl],
    fun hAddr ha hl => by simp [seedStorageTries, hseed, hl, ha],
    fun hAddr ha => by simp [seedStorageTries, hseed, ha], ?_⟩
  intro txnIdx tries₁ e hAddr hupd happly he ha
  obtain ⟨_, _, _, -, -, -, rfl⟩ := updateTxnAndReceiptTries_eq_ok hupd
  have hl := hsome hAddr ha
  obtain h₁ | ⟨⟨storage₁, out₁⟩, h₁, h⟩ := bind_eq_error.mp happly
  · exact absurd (foldlM_applyAccountStorageWrites_eq_error keccak h₁ he)
      (Option.ne_none_iff_isSome.mpr hl)
  obtain h₂ | ⟨state₁, h₂, h⟩ := bind_eq_error.mp h
  · exact absurd (foldlM_applyStateWrite_eq_error keccak h₂ he)
      (Option.ne_none_iff_isSome.mpr (isSome_lookup_foldlM_applyAccountStorageWrites keccak h₁ hl))
  obtain h₃ | ⟨_, -, h⟩ := bind_eq_error.mp h
  · exact ⟨storage₁, out₁, state₁, h₁, h₂, h₃⟩
  · cases h

/-- A transaction that reads a slot of an account whose storage trie at its start is a hash node
cannot be processed: the live tries hold that hash node, or seeding gives it from the root the
transaction records for an account without a storage trie. The storage subset of the
transaction's unit cannot reach the slot. -/
theorem processTxnInfo_hashed_storage_access {txnIdx : Nat} {txnInfo : ProcessedSectionTxnInfo}
    {tries : PartialTrieState} {extraData : ExtraBlockData} {otherData : OtherBlockData}
    {hAddr : H256} {slots : List Nibbles} {slot : Nibbles}
    (hacc : (hAddr, slots) ∈ txnInfo.nodesUsedByTxn.storageAccesses) (hslot : slot ∈ slots)
    (hne : slot ≠ [])
    (hhash : (∃ root, tries.storage.lookup hAddr = some (.hashNode root)) ∨
      (tries.storage.lookup hAddr = none ∧
        (txnInfo.nodesUsedByTxn.stateAccountsWithNoAccessesButStorageTries.lookup hAddr).isSome)) :
    ∀ r, processTxnInfo keccak txnIdx txnInfo tries extraData otherData ≠ .ok r := by
  rintro ⟨genInputs, tries', extraData'⟩ h
  obtain ⟨_, _, _, _, _, _, -, -, -, -, h₅, -⟩ := processTxnInfo_eq_ok keccak h
  obtain ⟨_, -, -, -, -, h₄⟩ := createMinimalPartialTriesNeededByTxn_eq_ok keccak h₅
  obtain ⟨_, hsub⟩ := exists_mapM_eq_ok_iff.mp ⟨_, h₄⟩ _ hacc
  simp only [bind_eq_ok, orPanic_eq_ok] at hsub
  obtain ⟨st, hst, _, hcut, -⟩ := hsub
  obtain ⟨root, rfl⟩ : ∃ root, st = .hashNode root := by
    rw [seedStorageTries, lookup_initAnyNeededEmptyStorageTries] at hst
    rcases hhash with ⟨root, hl⟩ | ⟨hl, hk⟩
    · rw [hl] at hst
      exact ⟨root, (Option.some.inj hst).symm⟩
    · obtain ⟨root, hk⟩ := Option.isSome_iff_exists.mp hk
      rw [hl, Option.none_or, if_pos (List.mem_map_of_mem Prod.fst hacc), Option.some.injEq,
        seededStorageTrie, hk] at hst
      exact ⟨root, hst.symm⟩
  obtain ⟨n, ns, rfl⟩ := List.exists_cons_of_ne_nil hne
  nomatch (PartialTrie.exists_createTrieSubset_eq_ok_iff keccak).mp
    ⟨_, createTrieSubsetWrapped_eq_ok keccak hcut⟩ _ (List.mem_append_left _ hslot)

/-- A transaction that reads slot `[0, 1]` of hashed account `3`, whose storage root `9` it
records while the live tries hold no storage trie for it. -/
def hashedAccessTxn : ProcessedSectionTxnInfo :=
  ⟨⟨[], [], [(3, [[0, 1]])], [], (∅ : AList fun _ : H256 => H256).insert 3 9, []⟩, [],
    ⟨some [1, 2], [3], 21000⟩⟩

theorem hashed_storage_access_sample :
    ((3 : H256), [([0, 1] : Nibbles)]) ∈ hashedAccessTxn.nodesUsedByTxn.storageAccesses ∧
      ([0, 1] : Nibbles) ∈ [([0, 1] : Nibbles)] ∧ ([0, 1] : Nibbles) ≠ [] ∧
      emptyTrieState.storage.lookup 3 = none ∧
      (hashedAccessTxn.nodesUsedByTxn.stateAccountsWithNoAccessesButStorageTries.lookup 3).isSome ∧
      ∀ r, processTxnInfo zeroHash 0 hashedAccessTxn emptyTrieState
        (initialExtraData sampleOtherData) sampleOtherData ≠ .ok r :=
  ⟨List.mem_singleton_self _, List.mem_singleton_self _, List.cons_ne_nil _ _, rfl, rfl,
    processTxnInfo_hashed_storage_access zeroHash (List.mem_singleton_self _)
      (List.mem_singleton_self _) (List.cons_ne_nil _ _) (.inr ⟨rfl, rfl⟩)⟩

end ZkEvmTrace
