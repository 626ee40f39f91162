import ZkEvmTrace.Rlp

/-!
# Partial tries

The sparse Merkle tries of `mpt_trie`, which the decoder treats as a collaborator: lookup,
insertion and deletion along a nibble key, the root hash, and the extraction of a subset
that keeps some keys readable and replaces the rest by hash nodes. A walk that meets a
hash node cannot read, write or delete behind it.
-/

namespace ZkEvmTrace

/-- Modelled from the spec: `HashedPartialTrie`, a sparse trie keyed by nibble paths in which
a subtree may be replaced by its hash. A branch holds the value of the key that ends at it;
paths are not compressed into extension or leaf nodes. -/
inductive PartialTrie where
  | empty
  | hashNode (h : H256)
  | branch (children : Nibble → PartialTrie) (value : Option Bytes)

/-- The failures of `mpt_trie`'s trie operations: a walk into a hash node, and a branch that a
delete collapses onto a hash node (`ExtensionCollapsedIntoHashError`, here with the key of the
hash node). -/
inductive TrieOpError where
  | hashNodeInsert (h : H256)
  | hashNodeDelete (h : H256)
  | extensionCollapsedIntoHash (key : Nibbles)
  deriving DecidableEq, Repr

/-- `SubsetTrieError`: a key runs into a hash node before its end. -/
inductive SubsetTrieError where
  | unexpectedKey (remaining : Nibbles)
  deriving DecidableEq, Repr

namespace PartialTrie

def beq : PartialTrie → PartialTrie → Bool
  | empty, empty => true
  | hashNode h, hashNode h' => h == h'
  | branch cs v, branch cs' v' => v == v' && (List.finRange 16).all fun i => beq (cs i) (cs' i)
  | _, _ => false

theorem beq_eq_true_iff (t t' : PartialTrie) : beq t t' = true ↔ t = t' := by
  induction t generalizing t' with
  | empty => cases t' <;> simp [beq]
  | hashNode h => cases t' <;> simp [beq]
  | branch cs v ih =>
    cases t' with
    | branch cs' v' =>
      simp only [beq, Bool.and_eq_true, beq_iff_eq, List.all_eq_true, List.mem_finRange,
        true_implies, ih, branch.injEq]
      exact ⟨fun ⟨hv, hc⟩ => ⟨funext hc, hv⟩, fun ⟨hc, hv⟩ => ⟨hv, fun i => hc ▸ rfl⟩⟩
    | _ => simp [beq]

instance : DecidableEq PartialTrie := fun t t' => decidable_of_iff _ (beq_eq_true_iff t t')

def isEmpty : PartialTrie → Bool
  | empty => true
  | _ => false

/-- A branch with nothing below it is the empty trie. -/
def mkBranch (cs : Nibble → PartialTrie) (v : Option Bytes) : PartialTrie :=
  if v.isNone && (List.finRange 16).all (fun i => (cs i).isEmpty) then empty else branch cs v

/-- `get`: the value at a key, `none` when absent or behind a hash node. -/
def get : PartialTrie → Nibbles → Option Bytes
  | branch _ v, [] => v
  | branch cs _, n :: ns => get (cs n) ns
  | _, _ => none

/-- Whether the walk along a key ends at a hash node. -/
def isHidden : PartialTrie → Nibbles → Bool
  | hashNode _, _ => true
  | branch cs _, n :: ns => isHidden (cs n) ns
  | _, _ => false

def singleton : Nibbles → Bytes → PartialTrie
  | [], v => branch (fun _ => empty) (some v)
  | n :: ns, v => branch (Function.update (fun _ => empty) n (singleton ns v)) none

/-- `insert`, which fails where the key runs into a hash node. -/
def insert : PartialTrie → Nibbles → Bytes → Except TrieOpError PartialTrie
  | empty, k, v => .ok (singleton k v)
  | hashNode h, _, _ => .error (.hashNodeInsert h)
  | branch cs _, [], v => .ok (branch cs (some v))
  | branch cs w, n :: ns, v => (insert (cs n) ns v).map fun c => branch (Function.update cs n c) w

/-- `delete_intern`'s walk: removes the key's value, fails where the key runs into a hash node,
and prunes the branches it empties. -/
def deleteIntern : PartialTrie → Nibbles → Except TrieOpError PartialTrie
  | empty, _ => .ok empty
  | hashNode h, _ => .error (.hashNodeDelete h)
  | branch cs _, [] => .ok (mkBranch cs none)
  | branch cs w, n :: ns => (deleteIntern (cs n) ns).map fun c => mkBranch (Function.update cs n c) w

/-- The occupied slots of a branch: `none` for its value, `some i` for a non-empty child. -/
def occupied (cs : Nibble → PartialTrie) (v : Option Bytes) : List (Option Nibble) :=
  (if v.isSome then [none] else []) ++ ((List.finRange 16).filter fun i => !(cs i).isEmpty).map some

/-- Along the deleted key, the first branch left with one of at least two occupied slots: the
key of that remaining slot, which a compressed trie merges into the branch's place. -/
def collapsedKey : PartialTrie → PartialTrie → Nibbles → Nibbles → Option Nibbles
  | branch cs v, branch cs' v', n :: ns, pre =>
    match occupied cs v, occupied cs' v' with
    | _ :: _ :: _, [slot] => some (pre ++ slot.toList)
    | _, _ => collapsedKey (cs n) (cs' n) ns (pre ++ [n])
  | _, _, _, _ => none

/-- `delete`: the walk of `deleteIntern`, after which a branch left with one slot collapses onto
it; the collapse fails where that slot holds a hash node, which cannot be merged with the
branch's path. -/
def delete (t : PartialTrie) (k : Nibbles) : Except TrieOpError PartialTrie := do
  let t' ← deleteIntern t k
  match collapsedKey t t' k [] with
  | some r => if t'.isHidden r then throw (.extensionCollapsedIntoHash r) else pure t'
  | none => pure t'

@[simp] theorem get_empty (k : Nibbles) : get empty k = none := by cases k <;> rfl

@[simp] theorem get_hashNode (h : H256) (k : Nibbles) : get (hashNode h) k = none := by
  cases k <;> rfl

@[simp] theorem get_branch_nil (cs : Nibble → PartialTrie) (v : Option Bytes) :
    get (branch cs v) [] = v := rfl

@[simp] theorem get_branch_cons (cs : Nibble → PartialTrie) (v : Option Bytes) (n : Nibble)
    (ns : Nibbles) : get (branch cs v) (n :: ns) = get (cs n) ns := rfl

@[simp] theorem isHidden_empty (k : Nibbles) : isHidden empty k = false := by cases k <;> rfl

@[simp] theorem isHidden_hashNode (h : H256) (k : Nibbles) : isHidden (hashNode h) k = true := by
  cases k <;> rfl

@[simp] theorem isHidden_branch_nil (cs : Nibble → PartialTrie) (v : Option Bytes) :
    isHidden (branch cs v) [] = false := rfl

@[simp] theorem isHidden_branch_cons (cs : Nibble → PartialTrie) (v : Option Bytes) (n : Nibble)
    (ns : Nibbles) : isHidden (branch cs v) (n :: ns) = isHidden (cs n) ns := rfl

theorem isEmpty_iff (t : PartialTrie) : t.isEmpty = true ↔ t = empty := by
  cases t <;> simp [isEmpty]

theorem mkBranch_eq (cs : Nibble → PartialTrie) (v : Option Bytes) :
    mkBranch cs v = branch cs v ∨ (v = none ∧ (∀ i, cs i = empty) ∧ mkBranch cs v = empty) := by
  unfold mkBranch
  split <;> rename_i h
  · simp only [Bool.and_eq_true, Option.isNone_iff_eq_none, List.all_eq_true, List.mem_finRange,
      isEmpty_iff, true_implies] at h
    exact .inr ⟨h.1, h.2, rfl⟩
  · exact .inl rfl

@[simp] theorem get_mkBranch (cs : Nibble → PartialTrie) (v : Option Bytes) (k : Nibbles) :
    get (mkBranch cs v) k = get (branch cs v) k := by
  rcases mkBranch_eq cs v with h | ⟨hv, hc, h⟩ <;> rw [h]
  cases k <;> simp [hv, hc]

@[simp] theorem isHidden_mkBranch (cs : Nibble → PartialTrie) (v : Option Bytes) (k : Nibbles) :
    isHidden (mkBranch cs v) k = isHidden (branch cs v) k := by
  rcases mkBranch_eq cs v with h | ⟨_, hc, h⟩ <;> rw [h]
  cases k <;> simp [hc]

theorem get_of_isHidden {t : PartialTrie} {k : Nibbles} (h : isHidden t k = true) :
    get t k = none := by
  induction t generalizing k with
  | branch cs v ih => cases k <;> simp_all
  | _ => simp

theorem isHidden_of_get_eq_some {t : PartialTrie} {k : Nibbles} {v : Bytes}
    (h : get t k = some v) : isHidden t k = false := by
  cases hh : isHidden t k
  · rfl
  · rw [get_of_isHidden hh] at h; cases h

theorem get_singleton (k : Nibbles) (v : Bytes) (k' : Nibbles) :
    get (singleton k v) k' = if k' = k then some v else none := by
  induction k generalizing k' with
  | nil => cases k' <;> simp [singleton]
  | cons n ns ih =>
    cases k' with
    | nil => simp [singleton]
    | cons m ms =>
      by_cases hm : m = n
      · subst hm; simp [singleton, ih]
      · simp [singleton, Function.update_noteq hm, hm]

theorem isHidden_singleton (k : Nibbles) (v : Bytes) (k' : Nibbles) :
    isHidden (singleton k v) k' = false := by
  induction k generalizing k' with
  | nil => cases k' <;> simp [singleton]
  | cons n ns ih =>
    cases k' with
    | nil => simp [singleton]
    | cons m ms =>
      by_cases hm : m = n
      · subst hm; simp [singleton, ih]
      · simp [singleton, Function.update_noteq hm]

/-- What an insert changes: the value at its own key, and nothing else. -/
theorem get_insert {t t' : PartialTrie} {k : Nibbles} {v : Bytes} (h : insert t k v = .ok t')
    (k' : Nibbles) : get t' k' = if k' = k then some v else get t k' := by
  induction t generalizing k k' t' with
  | empty => cases h; rw [get_singleton]; simp
  | hashNode => cases h
  | branch cs w ih =>
    cases k with
    | nil => cases h; cases k' <;> simp
    | cons n ns =>
      obtain ⟨c, hc, rfl⟩ := map_eq_ok.mp h
      cases k' with
      | nil => simp
      | cons m ms =>
        by_cases hm : m = n
        · subst hm; simp [ih m hc]
        · simp [Function.update_noteq hm, hm]

theorem isHidden_insert {t t' : PartialTrie} {k : Nibbles} {v : Bytes}
    (h : insert t k v = .ok t') (k' : Nibbles) : isHidden t' k' = isHidden t k' := by
  induction t generalizing k k' t' with
  | empty => cases h; simp [isHidden_singleton]
  | hashNode => cases h
  | branch cs w ih =>
    cases k with
    | nil => cases h; cases k' <;> simp
    | cons n ns =>
      obtain ⟨c, hc, rfl⟩ := map_eq_ok.mp h
      cases k' with
      | nil => simp
      | cons m ms =>
        by_cases hm : m = n
        · subst hm; simp [ih m hc]
        · simp [Function.update_noteq hm]

theorem exists_insert_eq_ok {t : PartialTrie} {k : Nibbles} (v : Bytes)
    (h : isHidden t k = false) : ∃ t', insert t k v = .ok t' := by
  induction t generalizing k with
  | empty => exact ⟨_, rfl⟩
  | hashNode => simp at h
  | branch cs w ih =>
    cases k with
    | nil => exact ⟨_, rfl⟩
    | cons n ns =>
      obtain ⟨c, hc⟩ := ih n (by simpa using h)
      exact ⟨_, by simp only [insert, hc]; rfl⟩

theorem isHidden_eq_false_of_insert_eq_ok {t t' : PartialTrie} {k : Nibbles} {v : Bytes}
    (h : insert t k v = .ok t') : isHidden t k = false := by
  induction t generalizing k t' with
  | empty => simp
  | hashNode => cases h
  | branch cs w ih =>
    cases k with
    | nil => rfl
    | cons n ns =>
      obtain ⟨c, hc, -⟩ := map_eq_ok.mp h
      exact ih n hc

theorem isHidden_of_insert_eq_error {t : PartialTrie} {k : Nibbles} {v : Bytes} {e : TrieOpError}
    (h : insert t k v = .error e) : isHidden t k = true := by
  cases hh : isHidden t k
  · obtain ⟨t', ht'⟩ := exists_insert_eq_ok v hh
    rw [ht'] at h; cases h
  · rfl

theorem get_deleteIntern {t t' : PartialTrie} {k : Nibbles} (h : deleteIntern t k = .ok t')
    (k' : Nibbles) : get t' k' = if k' = k then none else get t k' := by
  induction t generalizing k k' t' with
  | empty => cases h; simp
  | hashNode => cases h
  | branch cs w ih =>
    cases k with
    | nil => cases h; cases k' <;> simp
    | cons n ns =>
      obtain ⟨c, hc, rfl⟩ := map_eq_ok.mp h
      cases k' with
      | nil => simp
      | cons m ms =>
        by_cases hm : m = n
        · subst hm; simp [ih m hc]
        · simp [Function.update_noteq hm, hm]

theorem isHidden_deleteIntern {t t' : PartialTrie} {k : Nibbles} (h : deleteIntern t k = .ok t')
    (k' : Nibbles) : isHidden t' k' = isHidden t k' := by
  induction t generalizing k k' t' with
  | empty => cases h; simp
  | hashNode => cases h
  | branch cs w ih =>
    cases k with
    | nil => cases h; cases k' <;> simp
    | cons n ns =>
      obtain ⟨c, hc, rfl⟩ := map_eq_ok.mp h
      cases k' with
      | nil => simp
      | cons m ms =>
        by_cases hm : m = n
        · subst hm; simp [ih m hc]
        · simp [Function.update_noteq hm]

theorem isHidden_eq_false_of_deleteIntern_eq_ok {t t' : PartialTrie} {k : Nibbles}
    (h : deleteIntern t k = .ok t') : isHidden t k = false := by
  induction t generalizing k t' with
  | empty => simp
  | hashNode => cases h
  | branch cs w ih =>
    cases k with
    | nil => rfl
    | cons n ns =>
      obtain ⟨c, hc, -⟩ := map_eq_ok.mp h
      exact ih n hc

/-- A delete succeeds exactly where its walk does and the branch it collapses, if any, is left
with a slot that is not a hash node. -/
theorem delete_eq_ok {t t' : PartialTrie} {k : Nibbles} :
    delete t k = .ok t' ↔ deleteIntern t k = .ok t' ∧
      ∀ r, collapsedKey t t' k [] = some r → isHidden t' r = false := by
  unfold delete
  cases hd : deleteIntern t k with
  | error e => simp [bind, Except.bind]
  | ok t₁ =>
    simp only [bind, Except.bind, Except.ok.injEq]
    constructor
    · intro h
      split at h <;> (try split at h) <;> cases h
      all_goals exact ⟨rfl, by simp_all⟩
    · rintro ⟨rfl, h⟩
      split
      · rw [if_neg (by simp [h _ ‹_›])]; rfl
      · rfl

/-- What a delete changes: the value at its own key, and nothing else. -/
theorem get_delete {t t' : PartialTrie} {k : Nibbles} (h : delete t k = .ok t') (k' : Nibbles) :
    get t' k' = if k' = k then none else get t k' :=
  get_deleteIntern (delete_eq_ok.mp h).1 k'

theorem isHidden_delete {t t' : PartialTrie} {k : Nibbles} (h : delete t k = .ok t')
    (k' : Nibbles) : isHidden t' k' = isHidden t k' :=
  isHidden_deleteIntern (delete_eq_ok.mp h).1 k'

theorem isHidden_eq_false_of_delete_eq_ok {t t' : PartialTrie} {k : Nibbles}
    (h : delete t k = .ok t') : isHidden t k = false :=
  isHidden_eq_false_of_deleteIntern_eq_ok (delete_eq_ok.mp h).1

@[simp] theorem collapsedKey_nil (t t' : PartialTrie) (pre : Nibbles) :
    collapsedKey t t' [] pre = none := by
  cases t <;> cases t' <;> rfl

theorem occupied_congr {cs cs' : Nibble → PartialTrie} (h : ∀ i, (cs' i).isEmpty = (cs i).isEmpty)
    (v : Option Bytes) : occupied cs' v = occupied cs v := by
  simp only [occupied, h]

/-- A collapse below a branch depends on which slots are occupied, before and after, and on
what the walk reports further down. -/
theorem collapsedKey_mkBranch_congr {cs₁ cs₁' cs₂ cs₂' : Nibble → PartialTrie} {v v' : Option Bytes}
    {n : Nibble} {ns pre : Nibbles} (h₁ : ∀ i, (cs₁' i).isEmpty = (cs₁ i).isEmpty)
    (h₂ : ∀ i, (cs₂' i).isEmpty = (cs₂ i).isEmpty)
    (hn : collapsedKey (cs₁' n) (cs₂' n) ns (pre ++ [n]) =
      collapsedKey (cs₁ n) (cs₂ n) ns (pre ++ [n])) :
    collapsedKey (branch cs₁' v) (mkBranch cs₂' v') (n :: ns) pre =
      collapsedKey (branch cs₁ v) (mkBranch cs₂ v') (n :: ns) pre := by
  simp only [mkBranch, h₂]
  split
  · rfl
  · simp only [collapsedKey, occupied_congr h₁, occupied_congr h₂, hn]

/-- The RLP of a branch node: its sixteen child hashes, then its value. -/
def encodeBranch (children : List H256) (value : Option Bytes) : Bytes :=
  encodeList (children.map encodeH256 ++ [encodeValue (value.getD [])])

section Hashing

variable (keccak : Bytes → H256)

/-- `EMPTY_TRIE_HASH`, `keccak(rlp(""))`. -/
def emptyTrieHash : H256 := keccak (encodeValue [])

def hash : PartialTrie → H256
  | empty => emptyTrieHash keccak
  | hashNode h => h
  | branch cs v => keccak (encodeBranch ((List.finRange 16).map fun i => hash (cs i)) v)

/-- `mark_nodes_that_are_needed`: walks a key and fails where a hash node stands before its end. -/
def markKey : PartialTrie → Nibbles → Except SubsetTrieError Unit
  | hashNode _, n :: ns => .error (.unexpectedKey (n :: ns))
  | branch cs _, n :: ns => markKey (cs n) ns
  | _, _ => .ok ()

def keysBelow (i : Nibble) (ks : List Nibbles) : List Nibbles :=
  ks.filterMap fun
    | n :: ns => if n = i then some ns else none
    | [] => none

/-- The trie with every subtree that no key reaches replaced by its hash. -/
def keepPaths : PartialTrie → List Nibbles → PartialTrie
  | branch cs v, k :: ks => branch (fun i => keepPaths (cs i) (keysBelow i (k :: ks))) v
  | branch cs v, [] => hashNode (hash keccak (branch cs v))
  | t, _ => t

def createTrieSubset (t : PartialTrie) (ks : List Nibbles) :
    Except SubsetTrieError PartialTrie := do
  ks.forM (markKey t)
  return keepPaths keccak t ks

/-- Cutting a subset keeps the root hash: the removed subtrees stand as their hashes. -/
theorem hash_keepPaths (t : PartialTrie) (ks : List Nibbles) :
    hash keccak (keepPaths keccak t ks) = hash keccak t := by
  induction t generalizing ks with
  | branch cs v ih =>
    cases ks with
    | nil => rfl
    | cons k ks => simp only [keepPaths, hash, ih]
  | _ => cases ks <;> rfl

/-- A cut trie reads every key it keeps as the trie it was cut from. -/
theorem get_keepPaths (t : PartialTrie) {ks : List Nibbles} {k : Nibbles} (hk : k ∈ ks) :
    (keepPaths keccak t ks).get k = t.get k := by
  induction t generalizing ks k with
  | branch cs v ih =>
    obtain ⟨k', ks', rfl⟩ := List.exists_cons_of_ne_nil (List.ne_nil_of_mem hk)
    cases k with
    | nil => rfl
    | cons n ns => exact ih n (List.mem_filterMap.mpr ⟨n :: ns, hk, if_pos rfl⟩)
  | _ => cases ks <;> rfl

theorem createTrieSubset_eq_ok {t t' : PartialTrie} {ks : List Nibbles}
    (h : createTrieSubset keccak t ks = .ok t') : t' = keepPaths keccak t ks := by
  unfold createTrieSubset at h
  obtain ⟨_, -, h⟩ := bind_eq_ok.mp h
  exact (Except.ok.inj h).symm

/-- A subset exists exactly where no key runs into a hash node before its end. -/
theorem exists_createTrieSubset_eq_ok_iff {t : PartialTrie} {ks : List Nibbles} :
    (∃ t', createTrieSubset keccak t ks = .ok t') ↔ ∀ k ∈ ks, markKey t k = .ok () := by
  unfold createTrieSubset
  rw [← forM_eq_ok_iff]
  cases ks.forM (markKey t) <;> simp [bind, Except.bind, pure, Except.pure]

theorem hash_createTrieSubset {t t' : PartialTrie} {ks : List Nibbles}
    (h : createTrieSubset keccak t ks = .ok t') : hash keccak t' = hash keccak t := by
  rw [createTrieSubset_eq_ok keccak h, hash_keepPaths]

/-- With no key, the subset always exists: the whole trie hashed out. -/
theorem createTrieSubset_nil (t : PartialTrie) :
    createTrieSubset keccak t [] = .ok (keepPaths keccak t []) := rfl

/-- A subset of a hash node cannot reach any key below it. -/
theorem createTrieSubset_hashNode (h : H256) (n : Nibble) (ns : Nibbles) (ks : List Nibbles) :
    createTrieSubset keccak (hashNode h) ((n :: ns) :: ks) = .error (.unexpectedKey (n :: ns)) :=
  rfl

end Hashing

/-! ## Reachable keys

A key is reachable, and `markKey` marks it, when the walk along all but its last nibble meets no
hash node. Inserts and deletes hide no key and reveal none, so they keep every key reachable; the
key a collapse reports is a slot of a branch on the deleted key's walk, so it is reachable in
the trie the delete started from. -/

@[simp] theorem markKey_nil (t : PartialTrie) : markKey t [] = .ok () := by cases t <;> rfl

theorem markKey_append_singleton (t : PartialTrie) (k : Nibbles) (n : Nibble) :
    markKey t (k ++ [n]) = .ok () ↔ isHidden t k = false := by
  induction k generalizing t with
  | nil => cases t <;> simp [markKey]
  | cons m ms ih => cases t <;> simp [markKey, ih]

/-- Tries that hide the same keys reach the same keys. -/
theorem markKey_eq_ok_of_isHidden {t t' : PartialTrie} (h : ∀ k, isHidden t k = isHidden t' k)
    {k : Nibbles} (hk : markKey t k = .ok ()) : markKey t' k = .ok () := by
  rcases List.eq_nil_or_concat k with rfl | ⟨k, n, rfl⟩
  · exact markKey_nil t'
  · rw [List.concat_eq_append, markKey_append_singleton, ← h] at *
    exact hk

/-- The key a collapse reports extends the walk along the deleted key by one slot of a branch
on it. -/
theorem markKey_of_collapsedKey {t t' : PartialTrie} {k pre p : Nibbles}
    (h : collapsedKey t t' k pre = some p) : ∃ r, p = pre ++ r ∧ markKey t r = .ok () := by
  induction k generalizing t t' pre with
  | nil => cases t <;> cases t' <;> cases h
  | cons n ns ih =>
    cases t with
    | branch cs v =>
      cases t' with
      | branch cs' v' =>
        simp only [collapsedKey] at h
        split at h
        · rename_i slot _ _
          cases h
          exact ⟨_, rfl, by cases slot <;> simp [markKey]⟩
        · obtain ⟨r, rfl, hr⟩ := ih h
          exact ⟨n :: r, by simp, hr⟩
      | _ => cases h
    | _ => cases h

end PartialTrie

end ZkEvmTrace
