import ZkEvmTrace.Primitives

/-!
# RLP

The encoder of the `rlp` crate for the values the decoder writes (byte strings, `usize`,
`U256`, `H256`, lists), and its decoder for accounts. The account decoder reads back every
encoded account; the `usize` encoding is injective, which makes the transaction-trie keys
distinct.
-/

namespace ZkEvmTrace

/-- The header `rlp` writes before a payload of `len` bytes; `offset` is `0x80` for a string
and `0xc0` for a list. -/
def rlpHeader (offset len : Nat) : Bytes :=
  if len < 56 then [UInt8.ofNat (offset + len)]
  else UInt8.ofNat (offset + 55 + (minimalBytesBE 8 len).length) :: minimalBytesBE 8 len

/-- `encode_value`: a single byte below `0x80` is itself, anything else is headed. -/
def encodeValue (bs : Bytes) : Bytes :=
  match bs with
  | [b] => if b.toNat < 0x80 then [b] else rlpHeader 0x80 1 ++ [b]
  | _ => rlpHeader 0x80 bs.length ++ bs

def encodeList (items : List Bytes) : Bytes :=
  rlpHeader 0xc0 items.flatten.length ++ items.flatten

/-- `rlp::encode(&usize)`: the value as a `u64` without its leading zero bytes. -/
def encodeUsize (n : Nat) : Bytes := encodeValue (minimalBytesBE 8 n)

def encodeU256 (n : U256) : Bytes := encodeValue (minimalBytesBE 32 n.val)

def encodeH256 (h : H256) : Bytes := encodeValue (toBytesBE 32 h.val)

/-- `ZERO_STORAGE_SLOT_VAL_RLPED`: `rlp::encode(&U256::zero())`. -/
def zeroStorageSlotValRlped : Bytes := encodeU256 0

/-- The account record of the state trie (`MptAccountRlp`). -/
structure AccountRlp where
  nonce : U256
  balance : U256
  storageRoot : H256
  codeHash : H256
  deriving DecidableEq, Repr

def AccountRlp.encode (a : AccountRlp) : Bytes :=
  encodeList [encodeU256 a.nonce, encodeU256 a.balance, encodeH256 a.storageRoot,
    encodeH256 a.codeHash]

/-! ## Decoding

`rlp::decode::<MptAccountRlp>` as the `rlp` crate runs it. The derived decoder reads the four
fields with `Rlp::val_at` on one `Rlp`, whose offset cache carries over from one field to the
next: the first field is found in the list's payload, every later one from the cached offset to
the end of the input. Bytes after the fields are never read.
-/

/-- `rlp::DecoderError`, the failures the account decoder can report. -/
inductive DecoderError where
  | rlpIsTooBig
  | rlpIsTooShort
  | rlpExpectedToBeList
  | rlpExpectedToBeData
  | rlpDataLenWithZeroPrefix
  | rlpInvalidIndirection
  | rlpInconsistentLengthAndData
  | rlpInvalidLength
  deriving DecidableEq, Repr

/-- `PayloadInfo`: the lengths of an item's header and of its payload. -/
structure PayloadInfo where
  headerLen : Nat
  valueLen : Nat
  deriving DecidableEq, Repr

/-- `decode_usize`: a big-endian length of at most eight bytes, with no leading zero. -/
def decodeUsize (bytes : Bytes) : Except DecoderError Nat :=
  if bytes.length ≤ 8 then
    if bytes.head? = some 0 then .error .rlpInvalidIndirection else .ok (ofBytesBE bytes)
  else .error .rlpIsTooBig

/-- `calculate_payload_info`: a header whose length, of `lenOfLen` bytes, follows its first byte. -/
def calculatePayloadInfo (headerBytes : Bytes) (lenOfLen : Nat) :
    Except DecoderError PayloadInfo :=
  match headerBytes[1]? with
  | none => .error .rlpIsTooShort
  | some b =>
    if b = 0 then .error .rlpDataLenWithZeroPrefix
    else if headerBytes.length < 1 + lenOfLen then .error .rlpIsTooShort
    else do
      let valueLen ← decodeUsize ((headerBytes.drop 1).take lenOfLen)
      if valueLen ≤ 55 then throw .rlpInvalidIndirection
      return ⟨1 + lenOfLen, valueLen⟩

/-- `PayloadInfo::from`: the header at the front of `headerBytes`. -/
def PayloadInfo.fromHeader (headerBytes : Bytes) : Except DecoderError PayloadInfo :=
  match headerBytes with
  | [] => .error .rlpIsTooShort
  | l :: _ =>
    if l.toNat ≤ 0x7f then .ok ⟨0, 1⟩
    else if l.toNat ≤ 0xb7 then .ok ⟨1, l.toNat - 0x80⟩
    else if l.toNat ≤ 0xbf then calculatePayloadInfo headerBytes (l.toNat - 0xb7)
    else if l.toNat ≤ 0xf7 then .ok ⟨1, l.toNat - 0xc0⟩
    else calculatePayloadInfo headerBytes (l.toNat - 0xf7)

/-- `BasicDecoder::payload_info`: the header, which must fit in `bytes` with its payload. -/
def payloadInfo (bytes : Bytes) : Except DecoderError PayloadInfo := do
  let item ← PayloadInfo.fromHeader bytes
  if item.headerLen + item.valueLen ≤ bytes.length then pure item else throw .rlpIsTooShort

def consume (bytes : Bytes) (len : Nat) : Except DecoderError Bytes :=
  if len ≤ bytes.length then .ok (bytes.drop len) else .error .rlpIsTooShort

/-- `Rlp::consume_items`: the bytes after `items` items, and how many bytes those took. -/
def consumeItems : Bytes → Nat → Except DecoderError (Bytes × Nat)
  | bytes, 0 => .ok (bytes, 0)
  | bytes, items + 1 => do
    let i ← payloadInfo bytes
    let result ← consume bytes (i.headerLen + i.valueLen)
    let (result, consumed) ← consumeItems result items
    return (result, i.headerLen + i.valueLen + consumed)

def isList : Bytes → Bool
  | [] => false
  | l :: _ => 0xc0 ≤ l.toNat

/-- `Rlp::consume_list_payload`: the payload of the list and the length of its header. -/
def consumeListPayload (bytes : Bytes) : Except DecoderError (Bytes × Nat) := do
  let item ← payloadInfo bytes
  if bytes.length < item.headerLen + item.valueLen then throw .rlpIsTooShort
  return ((bytes.drop item.headerLen).take item.valueLen, item.headerLen)

/-- `OffsetCache`: the index of the item last looked up and the offset it starts at. -/
structure OffsetCache where
  index : Nat
  offset : Nat
  deriving DecidableEq, Repr

/-- `Rlp::at_with_offset`: the item at `index` of the list `bytes`, and the cache it leaves.
From a cached index at or below `index` the items are counted from the cached offset onwards,
to the end of `bytes` and not of the list's payload. -/
def atWithOffset (bytes : Bytes) (cache : Option OffsetCache) (index : Nat) :
    Except DecoderError (Bytes × OffsetCache) := do
  if !isList bytes then throw .rlpExpectedToBeList
  let (rest, indexesToSkip, bytesConsumed) ← match cache.filter (·.index ≤ index) with
    | some c => (consume bytes c.offset).map fun rest => (rest, index - c.index, c.offset)
    | none => (consumeListPayload bytes).map fun (rest, consumed) => (rest, index, consumed)
  let (rest, consumed) ← consumeItems rest indexesToSkip
  let found ← payloadInfo rest
  return (rest.take (found.headerLen + found.valueLen), ⟨index, bytesConsumed + consumed⟩)

/-- `BasicDecoder::decode_value`: the payload of a byte-string item, handed to `f`. -/
def decodeValue {α : Type} (f : Bytes → Except DecoderError α) : Bytes → Except DecoderError α
  | [] => .error .rlpIsTooShort
  | l :: rest =>
    if l.toNat ≤ 0x7f then f [l]
    else if l.toNat ≤ 0xb7 then
      if rest.length < l.toNat - 0x80 then .error .rlpInconsistentLengthAndData
      else if l.toNat = 0x81 ∧ (rest.headD 0).toNat < 0x80 then .error .rlpInvalidIndirection
      else f (rest.take (l.toNat - 0x80))
    else if l.toNat ≤ 0xbf then
      if rest.length < l.toNat - 0xb7 then .error .rlpInconsistentLengthAndData
      else do
        let len ← decodeUsize (rest.take (l.toNat - 0xb7))
        if 2 ^ 64 ≤ 1 + (l.toNat - 0xb7) + len then throw .rlpInvalidLength
        if rest.length < l.toNat - 0xb7 + len then throw .rlpInconsistentLengthAndData
        f ((rest.drop (l.toNat - 0xb7)).take len)
    else .error .rlpExpectedToBeData

/-- `Decodable for U256`: at most 32 bytes, with no leading zero. -/
def decodeU256 : Bytes → Except DecoderError U256 :=
  decodeValue fun bytes =>
    if bytes.head? = some 0 then .error .rlpInvalidIndirection
    else if h : bytes.length ≤ 32 then
      .ok ⟨ofBytesBE bytes, (ofBytesBE_lt bytes).trans_le
        (by simpa using Nat.pow_le_pow_right (by norm_num : 0 < 256) h)⟩
    else .error .rlpIsTooBig

def decodeH256 : Bytes → Except DecoderError H256 :=
  decodeValue fun bytes =>
    if bytes.length < 32 then .error .rlpIsTooShort
    else if h : bytes.length = 32 then
      .ok ⟨ofBytesBE bytes, by simpa [h] using ofBytesBE_lt bytes⟩
    else .error .rlpIsTooBig

/-- `Rlp::val_at`: the item at `index`, decoded, and the cache it leaves. -/
def valAt {α : Type} (decode : Bytes → Except DecoderError α) (bytes : Bytes)
    (cache : Option OffsetCache) (index : Nat) : Except DecoderError (α × OffsetCache) := do
  let (item, cache) ← atWithOffset bytes cache index
  return (← decode item, cache)

/-- `rlp::decode::<MptAccountRlp>`: the four fields in order, each by `val_at`. -/
def AccountRlp.decode (bytes : Bytes) : Except DecoderError AccountRlp := do
  let (nonce, cache) ← valAt decodeU256 bytes none 0
  let (balance, cache) ← valAt decodeU256 bytes (some cache) 1
  let (storageRoot, cache) ← valAt decodeH256 bytes (some cache) 2
  let (codeHash, _) ← valAt decodeH256 bytes (some cache) 3
  return ⟨nonce, balance, storageRoot, codeHash⟩

theorem encodeValue_ne_nil (bs : Bytes) : encodeValue bs ≠ [] := by
  unfold encodeValue rlpHeader
  split <;> (try split) <;> (try split) <;> simp

theorem length_encodeValue_le (bs : Bytes) (h : bs.length < 56) :
    (encodeValue bs).length ≤ bs.length + 1 := by
  unfold encodeValue rlpHeader
  split
  · split <;> simp
  · rw [if_pos h]; simp

theorem encodeValue_short (bs : Bytes) (h : bs.length < 56) :
    (∃ b, bs = [b] ∧ b.toNat < 0x80 ∧ encodeValue bs = [b]) ∨
      ((∀ b, bs = [b] → 0x80 ≤ b.toNat) ∧
        encodeValue bs = UInt8.ofNat (0x80 + bs.length) :: bs) := by
  match bs with
  | [b] =>
    by_cases hb : b.toNat < 0x80
    · exact .inl ⟨b, rfl, hb, by simp [encodeValue, hb]⟩
    · refine .inr ⟨fun c hc => ?_, by simp [encodeValue, hb, rlpHeader]⟩
      cases hc; omega
  | [] => exact .inr ⟨nofun, rfl⟩
  | b :: c :: cs =>
    refine .inr ⟨fun _ he => (by cases he), ?_⟩
    simp only [encodeValue, rlpHeader, if_pos h, List.singleton_append]

theorem length_encodeH256 (h : H256) : (encodeH256 h).length = 33 := by
  rcases encodeValue_short (toBytesBE 32 h.val) (by simp) with ⟨b, hb, -⟩ | ⟨-, he⟩
  · simpa using congrArg List.length hb
  · rw [encodeH256, he]; simp

theorem minimalBytesBE_ne_nil {w n : Nat} (hn : n < 256 ^ w) (h0 : n ≠ 0) :
    minimalBytesBE w n ≠ [] := by
  intro h
  have := ofBytesBE_minimalBytesBE w n
  rw [h, Nat.mod_eq_of_lt hn] at this
  exact h0 this.symm

theorem head?_minimalBytesBE_ne_zero (w n : Nat) : (minimalBytesBE w n).head? ≠ some 0 := by
  intro h0
  obtain ⟨bs, hbs⟩ := List.head?_eq_some_iff.mp h0
  exact head_minimalBytesBE_ne_zero hbs rfl

theorem payloadInfo_encodeValue (bs rest : Bytes) (h : bs.length < 56) :
    ∃ i : PayloadInfo, payloadInfo (encodeValue bs ++ rest) = .ok i ∧
      i.headerLen + i.valueLen = (encodeValue bs).length := by
  rcases encodeValue_short bs h with ⟨b, rfl, hb, he⟩ | ⟨-, he⟩ <;> rw [he]
  · refine ⟨⟨0, 1⟩, ?_, rfl⟩
    simp [payloadInfo, PayloadInfo.fromHeader, show b.toNat ≤ 0x7f by omega, bind, Except.bind,
      pure, Except.pure]
  · have hl := UInt8.toNat_ofNat_of_lt (show 0x80 + bs.length < 256 by omega)
    refine ⟨⟨1, bs.length⟩, ?_, by simp [Nat.add_comm]⟩
    simp only [payloadInfo, PayloadInfo.fromHeader, List.cons_append, hl,
      if_neg (show ¬128 + bs.length ≤ 127 by omega), if_pos (show 128 + bs.length ≤ 183 by omega),
      Nat.add_sub_cancel_left, bind, Except.bind]
    simp [Nat.add_comm, pure, Except.pure]

theorem consume_append (bs rest : Bytes) : consume (bs ++ rest) bs.length = .ok rest := by
  simp [consume]

theorem consumeItems_encodeValue (bs rest : Bytes) (h : bs.length < 56) :
    consumeItems (encodeValue bs ++ rest) 1 = .ok (rest, (encodeValue bs).length) := by
  obtain ⟨i, hi, hl⟩ := payloadInfo_encodeValue bs rest h
  simp only [consumeItems, hi, hl, consume_append, bind, Except.bind, pure, Except.pure,
    Nat.add_zero]

theorem decodeValue_encodeValue {α : Type} (f : Bytes → Except DecoderError α) (bs : Bytes)
    (h : bs.length < 56) : decodeValue f (encodeValue bs) = f bs := by
  rcases encodeValue_short bs h with ⟨b, rfl, hb, he⟩ | ⟨hb, he⟩ <;> rw [he]
  · simp [decodeValue, show b.toNat ≤ 0x7f by omega]
  · have hl := UInt8.toNat_ofNat_of_lt (show 0x80 + bs.length < 256 by omega)
    have hi : ¬(0x80 + bs.length = 0x81 ∧ (bs.headD 0).toNat < 0x80) := by
      rintro ⟨h1, h2⟩
      obtain ⟨b, rfl⟩ := List.length_eq_one.mp (by omega : bs.length = 1)
      exact absurd (hb b rfl) (by simpa using h2)
    simp only [decodeValue, hl]
    rw [if_neg (by omega), if_pos (by omega), if_neg (by omega), if_neg hi,
      Nat.add_sub_cancel_left, List.take_length]

theorem decodeU256_encodeU256 (n : U256) : decodeU256 (encodeU256 n) = .ok n := by
  have hl := length_minimalBytesBE_le 32 n.val
  rw [decodeU256, encodeU256, decodeValue_encodeValue _ _ (by omega),
    if_neg (head?_minimalBytesBE_ne_zero 32 _), dif_pos hl,
    Except.ok.injEq]
  ext
  rw [Fin.val_mk, ofBytesBE_minimalBytesBE, Nat.mod_eq_of_lt (by simp)]

theorem decodeH256_encodeH256 (h : H256) : decodeH256 (encodeH256 h) = .ok h := by
  rw [decodeH256, encodeH256, decodeValue_encodeValue _ _ (by simp), if_neg (by simp),
    dif_pos (length_toBytesBE 32 h.val), Except.ok.injEq]
  ext
  rw [Fin.val_mk, ofBytesBE_toBytesBE, Nat.mod_eq_of_lt (by simp)]

theorem calculatePayloadInfo_cons (x : UInt8) {lb : Bytes} (rest : Bytes) (hne : lb ≠ [])
    (h0 : lb.head? ≠ some 0) (hl : lb.length ≤ 8) (hv : 55 < ofBytesBE lb) :
    calculatePayloadInfo (x :: (lb ++ rest)) lb.length = .ok ⟨1 + lb.length, ofBytesBE lb⟩ := by
  obtain ⟨b, lb, rfl⟩ := List.exists_cons_of_ne_nil hne
  have hb : b ≠ 0 := fun e => h0 (by simp [e])
  simp only [calculatePayloadInfo, List.cons_append, List.getElem?_cons_succ,
    List.getElem?_cons_zero, hb, ite_false, List.drop_succ_cons, List.drop_zero, decodeUsize]
  rw [if_neg (by simp only [List.length_cons, List.length_append]; omega),
    ← List.cons_append, List.take_left, if_pos hl, if_neg h0]
  simp [show ¬ofBytesBE (b :: lb) ≤ 55 by omega, bind, Except.bind, pure, Except.pure]

theorem payloadInfo_rlpHeader_list (P rest : Bytes) (h₁ : 56 ≤ P.length)
    (h₂ : P.length < 2 ^ 64) :
    payloadInfo (rlpHeader 0xc0 P.length ++ P ++ rest) =
      .ok ⟨(rlpHeader 0xc0 P.length).length, P.length⟩ := by
  have h8 : P.length < 256 ^ 8 := by simpa using h₂
  have hne := minimalBytesBE_ne_nil h8 (by omega)
  have hlen := length_minimalBytesBE_le 8 P.length
  have hpos := List.length_pos.mpr hne
  have hv := ofBytesBE_minimalBytesBE 8 P.length
  rw [Nat.mod_eq_of_lt h8] at hv
  have hl := UInt8.toNat_ofNat_of_lt
    (show 0xc0 + 55 + (minimalBytesBE 8 P.length).length < 256 by omega)
  have hk : 0xc0 + 55 + (minimalBytesBE 8 P.length).length - 0xf7 =
      (minimalBytesBE 8 P.length).length := by omega
  simp only [rlpHeader, if_neg (show ¬P.length < 56 by omega), List.cons_append, payloadInfo,
    PayloadInfo.fromHeader, hl, if_neg (show ¬0xc0 + 55 + (minimalBytesBE 8 P.length).length ≤ 0x7f
      by omega), if_neg (show ¬0xc0 + 55 + (minimalBytesBE 8 P.length).length ≤ 0xb7 by omega),
    if_neg (show ¬0xc0 + 55 + (minimalBytesBE 8 P.length).length ≤ 0xbf by omega),
    if_neg (show ¬0xc0 + 55 + (minimalBytesBE 8 P.length).length ≤ 0xf7 by omega), hk,
    List.append_assoc, calculatePayloadInfo_cons _ (P ++ rest) hne (head?_minimalBytesBE_ne_zero 8 _) hlen (by omega), hv, bind,
    Except.bind]
  simp [Nat.add_comm, pure, Except.pure]
  omega

theorem isList_rlpHeader_list (P rest : Bytes) (h₁ : 56 ≤ P.length) (h₂ : P.length < 2 ^ 64) :
    isList (rlpHeader 0xc0 P.length ++ P ++ rest) = true := by
  have hlen := length_minimalBytesBE_le 8 P.length
  have hl := UInt8.toNat_ofNat_of_lt
    (show 0xc0 + 55 + (minimalBytesBE 8 P.length).length < 256 by omega)
  simp only [rlpHeader, if_neg (show ¬P.length < 56 by omega), List.cons_append, isList, hl,
    decide_eq_true_eq]
  omega

theorem consumeListPayload_rlpHeader_list (P rest : Bytes) (h₁ : 56 ≤ P.length)
    (h₂ : P.length < 2 ^ 64) :
    consumeListPayload (rlpHeader 0xc0 P.length ++ P ++ rest) =
      .ok (P, (rlpHeader 0xc0 P.length).length) := by
  simp only [consumeListPayload, payloadInfo_rlpHeader_list P rest h₁ h₂, bind, Except.bind]
  simp [pure, Except.pure]

theorem atWithOffset_first {bytes rest : Bytes} (hl : isList bytes = true) {bs : Bytes}
    {hdr : Nat} (hb : bs.length < 56)
    (hc : consumeListPayload bytes = .ok (encodeValue bs ++ rest, hdr)) :
    atWithOffset bytes none 0 = .ok (encodeValue bs, ⟨0, hdr⟩) := by
  obtain ⟨i, hi, hil⟩ := payloadInfo_encodeValue bs rest hb
  simp [atWithOffset, hl, hc, consumeItems, hi, hil, Except.map, bind, Except.bind, pure,
    Except.pure]

theorem atWithOffset_next {bytes : Bytes} (hl : isList bytes = true) {i off : Nat}
    (pre : Bytes) {bs cs : Bytes} (rest : Bytes) (hb : bs.length < 56) (hc : cs.length < 56)
    (h : bytes = pre ++ (encodeValue bs ++ (encodeValue cs ++ rest))) (hoff : off = pre.length) :
    atWithOffset bytes (some ⟨i, off⟩) (i + 1) =
      .ok (encodeValue cs, ⟨i + 1, off + (encodeValue bs).length⟩) := by
  obtain ⟨j, hj, hjl⟩ := payloadInfo_encodeValue cs rest hc
  have hcons : consume bytes off = .ok (encodeValue bs ++ (encodeValue cs ++ rest)) := by
    simp [consume, h, hoff]
  simp [atWithOffset, hl, Option.filter, hcons, consumeItems_encodeValue bs _ hb, hj, hjl,
    Except.map, bind, Except.bind, pure, Except.pure]

def ShortItem (e : Bytes) : Prop := ∃ bs, bs.length < 56 ∧ e = encodeValue bs

/-- In a list of four short items whose payload is 56 bytes or more, `val_at` finds the four
items in order, whatever bytes follow the list. -/
theorem atWithOffset_encodeList {e₁ e₂ e₃ e₄ : Bytes} (rest : Bytes) (h₁ : ShortItem e₁)
    (h₂ : ShortItem e₂) (h₃ : ShortItem e₃) (h₄ : ShortItem e₄)
    (hP : 56 ≤ (e₁ ++ (e₂ ++ (e₃ ++ e₄))).length) :
    ∃ c₀ c₁ c₂ c₃, atWithOffset (encodeList [e₁, e₂, e₃, e₄] ++ rest) none 0 = .ok (e₁, c₀) ∧
      atWithOffset (encodeList [e₁, e₂, e₃, e₄] ++ rest) (some c₀) 1 = .ok (e₂, c₁) ∧
      atWithOffset (encodeList [e₁, e₂, e₃, e₄] ++ rest) (some c₁) 2 = .ok (e₃, c₂) ∧
      atWithOffset (encodeList [e₁, e₂, e₃, e₄] ++ rest) (some c₂) 3 = .ok (e₄, c₃) := by
  obtain ⟨bs₁, l₁, rfl⟩ := h₁
  obtain ⟨bs₂, l₂, rfl⟩ := h₂
  obtain ⟨bs₃, l₃, rfl⟩ := h₃
  obtain ⟨bs₄, l₄, rfl⟩ := h₄
  have hPl : (encodeValue bs₁ ++ (encodeValue bs₂ ++ (encodeValue bs₃ ++ encodeValue bs₄))).length <
      2 ^ 64 := by
    have := length_encodeValue_le bs₁ l₁; have := length_encodeValue_le bs₂ l₂
    have := length_encodeValue_le bs₃ l₃; have := length_encodeValue_le bs₄ l₄
    simp only [List.length_append]; omega
  rw [show encodeList [encodeValue bs₁, encodeValue bs₂, encodeValue bs₃, encodeValue bs₄] =
    rlpHeader 0xc0 (encodeValue bs₁ ++ (encodeValue bs₂ ++ (encodeValue bs₃ ++ encodeValue bs₄))).length
      ++ (encodeValue bs₁ ++ (encodeValue bs₂ ++ (encodeValue bs₃ ++ encodeValue bs₄))) by
    simp [encodeList]]
  have hlist := isList_rlpHeader_list _ rest hP hPl
  have hc := consumeListPayload_rlpHeader_list _ rest hP hPl
  generalize rlpHeader 0xc0 _ = H at hlist hc ⊢
  exact ⟨_, _, _, _, atWithOffset_first hlist l₁ hc,
    atWithOffset_next hlist H (encodeValue bs₃ ++ (encodeValue bs₄ ++ rest)) l₁ l₂ (by simp) rfl,
    atWithOffset_next hlist (H ++ encodeValue bs₁) (encodeValue bs₄ ++ rest) l₂ l₃ (by simp)
      (by simp),
    atWithOffset_next hlist (H ++ encodeValue bs₁ ++ encodeValue bs₂) rest l₃ l₄ (by simp)
      (by simp [Nat.add_assoc])⟩

/-- The decoder reads back every encoded account, and never looks at the bytes after it. -/
theorem AccountRlp.decode_encode_append (a : AccountRlp) (rest : Bytes) :
    AccountRlp.decode (a.encode ++ rest) = .ok a := by
  have l₁ := length_minimalBytesBE_le 32 a.nonce.val
  have l₂ := length_minimalBytesBE_le 32 a.balance.val
  have k₃ := length_encodeH256 a.storageRoot
  have k₄ := length_encodeH256 a.codeHash
  obtain ⟨c₀, c₁, c₂, c₃, h₀, h₁, h₂, h₃⟩ := atWithOffset_encodeList rest
    (⟨_, by omega, rfl⟩ : ShortItem (encodeU256 a.nonce))
    (⟨_, by omega, rfl⟩ : ShortItem (encodeU256 a.balance))
    (⟨_, by simp, rfl⟩ : ShortItem (encodeH256 a.storageRoot))
    (⟨_, by simp, rfl⟩ : ShortItem (encodeH256 a.codeHash))
    (by rw [List.length_append, List.length_append, List.length_append, k₃, k₄]; omega)
  simp only [AccountRlp.decode, AccountRlp.encode, valAt, h₀, h₁, h₂, h₃, decodeU256_encodeU256,
    decodeH256_encodeH256, bind, Except.bind, pure, Except.pure]

theorem AccountRlp.decode_encode (a : AccountRlp) : AccountRlp.decode a.encode = .ok a := by
  simpa using AccountRlp.decode_encode_append a []

theorem encodeValue_inj {bs cs : Bytes} (hb : bs.length < 56) (hc : cs.length < 56)
    (h : encodeValue bs = encodeValue cs) : bs = cs := by
  have := decodeValue_encodeValue (fun b : Bytes => (.ok b : Except DecoderError Bytes)) bs hb
  rw [h, decodeValue_encodeValue _ cs hc] at this
  exact (Except.ok.inj this).symm

theorem length_encodeUsize_le (n : Nat) : (encodeUsize n).length ≤ 9 :=
  (length_encodeValue_le _ ((length_minimalBytesBE_le 8 n).trans_lt (by norm_num))).trans
    (by have := length_minimalBytesBE_le 8 n; omega)

theorem encodeUsize_inj {m n : Nat} (hm : m < 2 ^ 64) (hn : n < 2 ^ 64)
    (h : encodeUsize m = encodeUsize n) : m = n := by
  have hb := encodeValue_inj ((length_minimalBytesBE_le 8 m).trans_lt (by norm_num))
    ((length_minimalBytesBE_le 8 n).trans_lt (by norm_num)) h
  have := congrArg ofBytesBE hb
  rwa [ofBytesBE_minimalBytesBE, ofBytesBE_minimalBytesBE,
    Nat.mod_eq_of_lt (by simpa using hm), Nat.mod_eq_of_lt (by simpa using hn)] at this

end ZkEvmTrace
