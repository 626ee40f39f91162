import Mathlib.Data.List.FinRange
import Mathlib.Logic.Function.Basic
import Mathlib.Tactic.Ring
import Mathlib.Tactic.Linarith

/-!
# Words, byte strings and nibble keys

The fixed-width integers of `ethereum_types` (`U256`, `H256`, `U512`, `Address`) as `Fin`
values, their big-endian byte conversions, and the nibble keys of `mpt_trie`. A `U256`
addition that would overflow panics in the source; here it is `none`.
-/

namespace ZkEvmTrace

abbrev Bytes := List UInt8
abbrev U256 := Fin (2 ^ 256)
abbrev H256 := Fin (2 ^ 256)
abbrev U512 := Fin (2 ^ 512)
abbrev Address := Fin (2 ^ 160)

/-- `U256` addition, `none` where `uint` panics with an overflow. -/
def U256.checkedAdd (a b : U256) : Option U256 :=
  if h : a.val + b.val < 2 ^ 256 then some ⟨a.val + b.val, h⟩ else none

theorem U256.checkedAdd_eq_some {a b c : U256} :
    a.checkedAdd b = some c ↔ a.val + b.val < 2 ^ 256 ∧ c.val = a.val + b.val := by
  unfold U256.checkedAdd
  split <;> rename_i h
  · exact ⟨fun e => ⟨h, by rw [← Option.some.inj e]⟩, fun ⟨_, e⟩ => congrArg some (Fin.ext e.symm)⟩
  · exact ⟨fun e => absurd e (by simp), fun ⟨h', _⟩ => absurd h' h⟩

theorem U256.checkedAdd_isSome {a b : U256} (h : a.val + b.val < 2 ^ 256) :
    a.checkedAdd b = some ⟨a.val + b.val, h⟩ := by
  rw [U256.checkedAdd, dif_pos h]

/-- `u64::into()` as a `U256`. -/
def UInt64.toU256 (g : UInt64) : U256 :=
  ⟨g.toNat, by have := g.toNat_lt_size; simp only [UInt64.size] at this; omega⟩

instance exceptDecidableEq {ε α : Type} [DecidableEq ε] [DecidableEq α] :
    DecidableEq (Except ε α)
  | .ok a, .ok b => decidable_of_iff (a = b) ⟨congrArg _, Except.ok.inj⟩
  | .error a, .error b => decidable_of_iff (a = b) ⟨congrArg _, Except.error.inj⟩
  | .ok _, .error _ => isFalse Except.noConfusion
  | .error _, .ok _ => isFalse Except.noConfusion

theorem bind_eq_ok {ε α β : Type} {x : Except ε α} {f : α → Except ε β} {b : β} :
    x >>= f = .ok b ↔ ∃ a, x = .ok a ∧ f a = .ok b := by
  cases x <;> simp [bind, Except.bind]

theorem map_eq_ok {ε α β : Type} {x : Except ε α} {f : α → β} {b : β} :
    x.map f = .ok b ↔ ∃ a, x = .ok a ∧ f a = b := by
  cases x <;> simp [Except.map]

theorem foldlM_cons_eq_ok {ε α β : Type} {f : β → α → Except ε β} {x : α} {xs : List α}
    {b b' : β} :
    (x :: xs).foldlM f b = .ok b' ↔ ∃ b₁, f b x = .ok b₁ ∧ xs.foldlM f b₁ = .ok b' := by
  rw [List.foldlM_cons]
  exact bind_eq_ok

theorem foldlM_append_eq_ok {ε α β : Type} {f : β → α → Except ε β} {xs ys : List α}
    {b b' : β} :
    (xs ++ ys).foldlM f b = .ok b' ↔ ∃ b₁, xs.foldlM f b = .ok b₁ ∧ ys.foldlM f b₁ = .ok b' := by
  rw [List.foldlM_append]
  exact bind_eq_ok

/-- A successful fold keeps an invariant that each step keeps, the invariant seeing what
remains of the list. -/
theorem foldlM_invariant {ε α β : Type} {f : β → α → Except ε β} (I : β → List α → Prop)
    {xs : List α} {b b' : β} (h : xs.foldlM f b = .ok b') (h₀ : I b xs)
    (step : ∀ b x xs b', I b (x :: xs) → f b x = .ok b' → I b' xs) : I b' [] := by
  induction xs generalizing b with
  | nil => cases h; exact h₀
  | cons x xs ih =>
    obtain ⟨b₁, h₁, h₂⟩ := foldlM_cons_eq_ok.mp h
    exact ih h₂ (step b x xs b₁ h₀ h₁)

/-- A fold that succeeds is simulated, step by step, by a fold of another step function over
the same list from a related start; each step may use where the rest of the fold arrives. -/
theorem foldlM_simulate_rest {ε α β γ : Type} {f : β → α → Except ε β} {g : γ → α → Except ε γ}
    (R : β → γ → Prop) {P : α → Prop} {xs : List α} {b b' : β} {c : γ}
    (h : xs.foldlM f b = .ok b') (hR : R b c) (hP : ∀ x ∈ xs, P x)
    (step : ∀ b c x (xs : List α) b₁, R b c → P x → f b x = .ok b₁ → xs.foldlM f b₁ = .ok b' →
      ∃ c₁, g c x = .ok c₁ ∧ R b₁ c₁) :
    ∃ c', xs.foldlM g c = .ok c' ∧ R b' c' := by
  induction xs generalizing b c with
  | nil => cases h; exact ⟨c, rfl, hR⟩
  | cons x xs ih =>
    obtain ⟨b₁, h₁, h₂⟩ := foldlM_cons_eq_ok.mp h
    obtain ⟨c₁, hc₁, hR₁⟩ := step b c x xs b₁ hR (hP x (List.mem_cons_self x xs)) h₁ h₂
    obtain ⟨c', hc', hR'⟩ := ih h₂ hR₁ fun y hy => hP y (List.mem_cons_of_mem x hy)
    exact ⟨c', foldlM_cons_eq_ok.mpr ⟨c₁, hc₁, hc'⟩, hR'⟩

theorem foldlM_simulate {ε α β γ : Type} {f : β → α → Except ε β} {g : γ → α → Except ε γ}
    (R : β → γ → Prop) {P : α → Prop} {xs : List α} {b b' : β} {c : γ}
    (h : xs.foldlM f b = .ok b') (hR : R b c) (hP : ∀ x ∈ xs, P x)
    (step : ∀ b c x b', R b c → P x → f b x = .ok b' → ∃ c', g c x = .ok c' ∧ R b' c') :
    ∃ c', xs.foldlM g c = .ok c' ∧ R b' c' :=
  foldlM_simulate_rest R h hR hP fun b c x _ b₁ hR hx hb _ => step b c x b₁ hR hx hb

theorem bind_eq_error {ε α β : Type} {x : Except ε α} {f : α → Except ε β} {e : ε} :
    x >>= f = .error e ↔ x = .error e ∨ ∃ a, x = .ok a ∧ f a = .error e := by
  cases x <;> simp [bind, Except.bind]

/-- The error a fold returns is one a step returned from a state that keeps an invariant every
successful step keeps. -/
theorem foldlM_eq_error {ε α β : Type} {f : β → α → Except ε β} (I : β → Prop) (P : ε → Prop)
    (step_ok : ∀ b x b', I b → f b x = .ok b' → I b')
    (step_error : ∀ b x e, I b → f b x = .error e → P e) {xs : List α} {b : β} {e : ε}
    (h₀ : I b) (h : xs.foldlM f b = .error e) : P e := by
  induction xs generalizing b with
  | nil => cases h
  | cons x xs ih =>
    rcases bind_eq_error.mp (List.foldlM_cons f b x xs ▸ h) with hx | ⟨b₁, hx, h₁⟩
    · exact step_error b x e h₀ hx
    · exact ih (step_ok b x b₁ h₀ hx) h₁

/-- A successful `mapM` relates each input to its output, in order. -/
theorem mapM_eq_ok_forall₂ {ε α β : Type} {f : α → Except ε β} {R : α → β → Prop}
    (hf : ∀ x y, f x = .ok y → R x y) : ∀ {xs : List α} {ys : List β},
    xs.mapM f = .ok ys → List.Forall₂ R xs ys
  | [], _, h => by cases h; exact .nil
  | x :: xs, _, h => by
    rw [List.mapM_cons] at h
    obtain ⟨y, hy, h⟩ := bind_eq_ok.mp h
    obtain ⟨ys, hys, h⟩ := bind_eq_ok.mp h
    cases h
    exact .cons (hf x y hy) (mapM_eq_ok_forall₂ hf hys)

/-- A `mapM` succeeds exactly when it succeeds on each element. -/
theorem exists_mapM_eq_ok_iff {ε α β : Type} {f : α → Except ε β} {xs : List α} :
    (∃ ys, xs.mapM f = .ok ys) ↔ ∀ x ∈ xs, ∃ y, f x = .ok y := by
  induction xs with
  | nil => exact ⟨fun _ x hx => absurd hx (List.not_mem_nil x), fun _ => ⟨[], rfl⟩⟩
  | cons a as ih =>
    simp only [List.mapM_cons, bind_eq_ok, List.forall_mem_cons, ← ih]
    constructor
    · rintro ⟨_, y, hy, ys, hys, -⟩
      exact ⟨⟨y, hy⟩, ys, hys⟩
    · rintro ⟨⟨y, hy⟩, ys, hys⟩
      exact ⟨_, y, hy, ys, hys, rfl⟩

/-- Each element of a successful `mapM` has its result among the results, and each result
comes from an element. -/
theorem mapM_eq_ok_mem {ε α β : Type} {f : α → Except ε β} {xs : List α} {ys : List β}
    (h : xs.mapM f = .ok ys) :
    (∀ x ∈ xs, ∃ y ∈ ys, f x = .ok y) ∧ ∀ y ∈ ys, ∃ x ∈ xs, f x = .ok y := by
  induction xs generalizing ys with
  | nil => cases h; exact ⟨nofun, nofun⟩
  | cons a as ih =>
    rw [List.mapM_cons] at h
    obtain ⟨b, hb, h⟩ := bind_eq_ok.mp h
    obtain ⟨bs, hbs, h⟩ := bind_eq_ok.mp h
    cases h
    obtain ⟨ih₁, ih₂⟩ := ih hbs
    refine ⟨fun x hx => ?_, fun y hy => ?_⟩
    · rcases List.mem_cons.mp hx with rfl | hx
      · exact ⟨b, List.mem_cons_self _ _, hb⟩
      · obtain ⟨y, hy, hfy⟩ := ih₁ x hx
        exact ⟨y, List.mem_cons_of_mem _ hy, hfy⟩
    · rcases List.mem_cons.mp hy with rfl | hy
      · exact ⟨a, List.mem_cons_self _ _, hb⟩
      · obtain ⟨x, hx, hfx⟩ := ih₂ y hy
        exact ⟨x, List.mem_cons_of_mem _ hx, hfx⟩

/-- A `forM` succeeds exactly when it succeeds on each element. -/
theorem forM_eq_ok_iff {ε α : Type} {f : α → Except ε PUnit} {xs : List α} :
    xs.forM f = .ok ⟨⟩ ↔ ∀ x ∈ xs, f x = .ok ⟨⟩ := by
  induction xs with
  | nil => exact ⟨fun _ x hx => absurd hx (List.not_mem_nil x), fun _ => rfl⟩
  | cons a as ih =>
    rw [List.forM_cons', List.forall_mem_cons, ← ih]
    cases f a <;> simp [bind, Except.bind]

/-- `n` as `width` big-endian bytes, as `to_big_endian` writes a fixed-width word. -/
def toBytesBE : Nat → Nat → Bytes
  | 0, _ => []
  | w + 1, n => toBytesBE w (n / 256) ++ [UInt8.ofNat (n % 256)]

/-- The value of big-endian bytes, as `from_big_endian` reads them. -/
def ofBytesBE (bs : Bytes) : Nat := bs.foldl (fun acc b => acc * 256 + b.toNat) 0

/-- The big-endian bytes of a `width`-byte word with its leading zero bytes dropped: what
`rlp` writes for an integer. -/
def minimalBytesBE (width n : Nat) : Bytes := (toBytesBE width n).dropWhile (· == 0)

@[simp] theorem length_toBytesBE (w n : Nat) : (toBytesBE w n).length = w := by
  induction w generalizing n with
  | zero => rfl
  | succ w ih => simp [toBytesBE, ih]

theorem ofBytesBE_append (bs cs : Bytes) :
    ofBytesBE (bs ++ cs) = ofBytesBE bs * 256 ^ cs.length + ofBytesBE cs := by
  unfold ofBytesBE
  induction cs using List.reverseRecOn with
  | nil => simp
  | append_singleton cs c ih =>
    rw [← List.append_assoc, List.foldl_append, ih, List.foldl_append]
    simp only [List.foldl_cons, List.foldl_nil, List.length_append, List.length_singleton,
      pow_succ]
    ring

@[simp] theorem ofBytesBE_nil : ofBytesBE [] = 0 := rfl

theorem ofBytesBE_cons (b : UInt8) (bs : Bytes) :
    ofBytesBE (b :: bs) = b.toNat * 256 ^ bs.length + ofBytesBE bs := by
  simpa [ofBytesBE] using ofBytesBE_append [b] bs

theorem ofBytesBE_lt (bs : Bytes) : ofBytesBE bs < 256 ^ bs.length := by
  induction bs with
  | nil => simp
  | cons b bs ih =>
    rw [ofBytesBE_cons, List.length_cons, pow_succ]
    have hb : b.toNat + 1 ≤ 256 := b.toNat_lt_size
    have hp : 0 < 256 ^ bs.length := pow_pos (by norm_num) _
    nlinarith

theorem ofBytesBE_toBytesBE (w n : Nat) : ofBytesBE (toBytesBE w n) = n % 256 ^ w := by
  induction w generalizing n with
  | zero => simp [toBytesBE, Nat.mod_one]
  | succ w ih =>
    rw [toBytesBE, ofBytesBE_append, ih]
    simp only [List.length_singleton, pow_one, ofBytesBE, List.foldl_cons, List.foldl_nil,
      zero_mul, zero_add, UInt8.toNat_ofNat_of_lt (Nat.mod_lt n (by norm_num : 0 < 256))]
    rw [pow_succ', Nat.mod_mul]
    ring

/-- Leading zero bytes do not change the value. -/
theorem ofBytesBE_dropWhile (bs : Bytes) : ofBytesBE (bs.dropWhile (· == 0)) = ofBytesBE bs := by
  induction bs with
  | nil => rfl
  | cons b bs ih =>
    by_cases hb : b = 0
    · subst hb
      simp [List.dropWhile, ih, ofBytesBE_cons]
    · simp [List.dropWhile_cons, hb]

theorem ofBytesBE_minimalBytesBE (w n : Nat) : ofBytesBE (minimalBytesBE w n) = n % 256 ^ w := by
  rw [minimalBytesBE, ofBytesBE_dropWhile, ofBytesBE_toBytesBE]

theorem length_minimalBytesBE_le (w n : Nat) : (minimalBytesBE w n).length ≤ w :=
  (List.dropWhile_sublist _).length_le.trans (length_toBytesBE w n).le

theorem head_minimalBytesBE_ne_zero {w n : Nat} {b : UInt8} {bs : Bytes}
    (h : minimalBytesBE w n = b :: bs) : b ≠ 0 := by
  intro hb
  have := List.head_dropWhile_not (· == 0) (toBytesBE w n)
  simp only [minimalBytesBE] at h
  simp [h, hb] at this

theorem toBytesBE_injective {w m n : Nat} (hm : m < 256 ^ w) (hn : n < 256 ^ w)
    (h : toBytesBE w m = toBytesBE w n) : m = n := by
  have := congrArg ofBytesBE h
  rwa [ofBytesBE_toBytesBE, ofBytesBE_toBytesBE, Nat.mod_eq_of_lt hm, Nat.mod_eq_of_lt hn] at this

/-! ## Nibble keys -/

abbrev Nibble := Fin 16

/-- `mpt_trie::nibbles::Nibbles`: a trie key as its nibbles, most significant first. -/
abbrev Nibbles := List Nibble

/-- The two nibbles of a byte, the high one first. -/
def byteNibbles (b : UInt8) : Nibbles :=
  [⟨b.toNat / 16, by have : b.toNat < 256 := b.toNat_lt_size; omega⟩, ⟨b.toNat % 16, Nat.mod_lt _ (by norm_num)⟩]

theorem byteNibbles_injective : Function.Injective byteNibbles := by
  intro a b h
  simp only [byteNibbles, List.cons.injEq, Fin.mk.injEq, and_true] at h
  exact UInt8.toNat.inj (by omega)

theorem flatMap_byteNibbles_injective {bs cs : Bytes}
    (h : bs.flatMap byteNibbles = cs.flatMap byteNibbles) : bs = cs := by
  induction bs generalizing cs with
  | nil => cases cs <;> simp_all [byteNibbles]
  | cons b bs ih =>
    cases cs with
    | nil => simp [byteNibbles] at h
    | cons c cs =>
      simp only [List.flatMap_cons] at h
      obtain ⟨h1, h2⟩ := List.append_inj h (by simp [byteNibbles])
      rw [byteNibbles_injective h1, ih h2]

namespace Nibbles

/-- `Nibbles::from_bytes_be`, `none` for more than 32 bytes. -/
def fromBytesBe (bs : Bytes) : Option Nibbles :=
  if bs.length ≤ 32 then some (bs.flatMap byteNibbles) else none

/-- `Nibbles::from_h256_be`: the 64 nibbles of a hash. -/
def fromH256Be (h : H256) : Nibbles := (toBytesBE 32 h.val).flatMap byteNibbles

/-- Pairs of nibbles packed into bytes, high nibble first. -/
def pack : Nibbles → Bytes
  | a :: b :: rest => UInt8.ofNat (a.val * 16 + b.val) :: pack rest
  | _ => []

/-- `Nibbles::bytes_be`: the key as bytes, an odd count padded with a leading zero nibble. -/
def bytesBe (ns : Nibbles) : Bytes := pack (if ns.length % 2 = 1 then 0 :: ns else ns)

theorem fromH256Be_injective : Function.Injective fromH256Be := fun a b h =>
  Fin.ext (toBytesBE_injective (by simp) (by simp)
    (flatMap_byteNibbles_injective h))

theorem fromBytesBe_inj {bs cs : Bytes} {k : Nibbles} (hb : fromBytesBe bs = some k)
    (hc : fromBytesBe cs = some k) : bs = cs := by
  unfold fromBytesBe at hb hc
  split at hb <;> split at hc <;> simp only [Option.some.injEq, reduceCtorEq] at hb hc
  exact flatMap_byteNibbles_injective (hb.trans hc.symm)

end Nibbles

end ZkEvmTrace
