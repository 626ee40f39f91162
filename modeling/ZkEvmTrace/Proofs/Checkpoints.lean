import ZkEvmTrace.Traces

/-!
# Checkpoints and rollback

Along any run of pushes, checkpoints and rollbacks to checkpoints taken during the run, the logs
at its start stay prefixes of the live logs, and every checkpoint taken covers the lengths at
the start. Rolling back to the checkpoint of the start then gives back exactly the logs at the
start, and the memory operations since that checkpoint are the live log past them.
-/

namespace ZkEvmTrace

variable {Row LogicOp MemoryOp : Type}

/-- Every log of `t₀` is a prefix of the same log of `t`. -/
structure Traces.Extends (t₀ t : Traces Row LogicOp MemoryOp) : Prop where
  arithmeticOps : t₀.arithmeticOps <+: t.arithmeticOps
  bytePackingOps : t₀.bytePackingOps <+: t.bytePackingOps
  cpu : t₀.cpu <+: t.cpu
  logicOps : t₀.logicOps <+: t.logicOps
  memoryOps : t₀.memoryOps <+: t.memoryOps
  keccakInputs : t₀.keccakInputs <+: t.keccakInputs
  keccakSpongeOps : t₀.keccakSpongeOps <+: t.keccakSpongeOps

/-- Every length of `c` is at least that of `c₀`. -/
structure TraceCheckpoint.Covers (c₀ c : TraceCheckpoint) : Prop where
  arithmeticLen : c₀.arithmeticLen ≤ c.arithmeticLen
  bytePackingLen : c₀.bytePackingLen ≤ c.bytePackingLen
  cpuLen : c₀.cpuLen ≤ c.cpuLen
  keccakLen : c₀.keccakLen ≤ c.keccakLen
  keccakSpongeLen : c₀.keccakSpongeLen ≤ c.keccakSpongeLen
  logicLen : c₀.logicLen ≤ c.logicLen
  memoryLen : c₀.memoryLen ≤ c.memoryLen

namespace Traces

variable {t₀ t : Traces Row LogicOp MemoryOp}

theorem Extends.refl (t : Traces Row LogicOp MemoryOp) : t.Extends t :=
  ⟨List.prefix_refl _, List.prefix_refl _, List.prefix_refl _, List.prefix_refl _,
    List.prefix_refl _, List.prefix_refl _, List.prefix_refl _⟩

theorem Extends.covers (h : t₀.Extends t) : t₀.checkpoint.Covers t.checkpoint :=
  ⟨h.arithmeticOps.length_le, h.bytePackingOps.length_le, h.cpu.length_le,
    h.keccakInputs.length_le, h.keccakSpongeOps.length_le, h.logicOps.length_le,
    h.memoryOps.length_le⟩

theorem Extends.rollback (h : t₀.Extends t) {c : TraceCheckpoint}
    (hc : t₀.checkpoint.Covers c) : t₀.Extends (t.rollback c) :=
  ⟨List.prefix_take_iff.mpr ⟨h.arithmeticOps, hc.arithmeticLen⟩,
    List.prefix_take_iff.mpr ⟨h.bytePackingOps, hc.bytePackingLen⟩,
    List.prefix_take_iff.mpr ⟨h.cpu, hc.cpuLen⟩,
    List.prefix_take_iff.mpr ⟨h.logicOps, hc.logicLen⟩,
    List.prefix_take_iff.mpr ⟨h.memoryOps, hc.memoryLen⟩,
    List.prefix_take_iff.mpr ⟨h.keccakInputs, hc.keccakLen⟩,
    List.prefix_take_iff.mpr ⟨h.keccakSpongeOps, hc.keccakSpongeLen⟩⟩

/-- Rolling a longer state back to the checkpoint of a shorter one gives the shorter one. -/
theorem Extends.rollback_checkpoint (h : t₀.Extends t) : t.rollback t₀.checkpoint = t₀ := by
  simp only [Traces.rollback, Traces.checkpoint, ← List.prefix_iff_eq_take.mp h.arithmeticOps,
    ← List.prefix_iff_eq_take.mp h.bytePackingOps, ← List.prefix_iff_eq_take.mp h.cpu,
    ← List.prefix_iff_eq_take.mp h.logicOps, ← List.prefix_iff_eq_take.mp h.memoryOps,
    ← List.prefix_iff_eq_take.mp h.keccakInputs, ← List.prefix_iff_eq_take.mp h.keccakSpongeOps]

theorem Extends.memOpsSince_checkpoint (h : t₀.Extends t) :
    t.memOpsSince t₀.checkpoint = some (t.memoryOps.drop t₀.memoryOps.length) :=
  if_pos h.memoryOps.length_le

end Traces

/-! ## Runs -/

namespace TraceOp

/-- What a run keeps: the logs of `t₀` stay prefixes of the live ones, and every checkpoint
taken covers `t₀`'s. -/
def Keeps (t₀ : Traces Row LogicOp MemoryOp)
    (s : Traces Row LogicOp MemoryOp × List TraceCheckpoint) : Prop :=
  t₀.Extends s.1 ∧ ∀ c ∈ s.2, t₀.checkpoint.Covers c

variable {t₀ : Traces Row LogicOp MemoryOp}
  {s s' : Traces Row LogicOp MemoryOp × List TraceCheckpoint}

theorem keeps_step {op : TraceOp Row LogicOp MemoryOp} (hs : Keeps t₀ s)
    (h : op.step s = some s') : Keeps t₀ s' := by
  obtain ⟨t, cs⟩ := s
  obtain ⟨he, hc⟩ := hs
  cases op with
  | pushArithmetic op =>
    cases h; exact ⟨{ he with arithmeticOps := he.arithmeticOps.trans (List.prefix_append _ _) }, hc⟩
  | pushBytePacking op =>
    cases h
    exact ⟨{ he with bytePackingOps := he.bytePackingOps.trans (List.prefix_append _ _) }, hc⟩
  | pushCpu row => cases h; exact ⟨{ he with cpu := he.cpu.trans (List.prefix_append _ _) }, hc⟩
  | pushLogic op =>
    cases h; exact ⟨{ he with logicOps := he.logicOps.trans (List.prefix_append _ _) }, hc⟩
  | pushMemory op =>
    cases h; exact ⟨{ he with memoryOps := he.memoryOps.trans (List.prefix_append _ _) }, hc⟩
  | pushKeccak input =>
    cases h; exact ⟨{ he with keccakInputs := he.keccakInputs.trans (List.prefix_append _ _) }, hc⟩
  | pushKeccakSponge op =>
    cases h
    exact ⟨{ he with keccakSpongeOps := he.keccakSpongeOps.trans (List.prefix_append _ _) }, hc⟩
  | checkpoint =>
    cases h
    refine ⟨he, fun c hmem => ?_⟩
    rcases List.mem_append.mp hmem with hmem | hmem
    · exact hc c hmem
    · rw [List.mem_singleton.mp hmem]
      exact he.covers
  | rollback i =>
    obtain ⟨c, hi, rfl⟩ := Option.map_eq_some'.mp h
    exact ⟨he.rollback (hc c (List.getElem?_mem hi)), hc⟩

/-- A whole run keeps `Keeps t₀`. -/
theorem keeps_run {ops : List (TraceOp Row LogicOp MemoryOp)} (hs : Keeps t₀ s)
    (h : run ops s = some s') : Keeps t₀ s' := by
  induction ops generalizing s with
  | nil => cases h; exact hs
  | cons op ops ih =>
    obtain ⟨s₁, h₁, h₂⟩ := Option.bind_eq_some.mp h
    exact ih (keeps_step hs h₁) h₂

end TraceOp

/-- After any run from `t₀` that rolls back only to checkpoints it took, the memory operations
since `t₀`'s checkpoint are the live log past `t₀`'s, and rolling back to that checkpoint gives
`t₀` back, with its clock and lengths. -/
theorem run_rollback_to_start {t₀ t : Traces Row LogicOp MemoryOp}
    {ops : List (TraceOp Row LogicOp MemoryOp)} {cs : List TraceCheckpoint}
    (h : TraceOp.run ops (t₀, []) = some (t, cs)) :
    (∃ ms, t.memOpsSince t₀.checkpoint = some ms ∧ t.memoryOps = t₀.memoryOps ++ ms) ∧
      t.rollback t₀.checkpoint = t₀ ∧ (t.rollback t₀.checkpoint).clock = t₀.clock ∧
      ∀ numRounds keccakRateBytes, (t.rollback t₀.checkpoint).getLengths numRounds
        keccakRateBytes = t₀.getLengths numRounds keccakRateBytes := by
  have he : t₀.Extends t :=
    (TraceOp.keeps_run ⟨Traces.Extends.refl t₀, fun _ hc => absurd hc (List.not_mem_nil _)⟩ h).1
  refine ⟨⟨_, he.memOpsSince_checkpoint, (List.prefix_iff_eq_append.mp he.memoryOps).symm⟩,
    he.rollback_checkpoint, ?_, fun _ _ => ?_⟩ <;> rw [he.rollback_checkpoint]

def sampleTraces : Traces Nat Nat Nat := ⟨[], [], [7], [], [0], [], []⟩

def sampleTraceOps : List (TraceOp Nat Nat Nat) :=
  [.pushMemory 1, .checkpoint, .pushMemory 2, .pushCpu 5, .rollback 0, .pushMemory 3,
    .pushArithmetic (.binaryOperation .div)]

theorem rollback_to_start_sample :
    ∃ t cs, TraceOp.run sampleTraceOps (sampleTraces, []) = some (t, cs) ∧
      ((∃ ms, t.memOpsSince sampleTraces.checkpoint = some ms ∧
        t.memoryOps = sampleTraces.memoryOps ++ ms) ∧
      t.rollback sampleTraces.checkpoint = sampleTraces ∧
      (t.rollback sampleTraces.checkpoint).clock = sampleTraces.clock ∧
      ∀ numRounds keccakRateBytes, (t.rollback sampleTraces.checkpoint).getLengths numRounds
        keccakRateBytes = sampleTraces.getLengths numRounds keccakRateBytes) :=
  ⟨_, _, rfl, @run_rollback_to_start Nat Nat Nat sampleTraces _ sampleTraceOps _ rfl⟩

end ZkEvmTrace
