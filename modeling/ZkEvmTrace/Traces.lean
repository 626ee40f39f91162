import Mathlib.Algebra.Order.Ring.Nat

/-!
# Operation logs of the witness generator

`witness/traces.rs`: while it runs the interpreter, the witness generator appends to seven logs,
one per STARK table. A checkpoint records their lengths; a rollback truncates each log back to a
checkpoint, and `mem_ops_since` is the tail of the memory log past one.

The elements of the logs are kept as far as `get_lengths` reads them: the kind of an arithmetic
operation, whether a byte-packing operation has bytes, the input length of a sponge operation.
CPU rows, logic operations and memory operations are type parameters.
-/

namespace ZkEvmTrace

inductive BinaryOperator where
  | div
  | mod
  | other
  deriving DecidableEq, Repr

inductive ArithmeticOperation where
  | ternaryOperation
  | binaryOperation (operator : BinaryOperator)
  | rangeCheckOperation
  deriving DecidableEq, Repr

structure BytePackingOp where
  bytes : List UInt8
  deriving DecidableEq, Repr

structure KeccakSpongeOp where
  input : List UInt8
  deriving DecidableEq, Repr

/-- `TraceCheckpoint`: one length per table. -/
structure TraceCheckpoint where
  arithmeticLen : Nat
  bytePackingLen : Nat
  cpuLen : Nat
  keccakLen : Nat
  keccakSpongeLen : Nat
  logicLen : Nat
  memoryLen : Nat
  deriving DecidableEq, Repr

/-- `Traces<T>`: the seven logs; a keccak input is the state words with a length. -/
structure Traces (Row LogicOp MemoryOp : Type) where
  arithmeticOps : List ArithmeticOperation
  bytePackingOps : List BytePackingOp
  cpu : List Row
  logicOps : List LogicOp
  memoryOps : List MemoryOp
  keccakInputs : List (List UInt64 × Nat)
  keccakSpongeOps : List KeccakSpongeOp
  deriving DecidableEq, Repr

namespace Traces

variable {Row LogicOp MemoryOp : Type}

def new : Traces Row LogicOp MemoryOp := ⟨[], [], [], [], [], [], []⟩

def arithmeticRows : ArithmeticOperation → Nat
  | .ternaryOperation => 2
  | .binaryOperation .div | .binaryOperation .mod => 2
  | .binaryOperation .other => 1
  | .rangeCheckOperation => 1

/-- `Traces::get_lengths`: the rows each table will take, over the keccak permutation's
`NUM_ROUNDS` and the sponge's `KECCAK_RATE_BYTES`. -/
def getLengths (numRounds keccakRateBytes : Nat) (t : Traces Row LogicOp MemoryOp) :
    TraceCheckpoint where
  arithmeticLen := (t.arithmeticOps.map arithmeticRows).sum
  bytePackingLen := (t.bytePackingOps.map fun op => if op.bytes.isEmpty then 0 else 1).sum
  cpuLen := t.cpu.length
  keccakLen := t.keccakInputs.length * numRounds
  keccakSpongeLen := (t.keccakSpongeOps.map fun op => op.input.length / keccakRateBytes + 1).sum
  logicLen := t.logicOps.length
  memoryLen := t.memoryOps.length

def checkpoint (t : Traces Row LogicOp MemoryOp) : TraceCheckpoint where
  arithmeticLen := t.arithmeticOps.length
  bytePackingLen := t.bytePackingOps.length
  cpuLen := t.cpu.length
  keccakLen := t.keccakInputs.length
  keccakSpongeLen := t.keccakSpongeOps.length
  logicLen := t.logicOps.length
  memoryLen := t.memoryOps.length

/-- `Traces::rollback`: `Vec::truncate` of each log, which leaves a shorter log as it is. -/
def rollback (t : Traces Row LogicOp MemoryOp) (checkpoint : TraceCheckpoint) :
    Traces Row LogicOp MemoryOp where
  arithmeticOps := t.arithmeticOps.take checkpoint.arithmeticLen
  bytePackingOps := t.bytePackingOps.take checkpoint.bytePackingLen
  cpu := t.cpu.take checkpoint.cpuLen
  keccakInputs := t.keccakInputs.take checkpoint.keccakLen
  keccakSpongeOps := t.keccakSpongeOps.take checkpoint.keccakSpongeLen
  logicOps := t.logicOps.take checkpoint.logicLen
  memoryOps := t.memoryOps.take checkpoint.memoryLen

/-- `Traces::mem_ops_since`: the slice from the checkpoint's memory length on, `none` where
the slice index panics. -/
def memOpsSince (t : Traces Row LogicOp MemoryOp) (checkpoint : TraceCheckpoint) :
    Option (List MemoryOp) :=
  if checkpoint.memoryLen ≤ t.memoryOps.length then some (t.memoryOps.drop checkpoint.memoryLen)
  else none

def clock (t : Traces Row LogicOp MemoryOp) : Nat := t.cpu.length

end Traces

/-! ## Runs -/

/-- What the generator does to its `Traces` between two calls of this file: a push onto one
log (`Vec::push` on the field), taking a checkpoint, or rolling back to the `i`-th checkpoint
taken so far. -/
inductive TraceOp (Row LogicOp MemoryOp : Type) where
  | pushArithmetic (op : ArithmeticOperation)
  | pushBytePacking (op : BytePackingOp)
  | pushCpu (row : Row)
  | pushLogic (op : LogicOp)
  | pushMemory (op : MemoryOp)
  | pushKeccak (input : List UInt64 × Nat)
  | pushKeccakSponge (op : KeccakSpongeOp)
  | checkpoint
  | rollback (i : Nat)
  deriving DecidableEq, Repr

namespace TraceOp

variable {Row LogicOp MemoryOp : Type}

/-- One operation on the logs and the checkpoints taken so far; `none` for a rollback to a
checkpoint that was not taken. -/
def step : TraceOp Row LogicOp MemoryOp →
    Traces Row LogicOp MemoryOp × List TraceCheckpoint →
    Option (Traces Row LogicOp MemoryOp × List TraceCheckpoint)
  | pushArithmetic op, (t, cs) => some ({ t with arithmeticOps := t.arithmeticOps ++ [op] }, cs)
  | pushBytePacking op, (t, cs) =>
    some ({ t with bytePackingOps := t.bytePackingOps ++ [op] }, cs)
  | pushCpu row, (t, cs) => some ({ t with cpu := t.cpu ++ [row] }, cs)
  | pushLogic op, (t, cs) => some ({ t with logicOps := t.logicOps ++ [op] }, cs)
  | pushMemory op, (t, cs) => some ({ t with memoryOps := t.memoryOps ++ [op] }, cs)
  | pushKeccak input, (t, cs) => some ({ t with keccakInputs := t.keccakInputs ++ [input] }, cs)
  | pushKeccakSponge op, (t, cs) =>
    some ({ t with keccakSpongeOps := t.keccakSpongeOps ++ [op] }, cs)
  | checkpoint, (t, cs) => some (t, cs ++ [t.checkpoint])
  | rollback i, (t, cs) => cs[i]?.map fun c => (t.rollback c, cs)

def run : List (TraceOp Row LogicOp MemoryOp) →
    Traces Row LogicOp MemoryOp × List TraceCheckpoint →
    Option (Traces Row LogicOp MemoryOp × List TraceCheckpoint)
  | [], s => some s
  | op :: ops, s => (op.step s).bind (run ops)

end TraceOp

end ZkEvmTrace
