import Charis.Lib.ArrayStack
import Charis.Text.Numbers

/-!
# The runtime of the intermediate language

An interpreter with a stack that grows downwards in an array.  Programs can come from a file, so
that opcodes and operands are whatever is there.

Indices are 64-bit numbers.  The execution keeps a record of what it prints and of the indices at
which it fetches instructions and goes to the stack.
-/

namespace Charis.Il

open Charis.Lib Charis.Net Charis.Text

/-- `IL_MAX_STACK`. -/
abbrev maxStack : Nat := 1024

/-- `IL_MAX_INSTRUCTIONS`. -/
abbrev maxInstructions : Nat := 4096

/-- `il_instruction_t`. -/
structure Instruction where
  opcode : UInt8
  operand : UInt64
  deriving DecidableEq, Repr

/-- `IL_NOP`. -/
abbrev ilNop : UInt8 := 0x00

/-- `IL_LOADI`. -/
abbrev ilLoadi : UInt8 := 0x01

/-- `IL_ADD`. -/
abbrev ilAdd : UInt8 := 0x04

/-- `IL_SUB`. -/
abbrev ilSub : UInt8 := 0x05

/-- `IL_MUL`. -/
abbrev ilMul : UInt8 := 0x06

/-- `IL_EQ`. -/
abbrev ilEq : UInt8 := 0x09

/-- `IL_JMP`. -/
abbrev ilJmp : UInt8 := 0x0B

/-- `IL_JZ`. -/
abbrev ilJz : UInt8 := 0x0C

/-- `IL_CALL`. -/
abbrev ilCall : UInt8 := 0x0E

/-- `IL_RET`. -/
abbrev ilRet : UInt8 := 0x0F

/-- `IL_PRINT`. -/
abbrev ilPrint : UInt8 := 0x10

/-- `IL_HALT`. -/
abbrev ilHalt : UInt8 := 0x11

/-- `il_runtime_t`. -/
structure Runtime where
  instructions : Nat → Instruction
  ip : Nat
  stack : Nat → UInt64
  sp : Nat
  running : Bool

/-- The runtime that `il_create` hands out. -/
def ilCreate : Runtime where
  instructions := fun _ => ⟨0, 0⟩
  ip := 0
  stack := fun _ => 0
  sp := maxStack
  running := false

/-- `il_destroy`. -/
def ilDestroy (rt : Runtime) : Runtime := { rt with running := false }

/-- The loop of `il_load_program`. -/
def loadFrom (instructions : Nat → Instruction) (i : Nat) : List Instruction → Nat → Instruction
  | [] => instructions
  | instr :: prog => loadFrom (Function.update instructions i instr) (i + 1) prog

/-- `il_load_program`: whether the program is taken, and the runtime. -/
def ilLoadProgram (rt : Runtime) (prog : List Instruction) : Bool × Runtime :=
  if maxInstructions < prog.length then (false, rt)
  else (true, { rt with instructions := loadFrom rt.instructions 0 prog })

/-- `il_reset`. -/
def ilReset (rt : Runtime) : Runtime := { rt with ip := 0, sp := maxStack, running := false }

/-- A runtime, the texts that it has printed, and the indices that it has used. -/
structure Execution where
  runtime : Runtime
  output : List (List UInt8) := []
  fetched : List Nat := []
  accessed : List Nat := []

namespace Execution

/-- `rt->stack[rt->sp++]`. -/
def pop (e : Execution) : UInt64 × Execution :=
  (e.runtime.stack e.runtime.sp,
    { e with
      runtime := { e.runtime with sp := (e.runtime.sp + 1) % 2 ^ 64 }
      accessed := e.accessed ++ [e.runtime.sp] })

/-- `rt->stack[--rt->sp] = value`. -/
def push (e : Execution) (value : UInt64) : Execution :=
  let sp := (e.runtime.sp + (2 ^ 64 - 1)) % 2 ^ 64
  { e with
    runtime := { e.runtime with stack := Function.update e.runtime.stack sp value, sp }
    accessed := e.accessed ++ [sp] }

/-- `vga_puts`. -/
def vgaPuts (e : Execution) (text : List UInt8) : Execution :=
  { e with output := e.output ++ [text] }

/-- `rt->ip = target`. -/
def jump (e : Execution) (target : UInt64) : Execution :=
  { e with runtime := { e.runtime with ip := target.toNat } }

/-- `rt->running = false`. -/
def stop (e : Execution) : Execution :=
  { e with runtime := { e.runtime with running := false } }

/-- `rt->instructions[rt->ip++]`. -/
def fetch (e : Execution) : Instruction × Execution :=
  (e.runtime.instructions e.runtime.ip,
    { e with
      runtime := { e.runtime with ip := (e.runtime.ip + 1) % 2 ^ 64 }
      fetched := e.fetched ++ [e.runtime.ip] })

/-- The branches for operators with two operands. -/
def binary (e : Execution) (operator : UInt64 → UInt64 → UInt64) : Execution :=
  if e.runtime.sp < maxStack - 1 then
    match e.pop with
    | (b, e) =>
        match e.pop with
        | (a, e) => e.push (operator a b)
  else e

end Execution

/-- The `switch` of `il_run`. -/
def execute (instr : Instruction) (e : Execution) : Execution :=
  if instr.opcode = ilNop then e
  else if instr.opcode = ilLoadi then
    if 0 < e.runtime.sp then e.push instr.operand else e
  else if instr.opcode = ilAdd then e.binary fun a b => a + b
  else if instr.opcode = ilSub then e.binary fun a b => a - b
  else if instr.opcode = ilMul then e.binary fun a b => a * b
  else if instr.opcode = ilPrint then
    if e.runtime.sp < maxStack then
      match e.pop with
      | (value, e) => e.vgaPuts (kutoa value.toNat 10)
    else e
  else if instr.opcode = ilHalt then e.stop
  else if instr.opcode = ilEq then e.binary fun a b => if a = b then 1 else 0
  else if instr.opcode = ilJmp then e.jump instr.operand
  else if instr.opcode = ilJz then
    if e.runtime.sp < maxStack then
      match e.pop with
      | (value, e) => if value = 0 then e.jump instr.operand else e
    else e
  else if instr.opcode = ilCall then
    (if 0 < e.runtime.sp then e.push (UInt64.ofNat e.runtime.ip) else e).jump instr.operand
  else if instr.opcode = ilRet then
    if e.runtime.sp < maxStack then
      match e.pop with
      | (target, e) => e.jump target
    else e.stop
  else (e.vgaPuts (ascii "Unknown IL op\n")).stop

/-- The condition of the loop of `il_run`. -/
def Execution.Going (e : Execution) : Prop :=
  e.runtime.running = true ∧ e.runtime.ip < maxInstructions

instance (e : Execution) : Decidable e.Going := inferInstanceAs (Decidable (_ ∧ _))

/-- The body of the loop of `il_run`. -/
def ilStep (e : Execution) : Execution :=
  match e.fetch with
  | (instr, e) => execute instr e

/-- The loop of `il_run`, for a number of rounds. -/
def ilLoop : (rounds : Nat) → Execution → Execution
  | 0, e => e
  | rounds + 1, e => if e.Going then ilLoop rounds (ilStep e) else e

/-- `il_run`, for a number of rounds. -/
def ilRun (rt : Runtime) (rounds : Nat) : Execution :=
  ilLoop rounds { runtime := { rt with running := true, ip := 0, sp := maxStack } }

/-- The stack pointer is in range, and so were all indices so far. -/
structure Execution.Safe (e : Execution) : Prop where
  sp : e.runtime.sp ≤ maxStack
  accessed : ∀ index ∈ e.accessed, index < maxStack
  fetched : ∀ index ∈ e.fetched, index < maxInstructions

namespace Execution.Safe

variable {e : Execution}

theorem pop (safe : e.Safe) (filled : e.runtime.sp < maxStack) :
    e.pop.2.Safe ∧ e.pop.2.runtime.sp = e.runtime.sp + 1 := by
  have limit : maxStack = 1024 := rfl
  have moved : (e.runtime.sp + 1) % 2 ^ 64 = e.runtime.sp + 1 := Nat.mod_eq_of_lt (by omega)
  refine ⟨⟨?_, ?_, safe.fetched⟩, moved⟩
  · change (e.runtime.sp + 1) % 2 ^ 64 ≤ maxStack
    omega
  · intro index mem
    cases List.mem_append.mp mem with
    | inl earlier => exact safe.accessed index earlier
    | inr last =>
        rw [List.mem_singleton.mp last]
        exact filled

theorem push (safe : e.Safe) (room : 0 < e.runtime.sp) (value : UInt64) : (e.push value).Safe := by
  have limit : maxStack = 1024 := rfl
  have inside := safe.sp
  have moved : (e.runtime.sp + (2 ^ 64 - 1)) % 2 ^ 64 = e.runtime.sp - 1 := by omega
  refine ⟨?_, ?_, safe.fetched⟩
  · change (e.runtime.sp + (2 ^ 64 - 1)) % 2 ^ 64 ≤ maxStack
    omega
  · intro index mem
    cases List.mem_append.mp mem with
    | inl earlier => exact safe.accessed index earlier
    | inr last =>
        rw [List.mem_singleton.mp last, moved]
        omega

theorem fetch (safe : e.Safe) (inside : e.runtime.ip < maxInstructions) : e.fetch.2.Safe := by
  refine ⟨safe.sp, safe.accessed, ?_⟩
  intro index mem
  cases List.mem_append.mp mem with
  | inl earlier => exact safe.fetched index earlier
  | inr last =>
      rw [List.mem_singleton.mp last]
      exact inside

/-- What does not touch the stack and fetches nothing keeps the execution safe. -/
theorem congr {e' : Execution} (safe : e.Safe) (sp : e'.runtime.sp = e.runtime.sp)
    (accessed : e'.accessed = e.accessed) (fetched : e'.fetched = e.fetched) : e'.Safe :=
  ⟨sp ▸ safe.sp, accessed ▸ safe.accessed, fetched ▸ safe.fetched⟩

theorem vgaPuts (safe : e.Safe) (text : List UInt8) : (e.vgaPuts text).Safe :=
  safe.congr rfl rfl rfl

theorem jump (safe : e.Safe) (target : UInt64) : (e.jump target).Safe := safe.congr rfl rfl rfl

theorem stop (safe : e.Safe) : e.stop.Safe := safe.congr rfl rfl rfl

theorem binary (safe : e.Safe) (operator : UInt64 → UInt64 → UInt64) :
    (e.binary operator).Safe := by
  rw [Execution.binary]
  split
  next operands =>
    obtain ⟨safe₁, sp₁⟩ := safe.pop (by omega)
    obtain ⟨safe₂, sp₂⟩ := safe₁.pop (by omega)
    exact safe₂.push (by omega) _
  next => exact safe

theorem ite {p : Prop} [Decidable p] {e' : Execution} (holds : p → e.Safe)
    (fails : ¬p → e'.Safe) : (if p then e else e').Safe := by
  by_cases condition : p
  · rw [if_pos condition]
    exact holds condition
  · rw [if_neg condition]
    exact fails condition

theorem execute (safe : e.Safe) (instr : Instruction) : (execute instr e).Safe := by
  rw [Il.execute]
  -- one case for every opcode, in the order of the switch
  apply ite
  · intro _
    exact safe
  intro _
  apply ite
  · intro _
    exact ite (fun room => safe.push room _) fun _ => safe
  intro _
  apply ite
  · intro _
    exact safe.binary _
  intro _
  apply ite
  · intro _
    exact safe.binary _
  intro _
  apply ite
  · intro _
    exact safe.binary _
  intro _
  apply ite
  · intro _
    exact ite (fun filled => (safe.pop filled).1.vgaPuts _) fun _ => safe
  intro _
  apply ite
  · intro _
    exact safe.stop
  intro _
  apply ite
  · intro _
    exact safe.binary _
  intro _
  apply ite
  · intro _
    exact safe.jump _
  intro _
  apply ite
  · intro _
    apply ite
    · intro filled
      exact ite (fun _ => (safe.pop filled).1.jump _) fun _ => (safe.pop filled).1
    · intro _
      exact safe
  intro _
  apply ite
  · intro _
    apply jump
    exact ite (fun room => safe.push room _) fun _ => safe
  intro _
  apply ite
  · intro _
    exact ite (fun filled => (safe.pop filled).1.jump _) fun _ => safe.stop
  intro _
  exact (safe.vgaPuts _).stop

theorem step (safe : e.Safe) (going : e.Going) : (ilStep e).Safe :=
  (safe.fetch going.2).execute _

theorem loop (safe : e.Safe) (rounds : Nat) : (ilLoop rounds e).Safe := by
  induction rounds generalizing e with
  | zero => exact safe
  | succ rounds ih =>
      rw [ilLoop]
      split
      next going => exact ih (safe.step going)
      next => exact safe

end Execution.Safe

/-- Whatever is in a runtime, it never leaves its stack and its instructions. -/
theorem ilRun_safe (rt : Runtime) (rounds : Nat) : (ilRun rt rounds).Safe := by
  apply Execution.Safe.loop
  exact ⟨Nat.le_refl _, nofun, nofun⟩

end Charis.Il
