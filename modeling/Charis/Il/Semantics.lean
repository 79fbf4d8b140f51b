import Charis.Il.Runtime

/-!
# The meaning of instructions

An instruction acts on a stack of values, which has room for 1024 of them.  What does not find
its operands does nothing, and what does not find room for its result does not push it.  The
interpreter does the same on its array.
-/

namespace Charis.Il

open Charis.Lib Charis.Net Charis.Text

/-- What an opcode stands for. -/
inductive Operation where
  | nop
  | loadi (value : UInt64)
  | binary (operator : UInt64 → UInt64 → UInt64)
  | print
  | halt
  | jump (target : UInt64)
  | jumpZero (target : UInt64)
  | call (target : UInt64)
  | ret
  | unknown

/-- The operation of an instruction. -/
def decode (instr : Instruction) : Operation :=
  if instr.opcode = ilNop then .nop
  else if instr.opcode = ilLoadi then .loadi instr.operand
  else if instr.opcode = ilAdd then .binary fun a b => a + b
  else if instr.opcode = ilSub then .binary fun a b => a - b
  else if instr.opcode = ilMul then .binary fun a b => a * b
  else if instr.opcode = ilPrint then .print
  else if instr.opcode = ilHalt then .halt
  else if instr.opcode = ilEq then .binary fun a b => if a = b then 1 else 0
  else if instr.opcode = ilJmp then .jump instr.operand
  else if instr.opcode = ilJz then .jumpZero instr.operand
  else if instr.opcode = ilCall then .call instr.operand
  else if instr.opcode = ilRet then .ret
  else .unknown

/-- What can be observed of an execution. -/
@[ext]
structure Config where
  ip : Nat := 0
  stack : List UInt64 := []
  running : Bool := true
  output : List (List UInt8) := []
  deriving DecidableEq, Repr

namespace Config

/-- A value is pushed if there is room for it. -/
def push (config : Config) (value : UInt64) : Config :=
  if config.stack.length < maxStack then { config with stack := value :: config.stack }
  else config

/-- The effect of an operation. -/
def perform : Operation → Config → Config
  | .nop, config => config
  | .loadi value, config => config.push value
  | .binary operator, config =>
      match config.stack with
      | b :: a :: rest => { config with stack := operator a b :: rest }
      | _ => config
  | .print, config =>
      match config.stack with
      | value :: rest =>
          { config with stack := rest, output := config.output ++ [kutoa value.toNat 10] }
      | [] => config
  | .halt, config => { config with running := false }
  | .jump target, config => { config with ip := target.toNat }
  | .jumpZero target, config =>
      match config.stack with
      | value :: rest =>
          if value = 0 then { config with stack := rest, ip := target.toNat }
          else { config with stack := rest }
      | [] => config
  | .call target, config =>
      { config.push (UInt64.ofNat config.ip) with ip := target.toNat }
  | .ret, config =>
      match config.stack with
      | target :: rest => { config with stack := rest, ip := target.toNat }
      | [] => { config with running := false }
  | .unknown, config =>
      { config with output := config.output ++ [ascii "Unknown IL op\n"], running := false }

/-- The program goes on. -/
def Going (config : Config) : Prop := config.running = true ∧ config.ip < maxInstructions

instance (config : Config) : Decidable config.Going := inferInstanceAs (Decidable (_ ∧ _))

/-- One instruction of a program, as long as it goes on. -/
def step (program : Nat → Instruction) (config : Config) : Config :=
  if config.Going then
    perform (decode (program config.ip)) { config with ip := config.ip + 1 }
  else config

/-- A number of instructions. -/
def run (program : Nat → Instruction) (rounds : Nat) (config : Config) : Config :=
  (step program)^[rounds] config

section Running

variable {program program' : Nat → Instruction} {config : Config} {rounds rounds' : Nat}

theorem run_zero (program : Nat → Instruction) (config : Config) :
    run program 0 config = config :=
  rfl

theorem run_succ (program : Nat → Instruction) (rounds : Nat) (config : Config) :
    run program (rounds + 1) config = run program rounds (step program config) :=
  rfl

theorem run_add_one (program : Nat → Instruction) (rounds : Nat) (config : Config) :
    run program (rounds + 1) config = step program (run program rounds config) :=
  Function.iterate_succ_apply' _ _ _

theorem step_of_going (going : config.Going) :
    step program config =
      perform (decode (program config.ip)) { config with ip := config.ip + 1 } :=
  if_pos going

/-- Nothing happens any more when the program has ended. -/
theorem run_of_ended (ended : ¬config.Going) : run program rounds config = config := by
  induction rounds with
  | zero => rfl
  | succ rounds ih => rw [run_succ, step, if_neg ended, ih]

/-- Programs that agree on the instructions that one of them fetches run alike. -/
theorem run_congr
    (same : ∀ earlier < rounds, (run program earlier config).Going →
      program' (run program earlier config).ip = program (run program earlier config).ip) :
    run program' rounds config = run program rounds config := by
  induction rounds with
  | zero => rfl
  | succ rounds ih =>
      have before := ih fun earlier below => same earlier (Nat.lt_succ_of_lt below)
      rw [run_add_one, run_add_one, before, step, step]
      by_cases going : (run program rounds config).Going
      · rw [if_pos going, if_pos going, same rounds (Nat.lt_succ_self _) going]
      · rw [if_neg going, if_neg going]

end Running

end Config

namespace Execution

/-- What can be observed of the runtime: its stack is in the array from the pointer on. -/
def view (e : Execution) : Config where
  ip := e.runtime.ip
  stack := ArrayStack.contents e.runtime.stack maxStack e.runtime.sp
  running := e.runtime.running
  output := e.output

section View

variable {e : Execution}

theorem length_view_stack (e : Execution) : e.view.stack.length = maxStack - e.runtime.sp :=
  ArrayStack.length_contents _ _ _

theorem view_push (safe : e.Safe) (room : 0 < e.runtime.sp) (value : UInt64) :
    (e.push value).view = { e.view with stack := value :: e.view.stack } := by
  have limit : maxStack = 1024 := rfl
  have inside := safe.sp
  have moved : (e.runtime.sp + (2 ^ 64 - 1)) % 2 ^ 64 = e.runtime.sp - 1 := by omega
  have pushed := @ArrayStack.contents_push _ e.runtime.stack _ _ room inside value
  rw [← moved] at pushed
  exact congrArg (fun stack => { e.view with stack }) pushed

/-- The interpreter pushes a value if its pointer is not at the bottom of the array. -/
theorem view_push_if (safe : e.Safe) (value : UInt64) :
    (if 0 < e.runtime.sp then e.push value else e).view = e.view.push value := by
  have limit : maxStack = 1024 := rfl
  have inside := safe.sp
  have length := e.length_view_stack
  rw [Config.push]
  by_cases room : 0 < e.runtime.sp
  · rw [if_pos room, if_pos (by omega), view_push safe room]
  · rw [if_neg room, if_neg (by omega)]

/-- A value is popped from a stack that has one. -/
theorem view_pop (filled : e.runtime.sp < maxStack) :
    e.view.stack = e.pop.1 :: e.pop.2.view.stack ∧
      e.pop.2.view = { e.view with stack := e.pop.2.view.stack } := by
  have limit : maxStack = 1024 := rfl
  have moved : (e.runtime.sp + 1) % 2 ^ 64 = e.runtime.sp + 1 := Nat.mod_eq_of_lt (by omega)
  refine ⟨?_, rfl⟩
  have popped := @ArrayStack.contents_pop _ e.runtime.stack _ _ filled
  rw [← moved] at popped
  exact popped

theorem view_stack_eq_nil (empty : ¬e.runtime.sp < maxStack) : e.view.stack = [] := by
  apply List.eq_nil_of_length_eq_zero
  rw [length_view_stack]
  omega

theorem view_binary (safe : e.Safe) (operator : UInt64 → UInt64 → UInt64) :
    (e.binary operator).view = e.view.perform (.binary operator) := by
  have limit : maxStack = 1024 := rfl
  rw [binary]
  by_cases operands : e.runtime.sp < maxStack - 1
  · rw [if_pos operands]
    obtain ⟨safe₁, sp₁⟩ := safe.pop (by omega)
    obtain ⟨safe₂, sp₂⟩ := safe₁.pop (by omega)
    obtain ⟨first, view₁⟩ := @view_pop e (by omega)
    obtain ⟨second, view₂⟩ := @view_pop e.pop.2 (by omega)
    dsimp only
    rw [view_push safe₂ (by omega), Config.perform, first, second, view₂, view₁]
  · rw [if_neg operands]
    have length := e.length_view_stack
    rw [Config.perform]
    split
    next b a rest two =>
      rw [two] at length
      simp only [List.length_cons] at length
      omega
    next => rfl

/-- The interpreter does what an instruction means. -/
theorem view_execute (safe : e.Safe) (instr : Instruction) :
    (execute instr e).view = e.view.perform (decode instr) := by
  rw [execute, decode]
  by_cases nop : instr.opcode = ilNop
  · rw [if_pos nop, if_pos nop]
    rfl
  rw [if_neg nop, if_neg nop]
  by_cases loadi : instr.opcode = ilLoadi
  · rw [if_pos loadi, if_pos loadi]
    exact view_push_if safe _
  rw [if_neg loadi, if_neg loadi]
  by_cases add : instr.opcode = ilAdd
  · rw [if_pos add, if_pos add]
    exact view_binary safe _
  rw [if_neg add, if_neg add]
  by_cases sub : instr.opcode = ilSub
  · rw [if_pos sub, if_pos sub]
    exact view_binary safe _
  rw [if_neg sub, if_neg sub]
  by_cases mul : instr.opcode = ilMul
  · rw [if_pos mul, if_pos mul]
    exact view_binary safe _
  rw [if_neg mul, if_neg mul]
  by_cases print : instr.opcode = ilPrint
  · rw [if_pos print, if_pos print]
    by_cases filled : e.runtime.sp < maxStack
    · obtain ⟨top, rest⟩ := view_pop filled
      rw [if_pos filled, Config.perform, top]
      exact congrArg
        (fun config : Config => { config with output := e.output ++ [kutoa e.pop.1.toNat 10] })
        rest
    · rw [if_neg filled, Config.perform, view_stack_eq_nil filled]
  rw [if_neg print, if_neg print]
  by_cases halt : instr.opcode = ilHalt
  · rw [if_pos halt, if_pos halt]
    rfl
  rw [if_neg halt, if_neg halt]
  by_cases eq : instr.opcode = ilEq
  · rw [if_pos eq, if_pos eq]
    exact view_binary safe _
  rw [if_neg eq, if_neg eq]
  by_cases jmp : instr.opcode = ilJmp
  · rw [if_pos jmp, if_pos jmp]
    rfl
  rw [if_neg jmp, if_neg jmp]
  by_cases jz : instr.opcode = ilJz
  · rw [if_pos jz, if_pos jz]
    by_cases filled : e.runtime.sp < maxStack
    · obtain ⟨top, rest⟩ := view_pop filled
      rw [if_pos filled, Config.perform, top]
      dsimp only
      by_cases zero : e.pop.1 = 0
      · rw [if_pos zero, if_pos zero]
        exact congrArg (fun config : Config => { config with ip := instr.operand.toNat }) rest
      · rw [if_neg zero, if_neg zero]
        exact rest
    · rw [if_neg filled, Config.perform, view_stack_eq_nil filled]
  rw [if_neg jz, if_neg jz]
  by_cases call : instr.opcode = ilCall
  · rw [if_pos call, if_pos call]
    exact congrArg (fun config : Config => { config with ip := instr.operand.toNat })
      (view_push_if safe (UInt64.ofNat e.runtime.ip))
  rw [if_neg call, if_neg call]
  by_cases ret : instr.opcode = ilRet
  · rw [if_pos ret, if_pos ret]
    by_cases filled : e.runtime.sp < maxStack
    · obtain ⟨top, rest⟩ := view_pop filled
      rw [if_pos filled, Config.perform, top]
      exact congrArg (fun config : Config => { config with ip := e.pop.1.toNat }) rest
    · rw [if_neg filled, Config.perform, view_stack_eq_nil filled]
      exact congrArg (fun stack => { e.view with stack, running := false })
        (view_stack_eq_nil filled)
  rw [if_neg ret, if_neg ret]
  rfl

theorem instructions_ite {p : Prop} [Decidable p] {e' : Execution}
    {instructions : Nat → Instruction} (first : e.runtime.instructions = instructions)
    (second : e'.runtime.instructions = instructions) :
    (if p then e else e').runtime.instructions = instructions := by
  by_cases condition : p
  · rwa [if_pos condition]
  · rwa [if_neg condition]

theorem instructions_execute (instr : Instruction) (e : Execution) :
    (execute instr e).runtime.instructions = e.runtime.instructions := by
  have operators : ∀ operator, (e.binary operator).runtime.instructions =
      e.runtime.instructions :=
    fun operator => instructions_ite rfl rfl
  rw [execute]
  apply instructions_ite
  · rfl
  apply instructions_ite
  · exact instructions_ite rfl rfl
  apply instructions_ite
  · exact operators _
  apply instructions_ite
  · exact operators _
  apply instructions_ite
  · exact operators _
  apply instructions_ite
  · exact instructions_ite rfl rfl
  apply instructions_ite
  · rfl
  apply instructions_ite
  · exact operators _
  apply instructions_ite
  · rfl
  apply instructions_ite
  · exact instructions_ite (instructions_ite rfl rfl) rfl
  apply instructions_ite
  · exact @instructions_ite (e.push _) _ _ e _ rfl rfl
  apply instructions_ite
  · exact instructions_ite rfl rfl
  rfl

/-- One round of the interpreter is one instruction. -/
theorem view_step (safe : e.Safe) (going : e.Going) :
    (ilStep e).view = e.view.step e.runtime.instructions := by
  have next : (e.runtime.ip + 1) % 2 ^ 64 = e.runtime.ip + 1 := by
    have inside := going.2
    apply Nat.mod_eq_of_lt
    simp only [maxInstructions] at inside
    omega
  have onward : e.view.Going := going
  rw [ilStep, Config.step_of_going onward]
  refine (view_execute (safe.fetch going.2) _).trans ?_
  exact congrArg (fun ip => Config.perform (decode (e.runtime.instructions e.runtime.ip))
    { e.view with ip }) next

theorem view_loop (safe : e.Safe) (rounds : Nat) :
    (ilLoop rounds e).view = e.view.run e.runtime.instructions rounds := by
  induction rounds generalizing e with
  | zero => rfl
  | succ rounds ih =>
  rw [ilLoop]
  by_cases going : e.Going
  · have kept : (ilStep e).runtime.instructions = e.runtime.instructions :=
      instructions_execute _ _
    rw [if_pos going, ih (safe.step going), view_step safe going, kept, Config.run_succ]
  · have ended : ¬e.view.Going := going
    rw [if_neg going, Config.run_of_ended ended]

end View

end Execution

/-- The interpreter runs the program in the runtime from an empty stack on. -/
theorem view_ilRun (rt : Runtime) (rounds : Nat) :
    (ilRun rt rounds).view = Config.run rt.instructions rounds {} := by
  have safe : Execution.Safe { runtime := { rt with running := true, ip := 0, sp := maxStack } } :=
    ⟨Nat.le_refl _, nofun, nofun⟩
  have start : Execution.view { runtime := { rt with running := true, ip := 0, sp := maxStack } } =
      {} := by
    rw [Execution.view, ArrayStack.contents_empty]
  rw [ilRun, Execution.view_loop safe, start]

end Charis.Il
