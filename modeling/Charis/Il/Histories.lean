import Charis.Il.Semantics

/-!
# Runtimes that are used again

Loading a program overwrites as many instructions as it has.  What was behind them stays, and so
does what is in the array of the stack.  The stack is never read below what the new program has
pushed, but the old instructions are executed as soon as control leaves the new ones.
-/

namespace Charis.Il

open Charis.Lib

section Loading

variable {instructions : Nat → Instruction} {prog : List Instruction} {i k : Nat}

theorem loadFrom_of_before (before : k < i) :
    loadFrom instructions i prog k = instructions k := by
  induction prog generalizing instructions i with
  | nil => rfl
  | cons instr prog ih =>
      rw [loadFrom, ih (Nat.lt_succ_of_lt before)]
      exact Function.update_of_ne before.ne _ _

theorem loadFrom_of_inside (inside : k < prog.length) :
    loadFrom instructions i prog (i + k) = prog[k] := by
  induction prog generalizing instructions i k with
  | nil => cases inside
  | cons instr prog ih =>
  cases k with
  | zero =>
      have before := @loadFrom_of_before (Function.update instructions i instr) prog (i + 1) i
        (Nat.lt_succ_self i)
      exact before.trans (Function.update_self _ _ _)
  | succ k =>
      have next : i + (k + 1) = i + 1 + k := by omega
      rw [loadFrom, next, ih (Nat.lt_of_succ_lt_succ inside)]
      rfl

theorem loadFrom_of_behind (behind : i + prog.length ≤ k) :
    loadFrom instructions i prog k = instructions k := by
  induction prog generalizing instructions i with
  | nil => rfl
  | cons instr prog ih =>
      rw [List.length_cons] at behind
      rw [loadFrom, ih (by omega)]
      exact Function.update_of_ne (by omega) _ _

end Loading

/-- A program of proper length is taken. -/
theorem instructions_ilLoadProgram {rt : Runtime} {prog : List Instruction}
    (fits : prog.length ≤ maxInstructions) :
    (ilLoadProgram rt prog).2.instructions = loadFrom rt.instructions 0 prog := by
  rw [ilLoadProgram, if_neg (Nat.not_lt.mpr fits)]

/-- What can become of a runtime: programs are loaded, runs come to an end, and it is reset or
destroyed. -/
inductive History : Runtime → Prop
  | create : History ilCreate
  | load {rt : Runtime} (prog : List Instruction) :
      History rt → History (ilLoadProgram rt prog).2
  | run {rt : Runtime} {rounds : Nat} :
      History rt → ¬(ilRun rt rounds).Going → History (ilRun rt rounds).runtime
  | reset {rt : Runtime} : History rt → History (ilReset rt)
  | destroy {rt : Runtime} : History rt → History (ilDestroy rt)

/-- What a program prints and what state it comes to does not depend on the history of the
runtime that it is loaded into. -/
def Independent (prog : List Instruction) : Prop :=
  ∀ rt, History rt → ∀ rounds,
    (ilRun (ilLoadProgram rt prog).2 rounds).view =
      (ilRun (ilLoadProgram ilCreate prog).2 rounds).view

/-- The configurations to which the instructions of a program lead. -/
inductive Reaches (prog : List Instruction) : Config → Prop
  | start : Reaches prog {}
  | next {config : Config} {instr : Instruction} :
      Reaches prog config → config.running = true → prog[config.ip]? = some instr →
      Reaches prog (Config.perform (decode instr) { config with ip := config.ip + 1 })

/-- Control comes to an instruction that is not one of the program. -/
def Leaves (prog : List Instruction) : Prop :=
  ∃ config, Reaches prog config ∧ config.Going ∧ prog.length ≤ config.ip

section Runs

variable {prog : List Instruction} {program : Nat → Instruction} {config : Config}

/-- Where the instructions of a program lead, a runtime gets with these instructions. -/
theorem Reaches.exists_run (fits : prog.length ≤ maxInstructions)
    (loaded : ∀ k (inside : k < prog.length), program k = prog[k]) (reaches : Reaches prog config) :
    ∃ rounds, Config.run program rounds {} = config := by
  induction reaches with
  | start => exact ⟨0, rfl⟩
  | @next config instr _ running fetched ih =>
      obtain ⟨rounds, led⟩ := ih
      obtain ⟨inside, same⟩ := List.getElem?_eq_some_iff.mp fetched
      refine ⟨rounds + 1, ?_⟩
      rw [Config.run_add_one, led, Config.step_of_going ⟨running, inside.trans_le fits⟩,
        loaded _ inside, same]

/-- As long as control does not leave the program, it gets where the instructions lead. -/
theorem reaches_run (loaded : ∀ k (inside : k < prog.length), program k = prog[k])
    (stays : ¬Leaves prog) (rounds : Nat) : Reaches prog (Config.run program rounds {}) := by
  induction rounds with
  | zero => exact .start
  | succ rounds ih =>
  rw [Config.run_add_one]
  by_cases going : (Config.run program rounds {}).Going
  · have inside : (Config.run program rounds {}).ip < prog.length := by
      apply Nat.lt_of_not_le
      intro outside
      exact stays ⟨_, ih, going, outside⟩
    rw [Config.step_of_going going, loaded _ inside]
    exact ih.next going.1 (List.getElem?_eq_getElem inside)
  · rw [Config.step, if_neg going]
    exact ih

theorem loaded_of_load (fits : prog.length ≤ maxInstructions) (rt : Runtime) (k : Nat)
    (inside : k < prog.length) : (ilLoadProgram rt prog).2.instructions k = prog[k] := by
  have stored := @loadFrom_of_inside rt.instructions prog 0 k inside
  rwa [Nat.zero_add, ← instructions_ilLoadProgram fits] at stored

theorem kept_of_load (fits : prog.length ≤ maxInstructions) (rt : Runtime) {k : Nat}
    (outside : prog.length ≤ k) :
    (ilLoadProgram rt prog).2.instructions k = rt.instructions k := by
  rw [instructions_ilLoadProgram fits]
  exact loadFrom_of_behind (by rwa [Nat.zero_add])

/-- A program that fills the instructions with the one that halts. -/
def allHalt : List Instruction := List.replicate maxInstructions ⟨ilHalt, 0⟩

/-- A program does the same whatever was loaded and run before exactly if control never leaves
it. -/
theorem independent_iff (fits : prog.length ≤ maxInstructions) :
    Independent prog ↔ ¬Leaves prog := by
  constructor
  · rintro independent ⟨config, reaches, going, outside⟩
    -- a program that halts everywhere was there before
    have history : History (ilLoadProgram ilCreate allHalt).2 := .load _ .create
    have full : allHalt.length = maxInstructions := List.length_replicate
    obtain ⟨rounds, led⟩ := reaches.exists_run fits (loaded_of_load fits ilCreate)
    obtain ⟨rounds', led'⟩ := reaches.exists_run fits
      (loaded_of_load fits (ilLoadProgram ilCreate allHalt).2)
    have fresh : (ilLoadProgram ilCreate prog).2.instructions config.ip = ⟨ilNop, 0⟩ :=
      kept_of_load fits _ outside
    have used : (ilLoadProgram (ilLoadProgram ilCreate allHalt).2 prog).2.instructions config.ip =
        ⟨ilHalt, 0⟩ := by
      rw [kept_of_load fits _ outside, loaded_of_load full.le _ _ (full ▸ going.2)]
      exact List.getElem_replicate _
    -- both get there after the same number of rounds
    have same := independent _ history
    simp only [view_ilRun] at same
    have together := same rounds
    rw [led] at together
    have after := same (rounds + 1)
    rw [Config.run_add_one, Config.run_add_one, together, led, Config.step_of_going going,
      Config.step_of_going going, fresh, used] at after
    have stopped : false = config.running := congrArg Config.running after
    exact absurd (stopped.trans going.1) (by decide)
  · intro stays rt _ rounds
    rw [view_ilRun, view_ilRun]
    apply Config.run_congr
    intro earlier _ going
    have inside : (Config.run (ilLoadProgram ilCreate prog).2.instructions earlier {}).ip <
        prog.length := by
      apply Nat.lt_of_not_le
      intro outside
      exact stays ⟨_, reaches_run (loaded_of_load fits ilCreate) stays earlier, going, outside⟩
    rw [loaded_of_load fits rt _ inside, loaded_of_load fits ilCreate _ inside]

end Runs

/-- A program that halts does not leave its instructions. -/
theorem independent_halt : Independent [⟨ilHalt, 0⟩] := by
  apply (independent_iff (by decide)).mpr
  rintro ⟨config, reaches, going, outside⟩
  have settled : config = {} ∨ config.running = false := by
    cases reaches with
    | start => exact .inl rfl
    | @next config instr _ _ fetched =>
    right
    have halt : instr = ⟨ilHalt, 0⟩ := by
      have mem := List.mem_of_getElem? fetched
      exact List.mem_singleton.mp mem
    rw [halt]
    rfl
  cases settled with
  | inl start =>
      rw [start] at outside
      exact absurd outside (by decide)
  | inr stopped => exact absurd (going.1.symm.trans stopped) (by decide)

/-- A program that prints a number. -/
def oldProgram : List Instruction :=
  [⟨ilLoadi, 7⟩, ⟨ilLoadi, 7⟩, ⟨ilPrint, 0⟩, ⟨ilHalt, 0⟩]

/-- The runtime after that program. -/
def usedRuntime : Runtime := (ilRun (ilLoadProgram ilCreate oldProgram).2 4).runtime

/-- After it, a program that does nothing prints a number too. -/
theorem leftover_printed :
    History usedRuntime ∧
      ¬(ilRun (ilLoadProgram usedRuntime [⟨ilNop, 0⟩]).2 4).Going ∧
      (ilRun (ilLoadProgram usedRuntime [⟨ilNop, 0⟩]).2 4).output = [['7'.toUInt8]] ∧
      (∀ rounds, (ilRun (ilLoadProgram ilCreate [⟨ilNop, 0⟩]).2 rounds).output = []) ∧
      ¬Independent [⟨ilNop, 0⟩] := by
  have history : History usedRuntime := (History.create.load oldProgram).run (by decide)
  have printed : (ilRun (ilLoadProgram usedRuntime [⟨ilNop, 0⟩]).2 4).output =
      [['7'.toUInt8]] := by decide
  have silent : ∀ rounds,
      (ilRun (ilLoadProgram ilCreate [⟨ilNop, 0⟩]).2 rounds).output = [] := by
    intro rounds
    have nops : ∀ k, (ilLoadProgram ilCreate [⟨ilNop, 0⟩]).2.instructions k = ⟨ilNop, 0⟩ := by
      intro k
      cases k with
      | zero => rfl
      | succ k => exact kept_of_load (by decide) _ (by simp)
    have viewed := congrArg Config.output (view_ilRun (ilLoadProgram ilCreate [⟨ilNop, 0⟩]).2 rounds)
    refine viewed.trans ?_
    induction rounds with
    | zero => rfl
    | succ rounds ih =>
        rw [Config.run_add_one, Config.step]
        split
        · rw [nops]
          exact ih (congrArg Config.output (view_ilRun _ rounds))
        · exact ih (congrArg Config.output (view_ilRun _ rounds))
  refine ⟨history, by decide, printed, silent, ?_⟩
  intro independent
  have same := congrArg Config.output (independent _ history 4)
  have printed' := printed.symm.trans (same.trans (silent 4))
  cases printed'

end Charis.Il
