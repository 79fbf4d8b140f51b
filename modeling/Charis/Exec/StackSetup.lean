import Charis.Exec.StackPages

/-!
# Setting up a stack, or leaving no trace

When `elf_setup_stack` fails, the address space is translated as before and the pages that it
has taken for the stack are back at the allocator.  The tables that it has created stay: they
map nothing.  In no case does it replace a translation.
-/

namespace Charis.Exec

open Charis.Lib
open Charis.Memory
open Charis.Memory.Entry

/-- Where the search of `elf_setup_stack` starts. -/
abbrev stackLimit : Nat := 0x00007FFFFFFFE000

/-- An address of a window lies on one of its pages. -/
theorem div_mem_window {addr count virt : Nat} (aligned : addr % pageSize = 0)
    (above : addr ≤ virt) (below : virt < addr + count * pageSize) :
    virt / pageSize ∈ window addr count := by
  simp only [window, Set.mem_ofPred_eq, pageSize] at *
  omega

/-- What storing on the stack keeps. -/
structure Filled (start machine machine' : Machine) (root base : Nat) : Prop where
  staged : ∃ content, Staged start machine' root (window base 2) content
  pages : pageMap machine' root = pageMap machine root
  allocator : machine'.pmm = machine.pmm

section Filling

variable {start machine machine' : Machine} {root base cursor : Nat} {content : ByteMemory}
  (aligned : base % pageSize = 0)

theorem Filled.refl (staged : Staged start machine root (window base 2) content) :
    Filled start machine machine root base :=
  ⟨⟨content, staged⟩, rfl, rfl⟩

theorem Filled.trans {first second third : Machine}
    (early : Filled start first second root base)
    (late : Filled start second third root base) : Filled start first third root base :=
  ⟨late.staged, late.pages.trans early.pages, late.allocator.trans early.allocator⟩

include aligned

/-- Bytes are stored anywhere in the window. -/
theorem Staged.store (staged : Staged start machine root (window base 2) content)
    {address : Nat} {bytes : List UInt8} (above : base ≤ address)
    (below : address + bytes.length ≤ base + 2 * pageSize) :
    ∃ machine', Exec.elfWriteUser machine root address bytes = (true, machine') ∧
      Staged start machine' root (window base 2) (content.storeBytes address bytes) ∧
      Filled start machine machine' root base := by
  obtain ⟨machine', written, after, samePages, samePmm⟩ := staged.elfWriteUser (by
    intro offset inside
    exact div_mem_window aligned (above.trans (Nat.le_add_right _ _))
      ((Nat.add_lt_add_left inside address).trans_le below))
  exact ⟨machine', written, after, ⟨_, after⟩, samePages, samePmm⟩

/-- The loops over strings stay in the window, wherever they end. -/
theorem Staged.pushStrings (staged : Staged start machine root (window base 2) content)
    {strings : List (Option (List UInt8))} {addresses : List Nat}
    {result : Option (Nat × List Nat)} (above : base ≤ cursor)
    (below : cursor ≤ base + 2 * pageSize)
    (done : Exec.pushStrings root base strings cursor addresses machine = (result, machine')) :
    Filled start machine machine' root base ∧
      ∀ last, result = some last → base ≤ last.1 ∧ last.1 ≤ base + 2 * pageSize := by
  induction strings generalizing cursor addresses machine content with
  | nil =>
      cases done
      refine ⟨.refl staged, fun last same => ?_⟩
      cases same
      exact ⟨above, below⟩
  | cons string strings ih =>
  cases string with
  | none =>
      cases done
      exact ⟨.refl staged, nofun⟩
  | some string =>
  simp only [Exec.pushStrings] at done
  split at done
  · cases done
    exact ⟨.refl staged, nofun⟩
  next fits =>
  obtain ⟨state, written, after, filled⟩ := @staged.store _ _ _ _ _ aligned
    (cursor - (string.length + 1)) (string ++ [0]) (by omega)
    (by rw [List.length_append, List.length_singleton]; omega)
  rw [written] at done
  obtain ⟨rest, bounds⟩ := ih after (by omega) (by omega) done
  exact ⟨filled.trans rest, bounds⟩

/-- Putting the strings and the words on the stack changes nothing else. -/
theorem Staged.fillStack (staged : Staged start machine root (window base 2) content)
    {argv envp : List (Option (List UInt8))} {result : Option Nat}
    (done : Exec.fillStack machine root base (base + 2 * pageSize) argv envp =
      (result, machine')) :
    Filled start machine machine' root base := by
  rw [Exec.fillStack] at done
  rcases first : Exec.pushStrings root base envp.reverse (base + 2 * pageSize) [] machine with
    ⟨envpUser, machine₁⟩
  rw [first] at done
  obtain ⟨filled₁, bounds₁⟩ :=
    staged.pushStrings aligned (Nat.le_add_right _ _) (Nat.le_refl _) first
  cases envpUser with
  | none =>
      cases done
      exact filled₁
  | some last =>
  obtain ⟨cursor, envpUser⟩ := last
  obtain ⟨above, below⟩ := bounds₁ _ rfl
  obtain ⟨content₁, staged₁⟩ := filled₁.staged
  dsimp only at done
  rcases second : Exec.pushStrings root base argv.reverse cursor [] machine₁ with
    ⟨argvUser, machine₂⟩
  rw [second] at done
  obtain ⟨filled₂, bounds₂⟩ := staged₁.pushStrings aligned above below second
  have filled := filled₁.trans filled₂
  cases argvUser with
  | none =>
      cases done
      exact filled
  | some last =>
  obtain ⟨cursor, argvUser⟩ := last
  obtain ⟨above, below⟩ := bounds₂ _ rfl
  obtain ⟨content₂, staged₂⟩ := filled₂.staged
  dsimp only at done above below
  generalize (vectorWords argvUser envpUser).flatMap wordBytes = bytes at done
  split at done
  · cases done
    exact filled
  next fits =>
  split at done
  · cases done
    exact filled
  next inside =>
  obtain ⟨state, written, -, filled₃⟩ := @staged₂.store _ _ _ _ _ aligned
    ((cursor - bytes.length) / 16 * 16) bytes (Nat.not_lt.mp inside) (by omega)
  rw [written] at done
  cases done
  exact filled.trans filled₃

end Filling

/-- The pages that a call of `elf_setup_stack` takes for the stack. -/
def stackTaken (target : StackTarget) (argv envp : StringVector) : List Nat :=
  match target.mm, target.userRsp with
  | some mm, some _ =>
      if mm.pml4 = 0 || argv.refused || envp.refused then []
      else
        match findStack target.machine mm.pml4 4096 stackLimit with
        | none => []
        | some stackTop => takenPages mm.pml4 2 (stackTop - 2 * pageSize) target.machine
  | _, _ => []

/-- The addresses below which `elf_setup_stack` looks for a window. -/
def Searched (virt : Nat) : Prop := stackLimit - 4097 * pageSize ≤ virt ∧ virt < stackLimit

section Call

variable {machine machine' : Machine} {root stackTop : Nat}

/-- The window that the search has found is aligned, searched and unmapped. -/
theorem window_of_findStack (valid : WellFormed machine root)
    (ordinary : ∀ virt, Searched virt → ¬ LargePage machine.memory root virt)
    (found : findStack machine root 4096 stackLimit = some stackTop) :
    ∃ base, stackTop = base + 2 * pageSize ∧ base % pageSize = 0 ∧
      base + 2 * pageSize ≤ userLimit ∧
      ∀ page ∈ window base 2, pageMap machine root page = none := by
  obtain ⟨attempt, below, same, fits, lower, upper⟩ := findStack_eq_some found
  obtain ⟨base, rfl⟩ := Nat.exists_eq_add_of_le fits
  rw [Nat.add_sub_cancel_left] at lower
  rw [show 2 * pageSize + base - pageSize = base + pageSize by
    rw [Nat.two_mul, Nat.add_assoc, Nat.add_sub_cancel_left, Nat.add_comm]] at upper
  have place : base + attempt * 4096 = 0x00007FFFFFFFC000 := by
    simp only [pageSize, stackLimit] at same
    omega
  have alignedBase : base % pageSize = 0 := by
    simp only [pageSize]
    omega
  refine ⟨base, Nat.add_comm _ _, alignedBase, by simp only [pageSize, userLimit]; omega, ?_⟩
  intro page member
  have known (virt : Nat) (inside : virt = base ∨ virt = base + pageSize)
      (free : occupied machine root virt = false) :
      hardwareWalk machine.memory root virt = none := by
    apply unmapped_of_not_occupied valid ?_ (ordinary virt ?_) free
    · simp only [pageSize, userLimit] at *
      omega
    · constructor
      · simp only [stackLimit, pageSize] at *
        omega
      · simp only [stackLimit, pageSize] at *
        omega
  have choice : page * pageSize = base ∨ page * pageSize = base + pageSize := by
    simp only [window, Set.mem_ofPred_eq, pageSize] at *
    omega
  rw [pageMap]
  rcases choice with first | second
  · rw [first]
    exact known base (.inl rfl) lower
  · rw [second]
    exact known (base + pageSize) (.inr rfl) upper

/-- A stack that is not built leaves the pages as they were, and a stack that is built only
adds pages. -/
theorem buildStack_spec (valid : WellFormed machine root) (nonzero : root ≠ 0)
    (ordinary : ∀ virt, Searched virt → ¬ LargePage machine.memory root virt)
    {argv envp : List (Option (List UInt8))} {result : Option Nat}
    (done : buildStack machine root argv envp = (result, machine')) :
    (result = none → pageMap machine' root = pageMap machine root ∧
        ∀ stackTop, findStack machine root 4096 stackLimit = some stackTop →
          ∀ phys ∈ takenPages root 2 (stackTop - 2 * pageSize) machine,
            machine'.pmm.Available phys) ∧
      ∀ page translation, pageMap machine root page = some translation →
        pageMap machine' root page = some translation := by
  rw [buildStack] at done
  cases search : findStack machine root 4096 stackLimit with
  | none =>
      rw [search] at done
      cases done
      exact ⟨fun _ => ⟨rfl, nofun⟩, fun _ _ => id⟩
  | some stackTop =>
  rw [search] at done
  obtain ⟨base, rfl, aligned, low, absent⟩ := window_of_findStack valid ordinary search
  dsimp only at done
  rw [Nat.add_sub_cancel] at done
  rcases mapped : Exec.mapStackPages root 2 base 0 machine with ⟨ok, count, machine₁⟩
  rw [mapped] at done
  obtain ⟨entered, few, same, whole, staged, -, taken⟩ :=
    (Staged.refl valid fun _ => 0).mapStackPages aligned low mapped
  rw [Nat.zero_add] at same
  subst same
  rw [Set.union_empty] at staged
  have part : window base count ⊆ window base 2 := fun page member =>
    ⟨member.1, member.2.trans_le (Nat.add_le_add_left (Nat.mul_le_mul_right _ few) _)⟩
  -- undoing the pages that have been entered, from a state in which they are still there
  have undone {state : Machine} {content : ByteMemory}
      (stage : Staged machine state root (window base count) content)
      (samePages : pageMap state root = pageMap machine₁ root)
      (samePmm : state.pmm = machine₁.pmm) :
      pageMap (Exec.rollbackStack root count base state) root = pageMap machine root ∧
        ∀ phys ∈ takenPages root 2 base machine,
          (Exec.rollbackStack root count base state).pmm.Available phys := by
    obtain ⟨final, returned⟩ := stage.rollbackStack nonzero aligned
      ((Nat.add_le_add_left (Nat.mul_le_mul_right _ few) _).trans low)
      (fun page member => absent page (part member))
    refine ⟨funext fun page => final.kept page (Set.notMem_empty _), fun phys member => ?_⟩
    apply returned
    rw [samePages, samePmm]
    exact taken phys member
  have onlyAdds {state : Machine} {content : ByteMemory}
      (stage : Staged machine state root (window base 2) content) (page : Nat)
      (translation : Translation) (before : pageMap machine root page = some translation) :
      pageMap state root page = some translation := by
    rw [stage.kept page, before]
    intro inside
    rw [absent page inside] at before
    cases before
  have failed (state : Machine)
      (back : pageMap state root = pageMap machine root ∧
        ∀ phys ∈ takenPages root 2 base machine, state.pmm.Available phys) :
      ((none : Option Nat) = none → pageMap state root = pageMap machine root ∧
          ∀ stackTop, some (base + 2 * pageSize) = some stackTop →
            ∀ phys ∈ takenPages root 2 (stackTop - 2 * pageSize) machine,
              state.pmm.Available phys) ∧
        ∀ page translation, pageMap machine root page = some translation →
          pageMap state root page = some translation := by
    refine ⟨fun _ => ⟨back.1, fun stackTop same => ?_⟩, fun page translation before => ?_⟩
    · cases same
      rw [Nat.add_sub_cancel]
      exact back.2
    · rw [back.1, before]
  cases ok with
  | false =>
      cases done
      exact failed _ (undone staged rfl rfl)
  | true =>
  cases whole rfl
  dsimp only at done
  rcases fill : Exec.fillStack machine₁ root base (base + 2 * pageSize) argv envp with
    ⟨address, machine₂⟩
  rw [fill] at done
  have filled := staged.fillStack aligned fill
  obtain ⟨content, staged₂⟩ := filled.staged
  cases address with
  | none =>
      cases done
      exact failed _ (undone staged₂ filled.pages filled.allocator)
  | some address =>
      cases done
      exact ⟨nofun, onlyAdds staged₂⟩

end Call

/-- In every address space that the kernel creates and edits, without 2 MiB pages where a
stack may go, a failing call of `elf_setup_stack` changes no translation, gives the pages
back that it has taken for the stack and sets no stack pointer.  No call replaces a
translation, so that the identity pages of what it touches stay in place. -/
theorem stack_setup_undone {boot fresh : Machine} {source root : Nat}
    {events : List VmmEvent} {target after : StackTarget} {argv envp : StringVector}
    {result : Int} (kernel : KernelSpace boot (sourceRoot boot source))
    (created : newAddressSpace boot source = some (root, fresh))
    (run : Run (VmmStep root) fresh events target.machine)
    (space : ∀ mm, target.mm = some mm → mm.pml4 = root)
    (ordinary : ∀ virt, Searched virt → ¬ LargePage target.machine.memory root virt)
    (done : elfSetupStack target argv envp = (result, after))
    (intact : ∀ page, Touched target.machine after.machine root (stackTaken target argv envp)
      page → InPlace target.machine.memory root page) :
    (result = -1 →
      (∀ virt, hardwareWalk after.machine.memory root virt =
        hardwareWalk target.machine.memory root virt) ∧
      (∀ phys ∈ stackTaken target argv envp, after.machine.pmm.Available phys) ∧
      after.mm = target.mm ∧ after.userRsp = target.userRsp) ∧
    (∀ virt translation, hardwareWalk target.machine.memory root virt = some translation →
      hardwareWalk after.machine.memory root virt = some translation) ∧
    ∀ page, Touched target.machine after.machine root (stackTaken target argv envp) page →
      InPlace after.machine.memory root page := by
  refine and_assoc.mp ((and_iff_left_of_imp fun spec page touched => ?_).mpr ?_)
  · obtain ⟨translation, found, same⟩ := Option.map_eq_some_iff.mp (intact page touched)
    exact Option.map_eq_some_iff.mpr ⟨translation, spec.2 _ _ found, same⟩
  clear intact
  obtain ⟨nonzero, valid⟩ := wellFormed_of_run kernel created run
  obtain ⟨machine, mm, userRsp⟩ := target
  cases mm with
  | none =>
      cases done
      exact ⟨fun _ => ⟨fun _ => rfl, nofun, rfl, rfl⟩, fun _ _ => id⟩
  | some mm =>
  cases userRsp with
  | none =>
      cases done
      exact ⟨fun _ => ⟨fun _ => rfl, nofun, rfl, rfl⟩, fun _ _ => id⟩
  | some userRsp =>
  obtain rfl := space mm rfl
  simp only [elfSetupStack] at done
  simp only [stackTaken]
  split at done
  · next refused =>
    cases done
    rw [if_pos refused]
    exact ⟨fun _ => ⟨fun _ => rfl, nofun, rfl, rfl⟩, fun _ _ => id⟩
  next accepted =>
  rw [if_neg accepted]
  rcases built : buildStack machine mm.pml4 argv.strings envp.strings with ⟨address, machine'⟩
  obtain ⟨undone, kept⟩ := buildStack_spec valid nonzero ordinary built
  rw [built] at done
  have walks (virt : Nat) (state : Machine) : hardwareWalk state.memory mm.pml4 virt =
      pageMap state mm.pml4 (virt / pageSize) := by
    rw [pageMap, hardwareWalk_page]
  cases address with
  | none =>
      obtain ⟨samePages, returned⟩ := undone rfl
      cases done
      refine ⟨fun _ => ⟨fun virt => ?_, ?_, rfl, rfl⟩, fun virt translation before => ?_⟩
      · rw [walks virt machine', walks virt machine, samePages]
      · intro phys member
        split at member
        · cases member
        · next stackTop found => exact returned stackTop found phys member
      · rw [walks virt machine']
        rw [walks virt machine] at before
        exact kept _ _ before
  | some address =>
      cases done
      refine ⟨fun failed => absurd failed (by decide), fun virt translation before => ?_⟩
      rw [walks virt machine']
      rw [walks virt machine] at before
      exact kept _ _ before

theorem not_largePage_of_view {memory : ByteMemory} {root virt : Nat}
    (unmapped : view memory root virt = none) : ¬ LargePage memory root virt := by
  rintro ⟨pd, reached, used, large⟩
  rw [view_of_directory reached (child_eq_none_of_huge large), hugeView, used,
    if_pos rfl] at unmapped
  cases unmapped

/-- A new address space has no pages where a stack may go. -/
theorem unmapped_of_searched {boot fresh : Machine} {root : Nat}
    (inherits : Inherits boot fresh root (sourceRoot boot 0)) {virt : Nat}
    (searched : Searched virt) : view fresh.memory root virt = none := by
  obtain ⟨above, below⟩ := searched
  have slot : pml4Index virt = 255 := by
    simp only [pml4Index, Fin.ext_iff, Fin.val_ofNat, stackLimit, pageSize] at *
    change _ = 255
    omega
  rw [view, inherits.view_eq, slot]
  exact if_neg (by decide)

/-- A null argument makes the call fail, whatever happens before it is looked at. -/
theorem elfSetupStack_null (target : StackTarget) :
    (elfSetupStack target ⟨some fun _ => none, 1⟩ ⟨none, 0⟩).1 = -1 := by
  have unfilled (machine : Machine) (pml4 base top : Nat) :
      Exec.fillStack machine pml4 base top [none] [] = (none, machine) := rfl
  have one : StringVector.strings ⟨some fun _ => none, 1⟩ = [none] := rfl
  have nothing : StringVector.strings ⟨none, 0⟩ = [] := rfl
  simp only [elfSetupStack, buildStack, one, nothing, unfilled]
  split
  · split
    · rfl
    · cases findStack target.machine _ 4096 0x00007FFFFFFFE000 with
      | none => rfl
      | some stackTop =>
          dsimp only
          rcases Exec.mapStackPages _ 2 _ 0 target.machine with ⟨_ | _, mapped, machine⟩
          · rfl
          · rfl
  · rfl

/-- The first argument of a program is null. -/
theorem stack_setup_undone_null_string :
    ∃ root fresh after,
      newAddressSpace (bootMachine fun _ => 0) 0 = some (root, fresh) ∧
      elfSetupStack ⟨fresh, some ⟨root, 0, 0, 0⟩, some 0⟩ ⟨some fun _ => none, 1⟩ ⟨none, 0⟩ =
        (-1, after) ∧
      (∀ virt, hardwareWalk after.machine.memory root virt =
        hardwareWalk fresh.memory root virt) ∧
      (∀ phys ∈ stackTaken ⟨fresh, some ⟨root, 0, 0, 0⟩, some 0⟩ ⟨some fun _ => none, 1⟩
        ⟨none, 0⟩, after.machine.pmm.Available phys) ∧
      after.mm = some ⟨root, 0, 0, 0⟩ ∧ after.userRsp = some 0 := by
  obtain ⟨root, fresh, -, created, -⟩ := newAddressSpace_bootMachine fun _ => 0
  have kernel := kernelSpace_bootMachine fun _ => 0
  obtain ⟨nonzero, inherits⟩ := newAddressSpace_inherits kernel.toWellFormed created
  rcases done : elfSetupStack ⟨fresh, some ⟨root, 0, 0, 0⟩, some 0⟩ ⟨some fun _ => none, 1⟩
    ⟨none, 0⟩ with ⟨result, after⟩
  have failed := elfSetupStack_null ⟨fresh, some ⟨root, 0, 0, 0⟩, some 0⟩
  rw [done] at failed
  subst failed
  exact ⟨root, fresh, after, created, done,
    (@stack_setup_undone _ _ _ _ _ ⟨fresh, some ⟨root, 0, 0, 0⟩, some 0⟩ after _ _ _
      kernel created .start (fun mm same => by cases same; rfl)
      (fun virt searched => not_largePage_of_view (unmapped_of_searched inherits searched))
      done fun page touched => (touched_after_boot created touched).1).1 rfl⟩

end Charis.Exec
