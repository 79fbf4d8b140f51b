import Charis.Ipc.PipeStream

/-!
# Whose pipe a descriptor is

A call with a descriptor is meant to reach a pipe only through an open descriptor of it, and
to be refused otherwise.  The calls for which that is so are described exactly.
-/

namespace Charis.Ipc

open Charis.Lib

variable {Task : Type} {pipes : Table Task} {i : Fin pipeMaxPipes}

/-- A pipe has its own descriptors, or closed ends. -/
structure OwnDescriptors (pipes : Table Task) (i : Fin pipeMaxPipes) : Prop where
  readFd : (pipes i).readFd = -1 ∨ (pipes i).readFd = i * 2
  writeFd : (pipes i).writeFd = -1 ∨ (pipes i).writeFd = i * 2 + 1

theorem OwnDescriptors.of_same {pipes' : Table Task} (own : OwnDescriptors pipes i)
    (same : pipes' i = pipes i) : OwnDescriptors pipes' i := by
  constructor
  · rw [same]
    exact own.readFd
  · rw [same]
    exact own.writeFd

theorem serve_ownDescriptors (own : OwnDescriptors pipes i) (call : Call Task) :
    OwnDescriptors (call.serve pipes).state i := by
  cases call with
  | create =>
      rw [Call.serve, pipeCreate]
      split
      next j _ =>
        by_cases here : i = j
        · rw [here]
          dsimp only
          constructor
          · exact .inr (by rw [Function.update_self])
          · exact .inr (by rw [Function.update_self])
        · exact own.of_same (Function.update_of_ne here _ _)
      · exact own
  | ofUse use =>
  by_cases here : use.target = some i
  case neg => exact own.of_same (serve_other here)
  cases use with
  | read current fd buf count =>
      cases buf with
      | false =>
          rw [Call.serve, Use.serve, pipeRead_refused _ _ _ (.inr rfl)]
          exact own
      | true =>
      obtain ⟨readFd, writeFd⟩ := read_readFd (pipes i) current count
      rw [Call.serve, Use.serve, pipeRead_found _ _ _ here]
      constructor
      · rw [onPipe_same, readFd]
        exact own.readFd
      · rw [onPipe_same, writeFd]
        exact own.writeFd
  | write current fd buf count =>
      cases buf with
      | none =>
          rw [Call.serve, Use.serve, pipeWrite_refused _ _ _ (.inr rfl)]
          exact own
      | some buf =>
      obtain ⟨readFd, writeFd⟩ := write_readFd (pipes i) current buf count
      rw [Call.serve, Use.serve, pipeWrite_found _ _ _ here]
      constructor
      · rw [onPipe_same, readFd]
        exact own.readFd
      · rw [onPipe_same, writeFd]
        exact own.writeFd
  | close fd =>
  rw [Use.target] at here
  rw [Call.serve, Use.serve, pipeClose]
  split at here
  next even =>
    rw [if_pos even, here]
    constructor
    · exact .inl (by rw [onPipe_same]; rfl)
    · rw [onPipe_same]
      exact own.writeFd
  next odd =>
    rw [if_neg odd, here]
    constructor
    · rw [onPipe_same]
      exact own.readFd
    · exact .inl (by rw [onPipe_same]; rfl)

theorem afterCalls_ownDescriptors (calls : List (Call Task)) (i : Fin pipeMaxPipes) :
    OwnDescriptors (afterCalls pipeInit calls) i := by
  suffices kept : ∀ pipes : Table Task, OwnDescriptors pipes i →
      OwnDescriptors (afterCalls pipes calls) i from kept _ ⟨.inl rfl, .inl rfl⟩
  induction calls with
  | nil => exact fun _ own => own
  | cons call calls ih => exact fun pipes own => ih _ (serve_ownDescriptors own call)

namespace Use

/-- The descriptor of a call is the open descriptor of a pipe that the call is for. -/
def Names (pipes : Table Task) (i : Fin pipeMaxPipes) : Use Task → Prop
  | .read _ fd _ _ => fd ≠ -1 ∧ (pipes i).readFd = fd
  | .write _ fd _ _ => fd ≠ -1 ∧ (pipes i).writeFd = fd
  | .close fd => fd ≠ -1 ∧ ((pipes i).readFd = fd ∨ (pipes i).writeFd = fd)

/-- The result of a call that is refused; `pipe_close` has none. -/
def refusal : Use Task → Int
  | .close _ => 0
  | _ => -1

/-- The call names a pipe, or is led to none, or finds nothing to do. -/
def Careful (pipes : Table Task) : Use Task → Prop
  | use@(.read _ fd buf _) => (∃ i, use.Names pipes i) ∨ buf = false ∨ fd ≤ -2 ∨ 64 ≤ fd
  | use@(.write _ fd buf _) => (∃ i, use.Names pipes i) ∨ buf = none ∨ fd ≤ -1 ∨ 65 ≤ fd
  | use@(.close fd) => (∃ i, use.Names pipes i) ∨
      ∀ i : Fin pipeMaxPipes, (fd = i * 2 → (pipes i).writer = none) ∧
        (fd = i * 2 + 1 → (pipes i).reader = none)

end Use

/-- A call reaches only a pipe whose open descriptor it is given, and is refused without. -/
structure Confined (pipes : Table Task) (use : Use Task) : Prop where
  affects : ∀ i, (use.serve pipes).state i ≠ pipes i → use.Names pipes i
  returns : ∀ i, use.target = some i → (use.serve pipes).data ≠ [] → use.Names pipes i
  refused : (∀ i, ¬ use.Names pipes i) →
    (use.serve pipes).result = use.refusal ∧ (use.serve pipes).data = [] ∧
      (use.serve pipes).state = pipes

theorem Confined.of_target {use : Use Task} (names : use.Names pipes i)
    (target : use.target = some i) : Confined pipes use := by
  constructor
  · intro j changed
    by_cases here : use.target = some j
    · rw [target, Option.some.injEq] at here
      exact here ▸ names
    · exact absurd (serve_other here) changed
  · intro j here _
    rw [target, Option.some.injEq] at here
    exact here ▸ names
  · intro none
    exact absurd names (none i)

theorem Confined.of_refused {use : Use Task}
    (refused : use.serve pipes = { result := use.refusal, state := pipes }) :
    Confined pipes use := by
  constructor
  · intro j changed
    rw [refused] at changed
    exact absurd rfl changed
  · intro j _ moved
    rw [refused] at moved
    exact absurd rfl moved
  · intro _
    rw [refused]
    exact ⟨rfl, rfl, rfl⟩

theorem pipeIndex_read_none {fd : Int} :
    pipeIndex (fd.tdiv 2) = none ↔ fd ≤ -2 ∨ 64 ≤ fd := by
  rw [pipeIndex_eq_none]
  unfold pipeMaxPipes
  rcases Int.le_total 0 fd with positive | negative
  · rw [Int.tdiv_eq_ediv_of_nonneg positive]
    omega
  · -- the quotient is rounded towards zero
    have mirrored : fd.tdiv 2 = -(-fd / 2) := by
      rw [← Int.tdiv_eq_ediv_of_nonneg (by omega), Int.neg_tdiv, Int.neg_neg]
    omega

theorem pipeIndex_write_none {fd : Int} :
    pipeIndex ((fd - 1).tdiv 2) = none ↔ fd ≤ -1 ∨ 65 ≤ fd := by
  rw [pipeIndex_read_none]
  omega

theorem read_result (pipe : Pipe Task) (current : Option Task) (count : Nat) :
    (pipe.read current count).result ≠ -1 := by
  unfold Pipe.read
  split
  · simp
  split
  · simp
  · simp only
    omega

theorem write_result (pipe : Pipe Task) (current : Option Task) (buf : Nat → UInt8)
    (count : Nat) : (pipe.write current buf count).result ≠ -1 := by
  unfold Pipe.write
  split
  · simp
  · simp only
    omega

theorem confined_read_iff (own : ∀ i, OwnDescriptors pipes i) (current : Option Task) (fd : Int)
    (buf : Bool) (count : Nat) :
    Confined pipes (.read current fd buf count) ↔
      (Use.read current fd buf count).Careful pipes := by
  constructor
  · intro confined
    by_contra careless
    simp only [Use.Careful, not_or, ← pipeIndex_read_none] at careless
    obtain ⟨unnamed, given, leads⟩ := careless
    obtain ⟨i, found⟩ := Option.ne_none_iff_exists'.mp leads
    rw [Bool.not_eq_false] at given
    have result := (confined.refused (not_exists.mp unnamed)).1
    rw [given, Use.serve, pipeRead_found _ _ _ found] at result
    exact read_result _ _ _ result
  · rintro (⟨i, names⟩ | refused)
    · obtain ⟨valid, opened⟩ := names
      have even : fd = i * 2 := by
        have shape := (own i).readFd
        omega
      refine .of_target ⟨valid, opened⟩ ?_
      rw [Use.target, pipeIndex_eq_some, even]
      exact Int.mul_tdiv_cancel _ (by decide)
    · apply Confined.of_refused
      rw [← pipeIndex_read_none, or_comm] at refused
      exact pipeRead_refused _ _ _ refused

theorem confined_write_iff (own : ∀ i, OwnDescriptors pipes i) (current : Option Task) (fd : Int)
    (buf : Option (Nat → UInt8)) (count : Nat) :
    Confined pipes (.write current fd buf count) ↔
      (Use.write current fd buf count).Careful pipes := by
  constructor
  · intro confined
    by_contra careless
    simp only [Use.Careful, not_or, ← pipeIndex_write_none] at careless
    obtain ⟨unnamed, given, leads⟩ := careless
    obtain ⟨i, found⟩ := Option.ne_none_iff_exists'.mp leads
    obtain ⟨bytes, rfl⟩ := Option.ne_none_iff_exists'.mp given
    have result := (confined.refused (not_exists.mp unnamed)).1
    rw [Use.serve, pipeWrite_found _ _ _ found] at result
    exact write_result _ _ _ _ result
  · rintro (⟨i, names⟩ | refused)
    · obtain ⟨valid, opened⟩ := names
      have odd : fd - 1 = i * 2 := by
        have shape := (own i).writeFd
        omega
      refine .of_target ⟨valid, opened⟩ ?_
      rw [Use.target, pipeIndex_eq_some, odd]
      exact Int.mul_tdiv_cancel _ (by decide)
    · apply Confined.of_refused
      rw [← pipeIndex_write_none, or_comm] at refused
      exact pipeWrite_refused _ _ _ refused

theorem target_close_even (i : Fin pipeMaxPipes) :
    (Use.close (i * 2) : Use Task).target = some i := by
  rw [Use.target, if_pos (Int.mul_tmod_left _ _), pipeIndex_eq_some]
  exact Int.mul_tdiv_cancel _ (by decide)

theorem target_close_odd (i : Fin pipeMaxPipes) :
    (Use.close (i * 2 + 1) : Use Task).target = some i := by
  have odd : ((i : Int) * 2 + 1).tmod 2 ≠ 0 := by
    intro even
    have divides := Int.dvd_of_tmod_eq_zero even
    omega
  rw [Use.target, if_neg odd, pipeIndex_eq_some, Int.add_sub_cancel]
  exact Int.mul_tdiv_cancel _ (by decide)

theorem serve_close_even (pipes : Table Task) (i : Fin pipeMaxPipes) :
    (Use.close (i * 2)).serve pipes = onPipe pipes i Pipe.closeRead := by
  have target : (Use.close (i * 2) : Use Task).target = some i := target_close_even i
  rw [Use.target, if_pos (Int.mul_tmod_left _ _)] at target
  rw [Use.serve, pipeClose, if_pos (Int.mul_tmod_left _ _), target]

theorem serve_close_odd (pipes : Table Task) (i : Fin pipeMaxPipes) :
    (Use.close (i * 2 + 1)).serve pipes = onPipe pipes i Pipe.closeWrite := by
  have odd : ((i : Int) * 2 + 1).tmod 2 ≠ 0 := by
    intro even
    have divides := Int.dvd_of_tmod_eq_zero even
    omega
  have target : (Use.close (i * 2 + 1) : Use Task).target = some i := target_close_odd i
  rw [Use.target, if_neg odd] at target
  rw [Use.serve, pipeClose, if_neg odd, target]

/-- The descriptor of a close that is led to a pipe. -/
theorem close_target {fd : Int} (target : (Use.close fd : Use Task).target = some i) :
    fd = i * 2 ∨ fd = i * 2 + 1 := by
  rw [Use.target] at target
  split at target
  next even => exact .inl (eq_of_even even target)
  next odd => exact .inr (eq_of_odd odd target)

theorem serve_close_none {fd : Int} (none : (Use.close fd : Use Task).target = none) :
    (Use.close fd).serve pipes = { result := 0, state := pipes } := by
  rw [Use.target] at none
  rw [Use.serve, pipeClose]
  split at none
  next even => rw [if_pos even, none]
  next odd => rw [if_neg odd, none]

theorem closeRead_idle {pipe : Pipe Task} (closed : pipe.readFd = -1)
    (idle : pipe.writer = none) : pipe.closeRead = { result := 0, state := pipe } := by
  rw [Pipe.closeRead, idle, ← closed]
  congr 1
  rw [← idle]

theorem closeWrite_idle {pipe : Pipe Task} (closed : pipe.writeFd = -1)
    (idle : pipe.reader = none) : pipe.closeWrite = { result := 0, state := pipe } := by
  rw [Pipe.closeWrite, idle, ← closed]
  congr 1
  rw [← idle]

/-- A call that leaves a pipe as it is leaves the table as it is. -/
theorem onPipe_idle {call : Pipe Task → Outcome Task (Pipe Task)}
    (idle : call (pipes i) = { result := 0, state := pipes i }) :
    onPipe pipes i call = { result := 0, state := pipes } := by
  rw [onPipe, idle, Function.update_eq_self]

theorem confined_close_iff (own : ∀ i, OwnDescriptors pipes i) (fd : Int) :
    Confined pipes (.close fd) ↔ (Use.close fd).Careful pipes := by
  constructor
  · intro confined
    by_cases named : ∃ i, (Use.close fd).Names pipes i
    · exact .inl named
    have kept := (confined.refused (not_exists.mp named)).2.2
    refine .inr fun i => ⟨?_, ?_⟩
    · rintro rfl
      rw [serve_close_even] at kept
      have same := congrFun kept i
      rw [onPipe_same] at same
      exact (congrArg Pipe.writer same).symm
    · rintro rfl
      rw [serve_close_odd] at kept
      have same := congrFun kept i
      rw [onPipe_same] at same
      exact (congrArg Pipe.reader same).symm
  intro careful
  by_cases named : ∃ i, (Use.close fd).Names pipes i
  · obtain ⟨i, valid, opened⟩ := named
    have shape := own i
    have place : fd = i * 2 ∨ fd = i * 2 + 1 := by
      obtain ⟨readFd, writeFd⟩ := shape
      omega
    refine .of_target ⟨valid, opened⟩ ?_
    rcases place with rfl | rfl
    · exact target_close_even i
    · exact target_close_odd i
  have idle := careful.resolve_left named
  rw [not_exists] at named
  cases target : (Use.close fd : Use Task).target with
  | none => exact .of_refused (serve_close_none target)
  | some i =>
  have unopened := named i
  obtain ⟨readFd, writeFd⟩ := own i
  rcases close_target target with rfl | rfl
  · have closed : (pipes i).readFd = -1 := by
      rcases readFd with closed | opened
      · exact closed
      · exact absurd ⟨by omega, .inl opened⟩ unopened
    apply Confined.of_refused
    rw [serve_close_even]
    exact onPipe_idle (closeRead_idle closed ((idle i).1 rfl))
  · have closed : (pipes i).writeFd = -1 := by
      rcases writeFd with closed | opened
      · exact closed
      · exact absurd ⟨by omega, .inr opened⟩ unopened
    apply Confined.of_refused
    rw [serve_close_odd]
    exact onPipe_idle (closeWrite_idle closed ((idle i).2 rfl))

/-- The calls that are confined are those of the condition, in every reachable table. -/
theorem uses_confined_iff (calls : List (Call Task)) (use : Use Task) :
    Confined (afterCalls pipeInit calls) use ↔ use.Careful (afterCalls pipeInit calls) := by
  have own := afterCalls_ownDescriptors calls
  cases use with
  | read current fd buf count => exact confined_read_iff own current fd buf count
  | write current fd buf count => exact confined_write_iff own current fd buf count
  | close fd => exact confined_close_iff own fd

/-- A pipe is made and three bytes are written to it; a read with descriptor -1 returns them. -/
theorem read_of_minus_one :
    ¬ Confined
      (afterCalls pipeInit
        [.create, .ofUse (.write (some ()) 1 (some fun i => UInt8.ofNat i) 3)])
      (.read (some ()) (-1) true 3) := by
  intro confined
  have data := (confined.refused (fun i names => names.1 rfl)).2.1
  exact absurd data (by decide)

end Charis.Ipc
