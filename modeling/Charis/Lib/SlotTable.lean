import Mathlib.Data.List.Basic
import Mathlib.Data.List.TakeWhile
import Mathlib.Logic.Function.Basic

/-!
# Tables of slots with an end

A table is a list of slots, each of which is unused, deleted or holds a name.  It ends at the
first unused slot, whatever is behind it.  A name that is put into this slot moves the end, so
that slots behind it become a part of the table.
-/

namespace Charis.Lib

/-- A walk over blocks that passes all slots before one in which it finds a result. -/
theorem findSome?_of_split {β σ γ : Type*} {blocks : List β} {slots : β → List σ}
    {find : β → Option γ} {passed : σ → Prop} {result : γ → Prop} {slot : σ}
    (nothing : ∀ block, (∀ p ∈ slots block, passed p) → find block = none)
    (found : ∀ block before behind, slots block = before ++ slot :: behind →
      (∀ p ∈ before, passed p) → ∃ value, find block = some value ∧ result value)
    {before behind : List σ} (split : blocks.flatMap slots = before ++ slot :: behind)
    (before_passed : ∀ p ∈ before, passed p) :
    ∃ value, blocks.findSome? find = some value ∧ result value := by
  induction blocks generalizing before with
  | nil => cases before <;> cases split
  | cons block rest ih =>
  rw [List.flatMap_cons] at split
  have goes_on : ∀ before', before = slots block ++ before' →
      rest.flatMap slots = before' ++ slot :: behind →
      ∃ value, (block :: rest).findSome? find = some value ∧ result value := by
    intro before' same later
    rw [List.findSome?_cons, nothing block]
    · exact ih later fun p member => before_passed p (same ▸ List.mem_append_right _ member)
    · exact fun p member => before_passed p (same ▸ List.mem_append_left _ member)
  rcases List.append_eq_append_iff.mp split with ⟨more, same, later⟩ | ⟨more, same, later⟩
  · exact goes_on more same later
  · cases more with
    | nil => exact goes_on [] (by rw [same, List.append_nil, List.append_nil]) later.symm
    | cons first more =>
        rw [List.cons_append, List.cons.injEq] at later
        rw [← later.1] at same
        obtain ⟨value, here, holds⟩ := found block before more same before_passed
        refine ⟨value, ?_, holds⟩
        rw [List.findSome?_cons, here]

/-- What a walk over blocks still meets when the end of the table only ends its block: the
parts of the later blocks before the ends of their own. -/
def behindEnd {σ : Type*} (inside : σ → Bool) : List (List σ) → List σ
  | [] => []
  | block :: rest =>
      if block.all inside then behindEnd inside rest
      else rest.flatMap fun block => block.takeWhile inside

theorem flatMap_takeWhile {σ : Type*} (inside : σ → Bool) (blocks : List (List σ)) :
    (blocks.flatMap fun block => block.takeWhile inside) =
      blocks.flatten.takeWhile inside ++ behindEnd inside blocks := by
  induction blocks with
  | nil => rfl
  | cons block rest ih =>
  rw [List.flatMap_cons, List.flatten_cons, behindEnd]
  split
  · next whole =>
    have all : ∀ slot ∈ block, inside slot = true := List.all_eq_true.mp whole
    rw [ih, List.takeWhile_eq_self_iff.mpr all, List.takeWhile_append_of_pos all,
      List.append_assoc]
  next ended =>
  -- the end lies in this block
  have stops : (block ++ rest.flatten).takeWhile inside = block.takeWhile inside := by
    rw [List.takeWhile_append, if_neg]
    intro same
    apply ended
    rw [List.all_eq_true]
    have self := List.takeWhile_eq_self_iff.mp
      ((List.takeWhile_prefix inside).eq_of_length same)
    exact self
  rw [stops]

/-- What is in a slot. -/
inductive Cell (ν : Type*) where
  | unused
  | deleted
  | used (name : ν)
  deriving DecidableEq, Repr

namespace Cell

variable {σ ν : Type*} [DecidableEq ν] {cells : σ → Cell ν} {slots : List σ} {slot : σ}
  {name : ν}

/-- The slots before the end. -/
def opened (cells : σ → Cell ν) (slots : List σ) : List σ :=
  slots.takeWhile fun slot => cells slot ≠ .unused

/-- No two slots hold the same name. -/
def DistinctIn (cells : σ → Cell ν) (slots : List σ) : Prop :=
  ∀ p ∈ slots, ∀ q ∈ slots, ∀ name, cells p = .used name → cells q = .used name → p = q

theorem opened_congr {cells' : σ → Cell ν} (same : ∀ p ∈ slots, cells' p = cells p) :
    opened cells' slots = opened cells slots := by
  induction slots with
  | nil => rfl
  | cons slot rest ih =>
      have below := ih fun p member => same p (List.mem_cons_of_mem _ member)
      rw [opened] at below
      rw [opened, opened, List.takeWhile_cons, List.takeWhile_cons, below,
        same slot List.mem_cons_self]
      rfl

theorem mem_of_mem_opened {p : σ} (member : p ∈ opened cells slots) : p ∈ slots :=
  (List.takeWhile_sublist _).mem member

/-- The table ends at an unused slot. -/
theorem mem_before_of_mem_opened {before behind : List σ} {p : σ}
    (at_end : cells slot = .unused) (member : p ∈ opened cells (before ++ slot :: behind)) :
    p ∈ before := by
  induction before with
  | nil =>
      rw [opened, List.nil_append, List.takeWhile_cons] at member
      simp [at_end] at member
  | cons first rest ih =>
  rw [opened, List.cons_append, List.takeWhile_cons] at member
  split at member
  · cases member with
    | head => exact List.mem_cons_self
    | tail _ member => exact List.mem_cons_of_mem _ (ih member)
  · cases member

/-- Only the cells of the table count. -/
theorem distinctIn_opened_congr {cells' : σ → Cell ν} (same : ∀ p ∈ slots, cells' p = cells p) :
    DistinctIn cells' (opened cells' slots) ↔ DistinctIn cells (opened cells slots) := by
  rw [opened_congr same]
  apply forall₂_congr
  intro p p_member
  apply forall₂_congr
  intro q q_member
  rw [same p (mem_of_mem_opened p_member), same q (mem_of_mem_opened q_member)]

variable [DecidableEq σ]

/-- The slots that the table gets when the one at its end is filled. -/
def uncovered (cells : σ → Cell ν) (slots : List σ) : List σ :=
  match slots.dropWhile fun slot => cells slot ≠ .unused with
  | [] => []
  | last :: behind => behind.takeWhile fun slot => slot = last ∨ cells slot ≠ .unused

/-- The names behind the end are neither a name to come nor names of the table or each
other's. -/
def Fresh (cells : σ → Cell ν) (slots : List σ) (name : ν) : Prop :=
  ∀ p ∈ uncovered cells slots, ∀ other, cells p = .used other →
    other ≠ name ∧ ∀ q ∈ opened cells slots ++ uncovered cells slots,
      cells q = .used other → q = p

/-- A slot that a name can be put into: the one at the end, or a deleted one of a table
without an end. -/
def Vacant (cells : σ → Cell ν) (slots : List σ) (slot : σ) : Prop :=
  ∃ before behind, slots = before ++ slot :: behind ∧ slot ∉ before ∧
    (∀ p ∈ before, cells p ≠ .unused) ∧
    (cells slot = .unused ∨ cells slot = .deleted ∧ ∀ p ∈ behind, cells p ≠ .unused)

/-- The slots of the table after a vacant one is filled. -/
theorem opened_update (vacant : Vacant cells slots slot) :
    ∀ p, p ∈ opened (Function.update cells slot (.used name)) slots ↔
      p = slot ∨ p ∈ opened cells slots ∨ p ∈ uncovered cells slots := by
  obtain ⟨before, behind, rfl, absent, proper, is_vacant⟩ := vacant
  have kept : ∀ p ∈ before, Function.update cells slot (.used name) p = cells p := by
    intro p member
    apply Function.update_of_ne
    rintro rfl
    exact absent member
  have start : ∀ p ∈ before, decide (cells p ≠ .unused) = true :=
    fun p member => decide_eq_true (proper p member)
  have start' : ∀ p ∈ before,
      decide (Function.update cells slot (.used name) p ≠ .unused) = true := by
    intro p member
    rw [kept p member]
    exact start p member
  have after : opened (Function.update cells slot (.used name)) (before ++ slot :: behind) =
      before ++ slot :: behind.takeWhile fun p => p = slot ∨ cells p ≠ .unused := by
    rw [opened, List.takeWhile_append_of_pos start', List.takeWhile_cons_of_pos (by simp)]
    congr 2
    apply congrArg (behind.takeWhile ·)
    funext p
    by_cases same : p = slot
    · simp [same]
    · simp [same]
  rw [after]
  intro p
  cases is_vacant with
  | inl at_end =>
      have ends : ((slot :: behind).takeWhile fun p => decide (cells p ≠ .unused)) = [] := by
        simp [at_end]
      have rest : ((slot :: behind).dropWhile fun p => decide (cells p ≠ .unused)) =
          slot :: behind := by
        simp [at_end]
      rw [opened, uncovered, List.takeWhile_append_of_pos start,
        List.dropWhile_append_of_pos start, ends, rest]
      simp only [List.mem_append, List.mem_cons, List.append_nil]
      tauto
  | inr removed =>
  have every : ∀ p ∈ before ++ slot :: behind, decide (cells p ≠ .unused) = true := by
    intro p member
    apply decide_eq_true
    rcases List.mem_append.mp member with early | late
    · exact proper p early
    rcases List.mem_cons.mp late with rfl | late
    · rw [removed.1]
      exact nofun
    · exact removed.2 p late
  have all_behind : (behind.takeWhile fun p => p = slot ∨ cells p ≠ .unused) = behind := by
    apply List.takeWhile_eq_self_iff.mpr
    intro p member
    exact decide_eq_true (.inr (removed.2 p member))
  rw [opened, uncovered, List.takeWhile_eq_self_iff.mpr every,
    List.dropWhile_eq_nil_iff.mpr every, all_behind]
  simp only [List.mem_append, List.mem_cons, List.not_mem_nil, or_false]
  tauto

/-- After a new name is put into a vacant slot the names are different exactly if those that
it uncovers are. -/
theorem distinctIn_update_iff (vacant : Vacant cells slots slot)
    (distinct : DistinctIn cells (opened cells slots))
    (new : ∀ p ∈ opened cells slots, cells p ≠ .used name) :
    DistinctIn (Function.update cells slot (.used name))
        (opened (Function.update cells slot (.used name)) slots) ↔
      Fresh cells slots name := by
  have members := @opened_update σ ν _ cells slots slot name _ vacant
  have empty : ∀ other, cells slot ≠ .used other := by
    obtain ⟨_, _, _, _, _, is_vacant⟩ := vacant
    cases is_vacant with
    | inl at_end =>
        rw [at_end]
        exact nofun
    | inr removed =>
        rw [removed.1]
        exact nofun
  have elsewhere : ∀ {p other}, cells p = .used other → p ≠ slot := by
    rintro p other holds rfl
    exact empty other holds
  have value : ∀ {p other}, cells p = .used other →
      Function.update cells slot (.used name) p = .used other := by
    intro p other holds
    rw [Function.update_of_ne (elsewhere holds), holds]
  have filled : Function.update cells slot (.used name) slot = .used name :=
    Function.update_self ..
  constructor
  · intro after p behind other holds
    have here := (members p).mpr (.inr (.inr behind))
    constructor
    · rintro rfl
      exact elsewhere holds (after p here slot ((members slot).mpr (.inl rfl)) _
        (value holds) filled)
    · intro q member holds'
      have there := (members q).mpr (.inr (List.mem_append.mp member))
      exact after q there p here other (value holds') (value holds)
  intro fresh p p_member q q_member other p_holds q_holds
  -- a slot that holds a name is the filled one or held it before
  have cases_of : ∀ {r}, r ∈ opened (Function.update cells slot (.used name)) slots →
      Function.update cells slot (.used name) r = .used other →
      r = slot ∧ name = other ∨
        (r ∈ opened cells slots ∨ r ∈ uncovered cells slots) ∧ cells r = .used other := by
    intro r member holds
    by_cases same : r = slot
    · rw [same, filled] at holds
      exact .inl ⟨same, Cell.used.inj holds⟩
    · rw [Function.update_of_ne same] at holds
      exact .inr ⟨((members r).mp member).resolve_left same, holds⟩
  have old_ne : ∀ {r}, (r ∈ opened cells slots ∨ r ∈ uncovered cells slots) →
      cells r = .used other → other ≠ name := by
    intro r member holds
    cases member with
    | inl early =>
        rintro rfl
        exact new r early holds
    | inr behind => exact (fresh r behind other holds).1
  rcases cases_of p_member p_holds with ⟨rfl, named⟩ | ⟨p_old, p_name⟩
  · rcases cases_of q_member q_holds with ⟨rfl, -⟩ | ⟨q_old, q_name⟩
    · rfl
    · exact absurd named.symm (old_ne q_old q_name)
  · rcases cases_of q_member q_holds with ⟨rfl, named⟩ | ⟨q_old, q_name⟩
    · exact absurd named.symm (old_ne p_old p_name)
    · rcases p_old with p_early | p_behind
      · rcases q_old with q_early | q_behind
        · exact distinct p p_early q q_early other p_name q_name
        · exact (fresh q q_behind other q_name).2 p (List.mem_append_left _ p_early) p_name
      · exact ((fresh p p_behind other p_name).2 q (List.mem_append.mpr q_old) q_name).symm

end Cell

end Charis.Lib
