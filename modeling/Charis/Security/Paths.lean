import Mathlib

/-!
# Parent components of paths

`security_verify_path` looks at three characters at a time, and `file_path_has_parent` of the
browser at one component after the other.  A path is a string without its terminating zero.
-/

namespace Charis.Security

abbrev slash : UInt8 := 0x2F

abbrev dot : UInt8 := 0x2E

/-- `security_verify_path`, from a character of the path on. -/
def securityVerifyPath : List UInt8 → Bool
  | [] => true
  | c :: rest =>
      if c = dot ∧ rest[0]? = some dot ∧ (rest[1]? = some slash ∨ rest[1]? = none) then false
      else securityVerifyPath rest

/-- What the inner loops of `file_path_has_parent` skip is not empty. -/
theorem skip_lt {path : List UInt8} (nonempty : path ≠ []) :
    ((path.dropWhile (· == slash)).dropWhile (· != slash)).length < path.length := by
  cases path with
  | nil => exact absurd rfl nonempty
  | cons c rest =>
  have fewer : ∀ p : UInt8 → Bool, ∀ bytes : List UInt8,
      (bytes.dropWhile p).length ≤ bytes.length :=
    fun p bytes => (List.dropWhile_sublist p).length_le
  apply Nat.lt_succ_of_le
  by_cases separator : c = slash
  · rw [List.dropWhile_cons_of_pos (by simp [separator])]
    exact (fewer _ _).trans (fewer _ rest)
  · rw [List.dropWhile_cons_of_neg (by simp [separator]),
      List.dropWhile_cons_of_pos (by simp [separator])]
    exact fewer _ rest

/-- `file_path_has_parent`, from the end of a component on. -/
def filePathHasParent (path : List UInt8) : Bool :=
  if path = [] then false
  else
    let start := path.dropWhile (· == slash)
    let component := start.takeWhile (· != slash)
    if component.length = 2 ∧ component[0]? = some dot ∧ component[1]? = some dot then true
    else filePathHasParent (start.dropWhile (· != slash))
termination_by path.length
decreasing_by exact skip_lt (by assumption)

/-- The components of a path. -/
def components (path : List UInt8) : List (List UInt8) := path.splitOn slash

/-- The component `..`. -/
abbrev parent : List UInt8 := [dot, dot]

variable {c : UInt8} {path rest : List UInt8}

theorem components_cons_slash (path : List UInt8) :
    components (slash :: path) = [] :: components path := by
  simp [components, List.splitOn_cons_eq_if_modifyHead]

/-- Another character is put in front of the first component. -/
theorem components_cons_of_ne {first : List UInt8} {others : List (List UInt8)}
    (separator : c ≠ slash) (split : components path = first :: others) :
    components (c :: path) = (c :: first) :: others := by
  rw [components] at split ⊢
  rw [List.splitOn_cons_eq_if_modifyHead, split]
  simp [separator]

/-- The first component goes up to the first slash, and the others follow. -/
theorem components_eq_cons (path : List UInt8) :
    ∃ others, components path = path.takeWhile (· != slash) :: others ∧
      (parent ∈ others ↔ parent ∈ components (path.dropWhile (· != slash))) := by
  induction path with
  | nil => exact ⟨[], rfl, by simp [components]⟩
  | cons c path ih =>
  obtain ⟨others, split, same⟩ := ih
  by_cases separator : c = slash
  · subst separator
    refine ⟨components path, ?_, ?_⟩
    · rw [components_cons_slash]
      rfl
    · rw [List.dropWhile_cons_of_neg (by simp), components_cons_slash]
      simp
  · refine ⟨others, ?_, ?_⟩
    · rw [components_cons_of_ne separator split,
        List.takeWhile_cons_of_pos (by simp [separator])]
    · rw [List.dropWhile_cons_of_pos (by simp [separator])]
      exact same

theorem first_component_dot :
    rest.takeWhile (· != slash) = [dot] ↔
      rest[0]? = some dot ∧ (rest[1]? = some slash ∨ rest[1]? = none) := by
  have apart : slash ≠ dot := by decide
  cases rest with
  | nil => simp
  | cons second rest =>
  by_cases separator : second = slash
  · simp [separator, apart]
  · have taken : (second :: rest).takeWhile (· != slash) =
        second :: rest.takeWhile (· != slash) :=
      List.takeWhile_cons_of_pos (by simp [separator])
    rw [taken]
    simp only [List.cons.injEq, List.getElem?_cons_zero, List.getElem?_cons_succ,
      Option.some.injEq]
    apply and_congr Iff.rfl
    cases rest with
    | nil => simp
    | cons third rest => simp

/-- The window shows a component that is `..` from here on. -/
theorem window_iff :
    (c = dot ∧ rest[0]? = some dot ∧ (rest[1]? = some slash ∨ rest[1]? = none)) ↔
      parent = c :: rest.takeWhile (· != slash) := by
  rw [← first_component_dot]
  constructor
  · rintro ⟨same, first⟩
    rw [same, first]
  · intro same
    obtain ⟨same, first⟩ := List.cons.inj same
    exact ⟨same.symm, first.symm⟩

/-- The window finds the components that end in two dots. -/
theorem securityVerifyPath_iff (path : List UInt8) :
    securityVerifyPath path = false ↔ ∃ component ∈ components path, parent <:+ component := by
  induction path with
  | nil => simp [securityVerifyPath, components]
  | cons c path ih =>
  rw [securityVerifyPath]
  by_cases separator : c = slash
  · have hidden : ¬ (c = dot ∧ path[0]? = some dot ∧
        (path[1]? = some slash ∨ path[1]? = none)) := by
      rw [separator]
      rintro ⟨same, -⟩
      exact absurd same (by decide)
    rw [if_neg hidden, ih, separator, components_cons_slash]
    simp
  obtain ⟨others, split, -⟩ := components_eq_cons path
  rw [components_cons_of_ne separator split]
  rw [split] at ih
  simp only [List.mem_cons, exists_eq_or_imp] at ih ⊢
  rw [List.suffix_cons_iff, ← window_iff, or_assoc]
  split
  next shown =>
    constructor
    · intro _
      exact Or.inl shown
    · intro _
      rfl
  next hidden =>
    rw [ih]
    constructor
    · exact Or.inr
    · intro found
      exact found.resolve_left hidden

/-- Slashes in front add empty components only. -/
theorem parent_mem_dropWhile (path : List UInt8) :
    parent ∈ components (path.dropWhile (· == slash)) ↔ parent ∈ components path := by
  induction path with
  | nil => exact Iff.rfl
  | cons c path ih =>
      by_cases separator : c = slash
      · subst separator
        rw [List.dropWhile_cons_of_pos (by simp), ih, components_cons_slash]
        simp
      · rw [List.dropWhile_cons_of_neg (by simp [separator])]

/-- The test of `file_path_has_parent`. -/
theorem isParent_iff (component : List UInt8) :
    (component.length = 2 ∧ component[0]? = some dot ∧ component[1]? = some dot) ↔
      parent = component := by
  constructor
  · rintro ⟨two, first, second⟩
    obtain ⟨a, b, rfl⟩ := List.length_eq_two.mp two
    simp only [List.getElem?_cons_zero, List.getElem?_cons_succ, Option.some.injEq] at first second
    rw [first, second]
  · rintro rfl
    exact ⟨rfl, rfl, rfl⟩

/-- The browser finds the components that are `..`. -/
theorem filePathHasParent_iff (path : List UInt8) :
    filePathHasParent path ↔ parent ∈ components path := by
  induction path using filePathHasParent.induct with
  | case1 => simp [filePathHasParent, components]
  | case2 path nonempty start component found =>
      obtain ⟨others, split, -⟩ := components_eq_cons start
      have first : parent = component := (isParent_iff component).mp found
      rw [← parent_mem_dropWhile, split, first]
      rw [filePathHasParent, if_neg nonempty]
      simp only [if_pos found, component, start]
      simp
  | case3 path nonempty start component missed ih =>
      obtain ⟨others, split, same⟩ := components_eq_cons start
      have other : parent ≠ component := fun first => missed ((isParent_iff component).mpr first)
      rw [filePathHasParent, if_neg nonempty, if_neg missed, ih, ← parent_mem_dropWhile path, split,
        List.mem_cons, or_iff_right other, same]

/-- A path is refused by either check exactly when it has a component `..`. -/
def Agree (path : List UInt8) : Prop :=
  (securityVerifyPath path = false ↔ parent ∈ components path) ∧
    (filePathHasParent path ↔ parent ∈ components path)

/-- The checks agree unless a component merely ends in two dots and none is `..`. -/
theorem path_checks_agree_iff (path : List UInt8) :
    Agree path ↔
      (∀ component ∈ components path, parent <:+ component → component = parent) ∨
        parent ∈ components path := by
  rw [Agree, and_iff_left (filePathHasParent_iff path), securityVerifyPath_iff]
  constructor
  · intro agree
    by_cases has : parent ∈ components path
    · exact Or.inr has
    · left
      intro component mem ends
      exact absurd (agree.mp ⟨component, mem, ends⟩) has
  · intro condition
    constructor
    · rintro ⟨component, mem, ends⟩
      cases condition with
      | inl only => exact only component mem ends ▸ mem
      | inr has => exact has
    · intro has
      exact ⟨parent, has, List.suffix_refl parent⟩

/-- The file `/a..` has no component `..`, and only the browser opens it. -/
theorem path_checks_disagree :
    ¬ Agree [slash, 0x61, dot, dot] ∧ securityVerifyPath [slash, 0x61, dot, dot] = false ∧
      filePathHasParent [slash, 0x61, dot, dot] = false := by
  have none : parent ∉ components [slash, 0x61, dot, dot] := by decide
  have refused : securityVerifyPath [slash, 0x61, dot, dot] = false := by decide
  refine ⟨?_, refused, ?_⟩
  · intro agree
    exact none (agree.1.mp refused)
  · rw [← Bool.not_eq_true, filePathHasParent_iff]
    exact none

end Charis.Security
