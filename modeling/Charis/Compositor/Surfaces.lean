import Charis.Compositor.Clipping
import Charis.Lib.Arena

/-!
# The list of surfaces

`compositor_render_frame` links the surfaces anew in the order of `z_order`, as `wm_render` does
with windows, but it leaves `g_surface_list` where it was.
-/

namespace Charis.Compositor

open Charis.Lib

variable {F : Type}

/-- The surfaces in memory, `g_surface_list` and the back buffer. -/
structure Surfaces (F : Type) where
  arena : Arena (Surface F)
  surfaceList : Option Nat
  screen : Screen

/-- Composite the visible surfaces of a list, which are returned. -/
def compositeList [FloatArith F] : (fuel : Nat) → Arena (Surface F) → Screen → (head : Option Nat) →
    Option (Arena (Surface F) × Screen × List Nat)
  | _, arena, screen, none => some (arena, screen, [])
  | 0, _, _, some _ => none
  | fuel + 1, arena, screen, some cur => do
      let node ← arena.load cur
      if node.value.visible then
        let screen ← compositeSurface screen node.value node.value.screenX node.value.screenY
        let arena ← arena.store cur { node with value := { node.value with dirty := false } }
        let (arena, screen, composited) ← compositeList fuel arena screen node.next
        some (arena, screen, cur :: composited)
      else compositeList fuel arena screen node.next

namespace Surfaces

/-- `compositor_render_frame`.  The surfaces that are composited are returned. -/
def compositorRenderFrame [FloatArith F] (c : Surfaces F) : Option (Surfaces F × List Nat) := do
  let cleared := { c.screen with backBuffer := fun _ => 0 }
  let (arena, sorted) ← c.arena.sort Surface.zOrder c.surfaceList
  let (arena, screen, composited) ← compositeList arena.allocated.length arena cleared sorted
  some ({ c with arena, screen }, composited)

/-- `compositor_destroy_surface`. -/
def compositorDestroySurface (c : Surfaces F) : Option Nat → Option (Surfaces F)
  | none => some c
  | some surf => do
      let (arena, surfaceList) ← c.arena.unlink c.surfaceList surf
      some { c with arena := arena.free surf, surfaceList }

def surface (c : Surfaces F) (surf : Nat) : Surface F := c.arena.value surf

end Surfaces

theorem exists_compositeSurface [FloatArith F] (screen : Screen) (surf : Surface F) (x y : Int) :
    ∃ screen', compositeSurface screen surf x y = some screen' := by
  by_cases sized : 0 < surf.width ∧ 0 < surf.height
  · obtain ⟨screen', composited, -⟩ := composite_inside_iff screen surf x y sized.1 sized.2
    exact ⟨screen', composited⟩
  · refine ⟨screen, ?_⟩
    cases pixels : surf.pixels with
    | none => simp only [compositeSurface, pixels]
    | some cells =>
        have nothing : min (x + surf.width) screen.width - max x 0 ≤ 0 ∨
            min (y + surf.height) screen.height - max y 0 ≤ 0 := by
          omega
        simp only [compositeSurface, pixels, clip_eq, if_pos nothing, ite_self]

variable {arena : Arena (Surface F)} {head : Option Nat} {ps : List Nat}

/-- The visible surfaces of a list are composited in its order, and only `dirty` changes. -/
theorem compositeList_spec [FloatArith F] {fuel : Nat} (screen : Screen)
    (lists : arena.Lists head ps) (enough : ps.length ≤ fuel) :
    ∃ arena' screen', compositeList fuel arena screen head =
        some (arena', screen', ps.filter fun p => (arena.value p).visible) ∧
      arena.Revalues arena' ∧
      ∀ p, ∃ dirty, arena'.value p = { arena.value p with dirty } := by
  induction ps generalizing arena screen head fuel with
  | nil =>
      rw [show head = none from lists.chain]
      refine ⟨arena, screen, ?_, ⟨rfl, rfl⟩, fun p => ⟨(arena.value p).dirty, rfl⟩⟩
      cases fuel with
      | zero => rfl
      | succ fuel => rfl
  | cons cur ps ih =>
  obtain _ | fuel := fuel
  · cases enough
  have mem := lists.allocated cur (List.mem_cons_self ..)
  have load : arena.load cur = some ⟨arena.value cur, arena.next cur⟩ :=
    Arena.load_of_mem mem
  have room := Nat.le_of_succ_le_succ enough
  rw [lists.chain.1, compositeList]
  simp only [load, Option.bind_eq_bind, Option.bind_some]
  by_cases visible : (arena.value cur).visible
  · obtain ⟨screen₁, composited⟩ := exists_compositeSurface screen (arena.value cur)
      (arena.value cur).screenX (arena.value cur).screenY
    obtain ⟨arena₁, stored, same₁, value₁⟩ :=
      Arena.exists_setValue mem { arena.value cur with dirty := false }
    have kept : ∀ p, ∃ dirty, arena₁.value p = { arena.value p with dirty } := by
      intro p
      rw [value₁]
      by_cases isCur : p = cur
      · exact ⟨false, by rw [isCur, Function.update_self]⟩
      · exact ⟨(arena.value p).dirty, by rw [Function.update_of_ne isCur]⟩
    obtain ⟨arena', screen', rest, same, kept'⟩ :=
      ih screen₁ (lists.tail.revalue same₁) room
    have visibles : (fun p => (arena₁.value p).visible) = fun p => (arena.value p).visible := by
      funext p
      obtain ⟨dirty, value⟩ := kept p
      rw [value]
    have stored : arena.store cur
        ⟨{ arena.value cur with dirty := false }, arena.next cur⟩ = some arena₁ := stored
    refine ⟨arena', screen', ?_, ⟨same.next.trans same₁.next,
      same.allocated.trans same₁.allocated⟩, ?_⟩
    · rw [visibles] at rest
      simp only [if_pos visible, composited, stored, rest, Option.bind_some,
        List.filter_cons]
    · intro p
      obtain ⟨dirty, value⟩ := kept p
      obtain ⟨dirty', value'⟩ := kept' p
      exact ⟨dirty', by rw [value', value]⟩
  · obtain ⟨arena', screen', rest, same, kept⟩ := ih screen lists.tail room
    refine ⟨arena', screen', ?_, same, kept⟩
    simp only [if_neg visible, rest, List.filter_cons]

namespace Surfaces

variable {c c' : Surfaces F} {ps qs : List Nat}

/-- The order of the surfaces in a frame. -/
def sorted (c : Surfaces F) (ps : List Nat) : List Nat :=
  sortStable (fun p => (c.surface p).zOrder) ps []

theorem sorted_perm (c : Surfaces F) (ps : List Nat) : (c.sorted ps).Perm ps :=
  sortStable_nil_perm ps

theorem sorted_ascending (c : Surfaces F) (ps : List Nat) :
    (c.sorted ps).Pairwise fun p q => (c.surface p).zOrder ≤ (c.surface q).zOrder :=
  sortStable_sorted ps List.Pairwise.nil

/-- A frame shows the surfaces of the list, and links them in the order in which it draws them. -/
theorem renderFrame_spec [FloatArith F] (lists : c.arena.Lists c.surfaceList ps) :
    ∃ c' head, c.compositorRenderFrame =
        some (c', (c.sorted ps).filter fun p => (c.surface p).visible) ∧
      c'.surfaceList = c.surfaceList ∧ c'.arena.Lists head (c.sorted ps) ∧
      c'.arena.allocated = c.arena.allocated ∧
      ∀ p, ∃ dirty, c'.surface p = { c.surface p with dirty } := by
  obtain ⟨arena₁, head, sorting, same₁, lists₁⟩ := lists.sort Surface.zOrder
  obtain ⟨arena', screen', composited, same', values⟩ :=
    compositeList_spec { c.screen with backBuffer := fun _ => 0 } lists₁ lists₁.length_le
  rw [same₁.value] at composited values
  refine ⟨{ c with arena := arena', screen := screen' }, head, ?_, rfl, lists₁.revalue same',
    same'.allocated.trans same₁.allocated, values⟩
  simp only [compositorRenderFrame, sorting, composited, Option.bind_eq_bind, Option.bind_some]
  rfl

/-- A surface of the list is found and unlinked. -/
theorem destroySurface_spec (lists : c.arena.Lists c.surfaceList ps) {surf : Nat}
    (mem : surf ∈ ps) :
    ∃ c', c.compositorDestroySurface (some surf) = some c' ∧
      c'.arena.Lists c'.surfaceList (ps.erase surf) := by
  obtain ⟨arena, surfaceList, unlinked, same, lists'⟩ := lists.unlink mem
  refine ⟨{ c with arena := arena.free surf, surfaceList }, ?_, ?_⟩
  · simp only [compositorDestroySurface, unlinked, Option.bind_eq_bind, Option.bind_some]
  · exact lists'.free lists.nodup.not_mem_erase

/-- No surface lies below the first one of the list. -/
def HeadLowest (c : Surfaces F) (ps : List Nat) : Prop :=
  ∀ p ∈ ps.head?, ∀ q ∈ ps, (c.surface p).zOrder ≤ (c.surface q).zOrder

/-- The surfaces can be reached, each once, and each can be found and unlinked. -/
structure Reachable (c : Surfaces F) (ps qs : List Nat) : Prop where
  lists : c.arena.Lists c.surfaceList qs
  perm : qs.Perm ps
  unlinked : ∀ p ∈ ps, ∃ c', c.compositorDestroySurface (some p) = some c' ∧
    c'.arena.Lists c'.surfaceList (qs.erase p)

/-- Each of the next frames shows the visible surfaces in ascending order, each once, and leaves all
surfaces reachable. -/
def Kept [FloatArith F] (ps : List Nat) : Nat → Surfaces F → Prop
  | 0, _ => True
  | frames + 1, c => ∃ c' composited, c.compositorRenderFrame = some (c', composited) ∧
      composited.Perm (ps.filter fun p => (c.surface p).visible) ∧
      composited.Pairwise (fun p q => (c.surface p).zOrder ≤ (c.surface q).zOrder) ∧
      (∃ qs, c'.Reachable ps qs) ∧ Kept ps frames c'

theorem Reachable.of_lists (lists : c.arena.Lists c.surfaceList qs) (perm : qs.Perm ps) :
    c.Reachable ps qs where
  lists := lists
  perm := perm
  unlinked := fun _ mem => destroySurface_spec lists (perm.mem_iff.mpr mem)

/-- What is inserted behind the lowest surface stays behind it. -/
theorem sortStable_behind {key : Nat → Int} {first : Nat} {ps : List Nat}
    (lowest : ∀ q ∈ ps, key first ≤ key q) (sorted : List Nat) :
    sortStable key ps (first :: sorted) = first :: sortStable key ps sorted := by
  induction ps generalizing sorted with
  | nil => rfl
  | cons q ps ih =>
      have behind : ¬ key q < key first := not_lt.mpr (lowest q (List.mem_cons_self ..))
      have inserted : insertStable key q (first :: sorted) =
          first :: insertStable key q sorted := if_neg behind
      rw [sortStable, List.foldl_cons, inserted]
      exact ih (fun q mem => lowest q (.tail _ mem)) _

theorem HeadLowest.lists_after (lowest : c.HeadLowest ps)
    (lists : c.arena.Lists c.surfaceList ps) {head : Option Nat}
    (sortedLists : c'.arena.Lists head (c.sorted ps)) :
    c'.arena.Lists c.surfaceList (c.sorted ps) := by
  cases ps with
  | nil =>
      rw [show c.surfaceList = none from lists.chain]
      exact .nil _
  | cons first ps =>
  have behind : ∀ q ∈ ps, (c.surface first).zOrder ≤ (c.surface q).zOrder :=
    fun q mem => lowest first rfl q (.tail _ mem)
  have order : c.sorted (first :: ps) =
      first :: sortStable (fun p => (c.surface p).zOrder) ps [] :=
    sortStable_behind behind []
  rw [order] at sortedLists ⊢
  rw [lists.chain.1, ← sortedLists.chain.1]
  exact sortedLists

/-- After a frame the first surface in its order is a lowest one. -/
theorem headLowest_sorted
    (values : ∀ p, ∃ dirty, c'.surface p = { c.surface p with dirty }) :
    c'.HeadLowest (c.sorted ps) := by
  have sameZ : ∀ p, (c'.surface p).zOrder = (c.surface p).zOrder := by
    intro p
    obtain ⟨dirty, value⟩ := values p
    rw [value]
  intro p isFirst q mem
  rw [sameZ, sameZ]
  cases order : c.sorted ps with
  | nil =>
      rw [order] at isFirst
      cases isFirst
  | cons first rest =>
  have ascending := c.sorted_ascending ps
  rw [order] at isFirst mem ascending
  cases isFirst
  cases mem with
  | head => exact le_refl _
  | tail _ mem => exact (List.pairwise_cons.mp ascending).1 q mem

/-- While the first surface is a lowest one, every frame keeps all surfaces. -/
theorem HeadLowest.kept [FloatArith F] (lowest : c.HeadLowest ps)
    (lists : c.arena.Lists c.surfaceList ps) {all : List Nat} (perm : ps.Perm all)
    (frames : Nat) : Kept all frames c := by
  induction frames generalizing c ps with
  | zero => trivial
  | succ frames ih =>
  obtain ⟨c', head, rendered, sameList, sortedLists, -, values⟩ := renderFrame_spec lists
  have lists' := lowest.lists_after lists sortedLists
  rw [← sameList] at lists'
  have perm' := (c.sorted_perm ps).trans perm
  refine ⟨c', _, rendered, perm'.filter _, (c.sorted_ascending ps).filter _,
    ⟨_, .of_lists lists' perm'⟩, ?_⟩
  exact ih (headLowest_sorted values) lists' perm'

/-- A surface below the first one is out of reach after one frame. -/
theorem headLowest_of_reachable (lists : c.arena.Lists c.surfaceList ps) {head : Option Nat}
    (sameList : c'.surfaceList = c.surfaceList) (sortedLists : c'.arena.Lists head (c.sorted ps))
    (reachable : c'.Reachable ps qs) : c.HeadLowest ps := by
  intro first isFirst q mem
  have firstMem : first ∈ c.sorted ps :=
    (c.sorted_perm ps).mem_iff.mpr (List.mem_of_mem_head? isFirst)
  obtain ⟨front, back, order⟩ := List.append_of_mem firstMem
  have ascending := c.sorted_ascending ps
  rw [order] at sortedLists ascending
  -- The list begins with the old head, so that what lies before it is not in the list.
  have rest : qs = first :: back := by
    apply reachable.lists.chain.unique
    have isHead : c'.surfaceList = some first := by
      rw [sameList]
      cases ps with
      | nil => cases isFirst
      | cons p ps =>
          cases isFirst
          exact lists.chain.1
    rw [isHead]
    exact sortedLists.chain.suffix
  have all : (first :: back).Perm ps := rest ▸ reachable.perm
  cases List.mem_cons.mp (all.mem_iff.mpr mem) with
  | inl same => rw [same]
  | inr behind =>
      have later := (List.pairwise_append.mp ascending).2.1
      exact (List.pairwise_cons.mp later).1 q behind

end Surfaces

open Surfaces in
/-- Frames show and keep all surfaces of a list exactly when no surface lies below the first one. -/
theorem frames_keep_surfaces_iff [FloatArith F] {c : Surfaces F} {ps : List Nat}
    (lists : c.arena.Lists c.surfaceList ps) (frames : Nat) :
    Kept ps frames c ↔ frames = 0 ∨ c.HeadLowest ps := by
  constructor
  · intro kept
    cases frames with
    | zero => exact Or.inl rfl
    | succ frames =>
        right
        obtain ⟨c', composited, rendered, -, -, ⟨qs, reachable⟩, -⟩ := kept
        obtain ⟨c₁, head, rendered₁, sameList, sortedLists, -⟩ := renderFrame_spec lists
        cases Option.some.inj (rendered₁.symm.trans rendered)
        exact headLowest_of_reachable lists sameList sortedLists reachable
  · intro condition
    cases condition with
    | inl none =>
        rw [none]
        trivial
    | inr lowest => exact lowest.kept lists (.refl _) frames

/-- A surface with a `z_order`, without a tint. -/
def plainSurface (zOrder : Int) : Surface ℚ :=
  { whiteSurface with zOrder, tintStrength := 0 }

/-- The surface at 100 is the first one of the list and lies above the one at 300. -/
def upperFirst : Surfaces ℚ where
  arena :=
    { cells := fun p => if p = 100 then ⟨plainSurface 1, some 300⟩ else ⟨plainSurface 0, none⟩
      allocated := [100, 300] }
  surfaceList := some 100
  screen := blackScreen

theorem upperFirst_lists : upperFirst.arena.Lists upperFirst.surfaceList [100, 300] :=
  ⟨⟨rfl, rfl, rfl⟩, by decide⟩

/-- After one frame the lower surface is out of reach, and the next frame does not show it. -/
theorem frames_lose_surface :
    upperFirst.arena.Lists upperFirst.surfaceList [100, 300] ∧
      ¬ Surfaces.Kept [100, 300] 1 upperFirst ∧
      (do let (c, _) ← upperFirst.compositorRenderFrame
          let (_, composited) ← c.compositorRenderFrame
          some composited) = some [100] := by
  refine ⟨upperFirst_lists, ?_, by decide +kernel⟩
  rintro ⟨c', composited, rendered, -, -, ⟨qs, reachable⟩, -⟩
  obtain ⟨c₁, head, rendered₁, sameList, sortedLists, -⟩ :=
    Surfaces.renderFrame_spec upperFirst_lists
  cases Option.some.inj (rendered₁.symm.trans rendered)
  have lowest :=
    Surfaces.headLowest_of_reachable upperFirst_lists sameList sortedLists reachable
  exact absurd (lowest 100 rfl 300 (by decide)) (by decide)

/-- The lower surface at 300 is the first one of the list. -/
def lowerFirst : Surfaces ℚ where
  arena :=
    { cells := fun p => if p = 300 then ⟨plainSurface 0, some 100⟩ else ⟨plainSurface 1, none⟩
      allocated := [300, 100] }
  surfaceList := some 300
  screen := blackScreen

theorem lowerFirst_lists : lowerFirst.arena.Lists lowerFirst.surfaceList [300, 100] :=
  ⟨⟨rfl, rfl, rfl⟩, by decide⟩

theorem frames_keep_surfaces_iff_lowerFirst : Surfaces.Kept [300, 100] 5 lowerFirst := by
  apply (frames_keep_surfaces_iff lowerFirst_lists 5).mpr
  right
  intro p isFirst
  cases isFirst
  decide

end Charis.Compositor
