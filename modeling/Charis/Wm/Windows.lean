import Charis.Lib.Arena
import Charis.Lib.Transition

/-!
# The window manager

Windows are nodes of a list that is kept through their `next` pointers.  A new window is put in
front, and `wm_render` links the windows anew in the order in which it draws them.
-/

namespace Charis.Wm

open Charis.Lib

/-- `WINDOW_TITLEBAR_HEIGHT`. -/
abbrev titlebarHeight : Int := 28

/-- The fields of `window_t` but for the link and the two callbacks. -/
structure Window where
  x : Int
  y : Int
  width : Int
  height : Int
  zOrder : Int
  visible : Bool
  focused : Bool
  title : List UInt8
  buffer : Nat
  deriving DecidableEq, Inhabited

/-- The colours of the decorations. -/
inductive Color where
  | surface
  | border
  | accent
  deriving DecidableEq

/-- The calls that draw on the screen. -/
inductive Drawing where
  | clear
  | rect (x y width height : Int) (filled : Bool) (color : Color)
  | text (x y : Int) (text : List UInt8) (color background : Color)
  | pixels (x y width height : Int) (buffer : Nat)
  deriving DecidableEq

/-- The windows in memory, `wm_windows`, `wm_z_counter` and what was drawn last. -/
structure WindowManager where
  arena : Arena Window
  windows : Option Nat
  zCounter : Int
  frame : List Drawing

/-- The value of `wm_z_counter` after `wm_z_counter++`. -/
def nextZ (counter : Int) : Int := (counter + 1).bmod (2 ^ 32)

/-- `wm_draw_decorations`. -/
def Window.drawDecorations (win : Window) : List Drawing :=
  if win.visible then
    [.rect win.x win.y win.width titlebarHeight true .surface,
      .rect win.x win.y win.width (win.height + titlebarHeight) false .border,
      .text (win.x + 8) (win.y + 6) win.title .accent .surface]
  else []

/-- What `wm_render` draws of a window. -/
def Window.draw (win : Window) : List Drawing :=
  if win.visible then
    win.drawDecorations ++ [.pixels win.x (win.y + titlebarHeight) win.width win.height win.buffer]
  else []

/-- The test of `wm_get_window_at`. -/
def Window.hit (win : Window) (x y : Int) : Bool :=
  win.visible && win.x ≤ x && x < win.x + win.width && win.y ≤ y && y < win.y + win.height

namespace WindowManager

/-- `wm_init`, before any memory is allocated. -/
def wmInit : WindowManager where
  arena := .empty
  windows := none
  zCounter := 0
  frame := [.clear]

/-- `wm_focus_window`. -/
def wmFocusWindow (wm : WindowManager) : Option Nat → Option WindowManager
  | none => some wm
  | some win => do
      let arena ← wm.arena.modify win fun window =>
        { window with focused := true, zOrder := wm.zCounter }
      let arena ← arena.forEach
        (fun w window => if w = win then window else { window with focused := false })
        arena.allocated.length wm.windows
      some { wm with arena, zCounter := nextZ wm.zCounter }

/-- `wm_create_window`, for the results of `kmalloc` for the window and for its pixels. -/
def wmCreateWindow (wm : WindowManager) (title : List UInt8) (x y w h : Int)
    (window buffer : Option Nat) : Option (WindowManager × Option Nat) :=
  if w ≤ 0 ∨ h ≤ 0 then some (wm, none)
  else
    match window with
    | none => some (wm, none)
    | some win =>
        let created := { wm with zCounter := nextZ wm.zCounter }
        match buffer with
        | none => some (created, none)
        | some buffer => do
            let value : Window :=
              { x, y, width := w, height := h, zOrder := wm.zCounter, visible := true
                focused := false, title := title.take 127, buffer }
            let linked :=
              { created with
                arena := wm.arena.alloc win ⟨value, wm.windows⟩, windows := some win }
            let focused ← linked.wmFocusWindow (some win)
            some (focused, some win)

/-- `wm_destroy_window`. -/
def wmDestroyWindow (wm : WindowManager) : Option Nat → Option WindowManager
  | none => some wm
  | some win => do
      let (arena, windows) ← wm.arena.unlink wm.windows win
      some { wm with arena := arena.free win, windows }

/-- `wm_render`. -/
def wmRender (wm : WindowManager) : Option WindowManager := do
  let (arena, sorted) ← wm.arena.sort Window.zOrder wm.windows
  let drawn ← arena.visit Window.draw arena.allocated.length sorted
  some { wm with arena, windows := sorted, frame := .clear :: drawn }

/-- `wm_get_window_at`. -/
def wmGetWindowAt (wm : WindowManager) (x y : Int) : Option (Option Nat) :=
  wm.arena.find (fun _ node => node.value.hit x y) wm.arena.allocated.length wm.windows

/-- The windows in the list are those that are allocated. -/
structure Tidy (wm : WindowManager) (wins : List Nat) : Prop where
  lists : wm.arena.Lists wm.windows wins
  live : wins.Perm wm.arena.allocated

def window (wm : WindowManager) (win : Nat) : Window := wm.arena.value win

variable {wm : WindowManager} {wins : List Nat} {win : Nat}

theorem Tidy.init : wmInit.Tidy [] := ⟨.nil _, .refl _⟩

theorem Tidy.mem_iff (tidy : wm.Tidy wins) : win ∈ wins ↔ win ∈ wm.arena.allocated :=
  tidy.live.mem_iff

theorem Tidy.focus (tidy : wm.Tidy wins) (mem : win ∈ wins) :
    ∃ wm', wm.wmFocusWindow (some win) = some wm' ∧ wm'.Tidy wins ∧
      wm'.windows = wm.windows ∧ wm'.zCounter = nextZ wm.zCounter ∧
      ∀ w ∈ wins, wm'.window w =
        if w = win then { wm.window w with focused := true, zOrder := wm.zCounter }
        else { wm.window w with focused := false } := by
  obtain ⟨arena₁, modified, same₁, value₁⟩ :=
    Arena.exists_modify (tidy.mem_iff.mp mem) fun window =>
      { window with focused := true, zOrder := wm.zCounter }
  have lists₁ := tidy.lists.revalue same₁
  obtain ⟨arena₂, walked, same₂, value₂⟩ := lists₁.forEach (fun w window =>
    if w = win then window else { window with focused := false }) lists₁.length_le
  refine ⟨{ wm with arena := arena₂, zCounter := nextZ wm.zCounter }, ?_, ⟨?_, ?_⟩, rfl, rfl, ?_⟩
  · simp only [wmFocusWindow, modified, Option.bind_eq_bind, Option.bind_some, walked]
  · exact lists₁.revalue same₂
  · change wins.Perm arena₂.allocated
    rw [same₂.allocated, same₁.allocated]
    exact tidy.live
  · intro w wMem
    change arena₂.value w = _
    rw [value₂, if_pos wMem, value₁]
    by_cases same : w = win
    · subst same
      rw [if_pos rfl, if_pos rfl, Function.update_self]
      rfl
    · rw [if_neg same, if_neg same, Function.update_of_ne same]
      rfl

/-- A window that is not in the list yet is put in front and focused. -/
theorem Tidy.create (tidy : wm.Tidy wins) (fresh : win ∉ wm.arena.allocated)
    (title : List UInt8) (x y : Int) {w h : Int} (positive : ¬ (w ≤ 0 ∨ h ≤ 0)) (buffer : Nat) :
    ∃ wm', wm.wmCreateWindow title x y w h (some win) (some buffer) = some (wm', some win) ∧
      wm'.Tidy (win :: wins) ∧ wm'.zCounter = nextZ (nextZ wm.zCounter) ∧
      wm'.window win =
        { x, y, width := w, height := h, zOrder := nextZ wm.zCounter, visible := true
          focused := true, title := title.take 127, buffer } ∧
      ∀ other ∈ wins, wm'.window other = { wm.window other with focused := false } := by
  let value : Window :=
    { x, y, width := w, height := h, zOrder := wm.zCounter, visible := true
      focused := false, title := title.take 127, buffer }
  let linked : WindowManager :=
    { wm with
      zCounter := nextZ wm.zCounter
      arena := wm.arena.alloc win ⟨value, wm.windows⟩, windows := some win }
  have tidy₁ : linked.Tidy (win :: wins) :=
    ⟨tidy.lists.alloc fresh value, tidy.live.cons win⟩
  obtain ⟨wm', focused, tidy', -, counter, windows⟩ := tidy₁.focus (List.mem_cons_self ..)
  have value₁ : ∀ other, linked.window other =
      if other = win then value else wm.window other := by
    intro other
    by_cases same : other = win
    · subst same
      simp [linked, window, Arena.value, Arena.alloc]
    · simp [linked, window, Arena.value, Arena.alloc, same]
  refine ⟨wm', ?_, tidy', counter, ?_, ?_⟩
  · simp only [wmCreateWindow, if_neg positive]
    exact congrArg (Option.bind · _) focused
  · rw [windows win (List.mem_cons_self ..), if_pos rfl, value₁, if_pos rfl]
  · intro other mem
    have apart : other ≠ win := fun same => fresh (tidy.mem_iff.mp (same ▸ mem))
    rw [windows other (.tail _ mem), if_neg apart, value₁, if_neg apart]

/-- A window is taken out of the list and freed. -/
theorem Tidy.destroy (tidy : wm.Tidy wins) (mem : win ∈ wins) :
    ∃ wm', wm.wmDestroyWindow (some win) = some wm' ∧ wm'.Tidy (wins.erase win) ∧
      wm'.zCounter = wm.zCounter ∧ ∀ w, wm'.window w = wm.window w := by
  obtain ⟨arena, windows, unlinked, same, lists⟩ := tidy.lists.unlink mem
  refine ⟨{ wm with arena := arena.free win, windows }, ?_, ⟨?_, ?_⟩, rfl, ?_⟩
  · simp only [wmDestroyWindow, unlinked, Option.bind_eq_bind, Option.bind_some]
  · exact lists.free tidy.lists.nodup.not_mem_erase
  · change (wins.erase win).Perm (arena.allocated.erase win)
    rw [same.allocated]
    exact tidy.live.erase win
  · intro w
    exact congrFun same.value w

/-- The windows are linked and drawn in the order of `z_order`. -/
theorem Tidy.render (tidy : wm.Tidy wins) :
    ∃ wm', wm.wmRender = some wm' ∧
      wm'.Tidy (sortStable (fun w => (wm.window w).zOrder) wins []) ∧
      wm'.zCounter = wm.zCounter ∧ (∀ w, wm'.window w = wm.window w) ∧
      wm'.frame = .clear :: (sortStable (fun w => (wm.window w).zOrder) wins []).flatMap
        fun w => (wm.window w).draw := by
  obtain ⟨arena, sorted, sorting, same, lists⟩ := tidy.lists.sort Window.zOrder
  have visited := lists.visit Window.draw lists.length_le
  refine ⟨{ wm with arena, windows := sorted, frame := .clear :: _ }, ?_, ⟨lists, ?_⟩, rfl, ?_,
    rfl⟩
  · rw [same.value] at visited
    simp only [wmRender, sorting, visited, Option.bind_eq_bind, Option.bind_some]
    rfl
  · change List.Perm _ arena.allocated
    rw [same.allocated]
    exact (sortStable_nil_perm wins).trans tidy.live
  · intro w
    exact congrFun same.value w

/-- The first window in the list that is hit is returned. -/
theorem Tidy.getWindowAt (tidy : wm.Tidy wins) (x y : Int) :
    wm.wmGetWindowAt x y = some (wins.find? fun w => (wm.window w).hit x y) :=
  tidy.lists.find _ tidy.lists.length_le

end WindowManager

end Charis.Wm
