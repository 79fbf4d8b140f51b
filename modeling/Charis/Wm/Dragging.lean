import Charis.Wm.Windows

/-!
# Dragging

A press on a title bar makes `wm_process_mouse` remember the window, and later events move it.
Nothing forgets the window when it is destroyed.
-/

namespace Charis.Wm

open Charis.Lib WindowManager

/-- The static variables of `wm_process_mouse`. -/
structure Drag where
  dragging : Bool
  offsetX : Int
  offsetY : Int
  window : Option Nat
  deriving DecidableEq

/-- A point is on the title bar of a window, if it is on the window. -/
def Window.onTitlebar (win : Window) (y : Int) : Bool :=
  win.y ≤ y && y < win.y + titlebarHeight

/-- A window covers a part of the plane. -/
def Window.Shown (win : Window) : Prop :=
  win.visible = true ∧ 0 < win.width ∧ 0 < win.height

/-- Remember a window if the mouse is on its title bar. -/
def Drag.grab (drag : Drag) (win : Nat) (window : Window) (x y : Int) : Drag :=
  if window.onTitlebar y then
    { dragging := true, window := some win, offsetX := x - window.x, offsetY := y - window.y }
  else drag

namespace WindowManager

/-- The press of the left button in `wm_process_mouse`. -/
def press (wm : WindowManager) (drag : Drag) (x y : Int) :
    Option Nat → Option (WindowManager × Drag)
  | none => some (wm, drag)
  | some win => do
      let wm ← wm.wmFocusWindow (some win)
      let node ← wm.arena.load win
      let drag := drag.grab win node.value x y
      let wm ← wm.wmRender
      some (wm, drag)

/-- The move of the remembered window in `wm_process_mouse`. -/
def dragTo (wm : WindowManager) (drag : Drag) (x y : Int) (button : Nat) :
    Option WindowManager :=
  match drag.window with
  | none => some wm
  | some win =>
      if drag.dragging ∧ button = 1 then do
        let arena ← wm.arena.modify win fun window =>
          { window with x := x - drag.offsetX, y := y - drag.offsetY }
        { wm with arena }.wmRender
      else some wm

/-- What `wm_process_mouse` does with the button. -/
def click (wm : WindowManager) (drag : Drag) (x y : Int) (button : Nat) (pressed : Bool)
    (win : Option Nat) : Option (WindowManager × Drag) :=
  if button = 1 ∧ pressed then wm.press drag x y win
  else if button = 1 ∧ ¬ pressed then
    some (wm, { drag with dragging := false, window := none })
  else some (wm, drag)

/-- `wm_process_mouse`. -/
def wmProcessMouse (wm : WindowManager) (drag : Drag) (x y : Int) (button : Nat)
    (pressed : Bool) : Option (WindowManager × Drag) := do
  let win ← wm.wmGetWindowAt x y
  let (wm, drag) ← wm.click drag x y button pressed win
  let wm ← wm.dragTo drag x y button
  some (wm, drag)

/-- The window that the user holds after a press. -/
def taken (wm : WindowManager) (held : Option Nat) (y : Int) : Option Nat → Option Nat
  | none => held
  | some win => if (wm.window win).onTitlebar y then some win else held

/-- The window that the user holds after a mouse event. -/
def heldAfter (wm : WindowManager) (held : Option Nat) (x y : Int) (button : Nat)
    (pressed : Bool) : Option Nat :=
  if button = 1 ∧ pressed then wm.taken held y (wm.wmGetWindowAt x y).join
  else if button = 1 ∧ ¬ pressed then none
  else held

/-- No window but one has been moved, and none has been hidden. -/
structure Moves (wm wm' : WindowManager) (wins : List Nat) (moved : Option Nat) : Prop where
  place : ∀ w ∈ wins, moved ≠ some w →
    (wm'.window w).x = (wm.window w).x ∧ (wm'.window w).y = (wm.window w).y
  shown : ∀ w ∈ wins, (wm.window w).Shown → (wm'.window w).Shown

variable {wm wm' : WindowManager} {wins : List Nat} {drag drag' : Drag} {x y : Int}
  {button : Nat} {pressed : Bool}

theorem Moves.refl (wm : WindowManager) (wins : List Nat) (moved : Option Nat) :
    wm.Moves wm wins moved := by
  constructor
  · intro w _ _
    exact ⟨rfl, rfl⟩
  · intro w _ shown
    exact shown

theorem Moves.trans {wm'' : WindowManager} {wins' : List Nat} {moved : Option Nat}
    (first : wm.Moves wm' wins moved) (perm : wins'.Perm wins)
    (second : wm'.Moves wm'' wins' moved) : wm.Moves wm'' wins moved := by
  constructor
  · intro w mem other
    have place := first.place w mem other
    have place' := second.place w (perm.mem_iff.mpr mem) other
    exact ⟨place'.1.trans place.1, place'.2.trans place.2⟩
  · intro w mem shown
    exact second.shown w (perm.mem_iff.mpr mem) (first.shown w mem shown)

/-- Whatever memory is there, the windows that exist stay in the list. -/
theorem Tidy.createWindow (tidy : wm.Tidy wins) (title : List UInt8) (x y w h : Int)
    {window : Option Nat} (buffer : Option Nat)
    (fresh : ∀ win ∈ window, win ∉ wm.arena.allocated) :
    ∃ wm' result wins', wm.wmCreateWindow title x y w h window buffer = some (wm', result) ∧
      wm'.Tidy wins' ∧ wins ⊆ wins' ∧
      ((∀ w ∈ wins, (wm.window w).Shown) → ∀ w ∈ wins', (wm'.window w).Shown) := by
  by_cases degenerate : w ≤ 0 ∨ h ≤ 0
  · refine ⟨wm, none, wins, ?_, tidy, List.Subset.refl _, id⟩
    simp only [wmCreateWindow, if_pos degenerate]
  cases window with
  | none =>
      refine ⟨wm, none, wins, ?_, tidy, List.Subset.refl _, id⟩
      simp only [wmCreateWindow, if_neg degenerate]
  | some win =>
  cases buffer with
  | none =>
      refine ⟨{ wm with zCounter := nextZ wm.zCounter }, none, wins, ?_,
        ⟨tidy.lists, tidy.live⟩, List.Subset.refl _, id⟩
      simp only [wmCreateWindow, if_neg degenerate]
  | some buffer =>
  obtain ⟨wm', created, tidy', -, window, others⟩ :=
    tidy.create (fresh win rfl) title x y degenerate buffer
  refine ⟨wm', some win, win :: wins, created, tidy', List.subset_cons_self win wins, ?_⟩
  intro shown other mem
  cases mem with
  | head =>
      obtain ⟨wide, high⟩ := not_or.mp degenerate
      rw [window]
      exact ⟨rfl, not_le.mp wide, not_le.mp high⟩
  | tail _ mem =>
      rw [others other mem]
      exact shown other mem

/-- A press leaves every window where it is, and may take the one under the mouse. -/
theorem Tidy.press (tidy : wm.Tidy wins) (drag : Drag) (x y : Int) {target : Option Nat}
    (live : ∀ win ∈ target, win ∈ wins) :
    ∃ wm' drag' wins', wm.press drag x y target = some (wm', drag') ∧ wm'.Tidy wins' ∧
      wins'.Perm wins ∧ (∀ moved, wm.Moves wm' wins moved) ∧
      drag'.window = wm.taken drag.window y target := by
  cases target with
  | none => exact ⟨wm, drag, wins, rfl, tidy, .refl _, .refl wm wins, rfl⟩
  | some win =>
  have mem := live win rfl
  obtain ⟨wm₁, focused, tidy₁, -, -, windows⟩ := tidy.focus mem
  have stays : ∀ moved, wm.Moves wm₁ wins moved := by
    intro moved
    constructor
    · intro w wMem _
      rw [windows w wMem]
      split
      · exact ⟨rfl, rfl⟩
      · exact ⟨rfl, rfl⟩
    · intro w wMem shown
      rw [windows w wMem]
      split
      · exact shown
      · exact shown
  have titlebar : (wm₁.window win).onTitlebar y = (wm.window win).onTitlebar y := by
    rw [windows win mem, if_pos rfl]
    rfl
  have load : wm₁.arena.load win = some (wm₁.arena.cells win) :=
    Arena.load_of_mem (tidy₁.mem_iff.mp mem)
  obtain ⟨wm₂, rendered, tidy₂, -, same, -⟩ := tidy₁.render
  refine ⟨wm₂, drag.grab win (wm₁.window win) x y, _, ?_, tidy₂, sortStable_nil_perm wins,
    ?_, ?_⟩
  · simp only [WindowManager.press, focused, load, rendered, Option.bind_eq_bind,
      Option.bind_some]
    rfl
  · intro moved
    apply (stays moved).trans (.refl wins)
    constructor
    · intro w _ _
      rw [same]
      exact ⟨rfl, rfl⟩
    · intro w _ shown
      rw [same]
      exact shown
  · rw [Drag.grab, titlebar, taken]
    split
    · rfl
    · rfl

/-- A remembered window that is live is moved, and no other one. -/
theorem Tidy.dragTo (tidy : wm.Tidy wins) (x y : Int) (button : Nat)
    (live : ∀ win ∈ drag.window, win ∈ wins) :
    ∃ wm' wins', wm.dragTo drag x y button = some wm' ∧ wm'.Tidy wins' ∧ wins'.Perm wins ∧
      wm.Moves wm' wins drag.window := by
  cases held : drag.window with
  | none =>
      refine ⟨wm, wins, ?_, tidy, .refl _, .refl wm wins _⟩
      simp only [WindowManager.dragTo, held]
  | some win =>
  by_cases moving : drag.dragging ∧ button = 1
  · have mem := live win held
    obtain ⟨arena, modified, same, value⟩ :=
      Arena.exists_modify (tidy.mem_iff.mp mem) fun window =>
        { window with x := x - drag.offsetX, y := y - drag.offsetY }
    have tidy₁ : { wm with arena }.Tidy wins :=
      ⟨tidy.lists.revalue same, same.allocated ▸ tidy.live⟩
    obtain ⟨wm', rendered, tidy', -, kept, -⟩ := tidy₁.render
    refine ⟨wm', _, ?_, tidy', sortStable_nil_perm wins, ?_⟩
    · simp only [WindowManager.dragTo, held, if_pos moving, modified, Option.bind_eq_bind,
        Option.bind_some, rendered]
    have window : ∀ w, wm'.window w = Function.update wm.window win
        { wm.window win with x := x - drag.offsetX, y := y - drag.offsetY } w := by
      intro w
      rw [kept]
      exact congrFun value w
    constructor
    · intro w _ other
      have apart : w ≠ win := fun equal => other (congrArg some equal.symm)
      rw [window, Function.update_of_ne apart]
      exact ⟨rfl, rfl⟩
    · intro w _ shown
      rw [window]
      by_cases same : w = win
      · subst same
        rw [Function.update_self]
        exact shown
      · rw [Function.update_of_ne same]
        exact shown
  · refine ⟨wm, wins, ?_, tidy, .refl _, .refl wm wins _⟩
    simp only [WindowManager.dragTo, held, if_neg moving]

/-- The window that is remembered after the button is the one that the user holds. -/
theorem Tidy.click (tidy : wm.Tidy wins) (drag : Drag) (x y : Int) (button : Nat)
    (pressed : Bool) :
    ∃ target wm' drag' wins', wm.wmGetWindowAt x y = some target ∧
      wm.click drag x y button pressed target = some (wm', drag') ∧ wm'.Tidy wins' ∧
      wins'.Perm wins ∧ (∀ moved, wm.Moves wm' wins moved) ∧
      drag'.window = wm.heldAfter drag.window x y button pressed := by
  have get := tidy.getWindowAt x y
  by_cases press : button = 1 ∧ pressed
  · have live : ∀ win ∈ wins.find? fun w => (wm.window w).hit x y, win ∈ wins := by
      intro win found
      exact List.mem_of_find?_eq_some found
    obtain ⟨wm', drag', wins', pressed', tidy', perm, moves, window⟩ :=
      tidy.press drag x y live
    refine ⟨_, wm', drag', wins', get, ?_, tidy', perm, moves, ?_⟩
    · rw [WindowManager.click, if_pos press]
      exact pressed'
    · rw [window, heldAfter, if_pos press, get]
      rfl
  · by_cases release : button = 1 ∧ ¬ pressed
    · refine ⟨_, wm, { drag with dragging := false, window := none }, wins, get, ?_, tidy,
        .refl _, .refl wm wins, ?_⟩
      · rw [WindowManager.click, if_neg press, if_pos release]
      · rw [heldAfter, if_neg press, if_pos release]
    · refine ⟨_, wm, drag, wins, get, ?_, tidy, .refl _, .refl wm wins, ?_⟩
      · rw [WindowManager.click, if_neg press, if_neg release]
      · rw [heldAfter, if_neg press, if_neg release]

/-- The user holds a window that is live, if the one before is. -/
theorem Tidy.heldAfter (tidy : wm.Tidy wins) {held : Option Nat}
    (live : ∀ win ∈ held, win ∈ wins) :
    ∀ win ∈ wm.heldAfter held x y button pressed, win ∈ wins := by
  rw [WindowManager.heldAfter, tidy.getWindowAt, Option.join_some]
  split
  · cases found : wins.find? fun w => (wm.window w).hit x y with
    | none => exact live
    | some win =>
    rw [taken]
    split
    · intro other same
      cases same
      exact List.mem_of_find?_eq_some found
    · exact live
  · split
    · intro win mem
      cases mem
    · exact live

/-- A mouse event while the remembered window is live. -/
theorem Tidy.processMouse (tidy : wm.Tidy wins) (live : ∀ win ∈ drag.window, win ∈ wins)
    (x y : Int) (button : Nat) (pressed : Bool) :
    ∃ wm' drag' wins', wm.wmProcessMouse drag x y button pressed = some (wm', drag') ∧
      wm'.Tidy wins' ∧ wins'.Perm wins ∧
      drag'.window = wm.heldAfter drag.window x y button pressed ∧
      wm.Moves wm' wins drag'.window := by
  obtain ⟨target, wm₁, drag', wins₁, get, clicked, tidy₁, perm₁, stay, window⟩ :=
    tidy.click drag x y button pressed
  have live' : ∀ win ∈ drag'.window, win ∈ wins₁ := by
    rw [window]
    intro win mem
    exact perm₁.mem_iff.mpr (tidy.heldAfter live win mem)
  obtain ⟨wm', wins', dragged, tidy', perm', moves⟩ := tidy₁.dragTo x y button live'
  refine ⟨wm', drag', wins', ?_, tidy', perm'.trans perm₁, window, ?_⟩
  · simp only [wmProcessMouse, get, clicked, dragged, Option.bind_eq_bind, Option.bind_some]
  · exact (stay drag'.window).trans perm₁ moves

end WindowManager

/-! ## The desktop -/

/-- The windows, the static variables of `wm_process_mouse`, and the window that the user holds:
the one whose title bar was pressed last, until the button is released or the window is gone.  No
operation reads the latter. -/
structure Desktop where
  wm : WindowManager
  drag : Drag
  held : Option Nat

/-- What happens on the desktop, with the results of `kmalloc` for a new window. -/
inductive DesktopEvent where
  | create (title : List UInt8) (x y w h : Int) (window buffer : Option Nat)
  | destroy (window : Option Nat)
  | focus (window : Option Nat)
  | render
  | mouse (x y : Int) (button : Nat) (pressed : Bool)

namespace Desktop

def initial : Desktop where
  wm := wmInit
  drag := ⟨false, 0, 0, none⟩
  held := none

/-- The state after an event, unless it uses memory that is not allocated or does not end. -/
def after (desktop : Desktop) : DesktopEvent → Option Desktop
  | .create title x y w h window buffer => do
      let (wm, _) ← desktop.wm.wmCreateWindow title x y w h window buffer
      some { desktop with wm }
  | .destroy window => do
      let wm ← desktop.wm.wmDestroyWindow window
      some { desktop with wm, held := if desktop.held = window then none else desktop.held }
  | .focus window => do
      let wm ← desktop.wm.wmFocusWindow window
      some { desktop with wm }
  | .render => do
      let wm ← desktop.wm.wmRender
      some { desktop with wm }
  | .mouse x y button pressed => do
      let (wm, drag) ← desktop.wm.wmProcessMouse desktop.drag x y button pressed
      some { wm, drag, held := desktop.wm.heldAfter desktop.held x y button pressed }

/-- New windows get memory that is not in use, and the other operations get live windows. -/
def Allowed (desktop : Desktop) : DesktopEvent → Prop
  | .create _ _ _ _ _ window _ => ∀ win ∈ window, win ∉ desktop.wm.arena.allocated
  | .destroy window => ∀ win ∈ window, win ∈ desktop.wm.arena.allocated
  | .focus window => ∀ win ∈ window, win ∈ desktop.wm.arena.allocated
  | .render => True
  | .mouse _ _ _ _ => True

def Step (desktop : Desktop) (event : DesktopEvent) (desktop' : Desktop) : Prop :=
  desktop.Allowed event ∧ desktop.after event = some desktop'

/-- The remembered window is not destroyed. -/
def Careful (desktop : Desktop) : DesktopEvent → Prop
  | .destroy (some win) => desktop.drag.window ≠ some win
  | _ => True

/-- The windows in the list are the live ones, and the remembered one is among them and the one
that the user holds. -/
structure Sound (desktop : Desktop) (wins : List Nat) : Prop where
  tidy : desktop.wm.Tidy wins
  live : ∀ win ∈ desktop.drag.window, win ∈ wins
  held : desktop.drag.window = desktop.held

variable {desktop desktop' : Desktop} {wins : List Nat} {event : DesktopEvent}

theorem Sound.initial : initial.Sound [] where
  tidy := .init
  live := fun _ mem => by cases mem
  held := rfl

/-- A mouse event while the remembered window is live. -/
theorem Sound.mouse (sound : desktop.Sound wins) (x y : Int) (button : Nat) (pressed : Bool) :
    ∃ desktop' wins', desktop.after (.mouse x y button pressed) = some desktop' ∧
      desktop'.Sound wins' ∧ desktop.wm.Moves desktop'.wm wins desktop'.held := by
  obtain ⟨wm', drag', wins', processed, tidy', perm, window, moves⟩ :=
    sound.tidy.processMouse sound.live x y button pressed
  have held : drag'.window = desktop.wm.heldAfter desktop.held x y button pressed := by
    rw [window, sound.held]
  refine ⟨⟨wm', drag', desktop.wm.heldAfter desktop.held x y button pressed⟩, wins', ?_,
    ⟨tidy', ?_, held⟩, ?_⟩
  · simp only [after, processed, Option.bind_eq_bind, Option.bind_some]
  · intro win mem
    change win ∈ drag'.window at mem
    rw [window] at mem
    exact perm.mem_iff.mpr (sound.tidy.heldAfter sound.live win mem)
  · change desktop.wm.Moves wm' wins (desktop.wm.heldAfter desktop.held x y button pressed)
    rw [← held]
    exact moves

/-- Every event keeps the remembered window live, unless it destroys it. -/
theorem Sound.after (sound : desktop.Sound wins) (allowed : desktop.Allowed event)
    (careful : desktop.Careful event) :
    ∃ desktop' wins', desktop.after event = some desktop' ∧ desktop'.Sound wins' := by
  cases event with
  | create title x y w h window buffer =>
      obtain ⟨wm', result, wins', created, tidy', more, -⟩ :=
        sound.tidy.createWindow title x y w h buffer allowed
      refine ⟨{ desktop with wm := wm' }, wins', ?_, tidy', ?_, sound.held⟩
      · simp only [Desktop.after, created, Option.bind_eq_bind, Option.bind_some]
      · intro win mem
        exact more (sound.live win mem)
  | destroy window =>
      cases window with
      | none =>
          refine ⟨{ desktop with held := if desktop.held = none then none else desktop.held },
            wins, rfl, sound.tidy, sound.live, ?_⟩
          change desktop.drag.window = if desktop.held = none then none else desktop.held
          rw [sound.held]
          split
          next isNone => exact isNone
          · rfl
      | some win =>
      have mem := sound.tidy.mem_iff.mpr (allowed win rfl)
      obtain ⟨wm', destroyed, tidy', -⟩ := sound.tidy.destroy mem
      have other : desktop.held ≠ some win := sound.held ▸ careful
      refine ⟨{ desktop with wm := wm' }, wins.erase win, ?_, tidy', ?_, sound.held⟩
      · simp only [Desktop.after, destroyed, Option.bind_eq_bind, Option.bind_some,
          if_neg other]
      · intro kept held
        have apart : kept ≠ win := by
          intro same
          exact careful (same ▸ held)
        exact (List.mem_erase_of_ne apart).mpr (sound.live kept held)
  | focus window =>
      cases window with
      | none => exact ⟨desktop, wins, rfl, sound⟩
      | some win =>
          have mem := sound.tidy.mem_iff.mpr (allowed win rfl)
          obtain ⟨wm', focused, tidy', -⟩ := sound.tidy.focus mem
          refine ⟨{ desktop with wm := wm' }, wins, ?_, tidy', sound.live, sound.held⟩
          simp only [Desktop.after, focused, Option.bind_eq_bind, Option.bind_some]
  | render =>
      obtain ⟨wm', rendered, tidy', -⟩ := sound.tidy.render
      refine ⟨{ desktop with wm := wm' }, _, ?_, tidy', ?_, sound.held⟩
      · simp only [Desktop.after, rendered, Option.bind_eq_bind, Option.bind_some]
      · intro win mem
        exact (sortStable_nil_perm wins).mem_iff.mpr (sound.live win mem)
  | mouse x y button pressed =>
      obtain ⟨desktop', wins', after, sound', -⟩ := sound.mouse x y button pressed
      exact ⟨desktop', wins', after, sound'⟩

/-- While the remembered window is never destroyed, it stays live. -/
theorem run_sound {events : List DesktopEvent}
    (run : Run (Restrict Step Careful) Desktop.initial events desktop) :
    ∃ wins, desktop.Sound wins := by
  induction run with
  | start => exact ⟨[], .initial⟩
  | next run last ih =>
      obtain ⟨wins, sound⟩ := ih
      obtain ⟨careful, allowed, taken⟩ := last
      obtain ⟨desktop', wins', after, sound'⟩ := sound.after allowed careful
      cases Option.some.inj (after.symm.trans taken)
      exact ⟨wins', sound'⟩

end Desktop

/-- As long as the remembered window is not destroyed, it is live and the one that the user holds.
Then every mouse event uses live windows only, and moves no window but the one held. -/
theorem drag_window_live {events : List DesktopEvent} {desktop : Desktop}
    (run : Run (Restrict Desktop.Step Desktop.Careful) Desktop.initial events desktop) :
    (∀ win ∈ desktop.drag.window, win ∈ desktop.wm.arena.allocated) ∧
      desktop.drag.window = desktop.held ∧
      ∀ x y button pressed, ∃ desktop',
        desktop.after (.mouse x y button pressed) = some desktop' ∧
          ∀ win ∈ desktop.wm.arena.allocated, desktop'.held ≠ some win →
            (desktop'.wm.window win).x = (desktop.wm.window win).x ∧
              (desktop'.wm.window win).y = (desktop.wm.window win).y := by
  obtain ⟨wins, sound⟩ := Desktop.run_sound run
  refine ⟨?_, sound.held, ?_⟩
  · intro win mem
    exact sound.tidy.mem_iff.mp (sound.live win mem)
  · intro x y button pressed
    obtain ⟨desktop', -, after, -, moves⟩ := sound.mouse x y button pressed
    refine ⟨desktop', after, ?_⟩
    intro win mem other
    exact moves.place win (sound.tidy.mem_iff.mpr mem) other

namespace Desktop

instance (desktop : Desktop) : (event : DesktopEvent) → Decidable (desktop.Allowed event)
  | .create _ _ _ _ _ window _ =>
      inferInstanceAs (Decidable (∀ win ∈ window, win ∉ desktop.wm.arena.allocated))
  | .destroy window =>
      inferInstanceAs (Decidable (∀ win ∈ window, win ∈ desktop.wm.arena.allocated))
  | .focus window =>
      inferInstanceAs (Decidable (∀ win ∈ window, win ∈ desktop.wm.arena.allocated))
  | .render => .isTrue trivial
  | .mouse _ _ _ _ => .isTrue trivial

instance (desktop : Desktop) : (event : DesktopEvent) → Decidable (desktop.Careful event)
  | .destroy (some win) => inferInstanceAs (Decidable (desktop.drag.window ≠ some win))
  | .destroy none => .isTrue trivial
  | .create _ _ _ _ _ _ _ => .isTrue trivial
  | .focus _ => .isTrue trivial
  | .render => .isTrue trivial
  | .mouse _ _ _ _ => .isTrue trivial

end Desktop

/-- A window is created and its title bar is pressed. -/
def grabEvents : List DesktopEvent :=
  [.create [] 0 0 50 50 (some 100) (some 200), .mouse 5 5 1 true]

/-- The held window is moved and released before it is destroyed. -/
def releasedEvents : List DesktopEvent :=
  grabEvents ++ [.mouse 9 9 1 true, .mouse 9 9 1 false, .destroy (some 100)]

theorem drag_window_live_released :
    ∃ desktop, Run (Restrict Desktop.Step Desktop.Careful) Desktop.initial releasedEvents desktop ∧
      (∀ win ∈ desktop.drag.window, win ∈ desktop.wm.arena.allocated) ∧
      desktop.drag.window = desktop.held := by
  have along : Along (fun desktop event => (Desktop.after desktop event).getD desktop)
      (fun desktop event => (desktop.Careful event ∧ desktop.Allowed event) ∧
        (Desktop.after desktop event).isSome) Desktop.initial releasedEvents := by
    decide +kernel
  have run : Run (Restrict Desktop.Step Desktop.Careful) Desktop.initial releasedEvents _ :=
    (Run.of_partial along).mono fun _ _ _ step => ⟨step.1.1, step.1.2, step.2⟩
  have live := drag_window_live run
  exact ⟨_, run, live.1, live.2.1⟩

/-- The held window is destroyed. -/
def destroyHeldEvents : List DesktopEvent :=
  grabEvents ++ [.destroy (some 100)]

/-- The held window is destroyed, and a new window takes its memory. -/
def reuseHeldEvents : List DesktopEvent :=
  destroyHeldEvents ++ [.create [] 80 80 50 50 (some 100) (some 200)]

/-- A window that the user holds is destroyed and stays remembered: the next press writes to its
memory, and moves the window that has been put there. -/
theorem drag_window_dangles :
    (∃ desktop, Run Desktop.Step Desktop.initial destroyHeldEvents desktop ∧
      desktop.drag.window = some 100 ∧ 100 ∉ desktop.wm.arena.allocated ∧
      (desktop.after (.mouse 9 9 1 true)).isNone) ∧
    ∃ desktop, Run Desktop.Step Desktop.initial reuseHeldEvents desktop ∧
      desktop.held = none ∧ (desktop.wm.window 100).x = 80 ∧
      (desktop.after (.mouse 9 9 1 true)).map
        (fun desktop => (desktop.held, (desktop.wm.window 100).x)) = some (none, 4) := by
  have destroyed : Along (fun desktop event => (Desktop.after desktop event).getD desktop)
      (fun desktop event => desktop.Allowed event ∧ (Desktop.after desktop event).isSome)
      Desktop.initial destroyHeldEvents := by
    decide +kernel
  have reused : Along (fun desktop event => (Desktop.after desktop event).getD desktop)
      (fun desktop event => desktop.Allowed event ∧ (Desktop.after desktop event).isSome)
      Desktop.initial reuseHeldEvents := by
    decide +kernel
  constructor
  · refine ⟨_, Run.of_partial destroyed, ?_⟩
    decide +kernel
  · refine ⟨_, Run.of_partial reused, ?_⟩
    decide +kernel

end Charis.Wm
