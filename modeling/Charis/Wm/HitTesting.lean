import Charis.Wm.Dragging

/-!
# Hit testing

`wm_get_window_at` takes the first window of the list that it finds, and `wm_render` draws the
last one on top.  It also leaves out the rows that the title bar adds to a window.
-/

namespace Charis.Wm

open Charis.Lib

/-- A point lies on the title bar or the contents of a window. -/
def Window.drawnAt (win : Window) (x y : Int) : Prop :=
  win.visible = true ∧ win.x ≤ x ∧ x < win.x + win.width ∧ win.y ≤ y ∧
    y < win.y + (win.height + titlebarHeight)

instance (win : Window) (x y : Int) : Decidable (win.drawnAt x y) :=
  inferInstanceAs (Decidable (_ ∧ _ ∧ _ ∧ _ ∧ _))

variable {win : Window} {x y : Int}

theorem Window.drawnAt_of_hit (hit : win.hit x y) : win.drawnAt x y := by
  simp only [Window.hit, Bool.and_eq_true, decide_eq_true_eq] at hit
  obtain ⟨⟨⟨⟨visible, left⟩, right⟩, top⟩, bottom⟩ := hit
  refine ⟨visible, left, right, top, ?_⟩
  simp only [titlebarHeight]
  omega

namespace WindowManager

/-- A window is the highest of those that are drawn at a point, or none is drawn there. -/
def Matches (wm : WindowManager) (x y : Int) : Option Nat → Prop
  | none => ∀ w ∈ wm.arena.allocated, ¬ (wm.window w).drawnAt x y
  | some win => win ∈ wm.arena.allocated ∧ (wm.window win).drawnAt x y ∧
      ∀ w ∈ wm.arena.allocated, (wm.window w).drawnAt x y →
        (wm.window w).zOrder ≤ (wm.window win).zOrder

/-- The highest window drawn at a point is linked before every other one whose upper rows contain
the point, and its own upper rows contain it. -/
def TopFirst (wm : WindowManager) (wins : List Nat) (x y : Int) : Prop :=
  ∃ front top back, wins = front ++ top :: back ∧ (wm.window top).hit x y ∧
    (∀ w ∈ wins, (wm.window w).drawnAt x y → (wm.window w).zOrder ≤ (wm.window top).zOrder) ∧
    ∀ w ∈ front, ¬ (wm.window w).hit x y

instance (wm : WindowManager) (x y : Int) :
    (result : Option Nat) → Decidable (wm.Matches x y result)
  | none => inferInstanceAs (Decidable (∀ w ∈ wm.arena.allocated, _))
  | some win => inferInstanceAs (Decidable (win ∈ wm.arena.allocated ∧ _ ∧ ∀ w ∈ _, _ → _))

variable {wm wm' : WindowManager} {wins : List Nat} {drag : Drag} {button : Nat}

/-- Hit testing is right where nothing is drawn or the highest window comes first. -/
theorem Tidy.matches_iff (tidy : wm.Tidy wins) (x y : Int) :
    (∃ result, wm.wmGetWindowAt x y = some result ∧ wm.Matches x y result) ↔
      (∀ w ∈ wins, ¬ (wm.window w).drawnAt x y) ∨ wm.TopFirst wins x y := by
  rw [tidy.getWindowAt]
  constructor
  · rintro ⟨result, found, right⟩
    cases Option.some.inj found
    cases first : wins.find? fun w => (wm.window w).hit x y with
    | none =>
        rw [first] at right
        left
        intro w mem
        exact right w (tidy.mem_iff.mp mem)
    | some win =>
    rw [first] at right
    obtain ⟨-, -, highest⟩ := right
    obtain ⟨hit, front, back, split, before⟩ := List.find?_eq_some_iff_append.mp first
    right
    refine ⟨front, win, back, split, hit, ?_, ?_⟩
    · intro w mem drawn
      exact highest w (tidy.mem_iff.mp mem) drawn
    · intro w mem
      simpa using before w mem
  intro condition
  refine ⟨_, rfl, ?_⟩
  cases condition with
  | inl nowhere =>
      have missed : wins.find? (fun w => (wm.window w).hit x y) = none := by
        apply List.find?_eq_none.mpr
        intro w mem hit
        exact nowhere w mem (Window.drawnAt_of_hit hit)
      rw [missed]
      intro w mem
      exact nowhere w (tidy.mem_iff.mpr mem)
  | inr first =>
  obtain ⟨front, top, back, split, hit, highest, before⟩ := first
  have found : wins.find? (fun w => (wm.window w).hit x y) = some top := by
    apply List.find?_eq_some_iff_append.mpr
    refine ⟨hit, front, back, split, ?_⟩
    intro w mem
    simpa using before w mem
  rw [found]
  have mem : top ∈ wins := split ▸ List.mem_append_right front (List.mem_cons_self ..)
  refine ⟨tidy.mem_iff.mp mem, Window.drawnAt_of_hit hit, ?_⟩
  intro w wMem drawn
  exact highest w (tidy.mem_iff.mpr wMem) drawn

/-- Below the contents that hit testing knows, every window has rows that it misses. -/
theorem Tidy.matches_everywhere_iff (tidy : wm.Tidy wins)
    (shown : ∀ w ∈ wins, (wm.window w).Shown) :
    (∀ x y, ∃ result, wm.wmGetWindowAt x y = some result ∧ wm.Matches x y result) ↔
      wins = [] := by
  constructor
  · intro right
    by_contra nonempty
    -- The lowest of the highest windows.
    let key : Nat → Int ×ₗ Int := fun w =>
      toLex ((wm.window w).zOrder, (wm.window w).y + (wm.window w).height)
    obtain ⟨low, lowMem, greatest⟩ := wins.toFinset.exists_max_image key
      (List.toFinset_nonempty_iff wins |>.mpr nonempty)
    rw [List.mem_toFinset] at lowMem
    obtain ⟨visible, wide, high⟩ := shown low lowMem
    let x := (wm.window low).x
    let y := (wm.window low).y + (wm.window low).height
    have drawn : (wm.window low).drawnAt x y := by
      refine ⟨visible, le_refl x, ?_, ?_, ?_⟩
      · exact Int.lt_add_of_pos_right x wide
      · exact Int.le_add_of_nonneg_right high.le
      · rw [← Int.add_assoc]
        exact Int.lt_add_of_pos_right y (by decide)
    cases (tidy.matches_iff x y).mp (right x y) with
    | inl nowhere => exact nowhere low lowMem drawn
    | inr first =>
    obtain ⟨front, top, back, split, hit, highest, -⟩ := first
    have topMem : top ∈ wins := split ▸ List.mem_append_right front (List.mem_cons_self ..)
    have above := highest low lowMem drawn
    have below := greatest top (List.mem_toFinset.mpr topMem)
    simp only [Window.hit, Bool.and_eq_true, decide_eq_true_eq] at hit
    have bottom : y < (wm.window top).y + (wm.window top).height := hit.2
    rcases Prod.Lex.toLex_le_toLex.mp below with less | ⟨-, less⟩
    · exact absurd above (not_le.mpr less)
    · exact absurd bottom (not_lt.mpr less)
  · rintro rfl x y
    apply (tidy.matches_iff x y).mpr
    left
    intro w mem
    cases mem

/-- A remembered window is moved only if it is live. -/
theorem Tidy.dragTo_some (tidy : wm.Tidy wins) {x y : Int}
    (dragged : wm.dragTo drag x y button = some wm') :
    ∃ wins', wm'.Tidy wins' ∧ wins'.Perm wins ∧ wm.Moves wm' wins drag.window := by
  by_cases live : ∀ win ∈ drag.window, win ∈ wins
  · obtain ⟨wm₁, wins', dragged₁, tidy', perm, moves⟩ := tidy.dragTo x y button live
    cases Option.some.inj (dragged₁.symm.trans dragged)
    exact ⟨wins', tidy', perm, moves⟩
  · push Not at live
    obtain ⟨win, held, dead⟩ := live
    have notLoaded : wm.arena.load win = none :=
      if_neg fun mem => dead (tidy.mem_iff.mpr mem)
    simp only [WindowManager.dragTo, Option.mem_def.mp held, Arena.modify, notLoaded,
      Option.bind_eq_bind, Option.bind_none] at dragged
    split at dragged
    · cases dragged
    · cases dragged
      exact ⟨wins, tidy, .refl _, .refl wm wins _⟩

end WindowManager

namespace Desktop

open WindowManager

variable {desktop desktop' : Desktop} {wins : List Nat} {event : DesktopEvent}

/-- The windows in the list are the live ones, and each covers a part of the plane. -/
structure Displayed (desktop : Desktop) (wins : List Nat) : Prop where
  tidy : desktop.wm.Tidy wins
  shown : ∀ w ∈ wins, (desktop.wm.window w).Shown

/-- Every event keeps the windows in the list and visible, also when the remembered window has been
destroyed. -/
theorem Displayed.after (displayed : desktop.Displayed wins) (allowed : desktop.Allowed event)
    (taken : desktop.after event = some desktop') :
    ∃ wins', desktop'.Displayed wins' := by
  obtain ⟨tidy, shown⟩ := displayed
  cases event with
  | create title x y w h window buffer =>
      obtain ⟨wm', result, wins', created, tidy', -, shown'⟩ :=
        tidy.createWindow title x y w h buffer allowed
      simp only [Desktop.after, created, Option.bind_eq_bind, Option.bind_some] at taken
      cases taken
      exact ⟨wins', tidy', shown' shown⟩
  | destroy window =>
      cases window with
      | none =>
          cases taken
          exact ⟨wins, tidy, shown⟩
      | some win =>
      have mem := tidy.mem_iff.mpr (allowed win rfl)
      obtain ⟨wm', destroyed, tidy', -, same⟩ := tidy.destroy mem
      simp only [Desktop.after, destroyed, Option.bind_eq_bind, Option.bind_some] at taken
      cases taken
      refine ⟨_, tidy', ?_⟩
      intro w wMem
      change (wm'.window w).Shown
      rw [same]
      exact shown w (List.erase_subset wMem)
  | focus window =>
      cases window with
      | none =>
          cases taken
          exact ⟨wins, tidy, shown⟩
      | some win =>
      have mem := tidy.mem_iff.mpr (allowed win rfl)
      obtain ⟨wm', focused, tidy', -, -, windows⟩ := tidy.focus mem
      simp only [Desktop.after, focused, Option.bind_eq_bind, Option.bind_some] at taken
      cases taken
      refine ⟨wins, tidy', ?_⟩
      intro w wMem
      change (wm'.window w).Shown
      rw [windows w wMem]
      split
      · exact shown w wMem
      · exact shown w wMem
  | render =>
      obtain ⟨wm', rendered, tidy', -, same, -⟩ := tidy.render
      simp only [Desktop.after, rendered, Option.bind_eq_bind, Option.bind_some] at taken
      cases taken
      refine ⟨_, tidy', ?_⟩
      intro w wMem
      change (wm'.window w).Shown
      rw [same]
      exact shown w ((sortStable_nil_perm wins).mem_iff.mp wMem)
  | mouse x y button pressed =>
  obtain ⟨target, wm₁, drag', wins₁, get, clicked, tidy₁, perm₁, stay, -⟩ :=
    tidy.click desktop.drag x y button pressed
  simp only [Desktop.after, wmProcessMouse, get, clicked, Option.bind_eq_bind,
    Option.bind_some] at taken
  cases dragged : wm₁.dragTo drag' x y button with
  | none =>
      rw [dragged] at taken
      cases taken
  | some wm' =>
  rw [dragged] at taken
  cases taken
  obtain ⟨wins', tidy', perm', moves⟩ := tidy₁.dragTo_some dragged
  have moved := (stay drag'.window).trans perm₁ moves
  refine ⟨wins', tidy', ?_⟩
  intro w mem
  have old := perm₁.mem_iff.mp (perm'.mem_iff.mp mem)
  exact moved.shown w old (shown w old)

theorem run_displayed {events : List DesktopEvent} (run : Run Step initial events desktop) :
    ∃ wins, desktop.Displayed wins := by
  induction run with
  | start => exact ⟨[], .init, fun _ mem => by cases mem⟩
  | next run last ih =>
      obtain ⟨wins, displayed⟩ := ih
      exact displayed.after last.1 last.2

end Desktop

/-- In every state that is reached, a point gets the highest window drawn there, or none where none
is drawn, exactly when nothing is drawn there or the highest window comes first.  All points do only
if there is no window. -/
theorem hit_testing_iff {events : List DesktopEvent} {desktop : Desktop}
    (run : Run Desktop.Step Desktop.initial events desktop) :
    ∃ wins, desktop.wm.arena.Lists desktop.wm.windows wins ∧
      (∀ x y, (∃ result, desktop.wm.wmGetWindowAt x y = some result ∧
          desktop.wm.Matches x y result) ↔
        (∀ w ∈ wins, ¬ (desktop.wm.window w).drawnAt x y) ∨ desktop.wm.TopFirst wins x y) ∧
      ((∀ x y, ∃ result, desktop.wm.wmGetWindowAt x y = some result ∧
          desktop.wm.Matches x y result) ↔ desktop.wm.arena.allocated = []) := by
  obtain ⟨wins, displayed⟩ := Desktop.run_displayed run
  have tidy := displayed.tidy
  refine ⟨wins, tidy.lists, tidy.matches_iff, ?_⟩
  rw [tidy.matches_everywhere_iff displayed.shown]
  constructor
  · rintro rfl
    exact tidy.live.nil_eq.symm
  · intro none
    exact List.perm_nil.mp (none ▸ tidy.live)

/-- Two windows that overlap are drawn. -/
def overlapEvents : List DesktopEvent :=
  [.create [] 0 0 50 50 (some 100) (some 200), .create [] 10 10 50 50 (some 300) (some 400),
    .render]

theorem overlapEvents_along :
    Along (fun desktop event => (Desktop.after desktop event).getD desktop)
      (fun desktop event => desktop.Allowed event ∧ (Desktop.after desktop event).isSome)
      Desktop.initial overlapEvents := by
  decide +kernel

/-- A point of both windows gets the one behind, and one in the last rows of both gets none. -/
theorem hit_testing_misses :
    ∃ desktop, Run Desktop.Step Desktop.initial overlapEvents desktop ∧
      desktop.wm.wmGetWindowAt 20 20 = some (some 100) ∧
      ¬ desktop.wm.Matches 20 20 (some 100) ∧
      desktop.wm.wmGetWindowAt 15 75 = some none ∧ ¬ desktop.wm.Matches 15 75 none := by
  refine ⟨_, Run.of_partial overlapEvents_along, ?_⟩
  decide +kernel

theorem hit_testing_iff_overlap :
    ∃ desktop, Run Desktop.Step Desktop.initial overlapEvents desktop ∧
      ∃ wins, desktop.wm.arena.Lists desktop.wm.windows wins ∧
        ((∃ result, desktop.wm.wmGetWindowAt 5 5 = some result ∧
            desktop.wm.Matches 5 5 result) ↔
          (∀ w ∈ wins, ¬ (desktop.wm.window w).drawnAt 5 5) ∨
            desktop.wm.TopFirst wins 5 5) := by
  have run : Run Desktop.Step Desktop.initial overlapEvents _ :=
    Run.of_partial overlapEvents_along
  obtain ⟨wins, lists, right, -⟩ := hit_testing_iff run
  exact ⟨_, run, wins, lists, right 5 5⟩

end Charis.Wm
