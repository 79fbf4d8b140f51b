import Charis.Wm.Windows

/-!
# The list of windows

However windows are created, destroyed, focused and drawn, the list holds the live windows, and
the focused one is in front.
-/

namespace Charis.Wm

open Charis.Lib

/-- The operations, with the results of `kmalloc` for a new window. -/
inductive WindowEvent where
  | create (title : List UInt8) (x y w h : Int) (window buffer : Option Nat)
  | destroy (win : Option Nat)
  | focus (win : Option Nat)
  | render

namespace WindowManager

/-- The state after an operation, unless it uses memory that is not allocated or does not end. -/
def after (wm : WindowManager) : WindowEvent → Option WindowManager
  | .create title x y w h window buffer =>
      (wm.wmCreateWindow title x y w h window buffer).map Prod.fst
  | .destroy win => wm.wmDestroyWindow win
  | .focus win => wm.wmFocusWindow win
  | .render => wm.wmRender

/-- New windows get memory that is not in use, and the other operations get live windows. -/
def Allowed (wm : WindowManager) : WindowEvent → Prop
  | .create _ _ _ _ _ window _ => ∀ win ∈ window, win ∉ wm.arena.allocated
  | .destroy window => ∀ win ∈ window, win ∈ wm.arena.allocated
  | .focus window => ∀ win ∈ window, win ∈ wm.arena.allocated
  | .render => True

def Step (wm : WindowManager) (event : WindowEvent) (wm' : WindowManager) : Prop :=
  wm.Allowed event ∧ wm.after event = some wm'

/-- The windows in the list are the live ones, no two of them lie at one height, and the focused
one lies in front. -/
structure Stacked (wm : WindowManager) (wins : List Nat) : Prop where
  tidy : wm.Tidy wins
  below : ∀ w ∈ wins, (wm.window w).zOrder < wm.zCounter
  distinct : ∀ v ∈ wins, ∀ w ∈ wins, (wm.window v).zOrder = (wm.window w).zOrder → v = w
  front : ∀ w ∈ wins, (wm.window w).focused → ∀ v ∈ wins,
    (wm.window v).zOrder ≤ (wm.window w).zOrder

variable {wm wm' : WindowManager} {wins wins' : List Nat} {win : Nat}

theorem nextZ_eq {counter : Int} (nonneg : 0 ≤ counter) (room : counter + 1 < 2 ^ 31) :
    nextZ counter = counter + 1 := by
  have small : (counter + 1) % 2 ^ 32 = counter + 1 := by omega
  simp only [nextZ, Int.bmod]
  omega

theorem Stacked.init : wmInit.Stacked [] where
  tidy := .init
  below := fun _ mem => by cases mem
  distinct := fun _ mem => by cases mem
  front := fun _ mem => by cases mem

/-- Fewer windows, or the same ones in another order, that have not changed. -/
theorem Stacked.of_same (stacked : wm.Stacked wins) (tidy : wm'.Tidy wins')
    (fewer : wins' ⊆ wins) (counter : wm.zCounter ≤ wm'.zCounter)
    (same : ∀ w, wm'.window w = wm.window w) : wm'.Stacked wins' where
  tidy := tidy
  below := fun w mem => by
    rw [same]
    exact (stacked.below w (fewer mem)).trans_le counter
  distinct := fun v vMem w wMem => by
    rw [same, same]
    exact stacked.distinct v (fewer vMem) w (fewer wMem)
  front := fun w wMem focused v vMem => by
    rw [same] at focused
    rw [same, same]
    exact stacked.front w (fewer wMem) focused v (fewer vMem)

/-- One window has come to the front, and the others have lost the focus. -/
theorem Stacked.of_front (stacked : wm.Stacked wins) (tidy : wm'.Tidy wins')
    (others : ∀ w ∈ wins', w ≠ win → w ∈ wins ∧
      wm'.window w = { wm.window w with focused := false })
    (above : wm.zCounter ≤ (wm'.window win).zOrder)
    (below : (wm'.window win).zOrder < wm'.zCounter) : wm'.Stacked wins' := by
  have lower : ∀ w ∈ wins', w ≠ win → (wm'.window w).zOrder < wm.zCounter := by
    intro w mem other
    obtain ⟨old, same⟩ := others w mem other
    rw [same]
    exact stacked.below w old
  constructor
  · exact tidy
  · intro w mem
    by_cases isWin : w = win
    · rw [isWin]
      exact below
    · exact (lower w mem isWin).trans_le (above.trans below.le)
  · intro v vMem w wMem equal
    by_cases vWin : v = win
    · by_cases wWin : w = win
      · rw [vWin, wWin]
      · have less := lower w wMem wWin
        rw [← equal, vWin] at less
        exact absurd above (not_le.mpr less)
    · by_cases wWin : w = win
      · have less := lower v vMem vWin
        rw [equal, wWin] at less
        exact absurd above (not_le.mpr less)
      · obtain ⟨vOld, vSame⟩ := others v vMem vWin
        obtain ⟨wOld, wSame⟩ := others w wMem wWin
        rw [vSame, wSame] at equal
        exact stacked.distinct v vOld w wOld equal
  · intro w wMem focused v vMem
    by_cases wWin : w = win
    · by_cases vWin : v = win
      · rw [vWin, wWin]
      · rw [wWin]
        exact ((lower v vMem vWin).trans_le above).le
    · rw [(others w wMem wWin).2] at focused
      cases focused

/-- Every operation keeps the order, and raises the counter by two at most. -/
theorem Stacked.after (stacked : wm.Stacked wins) {event : WindowEvent}
    (allowed : wm.Allowed event) (nonneg : 0 ≤ wm.zCounter) (room : wm.zCounter + 2 < 2 ^ 31) :
    ∃ wm' wins', wm.after event = some wm' ∧ wm'.Stacked wins' ∧ wm.zCounter ≤ wm'.zCounter ∧
      wm'.zCounter ≤ wm.zCounter + 2 := by
  have next := nextZ_eq nonneg (by omega)
  have more : wm.zCounter ≤ wm.zCounter + 2 := by omega
  have unchanged : ∃ wm' wins', some wm = some wm' ∧ wm'.Stacked wins' ∧
      wm.zCounter ≤ wm'.zCounter ∧ wm'.zCounter ≤ wm.zCounter + 2 :=
    ⟨wm, wins, rfl, stacked, le_refl _, more⟩
  cases event with
  | create title x y w h window buffer =>
      by_cases degenerate : w ≤ 0 ∨ h ≤ 0
      · simp only [WindowManager.after, wmCreateWindow, if_pos degenerate, Option.map_some]
        exact unchanged
      cases window with
      | none =>
          simp only [WindowManager.after, wmCreateWindow, if_neg degenerate, Option.map_some]
          exact unchanged
      | some win =>
      have fresh := allowed win rfl
      cases buffer with
      | none =>
          simp only [WindowManager.after, wmCreateWindow, if_neg degenerate,
            Option.map_some]
          have raised : wm.zCounter ≤ nextZ wm.zCounter := by omega
          refine ⟨{ wm with zCounter := nextZ wm.zCounter }, wins, rfl, ?_, raised, ?_⟩
          · exact stacked.of_same ⟨stacked.tidy.lists, stacked.tidy.live⟩
              (List.Subset.refl _) raised fun _ => rfl
          · rw [next]
            exact Int.add_le_add_left (by decide) _
      | some buffer =>
      have next₂ : nextZ (nextZ wm.zCounter) = wm.zCounter + 2 := by
        rw [next, nextZ_eq (by omega) (by omega)]
        omega
      obtain ⟨wm', created, tidy, counter, window, others⟩ :=
        stacked.tidy.create fresh title x y degenerate buffer
      refine ⟨wm', win :: wins, ?_, ?_, ?_, ?_⟩
      · simp only [WindowManager.after, created, Option.map_some]
      · apply stacked.of_front tidy
        · intro other mem apart
          have old := (List.mem_cons.mp mem).resolve_left apart
          exact ⟨old, others other old⟩
        · rw [window]
          dsimp only
          omega
        · rw [window, counter]
          dsimp only
          omega
      · omega
      · omega
  | destroy window =>
      cases window with
      | none => exact unchanged
      | some win =>
          have mem := stacked.tidy.mem_iff.mpr (allowed win rfl)
          obtain ⟨wm', destroyed, tidy, counter, same⟩ := stacked.tidy.destroy mem
          refine ⟨wm', wins.erase win, destroyed, ?_, counter.ge, counter.le.trans more⟩
          exact stacked.of_same tidy List.erase_subset counter.ge same
  | focus window =>
      cases window with
      | none => exact unchanged
      | some win =>
      have mem := stacked.tidy.mem_iff.mpr (allowed win rfl)
      obtain ⟨wm', focused, tidy, -, counter, windows⟩ := stacked.tidy.focus mem
      refine ⟨wm', wins, focused, ?_, ?_, ?_⟩
      · apply stacked.of_front tidy
        · intro w wMem apart
          exact ⟨wMem, (windows w wMem).trans (if_neg apart)⟩
        · rw [windows win mem, if_pos rfl]
        · rw [windows win mem, if_pos rfl]
          dsimp only
          omega
      · omega
      · omega
  | render =>
      obtain ⟨wm', rendered, tidy, counter, same, -⟩ := stacked.tidy.render
      have stacked' := stacked.of_same tidy (sortStable_nil_perm wins).subset counter.ge same
      exact ⟨wm', _, rendered, stacked', counter.ge, counter.le.trans more⟩

/-- In a run that is not too long the windows stay in order. -/
theorem run_stacked {events : List WindowEvent} (run : Run Step wmInit events wm)
    (few : events.length ≤ 2 ^ 30 - 1) :
    ∃ wins, wm.Stacked wins ∧ 0 ≤ wm.zCounter ∧ wm.zCounter ≤ 2 * events.length := by
  induction run with
  | start => exact ⟨[], .init, le_refl _, le_refl _⟩
  | @next events middle finish event run last ih =>
  rw [List.length_append, List.length_singleton] at few ⊢
  obtain ⟨wins, stacked, nonneg, bounded⟩ := ih (by omega)
  obtain ⟨wm', wins', after, stacked', more, less⟩ :=
    stacked.after last.1 nonneg (by omega)
  have same := Option.some.inj (after.symm.trans last.2)
  subst same
  exact ⟨wins', stacked', nonneg.trans more, by push_cast; omega⟩

/-- What holds of the list of windows. -/
structure ListSound (wm : WindowManager) (wins : List Nat) : Prop where
  lists : wm.arena.Lists wm.windows wins
  once : wins.Nodup
  live : ∀ w, w ∈ wins ↔ w ∈ wm.arena.allocated
  distinct : ∀ v ∈ wins, ∀ w ∈ wins, (wm.window v).zOrder = (wm.window w).zOrder → v = w
  front : ∀ w ∈ wins, (wm.window w).focused → ∀ v ∈ wins,
    (wm.window v).zOrder ≤ (wm.window w).zOrder
  single : ∀ v ∈ wins, ∀ w ∈ wins, (wm.window v).focused → (wm.window w).focused → v = w

theorem Stacked.sound (stacked : wm.Stacked wins) : wm.ListSound wins where
  lists := stacked.tidy.lists
  once := stacked.tidy.lists.nodup
  live := fun _ => stacked.tidy.mem_iff
  distinct := stacked.distinct
  front := stacked.front
  single := fun v vMem w wMem vFocused wFocused =>
    stacked.distinct v vMem w wMem
      (le_antisymm (stacked.front w wMem wFocused v vMem) (stacked.front v vMem vFocused w wMem))

end WindowManager

namespace WindowManager

instance (wm : WindowManager) : (event : WindowEvent) → Decidable (wm.Allowed event)
  | .create _ _ _ _ _ window _ =>
      inferInstanceAs (Decidable (∀ win ∈ window, win ∉ wm.arena.allocated))
  | .destroy window => inferInstanceAs (Decidable (∀ win ∈ window, win ∈ wm.arena.allocated))
  | .focus window => inferInstanceAs (Decidable (∀ win ∈ window, win ∈ wm.arena.allocated))
  | .render => .isTrue trivial

end WindowManager

/-- Two windows, of which the one behind is focused. -/
def twoWindowEvents : List WindowEvent :=
  [.create [] 0 0 10 10 (some 100) (some 200), .create [] 5 5 10 10 (some 300) (some 400),
    .focus (some 100), .render]

end Charis.Wm
