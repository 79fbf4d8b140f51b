import Mathlib.Data.List.DropRight
import Charis.Browser.Tabs

/-!
# The histories of all tabs

A session is a list of at most four histories, one of which is active.  In every run the tabs are
inside of their arrays and show such a session.
-/

namespace Charis.Browser

open Charis.Lib Charis.Net

/-- The histories of the tabs, and which one is shown. -/
structure Session where
  histories : List (BoundedHistory (List UInt8) historySize)
  active : Nat

namespace Session

def initial : Session where
  histories := []
  active := 0

/-- A tab that shows the start page. -/
def start : BoundedHistory (List UInt8) historySize := .single homeAddress (by decide)

/-- Change the history of the active tab. -/
def modify (session : Session)
    (g : BoundedHistory (List UInt8) historySize → BoundedHistory (List UInt8) historySize) :
    Session :=
  { session with histories := session.histories.modify session.active g }

/-- Close the active tab, unless it is the last one. -/
def closeActive (session : Session) : Session :=
  if session.histories.length ≤ 1 then session
  else
    { histories := session.histories.eraseIdx session.active
      active := min session.active (session.histories.length - 2) }

/-- The session after an event. -/
def after (session : Session) : BrowserEvent → Session
  | .openBrowser => if session.histories = [] then ⟨[start], 0⟩ else session
  | .navigate raw => session.modify (destination raw)
  | .back => session.modify BoundedHistory.back
  | .forward => session.modify BoundedHistory.forward
  | .reload => session
  | .home => session.modify fun history => history.visit homeAddress
  | .newTab =>
      if session.histories.length < maxTabs then
        { histories := session.histories ++ [start], active := session.histories.length }
      else session
  | .closeTab => session.closeActive
  | .selectTab i =>
      if i < session.histories.length then { session with active := i } else session
  | .edit _ _ _ => session

theorem modify_id (session : Session) : session.modify id = session := by
  rw [modify, List.modify_id]

end Session

/-- Each tab shows its history. -/
structure Tabs.Shows (browser : Tabs) (session : Session) : Prop where
  count : browser.tabCount = session.histories.length
  few : session.histories.length ≤ maxTabs
  active : browser.activeTab = session.active
  active_lt : session.histories ≠ [] → session.active < session.histories.length
  shown : ∀ (i : Nat) (inside : i < session.histories.length),
    (browser.tabs i).Shows (session.histories.get ⟨i, inside⟩)

namespace Tabs

variable {browser : Tabs} {session : Session}

theorem initial_shows : initial.Shows .initial where
  count := rfl
  few := Nat.zero_le _
  active := rfl
  active_lt := fun some => absurd rfl some
  shown := fun _ inside => absurd inside (Nat.not_lt_zero _)

theorem modifyTab_of_inside {i : Int} (first : 0 ≤ i) (last : i < maxTabs)
    (f : Tab → Option Tab) :
    browser.modifyTab i f =
      (f (browser.tabs i)).map fun tab =>
        { browser with tabs := Function.update browser.tabs i tab } := by
  rw [modifyTab, if_pos ⟨first, last⟩]
  cases f (browser.tabs i) with
  | none => rfl
  | some tab => rfl

theorem currentTab_of_empty (shows : browser.Shows session) (empty : session.histories = []) :
    browser.currentTab = (browser, none) := by
  have count := shows.count
  rw [empty] at count
  exact if_pos count.le

theorem currentTab_of_nonempty (shows : browser.Shows session)
    (nonempty : session.histories ≠ []) :
    browser.currentTab = (browser, some browser.activeTab) := by
  have inside := shows.active_lt nonempty
  have count := shows.count
  have active := shows.active
  rw [currentTab, if_neg (by omega), if_neg (by omega)]

/-- A change of the current tab is one of the active history. -/
theorem Shows.modifyCurrent (shows : browser.Shows session) {f : Tab → Option Tab}
    {g : BoundedHistory (List UInt8) historySize → BoundedHistory (List UInt8) historySize}
    (follows : ∀ tab history, Tab.Shows tab history →
      ∃ tab', f tab = some tab' ∧ tab'.Shows (g history)) :
    ∃ browser', browser.modifyCurrent f = some browser' ∧ browser'.Shows (session.modify g) := by
  rw [Tabs.modifyCurrent]
  by_cases nonempty : session.histories = []
  · rw [currentTab_of_empty shows nonempty]
    have same : session.modify g = session := by
      rw [Session.modify, nonempty, List.modify_nil, ← nonempty]
    rw [same]
    exact ⟨browser, rfl, shows⟩
  have inside := shows.active_lt nonempty
  have few := shows.few
  have active := shows.active
  have here := shows.shown session.active inside
  rw [← active] at here
  obtain ⟨tab', done, follows⟩ := follows _ _ here
  rw [currentTab_of_nonempty shows nonempty]
  dsimp only
  rw [modifyTab_of_inside (by omega) (by omega), done, Option.map_some]
  refine ⟨_, rfl, ?_, ?_, active, ?_, ?_⟩
  · exact shows.count.trans (by rw [Session.modify, List.length_modify])
  · rw [Session.modify, List.length_modify]
    exact few
  · intro _
    rw [Session.modify, List.length_modify]
    exact inside
  intro i less
  have less' := less
  rw [Session.modify, List.length_modify] at less'
  dsimp only
  rw [List.get_eq_getElem]
  simp only [Session.modify, List.getElem_modify]
  by_cases same : session.active = i
  · subst same
    rw [if_pos rfl, active, Function.update_self]
    exact follows
  · rw [if_neg same, Function.update_of_ne (by omega)]
    exact shows.shown i less'

theorem Shows.keepCurrent (shows : browser.Shows session) {f : Tab → Option Tab}
    (follows : ∀ tab history, Tab.Shows tab history →
      ∃ tab', f tab = some tab' ∧ tab'.Shows history) :
    ∃ browser', browser.modifyCurrent f = some browser' ∧ browser'.Shows session := by
  rw [← session.modify_id]
  exact shows.modifyCurrent follows

theorem Shows.browserOpen (shows : browser.Shows session) :
    ∃ browser', browser.browserOpen = some browser' ∧
      browser'.Shows (session.after .openBrowser) := by
  have count := shows.count
  rw [Tabs.browserOpen, Session.after]
  by_cases empty : session.histories = []
  · obtain ⟨tab, fresh, follows⟩ := Tab.fresh_shows
    rw [empty] at count
    rw [if_pos (show browser.tabCount = 0 from count), if_pos empty,
      modifyTab_of_inside (by decide) (by decide), fresh, Option.map_some]
    refine ⟨_, rfl, rfl, by decide, rfl, fun _ => Nat.zero_lt_one, ?_⟩
    intro i inside
    have first : i = 0 := Nat.lt_one_iff.mp inside
    subst first
    exact follows
  · have positive := List.length_pos_iff.mpr empty
    rw [if_neg (by omega), if_neg empty]
    exact ⟨browser, rfl, shows⟩

theorem Shows.newTab (shows : browser.Shows session) :
    ∃ browser', browser.newTab = some browser' ∧ browser'.Shows (session.after .newTab) := by
  have count := shows.count
  rw [Tabs.newTab, Session.after]
  by_cases room : session.histories.length < maxTabs
  · obtain ⟨tab, fresh, follows⟩ := Tab.fresh_shows
    rw [if_neg (by omega), if_pos room, modifyTab_of_inside (by omega) (by omega), fresh,
      Option.map_some]
    refine ⟨_, rfl, ?_, ?_, count, ?_, ?_⟩
    · rw [List.length_append, List.length_singleton, Nat.cast_add, ← count]
      rfl
    · rw [List.length_append]
      exact room
    · intro _
      rw [List.length_append]
      exact Nat.lt_succ_self _
    · intro i inside
      rw [List.length_append, List.length_singleton] at inside
      dsimp only
      rw [List.get_eq_getElem]
      by_cases last : i = session.histories.length
      · subst last
        rw [count, Function.update_self, List.getElem_concat_length rfl]
        exact follows
      · have earlier : i < session.histories.length := by omega
        rw [Function.update_of_ne (by omega), List.getElem_append_left earlier]
        exact shows.shown i earlier
  · have few := shows.few
    rw [if_pos (by omega), if_neg room]
    exact ⟨browser, rfl, shows⟩

/-- The tabs after the active one move down. -/
theorem closeLoop_spec (browser : Tabs) (steps : Nat) (first : 0 ≤ browser.activeTab)
    (last : browser.activeTab + steps < maxTabs) :
    ∃ tabs, closeLoop steps browser = some { browser with tabs } ∧
      (∀ i, browser.activeTab ≤ i → i < browser.activeTab + steps →
        tabs i = browser.tabs (i + 1)) ∧
      ∀ i, i < browser.activeTab ∨ browser.activeTab + steps ≤ i → tabs i = browser.tabs i := by
  induction steps with
  | zero =>
      refine ⟨browser.tabs, rfl, ?_, fun _ _ => rfl⟩
      intro i lower upper
      omega
  | succ steps ih =>
  obtain ⟨tabs, earlier, moved, kept⟩ := ih (by omega)
  refine ⟨Function.update tabs (browser.activeTab + steps)
    (tabs (browser.activeTab + steps + 1)), ?_, ?_, ?_⟩
  · simp only [closeLoop, earlier, Option.bind_eq_bind, Option.bind_some]
    rw [if_pos (by omega), modifyTab_of_inside (by omega) (by omega)]
    rfl
  · intro i lower upper
    by_cases here : i = browser.activeTab + steps
    · subst here
      rw [Function.update_self, kept _ (by omega)]
    · rw [Function.update_of_ne here, moved i lower (by omega)]
  · intro i outside
    rw [Function.update_of_ne (by omega), kept i (by omega)]

theorem Shows.closeTab (shows : browser.Shows session) :
    ∃ browser', browser.closeTab = some browser' ∧ browser'.Shows session.closeActive := by
  have count := shows.count
  rw [Tabs.closeTab, Session.closeActive]
  by_cases few : session.histories.length ≤ 1
  · rw [if_pos (by omega), if_pos few]
    exact ⟨browser, rfl, shows⟩
  have nonempty : session.histories ≠ [] := by
    intro empty
    rw [empty] at few
    exact few (Nat.zero_le 1)
  have inside := shows.active_lt nonempty
  have active := shows.active
  have limit := shows.few
  obtain ⟨tabs, closed, moved, kept⟩ := closeLoop_spec browser
    (browser.tabCount - 1 - browser.activeTab).toNat (by omega) (by omega)
  rw [if_neg (by omega), if_neg few, closed]
  have length := List.length_eraseIdx_of_lt inside
  refine ⟨_, rfl, ?_, ?_, ?_, ?_, ?_⟩
  · dsimp only
    omega
  · dsimp only
    omega
  · dsimp only
    split
    · omega
    · omega
  · intro _
    dsimp only
    omega
  · intro i less
    have less' : i < session.histories.length - 1 := length ▸ less
    dsimp only
    rw [List.get_eq_getElem, List.getElem_eraseIdx]
    by_cases before : i < session.active
    · rw [dif_pos before, kept i (by omega)]
      exact shows.shown i _
    · rw [dif_neg before, moved i (by omega) (by omega)]
      exact shows.shown (i + 1) (by omega)

theorem Shows.selectTab (shows : browser.Shows session) (i : Nat) :
    ∃ browser', browser.after (.selectTab i) = some browser' ∧
      browser'.Shows (session.after (.selectTab i)) := by
  have count := shows.count
  refine ⟨_, rfl, ?_⟩
  rw [Session.after]
  by_cases inside : i < session.histories.length
  · rw [if_pos (by omega), if_pos inside]
    exact ⟨count, shows.few, rfl, fun _ => inside, shows.shown⟩
  · rw [if_neg (by omega), if_neg inside]
    exact shows

theorem destination_home : destination homeAddress =
    fun history : BoundedHistory (List UInt8) historySize => history.visit homeAddress := by
  have address : qualify homeAddress = homeAddress := by decide
  funext history
  rw [destination, if_neg (by decide), address]

/-- After every event the tabs show the session after that event. -/
theorem Shows.after (shows : browser.Shows session) (event : BrowserEvent) :
    ∃ browser', browser.after event = some browser' ∧ browser'.Shows (session.after event) := by
  cases event with
  | openBrowser => exact shows.browserOpen
  | navigate raw => exact shows.modifyCurrent fun _ _ shown => shown.navigate raw
  | back => exact shows.modifyCurrent fun _ _ shown => shown.goBack
  | forward => exact shows.modifyCurrent fun _ _ shown => shown.goForward
  | reload => exact shows.keepCurrent fun _ _ shown => shown.reload _
  | home =>
      rw [Session.after, ← destination_home]
      exact shows.modifyCurrent fun _ _ shown => shown.navigate homeAddress
  | newTab => exact shows.newTab
  | closeTab => exact shows.closeTab
  | selectTab i => exact shows.selectTab i
  | edit address addressFocus selectAll =>
      exact shows.keepCurrent fun _ _ shown => ⟨_, rfl, shown.of_same rfl rfl rfl⟩

theorem Shows.run (shows : browser.Shows session) (events : List BrowserEvent) :
    ∃ browser', events.foldlM Tabs.after browser = some browser' ∧
      browser'.Shows (events.foldl Session.after session) := by
  induction events generalizing browser session with
  | nil => exact ⟨browser, rfl, shows⟩
  | cons event events ih =>
      obtain ⟨middle, taken, shows⟩ := shows.after event
      rw [List.foldlM_cons, taken]
      exact ih shows

end Tabs

/-- The cursor of a tab is before its count, and there are at most eight strings. -/
theorem Tab.Shows.bounds {tab : Tab} {history : BoundedHistory (List UInt8) historySize}
    (shows : tab.Shows history) :
    0 ≤ tab.historyIndex ∧ tab.historyIndex < tab.historyCount ∧ tab.historyCount ≤ 8 := by
  have count := shows.count
  have index := shows.index
  have inside := history.cursor_lt
  have bounded : history.entries.length ≤ 8 := history.length_le
  omega

namespace Session

variable {session : Session} {history : BoundedHistory (List UInt8) historySize} {raw : List UInt8}

theorem modify_eq_set (here : history ∈ session.histories[session.active]?)
    (g : BoundedHistory (List UInt8) historySize → BoundedHistory (List UInt8) historySize) :
    session.modify g =
      { session with histories := session.histories.set session.active (g history) } := by
  rw [modify, List.modify_eq_set_getElem?, Option.mem_def.mp here]
  rfl

/-- A change that keeps the active history keeps the session. -/
theorem modify_of_fixed (here : history ∈ session.histories[session.active]?)
    {g : BoundedHistory (List UInt8) historySize → BoundedHistory (List UInt8) historySize}
    (fixed : g history = history) : session.modify g = session := by
  have inside := (List.getElem?_eq_some_iff.mp (Option.mem_def.mp here)).1
  have entry := (List.getElem?_eq_some_iff.mp (Option.mem_def.mp here)).2
  rw [modify_eq_set here, fixed, ← entry, List.set_getElem_self]

theorem after_back_forward (here : history ∈ session.histories[session.active]?)
    (earlier : 0 < history.cursor) : (session.after .back).after .forward = session := by
  have both : (session.after .back).after .forward =
      session.modify (BoundedHistory.forward ∘ BoundedHistory.back) := by
    simp only [after, modify, List.modify_modify_eq]
  rw [both]
  exact modify_of_fixed here (history.forward_back earlier)

end Session

/-- In every run each tab has a history of one to eight addresses with the cursor inside, and the
tabs show a session: going to the current address changes nothing, going elsewhere discards the
entries after the cursor, appends the address and keeps the last eight, going back and forward
returns, and the texts of the entries stay. -/
theorem tab_histories (events : List BrowserEvent) (raw : List UInt8) :
    let session := events.foldl Session.after .initial
    (∃ browser, events.foldlM Tabs.after .initial = some browser ∧ browser.Shows session ∧
      ∀ i : Nat, i < browser.tabCount →
        0 ≤ (browser.tabs i).historyIndex ∧
        (browser.tabs i).historyIndex < (browser.tabs i).historyCount ∧
        (browser.tabs i).historyCount ≤ 8) ∧
    ∀ history ∈ session.histories[session.active]?,
      (cText raw ≠ [] → history.current = qualify raw →
        session.after (.navigate raw) = session) ∧
      (cText raw ≠ [] → history.current ≠ qualify raw →
        ∃ history' : BoundedHistory (List UInt8) historySize,
          session.after (.navigate raw) =
            { session with histories := session.histories.set session.active history' } ∧
          history'.entries =
            (history.entries.take (history.cursor + 1) ++ [qualify raw]).rtake 8 ∧
          history'.cursor + 1 = history'.entries.length ∧
          history'.current = qualify raw) ∧
      (0 < history.cursor → (session.after .back).after .forward = session) := by
  intro session
  constructor
  · obtain ⟨browser, run, shows⟩ := Tabs.initial_shows.run events
    refine ⟨browser, run, shows, ?_⟩
    intro i inside
    have count := shows.count
    exact (shows.shown i (by omega)).bounds
  intro history here
  have moves (visited : cText raw ≠ []) : destination raw history = history.visit (qualify raw) :=
    if_neg visited
  refine ⟨?_, ?_, Session.after_back_forward here⟩
  · intro visited same
    apply Session.modify_of_fixed here
    rw [moves visited, BoundedHistory.visit, if_pos same]
  · intro visited other
    have pushed : destination raw history = history.push (qualify raw) := by
      rw [moves visited, BoundedHistory.visit, if_neg other]
    refine ⟨history.push (qualify raw), ?_, ?_, ?_, history.current_push _⟩
    · rw [← pushed]
      exact Session.modify_eq_set here _
    · rw [List.rtake]
      exact congrArg (List.drop · _) (congrArg (· - 8) (history.length_extended _).symm)
    · exact history.length_push _

end Charis.Browser
