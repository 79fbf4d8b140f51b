import Charis.Lib.BoundedHistory
import Charis.Net.Wire

/-!
# Tabs and their histories

Each tab keeps the addresses that it has shown in eight strings, the number of those in use and the
position among them.  Going to an address, back or forward moves the position, and a full history
is shifted by one string.  Using a string or a tab that does not exist fails.
-/

namespace Charis.Browser

open Charis.Lib Charis.Net

/-- `BROWSER_URL_MAX - 1`. -/
abbrev urlMax : Nat := 127

/-- `BROWSER_HISTORY`. -/
abbrev historySize : Nat := 8

/-- `BROWSER_MAX_TABS`. -/
abbrev maxTabs : Nat := 4

/-- The text of a string, up to its end. -/
def cText (bytes : List UInt8) : List UInt8 := bytes.takeWhile (· != 0)

/-- `kstrncpy`. -/
def kstrncpy (dst src : List UInt8) (n : Nat) : List UInt8 :=
  let copied := (cText src).take n
  copied ++ List.replicate (n - copied.length) 0 ++ dst.drop n

/-- An array of `BROWSER_URL_MAX` characters, of which the last one is always zero. -/
structure Slot where
  bytes : List UInt8
  terminated : bytes.drop urlMax = [0]

namespace Slot

def zero : Slot := ⟨List.replicate (urlMax + 1) 0, rfl⟩

/-- Copy a string.  The last character of the array is not written, or it is zero before. -/
def copy (slot : Slot) (src : List UInt8) : Slot where
  bytes := kstrncpy slot.bytes src urlMax
  terminated := by
    have room : ((cText src).take urlMax ++
        List.replicate (urlMax - ((cText src).take urlMax).length) 0).length = urlMax := by
      rw [List.length_append, List.length_replicate]
      have short := List.length_take_le urlMax (cText src)
      omega
    rw [kstrncpy, List.drop_append_of_le_length room.ge, List.drop_of_length_le room.le]
    exact slot.terminated

def text (slot : Slot) : List UInt8 := cText slot.bytes

end Slot

/-- A text that fits in an array and has no end within. -/
structure IsText (text : List UInt8) : Prop where
  plain : ∀ c ∈ text, c ≠ 0
  short : text.length ≤ urlMax

variable {text : List UInt8}

theorem IsText.cText_eq (isText : IsText text) : cText text = text := by
  apply List.takeWhile_eq_self_iff.mpr
  intro c mem
  exact bne_iff_ne.mpr (isText.plain c mem)

theorem cText_plain (bytes : List UInt8) : ∀ c ∈ cText bytes, c ≠ 0 := by
  intro c mem
  exact bne_iff_ne.mp (List.mem_takeWhile_imp (p := (· != 0)) mem)

/-- The text of an array is that of the string which was copied, as far as it fits. -/
theorem Slot.text_copy (slot : Slot) (src : List UInt8) :
    (slot.copy src).text = (cText src).take urlMax := by
  have plain : ∀ c ∈ (cText src).take urlMax, (c != 0) = true := by
    intro c mem
    exact bne_iff_ne.mpr (cText_plain src c (List.mem_of_mem_take mem))
  change ((cText src).take urlMax ++ List.replicate _ 0 ++ slot.bytes.drop urlMax).takeWhile _ = _
  rw [slot.terminated, List.append_assoc, List.takeWhile_append_of_pos plain]
  generalize urlMax - _ = padding
  cases padding with
  | zero => simp
  | succ padding => simp [List.replicate_succ]

theorem Slot.isText (slot : Slot) : IsText slot.text := by
  refine ⟨cText_plain slot.bytes, ?_⟩
  have split : slot.bytes = slot.bytes.take urlMax ++ [0] := by
    rw [← slot.terminated, List.take_append_drop]
  have stop : [(0 : UInt8)].takeWhile (· != 0) = [] := rfl
  rw [Slot.text, cText, split, List.takeWhile_append, stop, List.append_nil]
  split
  · exact List.length_take_le _ _
  · exact (List.takeWhile_prefix _).length_le.trans (List.length_take_le _ _)

/-- The text of an array is copied to another one. -/
theorem Slot.text_copy_bytes (slot src : Slot) : (slot.copy src.bytes).text = src.text := by
  rw [Slot.text_copy]
  exact List.take_of_length_le src.isText.short

theorem Slot.text_copy_of_isText (slot : Slot) (isText : IsText text) :
    (slot.copy text).text = text := by
  rw [Slot.text_copy, isText.cText_eq, List.take_of_length_le isText.short]

/-- The fields of `browser_tab_t` that the operations on its history read and write. -/
structure Tab where
  address : Slot
  history : Int → Slot
  historyCount : Int
  historyIndex : Int
  addressFocus : Bool
  selectAll : Bool

namespace Tab

def zero : Tab where
  address := .zero
  history := fun _ => .zero
  historyCount := 0
  historyIndex := 0
  addressFocus := false
  selectAll := false

/-- Read a string of the history. -/
def entry (tab : Tab) (i : Int) : Option Slot :=
  if 0 ≤ i ∧ i < historySize then some (tab.history i) else none

/-- Copy a text into a string of the history. -/
def setEntry (tab : Tab) (i : Int) (text : List UInt8) : Option Tab := do
  let slot ← tab.entry i
  some { tab with history := Function.update tab.history i (slot.copy text) }

/-- The loop of `history_push` that drops the oldest string. -/
def shiftLoop : (steps : Nat) → Tab → Option Tab
  | 0, tab => some tab
  | steps + 1, tab => do
      let tab ← shiftLoop steps tab
      let next ← tab.entry (steps + 1 : Nat)
      tab.setEntry steps next.bytes

/-- `history_push` for an address that is not the current one. -/
def pushEntry (tab : Tab) (address : List UInt8) : Option Tab := do
  let tab := { tab with historyIndex := tab.historyIndex + 1 }
  let tab ←
    if tab.historyIndex ≥ (historySize : Int) then do
      let tab ← shiftLoop (historySize - 1) tab
      some
        { tab with
          historyIndex := (historySize - 1 : Nat), historyCount := (historySize - 1 : Nat) }
    else some tab
  let tab := { tab with address := tab.address.copy address }
  let tab ← tab.setEntry tab.historyIndex address
  some { tab with historyCount := tab.historyIndex + 1 }

/-- `history_push`. -/
def historyPush (tab : Tab) (address : List UInt8) : Option Tab :=
  if tab.historyCount > 0 then do
    let current ← tab.entry tab.historyIndex
    if current.text = cText address then some tab else tab.pushEntry address
  else tab.pushEntry address

end Tab

/-- The address that `navigate` goes to. -/
def qualify (raw : List UInt8) : List UInt8 :=
  if (ascii "charis://").isPrefixOf (cText raw) ∨ (ascii "http://").isPrefixOf (cText raw) ∨
      (ascii "https://").isPrefixOf (cText raw) ∨ (ascii "file://").isPrefixOf (cText raw) then
    (cText raw).take urlMax
  else ascii "https://" ++ (cText raw).take (urlMax - 8)

/-- `charis://home`. -/
def homeAddress : List UInt8 := ascii "charis://home"

namespace Tab

/-- What `navigate` does to the current tab. -/
def navigate (tab : Tab) (raw : List UInt8) (addHistory : Bool) : Option Tab :=
  if cText raw = [] then some tab
  else
    let target := qualify raw
    let tab :=
      { tab with
        address := tab.address.copy target, addressFocus := false, selectAll := false }
    if addHistory then tab.historyPush target else some tab

/-- The button `<`. -/
def goBack (tab : Tab) : Option Tab :=
  if tab.historyIndex > 0 then do
    let tab := { tab with historyIndex := tab.historyIndex - 1 }
    let slot ← tab.entry tab.historyIndex
    let tab := { tab with address := tab.address.copy slot.bytes }
    tab.navigate tab.address.bytes false
  else some tab

/-- The button `>`. -/
def goForward (tab : Tab) : Option Tab :=
  if tab.historyIndex + 1 < tab.historyCount then do
    let tab := { tab with historyIndex := tab.historyIndex + 1 }
    let slot ← tab.entry tab.historyIndex
    let tab := { tab with address := tab.address.copy slot.bytes }
    tab.navigate tab.address.bytes false
  else some tab

/-- A new tab. -/
def fresh : Option Tab :=
  ({ zero with historyIndex := -1, address := zero.address.copy homeAddress }).historyPush
    homeAddress

end Tab

/-- `tabs`, `tab_count` and `active_tab`. -/
structure Tabs where
  tabs : Int → Tab
  tabCount : Int
  activeTab : Int

/-- What the user does, with any text in the address bar that the keys have made. -/
inductive BrowserEvent where
  | openBrowser
  | navigate (raw : List UInt8)
  | back
  | forward
  | reload
  | home
  | newTab
  | closeTab
  | selectTab (i : Nat)
  | edit (address : Slot) (addressFocus selectAll : Bool)

namespace Tabs

def initial : Tabs where
  tabs := fun _ => .zero
  tabCount := 0
  activeTab := 0

/-- Change a tab. -/
def modifyTab (browser : Tabs) (i : Int) (f : Tab → Option Tab) : Option Tabs :=
  if 0 ≤ i ∧ i < maxTabs then do
    let tab ← f (browser.tabs i)
    some { browser with tabs := Function.update browser.tabs i tab }
  else none

/-- `current_tab`. -/
def currentTab (browser : Tabs) : Tabs × Option Int :=
  if browser.tabCount ≤ 0 then (browser, none)
  else
    let browser :=
      if browser.activeTab < 0 ∨ browser.activeTab ≥ browser.tabCount then
        { browser with activeTab := 0 }
      else browser
    (browser, some browser.activeTab)

/-- Change the current tab, if there is one. -/
def modifyCurrent (browser : Tabs) (f : Tab → Option Tab) : Option Tabs :=
  match browser.currentTab with
  | (browser, none) => some browser
  | (browser, some i) => browser.modifyTab i f

/-- `browser_open`. -/
def browserOpen (browser : Tabs) : Option Tabs :=
  if browser.tabCount = 0 then
    { browser with tabCount := 1, activeTab := 0 }.modifyTab 0 fun _ => Tab.fresh
  else some browser

/-- `new_tab`. -/
def newTab (browser : Tabs) : Option Tabs :=
  if browser.tabCount ≥ maxTabs then some browser
  else
    { browser with activeTab := browser.tabCount, tabCount := browser.tabCount + 1 }.modifyTab
      browser.tabCount fun _ => Tab.fresh

/-- The loop of `close_tab`. -/
def closeLoop : (steps : Nat) → Tabs → Option Tabs
  | 0, browser => some browser
  | steps + 1, browser => do
      let browser ← closeLoop steps browser
      let i := browser.activeTab + steps
      if 0 ≤ i + 1 ∧ i + 1 < maxTabs then
        browser.modifyTab i fun _ => some (browser.tabs (i + 1))
      else none

/-- `close_tab`.  The last tab is kept. -/
def closeTab (browser : Tabs) : Option Tabs :=
  if browser.tabCount ≤ 1 then some browser
  else do
    let browser ← closeLoop (browser.tabCount - 1 - browser.activeTab).toNat browser
    let tabCount := browser.tabCount - 1
    some
      { browser with
        tabCount
        activeTab := if browser.activeTab ≥ tabCount then tabCount - 1 else browser.activeTab }

/-- The state after an event. -/
def after (browser : Tabs) : BrowserEvent → Option Tabs
  | .openBrowser => browser.browserOpen
  | .navigate raw => browser.modifyCurrent fun tab => tab.navigate raw true
  | .back => browser.modifyCurrent Tab.goBack
  | .forward => browser.modifyCurrent Tab.goForward
  | .reload => browser.modifyCurrent fun tab => tab.navigate tab.address.bytes false
  | .home => browser.modifyCurrent fun tab => tab.navigate homeAddress true
  | .newTab => browser.newTab
  | .closeTab => browser.closeTab
  | .selectTab i => some (if i < browser.tabCount then { browser with activeTab := i } else browser)
  | .edit address addressFocus selectAll =>
      browser.modifyCurrent fun tab => some { tab with address, addressFocus, selectAll }

end Tabs

/-! ## What a tab shows -/

/-- Where `navigate` goes to, unless it is given an empty string. -/
def destination (raw : List UInt8) (history : BoundedHistory (List UInt8) historySize) :
    BoundedHistory (List UInt8) historySize :=
  if cText raw = [] then history else history.visit (qualify raw)

/-- The strings of a tab up to the count are the entries of a history. -/
structure Tab.Shows (tab : Tab) (history : BoundedHistory (List UInt8) historySize) : Prop where
  count : tab.historyCount = history.entries.length
  index : tab.historyIndex = history.cursor
  entries : ∀ (i : Nat) (inside : i < history.entries.length),
    (tab.history i).text = history.entries.get ⟨i, inside⟩

namespace Tab

variable {tab tab' : Tab} {history : BoundedHistory (List UInt8) historySize}

theorem entry_of_inside {i : Int} (first : 0 ≤ i) (last : i < historySize) :
    tab.entry i = some (tab.history i) :=
  if_pos ⟨first, last⟩

theorem setEntry_of_inside {i : Int} (first : 0 ≤ i) (last : i < historySize)
    (text : List UInt8) :
    tab.setEntry i text =
      some { tab with history := Function.update tab.history i ((tab.history i).copy text) } := by
  rw [setEntry, entry_of_inside first last]
  rfl

/-- Each string but the last one gets the text of the next one. -/
theorem shiftLoop_spec (tab : Tab) {steps : Nat} (few : steps < historySize) :
    ∃ strings, shiftLoop steps tab = some { tab with history := strings } ∧
      (∀ k : Nat, k < steps → (strings k).text = (tab.history (k + 1 : Nat)).text) ∧
      ∀ i : Int, steps ≤ i → strings i = tab.history i := by
  induction steps with
  | zero => exact ⟨tab.history, rfl, fun k less => absurd less (Nat.not_lt_zero k), fun _ _ => rfl⟩
  | succ steps ih =>
  obtain ⟨strings, earlier, shifted, kept⟩ := ih (Nat.lt_of_succ_lt few)
  refine ⟨Function.update strings steps
    ((strings steps).copy (strings (steps + 1 : Nat)).bytes), ?_, ?_, ?_⟩
  · simp only [shiftLoop, earlier, Option.bind_eq_bind, Option.bind_some]
    rw [entry_of_inside (by omega) (by omega), Option.bind_some,
      setEntry_of_inside (by omega) (by omega)]
  · intro k less
    by_cases last : k = steps
    · subst last
      rw [Function.update_self, Slot.text_copy_bytes, kept _ (by omega)]
    · rw [Function.update_of_ne (by omega), shifted k (by omega)]
  · intro i later
    rw [Function.update_of_ne (by omega), kept i (by omega)]

theorem Shows.of_same (shows : tab.Shows history) (strings : tab'.history = tab.history)
    (count : tab'.historyCount = tab.historyCount)
    (index : tab'.historyIndex = tab.historyIndex) : tab'.Shows history where
  count := count.trans shows.count
  index := index.trans shows.index
  entries := by
    rw [strings]
    exact shows.entries

/-- The strings of an extended history: those up to the cursor, and the new one. -/
theorem Shows.extended (shows : tab.Shows history) (address : List UInt8) {j : Nat}
    (inside : j < (history.extended address).length) :
    (history.extended address)[j] =
      if j ≤ history.cursor then (tab.history j).text else address := by
  have cursor := history.cursor_lt
  rw [BoundedHistory.length_extended] at inside
  simp only [BoundedHistory.extended]
  by_cases before : j ≤ history.cursor
  · rw [if_pos before, shows.entries j (by omega), List.getElem_append_left, List.getElem_take]
    · rfl
    · rw [List.length_take]
      omega
  · have last : j = (history.entries.take (history.cursor + 1)).length := by
      rw [List.length_take]
      omega
    rw [if_neg before]
    exact List.getElem_concat_length last _

/-- The entries after an address was appended: those up to the cursor, from the first one that is
kept on, and the address. -/
theorem Shows.pushed (shows : tab.Shows history) (address : List UInt8) {i : Nat}
    (inside : i < (history.push address).entries.length) :
    (history.push address).entries.get ⟨i, inside⟩ =
      if history.cursor + 2 - historySize + i ≤ history.cursor then
        (tab.history (history.cursor + 2 - historySize + i : Nat)).text
      else address := by
  rw [List.get_eq_getElem]
  simp only [BoundedHistory.push, List.getElem_drop]
  exact shows.extended address _

/-- An address is appended to the history. -/
theorem Shows.pushEntry (shows : tab.Shows history) {address : List UInt8}
    (isText : IsText address) :
    ∃ tab', tab.pushEntry address = some tab' ∧ tab'.Shows (history.push address) := by
  have inside := history.cursor_lt
  have bounded := history.length_le
  have index := shows.index
  have limit : historySize = 8 := rfl
  by_cases full : tab.historyIndex + 1 ≥ (historySize : Int)
  · obtain ⟨strings, shiftLoop, shifted, -⟩ :=
      shiftLoop_spec { tab with historyIndex := tab.historyIndex + 1 }
        (show historySize - 1 < historySize by decide)
    refine ⟨{ tab with
      history := Function.update strings (historySize - 1 : Nat)
        ((strings (historySize - 1 : Nat)).copy address)
      address := tab.address.copy address
      historyIndex := (historySize - 1 : Nat), historyCount := (historySize - 1 : Nat) + 1 },
      ?_, ?_, ?_, ?_⟩
    · simp only [Tab.pushEntry, if_pos full, shiftLoop, Option.bind_eq_bind, Option.bind_some]
      rw [setEntry_of_inside (by decide) (by decide), Option.bind_some]
    · simp only [BoundedHistory.push, List.length_drop, BoundedHistory.length_extended]
      omega
    · simp only [BoundedHistory.push]
      omega
    · intro i less
      rw [shows.pushed address less]
      simp only [BoundedHistory.push, List.length_drop, BoundedHistory.length_extended] at less
      dsimp only
      by_cases last : i = historySize - 1
      · rw [if_neg (by omega), last, Function.update_self]
        exact Slot.text_copy_of_isText _ isText
      · rw [if_pos (by omega), Function.update_of_ne (by omega), shifted i (by omega)]
        have place : i + 1 = history.cursor + 2 - historySize + i := by omega
        rw [place]
  refine ⟨{ tab with
    history := Function.update tab.history (tab.historyIndex + 1)
      ((tab.history (tab.historyIndex + 1)).copy address)
    address := tab.address.copy address
    historyIndex := tab.historyIndex + 1, historyCount := tab.historyIndex + 1 + 1 },
    ?_, ?_, ?_, ?_⟩
  · simp only [Tab.pushEntry, if_neg full, Option.bind_eq_bind, Option.bind_some]
    rw [setEntry_of_inside (by omega) (by omega), Option.bind_some]
  · simp only [BoundedHistory.push, List.length_drop, BoundedHistory.length_extended]
    omega
  · simp only [BoundedHistory.push]
    omega
  · intro i less
    rw [shows.pushed address less]
    simp only [BoundedHistory.push, List.length_drop, BoundedHistory.length_extended] at less
    dsimp only
    by_cases last : (i : Int) = tab.historyIndex + 1
    · rw [if_neg (by omega), last, Function.update_self]
      exact Slot.text_copy_of_isText _ isText
    · rw [if_pos (by omega), Function.update_of_ne last]
      congr 3
      omega

/-- An address that is the current one is not appended. -/
theorem Shows.historyPush (shows : tab.Shows history) {address : List UInt8}
    (isText : IsText address) :
    ∃ tab', tab.historyPush address = some tab' ∧ tab'.Shows (history.visit address) := by
  have inside := history.cursor_lt
  have bounded := history.length_le
  have count := shows.count
  have current : (tab.history tab.historyIndex).text = history.current := by
    rw [shows.index]
    exact shows.entries history.cursor inside
  have index := shows.index
  rw [Tab.historyPush, if_pos (by omega), entry_of_inside (by omega) (by omega),
    Option.bind_eq_bind, Option.bind_some, current, isText.cText_eq, BoundedHistory.visit]
  by_cases same : history.current = address
  · rw [if_pos same, if_pos same]
    exact ⟨tab, rfl, shows⟩
  · rw [if_neg same, if_neg same]
    exact shows.pushEntry isText

theorem isText_home : IsText homeAddress := by
  constructor
  · have all : homeAddress.all (· != 0) = true := by decide
    intro c mem
    exact bne_iff_ne.mp (List.all_eq_true.mp all c mem)
  · decide

theorem isText_qualify (raw : List UInt8) : IsText (qualify raw) := by
  rw [qualify]
  split
  · constructor
    · intro c mem
      exact cText_plain raw c (List.mem_of_mem_take mem)
    · exact List.length_take_le _ _
  · constructor
    · have all : (ascii "https://").all (· != 0) = true := by decide
      intro c mem
      cases List.mem_append.mp mem with
      | inl front => exact bne_iff_ne.mp (List.all_eq_true.mp all c front)
      | inr rest => exact cText_plain raw c (List.mem_of_mem_take rest)
    · have length : (ascii "https://").length = 8 := by decide
      have limit : urlMax = 127 := rfl
      have short := List.length_take_le (urlMax - 8) (cText raw)
      rw [List.length_append, length]
      omega

theorem Shows.navigate (shows : tab.Shows history) (raw : List UInt8) :
    ∃ tab', tab.navigate raw true = some tab' ∧ tab'.Shows (destination raw history) := by
  rw [Tab.navigate, destination]
  by_cases empty : cText raw = []
  · rw [if_pos empty, if_pos empty]
    exact ⟨tab, rfl, shows⟩
  · rw [if_neg empty, if_neg empty]
    have shows' : { tab with
        address := tab.address.copy (qualify raw), addressFocus := false
        selectAll := false }.Shows history := shows.of_same rfl rfl rfl
    exact shows'.historyPush (isText_qualify raw)

/-- Without a new entry the history stays. -/
theorem Shows.reload (shows : tab.Shows history) (raw : List UInt8) :
    ∃ tab', tab.navigate raw false = some tab' ∧ tab'.Shows history := by
  rw [Tab.navigate]
  split
  · exact ⟨tab, rfl, shows⟩
  · exact ⟨_, rfl, shows.of_same rfl rfl rfl⟩

theorem Shows.goBack (shows : tab.Shows history) :
    ∃ tab', tab.goBack = some tab' ∧ tab'.Shows history.back := by
  have inside := history.cursor_lt
  have bounded := history.length_le
  have index := shows.index
  rw [Tab.goBack]
  by_cases earlier : tab.historyIndex > 0
  · have shows' (address : Slot) :
        { tab with historyIndex := tab.historyIndex - 1, address }.Shows history.back :=
      ⟨shows.count, show tab.historyIndex - 1 = (history.cursor - 1 : Nat) by omega,
        shows.entries⟩
    rw [if_pos earlier]
    simp only [Option.bind_eq_bind]
    rw [entry_of_inside (by omega) (by omega), Option.bind_some]
    exact (shows' _).reload _
  · have first : history.back = history := BoundedHistory.ext rfl (by
      change history.cursor - 1 = history.cursor
      omega)
    rw [if_neg earlier, first]
    exact ⟨tab, rfl, shows⟩

theorem Shows.goForward (shows : tab.Shows history) :
    ∃ tab', tab.goForward = some tab' ∧ tab'.Shows history.forward := by
  have bounded := history.length_le
  have index := shows.index
  have count := shows.count
  rw [Tab.goForward, BoundedHistory.forward]
  by_cases later : tab.historyIndex + 1 < tab.historyCount
  · have more : history.cursor + 1 < history.entries.length := by omega
    have shows' (address : Slot) :
        { tab with historyIndex := tab.historyIndex + 1, address }.Shows
          { history with cursor := history.cursor + 1, cursor_lt := more } :=
      ⟨shows.count, show tab.historyIndex + 1 = (history.cursor + 1 : Nat) by omega,
        shows.entries⟩
    rw [if_pos later, dif_pos more]
    simp only [Option.bind_eq_bind]
    rw [entry_of_inside (by omega) (by omega), Option.bind_some]
    exact (shows' _).reload _
  · rw [if_neg later, dif_neg (by omega)]
    exact ⟨tab, rfl, shows⟩

/-- A new tab shows the start page. -/
theorem fresh_shows : ∃ tab, Tab.fresh = some tab ∧
    tab.Shows (.single homeAddress (show 0 < historySize by decide)) := by
  refine ⟨{ zero with
    address := (zero.address.copy homeAddress).copy homeAddress
    history := Function.update zero.history 0 ((zero.history 0).copy homeAddress)
    historyIndex := 0, historyCount := 1 }, ?_, rfl, rfl, ?_⟩
  · rfl
  · intro i inside
    have first : i = 0 := Nat.lt_one_iff.mp inside
    subst first
    exact Slot.text_copy_of_isText _ isText_home

end Tab

end Charis.Browser
