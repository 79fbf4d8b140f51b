import Charis.Browser.Markup

/-!
# Scripts and styles

The content of a script or a style is meant to have no effect on the text of a page.  The parser
reads it as markup, so that this depends on the markup that it is taken for.
-/

namespace Charis.Browser

open Charis.Lib Charis.Net

/-- An item that has an effect where content is shown. -/
def Item.visible : Item → Bool
  | .char ch => isBlank ch ∨ 0x20 ≤ ch
  | .tag _ name => name ∈ blockNames.map ascii

/-- No item is visible where content is shown. -/
def Unseen (suppressed : Bool) : List Item → Prop
  | [] => True
  | item :: items =>
      (item.suppress suppressed = false → ¬ item.visible) ∧
        Unseen (item.suppress suppressed) items

/-- The elements whose content is not shown. -/
inductive Element where
  | script
  | style

namespace Element

def name : Element → String
  | .script => "script"
  | .style => "style"

def opening (element : Element) : List UInt8 := ascii ("<" ++ element.name ++ ">")
def closing (element : Element) : List UInt8 := ascii ("</" ++ element.name ++ ">")

/-- The content of an element, read as markup together with the tag behind it, leaves no tag and
no comment open, shows nothing outside of hidden content, and is not hidden at its end. -/
structure Hides (element : Element) (body : List UInt8) : Prop where
  ends : (body ++ element.closing).foldl Mode.next .content = .content
  unseen : Unseen true (Mode.items .content (body ++ element.closing))
  shown : (Mode.items .content (body ++ element.closing)).foldl Item.suppress true = false

end Element

namespace Screen

variable {screen : Screen} {item : Item}

/-- An item that is not seen changes at most whether content is shown. -/
theorem display_unseen (outside : screen.entity = none)
    (unseen : item.suppress screen.suppressed = false → ¬ item.visible) :
    screen.display item = { screen with suppressed := item.suppress screen.suppressed } := by
  cases item with
  | tag closing name =>
      unfold display
      dsimp only
      rw [if_neg]
      rintro ⟨shown, block⟩
      exact unseen (Bool.eq_false_iff.mpr shown) (decide_eq_true block)
  | char ch =>
  unfold display
  dsimp only
  split
  · rfl
  next shown =>
    have invisible := unseen (Bool.eq_false_iff.mpr shown)
    simp only [Item.visible, decide_eq_true_eq, not_or] at invisible
    have noReference : ch ≠ '&'.toUInt8 := by
      rintro rfl
      exact invisible.2 (by decide)
    rw [outside]
    dsimp only
    rw [showPlain, if_neg noReference, Preview.appendTextChar, if_neg invisible.1,
      if_neg invisible.2, ← outside]
    rfl

theorem displays_unseen (screen : Screen) {items : List Item} (outside : screen.entity = none)
    (unseen : Unseen screen.suppressed items) :
    items.foldl display screen =
      { screen with suppressed := items.foldl Item.suppress screen.suppressed } := by
  induction items generalizing screen with
  | nil => rfl
  | cons item items ih =>
      rw [List.foldl_cons, display_unseen outside unseen.1]
      exact ih _ outside unseen.2

end Screen

namespace Preview

variable {preview : Preview}

theorem prefix_append (preview : Preview) (ch : UInt8) :
    preview.text.text <+: (preview.append ch).text.text := by
  rw [append, TextBuffer.text_push]
  split
  · exact List.prefix_refl _
  · exact List.prefix_append _ _

theorem prefix_appendTextChar (preview : Preview) (ch : UInt8) :
    preview.text.text <+: (preview.appendTextChar ch).text.text := by
  unfold appendTextChar
  split
  · split
    · exact prefix_append preview _
    · exact List.prefix_refl _
  · split
    · exact prefix_append preview ch
    · exact List.prefix_refl _

theorem prefix_appendBreak (preview : Preview) :
    preview.text.text <+: preview.appendBreak.text.text := by
  unfold appendBreak
  split
  · exact prefix_append preview _
  · exact List.prefix_refl _

/-- A reference that is shown begins with its first character. -/
theorem prefix_appendReference (preview : Preview) (entity : List UInt8) :
    (preview.appendTextChar '&'.toUInt8).text.text <+:
      (preview.appendReference entity).text.text := by
  unfold appendReference
  generalize preview.appendTextChar '&'.toUInt8 = opened
  induction entity generalizing opened with
  | nil => exact List.prefix_refl _
  | cons ch entity ih => exact (prefix_appendTextChar opened ch).trans (ih _)

/-- A text of one letter, after which nothing has been shown. -/
structure OneLetter (preview : Preview) : Prop where
  text : preview.text.text = ascii "a"
  lastSpace : preview.lastSpace = false

theorem OneLetter.append (one : preview.OneLetter) (ch : UInt8) :
    (preview.append ch).text.text = ascii "a" ++ [ch] := by
  have length : preview.text.length = 1 := by rw [← TextBuffer.length_text, one.text]; rfl
  rw [Preview.append, TextBuffer.text_push, if_neg (by rw [length]; decide), one.text]

theorem OneLetter.filled (one : preview.OneLetter) :
    preview.text.length ≠ 0 ∧ preview.text.last ≠ '\n'.toUInt8 := by
  have length : preview.text.length = 1 := by rw [← TextBuffer.length_text, one.text]; rfl
  have filled : preview.text.length ≠ 0 := by
    rw [length]
    decide
  have last := TextBuffer.last_eq filled
  rw [one.text] at last
  have letter : 'a'.toUInt8 = preview.text.last := Option.some.inj last
  rw [← letter, length]
  decide

theorem OneLetter.appendTextChar (one : preview.OneLetter) {ch : UInt8}
    (visible : isBlank ch ∨ 0x20 ≤ ch) :
    (preview.appendTextChar ch).text.text =
      ascii "a" ++ [if isBlank ch then ' '.toUInt8 else ch] := by
  unfold Preview.appendTextChar
  split
  next blank =>
    have fresh : preview.text.length ≠ 0 ∧ ¬ preview.lastSpace ∧
        preview.text.last ≠ '\n'.toUInt8 :=
      ⟨one.filled.1, by rw [one.lastSpace]; exact Bool.false_ne_true, one.filled.2⟩
    rw [if_pos fresh]
    exact one.append _
  next plain =>
    rw [if_pos (visible.resolve_left plain)]
    exact one.append ch

theorem OneLetter.appendBreak (one : preview.OneLetter) :
    preview.appendBreak.text.text = ascii "a" ++ ['\n'.toUInt8] := by
  rw [Preview.appendBreak, if_pos one.filled]
  exact one.append _

end Preview

theorem remoteCodePoint_visible (value : Nat) : 0x20 ≤ remoteCodePoint value := by
  unfold remoteCodePoint
  split
  · decide
  split
  next ascii =>
    rw [UInt8.le_iff_toNat_le, UInt8.toNat_ofNat', Nat.mod_eq_of_lt (by omega)]
    exact ascii.1
  split
  · decide
  split
  · decide
  split
  · decide
  split
  · decide
  split
  · decide
  split
  · decide
  · decide

theorem remoteNumber_visible {base : Nat} {digits : List UInt8} {decoded : UInt8}
    (decodes : remoteNumber base digits = some decoded) : 0x20 ≤ decoded := by
  unfold remoteNumber at decodes
  split at decodes
  · cases decodes
  split at decodes
  · cases decodes
  split at decodes
  · cases decodes
  · rw [Option.some.injEq] at decodes
    rw [← decodes]
    exact remoteCodePoint_visible _

/-- The character that a reference stands for can be seen. -/
theorem remoteDecodeEntity_visible {entity : List UInt8} {decoded : UInt8}
    (decodes : remoteDecodeEntity entity = some decoded) : 0x20 ≤ decoded := by
  unfold remoteDecodeEntity at decodes
  split at decodes
  · cases decodes
  split at decodes
  · split at decodes
    · split at decodes
      · exact remoteNumber_visible decodes
      · exact remoteNumber_visible decodes
    · exact remoteNumber_visible decodes
  · obtain ⟨name, found, rfl⟩ := Option.map_eq_some_iff.mp decodes
    have visible : ∀ name ∈ remoteNames, 0x20 ≤ name.2.toUInt8 := by decide
    exact visible name (List.mem_of_find?_eq_some found)

namespace Screen

variable {screen : Screen} {item : Item}

theorem prefix_showPlain (screen : Screen) (ch : UInt8) :
    screen.preview.text.text <+: (screen.showPlain ch).preview.text.text := by
  unfold showPlain
  split
  · exact List.prefix_refl _
  · exact Preview.prefix_appendTextChar _ ch

theorem prefix_showInEntity (screen : Screen) (entity : List UInt8) (ch : UInt8) :
    screen.preview.text.text <+: (screen.showInEntity entity ch).preview.text.text := by
  have shown := (Preview.prefix_appendTextChar _ _).trans
    (screen.preview.prefix_appendReference entity)
  unfold showInEntity
  split
  · dsimp only
    split
    · exact Preview.prefix_appendTextChar _ _
    · exact shown.trans (Preview.prefix_appendTextChar _ _)
  split
  · exact List.prefix_refl _
  · exact shown.trans (prefix_showPlain { screen with entity := none, preview := _ } ch)

theorem prefix_display (screen : Screen) (item : Item) :
    screen.preview.text.text <+: (screen.display item).preview.text.text := by
  unfold display
  split
  · split
    · exact List.prefix_refl _
    split
    · exact prefix_showInEntity screen _ _
    · exact prefix_showPlain screen _
  · dsimp only
    split
    · exact Preview.prefix_appendBreak _
    · exact List.prefix_refl _

/-- Something has been added to a text of one letter, or a reference is open after it. -/
inductive Seen (screen : Screen) : Prop
  | longer : 2 ≤ screen.preview.text.text.length → Seen screen
  | pending (entity : List UInt8) :
      screen.preview.OneLetter → screen.entity = some entity → Seen screen

/-- A reference that is shown makes the text longer. -/
theorem OneLetter.reference (one : screen.preview.OneLetter) (entity : List UInt8) :
    2 ≤ (screen.preview.appendReference entity).text.text.length := by
  have opened := (screen.preview.prefix_appendReference entity).length_le
  rwa [one.appendTextChar (.inr (by decide))] at opened

theorem Seen.showPlain (one : screen.preview.OneLetter) {ch : UInt8}
    (visible : isBlank ch ∨ 0x20 ≤ ch) : (screen.showPlain ch).Seen := by
  unfold Screen.showPlain
  split
  · exact .pending [] one rfl
  · apply Seen.longer
    dsimp only
    rw [one.appendTextChar visible]
    exact le_rfl

theorem Seen.showInEntity (one : screen.preview.OneLetter) (entity : List UInt8) (ch : UInt8) :
    (screen.showInEntity entity ch).Seen := by
  unfold Screen.showInEntity
  split
  · apply Seen.longer
    dsimp only
    split
    next decoded decodes =>
      rw [one.appendTextChar (.inr (remoteDecodeEntity_visible decodes))]
      exact le_rfl
    · exact (OneLetter.reference one entity).trans (Preview.prefix_appendTextChar _ _).length_le
  split
  · exact .pending _ one rfl
  · have longer := prefix_showPlain
      { screen with entity := none, preview := screen.preview.appendReference entity } ch
    exact .longer ((OneLetter.reference one entity).trans longer.length_le)

theorem Seen.display (seen : screen.Seen) (item : Item) : (screen.display item).Seen := by
  cases seen with
  | longer long => exact .longer (long.trans (screen.prefix_display item).length_le)
  | pending entity one opened =>
  cases item with
  | char ch =>
      unfold Screen.display
      dsimp only
      rw [opened]
      split
      · exact .pending entity one opened
      · exact Seen.showInEntity one entity ch
  | tag closing name =>
  unfold Screen.display
  dsimp only
  split
  · apply Seen.longer
    dsimp only
    rw [one.appendBreak]
    exact le_rfl
  · exact .pending entity one opened

theorem Seen.displays (seen : screen.Seen) (items : List Item) :
    (items.foldl Screen.display screen).Seen := by
  induction items generalizing screen with
  | nil => exact seen
  | cons item items ih => exact ih (seen.display item)

theorem Seen.of_visible (one : screen.preview.OneLetter) (outside : screen.entity = none)
    (shown : item.suppress screen.suppressed = false) (visible : item.visible) :
    (screen.display item).Seen := by
  cases item with
  | char ch =>
      have shown : screen.suppressed = false := shown
      rw [Item.visible, decide_eq_true_eq] at visible
      unfold Screen.display
      dsimp only
      rw [shown, if_neg Bool.false_ne_true, outside]
      exact Seen.showPlain one visible
  | tag closing name =>
  apply Seen.longer
  unfold Screen.display
  dsimp only
  rw [if_pos ⟨by rw [shown]; exact Bool.false_ne_true, of_decide_eq_true visible⟩,
    one.appendBreak]
  exact le_rfl

theorem Seen.of_items (screen : Screen) {items : List Item} (one : screen.preview.OneLetter)
    (outside : screen.entity = none) (seen : ¬ Unseen screen.suppressed items) :
    (items.foldl Screen.display screen).Seen := by
  induction items generalizing screen with
  | nil => exact absurd trivial seen
  | cons item items ih =>
      by_cases first : item.suppress screen.suppressed = false → ¬ item.visible
      · rw [List.foldl_cons, display_unseen outside first]
        exact ih _ one outside fun rest => seen ⟨first, rest⟩
      · obtain ⟨shown, visible⟩ := Classical.not_imp.mp first
        exact (Seen.of_visible one outside shown (not_not.mp visible)).displays items

end Screen

/-! ## The content of an element -/

namespace Remote

/-- The parser is outside of tags, comments, references and hidden content. -/
structure Neutral (remote : Remote) : Prop where
  inTag : remote.inTag = false
  inComment : remote.inComment = false
  inEntity : remote.inEntity = false
  suppressContent : remote.suppressContent = false

variable {remote : Remote}

theorem Neutral.mode (neutral : remote.Neutral) : remote.mode = .content := by
  rw [Remote.mode, neutral.inComment, neutral.inTag]
  rfl

theorem Neutral.entity (neutral : remote.Neutral) : remote.screen.entity = none := by
  rw [Remote.screen, neutral.inEntity]
  rfl

theorem Neutral.body_letter (neutral : remote.Neutral) :
    (remote.body (some (ascii "x"))).preview = remote.preview.appendTextChar 'x'.toUInt8 := by
  have read : remote.body (some (ascii "x")) = remote.byte 'x'.toUInt8 := rfl
  rw [read, Remote.byte, neutral.inComment, neutral.inTag, neutral.suppressContent,
    neutral.inEntity]
  rfl

/-- After the opening tag of an element the content is hidden. -/
theorem opened (marked : remote.Marked) (neutral : remote.Neutral) (element : Element) :
    (remote.body (some element.opening)).Marked ∧
      (remote.body (some element.opening)).mode = .content ∧
      (remote.body (some element.opening)).screen = { remote.screen with suppressed := true } := by
  obtain ⟨marked', mode, screen⟩ := marked.body element.opening
  have read : element.opening.foldl Mode.next .content = .content ∧
      Mode.items .content element.opening = [.tag false (ascii element.name)] := by
    cases element with
    | script => decide
    | style => decide
  rw [neutral.mode, read.1] at mode
  rw [neutral.mode, read.2] at screen
  refine ⟨marked', mode, screen.trans ?_⟩
  have hidden : ascii element.name ∈ hiddenNames := by
    cases element with
    | script => decide
    | style => decide
  rw [List.foldl_cons, List.foldl_nil, Screen.display, if_neg, Item.suppress, if_pos hidden]
  · rfl
  · rw [Item.suppress, if_pos hidden]
    exact fun shown => shown.1 rfl

/-- The items of the content of an element are displayed as hidden. -/
theorem enclosed (marked : remote.Marked) (neutral : remote.Neutral) (element : Element)
    (body : List UInt8) :
    (remote.body (some (element.opening ++ body ++ element.closing))).Marked ∧
      (remote.body (some (element.opening ++ body ++ element.closing))).mode =
        (body ++ element.closing).foldl Mode.next .content ∧
      (remote.body (some (element.opening ++ body ++ element.closing))).screen =
        (Mode.items .content (body ++ element.closing)).foldl Screen.display
          { remote.screen with suppressed := true } := by
  obtain ⟨marked', mode, screen⟩ := opened marked neutral element
  rw [List.append_assoc, body_append]
  have read := marked'.body (body ++ element.closing)
  rw [← mode, ← screen]
  exact ⟨read.marked, read.mode, read.screen⟩

theorem one_letter (remote : Remote) :
    (remote.reset.body (some (ascii "a"))).Neutral ∧
      (remote.reset.body (some (ascii "a"))).preview.OneLetter :=
  ⟨⟨rfl, rfl, rfl, rfl⟩, ⟨rfl, rfl⟩⟩

end Remote

/-- Content that hides leaves the parser as it was. -/
theorem Element.Hides.preview {element : Element} {body : List UInt8}
    (hides : element.Hides body) {remote : Remote} (marked : remote.Marked)
    (neutral : remote.Neutral) (post : List UInt8) :
    (remote.body (some (element.opening ++ body ++ element.closing ++ post))).preview =
      (remote.body (some post)).preview := by
  obtain ⟨marked', mode, screen⟩ := Remote.enclosed marked neutral element body
  have hidden := Screen.displays_unseen { remote.screen with suppressed := true } neutral.entity
    hides.unseen
  rw [hides.ends, ← neutral.mode] at mode
  rw [hidden, hides.shown, ← neutral.suppressContent] at screen
  have same : (remote.body (some (element.opening ++ body ++ element.closing ++ post))).screen =
      (remote.body (some post)).screen := by
    rw [Remote.body_append, (marked'.body post).screen, (marked.body post).screen, mode, screen]
    rfl
  exact congrArg Screen.preview same

theorem Screen.letter_in_reference {screen : Screen} (one : screen.preview.OneLetter)
    (entity : List UInt8) :
    (screen.showInEntity entity 'x'.toUInt8).preview.text.text ≠ ascii "ax" := by
  intro added
  unfold Screen.showInEntity at added
  rw [if_neg (by decide)] at added
  split at added
  · have impossible := one.text.symm.trans added
    exact absurd impossible (by decide)
  · have opened := (screen.preview.prefix_appendReference entity).trans
      (Screen.prefix_showPlain
        { screen with entity := none, preview := screen.preview.appendReference entity }
        'x'.toUInt8)
    rw [added, one.appendTextChar (.inr (by decide))] at opened
    have same := opened.eq_of_length rfl
    exact absurd same (by decide)

/-- Where a letter is added to a text of one letter, the parser shows what it reads. -/
theorem Remote.Marked.of_letter {remote : Remote} (marked : remote.Marked)
    (one : remote.preview.OneLetter)
    (added : (remote.body (some (ascii "x"))).preview.text.text = ascii "ax") :
    remote.mode = .content ∧ remote.screen.suppressed = false ∧ remote.screen.entity = none := by
  have shown := (marked.body (ascii "x")).screen
  have text :
      ((remote.mode.items (ascii "x")).foldl Screen.display remote.screen).preview.text.text =
      ascii "ax" := by
    rw [← shown]
    exact added
  have silent : remote.screen.preview.text.text ≠ ascii "ax" := by
    intro same
    have impossible := one.text.symm.trans same
    exact absurd impossible (by decide)
  cases mode : remote.mode with
  | tag probe closing name done =>
      rw [mode] at text
      exact absurd text silent
  | comment dashes =>
      rw [mode] at text
      exact absurd text silent
  | content =>
  rw [mode] at text
  have displayed : (remote.screen.display (.char 'x'.toUInt8)).preview.text.text =
      ascii "ax" := text
  unfold Screen.display at displayed
  dsimp only at displayed
  split at displayed
  · exact absurd displayed silent
  next shown =>
    cases entity : remote.screen.entity with
    | none => exact ⟨rfl, Bool.eq_false_iff.mpr shown, rfl⟩
    | some entity' =>
        rw [entity] at displayed
        exact absurd displayed (Screen.letter_in_reference one entity')

theorem Element.Hides.of_letter {element : Element} {body : List UInt8} {remote : Remote}
    (marked : remote.Marked) (neutral : remote.Neutral) (one : remote.preview.OneLetter)
    (same : ∀ post,
      (remote.body (some (element.opening ++ body ++ element.closing ++ post))).preview.text.text =
        (remote.body (some post)).preview.text.text) : element.Hides body := by
  obtain ⟨marked', mode, screen⟩ := Remote.enclosed marked neutral element body
  generalize hidden : remote.body (some (element.opening ++ body ++ element.closing)) = remote'
    at marked' mode screen
  -- nothing has been added to the text
  have quiet : remote'.preview.text.text = ascii "a" := by
    have nothing := same []
    rw [List.append_nil, hidden] at nothing
    exact nothing.trans one.text
  -- and a letter behind the element is
  have added : (remote'.body (some (ascii "x"))).preview.text.text = ascii "ax" := by
    rw [← hidden, ← Remote.body_append, same (ascii "x")]
    rw [neutral.body_letter, one.appendTextChar (.inr (by decide))]
    decide
  by_cases unseen : Unseen true (Mode.items .content (body ++ element.closing))
  · have kept := Screen.displays_unseen { remote.screen with suppressed := true } neutral.entity
      unseen
    rw [kept] at screen
    have one' : remote'.preview.OneLetter := by
      have preview : remote'.preview = remote.preview := congrArg Screen.preview screen
      rwa [preview]
    obtain ⟨ends, shown, _⟩ := marked'.of_letter one' added
    constructor
    · rw [← mode, ends]
    · exact unseen
    · rw [screen] at shown
      exact shown
  have seen : remote'.screen.Seen := by
    rw [screen]
    exact Screen.Seen.of_items { remote.screen with suppressed := true } one neutral.entity
      unseen
  cases seen with
  | longer long =>
      have short : remote'.screen.preview.text.text = ascii "a" := quiet
      rw [short] at long
      exact absurd long (by decide)
  | pending entity one' opened =>
      obtain ⟨_, _, closed⟩ := marked'.of_letter one' added
      rw [opened] at closed
      cases closed

/-- The content of an element has no effect on the text of any page exactly when, read as markup,
it shows nothing and ends with the element. -/
theorem hides_iff (remote : Remote) (element : Element) (body : List UInt8) :
    (∀ pre post, (remote.reset.body (some pre)).Neutral →
        (remote.reset.body (some (pre ++ element.opening ++ body ++ element.closing ++
          post))).preview.text.text =
        (remote.reset.body (some (pre ++ post))).preview.text.text) ↔
      element.Hides body := by
  have split : ∀ pre post,
      remote.reset.body (some (pre ++ element.opening ++ body ++ element.closing ++ post)) =
        (remote.reset.body (some pre)).body
          (some (element.opening ++ body ++ element.closing ++ post)) := by
    intro pre post
    rw [← Remote.body_append]
    simp only [List.append_assoc]
  constructor
  · intro same
    obtain ⟨neutral, one⟩ := remote.one_letter
    have marked := ((Remote.Marked.reset remote).body (ascii "a")).marked
    apply Element.Hides.of_letter marked neutral one
    intro post
    rw [← split, same (ascii "a") post neutral, Remote.body_append]
  · intro hides pre post neutral
    have marked := ((Remote.Marked.reset remote).body pre).marked
    rw [split, hides.preview marked neutral post, Remote.body_append]

/-- A script in which numbers are compared hides the page behind it. -/
theorem comparison_swallows :
    ¬ (ascii "</script").map remoteLower <:+: (ascii "a<b").map remoteLower ∧
      (Remote.static.reset.body (some [])).Neutral ∧
      (Remote.static.reset.body (some ([] ++ Element.script.opening ++ ascii "a<b" ++
          Element.script.closing ++ ascii "text"))).preview.text.text ≠
        (Remote.static.reset.body (some ([] ++ ascii "text"))).preview.text.text := by
  refine ⟨by decide, ⟨rfl, rfl, rfl, rfl⟩, ?_⟩
  decide

end Charis.Browser
