import Charis.Browser.PreviewSafety

/-!
# What the parser sees in a page

A page is a sequence of characters and tags; comments are left out.  The parser finds them byte
by byte, and shows each of them as soon as it is complete.
-/

namespace Charis.Browser

open Charis.Lib Charis.Net Charis.Text

/-- A character or a tag of a page. -/
inductive Item where
  | char (ch : UInt8)
  | tag (closing : Bool) (name : List UInt8)
  deriving DecidableEq

/-- Where the parser is in the markup.  A tag may turn out to be a comment, of which `probe` bytes
have been seen. -/
inductive Mode where
  | content
  | tag (probe : Nat) (closing : Bool) (name : List UInt8) (done : Bool)
  | comment (dashes : Nat)
  deriving DecidableEq

namespace Mode

/-- The tag after a byte that is neither its end nor part of the mark of a comment. -/
def afterTagByte (probe : Nat) (closing : Bool) (name : List UInt8) (done : Bool) (ch : UInt8) :
    Mode :=
  if ch = '/'.toUInt8 ∧ name = [] ∧ ¬ done then .tag probe true name done
  else if isBlank ch ∨ ch = '/'.toUInt8 then .tag probe closing name (done || name ≠ [])
  else if ¬ done ∧ isNameChar ch ∧ name.length + 1 < remoteTagSize then
    .tag probe closing (name ++ [remoteLower ch]) done
  else .tag probe closing name done

def next (mode : Mode) (ch : UInt8) : Mode :=
  match mode with
  | .content => if ch = '<'.toUInt8 then .tag 0 false [] false else .content
  | .tag probe closing name done =>
      if ch = '>'.toUInt8 then .content
      else if probe = 0 ∧ ch = '!'.toUInt8 ∧ name = [] ∧ ¬ closing then .tag 1 closing name done
      else if probe = 1 ∧ ch = '-'.toUInt8 then .tag 2 closing name done
      else if probe = 2 ∧ ch = '-'.toUInt8 then .comment 0
      else afterTagByte (if probe = 1 ∨ probe = 2 then 0 else probe) closing name done ch
  | .comment dashes =>
      if ch = '-'.toUInt8 then .comment (if dashes < 2 then dashes + 1 else dashes)
      else if ch = '>'.toUInt8 ∧ 2 ≤ dashes then .content
      else .comment 0

/-- The item that is complete with a byte. -/
def item (mode : Mode) (ch : UInt8) : Option Item :=
  match mode with
  | .content => if ch = '<'.toUInt8 then none else some (.char ch)
  | .tag _ closing name _ => if ch = '>'.toUInt8 then some (.tag closing name) else none
  | .comment _ => none

/-- The items of some bytes of a page. -/
def items (mode : Mode) : List UInt8 → List Item
  | [] => []
  | ch :: data => (mode.item ch).toList ++ (mode.next ch).items data

end Mode

/-- What an item has an effect on. -/
structure Screen where
  preview : Preview
  suppressed : Bool
  entity : Option (List UInt8)

instance names_lawfulBEq : LawfulBEq (List UInt8) := inferInstance

/-- The names of the tags around content that is not shown. -/
def hiddenNames : List (List UInt8) := [ascii "script", ascii "style"]

/-- Whether what follows is hidden. -/
def Item.suppress (suppressed : Bool) : Item → Bool
  | .char _ => suppressed
  | .tag closing name => if name ∈ hiddenNames then !closing else suppressed

namespace Screen

/-- A character outside of references. -/
def showPlain (screen : Screen) (ch : UInt8) : Screen :=
  if ch = '&'.toUInt8 then { screen with entity := some [] }
  else { screen with preview := screen.preview.appendTextChar ch }

/-- A character in a reference. -/
def showInEntity (screen : Screen) (entity : List UInt8) (ch : UInt8) : Screen :=
  if ch = ';'.toUInt8 then
    { screen with
      entity := none
      preview :=
        match remoteDecodeEntity entity with
        | some decoded => screen.preview.appendTextChar decoded
        | none => (screen.preview.appendReference entity).appendTextChar ';'.toUInt8 }
  else if (isNameChar ch ∨ ch = '#'.toUInt8) ∧ entity.length + 1 < remoteEntitySize then
    { screen with entity := some (entity ++ [ch]) }
  else
    { screen with entity := none, preview := screen.preview.appendReference entity }.showPlain ch

def display (screen : Screen) (item : Item) : Screen :=
  match item with
  | .char ch =>
      if screen.suppressed then screen
      else
        match screen.entity with
        | some entity => screen.showInEntity entity ch
        | none => screen.showPlain ch
  | .tag _ name =>
      let suppressed := item.suppress screen.suppressed
      { screen with
        suppressed
        preview :=
          if ¬ suppressed ∧ name ∈ blockNames.map ascii then screen.preview.appendBreak
          else screen.preview }

end Screen

/-! ## The parser finds the items and shows them -/

/-- A text in a buffer is equal to a string without zero bytes. -/
theorem kstrcmp_text {size : Nat} {buffer : TextBuffer size} (terminated : buffer.Terminated)
    (plain : ∀ ch ∈ buffer.text, ch ≠ 0) {b : List UInt8} (plainB : ∀ c ∈ b, c ≠ 0) :
    kstrcmp buffer.bytes 0 b = 0 ↔ buffer.text = b := by
  have spells : Spells buffer.bytes 0 buffer.text := by
    apply Spells.of_getD plain
    intro k upto
    rw [TextBuffer.length_text] at upto
    rcases upto.lt_or_eq with inside | rfl
    · rw [TextBuffer.text, ByteMemory.getD_loadBytes inside]
    · rw [Nat.zero_add, terminated.ends, List.getD_eq_default]
      exact TextBuffer.length_text.le
  rw [kstrcmp_eq_zero spells plainB, eq_comm]

namespace Remote

variable {remote : Remote}

/-- Where the parser is. -/
def mode (remote : Remote) : Mode :=
  if remote.inComment then .comment remote.commentDashCount
  else if remote.inTag then
    .tag remote.commentProbe remote.closingTag remote.tagName.text remote.tagNameDone
  else .content

def screen (remote : Remote) : Screen :=
  { preview := remote.preview
    suppressed := remote.suppressContent
    entity := if remote.inEntity then some remote.entity.text else none }

/-- The name of a tag is a string, and a comment is not in a tag. -/
structure Marked (remote : Remote) : Prop where
  tagName : remote.tagName.Terminated
  plain : ∀ ch ∈ remote.tagName.text, ch ≠ 0
  apart : remote.inComment → ¬ remote.inTag

theorem Marked.tagIs (marked : remote.Marked) {names : List String}
    (plain : ∀ name ∈ names.map ascii, ∀ ch ∈ name, ch ≠ 0) :
    remote.tagIs names ↔ remote.tagName.text ∈ names.map ascii := by
  rw [Remote.tagIs, List.any_eq_true, List.mem_map]
  constructor
  · rintro ⟨name, mem, same⟩
    refine ⟨name, mem, ?_⟩
    have named := plain _ (List.mem_map_of_mem mem)
    exact ((kstrcmp_text marked.tagName marked.plain named).mp (of_decide_eq_true same)).symm
  · rintro ⟨name, mem, same⟩
    refine ⟨name, mem, ?_⟩
    have named := plain _ (List.mem_map_of_mem mem)
    exact decide_eq_true ((kstrcmp_text marked.tagName marked.plain named).mpr same.symm)

/-- A byte moves the parser in the markup, and the item that is complete with it is shown. -/
structure Reads (remote remote' : Remote) (ch : UInt8) : Prop where
  marked : remote'.Marked
  mode : remote'.mode = remote.mode.next ch
  screen : remote'.screen = (remote.mode.item ch).elim remote.screen remote.screen.display

theorem Marked.commentByte (marked : remote.Marked) (inComment : remote.inComment) (ch : UInt8) :
    remote.Reads (remote.commentByte ch) ch := by
  obtain ⟨tagName, plain, apart⟩ := marked
  have outside : remote.inTag = false := Bool.eq_false_iff.mpr (apart inComment)
  have mode : remote.mode = .comment remote.commentDashCount := if_pos inComment
  unfold Remote.commentByte
  split
  next dash =>
    split
    next few =>
      constructor
      · exact ⟨tagName, plain, apart⟩
      · rw [mode, Mode.next, if_pos dash, if_pos few]
        exact if_pos inComment
      · rw [mode]
        rfl
    next many =>
      constructor
      · exact ⟨tagName, plain, apart⟩
      · rw [mode, Mode.next, if_pos dash, if_neg many]
      · rw [mode]
        rfl
  next noDash =>
    split
    next ends =>
      constructor
      · exact ⟨tagName, plain, fun impossible => by cases impossible⟩
      · rw [mode, Mode.next, if_neg noDash, if_pos ends]
        exact (if_neg Bool.false_ne_true).trans (if_neg (by simpa using outside))
      · rw [mode]
        rfl
    next stays =>
      constructor
      · exact ⟨tagName, plain, apart⟩
      · rw [mode, Mode.next, if_neg noDash, if_neg stays]
        exact if_pos inComment
      · rw [mode]
        rfl

theorem plain_hiddenNames : ∀ name ∈ ["script", "style"].map ascii, ∀ ch ∈ name, ch ≠ 0 := by
  decide +kernel

theorem plain_blockNames : ∀ name ∈ blockNames.map ascii, ∀ ch ∈ name, ch ≠ 0 := by
  decide +kernel

theorem Marked.suppress (marked : remote.Marked) :
    remote.switchContent =
      { remote with
        suppressContent :=
          (Item.tag remote.closingTag remote.tagName.text).suppress remote.suppressContent } := by
  have hidden : remote.tagIs ["script", "style"] ↔ remote.tagName.text ∈ hiddenNames :=
    marked.tagIs plain_hiddenNames
  unfold Remote.switchContent
  rw [Item.suppress]
  split
  next isHidden => rw [if_pos (hidden.mp isHidden)]
  next notHidden => rw [if_neg fun isHidden => notHidden (hidden.mpr isHidden)]

theorem Marked.closeTag (marked : remote.Marked) (noComment : ¬ remote.inComment) :
    remote.closeTag.Marked ∧ remote.closeTag.mode = .content ∧
      remote.closeTag.screen =
        remote.screen.display (.tag remote.closingTag remote.tagName.text) := by
  have block : remote.blockTag ↔ remote.tagName.text ∈ blockNames.map ascii :=
    marked.tagIs plain_blockNames
  have cleared : remote.tagName.clear.Terminated := .clear (by decide)
  have empty : ∀ ch ∈ remote.tagName.clear.text, ch ≠ 0 := by
    intro ch impossible
    cases impossible
  unfold Remote.closeTag Remote.breakBlock
  rw [marked.suppress]
  split
  next shown =>
    refine ⟨⟨cleared, empty, fun _ => Bool.false_ne_true⟩, ?_, ?_⟩
    · exact (if_neg noComment).trans (if_neg Bool.false_ne_true)
    · rw [Screen.display, if_pos ⟨shown.1, block.mp shown.2⟩]
      rfl
  next hidden =>
    refine ⟨⟨cleared, empty, fun _ => Bool.false_ne_true⟩, ?_, ?_⟩
    · exact (if_neg noComment).trans (if_neg Bool.false_ne_true)
    · rw [Screen.display, if_neg fun shown => hidden ⟨shown.1, block.mpr shown.2⟩]
      rfl

/-- A letter or digit is not the byte at the end of a string. -/
theorem remoteLower_ne_zero {ch : UInt8} (named : isNameChar ch) : remoteLower ch ≠ 0 := by
  revert ch
  decide +kernel

theorem Marked.tagNameByte (marked : remote.Marked) (noComment : ¬ remote.inComment)
    (inTag : remote.inTag) {ch : UInt8} (inside : ch ≠ '>'.toUInt8) :
    (remote.tagNameByte ch).Marked ∧
      (remote.tagNameByte ch).mode =
        Mode.afterTagByte remote.commentProbe remote.closingTag remote.tagName.text
          remote.tagNameDone ch ∧
      (remote.tagNameByte ch).screen = remote.screen := by
  obtain ⟨tagName, plain, apart⟩ := marked
  have empty : remote.tagName.text = [] ↔ remote.tagName.length = 0 := by
    rw [← List.length_eq_zero_iff, TextBuffer.length_text]
  unfold Remote.tagNameByte Mode.afterTagByte
  simp only [if_neg inside, empty, TextBuffer.length_text]
  split
  · exact ⟨⟨tagName, plain, apart⟩, (if_neg noComment).trans (if_pos inTag), rfl⟩
  split
  · split
    next named =>
      refine ⟨⟨tagName, plain, apart⟩, ((if_neg noComment).trans (if_pos inTag)).trans ?_, rfl⟩
      simp [empty, named]
    next unnamed =>
      refine ⟨⟨tagName, plain, apart⟩, ((if_neg noComment).trans (if_pos inTag)).trans ?_, rfl⟩
      simp [empty, unnamed]
  split
  next added =>
    refine ⟨⟨tagName.push _, ?_, apart⟩, ((if_neg noComment).trans (if_pos inTag)).trans ?_, rfl⟩
    · intro other mem
      rcases TextBuffer.mem_text_push mem with old | rfl
      · exact plain other old
      · exact remoteLower_ne_zero added.2
    · rw [TextBuffer.text_push]
      by_cases room : remote.tagName.length + 1 < remoteTagSize
      · rw [if_neg (not_le.mpr room), if_pos ⟨added.1, added.2, room⟩]
      · rw [if_pos (not_lt.mp room), if_neg fun both => room both.2.2]
  next skipped =>
    refine ⟨⟨tagName, plain, apart⟩, ((if_neg noComment).trans (if_pos inTag)).trans ?_, rfl⟩
    rw [if_neg fun added => skipped ⟨added.1, added.2.1⟩]

theorem Marked.tagByte (marked : remote.Marked) (noComment : ¬ remote.inComment)
    (inTag : remote.inTag) (ch : UInt8) : remote.Reads (remote.tagByte ch) ch := by
  have mode : remote.mode =
      .tag remote.commentProbe remote.closingTag remote.tagName.text remote.tagNameDone :=
    (if_neg noComment).trans (if_pos inTag)
  have empty : remote.tagName.text = [] ↔ remote.tagName.length = 0 := by
    rw [← List.length_eq_zero_iff, TextBuffer.length_text]
  have ⟨tagName, plain, apart⟩ := marked
  have unprobed : { remote with commentProbe := 0 }.Marked := ⟨tagName, plain, apart⟩
  by_cases ends : ch = '>'.toUInt8
  · have item : remote.mode.item ch =
        some (.tag remote.closingTag remote.tagName.text) := by
      rw [mode]
      exact if_pos ends
    have next : remote.mode.next ch = .content := by
      rw [mode]
      exact if_pos ends
    suffices closed : (remote.tagByte ch).Marked ∧ (remote.tagByte ch).mode = .content ∧
        (remote.tagByte ch).screen =
          remote.screen.display (.tag remote.closingTag remote.tagName.text) by
      refine ⟨closed.1, closed.2.1.trans next.symm, ?_⟩
      rw [item]
      exact closed.2.2
    have noMark : '>'.toUInt8 ≠ '!'.toUInt8 := by decide
    have noDash : '>'.toUInt8 ≠ '-'.toUInt8 := by decide
    unfold Remote.tagByte
    rw [ends, if_neg fun mark => noMark mark.2.1, if_neg fun mark => noDash mark.2,
      if_neg fun mark => noDash mark.2]
    split
    · exact unprobed.closeTag noComment
    · exact marked.closeTag noComment
  have noItem : remote.mode.item ch = none := by
    rw [mode]
    exact if_neg ends
  suffices reads : (remote.tagByte ch).Marked ∧ (remote.tagByte ch).mode = remote.mode.next ch ∧
      (remote.tagByte ch).screen = remote.screen by
    refine ⟨reads.1, reads.2.1, ?_⟩
    rw [noItem]
    exact reads.2.2
  rw [mode, Mode.next, if_neg ends]
  simp only [empty]
  unfold Remote.tagByte
  split
  · exact ⟨⟨tagName, plain, apart⟩, (if_neg noComment).trans (if_pos inTag), rfl⟩
  split
  · exact ⟨⟨tagName, plain, apart⟩, (if_neg noComment).trans (if_pos inTag), rfl⟩
  split
  · exact ⟨⟨tagName, plain, fun _ => Bool.false_ne_true⟩, if_pos rfl, rfl⟩
  split
  next probe =>
    exact unprobed.tagNameByte noComment inTag ends
  next probe =>
    exact marked.tagNameByte noComment inTag ends

/-- What is shown leaves the parser where it is. -/
theorem Marked.of_same {remote' : Remote} (marked : remote.Marked)
    (noComment : ¬ remote.inComment) (noTag : ¬ remote.inTag)
    (inComment : remote'.inComment = remote.inComment) (inTag : remote'.inTag = remote.inTag)
    (tagName : remote'.tagName = remote.tagName) : remote'.Marked ∧ remote'.mode = .content := by
  constructor
  · constructor
    · rw [tagName]
      exact marked.tagName
    · rw [tagName]
      exact marked.plain
    · rw [inComment]
      exact fun comment => absurd comment noComment
  · rw [Remote.mode, inComment, inTag, if_neg noComment, if_neg noTag]

theorem parser_shownByte (remote : Remote) (ch : UInt8) :
    (remote.shownByte ch).inComment = remote.inComment ∧
      (remote.shownByte ch).inTag = remote.inTag ∧
      (remote.shownByte ch).tagName = remote.tagName := by
  unfold Remote.shownByte
  split
  · exact ⟨rfl, rfl, rfl⟩
  · exact ⟨rfl, rfl, rfl⟩

theorem parser_entityByte (remote : Remote) (ch : UInt8) :
    (remote.entityByte ch).inComment = remote.inComment ∧
      (remote.entityByte ch).inTag = remote.inTag ∧
      (remote.entityByte ch).tagName = remote.tagName := by
  unfold Remote.entityByte
  split
  · exact ⟨rfl, rfl, rfl⟩
  split
  · exact ⟨rfl, rfl, rfl⟩
  · exact parser_shownByte _ ch

theorem screen_shownByte (ch : UInt8) :
    (remote.shownByte ch).screen = remote.screen.showPlain ch := by
  unfold Remote.shownByte Screen.showPlain
  split
  · rfl
  · rfl

theorem screen_entityByte (inEntity : remote.inEntity) (ch : UInt8) :
    (remote.entityByte ch).screen = remote.screen.showInEntity remote.entity.text ch := by
  unfold Remote.entityByte Screen.showInEntity
  rw [TextBuffer.length_text]
  split
  · rfl
  split
  next room =>
    have added : (remote.entity.push ch).text = remote.entity.text ++ [ch] := by
      rw [TextBuffer.text_push, if_neg (not_le.mpr room.2)]
    rw [← added, Remote.screen, inEntity]
    rfl
  · exact screen_shownByte ch

theorem Marked.content (marked : remote.Marked) (noComment : ¬ remote.inComment)
    (noTag : ¬ remote.inTag) (ch : UInt8) : remote.Reads (remote.byte ch) ch := by
  have mode : remote.mode = .content := by
    rw [Remote.mode, if_neg noComment, if_neg noTag]
  unfold Remote.byte
  rw [if_neg noComment, if_neg noTag]
  split
  next opens =>
    constructor
    · constructor
      · exact .clear (by decide)
      · intro ch impossible
        cases impossible
      · exact fun inComment => absurd inComment noComment
    · rw [mode, Mode.next, if_pos opens]
      exact (if_neg noComment).trans (if_pos rfl)
    · rw [mode, Mode.item, if_pos opens]
      rfl
  next plainChar =>
    have next : remote.mode.next ch = .content := by
      rw [mode]
      exact if_neg plainChar
    have item : remote.mode.item ch = some (.char ch) := by
      rw [mode]
      exact if_neg plainChar
    have kept : ∀ remote', remote'.inComment = remote.inComment →
        remote'.inTag = remote.inTag → remote'.tagName = remote.tagName →
        remote'.screen = remote.screen.display (.char ch) → remote.Reads remote' ch := by
      intro remote' inComment inTag tagName screen
      have same := marked.of_same noComment noTag inComment inTag tagName
      refine ⟨same.1, same.2.trans next.symm, ?_⟩
      rw [item]
      exact screen
    split
    next suppressed => exact kept _ rfl rfl rfl (if_pos suppressed).symm
    next shown =>
      have display : remote.screen.display (.char ch) =
          match remote.screen.entity with
          | some entity => remote.screen.showInEntity entity ch
          | none => remote.screen.showPlain ch := if_neg shown
      split
      next inEntity =>
        have entity : remote.screen.entity = some remote.entity.text := if_pos inEntity
        rw [entity] at display
        have parser := remote.parser_entityByte ch
        exact kept _ parser.1 parser.2.1 parser.2.2
          ((screen_entityByte inEntity ch).trans display.symm)
      next outside =>
        have entity : remote.screen.entity = none := if_neg outside
        rw [entity] at display
        have parser := remote.parser_shownByte ch
        exact kept _ parser.1 parser.2.1 parser.2.2
          ((screen_shownByte ch).trans display.symm)

/-- A byte is read as the next one of the page. -/
theorem Marked.byte (marked : remote.Marked) (ch : UInt8) : remote.Reads (remote.byte ch) ch := by
  by_cases inComment : remote.inComment
  · rw [Remote.byte, if_pos inComment]
    exact marked.commentByte inComment ch
  by_cases inTag : remote.inTag
  · rw [Remote.byte, if_neg inComment, if_pos inTag]
    exact marked.tagByte inComment inTag ch
  · exact marked.content inComment inTag ch

/-- Some bytes are read as the next ones of the page. -/
structure ReadsAll (remote remote' : Remote) (data : List UInt8) : Prop where
  marked : remote'.Marked
  mode : remote'.mode = data.foldl Mode.next remote.mode
  screen : remote'.screen = (remote.mode.items data).foldl Screen.display remote.screen

theorem Marked.body (marked : remote.Marked) (data : List UInt8) :
    remote.ReadsAll (remote.body (some data)) data := by
  unfold Remote.body
  dsimp only
  induction data generalizing remote with
  | nil => exact ⟨marked, rfl, rfl⟩
  | cons ch data ih =>
  obtain ⟨marked', mode, screen⟩ := marked.byte ch
  obtain ⟨marked'', modes, screens⟩ := ih marked'
  rw [mode] at modes screens
  refine ⟨marked'', modes, ?_⟩
  rw [List.foldl_cons, screens, Mode.items, List.foldl_append, screen]
  cases remote.mode.item ch with
  | none => rfl
  | some item => rfl

theorem body_append (remote : Remote) (data more : List UInt8) :
    remote.body (some (data ++ more)) = (remote.body (some data)).body (some more) :=
  List.foldl_append

theorem Marked.reset (remote : Remote) : remote.reset.Marked := by
  constructor
  · exact .clear (by decide)
  · intro ch impossible
    cases impossible
  · intro impossible
    cases impossible

end Remote

end Charis.Browser
