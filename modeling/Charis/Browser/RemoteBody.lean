import Charis.Lib.TextBuffer
import Charis.Text.Strings
import Charis.Net.Wire

/-!
# The preview of a page

The body of a page is read byte by byte.  Tags and comments are left out, references to
characters are decoded, and what remains is stored in a buffer of fixed size.
-/

namespace Charis.Browser

open Charis.Lib Charis.Net Charis.Text

/-- `sizeof(remote_text)`. -/
abbrev remoteTextSize : Nat := 2048

/-- `sizeof(remote_entity)`. -/
abbrev remoteEntitySize : Nat := 12

/-- `sizeof(remote_tag_name)`. -/
abbrev remoteTagSize : Nat := 8

/-- `remote_text`, `remote_text_length` and `remote_last_space`. -/
structure Preview where
  text : TextBuffer remoteTextSize
  lastSpace : Bool

/-- The static data of `browser.c` that `remote_body` reads and writes. -/
structure Remote where
  preview : Preview
  inTag : Bool
  inComment : Bool
  commentDashCount : Nat
  commentProbe : Nat
  tagNameDone : Bool
  closingTag : Bool
  suppressContent : Bool
  inEntity : Bool
  entity : TextBuffer remoteEntitySize
  tagName : TextBuffer remoteTagSize

/-- The static data before any page is read. -/
def Remote.static : Remote :=
  { preview := { text := { bytes := fun _ => 0, length := 0 }, lastSpace := false }
    inTag := false, inComment := false, commentDashCount := 0, commentProbe := 0
    tagNameDone := false, closingTag := false, suppressContent := false, inEntity := false
    entity := { bytes := fun _ => 0, length := 0 }
    tagName := { bytes := fun _ => 0, length := 0 } }

/-- `remote_lower`. -/
def remoteLower (ch : UInt8) : UInt8 :=
  if 'A'.toUInt8 ≤ ch ∧ ch ≤ 'Z'.toUInt8 then ch - 'A'.toUInt8 + 'a'.toUInt8 else ch

/-- `remote_entity_equal`. -/
def remoteEntityEqual (entity : List UInt8) (expected : String) : Bool :=
  entity.map remoteLower = (ascii expected).map remoteLower

/-- The digits of a numeric reference are read into `value`. -/
def remoteDigits (base : Nat) (value : Nat) : List UInt8 → Option Nat
  | [] => some value
  | ch :: rest =>
      let digit :=
        if '0'.toUInt8 ≤ ch ∧ ch ≤ '9'.toUInt8 then some (ch.toNat - '0'.toNat)
        else if base = 16 ∧ 'a'.toUInt8 ≤ ch ∧ ch ≤ 'f'.toUInt8 then
          some (ch.toNat - 'a'.toNat + 10)
        else if base = 16 ∧ 'A'.toUInt8 ≤ ch ∧ ch ≤ 'F'.toUInt8 then
          some (ch.toNat - 'A'.toNat + 10)
        else none
      match digit with
      | none => none
      | some digit =>
          if digit ≥ base ∨ value > (0x10FFFF - digit) / base then none
          else remoteDigits base (value * base + digit) rest

/-- The character that stands for a code point. -/
def remoteCodePoint (value : Nat) : UInt8 :=
  if value = 9 ∨ value = 10 ∨ value = 13 ∨ value = 32 ∨ value = 160 then ' '.toUInt8
  else if 0x20 ≤ value ∧ value ≤ 0x7E then UInt8.ofNat value
  else if value = 0x2018 ∨ value = 0x2019 then '\''.toUInt8
  else if value = 0x201C ∨ value = 0x201D then '"'.toUInt8
  else if value = 0x2013 ∨ value = 0x2014 then '-'.toUInt8
  else if value = 0x2026 then '.'.toUInt8
  else if value = 0x00A9 then 'c'.toUInt8
  else if value = 0x00AE then 'R'.toUInt8
  else '?'.toUInt8

/-- The named references, in the order in which they are tried. -/
def remoteNames : List (String × Char) :=
  [("amp", '&'), ("lt", '<'), ("gt", '>'), ("quot", '"'), ("apos", '\''), ("nbsp", ' '),
    ("copy", 'c'), ("reg", 'R'), ("ndash", '-'), ("mdash", '-'), ("hellip", '.'),
    ("lsquo", '\''), ("rsquo", '\''), ("ldquo", '"'), ("rdquo", '"')]

/-- The digits of a numeric reference. -/
def remoteNumber (base : Nat) (digits : List UInt8) : Option UInt8 :=
  if digits = [] then none
  else
    match remoteDigits base 0 digits with
    | none => none
    | some value => if value = 0 ∨ value > 0x10FFFF then none else some (remoteCodePoint value)

/-- `remote_decode_entity`. -/
def remoteDecodeEntity : List UInt8 → Option UInt8
  | [] => none
  | first :: rest =>
      if first = '#'.toUInt8 then
        match rest with
        | second :: digits =>
            if second = 'x'.toUInt8 ∨ second = 'X'.toUInt8 then remoteNumber 16 digits
            else remoteNumber 10 rest
        | [] => remoteNumber 10 rest
      else
        (remoteNames.find? fun name => remoteEntityEqual (first :: rest) name.1).map
          fun name => name.2.toUInt8

/-- The names that `remote_block_tag` compares with. -/
def blockNames : List String := ["p", "br", "div", "li", "h1", "h2", "h3", "h4", "tr", "hr"]

/-- The characters that count as blanks. -/
def isBlank (ch : UInt8) : Bool :=
  ch = '\r'.toUInt8 ∨ ch = '\n'.toUInt8 ∨ ch = '\t'.toUInt8 ∨ ch = ' '.toUInt8

/-- The letters and digits, of which the names of tags and references are made. -/
def isNameChar (ch : UInt8) : Bool :=
  ('A'.toUInt8 ≤ ch ∧ ch ≤ 'Z'.toUInt8) ∨ ('a'.toUInt8 ≤ ch ∧ ch ≤ 'z'.toUInt8) ∨
    ('0'.toUInt8 ≤ ch ∧ ch ≤ '9'.toUInt8)

namespace Preview

/-- `remote_append`. -/
def append (preview : Preview) (ch : UInt8) : Preview :=
  { preview with text := preview.text.push ch }

/-- `remote_append_text_char`. -/
def appendTextChar (preview : Preview) (ch : UInt8) : Preview :=
  if isBlank ch then
    if preview.text.length ≠ 0 ∧ ¬ preview.lastSpace ∧ preview.text.last ≠ '\n'.toUInt8 then
      { preview.append ' '.toUInt8 with lastSpace := true }
    else preview
  else if 0x20 ≤ ch then { preview.append ch with lastSpace := false }
  else preview

/-- The boundary of a block. -/
def appendBreak (preview : Preview) : Preview :=
  if preview.text.length ≠ 0 ∧ preview.text.last ≠ '\n'.toUInt8 then
    preview.append '\n'.toUInt8
  else preview

/-- A reference that cannot be decoded is shown as it is. -/
def appendReference (preview : Preview) (entity : List UInt8) : Preview :=
  entity.foldl appendTextChar (preview.appendTextChar '&'.toUInt8)

end Preview

namespace Remote

/-- The name of the tag is one of some names. -/
def tagIs (remote : Remote) (names : List String) : Bool :=
  names.any fun name => kstrcmp remote.tagName.bytes 0 (ascii name) = 0

/-- `remote_block_tag`. -/
def blockTag (remote : Remote) : Bool := remote.tagIs blockNames

/-- A byte in a comment. -/
def commentByte (remote : Remote) (ch : UInt8) : Remote :=
  if ch = '-'.toUInt8 then
    if remote.commentDashCount < 2 then
      { remote with commentDashCount := remote.commentDashCount + 1 }
    else remote
  else if ch = '>'.toUInt8 ∧ 2 ≤ remote.commentDashCount then
    { remote with inComment := false, commentDashCount := 0 }
  else { remote with commentDashCount := 0 }

/-- The end of a `script` or `style` tag changes whether what follows is shown. -/
def switchContent (remote : Remote) : Remote :=
  if remote.tagIs ["script", "style"] then { remote with suppressContent := !remote.closingTag }
  else remote

/-- The end of the tag of a block that is shown starts a new line. -/
def breakBlock (remote : Remote) : Remote :=
  if ¬ remote.suppressContent ∧ remote.blockTag then
    { remote with preview := remote.preview.appendBreak }
  else remote

/-- The end of a tag. -/
def closeTag (remote : Remote) : Remote :=
  { remote.switchContent.breakBlock with
    inTag := false
    tagName := remote.tagName.clear
    tagNameDone := false, closingTag := false, commentProbe := 0 }

/-- A byte in a tag that is not the start of a comment. -/
def tagNameByte (remote : Remote) (ch : UInt8) : Remote :=
  if ch = '>'.toUInt8 then remote.closeTag
  else if ch = '/'.toUInt8 ∧ remote.tagName.length = 0 ∧ ¬ remote.tagNameDone then
    { remote with closingTag := true }
  else if isBlank ch ∨ ch = '/'.toUInt8 then
    if remote.tagName.length ≠ 0 then { remote with tagNameDone := true } else remote
  else if ¬ remote.tagNameDone ∧ isNameChar ch then
    { remote with tagName := remote.tagName.push (remoteLower ch) }
  else remote

/-- A byte in a tag. -/
def tagByte (remote : Remote) (ch : UInt8) : Remote :=
  if remote.commentProbe = 0 ∧ ch = '!'.toUInt8 ∧ remote.tagName.length = 0 ∧
      ¬ remote.closingTag then
    { remote with commentProbe := 1 }
  else if remote.commentProbe = 1 ∧ ch = '-'.toUInt8 then { remote with commentProbe := 2 }
  else if remote.commentProbe = 2 ∧ ch = '-'.toUInt8 then
    { remote with inComment := true, inTag := false, commentDashCount := 0, commentProbe := 0 }
  else if remote.commentProbe = 1 ∨ remote.commentProbe = 2 then
    { remote with commentProbe := 0 }.tagNameByte ch
  else remote.tagNameByte ch

/-- The start of a tag. -/
def openTag (remote : Remote) : Remote :=
  { remote with
    inTag := true, closingTag := false, tagNameDone := false, commentProbe := 0
    tagName := remote.tagName.clear }

/-- A byte outside of references that is shown. -/
def shownByte (remote : Remote) (ch : UInt8) : Remote :=
  if ch = '&'.toUInt8 then { remote with inEntity := true, entity := remote.entity.clear }
  else { remote with preview := remote.preview.appendTextChar ch }

/-- The end of a reference. -/
def closeEntity (remote : Remote) (preview : Preview) : Remote :=
  { remote with preview, inEntity := false, entity := { remote.entity with length := 0 } }

/-- A byte in a reference. -/
def entityByte (remote : Remote) (ch : UInt8) : Remote :=
  if ch = ';'.toUInt8 then
    remote.closeEntity <|
      match remoteDecodeEntity remote.entity.text with
      | some decoded => remote.preview.appendTextChar decoded
      | none => (remote.preview.appendReference remote.entity.text).appendTextChar ';'.toUInt8
  else if (isNameChar ch ∨ ch = '#'.toUInt8) ∧ remote.entity.length + 1 < remoteEntitySize then
    { remote with entity := remote.entity.push ch }
  else (remote.closeEntity (remote.preview.appendReference remote.entity.text)).shownByte ch

/-- One round of the loop of `remote_body`. -/
def byte (remote : Remote) (ch : UInt8) : Remote :=
  if remote.inComment then remote.commentByte ch
  else if remote.inTag then remote.tagByte ch
  else if ch = '<'.toUInt8 then remote.openTag
  else if remote.suppressContent then remote
  else if remote.inEntity then remote.entityByte ch
  else remote.shownByte ch

/-- `remote_body`, for a pointer that is `NULL` or leads to some bytes. -/
def body (remote : Remote) : Option (List UInt8) → Remote
  | none => remote
  | some data => data.foldl byte remote

/-- `remote_reset_parser`. -/
def resetParser (remote : Remote) : Remote :=
  { preview := { remote.preview with lastSpace := false }
    inTag := false, inComment := false, commentDashCount := 0, commentProbe := 0
    tagNameDone := false, closingTag := false, suppressContent := false, inEntity := false
    entity := remote.entity.clear
    tagName := remote.tagName.clear }

/-- What `remote_navigate` does to the parser before a page is fetched. -/
def reset (remote : Remote) : Remote :=
  { remote with preview := { remote.preview with text := remote.preview.text.clear } }.resetParser

end Remote

end Charis.Browser
