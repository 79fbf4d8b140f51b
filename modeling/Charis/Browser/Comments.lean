import Charis.Browser.PreviewSafety

/-!
# Comments

A comment begins as a tag and ends behind two dashes.  The parser is afterwards in the state in
which it was before, also when a reference was open or content was hidden.
-/

namespace Charis.Browser

open Charis.Lib Charis.Net

/-- Nothing of a tag has been read. -/
structure Untouched (nameDone closing : Bool) (name : TextBuffer remoteTagSize) : Prop where
  unfinished : nameDone = false
  opening : closing = false
  unnamed : name.clear = name

theorem Untouched.clear (name : TextBuffer remoteTagSize) : Untouched false false name.clear :=
  ⟨rfl, rfl, TextBuffer.clear_clear⟩

namespace Remote

variable {remote : Remote}

/-- Outside of tags, and where a comment can begin, nothing of a tag has been read. -/
structure Clean (remote : Remote) : Prop where
  dashes : ¬ remote.inComment → remote.commentDashCount = 0
  outside : ¬ remote.inTag →
    Untouched remote.tagNameDone remote.closingTag remote.tagName ∧ remote.commentProbe = 0
  probing : remote.commentProbe ≠ 0 →
    Untouched remote.tagNameDone remote.closingTag remote.tagName
  few : remote.commentProbe ≤ 2
  unnamed : remote.tagName.length = 0 →
    remote.tagNameDone = false ∧ remote.tagName.clear = remote.tagName

theorem Clean.reset (remote : Remote) : remote.reset.Clean where
  dashes := fun _ => rfl
  outside := fun _ => ⟨.clear _, rfl⟩
  probing := fun probing => absurd rfl probing
  few := Nat.zero_le 2
  unnamed := fun _ => ⟨rfl, TextBuffer.clear_clear⟩

theorem Clean.commentByte (clean : remote.Clean) (inComment : remote.inComment)
    (ch : UInt8) : (remote.commentByte ch).Clean := by
  obtain ⟨dashes, outside, probing, few, unnamed⟩ := clean
  unfold Remote.commentByte
  split
  · split
    · exact ⟨fun left => absurd inComment left, outside, probing, few, unnamed⟩
    · exact ⟨dashes, outside, probing, few, unnamed⟩
  · split
    · exact ⟨fun _ => rfl, outside, probing, few, unnamed⟩
    · exact ⟨fun _ => rfl, outside, probing, few, unnamed⟩

theorem Clean.closeTag (clean : remote.Clean) : remote.closeTag.Clean := by
  have dashes : ¬ remote.closeTag.inComment → remote.closeTag.commentDashCount = 0 := by
    unfold Remote.closeTag Remote.breakBlock Remote.switchContent
    split
    · split
      · exact clean.dashes
      · exact clean.dashes
    · split
      · exact clean.dashes
      · exact clean.dashes
  exact {
    dashes := dashes
    outside := fun _ => ⟨.clear _, rfl⟩
    probing := fun probing => absurd rfl probing
    few := Nat.zero_le 2
    unnamed := fun _ => ⟨rfl, TextBuffer.clear_clear⟩ }

theorem Clean.tagNameByte (clean : remote.Clean) (inTag : remote.inTag)
    (noProbe : remote.commentProbe = 0) (ch : UInt8) : (remote.tagNameByte ch).Clean := by
  unfold Remote.tagNameByte
  split
  · exact clean.closeTag
  have idle : ∀ {P : Prop}, remote.commentProbe ≠ 0 → P := fun probing => absurd noProbe probing
  have inside : ∀ {P : Prop}, ¬ remote.inTag → P := fun noTag => absurd inTag noTag
  obtain ⟨dashes, outside, probing, few, unnamed⟩ := clean
  split
  · exact ⟨dashes, inside, idle, few, unnamed⟩
  split
  · split
    next named =>
      exact ⟨dashes, inside, idle, few, fun empty => absurd empty named⟩
    · exact ⟨dashes, outside, probing, few, unnamed⟩
  split
  · refine ⟨dashes, inside, idle, few, ?_⟩
    unfold TextBuffer.push
    split
    · exact unnamed
    · exact fun empty => absurd empty (Nat.succ_ne_zero _)
  · exact ⟨dashes, outside, probing, few, unnamed⟩

theorem Clean.tagByte (clean : remote.Clean) (inTag : remote.inTag) (ch : UInt8) :
    (remote.tagByte ch).Clean := by
  obtain ⟨dashes, outside, probing, few, unnamed⟩ := clean
  have inside : ∀ {P : Prop}, ¬ remote.inTag → P := fun noTag => absurd inTag noTag
  unfold Remote.tagByte
  split
  next mark =>
    obtain ⟨-, -, empty, opening⟩ := mark
    have untouched : Untouched remote.tagNameDone remote.closingTag remote.tagName :=
      ⟨(unnamed empty).1, Bool.eq_false_iff.mpr opening, (unnamed empty).2⟩
    exact ⟨dashes, inside, fun _ => untouched, Nat.le_succ 1, unnamed⟩
  split
  next dash =>
    have untouched := probing (dash.1 ▸ Nat.one_ne_zero)
    exact ⟨dashes, inside, fun _ => untouched, Nat.le_refl 2, unnamed⟩
  split
  next dash =>
    have untouched := probing (dash.1 ▸ (by decide))
    exact ⟨fun left => absurd rfl left, fun _ => ⟨untouched, rfl⟩, fun probe => absurd rfl probe,
      Nat.zero_le 2, unnamed⟩
  split
  · have unprobed : { remote with commentProbe := 0 }.Clean :=
      ⟨dashes, inside, fun probe => absurd rfl probe, Nat.zero_le 2, unnamed⟩
    exact unprobed.tagNameByte inTag rfl ch
  next noProbe =>
    have noProbe : remote.commentProbe = 0 := by omega
    exact Clean.tagNameByte ⟨dashes, outside, probing, few, unnamed⟩ inTag noProbe ch

theorem Clean.openTag (clean : remote.Clean) : remote.openTag.Clean where
  dashes := clean.dashes
  outside := fun noTag => absurd rfl noTag
  probing := fun probe => absurd rfl probe
  few := Nat.zero_le 2
  unnamed := fun _ => ⟨rfl, TextBuffer.clear_clear⟩

theorem Clean.shownByte (clean : remote.Clean) (ch : UInt8) : (remote.shownByte ch).Clean := by
  obtain ⟨dashes, outside, probing, few, unnamed⟩ := clean
  unfold Remote.shownByte
  split
  · exact ⟨dashes, outside, probing, few, unnamed⟩
  · exact ⟨dashes, outside, probing, few, unnamed⟩

theorem Clean.closeEntity (clean : remote.Clean) (preview : Preview) :
    (remote.closeEntity preview).Clean :=
  ⟨clean.dashes, clean.outside, clean.probing, clean.few, clean.unnamed⟩

theorem Clean.entityByte (clean : remote.Clean) (ch : UInt8) : (remote.entityByte ch).Clean := by
  unfold Remote.entityByte
  split
  · exact clean.closeEntity _
  split
  · exact ⟨clean.dashes, clean.outside, clean.probing, clean.few, clean.unnamed⟩
  · exact (clean.closeEntity _).shownByte ch

theorem Clean.byte (clean : remote.Clean) (ch : UInt8) : (remote.byte ch).Clean := by
  unfold Remote.byte
  split
  next inComment => exact clean.commentByte inComment ch
  split
  next inTag => exact clean.tagByte inTag ch
  split
  · exact clean.openTag
  split
  · exact clean
  split
  · exact clean.entityByte ch
  · exact clean.shownByte ch

theorem Clean.bytes (clean : remote.Clean) (data : List UInt8) :
    (remote.body (some data)).Clean := by
  unfold Remote.body
  dsimp only
  induction data generalizing remote with
  | nil => exact clean
  | cons ch data ih => exact ih (clean.byte ch)

/-- How many dashes a text ends with. -/
def dashesAtEnd (text : List UInt8) : Nat :=
  (text.reverse.takeWhile fun ch => ch = '-'.toUInt8).length

theorem dashesAtEnd_dash (text : List UInt8) :
    dashesAtEnd (text ++ ['-'.toUInt8]) = dashesAtEnd text + 1 := by
  simp [dashesAtEnd]

theorem dashesAtEnd_other (text : List UInt8) {ch : UInt8} (other : ch ≠ '-'.toUInt8) :
    dashesAtEnd (text ++ [ch]) = 0 := by
  simp [dashesAtEnd, other]

theorem exists_of_dashesAtEnd {text : List UInt8} (dashes : dashesAtEnd text ≠ 0) :
    ∃ front, text = front ++ ['-'.toUInt8] ∧ dashesAtEnd text = dashesAtEnd front + 1 := by
  cases List.eq_nil_or_concat' text with
  | inl empty => exact absurd (empty ▸ rfl) dashes
  | inr concat =>
      obtain ⟨front, last, rfl⟩ := concat
      by_cases dash : last = '-'.toUInt8
      · subst dash
        exact ⟨front, rfl, dashesAtEnd_dash front⟩
      · exact absurd (dashesAtEnd_other front dash) dashes

theorem suffix_of_dashesAtEnd {text : List UInt8} (two : 2 ≤ dashesAtEnd text) :
    ascii "--" <:+ text := by
  obtain ⟨front, rfl, count⟩ := exists_of_dashesAtEnd (Nat.ne_of_gt (Nat.zero_lt_of_lt two))
  rw [count] at two
  obtain ⟨front, rfl, -⟩ :=
    exists_of_dashesAtEnd (Nat.ne_of_gt (Nat.le_of_succ_le_succ two))
  rw [List.append_assoc]
  exact ⟨front, rfl⟩

/-- The parser in a comment. -/
def within (remote : Remote) (dashes : Nat) : Remote :=
  { remote with inComment := true, commentDashCount := dashes }

/-- The parser stays in a comment whose end is not in what was read. -/
theorem body_within {text : List UInt8} (unended : ¬ ascii "-->" <:+: text) :
    (remote.within 0).body (some text) = remote.within (min 2 (dashesAtEnd text)) := by
  induction text using List.reverseRecOn with
  | nil => rfl
  | append_singleton text ch ih =>
  have earlier : ¬ ascii "-->" <:+: text := fun ended =>
    unended (ended.trans (List.prefix_append text [ch]).isInfix)
  have read : (remote.within 0).body (some (text ++ [ch])) =
      ((remote.within 0).body (some text)).byte ch :=
    List.foldl_append
  rw [read, ih earlier]
  change (remote.within (min 2 (dashesAtEnd text))).commentByte ch = _
  unfold Remote.commentByte
  by_cases dash : ch = '-'.toUInt8
  · rw [if_pos dash, dash, dashesAtEnd_dash]
    split
    next few =>
      change min 2 (dashesAtEnd text) < 2 at few
      have count : min 2 (dashesAtEnd text) + 1 = min 2 (dashesAtEnd text + 1) := by omega
      exact congrArg remote.within count
    next many =>
      change ¬ min 2 (dashesAtEnd text) < 2 at many
      have count : min 2 (dashesAtEnd text) = min 2 (dashesAtEnd text + 1) := by omega
      exact congrArg remote.within count
  · rw [if_neg dash, dashesAtEnd_other text dash, if_neg]
    · rfl
    · rintro ⟨greater, two⟩
      change 2 ≤ min 2 (dashesAtEnd text) at two
      obtain ⟨front, split⟩ := suffix_of_dashesAtEnd (two.trans (Nat.min_le_right _ _))
      apply unended
      rw [← split, greater, List.append_assoc]
      exact ⟨front, [], List.append_nil _⟩

theorem body_within_end (dashes : Nat) (few : dashes ≤ 2) :
    (remote.within dashes).body (some (ascii "-->")) =
      { remote with inComment := false, commentDashCount := 0 } := by
  have every : ∀ dashes < 3, (remote.within dashes).body (some (ascii "-->")) =
      { remote with inComment := false, commentDashCount := 0 } := by
    intro dashes below
    interval_cases dashes
    · rfl
    · rfl
    · rfl
  exact every dashes (Nat.lt_succ_of_le few)

/-- The start of a comment is read. -/
theorem Clean.body_opening (clean : remote.Clean) (noTag : remote.inTag = false)
    (noComment : remote.inComment = false) :
    remote.body (some (ascii "<!--")) = remote.within 0 := by
  obtain ⟨⟨unfinished, opening, unnamed⟩, noProbe⟩ := clean.outside (Bool.eq_false_iff.mp noTag)
  have read : remote.body (some (ascii "<!--")) =
      { remote.within 0 with tagName := remote.tagName.clear } := by
    cases remote
    dsimp only at noTag noComment unfinished opening noProbe
    subst noTag noComment unfinished opening noProbe
    rfl
  rw [read, unnamed]
  rfl

theorem Clean.body_comment (clean : remote.Clean) (noTag : remote.inTag = false)
    (noComment : remote.inComment = false) {content : List UInt8}
    (unended : ¬ ascii "-->" <:+: content) :
    remote.body (some (ascii "<!--" ++ content ++ ascii "-->")) = remote := by
  have split (remote : Remote) (data more : List UInt8) :
      remote.body (some (data ++ more)) = (remote.body (some data)).body (some more) :=
    List.foldl_append
  rw [split, split, clean.body_opening noTag noComment, body_within unended,
    body_within_end _ (Nat.min_le_left 2 _), ← noComment,
    ← clean.dashes (Bool.eq_false_iff.mp noComment)]

end Remote

/-- Whatever was fed since a reset, a comment that begins outside of tags and comments leaves the
whole state of the parser as it was, however it is cut. -/
theorem comment_transparent (remote : Remote) {calls pieces : List (Option (List UInt8))}
    (noTag : (calls.foldl Remote.body remote.reset).inTag = false)
    (noComment : (calls.foldl Remote.body remote.reset).inComment = false)
    {content : List UInt8}
    (only : ∀ front back, front ++ ascii "-->" ++ back = content ++ ascii "-->" → back = [])
    (cut : pieces.reduceOption.flatten = ascii "<!--" ++ content ++ ascii "-->") :
    pieces.foldl Remote.body (calls.foldl Remote.body remote.reset) =
      calls.foldl Remote.body remote.reset := by
  have unended : ¬ ascii "-->" <:+: content := by
    rintro ⟨front, back, split⟩
    have empty := only front (back ++ ascii "-->") (by rw [← split, List.append_assoc _ back])
    exact absurd (List.append_eq_nil_iff.mp empty).2 (by decide)
  have clean : (calls.foldl Remote.body remote.reset).Clean := by
    rw [remote.reset.feed_eq calls]
    exact (Remote.Clean.reset remote).bytes _
  rw [Remote.feed_eq _ pieces, cut]
  exact clean.body_comment noTag noComment unended

/-- A comment in the middle of a reference, cut in its marks. -/
theorem comment_transparent_reference :
    [some (ascii "<!"), some (ascii "-- <b> -"), none, some (ascii "->")].foldl Remote.body
        ([some (ascii "a &am")].foldl Remote.body Remote.static.reset) =
      [some (ascii "a &am")].foldl Remote.body Remote.static.reset := by
  have alone : ∀ front back, front ++ ascii "-->" ++ back = ascii " <b> " ++ ascii "-->" →
      back = [] := by
    intro front back same
    by_contra more
    have early : ascii "-->" <:+: (ascii " <b> " ++ ascii "-->").dropLast := by
      refine ⟨front, back.dropLast, ?_⟩
      rw [← same, List.dropLast_append_of_ne_nil more]
    exact absurd early (by decide)
  exact @comment_transparent Remote.static [some (ascii "a &am")] _ rfl rfl _ alone rfl

end Charis.Browser
