import Charis.Browser.RemoteBody

/-!
# The buffers of the preview

Whatever bytes a page is made of, and however the network cuts them, the text of the preview
stays in its buffer and is printable.
-/

namespace Charis.Browser

open Charis.Lib Charis.Net

namespace Preview

/-- The text lies in its buffer and ends there, and it is printable. -/
structure Safe (preview : Preview) : Prop where
  terminated : preview.text.Terminated
  printable : ∀ ch ∈ preview.text.text, ch = '\n'.toUInt8 ∨ 0x20 ≤ ch

variable {preview : Preview}

theorem Safe.append (safe : preview.Safe) {ch : UInt8}
    (printable : ch = '\n'.toUInt8 ∨ 0x20 ≤ ch) : (preview.append ch).Safe := by
  constructor
  · exact safe.terminated.push ch
  · intro other mem
    rcases TextBuffer.mem_text_push mem with old | rfl
    · exact safe.printable other old
    · exact printable

theorem Safe.setSpace (safe : preview.Safe) (lastSpace : Bool) :
    { preview with lastSpace }.Safe :=
  ⟨safe.terminated, safe.printable⟩

theorem Safe.appendTextChar (safe : preview.Safe) (ch : UInt8) :
    (preview.appendTextChar ch).Safe := by
  unfold Preview.appendTextChar
  split
  · split
    · have appended : (preview.append ' '.toUInt8).Safe := safe.append (.inr (by decide))
      exact appended.setSpace true
    · exact safe
  · split
    next printable => exact (safe.append (.inr printable)).setSpace false
    · exact safe

theorem Safe.appendBreak (safe : preview.Safe) : preview.appendBreak.Safe := by
  unfold Preview.appendBreak
  split
  · exact safe.append (.inl rfl)
  · exact safe

theorem Safe.appendReference (safe : preview.Safe) (entity : List UInt8) :
    (preview.appendReference entity).Safe := by
  unfold Preview.appendReference
  have shown := safe.appendTextChar '&'.toUInt8
  generalize preview.appendTextChar '&'.toUInt8 = opened at shown
  induction entity generalizing opened with
  | nil => exact shown
  | cons ch entity ih => exact ih _ (shown.appendTextChar ch)

end Preview

namespace Remote

/-- The texts of the parser lie in their buffers.  They end there, that of a reference while the
reference is open, and also outside of references as long as none has been read. -/
structure Safe (fresh : Prop) (remote : Remote) : Prop where
  preview : remote.preview.Safe
  entity : remote.inEntity ∨ fresh → remote.entity.Terminated
  noEntity : ¬ remote.inEntity → remote.entity.length = 0
  tagName : remote.tagName.Terminated

variable {fresh : Prop} {remote : Remote}

theorem Safe.commentByte (safe : remote.Safe fresh) (ch : UInt8) :
    (remote.commentByte ch).Safe fresh := by
  obtain ⟨preview, entity, noEntity, tagName⟩ := safe
  unfold Remote.commentByte
  split
  · split
    · exact ⟨preview, entity, noEntity, tagName⟩
    · exact ⟨preview, entity, noEntity, tagName⟩
  · split
    · exact ⟨preview, entity, noEntity, tagName⟩
    · exact ⟨preview, entity, noEntity, tagName⟩

theorem Safe.switchContent (safe : remote.Safe fresh) : remote.switchContent.Safe fresh := by
  unfold Remote.switchContent
  split
  · exact ⟨safe.preview, safe.entity, safe.noEntity, safe.tagName⟩
  · exact safe

theorem Safe.breakBlock (safe : remote.Safe fresh) : remote.breakBlock.Safe fresh := by
  unfold Remote.breakBlock
  split
  · exact ⟨safe.preview.appendBreak, safe.entity, safe.noEntity, safe.tagName⟩
  · exact safe

theorem Safe.closeTag (safe : remote.Safe fresh) : remote.closeTag.Safe fresh := by
  have broken := safe.switchContent.breakBlock
  exact ⟨broken.preview, broken.entity, broken.noEntity, .clear (by decide)⟩

theorem Safe.tagNameByte (safe : remote.Safe fresh) (ch : UInt8) :
    (remote.tagNameByte ch).Safe fresh := by
  unfold Remote.tagNameByte
  split
  · exact safe.closeTag
  have ⟨preview, entity, noEntity, tagName⟩ := safe
  split
  · exact ⟨preview, entity, noEntity, tagName⟩
  split
  · split
    · exact ⟨preview, entity, noEntity, tagName⟩
    · exact ⟨preview, entity, noEntity, tagName⟩
  split
  · exact ⟨preview, entity, noEntity, tagName.push _⟩
  · exact ⟨preview, entity, noEntity, tagName⟩

theorem Safe.tagByte (safe : remote.Safe fresh) (ch : UInt8) : (remote.tagByte ch).Safe fresh := by
  unfold Remote.tagByte
  obtain ⟨preview, entity, noEntity, tagName⟩ := safe
  split
  · exact ⟨preview, entity, noEntity, tagName⟩
  split
  · exact ⟨preview, entity, noEntity, tagName⟩
  split
  · exact ⟨preview, entity, noEntity, tagName⟩
  split
  · have unprobed : { remote with commentProbe := 0 }.Safe fresh :=
      ⟨preview, entity, noEntity, tagName⟩
    exact unprobed.tagNameByte ch
  · exact Safe.tagNameByte ⟨preview, entity, noEntity, tagName⟩ ch

theorem Safe.openTag (safe : remote.Safe fresh) : remote.openTag.Safe fresh :=
  ⟨safe.preview, safe.entity, safe.noEntity, .clear (by decide)⟩

theorem Safe.closeEntity (safe : remote.Safe fresh) (unread : fresh → remote.entity.length = 0)
    {preview : Preview} (shown : preview.Safe) : (remote.closeEntity preview).Safe fresh := by
  constructor
  · exact shown
  · intro stillFresh
    have stillFresh := stillFresh.resolve_left Bool.false_ne_true
    constructor
    · exact Nat.zero_lt_succ _
    · have ends := (safe.entity (.inr stillFresh)).ends
      rwa [unread stillFresh] at ends
  · exact fun _ => rfl
  · exact safe.tagName

theorem Safe.shownByte (safe : remote.Safe fresh) (ch : UInt8) :
    (remote.shownByte ch).Safe fresh := by
  unfold Remote.shownByte
  split
  · exact ⟨safe.preview, fun _ => .clear (by decide), fun closed => absurd rfl closed,
      safe.tagName⟩
  · exact ⟨safe.preview.appendTextChar ch, safe.entity, safe.noEntity, safe.tagName⟩

theorem Safe.entityByte (safe : remote.Safe fresh) (inEntity : remote.inEntity)
    (unread : fresh → remote.entity.length = 0) (ch : UInt8) :
    (remote.entityByte ch).Safe fresh := by
  unfold Remote.entityByte
  split
  · apply safe.closeEntity unread
    split
    · exact safe.preview.appendTextChar _
    · exact (safe.preview.appendReference _).appendTextChar _
  split
  · exact ⟨safe.preview, fun _ => (safe.entity (.inl inEntity)).push ch,
      fun closed => absurd inEntity closed, safe.tagName⟩
  · have closed := safe.closeEntity unread (safe.preview.appendReference remote.entity.text)
    exact closed.shownByte ch

theorem Safe.byte (safe : remote.Safe fresh)
    (unread : fresh → remote.inEntity → remote.entity.length = 0) (ch : UInt8) :
    (remote.byte ch).Safe fresh := by
  unfold Remote.byte
  split
  · exact safe.commentByte ch
  split
  · exact safe.tagByte ch
  split
  · exact safe.openTag
  split
  · exact safe
  split
  next inEntity => exact safe.entityByte inEntity (fun fresh => unread fresh inEntity) ch
  · exact safe.shownByte ch

theorem Safe.reset (fresh : Prop) (remote : Remote) : remote.reset.Safe fresh := by
  constructor
  · constructor
    · exact .clear (by decide)
    · intro ch impossible
      cases impossible
  · exact fun _ => .clear (by decide)
  · exact fun _ => rfl
  · exact .clear (by decide)

/-- No reference with a character in it is open at any moment while some bytes are read. -/
def NoReference (remote : Remote) (data : List UInt8) : Prop :=
  ∀ earlier, earlier <+: data →
    (earlier.foldl byte remote).inEntity → (earlier.foldl byte remote).entity.length = 0

theorem Safe.bytes {data : List UInt8} (safe : remote.Safe fresh)
    (unread : fresh → remote.NoReference data) : (data.foldl Remote.byte remote).Safe fresh := by
  induction data generalizing remote with
  | nil => exact safe
  | cons ch data ih =>
      apply ih
      · exact safe.byte (fun fresh => unread fresh [] List.nil_prefix) ch
      · intro fresh earlier early
        exact unread fresh (ch :: earlier) (by simpa using early)

/-- A page is fed in pieces. -/
theorem feed_eq (remote : Remote) (calls : List (Option (List UInt8))) :
    calls.foldl Remote.body remote = remote.body (some calls.reduceOption.flatten) := by
  induction calls generalizing remote with
  | nil => rfl
  | cons call calls ih =>
  rw [List.foldl_cons, ih]
  cases call with
  | none => rfl
  | some data =>
      rw [List.reduceOption_cons_of_some, List.flatten_cons]
      exact (List.foldl_append).symm

end Remote

/-- After a reset the preview is safe whatever is fed, and only the bytes that are fed count, not
the pieces in which they come. -/
theorem remoteBody_safe (remote : Remote) (calls : List (Option (List UInt8))) :
    (calls.foldl Remote.body remote.reset).Safe
        (remote.reset.NoReference calls.reduceOption.flatten) ∧
      calls.foldl Remote.body remote.reset =
        remote.reset.body (some calls.reduceOption.flatten) := by
  have fed := remote.reset.feed_eq calls
  constructor
  · rw [fed]
    exact (Remote.Safe.reset _ remote).bytes id
  · exact fed

/-- When a reference has been decoded, its buffer does not end at its length. -/
theorem entity_not_terminated :
    ¬ (Remote.static.reset.body (some (ascii "&lt;"))).entity.Terminated := by
  intro terminated
  exact absurd terminated.ends (by decide)

end Charis.Browser
