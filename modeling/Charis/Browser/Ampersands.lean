import Charis.Browser.Escaping

/-!
# References that markup or the end interrupts

The parser keeps the characters after an ampersand until it knows whether they are a reference.
Where markup or the end of the page comes first, they should be shown before it; the parser keeps
them beyond the markup, and beyond the end.
-/

namespace Charis.Browser

open Charis.Lib Charis.Net

/-- What each byte of a page completes: an item, or nothing in the middle of markup. -/
def Mode.reads (mode : Mode) : List UInt8 → List (Option Item)
  | [] => []
  | ch :: data => mode.item ch :: (mode.next ch).reads data

theorem Mode.reduceOption_reads (mode : Mode) (data : List UInt8) :
    (mode.reads data).reduceOption = mode.items data := by
  induction data generalizing mode with
  | nil => rfl
  | cons ch data ih =>
      rw [reads, items, ← ih]
      cases mode.item ch with
      | none => exact List.reduceOption_cons_of_none _
      | some item => exact List.reduceOption_cons_of_some _ _

/-- A call of `remote_append_text_char`, or the start of a new line after a block. -/
inductive Mark where
  | text (ch : UInt8)
  | lineBreak
  deriving DecidableEq

/-- What a contribution changes. -/
def Preview.add (preview : Preview) : Mark → Preview
  | .text ch => preview.appendTextChar ch
  | .lineBreak => preview.appendBreak

/-- An ampersand and the characters after it, as they are. -/
def literal (entity : List UInt8) : List Mark := (.text '&'.toUInt8 :: entity.map .text)

/-- The end of a reference. -/
def resolved (entity : List UInt8) : List Mark :=
  match remoteDecodeEntity entity with
  | some decoded => [.text decoded]
  | none => literal entity ++ [.text ';'.toUInt8]

/-- A character that may belong to a reference. -/
abbrev Continues (entity : List UInt8) (ch : UInt8) : Prop :=
  (isNameChar ch ∨ ch = '#'.toUInt8) ∧ entity.length + 1 < remoteEntitySize

/-- The tag starts a new line. -/
abbrev Breaks (suppressed : Bool) (name : List UInt8) : Prop :=
  ¬ suppressed ∧ name ∈ blockNames.map ascii

/-- What the end of a tag contributes. -/
def tagMarks (suppressed : Bool) (name : List UInt8) : List Mark :=
  if Breaks suppressed name then [.lineBreak] else []

/-- A character outside of references: the reference that it opens, or the character. -/
def plain (ch : UInt8) : Option (List UInt8) × List Mark :=
  if ch = '&'.toUInt8 then (some [], []) else (none, [.text ch])

/-- A shown character: the reference that is open afterwards, and what is contributed. -/
def shownChar : Option (List UInt8) → UInt8 → Option (List UInt8) × List Mark
  | none, ch => plain ch
  | some entity, ch =>
      if ch = ';'.toUInt8 then (none, resolved entity)
      else if Continues entity ch then (some (entity ++ [ch]), [])
      else ((plain ch).1, literal entity ++ (plain ch).2)

/-- What the parser contributes for the bytes of a page.  Markup leaves an open reference open, and
so does the end of the page. -/
def contributed (entity : Option (List UInt8)) (suppressed : Bool) : List (Option Item) → List Mark
  | [] => []
  | none :: reads => contributed entity suppressed reads
  | some (.char ch) :: reads =>
      if suppressed then contributed entity suppressed reads
      else (shownChar entity ch).2 ++ contributed (shownChar entity ch).1 suppressed reads
  | some (.tag closing name) :: reads =>
      let suppressed := (Item.tag closing name).suppress suppressed
      tagMarks suppressed name ++ contributed entity suppressed reads

/-- What it should contribute: an open reference is shown as it is before markup and before the end
of the page. -/
def intended (entity : Option (List UInt8)) (suppressed : Bool) : List (Option Item) → List Mark
  | [] => entity.elim [] literal
  | none :: reads => entity.elim [] literal ++ intended none suppressed reads
  | some (.char ch) :: reads =>
      if suppressed then intended entity suppressed reads
      else (shownChar entity ch).2 ++ intended (shownChar entity ch).1 suppressed reads
  | some (.tag closing name) :: reads =>
      let suppressed := (Item.tag closing name).suppress suppressed
      entity.elim [] literal ++ (tagMarks suppressed name ++ intended none suppressed reads)

/-- A reference that has been opened, and whether markup has interrupted it. -/
structure Pending where
  entity : List UInt8
  interrupted : Bool

namespace Pending

/-- A reference that has just been opened. -/
def opened (entity : List UInt8) : Pending := ⟨entity, false⟩

/-- Markup interrupts a reference. -/
def interrupt (pending : Pending) : Pending := { pending with interrupted := true }

/-- The open reference after a shown character. -/
def next : Option Pending → UInt8 → Option Pending
  | none, ch => (plain ch).1.map opened
  | some pending, ch =>
      if Continues pending.entity ch then some { pending with entity := pending.entity ++ [ch] }
      else (plain ch).1.map opened

/-- The character ends a reference that markup has interrupted, and that can be decoded. -/
def Decodes : Option Pending → UInt8 → Prop
  | none, _ => False
  | some pending, ch =>
      pending.interrupted ∧ ch = ';'.toUInt8 ∧ (remoteDecodeEntity pending.entity).isSome

instance : (pending : Option Pending) → (ch : UInt8) → Decidable (Decodes pending ch)
  | none, _ => inferInstanceAs (Decidable False)
  | some _, _ => inferInstanceAs (Decidable (_ ∧ _))

end Pending

/-- No block is started while a reference is open, no reference that markup has interrupted is
decoded, and none is open at the end. -/
def Settled (pending : Option Pending) (suppressed : Bool) : List (Option Item) → Prop
  | [] => pending.isNone
  | none :: reads => Settled (pending.map Pending.interrupt) suppressed reads
  | some (.char ch) :: reads =>
      if suppressed then Settled pending suppressed reads
      else ¬ Pending.Decodes pending ch ∧ Settled (Pending.next pending ch) suppressed reads
  | some (.tag closing name) :: reads =>
      let suppressed := (Item.tag closing name).suppress suppressed
      ¬ (pending.isSome ∧ Breaks suppressed name) ∧
        Settled (pending.map Pending.interrupt) suppressed reads

instance Settled.decidable (pending : Option Pending) (suppressed : Bool) :
    (reads : List (Option Item)) → Decidable (Settled pending suppressed reads)
  | [] => inferInstanceAs (Decidable (pending.isNone = true))
  | none :: reads => Settled.decidable (pending.map Pending.interrupt) suppressed reads
  | some (.char ch) :: reads =>
      haveI := Settled.decidable pending suppressed reads
      haveI := Settled.decidable (Pending.next pending ch) suppressed reads
      inferInstanceAs (Decidable (if suppressed then _ else _ ∧ _))
  | some (.tag closing name) :: reads =>
      haveI := Settled.decidable (pending.map Pending.interrupt)
        ((Item.tag closing name).suppress suppressed) reads
      inferInstanceAs (Decidable (_ ∧ _))

theorem foldl_literal (preview : Preview) (entity : List UInt8) :
    (literal entity).foldl Preview.add preview = preview.appendReference entity := by
  rw [literal, List.foldl_cons, List.foldl_map]
  rfl

theorem foldl_resolved (preview : Preview) (entity : List UInt8) :
    (resolved entity).foldl Preview.add preview =
      match remoteDecodeEntity entity with
      | some decoded => preview.appendTextChar decoded
      | none => (preview.appendReference entity).appendTextChar ';'.toUInt8 := by
  rw [resolved]
  cases remoteDecodeEntity entity with
  | some decoded => rfl
  | none =>
      dsimp only
      rw [List.foldl_append, foldl_literal]
      rfl

theorem showPlain_eq (preview : Preview) (suppressed : Bool) (ch : UInt8) :
    Screen.showPlain ⟨preview, suppressed, none⟩ ch =
      ⟨(plain ch).2.foldl Preview.add preview, suppressed, (plain ch).1⟩ := by
  rw [Screen.showPlain, plain]
  split
  · rfl
  · rfl

theorem display_char (preview : Preview) (entity : Option (List UInt8)) (ch : UInt8) :
    Screen.display ⟨preview, false, entity⟩ (.char ch) =
      ⟨(shownChar entity ch).2.foldl Preview.add preview, false, (shownChar entity ch).1⟩ := by
  cases entity with
  | none => exact showPlain_eq preview false ch
  | some entity =>
  change Screen.showInEntity ⟨preview, false, some entity⟩ entity ch = _
  rw [Screen.showInEntity, shownChar]
  by_cases semicolon : ch = ';'.toUInt8
  · rw [if_pos semicolon, if_pos semicolon]
    exact congrArg (Screen.mk · false none) (foldl_resolved preview entity).symm
  · by_cases continues : Continues entity ch
    · rw [if_neg semicolon, if_neg semicolon, if_pos continues, if_pos continues]
      rfl
    · rw [if_neg semicolon, if_neg semicolon, if_neg continues, if_neg continues]
      rw [List.foldl_append, foldl_literal]
      exact showPlain_eq _ false ch

theorem display_tag (preview : Preview) (suppressed : Bool) (entity : Option (List UInt8))
    (closing : Bool) (name : List UInt8) :
    Screen.display ⟨preview, suppressed, entity⟩ (.tag closing name) =
      ⟨(tagMarks ((Item.tag closing name).suppress suppressed) name).foldl Preview.add preview,
        (Item.tag closing name).suppress suppressed, entity⟩ := by
  rw [Screen.display, tagMarks]
  dsimp only
  by_cases breaks : Breaks ((Item.tag closing name).suppress suppressed) name
  · rw [if_pos breaks, if_pos breaks]
    rfl
  · rw [if_neg breaks, if_neg breaks]
    rfl

/-- The preview is made of the contributions. -/
theorem displays_eq (preview : Preview) (suppressed : Bool) (entity : Option (List UInt8))
    (reads : List (Option Item)) :
    (reads.reduceOption.foldl Screen.display ⟨preview, suppressed, entity⟩).preview =
      (contributed entity suppressed reads).foldl Preview.add preview := by
  induction reads generalizing preview suppressed entity with
  | nil => rfl
  | cons read reads ih =>
  cases read with
  | none =>
      rw [List.reduceOption_cons_of_none, contributed]
      exact ih preview suppressed entity
  | some item =>
  rw [List.reduceOption_cons_of_some, List.foldl_cons]
  cases item with
  | char ch =>
      rw [contributed]
      cases suppressed with
      | true =>
          rw [if_pos rfl]
          exact ih preview true entity
      | false =>
          rw [if_neg (by decide), List.foldl_append, display_char]
          exact ih _ false _
  | tag closing name =>
      rw [contributed, List.foldl_append, display_tag]
      exact ih _ _ entity

/-! ## When the parser contributes what it should -/

theorem length_literal (entity : List UInt8) : (literal entity).length = entity.length + 1 := by
  rw [literal, List.length_cons, List.length_map]

theorem length_resolved_le (entity : List UInt8) :
    (resolved entity).length ≤ entity.length + 2 := by
  rw [resolved]
  cases remoteDecodeEntity entity with
  | some decoded => exact Nat.le_add_left 1 _
  | none => rw [List.length_append, length_literal, List.length_singleton]

theorem literal_append (entity : List UInt8) (ch : UInt8) :
    literal (entity ++ [ch]) = literal entity ++ [.text ch] := by
  rw [literal, List.map_append]
  rfl

theorem plain_of_continues {entity : List UInt8} {ch : UInt8} (continues : Continues entity ch) :
    plain ch = (none, [.text ch]) := by
  apply if_neg
  intro ampersand
  have named := continues.1
  rw [ampersand] at named
  exact absurd named (by decide)

theorem length_contributed_le (suppressed : Bool) (reads : List (Option Item)) :
    (∀ entity, (contributed entity suppressed reads).length ≤
      (intended entity suppressed reads).length) ∧
    ∀ entity, (contributed (some entity) suppressed reads).length ≤
      entity.length + 1 + (intended none suppressed reads).length := by
  induction reads generalizing suppressed with
  | nil => exact ⟨fun _ => Nat.zero_le _, fun _ => Nat.zero_le _⟩
  | cons read reads ih =>
  cases read with
  | none =>
      obtain ⟨same, interrupted⟩ := ih suppressed
      constructor
      · intro entity
        rw [contributed, intended, List.length_append]
        cases entity with
        | none => exact (same none).trans (Nat.le_add_left _ _)
        | some entity =>
            change _ ≤ (literal entity).length + _
            rw [length_literal]
            exact interrupted entity
      · intro entity
        rw [contributed, intended]
        exact interrupted entity
  | some item =>
  cases item with
  | char ch =>
      obtain ⟨same, interrupted⟩ := ih suppressed
      constructor
      · intro entity
        rw [contributed, intended]
        split
        · exact same entity
        · rw [List.length_append, List.length_append]
          exact Nat.add_le_add_left (same _) _
      intro entity
      rw [contributed, intended]
      split
      · exact interrupted entity
      change _ ≤ _ + ((plain ch).2 ++ intended (plain ch).1 suppressed reads).length
      rw [shownChar]
      by_cases semicolon : ch = ';'.toUInt8
      · subst semicolon
        have resolved := length_resolved_le entity
        have rest := same none
        rw [if_pos rfl, List.length_append]
        change _ ≤ _ + ([Mark.text ';'.toUInt8] ++ intended none _ reads).length
        rw [List.length_append, List.length_singleton]
        dsimp only
        omega
      rw [if_neg semicolon]
      by_cases continues : Continues entity ch
      · have rest := interrupted (entity ++ [ch])
        rw [if_pos continues, plain_of_continues continues]
        rw [List.length_append, List.length_singleton] at rest
        rw [List.length_append, List.length_append, List.length_singleton]
        dsimp only [List.length_nil]
        omega
      · have rest := same (plain ch).1
        rw [if_neg continues, List.length_append, List.length_append,
          List.length_append, length_literal]
        dsimp only
        omega
  | tag closing name =>
  obtain ⟨same, interrupted⟩ := ih ((Item.tag closing name).suppress suppressed)
  constructor
  · intro entity
    rw [contributed, intended, List.length_append, List.length_append,
      List.length_append]
    cases entity with
    | none =>
        have rest := same none
        omega
    | some entity =>
        have rest := interrupted entity
        change _ ≤ (literal entity).length + _
        rw [length_literal]
        omega
  · intro entity
    have rest := interrupted entity
    rw [contributed, intended, List.length_append, List.length_append,
      List.length_append]
    change _ ≤ _ + (0 + _)
    omega

/-- An open reference that markup has interrupted was shown before the markup. -/
def Shown (suppressed : Bool) (reads : List (Option Item)) (entity : List UInt8) : Prop :=
  contributed (some entity) suppressed reads =
    literal entity ++ intended none suppressed reads

theorem break_ne_literal {marks rest : List Mark} {entity : List UInt8} :
    .lineBreak :: marks ≠ literal entity ++ rest := by
  intro same
  cases same

/-- At a tag while a reference is open: the tag must not start a new line, and the reference is
interrupted. -/
theorem tag_iff {suppressed : Bool} {name : List UInt8} {reads : List (Option Item)}
    (pending : Pending)
    (rest : Shown suppressed reads pending.entity ↔
      Settled (some pending.interrupt) suppressed reads) :
    tagMarks suppressed name ++ contributed (some pending.entity) suppressed reads =
        literal pending.entity ++ (tagMarks suppressed name ++ intended none suppressed reads) ↔
      ¬ ((some pending).isSome ∧ Breaks suppressed name) ∧
        Settled (some pending.interrupt) suppressed reads := by
  by_cases breaks : Breaks suppressed name
  · rw [tagMarks, if_pos breaks]
    constructor
    · exact fun same => absurd same break_ne_literal
    · exact fun settled => absurd ⟨rfl, breaks⟩ settled.1
  · rw [tagMarks, if_neg breaks, List.nil_append, List.nil_append, ← rest]
    exact (and_iff_right fun both => breaks both.2).symm

/-- At the end of an interrupted reference: it must not be one that can be decoded. -/
theorem semicolon_iff {suppressed : Bool} {entity : List UInt8} {reads : List (Option Item)}
    (rest : contributed none suppressed reads = intended none suppressed reads ↔
      Settled none suppressed reads) :
    resolved entity ++ contributed none suppressed reads =
        literal entity ++ ([.text ';'.toUInt8] ++ intended none suppressed reads) ↔
      ¬ Pending.Decodes (some ⟨entity, true⟩) ';'.toUInt8 ∧ Settled none suppressed reads := by
  rw [resolved, Pending.Decodes]
  cases decoded : remoteDecodeEntity entity with
  | some ch =>
      have short := (length_contributed_le suppressed reads).1 none
      constructor
      · intro same
        have lengths := congrArg List.length same
        simp only [List.length_append, List.length_singleton, length_literal] at lengths
        omega
      · intro settled
        exact absurd ⟨rfl, rfl, rfl⟩ settled.1
  | none =>
      rw [List.append_assoc, List.append_cancel_left_eq, List.append_cancel_left_eq, rest]
      exact (and_iff_right fun decodes => nomatch decodes.2.2).symm

theorem not_continues_semicolon (entity : List UInt8) : ¬ Continues entity ';'.toUInt8 :=
  fun continues => absurd continues.1 (by decide)

/-- A reference that markup has not interrupted is the one that the parser keeps. -/
theorem next_opened (entity : Option (List UInt8)) (ch : UInt8) :
    Pending.next (entity.map Pending.opened) ch = (shownChar entity ch).1.map Pending.opened := by
  cases entity with
  | none => rfl
  | some entity =>
  change ite (Continues entity ch) _ _ = _
  rw [shownChar]
  by_cases semicolon : ch = ';'.toUInt8
  · subst semicolon
    rw [if_neg (not_continues_semicolon entity), if_pos rfl]
    rfl
  · rw [if_neg semicolon]
    split
    · rfl
    · rfl

theorem not_decodes_opened (entity : Option (List UInt8)) (ch : UInt8) :
    ¬ Pending.Decodes (entity.map Pending.opened) ch := by
  cases entity with
  | none => exact id
  | some entity => exact fun decodes => nomatch decodes.1

/-- The parser contributes what it should exactly when the page is settled.  The second part is
about a reference that markup has interrupted. -/
theorem contributed_iff (suppressed : Bool) (reads : List (Option Item)) :
    (∀ entity : Option (List UInt8),
      contributed entity suppressed reads = intended entity suppressed reads ↔
        Settled (entity.map Pending.opened) suppressed reads) ∧
    ∀ entity, Shown suppressed reads entity ↔ Settled (some ⟨entity, true⟩) suppressed reads := by
  induction reads generalizing suppressed with
  | nil =>
      constructor
      · intro entity
        cases entity with
        | none => exact iff_of_true rfl rfl
        | some entity => exact iff_of_false (fun same => nomatch same) (fun same => nomatch same)
      · intro entity
        exact iff_of_false (fun same => nomatch same) (fun same => nomatch same)
  | cons read reads ih =>
  cases read with
  | none =>
      obtain ⟨same, interrupted⟩ := ih suppressed
      constructor
      · intro entity
        rw [contributed, intended, Settled]
        cases entity with
        | none => exact same none
        | some entity => exact interrupted entity
      · intro entity
        exact interrupted entity
  | some item =>
  cases item with
  | char ch =>
      obtain ⟨same, interrupted⟩ := ih suppressed
      constructor
      · intro entity
        rw [contributed, intended, Settled]
        split
        · exact same entity
        · rw [List.append_cancel_left_eq, same, next_opened]
          exact (and_iff_right (not_decodes_opened entity ch)).symm
      intro entity
      rw [Shown, contributed, intended, Settled]
      split
      · exact interrupted entity
      change _ = _ ++ ((plain ch).2 ++ intended (plain ch).1 suppressed reads) ↔
        _ ∧ Settled (ite (Continues entity ch) _ _) suppressed reads
      rw [shownChar]
      by_cases semicolon : ch = ';'.toUInt8
      · subst semicolon
        rw [if_pos rfl, if_neg (not_continues_semicolon entity)]
        exact semicolon_iff (same none)
      · have undecoded : ¬ Pending.Decodes (some ⟨entity, true⟩) ch :=
          fun decodes => semicolon decodes.2.1
        rw [if_neg semicolon, and_iff_right undecoded]
        by_cases continues : Continues entity ch
        · rw [if_pos continues, if_pos continues, plain_of_continues continues,
            ← interrupted, Shown, literal_append, List.append_assoc]
          rfl
        · rw [if_neg continues, if_neg continues, List.append_assoc,
            List.append_cancel_left_eq, List.append_cancel_left_eq]
          exact same (plain ch).1
  | tag closing name =>
  obtain ⟨same, interrupted⟩ := ih ((Item.tag closing name).suppress suppressed)
  constructor
  · intro entity
    rw [contributed, intended, Settled]
    cases entity with
    | none =>
        change _ = [] ++ _ ↔ _
        rw [List.nil_append, List.append_cancel_left_eq, same]
        exact (and_iff_right fun both => nomatch both.1).symm
    | some entity => exact tag_iff (.opened entity) (interrupted entity)
  · intro entity
    rw [Shown, contributed, intended, Settled]
    exact tag_iff ⟨entity, true⟩ (interrupted entity)

/-- The state of the preview that the callbacks of a request change. -/
structure Page where
  remote : Remote
  statusCode : UInt16
  loading : Bool
  ready : Bool
  status : String

/-- A call by the network. -/
inductive Callback where
  | headers (status : UInt16)
  | body (data : Option (List UInt8))
  | complete (success : Bool)

namespace Page

/-- The static data before any page is read. -/
def static : Page where
  remote := .static
  statusCode := 0
  loading := false
  ready := false
  status := "Ready"

/-- What `remote_navigate` does before a page is fetched. -/
def navigate (page : Page) : Page where
  remote := page.remote.reset
  statusCode := 0
  loading := true
  ready := false
  status := "Resolving host and connecting over HTTP..."

/-- `remote_headers`. -/
def remoteHeaders (page : Page) (status : UInt16) : Page := { page with statusCode := status }

/-- `remote_body`. -/
def remoteBody (page : Page) (data : Option (List UInt8)) : Page :=
  { page with remote := page.remote.body data }

/-- `remote_complete`. -/
def remoteComplete (page : Page) (success : Bool) : Page :=
  { page with
    loading := false
    ready := true
    status :=
      if success then
        if page.statusCode ≠ 0 then "HTTP text preview loaded" else "HTTP response received"
      else "HTTP request failed; check network configuration" }

def call (page : Page) : Callback → Page
  | .headers status => page.remoteHeaders status
  | .body data => page.remoteBody data
  | .complete success => page.remoteComplete success

end Page

/-- The bytes that a call delivers. -/
def Callback.data : Callback → Option (List UInt8)
  | .body data => data
  | _ => none

/-- The bytes that some calls deliver. -/
def document (calls : List Callback) : List UInt8 := (calls.map Callback.data).reduceOption.flatten

/-- Only the bytes of a page count for the parser. -/
theorem Page.remote_calls (page : Page) (calls : List Callback) :
    (calls.foldl call page).remote = page.remote.body (some (document calls)) := by
  have each : (calls.foldl call page).remote =
      (calls.map Callback.data).foldl Remote.body page.remote := by
    induction calls generalizing page with
    | nil => rfl
    | cons first calls ih =>
        rw [List.foldl_cons, List.map_cons, List.foldl_cons, ih]
        cases first with
        | headers status => rfl
        | body data => rfl
        | complete success => rfl
  exact each.trans (page.remote.feed_eq _)

/-- After a page was fetched, its preview is made of what the parser contributed, and this is what
it should have contributed exactly when the page is settled. -/
theorem ampersands_iff (page : Page) (calls : List Callback) :
    let reads := Mode.content.reads (document calls)
    let preview := (calls.foldl Page.call page.navigate).remote.preview
    preview = (contributed none false reads).foldl Preview.add page.navigate.remote.preview ∧
      (contributed none false reads = intended none false reads ↔ Settled none false reads) ∧
      (Settled none false reads →
        preview = (intended none false reads).foldl Preview.add page.navigate.remote.preview) := by
  intro reads preview
  have shown : preview =
      (contributed none false reads).foldl Preview.add page.navigate.remote.preview := by
    have screen := ((Remote.Marked.reset page.remote).body (document calls)).screen
    rw [← displays_eq, Mode.reduceOption_reads]
    exact (congrArg Remote.preview (page.navigate.remote_calls calls)).trans
      (congrArg Screen.preview screen)
  have settled := (contributed_iff false reads).1 none
  refine ⟨shown, settled, ?_⟩
  intro all
  rw [shown, settled.mpr all]

/-- An ampersand at the end is lost, one before a line break is moved behind it, and a reference is
decoded across a tag. -/
theorem ampersands_lost :
    let read data := Mode.content.reads (ascii data)
    let text data := ([.headers 200, .body (some (ascii data)), .complete true].foldl Page.call
      Page.static.navigate).remote.preview.text.text
    let wanted data :=
      ((intended none false (read data)).foldl Preview.add
        Page.static.navigate.remote.preview).text.text
    (text "Fish &" = ascii "Fish " ∧ wanted "Fish &" = ascii "Fish &") ∧
      (text "a&<br>-b" = ascii "a\n&-b" ∧ wanted "a&<br>-b" = ascii "a&\n-b") ∧
      (text "&am<b>p;" = ascii "&" ∧ wanted "&am<b>p;" = ascii "&amp;") := by
  decide +kernel

end Charis.Browser
