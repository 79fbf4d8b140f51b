import Charis.Boot.Bootmem

/-!
# Chains of tags

What the three loops over the tags have in common: from a position they go from tag to tag
along the same chain.  Each loop is described by what it does with the positions of a chain.
-/

namespace Charis.Boot

open Charis.Lib

variable {block : ByteMemory} {off budget used : Nat}

/-- The type of the tag at a position of a list of tags. -/
def tagType (block : ByteMemory) (off used : Nat) : Nat := block.readLE (off + used) 4

/-- The size of the tag at a position of a list of tags. -/
def tagSize (block : ByteMemory) (off used : Nat) : Nat := block.readLE (off + used + 4) 4

/-- The tag at a position is followed by another one. -/
structure Continues (block : ByteMemory) (off budget used : Nat) : Prop where
  other : tagType block off used ≠ multibootTagEnd
  header : 8 ≤ tagSize block off used
  fits : tagSize block off used ≤ budget - used
  room : used + paddedSize (tagSize block off used) < budget

/-- The positions of the tags that are passed on the way from one position to another. -/
inductive TagChain (block : ByteMemory) (off budget : Nat) : Nat → List Nat → Nat → Prop where
  | nil {used : Nat} : TagChain block off budget used [] used
  | cons {used last : Nat} {positions : List Nat} :
      Continues block off budget used →
      TagChain block off budget (used + paddedSize (tagSize block off used)) positions last →
      TagChain block off budget used (used :: positions) last

theorem paddedSize_of_le {size : Nat} (small : size + 7 < 2 ^ 32) :
    paddedSize size = (size + 7) / 8 * 8 := by
  rw [paddedSize, Nat.mod_eq_of_lt small]

namespace Continues

/-- The sums of the walk do not wrap around. -/
theorem next_mod (small : budget + 8 ≤ 2 ^ 32) (continues : Continues block off budget used) :
    (used + paddedSize (tagSize block off used)) % 2 ^ 32 =
      used + paddedSize (tagSize block off used) := by
  have room := continues.room
  exact Nat.mod_eq_of_lt (by omega)

theorem header_room (continues : Continues block off budget used) : used + 8 ≤ budget := by
  have header := continues.header
  have fits := continues.fits
  omega

end Continues

namespace TagChain

variable {positions : List Nat} {last : Nat}

theorem continues (chain : TagChain block off budget used positions last) {position : Nat}
    (member : position ∈ positions) : Continues block off budget position := by
  induction chain with
  | nil => cases member
  | cons continues _ ih =>
      rcases List.mem_cons.mp member with here | later
      · rw [here]
        exact continues
      · exact ih later

end TagChain

/-- A list of tags that ends after fewer than 256 others. -/
def Coherent (block : ByteMemory) (off budget : Nat) : Prop :=
  ∃ positions last, TagChain block off budget 0 positions last ∧ positions.length < 256 ∧
    tagType block off last = multibootTagEnd

/-- The reads of the header of a tag. -/
def headerSpans (off used : Nat) : List Span := [⟨off + used, 4⟩, ⟨off + used + 4, 4⟩]

/-- What the walk does once it has read a header. -/
theorem tagsWalkLoop_succ (remaining : Nat) :
    tagsWalkLoop block off budget (remaining + 1) used =
      (⟨(), headerSpans off used⟩ : Reads Unit) >>= fun _ =>
        if tagType block off used = multibootTagEnd then pure true
        else if tagSize block off used < 8 then pure false
        else if budget - used < tagSize block off used then pure false
        else if budget ≤ (used + paddedSize (tagSize block off used)) % 2 ^ 32 then pure false
        else tagsWalkLoop block off budget remaining
          ((used + paddedSize (tagSize block off used)) % 2 ^ 32) :=
  rfl

theorem tagsWalkLoop_end (ended : tagType block off used = multibootTagEnd) (remaining : Nat) :
    tagsWalkLoop block off budget (remaining + 1) used = ⟨true, headerSpans off used⟩ := by
  rw [tagsWalkLoop_succ]
  simp only [if_pos ended]
  rfl

theorem tagsWalkLoop_stop (small : budget + 8 ≤ 2 ^ 32) (inside : used < budget)
    (other : tagType block off used ≠ multibootTagEnd)
    (stops : ¬ Continues block off budget used) (remaining : Nat) :
    tagsWalkLoop block off budget (remaining + 1) used = ⟨false, headerSpans off used⟩ := by
  rw [tagsWalkLoop_succ]
  simp only [if_neg other]
  by_cases header : tagSize block off used < 8
  · simp only [if_pos header]
    rfl
  by_cases fits : budget - used < tagSize block off used
  · simp only [if_neg header, if_pos fits]
    rfl
  have wraps : budget ≤ (used + paddedSize (tagSize block off used)) % 2 ^ 32 := by
    by_contra passes
    rw [not_lt] at header fits
    rw [not_le] at passes
    have padded := @paddedSize_of_le (tagSize block off used) (by omega)
    rw [Nat.mod_eq_of_lt (by omega)] at passes
    exact stops ⟨other, header, fits, passes⟩
  simp only [if_neg header, if_neg fits, if_pos wraps]
  rfl

theorem tagsWalkLoop_continue (small : budget + 8 ≤ 2 ^ 32)
    (continues : Continues block off budget used) (remaining : Nat) :
    tagsWalkLoop block off budget (remaining + 1) used =
      ⟨(tagsWalkLoop block off budget remaining
          (used + paddedSize (tagSize block off used))).value,
        headerSpans off used ++ (tagsWalkLoop block off budget remaining
          (used + paddedSize (tagSize block off used))).spans⟩ := by
  rw [tagsWalkLoop_succ, continues.next_mod small]
  simp only [if_neg continues.other, if_neg (not_lt.mpr continues.header),
    if_neg (not_lt.mpr continues.fits), if_neg (not_le.mpr continues.room)]
  rfl

/-- The walk accepts the lists that end in time. -/
theorem tagsWalkLoop_value (small : budget + 8 ≤ 2 ^ 32) (inside : used < budget)
    (remaining : Nat) :
    (tagsWalkLoop block off budget remaining used).value = true ↔
      ∃ positions last, TagChain block off budget used positions last ∧
        positions.length < remaining ∧ tagType block off last = multibootTagEnd := by
  induction remaining generalizing used with
  | zero => simp [tagsWalkLoop]
  | succ remaining ih =>
  by_cases ended : tagType block off used = multibootTagEnd
  · rw [tagsWalkLoop_end ended]
    simp only [true_iff]
    exact ⟨[], used, .nil, Nat.succ_pos _, ended⟩
  by_cases continues : Continues block off budget used
  · rw [tagsWalkLoop_continue small continues, ih continues.room]
    constructor
    · rintro ⟨positions, last, chain, short, end_⟩
      exact ⟨used :: positions, last, .cons continues chain, Nat.succ_lt_succ short, end_⟩
    · rintro ⟨positions, last, chain, short, end_⟩
      cases chain with
      | nil => exact absurd end_ ended
      | cons _ rest => exact ⟨_, last, rest, Nat.lt_of_succ_lt_succ short, end_⟩
  · rw [tagsWalkLoop_stop small inside ended continues]
    simp only [Bool.false_eq_true, false_iff]
    rintro ⟨positions, last, chain, _, end_⟩
    cases chain with
    | nil => exact ended end_
    | cons continues' _ => exact continues continues'

theorem within_headerSpans {limit : Nat} {spans : List Span} :
    (∀ span ∈ headerSpans off used ++ spans, span.first + span.length ≤ limit) ↔
      off + used + 8 ≤ limit ∧ ∀ span ∈ spans, span.first + span.length ≤ limit := by
  simp only [headerSpans, List.cons_append, List.nil_append, List.forall_mem_cons]
  constructor
  · rintro ⟨_, second, rest⟩
    exact ⟨second, rest⟩
  · rintro ⟨header, rest⟩
    exact ⟨by omega, header, rest⟩

/-- The walk reads the header at every position that it comes to. -/
theorem tagsWalkLoop_within (small : budget + 8 ≤ 2 ^ 32) (inside : used < budget)
    (limit remaining : Nat) :
    (tagsWalkLoop block off budget remaining used).Within limit ↔
      ∀ positions last, TagChain block off budget used positions last →
        positions.length < remaining → off + last + 8 ≤ limit := by
  induction remaining generalizing used with
  | zero => simp [tagsWalkLoop, Reads.within_pure]
  | succ remaining ih =>
  have first : (∀ positions last, TagChain block off budget used positions last →
      positions.length < remaining + 1 → off + last + 8 ≤ limit) →
      off + used + 8 ≤ limit := fun every => every [] used .nil (Nat.succ_pos _)
  by_cases ended : tagType block off used = multibootTagEnd
  · rw [tagsWalkLoop_end ended, ← List.append_nil (headerSpans off used), Reads.Within,
      within_headerSpans]
    constructor
    · rintro ⟨header, _⟩ positions last chain _
      cases chain with
      | nil => exact header
      | cons continues _ => exact absurd ended continues.other
    · intro every
      exact ⟨first every, by simp⟩
  by_cases continues : Continues block off budget used
  · rw [tagsWalkLoop_continue small continues, Reads.Within, within_headerSpans]
    have rest := ih continues.room
    unfold Reads.Within at rest
    rw [rest]
    constructor
    · rintro ⟨header, later⟩ positions last chain short
      cases chain with
      | nil => exact header
      | cons _ chain => exact later _ last chain (Nat.lt_of_succ_lt_succ short)
    · intro every
      refine ⟨first every, ?_⟩
      intro positions last chain short
      exact every _ last (.cons continues chain) (Nat.succ_lt_succ short)
  · rw [tagsWalkLoop_stop small inside ended continues, ← List.append_nil (headerSpans off used),
      Reads.Within, within_headerSpans]
    constructor
    · rintro ⟨header, _⟩ positions last chain _
      cases chain with
      | nil => exact header
      | cons continues' _ => exact absurd continues' continues
    · intro every
      exact ⟨first every, by simp⟩

end Charis.Boot
