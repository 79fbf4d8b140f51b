import Charis.Lib.ByteMemory

/-!
# The physical page allocator

One bit per 4 KiB page, searched from a next-fit cursor and then from the start
of the bitmap.  Allocation hands out a page whose bit was clear and sets exactly
that bit; the address zero reports that no page is left.
-/

namespace Charis.Memory

/-- Size of a page in bytes. -/
abbrev pageSize : Nat := 4096

/-- Bytes of the allocation bitmap. -/
abbrev bitmapSize : Nat := 131072

theorem bitmapSize_pos : 0 < bitmapSize := by decide

/-- Physical address of the page that the first bit stands for. -/
abbrev bitmapBase : Nat := 0x100000

/-- The allocation bitmap and its next-fit cursor, which always is the index of
a byte of the bitmap. -/
structure Pmm where
  bitmap : Nat → BitVec 8
  lastFree : Nat
  lastFree_lt : lastFree < bitmapSize

namespace Pmm

/-- Physical address of the page that bit `bit` of byte `byte` stands for. -/
def pageAt (byte bit : Nat) : Nat := bitmapBase + (byte * 8 + bit) * pageSize

/-- Set the bit of a page and leave the cursor at its byte. -/
def take (pmm : Pmm) (byte bit : Nat) (byteLt : byte < bitmapSize) : Pmm where
  bitmap := fun query =>
    if query = byte then pmm.bitmap byte ||| (1#8 <<< bit) else pmm.bitmap query
  lastFree := byte
  lastFree_lt := byteLt

/-- The bit loop of `pmm_alloc_page` over one byte, with `remaining` bits left to
look at. -/
def scanBits (pmm : Pmm) (byte : Nat) (byteLt : byte < bitmapSize) (bit : Nat) :
    Nat → Option (Nat × Pmm)
  | 0 => none
  | remaining + 1 =>
      if (pmm.bitmap byte).getLsbD bit then
        scanBits pmm byte byteLt (bit + 1) remaining
      else
        some (pageAt byte bit, pmm.take byte bit byteLt)

/-- The byte loop of `pmm_alloc_page`, with `remaining` bytes left to look at. -/
def scanBytes (pmm : Pmm) (byte : Nat) : (remaining : Nat) →
    byte + remaining ≤ bitmapSize → Option (Nat × Pmm)
  | 0, _ => none
  | remaining + 1, inside =>
      if pmm.bitmap byte = 0xFF#8 then
        scanBytes pmm (byte + 1) remaining (by omega)
      else
        match scanBits pmm byte (by omega) 0 8 with
        | some result => some result
        | none => scanBytes pmm (byte + 1) remaining (by omega)

/-- `pmm_alloc_page`: the physical address of a page that was free, or zero. -/
def allocPage (pmm : Pmm) : Nat × Pmm :=
  have below := pmm.lastFree_lt
  match scanBytes pmm pmm.lastFree (bitmapSize - pmm.lastFree) (by omega) with
  | some result => result
  | none =>
      match scanBytes pmm 0 pmm.lastFree (by omega) with
      | some result => result
      | none => (0, pmm)

/-- `pmm_free_page`: clear the bit of an allocated page and move the cursor back
to it. -/
def freePage (pmm : Pmm) (address : Nat) : Pmm :=
  if address < bitmapBase then pmm
  else
    let page := (address - bitmapBase) / pageSize % 2 ^ 32
    if large : page ≥ bitmapSize * 8 then pmm
    else if (pmm.bitmap (page / 8)).getLsbD (page % 8) then
      { bitmap := fun query =>
          if query = page / 8 then
            pmm.bitmap (page / 8) &&& ~~~(1#8 <<< (page % 8))
          else
            pmm.bitmap query
        lastFree := if page / 8 < pmm.lastFree then page / 8 else pmm.lastFree
        lastFree_lt := by
          have := pmm.lastFree_lt
          split <;> omega }
    else pmm

/-- The allocator may still hand out the page at `address`. -/
def Available (pmm : Pmm) (address : Nat) : Prop :=
  ∃ byte bit, byte < bitmapSize ∧ bit < 8 ∧
    address = pageAt byte bit ∧
    (pmm.bitmap byte).getLsbD bit = false

variable {pmm pmm' : Pmm} {address : Nat}

theorem pageAt_inj {byte bit byte' bit' : Nat} (bitLt : bit < 8) (bitLt' : bit' < 8)
    (same : pageAt byte bit = pageAt byte' bit') : byte = byte' ∧ bit = bit' := by
  simp only [pageAt, bitmapBase, pageSize] at same
  omega

theorem Available.pos (free : pmm.Available address) : 0 < address := by
  obtain ⟨byte, bit, -, -, rfl, -⟩ := free
  simp only [pageAt, bitmapBase, pageSize]
  omega

theorem Available.aligned (free : pmm.Available address) : address % 4096 = 0 := by
  obtain ⟨byte, bit, -, -, rfl, -⟩ := free
  simp only [pageAt, bitmapBase, pageSize]
  omega

theorem Available.lt (free : pmm.Available address) : address < 2 ^ 33 := by
  obtain ⟨byte, bit, byteLt, bitLt, rfl, -⟩ := free
  simp only [pageAt, bitmapBase, pageSize, bitmapSize] at *
  omega

theorem getLsbD_take_self (pmm : Pmm) (byte bit query : Nat)
    (byteLt : byte < bitmapSize) (queryLt : query < 8) :
    ((pmm.take byte bit byteLt).bitmap byte).getLsbD query =
      ((pmm.bitmap byte).getLsbD query || decide (query = bit)) := by
  simp only [take, ↓reduceIte, BitVec.getLsbD_or, BitVec.getLsbD_shiftLeft, queryLt,
    decide_true, Bool.true_and, BitVec.getLsbD_one]
  congr 1
  simp only [Nat.reduceLT, decide_true, Bool.and_eq_decide]
  rw [decide_eq_decide]
  simp only [Bool.not_eq_eq_eq_not, Bool.not_true, decide_eq_false_iff_not, not_lt,
    decide_eq_true_eq]
  constructor
  · rintro ⟨above, exact⟩
    omega
  · rintro rfl
    simp

/-- Taking a page makes exactly that page unavailable. -/
theorem available_take {byte bit : Nat} (byteLt : byte < bitmapSize) (bitLt : bit < 8)
    (query : Nat) :
    (pmm.take byte bit byteLt).Available query ↔
      pmm.Available query ∧ query ≠ pageAt byte bit := by
  constructor
  · rintro ⟨byte', bit', byteLt', bitLt', rfl, clear⟩
    by_cases same : byte' = byte
    · subst same
      rw [getLsbD_take_self _ _ _ _ _ bitLt'] at clear
      simp only [Bool.or_eq_false_iff, decide_eq_false_iff_not] at clear
      exact ⟨⟨byte', bit', byteLt', bitLt', rfl, clear.1⟩,
        fun equal => clear.2 (pageAt_inj bitLt' bitLt equal).2⟩
    · simp only [take, same, ↓reduceIte] at clear
      exact ⟨⟨byte', bit', byteLt', bitLt', rfl, clear⟩,
        fun equal => same (pageAt_inj bitLt' bitLt equal).1⟩
  · rintro ⟨⟨byte', bit', byteLt', bitLt', rfl, clear⟩, different⟩
    refine ⟨byte', bit', byteLt', bitLt', rfl, ?_⟩
    by_cases same : byte' = byte
    · subst same
      rw [getLsbD_take_self _ _ _ _ _ bitLt', clear]
      simp only [Bool.false_or, decide_eq_false_iff_not]
      rintro rfl
      exact different rfl
    · simpa only [take, same, ↓reduceIte] using clear

/-- What an allocation step does: it takes one available page. -/
def Takes (pmm pmm' : Pmm) (address : Nat) : Prop :=
  pmm.Available address ∧
    ∀ query, pmm'.Available query ↔ pmm.Available query ∧ query ≠ address

theorem scanBits_takes {byte bit remaining : Nat} {byteLt : byte < bitmapSize}
    (inside : bit + remaining ≤ 8)
    (found : scanBits pmm byte byteLt bit remaining = some (address, pmm')) :
    Takes pmm pmm' address := by
  induction remaining generalizing bit with
  | zero => cases found
  | succ remaining ih =>
  simp only [scanBits] at found
  split at found
  · exact ih (by omega) found
  · next clear =>
      cases found
      exact ⟨⟨byte, bit, byteLt, by omega, rfl, by simpa using clear⟩,
        available_take byteLt (by omega)⟩

theorem scanBytes_takes {byte remaining : Nat} {inside : byte + remaining ≤ bitmapSize}
    (found : scanBytes pmm byte remaining inside = some (address, pmm')) :
    Takes pmm pmm' address := by
  induction remaining generalizing byte with
  | zero => cases found
  | succ remaining ih =>
  simp only [scanBytes] at found
  split at found
  · exact ih found
  · split at found
    · next result hit =>
        cases found
        exact scanBits_takes (by omega) hit
    · exact ih found

/-- An allocation either fails and changes nothing or takes one available
page. -/
theorem allocPage_cases (pmm : Pmm) :
    (pmm.allocPage = (0, pmm)) ∨
      Takes pmm pmm.allocPage.2 pmm.allocPage.1 := by
  simp only [allocPage]
  split
  · next result hit => exact .inr (scanBytes_takes hit)
  · split
    · next result hit => exact .inr (scanBytes_takes hit)
    · exact .inl rfl

theorem scanBits_isSome {byte bit remaining query : Nat} {byteLt : byte < bitmapSize}
    (clear : (pmm.bitmap byte).getLsbD query = false) (above : bit ≤ query)
    (below : query < bit + remaining) :
    (scanBits pmm byte byteLt bit remaining).isSome = true := by
  induction remaining generalizing bit with
  | zero => omega
  | succ remaining ih =>
  simp only [scanBits]
  split
  · next taken =>
      have later : bit ≠ query := by
        rintro rfl
        rw [clear] at taken
        cases taken
      exact ih (by omega) (by omega)
  · rfl

theorem scanBytes_isSome {byte remaining query bit : Nat}
    {inside : byte + remaining ≤ bitmapSize}
    (clear : (pmm.bitmap query).getLsbD bit = false) (bitLt : bit < 8)
    (above : byte ≤ query) (below : query < byte + remaining) :
    (scanBytes pmm byte remaining inside).isSome = true := by
  induction remaining generalizing byte with
  | zero => omega
  | succ remaining ih =>
  simp only [scanBytes]
  split
  · next full =>
      have later : byte ≠ query := by
        rintro rfl
        rw [full] at clear
        interval_cases bit <;> cases clear
      exact ih (by omega) (by omega)
  · split
    · rfl
    · next missed =>
        have later : byte ≠ query := by
          rintro rfl
          have found := @scanBits_isSome pmm byte 0 8 bit (by omega) clear
            (Nat.zero_le bit) (by omega)
          rw [missed] at found
          cases found
        exact ih (by omega) (by omega)

/-- An allocation succeeds as long as there is a page. -/
theorem takes_of_available (free : pmm.Available address) :
    Takes pmm pmm.allocPage.2 pmm.allocPage.1 := by
  obtain ⟨byte, bit, byteLt, bitLt, rfl, clear⟩ := free
  simp only [allocPage]
  split
  · next result hit => exact scanBytes_takes hit
  next missed =>
  split
  · next result hit => exact scanBytes_takes hit
  next missed' =>
  exfalso
  rcases Nat.lt_or_ge byte pmm.lastFree with early | late
  · have hit := @scanBytes_isSome pmm 0 pmm.lastFree byte bit
      (by have := pmm.lastFree_lt; omega) clear bitLt (Nat.zero_le _) (by omega)
    rw [missed'] at hit
    cases hit
  · have hit := @scanBytes_isSome pmm pmm.lastFree (bitmapSize - pmm.lastFree) byte
      bit (by omega) clear bitLt late (by omega)
    rw [missed] at hit
    cases hit

/-- At least `count` pages are left. -/
def Plenty (pmm : Pmm) (count : Nat) : Prop :=
  ∃ pages : Finset Nat, count ≤ pages.card ∧ ∀ page ∈ pages, pmm.Available page

theorem Plenty.mono {count less : Nat} (plenty : pmm.Plenty count) (le : less ≤ count) :
    pmm.Plenty less := by
  obtain ⟨pages, enough, free⟩ := plenty
  exact ⟨pages, le.trans enough, free⟩

/-- An allocation takes one of the pages that are left. -/
theorem Plenty.allocPage {count : Nat} (plenty : pmm.Plenty (count + 1)) :
    Takes pmm pmm.allocPage.2 pmm.allocPage.1 ∧ pmm.allocPage.2.Plenty count := by
  obtain ⟨pages, enough, free⟩ := plenty
  obtain ⟨page, member⟩ : pages.Nonempty := Finset.card_pos.mp (by omega)
  have taken := takes_of_available (free page member)
  refine ⟨taken, pages.erase pmm.allocPage.1, ?_, ?_⟩
  · have := Finset.pred_card_le_card_erase (s := pages) (a := pmm.allocPage.1)
    omega
  · intro query remains
    obtain ⟨different, before⟩ := Finset.mem_erase.mp remains
    exact (taken.2 query).mpr ⟨free query before, different⟩

end Pmm

end Charis.Memory
