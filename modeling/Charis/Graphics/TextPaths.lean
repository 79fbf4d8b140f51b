import Charis.Graphics.Psf

/-!
# The two ways to draw text

A string is the same sequence of dots for both ways.  They store different words for a dot, so
that they leave the same memory only where no dot is stored differently.
-/

namespace Charis.Graphics

open Charis.Lib Charis.Lib.ByteMemory Charis.Boot

/-- A dot of a string: its column on the screen, its row in the glyph and its colour. -/
structure Dot where
  column : Nat
  row : Nat
  colour : Nat
  deriving DecidableEq

namespace Font

variable (font : Font) (fg bg : Nat)

/-- The colour of a dot of a glyph. -/
def colour (c : UInt8) (row col : Nat) : Nat := if font.pixelOn c row col then fg else bg

/-- The dots of the glyph of a character that is drawn at a column. -/
def glyphDots (drawX : Nat) (c : UInt8) : List Dot :=
  if font.Printable c then
    (List.range font.height).flatMap fun row =>
      (List.range font.width).map fun col => ⟨drawX + col, row, font.colour fg bg c row col⟩
  else []

/-- The dots of a string from its character number `i` on. -/
def dots (x limit : Nat) : Nat → List UInt8 → List Dot
  | _, [] => []
  | i, c :: str =>
      if c = 0 then []
      else if limit ≤ x + i * font.width then []
      else font.glyphDots fg bg (x + i * font.width) c ++ dots x limit (i + 1) str

end Font

section dots

variable {font : Font} {fg bg x limit i : Nat} {str : List UInt8} {dot : Dot}

theorem drawGlyph_eq {c : UInt8} (printable : font.Printable c) (drawX : Nat)
    (put : ByteMemory → Dot → ByteMemory) (memory : ByteMemory) :
    font.drawGlyph c (fun row col pixelOn memory =>
        put memory ⟨drawX + col, row, if pixelOn then fg else bg⟩) memory =
      (font.glyphDots fg bg drawX c).foldl put memory := by
  rw [Font.drawGlyph, Font.glyphDots, if_pos printable, List.foldl_flatMap]
  simp only [List.foldl_map]
  rfl

theorem drawLoop_eq {draw : Nat → UInt8 → ByteMemory → ByteMemory}
    {put : ByteMemory → Dot → ByteMemory}
    (draws : ∀ drawX c memory, drawX < limit →
      draw (drawX % 2 ^ 32) c memory = (font.glyphDots fg bg drawX c).foldl put memory)
    (memory : ByteMemory) :
    drawLoop font.width limit x draw i str memory =
      (font.dots fg bg x limit i str).foldl put memory := by
  induction str generalizing i memory with
  | nil => rfl
  | cons c str ih =>
  rw [drawLoop, Font.dots]
  split
  · rfl
  dsimp only
  split
  · rfl
  next inside => rw [ih, draws _ _ _ (not_le.mp inside), List.foldl_append]

/-- A dot belongs to a character of the string, which its column determines. -/
theorem mem_dots (mem : dot ∈ font.dots fg bg x limit i str) :
    ∃ j col c, str[j]? = some c ∧ col < font.width ∧ dot.row < font.height ∧
      dot.column = x + (i + j) * font.width + col ∧ x + (i + j) * font.width < limit ∧
      dot.colour = font.colour fg bg c dot.row col := by
  induction str generalizing i with
  | nil => cases mem
  | cons c str ih =>
  rw [Font.dots] at mem
  split at mem
  · cases mem
  split at mem
  · cases mem
  next inside =>
    rcases List.mem_append.mp mem with here | later
    · rw [Font.glyphDots] at here
      split at here
      · simp only [List.mem_flatMap, List.mem_map, List.mem_range] at here
        obtain ⟨row, inRow, col, inCol, rfl⟩ := here
        exact ⟨0, col, c, rfl, inCol, inRow, rfl, not_le.mp inside, rfl⟩
      · cases here
    · obtain ⟨j, col, other, found, inCol, inRow, column, left, colour⟩ := ih later
      have next : i + 1 + j = i + (j + 1) := by omega
      rw [next] at column left
      exact ⟨j + 1, col, other, found, inCol, inRow, column, left, colour⟩

/-- The place of a character and the column in its glyph are found from the column. -/
theorem place_unique {width k k' col col' : Nat} (inside : col < width) (inside' : col' < width)
    (same : k * width + col = k' * width + col') : k = k' ∧ col = col' := by
  have apart : ∀ {k k' : Nat}, k < k' → k * width + width ≤ k' * width := by
    intro k k' less
    rw [← Nat.succ_mul]
    exact Nat.mul_le_mul_right width less
  rcases Nat.lt_trichotomy k k' with less | rfl | less
  · have := apart less
    omega
  · omega
  · have := apart less
    omega

theorem dots_injective {dot' : Dot} (mem : dot ∈ font.dots fg bg x limit i str)
    (mem' : dot' ∈ font.dots fg bg x limit i str) (column : dot.column = dot'.column)
    (row : dot.row = dot'.row) : dot = dot' := by
  obtain ⟨j, col, c, found, inCol, _, place, _, colour⟩ := mem_dots mem
  obtain ⟨j', col', c', found', inCol', _, place', _, colour'⟩ := mem_dots mem'
  rw [place, place'] at column
  obtain ⟨index, rfl⟩ := place_unique inCol inCol' (show (i + j) * font.width + col =
    (i + j') * font.width + col' by omega)
  obtain rfl : j = j' := by omega
  rw [found, Option.some.injEq] at found'
  obtain ⟨dotColumn, dotRow, dotColour⟩ := dot
  obtain ⟨dotColumn', dotRow', dotColour'⟩ := dot'
  simp only at place place' row colour colour'
  rw [place, place', colour, colour', row, found']

end dots

section stores

variable (fb : Framebuffer) (y : Nat)

/-- The line of a dot, counted with 32 bits. -/
def line (dot : Dot) : Nat := (y + dot.row) % 2 ^ 32

/-- The store of the driver for a dot. -/
def driverStore (dot : Dot) : Option Store :=
  if dot.column < fb.width ∧ line y dot < fb.height ∧ dot.colour ≠ fbTransparent then
    some ⟨fbVirtBase + line y dot * fb.pitch + dot.column * 4, fbPack fb dot.colour⟩
  else none

/-- The store into the buffer of pixels for a dot. -/
def bufferStore (dot : Dot) : Option Store :=
  if y < fb.height ∧ dot.column < fb.width ∧ dot.row < fb.height - y then
    some ⟨fbVirtBase + 4 * (line y dot * fb.width + dot.column), dot.colour⟩
  else none

/-- The two ways store the same for a dot. -/
structure Agrees (dot : Dot) : Prop where
  drawn : y < fb.height → dot.column < fb.width → y + dot.row < fb.height →
    dot.colour ≠ fbTransparent ∧ fbPack fb dot.colour = dot.colour ∧
      (y + dot.row = 0 ∨ fb.pitch = 4 * fb.width)
  beyond : fb.height ≤ y → dot.column < fb.width → line y dot < fb.height →
    dot.colour = fbTransparent

end stores

/-- A framebuffer with pixels of four bytes, as the driver sets it up. -/
structure Surface (fb : Framebuffer) : Prop where
  initialized : fb.initialized = true
  bpp : fb.bpp = 32
  pixels : fb.pixels = some fbVirtBase
  width : 0 < fb.width
  height : 0 < fb.height
  pitch : 4 * fb.width ≤ fb.pitch
  size : fb.pitch * fb.height ≤ 256 * 1024 * 1024

namespace Surface

variable {fb : Framebuffer} {y : Nat}

theorem width_le (surface : Surface fb) : fb.width ≤ 64 * 1024 * 1024 := by
  have rows := Nat.mul_le_mul_left fb.pitch surface.height
  have size := surface.size
  have pitch := surface.pitch
  omega

theorem height_le (surface : Surface fb) : fb.height ≤ 64 * 1024 * 1024 := by
  have columns := Nat.mul_le_mul_right fb.height
    (surface.pitch.trans' (Nat.mul_le_mul_left 4 surface.width))
  have size := surface.size
  omega

end Surface

theorem fbInit_surface {σ : Type*} {vmmMapPage : σ → Nat → Nat → Bool × σ} {info : BootInfo}
    {fb fb' : Framebuffer} {state state' : σ}
    (succeeds : fbInit vmmMapPage info fb state = (true, fb', state'))
    (depth : info.framebufferBpp = 32)
    (pitch : 4 * info.framebufferWidth ≤ info.framebufferPitch) : Surface fb' := by
  have refused : ∀ after : σ, (false, fb, after) ≠ (true, fb', state') := by
    intro after equal
    cases equal
  unfold fbInit at succeeds
  split at succeeds
  · exact absurd succeeds (refused _)
  split at succeeds
  · exact absurd succeeds (refused _)
  split at succeeds
  · exact absurd succeeds (refused _)
  next shape =>
  split at succeeds
  · exact absurd succeeds (refused _)
  dsimp only at succeeds
  split at succeeds
  · exact absurd succeeds (refused _)
  next size =>
  split at succeeds
  · exact absurd succeeds (refused _)
  · obtain ⟨-, rfl, -⟩ := succeeds
    rw [not_or] at shape size
    constructor
    · rfl
    · exact depth
    · rfl
    · exact Nat.pos_of_ne_zero shape.1
    · exact Nat.pos_of_ne_zero fun zero => shape.2 (.inl zero)
    · exact pitch
    · exact not_lt.mp size.2

/-- A font whose glyphs are not larger than the loops over them allow. -/
structure SmallGlyphs (font : Font) : Prop where
  width : font.width ≤ 64
  height : font.height ≤ 64

theorem psfLoad_font {data : Font} {loaded font : Option Font}
    (loads : psfLoad (some data) loaded = (0, font)) : font = some data ∧ SmallGlyphs data := by
  unfold psfLoad at loads
  dsimp only at loads
  split at loads
  · cases loads
  split at loads
  · cases loads
  next valid =>
    simp only [not_or, not_lt] at valid
    cases loads
    exact ⟨rfl, valid.2.2.2.2.2.1, valid.2.2.2.2.2.2.1⟩

/-! ## Both ways store words -/

section paths

variable {fb : Framebuffer} {font : Font} {x y fg bg i : Nat} {str : List UInt8} {dot : Dot}

theorem column_lt (surface : Surface fb) (small : SmallGlyphs font)
    (mem : dot ∈ font.dots fg bg x fb.width i str) :
    dot.column < 128 * 1024 * 1024 ∧ dot.row < 64 := by
  obtain ⟨j, col, c, _, inCol, inRow, column, left, _⟩ := mem_dots mem
  have bound := surface.width_le
  have width := small.width
  have height := small.height
  omega

/-- Stores that are made dot by dot. -/
theorem storeAll_filterMap {dots : List Dot} {store : Dot → Option Store}
    {put : ByteMemory → Dot → ByteMemory}
    (puts : ∀ memory, ∀ dot ∈ dots, put memory dot =
      (store dot).elim memory fun store => memory.writeLE store.address 4 store.value)
    (memory : ByteMemory) : dots.foldl put memory = memory.storeAll 4 (dots.filterMap store) := by
  rw [ByteMemory.storeAll, List.foldl_filterMap]
  apply List.foldl_ext
  intro memory dot mem
  rw [puts memory dot mem]
  cases store dot with
  | none => rfl
  | some store => rfl

theorem glyphDots_of_not_printable {c : UInt8} (printable : ¬ font.Printable c) (drawX : Nat) :
    font.glyphDots fg bg drawX c = [] := if_neg printable

theorem psfDrawChars_eq (surface : Surface fb) (small : SmallGlyphs font) (memory : ByteMemory) :
    psfDrawChars fb (some font) memory x y str fg bg =
      memory.storeAll 4 ((font.dots fg bg x fb.width 0 str).filterMap (driverStore fb y)) := by
  have draws : ∀ drawX c memory, drawX < fb.width →
      psfDrawChar fb (some font) memory (drawX % 2 ^ 32) y c fg bg =
        (font.glyphDots fg bg drawX c).foldl
          (fun memory dot => fbPutPixel fb memory (dot.column % 2 ^ 32) (line y dot) dot.colour)
          memory := by
    intro drawX c memory inside
    have width := surface.width_le
    rw [psfDrawChar, if_neg (by rw [surface.initialized]; decide), Nat.mod_eq_of_lt (by omega)]
    split
    next printable => rw [glyphDots_of_not_printable printable, List.foldl_nil]
    next printable =>
      exact drawGlyph_eq (not_not.mp printable) drawX
        (fun memory dot => fbPutPixel fb memory (dot.column % 2 ^ 32) (line y dot) dot.colour)
        memory
  rw [psfDrawChars, drawLoop_eq draws]
  apply storeAll_filterMap
  intro memory dot mem
  have column := (column_lt surface small mem).1
  rw [Nat.mod_eq_of_lt (by omega), fbPutPixel, if_neg (by rw [surface.initialized]; decide),
    driverStore]
  split
  next outside =>
    rw [if_neg fun inside => by omega]
    rfl
  next inside =>
    rw [not_or, not_le, not_le] at inside
    split
    next transparent =>
      rw [if_neg fun shown => shown.2.2 transparent]
      rfl
    next drawn =>
      rw [if_pos ⟨inside.1, inside.2, drawn⟩, pixelAddress, surface.bpp]
      rfl

/-- The store for a dot of a character in the buffer. -/
theorem bufferPut_eq (surface : Surface fb) {drawX : Nat} (left : drawX < fb.width)
    (top : y < fb.height) (row col colour : Nat) (memory : ByteMemory) :
    (if col < fb.width - drawX ∧ row < fb.height - y then
      let pixelIndex := (y + row) % 2 ^ 32 * fb.width + (drawX + col) % 2 ^ 32
      if pixelIndex < fb.width * fb.height then
        memory.writeLE (fbVirtBase + 4 * pixelIndex) 4 colour
      else memory
    else memory) =
      (bufferStore fb y ⟨drawX + col, row, colour⟩).elim memory fun store =>
        memory.writeLE store.address 4 store.value := by
  have width := surface.width_le
  have height := surface.height_le
  by_cases inside : col < fb.width - drawX ∧ row < fb.height - y
  · have column : drawX + col < fb.width := by omega
    have lineEq : (y + row) % 2 ^ 32 = y + row := Nat.mod_eq_of_lt (by omega)
    have index : (y + row) * fb.width + (drawX + col) < fb.width * fb.height := by
      have rows := Nat.mul_le_mul_right fb.width (show y + row + 1 ≤ fb.height by omega)
      rw [Nat.succ_mul, Nat.mul_comm fb.height] at rows
      omega
    have shown : bufferStore fb y ⟨drawX + col, row, colour⟩ =
        some ⟨fbVirtBase + 4 * ((y + row) % 2 ^ 32 * fb.width + (drawX + col)), colour⟩ :=
      if_pos ⟨top, column, inside.2⟩
    rw [if_pos inside, shown, lineEq]
    dsimp only
    rw [Nat.mod_eq_of_lt (show drawX + col < 2 ^ 32 by omega), if_pos index]
    rfl
  · have hidden : bufferStore fb y ⟨drawX + col, row, colour⟩ = none :=
      if_neg fun shown => inside ⟨Nat.lt_sub_of_add_lt (by
        rw [Nat.add_comm]
        exact shown.2.1), shown.2.2⟩
    rw [if_neg inside, hidden]
    rfl

theorem psfDrawStringBuffer_eq (surface : Surface fb) (memory : ByteMemory) :
    psfDrawStringBuffer fb (some font) memory x y str fg bg fbVirtBase fb.width =
      memory.storeAll 4 ((font.dots fg bg x fb.width 0 str).filterMap (bufferStore fb y)) := by
  have width := surface.width_le
  have height := surface.height_le
  have draws : ∀ drawX c memory, drawX < fb.width →
      psfDrawCharBuffer fb (some font) memory (drawX % 2 ^ 32) y c fg bg fbVirtBase fb.width =
        (font.glyphDots fg bg drawX c).foldl
          (fun memory dot =>
            (bufferStore fb y dot).elim memory fun store =>
              memory.writeLE store.address 4 store.value)
          memory := by
    intro drawX c memory inside
    rw [psfDrawCharBuffer, if_neg (Nat.ne_of_gt surface.width), Nat.mod_eq_of_lt (by omega)]
    split
    next printable => rw [glyphDots_of_not_printable printable, List.foldl_nil]
    next printable =>
      split
      next outside =>
        have below : fb.height ≤ y := outside.resolve_left (not_le.mpr inside)
        have none : ∀ dot, bufferStore fb y dot = none :=
          fun dot => if_neg fun shown => absurd below (not_le.mpr shown.1)
        simp only [none, Option.elim_none]
        exact (List.foldl_fixed' (fun _ => rfl) _).symm
      next visible =>
        rw [not_or, not_le, not_le] at visible
        rw [← drawGlyph_eq (not_not.mp printable) drawX]
        congr 1
        funext row col pixelOn memory
        exact bufferPut_eq surface visible.1 visible.2 row col _ memory
  rw [psfDrawStringBuffer, if_neg (Nat.ne_of_gt surface.width), drawLoop_eq draws]
  apply storeAll_filterMap
  intro memory dot mem
  rfl

end paths

/-- A framebuffer and dots of which no two are at the same place. -/
structure Distinct (fb : Framebuffer) (dots : List Dot) : Prop where
  surface : Surface fb
  unique : ∀ dot ∈ dots, ∀ dot' ∈ dots, dot.column = dot'.column → dot.row = dot'.row → dot = dot'
  rows : ∀ dot ∈ dots, dot.row < 64
  colours : ∀ dot ∈ dots, dot.colour < 2 ^ 32

section places

variable {fb : Framebuffer} {dots : List Dot} {dot dot' : Dot} {store store' : Store}
  {y query : Nat}

/-- The number of the pixel of a dot. -/
def pixelNumber (fb : Framebuffer) (y : Nat) (dot : Dot) : Nat :=
  line y dot * fb.width + dot.column

theorem driverStore_some (stored : driverStore fb y dot = some store) :
    dot.column < fb.width ∧ line y dot < fb.height ∧ dot.colour ≠ fbTransparent ∧
      store = ⟨fbVirtBase + line y dot * fb.pitch + dot.column * 4, fbPack fb dot.colour⟩ := by
  unfold driverStore at stored
  split at stored
  next shown =>
    rw [Option.some.injEq] at stored
    exact ⟨shown.1, shown.2.1, shown.2.2, stored.symm⟩
  · cases stored

theorem bufferStore_some (stored : bufferStore fb y dot = some store) :
    y < fb.height ∧ dot.column < fb.width ∧ y + dot.row < fb.height ∧
      store = ⟨fbVirtBase + 4 * pixelNumber fb y dot, dot.colour⟩ := by
  unfold bufferStore at stored
  split at stored
  next shown =>
    rw [Option.some.injEq] at stored
    exact ⟨shown.1, shown.2.1, by omega, stored.symm⟩
  · cases stored

theorem Distinct.eq_of_number (distinct : Distinct fb dots) (mem : dot ∈ dots)
    (mem' : dot' ∈ dots) (inside : dot.column < fb.width) (inside' : dot'.column < fb.width)
    (same : pixelNumber fb y dot = pixelNumber fb y dot') : dot = dot' := by
  obtain ⟨lines, columns⟩ := place_unique inside inside' same
  apply distinct.unique dot mem dot' mem' columns
  have row := distinct.rows dot mem
  have row' := distinct.rows dot' mem'
  unfold line at lines
  omega

/-- Pixels are stored in the order of their numbers also where lines are longer. -/
theorem order_of_number (surface : Surface fb) (inside : dot.column < fb.width)
    (inside' : dot'.column < fb.width)
    (less : pixelNumber fb y dot < pixelNumber fb y dot') :
    line y dot * fb.pitch + dot.column * 4 + 4 ≤ line y dot' * fb.pitch + dot'.column * 4 := by
  have pitch := surface.pitch
  unfold pixelNumber at less
  rcases Nat.lt_trichotomy (line y dot) (line y dot') with above | same | below
  · have next := Nat.mul_le_mul_right fb.pitch (Nat.succ_le_of_lt above)
    rw [Nat.succ_mul] at next
    omega
  · rw [same] at less ⊢
    omega
  · have next := Nat.mul_le_mul_right fb.width (Nat.succ_le_of_lt below)
    rw [Nat.succ_mul] at next
    omega

theorem Distinct.driver (distinct : Distinct fb dots) (mem : dot ∈ dots) (mem' : dot' ∈ dots)
    (stored : driverStore fb y dot = some store) (stored' : driverStore fb y dot' = some store')
    (covers : store.Covers 4 query) (covers' : store'.Covers 4 query) : dot = dot' := by
  obtain ⟨inside, _, _, rfl⟩ := driverStore_some stored
  obtain ⟨inside', _, _, rfl⟩ := driverStore_some stored'
  simp only [Store.Covers] at covers covers'
  rcases Nat.lt_trichotomy (pixelNumber fb y dot) (pixelNumber fb y dot') with less | same | less
  · have := order_of_number distinct.surface inside inside' less
    omega
  · exact distinct.eq_of_number mem mem' inside inside' same
  · have := order_of_number distinct.surface inside' inside less
    omega

theorem Distinct.buffer (distinct : Distinct fb dots) (mem : dot ∈ dots) (mem' : dot' ∈ dots)
    (stored : bufferStore fb y dot = some store) (stored' : bufferStore fb y dot' = some store')
    (covers : store.Covers 4 query) (covers' : store'.Covers 4 query) : dot = dot' := by
  obtain ⟨_, inside, _, rfl⟩ := bufferStore_some stored
  obtain ⟨_, inside', _, rfl⟩ := bufferStore_some stored'
  simp only [Store.Covers] at covers covers'
  exact distinct.eq_of_number (y := y) mem mem' inside inside' (by omega)

end places

/-! ## Equal memories -/

section agreement

variable {fb : Framebuffer} {dots : List Dot} {y : Nat}

/-- Stores of different dots that cover a byte would be stores of the same dot. -/
def Unique (dots : List Dot) (store : Dot → Option Store) : Prop :=
  ∀ dot ∈ dots, ∀ dot' ∈ dots, ∀ first second query, store dot = some first →
    store dot' = some second → first.Covers 4 query → second.Covers 4 query → dot = dot'

theorem Unique.byte {store : Dot → Option Store} (unique : Unique dots store) {dot : Dot}
    (mem : dot ∈ dots) {first : Store} (stored : store dot = some first) {query : Nat}
    (covers : first.Covers 4 query) :
    (∃ other ∈ dots.filterMap store, other.Covers 4 query) ∧
      ∀ other ∈ dots.filterMap store, other.Covers 4 query →
        leByte other.value (query - other.address) =
          leByte first.value (query - first.address) := by
  constructor
  · exact ⟨first, List.mem_filterMap.mpr ⟨dot, mem, stored⟩, covers⟩
  · intro other otherMem otherCovers
    obtain ⟨dot', mem', stored'⟩ := List.mem_filterMap.mp otherMem
    obtain rfl := unique dot mem dot' mem' first other query stored stored' covers otherCovers
    rw [stored, Option.some.injEq] at stored'
    rw [stored']

/-- Both ways have the same effect on every memory. -/
def SameEffect (fb : Framebuffer) (y : Nat) (dots : List Dot) : Prop :=
  ∀ memory : ByteMemory,
    memory.storeAll 4 (dots.filterMap (bufferStore fb y)) =
      memory.storeAll 4 (dots.filterMap (driverStore fb y))

/-- Below the framebuffer the buffer is left as it is, so that the driver has to do so. -/
theorem driverStore_none (distinct : Distinct fb dots) (below : fb.height ≤ y)
    (same : SameEffect fb y dots) {dot : Dot} (mem : dot ∈ dots) :
    driverStore fb y dot = none := by
  by_contra drawn
  obtain ⟨store, stored⟩ := Option.ne_none_iff_exists'.mp drawn
  have unique : Unique dots (driverStore fb y) :=
    fun _ mem _ mem' _ _ _ => distinct.driver mem mem'
  have covers : store.Covers 4 store.address := ⟨le_rfl, by omega⟩
  obtain ⟨covered, agree⟩ := unique.byte mem stored covers
  obtain ⟨other, otherMem, _⟩ :=
    covered_of_storeAll_eq (fun memory => (same memory).symm) covered agree
  obtain ⟨dot', _, stored'⟩ := List.mem_filterMap.mp otherMem
  have inside := (bufferStore_some stored').1
  omega

theorem fbPack_lt (fb : Framebuffer) (argb : Nat) : fbPack fb argb < 2 ^ 32 := by
  have masked : ∀ value mask : Nat, value % 2 ^ 32 &&& mask < 2 ^ 32 := fun value mask =>
    Nat.lt_of_le_of_lt Nat.and_le_left (Nat.mod_lt _ (Nat.two_pow_pos 32))
  unfold fbPack
  split
  · exact Nat.two_pow_pos 32
  · exact Nat.or_lt_two_pow (Nat.or_lt_two_pow (masked _ _) (masked _ _)) (masked _ _)

/-- A dot that is stored at the same address by both ways is stored with the same value. -/
theorem values_eq (distinct : Distinct fb dots) (same : SameEffect fb y dots) {dot : Dot}
    (mem : dot ∈ dots) {store other : Store} (stored : bufferStore fb y dot = some store)
    (stored' : driverStore fb y dot = some other) (place : other.address = store.address) :
    other = store := by
  have uniqueBuffer : Unique dots (bufferStore fb y) :=
    fun _ mem _ mem' _ _ _ => distinct.buffer mem mem'
  have uniqueDriver : Unique dots (driverStore fb y) :=
    fun _ mem _ mem' _ _ _ => distinct.driver mem mem'
  generalize result : storeAll 4 (fun _ => 0) (dots.filterMap (bufferStore fb y)) = memory
  have written : memory.readLE store.address 4 = store.value % 256 ^ 4 := by
    apply readLE_eq_mod
    intro index below
    have covers : store.Covers 4 (store.address + index) := ⟨by omega, by omega⟩
    obtain ⟨covered, agree⟩ := uniqueBuffer.byte mem stored covers
    rw [← result, storeAll_of_covered covered agree, Nat.add_sub_cancel_left]
  have packed : memory.readLE store.address 4 = other.value % 256 ^ 4 := by
    apply readLE_eq_mod
    intro index below
    have covers : other.Covers 4 (store.address + index) := ⟨by omega, by omega⟩
    obtain ⟨covered, agree⟩ := uniqueDriver.byte mem stored' covers
    rw [← result, same, storeAll_of_covered covered agree, place, Nat.add_sub_cancel_left]
  have small : store.value < 256 ^ 4 := by
    rw [(bufferStore_some stored).2.2.2]
    exact distinct.colours dot mem
  have small' : other.value < 256 ^ 4 := by
    rw [(driverStore_some stored').2.2.2]
    exact fbPack_lt fb dot.colour
  rw [packed, Nat.mod_eq_of_lt small, Nat.mod_eq_of_lt small'] at written
  obtain ⟨address, value⟩ := store
  obtain ⟨address', value'⟩ := other
  exact congrArg₂ Store.mk place written

/-- A dot that the driver draws is drawn by the other way too, in the framebuffer. -/
theorem bufferStore_of_driver (distinct : Distinct fb dots) (inside : y < fb.height) {dot : Dot}
    (mem : dot ∈ dots) {store : Store} (stored : driverStore fb y dot = some store) :
    bufferStore fb y dot =
      some ⟨fbVirtBase + 4 * pixelNumber fb y dot, dot.colour⟩ := by
  obtain ⟨column, lineLt, _, _⟩ := driverStore_some stored
  have height := distinct.surface.height_le
  have row := distinct.rows dot mem
  refine if_pos ⟨inside, column, ?_⟩
  unfold line at lineLt
  omega

/-- In the framebuffer each dot is stored in the same way: dots with smaller numbers are, and the
driver stores those with larger numbers behind it. -/
theorem stores_eq (distinct : Distinct fb dots) (inside : y < fb.height)
    (same : SameEffect fb y dots) (number : Nat) :
    ∀ dot ∈ dots, pixelNumber fb y dot = number → bufferStore fb y dot ≠ none →
      driverStore fb y dot = bufferStore fb y dot := by
  have height := distinct.surface.height_le
  induction number using Nat.strong_induction_on with
  | _ number ih =>
  intro dot mem here shown
  obtain ⟨store, stored⟩ := Option.ne_none_iff_exists'.mp shown
  have unique : Unique dots (bufferStore fb y) :=
    fun _ mem _ mem' _ _ _ => distinct.buffer mem mem'
  have covers : store.Covers 4 store.address := ⟨le_rfl, by omega⟩
  obtain ⟨covered, agree⟩ := unique.byte mem stored covers
  obtain ⟨other, otherMem, first, last⟩ := covered_of_storeAll_eq same covered agree
  obtain ⟨dot', mem', stored'⟩ := List.mem_filterMap.mp otherMem
  obtain ⟨_, column, row, storeEq⟩ := bufferStore_some stored
  obtain ⟨column', lineLt', colour', otherEq⟩ := driverStore_some stored'
  rcases Nat.lt_trichotomy (pixelNumber fb y dot') (pixelNumber fb y dot) with
    less | equal | more
  · have shown' := bufferStore_of_driver distinct inside mem' stored'
    have earlier := ih _ (here ▸ less) dot' mem' rfl
      (by rw [shown']; exact Option.some_ne_none _)
    rw [stored', shown', Option.some.injEq] at earlier
    rw [earlier, storeEq] at last
    simp only at last
    omega
  · obtain rfl := distinct.eq_of_number mem' mem column' column equal
    have place : other.address = store.address := by
      have longer := Nat.mul_le_mul_left (line y dot') distinct.surface.pitch
      rw [otherEq, storeEq] at first ⊢
      simp only [pixelNumber, Nat.mul_add, Nat.mul_left_comm _ 4] at first longer ⊢
      omega
    rw [stored', stored, values_eq distinct same mem stored stored' place]
  · have later := order_of_number distinct.surface column column' more
    have longer := Nat.mul_le_mul_left (line y dot) distinct.surface.pitch
    rw [otherEq, storeEq] at first
    simp only [pixelNumber, Nat.mul_add, Nat.mul_left_comm _ 4] at first longer
    omega

/-- A dot is stored in the same way by both exactly when it agrees. -/
theorem agrees_iff (distinct : Distinct fb dots) {dot : Dot} (mem : dot ∈ dots) :
    driverStore fb y dot = bufferStore fb y dot ↔ Agrees fb y dot := by
  have height := distinct.surface.height_le
  have row := distinct.rows dot mem
  constructor
  · intro same
    constructor
    · intro inside column lineLt
      have lineEq : line y dot = y + dot.row := Nat.mod_eq_of_lt (by omega)
      have stored : bufferStore fb y dot =
          some ⟨fbVirtBase + 4 * pixelNumber fb y dot, dot.colour⟩ :=
        if_pos ⟨inside, column, by omega⟩
      obtain ⟨_, _, drawn, place⟩ := driverStore_some (same.trans stored)
      rw [Store.mk.injEq] at place
      refine ⟨drawn, place.2.symm, ?_⟩
      have lines : line y dot * (4 * fb.width) = line y dot * fb.pitch := by
        have addresses := place.1
        rw [pixelNumber, Nat.mul_add, ← Nat.mul_assoc, Nat.mul_comm 4, Nat.mul_assoc] at addresses
        omega
      rcases Nat.eq_zero_or_pos (line y dot) with top | lower
      · exact .inl (lineEq ▸ top)
      · exact .inr (Nat.eq_of_mul_eq_mul_left lower lines).symm
    · intro below column lineLt
      by_contra drawn
      have stored : driverStore fb y dot = some _ := if_pos ⟨column, lineLt, drawn⟩
      have inside := (bufferStore_some (same.symm.trans stored)).1
      omega
  intro agrees
  rcases Nat.lt_or_ge y fb.height with inside | below
  · by_cases shown : dot.column < fb.width ∧ y + dot.row < fb.height
    · obtain ⟨drawn, packs, stride⟩ := agrees.drawn inside shown.1 shown.2
      have lineEq : line y dot = y + dot.row := Nat.mod_eq_of_lt (by omega)
      have stored : driverStore fb y dot =
          some ⟨fbVirtBase + line y dot * fb.pitch + dot.column * 4, fbPack fb dot.colour⟩ :=
        if_pos ⟨shown.1, lineEq ▸ shown.2, drawn⟩
      have stored' : bufferStore fb y dot =
          some ⟨fbVirtBase + 4 * pixelNumber fb y dot, dot.colour⟩ :=
        if_pos ⟨inside, shown.1, by omega⟩
      have lines : line y dot * fb.pitch = 4 * (line y dot * fb.width) := by
        rcases stride with top | same
        · rw [lineEq, top, Nat.zero_mul, Nat.zero_mul]
        · rw [same, Nat.mul_left_comm]
      have place : fbVirtBase + line y dot * fb.pitch + dot.column * 4 =
          fbVirtBase + 4 * pixelNumber fb y dot := by
        rw [lines, pixelNumber]
        omega
      rw [stored, stored', packs, place]
    · have hidden : bufferStore fb y dot = none :=
        if_neg fun drawn => shown ⟨drawn.2.1, by omega⟩
      cases stored : driverStore fb y dot with
      | none => exact hidden.symm
      | some store =>
          rw [bufferStore_of_driver distinct inside mem stored] at hidden
          cases hidden
  · have hidden : bufferStore fb y dot = none :=
      if_neg fun shown => absurd below (not_le.mpr shown.1)
    have skipped : driverStore fb y dot = none :=
      if_neg fun drawn => drawn.2.2 (agrees.beyond below drawn.1 drawn.2.1)
    rw [hidden, skipped]

/-- Both ways leave the same memory exactly when every dot agrees. -/
theorem sameEffect_iff (distinct : Distinct fb dots) :
    SameEffect fb y dots ↔ ∀ dot ∈ dots, Agrees fb y dot := by
  constructor
  · intro same dot mem
    rw [← agrees_iff distinct mem]
    rcases Nat.lt_or_ge y fb.height with inside | below
    · by_cases shown : bufferStore fb y dot = none
      · cases stored : driverStore fb y dot with
        | none => exact shown.symm
        | some store =>
            rw [bufferStore_of_driver distinct inside mem stored] at shown
            cases shown
      · exact stores_eq distinct inside same _ dot mem rfl shown
    · have hidden : bufferStore fb y dot = none :=
        if_neg fun shown => absurd below (not_le.mpr shown.1)
      rw [driverStore_none distinct below same mem, hidden]
  · intro agrees memory
    congr 1
    apply List.filterMap_congr
    intro dot mem
    exact ((agrees_iff distinct mem).mpr (agrees dot mem)).symm

end agreement

/-- The direct way to draw a string leaves the same memory as its characters drawn one by one
exactly when every dot of it agrees. -/
theorem text_paths_iff {σ : Type*} {vmmMapPage : σ → Nat → Nat → Bool × σ} {info : BootInfo}
    {fb fb' : Framebuffer} {state state' : σ}
    (succeeds : fbInit vmmMapPage info fb state = (true, fb', state'))
    (depth : info.framebufferBpp = 32)
    (pitch : 4 * info.framebufferWidth ≤ info.framebufferPitch)
    {font : Font} {loaded font' : Option Font} (loads : psfLoad (some font) loaded = (0, font'))
    {x y fg bg : Nat} (fgSize : fg < 2 ^ 32) (bgSize : bg < 2 ^ 32) (str : List UInt8) :
    (∀ memory, psfDrawString fb' font' memory x y str fg bg =
        psfDrawChars fb' font' memory x y str fg bg) ↔
      ∀ dot ∈ font.dots fg bg x fb'.width 0 str, Agrees fb' y dot := by
  have surface := fbInit_surface succeeds depth pitch
  obtain ⟨rfl, small⟩ := psfLoad_font loads
  have distinct : Distinct fb' (font.dots fg bg x fb'.width 0 str) := by
    constructor
    · exact surface
    · exact fun _ mem _ mem' => dots_injective mem mem'
    · exact fun _ mem => (column_lt surface small mem).2
    · intro dot mem
      obtain ⟨_, _, _, _, _, _, _, _, colour⟩ := mem_dots mem
      rw [colour, Font.colour]
      split
      · exact fgSize
      · exact bgSize
  rw [← sameEffect_iff distinct]
  apply forall_congr'
  intro memory
  rw [psfDrawString, if_neg (by simp [surface.initialized]), surface.pixels]
  dsimp only
  rw [psfDrawChars_eq surface small, psfDrawStringBuffer_eq surface]

/-- A screen of one pixel. -/
def onePixel : BootInfo :=
  { hasFramebuffer := true, framebufferPitch := 4, framebufferWidth := 1, framebufferHeight := 1
    framebufferBpp := 32, framebufferType := 1, framebufferRed := 16, framebufferGreen := 8 }

/-- What the driver makes of it. -/
def onePixelBuffer : Framebuffer := (fbInit (fun _ _ _ => (true, ())) onePixel {} ()).2.1

/-- A font with one glyph of one dot. -/
def oneDot : Font := fun address =>
  [0x72, 0xB5, 0x4A, 0x86, 0, 0, 0, 0, 32, 0, 0, 0, 0, 0, 0, 0, 1, 0, 0, 0, 1, 0, 0, 0, 1, 0, 0, 0,
    1, 0, 0, 0, 0x80].getD address 0

theorem onePixel_succeeds :
    fbInit (fun _ _ _ => (true, ())) onePixel {} () = (true, onePixelBuffer, ()) := by
  decide

theorem oneDot_loads : psfLoad (some oneDot) none = (0, some oneDot) := by
  unfold psfLoad
  dsimp only
  rw [if_neg (by decide), if_neg (by decide)]

/-- A dot in a colour without alpha on a screen in the usual layout. -/
theorem text_paths_one_dot :
    fbInit (fun _ _ _ => (true, ())) onePixel {} () = (true, onePixelBuffer, ()) ∧
      psfLoad (some oneDot) none = (0, some oneDot) ∧
      ((∀ memory, psfDrawString onePixelBuffer (some oneDot) memory 0 0 [32] 0x20FF40 0 =
          psfDrawChars onePixelBuffer (some oneDot) memory 0 0 [32] 0x20FF40 0) ↔
        ∀ dot ∈ oneDot.dots 0x20FF40 0 0 onePixelBuffer.width 0 [32],
          Agrees onePixelBuffer 0 dot) ∧
      ∀ dot ∈ oneDot.dots 0x20FF40 0 0 onePixelBuffer.width 0 [32],
        Agrees onePixelBuffer 0 dot := by
  refine ⟨onePixel_succeeds, oneDot_loads, ?_, ?_⟩
  · exact text_paths_iff onePixel_succeeds rfl (by decide) oneDot_loads (by decide) (by decide) [32]
  · intro dot mem
    have only : oneDot.dots 0x20FF40 0 0 onePixelBuffer.width 0 [32] = [⟨0, 0, 0x20FF40⟩] := by
      decide
    rw [only, List.mem_singleton] at mem
    subst mem
    constructor
    · intro _ _ _
      decide
    · intro below
      exact absurd below (by decide)

/-- A dot in white: the direct way stores the alpha, too. -/
theorem white_dot_differs :
    fbInit (fun _ _ _ => (true, ())) onePixel {} () = (true, onePixelBuffer, ()) ∧
      psfLoad (some oneDot) none = (0, some oneDot) ∧
      psfDrawString onePixelBuffer (some oneDot) (fun _ => 0x55) 0 0 [32] 0xFFFFFFFF 0 ≠
        psfDrawChars onePixelBuffer (some oneDot) (fun _ => 0x55) 0 0 [32] 0xFFFFFFFF 0 := by
  refine ⟨onePixel_succeeds, oneDot_loads, ?_⟩
  intro same
  have alpha := congrFun same (fbVirtBase + 3)
  exact absurd alpha (by decide)

end Charis.Graphics
