import Charis.Boot.BootmemTags

/-!
# The colours of the framebuffer

From the tag to the pixel: which bits of a pixel the driver gives to red, green and blue, for
the framebuffers whose tag says where these components are.
-/

namespace Charis.Boot

open Charis.Lib

/-- `FB_VIRT_BASE`. -/
abbrev fbVirtBase : Nat := 0xFFFFA00000000000

export Charis.Memory (pageSize)

/-- `FB_TRANSPARENT`. -/
abbrev fbTransparent : Nat := 0

/-- `framebuffer_t`. -/
structure Framebuffer where
  physAddr : Nat := 0
  pitch : Nat := 0
  width : Nat := 0
  height : Nat := 0
  bpp : Nat := 0
  fbType : Nat := 0
  initialized : Bool := false
  pixels : Option Nat := none
  redPos : Nat := 0
  greenPos : Nat := 0
  bluePos : Nat := 0
  redMask : Nat := 0
  greenMask : Nat := 0
  blueMask : Nat := 0
  deriving DecidableEq, Repr

/-- `mask_at`. -/
def maskAt (pos bits : Nat) : Nat :=
  if bits = 0 ∨ 32 ≤ bits then 0 else ((2 ^ bits - 1) <<< pos) % 2 ^ 32

/-- The loop of `mask_bits` on what is left of the mask. -/
def maskBitsLoop : (remaining mask : Nat) → Nat
  | 0, _ => 0
  | remaining + 1, mask =>
      if mask = 0 then 0 else mask % 2 + maskBitsLoop remaining (mask / 2)

/-- `mask_bits`. -/
def maskBits (mask : Nat) : Nat := maskBitsLoop 32 mask

/-- `scale_channel`. -/
def scaleChannel (value outBits : Nat) : Nat :=
  if outBits = 0 then 0
  else if 8 ≤ outBits then (value <<< (outBits - 8)) % 2 ^ 32
  else (value * (2 ^ outBits - 1) + 127) / 255

/-- `fb_pack`. -/
def fbPack (fb : Framebuffer) (argb : Nat) : Nat :=
  if fb.initialized = false then 0
  else
    let r := scaleChannel (argb / 2 ^ 16 % 2 ^ 8) (maskBits fb.redMask)
    let g := scaleChannel (argb / 2 ^ 8 % 2 ^ 8) (maskBits fb.greenMask)
    let b := scaleChannel (argb % 2 ^ 8) (maskBits fb.blueMask)
    ((r <<< fb.redPos) % 2 ^ 32 &&& fb.redMask) |||
      ((g <<< fb.greenPos) % 2 ^ 32 &&& fb.greenMask) |||
        ((b <<< fb.bluePos) % 2 ^ 32 &&& fb.blueMask)

/-- The width of the components as `fb_init` takes it from the depth. -/
def componentBits (bpp : Nat) : Nat × Nat × Nat := if bpp = 16 then (5, 6, 5) else (8, 8, 8)

/-- The test `sane` of `fb_init`. -/
def Sane (bpp red green blue : Nat) : Prop :=
  red < bpp ∧ green < bpp ∧ blue < bpp ∧
    red + (componentBits bpp).1 ≤ bpp ∧ green + (componentBits bpp).2.1 ≤ bpp ∧
      blue + (componentBits bpp).2.2 ≤ bpp ∧ red ≠ green ∧ green ≠ blue ∧ red ≠ blue

instance (bpp red green blue : Nat) : Decidable (Sane bpp red green blue) :=
  inferInstanceAs (Decidable (_ ∧ _))

/-- The positions that are used in place of others that are not plausible. -/
def usualColours (bpp : Nat) : Nat × Nat × Nat := if bpp = 16 then (11, 5, 0) else (16, 8, 0)

/-- The colour positions that `fb_init` settles on. -/
def chosenColours (bpp : Nat) (colours : Nat × Nat × Nat) : Nat × Nat × Nat :=
  if Sane bpp colours.1 colours.2.1 colours.2.2 then colours else usualColours bpp

section driver

variable {σ : Type*} (vmmMapPage : σ → Nat → Nat → Bool × σ)

/-- The loop of `fb_init` that maps the surface page by page. -/
def mapSurface (addr : Nat) : (remaining i : Nat) → σ → Bool × σ
  | 0, _, state => (true, state)
  | remaining + 1, i, state =>
      match vmmMapPage state (fbVirtBase + i * pageSize)
          ((addr + i * pageSize) % 2 ^ 64 / pageSize * pageSize) with
      | (true, state) => mapSurface addr remaining (i + 1) state
      | (false, state) => (false, state)

/-- `fb_init`, where pages are mapped in some state of the machine: whether it succeeds, and
the framebuffer and the state that it leaves. -/
def fbInit (info : BootInfo) (fb : Framebuffer) (state : σ) : Bool × Framebuffer × σ :=
  if info.hasFramebuffer = false then (false, fb, state)
  else if info.framebufferType ≠ 1 then (false, fb, state)
  else if info.framebufferWidth = 0 ∨ info.framebufferHeight = 0 ∨
      (info.framebufferBpp ≠ 16 ∧ info.framebufferBpp ≠ 24 ∧ info.framebufferBpp ≠ 32) then
    (false, fb, state)
  else if info.framebufferPitch <
      info.framebufferWidth * (info.framebufferBpp / 8) % 2 ^ 32 then
    (false, fb, state)
  else
    let bytes := info.framebufferPitch * info.framebufferHeight
    if bytes = 0 ∨ 256 * 1024 * 1024 < bytes then (false, fb, state)
    else
      match mapSurface vmmMapPage info.framebufferAddr ((bytes + pageSize - 1) / pageSize) 0
          state with
      | (false, state) => (false, fb, state)
      | (true, state) =>
          let colours := chosenColours info.framebufferBpp info.colours
          let bits := componentBits info.framebufferBpp
          (true,
            { physAddr := info.framebufferAddr
              pitch := info.framebufferPitch
              width := info.framebufferWidth
              height := info.framebufferHeight
              bpp := info.framebufferBpp
              fbType := info.framebufferType
              initialized := true
              pixels := if info.framebufferBpp = 32 then some fbVirtBase else none
              redPos := colours.1
              greenPos := colours.2.1
              bluePos := colours.2.2
              redMask := maskAt colours.1 bits.1
              greenMask := maskAt colours.2.1 bits.2.1
              blueMask := maskAt colours.2.2 bits.2.2 },
            state)

end driver

/-- The address of a pixel. -/
def pixelAddress (fb : Framebuffer) (x y : Nat) : Nat :=
  fbVirtBase + y * fb.pitch + x * (fb.bpp / 8)

/-- `fb_put_pixel`. -/
def fbPutPixel (fb : Framebuffer) (memory : ByteMemory) (x y argb : Nat) : ByteMemory :=
  if fb.initialized = false then memory
  else if fb.width ≤ x ∨ fb.height ≤ y then memory
  else if argb = fbTransparent then memory
  else memory.writeLE (pixelAddress fb x y) (fb.bpp / 8) (fbPack fb argb)

/-- The position and the width of each component of a pixel. -/
structure Layout where
  red : Nat
  redBits : Nat
  green : Nat
  greenBits : Nat
  blue : Nat
  blueBits : Nat
  deriving DecidableEq, Repr

namespace Layout

def positions (layout : Layout) : Nat × Nat × Nat := (layout.red, layout.green, layout.blue)

def masks (layout : Layout) : Nat × Nat × Nat :=
  ((2 ^ layout.redBits - 1) <<< layout.red, (2 ^ layout.greenBits - 1) <<< layout.green,
    (2 ^ layout.blueBits - 1) <<< layout.blue)

/-- A colour as a pixel of the layout. -/
def pixel (layout : Layout) (argb : Nat) : Nat :=
  scaleChannel (argb / 2 ^ 16 % 2 ^ 8) layout.redBits <<< layout.red |||
    scaleChannel (argb / 2 ^ 8 % 2 ^ 8) layout.greenBits <<< layout.green |||
      scaleChannel (argb % 2 ^ 8) layout.blueBits <<< layout.blue

end Layout

/-- The layout that a framebuffer tag declares. -/
def Tag.layout (tag : Tag) : Layout :=
  ⟨tag.field 32 1, tag.field 33 1, tag.field 34 1, tag.field 35 1, tag.field 36 1,
    tag.field 37 1⟩

/-- Two components have no bit in common. -/
def Apart (first firstBits second secondBits : Nat) : Prop :=
  first + firstBits ≤ second ∨ second + secondBits ≤ first

/-- A tag for direct colours with components of the usual widths, which do not overlap. -/
structure DirectColour (tag : Tag) : Prop where
  size : 38 ≤ tag.size
  rgb : tag.field 29 1 = multibootFramebufferTypeRgb
  depth : tag.field 28 1 = 16 ∨ tag.field 28 1 = 24 ∨ tag.field 28 1 = 32
  widths : (tag.layout.redBits, tag.layout.greenBits, tag.layout.blueBits) =
    componentBits (tag.field 28 1)
  redGreen : Apart tag.layout.red tag.layout.redBits tag.layout.green tag.layout.greenBits
  greenBlue : Apart tag.layout.green tag.layout.greenBits tag.layout.blue tag.layout.blueBits
  redBlue : Apart tag.layout.red tag.layout.redBits tag.layout.blue tag.layout.blueBits

/-- The framebuffer has the positions and masks of a layout, and a pixel shows its colour. -/
structure Shows (fb : Framebuffer) (layout : Layout) : Prop where
  positions : (fb.redPos, fb.greenPos, fb.bluePos) = layout.positions
  masks : (fb.redMask, fb.greenMask, fb.blueMask) = layout.masks
  pixel : ∀ memory x y argb, x < fb.width → y < fb.height → argb ≠ fbTransparent →
    (fbPutPixel fb memory x y argb).readLE (pixelAddress fb x y) (fb.bpp / 8) = layout.pixel argb

theorem maskBitsLoop_low {bits remaining : Nat} (enough : bits ≤ remaining) :
    maskBitsLoop remaining (2 ^ bits - 1) = bits := by
  induction bits generalizing remaining with
  | zero => cases remaining <;> rfl
  | succ bits ih =>
  obtain ⟨rest, rfl⟩ := Nat.exists_eq_add_of_le' (Nat.le_trans (Nat.succ_pos bits) enough)
  have positive : 0 < 2 ^ bits := Nat.two_pow_pos bits
  have double : 2 ^ (bits + 1) = 2 * 2 ^ bits := Nat.pow_succ'
  have half : (2 ^ (bits + 1) - 1) / 2 = 2 ^ bits - 1 := by omega
  have odd : (2 ^ (bits + 1) - 1) % 2 = 1 := by omega
  rw [maskBitsLoop, if_neg (by omega), half, odd, ih (by omega), Nat.add_comm]

theorem maskBitsLoop_shift {mask pos remaining : Nat} (filled : mask ≠ 0) :
    maskBitsLoop (remaining + pos) (mask <<< pos) = maskBitsLoop remaining mask := by
  induction pos with
  | zero => rfl
  | succ pos ih =>
  have step : mask <<< (pos + 1) = 2 * mask <<< pos := by
    rw [Nat.shiftLeft_succ]
  have rest : mask <<< pos ≠ 0 := by
    rw [Nat.shiftLeft_eq]
    exact Nat.mul_ne_zero filled (Nat.two_pow_pos pos).ne'
  rw [← Nat.add_assoc, maskBitsLoop, if_neg (by omega), step, Nat.mul_mod_right,
    Nat.mul_div_cancel_left _ Nat.two_pos, Nat.zero_add, ih]

theorem maskBits_component {bits pos : Nat} (filled : 0 < bits) (fits : pos + bits ≤ 32) :
    maskBits ((2 ^ bits - 1) <<< pos) = bits := by
  have more : 2 ≤ 2 ^ bits := Nat.le_self_pow filled.ne' 2
  have split : (32 : Nat) = 32 - pos + pos := by omega
  rw [maskBits, split, maskBitsLoop_shift (by omega), maskBitsLoop_low (by omega)]

theorem scaleChannel_lt {value bits : Nat} (byte : value < 2 ^ 8) (narrow : bits ≤ 8) :
    scaleChannel value bits < 2 ^ bits := by
  unfold scaleChannel
  split
  next zero =>
    rw [zero]
    decide
  split
  next wide =>
    obtain rfl : bits = 8 := Nat.le_antisymm narrow wide
    simpa using Nat.lt_of_le_of_lt (Nat.mod_le _ _) byte
  · obtain ⟨most, equal⟩ := Nat.exists_eq_add_of_le' (Nat.two_pow_pos bits)
    rw [equal, Nat.div_lt_iff_lt_mul (by decide)]
    have scaled : value * most ≤ 255 * most := Nat.mul_le_mul_right _ (Nat.le_of_lt_succ byte)
    simp only [Nat.add_one_sub_one]
    omega

theorem component_and_mask {value bits pos : Nat} (small : value < 2 ^ bits)
    (fits : pos + bits ≤ 32) :
    ((value <<< pos) % 2 ^ 32 &&& (2 ^ bits - 1) <<< pos) = value <<< pos ∧
      value <<< pos < 2 ^ (pos + bits) := by
  have below : value <<< pos < 2 ^ (pos + bits) := by
    rw [Nat.shiftLeft_eq, Nat.pow_add, Nat.mul_comm]
    exact Nat.mul_lt_mul_of_pos_left small (Nat.two_pow_pos pos)
  have bound : 2 ^ (pos + bits) ≤ 2 ^ 32 := Nat.pow_le_pow_right (by decide) fits
  refine ⟨?_, below⟩
  rw [Nat.mod_eq_of_lt (Nat.lt_of_lt_of_le below bound), ← Nat.shiftLeft_and_distrib,
    Nat.and_two_pow_sub_one_of_lt_two_pow small]

/-- The components of a layout lie inside the pixel. -/
structure Layout.Fits (layout : Layout) (bpp : Nat) : Prop where
  redBits : 0 < layout.redBits ∧ layout.redBits ≤ 8
  greenBits : 0 < layout.greenBits ∧ layout.greenBits ≤ 8
  blueBits : 0 < layout.blueBits ∧ layout.blueBits ≤ 8
  red : layout.red + layout.redBits ≤ bpp
  green : layout.green + layout.greenBits ≤ bpp
  blue : layout.blue + layout.blueBits ≤ bpp
  depth : bpp ≤ 32

section packing

variable {layout : Layout} {fb : Framebuffer} {bpp : Nat}

theorem Layout.Fits.maskAt (fits : layout.Fits bpp) :
    (maskAt layout.red layout.redBits, maskAt layout.green layout.greenBits,
      maskAt layout.blue layout.blueBits) = layout.masks := by
  have component : ∀ pos bits, 0 < bits ∧ bits ≤ 8 → pos + bits ≤ bpp →
      Boot.maskAt pos bits = (2 ^ bits - 1) <<< pos := by
    intro pos bits width inside
    have depth := fits.depth
    have low : 2 ^ bits - 1 < 2 ^ bits := Nat.sub_lt (Nat.two_pow_pos bits) Nat.one_pos
    have below := (component_and_mask low (show pos + bits ≤ 32 by omega)).2
    have bound : 2 ^ (pos + bits) ≤ 2 ^ 32 := Nat.pow_le_pow_right (by decide) (by omega)
    rw [Boot.maskAt, if_neg (by omega), Nat.mod_eq_of_lt (Nat.lt_of_lt_of_le below bound)]
  rw [component _ _ fits.redBits fits.red, component _ _ fits.greenBits fits.green,
    component _ _ fits.blueBits fits.blue, Layout.masks]

/-- With the positions and the masks of a layout, a colour is packed as the layout says. -/
theorem fbPack_eq_pixel (fits : layout.Fits bpp) (initialized : fb.initialized = true)
    (positions : (fb.redPos, fb.greenPos, fb.bluePos) = layout.positions)
    (masks : (fb.redMask, fb.greenMask, fb.blueMask) = layout.masks) (argb : Nat) :
    fbPack fb argb = layout.pixel argb ∧ layout.pixel argb < 2 ^ bpp := by
  obtain ⟨redBits, greenBits, blueBits, red, green, blue, depth⟩ := fits
  simp only [Layout.positions, Layout.masks, Prod.mk.injEq] at positions masks
  obtain ⟨redPos, greenPos, bluePos⟩ := positions
  obtain ⟨redMask, greenMask, blueMask⟩ := masks
  have byte : ∀ value : Nat, value % 2 ^ 8 < 2 ^ 8 := fun value => Nat.mod_lt _ (by decide)
  have r := component_and_mask (scaleChannel_lt (byte (argb / 2 ^ 16)) redBits.2)
    (show layout.red + layout.redBits ≤ 32 by omega)
  have g := component_and_mask (scaleChannel_lt (byte (argb / 2 ^ 8)) greenBits.2)
    (show layout.green + layout.greenBits ≤ 32 by omega)
  have b := component_and_mask (scaleChannel_lt (byte argb) blueBits.2)
    (show layout.blue + layout.blueBits ≤ 32 by omega)
  have place : ∀ pos bits, pos + bits ≤ bpp → 2 ^ (pos + bits) ≤ 2 ^ bpp := fun _ _ inside =>
    Nat.pow_le_pow_right (by decide) inside
  constructor
  · rw [fbPack, if_neg (by simp [initialized]), redPos, greenPos, bluePos, redMask, greenMask,
      blueMask, maskBits_component redBits.1 (by omega), maskBits_component greenBits.1 (by omega),
      maskBits_component blueBits.1 (by omega)]
    dsimp only
    rw [r.1, g.1, b.1, Layout.pixel, Nat.or_assoc]
  · apply Nat.or_lt_two_pow
    · apply Nat.or_lt_two_pow
      · exact Nat.lt_of_lt_of_le r.2 (place _ _ red)
      · exact Nat.lt_of_lt_of_le g.2 (place _ _ green)
    · exact Nat.lt_of_lt_of_le b.2 (place _ _ blue)

end packing

/-! ## From the tag to the driver -/

section driver

variable {σ : Type*} {vmmMapPage : σ → Nat → Nat → Bool × σ} {info : BootInfo}
  {fb fb' : Framebuffer} {state state' : σ}

/-- A framebuffer that the driver has set up. -/
structure SetUp (info : BootInfo) (fb : Framebuffer) : Prop where
  initialized : fb.initialized = true
  bpp : fb.bpp = info.framebufferBpp
  positions : (fb.redPos, fb.greenPos, fb.bluePos) =
    chosenColours info.framebufferBpp info.colours
  masks : (fb.redMask, fb.greenMask, fb.blueMask) =
    (maskAt fb.redPos (componentBits fb.bpp).1, maskAt fb.greenPos (componentBits fb.bpp).2.1,
      maskAt fb.bluePos (componentBits fb.bpp).2.2)

/-- What `fb_init` asks of a framebuffer. -/
structure Usable (info : BootInfo) : Prop where
  present : info.hasFramebuffer = true
  direct : info.framebufferType = 1
  width : info.framebufferWidth ≠ 0
  height : info.framebufferHeight ≠ 0
  depth : info.framebufferBpp = 16 ∨ info.framebufferBpp = 24 ∨ info.framebufferBpp = 32
  scanline : info.framebufferWidth * (info.framebufferBpp / 8) % 2 ^ 32 ≤ info.framebufferPitch
  filled : info.framebufferPitch * info.framebufferHeight ≠ 0
  bytes : info.framebufferPitch * info.framebufferHeight ≤ 256 * 1024 * 1024

/-- The pages of the surface as `fb_init` counts them. -/
def surfacePages (info : BootInfo) : Nat :=
  (info.framebufferPitch * info.framebufferHeight + pageSize - 1) / pageSize

/-- What `fb_init` makes of a framebuffer that it accepts. -/
def framebufferOf (info : BootInfo) : Framebuffer :=
  let colours := chosenColours info.framebufferBpp info.colours
  let bits := componentBits info.framebufferBpp
  { physAddr := info.framebufferAddr
    pitch := info.framebufferPitch
    width := info.framebufferWidth
    height := info.framebufferHeight
    bpp := info.framebufferBpp
    fbType := info.framebufferType
    initialized := true
    pixels := if info.framebufferBpp = 32 then some fbVirtBase else none
    redPos := colours.1
    greenPos := colours.2.1
    bluePos := colours.2.2
    redMask := maskAt colours.1 bits.1
    greenMask := maskAt colours.2.1 bits.2.1
    blueMask := maskAt colours.2.2 bits.2.2 }

theorem fbInit_succeeds (succeeds : fbInit vmmMapPage info fb state = (true, fb', state')) :
    Usable info ∧
      mapSurface vmmMapPage info.framebufferAddr (surfacePages info) 0 state = (true, state') ∧
      fb' = framebufferOf info := by
  have refused : ∀ after : σ, (false, fb, after) ≠ (true, fb', state') := by
    intro after equal
    cases equal
  unfold fbInit at succeeds
  split at succeeds
  · exact absurd succeeds (refused _)
  next present =>
  split at succeeds
  · exact absurd succeeds (refused _)
  next direct =>
  split at succeeds
  · exact absurd succeeds (refused _)
  next shape =>
  split at succeeds
  · exact absurd succeeds (refused _)
  next scanline =>
  dsimp only at succeeds
  split at succeeds
  · exact absurd succeeds (refused _)
  next bytes =>
  split at succeeds
  · exact absurd succeeds (refused _)
  next mapped =>
  obtain ⟨-, rfl, rfl⟩ := succeeds
  refine ⟨?_, mapped, rfl⟩
  constructor
  · simpa using present
  · exact not_not.mp direct
  · omega
  · omega
  · omega
  · omega
  · omega
  · omega

theorem fbInit_setUp (succeeds : fbInit vmmMapPage info fb state = (true, fb', state')) :
    SetUp info fb' := by
  obtain ⟨-, -, rfl⟩ := fbInit_succeeds succeeds
  exact ⟨rfl, rfl, rfl, rfl⟩

end driver

theorem readLE_fbPutPixel {fb : Framebuffer} (initialized : fb.initialized = true)
    {x y argb : Nat} (column : x < fb.width) (row : y < fb.height) (drawn : argb ≠ fbTransparent)
    (whole : fb.bpp / 8 * 8 = fb.bpp) (small : fbPack fb argb < 2 ^ fb.bpp)
    (memory : ByteMemory) :
    (fbPutPixel fb memory x y argb).readLE (pixelAddress fb x y) (fb.bpp / 8) =
      fbPack fb argb := by
  have bytes : 256 ^ (fb.bpp / 8) = 2 ^ fb.bpp := by
    rw [show 256 = 2 ^ 8 from rfl, ← Nat.pow_mul, Nat.mul_comm, whole]
  rw [fbPutPixel, if_neg (by simp [initialized]), if_neg (by omega), if_neg drawn,
    ByteMemory.readLE_writeLE_self, bytes, Nat.mod_eq_of_lt small]

/-- The second colour field of the tag is the width of red, so that the positions that are
taken are never those of the tag, unless they are given up for the usual ones. -/
theorem chosenColours_iff {tag : Tag} (direct : DirectColour tag) :
    chosenColours (tag.field 28 1) tag.takenColours = tag.layout.positions ↔
      tag.layout.positions = usualColours (tag.field 28 1) := by
  have width : tag.field 33 1 = (usualColours (tag.field 28 1)).2.1 := by
    have red : tag.field 33 1 = (componentBits (tag.field 28 1)).1 :=
      congrArg Prod.fst direct.widths
    rw [red, componentBits, usualColours]
    split <;> rfl
  have large := direct.size
  have taken : tag.takenColours = (tag.field 32 1, tag.field 33 1, tag.field 34 1) := by
    rw [Tag.takenColours, if_pos ⟨direct.rgb, by omega⟩]
  rw [taken, chosenColours]
  split
  next sane =>
    obtain ⟨-, -, -, -, -, -, -, apart, -⟩ := sane
    constructor
    · intro same
      exact absurd (congrArg (fun colours => colours.2.1) same) apart
    · intro same
      have green : tag.field 34 1 = (usualColours (tag.field 28 1)).2.1 :=
        congrArg (fun colours => colours.2.1) same
      exact absurd (width.trans green.symm) apart
  · exact eq_comm

/-- The usual positions leave room for the components. -/
theorem usual_fits {tag : Tag} (direct : DirectColour tag)
    (usual : tag.layout.positions = usualColours (tag.field 28 1)) :
    tag.layout.Fits (tag.field 28 1) := by
  have widths := direct.widths
  have depth := direct.depth
  simp only [Layout.positions, usualColours, componentBits] at usual widths
  split at usual
  next sixteen =>
    rw [if_pos sixteen] at widths
    simp only [Prod.mk.injEq] at usual widths
    constructor <;> omega
  next other =>
    rw [if_neg other] at widths
    simp only [Prod.mk.injEq] at usual widths
    constructor <;> omega

/-- The driver shows the colours of a tag exactly when the tag declares the usual positions. -/
theorem fbInit_shows_iff {σ : Type*} {vmmMapPage : σ → Nat → Nat → Bool × σ}
    {state state' : σ} {block : ByteMemory} {tags : List Tag} {tag : Tag}
    {info info' : BootInfo} {fb fb' : Framebuffer} {fuel : Nat} (built : Built block tags)
    (last : lastFramebuffer tags = some tag) (direct : DirectColour tag) (enough : 512 ≤ fuel)
    (parsed : (bootmemParseMultiboot block fuel info).value = some info')
    (succeeds : fbInit vmmMapPage info' fb state = (true, fb', state')) :
    Shows fb' tag.layout ↔ tag.layout.positions = usualColours (tag.field 28 1) := by
  obtain ⟨positions, pairs, parses⟩ := built.parsed
  obtain ⟨display, colours⟩ := extracted_framebuffer info pairs
  have equal := (parses info fuel enough).symm.trans parsed
  rw [Option.some.injEq] at equal
  rw [last, Option.map_some] at display
  have taken : info'.colours = tag.takenColours := by
    rw [← equal]
    exact colours tag last
  have shown : info'.display = some tag.display := by
    rw [← equal]
    exact display
  have depth : info'.framebufferBpp = tag.field 28 1 := by
    unfold BootInfo.display at shown
    split at shown
    · rw [Option.some.injEq] at shown
      exact congrArg Display.bpp shown
    · cases shown
  have setUp := fbInit_setUp succeeds
  have chosen := setUp.positions
  rw [depth, taken] at chosen
  rw [← chosenColours_iff direct, ← chosen]
  constructor
  · intro shows
    exact shows.positions
  intro same
  have fits := usual_fits direct ((chosenColours_iff direct).mp (chosen ▸ same))
  have bpp : fb'.bpp = tag.field 28 1 := setUp.bpp.trans depth
  have masks : (fb'.redMask, fb'.greenMask, fb'.blueMask) = tag.layout.masks := by
    rw [setUp.masks, ← fits.maskAt, bpp, ← direct.widths]
    simp only [Layout.positions, Prod.mk.injEq] at same
    rw [same.1, same.2.1, same.2.2]
  have packs := fbPack_eq_pixel fits setUp.initialized same masks
  refine ⟨same, masks, ?_⟩
  intro memory x y argb column row drawn
  have whole : fb'.bpp / 8 * 8 = fb'.bpp := by
    have depths := direct.depth
    omega
  rw [readLE_fbPutPixel setUp.initialized column row drawn whole, (packs argb).1]
  rw [(packs argb).1, bpp]
  exact (packs argb).2

/-- What the parser and the driver make of a block, when every page can be mapped. -/
def parseAndInit (block : ByteMemory) : Option (Bool × Framebuffer × Unit) :=
  (bootmemParseMultiboot block 512 {}).value.map fun info =>
    fbInit (fun _ _ _ => (true, ())) info {} ()

theorem exists_run {block : ByteMemory} {red : Nat}
    (runs : (parseAndInit block).map (fun result => (result.1, result.2.1.redPos)) =
      some (true, red)) :
    ∃ info' fb', (bootmemParseMultiboot block 512 {}).value = some info' ∧
      fbInit (fun _ _ _ => (true, ())) info' {} () = (true, fb', ()) ∧ fb'.redPos = red := by
  unfold parseAndInit at runs
  cases parsed : (bootmemParseMultiboot block 512 {}).value with
  | none =>
      rw [parsed] at runs
      cases runs
  | some info' =>
      rw [parsed, Option.map_some, Option.map_some, Option.some.injEq] at runs
      obtain ⟨succeeds, position⟩ := Prod.mk.inj runs
      exact ⟨info', (fbInit (fun _ _ _ => (true, ())) info' {} ()).2.1, rfl,
        Prod.ext succeeds rfl, position⟩

/-- The framebuffer tag of the sample block. -/
def sampleFramebuffer : Tag :=
  ⟨multibootTagFramebuffer, [0, 0, 0, 0xFD, 0, 0, 0, 0, 16, 0, 0, 0, 4, 0, 0, 0, 2, 0, 0, 0,
    32, 1, 0, 0, 16, 8, 8, 8, 0, 8]⟩

theorem sampleBlock_shows :
    ∃ info' fb', (bootmemParseMultiboot sampleBlock 512 {}).value = some info' ∧
      fbInit (fun _ _ _ => (true, ())) info' {} () = (true, fb', ()) ∧
        Shows fb' sampleFramebuffer.layout := by
  obtain ⟨info', fb', parsed, succeeds, -⟩ := @exists_run sampleBlock 16 (by decide +kernel)
  refine ⟨info', fb', parsed, succeeds, ?_⟩
  have direct : DirectColour sampleFramebuffer :=
    ⟨by decide, rfl, .inr (.inr rfl), rfl, .inr (by decide), .inr (by decide), .inr (by decide)⟩
  exact (fbInit_shows_iff sampleBlock_built rfl direct (Nat.le_refl _) parsed succeeds).mpr rfl

/-- A framebuffer with red at bit 0, green at 8 and blue at 16. -/
def reversedFramebuffer : Tag :=
  ⟨multibootTagFramebuffer, [0, 0, 0, 0xFD, 0, 0, 0, 0, 16, 0, 0, 0, 4, 0, 0, 0, 2, 0, 0, 0,
    32, 1, 0, 0, 0, 8, 8, 8, 16, 8]⟩

def reversedBlock : ByteMemory := fun address =>
  [56, 0, 0, 0, 0, 0, 0, 0,
    8, 0, 0, 0, 38, 0, 0, 0, 0, 0, 0, 0xFD, 0, 0, 0, 0, 16, 0, 0, 0, 4, 0, 0, 0, 2, 0, 0, 0,
    32, 1, 0, 0, 0, 8, 8, 8, 16, 8, 0, 0,
    0, 0, 0, 0, 8, 0, 0, 0].getD address 0

/-- On that framebuffer red and blue are exchanged. -/
theorem reversedBlock_exchanged :
    Built reversedBlock [reversedFramebuffer] ∧ DirectColour reversedFramebuffer ∧
      ∃ info' fb', (bootmemParseMultiboot reversedBlock 512 {}).value = some info' ∧
        fbInit (fun _ _ _ => (true, ())) info' {} () = (true, fb', ()) ∧
          ¬ Shows fb' reversedFramebuffer.layout := by
  obtain ⟨info', fb', parsed, succeeds, red⟩ := @exists_run reversedBlock 16 (by decide +kernel)
  refine ⟨⟨by decide, .cons ⟨by decide, rfl, rfl, rfl⟩ (.nil rfl rfl), by decide, by decide⟩,
    ⟨by decide, rfl, .inr (.inr rfl), rfl, .inl (by decide), .inl (by decide), .inl (by decide)⟩,
    info', fb', parsed, succeeds, ?_⟩
  intro shows
  have declared : fb'.redPos = 0 := congrArg Prod.fst shows.positions
  rw [red] at declared
  exact absurd declared (by decide)

end Charis.Boot
