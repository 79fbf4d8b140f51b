import Charis.Graphics.Barycentric
import Charis.Lib.Transition

/-!
# The pointer

The mouse sends packets of three bytes, which `mouse_handler` gets one by one.  A packet has the
movement along each axis in 9 bits, of which the handler only looks at 8.
-/

namespace Charis.Input

open Charis.Graphics (toS32)
open Charis.Lib

/-- A conversion from `u8` to `s8`. -/
def toS8 (byte : UInt8) : Int := (byte.toNat : Int).bmod (2 ^ 8)

/-- A conversion from `u32` to `s32`. -/
def asS32 (value : UInt32) : Int := toS32 value.toNat

/-- `mouse_state_t`, as `g_mouse` is initialised. -/
structure MouseState where
  x : Int := 50
  y : Int := 50
  dx : Int := 0
  dy : Int := 0
  buttons : UInt8 := 0
  deriving DecidableEq, Repr

/-- The variables of the driver. -/
structure Mouse extends MouseState where
  screenWidth : UInt32 := 800
  screenHeight : UInt32 := 600
  packet : Nat → UInt8 := fun _ => 0
  index : Nat := 0
  overflowSeen : Bool := false
  packets : UInt32 := 0

/-- `mouse_set_bounds` along an axis. -/
def boundAxis (size : UInt32) (place : Int) : Int :=
  if size = 0 then 0
  else if size ≤ 0x7FFFFFFF ∧ asS32 size ≤ place then asS32 (size - 1)
  else place

/-- `mouse_set_bounds`. -/
def mouseSetBounds (mouse : Mouse) (width height : UInt32) : Mouse :=
  { mouse with
    screenWidth := width
    screenHeight := height
    x := boundAxis width mouse.x
    y := boundAxis height mouse.y }

/-- The test of `mouse_handler` for the lower end of an axis. -/
def raise (place : Int) : Int := if place < 0 then 0 else place

/-- The test of `mouse_handler` for the upper end of an axis. -/
def lower (size : UInt32) (place : Int) : Int :=
  if size ≠ 0 ∧ asS32 size ≤ place then asS32 (size - 1) else place

/-- What `mouse_handler` does with a packet. -/
def applyPacket (mouse : Mouse) : Mouse :=
  let dx := toS8 (mouse.packet 1)
  let dy := toS8 (mouse.packet 2)
  { mouse with
    packets := mouse.packets + 1
    buttons := mouse.packet 0 &&& 0x07
    dx
    dy
    x := lower mouse.screenWidth (raise (toS32 (mouse.x + dx)))
    y := lower mouse.screenHeight (raise (toS32 (mouse.y - dy))) }

/-- `mouse_handler`, with the byte that it reads from the controller. -/
def mouseHandler (mouse : Mouse) (byte : UInt8) : Mouse :=
  if mouse.index = 0 ∧ byte &&& 0x08 = 0 then mouse
  else
    let overflowSeen := if mouse.index = 0 then decide (byte &&& 0xC0 ≠ 0) else mouse.overflowSeen
    let packet := Function.update mouse.packet mouse.index byte
    let index := mouse.index + 1
    if index < 3 then { mouse with packet, index, overflowSeen }
    else if overflowSeen then { mouse with packet, index := 0, overflowSeen := false }
    else applyPacket { mouse with packet, index := 0, overflowSeen }

/-- The first byte of a packet without overflow. -/
def IsHeader (byte : UInt8) : Prop := byte &&& 0x08 ≠ 0 ∧ byte &&& 0xC0 = 0

instance (byte : UInt8) : Decidable (IsHeader byte) := inferInstanceAs (Decidable (_ ∧ _))

/-- A number in two's complement with a sign and eight more bits. -/
def signed9 (negative : Bool) (low : UInt8) : Int :=
  low.toNat - if negative then 256 else 0

/-- The movement to the right in a packet. -/
def movementX (header low : UInt8) : Int := signed9 (header.toNat.testBit 4) low

/-- The movement up in a packet. -/
def movementY (header low : UInt8) : Int := signed9 (header.toNat.testBit 5) low

/-- The place on an axis that is nearest to a coordinate. -/
def nearest (size : UInt32) (place : Int) : Int := max 0 (min place (size.toNat - 1))

/-- The pointer is on the screen. -/
def Inside (mouse : Mouse) : Prop :=
  (0 ≤ mouse.x ∧ mouse.x < mouse.screenWidth.toNat) ∧
    0 ≤ mouse.y ∧ mouse.y < mouse.screenHeight.toNat

instance (mouse : Mouse) : Decidable (Inside mouse) := inferInstanceAs (Decidable (_ ∧ _))

/-- A driver, and the bytes of the packet that has begun. -/
structure Delivery where
  mouse : Mouse := {}
  pending : List UInt8 := []

/-- The mouse sends a byte, or the screen changes. -/
inductive Event where
  | byte (byte : UInt8)
  | bounds (width height : UInt32)

namespace Delivery

/-- What the driver makes of an event.  Every third byte ends a packet. -/
def next (delivery : Delivery) : Event → Delivery
  | .byte byte =>
      { mouse := mouseHandler delivery.mouse byte
        pending := if delivery.pending.length = 2 then [] else delivery.pending ++ [byte] }
  | .bounds width height =>
      { delivery with mouse := mouseSetBounds delivery.mouse width height }

/-- Packets begin with a header, and screens have a size that is not zero and is a number of
`s32`. -/
def WellFormed (delivery : Delivery) : Event → Prop
  | .byte byte => delivery.pending = [] → IsHeader byte
  | .bounds width height =>
      (0 < width.toNat ∧ width.toNat < 2 ^ 31) ∧ 0 < height.toNat ∧ height.toNat < 2 ^ 31

instance (delivery : Delivery) : (event : Event) → Decidable (delivery.WellFormed event)
  | .byte byte => inferInstanceAs (Decidable (_ → IsHeader byte))
  | .bounds _ _ => inferInstanceAs (Decidable (_ ∧ _))

/-- Where the pointer has to be after an event. -/
def target (delivery : Delivery) : Event → Int × Int
  | .byte up =>
      match delivery.pending with
      | [header, right] =>
          (nearest delivery.mouse.screenWidth (delivery.mouse.x + movementX header right),
            nearest delivery.mouse.screenHeight (delivery.mouse.y - movementY header up))
      | _ => (delivery.mouse.x, delivery.mouse.y)
  | .bounds width height => (nearest width delivery.mouse.x, nearest height delivery.mouse.y)

/-- The pointer gets where it has to be, and is on the screen. -/
def Follows (delivery : Delivery) (event : Event) : Prop :=
  ((delivery.next event).mouse.x, (delivery.next event).mouse.y) = delivery.target event ∧
    Inside (delivery.next event).mouse

instance (delivery : Delivery) (event : Event) : Decidable (delivery.Follows event) :=
  inferInstanceAs (Decidable (_ ∧ _))

/-- A movement along an axis that the driver gets right: one of 8 bits that does not end beyond
`s32`, one on a screen with only one place, or one whose lower 8 bits are zero and which does not
show because the pointer is already at the end of the axis. -/
def Faithful (size : UInt32) (movement place finish : Int) : Prop :=
  (-128 ≤ movement ∧ movement ≤ 127 ∧ finish < 2 ^ 31) ∨ size.toNat = 1 ∨
    (movement = -256 ∧ nearest size finish = place)

instance (size : UInt32) (movement place finish : Int) :
    Decidable (Faithful size movement place finish) :=
  inferInstanceAs (Decidable (_ ∨ _))

/-- Both movements of the packet that an event ends are ones that the driver gets right. -/
def Accurate (delivery : Delivery) : Event → Prop
  | .byte up =>
      match delivery.pending with
      | [header, right] =>
          Faithful delivery.mouse.screenWidth (movementX header right) delivery.mouse.x
              (delivery.mouse.x + movementX header right) ∧
            Faithful delivery.mouse.screenHeight (movementY header up) delivery.mouse.y
              (delivery.mouse.y - movementY header up)
      | _ => True
  | .bounds _ _ => True

instance : (delivery : Delivery) → (event : Event) → Decidable (delivery.Accurate event)
  | ⟨_, [_, _]⟩, .byte _ => inferInstanceAs (Decidable (_ ∧ _))
  | ⟨_, []⟩, .byte _ => .isTrue trivial
  | ⟨_, [_]⟩, .byte _ => .isTrue trivial
  | ⟨_, _ :: _ :: _ :: _⟩, .byte _ => .isTrue trivial
  | _, .bounds _ _ => .isTrue trivial

end Delivery

section Axis

variable {size : UInt32} {place : Int}

theorem asS32_eq (small : size.toNat < 2 ^ 31) : asS32 size = size.toNat := by
  apply Graphics.toS32_of_small
  · omega
  · omega

theorem asS32_sub_one (positive : 0 < size.toNat) (small : size.toNat < 2 ^ 31) :
    asS32 (size - 1) = size.toNat - 1 := by
  have one : (1 : UInt32).toNat ≤ size.toNat := positive
  have less : (size - 1).toNat = size.toNat - 1 := UInt32.toNat_sub_of_le _ _ one
  rw [asS32_eq (by omega), less]
  omega

theorem size_ne_zero (positive : 0 < size.toNat) : size ≠ 0 := by
  intro zero
  rw [zero] at positive
  exact absurd positive (by decide)

theorem lower_raise (positive : 0 < size.toNat) (small : size.toNat < 2 ^ 31) (place : Int) :
    lower size (raise place) = nearest size place := by
  rw [lower, asS32_eq small, asS32_sub_one positive small, raise, nearest]
  simp only [ne_eq, size_ne_zero positive, not_false_eq_true, true_and]
  split
  · omega
  · omega

theorem boundAxis_eq (positive : 0 < size.toNat) (small : size.toNat < 2 ^ 31)
    (above : 0 ≤ place) : boundAxis size place = nearest size place := by
  have most : size ≤ 0x7FFFFFFF := by
    rw [UInt32.le_iff_toNat_le]
    exact Nat.le_of_lt_succ small
  rw [boundAxis, if_neg (size_ne_zero positive), asS32_eq small, asS32_sub_one positive small,
    nearest]
  simp only [most, true_and]
  split
  · omega
  · omega

theorem nearest_inside (positive : 0 < size.toNat) (place : Int) :
    0 ≤ nearest size place ∧ nearest size place < size.toNat := by
  rw [nearest]
  omega

theorem bmod_byte {bits : Nat} (small : bits < 256) :
    (bits : Int).bmod (2 ^ 8) = if bits < 128 then (bits : Int) else bits - 256 := by
  simp only [Int.bmod]
  omega

theorem toS8_eq (low : UInt8) :
    toS8 low = if low.toNat < 128 then (low.toNat : Int) else low.toNat - 256 :=
  bmod_byte low.toNat_lt

theorem nearest_toS32 (positive : 0 < size.toNat) (small : size.toNat < 2 ^ 31)
    (low : -2 ^ 31 ≤ place) (high : place < 2 ^ 32) :
    nearest size (toS32 place) = if place < 2 ^ 31 then nearest size place else 0 := by
  simp only [nearest, toS32, Int.bmod]
  generalize size.toNat = places at positive small ⊢
  by_cases fits : place < 2 ^ 31
  · simp only [fits, if_true]
    omega
  · simp only [fits, if_false]
    omega

/-- Adding the lower 8 bits of a movement, as `mouse_handler` does, gets to the right place exactly
if the movement is one that the driver gets right. -/
theorem nearest_movement_iff {size : UInt32} {low : UInt8} {place forward delta : Int}
    (positive : 0 < size.toNat) (small : size.toNat < 2 ^ 31)
    (inside : 0 ≤ place ∧ place < size.toNat) (direction : forward = 1 ∨ forward = -1)
    (negative : Bool) (moved : delta = forward * toS8 low) :
    nearest size (toS32 (place + delta)) =
        nearest size (place + forward * signed9 negative low) ↔
      Delivery.Faithful size (signed9 negative low) place
        (place + forward * signed9 negative low) := by
  have byte := low.toNat_lt
  have bounds : -2 ^ 31 ≤ place + delta ∧ place + delta < 2 ^ 32 := by
    rw [moved, toS8_eq]
    rcases direction with rfl | rfl <;> split <;> omega
  rw [nearest_toS32 positive small bounds.1 bounds.2, moved, toS8_eq, Delivery.Faithful]
  simp only [signed9, nearest]
  generalize size.toNat = places at positive small inside ⊢
  generalize low.toNat = bits at byte ⊢
  have sign : (if negative then (256 : Int) else 0) = 0 ∨
      (if negative then (256 : Int) else 0) = 256 := by
    cases negative
    · exact .inl rfl
    · exact .inr rfl
  rcases direction with rfl | rfl <;> rcases sign with sign | sign <;>
  · rw [sign]
    omega

end Axis

/-! ## Packets -/

namespace Delivery

variable {delivery : Delivery}

/-- The driver has the bytes of the packet that has begun, and the pointer is on a screen. -/
structure Ready (delivery : Delivery) : Prop where
  index : delivery.mouse.index = delivery.pending.length
  short : delivery.pending.length < 3
  stored : ∀ k (inside : k < delivery.pending.length), delivery.mouse.packet k = delivery.pending[k]
  regular : delivery.mouse.overflowSeen = false
  width : 0 < delivery.mouse.screenWidth.toNat ∧ delivery.mouse.screenWidth.toNat < 2 ^ 31
  height : 0 < delivery.mouse.screenHeight.toNat ∧ delivery.mouse.screenHeight.toNat < 2 ^ 31
  inside : Inside delivery.mouse

theorem ready_start : Ready {} where
  index := rfl
  short := by decide
  stored := nofun
  regular := rfl
  width := by decide
  height := by decide
  inside := by decide

/-- The packet that a third byte ends. -/
theorem Ready.handler_last {header right up : UInt8} (ready : Ready delivery)
    (begun : delivery.pending = [header, right]) :
    mouseHandler delivery.mouse up =
      applyPacket { delivery.mouse with
        packet := Function.update delivery.mouse.packet 2 up, index := 0, overflowSeen := false } := by
  have index := ready.index
  rw [begun] at index
  simp only [List.length_cons, List.length_nil, Nat.zero_add, Nat.reduceAdd] at index
  simp [mouseHandler, index, ready.regular]

/-- A byte that does not end its packet. -/
theorem Ready.handler_early {byte : UInt8} (ready : Ready delivery)
    (wellFormed : delivery.WellFormed (.byte byte)) (early : delivery.pending.length ≠ 2) :
    mouseHandler delivery.mouse byte =
      { delivery.mouse with
        packet := Function.update delivery.mouse.packet delivery.pending.length byte
        index := delivery.pending.length + 1
        overflowSeen := false } := by
  have short := ready.short
  have room : delivery.pending.length + 1 < 3 := by omega
  rw [mouseHandler, ready.index]
  by_cases first : delivery.pending.length = 0
  · have header := wellFormed (List.length_eq_zero_iff.mp first)
    simp [first, header.1, header.2]
  · simp [first, room, ready.regular]

/-- What an event that ends a packet leaves. -/
theorem Ready.next_last {header right up : UInt8} (ready : Ready delivery)
    (begun : delivery.pending = [header, right]) :
    delivery.next (.byte up) =
      { mouse := applyPacket { delivery.mouse with
          packet := Function.update delivery.mouse.packet 2 up
          index := 0
          overflowSeen := false }
        pending := [] } := by
  rw [next, ready.handler_last begun, begun]
  rfl

/-- What another byte leaves. -/
theorem Ready.next_early {byte : UInt8} (ready : Ready delivery)
    (wellFormed : delivery.WellFormed (.byte byte)) (early : delivery.pending.length ≠ 2) :
    delivery.next (.byte byte) =
      { mouse :=
          { delivery.mouse with
            packet := Function.update delivery.mouse.packet delivery.pending.length byte
            index := delivery.pending.length + 1
            overflowSeen := false }
        pending := delivery.pending ++ [byte] } := by
  rw [next, ready.handler_early wellFormed early, if_neg early]

/-- Where the pointer is when a packet has ended. -/
theorem Ready.place_last {header right up : UInt8} (ready : Ready delivery)
    (begun : delivery.pending = [header, right]) :
    (delivery.next (.byte up)).mouse.x =
        nearest delivery.mouse.screenWidth (toS32 (delivery.mouse.x + toS8 right)) ∧
      (delivery.next (.byte up)).mouse.y =
        nearest delivery.mouse.screenHeight (toS32 (delivery.mouse.y + -toS8 up)) := by
  have length : 1 < delivery.pending.length := by
    rw [begun]
    exact Nat.one_lt_two
  have second : delivery.mouse.packet 1 = right := by
    have stored := ready.stored 1 length
    simpa only [begun, List.getElem_cons_succ, List.getElem_cons_zero] using stored
  rw [ready.next_last begun]
  simp only [applyPacket]
  rw [Function.update_of_ne (by decide), Function.update_self, second,
    lower_raise ready.width.1 ready.width.2, lower_raise ready.height.1 ready.height.2,
    Int.sub_eq_add_neg]
  exact ⟨rfl, rfl⟩

theorem pending_cases (delivery : Delivery) :
    (∃ header right, delivery.pending = [header, right]) ∨ delivery.pending.length ≠ 2 := by
  by_cases two : delivery.pending.length = 2
  · exact .inl (List.length_eq_two.mp two)
  · exact .inr two

/-- The pointer is always on the screen. -/
theorem Ready.inside_next {event : Event} (ready : Ready delivery)
    (wellFormed : delivery.WellFormed event) : Inside (delivery.next event).mouse := by
  have inside := ready.inside
  cases event with
  | bounds width height =>
      obtain ⟨⟨positiveX, smallX⟩, positiveY, smallY⟩ := wellFormed
      simp only [next, mouseSetBounds, Inside, boundAxis_eq positiveX smallX inside.1.1,
        boundAxis_eq positiveY smallY inside.2.1]
      exact ⟨nearest_inside positiveX _, nearest_inside positiveY _⟩
  | byte byte =>
  rcases pending_cases delivery with ⟨header, right, begun⟩ | early
  · obtain ⟨placeX, placeY⟩ := @Ready.place_last _ _ _ byte ready begun
    rw [Inside, placeX, placeY, ready.next_last begun]
    exact ⟨nearest_inside ready.width.1 _, nearest_inside ready.height.1 _⟩
  · rw [ready.next_early wellFormed early]
    exact inside

theorem Ready.next {event : Event} (ready : Ready delivery)
    (wellFormed : delivery.WellFormed event) : Ready (delivery.next event) := by
  have inside := ready.inside_next wellFormed
  cases event with
  | bounds width height =>
      exact { ready with width := wellFormed.1, height := wellFormed.2, inside }
  | byte byte =>
  rcases pending_cases delivery with ⟨header, right, begun⟩ | early
  · rw [ready.next_last begun] at inside ⊢
    exact ⟨rfl, Nat.zero_lt_succ 2, nofun, rfl, ready.width, ready.height, inside⟩
  rw [ready.next_early wellFormed early] at inside ⊢
  have short := ready.short
  refine ⟨?_, ?_, ?_, rfl, ready.width, ready.height, inside⟩
  · rw [List.length_append, List.length_singleton]
  · rw [List.length_append, List.length_singleton]
    omega
  · intro k within
    rw [List.length_append, List.length_singleton] at within
    by_cases last : k = delivery.pending.length
    · subst last
      rw [List.getElem_concat_length rfl]
      exact Function.update_self _ _ _
    · have before : k < delivery.pending.length := by omega
      rw [List.getElem_append_left before, ← ready.stored k before]
      exact Function.update_of_ne last _ _

/-- The pointer is where it has to be after an event exactly if the event does not end a packet
with a movement that the driver gets wrong. -/
theorem Ready.follows_iff {event : Event} (ready : Ready delivery)
    (wellFormed : delivery.WellFormed event) : delivery.Follows event ↔ delivery.Accurate event := by
  have inside := ready.inside
  rw [Follows, and_iff_left (ready.inside_next wellFormed), Prod.mk.injEq]
  cases event with
  | bounds width height =>
      obtain ⟨⟨positiveX, smallX⟩, positiveY, smallY⟩ := wellFormed
      refine iff_of_true ⟨?_, ?_⟩ trivial
      · exact boundAxis_eq positiveX smallX inside.1.1
      · exact boundAxis_eq positiveY smallY inside.2.1
  | byte byte =>
  rcases pending_cases delivery with ⟨header, right, begun⟩ | early
  · obtain ⟨placeX, placeY⟩ := @Ready.place_last _ _ _ byte ready begun
    have axisX := @nearest_movement_iff _ right _ 1 _ ready.width.1 ready.width.2 inside.1
      (.inl rfl) (header.toNat.testBit 4) (Int.one_mul _).symm
    have axisY := @nearest_movement_iff _ byte _ (-1) _ ready.height.1 ready.height.2 inside.2
      (.inr rfl) (header.toNat.testBit 5) (Int.neg_one_mul _).symm
    rw [Int.one_mul] at axisX
    rw [Int.neg_one_mul, ← Int.sub_eq_add_neg] at axisY
    rw [placeX, placeY, target, Accurate, begun]
    exact and_congr axisX axisY
  have still : delivery.target (.byte byte) = (delivery.mouse.x, delivery.mouse.y) := by
    rw [target]
    split
    next begun => rw [begun] at early; exact absurd rfl early
    next => rfl
  have accurate : delivery.Accurate (.byte byte) := by
    rw [Accurate]
    split
    next begun => rw [begun] at early; exact absurd rfl early
    next => trivial
  rw [still, ready.next_early wellFormed early]
  exact iff_of_true ⟨rfl, rfl⟩ accurate

end Delivery

/-- After every event of a stream of packets and changes of the screen the pointer is where it has
to be, if and only if all packets have movements that the driver gets right. -/
theorem mouse_follows_iff {events : List Event}
    (wellFormed : Along Delivery.next Delivery.WellFormed {} events) :
    Along Delivery.next Delivery.Follows {} events ↔
      Along Delivery.next Delivery.Accurate {} events := by
  apply Along.congr _ _ Delivery.ready_start wellFormed
  · intro delivery event ready allowed _
    exact ready.next allowed
  · intro delivery event ready allowed
    exact ready.follows_iff allowed

theorem mouse_follows_slowly :
    Along Delivery.next Delivery.Follows {}
      [.bounds 1024 768, .byte 0x18, .byte 0xFB, .byte 7, .byte 0x28, .byte 127, .byte 0x80] :=
  (mouse_follows_iff (by decide)).mpr (by decide)

/-- A quick movement to the right takes the pointer to the left. -/
theorem quick_movement_reversed :
    Along Delivery.next Delivery.WellFormed {} [.byte 0x08, .byte 200, .byte 0] ∧
      ¬Along Delivery.next Delivery.Follows {} [.byte 0x08, .byte 200, .byte 0] ∧
      ([.byte 0x08, .byte 200, .byte 0].foldl Delivery.next {}).mouse.x = 0 := by
  decide

/-- Screens have a size that is not zero and is a number of `s32`. -/
def Event.Sized : Event → Prop
  | .byte _ => True
  | .bounds width height =>
      (0 < width.toNat ∧ width.toNat < 2 ^ 31) ∧ 0 < height.toNat ∧ height.toNat < 2 ^ 31

instance : (event : Event) → Decidable event.Sized
  | .byte _ => .isTrue trivial
  | .bounds _ _ => inferInstanceAs (Decidable (_ ∧ _))

/-- The pointer is on its screen, and the next byte has a place in the packet. -/
structure Mouse.Placed (mouse : Mouse) : Prop where
  width : 0 < mouse.screenWidth.toNat ∧ mouse.screenWidth.toNat < 2 ^ 31
  height : 0 < mouse.screenHeight.toNat ∧ mouse.screenHeight.toNat < 2 ^ 31
  inside : Inside mouse
  index : mouse.index < 3

theorem Mouse.Placed.handler {mouse : Mouse} (placed : mouse.Placed) (byte : UInt8) :
    (mouseHandler mouse byte).Placed := by
  obtain ⟨width, height, inside, -⟩ := id placed
  rw [mouseHandler]
  split
  · exact placed
  · generalize (if mouse.index = 0 then decide (byte &&& 0xC0 ≠ 0) else mouse.overflowSeen) = seen
    dsimp only
    split
    next room => exact ⟨width, height, inside, room⟩
    next =>
      split
      · exact ⟨width, height, inside, Nat.zero_lt_succ 2⟩
      · refine ⟨width, height, ?_, Nat.zero_lt_succ 2⟩
        simp only [applyPacket, Inside, lower_raise width.1 width.2,
          lower_raise height.1 height.2]
        exact ⟨nearest_inside width.1 _, nearest_inside height.1 _⟩

theorem Mouse.Placed.next {delivery : Delivery} {event : Event}
    (placed : delivery.mouse.Placed) (sized : event.Sized) :
    (delivery.next event).mouse.Placed := by
  cases event with
  | byte byte => exact placed.handler byte
  | bounds width height =>
      refine ⟨sized.1, sized.2, ?_, placed.index⟩
      simp only [Delivery.next, mouseSetBounds, Inside,
        boundAxis_eq sized.1.1 sized.1.2 placed.inside.1.1,
        boundAxis_eq sized.2.1 sized.2.2 placed.inside.2.1]
      exact ⟨nearest_inside sized.1.1 _, nearest_inside sized.2.1 _⟩

/-- Whatever the bytes are, the pointer stays on the screen and no byte is stored outside the
packet. -/
theorem mouse_stays_inside {events : List Event} (sized : ∀ event ∈ events, event.Sized) :
    Inside (events.foldl Delivery.next {}).mouse ∧
      (events.foldl Delivery.next {}).mouse.index < 3 := by
  have placed : (events.foldl Delivery.next {}).mouse.Placed := by
    have start : ({} : Mouse).Placed := ⟨by decide, by decide, by decide, by decide⟩
    exact List.foldlRecOn (motive := fun one : Delivery => one.mouse.Placed) events _ start
      fun _ before event member => before.next (sized event member)
  exact ⟨placed.inside, placed.index⟩

/-- The screen gets smaller than the pointer's place, and a movement goes beyond its edges. -/
theorem mouse_stays_inside_quickly :
    let delivery := ([.bounds 40 30, .byte 0x08, .byte 127, .byte 127, .byte 0x08] :
      List Event).foldl Delivery.next {}
    delivery.mouse.x = 39 ∧ delivery.mouse.y = 0 ∧ Inside delivery.mouse ∧
      delivery.mouse.index < 3 :=
  ⟨by decide, by decide, mouse_stays_inside (by decide)⟩

end Charis.Input
