import Charis.Lib.ByteMemory
import Charis.Lib.Transition

/-!
# The network card

The RTL8139 stores every frame that it receives into a ring in memory, with a header in front
and the checksum behind, and the driver reads the ring as a buffer of 8 KiB.  How long the ring
is for the device follows from the receive configuration that `net_init` writes.

Transmission, the addresses of the interface and the registers that receiving does not depend
on are left out.
-/

namespace Charis.Net

open Charis.Lib

/-- `RTL_RX_RING_SIZE`. -/
abbrev rxRingSize : Nat := 8192

/-- `RTL_RX_RING_EXTRA`. -/
abbrev rxRingExtra : Nat := 16

/-- `NET_MAX_PACKET_SIZE`. -/
abbrev netMaxPacketSize : Nat := 1536

/-- The variables of the driver, the registers of the device and the memory that both see. -/
structure Rtl8139 where
  initialized : Bool
  packetsRx : UInt32
  rxOffset : Nat
  /-- The physical address of `rx_buffer`. -/
  rxBuffer : Nat
  memory : ByteMemory
  rxbuf : Nat
  rcr : Nat
  capr : Nat
  cbr : Nat

namespace Rtl8139

/-- Length of the ring that a receive configuration selects. -/
def ringLength (nic : Rtl8139) : Nat := 8192 * 2 ^ (nic.rcr / 2 ^ 11 % 4)

/-- Where the next frame is read, as the device sees it. -/
def readCursor (nic : Rtl8139) : Nat := (nic.capr + 16) % nic.ringLength

/-- Bytes of the ring that have not been read. -/
def pending (nic : Rtl8139) : Nat := (nic.cbr + nic.ringLength - nic.readCursor) % nic.ringLength

end Rtl8139

/-- A frame as it arrives without errors, with the other bits of its status and with its
checksum. -/
structure Frame where
  bytes : List UInt8
  status : UInt16
  crc : List UInt8
  length_ge : 60 ≤ bytes.length
  length_le : bytes.length ≤ 1518
  status_ok : status.toNat % 2 = 1
  length_crc : crc.length = 4

namespace Frame

/-- What the device stores for a frame. -/
def entry (frame : Frame) : List UInt8 :=
  [ByteMemory.leByte frame.status.toNat 0, ByteMemory.leByte frame.status.toNat 1,
    ByteMemory.leByte (frame.bytes.length + 4) 0, ByteMemory.leByte (frame.bytes.length + 4) 1] ++
    frame.bytes ++ frame.crc

/-- How far the write cursor moves, which stays on addresses divisible by four. -/
def size (frame : Frame) : Nat := (frame.bytes.length + 8 + 3) / 4 * 4

end Frame

/-- Store bytes one after the other, wrapping around at the end of a ring. -/
def storeRing (base length : Nat) (memory : ByteMemory) (cursor : Nat) : List UInt8 → ByteMemory
  | [] => memory
  | byte :: rest =>
      storeRing base length (memory.writeByte (base + cursor % length) byte) (cursor + 1) rest

/-- The addresses that such bytes are stored at. -/
def ringAddresses (base length cursor count : Nat) : List Nat :=
  (List.range count).map fun index => base + (cursor + index) % length

/-- The device receives a frame. -/
def Rtl8139.receive (nic : Rtl8139) (frame : Frame) : Rtl8139 :=
  { nic with
    memory := storeRing nic.rxbuf nic.ringLength nic.memory nic.cbr frame.entry
    cbr := (nic.cbr + frame.size) % nic.ringLength }

/-- `ring_read16`. -/
def ringRead16 (nic : Rtl8139) (offset : Nat) : Nat :=
  let lo := nic.memory (nic.rxBuffer + offset % rxRingSize)
  let hi := nic.memory (nic.rxBuffer + (offset + 1) % rxRingSize)
  lo.toNat + hi.toNat * 256

/-- `ring_copy_out`: the bytes that are copied. -/
def ringCopyOut (nic : Rtl8139) (offset length : Nat) : List UInt8 :=
  (List.range length).map fun index =>
    nic.memory (nic.rxBuffer + (offset + index % 2 ^ 16) % rxRingSize)

/-- `net_init`, with the first base address of the device if there is one, and whether the
device comes out of its reset in time. -/
def netInit (nic : Rtl8139) (bar : Option UInt32) (resetDone : Bool) : Rtl8139 :=
  let nic := { nic with initialized := false, rxOffset := 0 }
  match bar with
  | none => nic
  | some bar =>
      if bar &&& 1 = 0 then nic
      else if bar &&& 0xFFFC = 0 then nic
      else
        let nic := { nic with cbr := 0 }
        if !resetDone then nic
        else if 0xFFFFFFFF < nic.rxBuffer then nic
        else
          { nic with
            memory := nic.memory.fill nic.rxBuffer (rxRingSize + rxRingExtra) 0
            rxbuf := nic.rxBuffer
            capr := 0xFFF0
            rcr := 0x180A
            packetsRx := 0
            rxOffset := 0
            initialized := true }

/-- `net_recv_packet`, for a buffer of `maxLen` bytes: the result, the bytes that are copied
into the buffer, and the new state. -/
def netRecvPacket (nic : Rtl8139) (maxLen : Nat) : Int × List UInt8 × Rtl8139 :=
  if nic.initialized = false ∨ maxLen = 0 then (-1, [], nic)
  else if nic.readCursor = nic.cbr then (0, [], nic)
  else
    let current := nic.cbr % 2 ^ 16 % rxRingSize
    if nic.rxOffset = current then (0, [], nic)
    else
      let rxStatus := ringRead16 nic nic.rxOffset
      let packetLen := ringRead16 nic ((nic.rxOffset + 2) % 2 ^ 16)
      if rxStatus % 2 = 0 ∨ packetLen < 4 ∨ netMaxPacketSize < packetLen then
        let rxOffset := current / 4 * 4
        (0, [], { nic with rxOffset, capr := (rxOffset + 2 ^ 32 - 16) % rxRingSize })
      else
        let frameLen := packetLen - 4
        let copyLen := if frameLen < maxLen then frameLen else maxLen
        let data := ringCopyOut nic ((nic.rxOffset + 4) % rxRingSize) copyLen
        let rxOffset := (nic.rxOffset + 4 + packetLen + 3) / 4 * 4 % 2 ^ 16 % rxRingSize
        (copyLen, data,
          { nic with
            rxOffset
            capr := (rxOffset + 2 ^ 32 - 16) % rxRingSize
            packetsRx := nic.packetsRx + 1 })

/-- A frame arrives, or the driver is polled, with what it returns. -/
inductive NicEvent where
  | arrive (frame : Frame)
  | poll (result : Int) (data : List UInt8)

/-- The card with all addresses that the device has stored to. -/
structure Link where
  nic : Rtl8139
  stored : List Nat

/-- A card that the device has not stored anything for. -/
def Link.start (nic : Rtl8139) : Link := ⟨nic, []⟩

/-- A frame arrives for which the ring has room, or the driver is polled with a buffer of 1536
bytes. -/
inductive LinkStep : Link → NicEvent → Link → Prop
  | arrive (link : Link) (frame : Frame) :
      link.nic.pending + frame.size < link.nic.ringLength →
      LinkStep link (.arrive frame)
        { nic := link.nic.receive frame
          stored := link.stored ++ ringAddresses link.nic.rxbuf link.nic.ringLength link.nic.cbr
            frame.entry.length }
  | poll (link : Link) :
      LinkStep link
        (.poll (netRecvPacket link.nic 1536).1 (netRecvPacket link.nic 1536).2.1)
        { link with nic := (netRecvPacket link.nic 1536).2.2 }

/-- A queue of frames: each poll returns the oldest frame, once and completely. -/
inductive FrameQueueStep : List Frame → NicEvent → List Frame → Prop
  | arrive (queue : List Frame) (frame : Frame) :
      FrameQueueStep queue (.arrive frame) (queue ++ [frame])
  | poll (frame : Frame) (queue : List Frame) :
      FrameQueueStep (frame :: queue) (.poll frame.bytes.length frame.bytes) queue
  | empty : FrameQueueStep [] (.poll 0 []) []

theorem netInit_rxBuffer (nic : Rtl8139) (bar : Option UInt32) (resetDone : Bool) :
    (netInit nic bar resetDone).rxBuffer = nic.rxBuffer := by
  simp only [netInit]
  split
  · rfl
  · split_ifs <;> rfl

theorem netRecvPacket_rxBuffer (nic : Rtl8139) (maxLen : Nat) :
    (netRecvPacket nic maxLen).2.2.rxBuffer = nic.rxBuffer := by
  simp only [netRecvPacket]
  split_ifs <;> rfl

theorem LinkStep.rxBuffer {link link' : Link} {event : NicEvent}
    (step : LinkStep link event link') : link'.nic.rxBuffer = link.nic.rxBuffer := by
  cases step with
  | arrive => rfl
  | poll => exact netRecvPacket_rxBuffer _ _

namespace Frame

variable (frame : Frame)

@[simp] theorem length_entry : frame.entry.length = frame.bytes.length + 8 := by
  simp only [entry, List.length_append, List.length_cons, List.length_nil, frame.length_crc]
  omega

/-- The frame itself comes after four bytes of the entry. -/
theorem getD_entry {index : Nat} (inside : index < frame.bytes.length) :
    frame.entry.getD (4 + index) 0 = frame.bytes.getD index 0 := by
  rw [entry, List.append_assoc, List.getD_append_right _ _ _ _ (by simp),
    List.getD_append _ _ _ _ (by simpa using inside)]
  simp

end Frame

section Rings

variable {base length cursor : Nat} {memory : ByteMemory} {bytes : List UInt8}

/-- What does not wrap around is stored in one piece. -/
theorem storeRing_eq (fits : cursor + bytes.length ≤ length) :
    storeRing base length memory cursor bytes = memory.storeBytes (base + cursor) bytes := by
  induction bytes generalizing memory cursor with
  | nil => simp [storeRing]
  | cons byte bytes ih =>
      rw [List.length_cons] at fits
      rw [storeRing, Nat.mod_eq_of_lt (by omega), ih (by omega), ByteMemory.storeBytes_cons,
        Nat.add_assoc]

theorem mem_ringAddresses {count address : Nat} :
    address ∈ ringAddresses base length cursor count ↔
      ∃ index < count, base + (cursor + index) % length = address := by
  simp [ringAddresses]

end Rings

end Charis.Net
