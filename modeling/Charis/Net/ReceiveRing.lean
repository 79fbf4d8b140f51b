import Charis.Net.Rtl8139

/-!
# The receive ring

`net_init` selects a ring of 64 KiB, which the driver reads as one of 8 KiB in a buffer of
8 KiB and 16 bytes.  The two agree as long as the write cursor of the device has not passed the
end that the driver assumes: until then the frames lie in the buffer one behind the other, and
the driver returns them as a queue would.
-/

namespace Charis.Net

open Charis.Lib

/-- The frame ends within the first 8 KiB of the ring, and the driver is not polled with
exactly 8 KiB unread, which it takes for none. -/
def WithinBuffer (link : Link) : NicEvent → Prop
  | .arrive frame => link.nic.cbr + 4 + frame.bytes.length ≤ rxRingSize
  | .poll _ _ => link.nic.pending ≠ rxRingSize

/-- Frames lie in memory one behind the other, from `offset` to `stop`. -/
def Laid (memory : ByteMemory) (base : Nat) : (offset : Nat) → List Frame → (stop : Nat) → Prop
  | offset, [], stop => offset = stop
  | offset, frame :: queue, stop =>
      (∀ index < frame.entry.length,
        memory (base + offset + index) = frame.entry.getD index 0) ∧
      offset + 4 + frame.bytes.length ≤ rxRingSize ∧
      Laid memory base (offset + frame.size) queue stop

namespace Laid

variable {memory memory' : ByteMemory} {base offset stop : Nat} {queue : List Frame}
  {frame : Frame}

theorem le (laid : Laid memory base offset queue stop) : offset ≤ stop := by
  induction queue generalizing offset with
  | nil => exact Nat.le_of_eq laid
  | cons frame queue ih => exact (Nat.le_add_right _ _).trans (ih laid.2.2)

/-- Stores behind the frames leave them alone. -/
theorem congr (laid : Laid memory base offset queue stop)
    (same : ∀ address < base + stop, memory' address = memory address) :
    Laid memory' base offset queue stop := by
  induction queue generalizing offset with
  | nil => exact laid
  | cons frame queue ih =>
  obtain ⟨stored, inside, rest⟩ := laid
  refine ⟨?_, inside, ih rest⟩
  intro index below
  have ends := rest.le
  have long : frame.entry.length ≤ frame.size := by
    rw [frame.length_entry, Frame.size]
    omega
  rw [same _ (by omega)]
  exact stored index below

theorem append (laid : Laid memory base offset queue stop)
    (stored : ∀ index < frame.entry.length,
      memory (base + stop + index) = frame.entry.getD index 0)
    (inside : stop + 4 + frame.bytes.length ≤ rxRingSize) :
    Laid memory base offset (queue ++ [frame]) (stop + frame.size) := by
  induction queue generalizing offset with
  | nil =>
      cases laid
      exact ⟨stored, inside, rfl⟩
  | cons first queue ih => exact ⟨laid.1, laid.2.1, ih laid.2.2⟩

end Laid

/-- The driver and the device agree on where the unread frames begin, and the buffer holds
them. -/
structure InStep (link : Link) (queue : List Frame) (head : Nat) : Prop where
  initialized : link.nic.initialized = true
  rxbuf : link.nic.rxbuf = link.nic.rxBuffer
  rcr : link.nic.rcr = 0x180A
  rxOffset : link.nic.rxOffset = head % rxRingSize
  readCursor : (link.nic.capr + 16) % 2 ^ 16 = head
  head_mod : head % 4 = 0
  cbr_mod : link.nic.cbr % 4 = 0
  cbr_le : link.nic.cbr ≤ rxRingSize + 4
  laid : Laid link.nic.memory link.nic.rxBuffer head queue link.nic.cbr
  stored : ∀ address ∈ link.stored,
    link.nic.rxBuffer ≤ address ∧ address < link.nic.rxBuffer + (rxRingSize + rxRingExtra)

section Words

variable {nic : Rtl8139} {frame : Frame} {offset : Nat}

theorem ringRead16_eq {value : Nat} (small : value < 2 ^ 16) (inside : offset + 1 < rxRingSize)
    (low : nic.memory (nic.rxBuffer + offset) = ByteMemory.leByte value 0)
    (high : nic.memory (nic.rxBuffer + (offset + 1)) = ByteMemory.leByte value 1) :
    ringRead16 nic offset = value := by
  rw [ringRead16, Nat.mod_eq_of_lt inside, Nat.mod_eq_of_lt (by omega), low, high]
  simp only [ByteMemory.leByte, UInt8.toNat_ofNat']
  omega

theorem ringCopyOut_eq {bytes : List UInt8} (fits : offset + bytes.length ≤ rxRingSize)
    (same : ∀ index < bytes.length,
      nic.memory (nic.rxBuffer + (offset + index)) = bytes.getD index 0) :
    ringCopyOut nic offset bytes.length = bytes := by
  apply List.ext_getElem
  · simp [ringCopyOut]
  · intro index below inside
    have read := same index inside
    rw [List.getD_eq_getElem _ _ inside] at read
    have place : (offset + index % 2 ^ 16) % rxRingSize = offset + index := by
      simp only [rxRingSize] at fits ⊢
      omega
    simp only [ringCopyOut, List.getElem_map, List.getElem_range]
    rw [place, read]

end Words

section Steps

variable {link : Link} {queue : List Frame} {head : Nat} {frame : Frame}

theorem InStep.ringLength (step : InStep link queue head) : link.nic.ringLength = 2 ^ 16 := by
  rw [Rtl8139.ringLength, step.rcr]
  rfl

theorem InStep.pending (step : InStep link queue head) :
    link.nic.pending = link.nic.cbr - head := by
  have below := step.laid.le
  have small := step.cbr_le
  simp only [rxRingSize] at small
  rw [Rtl8139.pending, Rtl8139.readCursor, step.ringLength, step.readCursor]
  omega

/-- A frame that arrives goes to the end of the queue. -/
theorem InStep.arrive (step : InStep link queue head)
    (within : link.nic.cbr + 4 + frame.bytes.length ≤ rxRingSize) :
    InStep
      { nic := link.nic.receive frame
        stored := link.stored ++ ringAddresses link.nic.rxbuf link.nic.ringLength link.nic.cbr
          frame.entry.length }
      (queue ++ [frame]) head := by
  have aligned := step.cbr_mod
  have length := frame.length_entry
  have size : frame.size = (frame.bytes.length + 8 + 3) / 4 * 4 := rfl
  have moved : (link.nic.receive frame).cbr = link.nic.cbr + frame.size := by
    simp only [rxRingSize] at within
    rw [Rtl8139.receive, step.ringLength]
    exact Nat.mod_eq_of_lt (by omega)
  have memory : (link.nic.receive frame).memory =
      link.nic.memory.storeBytes (link.nic.rxBuffer + link.nic.cbr) frame.entry := by
    have fits : link.nic.cbr + frame.entry.length ≤ link.nic.ringLength := by
      simp only [rxRingSize] at within
      rw [step.ringLength]
      omega
    rw [Rtl8139.receive, storeRing_eq fits, step.rxbuf]
  constructor
  case initialized => exact step.initialized
  case rxbuf => exact step.rxbuf
  case rcr => exact step.rcr
  case rxOffset => exact step.rxOffset
  case readCursor => exact step.readCursor
  case head_mod => exact step.head_mod
  case cbr_mod =>
      rw [moved]
      omega
  case cbr_le =>
      simp only [rxRingSize] at within ⊢
      rw [moved]
      omega
  case laid =>
      have before : Laid (link.nic.receive frame).memory link.nic.rxBuffer head queue
          link.nic.cbr := by
        apply step.laid.congr
        intro address below
        rw [memory]
        exact ByteMemory.storeBytes_of_outside (.inl below)
      rw [moved]
      apply before.append _ within
      intro index below
      rw [memory, ByteMemory.storeBytes_of_inside (Nat.le_add_right _ _) (by omega),
        Nat.add_sub_cancel_left]
  case stored =>
      intro address member
      rcases List.mem_append.mp member with earlier | now
      · exact step.stored address earlier
      · obtain ⟨index, below, rfl⟩ := mem_ringAddresses.mp now
        have inside : (link.nic.cbr + index) % 2 ^ 16 < rxRingSize + rxRingExtra := by
          simp only [rxRingSize, rxRingExtra] at within ⊢
          omega
        rw [step.rxbuf, step.ringLength]
        exact ⟨Nat.le_add_right _ _, Nat.add_lt_add_left inside _⟩

/-- A poll returns the first frame of the queue, if there is one. -/
theorem InStep.poll (step : InStep link queue head) (within : link.nic.pending ≠ rxRingSize) :
    ∃ queue' head',
      FrameQueueStep queue
        (.poll (netRecvPacket link.nic 1536).1 (netRecvPacket link.nic 1536).2.1) queue' ∧
      InStep { link with nic := (netRecvPacket link.nic 1536).2.2 } queue' head' := by
  have ready : ¬ (link.nic.initialized = false ∨ 1536 = 0) := by simp [step.initialized]
  have readCursor : link.nic.readCursor = head := by
    rw [Rtl8139.readCursor, step.ringLength, step.readCursor]
  have small := step.cbr_le
  rw [step.pending] at within
  cases queue with
  | nil =>
      have empty : link.nic.readCursor = link.nic.cbr := readCursor.trans step.laid
      have nothing : netRecvPacket link.nic 1536 = (0, [], link.nic) := by
        rw [netRecvPacket, if_neg ready, if_pos empty]
      rw [nothing]
      exact ⟨[], head, .empty, step⟩
  | cons frame queue =>
  obtain ⟨stored, inside, rest⟩ := step.laid
  have long := frame.length_ge
  have short := frame.length_le
  have ends := rest.le
  have size : frame.size = (frame.bytes.length + 8 + 3) / 4 * 4 := rfl
  have length := frame.length_entry
  simp only [rxRingSize] at inside within small
  have unread : ¬ link.nic.readCursor = link.nic.cbr := by omega
  have offset : link.nic.rxOffset = head := by
    rw [step.rxOffset]
    exact Nat.mod_eq_of_lt (by simp only [rxRingSize]; omega)
  have behind : ¬ link.nic.rxOffset = link.nic.cbr % 2 ^ 16 % rxRingSize := by
    simp only [rxRingSize]
    omega
  have status : ringRead16 link.nic link.nic.rxOffset = frame.status.toNat := by
    apply ringRead16_eq frame.status.toNat_lt
    · simp only [rxRingSize]
      omega
    · rw [offset]
      exact stored 0 (by omega)
    · rw [offset]
      exact stored 1 (by omega)
  have packetLen : ringRead16 link.nic ((link.nic.rxOffset + 2) % 2 ^ 16) =
      frame.bytes.length + 4 := by
    rw [offset, Nat.mod_eq_of_lt (by omega)]
    apply ringRead16_eq (by omega)
    · simp only [rxRingSize]
      omega
    · exact stored 2 (by omega)
    · exact stored 3 (by omega)
  have data : ringCopyOut link.nic ((link.nic.rxOffset + 4) % rxRingSize)
      frame.bytes.length = frame.bytes := by
    rw [offset, Nat.mod_eq_of_lt (by simp only [rxRingSize]; omega)]
    apply ringCopyOut_eq
    · exact inside
    · intro index below
      have found := stored (4 + index) (by omega)
      rw [frame.getD_entry below] at found
      rw [← found]
      congr 1
      omega
  have good : ¬ (frame.status.toNat % 2 = 0 ∨ frame.bytes.length + 4 < 4 ∨
      netMaxPacketSize < frame.bytes.length + 4) := by
    have ok := frame.status_ok
    simp only [netMaxPacketSize]
    omega
  have whole : (if frame.bytes.length + 4 - 4 < 1536 then frame.bytes.length + 4 - 4
      else 1536) = frame.bytes.length := by
    rw [if_pos (by omega), Nat.add_sub_cancel]
  have next : (head + 4 + (frame.bytes.length + 4) + 3) / 4 * 4 % 2 ^ 16 % rxRingSize =
      (head + frame.size) % rxRingSize := by
    have aligned := step.head_mod
    simp only [rxRingSize]
    omega
  have result : netRecvPacket link.nic 1536 =
      ((frame.bytes.length : Int), frame.bytes,
        { link.nic with
          rxOffset := (head + frame.size) % rxRingSize
          capr := ((head + frame.size) % rxRingSize + 2 ^ 32 - 16) % rxRingSize
          packetsRx := link.nic.packetsRx + 1 }) := by
    rw [netRecvPacket, if_neg ready, if_neg unread]
    dsimp only
    rw [if_neg behind, status, packetLen, if_neg good, whole, data, offset, next]
  rw [result]
  refine ⟨queue, head + frame.size, .poll frame queue, ?_⟩
  constructor
  case initialized => exact step.initialized
  case rxbuf => exact step.rxbuf
  case rcr => exact step.rcr
  case rxOffset => rfl
  case readCursor =>
      have aligned := step.head_mod
      simp only [rxRingSize]
      omega
  case head_mod =>
      have aligned := step.head_mod
      omega
  case cbr_mod => exact step.cbr_mod
  case cbr_le => exact step.cbr_le
  case laid => exact rest
  case stored => exact step.stored

end Steps

section Start

variable {nic : Rtl8139} {bar : Option UInt32} {resetDone : Bool}

theorem netInit_inStep (up : (netInit nic bar resetDone).initialized = true) :
    InStep (Link.start (netInit nic bar resetDone)) [] 0 := by
  revert up
  simp only [netInit]
  split
  · intro up
    cases up
  · split_ifs <;> intro up
    · cases up
    · cases up
    · cases up
    · cases up
    · constructor <;> first | rfl | simp [Link.start]

/-- From the initialisation of the card on, the device stores only into the buffer of the
driver, and the driver returns exactly the frames that arrive, each once and in order, as long
as each frame ends within the first 8 KiB of the ring and the driver is not polled with exactly
8 KiB unread. -/
theorem receive_ring_is_queue (up : (netInit nic bar resetDone).initialized = true)
    {events : List NicEvent} {finish : Link}
    (run : Run (Restrict LinkStep WithinBuffer) (Link.start (netInit nic bar resetDone)) events
      finish) :
    (∀ address ∈ finish.stored,
      nic.rxBuffer ≤ address ∧ address < nic.rxBuffer + (rxRingSize + rxRingExtra)) ∧
    ∃ queue, Run FrameQueueStep [] events queue := by
  have follows : finish.nic.rxBuffer = nic.rxBuffer ∧
      ∃ queue head, InStep finish queue head ∧ Run FrameQueueStep [] events queue := by
    induction run with
    | start => exact ⟨netInit_rxBuffer nic bar resetDone, [], 0, netInit_inStep up, Run.start⟩
    | next run last ih =>
    obtain ⟨place, queue, head, step, queued⟩ := ih
    obtain ⟨within, last⟩ := last
    refine ⟨last.rxBuffer.trans place, ?_⟩
    cases last with
    | arrive frame room =>
        exact ⟨queue ++ [frame], head, step.arrive within, queued.next (.arrive queue frame)⟩
    | poll =>
        obtain ⟨queue', head', returned, step'⟩ := step.poll within
        exact ⟨queue', head', step', queued.next returned⟩
  obtain ⟨place, queue, head, step, queued⟩ := follows
  rw [← place]
  exact ⟨step.stored, queue, queued⟩

end Start

/-- A frame that ends behind the buffer is stored behind it. -/
theorem stored_outside {nic : Rtl8139} {frame : Frame} (rxbuf : nic.rxbuf = nic.rxBuffer)
    (fits : nic.cbr + frame.entry.length ≤ nic.ringLength)
    (outside : rxRingSize + rxRingExtra < nic.cbr + frame.entry.length) :
    ∃ address ∈ ringAddresses nic.rxbuf nic.ringLength nic.cbr frame.entry.length,
      nic.rxBuffer + (rxRingSize + rxRingExtra) ≤ address := by
  have length := frame.length_entry
  have last : (nic.cbr + (frame.entry.length - 1)) % nic.ringLength =
      nic.cbr + (frame.entry.length - 1) := Nat.mod_eq_of_lt (by omega)
  refine ⟨_, mem_ringAddresses.mpr ⟨frame.entry.length - 1, by omega, rfl⟩, ?_⟩
  rw [last, rxbuf]
  omega

/-- A card before `net_init`, with the buffer of the driver at 2 MiB. -/
def idleCard : Rtl8139 := ⟨false, 0, 0, 0x200000, fun _ => 0, 0, 0, 0, 0⟩

/-- A card that `net_init` has set up. -/
def readyCard : Rtl8139 := netInit idleCard (some 0xC001) true

/-- A frame of zeros. -/
def zeroFrame (length : Nat) (least : 60 ≤ length) (most : length ≤ 1518) : Frame where
  bytes := List.replicate length 0
  status := 1
  crc := List.replicate 4 0
  length_ge := by rwa [List.length_replicate]
  length_le := by rwa [List.length_replicate]
  status_ok := rfl
  length_crc := rfl

section ZeroFrame

variable {length : Nat} {least : 60 ≤ length} {most : length ≤ 1518}

theorem length_zeroFrame : (zeroFrame length least most).bytes.length = length :=
  List.length_replicate

theorem size_zeroFrame : (zeroFrame length least most).size = (length + 8 + 3) / 4 * 4 := by
  rw [Frame.size, length_zeroFrame]

end ZeroFrame

theorem LinkStep.poll_within {link : Link} (unread : link.nic.pending ≠ rxRingSize) :
    Restrict LinkStep WithinBuffer link
      (.poll (netRecvPacket link.nic 1536).1 (netRecvPacket link.nic 1536).2.1)
      { link with nic := (netRecvPacket link.nic 1536).2.2 } :=
  ⟨unread, .poll link⟩

/-- A frame of 60 bytes arrives and is polled for. -/
theorem receive_ring_is_queue_frame :
    ∃ events finish,
      Run (Restrict LinkStep WithinBuffer) (Link.start readyCard) events finish ∧
      events.length = 2 ∧
      (∀ address ∈ finish.stored,
        0x200000 ≤ address ∧ address < 0x200000 + (rxRingSize + rxRingExtra)) ∧
      ∃ queue, Run FrameQueueStep [] events queue := by
  let frame := zeroFrame 60 (by decide) (by decide)
  have within : WithinBuffer (Link.start readyCard) (.arrive frame) := by
    simp only [WithinBuffer, frame, length_zeroFrame]
    decide
  have room : readyCard.pending + frame.size < readyCard.ringLength := by
    rw [size_zeroFrame]
    decide
  have arrived : Run (Restrict LinkStep WithinBuffer) (Link.start readyCard)
      ([] ++ [.arrive frame]) _ := Run.start.next ⟨within, .arrive _ frame room⟩
  have unread : (readyCard.receive frame).pending ≠ rxRingSize := by
    have cbr : (readyCard.receive frame).cbr = 68 := by
      rw [Rtl8139.receive, size_zeroFrame]
      rfl
    rw [Rtl8139.pending, cbr]
    decide
  have polled := arrived.next (LinkStep.poll_within unread)
  exact ⟨_, _, polled, rfl, receive_ring_is_queue rfl polled⟩

/-- An unread ring that holds a number of the longest frames. -/
structure Filled (link : Link) (count : Nat) : Prop where
  cbr : link.nic.cbr = count * 1528
  ringLength : link.nic.ringLength = 65536
  readCursor : link.nic.readCursor = 0
  rxbuf : link.nic.rxbuf = link.nic.rxBuffer
  rxBuffer : link.nic.rxBuffer = 0x200000

theorem Filled.room {link : Link} {count : Nat} {frame : Frame} (filled : Filled link count)
    (size : frame.size = 1528) (few : (count + 1) * 1528 < 65536) :
    link.nic.pending + frame.size < link.nic.ringLength := by
  have pending : link.nic.pending = count * 1528 := by
    rw [Rtl8139.pending, filled.ringLength, filled.readCursor, filled.cbr, Nat.sub_zero,
      Nat.add_mod_right]
    exact Nat.mod_eq_of_lt (by linarith)
  rw [pending, filled.ringLength, size]
  linarith

/-- The longest frames arrive without being polled for. -/
theorem exists_filled {frame : Frame} (size : frame.size = 1528) (count : Nat)
    (few : count * 1528 < 65536) :
    ∃ events finish, Run LinkStep (Link.start readyCard) events finish ∧ Filled finish count := by
  induction count with
  | zero =>
      have ringLength : readyCard.ringLength = 65536 := by
        rw [Rtl8139.ringLength]
        rfl
      have readCursor : readyCard.readCursor = 0 := by
        rw [Rtl8139.readCursor, ringLength]
        rfl
      exact ⟨[], _, Run.start, (Nat.zero_mul _).symm, ringLength, readCursor, rfl, rfl⟩
  | succ count ih =>
  obtain ⟨events, finish, run, filled⟩ := ih (by linarith)
  refine ⟨_, _, run.next (.arrive finish frame (filled.room size few)), ?_⟩
  constructor
  case cbr =>
      simp only [Rtl8139.receive, filled.ringLength, filled.cbr, size]
      omega
  case ringLength => exact filled.ringLength
  case readCursor => exact filled.readCursor
  case rxbuf => exact filled.rxbuf
  case rxBuffer => exact filled.rxBuffer

/-- The sixth of the longest frames is stored behind the buffer of the driver. -/
theorem receive_ring_leaves_buffer :
    ∃ events finish, Run LinkStep (Link.start readyCard) events finish ∧
      ∃ address ∈ finish.stored, 0x200000 + (rxRingSize + rxRingExtra) ≤ address := by
  obtain ⟨frame, length⟩ : ∃ frame : Frame, frame.bytes.length = 1518 :=
    ⟨zeroFrame 1518 (by decide) (by decide), length_zeroFrame⟩
  have size : frame.size = 1528 := by rw [Frame.size, length]
  obtain ⟨events, finish, run, filled⟩ := exists_filled size 5 (by decide)
  have entry : finish.nic.cbr + frame.entry.length = 9166 := by
    rw [filled.cbr, frame.length_entry, length]
  obtain ⟨address, member, outside⟩ := @stored_outside finish.nic frame filled.rxbuf
    (by rw [entry, filled.ringLength]; decide) (by rw [entry]; decide)
  rw [filled.rxBuffer] at outside
  exact ⟨_, _, run.next (.arrive finish frame (filled.room size (by decide))), address,
    List.mem_append_right _ member, outside⟩

end Charis.Net
