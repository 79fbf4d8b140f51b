import Charis.Input.Mouse
import Charis.Lib.Ring
import Charis.Lib.Signal

/-!
# Events

The ring of `input.c` has 256 slots, of which one stays free, and rejects an event when the other
ones are used.  `input_process_events` hands it the edges of the mouse buttons, and takes an edge
for delivered even if the ring has rejected it.
-/

namespace Charis.Input

open Charis.Lib

/-- `input_event_type_t`. -/
inductive InputEventType where
  | keyDown
  | keyUp
  | mouseMove
  | mouseDown
  | mouseUp
  | mouseScroll
  deriving DecidableEq, Repr

/-- The union in `input_event_t`. -/
inductive InputData where
  | key (keycode scancode : Int)
  | mouse (x y dx dy button : Int)
  deriving DecidableEq, Repr

/-- `input_event_t`. -/
structure InputEvent where
  type : InputEventType := .keyDown
  data : InputData := .key 0 0
  timestamp : UInt64 := 0
  deriving DecidableEq, Repr

/-- `INPUT_QUEUE_SIZE`. -/
abbrev inputQueueSize : Nat := 256

/-- The variables of the ring. -/
structure InputRing where
  inputQueue : Nat → InputEvent := fun _ => {}
  inputHead : Nat := 0
  inputTail : Nat := 0
  inputDropped : UInt32 := 0

/-- `input_push_event`. -/
def inputPushEvent (ring : InputRing) (evt : InputEvent) : Bool × InputRing :=
  let nextHead := (ring.inputHead + 1) % inputQueueSize
  if nextHead = ring.inputTail then (false, { ring with inputDropped := ring.inputDropped + 1 })
  else
    (true,
      { ring with
        inputQueue := Function.update ring.inputQueue ring.inputHead evt
        inputHead := nextHead })

/-- `input_pop_event`. -/
def inputPopEvent (ring : InputRing) : Option InputEvent × InputRing :=
  if ring.inputTail = ring.inputHead then (none, ring)
  else
    (some (ring.inputQueue ring.inputTail),
      { ring with inputTail := (ring.inputTail + 1) % inputQueueSize })

/-- `input_queue_depth`. -/
def inputQueueDepth (ring : InputRing) : Nat :=
  if ring.inputTail ≤ ring.inputHead then ring.inputHead - ring.inputTail
  else inputQueueSize - (ring.inputTail - ring.inputHead)

/-- What `input_process_events` keeps of the last snapshot that it has seen. -/
structure LastSeen where
  lastX : Int := -1
  lastY : Int := -1
  lastButtons : UInt8 := 0

/-- A button of a snapshot. -/
def isDown (buttons : UInt8) (btn : Nat) : Bool := buttons.toNat.testBit btn

/-- The event for a character of the keyboard. -/
def characterEvent (key : Int × UInt64) : InputEvent :=
  { type := .keyDown
    data := .key key.1 0
    timestamp := key.2 }

/-- An event of the mouse. -/
def mouseEvent (type : InputEventType) (mouse : MouseState) (button : Int) (now : UInt64) :
    InputEvent :=
  { type
    data := .mouse mouse.x mouse.y mouse.dx mouse.dy button
    timestamp := now }

section Processing

variable {σ : Type*} (push : σ → InputEvent → σ)

/-- The loop of `input_process_events` over the characters of the keyboard, each with the time at
which it is read. -/
def processKeys (rawHook : Bool) (keys : List (Int × UInt64)) (state : σ) : σ :=
  (keys.take 64).foldl
    (fun state key => if rawHook then state else push state (characterEvent key)) state

/-- The body of its loop over the buttons. -/
def processButton (mouse : MouseState) (now : UInt64) (prev : UInt8) (state : σ) (btn : Nat) : σ :=
  let wasDown := isDown prev btn
  let isDown := isDown mouse.buttons btn
  if wasDown = false ∧ isDown = true then
    push state (mouseEvent .mouseDown mouse (btn + 1) now)
  else if wasDown = true ∧ isDown = false then
    push state (mouseEvent .mouseUp mouse (btn + 1) now)
  else state

/-- `input_process_events`, which pushes events in some state of the machine.  The characters are
what `keyboard_get_key` returns, and the snapshot is that of `mouse_get_snapshot`. -/
def inputProcessEvents (rawHook : Bool) (keys : List (Int × UInt64)) (mouse : MouseState)
    (now : UInt64) (seen : LastSeen) (state : σ) : LastSeen × σ :=
  let state := processKeys push rawHook keys state
  if mouse.x ≠ seen.lastX ∨ mouse.y ≠ seen.lastY ∨ mouse.buttons ≠ seen.lastButtons then
    let state := push state (mouseEvent .mouseMove mouse mouse.buttons.toNat now)
    let state := (List.range 3).foldl (processButton push mouse now seen.lastButtons) state
    ({ lastX := mouse.x, lastY := mouse.y, lastButtons := mouse.buttons }, state)
  else (seen, state)

end Processing

/-- A key that the interrupt of the keyboard reports through `ui_key_hook`. -/
structure KeyPress where
  scancode : UInt8
  pressed : Bool
  timestamp : UInt64

/-- The event that `ui_key_hook` pushes. -/
def KeyPress.event (press : KeyPress) : InputEvent :=
  { type := if press.pressed then .keyDown else .keyUp
    data := .key 0 press.scancode.toNat
    timestamp := press.timestamp }

/-- The variables of `input.c`, with the events that the ring has accepted and those that it has
delivered. -/
structure Session where
  ring : InputRing := {}
  seen : LastSeen := {}
  accepted : List InputEvent := []
  delivered : List InputEvent := []

/-- What happens in a session.  While `input_process_events` runs, the keyboard can interrupt it
before each of its calls of `input_push_event`. -/
inductive Action where
  | process (rawHook : Bool) (keys : List (Int × UInt64)) (mouse : MouseState) (now : UInt64)
      (interrupts : List (List KeyPress))
  | press (press : KeyPress)
  | pop

namespace Session

/-- A call of `input_push_event`. -/
def push (session : Session) (evt : InputEvent) : Session :=
  match inputPushEvent session.ring evt with
  | (true, ring) => { session with ring, accepted := session.accepted ++ [evt] }
  | (false, ring) => { session with ring }

/-- A call of `input_pop_event`. -/
def pop (session : Session) : Session :=
  match inputPopEvent session.ring with
  | (some evt, ring) => { session with ring, delivered := session.delivered ++ [evt] }
  | (none, ring) => { session with ring }

/-- A call of `input_push_event` with the interrupts before it. -/
def pushInterrupted : Session × List (List KeyPress) → InputEvent → Session × List (List KeyPress)
  | (session, []), evt => (session.push evt, [])
  | (session, presses :: later), evt =>
      (((presses.map KeyPress.event).foldl push session).push evt, later)

/-- A step of a session. -/
def next (session : Session) : Action → Session
  | .process rawHook keys mouse now interrupts =>
      let processed :=
        inputProcessEvents pushInterrupted rawHook keys mouse now session.seen (session, interrupts)
      { processed.2.1 with seen := processed.1 }
  | .press press => session.push press.event
  | .pop => session.pop

/-- All events are popped. -/
def drain (session : Session) : Session := pop^[inputQueueSize] session

/-- Another snapshot is processed. -/
def snapshot (session : Session) (mouse : MouseState) (now : UInt64) : Session :=
  session.next (.process true [] mouse now [])

end Session

/-- The edge of a button that an event reports. -/
def edgeOf (btn : Nat) (evt : InputEvent) : Option Bool :=
  match evt.type, evt.data with
  | .mouseDown, .mouse _ _ _ _ button => if button = btn + 1 then some true else none
  | .mouseUp, .mouse _ _ _ _ button => if button = btn + 1 then some false else none
  | _, _ => none

/-- The edges of a button in a list of events. -/
def edges (btn : Nat) (events : List InputEvent) : List Bool := events.filterMap (edgeOf btn)

/-- Accepted events are delivered in their order, each once, the depth of the queue is the number
of events that are not yet delivered, the edges of each button alternate, and when the queue has
been drained and one more snapshot has been processed and delivered, they lead to its buttons. -/
structure Session.Sound (session : Session) : Prop where
  order : session.delivered <+: session.accepted
  complete : session.drain.delivered = session.accepted
  depth : session.delivered.length + inputQueueDepth session.ring = session.accepted.length
  alternate : ∀ btn < 3, Signal.Alternates false (edges btn session.delivered)
  settles : ∀ mouse now, ∀ btn < 3,
    Signal.level false (edges btn ((session.drain.snapshot mouse now).drain).delivered) =
      isDown mouse.buttons btn

/-- The number of buttons that have changed. -/
def changedButtons (before after : UInt8) : Nat :=
  (List.range 3).countP fun btn => isDown before btn != isDown after btn

/-- If a button has changed, the ring has room for the characters, the movement and the edges, and
for the keys that are pressed before the last of them. -/
def Session.Heard (session : Session) : Action → Prop
  | .process rawHook keys mouse _ interrupts =>
      let changed := changedButtons session.seen.lastButtons mouse.buttons
      let pushes := (if rawHook then 0 else min 64 keys.length) + 1 + changed
      changed = 0 ∨ inputQueueDepth session.ring + pushes +
        ((interrupts.take pushes).map List.length).sum < inputQueueSize
  | .press _ => True
  | .pop => True

namespace InputRing

variable {ring : InputRing} {evt : InputEvent}

/-- The indices are those of slots. -/
def Proper (ring : InputRing) : Prop :=
  ring.inputHead < inputQueueSize ∧ ring.inputTail < inputQueueSize

/-- The events in the ring. -/
def contents (ring : InputRing) : List InputEvent :=
  Ring.contents ring.inputQueue inputQueueSize ring.inputTail (inputQueueDepth ring)

/-- The events that the ring still has room for. -/
def room (ring : InputRing) : Nat := inputQueueSize - 1 - inputQueueDepth ring

theorem inputQueueDepth_lt (proper : ring.Proper) : inputQueueDepth ring < inputQueueSize := by
  obtain ⟨headLt, tailLt⟩ := proper
  simp only [inputQueueDepth, inputQueueSize] at *
  split
  · omega
  · omega

theorem inputHead_eq (proper : ring.Proper) :
    ring.inputHead = (ring.inputTail + inputQueueDepth ring) % inputQueueSize := by
  obtain ⟨headLt, tailLt⟩ := proper
  simp only [inputQueueDepth, inputQueueSize] at *
  split
  · omega
  · omega

theorem inputPushEvent_of_full (proper : ring.Proper) (full : ring.room = 0) :
    inputPushEvent ring evt = (false, { ring with inputDropped := ring.inputDropped + 1 }) := by
  have below := inputQueueDepth_lt proper
  have head := inputHead_eq proper
  have tailLt := proper.2
  rw [inputPushEvent]
  apply if_pos
  simp only [room, inputQueueSize] at *
  omega

/-- Another one appends it. -/
theorem inputPushEvent_of_room (proper : ring.Proper) (free : 0 < ring.room) :
    ∃ ring', inputPushEvent ring evt = (true, ring') ∧ ring'.Proper ∧
      ring'.contents = ring.contents ++ [evt] ∧ ring'.room = ring.room - 1 := by
  have below := inputQueueDepth_lt proper
  have head := inputHead_eq proper
  have tailLt := proper.2
  have headLt := proper.1
  have apart : (ring.inputHead + 1) % inputQueueSize ≠ ring.inputTail := by
    simp only [room, inputQueueSize] at *
    omega
  have deeper : inputQueueDepth { ring with
      inputQueue := Function.update ring.inputQueue ring.inputHead evt
      inputHead := (ring.inputHead + 1) % inputQueueSize } = inputQueueDepth ring + 1 := by
    simp only [room, inputQueueDepth, inputQueueSize] at *
    split at below <;> split <;> omega
  refine ⟨_, if_neg apart, ⟨Nat.mod_lt _ (by decide), tailLt⟩, ?_, ?_⟩
  · rw [contents, deeper, head]
    exact Ring.contents_push below evt
  · rw [room, deeper, room, Nat.sub_add_eq]

/-- Nothing is popped from an empty ring. -/
theorem inputPopEvent_of_empty (proper : ring.Proper) (empty : inputQueueDepth ring = 0) :
    inputPopEvent ring = (none, ring) := by
  have headLt := proper.1
  have tailLt := proper.2
  rw [inputPopEvent]
  apply if_pos
  simp only [inputQueueDepth, inputQueueSize] at *
  split at empty
  · omega
  · omega

/-- From another one the first event is popped. -/
theorem inputPopEvent_of_filled (proper : ring.Proper) (filled : 0 < inputQueueDepth ring) :
    ∃ evt ring', inputPopEvent ring = (some evt, ring') ∧ ring'.Proper ∧
      ring.contents = evt :: ring'.contents ∧
      inputQueueDepth ring' = inputQueueDepth ring - 1 := by
  have head := inputHead_eq proper
  have tailLt := proper.2
  have headLt := proper.1
  have apart : ring.inputTail ≠ ring.inputHead := by
    simp only [inputQueueDepth, inputQueueSize] at *
    split at filled <;> omega
  have less : inputQueueDepth { ring with
      inputTail := (ring.inputTail + 1) % inputQueueSize } = inputQueueDepth ring - 1 := by
    simp only [inputQueueDepth, inputQueueSize] at *
    split at filled <;> split <;> omega
  refine ⟨_, _, if_neg apart, ⟨headLt, Nat.mod_lt _ (by decide)⟩, ?_, less⟩
  rw [contents, contents, less, Ring.contents_pop filled, Nat.mod_eq_of_lt tailLt]

end InputRing

/-! ## What is processed -/

/-- The events that a call of `input_process_events` hands to `input_push_event`. -/
def produced (rawHook : Bool) (keys : List (Int × UInt64)) (mouse : MouseState) (now : UInt64)
    (seen : LastSeen) : List InputEvent :=
  (inputProcessEvents (fun events evt => events ++ [evt]) rawHook keys mouse now seen []).2

/-- Events with those of the interrupts before each of them. -/
def weave : List (List KeyPress) → List InputEvent → List InputEvent
  | _, [] => []
  | [], events => events
  | presses :: later, evt :: events => presses.map KeyPress.event ++ evt :: weave later events

section Processing

variable {σ : Type*} {push : σ → InputEvent → σ} {state : σ} {mouse : MouseState} {now : UInt64}
  {rawHook : Bool} {keys : List (Int × UInt64)} {seen : LastSeen} {btn : Nat}

/-- The events for characters. -/
def characterEvents (rawHook : Bool) (keys : List (Int × UInt64)) : List InputEvent :=
  if rawHook then [] else (keys.take 64).map characterEvent

/-- The events for a button. -/
def buttonEvents (mouse : MouseState) (now : UInt64) (prev : UInt8) (btn : Nat) :
    List InputEvent :=
  (Signal.edge (isDown prev btn) (isDown mouse.buttons btn)).map fun down =>
    mouseEvent (if down then .mouseDown else .mouseUp) mouse (btn + 1) now

/-- The events for a snapshot that is not the last one. -/
def snapshotEvents (mouse : MouseState) (now : UInt64) (prev : UInt8) : List InputEvent :=
  mouseEvent .mouseMove mouse mouse.buttons.toNat now ::
    (List.range 3).flatMap (buttonEvents mouse now prev)

theorem processKeys_eq :
    processKeys push rawHook keys state = (characterEvents rawHook keys).foldl push state := by
  rw [processKeys, characterEvents]
  cases rawHook with
  | true => simp
  | false =>
      simp only [Bool.false_eq_true, if_false, List.foldl_map]

theorem processButton_eq (prev : UInt8) :
    processButton push mouse now prev state btn =
      (buttonEvents mouse now prev btn).foldl push state := by
  rw [processButton, buttonEvents, Signal.edge]
  cases isDown prev btn <;> cases isDown mouse.buttons btn <;> rfl

theorem inputProcessEvents_eq :
    inputProcessEvents push rawHook keys mouse now seen state =
      if mouse.x ≠ seen.lastX ∨ mouse.y ≠ seen.lastY ∨ mouse.buttons ≠ seen.lastButtons then
        (⟨mouse.x, mouse.y, mouse.buttons⟩,
          (characterEvents rawHook keys ++ snapshotEvents mouse now seen.lastButtons).foldl push
            state)
      else (seen, (characterEvents rawHook keys).foldl push state) := by
  have buttons : ∀ state : σ,
      (List.range 3).foldl (processButton push mouse now seen.lastButtons) state =
        ((List.range 3).flatMap (buttonEvents mouse now seen.lastButtons)).foldl push state := by
    intro state
    rw [List.foldl_flatMap]
    congr 1
    funext state btn
    exact processButton_eq _
  simp only [inputProcessEvents, processKeys_eq, buttons, List.foldl_append, snapshotEvents,
    List.foldl_cons]

theorem foldl_concat_eq (events earlier : List InputEvent) :
    events.foldl (fun events evt => events ++ [evt]) earlier = earlier ++ events := by
  induction events generalizing earlier with
  | nil => exact (List.append_nil earlier).symm
  | cons evt events ih => rw [List.foldl_cons, ih, List.append_assoc, List.singleton_append]

/-- The events that are produced are those that are pushed. -/
theorem inputProcessEvents_snd :
    (inputProcessEvents push rawHook keys mouse now seen state).2 =
      (produced rawHook keys mouse now seen).foldl push state := by
  rw [produced, inputProcessEvents_eq, inputProcessEvents_eq]
  split
  · rw [foldl_concat_eq, List.nil_append]
  · rw [foldl_concat_eq, List.nil_append]

theorem lastButtons_inputProcessEvents :
    (inputProcessEvents push rawHook keys mouse now seen state).1.lastButtons = mouse.buttons := by
  rw [inputProcessEvents_eq]
  split
  · rfl
  next same =>
    rw [not_or, not_or, not_not, not_not, not_not] at same
    exact same.2.2.symm

end Processing

section Edges

variable {btn : Nat} {first second : List InputEvent}

@[simp] theorem edges_nil : edges btn [] = [] := rfl

@[simp] theorem edges_append : edges btn (first ++ second) = edges btn first ++ edges btn second :=
  List.filterMap_append

theorem edges_characterEvents (rawHook : Bool) (keys : List (Int × UInt64)) :
    edges btn (characterEvents rawHook keys) = [] := by
  rw [edges, List.filterMap_eq_nil_iff]
  intro evt member
  rw [characterEvents] at member
  split at member
  · cases member
  · obtain ⟨key, -, rfl⟩ := List.mem_map.mp member
    rfl

theorem edges_presses (presses : List KeyPress) :
    edges btn (presses.map KeyPress.event) = [] := by
  rw [edges, List.filterMap_eq_nil_iff]
  intro evt member
  obtain ⟨press, -, rfl⟩ := List.mem_map.mp member
  rw [KeyPress.event]
  cases press.pressed
  · rfl
  · rfl

theorem edges_weave (interrupts : List (List KeyPress)) (events : List InputEvent) :
    edges btn (weave interrupts events) = edges btn events := by
  induction events generalizing interrupts with
  | nil => cases interrupts <;> rfl
  | cons evt events ih =>
  cases interrupts with
  | nil => rfl
  | cons presses later =>
      have single : evt :: weave later events = [evt] ++ weave later events := rfl
      rw [weave, edges_append, edges_presses, List.nil_append, single, edges_append, ih,
        ← edges_append]
      rfl

theorem edgeOf_mouseEvent (mouse : MouseState) (now : UInt64) (down : Bool) (other : Nat) :
    edgeOf btn (mouseEvent (if down then .mouseDown else .mouseUp) mouse (other + 1) now) =
      if other = btn then some down else none := by
  have same : ((other : Int) + 1 = btn + 1) = (other = btn) := by
    apply propext
    omega
  cases down
  · simp only [edgeOf, mouseEvent, Bool.false_eq_true, if_false, same]
  · simp only [edgeOf, mouseEvent, if_true, same]

theorem edges_buttonEvents (mouse : MouseState) (now : UInt64) (prev : UInt8) (other : Nat) :
    edges btn (buttonEvents mouse now prev other) =
      if other = btn then Signal.edge (isDown prev btn) (isDown mouse.buttons btn) else [] := by
  rw [edges, buttonEvents, List.filterMap_map]
  have read : edgeOf btn ∘ (fun down =>
      mouseEvent (if down then .mouseDown else .mouseUp) mouse (other + 1) now) =
        fun down => if other = btn then some down else none := by
    funext down
    exact edgeOf_mouseEvent mouse now down other
  rw [read]
  by_cases same : other = btn
  · simp only [same, if_true]
    exact List.filterMap_some
  · simp only [same, if_false]
    exact List.filterMap_none _

theorem edges_snapshotEvents {mouse : MouseState} {now : UInt64} {prev : UInt8}
    (button : btn < 3) :
    edges btn (snapshotEvents mouse now prev) =
      Signal.edge (isDown prev btn) (isDown mouse.buttons btn) := by
  have move : edges btn (snapshotEvents mouse now prev) =
      edges btn ((List.range 3).flatMap (buttonEvents mouse now prev)) := rfl
  have range : List.range 3 = [0, 1, 2] := rfl
  rw [move, range]
  simp only [List.flatMap_cons, List.flatMap_nil, edges_append, edges_nil, edges_buttonEvents]
  interval_cases btn <;> simp

theorem edges_produced {rawHook : Bool} {keys : List (Int × UInt64)} {mouse : MouseState}
    {now : UInt64} {seen : LastSeen} (button : btn < 3) :
    edges btn (produced rawHook keys mouse now seen) =
      Signal.edge (isDown seen.lastButtons btn) (isDown mouse.buttons btn) := by
  rw [produced, inputProcessEvents_eq]
  split
  · rw [foldl_concat_eq, List.nil_append, edges_append, edges_characterEvents, List.nil_append,
      edges_snapshotEvents button]
  next same =>
    rw [not_or, not_or, not_not, not_not, not_not] at same
    rw [foldl_concat_eq, List.nil_append, edges_characterEvents, same.2.2, Signal.edge,
      if_pos rfl]

theorem buttonEvents_cases (mouse : MouseState) (now : UInt64) (prev : UInt8) (btn : Nat) :
    (isDown prev btn != isDown mouse.buttons btn) = false ∧ buttonEvents mouse now prev btn = [] ∨
      (isDown prev btn != isDown mouse.buttons btn) = true ∧
        ∃ evt, buttonEvents mouse now prev btn = [evt] ∧ edges btn [evt] ≠ [] := by
  have read := @edges_buttonEvents btn mouse now prev btn
  rw [if_pos rfl, Signal.edge] at read
  by_cases same : isDown prev btn = isDown mouse.buttons btn
  · left
    rw [buttonEvents, Signal.edge, if_pos same, same]
    exact ⟨bne_self_eq_false _, rfl⟩
  · right
    rw [if_neg same] at read
    have single : buttonEvents mouse now prev btn =
        [mouseEvent (if isDown mouse.buttons btn then .mouseDown else .mouseUp) mouse (btn + 1)
          now] := by
      rw [buttonEvents, Signal.edge, if_neg same, List.map_singleton]
    rw [single] at read
    refine ⟨bne_iff_ne.mpr same, _, single, ?_⟩
    rw [read]
    exact List.cons_ne_nil _ _

theorem buttonEvents_all (mouse : MouseState) (now : UInt64) (prev : UInt8) (btns : List Nat) :
    let changed := btns.countP fun btn => isDown prev btn != isDown mouse.buttons btn
    (btns.flatMap (buttonEvents mouse now prev)).length = changed ∧
      (0 < changed → ∃ btn ∈ btns, ∃ front evt,
        btns.flatMap (buttonEvents mouse now prev) = front ++ [evt] ∧ edges btn [evt] ≠ []) := by
  induction btns with
  | nil => exact ⟨rfl, fun none => absurd none (Nat.lt_irrefl 0)⟩
  | cons btn btns ih =>
  obtain ⟨length, last⟩ := ih
  rw [List.flatMap_cons, List.countP_cons, List.length_append, length]
  have later : 0 < (btns.countP fun btn => isDown prev btn != isDown mouse.buttons btn) →
      ∃ btn' ∈ btn :: btns, ∃ front evt,
        buttonEvents mouse now prev btn ++ btns.flatMap (buttonEvents mouse now prev) =
          front ++ [evt] ∧ edges btn' [evt] ≠ [] := by
    intro some
    obtain ⟨btn', member, front, evt, events, edge⟩ := last some
    refine ⟨btn', List.mem_cons_of_mem _ member, buttonEvents mouse now prev btn ++ front, evt,
      ?_, edge⟩
    rw [events, ← List.append_assoc]
  rcases buttonEvents_cases mouse now prev btn with ⟨same, none⟩ | ⟨changed, evt, single, edge⟩
  · rw [none] at later ⊢
    rw [same]
    exact ⟨by simp, fun some => later (by simpa using some)⟩
  · rw [single] at later ⊢
    rw [changed]
    refine ⟨by simp [Nat.add_comm], fun _ => ?_⟩
    rcases Nat.eq_zero_or_pos (btns.countP fun btn =>
      isDown prev btn != isDown mouse.buttons btn) with zero | some
    · rw [zero] at length
      refine ⟨btn, List.mem_cons_self, [], evt, ?_, edge⟩
      rw [List.eq_nil_of_length_eq_zero length]
      rfl
    · exact later some

theorem length_weave (interrupts : List (List KeyPress)) (events : List InputEvent) :
    (weave interrupts events).length =
      events.length + ((interrupts.take events.length).map List.length).sum := by
  induction events generalizing interrupts with
  | nil => cases interrupts <;> rfl
  | cons evt events ih =>
  cases interrupts with
  | nil => rfl
  | cons presses later =>
      rw [weave, List.length_append, List.length_map, List.length_cons, ih, List.length_cons,
        List.take_succ_cons, List.map_cons, List.sum_cons]
      omega

theorem weave_concat (interrupts : List (List KeyPress)) (events : List InputEvent)
    (evt : InputEvent) :
    ∃ front, weave interrupts (events ++ [evt]) = front ++ [evt] := by
  induction events generalizing interrupts with
  | nil =>
      cases interrupts with
      | nil => exact ⟨[], rfl⟩
      | cons presses later =>
          refine ⟨presses.map KeyPress.event, ?_⟩
          cases later <;> rfl
  | cons first events ih =>
  cases interrupts with
  | nil => exact ⟨first :: events, rfl⟩
  | cons presses later =>
      obtain ⟨front, woven⟩ := ih later
      refine ⟨presses.map KeyPress.event ++ first :: front, ?_⟩
      rw [List.cons_append, weave, woven, List.append_assoc, List.cons_append]

variable {rawHook : Bool} {keys : List (Int × UInt64)} {mouse : MouseState} {now : UInt64}
  {seen : LastSeen}

theorem produced_of_changed (some : 0 < changedButtons seen.lastButtons mouse.buttons) :
    (produced rawHook keys mouse now seen).length =
        (if rawHook then 0 else min 64 keys.length) + 1 +
          changedButtons seen.lastButtons mouse.buttons ∧
      ∃ btn < 3, ∃ front evt,
        produced rawHook keys mouse now seen = front ++ [evt] ∧ edges btn [evt] ≠ [] := by
  have buttons : mouse.buttons ≠ seen.lastButtons := by
    intro same
    rw [changedButtons, same] at some
    simp at some
  have all : produced rawHook keys mouse now seen =
      characterEvents rawHook keys ++ snapshotEvents mouse now seen.lastButtons := by
    rw [produced, inputProcessEvents_eq, if_pos (.inr (.inr buttons)), foldl_concat_eq,
      List.nil_append]
  have characters : (characterEvents rawHook keys).length =
      if rawHook then 0 else min 64 keys.length := by
    rw [characterEvents]
    split
    · rfl
    · rw [List.length_map, List.length_take]
  obtain ⟨length, last⟩ := buttonEvents_all mouse now seen.lastButtons (List.range 3)
  obtain ⟨btn, member, front, evt, events, edge⟩ := last some
  rw [all, snapshotEvents]
  refine ⟨?_, btn, List.mem_range.mp member, characterEvents rawHook keys ++
    mouseEvent .mouseMove mouse mouse.buttons.toNat now :: front, evt, ?_, edge⟩
  · rw [List.length_append, characters, List.length_cons, length, changedButtons]
    omega
  · rw [events, ← List.cons_append, ← List.append_assoc]

/-- An edge finds no room if a button has changed and not all events find room. -/
theorem edges_drop_weave_iff {interrupts : List (List KeyPress)} {room : Nat} :
    (∀ btn < 3, edges btn
        ((weave interrupts (produced rawHook keys mouse now seen)).drop room) = []) ↔
      changedButtons seen.lastButtons mouse.buttons = 0 ∨
        (weave interrupts (produced rawHook keys mouse now seen)).length ≤ room := by
  constructor
  · intro none
    rw [or_iff_not_imp_left]
    intro some
    obtain ⟨-, btn, button, front, evt, events, edge⟩ :=
      @produced_of_changed rawHook keys mouse now seen (Nat.pos_of_ne_zero some)
    obtain ⟨front', woven⟩ := weave_concat interrupts front evt
    have rest := none btn button
    rw [events, woven] at rest ⊢
    by_contra long
    rw [List.length_append, List.length_singleton] at long
    rw [List.drop_append_of_le_length (by omega), edges_append, List.append_eq_nil_iff] at rest
    exact edge rest.2
  · rintro (same | short) btn button
    · have all := @edges_weave btn interrupts (produced rawHook keys mouse now seen)
      have still : isDown seen.lastButtons btn = isDown mouse.buttons btn := by
        rw [changedButtons, List.countP_eq_zero] at same
        have here := same btn (List.mem_range.mpr button)
        rwa [bne_iff_ne, not_not] at here
      rw [edges_produced button, Signal.edge, if_pos still,
        ← List.take_append_drop room (weave interrupts _), edges_append,
        List.append_eq_nil_iff] at all
      exact all.2
    · rw [List.drop_eq_nil_of_le short, edges_nil]

end Edges

/-! ## Steps -/

namespace Session

variable {session session' session'' : Session} {evt : InputEvent}
  {events first second : List InputEvent}

/-- The ring holds the events that are accepted and not yet delivered. -/
structure Consistent (session : Session) : Prop where
  proper : session.ring.Proper
  split : session.accepted = session.delivered ++ session.ring.contents

theorem consistent_start : Consistent {} where
  proper := ⟨by decide, by decide⟩
  split := rfl

theorem Consistent.remember (consistent : Consistent session) (seen : LastSeen) :
    Consistent { session with seen } := ⟨consistent.proper, consistent.split⟩

/-- Some events are pushed, of which the ring accepts as many as it has room for. -/
structure Pushes (session : Session) (events : List InputEvent) (session' : Session) : Prop where
  consistent : Consistent session'
  accepted : session'.accepted = session.accepted ++ events.take session.ring.room
  room : session'.ring.room = session.ring.room - events.length
  delivered : session'.delivered = session.delivered
  seen : session'.seen = session.seen

theorem Consistent.pushes_nil (consistent : Consistent session) : Pushes session [] session where
  consistent
  accepted := by rw [List.take_nil, List.append_nil]
  room := rfl
  delivered := rfl
  seen := rfl

theorem Pushes.append (pushes : Pushes session first session')
    (pushes' : Pushes session' second session'') : Pushes session (first ++ second) session'' where
  consistent := pushes'.consistent
  accepted := by
    rw [pushes'.accepted, pushes.accepted, pushes.room, List.take_append, List.append_assoc]
  room := by
    rw [pushes'.room, pushes.room, List.length_append, Nat.sub_sub]
  delivered := pushes'.delivered.trans pushes.delivered
  seen := pushes'.seen.trans pushes.seen

theorem Consistent.push (consistent : Consistent session) (evt : InputEvent) :
    Pushes session [evt] (session.push evt) := by
  rcases Nat.eq_zero_or_pos session.ring.room with full | free
  · have rejected := @InputRing.inputPushEvent_of_full _ evt consistent.proper full
    simp only [Session.push, rejected]
    refine ⟨⟨consistent.proper, consistent.split⟩, ?_, ?_, rfl, rfl⟩
    · rw [full, List.take_zero, List.append_nil]
    · rw [full, Nat.zero_sub]
      exact full
  · obtain ⟨ring, called, proper, contents, room⟩ :=
      @InputRing.inputPushEvent_of_room _ evt consistent.proper free
    simp only [Session.push, called]
    refine ⟨⟨proper, ?_⟩, ?_, room, rfl, rfl⟩
    · rw [contents, ← List.append_assoc, ← consistent.split]
    · rw [List.take_of_length_le free]

theorem Consistent.pushes (consistent : Consistent session) (events : List InputEvent) :
    Pushes session events (events.foldl Session.push session) := by
  induction events generalizing session with
  | nil => exact consistent.pushes_nil
  | cons evt events ih =>
      have here := consistent.push evt
      exact here.append (ih here.consistent)

theorem foldl_pushInterrupted (interrupts : List (List KeyPress)) :
    (events.foldl pushInterrupted (session, interrupts)).1 =
      (weave interrupts events).foldl Session.push session := by
  induction events generalizing session interrupts with
  | nil => cases interrupts <;> rfl
  | cons evt events ih =>
  cases interrupts with
  | nil =>
      rw [List.foldl_cons, pushInterrupted, ih]
      cases events <;> rfl
  | cons presses later =>
      rw [List.foldl_cons, pushInterrupted, ih, weave, List.foldl_append, List.foldl_cons]

/-- What a call of `input_process_events` does to a session. -/
theorem Consistent.processes (consistent : Consistent session) (rawHook : Bool)
    (keys : List (Int × UInt64)) (mouse : MouseState) (now : UInt64)
    (interrupts : List (List KeyPress)) :
    ∃ pushed seen,
      Pushes session (weave interrupts (produced rawHook keys mouse now session.seen)) pushed ∧
      seen.lastButtons = mouse.buttons ∧
      session.next (.process rawHook keys mouse now interrupts) = { pushed with seen } := by
  refine ⟨_, (inputProcessEvents pushInterrupted rawHook keys mouse now session.seen
    (session, interrupts)).1, consistent.pushes _, lastButtons_inputProcessEvents, ?_⟩
  rw [next, inputProcessEvents_snd, foldl_pushInterrupted]

theorem Consistent.pop_empty (consistent : Consistent session)
    (empty : inputQueueDepth session.ring = 0) : session.pop = session := by
  rw [Session.pop, InputRing.inputPopEvent_of_empty consistent.proper empty]

theorem Consistent.pop_filled (consistent : Consistent session)
    (filled : 0 < inputQueueDepth session.ring) :
    Consistent session.pop ∧ session.pop.accepted = session.accepted ∧
      session.pop.seen = session.seen ∧
      inputQueueDepth session.pop.ring = inputQueueDepth session.ring - 1 := by
  obtain ⟨evt, ring, called, proper, contents, depth⟩ :=
    InputRing.inputPopEvent_of_filled consistent.proper filled
  have popped : session.pop =
      { session with ring, delivered := session.delivered ++ [evt] } := by
    rw [Session.pop, called]
  rw [popped]
  refine ⟨⟨proper, ?_⟩, rfl, rfl, depth⟩
  rw [consistent.split, contents, List.append_assoc, List.singleton_append]

/-- Popping an event. -/
theorem Consistent.pop (consistent : Consistent session) :
    Consistent session.pop ∧ session.pop.accepted = session.accepted ∧
      session.pop.seen = session.seen ∧
      inputQueueDepth session.pop.ring = inputQueueDepth session.ring - 1 := by
  rcases Nat.eq_zero_or_pos (inputQueueDepth session.ring) with empty | filled
  · rw [consistent.pop_empty empty]
    exact ⟨consistent, rfl, rfl, by rw [empty]⟩
  · exact consistent.pop_filled filled

/-- Every step keeps the ring and the two lists together. -/
theorem Consistent.next (consistent : Consistent session) (action : Action) :
    Consistent (session.next action) := by
  cases action with
  | process rawHook keys mouse now interrupts =>
      obtain ⟨pushed, seen, pushes, -, after⟩ :=
        consistent.processes rawHook keys mouse now interrupts
      rw [after]
      exact pushes.consistent.remember seen
  | press press => exact (consistent.push press.event).consistent
  | pop => exact consistent.pop.1

theorem Consistent.pops (consistent : Consistent session) (count : Nat) :
    Consistent (Session.pop^[count] session) ∧
      (Session.pop^[count] session).accepted = session.accepted ∧
      (Session.pop^[count] session).seen = session.seen ∧
      inputQueueDepth (Session.pop^[count] session).ring =
        inputQueueDepth session.ring - count := by
  induction count with
  | zero => exact ⟨consistent, rfl, rfl, rfl⟩
  | succ count ih =>
      obtain ⟨before, accepted, seen, depth⟩ := ih
      obtain ⟨after, accepted', seen', depth'⟩ := before.pop
      rw [Function.iterate_succ_apply']
      exact ⟨after, accepted'.trans accepted, seen'.trans seen, by rw [depth', depth, Nat.sub_sub]⟩

/-- After the queue has been drained, what was accepted is delivered. -/
theorem Consistent.drain (consistent : Consistent session) :
    Consistent session.drain ∧ session.drain.accepted = session.accepted ∧
      session.drain.seen = session.seen ∧ inputQueueDepth session.drain.ring = 0 ∧
      session.drain.delivered = session.accepted := by
  obtain ⟨drained, accepted, seen, depth⟩ := consistent.pops inputQueueSize
  have below := InputRing.inputQueueDepth_lt consistent.proper
  have empty : inputQueueDepth session.drain.ring = 0 := by
    rw [Session.drain, depth]
    omega
  refine ⟨drained, accepted, seen, empty, ?_⟩
  have split := drained.split
  rw [← Session.drain] at split accepted
  rw [← accepted, split, InputRing.contents, empty, Ring.contents_zero, List.append_nil]

/-- No edge of a button is among the events that find the ring full. -/
def Lossless (session : Session) : Action → Prop
  | .process rawHook keys mouse now interrupts =>
      ∀ btn < 3, edges btn
        ((weave interrupts (produced rawHook keys mouse now session.seen)).drop
          session.ring.room) = []
  | .press _ => True
  | .pop => True

theorem heard_iff_lossless {action : Action} (consistent : Consistent session) :
    session.Heard action ↔ session.Lossless action := by
  cases action with
  | press press => exact Iff.rfl
  | pop => exact Iff.rfl
  | process rawHook keys mouse now interrupts =>
  have below := InputRing.inputQueueDepth_lt consistent.proper
  rw [Lossless, edges_drop_weave_iff, Heard]
  apply or_congr_right'
  intro some
  have length := (@produced_of_changed rawHook keys mouse now session.seen
    (Nat.pos_of_ne_zero some)).1
  rw [length_weave, length, InputRing.room]
  simp only [inputQueueSize] at below ⊢
  omega

/-- The edges that the ring has accepted alternate, and they lead to the buttons of the last
snapshot. -/
structure Steady (session : Session) : Prop where
  consistent : Consistent session
  alternate : ∀ btn < 3, Signal.Alternates false (edges btn session.accepted)
  level : ∀ btn < 3,
    Signal.level false (edges btn session.accepted) = isDown session.seen.lastButtons btn

theorem steady_start : Steady {} where
  consistent := consistent_start
  alternate := fun _ _ => Signal.alternates_nil
  level := by decide

/-- Events without edges keep a session steady. -/
theorem Steady.of_pushes (steady : Steady session) (pushes : Pushes session events session')
    (none : ∀ btn < 3, edges btn events = []) : Steady session' := by
  have same : ∀ btn < 3, edges btn session'.accepted = edges btn session.accepted := by
    intro btn button
    have taken : edges btn (events.take session.ring.room) = [] := by
      have whole := none btn button
      rw [← List.take_append_drop session.ring.room events, edges_append,
        List.append_eq_nil_iff] at whole
      exact whole.1
    rw [pushes.accepted, edges_append, taken, List.append_nil]
  refine ⟨pushes.consistent, ?_, ?_⟩
  · intro btn button
    rw [same btn button]
    exact steady.alternate btn button
  · intro btn button
    rw [same btn button, pushes.seen]
    exact steady.level btn button

theorem Pushes.edges_accepted {btn : Nat} {rawHook : Bool} {keys : List (Int × UInt64)}
    {mouse : MouseState} {now : UInt64} {interrupts : List (List KeyPress)}
    (pushes : Pushes session (weave interrupts (produced rawHook keys mouse now session.seen))
      session') (button : btn < 3) :
    edges btn session'.accepted ++
        edges btn ((weave interrupts (produced rawHook keys mouse now session.seen)).drop
          session.ring.room) =
      edges btn session.accepted ++
        Signal.edge (isDown session.seen.lastButtons btn) (isDown mouse.buttons btn) := by
  rw [pushes.accepted, edges_append, List.append_assoc, ← edges_append, List.take_append_drop,
    edges_weave, edges_produced button]

/-- A step at which no edge finds the ring full. -/
theorem Steady.next {action : Action} (steady : Steady session)
    (lossless : session.Lossless action) : Steady (session.next action) := by
  cases action with
  | process rawHook keys mouse now interrupts =>
      obtain ⟨pushed, seen, pushes, buttons, after⟩ :=
        steady.consistent.processes rawHook keys mouse now interrupts
      have all : ∀ btn < 3, edges btn pushed.accepted = edges btn session.accepted ++
          Signal.edge (Signal.level false (edges btn session.accepted))
            (isDown mouse.buttons btn) := by
        intro btn button
        have both := pushes.edges_accepted button
        have lost := lossless btn button
        rw [lost, List.append_nil] at both
        rw [both, steady.level btn button]
      rw [after]
      refine ⟨pushes.consistent.remember seen, ?_, ?_⟩
      · intro btn button
        rw [all btn button]
        exact (steady.alternate btn button).append_edge
      · intro btn button
        rw [all btn button, buttons]
        exact Signal.level_append_edge
  | press press =>
      apply steady.of_pushes (steady.consistent.push press.event)
      intro btn _
      exact edges_presses [press]
  | pop =>
  obtain ⟨popped, accepted, seen, -⟩ := steady.consistent.pop
  refine ⟨popped, ?_, ?_⟩
  · intro btn button
    rw [Session.next, accepted]
    exact steady.alternate btn button
  · intro btn button
    rw [Session.next, accepted, seen]
    exact steady.level btn button

/-- A snapshot has at most four events. -/
theorem length_produced_le (mouse : MouseState) (now : UInt64) (seen : LastSeen) :
    (produced true [] mouse now seen).length ≤ 4 := by
  have one : ∀ btn, (buttonEvents mouse now seen.lastButtons btn).length ≤ 1 := by
    intro btn
    rw [buttonEvents, List.length_map, Signal.edge]
    split
    · exact Nat.zero_le 1
    · exact Nat.le_refl 1
  have first := one 0
  have second := one 1
  have third := one 2
  rw [produced, inputProcessEvents_eq]
  split
  · have range : List.range 3 = [0, 1, 2] := rfl
    rw [foldl_concat_eq, characterEvents, if_pos rfl, snapshotEvents, range]
    simp only [List.nil_append, List.flatMap_cons, List.flatMap_nil, List.length_cons,
      List.length_append, List.length_nil]
    omega
  · exact Nat.zero_le 4

/-- An empty queue has room for a snapshot. -/
theorem lossless_of_empty (empty : inputQueueDepth session.ring = 0) (mouse : MouseState)
    (now : UInt64) : session.Lossless (.process true [] mouse now []) := by
  have short := length_produced_le mouse now session.seen
  have none : weave [] (produced true [] mouse now session.seen) =
      produced true [] mouse now session.seen := by
    cases produced true [] mouse now session.seen <;> rfl
  intro btn _
  rw [InputRing.room, empty, none, List.drop_eq_nil_of_le (by simp only [inputQueueSize]; omega),
    edges_nil]

/-- The edges that are delivered when the queue has been drained and one more snapshot has been
processed. -/
theorem Consistent.edges_settled {btn : Nat} (consistent : Consistent session)
    (mouse : MouseState) (now : UInt64) (button : btn < 3) :
    edges btn ((session.drain.snapshot mouse now).drain).delivered =
      edges btn session.accepted ++
        Signal.edge (isDown session.seen.lastButtons btn) (isDown mouse.buttons btn) := by
  obtain ⟨drained, accepted, seen, empty, -⟩ := consistent.drain
  obtain ⟨pushed, seen', pushes, -, after⟩ := drained.processes true [] mouse now []
  have settled : Consistent (session.drain.snapshot mouse now) := drained.next _
  obtain ⟨-, -, -, -, all⟩ := settled.drain
  have both := pushes.edges_accepted button
  have lost := lossless_of_empty empty mouse now btn button
  rw [lost, List.append_nil, accepted, seen] at both
  rw [all, snapshot, after]
  exact both

/-- The number of events that are not yet delivered. -/
theorem Consistent.depth (consistent : Consistent session) :
    session.delivered.length + inputQueueDepth session.ring = session.accepted.length := by
  rw [consistent.split, List.length_append, InputRing.contents, Ring.length_contents]

theorem Steady.sound (steady : Steady session) : Sound session := by
  have consistent := steady.consistent
  refine ⟨⟨_, consistent.split.symm⟩, consistent.drain.2.2.2.2, consistent.depth, ?_, ?_⟩
  · intro btn button
    apply (steady.alternate btn button).of_earlier
    rw [consistent.split, edges_append]
    exact List.prefix_append _ _
  · intro mouse now btn button
    rw [consistent.edges_settled mouse now button, ← steady.level btn button]
    exact Signal.level_append_edge

/-- In a session that does what it has to, the accepted edges lead to the last snapshot. -/
theorem Sound.level (sound : Sound session) (consistent : Consistent session) {btn : Nat}
    (button : btn < 3) :
    Signal.level false (edges btn session.accepted) = isDown session.seen.lastButtons btn := by
  have settled := sound.settles { buttons := session.seen.lastButtons } 0 btn button
  rwa [consistent.edges_settled _ _ button, Signal.edge, if_pos rfl, List.append_nil] at settled

/-- A full ring takes no edge, but the buttons are taken for seen. -/
theorem Consistent.processes_full (consistent : Consistent session)
    (full : session.ring.room = 0) (mouse : MouseState) (now : UInt64) :
    (session.next (.process true [] mouse now [])).accepted = session.accepted ∧
      (session.next (.process true [] mouse now [])).seen.lastButtons = mouse.buttons := by
  obtain ⟨pushed, seen, pushes, buttons, after⟩ := consistent.processes true [] mouse now []
  have accepted := pushes.accepted
  rw [full, List.take_zero, List.append_nil] at accepted
  rw [after]
  exact ⟨accepted, buttons⟩

/-- A step after which a session does what it has to has no edge that finds the ring full. -/
theorem Steady.lossless_of_sound {action : Action} (steady : Steady session)
    (sound : Sound (session.next action)) : session.Lossless action := by
  cases action with
  | press press => trivial
  | pop => trivial
  | process rawHook keys mouse now interrupts =>
  intro btn button
  obtain ⟨pushed, seen, pushes, buttons, after⟩ :=
    steady.consistent.processes rawHook keys mouse now interrupts
  have both := pushes.edges_accepted button
  have level := sound.level (steady.consistent.next _) button
  rw [after] at level
  dsimp only at level
  rw [buttons, pushes.accepted, edges_append] at level
  rw [pushes.accepted, edges_append, ← steady.level btn button] at both
  exact Signal.eq_nil_of_level both level

end Session

/-- In every run, the session does what it has to after each step if and only if no edge of a
button finds the ring full. -/
theorem input_sound_iff (actions : List Action) :
    Along Session.next (fun session action => (session.next action).Sound) {} actions ↔
      Along Session.next Session.Heard {} actions := by
  have always : Along Session.next (fun _ _ => True) {} actions :=
    Along.of_forall (fun _ _ => trivial) _ _
  apply Along.congr _ _ Session.steady_start always
  · intro session action steady _ sound
    exact steady.next (steady.lossless_of_sound sound)
  · intro session action steady _
    rw [Session.heard_iff_lossless steady.consistent]
    constructor
    · intro sound
      exact steady.lossless_of_sound sound
    · intro lossless
      exact (steady.next lossless).sound

/-- In every run accepted events are delivered in their order, each once, and the depth of the
queue is the number of events that are not yet delivered. -/
theorem input_delivers_in_order (actions : List Action) :
    let session := actions.foldl Session.next {}
    session.delivered <+: session.accepted ∧ session.drain.delivered = session.accepted ∧
      session.delivered.length + inputQueueDepth session.ring = session.accepted.length := by
  have consistent : Session.Consistent (actions.foldl Session.next {}) := by
    have always : Along Session.next (fun _ _ => True) {} actions :=
      Along.of_forall (fun _ _ => trivial) _ _
    apply Along.invariant _ Session.consistent_start always
    intro session action before _
    exact before.next action
  exact ⟨⟨_, consistent.split.symm⟩, consistent.drain.2.2.2.2, consistent.depth⟩

/-- A key is pressed until the ring is full. -/
def manyKeys : List KeyPress := List.replicate 255 ⟨0x1E, true, 0⟩

/-- The session after that. -/
def fullSession : Session := (manyKeys.map Action.press).foldl Session.next {}

theorem pushes_fullSession :
    Session.Pushes {} (manyKeys.map KeyPress.event) fullSession := by
  have pushes := Session.consistent_start.pushes (manyKeys.map KeyPress.event)
  rw [List.foldl_map] at pushes
  rw [fullSession, List.foldl_map]
  exact pushes

theorem room_fullSession : fullSession.ring.room = 0 := by
  rw [pushes_fullSession.room, List.length_map, manyKeys, List.length_replicate]
  rfl

theorem edges_fullSession (btn : Nat) : edges btn fullSession.accepted = [] := by
  have long : (manyKeys.map KeyPress.event).length ≤ 255 := by
    rw [List.length_map, manyKeys, List.length_replicate]
  have room : InputRing.room {} = 255 := rfl
  rw [pushes_fullSession.accepted, room, List.take_of_length_le long]
  exact edges_presses manyKeys

/-- The left button is pressed when the ring is full. -/
def lateClick : Session := fullSession.next (.process true [] { buttons := 1 } 0 [])

/-- Of a click that finds the ring full, only the release is delivered. -/
theorem late_click_released :
    ¬lateClick.Sound ∧
      edges 0 ((lateClick.drain.snapshot { buttons := 0 } 0).drain).delivered = [false] := by
  have consistent : lateClick.Consistent := pushes_fullSession.consistent.next _
  obtain ⟨accepted, buttons⟩ := pushes_fullSession.consistent.processes_full room_fullSession
    { buttons := 1 } 0
  rw [← lateClick] at accepted buttons
  have none : edges 0 lateClick.accepted = [] := by
    rw [accepted]
    exact edges_fullSession 0
  constructor
  · intro sound
    have level := sound.level consistent (by decide : 0 < 3)
    rw [none, buttons] at level
    exact absurd level (by decide)
  · rw [consistent.edges_settled _ _ (by decide), none, buttons]
    rfl

end Charis.Input
