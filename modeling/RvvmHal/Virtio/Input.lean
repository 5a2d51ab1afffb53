import RvvmHal.Foundations.Bytes
import RvvmHal.Virtio.FreeList
import RvvmHal.Virtio.Ring

/-!
# The input device

`virtio_input.c` against its device. The driver keeps 16 buffers of one event each with the device:
`refill_eventq` posts every free descriptor, with the address of the buffer of the same index, and
`virtio_input_poll` pops what the device has returned, looks at the event in the buffer and frees
the descriptor; at its end it refills the queue if it popped anything. The device takes posted
descriptors in order and returns them in any order, each after it has stored an event in the buffer
that the descriptor points at, and it may do so between any two statements of the driver.
-/

namespace RvvmHal.Virtio

open Bytes

/-! ## Events and key codes -/

abbrev VIRTIO_INPUT_EV_KEY : ℕ := 0x01

abbrev VIRTIO_INPUT_QSIZE : ℕ := 16

/-- `lkc_to_usb`: the entries that are not zero. -/
def lkcToUsbTable : List (ℕ × ℕ) :=
  [(1, 0x29), (2, 0x1E), (3, 0x1F), (4, 0x20), (5, 0x21), (6, 0x22), (7, 0x23), (8, 0x24),
    (9, 0x25), (10, 0x26), (11, 0x27), (12, 0x2D), (13, 0x2E), (14, 0x2A), (15, 0x2B),
    (16, 0x14), (17, 0x1A), (18, 0x08), (19, 0x15), (20, 0x17), (21, 0x1C), (22, 0x18),
    (23, 0x0C), (24, 0x12), (25, 0x13), (26, 0x2F), (27, 0x30), (28, 0x28), (29, 0xE0),
    (30, 0x04), (31, 0x16), (32, 0x07), (33, 0x09), (34, 0x0A), (35, 0x0B), (36, 0x0D),
    (37, 0x0E), (38, 0x0F), (39, 0x33), (40, 0x34), (41, 0x35), (42, 0xE1), (43, 0x31),
    (44, 0x1D), (45, 0x1B), (46, 0x06), (47, 0x19), (48, 0x05), (49, 0x11), (50, 0x10),
    (51, 0x36), (52, 0x37), (53, 0x38), (54, 0xE5), (55, 0x55), (56, 0xE2), (57, 0x2C),
    (58, 0x39), (59, 0x3A), (60, 0x3B), (61, 0x3C), (62, 0x3D), (63, 0x3E), (64, 0x3F),
    (65, 0x40), (66, 0x41), (67, 0x42), (68, 0x43), (69, 0x53), (70, 0x47), (71, 0x5F),
    (72, 0x60), (73, 0x61), (74, 0x56), (75, 0x5C), (76, 0x5D), (77, 0x5E), (78, 0x57),
    (79, 0x59), (80, 0x5A), (81, 0x5B), (82, 0x62), (83, 0x63), (87, 0x44), (88, 0x45),
    (96, 0x58), (97, 0xE4), (98, 0x54), (99, 0x46), (100, 0xE6), (102, 0x4A), (103, 0x52),
    (104, 0x4B), (105, 0x50), (106, 0x4F), (107, 0x4D), (108, 0x51), (109, 0x4E), (110, 0x49),
    (111, 0x4C), (125, 0xE3), (126, 0xE7)]

/-- `lkc_to_usb`. -/
def lkcToUsb (code : ℕ) : ℕ := (lkcToUsbTable.lookup code).getD 0

/-- `struct virtio_input_event`. -/
structure InputEvent where
  type : ℕ
  code : ℕ
  value : ℕ
  type_lt : type < 2 ^ 16
  code_lt : code < 2 ^ 16
  value_lt : value < 2 ^ 32

/-- The event in memory. -/
def InputEvent.bytes (e : InputEvent) : List UInt8 :=
  leBytes 2 e.type ++ (leBytes 2 e.code ++ leBytes 4 e.value)

/-- What the driver is to do with an event: a callback for a key that goes down or up and has a
usage. -/
def InputEvent.call (e : InputEvent) : Option (ℕ × Bool) :=
  if e.type = VIRTIO_INPUT_EV_KEY ∧ e.value ≠ 2 ∧ lkcToUsb e.code ≠ 0 then
    some (lkcToUsb e.code, e.value = 1)
  else none

section

variable (evtBuf : ℕ)

/-- The address of `evt_buf[i]`. -/
def evtAddr (i : ℕ) : ℕ := evtBuf + 8 * i

/-- The body of the loop in `virtio_input_poll`, for the element `id`, `len`: the callback. -/
def inputEvent (mem : Mem) (id len : ℕ) : Option (ℕ × Bool) :=
  if id < VIRTIO_INPUT_QSIZE ∧ 8 ≤ len then
    let e := evtAddr evtBuf id
    if readLe mem e 2 = VIRTIO_INPUT_EV_KEY ∧ readLe mem (e + 4) 4 ≠ 2 then
      let pressed : Bool := readLe mem (e + 4) 4 = 1
      let code := readLe mem (e + 2) 2
      if code < 128 then
        let usage := lkcToUsb code
        if usage ≠ 0 then some (usage, pressed) else none
      else none
    else none
  else none

/-! ## Driver and device -/

/-- Where the driver is. `any` and `events` are the locals of `virtio_input_poll`.

* `idle`: outside of the driver, with `events` as the value last returned;
* `drain`: in `virtq_used_pop`;
* `handle`: with an element popped;
* `release`: with its event handled;
* `refill`: at the head of the loop in `refill_eventq`;
* `post`: with a descriptor allocated and filled in, and in `virtq_avail_push`. -/
inductive PollPc
  | idle (events : ℕ)
  | drain (any : Bool) (events : ℕ)
  | handle (events id len : ℕ)
  | release (events id : ℕ)
  | refill (events : ℕ)
  | post (events idx : ℕ)
  deriving DecidableEq

/-- The driver and its device: the queue, the memory of the buffers, where the driver is, the event
whose element is in the ring and not yet counted, the events published, and the callbacks. -/
structure Input where
  ring : RingSys
  mem : Mem
  pc : PollPc
  coming : List InputEvent
  events : List InputEvent
  calls : List (ℕ × Bool)

namespace Input

/-- A call of `virtio_input_poll`. -/
def poll (s : Input) : Option Input :=
  match s.pc with
  | .idle _ => some { s with pc := .drain false 0 }
  | _ => none

/-- `virtq_used_pop` compares the indices. If they are equal, the loop is left. -/
def check (s : Input) : Option Input :=
  match s.pc, s.ring.drv with
  | .drain any events, .idle =>
    some (if UsedEmpty s.ring.q then
        { s with pc := if any then .refill events else .idle events }
      else { s with ring := { s.ring with drv := .loaded } })
  | _, _ => none

/-- `virtq_used_pop` reads the element. -/
def take (s : Input) : Option Input :=
  match s.pc with
  | .drain _ events => s.ring.take.map fun ring =>
    { s with ring := ring, pc := .handle events (usedFront s.ring.q).1 (usedFront s.ring.q).2 }
  | _ => none

/-- The event is read from its buffer. -/
def handle (s : Input) : Option Input :=
  match s.pc with
  | .handle events id len =>
    some (match inputEvent evtBuf s.mem id len with
      | some call => { s with pc := .release (events + 1) id, calls := s.calls ++ [call] }
      | none => { s with pc := .release events id })
  | _ => none

/-- The descriptor is freed. -/
def release (s : Input) : Option Input :=
  match s.pc with
  | .release events id =>
    some { s with ring := { s.ring with q := virtqFreeDesc s.ring.q id }, pc := .drain true events }
  | _ => none

/-- The descriptor for the buffer of index `idx`, as `refill_eventq` fills it in. -/
def eventDesc (idx : ℕ) : VirtqDesc := ⟨evtAddr evtBuf idx, 8, VIRTQ_DESC_F_WRITE, 0⟩

/-- The next round of the loop in `refill_eventq`, up to `virtq_avail_push`. When no descriptor is
free the driver notifies the device and returns. -/
def refill (s : Input) : Option Input :=
  match s.pc with
  | .refill events =>
    some (if s.ring.q.numFree = 0 then { s with pc := .idle events }
      else
        let (idx, q) := virtqAllocDesc s.ring.q
        if idx = 0xFFFF then { s with ring := { s.ring with q := q }, pc := .idle events }
        else { s with
          ring := { s.ring with q := writeDesc q idx (eventDesc evtBuf idx) }
          pc := .post events idx })
  | _ => none

/-- `virtq_avail_push` stores the head. -/
def store (s : Input) : Option Input :=
  match s.pc, s.ring.drv with
  | .post _ idx, .idle =>
    some { s with ring := { s.ring with q := availStore s.ring.q idx, drv := .stored idx } }
  | _, _ => none

/-- `virtq_avail_push` moves the index. -/
def publish (s : Input) : Option Input :=
  match s.pc with
  | .post events _ => s.ring.publish.map fun ring => { s with ring := ring, pc := .refill events }
  | _ => none

/-- The device takes the next descriptor. -/
def consume (s : Input) : Option Input :=
  s.ring.consume.map fun ring => { s with ring := ring }

/-- The device stores an event where the descriptor points, and the element in the ring. -/
def fill (id : ℕ) (e : InputEvent) (s : Input) : Option Input :=
  (s.ring.fill id 8).map fun ring =>
    { s with ring := ring, mem := writeBytes s.mem (s.ring.q.desc id).addr e.bytes, coming := [e] }

/-- The device moves `used.idx`: the event is published. -/
def giveBack (s : Input) : Option Input :=
  s.ring.giveBack.map fun ring =>
    { s with ring := ring, coming := [], events := s.events ++ s.coming }

end Input

/-- The steps of the driver and of the device. -/
inductive InputStep
  | poll
  | check
  | take
  | handle
  | release
  | refill
  | store
  | publish
  | consume
  | fill (id : ℕ) (e : InputEvent)
  | giveBack

/-- One step. -/
def inputStep : InputStep → Input → Option Input
  | .poll => Input.poll
  | .check => Input.check
  | .take => Input.take
  | .handle => Input.handle evtBuf
  | .release => Input.release
  | .refill => Input.refill evtBuf
  | .store => Input.store
  | .publish => Input.publish
  | .consume => Input.consume
  | .fill id e => Input.fill id e
  | .giveBack => Input.giveBack

/-- All runs of the driver, from the call of `refill_eventq` in `virtio_input_init_fdt`, on a queue
that has been set up. -/
def inputSystem (q : Virtq) (mem : Mem) : Machine Input InputStep where
  init := {
    ring := { (ringSystem q).init with q := virtqFreeInit q }
    mem := mem
    pc := .refill 0
    coming := []
    events := []
    calls := [] }
  step := inputStep evtBuf

end

end RvvmHal.Virtio
