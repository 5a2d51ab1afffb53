import RvvmHal.Uart.Printf

/-!
# The text of a panic

`panic.c`: what `hal_panic_v` prints before it calls `dump_and_halt`, and what that prints once it
has the guard: a blank line, and the lines of the dump. The loads of the walk along the frame
pointers may find anything.
-/

namespace RvvmHal.Panic

open CString Uart

/-- The arguments of `dump_and_halt`. -/
structure Frame where
  mcause : BitVec 64
  mepc : BitVec 64
  regs : Fin 32 → BitVec 64
  fpSeed : BitVec 64

/-- What `dump_and_halt` reads: control registers, the bounds of the stack, and the memory. -/
structure Seen where
  mtval : BitVec 64
  mstatus : BitVec 64
  mtvec : BitVec 64
  stackBottom : BitVec 64
  stackTop : BitVec 64
  load : BitVec 64 → BitVec 64

/-- `CAUSE_INTERRUPT_BIT`. -/
def CAUSE_INTERRUPT_BIT : BitVec 64 := 1#64 <<< 63

/-- `MCAUSE_SOFTWARE_PANIC`. -/
def MCAUSE_SOFTWARE_PANIC : BitVec 64 := CAUSE_INTERRUPT_BIT ||| 24

/-- `exc_name_for`. -/
def excNameFor (mcause : BitVec 64) : List UInt8 :=
  cstr <| ["instruction misaligned", "instruction access fault",
    "illegal instruction", "breakpoint",
    "load misaligned", "load access fault",
    "store misaligned", "store access fault",
    "ecall U", "ecall S",
    "reserved (10)", "ecall M",
    "instruction page fault", "load page fault",
    "reserved (14)", "store page fault"].getD mcause.toNat "unknown"

/-- The names of `gpr_name`. -/
def gprNames : List String :=
  ["x0   zero ", "x1   ra   ", "x2   sp   ", "x3   gp   ",
    "x4   tp   ", "x5   t0   ", "x6   t1   ", "x7   t2   ",
    "x8   s0fp ", "x9   s1   ", "x10  a0   ", "x11  a1   ",
    "x12  a2   ", "x13  a3   ", "x14  a4   ", "x15  a5   ",
    "x16  a6   ", "x17  a7   ", "x18  s2   ", "x19  s3   ",
    "x20  s4   ", "x21  s5   ", "x22  s6   ", "x23  s7   ",
    "x24  s8   ", "x25  s9   ", "x26  s10  ", "x27  s11  ",
    "x28  t3   ", "x29  t4   ", "x30  t5   ", "x31  t6   "]

/-- `gpr_name`. -/
def gprName (i : Fin 32) : List UInt8 := cstr (gprNames.getD i "")

/-- `print_reg`. -/
def printReg (name : List UInt8) (v : BitVec 64) : List UInt8 :=
  uartPuts (cstr "   ") ++ uartPuts name ++ uartPuts (cstr " : ") ++ uartPutHex64 v ++ [0x0A]

/-- The loop of `walk_stack`, for at most so many frames. -/
def walkFrames (seen : Seen) : ℕ → ℕ → BitVec 64 → BitVec 64 → List UInt8
  | 0, _, _, _ => []
  | frames + 1, n, prevFp, fp =>
    if ¬ n < 32 then []
    else if fp < seen.stackBottom + 16 ∨ fp > seen.stackTop then []
    else if fp ≤ prevFp then []
    else if fp &&& 0xF ≠ 0 then []
    else
      let savedRa := seen.load (fp - 8)
      let savedFp := seen.load (fp - 16)
      if savedRa = 0 then []
      else
        uartPrintf "     #%u  0x%x\n" [.num (.ofNat 64 n), .num savedRa] ++
          walkFrames seen frames (n + 1) fp savedFp

/-- `walk_stack`. -/
def walkStack (seen : Seen) (seedPc seedRa fp : BitVec 64) : List UInt8 :=
  let second := decide (seedRa ≠ 0 ∧ seedRa ≠ seedPc)
  uartPuts (cstr "   stack:\n") ++ uartPrintf "     #0  0x%x\n" [.num seedPc] ++
    (if second then uartPrintf "     #%u  0x%x\n" [.num 1, .num seedRa] else []) ++
    walkFrames seen 16 (if second then 2 else 1) 0 fp

/-- The first line of a dump. -/
def headLine : List UInt8 :=
  uartPuts (cstr "!!HAL-PANIC-V1 ============================================\n")

/-- The last line of a dump. -/
def endLine : List UInt8 :=
  uartPuts (cstr "!!HAL-PANIC-V1 end ========================================\n")

/-- The lines that the hart `h` prints in `dump_and_halt`. -/
def dumpLines (f : Frame) (seen : Seen) (h : ℕ) : List UInt8 :=
  let code := f.mcause &&& ~~~CAUSE_INTERRUPT_BIT
  headLine ++
    (if f.mcause.msb then
      uartPrintf "   cause      : interrupt code %u (mcause=0x%x)\n"
        [.num ((code.setWidth 32).setWidth 64), .num f.mcause]
    else
      uartPrintf "   cause      : %s (mcause=0x%x)\n" [.str (excNameFor code), .num f.mcause]) ++
    printReg (cstr "mepc      ") f.mepc ++
    printReg (cstr "mtval     ") seen.mtval ++
    printReg (cstr "mstatus   ") seen.mstatus ++
    printReg (cstr "mtvec     ") seen.mtvec ++
    uartPrintf "   mhartid    : %u\n" [.num (.ofNat 64 (h % 2 ^ 32))] ++
    uartPuts (cstr "   ----\n") ++
    ((List.finRange 32).flatMap fun i => printReg (gprName i) (if i = 0 then 0 else f.regs i)) ++
    uartPuts (cstr "   ----\n") ++
    walkStack seen f.mepc (f.regs 1) (if f.fpSeed ≠ 0 then f.fpSeed else f.regs 8) ++
    endLine

/-- The string of `dump_and_halt` begins with a newline, the blank line above a dump. -/
def blankLine : List UInt8 := uartPuts (cstr "\n")

/-- What `hal_panic_v` prints. -/
def messageText (fmt : Option (List UInt8)) (args : List Arg) : List UInt8 :=
  uartPuts (cstr "\n!!HAL-PANIC-V1 message: ") ++ (fmt.elim [] fun fmt => uartVprintf fmt args) ++
    uartPuts (cstr "\n")

/-- The frame that `hal_panic_v` makes. -/
def softwareFrame (ra fp : BitVec 64) : Frame where
  mcause := MCAUSE_SOFTWARE_PANIC
  mepc := ra
  regs i := if i = 1 then ra else if i = 8 then fp else 0
  fpSeed := fp

/-- A dump has a first byte, and more. -/
theorem dumpLines_eq_cons (f : Frame) (seen : Seen) (h : ℕ) :
    ∃ rest, dumpLines f seen h = 0x21 :: 0x21 :: rest := by
  have hhead : headLine = 0x21 :: 0x21 :: headLine.drop 2 := by decide
  simp only [dumpLines]
  rw [hhead]
  simp only [List.cons_append]
  exact ⟨_, rfl⟩

/-- A message begins with a carriage return. -/
theorem messageText_eq_cons (fmt : Option (List UInt8)) (args : List Arg) :
    ∃ rest, messageText fmt args = 0x0D :: rest := ⟨(messageText fmt args).drop 1, rfl⟩

end RvvmHal.Panic
