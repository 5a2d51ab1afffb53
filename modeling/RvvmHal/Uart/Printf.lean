import Mathlib.Data.Nat.Digits.Defs
import RvvmHal.Foundations.CString

/-!
# Printing

`uart.c`: the bytes that the printing functions write, one after the other, to the UART. A string is
the list of its bytes before the NUL.
-/

namespace RvvmHal.Uart

open CString

/-- `uart_puts`: a carriage return goes before a newline. -/
def uartPuts (s : List UInt8) : List UInt8 := s.flatMap fun c => if c = 0x0A then [0x0D, c] else [c]

/-- `hex_digits`. -/
def hexDigits : List UInt8 := cstr "0123456789abcdef"

/-- `uart_put_hex64`. -/
def uartPutHex64 (v : BitVec 64) : List UInt8 :=
  uartPuts (cstr "0x") ++
    (List.range 16).map fun i => hexDigits.getD (v >>> (60 - 4 * i) &&& 0xF).toNat 0

/-- `uart_put_udec`: the digits are found from the last one on. -/
def uartPutUdec (v : ℕ) : List UInt8 :=
  if v = 0 then [0x30] else ((Nat.digits 10 v).map fun d => UInt8.ofNat (0x30 + d)).reverse

/-- `uart_put_dec`. -/
def uartPutDec (v : BitVec 64) : List UInt8 :=
  if v.msb then 0x2D :: uartPutUdec (-v).toNat else uartPutUdec v.toNat

/-- An argument of `uart_printf`: a number or a pointer, or a string. -/
inductive Arg
  | num (v : BitVec 64)
  | str (s : List UInt8)

/-- The conversions of `uart_vprintf` that take an argument. -/
def convert (c : UInt8) (arg : Option Arg) : List UInt8 :=
  match Char.ofUInt8 c, arg with
  | 'c', some (.num v) => [UInt8.ofNat v.toNat]
  | 's', some (.str s) => uartPuts s
  | 'd', some (.num v) => uartPutDec v
  | 'u', some (.num v) => uartPutUdec v.toNat
  | 'x', some (.num v) | 'p', some (.num v) => uartPutHex64 v
  | _, _ => []

/-- `uart_vprintf`. -/
def uartVprintf : List UInt8 → List Arg → List UInt8
  | [], _ => []
  | [c], _ => if c = 0x25 then [] else [c]
  | c :: d :: fmt, args =>
    if c ≠ 0x25 then c :: uartVprintf (d :: fmt) args
    else if d ∈ cstr "csduxp" then convert d args.head? ++ uartVprintf fmt args.tail
    else (if d = 0x25 then d else 0x3F) :: uartVprintf fmt args

/-- `uart_printf`. -/
def uartPrintf (fmt : String) (args : List Arg) : List UInt8 := uartVprintf (cstr fmt) args

example : uartPrintf "a %u%%\n" [.num 42] = cstr "a 42%\n" := by decide

/-- The text before a conversion is copied. -/
theorem uartVprintf_append {s fmt : List UInt8} (hs : 0x25 ∉ s) (hfmt : fmt ≠ [])
    (args : List Arg) : uartVprintf (s ++ fmt) args = s ++ uartVprintf fmt args := by
  induction s with
  | nil => rfl
  | cons c s ih =>
    rw [List.mem_cons, not_or] at hs
    obtain ⟨hc, hs⟩ := hs
    obtain ⟨d, rest, heq⟩ := List.exists_cons_of_ne_nil (List.append_ne_nil_of_right_ne_nil s hfmt)
    rw [List.cons_append, heq, uartVprintf, if_pos (Ne.symm hc), ← heq, ih hs, List.cons_append]

end RvvmHal.Uart
