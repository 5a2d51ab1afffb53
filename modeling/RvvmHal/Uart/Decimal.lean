import RvvmHal.Foundations.Decimal
import RvvmHal.Uart.Printf

/-!
# Printing numbers in decimal

`uart_put_udec` and `uart_put_dec` of `uart.c`, with what may fault: the digits go through a buffer
of 24 bytes, and a negative number is negated. A call that indexes outside the buffer, or that
evaluates a signed operation which overflows, is `none`.

A 64-bit number has at most 20 digits, so that the buffer suffices whatever it holds before
(`uartPutUdec_eq`). The least signed number has no negation, and it is the only number that is not
printed (`uart_put_dec_iff`).
-/

namespace RvvmHal.Uart.Checked

open Decimal

abbrev Buf := Vector UInt8 24

/-- The loop that stores the digits, from the last one on: the buffer and the count. -/
def digitLoop (buf : Buf) (i v : ℕ) : Option (Buf × ℕ) :=
  if v = 0 then some (buf, i)
  else if h : i < 24 then digitLoop (buf.set i (UInt8.ofNat (0x30 + v % 10)) h) (i + 1) (v / 10)
  else none
termination_by v
decreasing_by omega

/-- The loop that writes the bytes below `i`, from the last one on. -/
def emitLoop (buf : Buf) : ℕ → Option (List UInt8)
  | 0 => some []
  | i + 1 => if h : i < 24 then (emitLoop buf i).map (buf[i] :: ·) else none

/-- `uart_put_udec`, with what the buffer holds before. -/
def uartPutUdec (buf : Buf) (v : BitVec 64) : Option (List UInt8) :=
  if v = 0 then some [0x30]
  else (digitLoop buf 0 v.toNat).bind fun (buf, i) => emitLoop buf i

/-- The negation of a signed number, which overflows for the least one. -/
def negate (v : BitVec 64) : Option (BitVec 64) := if v.negOverflow then none else some (-v)

/-- `uart_put_dec`. -/
def uartPutDec (buf : Buf) (v : BitVec 64) : Option (List UInt8) :=
  if v.toInt < 0 then (negate v).bind fun v => (uartPutUdec buf v).map (0x2D :: ·)
  else uartPutUdec buf v

/-! ## The loops -/

section

variable {buf : Buf} {i v : ℕ}

theorem digitLoop_of_ne_zero (hv : v ≠ 0) (hi : i < 24) :
    digitLoop buf i v = digitLoop (buf.set i (digitChar (v % 10)) hi) (i + 1) (v / 10) := by
  rw [digitLoop, if_neg hv, dif_pos hi]
  rfl

/-- The bytes up to the one that is stored. -/
theorem take_set (buf : Buf) {i : ℕ} (hi : i < 24) (c : UInt8) :
    (buf.set i c hi).toList.take (i + 1) = buf.toList.take i ++ [c] := by
  have hlen : i < (buf.toList.set i c).length := by simpa using hi
  rw [Vector.toList_set, List.take_succ_eq_append_getElem hlen, List.getElem_set_self,
    List.take_set_of_le (Nat.le_refl i)]

/-- **The digits are stored** behind what the buffer holds, when there is room for them. -/
theorem digitLoop_eq (buf : Buf) (hroom : i + (Nat.digits 10 v).length ≤ 24) :
    ∃ buf', digitLoop buf i v = some (buf', i + (Nat.digits 10 v).length) ∧
      buf'.toList.take (i + (Nat.digits 10 v).length) =
        buf.toList.take i ++ (Nat.digits 10 v).map digitChar := by
  induction v using Nat.strong_induction_on generalizing buf i with
  | _ v ih =>
    by_cases hv : v = 0
    · subst hv
      refine ⟨buf, ?_, ?_⟩
      · rw [digitLoop, if_pos rfl, Nat.digits_zero]
        rfl
      · rw [Nat.digits_zero, List.map_nil, List.append_nil]
        rfl
    · have hdigits := Nat.digits_eq_cons_digits_div (b := 10) (by omega) hv
      have hlen : i + (Nat.digits 10 v).length = i + 1 + (Nat.digits 10 (v / 10)).length := by
        rw [hdigits, List.length_cons]
        omega
      rw [hlen] at hroom ⊢
      have hi : i < 24 := by omega
      obtain ⟨buf', hloop, htake⟩ :=
        ih (v / 10) (by omega) (buf.set i (digitChar (v % 10)) hi) hroom
      refine ⟨buf', (digitLoop_of_ne_zero hv hi).trans hloop, ?_⟩
      rw [htake, take_set, hdigits, List.map_cons, List.append_assoc]
      rfl

/-- The bytes of the buffer come out in reverse. -/
theorem emitLoop_eq (buf : Buf) (hi : i ≤ 24) : emitLoop buf i = some (buf.toList.take i).reverse := by
  induction i with
  | zero => rfl
  | succ i ih =>
    have hlen : i < buf.toList.length := by simpa using hi
    rw [emitLoop, dif_pos (Nat.lt_of_succ_le hi), ih (by omega), Option.map_some,
      List.take_succ_eq_append_getElem hlen, List.reverse_append, List.reverse_singleton,
      List.singleton_append, Vector.getElem_toList]

end

/-! ## Unsigned numbers -/

theorem uartPutUdec_eq_numeral (v : ℕ) : Uart.uartPutUdec v = numeral v := rfl

/-- A 64-bit number has at most 20 digits. -/
theorem length_digits_le (v : BitVec 64) : (Nat.digits 10 v.toNat).length ≤ 20 := by
  rw [Nat.digits_length_le_iff (by omega)]
  have hlt := v.isLt
  omega

/-- **The buffer suffices**, and its bytes are the numeral. -/
theorem uartPutUdec_eq (buf : Buf) (v : BitVec 64) :
    uartPutUdec buf v = some (Uart.uartPutUdec v.toNat) := by
  rw [uartPutUdec, uartPutUdec_eq_numeral, numeral]
  by_cases hv : v = 0
  · subst hv
    rfl
  · have hnat : v.toNat ≠ 0 := fun h => hv (BitVec.eq_of_toNat_eq h)
    have hlen := length_digits_le v
    obtain ⟨buf', hloop, htake⟩ := digitLoop_eq buf (i := 0) (v := v.toNat) (by omega)
    have hemit := emitLoop_eq buf' (i := 0 + (Nat.digits 10 v.toNat).length) (by omega)
    rw [if_neg hv, if_neg hnat, hloop, Option.bind_some]
    exact hemit.trans (congrArg (some ·.reverse) htake)

/-! ## Signed numbers -/

theorem negOverflow_iff (v : BitVec 64) : v.negOverflow = true ↔ v = BitVec.intMin 64 := by
  rw [← BitVec.toInt_inj, BitVec.toInt_intMin_of_pos (by omega), BitVec.negOverflow]
  exact beq_iff_eq

/-- The magnitude of a negative number. -/
theorem toNat_neg {v : BitVec 64} (hneg : v.toInt < 0) : (-v).toNat = v.toInt.natAbs := by
  have hlt := v.isLt
  rw [BitVec.toInt_eq_toNat_cond] at hneg ⊢
  rw [BitVec.toNat_neg]
  omega

theorem toNat_of_nonneg {v : BitVec 64} (hneg : ¬v.toInt < 0) : v.toNat = v.toInt.toNat := by
  have hlt := v.isLt
  rw [BitVec.toInt_eq_toNat_cond] at hneg ⊢
  omega

/-- A number that is not the least one is printed with its sign. -/
theorem uartPutDec_eq (buf : Buf) {v : BitVec 64} (hv : v ≠ BitVec.intMin 64) :
    uartPutDec buf v = some (Uart.uartPutDec v) := by
  have hover : v.negOverflow ≠ true := fun h => hv ((negOverflow_iff v).1 h)
  rw [uartPutDec, Uart.uartPutDec, BitVec.msb_eq_toInt]
  by_cases hneg : v.toInt < 0
  · rw [if_pos hneg, negate, if_neg hover, Option.bind_some, uartPutUdec_eq,
      if_pos (decide_eq_true hneg)]
    rfl
  · rw [if_neg hneg, uartPutUdec_eq, if_neg (by simpa using hneg)]

/-- The least number is not printed: its negation overflows. -/
theorem uartPutDec_intMin (buf : Buf) : uartPutDec buf (BitVec.intMin 64) = none := by
  have hneg : (BitVec.intMin 64).toInt < 0 := by decide
  rw [uartPutDec, if_pos hneg, negate, if_pos ((negOverflow_iff _).2 rfl)]
  rfl

/-- What is printed of a signed number is its numeral. -/
theorem signedCanonical_uartPutDec (v : BitVec 64) :
    SignedCanonical (Uart.uartPutDec v) v.toInt := by
  rw [SignedCanonical, Uart.uartPutDec, BitVec.msb_eq_toInt]
  by_cases hneg : v.toInt < 0
  · rw [if_pos hneg, if_pos (decide_eq_true hneg)]
    refine ⟨_, rfl, ?_⟩
    rw [uartPutUdec_eq_numeral, toNat_neg hneg]
    exact canonical_numeral _
  · rw [if_neg hneg, if_neg (by simpa using hneg), uartPutUdec_eq_numeral, toNat_of_nonneg hneg]
    exact canonical_numeral _

/-! ## Main result -/

/-- **Decimal output is exact.** Whatever the buffer holds before:

* an unsigned number is printed without an index outside the buffer, as the only canonical numeral
  that denotes it;
* a signed number is printed without an overflow, as its canonical numeral with a sign, exactly
  when it is not the least one. -/
theorem uart_put_dec_iff (buf : Buf) (v : BitVec 64) :
    (∃ out, uartPutUdec buf v = some out ∧ ∀ l, Canonical l v.toNat ↔ l = out) ∧
    ((∃ out, uartPutDec buf v = some out ∧ SignedCanonical out v.toInt) ↔
      v ≠ BitVec.intMin 64) := by
  constructor
  · exact ⟨_, uartPutUdec_eq buf v, fun l => canonical_iff⟩
  · constructor
    · rintro ⟨out, hout, -⟩ rfl
      rw [uartPutDec_intMin] at hout
      cases hout
    · intro hv
      exact ⟨_, uartPutDec_eq buf hv, signedCanonical_uartPutDec v⟩

/-- **The least signed number is not printed**, whatever the buffer holds. -/
theorem uart_put_dec_intMin : ¬ ∀ (buf : Buf) (v : BitVec 64),
    (∃ out, uartPutUdec buf v = some out ∧ Canonical out v.toNat) ∧
    ∃ out, uartPutDec buf v = some out ∧ SignedCanonical out v.toInt := by
  intro h
  obtain ⟨-, out, hout, -⟩ := h (Vector.replicate 24 0) (BitVec.intMin 64)
  rw [uartPutDec_intMin] at hout
  cases hout

end RvvmHal.Uart.Checked
