import Mathlib.Data.Nat.Digits.Lemmas
import Mathlib.Tactic.Common

/-!
# Decimal numerals

A numeral is a list of digits in ASCII, the first one the highest. A numeral is canonical when it
has no leading zero. Every natural number has exactly one canonical numeral, `numeral`
(`canonical_iff`), and a negative number that of its magnitude behind a minus sign.
-/

namespace RvvmHal.Decimal

/-- The character of a digit. -/
def digitChar (d : ℕ) : UInt8 := UInt8.ofNat (0x30 + d)

/-- The digit that a character stands for. -/
def charDigit (c : UInt8) : ℕ := c.toNat - 0x30

/-- The character is a digit. -/
def IsDigit (c : UInt8) : Prop := 0x30 ≤ c.toNat ∧ c.toNat ≤ 0x39

/-- The number that a numeral denotes, as a parser finds it. -/
def value (l : List UInt8) : ℕ := l.foldl (fun v c => 10 * v + charDigit c) 0

/-- The canonical numeral of a number. -/
def numeral (v : ℕ) : List UInt8 :=
  if v = 0 then [0x30] else ((Nat.digits 10 v).map digitChar).reverse

/-- The numeral `l` denotes `v`, and has no leading zero. -/
structure Canonical (l : List UInt8) (v : ℕ) : Prop where
  digits : ∀ c ∈ l, IsDigit c
  ne_nil : l ≠ []
  leading : l.head? = some 0x30 → l = [0x30]
  value : value l = v

/-- A numeral with a sign: `-` goes before the numeral of the magnitude. -/
def SignedCanonical (l : List UInt8) (v : ℤ) : Prop :=
  if v < 0 then ∃ magnitude, l = 0x2D :: magnitude ∧ Canonical magnitude v.natAbs
  else Canonical l v.toNat

/-! ## Digits -/

theorem toNat_digitChar {d : ℕ} (hd : d < 10) : (digitChar d).toNat = 0x30 + d :=
  UInt8.toNat_ofNat_of_lt' (show 0x30 + d < 256 by omega)

theorem isDigit_digitChar {d : ℕ} (hd : d < 10) : IsDigit (digitChar d) := by
  rw [IsDigit, toNat_digitChar hd]
  omega

theorem charDigit_digitChar {d : ℕ} (hd : d < 10) : charDigit (digitChar d) = d := by
  rw [charDigit, toNat_digitChar hd, Nat.add_sub_cancel_left]

theorem digitChar_charDigit {c : UInt8} (hc : IsDigit c) : digitChar (charDigit c) = c := by
  obtain ⟨hlow, hhigh⟩ := hc
  have hlt : charDigit c < 10 := by
    rw [charDigit]
    omega
  apply UInt8.toNat_inj.1
  rw [toNat_digitChar hlt, charDigit]
  omega

theorem charDigit_lt {c : UInt8} (hc : IsDigit c) : charDigit c < 10 := by
  obtain ⟨hlow, hhigh⟩ := hc
  rw [charDigit]
  omega

/-- Only the character of zero stands for zero. -/
theorem charDigit_ne_zero {c : UInt8} (hc : IsDigit c) (hne : c ≠ 0x30) : charDigit c ≠ 0 := by
  intro hzero
  apply hne
  rw [← digitChar_charDigit hc, hzero]
  rfl

/-! ## Numerals -/

/-- The parser reads the digits in the order of their weights. -/
theorem value_eq_ofDigits (l : List UInt8) :
    value l = Nat.ofDigits 10 (l.map charDigit).reverse := by
  rw [value, Nat.ofDigits_eq_foldr, List.foldr_reverse, List.foldl_map]
  simp only [Nat.cast_id, Nat.add_comm]

theorem map_digitChar_map_charDigit {l : List UInt8} (hl : ∀ c ∈ l, IsDigit c) :
    (l.map charDigit).map digitChar = l := by
  rw [List.map_map]
  exact (List.map_congr_left fun c hc => digitChar_charDigit (hl c hc)).trans (List.map_id l)

theorem map_charDigit_map_digitChar {l : List ℕ} (hl : ∀ d ∈ l, d < 10) :
    (l.map digitChar).map charDigit = l := by
  rw [List.map_map]
  exact (List.map_congr_left fun d hd => charDigit_digitChar (hl d hd)).trans (List.map_id l)

theorem canonical_numeral (v : ℕ) : Canonical (numeral v) v := by
  by_cases hv : v = 0
  · subst hv
    exact ⟨by simp [numeral, IsDigit], nofun, fun _ => rfl, rfl⟩
  · have hlt : ∀ d ∈ Nat.digits 10 v, d < 10 := fun d hd => Nat.digits_lt_base (by omega) hd
    have hne : Nat.digits 10 v ≠ [] := Nat.digits_ne_nil_iff_ne_zero.2 hv
    rw [numeral, if_neg hv]
    refine ⟨fun c hc => ?_, by simpa using hne, fun hhead => ?_, ?_⟩
    · obtain ⟨d, hd, rfl⟩ := List.mem_map.1 (List.mem_reverse.1 hc)
      exact isDigit_digitChar (hlt d hd)
    · -- the first character is that of the highest digit, which is not zero
      rw [List.head?_reverse, List.getLast?_map, List.getLast?_eq_getLast_of_ne_nil hne] at hhead
      have hchar : digitChar ((Nat.digits 10 v).getLast hne) = 0x30 := Option.some.inj hhead
      have hdigit := charDigit_digitChar (hlt _ (List.getLast_mem hne))
      rw [hchar] at hdigit
      exact absurd hdigit.symm (Nat.getLast_digit_ne_zero 10 hv)
    · rw [value_eq_ofDigits, List.map_reverse, map_charDigit_map_digitChar hlt,
        List.reverse_reverse, Nat.ofDigits_digits]

/-- The digits of a canonical numeral, lowest first, are those of its value. -/
theorem Canonical.digits_eq {l : List UInt8} {v : ℕ} (h : Canonical l v)
    (hhead : l.head? ≠ some 0x30) : Nat.digits 10 v = (l.map charDigit).reverse := by
  rw [← h.value, value_eq_ofDigits]
  apply Nat.digits_ofDigits 10 (by omega)
  · intro d hd
    obtain ⟨c, hc, rfl⟩ := List.mem_map.1 (List.mem_reverse.1 hd)
    exact charDigit_lt (h.digits c hc)
  · intro hne
    obtain ⟨c, l, rfl⟩ := List.exists_cons_of_ne_nil h.ne_nil
    have hc : c ≠ 0x30 := by simpa using hhead
    rw [List.getLast_reverse]
    exact charDigit_ne_zero (h.digits c List.mem_cons_self) hc

/-- **Canonical numerals are unique**: `numeral v` is the only one that denotes `v`. -/
theorem canonical_iff {l : List UInt8} {v : ℕ} : Canonical l v ↔ l = numeral v := by
  constructor
  · intro h
    by_cases hhead : l.head? = some 0x30
    · have hl := h.leading hhead
      rw [hl] at h ⊢
      rw [← h.value]
      rfl
    · have hdigits := h.digits_eq hhead
      have hv : v ≠ 0 := by
        rw [← Nat.digits_ne_nil_iff_ne_zero (b := 10), hdigits]
        simpa using h.ne_nil
      rw [numeral, if_neg hv, hdigits, List.map_reverse, List.reverse_reverse,
        map_digitChar_map_charDigit h.digits]
  · rintro rfl
    exact canonical_numeral v

end RvvmHal.Decimal
