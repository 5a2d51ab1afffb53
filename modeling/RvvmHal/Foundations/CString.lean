import RvvmHal.Foundations.Bytes

/-!
# NUL-terminated strings

A C string is a list of bytes without a NUL, and `StringAt m a s` says that the memory `m` holds
it at `a`, with the NUL that ends it. A list of strings, each ended by a NUL, is laid out without
gaps: `joinStrings` is its bytes and `nulStrings` reads them back (`nulStrings_joinStrings`).
-/

namespace RvvmHal.CString

open Bytes

/-- The bytes of a string constant. -/
def cstr (s : String) : List UInt8 := s.toList.map fun c => UInt8.ofNat c.toNat

/-- The memory `m` holds the string `s` at `a`, with the NUL that ends it. -/
def StringAt (m : Mem) (a : ℕ) (s : List UInt8) : Prop :=
  0 ∉ s ∧ readBytes m a (s.length + 1) = s ++ [0]

instance (m : Mem) (a : ℕ) (s : List UInt8) : Decidable (StringAt m a s) :=
  inferInstanceAs (Decidable (_ ∧ _))

section

variable {m : Mem} {a : ℕ}

theorem StringAt.nil (h : StringAt m a []) : m a = 0 := by
  have hb := h.2
  rw [readBytes_succ] at hb
  exact (List.cons.inj hb).1

theorem StringAt.cons {b : UInt8} {s : List UInt8} (h : StringAt m a (b :: s)) :
    m a = b ∧ b ≠ 0 ∧ StringAt m (a + 1) s := by
  obtain ⟨hnul, hb⟩ := h
  rw [List.length_cons, readBytes_succ, List.cons_append] at hb
  obtain ⟨hhead, htail⟩ := List.cons.inj hb
  rw [List.mem_cons, not_or] at hnul
  exact ⟨hhead, Ne.symm hnul.1, hnul.2, htail⟩

/-- The bytes of a string are not NUL. -/
theorem StringAt.ne_zero {s : List UInt8} (h : StringAt m a s) {i : ℕ} (hi : i < s.length) :
    m (a + i) ≠ 0 := by
  induction s generalizing a i with
  | nil => cases hi
  | cons b s ih =>
    obtain ⟨hhead, hb, htail⟩ := h.cons
    cases i with
    | zero => exact hhead ▸ hb
    | succ i =>
      have := ih htail (i := i) (by simpa using hi)
      rwa [Nat.add_assoc, Nat.add_comm 1] at this

theorem StringAt.getElem {s : List UInt8} (h : StringAt m a s) {i : ℕ} (hi : i < s.length) :
    m (a + i) = s[i] := by
  have hb : (readBytes m a (s.length + 1))[i]? = (s ++ [0])[i]? := by rw [h.2]
  have hlt : i < (readBytes m a (s.length + 1)).length := by
    rw [length_readBytes]
    omega
  rw [List.getElem?_eq_getElem hlt, getElem_readBytes, List.getElem?_append_left hi,
    List.getElem?_eq_getElem hi] at hb
  exact Option.some.inj hb

/-- The byte after a string is NUL. -/
theorem StringAt.eq_zero {s : List UInt8} (h : StringAt m a s) : m (a + s.length) = 0 := by
  induction s generalizing a with
  | nil => exact h.nil
  | cons b s ih =>
    have := ih h.cons.2.2
    rwa [Nat.add_assoc, Nat.add_comm 1] at this

end

/-! ## The string at the beginning of some bytes -/

/-- The string that the bytes `w` begin with, when they hold a NUL. -/
theorem stringAt_takeWhile {m : Mem} {a : ℕ} {w : List UInt8} (hw : 0 ∈ w)
    (h : readBytes m a w.length = w) : StringAt m a (w.takeWhile (· ≠ 0)) := by
  induction w generalizing a with
  | nil => cases hw
  | cons b w ih =>
    rw [List.length_cons, readBytes_succ] at h
    obtain ⟨hhead, htail⟩ := List.cons.inj h
    rw [List.takeWhile_cons]
    by_cases hb : b = 0
    · rw [if_neg (by simpa using hb)]
      exact ⟨nofun, by rw [List.length_nil, readBytes_succ, hhead, hb]; rfl⟩
    · have hmem : 0 ∈ w := (List.mem_cons.1 hw).resolve_left (Ne.symm hb)
      obtain ⟨hnul, hbytes⟩ := ih hmem htail
      rw [if_pos (by simpa using hb)]
      refine ⟨fun h => ?_, ?_⟩
      · exact (List.mem_cons.1 h).elim (Ne.symm hb) hnul
      · rw [List.length_cons, readBytes_succ, hhead, hbytes, List.cons_append]

theorem takeWhile_append_zeros (v : List UInt8) (k : ℕ) :
    (v ++ List.replicate (k + 1) 0).takeWhile (· ≠ 0) = v.takeWhile (· ≠ 0) := by
  induction v with
  | nil => rfl
  | cons b v ih => rw [List.cons_append, List.takeWhile_cons, List.takeWhile_cons, ih]

/-! ## Lists of strings -/

/-- The bytes of a list of strings. -/
def joinStrings (strs : List (List UInt8)) : List UInt8 := strs.flatMap fun s => s ++ [0]

theorem length_joinStrings_cons (s : List UInt8) (strs : List (List UInt8)) :
    (joinStrings (s :: strs)).length = s.length + 1 + (joinStrings strs).length := by
  rw [joinStrings, List.flatMap_cons, List.length_append, List.length_append,
    List.length_singleton]
  rfl

/-- The strings that the bytes `v` hold, each ended by a NUL. -/
def nulStrings : List UInt8 → List (List UInt8)
  | [] => []
  | b :: v =>
    if b = 0 then [] :: nulStrings v
    else
      match nulStrings v with
      | [] => []
      | s :: strs => (b :: s) :: strs

theorem nulStrings_append {s : List UInt8} (hs : 0 ∉ s) (v : List UInt8) :
    nulStrings (s ++ 0 :: v) = s :: nulStrings v := by
  induction s with
  | nil => simp [nulStrings]
  | cons b s ih =>
    rw [List.mem_cons, not_or] at hs
    rw [List.cons_append, nulStrings, if_neg (Ne.symm hs.1), ih hs.2]

/-- **Round trip** of a list of strings. -/
theorem nulStrings_joinStrings {strs : List (List UInt8)} (h : ∀ s ∈ strs, 0 ∉ s) :
    nulStrings (joinStrings strs) = strs := by
  induction strs with
  | nil => rfl
  | cons s strs ih =>
    rw [List.forall_mem_cons] at h
    rw [joinStrings, List.flatMap_cons, List.append_assoc, List.singleton_append,
      nulStrings_append h.1]
    exact congrArg _ (ih h.2)

end RvvmHal.CString
