import Mathlib.Data.List.Basic
import Mathlib.Tactic.Common

/-!
# Lists as files

A list is a file of which each place holds a value. `splice` stores a run of values at a place, and
makes the list longer when the run passes its end. Runs that follow each other are one run
(`splice_splice`). A list of optional values is a file of which some places have been promised:
`Agrees` says that what has been read at a place is what was promised there, and `padded` makes the
file longer without a promise.
-/

namespace RvvmHal

variable {α : Type*}

/-- The list with `data` stored from place `pos` on. -/
def splice (l : List α) (pos : ℕ) (data : List α) : List α :=
  l.take pos ++ data ++ l.drop (pos + data.length)

section

variable {l : List α} {pos : ℕ} {data data' : List α}

theorem length_splice (data : List α) (h : pos ≤ l.length) :
    (splice l pos data).length = max l.length (pos + data.length) := by
  rw [splice, List.length_append, List.length_append, List.length_take, List.length_drop]
  omega

theorem getElem?_splice (h : pos ≤ l.length) (p : ℕ) : (splice l pos data)[p]? =
    if p < pos then l[p]? else if p < pos + data.length then data[p - pos]? else l[p]? := by
  have hlen : (l.take pos).length = pos := by
    rw [List.length_take, Nat.min_eq_left h]
  rw [splice, List.append_assoc]
  by_cases h₁ : p < pos
  · rw [if_pos h₁, List.getElem?_append_left (by omega), List.getElem?_take_of_lt h₁]
  rw [if_neg h₁, List.getElem?_append_right (by omega), hlen]
  by_cases h₂ : p < pos + data.length
  · rw [if_pos h₂, List.getElem?_append_left (by omega)]
  · rw [if_neg h₂, List.getElem?_append_right (by omega), List.getElem?_drop]
    congr 1
    omega

/-- **Runs that follow each other** are one run. -/
theorem splice_splice (data data' : List α) (h : pos ≤ l.length) :
    splice (splice l pos data) (pos + data.length) data' = splice l pos (data ++ data') := by
  have hlen := length_splice data h
  refine List.ext_getElem? fun p => ?_
  rw [getElem?_splice (by omega), getElem?_splice h, getElem?_splice h, List.length_append]
  by_cases h₁ : p < pos
  · rw [if_pos (by omega), if_pos h₁, if_pos h₁]
  rw [if_neg h₁]
  by_cases h₂ : p < pos + data.length
  · rw [if_pos h₂, if_neg h₁, if_pos h₂, if_pos (by omega), List.getElem?_append_left (by omega)]
  rw [if_neg h₂, if_neg h₁, if_neg h₂, ← Nat.add_assoc]
  by_cases h₃ : p < pos + data.length + data'.length
  · rw [if_pos h₃, if_pos h₃, List.getElem?_append_right (by omega)]
    congr 1
    omega
  · rw [if_neg h₃, if_neg h₃]

@[simp] theorem splice_nil : splice l pos [] = l := by
  rw [splice, List.append_nil, List.length_nil, Nat.add_zero, List.take_append_drop]

end

/-! ## Promised values -/

/-- What has been read from place `pos` on is what was promised there. -/
def Agrees (l : List (Option α)) (pos : ℕ) (data : List α) : Prop :=
  ∀ k a b, data[k]? = some a → l[pos + k]? = some (some b) → a = b

section

variable {l : List (Option α)} {pos : ℕ} {data data' : List α}

theorem agrees_nil : Agrees l pos [] := fun _ _ _ h => by simp at h

/-- What has been read in two parts. -/
theorem Agrees.append (h : Agrees l pos data) (h' : Agrees l (pos + data.length) data') :
    Agrees l pos (data ++ data') := by
  intro k a b ha hb
  by_cases hk : k < data.length
  · rw [List.getElem?_append_left hk] at ha
    exact h k a b ha hb
  · rw [List.getElem?_append_right (by omega)] at ha
    exact h' (k - data.length) a b ha
      (by rwa [show pos + data.length + (k - data.length) = pos + k by omega])

/-- The list made at least `p` long. -/
def padded (l : List (Option α)) (p : ℕ) : List (Option α) := l ++ List.replicate (p - l.length) none

theorem length_padded (l : List (Option α)) (p : ℕ) : (padded l p).length = max l.length p := by
  rw [padded, List.length_append, List.length_replicate]
  omega

theorem padded_of_le {p : ℕ} (h : p ≤ l.length) : padded l p = l := by
  rw [padded, Nat.sub_eq_zero_of_le h, List.replicate_zero, List.append_nil]

/-- **Making a list longer in two steps.** -/
theorem padded_padded {p q : ℕ} (h : p ≤ q) : padded (padded l p) q = padded l q := by
  rw [padded, length_padded, padded, List.append_assoc, List.replicate_append_replicate, padded]
  congr 2
  omega

end

end RvvmHal
