import Mathlib.Data.List.Nodup
import Mathlib.Logic.Function.Basic
import Mathlib.Tactic.Common

/-!
# Lists in a table of links

A table has an entry for every node: the next node of the list that the node is in, or a mark that
the list ends. `Linked` says that the table holds a list, `Owned` that it holds one list for each of
many owners, with no node in two of them. An owner may take a node that nobody has
(`Owned.alloc`, `Owned.append`) and give back the end of its list (`Owned.cut`); the lists of the
others stay as they are.
-/

namespace RvvmHal.LinkTable

variable {α ι : Type*}

/-- The table holds the list `l`: the entry of each node is the next, and that of the last meets
`P`. -/
def Linked (T : α → α) (P : α → Prop) : List α → Prop
  | [] => True
  | [a] => P (T a)
  | a :: b :: l => T a = b ∧ Linked T P (b :: l)

section

variable {T T' : α → α} {P : α → Prop} {l m : List α} {a b : α}

/-- **Frame rule**: a list depends on the entries of its own nodes. -/
theorem Linked.congr (h : Linked T P l) (hT : ∀ a ∈ l, T' a = T a) : Linked T' P l := by
  induction l with
  | nil => trivial
  | cons a l ih =>
    cases l with
    | nil =>
      rw [Linked, hT a List.mem_cons_self]
      exact h
    | cons b l =>
      exact ⟨(hT a List.mem_cons_self).trans h.1,
        ih h.2 fun c hc => hT c (List.mem_cons_of_mem a hc)⟩

/-- A list in two parts. -/
theorem linked_append : Linked T P (l ++ b :: m) ↔ Linked T (· = b) l ∧ Linked T P (b :: m) := by
  induction l with
  | nil => exact (and_iff_right trivial).symm
  | cons a l ih =>
    cases l with
    | nil => exact Iff.rfl
    | cons c l =>
      rw [List.cons_append, List.cons_append, Linked, ← List.cons_append, ih, Linked, and_assoc]

theorem linked_concat : Linked T P (l ++ [a]) ↔ Linked T (· = a) l ∧ P (T a) := linked_append

/-- The entry of a node is a node of the list, or marks its end. -/
theorem Linked.entry (h : Linked T P l) (ha : a ∈ l) : T a ∈ l ∨ P (T a) := by
  induction l with
  | nil => simp at ha
  | cons b l ih =>
    cases l with
    | nil =>
      obtain rfl := List.mem_singleton.1 ha
      exact .inr h
    | cons c l =>
      rcases List.mem_cons.1 ha with rfl | ha
      · exact .inl (h.1 ▸ List.mem_cons_of_mem _ List.mem_cons_self)
      · exact (ih h.2 ha).imp_left (List.mem_cons_of_mem b)

/-- The entry of the node at a place is the node at the next. -/
theorem Linked.getElem (h : Linked T P l) {k : ℕ} (hk : k + 1 < l.length) : T l[k] = l[k + 1] := by
  induction l generalizing k with
  | nil => simp at hk
  | cons a l ih =>
    cases l with
    | nil => simp at hk
    | cons b l =>
      cases k with
      | zero => exact h.1
      | succ k => exact ih h.2 (by simpa using hk)

end

/-- Each owner has a list, and no node is in two lists. -/
structure Owned (T : α → α) (P : α → Prop) (files : ι → List α) : Prop where
  linked : ∀ i, Linked T P (files i)
  nodup : ∀ i, (files i).Nodup
  disjoint : ∀ i j, i ≠ j → ∀ a ∈ files i, a ∉ files j

namespace Owned

variable {T T' : α → α} {P : α → Prop} {files : ι → List α} {i : ι}
  {a e : α} {l m : List α}

/-- **One owner's list changes**, within its nodes and such as nobody has. -/
theorem update [DecidableEq ι] (h : Owned T P files) (hl : Linked T' P l) (hn : l.Nodup)
    (hnew : ∀ a ∈ l, a ∈ files i ∨ ∀ j, a ∉ files j) (hT : ∀ j, j ≠ i → ∀ a ∈ files j, T' a = T a) :
    Owned T' P (Function.update files i l) := by
  have hother : ∀ j, j ≠ i → ∀ a ∈ l, a ∉ files j := by
    intro j hj a ha haj
    rcases hnew a ha with hai | hno
    · exact h.disjoint j i hj a haj hai
    · exact hno j haj
  refine ⟨fun j => ?_, fun j => ?_, fun j k hjk a ha hak => ?_⟩
  · by_cases hj : j = i
    · subst hj
      rwa [Function.update_self]
    · rw [Function.update_of_ne hj]
      exact (h.linked j).congr (hT j hj)
  · by_cases hj : j = i
    · subst hj
      rwa [Function.update_self]
    · rw [Function.update_of_ne hj]
      exact h.nodup j
  · by_cases hj : j = i
    · subst hj
      rw [Function.update_self] at ha
      rw [Function.update_of_ne (Ne.symm hjk)] at hak
      exact hother k (Ne.symm hjk) a ha hak
    · rw [Function.update_of_ne hj] at ha
      by_cases hk : k = i
      · subst hk
        rw [Function.update_self] at hak
        exact hother j hj a hak ha
      · rw [Function.update_of_ne hk] at hak
        exact h.disjoint j k hjk a ha hak

/-- The entries of the nodes that somebody has are all that matters. -/
theorem congr (h : Owned T P files) (hT : ∀ i, ∀ a ∈ files i, T' a = T a) : Owned T' P files :=
  ⟨fun i => (h.linked i).congr (hT i), h.nodup, h.disjoint⟩

/-- A list of one node. -/
theorem alloc [DecidableEq ι] [DecidableEq α] (h : Owned T P files) (ha : ∀ j, a ∉ files j)
    (he : P e) : Owned (Function.update T a e) P (Function.update files i [a]) := by
  refine h.update ?_ (List.nodup_singleton a) (fun b hb => ?_) fun j _ b hb => ?_
  · rwa [Linked, Function.update_self]
  · obtain rfl := List.mem_singleton.1 hb
    exact .inr ha
  · exact Function.update_of_ne (ne_of_mem_of_not_mem hb (ha j)) _ _

/-- A node at the end of a list. -/
theorem append [DecidableEq ι] [DecidableEq α] {b : α} (h : Owned T P files)
    (hi : files i = l ++ [a]) (hb : ∀ j, b ∉ files j) (he : P e) :
    Owned (Function.update (Function.update T b e) a b) P
      (Function.update files i (l ++ [a, b])) := by
  have hl := h.linked i
  have hn := h.nodup i
  rw [hi] at hl hn
  obtain ⟨hl, -⟩ := linked_concat.1 hl
  have hbl : b ∉ l ++ [a] := hi ▸ hb i
  have hal : a ∉ l := fun ha =>
    (List.nodup_append.1 hn).2.2 a ha a List.mem_cons_self rfl
  have hab : b ≠ a := fun hba => hbl (hba ▸ List.mem_append_right l List.mem_cons_self)
  have happ : l ++ [a, b] = l ++ [a] ++ [b] := by rw [List.append_assoc, List.singleton_append]
  refine h.update ?_ ?_ (fun c hc => ?_) fun j hj c hc => ?_
  · rw [linked_append]
    refine ⟨hl.congr fun c hc => ?_, ?_, ?_⟩
    · rw [Function.update_of_ne (ne_of_mem_of_not_mem hc hal),
        Function.update_of_ne (ne_of_mem_of_not_mem (List.mem_append_left _ hc) hbl)]
    · rw [Function.update_self]
    · rw [Linked, Function.update_of_ne hab, Function.update_self]
      exact he
  · rw [happ]
    exact List.Nodup.append hn (List.nodup_singleton b) fun c hc hcb =>
      hbl (List.mem_singleton.1 hcb ▸ hc)
  · rw [happ, List.mem_append, List.mem_singleton] at hc
    rcases hc with hc | rfl
    · exact .inl (hi ▸ hc)
    · exact .inr hb
  · rw [Function.update_of_ne, Function.update_of_ne (ne_of_mem_of_not_mem hc (hb j))]
    rintro rfl
    exact h.disjoint j i hj c hc (hi ▸ List.mem_append_right l List.mem_cons_self)

/-- The end of a list is given back: its nodes get the entry `z`, and what is left of the list ends
before them. -/
theorem cut [DecidableEq ι] (h : Owned T P files) (hi : files i = l ++ m)
    (hlast : ∀ a ∈ l.getLast?, P (T' a)) (hkeep : ∀ a, a ∉ m → l.getLast? ≠ some a → T' a = T a) :
    Owned T' P (Function.update files i l) := by
  have hl := h.linked i
  have hn := h.nodup i
  rw [hi] at hl hn
  obtain ⟨hnl, -, hdis⟩ := List.nodup_append.1 hn
  refine h.update ?_ hnl (fun a ha => .inl (hi ▸ List.mem_append_left m ha)) fun j hj a ha => ?_
  · rcases List.eq_nil_or_concat' l with rfl | ⟨k, a, rfl⟩
    · trivial
    · rw [List.append_assoc, List.singleton_append] at hl
      refine linked_concat.2 ⟨(linked_append.1 hl).1.congr fun b hb => ?_, hlast a (by simp)⟩
      refine hkeep b (fun hbm => hdis b (List.mem_append_left _ hb) b hbm rfl) ?_
      rw [List.getLast?_concat, ne_eq, Option.some.injEq]
      rintro rfl
      exact (List.nodup_append.1 hnl).2.2 a hb a List.mem_cons_self rfl
  · have hai : a ∉ files i := h.disjoint j i hj a ha
    rw [hi, List.mem_append, not_or] at hai
    exact hkeep a hai.2 fun hla => hai.1 (List.mem_of_getLast? hla)

end Owned

end RvvmHal.LinkTable
