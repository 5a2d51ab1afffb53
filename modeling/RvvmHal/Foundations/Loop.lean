import Mathlib.Algebra.Group.Nat.Defs
import Mathlib.Data.Nat.Find
import Mathlib.Tactic.Common

/-!
# Loops

The body of a `while` loop maps a state to the next state, to the result with which the loop is
left, or to nothing, when something the body calls does not return. `iterate` runs a loop for a
bounded number of rounds, `Visits` are the states in which its rounds begin, and the rules below
are those by which the loops of this development are proved to return: a measure that decreases
along the visited states (`iterate_of_measure`), a stopping round for every result
(`exists_stop_of_iterate`), and, against it, a state that repeats itself
(`iterate_eq_none_of_visits`).

A loop over 32-bit offsets gets more rounds than there are offsets (`loop32`): a round more, and it
has been at some offset twice. `scan` is the loop that counts an offset up while a condition holds,
and `mem_takeWhile_range` is about counting loops that break.
-/

namespace RvvmHal.Loop

/-- What one round of a loop does. -/
inductive Iter (σ ρ : Type*)
  | next (s : σ)
  | stop (r : ρ)
  | hang

variable {σ ρ : Type*}

/-- At most `n` rounds of the loop; `none` when it has not been left by then. -/
def iterate (body : σ → Iter σ ρ) : ℕ → σ → Option ρ
  | 0, _ => none
  | n + 1, s =>
    match body s with
    | .next t => iterate body n t
    | .stop r => some r
    | .hang => none

/-- The states in which a round of the loop begins. -/
inductive Visits (body : σ → Iter σ ρ) (s : σ) : σ → Prop
  | start : Visits body s s
  | next {t t' : σ} : Visits body s t → body t = .next t' → Visits body s t'

section

variable {body : σ → Iter σ ρ} {s t : σ} {n k : ℕ} {r : ρ}

theorem iterate_next (h : body s = .next t) : iterate body (n + 1) s = iterate body n t := by
  rw [iterate, h]

theorem iterate_stop (h : body s = .stop r) : iterate body (n + 1) s = some r := by
  rw [iterate, h]

/-- A loop that returns does so within any larger number of rounds. -/
theorem iterate_mono {m : ℕ} (h : iterate body n s = some r) (hle : n ≤ m) :
    iterate body m s = some r := by
  induction n generalizing s m with
  | zero => cases h
  | succ n ih =>
    obtain ⟨m, rfl⟩ : ∃ k, m = k + 1 := ⟨m - 1, by omega⟩
    unfold iterate at h ⊢
    cases hb : body s with
    | next t =>
      rw [hb] at h
      exact ih h (by omega)
    | stop r' =>
      rw [hb] at h
      exact h
    | hang =>
      rw [hb] at h
      cases h

/-- The first state, or one that is visited from the second. -/
theorem Visits.head {t' : σ} (h : body s = .next t) (hv : Visits body t t') :
    Visits body s t' := by
  induction hv with
  | start => exact .next .start h
  | next _ hb ih => exact .next ih hb

/-- **Invariant rule**: what a round preserves holds of all visited states. -/
theorem Visits.invariant {I : σ → Prop} (hv : Visits body s t) (hs : I s)
    (hstep : ∀ {t t'}, I t → body t = .next t' → I t') : I t := by
  induction hv with
  | start => exact hs
  | next _ hb ih => exact hstep ih hb

/-- A loop that returns is left in a visited state. -/
theorem exists_stop_of_iterate (h : iterate body n s = some r) :
    ∃ t, Visits body s t ∧ body t = .stop r := by
  induction n generalizing s with
  | zero => cases h
  | succ n ih =>
    unfold iterate at h
    cases hb : body s with
    | next t =>
      rw [hb] at h
      obtain ⟨u, hu, hstop⟩ := ih h
      exact ⟨u, hu.head hb, hstop⟩
    | stop r' =>
      rw [hb] at h
      exact ⟨s, .start, hb.trans (congrArg _ (Option.some.inj h))⟩
    | hang =>
      rw [hb] at h
      cases h

/-- **Termination rule**: a loop returns if no round hangs and a measure decreases from round to
round. -/
theorem iterate_of_measure (m : σ → ℕ)
    (hdec : ∀ t t', Visits body s t → body t = .next t' → m t' < m t)
    (hlive : ∀ t, Visits body s t → body t ≠ .hang) (hn : m s < n) :
    ∃ r, iterate body n s = some r := by
  induction n generalizing s with
  | zero => omega
  | succ n ih =>
    cases hb : body s with
    | next t =>
      have hlt := hdec s t .start hb
      obtain ⟨r, hr⟩ := ih (s := t) (fun u u' hu => hdec u u' (hu.head hb))
        (fun u hu => hlive u (hu.head hb)) (by omega)
      exact ⟨r, (iterate_next hb).trans hr⟩
    | stop r => exact ⟨r, iterate_stop hb⟩
    | hang => exact absurd hb (hlive s .start)

/-- A loop that returns also returns from each state it visits. -/
theorem iterate_of_visits (hv : Visits body s t) (h : iterate body n s = some r) :
    ∃ k, iterate body k t = some r := by
  induction hv with
  | start => exact ⟨n, h⟩
  | next _ hb ih =>
    obtain ⟨k, hk⟩ := ih
    cases k with
    | zero => cases hk
    | succ k => exact ⟨k, (iterate_next hb).symm.trans hk⟩

/-- A loop that visits a state which repeats itself does not return. -/
theorem iterate_eq_none_of_visits (hv : Visits body s t) (hb : body t = .next t) (n : ℕ) :
    iterate body n s = none := by
  have hfix : ∀ k, iterate body k t = none := by
    intro k
    induction k with
    | zero => rfl
    | succ k ih => rw [iterate_next hb, ih]
  cases h : iterate body n s with
  | none => rfl
  | some r =>
    obtain ⟨k, hk⟩ := iterate_of_visits hv h
    rw [hfix k] at hk
    cases hk

end

/-! ## Loops over 32-bit offsets -/

/-- A loop with one round more than there are 32-bit offsets. -/
def loop32 (body : σ → Iter σ ρ) (s : σ) : Option ρ := iterate body (2 ^ 32 + 1) s

/-- Every round that goes on moves the offset forward. -/
def Increases (offset : σ → ℕ) (body : σ → Iter σ ρ) (s : σ) : Prop :=
  ∀ t t', Visits body s t → body t = .next t' → offset t < offset t'

/-- **Termination rule** for loops over 32-bit offsets: every round leaves the loop, or moves the
offset forward. -/
theorem loop32_returns (offset : σ → ℕ) {body : σ → Iter σ ρ} {s : σ}
    (hstep : ∀ t, Visits body s t → (∃ r, body t = .stop r) ∨
      ∃ t', body t = .next t' ∧ offset t < offset t' ∧ offset t' < 2 ^ 32) :
    ∃ r, loop32 body s = some r := by
  refine iterate_of_measure (fun t => 2 ^ 32 - offset t) (fun t t' hv hb => ?_)
    (fun t hv hb => ?_) (by omega)
  · rcases hstep t hv with ⟨r, hr⟩ | ⟨u, hu, h₁, h₂⟩
    · rw [hr] at hb
      cases hb
    · rw [hu] at hb
      cases hb
      omega
  · rcases hstep t hv with ⟨r, hr⟩ | ⟨u, hu, -⟩
    · rw [hr] at hb
      cases hb
    · rw [hu] at hb
      cases hb

/-- A loop that moves its offset forward, within the word, and does not hang returns. -/
theorem loop32_of_increases {offset : σ → ℕ} {body : σ → Iter σ ρ} {s : σ}
    (hinc : Increases offset body s) (hlt : ∀ t t', body t = .next t' → offset t' < 2 ^ 32)
    (hlive : ∀ t, Visits body s t → body t ≠ .hang) : ∃ r, loop32 body s = some r := by
  refine loop32_returns offset fun t hv => ?_
  cases hb : body t with
  | next t' => exact .inr ⟨t', rfl, hinc t t' hv hb, hlt t t' hb⟩
  | stop r => exact .inl ⟨r, rfl⟩
  | hang => exact absurd hb (hlive t hv)

/-- A round of the loop `while (cond(p)) p++;` on a 32-bit `p`. -/
def scanBody (cond : ℕ → Bool) (p : ℕ) : Iter ℕ ℕ :=
  if cond p then .next ((p + 1) % 2 ^ 32) else .stop p

/-- The loop `while (cond(p)) p++;` on a 32-bit `p`. -/
def scan (cond : ℕ → Bool) (p : ℕ) : Option ℕ := loop32 (scanBody cond) p

section

variable {cond : ℕ → Bool} {p q : ℕ}

theorem scanBody_true (h : cond p = true) : scanBody cond p = .next ((p + 1) % 2 ^ 32) := if_pos h

theorem scanBody_false (h : cond p = false) : scanBody cond p = .stop p := by
  rw [scanBody, h]
  rfl

theorem scanBody_eq_next (h : scanBody cond p = .next q) :
    cond p = true ∧ q = (p + 1) % 2 ^ 32 := by
  cases hc : cond p with
  | true =>
    rw [scanBody_true hc] at h
    cases h
    exact ⟨rfl, rfl⟩
  | false =>
    rw [scanBody_false hc] at h
    cases h

theorem scanBody_eq_stop (h : scanBody cond p = .stop q) : cond p = false ∧ q = p := by
  cases hc : cond p with
  | true =>
    rw [scanBody_true hc] at h
    cases h
  | false =>
    rw [scanBody_false hc] at h
    cases h
    exact ⟨rfl, rfl⟩

theorem scanBody_ne_hang : scanBody cond p ≠ .hang := by
  unfold scanBody
  split
  · nofun
  · nofun

/-- The rounds of a scan that ends `d` offsets further on. -/
theorem iterate_scanBody (d : ℕ) {n : ℕ} (hq : p + d < 2 ^ 32)
    (htrue : ∀ i, p ≤ i → i < p + d → cond i = true) (hfalse : cond (p + d) = false)
    (hn : d < n) : iterate (scanBody cond) n p = some (p + d) := by
  induction d generalizing p n with
  | zero =>
    obtain ⟨n, rfl⟩ := Nat.exists_eq_add_of_le' hn
    exact iterate_stop (scanBody_false hfalse)
  | succ d ih =>
    obtain ⟨n, rfl⟩ := Nat.exists_eq_add_of_le' (Nat.zero_lt_of_lt hn)
    have hstep := scanBody_true (htrue p (Nat.le_refl p) (by omega))
    rw [Nat.mod_eq_of_lt (by omega)] at hstep
    have hd : p + (d + 1) = p + 1 + d := by omega
    rw [hd] at hq htrue hfalse ⊢
    rw [iterate_next hstep]
    exact ih hq (fun i h₁ h₂ => htrue i (by omega) h₂) hfalse (by omega)

/-- The scan of a range on which the condition holds ends at the first offset after it. -/
theorem scan_eq_some (hpq : p ≤ q) (hq : q < 2 ^ 32)
    (htrue : ∀ i, p ≤ i → i < q → cond i = true) (hfalse : cond q = false) :
    scan cond p = some q := by
  obtain ⟨d, rfl⟩ := Nat.exists_eq_add_of_le hpq
  exact iterate_scanBody d hq htrue hfalse (by omega)

/-- A scan does not leave the word. -/
theorem lt_of_visits_scanBody {t : ℕ} (hp : p < 2 ^ 32) (h : Visits (scanBody cond) p t) :
    t < 2 ^ 32 := by
  refine h.invariant (I := (· < 2 ^ 32)) hp fun _ hb => ?_
  obtain ⟨-, rfl⟩ := scanBody_eq_next hb
  exact Nat.mod_lt _ (by omega)

/-- The place at which a scan ends. -/
theorem lt_of_scan (hp : p < 2 ^ 32) (h : scan cond p = some q) : q < 2 ^ 32 := by
  obtain ⟨t, hv, ht⟩ := exists_stop_of_iterate h
  obtain ⟨-, rfl⟩ := scanBody_eq_stop ht
  exact lt_of_visits_scanBody hp hv

/-- A scan does not go past a place at which its condition fails. -/
theorem scan_first (hpq : p ≤ q) (hq : q < 2 ^ 32) (hfalse : cond q = false) :
    ∃ r, scan cond p = some r ∧ p ≤ r ∧ r ≤ q ∧ cond r = false := by
  have hex : ∃ r, p ≤ r ∧ cond r = false := ⟨q, hpq, hfalse⟩
  have hle : Nat.find hex ≤ q := Nat.find_min' hex ⟨hpq, hfalse⟩
  obtain ⟨hp, hc⟩ := Nat.find_spec hex
  refine ⟨_, scan_eq_some hp (by omega) (fun i h₁ h₂ => ?_) hc, hp, hle, hc⟩
  have hmin := Nat.find_min hex h₂
  cases hi : cond i with
  | true => rfl
  | false => exact absurd ⟨h₁, hi⟩ hmin

/-- **A scan returns if its condition fails somewhere**: the distance to that place, around the
word, decreases until the scan is there. -/
theorem scan_returns (hp : p < 2 ^ 32) (hq : q < 2 ^ 32) (hfalse : cond q = false) :
    ∃ r, scan cond p = some r := by
  refine iterate_of_measure (fun t => (q + 2 ^ 32 - t) % 2 ^ 32) ?_
    (fun _ _ => scanBody_ne_hang) (by omega)
  intro t t' ht hb
  have h32 := lt_of_visits_scanBody hp ht
  obtain ⟨hc, rfl⟩ := scanBody_eq_next hb
  have hne : t ≠ q := by
    rintro rfl
    rw [hfalse] at hc
    cases hc
  omega

end

/-! ## Counting loops that break

A loop over `List.range n` with a `break` runs over the prefix on which it does not break. -/

theorem takeWhile_eq_filter {α : Type*} {p : α → Bool} {l : List α}
    (h : l.Pairwise fun a b => p b → p a) : l.takeWhile p = l.filter p := by
  induction l with
  | nil => rfl
  | cons a l ih =>
    obtain ⟨ha, hl⟩ := List.pairwise_cons.1 h
    by_cases hp : p a
    · rw [List.takeWhile_cons_of_pos hp, List.filter_cons_of_pos hp, ih hl]
    · rw [List.takeWhile_cons_of_neg hp, List.filter_cons_of_neg hp, eq_comm, List.filter_eq_nil_iff]
      exact fun b hb hpb => hp (ha b hb hpb)

/-- The rounds of a loop whose condition, once it fails, fails for the rest of the range. -/
theorem mem_takeWhile_range {p : ℕ → Bool} {n k : ℕ}
    (h : ∀ a b, a < b → b < n → p b → p a) : k ∈ (List.range n).takeWhile p ↔ k < n ∧ p k := by
  have hpair : (List.range n).Pairwise fun a b => p b → p a :=
    List.pairwise_lt_range.imp_of_mem fun _ hb hlt => h _ _ hlt (List.mem_range.1 hb)
  rw [takeWhile_eq_filter hpair, List.mem_filter, List.mem_range]

end RvvmHal.Loop
