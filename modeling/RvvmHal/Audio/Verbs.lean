import RvvmHal.Audio.Hda
import RvvmHal.Foundations.Machine
import RvvmHal.Foundations.RingBuffer

/-!
# Verbs and their responses

`hda_send_cmd` against a codec that answers every verb once and in order, whenever it likes: each
response goes to the next entry of `rirb`, and `RIRBWP` counts them modulo 256.

A call that finds `RIRBWP` ahead of `rirb_rp` takes the next entry, whichever verb it answers.
Nothing in the driver counts the responses that are still to come, so after a call has timed out the
calls behind it take the responses of their predecessors. The calls that return the response to
their own verb are those that begin with `rirb_rp` equal to `corb_wp` (`verbs_matched_iff`); no
response is taken twice in any run.
-/

namespace RvvmHal.Audio

open Loop RingBuffer

/-! ## Driver and codec -/

/-- An entry of `rirb`, with the number of the verb that it answers. -/
structure RirbEntry where
  verb : ℕ
  bits : ℕ
  deriving DecidableEq

/-- A call of `hda_send_cmd` and what the codec does until the end of it: the answers it gives, and
how many of them it has given at each read of `RIRBWP`. -/
structure VerbCall where
  cmd : ℕ
  answers : List ℕ
  polls : ℕ → ℕ
  monotone : Monotone polls
  polls_le : ∀ i, polls i ≤ answers.length

/-- What is recorded of a call: the number of its verb, the variables with which it began, what
`RIRBWP` has at each look, the number of verbs answered at its end, the value returned, and the
entry that it took unless it timed out. -/
structure Called where
  verb : ℕ
  corbWp : ℕ
  rirbRp : ℕ
  rirbWp : ℕ → ℕ
  answered : ℕ
  value : ℕ
  got : Option RirbEntry

/-- The driver, the array `rirb`, and the histories of the answers and of the calls. -/
structure VerbSys where
  hda : Hda
  rirb : ℕ → RirbEntry
  answers : List RirbEntry
  calls : List Called

/-- The codec answers the next verb. -/
def VerbSys.answer (s : VerbSys) (bits : ℕ) : VerbSys :=
  let e := ⟨s.answers.length, bits⟩
  { s with
    rirb := Function.update s.rirb ((s.answers.length + 1) % 256) e
    answers := s.answers ++ [e] }

/-- The codec answers several verbs. -/
def VerbSys.answerAll (s : VerbSys) (bits : List ℕ) : VerbSys := bits.foldl VerbSys.answer s

/-- What a call reads. -/
def VerbSys.response (s : VerbSys) (c : VerbCall) : Response where
  rirbWp i := (s.answers.length + c.polls i) % 256
  rirb i := ((s.answerAll c.answers).rirb i).bits

/-- A call of `hda_send_cmd`. -/
def VerbSys.call (s : VerbSys) (c : VerbCall) : VerbSys :=
  let t := s.answerAll c.answers
  let ret := hdaSendCmd (s.response c) s.hda c.cmd
  let found := await (fun v => v ≠ s.hda.rirbRp) (s.response c).rirbWp 100000
  { t with
    hda := ret.2
    calls := s.calls ++ [{
      verb := s.calls.length
      corbWp := s.hda.corbWp
      rirbRp := s.hda.rirbRp
      rirbWp := (s.response c).rirbWp
      answered := t.answers.length
      value := ret.1
      got := found.map fun _ => t.rirb ret.2.rirbRp }] }

/-- The driver with its rings set up, as `hda_init` has it when a codec has announced itself. -/
def hdaReady (b : Board) : Hda :=
  { ringSetup b ((Hda.boot.write HDA_REG_GCTL 0).write HDA_REG_GCTL 1) with up := true }

/-- **The driver and its codec**: a step is a call during which, or before which, the codec answers
no verb that has not been sent. -/
def verbMachine (b : Board) : Machine VerbSys VerbCall where
  init := ⟨hdaReady b, fun _ => ⟨0, 0⟩, [], []⟩
  step c s :=
    if s.answers.length + c.answers.length ≤ s.calls.length + 1 then some (s.call c) else none

/-- The entries that were taken. -/
def VerbSys.got (s : VerbSys) : List RirbEntry := s.calls.filterMap Called.got

/-- A call that does not time out returns the response to its own verb. -/
def Called.Own (c : Called) : Prop := ∀ e, c.got = some e → e.verb = c.verb

/-- A call for which one of the looks at `RIRBWP` finds a response begins with `rirb_rp` at
`corb_wp`, and ends when its verb has been answered. -/
def Called.InStep (c : Called) : Prop :=
  (∃ i < 100000, c.rirbWp i ≠ c.rirbRp) → c.rirbRp = c.corbWp ∧ c.verb < c.answered

/-- `hda_init` sends the first verb when the rings are set up. -/
theorem hdaInit_hdaReady {polls : ℕ} {b : Board} {r : Response} {s₀ : Hda}
    (h : hdaInit polls b r Hda.boot = some (true, s₀)) :
    s₀ = (hdaSendCmd r (hdaReady b) unmuteCmd).2 := by
  rw [hdaInit, if_neg (by decide)] at h
  cases hbar : b.bar0 with
  | none =>
    rw [hbar] at h
    cases h
  | some bar =>
    rw [hbar] at h
    dsimp only at h
    by_cases hzero : bar = 0
    · rw [if_pos hzero] at h
      cases h
    · rw [if_neg hzero] at h
      obtain ⟨-, -, h⟩ := Option.bind_eq_some_iff.1 h
      obtain ⟨-, -, h⟩ := Option.bind_eq_some_iff.1 h
      split at h
      · cases h
      · cases h
        rfl

/-! ## The codec -/

variable {s s' : VerbSys} {b : Board} {c : VerbCall}

/-- What the codec has stored: the last 256 answers are in their entries. The answer to verb `j` is
the entry of number `j + 1`, since the first entry is left out. -/
structure CodecInv (s : VerbSys) : Prop where
  verb_eq : s.answers.map RirbEntry.verb = List.range s.answers.length
  holds : Holds 256 s.rirb (max 1 (s.answers.length - 255)) (⟨0, 0⟩ :: s.answers)

theorem CodecInv.answer (h : CodecInv s) (bits : ℕ) : CodecInv (s.answer bits) where
  verb_eq := by
    unfold VerbSys.answer
    rw [List.map_append, h.verb_eq, List.length_append, List.length_singleton, List.range_succ]
    rfl
  holds := by
    have hlen : (s.answer bits).answers.length = s.answers.length + 1 := by
      simp [VerbSys.answer]
    rw [hlen]
    have hfree := (h.holds.mono (b := max 1 (s.answers.length + 1 - 255)) (by omega)).store_free
      (x := ⟨s.answers.length, bits⟩) (b := s.answers.length + 1) (by simp) (by omega)
    exact hfree.publish (by rw [List.length_cons, Function.update_self])

/-- What several answers change. -/
theorem CodecInv.answerAll (h : CodecInv s) (bits : List ℕ) :
    CodecInv (s.answerAll bits) ∧ (s.answerAll bits).calls = s.calls ∧
      s.answers <+: (s.answerAll bits).answers ∧
      (s.answerAll bits).answers.length = s.answers.length + bits.length := by
  induction bits generalizing s with
  | nil => exact ⟨h, rfl, List.prefix_rfl, rfl⟩
  | cons a bits ih =>
    obtain ⟨h₁, h₂, h₃, h₄⟩ := ih (h.answer a)
    refine ⟨h₁, h₂, (List.prefix_append s.answers _).trans h₃, ?_⟩
    rw [VerbSys.answerAll, List.foldl_cons]
    rw [VerbSys.answerAll] at h₄
    rw [h₄, VerbSys.answer, List.length_append, List.length_singleton, List.length_cons]
    omega

theorem CodecInv.verb_getElem (h : CodecInv s) {j : ℕ} (hj : j < s.answers.length) :
    s.answers[j].verb = j := by
  have hget : (s.answers.map RirbEntry.verb)[j]? = some j := by
    rw [h.verb_eq, List.getElem?_range hj]
  rw [List.getElem?_map, List.getElem?_eq_getElem hj] at hget
  exact Option.some.inj hget

/-- The entry behind the first `k` ones holds the last answer of its place in the ring. -/
theorem CodecInv.rirb_eq (h : CodecInv s) {k : ℕ} (hk : k < s.answers.length) :
    s.rirb ((k + 1) % 256) ∈ s.answers ∧
      (s.rirb ((k + 1) % 256)).verb = k + 256 * ((s.answers.length - (k + 1)) / 256) := by
  have hj : k + 256 * ((s.answers.length - (k + 1)) / 256) < s.answers.length := by omega
  have hentry := h.holds (k + 256 * ((s.answers.length - (k + 1)) / 256) + 1)
    (by rw [List.length_cons]; omega) (by omega)
  have hslot : (k + 256 * ((s.answers.length - (k + 1)) / 256) + 1) % 256 = (k + 1) % 256 := by
    omega
  rw [List.getElem_cons_succ, hslot] at hentry
  rw [hentry]
  exact ⟨List.getElem_mem hj, h.verb_getElem hj⟩

/-! ## The driver -/

/-- A loop that ends has read what it waits for. -/
theorem await_eq_some {cond : ℕ → Bool} {reads : ℕ → ℕ} {n i : ℕ}
    (h : await cond reads n = some i) : i < n ∧ cond (reads i) = true := by
  have aux : ∀ n j, iterate (awaitBody cond reads) n j = some i →
      i < j + n ∧ cond (reads i) = true := by
    intro n
    induction n with
    | zero => exact fun _ hj => nomatch hj
    | succ n ih =>
      intro j hj
      cases hcond : cond (reads j) with
      | true =>
        have hstop : awaitBody cond reads j = .stop j := if_pos hcond
        rw [iterate_stop hstop] at hj
        obtain rfl := Option.some.inj hj
        exact ⟨by omega, hcond⟩
      | false =>
        have hnext : awaitBody cond reads j = .next (j + 1) :=
          if_neg (by rw [hcond]; exact Bool.false_ne_true)
        rw [iterate_next hnext] at hj
        obtain ⟨hlt, hread⟩ := ih (j + 1) hj
        exact ⟨by omega, hread⟩
  simpa using aux n 0 h

/-- A loop that gives up has read nothing that it waits for. -/
theorem await_eq_none {cond : ℕ → Bool} {reads : ℕ → ℕ} {n : ℕ} (h : await cond reads n = none) :
    ∀ i < n, cond (reads i) = false := by
  have aux : ∀ n j, iterate (awaitBody cond reads) n j = none →
      ∀ i < n, cond (reads (j + i)) = false := by
    intro n
    induction n with
    | zero => exact fun _ _ i hi => absurd hi (Nat.not_lt_zero i)
    | succ n ih =>
      intro j hj i hi
      cases hcond : cond (reads j) with
      | true =>
        have hstop : awaitBody cond reads j = .stop j := if_pos hcond
        rw [iterate_stop hstop] at hj
        cases hj
      | false =>
        have hnext : awaitBody cond reads j = .next (j + 1) :=
          if_neg (by rw [hcond]; exact Bool.false_ne_true)
        rw [iterate_next hnext] at hj
        cases i with
        | zero => exact hcond
        | succ i =>
          rw [← Nat.add_assoc, Nat.add_right_comm]
          exact ih (j + 1) hj i (by omega)
  intro i hi
  simpa using aux n 0 h i hi

/-- What a call does to the variables: it stores its verb, and takes the next entry unless no read
of `RIRBWP` differs from `rirb_rp`. -/
theorem hdaSendCmd_cases {r : Response} {a : Hda} (hup : a.up = true) (cmd : ℕ) :
    (hdaSendCmd r a cmd).2.up = true ∧ (hdaSendCmd r a cmd).2.corbWp = (a.corbWp + 1) % 256 ∧
    ((await (fun v => v ≠ a.rirbRp) r.rirbWp 100000 = none ∧
        (∀ i < 100000, r.rirbWp i = a.rirbRp) ∧ (hdaSendCmd r a cmd).2.rirbRp = a.rirbRp) ∨
      ∃ i < 100000, await (fun v => v ≠ a.rirbRp) r.rirbWp 100000 = some i ∧
        r.rirbWp i ≠ a.rirbRp ∧
        (hdaSendCmd r a cmd).2.rirbRp = (a.rirbRp + 1) % 256 ∧
        (hdaSendCmd r a cmd).1 = r.rirb ((a.rirbRp + 1) % 256) &&& 0xFFFFFFFF) := by
  have hmask : ∀ x, x &&& 0xFF = x % 256 := fun x => Word.and_low_mask x 8
  rw [hdaSendCmd, if_pos hup, ← hmask, ← hmask]
  dsimp only [Hda.write]
  cases hawait : await (fun v => v ≠ a.rirbRp) r.rirbWp 100000 with
  | none =>
    have hempty : ∀ i < 100000, r.rirbWp i = a.rirbRp := fun i hi =>
      not_not.1 (of_decide_eq_false (await_eq_none hawait i hi))
    exact ⟨hup, rfl, .inl ⟨rfl, hempty, rfl⟩⟩
  | some i =>
    obtain ⟨hi, hread⟩ := await_eq_some hawait
    exact ⟨hup, rfl, .inr ⟨i, hi, rfl, of_decide_eq_true hread, rfl, rfl⟩⟩

/-- **The invariant of driver and codec.** The entries taken are fewer than the answers, and are
the answers to verbs below that of the next entry. -/
structure VerbInv (s : VerbSys) : Prop extends CodecInv s where
  up : s.hda.up = true
  corbWp_eq : s.hda.corbWp = s.calls.length % 256
  rirbRp_eq : s.hda.rirbRp = s.got.length % 256
  got_le : s.got.length ≤ s.answers.length
  answers_le : s.answers.length ≤ s.calls.length
  below : ∀ e ∈ s.got, e.verb < s.got.length + 256 * ((s.answers.length - s.got.length) / 256)
  ordered : s.got.Pairwise fun e e' => e.verb < e'.verb
  own_iff : ∀ c ∈ s.calls, c.Own ↔ c.InStep
  returned : ∀ c ∈ s.calls, ∀ e, c.got = some e → e ∈ s.answers ∧ c.value = e.bits &&& 0xFFFFFFFF

/-- A call that times out. -/
structure TimesOut (s : VerbSys) (c : VerbCall) : Prop where
  empty : ∀ i < 100000, (s.answers.length + c.polls i) % 256 = s.hda.rirbRp
  up : (s.call c).hda.up = true
  corbWp_eq : (s.call c).hda.corbWp = (s.hda.corbWp + 1) % 256
  rirbRp_eq : (s.call c).hda.rirbRp = s.hda.rirbRp
  calls_eq : ∃ v, (s.call c).calls = s.calls ++
    [⟨s.calls.length, s.hda.corbWp, s.hda.rirbRp, (s.response c).rirbWp,
      (s.call c).answers.length, v, none⟩]

/-- A call that takes the entry `e`. -/
structure Takes (s : VerbSys) (c : VerbCall) (e : RirbEntry) : Prop where
  up : (s.call c).hda.up = true
  corbWp_eq : (s.call c).hda.corbWp = (s.hda.corbWp + 1) % 256
  rirbRp_eq : (s.call c).hda.rirbRp = (s.hda.rirbRp + 1) % 256
  calls_eq : (s.call c).calls = s.calls ++ [⟨s.calls.length, s.hda.corbWp, s.hda.rirbRp,
    (s.response c).rirbWp, (s.call c).answers.length, e.bits &&& 0xFFFFFFFF, some e⟩]
  entry_eq : e = (s.call c).rirb ((s.hda.rirbRp + 1) % 256)
  found : ∃ i < 100000, (s.answers.length + c.polls i) % 256 ≠ s.hda.rirbRp

/-- **A call** times out or takes an entry. -/
theorem VerbInv.call_cases (h : VerbInv s) (c : VerbCall) :
    TimesOut s c ∨ ∃ e, Takes s c e := by
  have hcalls : (s.answerAll c.answers).calls = s.calls := (h.answerAll c.answers).2.1
  obtain ⟨hup, hwp, ⟨hnone, hempty, hrp⟩ | ⟨i, hlt, hsome, hne, hrp, hval⟩⟩ :=
    hdaSendCmd_cases (r := s.response c) h.up c.cmd
  · refine .inl ⟨hempty, hup, hwp, hrp, (hdaSendCmd (s.response c) s.hda c.cmd).1, ?_⟩
    unfold VerbSys.call
    rw [hnone]
    rfl
  · refine .inr ⟨_, hup, hwp, hrp, ?_, rfl, i, hlt, hne⟩
    unfold VerbSys.call
    dsimp only
    rw [hsome, hval, hrp]
    rfl

/-- What the codec has done at the end of a call. -/
theorem VerbInv.call_answers (h : VerbInv s) (c : VerbCall) :
    CodecInv (s.call c) ∧ s.answers <+: (s.call c).answers ∧
      (s.call c).answers.length = s.answers.length + c.answers.length :=
  let ⟨h₁, _, h₂, h₃⟩ := h.answerAll c.answers
  ⟨⟨h₁.verb_eq, h₁.holds⟩, h₂, h₃⟩

theorem VerbInv.of_timesOut (h : VerbInv s) (ht : TimesOut s c)
    (hle : s.answers.length + c.answers.length ≤ s.calls.length + 1) : VerbInv (s.call c) := by
  obtain ⟨v, hcalls⟩ := ht.calls_eq
  obtain ⟨hcodec, hpre, hlen⟩ := h.call_answers c
  have hgot : (s.call c).got = s.got := by
    unfold VerbSys.got
    rw [hcalls, List.filterMap_append]
    simp
  have hcount : (s.call c).calls.length = s.calls.length + 1 := by simp [hcalls]
  exact {
    toCodecInv := hcodec
    up := ht.up
    corbWp_eq := by
      rw [ht.corbWp_eq, h.corbWp_eq, hcount]
      omega
    rirbRp_eq := by rw [ht.rirbRp_eq, h.rirbRp_eq, hgot]
    got_le := by
      have := h.got_le
      rw [hgot]
      omega
    answers_le := by omega
    below := by
      intro e he
      rw [hgot] at he ⊢
      have := h.below e he
      omega
    ordered := hgot ▸ h.ordered
    own_iff := by
      rw [hcalls, List.forall_mem_append]
      refine ⟨h.own_iff, List.forall_mem_singleton.2 ?_⟩
      exact iff_of_true nofun fun ⟨i, hi, hne⟩ => absurd (ht.empty i hi) hne
    returned := by
      rw [hcalls, List.forall_mem_append]
      refine ⟨fun c' hc' e he => ?_, List.forall_mem_singleton.2 nofun⟩
      obtain ⟨hmem, hval⟩ := h.returned c' hc' e he
      exact ⟨hpre.subset hmem, hval⟩ }

/-- **The entry that a call takes** is that of the first verb whose response has not been taken, or
the one that has overwritten it, whole rings later. -/
theorem VerbInv.takes_verb (h : VerbInv s) {e : RirbEntry} (ht : Takes s c e) :
    s.got.length < (s.call c).answers.length ∧ e ∈ (s.call c).answers ∧
      e.verb = s.got.length + 256 * (((s.call c).answers.length - (s.got.length + 1)) / 256) ∧
      (s.answers.length - s.got.length) / 256 ≤
        ((s.call c).answers.length - (s.got.length + 1)) / 256 := by
  obtain ⟨hcodec, -, hlen⟩ := h.call_answers c
  obtain ⟨i, -, hne⟩ := ht.found
  have hpolls := c.polls_le i
  have hle := h.got_le
  rw [h.rirbRp_eq] at hne
  have hlt : s.got.length < s.answers.length + c.polls i := by
    refine Nat.lt_of_le_of_ne (by omega) fun heq => ?_
    rw [heq] at hne
    exact hne rfl
  have hslot : (s.hda.rirbRp + 1) % 256 = (s.got.length + 1) % 256 := by
    rw [h.rirbRp_eq, Nat.mod_add_mod]
  obtain ⟨hmem, hverb⟩ := hcodec.rirb_eq (k := s.got.length) (by omega)
  rw [← hslot, ← ht.entry_eq] at hmem hverb
  exact ⟨by omega, hmem, hverb, by omega⟩

/-- It is that of the verb of the call, the last one sent, exactly if the call is in step. -/
theorem VerbInv.takes_own_iff (h : VerbInv s) {e : RirbEntry} (ht : Takes s c e)
    (hle : s.answers.length + c.answers.length ≤ s.calls.length + 1) :
    e.verb = s.calls.length ↔
      s.hda.rirbRp = s.hda.corbWp ∧ s.calls.length < (s.call c).answers.length := by
  obtain ⟨-, -, hlen⟩ := h.call_answers c
  obtain ⟨hlt, -, hverb, -⟩ := h.takes_verb ht
  rw [hverb, h.rirbRp_eq, h.corbWp_eq]
  constructor
  · intro heq
    constructor <;> omega
  · rintro ⟨heq, hdone⟩
    omega

theorem VerbInv.of_takes (h : VerbInv s) {e : RirbEntry} (ht : Takes s c e)
    (hle : s.answers.length + c.answers.length ≤ s.calls.length + 1) : VerbInv (s.call c) := by
  have hcalls := ht.calls_eq
  obtain ⟨hcodec, hpre, hlen⟩ := h.call_answers c
  obtain ⟨hlt, hmem, hverb, hlap⟩ := h.takes_verb ht
  have hgot : (s.call c).got = s.got ++ [e] := by
    unfold VerbSys.got
    rw [hcalls, List.filterMap_append]
    simp
  have hcount : (s.call c).calls.length = s.calls.length + 1 := by simp [hcalls]
  have hgotlen : (s.call c).got.length = s.got.length + 1 := by simp [hgot]
  exact {
    toCodecInv := hcodec
    up := ht.up
    corbWp_eq := by
      rw [ht.corbWp_eq, h.corbWp_eq, hcount]
      omega
    rirbRp_eq := by
      rw [ht.rirbRp_eq, h.rirbRp_eq, hgotlen]
      omega
    got_le := by omega
    answers_le := by omega
    below := by
      intro e' he'
      rw [hgotlen]
      rw [hgot] at he'
      rcases List.mem_append.1 he' with he' | he'
      · have := h.below e' he'
        omega
      · obtain rfl := List.mem_singleton.1 he'
        omega
    ordered := by
      rw [hgot, List.pairwise_append]
      refine ⟨h.ordered, List.pairwise_singleton _ e, fun e' he' e'' he'' => ?_⟩
      obtain rfl := List.mem_singleton.1 he''
      have := h.below e' he'
      omega
    own_iff := by
      have hown := h.takes_own_iff ht hle
      rw [hcalls, List.forall_mem_append]
      refine ⟨h.own_iff, List.forall_mem_singleton.2 ⟨fun hc _ => hown.1 (hc e rfl), ?_⟩⟩
      intro hc e' he'
      obtain rfl := Option.some.inj he'
      exact hown.2 (hc ht.found)
    returned := by
      rw [hcalls, List.forall_mem_append]
      refine ⟨fun c' hc' e' he' => ?_, List.forall_mem_singleton.2 fun e' he' => ?_⟩
      · obtain ⟨hmem', hval⟩ := h.returned c' hc' e' he'
        exact ⟨hpre.subset hmem', hval⟩
      · obtain rfl := Option.some.inj he'
        exact ⟨hmem, rfl⟩ }

theorem VerbInv.init : VerbInv (verbMachine b).init where
  verb_eq := rfl
  holds k hk hak := by
    have hzero : k < 1 := hk
    have hone : 1 ≤ k := Nat.le_trans (Nat.le_max_left 1 _) hak
    omega
  up := rfl
  corbWp_eq := rfl
  rirbRp_eq := rfl
  got_le := Nat.le_refl 0
  answers_le := Nat.le_refl 0
  below := nofun
  ordered := .nil
  own_iff := nofun
  returned := nofun

/-- **A step** keeps the invariant. -/
theorem VerbInv.step (h : VerbInv s) (hs : (verbMachine b).step c s = some s') : VerbInv s' := by
  obtain ⟨hle, hs⟩ := Option.ite_none_right_eq_some.1 hs
  obtain rfl := Option.some.inj hs
  rcases h.call_cases c with ht | ⟨e, ht⟩
  · exact h.of_timesOut ht hle
  · exact h.of_takes ht hle

/-! ## Main result -/

/-- **Verbs and their responses**, in every run: each call that does not time out returns a
response, and no two of them the same; they return the responses to their own verbs exactly when
each begins with `rirb_rp` at `corb_wp` and ends with its verb answered. -/
theorem verbs_matched_iff (h : (verbMachine b).Reachable s) :
    ((∀ c ∈ s.calls, c.Own) ↔ ∀ c ∈ s.calls, c.InStep) ∧
    (s.got.Pairwise fun e e' => e.verb < e'.verb) ∧
    ∀ c ∈ s.calls, ∀ e, c.got = some e → e ∈ s.answers ∧ c.value = e.bits &&& 0xFFFFFFFF := by
  have hi : VerbInv s := h.invariant VerbInv.init fun hi _ hs => hi.step hs
  refine ⟨?_, hi.ordered, hi.returned⟩
  constructor
  · intro hown c hc
    exact (hi.own_iff c hc).1 (hown c hc)
  · intro hstep c hc
    exact (hi.own_iff c hc).2 (hstep c hc)

/-- A call that begins when every response has been taken is in step. -/
theorem VerbInv.inStep (h : VerbInv s) (hall : s.got.length = s.calls.length)
    (hs : ∀ c ∈ s.calls, c.InStep) : ∀ c' ∈ (s.call c).calls, c'.InStep := by
  rcases h.call_cases c with ht | ⟨e, ht⟩
  · obtain ⟨v, hcalls⟩ := ht.calls_eq
    rw [hcalls, List.forall_mem_append]
    refine ⟨hs, List.forall_mem_singleton.2 ?_⟩
    rintro ⟨i, hi, hne⟩
    exact absurd (ht.empty i hi) hne
  · obtain ⟨hlt, -⟩ := h.takes_verb ht
    rw [ht.calls_eq, List.forall_mem_append]
    refine ⟨hs, List.forall_mem_singleton.2 fun _ => ⟨?_, hall ▸ hlt⟩⟩
    show s.hda.rirbRp = s.hda.corbWp
    rw [h.rirbRp_eq, h.corbWp_eq, hall]

/-- As long as no call but the last has timed out, every response is that to the verb of its
call. -/
theorem own_of_no_timeout
    (h : (verbMachine b).ReachableBy (fun _ s => s.got.length = s.calls.length) s) :
    ∀ c ∈ s.calls, c.Own := by
  have hi : VerbInv s ∧ ∀ c ∈ s.calls, c.InStep := by
    refine h.invariant (I := fun s => VerbInv s ∧ ∀ c ∈ s.calls, c.InStep) ⟨.init, nofun⟩ ?_
    rintro s s' c ⟨hi, hin⟩ hall hs
    refine ⟨hi.step hs, ?_⟩
    obtain ⟨-, hs⟩ := Option.ite_none_right_eq_some.1 hs
    obtain rfl := Option.some.inj hs
    exact hi.inStep hall hin
  intro c hc
  exact (hi.1.own_iff c hc).2 (hi.2 c hc)

/-- A verb that the codec does not answer before the call has given up. -/
def unanswered : VerbCall :=
  ⟨0xF0000, [], fun _ => 0, fun _ _ _ => Nat.le_refl 0, fun _ => Nat.le_refl 0⟩

/-- A verb before whose call has read `RIRBWP` the codec gives one answer. -/
def oneAnswer (bits : ℕ) : VerbCall :=
  ⟨0xF0002, [bits], fun _ => 1, fun _ _ _ => Nat.le_refl 1, fun _ => Nat.le_refl 1⟩

/-- The first read of `RIRBWP` finds an answer. -/
theorem VerbInv.takes_of_first (h : VerbInv s)
    (hne : (s.answers.length + c.polls 0) % 256 ≠ s.hda.rirbRp) : ∃ e, Takes s c e := by
  rcases h.call_cases c with ht | ht
  · exact absurd (ht.empty 0 (by decide)) hne
  · exact ht

/-- A verb that is answered while its call waits. -/
theorem verbs_matched_iff_oneAnswer :
    ∃ s, (verbMachine readyBoard).run [oneAnswer 7] (verbMachine readyBoard).init = some s ∧
      s.got.length = 1 ∧ ∀ c ∈ s.calls, c.Own := by
  have hi : VerbInv (verbMachine readyBoard).init := .init
  obtain ⟨e, ht⟩ := hi.takes_of_first (c := oneAnswer 7) (by decide)
  have hrun : (verbMachine readyBoard).run [oneAnswer 7] (verbMachine readyBoard).init =
      some ((verbMachine readyBoard).init.call (oneAnswer 7)) := rfl
  refine ⟨_, hrun, ?_, ?_⟩
  · unfold VerbSys.got
    rw [ht.calls_eq]
    rfl
  · refine (verbs_matched_iff (Machine.reachable_of_run hrun)).1.2 ?_
    exact hi.inStep rfl fun _ hc => absurd hc List.not_mem_nil

/-- **A late response is taken for another**: the first verb is answered after its call has timed
out, and the call of the second returns that answer. -/
theorem late_response :
    ∃ s, (verbMachine readyBoard).run [unanswered, oneAnswer 7] (verbMachine readyBoard).init =
        some s ∧
      ∃ c ∈ s.calls, c.verb = 1 ∧ c.value = 7 ∧ c.got = some ⟨0, 7⟩ ∧ ¬ c.Own := by
  have hi : VerbInv (verbMachine readyBoard).init := .init
  rcases hi.call_cases unanswered with ht | ⟨e, ht⟩
  swap
  · obtain ⟨i, -, hne⟩ := ht.found
    exact absurd rfl hne
  have hi' := hi.of_timesOut ht (by decide)
  have hrp : ((verbMachine readyBoard).init.call unanswered).hda.rirbRp = 0 := ht.rirbRp_eq
  obtain ⟨e, ht'⟩ := hi'.takes_of_first (c := oneAnswer 7) (by rw [hrp]; decide)
  obtain rfl : e = ⟨0, 7⟩ := by
    rw [ht'.entry_eq, hrp]
    rfl
  have hrun : (verbMachine readyBoard).run [unanswered, oneAnswer 7]
      (verbMachine readyBoard).init =
      some (((verbMachine readyBoard).init.call unanswered).call (oneAnswer 7)) := rfl
  obtain ⟨c, hc, hverb, hval, hgot⟩ :
      ∃ c ∈ (((verbMachine readyBoard).init.call unanswered).call (oneAnswer 7)).calls,
        c.verb = 1 ∧ c.value = 7 ∧ c.got = some ⟨0, 7⟩ := by
    rw [ht'.calls_eq]
    exact ⟨_, List.mem_append_right _ (List.mem_singleton_self _), rfl, rfl, rfl⟩
  refine ⟨_, hrun, c, hc, hverb, hval, hgot, fun hown => ?_⟩
  have heq := hown _ hgot
  rw [hverb] at heq
  cases heq

end RvvmHal.Audio
