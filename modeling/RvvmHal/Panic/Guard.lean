import RvvmHal.Foundations.Machine
import RvvmHal.Panic.Dump
import RvvmHal.Smp.Atomic

/-!
# Panics on several harts

`panic.c`: a hart may enter `hal_panic` or `hal_panic_from_trap` at any time, also from inside of
another panic of its own, which it never goes back to. The instructions on the guard
`panic_in_progress` and the bytes written to the UART by all harts are interleaved in any order.

At most one hart prints a dump. But `hal_panic` prints its message before it comes to the guard, so
that the message may end up inside of the dump of another hart. It does not if no message and dump
of two harts are printed at the same time (`dump_alone`).
-/

namespace RvvmHal.Panic

open Uart Smp

/-! ## The harts -/

/-- Where a hart is in a panic.

* `message`: in `hal_panic_v`, with so much of the message to print;
* `cas`: in the compare and swap of the guard;
* `blank`: past the guard, with so much of the blank line to print, and the lines of the dump;
* `dump`: in the lines of the dump, with so much of them to print;
* `halted`: in a `wfi` loop. -/
inductive PanicPc
  | out
  | message (rest : List UInt8) (frame : Frame)
  | cas (frame : Frame) (pc : CasPc)
  | blank (rest : List UInt8) (lines : List UInt8)
  | dump (rest : List UInt8)
  | halted

namespace PanicPc

/-- After a byte of the message. -/
def nextMessage (frame : Frame) : List UInt8 → PanicPc
  | [] => .cas frame (.lr 32)
  | b :: rest => .message (b :: rest) frame

/-- After a byte of the dump. -/
def nextDump : List UInt8 → PanicPc
  | [] => .halted
  | b :: rest => .dump (b :: rest)

/-- After an instruction of the compare and swap. -/
def nextCas (h : ℕ) (frame : Frame) (seen : Seen) : CasPc ⊕ Bool → PanicPc
  | .inl pc => .cas frame pc
  | .inr true => .blank blankLine (dumpLines frame seen h)
  | .inr false => .halted

/-- A message is being printed. -/
def messaging : PanicPc → Bool
  | .message _ _ => true
  | _ => false

/-- The lines of a dump are being printed. -/
def dumping : PanicPc → Bool
  | .dump _ => true
  | _ => false

/-- The next byte is the first one of a dump. -/
def begins : PanicPc → Bool
  | .blank [] _ => true
  | _ => false

/-- The hart has taken the guard. -/
def owns : PanicPc → Bool
  | .blank _ _ | .dump _ => true
  | _ => false

end PanicPc

/-- A byte on the UART: who has written it, and whether it is one of the lines of a dump. -/
structure Out where
  hart : ℕ
  byte : UInt8
  dump : Bool

/-- The guard, the harts, and what the panics have written. -/
structure Panics where
  guard : Reserved
  harts : ℕ → PanicPc
  uart : List Out

/-- The steps: a hart enters `hal_panic` or `hal_panic_from_trap`, executes an instruction of the
compare and swap, or writes its next byte. -/
inductive PanicStep
  | panic (h : ℕ) (fmt : Option (List UInt8)) (args : List Arg) (ra fp : BitVec 64)
  | trap (h : ℕ) (mcause mepc : BitVec 64) (regs : Fin 32 → BitVec 64)
  | cas (h : ℕ) (stores : Bool) (seen : Seen)
  | write (h : ℕ)

/-- The hart goes on. -/
def Panics.goto (s : Panics) (h : ℕ) (pc : PanicPc) : Panics :=
  { s with harts := Function.update s.harts h pc }

/-- The hart writes a byte. -/
def Panics.put (s : Panics) (h : ℕ) (b : UInt8) (dump : Bool) (pc : PanicPc) : Panics :=
  { s.goto h pc with uart := s.uart ++ [⟨h, b, dump⟩] }

/-- One step of `n` harts. -/
def panicStep (n : ℕ) : PanicStep → Panics → Option Panics
  | .panic h fmt args ra fp, s =>
    if h < n then some (s.goto h (.message (messageText fmt args) (softwareFrame ra fp))) else none
  | .trap h mcause mepc regs, s =>
    if h < n then some (s.goto h (.cas ⟨mcause, mepc, regs, 0⟩ (.lr 32))) else none
  | .cas h stores seen, s =>
    match s.harts h with
    | .cas frame pc =>
      let r := atomicCas 0 1 h stores s.guard pc
      some { s.goto h (.nextCas h frame seen r.2) with guard := r.1 }
    | _ => none
  | .write h, s =>
    match s.harts h with
    | .message (b :: rest) frame => some (s.put h b false (.nextMessage frame rest))
    | .blank (b :: rest) lines => some (s.put h b false (.blank rest lines))
    | .blank [] (b :: rest) => some (s.put h b true (.nextDump rest))
    | .dump (b :: rest) => some (s.put h b true (.nextDump rest))
    | _ => none

/-- All runs. -/
def panics (n : ℕ) : Machine Panics PanicStep where
  init := ⟨⟨0, fun _ => false⟩, fun _ => .out, []⟩
  step := panicStep n

/-! ## Dumps on the UART -/

/-- What is written between two bytes of a dump is written by the hart that prints the dump. -/
def Contiguous (uart : List Out) : Prop :=
  ∀ (i j k : ℕ) (e x e' : Out), i < j → j < k → uart[i]? = some e → uart[j]? = some x →
    uart[k]? = some e' → e.dump = true → e'.dump = true → x.hart = e.hart

/-- **A dump is never interleaved**: one hart prints dumps, and no other hart writes between the
bytes of its dump. -/
structure DumpAlone (uart : List Out) : Prop where
  one_hart : ∀ e ∈ uart, ∀ e' ∈ uart, e.dump = true → e'.dump = true → e.hart = e'.hart
  between : Contiguous uart

/-- The step does not print a message and a dump of two harts at the same time: no hart enters
`hal_panic` while another one prints a dump, and no hart begins to print one while another one
prints its message. -/
def Apart (n : ℕ) : PanicStep → Panics → Prop
  | .panic h _ _ _ _, s => ∀ g < n, g ≠ h → (s.harts g).dumping = false
  | .write h, s => (s.harts h).begins = true → ∀ g < n, g ≠ h → (s.harts g).messaging = false
  | _, _ => True

instance (n : ℕ) : ∀ a s, Decidable (Apart n a s)
  | .panic _ _ _ _ _, _ => inferInstanceAs (Decidable (∀ _ < _, _ → _))
  | .trap _ _ _ _, _ => inferInstanceAs (Decidable True)
  | .cas _ _ _, _ => inferInstanceAs (Decidable True)
  | .write _, _ => inferInstanceAs (Decidable (_ → _))

/-! ## The guard -/

/-- What the hart `h` relies on, in every run. -/
def HartOk (n : ℕ) (c : Reserved) (uart : List Out) (h : ℕ) : PanicPc → Prop
  | .out | .halted => True
  | .message rest _ => h < n ∧ rest ≠ []
  | .cas _ pc => h < n ∧ ∀ r, pc = .sc r → c.Linked h 0
  | .blank _ lines => h < n ∧ c.value ≠ 0 ∧ (∀ e ∈ uart, e.dump = false) ∧
      ∃ b b' rest, lines = b :: b' :: rest
  | .dump rest => h < n ∧ c.value ≠ 0 ∧ rest ≠ [] ∧ ∃ e ∈ uart, e.dump = true ∧ e.hart = h

/-- The invariant of all runs: one hart has the guard, and prints all dumps. -/
structure GuardInv (n : ℕ) (s : Panics) : Prop where
  harts : ∀ h, HartOk n s.guard s.uart h (s.harts h)
  owner : ∃ o, (∀ h, (s.harts h).owns = true → h = o) ∧
    ∀ e ∈ s.uart, e.dump = true → e.hart = o ∧ s.guard.value ≠ 0

section

variable {n h : ℕ} {c c' : Reserved} {uart : List Out} {pc : PanicPc} {s s' : Panics}

/-- **Frame rule**: what a hart relies on does not depend on the steps of the others, when these
leave its reservation alone and the guard taken, and write no byte of a dump while it has the
guard. -/
theorem HartOk.frame {es : List Out} (hx : HartOk n c uart h pc)
    (hlink : c.Linked h 0 → c'.Linked h 0)
    (hvalue : c.value ≠ 0 → c'.value ≠ 0) (hes : pc.owns = true → ∀ e ∈ es, e.dump = false) :
    HartOk n c' (uart ++ es) h pc := by
  cases pc with
  | out => trivial
  | halted => trivial
  | message rest frame => exact hx
  | cas frame pc => exact ⟨hx.1, fun r hr => hlink (hx.2 r hr)⟩
  | blank rest lines =>
    obtain ⟨hlt, hv, hnone, hlines⟩ := hx
    refine ⟨hlt, hvalue hv, fun e he => ?_, hlines⟩
    rcases List.mem_append.1 he with he | he
    · exact hnone e he
    · exact hes rfl e he
  | dump rest =>
    obtain ⟨hlt, hv, hne, e, he, hdump⟩ := hx
    exact ⟨hlt, hvalue hv, hne, e, List.mem_append_left _ he, hdump⟩

/-- While the guard is free no hart has it, and nothing of a dump has been printed. -/
theorem GuardInv.free (hI : GuardInv n s) (hv : s.guard.value = 0) :
    (∀ g, (s.harts g).owns = false) ∧ ∀ e ∈ s.uart, e.dump = false := by
  constructor
  · intro g
    have hx := hI.harts g
    cases hpc : s.harts g with
    | blank rest lines =>
      rw [hpc] at hx
      exact absurd hv hx.2.1
    | dump rest =>
      rw [hpc] at hx
      exact absurd hv hx.2.1
    | _ => rfl
  · obtain ⟨o, -, hdumps⟩ := hI.owner
    intro e he
    by_contra hd
    exact (hdumps e he (by simpa using hd)).2 hv

/-- A step of a hart that writes nothing of a dump, and has not taken the guard by it. -/
theorem GuardInv.quiet (hI : GuardInv n s) {es : List Out} (hes : ∀ e ∈ es, e.dump = false)
    (hlink : ∀ g, g ≠ h → s.guard.Linked g 0 → c.Linked g 0) (hvalue : c.value = s.guard.value)
    (hx : HartOk n c (s.uart ++ es) h pc) (howns : pc.owns = true → (s.harts h).owns = true) :
    GuardInv n ⟨c, Function.update s.harts h pc, s.uart ++ es⟩ := by
  obtain ⟨o, howner, hdumps⟩ := hI.owner
  refine ⟨fun g => ?_, o, fun g hg => ?_, fun e he hdump => ?_⟩
  · dsimp only
    by_cases hne : g = h
    · subst hne
      rw [Function.update_self]
      exact hx
    · rw [Function.update_of_ne hne]
      exact (hI.harts g).frame (hlink g hne) (hvalue ▸ id) fun _ => hes
  · dsimp only at hg
    by_cases hne : g = h
    · subst hne
      rw [Function.update_self] at hg
      exact howner g (howns hg)
    · rw [Function.update_of_ne hne] at hg
      exact howner g hg
  · rcases List.mem_append.1 he with he | he
    · dsimp only
      rw [hvalue]
      exact hdumps e he hdump
    · rw [hes e he] at hdump
      cases hdump

/-- The guard is taken. -/
theorem GuardInv.take (hI : GuardInv n s) (hlt : h < n) (hfree : s.guard.value = 0)
    (hv : c.value ≠ 0) (hlink : ∀ g, g ≠ h → s.guard.Linked g 0 → c.Linked g 0)
    {rest lines : List UInt8}
    (hlines : ∃ b b' rest, lines = b :: b' :: rest) :
    GuardInv n ⟨c, Function.update s.harts h (.blank rest lines), s.uart⟩ := by
  obtain ⟨hnone, hdumps⟩ := hI.free hfree
  refine ⟨fun g => ?_, h, fun g hg => ?_, fun e he hdump => ?_⟩
  · dsimp only
    by_cases hne : g = h
    · subst hne
      rw [Function.update_self]
      exact ⟨hlt, hv, hdumps, hlines⟩
    · rw [Function.update_of_ne hne, ← List.append_nil s.uart]
      exact (hI.harts g).frame (hlink g hne) (absurd hfree) fun _ e he => (by cases he)
  · by_contra hne
    dsimp only at hg
    rw [Function.update_of_ne hne, hnone g] at hg
    cases hg
  · rw [hdumps e he] at hdump
    cases hdump

/-- The hart that has the guard writes a byte of its dump. -/
theorem GuardInv.dump (hI : GuardInv n s) (hlt : h < n) (hv : s.guard.value ≠ 0)
    (howns : (s.harts h).owns = true) {b : UInt8} {rest : List UInt8} :
    GuardInv n (s.put h b true (.nextDump rest)) := by
  obtain ⟨o, howner, hdumps⟩ := hI.owner
  obtain rfl := howner h howns
  refine ⟨fun g => ?_, h, fun g hg => ?_, fun e he hdump => ?_⟩
  · dsimp only [Panics.put, Panics.goto]
    by_cases hne : g = h
    · subst hne
      rw [Function.update_self]
      cases rest with
      | nil => trivial
      | cons b' rest =>
        exact ⟨hlt, hv, List.cons_ne_nil _ _, _,
          List.mem_append_right _ (List.mem_singleton_self _),
          rfl, rfl⟩
    · rw [Function.update_of_ne hne]
      exact (hI.harts g).frame id id fun hg => absurd (howner g hg) hne
  · by_contra hne
    dsimp only [Panics.put, Panics.goto] at hg
    rw [Function.update_of_ne hne] at hg
    exact hne (howner g hg)
  · rcases List.mem_append.1 he with he | he
    · exact hdumps e he hdump
    · obtain rfl := List.mem_singleton.1 he
      exact ⟨rfl, hv⟩

/-- A step that writes nothing, and does not take the guard. -/
theorem GuardInv.goto (hI : GuardInv n s) (hlink : ∀ g, g ≠ h → s.guard.Linked g 0 → c.Linked g 0)
    (hvalue : c.value = s.guard.value) (hx : HartOk n c s.uart h pc) (howns : pc.owns = false) :
    GuardInv n { s.goto h pc with guard := c } := by
  have hnone : ∀ e ∈ ([] : List Out), e.dump = false := fun e he => by cases he
  have hquiet := hI.quiet hnone hlink hvalue
    (by rwa [List.append_nil]) (fun ho => by rw [howns] at ho; cases ho)
  rwa [List.append_nil] at hquiet

theorem guardInv_init : GuardInv n (panics n).init :=
  ⟨fun _ => trivial, 0, fun _ h => (by cases h), fun _ h => (by cases h)⟩

/-- An instruction of the compare and swap. -/
theorem GuardInv.cas (hI : GuardInv n s) {frame : Frame} {pc : CasPc} {stores : Bool} {seen : Seen}
    (hpc : s.harts h = .cas frame pc) {r : Reserved × (CasPc ⊕ Bool)}
    (hr : r = atomicCas 0 1 h stores s.guard pc) :
    GuardInv n { s.goto h (.nextCas h frame seen r.2) with guard := r.1 } := by
  have hx := hI.harts h
  rw [hpc] at hx
  obtain ⟨hlt, hlinked⟩ := hx
  have hlink : ∀ g, g ≠ h → s.guard.Linked g 0 → r.1.Linked g 0 := by
    rw [hr]
    exact fun g hne => linked_atomicCas hne
  rcases hr ▸ atomicCas_cases hlinked with ⟨hfree, hv, hres⟩ | ⟨hv, hres⟩
  · -- the guard is taken
    rw [hres]
    exact hI.take hlt hfree (by rw [hv]; exact Nat.one_ne_zero) hlink (by
      obtain ⟨rest, hrest⟩ := dumpLines_eq_cons frame seen h
      exact ⟨_, _, rest, hrest⟩)
  · rcases hres with hres | ⟨i, hres⟩ | ⟨i, hres, hl⟩
    · rw [hres]
      exact hI.goto hlink hv trivial rfl
    · rw [hres]
      exact hI.goto hlink hv ⟨hlt, fun _ hi => (by cases hi)⟩ rfl
    · rw [hres]
      exact hI.goto hlink hv ⟨hlt, fun _ _ => hl⟩ rfl

/-- A byte. -/
theorem GuardInv.write (hI : GuardInv n s) (hs : panicStep n (.write h) s = some s') :
    GuardInv n s' := by
  have hx := hI.harts h
  simp only [panicStep] at hs
  split at hs
  · rename_i b rest frame hpc
    obtain rfl := Option.some.inj hs
    rw [hpc] at hx
    have hnext : HartOk n s.guard (s.uart ++ [⟨h, b, false⟩]) h (.nextMessage frame rest) ∧
        (PanicPc.nextMessage frame rest).owns = false := by
      cases rest with
      | nil => exact ⟨⟨hx.1, fun _ hr => (by cases hr)⟩, rfl⟩
      | cons b' rest => exact ⟨⟨hx.1, List.cons_ne_nil _ _⟩, rfl⟩
    refine hI.quiet (fun e he => ?_) (fun _ _ hl => hl) rfl hnext.1 fun ho => ?_
    · rw [List.mem_singleton.1 he]
    · rw [hnext.2] at ho
      cases ho
  · rename_i b rest lines hpc
    obtain rfl := Option.some.inj hs
    rw [hpc] at hx
    obtain ⟨hlt, hv, hnone, hlines⟩ := hx
    have hes : ∀ e ∈ [(⟨h, b, false⟩ : Out)], e.dump = false := fun e he => by
      rw [List.mem_singleton.1 he]
    refine hI.quiet hes (fun _ _ hl => hl) rfl ⟨hlt, hv, fun e he => ?_, hlines⟩ fun _ => by
      rw [hpc]
      rfl
    rcases List.mem_append.1 he with he | he
    · exact hnone e he
    · exact hes e he
  · rename_i b rest hpc
    obtain rfl := Option.some.inj hs
    rw [hpc] at hx
    exact hI.dump hx.1 hx.2.1 (by rw [hpc]; rfl)
  · rename_i b rest hpc
    obtain rfl := Option.some.inj hs
    rw [hpc] at hx
    exact hI.dump hx.1 hx.2.1 (by rw [hpc]; rfl)
  · cases hs

/-- **A step keeps the invariant.** -/
theorem guardInv_panicStep {a : PanicStep} (hI : GuardInv n s) (hs : panicStep n a s = some s') :
    GuardInv n s' := by
  cases a with
  | panic h fmt args ra fp =>
    obtain ⟨hlt, hs⟩ := Option.ite_none_right_eq_some.1 hs
    obtain rfl := Option.some.inj hs
    obtain ⟨rest, hrest⟩ := messageText_eq_cons fmt args
    exact hI.goto (fun _ _ hl => hl) rfl ⟨hlt, by rw [hrest]; exact List.cons_ne_nil _ _⟩ rfl
  | trap h mcause mepc regs =>
    obtain ⟨hlt, hs⟩ := Option.ite_none_right_eq_some.1 hs
    obtain rfl := Option.some.inj hs
    exact hI.goto (fun _ _ hl => hl) rfl ⟨hlt, fun _ hr => (by cases hr)⟩ rfl
  | cas h stores seen =>
    simp only [panicStep] at hs
    split at hs
    · rename_i frame pc hpc
      obtain rfl := Option.some.inj hs
      exact hI.cas hpc rfl
    · cases hs
  | write h => exact hI.write hs

theorem guardInv_of_reachable (hs : (panics n).Reachable s) : GuardInv n s :=
  hs.invariant guardInv_init fun hI _ => guardInv_panicStep hI

end

/-! ## Runs without overlap -/

/-- From the first byte of a dump on all bytes are those of the hart `h`. -/
def Tail (h : ℕ) (uart : List Out) : Prop :=
  ∃ pre post, uart = pre ++ post ∧ (∀ e ∈ pre, e.dump = false) ∧ ∀ e ∈ post, e.hart = h

/-- The invariant of the runs without overlap: while a hart prints a dump it is the last one to have
written, and no other one prints a message. -/
structure ApartInv (n : ℕ) (s : Panics) : Prop where
  guard : GuardInv n s
  contiguous : Contiguous s.uart
  tail : ∀ h, (s.harts h).dumping = true →
    Tail h s.uart ∧ ∀ g, g ≠ h → (s.harts g).messaging = false

section

variable {n h : ℕ} {uart es : List Out} {pc : PanicPc} {s s' : Panics}

theorem Tail.contiguous (ht : Tail h uart) : Contiguous uart := by
  obtain ⟨pre, post, rfl, hpre, hpost⟩ := ht
  intro i j k e x e' hij hjk he hx he' hd hd'
  have hi : pre.length ≤ i := by
    by_contra hlt
    rw [List.getElem?_append_left (Nat.lt_of_not_le hlt)] at he
    rw [hpre e (List.mem_of_getElem? he)] at hd
    cases hd
  rw [List.getElem?_append_right hi] at he
  rw [List.getElem?_append_right (by omega)] at hx
  rw [hpost x (List.mem_of_getElem? hx), hpost e (List.mem_of_getElem? he)]

/-- Bytes that are not those of a dump may follow. -/
theorem Contiguous.append (hu : Contiguous uart) (hes : ∀ e ∈ es, e.dump = false) :
    Contiguous (uart ++ es) := by
  intro i j k e x e' hij hjk he hx he' hd hd'
  have hk : k < uart.length := by
    by_contra hle
    rw [List.getElem?_append_right (Nat.le_of_not_lt hle)] at he'
    rw [hes e' (List.mem_of_getElem? he')] at hd'
    cases hd'
  rw [List.getElem?_append_left (by omega)] at he hx he'
  exact hu i j k e x e' hij hjk he hx he' hd hd'

theorem PanicPc.owns_of_dumping (hpc : pc.dumping = true) : pc.owns = true := by
  cases pc with
  | dump rest => rfl
  | _ => cases hpc

/-- A hart that has the guard is the only one that may print a dump. -/
theorem GuardInv.eq_of_dumping (hI : GuardInv n s) {g : ℕ} (howns : (s.harts h).owns = true)
    (hg : (s.harts g).dumping = true) : g = h := by
  obtain ⟨o, howner, -⟩ := hI.owner
  rw [howner g (PanicPc.owns_of_dumping hg), howner h howns]

theorem GuardInv.message_of_messaging (hI : GuardInv n s) (hm : (s.harts h).messaging = true) :
    ∃ b rest frame, s.harts h = .message (b :: rest) frame := by
  have hx := hI.harts h
  cases hpc : s.harts h with
  | message rest frame =>
    rw [hpc] at hx
    obtain ⟨b, rest, rfl⟩ := List.exists_cons_of_ne_nil hx.2
    exact ⟨b, rest, frame, rfl⟩
  | _ =>
    rw [hpc] at hm
    cases hm

theorem GuardInv.dump_of_dumping (hI : GuardInv n s) (hd : (s.harts h).dumping = true) :
    ∃ b rest, s.harts h = .dump (b :: rest) ∧ ∃ e ∈ s.uart, e.dump = true ∧ e.hart = h := by
  have hx := hI.harts h
  cases hpc : s.harts h with
  | dump rest =>
    rw [hpc] at hx
    obtain ⟨b, rest, rfl⟩ := List.exists_cons_of_ne_nil hx.2.2.1
    exact ⟨b, rest, rfl, hx.2.2.2⟩
  | _ =>
    rw [hpc] at hd
    cases hd

theorem GuardInv.blank_of_begins (hI : GuardInv n s) (hb : (s.harts h).begins = true) :
    ∃ b b' rest, s.harts h = .blank [] (b :: b' :: rest) := by
  have hx := hI.harts h
  cases hpc : s.harts h with
  | blank rest lines =>
    rw [hpc] at hx hb
    obtain ⟨b, b', lines, rfl⟩ := hx.2.2.2
    cases rest with
    | nil => exact ⟨b, b', lines, rfl⟩
    | cons c rest => cases hb
  | _ =>
    rw [hpc] at hb
    cases hb

/-- No hart prints a dump after a step of the only one that may have. -/
theorem not_dumping_update {harts : ℕ → PanicPc}
    (hothers : ∀ g, g ≠ h → (harts g).dumping = false) (hpc : pc.dumping = false) (g : ℕ) :
    (Function.update harts h pc g).dumping = false := by
  by_cases hne : g = h
  · rw [hne, Function.update_self, hpc]
  · rw [Function.update_of_ne hne, hothers g hne]

/-- A step of a hart that prints neither a message nor a dump after it. -/
theorem ApartInv.goto (hI : ApartInv n s) {c : Reserved}
    (hG : GuardInv n { s.goto h pc with guard := c }) (hd : pc.dumping = false)
    (hm : pc.messaging = false) : ApartInv n { s.goto h pc with guard := c } := by
  refine ⟨hG, hI.contiguous, fun g hg => ?_⟩
  dsimp only [Panics.goto] at hg ⊢
  by_cases hne : g = h
  · rw [hne, Function.update_self, hd] at hg
    cases hg
  rw [Function.update_of_ne hne] at hg
  obtain ⟨htail, hothers⟩ := hI.tail g hg
  refine ⟨htail, fun g' hg' => ?_⟩
  by_cases hne' : g' = h
  · rw [hne', Function.update_self, hm]
  · rw [Function.update_of_ne hne']
    exact hothers g' hg'

/-- A step after which no hart prints a dump. -/
theorem ApartInv.quiet (hI : ApartInv n s) (hes : ∀ e ∈ es, e.dump = false) {harts : ℕ → PanicPc}
    {c : Reserved} (hG : GuardInv n ⟨c, harts, s.uart ++ es⟩)
    (hnone : ∀ g, (harts g).dumping = false) : ApartInv n ⟨c, harts, s.uart ++ es⟩ := by
  refine ⟨hG, hI.contiguous.append hes, fun g hg => ?_⟩
  dsimp only at hg
  rw [hnone g] at hg
  cases hg

/-- The hart that has the guard writes a byte of its dump, and no other one prints a message. -/
theorem ApartInv.dump (hI : ApartInv n s) {b : UInt8} {rest : List UInt8}
    (hG : GuardInv n (s.put h b true (.nextDump rest))) (howns : (s.harts h).owns = true)
    (htail : Tail h (s.uart ++ [⟨h, b, true⟩]))
    (hothers : ∀ g, g ≠ h → (s.harts g).messaging = false) :
    ApartInv n (s.put h b true (.nextDump rest)) := by
  refine ⟨hG, htail.contiguous, fun g hg => ?_⟩
  dsimp only [Panics.put, Panics.goto] at hg ⊢
  obtain rfl : g = h := by
    by_contra hne
    rw [Function.update_of_ne hne] at hg
    exact hne (hI.guard.eq_of_dumping howns hg)
  refine ⟨htail, fun g' hg' => ?_⟩
  rw [Function.update_of_ne hg']
  exact hothers g' hg'

/-- A byte. -/
theorem ApartInv.write (hI : ApartInv n s) (hok : Apart n (.write h) s)
    (hs : panicStep n (.write h) s = some s') : ApartInv n s' := by
  have hG := guardInv_panicStep hI.guard hs
  have hnone : ∀ {b : UInt8} {pc : PanicPc}, (∀ g, g ≠ h → (s.harts g).dumping = false) →
      pc.dumping = false → GuardInv n (s.put h b false pc) → ApartInv n (s.put h b false pc) := by
    intro b pc hothers hpc hG
    refine hI.quiet (fun e he => ?_) hG (not_dumping_update hothers hpc)
    rw [List.mem_singleton.1 he]
  simp only [panicStep] at hs
  split at hs
  · rename_i b rest frame hpc
    obtain rfl := Option.some.inj hs
    refine hnone (fun g hne => ?_) (by cases rest <;> rfl) hG
    -- while this message is printed no other hart prints a dump
    by_contra hg
    have hm := (hI.tail g (by simpa using hg)).2 h (Ne.symm hne)
    rw [hpc] at hm
    cases hm
  · rename_i b rest lines hpc
    obtain rfl := Option.some.inj hs
    refine hnone (fun g hne => ?_) rfl hG
    by_contra hg
    exact hne (hI.guard.eq_of_dumping (by rw [hpc]; rfl) (by simpa using hg))
  · rename_i b rest hpc
    obtain rfl := Option.some.inj hs
    have hx := hI.guard.harts h
    rw [hpc] at hx
    refine hI.dump hG (by rw [hpc]; rfl) ⟨s.uart, [⟨h, b, true⟩], rfl, hx.2.2.1, ?_⟩ fun g hne => ?_
    · intro e he
      rw [List.mem_singleton.1 he]
    · by_contra hm
      obtain ⟨b, rest, frame, hg⟩ := hI.guard.message_of_messaging (by simpa using hm)
      have hlt := hI.guard.harts g
      rw [hg] at hlt
      exact hm (hok (by rw [hpc]; rfl) g hlt.1 hne)
  · rename_i b rest hpc
    obtain rfl := Option.some.inj hs
    obtain ⟨⟨pre, post, huart, hpre, hpost⟩, hothers⟩ := hI.tail h (by rw [hpc]; rfl)
    refine hI.dump hG (by rw [hpc]; rfl) ⟨pre, post ++ [⟨h, b, true⟩], ?_, hpre, ?_⟩ hothers
    · rw [huart, List.append_assoc]
    · intro e he
      rcases List.mem_append.1 he with he | he
      · exact hpost e he
      · rw [List.mem_singleton.1 he]
  · cases hs

theorem PanicPc.nextCas_quiet (frame : Frame) (seen : Seen) (r : CasPc ⊕ Bool) :
    (PanicPc.nextCas h frame seen r).dumping = false ∧
      (PanicPc.nextCas h frame seen r).messaging = false := by
  rcases r with pc | _ | _ <;> exact ⟨rfl, rfl⟩

/-- **A step without overlap keeps the invariant.** -/
theorem apartInv_panicStep {a : PanicStep} (hI : ApartInv n s) (hok : Apart n a s)
    (hs : panicStep n a s = some s') : ApartInv n s' := by
  have hG := guardInv_panicStep hI.guard hs
  cases a with
  | panic h fmt args ra fp =>
    obtain ⟨hlt, hs⟩ := Option.ite_none_right_eq_some.1 hs
    obtain rfl := Option.some.inj hs
    have hothers : ∀ g, g ≠ h → (s.harts g).dumping = false := by
      intro g hne
      by_contra hd
      obtain ⟨b, rest, hg, -⟩ := hI.guard.dump_of_dumping (by simpa using hd)
      have hlt := hI.guard.harts g
      rw [hg] at hlt
      exact hd (hok g hlt.1 hne)
    refine ⟨hG, hI.contiguous, fun g hg => ?_⟩
    rw [Panics.goto, not_dumping_update hothers rfl] at hg
    cases hg
  | trap h mcause mepc regs =>
    obtain ⟨hlt, hs⟩ := Option.ite_none_right_eq_some.1 hs
    obtain rfl := Option.some.inj hs
    exact hI.goto hG rfl rfl
  | cas h stores seen =>
    simp only [panicStep] at hs
    split at hs
    · rename_i frame pc hpc
      obtain rfl := Option.some.inj hs
      exact hI.goto hG (PanicPc.nextCas_quiet ..).1 (PanicPc.nextCas_quiet ..).2
    · cases hs
  | write h => exact hI.write hok hs

theorem apartInv_init : ApartInv n (panics n).init :=
  ⟨guardInv_init, fun _ _ _ _ _ _ _ _ he => (by cases he), fun _ h => (by cases h)⟩

/-! ## Overlaps -/

/-- **A message inside of a dump**: while one hart prints its message and another one its dump, two
bytes are enough. -/
theorem exists_interleaved {g : ℕ} (hne : h ≠ g) {b b' : UInt8} {rest rest' : List UInt8}
    {frame : Frame} (hm : s.harts h = .message (b :: rest) frame)
    (hd : s.harts g = .dump (b' :: rest')) (hbegun : ∃ e ∈ s.uart, e.dump = true ∧ e.hart = g) :
    ∃ s', (panics n).run [.write h, .write g] s = some s' ∧ ¬ DumpAlone s'.uart := by
  obtain ⟨t, ht⟩ : ∃ t, t = s.put h b false (.nextMessage frame rest) := ⟨_, rfl⟩
  have hwrite : (panics n).step (.write h) s = some t := by
    simp only [panics, panicStep, hm, ht]
  have hkeep : t.harts g = .dump (b' :: rest') := by
    rw [← hd, ht]
    exact Function.update_of_ne (Ne.symm hne) ..
  have hwrite' : (panics n).step (.write g) t = some (t.put g b' true (.nextDump rest')) := by
    simp only [panics, panicStep, hkeep]
  refine ⟨t.put g b' true (.nextDump rest'), ?_, fun halone => hne ?_⟩
  · rw [Machine.run_cons, hwrite, Option.bind_some, Machine.run_cons, hwrite']
    rfl
  · obtain ⟨e, he, hdump, rfl⟩ := hbegun
    obtain ⟨i, hi, hie⟩ := List.getElem_of_mem he
    have huart : (t.put e.hart b' true (.nextDump rest')).uart =
        s.uart ++ [⟨h, b, false⟩, ⟨e.hart, b', true⟩] := by
      simp [ht, Panics.put, Panics.goto]
    rw [huart] at halone
    refine halone.between i s.uart.length (s.uart.length + 1) e ⟨h, b, false⟩ ⟨e.hart, b', true⟩ hi
      (Nat.lt_succ_self _) ?_ ?_ ?_ hdump rfl
    · rw [List.getElem?_append_left hi, List.getElem?_eq_getElem hi, hie]
    · simp
    · simp

/-- An overlap that begins may go on so. -/
theorem exists_interleaved_of_not_apart {a : PanicStep} (hI : GuardInv n s)
    (hs : panicStep n a s = some s') (hok : ¬ Apart n a s) :
    ∃ as s'', (panics n).run as s' = some s'' ∧ ¬ DumpAlone s''.uart := by
  cases a with
  | panic h fmt args ra fp =>
    obtain ⟨hlt, hs⟩ := Option.ite_none_right_eq_some.1 hs
    obtain rfl := Option.some.inj hs
    obtain ⟨g, hne, hd⟩ : ∃ g, g ≠ h ∧ (s.harts g).dumping = true := by
      by_contra hno
      exact hok fun g _ hne => by_contra fun hd => hno ⟨g, hne, by simpa using hd⟩
    obtain ⟨b, rest, hdump, hbegun⟩ := hI.dump_of_dumping hd
    obtain ⟨text, htext⟩ := messageText_eq_cons fmt args
    rw [htext]
    exact ⟨_, exists_interleaved (Ne.symm hne) (Function.update_self ..)
      ((Function.update_of_ne hne ..).trans hdump) hbegun⟩
  | trap h mcause mepc regs => exact absurd trivial hok
  | cas h stores seen => exact absurd trivial hok
  | write h =>
    obtain ⟨hbegins, g, hne, hm⟩ : (s.harts h).begins = true ∧
        ∃ g, g ≠ h ∧ (s.harts g).messaging = true := by
      by_contra hno
      refine hok fun hb g _ hne => by_contra fun hm => hno ⟨hb, g, hne, by simpa using hm⟩
    obtain ⟨b, rest, frame, hmessage⟩ := hI.message_of_messaging hm
    obtain ⟨c, c', lines, hblank⟩ := hI.blank_of_begins hbegins
    simp only [panicStep, hblank] at hs
    obtain rfl := Option.some.inj hs
    exact ⟨_, exists_interleaved hne ((Function.update_of_ne hne ..).trans hmessage)
      (Function.update_self ..)
      ⟨⟨h, c, true⟩, List.mem_append_right _ (List.mem_singleton_self _), rfl, rfl⟩⟩

end

/-! ## Main results -/

/-- **Dumps are never interleaved as long as messages keep away from them**, and when a step lets
the message of one hart and the dump of another one overlap, the run may go on so that the dump is
interleaved. -/
theorem dump_alone (n : ℕ) :
    (∀ s, (panics n).ReachableBy (Apart n) s → DumpAlone s.uart) ∧
    ∀ s a s', (panics n).Reachable s → (panics n).step a s = some s' → ¬ Apart n a s →
      ∃ as s'', (panics n).run as s' = some s'' ∧ ¬ DumpAlone s''.uart := by
  refine ⟨fun s h => ?_, fun s a s' h hs hok => ?_⟩
  · have hI : ApartInv n s := h.invariant apartInv_init apartInv_panicStep
    obtain ⟨o, -, howner⟩ := hI.guard.owner
    refine ⟨fun e he e' he' hd hd' => ?_, hI.contiguous⟩
    rw [(howner e he hd).1, (howner e' he' hd').1]
  · exact exists_interleaved_of_not_apart (guardInv_of_reachable h) hs hok

/-- What hart 0 sees. -/
def blankSeen : Seen := ⟨0, 0, 0, 0, 0, fun _ => 0⟩

/-- Hart 0 faults, and prints the first byte of its dump. -/
def faulting : List PanicStep :=
  [.trap 0 5 0 fun _ => 0, .cas 0 true blankSeen, .cas 0 true blankSeen, .write 0, .write 0, .write 0]

/-- Hart 1 faults as well, and halts; hart 0 goes on with its dump. -/
def silenced : List PanicStep :=
  faulting ++ [.trap 1 7 0 fun _ => 0, .cas 1 true blankSeen, .write 0]

theorem dump_alone_silenced :
    ∃ s, (panics 2).ReachableBy (Apart 2) s ∧ s.uart.map Out.byte = [0x0D, 0x0A, 0x21, 0x21] ∧
      DumpAlone s.uart := by
  have hrun : (panics 2).runBy (Apart 2) silenced (panics 2).init = some _ := rfl
  have hreach := Machine.ReachableBy.init.of_runBy hrun
  exact ⟨_, hreach, rfl, (dump_alone 2).1 _ hreach⟩

/-- **A message inside of a dump**: hart 1 calls `hal_panic` while hart 0 prints its dump. -/
theorem dump_interleaved :
    ¬ ∀ (n : ℕ) (s : Panics), (panics n).Reachable s → DumpAlone s.uart := by
  intro hall
  have hrun : (panics 2).run (faulting ++ [.panic 1 none [] 0 0, .write 1, .write 0])
      (panics 2).init = some _ := rfl
  have halone := hall 2 _ (Machine.reachable_of_run hrun)
  have hhart : 1 = 0 :=
    halone.between 2 3 4 _ _ _ (by decide) (by decide) rfl rfl rfl rfl rfl
  exact absurd hhart (by decide)

end RvvmHal.Panic
