import RvvmHal.Smp.Dispatch

/-!
# Every accepted command is called for once

A hart is quiet, with nothing to do, or busy with the command that is in its slot; `Hart.Doing` says
for each statement how far it is. A step of a busy hart leads to the next statement of the same
command (`Hart.Busy.hartStep`), and no other step touches a hart that is busy (`SmpInv.target_ne`):
`smp_start` hands a command to quiet harts only. From this follow the invariant of all runs
(`smpInv_of_reachable`), and that a hart which makes enough steps makes its calls
(`accepted_prefix_calls`).
-/

namespace RvvmHal.Smp

/-! ## The invariant of a hart -/

/-- Nothing is to be done. -/
structure Hart.Quiet (x : Hart) : Prop where
  msip : x.msip = false
  pc : x.pc = .wfi ∨ x.pc = .load
  calls : x.calls = x.accepted
  returned : x.returned = x.calls.length

/-- How far the hart is with the last command. `rest` are the commands before it. -/
def Hart.Doing (x : Hart) (rest : List (ℕ × ℕ)) : Prop :=
  match x.pc with
  | .wfi | .load | .clear => x.msip = true ∧ x.calls = rest ∧ x.returned = rest.length
  | .enter | .readFn => x.msip = false ∧ x.calls = rest ∧ x.returned = rest.length
  | .readArg fn => x.msip = false ∧ fn = x.cmdFn ∧ x.calls = rest ∧ x.returned = rest.length
  | .call fn arg =>
    x.msip = false ∧ fn = x.cmdFn ∧ arg = x.cmdArg ∧ x.calls = rest ∧ x.returned = rest.length
  | .body _ _ => x.msip = false ∧ x.calls = x.accepted ∧ x.returned = rest.length
  | .finish => x.msip = false ∧ x.calls = x.accepted ∧ x.returned = x.calls.length

/-- The harts that wait for commands. -/
def Secondary (h : ℕ) : Prop := h ≠ 0 ∧ h < SMP_MAX_HARTS

/-- The last command is in the slot of the hart `h`, and not done with. -/
structure Hart.Busy (x : Hart) (h : ℕ) (rest : List (ℕ × ℕ)) : Prop where
  secondary : Secondary h
  running : x.running = true
  fn_ne : x.cmdFn ≠ 0
  accepted : x.accepted = rest ++ [(x.cmdFn, x.cmdArg)]
  doing : x.Doing rest

variable {x x' : Hart} {h : ℕ} {rest : List (ℕ × ℕ)}

/-- A quiet hart stays so. -/
theorem Hart.Quiet.hartStep (hq : x.Quiet) (hs : hartStep h x = some x') :
    x'.Quiet ∧ x'.running = x.running ∧ x'.cmdFn = x.cmdFn ∧ x'.cmdArg = x.cmdArg := by
  rcases hq.pc with hpc | hpc
  · rw [Smp.hartStep, hpc] at hs
    cases hs
    exact ⟨{ hq with pc := .inr rfl }, rfl, rfl, rfl⟩
  · rw [Smp.hartStep, hpc, hq.msip] at hs
    cases hs
    exact ⟨{ hq with msip := rfl, pc := .inl rfl }, rfl, rfl, rfl⟩

theorem Hart.Quiet.hartReturn (hq : x.Quiet) : hartReturn x = none := by
  rcases hq.pc with hpc | hpc
  · rw [Smp.hartReturn, hpc]
  · rw [Smp.hartReturn, hpc]

/-- **A step of a busy hart**: it goes on with the command, and when it is done it is quiet. -/
theorem Hart.Busy.hartStep (hb : x.Busy h rest) (hs : hartStep h x = some x') :
    x'.Busy h rest ∨ (x'.Quiet ∧ x'.running = false) := by
  obtain ⟨hlt, hrun, hfn, hacc, hdo⟩ := hb
  obtain ⟨cmdFn, cmdArg, running, msip, pc, accepted, calls, returned⟩ := x
  cases pc with
  | wfi =>
    cases hs
    exact .inl ⟨hlt, hrun, hfn, hacc, hdo⟩
  | load =>
    obtain ⟨hmsip, hcalls, hret⟩ := hdo
    dsimp only at hmsip
    subst hmsip
    cases hs
    exact .inl ⟨hlt, hrun, hfn, hacc, rfl, hcalls, hret⟩
  | clear =>
    obtain ⟨-, hcalls, hret⟩ := hdo
    cases hs
    exact .inl ⟨hlt, hrun, hfn, hacc, rfl, hcalls, hret⟩
  | enter =>
    rw [Smp.hartStep, if_neg (Nat.not_le.2 hlt.2)] at hs
    cases hs
    exact .inl ⟨hlt, hrun, hfn, hacc, hdo⟩
  | readFn =>
    obtain ⟨hmsip, hcalls, hret⟩ := hdo
    cases hs
    exact .inl ⟨hlt, hrun, hfn, hacc, hmsip, rfl, hcalls, hret⟩
  | readArg fn =>
    obtain ⟨hmsip, hread, hcalls, hret⟩ := hdo
    cases hs
    exact .inl ⟨hlt, hrun, hfn, hacc, hmsip, hread, rfl, hcalls, hret⟩
  | call fn arg =>
    obtain ⟨hmsip, rfl, rfl, rfl, hret⟩ := hdo
    dsimp only [Smp.hartStep] at hfn hs
    rw [if_pos hfn] at hs
    cases hs
    exact .inl ⟨hlt, hrun, hfn, hacc, hmsip, hacc.symm, hret⟩
  | body fn arg => cases hs
  | finish =>
    obtain ⟨hmsip, hcalls, hret⟩ := hdo
    cases hs
    exact .inr ⟨⟨hmsip, .inl rfl, hcalls, hret⟩, rfl⟩

theorem Hart.Busy.not_quiet (hb : x.Busy h rest) : ¬ x.Quiet := by
  intro hq
  have hdo := hb.doing
  unfold Hart.Doing at hdo
  rcases hq.pc with hpc | hpc
  · rw [hpc, hq.msip] at hdo
    cases hdo.1
  · rw [hpc, hq.msip] at hdo
    cases hdo.1

theorem Hart.Busy.hartReturn (hb : x.Busy h rest) (hs : hartReturn x = some x') :
    x'.Busy h rest := by
  obtain ⟨hlt, hrun, hfn, hacc, hdo⟩ := hb
  obtain ⟨cmdFn, cmdArg, running, msip, pc, accepted, calls, returned⟩ := x
  cases pc with
  | body fn arg =>
    obtain ⟨hmsip, hcalls, hret⟩ := hdo
    cases hs
    refine ⟨hlt, hrun, hfn, hacc, hmsip, hcalls, ?_⟩
    dsimp only at hcalls hret hacc ⊢
    rw [hcalls, hacc, hret, List.length_append, List.length_singleton]
  | _ => cases hs

/-! ## The invariant of the system -/

/-- The hart to which `smp_start` is handing a command. -/
def PrimaryPc.target : PrimaryPc → Option ℕ
  | .storeFn h _ _ | .storeArg h _ _ | .storeRunning h _ _ | .sendIpi h _ _ => some h
  | _ => none

/-- `smp_start` has set `smp_running`, and not yet raised the interrupt. -/
def PrimaryPc.Sending (h : ℕ) : PrimaryPc → Prop
  | .sendIpi h' _ _ => h' = h
  | _ => False

/-- What `smp_start` has stored. -/
def PrimaryPc.Stored (harts : ℕ → Hart) : PrimaryPc → Prop
  | .idle | .waiting _ => True
  | .storeFn h fn _ => Secondary h ∧ fn ≠ 0 ∧ (harts h).running = false
  | .storeArg h fn _ =>
    Secondary h ∧ fn ≠ 0 ∧ (harts h).running = false ∧ (harts h).cmdFn = fn
  | .storeRunning h fn arg =>
    Secondary h ∧ fn ≠ 0 ∧ (harts h).running = false ∧ (harts h).cmdFn = fn ∧
      (harts h).cmdArg = arg
  | .sendIpi h fn arg =>
    Secondary h ∧ fn ≠ 0 ∧ (harts h).running = true ∧ (harts h).cmdFn = fn ∧
      (harts h).cmdArg = arg

/-- A hart is quiet, and `smp_running` is set only while its interrupt is being raised; or it is
busy. -/
def HartOk (p : PrimaryPc) (h : ℕ) (x : Hart) : Prop :=
  (x.Quiet ∧ (x.running = true ↔ p.Sending h)) ∨ ((∃ rest, x.Busy h rest) ∧ ¬ p.Sending h)

/-- The invariant. -/
structure SmpInv (s : System) : Prop where
  harts : ∀ h, HartOk s.primary h (s.harts h)
  stored : s.primary.Stored s.harts

variable {s s' : System} {cpus : ℕ} {p p' : PrimaryPc} {harts : ℕ → Hart}

theorem HartOk.quiet (hx : HartOk p h x) (hrun : x.running = false) : x.Quiet := by
  rcases hx with ⟨hq, -⟩ | ⟨⟨rest, hb⟩, -⟩
  · exact hq
  · rw [hb.running] at hrun
    cases hrun

theorem HartOk.quiet_of_sending (hx : HartOk p h x) (hsend : p.Sending h) : x.Quiet := by
  rcases hx with ⟨hq, -⟩ | ⟨-, hnot⟩
  · exact hq
  · exact absurd hsend hnot

/-- The hart to which a command is being handed is quiet. -/
theorem SmpInv.quiet_target (hI : SmpInv s) (ht : s.primary.target = some h) :
    (s.harts h).Quiet := by
  have hok := hI.harts h
  have hst := hI.stored
  cases hp : s.primary with
  | idle | waiting =>
    rw [hp] at ht
    cases ht
  | storeFn =>
    rw [hp] at ht hst
    cases ht
    exact hok.quiet hst.2.2
  | storeArg | storeRunning =>
    rw [hp] at ht hst
    cases ht
    exact hok.quiet hst.2.2.1
  | sendIpi =>
    rw [hp] at ht hok
    cases ht
    exact hok.quiet_of_sending rfl

/-- **Frame rule**: what has been stored for one hart does not depend on the others. -/
theorem PrimaryPc.Stored.update (hst : p.Stored harts) (ht : p.target ≠ some h) :
    p.Stored (Function.update harts h x) := by
  have hne : ∀ {h'}, p.target = some h' → Function.update harts h x h' = harts h' := by
    intro h' ht'
    refine Function.update_of_ne ?_ ..
    rintro rfl
    exact ht ht'
  cases p with
  | idle | waiting => trivial
  | storeFn | storeArg | storeRunning | sendIpi =>
    dsimp only [Stored]
    rw [hne rfl]
    exact hst

/-- It depends on the slot and on `smp_running` only. -/
theorem PrimaryPc.Stored.update_same (hst : p.Stored harts)
    (hrun : x.running = (harts h).running) (hfn : x.cmdFn = (harts h).cmdFn)
    (harg : x.cmdArg = (harts h).cmdArg) : p.Stored (Function.update harts h x) := by
  by_cases ht : p.target = some h
  · cases p with
    | idle | waiting => trivial
    | storeFn | storeArg | storeRunning | sendIpi =>
      cases ht
      dsimp only [Stored]
      rw [Function.update_self, hrun]
      first
        | exact hst
        | rw [hfn]; exact hst
        | rw [hfn, harg]; exact hst
  · exact hst.update ht

/-- A hart that takes no part in a step. -/
theorem HartOk.congr (hx : HartOk p h x) (hsend : p'.Sending h ↔ p.Sending h) : HartOk p' h x := by
  unfold HartOk
  rw [hsend]
  exact hx

/-- A step that changes one hart. -/
theorem SmpInv.set (hI : SmpInv s) (hx : HartOk p h x)
    (hother : ∀ h', h' ≠ h → (p.Sending h' ↔ s.primary.Sending h'))
    (hst : p.Stored (Function.update s.harts h x)) : SmpInv (s.set p h x) := by
  refine ⟨fun h' => ?_, hst⟩
  by_cases hh : h' = h
  · subst hh
    rw [System.set_harts_self]
    exact hx
  · rw [System.set_harts_of_ne _ _ _ hh]
    exact (hI.harts h').congr (hother h' hh)

/-- A busy hart is not the one to which a command is being handed. -/
theorem SmpInv.target_ne (hI : SmpInv s) (hb : (s.harts h).Busy h rest) :
    s.primary.target ≠ some h := fun ht => hb.not_quiet (hI.quiet_target ht)

/-! ## Steps -/

theorem SmpInv.hart (hI : SmpInv s) (hs : hartStep h (s.harts h) = some x) :
    SmpInv (s.set s.primary h x) := by
  rcases hI.harts h with ⟨hq, hrun⟩ | ⟨⟨rest, hb⟩, hsend⟩
  · obtain ⟨hq', hrun', hfn, harg⟩ := hq.hartStep hs
    exact hI.set (.inl ⟨hq', hrun' ▸ hrun⟩) (fun _ _ => Iff.rfl)
      (hI.stored.update_same hrun' hfn harg)
  · refine hI.set ?_ (fun _ _ => Iff.rfl) (hI.stored.update (hI.target_ne hb))
    rcases hb.hartStep hs with hb' | ⟨hq, hrun⟩
    · exact .inr ⟨⟨rest, hb'⟩, hsend⟩
    · exact .inl ⟨hq, iff_of_false (by rw [hrun]; nofun) hsend⟩

theorem SmpInv.ret (hI : SmpInv s) (hs : hartReturn (s.harts h) = some x) :
    SmpInv (s.set s.primary h x) := by
  rcases hI.harts h with ⟨hq, -⟩ | ⟨⟨rest, hb⟩, hsend⟩
  · rw [hq.hartReturn] at hs
    cases hs
  · exact hI.set (.inr ⟨⟨rest, hb.hartReturn hs⟩, hsend⟩) (fun _ _ => Iff.rfl)
      (hI.stored.update (hI.target_ne hb))

/-- The primary goes on to a place at which it hands no command to a hart. -/
theorem SmpInv.goOn (hI : SmpInv s) (hold : ∀ h, ¬ s.primary.Sending h)
    (hnew : ∀ h, ¬ p.Sending h) (hst : p.Stored s.harts) : SmpInv { s with primary := p } :=
  ⟨fun h => (hI.harts h).congr (iff_of_false (hnew h) (hold h)), hst⟩

theorem hartCount_le (cpus : ℕ) : hartCount cpus ≤ SMP_MAX_HARTS := by
  unfold hartCount
  dsimp only
  by_cases hcap : (if cpus = 0 then 1 else cpus) > SMP_MAX_HARTS
  · exact Nat.le_of_eq (if_pos hcap)
  · exact (if_neg hcap).trans_le (Nat.not_lt.1 hcap)

theorem SmpInv.start (hI : SmpInv s) {fn arg : ℕ} (hs : smpStart cpus h fn arg s = some s') :
    SmpInv s' := by
  unfold smpStart at hs
  split at hs
  · rename_i hidle
    rw [Option.some.injEq] at hs
    subst hs
    split
    · exact hI
    · rename_i hnot
      simp only [Refused, not_or, Nat.not_le, ge_iff_le, Bool.not_eq_true] at hnot
      obtain ⟨hne, hlt, hrun, hfn⟩ := hnot
      refine hI.goOn (fun h' => ?_) (fun h' => id)
        ⟨⟨hne, Nat.lt_of_lt_of_le hlt (hartCount_le cpus)⟩, hfn, hrun⟩
      rw [hidle]
      exact id
  · cases hs

theorem SmpInv.wait (hI : SmpInv s) (hs : smpWait h s = some s') : SmpInv s' := by
  unfold smpWait at hs
  split at hs
  · rename_i hidle
    rw [Option.some.injEq] at hs
    subst hs
    refine hI.goOn (fun h' => ?_) (fun h' => id) trivial
    rw [hidle]
    exact id
  · cases hs

theorem SmpInv.primary (hI : SmpInv s) (hs : primaryStep s = some s') : SmpInv s' := by
  obtain ⟨primary, harts⟩ := s
  cases primary with
  | idle => cases hs
  | storeFn h fn arg =>
    cases hs
    obtain ⟨hlt, hfn, hrun⟩ := hI.stored
    have hq := hI.quiet_target (h := h) rfl
    refine hI.set (.inl ⟨⟨hq.msip, hq.pc, hq.calls, hq.returned⟩, ?_⟩) (fun _ _ => Iff.rfl) ?_
    · exact iff_of_false (by rw [hrun]; nofun) id
    · dsimp only [PrimaryPc.Stored]
      rw [Function.update_self]
      exact ⟨hlt, hfn, hrun, rfl⟩
  | storeArg h fn arg =>
    cases hs
    obtain ⟨hlt, hfn, hrun, hcmd⟩ := hI.stored
    have hq := hI.quiet_target (h := h) rfl
    refine hI.set (.inl ⟨⟨hq.msip, hq.pc, hq.calls, hq.returned⟩, ?_⟩) (fun _ _ => Iff.rfl) ?_
    · exact iff_of_false (by rw [hrun]; nofun) id
    · dsimp only [PrimaryPc.Stored]
      rw [Function.update_self]
      exact ⟨hlt, hfn, hrun, hcmd, rfl⟩
  | storeRunning h fn arg =>
    cases hs
    obtain ⟨hlt, hfn, -, hcmd, harg⟩ := hI.stored
    have hq := hI.quiet_target (h := h) rfl
    refine hI.set (.inl ⟨⟨hq.msip, hq.pc, hq.calls, hq.returned⟩, iff_of_true rfl rfl⟩)
      (fun h' hne => iff_of_false (Ne.symm hne) id) ?_
    dsimp only [PrimaryPc.Stored]
    rw [Function.update_self]
    exact ⟨hlt, hfn, rfl, hcmd, harg⟩
  | sendIpi h fn arg =>
    cases hs
    obtain ⟨hlt, hfn, hrun, hcmd, harg⟩ := hI.stored
    have hq := hI.quiet_target (h := h) rfl
    refine hI.set (.inr ⟨⟨(harts h).accepted, hlt, hrun, ?_, ?_, ?_⟩, id⟩)
      (fun h' hne => iff_of_false id (Ne.symm hne)) trivial
    · dsimp only at hcmd ⊢
      rwa [hcmd]
    · dsimp only at hcmd harg ⊢
      rw [hcmd, harg]
    have hret := hq.returned
    rw [hq.calls] at hret
    unfold Hart.Doing
    rcases hq.pc with hpc | hpc
    · rw [hpc]
      exact ⟨rfl, hq.calls, hret⟩
    · rw [hpc]
      exact ⟨rfl, hq.calls, hret⟩
  | waiting h =>
    cases hs
    refine hI.goOn (fun h' => id) (fun h' => ?_) ?_
    · split
      · exact id
      · exact id
    · split
      · trivial
      · trivial

theorem smpInv_smpStep {a : SmpStep} (hI : SmpInv s) (hs : smpStep cpus a s = some s') :
    SmpInv s' := by
  cases a with
  | start h fn arg => exact hI.start hs
  | isRunning h =>
    obtain ⟨-, hs⟩ := Option.ite_none_right_eq_some.1 hs
    obtain rfl := Option.some.inj hs
    exact hI
  | wait h => exact hI.wait hs
  | primary => exact hI.primary hs
  | hart h =>
    obtain ⟨-, hs⟩ := Option.ite_none_left_eq_some.1 hs
    obtain ⟨x, hx, rfl⟩ := Option.map_eq_some_iff.1 hs
    exact hI.hart hx
  | ret h =>
    obtain ⟨x, hx, rfl⟩ := Option.map_eq_some_iff.1 hs
    exact hI.ret hx

theorem smpInv_init : SmpInv (smp cpus).init :=
  ⟨fun _ => .inl ⟨⟨rfl, .inl rfl, rfl, rfl⟩, iff_of_false nofun id⟩, trivial⟩

/-- The invariant holds in all runs. -/
theorem smpInv_of_reachable (h : (smp cpus).Reachable s) : SmpInv s :=
  h.invariant smpInv_init fun hI _ hs => smpInv_smpStep hI hs

/-! ## Progress -/

/-- The number of statements up to the call. -/
def HartPc.distance : HartPc → ℕ
  | .wfi => 7
  | .load => 6
  | .clear => 5
  | .enter => 4
  | .readFn => 3
  | .readArg _ => 2
  | .call _ _ => 1
  | .body _ _ | .finish => 0

theorem HartPc.distance_le (pc : HartPc) : pc.distance ≤ 7 := by
  cases pc <;> simp [distance]

/-- A busy hart has yet to make the last call, or it has made all calls. -/
theorem Hart.Busy.calls_cases (hb : x.Busy h rest) :
    x.calls = rest ∨ x.calls = x.accepted := by
  have hdo := hb.doing
  unfold Hart.Doing at hdo
  cases hpc : x.pc with
  | wfi | load | clear | enter | readFn =>
    rw [hpc] at hdo
    exact .inl hdo.2.1
  | readArg fn =>
    rw [hpc] at hdo
    exact .inl hdo.2.2.1
  | call fn arg =>
    rw [hpc] at hdo
    exact .inl hdo.2.2.2.1
  | body fn arg =>
    rw [hpc] at hdo
    exact .inr hdo.2.1
  | finish =>
    rw [hpc] at hdo
    exact .inr hdo.2.1

theorem HartOk.calls_prefix_accepted (hx : HartOk p h x) :
    x.calls <+: x.accepted ∧ x.accepted.length ≤ x.calls.length + 1 := by
  rcases hx with ⟨hq, -⟩ | ⟨⟨rest, hb⟩, -⟩
  · rw [hq.calls]
    exact ⟨List.prefix_refl _, Nat.le_succ _⟩
  · rcases hb.calls_cases with hcalls | hcalls
    · rw [hcalls, hb.accepted, List.length_append, List.length_singleton]
      exact ⟨List.prefix_append .., Nat.le_refl _⟩
    · rw [hcalls]
      exact ⟨List.prefix_refl _, Nat.le_succ _⟩

/-- No interrupt is lost. -/
theorem HartOk.wake (hx : HartOk p h x) (hrun : x.running = true) :
    x.msip = true ∨ x.pc.InDispatch ∨ p.Sending h := by
  rcases hx with ⟨-, hiff⟩ | ⟨⟨rest, hb⟩, -⟩
  · exact .inr (.inr (hiff.1 hrun))
  · have hdo := hb.doing
    unfold Hart.Doing at hdo
    cases hpc : x.pc with
    | wfi | load | clear =>
      rw [hpc] at hdo
      exact .inl hdo.1
    | enter | readFn | readArg | call | body | finish => exact .inr (.inl trivial)

/-- A hart whose `smp_running` is not set has made all calls, and they have returned. -/
theorem HartOk.done (hx : HartOk p h x) (hrun : h ≥ SMP_MAX_HARTS ∨ x.running = false) :
    x.calls = x.accepted ∧ x.returned = x.accepted.length := by
  rcases hx with ⟨hq, -⟩ | ⟨⟨rest, hb⟩, -⟩
  · exact ⟨hq.calls, hq.calls ▸ hq.returned⟩
  · rcases hrun with hge | hrun
    · exact absurd hb.secondary.2 (Nat.not_lt.2 hge)
    · rw [hb.running] at hrun
      cases hrun

/-- The calls that have been made stay so. -/
theorem calls_hartStep (hs : hartStep h x = some x') :
    x.calls <+: x'.calls ∧ x'.accepted = x.accepted := by
  unfold hartStep at hs
  split at hs
  case h_7 =>
    cases hs
    split
    · exact ⟨List.prefix_append .., rfl⟩
    · exact ⟨List.prefix_refl _, rfl⟩
  all_goals
    cases hs
    try exact ⟨List.prefix_refl _, rfl⟩

/-- A function that returns has been called. -/
theorem hartReturn_inv (hs : hartReturn x = some x') :
    (∃ fn arg, x.pc = .body fn arg) ∧ x'.calls = x.calls ∧ x'.accepted = x.accepted := by
  unfold hartReturn at hs
  split at hs
  · rename_i fn arg hpc
    rw [← Option.some.inj hs]
    exact ⟨⟨fn, arg, hpc⟩, rfl, rfl⟩
  · cases hs

theorem Hart.Busy.distance_pos (hb : x.Busy h rest) (hcalls : x.calls ≠ x.accepted) :
    0 < x.pc.distance := by
  have hdo := hb.doing
  unfold Hart.Doing at hdo
  cases hpc : x.pc with
  | body | finish =>
    rw [hpc] at hdo
    exact absurd hdo.2.1 hcalls
  | wfi | load | clear | enter | readFn | readArg | call => exact Nat.succ_pos _

/-- A step of a hart that has yet to make a call brings it nearer to the call. -/
theorem Hart.Busy.nearer (hb : x.Busy h rest) (hcalls : x.calls ≠ x.accepted)
    (hs : Smp.hartStep h x = some x') :
    x'.calls = x'.accepted ∨ x'.pc.distance + 1 = x.pc.distance := by
  obtain ⟨hsec, hrun, hfn, hacc, hdo⟩ := hb
  obtain ⟨cmdFn, cmdArg, running, msip, pc, accepted, calls, returned⟩ := x
  cases pc with
  | load =>
    obtain ⟨hmsip, -⟩ := hdo
    dsimp only at hmsip
    subst hmsip
    cases hs
    exact .inr rfl
  | enter =>
    rw [Smp.hartStep, if_neg (Nat.not_le.2 hsec.2)] at hs
    cases hs
    exact .inr rfl
  | call fn arg =>
    obtain ⟨-, rfl, rfl, rfl, -⟩ := hdo
    dsimp only [Smp.hartStep] at hfn hs
    rw [if_pos hfn] at hs
    cases hs
    exact .inl hacc.symm
  | body fn arg => cases hs
  | finish => exact absurd hdo.2.1 hcalls
  | wfi | clear | readFn | readArg =>
    cases hs
    exact .inr rfl

/-- What a step does to the hart `h`: nothing, or it is the next statement of the hart, or the
return of the function, or a store of `smp_start`. -/
theorem smpStep_cases {a : SmpStep} (h : ℕ) (hs : smpStep cpus a s = some s') :
    (a ≠ .hart h ∧ s'.harts h = s.harts h) ∨
    (a = .hart h ∧ hartStep h (s.harts h) = some (s'.harts h)) ∨
    (a = .ret h ∧ hartReturn (s.harts h) = some (s'.harts h)) ∨
    (a = .primary ∧ s.primary.target = some h ∧ (s'.harts h).pc = (s.harts h).pc ∧
      (s'.harts h).calls = (s.harts h).calls ∧
      (s.harts h).accepted <+: (s'.harts h).accepted) := by
  cases a with
  | start h' fn arg =>
    refine .inl ⟨nofun, ?_⟩
    simp only [smpStep, smpStart] at hs
    split at hs
    · rw [Option.some.injEq] at hs
      subst hs
      split
      · rfl
      · rfl
    · cases hs
  | isRunning h' =>
    obtain ⟨-, hs⟩ := Option.ite_none_right_eq_some.1 hs
    obtain rfl := Option.some.inj hs
    exact .inl ⟨nofun, rfl⟩
  | wait h' =>
    refine .inl ⟨nofun, ?_⟩
    simp only [smpStep, smpWait] at hs
    split at hs
    · cases hs
      rfl
    · cases hs
  | primary =>
    obtain ⟨primary, harts⟩ := s
    cases primary with
    | idle => cases hs
    | waiting h' =>
      cases hs
      exact .inl ⟨nofun, rfl⟩
    | storeFn h' | storeArg h' | storeRunning h' | sendIpi h' =>
      cases hs
      by_cases hh : h = h'
      · subst hh
        refine .inr (.inr (.inr ⟨rfl, rfl, ?_⟩))
        rw [System.set_harts_self]
        exact ⟨rfl, rfl, by simp⟩
      · exact .inl ⟨nofun, System.set_harts_of_ne _ _ _ hh⟩
  | hart h' =>
    obtain ⟨-, hs⟩ := Option.ite_none_left_eq_some.1 hs
    obtain ⟨x, hx, rfl⟩ := Option.map_eq_some_iff.1 hs
    by_cases hh : h = h'
    · subst hh
      refine .inr (.inl ⟨rfl, ?_⟩)
      rw [hx, System.set_harts_self]
    · exact .inl ⟨fun he => hh (SmpStep.hart.inj he).symm, System.set_harts_of_ne _ _ _ hh⟩
  | ret h' =>
    obtain ⟨x, hx, rfl⟩ := Option.map_eq_some_iff.1 hs
    by_cases hh : h = h'
    · subst hh
      refine .inr (.inr (.inl ⟨rfl, ?_⟩))
      rw [hx, System.set_harts_self]
    · exact .inl ⟨nofun, System.set_harts_of_ne _ _ _ hh⟩

/-- Commands that have been accepted stay so. -/
theorem accepted_smpStep {a : SmpStep} (h : ℕ) (hs : smpStep cpus a s = some s') :
    (s.harts h).accepted <+: (s'.harts h).accepted := by
  rcases smpStep_cases h hs with ⟨-, heq⟩ | ⟨-, hx⟩ | ⟨-, hx⟩ | ⟨-, -, -, -, hacc⟩
  · exact heq ▸ List.prefix_refl _
  · exact (calls_hartStep hx).2 ▸ List.prefix_refl _
  · exact (hartReturn_inv hx).2.2 ▸ List.prefix_refl _
  · exact hacc

/-- The commands `cmds` have been called for, or the hart has so many statements to go. -/
def Hart.toGo (cmds : List (ℕ × ℕ)) (x : Hart) : ℕ :=
  if cmds.isPrefixOf x.calls then 0 else x.pc.distance

theorem Hart.toGo_of_called {cmds : List (ℕ × ℕ)} (hcalls : cmds <+: x.calls) :
    x.toGo cmds = 0 := if_pos (List.isPrefixOf_iff_prefix.2 hcalls)

theorem Hart.toGo_le (cmds : List (ℕ × ℕ)) (x : Hart) : x.toGo cmds ≤ x.pc.distance := by
  unfold toGo
  split
  · exact Nat.zero_le _
  · exact Nat.le_refl _

theorem Hart.toGo_of_not_called {cmds : List (ℕ × ℕ)} (hcalls : ¬ cmds <+: x.calls) :
    x.toGo cmds = x.pc.distance := if_neg fun hp => hcalls (List.isPrefixOf_iff_prefix.1 hp)

/-- A hart that has not been called for all its commands is busy. -/
theorem HartOk.busy (hx : HartOk p h x) {cmds : List (ℕ × ℕ)} (hcmds : cmds <+: x.accepted)
    (hcalls : ¬ cmds <+: x.calls) : ∃ rest, x.Busy h rest ∧ x.calls ≠ x.accepted := by
  have hne : x.calls ≠ x.accepted := fun heq => hcalls (heq ▸ hcmds)
  rcases hx with ⟨hq, -⟩ | ⟨⟨rest, hb⟩, -⟩
  · exact absurd hq.calls hne
  · exact ⟨rest, hb, hne⟩

/-- No step takes the hart farther from its calls, and its own take it nearer. -/
theorem toGo_smpStep {a : SmpStep} {cmds : List (ℕ × ℕ)} (hI : SmpInv s)
    (hcmds : cmds <+: (s.harts h).accepted) (hs : smpStep cpus a s = some s') :
    (s'.harts h).toGo cmds ≤ (s.harts h).toGo cmds ∧
      (a = .hart h → (s'.harts h).toGo cmds ≤ (s.harts h).toGo cmds - 1) := by
  by_cases hcalls : cmds <+: (s.harts h).calls
  · -- the calls have been made
    have hcalls' : cmds <+: (s'.harts h).calls := by
      rcases smpStep_cases h hs with ⟨-, heq⟩ | ⟨-, hx⟩ | ⟨-, hx⟩ | ⟨-, -, -, heq, -⟩
      · rwa [heq]
      · exact hcalls.trans (calls_hartStep hx).1
      · rwa [(hartReturn_inv hx).2.1]
      · rwa [heq]
    rw [Hart.toGo_of_called hcalls']
    exact ⟨Nat.zero_le _, fun _ => Nat.zero_le _⟩
  · obtain ⟨rest, hb, hne⟩ := (hI.harts h).busy hcmds hcalls
    rcases smpStep_cases h hs with ⟨ha, heq⟩ | ⟨-, hx⟩ | ⟨-, hx⟩ | ⟨-, ht, -⟩
    · rw [heq]
      exact ⟨Nat.le_refl _, fun he => absurd he ha⟩
    · rw [Hart.toGo_of_not_called hcalls]
      rcases hb.nearer hne hx with hall | hdist
      · rw [Hart.toGo_of_called (by rw [hall, (calls_hartStep hx).2]; exact hcmds)]
        exact ⟨Nat.zero_le _, fun _ => Nat.zero_le _⟩
      · have hle := (s'.harts h).toGo_le cmds
        omega
    · obtain ⟨⟨fn, arg, hpc⟩, -⟩ := hartReturn_inv hx
      have hpos := hb.distance_pos hne
      rw [hpc] at hpos
      cases hpos
    · exact absurd ht (hI.target_ne hb)

/-- The commands accepted by now have been called for when the hart has made seven steps. -/
theorem accepted_prefix_calls {as : List SmpStep} (hI : SmpInv s)
    (hrun : (smp cpus).run as s = some s') (hcount : 7 ≤ as.count (.hart h)) :
    (s.harts h).accepted <+: (s'.harts h).calls := by
  have hle : (s.harts h).toGo (s.harts h).accepted ≤ as.count (.hart h) :=
    Nat.le_trans (Hart.toGo_le ..) (Nat.le_trans (HartPc.distance_le _) hcount)
  obtain ⟨⟨hI', hacc⟩, hzero⟩ := Machine.run_eq_zero_of_count (M := smp cpus)
    (I := fun t => SmpInv t ∧ (s.harts h).accepted <+: (t.harts h).accepted)
    (fun t => (t.harts h).toGo (s.harts h).accepted) (.hart h)
    (fun hI hs => ⟨⟨smpInv_smpStep hI.1 hs, hI.2.trans (accepted_smpStep h hs)⟩,
      toGo_smpStep hI.1 hI.2 hs⟩)
    ⟨hI, List.prefix_refl _⟩ hrun hle
  by_contra hcalls
  obtain ⟨rest, hb, hne⟩ := (hI'.harts h).busy hacc hcalls
  have hpos := hb.distance_pos hne
  rw [Hart.toGo_of_not_called hcalls] at hzero
  omega

/-! ## Main result -/

theorem hart_enabled (hI : SmpInv s) (hcalls : (s.harts h).calls ≠ (s.harts h).accepted) :
    ∃ s', smpStep cpus (.hart h) s = some s' := by
  rcases hI.harts h with ⟨hq, -⟩ | ⟨⟨rest, hb⟩, -⟩
  · exact absurd hq.calls hcalls
  · have hpos := hb.distance_pos hcalls
    have hsome : ∃ x, hartStep h (s.harts h) = some x := by
      unfold hartStep
      cases hpc : (s.harts h).pc with
      | body | finish =>
        rw [hpc] at hpos
        cases hpos
      | wfi | load | clear | enter | readFn | readArg | call => exact ⟨_, rfl⟩
    obtain ⟨x, hx⟩ := hsome
    refine ⟨s.set s.primary h x, ?_⟩
    rw [smpStep, if_neg hb.secondary.1, hx, Option.map_some]

/-- `smp_start` with a command that is not refused. -/
theorem run_smpStart {fn arg : ℕ} (hidle : s.primary = .idle) (hnot : ¬ Refused cpus s h fn) :
    ∃ s', (smp cpus).run (.start h fn arg :: List.replicate 4 .primary) s = some s' ∧
      s'.primary = .idle ∧ (s'.harts h).accepted = (s.harts h).accepted ++ [(fn, arg)] := by
  have hstart : smpStep cpus (.start h fn arg) s = some { s with primary := .storeFn h fn arg } := by
    rw [smpStep, smpStart, hidle]
    dsimp only
    rw [if_neg hnot]
  rw [Machine.run_cons]
  dsimp only [smp]
  rw [hstart, Option.bind_some]
  refine ⟨_, rfl, rfl, ?_⟩
  simp

/-- **Every accepted command is called for exactly once**, with its own function and argument. While
`smp_running` is set the interrupt of the hart is pending, or the hart is in the dispatch, or
`smp_start` is about to raise the interrupt. `smp_start` changes nothing when it refuses a command,
and when `smp_wait` returns all calls of the hart have returned. -/
theorem smp_dispatch {cpus : ℕ} {s : System} (hs : (smp cpus).Reachable s) :
    (∀ h, (s.harts h).calls <+: (s.harts h).accepted ∧
      (s.harts h).accepted.length ≤ (s.harts h).calls.length + 1) ∧
    (∀ h, (s.harts h).calls ≠ (s.harts h).accepted →
      ∃ s', smpStep cpus (.hart h) s = some s') ∧
    (∀ h as s', (smp cpus).run as s = some s' → 7 ≤ as.count (.hart h) →
      (s.harts h).accepted <+: (s'.harts h).calls) ∧
    (∀ h, (s.harts h).running = true →
      (s.harts h).msip = true ∨ (s.harts h).pc.InDispatch ∨ s.primary.Sending h) ∧
    (∀ h fn arg, s.primary = .idle → Refused cpus s h fn →
      smpStep cpus (.start h fn arg) s = some s) ∧
    (∀ h fn arg, s.primary = .idle → ¬ Refused cpus s h fn →
      ∃ s', (smp cpus).run (.start h fn arg :: List.replicate 4 .primary) s = some s' ∧
        s'.primary = .idle ∧ (s'.harts h).accepted = (s.harts h).accepted ++ [(fn, arg)]) ∧
    (∀ h s', s.primary = .waiting h → smpStep cpus .primary s = some s' → s'.primary = .idle →
      (s.harts h).calls = (s.harts h).accepted ∧
        (s.harts h).returned = (s.harts h).accepted.length) := by
  have hI := smpInv_of_reachable hs
  refine ⟨fun h => (hI.harts h).calls_prefix_accepted, fun h => hart_enabled hI,
    fun h as s' => accepted_prefix_calls hI, fun h => (hI.harts h).wake,
    fun h fn arg hidle href => ?_, fun h fn arg => run_smpStart, fun h s' hwait hstep hidle => ?_⟩
  · rw [smpStep, smpStart, hidle]
    dsimp only
    rw [if_pos href]
  · refine (hI.harts h).done ?_
    rw [smpStep, primaryStep, hwait, Option.some.injEq] at hstep
    rw [← hstep] at hidle
    by_contra hnot
    rw [not_or, Bool.not_eq_false] at hnot
    have hrun : smpIsRunning s h = true := by rw [smpIsRunning, if_neg hnot.1, hnot.2]
    dsimp only at hidle
    rw [if_pos hrun] at hidle
    cases hidle

/-- A command for hart 1 of two, and the statements of the hart up to the call. -/
def handOver : List SmpStep :=
  .start 1 5 6 :: List.replicate 4 .primary ++ List.replicate 7 (.hart 1)

/-- The hart has been called for the command. -/
theorem smp_dispatch_handOver :
    ∃ s, (smp 2).Reachable s ∧ (s.harts 1).calls = [(5, 6)] ∧
      (s.harts 1).calls <+: (s.harts 1).accepted := by
  have hrun : (smp 2).run handOver (smp 2).init = some _ := rfl
  have hreach := Machine.reachable_of_run hrun
  exact ⟨_, hreach, rfl, ((smp_dispatch hreach).1 1).1⟩

/-- `smp_running` is set before the interrupt is raised, and in between the hart may wait. -/
theorem running_before_ipi :
    ¬ ∀ (cpus : ℕ) (s : System), (smp cpus).Reachable s → ∀ h, (s.harts h).running = true →
      (s.harts h).msip = true ∨ (s.harts h).pc.InDispatch := by
  intro hall
  have hrun : (smp 2).run [.start 1 5 6, .primary, .primary, .primary] (smp 2).init = some _ := rfl
  rcases hall 2 _ (Machine.reachable_of_run hrun) 1 rfl with hmsip | hpc
  · cases hmsip
  · exact hpc

end RvvmHal.Smp
