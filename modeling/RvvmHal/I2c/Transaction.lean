import Mathlib.Data.List.Basic
import Mathlib.Tactic.Common

/-!
# Transactions on the I2C bus

`i2c.c`: a transaction is a sequence of commands to the controller, which ends early when a command
fails, and with a stop in any case. The controller may answer any command in any way: what a read of
a register gives is a function of all accesses before it.

The accesses of a transaction are those of a prefix of its commands, cut off behind the first that
fails, and of a stop (`i2c_transactions`).
-/

namespace RvvmHal.I2c

/-! ## The controller -/

abbrev I2C_OC_REG_TXRXR : ℕ := 0x0C
abbrev I2C_OC_REG_CRSR : ℕ := 0x10

abbrev I2C_OC_CMD_STA : UInt8 := 0x80
abbrev I2C_OC_CMD_STO : UInt8 := 0x40
abbrev I2C_OC_CMD_RD : UInt8 := 0x20
abbrev I2C_OC_CMD_WR : UInt8 := 0x10
abbrev I2C_OC_CMD_NACK : UInt8 := 0x08
abbrev I2C_OC_CMD_IACK : UInt8 := 0x01

abbrev I2C_OC_STA_NACK : UInt8 := 0x80
abbrev I2C_OC_STA_IF : UInt8 := 0x01

/-- An access to a register, with the byte that is written or read. -/
inductive Access
  | write (off : ℕ) (v : UInt8)
  | read (off : ℕ) (v : UInt8)
  deriving DecidableEq

/-- What a read of a register gives, after all the accesses so far. -/
abbrev Controller := List Access → ℕ → UInt8

variable (c : Controller)

/-- `r`. -/
def r (bus : List Access) (off : ℕ) : UInt8 × List Access := (c bus off, bus ++ [.read off (c bus off)])

/-- `w`. -/
def w (bus : List Access) (off : ℕ) (v : UInt8) : List Access := bus ++ [.write off v]

/-- The loop of `i2c_cmd`, for at most so many polls: the status with `I2C_OC_STA_IF`. -/
def pollStatus : ℕ → List Access → Option UInt8 × List Access
  | 0, bus => (none, bus)
  | spins + 1, bus =>
    let (s, bus) := r c bus I2C_OC_REG_CRSR
    if s &&& I2C_OC_STA_IF ≠ 0 then (some s, bus) else pollStatus spins bus

/-- `i2c_cmd`. -/
def i2cCmd (bus : List Access) (cmd : UInt8) : Bool × List Access :=
  match pollStatus c 1000 (w bus I2C_OC_REG_CRSR (cmd ||| I2C_OC_CMD_IACK)) with
  | (none, bus) => (false, bus)
  | (some s, bus) => (decide (s &&& I2C_OC_STA_NACK = 0), bus)

/-- `i2c_stop`. -/
def i2cStop (bus : List Access) : List Access := (i2cCmd c bus I2C_OC_CMD_STO).2

/-- A byte is put into the transmit register, and a command follows. -/
def sendByte (bus : List Access) (v cmd : UInt8) : Bool × List Access :=
  i2cCmd c (w bus I2C_OC_REG_TXRXR v) cmd

/-- The loop over the data. -/
def writeLoop : List UInt8 → List Access → Bool × List Access
  | [], bus => (true, bus)
  | b :: data, bus =>
    let (ok, bus) := sendByte c bus b I2C_OC_CMD_WR
    if ok then writeLoop data bus else (false, bus)

/-- The loop of the read phase, from byte `i` on; so many bytes are left. -/
def readLoop (rlen : ℕ) : (left i : ℕ) → (ℕ → UInt8) → List Access → Bool × (ℕ → UInt8) × List Access
  | 0, _, rdata, bus => (true, rdata, bus)
  | left + 1, i, rdata, bus =>
    let cmd := if i + 1 = rlen then I2C_OC_CMD_RD ||| I2C_OC_CMD_NACK else I2C_OC_CMD_RD
    let (ok, bus) := i2cCmd c bus cmd
    if ok then
      let (v, bus) := r c bus I2C_OC_REG_TXRXR
      readLoop rlen left (i + 1) (Function.update rdata i v) bus
    else (false, rdata, bus)

/-- The start of a transaction, and the data that are written. -/
def writePhase (addr : UInt8) (data : List UInt8) (bus : List Access) : Bool × List Access :=
  let (ok, bus) := sendByte c bus ((addr <<< 1) ||| 0) (I2C_OC_CMD_STA ||| I2C_OC_CMD_WR)
  if ok then writeLoop c data bus else (false, bus)

/-- `i2c_write`. -/
def i2cWrite (addr : UInt8) (data : List UInt8) (bus : List Access) : Bool × List Access :=
  let (ok, bus) := writePhase c addr data bus
  (ok, i2cStop c bus)

/-- `i2c_write_then_read`: the result, the array `rdata` and the accesses. -/
def i2cWriteThenRead (addr : UInt8) (wdata : List UInt8) (rdata : ℕ → UInt8) (rlen : ℕ)
    (bus : List Access) : Bool × (ℕ → UInt8) × List Access :=
  let (ok, bus) := writePhase c addr wdata bus
  if ok then
    let (ok, bus) := sendByte c bus ((addr <<< 1) ||| 1) (I2C_OC_CMD_STA ||| I2C_OC_CMD_WR)
    if ok then
      let (ok, rdata, bus) := readLoop c rlen rlen 0 rdata bus
      (ok, rdata, i2cStop c bus)
    else (false, rdata, i2cStop c bus)
  else (false, rdata, i2cStop c bus)

/-! ## Commands and their answers -/

/-- A command on the bus. -/
inductive Command
  | start (addr : UInt8) (reads : Bool)
  | write (v : UInt8)
  | read (nack : Bool)
  | stop
  deriving DecidableEq

namespace Command

/-- The bits of the command register. -/
def bits : Command → UInt8
  | .start _ _ => I2C_OC_CMD_STA ||| I2C_OC_CMD_WR
  | .write _ => I2C_OC_CMD_WR
  | .read nack => if nack then I2C_OC_CMD_RD ||| I2C_OC_CMD_NACK else I2C_OC_CMD_RD
  | .stop => I2C_OC_CMD_STO

/-- The byte that is sent. -/
def sent : Command → Option UInt8
  | .start addr reads => some ((addr <<< 1) ||| if reads then 1 else 0)
  | .write v => some v
  | _ => none

/-- A byte is received. -/
def IsRead : Command → Prop
  | .read _ => True
  | _ => False

end Command

/-- A status of a command that has ended. -/
abbrev Finished (v : UInt8) : Prop := v &&& I2C_OC_STA_IF ≠ 0

/-- How a command ends. -/
inductive Answer
  | ack
  | nack
  | timeout
  deriving DecidableEq

/-- A command with the statuses that are read after it, and the byte that is fetched. -/
structure Step where
  cmd : Command
  statuses : List UInt8
  fetched : Option UInt8

namespace Step

/-- The accesses of a command. -/
def accesses (s : Step) : List Access :=
  s.cmd.sent.toList.map (.write I2C_OC_REG_TXRXR) ++
    [.write I2C_OC_REG_CRSR (s.cmd.bits ||| I2C_OC_CMD_IACK)] ++
    s.statuses.map (.read I2C_OC_REG_CRSR) ++ s.fetched.toList.map (.read I2C_OC_REG_TXRXR)

/-- The answer that the statuses give. -/
def answer (s : Step) : Answer :=
  match s.statuses.find? Finished with
  | none => .timeout
  | some v => if v &&& I2C_OC_STA_NACK = 0 then .ack else .nack

/-- The status is read until `I2C_OC_STA_IF` is set, or 1000 times, and a byte is fetched when it has
been read. -/
structure WellFormed (s : Step) : Prop where
  polls : ∀ v ∈ s.statuses.dropLast, ¬ Finished v
  ended : s.answer = .timeout → s.statuses.length = 1000
  polls_le : s.statuses.length ≤ 1000
  fetched : s.fetched.isSome ↔ s.cmd.IsRead ∧ s.answer = .ack

end Step

/-- The commands of `i2c_write`, but for the stop. -/
def writeCommands (addr : UInt8) (data : List UInt8) : List Command :=
  .start addr false :: data.map .write

/-- The commands of `i2c_write_then_read`, but for the stop: the last byte that is read, and no other,
is not acknowledged. -/
def writeThenReadCommands (addr : UInt8) (wdata : List UInt8) (rlen : ℕ) : List Command :=
  writeCommands addr wdata ++ .start addr true ::
    (List.range rlen).map fun i => .read (decide (i + 1 = rlen))

/-- Commands are given in order, and none after one that has failed. -/
structure Cut (plan : List Command) (steps : List Step) : Prop where
  wellFormed : ∀ s ∈ steps, s.WellFormed
  commands : steps.map Step.cmd <+: plan
  acked : ∀ s ∈ steps.dropLast, s.answer = .ack
  complete : (∀ s ∈ steps, s.answer = .ack) → steps.map Step.cmd = plan

/-- A part of a transaction: its commands, and the bytes that are fetched. -/
structure Runs (plan : List Command) (bus : List Access) (ok : Bool) (bus' : List Access)
    (steps : List Step) (bytes : List UInt8) : Prop where
  cut : Cut plan steps
  bus_eq : bus' = bus ++ steps.flatMap Step.accesses
  ok_iff : ok = true ↔ ∀ s ∈ steps, s.answer = .ack
  bytes_eq : steps.filterMap Step.fetched = bytes

/-- A transaction: its commands, and a stop behind them. -/
def Transaction (plan : List Command) (bus : List Access) (ok : Bool) (bus' : List Access)
    (bytes : List UInt8) : Prop :=
  ∃ (steps : List Step) (stop : Step) (mid : List Access), Runs plan bus ok mid steps bytes ∧
    stop.cmd = .stop ∧ stop.WellFormed ∧ bus' = mid ++ stop.accesses

/-! ## One command -/

variable {c} {bus bus' mid : List Access} {plan plan' : List Command} {steps steps' : List Step}
  {bytes bytes' : List UInt8} {ok : Bool} {s : Step}

/-- The statuses that are read. -/
theorem pollStatus_eq (c : Controller) (spins : ℕ) (bus : List Access) : ∃ statuses : List UInt8,
    pollStatus c spins bus = (statuses.find? Finished, bus ++ statuses.map (.read I2C_OC_REG_CRSR)) ∧
    (∀ v ∈ statuses.dropLast, ¬ Finished v) ∧ statuses.length ≤ spins ∧
    (statuses.find? Finished = none → statuses.length = spins) := by
  induction spins generalizing bus with
  | zero =>
    refine ⟨[], ?_, fun _ hv => absurd hv List.not_mem_nil, Nat.le_refl _, fun _ => rfl⟩
    rw [pollStatus, List.map_nil, List.append_nil]
    rfl
  | succ spins ih =>
    rw [pollStatus]
    dsimp only [r]
    generalize c bus I2C_OC_REG_CRSR = v
    by_cases hv : Finished v
    · refine ⟨[v], ?_, fun _ hv => absurd hv List.not_mem_nil, Nat.le_add_left .., ?_⟩
      · rw [if_pos hv, List.find?_cons_of_pos (by simpa using hv)]
        rfl
      · rw [List.find?_cons_of_pos (by simpa using hv)]
        exact fun h => by cases h
    · obtain ⟨statuses, heq, hpolls, hle, hnone⟩ := ih (bus ++ [.read I2C_OC_REG_CRSR v])
      refine ⟨v :: statuses, ?_, ?_, Nat.succ_le_succ hle, ?_⟩
      · rw [if_neg hv, heq, List.find?_cons_of_neg (by simpa using hv), List.append_assoc]
        rfl
      · intro v' hv'
        cases statuses with
        | nil => cases hv'
        | cons v₁ statuses =>
          rcases List.mem_cons.1 hv' with rfl | hv'
          · exact hv
          · exact hpolls v' hv'
      · rw [List.find?_cons_of_neg (by simpa using hv)]
        exact fun h => congrArg Nat.succ (hnone h)

/-- A command is given, without the byte that a read fetches. -/
def give (c : Controller) (bus : List Access) (cmd : Command) : Bool × List Access :=
  i2cCmd c (bus ++ cmd.sent.toList.map (.write I2C_OC_REG_TXRXR)) cmd.bits

/-- **One command**, with the statuses that follow. -/
theorem give_eq (c : Controller) (bus : List Access) (cmd : Command) : ∃ s : Step, s.cmd = cmd ∧
    s.fetched = none ∧ (∀ v ∈ s.statuses.dropLast, ¬ Finished v) ∧
    (s.answer = .timeout → s.statuses.length = 1000) ∧ s.statuses.length ≤ 1000 ∧
    give c bus cmd = (decide (s.answer = .ack), bus ++ s.accesses) := by
  obtain ⟨statuses, heq, hpolls, hle, hnone⟩ := pollStatus_eq c 1000
    (w (bus ++ cmd.sent.toList.map (.write I2C_OC_REG_TXRXR)) I2C_OC_REG_CRSR
      (cmd.bits ||| I2C_OC_CMD_IACK))
  refine ⟨⟨cmd, statuses, none⟩, rfl, rfl, hpolls, fun htimeout => ?_, hle, ?_⟩
  · refine hnone ?_
    unfold Step.answer at htimeout
    split at htimeout
    next h => exact h
    next => split at htimeout <;> cases htimeout
  · rw [give, i2cCmd, heq]
    unfold Step.answer Step.accesses
    cases statuses.find? Finished with
    | none => simp [w]
    | some v => by_cases hack : v &&& I2C_OC_STA_NACK = 0 <;> simp [w, hack]

/-- A command that sends a byte, or the stop. -/
theorem give_sends (c : Controller) (bus : List Access) (cmd : Command) (hcmd : ¬ cmd.IsRead) :
    ∃ s : Step, s.cmd = cmd ∧ s.fetched = none ∧ s.WellFormed ∧
      give c bus cmd = (decide (s.answer = .ack), bus ++ s.accesses) := by
  obtain ⟨s, rfl, hfetched, hpolls, hended, hle, heq⟩ := give_eq c bus cmd
  refine ⟨s, rfl, hfetched, ⟨hpolls, hended, hle, ?_⟩, heq⟩
  rw [hfetched]
  exact iff_of_false Bool.false_ne_true fun h => hcmd h.1

/-! ## Parts of a transaction -/

namespace Runs

theorem nil (bus : List Access) : Runs [] bus true bus [] [] where
  cut := ⟨fun _ h => absurd h List.not_mem_nil, List.nil_prefix,
    fun _ h => absurd h List.not_mem_nil, fun _ => rfl⟩
  bus_eq := (List.append_nil bus).symm
  ok_iff := iff_of_true rfl fun _ h => absurd h List.not_mem_nil
  bytes_eq := rfl

/-- A command fails. -/
theorem failed (hs : s.WellFormed) (hnot : s.answer ≠ .ack) (plan : List Command)
    (bus : List Access) : Runs (s.cmd :: plan) bus false (bus ++ s.accesses) [s] [] where
  cut := by
    refine ⟨?_, ?_, fun _ h => absurd h List.not_mem_nil,
      fun h => absurd (h s List.mem_cons_self) hnot⟩
    · simpa using hs
    · exact List.prefix_append [s.cmd] plan
  bus_eq := by rw [List.flatMap_singleton]
  ok_iff := iff_of_false Bool.false_ne_true fun h => hnot (h s List.mem_cons_self)
  bytes_eq := by
    have hnone : s.fetched = none := by
      rw [← Option.not_isSome_iff_eq_none, hs.fetched]
      exact fun h => hnot h.2
    rw [List.filterMap_cons_none hnone, List.filterMap_nil]

/-- A command is acknowledged, and others follow. -/
theorem cons (hs : s.WellFormed) (hack : s.answer = .ack)
    (h : Runs plan (bus ++ s.accesses) ok bus' steps bytes) :
    Runs (s.cmd :: plan) bus ok bus' (s :: steps) (s.fetched.toList ++ bytes) where
  cut := by
    refine ⟨?_, List.cons_prefix_cons.2 ⟨rfl, h.cut.commands⟩, fun s' hs' => ?_, fun hall => ?_⟩
    · exact List.forall_mem_cons.2 ⟨hs, h.cut.wellFormed⟩
    · cases steps with
      | nil => cases hs'
      | cons s₁ steps =>
        rcases List.mem_cons.1 hs' with rfl | hs'
        · exact hack
        · exact h.cut.acked s' hs'
    · rw [List.map_cons, h.cut.complete (List.forall_mem_cons.1 hall).2]
  bus_eq := by rw [h.bus_eq, List.flatMap_cons, List.append_assoc]
  ok_iff := by rw [h.ok_iff, List.forall_mem_cons, and_iff_right hack]
  bytes_eq := by
    rw [List.filterMap_cons, h.bytes_eq]
    cases s.fetched <;> rfl

/-- A part behind another one that has not failed. -/
theorem append (h : Runs plan bus true mid steps bytes) (h' : Runs plan' mid ok bus' steps' bytes') :
    Runs (plan ++ plan') bus ok bus' (steps ++ steps') (bytes ++ bytes') := by
  have hall := h.ok_iff.1 rfl
  have hplan := h.cut.complete hall
  refine ⟨⟨?_, ?_, fun s hs => ?_, fun hall' => ?_⟩, ?_, ?_, ?_⟩
  · exact List.forall_mem_append.2 ⟨h.cut.wellFormed, h'.cut.wellFormed⟩
  · rw [List.map_append, hplan]
    exact (List.prefix_append_right_inj plan).2 h'.cut.commands
  · cases steps' with
    | nil =>
      rw [List.append_nil] at hs
      exact h.cut.acked s hs
    | cons s' steps' =>
      rw [List.dropLast_append_cons] at hs
      exact (List.mem_append.1 hs).elim (hall s) (h'.cut.acked s)
  · rw [List.map_append, hplan, h'.cut.complete (List.forall_mem_append.1 hall').2]
  · rw [h'.bus_eq, h.bus_eq, List.flatMap_append, List.append_assoc]
  · rw [h'.ok_iff, List.forall_mem_append, and_iff_right hall]
  · rw [List.filterMap_append, h.bytes_eq, h'.bytes_eq]

/-- A part that has failed, of more commands. -/
theorem cut_short (h : Runs plan bus false bus' steps bytes) (plan' : List Command) :
    Runs (plan ++ plan') bus false bus' steps bytes where
  cut :=
    { h.cut with
      commands := h.cut.commands.trans (List.prefix_append ..)
      complete := fun hall => absurd (h.ok_iff.2 hall) Bool.false_ne_true }
  bus_eq := h.bus_eq
  ok_iff := h.ok_iff
  bytes_eq := h.bytes_eq

/-- A part, and the stop behind it. -/
theorem stop (h : Runs plan bus ok mid steps bytes) :
    Transaction plan bus ok (i2cStop c mid) bytes := by
  obtain ⟨s, hcmd, -, hs, hgive⟩ := give_sends c mid .stop id
  refine ⟨steps, s, mid, h, hcmd, hs, ?_⟩
  have hstop : give c mid .stop = i2cCmd c mid I2C_OC_CMD_STO := by
    rw [give]
    exact congrArg (i2cCmd c · I2C_OC_CMD_STO) (List.append_nil mid)
  rw [i2cStop, ← hstop, hgive]

end Runs

/-- One command that sends a byte, and what the code does next. -/
theorem runs_give (c : Controller) (bus : List Access) (cmd : Command) (hcmd : ¬ cmd.IsRead) :
    ∃ s : List Step, Runs [cmd] bus (give c bus cmd).1 (give c bus cmd).2 s [] := by
  obtain ⟨s, rfl, hfetched, hs, hgive⟩ := give_sends c bus cmd hcmd
  rw [hgive]
  by_cases hack : s.answer = .ack
  · have hruns := Runs.cons hs hack (Runs.nil (bus ++ s.accesses))
    rw [hfetched, Option.toList_none, List.append_nil] at hruns
    rw [decide_eq_true hack]
    exact ⟨[s], hruns⟩
  · rw [decide_eq_false hack]
    exact ⟨[s], Runs.failed hs hack [] bus⟩

theorem give_write (bus : List Access) (v : UInt8) :
    give c bus (.write v) = sendByte c bus v I2C_OC_CMD_WR := rfl

theorem give_start (bus : List Access) (addr : UInt8) (reads : Bool) :
    give c bus (.start addr reads) =
      sendByte c bus ((addr <<< 1) ||| if reads then 1 else 0)
        (I2C_OC_CMD_STA ||| I2C_OC_CMD_WR) := rfl

/-- **The loop over the data** gives a command for each byte. -/
theorem runs_writeLoop (c : Controller) (data : List UInt8) (bus : List Access) : ∃ steps,
    Runs (data.map .write) bus (writeLoop c data bus).1 (writeLoop c data bus).2 steps [] := by
  induction data generalizing bus with
  | nil => exact ⟨[], .nil bus⟩
  | cons b data ih =>
    obtain ⟨steps, hgive⟩ := runs_give c bus (.write b) id
    rw [give_write] at hgive
    rw [writeLoop]
    generalize sendByte c bus b I2C_OC_CMD_WR = sent at hgive ⊢
    obtain ⟨ok, mid⟩ := sent
    cases ok with
    | true =>
      obtain ⟨steps', hrest⟩ := ih mid
      have hruns := hgive.append hrest
      exact ⟨_, hruns⟩
    | false =>
      have hruns := hgive.cut_short (data.map .write)
      exact ⟨_, hruns⟩

/-- **The write phase.** -/
theorem runs_writePhase (c : Controller) (addr : UInt8) (data : List UInt8) (bus : List Access) :
    ∃ steps, Runs (writeCommands addr data) bus (writePhase c addr data bus).1
      (writePhase c addr data bus).2 steps [] := by
  obtain ⟨steps, hgive⟩ := runs_give c bus (.start addr false) id
  rw [give_start, if_neg Bool.false_ne_true] at hgive
  rw [writePhase]
  generalize sendByte c bus ((addr <<< 1) ||| 0) _ = sent at hgive ⊢
  obtain ⟨ok, mid⟩ := sent
  cases ok with
  | true =>
    obtain ⟨steps', hrest⟩ := runs_writeLoop c data mid
    have hruns := hgive.append hrest
    exact ⟨_, hruns⟩
  | false =>
    have hruns := hgive.cut_short (data.map .write)
    exact ⟨_, hruns⟩

/-- The commands of the read phase, from byte `i` on. -/
def readCommands (rlen left i : ℕ) : List Command :=
  (List.range' i left).map fun i => .read (decide (i + 1 = rlen))

theorem give_read (c : Controller) (bus : List Access) (last : Prop) [Decidable last] :
    give c bus (.read (decide last)) =
      i2cCmd c bus (if last then I2C_OC_CMD_RD ||| I2C_OC_CMD_NACK else I2C_OC_CMD_RD) := by
  rw [give, Command.bits]
  simp only [decide_eq_true_eq]
  exact congrArg (i2cCmd c · _) (List.append_nil bus)

/-- Bytes are stored one after the other. -/
theorem stored_cons (rdata : ℕ → UInt8) (v : UInt8) (bytes : List UInt8) (i k : ℕ) :
    (if i + 1 ≤ k then bytes.getD (k - (i + 1)) (Function.update rdata i v k)
      else Function.update rdata i v k) =
      if i ≤ k then (v :: bytes).getD (k - i) (rdata k) else rdata k := by
  by_cases hk : k = i
  · subst hk
    rw [if_neg (by omega), Function.update_self, if_pos (Nat.le_refl k), Nat.sub_self]
    rfl
  · rw [Function.update_of_ne hk]
    by_cases hik : i ≤ k
    · obtain ⟨d, rfl⟩ := Nat.exists_eq_add_of_le hik
      obtain ⟨d, rfl⟩ : ∃ e, d = e + 1 := ⟨d - 1, by omega⟩
      rw [if_pos hik, if_pos (by omega), show i + (d + 1) - (i + 1) = d by omega,
        Nat.add_sub_cancel_left]
      rfl
    · rw [if_neg hik, if_neg (by omega)]

/-- **The read phase** stores the bytes that are fetched, one after the other. -/
theorem runs_readLoop (c : Controller) (rlen left i : ℕ) (rdata : ℕ → UInt8) (bus : List Access) :
    ∃ steps bytes,
      Runs (readCommands rlen left i) bus (readLoop c rlen left i rdata bus).1
        (readLoop c rlen left i rdata bus).2.2 steps bytes ∧
      ∀ k, (readLoop c rlen left i rdata bus).2.1 k =
        if i ≤ k then bytes.getD (k - i) (rdata k) else rdata k := by
  induction left generalizing i rdata bus with
  | zero =>
    refine ⟨[], [], .nil bus, fun k => ?_⟩
    rw [List.getD_nil, ite_self]
    rfl
  | succ left ih =>
    obtain ⟨s, hcmd, hfetched, hpolls, hended, hle, hgive⟩ :=
      give_eq c bus (.read (decide (i + 1 = rlen)))
    rw [give_read] at hgive
    rw [readLoop]
    dsimp only
    rw [hgive]
    dsimp only
    have hplan : readCommands rlen (left + 1) i =
        s.cmd :: readCommands rlen left (i + 1) := by rw [hcmd]; rfl
    rw [hplan]
    by_cases hack : s.answer = .ack
    · rw [if_pos (decide_eq_true hack)]
      dsimp only [r]
      generalize hv : c (bus ++ s.accesses) I2C_OC_REG_TXRXR = v
      -- the step with the byte that has been fetched
      have hbus : bus ++ s.accesses ++ [.read I2C_OC_REG_TXRXR v] =
          bus ++ { s with fetched := some v : Step }.accesses := by
        simp [Step.accesses, hfetched]
      rw [hbus]
      obtain ⟨steps, bytes, hruns, hdata⟩ := ih (i + 1) (Function.update rdata i v)
        (bus ++ { s with fetched := some v : Step }.accesses)
      have hs : { s with fetched := some v : Step }.WellFormed :=
        ⟨hpolls, hended, hle, iff_of_true rfl ⟨by rw [hcmd]; trivial, hack⟩⟩
      have hcons := Runs.cons (s := { s with fetched := some v }) hs hack hruns
      refine ⟨_, _, hcons, fun k => ?_⟩
      rw [hdata]
      exact stored_cons rdata v bytes i k
    · rw [if_neg (by simpa using hack)]
      have hs : s.WellFormed := by
        refine ⟨hpolls, hended, hle, ?_⟩
        rw [hfetched]
        exact iff_of_false Bool.false_ne_true fun h => hack h.2
      refine ⟨[s], [], Runs.failed hs hack _ bus, fun k => ?_⟩
      rw [List.getD_nil, ite_self]

/-! ## Main results -/

theorem i2cWrite_transaction (c : Controller) (addr : UInt8) (data : List UInt8)
    (bus : List Access) :
    Transaction (writeCommands addr data) bus (i2cWrite c addr data bus).1
      (i2cWrite c addr data bus).2 [] := by
  obtain ⟨steps, hruns⟩ := runs_writePhase c addr data bus
  exact hruns.stop

theorem i2cWriteThenRead_transaction (c : Controller) (addr : UInt8) (wdata : List UInt8)
    (rdata : ℕ → UInt8) (rlen : ℕ) (bus : List Access) : ∃ bytes,
    Transaction (writeThenReadCommands addr wdata rlen) bus
      (i2cWriteThenRead c addr wdata rdata rlen bus).1
      (i2cWriteThenRead c addr wdata rdata rlen bus).2.2 bytes ∧
    ∀ i, (i2cWriteThenRead c addr wdata rdata rlen bus).2.1 i = bytes.getD i (rdata i) := by
  obtain ⟨steps, hwrite⟩ := runs_writePhase c addr wdata bus
  rw [i2cWriteThenRead, writeThenReadCommands]
  generalize writePhase c addr wdata bus = written at hwrite ⊢
  obtain ⟨ok, mid⟩ := written
  cases ok with
  | false => exact ⟨[], (hwrite.cut_short _).stop, fun _ => rfl⟩
  | true =>
    obtain ⟨steps', hstart⟩ := runs_give c mid (.start addr true) id
    rw [give_start, if_pos rfl] at hstart
    dsimp only
    rw [if_pos rfl]
    generalize sendByte c mid ((addr <<< 1) ||| 1) _ = sent at hstart ⊢
    obtain ⟨ok, mid'⟩ := sent
    have hboth := hwrite.append hstart
    cases ok with
    | false =>
      have hruns := hboth.cut_short (readCommands rlen rlen 0)
      rw [List.append_assoc, readCommands, ← List.range_eq_range'] at hruns
      exact ⟨[], hruns.stop, fun _ => rfl⟩
    | true =>
      obtain ⟨steps'', bytes, hread, hdata⟩ := runs_readLoop c rlen rlen 0 rdata mid'
      have hruns := hboth.append hread
      rw [List.append_assoc, readCommands, ← List.range_eq_range'] at hruns
      refine ⟨bytes, hruns.stop, fun i => ?_⟩
      dsimp only
      rw [if_pos rfl, hdata, if_pos (Nat.zero_le i), Nat.sub_zero]

end RvvmHal.I2c
