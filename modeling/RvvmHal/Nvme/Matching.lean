import RvvmHal.Nvme.Queue

/-!
# Matching completions to commands

The completion queue of `Queue` with its submission queue: commands are submitted with the next
`cmd_id`, the controller fetches them in order and completes any command it has fetched, at any
later time and with any status. `submit_and_wait` takes the next completion for that of the command
it has just submitted, and does not look at its CID.

While every call finds the queue settled, that is as many completions consumed as commands
submitted, this is the right completion (`returned_matched`). The queue is never settled again
after a call that gave up: the completion of the abandoned command, when it comes, is taken for that
of the next command (`late_completion_mismatch`).
-/

namespace RvvmHal.Nvme

open Bytes

/-! ## The machine -/

/-- A return of `submit_and_wait`: the CID of the command it submitted, the status it returned,
and the index of the completion it took, if it took one. -/
structure Returned where
  cid : ℕ
  status : ℕ
  taken : Option ℕ
  deriving DecidableEq

/-- A queue pair: the completion queue, the submission queue with the driver's tail and the
controller's head, the CIDs of the commands that the controller has fetched and not completed, and
the histories of submissions and returns. -/
structure Qp where
  cq : Cq
  sq : Mem
  sqTail : ℕ
  cmdId : ℕ
  sqHead : ℕ
  inflight : List ℕ
  submitted : List ℕ
  returned : List Returned

/-- The CID of the command that the driver has submitted last. -/
def Qp.current (s : Qp) : ℕ := s.submitted.getLastD 0

/-- The steps of a queue pair. `submit` carries the 64 bytes that `admin_cmd` or `io_cmd` puts
into the slot, whose CID field is then `cmd_id`; `other` is a command on the other queue, which
takes a `cmd_id` as well. -/
inductive QpAct
  | submit (body : List UInt8)
  | other
  | poll
  | giveUp
  | ringHead
  | fetch
  | complete (e : Cqe)

/-- The CID in a slot of the submission queue. -/
def Qp.slotCid (s : Qp) (i : ℕ) : ℕ := readLe s.sq (i * 64 + sqeCid) 2

/-- A command is put into the slot at the tail and its doorbell is rung. -/
def Qp.submit (s : Qp) (body : List UInt8) : Option Qp :=
  if body.length = 64 then
    s.cq.enter.map fun cq => { s with
      cq := cq
      sq := sqeW16 (writeBytes s.sq (s.sqTail * 64) body) (s.sqTail * 64) sqeCid s.cmdId
      sqTail := (s.sqTail + 1) % queueDepth
      cmdId := (s.cmdId + 1) % 2 ^ 16
      submitted := s.submitted ++ [s.cmdId] }
  else none

/-- The other queue takes a `cmd_id`. -/
def Qp.other (s : Qp) : Option Qp :=
  if s.cq.pc = .idle then some { s with cmdId := (s.cmdId + 1) % 2 ^ 16 } else none

/-- `submit_and_wait` gives up and returns. -/
def Qp.giveUp (s : Qp) : Option Qp :=
  s.cq.giveUp.map fun cq => { s with
    cq := cq
    returned := s.returned ++ [⟨s.current, timeoutStatus, none⟩] }

/-- The head doorbell is rung and `submit_and_wait` returns the status it has read. -/
def Qp.ringHead (s : Qp) : Option Qp :=
  match s.cq.pc with
  | .ring status => s.cq.ringHead.map fun cq => { s with
      cq := cq
      returned := s.returned ++ [⟨s.current, status, some (s.cq.consumed.length - 1)⟩] }
  | _ => none

/-- The controller fetches the command at its head. -/
def Qp.fetch (s : Qp) : Option Qp :=
  if s.sqHead = s.sqTail then none
  else some { s with
    sqHead := (s.sqHead + 1) % queueDepth
    inflight := s.inflight ++ [s.slotCid s.sqHead] }

/-- The controller completes one of the commands it has fetched. -/
def Qp.complete (s : Qp) (e : Cqe) : Option Qp :=
  if e.cid ∈ s.inflight then
    (s.cq.post e).map fun cq => { s with cq := cq, inflight := s.inflight.erase e.cid }
  else none

/-- A queue pair after `nvme_init_nth` has set it up. -/
def qpInit : Qp where
  cq := cqInit
  sq := fun _ => 0
  sqTail := 0
  cmdId := 1
  sqHead := 0
  inflight := []
  submitted := []
  returned := []

/-- **The queue pair** of one driver and one controller. -/
def qpMachine : Machine Qp QpAct where
  init := qpInit
  step
    | .submit body, s => s.submit body
    | .other, s => s.other
    | .poll, s => s.cq.pollOnce.map fun cq => { s with cq := cq }
    | .giveUp, s => s.giveUp
    | .ringHead, s => s.ringHead
    | .fetch, s => s.fetch
    | .complete e, s => s.complete e

/-! ## What each step does -/

theorem Qp.submit_eq {s s' : Qp} {body : List UInt8} (h : s.submit body = some s') :
    body.length = 64 ∧ ∃ cq, s.cq.enter = some cq ∧ s' = { s with
      cq := cq
      sq := sqeW16 (writeBytes s.sq (s.sqTail * 64) body) (s.sqTail * 64) sqeCid s.cmdId
      sqTail := (s.sqTail + 1) % queueDepth
      cmdId := (s.cmdId + 1) % 2 ^ 16
      submitted := s.submitted ++ [s.cmdId] } := by
  rw [Qp.submit] at h
  split at h
  · obtain ⟨cq, hcq, rfl⟩ := Option.map_eq_some_iff.1 h
    exact ⟨by assumption, cq, hcq, rfl⟩
  · cases h

theorem Qp.other_eq {s s' : Qp} (h : s.other = some s') :
    s.cq.pc = .idle ∧ s' = { s with cmdId := (s.cmdId + 1) % 2 ^ 16 } := by
  rw [Qp.other] at h
  split at h
  · exact ⟨by assumption, (Option.some.inj h).symm⟩
  · cases h

theorem Qp.giveUp_eq {s s' : Qp} (h : s.giveUp = some s') :
    ∃ cq, s.cq.giveUp = some cq ∧ s' = { s with
      cq := cq
      returned := s.returned ++ [⟨s.current, timeoutStatus, none⟩] } := by
  obtain ⟨cq, hcq, rfl⟩ := Option.map_eq_some_iff.1 h
  exact ⟨cq, hcq, rfl⟩

theorem Qp.ringHead_eq {s s' : Qp} (h : s.ringHead = some s') :
    ∃ status cq, s.cq.pc = .ring status ∧ s.cq.ringHead = some cq ∧ s' = { s with
      cq := cq
      returned := s.returned ++ [⟨s.current, status, some (s.cq.consumed.length - 1)⟩] } := by
  rw [Qp.ringHead] at h
  split at h
  · obtain ⟨cq, hcq, rfl⟩ := Option.map_eq_some_iff.1 h
    exact ⟨_, cq, by assumption, hcq, rfl⟩
  · cases h

theorem Qp.fetch_eq {s s' : Qp} (h : s.fetch = some s') :
    s.sqHead ≠ s.sqTail ∧ s' = { s with
      sqHead := (s.sqHead + 1) % queueDepth
      inflight := s.inflight ++ [s.slotCid s.sqHead] } := by
  rw [Qp.fetch] at h
  split at h
  · cases h
  · exact ⟨by assumption, (Option.some.inj h).symm⟩

theorem Qp.complete_eq {s s' : Qp} {e : Cqe} (h : s.complete e = some s') :
    e.cid ∈ s.inflight ∧ ∃ cq, s.cq.post e = some cq ∧
      s' = { s with cq := cq, inflight := s.inflight.erase e.cid } := by
  rw [Qp.complete] at h
  split at h
  · obtain ⟨cq, hcq, rfl⟩ := Option.map_eq_some_iff.1 h
    exact ⟨by assumption, cq, hcq, rfl⟩
  · cases h

/-- **The queue pair refines the completion queue**: its controller posts no completion that a
controller of `cqMachine` could not post. -/
theorem Qp.cq_reachable {s : Qp} (h : qpMachine.Reachable s) : cqMachine.Reachable s.cq := by
  refine h.map (N := cqMachine) Qp.cq rfl fun {s s' a} hs => ?_
  cases a with
  | submit body =>
    obtain ⟨-, cq, hcq, rfl⟩ := Qp.submit_eq hs
    exact Or.inr ⟨.enter, hcq⟩
  | other =>
    obtain ⟨-, rfl⟩ := Qp.other_eq hs
    exact Or.inl rfl
  | poll =>
    obtain ⟨cq, hcq, rfl⟩ := Option.map_eq_some_iff.1 hs
    exact Or.inr ⟨.poll, hcq⟩
  | giveUp =>
    obtain ⟨cq, hcq, rfl⟩ := Qp.giveUp_eq hs
    exact Or.inr ⟨.giveUp, hcq⟩
  | ringHead =>
    obtain ⟨-, cq, -, hcq, rfl⟩ := Qp.ringHead_eq hs
    exact Or.inr ⟨.ringHead, hcq⟩
  | fetch =>
    obtain ⟨-, rfl⟩ := Qp.fetch_eq hs
    exact Or.inl rfl
  | complete e =>
    obtain ⟨-, cq, hcq, rfl⟩ := Qp.complete_eq hs
    exact Or.inr ⟨.post e, hcq⟩

theorem Qp.slotCid_submit (m : Mem) (i : ℕ) (body : List UInt8) {cid : ℕ} (h : cid < 2 ^ 16) :
    readLe (sqeW16 (writeBytes m (i * 64) body) (i * 64) sqeCid cid) (i * 64 + sqeCid) 2 = cid := by
  rw [sqeW16_eq, readLe_writeBytes_leBytes _ _ h]

/-! ## Settled and pending commands -/

/-- Every return other than a timeout carries the status of the completion that was taken, and
that completion carries the CID of the command. -/
def Matched (s : Qp) : Prop :=
  ∀ r ∈ s.returned, r.status ≠ timeoutStatus →
    ∃ j e, r.taken = some j ∧ s.cq.posted[j]? = some e ∧ e.cid = r.cid ∧ e.status = r.status

/-- All commands have been completed, and their completions consumed. -/
structure Settled (s : Qp) : Prop where
  submitted_eq : s.submitted.length = s.cq.consumed.length
  posted_eq : s.cq.posted.length = s.cq.consumed.length
  inflight_eq : s.inflight = []
  sqHead_eq : s.sqHead = s.sqTail

/-- All commands but the last one are settled; that one is in its slot, or with the controller, or
completed. -/
structure Pending (s : Qp) : Prop where
  submitted_eq : s.submitted.length = s.cq.consumed.length + 1
  where_ : (s.cq.posted.length = s.cq.consumed.length ∧ s.inflight = [] ∧
      (s.sqHead + 1) % queueDepth = s.sqTail ∧ s.slotCid s.sqHead = s.current) ∨
    (s.cq.posted.length = s.cq.consumed.length ∧ s.inflight = [s.current] ∧ s.sqHead = s.sqTail) ∨
    (s.inflight = [] ∧ s.sqHead = s.sqTail ∧
      ∃ e, s.cq.posted[s.cq.consumed.length]? = some e ∧ e.cid = s.current ∧
        s.cq.posted.length = s.cq.consumed.length + 1)

/-- Where the commands are at each point of the driver. -/
def Tracked (s : Qp) : Prop :=
  match s.cq.pc with
  | .idle => Settled s ∨ Pending s
  | .poll _ => Pending s
  | .ring status => Settled s ∧ ∃ e, s.cq.posted[s.cq.consumed.length - 1]? = some e ∧
      e.cid = s.current ∧ e.status = status

/-- The invariant of runs that submit to a settled queue only. -/
structure QpInv (s : Qp) : Prop where
  cq : CqInv s.cq
  sqHead_lt : s.sqHead < queueDepth
  sqTail_lt : s.sqTail < queueDepth
  cmdId_lt : s.cmdId < 2 ^ 16
  tracked : Tracked s
  matched : Matched s

/-- A step that a settled queue does not allow, and that keeps a command pending. -/
theorem Tracked.of_pending {s s' : Qp} (hpc : s'.cq.pc = s.cq.pc) (hs : ¬ Settled s)
    (hp : Pending s → Pending s') (h : Tracked s) : Tracked s' := by
  rw [Tracked] at h ⊢
  rw [hpc]
  cases hpc' : s.cq.pc with
  | idle =>
    rw [hpc'] at h
    exact Or.inr (hp (h.resolve_left hs))
  | poll spin =>
    rw [hpc'] at h
    exact hp h
  | ring status =>
    rw [hpc'] at h
    exact absurd h.1 hs

theorem Matched.mono {s s' : Qp} (hr : s'.returned = s.returned)
    (hp : s.cq.posted <+: s'.cq.posted) (h : Matched s) : Matched s' := by
  intro r hmem hst
  obtain ⟨j, e, htaken, hj, hcid, hstatus⟩ := h r (hr ▸ hmem) hst
  obtain ⟨late, hlate⟩ := hp
  obtain ⟨hlt, -⟩ := List.getElem?_eq_some_iff.1 hj
  refine ⟨j, e, htaken, ?_, hcid, hstatus⟩
  rw [← hlate, List.getElem?_append_left hlt, hj]

theorem Matched.append {s s' : Qp} {r : Returned} (hr : s'.returned = s.returned ++ [r])
    (hp : s'.cq.posted = s.cq.posted) (h : Matched s)
    (hnew : r.status ≠ timeoutStatus →
      ∃ j e, r.taken = some j ∧ s.cq.posted[j]? = some e ∧ e.cid = r.cid ∧ e.status = r.status) :
    Matched s' := by
  intro r' hmem hst
  rw [hp]
  rw [hr, List.mem_append, List.mem_singleton] at hmem
  rcases hmem with hmem | rfl
  · exact h r' hmem hst
  · exact hnew hst

/-- Commands are submitted only while the queue is settled. -/
def OnlyWhenSettled : QpAct → Qp → Prop
  | .submit _, s => s.submitted.length = s.cq.consumed.length
  | _, _ => True

namespace QpInv

variable {s s' : Qp}

theorem init : QpInv qpInit where
  cq := CqInv.init
  sqHead_lt := by decide
  sqTail_lt := by decide
  cmdId_lt := by decide
  tracked := Or.inl ⟨rfl, rfl, rfl, rfl⟩
  matched := by simp [Matched, qpInit]

theorem submit {body : List UInt8} (hi : QpInv s)
    (hok : s.submitted.length = s.cq.consumed.length) (h : s.submit body = some s') : QpInv s' := by
  obtain ⟨-, cq, hcq, rfl⟩ := Qp.submit_eq h
  have hinv := hi.cq.enter hcq
  obtain ⟨hpc, rfl⟩ := Cq.enter_eq hcq
  have ht := hi.tracked
  rw [Tracked, hpc] at ht
  have hset : Settled s := ht.resolve_right fun hp => by
    have := hp.submitted_eq
    omega
  exact {
    cq := hinv
    sqHead_lt := hi.sqHead_lt
    sqTail_lt := Nat.mod_lt _ (by decide)
    cmdId_lt := Nat.mod_lt _ (by decide)
    tracked := by
      refine ⟨by simp [hok], Or.inl ⟨hset.posted_eq, hset.inflight_eq, by simp [hset.sqHead_eq], ?_⟩⟩
      simp only [Qp.slotCid, Qp.current, hset.sqHead_eq, Qp.slotCid_submit _ _ _ hi.cmdId_lt,
        List.getLastD_concat]
    matched := hi.matched.mono rfl (List.prefix_refl _) }

theorem other (hi : QpInv s) (h : s.other = some s') : QpInv s' := by
  obtain ⟨hpc, rfl⟩ := Qp.other_eq h
  have ht := hi.tracked
  rw [Tracked, hpc] at ht
  refine { hi with cmdId_lt := Nat.mod_lt _ (by decide), tracked := ?_ }
  rw [Tracked, hpc]
  exact ht.imp (fun h => ⟨h.1, h.2, h.3, h.4⟩) fun h => ⟨h.1, h.2⟩

theorem poll {cq : Cq} (hi : QpInv s) (h : s.cq.pollOnce = some cq) :
    QpInv { s with cq := cq } := by
  have hinv := hi.cq.pollOnce h
  obtain ⟨spin, hpc, -, ⟨hready, rfl⟩ | ⟨-, rfl⟩⟩ := Cq.pollOnce_cases h
  · -- the waiting entry is the completion of the pending command
    have hlt := hi.cq.entryReady_iff.1 hready
    have ht := hi.tracked
    rw [Tracked, hpc] at ht
    obtain ⟨hsub, ⟨hpost, -⟩ | ⟨hpost, -⟩ | ⟨hfl, hsq, e, he, hcid, hlen⟩⟩ := ht
    · omega
    · omega
    obtain ⟨_, hget⟩ := List.getElem?_eq_some_iff.1 he
    have hstatus : cqeStatus s.cq.peek = e.status := by
      rw [hi.cq.peek_of_lt hlt, cqeStatus_dword, hget]
    exact {
      cq := hinv
      sqHead_lt := hi.sqHead_lt
      sqTail_lt := hi.sqTail_lt
      cmdId_lt := hi.cmdId_lt
      tracked := ⟨⟨by simpa using hsub, by simpa using hlen, hfl, hsq⟩, e, by simpa using he, hcid,
        hstatus.symm⟩
      matched := hi.matched.mono rfl (List.prefix_refl _) }
  · have ht := hi.tracked
    rw [Tracked, hpc] at ht
    exact { hi with cq := hinv, tracked := ⟨ht.1, ht.2⟩ }

theorem giveUp (hi : QpInv s) (h : s.giveUp = some s') : QpInv s' := by
  obtain ⟨cq, hcq, rfl⟩ := Qp.giveUp_eq h
  have hinv := hi.cq.giveUp hcq
  obtain ⟨hpc, rfl⟩ := Cq.giveUp_eq hcq
  have ht := hi.tracked
  rw [Tracked, hpc] at ht
  exact { hi with
    cq := hinv
    tracked := Or.inr ⟨ht.1, ht.2⟩
    matched := hi.matched.append rfl rfl fun hne => absurd rfl hne }

theorem ringHead (hi : QpInv s) (h : s.ringHead = some s') : QpInv s' := by
  obtain ⟨status, cq, hpc, hcq, rfl⟩ := Qp.ringHead_eq h
  have hinv := hi.cq.ringHead hcq
  obtain ⟨-, -, rfl⟩ := Cq.ringHead_eq hcq
  have ht := hi.tracked
  rw [Tracked, hpc] at ht
  obtain ⟨hset, e, he, hcid, hstatus⟩ := ht
  exact { hi with
    cq := hinv
    tracked := Or.inl ⟨hset.1, hset.2, hset.3, hset.4⟩
    matched := hi.matched.append rfl rfl fun _ => ⟨_, e, rfl, he, hcid, hstatus⟩ }

theorem fetch (hi : QpInv s) (h : s.fetch = some s') : QpInv s' := by
  obtain ⟨hne, rfl⟩ := Qp.fetch_eq h
  refine { hi with
    sqHead_lt := Nat.mod_lt _ (by decide)
    tracked := Tracked.of_pending (s := s) rfl (fun hset => hne hset.sqHead_eq)
      (fun hp => ⟨hp.1, ?_⟩) hi.tracked }
  rcases hp.where_ with ⟨hpost, hfl, hsq, hslot⟩ | ⟨-, -, hsq⟩ | ⟨-, hsq, -⟩
  · exact Or.inr (Or.inl ⟨hpost, by simp [hfl, hslot, Qp.current], hsq⟩)
  · exact absurd hsq hne
  · exact absurd hsq hne

theorem complete {e : Cqe} (hi : QpInv s) (h : s.complete e = some s') : QpInv s' := by
  obtain ⟨hmem, cq, hcq, rfl⟩ := Qp.complete_eq h
  have hinv := hi.cq.post hcq
  obtain ⟨-, rfl⟩ := Cq.post_eq hcq
  refine { hi with
    cq := hinv
    tracked := Tracked.of_pending (s := s) rfl
      (fun hset => by rw [hset.inflight_eq] at hmem; cases hmem)
      (fun hp => ⟨hp.1, ?_⟩) hi.tracked
    matched := Matched.mono (s := s) rfl (List.prefix_append _ _) hi.matched }
  rcases hp.where_ with ⟨-, hfl, -⟩ | ⟨hpost, hfl, hsq⟩ | ⟨hfl, -⟩
  · rw [hfl] at hmem
    cases hmem
  · rw [hfl, List.mem_singleton] at hmem
    exact Or.inr (Or.inr ⟨by simp [hfl, hmem], hsq, e, by simp [hpost], hmem, by simp [hpost]⟩)
  · rw [hfl] at hmem
    cases hmem

theorem step {a : QpAct} (hi : QpInv s) (hok : OnlyWhenSettled a s)
    (h : qpMachine.step a s = some s') : QpInv s' := by
  cases a with
  | submit body => exact hi.submit hok h
  | other => exact hi.other h
  | poll =>
    obtain ⟨cq, hcq, rfl⟩ := Option.map_eq_some_iff.1 h
    exact hi.poll hcq
  | giveUp => exact hi.giveUp h
  | ringHead => exact hi.ringHead h
  | fetch => exact hi.fetch h
  | complete e => exact hi.complete h

end QpInv

/-- **Completions match while the queue is settled at every submission**: in every run whose
commands are all submitted when no earlier call on the queue has given up, every status returned is
that of the command's own completion. -/
theorem returned_matched {s : Qp} (h : qpMachine.ReachableBy OnlyWhenSettled s) : Matched s :=
  (h.invariant (I := QpInv) QpInv.init fun hi hok hs => hi.step hok hs).matched

/-- What follows the submission of a command that completes in time. -/
def inTime : List QpAct := [.fetch, .complete firstCqe, .poll, .ringHead]

theorem returned_matched_inTime :
    ∃ s, qpMachine.run (.submit (List.replicate 64 0) :: inTime) qpInit = some s ∧
      s.returned = [⟨1, 0, some 0⟩] ∧ Matched s := by
  have hsubmit : qpMachine.ReachableBy OnlyWhenSettled _ :=
    .step (a := .submit (List.replicate 64 0)) .init rfl rfl
  have hok : ∀ a ∈ inTime, ∀ t, OnlyWhenSettled a t := by
    intro a ha t
    simp only [inTime, List.mem_cons, List.not_mem_nil, or_false] at ha
    rcases ha with rfl | rfl | rfl | rfl <;> trivial
  exact ⟨_, rfl, rfl, returned_matched (hsubmit.of_run hok rfl)⟩

/-! ## A late completion -/

/-- The queue pair in the poll loop of its first command, which the controller does not answer. -/
def unanswered (spin : ℕ) : Qp :=
  { qpInit with
    cq := { cqInit with pc := .poll spin }
    sq := sqeW16 (writeBytes (fun _ => 0) 0 (List.replicate 64 0)) 0 sqeCid 1
    sqTail := 1
    cmdId := 2
    submitted := [1] }

theorem unanswered_poll {spin : ℕ} (h : spin < spinLimit) :
    qpMachine.step .poll (unanswered spin) = some (unanswered (spin + 1)) := by
  have hempty : ¬ (unanswered spin).cq.EntryReady := show ¬ cqInit.EntryReady by decide
  have hpoll : (unanswered spin).cq.pollOnce = some (unanswered (spin + 1)).cq := by
    rw [Cq.pollOnce, show (unanswered spin).cq.pc = .poll spin from rfl]
    simp only [if_pos h, if_neg hempty]
    rfl
  exact congrArg (Option.map fun cq => { unanswered spin with cq := cq }) hpoll

theorem unanswered_polls {n : ℕ} (h : n ≤ spinLimit) :
    qpMachine.run (List.replicate n .poll) (unanswered 0) = some (unanswered n) := by
  have hrun := Machine.run_replicate (M := qpMachine) unanswered .poll n 0 fun i _ hi =>
    unanswered_poll (show i < spinLimit by omega)
  rwa [Nat.zero_add] at hrun

/-- The queue pair after `submit_and_wait` has given up on its first command. -/
def abandoned : Qp :=
  { unanswered 0 with
    cq := cqInit
    returned := [⟨1, timeoutStatus, none⟩] }

theorem unanswered_giveUp : qpMachine.step .giveUp (unanswered spinLimit) = some abandoned := by
  have hpc : (unanswered spinLimit).cq.pc = .poll spinLimit := rfl
  have hcq : (unanswered spinLimit).cq.giveUp = some cqInit := by
    rw [Cq.giveUp, if_pos hpc]
    rfl
  exact congrArg (Option.map fun cq => { unanswered spinLimit with
    cq := cq
    returned := [⟨1, timeoutStatus, none⟩] }) hcq

/-- The first command is completed after `submit_and_wait` has given up on it, and the second one
is submitted. -/
def lateThenNext : List QpAct :=
  [.fetch, .complete firstCqe, .submit (List.replicate 64 0), .poll, .ringHead]

/-- **A late completion is taken for the next command's**: the second command returns success, the
controller has not fetched it, and the completion taken carries the CID of the first. -/
theorem late_completion_mismatch : ∃ s, qpMachine.Reachable s ∧ ¬ Matched s := by
  have hsubmit : qpMachine.Reachable (unanswered 0) :=
    .step (a := .submit (List.replicate 64 0)) .init trivial rfl
  have hpolls := hsubmit.of_run (fun _ _ _ => trivial) (unanswered_polls (Nat.le_refl spinLimit))
  have habandoned : qpMachine.Reachable abandoned := .step hpolls trivial unanswered_giveUp
  obtain ⟨s, hrun, hreturned, hposted⟩ : ∃ s, qpMachine.run lateThenNext abandoned = some s ∧
      s.returned = [⟨1, timeoutStatus, none⟩, ⟨2, 0, some 0⟩] ∧
      s.cq.posted = [firstCqe] := ⟨_, rfl, rfl, rfl⟩
  refine ⟨s, habandoned.of_run (fun _ _ _ => trivial) hrun, fun hm => ?_⟩
  obtain ⟨j, e, hj, he, hcid, -⟩ := hm ⟨2, 0, some 0⟩ (by simp [hreturned]) (by decide)
  obtain rfl := Option.some.inj hj
  rw [hposted] at he
  obtain rfl := Option.some.inj he
  exact absurd hcid (by decide)

end RvvmHal.Nvme
