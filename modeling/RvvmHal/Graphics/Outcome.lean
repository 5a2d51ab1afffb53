import RvvmHal.Foundations.EachStep
import RvvmHal.Graphics.Display

/-!
# The outcome of the display's commands

Runs of `gpu_cmd_sync`, and the four commands with which `virtio_gpu_init_fdt` sets the mode,
against a device that answers each command with any number of bytes. The last three commands of the
bring-up share one response header on the stack, so a response that is too short to have a type is
taken for the one before it: the bring-up then succeeds without the command
(`empty_response_accepted`). What is reported as success is one exactly when every response has the
bytes of a type, or leaves no type of success in the buffer (`gpu_outcome_iff`).
-/

namespace RvvmHal.Graphics

open Bytes DeviceTree Virtio

variable {δ : Type*}

/-! ## The commands of the bring-up -/

section

variable (device : GpuDevice δ) (env : GpuEnv)

/-- The calls of `gpuCmds`, each with the state that it begins in. -/
def gpuCmdsCalls (polls : ℕ) : List (List UInt8) → List UInt8 → Gpu δ → List (Gpu δ × GpuCall)
  | [], _, _ => []
  | req :: reqs, rsp, vg =>
    (vg, ⟨req, some rsp, 24, polls⟩) ::
      match gpuCmdSync device polls vg req (some rsp) 24 with
      | some (true, rsp', vg) => gpuCmdsCalls polls reqs (rsp'.getD rsp) vg
      | _ => []

/-- The calls of `setMode`. -/
def setModeCalls (vg : Gpu δ) (w h : ℕ) : List (Gpu δ × GpuCall) :=
  if w * h * 4 % 2 ^ 32 > VIRTIO_GPU_VRAM_BYTES then []
  else
    let vg := { vg with width := w, height := h, resourceId := 1 }
    gpuCmdsCalls device env.polls
      [resourceCreate2d vg.resourceId VIRTIO_GPU_FORMAT_B8G8R8X8_UNORM w h,
        resourceAttachBacking vg.resourceId 1 vg.vram (w * h * 4 % 2 ^ 32),
        setScanout 0 0 w h 0 vg.resourceId]
      env.stack vg

/-- The calls of `setUpDisplay`. -/
def setUpDisplayCalls (vg : Gpu δ) (wantW wantH : ℕ) : List (Gpu δ × GpuCall) :=
  (vg, ⟨ctrlHdr VIRTIO_GPU_CMD_GET_DISPLAY_INFO, some (List.replicate 408 0), 408, env.polls⟩) ::
    match getDisplayInfo device env vg with
    | some (true, some info, vg) =>
      let (w, h) := clampMode info wantW wantH
      setModeCalls device env vg w h
    | _ => []

/-- The calls of `virtio_gpu_init_fdt`. -/
def initCalls (board : GpuBoard δ) (fdt : Fdt) (vg : Gpu δ) (wantW wantH : ℕ) :
    List (Gpu δ × GpuCall) :=
  match bringUpGpu board env fdt vg with
  | some (true, vg) => setUpDisplayCalls board.device env vg wantW wantH
  | _ => []

end

variable {device : GpuDevice δ} {board : GpuBoard δ} {env : GpuEnv} {fdt : Fdt} {vg vg' : Gpu δ}
  {wantW wantH : ℕ}

/-- A call between two commands, with room for a header, that returns true. -/
structure CallOk (device : GpuDevice δ) (p : Gpu δ × GpuCall) : Prop where
  idle : Idle p.1
  header : ∃ old, p.2.WithHeader old
  ok : ∃ rsp vg', p.2.run device p.1 = some (true, rsp, vg')

/-- A call that returns true has succeeded exactly when a type was answered. -/
theorem CallOk.succeeded_iff {p : Gpu δ × GpuCall} (h : CallOk device p) (hdev : Replies device) :
    Succeeded device p.1 p.2 ↔ TypeAnswered device p.1 p.2 := by
  obtain ⟨old, hc⟩ := h.header
  obtain ⟨rsp, vg', hrun⟩ := h.ok
  rw [← outcome_iff h.idle hdev hc]
  exact ⟨fun hs _ _ _ => hs, fun hout => hout _ _ hrun⟩

/-- When commands one after the other succeed, all of them have returned true. -/
theorem gpuCmdsCalls_ok {polls : ℕ} {reqs : List (List UInt8)} {rsp : List UInt8}
    (hdev : Replies device) (hi : Idle vg)
    (hrun : gpuCmds device polls reqs rsp vg = some (true, vg')) :
    (gpuCmdsCalls device polls reqs rsp vg).length = reqs.length ∧
      ∀ p ∈ gpuCmdsCalls device polls reqs rsp vg, CallOk device p := by
  induction reqs generalizing rsp vg with
  | nil => exact ⟨rfl, fun _ hp => absurd hp List.not_mem_nil⟩
  | cons req reqs ih =>
    obtain ⟨⟨ok, rsp₁, vg₁⟩, hcmd, hrun⟩ := Option.bind_eq_some_iff.1 hrun
    cases ok with
    | false => cases hrun
    | true =>
      have hidle := (exists_responds (c := ⟨req, some rsp, 24, polls⟩) hi hdev (Nat.le_refl 24)
        hcmd).1
      obtain ⟨hlen, hall⟩ := ih hidle hrun
      rw [gpuCmdsCalls, hcmd]
      refine ⟨congrArg (· + 1) hlen, List.forall_mem_cons.2 ⟨?_, hall⟩⟩
      exact ⟨hi, ⟨rsp, Nat.le_refl 24, rfl⟩, rsp₁, vg₁, hcmd⟩

/-- When the bring-up succeeds, its four commands have returned true. -/
theorem initCalls_ok (hdev : Replies board.device) (hlayout : Layout vg)
    (hrun : virtioGpuInitFdt board env fdt vg wantW wantH = some (true, vg')) :
    (initCalls env board fdt vg wantW wantH).length = 4 ∧
      ∀ p ∈ initCalls env board fdt vg wantW wantH, CallOk board.device p := by
  obtain ⟨⟨up, vg₁⟩, hup, hrun⟩ := Option.bind_eq_some_iff.1 hrun
  cases up with
  | false => cases hrun
  | true =>
    have hi := (idle_of_bringUpGpu hlayout hup).1
    obtain ⟨⟨ok, info, vg₂⟩, hquery, hrun⟩ := Option.bind_eq_some_iff.1 hrun
    have hi₂ := (exists_responds
      (c := ⟨ctrlHdr VIRTIO_GPU_CMD_GET_DISPLAY_INFO, some (List.replicate 408 0), 408, env.polls⟩)
      hi hdev (by norm_num) hquery).1
    rcases ok with _ | _
    · cases hrun
    rcases info with _ | info
    · cases hrun
    have hmode : setMode board.device env vg₂ (clampMode info wantW wantH).1
      (clampMode info wantW wantH).2 = some (true, vg') := hrun
    unfold setMode at hmode
    split at hmode
    · cases hmode
    rename_i hcheck
    have hi₃ : Idle { vg₂ with
        width := (clampMode info wantW wantH).1
        height := (clampMode info wantW wantH).2
        resourceId := 1 } := { hi₂ with }
    obtain ⟨hlen, hall⟩ := gpuCmdsCalls_ok hdev hi₃ hmode
    rw [initCalls, hup]
    dsimp only
    rw [setUpDisplayCalls, hquery]
    dsimp only
    rw [setModeCalls, if_neg hcheck]
    refine ⟨congrArg (· + 1) hlen, List.forall_mem_cons.2 ⟨?_, hall⟩⟩
    exact ⟨hi, ⟨_, by norm_num, rfl⟩, _, _, hquery⟩

/-! ## Main result -/

/-- `P` holds of a call in the state that the calls before it lead to. -/
def After (device : GpuDevice δ) (vg : Gpu δ) (P : Gpu δ → GpuCall → Prop) (past : List GpuCall)
    (c : GpuCall) : Prop :=
  ∀ vg', (gpuCalls device vg).run past vg = some vg' → P vg' c

/-- The driver is idle after every run of calls with room for a header. -/
theorem idle_of_run (hdev : Replies device) {vg₀ : Gpu δ} {calls : List GpuCall} (hi : Idle vg)
    (hheader : ∀ c ∈ calls, ∃ old, c.WithHeader old)
    (hrun : (gpuCalls device vg₀).run calls vg = some vg') : Idle vg' := by
  induction calls generalizing vg with
  | nil => exact Option.some.inj hrun ▸ hi
  | cons c calls ih =>
    obtain ⟨vg₁, hstep, hrun⟩ := Option.bind_eq_some_iff.1 hrun
    obtain ⟨⟨ok, rsp, vg₂⟩, hcmd, rfl⟩ := Option.map_eq_some_iff.1 hstep
    obtain ⟨⟨old, hc⟩, hheader⟩ := List.forall_mem_cons.1 hheader
    exact ih (exists_responds hi hdev hc.header hcmd).1 hheader hrun

/-- **The outcome of commands.** In every run of `gpu_cmd_sync` with room for a header, true is
returned only for a command that the device has answered with a type of success, exactly when every
response has the four bytes of a type or leaves no such type in the buffer. The same holds of the
four commands of a bring-up that reports success. -/
theorem gpu_outcome_iff (board : GpuBoard δ) (hdev : Replies board.device) :
    (∀ vg, Idle vg → ∀ calls : List GpuCall, (∀ c ∈ calls, ∃ old, c.WithHeader old) →
      (EachStep (After board.device vg (Outcome board.device)) calls ↔
        EachStep (After board.device vg (TypeAnswered board.device)) calls)) ∧
    ∀ env fdt vg vg' wantW wantH, Layout vg →
      virtioGpuInitFdt board env fdt vg wantW wantH = some (true, vg') →
      (initCalls env board fdt vg wantW wantH).length = 4 ∧
      ((∀ p ∈ initCalls env board fdt vg wantW wantH, Succeeded board.device p.1 p.2) ↔
        ∀ p ∈ initCalls env board fdt vg wantW wantH, TypeAnswered board.device p.1 p.2) := by
  constructor
  · intro vg hi calls hheader
    have hiff : ∀ past c, past ++ [c] <+: calls → ∀ vg',
        (gpuCalls board.device vg).run past vg = some vg' →
        (Outcome board.device vg' c ↔ TypeAnswered board.device vg' c) := by
      intro past c hpre vg' hrun
      have hsub := hpre.subset
      obtain ⟨old, hc⟩ := hheader c (hsub (List.mem_append_right _ (List.mem_singleton_self c)))
      have hpast : ∀ c' ∈ past, ∃ old, c'.WithHeader old := fun c' hc' =>
        hheader c' (hsub (List.mem_append_left _ hc'))
      exact outcome_iff (idle_of_run hdev hi hpast hrun) hdev hc
    constructor
    · intro h past c hpre vg' hrun
      exact (hiff past c hpre vg' hrun).1 (h past c hpre vg' hrun)
    · intro h past c hpre vg' hrun
      exact (hiff past c hpre vg' hrun).2 (h past c hpre vg' hrun)
  · intro env fdt vg vg' wantW wantH hlayout hrun
    obtain ⟨hlen, hall⟩ := initCalls_ok hdev hlayout hrun
    exact ⟨hlen, forall₂_congr fun p hp => (hall p hp).succeeded_iff hdev⟩

/-- A device that executes every command answers it with a type. -/
theorem typeAnswered_of_copying {c : GpuCall} (hdev : CopyingDevice device) (hi : Idle vg)
    (hlen : 24 ≤ c.rspLen) : TypeAnswered device vg c := by
  intro old hold rsp hr
  obtain ⟨sub, vg₁, vg', hsubmitted, hwait, -, -⟩ := hr.run_eq hi hdev.replies hlen
  obtain ⟨head, rid, q, hne, -, hq, heq, -⟩ := hi.gpuCmdSync_eq
  rw [heq device c] at hsubmitted
  cases hsubmitted
  obtain ⟨rsp', dev, ring, hgood, hlength, -⟩ :=
    (submitted_gpuSubmit device hi hne hq c.req c.rspLen).received hdev hlen hwait
  have hheader := hgood.header
  exact .inl (by omega)

/-- A display that executes every command is brought up, and all four commands succeed. -/
theorem gpu_outcome_iff_copyBoard :
    ∃ vg', virtioGpuInitFdt copyBoard ⟨1, []⟩ virtioBlob copySys.vgpu 8 8 = some (true, vg') ∧
      ∀ p ∈ initCalls ⟨1, []⟩ copyBoard virtioBlob copySys.vgpu 8 8,
        Succeeded copyDevice p.1 p.2 := by
  have hok : (virtioGpuInitFdt copyBoard ⟨1, []⟩ virtioBlob copySys.vgpu 8 8).map Prod.fst =
      some true := by
    decide +kernel
  obtain ⟨⟨ok, vg'⟩, hrun, rfl⟩ := Option.map_eq_some_iff.1 hok
  have hreplies : Replies copyBoard.device := copyingDevice.replies
  refine ⟨vg', hrun,
    ((gpu_outcome_iff copyBoard hreplies).2 _ _ _ _ _ _ layout_copySys hrun).2.2 ?_⟩
  intro p hp
  have hcall := (initCalls_ok hreplies layout_copySys hrun).2 p hp
  obtain ⟨old, hc⟩ := hcall.header
  exact typeAnswered_of_copying copyingDevice hcall.idle hc.header

/-- A device that answers its first two commands with a type of success, and the others with no
byte. -/
def lazyDevice : GpuDevice (HostResource × ℕ) where
  notify := id
  turn dev q mem :=
    if q.usedIdx = q.availIdx then ⟨dev, mem, q.usedIdx, q.usedRing⟩
    else
      let head := q.availRing (q.usedIdx % q.size)
      let rsp := if q.usedIdx < 2 then ctrlHdr VIRTIO_GPU_RESP_OK_NODATA else []
      { dev := dev
        mem := writeBytes mem (q.desc (q.desc head).next).addr rsp
        usedIdx := (q.usedIdx + 1) % 2 ^ 16
        usedRing := Function.update q.usedRing (q.usedIdx % q.size) ⟨head, rsp.length⟩ }

theorem replies_lazyDevice : Replies lazyDevice := by
  intro dev q mem hne _
  refine .inr ⟨if q.usedIdx < 2 then ctrlHdr VIRTIO_GPU_RESP_OK_NODATA else [], ?_⟩
  simp only [lazyDevice, if_neg hne]
  exact ⟨rfl, rfl, Function.update_self ..⟩

/-- The registers of `copyBoard`, with this device behind them. -/
def lazyBoard : GpuBoard (HostResource × ℕ) := { copyBoard with device := lazyDevice }

/-- The length that the device reports for the response to a call. -/
def responseLength (device : GpuDevice δ) (p : Gpu δ × GpuCall) : Option ℕ :=
  ((gpuSubmitted device p.1 p.2).map Prod.snd).bind fun sub =>
    (Loop.iterate (pollBody device) p.2.polls sub).map Prod.fst

/-- **An empty response is accepted**: the bring-up succeeds, and the device has answered the third
command, which gives the resource its memory, with no byte. -/
theorem empty_response_accepted :
    Replies lazyBoard.device ∧
    ∃ vg', virtioGpuInitFdt lazyBoard ⟨1, []⟩ virtioBlob copySys.vgpu 8 8 = some (true, vg') ∧
      ∃ p ∈ initCalls ⟨1, []⟩ lazyBoard virtioBlob copySys.vgpu 8 8,
        ¬ Succeeded lazyDevice p.1 p.2 := by
  have hok : (virtioGpuInitFdt lazyBoard ⟨1, []⟩ virtioBlob copySys.vgpu 8 8).map Prod.fst =
      some true := by
    decide +kernel
  have hlens : (initCalls ⟨1, []⟩ lazyBoard virtioBlob copySys.vgpu 8 8).map
      (responseLength lazyDevice) = [some 24, some 24, some 0, some 0] := by
    decide +kernel
  obtain ⟨⟨ok, vg'⟩, hrun, rfl⟩ := Option.map_eq_some_iff.1 hok
  obtain ⟨p, hp, hzero⟩ : ∃ p ∈ initCalls ⟨1, []⟩ lazyBoard virtioBlob copySys.vgpu 8 8,
      responseLength lazyDevice p = some 0 := by
    rw [← List.mem_map, hlens]
    simp
  refine ⟨replies_lazyDevice, vg', hrun, p, hp, ?_⟩
  rintro ⟨rsp, hr, hfour, -⟩
  have hcall := (initCalls_ok replies_lazyDevice layout_copySys hrun).2 p hp
  obtain ⟨old, hc⟩ := hcall.header
  obtain ⟨sub, vg₁, -, hsub, hwait, -, -⟩ := hr.run_eq hcall.idle replies_lazyDevice hc.header
  rw [responseLength, hsub, Option.bind_some, hwait] at hzero
  have hlength : rsp.length = 0 := Option.some.inj hzero
  omega

end RvvmHal.Graphics
