import Mathlib.Data.Fintype.Prod
import Mathlib.Data.List.FinRange
import RvvmHal.Foundations.DepthFirst
import RvvmHal.Pci.Scan

/-!
# The enumeration of functions

The functions of configuration space that can be reached from bus 0 are listed depth first: those of
a bus by device and function, each bridge followed by those of the bus behind it. When slots are
populated as the standard asks and no bus is behind two bridges, the list has every function once,
and `pci_find_device_nth` finds the `n`-th function of the list that has the id it was asked for
(`pciFindDeviceNth_spec`).
-/

namespace RvvmHal.Pci

open Bytes

/-- The place of a function. -/
structure Bdf where
  bus : Fin 256
  dev : Fin 32
  func : Fin 8
  deriving DecidableEq

variable (ecam : Ecam)

namespace Bdf

variable (f : Bdf)

/-- The configuration space of the function. -/
def cfg : ℕ := ecamAddr ecam f.bus f.dev f.func

/-- Vendor and device. -/
def id : ℕ := readLe ecam.mem (f.cfg ecam + 0x00) 4

/-- The header type. -/
def hdr : ℕ := (ecam.mem (f.cfg ecam + 0x0E)).toNat

/-- There is a function at the place. -/
abbrev Present : Prop := f.id ecam ≠ 0xFFFFFFFF

/-- The bus behind a bridge, unless its number is 0. -/
def secondary : Option (Fin 256) :=
  let sec : Fin 256 := (ecam.mem (f.cfg ecam + 0x19)).toFin
  if f.hdr ecam &&& 0x7F = 0x01 ∧ sec ≠ 0 then some sec else none

/-- What `fill_func` writes for the function. -/
def filled : PciFunc := fillFunc f.bus f.dev f.func (f.cfg ecam)

end Bdf

/-! ## Buses -/

/-- The functions of a slot from `func` on. -/
def slotFrom (bus : Fin 256) (dev : Fin 32) (func : ℕ) : List Bdf :=
  (((List.finRange 8).drop func).map fun func => ⟨bus, dev, func⟩).filter (·.Present ecam)

/-- The functions of a bus from slot `dev` on. -/
def busFrom (bus : Fin 256) (dev : ℕ) : List Bdf :=
  ((List.finRange 32).drop dev).flatMap fun dev => slotFrom ecam bus dev 0

/-- The buses with their functions, by device and function. -/
def buses : Branching (Fin 256) Bdf where
  items bus := busFrom ecam bus 0
  below f := f.secondary ecam

/-- Slots are populated as the standard asks: a function is there only with function 0, and one
other than 0 only with the multifunction bit of that. No bus is behind two bridges. -/
structure BridgeTree : Prop where
  func_zero : ∀ (bus : Fin 256) (dev : Fin 32) (func : Fin 8), Bdf.Present ecam ⟨bus, dev, func⟩ →
    func ≠ 0 → Bdf.Present ecam ⟨bus, dev, 0⟩ ∧ Bdf.hdr ecam ⟨bus, dev, 0⟩ &&& 0x80 ≠ 0
  secondary_inj : ∀ (f g : Bdf) (bus : Fin 256), f.Present ecam → g.Present ecam →
    f.secondary ecam = some bus → g.secondary ecam = some bus → f = g

variable {ecam}

theorem mem_items {bus : Fin 256} {f : Bdf} :
    f ∈ (buses ecam).items bus ↔ f.bus = bus ∧ f.Present ecam := by
  obtain ⟨bus', dev, func⟩ := f
  simp only [buses, busFrom, slotFrom, List.drop_zero, List.mem_flatMap, List.mem_filter,
    List.mem_map, List.mem_finRange, true_and, decide_eq_true_eq, Bdf.mk.injEq]
  constructor
  · rintro ⟨dev, ⟨func, rfl, rfl, rfl⟩, hpres⟩
    exact ⟨rfl, hpres⟩
  · rintro ⟨rfl, hpres⟩
    exact ⟨dev, ⟨func, rfl, rfl, rfl⟩, hpres⟩

theorem nodup_items (bus : Fin 256) : ((buses ecam).items bus).Nodup := by
  have hmap : ∀ dev : Fin 32, ((List.finRange 8).map fun func => (⟨bus, dev, func⟩ : Bdf)).Nodup :=
    fun dev => (List.nodup_finRange 8).map fun _ _ h => (Bdf.mk.inj h).2.2
  refine List.nodup_flatMap.2 ⟨fun dev _ => (hmap dev).filter _, ?_⟩
  refine (List.nodup_finRange 32).imp fun hne f hf hf' => hne ?_
  obtain ⟨_, _, rfl⟩ := List.mem_map.1 (List.mem_of_mem_filter hf)
  obtain ⟨_, _, heq⟩ := List.mem_map.1 (List.mem_of_mem_filter hf')
  exact (Bdf.mk.inj heq).2.1.symm

theorem secondary_eq_some {f : Bdf} {sec : Fin 256} : f.secondary ecam = some sec ↔
    f.hdr ecam &&& 0x7F = 0x01 ∧ sec ≠ 0 ∧
      sec = (ecam.mem (f.cfg ecam + 0x19)).toFin := by
  rw [Bdf.secondary, Option.ite_none_right_eq_some, Option.some_inj]
  constructor
  · rintro ⟨⟨hhdr, hne⟩, rfl⟩
    exact ⟨hhdr, hne, rfl⟩
  · rintro ⟨hhdr, hne, rfl⟩
    exact ⟨⟨hhdr, hne⟩, rfl⟩

theorem secondary_ne_zero (f : Bdf) : f.secondary ecam ≠ some 0 :=
  fun h => (secondary_eq_some.1 h).2.1 rfl

/-- **The buses are a tree**: a bus that is behind at most one bridge, and bus 0 behind none. -/
theorem BridgeTree.isTree (h : BridgeTree ecam) : (buses ecam).IsTree 0 where
  nodup := nodup_items
  owner hi hj := (mem_items.1 hi).1.symm.trans (mem_items.1 hj).1
  below_inj hi hj hb hc := h.secondary_inj _ _ _ (mem_items.1 hi).2 (mem_items.1 hj).2 hb hc
  below_ne_root _ := secondary_ne_zero _

theorem slotFrom_of_lt (bus : Fin 256) (dev : Fin 32) {func : ℕ} (h : func < 8) :
    slotFrom ecam bus dev func =
      if Bdf.Present ecam ⟨bus, dev, ⟨func, h⟩⟩ then
        ⟨bus, dev, ⟨func, h⟩⟩ :: slotFrom ecam bus dev (func + 1)
      else slotFrom ecam bus dev (func + 1) := by
  rw [slotFrom, List.drop_eq_getElem_cons (by simpa using h), List.map_cons, List.filter_cons]
  simp [slotFrom]

theorem busFrom_of_lt (bus : Fin 256) {dev : ℕ} (h : dev < 32) :
    busFrom ecam bus dev = slotFrom ecam bus ⟨dev, h⟩ 0 ++ busFrom ecam bus (dev + 1) := by
  rw [busFrom, List.drop_eq_getElem_cons (by simpa using h), List.flatMap_cons]
  simp [busFrom]

/-! ## The scan along a list -/

variable (ecam) (vendorDevice target : ℕ)

/-- The scan of a list of functions. -/
def look : List Bdf → ℕ → PciFunc ⊕ ℕ
  | [], seen => .inr seen
  | f :: fs, seen =>
    if f.id ecam = vendorDevice then
      if seen = target then .inl (f.filled ecam) else look fs ((seen + 1) % 2 ^ 32)
    else look fs seen

variable {ecam vendorDevice target}

theorem look_append (l l' : List Bdf) (seen : ℕ) :
    look ecam vendorDevice target (l ++ l') seen =
      match look ecam vendorDevice target l seen with
      | .inl f => .inl f
      | .inr seen => look ecam vendorDevice target l' seen := by
  induction l generalizing seen with
  | nil => rfl
  | cons f l ih =>
    rw [List.cons_append, look, look]
    split
    · split
      · rfl
      · exact ih _
    · exact ih _

/-- **What is found in a list** is the match that `target` asks for, as long as the counter of
matches does not wrap. -/
theorem getLeft_look {l : List Bdf} {seen : ℕ} (hle : seen ≤ target)
    (hlen : seen + l.length < 2 ^ 32) :
    (look ecam vendorDevice target l seen).getLeft? =
      ((l.filter (·.id ecam = vendorDevice))[target - seen]?).map (·.filled ecam) := by
  induction l generalizing seen with
  | nil => rfl
  | cons f l ih =>
    rw [List.length_cons] at hlen
    rw [look, List.filter_cons]
    by_cases hid : f.id ecam = vendorDevice
    · rw [if_pos hid, if_pos (decide_eq_true hid)]
      by_cases heq : seen = target
      · rw [if_pos heq, heq, Nat.sub_self]
        rfl
      · rw [if_neg heq, Nat.mod_eq_of_lt (by omega), ih (by omega) (by omega),
          show target - seen = target - (seen + 1) + 1 by omega, List.getElem?_cons_succ]
    · rw [if_neg hid, if_neg (by simpa using hid), ih hle (by omega)]

/-! ## The scan of a bus -/

section

variable {sub : ℕ → ℕ → Option (PciFunc ⊕ ℕ)} {bus : Fin 256} {behind : Bdf → List Bdf}

/-- A scan of the buses behind the bridges of a bus finds what is found in lists of functions. -/
structure Scans (ecam : Ecam) (vendorDevice target : ℕ) (sub : ℕ → ℕ → Option (PciFunc ⊕ ℕ))
    (bus : Fin 256) (behind : Bdf → List Bdf) : Prop where
  none_below : ∀ f : Bdf, f.bus = bus → f.Present ecam → f.secondary ecam = none → behind f = []
  some_below : ∀ f : Bdf, f.bus = bus → f.Present ecam → ∀ sec : Fin 256,
    f.secondary ecam = some sec → sec ≠ bus ∧
      ∀ seen, sub sec seen = some (look ecam vendorDevice target (behind f) seen)

/-- A scan that goes on with `rest` unless it has found its function. -/
def andThen (r : PciFunc ⊕ ℕ) (rest : ℕ → Option (PciFunc ⊕ ℕ)) : Option (PciFunc ⊕ ℕ) :=
  match r with
  | .inl f => some (.inl f)
  | .inr seen => rest seen

theorem andThen_look (l l' : List Bdf) (seen : ℕ) :
    andThen (look ecam vendorDevice target l seen)
        (fun seen => some (look ecam vendorDevice target l' seen)) =
      some (look ecam vendorDevice target (l ++ l') seen) := by
  rw [look_append]
  cases look ecam vendorDevice target l seen <;> rfl

/-- The scan of the bus behind a function. -/
theorem Scans.bridge (h : Scans ecam vendorDevice target sub bus behind) {f : Bdf}
    (hbus : f.bus = bus) (hpres : f.Present ecam) (seen : ℕ)
    (rest : ℕ → Option (PciFunc ⊕ ℕ)) :
    (if f.hdr ecam &&& 0x7F = 0x01 ∧ (ecam.mem (f.cfg ecam + 0x19)).toNat ≠ 0 ∧
        (ecam.mem (f.cfg ecam + 0x19)).toNat ≠ bus then
      (sub (ecam.mem (f.cfg ecam + 0x19)).toNat seen).bind fun
        | .inl f => some (.inl f)
        | .inr seen => rest seen
      else rest seen) = andThen (look ecam vendorDevice target (behind f) seen) rest := by
  cases hsec : f.secondary ecam with
  | none =>
    rw [h.none_below f hbus hpres hsec, if_neg]
    · rfl
    · rintro ⟨hhdr, hne, -⟩
      have hsome := secondary_eq_some.2 ⟨hhdr, fun h0 => hne (congrArg Fin.val h0), rfl⟩
      rw [hsec] at hsome
      cases hsome
  | some sec =>
    obtain ⟨hhdr, hne, heq⟩ := secondary_eq_some.1 hsec
    obtain ⟨hself, hsub⟩ := h.some_below f hbus hpres sec hsec
    have hval : (ecam.mem (f.cfg ecam + 0x19)).toNat = sec := (congrArg Fin.val heq).symm
    rw [hval, if_pos ⟨hhdr, fun h0 => hne (Fin.ext h0), fun hb => hself (Fin.ext hb)⟩, hsub seen]
    rfl

/-- A function that is there, with the bus behind it. -/
theorem scanFuncs_present (h : Scans ecam vendorDevice target sub bus behind) {dev : Fin 32}
    {n func seen : ℕ} {multifunc m : Bool} (hfunc : func < 8) {f : Bdf}
    (hf : f = ⟨bus, dev, ⟨func, hfunc⟩⟩) (hpres : f.Present ecam)
    (hm : m = if func = 0 then f.hdr ecam &&& 0x80 != 0 else multifunc) :
    scanFuncs ecam sub bus vendorDevice target dev (n + 1) func multifunc seen =
      andThen (look ecam vendorDevice target (f :: behind f) seen) fun seen =>
        if func = 0 ∧ m = false then some (.inr seen)
        else scanFuncs ecam sub bus vendorDevice target dev n (func + 1) m seen := by
  have hcfg : ecamAddr ecam bus dev func = f.cfg ecam := by rw [hf]; rfl
  have hfill : fillFunc bus dev func (f.cfg ecam) = f.filled ecam := by rw [hf]; rfl
  have hid : readLe ecam.mem (f.cfg ecam + 0x00) 4 = f.id ecam := rfl
  have hhdr : (ecam.mem (f.cfg ecam + 0x0E)).toNat = f.hdr ecam := rfl
  rw [scanFuncs]
  dsimp only
  rw [hcfg, hfill, hid, hhdr, ← hm, if_neg hpres, look]
  split
  next hmatch =>
    rw [if_pos hmatch.1, if_pos hmatch.2]
    rfl
  next hmatch =>
    refine (h.bridge (by rw [hf]) hpres _ _).trans ?_
    split
    next hvd => rw [if_neg fun heq => hmatch ⟨hvd, heq⟩]
    next => rfl

/-- A function that is not there. -/
theorem scanFuncs_absent {dev : Fin 32} {n func seen : ℕ} {multifunc : Bool} (hfunc : func < 8)
    (habs : ¬ Bdf.Present ecam ⟨bus, dev, ⟨func, hfunc⟩⟩) :
    scanFuncs ecam sub bus vendorDevice target dev (n + 1) func multifunc seen =
      if func = 0 then some (.inr seen)
      else scanFuncs ecam sub bus vendorDevice target dev n (func + 1) multifunc seen :=
  if_pos (not_not.1 habs)

/-- The functions of a slot behind function 0. -/
theorem scanFuncs_tail (h : Scans ecam vendorDevice target sub bus behind) {dev : Fin 32}
    {n func seen : ℕ} {multifunc : Bool} (hpos : func ≠ 0) (hn : func + n = 8) :
    scanFuncs ecam sub bus vendorDevice target dev n func multifunc seen =
      some (look ecam vendorDevice target
        ((slotFrom ecam bus dev func).flatMap fun f => f :: behind f) seen) := by
  induction n generalizing func multifunc seen with
  | zero =>
    obtain rfl : func = 8 := hn
    rfl
  | succ n ih =>
    have hfunc : func < 8 := by omega
    rw [slotFrom_of_lt bus dev hfunc]
    by_cases hpres : Bdf.Present ecam ⟨bus, dev, ⟨func, hfunc⟩⟩
    · rw [scanFuncs_present h hfunc rfl hpres rfl, if_pos hpres, List.flatMap_cons, ← andThen_look]
      simp only [hpos, false_and, if_false]
      exact congrArg _ (funext fun _ => ih (by omega) (by omega))
    · rw [scanFuncs_absent hfunc hpres, if_neg hpos, if_neg hpres]
      exact ih (by omega) (by omega)

/-- Without function 0, or without its multifunction bit, no other function is there. -/
theorem BridgeTree.slotFrom_one (hT : BridgeTree ecam) {dev : Fin 32}
    (h : ¬ Bdf.Present ecam ⟨bus, dev, 0⟩ ∨ Bdf.hdr ecam ⟨bus, dev, 0⟩ &&& 0x80 = 0) :
    slotFrom ecam bus dev 1 = [] := by
  refine List.filter_eq_nil_iff.2 fun f hf hpres => ?_
  obtain ⟨func, hmem, rfl⟩ := List.mem_map.1 hf
  have hne : func ≠ 0 := by
    rintro rfl
    exact absurd hmem (by decide)
  obtain ⟨hzero, hbit⟩ := hT.func_zero bus dev func (of_decide_eq_true hpres) hne
  rcases h with h | h
  · exact h hzero
  · exact hbit h

/-- The functions of a slot. -/
theorem scanFuncs_slot (hT : BridgeTree ecam)
    (h : Scans ecam vendorDevice target sub bus behind) (dev : Fin 32) (seen : ℕ) :
    scanFuncs ecam sub bus vendorDevice target dev 8 0 false seen =
      some (look ecam vendorDevice target
        ((slotFrom ecam bus dev 0).flatMap fun f => f :: behind f) seen) := by
  rw [slotFrom_of_lt bus dev (by decide)]
  by_cases hpres : Bdf.Present ecam ⟨bus, dev, ⟨0, by decide⟩⟩
  · rw [scanFuncs_present h (by decide) rfl hpres (if_pos rfl).symm, if_pos hpres,
      List.flatMap_cons, ← andThen_look]
    refine congrArg _ (funext fun seen => ?_)
    by_cases hbit : Bdf.hdr ecam ⟨bus, dev, 0⟩ &&& 0x80 = 0
    · rw [if_pos ⟨rfl, by simpa using hbit⟩, hT.slotFrom_one (.inr hbit)]
      rfl
    · rw [if_neg fun hb => hbit (by simpa using hb.2)]
      exact scanFuncs_tail h Nat.one_ne_zero rfl
  · rw [scanFuncs_absent (by decide) hpres, if_pos rfl, if_neg hpres, hT.slotFrom_one (.inl hpres)]
    rfl

/-- The slots of a bus. -/
theorem scanDevs_bus (hT : BridgeTree ecam)
    (h : Scans ecam vendorDevice target sub bus behind) {n dev : ℕ} (hn : dev + n = 32)
    (seen : ℕ) :
    scanDevs ecam sub bus vendorDevice target n dev seen =
      some (look ecam vendorDevice target
        ((busFrom ecam bus dev).flatMap fun f => f :: behind f) seen) := by
  induction n generalizing dev seen with
  | zero =>
    obtain rfl : dev = 32 := hn
    rfl
  | succ n ih =>
    have hdev : dev < 32 := by omega
    rw [busFrom_of_lt bus hdev, List.flatMap_append, ← andThen_look, scanDevs]
    change (scanFuncs ecam sub bus vendorDevice target (⟨dev, hdev⟩ : Fin 32) 8 0 false seen).bind _
      = _
    rw [scanFuncs_slot hT h, Option.bind_some]
    cases look ecam vendorDevice target _ seen with
    | inl f => rfl
    | inr seen => exact ih (by omega) seen

end

/-- The scan of a bus, as deep as the tree goes, goes along its listing. -/
theorem scanBus_eq (hT : BridgeTree ecam) {depth : ℕ} {bus : Fin 256} {p : List (Fin 256)}
    (hp : (buses ecam).Route 0 bus p) (hdepth : 256 ≤ depth + p.length) :
    ∃ l, (buses ecam).DepthFirst bus l ∧ ∀ vendorDevice target seen,
      scanBus ecam vendorDevice target depth bus seen =
        some (look ecam vendorDevice target l seen) := by
  refine hp.depth_induction hT.isTree (P := fun depth bus => ∃ l, (buses ecam).DepthFirst bus l ∧
    ∀ vendorDevice target seen, scanBus ecam vendorDevice target depth bus seen =
      some (look ecam vendorDevice target l seen)) ?_ (by simpa using hdepth)
  intro depth bus p hp ih
  obtain ⟨behind, hnone, hsome⟩ := Branching.exists_behind (a := bus) ih
  refine ⟨_, .node behind (fun f hf b hb => (hsome f hf b hb).1) hnone, ?_⟩
  intro vendorDevice target seen
  refine scanDevs_bus hT ⟨?_, ?_⟩ rfl seen
  · exact fun f hbus hpres => hnone f (mem_items.2 ⟨hbus, hpres⟩)
  · intro f hbus hpres sec hsec
    have hf := mem_items.2 ⟨hbus, hpres⟩
    refine ⟨?_, (hsome f hf sec hsec).2 vendorDevice target⟩
    rintro rfl
    exact hp.below_ne hT.isTree hf hsec

/-! ## Main results -/

/-- There are at most `2 ^ 16` functions. -/
theorem length_le_of_nodup {l : List Bdf} (h : l.Nodup) : l.length ≤ 2 ^ 16 := by
  have hinj : Function.Injective fun f : Bdf => (f.bus, f.dev, f.func) := by
    rintro ⟨⟩ ⟨⟩ heq
    cases heq
    rfl
  have hle := (h.map hinj).length_le_card
  simpa using hle

/-- **The enumeration is complete and without repetition.** The functions that can be reached from
bus 0 have a depth-first listing with each of them once, and `pci_find_device_nth` finds the `n`-th
function of it that has the id, with its base addresses zero, if there are more than `n`. -/
theorem pciFindDeviceNth_spec (hT : BridgeTree ecam) :
    ∃ l, (buses ecam).DepthFirst 0 l ∧ l.Nodup ∧ (∀ f, f ∈ l ↔ (buses ecam).Reaches 0 f) ∧
      ∀ depth vendorDevice n, 256 ≤ depth → pciFindDeviceNth ecam depth vendorDevice n =
        some ((l.filter (·.id ecam = vendorDevice))[n]?.map (·.filled ecam)) := by
  obtain ⟨l, hl, -⟩ := scanBus_eq hT .root (Nat.le_refl (256 + 0))
  refine ⟨l, hl, hl.nodup hT.isTree .root, fun f => hl.mem_iff, ?_⟩
  intro depth vendorDevice n hdepth
  obtain ⟨l', hl', hscan⟩ := scanBus_eq hT .root (Nat.le_add_right_of_le hdepth)
  obtain rfl := hl.unique hl'
  have hlen := length_le_of_nodup (hl.nodup hT.isTree .root)
  have hfind : (look ecam vendorDevice n l 0).getLeft? = _ :=
    getLeft_look (Nat.zero_le n) (by omega)
  exact (congrArg (Option.map Sum.getLeft?) (hscan vendorDevice n 0)).trans (congrArg some hfind)

/-- A bridge in the first slot of bus 0, and a function in the first slot of bus 1 behind it. -/
def bridged : Ecam where
  base := 0
  mem x :=
    if x < 0x1000 then if x = 0x0E ∨ x = 0x19 then 1 else 0x36
    else if 0x100000 ≤ x ∧ x < 0x101000 then if x = 0x10000E then 0 else 0x36
    else 0xFF

theorem cfg_bridged (f : Bdf) :
    f.cfg bridged = 2 ^ 20 * f.bus + (2 ^ 15 * f.dev + 2 ^ 12 * f.func) := by
  have hfunc := f.func.isLt
  have hdev := f.dev.isLt
  rw [Nat.two_pow_add_eq_or_of_lt (by omega), Nat.two_pow_add_eq_or_of_lt (by omega),
    Nat.mul_comm, Nat.mul_comm (2 ^ 15), Nat.mul_comm (2 ^ 12), ← Nat.or_assoc]
  simp [Bdf.cfg, ecamAddr, bridged, Nat.shiftLeft_eq]

theorem present_bridged {f : Bdf} (h : f.Present bridged) : f = ⟨0, 0, 0⟩ ∨ f = ⟨1, 0, 0⟩ := by
  have hcfg := cfg_bridged f
  obtain ⟨bus, dev, func⟩ := f
  dsimp only at hcfg
  by_contra hne
  -- all other pages read as ones
  have hones : ∀ a, readLe (fun _ => 0xFF) a 4 = 0xFFFFFFFF := fun a => by
    simp [readLe, readBytes, ofLe, List.range_succ]
  refine h ((readLe_congr (fun _ => 0xFF) fun x h₁ h₂ => ?_).trans (hones _))
  rw [Nat.add_zero] at h₁ h₂
  have hfirst : ¬ x < 0x1000 := by
    intro hx
    refine hne (.inl ?_)
    rw [Bdf.mk.injEq, Fin.ext_iff, Fin.ext_iff, Fin.ext_iff]
    exact ⟨show bus.val = 0 by omega, show dev.val = 0 by omega, show func.val = 0 by omega⟩
  have hsecond : ¬ (0x100000 ≤ x ∧ x < 0x101000) := by
    intro hx
    refine hne (.inr ?_)
    rw [Bdf.mk.injEq, Fin.ext_iff, Fin.ext_iff, Fin.ext_iff]
    exact ⟨show bus.val = 1 by omega, show dev.val = 0 by omega, show func.val = 0 by omega⟩
  simp only [bridged, if_neg hfirst, if_neg hsecond]

theorem bridgeTree_bridged : BridgeTree bridged where
  func_zero bus dev func h hne := by
    rcases present_bridged h with heq | heq <;> exact absurd (Bdf.mk.inj heq).2.2 hne
  secondary_inj f g bus hf hg hb hc := by
    have hnone : Bdf.secondary bridged ⟨1, 0, 0⟩ = none := by decide
    rcases present_bridged hf with rfl | rfl <;> rcases present_bridged hg with rfl | rfl
    · rfl
    · rw [hnone] at hc
      cases hc
    · rw [hnone] at hb
      cases hb
    · rfl

theorem pciFindDeviceNth_spec_bridged : ∃ l : List Bdf, l.Nodup ∧ ⟨1, 0, 0⟩ ∈ l ∧
    ∀ n, pciFindDeviceNth bridged 256 0x36363636 n =
      some ((l.filter (·.id bridged = 0x36363636))[n]?.map (·.filled bridged)) := by
  obtain ⟨l, -, hnodup, hmem, hfind⟩ := pciFindDeviceNth_spec bridgeTree_bridged
  refine ⟨l, hnodup, (hmem _).2 ⟨1, [0], .step (i := ⟨0, 0, 0⟩) .root ?_ ?_, ?_⟩,
    fun n => hfind 256 _ n (Nat.le_refl _)⟩
  · exact mem_items.2 ⟨rfl, by decide⟩
  · decide
  · exact mem_items.2 ⟨rfl, by decide⟩

end RvvmHal.Pci
