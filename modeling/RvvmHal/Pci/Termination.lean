import RvvmHal.Foundations.Descent
import RvvmHal.Pci.Enumerate

/-!
# The termination of the scan

`pci.c`: `scan_bus` calls itself for the bus behind a bridge, unless that is bus 0 or the bus of the
bridge. Nothing else keeps it from a bus that it is already scanning: bridges on other buses may lead
back to one another. A scan for an id that is not there returns if and only if the bridges of no bus
that it comes to lead back to that bus, and then its calls are no deeper than there are such buses
(`pciFindDeviceNth_returns_iff`).
-/

namespace RvvmHal.Pci

open Bytes Descent

variable (ecam : Ecam)

/-- A function that the scan looks at: function 0 of its slot is there and, if it is another one, has
the multifunction bit. -/
structure Bdf.Scanned (f : Bdf) : Prop where
  present : f.Present ecam
  multifunc : f.func ≠ 0 → Bdf.Present ecam ⟨f.bus, f.dev, 0⟩ ∧
    Bdf.hdr ecam ⟨f.bus, f.dev, 0⟩ &&& 0x80 ≠ 0

/-- A bridge of a bus leads to another bus. -/
def Enters (bus sec : Fin 256) : Prop :=
  ∃ f : Bdf, f.bus = bus ∧ f.Scanned ecam ∧ f.secondary ecam = some sec ∧ sec ≠ bus

/-- No function has the id. -/
def Absent (vendorDevice : ℕ) : Prop := ∀ f : Bdf, f.Present ecam → f.id ecam ≠ vendorDevice

/-! ## The scan of a bus -/

section

variable {ecam} {vendorDevice target : ℕ} {sub : ℕ → ℕ → Option (PciFunc ⊕ ℕ)} {bus : Fin 256}
  {returns : Fin 256 → Prop}

/-- The scan of a bus that finds nothing, on the buses where it returns. -/
def FindsNothing (sub : ℕ → ℕ → Option (PciFunc ⊕ ℕ)) (returns : Fin 256 → Prop) : Prop :=
  ∀ (sec : Fin 256) (seen : ℕ) (r : PciFunc ⊕ ℕ),
    sub sec seen = some r ↔ r = .inr seen ∧ returns sec

/-- The scan of the bus behind a function returns, if there is one. -/
def Passes (ecam : Ecam) (bus : Fin 256) (returns : Fin 256 → Prop) (f : Bdf) : Prop :=
  ∀ sec, f.secondary ecam = some sec → sec ≠ bus → returns sec

/-- The scan of the bus behind a function, and then the rest. -/
theorem bridge_eq_some (hsub : FindsNothing sub returns) (f : Bdf) (seen : ℕ)
    (rest : ℕ → Option (PciFunc ⊕ ℕ)) (r : PciFunc ⊕ ℕ) :
    (if f.hdr ecam &&& 0x7F = 0x01 ∧ (ecam.mem (f.cfg ecam + 0x19)).toNat ≠ 0 ∧
        (ecam.mem (f.cfg ecam + 0x19)).toNat ≠ bus then
      (sub (ecam.mem (f.cfg ecam + 0x19)).toNat seen).bind fun
        | .inl f => some (.inl f)
        | .inr seen => rest seen
      else rest seen) = some r ↔ Passes ecam bus returns f ∧ rest seen = some r := by
  obtain ⟨sec, hsec⟩ : ∃ sec : Fin 256, (ecam.mem (f.cfg ecam + 0x19)).toFin = sec := ⟨_, rfl⟩
  have hval : (ecam.mem (f.cfg ecam + 0x19)).toNat = sec := congrArg Fin.val hsec
  rw [hval]
  split
  next hbridge =>
    obtain ⟨hhdr, hne, hother⟩ := hbridge
    have hsome : f.secondary ecam = some sec :=
      secondary_eq_some.2 ⟨hhdr, fun h => hne (congrArg Fin.val h), hsec.symm⟩
    have hpasses : Passes ecam bus returns f ↔ returns sec := by
      refine ⟨fun h => h sec hsome fun heq => hother (congrArg Fin.val heq), fun h sec' hsec' _ => ?_⟩
      rwa [← Option.some.inj (hsome.symm.trans hsec')]
    rw [hpasses, Option.bind_eq_some_iff]
    constructor
    · rintro ⟨r', hr', hrest⟩
      obtain ⟨rfl, hret⟩ := (hsub sec seen r').1 hr'
      exact ⟨hret, hrest⟩
    · exact fun ⟨hret, hrest⟩ => ⟨.inr seen, (hsub sec seen _).2 ⟨rfl, hret⟩, hrest⟩
  next hnot =>
    refine (and_iff_right fun sec' hsec' hne => absurd ?_ hnot).symm
    obtain ⟨hhdr, hne₀, heq⟩ := secondary_eq_some.1 hsec'
    obtain rfl : sec' = sec := heq.trans hsec
    exact ⟨hhdr, fun h => hne₀ (Fin.ext h), fun h => hne (Fin.ext h)⟩

/-- A function that is there and is not the one that is looked for. -/
theorem scanFuncs_eq_some (habs : Absent ecam vendorDevice) (hsub : FindsNothing sub returns)
    {dev : Fin 32} {n func seen : ℕ} {multifunc m : Bool} {r : PciFunc ⊕ ℕ} (hfunc : func < 8)
    {f : Bdf} (hf : f = ⟨bus, dev, ⟨func, hfunc⟩⟩) (hpres : f.Present ecam)
    (hm : m = if func = 0 then f.hdr ecam &&& 0x80 != 0 else multifunc) :
    scanFuncs ecam sub bus vendorDevice target dev (n + 1) func multifunc seen = some r ↔
      Passes ecam bus returns f ∧ (if func = 0 ∧ m = false then some (.inr seen)
        else scanFuncs ecam sub bus vendorDevice target dev n (func + 1) m seen) = some r := by
  have hcfg : ecamAddr ecam bus dev func = f.cfg ecam := by rw [hf]; rfl
  have hid : readLe ecam.mem (f.cfg ecam + 0x00) 4 = f.id ecam := rfl
  have hhdr : (ecam.mem (f.cfg ecam + 0x0E)).toNat = f.hdr ecam := rfl
  rw [scanFuncs]
  dsimp only
  rw [hcfg, hid, hhdr, ← hm, if_neg hpres, if_neg fun h => habs f hpres h.1,
    if_neg (habs f hpres)]
  exact bridge_eq_some hsub f seen _ r

/-- The functions of a slot behind function 0. -/
theorem scanFuncs_tail_eq_some (habs : Absent ecam vendorDevice) (hsub : FindsNothing sub returns)
    {dev : Fin 32} {n func seen : ℕ} {multifunc : Bool} {r : PciFunc ⊕ ℕ} (hpos : func ≠ 0)
    (hn : func + n = 8) :
    scanFuncs ecam sub bus vendorDevice target dev n func multifunc seen = some r ↔
      r = .inr seen ∧ ∀ f ∈ slotFrom ecam bus dev func, Passes ecam bus returns f := by
  induction n generalizing func multifunc with
  | zero =>
    obtain rfl : func = 8 := hn
    rw [scanFuncs, Option.some_inj]
    exact ⟨fun h => ⟨h.symm, fun f hf => (by cases hf)⟩, fun h => h.1.symm⟩
  | succ n ih =>
    have hfunc : func < 8 := by omega
    rw [slotFrom_of_lt bus dev hfunc]
    by_cases hpres : Bdf.Present ecam ⟨bus, dev, ⟨func, hfunc⟩⟩
    · rw [scanFuncs_eq_some habs hsub hfunc rfl hpres rfl, if_neg fun h => hpos h.1, if_pos hpres,
        ih (by omega) (by omega), List.forall_mem_cons, and_left_comm]
    · rw [scanFuncs_absent hfunc hpres, if_neg hpos, if_neg hpres, ih (by omega) (by omega)]

theorem mem_slotFrom_one {dev : Fin 32} {f : Bdf} : f ∈ slotFrom ecam bus dev 1 ↔
    ∃ func : Fin 8, func ≠ 0 ∧ f = ⟨bus, dev, func⟩ ∧ f.Present ecam := by
  have hdrop : ∀ func : Fin 8, func ∈ (List.finRange 8).drop 1 ↔ func ≠ 0 := by decide
  simp only [slotFrom, List.mem_filter, List.mem_map, hdrop, decide_eq_true_eq]
  constructor
  · rintro ⟨⟨func, hne, rfl⟩, hpres⟩
    exact ⟨func, hne, rfl, hpres⟩
  · rintro ⟨func, hne, rfl, hpres⟩
    exact ⟨⟨func, hne, rfl⟩, hpres⟩

/-- The functions of a slot: function 0, and the others if it has the multifunction bit. -/
theorem scanFuncs_slot_eq_some (habs : Absent ecam vendorDevice)
    (hsub : FindsNothing sub returns) (dev : Fin 32) {seen : ℕ} {r : PciFunc ⊕ ℕ} :
    scanFuncs ecam sub bus vendorDevice target dev 8 0 false seen = some r ↔
      r = .inr seen ∧ ∀ func, Bdf.Scanned ecam ⟨bus, dev, func⟩ →
        Passes ecam bus returns ⟨bus, dev, func⟩ := by
  by_cases hpres : Bdf.Present ecam ⟨bus, dev, 0⟩
  · have hzero : Bdf.Scanned ecam ⟨bus, dev, 0⟩ := ⟨hpres, fun h => absurd rfl h⟩
    rw [scanFuncs_eq_some habs hsub (f := ⟨bus, dev, 0⟩) (by decide) rfl hpres (if_pos rfl).symm]
    by_cases hbit : Bdf.hdr ecam ⟨bus, dev, 0⟩ &&& 0x80 = 0
    · rw [if_pos ⟨rfl, by simpa using hbit⟩, Option.some_inj]
      constructor
      · rintro ⟨hpass, rfl⟩
        refine ⟨rfl, fun func hscanned => ?_⟩
        by_cases hfunc : func = 0
        · rwa [hfunc]
        · exact absurd hbit (hscanned.multifunc hfunc).2
      · exact fun ⟨hr, hpass⟩ => ⟨hpass 0 hzero, hr.symm⟩
    · rw [if_neg fun h => hbit (by simpa using h.2),
        scanFuncs_tail_eq_some habs hsub Nat.one_ne_zero rfl]
      constructor
      · rintro ⟨hpass, hr, htail⟩
        refine ⟨hr, fun func hscanned => ?_⟩
        by_cases hfunc : func = 0
        · rwa [hfunc]
        · exact htail _ (mem_slotFrom_one.2 ⟨func, hfunc, rfl, hscanned.present⟩)
      · rintro ⟨hr, hpass⟩
        refine ⟨hpass 0 hzero, hr, fun f hf => ?_⟩
        obtain ⟨func, -, rfl, hpresent⟩ := mem_slotFrom_one.1 hf
        exact hpass func ⟨hpresent, fun _ => ⟨hpres, hbit⟩⟩
  · rw [scanFuncs_absent (by decide) hpres, if_pos rfl, Option.some_inj]
    constructor
    · rintro rfl
      refine ⟨rfl, fun func hscanned => ?_⟩
      by_cases hfunc : func = 0
      · exact absurd (hfunc ▸ hscanned.present) hpres
      · exact absurd (hscanned.multifunc hfunc).1 hpres
    · exact fun h => h.1.symm

/-- The slots of a bus. -/
theorem scanDevs_eq_some (habs : Absent ecam vendorDevice) (hsub : FindsNothing sub returns)
    {n dev seen : ℕ} {r : PciFunc ⊕ ℕ} (hn : dev + n = 32) :
    scanDevs ecam sub bus vendorDevice target n dev seen = some r ↔
      r = .inr seen ∧ ∀ f : Bdf, f.bus = bus → dev ≤ f.dev → f.Scanned ecam →
        Passes ecam bus returns f := by
  induction n generalizing dev with
  | zero =>
    rw [scanDevs, Option.some_inj]
    refine ⟨fun h => ⟨h.symm, fun f _ hf _ => ?_⟩, fun h => h.1.symm⟩
    have hlt := f.dev.isLt
    omega
  | succ n ih =>
    have hdev : dev < 32 := by omega
    have hslot : ∀ r', scanFuncs ecam sub bus vendorDevice target dev 8 0 false seen = some r' ↔ _ :=
      fun r' => scanFuncs_slot_eq_some habs hsub ⟨dev, hdev⟩
    rw [scanDevs, Option.bind_eq_some_iff]
    constructor
    · rintro ⟨r', hr', hrest⟩
      obtain ⟨rfl, hpass⟩ := (hslot r').1 hr'
      obtain ⟨hr, htail⟩ := (ih (by omega)).1 hrest
      refine ⟨hr, fun f hbus hf hscanned => ?_⟩
      rcases hf.eq_or_lt with heq | hlt
      · obtain ⟨fbus, fdev, func⟩ := f
        obtain rfl : fbus = bus := hbus
        obtain rfl : fdev = ⟨dev, hdev⟩ := Fin.ext heq.symm
        exact hpass func hscanned
      · exact htail f hbus hlt hscanned
    · rintro ⟨hr, hpass⟩
      refine ⟨.inr seen, (hslot _).2 ⟨rfl, fun func => hpass _ rfl (Nat.le_refl dev)⟩, ?_⟩
      exact (ih (by omega)).2 ⟨hr, fun f hbus hf => hpass f hbus (Nat.le_of_succ_le hf)⟩

end

/-- **The scan of a bus** is a recursion along the bridges. -/
theorem scanBus_eq_some {vendorDevice : ℕ} (habs : Absent ecam vendorDevice) (target depth : ℕ)
    (bus : Fin 256) (seen : ℕ) (r : PciFunc ⊕ ℕ) :
    scanBus ecam vendorDevice target depth bus seen = some r ↔
      r = .inr seen ∧ Within (Enters ecam) depth bus := by
  induction depth generalizing bus seen r with
  | zero => exact ⟨fun h => (by cases h), fun h => h.2.elim⟩
  | succ depth ih =>
    rw [scanBus, scanDevs_eq_some habs ih rfl]
    refine and_congr_right fun _ => ⟨?_, ?_⟩
    · rintro h sec ⟨f, hbus, hscanned, hsec, hne⟩
      exact h f hbus (Nat.zero_le _) hscanned sec hsec hne
    · exact fun h f hbus _ hscanned sec hsec hne => h sec ⟨f, hbus, hscanned, hsec, hne⟩

/-- A scan for an id that is not there returns false, or does not return. -/
theorem pciFindDeviceNth_absent {vendorDevice : ℕ} (habs : Absent ecam vendorDevice)
    (n depth : ℕ) :
    (pciFindDeviceNth ecam depth vendorDevice n = some none ↔ Within (Enters ecam) depth 0) ∧
      (¬ Within (Enters ecam) depth 0 → pciFindDeviceNth ecam depth vendorDevice n = none) := by
  have hscan := scanBus_eq_some ecam habs n depth 0 0
  rw [pciFindDeviceNth, Option.map_eq_some_iff, Option.map_eq_none_iff]
  refine ⟨⟨?_, ?_⟩, ?_⟩
  · rintro ⟨r, hr, -⟩
    exact ((hscan r).1 hr).2
  · exact fun h => ⟨.inr 0, (hscan _).2 ⟨rfl, h⟩, rfl⟩
  · exact fun h => Option.eq_none_iff_forall_ne_some.2 fun r hr => h ((hscan r).1 hr).2

/-! ## Main results -/

/-- **Termination.** A scan for an id that is not there returns false, with calls no deeper than the
number of buses that it comes to, if and only if none of these buses leads back to itself; otherwise
it does not return at any depth. -/
theorem pciFindDeviceNth_returns_iff {vendorDevice : ℕ} (habs : Absent ecam vendorDevice) (n : ℕ) :
    ((∃ depth ≤ (Below (Enters ecam) 0).ncard,
        pciFindDeviceNth ecam depth vendorDevice n = some none) ↔ Acyclic (Enters ecam) 0) ∧
      (¬ Acyclic (Enters ecam) 0 → ∀ depth, pciFindDeviceNth ecam depth vendorDevice n = none) := by
  have hfind := pciFindDeviceNth_absent ecam habs n
  refine ⟨⟨?_, ?_⟩, ?_⟩
  · rintro ⟨depth, -, h⟩
    exact ((hfind depth).1.1 h).acyclic
  · exact fun h => ⟨_, Nat.le_refl _, (hfind _).1.2 (within_ncard h)⟩
  · exact fun h depth => (hfind depth).2 fun hwithin => h hwithin.acyclic

theorem absent_of_first_byte {vendorDevice : ℕ}
    (h : ∀ a, (ecam.mem a).toNat ≠ vendorDevice % 256) : Absent ecam vendorDevice := by
  intro f _ hid
  refine h (f.cfg ecam) ?_
  rw [← hid, Bdf.id, readLe_add _ _ 1 3]
  have hbyte := (ecam.mem (f.cfg ecam)).toNat_lt
  have hone : readLe ecam.mem (f.cfg ecam + 0x00) 1 = (ecam.mem (f.cfg ecam)).toNat := rfl
  omega

theorem absent_bridged : Absent bridged 0x12345678 := by
  refine absent_of_first_byte _ fun a => ?_
  simp only [bridged]
  split_ifs <;> decide

theorem acyclic_bridged : Acyclic (Enters bridged) 0 := by
  have henters : ∀ a b, Enters bridged a b → a = 0 ∧ b = 1 := by
    rintro _ b ⟨f, rfl, hscanned, hsec, -⟩
    rcases present_bridged hscanned.present with rfl | rfl
    · have hone : Bdf.secondary bridged ⟨0, 0, 0⟩ = some 1 := by decide
      exact ⟨rfl, Option.some.inj (hsec.symm.trans hone)⟩
    · have hnone : Bdf.secondary bridged ⟨1, 0, 0⟩ = none := by decide
      rw [hnone] at hsec
      cases hsec
  intro b _ hcycle
  obtain ⟨c, hbc, -⟩ := Relation.TransGen.head'_iff.1 hcycle
  obtain ⟨d, -, hdb⟩ := Relation.TransGen.tail'_iff.1 hcycle
  have hone := (henters d b hdb).2
  rw [(henters b c hbc).1] at hone
  exact absurd hone (by decide)

theorem pciFindDeviceNth_returns_iff_bridged :
    ∃ depth ≤ (Below (Enters bridged) 0).ncard,
      pciFindDeviceNth bridged depth 0x12345678 0 = some none :=
  (pciFindDeviceNth_returns_iff bridged absent_bridged 0).1.2 acyclic_bridged

/-- Bus 0 has a bridge to bus 1, and buses 1 and 2 have bridges to each other. -/
def looped : Ecam where
  base := 0
  mem x :=
    if x % 2 ^ 20 < 0x1000 ∧ x / 2 ^ 20 < 3 then
      if x % 2 ^ 20 = 0x0E then 1
      else if x % 2 ^ 20 = 0x19 then if x / 2 ^ 20 = 1 then 2 else 1
      else 0x36
    else 0xFF

/-- The scan goes round buses 1 and 2. -/
theorem pciFindDeviceNth_looped : Absent looped 0x12345678 ∧
    ∀ depth, pciFindDeviceNth looped depth 0x12345678 0 = none := by
  have habs : Absent looped 0x12345678 := by
    refine absent_of_first_byte _ fun a => ?_
    simp only [looped]
    split_ifs <;> decide
  have hscanned : ∀ bus : Fin 256, Bdf.Present looped ⟨bus, 0, 0⟩ →
      Bdf.Scanned looped ⟨bus, 0, 0⟩ := fun bus h => ⟨h, fun hne => absurd rfl hne⟩
  have h01 : Enters looped 0 1 :=
    ⟨⟨0, 0, 0⟩, rfl, hscanned 0 (by decide), by decide, by decide⟩
  have h12 : Enters looped 1 2 :=
    ⟨⟨1, 0, 0⟩, rfl, hscanned 1 (by decide), by decide, by decide⟩
  have h21 : Enters looped 2 1 :=
    ⟨⟨2, 0, 0⟩, rfl, hscanned 2 (by decide), by decide, by decide⟩
  refine ⟨habs, fun depth => (pciFindDeviceNth_absent looped habs 0 depth).2 fun h => ?_⟩
  exact h.acyclic 1 (.single h01) (.tail (.single h12) h21)

end RvvmHal.Pci
