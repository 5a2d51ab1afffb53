import RvvmHal.Foundations.Word

/-!
# Byte memory and byte orders

A memory is a function from addresses to bytes. `readBytes` and `writeBytes` move lists of bytes;
the rules below say what a read sees after a write to the same place (`readBytes_writeBytes_self`)
and after a write elsewhere (`readBytes_writeBytes_of_disjoint`). `leBytes` and `ofLe` convert
numbers to and from little-endian lists of bytes, `beBytes` and `ofBe` big-endian ones.
-/

namespace RvvmHal.Bytes

/-- A byte memory. -/
abbrev Mem := ℕ → UInt8

/-! ## Reading and writing -/

/-- The `n` bytes at `a`. -/
def readBytes (m : Mem) (a n : ℕ) : List UInt8 := (List.range n).map fun i => m (a + i)

/-- The memory with the bytes `l` stored at `a`. -/
def writeBytes (m : Mem) (a : ℕ) (l : List UInt8) : Mem := fun x =>
  if a ≤ x ∧ x < a + l.length then l.getD (x - a) 0 else m x

section

variable (m : Mem) (a n : ℕ) (l : List UInt8)

@[simp] theorem length_readBytes : (readBytes m a n).length = n := by simp [readBytes]

@[simp] theorem readBytes_zero : readBytes m a 0 = [] := rfl

theorem getElem_readBytes {i : ℕ} (hi : i < (readBytes m a n).length) :
    (readBytes m a n)[i] = m (a + i) := by
  simp [readBytes]

theorem readBytes_succ : readBytes m a (n + 1) = m a :: readBytes m (a + 1) n := by
  simp [readBytes, List.range_succ_eq_map, Nat.add_assoc, Nat.add_comm 1]

theorem readBytes_add (k : ℕ) :
    readBytes m a (n + k) = readBytes m a n ++ readBytes m (a + n) k := by
  simp [readBytes, List.range_add, Nat.add_assoc]

theorem take_readBytes {k : ℕ} (h : k ≤ n) : (readBytes m a n).take k = readBytes m a k := by
  obtain ⟨j, rfl⟩ := Nat.exists_eq_add_of_le h
  rw [readBytes_add, List.take_left' (length_readBytes ..)]

/-- The bytes in the middle of a read. -/
theorem take_drop_readBytes {i k : ℕ} (h : i + k ≤ n) :
    ((readBytes m a n).drop i).take k = readBytes m (a + i) k := by
  obtain ⟨j, rfl⟩ := Nat.exists_eq_add_of_le h
  rw [Nat.add_assoc, readBytes_add, List.drop_left' (length_readBytes ..), readBytes_add,
    List.take_left' (length_readBytes ..)]

@[simp] theorem writeBytes_nil : writeBytes m a [] = m := by
  funext x
  simp only [writeBytes, List.length_nil]
  rw [if_neg (by omega)]

theorem writeBytes_of_mem {x : ℕ} (h₁ : a ≤ x) (h₂ : x < a + l.length) :
    writeBytes m a l x = l.getD (x - a) 0 := if_pos ⟨h₁, h₂⟩

/-- **Frame rule**: a write changes no byte outside its range. -/
theorem writeBytes_of_not_mem {x : ℕ} (h : x < a ∨ a + l.length ≤ x) :
    writeBytes m a l x = m x := if_neg (by omega)

end

/-- A read through a pointer into the memory. -/
theorem readBytes_shift (m : Mem) (a n : ℕ) :
    readBytes (fun i => m (a + i)) 0 n = readBytes m a n := by
  simp only [readBytes, Nat.zero_add]

theorem readBytes_congr {m : Mem} (m' : Mem) {a n : ℕ} (h : ∀ x, a ≤ x → x < a + n → m x = m' x) :
    readBytes m a n = readBytes m' a n := by
  apply List.map_congr_left
  intro i hi
  exact h _ (by omega) (by have := List.mem_range.1 hi; omega)

/-- A read of the written range gives the written bytes. -/
theorem readBytes_writeBytes_self (m : Mem) (a : ℕ) (l : List UInt8) {n : ℕ} (hn : n = l.length) :
    readBytes (writeBytes m a l) a n = l := by
  subst hn
  apply List.ext_getElem (by simp)
  intro i h₁ h₂
  rw [getElem_readBytes, writeBytes_of_mem _ _ _ (by omega) (by omega), Nat.add_sub_cancel_left,
    List.getD_eq_getElem _ _ h₂]

/-- A read of a range that does not meet the written one is unchanged. -/
theorem readBytes_writeBytes_of_disjoint (m : Mem) (a : ℕ) (l : List UInt8) {b n : ℕ}
    (h : b + n ≤ a ∨ a + l.length ≤ b) : readBytes (writeBytes m a l) b n = readBytes m b n :=
  readBytes_congr m fun _ _ _ => writeBytes_of_not_mem _ _ _ (by omega)

/-- Two writes to adjacent ranges are one write. -/
theorem writeBytes_append (m : Mem) (a : ℕ) (l l' : List UInt8) :
    writeBytes (writeBytes m a l) (a + l.length) l' = writeBytes m a (l ++ l') := by
  funext x
  simp only [writeBytes, List.length_append]
  by_cases h : x < a + l.length
  · rw [if_neg (by omega)]
    by_cases ha : a ≤ x
    · rw [if_pos ⟨ha, h⟩, if_pos ⟨ha, by omega⟩, List.getD_append _ _ _ _ (by omega)]
    · rw [if_neg (by omega), if_neg (by omega)]
  · by_cases h' : x < a + (l.length + l'.length)
    · rw [if_pos ⟨by omega, by omega⟩, if_pos ⟨by omega, h'⟩,
        List.getD_append_right _ _ _ _ (by omega), Nat.sub_add_eq]
    · rw [if_neg (by omega), if_neg (by omega), if_neg (by omega)]

/-! ## Sequences of writes -/

/-- The memory after a sequence of writes, in order. -/
def writeAll (m : Mem) (ws : List (ℕ × List UInt8)) : Mem :=
  ws.foldl (fun m w => writeBytes m w.1 w.2) m

@[simp] theorem writeAll_cons (m : Mem) (w : ℕ × List UInt8) (ws : List (ℕ × List UInt8)) :
    writeAll m (w :: ws) = writeAll (writeBytes m w.1 w.2) ws := rfl

/-- **Frame rule** for a sequence of writes. -/
theorem writeAll_of_not_mem (ws : List (ℕ × List UInt8)) (m : Mem) {x : ℕ}
    (h : ∀ w ∈ ws, x < w.1 ∨ w.1 + w.2.length ≤ x) : writeAll m ws x = m x := by
  induction ws generalizing m with
  | nil => rfl
  | cons w ws ih =>
    rw [writeAll_cons, ih _ fun w' hw' => h w' (by simp [hw']),
      writeBytes_of_not_mem _ _ _ (h w (by simp))]

/-- The ranges of two writes do not meet. -/
def WritesDisjoint (w w' : ℕ × List UInt8) : Prop :=
  w.1 + w.2.length ≤ w'.1 ∨ w'.1 + w'.2.length ≤ w.1

/-- After writes to disjoint ranges, each range holds the bytes written to it. -/
theorem readBytes_writeAll (ws : List (ℕ × List UInt8)) (m : Mem)
    (hd : ws.Pairwise WritesDisjoint) {w : ℕ × List UInt8} (hw : w ∈ ws) :
    readBytes (writeAll m ws) w.1 w.2.length = w.2 := by
  induction ws generalizing m with
  | nil => simp at hw
  | cons v ws ih =>
    rw [List.pairwise_cons] at hd
    rcases List.mem_cons.1 hw with rfl | hw
    · rw [writeAll_cons, readBytes_congr (writeBytes m w.1 w.2)
        fun x h₁ h₂ => writeAll_of_not_mem ws _ fun w' hw' => ?_]
      · exact readBytes_writeBytes_self _ _ _ rfl
      · rcases hd.1 w' hw' with h | h
        · exact Or.inl (by omega)
        · exact Or.inr (by omega)
    · exact ih _ hd.2 hw

/-! ## Scattered bytes -/

/-- The bytes at the given addresses. -/
def gather (m : Mem) (addrs : List ℕ) : List UInt8 := addrs.map m

/-- The memory with the bytes `l` stored at the given addresses, one by one. -/
def scatter (m : Mem) (addrs : List ℕ) (l : List UInt8) : Mem :=
  (addrs.zip l).foldl (fun m p => writeBytes m p.1 [p.2]) m

theorem gather_range' (m : Mem) (a n : ℕ) : gather m (List.range' a n) = readBytes m a n := by
  rw [gather, List.range'_eq_map_range, List.map_map]
  rfl

theorem scatter_range' (m : Mem) (a : ℕ) {n : ℕ} (l : List UInt8) (hn : l.length = n) :
    scatter m (List.range' a n) l = writeBytes m a l := by
  subst hn
  induction l generalizing m a with
  | nil => exact (writeBytes_nil m a).symm
  | cons b l ih =>
    have hstep : scatter m (List.range' a (b :: l).length) (b :: l) =
        scatter (writeBytes m a [b]) (List.range' (a + 1) l.length) l := rfl
    rw [hstep, ih]
    exact writeBytes_append m a [b] l

/-! ## Byte orders -/

/-- The number with the given bytes, least significant first. -/
def ofLe : List UInt8 → ℕ
  | [] => 0
  | b :: l => b.toNat + 256 * ofLe l

/-- The `n` low bytes of `v`, least significant first. -/
def leBytes : ℕ → ℕ → List UInt8
  | 0, _ => []
  | n + 1, v => UInt8.ofNat v :: leBytes n (v / 256)

/-- The number with the given bytes, most significant first. -/
def ofBe (l : List UInt8) : ℕ := ofLe l.reverse

/-- The `n` low bytes of `v`, most significant first. -/
def beBytes (n v : ℕ) : List UInt8 := (leBytes n v).reverse

@[simp] theorem length_leBytes (n v : ℕ) : (leBytes n v).length = n := by
  induction n generalizing v with
  | zero => rfl
  | succ n ih => simp [leBytes, ih]

@[simp] theorem length_beBytes (n v : ℕ) : (beBytes n v).length = n := by simp [beBytes]

theorem toNat_ofNat_uint8 (v : ℕ) : (UInt8.ofNat v).toNat = v % 256 := UInt8.toNat_ofNat'

/-- Masking a value to its low byte before storing it changes nothing. -/
theorem ofNat_and_255 (v : ℕ) : UInt8.ofNat (v &&& 0xFF) = UInt8.ofNat v := by
  apply UInt8.toNat_inj.1
  rw [toNat_ofNat_uint8, toNat_ofNat_uint8, show 0xFF = 2 ^ 8 - 1 from rfl, Word.and_low_mask]
  omega

theorem ofLe_leBytes_mod (n v : ℕ) : ofLe (leBytes n v) = v % 256 ^ n := by
  induction n generalizing v with
  | zero => simp [ofLe, leBytes, Nat.mod_one]
  | succ n ih =>
    rw [leBytes, ofLe, ih, toNat_ofNat_uint8, Nat.pow_succ', Nat.mod_mul]

/-- **Round trip** of little-endian bytes. -/
theorem ofLe_leBytes {n v : ℕ} (h : v < 256 ^ n) : ofLe (leBytes n v) = v := by
  rw [ofLe_leBytes_mod, Nat.mod_eq_of_lt h]

/-- **Round trip** of big-endian bytes. -/
theorem ofBe_beBytes {n v : ℕ} (h : v < 256 ^ n) : ofBe (beBytes n v) = v := by
  rw [ofBe, beBytes, List.reverse_reverse, ofLe_leBytes h]

theorem ofLe_lt (l : List UInt8) : ofLe l < 256 ^ l.length := by
  induction l with
  | nil => simp [ofLe]
  | cons b l ih =>
    have hb := b.toNat_lt
    rw [ofLe, List.length_cons, Nat.pow_succ']
    omega

theorem ofBe_lt (l : List UInt8) : ofBe l < 256 ^ l.length := by
  simpa [ofBe] using ofLe_lt l.reverse

/-- A little-endian number is its low bytes joined with its high bytes. -/
theorem ofLe_append (l l' : List UInt8) : ofLe (l ++ l') = ofLe l + 256 ^ l.length * ofLe l' := by
  induction l with
  | nil => simp [ofLe]
  | cons b l ih =>
    rw [List.cons_append, ofLe, ofLe, ih, List.length_cons, Nat.pow_succ', Nat.mul_add,
      Nat.add_assoc, Nat.mul_assoc]

/-- A big-endian number is its high bytes joined with its low bytes. -/
theorem ofBe_append (l l' : List UInt8) : ofBe (l ++ l') = ofBe l' + 256 ^ l'.length * ofBe l := by
  rw [ofBe, List.reverse_append, ofLe_append, List.length_reverse]
  rfl

/-- The little-endian number in the `n` bytes at `a`. -/
def readLe (m : Mem) (a n : ℕ) : ℕ := ofLe (readBytes m a n)

theorem readLe_writeBytes_leBytes (m : Mem) (a : ℕ) {n v : ℕ} (h : v < 256 ^ n) :
    readLe (writeBytes m a (leBytes n v)) a n = v := by
  rw [readLe, readBytes_writeBytes_self _ _ _ (by simp), ofLe_leBytes h]

/-- After writes to disjoint ranges, a range holds the number written to it. -/
theorem readLe_writeAll {ws : List (ℕ × List UInt8)} (hd : ws.Pairwise WritesDisjoint) (m : Mem)
    {a n v : ℕ} (hw : (a, leBytes n v) ∈ ws) (hv : v < 256 ^ n) :
    readLe (writeAll m ws) a n = v := by
  have hread := readBytes_writeAll ws m hd hw
  rw [length_leBytes] at hread
  rw [readLe, hread, ofLe_leBytes hv]

/-- A read of a range that no write meets is unchanged. -/
theorem readLe_writeAll_of_disjoint (ws : List (ℕ × List UInt8)) (m : Mem) {a n : ℕ}
    (h : ∀ w ∈ ws, a + n ≤ w.1 ∨ w.1 + w.2.length ≤ a) :
    readLe (writeAll m ws) a n = readLe m a n := by
  rw [readLe, readLe, readBytes_congr m fun x h₁ h₂ => writeAll_of_not_mem ws m fun w hw => ?_]
  rcases h w hw with hle | hle
  · exact .inl (by omega)
  · exact .inr (by omega)

theorem readLe_writeBytes_of_disjoint (m : Mem) (a : ℕ) (l : List UInt8) {b n : ℕ}
    (h : b + n ≤ a ∨ a + l.length ≤ b) : readLe (writeBytes m a l) b n = readLe m b n := by
  rw [readLe, readLe, readBytes_writeBytes_of_disjoint _ _ _ h]

/-- A little-endian number is that of its low bytes and that of its high bytes. -/
theorem readLe_add (m : Mem) (a n k : ℕ) :
    readLe m a (n + k) = readLe m a n + 256 ^ n * readLe m (a + n) k := by
  rw [readLe, readBytes_add, ofLe_append, length_readBytes]
  rfl

theorem readLe_lt (m : Mem) (a n : ℕ) : readLe m a n < 256 ^ n := by
  have h := ofLe_lt (readBytes m a n)
  rwa [length_readBytes] at h

theorem readLe_congr {m : Mem} (m' : Mem) {a n : ℕ} (h : ∀ x, a ≤ x → x < a + n → m x = m' x) :
    readLe m a n = readLe m' a n := by
  rw [readLe, readLe, readBytes_congr m' h]

/-! ## Values assembled from bytes with shifts -/

/-- Four bytes joined with shifts, the first lowest. -/
theorem ofLe_four (b₀ b₁ b₂ b₃ : UInt8) :
    b₀.toNat ||| b₁.toNat <<< 8 ||| b₂.toNat <<< 16 ||| b₃.toNat <<< 24 = ofLe [b₀, b₁, b₂, b₃] := by
  have h₀ := b₀.toNat_lt
  have h₁ := b₁.toNat_lt
  have h₂ := b₂.toNat_lt
  rw [Word.or_shiftLeft (k := 8) (by omega), Word.or_shiftLeft (k := 16) (by omega),
    Word.or_shiftLeft (k := 24) (by omega)]
  simp only [ofLe]
  omega

/-- Four bytes joined with shifts, the first highest. -/
theorem ofBe_four (b₀ b₁ b₂ b₃ : UInt8) :
    b₀.toNat <<< 24 ||| b₁.toNat <<< 16 ||| b₂.toNat <<< 8 ||| b₃.toNat = ofBe [b₀, b₁, b₂, b₃] := by
  have h := ofLe_four b₃ b₂ b₁ b₀
  rw [ofBe, List.reverse_cons, List.reverse_cons, List.reverse_cons, List.reverse_cons,
    List.reverse_nil, List.nil_append, List.singleton_append, List.cons_append, List.singleton_append,
    List.cons_append, List.cons_append, List.singleton_append, ← h]
  rw [Nat.or_comm _ b₃.toNat, Nat.or_comm (_ ||| _) (b₂.toNat <<< 8), Nat.or_comm (b₀.toNat <<< 24),
    ← Nat.or_assoc, ← Nat.or_assoc]

theorem leBytes_add (n k v : ℕ) : leBytes (n + k) v = leBytes n v ++ leBytes k (v / 256 ^ n) := by
  induction n generalizing v with
  | zero => simp [leBytes]
  | succ n ih =>
    rw [Nat.add_right_comm, leBytes, ih, leBytes, List.cons_append, Nat.div_div_eq_div_mul,
      ← Nat.pow_succ']

/-- Only the lowest bytes of a number are stored. -/
theorem leBytes_mod (n v : ℕ) : leBytes n (v % 256 ^ n) = leBytes n v := by
  induction n generalizing v with
  | zero => rfl
  | succ n ih =>
    have hbyte : UInt8.ofNat (v % 256 ^ (n + 1)) = UInt8.ofNat v := by
      rw [← UInt8.toNat_inj, toNat_ofNat_uint8, toNat_ofNat_uint8, Nat.pow_succ',
        Nat.mod_mul_right_mod]
    rw [leBytes, leBytes, hbyte, Nat.pow_succ', Nat.mod_mul_right_div_self, ih]

/-- Storing a number byte by byte, lowest first. -/
theorem foldl_writeBytes_leBytes (m : Mem) (a n v : ℕ) :
    (List.range n).foldl
      (fun m b => writeBytes m (a + b) [UInt8.ofNat ((v >>> (b * 8)) &&& 0xFF)]) m =
      writeBytes m a (leBytes n v) := by
  induction n with
  | zero => simp [leBytes]
  | succ n ih =>
    rw [List.range_succ, List.foldl_append, ih, List.foldl_cons, List.foldl_nil]
    have hlen : a + n = a + (leBytes n v).length := by simp
    rw [hlen, writeBytes_append, leBytes_add, ofNat_and_255, Word.shiftRight_eq]
    simp only [leBytes, Nat.mul_comm n 8, Nat.pow_mul]

end RvvmHal.Bytes
