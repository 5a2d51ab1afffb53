import RvvmHal.Foundations.CString

/-!
# The file directory of fw-cfg

`fw_cfg.c`: the host has entries, each a stream of bytes under a key. A write to the selector port
chooses an entry, and the data port gives its bytes one after the other. The directory is such an
entry: a count and that many records of 64 bytes, with numbers in big-endian order and a name that
ends with a NUL.

The code reads each record as the memory image of a little-endian structure and swaps the numbers
afterwards. It compares the name of the record with the one that is looked for byte by byte, up to
the first difference or the NUL.

A lookup finds the first record with the name, consumes the records up to it and no others, and
never reads the name behind its NUL (`fw_cfg_find_file_correct`).
-/

namespace RvvmHal.FwCfg

open Bytes CString

abbrev FW_CFG_FILE_DIR : ℕ := 0x0019

/-- `bswap16`. -/
def bswap16 (v : ℕ) : ℕ := (v <<< 8 ||| v >>> 8) % 2 ^ 16

/-- `bswap32`. -/
def bswap32 (v : ℕ) : ℕ :=
  (v &&& 0x000000FF) <<< 24 ||| (v &&& 0x0000FF00) <<< 8 ||| (v &&& 0x00FF0000) >>> 8 |||
    (v &&& 0xFF000000) >>> 24

/-! ## The device -/

/-- The host's side: the bytes of the entries by their keys, the key of the entry selected, and the
position of the byte that the data port gives next. -/
structure Device where
  entry : ℕ → Mem
  sel : ℕ
  pos : ℕ

/-- A write to the selector port, which is big-endian. -/
def Device.writeSel (d : Device) (v : ℕ) : Device := { d with sel := bswap16 v, pos := 0 }

/-- A read of the data port. -/
def Device.readData (d : Device) : UInt8 × Device :=
  (d.entry d.sel d.pos, { d with pos := d.pos + 1 })

/-- `fw_cfg_select`. -/
def fwCfgSelect (d : Device) (sel : ℕ) : Device := d.writeSel (bswap16 sel)

/-- `fw_cfg_read`: the bytes that are stored at `dst`. -/
def fwCfgRead : ℕ → Device → List UInt8 × Device
  | 0, d => ([], d)
  | len + 1, d =>
    let (b, d) := d.readData
    let (l, d) := fwCfgRead len d
    (b :: l, d)

/-! ## The lookup -/

/-- `fw_cfg_file_t`. -/
structure FwCfgFile where
  size : ℕ
  select : ℕ
  reserved : ℕ
  name : List UInt8
  deriving DecidableEq

/-- The structure with these 64 bytes in memory. -/
def FwCfgFile.ofImage (img : List UInt8) : FwCfgFile where
  size := ofLe (img.take 4)
  select := ofLe ((img.drop 4).take 2)
  reserved := ofLe (((img.drop 4).drop 2).take 2)
  name := ((img.drop 4).drop 2).drop 2

/-- The next record of the directory, with its numbers in host order. -/
def readEntry (d : Device) : FwCfgFile × Device :=
  let (img, d) := fwCfgRead 64 d
  let e := FwCfgFile.ofImage img
  ({ e with size := bswap32 e.size, select := bswap16 e.select }, d)

/-- The comparison of the string `name`, from byte `k` on, with the rest of a record's name: the
result, and the bytes of the string that are read. -/
def nameMatch (name : Mem) : ℕ → List UInt8 → Bool × List ℕ
  | _, [] => (true, [])
  | k, b :: l =>
    if name k ≠ b then (false, [k])
    else if name k = 0 then (true, [k])
    else
      let (m, reads) := nameMatch name (k + 1) l
      (m, k :: reads)

/-- What a lookup does: its result, what the output holds after it, where `none` is a pointer that
is NULL, the device, and the bytes of the string `name` that are read. -/
structure FindCall where
  found : Bool
  out : Option FwCfgFile
  dev : Device
  reads : List ℕ

/-- The loop over the records, of which so many are left. -/
def findLoop (name : Mem) (out : Option FwCfgFile) : ℕ → Device → List ℕ → FindCall
  | 0, d, reads => ⟨false, out, d, reads⟩
  | left + 1, d, reads =>
    let (e, d) := readEntry d
    let (m, rs) := nameMatch name 0 e.name
    if m then ⟨true, out.map fun _ => e, d, reads ++ rs⟩ else findLoop name out left d (reads ++ rs)

/-- The count that the directory begins with. -/
def dirCount (cb : List UInt8) : ℕ :=
  (cb.getD 0 0).toNat <<< 24 ||| (cb.getD 1 0).toNat <<< 16 ||| (cb.getD 2 0).toNat <<< 8 |||
    (cb.getD 3 0).toNat

/-- `fw_cfg_find_file`; `fwCfgOk` is the variable `fw_cfg_ok`. -/
def fwCfgFindFile (fwCfgOk : Bool) (name : Mem) (out : Option FwCfgFile) (d : Device) : FindCall :=
  if fwCfgOk then
    let (cb, d) := fwCfgRead 4 (fwCfgSelect d FW_CFG_FILE_DIR)
    findLoop name out (dirCount cb) d []
  else ⟨false, out, d, []⟩

/-! ## Byte orders -/

theorem bswap16_ofLe (b₀ b₁ : UInt8) : bswap16 (ofLe [b₀, b₁]) = ofBe [b₀, b₁] := by
  have h₀ := b₀.toNat_lt
  have h₁ := b₁.toNat_lt
  have hle : ofLe [b₀, b₁] = b₀.toNat + 256 * b₁.toNat := rfl
  have hbe : ofBe [b₀, b₁] = b₁.toNat + 256 * b₀.toNat := rfl
  have hhigh : ofLe [b₀, b₁] / 2 ^ 8 = b₁.toNat := by omega
  rw [bswap16, Word.shiftRight_eq, hhigh, Nat.or_comm, Word.or_shiftLeft (by omega), hle, hbe]
  omega

theorem bswap32_ofLe (b₀ b₁ b₂ b₃ : UInt8) :
    bswap32 (ofLe [b₀, b₁, b₂, b₃]) = ofBe [b₀, b₁, b₂, b₃] := by
  have h₀ := b₀.toNat_lt
  have h₁ := b₁.toNat_lt
  have h₂ := b₂.toNat_lt
  have h₃ := b₃.toNat_lt
  generalize hv : ofLe [b₀, b₁, b₂, b₃] = v
  simp only [ofLe] at hv
  have hmask₀ : v &&& 0x000000FF = b₀.toNat * 2 ^ 0 := by
    rw [← show v / 2 ^ 0 % 2 ^ 8 = b₀.toNat by omega]
    exact Word.and_field_mask 8 0 v
  have hmask₁ : v &&& 0x0000FF00 = b₁.toNat * 2 ^ 8 := by
    rw [← show v / 2 ^ 8 % 2 ^ 8 = b₁.toNat by omega]
    exact Word.and_field_mask 8 8 v
  have hmask₂ : v &&& 0x00FF0000 = b₂.toNat * 2 ^ 16 := by
    rw [← show v / 2 ^ 16 % 2 ^ 8 = b₂.toNat by omega]
    exact Word.and_field_mask 8 16 v
  have hmask₃ : v &&& 0xFF000000 = b₃.toNat * 2 ^ 24 := by
    rw [← show v / 2 ^ 24 % 2 ^ 8 = b₃.toNat by omega]
    exact Word.and_field_mask 8 24 v
  have hshift₁ : (b₁.toNat * 2 ^ 8) <<< 8 = b₁.toNat <<< 16 := by
    rw [Nat.shiftLeft_eq, Nat.shiftLeft_eq]
    omega
  have hshift₂ : (b₂.toNat * 2 ^ 16) >>> 8 = b₂.toNat <<< 8 := by
    rw [Word.shiftRight_eq, Nat.shiftLeft_eq]
    omega
  have hshift₃ : (b₃.toNat * 2 ^ 24) >>> 24 = b₃.toNat := by
    rw [Word.shiftRight_eq]
    omega
  rw [bswap32, hmask₀, Nat.pow_zero, Nat.mul_one, hmask₁, hmask₂, hmask₃, hshift₁, hshift₂,
    hshift₃, ofBe_four]

/-- The swap of a number that the wire has in big-endian order. -/
theorem bswap16_beBytes {v : ℕ} (hv : v < 2 ^ 16) : bswap16 (ofLe (beBytes 2 v)) = v :=
  (bswap16_ofLe _ _).trans (ofBe_beBytes (n := 2) (by omega))

theorem bswap32_beBytes {v : ℕ} (hv : v < 2 ^ 32) : bswap32 (ofLe (beBytes 4 v)) = v :=
  (bswap32_ofLe _ _ _ _).trans (ofBe_beBytes (n := 4) (by omega))

theorem dirCount_beBytes {v : ℕ} (hv : v < 2 ^ 32) : dirCount (beBytes 4 v) = v :=
  (ofBe_four _ _ _ _).trans (ofBe_beBytes (n := 4) (by omega))

/-! ## The stream -/

/-- A read gives the next bytes of the entry. -/
theorem fwCfgRead_eq (len : ℕ) (d : Device) :
    fwCfgRead len d = (readBytes (d.entry d.sel) d.pos len, { d with pos := d.pos + len }) := by
  induction len generalizing d with
  | zero => rfl
  | succ len ih =>
    rw [fwCfgRead, Device.readData]
    dsimp only
    rw [ih, readBytes_succ, Nat.add_assoc, Nat.add_comm 1]

/-- The directory is read from its beginning. -/
theorem fwCfgSelect_dir (d : Device) :
    fwCfgSelect d FW_CFG_FILE_DIR = { d with sel := FW_CFG_FILE_DIR, pos := 0 } := rfl

/-! ## Records -/

/-- A record of the directory. Its name ends with a NUL in a field of 56 bytes. -/
structure DirEntry where
  size : ℕ
  select : ℕ
  reserved : ℕ
  name : List UInt8
  pad : List UInt8
  size_lt : size < 2 ^ 32
  select_lt : select < 2 ^ 16
  reserved_lt : reserved < 2 ^ 16
  name_nul : 0 ∉ name
  length_name : (name ++ 0 :: pad).length = 56

/-- The bytes of a record on the wire. -/
def DirEntry.bytes (e : DirEntry) : List UInt8 :=
  beBytes 4 e.size ++ (beBytes 2 e.select ++ (leBytes 2 e.reserved ++ (e.name ++ 0 :: e.pad)))

/-- The record in host order. -/
def DirEntry.file (e : DirEntry) : FwCfgFile := ⟨e.size, e.select, e.reserved, e.name ++ 0 :: e.pad⟩

theorem DirEntry.length_bytes (e : DirEntry) : e.bytes.length = 64 := by
  rw [bytes, List.length_append, List.length_append, List.length_append, e.length_name,
    length_beBytes, length_beBytes, length_leBytes]

theorem length_flatMap_bytes (entries : List DirEntry) :
    (entries.flatMap DirEntry.bytes).length = 64 * entries.length := by
  induction entries with
  | nil => rfl
  | cons e entries ih =>
    rw [List.flatMap_cons, List.length_append, e.length_bytes, ih, List.length_cons]
    omega

/-- The fields of the memory image of a record. -/
theorem ofImage_bytes (e : DirEntry) :
    FwCfgFile.ofImage e.bytes =
      ⟨ofLe (beBytes 4 e.size), ofLe (beBytes 2 e.select), e.reserved, e.name ++ 0 :: e.pad⟩ := by
  have hsize : e.bytes.take 4 = beBytes 4 e.size := List.take_left' (length_beBytes 4 e.size)
  have hrest : e.bytes.drop 4 = _ := List.drop_left' (length_beBytes 4 e.size)
  have hreserved := ofLe_leBytes (n := 2) (v := e.reserved) e.reserved_lt
  rw [FwCfgFile.ofImage, hsize, hrest, List.drop_left' (length_beBytes ..),
    List.drop_left' (length_leBytes ..), List.take_left' (length_beBytes ..),
    List.take_left' (length_leBytes ..), hreserved]

/-- **A record is read** in host order, and the stream is at the next one. -/
theorem readEntry_eq {d : Device} {e : DirEntry}
    (h : readBytes (d.entry d.sel) d.pos 64 = e.bytes) :
    readEntry d = (e.file, { d with pos := d.pos + 64 }) := by
  rw [readEntry, fwCfgRead_eq, h]
  dsimp only
  rw [ofImage_bytes, bswap32_beBytes e.size_lt, bswap16_beBytes e.select_lt]
  rfl

/-! ## Names -/

theorem le_of_mem_singleton {i k : ℕ} (n : ℕ) (hi : i ∈ [k]) : i ≤ k + n :=
  (List.mem_singleton.1 hi).le.trans (Nat.le_add_right k n)

/-- **The comparison of names** decides equality, and reads the string up to its NUL. -/
theorem nameMatch_eq {name : Mem} {k : ℕ} {q s : List UInt8} (hq : StringAt name k q) (hs : 0 ∉ s)
    (pad : List UInt8) :
    (nameMatch name k (s ++ 0 :: pad)).1 = decide (s = q) ∧
      ∀ i ∈ (nameMatch name k (s ++ 0 :: pad)).2, i ≤ k + q.length := by
  induction s generalizing k q with
  | nil =>
    cases q with
    | nil =>
      rw [List.nil_append, nameMatch, if_neg (not_not.2 hq.nil), if_pos hq.nil]
      exact ⟨rfl, fun _ => le_of_mem_singleton _⟩
    | cons c q =>
      obtain ⟨hhead, hc, -⟩ := hq.cons
      rw [List.nil_append, nameMatch, if_pos (hhead ▸ hc)]
      exact ⟨rfl, fun _ => le_of_mem_singleton _⟩
  | cons b s ih =>
    rw [List.mem_cons, not_or] at hs
    cases q with
    | nil =>
      rw [List.cons_append, nameMatch, if_pos (hq.nil ▸ hs.1)]
      exact ⟨rfl, fun _ => le_of_mem_singleton _⟩
    | cons c q =>
      obtain ⟨hhead, hc, htail⟩ := hq.cons
      rw [List.cons_append, nameMatch, hhead]
      by_cases hcb : c = b
      · obtain ⟨hmatch, hreads⟩ := ih htail hs.2
        rw [if_neg (not_not.2 hcb), if_neg hc]
        refine ⟨?_, fun i hi => ?_⟩
        · rw [hmatch, hcb]
          simp
        · rw [List.length_cons]
          rcases List.mem_cons.1 hi with rfl | hi
          · omega
          · have hle := hreads i hi
            omega
      · rw [if_pos hcb]
        exact ⟨by simp [Ne.symm hcb], fun _ => le_of_mem_singleton _⟩

/-! ## The loop -/

section

variable {name : Mem} {q : List UInt8} {d : Device} {e : DirEntry}

/-- The record with the name ends the lookup. -/
theorem findLoop_match (hq : StringAt name 0 q)
    (h : readBytes (d.entry d.sel) d.pos 64 = e.bytes) (heq : e.name = q)
    (out : Option FwCfgFile) (left : ℕ) (reads : List ℕ) :
    ∃ rs, (∀ i ∈ rs, i ≤ q.length) ∧ findLoop name out (left + 1) d reads =
      ⟨true, out.map fun _ => e.file, { d with pos := d.pos + 64 }, reads ++ rs⟩ := by
  obtain ⟨hmatch, hreads⟩ := nameMatch_eq hq e.name_nul e.pad
  rw [Nat.zero_add] at hreads
  refine ⟨_, hreads, ?_⟩
  rw [findLoop, readEntry_eq h]
  exact if_pos (hmatch.trans (decide_eq_true heq))

/-- Any other record is consumed. -/
theorem findLoop_next (hq : StringAt name 0 q)
    (h : readBytes (d.entry d.sel) d.pos 64 = e.bytes) (hne : e.name ≠ q)
    (out : Option FwCfgFile) (left : ℕ) (reads : List ℕ) :
    ∃ rs, (∀ i ∈ rs, i ≤ q.length) ∧ findLoop name out (left + 1) d reads =
      findLoop name out left { d with pos := d.pos + 64 } (reads ++ rs) := by
  obtain ⟨hmatch, hreads⟩ := nameMatch_eq hq e.name_nul e.pad
  rw [Nat.zero_add] at hreads
  refine ⟨_, hreads, ?_⟩
  rw [findLoop, readEntry_eq h]
  exact if_neg (Bool.eq_false_iff.1 (hmatch.trans (decide_eq_false hne)))

/-- **The records before** the one with the name are consumed, one after the other. -/
theorem findLoop_skip (hq : StringAt name 0 q) {before : List DirEntry}
    (h : readBytes (d.entry d.sel) d.pos (64 * before.length) = before.flatMap DirEntry.bytes)
    (hne : ∀ e ∈ before, e.name ≠ q) (out : Option FwCfgFile) (left : ℕ) (reads : List ℕ) :
    ∃ rs, (∀ i ∈ rs, i ≤ q.length) ∧ findLoop name out (before.length + left) d reads =
      findLoop name out left { d with pos := d.pos + 64 * before.length } (reads ++ rs) := by
  induction before generalizing d reads with
  | nil => exact ⟨[], nofun, by rw [List.append_nil, List.length_nil, Nat.zero_add]; rfl⟩
  | cons e before ih =>
    have hlen : 64 * (e :: before).length = 64 + 64 * before.length := by
      rw [List.length_cons]
      omega
    rw [hlen, readBytes_add, List.flatMap_cons] at h
    obtain ⟨hhead, htail⟩ := List.append_inj h (by rw [length_readBytes, e.length_bytes])
    rw [List.forall_mem_cons] at hne
    obtain ⟨rs, hrs, hnext⟩ := findLoop_next hq hhead hne.1 out (before.length + left) reads
    obtain ⟨rs', hrs', hskip⟩ := ih (d := { d with pos := d.pos + 64 }) htail hne.2 (reads ++ rs)
    refine ⟨rs ++ rs', fun i hi => (List.mem_append.1 hi).elim (hrs i) (hrs' i), ?_⟩
    have hpos : d.pos + 64 + 64 * before.length = d.pos + (64 + 64 * before.length) :=
      Nat.add_assoc ..
    rw [hlen, List.length_cons, Nat.add_right_comm, hnext, hskip, List.append_assoc, hpos]

end

/-! ## Main result -/

/-- The entry of the host is a directory with these records. -/
structure HoldsDirectory (m : Mem) (entries : List DirEntry) : Prop where
  length_lt : entries.length < 2 ^ 32
  bytes : readBytes m 0 (4 + 64 * entries.length) =
    beBytes 4 entries.length ++ entries.flatMap DirEntry.bytes

section

variable {name : Mem} {q : List UInt8} {entries : List DirEntry} {d : Device}

/-- The lookup begins with the first record. -/
theorem fwCfgFindFile_eq (h : HoldsDirectory (d.entry FW_CFG_FILE_DIR) entries) (name : Mem)
    (out : Option FwCfgFile) :
    readBytes (d.entry FW_CFG_FILE_DIR) 4 (64 * entries.length) =
        entries.flatMap DirEntry.bytes ∧
      fwCfgFindFile true name out d =
        findLoop name out entries.length { d with sel := FW_CFG_FILE_DIR, pos := 4 } [] := by
  have hbytes := h.bytes
  rw [readBytes_add] at hbytes
  obtain ⟨hcount, hrecords⟩ := List.append_inj hbytes (by simp)
  rw [Nat.zero_add] at hrecords
  refine ⟨hrecords, ?_⟩
  rw [fwCfgFindFile, if_pos rfl, fwCfgSelect_dir, fwCfgRead_eq]
  dsimp only
  rw [hcount, dirCount_beBytes h.length_lt]

/-- The record at index `i` is where the stream is after so many records. -/
theorem record_of_append (h : readBytes (d.entry FW_CFG_FILE_DIR) 4 (64 * entries.length) =
    entries.flatMap DirEntry.bytes) {before after : List DirEntry} {e : DirEntry}
    (hentries : entries = before ++ e :: after) :
    readBytes (d.entry FW_CFG_FILE_DIR) 4 (64 * before.length) = before.flatMap DirEntry.bytes ∧
      readBytes (d.entry FW_CFG_FILE_DIR) (4 + 64 * before.length) 64 = e.bytes := by
  have hlen : 64 * entries.length = 64 * before.length + (64 + 64 * after.length) := by
    rw [hentries, List.length_append, List.length_cons]
    omega
  rw [hlen, hentries, readBytes_add, readBytes_add, List.flatMap_append, List.flatMap_cons] at h
  obtain ⟨hbefore, hrest⟩ := List.append_inj h (by rw [length_readBytes, length_flatMap_bytes])
  exact ⟨hbefore, (List.append_inj hrest (by rw [length_readBytes, e.length_bytes])).1⟩

/-- **The lookup finds** the first record with the name, and the stream is behind it. -/
theorem fwCfgFindFile_hit (h : HoldsDirectory (d.entry FW_CFG_FILE_DIR) entries)
    (hq : StringAt name 0 q) (out : Option FwCfgFile) {before after : List DirEntry} {e : DirEntry}
    (hentries : entries = before ++ e :: after) (hname : e.name = q)
    (hne : ∀ e' ∈ before, e'.name ≠ q) :
    ∃ rs, (∀ i ∈ rs, i ≤ q.length) ∧ fwCfgFindFile true name out d = ⟨true, out.map fun _ => e.file,
      { d with sel := FW_CFG_FILE_DIR, pos := 4 + 64 * (before.length + 1) }, rs⟩ := by
  obtain ⟨hrecords, heq⟩ := fwCfgFindFile_eq h name out
  obtain ⟨hbefore, he⟩ := record_of_append hrecords hentries
  have hlen : entries.length = before.length + (after.length + 1) := by
    rw [hentries, List.length_append, List.length_cons]
  obtain ⟨rs, hrs, hskip⟩ := findLoop_skip hq
    (d := { d with sel := FW_CFG_FILE_DIR, pos := 4 }) hbefore hne out (after.length + 1) []
  obtain ⟨rs', hrs', hmatch⟩ := findLoop_match hq
    (d := { d with sel := FW_CFG_FILE_DIR, pos := 4 + 64 * before.length }) he hname out
    after.length ([] ++ rs)
  refine ⟨rs ++ rs', fun i hi => (List.mem_append.1 hi).elim (hrs i) (hrs' i), ?_⟩
  rw [heq, hlen, hskip, hmatch]
  rfl

/-- **The lookup fails** when no record has the name, and the stream is behind the last one. -/
theorem fwCfgFindFile_miss (h : HoldsDirectory (d.entry FW_CFG_FILE_DIR) entries)
    (hq : StringAt name 0 q) (out : Option FwCfgFile) (hne : ∀ e ∈ entries, e.name ≠ q) :
    ∃ rs, (∀ i ∈ rs, i ≤ q.length) ∧ fwCfgFindFile true name out d =
      ⟨false, out, { d with sel := FW_CFG_FILE_DIR, pos := 4 + 64 * entries.length }, rs⟩ := by
  obtain ⟨hrecords, heq⟩ := fwCfgFindFile_eq h name out
  obtain ⟨rs, hrs, hskip⟩ := findLoop_skip hq
    (d := { d with sel := FW_CFG_FILE_DIR, pos := 4 }) hrecords hne out 0 []
  exact ⟨rs, hrs, heq.trans hskip⟩

/-- There is a first record with the name, or none has it. -/
theorem first_or_none (entries : List DirEntry) (q : List UInt8) :
    (∃ before e after, entries = before ++ e :: after ∧ e.name = q ∧
      ∀ e' ∈ before, e'.name ≠ q) ∨ ∀ e ∈ entries, e.name ≠ q := by
  cases hfind : entries.find? fun e => e.name = q with
  | none =>
    rw [List.find?_eq_none] at hfind
    exact .inr fun e he => by simpa using hfind e he
  | some e =>
    obtain ⟨hname, before, after, hentries, hne⟩ := List.find?_eq_some_iff_append.1 hfind
    exact .inl ⟨before, e, after, hentries, by simpa using hname,
      fun e' he' => by simpa using hne e' he'⟩

/-- **The lookup of a file is correct.** In a directory with these records, for every name:

* it succeeds exactly when some record has the name;
* the output is then the first such record in host order, and the stream is behind it;
* otherwise the output stays as it was, and the stream is behind the last record;
* every record is read at its own place, in host order, and the next one comes after it;
* the name is not read behind its NUL. -/
theorem fw_cfg_find_file_correct (h : HoldsDirectory (d.entry FW_CFG_FILE_DIR) entries)
    (hq : StringAt name 0 q) (out : Option FwCfgFile) :
    ((fwCfgFindFile true name out d).found = true ↔ ∃ e ∈ entries, e.name = q) ∧
    (∀ before e after, entries = before ++ e :: after → e.name = q →
      (∀ e' ∈ before, e'.name ≠ q) →
        (fwCfgFindFile true name out d).out = out.map (fun _ => e.file) ∧
        (fwCfgFindFile true name out d).dev =
          { d with sel := FW_CFG_FILE_DIR, pos := 4 + 64 * (before.length + 1) }) ∧
    ((∀ e ∈ entries, e.name ≠ q) →
      (fwCfgFindFile true name out d).out = out ∧
      (fwCfgFindFile true name out d).dev =
        { d with sel := FW_CFG_FILE_DIR, pos := 4 + 64 * entries.length }) ∧
    (∀ before e after, entries = before ++ e :: after →
      readEntry { d with sel := FW_CFG_FILE_DIR, pos := 4 + 64 * before.length } =
        (e.file, { d with sel := FW_CFG_FILE_DIR, pos := 4 + 64 * (before.length + 1) })) ∧
    ∀ i ∈ (fwCfgFindFile true name out d).reads, i ≤ q.length := by
  refine ⟨?_, fun before e after hentries hname hne => ?_, fun hne => ?_,
    fun before e after hentries => ?_, ?_⟩
  · rcases first_or_none entries q with ⟨before, e, after, hentries, hname, hne⟩ | hne
    · obtain ⟨rs, -, heq⟩ := fwCfgFindFile_hit h hq out hentries hname hne
      have hmem : e ∈ entries := by
        rw [hentries]
        exact List.mem_append_right _ List.mem_cons_self
      rw [heq]
      exact iff_of_true rfl ⟨e, hmem, hname⟩
    · obtain ⟨rs, -, heq⟩ := fwCfgFindFile_miss h hq out hne
      rw [heq]
      exact iff_of_false nofun fun ⟨e, he, hname⟩ => hne e he hname
  · obtain ⟨rs, -, heq⟩ := fwCfgFindFile_hit h hq out hentries hname hne
    rw [heq]
    exact ⟨rfl, rfl⟩
  · obtain ⟨rs, -, heq⟩ := fwCfgFindFile_miss h hq out hne
    rw [heq]
    exact ⟨rfl, rfl⟩
  · obtain ⟨hrecords, -⟩ := fwCfgFindFile_eq h name out
    exact readEntry_eq (record_of_append hrecords hentries).2
  · rcases first_or_none entries q with ⟨before, e, after, hentries, hname, hne⟩ | hne
    · obtain ⟨rs, hrs, heq⟩ := fwCfgFindFile_hit h hq out hentries hname hne
      rw [heq]
      exact hrs
    · obtain ⟨rs, hrs, heq⟩ := fwCfgFindFile_miss h hq out hne
      rw [heq]
      exact hrs

end

/-- The stream of a directory. -/
def dirMem (entries : List DirEntry) : Mem :=
  fun i => (beBytes 4 entries.length ++ entries.flatMap DirEntry.bytes).getD i 0

/-- Every list of records has a directory. -/
theorem holdsDirectory_dirMem {entries : List DirEntry} (h : entries.length < 2 ^ 32) :
    HoldsDirectory (dirMem entries) entries := by
  refine ⟨h, List.ext_getElem ?_ fun i h₁ h₂ => ?_⟩
  · rw [length_readBytes, List.length_append, length_beBytes, length_flatMap_bytes]
  · rw [getElem_readBytes, Nat.zero_add]
    exact List.getD_eq_getElem _ _ h₂

/-- A record whose name is padded with zeros. -/
def DirEntry.padded (size select : ℕ) (name : List UInt8) (pad : ℕ)
    (h : size < 2 ^ 32 ∧ select < 2 ^ 16 ∧ 0 ∉ name ∧
      (name ++ 0 :: List.replicate pad 0).length = 56) : DirEntry where
  size := size
  select := select
  reserved := 0
  name := name
  pad := List.replicate pad 0
  size_lt := h.1
  select_lt := h.2.1
  reserved_lt := Nat.two_pow_pos 16
  name_nul := h.2.2.1
  length_name := h.2.2.2

/-- Two records, the name of the second a prefix of that of the first. -/
def bootFile : DirEntry := .padded 16 0x20 (cstr "etc/boot") 47 (by decide)

def etcFile : DirEntry := .padded 0x12345678 0x0102 (cstr "etc") 52 (by decide)

/-- The second record is found by its name. -/
theorem fw_cfg_find_file_etc :
    (fwCfgFindFile true (fun i => (cstr "etc" ++ [0]).getD i 0) (some bootFile.file)
      ⟨fun _ => dirMem [bootFile, etcFile], 0, 0⟩).out = some etcFile.file := by
  obtain ⟨-, hfirst, -⟩ := fw_cfg_find_file_correct
    (d := ⟨fun _ => dirMem [bootFile, etcFile], 0, 0⟩) (holdsDirectory_dirMem (by decide))
    (show StringAt (fun i => (cstr "etc" ++ [0]).getD i 0) 0 (cstr "etc") by decide)
    (some bootFile.file)
  exact (hfirst [bootFile] etcFile [] rfl rfl (by decide)).1

end RvvmHal.FwCfg
