import RvvmHal.Fatfs.Copies
import RvvmHal.Fatfs.Remount
import RvvmHal.Foundations.Splice

/-!
# Open files

`f_read`, `f_write`, `f_lseek`, `f_truncate` and `f_sync` on a FAT volume. An open file has the place
of its read/write pointer, the cluster of that place, and a buffer of its own for one sector, which
may be dirty. Whole sectors go past the buffer, as many at once as the cluster has; the ends of a
request go through it. The loops of `f_read` and `f_write` are turns (`readTurn`, `writeTurn`), each
up to the end of a sector or of a cluster.
-/

namespace RvvmHal.Fatfs

open Nvme

/-- The fields of `FIL` that change while the file is open, with the flags `FA_READ`, `FA_WRITE`,
`FA_MODIFIED` and `FA_DIRTY` one by one, and the place of its directory entry. -/
structure Fil where
  sclust : ℕ
  objsize : ℕ
  canRead : Bool
  canWrite : Bool
  modified : Bool
  dirty : Bool
  err : FResult
  fptr : ℕ
  clust : ℕ
  sect : ℕ
  dirSect : ℕ
  dirOff : ℕ
  buf : Sector

namespace Fil

variable (fp : Fil)

/-- `ABORT`. -/
def abort (res : FResult) : Fil := { fp with err := res }

/-- The file at another cluster. -/
def atClust (clst : ℕ) : Fil := { fp with clust := clst }

/-- The file with a chain that starts at `clst`, at that cluster. -/
def atStart (clst : ℕ) : Fil := { fp with sclust := clst, clust := clst }

/-- The file after its buffer has been written back. -/
def flushed : Fil := { fp with dirty := false }

/-- The file after a sector has been read into its buffer. -/
def filled (b : Sector) : Fil := { fp with buf := b }

/-- The file when its buffer is for another sector. -/
def atSect (sect : ℕ) : Fil := { fp with sect := sect }

/-- The file with data put into its buffer. -/
def poked (off : ℕ) (l : List UInt8) : Fil := { fp with buf := poke fp.buf off l, dirty := true }

/-- The file after the pointer has moved on. -/
def moved (n : ℕ) : Fil := { fp with fptr := fp.fptr + n }

@[simp] theorem moved_fptr (n : ℕ) : (fp.moved n).fptr = fp.fptr + n := rfl

@[simp] theorem moved_clust (n : ℕ) : (fp.moved n).clust = fp.clust := rfl

/-- The file with another place of its pointer. -/
def seeked (n : ℕ) : Fil := { fp with fptr := n }

/-- The file when it is as long as its pointer is far. -/
def grown : Fil := { fp with objsize := max fp.fptr fp.objsize }

/-- The file with the change flag set. -/
def changed : Fil := { fp with modified := true }

end Fil

section

variable {σ : Type*} (D : Drive σ) (V : Vol)

/-- `bcs`, the bytes of a cluster. -/
def Vol.bcs : ℕ := V.csize * lbaSize

/-- `csect`, the sector of a place in its cluster. -/
def csect (fptr : ℕ) : ℕ := fptr / lbaSize &&& (V.csize - 1)

/-- The write-back of the sector buffer. -/
def flushFil (f : FatFs σ) (fp : Fil) : FatFs σ × Fil × Bool :=
  if fp.dirty then
    let w := D.writeSector f.io fp.buf fp.sect
    (f.used w.1, if w.2 then fp.flushed else fp, w.2)
  else (f, fp, true)

/-- The fill of the sector buffer. -/
def loadFil (f : FatFs σ) (fp : Fil) (sect : ℕ) : FatFs σ × Fil × Bool :=
  let d := D.readSector f.io sect
  (f.used d.1, fp.filled d.2.1, d.2.2)

/-! ## `f_read` -/

/-- The cluster at which `f_read` goes on. -/
def readClust (f : FatFs σ) (fp : Fil) : FatFs σ × Except FResult Fil :=
  if csect V fp.fptr ≠ 0 then (f, .ok fp)
  else
    let r := if fp.fptr = 0 then (f, fp.sclust) else getFat D V f fp.clust
    (r.1, if r.2 < 2 then .error .intErr
      else if r.2 = diskError then .error .diskErr
      else .ok (fp.atClust r.2))

/-- The bytes of the buffer from the pointer on, up to the end of the sector. -/
def readPartial (fp : Fil) (btr : ℕ) : List UInt8 :=
  ((bytesOf fp.buf).drop (fp.fptr % lbaSize)).take btr

/-- The sectors that have been read, with a dirty one replaced by the buffer. -/
def patchRead (fp : Fil) (sect cc : ℕ) (l : List UInt8) : List UInt8 :=
  let k := (fp.sect + 2 ^ 32 - sect) % 2 ^ 32
  if fp.dirty ∧ k < cc then splice l (lbaSize * k) (bytesOf fp.buf) else l

/-- A turn of `f_read` from a sector boundary on, when the sector is known. -/
def readSects (f : FatFs σ) (fp : Fil) (sect btr : ℕ) : FatFs σ × Fil × Except FResult (List UInt8) :=
  let cc := btr / lbaSize
  if 0 < cc then
    let cc := if V.csize < csect V fp.fptr + cc then V.csize - csect V fp.fptr else cc
    let d := D.read f.io sect cc
    (f.used d.1, fp, if d.2.2 then .ok (patchRead fp sect cc d.2.1) else .error .diskErr)
  else if fp.sect ≠ sect then
    let w := flushFil D f fp
    if w.2.2 then
      let d := loadFil D w.1 w.2.1 sect
      if d.2.2 then
        (d.1, d.2.1.atSect sect, .ok (readPartial (d.2.1.atSect sect) btr))
      else (d.1, d.2.1, .error .diskErr)
    else (w.1, w.2.1, .error .diskErr)
  else (f, fp, .ok (readPartial fp btr))

/-- A turn of the loop of `f_read`: what it has read, or its error. -/
def readTurn (f : FatFs σ) (fp : Fil) (btr : ℕ) : FatFs σ × Fil × Except FResult (List UInt8) :=
  if fp.fptr % lbaSize ≠ 0 then (f, fp, .ok (readPartial fp btr))
  else
    let r := readClust D V f fp
    match r.2 with
    | .error e => (r.1, fp, .error e)
    | .ok fp =>
      let sect := clst2sect V fp.clust
      if sect = 0 then (r.1, fp, .error .intErr)
      else readSects D V r.1 fp (sect + csect V fp.fptr) btr

/-- The loop of `f_read`. -/
def readLoop : ℕ → FatFs σ → Fil → ℕ → Option (FatFs σ × Fil × List UInt8 × FResult)
  | 0, f, fp, btr => if btr = 0 then some (f, fp, [], .ok) else none
  | fuel + 1, f, fp, btr =>
    if btr = 0 then some (f, fp, [], .ok)
    else
      let r := readTurn D V f fp btr
      match r.2.2 with
      | .error e => some (r.1, r.2.1.abort e, [], e)
      | .ok l => (readLoop fuel r.1 (r.2.1.moved l.length) (btr - l.length)).map fun s =>
        (s.1, s.2.1, l ++ s.2.2.1, s.2.2.2)

/-- `f_read`. -/
def fRead (f : FatFs σ) (fp : Fil) (btr : ℕ) : Option (FatFs σ × Fil × List UInt8 × FResult) :=
  if fp.err ≠ .ok then some (f, fp, [], fp.err)
  else if fp.canRead = false then some (f, fp, [], .denied)
  else
    let remain := (fp.objsize + 2 ^ 64 - fp.fptr) % 2 ^ 64
    let btr := if remain < btr then remain % 2 ^ 32 else btr
    readLoop D V btr f fp btr

/-! ## `f_write` -/

/-- The cluster at which `f_write` goes on, or how it ends: with an error, or because there is no free
cluster. -/
def writeClust (f : FatFs σ) (fp : Fil) : Option (FatFs σ × Except (Option FResult) Fil) :=
  if csect V fp.fptr ≠ 0 then some (f, .ok fp)
  else
    (if fp.fptr = 0 then (if fp.sclust = 0 then createChain D V f 0 else some (f, fp.sclust))
      else createChain D V f fp.clust).map fun r =>
    (r.1, if r.2 = 0 then .error none
      else if r.2 = 1 then .error (some .intErr)
      else if r.2 = diskError then .error (some .diskErr)
      else .ok (if fp.sclust = 0 then fp.atStart r.2 else fp.atClust r.2))

/-- The part of a request that the sector of the pointer has room for. -/
def partialLen (fp : Fil) (btw : ℕ) : ℕ := min (lbaSize - fp.fptr % lbaSize) btw

/-- The file after that part has been put into the buffer. -/
def writePartial (fp : Fil) (data : List UInt8) : Fil :=
  fp.poked (fp.fptr % lbaSize) (data.take (partialLen fp data.length))

/-- The file after sectors have been written past its buffer. -/
def refill (fp : Fil) (sect cc : ℕ) (data : List UInt8) : Fil :=
  let k := (fp.sect + 2 ^ 32 - sect) % 2 ^ 32
  if k < cc then (fp.filled (sectorOf data k)).flushed else fp

/-- A turn of `f_write` from a sector boundary on, when the sector is known. -/
def writeSects (f : FatFs σ) (fp : Fil) (sect : ℕ) (data : List UInt8) :
    FatFs σ × Fil × Except (Option FResult) ℕ :=
  let cc := data.length / lbaSize
  if 0 < cc then
    let cc := if V.csize < csect V fp.fptr + cc then V.csize - csect V fp.fptr else cc
    let w := D.write f.io (data.take (lbaSize * cc)) sect cc
    (f.used w.1, if w.2 then refill fp sect cc data else fp,
      if w.2 then .ok (lbaSize * cc) else .error (some .diskErr))
  else if fp.sect ≠ sect ∧ fp.fptr < fp.objsize then
    let d := loadFil D f fp sect
    if d.2.2 then (d.1, writePartial (d.2.1.atSect sect) data, .ok (partialLen fp data.length))
    else (d.1, d.2.1, .error (some .diskErr))
  else (f, writePartial (fp.atSect sect) data, .ok (partialLen fp data.length))

/-- A turn of the loop of `f_write`: the number of bytes written, or how the loop ends. -/
def writeTurn (f : FatFs σ) (fp : Fil) (data : List UInt8) :
    Option (FatFs σ × Fil × Except (Option FResult) ℕ) :=
  if fp.fptr % lbaSize ≠ 0 then some (f, writePartial fp data, .ok (partialLen fp data.length))
  else (writeClust D V f fp).map fun r =>
    match r.2 with
    | .error e => (r.1, fp, .error e)
    | .ok fp =>
      let w := flushFil D r.1 fp
      if w.2.2 then
        let sect := clst2sect V w.2.1.clust
        if sect = 0 then (w.1, w.2.1, .error (some .intErr))
        else writeSects D V w.1 w.2.1 (sect + csect V w.2.1.fptr) data
      else (w.1, w.2.1, .error (some .diskErr))

/-- The loop of `f_write`. -/
def writeLoop : ℕ → FatFs σ → Fil → List UInt8 → Option (FatFs σ × Fil × ℕ × FResult)
  | 0, f, fp, data => if data = [] then some (f, fp, 0, .ok) else none
  | fuel + 1, f, fp, data =>
    if data = [] then some (f, fp, 0, .ok)
    else (writeTurn D V f fp data).bind fun r =>
      match r.2.2 with
      | .error none => some (r.1, r.2.1, 0, .ok)
      | .error (some e) => some (r.1, r.2.1.abort e, 0, e)
      | .ok n => (writeLoop fuel r.1 (r.2.1.moved n).grown (data.drop n)).map fun s =>
        (s.1, s.2.1, n + s.2.2.1, s.2.2.2)

/-- `f_write`, on a volume that is not exFAT. -/
def fWrite (f : FatFs σ) (fp : Fil) (data : List UInt8) : Option (FatFs σ × Fil × ℕ × FResult) :=
  if fp.err ≠ .ok then some (f, fp, 0, fp.err)
  else if fp.canWrite = false then some (f, fp, 0, .denied)
  else
    -- a file of 4 GiB cannot be: the pointer would wrap
    let data := if (fp.fptr + data.length) % 2 ^ 32 < fp.fptr % 2 ^ 32 then
      data.take (0xFFFFFFFF - fp.fptr % 2 ^ 32) else data
    (writeLoop D V data.length f fp data).map fun r =>
      (r.1, if r.2.2.2 = .ok then r.2.1.changed else r.2.1, r.2.2.1, r.2.2.2)

/-! ## `f_lseek` -/

/-- The cluster from which `f_lseek` follows the chain, and how far it is from there. -/
def seekStart (f : FatFs σ) (fp : Fil) (ifptr ofs : ℕ) :
    Option (FatFs σ × Fil × Except FResult (ℕ × ℕ)) :=
  if 0 < ifptr ∧ (ifptr - 1) / V.bcs ≤ (ofs - 1) / V.bcs then
    let fptr := (ifptr - 1) &&& (2 ^ 64 - V.bcs)
    some (f, fp.seeked fptr, .ok (fp.clust, ofs - fptr))
  else if fp.sclust = 0 then
    (createChain D V f 0).map fun r =>
      if r.2 = 1 then (r.1, fp, .error .intErr)
      else if r.2 = diskError then (r.1, fp, .error .diskErr)
      else (r.1, fp.atStart r.2, .ok (r.2, ofs))
  else some (f, fp.atClust fp.sclust, .ok (fp.sclust, ofs))

/-- The file when its pointer has moved on by a cluster, and is made long enough if it may be
written. -/
def Fil.stepped (fp : Fil) : Fil :=
  let fp := fp.moved V.bcs
  if fp.canWrite ∧ fp.objsize < fp.fptr then fp.grown.changed else fp

/-- The loop of `f_lseek` along the chain: the cluster where it ends, and how far the place is from its
start. -/
def seekLoop : ℕ → FatFs σ → Fil → ℕ → ℕ → Option (FatFs σ × Fil × Except FResult (ℕ × ℕ))
  | 0, _, _, _, _ => none
  | fuel + 1, f, fp, clst, ofs =>
    if V.bcs < ofs then
      let fp := fp.stepped V
      (if fp.canWrite then createChain D V f clst else some (getFat D V f clst)).bind fun r =>
        -- the size of the file ends here when there is no free cluster
        if fp.canWrite ∧ r.2 = 0 then some (r.1, fp, .ok (0, 0))
        else if r.2 = diskError then some (r.1, fp, .error .diskErr)
        else if r.2 ≤ 1 ∨ V.nFatent ≤ r.2 then some (r.1, fp, .error .intErr)
        else seekLoop fuel r.1 (fp.atClust r.2) r.2 (ofs - V.bcs)
    else some (f, fp, .ok (clst, ofs))

/-- The walk of `f_lseek` to a place behind the start of the file: the sector that the buffer should
have. -/
def seekWalk (f : FatFs σ) (fp : Fil) (ifptr ofs : ℕ) : Option (FatFs σ × Fil × Except FResult ℕ) :=
  (seekStart D V f fp ifptr ofs).bind fun r =>
    match r.2.2 with
    | .error e => some (r.1, r.2.1, .error e)
    | .ok (clst, ofs) =>
      if clst = 0 then some (r.1, r.2.1, .ok 0)
      else (seekLoop D V (ofs / V.bcs + 1) r.1 r.2.1 clst ofs).map fun s =>
        match s.2.2 with
        | .error e => (s.1, s.2.1, .error e)
        | .ok (clst, ofs) =>
          let fp := s.2.1.moved ofs
          if ofs % lbaSize ≠ 0 then
            let nsect := clst2sect V clst
            (s.1, fp, if nsect = 0 then .error .intErr else .ok (nsect + ofs / lbaSize))
          else (s.1, fp, .ok 0)

/-- The end of `f_lseek`: the size, and the buffer. -/
def seekFill (f : FatFs σ) (fp : Fil) (nsect : ℕ) : FatFs σ × Fil × FResult :=
  let fp := if fp.objsize < fp.fptr then fp.grown.changed else fp
  if fp.fptr % lbaSize ≠ 0 ∧ nsect ≠ fp.sect then
    let w := flushFil D f fp
    if w.2.2 then
      let d := loadFil D w.1 w.2.1 nsect
      if d.2.2 then (d.1, d.2.1.atSect nsect, .ok) else (d.1, d.2.1.abort .diskErr, .diskErr)
    else (w.1, w.2.1.abort .diskErr, .diskErr)
  else (f, fp, .ok)

/-- `f_lseek`, on a volume that is not exFAT. -/
def fLseek (f : FatFs σ) (fp : Fil) (ofs : ℕ) : Option (FatFs σ × Fil × FResult) :=
  if fp.err ≠ .ok then some (f, fp, fp.err)
  else
    let ofs := if 0x100000000 ≤ ofs then 0xFFFFFFFF else ofs
    let ofs := if fp.objsize < ofs ∧ fp.canWrite = false then fp.objsize else ofs
    if ofs = 0 then some (seekFill D f (fp.seeked 0) 0)
    else (seekWalk D V f (fp.seeked 0) fp.fptr ofs).map fun r =>
      match r.2.2 with
      | .error e => (r.1, r.2.1.abort e, e)
      | .ok nsect => seekFill D r.1 r.2.1 nsect

/-! ## `f_truncate` -/

/-- The part of `f_truncate` on the chain. -/
def truncChain (f : FatFs σ) (fp : Fil) : Option (FatFs σ × Fil × FResult) :=
  if fp.fptr = 0 then
    (removeChain D V f fp.sclust 0).map fun r => (r.1, { fp with sclust := 0 }, r.2)
  else
    let r := getFat D V f fp.clust
    if r.2 = diskError then some (r.1, fp, .diskErr)
    else if r.2 = 1 then some (r.1, fp, .intErr)
    else if r.2 < V.nFatent then
      (removeChain D V r.1 r.2 fp.clust).map fun w => (w.1, fp, w.2)
    else some (r.1, fp, .ok)

/-- The file when it ends at its pointer. -/
def Fil.cut (fp : Fil) : Fil := { fp with objsize := fp.fptr, modified := true }

/-- `f_truncate`. -/
def fTruncate (f : FatFs σ) (fp : Fil) : Option (FatFs σ × Fil × FResult) :=
  if fp.err ≠ .ok then some (f, fp, fp.err)
  else if fp.canWrite = false then some (f, fp, .denied)
  else if fp.fptr < fp.objsize then
    (truncChain D V f fp).map fun r =>
      let fp := r.2.1.cut
      if r.2.2 = .ok then
        let w := flushFil D r.1 fp
        if w.2.2 then (w.1, w.2.1, .ok) else (w.1, w.2.1.abort .diskErr, .diskErr)
      else (r.1, fp.abort r.2.2, r.2.2)
  else some (f, fp, .ok)

/-! ## `f_sync` -/

/-- `AM_ARC`. -/
abbrev amArc : UInt8 := 0x20

/-- The directory entry that `f_sync` makes at `off` of a sector. -/
def updateEntry (b : Sector) (fp : Fil) (off tm : ℕ) : Sector :=
  let b := poke b (off + 11) [b (sectorOff (off + 11)) ||| amArc]
  let b := poke b (off + 26) (stWord (fp.sclust % 2 ^ 16))
  let b := if V.fsType = .fat32 then poke b (off + 20) (stWord (fp.sclust >>> 16 % 2 ^ 16)) else b
  let b := poke b (off + 28) (stDword (fp.objsize % 2 ^ 32))
  let b := poke b (off + 22) (stDword tm)
  poke b (off + 18) (stWord 0)

/-- The object with another content in its window. -/
def FatFs.edit (f : FatFs σ) (b : Sector) : FatFs σ := { f with win := b, wflag := true }

/-- `f_sync`, on a volume that is not exFAT; `tm` is what `get_fattime` returns. -/
def fSync (volbase : ℕ) (f : FatFs σ) (fp : Fil) (tm : ℕ) : FatFs σ × Fil × FResult :=
  if fp.modified then
    let w := flushFil D f fp
    if w.2.2 then
      let m := moveWindow D V w.1 fp.dirSect
      if m.2 = .ok then
        let r := syncFs D V volbase (m.1.edit (updateEntry V m.1.win fp fp.dirOff tm))
        (r.1, { w.2.1 with modified := false }, r.2)
      else (m.1, w.2.1, m.2)
    else (w.1, w.2.1, .diskErr)
  else (f, fp, .ok)

/-- `ld_clust`. -/
def ldClust (b : Sector) (off : ℕ) : ℕ :=
  let cl := ldWord b (off + 26)
  if V.fsType = .fat32 then cl ||| ldWord b (off + 20) <<< 16 else cl

/-- The file that `f_open` makes of a directory entry. -/
def openEntry (b : Sector) (dirSect off : ℕ) (canRead canWrite : Bool) : Fil where
  sclust := ldClust V b off
  objsize := ldDword b (off + 28)
  canRead := canRead
  canWrite := canWrite
  modified := false
  dirty := false
  err := .ok
  fptr := 0
  clust := 0
  sect := 0
  dirSect := dirSect
  dirOff := off
  buf := fun _ => 0

end

end RvvmHal.Fatfs
