import Mathlib.Logic.Function.Basic
import Mathlib.Tactic.Linarith
import Tortuga.LittleEndian

/-!
`quicklz.cpp` at compression level 1 and without a streaming buffer, as it is compiled for a processor that reads and writes four bytes at
once. A pointer is an index into its buffer. A source is all of the memory from there on.
-/
namespace Tortuga.QuickLz
open Tortuga.BusCodes
open Tortuga.LittleEndian

/-- `fast_read`: four bytes are read, whatever is asked for. -/
def fastRead (src : ℕ → Byte) (i : ℕ) : ℕ := number [src i, src (i + 1), src (i + 2), src (i + 3)]

def hashFunc (i : ℕ) : ℕ := ((i >>> 12) ^^^ i) &&& 0xfff

/-- The first byte of a header, with its flag for the long form and the one for compressed data. -/
def settings (long compressed : Bool) : Byte :=
  (if long then 2 else 0) ||| (if compressed then 1 else 0) ||| (1 <<< 2) ||| (1 <<< 6) ||| (0 <<< 4)

/-! ### Compression -/

/-- The entries of the hash values, and `hash_counter`. -/
structure HashTable where
  cache : ℕ → ℕ
  offset : ℕ → ℕ
  counter : ℕ → Byte

/-- `reset_state` -/
def HashTable.resetState (table : HashTable) : HashTable := { table with counter := fun _ => 0 }

/-- An entry is replaced. -/
def HashTable.put (table : HashTable) (hash fetch src : ℕ) : HashTable :=
  { table with cache := Function.update table.cache hash fetch, offset := Function.update table.offset hash src }

/-- `hash_counter[hash] = 1` -/
def HashTable.count (table : HashTable) (hash : ℕ) : HashTable := { table with counter := Function.update table.counter hash 1 }

/-- `qlz_compress_core` in its loops. What has been written is `finished`, then four bytes that are left for the control word, then `pending`. -/
structure Compressor where
  src : ℕ
  finished : List Byte
  pending : List Byte
  cwordVal : ℕ
  table : HashTable

namespace Compressor

/-- `dst - destination` -/
def dst (s : Compressor) : ℕ := s.finished.length + 4 + s.pending.length

/-- The control word is written, and there is place for the next one. -/
def nextWord (s : Compressor) : Compressor :=
  { s with finished := s.finished ++ (bytes 4 ((s.cwordVal >>> 1) ||| 2 ^ 31) ++ s.pending), pending := [], cwordVal := 2 ^ 31 }

/-- The control word after an item. -/
def flag (s : Compressor) (lz : Bool) : ℕ := if lz then (s.cwordVal >>> 1) ||| 2 ^ 31 else s.cwordVal >>> 1

end Compressor

/-- The end of the loop over the bytes of a match. -/
def extend (source : ℕ → Byte) (o src remaining matchlen : ℕ) : ℕ :=
  if source (o + matchlen) = source (src + matchlen) ∧ matchlen < remaining then extend source o src remaining (matchlen + 1) else matchlen
termination_by remaining - matchlen

/-- The longest match. -/
def remaining (size src : ℕ) : ℕ := if 255 < size - 4 - src then 255 else size - 4 - src

/-- How far the bytes at two places are the same, of which the first three are. -/
def matchLength (source : ℕ → Byte) (size o src : ℕ) : ℕ :=
  if source (o + 3) ≠ source (src + 3) then 3
  else if source (o + 4) ≠ source (src + 4) then 4
  else if source (o + 5) ≠ source (src + 5) then 5
  else extend source o src (remaining size src) 6

/-- What is written for a match. -/
def writeMatch (hash matchlen : ℕ) : List Byte :=
  if matchlen < 18 then bytes 2 ((matchlen - 2) ||| (hash <<< 4)) else bytes 3 ((matchlen <<< 16) ||| (hash <<< 4))

namespace Compressor

/-- One item of the main loop: a match with the last place of the same hash value, or a byte. -/
def item (source : ℕ → Byte) (size : ℕ) (s : Compressor) : Compressor :=
  let fetch := fastRead source s.src
  let hash := hashFunc fetch
  let cached := fetch ^^^ s.table.cache hash
  let o := s.table.offset hash
  let table := s.table.put hash fetch s.src
  if cached &&& 0xffffff = 0 ∧ o + 2 < s.src ∧ s.table.counter hash ≠ 0 then
    let matchlen := matchLength source size o s.src
    { s with src := s.src + matchlen, pending := s.pending ++ writeMatch hash matchlen, cwordVal := s.flag true, table := table }
  else
    { s with src := s.src + 1, pending := s.pending ++ [source s.src], cwordVal := s.flag false, table := table.count hash }

/-- Whether what has been written is long enough for the source to be stored as it is. -/
def Poor (size : ℕ) (s : Compressor) : Prop := 3 * (size >>> 2) < s.src ∧ s.src - (s.src >>> 5) < s.dst

instance (size : ℕ) (s : Compressor) : Decidable (s.Poor size) := inferInstanceAs (Decidable (_ ∧ _))

end Compressor

theorem extend_ge (source : ℕ → Byte) (o src remaining matchlen : ℕ) : matchlen ≤ extend source o src remaining matchlen := by
  fun_induction extend source o src remaining matchlen with
  | case1 matchlen same ih => exact (Nat.le_succ _).trans ih
  | case2 matchlen other => exact le_rfl

theorem matchLength_ge (source : ℕ → Byte) (size o src : ℕ) : 3 ≤ matchLength source size o src := by
  rw [matchLength]
  have more := extend_ge source o src (remaining size src) 6
  split_ifs <;> omega

theorem Compressor.src_lt_item (source : ℕ → Byte) (size : ℕ) (s : Compressor) : s.src < (s.item source size).src := by
  rw [item]
  have some := matchLength_ge source size (s.table.offset (hashFunc (fastRead source s.src))) s.src
  dsimp only
  split_ifs
  · dsimp only
    omega
  · exact Nat.lt_succ_self _

namespace Compressor

/-- The main loop, unless the source is to be stored as it is. -/
def mainLoop (source : ℕ → Byte) (size : ℕ) (s : Compressor) : Option Compressor :=
  if s.src + 11 ≤ size then
    if s.cwordVal &&& 1 = 1 then
      if s.Poor size then none else mainLoop source size (s.nextWord.item source size)
    else mainLoop source size (s.item source size)
  else some s
termination_by size - s.src
decreasing_by
  · have more := src_lt_item source size s.nextWord
    change s.src < _ at more
    omega
  · have more := src_lt_item source size s
    omega

/-- `update_hash` -/
def updateHash (source : ℕ → Byte) (s : Compressor) : Compressor :=
  let fetch := fastRead source s.src
  { s with table := (s.table.put (hashFunc fetch) fetch s.src).count (hashFunc fetch) }

/-- One of the last bytes. -/
def last (source : ℕ → Byte) (size : ℕ) (s : Compressor) : Compressor :=
  let s := if s.cwordVal &&& 1 = 1 then s.nextWord else s
  let s := if s.src + 4 ≤ size then s.updateHash source else s
  { s with src := s.src + 1, pending := s.pending ++ [source s.src], cwordVal := s.flag false }

def lastLoop (source : ℕ → Byte) (size : ℕ) : ℕ → Compressor → Compressor
  | 0, s => s
  | left + 1, s => lastLoop source size left (s.last source size)

end Compressor

/-- The loop that aligns the last control word. It is never zero, for which the loop would not end. -/
def align (cwordVal : ℕ) : ℕ := if cwordVal &&& 1 = 1 ∨ cwordVal = 0 then cwordVal else align (cwordVal >>> 1)
termination_by cwordVal
decreasing_by
  rw [Nat.shiftRight_eq_div_pow]
  omega

/-- `qlz_compress_core`, without the bytes that fill up what is returned to nine. -/
def compressCore (source : ℕ → Byte) (size : ℕ) (table : HashTable) : Option (List Byte) :=
  (Compressor.mainLoop source size { src := 0, finished := [], pending := [], cwordVal := 2 ^ 31, table := table }).map fun s =>
    let s := s.lastLoop source size (size - s.src)
    s.finished ++ (bytes 4 ((align s.cwordVal >>> 1) ||| 2 ^ 31) ++ s.pending)

/-- `qlz_compress`: what is returned, and what has been written. -/
def qlzCompress (source : ℕ → Byte) (size : ℕ) (table : HashTable) : ℕ × List Byte :=
  if size = 0 ∨ 0xffffffff < size then (0, [])
  else
    let base := if size < 216 then 3 else 9
    let (r, compressed, written) :=
      match compressCore source size table.resetState with
      | none => (size + base, false, (List.range size).map source)
      | some written => (base + if written.length < 9 then 9 else written.length, true, written)
    let header :=
      if base = 3 then [settings false compressed, BitVec.ofNat 8 r, BitVec.ofNat 8 size]
      else settings true compressed :: (bytes 4 r ++ bytes 4 size)
    (r, header ++ written)

/-! ### Decompression -/

def bitlut : List ℕ := [4, 0, 1, 0, 2, 0, 1, 0, 3, 0, 1, 0, 2, 0, 1, 0]

/-- `qlz_decompress_core` in its loop. `hashed` is one more than `last_hashed`. -/
structure Decompressor where
  src : ℕ
  dst : ℕ
  cwordVal : ℕ
  destination : List Byte
  offset : ℕ → ℕ
  hashed : ℕ

/-- Four bytes of a buffer, unless it is too short. -/
def readFour (buffer : List Byte) (i : ℕ) : Option (List Byte) := if i + 4 ≤ buffer.length then some ((buffer.drop i).take 4) else none

/-- Bytes are written to a buffer, unless it is too short. -/
def writeAt (buffer : List Byte) (i : ℕ) (new : List Byte) : Option (List Byte) :=
  if i + new.length ≤ buffer.length then some (buffer.take i ++ (new ++ buffer.drop (i + new.length))) else none

/-- `memcpy_up`, from its step `f` on: four bytes at a time, of which the last one is written again by the next step. -/
def memcpyUp (buffer : List Byte) (dst src n f : ℕ) : Option (List Byte) :=
  ((readFour buffer (src + f)).bind (writeAt buffer (dst + f))).bind fun buffer =>
    if f + 3 < n then memcpyUp buffer dst src n (f + 3) else some buffer
termination_by n - f

namespace Decompressor

/-- `update_hash`, of which only the place is used. -/
def updateHash (s : Decompressor) : Option Decompressor :=
  (readFour s.destination s.hashed).map fun four =>
    { s with offset := Function.update s.offset (hashFunc (number four)) s.hashed, hashed := s.hashed + 1 }

/-- `update_hash_upto`, for the places before a limit. -/
def updateHashUpto (limit : ℕ) : ℕ → Decompressor → Option Decompressor
  | 0, s => some s
  | left + 1, s => if s.hashed < limit then s.updateHash.bind (updateHashUpto limit left) else some s

/-- A match is copied. -/
def lzMatch (source : ℕ → Byte) (s : Decompressor) : Option Decompressor :=
  let fetch := fastRead source s.src
  let hash := (fetch >>> 4) &&& 0xfff
  let offset2 := s.offset hash
  let (matchlen, src) := if fetch &&& 0xf ≠ 0 then ((fetch &&& 0xf) + 2, s.src + 2) else ((source (s.src + 2)).toNat, s.src + 3)
  ((memcpyUp s.destination s.dst offset2 matchlen 0).bind fun destination =>
    updateHashUpto (s.dst + 1) (s.dst + 1)
      { s with src := src, dst := s.dst + matchlen, cwordVal := s.cwordVal >>> 1, destination := destination }).map fun s =>
    { s with hashed := s.dst }

/-- Up to four bytes are copied. -/
def literals (source : ℕ → Byte) (s : Decompressor) : Option Decompressor :=
  let n := bitlut.getD (s.cwordVal &&& 0xf) 0
  (writeAt s.destination s.dst [source s.src, source (s.src + 1), source (s.src + 2), source (s.src + 3)]).bind fun destination =>
    updateHashUpto (s.dst + n - 2) (s.dst + n - 2)
      { s with src := s.src + n, dst := s.dst + n, cwordVal := s.cwordVal >>> n, destination := destination }

/-- The last bytes. -/
def lastLiterals (source : ℕ → Byte) : ℕ → Decompressor → Option Decompressor
  | 0, s => some s
  | left + 1, s =>
    let s := if s.cwordVal = 1 then { s with src := s.src + 4, cwordVal := 2 ^ 31 } else s
    (writeAt s.destination s.dst [source s.src]).bind fun destination =>
      lastLiterals source left { s with src := s.src + 1, dst := s.dst + 1, cwordVal := s.cwordVal >>> 1, destination := destination }

/-- The loop of `qlz_decompress_core`. -/
def loop (source : ℕ → Byte) (size : ℕ) : ℕ → Decompressor → Option (List Byte)
  | 0, _ => none
  | fuel + 1, s =>
    if s.cwordVal = 1 then loop source size fuel { s with cwordVal := fastRead source s.src, src := s.src + 4 }
    else if s.cwordVal &&& 1 = 1 then (s.lzMatch source).bind (loop source size fuel)
    else if s.dst + 4 < size then (s.literals source).bind (loop source size fuel)
    else
      (s.lastLiterals source (size - s.dst)).bind fun s =>
        (updateHashUpto (size - 3) (size - 3) s).map fun s => s.destination

end Decompressor

/-- `qlz_decompress_core`. Each byte of the destination takes two steps at most. -/
def decompressCore (source : ℕ → Byte) (destination : List Byte) (size : ℕ) (offset : ℕ → ℕ) : Option (List Byte) :=
  Decompressor.loop source size (2 * size + 2)
    { src := 0, dst := 0, cwordVal := 1, destination := destination, offset := offset, hashed := 0 }

/-- The size of the fields of a header. -/
def fieldSize (source : ℕ → Byte) : ℕ := if source 0 &&& 2 = 2 then 4 else 1

/-- `qlz_size_decompressed` -/
def qlzSizeDecompressed (source : ℕ → Byte) : ℕ :=
  let n := fieldSize source
  fastRead source (1 + n) &&& (0xffffffff >>> ((4 - n) * 8))

/-- `qlz_size_compressed` -/
def qlzSizeCompressed (source : ℕ → Byte) : ℕ :=
  let n := fieldSize source
  fastRead source 1 &&& (0xffffffff >>> ((4 - n) * 8))

/-- `qlz_decompress`: what the destination has in it afterwards, unless memory is accessed that is not in it. -/
def qlzDecompress (source : ℕ → Byte) (destination : List Byte) (offset : ℕ → ℕ) : Option (List Byte) :=
  let headerlen := 2 * fieldSize source + 1
  let dsiz := qlzSizeDecompressed source
  if source 0 &&& 1 = 1 then decompressCore (fun i => source (headerlen + i)) destination dsiz offset
  else writeAt destination 0 ((List.range dsiz).map fun i => source (headerlen + i))

end Tortuga.QuickLz
