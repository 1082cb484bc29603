import Tortuga.QuickLzItems

/-!
What `qlz_decompress` makes of what `qlz_compress` has written: the bytes that were compressed. The decompressor finds the places of hash
values again from the bytes that it has written itself.
-/
namespace Tortuga.QuickLzRoundTrip
open Tortuga.BusCodes
open Tortuga.LittleEndian
open Tortuga.ControlWords
open Tortuga.QuickLz
open Tortuga.QuickLzItems

/-! ### Memory -/

section
variable {source text : ℕ → Byte} {k size i n p o f : ℕ} {buffer new : List Byte}

/-- Some bytes stand in memory from a place on. -/
def Starts (source : ℕ → Byte) (k : ℕ) (l : List Byte) : Prop := ∀ i b, l[i]? = some b → source (k + i) = b

theorem starts_append {xs ys : List Byte} : Starts source k (xs ++ ys) ↔ Starts source k xs ∧ Starts source (k + xs.length) ys := by
  constructor
  · intro all
    refine ⟨fun i b found => all i b ?_, fun i b found => ?_⟩
    · rw [List.getElem?_append_left (List.getElem?_eq_some_iff.mp found).1, found]
    · have there := all (xs.length + i) b (by rw [List.getElem?_append_right (Nat.le_add_right _ _), Nat.add_sub_cancel_left, found])
      rwa [← Nat.add_assoc] at there
  · rintro ⟨first, later⟩ i b found
    rw [List.getElem?_append] at found
    split_ifs at found with less
    · exact first i b found
    · have there := later (i - xs.length) b found
      rwa [Nat.add_assoc, Nat.add_sub_of_le (Nat.not_lt.mp less)] at there

/-- A number that stands in memory is read. -/
theorem fastRead_bytes (there : Starts source k (bytes 4 n)) (small : n < 2 ^ 32) : fastRead source k = n := by
  have byte (i : ℕ) (b : Byte) (found : (bytes 4 n)[i]? = some b) := there i b found
  have all : [source k, source (k + 1), source (k + 2), source (k + 3)] = bytes 4 n := by
    rw [byte 1 _ rfl, byte 2 _ rfl, byte 3 _ rfl, show source k = _ from byte 0 _ rfl]
    rfl
  rw [fastRead, all, number_bytes, Nat.mod_eq_of_lt (by omega)]

/-- The first bytes of a buffer are those of a text. -/
structure Decoded (text : ℕ → Byte) (size : ℕ) (buffer : List Byte) (n : ℕ) : Prop where
  length : buffer.length = size
  first : ∀ q < n, buffer[q]? = some (text q)

theorem writeAt_some (buffer : List Byte) (i : ℕ) (new : List Byte) (room : i + new.length ≤ buffer.length) :
    ∃ buffer', writeAt buffer i new = some buffer' ∧
    buffer'.length = buffer.length ∧ (∀ q < i, buffer'[q]? = buffer[q]?) ∧ ∀ q < new.length, buffer'[i + q]? = new[q]? := by
  refine ⟨_, if_pos room, ?_, fun q less => ?_, fun q less => ?_⟩
  · rw [List.length_append, List.length_append, List.length_take, List.length_drop]
    omega
  · rw [List.getElem?_append_left (by rw [List.length_take]; omega), List.getElem?_take_of_lt less]
  · have front : (buffer.take i).length = i := List.length_take_of_le (by omega)
    rw [List.getElem?_append_right (by omega), front, Nat.add_sub_cancel_left, List.getElem?_append_left less]

theorem readFour_some (buffer : List Byte) (i : ℕ) (room : i + 4 ≤ buffer.length) : ∃ four, readFour buffer i = some four ∧ four.length = 4 ∧
    ∀ q < 4, four[q]? = buffer[i + q]? := by
  refine ⟨_, if_pos room, ?_, fun q less => ?_⟩
  · rw [List.length_take, List.length_drop]
    omega
  · rw [List.getElem?_take_of_lt less, List.getElem?_drop]

/-- Bytes that are written after the first ones, of which some are those of the text. -/
theorem Decoded.write (decoded : Decoded text size buffer n) (new : List Byte) (room : n + new.length ≤ size) (count : ℕ)
    (some : count ≤ new.length)
    (right : ∀ q < count, new[q]? = .some (text (n + q))) : ∃ buffer', writeAt buffer n new = .some buffer' ∧
      Decoded text size buffer' (n + count) := by
  obtain ⟨buffer', written, length, before, here⟩ := writeAt_some buffer n new (by rw [decoded.length]; exact room)
  refine ⟨buffer', written, length.trans decoded.length, fun q less => ?_⟩
  rcases Nat.lt_or_ge q n with first | later
  · rw [before q first, decoded.first q first]
  · have place : n + (q - n) = q := Nat.add_sub_of_le later
    rw [← place, here (q - n) (by omega), right (q - n) (by omega)]

theorem Decoded.less {m : ℕ} (decoded : Decoded text size buffer n) (le : m ≤ n) : Decoded text size buffer m :=
  ⟨decoded.length, fun q less => decoded.first q (less.trans_le le)⟩

/-- A match is copied from what has been written before it, three bytes at a time. -/
theorem memcpyUp_decoded (same : ∀ k < n, text (o + k) = text (p + k)) (back : o + 2 < p) (room : p + n + 4 ≤ size) (less : f < n)
    (decoded : Decoded text size buffer (p + f)) : ∃ buffer', memcpyUp buffer p o n f = some buffer' ∧ Decoded text size buffer' (p + n) := by
  obtain ⟨steps, bound⟩ : ∃ steps, n - f ≤ steps := ⟨_, le_rfl⟩
  induction steps generalizing f buffer with
  | zero => omega
  | succ steps ih =>
    obtain ⟨four, read, length, there⟩ := readFour_some buffer (o + f) (by rw [decoded.length]; omega)
    have right : ∀ q < min 3 (n - f), four[q]? = some (text (p + f + q)) := by
      intro q small
      have within : f + q < n := by omega
      have source := same (f + q) within
      rw [there q (by omega), decoded.first _ (by omega), Nat.add_assoc, source, Nat.add_assoc]
    obtain ⟨buffer', written, next⟩ := decoded.write four (by omega) (min 3 (n - f)) (by omega) right
    rw [memcpyUp, read, Option.bind_some, written, Option.bind_some]
    split_ifs with more
    · refine ih more (next.less (by omega)) (by omega)
    · exact ⟨buffer', rfl, next.less (by omega)⟩

end

/-! ### Places of hash values -/

section
variable {text : ℕ → Byte} {places after : Places} {offset : ℕ → ℕ} {hashed p q size : ℕ}

/-- The places before `hashed` have been put into the table. Those after it are all places of items. -/
structure Tracks (text : ℕ → Byte) (places : Places) (offset : ℕ → ℕ) (hashed p : ℕ) : Prop where
  known : ∀ h o, places h = some o → o < hashed → offset h = o
  fresh : ∀ q, hashed ≤ q → q < p → ∃ o, places (hashAt text q) = some o ∧ q ≤ o
  own : ∀ h o, places h = some o → hashAt text o = h ∧ o < p

/-- The next place is put into the table. -/
theorem Tracks.hash (tracks : Tracks text places offset hashed p) (less : hashed < p) :
    Tracks text places (Function.update offset (hashAt text hashed) hashed) (hashed + 1) p := by
  refine ⟨fun h o last before => ?_, fun q more inside => tracks.fresh q (by omega) inside, tracks.own⟩
  by_cases here : h = hashAt text hashed
  · -- it is the last of its hash value so far
    obtain ⟨o', last', ge⟩ := tracks.fresh hashed le_rfl less
    rw [here, last'] at last
    obtain rfl := Option.some_inj.mp last
    rw [here, Function.update_self]
    omega
  · have other : o ≠ hashed := by
      rintro rfl
      exact here (tracks.own h o last).1.symm
    rw [Function.update_of_ne here]
    exact tracks.known h o last (by omega)

/-- An item begins, and is the last place of its hash value. -/
theorem Tracks.note (tracks : Tracks text places offset hashed p) (le : hashed ≤ p) :
    Tracks text (note text places p) offset hashed (p + 1) := by
  refine ⟨fun h o last before => ?_, fun q more inside => ?_, fun h o last => ?_⟩
  · rw [QuickLzItems.note, Function.update_apply] at last
    split_ifs at last with here
    · obtain rfl := Option.some_inj.mp last
      omega
    · exact tracks.known h o last before
  · rw [QuickLzItems.note, Function.update_apply]
    split_ifs with here
    · exact ⟨p, rfl, by omega⟩
    · have other : q ≠ p := fun same => here (by rw [same])
      exact tracks.fresh q more (by omega)
  · rw [QuickLzItems.note, Function.update_apply] at last
    split_ifs at last with here
    · obtain rfl := Option.some_inj.mp last
      exact ⟨here.symm, Nat.lt_succ_self p⟩
    · have own := tracks.own h o last
      exact ⟨own.1, own.2.trans (Nat.lt_succ_self p)⟩

/-- There are no items within a match. -/
theorem Tracks.skip (tracks : Tracks text places offset p p) (le : p ≤ q) : Tracks text places offset q q :=
  ⟨fun h o last _ => tracks.known h o last (tracks.own h o last).2, fun _ more less => absurd more (Nat.not_le.mpr less),
    fun h o last => ⟨(tracks.own h o last).1, (tracks.own h o last).2.trans_le le⟩⟩

theorem Tracks.bytes (tracks : Tracks text places offset hashed p) (le : hashed ≤ p) {n : ℕ}
    (parsed : Parsed text size p places (.replicate n .byte) q after) : Tracks text after offset hashed q := by
  induction n generalizing p places with
  | zero =>
    obtain ⟨rfl, rfl⟩ := parsed
    exact tracks
  | succ n ih => exact ih (tracks.note le) (Nat.le_succ_of_le le) parsed.2

/-- Places are put into the table from the bytes that have been written. -/
theorem updateHashUpto_tracks (limit left : ℕ) {s : Decompressor} {n : ℕ} (decoded : Decoded text size s.destination n)
    (written : limit + 2 ≤ n ∨ limit = 0) (inside : limit + 3 ≤ size ∨ limit = 0)
    (tracks : Tracks text places s.offset s.hashed p) (items : limit ≤ p) (enough : limit ≤ left + s.hashed) :
    ∃ offset, Decompressor.updateHashUpto limit left s = some { s with offset := offset, hashed := max s.hashed limit } ∧
      Tracks text places offset (max s.hashed limit) p := by
  induction left generalizing s with
  | zero =>
    have done : max s.hashed limit = s.hashed := by omega
    rw [done]
    exact ⟨s.offset, rfl, tracks⟩
  | succ left ih =>
    rw [Decompressor.updateHashUpto]
    split_ifs with less
    · obtain ⟨four, read, length, there⟩ := readFour_some s.destination s.hashed (by rw [decoded.length]; omega)
      have hash : hashFunc (number four) = hashAt text s.hashed := by
        obtain ⟨a, b, c, d, rfl⟩ : ∃ a b c d, four = [a, b, c, d] := by
          match four, length with
          | [a, b, c, d], _ => exact ⟨a, b, c, d, rfl⟩
        have byte (q : ℕ) (small : q < 3) : [a, b, c, d][q]? = some (text (s.hashed + q)) := by
          rw [there q (by omega), decoded.first _ (by omega)]
        obtain rfl : a = text s.hashed := Option.some_inj.mp (byte 0 (by decide))
        obtain rfl : b = text (s.hashed + 1) := Option.some_inj.mp (byte 1 (by decide))
        obtain rfl : c = text (s.hashed + 2) := Option.some_inj.mp (byte 2 (by decide))
        refine hashFunc_congr ?_
        rw [fastRead_eq]
        simp only [number]
        omega
      have next : s.updateHash = some { s with offset := Function.update s.offset (hashAt text s.hashed) s.hashed, hashed := s.hashed + 1 } := by
        rw [Decompressor.updateHash, read, Option.map_some, hash]
      have further : max (s.hashed + 1) limit = max s.hashed limit := by omega
      obtain ⟨offset, run, now⟩ := ih (s := { s with offset := Function.update s.offset (hashAt text s.hashed) s.hashed, hashed := s.hashed + 1 })
        decoded (tracks.hash (by omega)) (by dsimp only; omega)
      dsimp only at run now
      rw [further] at run now
      rw [next, Option.bind_some]
      exact ⟨offset, run, now⟩
    · have done : max s.hashed limit = s.hashed := by omega
      rw [done]
      exact ⟨s.offset, rfl, tracks⟩

end

/-! ### Items that are read -/

section
variable {source text : ℕ → Byte} {src cword p m size : ℕ} {front now later items : List Item} {places after : Places}

/-- The items of a group that are left, and those of later groups, of which nothing has been read. A control word has `m` flags left. -/
structure Input (source text : ℕ → Byte) (src cword p m : ℕ) (now later : List Item) : Prop where
  few : now.length ≤ m
  most : m ≤ 31
  whole : later ≠ [] → now.length = m
  cword : cword = word (padded m (now.map Item.flag))
  there : Starts source src (written text p now ++ encode text (p + extent now) later)

theorem padded_length {flags : List Bool} (few : flags.length ≤ m) : (padded m flags).length = m := by
  rw [padded, List.length_append, List.length_replicate]
  omega

/-- A control word has come to its end. -/
theorem Input.one (input : Input source text src cword p m now later) : cword = 1 ↔ m = 0 := by
  rw [input.cword, word_one, ← List.length_eq_zero_iff, padded_length (by rw [List.length_map]; exact input.few)]

/-- The next control word is read. -/
theorem Input.refill (input : Input source text src cword p 0 now later) (more : later ≠ []) :
    fastRead source src = word (padded 31 ((later.take 31).map Item.flag)) ∧
      Input source text (src + 4) (word (padded 31 ((later.take 31).map Item.flag))) p 31 (later.take 31) (later.drop 31) := by
  obtain rfl : now = [] := List.length_eq_zero_iff.mp (Nat.le_zero.mp input.few)
  have some : later.take 31 ≠ [] := by simpa using more
  have few : (later.take 31).length ≤ 31 := List.length_take_le 31 later
  have whole (rest : later.drop 31 ≠ []) : (later.take 31).length = 31 :=
    List.length_take_of_le (Nat.le_of_not_le fun short => rest (List.drop_eq_nil_of_le short))
  have group := encode_group text p some few (later.drop 31) whole
  have there := input.there
  rw [extent, List.map_nil, List.sum_nil, Nat.add_zero, written, List.nil_append,
    ← List.take_append_drop 31 later, group, starts_append] at there
  obtain ⟨control, rest⟩ := there
  refine ⟨fastRead_bytes control ?_, few, le_rfl, whole, rfl, ?_⟩
  · have small := word_lt (padded 31 ((later.take 31).map Item.flag))
    rwa [padded_length (by rw [List.length_map]; exact few)] at small
  · rw [QuickLzItems.control, length_bytes] at rest
    exact rest

/-- Items of a group have been read. -/
theorem Input.drop (front : List Item) (input : Input source text src cword p m (front ++ now) later) :
    Input source text (src + (written text p front).length) (cword >>> front.length) (p + extent front) (m - front.length) now later := by
  have few := input.few
  rw [List.length_append] at few
  have flags : padded m ((front ++ now).map Item.flag) = front.map Item.flag ++ padded (m - front.length) (now.map Item.flag) := by
    rw [padded, padded, List.map_append, List.append_assoc, List.length_append, List.length_map, List.length_map, Nat.sub_add_eq]
  refine ⟨by omega, (Nat.sub_le _ _).trans input.most, fun more => ?_, ?_, ?_⟩
  · have whole := input.whole more
    rw [List.length_append] at whole
    omega
  · rw [input.cword, flags, word_drop (by rw [List.length_append, List.length_map]; omega), List.drop_left' (by rw [List.length_map])]
  · have there := input.there
    rw [written_append, extent_append, List.append_assoc, starts_append, ← Nat.add_assoc] at there
    exact there.2

/-- Items that stand for bytes. -/
theorem written_bytes (p k : ℕ) : written text p (.replicate k .byte) = (List.range' p k).map text := by
  induction k generalizing p with
  | zero => rfl
  | succ k ih =>
    rw [List.replicate_succ, List.range'_succ, List.map_cons, ← ih]
    rfl

theorem extent_bytes (k : ℕ) : extent (.replicate k .byte) = k := by
  simp [extent, Item.length]

theorem bytes_of_flags {k : ℕ} (flags : items.map Item.flag = .replicate k false) : items = .replicate k .byte := by
  induction items generalizing k with
  | nil =>
    obtain rfl : k = 0 := by simpa using (congrArg List.length flags).symm
    rfl
  | cons item items ih =>
    cases k with
    | zero => contradiction
    | succ k =>
      rw [List.map_cons, List.replicate_succ, List.cons_eq_cons] at flags
      cases item with
      | byte => rw [List.replicate_succ, ih flags.2]
      | lz length => exact Bool.noConfusion (show true = false from flags.1)

/-- The last four bytes are not in a match. -/
theorem last_bytes (parsed : Parsed text size p places items size after) (last : size ≤ p + 4) (inside : p ≤ size) :
    items = .replicate (size - p) .byte := by
  induction items generalizing p places with
  | nil =>
    obtain rfl : p = size := parsed.1
    rw [Nat.sub_self]
    rfl
  | cons item items ih =>
    obtain ⟨fits, parsed⟩ := parsed
    cases item with
    | byte =>
      have less : p < size := fits
      have rest := ih parsed (by simp only [Item.length]; omega) less
      have count : size - p = size - (p + 1) + 1 := by omega
      rw [rest, count]
      rfl
    | lz length =>
      obtain ⟨some, _, short, _⟩ := fits
      omega

end

/-! ### Decompression -/

section
variable {source text : ℕ → Byte} {size m : ℕ} {s : Decompressor} {now later : List Item} {places after : Places}

/-- The decompressor within its loop. -/
structure Reads (source text : ℕ → Byte) (size : ℕ) (s : Decompressor) (m : ℕ) (now later : List Item) (places after : Places) : Prop where
  input : Input source text s.src s.cwordVal s.dst m now later
  parsed : Parsed text size s.dst places (now ++ later) size after
  decoded : Decoded text size s.destination s.dst
  tracks : Tracks text places s.offset s.hashed s.dst
  near : s.hashed ≤ s.dst ∧ s.dst ≤ s.hashed + 2
  inside : s.dst < size

/-- What is written for a match is read. -/
theorem writeMatch_read {src hash length : ℕ} {rest : List Byte} (small : hash < 2 ^ 12) (some : 3 ≤ length) (short : length ≤ 255)
    (there : Starts source src (writeMatch hash length ++ rest)) :
    (fastRead source src >>> 4) &&& 0xfff = hash ∧
      (if fastRead source src &&& 0xf ≠ 0 then ((fastRead source src &&& 0xf) + 2, src + 2) else ((source (src + 2)).toNat, src + 3)) =
        (length, src + (writeMatch hash length).length) := by
  have low (x : ℕ) : x &&& 0xf = x % 2 ^ 4 := Nat.and_two_pow_sub_one_eq_mod x 4
  have middle (x : ℕ) : (x >>> 4) &&& 0xfff = x / 2 ^ 4 % 2 ^ 12 := by
    rw [← Nat.shiftRight_eq_div_pow]
    exact Nat.and_two_pow_sub_one_eq_mod (x >>> 4) 12
  have shifted : hash <<< 4 = 2 ^ 4 * hash := by rw [Nat.shiftLeft_eq, Nat.mul_comm]
  have byte {i v : ℕ} (found : source (src + i) = BitVec.ofNat 8 v) : (source (src + i)).toNat = v % 2 ^ 8 := by
    rw [found, BitVec.toNat_ofNat]
  obtain ⟨code, -⟩ := starts_append.mp there
  rw [low, middle, fastRead_eq]
  by_cases brief : length < 18
  · -- the length is in the lowest four bits
    have value : (length - 2) ||| (hash <<< 4) = 2 ^ 4 * hash + (length - 2) := by
      have fits : length - 2 < 2 ^ 4 := by omega
      rw [shifted, Nat.lor_comm, Nat.two_pow_add_eq_or_of_lt fits]
    rw [writeMatch, if_pos brief, value] at code ⊢
    have first : (source src).toNat = _ := byte (code 0 _ rfl)
    have second := byte (code 1 _ rfl)
    rw [if_pos (by omega), length_bytes]
    refine ⟨by omega, Prod.ext ?_ rfl⟩
    dsimp only
    omega
  · -- the length is a byte of its own
    have value : (length <<< 16) ||| (hash <<< 4) = 2 ^ 16 * length + 2 ^ 4 * hash := by
      have fits : 2 ^ 4 * hash < 2 ^ 16 := by omega
      rw [shifted, Nat.shiftLeft_eq, Nat.mul_comm, Nat.two_pow_add_eq_or_of_lt fits]
    rw [writeMatch, if_neg brief, value] at code ⊢
    have first : (source src).toNat = _ := byte (code 0 _ rfl)
    have second := byte (code 1 _ rfl)
    have third := byte (code 2 _ rfl)
    rw [if_neg (by omega), length_bytes]
    refine ⟨by omega, Prod.ext ?_ rfl⟩
    dsimp only
    omega

/-- A match is copied. -/
theorem Reads.lzMatch {length : ℕ} (reads : Reads source text size s m (.lz length :: now) later places after) :
    ∃ s', s.lzMatch source = some s' ∧ Reads source text size s' (m - 1) now later (note text places s.dst) after := by
  obtain ⟨⟨some, short, room, o, last, back, same⟩, parsed⟩ := reads.parsed
  have there := reads.input.there
  rw [written, List.append_assoc] at there
  obtain ⟨hash, code⟩ := writeMatch_read (hashFunc_lt _) some short there
  have offset : s.offset (hashAt text s.dst) = o := reads.tracks.known _ o last (by have near := reads.near; omega)
  obtain ⟨destination, copied, decoded⟩ := memcpyUp_decoded (f := 0) same back room (by omega) reads.decoded
  have noted := reads.tracks.note reads.near.1
  obtain ⟨offset', hashed, tracks⟩ := updateHashUpto_tracks (s.dst + 1) (s.dst + 1)
    (s := { s with src := s.src + (writeMatch (hashAt text s.dst) length).length, dst := s.dst + length, cwordVal := s.cwordVal >>> 1,
                   destination := destination })
    decoded (.inl (by omega)) (.inl (by omega)) noted le_rfl (Nat.le_add_right _ _)
  have all : max s.hashed (s.dst + 1) = s.dst + 1 := max_eq_right (Nat.le_succ_of_le reads.near.1)
  dsimp only at hashed tracks
  rw [all] at hashed tracks
  refine ⟨{ s with
      src := s.src + (writeMatch (hashAt text s.dst) length).length, dst := s.dst + length, cwordVal := s.cwordVal >>> 1,
      destination := destination, offset := offset', hashed := s.dst + length }, ?_, ?_, parsed, decoded,
    tracks.skip (show s.dst + 1 ≤ s.dst + length by omega), ?_, ?_⟩
  · rw [Decompressor.lzMatch]
    dsimp only
    rw [hash, code]
    change Option.map _ ((memcpyUp s.destination s.dst (s.offset (hashAt text s.dst)) length 0).bind _) = _
    rw [offset, copied, Option.bind_some]
    exact congrArg (Option.map fun s : Decompressor => { s with hashed := s.dst }) hashed
  · have input := reads.input.drop [.lz length]
    rw [written, written, List.append_nil] at input
    exact input
  · exact ⟨le_rfl, Nat.le_add_right _ _⟩
  · change s.dst + length < size
    omega

/-- How many flags in front are not set, up to four of them. -/
theorem bitlut_word (flags : List Bool) : bitlut.getD (word flags &&& 0xf) 0 = ((flags.take 4).takeWhile (! ·)).length := by
  have low (x : ℕ) : x &&& 0xf = x % 2 ^ 4 := Nat.and_two_pow_sub_one_eq_mod x 4
  match flags with
  | [] => decide
  | [a] => cases a <;> decide
  | [a, b] => cases a <;> cases b <;> decide
  | [a, b, c] => cases a <;> cases b <;> cases c <;> decide
  | a :: b :: c :: d :: flags =>
    have four : word (a :: b :: c :: d :: flags) &&& 0xf = a.toNat + 2 * (b.toNat + 2 * (c.toNat + 2 * d.toNat)) := by
      have := Bool.toNat_le a
      have := Bool.toNat_le b
      have := Bool.toNat_le c
      have := Bool.toNat_le d
      rw [low, word, word, word, word]
      omega
    rw [four]
    cases a <;> cases b <;> cases c <;> cases d <;> rfl

/-- The bytes that are copied at once are items. -/
theorem Reads.run (reads : Reads source text size s m (.byte :: now) later places after) (more : s.dst + 4 < size) :
    ∃ k rest, bitlut.getD (s.cwordVal &&& 0xf) 0 = k ∧ 1 ≤ k ∧ k ≤ 4 ∧ .byte :: now = List.replicate k Item.byte ++ rest := by
  obtain ⟨flags, flags_eq⟩ : ∃ flags, flags = padded m ((Item.byte :: now).map Item.flag) := ⟨_, rfl⟩
  have cword := reads.input.cword
  rw [← flags_eq] at cword
  have whole : flags.length = m := by rw [flags_eq, padded_length (by rw [List.length_map]; exact reads.input.few)]
  obtain ⟨k, count⟩ : ∃ k, k = ((flags.take 4).takeWhile (! ·)).length := ⟨_, rfl⟩
  have start : flags = false :: (now.map Item.flag ++ .replicate (m - (now.length + 1)) false) := by
    rw [flags_eq, padded, List.map_cons, List.length_cons, List.length_map]
    rfl
  have first : 1 ≤ k := by
    rw [count, start, List.take_succ_cons, List.takeWhile_cons_of_pos rfl, List.length_cons]
    exact Nat.le_add_left 1 _
  have front : (flags.take 4).takeWhile (! ·) = .replicate k false := by
    refine List.eq_replicate_iff.mpr ⟨count.symm, fun f among => ?_⟩
    have unset := List.all_eq_true.mp List.all_takeWhile f among
    simpa using unset
  have four : k ≤ 4 := by
    rw [count]
    exact (List.takeWhile_prefix _).length_le.trans (List.length_take_le 4 flags)
  have prefixed : List.replicate k false <+: flags := front ▸ (List.takeWhile_prefix _).trans (List.take_prefix 4 flags)
  have inside : k ≤ m := by
    have length := prefixed.length_le
    rwa [List.length_replicate, whole] at length
  have items : (Item.byte :: now).map Item.flag <+: flags := by
    rw [flags_eq, padded]
    exact List.prefix_append _ _
  -- a group that is shorter ends within the last four bytes
  have long : k ≤ (Item.byte :: now).length := by
    by_contra short
    have fewer : (Item.byte :: now).length < k := Nat.not_le.mp short
    have last : later = [] := by
      by_contra some
      have full := reads.input.whole some
      omega
    have all : (Item.byte :: now).map Item.flag = .replicate (Item.byte :: now).length false := by
      have part := List.prefix_of_prefix_length_le items prefixed (by rw [List.length_map, List.length_replicate]; exact fewer.le)
      refine List.eq_replicate_iff.mpr ⟨List.length_map _, fun f among => ?_⟩
      exact List.eq_of_mem_replicate (part.subset among)
    have parsed := parsed_extent reads.parsed
    rw [last, List.append_nil, bytes_of_flags all, extent_bytes] at parsed
    omega
  refine ⟨k, (Item.byte :: now).drop k, ?_, first, four, ?_⟩
  · rw [cword, bitlut_word, count]
  · have part := List.prefix_of_prefix_length_le prefixed items (by rw [List.length_map, List.length_replicate]; exact long)
    have taken : ((Item.byte :: now).take k).map Item.flag = .replicate k false := by
      have same := List.prefix_iff_eq_take.mp part
      rw [List.length_replicate] at same
      rw [List.map_take, same]
    rw [← bytes_of_flags taken, List.take_append_drop]

/-- Up to four bytes are copied. -/
theorem Reads.literals (reads : Reads source text size s m (.byte :: now) later places after) (more : s.dst + 4 < size) :
    ∃ s' m' rest places', s.literals source = some s' ∧ Reads source text size s' m' rest later places' after ∧
      rest.length < (Item.byte :: now).length := by
  obtain ⟨k, rest, count, some, four, items⟩ := reads.run more
  rw [items] at reads ⊢
  obtain ⟨q, mid, first, parsed⟩ := parsed_append.mp (List.append_assoc _ _ _ ▸ reads.parsed)
  have place : q = s.dst + k := by rw [parsed_extent first, extent_bytes]
  rw [place] at first parsed
  -- the bytes in front are right, and those behind them are written again later
  have there := (starts_append.mp reads.input.there).1
  rw [written_append, starts_append, written_bytes] at there
  have right : ∀ i < k, [source s.src, source (s.src + 1), source (s.src + 2), source (s.src + 3)][i]? = .some (text (s.dst + i)) := by
    intro i less
    have byte : source (s.src + i) = text (s.dst + i) := by
      refine there.1 i _ ?_
      rw [List.getElem?_map, List.getElem?_range' less, Option.map_some, Nat.one_mul]
    have small : i < 4 := by omega
    rw [← byte]
    match i, small with
    | 0, _ | 1, _ | 2, _ | 3, _ => rfl
  obtain ⟨destination, written, decoded⟩ := reads.decoded.write [source s.src, source (s.src + 1), source (s.src + 2), source (s.src + 3)]
    more.le k four right
  have near := reads.near
  have noted := reads.tracks.bytes near.1 first
  obtain ⟨offset, hashed, tracks⟩ := updateHashUpto_tracks (s.dst + k - 2) (s.dst + k - 2)
    (s := { s with src := s.src + k, dst := s.dst + k, cwordVal := s.cwordVal >>> k, destination := destination })
    decoded (by omega) (by omega) noted (by omega) (Nat.le_add_right _ _)
  have input := reads.input.drop (.replicate k .byte)
  rw [written_bytes, List.length_map, List.length_range', List.length_replicate, extent_bytes] at input
  refine ⟨{ s with
      src := s.src + k, dst := s.dst + k, cwordVal := s.cwordVal >>> k, destination := destination, offset := offset,
      hashed := max s.hashed (s.dst + k - 2) }, m - k, rest, mid, ?_, ⟨input, parsed, decoded, tracks, ?_, ?_⟩, ?_⟩
  · rw [Decompressor.literals, count, written, Option.bind_some]
    exact hashed
  · dsimp only
    omega
  · change s.dst + k < size
    omega
  · rw [List.length_append, List.length_replicate]
    omega

/-- The last bytes are copied. -/
theorem lastLiterals_decoded {left : ℕ} (input : Input source text s.src s.cwordVal s.dst m now later)
    (items : now ++ later = .replicate left .byte) (decoded : Decoded text size s.destination s.dst) (count : s.dst + left = size) :
    ∃ s', s.lastLiterals source left = some s' ∧ Decoded text size s'.destination size ∧ s'.offset = s.offset ∧ s'.hashed = s.hashed := by
  induction left generalizing s m now later with
  | zero =>
    obtain rfl : s.dst = size := count
    exact ⟨s, rfl, decoded, rfl, rfl⟩
  | succ left ih =>
    -- a control word that has come to its end is skipped
    obtain ⟨u, m', now', later', u_eq, input', items', some⟩ : ∃ (u : Decompressor) (m' : ℕ) (now' later' : List Item),
        (if s.cwordVal = 1 then { s with src := s.src + 4, cwordVal := 2 ^ 31 } else s) = u ∧
          Input source text u.src u.cwordVal s.dst m' now' later' ∧ now' ++ later' = .replicate (left + 1) .byte ∧ now' ≠ [] := by
      by_cases none : m = 0
      · subst none
        obtain rfl : now = [] := List.length_eq_zero_iff.mp (Nat.le_zero.mp input.few)
        rw [List.nil_append] at items
        have more : later ≠ [] := by
          rw [items]
          exact List.cons_ne_nil _ _
        obtain ⟨-, refilled⟩ := input.refill more
        have flags : (later.take 31).map Item.flag = .replicate (later.take 31).length false := by
          rw [items, List.take_replicate, List.map_replicate, List.length_replicate]
          rfl
        have cword : word (padded 31 ((later.take 31).map Item.flag)) = 2 ^ 31 := by
          have few : (later.take 31).length ≤ 31 := List.length_take_le 31 later
          rw [flags, padded, List.length_replicate, List.replicate_append_replicate, word_eq, bits_replicate, List.length_replicate,
            Nat.add_sub_of_le few, Nat.zero_add]
        rw [cword] at refilled
        exact ⟨_, 31, _, _, if_pos (input.one.mpr rfl), refilled, (List.take_append_drop 31 later).trans items, by simpa using more⟩
      · refine ⟨s, m, now, later, if_neg (fun one => none (input.one.mp one)), input, items, ?_⟩
        rintro rfl
        have last : later = [] := by
          by_contra more
          exact none (input.whole more).symm
        rw [last] at items
        contradiction
    have same : u.dst = s.dst ∧ u.destination = s.destination ∧ u.offset = s.offset ∧ u.hashed = s.hashed := by
      rw [← u_eq]
      split_ifs <;> exact ⟨rfl, rfl, rfl, rfl⟩
    obtain ⟨item, rest, rfl⟩ := List.exists_cons_of_ne_nil some
    rw [List.cons_append, List.replicate_succ, List.cons_eq_cons] at items'
    obtain ⟨rfl, items'⟩ := items'
    have there : source u.src = text s.dst := by
      have first := input'.there 0 (text s.dst)
      rw [written] at first
      exact first rfl
    obtain ⟨destination, copied, decoded'⟩ := decoded.write [source u.src] (by rw [List.length_singleton]; omega) 1 le_rfl
      (fun q less => by
        obtain rfl : q = 0 := Nat.lt_one_iff.mp less
        exact congrArg Option.some there)
    have input' := input'.drop [.byte]
    let next : Decompressor := { u with src := u.src + 1, dst := u.dst + 1, cwordVal := u.cwordVal >>> 1, destination := destination }
    have place : next.dst = s.dst + 1 := congrArg (· + 1) same.1
    obtain ⟨s', run, last, offset, hashed⟩ := ih (s := next) (by rw [place]; exact input') items' (by rw [place]; exact decoded') (by omega)
    refine ⟨s', ?_, last, offset.trans same.2.2.1, hashed.trans same.2.2.2⟩
    rw [Decompressor.lastLiterals, u_eq]
    rw [same.1, same.2.1, copied, Option.bind_some, ← same.1]
    exact run

/-- A control word that has flags left has one for the next item. -/
theorem Reads.some (reads : Reads source text size s m now later places after) (left : m ≠ 0) : ∃ item rest, now = item :: rest ∧
    s.cwordVal ≠ 1 ∧ s.cwordVal &&& 1 = item.flag.toNat := by
  have items : now ≠ [] := by
    rintro rfl
    have last : later = [] := by
      by_contra more
      exact left (reads.input.whole more).symm
    have parsed := reads.parsed
    rw [last] at parsed
    exact reads.inside.ne parsed.1
  obtain ⟨item, rest, rfl⟩ := List.exists_cons_of_ne_nil items
  refine ⟨item, rest, rfl, fun one => left (reads.input.one.mp one), ?_⟩
  rw [reads.input.cword, padded, List.map_cons, List.cons_append, word_bit]

/-- The bytes after the last match are copied, and all places are put into the table. -/
theorem Reads.finish (reads : Reads source text size s m now later places after) (last : size ≤ s.dst + 4) :
    ∃ t out, s.lastLiterals source (size - s.dst) = .some t ∧ Decompressor.updateHashUpto (size - 3) (size - 3) t = .some out ∧
      Decoded text size out.destination size := by
  have inside := reads.inside
  have items := last_bytes reads.parsed last inside.le
  obtain ⟨t, run, decoded, offset, hashed⟩ := lastLiterals_decoded reads.input items reads.decoded (Nat.add_sub_of_le inside.le)
  have tracks := reads.tracks.bytes reads.near.1 (items ▸ reads.parsed)
  rw [← offset, ← hashed] at tracks
  obtain ⟨offset', done, -⟩ := updateHashUpto_tracks (size - 3) (size - 3) decoded (by omega) (by omega) tracks (Nat.sub_le _ _)
    (Nat.le_add_right _ _)
  exact ⟨t, _, run, done, decoded⟩

/-- The loop ends with all of the text. An item takes one step, and a control word, after which there is an item, another one. -/
theorem Reads.loop (fuel : ℕ) (reads : Reads source text size s m now later places after)
    (enough : 2 * (now.length + later.length) + (if m = 0 then 1 else 0) < fuel) :
    ∃ out, Decompressor.loop source size fuel s = .some out ∧ Decoded text size out size := by
  induction fuel generalizing s m now later places with
  | zero => contradiction
  | succ fuel ih =>
    rw [Decompressor.loop]
    by_cases none : m = 0
    · subst none
      rw [if_pos rfl] at enough
      obtain rfl : now = [] := List.length_eq_zero_iff.mp (Nat.le_zero.mp reads.input.few)
      have more : later ≠ [] := fun none => by
        have parsed := reads.parsed
        rw [none] at parsed
        exact reads.inside.ne parsed.1
      obtain ⟨read, input⟩ := reads.input.refill more
      rw [if_pos (reads.input.one.mpr rfl), read]
      have parts := List.take_append_drop 31 later
      have count := congrArg List.length parts
      rw [List.length_append] at count
      refine ih (m := 31) ⟨input, ?_, reads.decoded, reads.tracks, reads.near, reads.inside⟩ ?_
      · rw [parts]
        exact reads.parsed
      · rw [count, if_neg (by decide)]
        rw [List.length_nil] at enough
        omega
    · rw [if_neg none] at enough
      obtain ⟨item, rest, rfl, some, bit⟩ := reads.some none
      rw [List.length_cons] at enough
      have extra (m : ℕ) : (if m = 0 then 1 else 0) ≤ 1 := by split_ifs <;> decide
      rw [if_neg some, bit]
      cases item with
      | lz length =>
        obtain ⟨s', copied, next⟩ := reads.lzMatch
        rw [if_pos (show (Item.lz length).flag.toNat = 1 from rfl), copied, Option.bind_some]
        have bound := extra (m - 1)
        exact ih next (by omega)
      | byte =>
        rw [if_neg (show Item.byte.flag.toNat ≠ 1 by decide)]
        split_ifs with more
        · obtain ⟨s', m', rest', places', copied, next, fewer⟩ := reads.literals more
          rw [copied, Option.bind_some]
          have bound := extra m'
          rw [List.length_cons] at fewer
          exact ih next (by omega)
        · obtain ⟨t, out, run, done, decoded⟩ := reads.finish (Nat.not_lt.mp more)
          rw [run, Option.bind_some, done]
          exact ⟨_, rfl, decoded⟩

theorem items_le {p q : ℕ} {items : List Item} (parsed : Parsed text size p places items q after) : p + items.length ≤ q := by
  induction items generalizing p places with
  | nil => exact parsed.1.le
  | cons item items ih =>
    obtain ⟨fits, parsed⟩ := parsed
    have long : 1 ≤ item.length := by
      cases item with
      | byte => exact le_rfl
      | lz length => exact le_trans (by decide) fits.1
    have rest := ih parsed
    rw [List.length_cons]
    omega

/-- All items are read, whatever the destination and the table have in them. -/
theorem decompressCore_encode {items : List Item} (parsed : Parsed text size 0 (fun _ => none) items size after) (some : 0 < size)
    (there : Starts source 0 (encode text 0 items)) (destination : List Byte) (room : destination.length = size) (offset : ℕ → ℕ) :
    decompressCore source destination size offset = .some ((List.range size).map text) := by
  have reads : Reads source text size
      { src := 0, dst := 0, cwordVal := 1, destination := destination, offset := offset, hashed := 0 } 0 [] items (fun _ => none) after :=
    ⟨⟨Nat.zero_le 0, Nat.zero_le 31, fun _ => rfl, rfl, there⟩, parsed, ⟨room, fun _ less => absurd less (Nat.not_lt_zero _)⟩,
      ⟨fun _ _ last => absurd last.symm (Option.some_ne_none _), fun _ _ less => absurd less (Nat.not_lt_zero _),
        fun _ _ last => absurd last.symm (Option.some_ne_none _)⟩,
      ⟨le_rfl, Nat.zero_le _⟩, some⟩
  have few := items_le parsed
  obtain ⟨out, run, decoded⟩ := reads.loop (2 * size + 2) (by rw [if_pos rfl, List.length_nil]; omega)
  rw [decompressCore, run]
  refine congrArg Option.some (List.ext_getElem? fun q => ?_)
  rcases Nat.lt_or_ge q size with inside | beyond
  · rw [decoded.first q inside, List.getElem?_map, List.getElem?_range inside, Option.map_some]
  · rw [List.getElem?_eq_none (by rw [decoded.length]; exact beyond),
      List.getElem?_eq_none (by rw [List.length_map, List.length_range]; exact beyond)]

end

/-! ### Headers -/

section
variable {memory source : ℕ → Byte} {size r : ℕ} {compressed : Bool}

/-- What `qlz_compress` writes before the data. -/
def header (size r : ℕ) (compressed : Bool) : List Byte :=
  if size < 216 then [settings false compressed, BitVec.ofNat 8 r, BitVec.ofNat 8 size]
  else settings true compressed :: (bytes 4 r ++ bytes 4 size)

theorem header_length (size r : ℕ) (compressed : Bool) : (header size r compressed).length = if size < 216 then 3 else 9 := by
  rw [header]
  split_ifs
  · rfl
  · rfl

/-- What `qlz_compress` returns, and what it has written then. -/
theorem qlzCompress_eq (source : ℕ → Byte) (some : 0 < size) (small : size ≤ 0xffffffff) (table : HashTable) : ∃ r compressed out,
    qlzCompress source size table = (r, header size r compressed ++ out) ∧
      match compressCore source size table.resetState with
      | none => r = size + (if size < 216 then 3 else 9) ∧ compressed = false ∧ out = (List.range size).map source
      | .some written =>
        r = (if size < 216 then 3 else 9) + (if written.length < 9 then 9 else written.length) ∧ compressed = true ∧ out = written := by
  have fits : ¬(size = 0 ∨ 0xffffffff < size) := by omega
  have form (r : ℕ) (compressed : Bool) : (if (if size < 216 then 3 else 9) = 3 then
        [settings false compressed, BitVec.ofNat 8 r, BitVec.ofNat 8 size] else settings true compressed :: (bytes 4 r ++ bytes 4 size)) =
      header size r compressed := by
    rw [header]
    by_cases short : size < 216
    · rw [if_pos short, if_pos short, if_pos rfl]
    · rw [if_neg short, if_neg short, if_neg (by decide)]
  rw [qlzCompress, if_neg fits]
  cases compressCore source size table.resetState with
  | none => exact ⟨_, false, _, congrArg (fun head => (_, head ++ _)) (form _ _), rfl, rfl, rfl⟩
  | some written => exact ⟨_, true, _, congrArg (fun head => (_, head ++ _)) (form _ _), rfl, rfl, rfl⟩

theorem header_fields (there : Starts memory 0 (header size r compressed)) : fieldSize memory = if size < 216 then 1 else 4 := by
  rw [header] at there
  by_cases short : size < 216
  · rw [if_pos short] at there ⊢
    have first : memory 0 = settings false compressed := there 0 _ rfl
    rw [fieldSize, first]
    cases compressed <;> rfl
  · rw [if_neg short] at there ⊢
    have first : memory 0 = settings true compressed := there 0 _ rfl
    rw [fieldSize, first]
    cases compressed <;> rfl

theorem low_byte (x : ℕ) : x &&& (0xffffffff >>> ((4 - 1) * 8)) = x % 2 ^ 8 := Nat.and_two_pow_sub_one_eq_mod x 8

theorem all_bytes (x : ℕ) : x &&& (0xffffffff >>> ((4 - 4) * 8)) = x % 2 ^ 32 := Nat.and_two_pow_sub_one_eq_mod x 32

/-- What is found in a header. -/
theorem header_read (small : size ≤ 0xffffffff) (there : Starts memory 0 (header size r compressed)) :
    (memory 0 &&& 1 = 1 ↔ compressed = true) ∧ qlzSizeDecompressed memory = size ∧
      2 * fieldSize memory + 1 = (header size r compressed).length := by
  have fields := header_fields there
  rw [qlzSizeDecompressed, fields]
  rw [header] at there ⊢
  split_ifs at there ⊢ with short
  · have first : memory 0 = settings false compressed := there 0 _ rfl
    have third : memory 2 = BitVec.ofNat 8 size := there 2 _ rfl
    refine ⟨?_, ?_, rfl⟩
    · rw [first]
      cases compressed <;> decide
    · rw [low_byte, fastRead_eq, third, BitVec.toNat_ofNat]
      omega
  · have first : memory 0 = settings true compressed := there 0 _ rfl
    have field : Starts memory (1 + 4) (bytes 4 size) :=
      (starts_append.mp (show Starts memory 0 ((settings true compressed :: bytes 4 r) ++ bytes 4 size) from there)).2
    refine ⟨?_, ?_, rfl⟩
    · rw [first]
      cases compressed <;> decide
    · rw [all_bytes, fastRead_bytes field (by omega)]
      exact Nat.mod_eq_of_lt (by omega)

/-- What has been returned is found in a header that has place for it. -/
theorem header_compressed (fits : r < if size < 216 then 2 ^ 8 else 2 ^ 32) (there : Starts memory 0 (header size r compressed)) :
    qlzSizeCompressed memory = r := by
  have fields := header_fields there
  rw [qlzSizeCompressed, fields]
  rw [header] at there
  split_ifs at there fits ⊢ with short
  · have second : memory 1 = BitVec.ofNat 8 r := there 1 _ rfl
    rw [low_byte, fastRead_eq, second, BitVec.toNat_ofNat]
    omega
  · have parts := starts_append.mp (show Starts memory 0 ([settings true compressed] ++ (bytes 4 r ++ bytes 4 size)) from there)
    have field : Starts memory 1 (bytes 4 r) := (starts_append.mp parts.2).1
    rw [all_bytes, fastRead_bytes field fits]
    exact Nat.mod_eq_of_lt fits

theorem starts_getD (l : List Byte) : Starts (fun i => l.getD i 0) 0 l := by
  intro i b found
  have same : l.getD i 0 = b := by rw [List.getD_eq_getElem?_getD, found, Option.getD_some]
  exact (congrArg (l.getD · 0) (Nat.zero_add i)).trans same

/-- Data that was compressed is found again, whatever the tables and the destination had in them before. The decompressor writes and reads only
within a destination of the size of the data. -/
theorem compressed_decompressed (source : ℕ → Byte) (size : ℕ) (some : 0 < size) (small : size ≤ 0xffffffff) (table : HashTable)
    (memory : ℕ → Byte) (there : Starts memory 0 (qlzCompress source size table).2)
    (destination : List Byte) (room : destination.length = size) (offset : ℕ → ℕ) :
    qlzSizeDecompressed memory = size ∧ qlzDecompress memory destination offset = .some ((List.range size).map source) := by
  obtain ⟨r, compressed, out, written, form⟩ := qlzCompress_eq source some small table
  rw [written] at there
  obtain ⟨front, data⟩ := starts_append.mp there
  rw [qlzDecompress]
  cases core : compressCore source size table.resetState with
  | none =>
    rw [core] at form
    obtain ⟨-, rfl, rfl⟩ := form
    obtain ⟨plain, sizes, length⟩ := header_read small front
    refine ⟨sizes, ?_⟩
    rw [if_neg (fun packed => Bool.noConfusion (plain.mp packed)), sizes, length, writeAt,
      if_pos (by rw [List.length_map, List.length_range, room, Nat.zero_add]), List.length_map, List.length_range, Nat.zero_add, ← room,
      List.drop_length, List.append_nil, room]
    refine congrArg Option.some (List.map_congr_left fun i inside => ?_)
    refine (congrArg memory (by rw [Nat.zero_add])).trans (data i (source i) ?_)
    rw [List.getElem?_map, List.getElem?_range (List.mem_range.mp inside), Option.map_some]
  | some written =>
    rw [core] at form
    obtain ⟨-, rfl, rfl⟩ := form
    obtain ⟨packed, sizes, length⟩ := header_read small front
    obtain ⟨items, places, parsed, rfl⟩ := compressCore_encode table some core
    refine ⟨sizes, ?_⟩
    rw [if_pos (packed.mpr rfl), sizes, length]
    refine decompressCore_encode parsed some (fun i b found => ?_) destination room offset
    have byte := data i b found
    rwa [Nat.zero_add] at byte ⊢

/-- Ten bytes thirty times, with values left over in the table. -/
theorem ten_bytes_decompressed :
    let source : ℕ → Byte := fun i => BitVec.ofNat 8 (i % 10)
    let memory : ℕ → Byte := fun i => (qlzCompress source 300 ⟨fun _ => 7, fun _ => 12, fun _ => 1⟩).2.getD i 0
    qlzSizeDecompressed memory = 300 ∧ qlzDecompress memory (.replicate 300 255) (fun _ => 12) = .some ((List.range 300).map source) :=
  compressed_decompressed _ 300 (by decide) (by decide) _ _ (starts_getD _) _ List.length_replicate _

end

end Tortuga.QuickLzRoundTrip
