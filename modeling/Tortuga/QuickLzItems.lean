import Tortuga.ControlWords
import Tortuga.QuickLz

/-!
What `quicklz.cpp` writes: items, each of which is a byte or the length of a match with the last place of the same hash value, in groups of
31 after a control word. `qlz_compress_core` writes the items of its source.
-/
namespace Tortuga.QuickLzItems
open Tortuga.BusCodes
open Tortuga.LittleEndian
open Tortuga.ControlWords
open Tortuga.QuickLz

/-! ### Items -/

inductive Item
  | byte
  | lz (length : ℕ)

namespace Item

def flag : Item → Bool
  | byte => false
  | lz _ => true

/-- How many bytes of the source it stands for. -/
def length : Item → ℕ
  | byte => 1
  | lz length => length

end Item

/-- The last place of each hash value. -/
abbrev Places := ℕ → Option ℕ

section
variable (source : ℕ → Byte) (size : ℕ)

def hashAt (p : ℕ) : ℕ := hashFunc (fastRead source p)

/-- What is written for an item at a place. -/
def Item.written (p : ℕ) : Item → List Byte
  | .byte => [source p]
  | .lz length => writeMatch (hashAt source p) length

/-- An item at a place says what is there. -/
def Item.Fits (places : Places) (p : ℕ) : Item → Prop
  | .byte => p < size
  | .lz length => 3 ≤ length ∧ length ≤ 255 ∧ p + length + 4 ≤ size ∧
    ∃ o, places (hashAt source p) = some o ∧ o + 2 < p ∧ ∀ k < length, source (o + k) = source (p + k)

def note (places : Places) (p : ℕ) : Places := Function.update places (hashAt source p) (some p)

/-- Items from a place to another, and the places of hash values before and after. -/
def Parsed : ℕ → Places → List Item → ℕ → Places → Prop
  | p, places, [], q, after => p = q ∧ places = after
  | p, places, item :: items, q, after => item.Fits source size places p ∧ Parsed (p + item.length) (note source places p) items q after

/-- How many bytes items stand for. -/
def extent (items : List Item) : ℕ := (items.map Item.length).sum

/-- What is written for items from a place on. -/
def written : ℕ → List Item → List Byte
  | _, [] => []
  | p, item :: items => item.written source p ++ written (p + item.length) items

/-- The control word of a group. -/
def control (items : List Item) : List Byte := bytes 4 (word (padded 31 (items.map Item.flag)))

/-- All that is written for items from a place on. -/
def encode (p : ℕ) (items : List Item) : List Byte :=
  if items = [] then []
  else control (items.take 31) ++ (written source p (items.take 31) ++ encode (p + extent (items.take 31)) (items.drop 31))
termination_by items.length
decreasing_by
  have some := List.length_pos_iff.mpr ‹items ≠ []›
  rw [List.length_drop]
  omega

end

section
variable {source : ℕ → Byte} {size p q u : ℕ} {places mid after : Places} {item : Item} {items full now : List Item}

theorem parsed_append : Parsed source size p places (full ++ now) u after ↔
    ∃ q mid, Parsed source size p places full q mid ∧ Parsed source size q mid now u after := by
  induction full generalizing p places with
  | nil =>
    refine ⟨fun parsed => ⟨p, places, ⟨rfl, rfl⟩, parsed⟩, ?_⟩
    rintro ⟨q, mid, ⟨rfl, rfl⟩, parsed⟩
    exact parsed
  | cons item full ih =>
    rw [List.cons_append, Parsed, ih]
    constructor
    · rintro ⟨fits, q, mid, first, later⟩
      exact ⟨q, mid, ⟨fits, first⟩, later⟩
    · rintro ⟨q, mid, ⟨fits, first⟩, later⟩
      exact ⟨fits, q, mid, first, later⟩

theorem parsed_snoc (parsed : Parsed source size p places items q mid) (fits : item.Fits source size mid q) :
    Parsed source size p places (items ++ [item]) (q + item.length) (note source mid q) :=
  parsed_append.mpr ⟨q, mid, parsed, fits, rfl, rfl⟩

theorem parsed_extent (parsed : Parsed source size p places items q after) : q = p + extent items := by
  induction items generalizing p places with
  | nil => exact parsed.1.symm
  | cons item items ih =>
    rw [ih parsed.2, extent, extent, List.map_cons, List.sum_cons]
    omega

theorem extent_append (full now : List Item) : extent (full ++ now) = extent full + extent now := by
  rw [extent, List.map_append, List.sum_append]
  rfl

theorem written_append (p : ℕ) (full now : List Item) :
    written source p (full ++ now) = written source p full ++ written source (p + extent full) now := by
  induction full generalizing p with
  | nil => rfl
  | cons item full ih =>
    rw [List.cons_append, written, written, ih, extent, extent, List.map_cons, List.sum_cons, List.append_assoc, Nat.add_assoc]

theorem encode_nil (p : ℕ) : encode source p [] = [] := by rw [encode, if_pos rfl]

theorem encode_group (source : ℕ → Byte) (p : ℕ) {now : List Item} (some : now ≠ []) (few : now.length ≤ 31) (later : List Item)
    (whole : later ≠ [] → now.length = 31) :
    encode source p (now ++ later) = control now ++ (written source p now ++ encode source (p + extent now) later) := by
  have front : (now ++ later).take 31 = now ∧ (now ++ later).drop 31 = later := by
    by_cases none : later = []
    · rw [none, List.append_nil]
      exact ⟨List.take_of_length_le few, List.drop_eq_nil_of_le few⟩
    · exact ⟨List.take_left' (whole none), List.drop_left' (whole none)⟩
  rw [encode, if_neg fun both => some (List.append_eq_nil_iff.mp both).1, front.1, front.2]

/-- After groups that are full another one may come. -/
theorem encode_append (p : ℕ) (full now : List Item) (whole : 31 ∣ full.length) :
    encode source p (full ++ now) = encode source p full ++ encode source (p + extent full) now := by
  obtain ⟨n, length⟩ := whole
  induction n generalizing p full with
  | zero =>
    obtain rfl : full = [] := List.length_eq_zero_iff.mp (by omega)
    rw [encode_nil]
    rfl
  | succ n ih =>
    have group : (full.take 31).length = 31 := List.length_take_of_le (by omega)
    have some : full.take 31 ≠ [] := fun none => by
      rw [none] at group
      contradiction
    have first (later : List Item) := encode_group source p some group.le later fun _ => group
    have rest := ih (p + extent (full.take 31)) (full.drop 31) (by rw [List.length_drop]; omega)
    have parts := List.take_append_drop 31 full
    calc encode source p (full ++ now) = encode source p (full.take 31 ++ (full.drop 31 ++ now)) := by rw [← List.append_assoc, parts]
      _ = encode source p (full.take 31 ++ full.drop 31) ++ encode source (p + extent (full.take 31 ++ full.drop 31)) now := by
        rw [first, first, rest, extent_append, Nat.add_assoc]
        simp only [List.append_assoc]
      _ = encode source p full ++ encode source (p + extent full) now := by rw [parts]

theorem parsed_le (parsed : Parsed source size p places items q after) (inside : p ≤ size) : q ≤ size := by
  induction items generalizing p places with
  | nil => exact parsed.1 ▸ inside
  | cons item items ih =>
    refine ih parsed.2 ?_
    have fits := parsed.1
    cases item with
    | byte => exact fits
    | lz length => exact (Nat.le_add_right _ 4).trans fits.2.2.1

end

/-! ### Words of the source -/

section
variable {source : ℕ → Byte} {size o p x y : ℕ}

theorem fastRead_eq (source : ℕ → Byte) (p : ℕ) : fastRead source p =
    (source p).toNat + 256 * ((source (p + 1)).toNat + 256 * ((source (p + 2)).toNat + 256 * (source (p + 3)).toNat)) := rfl

theorem xor_low (x y : ℕ) : (x ^^^ y) &&& 0xffffff = 0 ↔ x % 2 ^ 24 = y % 2 ^ 24 := by
  have mask := Nat.and_two_pow_sub_one_eq_mod (x ^^^ y) 24
  change (x ^^^ y) &&& 0xffffff = _ at mask
  rw [mask, Nat.xor_mod_two_pow, Nat.xor_eq_zero_iff]

/-- The fourth byte does not matter. -/
theorem hashFunc_congr (same : x % 2 ^ 24 = y % 2 ^ 24) : hashFunc x = hashFunc y := by
  have low (x : ℕ) : hashFunc x = (x % 2 ^ 24 / 2 ^ 12) ^^^ (x % 2 ^ 24 % 2 ^ 12) := by
    have mask := Nat.and_two_pow_sub_one_eq_mod ((x >>> 12) ^^^ x) 12
    change hashFunc x = _ at mask
    have high : x / 2 ^ 12 % 2 ^ 12 = x % 2 ^ 24 / 2 ^ 12 := by omega
    have rest : x % 2 ^ 12 = x % 2 ^ 24 % 2 ^ 12 := by omega
    rw [mask, Nat.xor_mod_two_pow, Nat.shiftRight_eq_div_pow, high, rest]
  rw [low, low, same]

theorem hashFunc_lt (x : ℕ) : hashFunc x < 2 ^ 12 := by
  have mask := Nat.and_two_pow_sub_one_eq_mod ((x >>> 12) ^^^ x) 12
  change hashFunc x = _ at mask
  rw [mask]
  exact Nat.mod_lt _ (by decide)

theorem fastRead_low : fastRead source o % 2 ^ 24 = fastRead source p % 2 ^ 24 ↔
    source o = source p ∧ source (o + 1) = source (p + 1) ∧ source (o + 2) = source (p + 2) := by
  have bound (i : ℕ) := (source i).isLt
  have equal (i j : ℕ) : source i = source j ↔ (source i).toNat = (source j).toNat := BitVec.toNat_inj.symm
  rw [fastRead_eq, fastRead_eq, equal, equal, equal]
  have := bound o
  have := bound (o + 1)
  have := bound (o + 2)
  have := bound p
  have := bound (p + 1)
  have := bound (p + 2)
  omega

/-- The loop ends where the bytes differ, or where a match may not be longer. -/
theorem extend_same {limit matchlen : ℕ} (same : ∀ k < matchlen, source (o + k) = source (p + k)) :
    ∀ k < extend source o p limit matchlen, source (o + k) = source (p + k) := by
  fun_induction extend source o p limit matchlen with
  | case1 matchlen more ih =>
    refine ih fun k less => ?_
    rcases Nat.lt_succ_iff_lt_or_eq.mp less with earlier | rfl
    · exact same k earlier
    · exact more.1
  | case2 matchlen other => exact same

theorem extend_le {limit matchlen : ℕ} (short : matchlen ≤ limit) : extend source o p limit matchlen ≤ limit := by
  fun_induction extend source o p limit matchlen with
  | case1 matchlen more ih => exact ih more.2
  | case2 matchlen other => exact short

theorem below_succ {n : ℕ} (same : ∀ k < n, source (o + k) = source (p + k)) (here : source (o + n) = source (p + n)) :
    ∀ k < n + 1, source (o + k) = source (p + k) := by
  intro k less
  rcases Nat.lt_succ_iff_lt_or_eq.mp less with earlier | rfl
  · exact same k earlier
  · exact here

theorem matchLength_same (three : ∀ k < 3, source (o + k) = source (p + k)) :
    ∀ k < matchLength source size o p, source (o + k) = source (p + k) := by
  rw [matchLength]
  split_ifs with fourth fifth sixth
  · exact three
  · exact below_succ three (not_not.mp fourth)
  · exact below_succ (below_succ three (not_not.mp fourth)) (not_not.mp fifth)
  · exact extend_same (below_succ (below_succ (below_succ three (not_not.mp fourth)) (not_not.mp fifth)) (not_not.mp sixth))

theorem matchLength_le (source : ℕ → Byte) (o : ℕ) (room : p + 11 ≤ size) :
    matchLength source size o p ≤ 255 ∧ p + matchLength source size o p + 4 ≤ size := by
  have limit : remaining size p ≤ 255 ∧ 7 ≤ remaining size p ∧ p + remaining size p + 4 ≤ size := by
    rw [remaining]
    split_ifs <;> omega
  have long : extend source o p (remaining size p) 6 ≤ remaining size p := extend_le (by omega)
  rw [matchLength]
  split_ifs <;> omega

end

/-! ### Compression -/

section
variable {source : ℕ → Byte} {size : ℕ} {s : Compressor} {places : Places} {item : Item} {full now : List Item}

/-- The hash table has the last places. -/
structure Synced (source : ℕ → Byte) (table : HashTable) (places : Places) : Prop where
  place : ∀ h, places h = if table.counter h = 0 then none else some (table.offset h)
  cache : ∀ h, table.counter h ≠ 0 → table.cache h = fastRead source (table.offset h)

/-- Items have been written, some of them in a group that goes on. -/
structure Wrote (source : ℕ → Byte) (s : Compressor) (full now : List Item) : Prop where
  whole : 31 ∣ full.length
  few : now.length ≤ 31
  finished : s.finished = encode source 0 full
  pending : s.pending = written source (extent full) now
  cword : s.cwordVal = filling 31 (now.map Item.flag)

theorem Wrote.full_iff (wrote : Wrote source s full now) : s.cwordVal &&& 1 = 1 ↔ now.length = 31 := by
  rw [wrote.cword, filling_full (by rw [List.length_map]; exact wrote.few), List.length_map]

theorem Wrote.nextWord (wrote : Wrote source s full now) (ready : now.length = 31) : Wrote source s.nextWord (full ++ now) [] := by
  have some : now ≠ [] := fun none => by
    rw [none] at ready
    contradiction
  have flags : (now.map Item.flag).length = 31 := by rw [List.length_map, ready]
  refine ⟨?_, Nat.zero_le 31, ?_, rfl, (filling_nil 31).symm⟩
  · rw [List.length_append, ready]
    exact (Nat.dvd_add_right wrote.whole).mpr (Dvd.intro 1 rfl)
  · have group := encode_group source (extent full) some ready.le [] (absurd rfl)
    have cword : (s.cwordVal >>> 1) ||| 2 ^ 31 = word (padded 31 (now.map Item.flag)) := by
      rw [← word_padded flags.le, wrote.cword, filling, flags, Nat.sub_self, pow_zero, one_mul]
    rw [encode_nil, List.append_nil, List.append_nil] at group
    rw [encode_append 0 full now wrote.whole, Nat.zero_add, group, control, ← cword, ← wrote.finished, ← wrote.pending]
    rfl

/-- Before an item there is place for it. -/
theorem Wrote.ready (wrote : Wrote source s full now) : ∃ full' now', full' ++ now' = full ++ now ∧ now'.length < 31 ∧
    Wrote source (if s.cwordVal &&& 1 = 1 then s.nextWord else s) full' now' := by
  by_cases ready : now.length = 31
  · refine ⟨full ++ now, [], List.append_nil _, by decide, ?_⟩
    rw [if_pos (wrote.full_iff.mpr ready)]
    exact wrote.nextWord ready
  · refine ⟨full, now, rfl, lt_of_le_of_ne wrote.few ready, ?_⟩
    rwa [if_neg (fun now => ready (wrote.full_iff.mp now))]

theorem Wrote.put (wrote : Wrote source s full now) (room : now.length < 31) (src : s.src = extent (full ++ now)) {t : Compressor}
    (finished : t.finished = s.finished) (pending : t.pending = s.pending ++ item.written source s.src)
    (cword : t.cwordVal = s.flag item.flag) : Wrote source t full (now ++ [item]) := by
  refine ⟨wrote.whole, ?_, finished.trans wrote.finished, ?_, ?_⟩
  · rw [List.length_append, List.length_singleton]
    exact room
  · rw [pending, wrote.pending, written_append, src, extent_append]
    simp only [written, List.append_nil]
  · have next := filling_snoc (now.map Item.flag) (by rw [List.length_map]; exact room) item.flag
    rw [cword, Compressor.flag, wrote.cword, next, List.map_append, List.map_singleton]

/-- The place of an item becomes the last one of its hash value, which counts. -/
theorem Synced.put {table : HashTable} (synced : Synced source table places) (p : ℕ) {counter : ℕ → Byte}
    (counts : counter (hashAt source p) ≠ 0) (others : ∀ h, h ≠ hashAt source p → counter h = table.counter h) :
    Synced source { table.put (hashAt source p) (fastRead source p) p with counter := counter } (note source places p) where
  place h := by
    rw [note]
    dsimp only [HashTable.put]
    by_cases here : h = hashAt source p
    · subst here
      rw [Function.update_self, Function.update_self, if_neg counts]
    · simp only [Function.update_of_ne here, others h here, synced.place]
  cache h counts := by
    dsimp only [HashTable.put] at counts ⊢
    by_cases here : h = hashAt source p
    · subst here
      rw [Function.update_self, Function.update_self]
    · rw [others h here] at counts
      rw [Function.update_of_ne here, Function.update_of_ne here, synced.cache h counts]

/-- What the main loop has done. -/
structure Compressed (source : ℕ → Byte) (size : ℕ) (s : Compressor) (full now : List Item) (places : Places) : Prop where
  wrote : Wrote source s full now
  parsed : Parsed source size 0 (fun _ => none) (full ++ now) s.src places
  synced : Synced source s.table places

theorem Compressed.src (compressed : Compressed source size s full now places) : s.src = extent (full ++ now) := by
  rw [parsed_extent compressed.parsed, Nat.zero_add]

theorem Compressed.next (compressed : Compressed source size s full now places) (room : now.length < 31) (more : s.src + 11 ≤ size) :
    ∃ item, Compressed source size (s.item source size) full (now ++ [item]) (note source places s.src) := by
  have parse {item : Item} (fits : item.Fits source size places s.src) : Parsed source size 0 (fun _ => none) (full ++ (now ++ [item]))
      (s.src + item.length) (note source places s.src) := by
    rw [← List.append_assoc]
    exact parsed_snoc compressed.parsed fits
  rw [Compressor.item]
  change ∃ item, Compressed source size (if (fastRead source s.src ^^^ s.table.cache (hashAt source s.src)) &&& 0xffffff = 0 ∧
    s.table.offset (hashAt source s.src) + 2 < s.src ∧ s.table.counter (hashAt source s.src) ≠ 0 then _ else _) _ _ _
  split_ifs with hit
  · obtain ⟨same, back, counts⟩ := hit
    set o := s.table.offset (hashAt source s.src) with o_eq
    rw [compressed.synced.cache _ counts, xor_low] at same
    obtain ⟨first, second, third⟩ := fastRead_low.mp same.symm
    have three : ∀ k < 3, source (o + k) = source (s.src + k) := by
      rintro (_ | _ | _ | k) less
      · exact first
      · exact second
      · exact third
      · omega
    have last : places (hashAt source s.src) = some o := by rw [compressed.synced.place, if_neg counts]
    obtain ⟨short, inside⟩ := matchLength_le source o more
    refine ⟨.lz (matchLength source size o s.src), compressed.wrote.put room compressed.src rfl rfl rfl,
      parse ⟨matchLength_ge source size o s.src, short, inside, o, last, back, matchLength_same three⟩, ?_⟩
    exact compressed.synced.put s.src counts fun _ _ => rfl
  · refine ⟨.byte, compressed.wrote.put room compressed.src rfl rfl rfl, parse (show s.src < size by omega), ?_⟩
    refine compressed.synced.put s.src ?_ fun h other => ?_
    · change Function.update s.table.counter (hashAt source s.src) 1 (hashAt source s.src) ≠ 0
      rw [Function.update_self]
      decide
    · exact Function.update_of_ne other _ _

theorem mainLoop_compressed (compressed : Compressed source size s full now places) (begun : now = [] → full = []) {t : Compressor}
    (loop : s.mainLoop source size = some t) :
    ∃ full now places, Compressed source size t full now places ∧ (now = [] → full = []) := by
  have later {now : List Item} {item : Item} {full : List Item} (none : now ++ [item] = []) : full = [] :=
    absurd (List.append_eq_nil_iff.mp none).2 (List.cons_ne_nil _ _)
  fun_induction Compressor.mainLoop source size s generalizing full now places with
  | case1 s more ready poor => contradiction
  | case2 s more ready fine ih =>
    have room : ([] : List Item).length < 31 := by decide
    have next := compressed.wrote.nextWord (compressed.wrote.full_iff.mp ready)
    have before : Compressed source size s.nextWord (full ++ now) [] places :=
      ⟨next, by rw [List.append_nil]; exact compressed.parsed, compressed.synced⟩
    obtain ⟨item, after⟩ := before.next room more
    exact ih after later loop
  | case3 s more unready ih =>
    have room := lt_of_le_of_ne compressed.wrote.few fun full => unready (compressed.wrote.full_iff.mpr full)
    obtain ⟨item, after⟩ := compressed.next room more
    exact ih after later loop
  | case4 s past =>
    obtain rfl := Option.some_inj.mp loop
    exact ⟨full, now, places, compressed, begun⟩

/-- The last bytes are items, too. -/
theorem lastLoop_wrote (left : ℕ) (wrote : Wrote source s full now) (parsed : Parsed source size 0 (fun _ => none) (full ++ now) s.src places)
    (count : s.src + left = size) (begun : now = [] → full = []) : ∃ full' now' places', Wrote source (s.lastLoop source size left) full' now' ∧
      Parsed source size 0 (fun _ => none) (full' ++ now') size places' ∧ (now' = [] → full' = []) := by
  induction left generalizing s full now places with
  | zero =>
    obtain rfl : s.src = size := count
    exact ⟨full, now, places, wrote, parsed, begun⟩
  | succ left ih =>
    obtain ⟨full', now', same, room, ready⟩ := wrote.ready
    rw [← same] at parsed
    have fits : Item.Fits source size places s.src .byte := show s.src < size by omega
    have put : Wrote source (s.last source size) full' (now' ++ [.byte]) := by
      have src (c : Prop) [Decidable c] : (if c then s.nextWord else s).src = extent (full' ++ now') := by
        have before := parsed_extent parsed
        split_ifs
        · exact before.trans (Nat.zero_add _)
        · exact before.trans (Nat.zero_add _)
      refine ready.put room (src _) ?_ ?_ ?_
      · rw [Compressor.last]
        split_ifs <;> rfl
      · rw [Compressor.last]
        split_ifs <;> rfl
      · rw [Compressor.last]
        split_ifs <;> rfl
    have next : Parsed source size 0 (fun _ => none) (full' ++ (now' ++ [.byte])) (s.last source size).src (note source places s.src) := by
      have next := parsed_snoc parsed fits
      rw [← List.append_assoc]
      refine Eq.mp (congrArg (fun p => Parsed source size 0 (fun _ => none) _ p _) ?_) next
      rw [Compressor.last]
      split_ifs <;> rfl
    have further : (s.last source size).src = s.src + 1 := by
      rw [Compressor.last]
      split_ifs <;> rfl
    exact ih put next (by omega) fun none => absurd (List.append_eq_nil_iff.mp none).2 (List.cons_ne_nil _ _)

theorem align_odd (k b : ℕ) : align (2 ^ k * (1 + 2 * b)) = 1 + 2 * b := by
  induction k with
  | zero =>
    rw [pow_zero, one_mul, align, if_pos (.inl (by rw [Nat.and_one_is_mod]; omega))]
  | succ k ih =>
    have even : 2 ^ (k + 1) * (1 + 2 * b) = 2 * (2 ^ k * (1 + 2 * b)) := by ring
    have some : 0 < 2 ^ k * (1 + 2 * b) := by positivity
    rw [align, if_neg (by rw [Nat.and_one_is_mod]; omega), even, Nat.shiftRight_eq_div_pow, pow_one, Nat.mul_div_cancel_left _ two_pos, ih]

/-- What is written is the items of the source, whatever the table was. -/
theorem compressCore_encode (table : HashTable) {out : List Byte} (some : 0 < size)
    (core : compressCore source size table.resetState = .some out) :
    ∃ items places, Parsed source size 0 (fun _ => none) items size places ∧ out = encode source 0 items := by
  obtain ⟨s, loop, rfl⟩ := Option.map_eq_some_iff.mp core
  have start : Compressed source size { src := 0, finished := [], pending := [], cwordVal := 2 ^ 31, table := table.resetState } [] []
      (fun _ => none) := by
    refine ⟨⟨Dvd.intro 0 rfl, Nat.zero_le 31, (encode_nil 0).symm, rfl, (filling_nil 31).symm⟩, ⟨rfl, rfl⟩, fun h => rfl, fun h counts => ?_⟩
    exact absurd rfl counts
  obtain ⟨full, now, places, compressed, begun⟩ := mainLoop_compressed start (fun _ => rfl) loop
  have inside := parsed_le compressed.parsed (Nat.zero_le size)
  obtain ⟨full, now, places, wrote, parsed, begun⟩ := lastLoop_wrote (size - s.src) compressed.wrote compressed.parsed (by omega) begun
  refine ⟨full ++ now, places, parsed, ?_⟩
  have group : now ≠ [] := by
    rintro rfl
    rw [begun rfl] at parsed
    exact absurd parsed.1 (Nat.ne_of_lt some)
  have cword : (align (s.lastLoop source size (size - s.src)).cwordVal >>> 1) ||| 2 ^ 31 = word (padded 31 (now.map Item.flag)) := by
    rw [wrote.cword, filling, align_odd, word_padded (by rw [List.length_map]; exact wrote.few)]
  have last := encode_group source (extent full) group wrote.few [] (absurd rfl)
  rw [encode_nil, List.append_nil, List.append_nil] at last
  rw [encode_append 0 full now wrote.whole, Nat.zero_add, last, control, ← cword, ← wrote.finished, ← wrote.pending]

end

end Tortuga.QuickLzItems
