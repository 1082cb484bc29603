import Mathlib.Data.List.Basic
import Mathlib.Order.Lattice
import Mathlib.Tactic.Cases

/-!
Maps whose entries are kept in the order of their keys, with one entry a key.
-/
namespace Tortuga.SortedMaps

section
variable {K V : Type} [LinearOrder K]

/-- The entry of `k` in its place, instead of the one that is there. -/
def insertEntry (k : K) (v : V) : List (K × V) → List (K × V)
  | [] => [(k, v)]
  | e :: rest =>
    if k < e.1 then (k, v) :: e :: rest
    else if k = e.1 then (k, v) :: rest
    else e :: insertEntry k v rest

theorem lookup_cons_if (a : K) (e : K × V) (es : List (K × V)) :
    (e :: es).lookup a = if a = e.1 then some e.2 else es.lookup a := by
  rw [List.lookup_cons]
  by_cases same : a = e.1
  · simp [same]
  · have : (a == e.1) = false := by simpa using same
    rw [this, if_neg same]

theorem mem_insertEntry {k a : K} {v : V} {es : List (K × V)} (mem : a ∈ (insertEntry k v es).map Prod.fst) :
    a = k ∨ a ∈ es.map Prod.fst := by
  induction es with
  | nil => simpa [insertEntry] using mem
  | cons e rest ih =>
    rw [insertEntry] at mem
    split at mem
    · simpa using mem
    split at mem
    · rcases List.mem_cons.mp mem with here | later
      · exact .inl here
      · exact .inr (List.mem_cons_of_mem _ later)
    · rcases List.mem_cons.mp mem with here | later
      · exact .inr (by simp [here])
      · rcases ih later with same | other
        · exact .inl same
        · exact .inr (List.mem_cons_of_mem _ other)

theorem insertEntry_sorted (k : K) (v : V) {es : List (K × V)} (sorted : (es.map Prod.fst).Pairwise (· < ·)) :
    ((insertEntry k v es).map Prod.fst).Pairwise (· < ·) := by
  induction es with
  | nil => simp [insertEntry]
  | cons e rest ih =>
    obtain ⟨first, later⟩ := List.pairwise_cons.mp sorted
    rw [insertEntry]
    split
    case isTrue below =>
      refine List.pairwise_cons.mpr ⟨fun a mem => ?_, sorted⟩
      rcases List.mem_cons.mp mem with here | after
      · rwa [here]
      · exact lt_trans below (first a after)
    case isFalse above =>
      split
      case isTrue same =>
        refine List.pairwise_cons.mpr ⟨fun a mem => ?_, later⟩
        show k < a
        rw [same]
        exact first a mem
      case isFalse other =>
        refine List.pairwise_cons.mpr ⟨fun a mem => ?_, ih later⟩
        rcases mem_insertEntry mem with here | after
        · rw [here]
          exact lt_of_le_of_ne (not_lt.mp above) (Ne.symm other)
        · exact first a after

theorem lookup_insertEntry (k a : K) (v : V) (es : List (K × V)) :
    (insertEntry k v es).lookup a = if a = k then some v else es.lookup a := by
  induction es with
  | nil => rw [insertEntry, lookup_cons_if]
  | cons e rest ih =>
    rw [insertEntry]
    split
    · rw [lookup_cons_if]
    split
    case isTrue here =>
      rw [lookup_cons_if, lookup_cons_if, here]
      split <;> rfl
    case isFalse other =>
      rw [lookup_cons_if, lookup_cons_if, ih]
      by_cases here : a = e.1
      · have apart : a ≠ k := by
          rintro rfl
          exact other here
        rw [if_pos here, if_neg apart, if_pos here]
      · rw [if_neg here, if_neg here]

end

/-- A map with its entries in the order of the keys. -/
structure SortedMap (K V : Type) [LinearOrder K] where
  entries : List (K × V)
  sorted : (entries.map Prod.fst).Pairwise (· < ·)

namespace SortedMap
variable {K V : Type} [LinearOrder K] (m : SortedMap K V)

def empty : SortedMap K V := ⟨[], List.Pairwise.nil⟩

def keys : List K := m.entries.map Prod.fst

def get? (k : K) : Option V := m.entries.lookup k

def set (k : K) (v : V) : SortedMap K V := ⟨insertEntry k v m.entries, insertEntry_sorted k v m.sorted⟩

def erase (k : K) : SortedMap K V where
  entries := m.entries.filter fun e => e.1 ≠ k
  sorted := m.sorted.sublist (List.filter_sublist.map _)

/-- Another value for each key. -/
def mapValues {W : Type} (f : V → W) : SortedMap K W where
  entries := m.entries.map fun e => (e.1, f e.2)
  sorted := by
    rw [List.map_map]
    exact m.sorted

theorem keys_nodup : m.keys.Nodup := m.sorted.imp fun below => ne_of_lt below

@[simp] theorem get?_empty (k : K) : (empty : SortedMap K V).get? k = none := rfl

theorem get?_set (k a : K) (v : V) : (m.set k v).get? a = if a = k then some v else m.get? a :=
  lookup_insertEntry k a v m.entries

@[simp] theorem get?_set_self (k : K) (v : V) : (m.set k v).get? k = some v := by
  rw [get?_set, if_pos rfl]

theorem get?_set_ne {k a : K} (other : a ≠ k) (v : V) : (m.set k v).get? a = m.get? a := by
  rw [get?_set, if_neg other]

theorem get?_erase (k a : K) : (m.erase k).get? a = if a = k then none else m.get? a := by
  obtain ⟨es, sorted⟩ := m
  show (es.filter fun e => decide (e.1 ≠ k)).lookup a = if a = k then none else es.lookup a
  clear sorted
  induction es with
  | nil => simp
  | cons e rest ih =>
    by_cases here : e.1 = k
    · rw [List.filter_cons_of_neg (by simpa using here), ih, lookup_cons_if, here]
      split <;> rfl
    · rw [List.filter_cons_of_pos (by simpa using here), lookup_cons_if, lookup_cons_if, ih]
      by_cases same : a = e.1
      · have apart : a ≠ k := by rwa [same]
        rw [if_pos same, if_neg apart, if_pos same]
      · rw [if_neg same, if_neg same]

theorem get?_mapValues {W : Type} (f : V → W) (k : K) : (m.mapValues f).get? k = (m.get? k).map f := by
  obtain ⟨es, sorted⟩ := m
  show (es.map fun e => (e.1, f e.2)).lookup k = (es.lookup k).map f
  clear sorted
  induction es with
  | nil => rfl
  | cons e rest ih =>
    rw [List.map_cons, lookup_cons_if, lookup_cons_if, ih]
    split <;> rfl

/-- An entry is what its key is looked up to. -/
theorem mem_entries {k : K} {v : V} : (k, v) ∈ m.entries ↔ m.get? k = some v := by
  obtain ⟨es, sorted⟩ := m
  show (k, v) ∈ es ↔ es.lookup k = some v
  induction es with
  | nil => simp
  | cons e rest ih =>
    obtain ⟨first, later⟩ := List.pairwise_cons.mp sorted
    rw [List.mem_cons, lookup_cons_if]
    by_cases same : k = e.1
    · have absent : (k, v) ∉ rest := by
        intro mem
        have below := first k (List.mem_map_of_mem (f := Prod.fst) mem)
        rw [same] at below
        exact lt_irrefl _ below
      rw [if_pos same, Option.some_inj]
      constructor
      · rintro (here | mem)
        · rw [← here]
        · exact absurd mem absent
      · rintro rfl
        exact .inl (by rw [same])
    · rw [if_neg same, ih later]
      constructor
      · rintro (here | found)
        · exact absurd (by rw [← here]) same
        · exact found
      · exact .inr

theorem mem_keys {k : K} : k ∈ m.keys ↔ ∃ v, m.get? k = some v := by
  constructor
  · intro mem
    obtain ⟨e, member, rfl⟩ := List.mem_map.mp mem
    exact ⟨e.2, m.mem_entries.mp member⟩
  · rintro ⟨v, found⟩
    exact List.mem_map_of_mem (f := Prod.fst) (m.mem_entries.mpr found)

/-- All entries of a list, from left to right. -/
theorem get?_setAll (es : List (K × V)) (distinct : (es.map Prod.fst).Nodup) (k : K) :
    (es.foldl (fun map e => map.set e.1 e.2) m).get? k = (es.lookup k).or (m.get? k) := by
  induction es generalizing m with
  | nil => rfl
  | cons e rest ih =>
    obtain ⟨fresh, distinct⟩ := List.nodup_cons.mp distinct
    rw [List.foldl_cons, ih _ distinct, lookup_cons_if]
    by_cases here : k = e.1
    · have absent : rest.lookup k = none := by
        rw [List.lookup_eq_none_iff]
        intro other mem
        have apart : k ≠ other.1 := by
          rintro rfl
          exact fresh (here ▸ List.mem_map_of_mem mem)
        simpa using apart
      rw [absent, if_pos here, here, get?_set_self, Option.none_or, Option.some_or]
    · rw [if_neg here, get?_set_ne _ here]

end SortedMap

end Tortuga.SortedMaps
