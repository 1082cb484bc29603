import Mathlib.Data.Finset.Max
import Mathlib.Data.Fintype.Card
import Mathlib.Order.Interval.Finset.Nat
import Mathlib.Data.Fintype.Fin
import Mathlib.Algebra.BigOperators.Group.Finset.Basic
import Mathlib.Algebra.Order.BigOperators.Group.Finset

/-!
Queues of delayed items in a fixed number of slots. Each item has a key and a count that
ticks bring down; an item that comes in drops the items of its key that are not earlier.
-/
namespace Tortuga.DelayQueue

/-- An item that is due when its count has come down to zero. -/
structure Entry (K V : Type) where
  count : Int
  item : V
  key : K

/-- The slots of a queue. -/
abbrev Slots (N : ℕ) (K V : Type) := Fin N → Option (Entry K V)

section
variable {N : ℕ} {K V : Type} [DecidableEq K]

/-- The queue without the entries of `key` that are not earlier than `count`. -/
def purge (s : Slots N K V) (key : K) (count : Int) : Slots N K V := fun j =>
  (s j).filter fun e => ¬ (e.key = key ∧ count ≤ e.count)

/-- `j` is the first free slot. -/
def FirstFree (s : Slots N K V) (j : Fin N) : Prop := s j = none ∧ ∀ i, i < j → s i ≠ none

/-- The entry comes in: later ones of its key go, and it takes the first free slot. -/
def Enters (s : Slots N K V) (e : Entry K V) (t : Slots N K V) : Prop :=
  ∃ j, FirstFree (purge s e.key e.count) j ∧ t = Function.update (purge s e.key e.count) j (some e)

/-- The count comes down by one; what is due leaves. -/
def Entry.tick (e : Entry K V) : Option (Entry K V) :=
  if e.count - 1 ≤ 0 then none else some { e with count := e.count - 1 }

/-- Every count comes down. -/
def tick (s : Slots N K V) : Slots N K V := fun j => (s j).bind Entry.tick

/-- The slots of the entries of a key. -/
def pending (s : Slots N K V) (key : K) : Finset (Fin N) :=
  Finset.univ.filter fun j => (s j).any (fun e => e.key = key) = true

/-- The slots of the entries of a key before a count. -/
def earlier (s : Slots N K V) (key : K) (count : Int) : Finset (Fin N) :=
  Finset.univ.filter fun j => (s j).any (fun e => e.key = key ∧ e.count < count) = true

variable {s t : Slots N K V} {key : K} {e : Entry K V} {j : Fin N}

@[simp] theorem mem_pending : j ∈ pending s key ↔ ∃ e, s j = some e ∧ e.key = key := by
  simp [pending, Option.any_eq_true]

@[simp] theorem mem_earlier {count : Int} : j ∈ earlier s key count ↔ ∃ e, s j = some e ∧ e.key = key ∧ e.count < count := by
  simp [earlier, Option.any_eq_true]

theorem purge_eq_some {count : Int} : purge s key count j = some e ↔
    s j = some e ∧ (e.key = key → e.count < count) := by
  simp only [purge, Option.filter_eq_some_iff, decide_eq_true_eq, not_and, Int.not_le]

omit [DecidableEq K] in
theorem tick_eq_some : tick s j = some e ↔ ∃ f, s j = some f ∧ 1 < f.count ∧ e = { f with count := f.count - 1 } := by
  simp only [tick, Entry.tick, Option.bind_eq_some_iff]
  constructor
  · rintro ⟨f, found, kept⟩
    split at kept
    case isTrue => contradiction
    case isFalse later => exact ⟨f, found, by omega, (Option.some_inj.mp kept).symm⟩
  · rintro ⟨f, found, later, rfl⟩
    exact ⟨f, found, if_neg (by omega)⟩

/-- An entry that came in is at a slot of its own, the others were there and stay. -/
theorem Enters.slot {i : Fin N} {f : Entry K V} (enters : Enters s e t) (found : t i = some f) :
    f = e ∨ s i = some f ∧ (f.key = e.key → f.count < e.count) := by
  obtain ⟨j, -, rfl⟩ := enters
  by_cases same : i = j
  · rw [same, Function.update_self] at found
    exact .inl (Option.some_inj.mp found).symm
  · rw [Function.update_of_ne same] at found
    exact .inr (purge_eq_some.mp found)

/-! ### Bounds -/

/-- Entries of a key have distinct counts still to come, and there are at most `b` of them. -/
structure Good (keys : Finset K) (b : ℕ) (s : Slots N K V) : Prop where
  known : ∀ j e, s j = some e → e.key ∈ keys
  positive : ∀ j e, s j = some e → 0 < e.count
  distinct : ∀ i j e f, s i = some e → s j = some f → e.key = f.key → e.count = f.count → i = j
  few : ∀ key, (pending s key).card ≤ b

/-- There are at most `n` entries of a key, none of them later than `c`. -/
structure Upto (key : K) (c : Int) (n : ℕ) (s : Slots N K V) : Prop where
  below : ∀ j e, s j = some e → e.key = key → e.count ≤ c
  few : (pending s key).card ≤ n

theorem earlier_subset (s : Slots N K V) (key : K) (count : Int) : earlier s key count ⊆ pending s key := by
  intro j member
  obtain ⟨e, found, same, -⟩ := mem_earlier.mp member
  exact mem_pending.mpr ⟨e, found, same⟩

theorem Upto.earlier_le {c count : Int} {n : ℕ} (upto : Upto key c n s) : (earlier s key count).card ≤ n :=
  (Finset.card_le_card (earlier_subset s key count)).trans upto.few

variable {keys : Finset K} {b : ℕ}

/-- Before `count` there is room for `count - 1` distinct counts. -/
theorem Good.earlier_lt (good : Good keys b s) (key : K) {count : ℕ} (positive : 0 < count) :
    (earlier s key count).card < count := by
  have injective : Set.InjOn (fun j => ((s j).elim 0 Entry.count).toNat) (earlier s key count) := by
    intro i first j second same
    obtain ⟨e, found, keyE, -⟩ := mem_earlier.mp first
    obtain ⟨f, found', keyF, -⟩ := mem_earlier.mp second
    simp only [found, found', Option.elim_some] at same
    have := good.positive i e found
    have := good.positive j f found'
    exact good.distinct i j e f found found' (keyE.trans keyF.symm) (by omega)
  have into : ∀ j ∈ earlier s key count, ((s j).elim 0 Entry.count).toNat ∈ Finset.Ioo 0 count := by
    intro j member
    obtain ⟨e, found, -, below⟩ := mem_earlier.mp member
    have := good.positive j e found
    simp only [found, Option.elim_some, Finset.mem_Ioo]
    omega
  have bounded := Finset.card_le_card_of_injOn _ into injective
  rw [Nat.card_Ioo] at bounded
  omega

/-- All slots that are taken. -/
def taken (s : Slots N K V) : Finset (Fin N) := Finset.univ.filter fun j => (s j).isSome = true

theorem Good.taken_le (good : Good keys b s) : (taken s).card ≤ keys.card * b := by
  have inside : taken s ⊆ keys.biUnion (pending s) := by
    intro j member
    obtain ⟨e, found⟩ := Option.isSome_iff_exists.mp (Finset.mem_filter.mp member).2
    exact Finset.mem_biUnion.mpr ⟨e.key, good.known j e found, mem_pending.mpr ⟨e, found, rfl⟩⟩
  calc (taken s).card ≤ (keys.biUnion (pending s)).card := Finset.card_le_card inside
    _ ≤ keys.card * b := Finset.card_biUnion_le_card_mul _ _ _ (fun key _ => good.few key)

omit [DecidableEq K] in
/-- There is a first free slot while fewer than all are taken. -/
theorem firstFree_exists (room : (taken s).card < N) : ∃ j, FirstFree s j := by
  have free : (Finset.univ.filter fun j => s j = none).Nonempty := by
    rw [Finset.nonempty_iff_ne_empty]
    intro full
    have all : taken s = Finset.univ := by
      ext j
      have := Finset.filter_eq_empty_iff.mp full (Finset.mem_univ j)
      simp [taken, Option.isSome_iff_ne_none, this]
    rw [all, Finset.card_univ, Fintype.card_fin] at room
    exact Nat.lt_irrefl _ room
  refine ⟨Finset.min' _ free, (Finset.mem_filter.mp (Finset.min'_mem _ free)).2, fun i before empty => ?_⟩
  have least := Finset.min'_le (Finset.univ.filter fun j => s j = none) i (by simpa using empty)
  exact absurd before (Nat.not_lt.mpr least)

/-! ### Operations -/

theorem purge_taken_le (s : Slots N K V) (key : K) (count : Int) : (taken (purge s key count)).card ≤ (taken s).card := by
  refine Finset.card_le_card fun j member => ?_
  obtain ⟨e, found⟩ := Option.isSome_iff_exists.mp (Finset.mem_filter.mp member).2
  exact Finset.mem_filter.mpr ⟨Finset.mem_univ j, by rw [(purge_eq_some.mp found).1]; rfl⟩

/-- An entry finds room in a queue that is not full. -/
theorem Good.enters (good : Good keys b s) (room : keys.card * b < N) (e : Entry K V) : ∃ t, Enters s e t := by
  have fewer := (purge_taken_le s e.key e.count).trans good.taken_le
  obtain ⟨j, free⟩ := firstFree_exists (Nat.lt_of_le_of_lt fewer room)
  exact ⟨_, j, free, rfl⟩

/-- The entries of the key that came in: the earlier ones and the new one. -/
theorem Enters.pending_self (enters : Enters s e t) : (pending t e.key).card ≤ (earlier s e.key e.count).card + 1 := by
  obtain ⟨j, -, rfl⟩ := enters
  have inside : pending (Function.update (purge s e.key e.count) j (some e)) e.key ⊆
      insert j (earlier s e.key e.count) := by
    intro i member
    obtain ⟨f, found, same⟩ := mem_pending.mp member
    by_cases new : i = j
    · exact Finset.mem_insert.mpr (.inl new)
    · rw [Function.update_of_ne new] at found
      obtain ⟨old, below⟩ := purge_eq_some.mp found
      exact Finset.mem_insert_of_mem (mem_earlier.mpr ⟨f, old, same, below same⟩)
  exact (Finset.card_le_card inside).trans (Finset.card_insert_le _ _)

/-- The entries of another key stay. -/
theorem Enters.pending_other (enters : Enters s e t) (other : key ≠ e.key) : pending t key ⊆ pending s key := by
  intro i member
  obtain ⟨f, found, same⟩ := mem_pending.mp member
  rcases enters.slot found with rfl | ⟨old, -⟩
  · exact absurd same.symm other
  · exact mem_pending.mpr ⟨f, old, same⟩

theorem Enters.good (enters : Enters s e t) (good : Good keys b s) (known : e.key ∈ keys) (positive : 0 < e.count)
    (few : (earlier s e.key e.count).card < b) : Good keys b t := by
  refine ⟨fun j f found => ?known, fun j f found => ?positive, fun i j f g found found' same counts => ?distinct,
    fun key => ?few⟩
  case known =>
    rcases enters.slot found with rfl | ⟨old, -⟩
    · exact known
    · exact good.known j f old
  case positive =>
    rcases enters.slot found with rfl | ⟨old, -⟩
    · exact positive
    · exact good.positive j f old
  case distinct =>
    obtain ⟨slot, -, rfl⟩ := enters
    by_cases first : i = slot
    · by_cases second : j = slot
      · rw [first, second]
      · rw [first, Function.update_self] at found
        rw [Function.update_of_ne second] at found'
        cases Option.some_inj.mp found
        have := (purge_eq_some.mp found').2 same.symm
        omega
    · rw [Function.update_of_ne first] at found
      obtain ⟨old, below⟩ := purge_eq_some.mp found
      by_cases second : j = slot
      · rw [second, Function.update_self] at found'
        cases Option.some_inj.mp found'
        have := below same
        omega
      · rw [Function.update_of_ne second] at found'
        exact good.distinct i j f g old (purge_eq_some.mp found').1 same counts
  case few =>
    by_cases same : key = e.key
    · rw [same]
      exact enters.pending_self.trans few
    · exact (Finset.card_le_card (enters.pending_other same)).trans (good.few key)

/-- No entry of its key is later than the one that came in. -/
theorem Enters.upto (enters : Enters s e t) {n : ℕ} (few : (earlier s e.key e.count).card ≤ n) :
    Upto e.key e.count (n + 1) t := by
  refine ⟨fun j f found same => ?_, enters.pending_self.trans (Nat.succ_le_succ few)⟩
  rcases enters.slot found with rfl | ⟨-, below⟩
  · exact Int.le_refl _
  · exact Int.le_of_lt (below same)

theorem Enters.upto_other (enters : Enters s e t) {c : Int} {n : ℕ} (other : key ≠ e.key) (upto : Upto key c n s) :
    Upto key c n t := by
  refine ⟨fun j f found same => ?_, (Finset.card_le_card (enters.pending_other other)).trans upto.few⟩
  rcases enters.slot found with rfl | ⟨old, -⟩
  · exact absurd same.symm other
  · exact upto.below j f old same

theorem tick_pending (s : Slots N K V) (key : K) : pending (tick s) key ⊆ pending s key := by
  intro j member
  obtain ⟨e, found, same⟩ := mem_pending.mp member
  obtain ⟨f, old, -, rfl⟩ := tick_eq_some.mp found
  exact mem_pending.mpr ⟨f, old, same⟩

theorem Good.tick (good : Good keys b s) : Good keys b (tick s) := by
  refine ⟨fun j e found => ?known, fun j e found => ?positive, fun i j e f found found' same counts => ?distinct,
    fun key => (Finset.card_le_card (tick_pending s key)).trans (good.few key)⟩
  case known =>
    obtain ⟨f, old, -, rfl⟩ := tick_eq_some.mp found
    exact good.known j f old
  case positive =>
    obtain ⟨f, old, later, rfl⟩ := tick_eq_some.mp found
    show 0 < f.count - 1
    omega
  case distinct =>
    obtain ⟨e', old, -, rfl⟩ := tick_eq_some.mp found
    obtain ⟨f', old', -, rfl⟩ := tick_eq_some.mp found'
    have equal : e'.count - 1 = f'.count - 1 := counts
    exact good.distinct i j e' f' old old' same (by omega)

theorem Upto.tick {c : Int} {n : ℕ} (upto : Upto key c n s) : Upto key c n (tick s) := by
  refine ⟨fun j e found same => ?_, (Finset.card_le_card (tick_pending s key)).trans upto.few⟩
  obtain ⟨f, old, later, rfl⟩ := tick_eq_some.mp found
  have := upto.below j f old same
  show f.count - 1 ≤ c
  omega

/-! ### What is due -/

/-- The item `v` of `key` is due in `n` ticks. -/
def Due (s : Slots N K V) (key : K) (n : ℕ) (v : V) : Prop := ∃ j, s j = some ⟨n, v, key⟩

variable {n : ℕ} {v w : V}

theorem Enters.due_iff (enters : Enters s e t) {c : ℕ} (count : e.count = c) : Due t key n v ↔
    (key = e.key ∧ n = c ∧ v = e.item) ∨ Due s key n v ∧ (key = e.key → n < c) := by
  constructor
  · rintro ⟨i, found⟩
    rcases enters.slot found with same | ⟨old, below⟩
    · refine .inl ?_
      subst same
      exact ⟨rfl, Int.natCast_inj.mp count, rfl⟩
    · refine .inr ⟨⟨i, old⟩, fun same => ?_⟩
      have := below same
      simp only [count] at this
      omega
  · obtain ⟨j, free, rfl⟩ := enters
    rintro (⟨rfl, rfl, rfl⟩ | ⟨⟨i, found⟩, below⟩)
    · refine ⟨j, ?_⟩
      rw [Function.update_self, ← count]
    · refine ⟨i, ?_⟩
      have kept : purge s e.key e.count i = some ⟨n, v, key⟩ := by
        refine purge_eq_some.mpr ⟨found, fun same => ?_⟩
        have := below same
        show (n : Int) < e.count
        omega
      rw [Function.update_of_ne, kept]
      rintro rfl
      rw [free.1] at kept
      contradiction

omit [DecidableEq K] in
theorem tick_due : Due (tick s) key n v ↔ 0 < n ∧ Due s key (n + 1) v := by
  constructor
  · rintro ⟨i, found⟩
    obtain ⟨f, old, later, same⟩ := tick_eq_some.mp found
    obtain ⟨count, item, key'⟩ := f
    obtain ⟨counts, rfl, rfl⟩ := Entry.mk.inj same
    have before : (n : Int) = count - 1 := counts
    have still : 1 < count := later
    refine ⟨by omega, i, ?_⟩
    rw [old, show count = ((n + 1 : ℕ) : Int) by omega]
  · rintro ⟨positive, i, found⟩
    refine ⟨i, tick_eq_some.mpr ⟨_, found, ?_, ?_⟩⟩
    · simp only
      omega
    · simp

omit [DecidableEq K] in
/-- The next `k` ticks bring everything closer by `k`. -/
theorem ticks_due (k : ℕ) (positive : 0 < n) : Due (tick^[k] s) key n v ↔ Due s key (n + k) v := by
  induction k generalizing s with
  | zero => exact Iff.rfl
  | succ k ih =>
    rw [Function.iterate_succ_apply, ih, tick_due, show n + k + 1 = n + (k + 1) by omega]
    exact and_iff_right (by omega)

/-- At most one item of a key is due at a time. -/
theorem Good.due_unique (good : Good keys b s) (first : Due s key n v) (second : Due s key n w) : v = w := by
  obtain ⟨i, found⟩ := first
  obtain ⟨j, found'⟩ := second
  obtain rfl := good.distinct i j _ _ found found' rfl rfl
  rw [found] at found'
  exact (Entry.mk.inj (Option.some_inj.mp found')).2.1

theorem Good.ticks (good : Good keys b s) (k : ℕ) : Good keys b (DelayQueue.tick^[k] s) := by
  induction k generalizing s with
  | zero => exact good
  | succ k ih => exact ih good.tick

/-- The bound of a good queue may be raised. -/
theorem Good.raise {b' : ℕ} (good : Good keys b s) (more : b ≤ b') : Good keys b' s :=
  ⟨good.known, good.positive, good.distinct, fun key => (good.few key).trans more⟩

/-- An entry that comes in leaves a good queue, with no bound but the number of slots. -/
theorem Enters.good_slots (enters : Enters s e t) (good : Good keys b s) (known : e.key ∈ keys) (positive : 0 < e.count) :
    Good keys (b + N + 1) t := by
  refine enters.good (good.raise (by omega)) known positive ?_
  have few := Finset.card_le_univ (earlier s e.key e.count)
  rw [Fintype.card_fin] at few
  omega

/-- Slots may be given up at any time. -/
theorem Good.fewer (good : Good keys b s) (fewer : ∀ j e, t j = some e → s j = some e) : Good keys b t := by
  refine ⟨fun j e found => good.known j e (fewer j e found), fun j e found => good.positive j e (fewer j e found),
    fun i j e f found found' => good.distinct i j e f (fewer i e found) (fewer j f found'), fun key => ?_⟩
  refine (Finset.card_le_card fun j member => ?_).trans (good.few key)
  obtain ⟨e, found, same⟩ := mem_pending.mp member
  exact mem_pending.mpr ⟨e, fewer j e found, same⟩

end

end Tortuga.DelayQueue
