import Tortuga.TrackedBlobs
import Mathlib.Data.List.Nodup

/-!
What `updateIds` does to the ids: each is kept, handed on or given up once (`TrackedBlob.h`).
-/
namespace Tortuga.BlobIds
open Tortuga.SortedMaps Tortuga.TrackedBlobs

section
variable {B D E : Type} [LT D] [LE D] [DecidableLT D] [DecidableLE D] {distanceTo : B → B → D} {far threshold : D}
  {s s' : BlobIdLists B} {b o : TrackedBlob B} {newList : List (TrackedBlob B)} {id : ℤ} {n : ℕ}

/-! ### The search -/

omit [LE D] [DecidableLE D] in
theorem closest_spec (distance : E → D) (es : List E) (i : ℕ) (best : D × ℕ) :
    closest distance es i best = best ∨ (closest distance es i best).2 < i + es.length := by
  induction es generalizing i best with
  | nil => exact .inl rfl
  | cons e rest ih =>
    rw [closest, List.length_cons]
    split
    · rcases ih (i + 1) (distance e, i) with same | inside
      · rw [same]
        exact .inr (by show i < _; omega)
      · exact .inr (by omega)
    · rcases ih (i + 1) best with same | inside
      · exact .inl same
      · exact .inr (by omega)

omit [LE D] [DecidableLE D] in
/-- What is close enough is in the list, when the threshold is no larger than where the search begins. -/
theorem search_valid (limit : ¬ far < threshold) {distance : E → D} {es : List E} (near : (search far distance es).1 < threshold) :
    (search far distance es).2 < es.length := by
  rcases closest_spec distance es 0 (far, 0) with same | inside
  · rw [search, same] at near
    exact absurd near limit
  · rw [Nat.zero_add] at inside
    exact inside

/-! ### One blob -/

/-- What can become of a blob: it keeps its id, or takes one of the old list or of the map. -/
inductive Takes (s : BlobIdLists B) (b : TrackedBlob B) : BlobIdLists B × TrackedBlob B → Prop
  | keeps : Takes s b (s, b)
  | old (i : ℕ) (o : TrackedBlob B) (found : s.oldList[i]? = some o) :
    Takes s b ({ s with oldList := s.oldList.eraseIdx i }, b.setId o.id)
  | lost (id : ℤ) (v : B × ℕ) (found : s.lostBlobMap.get? id = some v) :
    Takes s b ({ s with lostBlobMap := s.lostBlobMap.erase id }, b.setId id)

theorem updateId_takes (distanceTo : B → B → D) (far threshold : D) (s : BlobIdLists B) (b : TrackedBlob B) : Takes s b (updateId distanceTo far threshold s b) := by
  rw [updateId]
  split
  · split
    · next o found => exact .old _ o found
    · exact .keeps
  · split
    · split
      · next e found => exact .lost e.1 e.2 (s.lostBlobMap.mem_entries.mp (List.mem_of_getElem? found))
      · exact .keeps
    · exact .keeps

/-- The id is in the old list or in the map. -/
def Known (s : BlobIdLists B) (id : ℤ) : Prop := (∃ o ∈ s.oldList, o.id = id) ∨ ∃ v, s.lostBlobMap.get? id = some v

/-- No id is there twice. -/
structure Apart (s : BlobIdLists B) : Prop where
  nodup : (s.oldList.map TrackedBlob.id).Nodup
  other : ∀ o ∈ s.oldList, s.lostBlobMap.get? o.id = none

/-- The lists without some ids. -/
structure Without (s s' : BlobIdLists B) (ids : ℤ → Prop) : Prop where
  oldList : ∀ o, o ∈ s'.oldList ↔ o ∈ s.oldList ∧ ¬ ids o.id
  lostBlobMap : ∀ id v, s'.lostBlobMap.get? id = some v ↔ s.lostBlobMap.get? id = some v ∧ ¬ ids id
  nodup : (s'.oldList.map TrackedBlob.id).Nodup

theorem Without.apart {ids : ℤ → Prop} (without : Without s s' ids) (apart : Apart s) : Apart s' where
  nodup := without.nodup
  other := by
    intro o member
    obtain ⟨there, _⟩ := (without.oldList o).mp member
    refine Option.eq_none_iff_forall_ne_some.mpr fun v found => ?_
    have old := ((without.lostBlobMap o.id v).mp found).1
    rw [apart.other o there] at old
    contradiction

theorem Without.known {ids : ℤ → Prop} (without : Without s s' ids) : Known s' id ↔ Known s id ∧ ¬ ids id := by
  constructor
  · rintro (⟨o, member, rfl⟩ | ⟨v, found⟩)
    · obtain ⟨there, other⟩ := (without.oldList o).mp member
      exact ⟨.inl ⟨o, there, rfl⟩, other⟩
    · obtain ⟨there, other⟩ := (without.lostBlobMap id v).mp found
      exact ⟨.inr ⟨v, there⟩, other⟩
  · rintro ⟨⟨o, member, rfl⟩ | ⟨v, found⟩, other⟩
    · exact .inl ⟨o, (without.oldList o).mpr ⟨member, other⟩, rfl⟩
    · exact .inr ⟨v, (without.lostBlobMap id v).mpr ⟨found, other⟩⟩

/-- The entries of a list with different ids, without the one at an index. -/
theorem mem_eraseIdx {l : List (TrackedBlob B)} (nodup : (l.map TrackedBlob.id).Nodup) {i : ℕ} (found : l[i]? = some o) :
    b ∈ l.eraseIdx i ↔ b ∈ l ∧ b.id ≠ o.id := by
  rw [List.mem_eraseIdx_iff_getElem?]
  obtain ⟨less, here⟩ := List.getElem?_eq_some_iff.mp found
  constructor
  · rintro ⟨j, other, there⟩
    refine ⟨List.mem_of_getElem? there, fun same => other ?_⟩
    obtain ⟨less', here'⟩ := List.getElem?_eq_some_iff.mp there
    have inside : i < (l.map TrackedBlob.id).length := by rwa [List.length_map]
    have inside' : j < (l.map TrackedBlob.id).length := by rwa [List.length_map]
    have equal : (l.map TrackedBlob.id)[j] = (l.map TrackedBlob.id)[i] := by
      rw [List.getElem_map, List.getElem_map, here, here', same]
    exact nodup.getElem_inj_iff.mp equal
  · rintro ⟨member, other⟩
    obtain ⟨j, there⟩ := List.mem_iff_getElem?.mp member
    refine ⟨j, ?_, there⟩
    rintro rfl
    rw [there] at found
    exact other (by rw [Option.some_inj.mp found])

/-- A blob takes one id, and the lists are left without it. -/
theorem Takes.spec {r : BlobIdLists B × TrackedBlob B} (takes : Takes s b r) (apart : Apart s) (fresh : ¬ Known s b.id) :
    Without s r.1 (· = r.2.id) ∧ (r.2.id = b.id ∨ Known s r.2.id) ∧ r.2.blob = b.blob := by
  cases takes with
  | keeps =>
    refine ⟨⟨fun o => ?_, fun id v => ?_, apart.nodup⟩, .inl rfl, rfl⟩
    · exact ⟨fun member => ⟨member, fun same => fresh (.inl ⟨o, member, same⟩)⟩, And.left⟩
    · refine ⟨fun found => ⟨found, fun same => fresh (.inr ⟨v, ?_⟩)⟩, And.left⟩
      rw [← same]
      exact found
  | old i o found =>
    have member : o ∈ s.oldList := List.mem_of_getElem? found
    refine ⟨⟨fun c => ?_, fun id v => ?_, ?_⟩, .inr (.inl ⟨o, member, rfl⟩), rfl⟩
    · show c ∈ s.oldList.eraseIdx i ↔ c ∈ s.oldList ∧ ¬ c.id = o.id
      exact mem_eraseIdx apart.nodup found
    · refine ⟨fun there => ⟨there, ?_⟩, And.left⟩
      rintro rfl
      have none : s.lostBlobMap.get? o.id = none := apart.other o member
      change s.lostBlobMap.get? o.id = some v at there
      rw [there] at none
      contradiction
    · exact apart.nodup.sublist ((List.eraseIdx_sublist _ _).map _)
  | lost id v found =>
    refine ⟨⟨fun c => ?_, fun j w => ?_, apart.nodup⟩, .inr (.inr ⟨v, found⟩), rfl⟩
    · refine ⟨fun member => ⟨member, ?_⟩, And.left⟩
      intro same
      have none := apart.other c member
      change c.id = id at same
      rw [same, found] at none
      contradiction
    · rw [SortedMap.get?_erase]
      split
      · next same => exact ⟨nofun, fun both => absurd same both.2⟩
      · next other => exact ⟨fun there => ⟨there, other⟩, And.left⟩

/-! ### All blobs -/

/-- An id of a list. -/
def Ids (l : List (TrackedBlob B)) (id : ℤ) : Prop := ∃ b ∈ l, b.id = id

theorem matchIds_spec (distanceTo : B → B → D) (far threshold : D) (newList : List (TrackedBlob B)) (apart : Apart s) (fresh : ∀ b ∈ newList, ¬ Known s b.id)
    (nodup : (newList.map TrackedBlob.id).Nodup) :
    Without s (matchIds distanceTo far threshold s newList).1 (Ids (matchIds distanceTo far threshold s newList).2) ∧
    ((matchIds distanceTo far threshold s newList).2.map TrackedBlob.id).Nodup ∧
    (∀ id, Ids (matchIds distanceTo far threshold s newList).2 id → Ids newList id ∨ Known s id) := by
  induction newList generalizing s with
  | nil =>
    refine ⟨⟨fun o => ?_, fun id v => ?_, apart.nodup⟩, List.nodup_nil, ?_⟩
    · exact ⟨fun member => ⟨member, fun ⟨_, never, _⟩ => List.not_mem_nil never⟩, And.left⟩
    · exact ⟨fun found => ⟨found, fun ⟨_, never, _⟩ => List.not_mem_nil never⟩, And.left⟩
    · rintro id ⟨_, never, _⟩
      exact absurd never List.not_mem_nil
  | cons b rest ih =>
    obtain ⟨new, later⟩ := List.nodup_cons.mp nodup
    obtain ⟨without, source, _⟩ := (updateId_takes distanceTo far threshold s b).spec apart (fresh b List.mem_cons_self)
    have still : ∀ c ∈ rest, ¬ Known (updateId distanceTo far threshold s b).1 c.id := by
      intro c member known
      exact fresh c (List.mem_cons_of_mem _ member) (without.known.mp known).1
    obtain ⟨rests, distinct, sources⟩ := ih (without.apart apart) still later
    rw [matchIds]
    dsimp only
    have ids (id : ℤ) : Ids ((updateId distanceTo far threshold s b).2 ::
        (matchIds distanceTo far threshold (updateId distanceTo far threshold s b).1 rest).2) id ↔
        id = (updateId distanceTo far threshold s b).2.id ∨
        Ids (matchIds distanceTo far threshold (updateId distanceTo far threshold s b).1 rest).2 id := by
      constructor
      · rintro ⟨c, member, rfl⟩
        rcases List.mem_cons.mp member with rfl | member
        · exact .inl rfl
        · exact .inr ⟨c, member, rfl⟩
      · rintro (rfl | ⟨c, member, rfl⟩)
        · exact ⟨_, List.mem_cons_self, rfl⟩
        · exact ⟨c, List.mem_cons_of_mem _ member, rfl⟩
    refine ⟨⟨fun o => ?_, fun id v => ?_, rests.nodup⟩, ?_, fun id found => ?_⟩
    · rw [rests.oldList, without.oldList, ids, not_or, and_assoc]
    · rw [rests.lostBlobMap, without.lostBlobMap, ids, not_or, and_assoc]
    · rw [List.map_cons]
      refine List.nodup_cons.mpr ⟨fun member => ?_, distinct⟩
      obtain ⟨c, inside, same⟩ := List.mem_map.mp member
      -- The id of the first blob was its own or one of the lists, and is in neither place any more.
      rcases sources c.id ⟨c, inside, rfl⟩ with ⟨e, early, same'⟩ | known
      · rcases source with own | taken
        · exact new (List.mem_map.mpr ⟨e, early, by rw [same', same, own]⟩)
        · refine fresh e (List.mem_cons_of_mem _ early) ?_
          rw [same', same]
          exact taken
      · exact (without.known.mp known).2 same
    · rcases (ids id).mp found with rfl | inside
      · exact source.imp (fun own => ⟨b, List.mem_cons_self, own.symm⟩) fun known => known
      · rcases sources id inside with ⟨e, early, same⟩ | known
        · exact .inl ⟨e, List.mem_cons_of_mem _ early, same⟩
        · exact .inr (without.known.mp known).1

end

/-! ### The blobs that are lost -/

section
variable {B : Type} {s : BlobIdLists B} {b o : TrackedBlob B} {id : ℤ} {n c k : ℕ} {x : B} {v : B × ℕ} {m : SortedMap ℤ (B × ℕ)}

/-- The blobs that are left over begin to wait. -/
theorem foldl_insertLost (l : List (TrackedBlob B)) (nodup : (l.map TrackedBlob.id).Nodup) (other : ∀ o ∈ l, m.get? o.id = none) :
    (l.foldl (fun m b => insertLost m b n) m).get? id = some v ↔ (∃ o ∈ l, o.id = id ∧ v = (o.blob, n)) ∨ m.get? id = some v := by
  induction l generalizing m with
  | nil => exact ⟨.inr, fun way => way.resolve_left fun ⟨_, never, _⟩ => List.not_mem_nil never⟩
  | cons o rest ih =>
    obtain ⟨new, later⟩ := List.nodup_cons.mp nodup
    have free := other o List.mem_cons_self
    have one : insertLost m o n = m.set o.id (o.blob, n) := by
      rw [insertLost, free]
      rfl
    have apart : ∀ p ∈ rest, (m.set o.id (o.blob, n)).get? p.id = none := by
      intro p member
      rw [SortedMap.get?_set_ne]
      · exact other p (List.mem_cons_of_mem _ member)
      · intro same
        exact new (List.mem_map.mpr ⟨p, member, same⟩)
    rw [List.foldl_cons, one, ih later apart, SortedMap.get?_set]
    constructor
    · rintro (⟨p, member, rest⟩ | found)
      · exact .inl ⟨p, List.mem_cons_of_mem _ member, rest⟩
      · split at found
        · next same => exact .inl ⟨o, List.mem_cons_self, same.symm, (Option.some_inj.mp found).symm⟩
        · exact .inr found
    · rintro (⟨p, member, same, value⟩ | found)
      · rcases List.mem_cons.mp member with rfl | member
        · rw [if_pos same.symm, value]
          exact .inr rfl
        · exact .inl ⟨p, member, same, value⟩
      · refine .inr ?_
        rw [if_neg]
        · exact found
        · rintro rfl
          rw [free] at found
          contradiction

theorem foldl_erase (l : List (TrackedBlob B)) :
    (l.foldl (fun m b => m.erase b.id) m).get? id = some v ↔ m.get? id = some v ∧ ∀ b ∈ l, b.id ≠ id := by
  induction l generalizing m with
  | nil => exact ⟨fun found => ⟨found, fun _ never => absurd never List.not_mem_nil⟩, And.left⟩
  | cons b rest ih =>
    rw [List.foldl_cons, ih, SortedMap.get?_erase, List.forall_mem_cons]
    split
    · next same => exact ⟨fun both => absurd both.1 nofun, fun both => absurd same.symm both.2.1⟩
    · next other => exact ⟨fun both => ⟨both.1, Ne.symm other, both.2⟩, fun both => ⟨both.1, both.2.2⟩⟩

/-- What a wait of more than no frames does. -/
structure Counted (n : ℕ) (s s' : BlobIdLists B) : Prop where
  gone : ∀ o, o ∈ s'.oldList ↔ s.lostBlobMap.get? o.id = some (o.blob, 0)
  waits : ∀ id x c, s'.lostBlobMap.get? id = some (x, c) ↔
    (∃ o ∈ s.oldList, o.id = id ∧ o.blob = x ∧ c + 1 = n) ∨ s.lostBlobMap.get? id = some (x, c + 1)
  nodup : (s'.oldList.map TrackedBlob.id).Nodup

theorem countDown_spec (apart : Apart s) (positive : 0 < n) : Counted n s (countDown n s) := by
  have inserted (id : ℤ) (v : B × ℕ) : (s.oldList.foldl (fun m b => insertLost m b n) s.lostBlobMap).get? id = some v ↔
      (∃ o ∈ s.oldList, o.id = id ∧ v = (o.blob, n)) ∨ s.lostBlobMap.get? id = some v :=
    foldl_insertLost s.oldList apart.nodup apart.other
  have gone (o : TrackedBlob B) : o ∈ (countDown n s).oldList ↔
      (s.oldList.foldl (fun m b => insertLost m b n) s.lostBlobMap).get? o.id = some (o.blob, 0) := by
    rw [countDown, if_pos positive]
    dsimp only
    rw [List.mem_map, ← SortedMap.mem_entries]
    constructor
    · rintro ⟨e, member, rfl⟩
      obtain ⟨there, zero⟩ := List.mem_filter.mp member
      have none : e.2.2 = 0 := of_decide_eq_true zero
      rw [← none]
      exact there
    · intro member
      exact ⟨(o.id, o.blob, 0), List.mem_filter.mpr ⟨member, decide_eq_true rfl⟩, rfl⟩
  refine ⟨fun o => ?_, fun id x c => ?_, ?_⟩
  · rw [gone, inserted]
    refine ⟨fun way => way.resolve_left ?_, .inr⟩
    rintro ⟨_, _, _, value⟩
    have zero : 0 = n := congrArg Prod.snd value
    omega
  · have lookup : (countDown n s).lostBlobMap.get? id = some (x, c) ↔
        (s.oldList.foldl (fun m b => insertLost m b n) s.lostBlobMap).get? id = some (x, c + 1) := by
      have list := gone
      rw [countDown, if_pos positive] at list ⊢
      dsimp only at list ⊢
      rw [foldl_erase, SortedMap.get?_mapValues, Option.map_eq_some_iff]
      constructor
      · rintro ⟨⟨⟨y, d⟩, found, value⟩, kept⟩
        rcases Nat.eq_zero_or_pos d with rfl | some
        · exact absurd rfl (kept ⟨y, id⟩ ((list _).mpr found))
        · rw [if_neg (Nat.ne_of_gt some)] at value
          obtain ⟨rfl, rfl⟩ := Prod.mk.inj value
          rw [found, Nat.sub_add_cancel some]
      · intro found
        refine ⟨⟨_, found, rfl⟩, fun b member same => ?_⟩
        have zero := (list b).mp member
        rw [same, found] at zero
        exact absurd (congrArg Prod.snd (Option.some_inj.mp zero)) (Nat.succ_ne_zero c)
    rw [lookup, inserted]
    refine or_congr_left (exists_congr fun o => and_congr_right fun _ => and_congr_right fun _ => ?_)
    rw [Prod.mk.injEq]
    exact and_congr_left fun _ => eq_comm
  · rw [countDown, if_pos positive]
    dsimp only
    rw [List.map_map]
    exact (SortedMap.keys_nodup _).sublist (List.filter_sublist.map _)

end

/-! ### The age of an id -/

section
variable {B D : Type} [LT D] [LE D] [DecidableLT D] [DecidableLE D] {distanceTo : B → B → D} {far threshold : D}
  {s s' : BlobIdLists B} {newList : List (TrackedBlob B)} {id : ℤ} {n k : ℕ}

/-- The id has not been given to a blob in the last `k` updates. `n` is how long the map keeps an id. -/
def Age (n : ℕ) (s : BlobIdLists B) (id : ℤ) (k : ℕ) : Prop :=
  k = 0 ∧ Ids s.oldList id ∨ 0 < k ∧ ∃ x c, s.lostBlobMap.get? id = some (x, c) ∧ c + k = n

/-- No id is there twice, and none has waited too long. -/
structure Orderly (n : ℕ) (s : BlobIdLists B) : Prop extends Apart s where
  waits : ∀ id x c, s.lostBlobMap.get? id = some (x, c) → c < n

theorem age_zero : Age n s id 0 ↔ Ids s.oldList id :=
  ⟨fun way => way.elim And.right fun never => absurd never.1 (Nat.lt_irrefl 0), fun there => .inl ⟨rfl, there⟩⟩

theorem age_succ : Age n s id (k + 1) ↔ ∃ x c, s.lostBlobMap.get? id = some (x, c) ∧ c + (k + 1) = n :=
  ⟨fun way => way.elim (fun never => absurd never.1 (Nat.succ_ne_zero k)) And.right, fun there => .inr ⟨Nat.succ_pos k, there⟩⟩

theorem Orderly.known_iff (orderly : Orderly n s) : Known s id ↔ ∃ k, Age n s id k := by
  constructor
  · rintro (there | ⟨⟨x, c⟩, found⟩)
    · exact ⟨0, age_zero.mpr there⟩
    · have less := orderly.waits id x c found
      exact ⟨n - c, .inr ⟨by omega, x, c, found, by omega⟩⟩
  · rintro ⟨_, ⟨_, there⟩ | ⟨_, x, c, found, _⟩⟩
    · exact .inl there
    · exact .inr ⟨_, found⟩

theorem Age.le (age : Age n s id k) : k ≤ n := by
  rcases age with ⟨rfl, _⟩ | ⟨_, x, c, _, sum⟩
  · exact Nat.zero_le n
  · omega

theorem Without.age {ids : ℤ → Prop} (without : Without s s' ids) : Age n s' id k ↔ Age n s id k ∧ ¬ ids id := by
  constructor
  · rintro (⟨zero, o, member, rfl⟩ | ⟨positive, x, c, found, sum⟩)
    · obtain ⟨there, other⟩ := (without.oldList o).mp member
      exact ⟨.inl ⟨zero, o, there, rfl⟩, other⟩
    · obtain ⟨there, other⟩ := (without.lostBlobMap id _).mp found
      exact ⟨.inr ⟨positive, x, c, there, sum⟩, other⟩
  · rintro ⟨⟨zero, o, member, rfl⟩ | ⟨positive, x, c, found, sum⟩, other⟩
    · exact .inl ⟨zero, o, (without.oldList o).mpr ⟨member, other⟩, rfl⟩
    · exact .inr ⟨positive, x, c, (without.lostBlobMap id _).mpr ⟨found, other⟩, sum⟩

/-- What comes back from `updateIds` are the ids that have waited long enough, and all others grow older. -/
structure Updated (n : ℕ) (s : BlobIdLists B) (newList : List (TrackedBlob B)) (r : BlobIdLists B × List (TrackedBlob B)) : Prop where
  gone : ∀ id, Ids r.1.oldList id ↔ Age n s id n ∧ ¬ Ids r.2 id
  older : ∀ id k, Age n ⟨r.2, r.1.lostBlobMap⟩ id (k + 1) ↔ k < n ∧ Age n s id k ∧ ¬ Ids r.2 id
  orderly : Orderly n ⟨r.2, r.1.lostBlobMap⟩
  nodup : (r.1.oldList.map TrackedBlob.id).Nodup
  source : ∀ id, Ids r.2 id → Ids newList id ∨ Known s id

theorem updateIds_spec (distanceTo : B → B → D) (far threshold : D) (newList : List (TrackedBlob B)) (orderly : Orderly n s) (fresh : ∀ b ∈ newList, ¬ Known s b.id)
    (nodup : (newList.map TrackedBlob.id).Nodup) : Updated n s newList (updateIds distanceTo far threshold n s newList) := by
  obtain ⟨without, distinct, source⟩ := matchIds_spec distanceTo far threshold newList orderly.toApart fresh nodup
  rw [updateIds]
  generalize matchIds distanceTo far threshold s newList = r at without distinct source
  have waits (id : ℤ) (x : B) (c : ℕ) (found : r.1.lostBlobMap.get? id = some (x, c)) : c < n :=
    orderly.waits id x c ((without.lostBlobMap id _).mp found).1
  have apart := without.apart orderly.toApart
  have new (id : ℤ) (there : Ids r.2 id) (v : B × ℕ) : r.1.lostBlobMap.get? id ≠ some v := fun found =>
    ((without.lostBlobMap id v).mp found).2 there
  rcases Nat.eq_zero_or_pos n with rfl | positive
  · -- Nothing waits, and all that is left is given up at once.
    have none (id : ℤ) (v : B × ℕ) : r.1.lostBlobMap.get? id ≠ some v := fun found => Nat.not_lt_zero _ (waits id v.1 v.2 found)
    have same : countDown 0 r.1 = r.1 := rfl
    rw [same]
    refine ⟨fun id => ?_, fun id k => ?_, ⟨⟨distinct, fun o _ => ?_⟩, waits⟩, without.nodup, source⟩
    · rw [← without.age, age_zero]
    · rw [age_succ]
      constructor
      · rintro ⟨x, c, found, _⟩
        exact absurd found (none id _)
      · rintro ⟨never, _⟩
        exact absurd never (Nat.not_lt_zero k)
    · exact Option.eq_none_iff_forall_ne_some.mpr (none o.id)
  · have counted := countDown_spec apart positive
    refine ⟨fun id => ?_, fun id k => ?_, ⟨⟨distinct, fun o member => ?_⟩, fun id x c found => ?_⟩, counted.nodup, source⟩
    · rw [← without.age]
      constructor
      · rintro ⟨o, member, rfl⟩
        exact .inr ⟨positive, o.blob, 0, (counted.gone o).mp member, Nat.zero_add n⟩
      · rintro (⟨zero, _⟩ | ⟨_, x, c, found, sum⟩)
        · exact absurd zero (Nat.ne_of_gt positive)
        · obtain rfl : c = 0 := by omega
          exact ⟨⟨x, id⟩, (counted.gone ⟨x, id⟩).mpr found, rfl⟩
    · rw [← without.age, age_succ]
      constructor
      · rintro ⟨x, c, found, sum⟩
        rcases (counted.waits id x c).mp found with ⟨o, member, same, rfl, last⟩ | before
        · obtain rfl : k = 0 := by omega
          exact ⟨positive, age_zero.mpr ⟨o, member, same⟩⟩
        · have less := waits id x (c + 1) before
          exact ⟨by omega, .inr ⟨by omega, x, c + 1, before, by omega⟩⟩
      · rintro ⟨less, ⟨rfl, o, member, rfl⟩ | ⟨some, x, c, found, sum⟩⟩
        · exact ⟨o.blob, n - 1, (counted.waits _ _ _).mpr (.inl ⟨o, member, rfl, rfl, by omega⟩), by omega⟩
        · obtain ⟨d, rfl⟩ : ∃ d, c = d + 1 := ⟨c - 1, by omega⟩
          exact ⟨x, d, (counted.waits _ _ _).mpr (.inr found), by omega⟩
    · refine Option.eq_none_iff_forall_ne_some.mpr fun v found => ?_
      rcases (counted.waits o.id v.1 v.2).mp found with ⟨p, left, same, _⟩ | before
      · exact ((without.oldList p).mp left).2 ⟨o, member, same.symm⟩
      · exact new o.id ⟨o, member, rfl⟩ _ before
    · rcases (counted.waits id x c).mp found with ⟨_, _, _, _, last⟩ | before
      · omega
      · exact Nat.lt_of_succ_lt (waits id x (c + 1) before)

end

/-! ### Without waiting -/

section
variable {B D E : Type} [Preorder D] [DecidableLT D] [DecidableLE D] (distanceTo : B → B → D) (far threshold : D)

omit [DecidableLE D] in
theorem closest_le (distance : E → D) (es : List E) (i : ℕ) (best : D × ℕ) : (closest distance es i best).1 ≤ best.1 := by
  induction es generalizing i best with
  | nil => exact le_refl best.1
  | cons e rest ih =>
    rw [closest]
    split
    · next less => exact le_trans (ih _ _) (le_of_lt less)
    · exact ih _ _

/-- With no frames to wait and an empty map, `updateIds` does what it does without a map. -/
theorem updateIds_zero (oldList newList : List (TrackedBlob B)) :
    updateIds distanceTo far threshold 0 ⟨oldList, .empty⟩ newList =
      (⟨(updateIdsPlain distanceTo far threshold oldList newList).1, .empty⟩,
        (updateIdsPlain distanceTo far threshold oldList newList).2) := by
  show matchIds distanceTo far threshold ⟨oldList, .empty⟩ newList = _
  induction newList generalizing oldList with
  | nil => rfl
  | cons b rest ih =>
    have none : search far (fun e : ℤ × B × ℕ => distanceTo e.2.1 b.blob) (SortedMap.empty (K := ℤ) (V := B × ℕ)).entries = (far, 0) := rfl
    have near := closest_le (fun o : TrackedBlob B => distanceTo o.blob b.blob) oldList 0 (far, 0)
    have one : updateId distanceTo far threshold ⟨oldList, .empty⟩ b =
        (⟨(updateIdPlain distanceTo far threshold oldList b).1, .empty⟩, (updateIdPlain distanceTo far threshold oldList b).2) := by
      rw [updateId, updateIdPlain]
      simp only [none]
      by_cases close : (search far (fun o : TrackedBlob B => distanceTo o.blob b.blob) oldList).1 < threshold
      · rw [if_pos ⟨close, near⟩, if_pos close]
        split <;> rfl
      · rw [if_neg fun both => close both.1, if_neg close, if_neg]
        · rintro ⟨limit, less⟩
          exact absurd near (not_le_of_gt less)
    rw [matchIds, updateIdsPlain, one]
    dsimp only
    rw [ih]

end

end Tortuga.BlobIds
