import Tortuga.Absences
import Tortuga.BlobIds
import Tortuga.Bins

/-!
What is said about bins over a whole sequence of images (`BinDetector.cpp`): an id is found, is
given up once when it has been missing for long enough, and does not come back, as long as the
counter of the ids has not come round.
-/
namespace Tortuga.BinRuns
open Tortuga.SortedMaps Tortuga.TrackedBlobs Tortuga.BlobIds Tortuga.Absences Tortuga.Bins

/-! ### The ids of events -/

section
variable {B A : Type}

/-- The ids of the bins that are reported found, in order. -/
def foundIds : List (Event B A) → List ℤ
  | [] => []
  | .found bin :: rest => bin.id :: foundIds rest
  | _ :: rest => foundIds rest

/-- The ids of the bins that are reported dropped, in order. -/
def droppedIds : List (Event B A) → List ℤ
  | [] => []
  | .dropped bin :: rest => bin.id :: droppedIds rest
  | _ :: rest => droppedIds rest

variable (l m : List (Event B A)) (bins : List (TrackedBlob B))

theorem foundIds_append : foundIds (l ++ m) = foundIds l ++ foundIds m := by
  induction l with
  | nil => rfl
  | cons e rest ih => cases e <;> simp [foundIds, ih]

theorem droppedIds_append : droppedIds (l ++ m) = droppedIds l ++ droppedIds m := by
  induction l with
  | nil => rfl
  | cons e rest ih => cases e <;> simp [droppedIds, ih]

theorem foundIds_found : foundIds (bins.map (Event.found (A := A))) = bins.map TrackedBlob.id := by
  induction bins with
  | nil => rfl
  | cons b rest ih => simp [foundIds, ih]

theorem droppedIds_dropped : droppedIds (bins.map (Event.dropped (A := A))) = bins.map TrackedBlob.id := by
  induction bins with
  | nil => rfl
  | cons b rest ih => simp [droppedIds, ih]

/-- Events of other kinds have no such ids. -/
theorem foundIds_none {l : List (Event B A)} (none : ∀ e ∈ l, ∀ b, e ≠ .found b) : foundIds l = [] := by
  induction l with
  | nil => rfl
  | cons e rest ih =>
    have later := ih fun c member => none c (List.mem_cons_of_mem _ member)
    cases e with
    | found b => exact absurd rfl (none _ List.mem_cons_self b)
    | dropped _ => exact later
    | multiBinAngle _ => exact later
    | centered _ => exact later
    | lost => exact later

theorem droppedIds_none {l : List (Event B A)} (none : ∀ e ∈ l, ∀ b, e ≠ .dropped b) : droppedIds l = [] := by
  induction l with
  | nil => rfl
  | cons e rest ih =>
    have later := ih fun c member => none c (List.mem_cons_of_mem _ member)
    cases e with
    | dropped b => exact absurd rfl (none _ List.mem_cons_self b)
    | found _ => exact later
    | multiBinAngle _ => exact later
    | centered _ => exact later
    | lost => exact later

end

/-! ### One image -/

section
variable {B D A : Type} [LT D] [LE D] [DecidableLT D] [DecidableLE D] (settings : Settings B D A)

/-- The lists of a detector, as `updateIds` has them. -/
def lists (d : BinDetector B) : BlobIdLists B := ⟨d.bins, d.lostBins⟩

/-- What one image does to the ids, and says of them. -/
structure Seen (d : BinDetector B) (newList : List (TrackedBlob B)) (r : BinDetector B × List (Event B A)) : Prop where
  announced : foundIds r.2 = r.1.bins.map TrackedBlob.id
  gone : ∀ id, id ∈ droppedIds r.2 ↔ Age settings.binLostFrames (lists d) id settings.binLostFrames ∧ id ∉ foundIds r.2
  older : ∀ id k, Age settings.binLostFrames (lists r.1) id (k + 1) ↔
    k < settings.binLostFrames ∧ Age settings.binLostFrames (lists d) id k ∧ id ∉ foundIds r.2
  orderly : Orderly settings.binLostFrames (lists r.1)
  once : (droppedIds r.2).Nodup
  source : ∀ id ∈ foundIds r.2, Ids newList id ∨ Known (lists d) id
  idle : r.1.found = false → r.1.bins = [] ∧ r.1.lostBins.entries = []
  lost : .lost ∈ r.2 → r.1.bins = [] ∧ r.1.lostBins.entries = []

variable {settings} {d : BinDetector B} {frame : List B} {l m : List (TrackedBlob B)} {lost : SortedMap ℤ (B × ℕ)} {id : ℤ} {n k : ℕ}

theorem mem_ids : id ∈ l.map TrackedBlob.id ↔ Ids l id := List.mem_map

theorem ids_perm (perm : l.Perm m) : Ids l id ↔ Ids m id :=
  exists_congr fun _ => and_congr_left fun _ => perm.mem_iff

theorem age_perm (perm : l.Perm m) : Age n ⟨l, lost⟩ id k ↔ Age n ⟨m, lost⟩ id k :=
  or_congr_left (and_congr_right fun _ => ids_perm perm)

theorem orderly_perm (perm : l.Perm m) (orderly : Orderly n ⟨m, lost⟩) : Orderly n ⟨l, lost⟩ where
  nodup := (perm.map _).nodup_iff.mpr orderly.nodup
  other := fun o member => orderly.other o (perm.mem_iff.mp member)
  waits := orderly.waits

/-- The events of an image are those of the dropped bins, some others, and those of the bins. -/
theorem event_ids (dropped found : List (TrackedBlob B)) (others : List (Event B A)) (none : ∀ e ∈ others, ∀ b, e ≠ .found b ∧ e ≠ .dropped b) :
    foundIds (dropped.map .dropped ++ others ++ found.map .found) = found.map TrackedBlob.id ∧
    droppedIds (dropped.map .dropped ++ others ++ found.map .found) = dropped.map TrackedBlob.id := by
  have first : ∀ e ∈ dropped.map (Event.dropped (A := A)), ∀ b, e ≠ .found b := by
    intro e member b same
    obtain ⟨c, _, rfl⟩ := List.mem_map.mp member
    contradiction
  have last : ∀ e ∈ found.map (Event.found (A := A)), ∀ b, e ≠ .dropped b := by
    intro e member b same
    obtain ⟨c, _, rfl⟩ := List.mem_map.mp member
    contradiction
  rw [foundIds_append, foundIds_append, droppedIds_append, droppedIds_append, foundIds_none first, droppedIds_none last,
    foundIds_none fun e member b => (none e member b).1, droppedIds_none fun e member b => (none e member b).2,
    foundIds_found, droppedIds_dropped, List.append_nil, List.append_nil, List.append_nil]
  exact ⟨rfl, rfl⟩

omit [LT D] [LE D] [DecidableLT D] [DecidableLE D] in
/-- What is published after `updateIds`, where the new list is sorted first. -/
theorem Updated.seen {newList bins : List (TrackedBlob B)} {r : BlobIdLists B × List (TrackedBlob B)} {d' : BinDetector B}
    {events : List (Event B A)} (others : List (Event B A)) (updated : Updated settings.binLostFrames (lists d) newList r) (perm : bins.Perm r.2)
    (same : lists d' = ⟨bins, r.1.lostBlobMap⟩) (list : events = r.1.oldList.map .dropped ++ others ++ bins.map .found)
    (none : ∀ e ∈ others, ∀ b, e ≠ .found b ∧ e ≠ .dropped b) (idle : d'.found = false → d'.bins = [] ∧ d'.lostBins.entries = [])
    (lost : .lost ∈ others → d'.bins = [] ∧ d'.lostBins.entries = []) : Seen settings d newList (d', events) := by
  obtain ⟨found, dropped⟩ := event_ids r.1.oldList bins others none
  rw [← list] at found dropped
  have there (id : ℤ) : id ∈ foundIds events ↔ Ids r.2 id := by rw [found, mem_ids, ids_perm perm]
  refine ⟨?_, fun id => ?_, fun id k => ?_, ?_, ?_, fun id member => ?_, idle, fun member => lost ?_⟩
  · rw [found]
    exact congrArg (fun s : BlobIdLists B => s.oldList.map TrackedBlob.id) same.symm
  · rw [there, dropped, mem_ids, updated.gone]
  · rw [there, same, age_perm perm, updated.older]
  · rw [same]
    exact orderly_perm perm updated.orderly
  · rw [dropped]
    exact updated.nodup
  · exact updated.source id ((there id).mp member)
  · rw [list, List.mem_append, List.mem_append, List.mem_map, List.mem_map] at member
    rcases member with (⟨_, _, never⟩ | among) | ⟨_, _, never⟩
    · contradiction
    · exact among
    · contradiction

theorem processImage_seen (settings : Settings B D A) (orderly : Orderly settings.binLostFrames (lists d))
    (idle : d.found = false → d.bins = [] ∧ d.lostBins.entries = [])
    (fresh : ∀ b ∈ (processBins frame d.binID).1, ¬ Known (lists d) b.id)
    (nodup : ((processBins frame d.binID).1.map TrackedBlob.id).Nodup) :
    Seen settings d (processBins frame d.binID).1 (processImage settings d frame) := by
  have updated := updateIds_spec settings.distanceTo settings.far settings.binSameThreshold _ orderly fresh nodup
  rw [processImage]
  by_cases some : 0 < frame.length
  · rw [if_pos some]
    refine Updated.seen _ updated (List.mergeSort_perm _ _) rfl (congrArg (· ++ _) (List.append_assoc _ _ _)) ?_ nofun ?_
    · intro e member b
      rcases List.mem_append.mp member with angle | centered
      · obtain ⟨a, _, rfl⟩ := List.mem_map.mp angle
        exact ⟨nofun, nofun⟩
      · split at centered
        · obtain ⟨c, _, rfl⟩ := List.mem_map.mp centered
          exact ⟨nofun, nofun⟩
        · exact absurd centered List.not_mem_nil
    · intro member
      rcases List.mem_append.mp member with angle | centered
      · obtain ⟨a, _, never⟩ := List.mem_map.mp angle
        contradiction
      · split at centered
        · obtain ⟨c, _, never⟩ := List.mem_map.mp centered
          contradiction
        · exact absurd centered List.not_mem_nil
  · obtain rfl : frame = [] := List.length_eq_zero_iff.mp (Nat.eq_zero_of_not_pos some)
    rw [if_neg some]
    by_cases found : d.found
    · rw [if_pos found]
      dsimp only
      split
      · next empty =>
        refine Updated.seen [.lost] updated (List.Perm.refl _) rfl (List.append_nil _).symm ?_ ?_ ?_
        · intro e member b
          rw [List.mem_singleton.mp member]
          exact ⟨nofun, nofun⟩
        · exact fun _ => ⟨rfl, List.length_eq_zero_iff.mp empty⟩
        · exact fun _ => ⟨rfl, List.length_eq_zero_iff.mp empty⟩
      · next waiting =>
        refine Updated.seen [] updated (List.Perm.refl _) rfl ?_ nofun ?_ nofun
        · exact ((List.append_nil _).trans (List.append_nil _)).symm
        · intro never
          rw [found] at never
          contradiction
    · rw [if_neg found]
      obtain ⟨bins, waiting⟩ := idle (Bool.eq_false_of_not_eq_true found)
      have none (id : ℤ) (k : ℕ) : ¬ Age settings.binLostFrames (lists d) id k := by
        rintro (⟨_, b, member, _⟩ | ⟨_, x, c, there, _⟩)
        · rw [lists, bins] at member
          exact absurd member List.not_mem_nil
        · have entry := d.lostBins.mem_entries.mpr there
          rw [waiting] at entry
          exact absurd entry List.not_mem_nil
      refine ⟨?_, fun id => ?_, fun id k => ?_, orderly, List.nodup_nil, nofun, idle, nofun⟩
      · rw [bins]
        rfl
      · exact ⟨nofun, fun both => absurd both.1 (none id _)⟩
      · exact ⟨fun age => absurd age (none id _), fun both => absurd both.2.1 (none id k)⟩

end

/-! ### The counter -/

section
variable {B : Type} {k l : ℕ}

/-- What the counter of the ids shows after a number of candidates. -/
def shown (k : ℕ) : ℤ := BlobDetector.int32 k

theorem shown_succ (k : ℕ) : BlobDetector.int32 (shown k + 1) = shown (k + 1) := by
  rw [shown, shown, BlobDetector.int32, BlobDetector.int32, BlobDetector.int32, Int.bmod_add_bmod, Int.natCast_succ]

/-- The ids are different until the counter has come round. -/
theorem shown_injective (first : k < 4294967296) (second : l < 4294967296) (same : shown k = shown l) : k = l := by
  rw [shown, shown, BlobDetector.int32, BlobDetector.int32] at same
  have left : (k : ℤ) % 4294967296 = Int.bmod k 4294967296 % 4294967296 := Int.bmod_emod.symm
  have right : (l : ℤ) % 4294967296 = Int.bmod l 4294967296 % 4294967296 := Int.bmod_emod.symm
  rw [same, ← right] at left
  omega

theorem processBins_ids (frame : List B) (k : ℕ) :
    (processBins frame (shown k)).1.map TrackedBlob.id = (List.range frame.length).map (fun i => shown (k + i)) ∧
    (processBins frame (shown k)).2 = shown (k + frame.length) := by
  induction frame generalizing k with
  | nil => simp [processBins]
  | cons blob rest ih =>
    obtain ⟨ids, last⟩ := ih (k + 1)
    have later : (fun i => shown (k + 1 + i)) = (fun i => shown (k + i)) ∘ Nat.succ := by
      funext i
      rw [Function.comp_apply, Nat.succ_add_eq_add_succ]
    rw [processBins, shown_succ]
    constructor
    · rw [List.length_cons, List.range_succ_eq_map, List.map_cons, List.map_cons, List.map_map, ids, later, Nat.add_zero]
    · rw [last, List.length_cons, Nat.add_assoc, Nat.add_comm 1]

end

/-! ### All images -/

section
variable {B D A : Type} [LT D] [LE D] [DecidableLT D] [DecidableLE D] (settings : Settings B D A) (frames : ℕ → List B)

/-- The number of candidates in the first `n` images. -/
def candidates : ℕ → ℕ
  | 0 => 0
  | n + 1 => candidates n + (frames n).length

/-- The id is reported found in image `n`. -/
def Found (n : ℕ) (id : ℤ) : Prop := id ∈ foundIds (published settings frames n)

def Dropped (n : ℕ) (id : ℤ) : Prop := id ∈ droppedIds (published settings frames n)

/-- What is known of the detector before image `n`. -/
structure Reached (n : ℕ) : Prop where
  orderly : Orderly settings.binLostFrames (lists (detectorAt settings frames n))
  idle : (detectorAt settings frames n).found = false →
    (detectorAt settings frames n).bins = [] ∧ (detectorAt settings frames n).lostBins.entries = []
  binID : (detectorAt settings frames n).binID = shown (candidates frames n)
  ages : ∀ id k, Age settings.binLostFrames (lists (detectorAt settings frames n)) id k ↔
    k ≤ settings.binLostFrames ∧ Absent (Found settings frames) n id k
  issued : ∀ j < n, ∀ id, Found settings frames j id → ∃ m < candidates frames n, shown m = id

variable {settings frames} {n m k : ℕ} {id : ℤ}

theorem candidates_mono (less : n ≤ m) : candidates frames n ≤ candidates frames m := by
  induction less with
  | refl => exact Nat.le_refl _
  | step _ ih => exact Nat.le_trans ih (Nat.le_add_right _ _)

theorem Reached.known (reached : Reached settings frames n) (known : Known (lists (detectorAt settings frames n)) id) :
    ∃ m < candidates frames n, shown m = id := by
  obtain ⟨k, age⟩ := reached.orderly.known_iff.mp known
  obtain ⟨_, j, sum, found, _⟩ := (reached.ages id k).mp age
  exact reached.issued j (by omega) id found

/-- The ids of the new bins have not been given before. -/
theorem Reached.fresh (reached : Reached settings frames n) (few : candidates frames (n + 1) ≤ 4294967296)
    (new : Ids (processBins (frames n) (detectorAt settings frames n).binID).1 id) :
    ∃ m, candidates frames n ≤ m ∧ m < candidates frames (n + 1) ∧ shown m = id ∧
      ¬ ∃ m < candidates frames n, shown m = id := by
  rw [reached.binID] at new
  have member := mem_ids.mpr new
  rw [(processBins_ids _ _).1, List.mem_map] at member
  obtain ⟨i, inside, rfl⟩ := member
  have less := List.mem_range.mp inside
  have total : candidates frames (n + 1) = candidates frames n + (frames n).length := rfl
  refine ⟨_, Nat.le_add_right _ i, by omega, rfl, ?_⟩
  rintro ⟨m, before, same⟩
  have equal := shown_injective (by omega) (by omega) same
  omega

theorem Reached.seen (reached : Reached settings frames n) (few : candidates frames (n + 1) ≤ 4294967296) :
    Seen settings (detectorAt settings frames n) (processBins (frames n) (detectorAt settings frames n).binID).1
      (processImage settings (detectorAt settings frames n) (frames n)) := by
  refine processImage_seen settings reached.orderly reached.idle ?_ ?_
  · intro b member known
    obtain ⟨_, _, _, _, never⟩ := reached.fresh few ⟨b, member, rfl⟩
    exact never (reached.known known)
  · have total : candidates frames (n + 1) = candidates frames n + (frames n).length := rfl
    rw [reached.binID, (processBins_ids _ _).1]
    refine List.Nodup.map_on ?_ List.nodup_range
    intro i first j second same
    have less := List.mem_range.mp first
    have less' := List.mem_range.mp second
    have equal := shown_injective (by omega) (by omega) same
    omega

theorem processImage_binID (settings : Settings B D A) (d : BinDetector B) (frame : List B) :
    (processImage settings d frame).1.binID = (processBins frame d.binID).2 := by
  rw [processImage]
  by_cases some : 0 < frame.length
  · rw [if_pos some]
  · obtain rfl : frame = [] := List.length_eq_zero_iff.mp (Nat.eq_zero_of_not_pos some)
    rw [if_neg some]
    dsimp only
    split
    · split <;> rfl
    · rfl

theorem Reached.succ (reached : Reached settings frames n) (few : candidates frames (n + 1) ≤ 4294967296) :
    Reached settings frames (n + 1) := by
  have seen := reached.seen few
  refine ⟨seen.orderly, seen.idle, ?_, fun id k => ?_, fun j less id found => ?_⟩
  · rw [detectorAt, processImage_binID, reached.binID, (processBins_ids _ _).2]
    rfl
  · cases k with
    | zero =>
      rw [age_zero, absent_zero, Found, published, seen.announced, mem_ids]
      exact ⟨fun there => ⟨Nat.zero_le _, there⟩, And.right⟩
    | succ k =>
      rw [absent_succ, detectorAt, seen.older, reached.ages]
      constructor
      · rintro ⟨less, ⟨_, absent⟩, missing⟩
        exact ⟨less, absent, missing⟩
      · rintro ⟨less, absent, missing⟩
        exact ⟨less, ⟨Nat.le_of_lt less, absent⟩, missing⟩
  · rcases Nat.lt_succ_iff_lt_or_eq.mp less with before | rfl
    · obtain ⟨m, small, same⟩ := reached.issued j before id found
      exact ⟨m, Nat.lt_of_lt_of_le small (candidates_mono (Nat.le_succ n)), same⟩
    · rcases seen.source id found with new | known
      · obtain ⟨m, _, small, same, _⟩ := reached.fresh few new
        exact ⟨m, small, same⟩
      · obtain ⟨m, small, same⟩ := reached.known known
        exact ⟨m, Nat.lt_of_lt_of_le small (candidates_mono (Nat.le_succ j)), same⟩

theorem reached_start : Reached settings frames 0 where
  orderly := ⟨⟨List.nodup_nil, nofun⟩, nofun⟩
  idle := fun _ => ⟨rfl, rfl⟩
  binID := by simp [detectorAt, BinDetector.start, candidates, shown, BlobDetector.int32]
  ages := by
    intro id k
    constructor
    · rintro (⟨_, _, never, _⟩ | ⟨_, _, _, never, _⟩)
      · exact absurd never List.not_mem_nil
      · contradiction
    · rintro ⟨_, never⟩
      exact absurd never absent_start
  issued := fun _ never => absurd never (Nat.not_lt_zero _)

theorem reached (few : candidates frames n ≤ 4294967296) : Reached settings frames n := by
  induction n with
  | zero => exact reached_start
  | succ n ih => exact (ih (Nat.le_trans (candidates_mono (Nat.le_succ n)) few)).succ few

/-- An id is dropped when it has been missing for the configured number of images, after the first. -/
theorem dropped_iff (few : candidates frames (n + 1) ≤ 4294967296) :
    Dropped settings frames n id ↔ Absent (Found settings frames) (n + 1) id (settings.binLostFrames + 1) := by
  have now : Reached settings frames n := reached (Nat.le_trans (candidates_mono (Nat.le_succ n)) few)
  rw [Dropped, published, (now.seen few).gone, now.ages, absent_succ, Found, published]
  exact ⟨fun both => ⟨both.1.2, both.2⟩, fun both => ⟨⟨Nat.le_refl _, both.1⟩, both.2⟩⟩

/-- An id that has been dropped is not found again, and is not kept. -/
theorem dropped_gone (few : candidates frames (m + 1) ≤ 4294967296) (dropped : Dropped settings frames n id) (order : n ≤ m) :
    ¬ Found settings frames m id ∧ ∀ k, ¬ Age settings.binLostFrames (lists (detectorAt settings frames (m + 1))) id k := by
  induction m, order using Nat.le_induction with
  | base =>
    have now : Reached settings frames n := reached (Nat.le_trans (candidates_mono (Nat.le_succ n)) few)
    obtain ⟨age, missing⟩ := ((now.seen few).gone id).mp dropped
    refine ⟨missing, fun k older => ?_⟩
    cases k with
    | zero =>
      have there := age_zero.mp older
      rw [detectorAt] at there
      refine missing ?_
      rw [(now.seen few).announced]
      exact mem_ids.mpr there
    | succ k =>
      obtain ⟨less, before, _⟩ := ((now.seen few).older id k).mp older
      have same := ((now.ages id _).mp before).2.unique ((now.ages id _).mp age).2
      omega
  | succ m order ih =>
    have early : candidates frames (m + 1) ≤ 4294967296 := Nat.le_trans (candidates_mono (Nat.le_succ _)) few
    obtain ⟨_, forgotten⟩ := ih early
    have now : Reached settings frames (m + 1) := reached early
    have seen := now.seen few
    have missing : ¬ Found settings frames (m + 1) id := by
      intro found
      rcases seen.source id found with new | known
      · obtain ⟨_, _, _, _, never⟩ := now.fresh few new
        refine never ?_
        have first : Reached settings frames n := reached (Nat.le_trans (candidates_mono (by omega)) few)
        obtain ⟨age, _⟩ := ((first.seen (Nat.le_trans (candidates_mono (by omega)) few)).gone id).mp dropped
        obtain ⟨k, small, same⟩ := first.known (first.orderly.known_iff.mpr ⟨_, age⟩)
        exact ⟨k, Nat.lt_of_lt_of_le small (candidates_mono (by omega)), same⟩
      · obtain ⟨k, age⟩ := now.orderly.known_iff.mp known
        exact forgotten k age
    refine ⟨missing, fun k older => ?_⟩
    cases k with
    | zero =>
      have there := age_zero.mp older
      rw [detectorAt] at there
      refine missing ?_
      rw [Found, published, seen.announced]
      exact mem_ids.mpr there
    | succ k => exact forgotten k ((seen.older id k).mp older).2.1

/-! ### What is said of the bins -/

/-- What holds of the events of the first `n` images. -/
structure Tracking (settings : Settings B D A) (frames : ℕ → List B) (n : ℕ) : Prop where
  /-- The bins of an image are reported found, and have different ids. -/
  distinct : ∀ j < n, foundIds (published settings frames j) = (detectorAt settings frames (j + 1)).bins.map TrackedBlob.id ∧
    (foundIds (published settings frames j)).Nodup
  /-- No id is reported dropped twice. -/
  once : ∀ j < n, (droppedIds (published settings frames j)).Nodup ∧
    ∀ i < n, ∀ id, Dropped settings frames i id → Dropped settings frames j id → i = j
  /-- An id is dropped when it has been found, and missed in the next image and in as many images more as are configured. -/
  dropped : ∀ j < n, ∀ id, Dropped settings frames j id ↔
    ∃ i, i + settings.binLostFrames + 1 = j ∧ Found settings frames i id ∧ ∀ m, i < m → m ≤ j → ¬ Found settings frames m id
  /-- A dropped id is not found again. -/
  gone : ∀ j < n, ∀ i ≤ j, ∀ id, Dropped settings frames i id → ¬ Found settings frames j id
  /-- The bins are lost when none is tracked and none is waiting. -/
  lost : ∀ j < n, .lost ∈ published settings frames j →
    (detectorAt settings frames (j + 1)).bins = [] ∧ (detectorAt settings frames (j + 1)).lostBins.entries = []

/-- As long as the counter has not come round, the bins are tracked. -/
theorem bins_tracked (settings : Settings B D A) (frames : ℕ → List B) (n : ℕ) (few : candidates frames n ≤ 4294967296) :
    Tracking settings frames n := by
  have less {j : ℕ} (before : j < n) : candidates frames (j + 1) ≤ 4294967296 := Nat.le_trans (candidates_mono before) few
  have seen {j : ℕ} (before : j < n) := (reached (Nat.le_trans (candidates_mono (Nat.le_of_lt before)) few) :
    Reached settings frames j).seen (less before)
  refine ⟨fun j before => ?_, fun j before => ⟨(seen before).once, fun i early id one other => ?_⟩, fun j before id => ?_,
    fun j before i order id dropped => (dropped_gone (less before) dropped order).1, fun j before => (seen before).lost⟩
  · refine ⟨(seen before).announced, ?_⟩
    rw [published, (seen before).announced]
    exact (seen before).orderly.nodup
  · have first := (dropped_iff (less early)).mp one
    have second := (dropped_iff (less before)).mp other
    rcases Nat.le_total i j with order | order
    · have equal := first.once second (fun l after late => (dropped_gone (less (by omega)) one (by omega)).1) (Nat.succ_le_succ order)
      omega
    · have equal := second.once first (fun l after late => (dropped_gone (less (by omega)) other (by omega)).1) (Nat.succ_le_succ order)
      omega
  · rw [dropped_iff (less before)]
    refine exists_congr fun i => ?_
    have sum : i + (settings.binLostFrames + 1) + 1 = j + 1 ↔ i + settings.binLostFrames + 1 = j := by omega
    rw [sum]
    refine and_congr_right fun _ => and_congr_right fun _ => forall_congr' fun m => forall_congr' fun _ => ?_
    rw [Nat.lt_succ_iff]

end

/-! ### Two settings -/

/-- Bins are the same when they are in one place, with a threshold for the distance and a number of frames to wait. -/
def places (binSameThreshold binLostFrames : ℕ) : Settings ℕ ℕ ℕ where
  distanceTo := fun a b => if a = b then 0 else 1
  far := 10000
  binSameThreshold := binSameThreshold
  binLostFrames := binLostFrames
  binToCenterComparer := fun a b => a.blob < b.blob
  findArrayAngle := fun _ => none
  isCentered := fun a => a.blob == 0

/-- A bin is seen, is hidden for one image, is seen again and then lost. -/
theorem bins_tracked_hidden : Tracking (places 1 1) (fun n => if n = 0 ∨ n = 2 then [7] else []) 6 :=
  bins_tracked _ _ 6 (by decide)

/-- Where no bins are the same, and none is waited for, each image drops the bin of the image before. -/
theorem alone (d : BinDetector ℕ) (k : ℕ) (binID : d.binID = shown k) (waiting : d.lostBins = .empty) :
    (processImage (places 0 0) d [1]).1.bins = [⟨1, shown k⟩] ∧ (processImage (places 0 0) d [1]).1.binID = shown (k + 1) ∧
    (processImage (places 0 0) d [1]).1.lostBins = .empty ∧ foundIds (processImage (places 0 0) d [1]).2 = [shown k] ∧
    droppedIds (processImage (places 0 0) d [1]).2 = d.bins.map TrackedBlob.id := by
  have kept : updateIds (places 0 0).distanceTo (places 0 0).far (places 0 0).binSameThreshold (places 0 0).binLostFrames
      ⟨d.bins, d.lostBins⟩ (processBins [1] d.binID).1 = (⟨d.bins, d.lostBins⟩, [⟨1, d.binID⟩]) := by
    have one : updateId (places 0 0).distanceTo (places 0 0).far (places 0 0).binSameThreshold ⟨d.bins, d.lostBins⟩ ⟨1, d.binID⟩ =
        (⟨d.bins, d.lostBins⟩, ⟨1, d.binID⟩) := by
      rw [updateId, if_neg fun both => Nat.not_lt_zero _ both.1, if_neg fun both => Nat.not_lt_zero _ both.1]
    rw [updateIds, processBins, processBins, matchIds, matchIds, one]
    rfl
  have single : [(⟨1, d.binID⟩ : TrackedBlob ℕ)].mergeSort (fun a b => !(places 0 0).binToCenterComparer b a) = [⟨1, d.binID⟩] :=
    List.mergeSort_singleton _
  have some : 0 < [1].length := Nat.succ_pos 0
  have image : processImage (places 0 0) d [1] =
      (⟨true, false, [⟨1, d.binID⟩], d.lostBins, (processBins [1] d.binID).2⟩,
        d.bins.map .dropped ++ [] ++ [⟨1, d.binID⟩].map .found) := by
    rw [processImage, if_pos some]
    simp only [kept, single]
    simp [places]
  obtain ⟨found, dropped⟩ := event_ids d.bins [⟨1, d.binID⟩] ([] : List (Event ℕ ℕ)) fun _ member => absurd member List.not_mem_nil
  rw [image]
  dsimp only
  rw [found, dropped, ← binID]
  refine ⟨rfl, ?_, waiting, rfl, rfl⟩
  rw [binID, (processBins_ids [1] k).2]
  rfl

theorem alone_at (n : ℕ) : (detectorAt (places 0 0) (fun _ => [1]) (n + 1)).bins = [⟨1, shown n⟩] ∧
    (detectorAt (places 0 0) (fun _ => [1]) n).binID = shown n ∧ (detectorAt (places 0 0) (fun _ => [1]) n).lostBins = .empty := by
  induction n with
  | zero =>
    have start : (BinDetector.start (B := ℕ)).binID = shown 0 := by simp [BinDetector.start, shown, BlobDetector.int32]
    exact ⟨(alone _ 0 start rfl).1, start, rfl⟩
  | succ n ih =>
    obtain ⟨_, binID, waiting, _⟩ := alone _ n ih.2.1 ih.2.2
    exact ⟨(alone _ (n + 1) binID waiting).1, binID, waiting⟩

/-- When the counter has come round, the first id is given again, which has been dropped. -/
theorem not_bins_tracked : ¬ ∀ (settings : Settings ℕ ℕ ℕ) (frames : ℕ → List ℕ) (n : ℕ), Tracking settings frames n := by
  intro all
  have tracking := all (places 0 0) (fun _ => [1]) 4294967297
  have dropped : Dropped (places 0 0) (fun _ => [1]) 1 (shown 0) := by
    rw [Dropped, published, (alone _ 1 (alone_at 1).2.1 (alone_at 1).2.2).2.2.2.2, (alone_at 0).1]
    exact List.mem_cons_self
  have found : Found (places 0 0) (fun _ => [1]) 4294967296 (shown 0) := by
    have round : shown 0 = shown 4294967296 := by decide
    rw [Found, published, (alone _ _ (alone_at 4294967296).2.1 (alone_at 4294967296).2.2).2.2.2.1, round]
    exact List.mem_cons_self
  exact tracking.gone 4294967296 (Nat.lt_succ_self _) 1 (by decide) (shown 0) dropped found

end Tortuga.BinRuns
