import FileSelect.Proofs.Selection.Operation
import FileSelect.Proofs.Text.Sorting

/-!
# Collisions

To copy, to move and to archive first look for two files with one relative path. Which
two of them are met depends on the order of the members, whether any are met does not.
The look comes before every change, and no later step fails with a collision.
-/

namespace FileSelect

open Std (LawfulEqCmp OrientedCmp ReflCmp)

/-! ## The order of places -/

namespace Place

instance : OrientedCmp Place.order := inferInstanceAs (OrientedCmp (lexicographic Text.order))

instance : LawfulEqCmp Place.order := inferInstanceAs (LawfulEqCmp (lexicographic Text.order))

/-- Of two different places one is the smaller. -/
theorem order_lt_or_lt {left right : Place} (ne : left ≠ right) :
    order left right = .lt ∨ order right left = .lt := by
  have swapped : order right left = (order left right).swap := OrientedCmp.eq_swap
  rw [swapped]
  cases compared : order left right with
  | lt => exact .inl rfl
  | eq => exact absurd (LawfulEqCmp.eq_of_compare compared) ne
  | gt => exact .inr rfl

end Place

/-! ## Failures that are no collisions -/

def Failure.isCollision : Failure → Bool
  | .collision .. => true
  | _ => false

namespace Operation

variable {α β : Type}

/-- Whatever the operation fails with, it is no collision. -/
def CollisionFree (x : Operation α) : Prop :=
  ∀ d failure e, x d = .error failure e → failure.isCollision = false

theorem collisionFree_pure (a : α) : CollisionFree (pure a) :=
  fun _ _ _ failed => nomatch failed

theorem collisionFree_get : CollisionFree (get : Operation Disk) :=
  fun _ _ _ failed => nomatch failed

theorem collisionFree_modify (f : Disk → Disk) : CollisionFree (modify f : Operation PUnit) :=
  fun _ _ _ failed => nomatch failed

theorem CollisionFree.bind {x : Operation α} {f : α → Operation β} (first : CollisionFree x)
    (next : ∀ a, CollisionFree (f a)) : CollisionFree (x >>= f) := by
  intro d failure e failed
  rw [bind_eq] at failed
  cases run : x d with
  | ok a now =>
      rw [run] at failed
      exact next a now failure e failed
  | error other now =>
      rw [run] at failed
      cases failed
      exact first d failure e run

theorem collisionFree_change {blame : Fault → Failure} {f : Disk → Except Fault Disk}
    (blames : ∀ fault, (blame fault).isCollision = false) : CollisionFree (change blame f) := by
  intro d failure e failed
  rw [change] at failed
  split at failed
  · cases failed
  · cases failed
    exact blames _

theorem collisionFree_read {f : Disk → Except Failure α}
    (reads : ∀ d failure, f d = .error failure → failure.isCollision = false) :
    CollisionFree (read f) := by
  intro d failure e failed
  rw [read] at failed
  split at failed
  · cases failed
  · rename_i other result
    cases failed
    exact reads d failure result

theorem collisionFree_perform {blame : Fault → Failure} {f : Disk.Change Unit}
    (blames : ∀ fault, (blame fault).isCollision = false) : CollisionFree (perform blame f) := by
  intro d failure e failed
  rw [perform] at failed
  split at failed
  · cases failed
  · cases failed
    exact blames _

theorem collisionFree_makeDirectories (path : Text) : CollisionFree (makeDirectories path) :=
  collisionFree_perform fun _ => rfl

theorem collisionFree_makeParent (path : Text) : CollisionFree (makeParent path) := by
  rw [makeParent]
  split
  · exact collisionFree_makeDirectories _
  · exact collisionFree_pure ()

theorem collisionFree_locate (destination relative : Text) :
    CollisionFree (read fun d => Member.locate d destination relative) := by
  refine collisionFree_read fun d failure missing => ?_
  rw [Member.locate] at missing
  split at missing
  · cases missing
  · cases missing
    rfl

end Operation

namespace Selection

open Operation

/-! ## After the look for collisions -/

theorem collisionFree_copyMember (destination : Text) (m : Member) :
    CollisionFree (copyMember destination m) := by
  refine collisionFree_get.bind fun now => ?_
  dsimp only
  split
  · exact (collisionFree_makeDirectories _).bind fun _ => collisionFree_locate _ _
  · refine (collisionFree_makeParent _).bind fun _ => ?_
    exact (collisionFree_change fun _ => rfl).bind fun _ => collisionFree_locate _ _

theorem collisionFree_moveMember (destination : Text) (m : Member) :
    CollisionFree (moveMember destination m) := by
  refine collisionFree_get.bind fun now => ?_
  have located (isDirectory : Bool) : CollisionFree (do
      let moved ← Operation.read fun d => Member.locate d destination m.relative
      pure (moved, isDirectory)) :=
    (collisionFree_locate _ _).bind fun _ => collisionFree_pure _
  dsimp only
  split
  · exact (collisionFree_makeDirectories _).bind fun _ => located _
  · refine (collisionFree_makeParent _).bind fun _ => ?_
    exact (collisionFree_perform fun _ => rfl).bind fun _ => located _

theorem collisionFree_transfer {one : Member → Operation Member}
    (each : ∀ m, CollisionFree (one m)) (done : Selection) (ms : List Member) :
    CollisionFree (transfer one done ms) := by
  induction ms generalizing done with
  | nil => exact collisionFree_pure done
  | cons m rest ih => exact (each m).bind fun moved => ih (done.insert moved)

theorem collisionFree_moveMembers (destination : Text) (done : Selection)
    (left rest : List Member) : CollisionFree (moveMembers destination done left rest) := by
  induction rest generalizing done left with
  | nil => exact collisionFree_pure (done, left)
  | cons m rest ih =>
      exact (collisionFree_moveMember destination m).bind fun moved => ih (done.insert moved.1) _

theorem collisionFree_storeEntries (place : Place) (compression : Compression)
    (stored : List (Name × Compression × Content)) (entries : List ArchiveEntry) :
    CollisionFree (Archive.storeEntries place compression stored entries) := by
  intro d failure e failed
  induction entries generalizing stored d with
  | nil => cases failed
  | cons entry rest ih =>
      rw [Archive.storeEntries] at failed
      split at failed
      · cases failed
        rfl
      · split at failed
        · cases failed
          rfl
        · exact ih _ _ failed

theorem collisionFree_write (path : Text) (entries : List ArchiveEntry)
    (compression : Compression) : CollisionFree (Archive.write path entries compression) := by
  have filled : CollisionFree (do
      let place ← Operation.read fun d => (d.writePlace path).mapError (.ioAt path)
      modify fun d => d.put place (.file (.archive []))
      Archive.storeEntries place compression [] entries
      pure entries.length) := by
    refine (collisionFree_read fun d failure failed => ?_).bind fun place => ?_
    · cases written : d.writePlace path with
      | ok place => simp [written, Except.mapError] at failed
      | error fault =>
          simp only [written, Except.mapError, Except.error.injEq] at failed
          simp [← failed, Failure.isCollision]
    · refine (collisionFree_modify _).bind fun _ => ?_
      exact (collisionFree_storeEntries place compression [] entries).bind fun _ =>
        collisionFree_pure entries.length
  unfold Archive.write
  split
  · exact collisionFree_pure 0
  · cases Path.parent? path with
    | none => exact filled
    | some above =>
        dsimp only
        split
        · exact filled
        · exact (collisionFree_makeDirectories above).bind fun _ => filled

/-! ## Looking for collisions -/

/-- Two different members that are no directories and have one relative path. -/
structure Collide (s : Selection) (d : Disk) (m n : Member) : Prop where
  first : m ∈ (s.files d).members
  second : n ∈ (s.files d).members
  ne : m ≠ n
  relative : m.relative = n.relative

theorem Collide.symm {s : Selection} {d : Disk} {m n : Member} (collide : s.Collide d m n) :
    s.Collide d n m :=
  ⟨collide.second, collide.first, collide.ne.symm, collide.relative.symm⟩

/-- Nothing is met exactly when no relative path occurs twice. -/
theorem collisionIn?_eq_none_iff {seen : List Member} (apart : (seen.map Member.relative).Nodup)
    (rest : List Member) :
    collisionIn? seen rest = none ↔ ((seen.reverse ++ rest).map Member.relative).Nodup := by
  induction rest generalizing seen with
  | nil => simpa [collisionIn?] using apart
  | cons m rest ih =>
      rw [collisionIn?]
      cases met : seen.find? fun n => n.relative == m.relative with
      | some n =>
          have same : n.relative = m.relative := by simpa using List.find?_some met
          have inside := List.mem_of_find?_eq_some met
          simp only [reduceCtorEq, false_iff]
          intro distinct
          rw [List.map_append, List.nodup_append] at distinct
          refine distinct.2.2 n.relative ?_ m.relative (by simp) same
          exact List.mem_map_of_mem (List.mem_reverse.mpr inside)
      | none =>
          have fresh : m.relative ∉ seen.map Member.relative := by
            intro taken
            obtain ⟨n, inside, same⟩ := List.mem_map.mp taken
            exact List.find?_eq_none.mp met n inside (by simp [same])
          have later : ((m :: seen).map Member.relative).Nodup :=
            List.nodup_cons.mpr ⟨fresh, apart⟩
          simpa using ih later

/-- What is met are two members of the list, the earlier one first. -/
theorem exists_sublist_of_collisionIn? {seen rest : List Member} {failure : Failure}
    (met : collisionIn? seen rest = some failure) :
    ∃ m n, [m, n].Sublist (seen.reverse ++ rest) ∧ m.relative = n.relative ∧
      failure = collisionOf m n := by
  induction rest generalizing seen with
  | nil => cases met
  | cons n rest ih =>
      rw [collisionIn?] at met
      cases earlier : seen.find? fun m => m.relative == n.relative with
      | some m =>
          rw [earlier] at met
          have inside := List.mem_reverse.mpr (List.mem_of_find?_eq_some earlier)
          refine ⟨m, n, ?_, by simpa using List.find?_some earlier, (Option.some.inj met).symm⟩
          exact (List.singleton_sublist.mpr inside).append (List.singleton_sublist.mpr (by simp))
      | none =>
          rw [earlier] at met
          have found := ih met
          simpa using found

/-- The member with the smaller place comes first, whichever is met first. -/
theorem collisionOf_eq {m n : Member} (smaller : Place.order m.place n.place = .lt)
    (same : m.relative = n.relative) :
    collisionOf m n = .collision m.relative m.path n.path ∧
      collisionOf n m = .collision m.relative m.path n.path := by
  have larger : Place.order n.place m.place = .gt := OrientedCmp.gt_of_lt smaller
  simp [collisionOf, smaller, larger, same, Ordering.isLE]

theorem collisionOf_comm {m n : Member} (ne : m.place ≠ n.place)
    (same : m.relative = n.relative) : collisionOf m n = collisionOf n m := by
  rcases Place.order_lt_or_lt ne with smaller | smaller
  · obtain ⟨first, second⟩ := collisionOf_eq smaller same
    exact first.trans second.symm
  · obtain ⟨first, second⟩ := collisionOf_eq smaller same.symm
    exact second.trans first.symm

/-- No collision is found exactly when the files have different relative paths. -/
theorem collision?_eq_none_iff {s : Selection} {d : Disk} :
    s.collision? d = none ↔ ((s.files d).members.map Member.relative).Nodup := by
  have nothing : (([] : List Member).map Member.relative).Nodup := List.nodup_nil
  have look := collisionIn?_eq_none_iff nothing (s.files d).members
  rwa [List.reverse_nil, List.nil_append] at look

theorem refuseCollision_eq_ok_iff {s : Selection} {d e : Disk} :
    s.refuseCollision d = .ok () e ↔ s.collision? d = none ∧ e = d := by
  rw [refuseCollision]
  cases s.collision? d with
  | none => simp [eq_comm]
  | some failure => simp

/-- Members with relative paths of their own do not collide. -/
theorem refuseCollision_eq_ok {s : Selection} (distinct : s.relativePaths.Nodup) (d : Disk) :
    s.refuseCollision d = .ok () d := by
  have files : ((s.files d).members.map Member.relative).Nodup :=
    distinct.sublist (List.filter_sublist.map Member.relative)
  exact refuseCollision_eq_ok_iff.mpr ⟨collision?_eq_none_iff.mpr files, rfl⟩

/-- Two members collide exactly when the look finds a collision. -/
theorem exists_collide_iff {s : Selection} (distinct : s.places.Nodup) {d : Disk} :
    (∃ m n, s.Collide d m n) ↔ s.collision? d ≠ none := by
  have files : ((s.files d).members.map Member.place).Nodup :=
    distinct.sublist (List.filter_sublist.map Member.place)
  rw [ne_eq, collision?_eq_none_iff]
  constructor
  · rintro ⟨m, n, first, second, ne, same⟩ apart
    exact ne (List.inj_on_of_nodup_map apart first second same)
  · intro twice
    rw [List.nodup_map_iff_inj_on (files.of_map Member.place)] at twice
    push Not at twice
    obtain ⟨m, first, n, second, same, ne⟩ := twice
    exact ⟨m, n, first, second, ne, same⟩

/-- The collision that is found is one of two members that collide. -/
theorem exists_collide_of_collision? {s : Selection} (distinct : s.places.Nodup) {d : Disk}
    {failure : Failure} (found : s.collision? d = some failure) :
    ∃ m n, s.Collide d m n ∧ Place.order m.place n.place = .lt ∧
      failure = .collision m.relative m.path n.path ∧ failure = collisionOf m n := by
  obtain ⟨m, n, pair, same, rfl⟩ := exists_sublist_of_collisionIn? found
  have apart := (distinct.sublist (List.filter_sublist.map Member.place)).sublist
    (pair.map Member.place)
  have places : m.place ≠ n.place := by simpa using apart
  have collide : s.Collide d m n :=
    ⟨pair.subset (by simp), pair.subset (by simp), fun eq => places (congrArg _ eq), same⟩
  rcases Place.order_lt_or_lt places with smaller | smaller
  · exact ⟨m, n, collide, smaller, (collisionOf_eq smaller same).1, rfl⟩
  · exact ⟨n, m, collide.symm, smaller, (collisionOf_eq smaller same.symm).2,
      collisionOf_comm places same⟩

/--
An operation reports collisions: it fails with one exactly when two members collide. It
then has left the disk as it was, and names two members that collide, the one with the
smaller place first.
-/
structure ReportsCollisions {α : Type} (s : Selection) (d : Disk)
    (result : EStateM.Result Failure Disk α) : Prop where
  iff_collide : (∃ relative first second e,
    result = .error (.collision relative first second) e) ↔ ∃ m n, s.Collide d m n
  names : ∀ relative first second e, result = .error (.collision relative first second) e →
    e = d ∧ ∃ m n, s.Collide d m n ∧ Place.order m.place n.place = .lt ∧
      relative = m.relative ∧ first = m.path ∧ second = n.path

variable {α : Type} {s : Selection} {d : Disk} {rest : Unit → Operation α}

theorem refuseCollision_bind_of_some {failure : Failure} (found : s.collision? d = some failure)
    (rest : Unit → Operation α) : (s.refuseCollision >>= rest) d = .error failure d := by
  rw [Operation.bind_eq, refuseCollision, found]

theorem refuseCollision_bind_of_none (noCollision : s.collision? d = none)
    (rest : Unit → Operation α) : (s.refuseCollision >>= rest) d = rest () d := by
  rw [Operation.bind_eq, refuseCollision, noCollision]

/-- What first looks for collisions, and later has none, reports them. -/
theorem reportsCollisions_bind (distinct : s.places.Nodup) (free : CollisionFree (rest ())) :
    s.ReportsCollisions d ((s.refuseCollision >>= rest) d) := by
  cases look : s.collision? d with
  | none =>
      have noPair : ¬ ∃ m n, s.Collide d m n := fun pair =>
        (exists_collide_iff distinct).mp pair look
      rw [refuseCollision_bind_of_none look]
      have impossible (relative first second : Text) (e : Disk)
          (failed : rest () d = .error (.collision relative first second) e) : False :=
        Bool.noConfusion (free d _ e failed)
      exact ⟨⟨fun ⟨_, _, _, _, failed⟩ => (impossible _ _ _ _ failed).elim,
        fun pair => absurd pair noPair⟩, fun _ _ _ _ failed => (impossible _ _ _ _ failed).elim⟩
  | some failure =>
      obtain ⟨m, n, collide, smaller, named, _⟩ := exists_collide_of_collision? distinct look
      rw [refuseCollision_bind_of_some look, named]
      refine ⟨⟨fun _ => ⟨m, n, collide⟩, fun _ => ⟨_, _, _, d, rfl⟩⟩, ?_⟩
      rintro relative first second e failed
      cases failed
      exact ⟨rfl, m, n, collide, smaller, rfl, rfl, rfl⟩

/-- When two members alone collide, the same collision is found in every order. -/
theorem collision?_of_perm (distinct : s.places.Nodup) {m n : Member}
    (collide : s.Collide d m n)
    (only : ∀ m' n', s.Collide d m' n' → m' = m ∧ n' = n ∨ m' = n ∧ n' = m) {t : Selection}
    (reordered : s.members.Perm t.members) : t.collision? d = some (collisionOf m n) := by
  have files : (s.files d).members.Perm (t.files d).members := reordered.filter _
  have back {m' n' : Member} (other : t.Collide d m' n') : s.Collide d m' n' :=
    ⟨files.mem_iff.mpr other.first, files.mem_iff.mpr other.second, other.ne, other.relative⟩
  have there : t.Collide d m n :=
    ⟨files.mem_iff.mp collide.first, files.mem_iff.mp collide.second, collide.ne, collide.relative⟩
  have apart : t.places.Nodup := (reordered.map Member.place).nodup_iff.mp distinct
  cases look : t.collision? d with
  | none => exact absurd look ((exists_collide_iff apart).mp ⟨m, n, there⟩)
  | some failure =>
      obtain ⟨m', n', other, smaller, _, rfl⟩ := exists_collide_of_collision? apart look
      rcases only m' n' (back other) with ⟨rfl, rfl⟩ | ⟨rfl, rfl⟩
      · rfl
      · refine congrArg some (collisionOf_comm (fun same => ?_) other.relative)
        have equal : Place.order n'.place n'.place = .eq := ReflCmp.compare_self
        rw [same, equal] at smaller
        cases smaller

/--
To copy, to move and to archive report collisions, in whatever order the members are. If
two members alone collide, all three fail in every order with the same collision.
-/
theorem collisions_reported (distinct : s.places.Nodup) (destination : Text) (d : Disk) :
    s.ReportsCollisions d (s.copyTo destination d) ∧
    s.ReportsCollisions d (s.moveTo destination d) ∧
    s.ReportsCollisions d (s.zip destination d) ∧
    ∀ m n, s.Collide d m n →
      (∀ m' n', s.Collide d m' n' → m' = m ∧ n' = n ∨ m' = n ∧ n' = m) →
      ∃ failure, ∀ t : Selection, s.members.Perm t.members →
        t.copyTo destination d = .error failure d ∧ t.moveTo destination d = .error failure d ∧
          t.zip destination d = .error failure d := by
  refine ⟨?_, ?_, ?_, fun m n collide only => ⟨collisionOf m n, fun t reordered => ?_⟩⟩
  · exact reportsCollisions_bind distinct
      (collisionFree_transfer (collisionFree_copyMember destination) _ _)
  · refine reportsCollisions_bind distinct ?_
    refine (collisionFree_moveMembers _ _ _ _).bind fun moved => ?_
    exact (collisionFree_modify _).bind fun _ => collisionFree_pure moved.1
  · exact reportsCollisions_bind distinct
      (collisionFree_get.bind fun now => collisionFree_write _ _ _)
  · have found := collision?_of_perm distinct collide only reordered
    exact ⟨refuseCollision_bind_of_some found _, refuseCollision_bind_of_some found _,
      refuseCollision_bind_of_some found _⟩

/-- Two directories with a file of the same name. -/
def twins : Disk :=
  ((((⟨[], []⟩ : Disk).put ["a"] .directory).put ["a", "f"] (.file (.ofText "a"))).put
    ["b"] .directory).put ["b", "f"] (.file (.ofText "b"))

/-- Both files, each below its own directory. -/
def twinFiles : Selection :=
  ⟨[⟨"/a", "f", ["a", "f"]⟩, ⟨"/b", "f", ["b", "f"]⟩], .standard⟩

/-- The files are refused, and in the other order with the same failure. -/
theorem collisions_reported_twins : twinFiles.places.Nodup ∧
    twinFiles.Collide twins ⟨"/a", "f", ["a", "f"]⟩ ⟨"/b", "f", ["b", "f"]⟩ ∧
    ∀ t : Selection, twinFiles.members.Perm t.members →
      t.moveTo "/out" twins = .error (.collision "f" "/a/f" "/b/f") twins := by
  have distinct : twinFiles.places.Nodup := by decide
  have files : (twinFiles.files twins).members = twinFiles.members := by decide +kernel
  have collide : twinFiles.Collide twins ⟨"/a", "f", ["a", "f"]⟩ ⟨"/b", "f", ["b", "f"]⟩ :=
    ⟨by rw [files]; decide, by rw [files]; decide, by decide, rfl⟩
  refine ⟨distinct, collide, fun t reordered => ?_⟩
  obtain ⟨_, _, _, same⟩ := collisions_reported distinct "/out" twins
  obtain ⟨failure, every⟩ := same _ _ collide fun m n other => by
    obtain ⟨first, second, ne, _⟩ := other
    rw [files, twinFiles] at first second
    simp only [List.mem_cons, List.not_mem_nil, or_false] at first second
    rcases first with rfl | rfl <;> rcases second with rfl | rfl <;> simp_all
  have named : twinFiles.moveTo "/out" twins =
      .error (.collision "f" "/a/f" "/b/f") twins := by
    refine refuseCollision_bind_of_some ?_ _
    decide +kernel
  rw [(every t reordered).2.1]
  rw [(every twinFiles (.refl _)).2.1] at named
  exact named

end Selection

end FileSelect
