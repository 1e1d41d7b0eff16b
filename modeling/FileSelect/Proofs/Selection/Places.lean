import FileSelect.Proofs.Text.Segments
import FileSelect.Selection.Expression
import FileSelect.Selection.Gather
import Mathlib.Data.List.Nodup

/-!
# The places of a selection

A selection grows by members whose places are new. What was in it stays in front, and a
place that is taken keeps the member it was taken by. Gathering by patterns or by
expressions is adding a row of members, up to the first that cannot be located.
-/

namespace FileSelect

namespace Member

/-- The relative path begins and ends with no slash. -/
structure IsTrimmed (m : Member) : Prop where
  head_ne : m.relative.head? ≠ some '/'
  last_ne : m.relative.getLast? ≠ some '/'

theorem isTrimmed_of_locate {d : Disk} {anchor relative : Text} {m : Member}
    (located : locate d anchor relative = .ok m) : m.IsTrimmed := by
  have stripped : m.relative = Text.strip isSlash relative := by
    rw [locate] at located
    split at located
    · cases located
      rfl
    · cases located
  constructor
  · rw [stripped]
    intro first
    cases Text.head?_strip first
  · rw [stripped]
    intro last
    cases Text.getLast?_strip last

@[simp] theorem place_flattened (m : Member) : m.flattened.place = m.place := by
  rw [flattened]
  split <;> rfl

/-- A part behind the last slash holds none, and its end is the end of the whole. -/
theorem IsTrimmed.flattened {m : Member} (trimmed : m.IsTrimmed) : m.flattened.IsTrimmed := by
  rw [Member.flattened]
  split
  case h_1 above name cut =>
      have free := (Text.splitLast?_eq_some_iff.mp cut).2
      exact ⟨fun first => free (List.mem_of_head? first),
        fun last => free (List.mem_of_getLast? last)⟩
  case h_2 => exact trimmed

end Member

namespace Selection

variable (s : Selection)

/-! ## Adding members -/

theorem contains_iff {m : Member} : s.contains m = true ↔ m.place ∈ s.places := by
  rw [contains, List.any_eq_true, places, List.mem_map]
  exact exists_congr fun n => and_congr_right fun _ => decide_eq_true_iff

theorem insert_of_mem {m : Member} (taken : m.place ∈ s.places) : s.insert m = s := by
  rw [insert, if_pos (s.contains_iff.mpr taken)]

theorem insert_of_not_mem {m : Member} (free : m.place ∉ s.places) :
    s.insert m = { s with members := s.members ++ [m] } := by
  rw [insert, if_neg (fun taken => free (s.contains_iff.mp taken))]

theorem mem_insert_iff {m n : Member} :
    n ∈ (s.insert m).members ↔ n ∈ s.members ∨ n.place ∉ s.places ∧ n = m := by
  by_cases taken : m.place ∈ s.places
  · rw [s.insert_of_mem taken]
    refine ⟨Or.inl, fun h => h.resolve_right ?_⟩
    rintro ⟨free, rfl⟩
    exact free taken
  · rw [s.insert_of_not_mem taken, List.mem_append, List.mem_singleton]
    refine or_congr_right ⟨?_, And.right⟩
    rintro rfl
    exact ⟨taken, rfl⟩

theorem mem_insert {m n : Member} (h : n ∈ (s.insert m).members) : n ∈ s.members ∨ n = m :=
  (s.mem_insert_iff.mp h).imp_right And.right

theorem members_prefix_insert (m : Member) : s.members <+: (s.insert m).members := by
  by_cases taken : m.place ∈ s.places
  · exact (s.insert_of_mem taken).symm ▸ List.prefix_refl s.members
  · rw [s.insert_of_not_mem taken]
    exact List.prefix_append s.members [m]

theorem mem_places_insert_iff {m : Member} {place : Place} :
    place ∈ (s.insert m).places ↔ place ∈ s.places ∨ place = m.place := by
  by_cases taken : m.place ∈ s.places
  · rw [s.insert_of_mem taken]
    exact ⟨Or.inl, fun h => h.elim id fun same => same ▸ taken⟩
  · rw [s.insert_of_not_mem taken, places, List.map_append, List.mem_append, List.map_singleton,
      List.mem_singleton, places]

theorem nodup_places_insert (distinct : s.places.Nodup) (m : Member) :
    (s.insert m).places.Nodup := by
  by_cases taken : m.place ∈ s.places
  · rwa [s.insert_of_mem taken]
  · rw [s.insert_of_not_mem taken, places, List.map_append, List.map_singleton]
    exact distinct.append (List.nodup_singleton m.place)
      (List.disjoint_singleton.mpr taken)

theorem extend_cons (m : Member) (ms : List Member) :
    s.extend (m :: ms) = (s.insert m).extend ms := rfl

theorem mem_extend {ms : List Member} {n : Member} (h : n ∈ (s.extend ms).members) :
    n ∈ s.members ∨ n ∈ ms := by
  induction ms generalizing s with
  | nil => exact .inl h
  | cons m ms ih =>
      rw [List.mem_cons, ← or_assoc]
      exact (ih (s.insert m) h).imp_left s.mem_insert

omit s in
/-- What is built from nothing has no other members. -/
theorem mem_of_mem_extend_empty {settings : Settings} {ms : List Member} {n : Member}
    (h : n ∈ ((empty settings).extend ms).members) : n ∈ ms :=
  ((empty settings).mem_extend h).resolve_left List.not_mem_nil

theorem members_prefix_extend (ms : List Member) : s.members <+: (s.extend ms).members := by
  induction ms generalizing s with
  | nil => exact List.prefix_refl s.members
  | cons m ms ih => exact (s.members_prefix_insert m).trans (ih (s.insert m))

theorem mem_places_extend_iff {ms : List Member} {place : Place} :
    place ∈ (s.extend ms).places ↔ place ∈ s.places ∨ place ∈ ms.map Member.place := by
  induction ms generalizing s with
  | nil => simp [extend]
  | cons m ms ih =>
      rw [extend_cons, ih, s.mem_places_insert_iff, or_assoc, List.map_cons, List.mem_cons]

theorem nodup_places_extend (distinct : s.places.Nodup) (ms : List Member) :
    (s.extend ms).places.Nodup := by
  induction ms generalizing s with
  | nil => exact distinct
  | cons m ms ih => exact ih (s.insert m) (s.nodup_places_insert distinct m)

/-- Members with places of their own are added as they are. -/
theorem extend_of_distinct {ms : List Member} (distinct : (ms.map Member.place).Nodup)
    (free : ∀ m ∈ ms, m.place ∉ s.places) :
    s.extend ms = { s with members := s.members ++ ms } := by
  induction ms generalizing s with
  | nil => simp [extend]
  | cons m ms ih =>
      obtain ⟨fresh, distinct⟩ := List.nodup_cons.mp distinct
      have mFree := free m List.mem_cons_self
      rw [extend_cons, ih (s.insert m) distinct, s.insert_of_not_mem mFree]
      · simp
      · intro n inside taken
        rcases s.mem_places_insert_iff.mp taken with taken | same
        · exact free n (List.mem_cons_of_mem m inside) taken
        · exact fresh (same ▸ List.mem_map_of_mem inside)

/-- Two members at one place are the same member. -/
theorem eq_of_place_eq (distinct : s.places.Nodup) {m n : Member} (mIn : m ∈ s.members)
    (nIn : n ∈ s.members) (same : n.place = m.place) : n = m :=
  List.inj_on_of_nodup_map distinct nIn mIn same

theorem places_flatten : s.flatten.places = s.places := by
  rw [places, flatten, List.map_map]
  exact List.map_congr_left fun m _ => m.place_flattened

/-! ## Gathering -/

theorem exists_addFound_eq_extend (d : Disk) (found : List Found) : ∃ ms,
    (s.addFound d found).1 = s.extend ms ∧
      ∀ m ∈ ms, ∃ f ∈ found, Member.locate d f.directory f.relative = .ok m := by
  induction found generalizing s with
  | nil => exact ⟨[], rfl, List.forall_mem_nil _⟩
  | cons f rest ih =>
      rw [addFound]
      cases located : Member.locate d f.directory f.relative with
      | error failure => exact ⟨[], rfl, List.forall_mem_nil _⟩
      | ok m =>
          obtain ⟨ms, eq, origin⟩ := ih (s.insert m)
          refine ⟨m :: ms, eq, List.forall_mem_cons.mpr ⟨⟨f, List.mem_cons_self, located⟩, ?_⟩⟩
          intro n inside
          obtain ⟨g, gIn, located⟩ := origin n inside
          exact ⟨g, List.mem_cons_of_mem f gIn, located⟩

/-- Nothing stops the addition of entries that can all be located. -/
theorem addFound_eq_extend {d : Disk} {found : List Found} {member : Found → Member}
    (located : ∀ f ∈ found, Member.locate d f.directory f.relative = .ok (member f)) :
    s.addFound d found = (s.extend (found.map member), none) := by
  induction found generalizing s with
  | nil => rfl
  | cons f rest ih =>
      rw [addFound, located f List.mem_cons_self]
      exact ih (s.insert (member f)) fun g inside => located g (List.mem_cons_of_mem f inside)

theorem exists_addFiles_eq_extend (d : Disk) (root : Text) (files : List Text) : ∃ ms,
    (s.addFiles d root files).1 = s.extend ms ∧
      ∀ m ∈ ms, ∃ path ∈ files, Member.locate d root path = .ok m := by
  induction files generalizing s with
  | nil => exact ⟨[], rfl, List.forall_mem_nil _⟩
  | cons path rest ih =>
      rw [addFiles]
      cases located : Member.locate d root path with
      | error failure => exact ⟨[], rfl, List.forall_mem_nil _⟩
      | ok m =>
          obtain ⟨ms, eq, origin⟩ := ih (s.insert m)
          refine ⟨m :: ms, eq,
            List.forall_mem_cons.mpr ⟨⟨path, List.mem_cons_self, located⟩, ?_⟩⟩
          intro n inside
          obtain ⟨other, otherIn, located⟩ := origin n inside
          exact ⟨other, List.mem_cons_of_mem path otherIn, located⟩

/-- Nothing stops the addition of files that can all be located. -/
theorem addFiles_eq_extend {d : Disk} {root : Text} {files : List Text}
    (located : ∀ path ∈ files, ∃ m, Member.locate d root path = .ok m) :
    s.addFiles d root files =
      (s.extend (files.filterMap fun path => (Member.locate d root path).toOption), none) := by
  induction files generalizing s with
  | nil => rfl
  | cons path rest ih =>
      obtain ⟨m, here⟩ := located path List.mem_cons_self
      rw [addFiles, here, List.filterMap_cons, here]
      exact ih (s.insert m) fun other inside => located other (List.mem_cons_of_mem path inside)

end Selection

end FileSelect
