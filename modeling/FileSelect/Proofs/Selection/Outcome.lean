import FileSelect.Proofs.Scan.Reached
import FileSelect.Proofs.Selection.Places

/-!
# How gathering ends

A scan that is refused, for its root or for a pattern, adds nothing. What another scan finds is
added entry by entry. Where links are followed every entry can be located, and all of them are
added. Where they are not, the first entry that is a broken link ends the gathering with its
fault, and the entries before it have been added.
-/

namespace FileSelect

/-! ## Locating entries -/

namespace Found

/-- The member that an entry becomes, if its path leads anywhere. -/
def member? (d : Disk) (f : Found) : Option Member :=
  (Member.locate d f.directory f.relative).toOption

variable {d : Disk} {f : Found}

theorem member?_eq_some_iff {m : Member} :
    f.member? d = some m ↔ Member.locate d f.directory f.relative = .ok m := by
  rw [member?]
  cases Member.locate d f.directory f.relative with
  | error failure => constructor <;> rintro ⟨⟩
  | ok n => exact ⟨fun h => congrArg _ (Option.some.inj h), fun h => congrArg _ (Except.ok.inj h)⟩

variable (trimmed : Text.strip isSlash f.relative = f.relative)

include trimmed

theorem locate_eq_ok_iff {m : Member} : Member.locate d f.directory f.relative = .ok m ↔
    m.anchor = f.directory ∧ m.relative = f.relative ∧
      ∃ node, d.look .follow f.path = .ok (m.place, node) := by
  rw [Member.locate, trimmed, path]
  cases d.look .follow (Path.append f.directory f.relative) with
  | error fault =>
      constructor
      · rintro ⟨⟩
      · rintro ⟨_, _, _, ⟨⟩⟩
  | ok there =>
      constructor
      · rintro ⟨⟩
        exact ⟨rfl, rfl, there.2, rfl⟩
      · obtain ⟨anchor, relative, place⟩ := m
        rintro ⟨rfl, rfl, node, ⟨⟩⟩
        rfl

theorem locate_eq_error_iff {failure : Failure} :
    Member.locate d f.directory f.relative = .error failure ↔
      ∃ fault, d.look .follow f.path = .error fault ∧ failure = .ioAt f.path fault := by
  rw [Member.locate, trimmed, path]
  cases d.look .follow (Path.append f.directory f.relative) with
  | error fault =>
      constructor
      · rintro ⟨⟩
        exact ⟨fault, rfl, rfl⟩
      · rintro ⟨_, ⟨⟩, rfl⟩
        rfl
  | ok there =>
      constructor
      · rintro ⟨⟩
      · rintro ⟨_, ⟨⟩, _⟩

end Found

namespace Selection

/-! ## Adding entries -/

@[simp] theorem settings_extend (s : Selection) (ms : List Member) :
    (s.extend ms).settings = s.settings := by
  induction ms generalizing s with
  | nil => rfl
  | cons m ms ih =>
      rw [extend_cons, ih, insert]
      split <;> rfl

/-- Either all entries are located and added, or those in front of the first that cannot be. -/
theorem addFound_cases (d : Disk) (s : Selection) (found : List Found) :
    ((∀ f ∈ found, ∃ m, Member.locate d f.directory f.relative = .ok m) ∧
      s.addFound d found = (s.extend (found.filterMap (Found.member? d)), none)) ∨
    ∃ before f after failure, found = before ++ f :: after ∧
      (∀ g ∈ before, ∃ m, Member.locate d g.directory g.relative = .ok m) ∧
      Member.locate d f.directory f.relative = .error failure ∧
      s.addFound d found = (s.extend (before.filterMap (Found.member? d)), some failure) := by
  induction found generalizing s with
  | nil => exact .inl ⟨List.forall_mem_nil _, rfl⟩
  | cons f rest ih =>
      rw [addFound]
      cases located : Member.locate d f.directory f.relative with
      | error failure =>
          exact .inr ⟨[], f, rest, failure, rfl, List.forall_mem_nil _, located, rfl⟩
      | ok m =>
          have first := Found.member?_eq_some_iff.mpr located
          rcases ih (s.insert m) with ⟨all, eq⟩ | ⟨before, g, after, failure, rfl, passed, failed, eq⟩
          · left
            rw [List.filterMap_cons_some first, extend_cons]
            exact ⟨List.forall_mem_cons.mpr ⟨⟨m, located⟩, all⟩, eq⟩
          · right
            refine ⟨f :: before, g, after, failure, rfl,
              List.forall_mem_cons.mpr ⟨⟨m, located⟩, passed⟩, failed, ?_⟩
            rw [List.filterMap_cons_some first, extend_cons]
            exact eq

/-- A selection grown by entries that all lead somewhere: its own members stay as they were,
the others are entries below their directories, and the places of all of them are taken. -/
structure GrownBy (d : Disk) (s : Selection) (found : List Found) (t : Selection) : Prop where
  kept : s.members <+: t.members
  added : ∀ m ∈ t.members, m ∈ s.members ∨ ∃ f ∈ found, m.anchor = f.directory ∧
    m.relative = f.relative ∧ ∃ node, d.look .follow f.path = .ok (m.place, node)
  places : ∀ place, place ∈ t.places ↔
    place ∈ s.places ∨ ∃ f ∈ found, ∃ node, d.look .follow f.path = .ok (place, node)
  reached : ∀ f ∈ found, ∃ there, d.look .follow f.path = .ok there
  distinct : s.places.Nodup → t.places.Nodup
  settings : t.settings = s.settings

variable {d : Disk} {s : Selection} {found : List Found}

theorem grownBy_extend (trimmed : ∀ f ∈ found, Text.strip isSlash f.relative = f.relative)
    (located : ∀ f ∈ found, ∃ m, Member.locate d f.directory f.relative = .ok m) :
    s.GrownBy d found (s.extend (found.filterMap (Found.member? d))) where
  kept := s.members_prefix_extend _
  added m inside := by
    refine (s.mem_extend inside).imp_right fun inside => ?_
    obtain ⟨f, fIn, eq⟩ := List.mem_filterMap.mp inside
    exact ⟨f, fIn, (Found.locate_eq_ok_iff (trimmed f fIn)).mp (Found.member?_eq_some_iff.mp eq)⟩
  places place := by
    rw [s.mem_places_extend_iff, List.mem_map]
    refine or_congr_right ⟨?_, ?_⟩
    · rintro ⟨m, inside, rfl⟩
      obtain ⟨f, fIn, eq⟩ := List.mem_filterMap.mp inside
      have led := (Found.locate_eq_ok_iff (trimmed f fIn)).mp (Found.member?_eq_some_iff.mp eq)
      exact ⟨f, fIn, led.2.2⟩
    · rintro ⟨f, fIn, led⟩
      have here : Member.locate d f.directory f.relative = .ok ⟨f.directory, f.relative, place⟩ :=
        (Found.locate_eq_ok_iff (trimmed f fIn)).mpr ⟨rfl, rfl, led⟩
      exact ⟨_, List.mem_filterMap.mpr ⟨f, fIn, Found.member?_eq_some_iff.mpr here⟩, rfl⟩
  reached f fIn := by
    obtain ⟨m, here⟩ := located f fIn
    obtain ⟨_, _, node, led⟩ := (Found.locate_eq_ok_iff (trimmed f fIn)).mp here
    exact ⟨_, led⟩
  distinct apart := s.nodup_places_extend apart _
  settings := s.settings_extend _

/-! ## The outcome -/

/-- How gathering ends for what was scanned: a refusal changes nothing; where links are followed
nothing fails; and otherwise the first broken link stops it, in front of which all is added. -/
structure Outcome (d : Disk) (s : Selection) (scanned : Except Failure (List Found))
    (result : Selection × Option Failure) : Prop where
  refused : ∀ failure, scanned = .error failure → result = (s, some failure)
  followed : ∀ found, scanned = .ok found → s.settings.followLinks = true → result.2 = none
  fails_iff : ∀ found, scanned = .ok found →
    (result.2 ≠ none ↔ ∃ f ∈ found, d.IsBrokenLink f.path)
  failed : ∀ found failure, scanned = .ok found → result.2 = some failure →
    ∃ before f after fault, found = before ++ f :: after ∧
      (∀ g ∈ before, ¬d.IsBrokenLink g.path) ∧ d.IsBrokenLink f.path ∧
      d.look .follow f.path = .error fault ∧ failure = .ioAt f.path fault ∧
      s.GrownBy d before result.1
  succeeded : ∀ found, scanned = .ok found → result.2 = none → s.GrownBy d found result.1

/-- Among entries that are reached, only a broken link that was not followed can stop it. -/
theorem outcome_addFound (each : ∀ f ∈ found,
    Text.strip isSlash f.relative = f.relative ∧ d.Reaches s.settings.followLinks f.path) :
    Outcome d s (.ok found) (s.addFound d found) := by
  have whole : ∀ {f : Found}, (∃ there, d.look .follow f.path = .ok there) →
      ¬d.IsBrokenLink f.path := by
    rintro f ⟨there, led⟩ ⟨_, fault, broken⟩
    exact nomatch led.symm.trans broken
  rcases s.addFound_cases d found with
    ⟨located, eq⟩ | ⟨before, f, after, failure, rfl, passed, failed, eq⟩
  · have grown := grownBy_extend (s := s) (fun f inside => (each f inside).1) located
    rw [eq]
    refine ⟨nofun, fun _ _ _ => rfl, ?_, nofun, ?_⟩
    · rintro _ ⟨⟩
      refine iff_of_false (fun fails => fails rfl) ?_
      rintro ⟨f, inside, broken⟩
      exact whole (grown.reached f inside) broken
    · rintro _ ⟨⟩ _
      exact grown
  · have inside : f ∈ before ++ f :: after := List.mem_append_right before List.mem_cons_self
    obtain ⟨fault, lost, rfl⟩ := (Found.locate_eq_error_iff (each f inside).1).mp failed
    obtain ⟨unfollowed, broken⟩ := (each f inside).2.resolve_left fun ⟨_, led⟩ =>
      nomatch led.symm.trans lost
    have grown := grownBy_extend (s := s)
      (fun g front => (each g (List.mem_append_left _ front)).1) passed
    rw [eq]
    refine ⟨nofun, ?_, ?_, ?_, nofun⟩
    · intro _ _ follows
      cases unfollowed.symm.trans follows
    · rintro _ ⟨⟩
      exact iff_of_true nofun ⟨f, inside, broken⟩
    · rintro _ _ ⟨⟩ ⟨⟩
      exact ⟨before, f, after, fault, rfl, fun g front => whole (grown.reached g front), broken,
        lost, rfl, grown⟩

theorem outcome_addQuery (wf : d.WellFormed) {q : Except Failure Query}
    (kind : ∀ query, q = .ok query → query.kind = d.rootKind query.root) :
    Outcome d s (q.map fun query => query.run d s.settings.followLinks) (s.addQuery d q) := by
  cases q with
  | error failure =>
      refine ⟨?_, nofun, nofun, nofun, nofun⟩
      rintro _ ⟨⟩
      rfl
  | ok query =>
      exact outcome_addFound fun f inside =>
        Query.reaches_of_mem_run wf (kind query rfl) inside

/--
However the selection is written, gathering it ends as what is scanned says. A scan is refused
for patterns at a file, and otherwise for the first pattern that is.
-/
theorem glob_outcome (wf : d.WellFormed) (s : Selection) :
    (∀ root patterns, Outcome d s (Query.scan d root patterns s.settings)
      (s.glob d root patterns)) ∧
    (∀ env spec, Outcome d s (Query.scanSpec env d spec s.settings) (s.globSpec env d spec)) ∧
    ∀ root patterns failure, Query.scan d root patterns s.settings = .error failure ↔
      if d.rootKind root = .file ∧ PatternSet.nonblank patterns ≠ [] then
        failure = .rootIsFile root (PatternSet.nonblank patterns)
      else PatternSet.refusal? patterns s.settings = some failure :=
  ⟨fun _ _ => outcome_addQuery wf fun _ compiled => Query.kind_of_ofPatterns compiled,
    fun _ _ => outcome_addQuery wf fun _ compiled => Query.kind_of_ofSpec compiled,
    fun _ _ _ => Query.scan_eq_error_iff⟩

/-- A file, a link to nothing and a link to itself. -/
def dangling : Disk :=
  (((⟨[], []⟩ : Disk).put ["a"] (.file .empty)).put ["b"] (.link "gone")).put ["c"] (.link "c")

theorem wellFormed_dangling : dangling.WellFormed := by
  have wf := Disk.WellFormed.nothing []
  have wf := wf.put_free [] "a" (by decide) rfl rfl (.file .empty)
  have wf := wf.put_free [] "b" (by decide) rfl rfl (.link "gone")
  exact wf.put_free [] "c" (by decide) rfl rfl (.link "c")

/-- The file, under another anchor, where links are not to be followed. -/
def unfollowed : Selection :=
  ((empty { Settings.standard with followLinks := false }).addPath dangling "/." "a").1

/-- A wildcard that is refused for its size. -/
def longWildcard : Text := List.replicate 27888 '?'

/-- The file keeps its anchor, and the first of the two links ends the gathering. Where links are
followed both are passed over. A wildcard that is too large, or patterns for the file, leave the
selection as it was. -/
theorem glob_outcome_dangling :
    dangling.WellFormed ∧
    Query.scan dangling "/" ["**"] unfollowed.settings =
      .ok [⟨"/", "a", false⟩, ⟨"/", "b", false⟩, ⟨"/", "c", false⟩] ∧
    dangling.IsBrokenLink "/b" ∧ dangling.IsBrokenLink "/c" ∧
    (unfollowed.glob dangling "/" ["**"]).2 = some (.ioAt "/b" .notFound) ∧
    ⟨"/.", "a", ["a"]⟩ ∈ (unfollowed.glob dangling "/" ["**"]).1.members ∧
    ((empty .standard).glob dangling "/" ["**"]).2 = none ∧
    unfollowed.glob dangling "/" [longWildcard, "**"] =
      (unfollowed, some (.invalidWildcard longWildcard Regex.tooLarge)) ∧
    unfollowed.glob dangling "/a" ["**"] = (unfollowed, some (.rootIsFile "/a" ["**"])) := by
  have wf := wellFormed_dangling
  have scanned : Query.scan dangling "/" ["**"] unfollowed.settings =
      .ok [⟨"/", "a", false⟩, ⟨"/", "b", false⟩, ⟨"/", "c", false⟩] := by decide +kernel
  have second : dangling.IsBrokenLink "/b" := ⟨⟨["b"], "gone", rfl⟩, .notFound, rfl⟩
  have third : dangling.IsBrokenLink "/c" := ⟨⟨["c"], "c", rfl⟩, .tooManyLinks, rfl⟩
  obtain ⟨outcomes, -, refused_iff⟩ := glob_outcome wf unfollowed
  have outcome := outcomes "/" ["**"]
  have old : ⟨"/.", "a", ["a"]⟩ ∈ unfollowed.members := by decide +kernel
  have fails := (outcome.fails_iff _ scanned).mpr ⟨⟨"/", "b", false⟩, by simp, second⟩
  obtain ⟨failure, failed⟩ := Option.ne_none_iff_exists'.mp fails
  obtain ⟨before, f, after, fault, split, passed, broken, lost, rfl, grown⟩ :=
    outcome.failed _ _ scanned failed
  have at_b : (unfollowed.glob dangling "/" ["**"]).2 = some (.ioAt "/b" .notFound) := by
    rcases before with _ | ⟨first, _ | ⟨next, more⟩⟩
    · cases split
      cases lost
    · cases split
      cases lost
      exact failed
    · obtain ⟨-, rest⟩ := List.cons.inj split
      obtain ⟨rfl, -⟩ := List.cons.inj rest
      have free := passed ⟨"/", "b", false⟩ (List.mem_cons_of_mem first List.mem_cons_self)
      exact absurd second free
  have rest : Query.scan dangling "/" ["**"] (empty .standard).settings =
      .ok [⟨"/", "a", false⟩] := by decide +kernel
  have followed := (glob_outcome wf (empty .standard)).1 "/" ["**"]
  have large : PatternSet.refusal? [longWildcard, "**"] unfollowed.settings =
      some (.invalidWildcard longWildcard Regex.tooLarge) :=
    PatternSet.refusal?_anyChars 27887 (by decide)
  have atDirectory : ¬(dangling.rootKind "/" = .file ∧
      PatternSet.nonblank [longWildcard, "**"] ≠ []) := fun file => nomatch file.1
  have atFile : dangling.rootKind "/a" = .file ∧ PatternSet.nonblank ["**"] ≠ [] := by
    decide +kernel
  have tooLong := (refused_iff "/" [longWildcard, "**"] _).mpr ((if_neg atDirectory).mpr large)
  have patternsAtFile := (refused_iff "/a" ["**"] _).mpr ((if_pos atFile).mpr rfl)
  exact ⟨wf, scanned, second, third, at_b, grown.kept.subset old, followed.followed _ rest rfl,
    (outcomes "/" _).refused _ tooLong, (outcomes "/a" _).refused _ patternsAtFile⟩

end Selection

end FileSelect
