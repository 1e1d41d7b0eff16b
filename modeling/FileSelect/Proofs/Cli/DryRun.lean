import FileSelect.Cli.Run
import FileSelect.Proofs.Selection.Delete

/-!
# Dry runs

A deletion takes away nothing but entries that the paths of its members name, and a link at
the end of a path is named itself. A dry run changes nothing and prints the places to which the
paths of the members lead. So everything that is deleted is printed, except for links: in the
place of a link stands what it leads to.
-/

namespace FileSelect.Cli

variable {env : Environment} {d : Disk} {settings : Settings} {target : Target} {s : Selection}

theorem gathered_eq_ok_iff {what : Text} {x : Selection × Option Failure} :
    gathered what x = .ok s ↔ x = (s, none) := by
  obtain ⟨t, failure⟩ := x
  cases failure <;> simp [gathered]

theorem Target.exists_look_of_select (selected : target.select env d settings = .ok s) :
    ∀ m ∈ s.members, ∃ node, d.look .follow m.path = .ok (m.place, node) := by
  intro m inside
  rw [select] at selected
  split at selected
  · have added := gathered_eq_ok_iff.mp selected
    rw [Selection.globSpec] at added
    exact Selection.exists_look_of_mem_addQuery (by rw [added]; exact inside)
  · have added := gathered_eq_ok_iff.mp selected
    rw [Selection.glob] at added
    exact Selection.exists_look_of_mem_addQuery (by rw [added]; exact inside)

/-! ## The two runs -/

/-- What a dry run prints: places, one in a line, and how many there are. -/
def announcement (places : List Text) : Text :=
  lines places ++ Text.ofString "Dry run: would delete " ++ countText places.length ++
    Text.ofString " entries\n"

theorem selectTarget_bind (selected : target.select env d settings = .ok s)
    (next : Selection → Work Text) : (selectTarget env settings target >>= next) d = next s d := by
  simp only [bind, EStateM.bind, selectTarget, selected]

section Runs

variable {words : List Text} {given : Option Text}

/-- A dry run that can select prints the places of the members. -/
theorem run_dryRun (asked : Request.ofWords words = .run ⟨given, .delete target true⟩)
    (loaded : loadSettings env given d = .ok settings)
    (selected : target.select env d settings = .ok s) :
    run env words d = (⟨0, announcement (sortTexts s.absolutePaths), []⟩, d) := by
  have length : (sortTexts s.absolutePaths).length = s.members.length :=
    (perm_sortBy _ _).length_eq.trans (List.length_map _)
  have printed : Command.run env settings (.delete target true) d =
      .ok (announcement (sortTexts s.absolutePaths)) d := by
    rw [Command.run, selectTarget_bind selected, announcement, length]
    rfl
  rw [run, asked]
  simp only [Invocation.run, loaded, printed]

/-- A run that deletes leaves the disk that deleting the members leaves, whether or not all
of them could be deleted. -/
theorem disk_run_delete (asked : Request.ofWords words = .run ⟨given, .delete target false⟩)
    (loaded : loadSettings env given d = .ok settings)
    (selected : target.select env d settings = .ok s) :
    (run env words d).2 = (s.delete d).2 := by
  have done : Command.run env settings (.delete target false) d =
      if (s.delete d).1 then
        .ok (Text.ofString "Deleted " ++ countText s.members.length ++
          Text.ofString " entries\n") (s.delete d).2
      else .error (.leftovers s.members.length) (s.delete d).2 := by
    rw [Command.run, selectTarget_bind selected]
    change (if (s.delete d).1 then pure _ else throw _ : Work Text) (s.delete d).2 = _
    cases (s.delete d).1 <;> rfl
  rw [run, asked]
  simp only [Invocation.run, loaded, done]
  cases (s.delete d).1 <;> rfl

/-- Where nothing can be selected, nothing changes. -/
theorem disk_run_unselected {dryRun : Bool} {complaint : Complaint}
    (asked : Request.ofWords words = .run ⟨given, .delete target dryRun⟩)
    (failed : (loadSettings env given d).bind (target.select env d) = .error complaint) :
    (run env words d).2 = d := by
  rw [run, asked]
  simp only [Invocation.run]
  cases loaded : loadSettings env given d with
  | error _ => rfl
  | ok settings =>
      rw [loaded] at failed
      have unselected : target.select env d settings = .error complaint := failed
      simp [Command.run, selectTarget, unselected, bind, EStateM.bind]

end Runs

/-- A dry run changes nothing. Whatever a run that deletes with the same words takes away, the
dry run prints; but for a link it prints the place to which the link leads. -/
theorem dryRun_announces {dryWords words : List Text} {given : Option Text} {target : Target}
    (dry : Request.ofWords dryWords = .run ⟨given, .delete target true⟩)
    (real : Request.ofWords words = .run ⟨given, .delete target false⟩) :
    (run env dryWords d).2 = d ∧ ∀ place node, d.find? place = some node →
      (run env words d).2.find? place = none → ∃ printed,
        (run env dryWords d).1 = ⟨0, announcement printed, []⟩ ∧
        ((∀ path, node ≠ .link path) → place.text ∈ printed) ∧
        ∃ path led, d.resolve .keep path = .ok place ∧ d.resolve .follow path = .ok led ∧
          led.text ∈ printed := by
  cases chosen : (loadSettings env given d).bind (target.select env d) with
  | error complaint =>
      refine ⟨disk_run_unselected dry chosen, fun place node found gone => ?_⟩
      rw [disk_run_unselected real chosen, found] at gone
      cases gone
  | ok s =>
      obtain ⟨settings, loaded, selected⟩ : ∃ settings, loadSettings env given d = .ok settings ∧
          target.select env d settings = .ok s := by
        cases loaded : loadSettings env given d with
        | error _ => rw [loaded] at chosen; cases chosen
        | ok settings => exact ⟨settings, rfl, by rw [loaded] at chosen; exact chosen⟩
      rw [run_dryRun dry loaded selected, disk_run_delete real loaded selected]
      refine ⟨rfl, fun place node found gone => ⟨_, rfl, ?_⟩⟩
      obtain ⟨m, inside, led⟩ := Selection.exists_named_of_delete found gone
      obtain ⟨_, looked⟩ := Target.exists_look_of_select selected m inside
      have leads := (Disk.look_eq_ok_iff.mp looked).1
      have printed : m.place.text ∈ sortTexts s.absolutePaths :=
        mem_sortBy.mpr (List.mem_map_of_mem inside)
      refine ⟨fun plain => ?_, m.path, m.place, led, leads, printed⟩
      have same := Disk.resolve_follow_of_keep led fun path linked =>
        plain path (Option.some.inj (found.symm.trans linked))
      rw [leads] at same
      rwa [Except.ok.inj same] at printed

/-- A file in a directory, a link to the directory and a link to the file. -/
def aliasDisk : Disk :=
  ⟨[(["a"], .directory), (["a", "b"], .file .empty), (["l"], .link "a"), (["m"], .link "a/b")], []⟩

def bareEnvironment : Environment := ⟨none, none, none⟩

theorem loadSettings_alias : loadSettings bareEnvironment none aliasDisk = .ok .standard := by
  rw [loadSettings, Settings.loadOrStandard]
  have missing : aliasDisk.pathExists bareEnvironment.settingsPath = false := by decide +kernel
  rw [missing]
  rfl

/-- A file that is reached through a link on the way is printed as itself. -/
theorem dryRun_announces_alias :
    Request.ofWords ["delete", "/l/b", "--dry-run"] = .run ⟨none, .delete ⟨"/l/b", []⟩ true⟩ ∧
      Request.ofWords ["delete", "/l/b"] = .run ⟨none, .delete ⟨"/l/b", []⟩ false⟩ ∧
      (run bareEnvironment ["delete", "/l/b", "--dry-run"] aliasDisk).2 = aliasDisk ∧
      aliasDisk.find? ["a", "b"] = some (.file .empty) ∧
      (run bareEnvironment ["delete", "/l/b"] aliasDisk).2.find? ["a", "b"] = none ∧
      ∃ printed, (run bareEnvironment ["delete", "/l/b", "--dry-run"] aliasDisk).1 =
        ⟨0, announcement printed, []⟩ ∧ Text.ofString "/a/b" ∈ printed := by
  have dry : Request.ofWords ["delete", "/l/b", "--dry-run"] =
      .run ⟨none, .delete ⟨"/l/b", []⟩ true⟩ := by decide +kernel
  have real : Request.ofWords ["delete", "/l/b"] =
      .run ⟨none, .delete ⟨"/l/b", []⟩ false⟩ := by decide +kernel
  have selected : Target.select bareEnvironment aliasDisk .standard ⟨"/l/b", []⟩ =
      .ok ⟨[⟨"/l", "b", ["a", "b"]⟩], .standard⟩ := by decide +kernel
  have gone : (run bareEnvironment ["delete", "/l/b"] aliasDisk).2.find? ["a", "b"] = none := by
    rw [disk_run_delete real loadSettings_alias selected,
      Selection.delete_eq_deleteIn (List.pairwise_singleton _ _)]
    rfl
  obtain ⟨same, announced⟩ := @dryRun_announces bareEnvironment aliasDisk _ _ _ _ dry real
  obtain ⟨printed, printing, plain, _⟩ := announced ["a", "b"] (.file .empty) rfl gone
  exact ⟨dry, real, same, rfl, gone, printed, printing, plain fun _ linked => nomatch linked⟩

/-- In the place of a link that is deleted, the file to which it leads is printed. -/
theorem dryRun_omits_link :
    Request.ofWords ["delete", "/m", "--dry-run"] = .run ⟨none, .delete ⟨"/m", []⟩ true⟩ ∧
      Request.ofWords ["delete", "/m"] = .run ⟨none, .delete ⟨"/m", []⟩ false⟩ ∧
      aliasDisk.find? ["m"] = some (.link "a/b") ∧
      (run bareEnvironment ["delete", "/m"] aliasDisk).2.find? ["m"] = none ∧
      (run bareEnvironment ["delete", "/m", "--dry-run"] aliasDisk).1 =
        ⟨0, "/a/b\nDry run: would delete 1 entries\n", []⟩ := by
  have dry : Request.ofWords ["delete", "/m", "--dry-run"] =
      .run ⟨none, .delete ⟨"/m", []⟩ true⟩ := by decide +kernel
  have real : Request.ofWords ["delete", "/m"] =
      .run ⟨none, .delete ⟨"/m", []⟩ false⟩ := by decide +kernel
  have selected : Target.select bareEnvironment aliasDisk .standard ⟨"/m", []⟩ =
      .ok ⟨[⟨"/", "m", ["a", "b"]⟩], .standard⟩ := by decide +kernel
  refine ⟨dry, real, rfl, ?_, ?_⟩
  · rw [disk_run_delete real loadSettings_alias selected,
      Selection.delete_eq_deleteIn (List.pairwise_singleton _ _)]
    rfl
  · have single : sortTexts (Selection.absolutePaths ⟨[⟨"/", "m", ["a", "b"]⟩], .standard⟩) =
        [Text.ofString "/a/b"] := rfl
    rw [run_dryRun dry loadSettings_alias selected, single]
    decide +kernel

end FileSelect.Cli
