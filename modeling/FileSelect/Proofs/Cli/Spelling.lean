import FileSelect.Cli.Run
import FileSelect.Proofs.Disk.Listing
import FileSelect.Proofs.Text.Cutting

/-!
# Spellings of a target

Patterns are given one by one, or behind the root with a bar in front of each of them. Wherever
a list of patterns is cut in two, its first part written behind the root and the rest given one
by one, the same query is made and the same is selected. A failure is the same, too; only what
is said to have been done when it arose shows how the target was spelled.
-/

namespace FileSelect.Cli

/-- The selection that gathering comes to, or the failure that stopped it. -/
def gatheredOutcome : Selection × Option Failure → Except Failure Selection
  | (s, none) => .ok s
  | (_, some failure) => .error failure

theorem gathered_eq_mapError (what : Text) (x : Selection × Option Failure) :
    gathered what x = (gatheredOutcome x).mapError (.failed (some what)) := by
  obtain ⟨s, failure⟩ := x
  cases failure <;> rfl

namespace Target

/-! ## The short form -/

theorem spec_eq_join (t : Target) : t.spec = Text.join ['|'] (t.root :: t.patterns) := by
  obtain ⟨root, patterns⟩ := t
  induction patterns generalizing root with
  | nil => exact List.append_nil root
  | cons pattern rest ih =>
      have inner : pattern ++ (rest.flatMap fun pattern => '|' :: pattern) =
          Text.join ['|'] (pattern :: rest) := ih pattern
      rw [spec, List.flatMap_cons, List.cons_append, inner, Text.join, List.append_assoc]
      rfl

/-- The root and the patterns are read back from the short form. -/
theorem split_spec {t : Target} (plain : '|' ∉ t.root) (free : ∀ p ∈ t.patterns, '|' ∉ p) :
    Text.split '|' t.spec = t.root :: t.patterns := by
  rw [spec_eq_join]
  exact Text.split_join (List.cons_ne_nil _ _) (List.forall_mem_cons.mpr ⟨plain, free⟩)

/-- Patterns may be written behind a short form. -/
theorem spec_spec (root : Text) (front back : List Text) :
    spec ⟨spec ⟨root, front⟩, back⟩ = spec ⟨root, front ++ back⟩ := by
  rw [spec, spec, spec, List.flatMap_append, List.append_assoc]

theorem contains_spec (root : Text) {patterns : List Text} (ne : patterns ≠ []) :
    (spec ⟨root, patterns⟩).contains '|' = true := by
  obtain ⟨pattern, rest, rfl⟩ := List.exists_cons_of_ne_nil ne
  rw [List.contains_iff_mem]
  exact List.mem_append_right root List.mem_cons_self

/-! ## One query -/

section Spelled

variable {root : Text} {patterns : List Text}
variable (nonblank : Text.trim root ≠ []) (trimmed : Text.trim root = root)
variable (plain : '|' ∉ root) (free : ∀ p ∈ patterns, '|' ∉ p)
variable (env : Environment) (d : Disk) (settings : Settings)

include nonblank trimmed plain free

/-- The query of a short form is that of its root, which may begin with the home directory,
and of its patterns. -/
theorem ofSpec_spec : Query.ofSpec env d (spec ⟨root, patterns⟩) settings =
    Query.ofPatterns d (env.expand root) patterns settings := by
  rw [Query.ofSpec, split_spec plain free]
  dsimp only
  rw [if_neg nonblank, trimmed]

/-- However the patterns are divided between the short form and the list, the target selects the
same, or fails in the same way. -/
theorem select_spelled :
    Query.ofSpec env d (spec ⟨root, patterns⟩) settings =
        Query.ofPatterns d (env.expand root) patterns settings ∧
      ∃ outcome : Except Failure Selection,
        select env d settings ⟨root, patterns⟩ = outcome.mapError
            (.failed (some (Text.ofString "selecting under " ++ env.expand root))) ∧
        ∀ k, 1 ≤ k → k ≤ patterns.length →
          select env d settings ⟨spec ⟨root, patterns.take k⟩, patterns.drop k⟩ =
            outcome.mapError
              (.failed (some (Text.ofString "selecting " ++ spec ⟨root, patterns⟩))) := by
  have same := ofSpec_spec nonblank trimmed plain free env d settings
  refine ⟨same, gatheredOutcome ((Selection.empty settings).glob d (env.expand root) patterns),
    ?_, fun k first within => ?_⟩
  · have bare : root.contains '|' = false := by
      rwa [Bool.eq_false_iff, Ne, List.contains_iff_mem]
    rw [select, bare, if_neg Bool.false_ne_true]
    exact gathered_eq_mapError _ _
  · have someFirst : patterns.take k ≠ [] := by
      rw [Ne, List.take_eq_nil_iff, not_or, ← List.length_eq_zero_iff]
      omega
    have whole : spec ⟨spec ⟨root, patterns.take k⟩, patterns.drop k⟩ = spec ⟨root, patterns⟩ := by
      rw [spec_spec, List.take_append_drop]
    have gathers : (Selection.empty settings).globSpec env d (spec ⟨root, patterns⟩) =
        (Selection.empty settings).glob d (env.expand root) patterns :=
      congrArg ((Selection.empty settings).addQuery d) same
    rw [select, contains_spec root someFirst, if_pos rfl, whole, gathers]
    exact gathered_eq_mapError _ _

end Spelled

/-- Where `~` is the directory that was built. -/
def builtEnvironment : Environment := ⟨some "/build", none, none⟩

/-- A blank pattern behind the root, and another in the list. -/
theorem select_spelled_built :
    Text.trim "~" ≠ [] ∧ Text.trim "~" = Text.ofString "~" ∧ '|' ∉ Text.ofString "~" ∧
      (∀ p ∈ [Text.ofString " ", Text.ofString "*.txt"], '|' ∉ p) ∧
      select builtEnvironment Disk.built .standard ⟨"~", [" ", "*.txt"]⟩ =
        .ok ⟨[⟨"/build", "x.txt", ["build", "x.txt"]⟩], .standard⟩ ∧
      select builtEnvironment Disk.built .standard ⟨"~| ", ["*.txt"]⟩ =
        .ok ⟨[⟨"/build", "x.txt", ["build", "x.txt"]⟩], .standard⟩ := by
  have nonblank : Text.trim "~" ≠ [] := by decide
  have free : ∀ p ∈ [Text.ofString " ", Text.ofString "*.txt"], '|' ∉ p := by decide
  have listed : select builtEnvironment Disk.built .standard ⟨"~", [" ", "*.txt"]⟩ =
      .ok ⟨[⟨"/build", "x.txt", ["build", "x.txt"]⟩], .standard⟩ := by decide +kernel
  obtain ⟨_, outcome, one, cut⟩ :=
    select_spelled nonblank rfl (by decide) free builtEnvironment Disk.built .standard
  cases outcome with
  | error failure => cases one.symm.trans listed
  | ok s =>
      cases one.symm.trans listed
      exact ⟨nonblank, rfl, by decide, free, listed, cut 1 (by decide) (by decide)⟩

end Target

end FileSelect.Cli
