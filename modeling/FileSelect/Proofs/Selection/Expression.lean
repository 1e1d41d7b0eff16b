import FileSelect.Proofs.Disk.Walking
import FileSelect.Proofs.Regex.Whole
import FileSelect.Proofs.Selection.Glob

/-!
# Files that expressions select

The expressions of a list are compiled one after the other, and the first that is not valid
stops everything. Compiled, they judge a path by the languages of the expressions, as long as
each of these keeps its extent between the anchors. A file that a walk comes to can always be
located, so then the files that are added are those that the languages admit.
-/

namespace FileSelect

namespace ExpressionSet

/-! ## Compiled lists -/

/-- What an expression of a list says, behind the mark of an exclude. -/
def body : Text → Text
  | '!' :: expression => expression
  | expression => expression

/-- An expression of a list that includes. An empty one counts for nothing. -/
def IsInclude (expression : Text) : Prop := expression ≠ [] ∧ expression.head? ≠ some '!'

instance (expression : Text) : Decidable (IsInclude expression) :=
  inferInstanceAs (Decidable (_ ∧ _))

theorem IsInclude.body_eq {expression : Text} (includes : IsInclude expression) :
    body expression = expression := by
  rw [body]
  rintro rest rfl
  exact includes.2 rfl

/-- The set holds what the expressions of the list are between the anchors. -/
structure IsCompiled (expressions : List Text) (set : ExpressionSet) : Prop where
  valid : ∀ e ∈ expressions, e ≠ [] → ∃ r, Regex.ofWhole? (body e) = some r
  includes : ∀ r, r ∈ set.includes ↔
    ∃ e ∈ expressions, IsInclude e ∧ Regex.ofWhole? e = some r
  excludes : ∀ r, r ∈ set.excludes ↔
    ∃ e, '!' :: e ∈ expressions ∧ Regex.ofWhole? e = some r

namespace IsCompiled

variable {expressions : List Text} {set : ExpressionSet} {e : Text} {r : Regex}

theorem nil : IsCompiled [] ⟨[], []⟩ :=
  ⟨List.forall_mem_nil _, by simp, by simp⟩

theorem blank (compiled : IsCompiled expressions set) : IsCompiled ([] :: expressions) set := by
  refine ⟨List.forall_mem_cons.mpr ⟨absurd rfl, compiled.valid⟩, fun other => ?_, fun other => ?_⟩
  · rw [compiled.includes, List.exists_mem_cons_iff, or_iff_right fun blank => blank.1.1 rfl]
  · simp [compiled.excludes]

theorem excludes_cons (compiled : IsCompiled expressions set) (whole : Regex.ofWhole? e = some r) :
    IsCompiled (('!' :: e) :: expressions) { set with excludes := r :: set.excludes } := by
  refine ⟨List.forall_mem_cons.mpr ⟨fun _ => ⟨r, whole⟩, compiled.valid⟩, fun other => ?_,
    fun other => ?_⟩
  · rw [compiled.includes, List.exists_mem_cons_iff, or_iff_right fun marked => marked.1.2 rfl]
  · rw [List.mem_cons, compiled.excludes]
    constructor
    · rintro (rfl | ⟨f, inside, whole⟩)
      · exact ⟨e, List.mem_cons_self, whole⟩
      · exact ⟨f, List.mem_cons_of_mem _ inside, whole⟩
    · rintro ⟨f, inside, found⟩
      rcases List.mem_cons.mp inside with same | inside
      · cases same
        exact .inl (Option.some.inj (found.symm.trans whole))
      · exact .inr ⟨f, inside, found⟩

theorem includes_cons (compiled : IsCompiled expressions set) (includes : IsInclude e)
    (whole : Regex.ofWhole? e = some r) :
    IsCompiled (e :: expressions) { set with includes := r :: set.includes } := by
  have valid : Regex.ofWhole? (body e) = some r :=
    (congrArg Regex.ofWhole? includes.body_eq).trans whole
  refine ⟨List.forall_mem_cons.mpr ⟨fun _ => ⟨r, valid⟩, compiled.valid⟩, fun other => ?_,
    fun other => ?_⟩
  · rw [List.mem_cons, compiled.includes, List.exists_mem_cons_iff, and_iff_right includes, whole,
      Option.some_inj, eq_comm]
  · rw [compiled.excludes]
    refine exists_congr fun f => and_congr_left fun _ => ?_
    rw [List.mem_cons, or_iff_right]
    rintro rfl
    exact includes.2 rfl

end IsCompiled

theorem compile_eq (e : Text) : compile e =
    (Regex.ofWhole? e).elim (.error (.invalidExpression e "regex parse error")) .ok := by
  rw [compile]
  cases Regex.ofWhole? e <;> rfl

/-- A list is compiled as a whole, or one of its expressions cannot be compiled. -/
theorem ofExpressions_cases (expressions : List Text) :
    (∃ set, ofExpressions expressions = .ok set ∧ IsCompiled expressions set) ∨
      (∃ reason, ofExpressions expressions = .error (.pattern reason)) ∧
        ∃ e ∈ expressions, e ≠ [] ∧ Regex.ofWhole? (body e) = none := by
  fun_induction ofExpressions expressions with
  | case1 => exact .inl ⟨_, rfl, .nil⟩
  | case2 rest ih =>
      rcases ih with ⟨set, compiled, is⟩ | ⟨failed, e, inside, bad⟩
      · exact .inl ⟨set, compiled, is.blank⟩
      · exact .inr ⟨failed, e, List.mem_cons_of_mem _ inside, bad⟩
  | case3 e rest ih =>
      rw [compile_eq]
      cases whole : Regex.ofWhole? e with
      | none => exact .inr ⟨⟨_, rfl⟩, _, List.mem_cons_self, List.cons_ne_nil _ _, whole⟩
      | some r =>
          rcases ih with ⟨set, compiled, is⟩ | ⟨⟨reason, failed⟩, f, inside, bad⟩
          · rw [compiled]
            exact .inl ⟨_, rfl, is.excludes_cons whole⟩
          · rw [failed]
            exact .inr ⟨⟨reason, rfl⟩, f, List.mem_cons_of_mem _ inside, bad⟩
  | case4 e rest ne unmarked ih =>
      have includes : IsInclude e := by
        refine ⟨ne, fun first => ?_⟩
        obtain ⟨t, rfl⟩ := List.head?_eq_some_iff.mp first
        exact unmarked t rfl
      rw [compile_eq]
      cases whole : Regex.ofWhole? e with
      | none =>
          exact .inr ⟨⟨_, rfl⟩, e, List.mem_cons_self, ne, includes.body_eq.symm ▸ whole⟩
      | some r =>
          rcases ih with ⟨set, compiled, is⟩ | ⟨⟨reason, failed⟩, f, inside, bad⟩
          · rw [compiled]
            exact .inl ⟨_, rfl, is.includes_cons includes whole⟩
          · rw [failed]
            exact .inr ⟨⟨reason, rfl⟩, f, List.mem_cons_of_mem _ inside, bad⟩

/-! ## The paths that a list admits -/

/-- Some include has the path in its language, or there is none, and no exclude has. -/
structure Admits (expressions : List Text) (path : Text) : Prop where
  included : (∀ e ∈ expressions, ¬IsInclude e) ∨
    ∃ e ∈ expressions, IsInclude e ∧ Regex.InLanguage e path
  free : ∀ e, '!' :: e ∈ expressions → ¬Regex.InLanguage e path

section Extent

variable {expressions : List Text} {set : ExpressionSet}
variable (extent : ∀ e ∈ expressions, Regex.KeepsExtent (body e))

include extent

/-- What the set judges by are the languages of the expressions. -/
theorem IsCompiled.acceptsPath_iff (compiled : IsCompiled expressions set) (path : Text) :
    set.acceptsPath path = true ↔ Admits expressions path := by
  have none : set.includes.isEmpty = true ↔ ∀ e ∈ expressions, ¬IsInclude e := by
    rw [List.isEmpty_iff, List.eq_nil_iff_forall_not_mem]
    constructor
    · intro empty e inside includes
      obtain ⟨r, whole⟩ := compiled.valid e inside includes.1
      rw [includes.body_eq] at whole
      exact empty r ((compiled.includes r).mpr ⟨e, inside, includes, whole⟩)
    · intro empty r inside
      obtain ⟨e, listed, includes, _⟩ := (compiled.includes r).mp inside
      exact empty e listed includes
  have some : set.includes.any (·.isFoundIn path) = true ↔
      ∃ e ∈ expressions, IsInclude e ∧ Regex.InLanguage e path := by
    rw [List.any_eq_true]
    constructor
    · rintro ⟨r, inside, found⟩
      obtain ⟨e, listed, includes, whole⟩ := (compiled.includes r).mp inside
      have keeps := includes.body_eq ▸ extent e listed
      exact ⟨e, listed, includes, keeps.isFoundIn_iff.mp ⟨r, whole, found⟩⟩
    · rintro ⟨e, listed, includes, language⟩
      have keeps := includes.body_eq ▸ extent e listed
      obtain ⟨r, whole, found⟩ := keeps.isFoundIn_iff.mpr language
      exact ⟨r, (compiled.includes r).mpr ⟨e, listed, includes, whole⟩, found⟩
  have excluded : set.excludes.any (·.isFoundIn path) = true ↔
      ∃ e, '!' :: e ∈ expressions ∧ Regex.InLanguage e path := by
    rw [List.any_eq_true]
    constructor
    · rintro ⟨r, inside, found⟩
      obtain ⟨e, listed, whole⟩ := (compiled.excludes r).mp inside
      exact ⟨e, listed, (extent _ listed).isFoundIn_iff.mp ⟨r, whole, found⟩⟩
    · rintro ⟨e, listed, language⟩
      obtain ⟨r, whole, found⟩ := (extent _ listed).isFoundIn_iff.mpr language
      exact ⟨r, (compiled.excludes r).mpr ⟨e, listed, whole⟩, found⟩
  rw [acceptsPath, Bool.and_eq_true, Bool.or_eq_true, none, some, Bool.not_eq_true',
    Bool.eq_false_iff, Ne, excluded]
  constructor
  · rintro ⟨included, free⟩
    exact ⟨included, fun e listed language => free ⟨e, listed, language⟩⟩
  · rintro ⟨included, free⟩
    exact ⟨included, fun ⟨e, listed, language⟩ => free e listed language⟩

omit extent in
/-- By itself and between the anchors an expression is valid or not. -/
theorem ofWhole?_body_eq_none_iff {e : Text} (extent : Regex.KeepsExtent (body e)) :
    Regex.ofWhole? (body e) = none ↔ Regex.ofText? (body e) = none := by
  rw [extent.ofWhole?_eq, Option.map_eq_none_iff]

end Extent

end ExpressionSet

/-! ## Files of a walk -/

/-- The path of a walk is located at the file that the walk comes to. -/
theorem Disk.IsFileBelow.locate_eq {d : Disk} {followLinks : Bool} {root : Text}
    {names : List Name} {file : Place} (wf : d.WellFormed)
    (below : d.IsFileBelow followLinks root names file) :
    Member.locate d root (joinSegments names) = .ok ⟨root, joinSegments names, file⟩ := by
  obtain ⟨place, led, comes⟩ := below
  obtain ⟨content, found⟩ := comes.exists_look wf (leadsInto_of_look led)
  rw [Member.locate, strip_joinSegments (comes.isName wf), found]

namespace Selection

section Gathering

variable {d : Disk} (wf : d.WellFormed) (s : Selection) (root : Text) {expressions : List Text}

include wf

/-- The files of a listing can all be located, so those that a set accepts are added. -/
theorem exists_addFiles_listing (set : ExpressionSet) : ∃ t,
    s.addFiles d root ((((d.listing s.settings.followLinks root).files []).map
      joinSegments).filter set.acceptsPath) = (t, none) ∧
    ∀ place, place ∈ t.places ↔ place ∈ s.places ∨ ∃ names,
      d.IsFileBelow s.settings.followLinks root names place ∧
        set.acceptsPath (joinSegments names) = true := by
  have located : ∀ path ∈ (((d.listing s.settings.followLinks root).files []).map
      joinSegments).filter set.acceptsPath, ∃ m, Member.locate d root path = .ok m := by
    intro path inside
    obtain ⟨names, listed, rfl⟩ := List.mem_map.mp (List.mem_filter.mp inside).1
    obtain ⟨file, below⟩ := (Disk.mem_files_listing_iff wf).mp listed
    exact ⟨_, below.locate_eq wf⟩
  refine ⟨_, s.addFiles_eq_extend located, fun place => ?_⟩
  rw [s.mem_places_extend_iff]
  refine or_congr_right ?_
  simp only [List.mem_map, List.mem_filterMap, List.mem_filter]
  constructor
  · rintro ⟨m, ⟨_, ⟨⟨names, listed, rfl⟩, accepted⟩, found⟩, rfl⟩
    obtain ⟨file, below⟩ := (Disk.mem_files_listing_iff wf).mp listed
    rw [below.locate_eq wf] at found
    obtain rfl := Option.some.inj found
    exact ⟨names, below, accepted⟩
  · rintro ⟨names, below, accepted⟩
    have listed := (Disk.mem_files_listing_iff wf).mpr ⟨place, below⟩
    refine ⟨⟨root, joinSegments names, place⟩, ⟨_, ⟨⟨names, listed, rfl⟩, accepted⟩, ?_⟩, rfl⟩
    rw [below.locate_eq wf]
    rfl

open ExpressionSet in
/--
When every expression of a list keeps its extent between the anchors, gathering fails, with
nothing added, exactly if one that is not empty is not valid by itself, behind its mark.
Otherwise the files are added to which a walk from the root comes on a path that the list
admits: the whole path is in the language of some include, or there is no include, and it is
in the language of no exclude.
-/
theorem addMatching_selects (extent : ∀ e ∈ expressions, Regex.KeepsExtent (body e)) :
    ((∃ reason, s.addMatching d root expressions = (s, some (.pattern reason))) ↔
      ∃ e ∈ expressions, e ≠ [] ∧ Regex.ofText? (body e) = none) ∧
    ((∀ e ∈ expressions, e ≠ [] → Regex.ofText? (body e) ≠ none) →
      ∃ t, s.addMatching d root expressions = (t, none) ∧
        ∀ place, place ∈ t.places ↔ place ∈ s.places ∨ ∃ names,
          d.IsFileBelow s.settings.followLinks root names place ∧
            Admits expressions (joinSegments names)) := by
  have valid_iff : ∀ e ∈ expressions,
      Regex.ofWhole? (body e) = none ↔ Regex.ofText? (body e) = none :=
    fun e listed => ofWhole?_body_eq_none_iff (extent e listed)
  rw [addMatching]
  rcases ofExpressions_cases expressions with
    ⟨set, compiled, is⟩ | ⟨⟨reason, failed⟩, e, listed, ne, invalid⟩
  · obtain ⟨t, added, places⟩ := exists_addFiles_listing wf s root set
    have valid : ∀ e ∈ expressions, e ≠ [] → Regex.ofText? (body e) ≠ none := by
      intro e listed ne invalid
      obtain ⟨r, whole⟩ := is.valid e listed ne
      cases whole.symm.trans ((valid_iff e listed).mpr invalid)
    rw [compiled]
    dsimp only
    rw [added]
    refine ⟨iff_of_false ?_ ?_, fun _ => ⟨t, rfl, fun place => (places place).trans ?_⟩⟩
    · rintro ⟨reason, same⟩
      cases congrArg Prod.snd same
    · rintro ⟨e, listed, ne, invalid⟩
      exact valid e listed ne invalid
    · simp only [is.acceptsPath_iff extent]
  · rw [failed]
    have invalid := (valid_iff e listed).mp invalid
    exact ⟨iff_of_true ⟨reason, rfl⟩ ⟨e, listed, ne, invalid⟩, fun valid =>
      absurd invalid (valid e listed ne)⟩

end Gathering

/-- Alternatives of a name without its ending and of what is in a directory, and a name without
its ending that is excluded. -/
def halfNames : List Text := ["keep|build/.*", "!build/x"]

/-- Alternatives are those of the expression alone, and whole paths are compared. -/
theorem addMatching_selects_built :
    Disk.built.WellFormed ∧
      (∀ e ∈ halfNames, Regex.KeepsExtent (ExpressionSet.body e)) ∧
      (∀ e ∈ halfNames, e ≠ [] → Regex.ofText? (ExpressionSet.body e) ≠ none) ∧
      ∃ t, (empty .standard).addMatching Disk.built "/" halfNames = (t, none) ∧
        (["build", "x.txt"] : Place) ∈ t.places ∧ (["keep.txt"] : Place) ∉ t.places := by
  have wf := Disk.wellFormed_built
  have extent : ∀ e ∈ halfNames, Regex.KeepsExtent (ExpressionSet.body e) := by decide +kernel
  have valid : ∀ e ∈ halfNames, e ≠ [] → Regex.ofText? (ExpressionSet.body e) ≠ none := by
    decide +kernel
  have led : Disk.built.look .follow "/" = .ok ([], .directory) := rfl
  have plain := Disk.isPlainBelow_built []
  have admits : ExpressionSet.Admits halfNames (joinSegments ["build", "x.txt"]) := by
    have included : (∀ e ∈ halfNames, ¬ExpressionSet.IsInclude e) ∨ ∃ e ∈ halfNames,
        ExpressionSet.IsInclude e ∧
          Regex.InLanguage e (joinSegments ["build", "x.txt"]) := by decide +kernel
    refine ⟨included, fun e excluded => ?_⟩
    have same : e = Text.ofString "build/x" := by
      rcases List.mem_cons.mp excluded with first | second
      · cases first
      · exact (List.cons.inj (List.mem_singleton.mp second)).2
    rw [same]
    decide +kernel
  have misses : ¬((∀ e ∈ halfNames, ¬ExpressionSet.IsInclude e) ∨
      ∃ e ∈ halfNames, ExpressionSet.IsInclude e ∧
        Regex.InLanguage e (joinSegments ["keep.txt"])) := by decide +kernel
  obtain ⟨t, added, places⟩ := (addMatching_selects wf (empty .standard) "/" extent).2 valid
  refine ⟨wf, extent, valid, t, added, (places _).mpr (.inr ⟨["build", "x.txt"], ?_, admits⟩),
    fun inside => ?_⟩
  · exact (Disk.isFileBelow_iff wf led plain).mpr ⟨List.cons_ne_nil _ _, rfl, _, rfl⟩
  · obtain ⟨names, file, admitted⟩ := ((places _).mp inside).resolve_left List.not_mem_nil
    obtain ⟨_, rfl, _⟩ := (Disk.isFileBelow_iff wf led plain).mp file
    exact misses admitted.included

/-- An expression that closes the group around it is not refused, though it is not valid by
itself, and selects by parts of paths; one that ends in a comment is refused, though it is. -/
theorem addMatching_misreads_built :
    Disk.built.WellFormed ∧
      Regex.ofText? "build)|(?:none" = none ∧
      (∃ t, (empty .standard).addMatching Disk.built "/" ["build)|(?:none"] = (t, none) ∧
        (["build", "x.txt"] : Place) ∈ t.places) ∧
      Regex.ofText? "(?x)keep.txt#" ≠ none ∧
      (empty .standard).addMatching Disk.built "/" ["(?x)keep.txt#"] =
        (empty .standard, some (.invalidExpression "(?x)keep.txt#" "regex parse error")) := by
  have wf := Disk.wellFormed_built
  refine ⟨wf, by decide +kernel, ?_, by decide +kernel, by decide +kernel⟩
  obtain ⟨r, whole, found⟩ : ∃ r ∈ Regex.ofWhole? "build)|(?:none",
      r.isFoundIn (joinSegments ["build", "x.txt"]) = true := by decide +kernel
  have compiled : ExpressionSet.ofExpressions ["build)|(?:none"] = .ok ⟨[r], []⟩ := by
    rw [ExpressionSet.ofExpressions, ExpressionSet.compile_eq, whole]
    · rfl
    · exact fun empty => absurd empty (by decide)
    · intro rest marked
      have mark : Text.ofString "b" = ['!'] := congrArg (List.take 1) marked
      exact absurd mark (by decide)
  obtain ⟨t, added, places⟩ := exists_addFiles_listing wf (empty .standard) "/" ⟨[r], []⟩
  rw [addMatching, compiled]
  refine ⟨t, added, (places _).mpr (.inr ⟨["build", "x.txt"], ?_, ?_⟩)⟩
  · exact (Disk.isFileBelow_iff wf rfl (Disk.isPlainBelow_built [])).mpr
      ⟨List.cons_ne_nil _ _, rfl, _, rfl⟩
  · rw [ExpressionSet.acceptsPath, List.any_cons, found]
    rfl

end Selection

end FileSelect
