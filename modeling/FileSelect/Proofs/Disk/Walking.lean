import FileSelect.Proofs.Disk.Listing
import Mathlib.Data.Finset.Card

/-!
# Walks down to files

A walk goes down from a directory and comes to the files in it. Over a followed link it
enters only a directory in which it is not yet, so every walk ends, and the levels of a
listing are enough for all of them. The path that a walk has taken leads to the file that
it has come to.
-/

namespace FileSelect

/-- Names may be written behind a path one after the other or all at once. -/
theorem Path.append_append (directory : Text) {name : Name} {names : List Name} (ne : names ≠ [])
    (isName : ∀ other ∈ name :: names, IsName other) :
    append (append directory name) (joinSegments names) =
      append directory (joinSegments (name :: names)) := by
  obtain ⟨named, namesNamed⟩ := List.forall_mem_cons.mp isName
  have single : ∀ other ∈ [name], IsName other := List.forall_mem_singleton.mpr named
  have noSlash : Text.endsWith ['/'] (append directory name) = false :=
    endsWith_slash_append directory (List.cons_ne_nil name []) single
  have relative : isAbsolute name = false := isAbsolute_joinSegments single
  have joined : joinSegments (name :: names) = name ++ '/' :: joinSegments names := by
    cases names with
    | nil => exact absurd rfl ne
    | cons next rest => exact joinSegments_cons_cons name next rest
  have filled : (append directory name).isEmpty = false := by
    rw [List.isEmpty_eq_false_iff, append, relative, if_neg Bool.false_ne_true]
    split
    · exact List.append_ne_nil_of_right_ne_nil directory named.ne_nil
    · exact List.append_ne_nil_of_right_ne_nil directory (List.cons_ne_nil _ _)
  rw [append, isAbsolute_joinSegments namesNamed, if_neg Bool.false_ne_true, filled, noSlash,
    if_neg (by exact Bool.false_ne_true), append, relative, if_neg Bool.false_ne_true, append,
    isAbsolute_joinSegments isName, if_neg Bool.false_ne_true, joined]
  split
  · rw [List.append_assoc]
  · rw [List.append_assoc, List.cons_append]

namespace Disk

variable {d : Disk} {followLinks : Bool}

/-- The entry `name` of the directory at `here`, which was reached as `path`, is a file, or a
followed link to one; the place is that of the file. -/
inductive ShowsFile (d : Disk) (followLinks : Bool) (path : Text) (here : Place) (name : Name) :
    Place → Prop
  | plain {content : Content} : d.find? (here ++ [name]) = some (.file content) →
      ShowsFile d followLinks path here name (here ++ [name])
  | linked {target : Text} {place : Place} {content : Content} : followLinks = true →
      d.find? (here ++ [name]) = some (.link target) →
      d.look .follow (Path.append path name) = .ok (place, .file content) →
      ShowsFile d followLinks path here name place

/-- The entry `name` opens the directory at a place: its own, or that to which a followed
link leads, when the walk is not in it. -/
inductive Opens (d : Disk) (followLinks : Bool) (above : List Place) (path : Text) (here : Place)
    (name : Name) : Place → Prop
  | plain : d.find? (here ++ [name]) = some .directory →
      Opens d followLinks above path here name (here ++ [name])
  | linked {target : Text} {place : Place} : followLinks = true →
      d.find? (here ++ [name]) = some (.link target) →
      d.look .follow (Path.append path name) = .ok (place, .directory) → place ∉ above →
      Opens d followLinks above path here name place

/-- A walk from the directory at `here`, which was reached as `path` through the directories
`above`, comes over the names to the file at a place. -/
inductive ComesToFile (d : Disk) (followLinks : Bool) :
    List Place → Text → Place → List Name → Place → Prop
  | file {above : List Place} {path : Text} {here file : Place} {name : Name} :
      d.ShowsFile followLinks path here name file →
      ComesToFile d followLinks above path here [name] file
  | inside {above : List Place} {path : Text} {here place file : Place} {name : Name}
      {names : List Name} :
      d.Opens followLinks above path here name place →
      ComesToFile d followLinks (place :: above) (Path.append path name) place names file →
      ComesToFile d followLinks above path here (name :: names) file

/-- A walk from the directory that `root` leads to comes over the names to the file. -/
def IsFileBelow (d : Disk) (followLinks : Bool) (root : Text) (names : List Name) (file : Place) :
    Prop :=
  ∃ place, d.look .follow root = .ok (place, .directory) ∧
    d.ComesToFile followLinks [place] root place names file

theorem ComesToFile.ne_nil {above : List Place} {path : Text} {here file : Place}
    {names : List Name} (comes : d.ComesToFile followLinks above path here names file) :
    names ≠ [] := by
  cases comes <;> exact List.cons_ne_nil _ _

section Entries

variable {above : List Place} {path : Text} {here place : Place} {name : Name}

theorem ShowsFile.exists_find? (shows : d.ShowsFile followLinks path here name place) :
    ∃ node, d.find? (here ++ [name]) = some node := by
  cases shows with
  | plain found => exact ⟨_, found⟩
  | linked _ found _ => exact ⟨_, found⟩

theorem Opens.exists_find? (opens : d.Opens followLinks above path here name place) :
    ∃ node, d.find? (here ++ [name]) = some node := by
  cases opens with
  | plain found => exact ⟨_, found⟩
  | linked _ found _ _ => exact ⟨_, found⟩

theorem sight_eq_directory_iff : d.sight followLinks above path here name = .directory place ↔
    d.Opens followLinks above path here name place := by
  rw [sight]
  constructor
  · intro sees
    split at sees
    case h_1 => cases sees
    case h_2 => cases sees
    case h_3 found =>
      cases sees
      exact .plain found
    case h_4 target found =>
      cases followLinks with
      | false => cases sees
      | true =>
          rw [if_neg (by decide)] at sees
          split at sees
          case h_1 => cases sees
          case h_2 other led =>
            by_cases fresh : other ∈ above
            · rw [if_pos fresh] at sees
              cases sees
            · rw [if_neg fresh] at sees
              cases sees
              exact .linked rfl found led fresh
          case h_3 => cases sees
  · intro opens
    cases opens with
    | plain found => rw [found]
    | linked followed found led fresh => simp [followed, found, led, fresh]

variable (into : d.LeadsInto path here)

include into

/-- A link leads on until it comes to something else. -/
theorem not_link_of_look (wf : d.WellFormed) (named : IsName name) {target : Text} :
    d.look .follow (Path.append path name) ≠ .ok (place, .link target) := by
  intro led
  obtain ⟨resolved, found⟩ := look_eq_ok_iff.mp led
  obtain ⟨left, eq⟩ := into.exists_resolve_append .follow (List.cons_ne_nil name [])
    (List.forall_mem_singleton.mpr named)
  refine (leads_of_trace (eq.symm.trans resolved)).not_link wf (by decide) ?_ target found
  intro other link
  cases into.stands.symm.trans link

theorem sight_eq_file_iff (wf : d.WellFormed) :
    d.sight followLinks above path here name = .file ↔
      ∃ file, d.ShowsFile followLinks path here name file := by
  rw [sight]
  constructor
  · intro sees
    split at sees
    case h_1 => cases sees
    case h_2 found => exact ⟨_, .plain found⟩
    case h_3 => cases sees
    case h_4 target found =>
      cases followLinks with
      | false => cases sees
      | true =>
          rw [if_neg (by decide)] at sees
          split at sees
          case h_1 => cases sees
          case h_2 => split at sees <;> cases sees
          case h_3 result other led =>
            obtain ⟨place, node⟩ := result
            cases node with
            | file content => exact ⟨place, .linked rfl found led⟩
            | link target =>
                exact absurd led (not_link_of_look into wf (wf.find?_above found).1.toIsName)
            | directory => exact absurd rfl (other place)
  · rintro ⟨file, shows⟩
    cases shows with
    | plain found => rw [found]
    | linked followed found led => simp [followed, found, led]

theorem ShowsFile.exists_look (wf : d.WellFormed)
    (shows : d.ShowsFile followLinks path here name place) :
    ∃ content, d.look .follow (Path.append path name) = .ok (place, .file content) := by
  cases shows with
  | plain found =>
      exact ⟨_, into.look_append wf (List.cons_ne_nil name []) found fun _ => nofun⟩
  | linked _ _ led => exact ⟨_, led⟩

theorem Opens.leadsInto (wf : d.WellFormed)
    (opens : d.Opens followLinks above path here name place) :
    d.LeadsInto (Path.append path name) place := by
  cases opens with
  | plain found => exact into.append wf found
  | linked _ _ led _ => exact leadsInto_of_look led

end Entries

/-! ## The files of a listing -/

theorem mem_files_listNames {depth : Nat} {above : List Place} {path : Text} {here : Place}
    {names front whole : List Name} :
    whole ∈ (d.listNames followLinks depth above path here names).files front ↔
      ∃ name ∈ names,
        (d.sight followLinks above path here name = .file ∧ whole = front ++ [name]) ∨
        ∃ place, d.sight followLinks above path here name = .directory place ∧
          whole ∈ (d.listingTo followLinks depth (place :: above) (Path.append path name)
            place).files (front ++ [name]) := by
  induction names with
  | nil => simp [listNames, Listing.files]
  | cons name rest ih =>
      rw [List.exists_mem_cons_iff, ← ih, listNames, List.foldr_cons]
      split <;> rename_i sees <;> simp [sees, Listing.files, listNames]

/-- Down to its depth a listing has the files to which walks come. -/
theorem mem_files_listingTo (wf : d.WellFormed) {depth : Nat} {above : List Place} {path : Text}
    {here : Place} (into : d.LeadsInto path here) {front whole : List Name} :
    whole ∈ (d.listingTo followLinks depth above path here).files front ↔
      ∃ names file, names.length ≤ depth ∧
        d.ComesToFile followLinks above path here names file ∧ whole = front ++ names := by
  induction depth generalizing above path here front with
  | zero =>
      refine iff_of_false List.not_mem_nil ?_
      rintro ⟨names, file, bound, comes, _⟩
      exact comes.ne_nil (List.eq_nil_of_length_eq_zero (Nat.le_zero.mp bound))
  | succ depth ih =>
      rw [listingTo_succ, mem_files_listNames]
      constructor
      · rintro ⟨name, _, ⟨sees, rfl⟩ | ⟨place, sees, deeper⟩⟩
        · obtain ⟨file, shows⟩ := (sight_eq_file_iff into wf).mp sees
          exact ⟨[name], file, by simp, .file shows, rfl⟩
        · have opens := sight_eq_directory_iff.mp sees
          obtain ⟨names, file, bound, comes, rfl⟩ := (ih (opens.leadsInto into wf)).mp deeper
          exact ⟨name :: names, file, Nat.succ_le_succ bound, .inside opens comes,
            List.append_assoc _ _ _⟩
      · rintro ⟨names, file, bound, comes, rfl⟩
        cases comes with
        | @file _ _ _ _ name shows =>
            exact ⟨name, (d.mem_namesInside_iff).mpr shows.exists_find?,
              .inl ⟨(sight_eq_file_iff into wf).mpr ⟨file, shows⟩, rfl⟩⟩
        | @inside _ _ _ place _ name names opens comes =>
            refine ⟨name, (d.mem_namesInside_iff).mpr opens.exists_find?,
              .inr ⟨place, sight_eq_directory_iff.mpr opens, ?_⟩⟩
            exact (ih (opens.leadsInto into wf)).mpr ⟨names, file, Nat.le_of_succ_le_succ bound,
              comes, List.append_cons _ _ _⟩

/-! ## The length of walks -/

/-- The places of the disk that are not among those given. -/
def placesBeside (d : Disk) (above : List Place) : Finset Place :=
  insert [] (d.nodes.map Prod.fst).toFinset \ above.toFinset

section Length

variable {above : List Place} {here place : Place}

theorem mem_placesBeside_iff : place ∈ d.placesBeside above ↔
    (place = [] ∨ place ∈ d.nodes.map Prod.fst) ∧ place ∉ above := by
  simp [placesBeside]

theorem card_placesBeside_cons_le :
    (d.placesBeside (place :: above)).card ≤ (d.placesBeside above).card := by
  refine Finset.card_le_card fun other beside => ?_
  rw [mem_placesBeside_iff] at beside ⊢
  exact ⟨beside.1, fun inside => beside.2 (List.mem_cons_of_mem _ inside)⟩

/-- Fewer places are left when the walk enters one in which it was not. -/
theorem card_placesBeside_cons_lt {node : Node} (found : d.find? place = some node)
    (fresh : place ∉ above) :
    (d.placesBeside (place :: above)).card < (d.placesBeside above).card := by
  have beside : place ∈ d.placesBeside above := by
    refine mem_placesBeside_iff.mpr ⟨?_, fresh⟩
    by_cases top : place = []
    · exact .inl top
    · exact .inr (List.mem_map_of_mem (mem_nodes_of_find? top found))
  refine Finset.card_lt_card ⟨fun other left => ?_, fun all => ?_⟩
  · rw [mem_placesBeside_iff] at left ⊢
    exact ⟨left.1, fun inside => left.2 (List.mem_cons_of_mem _ inside)⟩
  · exact (mem_placesBeside_iff.mp (all beside)).2 List.mem_cons_self

theorem card_placesBeside_nil_le : (d.placesBeside []).card ≤ d.nodes.length + 1 := by
  rw [placesBeside, List.toFinset_nil, Finset.sdiff_empty]
  calc (insert [] (d.nodes.map Prod.fst).toFinset).card
      ≤ (d.nodes.map Prod.fst).toFinset.card + 1 := Finset.card_insert_le _ _
    _ ≤ d.nodes.length + 1 := by
        simpa using Nat.succ_le_succ (List.toFinset_card_le (d.nodes.map Prod.fst))

/-- Between two links a walk goes down one directory by name, and over every link it enters
a place that it was not in. -/
theorem ComesToFile.length_le (wf : d.WellFormed) {path : Text} {file : Place}
    {names : List Name} (comes : d.ComesToFile followLinks above path here names file) :
    names.length ≤
      (d.placesBeside above).card * (d.nodes.length + 1) + (d.nodes.length - here.length) + 1 := by
  induction comes with
  | file _ => exact Nat.succ_le_succ (Nat.zero_le _)
  | @inside above path here place file name names opens _ ih =>
      rw [List.length_cons]
      cases opens with
      | plain found =>
          have deeper := length_le_length_nodes wf found
          have fewer : (d.placesBeside ((here ++ [name]) :: above)).card * (d.nodes.length + 1) ≤
              (d.placesBeside above).card * (d.nodes.length + 1) :=
            Nat.mul_le_mul_right _ card_placesBeside_cons_le
          rw [List.length_append, List.length_singleton] at deeper ih
          omega
      | linked _ _ led fresh =>
          have fewer := Nat.mul_le_mul_right (d.nodes.length + 1)
            (card_placesBeside_cons_lt (look_eq_ok_iff.mp led).2 fresh)
          rw [Nat.succ_mul] at fewer
          omega

end Length

/-! ## Files below a root -/

section Root

variable {root : Text} {names : List Name} {file : Place}

/-- No walk is longer than a listing is deep. -/
theorem mem_files_listing_iff (wf : d.WellFormed) :
    names ∈ (d.listing followLinks root).files [] ↔
      ∃ file, d.IsFileBelow followLinks root names file := by
  constructor
  · intro listed
    rw [listing] at listed
    split at listed
    case h_1 place led =>
      obtain ⟨_, file, _, comes, rfl⟩ := (mem_files_listingTo wf (leadsInto_of_look led)).mp listed
      exact ⟨file, place, led, comes⟩
    case h_2 => cases listed
  · rintro ⟨file, place, led, comes⟩
    rw [listing_eq led]
    refine (mem_files_listingTo wf (leadsInto_of_look led)).mpr ⟨names, file, ?_, comes, rfl⟩
    have fewer := card_placesBeside_cons_lt (look_eq_ok_iff.mp led).2 (List.not_mem_nil (a := place))
    have start : (d.placesBeside [place]).card ≤ d.nodes.length :=
      Nat.le_of_lt_succ (fewer.trans_le card_placesBeside_nil_le)
    calc names.length
        ≤ (d.placesBeside [place]).card * (d.nodes.length + 1) +
            (d.nodes.length - place.length) + 1 := comes.length_le wf
      _ ≤ d.nodes.length * (d.nodes.length + 1) + d.nodes.length + 1 := by
          have := Nat.mul_le_mul_right (d.nodes.length + 1) start
          omega
      _ = d.depthLimit := by rw [depthLimit, Nat.succ_mul, Nat.add_assoc]

variable {above : List Place} {path : Text} {here : Place}

theorem ComesToFile.isName (wf : d.WellFormed)
    (comes : d.ComesToFile followLinks above path here names file) :
    ∀ name ∈ names, IsName name := by
  induction comes with
  | file shows =>
      obtain ⟨_, found⟩ := shows.exists_find?
      exact List.forall_mem_singleton.mpr (wf.find?_above found).1.toIsName
  | inside opens _ ih =>
      obtain ⟨_, found⟩ := opens.exists_find?
      exact List.forall_mem_cons.mpr ⟨(wf.find?_above found).1.toIsName, ih⟩

/-- The path of a walk leads to the file. -/
theorem ComesToFile.exists_look (wf : d.WellFormed) (into : d.LeadsInto path here)
    (comes : d.ComesToFile followLinks above path here names file) : ∃ content,
    d.look .follow (Path.append path (joinSegments names)) = .ok (file, .file content) := by
  induction comes with
  | file shows => exact shows.exists_look into wf
  | @inside above path here place file name names opens comes ih =>
      rw [← Path.append_append path comes.ne_nil ((ComesToFile.inside opens comes).isName wf)]
      exact ih (opens.leadsInto into wf)

end Root

/-! ## Without links -/

theorem ComesToFile.exists_find?_of_plain {above : List Place} {path : Text} {here file : Place}
    {names : List Name} (comes : d.ComesToFile followLinks above path here names file)
    (plain : d.IsPlainBelow here) :
    file = here ++ names ∧ ∃ content, d.find? file = some (.file content) := by
  induction comes with
  | file shows =>
      cases shows with
      | plain found => exact ⟨rfl, _, found⟩
      | linked _ found _ => exact absurd found (plain _ _)
  | inside opens _ ih =>
      cases opens with
      | plain _ =>
          rw [List.append_cons]
          exact ih (plain.append _)
      | linked _ found _ _ => exact absurd found (plain _ _)

theorem comesToFile_of_find? (wf : d.WellFormed) {above : List Place} {path : Text}
    {here : Place} {names : List Name} (ne : names ≠ []) {content : Content}
    (found : d.find? (here ++ names) = some (.file content)) :
    d.ComesToFile followLinks above path here names (here ++ names) := by
  induction names generalizing above path here with
  | nil => exact absurd rfl ne
  | cons name rest ih =>
      by_cases last : rest = []
      · subst last
        exact .file (.plain found)
      · rw [List.append_cons] at found ⊢
        exact .inside (.plain (wf.find?_of_append last found)) (ih last found)

/-- Where there are no links, the files below a root are those that stand below it. -/
theorem isFileBelow_iff (wf : d.WellFormed) {root : Text} {place : Place}
    (led : d.look .follow root = .ok (place, .directory)) (plain : d.IsPlainBelow place)
    {names : List Name} {file : Place} : d.IsFileBelow followLinks root names file ↔
      names ≠ [] ∧ file = place ++ names ∧ ∃ content, d.find? file = some (.file content) := by
  constructor
  · rintro ⟨other, looked, comes⟩
    obtain rfl : place = other := by
      rw [led] at looked
      cases looked
      rfl
    exact ⟨comes.ne_nil, comes.exists_find?_of_plain plain⟩
  · rintro ⟨ne, rfl, _, found⟩
    exact ⟨place, led, comesToFile_of_find? wf ne found⟩

end Disk

end FileSelect
