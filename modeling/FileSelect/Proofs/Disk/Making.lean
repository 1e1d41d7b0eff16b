import FileSelect.Proofs.Disk.Below

/-!
# Making directories

A path can be followed and a directory made wherever a name is missing, so that it leads
to a directory in the end. This is what making the directories of a path comes to,
although it looks at the whole path first and then at one parent after the other. Nothing
else is changed.
-/

namespace FileSelect.Disk

/-! ## Parts of a path -/

/-- Where the parts of a path lead to. -/
def walk (d : Disk) (start : Place) (parts : List Text) : Except Fault Place :=
  trace d .follow linkLimit start (parts.map Step.ofSegment)

section Walk

variable {d : Disk} {start above : Place} {parts : List Text} {name : Name}

theorem walk_concat (d : Disk) (start : Place) (parts : List Text) (part : Text) : ∃ left,
    d.walk start (parts ++ [part]) =
      (d.walk start parts).bind fun above => trace d .follow left above [Step.ofSegment part] := by
  rw [walk, List.map_append]
  exact trace_append d .follow (List.cons_ne_nil _ _) linkLimit start _

theorem walk_concat_error {fault : Fault} (failed : d.walk start parts = .error fault)
    (part : Text) : d.walk start (parts ++ [part]) = .error fault := by
  obtain ⟨left, eq⟩ := walk_concat d start parts part
  rw [eq, failed]
  rfl

/-- What is behind a path starts in a directory that the path leads to. -/
theorem exists_walk_of_concat {part : Text} {place : Place}
    (led : d.walk start (parts ++ [part]) = .ok place) : ∃ above left,
    d.walk start parts = .ok above ∧ d.find? above = some .directory ∧
      Leads d .follow left above [Step.ofSegment part] place := by
  rw [walk, List.map_append] at led
  exact Leads.exists_of_append (List.cons_ne_nil _ _) led

variable (led : d.walk start parts = .ok above) (stands : d.find? above = some .directory)

include led stands

theorem walk_stay : d.walk start (parts ++ [['.']]) = .ok above := by
  obtain ⟨left, eq⟩ := walk_concat d start parts ['.']
  rw [eq, led]
  exact (Leads.stay stands .done).trace_eq

theorem walk_enter (named : IsEntryName name)
    (found : d.find? (above ++ [name]) = some .directory) :
    d.walk start (parts ++ [name]) = .ok (above ++ [name]) := by
  obtain ⟨left, eq⟩ := walk_concat d start parts name
  rw [eq, led, named.ofSegment_eq]
  exact (Leads.enter stands found Node.directory_ne_link .done).trace_eq

theorem walk_free (named : IsEntryName name) (free : d.find? (above ++ [name]) = none) :
    d.walk start (parts ++ [name]) = .error .notFound := by
  obtain ⟨left, eq⟩ := walk_concat d start parts name
  rw [eq, led, named.ofSegment_eq, Except.bind, trace_enter_none d .follow left [] stands free]
  rfl

end Walk

theorem Keeps.walk {d e : Disk} (keeps : d.Keeps e) {start place : Place} {parts : List Text}
    (led : d.walk start parts = .ok place) : e.walk start parts = .ok place :=
  ((leads_of_trace led).keeps keeps (by decide)).trace_eq

/-! ## Making what is missing -/

theorem keeps_put_directory {d : Disk} {above : Place} {name : Name}
    (free : d.find? (above ++ [name]) = none) : d.Keeps (d.put (above ++ [name]) .directory) := by
  refine .put (List.concat_ne_nil name above) fun old found => ?_
  rw [free] at found
  cases found

/-- The parts are followed to a directory, and a directory is made wherever a name is
missing. The last disk is the one with the directories that have been made. -/
inductive Makes (d : Disk) (start : Place) : List Text → Disk → Place → Prop
  | arrived {parts : List Text} {place : Place} :
      d.walk start parts = .ok place → d.find? place = some .directory →
      Makes d start parts d place
  | follow {parts : List Text} {part : Text} {e : Disk} {above place : Place} :
      Makes d start parts e above → e.walk start (parts ++ [part]) = .ok place →
      e.find? place = some .directory → Makes d start (parts ++ [part]) e place
  | make {parts : List Text} {name : Name} {e : Disk} {above : Place} :
      Makes d start parts e above → IsEntryName name → e.find? (above ++ [name]) = none →
      Makes d start (parts ++ [name]) (e.put (above ++ [name]) .directory) (above ++ [name])

namespace Makes

variable {d e : Disk} {start place : Place} {parts : List Text}

theorem stands (makes : Makes d start parts e place) : e.find? place = some .directory := by
  cases makes with
  | arrived _ stands => exact stands
  | follow _ _ stands => exact stands
  | make _ _ _ => rw [find?_put _ (List.concat_ne_nil _ _), if_pos rfl]

theorem wellFormed (wf : d.WellFormed) (makes : Makes d start parts e place) : e.WellFormed := by
  induction makes with
  | arrived _ _ => exact wf
  | follow _ _ _ ih => exact ih
  | make inner named free ih => exact ih.put_free _ _ named inner.stands free .directory

theorem keeps (makes : Makes d start parts e place) : d.Keeps e := by
  induction makes with
  | arrived _ _ => exact .refl d
  | follow _ _ _ ih => exact ih
  | make _ _ free ih => exact ih.trans (keeps_put_directory free)

theorem walk_eq (makes : Makes d start parts e place) : e.walk start parts = .ok place := by
  induction makes with
  | arrived led _ => exact led
  | follow _ led _ _ => exact led
  | make inner named free ih =>
      have kept := keeps_put_directory free
      exact walk_enter (kept.walk ih) (kept.directory inner.stands) named
        (Makes.make inner named free).stands

/-- Only directories have been made, where a beginning of the parts leads to. -/
theorem find?_eq (makes : Makes d start parts e place) (query : Place) :
    e.find? query = d.find? query ∨ d.find? query = none ∧ e.find? query = some .directory ∧
      ∃ front, front <+: parts ∧ e.walk start front = .ok query := by
  induction makes with
  | arrived _ _ => exact .inl rfl
  | follow _ _ _ ih =>
      refine ih.imp_right fun ⟨free, made, front, before, led⟩ => ⟨free, made, front, ?_, led⟩
      exact before.trans (List.prefix_append _ _)
  | @make parts name e above inner named free ih =>
      have whole := Makes.make inner named free
      by_cases same : query = above ++ [name]
      · subst same
        refine .inr ⟨?_, whole.stands, _, List.prefix_refl _, whole.walk_eq⟩
        rcases ih with eq | ⟨missing, _, _⟩
        · rw [← eq, free]
        · exact missing
      · rw [find?_put e (List.concat_ne_nil name above), if_neg same]
        refine ih.imp_right fun ⟨missing, made, front, before, led⟩ =>
          ⟨missing, made, front, before.trans (List.prefix_append parts [name]), ?_⟩
        exact (keeps_put_directory free).walk led

/-- What stands on the first disk has not been replaced. -/
theorem find?_of_find? (makes : Makes d start parts e place) {query : Place} {node : Node}
    (found : d.find? query = some node) : e.find? query = some node := by
  rcases makes.find?_eq query with eq | ⟨free, _, _⟩
  · rw [eq, found]
  · rw [free] at found
    cases found

/-- When something has been made, the parts did not lead anywhere before. -/
theorem same_or_missing (makes : Makes d start parts e place) :
    e = d ∨ d.walk start parts = .error .notFound := by
  induction makes with
  | arrived _ _ => exact .inl rfl
  | follow _ _ _ ih => exact ih.imp_right fun missing => walk_concat_error missing _
  | make inner named free ih =>
      right
      rcases ih with same | missing
      · subst same
        exact walk_free inner.walk_eq inner.stands named free
      · exact walk_concat_error missing _

/-- A path on which something is missing leads nowhere. -/
theorem look_eq {path : Text} (ne : path ≠ [])
    (makes : Makes d (d.startOf path) (segments path) e place) :
    e = d ∨ d.look .follow path = .error .notFound := by
  refine makes.same_or_missing.imp_right fun walked => ?_
  have resolved : d.resolve .follow path = .error .notFound := by
    rw [resolve_eq ne, Step.ofPath]
    split
    · have dotted := walk_concat_error walked ['.']
      rw [walk, List.map_append] at dotted
      exact dotted
    · rw [List.append_nil]
      exact walked
  rw [look, resolved]
  rfl

/-- The last part is followed, or made. -/
theorem exists_before {part : Text} (makes : Makes d start (parts ++ [part]) e place)
    (missing : d.walk start (parts ++ [part]) = .error .notFound) : ∃ f above,
    Makes d start parts f above ∧ (f = e ∨ IsEntryName part ∧
      f.find? (above ++ [part]) = none ∧ e = f.put (above ++ [part]) .directory) := by
  generalize whole : parts ++ [part] = all at makes
  cases makes with
  | arrived led _ =>
      rw [whole, led] at missing
      cases missing
  | follow inner _ _ =>
      obtain ⟨rfl, _⟩ := List.append_inj' whole rfl
      exact ⟨_, _, inner, .inl rfl⟩
  | make inner named free =>
      obtain ⟨rfl, same⟩ := List.append_inj' whole rfl
      obtain rfl := List.singleton_inj.mp same
      exact ⟨_, _, inner, .inr ⟨named, free, rfl⟩⟩

/-- A `.` at the end may be left out. -/
theorem of_stay (makes : Makes d start (parts ++ [['.']]) e place) :
    Makes d start parts e place := by
  generalize whole : parts ++ [['.']] = dotted at makes
  cases makes with
  | arrived led stands =>
      subst whole
      obtain ⟨above, left, walked, _, leads⟩ := exists_walk_of_concat led
      cases leads with
      | stay _ rest =>
          cases rest
          exact .arrived walked stands
  | follow inner led _ =>
      obtain ⟨rfl, same⟩ := List.append_inj' whole rfl
      obtain rfl := List.singleton_inj.mp same
      have walked := walk_stay inner.walk_eq inner.stands
      rw [led] at walked
      cases walked
      exact inner
  | make _ named _ =>
      obtain ⟨_, same⟩ := List.append_inj' whole rfl
      exact absurd (List.singleton_inj.mp same).symm named.here_ne

theorem of_dots {dots : List Text} (dotted : ∀ part ∈ dots, part = ['.'])
    (makes : Makes d start (parts ++ dots) e place) : Makes d start parts e place := by
  induction dots using List.reverseRecOn with
  | nil => rwa [List.append_nil] at makes
  | append_singleton dots part ih =>
      rw [dotted part (List.mem_append_right dots List.mem_cons_self), ← List.append_assoc] at makes
      exact ih (fun other inside => dotted other (List.mem_append_left _ inside)) makes.of_stay

theorem eq_of_nil (makes : Makes d start [] e place) : e = d :=
  makes.same_or_missing.resolve_right fun missing => by
    rw [walk, List.map_nil, trace_nil] at missing
    cases missing

/-- Nothing is made on the way to where one is. -/
theorem eq_of_dot (makes : Makes d start [['.']] e place) : e = d :=
  have dotted : Makes d start ([] ++ [['.']]) e place := makes
  dotted.of_stay.eq_of_nil

end Makes

/-! ## One directory -/

section Making

variable {d : Disk} {path : Text} {place above : Place} {parts : List Text} {name : Name}

theorem makeDirectory_of_leadsInto (into : d.LeadsInto path place) (ne : path ≠ []) :
    d.makeDirectory path = .error .alreadyExists := by
  have slot_fault : ∀ fault, d.slot .alreadyExists path = .error fault →
      d.makeDirectory path = .error fault := by
    intro fault failed
    rw [makeDirectory, failed]
    rfl
  rcases List.eq_nil_or_concat' (segments path) with none | ⟨parts, last, read⟩
  · refine slot_fault _ ?_
    rw [slot, if_neg ne, none]
    rfl
  · have led : d.walk (d.startOf path) (parts ++ [last]) = .ok place := read ▸ into.trace_eq
    obtain ⟨above, left, walked, stands, leads⟩ := exists_walk_of_concat led
    have slot_eq := slot_eq (d := d) read .alreadyExists
    rw [← walk, walked, Except.bind, stands] at slot_eq
    dsimp only at slot_eq
    split at slot_eq
    case isFalse => exact slot_fault _ slot_eq
    case isTrue named =>
      have present : ∃ node, d.find? (above ++ [last]) = some node := by
        rw [named] at leads
        cases leads with
        | enter _ found _ _ => exact ⟨_, found⟩
        | free _ _ create => cases create
        | keep _ found _ => exact ⟨_, found⟩
        | link _ found _ _ _ => exact ⟨_, found⟩
      obtain ⟨node, found⟩ := present
      rw [makeDirectory, slot_eq]
      simp only [bind, Except.bind, found]
      rfl

/-- A directory is made under a name that is free. -/
theorem exists_of_makeDirectory {e : Disk} (made : d.makeDirectory path = .ok e) :
    ∃ parts name above, segments path = parts ++ [name] ∧ IsEntryName name ∧
      d.walk (d.startOf path) parts = .ok above ∧ d.find? above = some .directory ∧
      d.find? (above ++ [name]) = none ∧ e = d.put (above ++ [name]) .directory := by
  obtain ⟨⟨above, name⟩, slot, made⟩ := exists_of_bind_ok made
  obtain ⟨parts, read, named, walked, stands⟩ := exists_of_slot slot
  dsimp only at made
  split at made
  case h_1 => cases made
  case h_2 free =>
    cases made
    exact ⟨parts, name, above, read, named, walked, stands, free, rfl⟩

variable (read : segments path = parts ++ [name])

include read

theorem makeDirectory_of_missing (missing : d.walk (d.startOf path) parts = .error .notFound) :
    d.makeDirectory path = .error .notFound := by
  rw [makeDirectory, slot_eq read, ← walk, missing]
  rfl

theorem makeDirectory_of_free (led : d.walk (d.startOf path) parts = .ok above)
    (named : IsEntryName name) (stands : d.find? above = some .directory)
    (free : d.find? (above ++ [name]) = none) :
    d.makeDirectory path = .ok (d.put (above ++ [name]) .directory) := by
  rw [makeDirectory, slot_of_directory read named led stands]
  simp only [bind, Except.bind, free]
  rfl

end Making

/-! ## The directories of a path -/

/-- What is made on the way to a name is what the parent of the path asks for. -/
theorem Makes.exists_parent {d e : Disk} {path : Text} {above : Place} {parts : List Text}
    {last : Text} (read : segments path = parts ++ [last]) (said : last ≠ ['.'])
    (makes : Makes d (d.startOf path) parts e above) : ∃ up,
    Path.parent? path = some up ∧ (segments up).length ≤ parts.length ∧
      Makes d (d.startOf up) (segments up) e above ∧
      ((segments up).getLast? ≠ some ['.'] ∨ e = d) := by
  obtain ⟨up, dots, parent, absolute, upRead, dotted, last⟩ := Path.exists_parent read said
  have upMakes : Makes d (d.startOf up) (segments up) e above := by
    rw [startOf, startFrom, absolute]
    exact .of_dots dotted (upRead ▸ makes)
  refine ⟨up, parent, ?_, upMakes, last.imp_right fun dot => (dot ▸ upMakes).eq_of_dot⟩
  rw [← upRead, List.length_append]
  exact Nat.le_add_right _ _

theorem ancestors_cases (fuel : Nat) (path : Text) :
    Path.ancestors.go fuel path = [path] ∨ ∃ less up, less < fuel ∧
      Path.parent? path = some up ∧
      Path.ancestors.go fuel path = path :: Path.ancestors.go less up := by
  cases fuel with
  | zero => exact .inl rfl
  | succ fuel =>
      rw [Path.ancestors.go]
      cases parent : Path.parent? path with
      | none => exact .inl rfl
      | some up => exact .inr ⟨fuel, up, Nat.lt_succ_self fuel, rfl, rfl⟩

theorem exists_ancestors_eq (fuel : Nat) (path : Text) :
    ∃ above, Path.ancestors.go fuel path = path :: above := by
  rcases ancestors_cases fuel path with eq | ⟨less, up, _, _, eq⟩
  · exact ⟨_, eq⟩
  · exact ⟨_, eq⟩

theorem makeUpwards_of_leadsInto {d : Disk} {path : Text} {place : Place}
    (into : d.LeadsInto path place) (upwards : List Text) :
    makeUpwards (path :: upwards) d = .ok () d := by
  rw [makeUpwards]
  by_cases ne : path = []
  · rw [if_pos ne]
  · rw [if_neg ne, makeDirectory_of_leadsInto into ne, into.isDirectory ne]
    rfl

section Upwards

variable {d e : Disk} {path : Text} {upwards : List Text} (ne : path ≠ [])

include ne

theorem makeUpwards_of_made (made : d.makeDirectory path = .ok e) :
    makeUpwards (path :: upwards) d = .ok () e := by
  rw [makeUpwards, if_neg ne, made]

variable (missing : d.makeDirectory path = .error .notFound)
variable (made : makeUpwards upwards d = .ok () e)

include missing made

theorem makeUpwards_of_missing {f : Disk} (again : e.makeDirectory path = .ok f) :
    makeUpwards (path :: upwards) d = .ok () f := by
  rw [makeUpwards, if_neg ne]
  simp only [missing, if_true, made, again]

/-- The directories above may have made the path lead to a directory. -/
theorem makeUpwards_of_missing_of_leadsInto {place : Place} (into : e.LeadsInto path place) :
    makeUpwards (path :: upwards) d = .ok () e := by
  rw [makeUpwards, if_neg ne]
  simp only [missing, if_true, made, makeDirectory_of_leadsInto into ne, into.isDirectory ne]

end Upwards

/-- Every directory that is missing is made from its parent, so the induction goes up the
path, and the segments are what there is to go up. -/
theorem makeUpwards_of_makes {d e : Disk} {fuel : Nat} {path : Text} {place : Place}
    (enough : (segments path).length ≤ fuel)
    (makes : Makes d (d.startOf path) (segments path) e place)
    (dotless : (segments path).getLast? ≠ some ['.'] ∨ e = d) :
    makeUpwards (Path.ancestors.go fuel path) d = .ok () e := by
  induction fuel generalizing path e place with
  | zero =>
      have top : segments path = [] := List.eq_nil_of_length_eq_zero (Nat.le_zero.mp enough)
      have same : e = d := (top ▸ makes).eq_of_nil
      subst same
      exact makeUpwards_of_leadsInto ⟨makes.walk_eq, makes.stands⟩ []
  | succ fuel ih =>
      by_cases changed : e = d
      · subst changed
        obtain ⟨upwards, eq⟩ := exists_ancestors_eq (fuel + 1) path
        rw [eq]
        exact makeUpwards_of_leadsInto ⟨makes.walk_eq, makes.stands⟩ upwards
      have missing := makes.same_or_missing.resolve_left changed
      obtain ⟨parts, last, read⟩ := (List.eq_nil_or_concat' (segments path)).resolve_left
        fun none => changed (none ▸ makes).eq_of_nil
      have said : last ≠ ['.'] := by
        rintro rfl
        exact dotless.resolve_right changed (read ▸ List.getLast?_concat)
      obtain ⟨f, above, inner, step⟩ := (read ▸ makes).exists_before (read ▸ missing)
      obtain ⟨up, parent, shorter, upMakes, upDotless⟩ := inner.exists_parent read said
      have upEnough : (segments up).length ≤ fuel := by
        rw [read, List.length_append, List.length_singleton] at enough
        omega
      have made := ih upEnough upMakes upDotless
      have ne : path ≠ [] := by
        rintro rfl
        exact List.concat_ne_nil last parts read.symm
      rw [Path.ancestors.go, parent]
      dsimp only
      rcases inner.same_or_missing with same | before
      · subst same
        obtain ⟨named, free, rfl⟩ := step.resolve_left fun same => changed same.symm
        exact makeUpwards_of_made ne
          (makeDirectory_of_free read inner.walk_eq named inner.stands free)
      · have first := makeDirectory_of_missing read before
        have start : f.startOf path = d.startOf path := by
          rw [startOf, startOf, inner.keeps.working]
        rcases step with rfl | ⟨named, free, rfl⟩
        · exact makeUpwards_of_missing_of_leadsInto ne first made
            ⟨start ▸ makes.walk_eq, makes.stands⟩
        · exact makeUpwards_of_missing ne first made
            (makeDirectory_of_free read (start ▸ inner.walk_eq) named inner.stands free)

/-- The directories of a path are made as far as they are missing. -/
theorem makeDirectories_of_makes {d e : Disk} {path : Text} {place : Place}
    (makes : Makes d (d.startOf path) (segments path) e place)
    (dotless : (segments path).getLast? ≠ some ['.'] ∨ e = d) :
    makeDirectories path d = .ok () e :=
  makeUpwards_of_makes (length_segments_le path) makes dotless

/-- The directories above a name are made as far as they are missing. -/
theorem makeDirectories_parent_of_makes {d e : Disk} {path : Text} {above : Place}
    {parts : List Text} {name : Name} (read : segments path = parts ++ [name])
    (said : name ≠ ['.']) (makes : Makes d (d.startOf path) parts e above) : ∃ up,
    Path.parent? path = some up ∧ makeDirectories up d = .ok () e := by
  obtain ⟨up, parent, _, upMakes, dotless⟩ := makes.exists_parent read said
  exact ⟨up, parent, makeDirectories_of_makes upMakes dotless⟩

/-! ## What can be made -/

/-- A path is made at once, or is there, or is made after those above it. -/
theorem makeUpwards_cons_eq_ok {d e : Disk} {path : Text} {upwards : List Text} (ne : path ≠ [])
    (made : makeUpwards (path :: upwards) d = .ok () e) :
    (d.makeDirectory path = .ok e ∨ d.isDirectory path = true ∧ e = d) ∨
      d.makeDirectory path = .error .notFound ∧ ∃ f, makeUpwards upwards d = .ok () f ∧
        (f.makeDirectory path = .ok e ∨ f.isDirectory path = true ∧ e = f) := by
  have there : ∀ {f : Disk} {fault : Fault},
      (if f.isDirectory path then .ok () f else .error fault f : EStateM.Result Fault Disk Unit) =
        .ok () e → f.isDirectory path = true ∧ e = f := by
    intro f fault made
    split at made
    case isTrue directory =>
      cases made
      exact ⟨directory, rfl⟩
    case isFalse => cases made
  rw [makeUpwards, if_neg ne] at made
  cases first : d.makeDirectory path with
  | ok f =>
      rw [first] at made
      cases made
      exact .inl (.inl rfl)
  | error fault =>
      simp only [first] at made
      split at made
      case isFalse => exact .inl (.inr (there made))
      case isTrue missing =>
        cases above : makeUpwards upwards d with
        | error fault f =>
            rw [above] at made
            cases made
        | ok _ f =>
            rw [above] at made
            refine .inr ⟨missing ▸ rfl, f, rfl, ?_⟩
            cases again : f.makeDirectory path with
            | ok g =>
                simp only [again] at made
                cases made
                exact .inl rfl
            | error fault =>
                simp only [again] at made
                exact .inr (there made)

/-- Where the parts in front of the last one have been made, so is the whole path when it can
be made, or is a directory. -/
theorem Makes.exists_last {d e f : Disk} {path : Text} {above : Place} {parts : List Text}
    {last : Text} (read : segments path = parts ++ [last])
    (makes : Makes d (d.startOf path) parts f above)
    (step : f.makeDirectory path = .ok e ∨ f.isDirectory path = true ∧ e = f) :
    ∃ place, Makes d (d.startOf path) (segments path) e place := by
  have start : f.startOf path = d.startOf path := by rw [startOf, startOf, makes.keeps.working]
  rcases step with made | ⟨directory, rfl⟩
  · obtain ⟨front, name, directory, same, named, walked, _, free, rfl⟩ :=
      exists_of_makeDirectory made
    rw [read] at same
    obtain ⟨rfl, lastEq⟩ := List.append_inj' same rfl
    obtain rfl := List.singleton_inj.mp lastEq
    rw [start, makes.walk_eq] at walked
    obtain rfl := Except.ok.inj walked
    exact ⟨_, read.symm ▸ makes.make named free⟩
  · obtain ⟨place, into⟩ := exists_leadsInto_of_isDirectory directory
    have walked : e.walk (d.startOf path) (parts ++ [last]) = .ok place :=
      read ▸ start ▸ into.trace_eq
    exact ⟨place, read.symm ▸ makes.follow walked into.stands⟩

/-- A `.` more does not matter. -/
theorem Makes.append_dots {d e : Disk} {start place : Place} {parts dots : List Text}
    (dotted : ∀ part ∈ dots, part = ['.']) (makes : Makes d start parts e place) :
    Makes d start (parts ++ dots) e place := by
  induction dots using List.reverseRecOn with
  | nil => rwa [List.append_nil]
  | append_singleton dots part ih =>
      have inner := ih fun other inside => dotted other (List.mem_append_left _ inside)
      rw [dotted part (List.mem_append_right dots List.mem_cons_self), ← List.append_assoc]
      exact .follow inner (walk_stay inner.walk_eq inner.stands) inner.stands

theorem exists_makes_of_first {d e : Disk} {path : Text}
    (step : d.makeDirectory path = .ok e ∨ d.isDirectory path = true ∧ e = d) :
    ∃ place, Makes d (d.startOf path) (segments path) e place := by
  rcases step with made | ⟨directory, rfl⟩
  · obtain ⟨parts, name, above, read, named, walked, stands, free, rfl⟩ :=
      exists_of_makeDirectory made
    have arrived : Makes d (d.startOf path) parts d above := .arrived walked stands
    exact ⟨_, read.symm ▸ arrived.make named free⟩
  · obtain ⟨place, into⟩ := exists_leadsInto_of_isDirectory directory
    exact ⟨place, .arrived into.trace_eq into.stands⟩

section Working

variable {d : Disk} (working : d.find? d.workingPlace = some .directory)

include working

/-- Without parts nothing is made. -/
theorem makes_nil (path : Text) : Makes d (d.startOf path) [] d (d.startOf path) := by
  refine .arrived rfl ?_
  rw [startOf, startFrom]
  split
  · rfl
  · exact working

/-- Only a path whose last part is a name, or leads upwards, may have to wait for others. -/
theorem exists_last_of_missing {path : Text} (ne : path ≠ [])
    (dotless : (segments path).getLast? ≠ some ['.'] ∨ segments path = [['.']])
    (missing : d.makeDirectory path = .error .notFound) : ∃ parts last,
    segments path = parts ++ [last] ∧ last ≠ ['.'] := by
  have start := makes_nil working path
  have there : d.walk (d.startOf path) (segments path) ≠ .ok (d.startOf path) := by
    intro led
    rw [makeDirectory_of_leadsInto ⟨led, start.stands⟩ ne] at missing
    cases missing
  rcases List.eq_nil_or_concat' (segments path) with read | ⟨parts, last, read⟩
  · exact absurd (read ▸ start.walk_eq) there
  refine ⟨parts, last, read, ?_⟩
  rintro rfl
  rcases dotless with dotless | dot
  · exact dotless (read ▸ List.getLast?_concat)
  · exact there (dot ▸ walk_stay start.walk_eq start.stands)

/-- By the ancestors: what the parent asks for has been made before the last part. -/
theorem exists_makes_of_makeUpwards {e : Disk} {fuel : Nat} {path : Text}
    (dotless : (segments path).getLast? ≠ some ['.'] ∨ segments path = [['.']])
    (made : makeUpwards (Path.ancestors.go fuel path) d = .ok () e) :
    ∃ place, Makes d (d.startOf path) (segments path) e place := by
  induction fuel using Nat.strong_induction_on generalizing path e with
  | _ fuel ih =>
      by_cases ne : path = []
      · subst ne
        obtain ⟨upwards, eq⟩ := exists_ancestors_eq fuel []
        rw [eq, makeUpwards, if_pos rfl] at made
        cases made
        exact ⟨_, makes_nil working []⟩
      rcases ancestors_cases fuel path with eq | ⟨less, up, shorter, parent, eq⟩ <;>
        rw [eq] at made <;>
        rcases makeUpwards_cons_eq_ok ne made with first | ⟨missing, f, above, step⟩
      · exact exists_makes_of_first first
      · cases above
      · exact exists_makes_of_first first
      · obtain ⟨parts, last, read, said⟩ := exists_last_of_missing working ne dotless missing
        obtain ⟨_, dots, same, absolute, upRead, dotted, upDotless⟩ :=
          Path.exists_parent read said
        obtain rfl := Option.some.inj (parent.symm.trans same)
        obtain ⟨place, makes⟩ := ih less shorter upDotless above
        have inner := makes.append_dots dotted
        rw [startOf, startFrom, absolute, upRead] at inner
        exact inner.exists_last read step

/-- The directories of a path can be made exactly when the path can be followed to a directory
with every missing name made. -/
theorem makeDirectories_eq_ok_iff {e : Disk} {path : Text}
    (dotless : (segments path).getLast? ≠ some ['.']) :
    makeDirectories path d = .ok () e ↔
      ∃ place, Makes d (d.startOf path) (segments path) e place :=
  ⟨exists_makes_of_makeUpwards working (.inl dotless), fun ⟨_, makes⟩ =>
    makeDirectories_of_makes makes (.inl dotless)⟩

end Working

end FileSelect.Disk
