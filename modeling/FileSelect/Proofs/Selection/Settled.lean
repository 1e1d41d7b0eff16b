import FileSelect.Proofs.Disk.Settling
import FileSelect.Proofs.Selection.Collision
import FileSelect.Proofs.Selection.Glob
import FileSelect.Proofs.Selection.Sources

/-!
# Copies that do not meet

The look for collisions compares relative paths as they are written. Files are therefore
kept apart only when paths that lead to one place are written alike, and when no path
leads out of the destination. Then every file has a copy of its own, and the copies in an
empty destination meet no source either.
-/

namespace FileSelect

/-! ## Members and their paths -/

namespace Member

/-- The names that the relative path leads down to, unless it leads above its start. -/
def settled? (m : Member) : Option (List Name) := Step.settle [] (Step.ofSegments m.relative)

/-- The member that is found at the relative path below the destination. -/
def copied (e : Disk) (destination : Text) (m : Member) : Member :=
  (locate e destination m.relative).toOption.getD m

theorem copied_eq {e : Disk} {destination : Text} {m n : Member}
    (located : locate e destination m.relative = .ok n) : m.copied e destination = n := by
  rw [copied, located]
  rfl

theorem locate_keeps {d e : Disk} (keeps : d.Keeps e) {anchor relative : Text} {m : Member}
    (located : locate d anchor relative = .ok m) : locate e anchor relative = .ok m := by
  obtain ⟨anchorEq, relativeEq, node, led⟩ := exists_look_of_locate located
  obtain ⟨resolved, found⟩ := Disk.look_eq_ok_iff.mp led
  obtain ⟨other, there, _⟩ := keeps.entry found
  have later := Disk.look_eq_ok_iff.mpr ⟨keeps.resolve (by decide) resolved, there⟩
  rw [Member.path, anchorEq, relativeEq] at later
  rw [locate, later, ← anchorEq, ← relativeEq]

/-- A trimmed path is located as it is. -/
theorem IsTrimmed.exists_look {e : Disk} {destination : Text} {m n : Member}
    (trimmed : m.IsTrimmed) (located : locate e destination m.relative = .ok n) :
    n.path = Path.append destination m.relative ∧ n.relative = m.relative ∧
      ∃ node, e.look .follow (Path.append destination m.relative) = .ok (n.place, node) := by
  have strip : Text.strip isSlash m.relative = m.relative := by
    refine Text.strip_eq_self_iff.mpr ⟨fun c first => ?_, fun c last => ?_⟩
    · rw [isSlash, beq_eq_false_iff_ne]
      exact fun slash => trimmed.head_ne (slash ▸ first)
    · rw [isSlash, beq_eq_false_iff_ne]
      exact fun slash => trimmed.last_ne (slash ▸ last)
  obtain ⟨anchor, relative, node, led⟩ := exists_look_of_locate located
  rw [strip] at relative
  rw [path, anchor, relative] at led
  exact ⟨by rw [path, anchor, relative], relative, node, led⟩

/-- A member that was a directory in the beginning, or is none in the end, is so between. -/
theorem isDirectory_between {d e f : Disk} {m : Member} (first : d.Keeps e) (second : e.Keeps f)
    (same : m.isDirectory f = m.isDirectory d) : m.isDirectory e = m.isDirectory d := by
  cases before : m.isDirectory d with
  | true => exact first.isDirectory before
  | false =>
      rw [before] at same
      exact Bool.eq_false_iff.mpr fun between =>
        Bool.false_ne_true (same.symm.trans (second.isDirectory between))

end Member

namespace Selection

/-! ## Steps that succeed -/

variable {d e f base : Disk} {destination : Text} {target : Place} {m n : Member}

theorem extends_makeParent (wf : d.WellFormed) {path : Text}
    (made : Operation.makeParent path d = .ok () e) : d.Extends e := by
  rw [Operation.makeParent] at made
  cases parent : Path.parent? path with
  | none =>
      rw [parent] at made
      cases made
      exact .refl wf
  | some above =>
      rw [parent] at made
      exact .makeUpwards wf (Operation.makeDirectories_eq_ok_iff.mp made)

theorem extends_copyMember (wf : d.WellFormed)
    (copied : copyMember destination m d = .ok n e) : d.Extends e := by
  cases kind : m.isDirectory d with
  | true => exact .makeUpwards wf ((copyMember_directory_iff kind).mp copied).1
  | false =>
      obtain ⟨f, made, written, _⟩ := (copyMember_file_iff kind).mp copied
      have parent := extends_makeParent wf made
      exact parent.trans (.copyFile parent.wellFormed written)

/-- The copies are the members that are found below the destination in the end. -/
theorem eq_extend_of_transfer {ms : List Member} {done t : Selection} (wf : d.WellFormed)
    (run : transfer (copyMember destination) done ms d = .ok t e) :
    d.Extends e ∧ t = done.extend (ms.map (Member.copied e destination)) ∧
      ∀ m ∈ ms, Member.locate e destination m.relative = .ok (m.copied e destination) := by
  induction ms generalizing done d with
  | nil =>
      cases run
      exact ⟨.refl wf, rfl, List.forall_mem_nil _⟩
  | cons m rest ih =>
      obtain ⟨n, now, first, run⟩ := Operation.bind_eq_ok_iff.mp run
      have step := extends_copyMember wf first
      obtain ⟨later, rfl, each⟩ := ih step.wellFormed run
      have located := Member.locate_keeps later.keeps (located_of_copyMember first)
      have same := Member.copied_eq located
      refine ⟨step.trans later, ?_, List.forall_mem_cons.mpr ⟨by rw [same, located], each⟩⟩
      rw [List.map_cons, same]
      rfl

/-! ## The place of a copy -/

/-- The disk has grown, and the files it had are as they were. -/
structure Stage (d e : Disk) : Prop where
  grows : d.Extends e
  files : ∀ {place content}, d.find? place = some (.file content) →
    e.find? place = some (.file content)

/-- The path behind the destination leads to a file with the content of the source. -/
structure HasCopy (d : Disk) (destination : Text) (m : Member) (place : Place) (e : Disk)
    (content : Content) : Prop where
  led : e.resolve .follow (Path.append destination m.relative) = .ok place
  found : e.find? place = some (.file content)
  same : ∀ source, d.readContent m.path = .ok source → content = source

section Site

variable (site : d.FreshSite destination target base)

include site

/-- Of the files, a step that copies one member writes its copy alone. -/
theorem hasCopy_of_copyMember (stage : Stage d e) (trimmed : m.IsTrimmed)
    (copied : copyMember destination m e = .ok n f) (file : m.isDirectory e = false)
    {names : List Name} (settled : m.settled? = some names) :
    ∃ content, HasCopy d destination m (target ++ names) f content := by
  obtain ⟨g, made, written, _⟩ := (copyMember_file_iff file).mp copied
  have parent := extends_makeParent stage.grows.wellFormed made
  have grown := stage.grows.trans parent
  obtain ⟨place, content, led, found, later⟩ :=
    site.copyFile_eq grown trimmed.head_ne trimmed.last_ne settled written
  refine ⟨_, later, found, fun source read => ?_⟩
  obtain ⟨old, looked⟩ := Disk.readContent_eq_ok_iff.mp read
  obtain ⟨resolved, there⟩ := Disk.look_eq_ok_iff.mp looked
  have apart : target ++ names ≠ old := by
    rintro rfl
    exact site.not_below there fun same => nomatch same
  -- Making the parent leaves files alone, so the source has its content until it is read.
  have kept : g.find? old = some (.file source) := by
    have spares : e.Spares (fun _ => False)
        (Disk.final (Operation.makeParent (Path.append destination m.relative) e)) :=
      Operation.spares_makeParent stage.grows.wellFormed _
    rw [made] at spares
    exact spares.content (stage.files there) fun _ never => never.elim
  obtain ⟨same, now⟩ := Disk.look_eq_ok_iff.mp led
  rw [grown.keeps.resolve (by decide) resolved] at same
  cases same
  rw [kept] at now
  cases now
  rw [if_neg apart]

theorem find?_of_copyMember (stage : Stage d e) (trimmed : m.IsTrimmed)
    (copied : copyMember destination m e = .ok n f)
    (inside : m.isDirectory e = false → ∃ names, m.settled? = some names)
    {place : Place} {content : Content} (found : e.find? place = some (.file content))
    (other : m.isDirectory e = false → ∀ names, m.settled? = some names →
      place ≠ target ++ names) : f.find? place = some (.file content) := by
  have spares := spares_copyMember stage.grows.wellFormed destination m
  rw [copied, Disk.final] at spares
  refine spares.content found ?_
  rintro _ ⟨file, rfl⟩ led
  obtain ⟨names, settled⟩ := inside file
  obtain ⟨_, copy⟩ := hasCopy_of_copyMember site stage trimmed copied file settled
  rw [copy.led] at led
  exact other file names settled (Except.ok.inj led).symm

theorem Stage.copyMember (stage : Stage d e) (trimmed : m.IsTrimmed)
    (copied : copyMember destination m e = .ok n f)
    (inside : m.isDirectory e = false → ∃ names, m.settled? = some names) : Stage d f := by
  refine ⟨stage.grows.trans (extends_copyMember stage.grows.wellFormed copied),
    fun {place content} found => ?_⟩
  refine find?_of_copyMember site stage trimmed copied inside (stage.files found) ?_
  rintro _ names _ rfl
  exact site.not_below found fun same => nomatch same

/-! ## All copies -/

/-- What a row of members has to satisfy for its copies to stay apart. -/
structure Apart (d e : Disk) (ms : List Member) : Prop where
  trimmed : ∀ m ∈ ms, m.IsTrimmed
  kinds : ∀ m ∈ ms, m.isDirectory e = m.isDirectory d
  inside : ∀ m ∈ ms, m.isDirectory d = false → ∃ names, m.settled? = some names
  places : ms.Pairwise fun m n =>
    m.isDirectory d = false → n.isDirectory d = false → m.settled? ≠ n.settled?

omit site in
theorem Apart.tail {ms : List Member} (apart : Apart d e (m :: ms)) : Apart d e ms where
  trimmed n inside := apart.trimmed n (List.mem_cons_of_mem m inside)
  kinds n inside := apart.kinds n (List.mem_cons_of_mem m inside)
  inside n inside := apart.inside n (List.mem_cons_of_mem m inside)
  places := (List.pairwise_cons.mp apart.places).2

/-- By the members that are left: a file stays as it is when no copy settles where it is. -/
theorem find?_of_transfer {ms : List Member} {done t : Selection} (stage : Stage d e)
    (apart : Apart d f ms) (run : transfer (copyMember destination) done ms e = .ok t f)
    {place : Place} {content : Content} (found : e.find? place = some (.file content))
    (other : ∀ m ∈ ms, m.isDirectory d = false → ∀ names, m.settled? = some names →
      place ≠ target ++ names) : f.find? place = some (.file content) := by
  induction ms generalizing done e with
  | nil =>
      cases run
      exact found
  | cons m rest ih =>
      obtain ⟨n, now, first, later⟩ := Operation.bind_eq_ok_iff.mp run
      have trimmed := apart.trimmed m List.mem_cons_self
      have whole := (eq_extend_of_transfer stage.grows.wellFormed run).1
      have kind := Member.isDirectory_between stage.grows.keeps whole.keeps
        (apart.kinds m List.mem_cons_self)
      have inside := kind ▸ apart.inside m List.mem_cons_self
      refine ih (stage.copyMember site trimmed first inside) apart.tail later
        (find?_of_copyMember site stage trimmed first inside found ?_)
        fun n nIn => other n (List.mem_cons_of_mem m nIn)
      exact kind ▸ other m List.mem_cons_self

/-- By the members that are left: each copy is made, and no later one is written over it. -/
theorem exists_hasCopy_of_transfer {ms : List Member} {done t : Selection} (stage : Stage d e)
    (apart : Apart d f ms) (run : transfer (copyMember destination) done ms e = .ok t f)
    (mIn : m ∈ ms) (file : m.isDirectory d = false) {names : List Name}
    (settled : m.settled? = some names) :
    ∃ content, HasCopy d destination m (target ++ names) f content := by
  induction ms generalizing done e with
  | nil => cases mIn
  | cons head rest ih =>
      obtain ⟨n, now, first, later⟩ := Operation.bind_eq_ok_iff.mp run
      have trimmed := apart.trimmed head List.mem_cons_self
      have whole := (eq_extend_of_transfer stage.grows.wellFormed run).1
      have kind := Member.isDirectory_between stage.grows.keeps whole.keeps
        (apart.kinds head List.mem_cons_self)
      have next := stage.copyMember site trimmed first
        (kind ▸ apart.inside head List.mem_cons_self)
      rcases List.mem_cons.mp mIn with rfl | inRest
      · obtain ⟨content, copy⟩ :=
          hasCopy_of_copyMember site stage trimmed first (kind.trans file) settled
        have laterRun := (eq_extend_of_transfer next.grows.wellFormed later).1
        refine ⟨content, laterRun.keeps.resolve (by decide) copy.led, ?_, copy.same⟩
        refine find?_of_transfer site next apart.tail later copy.found ?_
        intro other otherIn otherFile others otherSettled same
        refine (List.pairwise_cons.mp apart.places).1 other otherIn file otherFile ?_
        rw [settled, otherSettled, List.append_cancel_left same]
      · exact ih next apart.tail later inRest

end Site

/-- By the members that are left: what was a directory has one at its path. -/
theorem isDirectory_of_transfer {ms : List Member} {done t : Selection} (wf : d.WellFormed)
    (run : transfer (copyMember destination) done ms d = .ok t e) (mIn : m ∈ ms)
    (trimmed : m.IsTrimmed) (directory : m.isDirectory d = true) :
    e.isDirectory (Path.append destination m.relative) = true := by
  induction ms generalizing done d with
  | nil => cases mIn
  | cons head rest ih =>
      obtain ⟨n, now, first, later⟩ := Operation.bind_eq_ok_iff.mp run
      have step := extends_copyMember wf first
      rcases List.mem_cons.mp mIn with rfl | inRest
      · obtain ⟨made, located⟩ := (copyMember_directory_iff directory).mp first
        obtain ⟨_, _, node, led⟩ := trimmed.exists_look located
        have ne := Disk.ne_nil_of_resolve (Disk.look_eq_ok_iff.mp led).1
        have there := Disk.isDirectory_of_makeDirectories ne made
        exact (eq_extend_of_transfer step.wellFormed later).1.keeps.isDirectory there
      · exact ih step.wellFormed later inRest (step.keeps.isDirectory directory)

/-! ## The copies together -/

/-- The paths of the files never lead above their start, and what settles at one place is
written in one way. -/
structure IsSettled (s : Selection) (d : Disk) : Prop where
  inside : ∀ m ∈ (s.files d).members, ∃ names, m.settled? = some names
  spelled : ∀ m ∈ (s.files d).members, ∀ n ∈ (s.files d).members,
    m.settled? = n.settled? → m.relative = n.relative

theorem mem_files_iff {s : Selection} :
    m ∈ (s.files d).members ↔ m ∈ s.members ∧ m.isDirectory d = false := by
  simp [files]

/-- Files over paths of names alone are settled. -/
theorem IsSettled.of_names {s : Selection}
    (named : ∀ m ∈ s.members, ∃ names, (∀ name ∈ names, IsEntryName name) ∧
      m.relative = joinSegments names) : s.IsSettled d := by
  have settles : ∀ m ∈ (s.files d).members, ∃ names, m.settled? = some names ∧
      m.relative = joinSegments names := by
    intro m inside
    obtain ⟨names, entries, relative⟩ := named m (mem_files_iff.mp inside).1
    refine ⟨names, ?_, relative⟩
    rw [Member.settled?, relative, Step.ofSegments,
      segments_joinSegments fun name nameIn => (entries name nameIn).toIsName]
    exact Step.settle_names entries []
  refine ⟨fun m inside => (settles m inside).imp fun _ => And.left, fun m mIn n nIn same => ?_⟩
  obtain ⟨names, first, relative⟩ := settles m mIn
  obtain ⟨others, second, other⟩ := settles n nIn
  rw [first, second] at same
  rw [relative, other, Option.some.inj same]

/-- What patterns find in a directory without links is settled. -/
theorem isSettled_glob (wf : d.WellFormed) {root : Text} {place : Place}
    (led : d.look .follow root = .ok (place, .directory)) (plain : d.IsPlainBelow place)
    (patterns : List Text) (settings : Settings) :
    (((empty settings).glob d root patterns).1).IsSettled d := by
  refine .of_names fun m inside => ?_
  obtain ⟨names, _, _, found, _, rfl⟩ := (mem_glob_iff wf led plain patterns settings).mp inside
  have entries := wf.isEntryName_of_find? found
  exact ⟨names, fun name nameIn => entries name (List.mem_append_right place nameIn), rfl⟩

/-- Files without collisions stay apart when their paths are settled. -/
theorem IsSettled.apart {s : Selection} (settled : s.IsSettled d) (proper : s.IsProper)
    (kinds : ∀ m ∈ s.members, m.isDirectory e = m.isDirectory d)
    (distinct : ((s.files d).members.map Member.relative).Nodup) : Apart d e s.members where
  trimmed := proper.trimmed
  kinds := kinds
  inside m inside file := settled.inside m (mem_files_iff.mpr ⟨inside, file⟩)
  places := by
    have relatives : (s.files d).members.Pairwise fun m n => m.relative ≠ n.relative :=
      List.pairwise_map.mp distinct
    have apart : (s.files d).members.Pairwise fun m n => m.settled? ≠ n.settled? :=
      relatives.imp_of_mem fun first second ne same => ne (settled.spelled _ first _ second same)
    simpa [files, List.pairwise_filter] using apart

/-- The copies that a copy gives, and how its files stay apart on the way. -/
theorem apart_of_copyTo {s copies : Selection} (wf : d.WellFormed) (reachable : s.Reachable)
    (settled : s.IsSettled d) (copied : s.copyTo destination d = .ok copies e)
    (kinds : ∀ m ∈ s.members, m.isDirectory e = m.isDirectory d) :
    transfer (copyMember destination) (empty s.settings) s.members d = .ok copies e ∧
      ((s.files d).members.map Member.relative).Nodup ∧ Apart d e s.members := by
  obtain ⟨_, here, free, run⟩ := Operation.bind_eq_ok_iff.mp copied
  obtain ⟨noCollision, rfl⟩ := refuseCollision_eq_ok_iff.mp free
  have relatives := collision?_eq_none_iff.mp noCollision
  exact ⟨run, relatives, settled.apart reachable.isProper kinds relatives⟩

/-- A member that still stands is of the same kind after a copy. -/
theorem isDirectory_eq_of_copyTo {s copies : Selection} (wf : d.WellFormed)
    (copied : s.copyTo destination d = .ok copies e) {node : Node}
    (found : d.find? m.place = some node) (plain : ∀ link, node ≠ .link link) :
    m.isDirectory e = m.isDirectory d := by
  obtain ⟨_, here, free, run⟩ := Operation.bind_eq_ok_iff.mp copied
  obtain ⟨_, rfl⟩ := refuseCollision_eq_ok_iff.mp free
  obtain ⟨grows, _, _⟩ := eq_extend_of_transfer wf run
  obtain ⟨other, later, same⟩ := grows.keeps.entry found
  rw [Member.isDirectory_eq wf found plain]
  cases same with
  | file old new =>
      rw [Member.isDirectory_eq grows.wellFormed later (Node.file_ne_link new)]
      rfl
  | link link => exact absurd rfl (plain link)
  | directory => exact Member.isDirectory_eq grows.wellFormed later Node.directory_ne_link

section Copies

variable {s copies : Selection} (site : d.FreshSite destination target base)
variable (reachable : s.Reachable) (settled : s.IsSettled d)
variable (copied : s.copyTo destination d = .ok copies e)
variable (kinds : ∀ m ∈ s.members, m.isDirectory e = m.isDirectory d)

include site reachable settled copied kinds

/-- The copy of a file is a file where its path settles. -/
theorem copy_of_file (inside : m ∈ (s.files d).members) : ∃ names content,
    m.settled? = some names ∧ (m.copied e destination).place = target ++ names ∧
      (m.copied e destination).path = Path.append destination m.relative ∧
      HasCopy d destination m (target ++ names) e content := by
  obtain ⟨run, _, apart⟩ := apart_of_copyTo site.wellFormed reachable settled copied kinds
  obtain ⟨mIn, file⟩ := mem_files_iff.mp inside
  obtain ⟨names, settles⟩ := settled.inside m inside
  have stage : Stage d d := ⟨.refl site.wellFormed, id⟩
  obtain ⟨content, copy⟩ := exists_hasCopy_of_transfer site stage apart run mIn file settles
  obtain ⟨_, _, located⟩ := eq_extend_of_transfer site.wellFormed run
  obtain ⟨path, _, _, led⟩ := (apart.trimmed m mIn).exists_look (located m mIn)
  have there := (Disk.look_eq_ok_iff.mp led).1
  rw [copy.led] at there
  exact ⟨names, content, settles, (Except.ok.inj there).symm, path, copy⟩

/-- A copy is a directory exactly when its member is. -/
theorem isDirectory_copied_eq (mIn : m ∈ s.members) :
    (m.copied e destination).isDirectory e = m.isDirectory d := by
  obtain ⟨run, _, apart⟩ := apart_of_copyTo site.wellFormed reachable settled copied kinds
  obtain ⟨grows, _, located⟩ := eq_extend_of_transfer site.wellFormed run
  have trimmed := apart.trimmed m mIn
  obtain ⟨_, _, node, led⟩ := trimmed.exists_look (located m mIn)
  have found := (Disk.look_eq_ok_iff.mp led).2
  cases kind : m.isDirectory d with
  | true =>
      have directory := isDirectory_of_transfer site.wellFormed run mIn trimmed kind
      rw [Disk.isDirectory, led] at directory
      cases node with
      | directory => exact Member.isDirectory_eq grows.wellFormed found Node.directory_ne_link
      | file content => cases directory
      | link target => cases directory
  | false =>
      obtain ⟨names, content, _, place, _, copy⟩ :=
        copy_of_file site reachable settled copied kinds (mem_files_iff.mpr ⟨mIn, kind⟩)
      have file := copy.found
      rw [← place] at file
      exact Member.isDirectory_eq grows.wellFormed file (Node.file_ne_link content)

/-- Different files have different copies. -/
theorem copied_place_inj (mIn : m ∈ (s.files d).members) (nIn : n ∈ (s.files d).members)
    (same : (m.copied e destination).place = (n.copied e destination).place) : m = n := by
  obtain ⟨_, distinct, _⟩ := apart_of_copyTo site.wellFormed reachable settled copied kinds
  obtain ⟨names, _, settles, place, _⟩ := copy_of_file site reachable settled copied kinds mIn
  obtain ⟨others, _, otherSettles, other, _⟩ :=
    copy_of_file site reachable settled copied kinds nIn
  rw [place, other] at same
  obtain rfl := List.append_cancel_left same
  exact List.inj_on_of_nodup_map distinct mIn nIn
    (settled.spelled m mIn n nIn (settles.trans otherSettles.symm))

/-- The files among the copies are the copies of the files. -/
theorem files_perm_copied :
    (copies.files e).members.Perm ((s.files d).members.map (Member.copied e destination)) := by
  obtain ⟨run, distinct, _⟩ := apart_of_copyTo site.wellFormed reachable settled copied kinds
  obtain ⟨_, rfl, _⟩ := eq_extend_of_transfer site.wellFormed run
  have kind {m : Member} := isDirectory_copied_eq site reachable settled copied kinds (m := m)
  have places := (empty s.settings).nodup_places_extend List.nodup_nil
    (s.members.map (Member.copied e destination))
  refine (List.perm_ext_iff_of_nodup ?_ ?_).mpr fun n => ⟨fun inside => ?_, fun inside => ?_⟩
  · exact (places.sublist (List.filter_sublist.map Member.place)).of_map Member.place
  · refine List.Nodup.map_on (fun m mIn n nIn same => ?_) (distinct.of_map Member.relative)
    exact copied_place_inj site reachable settled copied kinds mIn nIn (congrArg _ same)
  · obtain ⟨nIn, file⟩ := mem_files_iff.mp inside
    obtain ⟨m, mIn, rfl⟩ := List.mem_map.mp (mem_of_mem_extend_empty nIn)
    exact List.mem_map_of_mem (mem_files_iff.mpr ⟨mIn, (kind mIn).symm.trans file⟩)
  · obtain ⟨m, mFile, rfl⟩ := List.mem_map.mp inside
    obtain ⟨mIn, file⟩ := mem_files_iff.mp mFile
    -- The place of the copy is taken, and only the copy itself can have taken it.
    have taken : (m.copied e destination).place ∈
        ((empty s.settings).extend (s.members.map (Member.copied e destination))).places :=
      (mem_places_extend_iff _).mpr
        (.inr (List.mem_map_of_mem (List.mem_map_of_mem mIn)))
    obtain ⟨other, otherIn, same⟩ := List.mem_map.mp taken
    obtain ⟨k, kIn, rfl⟩ := List.mem_map.mp (mem_of_mem_extend_empty otherIn)
    have kFile : k.isDirectory d = false := by
      rw [← kind kIn, Member.isDirectory, Member.placeText, same, ← Member.placeText,
        ← Member.isDirectory, kind mIn, file]
    obtain rfl := copied_place_inj site reachable settled copied kinds
      (mem_files_iff.mpr ⟨kIn, kFile⟩) mFile same
    exact mem_files_iff.mpr ⟨otherIn, (kind mIn).trans file⟩

/--
Files whose paths are settled are copied into an empty directory without meeting each
other: there are as many copies as files, their paths lead to different places, and each
copy has the content that its file had, if that could be read.
-/
theorem copyTo_keeps_files_apart :
    (copies.files e).members.length = (s.files d).members.length ∧
    (∀ m ∈ (s.files d).members, ∀ n ∈ (s.files d).members, m ≠ n →
      e.resolve .follow (Path.append destination m.relative) ≠
        e.resolve .follow (Path.append destination n.relative)) ∧
    ∀ m ∈ (s.files d).members, ∃ n ∈ (copies.files e).members,
      n.path = Path.append destination m.relative ∧ ∃ content,
        e.readContent n.path = .ok content ∧
        ∀ source, d.readContent m.path = .ok source → content = source := by
  have copiesPerm := files_perm_copied site reachable settled copied kinds
  refine ⟨by rw [copiesPerm.length_eq, List.length_map], ?_, ?_⟩
  · intro m mIn n nIn ne same
    obtain ⟨_, _, _, place, _, copy⟩ := copy_of_file site reachable settled copied kinds mIn
    obtain ⟨_, _, _, other, _, otherCopy⟩ :=
      copy_of_file site reachable settled copied kinds nIn
    rw [copy.led, otherCopy.led, ← place, ← other] at same
    exact ne (copied_place_inj site reachable settled copied kinds mIn nIn (Except.ok.inj same))
  · intro m mIn
    obtain ⟨_, content, _, _, path, copy⟩ := copy_of_file site reachable settled copied kinds mIn
    refine ⟨m.copied e destination, copiesPerm.mem_iff.mpr (List.mem_map_of_mem mIn), path, content,
      ?_, copy.same⟩
    rw [path, Disk.readContent_eq_ok_iff]
    exact ⟨_, Disk.look_eq_ok_iff.mpr ⟨copy.led, copy.found⟩⟩

end Copies

theorem wellFormed_twins : twins.WellFormed := by
  have wf := Disk.WellFormed.nothing []
  have wf := wf.put_free [] "a" (by decide) rfl rfl .directory
  have wf := wf.put_free ["a"] "f" (by decide) rfl rfl (.file (.ofText "a"))
  have wf := wf.put_free [] "b" (by decide) rfl rfl .directory
  exact wf.put_free ["b"] "f" (by decide) rfl rfl (.file (.ofText "b"))

/-- A directory can be made beside the two that there are. -/
theorem freshSite_twins :
    twins.FreshSite "/out" ["out"] (twins.put ["out"] .directory) where
  wellFormed := wellFormed_twins
  makes := by
    have top : twins.Makes [] [] twins [] := .arrived rfl rfl
    have out : IsEntryName "out" := by decide
    exact top.make out rfl
  vacant := by decide +kernel

/-- One file below its directory, and one over a longer path that settles elsewhere. -/
def settledTwins : Selection :=
  (((empty .standard).addPath twins "/a" "f").1.addPath twins "/" "b/../b//f").1

/-- Both files are copied. -/
theorem copyTo_keeps_files_apart_twins :
    settledTwins.Reachable ∧ settledTwins.IsSettled twins ∧
    ∃ copies e, settledTwins.copyTo "/out" twins = .ok copies e ∧
      (copies.files e).members.length = 2 ∧
      e.readContent "/out/b/../b//f" = .ok (.ofText "b") := by
  have reachable : settledTwins.Reachable :=
    .addPath twins "/" "b/../b//f" (.addPath twins "/a" "f" (.new .standard))
  have files : (settledTwins.files twins).members =
      [⟨"/a", "f", ["a", "f"]⟩, ⟨"/", "b/../b//f", ["b", "f"]⟩] := by decide +kernel
  have settled : settledTwins.IsSettled twins := by
    have all : ∀ m ∈ (settledTwins.files twins).members, m.settled?.isSome = true ∧
        ∀ n ∈ (settledTwins.files twins).members,
          m.settled? = n.settled? → m.relative = n.relative := by
      rw [files]
      decide
    exact ⟨fun m inside => Option.isSome_iff_exists.mp (all m inside).1,
      fun m mIn n nIn => (all m mIn).2 n nIn⟩
  have succeeds : (match settledTwins.copyTo "/out" twins with
      | .ok _ _ => true
      | .error _ _ => false) = true := by decide +kernel
  have standing : ∀ m ∈ settledTwins.members, ∃ content,
      twins.find? m.place = some (.file content) := by
    have members : settledTwins.members =
        [⟨"/a", "f", ["a", "f"]⟩, ⟨"/", "b/../b//f", ["b", "f"]⟩] := by decide +kernel
    rw [members]
    exact List.forall_mem_cons.mpr ⟨⟨_, rfl⟩, List.forall_mem_singleton.mpr ⟨_, rfl⟩⟩
  refine ⟨reachable, settled, ?_⟩
  cases copied : settledTwins.copyTo "/out" twins with
  | error failure e =>
      rw [copied] at succeeds
      cases succeeds
  | ok copies e =>
      have kinds : ∀ m ∈ settledTwins.members, m.isDirectory e = m.isDirectory twins := by
        intro m inside
        obtain ⟨content, found⟩ := standing m inside
        exact isDirectory_eq_of_copyTo wellFormed_twins copied found (Node.file_ne_link content)
      obtain ⟨count, _, each⟩ :=
        copyTo_keeps_files_apart freshSite_twins reachable settled copied kinds
      rw [files] at count each
      obtain ⟨n, _, path, content, read, same⟩ :=
        each ⟨"/", "b/../b//f", ["b", "f"]⟩ (by decide)
      rw [path, same (.ofText "b") rfl] at read
      exact ⟨copies, e, rfl, count, read⟩

/-- The two files, one of them over a path that settles where the other does. -/
def meetingTwins : Selection :=
  (((empty .standard).addPath twins "/a" "f").1.addPath twins "/b" "./f").1

/-- A file over a path that leads out of its directory and back. -/
def strayTwin : Selection := ((empty .standard).addPath twins "/a" "../a/f").1

/-- Of two files one is lost, and a file on a path out of the destination is emptied. -/
theorem copyTo_merges_files_twins :
    twins.FreshSite "/out" ["out"] (twins.put ["out"] .directory) ∧
    (meetingTwins.Reachable ∧ (meetingTwins.files twins).members.length = 2 ∧
      (EStateM.run' (meetingTwins.copyTo "/out") twins).map relativePaths =
        some [Text.ofString "f"] ∧
      (Disk.final (meetingTwins.copyTo "/out" twins)).readText "/out/f" = .ok "b") ∧
    strayTwin.Reachable ∧ twins.readText "/a/f" = .ok "a" ∧
      (EStateM.run' (strayTwin.copyTo "/out") twins).map relativePaths =
        some [Text.ofString "../a/f"] ∧
      (Disk.final (strayTwin.copyTo "/out" twins)).readText "/out/../a/f" = .ok "" := by
  refine ⟨freshSite_twins, ⟨.addPath twins "/b" "./f" (.addPath twins "/a" "f" (.new .standard)),
    ?_⟩, .addPath twins "/a" "../a/f" (.new .standard), ?_⟩
  · decide +kernel
  · decide +kernel

end Selection

end FileSelect
