import FileSelect.Proofs.Selection.Places
import FileSelect.Selection.Archive

/-!
# Operations step by step

An operation that succeeds has succeeded in each of its steps, and the disk it leaves is
the disk its last step left, also when it stops with a failure. A transfer that succeeds
gives the selection of the members that were located below its destination.
-/

namespace FileSelect

namespace Operation

variable {α β : Type}

theorem bind_eq (x : Operation α) (f : α → Operation β) (d : Disk) :
    (x >>= f) d =
      match x d with
      | .ok a e => f a e
      | .error failure e => .error failure e := by
  simp only [bind, EStateM.bind]
  cases x d <;> rfl

theorem bind_eq_ok_iff {x : Operation α} {f : α → Operation β} {d after : Disk} {b : β} :
    (x >>= f) d = .ok b after ↔ ∃ a e, x d = .ok a e ∧ f a e = .ok b after := by
  rw [bind_eq]
  cases x d with
  | ok a e => exact ⟨fun h => ⟨a, e, rfl, h⟩, fun ⟨_, _, same, h⟩ => by cases same; exact h⟩
  | error failure e => exact ⟨fun h => (nomatch h), fun ⟨_, _, same, _⟩ => (nomatch same)⟩

theorem read_eq_ok_iff {f : Disk → Except Failure α} {d after : Disk} {a : α} :
    read f d = .ok a after ↔ f d = .ok a ∧ after = d := by
  rw [read]
  cases f d with
  | ok b =>
      constructor
      · rintro ⟨⟩
        exact ⟨rfl, rfl⟩
      · rintro ⟨same, rfl⟩
        cases same
        rfl
  | error failure => exact ⟨fun h => (nomatch h), fun h => (nomatch h.1)⟩

theorem perform_eq_ok_iff {blame : Fault → Failure} {f : Disk.Change Unit} {d e : Disk} :
    perform blame f d = .ok () e ↔ f d = .ok () e := by
  rw [perform]
  cases f d with
  | ok _ other => simp
  | error fault other => exact ⟨fun h => (nomatch h), fun h => (nomatch h)⟩

theorem makeDirectories_eq_ok_iff {path : Text} {d e : Disk} :
    makeDirectories path d = .ok () e ↔ Disk.makeDirectories path d = .ok () e :=
  perform_eq_ok_iff

theorem makeParent_eq_ok {path up : Text} {d e : Disk} (parent : Path.parent? path = some up)
    (made : Disk.makeDirectories up d = .ok () e) : makeParent path d = .ok () e := by
  rw [makeParent, parent]
  exact makeDirectories_eq_ok_iff.mpr made

theorem change_eq_ok_iff {blame : Fault → Failure} {f : Disk → Except Fault Disk} {d e : Disk} :
    change blame f d = .ok () e ↔ f d = .ok e := by
  rw [change]
  cases f d with
  | ok other => simp
  | error fault => exact ⟨fun h => (nomatch h), fun h => (nomatch h)⟩

end Operation

namespace Selection

/-! ## Transfers -/

/-- To copy a directory is to make one. -/
theorem copyMember_directory_iff {destination : Text} {m n : Member} {d e : Disk}
    (directory : m.isDirectory d = true) :
    copyMember destination m d = .ok n e ↔
      Disk.makeDirectories (Path.append destination m.relative) d = .ok () e ∧
        Member.locate e destination m.relative = .ok n := by
  constructor
  · intro copied
    obtain ⟨_, _, got, copied⟩ := Operation.bind_eq_ok_iff.mp copied
    cases got
    rw [if_pos directory] at copied
    obtain ⟨_, _, made, copied⟩ := Operation.bind_eq_ok_iff.mp copied
    obtain ⟨located, rfl⟩ := Operation.read_eq_ok_iff.mp copied
    exact ⟨Operation.makeDirectories_eq_ok_iff.mp made, located⟩
  · rintro ⟨made, located⟩
    refine Operation.bind_eq_ok_iff.mpr ⟨d, d, rfl, ?_⟩
    rw [if_pos directory]
    exact Operation.bind_eq_ok_iff.mpr ⟨(), e, Operation.makeDirectories_eq_ok_iff.mpr made,
      Operation.read_eq_ok_iff.mpr ⟨located, rfl⟩⟩

/-- To copy a file is to make the directory above the copy and to write there. -/
theorem copyMember_file_iff {destination : Text} {m n : Member} {d e : Disk}
    (file : m.isDirectory d = false) :
    copyMember destination m d = .ok n e ↔ ∃ f,
      Operation.makeParent (Path.append destination m.relative) d = .ok () f ∧
        f.copyFile m.path (Path.append destination m.relative) = .ok e ∧
        Member.locate e destination m.relative = .ok n := by
  constructor
  · intro copied
    obtain ⟨_, _, got, copied⟩ := Operation.bind_eq_ok_iff.mp copied
    cases got
    rw [if_neg (Bool.eq_false_iff.mp file)] at copied
    obtain ⟨_, f, made, copied⟩ := Operation.bind_eq_ok_iff.mp copied
    obtain ⟨_, _, changed, copied⟩ := Operation.bind_eq_ok_iff.mp copied
    obtain ⟨located, rfl⟩ := Operation.read_eq_ok_iff.mp copied
    exact ⟨f, made, Operation.change_eq_ok_iff.mp changed, located⟩
  · rintro ⟨f, made, changed, located⟩
    refine Operation.bind_eq_ok_iff.mpr ⟨d, d, rfl, ?_⟩
    rw [if_neg (Bool.eq_false_iff.mp file)]
    refine Operation.bind_eq_ok_iff.mpr ⟨(), f, made, ?_⟩
    exact Operation.bind_eq_ok_iff.mpr ⟨(), e, Operation.change_eq_ok_iff.mpr changed,
      Operation.read_eq_ok_iff.mpr ⟨located, rfl⟩⟩

/-- The member that a step of a transfer gives stands below the destination. -/
theorem located_of_copyMember {destination : Text} {m n : Member} {d after : Disk}
    (copied : copyMember destination m d = .ok n after) :
    Member.locate after destination m.relative = .ok n := by
  cases kind : m.isDirectory d with
  | true => exact ((copyMember_directory_iff kind).mp copied).2
  | false =>
      obtain ⟨_, _, _, located⟩ := (copyMember_file_iff kind).mp copied
      exact located

theorem located_of_moveMember {destination : Text} {m n : Member} {isDirectory : Bool}
    {d after : Disk} (moved : moveMember destination m d = .ok (n, isDirectory) after) :
    Member.locate after destination m.relative = .ok n := by
  rw [moveMember] at moved
  obtain ⟨now, e, _, moved⟩ := Operation.bind_eq_ok_iff.mp moved
  split at moved
  · obtain ⟨_, e, _, moved⟩ := Operation.bind_eq_ok_iff.mp moved
    obtain ⟨n, e, found, result⟩ := Operation.bind_eq_ok_iff.mp moved
    cases result
    obtain ⟨located, rfl⟩ := Operation.read_eq_ok_iff.mp found
    exact located
  · obtain ⟨_, e, _, moved⟩ := Operation.bind_eq_ok_iff.mp moved
    obtain ⟨_, e, _, moved⟩ := Operation.bind_eq_ok_iff.mp moved
    obtain ⟨n, e, found, result⟩ := Operation.bind_eq_ok_iff.mp moved
    cases result
    obtain ⟨located, rfl⟩ := Operation.read_eq_ok_iff.mp found
    exact located

theorem exists_extend_of_transfer {one : Member → Operation Member} {Q : Member → Prop}
    {ms : List Member} (holds : ∀ m ∈ ms, ∀ n d after, one m d = .ok n after → Q n)
    {done t : Selection} {d after : Disk} (run : transfer one done ms d = .ok t after) :
    ∃ ns, t = done.extend ns ∧ ∀ n ∈ ns, Q n := by
  induction ms generalizing done d with
  | nil =>
      cases run
      exact ⟨[], rfl, List.forall_mem_nil Q⟩
  | cons m rest ih =>
      obtain ⟨n, e, first, run⟩ := Operation.bind_eq_ok_iff.mp run
      obtain ⟨ns, eq, each⟩ := ih (fun m inside => holds m (List.mem_cons_of_mem _ inside)) run
      have moved := holds m List.mem_cons_self n d e first
      exact ⟨n :: ns, eq, List.forall_mem_cons.mpr ⟨moved, each⟩⟩

theorem exists_extend_of_moveMembers {destination : Text} {ms left gone : List Member}
    {done t : Selection} {d after : Disk}
    (run : moveMembers destination done left ms d = .ok (t, gone) after) :
    ∃ ns, t = done.extend ns ∧
      ∀ n ∈ ns, ∃ e, ∃ m ∈ ms, Member.locate e destination m.relative = .ok n := by
  induction ms generalizing done left d with
  | nil =>
      cases run
      exact ⟨[], rfl, List.forall_mem_nil _⟩
  | cons m rest ih =>
      obtain ⟨⟨n, isDirectory⟩, e, first, run⟩ := Operation.bind_eq_ok_iff.mp run
      obtain ⟨ns, eq, each⟩ := ih run
      have moved := located_of_moveMember first
      refine ⟨n :: ns, eq,
        List.forall_mem_cons.mpr ⟨⟨e, m, List.mem_cons_self, moved⟩, fun other inside => ?_⟩⟩
      obtain ⟨f, source, sourceIn, located⟩ := each other inside
      exact ⟨f, source, List.mem_cons_of_mem m sourceIn, located⟩

/-- The copies are gathered into an empty selection. -/
theorem exists_extend_of_copyTo {s t : Selection} {destination : Text} {d after : Disk}
    (copied : s.copyTo destination d = .ok t after) :
    ∃ ns, t = (empty s.settings).extend ns ∧
      ∀ n ∈ ns, ∃ e, ∃ m ∈ s.members, Member.locate e destination m.relative = .ok n := by
  obtain ⟨_, e, _, run⟩ := Operation.bind_eq_ok_iff.mp copied
  exact exists_extend_of_transfer
    (fun m inside n d after one => ⟨after, m, inside, located_of_copyMember one⟩) run

theorem exists_extend_of_moveTo {s t : Selection} {destination : Text} {d after : Disk}
    (moved : s.moveTo destination d = .ok t after) :
    ∃ ns, t = (empty s.settings).extend ns ∧
      ∀ n ∈ ns, ∃ e, ∃ m ∈ s.members, Member.locate e destination m.relative = .ok n := by
  obtain ⟨_, e, _, run⟩ := Operation.bind_eq_ok_iff.mp moved
  obtain ⟨⟨moved, left⟩, e, each, run⟩ := Operation.bind_eq_ok_iff.mp run
  obtain ⟨_, e, _, run⟩ := Operation.bind_eq_ok_iff.mp run
  cases run
  exact exists_extend_of_moveMembers each

end Selection

end FileSelect
