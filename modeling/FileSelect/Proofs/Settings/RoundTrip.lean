import FileSelect.Proofs.Disk.Sparing
import FileSelect.Proofs.Toml.Document

/-!
# Settings come back as they were saved

The text of any settings is a document of three lines, which are read back to the same
settings. A file that could be saved is found where its path leads to, also when the
directories above it had to be made.
-/

namespace FileSelect

namespace Settings

/-! ## The text -/

theorem isBare_keys : Toml.IsBare excludesKey ∧ Toml.IsBare followKey ∧
    Toml.IsBare compressionKey := by
  have bare {key : Text} (ne : key ≠ []) (all : key.all Toml.isBareKey = true) :
      Toml.IsBare key := ⟨ne, List.all_eq_true.mp all⟩
  exact ⟨bare (by decide) (by decide), bare (by decide) (by decide), bare (by decide) (by decide)⟩

theorem writeStrings_cons (values : List Text) : ∃ rest, writeStrings values = '[' :: rest := by
  match values with
  | [] => exact ⟨_, rfl⟩
  | [_] => exact ⟨_, rfl⟩
  | _ :: _ :: _ => exact ⟨_, rfl⟩

/-- The flag as it is written. -/
theorem readValue?_flag (flag : Bool) (rest : Text) :
    Toml.readValue? Toml.nestingLimit ((if flag then "true" else "false" : Text) ++ rest) =
      some (.boolean flag, rest) := by
  cases flag <;> rfl

/-- The three lines of the document are read one after the other. -/
theorem readDocument?_toToml (s : Settings) : Toml.readDocument? s.toToml =
    some [(excludesKey, .array (s.defaultExcludes.map .string)),
      (followKey, .boolean s.followLinks), (compressionKey, .string s.compression.name)] := by
  obtain ⟨excludes, follow, compression⟩ := isBare_keys
  obtain ⟨text, opens⟩ := writeStrings_cons s.defaultExcludes
  have bracket : Toml.IsSolid '[' := by constructor <;> decide
  have list (rest : Text) : Toml.skipBlanks (writeStrings s.defaultExcludes ++ '\n' :: rest) =
      writeStrings s.defaultExcludes ++ '\n' :: rest := by
    rw [opens]
    exact bracket.skipBlanks_eq _
  have flag (rest : Text) :
      Toml.skipBlanks ((if s.followLinks then "true" else "false" : Text) ++ '\n' :: rest) =
        (if s.followLinks then "true" else "false" : Text) ++ '\n' :: rest := by
    cases s.followLinks <;> rfl
  have quoted (rest : Text) :
      Toml.skipBlanks (Toml.writeString s.compression.name ++ '\n' :: rest) =
        Toml.writeString s.compression.name ++ '\n' :: rest := by
    cases s.compression <;> rfl
  have ends : Toml.EndsQuotes ['\n'] := by constructor <;> decide
  have mark : Toml.dropMark s.toToml = s.toToml := rfl
  obtain ⟨fuel, enough⟩ : ∃ fuel, s.toToml.length + 1 = fuel + 3 := ⟨_, rfl⟩
  rw [Toml.readDocument?, mark, enough, toToml, List.append_assoc,
    Toml.readLines?_pair excludes rfl (list _) (Toml.readValue?_writeStrings 78 _ _),
    Toml.readLines?_pair follow rfl (flag _) (readValue?_flag _ _),
    ← List.append_nil (writePair compressionKey _),
    Toml.readLines?_pair compression rfl (quoted _) (Toml.readValue?_writeString _ _ ends)]
  cases fuel <;> rfl

theorem readStrings?_strings (values : List Text) :
    readStrings? (.array (values.map .string)) = some values := by
  rw [readStrings?]
  induction values with
  | nil => rfl
  | cons value values ih =>
      rw [List.map_cons, List.mapM_cons, ih]
      rfl

theorem readCompression?_name (c : Compression) : readCompression? (.string c.name) = some c := by
  cases c <;> rfl

theorem readKey?_of_get? {α : Type} {entries : Toml.Entries} {key : Text} {value : Toml.Value}
    (found : entries.get? key = some value) (read : Toml.Value → Option α) (standard : α) :
    readKey? entries key read standard = read value := by
  rw [readKey?, found]

theorem ofToml?_toToml (s : Settings) : ofToml? s.toToml = some s := by
  rw [ofToml?, readDocument?_toToml]
  have excludes := readStrings?_strings s.defaultExcludes
  have compression := readCompression?_name s.compression
  rw [Option.bind_eq_bind, Option.bind_some, readKey?_of_get? rfl, excludes, Option.bind_eq_bind,
    Option.bind_some, readKey?_of_get? rfl, Option.bind_eq_bind, readFlag?, Option.bind_some,
    readKey?_of_get? rfl, compression]
  rfl

end Settings

/-! ## The file -/

theorem Content.text?_ofText (t : Text) : (Content.ofText t).text? = some t := by
  have valid := (String.ofList t).isValidUTF8
  have read : String.fromUTF8? (String.ofList t).toUTF8 = some (String.ofList t) := dif_pos valid
  rw [ofText]
  exact (congrArg (Option.map String.toList) read).trans (congrArg some String.toList_ofList)

namespace Disk

variable {d e base : Disk} {path : Text}

/-- A text that has been written is read again. -/
theorem readText_of_writeContent (wf : d.WellFormed) {t : Text}
    (written : d.writeContent path (.ofText t) = .ok e) : e.readText path = .ok t := by
  obtain ⟨place, writes, written⟩ := exists_of_bind_ok written
  cases written
  obtain ⟨_, found, led⟩ := spares_write wf writes (.ofText t)
  have read := readContent_eq_ok_iff.mpr ⟨place, look_eq_ok_iff.mpr ⟨led, found⟩⟩
  rw [readText, read]
  simp only [bind, Except.bind, Content.text?_ofText]
  rfl

/-- The file can be written once the directories above it have been made, which leaves the
disk `base`. -/
structure CanWrite (d : Disk) (path : Text) (base : Disk) : Prop where
  makes : ∃ above, Makes d (d.startOf path) (segments path).dropLast base above
  writes : ∃ place, base.writePlace path = .ok place

end Disk

namespace Settings

variable {d e base : Disk} {path : Text}

/-- Behind the directories, to save is to write the text. -/
theorem save_eq_ok_iff {s : Settings} :
    s.save path d = .ok () e ↔ ∃ f : Disk,
      (Path.parent? path).elim (f = d) (fun above => Disk.makeDirectories above d = .ok () f) ∧
        f.writeContent path (.ofText s.toToml) = .ok e := by
  rw [save]
  cases Path.parent? path with
  | none =>
      simp only [Option.elim_none, exists_eq_left]
      cases d.writeContent path (.ofText s.toToml) with
      | ok g => simp
      | error fault => simp
  | some above =>
      cases made : Disk.makeDirectories above d with
      | error fault f => simp [made]
      | ok _ f =>
          simp only [Option.elim_some, made, EStateM.Result.ok.injEq, true_and, exists_eq_left']
          cases f.writeContent path (.ofText s.toToml) with
          | ok g => simp
          | error fault => simp

/-- What has been saved is loaded. -/
theorem load_of_save {s : Settings} (wf : d.WellFormed) (saved : s.save path d = .ok () e) :
    load e path = .ok s := by
  obtain ⟨f, made, written⟩ := save_eq_ok_iff.mp saved
  have later : f.WellFormed := by
    cases parent : Path.parent? path with
    | none =>
        rw [parent] at made
        exact Eq.symm made ▸ wf
    | some above =>
        rw [parent] at made
        have made : Disk.makeDirectories above d = .ok () f := made
        have spares : d.Spares (fun _ => False) _ := .makeUpwards wf (Path.ancestors above)
        rw [← Disk.makeDirectories, made] at spares
        exact spares.wellFormed
  rw [load, Disk.readText_of_writeContent later written]
  dsimp only
  rw [ofToml?_toToml]

theorem exists_save_of_canWrite (s : Settings) (writable : d.CanWrite path base) :
    ∃ e, s.save path d = .ok () e := by
  obtain ⟨⟨above, makes⟩, place, writes⟩ := writable
  obtain ⟨⟨slot, led⟩, _⟩ := Disk.writePlace_eq_ok_iff.mp writes
  obtain ⟨parts, read, named, _⟩ := Disk.exists_of_slot led
  rw [read, List.dropLast_concat] at makes
  obtain ⟨up, parent, made⟩ := Disk.makeDirectories_parent_of_makes read named.here_ne makes
  have written : base.writeContent path (.ofText s.toToml) =
      .ok (base.put place (.file (.ofText s.toToml))) := by
    rw [Disk.writeContent, writes]
    rfl
  refine ⟨_, save_eq_ok_iff.mpr ⟨base, ?_, written⟩⟩
  rw [parent]
  exact made

/--
Settings are read back from their text as they were, and so they are loaded from the file
they have been saved to. They can be saved wherever a file can be written after the
directories above it have been made.
-/
theorem load_save (s : Settings) :
    ofToml? s.toToml = some s ∧
    (∀ d e path, d.WellFormed → s.save path d = .ok () e → load e path = .ok s) ∧
    ∀ d base path, d.WellFormed → d.CanWrite path base →
      ∃ e, s.save path d = .ok () e ∧ load e path = .ok s := by
  refine ⟨ofToml?_toToml s, fun d e path wf saved => load_of_save wf saved,
    fun d base path wf writable => ?_⟩
  obtain ⟨e, saved⟩ := exists_save_of_canWrite s writable
  exact ⟨e, saved, load_of_save wf saved⟩

/-- Patterns with quotes of both kinds, a backslash, line breaks and a control character. -/
def spelled : Settings :=
  ⟨["", "'''\"\\", "a\n'b\\'", "\"\"\"\r\n\t\x7f", "é*\x00"], false, .stored⟩

/-- They are saved below two directories that are made for them. -/
theorem load_save_spelled :
    (⟨[], []⟩ : Disk).CanWrite "/etc/fileset/config.toml"
      (((⟨[], []⟩ : Disk).put ["etc"] .directory).put ["etc", "fileset"] .directory) ∧
    ∃ e, spelled.save "/etc/fileset/config.toml" ⟨[], []⟩ = .ok () e ∧
      load e "/etc/fileset/config.toml" = .ok spelled := by
  have top : Disk.Makes ⟨[], []⟩ [] [] ⟨[], []⟩ [] := .arrived rfl rfl
  have etc : IsEntryName "etc" := by decide
  have fileset : IsEntryName "fileset" := by decide
  have writable : (⟨[], []⟩ : Disk).CanWrite "/etc/fileset/config.toml"
      (((⟨[], []⟩ : Disk).put ["etc"] .directory).put ["etc", "fileset"] .directory) :=
    ⟨⟨_, (top.make etc rfl).make fileset rfl⟩, ["etc", "fileset", "config.toml"], by decide +kernel⟩
  exact ⟨writable, (load_save spelled).2.2 _ _ _ (.nothing []) writable⟩

end Settings

end FileSelect
