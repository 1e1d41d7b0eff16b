import FileSelect.Proofs.Disk.Sparing
import FileSelect.Proofs.Selection.Move

/-!
# Moves beside links

A copy reads through links, and a rename takes the link itself. So a move is a copy and then
a deletion of the sources as long as no member has been reached over a link; links may stand
beside the members.
-/

namespace FileSelect

/-- A copy of the same entries gives the same disk, whatever their order was. -/
theorem Disk.Grafted.find?_congr {base e f : Disk} {source target : Place}
    {done : List (List Name)} (first : base.Grafted source target done e)
    (second : base.Grafted source target done f) (place : Place) :
    e.find? place = f.find? place := by
  by_cases below : target <+: place
  · obtain ⟨names, rfl⟩ := below
    by_cases top : names = []
    · rw [top, List.append_nil, first.stands, second.stands]
    · rw [first.inside names top, second.inside names top]
  · rw [first.outside place below, second.outside place below]

namespace Selection

/-- Members that have not been reached over a link are given by different entries. -/
theorem exists_entries_of_direct {d : Disk} {root : Text} {source : Place} (wf : d.WellFormed)
    (led : d.look .follow root = .ok (source, .directory)) {patterns : List Text}
    {settings : Settings} {s : Selection}
    (gathered : s.members.Perm ((empty settings).glob d root patterns).1.members)
    (direct : ∀ m ∈ s.members, m.place = source ++ segments m.relative) :
    ∃ entries : List (List Name), s.members = entries.map (Member.below root source) ∧
      entries.Nodup ∧ ∀ names ∈ entries, d.Holds source names := by
  have each : ∀ m ∈ s.members, m = .below root source (segments m.relative) ∧
      d.Holds source (segments m.relative) := by
    intro m inside
    obtain ⟨names, node, ne, isName, anchor, relative, looked⟩ :=
      exists_names_of_mem_glob wf led (gathered.mem_iff.mp inside)
    have read : segments m.relative = names := relative ▸ segments_joinSegments isName
    have place := direct m inside
    rw [read] at place ⊢
    obtain ⟨resolved, found⟩ := Disk.look_eq_ok_iff.mp looked
    refine ⟨?_, ne, node, place ▸ found, fun link same => ?_⟩
    · obtain ⟨_, _, _⟩ := m
      cases anchor
      cases relative
      cases place
      rfl
    · exact Disk.not_link_of_resolve wf (by decide) resolved link (same ▸ found)
  have members : s.members =
      (s.members.map fun m => segments m.relative).map (Member.below root source) := by
    rw [List.map_map]
    conv_lhs => rw [← List.map_id s.members]
    exact List.map_congr_left fun m inside => (each m inside).1
  have distinct : s.members.Nodup := gathered.nodup_iff.mpr
    ((Reachable.glob d root patterns (.new settings)).isProper.distinct.of_map Member.place)
  exact ⟨_, members, (members ▸ distinct).of_map (Member.below root source),
    List.forall_mem_map.mpr fun m inside => (each m inside).2⟩

section Transfer

variable {d base : Disk} {root destination : Text} {source target : Place}
variable (site : d.TransferSite root source destination target base)

include site

/-- A move leaves the disk that a copy leaves once its sources have been deleted. -/
theorem find?_eq_find?_delete {entries : List (List Name)} {e f g : Disk}
    (present : ∀ names ∈ entries, d.Holds source names)
    (free : ∀ names ∈ entries, ¬d.RunsThrough .follow root (source ++ names))
    (grafted : base.Grafted source target entries e)
    (copied : base.Grafted source target entries g)
    (cleared : g.Lacks (g.AllBelow (entries.map (source ++ ·))) f) (settings : Settings)
    (place : Place) :
    f.find? place = (delete ⟨entries.map (.below root source), settings⟩ e).2.find? place := by
  have holds : ∀ names ∈ entries, e.Holds source names := by
    intro names inside
    obtain ⟨ne, node, found, plain⟩ := site.holds_base present names inside
    exact ⟨ne, node, (grafted.find?_source site names).trans found, plain⟩
  have ways := site.makes.keeps.keepsWays.trans (grafted.keeps site).keepsWays
  have deleted := (delete_below grafted.wellFormed
    ((grafted.leadsInto_source site).look site.root_ne) holds
    (fun names inside => site.not_runsThrough_source ways (holds names inside).1
      (free names inside)) settings).2
  have same := grafted.find?_congr copied
  have all : ∀ place, e.AllBelow (entries.map (source ++ ·)) place ↔
      g.AllBelow (entries.map (source ++ ·)) place := fun place => by
    simp only [Disk.AllBelow, same]
  by_cases was : g.AllBelow (entries.map (source ++ ·)) place
  · rw [cleared.free was, deleted.free ((all place).mpr was)]
  · rw [cleared.rest was, deleted.rest fun below => was ((all place).mp below), same]

end Transfer

/-- A file, and beside it a directory with a link to it. -/
def linkInto : Disk :=
  ((((⟨[], []⟩ : Disk).put ["s"] .directory).put ["s", "x"] (.file (.ofText "x"))).put
    ["s", "d"] .directory).put ["s", "d", "l"] (.link "../x")

/-- Another directory is made beside the one that they are in. -/
theorem transferSite_linkInto :
    linkInto.TransferSite "/s" ["s"] "/out" ["out"] (linkInto.put ["out"] .directory) where
  wellFormed := by
    have wf := Disk.WellFormed.nothing []
    have wf := wf.put_free [] "s" (by decide) rfl rfl .directory
    have wf := wf.put_free ["s"] "x" (by decide) rfl rfl (.file (.ofText "x"))
    have wf := wf.put_free ["s"] "d" (by decide) rfl rfl .directory
    exact wf.put_free ["s", "d"] "l" (by decide) rfl rfl (.link "../x")
  led := rfl
  written := by decide
  makes := by
    have top : linkInto.Makes [] [] linkInto [] := .arrived rfl rfl
    exact top.make (by decide : IsEntryName "out") rfl
  vacant := by decide +kernel
  source_outside := by decide
  target_outside := by decide

theorem glob_linkInto_eq : ((empty .standard).glob linkInto "/s" ["x", "d"]).1 =
    ⟨[.below "/s" ["s"] ["d"], .below "/s" ["s"] ["x"]], .standard⟩ := by decide +kernel

end Selection

end FileSelect
