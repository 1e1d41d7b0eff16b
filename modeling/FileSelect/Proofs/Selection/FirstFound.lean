import FileSelect.Proofs.Scan.Order
import FileSelect.Proofs.Selection.Places
import FileSelect.Proofs.Text.Sorting

/-!
# The entry that is kept

A scan finds its entries in ascending order, and gathering adds them one after the other. So
of the entries that lead to one place the first in this order becomes the member there,
unless the place was taken before, and what follows an entry that cannot be located is not
added any more.
-/

namespace FileSelect

/-- The first element meets the condition, or is passed and the rest is searched. -/
theorem exists_cut_cons_iff {α : Type} {meets passes : α → Prop} {a : α} {rest : List α} :
    (∃ before b after, a :: rest = before ++ b :: after ∧ meets b ∧ ∀ c ∈ before, passes c) ↔
      meets a ∨ passes a ∧
        ∃ before b after, rest = before ++ b :: after ∧ meets b ∧ ∀ c ∈ before, passes c := by
  constructor
  · rintro ⟨before, b, after, eq, met, passed⟩
    cases before with
    | nil =>
        obtain ⟨rfl, -⟩ := List.cons.inj eq
        exact .inl met
    | cons _ before =>
        obtain ⟨rfl, rfl⟩ := List.cons.inj eq
        obtain ⟨first, passed⟩ := List.forall_mem_cons.mp passed
        exact .inr ⟨first, before, b, after, rfl, met, passed⟩
  · rintro (met | ⟨first, before, b, after, rfl, met, passed⟩)
    · exact ⟨[], a, rest, rfl, met, List.forall_mem_nil _⟩
    · exact ⟨a :: before, b, after, rfl, met, List.forall_mem_cons.mpr ⟨first, passed⟩⟩

namespace Selection

/-- An entry becomes a member if every entry before it is located, and at other places. -/
theorem mem_addFound_iff (s : Selection) (d : Disk) (found : List Found) {m : Member} :
    m ∈ (s.addFound d found).1.members ↔ m ∈ s.members ∨ m.place ∉ s.places ∧
      ∃ before f after, found = before ++ f :: after ∧
        Member.locate d f.directory f.relative = .ok m ∧
        ∀ g ∈ before, ∃ n, Member.locate d g.directory g.relative = .ok n ∧
          n.place ≠ m.place := by
  induction found generalizing s with
  | nil => simp [addFound]
  | cons first rest ih =>
      rw [addFound, exists_cut_cons_iff]
      cases located : Member.locate d first.directory first.relative with
      | error failure => simp
      | ok n =>
          have here : (Except.ok n : Except Failure Member) = .ok m ↔ m = n := by
            rw [Except.ok.injEq, eq_comm]
          have away : (∃ k, (Except.ok n : Except Failure Member) = .ok k ∧ k.place ≠ m.place) ↔
              m.place ≠ n.place := by
            simp [eq_comm]
          dsimp only
          rw [ih, mem_insert_iff, mem_places_insert_iff, not_or, here, away, and_or_left,
            and_assoc, or_assoc]

/-- What a scan returns ascends, so that nothing is returned twice and a directory comes before
what is inside. Of the entries that lead to one free place the first becomes the member. -/
theorem scan_ascending {d : Disk} (wf : d.WellFormed) {root : Text} {patterns : List Text}
    {s : Selection} {found : List Found}
    (scanned : Query.scan d root patterns s.settings = .ok found) :
    (found.map fun f => segments f.relative).Pairwise Precedes ∧
    (found.map Found.relative).Nodup ∧
    (∀ f ∈ found, ∀ g ∈ found, f ≠ g → segments f.relative <+: segments g.relative →
      [f, g].Sublist found) ∧
    ∀ m, m ∈ (s.glob d root patterns).1.members ↔ m ∈ s.members ∨ m.place ∉ s.places ∧
      ∃ f ∈ found, Member.locate d f.directory f.relative = .ok m ∧
        ∀ g ∈ found, Precedes (segments g.relative) (segments f.relative) →
          ∃ n, Member.locate d g.directory g.relative = .ok n ∧ n.place ≠ m.place := by
  obtain ⟨q, compiled, ran⟩ := exists_of_map_ok scanned
  have sorted := Query.pairwise_run wf q s.settings.followLinks
  rw [ran] at sorted
  have ascending : (found.map fun f => segments f.relative).Pairwise Precedes :=
    List.pairwise_map.mpr sorted
  have distinct : (found.map fun f => segments f.relative).Nodup := by
    refine ascending.imp fun {path other} before => ?_
    rintro rfl
    exact Precedes.irrefl path before
  refine ⟨ascending, ?_, ?_, fun m => ?_⟩
  · rw [← Function.comp_def segments, ← List.map_map] at distinct
    exact distinct.of_map segments
  · rintro f fIn g gIn differ ⟨more, eq⟩
    have below : more ≠ [] := by
      rintro rfl
      rw [List.append_nil] at eq
      exact differ (List.inj_on_of_nodup_map distinct fIn gIn eq)
    obtain ⟨before, after, rfl⟩ := List.append_of_mem gIn
    have front : f ∈ before := (mem_front_iff (fun _ _ => Precedes.asymm) sorted).mpr
      ⟨fIn, eq ▸ Precedes.extension _ below⟩
    exact (List.singleton_sublist.mpr front).append
      (List.singleton_sublist.mpr List.mem_cons_self)
  · rw [glob, compiled, addQuery, ran, mem_addFound_iff]
    refine or_congr_right (and_congr_right fun _ => ⟨?_, ?_⟩)
    · rintro ⟨before, f, after, rfl, led, reached⟩
      refine ⟨f, List.mem_append_right before List.mem_cons_self, led,
        fun g inside smaller => reached g ?_⟩
      exact (mem_front_iff (fun _ _ => Precedes.asymm) sorted).mpr ⟨inside, smaller⟩
    · rintro ⟨f, inside, led, reached⟩
      obtain ⟨before, after, rfl⟩ := List.append_of_mem inside
      refine ⟨before, f, after, rfl, led, fun g front => ?_⟩
      obtain ⟨inside, smaller⟩ := (mem_front_iff (fun _ _ => Precedes.asymm) sorted).mp front
      exact reached g inside smaller

/-- A directory with a file in it, and beside it a link to the file with a name that goes on. -/
def dashed : Disk :=
  (((⟨[], []⟩ : Disk).put ["a"] .directory).put ["a", "b"] (.file .empty)).put ["a-b"]
    (.link "a/b")

theorem wellFormed_dashed : dashed.WellFormed := by
  have wf := Disk.WellFormed.nothing []
  have wf := wf.put_free [] "a" (by decide) rfl rfl .directory
  have wf := wf.put_free ["a"] "b" (by decide) rfl rfl (.file .empty)
  exact wf.put_free [] "a-b" (by decide) rfl rfl (.link "a/b")

/-- The file is found before the link and becomes the member at its place, although the path
of the link is the smaller text. -/
theorem scan_ascending_dashed :
    dashed.WellFormed ∧
    Query.scan dashed "/" ["**"] .standard =
      .ok [⟨"/", "a", true⟩, ⟨"/", "a/b", false⟩, ⟨"/", "a-b", false⟩] ∧
    Text.order "a-b" "a/b" = .lt ∧
    [⟨"/", "a", true⟩, ⟨"/", "a/b", false⟩].Sublist
      [(⟨"/", "a", true⟩ : Found), ⟨"/", "a/b", false⟩, ⟨"/", "a-b", false⟩] ∧
    ⟨"/", "a/b", ["a", "b"]⟩ ∈ ((empty .standard).glob dashed "/" ["**"]).1.members ∧
    ⟨"/", "a-b", ["a", "b"]⟩ ∉ ((empty .standard).glob dashed "/" ["**"]).1.members := by
  have wf := wellFormed_dashed
  have scanned : Query.scan dashed "/" ["**"] (empty .standard).settings =
      .ok [⟨"/", "a", true⟩, ⟨"/", "a/b", false⟩, ⟨"/", "a-b", false⟩] := by decide +kernel
  obtain ⟨_, _, parents, kept⟩ := scan_ascending wf scanned
  have smaller : Precedes (segments "a/b") (segments "a-b") :=
    .rel (by decide : Text.bytes "a" < Text.bytes "a-b")
  refine ⟨wf, scanned, by decide, ?_, ?_, fun member => ?_⟩
  · exact parents _ (by simp) _ (by simp) (by decide) (by decide)
  · refine (kept _).mpr (.inr ⟨List.not_mem_nil, ⟨"/", "a/b", false⟩, by simp, rfl, ?_⟩)
    refine List.forall_mem_cons.mpr ⟨fun _ => ⟨⟨"/", "a", ["a"]⟩, rfl, by decide⟩,
      List.forall_mem_cons.mpr ⟨fun same => absurd same (Precedes.irrefl _),
      List.forall_mem_singleton.mpr fun before => absurd before smaller.asymm⟩⟩
  · rcases (kept _).mp member with old | ⟨_, f, inside, led, reached⟩
    · cases old
    · simp only [List.mem_cons, List.not_mem_nil, or_false] at inside
      rcases inside with rfl | rfl | rfl
      · cases led
      · cases led
      · obtain ⟨n, led, other⟩ := reached ⟨"/", "a/b", false⟩ (by simp) smaller
        cases led
        exact other rfl

end Selection

end FileSelect
