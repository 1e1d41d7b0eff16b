import FileSelect.Proofs.Disk.Below

/-!
# Disks with less on them

A disk may lack some of the entries of another. A path then leads to where it led, or
nowhere, and it leads nowhere exactly when an entry that it runs through is lacking. A
path that is followed without links, and never upwards, runs through nothing that is not
on the way down to its place.
-/

namespace FileSelect.Disk

/-! ## One entry less -/

/-- What is taken away is not found any more, and everything else as before. -/
theorem find?_erase (d : Disk) {place : Place} (ne : place ≠ []) (query : Place) :
    (d.erase place).find? query = if query = place then none else d.find? query := by
  by_cases top : query = []
  · subst top
    rw [if_neg ne.symm]
    rfl
  · rw [find?_of_ne_nil _ top, find?_of_ne_nil d top, erase]
    by_cases same : query = place
    · rw [if_pos same, same, List.lookup_eq_none_iff]
      intro entry inside
      have other := bne_iff_ne.mp (List.mem_filter.mp inside).2
      exact bne_iff_ne.mpr other.symm
    · rw [if_neg same]
      exact lookup_filter_ne same d.nodes

/-- Something with nothing in it may be taken away. -/
theorem WellFormed.erase {d : Disk} (wf : d.WellFormed) {place : Place} (ne : place ≠ [])
    (vacant : ∀ name, d.find? (place ++ [name]) = none) : (d.erase place).WellFormed := by
  refine ⟨wf.distinct.sublist (List.filter_sublist.map Prod.fst), fun entry inside => ?_⟩
  have old : entry ∈ d.nodes := (List.mem_filter.mp inside).1
  obtain ⟨above, name, eq, named, stands⟩ := wf.inside entry old
  refine ⟨above, name, eq, named, ?_⟩
  rw [find?_erase d ne, if_neg]
  · exact stands
  · rintro rfl
    obtain ⟨other, found⟩ := exists_find?_of_mem_nodes old
    rw [eq, vacant name] at found
    cases found

/-! ## Several entries less -/

/-- The second disk is the first without what stood at some places. -/
structure Lacks (d : Disk) (gone : Place → Prop) (e : Disk) : Prop where
  working : e.workingPlace = d.workingPlace
  free : ∀ {place}, gone place → e.find? place = none
  rest : ∀ {place}, ¬gone place → e.find? place = d.find? place

namespace Lacks

variable {d e f : Disk} {gone others : Place → Prop}

theorem refl (d : Disk) : d.Lacks (fun _ => False) d := ⟨rfl, False.elim, fun _ => rfl⟩

theorem erase (d : Disk) {place : Place} (ne : place ≠ []) :
    d.Lacks (fun query => query = place) (d.erase place) :=
  ⟨rfl, fun same => by rw [find?_erase d ne, if_pos same],
    fun other => by rw [find?_erase d ne, if_neg other]⟩

theorem trans (first : d.Lacks gone e) (second : e.Lacks others f) :
    d.Lacks (fun place => gone place ∨ others place) f := by
  refine ⟨second.working.trans first.working, fun {place} inside => ?_, fun {place} left => ?_⟩
  · by_cases later : others place
    · exact second.free later
    · rw [second.rest later, first.free (inside.resolve_right later)]
  · rw [not_or] at left
    rw [second.rest left.2, first.rest left.1]

/-- It only matters what was there. -/
theorem congr (lacks : d.Lacks gone e)
    (same : ∀ {place node}, d.find? place = some node → (gone place ↔ others place)) :
    d.Lacks others e := by
  have nothing : ∀ {place}, d.find? place = none → e.find? place = none := by
    intro place free
    by_cases was : gone place
    · exact lacks.free was
    · rw [lacks.rest was, free]
  refine ⟨lacks.working, fun {place} inside => ?_, fun {place} left => ?_⟩ <;>
    cases found : d.find? place
  · exact nothing found
  · exact lacks.free ((same found).mpr inside)
  · exact nothing found
  · rw [lacks.rest fun was => left ((same found).mp was), found]

theorem find?_eq_some_iff (lacks : d.Lacks gone e) {place : Place} {node : Node} :
    e.find? place = some node ↔ ¬gone place ∧ d.find? place = some node := by
  by_cases was : gone place
  · rw [lacks.free was]
    exact iff_of_false (fun h => nomatch h) fun h => h.1 was
  · rw [lacks.rest was]
    exact (and_iff_right was).symm

/-- What is left of a disk is there on the disk. -/
theorem keeps (lacks : d.Lacks gone e) : e.Keeps d :=
  ⟨lacks.working.symm, fun found => ⟨_, (lacks.find?_eq_some_iff.mp found).2, .refl _⟩⟩

theorem top (lacks : d.Lacks gone e) : ¬gone [] := fun was => nomatch lacks.free was

end Lacks

/-! ## What is run through -/

/-- The steps lead to the place as long as nothing is missing at the places that are
visited, and nowhere when something is. -/
structure Visits (d : Disk) (last : LastName) (budget : Nat) (here : Place) (steps : List Step)
    (place : Place) (visited : List Place) : Prop where
  kept : ∀ {gone e}, d.Lacks gone e → (∀ query ∈ visited, ¬gone query) →
    trace e last budget here steps = .ok place
  lost : ∀ {gone e}, d.Lacks gone e → (∃ query ∈ visited, gone query) →
    trace e last budget here steps = .error .notFound

section Visits

variable {d : Disk} {last : LastName} {budget : Nat} {here place : Place} {steps : List Step}

/-- What is visited now, and after that. -/
theorem Visits.append {left : Nat} {next : Place} {rest : List Step} {now later : List Place}
    (inner : d.Visits last left next rest place later)
    (lost : ∀ {gone e}, d.Lacks gone e → (∃ query ∈ now, gone query) →
      trace e last budget here steps = .error .notFound)
    (kept : ∀ {gone e}, d.Lacks gone e → (∀ query ∈ now, ¬gone query) →
      trace e last budget here steps = trace e last left next rest) :
    d.Visits last budget here steps place (now ++ later) := by
  refine ⟨fun lacks all => ?_, fun {gone e} lacks absent => ?_⟩
  · obtain ⟨first, others⟩ := List.forall_mem_append.mp all
    rw [kept lacks first, inner.kept lacks others]
  · by_cases first : ∃ query ∈ now, gone query
    · exact lost lacks first
    · obtain ⟨query, inside, was⟩ := absent
      have other := (List.mem_append.mp inside).resolve_left fun inside =>
        first ⟨query, inside, was⟩
      rw [kept lacks fun query inside was => first ⟨query, inside, was⟩,
        inner.lost lacks ⟨query, other, was⟩]

theorem trace_lost_here {e : Disk} {gone : Place → Prop} (lacks : d.Lacks gone e) {step : Step}
    {rest : List Step} (absent : ∃ query ∈ [here], gone query) :
    trace e last budget here (step :: rest) = .error .notFound := by
  obtain ⟨query, inside, was⟩ := absent
  exact trace_of_none e last budget rest step (lacks.free (List.mem_singleton.mp inside ▸ was))

theorem trace_lost_name {e : Disk} {gone : Place → Prop} (lacks : d.Lacks gone e)
    (stands : d.find? here = some .directory) (old : last ≠ .create) {name : Name}
    {rest : List Step} (absent : ∃ query ∈ [here, here ++ [name]], gone query) :
    trace e last budget here (.enter name :: rest) = .error .notFound := by
  by_cases first : gone here
  · exact trace_lost_here lacks ⟨here, List.mem_cons_self, first⟩
  · obtain ⟨query, inside, was⟩ := absent
    obtain rfl : query = here ++ [name] := by
      rcases List.mem_cons.mp inside with rfl | inside
      · exact absurd was first
      · exact List.mem_singleton.mp inside
    rw [trace_enter_none e last budget rest ((lacks.rest first).trans stands) (lacks.free was),
      if_neg fun create => old create.1]

/-- What stands at the places that are visited is there while nothing is missing there. -/
theorem Lacks.find?_of_visited {e : Disk} {gone : Place → Prop} (lacks : d.Lacks gone e)
    {visited : List Place} (all : ∀ query ∈ visited, ¬gone query) {query : Place}
    (inside : query ∈ visited) {node : Node} (found : d.find? query = some node) :
    e.find? query = some node :=
  (lacks.rest (all query inside)).trans found

/-- Where steps lead to something, a finite number of places is visited. -/
theorem Leads.exists_visits (old : last ≠ .create)
    (leads : Leads d last budget here steps place) :
    ∃ visited, d.Visits last budget here steps place visited := by
  induction leads with
  | done => exact ⟨[], fun _ _ => trace_nil _ _ _ _, fun _ none => nomatch none⟩
  | @stay budget here place rest stands _ ih =>
      obtain ⟨visited, inner⟩ := ih
      refine ⟨_, inner.append (trace_lost_here ·) fun {gone e} lacks all => ?_⟩
      exact trace_stay e last budget rest (lacks.find?_of_visited all List.mem_cons_self stands)
  | @up budget here place rest stands _ ih =>
      obtain ⟨visited, inner⟩ := ih
      refine ⟨_, inner.append (trace_lost_here ·) fun {gone e} lacks all => ?_⟩
      exact trace_up e last budget rest (lacks.find?_of_visited all List.mem_cons_self stands)
  | @enter budget here place name node rest stands found plain _ ih =>
      obtain ⟨visited, inner⟩ := ih
      refine ⟨_, inner.append
        (fun lacks => trace_lost_name lacks stands old) fun {gone e} lacks all => ?_⟩
      have outer := lacks.find?_of_visited all List.mem_cons_self stands
      have within := lacks.find?_of_visited all (List.mem_cons_of_mem here List.mem_cons_self) found
      exact trace_enter e last budget rest outer within plain
  | free _ _ create => exact absurd create old
  | @keep budget here name target stands found keep =>
      refine ⟨[here, here ++ [name]], fun {gone e} lacks all => ?_,
        fun lacks => trace_lost_name lacks stands old⟩
      have outer := lacks.find?_of_visited all List.mem_cons_self stands
      have within := lacks.find?_of_visited all (List.mem_cons_of_mem here List.mem_cons_self) found
      rw [trace_enter_link e last budget [] outer within, if_pos ⟨keep, rfl⟩]
  | @link budget here place name target rest stands found followed ne _ ih =>
      obtain ⟨visited, inner⟩ := ih
      refine ⟨_, inner.append
        (fun lacks => trace_lost_name lacks stands old) fun {gone e} lacks all => ?_⟩
      have outer := lacks.find?_of_visited all List.mem_cons_self stands
      have within := lacks.find?_of_visited all (List.mem_cons_of_mem here List.mem_cons_self) found
      rw [trace_enter_link e last _ rest outer within, if_neg followed, follow, if_neg ne]

end Visits

/-! ## Where paths lead to -/

/-- Without what stands at the place, the path does not lead to where it leads. -/
def RunsThrough (d : Disk) (last : LastName) (path : Text) (place : Place) : Prop :=
  (d.erase place).resolve last path ≠ d.resolve last path

/-- What a path runs through is what it visits. -/
theorem Visits.runsThrough_iff {d : Disk} {last : LastName} {path : Text} {place query : Place}
    {visited : List Place}
    (visits : d.Visits last linkLimit (d.startOf path) (Step.ofPath path) place visited)
    (ne : path ≠ []) (top : query ≠ []) : d.RunsThrough last path query ↔ query ∈ visited := by
  have whole := visits.kept (.refl d) fun _ _ => not_false
  rw [RunsThrough, resolve_eq ne, resolve_eq ne, whole]
  constructor
  · intro runs
    by_contra beside
    exact runs (visits.kept (.erase d top) fun other inside same => beside (same ▸ inside))
  · intro inside same
    exact nomatch same.symm.trans (visits.lost (.erase d top) ⟨query, inside, rfl⟩)

namespace Lacks

variable {d e : Disk} {gone : Place → Prop} (lacks : d.Lacks gone e)
variable {last : LastName} (old : last ≠ .create)

include lacks

theorem startOf (path : Text) : e.startOf path = d.startOf path := by
  rw [Disk.startOf, Disk.startOf, lacks.working]

include old

theorem trace_or {budget : Nat} {here place : Place} {steps : List Step}
    (led : trace d last budget here steps = .ok place) :
    trace e last budget here steps = .ok place ∨
      trace e last budget here steps = .error .notFound := by
  obtain ⟨visited, visits⟩ := (leads_of_trace led).exists_visits old
  by_cases absent : ∃ query ∈ visited, gone query
  · exact .inr (visits.lost lacks absent)
  · exact .inl (visits.kept lacks fun query inside was => absent ⟨query, inside, was⟩)

variable {path : Text} {place : Place}

theorem resolve_or (led : d.resolve last path = .ok place) :
    e.resolve last path = .ok place ∨ e.resolve last path = .error .notFound := by
  have ne := ne_nil_of_resolve led
  rw [resolve_eq ne] at led ⊢
  rw [lacks.startOf]
  exact lacks.trace_or old led

/-- On a disk with less on it, a path leads to what it led to, or nowhere. -/
theorem look_or {node : Node} (led : d.look last path = .ok (place, node)) :
    e.look last path = .ok (place, node) ∨ e.look last path = .error .notFound := by
  obtain ⟨resolved, found⟩ := look_eq_ok_iff.mp led
  rcases lacks.resolve_or old resolved with same | missing
  · by_cases was : gone place
    · right
      rw [look, same]
      simp only [bind, Except.bind, lacks.free was]
      rfl
    · exact .inl (look_eq_ok_iff.mpr ⟨same, (lacks.rest was).trans found⟩)
  · right
    rw [look, missing]
    rfl

/-- A path leads to where it led when nothing is missing that it runs through. -/
theorem resolve_eq (led : d.resolve last path = .ok place)
    (apart : ∀ query, gone query → ¬d.RunsThrough last path query) :
    e.resolve last path = .ok place := by
  have ne := ne_nil_of_resolve led
  rw [Disk.resolve_eq ne] at led ⊢
  obtain ⟨visited, visits⟩ := (leads_of_trace led).exists_visits old
  rw [lacks.startOf]
  refine visits.kept lacks fun query inside was => apart query was ?_
  exact (visits.runsThrough_iff ne fun top => lacks.top (top ▸ was)).mpr inside

/-- It leads nowhere when something is missing that it runs through. -/
theorem resolve_lost (led : d.resolve last path = .ok place) {query : Place} (was : gone query)
    (runs : d.RunsThrough last path query) : e.resolve last path = .error .notFound := by
  have ne := ne_nil_of_resolve led
  rw [Disk.resolve_eq ne] at led ⊢
  obtain ⟨visited, visits⟩ := (leads_of_trace led).exists_visits old
  rw [lacks.startOf]
  refine visits.lost lacks ⟨query, ?_, was⟩
  exact (visits.runsThrough_iff ne fun top => lacks.top (top ▸ was)).mp runs

end Lacks

/-! ## Straight down -/

namespace Leads

variable {d e : Disk} {gone : Place → Prop} {last : LastName} {budget : Nat}
variable {here place : Place} {steps : List Step}

theorem raise (leads : Leads d last 0 here steps place) (budget : Nat) :
    Leads d last budget here steps place := by
  generalize none : 0 = left at leads
  induction leads with
  | done => exact .done
  | stay stands _ ih => exact .stay stands (ih none)
  | up stands _ ih => exact .up stands (ih none)
  | enter stands found plain _ ih => exact .enter stands found plain (ih none)
  | free stands free create => exact .free stands free create
  | keep stands found keep => exact .keep stands found keep
  | link _ _ _ _ _ _ => cases none

/-- Where there are no links, none is followed, and a last one would stand for itself. -/
theorem plain (plain : ∀ query target, d.find? query ≠ some (.link target))
    (leads : Leads d .follow budget here steps place) : Leads d .keep 0 here steps place := by
  induction leads with
  | done => exact .done
  | stay stands _ ih => exact .stay stands ih
  | up stands _ ih => exact .up stands ih
  | enter stands found other _ ih => exact .enter stands found other ih
  | free _ _ create => cases create
  | keep _ _ keep => cases keep
  | link _ found _ _ _ _ => exact absurd found (plain _ _)

/-- Without links and steps upwards the place is below. -/
theorem isPrefix (down : .up ∉ steps) (leads : Leads d last 0 here steps place) :
    here <+: place := by
  generalize none : 0 = left at leads
  induction leads with
  | done => exact List.prefix_refl _
  | stay _ _ ih => exact ih (fun up => down (List.mem_cons_of_mem _ up)) none
  | up _ _ _ => exact absurd List.mem_cons_self down
  | @enter _ here _ name _ _ _ _ _ _ ih =>
      exact (List.prefix_append here [name]).trans
        (ih (fun up => down (List.mem_cons_of_mem _ up)) none)
  | @free _ here name _ _ _ => exact List.prefix_append here [name]
  | @keep _ here name _ _ _ _ => exact List.prefix_append here [name]
  | link _ _ _ _ _ _ => cases none

/-- It is enough that nothing is missing on the way down. -/
theorem lacks (lacks : d.Lacks gone e) (old : last ≠ .create) (down : .up ∉ steps)
    (leads : Leads d last 0 here steps place) (kept : ∀ query, query <+: place → ¬gone query) :
    Leads e last 0 here steps place := by
  have start := leads.isPrefix down
  have remains : ∀ {query node}, query <+: place → d.find? query = some node →
      e.find? query = some node := fun onTheWay found =>
    (lacks.rest (kept _ onTheWay)).trans found
  generalize none : 0 = left at leads
  induction leads with
  | done => exact .done
  | stay stands inner ih =>
      exact .stay (remains start stands)
        (ih (fun up => down (List.mem_cons_of_mem _ up)) kept start remains none)
  | up _ _ _ => exact absurd List.mem_cons_self down
  | @enter left here place name node rest stands found plain inner ih =>
      have down := fun up => down (List.mem_cons_of_mem _ up)
      have next := (none.symm ▸ inner).isPrefix down
      exact .enter (remains start stands) (remains next found) plain
        (ih down kept next remains none)
  | free _ _ create => exact absurd create old
  | keep stands found keep =>
      exact .keep (remains start stands) (remains (List.prefix_refl _) found) keep
  | link _ _ _ _ _ _ => cases none

end Leads

/-- A path that is followed straight down runs through what its place is in, and the place. -/
theorem isPrefix_of_runsThrough {d : Disk} {last : LastName} {path : Text} {place query : Place}
    (ne : path ≠ []) (old : last ≠ .create)
    (leads : Leads d last 0 (d.startOf path) (Step.ofPath path) place)
    (down : .up ∉ Step.ofPath path) (runs : d.RunsThrough last path query) : query <+: place := by
  by_contra beside
  have top : query ≠ [] := by
    rintro rfl
    exact beside List.nil_prefix
  refine runs ?_
  have later := leads.lacks (.erase d top) old down fun other onTheWay same =>
    beside (same ▸ onTheWay)
  rw [resolve_eq ne, resolve_eq ne, (leads.raise linkLimit).trace_eq]
  exact (later.raise linkLimit).trace_eq

end FileSelect.Disk
