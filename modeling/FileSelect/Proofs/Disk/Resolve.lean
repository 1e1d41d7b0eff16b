import FileSelect.Proofs.Disk.Table

/-!
# Following steps

A path is followed one step after the other: what comes behind some steps is taken from
where these lead to, with the links that are left. Names that lead through directories
are taken as they are, and a path leads to the same place on every disk that keeps its
entries.
-/

namespace FileSelect

theorem Step.ofPath_ne_nil {path : Text} (ne : path ≠ []) : Step.ofPath path ≠ [] := by
  intro none
  obtain ⟨noParts, noEnd⟩ := List.append_eq_nil_iff.mp none
  have parts := List.map_eq_nil_iff.mp noParts
  cases cut : Text.splitLast? '/' path with
  | none =>
      rw [segments_of_isName ⟨ne, Text.splitLast?_eq_none_iff.mp cut⟩] at parts
      exact List.cons_ne_nil path [] parts
  | some found =>
      obtain ⟨above, last⟩ := found
      obtain ⟨rfl, free⟩ := Text.splitLast?_eq_some_iff.mp cut
      by_cases empty : last = []
      · subst empty
        rw [if_pos (endsWith_slash_iff.mpr ⟨above, rfl⟩)] at noEnd
        exact List.cons_ne_nil _ _ noEnd
      · rw [segments_append_slash, segments_of_isName ⟨empty, free⟩] at parts
        exact List.append_ne_nil_of_right_ne_nil _ (List.cons_ne_nil last []) parts

namespace Disk

/-! ## One step -/

section Step

variable (d : Disk) (last : LastName) (budget : Nat)

/-- What is done at a link that is followed while `budget` links are left. -/
def follow : Nat → Place → Text → List Step → Except Fault Place
  | 0, _, _, _ => .error .tooManyLinks
  | budget + 1, here, target, rest =>
      if target = [] then .error .notFound
      else trace d last budget (startFrom here target) (Step.ofPath target ++ rest)

theorem trace_eq_descend : trace d last budget = descend d last (d.follow last budget) := by
  cases budget <;> rfl

/-- What is done with the first step depends on what there is where it is taken. -/
theorem descend_cons (onLink : Place → Text → List Step → Except Fault Place) (here : Place)
    (step : Step) (rest : List Step) : descend d last onLink here (step :: rest) =
      match d.find? here with
      | none => .error .notFound
      | some .directory =>
          match step with
          | .stay => descend d last onLink here rest
          | .up => descend d last onLink here.dropLast rest
          | .enter name =>
              match d.find? (here ++ [name]) with
              | none =>
                  if last = .create ∧ rest = [] then .ok (here ++ [name]) else .error .notFound
              | some (.link target) =>
                  if last = .keep ∧ rest = [] then .ok (here ++ [name])
                  else onLink here target rest
              | some _ => descend d last onLink (here ++ [name]) rest
      | some _ => .error .notDirectory := rfl

@[simp] theorem trace_nil (here : Place) : trace d last budget here [] = .ok here := by
  rw [trace_eq_descend]
  rfl

variable {here : Place} (rest : List Step)

theorem trace_of_none (step : Step) (found : d.find? here = none) :
    trace d last budget here (step :: rest) = .error .notFound := by
  rw [trace_eq_descend, descend_cons, found]

/-- Nothing is inside a file or a link. -/
theorem trace_of_entry (step : Step) {node : Node} (found : d.find? here = some node)
    (other : node ≠ .directory) :
    trace d last budget here (step :: rest) = .error .notDirectory := by
  rw [trace_eq_descend, descend_cons, found]
  cases node with
  | file content => rfl
  | link target => rfl
  | directory => exact absurd rfl other

variable (stands : d.find? here = some .directory)

include stands

theorem trace_stay :
    trace d last budget here (.stay :: rest) = trace d last budget here rest := by
  rw [trace_eq_descend, descend_cons, stands]

theorem trace_up :
    trace d last budget here (.up :: rest) = trace d last budget here.dropLast rest := by
  rw [trace_eq_descend, descend_cons, stands]

theorem trace_enter_none {name : Name} (free : d.find? (here ++ [name]) = none) :
    trace d last budget here (.enter name :: rest) =
      if last = .create ∧ rest = [] then .ok (here ++ [name]) else .error .notFound := by
  rw [trace_eq_descend, descend_cons, stands]
  dsimp only
  rw [free]

theorem trace_enter_link {name : Name} {target : Text}
    (found : d.find? (here ++ [name]) = some (.link target)) :
    trace d last budget here (.enter name :: rest) =
      if last = .keep ∧ rest = [] then .ok (here ++ [name])
      else d.follow last budget here target rest := by
  rw [trace_eq_descend, descend_cons, stands]
  dsimp only
  rw [found]

theorem trace_enter {name : Name} {node : Node} (found : d.find? (here ++ [name]) = some node)
    (plain : ∀ target, node ≠ .link target) :
    trace d last budget here (.enter name :: rest) =
      trace d last budget (here ++ [name]) rest := by
  rw [trace_eq_descend, descend_cons, stands]
  dsimp only
  rw [found]
  cases node with
  | file content => rfl
  | link target => exact absurd rfl (plain target)
  | directory => rfl

end Step

/-! ## Several steps -/

/--
The cases are what a step meets: no entry, an entry that is no directory, or a directory, and
in this what there is of the name that is entered. Links are replaced by steps of their own,
so the induction is carried by the number of links that are left and, for one number of them,
by the steps.
-/
theorem trace_induction (d : Disk) {P : Nat → Place → List Step → Prop}
    (nil : ∀ budget here, P budget here [])
    (nothing : ∀ budget here step rest, d.find? here = none → P budget here (step :: rest))
    (entry : ∀ budget here step rest node, d.find? here = some node → node ≠ .directory →
      P budget here (step :: rest))
    (stay : ∀ budget here rest, d.find? here = some .directory →
      P budget here rest → P budget here (.stay :: rest))
    (up : ∀ budget here rest, d.find? here = some .directory →
      P budget here.dropLast rest → P budget here (.up :: rest))
    (free : ∀ budget here name rest, d.find? here = some .directory →
      d.find? (here ++ [name]) = none → P budget here (.enter name :: rest))
    (enter : ∀ budget here name node rest, d.find? here = some .directory →
      d.find? (here ++ [name]) = some node → (∀ target, node ≠ .link target) →
      P budget (here ++ [name]) rest → P budget here (.enter name :: rest))
    (link : ∀ budget here name target rest, d.find? here = some .directory →
      d.find? (here ++ [name]) = some (.link target) →
      (∀ left < budget, P left (startFrom here target) (Step.ofPath target ++ rest)) →
      P budget here (.enter name :: rest))
    (budget : Nat) (here : Place) (steps : List Step) : P budget here steps := by
  induction budget using Nat.strong_induction_on generalizing here steps with
  | h budget outer =>
      induction steps generalizing here with
      | nil => exact nil budget here
      | cons step rest ih =>
          cases found : d.find? here with
          | none => exact nothing budget here step rest found
          | some node =>
              by_cases stands : node = .directory
              case neg => exact entry budget here step rest node found stands
              subst stands
              cases step with
              | stay => exact stay budget here rest found (ih here)
              | up => exact up budget here rest found (ih here.dropLast)
              | enter name =>
                  cases inside : d.find? (here ++ [name]) with
                  | none => exact free budget here name rest found inside
                  | some node =>
                      cases node with
                      | file content =>
                          exact enter budget here name _ rest found inside
                            (Node.file_ne_link content) (ih (here ++ [name]))
                      | directory =>
                          exact enter budget here name _ rest found inside
                            (fun _ same => nomatch same) (ih (here ++ [name]))
                      | link target =>
                          exact link budget here name target rest found inside
                            fun left less => outer left less _ _

/-- What comes behind some steps is taken from where these lead to. -/
theorem trace_append (d : Disk) (last : LastName) {more : List Step} (ne : more ≠ [])
    (budget : Nat) (here : Place) (steps : List Step) : ∃ left,
    trace d last budget here (steps ++ more) =
      (trace d .follow budget here steps).bind fun place => trace d last left place more := by
  have more_ne (rest : List Step) (other : LastName) : ¬(last = other ∧ rest ++ more = []) :=
    fun ended => List.append_ne_nil_of_right_ne_nil rest ne ended.2
  induction budget, here, steps using d.trace_induction with
  | nil budget here => exact ⟨budget, by rw [trace_nil]; rfl⟩
  | nothing budget here step rest found =>
      rw [List.cons_append, trace_of_none d last budget _ step found,
        trace_of_none d .follow budget _ step found]
      exact ⟨0, rfl⟩
  | entry budget here step rest node found other =>
      rw [List.cons_append, trace_of_entry d last budget _ step found other,
        trace_of_entry d .follow budget _ step found other]
      exact ⟨0, rfl⟩
  | stay budget here rest stands ih =>
      rw [List.cons_append, trace_stay d last budget _ stands,
        trace_stay d .follow budget _ stands]
      exact ih
  | up budget here rest stands ih =>
      rw [List.cons_append, trace_up d last budget _ stands, trace_up d .follow budget _ stands]
      exact ih
  | free budget here name rest stands free =>
      rw [List.cons_append, trace_enter_none d last budget _ stands free,
        trace_enter_none d .follow budget _ stands free, if_neg (more_ne rest .create),
        if_neg (fun ended => nomatch ended.1)]
      exact ⟨0, rfl⟩
  | enter budget here name node rest stands found plain ih =>
      rw [List.cons_append, trace_enter d last budget _ stands found plain,
        trace_enter d .follow budget _ stands found plain]
      exact ih
  | link budget here name target rest stands found ih =>
      rw [List.cons_append, trace_enter_link d last budget _ stands found,
        trace_enter_link d .follow budget _ stands found, if_neg (more_ne rest .keep),
        if_neg (fun ended => nomatch ended.1)]
      cases budget with
      | zero => exact ⟨0, rfl⟩
      | succ budget =>
          rw [follow, follow]
          split
          · exact ⟨0, rfl⟩
          · rw [← List.append_assoc]
            exact ih budget (Nat.lt_succ_self budget)

/-! ## Where steps lead to -/

/-- The steps lead from one place to another, over at most `budget` links. -/
inductive Leads (d : Disk) (last : LastName) : Nat → Place → List Step → Place → Prop
  | done {budget : Nat} {here : Place} : Leads d last budget here [] here
  | stay {budget : Nat} {here place : Place} {rest : List Step} :
      d.find? here = some .directory → Leads d last budget here rest place →
      Leads d last budget here (.stay :: rest) place
  | up {budget : Nat} {here place : Place} {rest : List Step} :
      d.find? here = some .directory → Leads d last budget here.dropLast rest place →
      Leads d last budget here (.up :: rest) place
  | enter {budget : Nat} {here place : Place} {name : Name} {node : Node} {rest : List Step} :
      d.find? here = some .directory → d.find? (here ++ [name]) = some node →
      (∀ target, node ≠ .link target) → Leads d last budget (here ++ [name]) rest place →
      Leads d last budget here (.enter name :: rest) place
  /-- A name that is free may be created. -/
  | free {budget : Nat} {here : Place} {name : Name} :
      d.find? here = some .directory → d.find? (here ++ [name]) = none → last = .create →
      Leads d last budget here [.enter name] (here ++ [name])
  /-- A link at the end may stand for itself. -/
  | keep {budget : Nat} {here : Place} {name : Name} {target : Text} :
      d.find? here = some .directory → d.find? (here ++ [name]) = some (.link target) →
      last = .keep → Leads d last budget here [.enter name] (here ++ [name])
  | link {budget : Nat} {here place : Place} {name : Name} {target : Text} {rest : List Step} :
      d.find? here = some .directory → d.find? (here ++ [name]) = some (.link target) →
      ¬(last = .keep ∧ rest = []) → target ≠ [] →
      Leads d last budget (startFrom here target) (Step.ofPath target ++ rest) place →
      Leads d last (budget + 1) here (.enter name :: rest) place

theorem leads_of_trace {d : Disk} {last : LastName} {budget : Nat} {here place : Place}
    {steps : List Step} (led : trace d last budget here steps = .ok place) :
    Leads d last budget here steps place := by
  induction budget, here, steps using d.trace_induction with
  | nil budget here =>
      rw [trace_nil] at led
      cases led
      exact .done
  | nothing budget here step rest found =>
      rw [trace_of_none d last budget rest step found] at led
      cases led
  | entry budget here step rest node found other =>
      rw [trace_of_entry d last budget rest step found other] at led
      cases led
  | stay budget here rest stands ih =>
      rw [trace_stay d last budget rest stands] at led
      exact .stay stands (ih led)
  | up budget here rest stands ih =>
      rw [trace_up d last budget rest stands] at led
      exact .up stands (ih led)
  | free budget here name rest stands free =>
      rw [trace_enter_none d last budget rest stands free] at led
      split at led
      case isTrue create =>
        obtain ⟨create, rfl⟩ := create
        cases led
        exact .free stands free create
      case isFalse => cases led
  | enter budget here name node rest stands found plain ih =>
      rw [trace_enter d last budget rest stands found plain] at led
      exact .enter stands found plain (ih led)
  | link budget here name target rest stands found ih =>
      rw [trace_enter_link d last budget rest stands found] at led
      split at led
      case isTrue keep =>
        obtain ⟨keep, rfl⟩ := keep
        cases led
        exact .keep stands found keep
      case isFalse followed =>
        cases budget with
        | zero => cases led
        | succ budget =>
            rw [follow] at led
            split at led
            case isTrue => cases led
            case isFalse ne =>
              exact .link stands found followed ne (ih budget (Nat.lt_succ_self budget) led)

namespace Leads

variable {d : Disk} {last : LastName} {budget : Nat} {here place : Place} {steps : List Step}

theorem trace_eq (leads : Leads d last budget here steps place) :
    trace d last budget here steps = .ok place := by
  induction leads with
  | done => exact trace_nil _ _ _ _
  | stay stands _ ih => rw [trace_stay _ _ _ _ stands, ih]
  | up stands _ ih => rw [trace_up _ _ _ _ stands, ih]
  | enter stands found plain _ ih => rw [trace_enter _ _ _ _ stands found plain, ih]
  | free stands found create =>
      rw [trace_enter_none _ _ _ _ stands found, if_pos ⟨create, rfl⟩]
  | keep stands found keep =>
      rw [trace_enter_link _ _ _ _ stands found, if_pos ⟨keep, rfl⟩]
  | link stands found followed ne _ ih =>
      rw [trace_enter_link _ _ _ _ stands found, if_neg followed, follow, if_neg ne, ih]

/-- A step is taken in a directory. -/
theorem stands {step : Step} {rest : List Step}
    (leads : Leads d last budget here (step :: rest) place) : d.find? here = some .directory := by
  cases leads <;> assumption

/-- Steps that lead somewhere lead there from the directory that the first of them lead to. -/
theorem exists_of_append {more : List Step} (ne : more ≠ [])
    (led : trace d last budget here (steps ++ more) = .ok place) : ∃ above left,
    trace d .follow budget here steps = .ok above ∧ d.find? above = some .directory ∧
      Leads d last left above more place := by
  obtain ⟨left, eq⟩ := trace_append d last ne budget here steps
  obtain ⟨above, first, behind⟩ := exists_of_bind_ok (eq.symm.trans led)
  have leads := leads_of_trace behind
  obtain ⟨step, rest, rfl⟩ := List.exists_cons_of_ne_nil ne
  exact ⟨above, left, first, leads.stands, leads⟩

/-- On a disk that keeps the entries, the steps lead to the same place. -/
theorem keeps {e : Disk} (keeps : d.Keeps e) (old : last ≠ .create)
    (leads : Leads d last budget here steps place) : Leads e last budget here steps place := by
  induction leads with
  | done => exact .done
  | stay stands _ ih => exact .stay (keeps.directory stands) ih
  | up stands _ ih => exact .up (keeps.directory stands) ih
  | enter stands found plain _ ih =>
      obtain ⟨other, there, kind⟩ := keeps.entry found
      refine .enter (keeps.directory stands) there (fun target same => ?_) ih
      subst same
      cases kind
      exact plain target rfl
  | free _ _ create => exact absurd create old
  | keep stands found keep => exact .keep (keeps.directory stands) (keeps.link found) keep
  | link stands found followed ne _ ih =>
      exact .link (keeps.directory stands) (keeps.link found) followed ne ih

/-- Once there is a file at the place that was to be created, the steps lead there. -/
theorem created {e : Disk} (keeps : d.Keeps e) {content : Content}
    (there : e.find? place = some (.file content))
    (leads : Leads d .create budget here steps place) :
    Leads e .follow budget here steps place := by
  induction leads with
  | done => exact .done
  | stay stands _ ih => exact .stay (keeps.directory stands) (ih there)
  | up stands _ ih => exact .up (keeps.directory stands) (ih there)
  | enter stands found plain _ ih =>
      obtain ⟨other, found, kind⟩ := keeps.entry found
      refine .enter (keeps.directory stands) found (fun target same => ?_) (ih there)
      subst same
      cases kind
      exact plain target rfl
  | free stands _ _ =>
      exact .enter (keeps.directory stands) there (fun target same => nomatch same) .done
  | keep _ _ keep => cases keep
  | link stands found _ ne _ ih =>
      exact .link (keeps.directory stands) (keeps.link found) (fun h => nomatch h.1) ne (ih there)

/-- Links that are followed are not where the steps end. -/
theorem not_link (wf : d.WellFormed) (followed : last ≠ .keep)
    (start : ∀ target, d.find? here ≠ some (.link target))
    (leads : Leads d last budget here steps place) (target : Text) :
    d.find? place ≠ some (.link target) := by
  induction leads with
  | done => exact start target
  | stay _ _ ih => exact ih start
  | @up budget here place rest stands _ ih =>
      refine ih fun target link => ?_
      by_cases top : here = []
      · subst top
        cases link
      · rw [wf.find?_dropLast stands top] at link
        cases link
  | enter _ found plain _ ih =>
      refine ih fun target link => ?_
      rw [found] at link
      exact plain target (Option.some.inj link)
  | free _ found _ =>
      rw [found]
      exact fun link => nomatch link
  | keep _ _ keep => exact absurd keep followed
  | link stands _ _ ne _ ih =>
      refine ih fun target link => ?_
      rw [startFrom] at link
      split at link
      · cases link
      · rw [stands] at link
        cases link

/-- Where steps do not end at a link, it makes no difference that it would stand for itself. -/
theorem followed (leads : Leads d .keep budget here steps place)
    (plain : ∀ target, d.find? place ≠ some (.link target)) :
    Leads d .follow budget here steps place := by
  induction leads with
  | done => exact .done
  | stay stands _ ih => exact .stay stands (ih plain)
  | up stands _ ih => exact .up stands (ih plain)
  | enter stands found other _ ih => exact .enter stands found other (ih plain)
  | free _ _ create => cases create
  | keep _ found _ => exact absurd found (plain _)
  | link stands found _ ne _ ih => exact .link stands found (fun h => nomatch h.1) ne (ih plain)

end Leads

end Disk

end FileSelect
