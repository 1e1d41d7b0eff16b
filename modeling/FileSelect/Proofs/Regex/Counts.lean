import FileSelect.Proofs.Regex.Alternatives

/-!
# Counts of repetitions

What is read repeats nothing more often at least than at most: counts in the other order
are refused, and all other repetitions have none.
-/

namespace FileSelect.Regex

/-- No repetition asks for more at least than it allows at most. -/
def CountsOrdered : Regex → Prop
  | .empty => True
  | .one _ => True
  | .assert _ => True
  | .sequence a b => a.CountsOrdered ∧ b.CountsOrdered
  | .either a b => a.CountsOrdered ∧ b.CountsOrdered
  | .repeated least most a => (∀ m, most = some m → least ≤ m) ∧ a.CountsOrdered

section Counts

variable {flags : Flags} {t rest : Text} {least : Nat} {most : Option Nat} {r : Regex}

theorem countsOrdered_foldl (join : Regex → Regex → Regex) {last : Regex} {rs : List Regex}
    (hjoin : ∀ a b, a.CountsOrdered → b.CountsOrdered → (join a b).CountsOrdered)
    (hlast : last.CountsOrdered) (h : ∀ r ∈ rs, r.CountsOrdered) :
    (rs.foldl (fun later r => join r later) last).CountsOrdered := by
  induction rs generalizing last with
  | nil => exact hlast
  | cons r rs ih =>
      exact ih (hjoin r last (h r List.mem_cons_self) hlast)
        fun s hs => h s (List.mem_cons_of_mem r hs)

theorem countsOrdered_sequenceOf {parts : List (Option Regex)}
    (h : ∀ r, some r ∈ parts → r.CountsOrdered) : (sequenceOf parts).CountsOrdered := by
  refine countsOrdered_foldl .sequence (fun a b ha hb => ⟨ha, hb⟩) trivial ?_
  intro r hr
  obtain ⟨part, hpart, rfl⟩ := List.mem_filterMap.mp hr
  exact h r hpart

theorem countsOrdered_eitherOf {last : Regex} {earlier : List Regex}
    (hlast : last.CountsOrdered) (h : ∀ r ∈ earlier, r.CountsOrdered) :
    (eitherOf last earlier).CountsOrdered :=
  countsOrdered_foldl .either (fun _ _ ha hb => ⟨ha, hb⟩) hlast h

theorem le_of_endCounts? {m : Nat} (h : endCounts? least m t = some (most, rest)) :
    most = some m ∧ least ≤ m := by
  unfold endCounts? at h
  split at h
  · split at h
    · simp only [Option.some.injEq, Prod.mk.injEq] at h
      exact ⟨h.1.symm, ‹_›⟩
    · cases h
  · cases h

theorem le_of_readMost? {m : Nat} (h : readMost? flags least t = some (some m, rest)) :
    least ≤ m := by
  unfold readMost? at h
  split at h
  · cases h
  · obtain ⟨⟨n, left⟩, -, ends⟩ := Option.bind_eq_some_iff.mp h
    obtain ⟨same, ordered⟩ := le_of_endCounts? ends
    exact Option.some.inj same ▸ ordered

theorem le_of_readBound? {n m : Nat}
    (h : readBound? flags n t = some ((least, some m), rest)) : least ≤ m := by
  unfold readBound? at h
  split at h
  · simp only [Option.some.injEq, Prod.mk.injEq] at h
    omega
  · obtain ⟨⟨most, left⟩, read, same⟩ := Option.map_eq_some_iff.mp h
    simp only [Prod.mk.injEq] at same
    rw [same.1.2, same.1.1] at read
    exact le_of_readMost? read
  · cases h

theorem le_of_readCounts? {m : Nat} (h : readCounts? flags t = some ((least, some m), rest)) :
    least ≤ m := by
  obtain ⟨⟨n, left⟩, -, bound⟩ := Option.bind_eq_some_iff.mp h
  exact le_of_readBound? bound

theorem le_of_readRepetition? {m : Nat}
    (h : readRepetition? flags t = some ((least, some m), rest)) : least ≤ m := by
  unfold readRepetition? at h
  split at h
  · cases h
  · cases h
  · simp only [Option.some.injEq, Prod.mk.injEq] at h
    omega
  · obtain ⟨⟨counts, left⟩, read, same⟩ := Option.map_eq_some_iff.mp h
    simp only [Prod.mk.injEq] at same
    rw [same.1] at read
    exact le_of_readCounts? read
  · cases h

theorem countsOrdered_of_literal? {c : Char} (h : literal? flags c = some r) :
    r.CountsOrdered := by
  unfold literal? at h
  split at h
  · cases h
  · cases h
    trivial

theorem countsOrdered_of_dot? (h : dot? flags = some r) : r.CountsOrdered := by
  unfold dot? at h
  split at h
  · cases h
  · split at h
    · cases h
      trivial
    · split at h <;>
      · cases h
        trivial

theorem countsOrdered_of_part? {e : Escaped} (h : e.part? flags = some r) :
    r.CountsOrdered := by
  cases e with
  | char c => exact countsOrdered_of_literal? h
  | byte => cases h
  | chars k =>
      cases h
      trivial
  | assertion a =>
      cases h
      trivial

theorem countsOrdered_of_readPart? (h : readPart? flags t = some (r, rest)) :
    r.CountsOrdered := by
  unfold readPart? at h
  split at h
  · cases h
  · obtain ⟨⟨k, left⟩, -, same⟩ := Option.map_eq_some_iff.mp h
    cases same
    trivial
  · obtain ⟨⟨e, left⟩, -, found⟩ := Option.bind_eq_some_iff.mp h
    obtain ⟨r', part, same⟩ := Option.bind_eq_some_iff.mp found
    cases same
    exact countsOrdered_of_part? part
  · obtain ⟨r', dot, same⟩ := Option.map_eq_some_iff.mp h
    cases same
    exact countsOrdered_of_dot? dot
  · cases h
    trivial
  · cases h
    trivial
  · obtain ⟨r', part, same⟩ := Option.map_eq_some_iff.mp h
    cases same
    exact countsOrdered_of_literal? part

/-- By the steps of the reading: the parts and the alternatives so far are ordered. -/
theorem Reads.countsOrdered {n : Nat} {names : List Text} {earlier : List Regex}
    {parts : List (Option Regex)} {x : (Regex × List Text) × Text}
    (reads : Reads n flags names earlier parts t x) (hearlier : ∀ a ∈ earlier, a.CountsOrdered)
    (hparts : ∀ a, some a ∈ parts → a.CountsOrdered) : x.1.1.CountsOrdered := by
  have add {parts : List (Option Regex)} {b : Regex} (hb : b.CountsOrdered)
      (hparts : ∀ a, some a ∈ parts → a.CountsOrdered) (a : Regex)
      (ha : some a ∈ some b :: parts) : a.CountsOrdered := by
    rcases List.mem_cons.mp ha with same | inside
    · exact Option.some.inj same ▸ hb
    · exact hparts a inside
  induction reads with
  | done _ => exact countsOrdered_eitherOf (countsOrdered_sequenceOf hparts) hearlier
  | close _ => exact countsOrdered_eitherOf (countsOrdered_sequenceOf hparts) hearlier
  | bar _ _ ih =>
      exact ih (List.forall_mem_cons.mpr ⟨countsOrdered_sequenceOf hparts, hearlier⟩) nofun
  | setting _ _ _ ih =>
      exact ih hearlier fun a ha => hparts a ((List.mem_cons.mp ha).resolve_left nofun)
  | group _ _ _ _ _ _ inner later => exact later hearlier (add (inner nofun nofun) hparts)
  | @repetition n least most _ _ _ parts _ _ _ _ r _ _ _ counted _ ih =>
      have ordered : (Regex.repeated least most r).CountsOrdered := by
        refine ⟨?_, hparts r List.mem_cons_self⟩
        rintro m rfl
        exact le_of_readRepetition? counted
      exact ih hearlier (add ordered fun a ha => hparts a (List.mem_cons_of_mem _ ha))
  | part _ _ _ read _ ih => exact ih hearlier (add (countsOrdered_of_readPart? read) hparts)

end Counts

end FileSelect.Regex
