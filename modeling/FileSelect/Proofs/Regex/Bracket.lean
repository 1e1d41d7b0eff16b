import FileSelect.Proofs.Regex.Escape
import FileSelect.Regex.Bracket

/-!
# Classes in front of a closing

A class in brackets is read alike with and without the closing: it does not end before its
closing bracket, and the closing holds none. More fuel than there are characters makes no
difference to it.
-/

namespace FileSelect.Regex

variable {flags : Flags}

section Item

theorem steady_readMember?_cons (c : Char) : Steady fun t => readMember? flags (c :: t) := by
  by_cases backslash : c = '\\'
  · subst backslash
    refine steady_readEscape?_bind ?_ ?_
    · intro e
      exact .option e.member? fun member => steady_some member
    · intro t _
      rfl
  · simp only [readMember?]
    exact steady_some _

theorem steady_readMember? : Steady (readMember? flags) :=
  .of_cons rfl steady_readMember?_cons

theorem rangeFollows?_of_ne {t : Text} (no_hyphen : t.head? ≠ some '-') :
    rangeFollows? flags t = none := by
  unfold rangeFollows?
  split
  · simp at no_hyphen
  · rfl

/-- Does a bracket or a hyphen follow? Then a hyphen in front makes no range. -/
def EndsRange (t : Text) : Prop := t.head? = some ']' ∨ t.head? = some '-'

theorem EndsRange.skip_append_iff {t : Text} :
    EndsRange (flags.skip (t ++ closing)) ↔ EndsRange (flags.skip t) := by
  rcases flags.skip_append t with h | ⟨h, h'⟩
  · rw [h]
    cases flags.skip t with
    | nil => simp [EndsRange, closing]
    | cons c u => rfl
  · rw [h, h']

theorem rangeFollows?_hyphen_of_ends {t : Text} (ends : EndsRange (flags.skip t)) :
    rangeFollows? flags ('-' :: t) = none := by
  rcases ends with h | h <;>
  · obtain ⟨u, hu⟩ := List.head?_eq_some_iff.mp h
    simp only [rangeFollows?, hu]

theorem rangeFollows?_hyphen_of_not_ends {t : Text} (goes_on : ¬EndsRange (flags.skip t)) :
    rangeFollows? flags ('-' :: t) = some (flags.skip t) := by
  rw [rangeFollows?]
  split
  · rename_i h
    exact absurd (.inl (by rw [h]; rfl)) goes_on
  · rename_i h
    exact absurd (.inr (by rw [h]; rfl)) goes_on
  · rfl

theorem steadyAt_readRange?_of_none {first : Char ⊕ CharClass} {t : Text}
    (h : rangeFollows? flags t = none) (h' : rangeFollows? flags (t ++ closing) = none) :
    SteadyAt (readRange? flags first) t := by
  have single : Steady fun t => (single? flags first).map fun k => (k, t) :=
    .optionMap _ fun k => steady_some k
  exact (single t).congr (by rw [readRange?, h]) (by rw [readRange?, h'])

theorem steady_readRange? (first : Char ⊕ CharClass) : Steady (readRange? flags first) := by
  intro t
  by_cases hyphen : t.head? = some '-'
  · obtain ⟨u, rfl⟩ : ∃ u, t = '-' :: u := List.head?_eq_some_iff.mp hyphen
    by_cases ends : EndsRange (flags.skip u)
    · exact steadyAt_readRange?_of_none (rangeFollows?_hyphen_of_ends ends)
        (rangeFollows?_hyphen_of_ends (EndsRange.skip_append_iff.mpr ends))
    · have goes_on : ¬EndsRange (flags.skip (u ++ closing)) := mt EndsRange.skip_append_iff.mp ends
      have last : Steady fun t => (readMember? flags t).bind fun x =>
          (range? flags first x.1).bind fun k => some (k, x.2) :=
        steady_readMember?.bind fun second => .option (range? flags first second) fun k =>
          steady_some k
      refine .cons ((last.skip flags u).congr ?_ ?_)
      · rw [readRange?, rangeFollows?_hyphen_of_not_ends ends]
        rfl
      · rw [readRange?, rangeFollows?_hyphen_of_not_ends goes_on]
        rfl
  · exact steadyAt_readRange?_of_none (rangeFollows?_of_ne hyphen)
      (rangeFollows?_of_ne (head?_append_closing_ne hyphen (by decide)))

theorem steady_readItem?_cons (c : Char) : Steady fun t => readItem? flags (c :: t) :=
  (steady_readMember?_cons c).bind fun first => (steady_readRange? first).skip flags

end Item

section Posix

theorem exact_readPosixName? (negated : Bool) : Exact (readPosixName? flags negated) := by
  have colon : Exact (Text.splitFirst? [':']) := exact_splitFirst? (by decide)
  constructor
  · intro t k rest h
    unfold readPosixName? at h
    split at h
    · rename_i name left found
      obtain ⟨parsed, -, same⟩ := Option.map_eq_some_iff.mp h
      simp only [Prod.mk.injEq] at same
      exact same.2 ▸ (List.suffix_cons ']' left).trans (colon.suffix found)
    · cases h
  · intro t
    unfold readPosixName?
    rw [colon.append]
    rcases Text.splitFirst? [':'] t with - | ⟨name, - | ⟨c, left⟩⟩
    · rfl
    · rfl
    · by_cases bracket : c = ']'
      · subst bracket
        simp only [Option.map_some, List.cons_append]
        cases CharClass.posix? name <;> rfl
      · simp [bracket]

theorem readPosix?_of_head_ne {t : Text} (no_colon : t.head? ≠ some ':') :
    readPosix? flags t = none := by
  unfold readPosix?
  split
  · simp at no_colon
  · simp at no_colon
  · rfl

theorem readPosix?_colon {t : Text} (positive : t.head? ≠ some '^') :
    readPosix? flags (':' :: t) = readPosixName? flags false t := by
  unfold readPosix?
  split
  · simp_all
  · simp_all
  · simp_all

theorem exact_readPosix? : Exact (readPosix? flags) := by
  constructor
  · intro t k rest h
    unfold readPosix? at h
    split at h
    · exact ((exact_readPosixName? true).suffix h).trans
        ((List.suffix_cons '^' _).trans (List.suffix_cons ':' _))
    · exact ((exact_readPosixName? false).suffix h).trans (List.suffix_cons ':' _)
    · cases h
  · intro t
    by_cases colon : t.head? = some ':'
    · obtain ⟨u, rfl⟩ : ∃ u, t = ':' :: u := List.head?_eq_some_iff.mp colon
      by_cases negated : u.head? = some '^'
      · obtain ⟨v, rfl⟩ : ∃ v, u = '^' :: v := List.head?_eq_some_iff.mp negated
        exact (exact_readPosixName? true).append v
      · rw [List.cons_append, readPosix?_colon negated,
          readPosix?_colon (head?_append_closing_ne negated (by decide))]
        exact (exact_readPosixName? false).append u
    · rw [readPosix?_of_head_ne colon,
        readPosix?_of_head_ne (head?_append_closing_ne colon (by decide))]
      rfl

end Posix

section Opening

theorem readHyphens_of_ne {n : Nat} {t : Text} (no_hyphen : t.head? ≠ some '-') :
    readHyphens flags n t = (false, t) := by
  unfold readHyphens
  split
  · simp at no_hyphen
  · rfl

theorem steady_readHyphens (flags : Flags) (n : Nat) : Steady fun t => some (readHyphens flags n t) := by
  induction n with
  | zero => exact steady_some false
  | succ n ih =>
      intro t
      by_cases hyphen : t.head? = some '-'
      · obtain ⟨u, rfl⟩ : ∃ u, t = '-' :: u := List.head?_eq_some_iff.mp hyphen
        have later := (ih.skip flags).map (k := fun x => (true, x.2)) fun _ => steady_some true
        exact .cons (later u)
      · have still := head?_append_closing_ne hyphen (by decide)
        exact .of_some (by rw [readHyphens_of_ne hyphen]) (by rw [readHyphens_of_ne still])

theorem readHyphens_of_fuel {n m : Nat} {t : Text} (hn : t.length ≤ n) (hm : t.length ≤ m) :
    readHyphens flags n t = readHyphens flags m t := by
  induction n generalizing m t with
  | zero =>
      have empty : t = [] := List.length_eq_zero_iff.mp (Nat.le_zero.mp hn)
      subst empty
      rw [readHyphens_of_ne (by decide), readHyphens_of_ne (by decide)]
  | succ n ih =>
      by_cases hyphen : t.head? = some '-'
      · obtain ⟨u, rfl⟩ : ∃ u, t = '-' :: u := List.head?_eq_some_iff.mp hyphen
        obtain ⟨m, rfl⟩ : ∃ k, m = k + 1 := ⟨m - 1, by simp at hm; omega⟩
        have shorter := (flags.skip_suffix u).length_le
        simp only [List.length_cons] at hn hm
        rw [readHyphens, readHyphens, ih (m := m) (by omega) (by omega)]
      · rw [readHyphens_of_ne hyphen, readHyphens_of_ne hyphen]

theorem steady_readFirstBracket : Steady fun t => some (readFirstBracket flags t) := by
  intro t
  by_cases bracket : t.head? = some ']'
  · obtain ⟨u, rfl⟩ : ∃ u, t = ']' :: u := List.head?_eq_some_iff.mp bracket
    exact .cons (steady_skip flags (CharClass.char ']') u)
  · have other {t : Text} (h : t.head? ≠ some ']') :
        readFirstBracket flags t = (.nothing, t) := by
      unfold readFirstBracket
      split
      · simp at h
      · rfl
    have still := head?_append_closing_ne bracket (by decide)
    exact .of_some (by rw [other bracket]) (by rw [other still])

theorem steady_readStart : Steady fun t => some (readStart flags t) := by
  intro t
  have enough : t.length ≤ (t ++ closing).length := by simp
  have behind := (steady_readHyphens flags (t ++ closing).length).andThen
    (k := fun x => if x.1 then (.char '-', x.2) else readFirstBracket flags x.2)
    (Bool.rec steady_readFirstBracket (steady_some _))
  refine (behind t).congr ?_ rfl
  rw [readStart, readHyphens_of_fuel le_rfl enough]

theorem readNegation_of_ne {c : Char} {t : Text} (shown : flags.skip (c :: t) = c :: t)
    (other : c ≠ '^') : readNegation flags (c :: t) = (false, c :: t) := by
  rw [readNegation, shown]
  split
  · simp_all
  · rfl

theorem steady_readNegation : Steady fun t => some (readNegation flags t) := by
  refine .of_skip flags (fun t => by simp only [readNegation, Flags.skip_skip]) ?_ ?_
  · exact .of_some (by rw [readNegation, Flags.skip_nil])
      (by rw [List.nil_append, closing, readNegation_of_ne flags.skip_closing (by decide)])
  · intro c t shown
    by_cases negated : c = '^'
    · subst negated
      refine .cons ?_
      simp only [readNegation, shown]
      exact steady_skip flags true t
    · exact .of_some (by rw [readNegation_of_ne (shown t) negated])
        (by rw [List.cons_append, readNegation_of_ne (shown _) negated])

theorem steady_readOpening (flags : Flags) : Steady fun t => some (readOpening flags t) := by
  refine steady_readNegation.andThen
    (k := fun x => ((x.1, (readStart flags x.2).1), (readStart flags x.2).2)) fun negated => ?_
  exact steady_readStart.andThen (k := fun x => ((negated, x.1), x.2)) fun start =>
    steady_some (negated, start)

end Opening

section Operation

theorem readOperation?_eq_none_of_ne {c : Char} {t : Text} (single : t.head? ≠ some c) :
    readOperation? (c :: t) = none := by
  unfold readOperation?
  split <;> simp_all

/-- A mark that stands there twice is an operation or none, whatever follows. -/
theorem readOperation?_double (c : Char) (t : Text) :
    readOperation? (c :: c :: t) =
      (readOperation? [c, c]).map fun x => (x.1, t) := by
  unfold readOperation?
  split <;> simp_all

theorem exact_readOperation?_cons (c : Char) : Exact fun t => readOperation? (c :: t) := by
  constructor
  · intro t operation rest h
    by_cases doubled : t.head? = some c
    · obtain ⟨u, rfl⟩ : ∃ u, t = c :: u := List.head?_eq_some_iff.mp doubled
      rw [readOperation?_double] at h
      obtain ⟨x, -, same⟩ := Option.map_eq_some_iff.mp h
      simp only [Prod.mk.injEq] at same
      exact same.2 ▸ List.suffix_cons c u
    · rw [readOperation?_eq_none_of_ne doubled] at h
      cases h
  · intro t
    by_cases doubled : t.head? = some c
    · obtain ⟨u, rfl⟩ : ∃ u, t = c :: u := List.head?_eq_some_iff.mp doubled
      rw [List.cons_append, readOperation?_double c (u ++ closing), readOperation?_double c u,
        Option.map_map]
      rfl
    · rw [readOperation?_eq_none_of_ne doubled]
      by_cases parenthesis : c = ')'
      · subst parenthesis
        rfl
      · rw [readOperation?_eq_none_of_ne (head?_append_closing_ne doubled parenthesis)]
        rfl

end Operation

section Class

variable {n : Nat} {pending : Option (SetOperation × CharClass)} {union : CharClass}
  {t u : Text} {c : Char}

/-- With fuel left, the first character that is shown says what is read. -/
theorem readClass?_succ : readClass? flags (n + 1) pending union t =
    match flags.skip t with
    | [] => none
    | ']' :: rest => some (flags.fold (applyPending flags pending union), rest)
    | '[' :: rest =>
        match readPosix? flags rest with
        | some (k, rest) => readClass? flags n pending (.union union k) rest
        | none => do
            let ((negated, start), inside) := readOpening flags rest
            let (k, rest) ← readClass? flags n none start inside
            readClass? flags n pending (.union union (CharClass.negateIf negated k)) rest
    | t =>
        match readOperation? t with
        | some (operation, rest) =>
            readClass? flags n (some (operation, applyPending flags pending union)) .nothing rest
        | none => (do
            let (k, rest) ← readItem? flags t
            readClass? flags n pending (.union union k) rest) := rfl

theorem readClass?_close (h : flags.skip t = ']' :: u) :
    readClass? flags (n + 1) pending union t =
      some (flags.fold (applyPending flags pending union), u) := by
  simp only [readClass?_succ, h]

theorem readClass?_posix {x : CharClass × Text} (h : flags.skip t = '[' :: u)
    (found : readPosix? flags u = some x) :
    readClass? flags (n + 1) pending union t =
      readClass? flags n pending (.union union x.1) x.2 := by
  simp only [readClass?_succ, h, found]

theorem readClass?_nested (h : flags.skip t = '[' :: u) (other : readPosix? flags u = none) :
    readClass? flags (n + 1) pending union t =
      (readClass? flags n none (readOpening flags u).1.2 (readOpening flags u).2).bind fun x =>
        readClass? flags n pending
          (.union union (CharClass.negateIf (readOpening flags u).1.1 x.1)) x.2 := by
  simp only [readClass?_succ, h, other]
  rfl

theorem readClass?_operation {x : SetOperation × Text} (h : flags.skip t = c :: u)
    (no_end : c ≠ ']') (no_nest : c ≠ '[') (found : readOperation? (c :: u) = some x) :
    readClass? flags (n + 1) pending union t =
      readClass? flags n (some (x.1, applyPending flags pending union)) .nothing x.2 := by
  rw [readClass?_succ, h]
  split <;> simp_all

theorem readClass?_item (h : flags.skip t = c :: u) (no_end : c ≠ ']') (no_nest : c ≠ '[')
    (other : readOperation? (c :: u) = none) :
    readClass? flags (n + 1) pending union t =
      (readItem? flags (c :: u)).bind fun x =>
        readClass? flags n pending (.union union x.1) x.2 := by
  rw [readClass?_succ, h]
  split <;> simp_all

theorem steady_readClass?_fuel (n : Nat) (pending : Option (SetOperation × CharClass))
    (union : CharClass) : Steady (readClass? flags n pending union) := by
  induction n generalizing pending union with
  | zero => exact steady_none
  | succ n ih =>
      refine .of_skip_cons flags (fun t => by simp [readClass?_succ]) (by simp [readClass?_succ]) ?_
      intro c shown
      by_cases isEnd : c = ']'
      · subst isEnd
        simp only [readClass?_close (shown _)]
        exact steady_some _
      · by_cases nest : c = '['
        · subst nest
          have nested : Steady fun u => (some (readOpening flags u)).bind fun o =>
              (readClass? flags n none o.1.2 o.2).bind fun x =>
                readClass? flags n pending
                  (.union union (CharClass.negateIf o.1.1 x.1)) x.2 := by
            refine (steady_readOpening flags).bind fun o => ?_
            dsimp only
            exact (ih none o.2).bind fun k =>
              ih pending (.union union (CharClass.negateIf o.1 k))
          intro u
          refine .orElse (p := readPosix? flags)
            (k := fun x => readClass? flags n pending (.union union x.1) x.2)
            exact_readPosix? ?_ (nested u) ?_ ?_
          · exact fun k => ih pending (.union union k)
          · exact fun t x found => readClass?_posix (shown t) found
          · exact fun t other => readClass?_nested (shown t) other
        · have item : Steady fun u => (readItem? flags (c :: u)).bind fun x =>
              readClass? flags n pending (.union union x.1) x.2 :=
            (steady_readItem?_cons c).bind fun k => ih pending (.union union k)
          intro u
          refine .orElse (p := fun t => readOperation? (c :: t))
            (k := fun x =>
              readClass? flags n (some (x.1, applyPending flags pending union)) .nothing x.2)
            (exact_readOperation?_cons c) ?_ (item u) ?_ ?_
          · exact fun operation =>
              ih (some (operation, applyPending flags pending union)) .nothing
          · exact fun t x found => readClass?_operation (shown t) isEnd nest found
          · exact fun t other => readClass?_item (shown t) isEnd nest other

/-- More fuel than there are characters is enough. -/
theorem readClass?_of_fuel {m : Nat} {x : CharClass × Text}
    (h : readClass? flags n pending union t = some x) (ample : t.length < m) :
    readClass? flags m pending union t = some x := by
  induction n generalizing m pending union t x with
  | zero => cases h
  | succ n ih =>
      obtain ⟨m, rfl⟩ : ∃ k, m = k + 1 := ⟨m - 1, by omega⟩
      cases hs : flags.skip t with
      | nil => simp [readClass?_succ, hs] at h
      | cons c u =>
          have shorter := (flags.skip_suffix t).length_le
          rw [hs, List.length_cons] at shorter
          have short {left : Text} (below : left <:+ u) : left.length < m := by
            have := below.length_le
            omega
          by_cases isEnd : c = ']'
          · subst isEnd
            rwa [readClass?_close hs] at h ⊢
          · by_cases nest : c = '['
            · subst nest
              cases found : readPosix? flags u with
              | some y =>
                  rw [readClass?_posix hs found] at h ⊢
                  exact ih h (short (exact_readPosix?.suffix found))
              | none =>
                  rw [readClass?_nested hs found] at h ⊢
                  obtain ⟨⟨k, left⟩, inner, later⟩ := Option.bind_eq_some_iff.mp h
                  have below : (readOpening flags u).2 <:+ u := (steady_readOpening flags u).suffix rfl
                  have behind := ((steady_readClass?_fuel n _ _ _).suffix inner).trans below
                  rw [ih inner (short below)]
                  exact ih later (short behind)
            · cases found : readOperation? (c :: u) with
              | some y =>
                  rw [readClass?_operation hs isEnd nest found] at h ⊢
                  exact ih h (short ((exact_readOperation?_cons c).suffix found))
              | none =>
                  rw [readClass?_item hs isEnd nest found] at h ⊢
                  obtain ⟨⟨k, left⟩, item, later⟩ := Option.bind_eq_some_iff.mp h
                  rw [item]
                  exact ih later (short ((steady_readItem?_cons c u).suffix item))

end Class

theorem steady_readBracket? : Steady (readBracket? flags) := by
  have inside (start : CharClass) :
      Steady fun t => readClass? flags (t.length + 1) none start t :=
    .of_fuel (fun n => steady_readClass?_fuel n none start) readClass?_of_fuel
  have bracket : Steady fun t => (some (readOpening flags t)).bind fun o =>
      (readClass? flags (o.2.length + 1) none o.1.2 o.2).bind fun x =>
        (bracketClass? flags o.1.1 x.1).bind fun k => some (k, x.2) := by
    refine (steady_readOpening flags).bind fun o => ?_
    exact (inside o.2).bind (k := fun x => (bracketClass? flags o.1 x.1).bind fun k => some (k, x.2))
      fun k => .option (bracketClass? flags o.1 k) fun k => steady_some k
  exact bracket

end FileSelect.Regex
