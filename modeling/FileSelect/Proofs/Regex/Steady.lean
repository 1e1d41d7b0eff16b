import FileSelect.Proofs.Text.Cutting
import FileSelect.Regex.Escape

/-!
# Reading in front of a closing

An expression that has to account for a whole text is read with a parenthesis and a dollar
behind it. A reader is steady when this closing makes no difference to it: what it reads of
a text it reads as well in front of the closing, and what it reads in front of the closing
without touching it, it reads of the text alone. Comments are the one exception: they go to
the end of the line, and a reader that has passed over everything up to the end passes over
the closing too. Steady readers are composed here, step by step, like the readers.
-/

namespace FileSelect.Regex

/-- What stands behind an expression that has to account for a whole text. -/
def closing : Text := [')', '$']

@[simp] theorem length_closing : closing.length = 2 := rfl

/-- A text in front of the closing begins with nothing new but the parenthesis. -/
theorem head?_append_closing_ne {t : Text} {c : Char} (h : t.head? ≠ some c)
    (other : c ≠ ')') : (t ++ closing).head? ≠ some c := by
  cases t with
  | nil => simpa [closing] using other.symm
  | cons d u => exact h

variable {α β : Type}

/-- What a reader gives for `t` agrees with what it gives with the closing behind it. -/
structure SteadyAt (f : Text → Option (α × Text)) (t : Text) : Prop where
  /-- What is left over is an end of the text. -/
  suffix {a : α} {rest : Text} : f t = some (a, rest) → rest <:+ t
  suffix_closing {a : α} {rest : Text} :
    f (t ++ closing) = some (a, rest) → rest <:+ t ++ closing
  with_closing {a : α} {rest : Text} : f t = some (a, rest) →
    f (t ++ closing) = some (a, rest ++ closing) ∨
      rest = [] ∧ f (t ++ closing) = some (a, [])
  without_closing {a : α} {rest : Text} :
    f (t ++ closing) = some (a, rest ++ closing) → f t = some (a, rest)

def Steady (f : Text → Option (α × Text)) : Prop := ∀ t, SteadyAt f t

/-- The closing does not fit into a text that is shorter. -/
theorem not_closing_suffix {rest left : Text} (short : left.length < 2) :
    ¬rest ++ closing <:+ left := by
  intro h
  have long := h.length_le
  simp at long
  omega

namespace SteadyAt

variable {f g : Text → Option (α × Text)} {t : Text}

theorem congr (steady : SteadyAt f t) (h : g t = f t)
    (h' : g (t ++ closing) = f (t ++ closing)) : SteadyAt g t := by
  constructor
  · rw [h]; exact steady.suffix
  · rw [h']; exact steady.suffix_closing
  · rw [h, h']; exact steady.with_closing
  · rw [h, h']; exact steady.without_closing

/-- A reader that takes a character first. -/
theorem cons {c : Char} (steady : SteadyAt (fun t => f (c :: t)) t) : SteadyAt f (c :: t) where
  suffix h := (steady.suffix h).trans (List.suffix_cons c t)
  suffix_closing h := (steady.suffix_closing h).trans (List.suffix_cons c (t ++ closing))
  with_closing h := steady.with_closing h
  without_closing h := steady.without_closing h

/-- At the end a reader may fail if it takes a character of the closing otherwise. -/
theorem nil_none (fails : f [] = none)
    (takes : ∀ {a rest}, f closing = some (a, rest) → rest <:+ ['$']) : SteadyAt f [] where
  suffix h := by simp [fails] at h
  suffix_closing h := (takes h).trans (List.suffix_cons ')' ['$'])
  with_closing h := by simp [fails] at h
  without_closing h := absurd (takes h) (not_closing_suffix (by decide))

end SteadyAt

/-- A reader that fails at the end and takes a character otherwise. -/
theorem Steady.of_cons {f : Text → Option (α × Text)} (fails : f [] = none)
    (steady : ∀ c, Steady fun t => f (c :: t)) : Steady f := by
  intro t
  cases t with
  | nil => exact .nil_none fails fun h => (steady ')' ['$']).suffix h
  | cons c t => exact (steady c t).cons

theorem steady_some (a : α) : Steady fun t => some (a, t) := by
  intro t
  refine ⟨?_, ?_, ?_, ?_⟩ <;> simp +contextual

/-- A reader that leaves everything as it is. -/
theorem SteadyAt.of_some {f : Text → Option (α × Text)} {t : Text} {a : α}
    (h : f t = some (a, t)) (h' : f (t ++ closing) = some (a, t ++ closing)) : SteadyAt f t :=
  (steady_some a t).congr h h'

theorem steady_none : Steady fun _ => (none : Option (α × Text)) := by
  intro t
  refine ⟨?_, ?_, ?_, ?_⟩ <;> simp

theorem SteadyAt.of_none {f : Text → Option (α × Text)} {t : Text} (h : f t = none)
    (h' : f (t ++ closing) = none) : SteadyAt f t :=
  (steady_none t).congr h h'

theorem Steady.of_none {f : Text → Option (α × Text)} (h : ∀ t, f t = none) : Steady f :=
  fun t => .of_none (h t) (h _)

theorem SteadyAt.ite {p : Prop} [Decidable p] {f g : Text → Option (α × Text)} {t : Text}
    (hf : SteadyAt f t) (hg : SteadyAt g t) : SteadyAt (fun t => if p then f t else g t) t := by
  by_cases hp : p
  · simpa only [hp, if_true] using hf
  · simpa only [hp, if_false] using hg

theorem Steady.ite {p : Prop} [Decidable p] {f g : Text → Option (α × Text)}
    (hf : Steady f) (hg : Steady g) : Steady fun t => if p then f t else g t :=
  fun t => (hf t).ite (hg t)

/-- A reader behind a choice that the text plays no part in. -/
theorem Steady.option (o : Option β) {f : β → Text → Option (α × Text)}
    (hf : ∀ b, Steady (f b)) : Steady fun t => o.bind fun b => f b t := by
  cases o with
  | none => exact steady_none
  | some b => exact hf b

theorem Steady.optionMap (o : Option β) {k : Text → β → α × Text}
    (hk : ∀ b, Steady fun t => some (k t b)) : Steady fun t => o.map (k t) := by
  cases o with
  | none => exact steady_none
  | some b => exact hk b

/-- One reader behind another. -/
theorem SteadyAt.bind {f : Text → Option (α × Text)} {k : α × Text → Option (β × Text)}
    {t : Text} (hf : SteadyAt f t) (hk : ∀ a, Steady fun left => k (a, left)) :
    SteadyAt (fun t => (f t).bind k) t where
  suffix {b rest} h := by
    obtain ⟨⟨a, left⟩, ha, hb⟩ := Option.bind_eq_some_iff.mp h
    exact ((hk a left).suffix hb).trans (hf.suffix ha)
  suffix_closing {b rest} h := by
    obtain ⟨⟨a, left⟩, ha, hb⟩ := Option.bind_eq_some_iff.mp h
    exact ((hk a left).suffix hb).trans (hf.suffix_closing ha)
  with_closing {b rest} h := by
    obtain ⟨⟨a, left⟩, ha, hb⟩ := Option.bind_eq_some_iff.mp h
    rcases hf.with_closing ha with ha' | ⟨rfl, ha'⟩
    · simpa only [ha', Option.bind_some] using (hk a left).with_closing hb
    · have none_left : rest = [] := List.suffix_nil.mp ((hk a []).suffix hb)
      right
      subst none_left
      exact ⟨rfl, by rw [ha']; exact hb⟩
  without_closing {b rest} h := by
    obtain ⟨⟨a, left⟩, ha, hb⟩ := Option.bind_eq_some_iff.mp h
    obtain ⟨used, same⟩ := (hk a left).suffix hb
    -- The closing is left over by the second reader, so it was by the first.
    have whole : left = (used ++ rest) ++ closing := by rw [← same, List.append_assoc]
    subst whole
    rw [hf.without_closing ha]
    exact (hk a _).without_closing hb

theorem Steady.bind {f : Text → Option (α × Text)} {k : α × Text → Option (β × Text)}
    (hf : Steady f) (hk : ∀ a, Steady fun left => k (a, left)) :
    Steady fun t => (f t).bind k :=
  fun t => (hf t).bind hk

/-- A reader whose result is put into another form. -/
theorem Steady.map {f : Text → Option (α × Text)} {k : α × Text → β × Text}
    (hf : Steady f) (hk : ∀ a, Steady fun left => some (k (a, left))) :
    Steady fun t => (f t).map k := by
  simp only [Option.map_eq_bind]
  exact hf.bind hk

/-- One behind another for readers that never fail. -/
theorem Steady.andThen {p : Text → β × Text} {k : β × Text → α × Text}
    (hp : Steady fun t => some (p t)) (hk : ∀ b, Steady fun left => some (k (b, left))) :
    Steady fun t => some (k (p t)) :=
  hp.bind (k := fun x => some (k x)) hk

namespace Flags

theorem skipExtended_suffix (inComment : Bool) (t : Text) : skipExtended inComment t <:+ t := by
  induction t generalizing inComment with
  | nil => simp [skipExtended]
  | cons c t ih =>
      have later (b : Bool) := (ih b).trans (List.suffix_cons c t)
      cases inComment with
      | true => exact later _
      | false =>
          unfold skipExtended
          split
          · exact later _
          · split
            · exact later _
            · exact List.suffix_rfl

/-- A comment at the end passes over the closing; otherwise the closing stays. -/
theorem skipExtended_append (inComment : Bool) (t : Text) :
    skipExtended inComment (t ++ closing) = skipExtended inComment t ++ closing ∨
      skipExtended inComment t = [] ∧ skipExtended inComment (t ++ closing) = [] := by
  induction t generalizing inComment with
  | nil => cases inComment <;> decide
  | cons c t ih =>
      cases inComment with
      | true => exact ih _
      | false =>
          rw [List.cons_append]
          unfold skipExtended
          split
          · exact ih _
          · split
            · exact ih _
            · left
              rfl

theorem skip_suffix (flags : Flags) (t : Text) : flags.skip t <:+ t := by
  unfold skip
  split
  · exact skipExtended_suffix _ _
  · exact List.suffix_rfl

theorem skipExtended_skipExtended (inComment : Bool) (t : Text) :
    skipExtended false (skipExtended inComment t) = skipExtended inComment t := by
  induction t generalizing inComment with
  | nil => rfl
  | cons c t ih =>
      cases inComment with
      | true => exact ih _
      | false =>
          rw [skipExtended]
          split
          · exact ih _
          · split
            · exact ih _
            · rename_i hblank hmark
              rw [skipExtended, if_neg hblank, if_neg hmark]

@[simp] theorem skip_skip (flags : Flags) (t : Text) :
    flags.skip (flags.skip t) = flags.skip t := by
  unfold skip
  split
  · exact skipExtended_skipExtended _ _
  · rfl

theorem skip_append (flags : Flags) (t : Text) :
    flags.skip (t ++ closing) = flags.skip t ++ closing ∨
      flags.skip t = [] ∧ flags.skip (t ++ closing) = [] := by
  unfold skip
  split
  · exact skipExtended_append _ _
  · left
    rfl

@[simp] theorem skip_nil (flags : Flags) : flags.skip [] = [] := by
  cases h : flags.extended <;> simp [skip, skipExtended, h]

@[simp] theorem skip_closing (flags : Flags) : flags.skip closing = closing := by
  unfold skip
  split
  · decide
  · rfl

/-- What the flags do not pass over: neither a blank nor the start of a comment. -/
theorem skip_cons_of_skip {flags : Flags} {t rest : Text} {c : Char}
    (h : flags.skip t = c :: rest) (u : Text) : flags.skip (c :: u) = c :: u := by
  have again : flags.skip (c :: rest) = c :: rest := by rw [← h, skip_skip]
  by_cases extended : flags.extended = true
  · have stays (inComment : Bool) : skipExtended inComment rest ≠ c :: rest := by
      intro same
      have short := (skipExtended_suffix inComment rest).length_le
      rw [same, List.length_cons] at short
      omega
    rw [skip, if_pos extended, skipExtended] at again ⊢
    split at again
    · exact absurd again (stays false)
    · rename_i no_blank
      split at again
      · exact absurd again (stays true)
      · rename_i no_mark
        rw [if_neg no_blank, if_neg no_mark]
  · rw [skip, if_neg extended]

end Flags

/-- A reader behind blanks and comments. -/
theorem SteadyAt.skip (flags : Flags) {f : Text → Option (α × Text)} {t : Text}
    (here : SteadyAt f (flags.skip t)) (nil : SteadyAt f []) :
    SteadyAt (fun t => f (flags.skip t)) t := by
  have below := flags.skip_suffix t
  rcases flags.skip_append t with h | ⟨h, h'⟩
  · refine ⟨fun ha => (here.suffix ha).trans below, ?_, ?_, ?_⟩
    · intro a rest ha
      exact (here.suffix_closing (h ▸ ha)).trans (h ▸ flags.skip_suffix (t ++ closing))
    · intro a rest ha
      simpa only [h] using here.with_closing ha
    · intro a rest ha
      exact here.without_closing (by rwa [h] at ha)
  · -- A comment has swallowed the closing: both texts are read as the empty one.
    refine ⟨fun ha => (here.suffix ha).trans below, ?_, ?_, ?_⟩
    · intro a rest ha
      exact (nil.suffix (h' ▸ ha)).trans List.nil_suffix
    · intro a rest ha
      rw [h] at ha
      have none_left : rest = [] := List.suffix_nil.mp (nil.suffix ha)
      subst none_left
      exact .inr ⟨rfl, by rw [h']; exact ha⟩
    · intro a rest ha
      exact absurd (nil.suffix (h' ▸ ha)) (not_closing_suffix (by decide))

theorem Steady.skip (flags : Flags) {f : Text → Option (α × Text)} (hf : Steady f) :
    Steady fun t => f (flags.skip t) :=
  fun t => (hf (flags.skip t)).skip flags (hf [])

/-- Passing over blanks and comments, with nothing else. -/
theorem steady_skip (flags : Flags) (a : α) : Steady fun t => some (a, flags.skip t) :=
  (steady_some a).skip flags

/-- A reader that passes over blanks and comments first. It is looked at where there are
none. -/
theorem Steady.of_skip (flags : Flags) {f : Text → Option (α × Text)}
    (same : ∀ t, f (flags.skip t) = f t) (nil : SteadyAt f [])
    (cons : ∀ c t, (∀ u, flags.skip (c :: u) = c :: u) → SteadyAt f (c :: t)) :
    Steady f := by
  intro t
  have here : SteadyAt f (flags.skip t) := by
    cases h : flags.skip t with
    | nil => exact nil
    | cons c rest => exact cons c rest (Flags.skip_cons_of_skip h)
  exact (here.skip flags nil).congr (same t).symm (same _).symm

/-- Such a reader that fails at the end. -/
theorem Steady.of_skip_cons (flags : Flags) {f : Text → Option (α × Text)}
    (same : ∀ t, f (flags.skip t) = f t) (fails : f [] = none)
    (cons : ∀ c, (∀ u, flags.skip (c :: u) = c :: u) → Steady fun u => f (c :: u)) :
    Steady f := by
  have shown := Flags.skip_cons_of_skip flags.skip_closing
  exact .of_skip flags same
    (.nil_none fails fun h => (cons ')' shown ['$']).suffix h)
    fun c t shown => (cons c shown t).cons

/-- A reader that takes as many steps as its fuel, when more than the text has characters
are enough. -/
theorem Steady.of_fuel {F : Nat → Text → Option (α × Text)} (steady : ∀ n, Steady (F n))
    (enough : ∀ {n m t x}, F n t = some x → t.length < m → F m t = some x) :
    Steady fun t => F (t.length + 1) t := by
  intro t
  refine ⟨(steady _ t).suffix, (steady _ t).suffix_closing, ?_, ?_⟩
  · intro a rest h
    have ample : (t ++ closing).length < (t ++ closing).length + 1 := Nat.lt_succ_self _
    rcases (steady _ t).with_closing h with h | ⟨none_left, h⟩
    · exact .inl (enough h ample)
    · exact .inr ⟨none_left, enough h ample⟩
  · intro a rest h
    exact enough ((steady _ t).without_closing h) (Nat.lt_succ_self _)

/-! ## Readers that look for a mark -/

/-- A reader that fails or succeeds with no regard to the closing. -/
structure Exact (f : Text → Option (α × Text)) : Prop where
  suffix {t : Text} {a : α} {rest : Text} : f t = some (a, rest) → rest <:+ t
  append (t : Text) : f (t ++ closing) = (f t).map fun x => (x.1, x.2 ++ closing)

theorem Exact.steady {f : Text → Option (α × Text)} (exact : Exact f) : Steady f := by
  intro t
  have same := exact.append t
  refine ⟨exact.suffix, exact.suffix, ?_, ?_⟩
  · intro a rest h
    exact .inl (by rw [same, h]; rfl)
  · intro a rest h
    rw [same] at h
    obtain ⟨⟨b, left⟩, hb, hx⟩ := Option.map_eq_some_iff.mp h
    simp only [Prod.mk.injEq, List.append_cancel_right_eq] at hx
    rw [hb, hx.1, hx.2]

/-- A choice that such a reader makes. -/
theorem SteadyAt.orElse {p : Text → Option (β × Text)} {k : β × Text → Option (α × Text)}
    {f g : Text → Option (α × Text)} {t : Text} (exact : Exact p)
    (hk : ∀ b, Steady fun left => k (b, left)) (hg : SteadyAt g t)
    (found : ∀ t x, p t = some x → f t = k x) (missed : ∀ t, p t = none → f t = g t) :
    SteadyAt f t := by
  have same := exact.append t
  cases h : p t with
  | none =>
      rw [h] at same
      exact hg.congr (missed _ h) (missed _ same)
  | some x =>
      have chosen := exact.steady.bind hk t
      rw [h] at same
      exact chosen.congr (by rw [found _ _ h, h]; rfl) (by rw [found _ _ same, same]; rfl)

theorem exact_splitFirst? {mark : Char} (other : mark ∉ closing) :
    Exact (Text.splitFirst? [mark]) :=
  ⟨Text.splitFirst?_suffix, Text.splitFirst?_append other⟩

end FileSelect.Regex
