import ShellFrontend.Lexeme.Rule

/-! # Scanning

A source is cut into lexemes from left to right. Nothing is lost: written one after
another, the lexemes are the source (`flatMap_written_ofSource`).
-/

set_option autoImplicit false

namespace ShellFrontend.Lexeme

/-- The first lexeme of a text. A character that no rule takes is an illegal token of
its own. -/
def first (c : Char) (rest : List Char) : Lexeme :=
  (rules.findSome? (·.lexeme? c rest)).getD (verbatim .illegal [c])

def ofSource : List Char → List Lexeme
  | [] => []
  | c :: rest => first c rest :: ofSource (rest.drop (first c rest).written.tail.length)
termination_by source => source.length
decreasing_by
  simp only [List.length_drop, List.length_cons]
  omega

/-- A closed body and its delimiter start the text in which they were found. -/
theorem body_isPrefix {q : Text.Quoting} {source body : List Char}
    (h : q.body? source = some body) : body ++ [q.delimiter] <+: source := by
  fun_induction Text.Quoting.body? q source generalizing body with
  | case1 c rest ih =>
    obtain ⟨b, hb, rfl⟩ := Option.map_eq_some_iff.1 h
    simpa using ih hb
  | case2 rest _ =>
    obtain rfl := Option.some.inj h
    simp
  | case3 c rest _ _ ih =>
    obtain ⟨b, hb, rfl⟩ := Option.map_eq_some_iff.1 h
    simpa using ih hb
  | case4 => simp at h

theorem others_isPrefix {pattern : Pattern} {c : Char} {rest others : List Char}
    (h : pattern.others? c rest = some others) : others <+: rest := by
  cases pattern with
  | run first rule =>
    simp only [Pattern.others?, Option.ite_none_right_eq_some, Option.some.injEq] at h
    exact h.2 ▸ List.takeWhile_prefix rule
  | exactly first text =>
    simp only [Pattern.others?, Option.ite_none_right_eq_some, Bool.and_eq_true,
      Option.some.injEq] at h
    exact h.2 ▸ List.isPrefixOf_iff_prefix.1 h.1.2

/-- A rule takes the first character and some of the text after it. -/
theorem written_of_lexeme? {rule : Rule} {c : Char} {rest : List Char} {lexeme : Lexeme}
    (h : rule.lexeme? c rest = some lexeme) :
    ∃ more, lexeme.written = c :: more ∧ more <+: rest := by
  obtain ⟨others, hothers, rfl⟩ := Option.map_eq_some_iff.1 h
  have hprefix := others_isPrefix hothers
  cases rule.meaning with
  | literal kind quoting =>
    simp only [Meaning.lexeme, ofLiteral]
    split
    · exact ⟨_, rfl, body_isPrefix ‹_›⟩
    · exact ⟨rest, rfl, List.prefix_refl rest⟩
  | _ => exact ⟨others, rfl, hprefix⟩

theorem written_first (c : Char) (rest : List Char) :
    ∃ more, (first c rest).written = c :: more ∧ more <+: rest := by
  unfold first
  cases h : rules.findSome? (·.lexeme? c rest) with
  | none => exact ⟨[], rfl, List.nil_prefix⟩
  | some lexeme =>
    obtain ⟨rule, _, hrule⟩ := List.exists_of_findSome?_eq_some h
    exact written_of_lexeme? hrule

theorem flatMap_written_ofSource (source : List Char) :
    (ofSource source).flatMap written = source := by
  fun_induction ofSource source with
  | case1 => rfl
  | case2 c rest ih =>
    obtain ⟨more, hwritten, tail, rfl⟩ := written_first c rest
    rw [List.flatMap_cons, ih, hwritten]
    simp

end ShellFrontend.Lexeme
