import ShellFrontend.Proofs.Consequences

/-! # Blank lines

A further terminator behind one of an accepted program changes nothing, unless an `else` follows:
the word is looked for behind the brace of its conditional and on the line after it, but not behind
a blank line.
-/

set_option autoImplicit false

namespace ShellFrontend

section blank

variable {before after : List Token} {stop blank : Token} {levels : Nat} {body : List Stmt}

theorem Derives.insert_terminator
    (h : Derives .body levels (before ++ stop :: after) .endOfInput body)
    (hstop : stop.kind = .terminator) (hblank : blank.kind = .terminator)
    (hword : headKind .endOfInput after ≠ .elseWord) :
    Derives .body levels (before ++ stop :: blank :: after) .endOfInput body := by
  have hmore : AreTerminators [blank] := List.forall_mem_singleton.2 hblank
  have hother : Respaced .endOfInput (before ++ stop :: after) (before ++ stop :: blank :: after) :=
    .append (.refl before) (.exchange hstop hstop hmore hword (.refl after))
  exact h.body_respaced hother

theorem Derives.not_elseWord_behind_terminators
    (h : Derives .body levels (before ++ stop :: blank :: after) .endOfInput body)
    (hstop : stop.kind = .terminator) (hblank : blank.kind = .terminator) :
    headKind .endOfInput after ≠ .elseWord := by
  intro hword
  cases after with
  | nil => cases hword
  | cons word after =>
    have htokens : before ++ stop :: blank :: word :: after =
        before ++ [stop] ++ [blank] ++ word :: after := by simp
    have hbelongs : ElsesBelong [] (before ++ stop :: blank :: word :: after) :=
      h.elsesBelong trivial
    exact TakesElse.not_of_terminators hstop hblank (hbelongs htokens hword)

/-- Directly behind a terminator of an accepted program a further one may be put, as by a blank
line, just if no `else` follows, and then the program stays the same. -/
theorem parse_blank_line_iff (file : String)
    (hend : ∀ token ∈ before ++ stop :: after, token.kind ≠ .endOfInput)
    (haccepted : (parse (before ++ stop :: after) file).errors = [])
    (hstop : stop.kind = .terminator) (hblank : blank.kind = .terminator) :
    ((parse (before ++ stop :: blank :: after) file).errors = [] ↔
        headKind .endOfInput after ≠ .elseWord) ∧
      (headKind .endOfInput after ≠ .elseWord →
        (parse (before ++ stop :: blank :: after) file).program =
          (parse (before ++ stop :: after) file).program) := by
  have hsame : headKind .endOfInput after ≠ .elseWord →
      (parse (before ++ stop :: blank :: after) file).program =
          (parse (before ++ stop :: after) file).program ∧
        (parse (before ++ stop :: blank :: after) file).errors = [] := by
    intro hword
    obtain ⟨levels, hlevels, hbody⟩ := derivesWithin_of_parse hend haccepted
    have hother := hbody.insert_terminator hstop hblank hword
    exact parse_of_derivesWithin ⟨levels, hlevels, hother⟩ file
  refine ⟨⟨fun herrors => ?_, fun hword => (hsame hword).2⟩, fun hword => (hsame hword).1⟩
  have hend' : ∀ token ∈ before ++ stop :: blank :: after, token.kind ≠ .endOfInput := by
    rw [List.forall_mem_append, List.forall_mem_cons] at hend
    rw [List.forall_mem_append, List.forall_mem_cons, List.forall_mem_cons]
    exact ⟨hend.1, hend.2.1, by simp [hblank], hend.2.2⟩
  obtain ⟨levels, hlevels, hbody⟩ := derivesWithin_of_parse hend' herrors
  exact hbody.not_elseWord_behind_terminators hstop hblank

end blank

/-- An `else` on the line behind a closing brace is no longer read when that line is left blank. -/
theorem parse_blank_line_of_else :
    let word (kind : Kind) (text : String) : Token := ⟨kind, text, .between "shell" 0 0⟩
    let lineBreak := word .terminator "\n"
    let block := [word .openBrace "\x7b", word .closeBrace "\x7d"]
    let before := [word .ifWord "if", word .openParen "(", word .identifier "a",
      word .closeParen ")"] ++ block
    let after := word .elseWord "else" :: block
    (∀ token ∈ before ++ lineBreak :: after, token.kind ≠ .endOfInput) ∧
      (parse (before ++ lineBreak :: after) "shell").errors = [] ∧ lineBreak.kind = .terminator ∧
      (parse (before ++ lineBreak :: lineBreak :: after) "shell").errors ≠ [] := by
  intro word lineBreak block before after
  have hend : ∀ token ∈ before ++ lineBreak :: after, token.kind ≠ .endOfInput := by decide
  have haccepted : (parse (before ++ lineBreak :: after) "shell").errors = [] := by decide +kernel
  obtain ⟨hiff, -⟩ :=
    @parse_blank_line_iff before after lineBreak lineBreak "shell" hend haccepted rfl rfl
  exact ⟨hend, haccepted, rfl, fun herrors => hiff.1 herrors rfl⟩

end ShellFrontend
