import ShellFrontend.Proofs.GrammarReads
import ShellFrontend.Proofs.Pieces

/-! # Statement boundaries

A terminator behind balanced brackets is a boundary that nothing crosses: neither a
statement, nor a failed one, nor recovery. Parsing is a homomorphism over it.
-/

set_option autoImplicit false

namespace ShellFrontend

theorem openAfter_append {opening closing : Kind} {depth depth' : Nat} {first : List Token}
    (h : openAfter opening closing depth first = some depth') (second : List Token) :
    openAfter opening closing depth (first ++ second) = openAfter opening closing depth' second := by
  fun_induction openAfter opening closing depth first with
  | case1 depth =>
    obtain rfl := Option.some.inj h
    rfl
  | case2 depth token rest hopening ih => rw [List.cons_append, openAfter_opening _ _ hopening, ih h]
  | case3 => cases h
  | case4 token rest hopening hclosing depth ih =>
    have hne : closing ≠ opening := hclosing ▸ hopening
    rw [List.cons_append, openAfter_closing _ _ hclosing hne, ih h]
  | case5 depth token rest hopening hclosing ih =>
    rw [List.cons_append, openAfter_other _ _ hopening hclosing, ih h]

theorem openAfter_of_append {opening closing : Kind} {depth depth' : Nat} {first second : List Token}
    (h : openAfter opening closing depth (first ++ second) = some depth') :
    ∃ middle, openAfter opening closing middle second = some depth' := by
  induction first generalizing depth with
  | nil => exact ⟨depth, h⟩
  | cons token first ih =>
    rw [List.cons_append, openAfter.eq_def] at h
    dsimp only at h
    split at h
    · exact ih h
    · split at h
      · split at h
        · cases h
        · exact ih h
      · exact ih h

theorem openAfter_of_terminator {opening closing : Kind} {stop : Token} (hstop : stop.kind = .terminator)
    (hopening : opening ≠ .terminator) (hclosing : closing ≠ .terminator) (depth : Nat)
    (rest : List Token) :
    openAfter opening closing depth (stop :: rest) = openAfter opening closing depth rest :=
  openAfter_other _ _ (hstop ▸ hopening.symm) (hstop ▸ hclosing.symm)

section boundary

variable {stop : Token} {outer : List Token}

theorem sameFront_of_boundary {after : List Token} (final final' : Position) (left : List Token)
    (hafter : elseOnNextLine (stop :: after) = false) :
    SameFront final final' (left ++ [stop]) (left ++ stop :: after) :=
  SameFront.append left ⟨rfl, by simp [hafter]⟩

theorem Parser.ReadsStatement.at_boundary {α : Type} {parser : Parser α}
    (h : parser.ReadsStatement 0 0) (hstop : stop.kind = .terminator)
    (hopen : Balanced .openBrace .closeBrace outer) :
    (∃ value started, ∀ {final after}, elseOnNextLine (stop :: after) = false →
        parser.run final (outer ++ stop :: after) = .ok value after started) ∨
      (∃ value started left, left <:+ outer ∧ Balanced .openBrace .closeBrace left ∧
        ∀ {final after}, elseOnNextLine (stop :: after) = false →
          parser.run final (outer ++ stop :: after) = .ok value (left ++ stop :: after) started) ∨
      ∃ error started left, ∀ {final after}, elseOnNextLine (stop :: after) = false →
        parser.run final (outer ++ stop :: after) = .fail error (left ++ stop :: after) started := by
  cases hrun : parser.run ⟨0, ""⟩ (outer ++ [stop]) with
  | ok value rest started =>
    rcases h.ok hrun with ⟨read, stop', heq, hstop', hread, hsame⟩ | ⟨read, heq, hread, hsame⟩
    · obtain ⟨left, rfl, hrest, hleft⟩ := hread.ends_before_terminator hstop rfl hopen heq.symm
      cases left with
      | nil =>
        obtain ⟨rfl, rfl⟩ := List.cons.inj hrest
        refine .inl ⟨value, started, fun hafter => ?_⟩
        rw [List.append_nil]
        exact hsame (by simp [hafter])
      | cons first left =>
        obtain ⟨rfl, rfl⟩ := List.cons.inj hrest
        rw [openAfter_of_terminator hstop' (by decide) (by decide)] at hleft
        refine .inr (.inl ⟨value, started, left, ?_, hleft, fun hafter => ?_⟩)
        · exact ⟨read ++ [stop'], by simp⟩
        · have hfront := (sameFront_of_boundary ⟨0, ""⟩ ⟨0, ""⟩ left hafter).cons stop'
          simpa using hsame hfront.elseOnNextLine
    · obtain ⟨left, rfl, rfl, hleft⟩ := hread.ends_before_terminator hstop rfl hopen heq.symm
      refine .inr (.inl ⟨value, started, left, List.suffix_append _ _, hleft, fun hafter => ?_⟩)
      rw [List.append_assoc]
      exact hsame (sameFront_of_boundary _ _ left hafter)
  | fail error rest started =>
    obtain ⟨_, read, _, _, heq, hread, hsame⟩ := h.fail hrun
    obtain ⟨left, rfl, rfl, -⟩ := hread.ends_before_terminator hstop rfl hopen heq.symm
    refine .inr (.inr ⟨error, started, left, fun hafter => ?_⟩)
    rw [List.append_assoc]
    exact hsame (sameFront_of_boundary _ _ left hafter)

/-- What recovery may do at a boundary: stop behind it, or in front of some of what precedes it. -/
def StopsAt (stop : Token) (braces counted : Nat) (outer : List Token) : Prop :=
  (∀ after, skipStatement braces counted (outer ++ stop :: after) = after) ∨
    ∃ left, left <:+ outer.tail ∧ Balanced .openBrace .closeBrace left ∧
      ∀ after, skipStatement braces counted (outer ++ stop :: after) = left ++ stop :: after

theorem StopsAt.cons {token : Token} {braces counted braces' counted' : Nat}
    (hskip : ∀ rest, skipStatement braces counted (token :: rest) =
      skipStatement braces' counted' rest)
    (h : StopsAt stop braces' counted' outer) : StopsAt stop braces counted (token :: outer) := by
  rcases h with h | ⟨left, hleft, hopen, h⟩
  · exact .inl fun after => (hskip _).trans (h after)
  · exact .inr ⟨left, hleft.trans (List.tail_suffix _), hopen, fun after => (hskip _).trans (h after)⟩

theorem skipStatement_at_boundary (hstop : stop.kind = .terminator)
    (hend : ∀ token ∈ outer, token.kind ≠ .endOfInput) {braces parens counted : Nat}
    (hbraces : openAfter .openBrace .closeBrace braces outer = some 0)
    (hparens : openAfter .openParen .closeParen parens outer = some 0) (hcounted : counted ≤ parens) :
    StopsAt stop braces counted outer := by
  induction outer generalizing braces parens counted with
  | nil =>
    obtain rfl := Option.some.inj hbraces
    obtain rfl := Option.some.inj hparens
    obtain rfl := Nat.le_zero.1 hcounted
    refine .inl fun after => ?_
    rw [List.nil_append, skipStatement_terminator _ _ _ hstop]
    rfl
  | cons token outer ih =>
    have ih := fun {braces parens counted} =>
      @ih (fun token h => hend token (List.mem_cons_of_mem _ h)) braces parens counted
    cases hkind : token.kind with
    | endOfInput => exact absurd hkind (hend token List.mem_cons_self)
    | openBrace =>
      rw [openAfter_opening _ _ hkind] at hbraces
      rw [openAfter_other _ _ (by simp [hkind]) (by simp [hkind])] at hparens
      exact .cons (fun rest => skipStatement_openBrace _ _ rest hkind) (ih hbraces hparens hcounted)
    | closeBrace =>
      rw [openAfter_other _ _ (by simp [hkind]) (by simp [hkind])] at hparens
      cases braces with
      | zero => simp [openAfter, hkind] at hbraces
      | succ braces =>
        rw [openAfter_closing _ _ hkind (by decide)] at hbraces
        exact .cons (fun rest => skipStatement_closeBrace _ _ rest hkind)
          (ih hbraces hparens hcounted)
    | openParen =>
      rw [openAfter_other _ _ (by simp [hkind]) (by simp [hkind])] at hbraces
      rw [openAfter_opening _ _ hkind] at hparens
      exact .cons (fun rest => skipStatement_openParen _ _ rest hkind)
        (ih hbraces hparens (Nat.succ_le_succ hcounted))
    | closeParen =>
      rw [openAfter_other _ _ (by simp [hkind]) (by simp [hkind])] at hbraces
      cases parens with
      | zero => simp [openAfter, hkind] at hparens
      | succ parens =>
        rw [openAfter_closing _ _ hkind (by decide)] at hparens
        exact .cons (fun rest => skipStatement_closeParen _ _ rest hkind)
          (ih hbraces hparens (Nat.sub_le_of_le_add hcounted))
    | terminator =>
      rw [openAfter_of_terminator hkind (by decide) (by decide)] at hbraces hparens
      have hstarts : ∀ after, Recovery.startsStatement (outer ++ stop :: after) =
          Recovery.startsStatement (outer ++ [stop]) := by
        intro after
        cases outer <;> rfl
      have hends : ∀ after, Recovery.endsAt braces counted token (outer ++ stop :: after) =
          Recovery.endsAt braces counted token (outer ++ [stop]) := by
        intro after
        rw [Recovery.endsAt, Recovery.endsAt, hstarts]
      have hskip := fun after =>
        (skipStatement_terminator braces counted (outer ++ stop :: after) hkind).trans
          (by rw [hends after])
      cases hcase : Recovery.endsAt braces counted token (outer ++ [stop]) with
      | true =>
        have hzero : braces = 0 := by
          simp only [Recovery.endsAt, Bool.and_eq_true, decide_eq_true_eq] at hcase
          exact hcase.1
        subst hzero
        exact .inr ⟨outer, List.suffix_refl _, hbraces, fun after => (hskip after).trans (if_pos hcase)⟩
      | false =>
        have hpass := fun after => (hskip after).trans (if_neg (by simp [hcase]))
        rcases ih hbraces hparens hcounted with h | ⟨left, hleft, hopen, h⟩
        · exact .inl fun after => (hpass after).trans (h after)
        · exact .inr ⟨left, hleft.trans (List.tail_suffix _), hopen,
            fun after => (hpass after).trans (h after)⟩
    | _ =>
      rw [openAfter_other _ _ (by simp [hkind]) (by simp [hkind])] at hbraces hparens
      exact .cons (fun rest => skipStatement_plain _ _ rest (by rw [hkind]; rfl))
        (ih hbraces hparens hcounted)

end boundary

/-- What precedes a boundary gives the same statements and errors whatever follows it. -/
theorem results_at_boundary {stmt : Advancing Stmt} (hstmt : stmt.ReadsStatement 0 0)
    {stop : Token} (hstop : stop.kind = .terminator) (outer : List Token)
    (hend : ∀ token ∈ outer, token.kind ≠ .endOfInput)
    (hbraces : Balanced .openBrace .closeBrace outer) {parens : Nat}
    (hparens : openAfter .openParen .closeParen parens outer = some 0) :
    ∃ stmts errors, ∀ {final after}, elseOnNextLine (stop :: after) = false →
      Piece.results (pieces stmt final (outer ++ stop :: after)) =
        (stmts ++ (Piece.results (pieces stmt final after)).1,
          errors ++ (Piece.results (pieces stmt final after)).2) := by
  have hsuffix : ∀ {left}, left <:+ outer → (∀ token ∈ left, token.kind ≠ .endOfInput) ∧
      ∃ parens, openAfter .openParen .closeParen parens left = some 0 := by
    rintro left ⟨read, rfl⟩
    exact ⟨fun token h => hend token (List.mem_append_right _ h), openAfter_of_append hparens⟩
  cases outer with
  | nil => exact ⟨[], [], fun _ => results_of_terminator hstop⟩
  | cons token outer =>
    by_cases hkind : token.kind = .terminator
    · rw [Balanced, openAfter_of_terminator hkind (by decide) (by decide)] at hbraces
      obtain ⟨hend', parens', hparens'⟩ := hsuffix (List.suffix_cons _ _)
      obtain ⟨stmts, errors, h⟩ := results_at_boundary hstmt hstop outer hend' hbraces hparens'
      exact ⟨stmts, errors, fun hafter => (results_of_terminator hkind).trans (h hafter)⟩
    · have hstarts : token.kind.startsPiece := by
        simp [Kind.startsPiece, hkind, hend token List.mem_cons_self]
      rcases hstmt.at_boundary hstop hbraces with
        ⟨value, started, hrun⟩ | ⟨value, started, left, hleft, hopen, hrun⟩ |
          ⟨error, started, left, hrun⟩
      · exact ⟨[value], [], fun hafter => results_of_ok hstarts (hrun hafter)⟩
      · have hlt : left.length < (token :: outer).length := by
          have hrun' : stmt.run ⟨0, ""⟩ (token :: outer ++ [stop]) = .ok value (left ++ [stop]) started :=
            hrun rfl
          have h := stmt.rest_length_lt hrun'
          simp only [List.length_append, List.length_cons] at h ⊢
          omega
        obtain ⟨hend', parens', hparens'⟩ := hsuffix hleft
        obtain ⟨stmts, errors, h⟩ := results_at_boundary hstmt hstop left hend' hopen hparens'
        refine ⟨value :: stmts, errors, fun hafter => ?_⟩
        apply (results_of_ok hstarts (hrun hafter)).trans
        rw [h hafter]
        rfl
      · rcases skipStatement_at_boundary hstop hend hbraces hparens (Nat.zero_le _) with
          hskip | ⟨left, hleft, hopen, hskip⟩
        · exact ⟨[], [error], fun hafter => results_of_fail hstarts (hrun hafter) (hskip _)⟩
        · have hlt : left.length < (token :: outer).length :=
            Nat.lt_succ_of_le hleft.length_le
          obtain ⟨hend', parens', hparens'⟩ := hsuffix (hleft.trans (List.tail_suffix _))
          obtain ⟨stmts, errors, h⟩ := results_at_boundary hstmt hstop left hend' hopen hparens'
          refine ⟨stmts, error :: errors, fun hafter => ?_⟩
          apply (results_of_fail hstarts (hrun hafter) (hskip _)).trans
          rw [h hafter]
          rfl
termination_by outer.length

theorem endPosition_append (first : List Token) {second : List Token} (h : second ≠ [])
    (file : String) : endPosition (first ++ second) file = endPosition second file := by
  rw [endPosition, endPosition, List.getLast?_append, List.getLast?_eq_some_getLast h,
    Option.some_or]

/-- Parsing is a homomorphism over a terminator behind balanced brackets, failed statements
included, unless the terminator is a line break before an `else`. -/
theorem parse_append_of_balanced {before after : List Token} {stop : Token} (file : String)
    (hend : ∀ token ∈ before, token.kind ≠ .endOfInput)
    (hbraces : Balanced .openBrace .closeBrace before)
    (hparens : Balanced .openParen .closeParen before) (hstop : stop.kind = .terminator)
    (hafter : stop.isLineBreak = false ∨ ∀ token ∈ after.head?, token.kind ≠ .elseWord) :
    (parse (before ++ [stop] ++ after) file).program.statements =
        (parse (before ++ [stop]) file).program.statements ++
          (parse after file).program.statements ∧
      (parse (before ++ [stop] ++ after) file).errors =
        (parse (before ++ [stop]) file).errors ++ (parse after file).errors := by
  have hnextLine : elseOnNextLine (stop :: after) = false := by
    cases after with
    | nil => rfl
    | cons token rest =>
      simp only [List.head?_cons, Option.mem_some_iff, forall_eq'] at hafter
      simp only [elseOnNextLine, Bool.and_eq_false_iff, decide_eq_false_iff_not]
      exact hafter
  have hstmt := statement_readsStatement .standard
    (Layer.ofLevels_reads .standard nestingLimit) 0 0
  obtain ⟨stmts, errors, h⟩ := results_at_boundary hstmt hstop before hend hbraces hparens
  have hbefore := @h (endPosition (before ++ [stop]) file) [] rfl
  have hboth := @h (endPosition (before ++ [stop] ++ after) file) after hnextLine
  have hrest : pieces (statement .standard (.ofLevels .standard nestingLimit))
      (endPosition (before ++ [stop] ++ after) file) after =
        pieces (statement .standard (.ofLevels .standard nestingLimit))
          (endPosition after file) after := by
    cases after with
    | nil => simp
    | cons token rest => rw [endPosition_append _ (List.cons_ne_nil _ _)]
  rw [hrest] at hboth
  simp only [Piece.results, pieces_nil, List.filterMap_nil, List.append_nil, Prod.mk.injEq]
    at hbefore hboth
  rw [← hbefore.1, ← hbefore.2] at hboth
  simpa only [parse, Parsed.program, Parsed.errors, List.append_assoc, List.singleton_append]
    using hboth

/-- The broken `let = ( )` and its semicolon bring an error, and the name behind them is kept. -/
theorem parse_append_of_broken_binding :
    let before : List Token :=
      [⟨.letWord, "let", .between "shell" 0 3⟩, ⟨.assign, "=", .between "shell" 4 5⟩,
        ⟨.openParen, "(", .between "shell" 6 7⟩, ⟨.closeParen, ")", .between "shell" 8 9⟩]
    let stop : Token := ⟨.terminator, ";", .between "shell" 9 10⟩
    let after : List Token := [⟨.identifier, "x", .between "shell" 11 12⟩]
    (∀ token ∈ before, token.kind ≠ .endOfInput) ∧ Balanced .openBrace .closeBrace before ∧
      Balanced .openParen .closeParen before ∧ stop.kind = .terminator ∧
      (stop.isLineBreak = false ∨ ∀ token ∈ after.head?, token.kind ≠ .elseWord) ∧
      (parse (before ++ [stop] ++ after) "shell").program.statements =
        (parse (before ++ [stop]) "shell").program.statements ++
          (parse after "shell").program.statements ∧
      (parse (before ++ [stop] ++ after) "shell").errors =
        (parse (before ++ [stop]) "shell").errors ++ (parse after "shell").errors ∧
      (parse (before ++ [stop] ++ after) "shell").program.statements =
        [.expression (.identifier "x")] ∧
      (parse (before ++ [stop] ++ after) "shell").errors =
        [⟨.unexpected .identifier .assign "=", ⟨4, "shell"⟩⟩] := by
  intro before stop after
  have hend : ∀ token ∈ before, token.kind ≠ .endOfInput := by decide
  have hbraces : Balanced .openBrace .closeBrace before := by decide
  have hparens : Balanced .openParen .closeParen before := by decide
  have hstop : stop.kind = .terminator := rfl
  have hafter : stop.isLineBreak = false ∨ ∀ token ∈ after.head?, token.kind ≠ .elseWord :=
    .inl (by decide)
  obtain ⟨hstmts, herrors⟩ := parse_append_of_balanced "shell" hend hbraces hparens hstop hafter
  have hkept : (parse (before ++ [stop]) "shell").program.statements ++
      (parse after "shell").program.statements = [.expression (.identifier "x")] := by
    with_unfolding_all rfl
  have herror : (parse (before ++ [stop]) "shell").errors ++ (parse after "shell").errors =
      [⟨.unexpected .identifier .assign "=", ⟨4, "shell"⟩⟩] := by decide +kernel
  exact ⟨hend, hbraces, hparens, hstop, hafter, hstmts, herrors, hstmts.trans hkept,
    herrors.trans herror⟩

end ShellFrontend
