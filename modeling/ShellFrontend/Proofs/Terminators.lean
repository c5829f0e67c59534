import ShellFrontend.Proofs.Acceptance
import ShellFrontend.Proofs.Viability

/-! # Terminators may be exchanged

Where a program of the grammar has a terminator that is not directly in front of an `else`, it may
have one or more others: the first ends the statement that the old one ended, and the further ones
are empty statements. At the end of a program any number of terminators may stand.
-/

set_option autoImplicit false

namespace ShellFrontend

def AreTerminators (tokens : List Token) : Prop :=
  ∀ token ∈ tokens, token.kind = .terminator

/-- Tokens, in front of one of kind `next`, in which terminators have become one or more others. One
directly in front of an `else` stays as it is. -/
inductive Respaced (next : Kind) : List Token → List Token → Prop
  | nil : Respaced next [] []
  | keep (token : Token) {tokens other : List Token} (tail : Respaced next tokens other) :
      Respaced next (token :: tokens) (token :: other)
  | exchange {stop stop' : Token} {more tokens other : List Token} (hstop : stop.kind = .terminator)
      (hstop' : stop'.kind = .terminator) (hmore : AreTerminators more)
      (hword : headKind next tokens ≠ .elseWord) (tail : Respaced next tokens other) :
      Respaced next (stop :: tokens) (stop' :: more ++ other)

theorem headKind_append (next : Kind) (first second : List Token) :
    headKind next (first ++ second) = headKind (headKind next second) first := by
  cases first <;> rfl

namespace Respaced

variable {next : Kind} {token : Token} {tokens other : List Token}

theorem refl (tokens : List Token) : Respaced next tokens tokens := by
  induction tokens with
  | nil => exact .nil
  | cons token tokens ih => exact .keep token ih

theorem headKind_eq (h : Respaced next tokens other) (kind : Kind) :
    headKind kind other = headKind kind tokens := by
  cases h with
  | nil => rfl
  | keep => rfl
  | exchange hstop hstop' => exact hstop'.trans hstop.symm

theorem append {first first' second second' : List Token}
    (hfirst : Respaced (headKind next second) first first') (h : Respaced next second second') :
    Respaced next (first ++ second) (first' ++ second') := by
  induction hfirst with
  | nil => exact h
  | keep token _ ih => exact .keep token ih
  | @exchange _ _ _ tokens _ hstop hstop' hmore hword _ ih =>
    rw [List.append_assoc]
    refine .exchange hstop hstop' hmore ?_ ih
    change headKind next (tokens ++ second) ≠ .elseWord
    rwa [headKind_append]

theorem of_append {first second : List Token} (h : Respaced next (first ++ second) other) :
    ∃ first' second', other = first' ++ second' ∧
      Respaced (headKind next second) first first' ∧ Respaced next second second' := by
  induction first generalizing other with
  | nil => exact ⟨[], other, rfl, .nil, h⟩
  | cons token first ih =>
    cases h with
    | keep _ tail =>
      obtain ⟨first', second', rfl, hfirst, hsecond⟩ := ih tail
      exact ⟨token :: first', second', rfl, .keep token hfirst, hsecond⟩
    | @exchange _ stop' more _ _ hstop hstop' hmore hword tail =>
      obtain ⟨first', second', rfl, hfirst, hsecond⟩ := ih tail
      change headKind next (first ++ second) ≠ .elseWord at hword
      rw [headKind_append] at hword
      exact ⟨stop' :: more ++ first', second', (List.append_assoc ..).symm,
        .exchange hstop hstop' hmore hword hfirst, hsecond⟩

theorem of_cons {kind : Kind} (h : Respaced next (token :: tokens) other) (hkind : token.kind = kind)
    (hne : kind ≠ .terminator := by decide) :
    ∃ other', other = token :: other' ∧ Respaced next tokens other' := by
  cases h with
  | keep _ tail => exact ⟨_, rfl, tail⟩
  | exchange hstop => exact absurd (hkind.symm.trans hstop) hne

theorem of_nil (h : Respaced next [] other) : other = [] := by
  cases h
  rfl

theorem of_singleton {kind : Kind} (h : Respaced next [token] other) (hkind : token.kind = kind)
    (hne : kind ≠ .terminator := by decide) : other = [token] := by
  obtain ⟨other', rfl, htail⟩ := h.of_cons hkind hne
  rw [htail.of_nil]

theorem eq_of_ne_terminator (h : Respaced next tokens other)
    (hne : ∀ token ∈ tokens, token.kind ≠ .terminator) : other = tokens := by
  induction h with
  | nil => rfl
  | keep token _ ih =>
    rw [ih (List.forall_mem_cons.1 hne).2]
  | exchange hstop => exact absurd hstop (List.forall_mem_cons.1 hne).1

end Respaced

theorem Parameters.kind_of_mem {phrase : List Token} {names : List String}
    (h : Parameters phrase names) {token : Token} (htoken : token ∈ phrase) :
    token.kind ∈ [Kind.openParen, .closeParen, .identifier, .comma] := by
  have hnames : ∀ {phrase names}, Names phrase names → ∀ token ∈ phrase,
      token.kind ∈ [Kind.openParen, .closeParen, .identifier, .comma] := by
    intro phrase names h
    induction h with
    | last h => simp [h]
    | more h hcomma _ ih => simpa [h, hcomma] using ih
  cases h with
  | none hopening hclosing =>
    obtain rfl | rfl : token = _ ∨ token = _ := by simpa using htoken
    · simp [hopening]
    · simp [hclosing]
  | some hopening h hclosing =>
    rcases List.mem_append.1 htoken with htoken | htoken
    · rcases List.mem_cons.1 htoken with rfl | htoken
      · simp [hopening]
      · exact hnames h token htoken
    · obtain rfl := List.mem_singleton.1 htoken
      simp [hclosing]

theorem Ends.respaced {next : Kind} {stop other : List Token} (h : Ends next stop)
    (hother : Respaced next stop other) :
    ∃ stop' more, other = stop' ++ more ∧ AreTerminators more ∧ Ends (headKind next more) stop' ∧
      headKind (headKind next more) stop' = headKind next stop := by
  cases h with
  | @terminator stop hstop =>
    cases hother with
    | keep _ tail =>
      obtain rfl := tail.of_nil
      exact ⟨[stop], [], rfl, List.forall_mem_nil _, .terminator hstop, rfl⟩
    | @exchange _ stop' more _ _ _ hstop' hmore _ tail =>
      obtain rfl := tail.of_nil
      exact ⟨[stop'], more, by simp, hmore, .terminator hstop', hstop'.trans hstop.symm⟩
  | outside hnext =>
    obtain rfl := hother.of_nil
    exact ⟨[], [], rfl, List.forall_mem_nil _, .outside hnext, rfl⟩

namespace Derives

variable {levels : Nat} {phrase more : List Token} {next : Kind}

theorem body_behind {body : List Stmt} (hmore : AreTerminators more)
    (h : Derives .body levels phrase next body) : Derives .body levels (more ++ phrase) next body := by
  induction more with
  | nil => exact h
  | cons stop more ih =>
    obtain ⟨hstop, hmore⟩ := List.forall_mem_cons.1 hmore
    exact .emptyStatement hstop (ih hmore)

/-- The exchanged tokens are derived like the old ones, but for further terminators behind a
statement, which are left for its block. -/
private def Respaces : (symbol : Symbol) → Nat → List Token → Kind → symbol.Tree → Prop
  | .statement, levels, phrase, next, tree => ∀ {other}, Respaced next phrase other →
    ∃ first more, other = first ++ more ∧ AreTerminators more ∧
      Derives .statement levels first (headKind next more) tree
  | symbol, levels, phrase, next, tree => ∀ {other}, Respaced next phrase other →
    Derives symbol levels other next tree

private theorem respaces {symbol : Symbol} {tree : symbol.Tree}
    (h : Derives symbol levels phrase next tree) : Respaces symbol levels phrase next tree := by
  induction h with
  | tighter hindex _ ih => exact fun hother => .tighter hindex (ih hother)
  | @binary op token _ _ _ _ _ _ _ _ hop _ ihleft ihright =>
    intro other hother
    obtain ⟨left, right, rfl, hleft, hright⟩ := hother.of_append
    obtain ⟨right, rfl, hright'⟩ := hright.of_cons hop.symm (by cases op <;> decide)
    exact .binary (ihleft hleft) hop (ihright hright')
  | tightest _ ih => exact fun hother => .tightest (ih hother)
  | @unary op _ _ _ _ _ hop _ ih =>
    intro other hother
    obtain ⟨right, rfl, hright⟩ := hother.of_cons hop.symm (by cases op <;> decide)
    exact .unary hop (ih hright)
  | operand _ ih => exact fun hother => .operand (ih hother)
  | literal h =>
    intro other hother
    obtain rfl := hother.of_singleton rfl (by cases h <;> simp [*])
    exact .literal h
  | identifier h hnext =>
    intro other hother
    obtain rfl := hother.of_singleton h
    exact .identifier h hnext
  | @call name opening closing _ h hopening hclosing =>
    intro other hother
    obtain rfl : other = [name, opening, closing] :=
      hother.eq_of_ne_terminator (by simp [h, hopening, hclosing])
    exact .call h hopening hclosing
  | callWith h hopening _ hclosing ih =>
    intro other hother
    obtain ⟨front, last, rfl, hfront, hlast⟩ := hother.of_append
    obtain ⟨front, rfl, hfront'⟩ := hfront.of_cons h
    obtain ⟨arguments, rfl, harguments⟩ := hfront'.of_cons hopening
    obtain rfl := hlast.of_singleton hclosing
    exact .callWith h hopening (ih (hclosing ▸ harguments)) hclosing
  | grouping hopening _ hclosing ih =>
    intro other hother
    obtain ⟨front, last, rfl, hfront, hlast⟩ := hother.of_append
    obtain ⟨inner, rfl, hinner⟩ := hfront.of_cons hopening
    obtain rfl := hlast.of_singleton hclosing
    exact .grouping hopening (ih (hclosing ▸ hinner)) hclosing
  | conditional hword hopening _ hclosing _ _ ihcondition ihconsequence ihother =>
    intro other hother
    obtain ⟨front, alternative, rfl, hfront, halternative⟩ := hother.of_append
    obtain ⟨front, back, rfl, hfront', hback⟩ := hfront.of_append
    obtain ⟨front, rfl, hfront''⟩ := hfront'.of_cons hword
    obtain ⟨condition, rfl, hcondition⟩ := hfront''.of_cons hopening
    obtain ⟨consequence, rfl, hconsequence⟩ := hback.of_cons hclosing
    have hblock := ihconsequence hconsequence
    rw [← halternative.headKind_eq] at hblock
    exact .conditional hword hopening (ihcondition (hclosing ▸ hcondition)) hclosing hblock
      (ihother halternative)
  | function hword hparameters _ ih =>
    intro other hother
    obtain ⟨front, body, rfl, hfront, hbody⟩ := hother.of_append
    obtain ⟨parameters, rfl, hfront'⟩ := hfront.of_cons hword
    obtain rfl := hfront'.eq_of_ne_terminator fun token htoken hkind => by
      simpa [hkind] using hparameters.kind_of_mem htoken
    exact .function hword hparameters (ih hbody)
  | lastArgument _ ih => exact fun hother => .lastArgument (ih hother)
  | argument _ hcomma _ ih ihtail =>
    intro other hother
    obtain ⟨first, back, rfl, hfirst, hback⟩ := hother.of_append
    obtain ⟨tail, rfl, htail⟩ := hback.of_cons hcomma
    exact .argument (ih (hcomma ▸ hfirst)) hcomma (ihtail htail)
  | noAlternative =>
    intro other hother
    obtain rfl := hother.of_nil
    exact .noAlternative
  | alternative hword _ ih =>
    intro other hother
    obtain ⟨body, rfl, hbody⟩ := hother.of_cons hword
    exact .alternative hword (ih hbody)
  | alternativeOnNextLine hbreak hword _ ih =>
    intro other hother
    cases hother with
    | keep _ tail =>
      obtain ⟨body, rfl, hbody⟩ := tail.of_cons hword
      exact .alternativeOnNextLine hbreak hword (ih hbody)
    | exchange _ _ _ hne => exact absurd hword hne
  | block hopening _ hclosing ih =>
    intro other hother
    obtain ⟨front, last, rfl, hfront, hlast⟩ := hother.of_append
    obtain ⟨inner, rfl, hinner⟩ := hfront.of_cons hopening
    obtain rfl := hlast.of_singleton hclosing
    exact .block hopening (ih (hclosing ▸ hinner)) hclosing
  | emptyBody =>
    intro other hother
    obtain rfl := hother.of_nil
    exact .emptyBody
  | emptyStatement hstop _ ih =>
    intro other hother
    cases hother with
    | keep _ tail => exact .emptyStatement hstop (ih tail)
    | exchange _ hstop' hmore _ tail => exact .emptyStatement hstop' (body_behind hmore (ih tail))
  | statements _ _ ih ihtail =>
    intro other hother
    obtain ⟨front, second, rfl, hfront, hsecond⟩ := hother.of_append
    obtain ⟨first, more, rfl, hmore, hstmt⟩ := ih hfront
    rw [← hsecond.headKind_eq, ← headKind_append] at hstmt
    rw [List.append_assoc]
    exact .statements hstmt (body_behind hmore (ihtail hsecond))
  | binding hword hname hassign _ hstop ih =>
    intro other hother
    obtain ⟨front, back, rfl, hfront, hback⟩ := hother.of_append
    obtain ⟨front, rfl, hfront'⟩ := hfront.of_cons hword
    obtain ⟨front, rfl, hfront''⟩ := hfront'.of_cons hname
    obtain ⟨value, rfl, hvalue⟩ := hfront''.of_cons hassign
    obtain ⟨stop, more, rfl, hmore, hends, hhead⟩ := hstop.respaced hback
    exact ⟨_, more, (List.append_assoc ..).symm, hmore,
      .binding hword hname hassign (hhead ▸ ih hvalue) hends⟩
  | result hword _ hstop ih =>
    intro other hother
    obtain ⟨front, back, rfl, hfront, hback⟩ := hother.of_append
    obtain ⟨value, rfl, hvalue⟩ := hfront.of_cons hword
    obtain ⟨stop, more, rfl, hmore, hends, hhead⟩ := hstop.respaced hback
    exact ⟨_, more, (List.append_assoc ..).symm, hmore, .result hword (hhead ▸ ih hvalue) hends⟩
  | expression _ hstop ih =>
    intro other hother
    obtain ⟨value, back, rfl, hvalue, hback⟩ := hother.of_append
    obtain ⟨stop, more, rfl, hmore, hends, hhead⟩ := hstop.respaced hback
    exact ⟨_, more, (List.append_assoc ..).symm, hmore, .expression (hhead ▸ ih hvalue) hends⟩
  | blockStatement _ ih =>
    exact fun hother => ⟨_, [], (List.append_nil _).symm, List.forall_mem_nil _,
      .blockStatement (ih hother)⟩

theorem body_respaced {body : List Stmt} {other : List Token}
    (h : Derives .body levels phrase next body) (hother : Respaced next phrase other) :
    Derives .body levels other next body :=
  h.respaces hother

private theorem value_before_terminator {value : Expr} {stop : List Token} {last : Token}
    (h : Derives (.tier 0) levels phrase (headKind next stop) value) (hstop : Ends next stop)
    (hlast : last.kind = .terminator) (next' : Kind) :
    (Derives (.tier 0) levels phrase (headKind last.kind stop) value ∧ Ends last.kind stop) ∨
      (Derives (.tier 0) levels phrase (headKind next' (stop ++ [last])) value ∧
        Ends next' (stop ++ [last])) := by
  cases hstop with
  | terminator hstop => exact .inl ⟨h, .terminator hstop⟩
  | outside hnext =>
    have hadmits : (Symbol.tier 0).Admits last.kind := by simp [Symbol.Admits, hlast]
    exact .inr ⟨h.retarget hadmits, .terminator hlast⟩

/-- A terminator behind a statement ends it, unless it has ended before. -/
theorem before_terminator {stmt : Stmt} {last : Token}
    (h : Derives .statement levels phrase next stmt) (hlast : last.kind = .terminator)
    (next' : Kind) :
    Derives .statement levels phrase last.kind stmt ∨
      Derives .statement levels (phrase ++ [last]) next' stmt := by
  cases h with
  | binding hword hname hassign h hstop =>
    rw [List.append_assoc]
    rcases value_before_terminator h hstop hlast next' with ⟨h, hstop⟩ | ⟨h, hstop⟩
    · exact .inl (.binding hword hname hassign h hstop)
    · exact .inr (.binding hword hname hassign h hstop)
  | result hword h hstop =>
    rw [List.append_assoc]
    rcases value_before_terminator h hstop hlast next' with ⟨h, hstop⟩ | ⟨h, hstop⟩
    · exact .inl (.result hword h hstop)
    · exact .inr (.result hword h hstop)
  | expression h hstop =>
    rw [List.append_assoc]
    rcases value_before_terminator h hstop hlast next' with ⟨h, hstop⟩ | ⟨h, hstop⟩
    · exact .inl (.expression h hstop)
    · exact .inr (.expression h hstop)
  | blockStatement h => exact .inl (.blockStatement (h.retarget trivial))

private def Precedes : (symbol : Symbol) → Nat → List Token → Kind → symbol.Tree → Prop
  | .body, levels, phrase, next, tree => ∀ {more}, AreTerminators more →
    Derives .body levels (phrase ++ more) next tree
  | _, _, _, _, _ => True

private theorem precedes {symbol : Symbol} {tree : symbol.Tree}
    (h : Derives symbol levels phrase next tree) : Precedes symbol levels phrase next tree := by
  induction h with
  | @emptyBody next =>
    intro more hmore
    have hbody : Derives .body 0 (more ++ []) next [] := body_behind hmore .emptyBody
    rwa [List.append_nil] at hbody
  | emptyStatement hstop _ ih => exact fun hmore => .emptyStatement hstop (ih hmore)
  | @statements _ _ phrase phrase' next _ _ h tail _ ih =>
    intro more hmore
    rw [List.append_assoc]
    cases phrase' with
    | cons token phrase' => exact .statements h (ih hmore)
    | nil =>
      cases more with
      | nil => exact .statements h tail
      | cons last more =>
        obtain ⟨hlast, hmore'⟩ := List.forall_mem_cons.1 hmore
        rcases h.before_terminator hlast (headKind next more) with h | h
        · exact .statements h (ih hmore)
        · rw [List.nil_append, List.append_cons]
          exact .statements h (ih hmore')
  | _ => trivial

theorem body_before {body : List Stmt} (h : Derives .body levels phrase next body)
    (hmore : AreTerminators more) : Derives .body levels (phrase ++ more) next body :=
  h.precedes hmore

end Derives

/-- An accepted program stays the same when terminators that are not in front of an `else` are
exchanged for others and further ones are put behind it. -/
theorem parse_respaced {tokens other more : List Token} (file : String)
    (hend : ∀ token ∈ tokens, token.kind ≠ .endOfInput) (haccepted : (parse tokens file).errors = [])
    (hother : Respaced .endOfInput tokens other) (hmore : AreTerminators more) :
    (parse (other ++ more) file).program = (parse tokens file).program ∧
      (parse (other ++ more) file).errors = [] := by
  obtain ⟨levels, hlevels, hbody⟩ := derivesWithin_of_parse hend haccepted
  have hother' := (hbody.body_respaced hother).body_before hmore
  exact parse_of_derivesWithin ⟨levels, hlevels, hother'⟩ file

/-- A semicolon behind a name and a line break in a block are exchanged, but not the line break in
front of the `else`, and a line break and a semicolon are put behind the last block. -/
theorem parse_respaced_of_conditional :
    let word (kind : Kind) (text : String) : Token := ⟨kind, text, .between "shell" 0 0⟩
    let name := word .identifier "x"
    let semicolon := word .terminator ";"
    let lineBreak := word .terminator "\n"
    let opening := word .openBrace "\x7b"
    let closing := word .closeBrace "\x7d"
    let condition := [word .ifWord "if", word .openParen "(", name, word .closeParen ")"]
    let alternative := [lineBreak, word .elseWord "else", opening, name, closing]
    let tokens := [name, semicolon] ++ condition ++ [opening, name, lineBreak, closing] ++ alternative
    let other := [name, lineBreak] ++ condition ++ [opening, name, semicolon, closing] ++ alternative
    let more := [lineBreak, semicolon]
    (∀ token ∈ tokens, token.kind ≠ .endOfInput) ∧ (parse tokens "shell").errors = [] ∧
      Respaced .endOfInput tokens other ∧ AreTerminators more ∧
      (parse (other ++ more) "shell").program = (parse tokens "shell").program ∧
      (parse (other ++ more) "shell").errors = [] ∧
      (parse (other ++ more) "shell").program.statements = [.expression (.identifier "x"),
        .expression (.conditional (.identifier "x") [.expression (.identifier "x")]
          (some [.expression (.identifier "x")]))] := by
  intro word name semicolon lineBreak opening closing condition alternative tokens other more
  have hend : ∀ token ∈ tokens, token.kind ≠ .endOfInput := by decide
  have haccepted : (parse tokens "shell").errors = [] := by decide +kernel
  have hblock : Respaced .ifWord [name, semicolon] [name, lineBreak] :=
    .keep _ (.exchange rfl rfl (List.forall_mem_nil _) (by decide) .nil)
  have hbranch : Respaced .terminator [opening, name, lineBreak, closing]
      [opening, name, semicolon, closing] :=
    .keep _ (.keep _ (.exchange rfl rfl (List.forall_mem_nil _) (by decide) (.keep _ .nil)))
  have hother : Respaced .endOfInput tokens other :=
    .append (.append (.append hblock (.refl condition)) hbranch) (.refl alternative)
  have hmore : AreTerminators more := by
    simp [more, AreTerminators, lineBreak, semicolon, word]
  obtain ⟨hprogram, herrors⟩ := parse_respaced "shell" hend haccepted hother hmore
  have hstmts : (parse tokens "shell").program.statements = [.expression (.identifier "x"),
      .expression (.conditional (.identifier "x") [.expression (.identifier "x")]
        (some [.expression (.identifier "x")]))] := by with_unfolding_all rfl
  exact ⟨hend, haccepted, hother, hmore, hprogram, herrors,
    (congrArg Program.statements hprogram).trans hstmts⟩

end ShellFrontend
