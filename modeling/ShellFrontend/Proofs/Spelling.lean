import ShellFrontend.Proofs.Scanning
import ShellFrontend.Tree.Render

/-! # What a rendered tree says

The rendering of a well-formed tree is scanned as the tokens that spell it: the signs between
the parts of a tree keep their tokens apart.
-/

set_option autoImplicit false

namespace ShellFrontend

open ShellFrontend.Lexeme (isGap isLetter isDigitOrPoint verbatim)

mutual

/-- Names are names, and numbers are finite and not negative. -/
def Expr.isWellFormed : Expr → Bool
  | .identifier name => isName name
  | .number value => value.isFinite && !value.negative
  | .boolean _ | .string _ | .command _ => true
  | .unary _ right => right.isWellFormed
  | .binary left _ right => left.isWellFormed && right.isWellFormed
  | .conditional condition consequence alternative =>
    condition.isWellFormed && blockIsWellFormed consequence && alternativeIsWellFormed alternative
  | .function parameters body => parameters.all isName && blockIsWellFormed body
  | .call callee arguments => isName callee && argumentsAreWellFormed arguments

def Stmt.isWellFormed : Stmt → Bool
  | .binding name value => isName name && value.isWellFormed
  | .result value | .expression value => value.isWellFormed
  | .block body => blockIsWellFormed body

def blockIsWellFormed : List Stmt → Bool
  | [] => true
  | stmt :: stmts => stmt.isWellFormed && blockIsWellFormed stmts

def alternativeIsWellFormed : Option (List Stmt) → Bool
  | none => true
  | some body => blockIsWellFormed body

def argumentsAreWellFormed : List Expr → Bool
  | [] => true
  | argument :: arguments => argument.isWellFormed && argumentsAreWellFormed arguments

end

def sign (kind : Kind) (c : Char) : Kind × String :=
  (kind, String.singleton c)

def namesSpelling : List String → List (Kind × String)
  | [] => []
  | [name] => [(.identifier, name)]
  | name :: names => (.identifier, name) :: sign .comma ',' :: namesSpelling names

mutual

/-- The tokens of an expression, as kinds and texts. -/
def Expr.spelling : Expr → List (Kind × String)
  | .identifier name => [(.identifier, name)]
  | .number value => [(.number, String.ofList value.text)]
  | .boolean value => [if value then (.trueWord, "true") else (.falseWord, "false")]
  | .string text => [(.string, text)]
  | .command text => [(.command, text)]
  | .unary op right =>
    sign .openParen '(' :: sign op.kind op.symbol :: right.spelling ++ [sign .closeParen ')']
  | .binary left op right =>
    sign .openParen '(' :: left.spelling ++ (op.kind, String.ofList op.symbol) :: right.spelling ++
      [sign .closeParen ')']
  | .conditional condition consequence alternative =>
    (.ifWord, "if") :: (if condition.isParenthesized then condition.spelling
      else sign .openParen '(' :: condition.spelling ++ [sign .closeParen ')']) ++
      blockSpelling consequence ++ alternativeSpelling alternative
  | .function parameters body =>
    (.fnWord, "fn") :: sign .openParen '(' :: namesSpelling parameters ++
      sign .closeParen ')' :: blockSpelling body
  | .call callee arguments =>
    (.identifier, callee) :: sign .openParen '(' :: argumentsSpelling arguments ++
      [sign .closeParen ')']

def Stmt.spelling : Stmt → List (Kind × String)
  | .binding name value =>
    (.letWord, "let") :: (.identifier, name) :: sign .assign '=' :: value.spelling
  | .result value => (.returnWord, "return") :: value.spelling
  | .expression value => value.spelling
  | .block body => blockSpelling body

def blockSpelling : List Stmt → List (Kind × String)
  | [] => [sign .openBrace '\x7b', sign .closeBrace '\x7d']
  | stmt :: stmts =>
    sign .openBrace '\x7b' :: stmt.spelling ++ furtherSpelling stmts ++ [sign .closeBrace '\x7d']

def furtherSpelling : List Stmt → List (Kind × String)
  | [] => []
  | stmt :: stmts => sign .terminator ';' :: stmt.spelling ++ furtherSpelling stmts

def alternativeSpelling : Option (List Stmt) → List (Kind × String)
  | none => []
  | some body => (.elseWord, "else") :: blockSpelling body

def argumentsSpelling : List Expr → List (Kind × String)
  | [] => []
  | argument :: arguments => argument.spelling ++ furtherArgumentsSpelling arguments

def furtherArgumentsSpelling : List Expr → List (Kind × String)
  | [] => []
  | argument :: arguments =>
    sign .comma ',' :: argument.spelling ++ furtherArgumentsSpelling arguments

end

section contents

variable (rest : List Char)

@[simp] theorem contents_blank : contents (' ' :: rest) = contents rest :=
  contents_gap (by decide) rest

@[simp] theorem contents_openParen :
    contents ('(' :: rest) = sign .openParen '(' :: contents rest := contents_sign rfl

@[simp] theorem contents_closeParen :
    contents (')' :: rest) = sign .closeParen ')' :: contents rest := contents_sign rfl

@[simp] theorem contents_openBrace :
    contents ('\x7b' :: rest) = sign .openBrace '\x7b' :: contents rest := contents_sign rfl

@[simp] theorem contents_closeBrace :
    contents ('\x7d' :: rest) = sign .closeBrace '\x7d' :: contents rest := contents_sign rfl

@[simp] theorem contents_comma :
    contents (',' :: rest) = sign .comma ',' :: contents rest := contents_sign rfl

@[simp] theorem contents_semicolon :
    contents (';' :: rest) = sign .terminator ';' :: contents rest := contents_sign rfl

@[simp] theorem contents_lineBreak :
    contents ('\n' :: rest) = sign .terminator '\n' :: contents rest := contents_sign rfl

@[simp] theorem contents_assign :
    contents ('=' :: ' ' :: rest) = sign .assign '=' :: contents rest := by
  rw [contents_sign rfl, contents_blank]
  rfl

end contents

/-- What stands here goes on with no word and no number. -/
def Separates (rest : List Char) : Prop :=
  ∀ c ∈ rest.head?, isLetter c = false ∧ isDigitOrPoint c = false

theorem separates_nil : Separates [] := by
  intro c hc
  cases hc

theorem separates_cons {c : Char} (hletter : isLetter c = false) (hdigit : isDigitOrPoint c = false)
    (rest : List Char) : Separates (c :: rest) := by
  intro d hd
  obtain rfl := Option.some.inj hd
  exact ⟨hletter, hdigit⟩

theorem separates_blank (rest : List Char) : Separates (' ' :: rest) :=
  separates_cons (by decide) (by decide) rest

theorem separates_openParen (rest : List Char) : Separates ('(' :: rest) :=
  separates_cons (by decide) (by decide) rest

theorem separates_closeParen (rest : List Char) : Separates (')' :: rest) :=
  separates_cons (by decide) (by decide) rest

theorem separates_writeFurther (stmts : List Stmt) {rest : List Char} (h : Separates rest) :
    Separates (writeFurther stmts rest) := by
  cases stmts with
  | nil => exact h
  | cons stmt stmts => exact separates_cons (by decide) (by decide) _

theorem separates_writeFurtherArguments (arguments : List Expr) {rest : List Char}
    (h : Separates rest) : Separates (writeFurtherArguments arguments rest) := by
  cases arguments with
  | nil => exact h
  | cons argument arguments => exact separates_cons (by decide) (by decide) _

theorem contents_reserved {kind : Kind} (word : String) (hkind : Keyword.kindOf word = kind)
    (hne : word.toList ≠ []) (hletters : word.toList.all isLetter) {rest : List Char}
    (hrest : Separates rest) : contents (word.toList ++ rest) = (kind, word) :: contents rest := by
  rw [contents_word hne (List.all_eq_true.1 hletters) fun c hc => (hrest c hc).1, hkind]

theorem Stmt.write_binding (name : String) (value : Expr) (rest : List Char) :
    (Stmt.binding name value).write rest =
      "let ".toList ++ (name.toList ++ ' ' :: '=' :: ' ' :: value.write rest) :=
  List.append_assoc _ _ _

theorem Stmt.write_result (value : Expr) (rest : List Char) :
    (Stmt.result value).write rest = "return ".toList ++ value.write rest := rfl

theorem writeAlternative_some (body : List Stmt) (rest : List Char) :
    writeAlternative (some body) rest = " else ".toList ++ writeBlock body rest := rfl

section reserved

variable (rest : List Char)

theorem contents_let : contents ("let ".toList ++ rest) = (.letWord, "let") :: contents rest := by
  rw [← contents_blank rest]
  exact contents_reserved "let" rfl (by decide) (by decide) (separates_blank rest)

theorem contents_return :
    contents ("return ".toList ++ rest) = (.returnWord, "return") :: contents rest := by
  rw [← contents_blank rest]
  exact contents_reserved "return" rfl (by decide) (by decide) (separates_blank rest)

theorem contents_if : contents ('i' :: 'f' :: ' ' :: rest) = (.ifWord, "if") :: contents rest := by
  rw [← contents_blank rest]
  exact contents_reserved "if" rfl (by decide) (by decide) (separates_blank rest)

theorem contents_else : contents (" else ".toList ++ rest) = (.elseWord, "else") :: contents rest := by
  rw [← contents_blank rest]
  apply (contents_blank _).trans
  exact contents_reserved "else" rfl (by decide) (by decide) (separates_blank rest)

theorem contents_fn :
    contents ('f' :: 'n' :: '(' :: rest) = (.fnWord, "fn") :: sign .openParen '(' :: contents rest := by
  rw [← contents_openParen rest]
  exact contents_reserved "fn" rfl (by decide) (by decide) (separates_openParen rest)

end reserved

/-- A prefix operator is not taken for the start of a longer one. -/
theorem Expr.head?_write_ne {expr : Expr} (h : expr.isWellFormed) (rest : List Char) :
    (expr.write rest).head? ≠ some '=' := by
  have hname : ∀ {name : String}, isName name → ∀ rest, (name.toList ++ rest).head? ≠ some '=' := by
    intro name h rest
    simp only [isName, Bool.and_eq_true, Bool.not_eq_true', List.isEmpty_eq_false_iff,
      List.all_eq_true] at h
    obtain ⟨c, others, heq⟩ := List.exists_cons_of_ne_nil h.1.1
    have hletter : isLetter c := h.1.2 c (heq ▸ List.mem_cons_self)
    rw [heq]
    exact fun hc => ne_of_isTrue hletter (by decide) (Option.some.inj hc)
  cases expr with
  | identifier name => exact hname h rest
  | number value =>
    simp only [isWellFormed, Bool.and_eq_true, Bool.not_eq_true'] at h
    obtain ⟨c, others, heq, hdigit, _⟩ := (Binary64.isPositional_text h.1 h.2).exists_cons
    rw [write, heq]
    exact fun hc => ne_of_isTrue hdigit (by decide) (Option.some.inj hc)
  | boolean value => cases value <;> exact fun hc => absurd (Option.some.inj hc) (by decide)
  | call callee arguments =>
    simp only [isWellFormed, Bool.and_eq_true] at h
    exact hname h.1 _
  | _ => exact fun hc => absurd (Option.some.inj hc) (by decide)

theorem contents_prefixOperator (op : UnaryOperator) {rest : List Char} (h : rest.head? ≠ some '=') :
    contents (op.symbol :: rest) = sign op.kind op.symbol :: contents rest := by
  cases op with
  | negate => exact contents_sign rfl
  | not =>
    exact contents_sign (first_single (by decide : ('!', Kind.bang, Kind.notEqual) ∈ operatorKinds) h)

theorem contents_writeNames {names : List String} (h : names.all isName) {rest : List Char}
    (hrest : Separates rest) :
    contents (writeNames names rest) = namesSpelling names ++ contents rest := by
  induction names with
  | nil => rfl
  | cons name names ih =>
    simp only [List.all_cons, Bool.and_eq_true] at h
    cases names with
    | nil => exact contents_name h.1 fun c hc => (hrest c hc).1
    | cons second names =>
      rw [writeNames, contents_name h.1 (by simp [isLetter]), contents_comma, contents_blank, ih h.2]
      · rfl
      · simp

mutual

theorem Expr.contents_write {expr : Expr} (h : expr.isWellFormed) {rest : List Char}
    (hrest : Separates rest) : contents (expr.write rest) = expr.spelling ++ contents rest := by
  cases expr with
  | identifier name => exact contents_name h fun c hc => (hrest c hc).1
  | number value =>
    simp only [Expr.isWellFormed, Bool.and_eq_true, Bool.not_eq_true'] at h
    exact contents_numeral (Binary64.isPositional_text h.1 h.2) fun c hc => (hrest c hc).2
  | boolean value =>
    cases value with
    | true => exact contents_reserved "true" rfl (by decide) (by decide) hrest
    | false => exact contents_reserved "false" rfl (by decide) (by decide) hrest
  | string text => exact contents_string text rest
  | command text => exact contents_command text rest
  | unary op right =>
    have h : right.isWellFormed := h
    rw [Expr.write, contents_openParen, contents_prefixOperator op (Expr.head?_write_ne h _),
      Expr.contents_write h (separates_closeParen rest), contents_closeParen]
    simp [Expr.spelling]
  | binary left op right =>
    simp only [Expr.isWellFormed, Bool.and_eq_true] at h
    rw [Expr.write, contents_openParen, Expr.contents_write h.1 (separates_blank _), contents_blank,
      contents_operator, Expr.contents_write h.2 (separates_closeParen rest), contents_closeParen]
    simp [Expr.spelling]
  | conditional condition consequence alternative =>
    simp only [Expr.isWellFormed, Bool.and_eq_true] at h
    have hblocks : contents (writeBlock consequence (writeAlternative alternative rest)) =
        blockSpelling consequence ++ (alternativeSpelling alternative ++ contents rest) := by
      rw [contents_writeBlock h.1.2, contents_writeAlternative h.2]
    rw [Expr.write, contents_if]
    by_cases hparens : condition.isParenthesized
    · rw [if_pos hparens, Expr.contents_write h.1.1 (separates_blank _), contents_blank, hblocks]
      simp [Expr.spelling, hparens]
    · rw [if_neg hparens, contents_openParen, Expr.contents_write h.1.1 (separates_closeParen _),
        contents_closeParen, contents_blank, hblocks]
      simp [Expr.spelling, hparens]
  | function parameters body =>
    simp only [Expr.isWellFormed, Bool.and_eq_true] at h
    rw [Expr.write, contents_fn, contents_writeNames h.1 (separates_closeParen _),
      contents_closeParen, contents_blank, contents_writeBlock h.2]
    simp [Expr.spelling]
  | call callee arguments =>
    simp only [Expr.isWellFormed, Bool.and_eq_true] at h
    rw [Expr.write, contents_name h.1 (by simp [isLetter]), contents_openParen,
      contents_writeArguments h.2 (separates_closeParen rest), contents_closeParen]
    simp [Expr.spelling]
termination_by sizeOf expr

theorem Stmt.contents_write {stmt : Stmt} (h : stmt.isWellFormed) {rest : List Char}
    (hrest : Separates rest) : contents (stmt.write rest) = stmt.spelling ++ contents rest := by
  cases stmt with
  | binding name value =>
    simp only [Stmt.isWellFormed, Bool.and_eq_true] at h
    rw [Stmt.write_binding, contents_let, contents_name h.1 (by simp [isLetter]),
      contents_blank, contents_assign, Expr.contents_write h.2 hrest]
    rfl
  | result value =>
    rw [Stmt.write_result, contents_return, Expr.contents_write h hrest]
    rfl
  | expression value => exact Expr.contents_write h hrest
  | block body => exact contents_writeBlock h rest
termination_by sizeOf stmt

theorem contents_writeBlock {body : List Stmt} (h : blockIsWellFormed body) (rest : List Char) :
    contents (writeBlock body rest) = blockSpelling body ++ contents rest := by
  cases body with
  | nil =>
    rw [writeBlock, contents_openBrace, contents_blank, contents_closeBrace]
    rfl
  | cons stmt stmts =>
    simp only [blockIsWellFormed, Bool.and_eq_true] at h
    have hclose := separates_blank ('\x7d' :: rest)
    rw [writeBlock, contents_openBrace, contents_blank,
      Stmt.contents_write h.1 (separates_writeFurther stmts hclose),
      contents_writeFurther h.2 hclose, contents_blank, contents_closeBrace]
    simp [blockSpelling]
termination_by sizeOf body

theorem contents_writeFurther {stmts : List Stmt} (h : blockIsWellFormed stmts) {rest : List Char}
    (hrest : Separates rest) :
    contents (writeFurther stmts rest) = furtherSpelling stmts ++ contents rest := by
  cases stmts with
  | nil => rfl
  | cons stmt stmts =>
    simp only [blockIsWellFormed, Bool.and_eq_true] at h
    rw [writeFurther, contents_semicolon, contents_blank,
      Stmt.contents_write h.1 (separates_writeFurther stmts hrest), contents_writeFurther h.2 hrest]
    simp [furtherSpelling]
termination_by sizeOf stmts

theorem contents_writeAlternative {alternative : Option (List Stmt)}
    (h : alternativeIsWellFormed alternative) (rest : List Char) :
    contents (writeAlternative alternative rest) =
      alternativeSpelling alternative ++ contents rest := by
  cases alternative with
  | none => rfl
  | some body =>
    rw [writeAlternative_some, contents_else, contents_writeBlock h rest]
    rfl
termination_by sizeOf alternative

theorem contents_writeArguments {arguments : List Expr} (h : argumentsAreWellFormed arguments)
    {rest : List Char} (hrest : Separates rest) :
    contents (writeArguments arguments rest) = argumentsSpelling arguments ++ contents rest := by
  cases arguments with
  | nil => rfl
  | cons argument arguments =>
    simp only [argumentsAreWellFormed, Bool.and_eq_true] at h
    rw [writeArguments,
      Expr.contents_write h.1 (separates_writeFurtherArguments arguments hrest),
      contents_writeFurtherArguments h.2 hrest]
    simp [argumentsSpelling]
termination_by sizeOf arguments

theorem contents_writeFurtherArguments {arguments : List Expr} (h : argumentsAreWellFormed arguments)
    {rest : List Char} (hrest : Separates rest) :
    contents (writeFurtherArguments arguments rest) =
      furtherArgumentsSpelling arguments ++ contents rest := by
  cases arguments with
  | nil => rfl
  | cons argument arguments =>
    simp only [argumentsAreWellFormed, Bool.and_eq_true] at h
    rw [writeFurtherArguments, contents_comma, contents_blank,
      Expr.contents_write h.1 (separates_writeFurtherArguments arguments hrest),
      contents_writeFurtherArguments h.2 hrest]
    simp [furtherArgumentsSpelling]
termination_by sizeOf arguments

end

def Program.isWellFormed (program : Program) : Bool :=
  blockIsWellFormed program.statements

def linesSpelling : List Stmt → List (Kind × String)
  | [] => []
  | [stmt] => stmt.spelling
  | stmt :: stmts => stmt.spelling ++ sign .terminator '\n' :: linesSpelling stmts

theorem contents_writeLines {stmts : List Stmt} (h : blockIsWellFormed stmts) :
    contents (writeLines stmts) = linesSpelling stmts := by
  induction stmts with
  | nil => exact contents_nil
  | cons stmt stmts ih =>
    simp only [blockIsWellFormed, Bool.and_eq_true] at h
    cases stmts with
    | nil =>
      rw [writeLines, Stmt.contents_write h.1 separates_nil, contents_nil, List.append_nil]
      rfl
    | cons second stmts =>
      rw [writeLines, Stmt.contents_write h.1 (separates_cons (by decide) (by decide) _),
        contents_lineBreak, ih h.2]
      · rfl
      · simp

/-- The tokens of a rendered program. -/
theorem tokenize_render {program : Program} (h : program.isWellFormed) (file : String) :
    ∃ tokens final, tokenize program.render file = tokens ++ [.endMarker final] ∧
      tokens.map Token.content = linesSpelling program.statements := by
  obtain ⟨tokens, final, heq, htokens⟩ := tokenize_eq (writeLines program.statements) file
  exact ⟨tokens, final, heq, htokens.trans (contents_writeLines h)⟩

end ShellFrontend
