import Mathlib.Tactic.FinCases
import ShellFrontend.Proofs.NumeralText
import ShellFrontend.Token.Tokenize
import ShellFrontend.Tree.Operator

/-! # Scanning what was written

A word, a number, a quoted text and a sign are each scanned as the one token that was written,
if nothing behind them goes on with it.
-/

set_option autoImplicit false

namespace ShellFrontend

open ShellFrontend.Text (isDigit)
open ShellFrontend.Lexeme (isGap isLetter isDigitOrPoint isNumeral skipped verbatim)

namespace Text.Quoting

/-- Both characters that matter in a body are escaped, and a letter means what it stands for. -/
structure IsFaithful (q : Quoting) : Prop where
  delimiter_ne : q.delimiter ≠ '\\'
  letter?_delimiter : q.letter? q.delimiter ≠ none
  letter?_backslash : q.letter? '\\' ≠ none
  meaning? : ∀ {c letter : Char}, q.letter? c = some letter → q.meaning? letter = some c

theorem meaning?_of_letter? {q : Quoting} (h : ∀ entry ∈ q.escapes, q.meaning? entry.2 = some entry.1)
    {c letter : Char} (hletter : q.letter? c = some letter) : q.meaning? letter = some c := by
  obtain ⟨before, after, heq, _⟩ := List.lookup_eq_some_iff.1 hletter
  have hmem : (c, letter) ∈ q.escapes := by
    rw [heq]
    exact List.mem_append_right _ List.mem_cons_self
  exact h _ hmem

theorem isFaithful_string : string.IsFaithful where
  delimiter_ne := by decide
  letter?_delimiter := by decide
  letter?_backslash := by decide
  meaning? := meaning?_of_letter? (by decide)

theorem isFaithful_command : command.IsFaithful where
  delimiter_ne := by decide
  letter?_delimiter := by decide
  letter?_backslash := by decide
  meaning? := meaning?_of_letter? (by decide)

variable {q : Quoting} {c letter : Char}

theorem escape_cons_of_some (h : q.letter? c = some letter) (rest : List Char) :
    q.escape (c :: rest) = '\\' :: letter :: q.escape rest := by
  rw [escape, h]

theorem escape_cons_of_none (h : q.letter? c = none) (rest : List Char) :
    q.escape (c :: rest) = c :: q.escape rest := by
  rw [escape, h]

theorem body?_cons (h : c ≠ '\\') (rest : List Char) :
    q.body? (c :: rest) = if c = q.delimiter then some [] else (q.body? rest).map (c :: ·) := by
  rw [body?.eq_def]
  split
  · rename_i heq
    exact absurd (List.cons.inj heq).1 h
  · rename_i heq
    obtain ⟨rfl, rfl⟩ := List.cons.inj heq
    rfl
  · rename_i heq
    cases heq

theorem unescape_cons (h : c ≠ '\\') (rest : List Char) :
    q.unescape (c :: rest) = c :: q.unescape rest := by
  rw [unescape.eq_def]
  split
  · rename_i heq
    exact absurd (List.cons.inj heq).1 h
  · rename_i heq
    obtain ⟨rfl, rfl⟩ := List.cons.inj heq
    rfl
  · rename_i heq
    cases heq

theorem body?_escape (h : q.IsFaithful) (text rest : List Char) :
    q.body? (q.escape text ++ q.delimiter :: rest) = some (q.escape text) := by
  induction text with
  | nil =>
    rw [escape, List.nil_append, body?_cons h.delimiter_ne, if_pos rfl]
  | cons c text ih =>
    cases hletter : q.letter? c with
    | some letter =>
      rw [escape_cons_of_some hletter, List.cons_append, List.cons_append, body?, ih]
      rfl
    | none =>
      have hbackslash : c ≠ '\\' := fun heq => h.letter?_backslash (heq ▸ hletter)
      have hdelimiter : c ≠ q.delimiter := fun heq => h.letter?_delimiter (heq ▸ hletter)
      rw [escape_cons_of_none hletter, List.cons_append, body?_cons hbackslash, if_neg hdelimiter, ih]
      rfl

theorem unescape_escape (h : q.IsFaithful) (text : List Char) : q.unescape (q.escape text) = text := by
  induction text with
  | nil => rfl
  | cons c text ih =>
    cases hletter : q.letter? c with
    | some letter =>
      rw [escape_cons_of_some hletter, unescape, h.meaning? hletter, ih]
    | none =>
      have hbackslash : c ≠ '\\' := fun heq => h.letter?_backslash (heq ▸ hletter)
      rw [escape_cons_of_none hletter, unescape_cons hbackslash, ih]

end Text.Quoting

/-- A non-empty run of letters that is no reserved word. -/
def isName (name : String) : Bool :=
  !name.toList.isEmpty && name.toList.all isLetter && (Keyword.kind? name).isNone

/-- What the tokens of a source say, apart from where they stand. -/
def contents (source : List Char) : List (Kind × String) :=
  (Lexeme.ofSource source).filterMap Lexeme.token

def Token.content (token : Token) : Kind × String :=
  (token.kind, token.text)

theorem Token.ofLexemes_eq (file : String) (offset : Nat) (lexemes : List Lexeme) :
    ∃ tokens final, ofLexemes file offset lexemes = tokens ++ [endMarker final] ∧
      tokens.map content = lexemes.filterMap Lexeme.token := by
  induction lexemes generalizing offset with
  | nil => exact ⟨[], _, rfl, rfl⟩
  | cons lexeme lexemes ih =>
    obtain ⟨tokens, final, heq, htokens⟩ := ih (offset + Text.byteLength lexeme.written)
    obtain ⟨written, token⟩ := lexeme
    cases token with
    | none => exact ⟨tokens, final, heq, htokens⟩
    | some token =>
      refine ⟨⟨token.1, token.2, Span.between file offset (offset + Text.byteLength written)⟩ :: tokens,
        final, ?_, ?_⟩
      · exact congrArg (List.cons _) heq
      · exact congrArg (List.cons _) htokens

/-- The tokens of a source are what it says, and an end marker. -/
theorem tokenize_eq (source : List Char) (file : String) :
    ∃ tokens final, tokenize (String.ofList source) file = tokens ++ [.endMarker final] ∧
      tokens.map Token.content = contents source := by
  rw [tokenize, String.toList_ofList]
  exact Token.ofLexemes_eq file 0 _

section contents

variable {c : Char} {others rest : List Char}

@[simp] theorem contents_nil : contents [] = [] := by
  rw [contents, Lexeme.ofSource]
  rfl

theorem Lexeme.ofSource_of_first {token : Option (Kind × String)}
    (h : Lexeme.first c (others ++ rest) = ⟨c :: others, token⟩) :
    Lexeme.ofSource (c :: (others ++ rest)) = ⟨c :: others, token⟩ :: Lexeme.ofSource rest := by
  rw [Lexeme.ofSource, h, List.tail_cons, List.drop_left]

theorem contents_of_first {token : Option (Kind × String)}
    (h : Lexeme.first c (others ++ rest) = ⟨c :: others, token⟩) :
    contents (c :: (others ++ rest)) = token.toList ++ contents rest := by
  rw [contents, Lexeme.ofSource_of_first h, contents]
  cases token <;> rfl

theorem contents_sign {kind : Kind} (h : Lexeme.first c rest = verbatim kind [c]) :
    contents (c :: rest) = (kind, String.singleton c) :: contents rest :=
  @contents_of_first c [] rest _ h

theorem first_of_isGap (h : isGap c) (rest : List Char) :
    Lexeme.first c rest = skipped (c :: rest.takeWhile isGap) := by
  simp [Lexeme.first, Lexeme.rules, Lexeme.Rule.lexeme?, Lexeme.Pattern.others?, h,
    Lexeme.Meaning.lexeme]

/-- A blank is a lexeme in front of the others, or begins the one with which they begin. -/
theorem Lexeme.ofSource_gap (h : isGap c) (rest : List Char) :
    ∃ run lexemes, ofSource (c :: rest) = skipped (c :: run) :: lexemes ∧
      (run = [] ∧ ofSource rest = lexemes ∨ ofSource rest = skipped run :: lexemes) := by
  have hrun : ∀ {c rest}, isGap c → ofSource (c :: rest) =
      skipped (c :: rest.takeWhile isGap) :: ofSource (rest.dropWhile isGap) := by
    intro c rest h
    have hfirst : first c (rest.takeWhile isGap ++ rest.dropWhile isGap) =
        ⟨c :: rest.takeWhile isGap, none⟩ := by
      rw [List.takeWhile_append_dropWhile]
      exact first_of_isGap h rest
    have hsource := ofSource_of_first hfirst
    rwa [List.takeWhile_append_dropWhile] at hsource
  refine ⟨_, _, hrun h, ?_⟩
  cases rest with
  | nil => exact .inl ⟨rfl, rfl⟩
  | cons d rest =>
    by_cases hd : isGap d
    · rw [List.takeWhile_cons_of_pos hd, List.dropWhile_cons_of_pos hd]
      exact .inr (hrun hd)
    · rw [List.takeWhile_cons_of_neg hd, List.dropWhile_cons_of_neg hd]
      exact .inl ⟨rfl, rfl⟩

theorem contents_gap (h : isGap c) (rest : List Char) : contents (c :: rest) = contents rest := by
  obtain ⟨run, lexemes, hgap, ⟨-, hrest⟩ | hrest⟩ := Lexeme.ofSource_gap h rest
  · rw [contents, contents, hgap, hrest]
    rfl
  · rw [contents, contents, hgap, hrest]
    rfl

theorem ne_of_isTrue {p : Char → Bool} {d : Char} (h : p c) (hd : p d = false) : c ≠ d := by
  rintro rfl
  rw [h] at hd
  cases hd

theorem not_isGap {p : Char → Bool} (h : p c) (hgaps : (p ' ' || p '\t' || p '\r') = false) :
    isGap c = false := by
  simp only [Bool.or_eq_false_iff] at hgaps
  have hspace : c ≠ ' ' := ne_of_isTrue h hgaps.1.1
  have htab : c ≠ '\t' := ne_of_isTrue h hgaps.1.2
  have hreturn : c ≠ '\r' := ne_of_isTrue h hgaps.2
  simp [isGap, hspace, htab, hreturn]

theorem not_isLetter_of_isDigit (h : isDigit c) : isLetter c = false := by
  have hhigh : c ≤ '9' := by
    simp only [isDigit, Bool.and_eq_true, decide_eq_true_eq] at h
    exact h.2
  rw [← Bool.not_eq_true]
  intro hletter
  simp only [isLetter, Bool.or_eq_true, Bool.and_eq_true, decide_eq_true_eq] at hletter
  rcases hletter with (hlower | hupper) | rfl
  · exact absurd (Char.le_trans hlower.1 hhigh) (by decide)
  · exact absurd (Char.le_trans hupper.1 hhigh) (by decide)
  · exact absurd hhigh (by decide)

theorem first_of_isLetter (h : isLetter c) (rest : List Char) :
    Lexeme.first c rest = verbatim (Keyword.kindOf (String.ofList (c :: rest.takeWhile isLetter)))
      (c :: rest.takeWhile isLetter) := by
  have hgap : isGap c = false := not_isGap h (by decide)
  have hline : c ≠ '\n' := ne_of_isTrue h (by decide)
  have hcomment : c ≠ '#' := ne_of_isTrue h (by decide)
  simp [Lexeme.first, Lexeme.rules, Lexeme.Rule.lexeme?, Lexeme.Pattern.others?, hgap, hline,
    hcomment, h, Lexeme.Meaning.lexeme]

theorem first_of_isDigit (h : isDigit c) (rest : List Char) :
    Lexeme.first c rest =
      verbatim (if isNumeral (c :: rest.takeWhile isDigitOrPoint) then .number else .illegal)
        (c :: rest.takeWhile isDigitOrPoint) := by
  have hletter : isLetter c = false := not_isLetter_of_isDigit h
  have hgap : isGap c = false := not_isGap h (by decide)
  have hline : c ≠ '\n' := ne_of_isTrue h (by decide)
  have hcomment : c ≠ '#' := ne_of_isTrue h (by decide)
  simp [Lexeme.first, Lexeme.rules, Lexeme.Rule.lexeme?, Lexeme.Pattern.others?, hgap, hline,
    hcomment, hletter, h, Lexeme.Meaning.lexeme]

section stopped

variable {p : Char → Bool} (hrest : ∀ c ∈ rest.head?, p c = false)

include hrest

theorem takeWhile_append_of_stop (text : List Char) :
    (text ++ rest).takeWhile p = text.takeWhile p := by
  induction text with
  | nil =>
    cases rest with
    | nil => rfl
    | cons c rest => exact List.takeWhile_cons_of_neg (by simp [hrest c rfl])
  | cons c text ih => rw [List.cons_append, List.takeWhile_cons, List.takeWhile_cons, ih]

theorem dropWhile_append_of_stop (text : List Char) :
    (text ++ rest).dropWhile p = text.dropWhile p ++ rest := by
  induction text with
  | nil =>
    cases rest with
    | nil => rfl
    | cons c rest => exact List.dropWhile_cons_of_neg (by simp [hrest c rfl])
  | cons c text ih =>
    rw [List.cons_append, List.dropWhile_cons, List.dropWhile_cons, ih]
    split <;> rfl

end stopped

/-- A run ends in front of a character that does not go on with it. -/
theorem takeWhile_append_of_head? {p : Char → Bool} (hothers : ∀ c ∈ others, p c)
    (hrest : ∀ c ∈ rest.head?, p c = false) : (others ++ rest).takeWhile p = others := by
  rw [takeWhile_append_of_stop hrest, List.takeWhile_eq_self_iff.2 hothers]

theorem contents_word {word : String} (hne : word.toList ≠ []) (h : ∀ c ∈ word.toList, isLetter c)
    (hrest : ∀ c ∈ rest.head?, isLetter c = false) :
    contents (word.toList ++ rest) = (Keyword.kindOf word, word) :: contents rest := by
  obtain ⟨c, others, heq⟩ := List.exists_cons_of_ne_nil hne
  have hword : String.ofList (c :: others) = word := by rw [← heq, String.ofList_toList]
  rw [heq] at h ⊢
  obtain ⟨hc, hothers⟩ := List.forall_mem_cons.1 h
  have hfirst := first_of_isLetter hc (others ++ rest)
  rw [takeWhile_append_of_head? hothers hrest, hword] at hfirst
  rw [List.cons_append, contents_of_first hfirst, hword]
  rfl

theorem contents_name {name : String} (h : isName name)
    (hrest : ∀ c ∈ rest.head?, isLetter c = false) :
    contents (name.toList ++ rest) = (.identifier, name) :: contents rest := by
  simp only [isName, Bool.and_eq_true, Bool.not_eq_true', List.isEmpty_eq_false_iff,
    List.all_eq_true, Option.isNone_iff_eq_none] at h
  have hkind : Keyword.kindOf name = .identifier := by rw [Keyword.kindOf, h.2, Option.getD_none]
  rw [contents_word h.1.1 h.1.2 hrest, hkind]

theorem IsPositional.isNumeral {text : List Char} (h : IsPositional text) : isNumeral text := by
  have hpoint : ∀ {digits : List Char}, (∀ c ∈ digits, isDigit c) → '.' ∉ digits :=
    fun hdigits hmem => absurd (hdigits _ hmem) (by decide)
  have hlast : ∀ {digits : List Char}, (∀ c ∈ digits, isDigit c) →
      digits.getLast? ≠ some '.' :=
    fun hdigits hmem => hpoint hdigits (List.mem_of_getLast? hmem)
  cases h with
  | whole hne hdigits =>
    simp [Lexeme.isNumeral, List.count_eq_zero.2 (hpoint hdigits), hlast hdigits]
  | @fraction digits more hne hdigits hmore hmoreDigits =>
    have hcount : (digits ++ '.' :: more).count '.' = 1 := by
      rw [List.count_append, List.count_cons_self, List.count_eq_zero.2 (hpoint hdigits),
        List.count_eq_zero.2 (hpoint hmoreDigits)]
    have hend : (digits ++ '.' :: more).getLast? = more.getLast? := by
      rw [List.append_cons, List.getLast?_append, List.getLast?_eq_some_getLast hmore, Option.some_or]
    simp [Lexeme.isNumeral, hcount, hend, hlast hmoreDigits]

theorem IsPositional.exists_cons {text : List Char} (h : IsPositional text) :
    ∃ c others, text = c :: others ∧ isDigit c ∧ ∀ d ∈ others, isDigitOrPoint d := by
  cases h with
  | whole hne hdigits =>
    obtain ⟨c, others, rfl⟩ := List.exists_cons_of_ne_nil hne
    obtain ⟨hc, hothers⟩ := List.forall_mem_cons.1 hdigits
    exact ⟨c, others, rfl, hc, fun d hd => by simp [isDigitOrPoint, hothers d hd]⟩
  | @fraction digits more hne hdigits hmore hmoreDigits =>
    obtain ⟨c, others, rfl⟩ := List.exists_cons_of_ne_nil hne
    obtain ⟨hc, hothers⟩ := List.forall_mem_cons.1 hdigits
    refine ⟨c, _, rfl, hc, fun d hd => ?_⟩
    rcases List.mem_append.1 hd with hd | hd
    · simp [isDigitOrPoint, hothers d hd]
    · rcases List.mem_cons.1 hd with rfl | hd
      · rfl
      · simp [isDigitOrPoint, hmoreDigits d hd]

theorem contents_numeral {text : List Char} (h : IsPositional text)
    (hrest : ∀ c ∈ rest.head?, isDigitOrPoint c = false) :
    contents (text ++ rest) = (.number, String.ofList text) :: contents rest := by
  have hnumeral := h.isNumeral
  obtain ⟨c, others, rfl, hc, hothers⟩ := h.exists_cons
  have hfirst := first_of_isDigit hc (others ++ rest)
  rw [takeWhile_append_of_head? hothers hrest, if_pos hnumeral] at hfirst
  rw [List.cons_append, contents_of_first hfirst]
  rfl

theorem Lexeme.first_of_write {kind : Kind} {q : Text.Quoting} (hq : q.IsFaithful)
    (hfirst : ∀ rest, Lexeme.first q.delimiter rest = Lexeme.ofLiteral kind q q.delimiter rest)
    (text rest : List Char) :
    Lexeme.first q.delimiter (q.escape text ++ [q.delimiter] ++ rest) =
      ⟨q.write text, some (kind, String.ofList text)⟩ := by
  have hbody := Text.Quoting.body?_escape hq text rest
  rw [hfirst, List.append_assoc, List.singleton_append, Lexeme.ofLiteral, hbody]
  simp only [Text.Quoting.unescape_escape hq]
  rfl

theorem contents_literal {kind : Kind} {q : Text.Quoting} (hq : q.IsFaithful)
    (hfirst : ∀ rest, Lexeme.first q.delimiter rest = Lexeme.ofLiteral kind q q.delimiter rest)
    (text rest : List Char) :
    contents (q.write text ++ rest) = (kind, String.ofList text) :: contents rest :=
  contents_of_first (Lexeme.first_of_write hq hfirst text rest)

theorem contents_string (text : String) (rest : List Char) :
    contents (Text.Quoting.string.write text.toList ++ rest) = (.string, text) :: contents rest := by
  rw [contents_literal Text.Quoting.isFaithful_string (fun _ => rfl), String.ofList_toList]

theorem contents_command (text : String) (rest : List Char) :
    contents (Text.Quoting.command.write text.toList ++ rest) = (.command, text) :: contents rest := by
  rw [contents_literal Text.Quoting.isFaithful_command (fun _ => rfl), String.ofList_toList]

/-- The operators that an equals sign may extend, each with its kind alone and its kind then. -/
def operatorKinds : List (Char × Kind × Kind) :=
  [('=', .assign, .equal), ('!', .bang, .notEqual), ('<', .less, .lessEqual),
    ('>', .greater, .greaterEqual)]

theorem first_double {entry : Char × Kind × Kind} (h : entry ∈ operatorKinds) (rest : List Char) :
    Lexeme.first entry.1 ('=' :: rest) = verbatim entry.2.2 [entry.1, '='] := by
  fin_cases h <;> rfl

theorem first_single {entry : Char × Kind × Kind} (h : entry ∈ operatorKinds) {rest : List Char}
    (hrest : rest.head? ≠ some '=') : Lexeme.first entry.1 rest = verbatim entry.2.1 [entry.1] := by
  cases rest with
  | nil => fin_cases h <;> rfl
  | cons d rest =>
    have hd : '=' ≠ d := fun heq => hrest (congrArg some heq.symm)
    fin_cases h <;>
      simp [Lexeme.first, Lexeme.rules, Lexeme.Rule.lexeme?, Lexeme.Pattern.others?, isGap,
        isLetter, isDigit, hd, Lexeme.Meaning.lexeme]

/-- Some operators begin as others do, so a blank must follow. -/
theorem first_operator (op : BinaryOperator) (rest : List Char) :
    ∃ c others, op.symbol = c :: others ∧
      Lexeme.first c (others ++ ' ' :: rest) = verbatim op.kind (c :: others) := by
  cases op <;> exact ⟨_, _, rfl, rfl⟩

theorem contents_operator (op : BinaryOperator) (rest : List Char) :
    contents (op.symbol ++ ' ' :: rest) = (op.kind, String.ofList op.symbol) :: contents rest := by
  obtain ⟨c, others, heq, hfirst⟩ := first_operator op rest
  rw [heq, List.cons_append, contents_of_first hfirst, contents_gap (by decide)]
  rfl

end contents

end ShellFrontend
