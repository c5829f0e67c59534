import ShellFrontend.Proofs.LiteralEnd

/-! # What the first character decides

The rules are tried in the order of their table. Read as a whole the table classifies tokens by
their first character: it says how far a token reaches and of which kind it is.
-/

set_option autoImplicit false

namespace ShellFrontend

open ShellFrontend.Text (isDigit EndsBody Unclosed Decodes stringMeaning commandMeaning)
open ShellFrontend.Text (Quoting)
open ShellFrontend.Lexeme (isGap isLetter isDigitOrPoint isNumeral verbatim skipped)

/-- A run that the text behind it does not go on with. -/
structure IsMaximalRun (p : Char → Bool) (others rest : List Char) : Prop where
  all : ∀ c ∈ others, p c
  stop : ∀ c ∈ rest.head?, p c = false

/-- A reserved word has a kind of its own, and any other word is an identifier. -/
def IsWordKind (word : String) (kind : Kind) : Prop :=
  (word, kind) ∈ Keyword.table ∨ kind = .identifier ∧ ∀ entry ∈ Keyword.table, entry.1 ≠ word

def literalKinds : List (Char × Kind) :=
  [('"', .string), ('\x60', .command)]

/-- The characters that are always a token of their own. -/
def signKinds : List (Char × Kind) :=
  [('\n', .terminator), ('+', .plus), ('-', .minus), ('*', .star), ('/', .slash), ('%', .percent),
    ('(', .openParen), (')', .closeParen), ('\x7b', .openBrace), ('\x7d', .closeBrace),
    (',', .comma), ('.', .dot), (';', .terminator)]

/-- A token that starts with `c` takes `others` of what follows and leaves `rest`. -/
structure Classified (c : Char) (others rest : List Char) (kind : Kind) : Prop where
  word : isLetter c →
    IsMaximalRun isLetter others rest ∧ IsWordKind (String.ofList (c :: others)) kind
  number : isDigit c → IsMaximalRun isDigitOrPoint others rest ∧
    (IsPositional (c :: others) ∧ kind = .number ∨ ¬ IsPositional (c :: others) ∧ kind = .illegal)
  literal : ∀ literalKind, literalKinds.lookup c = some literalKind →
    (∃ body, others = body ++ [c] ∧ EndsBody c body ∧ kind = literalKind) ∨
      rest = [] ∧ Unclosed c others ∧ kind = .illegal
  operator : ∀ single double, operatorKinds.lookup c = some (single, double) →
    (others ++ rest).head? = some '=' ∧ others = ['='] ∧ kind = double ∨
      (others ++ rest).head? ≠ some '=' ∧ others = [] ∧ kind = single
  sign : ∀ signKind, signKinds.lookup c = some signKind → others = [] ∧ kind = signKind
  unknown : isLetter c = false → isDigit c = false → literalKinds.lookup c = none →
    operatorKinds.lookup c = none → signKinds.lookup c = none → others = [] ∧ kind = .illegal

/-- How a token was written: as its text, or between delimiters, decoded. -/
inductive Spelled : List Char → Kind → String → Prop
  | verbatim {slice : List Char} {kind : Kind} (hstring : kind ≠ .string)
      (hcommand : kind ≠ .command) : Spelled slice kind (String.ofList slice)
  | string {body text : List Char} (h : Decodes stringMeaning body text) :
      Spelled ('"' :: (body ++ ['"'])) .string (String.ofList text)
  | command {body text : List Char} (h : Decodes commandMeaning body text) :
      Spelled ('\x60' :: (body ++ ['\x60'])) .command (String.ofList text)

theorem Spelled.text_eq {slice : List Char} {kind : Kind} {text : String}
    (h : Spelled slice kind text) (hstring : kind ≠ .string) (hcommand : kind ≠ .command) :
    text = String.ofList slice := by
  cases h with
  | verbatim => rfl
  | string => exact absurd rfl hstring
  | command => exact absurd rfl hcommand

/-- Blanks, and comments up to the end of their line. -/
inductive IsFiller : List Char → Prop
  | nil : IsFiller []
  | blank {c : Char} {text : List Char} (h : c ∈ [' ', '\t', '\r']) (tail : IsFiller text) :
      IsFiller (c :: text)
  | comment {comment text : List Char} (h : '\n' ∉ comment) (tail : IsFiller text) :
      IsFiller ('#' :: (comment ++ text))

theorem IsFiller.append {a b : List Char} (ha : IsFiller a) (hb : IsFiller b) :
    IsFiller (a ++ b) := by
  induction ha with
  | nil => exact hb
  | blank h _ ih => exact .blank h ih
  | comment h _ ih =>
    rw [List.cons_append, List.append_assoc]
    exact .comment h ih

theorem isWordKind_kindOf (word : String) : IsWordKind word (Keyword.kindOf word) := by
  unfold Keyword.kindOf
  cases h : Keyword.kind? word with
  | none =>
    refine .inr ⟨rfl, fun entry hentry heq => ?_⟩
    simpa [heq] using List.lookup_eq_none_iff.1 h entry hentry
  | some kind =>
    obtain ⟨before, after, heq, -⟩ := List.lookup_eq_some_iff.1 h
    refine .inl ?_
    rw [heq]
    exact List.mem_append_right _ List.mem_cons_self

theorem isMaximalRun_takeWhile (p : Char → Bool) (text : List Char) :
    IsMaximalRun p (text.takeWhile p) (text.dropWhile p) where
  all := fun _ h => List.mem_takeWhile_imp h
  stop := by
    intro c hc
    simpa [Option.mem_def.1 hc] using List.head?_dropWhile_not p text

theorem isPositional_of_isNumeral {c : Char} {others : List Char} (hc : isDigit c)
    (hothers : ∀ d ∈ others, isDigitOrPoint d) (h : isNumeral (c :: others)) :
    IsPositional (c :: others) := by
  simp only [isNumeral, Bool.and_eq_true, decide_eq_true_eq, bne_iff_ne, ne_eq] at h
  obtain ⟨hcount, hlast⟩ := h
  have hdigit : ∀ {d}, d ∈ others → d ≠ '.' → isDigit d := by
    intro d hd hne
    simpa [isDigitOrPoint, hne] using hothers d hd
  by_cases hpoint : '.' ∈ others
  · obtain ⟨before, after, rfl⟩ := List.append_of_mem hpoint
    have hpoints : before.count '.' = 0 ∧ after.count '.' = 0 := by
      have hfirst : c ≠ '.' := ne_of_isTrue hc (by decide)
      rw [List.count_cons_of_ne hfirst, List.count_append, List.count_cons_self] at hcount
      omega
    have hafter : after ≠ [] := by
      rintro rfl
      exact hlast (by rw [← List.cons_append, List.getLast?_concat])
    have hbefore : ∀ d ∈ c :: before, isDigit d := by
      refine List.forall_mem_cons.2 ⟨hc, fun d hd => ?_⟩
      exact hdigit (List.mem_append_left _ hd) fun heq => List.count_eq_zero.1 hpoints.1 (heq ▸ hd)
    refine .fraction (List.cons_ne_nil c before) hbefore hafter fun d hd => ?_
    exact hdigit (List.mem_append_right _ (List.mem_cons_of_mem _ hd)) fun heq =>
      List.count_eq_zero.1 hpoints.2 (heq ▸ hd)
  · refine .whole (List.cons_ne_nil c others) (List.forall_mem_cons.2 ⟨hc, fun d hd => ?_⟩)
    exact hdigit hd fun heq => hpoint (heq ▸ hd)

/-- A lexeme at the start of a text, and the text behind it. -/
inductive Scans (c : Char) : List Char → Lexeme → List Char → Prop
  | filler {others rest : List Char} (h : IsFiller (c :: others)) :
      Scans c (others ++ rest) (skipped (c :: others)) rest
  | token {others rest : List Char} {kind : Kind} {text : String}
      (hclassified : Classified c others rest kind) (hspelled : Spelled (c :: others) kind text) :
      Scans c (others ++ rest) ⟨c :: others, some (kind, text)⟩ rest

section classes

variable {c : Char}

theorem lookup_eq_none_of_isTrue {α : Type} {p : Char → Bool} {table : List (Char × α)} (h : p c)
    (htable : ∀ entry ∈ table, p entry.1 = false) : table.lookup c = none := by
  refine List.lookup_eq_none_iff.2 fun entry hentry => ?_
  simpa using ne_of_isTrue h (htable entry hentry)

theorem mem_of_lookup {α : Type} {table : List (Char × α)} {value : α}
    (h : table.lookup c = some value) : (c, value) ∈ table := by
  obtain ⟨before, after, heq, -⟩ := List.lookup_eq_some_iff.1 h
  rw [heq]
  exact List.mem_append_right _ List.mem_cons_self

theorem first_comment (rest : List Char) :
    Lexeme.first '#' rest = skipped ('#' :: rest.takeWhile (· ≠ '\n')) := rfl

theorem isFiller_of_isGap {text : List Char} (h : ∀ c ∈ text, isGap c) : IsFiller text := by
  induction text with
  | nil => exact .nil
  | cons c text ih =>
    obtain ⟨hc, htext⟩ := List.forall_mem_cons.1 h
    exact .blank (by simpa [isGap, or_assoc] using hc) (ih htext)

theorem scans_gap (h : isGap c) (rest : List Char) :
    Scans c rest (Lexeme.first c rest) (rest.dropWhile isGap) := by
  have hrun := isMaximalRun_takeWhile isGap rest
  have hscans := @Scans.filler c _ (rest.dropWhile isGap)
    (isFiller_of_isGap (List.forall_mem_cons.2 ⟨h, hrun.all⟩))
  rwa [List.takeWhile_append_dropWhile, ← first_of_isGap h] at hscans

theorem scans_comment (rest : List Char) :
    Scans '#' rest (Lexeme.first '#' rest) (rest.dropWhile (· ≠ '\n')) := by
  have hline : '\n' ∉ rest.takeWhile (· ≠ '\n') := by
    intro h
    simpa using List.mem_takeWhile_imp h
  have hfiller := IsFiller.comment hline .nil
  have hscans := @Scans.filler '#' _ (rest.dropWhile (· ≠ '\n')) hfiller
  rwa [List.append_nil, List.takeWhile_append_dropWhile, ← first_comment] at hscans

theorem IsWordKind.ne_literal {word : String} {kind : Kind} (h : IsWordKind word kind) :
    kind ≠ .string ∧ kind ≠ .command := by
  rcases h with hmem | ⟨rfl, -⟩
  · exact (by decide : ∀ entry ∈ Keyword.table, entry.2 ≠ .string ∧ entry.2 ≠ .command) _ hmem
  · decide

theorem scans_word (h : isLetter c) (rest : List Char) :
    Scans c rest (Lexeme.first c rest) (rest.dropWhile isLetter) := by
  have hword := isWordKind_kindOf (String.ofList (c :: rest.takeWhile isLetter))
  have hclassified : Classified c (rest.takeWhile isLetter) (rest.dropWhile isLetter)
      (Keyword.kindOf (String.ofList (c :: rest.takeWhile isLetter))) := {
    word := fun _ => ⟨isMaximalRun_takeWhile isLetter rest, hword⟩
    number := fun hdigit => absurd h (by simp [not_isLetter_of_isDigit hdigit])
    literal := by simp [lookup_eq_none_of_isTrue h (by decide : ∀ entry ∈ literalKinds, _)]
    operator := by simp [lookup_eq_none_of_isTrue h (by decide : ∀ entry ∈ operatorKinds, _)]
    sign := by simp [lookup_eq_none_of_isTrue h (by decide : ∀ entry ∈ signKinds, _)]
    unknown := fun hnot => absurd h (by simp [hnot]) }
  have hscans := Scans.token hclassified (.verbatim hword.ne_literal.1 hword.ne_literal.2)
  rw [first_of_isLetter h]
  rwa [List.takeWhile_append_dropWhile] at hscans

theorem scans_number (h : isDigit c) (rest : List Char) :
    Scans c rest (Lexeme.first c rest) (rest.dropWhile isDigitOrPoint) := by
  have hrun := isMaximalRun_takeWhile isDigitOrPoint rest
  have hletter := not_isLetter_of_isDigit h
  have hclassified : Classified c (rest.takeWhile isDigitOrPoint) (rest.dropWhile isDigitOrPoint)
      (if isNumeral (c :: rest.takeWhile isDigitOrPoint) then .number else .illegal) := {
    word := fun hnot => absurd hnot (by simp [hletter])
    number := by
      refine fun _ => ⟨hrun, ?_⟩
      by_cases hnumeral : isNumeral (c :: rest.takeWhile isDigitOrPoint)
      · rw [if_pos hnumeral]
        exact .inl ⟨isPositional_of_isNumeral h hrun.all hnumeral, rfl⟩
      · rw [if_neg hnumeral]
        exact .inr ⟨fun hpositional => hnumeral hpositional.isNumeral, rfl⟩
    literal := by simp [lookup_eq_none_of_isTrue h (by decide : ∀ entry ∈ literalKinds, _)]
    operator := by simp [lookup_eq_none_of_isTrue h (by decide : ∀ entry ∈ operatorKinds, _)]
    sign := by simp [lookup_eq_none_of_isTrue h (by decide : ∀ entry ∈ signKinds, _)]
    unknown := fun _ hnot => absurd h (by simp [hnot]) }
  have hscans := Scans.token hclassified (.verbatim (by split <;> decide) (by split <;> decide))
  rw [first_of_isDigit h]
  rwa [List.takeWhile_append_dropWhile] at hscans

theorem Classified.of_literal {others rest : List Char} {kind found : Kind}
    (hkind : literalKinds.lookup c = some kind)
    (h : (∃ body, others = body ++ [c] ∧ EndsBody c body ∧ found = kind) ∨
      rest = [] ∧ Unclosed c others ∧ found = .illegal) : Classified c others rest found := by
  obtain ⟨hletter, hdigit, hoperator, hsign⟩ :=
    (by decide : ∀ entry ∈ literalKinds, isLetter entry.1 = false ∧ isDigit entry.1 = false ∧
      operatorKinds.lookup entry.1 = none ∧ signKinds.lookup entry.1 = none) _ (mem_of_lookup hkind)
  refine ⟨by simp [hletter], by simp [hdigit], fun k hk => ?_, by simp [hoperator],
    by simp [hsign], by simp [hkind]⟩
  obtain rfl := Option.some.inj (hkind.symm.trans hk)
  exact h

/-- A literal is closed by its delimiter, or it takes everything. -/
theorem scans_literal {q : Quoting} {kind : Kind} (hdelimiter : q.delimiter ≠ '\\')
    (hkind : literalKinds.lookup q.delimiter = some kind)
    (hfirst : ∀ rest, Lexeme.first q.delimiter rest = Lexeme.ofLiteral kind q q.delimiter rest)
    (hspelled : ∀ {body text}, Decodes q.meaning? body text →
      Spelled (q.delimiter :: (body ++ [q.delimiter])) kind (String.ofList text))
    (rest : List Char) : ∃ more, Scans q.delimiter rest (Lexeme.first q.delimiter rest) more := by
  rw [hfirst, Lexeme.ofLiteral]
  cases hbody : q.body? rest with
  | none =>
    have hunclosed := Quoting.unclosed_of_body? hdelimiter hbody
    have hclassified := Classified.of_literal hkind (.inr ⟨@rfl _ [], hunclosed, rfl⟩)
    have hscans := Scans.token hclassified (.verbatim (by decide) (by decide))
    rw [List.append_nil] at hscans
    exact ⟨[], hscans⟩
  | some body =>
    obtain ⟨more, rfl⟩ := Lexeme.body_isPrefix hbody
    have hends := Quoting.endsBody_of_body? hdelimiter hbody
    have hclassified : Classified q.delimiter (body ++ [q.delimiter]) more kind :=
      .of_literal hkind (.inl ⟨body, rfl, hends, rfl⟩)
    exact ⟨more, .token hclassified (hspelled (Quoting.decodes_of_body? hbody))⟩

theorem scans_string (rest : List Char) : ∃ more, Scans '"' rest (Lexeme.first '"' rest) more :=
  scans_literal Text.Quoting.isFaithful_string.delimiter_ne rfl (fun _ => rfl)
    (fun h => .string (Quoting.meaning?_string ▸ h)) rest

theorem scans_command (rest : List Char) :
    ∃ more, Scans '\x60' rest (Lexeme.first '\x60' rest) more :=
  scans_literal Text.Quoting.isFaithful_command.delimiter_ne rfl (fun _ => rfl)
    (fun h => .command (Quoting.meaning?_command ▸ h)) rest

theorem Classified.of_operator {others rest : List Char} {kind single double : Kind}
    (hkinds : operatorKinds.lookup c = some (single, double))
    (h : (others ++ rest).head? = some '=' ∧ others = ['='] ∧ kind = double ∨
      (others ++ rest).head? ≠ some '=' ∧ others = [] ∧ kind = single) :
    Classified c others rest kind := by
  obtain ⟨hletter, hdigit, hliteral, hsign⟩ :=
    (by decide : ∀ entry ∈ operatorKinds, isLetter entry.1 = false ∧ isDigit entry.1 = false ∧
      literalKinds.lookup entry.1 = none ∧ signKinds.lookup entry.1 = none) _ (mem_of_lookup hkinds)
  refine ⟨by simp [hletter], by simp [hdigit], by simp [hliteral], fun k l hk => ?_,
    by simp [hsign], by simp [hkinds]⟩
  obtain ⟨rfl, rfl⟩ := Prod.mk.inj (Option.some.inj (hkinds.symm.trans hk))
  exact h

theorem first_sign {entry : Char × Kind} (h : entry ∈ signKinds) (rest : List Char) :
    Lexeme.first entry.1 rest = verbatim entry.2 [entry.1] := by
  fin_cases h <;> rfl

theorem scans_operator {single double : Kind} (h : operatorKinds.lookup c = some (single, double))
    (rest : List Char) : ∃ more, Scans c rest (Lexeme.first c rest) more := by
  obtain ⟨hsingle, hsingle', hdouble, hdouble'⟩ :=
    (by decide : ∀ entry ∈ operatorKinds, entry.2.1 ≠ .string ∧ entry.2.1 ≠ .command ∧
      entry.2.2 ≠ .string ∧ entry.2.2 ≠ .command) _ (mem_of_lookup h)
  by_cases hrest : rest.head? = some '='
  · obtain ⟨more, rfl⟩ := List.head?_eq_some_iff.1 hrest
    have hfirst : Lexeme.first c ('=' :: more) = verbatim double [c, '='] :=
      first_double (mem_of_lookup h) more
    have hclassified : Classified c ['='] more double := .of_operator h (.inl ⟨rfl, rfl, rfl⟩)
    refine ⟨more, ?_⟩
    rw [hfirst]
    exact Scans.token hclassified (.verbatim hdouble hdouble')
  · have hfirst : Lexeme.first c rest = verbatim single [c] := first_single (mem_of_lookup h) hrest
    have hclassified : Classified c [] rest single := .of_operator h (.inr ⟨hrest, rfl, rfl⟩)
    refine ⟨rest, ?_⟩
    rw [hfirst]
    exact Scans.token hclassified (.verbatim hsingle hsingle')

theorem scans_sign {kind : Kind} (h : signKinds.lookup c = some kind) (rest : List Char) :
    Scans c rest (Lexeme.first c rest) rest := by
  obtain ⟨hletter, hdigit, hliteral, hoperator, hstring, hcommand⟩ :=
    (by decide : ∀ entry ∈ signKinds, isLetter entry.1 = false ∧ isDigit entry.1 = false ∧
      literalKinds.lookup entry.1 = none ∧ operatorKinds.lookup entry.1 = none ∧
      entry.2 ≠ .string ∧ entry.2 ≠ .command) _ (mem_of_lookup h)
  have hfirst : Lexeme.first c rest = verbatim kind [c] := first_sign (mem_of_lookup h) rest
  have hclassified : Classified c [] rest kind := by
    refine ⟨by simp [hletter], by simp [hdigit], by simp [hliteral], by simp [hoperator],
      fun found hfound => ⟨rfl, ?_⟩, by simp [h]⟩
    exact Option.some.inj (h.symm.trans hfound)
  rw [hfirst]
  exact Scans.token hclassified (.verbatim hstring hcommand)

theorem scans_unknown (hgap : isGap c = false) (hcomment : c ≠ '#') (hletter : isLetter c = false)
    (hdigit : isDigit c = false) (hliteral : literalKinds.lookup c = none)
    (hoperator : operatorKinds.lookup c = none) (hsign : signKinds.lookup c = none)
    (rest : List Char) : Scans c rest (Lexeme.first c rest) rest := by
  have hfirst : Lexeme.first c rest = verbatim .illegal [c] := by
    simp only [List.lookup_eq_none_iff, literalKinds, operatorKinds, signKinds,
      List.forall_mem_cons, bne_iff_ne] at hliteral hoperator hsign
    simp [Lexeme.first, Lexeme.rules, Lexeme.Rule.lexeme?, Lexeme.Pattern.others?, hgap, hcomment,
      hletter, hdigit, hliteral, hoperator, hsign]
  have hclassified : Classified c [] rest .illegal :=
    ⟨by simp [hletter], by simp [hdigit], by simp [hliteral], by simp [hoperator], by simp [hsign],
      fun _ _ _ _ _ => ⟨rfl, rfl⟩⟩
  rw [hfirst]
  exact Scans.token hclassified (.verbatim (by decide) (by decide))

theorem scans_first (c : Char) (rest : List Char) :
    ∃ more, Scans c rest (Lexeme.first c rest) more := by
  cases hgap : isGap c with
  | true => exact ⟨_, scans_gap hgap rest⟩
  | false =>
  by_cases hcomment : c = '#'
  · exact hcomment ▸ ⟨_, scans_comment rest⟩
  cases hletter : isLetter c with
  | true => exact ⟨_, scans_word hletter rest⟩
  | false =>
  cases hdigit : isDigit c with
  | true => exact ⟨_, scans_number hdigit rest⟩
  | false =>
  cases hliteral : literalKinds.lookup c with
  | some kind =>
    have hmem := mem_of_lookup hliteral
    simp only [literalKinds, List.mem_cons, Prod.mk.injEq, List.not_mem_nil, or_false] at hmem
    rcases hmem with ⟨rfl, -⟩ | ⟨rfl, -⟩
    · exact scans_string rest
    · exact scans_command rest
  | none =>
  cases hoperator : operatorKinds.lookup c with
  | some kinds => exact scans_operator hoperator rest
  | none =>
  cases hsign : signKinds.lookup c with
  | some kind => exact ⟨_, scans_sign hsign rest⟩
  | none => exact ⟨_, scans_unknown hgap hcomment hletter hdigit hliteral hoperator hsign rest⟩

/-- An illegal token is a malformed number, a literal without an end, or a single character. -/
def IsIllegal (c : Char) (others rest : List Char) : Prop :=
  isDigit c ∧ ¬ IsPositional (c :: others) ∨ c ∈ literalKinds.map (·.1) ∧ rest = [] ∨ others = []

/-- The kinds that belong to a character. -/
def characterKinds : List Kind :=
  literalKinds.map (·.2) ++ operatorKinds.flatMap (fun entry => [entry.2.1, entry.2.2]) ++
    signKinds.map (·.2)

namespace Classified

variable {others rest : List Char} {kind : Kind}

theorem kind_cases (h : Classified c others rest kind) :
    isLetter c ∧ IsMaximalRun isLetter others rest ∧ IsWordKind (String.ofList (c :: others)) kind ∨
      IsPositional (c :: others) ∧ kind = .number ∨ IsIllegal c others rest ∧ kind = .illegal ∨
      kind ∈ characterKinds := by
  cases hletter : isLetter c with
  | true => exact .inl ⟨rfl, h.word hletter⟩
  | false =>
  cases hdigit : isDigit c with
  | true =>
    rcases (h.number hdigit).2 with hnumber | ⟨hnot, hkind⟩
    · exact .inr (.inl hnumber)
    · exact .inr (.inr (.inl ⟨.inl ⟨hdigit, hnot⟩, hkind⟩))
  | false =>
  cases hliteral : literalKinds.lookup c with
  | some literalKind =>
    have hmem := mem_of_lookup hliteral
    rcases h.literal literalKind hliteral with ⟨body, -, -, rfl⟩ | ⟨hrest, -, hkind⟩
    · refine .inr (.inr (.inr ?_))
      exact List.mem_append_left _ (List.mem_append_left _ (List.mem_map_of_mem hmem))
    · exact .inr (.inr (.inl ⟨.inr (.inl ⟨List.mem_map_of_mem hmem, hrest⟩), hkind⟩))
  | none =>
  cases hoperator : operatorKinds.lookup c with
  | some kinds =>
    have hmem : kind ∈ [kinds.1, kinds.2] := by
      rcases h.operator _ _ hoperator with ⟨-, -, rfl⟩ | ⟨-, -, rfl⟩ <;> simp
    refine .inr (.inr (.inr (List.mem_append_left _ (List.mem_append_right _ ?_))))
    exact List.mem_flatMap.2 ⟨_, mem_of_lookup hoperator, hmem⟩
  | none =>
  cases hsign : signKinds.lookup c with
  | some signKind =>
    obtain rfl := (h.sign signKind hsign).2
    exact .inr (.inr (.inr (List.mem_append_right _ (List.mem_map_of_mem (mem_of_lookup hsign)))))
  | none =>
    obtain ⟨hothers, hkind⟩ := h.unknown hletter hdigit hliteral hoperator hsign
    exact .inr (.inr (.inl ⟨.inr (.inr hothers), hkind⟩))

theorem isIllegal (h : Classified c others rest .illegal) : IsIllegal c others rest := by
  rcases h.kind_cases with ⟨-, -, hmem | ⟨hkind, -⟩⟩ | ⟨-, hkind⟩ | ⟨hillegal, -⟩ | hmem
  · exact absurd hmem (by simp [Keyword.table])
  · cases hkind
  · cases hkind
  · exact hillegal
  · exact absurd hmem (by decide)

theorem kind_ne_endOfInput (h : Classified c others rest kind) : kind ≠ .endOfInput := by
  rintro rfl
  rcases h.kind_cases with ⟨-, -, hmem | ⟨hkind, -⟩⟩ | ⟨-, hkind⟩ | ⟨-, hkind⟩ | hmem
  · exact absurd hmem (by simp [Keyword.table])
  · cases hkind
  · cases hkind
  · cases hkind
  · exact absurd hmem (by decide)

theorem isName (h : Classified c others rest .identifier) :
    isName (String.ofList (c :: others)) := by
  rcases h.kind_cases with ⟨hc, hrun, hmem | ⟨-, hnone⟩⟩ | ⟨-, hkind⟩ | ⟨-, hkind⟩ | hmem
  · exact absurd hmem (by simp [Keyword.table])
  · have hkind : Keyword.kind? (String.ofList (c :: others)) = none :=
      List.lookup_eq_none_iff.2 fun entry hentry => by simpa using (hnone entry hentry).symm
    have hall : ∀ d ∈ c :: others, isLetter d := List.forall_mem_cons.2 ⟨hc, hrun.all⟩
    rw [ShellFrontend.isName, hkind, String.toList_ofList, List.all_eq_true.2 hall]
    rfl
  · cases hkind
  · cases hkind
  · exact absurd hmem (by decide)

theorem isPositional (h : Classified c others rest .number) : IsPositional (c :: others) := by
  rcases h.kind_cases with ⟨-, -, hmem | ⟨hkind, -⟩⟩ | ⟨hnumber, -⟩ | ⟨-, hkind⟩ | hmem
  · exact absurd hmem (by simp [Keyword.table])
  · cases hkind
  · exact hnumber
  · cases hkind
  · exact absurd hmem (by decide)

end Classified

end classes

end ShellFrontend
