import ShellFrontend.Error.Basic
import ShellFrontend.Proofs.Scanning

/-! # Where lexemes end

A scanner looks at most at one character behind a lexeme. So lexemes stay what they are when the
text behind them is exchanged for one that starts with the same character, with a line break, or,
behind a token, with a blank. Only a literal that was never closed goes on into everything that is
written behind it.
-/

set_option autoImplicit false

namespace ShellFrontend

/-- A closed body stays closed, whatever follows its delimiter. -/
theorem Text.Quoting.body?_exchange {q : Text.Quoting} (hdelimiter : q.delimiter ≠ '\\')
    {body rest : List Char} (h : q.body? (body ++ q.delimiter :: rest) = some body)
    (rest' : List Char) : q.body? (body ++ q.delimiter :: rest') = some body := by
  generalize hsource : body ++ q.delimiter :: rest = source at h
  fun_induction body? q source generalizing body with
  | case1 c source ih =>
    obtain ⟨tail, htail, rfl⟩ := Option.map_eq_some_iff.1 h
    rw [List.cons_append, List.cons_append] at hsource ⊢
    rw [body?, ih (List.cons.inj (List.cons.inj hsource).2).2 htail]
    rfl
  | case2 =>
    obtain rfl := Option.some.inj h
    rw [List.nil_append, body?_cons hdelimiter, if_pos rfl]
  | case3 c source hpair hne ih =>
    obtain ⟨tail, htail, rfl⟩ := Option.map_eq_some_iff.1 h
    have hc : c ≠ '\\' := by
      rintro rfl
      -- A backslash at the end protects nothing and closes nothing.
      cases source with
      | nil => cases htail
      | cons d source => exact hpair d source rfl rfl
    rw [List.cons_append] at hsource ⊢
    rw [body?_cons hc, if_neg hne, ih (List.cons.inj hsource).2 htail]
    rfl
  | case4 => cases h

theorem of_takeWhile_append {p : Char → Bool} {others rest : List Char}
    (h : (others ++ rest).takeWhile p = others) :
    (∀ c ∈ others, p c) ∧ ∀ d ∈ rest.head?, p d = false := by
  have hothers : ∀ c ∈ others, p c := by
    intro c hc
    rw [← h] at hc
    exact List.mem_takeWhile_imp hc
  refine ⟨hothers, fun d hd => ?_⟩
  rw [List.takeWhile_append_of_pos hothers, List.append_right_eq_self] at h
  obtain ⟨tail, rfl⟩ := List.head?_eq_some_iff.1 hd
  simpa [List.takeWhile_cons] using h

theorem takeWhile_exchange {p : Char → Bool} {others rest rest' : List Char}
    (h : (others ++ rest).takeWhile p = others)
    (hhead : ∀ d ∈ rest'.head?, rest.head? = some d ∨ p d = false) :
    (others ++ rest').takeWhile p = others := by
  obtain ⟨hothers, hrest⟩ := of_takeWhile_append h
  exact takeWhile_append_of_head? hothers fun d hd => (hhead d hd).elim (hrest d) id

namespace Lexeme

/-- A literal that goes on to the end of its source. -/
def isOpenLiteral (lexeme : Lexeme) : Bool :=
  match lexeme.token with
  | some (.illegal, text) => Cause.isOpenLiteral text
  | _ => false

/-- A character with which the lexeme does not go on, whatever it is. -/
def EndsBefore (lexeme : Lexeme) (d : Char) : Prop :=
  d = '\n' ∨ isGap d ∧ lexeme.token ≠ none

/-- The text behind a lexeme may be exchanged: it starts as before or with a character that ends
the lexeme, and nothing is written behind a literal without an end. -/
structure Exchanges (lexeme : Lexeme) (rest rest' : List Char) : Prop where
  head : ∀ d ∈ rest'.head?, rest.head? = some d ∨ lexeme.EndsBefore d
  literal : rest = [] → rest' ≠ [] → lexeme.isOpenLiteral = false

/-- A rule that looks at most at one character behind what it takes: a run that goes on neither
over line breaks nor, if it is a token, over blanks, a sign with at most an equals sign behind it,
or a literal. -/
inductive Rule.IsLocal : Rule → Prop
  | skip {first others : Char → Bool} (hline : others '\n' = false) :
      IsLocal ⟨.run first others, .skip⟩
  | word {first others : Char → Bool} (hline : others '\n' = false)
      (hgap : ∀ d, isGap d → others d = false) : IsLocal ⟨.run first others, .word⟩
  | numeral {first others : Char → Bool} (hline : others '\n' = false)
      (hgap : ∀ d, isGap d → others d = false) : IsLocal ⟨.run first others, .numeral⟩
  | single {c : Char} {kind : Kind} : IsLocal ⟨.exactly c [], .fixed kind⟩
  | double {c : Char} {kind : Kind} : IsLocal ⟨.exactly c ['='], .fixed kind⟩
  | literal {kind : Kind} {quoting : Text.Quoting}
      (h : quoting.delimiter = '"' ∨ quoting.delimiter = '\x60') :
      IsLocal ⟨.exactly quoting.delimiter [], .literal kind quoting⟩

theorem not_isTrue_of_isGap {p : Char → Bool} (hgaps : (p ' ' || p '\t' || p '\r') = false)
    (d : Char) (h : isGap d) : p d = false := by
  rw [← Bool.not_eq_true]
  intro hp
  rw [not_isGap hp hgaps] at h
  cases h

open Rule.IsLocal in
theorem rules_isLocal : ∀ rule ∈ rules, rule.IsLocal := by
  simp only [rules, List.forall_mem_cons, single, double, true_and, List.not_mem_nil,
    false_implies, implies_true, and_true]
  exact ⟨.skip rfl, .skip rfl, .word rfl (not_isTrue_of_isGap rfl),
    .numeral rfl (not_isTrue_of_isGap rfl), @literal .string .string (.inl rfl),
    @literal .command .command (.inr rfl)⟩

/-- Only blanks and comments stand for no token. -/
theorem isGap_or_comment {c : Char} {rest written : List Char}
    (h : first c rest = ⟨written, none⟩) : isGap c ∨ c = '#' := by
  have hskip : ∀ rule ∈ rules, rule.meaning = .skip → ∀ taken,
      rule.pattern.others? c rest = some taken → isGap c ∨ c = '#' := by
    simp +contextual [rules, Pattern.others?]
  unfold first at h
  cases hfound : rules.findSome? (·.lexeme? c rest) with
  | none =>
    rw [hfound] at h
    cases h
  | some lexeme =>
    rw [hfound] at h
    obtain ⟨rule, hrule, hlexeme⟩ := List.exists_of_findSome?_eq_some hfound
    obtain ⟨taken, htaken, rfl⟩ := Option.map_eq_some_iff.1 hlexeme
    apply hskip rule hrule _ taken htaken
    have hnone : (rule.meaning.lexeme c taken rest).token = none := congrArg token h
    cases hmeaning : rule.meaning with
    | skip => rfl
    | literal kind quoting =>
      rw [hmeaning, Meaning.lexeme, ofLiteral] at hnone
      split at hnone <;> cases hnone
    | _ =>
      rw [hmeaning] at hnone
      cases hnone

section exchange

variable {c : Char} {others rest rest' : List Char} {token : Option (Kind × String)}

theorem others?_run_exchange {first p : Char → Bool}
    (h : (Pattern.run first p).others? c (others ++ rest) = some others)
    (hhead : ∀ d ∈ rest'.head?, rest.head? = some d ∨ p d = false) :
    (Pattern.run first p).others? c (others ++ rest') = some others := by
  simp only [Pattern.others?, Option.ite_none_right_eq_some, Option.some.injEq] at h ⊢
  exact ⟨h.1, takeWhile_exchange h.2 hhead⟩

theorem ofLiteral_exchange {kind : Kind} {q : Text.Quoting}
    (hq : q.delimiter = '"' ∨ q.delimiter = '\x60')
    (h : ofLiteral kind q q.delimiter (others ++ rest) = ⟨q.delimiter :: others, token⟩)
    (hnext : Exchanges ⟨q.delimiter :: others, token⟩ rest rest') :
    ofLiteral kind q q.delimiter (others ++ rest') = ⟨q.delimiter :: others, token⟩ := by
  have hdelimiter : q.delimiter ≠ '\\' := by
    rcases hq with hq | hq <;> rw [hq] <;> decide
  cases hbody : q.body? (others ++ rest) with
  | some body =>
    rw [ofLiteral, hbody] at h
    obtain ⟨rfl, rfl⟩ : body ++ [q.delimiter] = others ∧ _ = token := by simpa using h
    rw [List.append_assoc, List.singleton_append] at hbody ⊢
    rw [ofLiteral, Text.Quoting.body?_exchange hdelimiter hbody]
  | none =>
    rw [ofLiteral, hbody] at h
    have hrest : rest = [] := by simpa [verbatim] using congrArg written h
    have hrest' : rest' = [] := by
      by_contra hne
      have hclosed := hnext.literal hrest hne
      rw [← h] at hclosed
      simp [isOpenLiteral, verbatim, Cause.isOpenLiteral] at hclosed
      exact hq.elim hclosed.1 hclosed.2
    rw [hrest']
    rw [hrest] at hbody h
    rw [ofLiteral, hbody]
    exact h

theorem Exchanges.head_of_run {lexeme : Lexeme} {p : Char → Bool}
    (h : Exchanges lexeme rest rest') (hline : p '\n' = false)
    (hgap : lexeme.token ≠ none → ∀ d, isGap d → p d = false) :
    ∀ d ∈ rest'.head?, rest.head? = some d ∨ p d = false := by
  intro d hd
  refine (h.head d hd).imp_right ?_
  rintro (rfl | ⟨hgap', htoken⟩)
  · exact hline
  · exact hgap htoken d hgap'

theorem Exchanges.head_equals {lexeme : Lexeme} (h : Exchanges lexeme rest rest')
    (hrest' : (others ++ rest').head? = some '=') : (others ++ rest).head? = some '=' := by
  cases others with
  | cons d others => exact hrest'
  | nil =>
    rcases h.head '=' hrest' with hrest | hends | ⟨hgap, -⟩
    · exact hrest
    · exact absurd hends (by decide)
    · exact absurd hgap (by decide)

theorem others?_single {d : Char} {text taken : List Char} :
    (Pattern.exactly d []).others? c text = some taken ↔ c = d ∧ [] = taken := by
  simp [Pattern.others?]

theorem others?_double {d : Char} {text taken : List Char} :
    (Pattern.exactly d ['=']).others? c text = some taken ↔
      (c = d ∧ text.head? = some '=') ∧ ['='] = taken := by
  cases text with
  | nil => simp [Pattern.others?]
  | cons e text => simp [Pattern.others?, eq_comm (a := e)]

namespace Rule.IsLocal

variable {rule : Rule}

theorem lexeme?_exchange (hrule : rule.IsLocal)
    (h : rule.lexeme? c (others ++ rest) = some ⟨c :: others, token⟩)
    (hnext : Exchanges ⟨c :: others, token⟩ rest rest') :
    rule.lexeme? c (others ++ rest') = some ⟨c :: others, token⟩ := by
  obtain ⟨taken, htaken, hlexeme⟩ := Option.map_eq_some_iff.1 h
  cases hrule with
  | skip hline =>
    cases hlexeme
    have hhead := hnext.head_of_run hline fun hnone => absurd rfl hnone
    rw [lexeme?, others?_run_exchange htaken hhead]
    rfl
  | word hline hgap =>
    cases hlexeme
    rw [lexeme?, others?_run_exchange htaken (hnext.head_of_run hline fun _ => hgap)]
    rfl
  | numeral hline hgap =>
    cases hlexeme
    rw [lexeme?, others?_run_exchange htaken (hnext.head_of_run hline fun _ => hgap)]
    rfl
  | single =>
    cases hlexeme
    rw [lexeme?, others?_single.2 (others?_single.1 htaken)]
    rfl
  | double =>
    obtain ⟨⟨hc, -⟩, rfl⟩ := others?_double.1 htaken
    cases hlexeme
    rw [lexeme?, others?_double.2 ⟨⟨hc, rfl⟩, rfl⟩]
    rfl
  | literal hq =>
    obtain ⟨rfl, rfl⟩ := others?_single.1 htaken
    rw [lexeme?, others?_single.2 ⟨rfl, rfl⟩]
    exact congrArg some (ofLiteral_exchange hq hlexeme hnext)

theorem lexeme?_eq_none_exchange {lexeme : Lexeme} (hrule : rule.IsLocal)
    (h : rule.lexeme? c (others ++ rest) = none) (hnext : Exchanges lexeme rest rest') :
    rule.lexeme? c (others ++ rest') = none := by
  rw [lexeme?, Option.map_eq_none_iff, Option.eq_none_iff_forall_ne_some] at h ⊢
  intro taken htaken
  cases hrule with
  | double =>
    obtain ⟨⟨hc, hhead⟩, rfl⟩ := others?_double.1 htaken
    exact h ['='] (others?_double.2 ⟨⟨hc, hnext.head_equals hhead⟩, rfl⟩)
  | single => exact h taken (others?_single.2 (others?_single.1 htaken))
  | literal => exact h taken (others?_single.2 (others?_single.1 htaken))
  | _ =>
    have hfirst := (Option.ite_none_right_eq_some.1 htaken).1
    exact h _ (Option.ite_none_right_eq_some.2 ⟨hfirst, rfl⟩)

end Rule.IsLocal

theorem first_exchange (h : first c (others ++ rest) = ⟨c :: others, token⟩)
    (hnext : Exchanges ⟨c :: others, token⟩ rest rest') :
    first c (others ++ rest') = ⟨c :: others, token⟩ := by
  unfold first at h ⊢
  cases hfound : rules.findSome? (·.lexeme? c (others ++ rest)) with
  | none =>
    have hnone : rules.findSome? (·.lexeme? c (others ++ rest')) = none :=
      List.findSome?_eq_none_iff.2 fun rule hrule =>
        (rules_isLocal rule hrule).lexeme?_eq_none_exchange
          (List.findSome?_eq_none_iff.1 hfound rule hrule) hnext
    rw [hnone]
    rwa [hfound] at h
  | some lexeme =>
    rw [hfound] at h
    obtain rfl : lexeme = ⟨c :: others, token⟩ := h
    obtain ⟨before, rule, after, heq, hrule, hbefore⟩ := List.findSome?_eq_some_iff.1 hfound
    have hlocal : ∀ other ∈ before ++ rule :: after, other.IsLocal := by
      rw [← heq]
      exact rules_isLocal
    have hfound' : rules.findSome? (·.lexeme? c (others ++ rest')) = some ⟨c :: others, token⟩ := by
      refine List.findSome?_eq_some_iff.2 ⟨before, rule, after, heq, ?_, fun earlier hearlier => ?_⟩
      · exact (hlocal rule (by simp)).lexeme?_exchange hrule hnext
      · exact (hlocal earlier (by simp [hearlier])).lexeme?_eq_none_exchange
          (hbefore earlier hearlier) hnext
    rw [hfound']
    rfl

end exchange

/-- A text in front of another one is cut into lexemes, none of which goes on into the other. -/
inductive CutBefore (rest : List Char) : List Char → List Lexeme → Prop
  | nil : CutBefore rest [] []
  | cons {c : Char} {others text : List Char} {token : Option (Kind × String)}
      {lexemes : List Lexeme} (hfirst : first c (others ++ (text ++ rest)) = ⟨c :: others, token⟩)
      (tail : CutBefore rest text lexemes) :
      CutBefore rest (c :: (others ++ text)) (⟨c :: others, token⟩ :: lexemes)

theorem exists_first_eq (c : Char) (rest : List Char) : ∃ others text token,
    rest = others ++ text ∧ first c (others ++ text) = ⟨c :: others, token⟩ := by
  obtain ⟨others, hwritten, text, rfl⟩ := written_first c rest
  refine ⟨others, text, (first c (others ++ text)).token, rfl, ?_⟩
  rw [← hwritten]

theorem cutBefore_ofSource (source : List Char) : CutBefore [] source (ofSource source) := by
  fun_induction ofSource source with
  | case1 => exact .nil
  | case2 c rest ih =>
    obtain ⟨others, text, token, rfl, hfirst⟩ := exists_first_eq c rest
    rw [hfirst, List.tail_cons, List.drop_left] at ih ⊢
    exact .cons (by rwa [List.append_nil]) ih

namespace CutBefore

variable {rest rest' text : List Char} {lexemes : List Lexeme}

theorem ofSource_append (h : CutBefore rest text lexemes) :
    ofSource (text ++ rest) = lexemes ++ ofSource rest := by
  induction h with
  | nil => rfl
  | cons hfirst _ ih =>
    rw [List.cons_append, List.append_assoc, ofSource_of_first hfirst, ih, List.cons_append]

theorem flatMap_written (h : CutBefore rest text lexemes) : lexemes.flatMap written = text := by
  induction h with
  | nil => rfl
  | cons _ _ ih => rw [List.flatMap_cons, ih, List.cons_append]

/-- The lexemes of a text stay what they are when the text behind it is exchanged. -/
theorem exchange (h : CutBefore rest text lexemes)
    (hlast : ∀ lexeme ∈ lexemes.getLast?, ∀ d ∈ rest'.head?,
      rest.head? = some d ∨ lexeme.EndsBefore d)
    (hclosed : rest = [] → rest' ≠ [] → ∀ lexeme ∈ lexemes, lexeme.isOpenLiteral = false) :
    CutBefore rest' text lexemes := by
  induction h with
  | nil => exact .nil
  | @cons c others text token lexemes hfirst tail ih =>
    have hnext : Exchanges ⟨c :: others, token⟩ (text ++ rest) (text ++ rest') := by
      constructor
      · cases tail with
        | nil => exact hlast _ rfl
        | cons => exact fun d hd => .inl hd
      · intro hrest hrest'
        obtain ⟨rfl, rfl⟩ := List.append_eq_nil_iff.1 hrest
        exact hclosed rfl hrest' _ List.mem_cons_self
    refine .cons (first_exchange hfirst hnext) (ih (fun lexeme hlexeme => hlast lexeme ?_) ?_)
    · rw [List.getLast?_cons, Option.mem_def.1 hlexeme]
      rfl
    · exact fun hrest hrest' lexeme hlexeme =>
        hclosed hrest hrest' lexeme (List.mem_cons_of_mem _ hlexeme)

end CutBefore

end Lexeme

end ShellFrontend
