import ShellFrontend.Grammar.Recovery

/-! # Passages between brackets

What a parser reads leads from some open braces and parentheses to others. Terminators
stand in such a passage only between braces or, as line breaks, directly before an
`else`, and recovery stops inside a passage only at a line break of the second sort.
-/

set_option autoImplicit false

namespace ShellFrontend

/-- How many brackets of one sort are open after some tokens; none if one was closed that
was not open. -/
def openAfter (opening closing : Kind) : Nat → List Token → Option Nat
  | depth, [] => some depth
  | depth, token :: rest =>
    if token.kind = opening then openAfter opening closing (depth + 1) rest
    else if token.kind = closing then
      match depth with
      | 0 => none
      | depth + 1 => openAfter opening closing depth rest
    else openAfter opening closing depth rest

section openAfter

variable {opening closing : Kind} {token : Token} (depth : Nat) (rest : List Token)

theorem openAfter_opening (h : token.kind = opening) :
    openAfter opening closing depth (token :: rest) = openAfter opening closing (depth + 1) rest := by
  rw [openAfter.eq_def]
  exact if_pos h

theorem openAfter_closing (h : token.kind = closing) (hne : closing ≠ opening) :
    openAfter opening closing (depth + 1) (token :: rest) = openAfter opening closing depth rest := by
  rw [openAfter.eq_def]
  exact (if_neg (h ▸ hne)).trans (if_pos h)

theorem openAfter_other (hopening : token.kind ≠ opening) (hclosing : token.kind ≠ closing) :
    openAfter opening closing depth (token :: rest) = openAfter opening closing depth rest := by
  rw [openAfter.eq_def]
  exact (if_neg hopening).trans (if_neg hclosing)

end openAfter

/-- No bracket is closed that was not opened, and none is left open. -/
def Balanced (opening closing : Kind) (tokens : List Token) : Prop :=
  openAfter opening closing 0 tokens = some 0

instance (opening closing : Kind) (tokens : List Token) :
    Decidable (Balanced opening closing tokens) :=
  inferInstanceAs (Decidable (_ = _))

/-- Kinds that are neither brackets nor ends of anything. -/
def Kind.isPlain : Kind → Bool
  | .openBrace | .closeBrace | .openParen | .closeParen | .terminator | .endOfInput => false
  | _ => true

theorem Kind.ne_of_isPlain {kind other : Kind} (h : kind.isPlain) (hother : other.isPlain = false := by rfl) :
    kind ≠ other := by
  rintro rfl
  simp [hother] at h

/-- Whether a line break stands at the front and an `else` after it. -/
def elseOnNextLine : List Token → Bool
  | first :: second :: _ => first.isLineBreak && second.kind = .elseWord
  | _ => false

inductive Passage : Nat → Nat → List Token → Nat → Nat → Prop
  | nil (braces parens : Nat) : Passage braces parens [] braces parens
  | openBrace {braces parens braces' parens' : Nat} {token : Token} {rest : List Token}
      (h : token.kind = .openBrace) (tail : Passage (braces + 1) parens rest braces' parens') :
      Passage braces parens (token :: rest) braces' parens'
  | closeBrace {braces parens braces' parens' : Nat} {token : Token} {rest : List Token}
      (h : token.kind = .closeBrace) (tail : Passage braces parens rest braces' parens') :
      Passage (braces + 1) parens (token :: rest) braces' parens'
  | openParen {braces parens braces' parens' : Nat} {token : Token} {rest : List Token}
      (h : token.kind = .openParen) (tail : Passage braces (parens + 1) rest braces' parens') :
      Passage braces parens (token :: rest) braces' parens'
  | closeParen {braces parens braces' parens' : Nat} {token : Token} {rest : List Token}
      (h : token.kind = .closeParen) (tail : Passage braces parens rest braces' parens') :
      Passage braces (parens + 1) (token :: rest) braces' parens'
  | terminator {braces parens braces' parens' : Nat} {token : Token} {rest : List Token}
      (h : token.kind = .terminator) (tail : Passage (braces + 1) parens rest braces' parens') :
      Passage (braces + 1) parens (token :: rest) braces' parens'
  | lineBreak {braces parens braces' parens' : Nat} {token word : Token} {rest : List Token}
      (h : token.isLineBreak) (hword : word.kind = .elseWord)
      (tail : Passage braces parens (word :: rest) braces' parens') :
      Passage braces parens (token :: word :: rest) braces' parens'
  | plain {braces parens braces' parens' : Nat} {token : Token} {rest : List Token}
      (h : token.kind.isPlain) (tail : Passage braces parens rest braces' parens') :
      Passage braces parens (token :: rest) braces' parens'

theorem Token.kind_of_isLineBreak {token : Token} (h : token.isLineBreak) :
    token.kind = .terminator := by
  simp only [isLineBreak, Bool.and_eq_true, decide_eq_true_eq] at h
  exact h.1

namespace Passage

variable {braces parens braces' parens' : Nat} {read : List Token}

theorem append {braces'' parens'' : Nat} {more : List Token}
    (first : Passage braces parens read braces' parens')
    (second : Passage braces' parens' more braces'' parens'') :
    Passage braces parens (read ++ more) braces'' parens'' := by
  induction first with
  | nil => exact second
  | openBrace h _ ih => exact .openBrace h (ih second)
  | closeBrace h _ ih => exact .closeBrace h (ih second)
  | openParen h _ ih => exact .openParen h (ih second)
  | closeParen h _ ih => exact .closeParen h (ih second)
  | terminator h _ ih => exact .terminator h (ih second)
  | lineBreak h hword _ ih => exact .lineBreak h hword (ih second)
  | plain h _ ih => exact .plain h (ih second)

theorem not_endMarker {position : Position} :
    ¬ Passage braces parens [.endMarker position] braces' parens' := by
  intro h
  cases h with
  | plain h _ => cases h
  | openBrace h _ | closeBrace h _ | openParen h _ | closeParen h _ | terminator h _ => cases h

theorem kind_ne_endOfInput (h : Passage braces parens read braces' parens') :
    ∀ token ∈ read, token.kind ≠ .endOfInput := by
  induction h with
  | nil => exact fun _ h => absurd h List.not_mem_nil
  | openBrace h _ ih | closeBrace h _ ih | openParen h _ ih | closeParen h _ ih
  | terminator h _ ih => exact List.forall_mem_cons.2 ⟨by simp [h], ih⟩
  | lineBreak h _ _ ih =>
    exact List.forall_mem_cons.2 ⟨by simp [Token.kind_of_isLineBreak h], ih⟩
  | plain h _ ih => exact List.forall_mem_cons.2 ⟨Kind.ne_of_isPlain h, ih⟩

theorem openAfter_braces (h : Passage braces parens read braces' parens') :
    openAfter .openBrace .closeBrace braces read = some braces' := by
  induction h with
  | nil => rfl
  | openBrace h _ ih => rwa [openAfter_opening _ _ h]
  | closeBrace h _ ih => rwa [openAfter_closing _ _ h (by decide)]
  | openParen h _ ih | closeParen h _ ih | terminator h _ ih =>
    rwa [openAfter_other _ _ (by simp [h]) (by simp [h])]
  | lineBreak h _ _ ih =>
    have hkind := Token.kind_of_isLineBreak h
    rwa [openAfter_other _ _ (by simp [hkind]) (by simp [hkind])]
  | plain h _ ih => rwa [openAfter_other _ _ (Kind.ne_of_isPlain h) (Kind.ne_of_isPlain h)]

theorem openAfter_parens (h : Passage braces parens read braces' parens') :
    openAfter .openParen .closeParen parens read = some parens' := by
  induction h with
  | nil => rfl
  | openParen h _ ih => rwa [openAfter_opening _ _ h]
  | closeParen h _ ih => rwa [openAfter_closing _ _ h (by decide)]
  | openBrace h _ ih | closeBrace h _ ih | terminator h _ ih =>
    rwa [openAfter_other _ _ (by simp [h]) (by simp [h])]
  | lineBreak h _ _ ih =>
    have hkind := Token.kind_of_isLineBreak h
    rwa [openAfter_other _ _ (by simp [hkind]) (by simp [hkind])]
  | plain h _ ih => rwa [openAfter_other _ _ (Kind.ne_of_isPlain h) (Kind.ne_of_isPlain h)]

end Passage

section skipStatement

variable {token : Token} (braces parens : Nat) (rest : List Token)

theorem skipStatement_openBrace (h : token.kind = .openBrace) :
    skipStatement braces parens (token :: rest) = skipStatement (braces + 1) parens rest := by
  rw [skipStatement, h]

theorem skipStatement_closeBrace (h : token.kind = .closeBrace) :
    skipStatement (braces + 1) parens (token :: rest) = skipStatement braces parens rest := by
  rw [skipStatement, h]
  rfl

theorem skipStatement_openParen (h : token.kind = .openParen) :
    skipStatement braces parens (token :: rest) = skipStatement braces (parens + 1) rest := by
  rw [skipStatement, h]

theorem skipStatement_closeParen (h : token.kind = .closeParen) :
    skipStatement braces parens (token :: rest) = skipStatement braces (parens - 1) rest := by
  rw [skipStatement, h]

theorem skipStatement_terminator (h : token.kind = .terminator) :
    skipStatement braces parens (token :: rest) =
      if Recovery.endsAt braces parens token rest then rest else skipStatement braces parens rest := by
  rw [skipStatement, h]

theorem skipStatement_plain (h : token.kind.isPlain) :
    skipStatement braces parens (token :: rest) = skipStatement braces parens rest := by
  rw [skipStatement]
  split <;> first | rfl | simp_all [Kind.isPlain]

end skipStatement

namespace Passage

/-- Where recovery stops that starts in front of a passage: behind the passage, or at an `else`
whose line break stands outside all brackets. -/
def Recovers (braces parens : Nat) (read rest : List Token) (braces' parens' : Nat) : Prop :=
  skipStatement braces parens (read ++ rest) = skipStatement braces' parens' rest ∨
    ∃ before lineBreak word after, read = before ++ lineBreak :: word :: after ∧
      lineBreak.isLineBreak ∧ word.kind = .elseWord ∧ Passage braces parens before 0 0 ∧
      skipStatement braces parens (read ++ rest) = word :: after ++ rest

variable {braces parens braces' parens' : Nat} {read rest : List Token}

private theorem recovers_cons {braces₁ parens₁ : Nat} {token : Token}
    (hstep : Passage braces parens [token] braces₁ parens₁)
    (hskip : skipStatement braces parens (token :: (read ++ rest)) =
      skipStatement braces₁ parens₁ (read ++ rest))
    (h : Recovers braces₁ parens₁ read rest braces' parens') :
    Recovers braces parens (token :: read) rest braces' parens' := by
  rcases h with h | ⟨before, lineBreak, word, after, rfl, hbreak, hword, hbefore, h⟩
  · left
    rw [List.cons_append, hskip, h]
  · right
    refine ⟨token :: before, lineBreak, word, after, rfl, hbreak, hword, hstep.append hbefore, ?_⟩
    rw [List.cons_append, hskip, h]

theorem recovers (h : Passage braces parens read braces' parens') (rest : List Token) :
    Recovers braces parens read rest braces' parens' := by
  induction h with
  | nil => exact .inl rfl
  | openBrace h _ ih =>
    exact recovers_cons (.openBrace h (.nil _ _)) (skipStatement_openBrace _ _ _ h) ih
  | closeBrace h _ ih =>
    exact recovers_cons (.closeBrace h (.nil _ _)) (skipStatement_closeBrace _ _ _ h) ih
  | openParen h _ ih =>
    exact recovers_cons (.openParen h (.nil _ _)) (skipStatement_openParen _ _ _ h) ih
  | closeParen h _ ih =>
    exact recovers_cons (.closeParen h (.nil _ _)) (skipStatement_closeParen _ _ _ h) ih
  | plain h _ ih => exact recovers_cons (.plain h (.nil _ _)) (skipStatement_plain _ _ _ h) ih
  | terminator h _ ih =>
    refine recovers_cons (.terminator h (.nil _ _)) ?_ ih
    rw [skipStatement_terminator _ _ _ h]
    simp [Recovery.endsAt]
  | @lineBreak braces parens _ _ token word tail h hword _ ih =>
    have hskip := skipStatement_terminator braces parens (word :: tail ++ rest)
      (Token.kind_of_isLineBreak h)
    have hstarts : Recovery.startsStatement (word :: tail ++ rest) = false := by
      simp [Recovery.startsStatement, hword]
    by_cases hopen : braces = 0 ∧ parens = 0
    · -- Nothing is open: recovery ends right here.
      obtain ⟨rfl, rfl⟩ := hopen
      exact .inr ⟨[], token, word, tail, rfl, h, hword, .nil 0 0, by simpa [Recovery.endsAt] using hskip⟩
    · have hends : Recovery.endsAt braces parens token (word :: tail ++ rest) = false := by
        simp only [Recovery.endsAt, hstarts, Bool.and_false, Bool.or_false, Bool.and_eq_false_imp,
          decide_eq_true_eq, decide_eq_false_iff_not]
        intro hbraces hparens
        exact hopen ⟨hbraces, hparens⟩
      rw [hends] at hskip
      rcases ih with ih | ⟨before, lineBreak, word', after, hread, hbreak, hword', hbefore, ih⟩
      · exact .inl (hskip.trans ih)
      · cases before with
        | nil =>
          -- The `else` itself is no line break.
          obtain ⟨rfl, -⟩ := List.cons.inj hread
          rw [Token.kind_of_isLineBreak hbreak] at hword
          cases hword
        | cons first before =>
          obtain ⟨rfl, rfl⟩ := List.cons.inj hread
          exact .inr ⟨token :: word :: before, lineBreak, word', after, rfl, hbreak, hword',
            .lineBreak h hword hbefore, hskip.trans ih⟩

private theorem outer_of_cons {token stop : Token} {tail outer after : List Token}
    (hne : token.kind ≠ stop.kind) (heq : token :: tail = outer ++ stop :: after) :
    ∃ outer', outer = token :: outer' ∧ tail = outer' ++ stop :: after := by
  cases outer with
  | nil =>
    obtain ⟨rfl, -⟩ := List.cons.inj heq
    exact absurd rfl hne
  | cons first outer =>
    obtain ⟨rfl, htail⟩ := List.cons.inj heq
    exact ⟨outer, rfl, htail⟩

/-- A passage ends in front of a terminator that stands outside all braces. -/
theorem ends_before_terminator {stop : Token} {outer after : List Token}
    (h : Passage braces parens read braces' parens') (hstop : stop.kind = .terminator)
    (hafter : elseOnNextLine (stop :: after) = false)
    (hopen : openAfter .openBrace .closeBrace braces outer = some 0)
    (heq : read ++ rest = outer ++ stop :: after) :
    ∃ left, outer = read ++ left ∧ rest = left ++ stop :: after ∧
      openAfter .openBrace .closeBrace braces' left = some 0 := by
  induction h generalizing outer with
  | nil => exact ⟨outer, rfl, heq, hopen⟩
  | @lineBreak _ _ _ _ token word tail h hword _ ih =>
    cases outer with
    | nil =>
      obtain ⟨rfl, rfl⟩ := List.cons.inj heq
      simp [elseOnNextLine, h, hword] at hafter
    | cons first outer =>
      obtain ⟨rfl, htail⟩ := List.cons.inj heq
      have hkind := Token.kind_of_isLineBreak h
      rw [openAfter_other _ _ (by simp [hkind]) (by simp [hkind])] at hopen
      obtain ⟨left, rfl, hleft⟩ := ih hopen htail
      exact ⟨left, rfl, hleft⟩
  | terminator h _ ih =>
    cases outer with
    | nil => cases hopen
    | cons first outer =>
      obtain ⟨rfl, htail⟩ := List.cons.inj heq
      rw [openAfter_other _ _ (by simp [h]) (by simp [h])] at hopen
      obtain ⟨left, rfl, hleft⟩ := ih hopen htail
      exact ⟨left, rfl, hleft⟩
  | openBrace h _ ih =>
    obtain ⟨outer, rfl, htail⟩ := outer_of_cons (by simp [h, hstop]) heq
    rw [openAfter_opening _ _ h] at hopen
    obtain ⟨left, rfl, hleft⟩ := ih hopen htail
    exact ⟨left, rfl, hleft⟩
  | closeBrace h _ ih =>
    obtain ⟨outer, rfl, htail⟩ := outer_of_cons (by simp [h, hstop]) heq
    rw [openAfter_closing _ _ h (by decide)] at hopen
    obtain ⟨left, rfl, hleft⟩ := ih hopen htail
    exact ⟨left, rfl, hleft⟩
  | openParen h _ ih | closeParen h _ ih =>
    obtain ⟨outer, rfl, htail⟩ := outer_of_cons (by simp [h, hstop]) heq
    rw [openAfter_other _ _ (by simp [h]) (by simp [h])] at hopen
    obtain ⟨left, rfl, hleft⟩ := ih hopen htail
    exact ⟨left, rfl, hleft⟩
  | plain h _ ih =>
    obtain ⟨outer, rfl, htail⟩ := outer_of_cons (hstop ▸ Kind.ne_of_isPlain h) heq
    rw [openAfter_other _ _ (Kind.ne_of_isPlain h) (Kind.ne_of_isPlain h)] at hopen
    obtain ⟨left, rfl, hleft⟩ := ih hopen htail
    exact ⟨left, rfl, hleft⟩

end Passage

end ShellFrontend
