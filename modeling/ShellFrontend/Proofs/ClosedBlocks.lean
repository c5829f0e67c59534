import ShellFrontend.Proofs.SourceOrder
import ShellFrontend.Session
import ShellFrontend.Token.Tokenize

/-! # Recovery over closed blocks

Recovery counts open braces and open parentheses apart, and the brace that closes a block leaves
the count of parentheses as the contents of the block made it. A closed block is therefore skipped
like an empty one as long as no terminator behind it tells the two counts apart, and always if the
block leaves the count as it was.
-/

set_option autoImplicit false

namespace ShellFrontend

namespace Recovery

/-- The braces and parentheses that are open behind a token, unless recovery ends there. -/
def step (braces parens : Nat) (token : Token) (rest : List Token) : Option (Nat × Nat) :=
  match token.kind with
  | .endOfInput => none
  | .terminator => if endsAt braces parens token rest then none else some (braces, parens)
  | .openBrace => some (braces + 1, parens)
  | .closeBrace => if braces = 0 then none else some (braces - 1, parens)
  | .openParen => some (braces, parens + 1)
  | .closeParen => some (braces, parens - 1)
  | _ => some (braces, parens)

/-- The braces and parentheses that are open in front of `next`, unless recovery ends before. -/
def scan (next : Token) : Nat → Nat → List Token → Option (Nat × Nat)
  | braces, parens, [] => some (braces, parens)
  | braces, parens, token :: rest =>
    match step braces parens token (rest ++ [next]) with
    | none => none
    | some (braces, parens) => scan next braces parens rest

/-- How many parentheses are counted open behind some tokens. One that is closed without having
been opened does not count. -/
def parensAfter : Nat → List Token → Nat
  | parens, [] => parens
  | parens, token :: rest =>
    match token.kind with
    | .openParen => parensAfter (parens + 1) rest
    | .closeParen => parensAfter (parens - 1) rest
    | _ => parensAfter parens rest

section step

variable {braces parens braces' parens' : Nat} {token next : Token} {rest : List Token}

theorem skipStatement_cons (braces parens : Nat) (token : Token) (rest : List Token) :
    skipStatement braces parens (token :: rest) =
      match step braces parens token rest with
      | some (braces, parens) => skipStatement braces parens rest
      | none => if token.kind = .endOfInput then token :: rest else rest := by
  rw [skipStatement, step]
  cases hkind : token.kind with
  | terminator => cases endsAt braces parens token rest <;> rfl
  | closeBrace =>
    dsimp only
    split <;> rfl
  | _ => rfl

theorem step_append (braces parens : Nat) (token : Token) (rest : List Token) (next : Token)
    (more : List Token) :
    step braces parens token (rest ++ next :: more) =
      step braces parens token (rest ++ [next]) := by
  have hstarts : startsStatement (rest ++ next :: more) = startsStatement (rest ++ [next]) := by
    cases rest <;> rfl
  rw [step, step, endsAt, endsAt, hstarts]

theorem skipStatement_append {read : List Token}
    (h : scan next braces parens read = some (braces', parens')) (more : List Token) :
    skipStatement braces parens (read ++ next :: more) =
      skipStatement braces' parens' (next :: more) := by
  induction read generalizing braces parens with
  | nil =>
    obtain ⟨rfl, rfl⟩ := Prod.mk.inj (Option.some.inj h)
    rfl
  | cons token read ih =>
    rw [scan] at h
    rw [List.cons_append, skipStatement_cons, step_append]
    split at h
    · cases h
    · rename_i hstep
      rw [hstep]
      exact ih h

theorem scan_of_openAfter {content : List Token} {depth depth' : Nat}
    (hend : ∀ token ∈ content, token.kind ≠ .endOfInput)
    (h : openAfter .openBrace .closeBrace depth content = some depth') (braces parens : Nat)
    (next : Token) :
    scan next (braces + 1 + depth) parens content =
      some (braces + 1 + depth', parensAfter parens content) := by
  induction content generalizing depth parens with
  | nil =>
    obtain rfl := Option.some.inj h
    rfl
  | cons token content ih =>
    obtain ⟨htoken, hcontent⟩ := List.forall_mem_cons.1 hend
    have hne : braces + 1 + depth ≠ 0 := by omega
    cases hkind : token.kind with
    | endOfInput => exact absurd hkind htoken
    | openBrace =>
      rw [openAfter_opening _ _ hkind] at h
      simp only [scan, step, parensAfter, hkind]
      exact ih hcontent h parens
    | closeBrace =>
      cases depth with
      | zero => simp [openAfter, hkind] at h
      | succ depth =>
        rw [openAfter_closing _ _ hkind (by decide)] at h
        simp only [scan, step, parensAfter, hkind, if_neg hne]
        exact ih hcontent h parens
    | terminator =>
      rw [openAfter_of_terminator hkind (by decide) (by decide)] at h
      simp only [scan, step, endsAt, parensAfter, hkind, decide_eq_false hne, Bool.false_and]
      exact ih hcontent h parens
    | _ =>
      rw [openAfter_other _ _ (by simp [hkind]) (by simp [hkind])] at h
      simp only [scan, step, parensAfter, hkind]
      exact ih hcontent h _

theorem skipStatement_block {opening closing : Token} {content : List Token}
    (hopening : opening.kind = .openBrace) (hclosing : closing.kind = .closeBrace)
    (hend : ∀ token ∈ content, token.kind ≠ .endOfInput)
    (hbalanced : Balanced .openBrace .closeBrace content) (braces parens : Nat) (rest : List Token) :
    skipStatement braces parens (opening :: (content ++ closing :: rest)) =
      skipStatement braces (parensAfter parens content) rest := by
  rw [skipStatement_openBrace _ _ _ hopening,
    skipStatement_append (scan_of_openAfter hend hbalanced braces parens closing),
    skipStatement_closeBrace _ _ _ hclosing]

end step

/-- A terminator that ends the statement if `lower` parentheses are counted at the front of the
tokens and not if `higher` are, and behind which there is something to skip. -/
def Divides (braces lower higher : Nat) (tokens : List Token) : Prop :=
  ∃ before stop next after parens, tokens = before ++ stop :: next :: after ∧
    stop.kind = .terminator ∧ (stop.isLineBreak && startsStatement (next :: after)) = false ∧
    next.kind ≠ .endOfInput ∧ scan stop braces lower before = some (0, 0) ∧
    scan stop braces higher before = some (0, parens + 1)

section counts

variable {braces lower higher : Nat} {token : Token} {rest : List Token}

theorem step_of_terminator (h : token.kind = .terminator) (braces parens : Nat)
    (rest : List Token) :
    step braces parens token rest =
      if braces = 0 ∧ (parens = 0 ∨ (token.isLineBreak && startsStatement rest) = true) then none
      else some (braces, parens) := by
  simp only [step, h, endsAt, Bool.and_eq_true, Bool.or_eq_true, decide_eq_true_eq]

theorem step_cases (hle : lower ≤ higher) (braces : Nat) (token : Token) (rest : List Token) :
    (∃ braces' lower' higher', lower' ≤ higher' ∧
        step braces lower token rest = some (braces', lower') ∧
        step braces higher token rest = some (braces', higher')) ∨
      (step braces lower token rest = none ∧ step braces higher token rest = none) ∨
      (token.kind = .terminator ∧ (token.isLineBreak && startsStatement rest) = false ∧
        braces = 0 ∧ lower = 0 ∧ 0 < higher) := by
  cases hkind : token.kind with
  | endOfInput =>
    right; left
    simp only [step, hkind, and_self]
  | openBrace =>
    left
    exact ⟨braces + 1, lower, higher, hle, by rw [step, hkind], by rw [step, hkind]⟩
  | closeBrace =>
    by_cases hbraces : braces = 0
    · right; left
      simp only [step, hkind, if_pos hbraces, and_self]
    · left
      refine ⟨braces - 1, lower, higher, hle, ?_, ?_⟩ <;> simp only [step, hkind, if_neg hbraces]
  | openParen =>
    left
    exact ⟨braces, lower + 1, higher + 1, by omega, by rw [step, hkind], by rw [step, hkind]⟩
  | closeParen =>
    left
    exact ⟨braces, lower - 1, higher - 1, by omega, by rw [step, hkind], by rw [step, hkind]⟩
  | terminator =>
    rw [step_of_terminator hkind, step_of_terminator hkind]
    cases hword : token.isLineBreak && startsStatement rest with
    | true =>
      by_cases hbraces : braces = 0
      · right; left
        simp [hbraces]
      · left
        exact ⟨braces, lower, higher, hle, by simp [hbraces], by simp [hbraces]⟩
    | false =>
      by_cases hopen : braces = 0 ∧ lower = 0
      · obtain ⟨rfl, rfl⟩ := hopen
        rcases Nat.eq_zero_or_pos higher with rfl | hhigher
        · right; left
          simp
        · right; right
          exact ⟨rfl, rfl, rfl, rfl, hhigher⟩
      · have hopen' : ¬ (braces = 0 ∧ higher = 0) := by omega
        left
        exact ⟨braces, lower, higher, hle, by simpa using hopen, by simpa using hopen'⟩
  | _ =>
    left
    exact ⟨braces, lower, higher, hle, by rw [step, hkind], by rw [step, hkind]⟩

theorem divides_cons_iff {braces' lower' higher' : Nat}
    (hlower : step braces lower token rest = some (braces', lower'))
    (hhigher : step braces higher token rest = some (braces', higher')) :
    Divides braces lower higher (token :: rest) ↔ Divides braces' lower' higher' rest := by
  constructor
  · rintro ⟨before, stop, next, after, parens, heq, hstop, hword, hnext, hscan, hscan'⟩
    cases before with
    | nil =>
      obtain ⟨rfl, rfl⟩ := List.cons.inj heq
      obtain ⟨rfl, rfl⟩ := Prod.mk.inj (Option.some.inj hscan)
      rw [step_of_terminator hstop] at hlower
      simp at hlower
    | cons first before =>
      rw [List.cons_append] at heq
      obtain ⟨rfl, rfl⟩ := List.cons.inj heq
      rw [step_append] at hlower hhigher
      rw [scan, hlower] at hscan
      rw [scan, hhigher] at hscan'
      exact ⟨before, stop, next, after, parens, rfl, hstop, hword, hnext, hscan, hscan'⟩
  · rintro ⟨before, stop, next, after, parens, rfl, hstop, hword, hnext, hscan, hscan'⟩
    rw [step_append] at hlower hhigher
    refine ⟨token :: before, stop, next, after, parens, rfl, hstop, hword, hnext, ?_, ?_⟩
    · rw [scan, hlower]
      exact hscan
    · rw [scan, hhigher]
      exact hscan'

theorem not_divides_cons (hlower : step braces lower token rest = none)
    (hhigher : step braces higher token rest = none) :
    ¬ Divides braces lower higher (token :: rest) := by
  rintro ⟨before, stop, next, after, parens, heq, hstop, hword, hnext, hscan, hscan'⟩
  cases before with
  | nil =>
    obtain ⟨rfl, rfl⟩ := List.cons.inj heq
    obtain ⟨rfl, rfl⟩ := Prod.mk.inj (Option.some.inj hscan')
    rw [step_of_terminator hstop, hword] at hhigher
    simp at hhigher
  | cons first before =>
    rw [List.cons_append] at heq
    obtain ⟨rfl, rfl⟩ := List.cons.inj heq
    rw [step_append] at hlower
    rw [scan, hlower] at hscan
    cases hscan

theorem divides_terminator_iff {parens : Nat} (hkind : token.kind = .terminator)
    (hword : (token.isLineBreak && startsStatement rest) = false) :
    Divides 0 0 (parens + 1) (token :: rest) ↔ ∃ next ∈ rest.head?, next.kind ≠ .endOfInput := by
  constructor
  · rintro ⟨before, stop, next, after, count, heq, hstop, -, hnext, hscan, -⟩
    cases before with
    | nil =>
      obtain ⟨rfl, rfl⟩ := List.cons.inj heq
      exact ⟨next, rfl, hnext⟩
    | cons first before =>
      rw [List.cons_append] at heq
      obtain ⟨rfl, rfl⟩ := List.cons.inj heq
      have hends : step 0 0 token (before ++ [stop]) = none := by
        rw [step_of_terminator hkind]
        exact if_pos ⟨rfl, .inl rfl⟩
      rw [scan, hends] at hscan
      cases hscan
  · rintro ⟨next, hmem, hnext⟩
    obtain ⟨after, rfl⟩ := List.head?_eq_some_iff.1 hmem
    exact ⟨[], token, next, after, parens, rfl, hkind, hword, hnext, rfl, rfl⟩

theorem skipStatement_eq_self_iff (braces parens : Nat) (tokens : List Token) :
    skipStatement braces parens tokens = tokens ↔
      ¬ ∃ next ∈ tokens.head?, next.kind ≠ .endOfInput := by
  cases tokens with
  | nil =>
    apply iff_of_true rfl
    rintro ⟨next, hmem, -⟩
    cases hmem
  | cons token rest =>
    simp only [List.head?_cons, Option.mem_some_iff, exists_eq_left']
    constructor
    · intro heq hne
      have hle : (skipStatement braces parens (token :: rest)).length ≤ rest.length :=
        (skipStatement_cons_suffix braces parens hne).length_le
      rw [heq, List.length_cons] at hle
      omega
    · intro hend
      rw [skipStatement, Classical.not_not.1 hend]

private theorem skipStatement_eq_iff_of_le (hle : lower ≤ higher) (braces : Nat)
    (tokens : List Token) :
    skipStatement braces lower tokens = skipStatement braces higher tokens ↔
      ¬ Divides braces lower higher tokens := by
  induction tokens generalizing braces lower higher with
  | nil =>
    have hnone : ¬ Divides braces lower higher [] := by
      rintro ⟨before, stop, next, after, parens, heq, -⟩
      exact absurd heq.symm (by simp)
    exact iff_of_true rfl hnone
  | cons token rest ih =>
    rcases step_cases hle braces token rest with
      ⟨braces', lower', higher', hle', hlower, hhigher⟩ | ⟨hlower, hhigher⟩ |
        ⟨hkind, hword, rfl, rfl, hpos⟩
    · rw [skipStatement_cons, skipStatement_cons, hlower, hhigher, divides_cons_iff hlower hhigher]
      exact ih hle' braces'
    · rw [skipStatement_cons, skipStatement_cons, hlower, hhigher]
      exact iff_of_true rfl (not_divides_cons hlower hhigher)
    · -- The lower count ends here, and the higher one goes on to the tokens behind.
      obtain ⟨parens, rfl⟩ := Nat.exists_eq_succ_of_ne_zero (Nat.ne_of_gt hpos)
      have hlower : skipStatement 0 0 (token :: rest) = rest := by
        rw [skipStatement_terminator _ _ _ hkind]
        rfl
      have hhigher : skipStatement 0 (parens + 1) (token :: rest) =
          skipStatement 0 (parens + 1) rest := by
        rw [skipStatement_terminator _ _ _ hkind]
        simp [endsAt, hword]
      rw [hlower, hhigher, divides_terminator_iff hkind hword, eq_comm]
      exact skipStatement_eq_self_iff 0 (parens + 1) rest

/-- Recovery ends in the same place with two counts of open parentheses unless a terminator
divides them. -/
theorem skipStatement_eq_iff (braces parens parens' : Nat) (tokens : List Token) :
    skipStatement braces parens tokens = skipStatement braces parens' tokens ↔
      ¬ Divides braces (min parens parens') (max parens parens') tokens := by
  rcases Nat.le_total parens parens' with hle | hle
  · rw [Nat.min_eq_left hle, Nat.max_eq_right hle]
    exact skipStatement_eq_iff_of_le hle braces tokens
  · rw [Nat.min_eq_right hle, Nat.max_eq_left hle, eq_comm]
    exact skipStatement_eq_iff_of_le hle braces tokens

end counts

end Recovery

namespace Session

open Recovery (scan parensAfter Divides)

variable {session : Session} {outer tokens : List Token} {start braces parens : Nat}

theorem cursor_skipStatementAt {next : Token} (htokens : session.tokens = outer ++ next :: tokens)
    (hstart : start ≤ outer.length)
    (hreach : scan next 0 0 (outer.drop start) = some (braces, parens)) :
    (session.skipStatementAt start).cursor + (skipStatement braces parens (next :: tokens)).length =
      session.tokens.length := by
  have hdrop : session.tokens.drop start = outer.drop start ++ next :: tokens := by
    rw [htokens, List.drop_append_of_le_length hstart]
  have hskip := Recovery.skipStatement_append hreach tokens
  have hle := (skipStatement_suffix braces parens (next :: tokens)).length_le
  have hlength := congrArg List.length htokens
  simp only [skipStatementAt, hdrop, hskip]
  simp only [List.length_append, List.length_drop] at hlength ⊢
  omega

section block

variable {bare : Session} {content rest : List Token} {opening closing : Token}
  (htokens : session.tokens = outer ++ opening :: (content ++ closing :: rest))
  (hbare : bare.tokens = outer ++ opening :: closing :: rest)
  (hopening : opening.kind = .openBrace) (hclosing : closing.kind = .closeBrace)
  (hend : ∀ token ∈ content, token.kind ≠ .endOfInput)
  (hbalanced : Balanced .openBrace .closeBrace content) (hstart : start ≤ outer.length)
  (hreach : scan opening 0 0 (outer.drop start) = some (braces, parens))

include htokens hbare hopening hclosing hend hbalanced hstart hreach

private theorem cursor_eq_iff :
    (session.skipStatementAt start).cursor =
        (bare.skipStatementAt start).cursor + content.length ↔
      skipStatement braces parens rest = skipStatement braces (parensAfter parens content) rest := by
  have hempty : skipStatement braces parens (opening :: closing :: rest) =
      skipStatement braces parens rest :=
    Recovery.skipStatement_block hopening hclosing (List.forall_mem_nil _) rfl _ _ _
  have hcursor := cursor_skipStatementAt htokens hstart hreach
  have hcursor' := cursor_skipStatementAt hbare hstart hreach
  rw [Recovery.skipStatement_block hopening hclosing hend hbalanced] at hcursor
  rw [hempty] at hcursor'
  have hlength := congrArg List.length htokens
  have hlength' := congrArg List.length hbare
  simp only [List.length_append, List.length_cons] at hlength hlength'
  constructor
  · intro h
    have hsame : (skipStatement braces parens rest).length =
        (skipStatement braces (parensAfter parens content) rest).length := by omega
    have hsuffix := List.suffix_of_suffix_length_le (skipStatement_suffix braces parens rest)
      (skipStatement_suffix braces (parensAfter parens content) rest) (Nat.le_of_eq hsame)
    exact hsuffix.eq_of_length hsame
  · intro h
    rw [h] at hcursor'
    omega

end block

/-- Recovery that comes to a closed block stops behind it where it would stop behind an empty one,
if the block leaves as many parentheses open as it found, and otherwise unless a terminator behind
the block divides the two counts. -/
theorem skipStatementAt_block_iff {session bare : Session} {outer content rest : List Token}
    {opening closing : Token} {start braces parens : Nat}
    (htokens : session.tokens = outer ++ opening :: (content ++ closing :: rest))
    (hbare : bare.tokens = outer ++ opening :: closing :: rest)
    (hopening : opening.kind = .openBrace) (hclosing : closing.kind = .closeBrace)
    (hend : ∀ token ∈ content, token.kind ≠ .endOfInput)
    (hbalanced : Balanced .openBrace .closeBrace content) (hstart : start ≤ outer.length)
    (hreach : scan opening 0 0 (outer.drop start) = some (braces, parens)) :
    let inner := parensAfter parens content
    let corresponds := (session.skipStatementAt start).cursor =
      (bare.skipStatementAt start).cursor + content.length
    (inner = parens → corresponds) ∧
      (corresponds ↔ ¬ Divides braces (min parens inner) (max parens inner) rest) := by
  intro inner corresponds
  have hiff := cursor_eq_iff htokens hbare hopening hclosing hend hbalanced hstart hreach
  constructor
  · intro hinner
    apply hiff.2
    rw [show parensAfter parens content = parens from hinner]
  · exact hiff.trans (Recovery.skipStatement_eq_iff braces parens inner rest)

/-- The call that is left open in the block makes recovery skip the name behind it. -/
theorem skipStatementAt_block_of_open_call :
    let session := Session.start (tokenize "\x7b f( \x7d\nx" "shell") "shell"
    let bare := Session.start (session.tokens.take 1 ++ session.tokens.drop 3) "shell"
    (session.skipStatementAt 0).cursor = 6 ∧ (bare.skipStatementAt 0).cursor = 3 ∧
      Divides 0 0 1 (session.tokens.drop 4) := by
  intro session bare
  have hsession : (session.skipStatementAt 0).cursor = 6 := by decide +kernel
  have hbare : (bare.skipStatementAt 0).cursor = 3 := by decide +kernel
  let content : List Token :=
    [⟨.identifier, "f", .between "shell" 2 3⟩, ⟨.openParen, "(", .between "shell" 3 4⟩]
  have htokens : session.tokens =
      [] ++ ⟨.openBrace, "\x7b", .between "shell" 0 1⟩ ::
        (content ++ ⟨.closeBrace, "\x7d", .between "shell" 5 6⟩ :: session.tokens.drop 4) := by
    decide +kernel
  have hbare' : bare.tokens =
      [] ++ ⟨.openBrace, "\x7b", .between "shell" 0 1⟩ ::
        ⟨.closeBrace, "\x7d", .between "shell" 5 6⟩ :: session.tokens.drop 4 := by
    decide +kernel
  have hiff := skipStatementAt_block_iff htokens hbare' rfl rfl (by decide) (by decide)
    (Nat.le_refl 0) rfl
  have hinner : Recovery.parensAfter 0 content = 1 := rfl
  rw [hinner] at hiff
  have hapart : ¬ (session.skipStatementAt 0).cursor =
      (bare.skipStatementAt 0).cursor + content.length := by
    rw [hsession, hbare]
    decide
  exact ⟨hsession, hbare, Classical.not_not.1 (mt hiff.2.2 hapart)⟩

end Session

end ShellFrontend
