import ShellFrontend.Proofs.Terminators

/-! # Consequences of conditionals

An `else` stands behind the consequence of its conditional, directly or on the next line. In a
derivation there is no other.
-/

set_option autoImplicit false

namespace ShellFrontend

/-- Tokens that end with a conditional up to the brace that closes its consequence. -/
inductive EndsInConsequence : List Token → Prop
  | mk {word opening closing : Token} {levels levels' : Nat} {condition consequence : List Token}
      {next : Kind} {value : Expr} {body : List Stmt} (before : List Token)
      (hword : word.kind = .ifWord) (hopening : opening.kind = .openParen)
      (hcondition : Derives (.tier 0) levels condition .closeParen value)
      (hclosing : closing.kind = .closeParen)
      (hconsequence : Derives .block levels' consequence next body) :
      EndsInConsequence (before ++ (word :: opening :: condition ++ closing :: consequence))

namespace EndsInConsequence

variable {front : List Token} {stop : Token}

theorem exists_closeBrace (h : EndsInConsequence front) :
    ∃ read closing, front = read ++ [closing] ∧ closing.kind = .closeBrace := by
  cases h with
  | @mk word opening closing _ _ condition _ _ _ _ before _ _ _ _ hconsequence =>
    cases hconsequence with
    | @block opening' closing' _ phrase _ _ _ _ hbrace =>
      exact ⟨before ++ (word :: opening :: condition ++ closing :: opening' :: phrase), closing',
        by simp, hbrace⟩

theorem not_of_terminator (hstop : stop.kind = .terminator) :
    ¬ EndsInConsequence (front ++ [stop]) := by
  intro h
  obtain ⟨read, closing, htokens, hclosing⟩ := h.exists_closeBrace
  obtain ⟨-, hlast⟩ := List.append_inj' htokens rfl
  obtain rfl := List.singleton_inj.1 hlast
  rw [hstop] at hclosing
  cases hclosing

end EndsInConsequence

/-- Tokens behind which there may be an `else`. -/
inductive TakesElse : List Token → Prop
  | sameLine {front : List Token} (h : EndsInConsequence front) : TakesElse front
  | nextLine {front : List Token} {lineBreak : Token} (h : EndsInConsequence front)
      (hbreak : lineBreak.isLineBreak) : TakesElse (front ++ [lineBreak])

namespace TakesElse

variable {front : List Token} {stop blank : Token}

theorem endsInConsequence (h : TakesElse (front ++ [stop])) (hstop : stop.kind = .terminator) :
    EndsInConsequence front := by
  generalize htokens : front ++ [stop] = tokens at h
  cases h with
  | sameLine h =>
    rw [← htokens] at h
    exact absurd h (EndsInConsequence.not_of_terminator hstop)
  | nextLine h =>
    obtain ⟨rfl, -⟩ := List.append_inj' htokens rfl
    exact h

theorem not_of_terminators (hstop : stop.kind = .terminator) (hblank : blank.kind = .terminator) :
    ¬ TakesElse (front ++ [stop] ++ [blank]) :=
  fun h => EndsInConsequence.not_of_terminator hstop (h.endsInConsequence hblank)

end TakesElse

/-- Behind the tokens in front, each `else` of the others belongs to a conditional. -/
def ElsesBelong (front tokens : List Token) : Prop :=
  ∀ ⦃before word after⦄, tokens = before ++ word :: after → word.kind = .elseWord →
    TakesElse (front ++ before)

namespace ElsesBelong

variable {front first second tokens : List Token} {token : Token}

theorem nil : ElsesBelong front [] := by
  intro before word after htokens
  cases before <;> cases htokens

theorem append (hfirst : ElsesBelong front first) (hsecond : ElsesBelong (front ++ first) second) :
    ElsesBelong front (first ++ second) := by
  intro before word after htokens hword
  rcases List.append_eq_append_iff.1 htokens with ⟨read, rfl, hrest⟩ | ⟨more, rfl, hrest⟩
  · rw [← List.append_assoc]
    exact hsecond hrest hword
  · cases more with
    | nil =>
      have htakes : TakesElse (front ++ (before ++ []) ++ []) :=
        hsecond hrest.symm hword
      simpa only [List.append_nil] using htakes
    | cons token more =>
      obtain ⟨rfl, -⟩ := List.cons.inj hrest
      exact hfirst rfl hword

theorem cons (htoken : token.kind = .elseWord → TakesElse front)
    (h : ElsesBelong (front ++ [token]) tokens) : ElsesBelong front (token :: tokens) := by
  intro before word after htokens hword
  cases before with
  | nil =>
    obtain ⟨rfl, -⟩ := List.cons.inj htokens
    rw [List.append_nil]
    exact htoken hword
  | cons first before =>
    obtain ⟨rfl, rfl⟩ := List.cons.inj htokens
    rw [List.append_cons]
    exact h rfl hword

theorem cons_kind {kind : Kind} (hkind : token.kind = kind)
    (h : ElsesBelong (front ++ [token]) tokens) (hne : kind ≠ .elseWord := by decide) :
    ElsesBelong front (token :: tokens) :=
  cons (fun hword => absurd (hkind.symm.trans hword) hne) h

theorem of_forall (h : ∀ token ∈ tokens, token.kind ≠ .elseWord) : ElsesBelong front tokens := by
  rintro before word after rfl hword
  exact absurd hword (h word (by simp))

end ElsesBelong

/-- What the tokens in front of a phrase end with. -/
def Symbol.StandsBehind : Symbol → List Token → Prop
  | alternative, front => EndsInConsequence front
  | _, _ => True

theorem Ends.elsesBelong {next : Kind} {front stop : List Token} (h : Ends next stop) :
    ElsesBelong front stop := by
  cases h with
  | terminator h => exact .cons_kind h .nil
  | outside => exact .nil

theorem Derives.elsesBelong {symbol : Symbol} {levels : Nat} {front phrase : List Token}
    {next : Kind} {tree : symbol.Tree} (h : Derives symbol levels phrase next tree)
    (hfront : symbol.StandsBehind front) : ElsesBelong front phrase := by
  induction h generalizing front with
  | tighter _ _ ih => exact ih trivial
  | @binary op _ _ _ _ _ _ _ _ _ hop _ ihleft ihright =>
    exact (ihleft trivial).append (.cons_kind hop.symm (ihright trivial) (by cases op <;> decide))
  | tightest _ ih => exact ih trivial
  | @unary op _ _ _ _ _ hop _ ih =>
    exact .cons_kind hop.symm (ih trivial) (by cases op <;> decide)
  | operand _ ih => exact ih trivial
  | literal h => exact .cons_kind rfl .nil (by cases h <;> simp [*])
  | identifier h => exact .cons_kind h .nil
  | call h hopening hclosing =>
    exact .cons_kind h (.cons_kind hopening (.cons_kind hclosing .nil))
  | callWith h hopening _ hclosing ih =>
    exact .append (.cons_kind h (.cons_kind hopening (ih trivial))) (.cons_kind hclosing .nil)
  | grouping hopening _ hclosing ih =>
    exact .append (.cons_kind hopening (ih trivial)) (.cons_kind hclosing .nil)
  | conditional hword hopening hcondition hclosing hconsequence _ ihcondition ihconsequence
      ihother =>
    have hends := EndsInConsequence.mk front hword hopening hcondition hclosing hconsequence
    refine .append (.append ?_ ?_) (ihother hends)
    · exact .cons_kind hword (.cons_kind hopening (ihcondition trivial))
    · exact .cons_kind hclosing (ihconsequence trivial)
  | function hword hparameters _ ih =>
    refine .append (.cons_kind hword (.of_forall fun token htoken hkind => ?_)) (ih trivial)
    simpa [hkind] using hparameters.kind_of_mem htoken
  | lastArgument _ ih => exact ih trivial
  | argument _ hcomma _ ih ihtail =>
    exact (ih trivial).append (.cons_kind hcomma (ihtail trivial))
  | noAlternative => exact .nil
  | alternative _ _ ih => exact .cons (fun _ => .sameLine hfront) (ih trivial)
  | alternativeOnNextLine hbreak _ _ ih =>
    have hkind := Token.kind_of_isLineBreak hbreak
    exact .cons_kind hkind (.cons (fun _ => .nextLine hfront hbreak) (ih trivial))
  | block hopening _ hclosing ih =>
    exact .append (.cons_kind hopening (ih trivial)) (.cons_kind hclosing .nil)
  | emptyBody => exact .nil
  | emptyStatement hstop _ ih => exact .cons_kind hstop (ih trivial)
  | statements _ _ ih ihtail => exact (ih trivial).append (ihtail trivial)
  | binding hword hname hassign _ hstop ih =>
    exact .append (.cons_kind hword (.cons_kind hname (.cons_kind hassign (ih trivial))))
      hstop.elsesBelong
  | result hword _ hstop ih =>
    exact .append (.cons_kind hword (ih trivial)) hstop.elsesBelong
  | expression _ hstop ih => exact (ih trivial).append hstop.elsesBelong
  | blockStatement _ ih => exact ih trivial

end ShellFrontend
