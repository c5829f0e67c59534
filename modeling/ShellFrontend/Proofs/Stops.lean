import ShellFrontend.Proofs.Yields

/-! # What a failing parser has read

A property of all that a parser may have read when it fails for another reason than that no level
is left: the kind of the token at which it fails and the tokens in front of that. It is established
combinator by combinator, beside what the parser yields.
-/

set_option autoImplicit false

namespace ShellFrontend.Parser

variable {α β : Type}

def Stops (parser : Parser α) (within : Kind → List Token → Prop) : Prop :=
  ∀ ⦃final tokens error rest started⦄, parser.run final tokens = .fail error rest started →
    (∀ limit, error.cause ≠ .tooDeep limit) →
    ∃ read, tokens = read ++ rest ∧ within (frontToken final rest).kind read

namespace Stops

variable {parser : Parser α} {next : α → Parser β} {within : Kind → List Token → Prop}

theorem mono {weaker : Kind → List Token → Prop} (h : parser.Stops within)
    (hweaker : ∀ {kind read}, within kind read → weaker kind read) : parser.Stops weaker := by
  intro final tokens error rest started hrun hcause
  obtain ⟨read, hread, hwithin⟩ := h hrun hcause
  exact ⟨read, hread, hweaker hwithin⟩

theorem pure (value : α) : (pure value : Parser α).Stops within := by
  intro final tokens error rest started hrun
  cases hrun

theorem failing (cause : Token → Cause) (h : ∀ kind, within kind []) :
    (Parser.fail cause : Parser α).Stops within := by
  intro final tokens error rest started hrun _
  cases hrun
  exact ⟨[], rfl, h _⟩

theorem of_tooDeep (limit : Nat) :
    (Parser.fail fun _ => .tooDeep limit : Parser α).Stops within := by
  intro final tokens error rest started hrun hcause
  cases hrun
  exact absurd rfl (hcause limit)

theorem bind {found : Kind → List Token → α → Prop} (h : parser.Stops within)
    (hyields : parser.Yields found)
    (hnext : ∀ {kind first value}, found kind first value → (next value).Stops
      fun kind' second => headKind kind' second = kind → within kind' (first ++ second)) :
    (parser >>= next).Stops within := by
  intro final tokens error rest started hrun hcause
  cases hfirst : parser.run final tokens with
  | fail error' rest' started' =>
    rw [run_bind_of_fail hfirst] at hrun
    cases hrun
    exact h hfirst hcause
  | ok value middle earlier =>
    rw [run_bind_of_ok hfirst] at hrun
    obtain ⟨first, rfl, hfound⟩ := hyields hfirst
    cases hsecond : (next value).run final middle with
    | ok value' rest' later =>
      rw [hsecond] at hrun
      cases hrun
    | fail error' rest' later =>
      rw [hsecond] at hrun
      cases hrun
      obtain ⟨second, rfl, hwithin⟩ := hnext hfound hsecond hcause
      exact ⟨first ++ second, (List.append_assoc ..).symm, hwithin (headKind_frontToken ..).symm⟩

theorem returning {f : α → β} (h : parser.Stops within) :
    (parser >>= fun value => Pure.pure (f value)).Stops within := by
  intro final tokens error rest started hrun hcause
  cases hfirst : parser.run final tokens with
  | fail error' rest' started' =>
    rw [run_bind_of_fail hfirst] at hrun
    cases hrun
    exact h hfirst hcause
  | ok value middle earlier =>
    rw [run_bind_of_ok hfirst] at hrun
    cases hrun

theorem accept {meaning : Token → Option α} {cause : Token → Cause}
    (hnil : ∀ kind, within kind []) : (Advancing.accept meaning cause).Stops within := by
  intro final tokens error rest started hrun _
  cases tokens with
  | nil =>
    cases hrun
    exact ⟨[], rfl, hnil _⟩
  | cons token tail =>
    cases hmeaning : meaning token with
    | none =>
      rw [Advancing.run_accept_of_none hmeaning] at hrun
      cases hrun
      exact ⟨[], rfl, hnil _⟩
    | some value =>
      rw [Advancing.run_accept_of_some hmeaning] at hrun
      cases hrun

theorem accept_bind {meaning : Token → Option α} {cause : Token → Cause}
    (hnil : ∀ kind, within kind [])
    (hnext : ∀ {token value}, meaning token = some value →
      (next value).Stops fun kind read => within kind (token :: read)) :
    ((Advancing.accept meaning cause).toParser >>= next).Stops within := by
  have hyields : (Advancing.accept meaning cause).Yields fun _ phrase value =>
      ∃ token, phrase = [token] ∧ meaning token = some value :=
    Yields.accept fun hmeaning => ⟨_, rfl, hmeaning⟩
  refine bind (accept hnil) hyields ?_
  rintro kind _ value ⟨token, rfl, hmeaning⟩
  exact (hnext hmeaning).mono fun hwithin _ => hwithin

theorem token_bind {kind : Kind} {next : Token → Parser β} (hnil : ∀ kind, within kind [])
    (hnext : ∀ {token}, token.kind = kind →
      (next token).Stops fun kind read => within kind (token :: read)) :
    ((Advancing.token kind).toParser >>= next).Stops within := by
  refine accept_bind hnil fun {token value} hmeaning => ?_
  split at hmeaning
  · cases hmeaning
    exact hnext ‹_›
  · cases hmeaning

theorem skip {kind : Kind} (hnil : ∀ kind, within kind []) : (Advancing.skip kind).Stops within :=
  token_bind hnil fun _ => pure ()

theorem skip_bind {kind : Kind} {next : Parser β} (hnil : ∀ kind, within kind [])
    (hnext : ∀ {token : Token}, token.kind = kind →
      next.Stops fun kind read => within kind (token :: read)) :
    (Advancing.skip kind >>= fun _ => next).Stops within := by
  rw [Advancing.skip, bind_assoc]
  simp only [pure_bind]
  exact token_bind hnil hnext

theorem select {choice : Kind → Parser α}
    (h : ∀ kind, (choice kind).Stops fun next read =>
      headKind next read = kind → within next read) : (Parser.select choice).Stops within := by
  intro final tokens error rest started hrun hcause
  rw [run_select] at hrun
  obtain ⟨read, rfl, hwithin⟩ := h _ hrun hcause
  exact ⟨read, rfl, hwithin (headKind_frontToken ..).symm⟩

theorem selecting {choice : Kind → Advancing α}
    (h : ∀ kind, (choice kind).toParser.Stops fun next read =>
      headKind next read = kind → within next read) : (Advancing.select choice).Stops within :=
  select h

theorem starting {parser : Advancing α} (kind : Kind) (h : parser.Stops within) :
    (Advancing.starting kind parser).Stops within := by
  intro final tokens error rest started hrun hcause
  obtain ⟨later, hparser, -⟩ := Advancing.run_starting_eq_fail_iff.1 hrun
  exact h hparser hcause

/-- A repetition fails in its last parser or in an item; each item in front of a stretch that may
have been read gives one that may have been read. -/
theorem many {turn : Kind → Turn α}
    (hstop : ∀ {kind last}, turn kind = .stop last →
      last.Stops fun next read => headKind next read = kind → within next read)
    (hitem : ∀ {kind} {item : Advancing α}, turn kind = .more item →
      item.Stops fun next read => headKind next read = kind → within next read)
    (hmore : ∀ {kind} {item : Advancing α}, turn kind = .more item →
      item.Yields fun next phrase _ => headKind next phrase = kind →
        ∀ {next' second}, headKind next' second = next → within next' second →
          within next' (phrase ++ second)) : (Parser.many turn).Stops within := by
  intro final tokens error rest started hrun hcause
  change runMany turn final tokens = _ at hrun
  fun_induction runMany turn final tokens generalizing started with
  | case1 tokens last hturn =>
    cases hlast : last.run final tokens with
    | ok value rest' started' =>
      rw [hlast] at hrun
      cases hrun
    | fail error' rest' started' =>
      rw [hlast] at hrun
      cases hrun
      obtain ⟨read, rfl, hwithin⟩ := hstop hturn hlast hcause
      exact ⟨read, rfl, hwithin (headKind_frontToken ..).symm⟩
  | case2 tokens item hturn value rest₁ started₁ hok ih =>
    cases hmany : runMany turn final rest₁ with
    | ok values rest' started' =>
      rw [hmany] at hrun
      cases hrun
    | fail error' rest' started' =>
      rw [hmany] at hrun
      cases hrun
      obtain ⟨phrase, rfl, hphrase⟩ := hmore hturn hok
      obtain ⟨second, rfl, hsecond⟩ := ih hmany
      exact ⟨phrase ++ second, (List.append_assoc ..).symm,
        hphrase (headKind_frontToken ..).symm (headKind_frontToken ..).symm hsecond⟩
  | case3 tokens item hturn error' rest₁ started₁ hfail =>
    cases hrun
    obtain ⟨read, rfl, hwithin⟩ := hitem hturn hfail hcause
    exact ⟨read, rfl, hwithin (headKind_frontToken ..).symm⟩

end Stops

end ShellFrontend.Parser
