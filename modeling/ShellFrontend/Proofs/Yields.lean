import ShellFrontend.Proofs.Phrases

/-! # What a reading parser has found

A property of all that a parser may read: the kind of the token at which it stops, the phrase
in front of that and the value. It is established combinator by combinator.
-/

set_option autoImplicit false

namespace ShellFrontend.Parser

variable {α β : Type}

def Yields (parser : Parser α) (found : Kind → List Token → α → Prop) : Prop :=
  ∀ ⦃final tokens value rest started⦄, parser.run final tokens = .ok value rest started →
    ∃ phrase, tokens = phrase ++ rest ∧ found (frontToken final rest).kind phrase value

namespace Yields

variable {parser : Parser α} {next : α → Parser β} {found : Kind → List Token → α → Prop}
  {found' : Kind → List Token → β → Prop}

theorem mono {weaker : Kind → List Token → α → Prop} (h : parser.Yields found)
    (hweaker : ∀ {kind phrase value}, found kind phrase value → weaker kind phrase value) :
    parser.Yields weaker := by
  intro final tokens value rest started hrun
  obtain ⟨phrase, hphrase, hfound⟩ := h hrun
  exact ⟨phrase, hphrase, hweaker hfound⟩

theorem pure {value : α} (h : ∀ kind, found kind [] value) :
    (pure value : Parser α).Yields found := by
  intro final tokens result rest started hrun
  cases hrun
  exact ⟨[], rfl, h _⟩

theorem failing (cause : Token → Cause) : (Parser.fail cause).Yields found := by
  intro final tokens value rest started hrun
  cases hrun

theorem bind (h : parser.Yields found)
    (hnext : ∀ {kind first value}, found kind first value →
      (next value).Yields fun kind' second result =>
        headKind kind' second = kind → found' kind' (first ++ second) result) :
    (parser >>= next).Yields found' := by
  intro final tokens result rest started hrun
  obtain ⟨value, middle, _, _, hfirst, hsecond, -⟩ := run_bind_eq_ok_iff.1 hrun
  obtain ⟨first, rfl, hfound⟩ := h hfirst
  obtain ⟨second, rfl, hfound'⟩ := hnext hfound hsecond
  exact ⟨first ++ second, (List.append_assoc ..).symm, hfound' (headKind_frontToken ..).symm⟩

theorem returning {f : α → β} (h : parser.Yields fun kind phrase value => found' kind phrase (f value)) :
    (parser >>= fun value => Pure.pure (f value)).Yields found' := by
  refine bind h fun {kind first value} hfound => pure fun kind' hkind => ?_
  obtain rfl : kind' = kind := hkind
  rwa [List.append_nil]

theorem accept_bind {meaning : Token → Option α} {cause : Token → Cause}
    (hnext : ∀ {token value}, meaning token = some value →
      (next value).Yields fun kind phrase result => found' kind (token :: phrase) result) :
    ((Advancing.accept meaning cause).toParser >>= next).Yields found' := by
  intro final tokens result rest started hrun
  obtain ⟨value, middle, _, _, hfirst, hsecond, -⟩ := run_bind_eq_ok_iff.1 hrun
  cases tokens with
  | nil => cases hfirst
  | cons token tail =>
    cases hmeaning : meaning token with
    | none =>
      rw [Advancing.run_accept_of_none hmeaning] at hfirst
      cases hfirst
    | some value' =>
      rw [Advancing.run_accept_of_some hmeaning] at hfirst
      cases hfirst
      obtain ⟨phrase, rfl, hfound⟩ := hnext hmeaning hsecond
      exact ⟨token :: phrase, rfl, hfound⟩

theorem accept {meaning : Token → Option α} {cause : Token → Cause}
    (h : ∀ {token value kind}, meaning token = some value → found kind [token] value) :
    (Advancing.accept meaning cause).Yields found := by
  rw [← bind_pure (Advancing.accept meaning cause).toParser]
  exact accept_bind fun hmeaning => pure fun _ => h hmeaning

theorem token_bind {kind : Kind} {next : Token → Parser β}
    (hnext : ∀ {token}, token.kind = kind →
      (next token).Yields fun kind phrase result => found' kind (token :: phrase) result) :
    ((Advancing.token kind).toParser >>= next).Yields found' := by
  refine accept_bind fun {token value} hmeaning => ?_
  split at hmeaning
  · cases hmeaning
    exact hnext ‹_›
  · cases hmeaning

theorem token {kind : Kind} {found : Kind → List Token → Token → Prop}
    (h : ∀ {token next}, token.kind = kind → found next [token] token) :
    (Advancing.token kind).Yields found := by
  rw [← bind_pure (Advancing.token kind).toParser]
  exact token_bind fun hkind => pure fun _ => h hkind

theorem skip_bind {kind : Kind} {next : Parser β}
    (hnext : ∀ {token : Token}, token.kind = kind →
      next.Yields fun kind phrase result => found' kind (token :: phrase) result) :
    (Advancing.skip kind >>= fun _ => next).Yields found' := by
  rw [Advancing.skip, bind_assoc]
  simp only [pure_bind]
  exact token_bind hnext

theorem skip {kind : Kind} {found : Kind → List Token → Unit → Prop}
    (h : ∀ {token : Token} {next}, token.kind = kind → found next [token] ()) :
    (Advancing.skip kind).Yields found :=
  token_bind fun hkind => pure fun _ => h hkind

theorem select {choice : Kind → Parser α}
    (h : ∀ kind, (choice kind).Yields fun next phrase value =>
      headKind next phrase = kind → found next phrase value) : (Parser.select choice).Yields found := by
  intro final tokens value rest started hrun
  rw [run_select] at hrun
  obtain ⟨phrase, rfl, hfound⟩ := h _ hrun
  exact ⟨phrase, rfl, hfound (headKind_frontToken ..).symm⟩

theorem selecting {choice : Kind → Advancing α}
    (h : ∀ kind, (choice kind).toParser.Yields fun next phrase value =>
      headKind next phrase = kind → found next phrase value) :
    (Advancing.select choice).Yields found :=
  select h

theorem starting {parser : Advancing α} (kind : Kind) (h : parser.Yields found) :
    (Advancing.starting kind parser).Yields found := by
  intro final tokens value rest started hrun
  obtain ⟨later, hparser, -⟩ := Advancing.run_starting_eq_ok_iff.1 hrun
  exact h hparser

/-- A property of what a repetition finds: it holds of what the last parser finds, and each item
in front of a stretch that has it gives one that has it. -/
theorem many {turn : Kind → Turn α} {found : Kind → List Token → List α → Prop}
    (hstop : ∀ {kind last}, turn kind = .stop last →
      last.Yields fun next phrase _ => headKind next phrase = kind → found next phrase [])
    (hmore : ∀ {kind item}, turn kind = .more item →
      item.toParser.Yields fun next first value => headKind next first = kind →
        ∀ {next' second values}, headKind next' second = next → found next' second values →
          found next' (first ++ second) (value :: values)) :
    (Parser.many turn).Yields found := by
  intro final tokens values rest started hrun
  change runMany turn final tokens = _ at hrun
  fun_induction runMany turn final tokens generalizing values started with
  | case1 tokens last hturn =>
    cases hlast : last.run final tokens with
    | fail error rest' started' =>
      rw [hlast] at hrun
      cases hrun
    | ok value rest' started' =>
      rw [hlast] at hrun
      cases hrun
      obtain ⟨phrase, rfl, hfound⟩ := hstop hturn hlast
      exact ⟨phrase, rfl, hfound (headKind_frontToken ..).symm⟩
  | case2 tokens item hturn value rest₁ started₁ hitem ih =>
    cases hmany : runMany turn final rest₁ with
    | fail error rest' started' =>
      rw [hmany] at hrun
      cases hrun
    | ok values' rest' started' =>
      rw [hmany] at hrun
      cases hrun
      obtain ⟨first, rfl, hfirst⟩ := hmore hturn hitem
      obtain ⟨second, rfl, hsecond⟩ := ih hmany
      exact ⟨first ++ second, (List.append_assoc ..).symm,
        hfirst (headKind_frontToken ..).symm (headKind_frontToken ..).symm hsecond⟩
  | case3 tokens item hturn error rest₁ started₁ hitem => cases hrun

end Yields

end ShellFrontend.Parser
