import Mathlib.Algebra.Group.Nat.Even
import Mathlib.Data.List.DropRight
import ShellFrontend.Proofs.Scanning

/-! # Where a literal ends

The closing delimiter of a literal is the first one with an even number of backslashes directly
before it. What stands in front of it is decoded from left to right.
-/

set_option autoImplicit false

namespace ShellFrontend.Text

/-- How many backslashes a text ends with. -/
def backslashesAtEnd (text : List Char) : Nat :=
  (text.rtakeWhile (· = '\\')).length

theorem backslashesAtEnd_le (text : List Char) : backslashesAtEnd text ≤ text.length := by
  rw [backslashesAtEnd, List.rtakeWhile, List.length_reverse]
  exact (List.takeWhile_prefix _).length_le.trans (Nat.le_of_eq List.length_reverse)

theorem backslashesAtEnd_cons (c : Char) (text : List Char) :
    backslashesAtEnd (c :: text) =
      if backslashesAtEnd text = text.length ∧ c = '\\' then text.length + 1
      else backslashesAtEnd text := by
  simp only [backslashesAtEnd, List.rtakeWhile, List.length_reverse, List.reverse_cons,
    List.takeWhile_append]
  by_cases hc : c = '\\'
  · split <;> simp_all
  · split <;> simp_all

theorem backslashesAtEnd_cons_of_ne {c : Char} (h : c ≠ '\\') (text : List Char) :
    backslashesAtEnd (c :: text) = backslashesAtEnd text := by
  rw [backslashesAtEnd_cons, if_neg fun hboth => h hboth.2]

/-- A backslash and the character that it protects do not change the parity. -/
theorem even_backslashesAtEnd_pair (c : Char) (text : List Char) :
    Even (backslashesAtEnd ('\\' :: c :: text)) ↔ Even (backslashesAtEnd text) := by
  have hle := backslashesAtEnd_le text
  by_cases hall : backslashesAtEnd text = text.length ∧ c = '\\'
  · have hcons : backslashesAtEnd (c :: text) = text.length + 1 := by
      rw [backslashesAtEnd_cons, if_pos hall]
    rw [backslashesAtEnd_cons, hcons, if_pos ⟨rfl, rfl⟩, hall.1, List.length_cons,
      Nat.even_add_one, Nat.even_add_one, not_not]
  · have hcons : backslashesAtEnd (c :: text) = backslashesAtEnd text := by
      rw [backslashesAtEnd_cons, if_neg hall]
    have hlt : ¬ (backslashesAtEnd text = (c :: text).length ∧ '\\' = '\\') := by
      rw [List.length_cons]
      omega
    rw [backslashesAtEnd_cons, hcons, if_neg hlt]

/-- A body ends in front of the first delimiter with an even number of backslashes before it. -/
structure EndsBody (delimiter : Char) (body : List Char) : Prop where
  even : Even (backslashesAtEnd body)
  first : ∀ before after, body = before ++ delimiter :: after → ¬ Even (backslashesAtEnd before)

/-- No delimiter in a text has an even number of backslashes before it. -/
def Unclosed (delimiter : Char) (text : List Char) : Prop :=
  ∀ before after, text = before ++ delimiter :: after → ¬ Even (backslashesAtEnd before)

section parity

variable {delimiter c : Char} {text : List Char}

theorem unclosed_nil : Unclosed delimiter [] := by
  intro before after h
  simp at h

theorem Unclosed.cons (h : Unclosed delimiter text) (hc : c ≠ '\\') (hne : c ≠ delimiter) :
    Unclosed delimiter (c :: text) := by
  intro before after heq
  cases before with
  | nil => exact absurd (List.cons.inj heq).1 hne
  | cons first before =>
    obtain ⟨rfl, htext⟩ := List.cons.inj heq
    rw [backslashesAtEnd_cons_of_ne hc]
    exact h _ _ htext

theorem Unclosed.pair (h : Unclosed delimiter text) (hdelimiter : delimiter ≠ '\\') :
    Unclosed delimiter ('\\' :: c :: text) := by
  intro before after heq
  rcases before with - | ⟨first, - | ⟨second, before⟩⟩
  · exact absurd (List.cons.inj heq).1.symm hdelimiter
  · obtain ⟨rfl, -⟩ := List.cons.inj heq
    decide
  · obtain ⟨rfl, htail⟩ := List.cons.inj heq
    obtain ⟨rfl, htext⟩ := List.cons.inj htail
    rw [even_backslashesAtEnd_pair]
    exact h _ _ htext

end parity

namespace Quoting

variable {q : Quoting} {source body : List Char}

theorem unclosed_of_body? (hdelimiter : q.delimiter ≠ '\\') (h : q.body? source = none) :
    Unclosed q.delimiter source := by
  fun_induction body? q source with
  | case1 c rest ih =>
    have hrest : Unclosed q.delimiter rest := ih (Option.map_eq_none_iff.1 h)
    exact hrest.pair hdelimiter
  | case2 => cases h
  | case3 c rest hpair hne ih =>
    have hrest : Unclosed q.delimiter rest := ih (Option.map_eq_none_iff.1 h)
    by_cases hc : c = '\\'
    · -- A backslash that protects nothing is the last character.
      cases rest with
      | nil =>
        intro before after heq
        rcases before with - | ⟨first, before⟩
        · exact absurd (List.cons.inj heq).1 hne
        · simp at heq
      | cons d rest => exact absurd rfl (hpair d rest hc)
    · exact hrest.cons hc hne
  | case4 => exact unclosed_nil

theorem endsBody_of_body? (hdelimiter : q.delimiter ≠ '\\') (h : q.body? source = some body) :
    EndsBody q.delimiter body := by
  fun_induction body? q source generalizing body with
  | case1 c rest ih =>
    obtain ⟨tail, htail, rfl⟩ := Option.map_eq_some_iff.1 h
    obtain ⟨heven, hfirst⟩ := ih htail
    exact ⟨(even_backslashesAtEnd_pair c tail).2 heven, Unclosed.pair hfirst hdelimiter⟩
  | case2 =>
    obtain rfl := Option.some.inj h
    exact ⟨by decide, unclosed_nil⟩
  | case3 c rest hpair hne ih =>
    obtain ⟨tail, htail, rfl⟩ := Option.map_eq_some_iff.1 h
    obtain ⟨heven, hfirst⟩ := ih htail
    by_cases hc : c = '\\'
    · cases rest with
      | nil => cases htail
      | cons d rest => exact absurd rfl (hpair d rest hc)
    · exact ⟨by rwa [backslashesAtEnd_cons_of_ne hc], Unclosed.cons hfirst hc hne⟩
  | case4 => cases h

end Quoting

/-- Decoding from left to right: behind a backslash stands a letter that means a character, or
else both stay as written. -/
inductive Decodes (meaning : Char → Option Char) : List Char → List Char → Prop
  | nil : Decodes meaning [] []
  | plain {c : Char} {body text : List Char} (h : c ≠ '\\') (tail : Decodes meaning body text) :
      Decodes meaning (c :: body) (c :: text)
  | escape {letter c : Char} {body text : List Char} (h : meaning letter = some c)
      (tail : Decodes meaning body text) : Decodes meaning ('\\' :: letter :: body) (c :: text)
  | kept {letter : Char} {body text : List Char} (h : meaning letter = none)
      (tail : Decodes meaning body text) :
      Decodes meaning ('\\' :: letter :: body) ('\\' :: letter :: text)

/-- The escapes of a string. -/
def stringMeaning : Char → Option Char
  | 'n' => some '\n'
  | 't' => some '\t'
  | 'r' => some '\r'
  | '0' => some '\x00'
  | '\\' => some '\\'
  | '"' => some '"'
  | _ => none

/-- The escapes of a command. -/
def commandMeaning : Char → Option Char
  | '\x60' => some '\x60'
  | '\\' => some '\\'
  | _ => none

namespace Quoting

theorem meaning?_string : string.meaning? = stringMeaning := by
  funext letter
  unfold stringMeaning
  split <;> first | rfl | skip
  simp_all [meaning?, string, eq_comm]

theorem meaning?_command : command.meaning? = commandMeaning := by
  funext letter
  unfold commandMeaning
  split <;> first | rfl | skip
  simp_all [meaning?, command, eq_comm]

theorem decodes_of_body? {q : Quoting} {source body : List Char} (h : q.body? source = some body) :
    Decodes q.meaning? body (q.unescape body) := by
  fun_induction body? q source generalizing body with
  | case1 c rest ih =>
    obtain ⟨tail, htail, rfl⟩ := Option.map_eq_some_iff.1 h
    rw [unescape]
    cases hmeaning : q.meaning? c with
    | some d => exact .escape hmeaning (ih htail)
    | none => exact .kept hmeaning (ih htail)
  | case2 =>
    obtain rfl := Option.some.inj h
    exact .nil
  | case3 c rest hpair hne ih =>
    obtain ⟨tail, htail, rfl⟩ := Option.map_eq_some_iff.1 h
    by_cases hc : c = '\\'
    · cases rest with
      | nil => cases htail
      | cons d rest => exact absurd rfl (hpair d rest hc)
    · rw [unescape_cons hc]
      exact .plain hc (ih htail)
  | case4 => cases h

end Quoting

end ShellFrontend.Text
