/-! # UTF-8 sizes

Texts are lists of characters; sources are addressed by bytes. A byte count either
falls between two characters of a text and splits it there, or it does not.
-/

set_option autoImplicit false

namespace ShellFrontend.Text

def byteLength : List Char → Nat
  | [] => 0
  | c :: text => c.utf8Size + byteLength text

@[simp] theorem byteLength_nil : byteLength [] = 0 := rfl

@[simp] theorem byteLength_cons (c : Char) (text : List Char) :
    byteLength (c :: text) = c.utf8Size + byteLength text := rfl

@[simp] theorem byteLength_append (a b : List Char) :
    byteLength (a ++ b) = byteLength a + byteLength b := by
  induction a with
  | nil => simp
  | cons c a ih =>
    rw [List.cons_append, byteLength_cons, byteLength_cons, ih, Nat.add_assoc]

/-- The first `count` bytes of a text and the rest, if both are texts. -/
def splitBytes? : Nat → List Char → Option (List Char × List Char)
  | 0, text => some ([], text)
  | _ + 1, [] => none
  | count + 1, c :: text =>
    if c.utf8Size ≤ count + 1 then
      (splitBytes? (count + 1 - c.utf8Size) text).map fun (before, after) => (c :: before, after)
    else none

theorem splitBytes?_eq_some_iff {count : Nat} {text before after : List Char} :
    splitBytes? count text = some (before, after) ↔
      text = before ++ after ∧ byteLength before = count := by
  induction text generalizing count before after with
  | nil =>
    cases count with
    | zero => cases before <;> cases after <;> simp [splitBytes?]
    | succ n => cases before <;> simp [splitBytes?]
  | cons c text ih =>
    have hc := c.utf8Size_pos
    cases count with
    | zero =>
      cases before with
      | nil => simp [splitBytes?, eq_comm]
      | cons d before =>
        have hd := d.utf8Size_pos
        simp only [splitBytes?, Option.some.injEq, Prod.mk.injEq, List.nil_eq, reduceCtorEq,
          false_and, byteLength_cons, false_iff]
        omega
    | succ n =>
      cases before with
      | nil => simp [splitBytes?]
      | cons d before =>
        simp only [splitBytes?, Option.ite_none_right_eq_some, Option.map_eq_some_iff,
          Prod.exists, Prod.mk.injEq, List.cons.injEq, List.cons_append, byteLength_cons]
        constructor
        · rintro ⟨hle, a, b, hsplit, ⟨rfl, rfl⟩, rfl⟩
          obtain ⟨rfl, hlen⟩ := ih.1 hsplit
          exact ⟨⟨rfl, rfl⟩, by omega⟩
        · rintro ⟨⟨rfl, rfl⟩, hlen⟩
          exact ⟨by omega, before, after, ih.2 ⟨rfl, by omega⟩, ⟨rfl, rfl⟩, rfl⟩

end ShellFrontend.Text
