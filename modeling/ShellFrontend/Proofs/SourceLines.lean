import ShellFrontend.Proofs.Classification
import ShellFrontend.Source.Line

/-! # Places on lines

Between two characters of a source lies a place: there are lines above it, and its own line has a
part on its left and a part on its right. Looking for the byte offset of a place finds its line and
the number of characters on its left, also at the end of the source.
-/

set_option autoImplicit false

namespace ShellFrontend

open ShellFrontend.Text (byteLength)

/-- A place in a source; lines are taken without their line breaks. -/
structure Place (source : List Char) where
  above : List (List Char)
  left : List Char
  right : List Char
  below : List Char
  source_eq : source = above.flatMap (· ++ ['\n']) ++ (left ++ (right ++ below))
  above_inline : ∀ line ∈ above, '\n' ∉ line
  left_inline : '\n' ∉ left
  right_inline : '\n' ∉ right
  below_head : ∀ c ∈ below.head?, c = '\n'

namespace Place

variable {source : List Char}

/-- Lines are numbered from one. -/
def number (place : Place source) : Nat := place.above.length + 1

def line (place : Place source) : List Char := place.left ++ place.right

def before (place : Place source) : List Char :=
  place.above.flatMap (· ++ ['\n']) ++ place.left

def after (place : Place source) : List Char := place.right ++ place.below

def offset (place : Place source) : Nat := byteLength place.before

theorem exists_of_cut (before after : List Char) : ∃ place : Place (before ++ after),
    place.before = before ∧ place.after = after := by
  induction before with
  | nil =>
    have hrun := isMaximalRun_takeWhile (· ≠ '\n') after
    have hright : '\n' ∉ after.takeWhile (· ≠ '\n') := fun h => by simpa using hrun.all '\n' h
    refine ⟨⟨[], [], after.takeWhile (· ≠ '\n'), after.dropWhile (· ≠ '\n'), ?_, by simp, by simp,
      hright, fun c hc => by simpa using hrun.stop c hc⟩, rfl, List.takeWhile_append_dropWhile⟩
    exact List.takeWhile_append_dropWhile.symm
  | cons c before ih =>
    obtain ⟨⟨above, left, right, below, hsource, habove, hleft, hright, hbelow⟩, hbefore, hafter⟩ :=
      ih
    have hcons := congrArg (c :: ·) hsource
    rcases eq_or_ne c '\n' with rfl | hc
    · have habove' : ∀ line ∈ [] :: above, '\n' ∉ line :=
        List.forall_mem_cons.2 ⟨List.not_mem_nil, habove⟩
      exact ⟨⟨[] :: above, left, right, below, hcons, habove', hleft, hright, hbelow⟩,
        congrArg ('\n' :: ·) hbefore, hafter⟩
    · -- The character goes to the first line above, or else to the line of the place.
      cases above with
      | nil =>
        have hleft' : '\n' ∉ c :: left := by simp [hc.symm, hleft]
        exact ⟨⟨[], c :: left, right, below, hcons, habove, hleft', hright, hbelow⟩,
          congrArg (c :: ·) hbefore, hafter⟩
      | cons line above =>
        obtain ⟨hline, habove⟩ := List.forall_mem_cons.1 habove
        have habove' : ∀ other ∈ (c :: line) :: above, '\n' ∉ other :=
          List.forall_mem_cons.2 ⟨by simp [hc.symm, hline], habove⟩
        exact ⟨⟨(c :: line) :: above, left, right, below, hcons, habove', hleft, hright, hbelow⟩,
          congrArg (c :: ·) hbefore, hafter⟩

end Place

namespace SourceLine

theorem split_line {line : List Char} (h : '\n' ∉ line) (rest : List Char) :
    split (line ++ '\n' :: rest) = (line ++ ['\n']) :: split rest := by
  induction line with
  | nil => rw [List.nil_append, split, if_pos rfl, List.nil_append]
  | cons c line ih =>
    obtain ⟨hc, hline⟩ := not_or.1 (mt List.mem_cons.2 h)
    rw [List.cons_append, split, if_neg (Ne.symm hc), ih hline, List.cons_append]

theorem split_last {line : List Char} (h : '\n' ∉ line) (hne : line ≠ []) :
    split line = [line] := by
  induction line with
  | nil => exact absurd rfl hne
  | cons c line ih =>
    obtain ⟨hc, hline⟩ := not_or.1 (mt List.mem_cons.2 h)
    rw [split, if_neg (Ne.symm hc)]
    cases line with
    | nil => rfl
    | cons d line => rw [ih hline (List.cons_ne_nil d line)]

theorem columnOf_append (left rest : List Char) :
    columnOf (left ++ rest) (byteLength left) = left.length := by
  have hsplit : Text.splitBytes? (byteLength left) (left ++ rest) = some (left, rest) :=
    Text.splitBytes?_eq_some_iff.2 ⟨rfl, rfl⟩
  rw [columnOf, hsplit]

theorem find_line (number offset : Nat) (line : List Char) (lines : List (List Char)) :
    find number (byteLength (line ++ ['\n']) + offset) ((line ++ ['\n']) :: lines) =
      find (number + 1) offset lines := by
  rw [find, if_neg (by omega), if_neg (by simp), Nat.add_sub_cancel_left]

theorem byteLength_lt_append_cons (left : List Char) (c : Char) (right : List Char) :
    byteLength left < byteLength (left ++ c :: right) := by
  have hsize := c.utf8Size_pos
  rw [Text.byteLength_append, Text.byteLength_cons]
  omega

theorem find_terminated {left right : List Char} (hleft : '\n' ∉ left) (hright : '\n' ∉ right)
    (number : Nat) (below : List Char) :
    find number (byteLength left) (split (left ++ (right ++ '\n' :: below))) =
      ⟨number, left ++ right ++ ['\n'], left.length⟩ := by
  have hline : '\n' ∉ left ++ right := by simp [hleft, hright]
  have hlt : byteLength left < byteLength (left ++ (right ++ ['\n'])) := by
    cases right <;> exact byteLength_lt_append_cons _ _ _
  rw [← List.append_assoc, split_line hline, List.append_assoc left, find, if_pos hlt,
    columnOf_append]

theorem find_last {left right : List Char} (hleft : '\n' ∉ left) (hright : '\n' ∉ right)
    (number : Nat) : find number (byteLength left) (split (left ++ right)) =
      ⟨number, left ++ right, left.length⟩ := by
  have hline : '\n' ∉ left ++ right := by simp [hleft, hright]
  by_cases hempty : left ++ right = []
  · obtain ⟨rfl, rfl⟩ := List.append_eq_nil_iff.1 hempty
    rfl
  · rw [split_last hline hempty, find, columnOf_append]
    cases right with
    | cons c right => rw [if_pos (byteLength_lt_append_cons left c right)]
    | nil =>
      have hlast : left.getLast? ≠ some '\n' := fun hlast => hleft (List.mem_of_getLast? hlast)
      rw [List.append_nil, if_neg (Nat.lt_irrefl _), if_pos (by simpa using hlast)]

theorem find_above {above : List (List Char)} (h : ∀ line ∈ above, '\n' ∉ line)
    (number offset : Nat) (rest : List Char) :
    find number (byteLength (above.flatMap (· ++ ['\n'])) + offset)
        (split (above.flatMap (· ++ ['\n']) ++ rest)) =
      find (number + above.length) offset (split rest) := by
  induction above generalizing number with
  | nil => rw [List.flatMap_nil, List.nil_append, Text.byteLength_nil, Nat.zero_add]; rfl
  | cons line above ih =>
    obtain ⟨hline, habove⟩ := List.forall_mem_cons.1 h
    have hcons : (line :: above).flatMap (· ++ ['\n']) ++ rest =
        line ++ '\n' :: (above.flatMap (· ++ ['\n']) ++ rest) := by
      rw [List.flatMap_cons, List.append_assoc, List.append_assoc, List.singleton_append]
    rw [hcons, split_line hline, List.flatMap_cons, Text.byteLength_append, Nat.add_assoc,
      find_line, ih habove, List.length_cons, Nat.add_right_comm, Nat.add_assoc]

end SourceLine

/-- A place is found by its offset. A line is given with its line break, if it has one. -/
theorem lineAt_place {source : List Char} (place : Place source) :
    lineAt source place.offset =
      ⟨place.number, place.line ++ place.below.take 1, place.left.length⟩ := by
  obtain ⟨above, left, right, below, rfl, habove, hleft, hright, hbelow⟩ := place
  have hline : ∀ number, SourceLine.find number (byteLength left)
      (SourceLine.split (left ++ (right ++ below))) =
        ⟨number, left ++ right ++ below.take 1, left.length⟩ := by
    intro number
    cases below with
    | nil =>
      rw [List.append_nil, List.take_nil, List.append_nil]
      exact SourceLine.find_last hleft hright number
    | cons c below =>
      obtain rfl := hbelow c rfl
      exact SourceLine.find_terminated hleft hright number below
  rw [lineAt, Place.offset, Place.before, Text.byteLength_append, SourceLine.find_above habove,
    hline, Nat.add_comm]
  rfl

end ShellFrontend
