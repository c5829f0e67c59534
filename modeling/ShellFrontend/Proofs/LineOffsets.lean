import ShellFrontend.Proofs.SourceLines

/-! # Offsets of lines and columns

The line and the column of an offset say where it is: the lines above and the characters on the
left have as many bytes. Offsets behind the end of a source are taken for the end.
-/

set_option autoImplicit false

namespace ShellFrontend

open ShellFrontend.Text (byteLength)

namespace SourceLine

/-- A text in pieces that end where a line does; only the last may lack its line break. -/
inductive EndsInBreaks : List (List Char) → Prop
  | nil : EndsInBreaks []
  | last {line : List Char} (hne : line ≠ []) (h : '\n' ∉ line) : EndsInBreaks [line]
  | line {line : List Char} {lines : List (List Char)} (h : '\n' ∉ line)
      (tail : EndsInBreaks lines) : EndsInBreaks ((line ++ ['\n']) :: lines)

theorem flatten_split (source : List Char) : (split source).flatten = source := by
  fun_induction split source with
  | case1 => rfl
  | case2 rest ih => rw [List.flatten_cons, ih, List.singleton_append]
  | case3 c rest hc hrest ih =>
    rw [hrest] at ih
    rw [← ih]
    rfl
  | case4 c rest hc line lines hrest ih =>
    rw [hrest, List.flatten_cons] at ih
    rw [List.flatten_cons, List.cons_append, ih]

theorem endsInBreaks_split (source : List Char) : EndsInBreaks (split source) := by
  fun_induction split source with
  | case1 => exact .nil
  | case2 rest ih => exact .line List.not_mem_nil ih
  | case3 c rest hc => exact .last (List.cons_ne_nil c []) (by simpa using Ne.symm hc)
  | case4 c rest hc line lines hrest ih =>
    rw [hrest] at ih
    cases ih with
    | last hne h =>
      exact .last (List.cons_ne_nil c line) (by simp [Ne.symm hc, h])
    | @line line lines h tail =>
      have hline : '\n' ∉ c :: line := by simp [Ne.symm hc, h]
      exact .line hline tail

/-- The bytes of the lines above and of the characters on the left. -/
def offsetIn (lines : List (List Char)) (found : SourceLine) : Nat :=
  byteLength (lines.take (found.number - 1)).flatten + byteLength (found.text.take found.column)

theorem byteLength_take_le {m n : Nat} (h : m ≤ n) (text : List Char) :
    byteLength (text.take m) ≤ byteLength (text.take n) := by
  obtain ⟨more, hmore⟩ := @List.take_prefix_take_left _ text m n h
  rw [← hmore, Text.byteLength_append]
  exact Nat.le_add_right ..

theorem find_behind {lines : List (List Char)} {offset : Nat}
    (h : byteLength lines.flatten ≤ offset) (number : Nat) :
    find number offset lines = find number (byteLength lines.flatten) lines := by
  induction lines generalizing number offset with
  | nil => rfl
  | cons line lines ih =>
    rw [List.flatten_cons, Text.byteLength_append] at h ⊢
    have hskip : ∀ rest, find number (byteLength line + rest) (line :: lines) =
        if lines.isEmpty && line.getLast? != some '\n' then ⟨number, line, line.length⟩
        else find (number + 1) rest lines := by
      intro rest
      rw [find, if_neg (by omega), Nat.add_sub_cancel_left]
    obtain ⟨rest, rfl⟩ := Nat.exists_eq_add_of_le (Nat.le_of_add_right_le h)
    rw [hskip, hskip, ih (Nat.le_of_add_le_add_left h)]

section lines

variable {above : List (List Char)} (h : ∀ line ∈ above, '\n' ∉ line)

include h

theorem count_lines : (above.flatMap (· ++ ['\n'])).count '\n' = above.length := by
  induction above with
  | nil => rfl
  | cons line above ih =>
    obtain ⟨hline, habove⟩ := List.forall_mem_cons.1 h
    rw [List.flatMap_cons, List.count_append, List.count_append, ih habove,
      List.count_eq_zero_of_not_mem hline, List.length_cons]
    exact Nat.add_comm ..

theorem split_lines (rest : List Char) :
    split (above.flatMap (· ++ ['\n']) ++ rest) = above.map (· ++ ['\n']) ++ split rest := by
  induction above with
  | nil => rfl
  | cons line above ih =>
    obtain ⟨hline, habove⟩ := List.forall_mem_cons.1 h
    rw [List.flatMap_cons, List.append_assoc, List.append_assoc, List.singleton_append,
      split_line hline, ih habove, List.map_cons, List.cons_append]

end lines

/-- A line, found for the end of a part of a source, tells where that is. Only an empty line, at the
end of a source that is empty or ends in a line break, is none of those that the source is cut into. -/
structure Tells (found : SourceLine) (source before : List Char) : Prop where
  number_eq : found.number = before.count '\n' + 1
  column_le : found.column ≤ found.text.length
  text_eq : found.text = (split source)[found.number - 1]?.getD []
  no_line_iff : (split source)[found.number - 1]? = none ↔
    before = source ∧ (source = [] ∨ source.getLast? = some '\n')
  offsetIn_eq : offsetIn (split source) found = byteLength before

end SourceLine

namespace Place

variable {source : List Char} (place : Place source)

theorem count_before : place.before.count '\n' = place.above.length := by
  rw [before, List.count_append, SourceLine.count_lines place.above_inline,
    List.count_eq_zero_of_not_mem place.left_inline, Nat.add_zero]

theorem split_eq : SourceLine.split source =
    place.above.map (· ++ ['\n']) ++ SourceLine.split (place.line ++ place.below) := by
  have hlines := SourceLine.split_lines place.above_inline (place.line ++ place.below)
  rw [line, List.append_assoc, ← place.source_eq] at hlines
  rw [hlines, line, List.append_assoc]

theorem line_inline : '\n' ∉ place.line := by
  simp [line, place.left_inline, place.right_inline]

theorem getElem?_split : (SourceLine.split source)[place.above.length]? =
    if place.line ++ place.below = [] then none
    else some (place.line ++ place.below.take 1) := by
  have hbelow := place.below_head
  rw [place.split_eq, List.getElem?_append_right (by simp), List.length_map, Nat.sub_self]
  generalize place.below = below at hbelow ⊢
  cases below with
  | nil =>
    rw [List.append_nil, List.take_nil, List.append_nil]
    split
    · rename_i hempty
      rw [hempty]
      rfl
    · rw [SourceLine.split_last place.line_inline ‹_›]
      rfl
  | cons c below =>
    obtain rfl := hbelow c rfl
    rw [SourceLine.split_line place.line_inline, if_neg (by simp)]
    rfl

theorem take_split : ((SourceLine.split source).take place.above.length).flatten =
    place.above.flatMap (· ++ ['\n']) := by
  rw [place.split_eq, List.take_append_of_le_length (by simp), List.take_of_length_le (by simp),
    List.flatMap_def]

theorem line_append_below_eq_nil_iff : place.line ++ place.below = [] ↔
    place.before = source ∧ (source = [] ∨ source.getLast? = some '\n') := by
  have hsource := place.source_eq
  rw [line, before]
  constructor
  · intro hempty
    simp only [List.append_eq_nil_iff] at hempty
    obtain ⟨⟨hleft, hright⟩, hbelow⟩ := hempty
    simp only [hleft, hright, hbelow, List.append_nil] at hsource ⊢
    refine ⟨hsource.symm, ?_⟩
    rcases List.eq_nil_or_concat place.above with habove | ⟨above, line, habove⟩
    · exact .inl (by rw [hsource, habove]; rfl)
    · exact .inr (by rw [hsource, habove]; simp)
  · rintro ⟨hbefore, hlast⟩
    rw [← List.append_assoc, hbefore] at hsource
    obtain ⟨hright, hbelow⟩ := List.append_eq_nil_iff.1 (List.self_eq_append_right.1 hsource)
    have hleft : place.left = [] := by
      by_contra hne
      have hmem : '\n' ∈ place.left := by
        rw [← hbefore, List.append_eq_nil_iff, List.getLast?_append_of_ne_nil _ hne] at hlast
        rcases hlast with hempty | hlast
        · exact absurd hempty.2 hne
        · exact List.mem_of_getLast? hlast
      exact place.left_inline hmem
    rw [hleft, hright, hbelow]
    rfl

/-- What is found at a place tells where it is. -/
theorem tells : (lineAt source place.offset).Tells source place.before := by
  have hline := place.getElem?_split
  rw [lineAt_place place]
  constructor
  · exact congrArg (· + 1) place.count_before.symm
  · simp only [line, List.length_append]
    omega
  · change _ = ((SourceLine.split source)[place.above.length]?).getD []
    rw [hline]
    split
    · rename_i hempty
      obtain ⟨hline, hbelow⟩ := List.append_eq_nil_iff.1 hempty
      rw [hline, hbelow]
      rfl
    · rfl
  · change (SourceLine.split source)[place.above.length]? = none ↔ _
    rw [hline, ← place.line_append_below_eq_nil_iff, ite_eq_left_iff]
    simp
  · change byteLength ((SourceLine.split source).take place.above.length).flatten + _ = _
    rw [place.take_split, line, List.append_assoc, List.take_left, before, Text.byteLength_append]

end Place

theorem lineAt_tells {source before : List Char} (h : before <+: source) :
    (lineAt source (byteLength before)).Tells source before := by
  obtain ⟨after, rfl⟩ := h
  obtain ⟨place, hbefore, -⟩ := Place.exists_of_cut before after
  have htells := place.tells
  rwa [Place.offset, hbefore] at htells

namespace SourceLine.Tells

variable {source before before' : List Char} {found found' : SourceLine}

theorem number_le (h : found.Tells source before) (h' : found'.Tells source before')
    (hbefore : before <+: before') : found.number ≤ found'.number := by
  rw [h.number_eq, h'.number_eq]
  exact Nat.succ_le_succ (hbefore.sublist.count_le '\n')

theorem precedes (h : found.Tells source before) (h' : found'.Tells source before')
    (hbefore : before <+: before') (hlt : byteLength before < byteLength before') :
    found.number < found'.number ∨
      found.number = found'.number ∧ found.column < found'.column := by
  rcases Nat.lt_or_eq_of_le (h.number_le h' hbefore) with hnumber | hnumber
  · exact .inl hnumber
  · refine .inr ⟨hnumber, ?_⟩
    by_contra hcolumn
    have htext : found'.text = found.text := by rw [h'.text_eq, h.text_eq, hnumber]
    have hoffset := h'.offsetIn_eq
    rw [offsetIn, ← hnumber, htext] at hoffset
    have hle := byteLength_take_le (Nat.le_of_not_lt hcolumn) found.text
    have hoffset' := h.offsetIn_eq
    rw [offsetIn] at hoffset'
    omega

end SourceLine.Tells

theorem lineAt_behind {source : List Char} {offset : Nat} (h : byteLength source ≤ offset) :
    lineAt source offset = lineAt source (byteLength source) := by
  have hsplit := @SourceLine.find_behind (SourceLine.split source) offset
  rw [SourceLine.flatten_split] at hsplit
  exact hsplit h 1

/-- Line and column give the offset back and are the greater the greater the offset is, up to the
end of the source. -/
theorem lineAt_inverts (source : List Char) :
    (SourceLine.split source).flatten = source ∧
      SourceLine.EndsInBreaks (SourceLine.split source) ∧
      (∀ before, before <+: source → (lineAt source (byteLength before)).Tells source before) ∧
      (∀ before before', before <+: source → before' <+: source →
        byteLength before < byteLength before' →
          let found := lineAt source (byteLength before)
          let found' := lineAt source (byteLength before')
          found.number < found'.number ∨
            found.number = found'.number ∧ found.column < found'.column) ∧
      ∀ offset, byteLength source ≤ offset →
        lineAt source offset = lineAt source (byteLength source) := by
  refine ⟨SourceLine.flatten_split source, SourceLine.endsInBreaks_split source,
    fun before h => lineAt_tells h, fun before before' h h' hlt => ?_,
    fun offset h => lineAt_behind h⟩
  have hbefore : before <+: before' := by
    rcases List.prefix_or_prefix_of_prefix h h' with hbefore | ⟨more, rfl⟩
    · exact hbefore
    · rw [Text.byteLength_append] at hlt
      omega
  exact (lineAt_tells h).precedes (lineAt_tells h') hbefore hlt

/-- The character on the left has two bytes, and the last line has no line break. -/
theorem lineAt_inverts_of_wide_character :
    let source := "let x = 1\n\té@".toList
    let before := "let x = 1\n\té".toList
    before <+: source ∧ lineAt source 13 = ⟨2, "\té@".toList, 2⟩ ∧
      (lineAt source 13).Tells source before ∧
      ((lineAt source 13).number < (lineAt source 14).number ∨
        (lineAt source 13).number = (lineAt source 14).number ∧
          (lineAt source 13).column < (lineAt source 14).column) ∧
      lineAt source 99 = lineAt source 14 := by
  intro source before
  obtain ⟨-, -, htells, hprecedes, hbehind⟩ := lineAt_inverts source
  have hbefore : before <+: source := ⟨['@'], by decide⟩
  exact ⟨hbefore, by decide, htells before hbefore,
    hprecedes before source hbefore (List.prefix_refl source) (by decide),
    hbehind 99 (by decide)⟩

end ShellFrontend
