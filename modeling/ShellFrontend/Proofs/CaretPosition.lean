import Mathlib.Data.List.DropRight
import ShellFrontend.Error.Report
import ShellFrontend.Proofs.JoinedSources
import ShellFrontend.Proofs.SourceLines
import ShellFrontend.Proofs.SourceOrder

/-! # Where the caret points

An error stands in front of a character that is no blank, or at the end of its source. So leaving
out the indentation of its line moves text and caret alike, and the caret stands below the
character, unless that is among the blanks which the quoted line lacks at its end.
-/

set_option autoImplicit false

namespace ShellFrontend

open ShellFrontend.Text (byteLength isBlank trimEnd)
open ShellFrontend.SyntaxError (isIndent)

namespace Text

variable {text : List Char}

theorem exists_eq_trimEnd_append (text : List Char) :
    ∃ trailing, text = trimEnd text ++ trailing ∧ ∀ c ∈ trailing, isBlank c :=
  ⟨text.rtakeWhile isBlank, List.rdropWhile_append_rtakeWhile.symm,
    fun _ hc => List.mem_rtakeWhile_imp hc⟩

theorem trimEnd_append_of_isBlank {blanks : List Char} (h : ∀ c ∈ blanks, isBlank c) :
    trimEnd (text ++ blanks) = trimEnd text := by
  rw [trimEnd, List.reverse_append, List.dropWhile_append_of_pos, trimEnd]
  exact fun c hc => h c (List.mem_reverse.1 hc)

theorem not_isBlank_getLast?_trimEnd (text : List Char) :
    ∀ c ∈ (trimEnd text).getLast?, isBlank c = false := by
  intro c hc
  rw [trimEnd, List.getLast?_reverse] at hc
  simpa [Option.mem_def.1 hc] using List.head?_dropWhile_not isBlank text.reverse

theorem getElem?_trimEnd_append (left right : List Char) :
    (∃ c, (trimEnd (left ++ right))[left.length]? = some c ∧ right.head? = some c) ∨
      (trimEnd (left ++ right)).length ≤ left.length ∧ ∀ c ∈ right, isBlank c := by
  obtain ⟨trailing, htrailing, hblank⟩ := exists_eq_trimEnd_append (left ++ right)
  rcases List.append_eq_append_iff.1 htrailing with ⟨kept, hkept, hright⟩ | ⟨lost, hleft, hlost⟩
  · cases kept with
    | nil =>
      rw [hkept, List.append_nil, hright]
      exact .inr ⟨Nat.le_refl _, hblank⟩
    | cons c kept =>
      rw [hkept, List.getElem?_append_right (Nat.le_refl _), Nat.sub_self, hright]
      exact .inl ⟨c, rfl, rfl⟩
  · refine .inr ⟨?_, fun c hc => hblank c ?_⟩
    · have hlength := congrArg List.length hleft
      rw [List.length_append] at hlength
      omega
    · rw [hlost]
      exact List.mem_append_right lost hc

end Text

/-- What is shown of a line: all but the spaces and tabs in front and the blanks at its end. -/
structure Shows (line shown : List Char) : Prop where
  parts : ∃ indent trailing, line = indent ++ (shown ++ trailing) ∧
    (∀ c ∈ indent, c = ' ' ∨ c = '\t') ∧ ∀ c ∈ trailing, isBlank c
  start : ∀ c ∈ shown.head?, c ≠ ' ' ∧ c ≠ '\t'
  stop : ∀ c ∈ shown.getLast?, isBlank c = false

namespace Place

variable {source : List Char} (place : Place source)

/-- The number of a line, and the bar in front of what is shown of it. -/
def label : List Char :=
  Nat.toDigits 10 place.number ++ [' ', '|', ' ']

/-- The line of a place without its indentation, if the place is not within that. -/
def shown : List Char :=
  trimEnd (place.left.dropWhile isIndent ++ place.right)

/-- What stands in front of a caret that points at a place. -/
def margin : List Char :=
  SyntaxError.gutter place.number ++
    ' ' :: List.replicate (place.left.dropWhile isIndent).length '-'

/-- A line that quotes the line of a place, and the text in front of a caret below it. The caret
points at the character behind the place, or past the quoted line if only blanks stand there. -/
structure Points (quoted margin : List Char) : Prop where
  quotes : ∃ shown, quoted = place.label ++ shown ∧ Shows place.line shown
  inline : '\n' ∉ quoted ++ margin
  single : '^' ∉ margin
  inText : place.label.length ≤ margin.length
  character : (∃ c, quoted[margin.length]? = some c ∧ place.after.head? = some c) ∨
    quoted.length ≤ margin.length ∧ ∀ c ∈ place.right, isBlank c

theorem length_margin :
    place.margin.length = place.label.length + (place.left.dropWhile isIndent).length := by
  simp only [margin, SyntaxError.gutter, label, List.length_append, List.length_cons,
    List.length_replicate, List.length_nil]
  omega

theorem eq_lineBreak_of_mem_take : ∀ c ∈ place.below.take 1, c = '\n' := by
  intro c hc
  refine place.below_head c ?_
  cases hbelow : place.below with
  | nil => simp [hbelow] at hc
  | cons d below => simpa [hbelow, eq_comm] using hc

theorem head?_right_append : (place.right ++ place.below.take 1).head? = place.after.head? := by
  rw [after, List.head?_append, List.head?_append, List.head?_take]
  simp

variable {place}

section stopped

-- If a blank stood behind the place, the indentation could reach over it.
variable (h : ∀ c ∈ place.after.head?, isIndent c = false)

include h

theorem not_isIndent_right : ∀ c ∈ place.right.head?, isIndent c = false := by
  intro c hc
  refine h c ?_
  rw [after, List.head?_append, Option.mem_def.1 hc]
  rfl

theorem not_isIndent_behind :
    ∀ c ∈ (place.right ++ place.below.take 1).head?, isIndent c = false := by
  rwa [head?_right_append]

theorem shows : Shows place.line place.shown := by
  obtain ⟨trailing, htrailing, hblank⟩ :=
    Text.exists_eq_trimEnd_append (place.left.dropWhile isIndent ++ place.right)
  refine ⟨⟨place.left.takeWhile isIndent, trailing, ?_, ?_, hblank⟩, ?_, ?_⟩
  · rw [shown, ← htrailing, ← List.append_assoc, List.takeWhile_append_dropWhile, line]
  · intro c hc
    simpa [isIndent] using List.mem_takeWhile_imp hc
  · intro c hc
    have hhead : (place.line.dropWhile isIndent).head? = some c := by
      rw [line, dropWhile_append_of_stop (not_isIndent_right h), htrailing, List.head?_append,
        show (trimEnd _).head? = some c from hc]
      rfl
    have hindent := List.head?_dropWhile_not isIndent place.line
    rw [hhead] at hindent
    simpa [isIndent] using hindent
  · exact Text.not_isBlank_getLast?_trimEnd _

theorem quotedLine_lineAt :
    SyntaxError.quotedLine (lineAt source place.offset) = place.label ++ place.shown := by
  have hbreak : ∀ c ∈ place.below.take 1, isBlank c := fun c hc => by
    rw [place.eq_lineBreak_of_mem_take c hc]
    rfl
  have hshown : trimEnd ((place.line ++ place.below.take 1).dropWhile isIndent) = place.shown := by
    rw [line, List.append_assoc, dropWhile_append_of_stop (not_isIndent_behind h),
      ← List.append_assoc, Text.trimEnd_append_of_isBlank hbreak, shown]
  rw [lineAt_place]
  exact congrArg (place.label ++ ·) hshown

theorem caretLine_lineAt :
    SyntaxError.caretLine (lineAt source place.offset) = place.margin ++ ['^'] := by
  have hdashes : place.left.length -
      ((place.line ++ place.below.take 1).takeWhile isIndent).length =
        (place.left.dropWhile isIndent).length := by
    have hparts : (place.left.takeWhile isIndent ++ place.left.dropWhile isIndent).length = _ :=
      congrArg List.length List.takeWhile_append_dropWhile
    rw [line, List.append_assoc, takeWhile_append_of_stop (not_isIndent_behind h), ← hparts,
      List.length_append, Nat.add_sub_cancel_left]
  rw [lineAt_place, margin, ← hdashes]
  rfl

theorem points : place.Points (place.label ++ place.shown) place.margin where
  quotes := ⟨place.shown, rfl, shows h⟩
  inline := by
    obtain ⟨indent, trailing, hline, -⟩ := (shows h).parts
    have hshown : '\n' ∉ place.shown := by
      have hinline : '\n' ∉ place.line := by
        simp [line, place.left_inline, place.right_inline]
      rw [hline] at hinline
      exact fun hmem => hinline (List.mem_append_right _ (List.mem_append_left _ hmem))
    have hdigits : '\n' ∉ Nat.toDigits 10 place.number := fun hmem =>
      absurd (Text.Digits.isDigit_of_mem_toDigits hmem) (by decide)
    simp [label, hdigits, hshown, margin, SyntaxError.gutter, List.mem_replicate]
  single := by
    simp [margin, SyntaxError.gutter, List.mem_replicate]
  inText := by
    rw [length_margin]
    exact Nat.le_add_right _ _
  character := by
    rw [length_margin, List.getElem?_append_right (Nat.le_add_right _ _), Nat.add_sub_cancel_left,
      List.length_append]
    rcases Text.getElem?_trimEnd_append (place.left.dropWhile isIndent) place.right with
      ⟨c, hc, hright⟩ | ⟨hlength, hblank⟩
    · refine .inl ⟨c, hc, ?_⟩
      rw [after, List.head?_append, hright, Option.some_or]
    · exact .inr ⟨Nat.add_le_add_left hlength _, hblank⟩

end stopped

end Place

theorem error_place {source file parserFile : String} {error : SyntaxError}
    (hfits : byteLength source.toList < UInt32.size)
    (herror : error ∈ (parse (tokenize source file) parserFile).errors) :
    ∃ place : Place source.toList, place.offset = error.position.offset.toNat ∧
      ∀ c ∈ place.after.head?, isIndent c = false := by
  obtain ⟨token, htoken, hposition⟩ :=
    exists_token_of_mem_errors (statement_readsStatement _ (Layer.ofLevels_reads _ _) _ _)
      (tokenize_inSourceOrder file hfits) herror
  obtain ⟨before, after, rfl, hstart, -, hafter, -⟩ := exists_cut_of_mem_tokenize htoken hfits
  obtain ⟨place, hbefore, hbehind⟩ := Place.exists_of_cut before.toList after.toList
  rw [String.toList_append]
  refine ⟨place, ?_, fun c hc => ?_⟩
  · rw [Place.offset, hbefore, hstart, hposition]
  · rw [hbehind] at hc
    have hgap := hafter c hc
    rw [Lexeme.isGap, Bool.or_eq_false_iff] at hgap
    exact hgap.1

/-- The last two lines of a report on an error point at it. -/
theorem report_points {source file parserFile : String} {error : SyntaxError}
    (hfits : byteLength source.toList < UInt32.size)
    (herror : error ∈ (parse (tokenize source file) parserFile).errors) :
    ∃ (place : Place source.toList) (heading quoted margin : List Char),
      place.offset = error.position.offset.toNat ∧
      (error.report source).toList = heading ++ '\n' :: (quoted ++ '\n' :: (margin ++ ['^'])) ∧
      place.Points quoted margin := by
  obtain ⟨place, hoffset, hafter⟩ := error_place hfits herror
  refine ⟨place, ['\n'].intercalate [error.headline, "-> ".toList ++ error.position.file.toList,
    SyntaxError.gutter place.number], place.label ++ place.shown, place.margin, hoffset, ?_,
    Place.points hafter⟩
  have hnumber : (lineAt source.toList place.offset).number = place.number :=
    congrArg SourceLine.number (lineAt_place place)
  rw [SyntaxError.report, String.toList_ofList, SyntaxError.reportLines, ← hoffset, hnumber,
    Place.quotedLine_lineAt hafter, Place.caretLine_lineAt hafter]
  simp [List.intercalate]

/-- The tip brings a line break of its own, and the indentation is left out. -/
theorem report_points_of_open_literal :
    let source := "1\n\t\"é\" \"b\nc"
    let error : SyntaxError := ⟨.illegal "\"b\nc", ⟨8, "shell"⟩⟩
    byteLength source.toList < UInt32.size ∧
      error ∈ (parse (tokenize source "shell") "shell").errors ∧
      (∃ title, error.report source = title ++ "\n-> shell\n  |\n2 | \"é\" \"b\n  | ----^") ∧
      ∃ (place : Place source.toList) (heading quoted margin : List Char), place.offset = 8 ∧
        (error.report source).toList = heading ++ '\n' :: (quoted ++ '\n' :: (margin ++ ['^'])) ∧
        place.Points quoted margin := by
  intro source error
  have hfits : byteLength source.toList < UInt32.size := by decide
  have herror : error ∈ (parse (tokenize source "shell") "shell").errors := by decide +kernel
  refine ⟨hfits, herror, ⟨String.ofList error.headline, ?_⟩, report_points hfits herror⟩
  decide +kernel

end ShellFrontend
