import ShellFrontend.Proofs.LexemeBoundary
import ShellFrontend.Proofs.Tiling
import ShellFrontend.Tree.Render

/-! # Tokens of joined sources

A scanner carries nothing from one lexeme to the next. So the tokens of a text behind another one
are its own tokens, further on by the bytes in front of it: behind the rendering of a literal,
behind a line break, and from the start of any token on, where blanks may be put in between.
-/

set_option autoImplicit false

namespace ShellFrontend

open ShellFrontend.Text (byteLength)
open ShellFrontend.Lexeme (ofSource CutBefore isGap)

def Position.shift (count : Nat) (position : Position) : Position :=
  { position with offset := UInt32.ofNat (position.offset.toNat + count) }

def Span.shift (count : Nat) (span : Span) : Span :=
  ⟨span.start.shift count, span.stop.shift count⟩

/-- The same token, further on by a number of bytes. -/
def Token.shift (count : Nat) (token : Token) : Token :=
  { token with span := token.span.shift count }

/-- Further on by so many bytes, the tokens of a file stand where they should: no offset is cut. -/
def ShiftsExactly (file : String) (count : Nat) (tokens : List Token) : Prop :=
  ∀ token ∈ tokens, (token.shift count).span.Covers file
    (token.span.start.offset.toNat + count) (token.span.stop.offset.toNat + count)

theorem Position.shift_ofNat (file : String) (offset count : Nat) :
    shift count ⟨UInt32.ofNat offset, file⟩ = ⟨UInt32.ofNat (offset + count), file⟩ := by
  have hoffset : UInt32.ofNat ((UInt32.ofNat offset).toNat + count) =
      UInt32.ofNat (offset + count) := by
    apply UInt32.toNat.inj
    simp
  rw [shift, hoffset]

theorem Span.shift_between (file : String) (start stop count : Nat) :
    (between file start stop).shift count = between file (start + count) (stop + count) := by
  rw [between, shift, Position.shift_ofNat, Position.shift_ofNat, between]

namespace Token

variable {file : String} {offset : Nat} {lexeme : Lexeme} {lexemes : List Lexeme} {token : Token}

/-- The token of a lexeme that begins at a byte offset. -/
def place? (file : String) (offset : Nat) (lexeme : Lexeme) : Option Token :=
  lexeme.token.map fun (kind, text) =>
    ⟨kind, text, .between file offset (offset + byteLength lexeme.written)⟩

theorem ofLexemes_cons (file : String) (offset : Nat) (lexeme : Lexeme) (lexemes : List Lexeme) :
    ofLexemes file offset (lexeme :: lexemes) = (place? file offset lexeme).toList ++
      ofLexemes file (offset + byteLength lexeme.written) lexemes := by
  obtain ⟨written, _ | ⟨kind, text⟩⟩ := lexeme <;> rfl

theorem ofLexemes_ne_nil (file : String) (offset : Nat) (lexemes : List Lexeme) :
    ofLexemes file offset lexemes ≠ [] := by
  obtain ⟨tokens, final, heq, -⟩ := ofLexemes_eq file offset lexemes
  rw [heq]
  simp

theorem place?_shift (file : String) (offset count : Nat) (lexeme : Lexeme) :
    place? file (offset + count) lexeme = (place? file offset lexeme).map (shift count) := by
  obtain ⟨written, _ | ⟨kind, text⟩⟩ := lexeme
  · rfl
  · simp only [place?, Option.map_some, shift, Span.shift_between, Nat.add_right_comm]

theorem ofLexemes_shift (file : String) (offset count : Nat) (lexemes : List Lexeme) :
    ofLexemes file (offset + count) lexemes =
      (ofLexemes file offset lexemes).map (shift count) := by
  induction lexemes generalizing offset with
  | nil =>
    rw [ofLexemes, ofLexemes, List.map_singleton, ← Position.shift_ofNat]
    rfl
  | cons lexeme lexemes ih =>
    rw [ofLexemes_cons, ofLexemes_cons, place?_shift, Nat.add_right_comm, ih, List.map_append,
      Option.toList_map]

theorem map_shift_tokenize (source file : String) (count : Nat) :
    (tokenize source file).map (shift count) = ofLexemes file count (ofSource source.toList) := by
  rw [tokenize, ← ofLexemes_shift, Nat.zero_add]

theorem ofLexemes_append (file : String) (offset : Nat) (before after : List Lexeme) :
    ofLexemes file offset (before ++ after) = (ofLexemes file offset before).dropLast ++
      ofLexemes file (offset + byteLength (before.flatMap Lexeme.written)) after := by
  induction before generalizing offset with
  | nil => rfl
  | cons lexeme before ih =>
    rw [List.cons_append, ofLexemes_cons, ofLexemes_cons, ih,
      List.dropLast_append_of_ne_nil (ofLexemes_ne_nil _ _ _), List.flatMap_cons,
      Text.byteLength_append, Nat.add_assoc, List.append_assoc]

theorem span_of_mem (h : token ∈ ofLexemes file offset lexemes) : ∃ start stop,
    token.span = .between file start stop ∧ start ≤ stop ∧
      stop ≤ offset + byteLength (lexemes.flatMap Lexeme.written) := by
  induction lexemes generalizing offset with
  | nil =>
    obtain rfl := List.mem_singleton.1 h
    exact ⟨offset, offset, rfl, Nat.le_refl _, Nat.le_refl _⟩
  | cons lexeme lexemes ih =>
    rw [ofLexemes_cons, List.mem_append, Option.mem_toList] at h
    rw [List.flatMap_cons, Text.byteLength_append]
    rcases h with h | h
    · obtain ⟨content, -, rfl⟩ := Option.map_eq_some_iff.1 h
      exact ⟨offset, offset + byteLength lexeme.written, rfl, by omega, by omega⟩
    · obtain ⟨start, stop, hspan, hle, hstop⟩ := ih h
      exact ⟨start, stop, hspan, hle, by omega⟩

end Token

theorem shiftsExactly_tokenize {source : String} {count : Nat} (file : String)
    (hfits : byteLength source.toList + count < UInt32.size) :
    ShiftsExactly file count (tokenize source file) := by
  intro token htoken
  obtain ⟨start, stop, hspan, hle, hstop⟩ := Token.span_of_mem htoken
  rw [Lexeme.flatMap_written_ofSource, Nat.zero_add] at hstop
  have hstart : token.span.start.offset.toNat = start := by
    rw [hspan]
    exact UInt32.toNat_ofNat_of_lt' (by omega)
  have hend : token.span.stop.offset.toNat = stop := by
    rw [hspan]
    exact UInt32.toNat_ofNat_of_lt' (by omega)
  rw [hstart, hend, Token.shift, hspan, Span.shift_between]
  exact Span.between_covers (by omega) (by omega)

section literals

theorem tokenize_of_write {kind : Kind} {q : Text.Quoting} {text rest written : String}
    (hq : q.IsFaithful)
    (hfirst : ∀ rest, Lexeme.first q.delimiter rest = Lexeme.ofLiteral kind q q.delimiter rest)
    (hwritten : written.toList = q.write text.toList) (file : String) :
    tokenize (written ++ rest) file =
      ⟨kind, text, .between file 0 (byteLength written.toList)⟩ ::
        (tokenize rest file).map (Token.shift (byteLength written.toList)) := by
  have hscan := Lexeme.first_of_write hq hfirst text.toList rest.toList
  have hsource : ofSource (written ++ rest).toList =
      ⟨written.toList, some (kind, text)⟩ :: ofSource rest.toList := by
    rw [String.ofList_toList] at hscan
    rw [String.toList_append, hwritten]
    exact Lexeme.ofSource_of_first hscan
  rw [Token.map_shift_tokenize, tokenize, hsource, Token.ofLexemes_cons, Token.place?, Nat.zero_add]
  rfl

/-- The rendering of a literal is scanned as one token, whatever follows it. -/
theorem tokenize_literal {literal : Expr} {kind : Kind} {text rest : String} (file : String)
    (hliteral : (literal, kind) ∈ [(.string text, .string), (.command text, .command)])
    (hfits : byteLength (literal.render ++ rest).toList < UInt32.size) :
    let length := byteLength literal.render.toList
    tokenize (literal.render ++ rest) file =
        ⟨kind, text, .between file 0 length⟩ :: (tokenize rest file).map (Token.shift length) ∧
      (Span.between file 0 length).Covers file 0 length ∧
      ShiftsExactly file length (tokenize rest file) := by
  intro length
  rw [String.toList_append, Text.byteLength_append] at hfits
  refine ⟨?_, Span.between_covers (Nat.zero_le _) (by omega),
    shiftsExactly_tokenize file (by omega)⟩
  simp only [List.mem_cons, Prod.mk.injEq, List.not_mem_nil, or_false] at hliteral
  rcases hliteral with ⟨rfl, rfl⟩ | ⟨rfl, rfl⟩
  · apply tokenize_of_write Text.Quoting.isFaithful_string (fun _ => rfl)
    rw [Expr.render, String.toList_ofList, Expr.write, List.append_nil]
  · apply tokenize_of_write Text.Quoting.isFaithful_command (fun _ => rfl)
    rw [Expr.render, String.toList_ofList, Expr.write, List.append_nil]

/-- Escapes, a delimiter and a backslash at the end of the text, and an open literal behind it. -/
theorem tokenize_literal_of_escapes :
    let literal := Expr.command "é \x60 \\"
    (literal, Kind.command) ∈ [(.string "é \x60 \\", .string), (.command "é \x60 \\", .command)] ∧
      byteLength (literal.render ++ "\x60n\" ").toList < UInt32.size ∧
      tokenize (literal.render ++ "\x60n\" ") "shell" =
        ⟨.command, "é \x60 \\", .between "shell" 0 (byteLength literal.render.toList)⟩ ::
          (tokenize "\x60n\" " "shell").map (Token.shift (byteLength literal.render.toList)) := by
  intro literal
  have hliteral : (literal, Kind.command) ∈
      [(.string "é \x60 \\", .string), (.command "é \x60 \\", .command)] := by simp [literal]
  have hfits : byteLength (literal.render ++ "\x60n\" ").toList < UInt32.size := by decide +kernel
  exact ⟨hliteral, hfits, (tokenize_literal "shell" hliteral hfits).1⟩

end literals

section lines

theorem not_isOpenLiteral {source file : String}
    (h : ∀ token ∈ tokenize source file,
      token.kind = .illegal → Cause.isOpenLiteral token.text = false) :
    ∀ lexeme ∈ ofSource source.toList, lexeme.isOpenLiteral = false := by
  rintro ⟨written, token⟩ hlexeme
  obtain ⟨tokens, final, htokens, hcontent⟩ := Token.ofLexemes_eq file 0 (ofSource source.toList)
  unfold Lexeme.isOpenLiteral
  split
  · rename_i text heq
    dsimp only at heq
    have hmem : (Kind.illegal, text) ∈ tokens.map Token.content := by
      rw [hcontent]
      exact List.mem_filterMap.2 ⟨_, hlexeme, heq⟩
    obtain ⟨token, htoken, hcontent⟩ := List.mem_map.1 hmem
    obtain ⟨hkind, rfl⟩ := Prod.mk.inj hcontent
    apply h token _ hkind
    rw [tokenize, htokens]
    exact List.mem_append_left _ htoken
  · rfl

/-- A line break separates what is in front of it from what is behind it, if no literal is open
in front of it. -/
theorem tokenize_line {above below : String} (file : String)
    (hfits : byteLength (above ++ "\n" ++ below).toList < UInt32.size)
    (hclosed : ∀ token ∈ tokenize above file,
      token.kind = .illegal → Cause.isOpenLiteral token.text = false) :
    let start := byteLength above.toList
    tokenize (above ++ "\n" ++ below) file =
        (tokenize above file).dropLast ++ ⟨.terminator, "\n", .between file start (start + 1)⟩ ::
          (tokenize below file).map (Token.shift (start + 1)) ∧
      (Span.between file start (start + 1)).Covers file start (start + 1) ∧
      ShiftsExactly file (start + 1) (tokenize below file) := by
  intro start
  have htext : (above ++ "\n" ++ below).toList = above.toList ++ '\n' :: below.toList := by simp
  rw [htext, Text.byteLength_append] at hfits
  change start + (1 + byteLength below.toList) < UInt32.size at hfits
  refine ⟨?_, Span.between_covers (by omega) (by omega), shiftsExactly_tokenize file (by omega)⟩
  have hcut : CutBefore ('\n' :: below.toList) above.toList (ofSource above.toList) := by
    apply (Lexeme.cutBefore_ofSource above.toList).exchange
    · rintro lexeme - d hd
      exact .inr (.inl (Option.some.inj hd).symm)
    · exact fun _ _ => not_isOpenLiteral hclosed
  have hline : ofSource ('\n' :: below.toList) =
      .verbatim .terminator ['\n'] :: ofSource below.toList :=
    @Lexeme.ofSource_of_first '\n' [] below.toList _ rfl
  rw [Token.map_shift_tokenize, tokenize, htext, hcut.ofSource_append, Token.ofLexemes_append,
    hcut.flatMap_written, hline, Token.ofLexemes_cons, Nat.zero_add]
  rfl

/-- A closed literal runs over a line break, and a comment with a quote in it ends at one. -/
theorem tokenize_line_of_comment :
    let above := "\"a\n\" é # \""
    let start := byteLength above.toList
    byteLength (above ++ "\n" ++ "x\"").toList < UInt32.size ∧
      (∀ token ∈ tokenize above "shell",
        token.kind = .illegal → Cause.isOpenLiteral token.text = false) ∧
      tokenize (above ++ "\n" ++ "x\"") "shell" =
        (tokenize above "shell").dropLast ++
          ⟨.terminator, "\n", .between "shell" start (start + 1)⟩ ::
            (tokenize "x\"" "shell").map (Token.shift (start + 1)) := by
  intro above start
  have hfits : byteLength (above ++ "\n" ++ "x\"").toList < UInt32.size := by decide +kernel
  have hclosed : ∀ token ∈ tokenize above "shell",
      token.kind = .illegal → Cause.isOpenLiteral token.text = false := by decide +kernel
  exact ⟨hfits, hclosed, (tokenize_line "shell" hfits hclosed).1⟩

end lines

section padding

variable {file : String} {offset : Nat} {before after gap : List Char} {lexemes : List Lexeme}

theorem ofLexemes_gap (hgap : ∀ d ∈ gap, isGap d) :
    Token.ofLexemes file offset (ofSource (gap ++ after)) =
      Token.ofLexemes file (offset + byteLength gap) (ofSource after) := by
  induction gap generalizing offset with
  | nil => rfl
  | cons d gap ih =>
    obtain ⟨hd, hgap⟩ := List.forall_mem_cons.1 hgap
    rw [Text.byteLength_cons, ← Nat.add_assoc, ← ih hgap]
    obtain ⟨run, rest, hsource, ⟨rfl, hrest⟩ | hrest⟩ := Lexeme.ofSource_gap hd (gap ++ after)
    · rw [List.cons_append, hsource, hrest]
      rfl
    · rw [List.cons_append, hsource, hrest, Token.ofLexemes_cons, Token.ofLexemes_cons,
        Nat.add_assoc]
      rfl

theorem ofLexemes_filler_gap {c : Char} {others : List Char}
    (hfirst : Lexeme.first c (others ++ after) = ⟨c :: others, none⟩) (hgap : ∀ d ∈ gap, isGap d) :
    Token.ofLexemes file offset (ofSource (c :: (others ++ (gap ++ after)))) =
      Token.ofLexemes file (offset + byteLength (c :: others) + byteLength gap)
        (ofSource after) := by
  rcases Lexeme.isGap_or_comment hfirst with hc | rfl
  · have hrun : (others ++ after).takeWhile isGap = others := by
      rw [first_of_isGap hc] at hfirst
      exact (List.cons.inj (congrArg Lexeme.written hfirst)).2
    have hothers : ∀ d ∈ c :: others, isGap d :=
      List.forall_mem_cons.2 ⟨hc, (of_takeWhile_append hrun).1⟩
    have hall : ∀ d ∈ c :: others ++ gap, isGap d := fun d hd =>
      (List.mem_append.1 hd).elim (hothers d) (hgap d)
    have htokens := @ofLexemes_gap file offset after _ hall
    rw [List.append_assoc, Text.byteLength_append, ← Nat.add_assoc] at htokens
    exact htokens
  · have hline : (others ++ after).takeWhile (· ≠ '\n') = others := by
      rw [first_comment] at hfirst
      exact (List.cons.inj (congrArg Lexeme.written hfirst)).2
    obtain ⟨hothers, hafter⟩ := of_takeWhile_append hline
    have hcomment : Lexeme.first '#' (others ++ gap ++ after) = ⟨'#' :: (others ++ gap), none⟩ := by
      rw [first_comment, takeWhile_append_of_head? _ hafter]
      · rfl
      · intro d hd
        rcases List.mem_append.1 hd with hd | hd
        · exact hothers d hd
        · exact decide_eq_true (ne_of_isTrue (hgap d hd) (by decide))
    rw [← List.append_assoc, Lexeme.ofSource_of_first hcomment, Token.ofLexemes_cons,
      ← List.cons_append, Text.byteLength_append, ← Nat.add_assoc]
    rfl

theorem Lexeme.CutBefore.ofLexemes_gap (h : CutBefore after before lexemes) (hafter : after ≠ [])
    (hgap : ∀ d ∈ gap, isGap d) :
    Token.ofLexemes file offset (ofSource (before ++ (gap ++ after))) =
      (Token.ofLexemes file offset lexemes).dropLast ++
        Token.ofLexemes file (offset + byteLength before + byteLength gap) (ofSource after) := by
  induction h generalizing offset with
  | nil => exact ShellFrontend.ofLexemes_gap hgap
  | @cons c others text token lexemes hfirst tail ih =>
    by_cases hfiller : text = [] ∧ token = none
    · obtain ⟨rfl, rfl⟩ := hfiller
      cases tail
      rw [List.append_nil]
      exact ofLexemes_filler_gap hfirst hgap
    · have hnext : Exchanges ⟨c :: others, token⟩ (text ++ after) (text ++ (gap ++ after)) := by
        constructor
        · cases text with
          | cons => exact fun d hd => .inl hd
          | nil =>
            cases gap with
            | nil => exact fun d hd => .inl hd
            | cons e gap =>
              intro d hd
              obtain rfl := Option.some.inj hd
              exact .inr (.inr ⟨hgap e List.mem_cons_self, fun hnone => hfiller ⟨rfl, hnone⟩⟩)
        · exact fun hnil => absurd (List.append_eq_nil_iff.1 hnil).2 hafter
      have hfirst' := first_exchange hfirst hnext
      rw [List.cons_append, List.append_assoc, ofSource_of_first hfirst', Token.ofLexemes_cons,
        Token.ofLexemes_cons, ih, List.dropLast_append_of_ne_nil (Token.ofLexemes_ne_nil _ _ _),
        List.append_assoc, ← List.cons_append, Text.byteLength_append, Nat.add_assoc offset]

theorem Token.exists_cut_of_mem {source : List Char} {token : Token}
    (h : token ∈ ofLexemes file offset (ofSource source)) :
    ∃ before after lexemes, source = before ++ after ∧ CutBefore after before lexemes ∧
      token.span.start = ⟨UInt32.ofNat (offset + byteLength before), file⟩ ∧
      (∀ c ∈ after.head?, isGap c = false) ∧ (token.kind ≠ .endOfInput → after ≠ []) := by
  fun_induction ofSource source generalizing offset with
  | case1 =>
    obtain rfl := List.mem_singleton.1 h
    exact ⟨[], [], [], rfl, .nil, rfl, by simp, fun hkind => absurd rfl hkind⟩
  | case2 c rest ih =>
    obtain ⟨others, text, content?, rfl, hfirst⟩ := Lexeme.exists_first_eq c rest
    rw [hfirst, List.tail_cons, List.drop_left] at h ih
    rw [ofLexemes_cons, List.mem_append, Option.mem_toList] at h
    rcases h with h | h
    · obtain ⟨content, hcontent, rfl⟩ := Option.map_eq_some_iff.1 h
      have hgap : isGap c = false := by
        rw [← Bool.not_eq_true]
        intro hgap
        rw [first_of_isGap hgap] at hfirst
        obtain rfl : none = content? := congrArg Lexeme.token hfirst
        cases hcontent
      exact ⟨[], c :: (others ++ text), [], rfl, .nil, rfl, by simpa using hgap,
        fun _ => List.cons_ne_nil _ _⟩
    · obtain ⟨before, after, lexemes, rfl, hcut, hstart, hafter⟩ := ih h
      refine ⟨c :: (others ++ before), after, _, ?_, .cons hfirst hcut, ?_, hafter⟩
      · rw [List.cons_append, List.append_assoc]
      · rw [hstart, ← List.cons_append, Text.byteLength_append, Nat.add_assoc]

theorem exists_cut_of_mem_tokenize {source : String} {token : Token}
    (htoken : token ∈ tokenize source file) (hfits : byteLength source.toList < UInt32.size) :
    ∃ before after : String, source = before ++ after ∧
      byteLength before.toList = token.span.start.offset.toNat ∧
      (∃ lexemes, CutBefore after.toList before.toList lexemes) ∧
      (∀ c ∈ after.toList.head?, isGap c = false) ∧
      (token.kind ≠ .endOfInput → after.toList ≠ []) := by
  obtain ⟨before, after, lexemes, hsource, hcut, hstart, hafter⟩ := Token.exists_cut_of_mem htoken
  rw [hsource, Text.byteLength_append] at hfits
  refine ⟨String.ofList before, String.ofList after, ?_, ?_, ⟨lexemes, ?_⟩, ?_⟩
  · rw [← String.ofList_append, ← hsource, String.ofList_toList]
  · rw [hstart, String.toList_ofList, Nat.zero_add]
    exact (UInt32.toNat_ofNat_of_lt' (by omega)).symm
  · rwa [String.toList_ofList, String.toList_ofList]
  · rwa [String.toList_ofList]

theorem Lexeme.CutBefore.tokenize_gap {before gap after : String} {lexemes : List Lexeme}
    (h : CutBefore after.toList before.toList lexemes) (hafter : after.toList ≠ [])
    (hgap : ∀ d ∈ gap.toList, isGap d) (file : String) :
    tokenize (before ++ gap ++ after) file = (tokenize before file).dropLast ++
      (tokenize after file).map
        (Token.shift (byteLength before.toList + byteLength gap.toList)) := by
  have hbefore : ofSource before.toList = lexemes := by
    have halone : CutBefore [] before.toList lexemes := h.exchange (by simp) (by simp)
    have hsource := halone.ofSource_append
    rwa [List.append_nil, ofSource, List.append_nil] at hsource
  have htokens :
      Token.ofLexemes file 0 (ofSource (before.toList ++ (gap.toList ++ after.toList))) = _ :=
    h.ofLexemes_gap hafter hgap
  rw [Nat.zero_add, ← hbefore] at htokens
  rw [Token.map_shift_tokenize, tokenize, tokenize, String.toList_append, String.toList_append,
    List.append_assoc]
  exact htokens

/-- Blanks in front of a token change nothing of what is in front of them and behind. -/
theorem tokenize_padded {source file gap : String} {token : Token}
    (htoken : token ∈ tokenize source file) (hkind : token.kind ≠ .endOfInput)
    (hgap : ∀ c ∈ gap.toList, c ∈ [' ', '\t', '\r'])
    (hfits : byteLength source.toList + byteLength gap.toList < UInt32.size) :
    ∃ before after, source = before ++ after ∧
      byteLength before.toList = token.span.start.offset.toNat ∧
      let count := byteLength before.toList + byteLength gap.toList
      tokenize (before ++ gap ++ after) file =
          (tokenize before file).dropLast ++ (tokenize after file).map (Token.shift count) ∧
        ShiftsExactly file count (tokenize after file) ∧
        (tokenize (before ++ gap ++ after) file).map Token.content =
          (tokenize source file).map Token.content := by
  obtain ⟨before, after, hsource, hstart, ⟨lexemes, hcut⟩, -, hafter⟩ :=
    exists_cut_of_mem_tokenize htoken (Nat.lt_of_add_right_lt hfits)
  have hgap' : ∀ d ∈ gap.toList, isGap d := fun d hd => by
    simpa [isGap, or_assoc] using hgap d hd
  have htokens := hcut.tokenize_gap (hafter hkind) hgap' file
  refine ⟨before, after, hsource, hstart, htokens, ?_, ?_⟩
  · apply shiftsExactly_tokenize
    rw [hsource, String.toList_append, Text.byteLength_append] at hfits
    omega
  · -- Without any blanks the tokens are those of the source.
    have hplain : tokenize (before ++ "" ++ after) file = _ :=
      hcut.tokenize_gap (hafter hkind) (by simp) file
    rw [String.append_empty, ← hsource] at hplain
    rw [htokens, hplain, List.map_append, List.map_append, List.map_map, List.map_map]
    rfl

/-- A comment takes the blanks in front of its line break. -/
theorem tokenize_padded_of_comment :
    let source := "x #é\n="
    let token : Token := ⟨.terminator, "\n", .between "shell" 5 6⟩
    token ∈ tokenize source "shell" ∧ token.kind ≠ .endOfInput ∧
      (∀ c ∈ " \t".toList, c ∈ [' ', '\t', '\r']) ∧
      byteLength source.toList + byteLength " \t".toList < UInt32.size ∧
      ∃ before after, source = before ++ after ∧ byteLength before.toList = 5 ∧
        tokenize (before ++ " \t" ++ after) "shell" =
          (tokenize before "shell").dropLast ++ (tokenize after "shell").map (Token.shift 7) := by
  intro source token
  have htoken : token ∈ tokenize source "shell" := by decide +kernel
  have hgap : ∀ c ∈ " \t".toList, c ∈ [' ', '\t', '\r'] := by simp
  have hfits : byteLength source.toList + byteLength " \t".toList < UInt32.size := by decide +kernel
  obtain ⟨before, after, hsource, hstart, htokens, -⟩ :=
    tokenize_padded htoken Kind.noConfusion hgap hfits
  have hbytes : byteLength before.toList = 5 := hstart.trans (by decide)
  rw [hbytes] at htokens
  exact ⟨htoken, Kind.noConfusion, hgap, hfits, before, after, hsource, hbytes, htokens⟩

end padding

end ShellFrontend
