import ShellFrontend.Proofs.Classification
import ShellFrontend.Token.Tokenize

/-! # Tokens tile their source

A source is its tokens, written one after another, with blanks and comments before, between and
behind them. Every token stands for the bytes it was read from, and its first character decides
how many these are.
-/

set_option autoImplicit false

namespace ShellFrontend

open ShellFrontend.Text (isDigit byteLength)

/-- What may hold of a token that starts at a byte offset: the slice it covers and the text
behind the slice. -/
abbrev Standing := Nat → List Char → List Char → Token → Prop

/-- A text that starts at a byte offset is cut into tokens and fillers. -/
inductive Tiles (Stands : Standing) : Nat → List Char → List Token → Prop
  | done {offset : Nat} {filler : List Char} (hfiller : IsFiller filler) :
      Tiles Stands offset filler []
  | token {offset : Nat} {filler slice rest : List Char} {token : Token} {tokens : List Token}
      (hfiller : IsFiller filler) (hslice : slice ≠ [])
      (hstands : Stands (offset + byteLength filler) slice rest token)
      (tail : Tiles Stands (offset + byteLength filler + byteLength slice) rest tokens) :
      Tiles Stands offset (filler ++ (slice ++ rest)) (token :: tokens)

namespace Tiles

variable {Stands Stands' : Standing} {offset : Nat} {text : List Char} {tokens : List Token}

theorem skip {filler : List Char} (hfiller : IsFiller filler)
    (h : Tiles Stands (offset + byteLength filler) text tokens) :
    Tiles Stands offset (filler ++ text) tokens := by
  cases h with
  | done hmore => exact .done (hfiller.append hmore)
  | token hmore hslice hstands tail =>
    rw [Nat.add_assoc offset, ← Text.byteLength_append] at hstands tail
    rw [← List.append_assoc]
    exact .token (hfiller.append hmore) hslice hstands tail

theorem mono {total : Nat} (htotal : offset + byteLength text = total)
    (hstands : ∀ {offset slice rest token}, offset + byteLength slice + byteLength rest = total →
      Stands offset slice rest token → Stands' offset slice rest token)
    (h : Tiles Stands offset text tokens) : Tiles Stands' offset text tokens := by
  induction h with
  | done hfiller => exact .done hfiller
  | token hfiller hslice hstand tail ih =>
    simp only [Text.byteLength_append] at htotal
    exact .token hfiller hslice (hstands (by omega) hstand) (ih (by omega))

theorem forall_mem {P : Token → Prop} (h : Tiles Stands offset text tokens)
    (hstands : ∀ {offset slice rest token}, Stands offset slice rest token → P token) :
    ∀ token ∈ tokens, P token := by
  induction h with
  | done => simp
  | token _ _ hstand _ ih => exact List.forall_mem_cons.2 ⟨hstands hstand, ih⟩

end Tiles

/-- A token with the span of its slice, classified by its first character and spelled as written. -/
structure Reading (file : String) (offset : Nat) (slice rest : List Char) (token : Token) :
    Prop where
  span : token.span = Span.between file offset (offset + byteLength slice)
  classified : ∃ c others, slice = c :: others ∧ Classified c others rest token.kind
  spelled : Spelled slice token.kind token.text

theorem ofLexemes_tiles (file : String) (offset : Nat) (source : List Char) :
    ∃ tokens, Token.ofLexemes file offset (Lexeme.ofSource source) =
        tokens ++ [.endMarker ⟨UInt32.ofNat (offset + byteLength source), file⟩] ∧
      Tiles (Reading file) offset source tokens := by
  fun_induction Lexeme.ofSource source generalizing offset with
  | case1 => exact ⟨[], rfl, .done .nil⟩
  | case2 c rest ih =>
    obtain ⟨more, hscans⟩ := scans_first c rest
    generalize Lexeme.first c rest = lexeme at hscans ih ⊢
    cases hscans with
    | @filler others _ hfiller =>
      rw [Lexeme.skipped, List.tail_cons, List.drop_left] at ih ⊢
      obtain ⟨tokens, htokens, htiles⟩ := ih (offset + byteLength (c :: others))
      refine ⟨tokens, ?_, htiles.skip hfiller⟩
      rw [← List.cons_append, Text.byteLength_append, ← Nat.add_assoc]
      exact htokens
    | @token others _ kind text hclassified hspelled =>
      rw [List.tail_cons, List.drop_left] at ih ⊢
      obtain ⟨tokens, htokens, htiles⟩ := ih (offset + byteLength (c :: others))
      refine ⟨⟨kind, text, .between file offset (offset + byteLength (c :: others))⟩ :: tokens,
        ?_, ?_⟩
      · rw [← List.cons_append, Text.byteLength_append, ← Nat.add_assoc]
        exact congrArg (List.cons _) htokens
      · exact Tiles.token .nil (List.cons_ne_nil c others)
          ⟨rfl, ⟨c, others, rfl, hclassified⟩, hspelled⟩ htiles

theorem tokenize_tiles (source file : String) :
    ∃ tokens, tokenize source file =
        tokens ++ [.endMarker ⟨UInt32.ofNat (byteLength source.toList), file⟩] ∧
      Tiles (Reading file) 0 source.toList tokens := by
  have h := ofLexemes_tiles file 0 source.toList
  rwa [Nat.zero_add] at h

/-- A token covers its slice, whose first character decides where the slice ends and what kind
it is of. -/
structure Classifies (file : String) (offset : Nat) (slice rest : List Char) (token : Token) :
    Prop where
  span : token.span = Span.between file offset (offset + byteLength slice)
  classified : ∃ c others, slice = c :: others ∧ Classified c others rest token.kind ∧
    (token.kind = .illegal → IsIllegal c others rest)

/-- Trying the rules in the order of their table comes to the same as asking the first character
what it begins and taking as much of that as there is. -/
theorem tokenize_classifies (source file : String) :
    ∃ tokens final, tokenize source file = tokens ++ [.endMarker final] ∧
      Tiles (Classifies file) 0 source.toList tokens := by
  obtain ⟨tokens, htokens, htiles⟩ := tokenize_tiles source file
  refine ⟨tokens, _, htokens, htiles.mono rfl fun _ h => ⟨h.span, ?_⟩⟩
  obtain ⟨c, others, hslice, hclassified⟩ := h.classified
  exact ⟨c, others, hslice, hclassified, fun hkind => Classified.isIllegal (hkind ▸ hclassified)⟩

structure Span.Covers (span : Span) (file : String) (start stop : Nat) : Prop where
  startFile : span.start.file = file
  stopFile : span.stop.file = file
  start : span.start.offset.toNat = start
  stop : span.stop.offset.toNat = stop

theorem Span.between_covers {file : String} {start stop : Nat} (hle : start ≤ stop)
    (hfits : stop < UInt32.size) : (between file start stop).Covers file start stop where
  startFile := rfl
  stopFile := rfl
  start := UInt32.toNat_ofNat_of_lt' (Nat.lt_of_le_of_lt hle hfits)
  stop := UInt32.toNat_ofNat_of_lt' hfits

/-- A token covers its slice and says what is written there. -/
structure Keeps (file : String) (offset : Nat) (slice rest : List Char) (token : Token) : Prop where
  covers : token.span.Covers file offset (offset + byteLength slice)
  spelled : Spelled slice token.kind token.text

namespace Tiles

variable {file : String} {offset : Nat} {text : List Char} {tokens : List Token}

theorem le_start (h : Tiles (Keeps file) offset text tokens) :
    ∀ token ∈ tokens, offset ≤ token.span.start.offset.toNat := by
  induction h with
  | done => simp
  | token _ _ hstand _ ih =>
    refine List.forall_mem_cons.2 ⟨?_, fun token htoken => ?_⟩
    · rw [hstand.covers.start]
      exact Nat.le_add_right _ _
    · exact Nat.le_trans (by omega) (ih token htoken)

theorem pairwise_stop_le_start (h : Tiles (Keeps file) offset text tokens) :
    tokens.Pairwise fun a b => a.span.stop.offset ≤ b.span.start.offset := by
  induction h with
  | done => exact .nil
  | token _ _ hstand tail ih =>
    refine List.pairwise_cons.2 ⟨fun token htoken => ?_, ih⟩
    rw [UInt32.le_iff_toNat_le, hstand.covers.stop]
    exact tail.le_start token htoken

end Tiles

/-- The scanner loses and invents nothing: in order and apart, its tokens say what is written in
their slices, and between the slices are only blanks and comments. -/
theorem tokenize_keeps {source : String} (file : String)
    (hfits : byteLength source.toList < UInt32.size) :
    ∃ tokens final, tokenize source file = tokens ++ [.endMarker final] ∧
      (Token.endMarker final).span.Covers file (byteLength source.toList)
        (byteLength source.toList) ∧
      (∀ token ∈ tokens, token.kind ≠ .endOfInput) ∧
      (tokens.Pairwise fun a b => a.span.stop.offset ≤ b.span.start.offset) ∧
      Tiles (Keeps file) 0 source.toList tokens := by
  obtain ⟨tokens, htokens, htiles⟩ := tokenize_tiles source file
  have hkind : ∀ token ∈ tokens, token.kind ≠ .endOfInput := by
    refine htiles.forall_mem fun h => ?_
    obtain ⟨c, others, -, hclassified⟩ := h.classified
    exact hclassified.kind_ne_endOfInput
  have hkeeps : Tiles (Keeps file) 0 source.toList tokens := by
    refine htiles.mono (Nat.zero_add _) fun htotal h => ⟨?_, h.spelled⟩
    rw [h.span]
    exact Span.between_covers (Nat.le_add_right _ _) (by omega)
  exact ⟨tokens, _, htokens, Span.between_covers (Nat.le_refl _) hfits, hkind,
    hkeeps.pairwise_stop_le_start, hkeeps⟩

theorem tokenize_keeps_of_wide_literal :
    byteLength "let é = \"ü\\n\" # ß".toList < UInt32.size ∧
      ∃ tokens final, tokenize "let é = \"ü\\n\" # ß" "shell" = tokens ++ [.endMarker final] ∧
        (Token.endMarker final).span.Covers "shell" 20 20 ∧
        (∀ token ∈ tokens, token.kind ≠ .endOfInput) ∧
        (tokens.Pairwise fun a b => a.span.stop.offset ≤ b.span.start.offset) ∧
        Tiles (Keeps "shell") 0 "let é = \"ü\\n\" # ß".toList tokens :=
  ⟨by decide +kernel, tokenize_keeps "shell" (by decide +kernel)⟩

end ShellFrontend
