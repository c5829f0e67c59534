import ShellFrontend.Proofs.Passage
import ShellFrontend.Token.Tokenize

/-! # Tokens in source order

The tokens of a source start at ever higher bytes, and an end marker is the last of them.
-/

set_option autoImplicit false

namespace ShellFrontend

def Token.offset (token : Token) : UInt32 := token.span.start.offset

namespace Token

variable {file : String} {offset : Nat} {lexemes : List Lexeme}

theorem le_offset_of_mem_ofLexemes {token : Token}
    (hfits : offset + Text.byteLength (lexemes.flatMap Lexeme.written) < UInt32.size)
    (h : token ∈ ofLexemes file offset lexemes) : offset ≤ token.offset.toNat := by
  induction lexemes generalizing offset with
  | nil =>
    obtain rfl := List.mem_singleton.1 h
    exact Nat.le_of_eq (UInt32.toNat_ofNat_of_lt' hfits).symm
  | cons lexeme rest ih =>
    simp only [List.flatMap_cons, Text.byteLength_append] at hfits
    have hrest : offset + Text.byteLength lexeme.written +
        Text.byteLength (rest.flatMap Lexeme.written) < UInt32.size := by omega
    unfold ofLexemes at h
    dsimp only at h
    split at h
    · exact Nat.le_of_add_right_le (ih hrest h)
    · rcases List.mem_cons.1 h with rfl | h
      · exact Nat.le_of_eq (UInt32.toNat_ofNat_of_lt' (by omega)).symm
      · exact Nat.le_of_add_right_le (ih hrest h)

theorem ofLexemes_offsets_increase (hwritten : ∀ lexeme ∈ lexemes, lexeme.written ≠ [])
    (hfits : offset + Text.byteLength (lexemes.flatMap Lexeme.written) < UInt32.size) :
    (ofLexemes file offset lexemes).Pairwise fun a b => a.offset < b.offset := by
  induction lexemes generalizing offset with
  | nil => exact List.pairwise_singleton _ _
  | cons lexeme rest ih =>
    simp only [List.flatMap_cons, Text.byteLength_append] at hfits
    have hrest : offset + Text.byteLength lexeme.written +
        Text.byteLength (rest.flatMap Lexeme.written) < UInt32.size := by omega
    have hsorted := ih (fun lexeme h => hwritten lexeme (List.mem_cons_of_mem _ h)) hrest
    unfold ofLexemes
    dsimp only
    split
    · exact hsorted
    · refine List.pairwise_cons.2 ⟨fun token h => ?_, hsorted⟩
      have hpositive : 0 < Text.byteLength lexeme.written := by
        obtain ⟨c, more, hmore⟩ := List.exists_cons_of_ne_nil (hwritten lexeme List.mem_cons_self)
        have := c.utf8Size_pos
        rw [hmore, Text.byteLength_cons]
        omega
      have hle := le_offset_of_mem_ofLexemes hrest h
      have hoffset : (UInt32.ofNat offset).toNat = offset := UInt32.toNat_ofNat_of_lt' (by omega)
      rw [UInt32.lt_iff_toNat_lt]
      change (UInt32.ofNat offset).toNat < token.offset.toNat
      omega

theorem exists_endOfInput_ofLexemes (file : String) (offset : Nat) (lexemes : List Lexeme) :
    ∃ token ∈ ofLexemes file offset lexemes, token.kind = .endOfInput := by
  fun_induction ofLexemes file offset lexemes with
  | case1 => exact ⟨_, List.mem_singleton_self _, rfl⟩
  | case2 _ _ _ _ _ ih => exact ih
  | case3 _ _ _ _ _ _ _ ih =>
    obtain ⟨token, h, hend⟩ := ih
    exact ⟨token, List.mem_cons_of_mem _ h, hend⟩

end Token

theorem Lexeme.written_ne_nil {source : List Char} {lexeme : Lexeme} (h : lexeme ∈ ofSource source) :
    lexeme.written ≠ [] := by
  fun_induction ofSource source with
  | case1 => cases h
  | case2 c rest ih =>
    rcases List.mem_cons.1 h with rfl | h
    · obtain ⟨more, hwritten, -⟩ := written_first c rest
      rw [hwritten]
      exact List.cons_ne_nil _ _
    · exact ih h

/-- Tokens that end with an end marker and start at ever higher bytes. -/
structure InSourceOrder (tokens : List Token) : Prop where
  ends : ∃ token ∈ tokens, token.kind = .endOfInput
  increase : tokens.Pairwise fun a b => a.offset < b.offset

theorem tokenize_inSourceOrder {source : String} (file : String)
    (h : Text.byteLength source.toList < UInt32.size) : InSourceOrder (tokenize source file) where
  ends := Token.exists_endOfInput_ofLexemes _ _ _
  increase := by
    apply Token.ofLexemes_offsets_increase (fun lexeme => Lexeme.written_ne_nil)
    rwa [Lexeme.flatMap_written_ofSource, Nat.zero_add]

end ShellFrontend
