import SearchQuery.Proofs.Spelling

/-!
# SearchQuery.Proofs.Writing

A text for every list of tokens.

A backslash takes from a character whatever it would mean where it stands. It then begins no other
token and ends no word, a word made of such characters is no keyword, and a digit among them does not
draw a sign to itself. Phrases are written as they are printed, and all other tokens are their own
names. With blanks between them no two tokens run together.

* `spell`               — the text.
* `LexesTo.spelling`    — one token, read back where a word may end.
* `term_ne_of_tokenize` — no text has an empty word among its tokens.
* `tokenize_spell_iff`  — the tokens are read back, unless one of them is such a word.
-/

namespace SearchQuery

/-- A token as it can be written anywhere. -/
def Token.spelling : Token → String
  | .term s => String.ofList (Text.escape (fun _ => true) s.toList)
  | .phrase s => phraseText s
  | t => t.text

/-- Tokens with blanks between them. -/
def spell (ts : List Token) : String :=
  " ".intercalate (ts.map Token.spelling)

/-! ## One token -/

theorem readWord_escaped (c : Char) (cs : List Char) {rest : List Char} (hrest : EndsWord rest) :
    readWord (Text.escape (fun _ => true) (c :: cs) ++ rest) = some ⟨c :: cs, true, rest⟩ := by
  induction cs generalizing c with
  | nil =>
    show readWord ('\\' :: c :: rest) = _
    rw [readWord.eq_def]
    simp only [if_true, readWord_of_endsWord hrest, Option.map_some]
  | cons d ds ih =>
    show readWord ('\\' :: c :: (Text.escape (fun _ => true) (d :: ds) ++ rest)) = _
    rw [readWord.eq_def]
    simp only [if_true, ih d, Option.map_some]

theorem LexesTo.spelling {t : Token} {rest : List Char} {ts : List Token} (ht : t ≠ .term "")
    (hrest : EndsWord rest) (h : LexesTo (t == .colon) rest ts) :
    LexesTo false (t.spelling.toList ++ rest) (t :: ts) := by
  cases t with
  | term s =>
    cases hs : s.toList with
    | nil => exact absurd (congrArg Token.term (String.toList_eq_nil_iff.1 hs)) ht
    | cons c cs =>
      have hread := readWord_escaped c cs hrest
      have hscan : scan false '\\' (c :: (Text.escape (fun _ => true) cs ++ rest)) =
          .ok (.term s, rest) := by
        show scanWord (Text.escape (fun _ => true) (c :: cs) ++ rest) = _
        rw [scanWord_of_readWord hread (List.cons_ne_nil c cs), ← String.ofList_toList (s := s), hs]
        rfl
      rw [Token.spelling, String.toList_ofList, hs]
      exact LexesTo.token (by decide) hscan h
  | phrase s => exact LexesTo.phrase s h
  | sign o => exact LexesTo.sign o h
  | not => exact LexesTo.not hrest h
  | join op => exact LexesTo.join op hrest h
  | «to» => exact LexesTo.rangeTo hrest h
  | compare comparison =>
    -- what follows is no equals sign, which would be part of the token
    have hopen : rest.head? ≠ some '=' := hrest.head?_ne (by decide)
    cases comparison with
    | gt => exact LexesTo.token (by decide) (congrArg _ (scanComparison_open .gt .ge hopen)) h
    | ge => exact LexesTo.token (by decide) rfl h
    | lt => exact LexesTo.token (by decide) (congrArg _ (scanComparison_open .lt .le hopen)) h
    | le => exact LexesTo.token (by decide) rfl h
  | colon => exact LexesTo.token (by decide) rfl h
  | openParen => exact LexesTo.token (by decide) rfl h
  | closeParen => exact LexesTo.token (by decide) rfl h
  | openRange inclusive => cases inclusive <;> exact LexesTo.token (by decide) rfl h
  | closeRange inclusive => cases inclusive <;> exact LexesTo.token (by decide) rfl h

/-! ## All tokens -/

theorem lexesTo_spell {ts : List Token} (h : Token.term "" ∉ ts) :
    LexesTo false (spell ts).toList ts := by
  induction ts with
  | nil => exact LexesTo.nil
  | cons t ts ih =>
    obtain ⟨ht, hts⟩ : Token.term "" ≠ t ∧ Token.term "" ∉ ts := by simpa using h
    cases ts with
    | nil =>
      have hlast : LexesTo false (t.spelling.toList ++ []) [t] :=
        LexesTo.spelling ht.symm endsWord_nil LexesTo.nil
      simpa [spell] using hlast
    | cons u us =>
      have hchars : (spell (t :: u :: us)).toList =
          t.spelling.toList ++ ' ' :: (spell (u :: us)).toList := by
        simp [spell, String.intercalate_cons_cons]
      rw [hchars]
      exact LexesTo.spelling ht.symm (endsWord_cons _ (by decide)) (LexesTo.blank (by decide) (ih hts))

theorem term_ne_of_tokenize {text : String} {ts : List Token} (h : tokenize text = .ok ts) :
    Token.term "" ∉ ts := by
  have hlexemes : ∀ (l : Lexer) {ts : List Token}, l.lexemes.mapM Lexeme.token = .ok ts →
      Token.term "" ∉ ts := by
    intro l ts hts
    fun_induction Lexer.lexemes l generalizing ts with
    | case1 l l' hnext =>
      obtain rfl : ts = [] := (Except.ok.inj hts).symm
      exact List.not_mem_nil
    | case2 l x l' hnext ih =>
      obtain ⟨t, us, hx, hus, rfl⟩ := mapM_token_cons hts
      obtain ⟨start, token⟩ := x
      obtain rfl : token = .ok t := hx
      intro hmem
      rcases List.mem_cons.1 hmem with rfl | hmem
      · exact Lexer.next_term_ne hnext rfl
      · exact ih hus hmem
  exact hlexemes _ h

/-- A list of tokens is read back from the text that is written for it, whatever the texts of its words
and phrases are. Only an empty word is not, which no text has among its tokens. -/
theorem tokenize_spell_iff (ts : List Token) : tokenize (spell ts) = .ok ts ↔ Token.term "" ∉ ts :=
  ⟨term_ne_of_tokenize, fun h => (lexesTo_spell h).tokenize⟩

/-- A keyword, a boundary and a signed digit after a colon, each kept apart by its backslashes. -/
theorem tokenize_spell_iff_special :
    let ts : List Token :=
      [.term "AND", .colon, .sign .prohibited, .term "5", .join .or, .term "a: ", .compare .gt,
        .phrase "\"\\"]
    spell ts = "\\A\\N\\D : - \\5 OR \\a\\:\\  > \"\\\"\\\\\"" ∧ tokenize (spell ts) = .ok ts := by
  intro ts
  exact ⟨by decide +kernel, (tokenize_spell_iff ts).2 (by decide)⟩

end SearchQuery
