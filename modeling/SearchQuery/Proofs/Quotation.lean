import Mathlib.Control.Monad.Basic
import SearchQuery.Filter.Compile
import SearchQuery.Proofs.Spelling

/-!
# SearchQuery.Proofs.Quotation

When a text in quotes is read back as itself.

With a backslash before every quote and every backslash it always is. A writer that leaves one of the
two out is right only about the texts in which the character does not occur: the reader takes a bare
backslash for an escape, so it gets a shorter text or runs over the closing quote.

* `readQuoted_bare_iff`   — a text written as it is.
* `readQuoted_shortens`   — a text of which only the quotes are escaped.
* `words_phrase_iff`      — the query of a phrase that is searched as words.
* `words_phrase_injected` — a phrase whose text is read as a phrase and more.
-/

namespace SearchQuery

/-! ## One character -/

namespace Text

theorem escape_eq_self {special : Char → Bool} {cs : List Char}
    (h : ∀ c ∈ cs, special c = false) : escape special cs = cs := by
  induction cs with
  | nil => rfl
  | cons c cs ih =>
    rw [List.forall_mem_cons] at h
    rw [escape, h.1, if_neg (by simp), ih h.2]

theorem escape_congr {special special' : Char → Bool} {cs : List Char}
    (h : ∀ c ∈ cs, special c = special' c) : escape special cs = escape special' cs := by
  induction cs with
  | nil => rfl
  | cons c cs ih =>
    rw [List.forall_mem_cons] at h
    rw [escape, escape, h.1, ih h.2]

theorem readQuoted_delim (delim : Char) (cs : List Char) :
    readQuoted delim (delim :: cs) = some ([], cs) := by
  rw [readQuoted.eq_def]
  simp only [if_true]

theorem readQuoted_escaped {delim : Char} (hdelim : delim ≠ '\\') (c : Char) (cs : List Char) :
    readQuoted delim ('\\' :: c :: cs) =
      (readQuoted delim cs).map fun (body, rest) => (c :: body, rest) := by
  rw [readQuoted.eq_def]
  simp only [hdelim.symm, if_false, if_true]

theorem readQuoted_plain {delim c : Char} (hc : c ≠ delim) (hslash : c ≠ '\\') (cs : List Char) :
    readQuoted delim (c :: cs) =
      (readQuoted delim cs).map fun (body, rest) => (c :: body, rest) := by
  rw [readQuoted.eq_def]
  simp only [hc, hslash, if_false]

/-! ## Texts written as they are -/

/-- What is read, `body`, is no longer than what was written, and shorter if that has a backslash. -/
def Shortens (body cs : List Char) : Prop :=
  body.length ≤ cs.length ∧ ('\\' ∈ cs → body.length < cs.length)

theorem Shortens.nil : Shortens [] [] :=
  ⟨Nat.le_refl _, by simp⟩

theorem Shortens.cons {body cs : List Char} (h : Shortens body cs) {c : Char} (hc : c ≠ '\\') :
    Shortens (c :: body) (c :: cs) := by
  obtain ⟨hle, hlt⟩ := h
  refine ⟨Nat.succ_le_succ hle, fun hmem => Nat.succ_lt_succ (hlt ?_)⟩
  exact (List.mem_cons.1 hmem).resolve_left hc.symm

/-- A backslash and the character after it are read as one character. -/
theorem Shortens.slash {body cs : List Char} (h : Shortens body cs) (c d : Char) :
    Shortens (c :: body) ('\\' :: d :: cs) := by
  obtain ⟨hle, -⟩ := h
  simp only [Shortens, List.length_cons]
  omega

/-- Up to the first quote the reader never gets ahead of the text, unless it took that quote for a
character. -/
theorem readQuoted_to_delim {delim : Char} (hdelim : delim ≠ '\\') :
    ∀ (cs : List Char) {tail body rest : List Char}, delim ∉ cs →
      readQuoted delim (cs ++ delim :: tail) = some (body, rest) →
      Shortens body cs ∨ ∃ front back, body = front ++ delim :: back ∧ front.length < cs.length
  | [], tail, body, rest, _, h => by
    rw [List.nil_append, readQuoted_delim] at h
    cases h
    exact .inl .nil
  | c :: cs, tail, body, rest, hcs, h => by
    obtain ⟨hc, hrest⟩ : delim ≠ c ∧ delim ∉ cs := by simpa using hcs
    by_cases hslash : c = '\\'
    · subst hslash
      cases cs with
      | nil =>
        -- the backslash is the last character and hides the closing quote
        rw [List.cons_append, List.nil_append, readQuoted_escaped hdelim] at h
        obtain ⟨⟨b, r⟩, -, he⟩ := Option.map_eq_some_iff.1 h
        cases he
        exact .inr ⟨[], b, rfl, Nat.zero_lt_one⟩
      | cons d ds =>
        rw [List.cons_append, List.cons_append, readQuoted_escaped hdelim] at h
        obtain ⟨⟨b, r⟩, hr, he⟩ := Option.map_eq_some_iff.1 h
        cases he
        have hds : delim ∉ ds := fun hmem => hrest (List.mem_cons_of_mem d hmem)
        rcases readQuoted_to_delim hdelim ds hds hr with hshort | ⟨front, back, rfl, hlt⟩
        · exact .inl (hshort.slash d d)
        · exact .inr ⟨d :: front, back, rfl, by simp only [List.length_cons]; omega⟩
    · rw [List.cons_append, readQuoted_plain hc.symm hslash] at h
      obtain ⟨⟨b, r⟩, hr, he⟩ := Option.map_eq_some_iff.1 h
      cases he
      rcases readQuoted_to_delim hdelim cs hrest hr with hshort | ⟨front, back, rfl, hlt⟩
      · exact .inl (hshort.cons hslash)
      · exact .inr ⟨c :: front, back, rfl, Nat.succ_lt_succ hlt⟩

/-- A text that is written as it is, and read back as itself, has no quote and no backslash in it. -/
theorem bare_of_readQuoted {delim : Char} (hdelim : delim ≠ '\\') {cs tail rest : List Char}
    (h : readQuoted delim (cs ++ delim :: tail) = some (cs, rest)) : delim ∉ cs ∧ '\\' ∉ cs := by
  have hquote : delim ∉ cs := by
    intro hmem
    obtain ⟨front, back, rfl, hfront⟩ := List.eq_append_cons_of_mem hmem
    rw [List.append_assoc, List.cons_append] at h
    rcases readQuoted_to_delim hdelim front hfront h with ⟨hle, -⟩ | ⟨b, e, hbody, hlt⟩
    · simp only [List.length_append, List.length_cons] at hle
      omega
    · -- the character read at that place is a quote, and the one written there is not
      have hat := congrArg (fun l => l[b.length]?) hbody
      simp only [List.getElem?_append_left hlt, List.getElem?_append_right (Nat.le_refl _),
        Nat.sub_self, List.getElem?_cons_zero] at hat
      exact hfront (List.mem_of_getElem? hat)
  refine ⟨hquote, fun hslash => ?_⟩
  rcases readQuoted_to_delim hdelim cs hquote h with ⟨-, hlt⟩ | ⟨b, e, hbody, -⟩
  · exact Nat.lt_irrefl _ (hlt hslash)
  · exact hquote (by rw [hbody]; simp)

theorem readQuoted_bare_iff {delim : Char} (hdelim : delim ≠ '\\') (cs tail : List Char) :
    readQuoted delim (cs ++ delim :: tail) = some (cs, tail) ↔ delim ∉ cs ∧ '\\' ∉ cs := by
  refine ⟨bare_of_readQuoted hdelim, fun ⟨hquote, hslash⟩ => ?_⟩
  let special : Char → Bool := fun c => c = '\\' || c = delim
  have hplain : ∀ c ∈ cs, special c = false := by
    intro c hc
    simp only [special, Bool.or_eq_false_iff, decide_eq_false_iff_not]
    exact ⟨fun h => hslash (h ▸ hc), fun h => hquote (h ▸ hc)⟩
  have hread := readQuoted_escape delim special (by simp [special]) (by simp [special]) hdelim cs
    tail
  rwa [escape_eq_self hplain] at hread

/-! ## Texts with only their quotes escaped -/

theorem readQuoted_shortens {delim : Char} (hdelim : delim ≠ '\\') :
    ∀ (cs : List Char) {body rest : List Char},
      readQuoted delim (escape (fun c => c = delim) cs ++ [delim]) = some (body, rest) →
      Shortens body cs
  | [], body, rest, h => by
    rw [escape, List.nil_append, readQuoted_delim] at h
    cases h
    exact .nil
  | c :: cs, body, rest, h => by
    rw [escape] at h
    by_cases hc : c = delim
    · subst hc
      rw [if_pos (by simp), List.cons_append, List.cons_append, readQuoted_escaped hdelim] at h
      obtain ⟨⟨b, r⟩, hr, he⟩ := Option.map_eq_some_iff.1 h
      cases he
      exact (readQuoted_shortens hdelim cs hr).cons hdelim
    · rw [if_neg (by simpa using hc), List.cons_append] at h
      by_cases hslash : c = '\\'
      · subst hslash
        cases cs with
        | nil => simp [escape, readQuoted.eq_def, hc] at h
        | cons d ds =>
          rw [escape] at h
          by_cases hd : d = delim
          · -- the backslash in front of the quote is itself escaped, and the quote ends the text
            subst hd
            rw [if_pos (by simp), List.cons_append, List.cons_append, readQuoted_escaped hdelim,
              readQuoted_delim] at h
            cases h
            simp [Shortens]
          · rw [if_neg (by simpa using hd), List.cons_append, readQuoted_escaped hdelim] at h
            obtain ⟨⟨b, r⟩, hr, he⟩ := Option.map_eq_some_iff.1 h
            cases he
            exact (readQuoted_shortens hdelim ds hr).slash d d
      · rw [readQuoted_plain hc hslash] at h
        obtain ⟨⟨b, r⟩, hr, he⟩ := Option.map_eq_some_iff.1 h
        cases he
        exact (readQuoted_shortens hdelim cs hr).cons hslash

end Text

/-! ## Phrases searched as words -/

/-- The first token of a text is scanned from its first characters that are not blank. -/
theorem scan_of_tokenize {text : String} {t : Token} {ts : List Token}
    (h : tokenize text = .ok (t :: ts)) :
    ∃ c cs rest, text.toList.dropWhile Text.isBlank = c :: cs ∧
      scan false c cs = .ok (t, rest) := by
  unfold tokenize at h
  rcases hnext : (Lexer.ofText text).next with ⟨_ | x, l⟩
  · rw [Lexer.lexemes_nil hnext] at h
    cases h
  · rw [Lexer.lexemes_cons hnext] at h
    obtain ⟨u, us, hx, -, heq⟩ := mapM_token_cons h
    obtain ⟨rfl, -⟩ := List.cons.inj heq
    obtain ⟨start, token⟩ := x
    obtain rfl : token = .ok t := hx
    obtain ⟨c, cs, hd, hscan, -⟩ := Lexer.next_ok hnext
    exact ⟨c, cs, l.rest, hd, hscan⟩

theorem wordsText_eq_phraseText {t : String} (h : '\\' ∉ t.toList) :
    wordsText t true = phraseText t := by
  have hescape : Text.escape (fun c => c = '"') t.toList =
      Text.escape (fun c => c = '\\' || c = '"') t.toList := by
    refine Text.escape_congr fun c hc => ?_
    have hne : c ≠ '\\' := fun hslash => h (hslash ▸ hc)
    simp [hne]
  rw [wordsText, phraseText, if_pos rfl, Text.quote, Text.quote, hescape]

theorem tokenize_phraseText (t : String) : tokenize (phraseText t) = .ok [.phrase t] := by
  refine LexesTo.tokenize ?_
  have h : LexesTo false ((phraseText t).toList ++ []) [.phrase t] := LexesTo.phrase t LexesTo.nil
  rwa [List.append_nil] at h

theorem plain_of_tokenize_wordsText {t : String} (h : tokenize (wordsText t true) = .ok [.phrase t]) :
    '\\' ∉ t.toList := by
  obtain ⟨c, cs, rest, hd, hscan⟩ := scan_of_tokenize h
  have hchars : (wordsText t true).toList =
      '"' :: (Text.escape (fun c => c = '"') t.toList ++ ['"']) := by
    simp [wordsText, Text.quote]
  rw [hchars, List.dropWhile_cons, if_neg (by decide)] at hd
  obtain ⟨rfl, rfl⟩ := List.cons.inj hd
  change scanPhrase _ = _ at hscan
  unfold scanPhrase at hscan
  split at hscan
  · cases hscan
  · rename_i body rest' hread
    cases hscan
    intro hslash
    have hlt := (Text.readQuoted_shortens (by decide) _ hread).2 hslash
    rw [String.toList_ofList] at hlt
    exact Nat.lt_irrefl _ hlt

/-- Without expanders the query of a term that is searched as words is the term's own text. -/
theorem words_query {config : Config} {scope : Scope} {marks : Marks} {t query : String}
    {quoted : Bool} {k : Contribution} {field : Option String} {op : Connective}
    (hexpanders : config.expanders = [])
    (h : (visit config scope (.leaf marks (.term t quoted))).result = .ok k)
    (hk : k.filter = some (.leaf (.words query field op))) : query = wordsText t quoted := by
  rw [visit] at h
  simp only [visitLeaf, leafConstraint, hexpanders, Expander.runAll, Traced.result_bind,
    Traced.result_emit, Traced.result_mapError, Traced.result_pure] at h
  cases h
  have hconstraint := Filter.leaf.inj (Option.some.inj hk)
  rw [termConstraint.eq_def] at hconstraint
  split at hconstraint
  · cases hconstraint
  · exact (Constraint.words.inj hconstraint).1.symm

/-- The query of a phrase that is searched as words, in any scope. Read as a text it is that phrase
and nothing else exactly when the phrase has no backslash in it, and exactly then it is the text by
which the phrase is printed. -/
theorem words_phrase_iff {config : Config} {scope : Scope} {marks : Marks} {t query : String}
    {k : Contribution} {field : Option String} {op : Connective}
    (hexpanders : config.expanders = [])
    (h : (visit config scope (.leaf marks (.term t true))).result = .ok k)
    (hk : k.filter = some (.leaf (.words query field op))) :
    (tokenize query = .ok [.phrase t] ↔ '\\' ∉ t.toList) ∧
      (query = (Clause.leaf {} (.term t true)).text ↔ '\\' ∉ t.toList) := by
  obtain rfl := words_query hexpanders h hk
  have htext : (Clause.leaf {} (.term t true)).text = phraseText t := by
    simp [Clause.text, Leaf.text, Marks.leadText, Marks.fieldText]
  rw [htext]
  refine ⟨⟨plain_of_tokenize_wordsText, fun hplain => ?_⟩, fun heq => ?_, wordsText_eq_phraseText⟩
  · rw [wordsText_eq_phraseText hplain]
    exact tokenize_phraseText t
  · refine plain_of_tokenize_wordsText ?_
    rw [heq]
    exact tokenize_phraseText t

/-- Quotes in the phrase do no harm, on a field whose values are split into words. -/
theorem words_phrase_iff_quotes :
    let config : Config := { schema := { isAnalyzed := fun field => field = "g.f" } }
    let scope : Scope := { op := .and, rootField := none, fields := ["g"], depth := 1 }
    let query := "\"say \\\"a\\\" OR b\""
    (visit config scope (.leaf { field := some "f" } (.term "say \"a\" OR b" true))).result =
        .ok { filter := some (.leaf (.words query (some "g.f") .and)), leaves := 1 } ∧
      tokenize query = .ok [.phrase "say \"a\" OR b"] ∧
      query = (Clause.leaf {} (.term "say \"a\" OR b" true)).text := by
  intro config scope query
  have h : (visit config scope (.leaf { field := some "f" }
      (.term "say \"a\" OR b" true))).result =
      .ok { filter := some (.leaf (.words query (some "g.f") .and)), leaves := 1 } := by
    rfl
  have hread := words_phrase_iff rfl h rfl
  have hplain : '\\' ∉ "say \"a\" OR b".toList := by decide
  exact ⟨h, hread.1.2 hplain, hread.2.2 hplain⟩

/-- A backslash takes the escape of the quote after it. The phrase ends there, and what follows in it
is read as part of the query. -/
theorem words_phrase_injected :
    let t := "\\\" OR b \\\""
    let query := "\"\\\\\" OR b \\\\\"\""
    (visit {} ({} : Config).rootScope (.leaf {} (.term t true))).result =
        .ok { filter := some (.leaf (.words query none .or)), leaves := 1 } ∧
      tokenize query =
        .ok [.phrase "\\", .join .or, .term "b", .term "\\", .phrase ""] ∧
      query ≠ (Clause.leaf {} (.term t true)).text := by
  refine ⟨?_, by decide +kernel, by decide +kernel⟩
  rfl

end SearchQuery
