import Mathlib.Control.Monad.Basic
import Mathlib.Data.List.Basic
import SearchQuery.Proofs.Quotation
import SearchQuery.Proofs.Request

/-!
# SearchQuery.Proofs.Script

What the scripts of an accepted request say.

A script is read with single-quoted texts in which a backslash stands before a character that is meant
literally. Defaults are written that way, so every default is read back. Names of fields are written
as they are, so a name with a quote or a backslash in it is not.

* `Script.read?`             — the reader of the two forms that are written.
* `Script.read?_fallback`    — a script with a default, at a plain field.
* `scripts_read_iff`         — the scripts of an aggregation, over all accepted requests.
* `script_broken_by_quote`   — a name that breaks its script.
-/

namespace SearchQuery

/-! ## Reading -/

namespace Script

inductive Literal where
  | text (s : String)
  /-- A number or a word, up to the next blank. -/
  | bare (s : String)
  deriving DecidableEq

inductive Expr where
  /-- `doc[tested].empty ? default : doc[used].value` -/
  | fallback (tested : String) (default : Literal) (used : String)
  /-- `doc[field].coordinate` -/
  | coordinate (field coordinate : String)
  deriving DecidableEq

/-- The field that the script reads first. -/
def Expr.field : Expr → String
  | .fallback tested _ _ => tested
  | .coordinate field _ => field

def expect (piece : String) (cs : List Char) : Option (List Char) :=
  piece.toList.isPrefixOf? cs

def readText : List Char → Option (String × List Char)
  | '\'' :: cs => (Text.readQuoted '\'' cs).map fun (body, rest) => (String.ofList body, rest)
  | _ => none

def readDoc (cs : List Char) : Option (String × List Char) := do
  let cs ← expect "doc[" cs
  let (field, cs) ← readText cs
  let cs ← expect "]" cs
  return (field, cs)

def readLiteral : List Char → Option (Literal × List Char)
  | '\'' :: cs => (readText ('\'' :: cs)).map fun (s, rest) => (.text s, rest)
  | cs => some (.bare (String.ofList (cs.takeWhile (· ≠ ' '))), cs.dropWhile (· ≠ ' '))

/-- What follows the test of a field for being empty. -/
def readFallback (tested : String) (cs : List Char) : Option Expr := do
  let (default, cs) ← readLiteral cs
  let cs ← expect " : " cs
  let (used, cs) ← readDoc cs
  if cs = ".value".toList then some (.fallback tested default used) else none

def readCoordinate (field : String) (cs : List Char) : Option Expr :=
  (expect "." cs).map fun cs => .coordinate field (String.ofList cs)

def read? (code : String) : Option Expr := do
  let (field, cs) ← readDoc code.toList
  match expect ".empty ? " cs with
  | some cs => readFallback field cs
  | none => readCoordinate field cs

/-- Names that stand for themselves between single quotes. -/
def Plain (field : String) : Prop :=
  '\'' ∉ field.toList ∧ '\\' ∉ field.toList

instance (field : String) : Decidable (Plain field) :=
  inferInstanceAs (Decidable (_ ∧ _))

end Script

/-- The literal that a default is meant to be. -/
def Value.literal : Value → Script.Literal
  | .text s => .text s
  | v => .bare v.display

namespace Aggregation

mutual

/-- The scripts of an aggregation and of those under it. -/
def scripts : Aggregation → List String
  | ⟨_, _, source, _, children⟩ => source.script?.toList ++ scriptsList children

def scriptsList : List Aggregation → List String
  | [] => []
  | a :: as => a.scripts ++ scriptsList as

end

theorem scripts_eq (a : Aggregation) :
    a.scripts = a.source.script?.toList ++ scriptsList a.children := by
  cases a
  rw [scripts]

end Aggregation

/-- What the scripts of a clause's aggregation are meant to say. -/
def RequestClause.meant (r : RequestClause) : List Script.Expr :=
  if r.kind = .geogrid then [.coordinate r.field "lat", .coordinate r.field "lon"]
  else
    match r.fallback? with
    | none => []
    | some default => [.fallback r.field default.literal r.field]

/-! ## Pieces -/

namespace Script

theorem expect_append (piece : String) (cs : List Char) :
    expect piece (piece.toList ++ cs) = some cs :=
  List.isPrefixOf?_eq_some_iff_append_eq.2 rfl

theorem toList_docText_append (field : String) (cs : List Char) :
    (Source.docText field).toList ++ cs =
      "doc[".toList ++ '\'' :: (field.toList ++ '\'' :: ("]".toList ++ cs)) := by
  simp [Source.docText]

theorem readDoc_docText_append {field : String} (h : Plain field) (cs : List Char) :
    readDoc ((Source.docText field).toList ++ cs) = some (field, cs) := by
  have hread : readText ('\'' :: (field.toList ++ '\'' :: ("]".toList ++ cs))) =
      some (field, "]".toList ++ cs) := by
    simp [readText, (Text.readQuoted_bare_iff (by decide) _ _).2 h]
  rw [toList_docText_append]
  simp only [readDoc, expect_append, hread, Option.bind_eq_bind, Option.bind_some, Option.pure_def]

/-- A name that is read back from its script is plain. -/
theorem plain_of_readDoc {field : String} {cs rest : List Char}
    (h : readDoc ((Source.docText field).toList ++ cs) = some (field, rest)) : Plain field := by
  rw [toList_docText_append] at h
  simp only [readDoc, expect_append, readText, Option.bind_eq_bind, Option.bind_some,
    Option.bind_eq_some_iff, Option.map_eq_some_iff, Option.pure_def, Option.some.injEq] at h
  obtain ⟨-, ⟨⟨body, tail⟩, hread, rfl⟩, rest', -, heq⟩ := h
  obtain ⟨rfl, -⟩ : String.ofList body = field ∧ rest' = rest := by simpa using heq
  rw [String.toList_ofList] at hread
  rw [Plain, String.toList_ofList]
  exact Text.bare_of_readQuoted (by decide) hread

end Script

namespace Number.Decimal

theorem mem_text {d : Decimal} {c : Char} (h : c ∈ d.text.toList) :
    c = '-' ∨ c = '.' ∨ c.isDigit := by
  have hpadded (n : Nat) :
      c ∈ List.replicate n '0' ++ Nat.toDigits 10 d.mantissa → c.isDigit := by
    intro hmem
    rcases List.mem_append.1 hmem with hzero | hdigit
    · rw [List.eq_of_mem_replicate hzero]
      rfl
    · exact Nat.isDigit_of_mem_toDigits (by decide) (by decide) hdigit
  simp only [text, String.toList_ofList, List.mem_append] at h
  rcases h with (hsign | hwhole) | hfraction
  · split at hsign
    · exact .inl (List.mem_singleton.1 hsign)
    · cases hsign
  · exact .inr (.inr (hpadded _ (List.mem_of_mem_take hwhole)))
  · split at hfraction
    · cases hfraction
    · rcases List.mem_cons.1 hfraction with hpoint | hdigit
      · exact .inr (.inl hpoint)
      · exact .inr (.inr (hpadded _ (List.mem_of_mem_drop hdigit)))

end Number.Decimal

namespace Value

theorem mem_toString_int {n : Int} {c : Char} (h : c ∈ (toString n).toList) :
    c = '-' ∨ c.isDigit := by
  have hnat {m : Nat} (hmem : c ∈ m.repr.toList) : c.isDigit := by
    rw [Nat.toList_repr] at hmem
    exact Nat.isDigit_of_mem_toDigits (by decide) (by decide) hmem
  rw [Int.toString_eq_repr, Int.repr_eq_if] at h
  split at h
  · exact .inr (hnat h)
  · rw [String.toList_append, List.mem_append] at h
    rcases h with hsign | hdigit
    · exact .inl (by simpa using hsign)
    · exact .inr (hnat hdigit)

/-- Apart from texts no value is displayed with a blank or a quote. -/
theorem display_bare {v : Value} (hv : ∀ s, v ≠ .text s) :
    ∀ c ∈ v.display.toList, c ≠ ' ' ∧ c ≠ '\'' := by
  have hword {word : String} (hall : word.toList.all (fun c => c ≠ ' ' ∧ c ≠ '\'') = true) :
      ∀ c ∈ word.toList, c ≠ ' ' ∧ c ≠ '\'' :=
    fun c hc => of_decide_eq_true (List.all_eq_true.1 hall c hc)
  intro c hc
  cases v with
  | null => exact hword (by decide) c hc
  | bool b => cases b <;> exact hword (by decide) c hc
  | int n =>
    rcases mem_toString_int hc with rfl | hdigit
    · decide
    · constructor <;> rintro rfl <;> cases hdigit
  | decimal d =>
    rcases Number.Decimal.mem_text hc with rfl | rfl | hdigit
    · decide
    · decide
    · constructor <;> rintro rfl <;> cases hdigit
  | text s => exact absurd rfl (hv s)

end Value

namespace Script

theorem readLiteral_bare {cs : List Char} (h : ∀ c ∈ cs, c ≠ ' ' ∧ c ≠ '\'') (rest : List Char) :
    readLiteral (cs ++ ' ' :: rest) = some (.bare (String.ofList cs), ' ' :: rest) := by
  have hword : ∀ c ∈ cs, decide (c ≠ ' ') = true := fun c hc => by simp [(h c hc).1]
  unfold readLiteral
  split
  · rename_i cs' heq
    cases cs with
    | nil => simp at heq
    | cons c cs => exact absurd (List.cons.inj heq).1 (h c List.mem_cons_self).2
  · rw [List.takeWhile_append_of_pos hword, List.dropWhile_append_of_pos hword]
    simp

/-- Every default is read back from its literal. -/
theorem readLiteral_scriptLiteral (v : Value) (rest : List Char) :
    readLiteral (v.scriptLiteral.toList ++ ' ' :: rest) = some (v.literal, ' ' :: rest) := by
  by_cases hv : ∃ s, v = .text s
  · obtain ⟨s, rfl⟩ := hv
    have hread := readQuoted_escape '\'' (fun c => c = '\\' || c = '\'') (by decide) (by decide)
      (by decide) s.toList (' ' :: rest)
    simp [Value.scriptLiteral, Value.literal, Text.quote, readLiteral, readText, hread]
  · have hne : ∀ s, v ≠ .text s := fun s hs => hv ⟨s, hs⟩
    have hbare := readLiteral_bare (Value.display_bare hne) rest
    cases v with
    | text s => exact absurd rfl (hne s)
    | _ => simpa [Value.scriptLiteral, Value.literal] using hbare

/-! ## Scripts -/

/-- A script that is read gives the field it reads first. -/
theorem readDoc_of_read? {code : String} {e : Expr} (h : read? code = some e) :
    ∃ rest, readDoc code.toList = some (e.field, rest) := by
  simp only [read?, Option.bind_eq_bind, Option.bind_eq_some_iff] at h
  obtain ⟨⟨field, cs⟩, hdoc, h⟩ := h
  refine ⟨cs, hdoc.trans ?_⟩
  split at h
  · simp only [readFallback, Option.bind_eq_bind, Option.bind_eq_some_iff] at h
    obtain ⟨_, -, _, -, _, -, h⟩ := h
    split at h <;> cases h
    rfl
  · obtain ⟨_, -, rfl⟩ := Option.map_eq_some_iff.1 h
    rfl

theorem readFallback_written {field : String} (h : Plain field) (tested : String) (default : Value) :
    readFallback tested (default.scriptLiteral.toList ++
        (" : ".toList ++ ((Source.docText field).toList ++ ".value".toList))) =
      some (.fallback tested default.literal field) := by
  generalize hcs : (Source.docText field).toList ++ ".value".toList = cs
  have hdoc : readDoc cs = some (field, ".value".toList) := hcs ▸ readDoc_docText_append h _
  have hliteral : readLiteral (default.scriptLiteral.toList ++ (" : ".toList ++ cs)) =
      some (default.literal, " : ".toList ++ cs) :=
    readLiteral_scriptLiteral default (": ".toList ++ cs)
  rw [readFallback, hliteral, Option.bind_eq_bind, Option.bind_some]
  dsimp only
  rw [expect_append, Option.bind_eq_bind, Option.bind_some, hdoc, Option.bind_eq_bind,
    Option.bind_some]
  exact if_pos rfl

/-- At a plain field a script with a default is read as it is meant. -/
theorem read?_fallback {field : String} (h : Plain field) (default : Value) {code : String}
    (hcode : (Source.fallback field default).script? = some code) :
    read? code = some (.fallback field default.literal field) := by
  have hsplit : code.toList = (Source.docText field).toList ++ (".empty ? ".toList ++
      (default.scriptLiteral.toList ++
        (" : ".toList ++ ((Source.docText field).toList ++ ".value".toList)))) := by
    rw [← Option.some.inj hcode]
    simp only [String.toList_append, List.append_assoc]
  rw [read?, hsplit, readDoc_docText_append h, Option.bind_eq_bind, Option.bind_some]
  dsimp only
  rw [expect_append]
  exact readFallback_written h field default

theorem read?_coordinate {field : String} (h : Plain field) {coordinate : String}
    (hempty : expect ".empty ? " (".".toList ++ coordinate.toList) = none) :
    read? (Source.docText field ++ "." ++ coordinate) = some (.coordinate field coordinate) := by
  simp only [read?, String.toList_append, List.append_assoc, readDoc_docText_append h,
    Option.bind_eq_bind, Option.bind_some, hempty, readCoordinate, expect_append, Option.map_some,
    String.ofList_toList]

/-- A script that begins with a field's values and is read as being about that field. -/
theorem plain_of_read? {field rest : String} {e : Expr}
    (h : read? (Source.docText field ++ rest) = some e) (he : e.field = field) : Plain field := by
  obtain ⟨cs, hdoc⟩ := readDoc_of_read? h
  rw [he, String.toList_append] at hdoc
  exact plain_of_readDoc hdoc

end Script

/-! ## Requests -/

namespace RequestClause

open Script Aggregation

theorem scripts_onField (r : RequestClause) (field : String) (options : Options) :
    (r.onField field options).scripts = [] := by
  rw [scripts_eq]
  simp [onField, Source.script?, scriptsList]

theorem scripts_grid (r : RequestClause) (options : Options) :
    scripts { r.onField r.field options with
        children := [mean "avg_lat" r.field "lat", mean "avg_lon" r.field "lon"] } =
      [Source.docText r.field ++ "." ++ "lat", Source.docText r.field ++ "." ++ "lon"] := by
  rw [scripts_eq]
  simp [onField, mean, Source.script?, scriptsList, scripts]

theorem scripts_fallback (r : RequestClause) (d : Value) :
    scripts { r.onField r.field {} with source := .fallback r.field d } =
      ((Source.fallback r.field d).script?).toList := by
  rw [scripts_eq]
  simp [onField, scriptsList]

/-- The scripts of what a clause builds say what is meant exactly when there are none or the field has
a plain name. -/
theorem read_scripts_iff {r : RequestClause} {schema : Schema} {a : Aggregation}
    (h : r.buildKind schema = .ok a) :
    a.scripts.map read? = r.meant.map some ↔ r.meant = [] ∨ Plain r.field := by
  rcases buildKind_cases h with ⟨hkind, hnone, field, options, rfl⟩ | ⟨hkind, d, hsome, rfl⟩ |
    ⟨hkind, options, rfl⟩
  · simp [scripts_onField, meant, hkind, hnone]
  · obtain ⟨code, hcode⟩ : ∃ code, (Source.fallback r.field d).script? = some code := ⟨_, rfl⟩
    simp only [scripts_fallback, meant, hkind, hsome, hcode, if_false, Option.toList_some,
      List.map_cons, List.map_nil, List.cons.injEq, and_true, reduceCtorEq, false_or]
    refine ⟨fun hread => ?_, fun hplain => read?_fallback hplain d hcode⟩
    cases hcode
    rw [String.append_assoc, String.append_assoc, String.append_assoc, String.append_assoc] at hread
    exact plain_of_read? hread rfl
  · simp only [scripts_grid, meant, hkind, if_true, List.map_cons, List.map_nil, List.cons.injEq,
      and_true, reduceCtorEq, false_or]
    refine ⟨fun hread => ?_, fun hplain => ⟨?_, ?_⟩⟩
    · have hlat := hread.1
      rw [String.append_assoc] at hlat
      exact plain_of_read? hlat rfl
    · exact read?_coordinate hplain (by decide)
    · exact read?_coordinate hplain (by decide)

end RequestClause

/-- A request whose one aggregation is known by its name and scripts. -/
theorem exists_of_scripts {config : Config} {text name : String} {codes : List String}
    (h : (config.compileRequest text).result.toOption.map (·.map fun a => (a.name, a.scripts)) =
      some [(name, codes)]) :
    ∃ a, (config.compileRequest text).result = .ok [a] ∧ a.name = name ∧ a.scripts = codes := by
  cases hrun : (config.compileRequest text).result with
  | error e => simp [hrun, Except.toOption] at h
  | ok as =>
    simp only [hrun, Except.toOption, Option.map_some, Option.some.injEq,
      List.map_eq_singleton_iff, Prod.mk.injEq] at h
    obtain ⟨a, rfl, hname, hcodes⟩ := h
    exact ⟨a, rfl, hname, hcodes⟩

/-- Every aggregation of an accepted request comes from one of its clauses. Its scripts say what the
clause means exactly when it needs none or the name of its field has neither a quote nor a backslash in
it; the default may be any text. -/
theorem scripts_read_iff {config : Config} {text : String} {as : List Aggregation} {a : Aggregation}
    (h : (config.compileRequest text).result = .ok as) (ha : a ∈ as) :
    ∃ root, parseWithin config.settings.maxDepth text = .ok root ∧
      ∃ c ∈ root.children, ∃ r, RequestClause.read c = .ok r ∧ a.name = r.name ∧
        (a.scripts.map Script.read? = r.meant.map some ↔
          r.meant = [] ∨ Script.Plain r.field) := by
  obtain ⟨root, hroot, c, hc, r, hr, hbuild⟩ := exists_buildKind_of_mem h ha
  have hname : a.name = r.name := by
    rcases RequestClause.buildKind_cases hbuild with ⟨-, -, _, _, rfl⟩ | ⟨-, _, -, rfl⟩ |
      ⟨-, _, rfl⟩ <;> rfl
  exact ⟨root, hroot, c, hc, r, hr, hname, RequestClause.read_scripts_iff hbuild⟩

/-- A default with a quote, a backslash and the separator of the script in it. -/
theorem scripts_read_iff_quoted_default :
    let request := "min:(price @default:\"a ' b \\\\ : c\")"
    ∃ a, (Config.compileRequest {} request).result = .ok [a] ∧
      a.scripts.map Script.read? = [some (.fallback "price" (.text "a ' b \\ : c") "price")] ∧
      ∃ root, parseWithin ({} : Config).settings.maxDepth request = .ok root ∧
        ∃ c ∈ root.children, ∃ r, RequestClause.read c = .ok r ∧ a.name = r.name ∧
          (a.scripts.map Script.read? = r.meant.map some ↔
            r.meant = [] ∨ Script.Plain r.field) := by
  intro request
  have hone : ∃ a, (Config.compileRequest {} request).result = .ok [a] ∧ a.name = "min_price" ∧
      a.scripts = ["doc['price'].empty ? 'a \\' b \\\\ : c' : doc['price'].value"] :=
    exists_of_scripts (by decide +kernel)
  obtain ⟨a, hrun, -, hcodes⟩ := hone
  refine ⟨a, hrun, ?_, scripts_read_iff hrun List.mem_cons_self⟩
  rw [hcodes]
  decide +kernel

/-- The quote in the name ends the text early, and what follows is no script. -/
theorem script_broken_by_quote :
    let code := "doc['it's'].empty ? 0 : doc['it's'].value"
    Script.read? code = none ∧
      ∃ a, (Config.compileRequest {} "min:(it's @default:0)").result = .ok [a] ∧
        a.name = "min_it's" ∧ a.scripts = [code] := by
  intro code
  exact ⟨by decide +kernel, exists_of_scripts (by decide +kernel)⟩

end SearchQuery
