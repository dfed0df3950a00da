import DocGraph.Proofs.JsonText
import DocGraph.Proofs.Quotations
import DocGraph.Proofs.Readability
import DocGraph.Proofs.WellScoped

/-! # Keys of imported fields in query texts

A statement that inserts or updates a document stands in a script as a query in a template literal, and the keys
of the fields that it imports stand in this query between double quotes. They are quoted for the query and not
again for the literal, which takes the backslashes of the first quotation away. What is left of a key is the key
itself between two quotes, and this is right only as long as nothing in the key has a meaning in a literal or
between quotes.

The main statement is `submitted_import_keys`: of all that calls submit, the query ends where it should and
interpolates what it should just if no key has a delimiter or opens an expression, and a key is read back just if
it has no quote and no backslash. -/

namespace DocGraph

open Script (tick)

namespace Quotation

variable {pieces others : List Piece} {rest tail u : List Char} {text text' : String} {P : Prop}

/-! ### Quoted keys in a template literal -/

/-- A key that neither ends a template literal nor opens an expression in it. -/
def Contained (key : List Char) : Prop :=
  tick ∉ key ∧ Text.occursIn ['$', '\x7b'] key = false

theorem scan_hex4 {n : Nat} (small : n < 32) :
    scan .template .text ('\\' :: 'u' :: (Text.hex4 n ++ rest)) =
      after [.char (Char.ofNat n)] (scan .template .text rest) := by
  obtain ⟨written, high, low⟩ := Text.hex4_of_small small
  have zero : Json.hexDigit? '0' = some 0 := by decide
  have value : n / 16 * 16 + n % 16 = n := by omega
  rw [written, scan_text, if_neg (by decide), if_pos rfl, scan_escaped, if_pos rfl]
  simp [scan_hex, zero, high, low, value]

/-- A quoted character is read as the character. -/
theorem scan_quotedChar {c : Char} (plain : c ≠ tick) (closed : ¬ (c = '$' ∧ rest.head? = some '\x7b')) :
    scan .template .text (Text.quotedChar c ++ rest) = after [.char c] (scan .template .text rest) := by
  rcases Text.quotedChar_cases c with ⟨_, backslash, _, itself⟩ | ⟨d, other, meant, lettered⟩ |
      ⟨control, numbered⟩
  · rw [itself]
    exact scan_char plain backslash fun h => closed h.2
  · rw [lettered, List.cons_append, List.cons_append, List.nil_append, scan_escape d other, meant]
    rfl
  · rw [numbered, List.cons_append, List.cons_append, scan_hex4 control, Char.ofNat_toNat]

theorem head_quotedChars {key : List Char} (closed : u.head? ≠ some '\x7b')
    (first : (key.flatMap Text.quotedChar ++ u).head? = some '\x7b') : key.head? = some '\x7b' := by
  cases key with
  | nil => exact absurd first closed
  | cons c key =>
      rw [List.flatMap_cons] at first
      rcases Text.quotedChar_cases c with ⟨_, _, _, itself⟩ | ⟨d, _, _, lettered⟩ | ⟨_, numbered⟩
      · rw [itself] at first
        exact first
      · rw [lettered] at first
        cases first
      · rw [numbered] at first
        cases first

theorem contained_cons {c : Char} {key : List Char} :
    Contained (c :: key) ↔ c ≠ tick ∧ ¬ (c = '$' ∧ key.head? = some '\x7b') ∧ Contained key := by
  have opens : ['$', '\x7b'].isPrefixOf (c :: key) = true ↔ c = '$' ∧ key.head? = some '\x7b' := by
    cases key with
    | nil => simp
    | cons d key => simp [@eq_comm _ '$', @eq_comm _ '\x7b']
  unfold Contained
  rw [Text.occursIn, Bool.or_eq_false_iff, ← opens, Bool.not_eq_true, List.mem_cons]
  grind

/-- A quoted key is read back just if it is contained. -/
theorem scan_quotedChars_iff (key : List Char) (closed : u.head? ≠ some '\x7b') :
    scan .template .text (key.flatMap Text.quotedChar ++ u) = some (key.map .char ++ pieces, tail) ↔
      Contained key ∧ scan .template .text u = some (pieces, tail) := by
  induction key with
  | nil =>
      have empty : Contained [] := ⟨List.not_mem_nil, rfl⟩
      simp [empty]
  | cons c key ih =>
      rw [List.flatMap_cons, List.append_assoc, contained_cons]
      -- The first character that is no plain one shows in what is read.
      by_cases delimiter : c = tick
      · have ends : scan .template .text (Text.quotedChar tick ++ (key.flatMap Text.quotedChar ++ u)) =
            some ([], _) := scan_end .template _
        simp [delimiter, ends]
      by_cases opens : c = '$' ∧ key.head? = some '\x7b'
      · refine iff_of_false (fun h => ?_) fun h => h.1.2.1 opens
        obtain ⟨rfl, first⟩ := opens
        obtain ⟨key, rfl⟩ := List.head?_eq_some_iff.mp first
        obtain ⟨_, _, first⟩ := head_of_scan_expression (scan_open.symm.trans h)
        cases first
      have later : ¬ (c = '$' ∧ (key.flatMap Text.quotedChar ++ u).head? = some '\x7b') :=
        fun h => opens ⟨h.1, head_quotedChars closed h.2⟩
      rw [scan_quotedChar delimiter later, List.map_cons]
      refine (after_eq_append_iff [_]).trans (ih.trans ?_)
      simp [delimiter, opens]

/-! ### Texts between quotes -/

theorem length_of_after {p : Piece} {found : Option (List Piece × List Char)}
    (each : ∀ pieces tail, found = some (pieces, tail) → pieces.length + tail.length < u.length)
    (h : after [p] found = some (pieces, tail)) : pieces.length + tail.length < u.length + 1 := by
  obtain ⟨r, read, made⟩ := Option.map_eq_some_iff.mp h
  cases made
  have shorter := each r.1 r.2 read
  simp only [List.length_append, List.length_singleton]
  omega

/-- A reader makes no more of a text than it uses up. -/
theorem length_of_scan {k : Rules} (mode : Mode) (u : List Char) :
    ∀ pieces tail, scan k mode u = some (pieces, tail) → pieces.length + tail.length < u.length := by
  intro pieces tail h
  induction u generalizing mode pieces tail with
  | nil => cases mode <;> cases h
  | cons c u ih =>
      cases mode with
      | text =>
          rw [scan_text] at h
          split at h
          · cases h
            simp
          split at h
          · exact Nat.lt_succ_of_lt (ih _ _ _ h)
          split at h
          · exact Nat.lt_succ_of_lt (ih _ _ _ h)
          · exact length_of_after (ih _) h
      | escape =>
          rw [scan_escaped] at h
          split at h
          · exact Nat.lt_succ_of_lt (ih _ _ _ h)
          · exact length_of_after (ih _) h
      | hex left n =>
          obtain ⟨d, _, h⟩ := Option.bind_eq_some_iff.mp h
          split at h
          · exact length_of_after (ih _) h
          · exact Nat.lt_succ_of_lt (ih _ _ _ h)
      | brace => exact Nat.lt_succ_of_lt (ih _ _ _ h)
      | expression start =>
          rw [scan_expression] at h
          split at h
          · exact length_of_after (ih _) h
          · exact Nat.lt_succ_of_lt (ih _ _ _ h)

/-- A text between two quotes is read back just if it has no quote and no backslash. -/
theorem scan_string_iff (key : List Char) :
    scan .string .text (key ++ ['"']) = some (key.map .char, []) ↔ '"' ∉ key ∧ '\\' ∉ key := by
  induction key with
  | nil => exact iff_of_true (scan_end .string []) ⟨List.not_mem_nil, List.not_mem_nil⟩
  | cons c key ih =>
      by_cases quote : c = '"'
      · refine iff_of_false (fun h => ?_) fun h => h.1 (quote ▸ List.mem_cons_self)
        rw [quote, List.cons_append] at h
        cases (scan_end .string _).symm.trans h
      by_cases backslash : c = '\\'
      · -- The backslash and what it escapes make at most one character.
        refine iff_of_false (fun h => ?_) fun h => h.2 (backslash ▸ List.mem_cons_self)
        have escaped : scan .string .text (c :: (key ++ ['"'])) = scan .string .escape (key ++ ['"']) :=
          (if_neg quote).trans (if_pos backslash)
        have shorter := length_of_scan _ _ _ _ (escaped.symm.trans h)
        simp at shorter
      rw [List.cons_append, scan_char quote backslash fun h => Bool.noConfusion h.1, List.map_cons]
      refine (after_eq_append_iff [_]).trans (ih.trans ?_)
      simp [Ne.symm quote, Ne.symm backslash]

/-! ### Texts of queries -/

/-- The pieces of a text that stands for itself. -/
def words (s : String) : List Piece := s.toList.map .char

/-- Whether a character means nothing but itself in a template literal, whatever follows. -/
def isPlain (c : Char) : Bool := c != tick && c != '\\' && c != '$'

theorem scan_plain {w : List Char} (plain : w.all isPlain = true) :
    scan .template .text (w ++ u) = after (w.map .char) (scan .template .text u) := by
  induction w with
  | nil => simp
  | cons c w ih =>
      simp only [List.all_cons, isPlain, Bool.and_eq_true, bne_iff_ne] at plain
      obtain ⟨⟨⟨delimiter, backslash⟩, dollar⟩, later⟩ := plain
      rw [List.cons_append, scan_char delimiter backslash fun h => dollar h.2.1, ih later]
      simp

/-- `ReadAs text pieces P`: in a template literal a text is read as pieces, whatever follows, just if `P` holds. -/
def ReadAs (text : String) (pieces : List Piece) (P : Prop) : Prop :=
  ∀ u rest tail, scan .template .text (text.toList ++ u) = some (pieces ++ rest, tail) ↔
    P ∧ scan .template .text u = some (rest, tail)

namespace ReadAs

theorem append {Q : Prop} (first : ReadAs text pieces P) (second : ReadAs text' others Q) :
    ReadAs (text ++ text') (pieces ++ others) (P ∧ Q) := by
  intro u rest tail
  rw [String.toList_append, List.append_assoc, List.append_assoc, first, second, and_assoc]

theorem after (first : ReadAs text pieces True) (second : ReadAs text' others P) :
    ReadAs (text ++ text') (pieces ++ others) P := by
  simpa using first.append second

theorem before (first : ReadAs text pieces P) (second : ReadAs text' others True) :
    ReadAs (text ++ text') (pieces ++ others) P := by
  simpa using first.append second

theorem empty : ReadAs "" [] True := by
  intro u rest tail
  simp

theorem words {s : String} (plain : s.toList.all isPlain = true) : ReadAs s (words s) True := by
  intro u rest tail
  rw [scan_plain plain, Quotation.words, after_eq_append_iff, true_and]

theorem expression {e : String} (inside : '\x7d' ∉ e.toList) :
    ReadAs ("$\x7b" ++ e ++ "\x7d") [.value e] True := by
  intro u rest tail
  have read := scan_interpolation_iff e.toList u rest tail
  rw [String.ofList_toList] at read
  simpa [inside] using read

/-- What is left of a quoted key in a template literal is the key between two quotes. -/
theorem quoted (key : String) :
    ReadAs (Text.quoted key) (Quotation.words ("\"" ++ key ++ "\"")) (Contained key.toList) := by
  intro u rest tail
  have text : (Text.quoted key).toList ++ u = '"' :: (key.toList.flatMap Text.quotedChar ++ ('"' :: u)) := by
    simp [Text.quoted]
  have pieces : Quotation.words ("\"" ++ key ++ "\"") ++ rest =
      [.char '"'] ++ (key.toList.map .char ++ ([.char '"'] ++ rest)) := by
    simp [Quotation.words]
  rw [text, pieces, scan_char (by decide) (by decide) (fun h => by cases h.2.1), after_eq_append_iff,
    scan_quotedChars_iff _ (by simp), scan_char (by decide) (by decide) (fun h => by cases h.2.1),
    after_eq_append_iff]

/-- Between two delimiters, a text makes a whole template literal. -/
theorem read_iff (h : ReadAs text pieces P) (rest : String) :
    read .template ("`" ++ (text ++ ("`" ++ rest))) = some (pieces, rest.toList) ↔ P := by
  have delimiter : "`".toList = [tick] := by decide
  have chars : ("`" ++ (text ++ ("`" ++ rest))).toList = tick :: (text.toList ++ tick :: rest.toList) := by
    simp [delimiter]
  have body := h (tick :: rest.toList) [] rest.toList
  have ends : scan .template .text (tick :: rest.toList) = some ([], rest.toList) := scan_end .template _
  rw [List.append_nil, ends, and_iff_left rfl] at body
  rw [read, chars]
  exact body

end ReadAs

end Quotation

/-! ### Queries of statements -/

open Quotation (Piece ReadAs words)

/-- A key as the text of a query has it. -/
def keyLiteral (key : String) : String := "\"" ++ key ++ "\""

/-- What a query is to say of an imported field. -/
def entryPieces (e : String × Ref) : List Piece :=
  words (keyLiteral e.1) ++ words ": " ++ [.value e.2.text]

/-- What a query is to say of imported fields. -/
def importPieces (entries : List (String × Ref)) : List Piece :=
  words "\x7b" ++ List.intercalate (words ", ") (entries.map entryPieces) ++ words "\x7d"

/-- What a query is to say of the ends of an edge. -/
def endPieces : Option (Ref × Ref) → List Piece
  | none => []
  | some (source, target) =>
    words ", \x7b\"_from\": " ++ [.value source.text] ++ words ", \"_to\": " ++ [.value target.text] ++ words "\x7d"

namespace Statement

/-- The fields that a statement imports. -/
def imports : Statement → List (String × Ref)
  | insert _ _ _ entries _ => entries
  | update _ _ _ _ entries => entries
  | _ => []

/-- What the query of an inserting or updating statement is to say. -/
def query? : Statement → Option (List Piece)
  | insert _ C doc entries ends =>
    some (words "INSERT MERGE(" ++ [.value doc.text] ++ words ", " ++ importPieces entries ++ endPieces ends ++
      words ") IN " ++ [.value ("db." ++ C)] ++ words " RETURN NEW")
  | update _ C id doc entries =>
    some (words "UPDATE PARSE_IDENTIFIER(" ++ [.value id.text] ++ words ").key WITH MERGE(" ++ [.value doc.text] ++
      words ", " ++ importPieces entries ++ words ") IN " ++ [.value ("db." ++ C)] ++ words " RETURN NEW")
  | _ => none

end Statement

theorem readAs_interpolated {r : Ref} (inside : '\x7d' ∉ r.text.toList) :
    ReadAs (Script.interpolated r) [.value r.text] True :=
  .expression inside

theorem readAs_collection {C : String} (inside : '\x7d' ∉ C.toList) :
    ReadAs (Script.collection C) [.value ("db." ++ C)] True := by
  have whole : Script.collection C = "$\x7b" ++ ("db." ++ C) ++ "\x7d" := by
    rw [← String.toList_inj]
    simp [Script.collection]
  rw [whole]
  exact .expression (by simpa using inside)

theorem readAs_entries {entries : List (String × Ref)} (inside : ∀ e ∈ entries, '\x7d' ∉ e.2.text.toList) :
    ReadAs (", ".intercalate (entries.map fun e => Text.quoted e.1 ++ ": " ++ Script.interpolated e.2))
      (List.intercalate (words ", ") (entries.map entryPieces)) (∀ e ∈ entries, Quotation.Contained e.1.toList) := by
  have entry : ∀ e : String × Ref, '\x7d' ∉ e.2.text.toList →
      ReadAs (Text.quoted e.1 ++ ": " ++ Script.interpolated e.2) (entryPieces e) (Quotation.Contained e.1.toList) :=
    fun e inside => ((ReadAs.quoted e.1).before (.words (by decide))).before (readAs_interpolated inside)
  induction entries with
  | nil => simpa using ReadAs.empty
  | cons e entries ih =>
      have first := entry e (inside e List.mem_cons_self)
      have later := ih fun e mem => inside e (List.mem_cons_of_mem _ mem)
      cases entries with
      | nil => simpa using first
      | cons e' entries =>
          simp only [List.map_cons] at later ⊢
          rw [String.intercalate_cons_cons, List.intercalate_cons_cons, List.forall_mem_cons]
          exact (first.before (.words (by decide))).append later

theorem readAs_imports {entries : List (String × Ref)} (inside : ∀ e ∈ entries, '\x7d' ∉ e.2.text.toList) :
    ReadAs (Script.imports entries) (importPieces entries) (∀ e ∈ entries, Quotation.Contained e.1.toList) :=
  ((ReadAs.words (by decide)).after (readAs_entries inside)).before (.words (by decide))

/-- The line of a statement that binds the first row of a query. -/
theorem line_firstRow (depth : Nat) (var query : String) :
    Script.line depth ("let " ++ var ++ " = " ++ Script.firstRow query ++ ";") =
      String.ofList (List.replicate depth '\t') ++ "let " ++ var ++ " = db._query(aql" ++
        ("`" ++ (query ++ ("`" ++ ").next();\n"))) := by
  have opens : " = " ++ "db._query(aql`" = " = db._query(aql" ++ "`" := by decide
  have ends : "`).next()" ++ (";" ++ "\n") = "`" ++ ").next();\n" := by decide
  calc Script.line depth ("let " ++ var ++ " = " ++ Script.firstRow query ++ ";")
    _ = String.ofList (List.replicate depth '\t') ++ ("let " ++ (var ++ ((" = " ++ "db._query(aql`") ++
          (query ++ ("`).next()" ++ (";" ++ "\n")))))) := by
        delta Script.line Script.firstRow
        simp only [String.append_assoc]
    _ = _ := by
        rw [opens, ends]
        simp only [String.append_assoc]

/-- The line of an inserting or updating statement has its query in a template literal, and the query says what it
should just if all keys are contained. -/
theorem exists_statement_eq {s : Statement} {query : List Piece} (depth : Nat) (writes : s.query? = some query)
    (vars : ∀ b, s.binding? = some b → tick ∉ b.1.toList) (refs : ∀ r ∈ s.refs, '\x7d' ∉ r.text.toList)
    (target : ∀ C, s.target? = some C → '\x7d' ∉ C.toList) :
    ∃ start text, Script.statement depth s = start ++ ("`" ++ (text ++ ("`" ++ ").next();\n"))) ∧
      tick ∉ start.toList ∧ ReadAs text query (∀ e ∈ s.imports, Quotation.Contained e.1.toList) := by
  have start : ∀ var : String, tick ∉ var.toList →
      tick ∉ (String.ofList (List.replicate depth '\t') ++ "let " ++ var ++ " = db._query(aql").toList := by
    intro var plain
    have fixed : tick ∉ "let ".toList ∧ tick ∉ " = db._query(aql".toList ∧ tick ≠ '\t' := by decide
    simp only [String.toList_append, String.toList_ofList, List.mem_append, List.mem_replicate, not_or]
    exact ⟨⟨⟨fun tab => fixed.2.2 tab.2, fixed.1⟩, plain⟩, fixed.2.1⟩
  cases s with
  | insert var C doc entries ends =>
      cases writes
      have merge : ReadAs ("INSERT MERGE(" ++ Script.interpolated doc ++ ", ") _ True :=
        ((ReadAs.words (by decide)).before (readAs_interpolated (refs doc (by simp [Statement.refs])))).before
          (.words (by decide))
      have fields := merge.after (readAs_imports fun e mem => refs e.2 (by
        simp only [Statement.refs, List.mem_append, List.mem_cons]
        exact .inl (.inr (List.mem_map_of_mem mem))))
      refine ⟨_, _, line_firstRow depth var _, start var (vars _ rfl), ?_⟩
      refine (((fields.before ?_).before (.words (by decide))).before (readAs_collection (target C rfl))).before
        (.words (by decide))
      cases ends with
      | none => exact .empty
      | some pair =>
          have source := readAs_interpolated (refs pair.1 (by simp [Statement.refs, endRefs]))
          have target := readAs_interpolated (refs pair.2 (by simp [Statement.refs, endRefs]))
          exact ((((ReadAs.words (by decide)).before source).before (.words (by decide))).before target).before
            (.words (by decide))
  | update var C id doc entries =>
      cases writes
      have merge : ReadAs ("UPDATE PARSE_IDENTIFIER(" ++ Script.interpolated id ++ ").key WITH MERGE(" ++
          Script.interpolated doc ++ ", ") _ True :=
        ((((ReadAs.words (by decide)).before (readAs_interpolated (refs id (by simp [Statement.refs])))).before
          (.words (by decide))).before (readAs_interpolated (refs doc (by simp [Statement.refs])))).before
            (.words (by decide))
      have fields := merge.after (readAs_imports fun e mem => refs e.2 (by
        simp only [Statement.refs, List.mem_cons]
        exact .inr (.inr (List.mem_map_of_mem mem))))
      refine ⟨_, _, line_firstRow depth var _, start var (vars _ rfl), ?_⟩
      exact ((fields.before (.words (by decide))).before (readAs_collection (target C rfl))).before
        (.words (by decide))
  | comment | remove | removeEdges | bind | setResult | guarded | assert | fail => cases writes

/-! ### What queries refer to -/

variable {m : Model} {D : Demands} {c c' : Context} {ds ds' : List Duty} {ss : List Statement}

theorem isName_append_toString {start : String} (named : IsName start) (n : Nat) :
    IsName (start ++ toString n) := by
  intro ch mem
  rw [String.toList_append] at mem
  exact (List.mem_append.mp mem).elim (named ch) (isWord_toString n ch)

theorem isName_of_isExportName {name : String} (h : isExportName name = true) : IsName name := by
  intro ch mem
  unfold isExportName at h
  split at h
  · cases h
  · rename_i first rest same
    simp only [Bool.and_eq_true, List.all_eq_true] at h
    rw [same] at mem
    rcases List.mem_cons.mp mem with rfl | mem
    · simp [isWord, Char.isAlphanum, h.1.1]
    · exact h.1.2 ch mem

theorem IsName.not_mem {name : String} (h : IsName name) {ch : Char} (other : isWord ch = false) :
    ch ∉ name.toList := by
  intro mem
  rw [h ch mem] at other
  cases other

/-- Parameters have names, and inserting and updating statements refer to parameters, exports and ids of
documents. -/
structure Context.Referring (c : Context) : Prop where
  params : ∀ {p v}, c.params.get? p = some v → IsName p
  statements : ∀ s ∈ partsOf c.statements, s.query? ≠ none → ∀ r ∈ s.refs, c.Known r
  deferred : ∀ s ∈ partsOf c.deferred, s.query? = none

/-- Each step refers to what is known before it. -/
theorem Emits.known (e : Emits m D c ds ss c' ds') :
    ∀ s ∈ partsOf ss, s.query? ≠ none → ∀ r ∈ s.refs, c.Known r := by
  have nothing : ∀ s ∈ partsOf [], s.query? ≠ none → ∀ r ∈ s.refs, c.Known r := fun s hs => by cases hs
  have imported : ∀ {imports : List (String × Ref)}, c.Imported imports → ∀ r ∈ imports.map Prod.snd, c.Known r := by
    intro imports given r mem
    obtain ⟨e, he, rfl⟩ := List.mem_map.mp mem
    obtain ⟨name, found⟩ := given e he
    exact .given (.exported found)
  cases e with
  | param | name | lockWrite | lockRead | noKey | defer | waive | forget => exact nothing
  | remark | abort | «export» | remove | removeEdge | dropEdges | assertFree | assertKey =>
      exact forall_partsOf_one rfl fun query => absurd rfl query
  | assertExists => exact forall_partsOf_existsCheck (fun query => absurd rfl query) fun _ query => absurd rfl query
  | clearEdges => exact forall_partsOf_clear fun _ _ query => absurd rfl query
  | insert document given =>
      refine forall_partsOf_one rfl fun _ r mem => ?_
      simp only [Statement.refs, endRefs, List.append_nil, List.mem_cons] at mem
      rcases mem with rfl | mem
      · exact .given (.param document)
      · exact imported given r mem
  | insertEdge document given source target =>
      refine forall_partsOf_one rfl fun _ r mem => ?_
      simp only [Statement.refs, endRefs, List.cons_append, List.mem_cons, List.mem_append, List.not_mem_nil,
        or_false] at mem
      rcases mem with rfl | mem | rfl | rfl
      · exact .given (.param document)
      · exact imported given r mem
      · exact source
      · exact target
  | update document given id | updateEdge document given id =>
      refine forall_partsOf_one rfl fun _ r mem => ?_
      simp only [Statement.refs, List.mem_cons] at mem
      rcases mem with rfl | rfl | mem
      · exact .given id
      · exact .given (.param document)
      · exact imported given r mem

theorem Emits.referring (e : Emits m D c ds ss c' ds') (h : c.Referring) : c'.Referring := by
  have statements : ∀ s ∈ partsOf c'.statements, s.query? ≠ none → ∀ r ∈ s.refs, c'.Known r := by
    intro s hs query r mem
    rw [e.statements_eq, partsOf_append] at hs
    rcases List.mem_append.mp hs with hs | hs
    · exact (h.statements s hs query r mem).mono e.extends
    · exact (e.known s hs query r mem).mono e.extends
  cases e with
  | param v =>
      refine ⟨fun {p w} found => ?_, statements, h.deferred⟩
      have found : (c.params.insert (paramName c.nextParam) v).get? p = some w := found
      rw [Record.get?_insert] at found
      split at found
      · rename_i same
        rw [same]
        exact isName_append_toString (by decide) _
      · exact h.params found
  | lockRead C =>
      by_cases locked : c.write.contains C = true
      · have same : c.lockRead C = c := if_pos locked
        rw [same]
        exact h
      · have same : c.lockRead C = { c with read := NameSet.insert c.read C } := if_neg locked
        rw [same] at statements ⊢
        exact ⟨h.params, statements, h.deferred⟩
  | defer type_def directives =>
      refine ⟨h.params, statements, fun s hs => ?_⟩
      have hs : s ∈ partsOf (c.deferred ++ _) := hs
      rw [partsOf_append, partsOf_deferral _ fun a ha => ((directives a).mp ha).parts_eq] at hs
      rcases List.mem_append.mp hs with hs | hs
      · exact h.deferred s hs
      · obtain ⟨_, _, _, _, _, _, _, _, _, rfl⟩ := (directives s).mp hs
        rfl
  | @forget _ id =>
      obtain ⟨memo, same⟩ := c.forget_eq id
      rw [same] at statements ⊢
      exact ⟨h.params, statements, h.deferred⟩
  | remark | abort | name | lockWrite | insert | insertEdge | update | updateEdge | remove | removeEdge
  | dropEdges | assertExists | assertFree | «export» | assertKey | noKey | clearEdges | waive =>
      exact ⟨h.params, statements, h.deferred⟩

theorem Context.Referring.empty (number : Nat) (remembers : Bool) :
    (Context.empty number remembers).Referring where
  params h := by cases h
  statements s hs := by cases hs
  deferred s hs := by cases hs

theorem Context.Referring.answer {name var : String} (h : c.Referring) : (c.answer name var).Referring := by
  refine ⟨h.params, fun s hs query r mem => ?_, h.deferred⟩
  have hs : s ∈ partsOf (c.statements ++ answerStatements name var) := hs
  rw [partsOf_append] at hs
  rcases List.mem_append.mp hs with hs | hs
  · exact (h.statements s hs query r mem).mono (extends_add c _)
  · rcases eq_of_mem_answerStatements hs with rfl | rfl
    · exact absurd rfl query
    · exact absurd rfl query

theorem Course.referring {number : Nat} {remembers : Bool} {answers : List (String × String)}
    (course : Course m D number remembers c ss answers) : c.Referring :=
  course.invariant (I := fun c _ => c.Referring) (.empty number remembers) (fun e h => e.referring h)
    fun _ _ h => h.answer

/-! ### Keys in submitted transactions -/

theorem Scoping.isName (h : Scoping c []) {b : String × Holding} (bound : b ∈ bindings c.statements) :
    IsName b.1 := by
  rcases h.names b bound with ⟨n, _, same⟩ | ⟨legal, _⟩
  · rw [same]
    exact isName_append_toString (by decide) n
  · exact isName_of_isExportName legal

/-- No reference to what is known closes an expression early. -/
theorem Scoping.not_mem_text (h : Scoping c []) (referring : c.Referring) {r : Ref} (known : c.Known r) :
    '\x7d' ∉ r.text.toList := by
  have brace : isWord '\x7d' = false := by decide
  cases known with
  | given given =>
      cases given with
      | param found =>
          have name := (referring.params found).not_mem brace
          simpa [Ref.text] using name
      | exported found =>
          obtain ⟨rfl, bound⟩ := h.exports found
          exact (h.isName bound).not_mem brace
  | document bound =>
      have name := (h.isName bound).not_mem brace
      simpa [Ref.id, Ref.text, Field.id] using name

theorem read_keyLiteral_iff (key : String) :
    Quotation.read .string (keyLiteral key) = some (words key, []) ↔
      '"' ∉ key.toList ∧ '\\' ∉ key.toList := by
  have chars : (keyLiteral key).toList = '"' :: (key.toList ++ ['"']) := by simp [keyLiteral]
  rw [Quotation.read, chars]
  exact Quotation.scan_string_iff key.toList

/-- What waits for the end of a transaction neither inserts nor updates. -/
theorem Context.Referring.mem_partsOf (h : c.Referring) {s : Statement} (mem : s ∈ partsOf c.transaction.statements)
    (query : s.query? ≠ none) : s ∈ partsOf c.statements := by
  rw [c.statements_transaction, partsOf_append] at mem
  refine (List.mem_append.mp mem).resolve_right fun mem => query ?_
  obtain ⟨s', hs, mem⟩ := DocGraph.mem_partsOf.mp mem
  rcases eq_or_mem_of_mem_finale hs with rfl | hs
  · rw [List.mem_singleton.mp mem]
    rfl
  · exact h.deferred s (DocGraph.mem_partsOf.mpr ⟨s', hs, mem⟩)

/-- Whatever calls a request has taken, the line of each inserting or updating statement that it hands over has its
query in a template literal, which starts at the first delimiter. This literal ends at the last delimiter of the
line and says what the query should, with no other expressions in it, just if no imported key has a delimiter or
opens an expression. A key between its quotes is read back just if it has no quote and no backslash. (No
collection has a closing brace in its name.) -/
theorem submitted_import_keys (m : Model) (number : Nat) (remembers : Bool) (names : List String)
    (calls : List Call) (call : Call) (t : Transaction)
    (h : submission? (((Request.start number remembers names).after m calls).call m call).1 = some t)
    (s : Statement) (mem : s ∈ partsOf t.statements) (query : List Piece) (writes : s.query? = some query)
    (target : ∀ C, s.target? = some C → '\x7d' ∉ C.toList) (depth : Nat) :
    ∃ start rest, Script.statement depth s = start ++ ("`" ++ rest) ∧ tick ∉ start.toList ∧
      (Quotation.read .template ("`" ++ rest) = some (query, ").next();\n".toList) ↔
        ∀ e ∈ s.imports, tick ∉ e.1.toList ∧ Text.contains e.1 "$\x7b" = false) ∧
      ∀ e ∈ s.imports, (Quotation.read .string (keyLiteral e.1) = some (words e.1, []) ↔
        '"' ∉ e.1.toList ∧ '\\' ∉ e.1.toList) := by
  have on := (Request.onCourse_start m number remembers names).after calls
  obtain ⟨c, _, _, _, _, course, rfl⟩ := ((call_turn m _ call).onCourse on).2 t h
  have scoping := course.scoping
  have referring := course.referring
  have queried : s.query? ≠ none := by simp [writes]
  have early := referring.mem_partsOf mem queried
  have vars : ∀ b, s.binding? = some b → tick ∉ b.1.toList := by
    intro b binds
    have bound : b ∈ bindings (partsOf c.statements) := List.mem_filterMap.mpr ⟨s, early, binds⟩
    rw [scoping.statements.bindings_partsOf] at bound
    exact (scoping.isName bound).not_mem (by decide)
  have refs : ∀ r ∈ s.refs, '\x7d' ∉ r.text.toList := fun r named =>
    scoping.not_mem_text referring (referring.statements s early queried r named)
  obtain ⟨start, text, line, plain, reads⟩ := exists_statement_eq depth writes vars refs target
  exact ⟨start, _, line, plain, reads.read_iff _, fun e _ => read_keyLiteral_iff e.1⟩

/-- A root field that creates a person with a field of some name, which gets the id that `creation` exports. -/
def importing (key : String) : Call where
  now := 1
  isRoot := true
  selection := ⟨"named", []⟩
  mutation := .create "Person" [(key, .var "person")]

/-- The reply to `importing` after `creation`. -/
def importReply (key : String) : Except Error Contribution :=
  (((Request.start 1 true ["new", "named"]).after acquaintances [creation]).call acquaintances (importing key)).1

theorem exists_of_any_query (x : Except Error Contribution) (test : Statement → List Piece → Bool)
    (h : ((submission? x).any fun t => (partsOf t.statements).any fun s => s.query?.any (test s)) = true) :
    ∃ t s query, submission? x = some t ∧ s ∈ partsOf t.statements ∧ s.query? = some query ∧
      test s query = true := by
  obtain ⟨t, submitted, h⟩ := (Option.any_eq_true _ _).mp h
  obtain ⟨s, mem, h⟩ := List.any_eq_true.mp h
  obtain ⟨query, queried, h⟩ := (Option.any_eq_true _ _).mp h
  exact ⟨t, s, query, submitted, mem, queried, h⟩

theorem submitted_import_keys_named :
    ∃ t s query start rest, submission? (importReply "cost in $\n\x7b\x7d") = some t ∧ s ∈ partsOf t.statements ∧
      s.query? = some query ∧ s.imports = [("cost in $\n\x7b\x7d", .exported "person")] ∧
      Script.statement 1 s = start ++ ("`" ++ rest) ∧ tick ∉ start.toList ∧
      Quotation.read .template ("`" ++ rest) = some (query, ").next();\n".toList) ∧
      Quotation.read .string (keyLiteral "cost in $\n\x7b\x7d") = some (words "cost in $\n\x7b\x7d", []) := by
  obtain ⟨t, s, query, submitted, mem, queried, tested⟩ := exists_of_any_query
    (importReply "cost in $\n\x7b\x7d") (fun s _ => s.target? = some "Person" ∧
      s.imports = [("cost in $\n\x7b\x7d", .exported "person")]) (by decide +kernel)
  obtain ⟨target, imports⟩ := of_decide_eq_true tested
  have closed : ∀ C, s.target? = some C → '\x7d' ∉ C.toList := by
    intro C same
    cases target.symm.trans same
    decide
  obtain ⟨start, rest, line, plain, reads, keys⟩ :=
    submitted_import_keys _ _ _ _ _ _ t submitted s mem query queried closed 1
  rw [imports] at reads keys
  exact ⟨t, s, query, start, rest, submitted, mem, queried, imports, line, plain, reads.mpr (by decide),
    (keys _ List.mem_cons_self).mpr (by decide)⟩

/-- A request that imports a field under this key hands over a query that is not read back. -/
def GoesAstray (key : String) : Prop :=
  ∃ t s query start rest, submission? (importReply key) = some t ∧ s ∈ partsOf t.statements ∧
    s.query? = some query ∧ s.imports = [(key, .exported "person")] ∧
    Script.statement 1 s = start ++ ("`" ++ rest) ∧ tick ∉ start.toList ∧
    ¬ (Quotation.read .template ("`" ++ rest) = some (query, ").next();\n".toList) ∧
      Quotation.read .string (keyLiteral key) = some (words key, []))

theorem goesAstray {key : String} (reply : ((submission? (importReply key)).any fun t =>
      (partsOf t.statements).any fun s => s.query?.any fun _ => s.binding? = some ("_x3", .document) ∧
        s.target? = some "Person" ∧ s.refs = [.param "_3", .exported "person"] ∧
          s.imports = [(key, .exported "person")]) = true)
    (special : ¬ ((tick ∉ key.toList ∧ Text.contains key "$\x7b" = false) ∧
      '"' ∉ key.toList ∧ '\\' ∉ key.toList)) : GoesAstray key := by
  have inside : ∀ r ∈ [Ref.param "_3", .exported "person"], '\x7d' ∉ r.text.toList := by decide
  obtain ⟨t, s, query, submitted, part, queried, tested⟩ := exists_of_any_query _ _ reply
  obtain ⟨binds, writes, refs, imports⟩ := of_decide_eq_true tested
  obtain ⟨start, text, line, plain, reads⟩ := exists_statement_eq 1 queried
    (fun b same => by
      cases binds.symm.trans same
      decide)
    (fun r named => inside r (refs ▸ named))
    (fun C same => by
      cases writes.symm.trans same
      decide)
  refine ⟨t, s, query, start, _, submitted, part, queried, imports, line, plain, fun both => ?_⟩
  have contained := (reads.read_iff _).mp both.1
  rw [imports] at contained
  exact special ⟨contained _ List.mem_cons_self, (read_keyLiteral_iff key).mp both.2⟩

/-- A delimiter, an opening expression, a quote or a backslash in a key spoils the query. -/
theorem submitted_import_keys_astray :
    GoesAstray "a`b" ∧ GoesAstray "a$\x7bb" ∧ GoesAstray "a\"b" ∧ GoesAstray "a\\b" :=
  ⟨goesAstray (by decide +kernel) (by decide), goesAstray (by decide +kernel) (by decide),
    goesAstray (by decide +kernel) (by decide), goesAstray (by decide +kernel) (by decide)⟩

end DocGraph
