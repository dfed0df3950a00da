import DocGraph.Proofs.Names
import DocGraph.Query.Basic

/-! # Placeholders in query text

The text of a query is written from left to right while its literals are bound, all under one count. What is
written depends on the *outline* of the query alone, which is the query without its literals, and what is
bound are the literals in order. `Writes` says so of a step, and it is kept by sequences of steps. The second
half scans a text for placeholders: `Shows` says which ones a piece of text has. Main statement: queries of one
outline have one text, their literals are bound in order, and the placeholders of the text are the names bound
(`ReadQuery.text_of_outline`). -/

namespace DocGraph

variable {α β : Type}

/-! ### Literals and their names -/

/-- What a placeholder stands for: a value or a collection. -/
inductive Literal where
  | value (v : Json)
  | collection (name : String)

namespace Literal

/-- The name of the literal of a number. -/
def name (n : Nat) : Literal → String
  | value _ => "value" ++ toString n
  | collection _ => "@value" ++ toString n

/-- The value that is bound. -/
def json : Literal → Json
  | value v => v
  | collection name => .str name

/-- A name tells the number. -/
theorem name_inj {k l : Literal} {m n : Nat} (h : k.name m = l.name n) : m = n := by
  cases k <;> cases l
  · exact append_toString_injective h
  · simpa [name, String.toList_append] using congrArg String.toList h
  · simpa [name, String.toList_append] using congrArg String.toList h
  · exact append_toString_injective h

end Literal

/-- Literals under their names, with numbers from `n` on. -/
def numbered (n : Nat) : List Literal → Binds
  | [] => []
  | l :: rest => (l.name n, l.json) :: numbered (n + 1) rest

theorem length_numbered (n : Nat) (ls : List Literal) : (numbered n ls).length = ls.length := by
  induction ls generalizing n with
  | nil => rfl
  | cons l rest ih => simp [numbered, ih]

theorem numbered_append (n : Nat) (ls ms : List Literal) :
    numbered n (ls ++ ms) = numbered n ls ++ numbered (n + ls.length) ms := by
  induction ls generalizing n with
  | nil => rfl
  | cons l rest ih => simp [numbered, ih, Nat.add_assoc, Nat.add_comm 1]

/-- Numbers before the first and after the last give new names. -/
theorem name_not_mem_numbered {l : Literal} {k n : Nat} {ls : List Literal} (h : k < n ∨ n + ls.length ≤ k) :
    l.name k ∉ (numbered n ls).names := by
  induction ls generalizing n with
  | nil => exact List.not_mem_nil
  | cons m rest ih =>
      rw [List.length_cons] at h
      intro mem
      rcases List.mem_cons.mp mem with same | mem
      · have := Literal.name_inj same
        omega
      · exact ih (by omega) mem

/-! ### Steps that write -/

/-- A step that gives `f n`, where `n` literals are bound before it, and then binds the literals `ls`. -/
def Writes (x : StateM Binds α) (f : Nat → α) (ls : List Literal) : Prop :=
  ∀ before, x (numbered 0 before) = (f before.length, numbered 0 (before ++ ls))

namespace Writes

theorem pure (a : α) : Writes (Pure.pure a) (fun _ => a) [] := by
  intro before
  rw [List.append_nil]
  rfl

theorem bind {x : StateM Binds α} {k : α → StateM Binds β} {f : Nat → α} {g : α → Nat → β}
    {ls ms : List Literal} (hx : Writes x f ls) (hk : ∀ a, Writes (k a) (g a) ms) :
    Writes (x >>= k) (fun n => g (f n) (n + ls.length)) (ls ++ ms) := by
  intro before
  show k (x (numbered 0 before)).1 (x (numbered 0 before)).2 = _
  rw [hx before, hk, List.length_append, List.append_assoc]

theorem map {x : StateM Binds α} {f : Nat → α} {ls : List Literal} (hx : Writes x f ls) (g : α → β) :
    Writes (x >>= fun a => Pure.pure (g a)) (fun n => g (f n)) ls := by
  have steps := hx.bind fun a => .pure (g a)
  rwa [List.append_nil] at steps

theorem congr {x : StateM Binds α} {f g : Nat → α} {ls ms : List Literal} (hx : Writes x f ls)
    (same : ∀ n, f n = g n) (list : ls = ms) : Writes x g ms := by
  obtain rfl : f = g := funext same
  exact list ▸ hx

theorem place (l : Literal) :
    Writes (fun binds => Binds.place (l.name binds.length) l.json binds) (fun n => "@" ++ l.name n) [l] := by
  intro before
  have new : l.name before.length ∉ (numbered 0 before).names :=
    name_not_mem_numbered (.inr (Nat.le_of_eq (Nat.zero_add _)))
  simp only [Binds.place, length_numbered]
  rw [Record.insert_of_not_mem new, numbered_append, Nat.zero_add]
  rfl

theorem value (v : Json) : Writes (Binds.value v) (fun n => "@" ++ (Literal.value v).name n) [.value v] :=
  place (.value v)

theorem collection (name : String) :
    Writes (Binds.collection name) (fun n => "@" ++ (Literal.collection name).name n) [.collection name] :=
  place (.collection name)

end Writes

/-! ### Conditions -/

/-- The placeholder of a value. -/
def valuePlace (n : Nat) : String := "@" ++ ("value" ++ toString n)

namespace Condition

mutual

/-- The literals of a condition from left to right. -/
def literals : Condition → List Json
  | compare _ _ v => [v]
  | among _ vs _ => [.arr vs]
  | like _ pattern _ _ => [.str pattern]
  | all parts => partLiterals parts
  | any parts => partLiterals parts
  | notAll parts => partLiterals parts

/-- The literals of a list of conditions. -/
def partLiterals : List Condition → List Json
  | [] => []
  | c :: rest => literals c ++ partLiterals rest

end

mutual

/-- A condition without its literals. A group of fewer than two parts is written like a conjunction, and
counts as one. -/
def outline : Condition → Condition
  | compare target comparison _ => compare target comparison .null
  | among target _ negated => among target [] negated
  | like target _ ignoreCase negated => like target "" ignoreCase negated
  | all parts => all (partOutlines parts)
  | any parts => if parts.length < 2 then all (partOutlines parts) else any (partOutlines parts)
  | notAll parts => notAll (partOutlines parts)

/-- A list of conditions without their literals. -/
def partOutlines : List Condition → List Condition
  | [] => []
  | c :: rest => outline c :: partOutlines rest

end

mutual

/-- The text of a condition after `n` literals. -/
def written (n : Nat) : Condition → String
  | compare target comparison _ => target.text ++ " " ++ comparison.sign ++ " " ++ valuePlace n
  | among target _ negated =>
    target.text ++ " " ++ (if negated then "NOT " else "") ++ "IN " ++ valuePlace n
  | like target _ ignoreCase negated =>
    (if negated then "NOT " else "") ++ "LIKE(" ++ target.text ++ ", " ++ valuePlace n ++ ", " ++
      (if ignoreCase then "true" else "false") ++ ")"
  | all parts => "(" ++ joined " AND " (partsWritten n parts) ++ ")"
  | any parts => "(" ++ joined " OR " (partsWritten n parts) ++ ")"
  | notAll parts => "NOT (" ++ joined " AND " (partsWritten n parts) ++ ")"

/-- The texts of a list of conditions after `n` literals. -/
def partsWritten (n : Nat) : List Condition → List String
  | [] => []
  | c :: rest => written n c :: partsWritten (n + (literals c).length) rest

end

mutual

theorem text_writes (c : Condition) : Writes c.text (fun n => c.written n) (c.literals.map .value) := by
  cases c with
  | compare target comparison v => exact (Writes.value v).map _
  | among target vs negated => exact (Writes.value (.arr vs)).map _
  | like target pattern ignoreCase negated => exact (Writes.value (.str pattern)).map _
  | all parts | any parts | notAll parts => exact (texts_writes parts).map _

theorem texts_writes (cs : List Condition) :
    Writes (texts cs) (fun n => partsWritten n cs) ((partLiterals cs).map .value) := by
  cases cs with
  | nil => exact .pure _
  | cons c rest =>
      have steps := (text_writes c).bind fun t => (texts_writes rest).map fun ts => t :: ts
      rw [List.length_map] at steps
      rw [partLiterals, List.map_append]
      exact steps

end

/-- The text of a filter clause after `n` literals. -/
def clauseWritten (n : Nat) (cs : List Condition) : String :=
  if cs.isEmpty then "" else " FILTER " ++ joined " AND " (partsWritten n cs)

theorem clause_writes (cs : List Condition) :
    Writes (clause cs) (fun n => clauseWritten n cs) ((partLiterals cs).map .value) := by
  cases cs with
  | nil => exact .pure _
  | cons c rest => exact (texts_writes (c :: rest)).map _

/-! Literals do not show in the text. -/

mutual

theorem length_literals_outline (c : Condition) : c.outline.literals.length = c.literals.length := by
  cases c with
  | compare | among | like => rfl
  | all parts | notAll parts => exact length_partLiterals_outlines parts
  | any parts =>
      rw [outline]
      split
      · exact length_partLiterals_outlines parts
      · exact length_partLiterals_outlines parts

theorem length_partLiterals_outlines (cs : List Condition) :
    (partLiterals (partOutlines cs)).length = (partLiterals cs).length := by
  cases cs with
  | nil => rfl
  | cons c rest =>
      rw [partOutlines, partLiterals, partLiterals, List.length_append, List.length_append,
        length_literals_outline c, length_partLiterals_outlines rest]

end

theorem length_partOutlines (cs : List Condition) : (partOutlines cs).length = cs.length := by
  induction cs with
  | nil => rfl
  | cons c rest ih => rw [partOutlines, List.length_cons, List.length_cons, ih]

theorem length_partsWritten (n : Nat) (cs : List Condition) : (partsWritten n cs).length = cs.length := by
  induction cs generalizing n with
  | nil => rfl
  | cons c rest ih => rw [partsWritten, List.length_cons, List.length_cons, ih]

/-- Fewer than two texts show no separator. -/
theorem joined_of_length_lt {texts : List String} (h : texts.length < 2) (s s' : String) :
    joined s texts = joined s' texts := by
  rcases texts with _ | ⟨t, _ | ⟨u, rest⟩⟩
  · rfl
  · simp [joined, String.intercalate_singleton]
  · simp only [List.length_cons] at h
    omega

mutual

theorem written_outline (n : Nat) (c : Condition) : c.outline.written n = c.written n := by
  cases c with
  | compare | among | like => rfl
  | all parts | notAll parts => rw [outline, written, written, partsWritten_outlines n parts]
  | any parts =>
      rw [outline]
      split
      · rename_i short
        rw [written, written, partsWritten_outlines n parts]
        rw [joined_of_length_lt (by rwa [length_partsWritten]) " AND " " OR "]
      · rw [written, written, partsWritten_outlines n parts]

theorem partsWritten_outlines (n : Nat) (cs : List Condition) :
    partsWritten n (partOutlines cs) = partsWritten n cs := by
  cases cs with
  | nil => rfl
  | cons c rest =>
      rw [partOutlines, partsWritten, partsWritten, written_outline n c, length_literals_outline c,
        partsWritten_outlines _ rest]

end

theorem clauseWritten_outlines (n : Nat) (cs : List Condition) :
    clauseWritten n (partOutlines cs) = clauseWritten n cs := by
  rw [clauseWritten, clauseWritten, partsWritten_outlines]
  cases cs <;> rfl

end Condition

/-! ### Queries -/

/-- The placeholders of collections after `n` literals. -/
def collectionPlaces (n : Nat) : List String → List String
  | [] => []
  | _ :: rest => ("@" ++ ("@value" ++ toString n)) :: collectionPlaces (n + 1) rest

theorem collections_write (names : List String) :
    Writes (names.mapM Binds.collection) (fun n => collectionPlaces n names) (names.map .collection) := by
  induction names with
  | nil => exact .pure _
  | cons name rest ih =>
      rw [List.mapM_cons]
      exact (Writes.collection name).bind fun place => ih.map fun places => place :: places

/-- The names of the rows that a traversal gives. -/
def Yield.rows (row : String) : Yield → String
  | vertex => row
  | edge => "v, " ++ row

namespace Source

/-- The literals of a source from left to right. -/
def literals : Source → List Literal
  | collections names => names.map .collection
  | traversal start _ edges _ => .value (.str start) :: edges.map .collection

/-- A source without its literals. -/
def outline : Source → Source
  | collections names => collections (names.map fun _ => "")
  | traversal _ direction edges yields => traversal "" direction (edges.map fun _ => "") yields

/-- The text of a source after `n` literals. -/
def written (row : String) (n : Nat) : Source → String
  | collections [_] => "FOR " ++ row ++ " IN " ++ ("@" ++ ("@value" ++ toString n))
  | collections names =>
    "FOR " ++ row ++ " IN FLATTEN(FOR i IN [" ++ ", ".intercalate (collectionPlaces n names) ++ "] RETURN i)"
  | traversal _ direction edges yields =>
    "FOR " ++ yields.rows row ++ " IN 1..1 " ++ direction.text ++ " " ++ valuePlace n ++ " " ++
      ", ".intercalate (collectionPlaces (n + 1) edges)

theorem text_writes (row : String) (s : Source) :
    Writes (s.text row) (fun n => s.written row n) s.literals := by
  rcases s with _ | ⟨start, direction, edges, yields⟩
  · rename_i names
    rcases names with _ | ⟨name, _ | ⟨other, rest⟩⟩
    · exact (collections_write []).map _
    · exact (Writes.collection name).map _
    · exact (collections_write (name :: other :: rest)).map _
  · cases yields <;>
      exact (Writes.value (.str start)).bind fun _ => (collections_write edges).map _

theorem length_literals_outline (s : Source) : s.outline.literals.length = s.literals.length := by
  cases s <;> simp [outline, literals]

theorem written_outline (row : String) (n : Nat) (s : Source) :
    s.outline.written row n = s.written row n := by
  have places (n : Nat) (names : List String) :
      collectionPlaces n (names.map fun _ => "") = collectionPlaces n names := by
    induction names generalizing n with
    | nil => rfl
    | cons name rest ih => rw [List.map_cons, collectionPlaces, collectionPlaces, ih]
  rcases s with _ | ⟨start, direction, edges, yields⟩
  · rename_i names
    rcases names with _ | ⟨name, _ | ⟨other, rest⟩⟩
    · rfl
    · rfl
    · exact congrArg (fun texts => "FOR " ++ row ++ " IN FLATTEN(FOR i IN [" ++ ", ".intercalate texts ++
        "] RETURN i)") (places n (name :: other :: rest))
  · exact congrArg (fun texts => "FOR " ++ yields.rows row ++ " IN 1..1 " ++ direction.text ++ " " ++
      valuePlace n ++ " " ++ ", ".intercalate texts) (places (n + 1) edges)

end Source

namespace ReadQuery

/-- The literals of a query from left to right. -/
def literals (q : ReadQuery) : List Literal :=
  q.source.literals ++ ((Condition.partLiterals q.conditions).map .value ++
    ((q.after.map fun id => .value (.str id)).toList ++ (q.limit.map fun n => .value (.nat n)).toList))

/-- A query without its literals. -/
def outline (q : ReadQuery) : ReadQuery :=
  { q with
    source := q.source.outline
    conditions := Condition.partOutlines q.conditions
    after := q.after.map fun _ => ""
    limit := q.limit.map fun _ => 0 }

/-- The clause that keeps greater ids. -/
def afterClause (q : ReadQuery) : StateM Binds String :=
  match q.after with
  | some id => do return " FILTER " ++ q.row ++ "._id > " ++ (← Binds.value (.str id))
  | none => return ""

/-- The text of the clause that keeps greater ids, after `n` literals. -/
def afterWritten (q : ReadQuery) (n : Nat) : String :=
  (q.after.map fun _ => " FILTER " ++ q.row ++ "._id > " ++ valuePlace n).getD ""

theorem afterClause_writes (q : ReadQuery) :
    Writes q.afterClause (fun n => q.afterWritten n) (q.after.map fun id => .value (.str id)).toList := by
  unfold afterClause afterWritten
  cases q.after with
  | none => exact .pure _
  | some id => exact (Writes.value (.str id)).map _

/-- The clause that limits the number of rows. -/
def limitClause (q : ReadQuery) : StateM Binds String :=
  match q.limit with
  | some n => do return " LIMIT " ++ (← Binds.value (.nat n))
  | none => return ""

/-- The text of the clause that limits the number of rows, after `n` literals. -/
def limitWritten (q : ReadQuery) (n : Nat) : String :=
  (q.limit.map fun _ => " LIMIT " ++ valuePlace n).getD ""

theorem limitClause_writes (q : ReadQuery) :
    Writes q.limitClause (fun n => q.limitWritten n) (q.limit.map fun n => .value (.nat n)).toList := by
  unfold limitClause limitWritten
  cases q.limit with
  | none => exact .pure _
  | some n => exact (Writes.value (.nat n)).map _

/-- The text of the order of the rows. -/
def sortWritten (q : ReadQuery) : String :=
  if q.sortById then " SORT " ++ q.row ++ "._id" else ""

/-- The text of what is given. -/
def resultWritten (q : ReadQuery) : String :=
  match q.projection with
  | .documents => " RETURN " ++ q.row
  | .count => " COLLECT WITH COUNT INTO length RETURN length"

/-- The text of a query after `n` literals. -/
def written (q : ReadQuery) (n : Nat) : String :=
  let n₁ := n + q.source.literals.length
  let n₂ := n₁ + (Condition.partLiterals q.conditions).length
  let n₃ := n₂ + q.after.toList.length
  q.source.written q.row n ++ Condition.clauseWritten n₁ q.conditions ++ q.afterWritten n₂ ++ q.sortWritten ++
    q.limitWritten n₃ ++ q.resultWritten

theorem clauses_eq (q : ReadQuery) :
    q.clauses = (do
      let source ← q.source.text q.row
      let conditions ← Condition.clause q.conditions
      let after ← q.afterClause
      let limit ← q.limitClause
      return source ++ conditions ++ after ++ q.sortWritten ++ limit ++ q.resultWritten) := by
  unfold clauses afterClause limitClause
  cases q.after <;> cases q.limit <;> rfl

theorem clauses_writes (q : ReadQuery) : Writes q.clauses (fun n => q.written n) q.literals := by
  rw [clauses_eq]
  refine ((q.source.text_writes q.row).bind fun _ => (Condition.clause_writes q.conditions).bind fun _ =>
    q.afterClause_writes.bind fun _ => q.limitClause_writes.map _).congr (fun n => ?_) rfl
  simp only [List.length_map, Option.length_toList, Option.isSome_map]
  unfold written
  simp only [Option.length_toList]

theorem text_eq (q : ReadQuery) : q.text = ⟨q.written 0, numbered 0 q.literals⟩ := by
  have run : q.clauses [] = (q.written 0, numbered 0 q.literals) := q.clauses_writes []
  rw [text, run]

theorem written_outline (q : ReadQuery) (n : Nat) : q.outline.written n = q.written n := by
  have after (n : Nat) : q.outline.afterWritten n = q.afterWritten n := by
    unfold afterWritten outline
    cases q.after <;> rfl
  have limit (n : Nat) : q.outline.limitWritten n = q.limitWritten n := by
    unfold limitWritten outline
    cases q.limit <;> rfl
  have count : q.outline.after.toList.length = q.after.toList.length := by
    unfold outline
    cases q.after <;> rfl
  have source : q.outline.source = q.source.outline := rfl
  have conditions : q.outline.conditions = Condition.partOutlines q.conditions := rfl
  have row : q.outline.row = q.row := rfl
  have sort : q.outline.sortWritten = q.sortWritten := rfl
  have result : q.outline.resultWritten = q.resultWritten := rfl
  unfold written
  simp only [after, limit, count, source, conditions, row, sort, result, Source.written_outline,
    Source.length_literals_outline, Condition.clauseWritten_outlines, Condition.length_partLiterals_outlines]

end ReadQuery

/-! ### Reading placeholders off a text -/

/-- Whether a character may stand in a name. -/
def isWord (c : Char) : Bool := c.isAlphanum || c == '_'

/-- The names after at signs in a text, from left to right. A second at sign belongs to the name. -/
def placeholders : List Char → List String
  | [] => []
  | '@' :: '@' :: rest => String.ofList ('@' :: rest.takeWhile isWord) :: placeholders rest
  | '@' :: rest => String.ofList (rest.takeWhile isWord) :: placeholders rest
  | _ :: rest => placeholders rest

theorem placeholders_of_not_mem {s : List Char} (h : '@' ∉ s) (r : List Char) :
    placeholders (s ++ r) = placeholders r := by
  induction s with
  | nil => rfl
  | cons c rest ih =>
      obtain ⟨other, later⟩ := not_or.mp (mt List.mem_cons.mpr h)
      rw [List.cons_append, placeholders, ih later]
      · exact fun _ same => absurd same.symm other
      · exact Ne.symm other

/-- A text that does not go on with a name. -/
def Closed (r : List Char) : Prop := ∀ c, r.head? = some c → isWord c = false

theorem closed_of_head {s : List Char} {c : Char} (head : s.head? = some c) (other : isWord c = false) :
    Closed s := by
  intro c' first
  cases head.symm.trans first
  exact other

theorem takeWhile_isWord {w r : List Char} (word : ∀ c ∈ w, isWord c = true) (closed : Closed r) :
    (w ++ r).takeWhile isWord = w := by
  rw [List.takeWhile_append_of_pos word]
  cases r with
  | nil => simp
  | cons c rest => simp [closed c rfl]

theorem isWord_toString (n : Nat) : ∀ c ∈ (toString n).toList, isWord c = true := by
  intro c mem
  have digits : (toString n).toList = Nat.toDigits 10 n := Nat.toList_repr
  rw [digits] at mem
  simp [isWord, Char.isAlphanum, Nat.isDigit_of_mem_toDigits (by decide) (by decide) mem]

/-- A text, written after `n` literals, in which the placeholders of the literals `ls` stand in order. -/
def Shows (n : Nat) (s : String) (ls : List Literal) : Prop :=
  ∀ r, Closed r → placeholders (s.toList ++ r) = (numbered n ls).names ++ placeholders r

namespace Shows

variable {n : Nat} {s t : String} {ls ms : List Literal}

theorem plain (h : '@' ∉ s.toList) : Shows n s [] :=
  fun r _ => placeholders_of_not_mem h r

/-- Text without placeholders may come before any text. -/
theorem after (h : '@' ∉ s.toList) (ht : Shows n t ms) : Shows n (s ++ t) ms := by
  intro r closed
  rw [String.toList_append, List.append_assoc, placeholders_of_not_mem h, ht r closed]

/-- A text that cannot be taken for more of a name may come after any text. -/
theorem append (hs : Shows n s ls) (ht : Shows (n + ls.length) t ms) (closed : Closed t.toList) :
    Shows n (s ++ t) (ls ++ ms) := by
  intro r closed'
  have next : Closed (t.toList ++ r) := by
    cases h : t.toList with
    | nil => exact closed'
    | cons c rest =>
        intro c' head
        exact closed c' (by rw [h]; exact head)
  rw [String.toList_append, List.append_assoc, hs _ next, ht r closed', numbered_append, ← List.append_assoc]
  exact congrArg (· ++ placeholders r) List.map_append.symm

theorem then_plain (hs : Shows n s ls) (h : '@' ∉ t.toList) (closed : Closed t.toList) :
    Shows n (s ++ t) ls := by
  have whole := hs.append (.plain h) closed
  rwa [List.append_nil] at whole

theorem place (l : Literal) : Shows n ("@" ++ l.name n) [l] := by
  intro r closed
  have word : ∀ c ∈ "value".toList ++ (toString n).toList, isWord c = true := by
    intro c mem
    rcases List.mem_append.mp mem with letter | digit
    · exact List.all_eq_true.mp (show "value".toList.all isWord = true by decide) c letter
    · exact isWord_toString n c digit
  have noAt : '@' ∉ "value".toList ++ (toString n).toList := fun mem => absurd (word _ mem) (by decide)
  have skip := placeholders_of_not_mem noAt r
  have name := takeWhile_isWord word closed
  rw [String.toList_append]
  cases l with
  | value v =>
      have text : ((Literal.value v).name n).toList = "value".toList ++ (toString n).toList :=
        String.toList_append
      show placeholders ('@' :: (((Literal.value v).name n).toList ++ r)) = _
      rw [text, placeholders, name, skip, ← text, String.ofList_toList]
      · rfl
      · exact fun rest same => by cases same
  | collection c =>
      have text : ((Literal.collection c).name n).toList = '@' :: ("value".toList ++ (toString n).toList) :=
        String.toList_append
      show placeholders ('@' :: (((Literal.collection c).name n).toList ++ r)) = _
      rw [text, List.cons_append, placeholders, name, skip, ← text, String.ofList_toList]
      rfl

end Shows

namespace Condition

mutual

/-- The names of rows and fields in a condition. -/
def names : Condition → List String
  | compare target _ _ => [target.row, target.field]
  | among target _ _ => [target.row, target.field]
  | like target _ _ _ => [target.row, target.field]
  | all parts => partNames parts
  | any parts => partNames parts
  | notAll parts => partNames parts

/-- The names of rows and fields in a list of conditions. -/
def partNames : List Condition → List String
  | [] => []
  | c :: rest => names c ++ partNames rest

end

theorem at_not_mem_text {target : FieldRef}
    (plain : ∀ name ∈ [target.row, target.field], '@' ∉ name.toList) : '@' ∉ target.text.toList := by
  have row := plain target.row List.mem_cons_self
  have field := plain target.field (List.mem_cons_of_mem _ List.mem_cons_self)
  simp [FieldRef.text, String.toList_append, row, field]

/-- Parts in brackets. -/
theorem shows_group {start text : String} {n : Nat} {ls : List Literal} (h : Shows n text ls)
    (noAt : '@' ∉ start.toList) : Shows n (start ++ text ++ ")") ls :=
  (Shows.after noAt h).then_plain (by decide) (closed_of_head (c := ')') rfl (by decide))

mutual

theorem shows (c : Condition) (plain : ∀ name ∈ c.names, '@' ∉ name.toList) (n : Nat) :
    Shows n (c.written n) (c.literals.map .value) := by
  cases c with
  | compare target comparison v =>
      have noAt := at_not_mem_text plain
      refine Shows.after ?_ (.place (.value v))
      cases comparison <;> simp [String.toList_append, noAt, Comparison.sign]
  | among target vs negated =>
      have noAt := at_not_mem_text plain
      refine Shows.after ?_ (.place (.value (.arr vs)))
      cases negated <;> simp [String.toList_append, noAt]
  | like target pattern ignoreCase negated =>
      have noAt := at_not_mem_text plain
      have start : Shows n ((if negated then "NOT " else "") ++ "LIKE(" ++ target.text ++ ", " ++ valuePlace n)
          [.value (.str pattern)] := by
        refine Shows.after ?_ (.place (.value (.str pattern)))
        cases negated <;> simp [String.toList_append, noAt]
      have rest : Closed (", " ++ (if ignoreCase then "true" else "false") ++ ")").toList :=
        closed_of_head (c := ',') (by simp [String.toList_append]) (by decide)
      have whole := start.then_plain (by cases ignoreCase <;> decide) rest
      simp only [← String.append_assoc] at whole
      exact whole
  | all parts => exact shows_group (parts_show parts plain (by decide) rfl n) (by decide)
  | any parts => exact shows_group (parts_show parts plain (by decide) rfl n) (by decide)
  | notAll parts => exact shows_group (parts_show parts plain (by decide) rfl n) (by decide)

theorem parts_show (cs : List Condition) (plain : ∀ name ∈ partNames cs, '@' ∉ name.toList)
    {separator : String} (noAt : '@' ∉ separator.toList) (blank : separator.toList.head? = some ' ')
    (n : Nat) : Shows n (joined separator (partsWritten n cs)) ((partLiterals cs).map .value) := by
  rcases cs with _ | ⟨c, _ | ⟨d, rest⟩⟩
  · exact Shows.plain (s := "true") (by decide)
  · have first := shows c (fun name mem => plain name (List.mem_append_left _ mem)) n
    rw [partLiterals, partLiterals, List.append_nil]
    simpa [partsWritten, joined, String.intercalate_singleton] using first
  · have first := shows c (fun name mem => plain name (List.mem_append_left _ mem)) n
    have others := parts_show (d :: rest) (fun name mem => plain name (List.mem_append_right _ mem)) noAt
      blank (n + (c.literals.map Literal.value).length)
    have gap : Closed (separator ++ joined separator (partsWritten (n + (c.literals.map Literal.value).length)
        (d :: rest))).toList :=
      closed_of_head (c := ' ') (by simp [String.toList_append, List.head?_append, blank]) (by decide)
    have whole := first.append (.after noAt others) gap
    rw [← List.map_append, List.length_map] at whole
    rw [partLiterals]
    simpa [partsWritten, joined, String.intercalate_cons_cons, String.append_assoc] using whole

end

theorem clause_shows (cs : List Condition) (plain : ∀ name ∈ partNames cs, '@' ∉ name.toList) (n : Nat) :
    Shows n (clauseWritten n cs) ((partLiterals cs).map .value) := by
  cases cs with
  | nil => exact Shows.plain (s := "") (by decide)
  | cons c rest => exact .after (by decide) (parts_show (c :: rest) plain (by decide) rfl n)

theorem closed_clauseWritten (n : Nat) (cs : List Condition) : Closed (clauseWritten n cs).toList := by
  unfold clauseWritten
  split
  · exact fun c head => by cases head
  · exact closed_of_head (c := ' ') (by simp [String.toList_append]) (by decide)

end Condition

theorem collectionPlaces_show (names : List String) (n : Nat) :
    Shows n (", ".intercalate (collectionPlaces n names)) (names.map .collection) := by
  induction names generalizing n with
  | nil => exact Shows.plain (s := "") (by decide)
  | cons name rest ih =>
      have first : Shows n _ [_] := .place (.collection name)
      cases rest with
      | nil =>
          rw [collectionPlaces, collectionPlaces, String.intercalate_singleton]
          exact first
      | cons other rest =>
          have gap : Closed (", " ++ ", ".intercalate (collectionPlaces (n + 1) (other :: rest))).toList :=
            closed_of_head (c := ',') (by simp [String.toList_append]) (by decide)
          have whole := first.append (.after (by decide) (ih (n + 1))) gap
          rw [← String.append_assoc] at whole
          rw [collectionPlaces, collectionPlaces, String.intercalate_cons_cons]
          exact whole

theorem Source.shows (s : Source) {row : String} (plain : '@' ∉ row.toList) (n : Nat) :
    Shows n (s.written row n) s.literals := by
  rcases s with names | ⟨start, direction, edges, yields⟩
  · have many (names : List String) : Shows n ("FOR " ++ row ++ " IN FLATTEN(FOR i IN [" ++
        ", ".intercalate (collectionPlaces n names) ++ "] RETURN i)") (names.map .collection) := by
      refine (Shows.after ?_ (collectionPlaces_show names n)).then_plain (by decide) ?_
      · simp [String.toList_append, plain]
      · exact closed_of_head (c := ']') rfl (by decide)
    rcases names with _ | ⟨name, _ | ⟨other, rest⟩⟩
    · exact many []
    · refine Shows.after ?_ (.place (.collection name))
      simp [String.toList_append, plain]
    · exact many (name :: other :: rest)
  · have first : Shows n ("FOR " ++ yields.rows row ++ " IN 1..1 " ++ direction.text ++ " " ++ valuePlace n)
        [.value (.str start)] := by
      refine Shows.after ?_ (.place (.value (.str start)))
      cases yields <;> cases direction <;> simp [String.toList_append, plain, Yield.rows, Direction.text]
    have gap : Closed (" " ++ ", ".intercalate (collectionPlaces (n + 1) edges)).toList :=
      closed_of_head (c := ' ') (by simp [String.toList_append]) (by decide)
    have whole := first.append (.after (by decide) (collectionPlaces_show edges (n + 1))) gap
    simp only [← String.append_assoc] at whole
    exact whole

namespace ReadQuery

/-- The names of rows and fields in a query. -/
def names (q : ReadQuery) : List String :=
  q.row :: Condition.partNames q.conditions

theorem afterWritten_shows {q : ReadQuery} (plain : '@' ∉ q.row.toList) (n : Nat) :
    Shows n (q.afterWritten n) (q.after.map fun id => .value (.str id)).toList ∧
      Closed (q.afterWritten n).toList := by
  unfold afterWritten
  cases q.after with
  | none => exact ⟨Shows.plain (s := "") (by decide), fun c head => by cases head⟩
  | some id =>
      refine ⟨.after ?_ (.place (.value (.str id))), ?_⟩
      · simp [String.toList_append, plain]
      · exact closed_of_head (c := ' ') (by simp [String.toList_append]) (by decide)

theorem limitWritten_shows (q : ReadQuery) (n : Nat) :
    Shows n (q.limitWritten n) (q.limit.map fun m => .value (.nat m)).toList ∧
      Closed (q.limitWritten n).toList := by
  unfold limitWritten
  cases q.limit with
  | none => exact ⟨Shows.plain (s := "") (by decide), fun c head => by cases head⟩
  | some m =>
      refine ⟨.after (by decide) (.place (.value (.nat m))), ?_⟩
      exact closed_of_head (c := ' ') (by simp [String.toList_append]) (by decide)

theorem sortWritten_plain {q : ReadQuery} (plain : '@' ∉ q.row.toList) :
    '@' ∉ q.sortWritten.toList ∧ Closed q.sortWritten.toList := by
  unfold sortWritten
  split
  · refine ⟨by simp [String.toList_append, plain], ?_⟩
    exact closed_of_head (c := ' ') (by simp [String.toList_append]) (by decide)
  · exact ⟨by decide, fun c head => by cases head⟩

theorem resultWritten_plain {q : ReadQuery} (plain : '@' ∉ q.row.toList) :
    '@' ∉ q.resultWritten.toList ∧ Closed q.resultWritten.toList := by
  unfold resultWritten
  cases q.projection with
  | documents =>
      refine ⟨by simp [String.toList_append, plain], ?_⟩
      exact closed_of_head (c := ' ') (by simp [String.toList_append]) (by decide)
  | count => exact ⟨by simp, closed_of_head (c := ' ') (by simp) (by decide)⟩

theorem shows (q : ReadQuery) (plain : ∀ name ∈ q.names, '@' ∉ name.toList) (n : Nat) :
    Shows n (q.written n) q.literals := by
  have row : '@' ∉ q.row.toList := plain q.row List.mem_cons_self
  have fields : ∀ name ∈ Condition.partNames q.conditions, '@' ∉ name.toList :=
    fun name mem => plain name (List.mem_cons_of_mem _ mem)
  obtain ⟨noAt, closed⟩ := sortWritten_plain row
  obtain ⟨noAt', closed'⟩ := resultWritten_plain row
  have first := (q.source.shows row n).append (Condition.clause_shows q.conditions fields _)
    (Condition.closed_clauseWritten _ q.conditions)
  have second := first.append (afterWritten_shows row _).1 (afterWritten_shows row _).2
  have third := (second.then_plain noAt closed).append (limitWritten_shows q _).1 (limitWritten_shows q _).2
  have whole := third.then_plain noAt' closed'
  simp only [List.append_assoc, List.length_append, List.length_map, Option.length_toList, Option.isSome_map,
    ← Nat.add_assoc] at whole
  unfold written
  simp only [Option.length_toList]
  exact whole

/-- Queries that differ in literals alone have the same text, and what is bound are the literals under their
numbers. If no name in the query has an at sign, the placeholders in the text are those that are bound, in the
same order. -/
theorem text_of_outline (q : ReadQuery) :
    (∀ q' : ReadQuery, q'.outline = q.outline → q'.text.query = q.text.query) ∧
      q.text.binds = numbered 0 q.literals ∧
      ((∀ name ∈ q.names, '@' ∉ name.toList) →
        placeholders q.text.query.toList = q.text.binds.names) := by
  rw [q.text_eq]
  refine ⟨fun q' same => ?_, rfl, fun plain => ?_⟩
  · rw [q'.text_eq]
    show q'.written 0 = q.written 0
    rw [← q'.written_outline, same, q.written_outline]
  · have scan := q.shows plain 0 [] fun c head => by cases head
    rwa [List.append_nil, placeholders, List.append_nil] at scan

/-- Rows after an id that are older than an age or have a name unlike a pattern, at most as many as the age. -/
def elders (collection after pattern : String) (age : Nat) : ReadQuery where
  source := .collections [collection]
  row := "x"
  conditions := [.any [.compare ⟨"x", "age"⟩ .gt (.nat age), .notAll [.like ⟨"x", "name"⟩ pattern true false]],
    .among ⟨"x", "rank"⟩ [.nat age] true]
  after := some after
  sortById := true
  limit := some age
  projection := .documents

theorem text_of_outline_elders :
    (elders "Person" "" "A%" 30).text.query = (elders "@value0" "' OR true" "@value1" 65).text.query ∧
    (elders "Person" "" "A%" 30).text.binds.names =
      ["@value0", "value1", "value2", "value3", "value4", "value5"] ∧
    placeholders (elders "Person" "" "A%" 30).text.query.toList =
      ["@value0", "value1", "value2", "value3", "value4", "value5"] := by
  obtain ⟨same, bound, shown⟩ := text_of_outline (elders "Person" "" "A%" 30)
  have names : (elders "Person" "" "A%" 30).text.binds.names =
      ["@value0", "value1", "value2", "value3", "value4", "value5"] := by
    rw [bound]
    decide
  refine ⟨(same (elders "@value0" "' OR true" "@value1" 65) rfl).symm, names, ?_⟩
  rw [shown (by decide), names]

/-- A query with an at sign in the name of a field. -/
def misnamed : ReadQuery :=
  { ofSource (.collections ["Person"]) "x" with conditions := [.compare ⟨"x", "@value1"⟩ .eq (.str "name")] }

/-- Names are written as they are, so an at sign in a name looks like a placeholder: here the third one has the
number of the second, and there are more of them than are bound. -/
theorem placeholder_in_name :
    misnamed.text.query = "FOR x IN @@value0 FILTER x.@value1 == @value1 RETURN x" ∧
      placeholders misnamed.text.query.toList = ["@value0", "value1", "value1"] ∧
      misnamed.text.binds.names = ["@value0", "value1"] := by
  have written : misnamed.text.query = "FOR x IN @@value0 FILTER x.@value1 == @value1 RETURN x" := by decide
  rw [written]
  exact ⟨rfl, by decide, by decide⟩

end ReadQuery

end DocGraph
