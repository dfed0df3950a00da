import DocGraph.Proofs.Filters
import DocGraph.Proofs.Placeholders

/-! # Fields that filters reach

The names of fields are the only part of a filter that is written into query text as it stands. A filter on a type
is refused if it names a field that the type does not have, at any depth of its groups, unless the name starts
with an underscore: such names are taken for reserved ones and let through without a look. `Spelled` says what
query text is put together from, and the main statement is `conditions_reach`: of the keys of a filter, nothing
but fields of the type and names with an underscore in front comes into the text of a query. -/

namespace DocGraph

/-! ### Fields in conditions -/

namespace Condition

mutual

/-- The fields that a condition is about, from left to right. -/
def targets : Condition → List FieldRef
  | compare target _ _ => [target]
  | among target _ _ => [target]
  | like target _ _ _ => [target]
  | all parts => partTargets parts
  | any parts => partTargets parts
  | notAll parts => partTargets parts

/-- The fields that a list of conditions is about. -/
def partTargets : List Condition → List FieldRef
  | [] => []
  | c :: rest => targets c ++ partTargets rest

end

theorem partTargets_append (cs ds : List Condition) :
    partTargets (cs ++ ds) = partTargets cs ++ partTargets ds := by
  induction cs with
  | nil => rfl
  | cons c cs ih => rw [List.cons_append, partTargets, partTargets, ih, List.append_assoc]

end Condition

/-! ### Names in filters -/

namespace Filter

mutual

/-- The names of the field entries of a filter, at any depth of its groups. -/
def fieldNames : Json → List String
  | .obj entries => entryNames entries
  | _ => []

/-- The names of the field entries among some entries and inside their groups. -/
def entryNames : List (String × Json) → List String
  | [] => []
  | (name, arg) :: rest =>
    (if name = "_and" ∨ name = "_or" then groupNames arg
      else if name = "_not" then fieldNames arg
      else [name]) ++ entryNames rest

/-- The names of the field entries in a group. -/
def groupNames : Json → List String
  | .arr members => memberNames members
  | _ => []

/-- The names of the field entries in the members of a group. -/
def memberNames : List Json → List String
  | [] => []
  | m :: rest => fieldNames m ++ memberNames rest

end

/-- Conditions on fields of a row that the names of a filter mean, none of which is refused. -/
structure Reaches (t : TypeDef) (row : String) (names : List String) (cs : List Condition) : Prop where
  accepted : ∀ name ∈ names, (t.field? (fieldOf name)).isSome = true ∨ Text.startsWith (fieldOf name) "_" = true
  targets : ∀ r ∈ Condition.partTargets cs, r.row = row ∧ ∃ name ∈ names, r.field = fieldOf name

variable {t : TypeDef} {row : String}

namespace Reaches

variable {names others : List String} {cs ds : List Condition}

theorem nil : Reaches t row [] [] where
  accepted _ mem := by cases mem
  targets _ mem := by cases mem

theorem append (h : Reaches t row names cs) (h' : Reaches t row others ds) :
    Reaches t row (names ++ others) (cs ++ ds) where
  accepted name mem := (List.mem_append.mp mem).elim (h.accepted name) (h'.accepted name)
  targets r mem := by
    rw [Condition.partTargets_append] at mem
    rcases List.mem_append.mp mem with mem | mem
    · obtain ⟨own, name, given, means⟩ := h.targets r mem
      exact ⟨own, name, List.mem_append_left _ given, means⟩
    · obtain ⟨own, name, given, means⟩ := h'.targets r mem
      exact ⟨own, name, List.mem_append_right _ given, means⟩

/-- Conditions on the same fields, in other brackets. -/
theorem regroup (h : Reaches t row names cs) (same : Condition.partTargets ds = Condition.partTargets cs) :
    Reaches t row names ds where
  accepted := h.accepted
  targets r mem := h.targets r (same ▸ mem)

end Reaches

theorem targets_of_operatorCondition {name operator : String} {target : FieldRef} {v : Json} {c : Condition}
    (h : operatorCondition name target operator v = .ok c) : c.targets = [target] := by
  unfold operatorCondition at h
  split at h
  case h_13 => cases h
  case h_7 | h_8 | h_9 | h_10 | h_11 | h_12 =>
    obtain ⟨_, _, rfl⟩ := exists_of_map_ok h
    rfl
  all_goals
    cases h
    rfl

/-- All conditions of a field entry are on that field. -/
theorem targets_of_operators {name : String} {target : FieldRef} {scalar : Option String}
    {ops : List (String × Json)} {cs : List Condition} (h : operators name target scalar ops = .ok cs) :
    ∀ r ∈ Condition.partTargets cs, r = target := by
  induction ops generalizing cs with
  | nil =>
      cases h
      intro r mem
      cases mem
  | cons op ops ih =>
      rw [operators] at h
      split at h
      · exact ih h
      · have operand : ∃ v, (do
            let c ← operatorCondition name target op.1 v
            let cs ← operators name target scalar ops
            pure (c :: cs) : Except Error (List Condition)) = .ok cs := by
          cases scalar with
          | none => exact ⟨op.2, h⟩
          | some s =>
              obtain ⟨v, _, h⟩ := exists_of_andThen_ok h
              exact ⟨v, h⟩
        obtain ⟨v, h⟩ := operand
        obtain ⟨c, made, h⟩ := exists_of_andThen_ok h
        obtain ⟨others, made', h⟩ := exists_of_andThen_ok h
        cases h
        intro r mem
        rw [Condition.partTargets, targets_of_operatorCondition made] at mem
        rcases List.mem_cons.mp mem with rfl | mem
        · rfl
        · exact ih made' r mem

/-- A field with a scalar, or with none because of its name, is one of the type or starts with an underscore. -/
theorem accepted_of_scalarOf {field : String} {scalar : Option String}
    (h : scalarOf (some t) field = .ok scalar) :
    (t.field? field).isSome = true ∨ Text.startsWith field "_" = true := by
  unfold scalarOf at h
  split at h
  · exact .inr ‹_›
  · dsimp only at h
    cases found : t.field? field with
    | none =>
        rw [found] at h
        cases h
    | some f => exact .inl rfl

theorem fieldConditions_reach {name : String} {arg : Json} {cs : List Condition}
    (h : fieldConditions (some t) row name arg = .ok cs) : Reaches t row [name] cs := by
  obtain ⟨scalar, found, h⟩ := exists_of_andThen_ok h
  cases arg with
  | obj ops =>
      constructor
      · intro other mem
        rw [List.mem_singleton.mp mem]
        exact accepted_of_scalarOf found
      · intro r mem
        rw [targets_of_operators h r mem]
        exact ⟨rfl, name, List.mem_singleton.mpr rfl, rfl⟩
  | null | bool | num | str | arr => cases h

theorem partTargets_member (cs : List Condition) :
    Condition.partTargets (member cs) = Condition.partTargets cs := by
  rcases cs with _ | ⟨c, _ | ⟨d, rest⟩⟩
  · rfl
  · rfl
  · exact List.append_nil _

mutual

theorem reaches_of_conditions (filter : Json) {cs : List Condition}
    (h : conditions (some t) row filter = .ok cs) : Reaches t row (fieldNames filter) cs := by
  cases filter with
  | null =>
      cases h
      exact .nil
  | obj entries => exact reaches_of_entries entries h
  | bool | num | str | arr => cases h

theorem reaches_of_entries (entries : List (String × Json)) {cs : List Condition}
    (h : entryConditions (some t) row entries = .ok cs) : Reaches t row (entryNames entries) cs := by
  rcases entries with _ | ⟨⟨name, arg⟩, rest⟩
  · cases h
    exact .nil
  · rw [entryConditions.eq_def] at h
    rw [entryNames]
    dsimp only at h
    split at h
    all_goals
      obtain ⟨first, made, h⟩ := exists_of_andThen_ok h
      obtain ⟨others, made', h⟩ := exists_of_andThen_ok h
      cases h
      refine Reaches.append ?_ (reaches_of_entries rest made')
    case h_1 | h_2 =>
      obtain ⟨group, grouped, rfl⟩ := exists_of_map_ok made
      exact (reaches_of_group arg grouped).regroup (List.append_nil _)
    case h_3 =>
      obtain ⟨negated, inner, rfl⟩ := exists_of_map_ok made
      exact (reaches_of_conditions arg inner).regroup (List.append_nil _)
    case h_4 noAnd noOr noNot _ =>
      rw [if_neg (not_or.mpr ⟨noAnd, noOr⟩), if_neg noNot]
      exact fieldConditions_reach made

theorem reaches_of_group (arg : Json) {cs : List Condition}
    (h : groupConditions (some t) row arg = .ok cs) : Reaches t row (groupNames arg) cs := by
  cases arg with
  | arr members => exact reaches_of_members members h
  | null | bool | num | str | obj => cases h

theorem reaches_of_members (members : List Json) {cs : List Condition}
    (h : memberConditions (some t) row members = .ok cs) : Reaches t row (memberNames members) cs := by
  rcases members with _ | ⟨m, rest⟩
  · cases h
    exact .nil
  · obtain ⟨first, made, h⟩ := exists_of_andThen_ok h
    obtain ⟨others, made', h⟩ := exists_of_andThen_ok h
    cases h
    have own := (reaches_of_conditions m made).regroup (partTargets_member first)
    exact own.append (reaches_of_members rest made')

end

end Filter

/-! ### What query text is put together from -/

/-- The words of query text. -/
def queryWords : List String := [
  "", " ", ", ", "FOR ", "v, ", " IN ", " IN FLATTEN(FOR i IN [", "] RETURN i)", " IN 1..1 ", "OUTBOUND", "INBOUND",
  " FILTER ", "==", "!=", ">", ">=", "<", "<=", "NOT ", "IN ", "LIKE(", "true", "false", "(", ")", "NOT (", " AND ",
  " OR ", "._id > ", " SORT ", "._id", " LIMIT ", " RETURN ", " COLLECT WITH COUNT INTO length RETURN length"]

/-- Text that is put together from words, the name of a row, placeholders, and fields of the row with names of a
kind. -/
inductive Spelled (row : String) (names : String → Prop) : String → Prop
  | word {w : String} (known : w ∈ queryWords) : Spelled row names w
  | row : Spelled row names row
  | value (n : Nat) : Spelled row names (valuePlace n)
  | collection (n : Nat) : Spelled row names ("@" ++ ("@value" ++ toString n))
  | field {name : String} (allowed : names name) : Spelled row names (row ++ "." ++ name)
  | append {s t : String} (first : Spelled row names s) (second : Spelled row names t) : Spelled row names (s ++ t)

namespace Spelled

variable {row : String} {names : String → Prop} {s w : String}

theorem thenWord (h : Spelled row names s) (known : w ∈ queryWords) : Spelled row names (s ++ w) :=
  h.append (.word known)

theorem afterWord (known : w ∈ queryWords) (h : Spelled row names s) : Spelled row names (w ++ s) :=
  (Spelled.word known).append h

theorem ite {b : Bool} (hs : s ∈ queryWords) (hw : w ∈ queryWords) : Spelled row names (if b then s else w) := by
  split
  · exact .word hs
  · exact .word hw

theorem intercalate {texts : List String} (separator : w ∈ queryWords)
    (each : ∀ text ∈ texts, Spelled row names text) : Spelled row names (w.intercalate texts) := by
  induction texts with
  | nil => exact .word (w := "") (by decide)
  | cons text texts ih =>
      have first := each text List.mem_cons_self
      cases texts with
      | nil =>
          rw [String.intercalate_singleton]
          exact first
      | cons other texts =>
          rw [String.intercalate_cons_cons]
          exact (first.thenWord separator).append (ih fun text mem => each text (List.mem_cons_of_mem _ mem))

theorem joined {texts : List String} (separator : w ∈ queryWords)
    (each : ∀ text ∈ texts, Spelled row names text) : Spelled row names (Condition.joined w texts) := by
  cases texts with
  | nil => exact .word (w := "true") (by decide)
  | cons text texts => exact intercalate separator each

/-- Texts in brackets. -/
theorem group {texts : List String} (opening : s ∈ queryWords) (separator : w ∈ queryWords)
    (each : ∀ text ∈ texts, Spelled row names text) :
    Spelled row names (s ++ Condition.joined w texts ++ ")") :=
  (afterWord opening (joined separator each)).thenWord (by decide)

theorem sign (comparison : Comparison) : Spelled row names comparison.sign := by
  cases comparison <;> exact .word (by decide)

mutual

theorem condition (c : Condition) (own : ∀ r ∈ c.targets, r.row = row ∧ names r.field) (n : Nat) :
    Spelled row names (c.written n) := by
  have field (target : FieldRef) (h : target.row = row ∧ names target.field) : Spelled row names target.text := by
    obtain ⟨rfl, allowed⟩ := h
    exact .field allowed
  cases c with
  | compare target comparison v =>
      have first := (field target (own target List.mem_cons_self)).thenWord (w := " ") (by decide)
      exact ((first.append (sign comparison)).thenWord (by decide)).append (.value n)
  | among target vs negated =>
      have first := (field target (own target List.mem_cons_self)).thenWord (w := " ") (by decide)
      exact ((first.append (ite (by decide) (by decide))).thenWord (by decide)).append (.value n)
  | like target pattern ignoreCase negated =>
      have start : Spelled row names ((if negated then "NOT " else "") ++ "LIKE(") :=
        (ite (by decide) (by decide)).thenWord (by decide)
      have first := (start.append (field target (own target List.mem_cons_self))).thenWord (w := ", ") (by decide)
      exact (((first.append (.value n)).thenWord (by decide)).append (ite (by decide) (by decide))).thenWord
        (by decide)
  | all parts | any parts | notAll parts => exact group (by decide) (by decide) (conditions parts own n)

theorem conditions (cs : List Condition) (own : ∀ r ∈ Condition.partTargets cs, r.row = row ∧ names r.field)
    (n : Nat) : ∀ text ∈ Condition.partsWritten n cs, Spelled row names text := by
  intro text mem
  rcases cs with _ | ⟨c, rest⟩
  · cases mem
  · rcases List.mem_cons.mp mem with rfl | mem
    · exact condition c (fun r here => own r (List.mem_append_left _ here)) n
    · exact conditions rest (fun r here => own r (List.mem_append_right _ here)) _ text mem

end

theorem places (collections : List String) (n : Nat) :
    ∀ text ∈ collectionPlaces n collections, Spelled row names text := by
  induction collections generalizing n with
  | nil =>
      intro text mem
      cases mem
  | cons name rest ih =>
      intro text mem
      rcases List.mem_cons.mp mem with rfl | mem
      · exact .collection n
      · exact ih (n + 1) text mem

theorem source (source : Source) (n : Nat) : Spelled row names (source.written row n) := by
  have start : Spelled row names ("FOR " ++ row) := afterWord (by decide) .row
  rcases source with collections | ⟨id, direction, edges, yields⟩
  · have many (collections : List String) : Spelled row names ("FOR " ++ row ++ " IN FLATTEN(FOR i IN [" ++
        ", ".intercalate (collectionPlaces n collections) ++ "] RETURN i)") :=
      ((start.thenWord (by decide)).append (intercalate (by decide) (places collections n))).thenWord (by decide)
    rcases collections with _ | ⟨name, _ | ⟨other, rest⟩⟩
    · exact many []
    · exact (start.thenWord (by decide)).append (.collection n)
    · exact many (name :: other :: rest)
  · have rows : Spelled row names (yields.rows row) := by
      cases yields with
      | vertex => exact .row
      | edge => exact afterWord (by decide) .row
    have way : Spelled row names direction.text := by
      cases direction <;> exact .word (by decide)
    have first := ((afterWord (w := "FOR ") (by decide) rows).thenWord (w := " IN 1..1 ") (by decide)).append way
    exact (((first.thenWord (by decide)).append (.value n)).thenWord (by decide)).append
      (intercalate (by decide) (places edges (n + 1)))

/-- The text of a query whose conditions are all on allowed fields of its row. -/
theorem query (q : ReadQuery) (own : ∀ r ∈ Condition.partTargets q.conditions, r.row = q.row ∧ names r.field) :
    Spelled q.row names q.text.query := by
  have nothing : Spelled q.row names "" := .word (by decide)
  have clause (n : Nat) : Spelled q.row names (Condition.clauseWritten n q.conditions) := by
    unfold Condition.clauseWritten
    split
    · exact nothing
    · exact afterWord (by decide) (joined (by decide) (conditions q.conditions own n))
  have after (n : Nat) : Spelled q.row names (q.afterWritten n) := by
    unfold ReadQuery.afterWritten
    cases q.after with
    | none => exact nothing
    | some id => exact ((afterWord (by decide) .row).thenWord (by decide)).append (.value n)
  have sort : Spelled q.row names q.sortWritten := by
    unfold ReadQuery.sortWritten
    split
    · exact (afterWord (by decide) .row).thenWord (by decide)
    · exact nothing
  have limit (n : Nat) : Spelled q.row names (q.limitWritten n) := by
    unfold ReadQuery.limitWritten
    cases q.limit with
    | none => exact nothing
    | some m => exact afterWord (by decide) (.value n)
  have result : Spelled q.row names q.resultWritten := by
    unfold ReadQuery.resultWritten
    cases q.projection with
    | documents => exact afterWord (by decide) .row
    | count => exact .word (w := " COLLECT WITH COUNT INTO length RETURN length") (by decide)
  rw [q.text_eq]
  exact (((((source q.source 0).append (clause _)).append (after _)).append sort).append (limit _)).append result

end Spelled

/-! ### Filters on a type -/

/-- The names of reserved fields. -/
def Field.reserved : List String :=
  [Field.id, Field.key, Field.source, Field.target, Field.created, Field.updated, Field.typeName]

/-- A type declares a field, or it is a reserved one. -/
def TypeDef.Knows (t : TypeDef) (field : String) : Prop :=
  (∃ f ∈ t.fields, f.name = field) ∨ field ∈ Field.reserved

instance (t : TypeDef) (field : String) : Decidable (t.Knows field) :=
  inferInstanceAs (Decidable ((∃ f ∈ t.fields, f.name = field) ∨ field ∈ Field.reserved))

namespace Filter

/-- A name with an underscore in front under which a filter has an entry. -/
def Underscored (filter : Json) (name : String) : Prop :=
  name ∈ fieldNames filter ∧ Text.startsWith name "_" = true

theorem knows_or_underscored {t : TypeDef} {filter : Json} {name : String} (given : name ∈ fieldNames filter)
    (accepted : (t.field? (fieldOf name)).isSome = true ∨ Text.startsWith (fieldOf name) "_" = true) :
    t.Knows (fieldOf name) ∨ Underscored filter (fieldOf name) := by
  rcases accepted with declared | underscore
  · obtain ⟨f, mem, same⟩ := List.find?_isSome.mp declared
    exact .inl (.inl ⟨f, mem, by simpa using same⟩)
  · unfold fieldOf at underscore ⊢
    split
    · exact .inl (.inr List.mem_cons_self)
    · rename_i other
      rw [if_neg other] at underscore
      exact .inr ⟨given, underscore⟩

/-- If a filter on a type is put into conditions, then each of its field entries, at any depth, is under the name
of a field that the type has, or under a name with an underscore in front. All fields that its conditions are about
are known fields of the type or such names, and the text of a query with these conditions is spelled with the
words of the language, placeholders and these fields: nothing else from the keys of the filter comes into it. -/
theorem conditions_reach (t : TypeDef) (row : String) (filter : Json) (cs : List Condition)
    (h : conditions (some t) row filter = .ok cs) :
    (∀ name ∈ fieldNames filter, t.Knows (fieldOf name) ∨ Underscored filter (fieldOf name)) ∧
      (∀ r ∈ Condition.partTargets cs, r.row = row ∧ (t.Knows r.field ∨ Underscored filter r.field)) ∧
      ∀ q : ReadQuery, q.row = row → q.conditions = cs →
        Spelled row (fun name => t.Knows name ∨ Underscored filter name) q.text.query := by
  have reaches := reaches_of_conditions filter h
  have known : ∀ name ∈ fieldNames filter, t.Knows (fieldOf name) ∨ Underscored filter (fieldOf name) :=
    fun name given => knows_or_underscored given (reaches.accepted name given)
  have targets : ∀ r ∈ Condition.partTargets cs, r.row = row ∧ (t.Knows r.field ∨ Underscored filter r.field) := by
    intro r mem
    obtain ⟨own, name, given, means⟩ := reaches.targets r mem
    exact ⟨own, means ▸ known name given⟩
  refine ⟨known, targets, ?_⟩
  rintro q rfl rfl
  exact Spelled.query q targets

/-- A member of a club. -/
def memberType : TypeDef :=
  { TypeDef.empty "Member" .object with fields := [⟨"name", .named "String", []⟩, ⟨"age", .named "Int", []⟩] }

/-- The members from a key on whose name starts with an A, or who have none of some ids. -/
def someMembers : Json :=
  .obj [("_or", .arr [
      .obj [("name", .obj [("_ilike", .str "a%")])],
      .obj [("_not", .obj [("id", .obj [("_in", .arr [.str "Member/1"])])])]]),
    ("_key", .obj [("_egt", .str "7")])]

theorem conditions_reach_members :
    ∃ cs, conditions (some memberType) "x" someMembers = .ok cs ∧
      (Condition.partTargets cs).map FieldRef.field = ["name", "_id", "_key"] ∧
      (∀ r ∈ Condition.partTargets cs, r.row = "x" ∧ memberType.Knows r.field) ∧
      ∀ q : ReadQuery, q.row = "x" → q.conditions = cs →
        Spelled "x" (fun name => memberType.Knows name ∨ Underscored someMembers name) q.text.query := by
  refine ⟨_, rfl, rfl, ?_⟩
  obtain ⟨_, targets, spelled⟩ := conditions_reach memberType "x" someMembers _ rfl
  refine ⟨fun r mem => ?_, spelled⟩
  obtain ⟨own, known | ⟨given, underscore⟩⟩ := targets r mem
  · exact ⟨own, known⟩
  · have all : ∀ name ∈ fieldNames someMembers, Text.startsWith name "_" = true → memberType.Knows name := by
      decide
    exact ⟨own, all r.field given underscore⟩

/-- A filter with a condition of its own in the name of a field. -/
def intruding : Json :=
  .obj [("_x == 1 OR true OR x._y", .obj [("_eq", .nat 1)])]

/-- Any name with an underscore in front is let through, so a filter on a type may reach a field that is neither
declared nor reserved, and bring text of its own into a query. -/
theorem conditions_reach_beyond :
    ∃ cs, conditions (some memberType) "x" intruding = .ok cs ∧
      (∃ r ∈ Condition.partTargets cs, ¬ memberType.Knows r.field) ∧
      ({ ReadQuery.ofSource (.collections ["Member"]) "x" with conditions := cs } : ReadQuery).text.query =
        "FOR x IN @@value0 FILTER x._x == 1 OR true OR x._y == @value1 RETURN x" := by
  refine ⟨_, rfl, ⟨_, List.mem_cons_self, by decide⟩, by decide⟩

end Filter

end DocGraph
