import DocGraph.Filter.Basic
import DocGraph.Proofs.Outcome

/-! # What filters say

A filter is put into conditions that are flatter than it is: operators with the operand null vanish, members
of a group that come to nothing are left out, a member that comes to one condition stands for itself, and
others become a conjunction. `Reading.filterSays` reads a filter directly, entry by entry and member by member,
without conditions. The main statement is `conditions_say`: the conditions of a filter hold of a document
just if the filter says so, where of the members of an alternative only those count that say anything, and
operands on fields of reserved names are not put into the stored form of their scalar. -/

namespace DocGraph.Filter

variable {type : Option TypeDef} {row : String} {doc : Document}

/-! ### Reading a filter -/

/-- What an operator says of the value of a field. -/
def operatorSays (operator : String) (v operand : Json) : Bool :=
  match operator, operand with
  | "_eq", w => v.order w == .eq
  | "_neq", w => v.order w != .eq
  | "_gt", w => v.order w == .gt
  | "_egt", w => v.order w == .gt || v.order w == .eq
  | "_lt", w => v.order w == .lt
  | "_elt", w => v.order w == .lt || v.order w == .eq
  | "_in", .arr ws => ws.any v.alike
  | "_nin", .arr ws => !ws.any v.alike
  | "_like", .str p => v.isLike p false
  | "_ilike", .str p => v.isLike p true
  | "_nlike", .str p => !v.isLike p false
  | "_nilike", .str p => !v.isLike p true
  | _, _ => false

/-- How a filter is read: which members of an alternative count, and what the operand of an operator on a
field stands for. -/
structure Reading where
  counts : Json → Bool
  operand? : String → Json → Option Json

namespace Reading

variable (r : Reading) (doc : Document)

/-- What the operators of a field entry say: all with an operand other than null have to hold. -/
def fieldSays (name : String) (operators : List (String × Json)) : Bool :=
  operators.all fun o => o.2.isNull ||
    (r.operand? (fieldOf name) o.2).any (operatorSays o.1 (doc.read (fieldOf name)))

mutual

/-- What a filter says of a document. -/
def filterSays : Json → Bool
  | .obj entries => entriesSay entries
  | _ => true

/-- What the entries of a filter say: all of them have to hold. An alternative in which no member counts
holds. -/
def entriesSay : List (String × Json) → Bool
  | [] => true
  | ("_and", .arr members) :: rest => allSay members && entriesSay rest
  | ("_or", .arr members) :: rest => (!members.any r.counts || someSays members) && entriesSay rest
  | ("_not", filter) :: rest => !filterSays filter && entriesSay rest
  | (name, .obj operators) :: rest => r.fieldSays doc name operators && entriesSay rest
  | _ :: rest => entriesSay rest

/-- Whether all members of a group hold. -/
def allSay : List Json → Bool
  | [] => true
  | m :: rest => filterSays m && allSay rest

/-- Whether some member of a group that counts holds. -/
def someSays : List Json → Bool
  | [] => false
  | m :: rest => r.counts m && filterSays m || someSays rest

end

end Reading

/-- Whether an entry of a filter says anything: it is a group, or has an operand other than null. -/
def entrySpeaks (e : String × Json) : Bool :=
  ["_and", "_or", "_not"].contains e.1 || (e.2.obj?.getD []).any fun o => !o.2.isNull

/-- Whether a filter says anything. -/
def speaks (filter : Json) : Bool :=
  (filter.obj?.getD []).any entrySpeaks

/-- The scalar that a type declares for a field. -/
def declaredScalar? (type : Option TypeDef) (field : String) : Option String :=
  (type.bind fun t => t.field? field).map fun f => f.type.base

/-- The operand in the stored form of a scalar. -/
def operandOf? : Option String → Json → Option Json
  | some scalar, raw => (Scalar.store scalar raw).toOption
  | none, raw => some raw

namespace Reading

/-- All members of an alternative count, and operands are in the stored form of the scalar of the field. -/
def plain (type : Option TypeDef) : Reading where
  counts _ := true
  operand? field := operandOf? (declaredScalar? type field)

/-- Members of an alternative that say nothing do not count, and operands on a field of a reserved name stay
as they are. -/
def tacit (type : Option TypeDef) : Reading where
  counts := speaks
  operand? field := operandOf? (if Text.startsWith field "_" then none else declaredScalar? type field)

@[simp] theorem counts_tacit (type : Option TypeDef) : (tacit type).counts = speaks := rfl

end Reading

/-- Whether a document of a type meets a filter, which may be missing. -/
def meets (t : TypeDef) (filter : Option Json) (doc : Document) : Bool :=
  filter.all ((Reading.tacit (some t)).filterSays doc)

/-! ### Conditions of a field -/

theorem holds_of_operatorCondition {name operator : String} {target : FieldRef} {v : Json} {c : Condition}
    (h : operatorCondition name target operator v = .ok c) :
    c.holds doc = operatorSays operator (doc.read target.field) v := by
  unfold operatorCondition at h
  split at h
  case h_13 => cases h
  case h_7 | h_8 =>
    obtain ⟨ws, list, rfl⟩ := exists_of_map_ok h
    cases v <;> cases list
    simp [Condition.holds, operatorSays]
  case h_9 | h_10 | h_11 | h_12 =>
    obtain ⟨p, pattern, rfl⟩ := exists_of_map_ok h
    cases v <;> cases pattern
    simp [Condition.holds, operatorSays]
  -- "At least" and "at most" are told by the order that is ruled out.
  case h_4 | h_6 =>
    cases h
    simp only [Condition.holds, operatorSays, Comparison.accepts]
    cases (doc.read target.field).order v <;> rfl
  all_goals
    cases h
    rfl

/-- The conditions of operators hold just if the operators say so, and there are none just if all operands are
null. -/
theorem operators_say (doc : Document) {name : String} {target : FieldRef} {scalar : Option String}
    {ops : List (String × Json)} {cs : List Condition} (h : operators name target scalar ops = .ok cs) :
    Condition.allHold doc cs = (ops.all fun o => o.2.isNull ||
        (operandOf? scalar o.2).any (operatorSays o.1 (doc.read target.field))) ∧
      cs.isEmpty = !ops.any fun o => !o.2.isNull := by
  induction ops generalizing cs with
  | nil =>
      cases h
      exact ⟨rfl, rfl⟩
  | cons o rest ih =>
      obtain ⟨operator, raw⟩ := o
      rw [operators] at h
      split at h
      · rename_i null
        simpa [null] using ih h
      · rename_i value
        obtain ⟨v, operand, h⟩ : ∃ v, operandOf? scalar raw = some v ∧
            (do
              let c ← operatorCondition name target operator v
              let others ← operators name target scalar rest
              return c :: others) = .ok cs := by
          cases scalar with
          | none | some =>
              obtain ⟨v, stored, h⟩ := exists_of_andThen_ok h
              exact ⟨v, congrArg Except.toOption stored, h⟩
        obtain ⟨c, made, h⟩ := exists_of_andThen_ok h
        obtain ⟨others, made', h⟩ := exists_of_andThen_ok h
        cases h
        simp [Condition.allHold, holds_of_operatorCondition made, (ih made').1, operand, value]

/-- The scalar of a filtered field is the declared one, unless the name is reserved. -/
theorem scalar_of_scalarOf {field : String} {scalar : Option String} (h : scalarOf type field = .ok scalar) :
    scalar = if Text.startsWith field "_" then none else declaredScalar? type field := by
  unfold scalarOf at h
  unfold declaredScalar?
  split at h
  · rename_i reserved
    cases h
    rw [if_pos reserved]
  · rename_i other
    rw [if_neg other]
    cases type with
    | none =>
        cases h
        rfl
    | some t =>
        dsimp only at h
        cases found : t.field? field with
        | none =>
            rw [found] at h
            cases h
        | some f =>
            rw [found] at h
            cases h
            simp [found]

/-- The conditions of a field entry hold just if the entry says so, and there are none just if all operands are
null. -/
theorem fieldConditions_say (doc : Document) {name : String} {arg : Json} {cs : List Condition}
    (h : fieldConditions type row name arg = .ok cs) :
    ∃ ops, arg = .obj ops ∧ Condition.allHold doc cs = (Reading.tacit type).fieldSays doc name ops ∧
      cs.isEmpty = !ops.any fun o => !o.2.isNull := by
  obtain ⟨scalar, found, h⟩ := exists_of_andThen_ok h
  cases arg with
  | obj ops =>
      obtain ⟨holds, empty⟩ := operators_say doc h
      refine ⟨ops, rfl, ?_, empty⟩
      rw [holds, scalar_of_scalarOf found]
      rfl
  | null | bool | num | str | arr => cases h

/-! ### Groups -/

theorem isEmpty_append (cs ds : List Condition) : (cs ++ ds).isEmpty = (cs.isEmpty && ds.isEmpty) := by
  cases cs <;> rfl

theorem allHold_append (doc : Document) (cs ds : List Condition) :
    Condition.allHold doc (cs ++ ds) = (Condition.allHold doc cs && Condition.allHold doc ds) := by
  induction cs with
  | nil => simp [Condition.allHold]
  | cons c cs ih => simp [Condition.allHold, ih, Bool.and_assoc]

theorem anyHolds_append (doc : Document) (cs ds : List Condition) :
    Condition.anyHolds doc (cs ++ ds) = (Condition.anyHolds doc cs || Condition.anyHolds doc ds) := by
  induction cs with
  | nil => simp [Condition.anyHolds]
  | cons c cs ih => simp [Condition.anyHolds, ih, Bool.or_assoc]

/-- A member of a group holds, as one condition or none, just if its conditions hold; as a member of an
alternative it has to have some. -/
theorem member_holds (doc : Document) (cs : List Condition) :
    Condition.allHold doc (member cs) = Condition.allHold doc cs ∧
      Condition.anyHolds doc (member cs) = (!cs.isEmpty && Condition.allHold doc cs) ∧
      (member cs).isEmpty = cs.isEmpty := by
  rcases cs with _ | ⟨c, _ | ⟨d, rest⟩⟩
  · exact ⟨rfl, rfl, rfl⟩
  · simp [member, Condition.allHold, Condition.anyHolds]
  · simp [member, Condition.allHold, Condition.anyHolds, Condition.holds]

/-! ### Filters -/

mutual

theorem conditions_read (filter : Json) {cs : List Condition} (h : conditions type row filter = .ok cs) :
    Condition.allHold doc cs = (Reading.tacit type).filterSays doc filter ∧ cs.isEmpty = !speaks filter := by
  cases filter with
  | null =>
      cases h
      exact ⟨rfl, rfl⟩
  | obj entries => exact entryConditions_read entries h
  | bool | num | str | arr => cases h

theorem entryConditions_read (entries : List (String × Json)) {cs : List Condition}
    (h : entryConditions type row entries = .ok cs) :
    Condition.allHold doc cs = (Reading.tacit type).entriesSay doc entries ∧
      cs.isEmpty = !entries.any entrySpeaks := by
  rcases entries with _ | ⟨⟨name, arg⟩, rest⟩
  · cases h
    exact ⟨rfl, rfl⟩
  · -- Each kind of entry puts its conditions before those of the rest; there are none if it says nothing.
    suffices entry : ∃ first others, cs = first ++ others ∧ entryConditions type row rest = .ok others ∧
        (Reading.tacit type).entriesSay doc ((name, arg) :: rest) =
          (Condition.allHold doc first && (Reading.tacit type).entriesSay doc rest) ∧
        first.isEmpty = !entrySpeaks (name, arg) by
      obtain ⟨first, others, rfl, made, spoken, silent⟩ := entry
      obtain ⟨holds, silentOthers⟩ := entryConditions_read rest made
      rw [allHold_append, isEmpty_append, holds, spoken, silent, silentOthers, List.any_cons, Bool.not_or]
      exact ⟨rfl, rfl⟩
    rw [entryConditions.eq_def] at h
    dsimp only at h
    split at h
    all_goals
      obtain ⟨first, made, h⟩ := exists_of_andThen_ok h
      obtain ⟨others, made', h⟩ := exists_of_andThen_ok h
      cases h
      refine ⟨first, others, rfl, made', ?_⟩
    case h_1 =>
      obtain ⟨group, grouped, rfl⟩ := exists_of_map_ok made
      cases arg with
      | arr members =>
          obtain ⟨all, _, _⟩ := memberConditions_read members grouped
          simp [Reading.entriesSay, Condition.allHold, Condition.holds, all, entrySpeaks]
      | null | bool | num | str | obj => cases grouped
    case h_2 =>
      obtain ⟨group, grouped, rfl⟩ := exists_of_map_ok made
      cases arg with
      | arr members =>
          obtain ⟨_, any, silent⟩ := memberConditions_read members grouped
          simp [Reading.entriesSay, Condition.allHold, Condition.holds, any, silent, entrySpeaks]
      | null | bool | num | str | obj => cases grouped
    case h_3 =>
      obtain ⟨negated, inner, rfl⟩ := exists_of_map_ok made
      obtain ⟨holds, _⟩ := conditions_read arg inner
      simp [Reading.entriesSay, Condition.allHold, Condition.holds, holds, entrySpeaks]
    case h_4 noAnd noOr noNot _ =>
      obtain ⟨ops, rfl, holds, silent⟩ := fieldConditions_say doc made
      have other : ["_and", "_or", "_not"].contains name = false := by
        simpa using ⟨noAnd, noOr, noNot⟩
      rw [entrySpeaks, other, Bool.false_or, silent]
      exact ⟨by simp [Reading.entriesSay, holds], rfl⟩

theorem memberConditions_read (members : List Json) {cs : List Condition}
    (h : memberConditions type row members = .ok cs) :
    Condition.allHold doc cs = (Reading.tacit type).allSay doc members ∧
      Condition.anyHolds doc cs = (Reading.tacit type).someSays doc members ∧
      cs.isEmpty = !members.any speaks := by
  rcases members with _ | ⟨m, rest⟩
  · cases h
    exact ⟨rfl, rfl, rfl⟩
  · obtain ⟨first, made, h⟩ := exists_of_andThen_ok h
    obtain ⟨others, made', h⟩ := exists_of_andThen_ok h
    cases h
    obtain ⟨all, any, empty⟩ := member_holds doc first
    obtain ⟨holds, silent⟩ := conditions_read m made
    obtain ⟨allOthers, anyOther, silentOthers⟩ := memberConditions_read rest made'
    rw [allHold_append, anyHolds_append, all, any, holds, allOthers, anyOther, silent, Bool.not_not]
    refine ⟨rfl, rfl, ?_⟩
    rw [isEmpty_append, empty, silent, silentOthers, List.any_cons, Bool.not_or]

end

/-- The conditions of a filter hold of a document just if the filter says so of it. -/
theorem conditions_say (type : Option TypeDef) (row : String) (filter : Json) (cs : List Condition)
    (h : conditions type row filter = .ok cs) (doc : Document) :
    Condition.allHold doc cs = (Reading.tacit type).filterSays doc filter :=
  (conditions_read filter h).1

/-- Older than thirty, or named Ann and not under five. -/
def olderOrAnn : Json :=
  .obj [("_or", .arr [
    .obj [("age", .obj [("_gt", .nat 30), ("_lt", .null)])],
    .obj [("age", .obj [("_lt", .null)])],
    .obj [("name", .obj [("_eq", .str "Ann")]), ("_not", .obj [("age", .obj [("_lt", .nat 5)])])]])]

theorem conditions_say_ann : ∃ cs, conditions none "x" olderOrAnn = .ok cs ∧
    Condition.allHold [("name", .str "Ann"), ("age", .nat 7)] cs = true ∧
    Condition.allHold [("name", .str "Ann"), ("age", .nat 4)] cs = false := by
  refine ⟨_, rfl, ?_, ?_⟩
  · rw [conditions_say none "x" olderOrAnn _ rfl]
    decide +kernel
  · rw [conditions_say none "x" olderOrAnn _ rfl]
    decide +kernel

/-- Anything at all, or older than thirty. -/
def anyOrOlder : Json :=
  .obj [("_or", .arr [.obj [], .obj [("age", .obj [("_gt", .nat 30)])]])]

/-- A type with a point in time in a field of a reserved name. -/
def dated : TypeDef :=
  { TypeDef.empty "Person" .object with fields := [⟨"_born", .named "DateTime", []⟩] }

/-- Born one second after the beginning of 1970. -/
def bornThen : Json :=
  .obj [("_born", .obj [("_eq", .str "1970-01-01T00:00:01Z")])]

/-- Not all members of an alternative count: next to another, one that says nothing is left out, although
alone it makes the alternative hold. And a point in time on a field of a reserved name is compared as the text
that it is given by. -/
theorem conditions_say_less :
    (∃ cs, conditions none "x" anyOrOlder = .ok cs ∧
      Condition.allHold [("age", .nat 1)] cs = false ∧
      (Reading.plain none).filterSays [("age", .nat 1)] anyOrOlder = true) ∧
    ∃ cs, conditions (some dated) "x" bornThen = .ok cs ∧
      Condition.allHold [("_born", .nat 1000)] cs = false ∧
      (Reading.plain (some dated)).filterSays [("_born", .nat 1000)] bornThen = true := by
  refine ⟨⟨_, rfl, ?_, ?_⟩, _, rfl, ?_, ?_⟩
  all_goals decide +kernel

end DocGraph.Filter
