import Mathlib.Data.List.Induction
import DocGraph.Proofs.Request

/-! # What a transaction says of its making

A transaction in the making is changed by a dozen operations, in any order, and some of them fail. An
`Action` is one of them with its arguments, and `Context.after` is where a sequence of actions leads,
whatever fails on the way. What one action does is said once (`Action.effect`): it may add statements, put
one off, lock a collection or export a name, and no parameter is ever changed. From this follows, one
action after another, what a context has recorded of all actions before it (`Context.Records`).

Main statement: the transaction of a context that is closed for the first time is a function of the
actions that led there, as `Transaction.Reflects` says, and from then on neither closing nor a mutation
succeeds (`close_reflects`). -/

namespace DocGraph

/-! ### Actions -/

/-- An operation on a transaction in the making. Those that only look at it are left out. -/
inductive Action where
  | ensureOpen
  | nextVar
  | freshVar
  | freshParam (value : Json)
  | addParam (name : String) (value : Json)
  | lockWrite (collection : String)
  | lockRead (collection : String)
  | push (s : Statement)
  | comment (text : String)
  | fail (text : String)
  | defer (s : Statement)
  | bindResult (responseName var : String)
  | exportVar (name : String) (value : Ref)
  | substitute (data : InputObject)
  | resolveId (id : Input)
  | needsCheck (id : Ref) (type : String)
  | forget (id : Ref)
  | close

/-- What an action gives back. -/
inductive Answer where
  | unit (u : Unit)
  | name (text : String)
  | ref (r : Ref)
  | flag (b : Bool)
  | parts (literals : InputObject) (imports : List (String × Ref))
  | transaction (t : Transaction)

namespace Action

/-- Does an action. -/
def run : Action → Synthesis Answer
  | ensureOpen => .unit <$> Synthesis.ensureOpen
  | nextVar => .name <$> Synthesis.nextVar
  | freshVar => .name <$> Synthesis.freshVar
  | freshParam value => .ref <$> Synthesis.freshParam value
  | addParam name value => .ref <$> Synthesis.addParam name value
  | lockWrite collection => .unit <$> Synthesis.lockWrite collection
  | lockRead collection => .unit <$> Synthesis.lockRead collection
  | push s => .unit <$> Synthesis.push s
  | comment text => .unit <$> Synthesis.comment text
  | fail text => .unit <$> Synthesis.fail text
  | defer s => .unit <$> Synthesis.defer s
  | bindResult responseName var => .unit <$> Synthesis.bindResult responseName var
  | exportVar name value => .unit <$> Synthesis.exportVar name value
  | substitute data => .parts (Synthesis.literals data) <$> Synthesis.imports data
  | resolveId id => .ref <$> Synthesis.resolveId id
  | needsCheck id type => .flag <$> Synthesis.needsCheck id type
  | forget id => .unit <$> Synthesis.forget id
  | close => .transaction <$> Synthesis.close

/-- The statement that an action puts off to the end. -/
def deferred? : Action → Option Statement
  | defer s => some s
  | _ => none

/-- The name that an action exports. -/
def exported? : Action → Option String
  | exportVar name _ => some name
  | _ => none

/-- The value that an action asks a parameter for. -/
def value? : Action → Option Json
  | freshParam value => some value
  | addParam _ value => some value
  | resolveId (.str id) => some (.str id)
  | _ => none

/-- What stands for a variable in the script: nothing, or a failure if no such name is exported. -/
def missing (exported : List String) (name : String) : List Statement :=
  if name ∈ exported then [] else [.fail (.ofText s!"Variable ${name} has not been exported")]

/-- The statements that an action adds where some names have been exported. -/
def statements (exported : List String) : Action → List Statement
  | push s => [s]
  | comment text => [.comment text]
  | fail text => [.fail (.ofText text)]
  | bindResult responseName var =>
    [.comment "bind result for mutation field", .setResult responseName (.doc var)]
  | substitute data => (data.filterMap fun e => e.2.var?).flatMap (missing exported)
  | resolveId (.var name) => missing exported name
  | _ => []

/-- The statements that actions add one after another, where earlier actions have been done. -/
def allStatements (earlier : List Action) : List Action → List Statement
  | [] => []
  | a :: later => a.statements (earlier.filterMap exported?) ++ allStatements (earlier ++ [a]) later

end Action

namespace Context

/-- The context after an action, whether that succeeds or fails. -/
def next (c : Context) (a : Action) : Context :=
  (outcome a.run c).2

/-- The context after a sequence of actions. -/
def after (c : Context) (actions : List Action) : Context :=
  actions.foldl next c

end Context

/-- A transaction is what the actions from `start` on say. -/
structure Transaction.Reflects (t : Transaction) (start : Context) (actions : List Action) : Prop where
  /-- What is ever locked for writing is written. -/
  write : NameSet.Sorted t.write ∧ ∀ C, C ∈ t.write ↔ .lockWrite C ∈ actions
  /-- What is ever locked for reading is read, if it is not written. -/
  read : NameSet.Sorted t.read ∧ ∀ C, C ∈ t.read ↔ .lockRead C ∈ actions ∧ C ∉ t.write
  /-- The reference that is given for a value is a parameter that has this value. -/
  params : ∀ earlier a later, actions = earlier ++ a :: later → ∀ value, a.value? = some value →
    ∀ r, (outcome a.run (start.after earlier)).1 = .ok (.ref r) →
      ∃ name, r = .param name ∧ t.params.get? name = some value
  /-- Statements come in order, and those put off come last, behind a comment. -/
  statements : t.statements =
    Action.allStatements [] actions ++ finale (actions.filterMap Action.deferred?)

/-! ### Single operations -/

namespace Context

/-- A context has got statements and perhaps parameters, and all else that matters is as before. -/
structure Gains (c : Context) (ss : List Statement) (c' : Context) : Prop where
  number : c'.number = c.number
  isOpen : c'.isOpen = c.isOpen
  statements : c'.statements = c.statements ++ ss
  deferred : c'.deferred = c.deferred
  write : c'.write = c.write
  read : c'.read = c.read
  exports : c'.exports = c.exports
  params : ∀ {name v}, c.params.get? name = some v → c'.params.get? name = some v

/-- Counters and remembered checks leave no trace in a transaction. -/
theorem Gains.aside (c : Context) (nextVar nextParam : Nat) (memo : List (IdKey × String)) :
    c.Gains [] { c with nextVar := nextVar, nextParam := nextParam, memo := memo } :=
  ⟨rfl, rfl, (List.append_nil _).symm, rfl, rfl, rfl, rfl, id⟩

theorem Gains.refl (c : Context) : c.Gains [] c :=
  .aside c c.nextVar c.nextParam c.memo

theorem Gains.trans {c₁ c₂ c₃ : Context} {ss tt : List Statement} (h : c₁.Gains ss c₂)
    (h' : c₂.Gains tt c₃) : c₁.Gains (ss ++ tt) c₃ where
  number := h'.number.trans h.number
  isOpen := h'.isOpen.trans h.isOpen
  statements := by rw [h'.statements, h.statements, List.append_assoc]
  deferred := h'.deferred.trans h.deferred
  write := h'.write.trans h.write
  read := h'.read.trans h.read
  exports := h'.exports.trans h.exports
  params found := h'.params (h.params found)

theorem gains_push (c : Context) (s : Statement) : c.Gains [s] (outcome (Synthesis.push s) c).2 :=
  ⟨rfl, rfl, rfl, rfl, rfl, rfl, rfl, id⟩

theorem outcome_ensureOpen (c : Context) :
    outcome Synthesis.ensureOpen c =
      (if c.isOpen then .ok () else .error (.synthesis (.closed c.number)), c) := by
  unfold Synthesis.ensureOpen
  cases h : c.isOpen <;> simp [outcome_bind, h]

/-! ### Parameters -/

theorem outcome_addParam (c : Context) (name : String) (value : Json) :
    outcome (Synthesis.addParam name value) c =
      if c.params.contains name then (.error (.synthesis (.parameterTaken name)), c)
      else (.ok (.param name), { c with params := c.params.insert name value }) := by
  unfold Synthesis.addParam
  cases h : c.params.contains name with
  | true => simp [outcome_bind, h]
  | false =>
      simp [outcome_bind, outcome_map, h]
      rfl

theorem gains_addParam (c : Context) (name : String) (value : Json) :
    c.Gains [] (outcome (Synthesis.addParam name value) c).2 := by
  rw [outcome_addParam]
  split
  · exact .refl c
  · rename_i free
    refine ⟨rfl, rfl, (List.append_nil _).symm, rfl, rfl, rfl, rfl, fun {other v} found => ?_⟩
    have ne : other ≠ name := by
      rintro rfl
      simp [Record.contains, found] at free
    rw [Record.get?_insert, if_neg ne, found]

/-- A parameter is taken under the next name, and that is used up even if it turns out to be taken. -/
theorem outcome_freshParam (c : Context) (value : Json) :
    outcome (Synthesis.freshParam value) c =
      outcome (Synthesis.addParam s!"_{c.nextParam}" value) { c with nextParam := c.nextParam + 1 } :=
  rfl

theorem gains_freshParam (c : Context) (value : Json) :
    c.Gains [] (outcome (Synthesis.freshParam value) c).2 := by
  have counted : c.Gains [] { c with nextParam := c.nextParam + 1 } := .aside c _ _ _
  rw [outcome_freshParam]
  exact counted.trans (gains_addParam _ _ value)

/-- A parameter that is given has the value asked for. -/
theorem get?_of_addParam {c c' : Context} {name : String} {value : Json} {r : Ref}
    (done : outcome (Synthesis.addParam name value) c = (.ok r, c')) :
    ∃ p, r = .param p ∧ c'.params.get? p = some value := by
  rw [outcome_addParam] at done
  split at done
  · cases done
  · cases done
    exact ⟨name, rfl, by rw [Record.get?_insert, if_pos rfl]⟩

theorem get?_of_freshParam {c c' : Context} {value : Json} {r : Ref}
    (done : outcome (Synthesis.freshParam value) c = (.ok r, c')) :
    ∃ p, r = .param p ∧ c'.params.get? p = some value :=
  get?_of_addParam ((outcome_freshParam c value).symm.trans done)

/-! ### Variables -/

theorem missing_of_some {c : Context} {name : String} {r : Ref} (found : c.exports.get? name = some r) :
    Action.missing c.exports.names name = [] := by
  have known : c.exports.contains name = true := by rw [Record.contains, found, Option.isSome_some]
  exact if_pos ((Record.contains_iff _ _).mp known)

theorem missing_of_none {c : Context} {name : String} (found : c.exports.get? name = none) :
    Action.missing c.exports.names name =
      [.fail (.ofText s!"Variable ${name} has not been exported")] :=
  if_neg ((Record.get?_eq_none_iff _ _).mp found)

theorem gains_resolveId (c : Context) (id : Input) :
    c.Gains ((Action.resolveId id).statements c.exports.names)
      (outcome (Synthesis.resolveId id) c).2 := by
  cases id with
  | str text => exact gains_freshParam c _
  | null | bool | num | list | obj => exact .refl c
  | var name =>
      simp only [Synthesis.resolveId, outcome_bind, outcome_get, Action.statements]
      cases found : c.exports.get? name with
      | some r =>
          rw [missing_of_some found]
          exact .refl c
      | none =>
          rw [missing_of_none found]
          exact (gains_push c _).trans (gains_freshParam _ .null)

theorem gains_imports (c : Context) (data : InputObject) :
    c.Gains ((Action.substitute data).statements c.exports.names)
      (outcome (Synthesis.imports data) c).2 := by
  induction data generalizing c with
  | nil => exact .refl c
  | cons e rest ih =>
      obtain ⟨field, value⟩ := e
      cases value with
      | null | bool | num | str | list | obj =>
          simp only [Synthesis.imports]
          exact ih c
      | var name =>
          have split : (Action.substitute ((field, .var name) :: rest)).statements c.exports.names =
              Action.missing c.exports.names name ++
                (Action.substitute rest).statements c.exports.names := rfl
          rw [split]
          simp only [Synthesis.imports, outcome_bind, outcome_get]
          cases found : c.exports.get? name with
          | some r =>
              rw [missing_of_some found, List.nil_append]
              show c.Gains _
                (outcome (Synthesis.imports rest >>= fun l => pure ((field, r) :: l)) c).2
              rw [← map_eq_pure_bind, outcome_map]
              exact ih c
          | none =>
              rw [missing_of_none found]
              exact (gains_push c _).trans (ih _)

/-! ### Existence checks -/

theorem gains_needsCheck (c : Context) (id : Ref) (type : String) :
    c.Gains [] (outcome (Synthesis.needsCheck id type) c).2 := by
  simp only [Synthesis.needsCheck, outcome_bind, outcome_get]
  split
  · exact .refl c
  · split
    · exact .refl c
    · exact .aside c _ _ _

theorem gains_forget (c : Context) (id : Ref) : c.Gains [] (outcome (Synthesis.forget id) c).2 := by
  have same : (outcome (Synthesis.forget id) c).2 = c.forget id := rfl
  obtain ⟨memo, forgot⟩ := c.forget_eq id
  rw [same, forgot]
  exact .aside c _ _ memo

/-! ### Exports -/

theorem outcome_exportVar (c : Context) (name : String) (value : Ref) :
    outcome (Synthesis.exportVar name value) c =
      if c.exports.contains name then (.error (.input (.exportedTwice name)), c)
      else (.ok (), { c with exports := c.exports.insert name value }) := by
  unfold Synthesis.exportVar
  cases h : c.exports.contains name <;> simp [outcome_bind, h]

theorem mem_names_of_exportVar (c : Context) (name : String) (value : Ref) (other : String) :
    other ∈ (outcome (Synthesis.exportVar name value) c).2.exports.names ↔
      other ∈ c.exports.names ∨ name = other := by
  rw [outcome_exportVar]
  split
  · rename_i taken
    have known : name ∈ c.exports.names := (Record.contains_iff _ _).mp taken
    grind
  · show other ∈ (c.exports.insert name value).names ↔ _
    rw [Record.names_insert]
    grind

end Context

/-! ### One action -/

namespace Action

/-- What an action does to a context. -/
structure Effect (a : Action) (c c' : Context) : Prop where
  number : c'.number = c.number
  isOpen : c'.isOpen = c.isOpen
  statements : c'.statements = c.statements ++ a.statements c.exports.names
  deferred : c'.deferred = c.deferred ++ a.deferred?.toList
  write : ∀ C, C ∈ c'.write ↔ C ∈ c.write ∨ a = .lockWrite C
  read : ∀ C, C ∈ c'.read ↔ (C ∈ c.read ∨ a = .lockRead C ∧ C ∉ c.write) ∧ a ≠ .lockWrite C
  sorted : NameSet.Sorted c.write ∧ NameSet.Sorted c.read →
    NameSet.Sorted c'.write ∧ NameSet.Sorted c'.read
  exports : ∀ name, name ∈ c'.exports.names ↔ name ∈ c.exports.names ∨ a.exported? = some name
  params : ∀ {name v}, c.params.get? name = some v → c'.params.get? name = some v

/-- An action that at most adds statements and parameters. -/
def isPlain : Action → Bool
  | lockWrite _ | lockRead _ | defer _ | exportVar _ _ | close => false
  | _ => true

theorem gains_of_run {α : Type} {a : Action} {x : Synthesis α} {f : α → Answer} {c : Context}
    {ss : List Statement} (run : a.run = f <$> x) (gains : c.Gains ss (outcome x c).2) :
    c.Gains ss (c.next a) := by
  rwa [Context.next, run, outcome_map]

theorem gains_next (c : Context) {a : Action} (plain : a.isPlain = true) :
    c.Gains (a.statements c.exports.names) (c.next a) := by
  cases a with
  | lockWrite | lockRead | defer | exportVar | close => cases plain
  | ensureOpen =>
      refine gains_of_run rfl ?_
      rw [c.outcome_ensureOpen]
      exact .refl c
  | nextVar => exact .refl c
  | freshVar => exact .aside c (c.nextVar + 1) c.nextParam c.memo
  | freshParam value => exact gains_of_run rfl (c.gains_freshParam value)
  | addParam name value => exact gains_of_run rfl (c.gains_addParam name value)
  | push s => exact gains_of_run rfl (c.gains_push s)
  | comment text => exact gains_of_run rfl (c.gains_push _)
  | fail text => exact gains_of_run rfl (c.gains_push _)
  | bindResult responseName var => exact (c.gains_push _).trans (Context.gains_push _ _)
  | substitute data => exact gains_of_run rfl (c.gains_imports data)
  | resolveId id => exact gains_of_run rfl (c.gains_resolveId id)
  | needsCheck id type => exact gains_of_run rfl (c.gains_needsCheck id type)
  | forget id => exact gains_of_run rfl (c.gains_forget id)

theorem deferred?_of_isPlain {a : Action} (plain : a.isPlain = true) : a.deferred? = none := by
  cases a with
  | defer => cases plain
  | _ => rfl

theorem exported?_of_isPlain {a : Action} (plain : a.isPlain = true) : a.exported? = none := by
  cases a with
  | exportVar => cases plain
  | _ => rfl

theorem Effect.of_gains {a : Action} {c c' : Context} (plain : a.isPlain = true)
    (gains : c.Gains (a.statements c.exports.names) c') : a.Effect c c' where
  number := gains.number
  isOpen := gains.isOpen
  statements := gains.statements
  deferred := by rw [gains.deferred, deferred?_of_isPlain plain, Option.toList_none, List.append_nil]
  write C := by
    have unlocked : a ≠ .lockWrite C := by rintro rfl; cases plain
    simp [gains.write, unlocked]
  read C := by
    have unlocked : a ≠ .lockWrite C ∧ a ≠ .lockRead C := by
      constructor <;> (rintro rfl; cases plain)
    simp [gains.read, unlocked]
  sorted h := by rwa [gains.write, gains.read]
  exports name := by simp [gains.exports, exported?_of_isPlain plain]
  params := gains.params

theorem effect_lockWrite (c : Context) (C : String) : (lockWrite C).Effect c (c.lockWrite C) where
  number := rfl
  isOpen := rfl
  statements := (List.append_nil _).symm
  deferred := (List.append_nil _).symm
  write D := by simp [Context.lockWrite, NameSet.mem_insert, or_comm, eq_comm]
  read D := by simp [Context.lockWrite, NameSet.mem_erase, eq_comm]
  sorted h := ⟨h.1.insert C, h.2.erase C⟩
  exports name := by simp [Context.lockWrite, exported?]
  params := id

theorem effect_lockRead (c : Context) (C : String) : (lockRead C).Effect c (c.lockRead C) := by
  unfold Context.lockRead
  split
  · rename_i written
    -- Nothing is changed, and nothing is to be: what is written is not read.
    have written : C ∈ c.write := List.contains_iff_mem.mp written
    refine ⟨rfl, rfl, (List.append_nil _).symm, (List.append_nil _).symm, ?_, ?_, id, ?_, id⟩
    · simp
    · grind
    · simp [exported?]
  · rename_i unwritten
    have unwritten : C ∉ c.write := fun written => unwritten (List.contains_iff_mem.mpr written)
    refine ⟨rfl, rfl, (List.append_nil _).symm, (List.append_nil _).symm, ?_, fun D => ?_,
      fun h => ⟨h.1, h.2.insert C⟩, ?_, id⟩
    · simp
    · rw [NameSet.mem_insert]
      grind
    · simp [exported?]

theorem effect_defer (c : Context) (s : Statement) : (defer s).Effect c (c.addDeferred [s]) where
  number := rfl
  isOpen := rfl
  statements := (List.append_nil _).symm
  deferred := rfl
  write C := by simp [Context.addDeferred]
  read C := by simp [Context.addDeferred]
  sorted := id
  exports name := by simp [Context.addDeferred, exported?]
  params := id

theorem effect_exportVar (c : Context) (name : String) (value : Ref) :
    (exportVar name value).Effect c (outcome (Synthesis.exportVar name value) c).2 := by
  obtain ⟨exports, changed⟩ : ∃ exports,
      (outcome (Synthesis.exportVar name value) c).2 = { c with exports := exports } := by
    rw [Context.outcome_exportVar]
    split
    · exact ⟨c.exports, rfl⟩
    · exact ⟨_, rfl⟩
  have named := c.mem_names_of_exportVar name value
  rw [changed] at named ⊢
  exact ⟨rfl, rfl, (List.append_nil _).symm, (List.append_nil _).symm, by simp, by simp, id,
    by simpa [exported?] using named, id⟩

/-- Every action but closing has its effect, even where it fails. -/
theorem effect (c : Context) {a : Action} (other : a ≠ .close) : a.Effect c (c.next a) := by
  by_cases plain : a.isPlain = true
  · exact .of_gains plain (gains_next c plain)
  · cases a with
    | lockWrite C => exact effect_lockWrite c C
    | lockRead C => exact effect_lockRead c C
    | defer s => exact effect_defer c s
    | exportVar name value =>
        rw [Context.next, run, outcome_map]
        exact effect_exportVar c name value
    | close => exact absurd rfl other
    | _ => exact absurd rfl plain

theorem outcome_of_run {a : Action} {x : Synthesis Ref} {c : Context} {r : Ref}
    (run : a.run = .ref <$> x) (done : (outcome a.run c).1 = .ok (.ref r)) :
    outcome x c = (.ok r, c.next a) := by
  rw [run, outcome_map] at done
  rw [Context.next, run, outcome_map]
  rcases found : outcome x c with ⟨e | r', c'⟩
  · rw [found] at done
    cases done
  · rw [found] at done
    cases done
    rfl

/-- A reference that an action gives for a value is a parameter with this value. -/
theorem get?_of_run {a : Action} {c : Context} {value : Json} {r : Ref} (asked : a.value? = some value)
    (done : (outcome a.run c).1 = .ok (.ref r)) :
    ∃ name, r = .param name ∧ (c.next a).params.get? name = some value := by
  cases a with
  | freshParam v =>
      obtain rfl : v = value := Option.some.inj asked
      exact Context.get?_of_freshParam (outcome_of_run rfl done)
  | addParam name v =>
      obtain rfl : v = value := Option.some.inj asked
      exact Context.get?_of_addParam (outcome_of_run rfl done)
  | resolveId id =>
      cases id with
      | str text =>
          obtain rfl : .str text = value := Option.some.inj asked
          exact Context.get?_of_freshParam (outcome_of_run rfl done)
      | _ => cases asked
  | _ => cases asked

/-! ### All actions -/

/-- Which statements an action adds depends on the names exported and not on their order. -/
theorem statements_congr (a : Action) {names names' : List String}
    (same : ∀ name, name ∈ names ↔ name ∈ names') : a.statements names = a.statements names' := by
  have missing_eq : missing names = missing names' := by
    funext name
    simp only [missing, same]
  unfold statements
  rw [missing_eq]

theorem allStatements_concat (earlier actions : List Action) (a : Action) :
    allStatements earlier (actions ++ [a]) =
      allStatements earlier actions ++ a.statements ((earlier ++ actions).filterMap exported?) := by
  induction actions generalizing earlier with
  | nil => simp [allStatements]
  | cons b actions ih => simp [allStatements, ih]

end Action

namespace Context

theorem after_concat (c : Context) (actions : List Action) (a : Action) :
    c.after (actions ++ [a]) = (c.after actions).next a := by
  simp [after]

theorem after_append (c : Context) (actions later : List Action) :
    c.after (actions ++ later) = (c.after actions).after later := by
  simp [after]

/-- What a context knows of the actions that led to it. -/
structure Records (c : Context) (number : Nat) (actions : List Action) : Prop where
  number : c.number = number
  isOpen : c.isOpen = true
  statements : c.statements = Action.allStatements [] actions
  deferred : c.deferred = actions.filterMap Action.deferred?
  write : ∀ C, C ∈ c.write ↔ .lockWrite C ∈ actions
  read : ∀ C, C ∈ c.read ↔ .lockRead C ∈ actions ∧ .lockWrite C ∉ actions
  sorted : NameSet.Sorted c.write ∧ NameSet.Sorted c.read
  exports : ∀ name, name ∈ c.exports.names ↔ name ∈ actions.filterMap Action.exported?

theorem records_empty (number : Nat) (remembers : Bool) : (empty number remembers).Records number [] where
  number := rfl
  isOpen := rfl
  statements := rfl
  deferred := rfl
  write := by simp [empty]
  read := by simp [empty]
  sorted := ⟨.nil, .nil⟩
  exports := by simp [empty, Record.names]

theorem Records.next {c c' : Context} {number : Nat} {actions : List Action} {a : Action}
    (h : c.Records number actions) (effect : a.Effect c c') : c'.Records number (actions ++ [a]) where
  number := effect.number.trans h.number
  isOpen := effect.isOpen.trans h.isOpen
  statements := by
    rw [effect.statements, h.statements, Action.allStatements_concat, List.nil_append,
      a.statements_congr h.exports]
  deferred := by
    rw [effect.deferred, h.deferred, List.filterMap_append]
    cases deferred : a.deferred? <;> simp [deferred]
  write C := by
    rw [effect.write, h.write, List.mem_append, List.mem_singleton]
    grind
  read C := by
    -- A lock for reading is void where the collection is written, which `h.write` knows.
    rw [effect.read, h.read, h.write, List.mem_append, List.mem_append, List.mem_singleton,
      List.mem_singleton]
    grind
  sorted := effect.sorted h.sorted
  exports name := by
    rw [effect.exports, h.exports, List.filterMap_append, List.mem_append]
    cases exported : a.exported? <;> simp [exported, eq_comm]

/-- A new context records all actions up to its closing. -/
theorem records_after (number : Nat) (remembers : Bool) {actions : List Action}
    (unclosed : .close ∉ actions) :
    ((empty number remembers).after actions).Records number actions := by
  induction actions using List.reverseRecOn with
  | nil => exact records_empty number remembers
  | append_singleton actions a ih =>
      rw [List.mem_append, List.mem_singleton, not_or] at unclosed
      rw [after_concat]
      exact (ih unclosed.1).next (a.effect _ (Ne.symm unclosed.2))

/-- No action but closing changes a parameter. -/
theorem get?_after {c : Context} {actions : List Action} {name : String} {v : Json}
    (unclosed : .close ∉ actions) (found : c.params.get? name = some v) :
    (c.after actions).params.get? name = some v := by
  induction actions generalizing c with
  | nil => exact found
  | cons a actions ih =>
      rw [List.mem_cons, not_or] at unclosed
      exact ih unclosed.2 ((a.effect c (Ne.symm unclosed.1)).params found)

/-! ### Closing -/

theorem exists_outcome_close {c : Context} (isOpen : c.isOpen = true) :
    ∃ c', outcome Synthesis.close c = (.ok c.transaction, c') ∧ c'.isOpen = false ∧
      c'.number = c.number := by
  have passed : outcome Synthesis.ensureOpen c = (.ok (), c) := by
    rw [outcome_ensureOpen, if_pos isOpen]
  exact ⟨_, outcome_bind_of_ok passed _, rfl, rfl⟩

theorem outcome_ensureOpen_of_closed {c : Context} (closed : c.isOpen = false) :
    outcome Synthesis.ensureOpen c = (.error (.synthesis (.closed c.number)), c) := by
  rw [outcome_ensureOpen, closed, if_neg Bool.false_ne_true]

theorem outcome_close_of_closed {c : Context} (closed : c.isOpen = false) :
    outcome Synthesis.close c = (.error (.synthesis (.closed c.number)), c) :=
  outcome_bind_of_error (outcome_ensureOpen_of_closed closed) _

/-- A mutation begins with a look at whether the context is open. -/
theorem outcome_synthesize_of_closed {c : Context} (closed : c.isOpen = false) (m : Model)
    (exports : Option Selection) (var? : Option String) (mutation : Mutation) :
    outcome (mutation.synthesize m exports var?) c = (.error (.synthesis (.closed c.number)), c) := by
  have refused := outcome_ensureOpen_of_closed closed
  cases mutation with
  | create => exact outcome_bind_of_error refused _
  | update => exact outcome_bind_of_error refused _
  | delete => exact outcome_bind_of_error refused _
  | createEdge => exact outcome_bind_of_error refused _
  | updateEdge => exact outcome_bind_of_error refused _
  | deleteEdge => exact outcome_bind_of_error refused _

theorem next_of_closed {c : Context} (closed : c.isOpen = false) (a : Action) :
    (c.next a).isOpen = false ∧ (c.next a).number = c.number := by
  by_cases closing : a = .close
  · subst closing
    rw [next, Action.run, outcome_map, outcome_close_of_closed closed]
    exact ⟨closed, rfl⟩
  · have effect := a.effect c closing
    exact ⟨effect.isOpen.trans closed, effect.number⟩

/-- A closed context stays closed. -/
theorem after_of_closed {c : Context} (closed : c.isOpen = false) (actions : List Action) :
    (c.after actions).isOpen = false ∧ (c.after actions).number = c.number := by
  induction actions generalizing c with
  | nil => exact ⟨closed, rfl⟩
  | cons a actions ih =>
      obtain ⟨closed', number⟩ := next_of_closed closed a
      rw [← number]
      exact ih closed'

theorem Records.reflects {number : Nat} {remembers : Bool} {actions : List Action}
    (h : ((empty number remembers).after actions).Records number actions) (unclosed : .close ∉ actions) :
    ((empty number remembers).after actions).transaction.Reflects (empty number remembers) actions where
  write := ⟨h.sorted.1, h.write⟩
  read := ⟨h.sorted.2, fun C => (h.read C).trans (and_congr_right fun _ => (not_congr (h.write C)).symm)⟩
  params earlier a later split value asked r done := by
    subst split
    have unclosed : .close ∉ later := fun mem =>
      unclosed (List.mem_append_right _ (List.mem_cons_of_mem _ mem))
    obtain ⟨name, rfl, found⟩ := Action.get?_of_run asked done
    refine ⟨name, rfl, ?_⟩
    show ((empty number remembers).after (earlier ++ a :: later)).params.get? name = some value
    rw [after_append]
    exact get?_after (c := ((empty number remembers).after earlier).next a) unclosed found
  statements := by rw [statements_transaction, h.statements, h.deferred]

/-- A context is closed once, whatever was done with it, and its transaction is what was done. From then
on neither closing nor a mutation succeeds, whatever else is done, and neither leaves a trace. -/
theorem close_reflects (number : Nat) (remembers : Bool) (actions : List Action)
    (unclosed : .close ∉ actions) :
    ∃ t c, outcome Synthesis.close ((empty number remembers).after actions) = (.ok t, c) ∧
      t.Reflects (empty number remembers) actions ∧
      ∀ later,
        outcome Synthesis.close (c.after later) =
          (.error (.synthesis (.closed number)), c.after later) ∧
        ∀ (m : Model) exports var? (mutation : Mutation),
          outcome (mutation.synthesize m exports var?) (c.after later) =
            (.error (.synthesis (.closed number)), c.after later) := by
  have records := records_after number remembers unclosed
  obtain ⟨c, done, closed, same⟩ := exists_outcome_close records.isOpen
  refine ⟨_, c, done, records.reflects unclosed, fun later => ?_⟩
  obtain ⟨closed', same'⟩ := after_of_closed closed later
  rw [← records.number, ← same, ← same']
  exact ⟨outcome_close_of_closed closed', outcome_synthesize_of_closed closed'⟩

/-- Actions of which three fail: a name given out is taken already, a variable is exported twice, and
no id is given. -/
def errands : List Action :=
  [.lockRead "Team", .addParam "_0" (.bool true), .freshParam .null, .resolveId (.str "Team/1"),
    .defer (.comment "later"), .resolveId (.var "x"), .exportVar "x" (.exported "x"),
    .exportVar "x" (.doc "_x0"), .resolveId (.var "x"), .lockWrite "Team", .lockRead "Person",
    .lockRead "Team", .resolveId .null, .bindResult "team" "_x0"]

theorem close_reflects_errands :
    ∃ t c, outcome Synthesis.close ((empty 7 true).after errands) = (.ok t, c) ∧
      t.Reflects (empty 7 true) errands ∧
      t.write = ["Team"] ∧ t.read = ["Person"] ∧
      t.params = [("_0", .bool true), ("_1", .str "Team/1"), ("_2", .null)] ∧
      t.statements = [.fail (.ofText "Variable $x has not been exported"),
        .comment "bind result for mutation field", .setResult "team" (.doc "_x0"),
        .comment "final constraint checks", .comment "later"] ∧
      outcome Synthesis.close c = (.error (.synthesis (.closed 7)), c) := by
  obtain ⟨t, c, done, reflects, spent⟩ := close_reflects 7 true errands (by simp [errands])
  have same : (outcome Synthesis.close ((empty 7 true).after errands)).1 = .ok t := by rw [done]
  obtain rfl := Except.ok.inj same
  exact ⟨_, c, done, reflects, rfl, rfl, rfl, rfl, (spent []).1⟩

end Context

end DocGraph
