import DocGraph.Proofs.Directives
import DocGraph.Proofs.Issued
import DocGraph.Proofs.Parts

/-! # Effects of mutations

A mutation is put into statements first, and the statements run later. `Effects x c E` says of a part `x`
of a mutation, begun in the context `c`, what comes of both: if `x` succeeds, then whenever the statements
that it adds run to their end, with parameters that include those of the context, the run before and the
run after are related by `E`. Sequences are put together by `Effects.bind`. Most parts export nothing
(`Exportless`). Those that moreover add nothing but comments and assertions are `Idle`: they leave the run
as it is. -/

namespace DocGraph

variable {α β : Type} {c : Context} {m : Model}

open Synthesis

/-- A later context: parameters keep their values, and variables are taken in order. -/
structure Context.Grows (c c' : Context) : Prop where
  params : ∀ {p v}, c.params.get? p = some v → c'.params.get? p = some v
  vars : c.nextVar ≤ c'.nextVar

theorem Context.Grows.refl (c : Context) : c.Grows c :=
  ⟨id, Nat.le_refl _⟩

theorem Context.Grows.trans {c₁ c₂ c₃ : Context} (h : c₁.Grows c₂) (h' : c₂.Grows c₃) : c₁.Grows c₃ :=
  ⟨fun e => h'.params (h.params e), Nat.le_trans h.vars h'.vars⟩

/-- What the statements of a part of a mutation do to a run in which all keys have been given out. -/
def Effects (x : Synthesis α) (c : Context) (E : α → Record Json → Run → Run → Prop) : Prop :=
  ∀ a c', outcome x c = (.ok a, c') →
    c.Grows c' ∧ ∃ ss, c'.statements = c.statements ++ ss ∧
      ∀ {write params run run'}, (∀ {p v}, c'.params.get? p = some v → params.get? p = some v) →
        run.store.Issued run.lastKey → PerformsAll write params ss run run' → E a params run run'

namespace Effects

theorem of_pure {E : α → Record Json → Run → Run → Prop} (a : α) (h : ∀ params run, E a params run run) :
    Effects (pure a) c E := by
  intro b c' done
  cases done
  refine ⟨.refl c, [], (List.append_nil _).symm, ?_⟩
  intro write params run run' _ _ p
  cases p
  exact h params run

theorem of_throw {E : α → Record Json → Run → Run → Prop} (e : Error) : Effects (throw e) c E := by
  intro a c' done
  cases done

/-- A script that is made to fail does not run to its end. -/
theorem of_fail {E : Unit → Record Json → Run → Run → Prop} (text : String) : Effects (fail text) c E := by
  intro a c' done
  cases done
  refine ⟨⟨id, Nat.le_refl _⟩, [.fail (.ofText text)], rfl, ?_⟩
  intro write params run run' _ _ p
  cases performsAll_singleton.mp p

theorem mono {x : Synthesis α} {E F : α → Record Json → Run → Run → Prop} (h : Effects x c E)
    (le : ∀ a params run run', E a params run run' → F a params run run') : Effects x c F := by
  intro a c' done
  obtain ⟨grows, ss, added, effect⟩ := h a c' done
  refine ⟨grows, ss, added, ?_⟩
  intro write params run run' within issued p
  exact le _ _ _ _ (effect within issued p)

/-- Two effects of the same statements. -/
theorem and {x : Synthesis α} {E F : α → Record Json → Run → Run → Prop} (h : Effects x c E)
    (h' : Effects x c F) : Effects x c fun a params run run' => E a params run run' ∧ F a params run run' := by
  intro a c' done
  obtain ⟨grows, ss, added, effect⟩ := h a c' done
  obtain ⟨_, tt, added', effect'⟩ := h' a c' done
  obtain rfl : ss = tt := List.append_cancel_left (added.symm.trans added')
  exact ⟨grows, ss, added, fun within issued p => ⟨effect within issued p, effect' within issued p⟩⟩

/-- Two parts one after the other. -/
theorem bind {x : Synthesis α} {f : α → Synthesis β} {E : α → Record Json → Run → Run → Prop}
    {G : β → Record Json → Run → Run → Prop} (hx : Effects x c E)
    (hf : ∀ a c', c.Grows c' → Effects (f a) c' fun b params mid run' =>
      ∀ run, E a params run mid → G b params run run') : Effects (x >>= f) c G := by
  intro b c'' done
  obtain ⟨a, c', first, second⟩ := outcome_bind_ok.mp done
  obtain ⟨grows, ss, added, effect⟩ := hx a c' first
  obtain ⟨grows', tt, added', effect'⟩ := hf a c' grows b c'' second
  refine ⟨grows.trans grows', ss ++ tt, by rw [added', added, List.append_assoc], ?_⟩
  intro write params run run' within issued p
  obtain ⟨mid, p₁, p₂⟩ := performsAll_append.mp p
  have before := effect (fun h => within (grows'.params h)) issued p₁
  exact effect' within (p₁.issued issued) p₂ run before

theorem ofExcept_bind {e : Except Error α} {f : α → Synthesis β}
    {G : β → Record Json → Run → Run → Prop} (h : ∀ a, e = .ok a → Effects (f a) c G) :
    Effects (Synthesis.ofExcept e >>= f) c G := by
  cases e with
  | error e => exact of_throw e
  | ok a => exact h a rfl

/-- A single statement, and what follows. -/
theorem push_bind {s : Statement} {f : Unit → Synthesis β} {G : β → Record Json → Run → Run → Prop}
    (h : Effects (f ()) (c.add [s]) fun b params mid run' => ∀ write run,
      run.store.Issued run.lastKey → Performs write params s run mid → G b params run run') :
    Effects (push s >>= f) c G := by
  intro b c'' done
  obtain ⟨a, c', first, second⟩ := outcome_bind_ok.mp done
  cases first
  obtain ⟨grows, tt, added, effect⟩ := h b c'' second
  refine ⟨⟨grows.params, grows.vars⟩, [s] ++ tt, by rw [added, ← List.append_assoc]; rfl, ?_⟩
  intro write params run run' within issued p
  cases p with
  | cons first rest =>
      have later := (performsAll_singleton.mpr first).issued issued
      exact effect within later rest write run issued first

theorem freshVar_bind {f : String → Synthesis β} {G : β → Record Json → Run → Run → Prop}
    (h : Effects (f (varName c.nextVar)) c.addVar G) : Effects (freshVar >>= f) c G := by
  intro b c'' done
  obtain ⟨a, c', first, second⟩ := outcome_bind_ok.mp done
  cases first
  obtain ⟨grows, ss, added, effect⟩ := h b c'' second
  exact ⟨⟨grows.params, Nat.le_trans (Nat.le_succ _) grows.vars⟩, ss, added, effect⟩

theorem of_freshParam_ok {v : Json} {r : Ref} {c' : Context} (h : outcome (freshParam v) c = (.ok r, c')) :
    r = .param (paramName c.nextParam) ∧ c' = c.addParam v ∧
      c.params.contains (paramName c.nextParam) = false := by
  simp only [freshParam, addParam, outcome_bind, outcome_get, outcome_modify] at h
  by_cases taken : c.params.contains (paramName c.nextParam) = true
  · have taken' : c.params.contains (toString "_" ++ toString c.nextParam) = true := taken
    rw [if_pos taken'] at h
    cases h
  · have free : ¬ c.params.contains (toString "_" ++ toString c.nextParam) = true := taken
    rw [if_neg free] at h
    cases h
    exact ⟨rfl, rfl, by simpa using taken⟩

/-- A new parameter, which has its value when the statements that follow run. -/
theorem freshParam_bind {v : Json} {f : Ref → Synthesis β} {G : β → Record Json → Run → Run → Prop}
    (h : ∀ p c', c.Grows c' → Effects (f (.param p)) c' fun b params run run' =>
      params.get? p = some v → G b params run run') : Effects (freshParam v >>= f) c G := by
  intro b c'' done
  obtain ⟨a, c', first, second⟩ := outcome_bind_ok.mp done
  obtain ⟨rfl, rfl, free⟩ := of_freshParam_ok first
  have grows : c.Grows (c.addParam v) := ⟨(Context.extends_addParam v free).params, Nat.le_refl _⟩
  obtain ⟨grows', ss, added, effect⟩ := h (paramName c.nextParam) (c.addParam v) grows b c'' second
  refine ⟨grows.trans grows', ss, added, ?_⟩
  intro write params run run' within issued p
  exact effect within issued p (within (grows'.params (c.get?_addParam v)))

end Effects

/-! ### Parts that export nothing -/

/-- A later context with the same exports. -/
structure Context.Keeps (c c' : Context) : Prop where
  statements : ∀ {s}, s ∈ c.statements → s ∈ c'.statements
  params : ∀ {p v}, c.params.get? p = some v → c'.params.get? p = some v
  exports : ∀ x, c'.exports.get? x = c.exports.get? x

theorem Context.Keeps.refl (c : Context) : c.Keeps c :=
  ⟨id, id, fun _ => rfl⟩

theorem Context.Keeps.trans {c₁ c₂ c₃ : Context} (h : c₁.Keeps c₂) (h' : c₂.Keeps c₃) : c₁.Keeps c₃ :=
  ⟨fun hs => h'.statements (h.statements hs), fun hp => h'.params (h.params hp),
    fun x => (h'.exports x).trans (h.exports x)⟩

/-- Takes nothing back and exports nothing. -/
def Exportless (x : Synthesis α) : Prop :=
  ∀ c a c', outcome x c = (.ok a, c') → c.Keeps c'

namespace Exportless

theorem pure (a : α) : Exportless (Pure.pure a : Synthesis α) := by
  intro c b c' done
  cases done
  exact .refl c

theorem throw (e : Error) : Exportless (throw e : Synthesis α) := by
  intro c a c' done
  cases done

theorem bind {x : Synthesis α} {f : α → Synthesis β} (hx : Exportless x) (hf : ∀ a, Exportless (f a)) :
    Exportless (x >>= f) := by
  intro c b c'' done
  obtain ⟨a, c', first, second⟩ := outcome_bind_ok.mp done
  exact (hx c a c' first).trans (hf a c' b c'' second)

theorem of_same {x : Synthesis α} (h : ∀ {c a c'}, outcome x c = (.ok a, c') →
    c'.statements = c.statements ∧ c'.params = c.params ∧ c'.exports = c.exports) : Exportless x := by
  intro c a c' done
  obtain ⟨statements, params, exports⟩ := h done
  exact ⟨fun hs => statements.symm ▸ hs, fun hp => params.symm ▸ hp, fun x => by rw [exports]⟩

theorem push (s : Statement) : Exportless (Synthesis.push s) := by
  intro c a c' done
  cases done
  exact ⟨fun hs => List.mem_append_left _ hs, id, fun _ => rfl⟩

theorem freshVar : Exportless freshVar :=
  of_same fun done => by cases done; exact ⟨rfl, rfl, rfl⟩

theorem freshParam (v : Json) : Exportless (freshParam v) := by
  intro c r c' done
  obtain ⟨_, rfl, free⟩ := Effects.of_freshParam_ok done
  exact ⟨id, (Context.extends_addParam v free).params, fun _ => rfl⟩

end Exportless

/-! ### Parts that add comments and assertions at most -/

/-- Adds nothing that changes a run, and exports nothing. -/
structure Idle (x : Synthesis α) : Prop where
  effects : ∀ c, Effects x c fun _ _ run run' => run' = run
  exportless : Exportless x

namespace Idle

/-- What an idle part is followed by is all that matters. -/
theorem bind_effects {x : Synthesis α} {f : α → Synthesis β} {G : β → Record Json → Run → Run → Prop}
    (hx : Idle x) (hf : ∀ a c', c.Grows c' → Effects (f a) c' G) : Effects (x >>= f) c G := by
  refine (hx.effects c).bind fun a c' grows => (hf a c' grows).mono ?_
  rintro b params mid run' effect run rfl
  exact effect

theorem bind {x : Synthesis α} {f : α → Synthesis β} (hx : Idle x) (hf : ∀ a, Idle (f a)) :
    Idle (x >>= f) where
  effects _ := hx.bind_effects fun a c' _ => (hf a).effects c'
  exportless := hx.exportless.bind fun a => (hf a).exportless

theorem pure (a : α) : Idle (Pure.pure a : Synthesis α) where
  effects _ := .of_pure a fun _ _ => rfl
  exportless := .pure a

theorem throw (e : Error) : Idle (throw e : Synthesis α) where
  effects _ := .of_throw e
  exportless := .throw e

/-- A part that adds no statements. -/
theorem of_same {x : Synthesis α} (h : ∀ {c a c'}, outcome x c = (.ok a, c') →
    c'.statements = c.statements ∧ c'.params = c.params ∧ c'.nextVar = c.nextVar ∧
      c'.exports = c.exports) : Idle x where
  effects := by
    intro c a c' done
    obtain ⟨statements, params, vars, _⟩ := h done
    refine ⟨⟨fun e => by rw [params]; exact e, Nat.le_of_eq vars.symm⟩, [], by simp [statements], ?_⟩
    intro write params run run' _ _ p
    cases p
    rfl
  exportless := .of_same fun done => ⟨(h done).1, (h done).2.1, (h done).2.2.2⟩

theorem push {s : Statement} (h : ∀ b ∈ s.parts, b.IsQuiet) : Idle (push s) where
  effects := by
    intro c a c' done
    cases done
    refine ⟨⟨id, Nat.le_refl _⟩, [s], rfl, ?_⟩
    intro write params run run' _ _ p
    refine (p.of_quiet fun b hb => h b ?_).1
    simpa [partsOf] using hb
  exportless := .push s

/-- After a failure there is no run to be changed. -/
theorem fail (text : String) : Idle (fail text) where
  effects _ := .of_fail text
  exportless := .push _

theorem comment (text : String) : Idle (comment text) := by
  refine push fun b hb => ?_
  rw [List.mem_singleton.mp hb]
  trivial

theorem assert (check : Check) (message : Message) : Idle (Synthesis.push (.assert check message)) := by
  refine push fun b hb => ?_
  rw [List.mem_singleton.mp hb]
  trivial

theorem get : Idle (MonadState.get : Synthesis Context) :=
  of_same fun done => by cases done; exact ⟨rfl, rfl, rfl, rfl⟩

/-- What is deferred is not among the statements. -/
theorem defer (s : Statement) : Idle (defer s) :=
  of_same fun done => by cases done; exact ⟨rfl, rfl, rfl, rfl⟩

theorem freshVar : Idle freshVar where
  effects c := by
    intro a c' done
    cases done
    refine ⟨⟨id, Nat.le_succ _⟩, [], (List.append_nil _).symm, ?_⟩
    intro write params run run' _ _ p
    cases p
    rfl
  exportless := .freshVar

theorem freshParam (v : Json) : Idle (freshParam v) where
  effects c := by
    intro r c' done
    obtain ⟨_, rfl, free⟩ := Effects.of_freshParam_ok done
    refine ⟨⟨(Context.extends_addParam v free).params, Nat.le_refl _⟩, [], (List.append_nil _).symm, ?_⟩
    intro write params run run' _ _ p
    cases p
    rfl
  exportless := .freshParam v

theorem lockWrite (collection : String) : Idle (lockWrite collection) :=
  of_same fun done => by cases done; exact ⟨rfl, rfl, rfl, rfl⟩

theorem lockRead (collection : String) : Idle (lockRead collection) := by
  refine of_same fun {c a c'} done => ?_
  cases done
  dsimp only
  split <;> exact ⟨rfl, rfl, rfl, rfl⟩

theorem needsCheck (id : Ref) (type : String) : Idle (needsCheck id type) := by
  refine of_same fun {c a c'} done => ?_
  unfold Synthesis.needsCheck at done
  rw [outcome_bind_of_ok (outcome_get c)] at done
  dsimp only at done
  split at done
  · cases done
    exact ⟨rfl, rfl, rfl, rfl⟩
  · split at done
    · cases done
      exact ⟨rfl, rfl, rfl, rfl⟩
    · cases done
      exact ⟨rfl, rfl, rfl, rfl⟩

theorem forget (id : Ref) : Idle (forget id) := by
  refine of_same fun {c a c'} done => ?_
  have done : (Except.ok (), c.forget id) = (.ok a, c') := done
  obtain ⟨memo, same⟩ := c.forget_eq id
  rw [same] at done
  cases done
  exact ⟨rfl, rfl, rfl, rfl⟩

/-- All parts that leave stores alone are idle. -/
theorem covers : Covers Idle fun _ => True where
  pure := pure
  throw := throw
  bind := bind
  get := get
  fail := fail
  comment := comment
  assert := assert
  defer := defer
  freshVar := freshVar
  freshParam := freshParam
  needsCheck := needsCheck
  lockRead _ := lockRead _

theorem ofExcept (e : Except Error α) : Idle (Synthesis.ofExcept e) :=
  covers.ofExcept e

theorem ensureOpen : Idle ensureOpen :=
  covers.ensureOpen

theorem varOr (var? : Option String) : Idle (Model.varOr var?) :=
  covers.varOr var?

theorem imports (data : InputObject) : Idle (imports data) :=
  covers.imports data

theorem resolveId (id : Input) : Idle (resolveId id) :=
  covers.resolveId id

theorem rejectExports (items : List SelectionItem) : Idle (rejectExports items) :=
  covers.rejectExports fail items

theorem lockWrites (collections : List String) : Idle (collections.forM Synthesis.lockWrite) :=
  covers.forM fun C _ => lockWrite C

theorem checkEdge (sourceType field : String) (source target : Ref) (targetType : String)
    (ends : EndChecks) : Idle (m.checkEdge sourceType field source target targetType ends) :=
  covers.checkEdge source target trivial (fun _ _ _ _ _ => trivial) fun _ _ _ _ _ => trivial

theorem checkKey (var type : String) : Idle (m.checkKey var type) :=
  covers.checkKey var trivial

theorem deferChecks (type : String) (id : Ref) (guard? : Option Ref) : Idle (m.deferChecks type id guard?) :=
  covers.deferChecks id guard? fun _ _ _ _ _ _ => trivial

end Idle

/-- All parts that leave stores alone export nothing. -/
theorem Exportless.covers : Covers Exportless fun _ => True where
  pure := pure
  throw := throw
  bind := bind
  get := Idle.get.exportless
  fail text := (Idle.fail text).exportless
  comment text := (Idle.comment text).exportless
  assert check message := (Idle.assert check message).exportless
  defer s := (Idle.defer s).exportless
  freshVar := freshVar
  freshParam := freshParam
  needsCheck id type := (Idle.needsCheck id type).exportless
  lockRead _ := (Idle.lockRead _).exportless

end DocGraph
