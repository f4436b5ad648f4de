import Mathlib.Data.List.Forall2
import Mathlib.Data.List.Sort
import Coordination.Config
import Coordination.Proofs.OutputKey

/-!
# Building a workflow from its configuration

A resolver may answer by what it was asked before (`Resolver`). It is asked in
a state monad that takes a note of every question with its answer, so that
`Config.buildNoting` gives both what becomes of a configuration and what the
resolver was asked for it.

* `Config.Outcome`: the ways in which a configuration comes out, in order of
  precedence, each with the inquiries made until then;
* `Config.outcome_iff`: it comes out in exactly one of them;
* `Config.Orderly`: what may be asked of a resolver, and when;
* `Config.build_account`: these together with the condition for a workflow: the
  configuration is valid, and every sub-task gets its task.
-/

namespace Coordination

/-! ## Resolvers -/

/-- What a resolver was asked, with its answers, in order. -/
abbrev Inquiries (τ : Type) := List (Definition × Option τ)

/-- What finds the task of a sub-task, given what it was asked before. -/
def Resolver (τ : Type) := Inquiries τ → Definition → Option τ

namespace Resolver

variable {τ : Type} {resolver : Resolver τ}

/-- A resolver that always answers alike. -/
def steady (resolve : Definition → Option τ) : Resolver τ := fun _ => resolve

@[simp] theorem steady_apply (resolve : Definition → Option τ) (asked : Inquiries τ)
    (definition : Definition) : steady resolve asked definition = resolve definition := rfl

/-- Asks about a sub-task and takes a note of it. -/
def ask (resolver : Resolver τ) (definition : Definition) : StateM (Inquiries τ) (Option τ) :=
  fun asked => (resolver asked definition, asked ++ [(definition, resolver asked definition)])

/-- The notes about sub-tasks that all got tasks. -/
def answered (definitions : List Definition) (tasks : List τ) : Inquiries τ :=
  (definitions.zip tasks).map fun got => (got.1, some got.2)

theorem map_fst_answered {definitions : List Definition} {tasks : List τ}
    (h : tasks.length = definitions.length) :
    (answered definitions tasks).map (·.1) = definitions := by
  rw [answered, List.map_map]
  exact List.map_fst_zip h.ge

theorem exists_task_of_mem_answered {definitions : List Definition} {tasks : List τ}
    {inquiry : Definition × Option τ} (h : inquiry ∈ answered definitions tasks) :
    ∃ task, inquiry.2 = some task := by
  obtain ⟨got, -, rfl⟩ := List.mem_map.1 h
  exact ⟨got.2, rfl⟩

/-- Each of some sub-tasks gets its task, asked about after those before it. -/
inductive Answers (resolver : Resolver τ) : Inquiries τ → List Definition → List τ → Prop
  | nil {asked : Inquiries τ} : Answers resolver asked [] []
  | cons {asked : Inquiries τ} {definition : Definition} {task : τ} {rest : List Definition}
      {tasks : List τ} (first : resolver asked definition = some task)
      (others : Answers resolver (asked ++ [(definition, some task)]) rest tasks) :
    Answers resolver asked (definition :: rest) (task :: tasks)

theorem Answers.length_eq {asked : Inquiries τ} {definitions : List Definition} {tasks : List τ}
    (h : resolver.Answers asked definitions tasks) : tasks.length = definitions.length := by
  induction h with
  | nil => rfl
  | cons _ _ ih => rw [List.length_cons, List.length_cons, ih]

/-- Each sub-task gets its task, or there is a first one that does not. -/
theorem answers_or_first_none (resolver : Resolver τ) (asked : Inquiries τ)
    (definitions : List Definition) :
    (∃ tasks, resolver.Answers asked definitions tasks) ∨
      ∃ before definition after tasks, definitions = before ++ definition :: after ∧
        resolver.Answers asked before tasks ∧
        resolver (asked ++ answered before tasks) definition = none := by
  induction definitions generalizing asked with
  | nil => exact .inl ⟨[], .nil⟩
  | cons definition rest ih =>
    cases hanswer : resolver asked definition with
    | none => exact .inr ⟨[], definition, rest, [], rfl, .nil, by simpa [answered] using hanswer⟩
    | some task =>
      rcases ih (asked ++ [(definition, some task)]) with
        ⟨tasks, htasks⟩ | ⟨before, other, after, tasks, rfl, htasks, hnone⟩
      · exact .inl ⟨task :: tasks, .cons hanswer htasks⟩
      · exact .inr ⟨definition :: before, other, after, task :: tasks, rfl, .cons hanswer htasks,
          by simpa [answered] using hnone⟩

end Resolver

/-! ## Lists of results -/

section

variable {ε α β : Type} {f : α → Except ε β}

theorem mapM_eq_ok_iff {items : List α} {results : List β} :
    items.mapM f = .ok results ↔
      List.Forall₂ (fun item result => f item = .ok result) items results := by
  induction items generalizing results with
  | nil =>
    rw [List.forall₂_nil_left_iff, List.mapM_nil]
    exact ⟨fun h => (Except.ok.inj h).symm, fun h => by rw [h]; rfl⟩
  | cons item items ih =>
    rw [List.mapM_cons, List.forall₂_cons_left_iff]
    cases hitem : f item with
    | error error => simp [bind, Except.bind]
    | ok result =>
      cases hitems : items.mapM f with
      | error error =>
        have hnone : ∀ others,
            ¬ List.Forall₂ (fun item result => f item = .ok result) items others :=
          fun others h => by simp [ih.2 h] at hitems
        simp [bind, Except.bind, hnone]
      | ok others =>
        have hothers := fun rest => (@ih rest).symm.trans (by rw [hitems])
        simp [bind, Except.bind, pure, Except.pure, hothers, eq_comm]

theorem mapM_append_error {before after : List α} {item : α} {error : ε}
    (hbefore : ∀ earlier ∈ before, ∃ result, f earlier = .ok result)
    (hitem : f item = .error error) : (before ++ item :: after).mapM f = .error error := by
  induction before with
  | nil => simp [hitem, bind, Except.bind]
  | cons earlier before ih =>
    obtain ⟨⟨result, hresult⟩, hrest⟩ := List.forall_mem_cons.1 hbefore
    rw [List.cons_append, List.mapM_cons, hresult, ih hrest]
    rfl

/-- All items have results, or there is a first one with an error. -/
theorem mapM_ok_or_first_error (f : α → Except ε β) (items : List α) :
    (∃ results, items.mapM f = .ok results) ∨
      ∃ before item after error, items = before ++ item :: after ∧
        (∀ earlier ∈ before, ∃ result, f earlier = .ok result) ∧ f item = .error error := by
  induction items with
  | nil => exact .inl ⟨[], rfl⟩
  | cons item items ih =>
    cases hitem : f item with
    | error error => exact .inr ⟨[], item, items, error, rfl, by simp, hitem⟩
    | ok result =>
      rcases ih with ⟨results, hresults⟩ | ⟨before, other, after, error, rfl, hbefore, hother⟩
      · exact .inl ⟨result :: results, by rw [List.mapM_cons, hitem, hresults]; rfl⟩
      · exact .inr ⟨item :: before, other, after, error, rfl,
          List.forall_mem_cons.2 ⟨⟨result, hitem⟩, hbefore⟩, hother⟩

end

namespace OutputKey

/-- Keys that occur more than once are refused, each named once, in ascending order. -/
theorem checkUnique_eq_error {keys shared : List String} (hsome : shared ≠ [])
    (hascending : shared.Pairwise (· < ·)) (hshared : ∀ key, key ∈ shared ↔ 1 < keys.count key) :
    checkUnique keys = .error (.duplicateKeys shared) := by
  have hduplicates : duplicates keys = shared :=
    (KeyMap.keys_ascending _).eq_of_mem_iff hascending fun key =>
      mem_duplicates.trans (hshared key).symm
  rw [checkUnique, hduplicates]
  cases shared with
  | nil => exact absurd rfl hsome
  | cons => rfl

end OutputKey

theorem checkWorkers_eq_ok_iff {workers : Nat} :
    checkWorkers workers = .ok () ↔ minWorkers ≤ workers ∧ workers ≤ maxWorkers := by
  rw [checkWorkers]
  split <;> simp_all

namespace Config

open Resolver (answered)

variable {τ : Type}

/-! ## Keys -/

theorem outputKeys_length {config : Config} {keys : List String}
    (h : config.outputKeys = .ok keys) : keys.length = config.subTasks.length :=
  (mapM_eq_ok_iff.1 h).length_eq.symm

/-- A key is refused only if it is made, and made of names that yield none. -/
theorem outputKey_eq_error_iff {config : Config} {definition : Definition} {error : PolicyError} :
    config.outputKey definition = .error error ↔ definition.outputKey = none ∧
      OutputKey.check (OutputKey.generate (definition.namespaceOr config.namespace) definition.name)
        OutputKey.generatedMaxLength = .error error := by
  cases hkey : definition.outputKey with
  | some key => simp [outputKey, hkey]
  | none =>
    simp only [outputKey, hkey, true_and]
    cases OutputKey.check (OutputKey.generate (definition.namespaceOr config.namespace)
      definition.name) OutputKey.generatedMaxLength <;> simp [bind, Except.bind, pure, Except.pure]

/-- What is checked without tasks. -/
theorem validate_eq_ok_iff {config : Config} : config.validate = .ok () ↔
    (config.type = .parallel → checkWorkers config.maxWorkers = .ok ()) ∧
      ∃ keys, config.outputKeys = .ok keys ∧ keys.Nodup := by
  have hunique : (config.outputKeys >>= OutputKey.checkUnique) = .ok () ↔
      ∃ keys, config.outputKeys = .ok keys ∧ keys.Nodup := by
    cases config.outputKeys <;> simp [bind, Except.bind, OutputKey.checkUnique_eq_ok_iff]
  rw [← hunique, validate]
  by_cases htype : config.type = .parallel
  · rw [if_pos htype]
    cases checkWorkers config.maxWorkers <;> simp [htype, bind, Except.bind]
  · simp only [htype, false_implies, true_and]
    rfl

/-! ## Asking one after another -/

/-- What a configuration becomes, with what the resolver was asked for it. -/
def buildNoting (config : Config) (resolver : Resolver τ) :
    Except ConfigError (Workflow τ) × Inquiries τ :=
  Id.run ((config.build resolver.ask).run [])

/-- The sub-tasks with their namespaces, their keys and their tasks. -/
def wired (config : Config) (definitions : List (Definition × String)) (tasks : List τ) :
    List (Definition × τ) :=
  List.zipWith
    (fun entry task => ({ config.inherit entry.1 with outputKey := some entry.2 }, task))
    definitions tasks

theorem run_ask (resolver : Resolver τ) (definition : Definition) (asked : Inquiries τ) :
    (resolver.ask definition).run asked =
      pure (resolver asked definition, asked ++ [(definition, resolver asked definition)]) :=
  rfl

theorem resolveAll_of_answers {config : Config} {resolver : Resolver τ} {asked : Inquiries τ}
    {entries : List (Definition × String)} {tasks : List τ}
    (h : resolver.Answers asked ((entries.map (·.1)).map config.inherit) tasks) :
    (config.resolveAll resolver.ask entries).run asked =
      pure (.ok (config.wired entries tasks),
        asked ++ answered ((entries.map (·.1)).map config.inherit) tasks) := by
  induction entries generalizing asked tasks with
  | nil =>
    cases h
    simp [resolveAll, wired, answered]
  | cons entry rest ih =>
    obtain ⟨definition, key⟩ := entry
    rw [List.map_cons, List.map_cons] at h
    cases h with
    | cons first others =>
      rw [resolveAll, StateT.run_bind, run_ask, first, pure_bind]
      simp only [StateT.run_bind, ih others, pure_bind, StateT.run_pure]
      simp [wired, answered]

theorem resolveAll_of_none {config : Config} {resolver : Resolver τ} {asked : Inquiries τ}
    {before after : List (Definition × String)} {entry : Definition × String} {tasks : List τ}
    (h : resolver.Answers asked ((before.map (·.1)).map config.inherit) tasks)
    (hnone : resolver (asked ++ answered ((before.map (·.1)).map config.inherit) tasks)
      (config.inherit entry.1) = none) :
    (config.resolveAll resolver.ask (before ++ entry :: after)).run asked =
      pure (.error (.unresolved (config.inherit entry.1).qualifiedName),
        asked ++ answered ((before.map (·.1)).map config.inherit) tasks ++
          [(config.inherit entry.1, none)]) := by
  induction before generalizing asked tasks with
  | nil =>
    cases h
    simp only [answered, List.map_nil, List.zip_nil_left, List.append_nil] at hnone ⊢
    rw [List.nil_append, resolveAll, StateT.run_bind, run_ask, hnone]
    rfl
  | cons earlier before ih =>
    rw [List.map_cons, List.map_cons] at h hnone
    cases h with
    | cons first others =>
      rw [answered, List.zip_cons_cons, List.map_cons, ← answered] at hnone
      have hrest := ih others (by rw [List.append_assoc]; exact hnone)
      rw [List.cons_append, resolveAll, StateT.run_bind, run_ask, first, pure_bind]
      simp only [StateT.run_bind, hrest, pure_bind, StateT.run_pure]
      simp [answered]

/-! ## The workflow -/

theorem outputKeys_wired {config : Config} {definitions : List Definition} {keys : List String}
    {tasks : List τ} (hkeys : keys.length = definitions.length)
    (htasks : tasks.length = definitions.length) :
    (⟨config.plan, config.wired (definitions.zip keys) tasks⟩ : Workflow τ).outputKeys = keys := by
  induction definitions generalizing keys tasks with
  | nil =>
    rw [List.eq_nil_of_length_eq_zero hkeys]
    rfl
  | cons definition rest ih =>
    obtain ⟨key, keys, rfl⟩ := List.exists_cons_of_length_eq_add_one hkeys
    obtain ⟨task, tasks, rfl⟩ := List.exists_cons_of_length_eq_add_one htasks
    exact congrArg (key :: ·) (ih (Nat.succ.inj hkeys) (Nat.succ.inj htasks))

/-- What a workflow has to satisfy to be run is what its configuration has to satisfy. -/
theorem check_eq_validate {config : Config} {keys : List String}
    (hkeys : config.outputKeys = .ok keys) {members : List (Definition × τ)}
    (hmembers : (⟨config.plan, members⟩ : Workflow τ).outputKeys = keys) :
    (⟨config.plan, members⟩ : Workflow τ).check = config.validate := by
  rw [Workflow.check, validate, hmembers, hkeys, plan]
  cases config.type <;> rfl

theorem map_fst_zip_keys {config : Config} {keys : List String}
    (hkeys : config.outputKeys = .ok keys) :
    (config.subTasks.zip keys).map (·.1) = config.subTasks :=
  List.map_fst_zip (outputKeys_length hkeys).ge

theorem buildNoting_of_none {config : Config} {resolver : Resolver τ} {keys : List String}
    {before after : List Definition} {definition : Definition} {tasks : List τ}
    (hkeys : config.outputKeys = .ok keys)
    (hsplit : config.subTasks = before ++ definition :: after)
    (hbefore : resolver.Answers [] (before.map config.inherit) tasks)
    (hnone : resolver (answered (before.map config.inherit) tasks) (config.inherit definition) =
      none) : config.buildNoting resolver =
      (.error (.unresolved (config.inherit definition).qualifiedName),
        answered (before.map config.inherit) tasks ++ [(config.inherit definition, none)]) := by
  obtain ⟨front, back, hentries, rfl, hback⟩ :=
    List.map_eq_append_iff.1 ((map_fst_zip_keys hkeys).trans hsplit)
  obtain ⟨entry, rest, rfl, rfl, rfl⟩ := List.map_eq_cons_iff.1 hback
  have hresolved := @resolveAll_of_none _ _ _ _ _ rest _ _ hbefore
    (by rw [List.nil_append]; exact hnone)
  simp only [buildNoting, build, hkeys, hentries, StateT.run_bind, hresolved, pure_bind]
  rfl

theorem buildNoting_of_answers {config : Config} {resolver : Resolver τ} {keys : List String}
    {tasks : List τ} (hkeys : config.outputKeys = .ok keys)
    (htasks : resolver.Answers [] (config.subTasks.map config.inherit) tasks) :
    config.buildNoting resolver =
      ((config.validate.mapError .invalid).map fun _ =>
          ⟨config.plan, config.wired (config.subTasks.zip keys) tasks⟩,
        answered (config.subTasks.map config.inherit) tasks) := by
  have hresolved := @resolveAll_of_answers _ _ _ _ (config.subTasks.zip keys) _
    (by rw [map_fst_zip_keys hkeys]; exact htasks)
  rw [map_fst_zip_keys hkeys] at hresolved
  have hcheck := check_eq_validate hkeys (outputKeys_wired (outputKeys_length hkeys)
    (htasks.length_eq.trans (List.length_map _)))
  simp only [buildNoting, build, hkeys, StateT.run_bind, hresolved, pure_bind, hcheck]
  cases config.validate <;> rfl

theorem resolveAll_steady (config : Config) (resolve : Definition → Option τ)
    (entries : List (Definition × String)) (asked : Inquiries τ) :
    Id.run (config.resolveAll (fun definition => pure (resolve definition)) entries) =
      (Id.run ((config.resolveAll (Resolver.steady resolve).ask entries).run asked)).1 := by
  induction entries generalizing asked with
  | nil => rfl
  | cons entry rest ih =>
    obtain ⟨definition, key⟩ := entry
    simp only [resolveAll, StateT.run_bind, run_ask, Resolver.steady_apply, pure_bind]
    cases resolve (config.inherit definition) with
    | none => rfl
    | some task =>
      simp only [Id.run_bind, StateT.run_bind,
        ih (asked ++ [(config.inherit definition, some task)])]
      generalize Id.run ((config.resolveAll (Resolver.steady resolve).ask rest).run
        (asked ++ [(config.inherit definition, some task)])) = rested
      obtain ⟨error | members, noted⟩ := rested <;> rfl

/-- For a resolver that always answers alike, the notes change nothing. -/
theorem build_steady (config : Config) (resolve : Definition → Option τ) :
    Id.run (config.build fun definition => pure (resolve definition)) =
      (config.buildNoting (.steady resolve)).1 := by
  rw [buildNoting, build, build]
  cases config.outputKeys with
  | error error => rfl
  | ok keys =>
    simp only [Id.run_bind, StateT.run_bind,
      config.resolveAll_steady resolve (config.subTasks.zip keys) []]
    generalize Id.run ((config.resolveAll (Resolver.steady resolve).ask
      (config.subTasks.zip keys)).run []) = resolved
    obtain ⟨error | members, noted⟩ := resolved
    · rfl
    · dsimp only
      split <;> rfl

/-! ## What comes out -/

/-- How a configuration comes out, given a resolver, and what the resolver was
asked until then. An earlier case goes before a later one. -/
inductive Outcome (config : Config) (resolver : Resolver τ) :
    Except ConfigError (Workflow τ) → Inquiries τ → Prop
  /-- No key can be made for a sub-task, the first of which this holds. Nothing is asked. -/
  | invalid {before after : List Definition} {definition : Definition} {error : PolicyError}
      (hsplit : config.subTasks = before ++ definition :: after)
      (hbefore : ∀ earlier ∈ before, ∃ key, config.outputKey earlier = .ok key)
      (hmade : definition.outputKey = none)
      (herror : OutputKey.check
        (OutputKey.generate (definition.namespaceOr config.namespace) definition.name)
        OutputKey.generatedMaxLength = .error error) :
    Outcome config resolver (.error (.invalid error)) []
  /-- A sub-task has no task, the first of which this holds. It is the last asked about. -/
  | unresolved {keys : List String} {before after : List Definition} {definition : Definition}
      {tasks : List τ} (hkeys : config.outputKeys = .ok keys)
      (hsplit : config.subTasks = before ++ definition :: after)
      (hbefore : resolver.Answers [] (before.map config.inherit) tasks)
      (hnone : resolver (answered (before.map config.inherit) tasks) (config.inherit definition) =
        none) :
    Outcome config resolver
      (.error (.unresolved (definition.namespaceOr config.namespace ++ "/" ++ definition.name)))
      (answered (before.map config.inherit) tasks ++ [(config.inherit definition, none)])
  /-- So many sub-tasks must not run side by side. -/
  | workers {keys : List String} {tasks : List τ} (hkeys : config.outputKeys = .ok keys)
      (htasks : resolver.Answers [] (config.subTasks.map config.inherit) tasks)
      (htype : config.type = .parallel)
      (hrange : ¬ (minWorkers ≤ config.maxWorkers ∧ config.maxWorkers ≤ Coordination.maxWorkers)) :
    Outcome config resolver (.error (.invalid (.workersOutOfRange config.maxWorkers)))
      (answered (config.subTasks.map config.inherit) tasks)
  /-- Some keys occur more than once. -/
  | shared {keys shared : List String} {tasks : List τ} (hkeys : config.outputKeys = .ok keys)
      (htasks : resolver.Answers [] (config.subTasks.map config.inherit) tasks)
      (hrange : config.type = .parallel →
        minWorkers ≤ config.maxWorkers ∧ config.maxWorkers ≤ Coordination.maxWorkers)
      (hsome : shared ≠ []) (hascending : shared.Pairwise (· < ·))
      (hshared : ∀ key, key ∈ shared ↔ 1 < keys.count key) :
    Outcome config resolver (.error (.invalid (.duplicateKeys shared)))
      (answered (config.subTasks.map config.inherit) tasks)
  /-- The workflow of the sub-tasks with their keys and tasks. -/
  | built {keys : List String} {tasks : List τ} (hkeys : config.outputKeys = .ok keys)
      (htasks : resolver.Answers [] (config.subTasks.map config.inherit) tasks)
      (hrange : config.type = .parallel →
        minWorkers ≤ config.maxWorkers ∧ config.maxWorkers ≤ Coordination.maxWorkers)
      (hunique : keys.Nodup) :
    Outcome config resolver
      (.ok ⟨config.plan, config.wired (config.subTasks.zip keys) tasks⟩)
      (answered (config.subTasks.map config.inherit) tasks)

theorem validate_of_range {config : Config} {keys : List String}
    (hkeys : config.outputKeys = .ok keys)
    (hrange : config.type = .parallel →
      minWorkers ≤ config.maxWorkers ∧ config.maxWorkers ≤ Coordination.maxWorkers) :
    config.validate = OutputKey.checkUnique keys := by
  rw [validate, hkeys]
  by_cases htype : config.type = .parallel
  · rw [if_pos htype, checkWorkers_eq_ok_iff.2 (hrange htype)]
    rfl
  · rw [if_neg htype]
    rfl

theorem validate_of_not_range {config : Config} (htype : config.type = .parallel)
    (hrange : ¬ (minWorkers ≤ config.maxWorkers ∧ config.maxWorkers ≤ Coordination.maxWorkers)) :
    config.validate = .error (.workersOutOfRange config.maxWorkers) := by
  rw [validate, if_pos htype, checkWorkers, if_neg hrange]
  rfl

/-- Each case says what is built and what is asked. -/
theorem Outcome.buildNoting_eq {config : Config} {resolver : Resolver τ}
    {result : Except ConfigError (Workflow τ)} {asked : Inquiries τ}
    (h : Outcome config resolver result asked) : config.buildNoting resolver = (result, asked) := by
  cases h with
  | invalid hsplit hbefore hmade herror =>
    rw [buildNoting, build, outputKeys, hsplit,
      mapM_append_error hbefore (outputKey_eq_error_iff.2 ⟨hmade, herror⟩)]
    rfl
  | unresolved hkeys hsplit hbefore hnone =>
    exact buildNoting_of_none hkeys hsplit hbefore hnone
  | workers hkeys htasks htype hrange =>
    rw [buildNoting_of_answers hkeys htasks, validate_of_not_range htype hrange]
    rfl
  | shared hkeys htasks hrange hsome hascending hshared =>
    rw [buildNoting_of_answers hkeys htasks, validate_of_range hkeys hrange,
      OutputKey.checkUnique_eq_error hsome hascending hshared]
    rfl
  | built hkeys htasks hrange hunique =>
    rw [buildNoting_of_answers hkeys htasks, validate_of_range hkeys hrange,
      OutputKey.checkUnique_eq_ok_iff.2 hunique]
    rfl

/-- Some case always holds. -/
theorem exists_outcome (config : Config) (resolver : Resolver τ) :
    ∃ result asked, Outcome config resolver result asked := by
  rcases mapM_ok_or_first_error config.outputKey config.subTasks with
    ⟨keys, hkeys⟩ | ⟨before, definition, after, error, hsplit, hbefore, herror⟩
  case inr =>
    obtain ⟨hmade, hcheck⟩ := outputKey_eq_error_iff.1 herror
    exact ⟨_, _, .invalid hsplit hbefore hmade hcheck⟩
  rcases resolver.answers_or_first_none [] (config.subTasks.map config.inherit) with
    ⟨tasks, htasks⟩ | ⟨before, inherited, after, tasks, hsplit, hbefore, hnone⟩
  case inr =>
    obtain ⟨front, back, hsubTasks, rfl, hback⟩ := List.map_eq_append_iff.1 hsplit
    obtain ⟨definition, rest, rfl, rfl, rfl⟩ := List.map_eq_cons_iff.1 hback
    exact ⟨_, _, .unresolved hkeys hsubTasks hbefore hnone⟩
  by_cases hrange : config.type = .parallel →
      minWorkers ≤ config.maxWorkers ∧ config.maxWorkers ≤ Coordination.maxWorkers
  · by_cases hunique : keys.Nodup
    · exact ⟨_, _, .built hkeys htasks hrange hunique⟩
    · exact ⟨_, _, .shared hkeys htasks hrange (mt OutputKey.duplicates_eq_nil_iff.1 hunique)
        (KeyMap.keys_ascending _) fun _ => OutputKey.mem_duplicates⟩
  · obtain ⟨htype, hout⟩ := Classical.not_imp.1 hrange
    exact ⟨_, _, .workers hkeys htasks htype hout⟩

theorem outcome_iff {config : Config} {resolver : Resolver τ}
    {result : Except ConfigError (Workflow τ)} {asked : Inquiries τ} :
    config.buildNoting resolver = (result, asked) ↔ Outcome config resolver result asked := by
  refine ⟨fun h => ?_, Outcome.buildNoting_eq⟩
  obtain ⟨result', asked', houtcome⟩ := exists_outcome config resolver
  obtain ⟨rfl, rfl⟩ := Prod.mk.inj (houtcome.buildNoting_eq.symm.trans h)
  exact houtcome

/-! ## What is asked -/

/-- A resolver is asked about sub-tasks in their order, each with a namespace,
up to the first without a task, and not at all if some key is invalid. -/
structure Orderly (config : Config) (asked : Inquiries τ) : Prop where
  inOrder : asked.map (·.1) <+: config.subTasks.map config.inherit
  named : ∀ inquiry ∈ asked, ∃ «namespace», inquiry.1.namespace = some «namespace»
  stops : ∀ inquiry ∈ asked.dropLast, ∃ task, inquiry.2 = some task
  silent : ∀ error, config.outputKeys = .error error → asked = []

/-- All that is asked about are sub-tasks with the namespace they inherit. -/
theorem Orderly.of_inOrder {config : Config} {asked : Inquiries τ} {keys : List String}
    (hkeys : config.outputKeys = .ok keys)
    (horder : asked.map (·.1) <+: config.subTasks.map config.inherit)
    (hstops : ∀ inquiry ∈ asked.dropLast, ∃ task, inquiry.2 = some task) :
    Orderly config asked := by
  refine ⟨horder, fun inquiry hinquiry => ?_, hstops, fun error herror => ?_⟩
  · obtain ⟨definition, -, hdefinition⟩ :=
      List.mem_map.1 (horder.subset (List.mem_map_of_mem hinquiry))
    exact ⟨definition.namespaceOr config.namespace, by rw [← hdefinition, inherit]⟩
  · rw [hkeys] at herror
    cases herror

theorem orderly_answered {config : Config} {resolver : Resolver τ} {keys : List String}
    {tasks : List τ} (hkeys : config.outputKeys = .ok keys)
    (htasks : resolver.Answers [] (config.subTasks.map config.inherit) tasks) :
    Orderly config (answered (config.subTasks.map config.inherit) tasks) := by
  refine .of_inOrder hkeys ?_ fun inquiry hinquiry => ?_
  · exact ⟨[], by rw [List.append_nil, Resolver.map_fst_answered htasks.length_eq]⟩
  · exact Resolver.exists_task_of_mem_answered (List.dropLast_subset _ hinquiry)

theorem Outcome.orderly {config : Config} {resolver : Resolver τ}
    {result : Except ConfigError (Workflow τ)} {asked : Inquiries τ}
    (h : Outcome config resolver result asked) : Orderly config asked := by
  cases h with
  | invalid hsplit hbefore hmade herror => exact ⟨by simp, by simp, by simp, fun _ _ => rfl⟩
  | @unresolved _ before after definition _ hkeys hsplit hbefore hnone =>
    refine .of_inOrder hkeys ?_ fun inquiry hinquiry => ?_
    · rw [List.map_append, Resolver.map_fst_answered hbefore.length_eq, hsplit, List.map_append,
        List.map_cons]
      exact ⟨after.map config.inherit, by simp⟩
    · rw [List.dropLast_concat] at hinquiry
      exact Resolver.exists_task_of_mem_answered hinquiry
  | workers hkeys htasks htype hrange => exact orderly_answered hkeys htasks
  | shared hkeys htasks hrange hsome hascending hshared => exact orderly_answered hkeys htasks
  | built hkeys htasks hrange hunique => exact orderly_answered hkeys htasks

/-- A workflow is built exactly of a valid configuration for which each sub-task
gets its task. -/
theorem exists_built_iff {config : Config} {resolver : Resolver τ} :
    (∃ workflow, (config.buildNoting resolver).1 = .ok workflow) ↔
      config.validate = .ok () ∧
        ∃ tasks, resolver.Answers [] (config.subTasks.map config.inherit) tasks := by
  constructor
  · rintro ⟨workflow, hworkflow⟩
    obtain ⟨result, asked, houtcome⟩ := exists_outcome config resolver
    rw [houtcome.buildNoting_eq] at hworkflow
    subst hworkflow
    cases houtcome with
    | built hkeys htasks hrange hunique =>
      rw [validate_of_range hkeys hrange, OutputKey.checkUnique_eq_ok_iff]
      exact ⟨hunique, _, htasks⟩
  · rintro ⟨hvalid, tasks, htasks⟩
    obtain ⟨-, keys, hkeys, -⟩ := validate_eq_ok_iff.1 hvalid
    rw [buildNoting_of_answers hkeys htasks, hvalid]
    exact ⟨_, rfl⟩

/-- What becomes of a configuration, for any resolver: it comes out in one of the
cases of `Outcome`; it is a workflow exactly if the configuration is valid and
each sub-task gets its task; and the resolver is asked in order. -/
theorem build_account (config : Config) (resolver : Resolver τ) :
    (∀ result asked, config.buildNoting resolver = (result, asked) ↔
        Outcome config resolver result asked) ∧
      ((∃ workflow, (config.buildNoting resolver).1 = .ok workflow) ↔
        config.validate = .ok () ∧
          ∃ tasks, resolver.Answers [] (config.subTasks.map config.inherit) tasks) ∧
      Orderly config (config.buildNoting resolver).2 :=
  ⟨fun _ _ => outcome_iff, exists_built_iff, (outcome_iff.1 rfl).orderly⟩

end Config

end Coordination
