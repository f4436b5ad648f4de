import Coordination.Proofs.Config.Building
import Coordination.Proofs.Run.Deadline
import Coordination.Proofs.Run.Verdict

/-!
# What a configuration builds

Where a sub-task names no namespace, that of the configuration stands for it: in the key
that is made for the sub-task, in the question to the resolver, and in what the runs of the
workflow record of it. All three agree (`Config.builds_as_described`).

* `Config.Wires`: the workflow sub-task by sub-task, with its keys and its tasks;
* `Execution.Inherits`: the namespace, the name and the key that an execution tells;
* `Run.Records`, `Run.History.records`: what is so of the record of a run at every moment.
-/

namespace Coordination

/-! ## The workflow -/

theorem Resolver.Answers.getElem? {τ : Type} {resolver : Resolver τ} {asked : Inquiries τ}
    {definitions : List Definition} {tasks : List τ} (h : resolver.Answers asked definitions tasks)
    {index : Nat} {definition : Definition} (hget : definitions[index]? = some definition) :
    ∃ task, tasks[index]? = some task ∧
      resolver (asked ++ (answered definitions tasks).take index) definition = some task := by
  induction h generalizing index with
  | nil => simp at hget
  | @cons _ first task rest tasks hfirst _ ih =>
    cases index with
    | zero =>
      obtain rfl : first = definition := by simpa using hget
      exact ⟨task, rfl, by simpa using hfirst⟩
    | succ index =>
      obtain ⟨other, hother, hanswer⟩ := ih (by simpa using hget)
      exact ⟨other, by simpa using hother, by simpa [answered] using hanswer⟩

namespace Config

open Resolver (answered)

variable {τ : Type} {config : Config} {resolver : Resolver τ} {workflow : Workflow τ}

theorem outputKey_eq_ok {definition : Definition} {key : String}
    (h : config.outputKey definition = .ok key) : key = definition.outputKey.getD
      (OutputKey.generate (definition.namespaceOr config.namespace) definition.name) := by
  cases hown : definition.outputKey with
  | some own =>
    rw [outputKey, hown] at h
    exact (Except.ok.inj h).symm
  | none =>
    rw [outputKey, hown] at h
    cases hcheck : OutputKey.check (OutputKey.generate (definition.namespaceOr config.namespace)
        definition.name) OutputKey.generatedMaxLength with
    | error error => simp [hcheck, bind, Except.bind] at h
    | ok _ => simpa [hcheck, bind, Except.bind, pure, Except.pure, eq_comm] using h

theorem getElem?_outputKeys {keys : List String} (hkeys : config.outputKeys = .ok keys)
    {index : Nat} {definition : Definition} (hget : config.subTasks[index]? = some definition) :
    ∃ key, keys[index]? = some key ∧ config.outputKey definition = .ok key := by
  obtain ⟨hlt, rfl⟩ := List.getElem?_eq_some_iff.1 hget
  have hlt' : index < keys.length := (outputKeys_length hkeys).symm ▸ hlt
  exact ⟨keys[index], List.getElem?_eq_getElem hlt',
    (mapM_eq_ok_iff.1 hkeys).get hlt hlt'⟩

/-- A workflow has the sub-tasks that are described, in their order: each with its name and
its instruction, the namespace that it names or inherits, its key, and the task that the
resolver has for it with that namespace. -/
structure Wires (config : Config) (resolver : Resolver τ) (keys : List String)
    (workflow : Workflow τ) : Prop where
  length : workflow.members.length = config.subTasks.length
  member : ∀ (index : Nat) (definition : Definition),
    config.subTasks[index]? = some definition → ∃ key task, keys[index]? = some key ∧
      key = definition.outputKey.getD
        (OutputKey.generate (definition.namespaceOr config.namespace) definition.name) ∧
      resolver ((config.buildNoting resolver).2.take index) (config.inherit definition) =
        some task ∧
      workflow.members[index]? = some (⟨definition.name,
        some (definition.namespaceOr config.namespace), some key, definition.instruction⟩, task)

theorem wires_wired {keys : List String} {tasks : List τ} (hkeys : config.outputKeys = .ok keys)
    (htasks : resolver.Answers [] (config.subTasks.map config.inherit) tasks)
    (hasked : (config.buildNoting resolver).2 =
      answered (config.subTasks.map config.inherit) tasks) :
    config.Wires resolver keys ⟨config.plan, config.wired (config.subTasks.zip keys) tasks⟩ where
  length := by
    have hlength := htasks.length_eq
    rw [List.length_map] at hlength
    simp [wired, outputKeys_length hkeys, hlength]
  member := by
    intro index definition hget
    obtain ⟨key, hkey, hmade⟩ := getElem?_outputKeys hkeys hget
    have hinherits : (config.subTasks.map config.inherit)[index]? =
        some (config.inherit definition) := by
      rw [List.getElem?_map, hget, Option.map_some]
    obtain ⟨task, htask, hanswer⟩ := htasks.getElem? hinherits
    refine ⟨key, task, hkey, outputKey_eq_ok hmade, by simpa [hasked] using hanswer, ?_⟩
    simp [wired, List.getElem?_zipWith, List.zip, hget, hkey, htask, inherit]

end Config

/-! ## Its runs -/

namespace Run

variable {σ : Type} {behave : σ → Poll σ} {workflow : Workflow σ} {context : Context}
  {history : List (Stretch (Traced σ))}

/-- What is so of the record of a run at every moment: at every visit, when the run ends and
when it is cut off. -/
structure Records (behave : σ → Poll σ) (workflow : Workflow σ) (context : Context)
    (P : Record → Prop) (history : List (Stretch (Traced σ))) : Prop where
  held : ∀ visit ∈ log (Traced.poll behave) context (ofWorkflow workflow.traced) history,
    ∃ record, visit.floor.ledger.get? context.session.id = some record ∧ P record
  reported : ∀ stretch ∈ history, ∀ result, stretch.step.result = some result →
    ∃ report record, result = .ok report ∧ report.record = some record ∧ P record
  cancelled : ∀ stretch ∈ history, stretch.step.result = none →
    ∀ (abandons : List Abandon) (deadline : Nat) (state : KeyMap String) (world : World),
      ∃ report record after,
        stretch.step.run.cancel abandons deadline (context.withState state) world =
          (.ok report, after) ∧ report.record = some record ∧ P record

/-- A run with output keys and a ledger of its own always has a record, of which all is so
that is so of records in accord with its members, settled or not. -/
theorem History.records {P : Record → Prop} (hcheck : workflow.check = .ok ())
    (hkeyed : workflow.isKeyed = true) (hown : workflow.plan.sharesLedger = false)
    (haccord : ∀ (members : List (Member (Traced σ))) (record : Record),
      Carries behave workflow members →
      Accord workflow.plan context.session.id members record → P record)
    (hsettle : ∀ record now verdict, P record → P (record.settle now verdict))
    (h : History (Traced.poll behave) context (ofWorkflow workflow.traced) history) :
    Records behave workflow context P history := by
  obtain ⟨hvisits, hstretches⟩ := h.underway hcheck hkeyed fun hshares => by simp [hown] at hshares
  have hopens := fun state world =>
    open_traced_of_own hcheck (fun _ => hown) (context.withState state) world
  refine ⟨fun visit hmem => ?_, fun stretch hmem result hresult => ?_,
    fun stretch hmem hopen abandons deadline state world => ?_⟩
  · obtain ⟨record, hrecord, hagrees⟩ := (hvisits visit hmem).accord
    exact ⟨record, hrecord, haccord _ _ (hvisits visit hmem).carries hagrees⟩
  · rcases hstretches stretch hmem with ⟨_, _, hrefused, -⟩ | ⟨⟨_, _, -, -, hstep⟩ |
      ⟨floor, after, members, concluded, hunder, hconclude, hstep⟩⟩
    · obtain ⟨floor, hfloor⟩ := hopens stretch.state stretch.world
      simp [hfloor] at hrefused
    · simp [hstep] at hresult
    · obtain ⟨record, hrecord, hagrees⟩ := hunder.accord
      obtain ⟨report, now, verdict, rfl, hreport, -⟩ := hunder.settles hrecord hconclude
      rw [hstep] at hresult
      exact ⟨report, _, (Option.some.inj hresult).symm, hreport,
        hsettle _ _ _ (haccord _ _ hunder.carries hagrees)⟩
  · have harrives := (hstretches stretch hmem).arrives (by simp [hopen])
    obtain ⟨floor, hunder, hstage, -⟩ := harrives.of_none hopen
    have hunder' : Underway behave workflow (context.withState state).session.id floor
        stretch.step.run.members := hunder
    obtain ⟨record, now, later, hagrees, hcancel, -⟩ := hunder'.cuts hstage hkeyed abandons
      deadline world fun hshares => by simp [hown] at hshares
    exact ⟨_, _, later, hcancel, rfl, hsettle _ _ _ (haccord _ _ hunder.carries hagrees)⟩

end Run

/-- An execution tells of the sub-task of its place the namespace that it names or inherits,
its name and its key, which is made of these two unless it has one of its own. -/
def Execution.Inherits (config : Config) (execution : Execution) : Prop :=
  ∃ definition, config.subTasks[execution.index]? = some definition ∧
    execution.taskName = definition.name ∧
    execution.taskNamespace = definition.namespaceOr config.namespace ∧
    execution.outputKey = some (definition.outputKey.getD
      (OutputKey.generate execution.taskNamespace execution.taskName))

namespace Config

variable {σ : Type} {config : Config} {resolver : Resolver σ} {workflow : Workflow σ}

/-- What a record tells of the members of a run, it tells of the sub-tasks described. -/
theorem Wires.inherits {keys : List String} (h : config.Wires resolver keys workflow)
    {behave : σ → Poll σ} {id : String} {members : List (Member (Traced σ))} {record : Record}
    (hcarries : Run.Carries behave workflow members)
    (haccord : Run.Accord workflow.plan id members record) :
    ∀ execution ∈ record.executions, execution.Inherits config := by
  intro execution hmem
  obtain ⟨told, settlement, hsettled, htells⟩ := haccord.told execution hmem
  have hget := hsettled.definition
  rw [hcarries.definitions, List.getElem?_map, Option.map_eq_some_iff] at hget
  obtain ⟨⟨_, task⟩, hmember, rfl⟩ := hget
  have hlt : execution.index < config.subTasks.length :=
    h.length ▸ (List.getElem?_eq_some_iff.1 hmember).1
  have hdefinition := List.getElem?_eq_getElem hlt
  generalize config.subTasks[execution.index] = definition at hdefinition
  obtain ⟨key, _, -, rfl, -, hwired⟩ := h.member _ definition hdefinition
  obtain ⟨rfl, rfl⟩ := Prod.mk.inj (Option.some.inj (hmember.symm.trans hwired))
  have hname : execution.taskName = definition.name := htells.draft.taskName
  have hnamespace : execution.taskNamespace = definition.namespaceOr config.namespace :=
    htells.draft.taskNamespace
  refine ⟨definition, hdefinition, hname, hnamespace, ?_⟩
  rw [hname, hnamespace]
  exact htells.draft.outputKey

/-- What a workflow is that was built of a configuration. -/
structure Builds (config : Config) (resolver : Resolver σ) (workflow : Workflow σ) : Prop where
  type : workflow.plan.order.type = config.type
  plan : workflow.plan = config.plan
  wires : ∃ keys, config.outputKeys = .ok keys ∧ config.Wires resolver keys workflow ∧
    workflow.outputKeys = keys ∧ keys.Nodup
  keyed : config.subTasks ≠ [] → workflow.isKeyed
  /-- In every run, whatever its tasks do, the record tells of the sub-tasks described. -/
  records : config.subTasks ≠ [] → ∀ (behave : σ → Poll σ) (context : Context)
    (history : List (Stretch (Traced σ))),
    Run.History (Traced.poll behave) context (Run.ofWorkflow workflow.traced) history →
    Run.Records behave workflow context
      (fun record => ∀ execution ∈ record.executions, execution.Inherits config) history

/-- A workflow that was built is the one described: the key of a sub-task, the question for
its task and the record of its executions go by the same namespace. -/
theorem builds_as_described (h : (config.buildNoting resolver).1 = .ok workflow) :
    config.Builds resolver workflow := by
  obtain ⟨result, asked, houtcome⟩ := config.exists_outcome resolver
  have hnoting := houtcome.buildNoting_eq
  rw [hnoting] at h
  subst h
  cases houtcome with
  | @built keys tasks hkeys htasks hrange hunique =>
    have hwires := wires_wired hkeys htasks (congrArg Prod.snd hnoting)
    have houtputs : Workflow.outputKeys
        ⟨config.plan, config.wired (config.subTasks.zip keys) tasks⟩ = keys :=
      outputKeys_wired (outputKeys_length hkeys) (htasks.length_eq.trans (List.length_map _))
    have hcheck := (check_eq_validate hkeys houtputs).trans <|
      (validate_of_range hkeys hrange).trans (OutputKey.checkUnique_eq_ok_iff.2 hunique)
    have hkeyed : config.subTasks ≠ [] → Workflow.isKeyed
        ⟨config.plan, config.wired (config.subTasks.zip keys) tasks⟩ := by
      intro hsome
      obtain ⟨definition, rest, hcons⟩ := List.exists_cons_of_ne_nil hsome
      obtain ⟨key, task, -, -, -, hmember⟩ := hwires.member 0 definition (by simp [hcons])
      exact List.any_eq_true.2 ⟨_, List.mem_of_getElem? hmember, rfl⟩
    refine ⟨?_, rfl, ⟨keys, hkeys, hwires, houtputs, hunique⟩, hkeyed,
      fun hsome behave context history hhistory => ?_⟩
    · rw [plan]
      cases config.type <;> rfl
    · exact hhistory.records hcheck (hkeyed hsome) rfl (fun _ _ => hwires.inherits)
        fun _ _ _ hrecord => hrecord

/-- A harvest, whose apples are picked where it takes place and pressed elsewhere. -/
def harvest : Config where
  name := "harvest"
  description := ""
  «namespace» := "farm"
  type := .parallel
  maxWorkers := 2
  maxValueBytes := 100
  subTasks := [⟨"pick apples", none, none, none⟩, ⟨"press", some "mill", some "juice", none⟩]

/-- Everybody who is asked for gets done what their namespace is for. -/
def harvestHands : Resolver Leaf := .steady fun definition => definition.namespace.map fun place =>
  .ofBody (.emit (.text place definition.name) .finish)

/-- The workflow of a harvest. -/
def harvested : Workflow Leaf where
  plan := harvest.plan
  members := harvest.wired (harvest.subTasks.zip ["farm_pick_apples", "juice"])
    [.ofBody (.emit (.text "farm" "pick apples") .finish),
      .ofBody (.emit (.text "mill" "press") .finish)]

/-- The only stretch of a harvest. -/
def harvestDay : Stretch (Traced Leaf) :=
  ⟨.at 0, .empty, .start 100, (Run.ofWorkflow harvested.traced).give (Traced.poll Leaf.poll) (.at 0)
    (Context.withState ⟨⟨"s", "u", "a", .empty⟩, 0, none⟩ .empty) (.start 100)⟩

theorem build_harvest : (harvest.buildNoting harvestHands).1 = .ok harvested := by
  have hkeys : harvest.outputKeys = .ok ["farm_pick_apples", "juice"] := by decide +kernel
  have houtcome : Outcome harvest harvestHands (.ok harvested) _ :=
    .built hkeys (.cons rfl (.cons rfl .nil)) (fun _ => by decide) (by decide)
  rw [houtcome.buildNoting_eq]

theorem builds_as_described_harvest : (harvest.buildNoting harvestHands).1 = .ok harvested ∧
    harvest.Builds harvestHands harvested ∧ ∃ report record,
      harvestDay.step.result = some (.ok report) ∧ report.record = some record ∧
        (∀ execution ∈ record.executions, execution.Inherits harvest) ∧
        record.executions.map (·.outputKey) = [some "farm_pick_apples", some "juice"] := by
  have hbuilds := builds_as_described build_harvest
  obtain ⟨result, hresult⟩ : ∃ result, harvestDay.step.result = some result :=
    Option.isSome_iff_exists.1 (by decide +kernel)
  obtain ⟨report, record, rfl, hrecord, htells⟩ := (hbuilds.records (by simp [harvest]) Leaf.poll
    _ [harvestDay] (.first _ _ _)).reported harvestDay List.mem_cons_self result hresult
  have hkeys : (harvestDay.step.result.bind fun result => result.toOption.bind (·.record)).map
      (·.executions.map (·.outputKey)) = some [some "farm_pick_apples", some "juice"] := by
    decide +kernel
  refine ⟨build_harvest, hbuilds, report, record, hresult, hrecord, htells, ?_⟩
  simpa [hresult, Except.toOption, hrecord] using hkeys

end Config

end Coordination
