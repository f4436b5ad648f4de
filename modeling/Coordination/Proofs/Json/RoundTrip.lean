import Coordination.Config.Json
import Coordination.Record.Json
import Coordination.Proofs.Json.Data
import Coordination.Proofs.Timestamp.Written

/-!
# Forms that are read back

Records, executions, events, sub-tasks and configurations are read back from what is written for
them, and what was read from any value is read again from what is written for it
(`Json.forms_read_back`). The one limit is on events: metadata nested too deep is written, but not
read.
-/

namespace Coordination

open Json Json.Form Json.Slots

/-! ## Points in time and names -/

/-- Points in time as texts. -/
def Timestamp.form : Form Timestamp := ⟨toJson, ofJson?, IsValid⟩

theorem Timestamp.faithful : form.Faithful where
  back {t} hvalid := by
    simp only [form, toJson, ofJson?, Json.asString, Option.bind_eq_bind, Option.bind_some]
    exact read_write hvalid
  fits hread := by
    obtain ⟨text, -, htext⟩ := Option.bind_eq_some_iff.1 hread
    exact isValid_of_read htext

theorem RunStatus.faithful : (Form.name name all).Faithful :=
  faithful_name fun status => by cases status <;> rfl

theorem ExecutionStatus.faithful : (Form.name name all).Faithful :=
  faithful_name fun status => by cases status <;> rfl

theorem WorkflowType.faithful : (Form.name name all).Faithful :=
  faithful_name fun type => by cases type <;> rfl

/-! ## Values that may be absent -/

theorem Json.Form.faithful_text_option : text.option.Faithful :=
  faithful_text.option fun _ => Json.noConfusion

theorem Json.Form.faithful_nat_option (max : Nat) : (nat max).option.Faithful :=
  (faithful_nat max).option fun _ => Json.noConfusion

theorem Timestamp.faithful_option : form.option.Faithful :=
  faithful.option fun _ => Json.noConfusion

/-! ## Executions and records -/

namespace Execution

/-- Whether the numbers of an execution fit the words that hold them and its points in time are
on the calendar. -/
structure Fits (e : Execution) : Prop where
  index : e.index ≤ Text.maxWord
  startedAt : e.startedAt.IsValid
  completedAt : e.completedAt.IsValid
  outputSize : e.outputSize ≤ Text.maxWord
  completionOrder : ∀ place ∈ e.completionOrder, place ≤ Text.maxHalfWord

/-- Executions by their fields. -/
def form : Form Execution := ⟨toJson, ofJson?, Fits⟩

theorem faithful : form.Faithful where
  back {e} h := by
    have hread : Slots.read
        [["index"], ["task_name"], ["task_namespace"], ["session_id"], ["output_key"],
          ["started_at"], ["completed_at"], ["status"], ["output_size_bytes"], ["error"],
          ["completion_order"]] e.toJson =
        some ⟨[some (.ofNat e.index), some (.string e.taskName), some (.string e.taskNamespace),
          some (.string e.sessionId), some (.ofOption .string e.outputKey),
          some e.startedAt.toJson, some e.completedAt.toJson, some e.status.toJson,
          some (.ofNat e.outputSize), some (.ofOption .string e.error),
          some (.ofOption .ofNat e.completionOrder)], false⟩ :=
      Slots.read_members rfl (by decide) (by decide) rfl
    change ofJson? e.toJson = some e
    rw [ofJson?, hread]
    dsimp only [Option.bind_eq_bind, Option.bind_some, Option.pure_def]
    simp only [↓Option.bind_eq_some_iff, Option.some.injEq]
    exact ⟨e.index, (faithful_nat _).required rfl h.index,
      e.taskName, faithful_text.required rfl trivial,
      e.taskNamespace, faithful_text.required rfl trivial,
      e.sessionId, faithful_text.required rfl trivial,
      e.outputKey, faithful_text_option.optional rfl fun _ _ => trivial,
      e.startedAt, Timestamp.faithful.required rfl h.startedAt,
      e.completedAt, Timestamp.faithful.required rfl h.completedAt,
      e.status, ExecutionStatus.faithful.required rfl trivial,
      e.outputSize, (faithful_nat _).required rfl h.outputSize,
      e.error, faithful_text_option.optional rfl fun _ _ => trivial,
      e.completionOrder, (faithful_nat_option _).optional rfl h.completionOrder, rfl⟩
  fits {value e} hread := by
    obtain ⟨slots, -, hread⟩ := Option.bind_eq_some_iff.1 hread
    dsimp only [Option.bind_eq_bind, Option.pure_def] at hread
    simp only [↓Option.bind_eq_some_iff, Option.some.injEq] at hread
    obtain ⟨_, hindex, _, -, _, -, _, -, _, -, _, hstarted, _, hcompleted, _, -, _, hsize, _, -, _,
      horder, rfl⟩ := hread
    exact ⟨(faithful_nat _).of_required hindex, Timestamp.faithful.of_required hstarted,
      Timestamp.faithful.of_required hcompleted, (faithful_nat _).of_required hsize,
      (faithful_nat_option _).of_optional horder⟩

end Execution

namespace Record

/-- Whether the executions of a record fit, its counter fits the word that holds it, and its
points in time are on the calendar. -/
structure Fits (r : Record) : Prop where
  executions : ∀ e ∈ r.executions, e.Fits
  createdAt : r.createdAt.IsValid
  updatedAt : r.updatedAt.IsValid
  completedAt : ∀ t ∈ r.completedAt, t.IsValid
  completions : r.completions ≤ Text.maxHalfWord

/-- Records by their fields. -/
def form : Form Record := ⟨toJson, ofJson?, Fits⟩

theorem faithful : form.Faithful where
  back {r} h := by
    have hread : Slots.read
        [["id"], ["owner"], ["workflow_name"], ["namespace"], ["outputs"], ["executions"],
          ["status"], ["error_message"], ["created_at"], ["updated_at"], ["completed_at"],
          ["completions"]] r.toJson =
        some ⟨[some (.string r.id), some (.string r.owner), some (.string r.workflowName),
          some (.string r.namespace), some (.ofKeyMap .string r.outputs),
          some (.array (r.executions.map Execution.toJson)), some r.status.toJson,
          some (.ofOption .string r.errorMessage), some r.createdAt.toJson,
          some r.updatedAt.toJson, some (.ofOption Timestamp.toJson r.completedAt),
          some (.ofNat r.completions)], false⟩ :=
      Slots.read_members rfl (by decide) (by decide) rfl
    change ofJson? r.toJson = some r
    rw [ofJson?, hread]
    dsimp only [Option.bind_eq_bind, Option.bind_some, Option.pure_def]
    simp only [↓Option.bind_eq_some_iff, Option.some.injEq]
    exact ⟨r.id, faithful_text.required rfl trivial,
      r.owner, faithful_text.required rfl trivial,
      r.workflowName, faithful_text.required rfl trivial,
      r.namespace, faithful_text.required rfl trivial,
      r.outputs, faithful_text.keyMap.required rfl fun _ _ => trivial,
      r.executions, Execution.faithful.list.required rfl h.executions,
      r.status, RunStatus.faithful.required rfl trivial,
      r.errorMessage, faithful_text_option.optional rfl fun _ _ => trivial,
      r.createdAt, Timestamp.faithful.required rfl h.createdAt,
      r.updatedAt, Timestamp.faithful.required rfl h.updatedAt,
      r.completedAt, Timestamp.faithful_option.optional rfl h.completedAt,
      r.completions, (faithful_nat _).orElse rfl h.completions, rfl⟩
  fits {value r} hread := by
    obtain ⟨slots, -, hread⟩ := Option.bind_eq_some_iff.1 hread
    dsimp only [Option.bind_eq_bind, Option.pure_def] at hread
    simp only [↓Option.bind_eq_some_iff, Option.some.injEq] at hread
    obtain ⟨_, -, _, -, _, -, _, -, _, -, _, hexecutions, _, -, _, -, _, hcreated, _, hupdated, _,
      hcompleted, _, hcompletions, rfl⟩ := hread
    exact ⟨Execution.faithful.list.of_required hexecutions,
      Timestamp.faithful.of_required hcreated, Timestamp.faithful.of_required hupdated,
      Timestamp.faithful_option.of_optional hcompleted,
      (faithful_nat _).of_orElse (Nat.zero_le _) hcompletions⟩

end Record

/-! ## Events -/

namespace EventError

/-- Error marks by their fields. -/
def form : Form EventError := ⟨toJson, ofJson?, fun _ => True⟩

theorem faithful : form.Faithful where
  back {error} _ := by
    have hread : Slots.read [["code"], ["message"]] error.toJson =
        some ⟨[some (.string error.code), some (.string error.message)], false⟩ :=
      Slots.read_members rfl (by decide) (by decide) rfl
    change ofJson? error.toJson = some error
    rw [ofJson?, hread]
    dsimp only [Option.bind_eq_bind, Option.bind_some, Option.pure_def]
    simp only [↓Option.bind_eq_some_iff, Option.some.injEq]
    exact ⟨error.code, faithful_text.required rfl trivial,
      error.message, faithful_text.required rfl trivial, rfl⟩
  fits _ := trivial

theorem faithful_option : form.option.Faithful := faithful.option fun _ => Json.noConfusion

end EventError

namespace Event

/-- Events by their fields. Those fit whose metadata does. -/
def form : Form Event := ⟨toJson, ofJson?, fun e => metadataForm.Fits e.metadata⟩

/-- The fields of a written event. -/
theorem read_toJson (e : Event) :
    Slots.read [["author"], ["parts"], ["error"], ["metadata"]] e.toJson =
      some ⟨[some (.string e.author), some (.array (e.parts.map .string)),
        e.error.map EventError.toJson,
        if e.metadata.isEmpty then none else some (metadataForm.write e.metadata)], false⟩ := by
  refine Slots.read_members ?_ (by decide) (by decide) rfl
  rw [toJson]
  cases e.error <;> cases e.metadata.isEmpty <;> rfl

theorem faithful : form.Faithful where
  back {e} h := by
    change ofJson? e.toJson = some e
    rw [ofJson?, read_toJson]
    dsimp only [Option.bind_eq_bind, Option.bind_some, Option.pure_def]
    simp only [↓Option.bind_eq_some_iff, Option.some.injEq]
    refine ⟨e.author, faithful_text.required rfl trivial,
      e.parts, faithful_text.list.required rfl fun _ _ => trivial,
      e.error, EventError.faithful_option.omitted rfl fun _ _ => trivial,
      e.metadata, ?_, rfl⟩
    cases hempty : e.metadata.isEmpty with
    | true =>
      rw [KeyMap.eq_empty_of_isEmpty hempty]
      rfl
    | false => exact faithful_metadata.orElse rfl h
  fits {value e} hread := by
    obtain ⟨slots, -, hread⟩ := Option.bind_eq_some_iff.1 hread
    dsimp only [Option.bind_eq_bind, Option.pure_def] at hread
    simp only [↓Option.bind_eq_some_iff, Option.some.injEq] at hread
    obtain ⟨_, -, _, -, _, -, _, hmetadata, rfl⟩ := hread
    exact faithful_metadata.of_orElse (fun _ h => absurd h List.not_mem_nil) hmetadata

/-- The event that reports a failure is always read back. -/
theorem fits_failure (author subTask message : String) :
    form.Fits (failure author subTask message) := by
  intro entry hentry
  have hlisted := KeyMap.mem_of_mem_ofList hentry
  simp only [List.mem_cons, List.not_mem_nil, or_false] at hlisted
  rcases hlisted with rfl | rfl
  · exact ⟨.string subTask, Nat.zero_le _⟩
  · exact ⟨.bool true, Nat.zero_le _⟩

/-- An event with a piece of metadata that is too deep is not read. -/
theorem ofJson?_toJson_of_deep {e : Event}
    (h : ∃ entry ∈ e.metadata.entries, maxMetadataDepth < entry.2.depth) :
    ofJson? e.toJson = none := by
  obtain ⟨entry, hentry, hdeep⟩ := h
  have hempty : e.metadata.isEmpty = false := by
    simpa [KeyMap.isEmpty] using List.ne_nil_of_mem hentry
  have hrefused : readMetadata (.ofKeyMap id e.metadata) = none := by
    rw [Json.ofKeyMap_id]
    refine if_neg fun hdepth => ?_
    exact absurd (Json.depthOfMembers_entries_le.1 hdepth entry hentry) (Nat.not_le.2 hdeep)
  simp [ofJson?, read_toJson, hempty, Slots.orElse, Slots.get?, metadataForm, hrefused]

end Event

/-! ## Sub-tasks and configurations -/

namespace Definition

/-- Sub-tasks by their fields. -/
def form : Form Definition := ⟨toJson, ofJson?, fun _ => True⟩

theorem faithful : form.Faithful where
  back {d} _ := by
    have hread : Slots.read [["name"], ["namespace"], ["output_key"], ["instruction"]] d.toJson =
        some ⟨[some (.string d.name), d.namespace.map .string, d.outputKey.map .string,
          d.instruction.map .string], false⟩ := by
      refine Slots.read_members ?_ (by decide) (by decide) rfl
      rw [toJson]
      cases d.namespace <;> cases d.outputKey <;> cases d.instruction <;> rfl
    change ofJson? d.toJson = some d
    rw [ofJson?, hread]
    dsimp only [Option.bind_eq_bind, Option.bind_some, Option.pure_def]
    simp only [↓Option.bind_eq_some_iff, Option.some.injEq]
    exact ⟨d.name, faithful_text.required rfl trivial,
      d.namespace, faithful_text_option.omitted rfl fun _ _ => trivial,
      d.outputKey, faithful_text_option.omitted rfl fun _ _ => trivial,
      d.instruction, faithful_text_option.omitted rfl fun _ _ => trivial, rfl⟩
  fits _ := trivial

end Definition

namespace Config

/-- Whether the bounds of a configuration fit the words that hold them. -/
structure Fits (c : Config) : Prop where
  maxWorkers : c.maxWorkers ≤ Text.maxWord
  maxValueBytes : c.maxValueBytes ≤ Text.maxWord

/-- Configurations by their fields. -/
def form : Form Config := ⟨toJson, ofJson?, Fits⟩

theorem faithful : form.Faithful where
  back {c} h := by
    have hread : Slots.read [["name"], ["description"], ["namespace"], ["type", "workflow_type"],
          ["max_workers"], ["max_value_bytes"], ["sub_tasks"]] c.toJson =
        some ⟨[some (.string c.name), some (.string c.description), some (.string c.namespace),
          some c.type.toJson, some (.ofNat c.maxWorkers), some (.ofNat c.maxValueBytes),
          some (.array (c.subTasks.map Definition.toJson))], false⟩ :=
      Slots.read_members rfl (by decide) (by decide) rfl
    change ofJson? c.toJson = some c
    rw [ofJson?, hread]
    dsimp only [Option.bind_eq_bind, Option.bind_some, Option.pure_def]
    simp only [↓Option.bind_eq_some_iff, Option.some.injEq]
    exact ⟨c.name, faithful_text.required rfl trivial,
      c.description, faithful_text.orElse rfl trivial,
      c.namespace, faithful_text.orElse rfl trivial,
      c.type, WorkflowType.faithful.orElse rfl trivial,
      c.maxWorkers, (faithful_nat _).orElse rfl h.maxWorkers,
      c.maxValueBytes, (faithful_nat _).orElse rfl h.maxValueBytes,
      c.subTasks, Definition.faithful.list.orElse rfl fun _ _ => trivial, rfl⟩
  fits {value c} hread := by
    obtain ⟨slots, -, hread⟩ := Option.bind_eq_some_iff.1 hread
    dsimp only [Option.bind_eq_bind, Option.pure_def] at hread
    simp only [↓Option.bind_eq_some_iff, Option.some.injEq] at hread
    obtain ⟨_, -, _, -, _, -, _, -, _, hworkers, _, hbytes, _, -, rfl⟩ := hread
    have hdefaults : defaultWorkers ≤ Text.maxWord ∧
        Ledger.defaultMaxValueBytes ≤ Text.maxWord := by decide
    exact ⟨(faithful_nat _).of_orElse hdefaults.1 hworkers,
      (faithful_nat _).of_orElse hdefaults.2 hbytes⟩

end Config

namespace Json

/-- Records, executions, events, sub-tasks and configurations are read back from what is written
for them: all that have numbers that fit their words, points in time on the calendar, and metadata
that is data and not too deep. And what was read from any value, whichever form that had, is read
again from what is written for it. -/
theorem forms_read_back :
    ((∀ r : Record, r.Fits → Record.ofJson? r.toJson = some r) ∧
      ∀ value r, Record.ofJson? value = some r → Record.ofJson? r.toJson = some r) ∧
    ((∀ e : Execution, e.Fits → Execution.ofJson? e.toJson = some e) ∧
      ∀ value e, Execution.ofJson? value = some e → Execution.ofJson? e.toJson = some e) ∧
    ((∀ e : Event, (∀ entry ∈ e.metadata.entries, entry.2.IsData) →
        (∀ entry ∈ e.metadata.entries, entry.2.depth ≤ Event.maxMetadataDepth) →
        Event.ofJson? e.toJson = some e) ∧
      ∀ value e, Event.ofJson? value = some e → Event.ofJson? e.toJson = some e) ∧
    ((∀ d : Definition, Definition.ofJson? d.toJson = some d) ∧
      ∀ value d, Definition.ofJson? value = some d → Definition.ofJson? d.toJson = some d) ∧
    ((∀ c : Config, c.Fits → Config.ofJson? c.toJson = some c) ∧
      ∀ value c, Config.ofJson? value = some c → Config.ofJson? c.toJson = some c) := by
  refine ⟨⟨fun r h => Record.faithful.back h, fun _ _ h => Record.faithful.again h⟩,
    ⟨fun e h => Execution.faithful.back h, fun _ _ h => Execution.faithful.again h⟩,
    ⟨fun e hdata hdepth => Event.faithful.back fun entry hentry => ?_,
      fun _ _ h => Event.faithful.again h⟩,
    ⟨fun d => Definition.faithful.back trivial, fun _ _ h => Definition.faithful.again h⟩,
    ⟨fun c h => Config.faithful.back h, fun _ _ h => Config.faithful.again h⟩⟩
  exact ⟨hdata entry hentry, hdepth entry hentry⟩

/-- A record with one execution, an event that reports a failure and the least configuration; and
an event read from a list of its fields. -/
theorem forms_read_back_sample :
    let e : Execution := ⟨⟨1, "collect", "default", "s-sub-1", some "found", ⟨1700000000, 0⟩⟩,
      ⟨1700000001, 500000000⟩, .success, 4, none, some 1⟩
    let r : Record := ⟨"w", "u", "scan", "default", .ofList [("found", "text")], [e], .running,
      none, ⟨1700000000, 0⟩, ⟨1700000001, 500000000⟩, none, 1⟩
    let failure := Event.failure "scan" "collect" "late"
    (e.Fits ∧ Execution.ofJson? e.toJson = some e) ∧ (r.Fits ∧ Record.ofJson? r.toJson = some r) ∧
      Event.ofJson? failure.toJson = some failure ∧
      Config.ofJson? (Config.ofName "scan").toJson = some (Config.ofName "scan") ∧
      Event.ofJson? (.array [.string "a", .array []]) = some (.empty "a") ∧
      Event.ofJson? (Event.empty "a").toJson = some (.empty "a") := by
  intro e r failure
  have hstarted : Timestamp.IsValid ⟨1700000000, 0⟩ := ⟨by decide, .inl (by decide)⟩
  have hended : Timestamp.IsValid ⟨1700000001, 500000000⟩ := ⟨by decide, .inl (by decide)⟩
  have he : e.Fits := ⟨by decide, hstarted, hended, by decide, by decide⟩
  have hr : r.Fits := ⟨by simpa [r] using he, hstarted, hended, nofun, by decide⟩
  have hfailure : Event.form.Fits failure := Event.fits_failure _ _ _
  obtain ⟨⟨hrecord, -⟩, ⟨hexecution, -⟩, ⟨hevent, hagain⟩, -, ⟨hconfig, -⟩⟩ := forms_read_back
  exact ⟨⟨he, hexecution e he⟩, ⟨hr, hrecord r hr⟩,
    hevent failure (fun entry h => (hfailure entry h).1) fun entry h => (hfailure entry h).2,
    hconfig _ ⟨by decide, by decide⟩, rfl, hagain (.array [.string "a", .array []]) _ rfl⟩

/-- So many arrays inside one another. -/
def nest : Nat → Json
  | 0 => .null
  | n + 1 => .array [nest n]

theorem depth_nest (n : Nat) : (nest n).depth = n := by
  induction n with
  | zero => rfl
  | succ n ih => simp [nest, depth, depthOfItems, ih]

theorem isData_nest (n : Nat) : (nest n).IsData := by
  induction n with
  | zero => exact .null
  | succ n ih => exact .array (by simpa using ih)

/-- Metadata that is 128 arrays deep is data, it is written, and it is not read back. -/
theorem deep_metadata_not_read_back :
    let e : Event := ⟨"a", ["x"], none, .ofList [("k", nest 128)]⟩
    (∀ entry ∈ e.metadata.entries, entry.2.IsData) ∧ Event.ofJson? e.toJson = none := by
  intro e
  refine ⟨fun entry hentry => ?_, Event.ofJson?_toJson_of_deep ?_⟩
  · have hlisted := KeyMap.mem_of_mem_ofList hentry
    rw [List.mem_singleton.1 hlisted]
    exact isData_nest 128
  · exact ⟨("k", nest 128), List.mem_singleton.2 rfl, by rw [depth_nest]; decide⟩

end Json

end Coordination
