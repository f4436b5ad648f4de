import Coordination.Proofs.Ledger.Timeless
import Mathlib.Data.Finset.Card

/-!
# Workflows of one ledger are independent

What an operation answers is, like what it changes, told from the entry of its
own workflow alone (`Op.reply`, `apply_fst`), and neither asks for a time. So
the operations on one workflow go as they would in a ledger of their own,
whatever is done to the others in between (`alike_run`).

* `get?_eq_none_iff_gone`: whether a record is missing, told from what was
  answered so far;
* `workflows_independent`: histories of any operations on any workflows.
-/

namespace Coordination

namespace Ledger

/-! ## Answers entry by entry -/

/-- What an operation answers, told from the entry of the workflow that it is about. -/
def Op.reply (cap : Nat) (now : Timestamp) : Op → Option Record → Reply
  | .create id owner name «namespace», none =>
    .record (some (.start now id owner name «namespace»))
  | .create id .., some _ => .refused (.alreadyExists id)
  | .get _, entry | .remove _, entry => .record entry
  | .getOutput _ key, entry => .output (entry.bind (·.outputs.get? key))
  | .contains _, entry => .flag entry.isSome
  | .write _ key value, some _ =>
    if value.utf8ByteSize ≤ cap then .done
    else .refused (.valueTooLarge key value.utf8ByteSize cap)
  | .commit _ draft value, some record =>
    match draft.outputKey with
    | some key =>
      if value.utf8ByteSize ≤ cap then .execution (succeed record now draft value)
      else .refused (.valueTooLarge key value.utf8ByteSize cap)
    | none => .execution (succeed record now draft value)
  | .recordFailure _ draft error, some _ => .execution (fail now draft error)
  | .executionsOf _, some record => .executions record.executions
  | .outputsOf _, some record => .outputs record.outputs
  | .settle _ verdict, some record =>
    if record.status.isSettled then .refused (.alreadySettled record.id record.status.name)
    else .record (some (record.settle now verdict))
  | .write id .., none | .commit id .., none | .recordFailure id .., none | .executionsOf id, none
  | .outputsOf id, none | .settle id _, none => .refused (.notFound id)
  | .maxValueBytes, _ => .number cap

/-- An operation answers from the entry of its own workflow. -/
theorem apply_fst (ledger : Ledger) (now : Timestamp) {op : Op} {id : String}
    (hid : op.id? = some id) :
    (ledger.apply now op).1 = op.reply ledger.maxValueBytes now (ledger.get? id) := by
  cases op with
  | maxValueBytes => cases hid
  | get target | getOutput target key | contains target | remove target =>
    obtain rfl : target = id := Option.some.inj hid
    rfl
  | executionsOf target | outputsOf target =>
    obtain rfl : target = id := Option.some.inj hid
    cases h : ledger.get? target with
    | none => simp only [apply, executionsOf, outputsOf, find_of_get?_none h]; rfl
    | some record => simp only [apply, executionsOf, outputsOf, find_of_get? h]; rfl
  | create target owner name «namespace» =>
    obtain rfl : target = id := Option.some.inj hid
    cases h : ledger.get? target with
    | none => simp only [apply, create_of_get?_none h]; rfl
    | some record => simp only [apply, create_of_get? h]; rfl
  | write target key value =>
    obtain rfl : target = id := Option.some.inj hid
    cases h : ledger.get? target with
    | none => simp only [apply, write, find_of_get?_none h]; rfl
    | some record =>
      simp only [apply, write_of_get? h, Op.reply]
      split <;> rfl
  | commit target draft value =>
    obtain rfl : target = id := Option.some.inj hid
    cases h : ledger.get? target with
    | none => simp only [apply, commit, find_of_get?_none h]; rfl
    | some record =>
      by_cases hfits : Fits ledger.maxValueBytes draft value
      · simp only [apply, commit_of_fits h hfits, Op.reply, changed]
        cases hkey : draft.outputKey with
        | none => rfl
        | some key => exact (if_pos (hfits (by simp [hkey]))).symm
      · obtain ⟨key, hkey, hcommit⟩ := commit_of_not_fits now h hfits
        have hsize : ¬ value.utf8ByteSize ≤ ledger.maxValueBytes :=
          fun hsize => hfits fun _ => hsize
        simp only [apply, hcommit, Op.reply, hkey, if_neg hsize, changed]
  | recordFailure target draft error =>
    obtain rfl : target = id := Option.some.inj hid
    cases h : ledger.get? target with
    | none => simp only [apply, recordFailure, find_of_get?_none h]; rfl
    | some record => simp only [apply, recordFailure_of_get? h]; rfl
  | settle target verdict =>
    obtain rfl : target = id := Option.some.inj hid
    cases h : ledger.get? target with
    | none => simp only [apply, settle, find_of_get?_none h]; rfl
    | some record =>
      simp only [apply, settle_of_get? h, Op.reply]
      split <;> rfl

/-! ## Times -/

/-- The operation without the time of its draft. -/
def Op.timeless : Op → Op
  | .commit id draft value => .commit id draft.timeless value
  | .recordFailure id draft error => .recordFailure id draft.timeless error
  | op => op

/-- The answer without times. -/
def Reply.timeless : Reply → Reply
  | .record entry => .record (entry.map (·.timeless))
  | .execution told => .execution told.timeless
  | .executions told => .executions (told.map (·.timeless))
  | reply => reply

@[simp] theorem Op.id?_timeless (op : Op) : op.timeless.id? = op.id? := by
  cases op <;> rfl

/-- No operation makes anything of the times of an entry. -/
theorem Op.timeless_update (cap : Nat) (now : Timestamp) (op : Op) (entry : Option Record) :
    (op.update cap now entry).map (·.timeless) =
      op.timeless.update cap (.ofMillis 0) (entry.map (·.timeless)) := by
  cases entry with
  | none => cases op <;> rfl
  | some record =>
    cases op with
    | write id key value =>
      simp only [update, timeless, Option.map_some]
      split <;> rfl
    | commit id draft value =>
      have hfits : Fits cap draft.timeless value ↔ Fits cap draft value := Iff.rfl
      simp only [update, timeless, Option.map_some, hfits]
      split
      · exact congrArg some (Record.timeless_commit record now draft value)
      · rfl
    | recordFailure id draft error =>
      exact congrArg some (Record.timeless_append record now (fail now draft error))
    | settle id verdict =>
      have hsame : record.timeless.status.isSettled = record.status.isSettled := rfl
      simp only [update, timeless, Option.map_some]
      by_cases hsettled : record.status.isSettled = true
      · rw [if_pos hsettled, if_pos (hsame.trans hsettled)]
      · rw [if_neg hsettled, if_neg (hsame ▸ hsettled), Record.timeless_settle]
    | _ => rfl

/-- Nor does any answer depend on them, but for its own times. -/
theorem Op.timeless_reply (cap : Nat) (now : Timestamp) (op : Op) (entry : Option Record) :
    (op.reply cap now entry).timeless =
      op.timeless.reply cap (.ofMillis 0) (entry.map (·.timeless)) := by
  cases entry with
  | none => cases op <;> rfl
  | some record =>
    cases op with
    | write id key value =>
      simp only [reply, timeless, Option.map_some]
      split <;> rfl
    | commit id draft value =>
      simp only [reply, timeless, Option.map_some, Draft.timeless]
      split
      · split <;> rfl
      · rfl
    | settle id verdict =>
      have hsame : record.timeless.status.isSettled = record.status.isSettled := rfl
      simp only [reply, timeless, Option.map_some]
      by_cases hsettled : record.status.isSettled = true
      · rw [if_pos hsettled, if_pos (hsame.trans hsettled)]
        rfl
      · rw [if_neg hsettled, if_neg (hsame ▸ hsettled)]
        rfl
    | _ => rfl

/-! ## What was answered -/

/-- Operations with what each of them answers. -/
def answers (ledger : Ledger) : List (Timestamp × Op) → List (Op × Reply)
  | [] => []
  | (now, op) :: ops => (op, (ledger.apply now op).1) :: (ledger.apply now op).2.answers ops

theorem answers_append (ledger : Ledger) (ops later : List (Timestamp × Op)) :
    ledger.answers (ops ++ later) = ledger.answers ops ++ (ledger.run ops).answers later := by
  induction ops generalizing ledger with
  | nil => rfl
  | cons op ops ih => exact congrArg (List.cons _) (ih _)

/-- An answered operation without times. -/
def timelessAnswer : Op × Reply → Op × Reply :=
  Prod.map Op.timeless Reply.timeless

/-- The operations of a history on one workflow, carried out in a ledger with the
same entry for it at whatever times, answer as they do in the history and leave
the same entry. -/
theorem alike_run {a b : Ledger} {id : String} (hcap : a.maxValueBytes = b.maxValueBytes)
    (hentry : (a.get? id).map (·.timeless) = (b.get? id).map (·.timeless))
    {ops own : List (Timestamp × Op)}
    (hown : own.map (·.2.timeless) =
      (ops.filter fun op => op.2.id? = some id).map (·.2.timeless)) :
    (b.answers own).map timelessAnswer =
        ((a.answers ops).filter fun answer => answer.1.id? = some id).map timelessAnswer ∧
      ((b.run own).get? id).map (·.timeless) = ((a.run ops).get? id).map (·.timeless) := by
  induction ops generalizing a b own with
  | nil =>
    obtain rfl : own = [] := List.map_eq_nil_iff.1 hown
    exact ⟨rfl, hentry.symm⟩
  | cons op ops ih =>
    obtain ⟨now, op⟩ := op
    by_cases hid : op.id? = some id
    · rw [List.filter_cons_of_pos (by simpa using hid), List.map_cons] at hown
      obtain ⟨⟨now', op'⟩, own, rfl, hop, hown⟩ := List.map_eq_cons_iff.1 hown
      have hid' : op'.id? = some id := by
        rw [← Op.id?_timeless, show op'.timeless = op.timeless from hop, Op.id?_timeless, hid]
      have hreply : (b.apply now' op').1.timeless = (a.apply now op).1.timeless := by
        rw [apply_fst _ _ hid, apply_fst _ _ hid', Op.timeless_reply, Op.timeless_reply, hcap,
          hentry, show op'.timeless = op.timeless from hop]
      have hnext : ((a.apply now op).2.get? id).map (·.timeless) =
          ((b.apply now' op').2.get? id).map (·.timeless) := by
        rw [get?_apply, if_pos hid, get?_apply, if_pos hid', Op.timeless_update,
          Op.timeless_update, hcap, hentry, show op'.timeless = op.timeless from hop]
      obtain ⟨hanswers, hfinal⟩ := ih (by simpa using hcap) hnext hown
      refine ⟨?_, hfinal⟩
      rw [answers, answers, List.filter_cons_of_pos (by simpa using hid), List.map_cons,
        List.map_cons, hanswers]
      exact congrArg (· :: _) (Prod.ext hop hreply)
    · rw [List.filter_cons_of_neg (by simpa using hid)] at hown
      have hsame : (a.apply now op).2.get? id = a.get? id := by rw [get?_apply, if_neg hid]
      obtain ⟨hanswers, hfinal⟩ :=
        ih (a := (a.apply now op).2) (by simpa using hcap) (by rw [hsame, hentry]) hown
      refine ⟨?_, hfinal⟩
      rw [hanswers, answers, List.filter_cons_of_neg (by simpa using hid)]

/-- Operations on different workflows answer the same and leave the same ledger in
either order. -/
theorem apply_comm (ledger : Ledger) {first second : Op} (hne : first.id? ≠ second.id?)
    (now later : Timestamp) :
    ((ledger.apply now first).2.apply later second).1 = (ledger.apply later second).1 ∧
      ((ledger.apply later second).2.apply now first).1 = (ledger.apply now first).1 ∧
      ((ledger.apply now first).2.apply later second).2 =
        ((ledger.apply later second).2.apply now first).2 := by
  have hreply : ∀ {one other : Op} (now later : Timestamp), one.id? ≠ other.id? →
      ((ledger.apply now one).2.apply later other).1 = (ledger.apply later other).1 := by
    intro one other now later hne
    cases hid : other.id? with
    | none =>
      cases other with
      | maxValueBytes => exact congrArg Reply.number (maxValueBytes_apply _ _ _)
      | _ => cases hid
    | some id =>
      rw [apply_fst _ _ hid, apply_fst _ _ hid, maxValueBytes_apply, get?_apply,
        if_neg (hid ▸ hne)]
  refine ⟨hreply now later hne, hreply later now hne.symm, ext_get? ?_ fun id => ?_⟩
  · simp only [maxValueBytes_apply]
  · simp only [get?_apply, maxValueBytes_apply]
    by_cases hfirst : first.id? = some id
    · have hsecond : ¬ second.id? = some id := fun hsecond => hne (hfirst.trans hsecond.symm)
      simp only [if_pos hfirst, if_neg hsecond]
    · simp only [if_neg hfirst]

/-! ## Missing records -/

/-- Whether an answered operation has brought in the record of a workflow. -/
def Creates (id : String) (answer : Op × Reply) : Prop :=
  ∃ owner name «namespace» record,
    answer = (.create id owner name «namespace», .record (some record))

/-- A workflow that was never created, or that was removed since it was last
created. -/
inductive Gone (id : String) (answers : List (Op × Reply)) : Prop where
  | never (hnever : ∀ answer ∈ answers, ¬ Creates id answer)
  | removed (before : List (Op × Reply)) (create : Op × Reply) (since : List (Op × Reply))
      (hanswers : answers = before ++ create :: since) (hcreate : Creates id create)
      (hlast : ∀ answer ∈ since, ¬ Creates id answer)
      (hremove : ∃ answer ∈ since, answer.1 = .remove id)

section Gone

variable {id : String} {answers : List (Op × Reply)} {answer : Op × Reply}

theorem Creates.op (h : Creates id answer) :
    ∃ owner name «namespace», answer.1 = .create id owner name «namespace» := by
  obtain ⟨owner, name, «namespace», record, rfl⟩ := h
  exact ⟨owner, name, «namespace», rfl⟩

theorem exists_last_creates (h : ¬ ∀ answer ∈ answers, ¬ Creates id answer) :
    ∃ before create since, answers = before ++ create :: since ∧ Creates id create ∧
      ∀ answer ∈ since, ¬ Creates id answer := by
  induction answers with
  | nil => exact absurd (fun answer hmem => nomatch hmem) h
  | cons answer answers ih =>
    by_cases hlater : ∀ answer ∈ answers, ¬ Creates id answer
    · have hcreate : Creates id answer := by
        by_contra hcreate
        exact h (List.forall_mem_cons.2 ⟨hcreate, hlater⟩)
      exact ⟨[], answer, answers, rfl, hcreate, hlater⟩
    · obtain ⟨before, create, since, rfl, hcreate, hlast⟩ := ih hlater
      exact ⟨answer :: before, create, since, rfl, hcreate, hlast⟩

theorem eq_append_of_split {before since : List (Op × Reply)} {create other : Op × Reply}
    (h : answers ++ [answer] = before ++ create :: since) (hmem : other ∈ since) :
    ∃ init, since = init ++ [answer] ∧ answers = before ++ create :: init := by
  obtain ⟨init, last, rfl⟩ :=
    (List.eq_nil_or_concat' since).resolve_left (List.ne_nil_of_mem hmem)
  rw [← List.cons_append, ← List.append_assoc] at h
  obtain ⟨hinit, hlast⟩ := List.append_inj' h rfl
  exact ⟨init, by rw [hlast], hinit⟩

/-- Right after it was created, a workflow is not gone, -/
theorem not_gone_of_creates (hcreate : Creates id answer) : ¬ Gone id (answers ++ [answer]) := by
  rintro (hnever | ⟨before, create, since, hanswers, -, hlast, gone, hgone, -⟩)
  · exact hnever answer (by simp) hcreate
  · obtain ⟨init, rfl, -⟩ := eq_append_of_split hanswers hgone
    exact hlast answer (by simp) hcreate

/-- and right after it was removed it is. -/
theorem gone_of_remove (hremove : answer.1 = .remove id) : Gone id (answers ++ [answer]) := by
  have hnot : ¬ Creates id answer := by
    intro hcreate
    obtain ⟨owner, name, «namespace», hop⟩ := hcreate.op
    cases hop.symm.trans hremove
  by_cases hnever : ∀ answer ∈ answers, ¬ Creates id answer
  · exact .never fun other hmem => (List.mem_append.1 hmem).elim (hnever other)
      fun h => List.mem_singleton.1 h ▸ hnot
  · obtain ⟨before, create, since, rfl, hcreate, hlast⟩ := exists_last_creates hnever
    refine .removed before create (since ++ [answer]) (by simp) hcreate (fun other hmem => ?_)
      ⟨answer, by simp, hremove⟩
    exact (List.mem_append.1 hmem).elim (hlast other) fun h => List.mem_singleton.1 h ▸ hnot

/-- Other operations change nothing about it. -/
theorem gone_append_iff (hcreate : ¬ Creates id answer) (hremove : answer.1 ≠ .remove id) :
    Gone id (answers ++ [answer]) ↔ Gone id answers := by
  constructor
  · rintro (hnever | ⟨before, create, since, hanswers, hcreated, hlast, gone, hgone, hremoved⟩)
    · exact .never fun other hmem => hnever other (List.mem_append_left _ hmem)
    · obtain ⟨init, rfl, rfl⟩ := eq_append_of_split hanswers hgone
      refine .removed before create init rfl hcreated
        (fun other hmem => hlast other (List.mem_append_left _ hmem)) ⟨gone, ?_, hremoved⟩
      refine (List.mem_append.1 hgone).resolve_right fun h => ?_
      exact hremove (List.mem_singleton.1 h ▸ hremoved)
  · rintro (hnever | ⟨before, create, since, rfl, hcreated, hlast, gone, hgone, hremoved⟩)
    · exact .never fun other hmem => (List.mem_append.1 hmem).elim (hnever other)
        fun h => List.mem_singleton.1 h ▸ hcreate
    · refine .removed before create (since ++ [answer]) (by simp) hcreated (fun other hmem => ?_)
        ⟨gone, List.mem_append_left _ hgone, hremoved⟩
      exact (List.mem_append.1 hmem).elim (hlast other) fun h => List.mem_singleton.1 h ▸ hcreate

end Gone

/-- After an operation there is no entry if it has taken the entry out, or if there
was none and it has brought none in. -/
theorem Op.update_eq_none_iff {cap : Nat} {now : Timestamp} {op : Op} {id : String}
    (hid : op.id? = some id) (entry : Option Record) :
    op.update cap now entry = none ↔
      op = .remove id ∨ entry = none ∧ ¬ Creates id (op, op.reply cap now entry) := by
  cases op with
  | maxValueBytes => cases hid
  | create target owner name «namespace» =>
    obtain rfl : target = id := Option.some.inj hid
    cases entry <;> simp [update, reply, Creates]
  | remove target =>
    obtain rfl : target = id := Option.some.inj hid
    simp [update]
  | _ => cases entry <;> simp [update, Creates]

/-- The record of a workflow is missing if it was never created or was removed
since it was last created. -/
theorem get?_eq_none_iff_gone (cap : Nat) (ops : List (Timestamp × Op)) (id : String) :
    ((empty cap).run ops).get? id = none ↔ Gone id ((empty cap).answers ops) := by
  induction ops using List.reverseRecOn with
  | nil => exact ⟨fun _ => .never fun answer hmem => (List.not_mem_nil hmem).elim, fun _ => rfl⟩
  | append_singleton ops op ih =>
    obtain ⟨now, op⟩ := op
    rw [answers_append, run_append, run_cons, run_nil, get?_apply]
    generalize (empty cap).run ops = ledger at ih
    simp only [answers]
    by_cases hid : op.id? = some id
    · rw [if_pos hid, Op.update_eq_none_iff hid, ← apply_fst ledger now hid]
      by_cases hcreate : Creates id (op, (ledger.apply now op).1)
      · have hremove : op ≠ .remove id := by
          obtain ⟨owner, name, «namespace», hop⟩ := hcreate.op
          exact fun hremove => nomatch hop.symm.trans hremove
        simp [hremove, hcreate, not_gone_of_creates hcreate]
      · by_cases hremove : op = .remove id
        · simp [hremove, gone_of_remove]
        · simp [hremove, hcreate, gone_append_iff, ih]
    · have hcreate : ¬ Creates id (op, (ledger.apply now op).1) := by
        intro hcreate
        obtain ⟨owner, name, «namespace», hop⟩ := hcreate.op
        exact hid (congrArg Op.id? hop)
      have hremove : op ≠ .remove id := fun hremove => hid (hremove ▸ rfl)
      rw [if_neg hid, gone_append_iff hcreate hremove, ih]

/-- The answer that there is no record of a workflow. -/
def Reply.IsMissing (id : String) : Reply → Prop
  | .record none | .flag false => True
  | .refused error => error = .notFound id
  | _ => False

/-- Whether an operation says that the record of its workflow is missing, if it is.
To ask for one output does not tell a missing record from one without it. -/
def Op.Tells : Op → Prop
  | .create .. | .getOutput .. | .maxValueBytes => False
  | _ => True

theorem Op.isMissing_reply_iff {cap : Nat} {now : Timestamp} {op : Op} {id : String}
    (htells : op.Tells) (hid : op.id? = some id) (entry : Option Record) :
    (op.reply cap now entry).IsMissing id ↔ entry = none := by
  obtain rfl | ⟨record, rfl⟩ := Option.eq_none_or_eq_some entry
  · cases op with
    | create | getOutput | maxValueBytes => exact htells.elim
    | get | contains | remove => exact iff_of_true trivial rfl
    | _ => exact iff_of_true (by cases hid; rfl) rfl
  · refine iff_of_false (fun hmissing => ?_) (Option.some_ne_none record)
    cases op with
    | create | getOutput | maxValueBytes => exact htells
    | get | contains | remove | executionsOf | outputsOf | recordFailure => exact hmissing
    | write target key value =>
      simp only [reply] at hmissing
      split at hmissing <;> cases hmissing
    | commit target draft value =>
      simp only [reply] at hmissing
      split at hmissing
      · split at hmissing <;> cases hmissing
      · cases hmissing
    | settle target verdict =>
      simp only [reply] at hmissing
      split at hmissing <;> cases hmissing

/-- The keys of the entries of a ledger. -/
theorem card_toFinset_keys (ledger : Ledger) :
    ledger.records.keys.toFinset.card = ledger.size := by
  have hnodup : ledger.records.keys.Nodup :=
    List.Pairwise.imp (fun {a b} (hlt : a < b) (heq : a = b) => String.lt_irrefl b (heq ▸ hlt))
      ledger.records.keys_ascending
  rw [List.toFinset_card_of_nodup hnodup, KeyMap.keys, List.length_map, size, KeyMap.size]

/-! ## Histories -/

/-- After any operations on a ledger without records, each workflow is where its
own operations have brought it. -/
structure Independent (cap : Nat) (ops : List (Timestamp × Op)) : Prop where
  /-- The operations on a workflow alone, at whatever times, answer the same and
  leave the same, but for times. -/
  alone : ∀ id own,
    own.map (·.2.timeless) = (ops.filter fun op => op.2.id? = some id).map (·.2.timeless) →
    ((empty cap).answers own).map timelessAnswer =
        (((empty cap).answers ops).filter fun answer => answer.1.id? = some id).map
          timelessAnswer ∧
      (((empty cap).run own).get? id).map (·.timeless) =
        (((empty cap).run ops).get? id).map (·.timeless)
  /-- Two more, on different workflows, may trade places. -/
  commute : ∀ first second now later, first.id? ≠ second.id? →
    ((((empty cap).run ops).apply now first).2.apply later second).1 =
        (((empty cap).run ops).apply later second).1 ∧
      ((((empty cap).run ops).apply later second).2.apply now first).1 =
        (((empty cap).run ops).apply now first).1 ∧
      (empty cap).run (ops ++ [(now, first), (later, second)]) =
        (empty cap).run (ops ++ [(later, second), (now, first)])
  /-- One that says whether the record is missing says so if the workflow is gone, -/
  missing : ∀ id op now, op.id? = some id → op.Tells →
    ((((empty cap).run ops).apply now op).1.IsMissing id ↔ Gone id ((empty cap).answers ops))
  /-- one that asks for an output then gets none, -/
  outputless : ∀ id key now, Gone id ((empty cap).answers ops) →
    (((empty cap).run ops).apply now (.getOutput id key)).1 = .output none
  /-- and the workflows that are not gone are counted. -/
  size : ∃ ids : Finset String, ids.card = ((empty cap).run ops).size ∧
    ∀ id, id ∈ ids ↔ ¬ Gone id ((empty cap).answers ops)

/-- The workflows of one ledger are independent. -/
theorem workflows_independent (cap : Nat) (ops : List (Timestamp × Op)) :
    Independent cap ops where
  alone := fun _ _ hown => alike_run rfl rfl hown
  commute := by
    intro first second now later hne
    obtain ⟨hsecond, hfirst, hledger⟩ := apply_comm ((empty cap).run ops) hne now later
    refine ⟨hsecond, hfirst, ?_⟩
    rw [run_append, run_append]
    exact hledger
  missing := by
    intro id op now hid htells
    rw [apply_fst _ _ hid, Op.isMissing_reply_iff htells hid, get?_eq_none_iff_gone]
  outputless := by
    intro id key now hgone
    rw [apply_fst _ _ rfl, (get?_eq_none_iff_gone cap ops id).2 hgone]
    rfl
  size := by
    refine ⟨((empty cap).run ops).records.keys.toFinset, card_toFinset_keys _, fun id => ?_⟩
    rw [List.mem_toFinset, KeyMap.mem_keys, KeyMap.contains, ← get?_eq_none_iff_gone,
      Option.isSome_iff_ne_none]
    rfl

end Ledger

end Coordination
