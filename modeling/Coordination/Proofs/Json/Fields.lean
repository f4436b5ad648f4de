import Coordination.Json.Fields

/-!
# Writing and reading back

A form of values as JSON: a way to write them, a way to read them, and which
values fit the form. `Json.Form.Faithful` says that the two undo each other:
every value that fits is read back from what is written for it, and only values
that fit are ever read. So whatever was read is read again after it was written
(`Json.Form.Faithful.again`).

* `Slots.ofMembers_members`, `Json.Slots.read_members`: the members written for declared fields
  are put back at their fields, whichever of them are left out;
* `Json.Form.Faithful.list`, `.option`, `.keyMap`: forms built out of forms;
* `Json.Form.Faithful.required`, `.optional`, `.orElse`: a field that was written, and
  `.of_required`, `.of_optional`, `.of_orElse`: a field that was read.
-/

namespace Coordination

namespace Slots

variable {α : Type}

/-- The members written for declared fields, each under its first name. A field without a value
is left out. -/
def members : List (List String) → List (Option α) → List (String × α)
  | (name :: _) :: fields, some value :: written => (name, value) :: members fields written
  | _ :: fields, _ :: written => members fields written
  | _, _ => []

/-- A name is declared where it stands first. -/
theorem findIdx?_append_cons {before after : List (List String)} {name : String}
    {names : List String} (h : name ∉ before.flatten) :
    ((before ++ (name :: names) :: after).findIdx? fun names => name ∈ names) =
      some before.length := by
  have hbefore : before.findIdx? (fun names => name ∈ names) = none := by
    refine List.findIdx?_eq_none_iff.2 fun field hfield => ?_
    simpa using fun hname => h (List.mem_flatten.2 ⟨field, hfield, hname⟩)
  rw [List.findIdx?_append, hbefore]
  simp [List.findIdx?_cons]

/-- A member under the first name of a field without a value is put there. -/
theorem place_cons {before after : List (List String)} {name : String} {names : List String}
    {done left : List (Option α)} (value : α) (h : name ∉ before.flatten)
    (hdone : done.length = before.length) :
    place (before ++ (name :: names) :: after) (done ++ none :: left) (name, value) =
      some (done ++ some value :: left) := by
  simp only [place, findIdx?_append_cons h]
  rw [← hdone]
  simp

/-- The members of the fields from some field on, put in after those before. -/
theorem foldlM_members {fields after : List (List String)} (before : List (List String))
    (done written : List (Option α)) (hfields : fields = before ++ after)
    (hdistinct : fields.flatten.Nodup) (hnames : [] ∉ after) (hdone : done.length = before.length)
    (hwritten : written.length = after.length) :
    (members after written).foldlM (place fields) (done ++ after.map fun _ => none) =
      some (done ++ written) := by
  induction after generalizing before done written with
  | nil =>
    obtain rfl := List.length_eq_zero_iff.1 hwritten
    rfl
  | cons names after ih =>
    cases written with
    | nil => cases hwritten
    | cons value written =>
      obtain ⟨hne, hnames⟩ := not_or.1 fun h => hnames (List.mem_cons.2 h)
      have hstep := ih (before ++ [names]) (done ++ [value]) written (by simp [hfields]) hnames
        (by simp [hdone]) (by simpa using hwritten)
      rw [List.append_assoc, List.append_assoc] at hstep
      cases names with
      | nil => exact absurd rfl hne
      | cons name names =>
        cases value with
        | none => exact hstep
        | some value =>
          have hname : name ∉ before.flatten := by
            rw [hfields, List.flatten_append, List.nodup_append] at hdistinct
            exact fun h => hdistinct.2.2 name h name (by simp) rfl
          have hplace : place fields (done ++ none :: after.map fun _ => none) (name, value) =
              some (done ++ some value :: after.map fun _ => none) := by
            rw [hfields]
            exact place_cons value hname hdone
          simp only [members, List.map_cons, List.foldlM_cons, hplace]
          exact hstep

/-- The members written for declared fields are put back at these fields. -/
theorem ofMembers_members {fields : List (List String)} {written : List (Option α)}
    (hdistinct : fields.flatten.Nodup) (hnames : [] ∉ fields)
    (hwritten : written.length = fields.length) :
    ofMembers fields (members fields written) = some written :=
  foldlM_members [] [] written rfl hdistinct hnames rfl hwritten

end Slots

namespace KeyMap

variable {α : Type}

/-- A map holds its own entries. -/
theorem ofList_entries (m : KeyMap α) : ofList m.entries = m := by
  refine ext_get? fun key => ?_
  rw [ofList, get?_foldl_insert _ _ _ m.ascending, get?_empty, Option.or_none]
  rfl

theorem eq_empty_of_isEmpty {m : KeyMap α} (h : m.isEmpty = true) : m = empty := by
  refine ext_get? fun key => ?_
  rw [get?, List.isEmpty_iff.1 h]
  rfl

theorem mem_of_mem_foldl_insert {entries : List (String × α)} {m : KeyMap α} {e : String × α}
    (h : e ∈ (entries.foldl (fun m e => m.insert e.1 e.2) m).entries) :
    e ∈ m.entries ∨ e ∈ entries := by
  induction entries generalizing m with
  | nil => exact .inl h
  | cons entry rest ih =>
    rcases ih h with h | h
    · rcases Ascending.mem_put h with rfl | h
      · exact .inr List.mem_cons_self
      · exact .inl h
    · exact .inr (List.mem_cons_of_mem _ h)

/-- Only listed entries are held. -/
theorem mem_of_mem_ofList {entries : List (String × α)} {e : String × α}
    (h : e ∈ (ofList entries).entries) : e ∈ entries :=
  (mem_of_mem_foldl_insert h).resolve_left List.not_mem_nil

end KeyMap

namespace Json

theorem mapM_map_some {α β γ : Type} (f : α → β) (g : β → Option γ) (h : α → γ) (items : List α)
    (hsome : ∀ item ∈ items, g (f item) = some (h item)) :
    (items.map f).mapM g = some (items.map h) := by
  induction items with
  | nil => rfl
  | cons item items ih =>
    obtain ⟨hitem, hitems⟩ := List.forall_mem_cons.1 hsome
    rw [List.map_cons, List.mapM_cons, hitem, ih hitems]
    rfl

theorem mapM_eq_some {α β : Type} {f : α → Option β} {items : List α} {results : List β}
    (h : items.mapM f = some results) {result : β} (hresult : result ∈ results) :
    ∃ item ∈ items, f item = some result := by
  induction items generalizing results with
  | nil =>
    obtain rfl : [] = results := Option.some.inj h
    cases hresult
  | cons item items ih =>
    simp only [List.mapM_cons, Option.bind_eq_bind, Option.bind_eq_some_iff, Option.pure_def,
      Option.some.injEq] at h
    obtain ⟨first, hfirst, rest, hrest, rfl⟩ := h
    rcases List.mem_cons.1 hresult with rfl | hresult
    · exact ⟨item, List.mem_cons_self, hfirst⟩
    · obtain ⟨other, hother, heq⟩ := ih hrest hresult
      exact ⟨other, List.mem_cons_of_mem _ hother, heq⟩

/-- Members written by name are read as slots by name. -/
theorem Slots.read_members {fields : List (List String)} {written : List (Option Json)}
    {value : Json} (hvalue : value = .ofMembers (Coordination.Slots.members fields written))
    (hdistinct : fields.flatten.Nodup) (hnames : [] ∉ fields)
    (hwritten : written.length = fields.length) :
    Slots.read fields value = some ⟨written, false⟩ := by
  simp only [hvalue, Slots.read, ofMembers]
  rw [mapM_map_some _ _ id _ ?hkeys, List.map_id]
  case hkeys => exact fun member _ => rfl
  simp [Coordination.Slots.ofMembers_members hdistinct hnames hwritten]

/-- How values of a type stand in JSON, and which of them can. -/
structure Form (α : Type) where
  write : α → Json
  read : Json → Option α
  Fits : α → Prop

namespace Form

/-- What fits is read back, and what is read fits. -/
structure Faithful {α : Type} (form : Form α) : Prop where
  back : ∀ {x}, form.Fits x → form.read (form.write x) = some x
  fits : ∀ {value x}, form.read value = some x → form.Fits x

/-- What was read once is read again after it was written. -/
theorem Faithful.again {α : Type} {form : Form α} (h : form.Faithful) {value : Json} {x : α}
    (hread : form.read value = some x) : form.read (form.write x) = some x :=
  h.back (h.fits hread)

/-- Texts. -/
def text : Form String := ⟨.string, asString, fun _ => True⟩

theorem faithful_text : text.Faithful := ⟨fun _ => rfl, fun _ => trivial⟩

/-- Numbers up to `max`. -/
def nat (max : Nat) : Form Nat := ⟨.ofNat, asNat max, (· ≤ max)⟩

theorem faithful_nat (max : Nat) : (nat max).Faithful where
  back hfits := if_pos hfits
  fits {value n} hread := by
    simp only [nat, asNat] at hread
    split at hread
    · obtain ⟨hle, heq⟩ := Option.ite_none_right_eq_some.1 hread
      exact Option.some.inj heq ▸ hle
    · cases hread

/-- One of some values, by its name. -/
def name {α : Type} (name : α → String) (all : List α) : Form α :=
  ⟨fun x => .string (name x), asName (all.map fun x => (name x, x)), fun _ => True⟩

theorem faithful_name {α : Type} {name : α → String} {all : List α}
    (h : ∀ x, (all.map fun x => (name x, x)).lookup (name x) = some x) :
    (Form.name name all).Faithful := ⟨fun _ => h _, fun _ => trivial⟩

variable {α : Type} {form : Form α}

/-- Lists of values. -/
def list (form : Form α) : Form (List α) where
  write items := .array (items.map form.write)
  read := asList form.read
  Fits items := ∀ item ∈ items, form.Fits item

theorem Faithful.list (h : form.Faithful) : form.list.Faithful where
  back {items} hfits := by
    have := mapM_map_some form.write form.read id items fun item hitem => h.back (hfits item hitem)
    rwa [List.map_id] at this
  fits {value items} hread item hitem := by
    cases value with
    | array values =>
      obtain ⟨value, -, heq⟩ := mapM_eq_some hread hitem
      exact h.fits heq
    | _ => cases hread

/-- Values that may be absent. -/
def option (form : Form α) : Form (Option α) where
  write := ofOption form.write
  read := Slots.nullable form.read
  Fits value := ∀ x ∈ value, form.Fits x

theorem Faithful.option (h : form.Faithful) (hnull : ∀ x, form.write x ≠ .null) :
    form.option.Faithful where
  back {value} hfits := by
    cases value with
    | none => rfl
    | some x =>
      have hread : Slots.nullable form.read (form.write x) =
          (form.read (form.write x)).map some := by
        unfold Slots.nullable
        split
        next heq => exact absurd heq (hnull x)
        next => rfl
      exact hread.trans (by rw [h.back (hfits x rfl)]; rfl)
  fits {value found} hread x hx := by
    obtain rfl := Option.mem_def.1 hx
    simp only [Form.option, Slots.nullable] at hread
    split at hread
    · cases hread
    · obtain ⟨y, hy, heq⟩ := Option.map_eq_some_iff.1 hread
      cases heq
      exact h.fits hy

/-- Maps from texts. -/
def keyMap (form : Form α) : Form (KeyMap α) where
  write := ofKeyMap form.write
  read := asKeyMap form.read
  Fits m := ∀ entry ∈ m.entries, form.Fits entry.2

theorem Faithful.keyMap (h : form.Faithful) : form.keyMap.Faithful where
  back {m} hfits := by
    simp only [Form.keyMap, ofKeyMap, ofMembers, List.map_map, asKeyMap]
    rw [mapM_map_some _ _ id _ ?hentries, List.map_id]
    case hentries =>
      intro entry hentry
      simp [h.back (hfits entry hentry)]
    exact congrArg some (KeyMap.ofList_entries m)
  fits {value m} hread entry hentry := by
    cases value with
    | object members =>
      obtain ⟨entries, hentries, heq⟩ := Option.bind_eq_some_iff.1 hread
      cases heq
      obtain ⟨⟨key, value⟩, -, hmember⟩ := mapM_eq_some hentries (KeyMap.mem_of_mem_ofList hentry)
      simp only [Option.bind_eq_bind, Option.bind_eq_some_iff] at hmember
      obtain ⟨name, -, x, hx, heq⟩ := hmember
      cases heq
      exact h.fits hx
    | _ => cases hread

/-! ## Fields -/

variable {slots : Slots} {index : Nat} {x : α} {value : Option α}

theorem Faithful.required (h : form.Faithful) (hget : slots.get? index = some (form.write x))
    (hfits : form.Fits x) : slots.required index form.read = some x := by
  simp [Slots.required, hget, h.back hfits]

theorem Faithful.of_required (h : form.Faithful)
    (hread : slots.required index form.read = some x) : form.Fits x := by
  obtain ⟨value, -, hvalue⟩ := Option.bind_eq_some_iff.1 hread
  exact h.fits hvalue

theorem Faithful.orElse {default : α} (h : form.Faithful)
    (hget : slots.get? index = some (form.write x)) (hfits : form.Fits x) :
    slots.orElse index default form.read = some x := by
  simp [Slots.orElse, hget, h.back hfits]

theorem Faithful.of_orElse {default : α} (h : form.Faithful) (hdefault : form.Fits default)
    (hread : slots.orElse index default form.read = some x) : form.Fits x := by
  unfold Slots.orElse at hread
  split at hread
  · cases hread
    exact hdefault
  · exact h.fits hread

/-- A value that is left out where it is absent. -/
theorem Faithful.omitted (h : form.option.Faithful) (hget : slots.get? index = value.map form.write)
    (hfits : ∀ x ∈ value, form.Fits x) :
    slots.orElse index none (Slots.nullable form.read) = some value := by
  cases value with
  | none => simp [Slots.orElse, hget]
  | some x =>
    simp only [Slots.orElse, hget, Option.map_some]
    exact h.back hfits

theorem Faithful.optional (h : form.option.Faithful)
    (hget : slots.get? index = some (form.option.write value))
    (hfits : ∀ x ∈ value, form.Fits x) : slots.optional index form.read = some value := by
  simp only [Slots.optional, hget]
  exact h.back hfits

theorem Faithful.of_optional (h : form.option.Faithful)
    (hread : slots.optional index form.read = some value) : ∀ x ∈ value, form.Fits x := by
  unfold Slots.optional at hread
  split at hread
  · split at hread
    · cases hread
    · cases hread
      rintro x ⟨⟩
  · exact h.fits hread

end Form

end Json

end Coordination
