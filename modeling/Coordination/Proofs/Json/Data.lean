import Coordination.Event.Json
import Coordination.Proofs.Json.Fields

/-!
# JSON values as data

What `Json.normalize` leaves is data (`Json.isData_of_normalize`), no deeper than the value it
came from, and data is left as it is (`Json.IsData.normalize_eq`). Metadata is data in this sense,
up to a depth (`Event.faithful_metadata`).
-/

namespace Coordination

namespace Json

/-- Whether a number is in one of the three ranges that numbers have as data. -/
def Number.InRange (n : Number) : Prop :=
  n.fitsWord = true ∨ (n.exponent.isSome = true ∧ n.isFinite = true)

/-- Whether a value is data: every number in range, no string unreadable, and the members of every
object those of a map. -/
inductive IsData : Json → Prop where
  | null : IsData .null
  | bool (value : Bool) : IsData (.bool value)
  | number {value : Number} (h : value.InRange) : IsData (.number value)
  | string (value : String) : IsData (.string value)
  | array {items : List Json} (h : ∀ item ∈ items, IsData item) : IsData (.array items)
  | object {m : KeyMap Json} (h : ∀ entry ∈ m.entries, IsData entry.2) : IsData (.ofKeyMap id m)

/-! ## Depth -/

theorem depthOfItems_le {items : List Json} {n : Nat} :
    depthOfItems items ≤ n ↔ ∀ item ∈ items, item.depth ≤ n := by
  induction items with
  | nil => simp [depthOfItems]
  | cons item items ih => rw [depthOfItems, Nat.max_le, ih, List.forall_mem_cons]

theorem depthOfMembers_le {members : List (Option String × Json)} {n : Nat} :
    depthOfMembers members ≤ n ↔ ∀ member ∈ members, member.2.depth ≤ n := by
  induction members with
  | nil => simp [depthOfMembers]
  | cons member members ih =>
    obtain ⟨key, item⟩ := member
    rw [depthOfMembers, Nat.max_le, ih, List.forall_mem_cons]

theorem ofKeyMap_id (m : KeyMap Json) :
    ofKeyMap id m = .object (m.entries.map fun entry => (some entry.1, entry.2)) := by
  simp [ofKeyMap, ofMembers]

theorem depthOfMembers_entries_le {m : KeyMap Json} {n : Nat} :
    depthOfMembers (m.entries.map fun entry => (some entry.1, entry.2)) ≤ n ↔
      ∀ entry ∈ m.entries, entry.2.depth ≤ n := by
  rw [depthOfMembers_le, List.forall_mem_map]

/-! ## Data is left as it is -/

theorem Number.normalize_eq {n : Number} (h : n.InRange) : n.normalize = some n := by
  rcases h with h | ⟨hsome, hfinite⟩
  · exact if_pos h
  · obtain ⟨negative, significand, exponent⟩ := n
    cases exponent with
    | none => cases hsome
    | some exponent => simp [normalize, hfinite]

theorem normalizeItems_eq {items : List Json}
    (h : ∀ item ∈ items, item.normalize = some item) : normalizeItems items = some items := by
  induction items with
  | nil => rfl
  | cons item items ih =>
    obtain ⟨hitem, hitems⟩ := List.forall_mem_cons.1 h
    simp [normalizeItems, hitem, ih hitems]

theorem normalizeMembers_eq {entries : List (String × Json)}
    (h : ∀ entry ∈ entries, entry.2.normalize = some entry.2) :
    normalizeMembers (entries.map fun entry => (some entry.1, entry.2)) = some entries := by
  induction entries with
  | nil => rfl
  | cons entry entries ih =>
    obtain ⟨hentry, hentries⟩ := List.forall_mem_cons.1 h
    simp [normalizeMembers, hentry, ih hentries]

/-- Data is its own normal form. -/
theorem IsData.normalize_eq {value : Json} (h : IsData value) : value.normalize = some value := by
  induction h with
  | null | bool | string => rfl
  | number h => simp [normalize, Number.normalize_eq h]
  | array _ ih => simp [normalize, normalizeItems_eq ih]
  | @object m _ ih =>
    rw [ofKeyMap_id, normalize, normalizeMembers_eq ih, Option.map_some, sortMembers,
      KeyMap.ofList_entries, ofKeyMap_id]

/-! ## Normal forms are data -/

theorem Number.inRange_of_normalize {n data : Number} (h : n.normalize = some data) :
    data.InRange := by
  unfold normalize at h
  split at h
  next hword => exact .inl (Option.some.inj h ▸ hword)
  next =>
    split at h
    next hfinite =>
      cases h
      exact .inr ⟨rfl, by simpa [isFinite] using hfinite⟩
    next => cases h

/-- A map of data listed with members of at most some depth is data and at most one deeper. -/
theorem isData_sortMembers {entries : List (String × Json)} {n : Nat}
    (h : ∀ entry ∈ entries, IsData entry.2 ∧ entry.2.depth ≤ n) :
    IsData (sortMembers entries) ∧ (sortMembers entries).depth ≤ n + 1 := by
  have hheld := fun entry hentry => h entry (KeyMap.mem_of_mem_ofList hentry)
  refine ⟨.object fun entry hentry => (hheld entry hentry).1, ?_⟩
  rw [sortMembers, ofKeyMap_id, depth, Nat.add_le_add_iff_right, depthOfMembers_entries_le]
  exact fun entry hentry => (hheld entry hentry).2

mutual

/-- The normal form of a value is data, no deeper than the value. -/
theorem isData_of_normalize : ∀ (value : Json) {data : Json}, value.normalize = some data →
    IsData data ∧ data.depth ≤ value.depth
  | .null, _, rfl => ⟨.null, Nat.le_refl _⟩
  | .bool value, _, rfl => ⟨.bool value, Nat.le_refl _⟩
  | .number value, data, h => by
    obtain ⟨n, hn, rfl⟩ := Option.map_eq_some_iff.1 h
    exact ⟨.number (Number.inRange_of_normalize hn), Nat.le_refl _⟩
  | .string value, _, rfl => ⟨.string value, Nat.le_refl _⟩
  | .unreadable, _, h => nomatch h
  | .array items, data, h => by
    obtain ⟨items', hitems, rfl⟩ := Option.map_eq_some_iff.1 h
    have := isData_of_normalizeItems items hitems
    exact ⟨.array fun item hitem => (this item hitem).1,
      Nat.succ_le_succ (depthOfItems_le.2 fun item hitem => (this item hitem).2)⟩
  | .object members, data, h => by
    obtain ⟨entries, hentries, rfl⟩ := Option.map_eq_some_iff.1 h
    exact isData_sortMembers (isData_of_normalizeMembers members hentries)

theorem isData_of_normalizeItems : ∀ (items : List Json) {data : List Json},
    normalizeItems items = some data →
    ∀ item ∈ data, IsData item ∧ item.depth ≤ depthOfItems items
  | [], _, rfl, _, hitem => nomatch hitem
  | first :: items, data, h, item, hitem => by
    simp only [normalizeItems, Option.bind_eq_bind, Option.bind_eq_some_iff, Option.pure_def,
      Option.some.injEq] at h
    obtain ⟨head, hhead, rest, hrest, rfl⟩ := h
    rcases List.mem_cons.1 hitem with rfl | hitem
    · exact (isData_of_normalize first hhead).imp_right (Nat.le_trans · (Nat.le_max_left _ _))
    · exact (isData_of_normalizeItems items hrest item hitem).imp_right
        (Nat.le_trans · (Nat.le_max_right _ _))

theorem isData_of_normalizeMembers : ∀ (members : List (Option String × Json))
    {data : List (String × Json)}, normalizeMembers members = some data →
    ∀ entry ∈ data, IsData entry.2 ∧ entry.2.depth ≤ depthOfMembers members
  | [], _, rfl, _, hentry => nomatch hentry
  | (key, first) :: members, data, h, entry, hentry => by
    simp only [normalizeMembers, Option.bind_eq_bind, Option.bind_eq_some_iff, Option.pure_def,
      Option.some.injEq] at h
    obtain ⟨name, -, head, hhead, rest, hrest, rfl⟩ := h
    rcases List.mem_cons.1 hentry with rfl | hentry
    · exact (isData_of_normalize first hhead).imp_right (Nat.le_trans · (Nat.le_max_left _ _))
    · exact (isData_of_normalizeMembers members hrest entry hentry).imp_right
        (Nat.le_trans · (Nat.le_max_right _ _))

end

end Json

namespace Event

/-- Metadata: a map of data, each piece at most so deep. -/
def metadataForm : Json.Form (KeyMap Json) where
  write := .ofKeyMap id
  read := readMetadata
  Fits m := ∀ entry ∈ m.entries, entry.2.IsData ∧ entry.2.depth ≤ maxMetadataDepth

/-- Metadata that is data is read as it is, unless some piece is too deep. -/
theorem readMetadata_ofKeyMap {m : KeyMap Json} (h : ∀ entry ∈ m.entries, entry.2.IsData) :
    readMetadata (.ofKeyMap id m) =
      if ∀ entry ∈ m.entries, entry.2.depth ≤ maxMetadataDepth then some m else none := by
  simp only [Json.ofKeyMap_id, readMetadata, Json.depthOfMembers_entries_le, Option.map_some,
    Json.normalizeMembers_eq fun entry hentry => (h entry hentry).normalize_eq,
    KeyMap.ofList_entries]

theorem faithful_metadata : metadataForm.Faithful where
  back h := by
    refine (readMetadata_ofKeyMap fun entry hentry => (h entry hentry).1).trans (if_pos ?_)
    exact fun entry hentry => (h entry hentry).2
  fits {value m} hread entry hentry := by
    cases value with
    | object members =>
      obtain ⟨hdepth, hread⟩ := Option.ite_none_right_eq_some.1 hread
      obtain ⟨entries, hentries, rfl⟩ := Option.map_eq_some_iff.1 hread
      exact (Json.isData_of_normalizeMembers members hentries entry
        (KeyMap.mem_of_mem_ofList hentry)).imp_right (Nat.le_trans · hdepth)
    | _ => cases hread

end Event

end Coordination
