/-!
# Maps from texts, in key order

A finite map whose keys are texts. The entries are kept in strictly ascending
order of their keys, so a map has one representation: two maps that answer
every look-up alike are equal (`KeyMap.ext_get?`), and listing the keys
(`KeyMap.keys`) needs no sorting.

* `get?_insert`, `get?_erase`, `get?_overlay`: what each operation does to
  look-ups;
* `ext_get?`: look-ups determine the map.
-/

namespace Coordination

/-- Entries whose keys ascend strictly. -/
def Ascending {α : Type} (entries : List (String × α)) : Prop :=
  entries.Pairwise fun a b => a.1 < b.1

namespace Ascending

variable {α : Type}

/-- Puts an entry at its place among ascending entries, over an earlier entry
of the same key. -/
def put (key : String) (value : α) : List (String × α) → List (String × α)
  | [] => [(key, value)]
  | entry :: rest =>
    if key < entry.1 then (key, value) :: entry :: rest
    else if key = entry.1 then (key, value) :: rest
    else entry :: put key value rest

theorem mem_put {key : String} {value : α} {entries : List (String × α)} {e : String × α}
    (h : e ∈ put key value entries) : e = (key, value) ∨ e ∈ entries := by
  induction entries with
  | nil => simpa [put] using h
  | cons entry rest ih =>
    simp only [put] at h
    split at h
    · simpa using h
    · split at h
      · rcases List.mem_cons.1 h with h | h
        · exact .inl h
        · exact .inr (List.mem_cons_of_mem _ h)
      · rcases List.mem_cons.1 h with h | h
        · exact .inr (h ▸ List.mem_cons_self)
        · exact (ih h).imp id (List.mem_cons_of_mem _)

theorem lt_of_not_lt_of_ne {a b : String} (h : ¬ a < b) (hne : a ≠ b) : b < a := by
  rcases Decidable.em (b < a) with h' | h'
  · exact h'
  · exact absurd (String.le_antisymm (String.not_lt.1 h') (String.not_lt.1 h)) hne

theorem put_ascending {key : String} {value : α} {entries : List (String × α)}
    (h : Ascending entries) : Ascending (put key value entries) := by
  induction entries with
  | nil => simp [Ascending, put]
  | cons entry rest ih =>
    obtain ⟨hhead, htail⟩ := List.pairwise_cons.1 h
    simp only [put]
    split
    next hlt =>
      refine List.pairwise_cons.2 ⟨fun e he => ?_, h⟩
      rcases List.mem_cons.1 he with rfl | he
      · exact hlt
      · exact String.lt_trans hlt (hhead e he)
    next hlt =>
      split
      next heq => exact List.pairwise_cons.2 ⟨fun e he => heq ▸ hhead e he, htail⟩
      next hne =>
        refine List.pairwise_cons.2 ⟨fun e he => ?_, ih htail⟩
        rcases mem_put he with rfl | he
        · exact lt_of_not_lt_of_ne hlt hne
        · exact hhead e he

/-- The value of the first entry with this key. -/
def find? (key : String) : List (String × α) → Option α
  | [] => none
  | entry :: rest => if entry.1 = key then some entry.2 else find? key rest

theorem find?_put (key : String) (value : α) (entries : List (String × α)) (k : String) :
    find? k (put key value entries) = if key = k then some value else find? k entries := by
  induction entries with
  | nil => simp [put, find?]
  | cons entry rest ih =>
    simp only [put]
    split
    · simp [find?]
    · split
      next heq =>
        by_cases hk : key = k
        · simp [find?, hk]
        · have : entry.1 ≠ k := heq ▸ hk
          simp [find?, hk, this]
      next hne =>
        simp only [find?, ih]
        by_cases he : entry.1 = k
        · have : key ≠ k := fun h => hne (h.trans he.symm)
          simp [he, this]
        · simp [he]

theorem find?_eq_none {key : String} {entries : List (String × α)}
    (h : ∀ e ∈ entries, e.1 ≠ key) : find? key entries = none := by
  induction entries with
  | nil => rfl
  | cons entry rest ih =>
    simp only [find?, if_neg (h entry List.mem_cons_self)]
    exact ih fun e he => h e (List.mem_cons_of_mem _ he)

theorem find?_eq_some {key : String} {value : α} {entries : List (String × α)}
    (h : Ascending entries) : find? key entries = some value ↔ (key, value) ∈ entries := by
  induction entries with
  | nil => simp [find?]
  | cons entry rest ih =>
    obtain ⟨hhead, htail⟩ := List.pairwise_cons.1 h
    simp only [find?]
    split
    next heq =>
      constructor
      · intro hv
        have : entry = (key, value) := by
          cases entry
          simp_all
        exact this ▸ List.mem_cons_self
      · intro hm
        rcases List.mem_cons.1 hm with hm | hm
        · simp [← hm]
        · exact absurd (hhead _ hm) (by simp only [heq]; exact String.lt_irrefl _)
    next hne =>
      rw [ih htail]
      constructor
      · exact List.mem_cons_of_mem _
      · intro hm
        rcases List.mem_cons.1 hm with hm | hm
        · exact absurd (by rw [← hm]) hne
        · exact hm

theorem eq_of_find? {a b : List (String × α)} (ha : Ascending a) (hb : Ascending b)
    (h : ∀ key, find? key a = find? key b) : a = b := by
  induction a generalizing b with
  | nil =>
    cases b with
    | nil => rfl
    | cons e _ => exact absurd (h e.1) (by simp [find?])
  | cons x xs ih =>
    cases b with
    | nil => exact absurd (h x.1) (by simp [find?])
    | cons y ys =>
      obtain ⟨hx, hxs⟩ := List.pairwise_cons.1 ha
      obtain ⟨hy, hys⟩ := List.pairwise_cons.1 hb
      have hmem : ∀ key value, (key, value) ∈ x :: xs ↔ (key, value) ∈ y :: ys := by
        intro key value
        rw [← find?_eq_some ha, ← find?_eq_some hb, h]
      have hxy : x = y := by
        have h1 := (hmem x.1 x.2).1 List.mem_cons_self
        have h2 := (hmem y.1 y.2).2 List.mem_cons_self
        rcases List.mem_cons.1 h1 with h1 | h1
        · exact h1
        · rcases List.mem_cons.1 h2 with h2 | h2
          · exact h2.symm
          · exact absurd (String.lt_trans (hy _ h1) (hx _ h2)) (String.lt_irrefl _)
      subst hxy
      refine congrArg _ (ih hxs hys fun key => ?_)
      have hk := h key
      simp only [find?] at hk
      split at hk
      next heq =>
        rw [find?_eq_none fun e he => ?_, find?_eq_none fun e he => ?_]
        · intro h'
          have := hy e he
          rw [h', heq] at this
          exact String.lt_irrefl _ this
        · intro h'
          have := hx e he
          rw [h', heq] at this
          exact String.lt_irrefl _ this
      · exact hk

end Ascending

/-- A finite map from texts, its entries in ascending order of keys. -/
structure KeyMap (α : Type) where
  /-- The entries, in ascending order of their keys. -/
  entries : List (String × α)
  ascending : Ascending entries

namespace KeyMap

variable {α β : Type}

/-- The map without entries. -/
def empty : KeyMap α := ⟨[], List.Pairwise.nil⟩

instance : Inhabited (KeyMap α) := ⟨empty⟩

instance : EmptyCollection (KeyMap α) := ⟨empty⟩

instance [DecidableEq α] : DecidableEq (KeyMap α) := fun a b =>
  if h : a.entries = b.entries then
    isTrue (by cases a; cases b; cases h; rfl)
  else
    isFalse fun e => h (e ▸ rfl)

instance [Repr α] : Repr (KeyMap α) := ⟨fun m n => reprPrec m.entries n⟩

/-- The value held at a key. -/
def get? (m : KeyMap α) (key : String) : Option α := Ascending.find? key m.entries

/-- Whether the map has a value at a key. -/
def contains (m : KeyMap α) (key : String) : Bool := (m.get? key).isSome

/-- The number of keys. -/
def size (m : KeyMap α) : Nat := m.entries.length

/-- Whether the map has no key. -/
def isEmpty (m : KeyMap α) : Bool := m.entries.isEmpty

/-- The keys, in ascending order. -/
def keys (m : KeyMap α) : List String := m.entries.map (·.1)

/-- The map with `value` at `key`. -/
def insert (m : KeyMap α) (key : String) (value : α) : KeyMap α :=
  ⟨Ascending.put key value m.entries, Ascending.put_ascending m.ascending⟩

/-- The map without `key`. -/
def erase (m : KeyMap α) (key : String) : KeyMap α :=
  ⟨m.entries.filter (·.1 ≠ key), List.Pairwise.filter _ m.ascending⟩

/-- The map that holds all entries of a list, the last one where keys repeat. -/
def ofList (entries : List (String × α)) : KeyMap α :=
  entries.foldl (fun m e => m.insert e.1 e.2) empty

/-- All entries of both maps, those of `upper` where both have a key. -/
def overlay (m upper : KeyMap α) : KeyMap α :=
  upper.entries.foldl (fun m e => m.insert e.1 e.2) m

@[simp] theorem get?_empty (key : String) : (empty : KeyMap α).get? key = none := rfl

/-- Look-ups determine the map. -/
theorem ext_get? {a b : KeyMap α} (h : ∀ key, a.get? key = b.get? key) : a = b := by
  have := Ascending.eq_of_find? a.ascending b.ascending h
  cases a
  cases b
  cases this
  rfl

@[simp] theorem get?_insert (m : KeyMap α) (key : String) (value : α) (k : String) :
    (m.insert key value).get? k = if key = k then some value else m.get? k :=
  Ascending.find?_put key value m.entries k

theorem get?_insert_self (m : KeyMap α) (key : String) (value : α) :
    (m.insert key value).get? key = some value := by
  simp

theorem get?_insert_of_ne (m : KeyMap α) {key k : String} (value : α) (h : key ≠ k) :
    (m.insert key value).get? k = m.get? k := by
  simp [h]

theorem get?_eq_some_iff {m : KeyMap α} {key : String} {value : α} :
    m.get? key = some value ↔ (key, value) ∈ m.entries :=
  Ascending.find?_eq_some m.ascending

@[simp] theorem get?_erase (m : KeyMap α) (key k : String) :
    (m.erase key).get? k = if key = k then none else m.get? k := by
  apply Option.ext
  intro value
  rw [get?_eq_some_iff]
  by_cases h : key = k
  · simp [erase, h]
  · have h' : ¬ k = key := fun e => h e.symm
    simp [erase, h, h', get?_eq_some_iff]

theorem mem_keys {m : KeyMap α} {key : String} : key ∈ m.keys ↔ m.contains key = true := by
  simp only [keys, List.mem_map, contains, Option.isSome_iff_exists]
  constructor
  · rintro ⟨e, he, rfl⟩
    exact ⟨e.2, get?_eq_some_iff.2 he⟩
  · rintro ⟨v, hv⟩
    exact ⟨_, get?_eq_some_iff.1 hv, rfl⟩

theorem keys_ascending (m : KeyMap α) : m.keys.Pairwise (· < ·) := by
  rw [keys, List.pairwise_map]
  exact m.ascending

theorem get?_foldl_insert (entries : List (String × α)) (m : KeyMap α) (k : String)
    (h : Ascending entries) :
    (entries.foldl (fun m e => m.insert e.1 e.2) m).get? k =
      (Ascending.find? k entries).or (m.get? k) := by
  induction entries generalizing m with
  | nil => simp [Ascending.find?]
  | cons e rest ih =>
    obtain ⟨hhead, htail⟩ := List.pairwise_cons.1 h
    simp only [List.foldl_cons, Ascending.find?]
    rw [ih _ htail, get?_insert]
    by_cases hk : e.1 = k
    · rw [Ascending.find?_eq_none fun e' he' h' => ?_]
      · simp [hk]
      · have := hhead e' he'
        rw [h', hk] at this
        exact String.lt_irrefl _ this
    · simp [hk]

/-- A look-up in an overlaid map asks the upper map first. -/
theorem get?_overlay (m upper : KeyMap α) (k : String) :
    (m.overlay upper).get? k = (upper.get? k).or (m.get? k) :=
  get?_foldl_insert upper.entries m k upper.ascending

@[simp] theorem overlay_empty (m : KeyMap α) : m.overlay empty = m := rfl

end KeyMap

end Coordination
