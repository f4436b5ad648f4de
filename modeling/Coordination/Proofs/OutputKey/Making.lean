import Coordination.OutputKey

/-!
# Keys made of names

The key of a sub-task without one of its own is its namespace and its name, set off by
an underscore, with an underscore in place of every character that is no ASCII letter,
digit or underscore (`OutputKey.toList_generate`). So it keeps to the policy for keys
unless it is too long or its namespace begins with a digit (`OutputKey.generate_policy`).

* `Identifier.isPart_iff`, `Identifier.isStart_iff_of_isWord`: the characters of
  identifiers, told by their ranges;
* `OutputKey.check_eq_ok_iff`: the policy for keys; `OutputKey.check_of_long` and
  `OutputKey.check_of_short` tell how a key that is not empty is refused.
-/

namespace Coordination

namespace Identifier

variable {c : Char}

/-- Whether a character is an ASCII letter. -/
def IsLetter (c : Char) : Prop := ('A' ≤ c ∧ c ≤ 'Z') ∨ ('a' ≤ c ∧ c ≤ 'z')

/-- Whether a character is an ASCII digit. -/
def IsDigit (c : Char) : Prop := '0' ≤ c ∧ c ≤ '9'

/-- Whether a character is an ASCII letter, an ASCII digit or an underscore. -/
def IsWord (c : Char) : Prop := IsLetter c ∨ IsDigit c ∨ c = '_'

instance : DecidablePred IsLetter := fun _ => inferInstanceAs (Decidable (_ ∨ _))

instance : DecidablePred IsDigit := fun _ => inferInstanceAs (Decidable (_ ∧ _))

instance : DecidablePred IsWord := fun _ => inferInstanceAs (Decidable (_ ∨ _))

theorem isLetter_iff_toNat :
    IsLetter c ↔ (65 ≤ c.toNat ∧ c.toNat ≤ 90) ∨ (97 ≤ c.toNat ∧ c.toNat ≤ 122) := by
  simp only [IsLetter, Char.le_def, UInt32.le_iff_toNat_le]
  exact Iff.rfl

theorem isDigit_iff_toNat : IsDigit c ↔ 48 ≤ c.toNat ∧ c.toNat ≤ 57 := by
  simp only [IsDigit, Char.le_def, UInt32.le_iff_toNat_le]
  exact Iff.rfl

theorem isStart_iff : isStart c = true ↔ IsLetter c ∨ c = '_' := by
  have hupper : c.isUpper = true ↔ 'A' ≤ c ∧ c ≤ 'Z' := decide_eq_true_iff
  have hlower : c.isLower = true ↔ 'a' ≤ c ∧ c ≤ 'z' := by
    rw [← decide_eq_true_iff (p := 'a' ≤ c), ← decide_eq_true_iff (p := c ≤ 'z')]
    exact Bool.and_eq_true_iff
  have hletter : c.isAlpha = true ↔ c.isUpper = true ∨ c.isLower = true := Bool.or_eq_true_iff
  rw [isStart, Bool.or_eq_true, hletter, hupper, hlower, beq_iff_eq, IsLetter]

theorem isPart_iff : isPart c = true ↔ IsWord c := by
  have hdigit : c.isDigit = true ↔ IsDigit c := by
    simp [Char.isDigit, IsDigit, Char.le_def]
  rw [isPart, Bool.or_eq_true, isStart_iff, hdigit, IsWord, or_assoc]
  exact or_congr_right or_comm

/-- Of the characters of identifiers all but the digits may start one. -/
theorem isStart_iff_of_isWord (h : IsWord c) : isStart c = true ↔ ¬ IsDigit c := by
  rw [isStart_iff]
  constructor
  · rintro (hletter | rfl) hdigit
    · rw [isLetter_iff_toNat] at hletter
      rw [isDigit_iff_toNat] at hdigit
      omega
    · exact absurd hdigit (by decide)
  · intro hdigit
    rcases h with hletter | hdigit' | hunderscore
    · exact .inl hletter
    · exact absurd hdigit' hdigit
    · exact .inr hunderscore

/-- Identifiers hold no characters outside of ASCII. -/
theorem not_isWord_of_lt (h : 127 < c.toNat) : ¬ IsWord c := by
  rintro (hletter | hdigit | rfl)
  · rw [isLetter_iff_toNat] at hletter
    omega
  · rw [isDigit_iff_toNat] at hdigit
    omega
  · exact absurd h (by decide)

/-- What consists of word characters is an identifier unless it begins with a digit, or is empty. -/
theorem isIdentifier_iff_of_isWord {chars : List Char} (h : ∀ c ∈ chars, IsWord c) :
    isIdentifier chars = true ↔ ∃ c ∈ chars.head?, ¬ IsDigit c := by
  cases chars with
  | nil => simp [isIdentifier]
  | cons first rest =>
    obtain ⟨hfirst, hrest⟩ := List.forall_mem_cons.1 h
    have hall : rest.all isPart = true := List.all_eq_true.2 fun c hc => isPart_iff.2 (hrest c hc)
    rw [isIdentifier, hall, Bool.and_true, isStart_iff_of_isWord hfirst]
    simp

end Identifier

namespace OutputKey

open Identifier (IsWord IsDigit)

variable {key text : String} {max : Nat}

/-! ## Checking -/

/-- A key with too many characters is refused, whatever they are. -/
theorem check_of_long (hkey : key ≠ "") (h : max < key.length) :
    check key max = .error (.keyTooLong key max) := by
  rw [check, if_neg (by simpa using hkey), String.length_toList, if_pos h]

/-- One with no more than allowed is refused if it is no identifier. -/
theorem check_of_short (hkey : key ≠ "") (h : key.length ≤ max) :
    check key max =
      if Identifier.isIdentifier key.toList then .ok () else .error (.invalidKey key) := by
  rw [check, if_neg (by simpa using hkey), String.length_toList, if_neg (Nat.not_lt.2 h)]

/-- A key is accepted if it is an identifier that is not too long. -/
theorem check_eq_ok_iff : check key max = .ok () ↔
    Identifier.isIdentifier key.toList = true ∧ key.length ≤ max := by
  by_cases hkey : key = ""
  · subst hkey
    simp [check, Identifier.isIdentifier]
  rcases Nat.lt_or_ge max key.length with hlong | hshort
  · simp [check_of_long hkey hlong, Nat.not_le.2 hlong]
  · simp [check_of_short hkey hshort, hshort]

/-! ## Making -/

theorem sanitizeChar_of_isWord {c : Char} (h : IsWord c) : sanitizeChar c = c := by
  rw [sanitizeChar, if_pos (Identifier.isPart_iff.2 h)]

theorem sanitizeChar_of_not_isWord {c : Char} (h : ¬ IsWord c) : sanitizeChar c = '_' := by
  rw [sanitizeChar, if_neg (mt Identifier.isPart_iff.1 h)]

theorem isWord_sanitizeChar (c : Char) : IsWord (sanitizeChar c) := by
  by_cases h : IsWord c
  · rwa [sanitizeChar_of_isWord h]
  · rw [sanitizeChar_of_not_isWord h]
    decide

/-- A character becomes a digit only if it is one. -/
theorem isDigit_sanitizeChar {c : Char} : IsDigit (sanitizeChar c) ↔ IsDigit c := by
  by_cases h : IsWord c
  · rw [sanitizeChar_of_isWord h]
  · rw [sanitizeChar_of_not_isWord h]
    exact ⟨fun hdigit => absurd hdigit (by decide), fun hdigit => absurd (.inr (.inl hdigit)) h⟩

/-- What is reduced to the characters of identifiers stays as it is. -/
theorem sanitize_of_isWord (h : ∀ c ∈ text.toList, IsWord c) : sanitize text = text := by
  have hsame : text.toList.map sanitizeChar = text.toList :=
    List.map_congr_left (g := id) (fun c hc => sanitizeChar_of_isWord (h c hc)) |>.trans
      (List.map_id _)
  rw [sanitize, hsame, String.ofList_toList]

theorem isWord_of_mem_sanitize {c : Char} (h : c ∈ (sanitize text).toList) : IsWord c := by
  rw [sanitize, String.toList_ofList] at h
  obtain ⟨d, -, rfl⟩ := List.mem_map.1 h
  exact isWord_sanitizeChar d

theorem sanitize_sanitize (text : String) : sanitize (sanitize text) = sanitize text :=
  sanitize_of_isWord fun _ => isWord_of_mem_sanitize

theorem sanitize_append (a b : String) : sanitize (a ++ b) = sanitize a ++ sanitize b := by
  simp [sanitize, String.ofList_append]

/-- A character that no key may hold is the same as an underscore. -/
theorem sanitize_singleton_of_not_isWord {c : Char} (h : ¬ IsWord c) :
    sanitize (String.singleton c) = sanitize "_" := by
  rw [sanitize, sanitize, String.toList_singleton, List.map_singleton, sanitizeChar_of_not_isWord h]
  rfl

variable («namespace» name : String)

/-- A made key, character by character. -/
theorem toList_generate : (generate «namespace» name).toList =
    («namespace» ++ "_" ++ name).toList.map sanitizeChar := by
  have hunderscore : sanitizeChar '_' = '_' := rfl
  simp [generate, sanitize, hunderscore]

theorem isWord_of_mem_generate {c : Char} (h : c ∈ (generate «namespace» name).toList) :
    IsWord c := by
  rw [toList_generate] at h
  obtain ⟨d, -, rfl⟩ := List.mem_map.1 h
  exact isWord_sanitizeChar d

theorem length_generate :
    (generate «namespace» name).length = «namespace».length + 1 + name.length := by
  rw [← String.length_toList, toList_generate, List.length_map, String.length_toList,
    String.length_append, String.length_append]
  rfl

theorem generate_ne_empty : generate «namespace» name ≠ "" := by
  intro h
  have hlength := length_generate «namespace» name
  rw [h, String.length_empty] at hlength
  omega

/-- Whether the first character of a text is an ASCII digit. -/
def BeginsWithDigit (text : String) : Prop := ∃ c ∈ text.toList.head?, IsDigit c

/-- A made key is an identifier unless its namespace begins with a digit. -/
theorem isIdentifier_generate :
    Identifier.isIdentifier (generate «namespace» name).toList = true ↔
      ¬ BeginsWithDigit «namespace» := by
  rw [Identifier.isIdentifier_iff_of_isWord fun _ => isWord_of_mem_generate «namespace» name,
    toList_generate, BeginsWithDigit, String.toList_append, String.toList_append, List.append_assoc]
  cases «namespace».toList with
  | nil =>
    have hunderscore : ¬ IsDigit '_' := by decide
    simp [isDigit_sanitizeChar, hunderscore]
  | cons first rest => simp [isDigit_sanitizeChar]

/-- Made keys see no difference between a character that no key may hold and an underscore. -/
theorem generate_of_not_isWord (front back : String) {c : Char} (h : ¬ IsWord c) :
    generate (front ++ String.singleton c ++ back) name = generate (front ++ "_" ++ back) name ∧
      generate «namespace» (front ++ String.singleton c ++ back) =
        generate «namespace» (front ++ "_" ++ back) := by
  have hsame : sanitize (front ++ String.singleton c ++ back) =
      sanitize (front ++ "_" ++ back) := by
    simp only [sanitize_append, sanitize_singleton_of_not_isWord h]
  exact ⟨by rw [generate, generate, hsame], by rw [generate, generate, hsame]⟩

/-- A made key consists of word characters only, as many as its namespace and its name have
and one more: these with an underscore in place of whatever is no word character. It is the
same if they are reduced to word characters before, which once is enough for. It keeps to the
policy exactly if it is not too long and its namespace does not begin with a digit; too many
characters are reported before a wrong first one, and it is never empty. A character outside
of ASCII does what an underscore does in its place. -/
theorem generate_policy :
    (∀ c ∈ (generate «namespace» name).toList, IsWord c) ∧
    (generate «namespace» name).length = «namespace».length + 1 + name.length ∧
    (generate «namespace» name).toList =
      («namespace» ++ "_" ++ name).toList.map (fun c => if IsWord c then c else '_') ∧
    (∀ text, sanitize (sanitize text) = sanitize text) ∧
    generate (sanitize «namespace») (sanitize name) = generate «namespace» name ∧
    (∀ max, (check (generate «namespace» name) max = .ok () ↔
        «namespace».length + 1 + name.length ≤ max ∧ ¬ BeginsWithDigit «namespace») ∧
      (check (generate «namespace» name) max =
          .error (.keyTooLong (generate «namespace» name) max) ↔
        max < «namespace».length + 1 + name.length) ∧
      (check (generate «namespace» name) max =
          .error (.invalidKey (generate «namespace» name)) ↔
        «namespace».length + 1 + name.length ≤ max ∧ BeginsWithDigit «namespace») ∧
      check (generate «namespace» name) max ≠ .error .emptyKey) ∧
    ∀ front back c, 127 < c.toNat →
      generate (front ++ String.singleton c ++ back) name = generate (front ++ "_" ++ back) name ∧
      generate «namespace» (front ++ String.singleton c ++ back) =
        generate «namespace» (front ++ "_" ++ back) := by
  refine ⟨fun _ => isWord_of_mem_generate _ _, length_generate .., ?_, sanitize_sanitize, ?_,
    fun max => ?_, fun front back c hc =>
      generate_of_not_isWord _ _ front back (Identifier.not_isWord_of_lt hc)⟩
  · rw [toList_generate]
    refine List.map_congr_left fun c _ => ?_
    split
    next hword => exact sanitizeChar_of_isWord hword
    next hword => exact sanitizeChar_of_not_isWord hword
  · rw [generate, generate, sanitize_sanitize, sanitize_sanitize]
  · have hkey := generate_ne_empty «namespace» name
    have hidentifier := isIdentifier_generate «namespace» name
    rw [← length_generate]
    rcases Nat.lt_or_ge max (generate «namespace» name).length with hlong | hshort
    · rw [check_of_long hkey hlong]
      simp [hlong, Nat.not_le.2 hlong]
    · rw [check_of_short hkey hshort]
      by_cases hdigit : BeginsWithDigit «namespace»
      · rw [if_neg fun h => hidentifier.1 h hdigit]
        simp [hdigit, hshort, Nat.not_lt.2 hshort]
      · rw [if_pos (hidentifier.2 hdigit)]
        simp [hdigit, hshort, Nat.not_lt.2 hshort]

-- Too long and with a digit in front, and just with the digit.
example : check (generate "2nd" "stop") 7 = .error (.keyTooLong "2nd_stop" 7) ∧
    check (generate "2nd" "stop") 8 = .error (.invalidKey "2nd_stop") := ⟨rfl, rfl⟩

end OutputKey

end Coordination
