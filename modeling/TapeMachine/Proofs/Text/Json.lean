import Mathlib.Tactic.Common
import TapeMachine.Text.Json

/-!
# Reading JSON text back

The writer and the reader of JSON text are inverse to each other on values without numbers. The
statements are about a written value with any text behind it, so that they compose: a string is read
back character by character (`readString_writeString`), and an array or an object is read back if
what it holds is (`Readable.array`, `Readable.object`). A value is `Readable` with some fuel and
some depth if it is read back with that much fuel or more.
-/

namespace TapeMachine.Text.Json

/-! ## Strings -/

/-- An element of a string's text that is joined to a character, whatever comes behind it. -/
def Stands (u : Unit16) (c : Char) : Prop :=
  ∀ us, joinUnits (u :: us) = c :: joinUnits us

/-- A character stands for itself. -/
lemma stands_char (c : Char) : Stands (.char c) c := by
  intro us
  rw [joinUnits]

/-- A character that is written as one unit is no half of a pair. -/
lemma stands_unit (c : Char) : Stands (.unit c.toNat) c := by
  have hvalid : c.toNat < 0xD800 ∨ 0xDFFF < c.toNat := by
    rcases c.valid with h | h
    · exact Or.inl h
    · exact Or.inr h.1
  have hhigh : isHigh c.toNat = false := by
    rw [isHigh, Bool.and_eq_false_iff, decide_eq_false_iff_not, decide_eq_false_iff_not]
    omega
  have hlow : isLow c.toNat = false := by
    rw [isLow, Bool.and_eq_false_iff, decide_eq_false_iff_not, decide_eq_false_iff_not]
    omega
  intro us
  rcases us with _ | ⟨_ | _, us⟩ <;>
    simp [joinUnits, hhigh, hlow]

section Units

variable {rest t : List Char} {us : List Unit16}

/-- A character that needs no escape is read as it stands. -/
lemma readUnits_plain {c : Char} (hquote : c ≠ '"') (hbackslash : c ≠ '\\') (hc : 0x20 ≤ c.toNat)
    (h : readUnits rest = some (us, t)) : readUnits (c :: rest) = some (.char c :: us, t) := by
  have hcontrol : ¬ c.toNat < 0x20 := by omega
  rw [readUnits.eq_def]
  simp [hquote, hbackslash, hcontrol, h]

/-- An escaped letter is read as the character that it stands for. -/
lemma readUnits_letter {e c : Char} (he : unescapeLetter? e = some c)
    (h : readUnits rest = some (us, t)) :
    readUnits ('\\' :: e :: rest) = some (.char c :: us, t) := by
  have hu : e ≠ 'u' := by
    rintro rfl
    cases he
  rw [readUnits.eq_def]
  simp [hu, he, h]

/-- The number that four hexadecimal digits stand for. -/
def fourDigits? : List Char → Option ℕ
  | [a, b, c, d] => hex4? a b c d
  | _ => none

/-- Of the characters that are written by their number, the digits are read as that number. -/
lemma fourDigits?_hex {n : ℕ} (h : n < 64 ∨ n = 0x2028 ∨ n = 0x2029) :
    fourDigits? (hex 4 n) = some n := by
  have hsmall : ∀ n < 64, fourDigits? (hex 4 n) = some n := by decide
  rcases h with h | rfl | rfl
  · exact hsmall n h
  · decide
  · decide

/-- Four digits behind an escape are read as one unit. -/
lemma readUnits_digits {ds : List Char} {n : ℕ} (hds : fourDigits? ds = some n)
    (h : readUnits rest = some (us, t)) :
    readUnits ('\\' :: 'u' :: (ds ++ rest)) = some (.unit n :: us, t) := by
  unfold fourDigits? at hds
  split at hds
  · rw [readUnits.eq_def]
    simp [hds, h]
  · cases hds

/-- The three ways in which a character is written: as a letter that stands for it, by its number,
or as it is. -/
lemma escapeChar_cases (page : Bool) (c : Char) :
    (∃ e, escapeChar page c = ['\\', e] ∧ unescapeLetter? e = some c) ∨
    (escapeChar page c = '\\' :: 'u' :: hex 4 c.toNat ∧
      (c.toNat < 64 ∨ c.toNat = 0x2028 ∨ c.toNat = 0x2029)) ∨
    (escapeChar page c = [c] ∧ c ≠ '"' ∧ c ≠ '\\' ∧ 0x20 ≤ c.toNat) := by
  have hofNat : ∀ n, c.toNat = n → Char.ofNat n = c := by
    rintro n rfl
    exact Char.ofNat_toNat c
  unfold escapeChar
  split
  · rename_i hc
    refine Or.inl ⟨c, rfl, ?_⟩
    rcases Bool.or_eq_true_iff.mp hc with hc | hc <;> rw [beq_iff_eq.mp hc] <;> rfl
  rename_i hquote
  split
  · rename_i hc
    exact Or.inl ⟨'n', rfl, by rw [beq_iff_eq.mp hc]; rfl⟩
  split
  · rename_i hc
    exact Or.inl ⟨'r', rfl, by rw [beq_iff_eq.mp hc]; rfl⟩
  split
  · rename_i hc
    exact Or.inl ⟨'t', rfl, by rw [beq_iff_eq.mp hc]; rfl⟩
  split
  · rename_i hc
    exact Or.inl ⟨'b', rfl, congrArg some (hofNat 8 (beq_iff_eq.mp hc))⟩
  split
  · rename_i hc
    exact Or.inl ⟨'f', rfl, congrArg some (hofNat 12 (beq_iff_eq.mp hc))⟩
  simp only [Bool.or_eq_true, Bool.and_eq_true, beq_iff_eq, decide_eq_true_eq, not_or] at hquote ⊢
  split
  · rename_i hc
    refine Or.inr (Or.inl ⟨rfl, ?_⟩)
    rcases hc with ((hc | hc) | hc) | ⟨-, (rfl | rfl) | rfl⟩
    · omega
    · exact Or.inr (Or.inl hc)
    · exact Or.inr (Or.inr hc)
    · decide
    · decide
    · decide
  · rename_i hc
    exact Or.inr (Or.inr ⟨rfl, hquote.1, hquote.2, by omega⟩)

/-- A written character is read as an element that stands for it. -/
lemma exists_readUnits_escapeChar (page : Bool) (c : Char) :
    ∃ u, Stands u c ∧ ∀ rest us t, readUnits rest = some (us, t) →
      readUnits (escapeChar page c ++ rest) = some (u :: us, t) := by
  rcases escapeChar_cases page c with ⟨e, he, hletter⟩ | ⟨he, hn⟩ | ⟨he, hquote, hbackslash, hc⟩
  · refine ⟨.char c, stands_char c, fun rest us t h => ?_⟩
    rw [he]
    exact readUnits_letter hletter h
  · refine ⟨.unit c.toNat, stands_unit c, fun rest us t h => ?_⟩
    rw [he]
    exact readUnits_digits (fourDigits?_hex hn) h
  · refine ⟨.char c, stands_char c, fun rest us t h => ?_⟩
    rw [he]
    exact readUnits_plain hquote hbackslash hc h

/-- A written string is read back, and the reading stops behind its closing quote. -/
theorem readString_writeString (page : Bool) (s rest : List Char) :
    readString (s.flatMap (escapeChar page) ++ '"' :: rest) = some (s, rest) := by
  have hunits : ∃ us, readUnits (s.flatMap (escapeChar page) ++ '"' :: rest) = some (us, rest) ∧
      joinUnits us = s := by
    induction s with
    | nil =>
      refine ⟨[], ?_, by rw [joinUnits]⟩
      rw [List.flatMap_nil, List.nil_append, readUnits.eq_def]
      simp
    | cons c s ih =>
      obtain ⟨us, hread, hjoin⟩ := ih
      obtain ⟨u, hu, hchar⟩ := exists_readUnits_escapeChar page c
      refine ⟨u :: us, ?_, ?_⟩
      · rw [List.flatMap_cons, List.append_assoc]
        exact hchar _ us rest hread
      · rw [hu, hjoin]
  obtain ⟨us, hread, hjoin⟩ := hunits
  rw [readString, hread]
  exact congrArg (fun s => some (s, rest)) hjoin

end Units

/-! ## Values -/

/-- A value that is read back with at least so much fuel and exactly so much depth left, whatever
text is behind it. What it starts with is neither white space nor the end of an array. -/
structure Readable (page : Bool) (fuel depth : ℕ) (v : Json) : Prop where
  opens : ∃ c cs, v.write page = c :: cs ∧ isGap c = false ∧ c ≠ ']'
  reads : ∀ n, fuel ≤ n → ∀ rest, readValue n depth (v.write page ++ rest) = some (v, rest)

section Values

variable {page : Bool} {fuel depth : ℕ}

/-- White space is skipped up to the first character that is none. -/
lemma skipGap_cons {c : Char} (h : isGap c = false) (cs : List Char) :
    skipGap (c :: cs) = c :: cs := by
  rw [skipGap, List.dropWhile_cons_of_neg (by simp [h])]

/-- Strings are read back. -/
theorem readable_string (page : Bool) (depth : ℕ) (s : String) :
    Readable page 1 depth (.string s) := by
  constructor
  · exact ⟨'"', _, by rw [write, writeString]; rfl, by decide, by decide⟩
  · intro n hn rest
    obtain ⟨n, rfl⟩ : ∃ k, n = k + 1 := Nat.exists_eq_add_one.mpr hn
    rw [write, writeString, List.cons_append, List.cons_append, List.append_assoc,
      List.singleton_append, readValue, skipGap_cons (by decide)]
    simp only [beq_self_eq_true, if_true, readString_writeString, Option.map_some,
      String.ofList_toList]

/-- The items of an array are read back up to its closing bracket, with fuel for each. -/
lemma readItems_writeItems {vs : List Json} (hvs : vs ≠ [])
    (h : ∀ v ∈ vs, Readable page fuel depth v) {n : ℕ} (hn : fuel + vs.length ≤ n)
    (rest : List Char) :
    readItems n depth (writeItems page vs ++ ']' :: rest) = some (vs, rest) := by
  induction vs generalizing n with
  | nil => exact absurd rfl hvs
  | cons v vs ih =>
    obtain ⟨n, rfl⟩ : ∃ k, n = k + 1 := Nat.exists_eq_add_one.mpr (by
      rw [List.length_cons] at hn
      omega)
    rw [List.length_cons] at hn
    have hv := (h v List.mem_cons_self).reads n (by omega)
    cases vs with
    | nil =>
      rw [writeItems, readItems, hv]
      simp only [skipGap_cons (show isGap ']' = false by decide)]
    | cons w vs =>
      have hrest := ih (by simp) (fun v hv => h v (List.mem_cons_of_mem _ hv)) (n := n) (by omega)
      rw [writeItems, List.append_assoc, List.cons_append, readItems, hv]
      simp only [skipGap_cons (show isGap ',' = false by decide), hrest]

/-- An array is read back if its items are. -/
theorem Readable.array {vs : List Json} (h : ∀ v ∈ vs, Readable page fuel depth v) :
    Readable page (fuel + vs.length + 1) (depth + 1) (.array vs) := by
  constructor
  · exact ⟨'[', _, by rw [write]; rfl, by decide, by decide⟩
  · intro n hn rest
    obtain ⟨n, rfl⟩ : ∃ k, n = k + 1 := Nat.exists_eq_add_one.mpr (by omega)
    rw [write, List.cons_append, List.cons_append, List.append_assoc, List.singleton_append,
      readValue, skipGap_cons (by decide)]
    simp only [show ('[' == '"') = false by decide, Bool.false_eq_true, if_false, beq_self_eq_true,
      if_true, Nat.add_one_ne_zero, Nat.add_sub_cancel]
    cases vs with
    | nil =>
      rw [writeItems, List.nil_append, skipGap_cons (by decide)]
      rfl
    | cons v vs =>
      -- The first item does not look like the end of the array.
      obtain ⟨c, cs, hwrite, hgap, hclose⟩ := (h v List.mem_cons_self).opens
      obtain ⟨cs', hcs'⟩ : ∃ cs', writeItems page (v :: vs) ++ ']' :: rest = c :: cs' := by
        cases vs with
        | nil => exact ⟨_, by rw [writeItems, hwrite]; rfl⟩
        | cons w vs => exact ⟨_, by rw [writeItems, hwrite]; rfl⟩
      have hitems := readItems_writeItems (by simp) h (n := n) (by omega) rest
      rw [hcs'] at hitems ⊢
      rw [skipGap_cons hgap, hitems]
      split
      · rename_i heq
        cases heq
        exact absurd rfl hclose
      · rfl

/-- The members of an object are read back up to its closing brace, with fuel for each. -/
lemma readMembers_writeMembers {ms : List (String × Json)} (hms : ms ≠ [])
    (h : ∀ m ∈ ms, Readable page fuel depth m.2) {n : ℕ} (hn : fuel + ms.length ≤ n)
    (rest : List Char) :
    readMembers n depth (writeMembers page ms ++ '}' :: rest) = some (ms, rest) := by
  induction ms generalizing n with
  | nil => exact absurd rfl hms
  | cons m ms ih =>
    obtain ⟨k, v⟩ := m
    obtain ⟨n, rfl⟩ : ∃ k, n = k + 1 := Nat.exists_eq_add_one.mpr (by
      rw [List.length_cons] at hn
      omega)
    rw [List.length_cons] at hn
    have hv := (h (k, v) List.mem_cons_self).reads n (by omega)
    have hcolon : isGap ':' = false := by decide
    have hquote : isGap '"' = false := by decide
    cases ms with
    | nil =>
      have hclose : isGap '}' = false := by decide
      simp only [writeMembers, writeString, List.cons_append, List.append_assoc, List.nil_append]
      rw [readMembers, skipGap_cons hquote]
      simp only [readString_writeString, skipGap_cons hcolon, hv, skipGap_cons hclose,
        String.ofList_toList]
    | cons m ms =>
      have hcomma : isGap ',' = false := by decide
      have hrest := ih (by simp) (fun m hm => h m (List.mem_cons_of_mem _ hm)) (n := n) (by omega)
      simp only [writeMembers, writeString, List.cons_append, List.append_assoc, List.nil_append]
        at hrest ⊢
      rw [readMembers, skipGap_cons hquote]
      simp only [readString_writeString, skipGap_cons hcolon, hv, skipGap_cons hcomma, hrest,
        String.ofList_toList]

/-- An object with members is read back if their values are. -/
theorem Readable.object (fuel : ℕ) {ms : List (String × Json)} (hms : ms ≠ [])
    (h : ∀ m ∈ ms, Readable page fuel depth m.2) :
    Readable page (fuel + ms.length + 1) (depth + 1) (.object ms) := by
  constructor
  · exact ⟨'{', _, by rw [write]; rfl, by decide, by decide⟩
  · intro n hn rest
    obtain ⟨n, rfl⟩ : ∃ k, n = k + 1 := Nat.exists_eq_add_one.mpr (by omega)
    rw [write, List.cons_append, List.cons_append, List.append_assoc, List.singleton_append,
      readValue, skipGap_cons (by decide)]
    simp only [show ('{' == '"') = false by decide, show ('{' == '[') = false by decide,
      Bool.false_eq_true, if_false, beq_self_eq_true, if_true, Nat.add_one_ne_zero,
      Nat.add_sub_cancel]
    have hmembers := readMembers_writeMembers hms h (n := n) (by omega) rest
    -- A member starts with the quote of its name, not with a closing brace.
    obtain ⟨cs, hcs⟩ : ∃ cs, writeMembers page ms ++ '}' :: rest = '"' :: cs := by
      rcases ms with _ | ⟨m, _ | ⟨m', ms⟩⟩
      · exact absurd rfl hms
      · exact ⟨_, by rw [writeMembers, writeString]; rfl⟩
      · exact ⟨_, by rw [writeMembers, writeString]; rfl⟩
    rw [hcs] at hmembers ⊢
    rw [skipGap_cons (by decide), hmembers]
    rfl

/-- A value that is readable with the fuel and the depth of a reader is what it reads. -/
lemma readFirst_write {v : Json} {fuel : ℕ} (h : Readable true fuel maxDepth v)
    (hfuel : fuel ≤ 2 * (v.write true).length + 2) : readFirst (v.write true) = some (v, []) := by
  have hread := h.reads _ hfuel []
  rwa [List.append_nil] at hread

/-- The text of such a value says the value. -/
theorem parse?_render {v : Json} {fuel : ℕ} (h : Readable true fuel maxDepth v)
    (hfuel : fuel ≤ 2 * (v.write true).length + 2) : parse? v.render = some v := by
  rw [parse?, render, String.toList_ofList, readFirst_write h hfuel]
  rfl

@[inherit_doc parse?_render]
theorem parseFirst?_render {v : Json} {fuel : ℕ} (h : Readable true fuel maxDepth v)
    (hfuel : fuel ≤ 2 * (v.write true).length + 2) : parseFirst? v.render = some v := by
  rw [parseFirst?, render, String.toList_ofList, readFirst_write h hfuel]
  rfl

end Values

end TapeMachine.Text.Json
