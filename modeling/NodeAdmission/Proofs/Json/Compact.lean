import NodeAdmission.Proofs.Json.Parsing
/-!
# The compact text

The compact text of a value is one of its texts (`Json.Spells.spell`), so it is parsed to the value
again. The one condition is that the value has a text at all: a numeral that is kept as it is
written may hold any characters, and such a value need not have one.
-/

namespace NodeAdmission

/-! ## Numbers and truth values -/

namespace Text

theorem decimalValue_append_singleton (cs : List Char) (c : Char) :
    decimalValue (cs ++ [c]) = 10 * decimalValue cs + (c.toNat - '0'.toNat) := by
  simp only [decimalValue, List.reverse_append, List.reverse_cons, List.reverse_nil,
    List.nil_append, List.cons_append, List.map_cons, Nat.ofDigits_cons]
  exact Nat.add_comm _ _

theorem decimalValue_toDigits (n : ℕ) : decimalValue (Nat.toDigits 10 n) = n := by
  induction n using Nat.strong_induction_on with
  | _ n ih =>
    by_cases hn : n < 10
    · have hvalue := decimalValue_append_singleton [] (Nat.digitChar n)
      rw [Nat.toDigits_of_lt_base hn]
      simpa [Nat.toNat_digitChar_of_lt_ten hn] using hvalue
    · have hlast : n % 10 < 10 := Nat.mod_lt _ (by decide)
      rw [Nat.toDigits_of_base_le (by decide) (Nat.not_lt.mp hn), decimalValue_append_singleton,
        ih (n / 10) (by omega), Nat.toNat_digitChar_of_lt_ten hlast]
      simp only [Char.reduceToNat]
      omega

theorem eq_zero_of_head?_toDigits {n : ℕ} (h : (Nat.toDigits 10 n).head? = some '0') : n = 0 := by
  induction n using Nat.strong_induction_on with
  | _ n ih =>
    by_cases hn : n < 10
    · rw [Nat.toDigits_of_lt_base hn] at h
      exact Nat.digitChar_eq_zero.mp (Option.some.inj h)
    · rw [Nat.toDigits_of_base_le (by decide) (Nat.not_lt.mp hn),
        List.head?_append, Option.or_of_isSome (by simp [Nat.toDigits_ne_nil])] at h
      have := ih (n / 10) (by omega) h
      omega

end Text

namespace Json

theorem isWhole_toDigits (n : ℕ) : IsWhole (Nat.toDigits 10 n) := by
  refine ⟨⟨Nat.toDigits_ne_nil, fun c hc ↦ ?_⟩, fun hhead ↦ ?_⟩
  · exact Nat.isDigit_of_mem_toDigits (by decide) le_rfl hc
  · rw [Text.eq_zero_of_head?_toDigits hhead]
    rfl

theorem spells_natural (n : ℕ) : Spells (natural n) (natural n).spell := by
  have h := Spells.natural (isWhole_toDigits n)
  rw [Text.decimalValue_toDigits] at h
  rwa [spell]

theorem spells_bool (b : Bool) : Spells (bool b) (bool b).spell := by
  cases b <;> rw [spell]
  · exact .false
  · exact .true

/-! ## Strings -/

theorem IsUnits.unique {cs cs' : List Char} {units : List ℕ} (h : IsUnits cs units)
    (h' : IsUnits cs' units) : cs = cs' := Option.some.inj
  ((Token.characters?_of_isUnits h).symm.trans (Token.characters?_of_isUnits h'))

theorem isHexDigit_mod (n : ℕ) : IsHexDigit (n % 16) (Nat.digitChar (n % 16)) :=
  ⟨Nat.mod_lt _ (by decide), .inl rfl⟩

theorem spellsUnits_fourDigits {n : ℕ} (hn : n < 0x1_0000) {units : List ℕ} {text : List Char}
    (h : SpellsUnits units text) :
    SpellsUnits (n :: units) ('\\' :: 'u' :: fourDigits n ++ text) := by
  have hvalue :
      4096 * (n / 4096 % 16) + 256 * (n / 256 % 16) + 16 * (n / 16 % 16) + n % 16 = n := by omega
  have hhex := SpellsUnits.hex (isHexDigit_mod (n / 4096)) (isHexDigit_mod (n / 256))
    (isHexDigit_mod (n / 16)) (isHexDigit_mod n) h
  rwa [hvalue] at hhex

theorem spellsUnits_spellChar (c : Char) {units : List ℕ} {text : List Char}
    (h : SpellsUnits units text) : SpellsUnits (c.toNat :: units) (spellChar c ++ text) := by
  unfold spellChar
  split_ifs with hquote hbackslash hcontrol
  · subst hquote
    exact .short (by decide) h
  · subst hbackslash
    exact .short (by decide) h
  · exact spellsUnits_fourDigits (by omega) h
  · exact .plain (Nat.not_lt.mp hcontrol) hquote hbackslash h

theorem spells_string (content : Option (List Char)) :
    Spells (string content) (string content).spell := by
  cases content with
  | none =>
    -- The first half of a surrogate pair, alone, stands for no character.
    have hunits : SpellsUnits [0xd800] ('\\' :: 'u' :: fourDigits 0xd800 ++ []) :=
      spellsUnits_fourDigits (by decide) .nil
    refine .string hunits fun cs ↦ ⟨nofun, fun h ↦ ?_⟩
    have hnone : Token.characters? [0xd800] = none := rfl
    exact nomatch hnone.symm.trans (Token.characters?_of_isUnits h)
  | some cs =>
    have hunits : SpellsUnits (cs.map Char.toNat) (cs.flatMap spellChar) ∧
        IsUnits cs (cs.map Char.toNat) := by
      induction cs with
      | nil => exact ⟨.nil, .nil⟩
      | cons c cs ih => exact ⟨spellsUnits_spellChar c ih.1, .one c ih.2⟩
    rw [spell, spellString]
    refine .string hunits.1 fun cs' ↦ ⟨?_, fun h ↦ congrArg some (hunits.2.unique h)⟩
    rintro ⟨⟩
    exact hunits.2

/-! ## Arrays and objects -/

theorem spellItems_eq (items : List Json) :
    spellItems items = [','].intercalate (items.map spell) := by
  induction items with
  | nil => rfl
  | cons v vs ih =>
    cases vs with
    | nil => simp [spellItems]
    | cons w vs => simp [spellItems, ih]

theorem spellMembers_eq (members : List (Option (List Char) × Json)) :
    spellMembers members =
      [','].intercalate (members.map fun m ↦ spellString m.1 ++ ':' :: spell m.2) := by
  induction members with
  | nil => rfl
  | cons m ms ih =>
    cases ms with
    | nil => simp [spellMembers]
    | cons next ms => simp [spellMembers, ih]

theorem spells_array {items : List Json} (h : ∀ v ∈ items, Spells v v.spell) :
    Spells (array items) (array items).spell := by
  rw [spell, spellItems_eq]
  by_cases hne : items = []
  · subst hne
    exact .emptyArray (List.forall_mem_nil _)
  · let texts := items.map fun v ↦ (v, v.spell)
    have hspells : ∀ item ∈ texts, Spells item.1 item.2 := by simpa [texts] using h
    have harray := Spells.array (by simpa [texts] using hne) hspells
    simpa [texts, Function.comp_def] using harray

theorem spells_object {members : List (Option (List Char) × Json)}
    (h : ∀ m ∈ members, Spells m.2 m.2.spell) : Spells (object members) (object members).spell := by
  rw [spell, spellMembers_eq]
  by_cases hne : members = []
  · subst hne
    exact .emptyObject (List.forall_mem_nil _)
  · let texts : List MemberText := members.map fun m ↦ ⟨m.1, spellString m.1, m.2, m.2.spell⟩
    have hname : ∀ m ∈ texts, Spells (string m.name) m.nameText := by
      refine List.forall_mem_map.mpr fun m _ ↦ ?_
      simpa [spell] using spells_string m.1
    have hvalue : ∀ m ∈ texts, Spells m.value m.valueText := List.forall_mem_map.mpr h
    have hobject := Spells.object (by simpa [texts] using hne) hname hvalue
    simpa [texts, Function.comp_def, MemberText.toMember, MemberText.text] using hobject

/-- **The compact text of a value is one of its texts**, if it has any. -/
theorem Spells.spell {v : Json} {text : List Char} (h : Spells v text) : Spells v v.spell := by
  induction h with
  | null => rw [Json.spell]; exact .null
  | true => exact spells_bool _
  | false => exact spells_bool _
  | natural => exact spells_natural _
  | numeral hsign hwhole hfraction hexponent hplain =>
    rw [Json.spell]
    exact .numeral hsign hwhole hfraction hexponent hplain
  | string => exact spells_string _
  | emptyArray => exact spells_array (List.forall_mem_nil _)
  | array _ _ ih => exact spells_array (List.forall_mem_map.mpr ih)
  | emptyObject => exact spells_object (List.forall_mem_nil _)
  | object _ _ _ _ ih => exact spells_object (List.forall_mem_map.mpr ih)
  | padded _ _ _ ih => exact ih

/-- A value that was read from a text can be written and read again. -/
theorem parse?_spell {v : Json} {text : List Char} (h : Spells v text) :
    parse? v.spell = some v := parse?_of_spells h.spell

end Json

end NodeAdmission
