import NodeAdmission.Json.Token
import NodeAdmission.Proofs.Json.Grammar
/-!
# Tokens from their texts

The first token of a text is the one that a prefix of it spells. For strings this needs nothing of
the rest of the text, since a string has a last quote. For numerals it needs that the rest does not
go on with the numeral (`Token.Delimited`).
-/

namespace NodeAdmission.Json.Token

/-! ## Strings -/

theorem hexDigit?_of_isHexDigit {d : ℕ} {c : Char} (h : IsHexDigit d c) :
    Text.hexDigit? c = some d := by
  have hall : ∀ d < 16, Text.hexDigit? (Nat.digitChar d) = some d ∧
      Text.hexDigit? (Nat.digitChar d).toUpper = some d := by decide
  obtain ⟨hd, rfl | rfl⟩ := h
  · exact (hall d hd).1
  · exact (hall d hd).2

theorem shortEscape?_of_mem {letter c : Char} (h : (letter, c) ∈ shortEscapes) :
    letter ≠ 'u' ∧ shortEscape? letter = some c := by
  have hall : ∀ e ∈ shortEscapes, e.1 ≠ 'u' ∧ shortEscape? e.1 = some e.2 := by decide
  exact hall _ h

/-- The units between two quotes are read up to the second quote. -/
theorem stringUnits?_append {units : List ℕ} {text : List Char} (h : SpellsUnits units text)
    (newest : List ℕ) (rest : List Char) :
    stringUnits? newest (text ++ '"' :: rest) = some (newest.reverse ++ units, rest) := by
  induction h generalizing newest with
  | nil => simp [stringUnits?]
  | plain hcontrol hquote hbackslash h ih =>
    simp [stringUnits?, hbackslash, Nat.not_lt.mpr hcontrol, ih]
  | short hshort h ih =>
    obtain ⟨hu, hletter⟩ := shortEscape?_of_mem hshort
    simp [stringUnits?, hu, hletter, ih]
  | hex ha hb hc hd h ih =>
    simp [stringUnits?, fourDigits?, hexDigit?_of_isHexDigit ha, hexDigit?_of_isHexDigit hb,
      hexDigit?_of_isHexDigit hc, hexDigit?_of_isHexDigit hd, ih]

theorem toNat_lt (c : Char) : c.toNat < 0x110000 := by
  have hvalid : c.toNat < 0xd800 ∨ 0xdfff < c.toNat ∧ c.toNat < 0x110000 := c.valid
  omega

theorem not_isSurrogate (c : Char) :
    isHighSurrogate c.toNat = false ∧ isLowSurrogate c.toNat = false := by
  have hvalid : c.toNat < 0xd800 ∨ 0xdfff < c.toNat ∧ c.toNat < 0x110000 := c.valid
  simp only [isHighSurrogate, isLowSurrogate, Bool.and_eq_false_iff, decide_eq_false_iff_not]
  omega

theorem characters?_cons_char (c : Char) (units : List ℕ) :
    characters? (c.toNat :: units) = (characters? units).map (c :: ·) := by
  obtain ⟨hhigh, hlow⟩ := not_isSurrogate c
  cases units with
  | nil => simp [characters?, hhigh, hlow]
  | cons low units => simp [characters?, hhigh, hlow]

theorem characters?_of_isUnits {cs : List Char} {units : List ℕ} (h : IsUnits cs units) :
    characters? units = some cs := by
  induction h with
  | nil => rfl
  | one c h ih => rw [characters?_cons_char, ih, Option.map_some]
  | @pair cs units c hc h ih =>
    have hlt := toNat_lt c
    have hhigh : isHighSurrogate (0xd800 + (c.toNat - 0x1_0000) / 0x400) = true := by
      simp only [isHighSurrogate, Bool.and_eq_true, decide_eq_true_eq]
      omega
    have hlow : isLowSurrogate (0xdc00 + (c.toNat - 0x1_0000) % 0x400) = true := by
      simp only [isLowSurrogate, Bool.and_eq_true, decide_eq_true_eq]
      omega
    have hback : 0x10000 + (0xd800 + (c.toNat - 0x1_0000) / 0x400 - 0xd800) * 0x400 +
        (0xdc00 + (c.toNat - 0x1_0000) % 0x400 - 0xdc00) = c.toNat := by
      omega
    rw [characters?, if_pos hhigh, if_pos hlow, ih, hback, Option.map_some, Char.ofNat_toNat]

theorem toNat_ofNat {n : ℕ} (h : n.isValidChar) : (Char.ofNat n).toNat = n := by
  rw [Char.ofNat, dif_pos h]
  rfl

/-- A unit that is no surrogate is the character it numbers. -/
theorem toNat_ofNat_unit {unit : ℕ} (hlt : unit < 0x110000)
    (hhigh : ¬isHighSurrogate unit = true) (hlow : ¬isLowSurrogate unit = true) :
    (Char.ofNat unit).toNat = unit := by
  simp only [isHighSurrogate, isLowSurrogate, Bool.and_eq_true, decide_eq_true_eq] at hhigh hlow
  refine toNat_ofNat ?_
  rw [Nat.isValidChar]
  omega

/-- Two halves of a surrogate pair are those of the character that the pair numbers. -/
theorem isUnits_pair {high low : ℕ} {cs : List Char} {units : List ℕ}
    (hhigh : isHighSurrogate high = true) (hlow : isLowSurrogate low = true)
    (h : IsUnits cs units) :
    IsUnits (Char.ofNat (0x10000 + (high - 0xd800) * 0x400 + (low - 0xdc00)) :: cs)
      (high :: low :: units) := by
  simp only [isHighSurrogate, isLowSurrogate, Bool.and_eq_true, decide_eq_true_eq] at hhigh hlow
  obtain ⟨i, rfl⟩ := Nat.exists_eq_add_of_le hhigh.1
  obtain ⟨j, rfl⟩ := Nat.exists_eq_add_of_le hlow.1
  have hc : (Char.ofNat (0x10000 + i * 0x400 + j)).toNat = 0x10000 + i * 0x400 + j := by
    refine toNat_ofNat ?_
    rw [Nat.isValidChar]
    omega
  have hunits := IsUnits.pair (c := Char.ofNat (0x10000 + i * 0x400 + j)) (by omega) h
  have hi : (0x10000 + i * 0x400 + j - 0x10000) / 0x400 = i := by omega
  have hj : (0x10000 + i * 0x400 + j - 0x10000) % 0x400 = j := by omega
  rw [hc, hi, hj] at hunits
  rwa [Nat.add_sub_cancel_left, Nat.add_sub_cancel_left]

theorem isUnits_of_characters? {units : List ℕ} (hlt : ∀ unit ∈ units, unit < 0x110000)
    {cs : List Char} (h : characters? units = some cs) : IsUnits cs units := by
  fun_induction characters? units generalizing cs with
  | case1 =>
    cases h
    exact .nil
  | case2 high low units hhigh hlow ih =>
    obtain ⟨cs, hcs, rfl⟩ := Option.map_eq_some_iff.mp h
    simp only [List.forall_mem_cons] at hlt
    exact isUnits_pair hhigh hlow (ih hlt.2.2 hcs)
  | case3 => nomatch h
  | case4 => nomatch h
  | case5 unit low units hhigh hlow ih =>
    obtain ⟨cs, hcs, rfl⟩ := Option.map_eq_some_iff.mp h
    obtain ⟨hunit, hlt⟩ := List.forall_mem_cons.mp hlt
    have hunits := IsUnits.one (Char.ofNat unit) (ih hlt hcs)
    rwa [toNat_ofNat_unit hunit hhigh hlow] at hunits
  | case6 => nomatch h
  | case7 unit hunit =>
    rw [Bool.or_eq_true, not_or] at hunit
    cases h
    have hunits := IsUnits.one (Char.ofNat unit) .nil
    rwa [toNat_ofNat_unit (hlt unit List.mem_cons_self) hunit.1 hunit.2] at hunits

theorem lt_of_spellsUnits {units : List ℕ} {text : List Char} (h : SpellsUnits units text) :
    ∀ unit ∈ units, unit < 0x110000 := by
  induction h with
  | nil => exact List.forall_mem_nil _
  | plain _ _ _ _ ih => exact List.forall_mem_cons.mpr ⟨toNat_lt _, ih⟩
  | short _ _ ih => exact List.forall_mem_cons.mpr ⟨toNat_lt _, ih⟩
  | hex ha hb hc hd _ ih =>
    refine List.forall_mem_cons.mpr ⟨?_, ih⟩
    have := ha.1
    have := hb.1
    have := hc.1
    have := hd.1
    omega

theorem characters?_eq {content : Option (List Char)} {units : List ℕ} {text : List Char}
    (h : SpellsUnits units text) (hcontent : ∀ cs, content = some cs ↔ IsUnits cs units) :
    characters? units = content := by
  refine Option.ext fun cs ↦ ?_
  rw [hcontent]
  exact ⟨isUnits_of_characters? (lt_of_spellsUnits h), characters?_of_isUnits⟩

/-! ## Numerals -/

/-- A numeral cannot go on into the text. -/
def Delimited (rest : List Char) : Prop :=
  ∀ c ∈ rest.head?, c.isDigit = false ∧ c ≠ '.' ∧ c ≠ 'e' ∧ c ≠ 'E'

theorem digitRun?_append {run rest : List Char} (hrun : IsDigits run)
    (hrest : ∀ c ∈ rest.head?, c.isDigit = false) : digitRun? (run ++ rest) = some (run, rest) := by
  obtain ⟨hne, hdigits⟩ := hrun
  have htake : (run ++ rest).takeWhile Char.isDigit = run := by
    rw [List.takeWhile_append_of_pos hdigits]
    cases rest with
    | nil => rw [List.takeWhile_nil, List.append_nil]
    | cons c rest => rw [List.takeWhile_cons_of_neg (by simp [hrest c rfl]), List.append_nil]
  have hdrop : (run ++ rest).dropWhile Char.isDigit = rest := by
    rw [List.dropWhile_append_of_pos hdigits]
    cases rest with
    | nil => rfl
    | cons c rest => exact List.dropWhile_cons_of_neg (by simp [hrest c rfl])
  simp [digitRun?, htake, hdrop, hne]

theorem wholePart?_append {whole rest : List Char} (hwhole : IsWhole whole)
    (hrest : ∀ c ∈ rest.head?, c.isDigit = false) :
    wholePart? (whole ++ rest) = some (whole, rest) := by
  obtain ⟨hdigits, hzero⟩ := hwhole
  unfold wholePart?
  split
  · next heq =>
    obtain ⟨c, cs, rfl⟩ := List.exists_cons_of_ne_nil hdigits.1
    cases heq
    obtain ⟨-, rfl⟩ := List.cons.inj (hzero rfl)
    rfl
  · exact digitRun?_append hdigits hrest

theorem fraction?_append {fraction rest : List Char} (hfraction : IsFraction fraction)
    (hrest : ∀ c ∈ rest.head?, c.isDigit = false ∧ c ≠ '.') :
    fraction? (fraction ++ rest) = some (fraction, rest) := by
  obtain rfl | ⟨run, rfl, hrun⟩ := hfraction
  · rw [List.nil_append]
    unfold fraction?
    split
    · exact absurd rfl (hrest '.' rfl).2
    · rfl
  · simp [fraction?, digitRun?_append hrun fun c hc ↦ (hrest c hc).1]

theorem exponent?_append {exponent rest : List Char} (hexponent : IsExponent exponent)
    (hrest : ∀ c ∈ rest.head?, c.isDigit = false ∧ c ≠ 'e' ∧ c ≠ 'E') :
    exponent? (exponent ++ rest) = some (exponent, rest) := by
  obtain rfl | ⟨letter, sign, run, rfl, hletter, hsign, hrun⟩ := hexponent
  · cases rest with
    | nil => rfl
    | cons c rest => simp [exponent?, (hrest c rfl).2]
  · have hrun' := digitRun?_append hrun fun c hc ↦ (hrest c hc).1
    obtain rfl | rfl | rfl := hsign
    · -- The first digit is no sign, so none is taken off.
      obtain ⟨d, run, rfl⟩ := List.exists_cons_of_ne_nil hrun.1
      have hd := hrun.2 d List.mem_cons_self
      have hplus : d ≠ '+' := by rintro rfl; exact absurd hd (by decide)
      have hminus : d ≠ '-' := by rintro rfl; exact absurd hd (by decide)
      rw [List.cons_append] at hrun'
      simp [exponent?, hletter, hplus, hminus, hrun']
    · simp [exponent?, hletter, hrun']
    · simp [exponent?, hletter, hrun']

/-- The parts of a numeral are taken off one after the other. -/
theorem numeral?_append {sign whole fraction exponent rest : List Char}
    (hsign : sign = [] ∨ sign = ['-']) (hwhole : IsWhole whole) (hfraction : IsFraction fraction)
    (hexponent : IsExponent exponent) (hrest : Delimited rest) :
    numeral? (sign ++ whole ++ fraction ++ exponent ++ rest) =
      if sign = [] ∧ fraction = [] ∧ exponent = [] then
        some (.natural (Text.decimalValue whole), rest)
      else some (.numeral (sign ++ whole ++ fraction ++ exponent), rest) := by
  have hexponent' := exponent?_append hexponent fun c hc ↦ ⟨(hrest c hc).1, (hrest c hc).2.2⟩
  -- What stands behind the fraction starts with the letter of the exponent, or is the rest.
  have hhead : ∀ c ∈ (exponent ++ rest).head?, c.isDigit = false ∧ c ≠ '.' := by
    obtain rfl | ⟨letter, sign, run, rfl, rfl | rfl, -⟩ := hexponent
    · exact fun c hc ↦ ⟨(hrest c hc).1, (hrest c hc).2.1⟩
    · simp
    · simp
  have hfraction' := fraction?_append hfraction hhead
  have hhead' : ∀ c ∈ (fraction ++ (exponent ++ rest)).head?, c.isDigit = false := by
    obtain rfl | ⟨run, rfl, -⟩ := hfraction
    · exact fun c hc ↦ (hhead c hc).1
    · simp
  have hwhole' := wholePart?_append hwhole hhead'
  have hdigits := Text.digits?_eq_some_iff.mpr ⟨hwhole.1.1, hwhole.1.2, rfl⟩
  obtain rfl | rfl := hsign
  · obtain ⟨c, cs, rfl⟩ := List.exists_cons_of_ne_nil hwhole.1.1
    have hminus : c ≠ '-' := by
      rintro rfl
      exact absurd (hwhole.1.2 '-' List.mem_cons_self) (by decide)
    rw [List.cons_append] at hwhole'
    simp [numeral?, hminus, hwhole', hfraction', hexponent', hdigits]
  · simp [numeral?, hwhole', hfraction', hexponent']

/-! ## First tokens -/

theorem first?_string {content : Option (List Char)} {units : List ℕ} {text : List Char}
    (h : SpellsUnits units text) (hcontent : ∀ cs, content = some cs ↔ IsUnits cs units)
    (rest : List Char) :
    first? ('"' :: text ++ ['"'] ++ rest) = some (scalar (.string content), rest) := by
  have hunits := stringUnits?_append h [] rest
  simp [first?, hunits, characters?_eq h hcontent]

/-- A text that starts as a numeral does can start with no other token. -/
theorem first?_eq_numeral? {c : Char} (hc : c.isDigit = true ∨ c = '-') (cs : List Char) :
    first? (c :: cs) = (numeral? (c :: cs)).map fun (v, rest) ↦ (scalar v, rest) := by
  unfold first?
  split
  case h_11 => rfl
  all_goals
    next heq =>
      cases heq
      exact absurd hc (by decide)

theorem first?_natural {run rest : List Char} (h : IsWhole run) (hrest : Delimited rest) :
    first? (run ++ rest) = some (scalar (.natural (Text.decimalValue run)), rest) := by
  have hnumeral := numeral?_append (.inl rfl) h (.inl rfl) (.inl rfl) hrest
  obtain ⟨c, cs, rfl⟩ := List.exists_cons_of_ne_nil h.1.1
  have hc := h.1.2 c List.mem_cons_self
  simp only [List.nil_append, List.append_nil, and_self, if_true] at hnumeral
  rw [List.cons_append] at hnumeral ⊢
  rw [first?_eq_numeral? (.inl hc), hnumeral, Option.map_some]

theorem first?_numeral {sign whole fraction exponent rest : List Char}
    (hsign : sign = [] ∨ sign = ['-']) (hwhole : IsWhole whole) (hfraction : IsFraction fraction)
    (hexponent : IsExponent exponent) (hplain : ¬(sign = [] ∧ fraction = [] ∧ exponent = []))
    (hrest : Delimited rest) :
    first? (sign ++ whole ++ fraction ++ exponent ++ rest) =
      some (scalar (.numeral (sign ++ whole ++ fraction ++ exponent)), rest) := by
  have hnumeral := numeral?_append hsign hwhole hfraction hexponent hrest
  rw [if_neg hplain] at hnumeral
  obtain ⟨c, cs, hcs, hc⟩ : ∃ c cs, sign ++ whole ++ fraction ++ exponent ++ rest = c :: cs ∧
      (c.isDigit = true ∨ c = '-') := by
    obtain rfl | rfl := hsign
    · obtain ⟨c, cs, rfl⟩ := List.exists_cons_of_ne_nil hwhole.1.1
      exact ⟨c, _, rfl, .inl (hwhole.1.2 c List.mem_cons_self)⟩
    · exact ⟨'-', _, rfl, .inr rfl⟩
  rw [hcs] at hnumeral ⊢
  rw [first?_eq_numeral? hc, hnumeral, Option.map_some]

end NodeAdmission.Json.Token
