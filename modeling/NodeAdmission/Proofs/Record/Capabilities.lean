import NodeAdmission.Record.Capabilities
/-!
# Two readings of a config

A ping is judged by the strict reading of its config, and the lenient reading is what is noted in
its record. They take the config apart in different orders: the strict one takes the first token and
then drops empty ones, the lenient one drops empty tokens and then takes the first.

Where the strict reading accepts, its first token is a version and so is not empty. Dropping empty
tokens leaves it the first, and the two readings agree (`parseLenient_of_parse`).

Conversely the lenient reading finds a version where the strict one finds none only behind a
delimiter at the start, in front of which the strict one takes the empty token
(`parse_eq_ok_iff_parseLenient`).
-/

namespace NodeAdmission.Capabilities

variable {config : String} {c : Capabilities}

theorem ne_nil_of_version? {token : List Char} {v : UInt32} (h : version? token = some v) :
    token ≠ [] := by
  rintro rfl
  cases h

/-- What the strict reading accepts: no config without a version passes, so that the empty one needs
no case of its own. -/
theorem parse_eq_ok_iff :
    parse config = .ok c ↔
      version? (tokens config.toList).1 = some c.protocol ∧ c.protocol ≠ 0 ∧
        c.services = tags (tokens config.toList).2 := by
  rw [parse]
  split
  · next hempty =>
    obtain rfl : config = "" := String.isEmpty_iff.mp hempty
    simp [tokens, version?, Text.trim, Text.trimEnd, Text.numeral?, Text.digits?]
  · simp only [parseVersion]
    cases hversion : version? (tokens config.toList).1 with
    | none => simp
    | some v =>
      dsimp only
      -- A version of zero is a number and still no version.
      by_cases hzero : v = 0
      · rw [if_pos hzero, hzero]
        refine ⟨fun h ↦ (by cases h), fun ⟨hprotocol, hne, _⟩ ↦ ?_⟩
        exact absurd (Option.some.inj hprotocol).symm hne
      · rw [if_neg hzero]
        constructor
        · rintro ⟨⟩
          exact ⟨rfl, hzero, rfl⟩
        · rintro ⟨hprotocol, -, hservices⟩
          rw [Option.some.inj hprotocol, ← hservices]

theorem tags_cons {t : List Char} (h : t ≠ []) (ts : List (List Char)) :
    tags (t :: ts) = String.ofList t :: tags ts := by
  simp [tags, h]

/-- Where the first token is not empty, both readings judge the same token. -/
theorem parseLenient_of_ne_nil (h : (tokens config.toList).1 ≠ []) :
    parseLenient config =
      match version? (tokens config.toList).1 with
      | some v => { protocol := v, services := tags (tokens config.toList).2 }
      | none =>
        { protocol := 0
          services := String.ofList (tokens config.toList).1 :: tags (tokens config.toList).2 } := by
  cases hversion : version? (tokens config.toList).1 <;>
    simp [parseLenient, tags_cons h, String.toList_ofList, hversion]

/-- The lenient reading of a config that the strict one accepts. -/
theorem parseLenient_of_parse (h : parse config = .ok c) : parseLenient config = c := by
  obtain ⟨hversion, -, hservices⟩ := parse_eq_ok_iff.mp h
  rw [parseLenient_of_ne_nil (ne_nil_of_version? hversion), hversion, ← hservices]

/-! ## Where the readings differ -/

/-- The config has a delimiter at its start. -/
def BeginsDelimited (config : String) : Prop := ∃ d ∈ config.toList.head?, isDelimiter d = true

theorem tokens_fst_eq_nil_iff :
    (tokens config.toList).1 = [] ↔ config = "" ∨ BeginsDelimited config := by
  rw [BeginsDelimited, ← String.toList_eq_nil_iff]
  cases config.toList with
  | nil => simp [tokens]
  | cons d ds => cases hd : isDelimiter d <;> simp [tokens, hd]

theorem not_beginsDelimited_of_parse (h : parse config = .ok c) : ¬BeginsDelimited config := by
  obtain ⟨hversion, -, -⟩ := parse_eq_ok_iff.mp h
  exact fun hbegins ↦ ne_nil_of_version? hversion (tokens_fst_eq_nil_iff.mpr (.inr hbegins))

/-- A version that the lenient reading finds in a config without a delimiter at its start is one for
the strict reading too. -/
theorem parse_eq_ok_parseLenient (hbegins : ¬BeginsDelimited config)
    (hpos : 0 < (parseLenient config).protocol) : parse config = .ok (parseLenient config) := by
  have hnonempty : config ≠ "" := by
    rintro rfl
    exact absurd hpos (by decide)
  have hfirst : (tokens config.toList).1 ≠ [] :=
    mt tokens_fst_eq_nil_iff.mp (not_or.mpr ⟨hnonempty, hbegins⟩)
  rw [parse_eq_ok_iff]
  rw [parseLenient_of_ne_nil hfirst] at hpos ⊢
  cases hversion : version? (tokens config.toList).1 with
  | none =>
    rw [hversion] at hpos
    exact absurd hpos (UInt32.lt_irrefl 0)
  | some v =>
    rw [hversion] at hpos
    exact ⟨rfl, UInt32.pos_iff_ne_zero.mp hpos, rfl⟩

/-- **The readings agree on the strict one's ground.** The strict reading accepts a config, and as
what, exactly if the config has no delimiter at its start and the lenient reading finds a version in
it that is not zero. So the lenient reading alone finds one exactly behind a delimiter at the
start. -/
theorem parse_eq_ok_iff_parseLenient (config : String) :
    (∀ c, parse config = .ok c ↔
      ¬BeginsDelimited config ∧ parseLenient config = c ∧ 0 < c.protocol) ∧
    ((∃ e, parse config = .error e) ∧ 0 < (parseLenient config).protocol ↔
      BeginsDelimited config ∧ 0 < (parseLenient config).protocol) := by
  have haccept : ∀ c, parse config = .ok c ↔
      ¬BeginsDelimited config ∧ parseLenient config = c ∧ 0 < c.protocol := by
    intro c
    constructor
    · intro h
      obtain ⟨-, hne, -⟩ := parse_eq_ok_iff.mp h
      exact ⟨not_beginsDelimited_of_parse h, parseLenient_of_parse h, UInt32.pos_iff_ne_zero.mpr hne⟩
    · rintro ⟨hbegins, rfl, hpos⟩
      exact parse_eq_ok_parseLenient hbegins hpos
  refine ⟨haccept, and_congr_left fun hpos ↦ ?_⟩
  constructor
  · rintro ⟨e, he⟩
    refine Classical.byContradiction fun hbegins ↦ ?_
    rw [parse_eq_ok_parseLenient hbegins hpos] at he
    cases he
  · intro hbegins
    rcases hparse : parse config with e | c
    · exact ⟨e, rfl⟩
    · exact absurd hbegins (not_beginsDelimited_of_parse hparse)

/-- A sign, leading zeros, and delimiters in a row and at the end: the strict reading accepts what
the lenient one finds. -/
theorem parse_eq_ok_iff_parseLenient_accepts :
    parse "+050,,BTC LTC," = .ok { protocol := 50, services := ["BTC", "LTC"] } := by
  obtain ⟨haccept, -⟩ := parse_eq_ok_iff_parseLenient "+050,,BTC LTC,"
  have hbegins : ¬BeginsDelimited "+050,,BTC LTC," := by simp [BeginsDelimited, isDelimiter]
  exact (haccept _).mpr ⟨hbegins, by decide +kernel, by decide⟩

example : parseLenient ",7,BTC" = { protocol := 7, services := ["BTC"] } ∧
    parse ",7,BTC" = .error (.invalidProtocolVersion "") :=
  ⟨by decide +kernel, by rfl⟩

end NodeAdmission.Capabilities
