import Mathlib.Data.List.Nodup
import Mathlib.Data.List.Perm.Lattice
import Mathlib.Data.List.TakeWhile
import NodeAdmission.Proofs.Record.Capabilities
import NodeAdmission.Proofs.Text.Numeral
/-!
# The grammar of configs

Which configs the strict reading accepts, and what it takes from them, said of the characters alone
(`parse_exact`). A config is its longest beginning without a delimiter and a rest: the beginning has
to spell a version, and the tags are the runs of the rest.

## Runs and their places

A run is a piece of a text that has characters, holds no delimiter and can be made longer on neither
side (`IsRunAt`). Equal runs may stand at several places, so that what is listed are places, each by
the text before it, in the order of their distance from the start (`IsRuns`). There is one such list.
`tokens` goes through the text once and never speaks of places; that it finds all of them is an
induction on the delimiters of the text (`delimiter_induction`), where one more token in front moves
every place by the same distance.
-/

namespace NodeAdmission.Capabilities

open Text

/-! ## Runs -/

/-- No character of the text separates tokens. -/
def Undelimited (text : List Char) : Prop := ∀ c ∈ text, isDelimiter c = false

/-- Behind `before`, the text has a run: characters of which none is a delimiter, with a delimiter
or an end of the text on either side. -/
structure IsRunAt (text before run : List Char) : Prop where
  /-- There are characters. -/
  ne_nil : run ≠ []
  /-- None is a delimiter. -/
  undelimited : Undelimited run
  /-- On the left is a delimiter, or nothing. -/
  begins : ∀ c ∈ before.getLast?, isDelimiter c = true
  /-- On the right is a delimiter, or nothing. -/
  ends : ∃ after, text = before ++ run ++ after ∧ ∀ c ∈ after.head?, isDelimiter c = true

/-- These are the runs of the text, in the order of their places. -/
def IsRuns (text : List Char) (runs : List (List Char)) : Prop :=
  ∃ places : List (List Char × List Char),
    (∀ before run, (before, run) ∈ places ↔ IsRunAt text before run) ∧
    places.Pairwise (fun p q ↦ p.1.length < q.1.length) ∧ places.map Prod.snd = runs

/-- The order of the places leaves no choice. -/
theorem IsRuns.unique {text : List Char} {runs runs' : List (List Char)} (h : IsRuns text runs)
    (h' : IsRuns text runs') : runs = runs' := by
  obtain ⟨places, hmem, hsorted, rfl⟩ := h
  obtain ⟨places', hmem', hsorted', rfl⟩ := h'
  have hnodup : ∀ {l : List (List Char × List Char)},
      l.Pairwise (fun p q ↦ p.1.length < q.1.length) → l.Nodup := by
    intro l hl
    refine hl.imp ?_
    rintro p q hlt rfl
    exact lt_irrefl _ hlt
  have hperm : places.Perm places' := by
    refine (List.perm_ext_iff_of_nodup (hnodup hsorted) (hnodup hsorted')).mpr ?_
    rintro ⟨before, run⟩
    rw [hmem, hmem']
  rw [hperm.eq_of_pairwise (fun p q _ _ hpq hqp ↦ absurd hpq hqp.asymm) hsorted hsorted']

/-! ## The beginning without delimiters -/

/-- The longest beginning of a text that holds no delimiter. -/
def beginning (text : List Char) : List Char := text.takeWhile fun c ↦ !isDelimiter c

/-- What follows the longest beginning without a delimiter. -/
def remainder (text : List Char) : List Char := text.dropWhile fun c ↦ !isDelimiter c

theorem beginning_append_remainder (text : List Char) : beginning text ++ remainder text = text :=
  List.takeWhile_append_dropWhile

variable {t rest before run : List Char} {d : Char}

theorem Undelimited.eq_nil_of_head? (h : Undelimited t)
    (hhead : ∀ c ∈ t.head?, isDelimiter c = true) : t = [] := by
  cases t with
  | nil => rfl
  | cons c cs =>
    have hc := h c List.mem_cons_self
    rw [hhead c rfl] at hc
    cases hc

theorem Undelimited.eq_nil_of_getLast? (h : Undelimited t)
    (hlast : ∀ c ∈ t.getLast?, isDelimiter c = true) : t = [] := by
  rw [← List.reverse_eq_nil_iff]
  refine Undelimited.eq_nil_of_head? (fun c hc ↦ h c (List.mem_reverse.mp hc)) ?_
  rwa [List.head?_reverse]

theorem Undelimited.beginning_append (h : Undelimited t)
    (hrest : ∀ c ∈ rest.head?, isDelimiter c = true) : beginning (t ++ rest) = t := by
  have ht : ∀ c ∈ t, (!isDelimiter c) = true := fun c hc ↦ by rw [h c hc, Bool.not_false]
  rw [beginning, List.takeWhile_append_of_pos ht]
  cases rest with
  | nil => exact List.append_nil t
  | cons d rest => simp [hrest d rfl]

theorem Undelimited.remainder_append (h : Undelimited t)
    (hrest : ∀ c ∈ rest.head?, isDelimiter c = true) : remainder (t ++ rest) = rest := by
  have hsplit := beginning_append_remainder (t ++ rest)
  rw [h.beginning_append hrest] at hsplit
  exact List.append_cancel_left hsplit

/-- A text falls apart in one way only into characters without a delimiter and a rest that begins
with one, or is empty. -/
theorem Undelimited.eq_of_append_eq {t' rest' : List Char} (h : Undelimited t)
    (hrest : ∀ c ∈ rest.head?, isDelimiter c = true) (h' : Undelimited t')
    (hrest' : ∀ c ∈ rest'.head?, isDelimiter c = true) (heq : t ++ rest = t' ++ rest') :
    t = t' := by
  rw [← h.beginning_append hrest, heq, h'.beginning_append hrest']

/-- Every text is one without delimiters, or begins with one in front of a delimiter. -/
@[elab_as_elim]
theorem delimiter_induction {motive : List Char → Prop} (text : List Char)
    (last : ∀ t, Undelimited t → motive t)
    (more : ∀ t d rest, Undelimited t → isDelimiter d = true → motive rest →
      motive (t ++ d :: rest)) : motive text := by
  -- Characters that are no delimiters gather in front until a delimiter comes.
  have hfront : ∀ front, Undelimited front → motive (front ++ text) := by
    induction text with
    | nil =>
      intro front hfront
      rw [List.append_nil]
      exact last front hfront
    | cons c cs ih =>
      intro front hfront
      cases hc : isDelimiter c with
      | true => exact more front c cs hfront hc (ih [] (List.forall_mem_nil _))
      | false =>
        rw [List.append_cons]
        refine ih (front ++ [c]) (List.forall_mem_append.mpr ⟨hfront, ?_⟩)
        exact List.forall_mem_singleton.mpr hc
  exact hfront [] (List.forall_mem_nil _)

/-! ## Where runs stand -/

/-- A text without delimiters is its only run. -/
theorem isRunAt_of_undelimited_iff (h : Undelimited t) :
    IsRunAt t before run ↔ before = [] ∧ run = t ∧ t ≠ [] := by
  constructor
  · rintro ⟨hne, -, hbegins, after, rfl, hends⟩
    obtain ⟨hfront, hafter⟩ := List.forall_mem_append.mp h
    obtain rfl := Undelimited.eq_nil_of_getLast? (List.forall_mem_append.mp hfront).1 hbegins
    obtain rfl := Undelimited.eq_nil_of_head? hafter hends
    simpa using hne
  · rintro ⟨rfl, rfl, hne⟩
    exact ⟨hne, h, by simp, [], by simp, by simp⟩

theorem forall_mem_getLast?_append_cons_iff (hd : isDelimiter d = true) :
    (∀ c ∈ (t ++ d :: before).getLast?, isDelimiter c = true) ↔
      ∀ c ∈ before.getLast?, isDelimiter c = true := by
  rw [List.getLast?_append, List.getLast?_cons, Option.some_or]
  cases before.getLast? <;> simp [hd]

/-- In front of its first delimiter a text has at most one run, and behind it those of the rest, each
as far behind as the delimiter is. -/
theorem isRunAt_append_cons_iff (h : Undelimited t) (hd : isDelimiter d = true) :
    IsRunAt (t ++ d :: rest) before run ↔
      (before = [] ∧ run = t ∧ t ≠ []) ∨
        ∃ before', before = t ++ d :: before' ∧ IsRunAt rest before' run := by
  have hrest : ∀ c ∈ (d :: rest).head?, isDelimiter c = true := by simp [hd]
  constructor
  · rintro ⟨hne, hrun, hbegins, after, hsplit, hends⟩
    rw [List.append_assoc, List.append_eq_append_iff] at hsplit
    rcases hsplit with ⟨between, rfl, hbetween⟩ | ⟨between, rfl, hbetween⟩
    · -- The run begins at the delimiter, which it cannot, or behind it.
      right
      cases between with
      | nil =>
        have hempty : [] = run :=
          Undelimited.eq_of_append_eq (List.forall_mem_nil _) hrest hrun hends hbetween
        exact absurd hempty.symm hne
      | cons e before' =>
        obtain ⟨rfl, rfl⟩ := List.cons.inj hbetween
        rw [forall_mem_getLast?_append_cons_iff hd] at hbegins
        exact ⟨before', rfl, hne, hrun, hbegins, after, (List.append_assoc ..).symm, hends⟩
    · -- The run begins in front of the delimiter: at the start of the text, and it ends there.
      left
      obtain ⟨hbefore, hfree⟩ := List.forall_mem_append.mp h
      obtain rfl := Undelimited.eq_nil_of_getLast? hbefore hbegins
      obtain rfl := Undelimited.eq_of_append_eq hrun hends hfree hrest hbetween
      exact ⟨rfl, rfl, hne⟩
  · rintro (⟨rfl, rfl, hne⟩ | ⟨before', rfl, hne, hrun, hbegins, after, rfl, hends⟩)
    · exact ⟨hne, h, by simp, d :: rest, rfl, hrest⟩
    · exact ⟨hne, hrun, (forall_mem_getLast?_append_cons_iff hd).mpr hbegins, after, by simp, hends⟩

/-! ## Tokens -/

/-- All tokens of a text, the empty ones too. -/
def allTokens (text : List Char) : List (List Char) := (tokens text).1 :: (tokens text).2

theorem allTokens_of_undelimited (h : Undelimited t) : allTokens t = [t] := by
  induction t with
  | nil => rfl
  | cons c cs ih =>
    obtain ⟨hc, hcs⟩ := List.forall_mem_cons.mp h
    obtain ⟨hfirst, hmore⟩ := List.cons.inj (ih hcs)
    simp [allTokens, tokens, hc, hfirst, hmore]

theorem allTokens_append_cons (h : Undelimited t) (hd : isDelimiter d = true) :
    allTokens (t ++ d :: rest) = t :: allTokens rest := by
  induction t with
  | nil => simp [allTokens, tokens, hd]
  | cons c cs ih =>
    obtain ⟨hc, hcs⟩ := List.forall_mem_cons.mp h
    obtain ⟨hfirst, hmore⟩ := List.cons.inj (ih hcs)
    simp [allTokens, tokens, hc, hfirst, hmore]

/-- The place of the token at the start of a text, unless it is empty. -/
def firstPlace (t : List Char) : List (List Char × List Char) := if t = [] then [] else [([], t)]

theorem mem_firstPlace_iff {p : List Char × List Char} :
    p ∈ firstPlace t ↔ p.1 = [] ∧ p.2 = t ∧ t ≠ [] := by
  by_cases ht : t = [] <;> simp [firstPlace, ht, Prod.ext_iff]

theorem pairwise_firstPlace {R : List Char × List Char → List Char × List Char → Prop} :
    (firstPlace t).Pairwise R := by
  by_cases ht : t = [] <;> simp [firstPlace, ht]

theorem map_snd_firstPlace : (firstPlace t).map Prod.snd = [t].filter fun t ↦ !t.isEmpty := by
  by_cases ht : t = [] <;> simp [firstPlace, ht]

/-- The tokens that are not empty are the runs. Each delimiter moves the places behind it. -/
theorem isRuns_allTokens (text : List Char) :
    IsRuns text ((allTokens text).filter fun t ↦ !t.isEmpty) := by
  induction text using delimiter_induction with
  | last t h =>
    refine ⟨firstPlace t, ?_, pairwise_firstPlace, ?_⟩
    · intro before run
      rw [mem_firstPlace_iff, isRunAt_of_undelimited_iff h]
    · rw [map_snd_firstPlace, allTokens_of_undelimited h]
  | more t d rest h hd ih =>
    obtain ⟨places, hmem, hsorted, hruns⟩ := ih
    refine ⟨firstPlace t ++ places.map fun p ↦ (t ++ d :: p.1, p.2), ?_, ?_, ?_⟩
    · intro before run
      rw [List.mem_append, mem_firstPlace_iff, isRunAt_append_cons_iff h hd]
      simp only [← hmem, List.mem_map, Prod.exists, Prod.mk.injEq]
      constructor
      · rintro (hfirst | ⟨before', run', hplace, rfl, rfl⟩)
        · exact .inl hfirst
        · exact .inr ⟨before', rfl, hplace⟩
      · rintro (hfirst | ⟨before', rfl, hplace⟩)
        · exact .inl hfirst
        · exact .inr ⟨before', run, hplace, rfl, rfl⟩
    · rw [List.pairwise_append, List.pairwise_map]
      refine ⟨pairwise_firstPlace, hsorted.imp ?_, ?_⟩
      · intro p q hlt
        simp only [List.length_append, List.length_cons]
        omega
      · intro p hp q hq
        obtain ⟨q', -, rfl⟩ := List.mem_map.mp hq
        rw [(mem_firstPlace_iff.mp hp).1]
        simp
    · have hmoved : (places.map fun p ↦ (t ++ d :: p.1, p.2)).map Prod.snd =
          places.map Prod.snd := by
        rw [List.map_map]
        rfl
      rw [List.map_append, map_snd_firstPlace, hmoved, hruns, ← List.filter_append,
        List.singleton_append, allTokens_append_cons h hd]

theorem isRuns_iff {text : List Char} {runs : List (List Char)} :
    IsRuns text runs ↔ runs = (allTokens text).filter fun t ↦ !t.isEmpty := by
  constructor
  · exact fun h ↦ h.unique (isRuns_allTokens text)
  · rintro rfl
    exact isRuns_allTokens text

/-! ## The first token and the tags -/

theorem tokens_fst (text : List Char) : (tokens text).1 = beginning text := by
  induction text using delimiter_induction with
  | last t h =>
    have hall := @Undelimited.beginning_append t [] h (by simp)
    rw [List.append_nil] at hall
    rw [hall, (List.cons.inj (allTokens_of_undelimited h)).1]
  | more t d rest h hd _ =>
    rw [h.beginning_append (by simp [hd]), (List.cons.inj (allTokens_append_cons h hd)).1]

/-- The tags are taken from what is left when the first token is taken away. The delimiter that is
left in front makes one more empty token. -/
theorem tags_tokens_snd (text : List Char) :
    tags (tokens text).2 = tags (allTokens (remainder text)) := by
  induction text using delimiter_induction with
  | last t h =>
    have hnothing := @Undelimited.remainder_append t [] h (by simp)
    rw [List.append_nil] at hnothing
    rw [hnothing, (List.cons.inj (allTokens_of_undelimited h)).2]
    rfl
  | more t d rest h hd _ =>
    have hempty : allTokens (d :: rest) = [] :: allTokens rest :=
      @allTokens_append_cons [] rest d (List.forall_mem_nil _) hd
    rw [h.remainder_append (by simp [hd]), (List.cons.inj (allTokens_append_cons h hd)).2, hempty]
    rfl

/-- The tags that a config is read to have are the runs behind its first token. -/
theorem eq_tags_iff {text : List Char} {services : List String} :
    services = tags (tokens text).2 ↔
      IsRuns (remainder text) (services.map String.toList) := by
  rw [tags_tokens_snd, tags, isRuns_iff]
  constructor
  · rintro rfl
    simp [List.map_map, Function.comp_def]
  · intro h
    rw [← h]
    simp [List.map_map, Function.comp_def]

/-! ## Versions -/

theorem version?_eq_some_iff {token : List Char} {v : UInt32} :
    version? token = some v ↔ SpellsNumber token v.toNat := by
  rw [spellsNumber_iff, version?]
  cases hn : numeral? (trim token) with
  | none => simp
  | some n =>
    simp only [Option.ite_none_right_eq_some, Option.some.injEq]
    constructor
    · rintro ⟨hlt, rfl⟩
      exact (UInt32.toNat_ofNat_of_lt' hlt).symm
    · rintro rfl
      exact ⟨v.toNat_lt_size, UInt32.ofNat_toNat⟩

theorem version?_eq_some_ofNat_iff {token : List Char} {n : ℕ} (h : n ≤ 2 ^ 32 - 1) :
    version? token = some (UInt32.ofNat n) ↔ SpellsNumber token n := by
  rw [version?_eq_some_iff, UInt32.toNat_ofNat_of_lt' (Nat.lt_of_le_pred (by decide) h)]

/-- A number that is too large is no version, whatever it is modulo the size. -/
theorem version?_eq_none_iff {token : List Char} :
    version? token = none ↔ ¬∃ n, n ≤ 2 ^ 32 - 1 ∧ SpellsNumber token n := by
  rw [Option.eq_none_iff_forall_ne_some, not_exists]
  constructor
  · rintro h n ⟨hle, hspells⟩
    exact h _ ((version?_eq_some_ofNat_iff hle).mpr hspells)
  · intro h v hv
    exact h v.toNat ⟨Nat.le_pred_of_lt v.toNat_lt, version?_eq_some_iff.mp hv⟩

/-! ## The strict reading -/

/-- Why the strict reading refuses a config. -/
theorem parse_eq_error_iff {config : String} {e : ConfigError} :
    parse config = .error e ↔
      (config = "" ∧ e = .empty) ∨
      (config ≠ "" ∧ version? (tokens config.toList).1 = none ∧
        e = .invalidProtocolVersion (String.ofList (tokens config.toList).1)) ∨
      (version? (tokens config.toList).1 = some 0 ∧ e = .nonPositiveProtocolVersion) := by
  by_cases hempty : config = ""
  · -- The empty text has an empty first token, which is no version.
    subst hempty
    have hparse : parse "" = .error .empty := rfl
    have hnone : version? (tokens "".toList).1 = none := rfl
    rw [hparse, hnone]
    simp [eq_comm]
  · rw [parse, if_neg (mt String.isEmpty_iff.mp hempty)]
    simp only [parseVersion]
    cases version? (tokens config.toList).1 with
    | none => simp [hempty, eq_comm]
    | some v =>
      by_cases hzero : v = 0
      · simp [hzero, hempty, eq_comm (a := e)]
      · simp [hzero, hempty]

/-- **The strict reading accepts exactly its grammar.** A config is accepted exactly if its longest
beginning without a delimiter, less the white space at its ends, is a numeral for a number from one
to the greatest of 32 bits. The version is then that number, and the tags are the runs of the rest.
Otherwise the refusal says which: there is no text, or the number is zero, or else the beginning, as
it stands, is no version. -/
theorem parse_exact (config : String) :
    ((∃ c, parse config = .ok c) ↔
      ∃ n, 1 ≤ n ∧ n ≤ 2 ^ 32 - 1 ∧ SpellsNumber (beginning config.toList) n) ∧
    (∀ c, parse config = .ok c ↔ c.protocol ≠ 0 ∧
      SpellsNumber (beginning config.toList) c.protocol.toNat ∧
      IsRuns (remainder config.toList) (c.services.map String.toList)) ∧
    (parse config = .error .empty ↔ config = "") ∧
    (parse config = .error .nonPositiveProtocolVersion ↔
      SpellsNumber (beginning config.toList) 0) ∧
    ∀ token, parse config = .error (.invalidProtocolVersion token) ↔ config ≠ "" ∧
      (¬∃ n, n ≤ 2 ^ 32 - 1 ∧ SpellsNumber (beginning config.toList) n) ∧
      token = String.ofList (beginning config.toList) := by
  have hfirst := tokens_fst config.toList
  have haccept : ∀ c, parse config = .ok c ↔ c.protocol ≠ 0 ∧
      SpellsNumber (beginning config.toList) c.protocol.toNat ∧
      IsRuns (remainder config.toList) (c.services.map String.toList) := by
    intro c
    rw [parse_eq_ok_iff, hfirst, version?_eq_some_iff, eq_tags_iff, and_left_comm]
  refine ⟨?_, haccept, ?_, ?_, ?_⟩
  · constructor
    · rintro ⟨c, hc⟩
      obtain ⟨hne, hspells, -⟩ := (haccept c).mp hc
      have hpos : c.protocol.toNat ≠ 0 := fun h ↦ hne (UInt32.toNat_inj.mp h)
      exact ⟨_, Nat.one_le_iff_ne_zero.mpr hpos, Nat.le_pred_of_lt c.protocol.toNat_lt, hspells⟩
    · rintro ⟨n, hpos, hle, hspells⟩
      have hversion := (version?_eq_some_ofNat_iff hle).mpr hspells
      -- A number in range is not zero in 32 bits either: a text spells one number only.
      have hne : UInt32.ofNat n ≠ 0 := by
        intro hzero
        have hspells' : SpellsNumber (beginning config.toList) 0 :=
          version?_eq_some_iff.mp (hzero ▸ hversion)
        exact absurd (hspells.unique hspells') (Nat.one_le_iff_ne_zero.mp hpos)
      exact ⟨{ protocol := .ofNat n, services := tags (tokens config.toList).2 },
        parse_eq_ok_iff.mpr ⟨hfirst ▸ hversion, hne, rfl⟩⟩
  · simp [parse_eq_error_iff]
  · simp [parse_eq_error_iff, hfirst, version?_eq_some_iff]
  · intro token
    simp [parse_eq_error_iff, hfirst, version?_eq_none_iff]

/-- White space that is no delimiter may surround the number, leading zeros do not count, and the
tags are what is between delimiters. -/
example : parse "\t+007\u00a0,,BTC LTC," = .ok { protocol := 7, services := ["BTC", "LTC"] } := by
  decide +kernel

end NodeAdmission.Capabilities
