import Mathlib.Data.List.Basic
import NodeAdmission.Proofs.Stake.Destination
/-!
# The forms of scripts

A destination is read off a script of one of four forms, and off no other:

| Form | Bytes |
|------|-------|
| hash of a key | `76 a9 14`, the hash, `88 ac` |
| compressed key | `21`, a key of 33 bytes that starts with `02` or `03`, `ac` |
| full key | `41`, a key of 65 bytes that starts with `04`, `ac` |
| hash of a script | `a9 14`, the hash, `87` |

The first byte tells the forms apart, and what stands between the fixed bytes of a form is given by
the script, so a script has one form and one destination at most (`Form.Spells.unique`), whatever
bytes a hash or a key is made of.

## Cases in any order

The same classification can be written as a list of cases, each a pattern with fixed bytes at both
ends and a guard on the length between them, of which the first that applies decides. Every case
that applies says what `ofScript?` says (`ofScript?_of_mem_cases`), so their order does not matter
(`classifyBy_eq`).
-/

namespace NodeAdmission.Destination

/-! ## The forms -/

/-- The script that pays the hash of a script. -/
def payToScriptHash (id : KeyId) : List UInt8 := [opHash160, 20] ++ id.toList ++ [opEqual]

/-- A key with that many bytes, of which the first one is one of the tags. -/
structure IsKey (length : ℕ) (tags : List UInt8) (key : List UInt8) : Prop where
  length_eq : key.length = length
  head : ∃ tag ∈ tags, key.head? = some tag

/-- The forms of scripts from which a destination is read. -/
inductive Form where
  | keyHash
  | compressedKey
  | fullKey
  | scriptHash
deriving DecidableEq

/-- The script has the form and pays the destination. -/
inductive Form.Spells : Form → Destination → List UInt8 → Prop where
  | keyHash (id : KeyId) : Spells .keyHash (.keyHash id) (payToKeyHash id)
  | compressedKey {key : List UInt8} (h : IsKey 33 [0x02, 0x03] key) :
    Spells .compressedKey (.keyHash (Hash.hash160 key)) (33 :: (key ++ [opCheckSig]))
  | fullKey {key : List UInt8} (h : IsKey 65 [0x04] key) :
    Spells .fullKey (.keyHash (Hash.hash160 key)) (65 :: (key ++ [opCheckSig]))
  | scriptHash (id : KeyId) : Spells .scriptHash (.scriptHash id) (payToScriptHash id)

/-- The byte that a script of the form starts with. -/
def Form.first : Form → UInt8
  | keyHash => opDup
  | compressedKey => 33
  | fullKey => 65
  | scriptHash => opHash160

theorem Form.first_injective : Function.Injective Form.first := by
  intro f f' h
  cases f <;> cases f' <;> simp [first, opDup, opHash160] at h ⊢

variable {script key bytes ending : List UInt8} {length : UInt8} {d d' : Destination} {id : KeyId}

theorem Form.Spells.head? {f : Form} (h : f.Spells d script) : script.head? = some f.first := by
  cases h <;> rfl

/-- A script has one form and one destination at most. -/
theorem Form.Spells.unique {f f' : Form} (h : f.Spells d script) (h' : f'.Spells d' script) :
    f = f' ∧ d = d' := by
  obtain rfl : f = f' := first_injective (Option.some.inj (h.head?.symm.trans h'.head?))
  refine ⟨rfl, ?_⟩
  -- Within a form the fixed bytes are the same, and what is between them is what is paid.
  generalize hscript : script = script' at h'
  cases h with
  | keyHash id =>
    cases h' with
    | keyHash id' =>
      simp only [payToKeyHash, List.append_cancel_right_eq, List.append_cancel_left_eq] at hscript
      rw [Octets.ext hscript]
  | compressedKey =>
    cases h' with
    | compressedKey =>
      simp only [List.cons.injEq, List.append_cancel_right_eq, true_and] at hscript
      rw [hscript]
  | fullKey =>
    cases h' with
    | fullKey =>
      simp only [List.cons.injEq, List.append_cancel_right_eq, true_and] at hscript
      rw [hscript]
  | scriptHash id =>
    cases h' with
    | scriptHash id' =>
      simp only [payToScriptHash, List.append_cancel_right_eq, List.append_cancel_left_eq]
        at hscript
      rw [Octets.ext hscript]

/-! ## Reading the forms -/

theorem isKeyOfLength_iff :
    isKeyOfLength length key = true ↔
      length = 33 ∧ IsKey 33 [0x02, 0x03] key ∨ length = 65 ∧ IsKey 65 [0x04] key := by
  rw [isKeyOfLength]
  constructor
  · intro h
    rcases key with _ | ⟨tag, rest⟩
    · simp at h
    · simp only [List.head?_cons, Bool.and_eq_true, Bool.or_eq_true, beq_iff_eq] at h
      obtain ⟨hlength, ⟨rfl, htag⟩ | ⟨rfl, htag⟩⟩ := h
      · exact .inl ⟨rfl, hlength, tag, by simpa using htag, rfl⟩
      · exact .inr ⟨rfl, hlength, tag, by simpa using htag, rfl⟩
  · rintro (⟨rfl, hlength, tag, htag, hhead⟩ | ⟨rfl, hlength, tag, htag, hhead⟩)
    · simpa [hlength, hhead] using htag
    · simpa [hlength, hhead] using htag

theorem ofScript?_of_spells {f : Form} (h : f.Spells d script) : ofScript? script = some d := by
  cases h with
  | keyHash id => exact ofScript?_payToKeyHash id
  | compressedKey h => exact ofScript?_cons_append (isKeyOfLength_iff.mpr (.inl ⟨rfl, h⟩))
  | fullKey h => exact ofScript?_cons_append (isKeyOfLength_iff.mpr (.inr ⟨rfl, h⟩))
  | scriptHash id =>
    have hread : hashBefore? [opEqual] (id.toList ++ [opEqual]) = some id :=
      hashBefore?_eq_some_iff.mpr rfl
    simp only [payToScriptHash, opHash160, List.cons_append, List.nil_append, ofScript?]
    rw [hread]
    rfl

theorem exists_spells_of_ofScript? (h : ofScript? script = some d) :
    ∃ f : Form, f.Spells d script := by
  unfold ofScript? at h
  split at h
  · obtain ⟨id, hread, rfl⟩ := Option.map_eq_some_iff.mp h
    rw [hashBefore?_eq_some_iff.mp hread]
    exact ⟨.keyHash, .keyHash id⟩
  · obtain ⟨id, hread, rfl⟩ := Option.map_eq_some_iff.mp h
    rw [hashBefore?_eq_some_iff.mp hread]
    exact ⟨.scriptHash, .scriptHash id⟩
  · next length rest _ _ =>
    dsimp only at h
    split at h
    · next hkey =>
      obtain ⟨hlast, hkey⟩ := hkey
      obtain rfl := Option.some.inj h
      have hrest : rest.dropLast ++ [opCheckSig] = rest :=
        List.dropLast_append_getLast? _ (Option.mem_def.mpr hlast)
      rw [← hrest, List.dropLast_concat]
      obtain ⟨rfl, hshort⟩ | ⟨rfl, hfull⟩ := isKeyOfLength_iff.mp hkey
      · exact ⟨.compressedKey, .compressedKey hshort⟩
      · exact ⟨.fullKey, .fullKey hfull⟩
    · simp at h
  · simp at h

/-- A destination is read exactly from the scripts of the four forms. -/
theorem ofScript?_eq_some_iff_spells : ofScript? script = some d ↔ ∃ f : Form, f.Spells d script :=
  ⟨exists_spells_of_ofScript?, fun ⟨_, h⟩ ↦ ofScript?_of_spells h⟩

/-! ## The classification as a list of cases -/

/-- What a case makes of a script: nothing if it does not apply, and otherwise its verdict, which
may be that there is no destination. -/
abbrev Case := List UInt8 → Option (Option Destination)

/-- The bytes between a beginning and an ending. -/
def between? (front back script : List UInt8) : Option (List UInt8) :=
  script.dropPrefix? front >>= fun rest ↦ rest.dropSuffix? back

theorem between?_eq_some_iff {front back bytes : List UInt8} :
    between? front back script = some bytes ↔ script = front ++ bytes ++ back := by
  simp [between?, Option.bind_eq_some_iff, List.dropPrefix?_eq_some_iff,
    List.dropSuffix?_eq_some_iff]

/-- Twenty bytes between a beginning and an ending. -/
def hashCase (front back : List UInt8) (pay : KeyId → Destination) : Case := fun script ↦ do
  let id ← between? front back script >>= Octets.ofList? 20
  return some (pay id)

theorem ne_nil_of_length (h : (length = 33 ∨ length = 65) ∧ key.length = length.toNat) :
    key ≠ [] := by
  rintro rfl
  obtain ⟨rfl | rfl, hlength⟩ := h <;> simp at hlength

/-- What is made of a key behind the byte for its length. Of the lengths that are asked for, none is
zero, so the key has a first byte. -/
def keyVerdict? (length : UInt8) (key : List UInt8) : Option (Option Destination) :=
  if h : (length = 33 ∨ length = 65) ∧ key.length = length.toNat then
    let tag := key.head (ne_nil_of_length h)
    some (if (tag = 0x02 ∨ tag = 0x03) ∧ length = 33 ∨ tag = 0x04 ∧ length = 65 then
      some (.keyHash (Hash.hash160 key)) else none)
  else none

/-- A key between the byte for its length and an ending. -/
def keyCase : Case
  | [] => none
  | length :: rest => between? [] [opCheckSig] rest >>= keyVerdict? length

/-- The cases of the classification. -/
def allCases : List Case :=
  [hashCase [opDup, opHash160, 20] [opEqualVerify, opCheckSig] .keyHash,
    hashCase [opHash160, 20] [opEqual] .scriptHash, keyCase]

/-- The verdict of the first case that applies. -/
def classifyBy (cases : List Case) (script : List UInt8) : Option Destination :=
  (cases.findSome? fun c ↦ c script).join

variable {verdict : Option Destination}

theorem hashCase_eq_some_iff {front back : List UInt8} {pay : KeyId → Destination} :
    hashCase front back pay script = some verdict ↔
      ∃ id : KeyId, script = front ++ id.toList ++ back ∧ verdict = some (pay id) := by
  simp only [hashCase, Option.bind_eq_bind, Option.bind_eq_some_iff, between?_eq_some_iff,
    Octets.ofList?_eq_some_iff]
  constructor
  · rintro ⟨id, ⟨_, rfl, rfl⟩, hverdict⟩
    exact ⟨id, rfl, (Option.some.inj hverdict).symm⟩
  · rintro ⟨id, rfl, rfl⟩
    exact ⟨id, ⟨id.toList, rfl, rfl⟩, rfl⟩

theorem keyVerdict?_eq_some_iff :
    keyVerdict? length key = some verdict ↔
      ((length = 33 ∨ length = 65) ∧ key.length = length.toNat) ∧
        verdict =
          if isKeyOfLength length key then some (.keyHash (Hash.hash160 key)) else none := by
  rw [keyVerdict?]
  split
  · next h =>
    obtain ⟨tag, rest, rfl⟩ := List.exists_cons_of_ne_nil (ne_nil_of_length h)
    have htag : isKeyOfLength length (tag :: rest) = true ↔
        (tag = 0x02 ∨ tag = 0x03) ∧ length = 33 ∨ tag = 0x04 ∧ length = 65 := by
      simp [isKeyOfLength, ← h.2, and_comm]
    simp only [List.head_cons, htag, h, Option.some.injEq, true_and, and_self]
    exact eq_comm
  · next h => simp [h]

theorem keyCase_eq_some_iff :
    keyCase script = some verdict ↔
      ∃ length key, script = length :: (key ++ [opCheckSig]) ∧
        keyVerdict? length key = some verdict := by
  rcases script with _ | ⟨length, rest⟩
  · simp [keyCase]
  · simp only [keyCase, Option.bind_eq_bind, Option.bind_eq_some_iff, between?_eq_some_iff]
    constructor
    · rintro ⟨key, rfl, hverdict⟩
      exact ⟨length, key, rfl, hverdict⟩
    · rintro ⟨_, key, ⟨⟩, hverdict⟩
      exact ⟨key, rfl, hverdict⟩

/-- A case that applies says what is read. -/
theorem ofScript?_of_mem_allCases {c : Case} (hc : c ∈ allCases) (h : c script = some verdict) :
    ofScript? script = verdict := by
  simp only [allCases, List.mem_cons, List.not_mem_nil, or_false] at hc
  obtain rfl | rfl | rfl := hc
  · obtain ⟨id, rfl, rfl⟩ := hashCase_eq_some_iff.mp h
    exact ofScript?_of_spells (.keyHash id)
  · obtain ⟨id, rfl, rfl⟩ := hashCase_eq_some_iff.mp h
    exact ofScript?_of_spells (.scriptHash id)
  · obtain ⟨length, key, rfl, hverdict⟩ := keyCase_eq_some_iff.mp h
    obtain ⟨⟨hlength, -⟩, rfl⟩ := keyVerdict?_eq_some_iff.mp hverdict
    exact ofScript?_key hlength

theorem exists_mem_allCases (h : ofScript? script = some d) :
    ∃ c ∈ allCases, c script = some (some d) := by
  have hkey : ∀ {length key}, (length = 33 ∨ length = 65) → key.length = length.toNat →
      isKeyOfLength length key = true →
      keyCase (length :: (key ++ [opCheckSig])) = some (some (.keyHash (Hash.hash160 key))) := by
    intro length key hlength hsize htag
    refine keyCase_eq_some_iff.mpr ⟨length, key, rfl, keyVerdict?_eq_some_iff.mpr ?_⟩
    exact ⟨⟨hlength, hsize⟩, (if_pos htag).symm⟩
  obtain ⟨f, hf⟩ := exists_spells_of_ofScript? h
  cases hf with
  | keyHash id => exact ⟨_, by simp [allCases], hashCase_eq_some_iff.mpr ⟨id, rfl, rfl⟩⟩
  | scriptHash id => exact ⟨_, by simp [allCases], hashCase_eq_some_iff.mpr ⟨id, rfl, rfl⟩⟩
  | compressedKey hkind =>
    exact ⟨keyCase, by simp [allCases],
      hkey (.inl rfl) hkind.length_eq (isKeyOfLength_iff.mpr (.inl ⟨rfl, hkind⟩))⟩
  | fullKey hkind =>
    exact ⟨keyCase, by simp [allCases],
      hkey (.inr rfl) hkind.length_eq (isKeyOfLength_iff.mpr (.inr ⟨rfl, hkind⟩))⟩

/-- The cases may be tried in any order. -/
theorem classifyBy_eq {cases : List Case} (h : ∀ c, c ∈ cases ↔ c ∈ allCases) :
    classifyBy cases script = ofScript? script := by
  rw [classifyBy]
  cases hfirst : cases.findSome? fun c ↦ c script with
  | some verdict =>
    obtain ⟨c, hc, hverdict⟩ := List.exists_of_findSome?_eq_some hfirst
    exact (ofScript?_of_mem_allCases ((h c).mp hc) hverdict).symm
  | none =>
    cases hread : ofScript? script with
    | none => rfl
    | some d =>
      obtain ⟨c, hc, hverdict⟩ := exists_mem_allCases hread
      have hnone := List.findSome?_eq_none_iff.mp hfirst c ((h c).mpr hc)
      simp [hnone] at hverdict

/-! ## The classification -/

/-- **A script pays a destination exactly if it is written in one of the four forms.** A key hash is
paid by the script for that hash and by those for a compressed or a full key with that hash, a
script hash by the script for that hash, and nobody by anything else. No script has two forms or
pays two key hashes, and the cases of the classification lead to the same destination in whatever
order they are tried. -/
theorem ofScript?_exact :
    (∀ script id, ofScript? script = some (.keyHash id) ↔
      script = payToKeyHash id ∨
      (∃ key, IsKey 33 [0x02, 0x03] key ∧ script = 33 :: (key ++ [0xac]) ∧ id = Hash.hash160 key) ∨
      ∃ key, IsKey 65 [0x04] key ∧ script = 65 :: (key ++ [0xac]) ∧ id = Hash.hash160 key) ∧
    (∀ script id, ofScript? script = some (.scriptHash id) ↔
      script = 0xa9 :: 20 :: (id.toList ++ [0x87])) ∧
    (∀ script, ofScript? script = none ↔ ¬∃ (f : Form) (d : Destination), f.Spells d script) ∧
    (∀ (script : List UInt8) (f f' : Form) (d d' : Destination),
      f.Spells d script → f'.Spells d' script → f = f' ∧ d = d') ∧
    (∀ (script : List UInt8) (f f' : Form) (id id' : KeyId),
      f.Spells (.keyHash id) script → f'.Spells (.keyHash id') script → id = id') ∧
    (∀ (length : UInt8) (key : List UInt8),
      (length = 33 ∨ length = 65) ∧ key.length = length.toNat → key ≠ []) ∧
    ∀ (cases : List Case), cases.Perm allCases →
      ∀ script, classifyBy cases script = ofScript? script := by
  refine ⟨?_, ?_, ?_, ?_, ?_, ?_, ?_⟩
  · intro script id
    rw [ofScript?_eq_some_iff_spells]
    constructor
    · rintro ⟨f, hf⟩
      cases hf with
      | keyHash id => exact .inl rfl
      | compressedKey h => exact .inr (.inl ⟨_, h, rfl, rfl⟩)
      | fullKey h => exact .inr (.inr ⟨_, h, rfl, rfl⟩)
    · rintro (rfl | ⟨key, h, rfl, rfl⟩ | ⟨key, h, rfl, rfl⟩)
      · exact ⟨.keyHash, .keyHash id⟩
      · exact ⟨.compressedKey, .compressedKey h⟩
      · exact ⟨.fullKey, .fullKey h⟩
  · intro script id
    rw [ofScript?_eq_some_iff_spells]
    constructor
    · rintro ⟨f, hf⟩
      cases hf with
      | scriptHash id => rfl
    · rintro rfl
      exact ⟨.scriptHash, .scriptHash id⟩
  · intro script
    rw [exists_comm, ← not_iff_not, not_not, ← ne_eq, Option.ne_none_iff_exists']
    simp only [ofScript?_eq_some_iff_spells]
  · exact fun script f f' d d' h h' ↦ h.unique h'
  · intro script f f' id id' h h'
    exact Destination.keyHash.inj (h.unique h').2
  · exact fun length key ↦ ne_nil_of_length
  · exact fun cases h script ↦ classifyBy_eq fun c ↦ h.mem_iff

/-- A key made of the bytes that end a script, with the cases tried the other way round. -/
theorem ofScript?_exact_checkSigs :
    let key : List UInt8 := 0x03 :: List.replicate 32 0xac
    let script := 33 :: (key ++ [0xac])
    Form.compressedKey.Spells (.keyHash (Hash.hash160 key)) script ∧
      ofScript? script = some (.keyHash (Hash.hash160 key)) ∧
      (∀ f d, Form.Spells f d script → f = .compressedKey) ∧
      (∀ (f : Form) id, f.Spells (.keyHash id) script → id = Hash.hash160 key) ∧
      allCases.reverse.Perm allCases ∧ classifyBy allCases.reverse script = ofScript? script := by
  intro key script
  obtain ⟨hkeyHash, -, -, honly, hone, -, horder⟩ := ofScript?_exact
  have hkey : IsKey 33 [0x02, 0x03] key := ⟨by decide, 0x03, by decide, rfl⟩
  have hform : Form.compressedKey.Spells (.keyHash (Hash.hash160 key)) script :=
    .compressedKey hkey
  refine ⟨hform, (hkeyHash _ _).mpr (.inr (.inl ⟨key, hkey, rfl, rfl⟩)), ?_, ?_, ?_, ?_⟩
  · exact fun f d h ↦ (honly _ _ _ _ _ h hform).1
  · exact fun f id h ↦ hone _ _ _ _ _ h hform
  · exact allCases.reverse_perm
  · exact horder _ allCases.reverse_perm script

end NodeAdmission.Destination
