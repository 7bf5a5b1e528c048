import Mathlib.Data.List.Forall2
import NodeAdmission.Json.Form
import NodeAdmission.Proofs.Json.Compact
/-!
# Fields of objects

What an object says about named fields, without following how the fields are looked up: it holds
given values of them (`Json.Holds`), each once and in any order among members with other names, or
some name occurs in it not exactly once (`Json.Misses`). In the first case the fields are read with
these values, and in the second case one of them is missing or nothing is read.
-/

namespace NodeAdmission.Json

variable {α : Type}

/-! ## Lists item by item -/

theorem mapM_eq_some_iff {β : Type} {f : α → Option β} {as : List α} {bs : List β} :
    as.mapM f = some bs ↔ List.Forall₂ (fun a b ↦ f a = some b) as bs := by
  induction as generalizing bs with
  | nil =>
    rw [List.forall₂_nil_left_iff]
    simp [eq_comm]
  | cons a as ih =>
    simp only [List.mapM_cons, Option.bind_eq_bind, Option.bind_eq_some_iff, Option.pure_def,
      Option.some.injEq, List.forall₂_cons_left_iff, ← ih, exists_and_left, eq_comm (b := bs)]

theorem exists_of_mem_left {β : Type} {R : α → β → Prop} {as : List α} {bs : List β}
    (h : List.Forall₂ R as bs) {a : α} (ha : a ∈ as) : ∃ b ∈ bs, R a b := by
  induction h with
  | nil => exact absurd ha List.not_mem_nil
  | cons hab _ ih =>
    obtain rfl | ha := List.mem_cons.mp ha
    · exact ⟨_, List.mem_cons_self, hab⟩
    · obtain ⟨b, hb, hab⟩ := ih ha
      exact ⟨b, List.mem_cons_of_mem _ hb, hab⟩

/-! ## Members with a name -/

/-- The member has the name. -/
def IsNamed (name : String) (m : Option (List Char) × Json) : Prop := m.1 = some name.toList

instance (name : String) (m : Option (List Char) × Json) : Decidable (IsNamed name m) :=
  inferInstanceAs (Decidable (m.1 = some name.toList))

@[simp] theorem isNamed_member {name name' : String} {v : Json} :
    IsNamed name (member name' v) ↔ name' = name := by
  rw [IsNamed, member, Option.some.injEq, String.toList_inj]

/-- The object holds the fields that have a value here, each once, and none that has no value. Its
other members have any names that are sequences of characters, and any values. -/
inductive Holds (fields : List (String × Option Json)) : Json → Prop where
  | object {members : List (Option (List Char) × Json)} (hnames : ∀ m ∈ members, m.1.isSome)
    (hfields : (members.filter fun m ↦ ∃ f ∈ fields, IsNamed f.1 m).Perm
      (fields.filterMap fun f ↦ f.2.map (member f.1))) :
    Holds fields (object members)

/-- The object has one of the names not exactly once. -/
inductive Misses (names : List String) : Json → Prop where
  | object {members : List (Option (List Char) × Json)} {name : String} (hname : name ∈ names)
    (hcount : (members.filter fun m ↦ IsNamed name m).length ≠ 1) : Misses names (object members)

/-! ## Looking fields up -/

theorem only?_eq_some_iff {name : String} {members : List (Option (List Char) × Json)}
    {v : Option Json} : only? name members = some v ↔
      (members.filter fun m ↦ IsNamed name m) = (v.map (member name)).toList := by
  have hnamed : ∀ m ∈ members.filter fun m ↦ m.1 = some name.toList, m = member name m.2 :=
    fun m hm ↦ Prod.ext (of_decide_eq_true (List.mem_filter.mp hm).2) rfl
  have hfilter : (members.filter fun m ↦ IsNamed name m) =
      members.filter fun m ↦ m.1 = some name.toList := rfl
  rw [hfilter]
  unfold only?
  split
  · next hnil => cases v <;> simp [hnil]
  · next m hone =>
    rw [hone] at hnamed ⊢
    rw [hnamed m List.mem_cons_self]
    cases v <;> simp [member]
  · next hnil hone =>
    cases v with
    | none => simpa using hnil
    | some v => simpa using hone _

theorem fields?_object_eq_some_iff {names : List String}
    {members : List (Option (List Char) × Json)} {values : List (Option Json)} :
    (object members).fields? names = some values ↔ (∀ m ∈ members, m.1.isSome) ∧
      List.Forall₂ (fun name v ↦ only? name members = some v) names values := by
  rw [fields?, Option.ite_none_right_eq_some, List.all_eq_true, mapM_eq_some_iff]

/-- Among fields with different names, those with the name of one of them are that one. -/
theorem filter_isNamed_fields {fields : List (String × Option Json)}
    (hnodup : (fields.map Prod.fst).Nodup) {f : String × Option Json} (hf : f ∈ fields) :
    ((fields.filterMap fun g ↦ g.2.map (member g.1)).filter fun m ↦ IsNamed f.1 m) =
      (f.2.map (member f.1)).toList := by
  have hcons (g : String × Option Json) :
      ((g.2.map (member g.1)).toList.filter fun m ↦ IsNamed f.1 m) =
        if g.1 = f.1 then (g.2.map (member g.1)).toList else [] := by
    obtain ⟨name, _ | v⟩ := g <;> simp [List.filter_singleton]
  rw [List.filterMap_eq_flatMap_toList, List.filter_flatMap]
  simp only [hcons]
  induction fields with
  | nil => exact absurd hf List.not_mem_nil
  | cons g fields ih =>
    rw [List.map_cons, List.nodup_cons] at hnodup
    rw [List.flatMap_cons]
    obtain rfl | hf := List.mem_cons.mp hf
    · have hrest : (fields.flatMap fun g ↦
          if g.1 = f.1 then (g.2.map (member g.1)).toList else []) = [] := by
        refine List.flatMap_eq_nil_iff.mpr fun g hg ↦ if_neg fun h ↦ hnodup.1 ?_
        exact h ▸ List.mem_map_of_mem hg
      rw [if_pos rfl, hrest, List.append_nil]
    · have hne : g.1 ≠ f.1 := fun h ↦ hnodup.1 (h ▸ List.mem_map_of_mem hf)
      rw [if_neg hne, List.nil_append, ih hnodup.2 hf]

/-- The fields of an object that holds them are read with the values that they are held with. -/
theorem fields?_of_holds {fields : List (String × Option Json)}
    (hnodup : (fields.map Prod.fst).Nodup) {w : Json} (h : w.Holds fields) :
    w.fields? (fields.map Prod.fst) = some (fields.map Prod.snd) := by
  obtain @⟨members, hnames, hfields⟩ := h
  refine fields?_object_eq_some_iff.mpr ⟨hnames, ?_⟩
  rw [List.forall₂_map_left_iff, List.forall₂_map_right_iff, List.forall₂_same]
  intro f hf
  -- The members that `f` names are among the known ones, so the order of the others is nothing.
  have hknown : (members.filter fun m ↦ IsNamed f.1 m) =
      (members.filter fun m ↦ ∃ f ∈ fields, IsNamed f.1 m).filter fun m ↦ IsNamed f.1 m := by
    rw [List.filter_filter]
    refine List.filter_congr fun m _ ↦ ?_
    rw [← Bool.decide_and, decide_eq_decide]
    exact ⟨fun h ↦ ⟨h, f, hf, h⟩, And.left⟩
  have hperm := hfields.filter fun m ↦ IsNamed f.1 m
  rw [filter_isNamed_fields hnodup hf, ← hknown] at hperm
  rw [only?_eq_some_iff]
  cases hv : f.2.map (member f.1) with
  | none => rwa [hv, Option.toList_none, List.perm_nil] at hperm
  | some m => rwa [hv, Option.toList_some, List.perm_singleton] at hperm

theorem eq_some_of_only? {name : String} {members : List (Option (List Char) × Json)} {w : Json}
    (hw : member name w ∈ members) {v : Option Json} (h : only? name members = some v) :
    v = some w := by
  have hmem : member name w ∈ members.filter fun m ↦ IsNamed name m :=
    List.mem_filter.mpr ⟨hw, decide_eq_true rfl⟩
  rw [only?_eq_some_iff.mp h, Option.mem_toList, Option.map_eq_some_iff] at hmem
  obtain ⟨v, rfl, hv⟩ := hmem
  exact congrArg some (congrArg Prod.snd hv)

/-- Where an object misses a name, no value is read for one of the fields. -/
theorem none_mem_of_misses {names : List String} {w : Json} (h : w.Misses names)
    {values : List (Option Json)} (hvalues : w.fields? names = some values) : none ∈ values := by
  obtain ⟨hname, hcount⟩ := h
  obtain ⟨-, hvalues⟩ := fields?_object_eq_some_iff.mp hvalues
  obtain ⟨v, hv, honly⟩ := exists_of_mem_left hvalues hname
  cases v with
  | none => exact hv
  | some v => exact absurd (congrArg List.length (only?_eq_some_iff.mp honly)) hcount

/-- An object of nothing but the fields holds them. -/
theorem holds_object (fields : List (String × Json)) :
    (object (fields.map fun f ↦ member f.1 f.2)).Holds (fields.map fun f ↦ (f.1, some f.2)) := by
  have hall : ∀ m ∈ fields.map fun f ↦ member f.1 f.2, m.1.isSome ∧
      ∃ f ∈ fields.map fun f ↦ (f.1, some f.2), IsNamed f.1 m := by
    refine List.forall_mem_map.mpr fun f hf ↦ ⟨rfl, _, List.mem_map_of_mem hf, rfl⟩
  refine .object (fun m hm ↦ (hall m hm).1) ?_
  rw [List.filter_eq_self.mpr fun m hm ↦ decide_eq_true (hall m hm).2, List.filterMap_map]
  simp

/-! ## Reading values -/

theorem spells_ofBytes (bytes : List UInt8) : Spells (ofBytes bytes) (ofBytes bytes).spell :=
  spells_array (List.forall_mem_map.mpr fun _ _ ↦ spells_natural _)

theorem u8?_natural (b : UInt8) : (natural b.toNat).u8? = some b := by
  simp [u8?, below?, b.toNat_lt]

theorem u32?_natural (n : UInt32) : (natural n.toNat).u32? = some n := by
  simp [u32?, below?, n.toNat_lt]

theorem u64?_natural (n : UInt64) : (natural n.toNat).u64? = some n := by
  simp [u64?, below?, n.toNat_lt]

theorem bool?_bool (b : Bool) : (bool b).bool? = some b := rfl

theorem withDefault?_map {read? : Json → Option α} {toJson : α → Json}
    (h : ∀ a, read? (toJson a) = some a) (default : α) (v : Option α) :
    withDefault? read? default (v.map toJson) = some (v.getD default) := by
  cases v with
  | none => rfl
  | some a => exact h a

theorem list?_of_forall₂ {item? : Json → Option α} {HeldBy : α → Json → Prop} {as : List α}
    {items : List Json} (h : List.Forall₂ HeldBy as items)
    (hitem : ∀ a v, HeldBy a v → item? v = some a) : (array items).list? item? = some as :=
  mapM_eq_some_iff.mpr (h.flip.imp fun v a ↦ hitem a v)

theorem list?_eq_none {item? : Json → Option α} {items : List Json} {v : Json} (hv : v ∈ items)
    (h : item? v = none) : (array items).list? item? = none := by
  refine Option.eq_none_iff_forall_ne_some.mpr fun as has ↦ ?_
  obtain ⟨a, -, ha⟩ := exists_of_mem_left (mapM_eq_some_iff.mp has) hv
  exact nomatch h.symm.trans ha

theorem bytes?_ofBytes (bytes : List UInt8) : (ofBytes bytes).bytes? = some bytes := by
  refine mapM_eq_some_iff.mpr ?_
  rw [List.forall₂_map_left_iff, List.forall₂_same]
  exact fun b _ ↦ u8?_natural b

theorem octets?_ofBytes {n : ℕ} (o : Octets n) : (ofBytes o.toList).octets? n = some o := by
  rw [octets?, bytes?_ofBytes]
  exact Octets.ofList?_eq_some_iff.mpr rfl

/-! ## Two fields -/

theorem spells_object_two {name name' : String} {v v' : Json} (h : Spells v v.spell)
    (h' : Spells v' v'.spell) :
    Spells (object [member name v, member name' v'])
      (object [member name v, member name' v']).spell :=
  spells_object (List.forall_mem_cons.mpr ⟨h, List.forall_mem_singleton.mpr h'⟩)

section TwoFields

variable {β γ : Type} {make : α → β → γ} {w : Json}

/-- Makes something of the values of two fields. -/
def twoFields? (names : List String) (first? : Option Json → Option α)
    (second? : Option Json → Option β) (make : α → β → γ) (w : Json) : Option γ := do
  match ← w.fields? names with
  | [x, y] => return make (← first? x) (← second? y)
  | _ => none

theorem twoFields?_of_holds {name name' : String} (hne : name ≠ name') {x y : Option Json}
    (h : w.Holds [(name, x), (name', y)]) {first? : Option Json → Option α}
    {second? : Option Json → Option β} {a : α} {b : β} (hx : first? x = some a)
    (hy : second? y = some b) :
    twoFields? [name, name'] first? second? make w = some (make a b) := by
  have hvalues : w.fields? [name, name'] = some [x, y] := fields?_of_holds (by simpa using hne) h
  simp [twoFields?, hvalues, hx, hy]

theorem twoFields?_eq_none {names : List String} (h : w.Misses names)
    {readFirst? : Json → Option α} {readSecond? : Json → Option β} :
    twoFields? names (required? readFirst?) (required? readSecond?) make w = none := by
  rw [twoFields?]
  cases hvalues : w.fields? names with
  | none => rfl
  | some values =>
    have hnone := none_mem_of_misses h hvalues
    rw [Option.bind_eq_bind, Option.bind_some]
    split
    · next x y =>
      obtain rfl | rfl : none = x ∨ none = y := by simpa using hnone
      · rfl
      · simp [required?]
    · rfl

end TwoFields

end NodeAdmission.Json
