import NodeAdmission.Proofs.Json.Fields
/-!
# Entities and settings in JSON

Every entity can be written in JSON and read again, and so can settings. What is read does not
depend on how the fields are written down: it is the same for all texts of all objects that hold
them (`HeldBy`), among whatever other members. An object from which a field of an entity is missing,
or in which one is repeated, is not read.
-/

namespace NodeAdmission

open Json

/-! ## Outpoints -/

namespace OutPoint

/-- The value is an object that holds the fields of the outpoint. -/
def HeldBy (o : OutPoint) (w : Json) : Prop :=
  w.Holds [("txid", some (ofBytes o.txid.toList)), ("n", some (.natural o.index.toNat))]

/-- The value is an object that has one of the fields not exactly once. -/
def MissedBy (w : Json) : Prop := w.Misses ["txid", "n"]

theorem ofJson?_eq_twoFields? :
    ofJson? = twoFields? ["txid", "n"] (required? (octets? 32)) (required? u32?) mk := rfl

theorem ofJson?_of_heldBy {o : OutPoint} {w : Json} (h : o.HeldBy w) : ofJson? w = some o := by
  rw [ofJson?_eq_twoFields?]
  exact twoFields?_of_holds (by decide) h (octets?_ofBytes _) (u32?_natural _)

theorem ofJson?_of_missedBy {w : Json} (h : MissedBy w) : ofJson? w = none := by
  rw [ofJson?_eq_twoFields?]
  exact twoFields?_eq_none h

theorem heldBy_toJson (o : OutPoint) : o.HeldBy o.toJson :=
  holds_object [("txid", ofBytes o.txid.toList), ("n", .natural o.index.toNat)]

theorem spells_toJson (o : OutPoint) : Spells o.toJson o.toJson.spell :=
  spells_object_two (spells_ofBytes _) (spells_natural _)

end OutPoint

/-! ## Outputs -/

namespace Output

/-- The value is an object that holds the fields of the output. -/
def HeldBy (o : Output) (w : Json) : Prop :=
  w.Holds [("value", some (.natural o.value.toNat)), ("script_pubkey", some (ofBytes o.script))]

/-- The value is an object that has one of the fields not exactly once. -/
def MissedBy (w : Json) : Prop := w.Misses ["value", "script_pubkey"]

theorem ofJson?_eq_twoFields? :
    ofJson? = twoFields? ["value", "script_pubkey"] (required? u64?) (required? bytes?) mk := rfl

theorem ofJson?_of_heldBy {o : Output} {w : Json} (h : o.HeldBy w) : ofJson? w = some o := by
  rw [ofJson?_eq_twoFields?]
  exact twoFields?_of_holds (by decide) h (u64?_natural _) (bytes?_ofBytes _)

theorem ofJson?_of_missedBy {w : Json} (h : MissedBy w) : ofJson? w = none := by
  rw [ofJson?_eq_twoFields?]
  exact twoFields?_eq_none h

theorem heldBy_toJson (o : Output) : o.HeldBy o.toJson :=
  holds_object [("value", .natural o.value.toNat), ("script_pubkey", ofBytes o.script)]

theorem spells_toJson (o : Output) : Spells o.toJson o.toJson.spell :=
  spells_object_two (spells_natural _) (spells_ofBytes _)

end Output

/-! ## Transactions -/

namespace Transaction

/-- The value is an object that holds the fields of the transaction, where the items of the two
arrays hold those of its inputs and outputs. -/
def HeldBy (tx : Transaction) (w : Json) : Prop :=
  ∃ inputs outputs, List.Forall₂ OutPoint.HeldBy tx.inputs inputs ∧
    List.Forall₂ Output.HeldBy tx.outputs outputs ∧
    w.Holds [("version", some (.natural tx.version.toNat)), ("inputs", some (.array inputs)),
      ("vout", some (.array outputs))]

/-- The value is an object that has one of the fields not exactly once, or that has an input or an
output of this kind. -/
def MissedBy (w : Json) : Prop :=
  w.Misses ["version", "inputs", "vout"] ∨ ∃ members items, w = .object members ∧
    ((member "inputs" (.array items) ∈ members ∧ ∃ v ∈ items, OutPoint.MissedBy v) ∨
      member "vout" (.array items) ∈ members ∧ ∃ v ∈ items, Output.MissedBy v)

theorem ofJson?_eq_some_iff {w : Json} {tx : Transaction} : ofJson? w = some tx ↔
    ∃ version inputs outputs, w.fields? ["version", "inputs", "vout"] =
        some [version, inputs, outputs] ∧ required? u32? version = some tx.version ∧
      required? (list? OutPoint.ofJson?) inputs = some tx.inputs ∧
      required? (list? Output.ofJson?) outputs = some tx.outputs := by
  unfold ofJson?
  constructor
  · intro h
    obtain ⟨values, hvalues, h⟩ := Option.bind_eq_some_iff.mp h
    split at h
    · next version inputs outputs =>
      simp only [Option.bind_eq_bind, Option.bind_eq_some_iff, Option.pure_def,
        Option.some.injEq] at h
      obtain ⟨_, hversion, _, hinputs, _, houtputs, rfl⟩ := h
      exact ⟨version, inputs, outputs, hvalues, hversion, hinputs, houtputs⟩
    · nomatch h
  · rintro ⟨version, inputs, outputs, hvalues, hversion, hinputs, houtputs⟩
    simp [hvalues, hversion, hinputs, houtputs]

theorem ofJson?_of_heldBy {tx : Transaction} {w : Json} (h : tx.HeldBy w) :
    ofJson? w = some tx := by
  obtain ⟨inputs, outputs, hinputs, houtputs, hfields⟩ := h
  exact ofJson?_eq_some_iff.mpr ⟨_, _, _, fields?_of_holds (by simp) hfields, u32?_natural _,
    list?_of_forall₂ hinputs fun _ _ ↦ OutPoint.ofJson?_of_heldBy,
    list?_of_forall₂ houtputs fun _ _ ↦ Output.ofJson?_of_heldBy⟩

theorem ofJson?_of_missedBy {w : Json} (h : MissedBy w) : ofJson? w = none := by
  refine Option.eq_none_iff_forall_ne_some.mpr fun tx htx ↦ ?_
  obtain ⟨version, inputs, outputs, hvalues, hversion, hinputs, houtputs⟩ :=
    ofJson?_eq_some_iff.mp htx
  obtain hfields | ⟨members, items, rfl, hitems⟩ := h
  · obtain rfl | rfl | rfl : none = version ∨ none = inputs ∨ none = outputs := by
      simpa using none_mem_of_misses hfields hvalues
    · nomatch hversion
    · nomatch hinputs
    · nomatch houtputs
  · obtain ⟨-, honly⟩ := fields?_object_eq_some_iff.mp hvalues
    simp only [List.forall₂_cons, List.Forall₂.nil, and_true] at honly
    obtain ⟨hmember, v, hv, hmissed⟩ | ⟨hmember, v, hv, hmissed⟩ := hitems
    · rw [eq_some_of_only? hmember honly.2.1] at hinputs
      exact nomatch (list?_eq_none hv (OutPoint.ofJson?_of_missedBy hmissed)).symm.trans hinputs
    · rw [eq_some_of_only? hmember honly.2.2] at houtputs
      exact nomatch (list?_eq_none hv (Output.ofJson?_of_missedBy hmissed)).symm.trans houtputs

theorem heldBy_toJson (tx : Transaction) : tx.HeldBy tx.toJson := by
  refine ⟨_, _, ?_, ?_, holds_object [("version", .natural tx.version.toNat),
    ("inputs", .array (tx.inputs.map OutPoint.toJson)),
    ("vout", .array (tx.outputs.map Output.toJson))]⟩
  · rw [List.forall₂_map_right_iff, List.forall₂_same]
    exact fun o _ ↦ o.heldBy_toJson
  · rw [List.forall₂_map_right_iff, List.forall₂_same]
    exact fun o _ ↦ o.heldBy_toJson

theorem spells_toJson (tx : Transaction) : Spells tx.toJson tx.toJson.spell := by
  refine spells_object ?_
  simp only [List.forall_mem_cons, List.not_mem_nil, false_implies, implies_true, and_true]
  exact ⟨spells_natural _, spells_array (List.forall_mem_map.mpr fun o _ ↦ o.spells_toJson),
    spells_array (List.forall_mem_map.mpr fun o _ ↦ o.spells_toJson)⟩

end Transaction

/-! ## Anchors -/

namespace Anchor

/-- The value is an object that holds the fields of the anchor. -/
def HeldBy (a : Anchor) (w : Json) : Prop :=
  w.Holds [("height", some (.natural a.height.toNat)), ("hash", some (ofBytes a.hash.toList))]

/-- The value is an object that has one of the fields not exactly once. -/
def MissedBy (w : Json) : Prop := w.Misses ["height", "hash"]

theorem ofJson?_eq_twoFields? :
    ofJson? = twoFields? ["height", "hash"] (required? u32?) (required? (octets? 32)) mk := rfl

theorem ofJson?_of_heldBy {a : Anchor} {w : Json} (h : a.HeldBy w) : ofJson? w = some a := by
  rw [ofJson?_eq_twoFields?]
  exact twoFields?_of_holds (by decide) h (u32?_natural _) (octets?_ofBytes _)

theorem ofJson?_of_missedBy {w : Json} (h : MissedBy w) : ofJson? w = none := by
  rw [ofJson?_eq_twoFields?]
  exact twoFields?_eq_none h

theorem heldBy_toJson (a : Anchor) : a.HeldBy a.toJson :=
  holds_object [("height", .natural a.height.toNat), ("hash", ofBytes a.hash.toList)]

theorem spells_toJson (a : Anchor) : Spells a.toJson a.toJson.spell :=
  spells_object_two (spells_natural _) (spells_ofBytes _)

end Anchor

/-! ## Settings -/

namespace StakeParams

/-- The value is an object that holds some of the fields, and the others have their defaults. -/
def HeldBy (p : StakeParams) (w : Json) : Prop :=
  ∃ count collateral : Option UInt64,
    p = ⟨count.getD 10, collateral.getD 500_000_000_000⟩ ∧
    w.Holds [("max_collateral_count", count.map fun n ↦ .natural n.toNat),
      ("spv_collateral", collateral.map fun n ↦ .natural n.toNat)]

theorem ofJson?_eq_twoFields? : ofJson? = twoFields? ["max_collateral_count", "spv_collateral"]
    (withDefault? u64? 10) (withDefault? u64? 500_000_000_000) mk := rfl

theorem ofJson?_of_heldBy {p : StakeParams} {w : Json} (h : p.HeldBy w) : ofJson? w = some p := by
  obtain ⟨count, collateral, rfl, hfields⟩ := h
  rw [ofJson?_eq_twoFields?]
  exact twoFields?_of_holds (by decide) hfields (withDefault?_map u64?_natural _ _)
    (withDefault?_map u64?_natural _ _)

theorem heldBy_toJson (p : StakeParams) : p.HeldBy p.toJson :=
  ⟨some p.maxCollateralCount, some p.spvCollateral, rfl, holds_object
    [("max_collateral_count", .natural p.maxCollateralCount.toNat),
      ("spv_collateral", .natural p.spvCollateral.toNat)]⟩

theorem spells_toJson (p : StakeParams) : Spells p.toJson p.toJson.spell :=
  spells_object_two (spells_natural _) (spells_natural _)

end StakeParams

namespace ViewPolicy

/-- The value is an object that holds some of the fields, and the others have their defaults. -/
def HeldBy (p : ViewPolicy) (w : Json) : Prop :=
  ∃ (staleBlocks : Option UInt32) (allowMempool : Option Bool),
    p = ⟨staleBlocks.getD 1440, allowMempool.getD true⟩ ∧
    w.Holds [("stale_blocks", staleBlocks.map fun n ↦ .natural n.toNat),
      ("allow_mempool", allowMempool.map .bool)]

theorem ofJson?_eq_twoFields? : ofJson? = twoFields? ["stale_blocks", "allow_mempool"]
    (withDefault? u32? 1440) (withDefault? bool? true) mk := rfl

theorem ofJson?_of_heldBy {p : ViewPolicy} {w : Json} (h : p.HeldBy w) : ofJson? w = some p := by
  obtain ⟨staleBlocks, allowMempool, rfl, hfields⟩ := h
  rw [ofJson?_eq_twoFields?]
  exact twoFields?_of_holds (by decide) hfields (withDefault?_map u32?_natural _ _)
    (withDefault?_map bool?_bool _ _)

theorem heldBy_toJson (p : ViewPolicy) : p.HeldBy p.toJson :=
  ⟨some p.staleBlocks, some p.allowMempool, rfl, holds_object
    [("stale_blocks", .natural p.staleBlocks.toNat), ("allow_mempool", .bool p.allowMempool)]⟩

theorem spells_toJson (p : ViewPolicy) : Spells p.toJson p.toJson.spell :=
  spells_object_two (spells_natural _) (spells_bool _)

end ViewPolicy

/-! ## Writing and reading -/

namespace Json

variable {α : Type}

/-- What is written is read again, and so is whatever is held by the value that a text spells. -/
structure ReadsBack (toJson : α → Json) (read? : Json → Option α) (HeldBy : α → Json → Prop) :
    Prop where
  compact (a : α) : decode? read? (toJson a).compact = some a
  held {a : α} {w : Json} {text : String} (hw : HeldBy a w) (htext : Spells w text.toList) :
    decode? read? text = some a

/-- The texts of some values are not read. -/
def Refuses (read? : Json → Option α) (MissedBy : Json → Prop) : Prop :=
  ∀ (w : Json) (text : String), MissedBy w → Spells w text.toList → decode? read? text = none

theorem decode?_of_spells {read? : Json → Option α} {w : Json} {text : String}
    (htext : Spells w text.toList) : decode? read? text = read? w := by
  rw [decode?, parse?_of_spells htext]
  rfl

theorem readsBack {toJson : α → Json} {read? : Json → Option α} {HeldBy : α → Json → Prop}
    (hread : ∀ a w, HeldBy a w → read? w = some a) (hheld : ∀ a, HeldBy a (toJson a))
    (hspells : ∀ a, Spells (toJson a) (toJson a).spell) : ReadsBack toJson read? HeldBy where
  compact a := by
    have htext : Spells (toJson a) (toJson a).compact.toList := by
      rw [Json.compact, String.toList_ofList]
      exact hspells a
    rw [decode?_of_spells htext, hread a _ (hheld a)]
  held hw htext := by rw [decode?_of_spells htext, hread _ _ hw]

theorem refuses {read? : Json → Option α} {MissedBy : Json → Prop}
    (h : ∀ w, MissedBy w → read? w = none) : Refuses read? MissedBy := by
  intro w text hw htext
  rw [decode?_of_spells htext, h w hw]

/-- **Entities and settings round-trip through JSON.** Each is read from its own compact text, and
from any text of an object that holds its fields once each: in any order, with any white space, and
among members with other names. Settings are read from any of their fields, with defaults for the
others; an entity is not read where one of its fields is missing or repeated. -/
theorem readsBack_entities_and_settings :
    (ReadsBack OutPoint.toJson OutPoint.ofJson? OutPoint.HeldBy ∧
      Refuses OutPoint.ofJson? OutPoint.MissedBy) ∧
    (ReadsBack Output.toJson Output.ofJson? Output.HeldBy ∧
      Refuses Output.ofJson? Output.MissedBy) ∧
    (ReadsBack Transaction.toJson Transaction.ofJson? Transaction.HeldBy ∧
      Refuses Transaction.ofJson? Transaction.MissedBy) ∧
    (ReadsBack Anchor.toJson Anchor.ofJson? Anchor.HeldBy ∧
      Refuses Anchor.ofJson? Anchor.MissedBy) ∧
    ReadsBack StakeParams.toJson StakeParams.ofJson? StakeParams.HeldBy ∧
    ReadsBack ViewPolicy.toJson ViewPolicy.ofJson? ViewPolicy.HeldBy :=
  ⟨⟨readsBack (fun _ _ ↦ OutPoint.ofJson?_of_heldBy) OutPoint.heldBy_toJson
      OutPoint.spells_toJson, refuses fun _ ↦ OutPoint.ofJson?_of_missedBy⟩,
    ⟨readsBack (fun _ _ ↦ Output.ofJson?_of_heldBy) Output.heldBy_toJson Output.spells_toJson,
      refuses fun _ ↦ Output.ofJson?_of_missedBy⟩,
    ⟨readsBack (fun _ _ ↦ Transaction.ofJson?_of_heldBy) Transaction.heldBy_toJson
      Transaction.spells_toJson, refuses fun _ ↦ Transaction.ofJson?_of_missedBy⟩,
    ⟨readsBack (fun _ _ ↦ Anchor.ofJson?_of_heldBy) Anchor.heldBy_toJson Anchor.spells_toJson,
      refuses fun _ ↦ Anchor.ofJson?_of_missedBy⟩,
    readsBack (fun _ _ ↦ StakeParams.ofJson?_of_heldBy) StakeParams.heldBy_toJson
      StakeParams.spells_toJson,
    readsBack (fun _ _ ↦ ViewPolicy.ofJson?_of_heldBy) ViewPolicy.heldBy_toJson
      ViewPolicy.spells_toJson⟩

/-- Stake parameters are read from an object with one of the fields and with another member. -/
theorem decode?_collateral_beside_note :
    decode? StakeParams.ofJson? "\x7b\"note\":[],\"spv_collateral\" : 7\x7d" =
      some { maxCollateralCount := 10, spvCollateral := 7 } := by
  let members := [member "note" (.array []), member "spv_collateral" (.natural 7)]
  have hheld : StakeParams.HeldBy { maxCollateralCount := 10, spvCollateral := 7 }
      (.object members) :=
    ⟨none, some 7, rfl, .object (by simp [members, member]) (by simp [members])⟩
  have hnote : Spells (.string (some "note".toList)) "\"note\"".toList := spells_string _
  have hempty : Spells (.array []) "[]".toList := .emptyArray (List.forall_mem_nil _)
  have hname : Spells (.string (some "spv_collateral".toList)) "\"spv_collateral\" ".toList :=
    (spells_string _).padded (List.forall_mem_nil _) (by decide)
  have hseven : Spells (.natural 7) " 7".toList :=
    @Spells.padded _ [' '] _ [] (by decide) (spells_natural 7) (List.forall_mem_nil _)
  have htext : Spells (.object members) "\x7b\"note\":[],\"spv_collateral\" : 7\x7d".toList :=
    @Spells.object [⟨_, _, _, _⟩, ⟨_, _, _, _⟩] (List.cons_ne_nil _ _)
      (List.forall_mem_cons.mpr ⟨hnote, List.forall_mem_cons.mpr ⟨hname, List.forall_mem_nil _⟩⟩)
      (List.forall_mem_cons.mpr ⟨hempty, List.forall_mem_cons.mpr ⟨hseven, List.forall_mem_nil _⟩⟩)
  exact readsBack_entities_and_settings.2.2.2.2.1.held hheld htext

end Json

end NodeAdmission
