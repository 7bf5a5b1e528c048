import NodeAdmission.Proofs.Curve.Encoding
import NodeAdmission.Stake.Destination
/-!
# Scripts that pay a key

A script that pays the hash of a key is read back as paying that hash, and a script that pays a key
in full is read as paying the key's hash. So the owner of a key is found whichever of the two
scripts pays it, in whichever form the key is written.
-/

namespace NodeAdmission.Destination

/-- The script that pays a key in full. -/
def payToKey (key : List UInt8) : List UInt8 := UInt8.ofNat key.length :: (key ++ [opCheckSig])

theorem hashBefore?_eq_some_iff {ending bytes : List UInt8} {id : KeyId} :
    hashBefore? ending bytes = some id ↔ bytes = id.toList ++ ending := by
  rw [hashBefore?]
  constructor
  · intro h
    split at h
    · next hending =>
      rw [Octets.ofList?_eq_some_iff.mp h, ← hending, List.take_append_drop]
    · simp at h
  · rintro rfl
    rw [List.drop_left' id.length_toList, List.take_left' id.length_toList, if_pos rfl]
    exact Octets.ofList?_eq_some_iff.mpr rfl

theorem ofScript?_payToKeyHash (id : KeyId) :
    ofScript? (payToKeyHash id) = some (.keyHash id) := by
  have hread : hashBefore? [opEqualVerify, opCheckSig] (id.toList ++ [opEqualVerify, opCheckSig]) =
      some id := hashBefore?_eq_some_iff.mpr rfl
  simp only [payToKeyHash, opDup, opHash160, List.cons_append, List.nil_append, ofScript?]
  rw [hread]
  rfl

/-- Behind the byte for its length, a key is read or nothing is. -/
theorem ofScript?_key {length : UInt8} {key : List UInt8} (h : length = 33 ∨ length = 65) :
    ofScript? (length :: (key ++ [opCheckSig])) =
      if isKeyOfLength length key then some (.keyHash (Hash.hash160 key)) else none := by
  rcases h with rfl | rfl <;> simp [ofScript?]

theorem ofScript?_cons_append {length : UInt8} {key : List UInt8}
    (h : isKeyOfLength length key = true) :
    ofScript? (length :: (key ++ [opCheckSig])) = some (.keyHash (Hash.hash160 key)) := by
  have hlength : length = 33 ∨ length = 65 := by
    rw [isKeyOfLength] at h
    rcases key with _ | ⟨tag, rest⟩
    · simp at h
    · simp only [List.head?_cons, Bool.and_eq_true, Bool.or_eq_true, beq_iff_eq] at h
      exact h.2.imp And.left And.left
  rw [ofScript?_key hlength, if_pos h]

theorem isKeyOfLength_serialize (a : Curve.Affine) (compress : Bool) :
    isKeyOfLength (UInt8.ofNat (a.serialize compress).length) (a.serialize compress) = true := by
  rw [isKeyOfLength, Curve.Affine.length_serialize]
  rcases compress with _ | _
  · rfl
  · cases hodd : a.yIsOdd <;> simp [Curve.Affine.serialize, Curve.Affine.compressed, hodd]

/-- A point's key is found in the script that pays it, in either form. -/
theorem ofScript?_payToKey_serialize (a : Curve.Affine) (compress : Bool) :
    ofScript? (payToKey (a.serialize compress)) =
      some (.keyHash (Hash.hash160 (a.serialize compress))) :=
  ofScript?_cons_append (isKeyOfLength_serialize a compress)

end NodeAdmission.Destination
