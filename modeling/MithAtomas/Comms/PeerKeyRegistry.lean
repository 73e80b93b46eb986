import MithAtomas.Identity.SignatureScheme

/-!
# The peer-key registry

`src/comms/peer_key_registry.cpp`: trust on first use. A pin is never overwritten
(`find_tryPin_of_find`), and `try_pin` succeeds exactly when the registry then holds the key it was
asked to pin (`tryPin_snd_iff`).
-/

namespace MithAtomas

/-- `std::map<HierarchicalID, IdentityKey>`. -/
abbrev PeerKeyRegistry := AList fun _ : HierarchicalID => IdentityKey

namespace PeerKeyRegistry

variable (keys : PeerKeyRegistry) (hid : HierarchicalID) (key : IdentityKey)

/-- `find`. -/
def find : Option IdentityKey :=
  AList.lookup hid keys

/-- `try_pin`, with its result. -/
def tryPin : PeerKeyRegistry × Bool :=
  match keys.find hid with
  | none => (AList.insert hid key keys, true)
  | some pinned => (keys, pinned.publicKey == key.publicKey)

variable {keys hid key}

/-- **A pin stays.** -/
theorem find_tryPin_of_find {hid' : HierarchicalID} {pinned : IdentityKey}
    (h : keys.find hid' = some pinned) : (keys.tryPin hid key).1.find hid' = some pinned := by
  unfold tryPin
  cases hfind : keys.find hid with
  | none =>
    have hne : hid' ≠ hid := by
      rintro rfl
      rw [hfind] at h
      cases h
    show AList.lookup hid' (AList.insert hid key keys) = some pinned
    rw [AList.lookup_insert_ne hne]
    exact h
  | some _ => exact h

/-- **One pin appears**, that of the key it was asked to pin. -/
theorem find_tryPin_new {hid' : HierarchicalID} {pinned : IdentityKey}
    (h : (keys.tryPin hid key).1.find hid' = some pinned) :
    keys.find hid' = some pinned ∨ (hid' = hid ∧ pinned = key) := by
  unfold tryPin at h
  split at h
  · change AList.lookup hid' (AList.insert hid key keys) = some pinned at h
    by_cases hhid : hid' = hid
    · subst hhid
      rw [AList.lookup_insert, Option.some.injEq] at h
      exact .inr ⟨rfl, h.symm⟩
    · rw [AList.lookup_insert_ne hhid] at h
      exact .inl h
  · exact .inl h

/-- The result of `try_pin` for an id that is pinned. -/
theorem tryPin_of_find {pinned : IdentityKey} (h : keys.find hid = some pinned) :
    keys.tryPin hid key = (keys, decide (pinned = key)) := by
  unfold tryPin
  rw [h]
  obtain ⟨p⟩ := pinned
  obtain ⟨k⟩ := key
  by_cases hpk : p = k <;> simp [hpk]

/-- **What success means**: the registry holds the key that was to be pinned. -/
theorem tryPin_snd_iff :
    (keys.tryPin hid key).2 = true ↔ (keys.tryPin hid key).1.find hid = some key := by
  cases hfind : keys.find hid with
  | none =>
    unfold tryPin
    rw [hfind]
    exact iff_of_true rfl (AList.lookup_insert keys)
  | some pinned =>
    rw [tryPin_of_find hfind]
    show decide (pinned = key) = true ↔ keys.find hid = some key
    rw [hfind, decide_eq_true_iff, Option.some.injEq]

end PeerKeyRegistry

end MithAtomas
