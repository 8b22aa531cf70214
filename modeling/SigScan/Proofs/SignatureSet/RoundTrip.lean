/-
SigScan.Proofs.SignatureSet.RoundTrip — signature files give back what was saved.

A written definition has its members in the order of the fields, with or without an offset,
and reading them one by one leads back to the definition (`Definition.written_toJson`). With
that, the array of all definitions and the record around it are read back, for any texts in
them and any number of definitions. So a saved set is loaded as it was, saving it again gives
the same bytes, and different sets have different files (`saved_set_loads`).
-/
import SigScan.Proofs.Json.Written
import SigScan.SignatureSet.File

namespace SigScan

open Json (Adds Written)

namespace Definition

/-- A written offset is a number of 32 bits, and no null. -/
theorem written_offset (n : UInt32) :
    Written (Json.optional (Json.natural maxOffset)) (Text.Decimal.text n.toNat)
      (some n.toNat) := by
  have hlt : n.toNat < 4294967296 := n.toNat_lt
  have hbound : n.toNat ≤ maxOffset := Nat.le_of_lt_succ hlt
  have hsize : n.toNat < UInt64.size := Nat.lt_trans hlt (by decide)
  have hdigit : ∀ d, d < 10 → Text.Decimal.digit d ≠ 'n' := by decide
  refine (Json.written_text hbound hsize).optional ?_
  intro c hc
  obtain ⟨d, ds, hd, ht⟩ := Json.text_eq_cons n.toNat
  rw [ht] at hc
  rw [← Option.some.inj hc]
  exact hdigit d hd

/-- What the members of a definition add up to. -/
def draft (d : Definition) : Draft where
  name := some d.name
  pattern := some d.pattern
  offset := d.offset.map fun n => some n.toNat
  deref := some d.deref

theorem finish_draft (d : Definition) : d.draft.finish = some d := by
  obtain ⟨name, pattern, offset, deref⟩ := d
  cases offset with
  | none => rfl
  | some n => simp [draft, Draft.finish]

/-- The members are read one by one, each into its own field. -/
theorem adds_jsonMembers (d : Definition) :
    Adds (Json.fieldMember fields) {} d.jsonMembers d.draft := by
  obtain ⟨name, pattern, offset, deref⟩ := d
  refine .field rfl rfl (Json.written_quote name) (.field rfl rfl (Json.written_quote pattern) ?_)
  cases offset with
  | none => exact .field rfl rfl (Json.written_boolText deref) (.nil _)
  | some n =>
    exact .field rfl rfl (written_offset n)
      (.field rfl rfl (Json.written_boolText deref) (.nil _))

theorem written_toJson (depth : Nat) (d : Definition) : Written ofJson (d.toJson depth) d :=
  .record (adds_jsonMembers d) (finish_draft d) depth

end Definition

namespace SignatureSet

theorem written_signatures (ds : List Definition) :
    List.Forall₂ (Written Definition.ofJson) (ds.map (Definition.toJson 2)) ds := by
  rw [List.forall₂_map_left_iff, List.forall₂_same]
  intro d _
  exact d.written_toJson 2

/-- The text of a set is read as the set. -/
theorem ofJson_toJson (set : SignatureSet) : ofJson set.toJson = .ok set := by
  have hadds : Adds (Json.fieldMember fields) {}
      [("version", Json.quote set.version),
        ("signatures", Json.arrayText 1 (set.signatures.map (Definition.toJson 2)))]
      ⟨some set.version, some set.signatures⟩ :=
    .field rfl rfl (Json.written_quote set.version)
      (.field rfl rfl (.array (written_signatures set.signatures) 1) (.nil _))
  have hfinish : Draft.finish ⟨some set.version, some set.signatures⟩ = some set := rfl
  rw [ofJson, toJson]
  exact (Written.record hadds hfinish 0).whole

theorem load_toJson (set : SignatureSet) : load (.ok set.toJson.toUTF8) = .ok set := by
  rw [load, FileFault.decode_toUTF8]
  dsimp only
  rw [ofJson_toJson]
  rfl

/-- Every set is loaded from its file as it was saved, saving what was loaded gives the same
bytes, and sets that differ, if only in an offset that is absent or zero, have different
files. -/
theorem saved_set_loads :
    (∀ set : SignatureSet, load (.ok set.toJson.toUTF8) = .ok set)
    ∧ (∀ set : SignatureSet,
        (load (.ok set.toJson.toUTF8)).map (fun loaded => loaded.toJson.toUTF8) =
          .ok set.toJson.toUTF8)
    ∧ ∀ a b : SignatureSet, a.toJson.toUTF8 = b.toJson.toUTF8 ↔ a = b := by
  refine ⟨load_toJson, ?_, ?_⟩
  · intro set
    rw [load_toJson]
    rfl
  · intro a b
    constructor
    · intro h
      have hload := load_toJson a
      rw [h, load_toJson] at hload
      exact (Except.ok.inj hload).symm
    · rintro rfl
      rfl

end SignatureSet

end SigScan
