/-
SigScan.Proofs.Registry.Listing — the lists of entries.

Entries that stand under their own names are listed by name: the
names of all entries increase by their bytes, and they are the registered names
(`increasing_names_all`, `mem_names_all`). The entries that are not settled are listed in
the same way (`increasing_names_pending`, `mem_names_pending`).
-/
import SigScan.Proofs.NameTable
import SigScan.Proofs.Text.ByteOrder
import SigScan.Registry

namespace SigScan

namespace Text.Utf8

/-- Each name is less than those behind it, byte by byte. -/
def Increasing (names : List String) : Prop :=
  names.Pairwise fun a b => bytes a < bytes b

theorem Increasing.sublist {names names' : List String} (h : Increasing names)
    (hs : names'.Sublist names) : Increasing names' :=
  List.Pairwise.sublist hs h

end Text.Utf8

open Text.Utf8 (Increasing)

theorem NameTable.increasing_names {α : Type} (t : NameTable α) : Increasing t.names :=
  List.pairwise_map.2 (t.sorted.imp Text.Utf8.bytes_lt_iff.2)

namespace Registry

/-- Every entry has the name that it stands under. -/
structure Filed (r : Registry) : Prop where
  name_eq : ∀ name e, r.find? name = some e → e.name = name

variable {r : Registry}

theorem filed_empty : empty.Filed where
  name_eq name e h := by simp [empty, find?, NameTable.empty, NameTable.find?] at h

namespace Filed

theorem find?_of_mem_all (h : r.Filed) {e : Entry} (he : e ∈ r.all) : r.find? e.name = some e := by
  obtain ⟨⟨name, e⟩, hmem, rfl⟩ := List.mem_map.1 he
  have hf := NameTable.find?_of_mem_pairs hmem
  exact h.name_eq name e hf ▸ hf

theorem map_name_all (h : r.Filed) : r.all.map Entry.name = r.entries.names := by
  rw [all, NameTable.values, NameTable.names, List.map_map]
  refine List.map_congr_left fun p hp => ?_
  exact h.name_eq p.1 p.2 (NameTable.find?_of_mem_pairs hp)

theorem nodup_names_all (h : r.Filed) : (r.all.map Entry.name).Nodup := by
  rw [h.map_name_all]
  exact r.entries.nodup_names

theorem nodup_names_pending (h : r.Filed) : (r.pending.map Entry.name).Nodup :=
  h.nodup_names_all.sublist (List.filter_sublist.map Entry.name)

/-- The names of all entries increase. -/
theorem increasing_names_all (h : r.Filed) : Increasing (r.all.map Entry.name) := by
  rw [h.map_name_all]
  exact r.entries.increasing_names

theorem increasing_names_filter (h : r.Filed) (p : Entry → Bool) :
    Increasing ((r.all.filter p).map Entry.name) :=
  h.increasing_names_all.sublist (List.filter_sublist.map Entry.name)

/-- The names of the entries that are not settled increase. -/
theorem increasing_names_pending (h : r.Filed) : Increasing (r.pending.map Entry.name) :=
  h.increasing_names_filter _

theorem mem_names_filter (h : r.Filed) {p : Entry → Bool} {name : String} :
    name ∈ (r.all.filter p).map Entry.name ↔ ∃ e, r.find? name = some e ∧ p e = true := by
  simp only [List.mem_map, List.mem_filter]
  constructor
  · rintro ⟨e, ⟨he, hp⟩, rfl⟩
    exact ⟨e, h.find?_of_mem_all he, hp⟩
  · rintro ⟨e, hf, hp⟩
    exact ⟨e, ⟨NameTable.mem_values_of_find? hf, hp⟩, h.name_eq name e hf⟩

/-- All entries are those of the registered names. -/
theorem mem_names_all (h : r.Filed) {name : String} :
    name ∈ r.all.map Entry.name ↔ ∃ e, r.find? name = some e := by
  simpa using h.mem_names_filter (p := fun _ => true)

/-- The pending entries are those of the registered names that are not settled. -/
theorem mem_names_pending (h : r.Filed) {name : String} :
    name ∈ r.pending.map Entry.name ↔ ∃ e, r.find? name = some e ∧ e.isSettled = false :=
  h.mem_names_filter.trans (by simp)

end Filed

end Registry

end SigScan
