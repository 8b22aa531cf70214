/-
SigScan.Proofs.AddressCache.RoundTrip — cache files give back what was saved.

A cache is written as its version, its instant and its addresses by name. Each of these is
read back, the addresses in the order of names, from which the same table is built
(`written_addresses`). So a saved cache is loaded with the very instant that it was made at,
down to the nanosecond, and saving it again gives the same bytes (`saved_cache_loads`).
-/
import SigScan.AddressCache.File
import SigScan.Proofs.Instant.RoundTrip
import SigScan.Proofs.Json.Written
import SigScan.Proofs.NameTable

namespace SigScan

open Json (Adds Written)
open SigScan.Text

namespace AddressCache

/-- A cache as it can be saved and found again: it was made in the years 0 to 9999 and in no
leap second. -/
structure Storable (c : AddressCache) : Prop where
  year_nonneg : 0 ≤ c.createdAt.date.year
  year_le : c.createdAt.date.year ≤ 9999
  nanos_lt : c.createdAt.nanos < Instant.nanosPerSecond

theorem written_instant {t : Instant} (h : Instant.ofText? t.text = some t) :
    Written instantOfJson (Json.quote t.text) t := by
  refine (Json.written_quote t.text).via ?_
  intro cs rest hread
  simp only [instantOfJson, hread, h]

/-- The members of the addresses are read in their order, and the table is built from them. -/
theorem written_addresses (t : NameTable UInt64) (depth : Nat) :
    Written addressesOfJson
      (Json.objectText depth (t.pairs.map fun (name, offset) => (name, Decimal.text offset.toNat)))
      t := by
  have hpairs : ∀ p ∈ t.pairs.map fun p => (p.1, p.2.toNat),
      Written (Json.natural maxAddress) (Decimal.text p.2) p.2 := by
    intro p hp
    obtain ⟨q, -, rfl⟩ := List.mem_map.1 hp
    have hlt : q.2.toNat < UInt64.size := q.2.toNat_lt
    exact Json.written_text (Nat.le_of_lt_succ hlt) hlt
  have hwritten := Written.object hpairs depth
  rw [List.map_map] at hwritten
  refine hwritten.via ?_
  intro cs rest hread
  have hback : (t.pairs.map fun p => (p.1, p.2.toNat)).map
      (fun p => (p.1, UInt64.ofNat p.2)) = t.pairs := by
    simp [Function.comp_def]
  rw [addressesOfJson, hread]
  show Except.ok (NameTable.ofPairs ((t.pairs.map fun p => (p.1, p.2.toNat)).map
      fun p => (p.1, UInt64.ofNat p.2)), rest) = .ok (t, rest)
  rw [hback, NameTable.ofPairs_pairs]

/-- The text of a cache is read as the cache. -/
theorem ofJson_toJson {c : AddressCache} (h : c.Storable) : ofJson c.toJson = .ok c := by
  have htime := Instant.ofText?_text h.year_nonneg h.year_le h.nanos_lt
  have hadds : Adds (Json.fieldMember fields) {}
      [("version", Json.quote c.version),
        ("created_at", Json.quote c.createdAt.text),
        ("addresses", Json.objectText 1
          (c.addresses.pairs.map fun (name, offset) => (name, Decimal.text offset.toNat)))]
      ⟨some c.version, some c.createdAt, some c.addresses⟩ :=
    .field rfl rfl (Json.written_quote c.version)
      (.field rfl rfl (written_instant htime)
        (.field rfl rfl (written_addresses c.addresses 1) (.nil _)))
  have hfinish : Draft.finish ⟨some c.version, some c.createdAt, some c.addresses⟩ = some c := rfl
  rw [ofJson, toJson]
  exact (Written.record hadds hfinish 0).whole

theorem load_toJson {c : AddressCache} (h : c.Storable) : load (.ok c.toJson.toUTF8) = some c := by
  rw [load, FileFault.decode_toUTF8]
  dsimp only
  rw [ofJson_toJson h]

/-- A cache of the years 0 to 9999 is loaded from its file with the version, the instant and
the addresses that it was saved with, and saving what was loaded gives the same bytes. -/
theorem saved_cache_loads (c : AddressCache) (h : c.Storable) :
    load (.ok c.toJson.toUTF8) = some c
    ∧ (load (.ok c.toJson.toUTF8)).map (fun loaded => loaded.toJson.toUTF8) =
        some c.toJson.toUTF8 := by
  refine ⟨load_toJson h, ?_⟩
  rw [load_toJson h, Option.map_some]

/-- A cache made on the last day of a leap February, with the largest offset, a name with a
quote and a line end, and one outside the basic plane. -/
def leapDayCache : AddressCache where
  version := "\\ \"2\""
  createdAt := { seconds := 951868799, nanos := 123456789 }
  addresses := ⟨[("\"A\n", 0xFFFFFFFFFFFFFFFF), ("😀", 0)], by decide⟩

/-- It comes back with all nine digits of its fraction. -/
theorem saved_cache_loads_leapDay :
    leapDayCache.createdAt.text = "2000-02-29T23:59:59.123456789Z"
    ∧ leapDayCache.Storable
    ∧ load (.ok leapDayCache.toJson.toUTF8) = some leapDayCache := by
  have h : leapDayCache.Storable := by
    refine ⟨by decide, by decide, by decide⟩
  exact ⟨by decide, h, (saved_cache_loads leapDayCache h).1⟩

end AddressCache

end SigScan
