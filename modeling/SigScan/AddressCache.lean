/-
SigScan.AddressCache — addresses kept between sessions.

A cache holds the addresses of one version of a module, counted from its base, so that
they hold wherever the module is placed next. A cache is trusted for a day, for its own
version, and only if it holds any address; a trusted cache primes the entries of a
session that it names.

Main statements: an address that is kept comes back at every base (`place_offset`), and a
cache is trusted exactly under the three conditions (`isValidFor_iff`).
-/
import SigScan.AddressTable
import SigScan.Instant

namespace SigScan

/-- Addresses of one version of a module, counted from its base. -/
structure AddressCache where
  version : String
  createdAt : Instant
  addresses : NameTable UInt64
deriving DecidableEq, Repr

namespace AddressCache

/-- The name that a cache file has unless set otherwise. -/
def defaultFile : String := ".sigaddr-cache.json"

/-- The longest time for which a cache is trusted, in nanoseconds: twenty-four hours. -/
def maxAge : Int := 24 * 3600 * 1000000000

/-! ## Taking addresses out of a session -/

/-- How far an entry with an address lies behind the base; an address before the base is
not kept. -/
def offset? (base : UInt64) (e : Entry) : Option UInt64 :=
  match e.state with
  | .resolved address => if base ≤ address then some (address - base) else none
  | _ => none

/-- The addresses of a session, counted from a base. -/
def capture (version : String) (createdAt : Instant) (registry : Registry) (base : UInt64) :
    AddressCache where
  version := version
  createdAt := createdAt
  addresses := .ofPairs (registry.all.filterMap fun e => (offset? base e).map (e.name, ·))

/-! ## Using them again -/

/-- Whether the cache is trusted at `now` for a version. -/
def isValidFor (c : AddressCache) (now : Instant) (version : String) : Bool :=
  c.version == version && decide (now.since c.createdAt ≤ maxAge) && !c.addresses.pairs.isEmpty

/-- The address of an offset for a module at `base`. -/
def place (base offset : UInt64) : UInt64 :=
  base + offset

/-- Primes a session with addresses one after another and counts the entries that were
not settled before. Names that are not registered are passed over. -/
def primeAll (base : UInt64) (t : AddressTable) : List (String × UInt64) → Nat × AddressTable
  | [] => (0, t)
  | (name, offset) :: rest =>
    match t.prime name (place base offset) with
    | (.ok true, t') =>
      let (n, t'') := primeAll base t' rest
      (n + 1, t'')
    | (_, t') => primeAll base t' rest

/-- Primes a session with all addresses of the cache. -/
def apply (c : AddressCache) (t : AddressTable) (base : UInt64) : Nat × AddressTable :=
  primeAll base t c.addresses.pairs

/-- An offset that was kept leads back to the address of its entry. -/
theorem place_offset {base offset : UInt64} {e : Entry} (h : offset? base e = some offset) :
    e.state = .resolved (place base offset) := by
  unfold offset? at h
  split at h
  · next address hs =>
    split at h
    · obtain rfl : address - base = offset := by simpa using h
      rw [hs, place, UInt64.add_comm, UInt64.sub_add_cancel]
    · exact absurd h (by simp)
  · exact absurd h (by simp)

theorem isValidFor_iff {c : AddressCache} {now : Instant} {version : String} :
    c.isValidFor now version = true ↔
      c.version = version ∧ now.since c.createdAt ≤ maxAge ∧ c.addresses.pairs ≠ [] := by
  simp [isValidFor, and_assoc]

end AddressCache

end SigScan
