/-
SigScan.Proofs.Resolve.Displacement — where a displacement leads.

A displacement is a signed number of 32 bits, written into four bytes with the lowest
first. Read back from its bytes it is the number again (`value_bytes`, `bytes_value`), and
added to the address behind it the sum is taken over the integers and then cut to 64 bits
(`toNat_target`).

A match in a region that ends below the top of the address space resolves to its own
address, to the address that its displacement leads to, or to one of two failures
(`ResolvesTo`). The sum of match and offset may run past the top of the address space, but
where it comes back is never inside a region that takes up less than half of the address
space (`containsRange_field_iff`). So resolving tells which of the four it is, and
leads to exactly those addresses whose distance from the end of the displacement stands in
memory (`resolve_exact`).
-/
import SigScan.Resolve
import SigScan.Memory.Snapshot
import SigScan.Proofs.Signature.Representation

namespace SigScan

open Bytes

/-! ## Signed numbers of four bytes -/

namespace Displacement

/-- A number that 32 bits hold with its sign. -/
def Fits (d : Int) : Prop :=
  -0x80000000 ≤ d ∧ d < 0x80000000

instance (d : Int) : Decidable (Fits d) :=
  inferInstanceAs (Decidable (_ ∧ _))

/-- The number of four bytes, the lowest first. -/
def unsigned (b₀ b₁ b₂ b₃ : UInt8) : Nat :=
  b₀.toNat + 0x100 * b₁.toNat + 0x10000 * b₂.toNat + 0x1000000 * b₃.toNat

/-- The number of four bytes with its sign: the upper half of the numbers stands for the
negative ones. -/
def value (b₀ b₁ b₂ b₃ : UInt8) : Int :=
  if unsigned b₀ b₁ b₂ b₃ < 0x80000000 then unsigned b₀ b₁ b₂ b₃
  else unsigned b₀ b₁ b₂ b₃ - 0x100000000

/-- The four lowest bytes of a number, the lowest first. -/
def bytesOfNat (n : Nat) : ByteArray :=
  ⟨#[UInt8.ofNat n, UInt8.ofNat (n / 0x100), UInt8.ofNat (n / 0x10000),
    UInt8.ofNat (n / 0x1000000)]⟩

/-- The four bytes that hold a signed number. -/
def bytes (d : Int) : ByteArray :=
  bytesOfNat (d % 0x100000000).toNat

theorem unsigned_lt (b₀ b₁ b₂ b₃ : UInt8) : unsigned b₀ b₁ b₂ b₃ < 0x100000000 := by
  have h₀ := b₀.toNat_lt
  have h₁ := b₁.toNat_lt
  have h₂ := b₂.toNat_lt
  have h₃ := b₃.toNat_lt
  rw [unsigned]
  omega

theorem fits_value (b₀ b₁ b₂ b₃ : UInt8) : Fits (value b₀ b₁ b₂ b₃) := by
  have hlt := unsigned_lt b₀ b₁ b₂ b₃
  rw [Fits, value]
  split <;> omega

theorem bytesOfNat_unsigned (b₀ b₁ b₂ b₃ : UInt8) :
    bytesOfNat (unsigned b₀ b₁ b₂ b₃) = ⟨#[b₀, b₁, b₂, b₃]⟩ := by
  have h₀ := b₀.toNat_lt
  have h₁ := b₁.toNat_lt
  have h₂ := b₂.toNat_lt
  have h₃ := b₃.toNat_lt
  have hbyte : ∀ (n : Nat) (b : UInt8), n % 256 = b.toNat → UInt8.ofNat n = b := by
    intro n b h
    rw [← UInt8.toNat_inj, UInt8.toNat_ofNat', ← h]
  rw [bytesOfNat, unsigned, hbyte _ b₀ (by omega), hbyte _ b₁ (by omega), hbyte _ b₂ (by omega),
    hbyte _ b₃ (by omega)]

/-- The bytes of the number that four bytes hold are these bytes. -/
theorem bytes_value (b₀ b₁ b₂ b₃ : UInt8) : bytes (value b₀ b₁ b₂ b₃) = ⟨#[b₀, b₁, b₂, b₃]⟩ := by
  have hlt := unsigned_lt b₀ b₁ b₂ b₃
  have hn : (value b₀ b₁ b₂ b₃ % 0x100000000).toNat = unsigned b₀ b₁ b₂ b₃ := by
    rw [value]
    split <;> omega
  rw [bytes, hn, bytesOfNat_unsigned]

/-- The bytes of a signed number hold this number. -/
theorem value_bytes {d : Int} (h : Fits d) :
    ∃ b₀ b₁ b₂ b₃, bytes d = ⟨#[b₀, b₁, b₂, b₃]⟩ ∧ value b₀ b₁ b₂ b₃ = d := by
  obtain ⟨hlow, hhigh⟩ := h
  obtain ⟨n, hn⟩ : ∃ n, n = (d % 0x100000000).toNat := ⟨_, rfl⟩
  refine ⟨UInt8.ofNat n, UInt8.ofNat (n / 0x100), UInt8.ofNat (n / 0x10000),
    UInt8.ofNat (n / 0x1000000), by rw [bytes, ← hn, bytesOfNat], ?_⟩
  have hunsigned : unsigned (UInt8.ofNat n) (UInt8.ofNat (n / 0x100)) (UInt8.ofNat (n / 0x10000))
      (UInt8.ofNat (n / 0x1000000)) = n := by
    simp only [unsigned, UInt8.toNat_ofNat']
    omega
  rw [value, hunsigned]
  split <;> omega

/-- Four bytes put together and taken as an integer of 32 bits are the number that they
hold. -/
theorem toInt_word (b₀ b₁ b₂ b₃ : UInt8) :
    (word [b₀, b₁, b₂, b₃]).toUInt32.toInt32.toInt = value b₀ b₁ b₂ b₃ := by
  have hlt := unsigned_lt b₀ b₁ b₂ b₃
  have hnil : (word []).toNat = 0 := rfl
  have hword : (word [b₀, b₁, b₂, b₃]).toUInt32.toNat = unsigned b₀ b₁ b₂ b₃ := by
    simp only [UInt64.toNat_toUInt32, toNat_word_cons, hnil, unsigned] at hlt ⊢
    omega
  have hint : ∀ w : UInt32, w.toInt32.toInt = Int.bmod w.toNat 0x100000000 :=
    fun w => BitVec.toInt_eq_toNat_bmod _
  rw [hint, hword, Int.bmod_def, value]
  split <;> split <;> omega

end Displacement

/-- A displacement moves the address behind it by a signed distance, cut to 64 bits. -/
theorem toNat_target (field : UInt64) (d : Int32) :
    ((target field d).toNat : Int) = (field.toNat + 4 + d.toInt) % (UInt64.size : Int) := by
  have hsign : d.toInt = Int.bmod d.toInt64.toUInt64.toNat 0x10000000000000000 := by
    rw [← Int32.toInt_toInt64]
    exact BitVec.toInt_eq_toNat_bmod _
  have hlt := d.toInt64.toUInt64.toNat_lt
  have hsize : (UInt64.ofNat displacementSize).toNat = 4 := rfl
  rw [target, UInt64.toNat_add, UInt64.toNat_add, hsize, hsign, Int.bmod_def]
  simp only [UInt64.size]
  split <;> omega

/-! ## Reading a displacement -/

namespace Source

/-- No displacement comes back from an address: the read of its four bytes fails, or another
number of bytes is returned. -/
def Withholds (m : Source) (address : UInt64) : Prop :=
  (∃ fault, m.read address 4 = .error fault)
    ∨ ∃ bytes, m.read address 4 = .ok bytes ∧ bytes.size ≠ 4

theorem withholds_or (m : Source) (address : UInt64) :
    m.Withholds address ∨ ∃ b₀ b₁ b₂ b₃, m.read address 4 = .ok ⟨#[b₀, b₁, b₂, b₃]⟩ := by
  cases hread : m.read address 4 with
  | error fault => exact .inl (.inl ⟨fault, hread⟩)
  | ok bytes =>
    by_cases hsize : bytes.size = 4
    · obtain ⟨⟨l⟩⟩ := bytes
      match l, hsize with
      | [b₀, b₁, b₂, b₃], _ => exact .inr ⟨b₀, b₁, b₂, b₃, rfl⟩
    · exact .inl (.inr ⟨bytes, hread, hsize⟩)

theorem readInt32_of_withholds {m : Source} {address : UInt64} (h : m.Withholds address) :
    ∃ fault, m.readInt32 address = .error fault := by
  rcases h with ⟨fault, hread⟩ | ⟨bytes, hread, hsize⟩
  · exact ⟨fault, by simp [readInt32, readWord, hread, Except.map]⟩
  · exact ⟨⟨address, .short 4 bytes.size⟩, by simp [readInt32, readWord, hread, hsize, Except.map]⟩

theorem readInt32_of_read {m : Source} {address : UInt64} {b₀ b₁ b₂ b₃ : UInt8}
    (h : m.read address 4 = .ok ⟨#[b₀, b₁, b₂, b₃]⟩) :
    ∃ d, m.readInt32 address = .ok d ∧ d.toInt = Displacement.value b₀ b₁ b₂ b₃ := by
  refine ⟨(word [b₀, b₁, b₂, b₃]).toUInt32.toInt32, ?_, Displacement.toInt_word b₀ b₁ b₂ b₃⟩
  have hsize : (ByteArray.mk #[b₀, b₁, b₂, b₃]).size = 4 := rfl
  simp [readInt32, readWord, h, hsize, Except.map, toList]

end Source

/-! ## The place of a displacement -/

theorem toNat_field (address : UInt64) (offset : UInt32) :
    (address + offset.toUInt64).toNat = (address.toNat + offset.toNat) % UInt64.size := by
  rw [UInt64.toNat_add, UInt32.toNat_toUInt64]

/-- Inside a region that ends below the top of the address space the sum is not cut. -/
theorem toNat_field_of_le {region : Region} (hend : region.base.toNat + region.len < UInt64.size)
    {address : UInt64} {offset : UInt32}
    (hin : address.toNat + offset.toNat + 4 ≤ region.base.toNat + region.len) :
    (address + offset.toUInt64).toNat = address.toNat + offset.toNat := by
  rw [toNat_field, Nat.mod_eq_of_lt (by omega)]

section

variable {m : Source} {region : Region} {address : UInt64} {s : Signature}

/-- Whether a displacement lies in the region can be told without cutting the sum to 64 bits. -/
theorem containsRange_field_iff (hlen : region.len ≤ 0x7FFFFFFFFFFFFFFF)
    (hend : region.base.toNat + region.len < UInt64.size)
    (hlow : region.base.toNat ≤ address.toNat)
    (hhigh : address.toNat ≤ region.base.toNat + region.len) (offset : UInt32) :
    region.containsRange (address + offset.toUInt64) displacementSize = true ↔
      address.toNat + offset.toNat + 4 ≤ region.base.toNat + region.len := by
  have hoffset := offset.toNat_lt
  rw [Region.containsRange_iff_of_fits hend, toNat_field, displacementSize]
  -- A sum that runs past the top comes back below the offset; the region, which reaches up to
  -- the address, is too short to start that low.
  simp only [UInt64.size] at hend ⊢
  omega

/-! ## What a match resolves to -/

/-- What a match at an address of a region resolves to: whether the displacement lies in the
region, and the address that it leads to, are told over the integers. -/
inductive ResolvesTo (m : Source) (region : Region) (address : UInt64) (s : Signature) :
    Except FailureKind UInt64 → Prop
  | direct (hm : s.mode = .direct) : ResolvesTo m region address s (.ok address)
  | outOfBounds (hm : s.mode = .relativeDisplacement)
      (hout : region.base.toNat + region.len < address.toNat + s.offset.toNat + 4) :
      ResolvesTo m region address s (.error (.outOfBounds (address + s.offset.toUInt64)))
  | unreadable (hm : s.mode = .relativeDisplacement)
      (hin : address.toNat + s.offset.toNat + 4 ≤ region.base.toNat + region.len)
      (hread : m.Withholds (address + s.offset.toUInt64)) :
      ResolvesTo m region address s (.error (.unreadable (address + s.offset.toUInt64)))
  | displaced (hm : s.mode = .relativeDisplacement)
      (hin : address.toNat + s.offset.toNat + 4 ≤ region.base.toNat + region.len)
      (b₀ b₁ b₂ b₃ : UInt8)
      (hread : m.read (address + s.offset.toUInt64) 4 = .ok ⟨#[b₀, b₁, b₂, b₃]⟩) (t : UInt64)
      (ht : (t.toNat : Int) =
        (address.toNat + s.offset.toNat + 4 + Displacement.value b₀ b₁ b₂ b₃) %
          (UInt64.size : Int)) :
      ResolvesTo m region address s (.ok t)

theorem resolve_direct (hs : s.IsCompiled) (hm : s.mode = .direct) :
    resolve m ⟨address, region⟩ s = .ok address := by
  rw [resolve, follow_direct hm, hs.mode_eq_direct_iff.1 hm]
  simp

theorem resolve_of_withholds (hm : s.mode = .relativeDisplacement)
    (hr : region.containsRange (address + s.offset.toUInt64) displacementSize = true)
    (h : m.Withholds (address + s.offset.toUInt64)) :
    resolve m ⟨address, region⟩ s = .error (.unreadable (address + s.offset.toUInt64)) := by
  obtain ⟨fault, hread⟩ := Source.readInt32_of_withholds h
  rw [resolve, follow_inside hm hr]
  simp [hread, Except.map]

theorem resolve_of_read (hm : s.mode = .relativeDisplacement)
    (hr : region.containsRange (address + s.offset.toUInt64) displacementSize = true)
    {b₀ b₁ b₂ b₃ : UInt8}
    (h : m.read (address + s.offset.toUInt64) 4 = .ok ⟨#[b₀, b₁, b₂, b₃]⟩) :
    ∃ t, resolve m ⟨address, region⟩ s = .ok t ∧ (t.toNat : Int) =
      ((address + s.offset.toUInt64).toNat + 4 + Displacement.value b₀ b₁ b₂ b₃) %
        (UInt64.size : Int) := by
  obtain ⟨d, hread, hd⟩ := Source.readInt32_of_read h
  refine ⟨target (address + s.offset.toUInt64) d, ?_, ?_⟩
  · rw [resolve, follow_inside hm hr]
    simp [hread, Except.map]
  · rw [toNat_target, hd]

section

variable (hs : s.IsCompiled) (hlen : region.len ≤ 0x7FFFFFFFFFFFFFFF)
  (hend : region.base.toNat + region.len < UInt64.size)
  (hlow : region.base.toNat ≤ address.toNat)
  (hhigh : address.toNat ≤ region.base.toNat + region.len)

include hs hlen hend hlow hhigh

/-- Resolving comes to one of the four cases. -/
theorem resolvesTo_resolve :
    ResolvesTo m region address s (resolve m ⟨address, region⟩ s) := by
  have hinside := containsRange_field_iff hlen hend hlow hhigh s.offset
  cases hm : s.mode with
  | direct =>
    rw [resolve_direct hs hm]
    exact .direct hm
  | relativeDisplacement =>
    cases hr : region.containsRange (address + s.offset.toUInt64) displacementSize with
    | false =>
      rw [resolve, follow_outside hm hr]
      refine .outOfBounds hm ?_
      rw [hr] at hinside
      simpa using hinside
    | true =>
      have hin := hinside.1 hr
      rcases m.withholds_or (address + s.offset.toUInt64) with hread | ⟨b₀, b₁, b₂, b₃, hread⟩
      · rw [resolve_of_withholds hm hr hread]
        exact .unreadable hm hin hread
      · obtain ⟨t, hresolve, ht⟩ := resolve_of_read hm hr hread
        rw [hresolve]
        rw [toNat_field_of_le hend hin, Int.natCast_add] at ht
        exact .displaced hm hin _ _ _ _ hread t ht

/-- Each case says what resolving gives. -/
theorem ResolvesTo.resolve_eq {r : Except FailureKind UInt64}
    (h : ResolvesTo m region address s r) : resolve m ⟨address, region⟩ s = r := by
  have hinside := containsRange_field_iff hlen hend hlow hhigh s.offset
  cases h with
  | direct hm => exact resolve_direct hs hm
  | outOfBounds hm hout =>
    refine follow_outside hm ?_
    rw [Bool.eq_false_iff, ne_eq, hinside]
    omega
  | unreadable hm hin hread => exact resolve_of_withholds hm (hinside.2 hin) hread
  | displaced hm hin b₀ b₁ b₂ b₃ hread t ht =>
    obtain ⟨t', hresolve, ht'⟩ := resolve_of_read hm (hinside.2 hin) hread
    rw [toNat_field_of_le hend hin, Int.natCast_add, ← ht, Int.natCast_inj,
      UInt64.toNat_inj] at ht'
    rw [hresolve, ht']

theorem resolve_eq_iff {r : Except FailureKind UInt64} :
    resolve m ⟨address, region⟩ s = r ↔ ResolvesTo m region address s r := by
  constructor
  · rintro rfl
    exact resolvesTo_resolve hs hlen hend hlow hhigh
  · exact ResolvesTo.resolve_eq hs hlen hend hlow hhigh

end

/-- What a match resolves to is told by its mode, by the ends of the region and by the four
bytes of the displacement. Inside the region a displacement leads to an address exactly if its
bytes hold the signed distance from their end to this address, on 64 bits. -/
theorem resolve_exact (hs : s.IsCompiled) (hlen : region.len ≤ 0x7FFFFFFFFFFFFFFF)
    (hend : region.base.toNat + region.len < UInt64.size)
    (hlow : region.base.toNat ≤ address.toNat)
    (hhigh : address.toNat ≤ region.base.toNat + region.len) :
    (∀ r, resolve m ⟨address, region⟩ s = r ↔ ResolvesTo m region address s r)
    ∧ (s.mode = .relativeDisplacement →
      address.toNat + s.offset.toNat + 4 ≤ region.base.toNat + region.len →
      ∀ t, resolve m ⟨address, region⟩ s = .ok t ↔
        ∃ d, Displacement.Fits d
          ∧ ((t.toNat : Int) - (address.toNat + s.offset.toNat + 4)) % (UInt64.size : Int) =
            d % (UInt64.size : Int)
          ∧ m.read (address + s.offset.toUInt64) 4 = .ok (Displacement.bytes d)) := by
  refine ⟨fun r => resolve_eq_iff hs hlen hend hlow hhigh, ?_⟩
  intro hm hin t
  have hlt := t.toNat_lt
  rw [resolve_eq_iff hs hlen hend hlow hhigh]
  constructor
  · intro h
    cases h with
    | direct hd => exact absurd (hd.symm.trans hm) (by simp)
    | displaced _ _ b₀ b₁ b₂ b₃ hread _ ht =>
      refine ⟨Displacement.value b₀ b₁ b₂ b₃, Displacement.fits_value b₀ b₁ b₂ b₃, ?_, ?_⟩
      · rw [ht, Int.emod_sub_emod]
        congr 1
        omega
      · rw [hread, Displacement.bytes_value]
  · rintro ⟨d, hfits, hdist, hread⟩
    obtain ⟨b₀, b₁, b₂, b₃, hbytes, hvalue⟩ := Displacement.value_bytes hfits
    refine .displaced hm hin b₀ b₁ b₂ b₃ (by rw [hread, hbytes]) t ?_
    rw [hvalue]
    simp only [UInt64.size] at hdist ⊢
    omega

end

/-- A load of an address from the start of the address space leads past its lower end, to the
highest addresses that there are. -/
theorem resolve_exact_load : ∃ s, Signature.compile "48 8D 0D ?? ?? ?? ??" (some 3) = .ok s
    ∧ resolve (Snapshot.ofDump ⟨#[0x48, 0x8D, 0x0D, 0xF0, 0xFF, 0xFF, 0xFF]⟩ 0).source
      ⟨0, ⟨0, 7, .code⟩⟩ s = .ok 0xFFFFFFFFFFFFFFF7 := by
  obtain ⟨s, hs⟩ : ∃ s, Signature.compile "48 8D 0D ?? ?? ?? ??" (some 3) = .ok s := ⟨_, rfl⟩
  have hmode : s.mode = .relativeDisplacement := by
    obtain rfl := Except.ok.inj hs
    rfl
  have hoffset : s.offset = 3 := by
    obtain rfl := Except.ok.inj hs
    rfl
  refine ⟨s, hs, ((resolve_exact ⟨_, _, hs⟩ ?_ ?_ ?_ ?_).2 hmode ?_ _).2 ⟨-16, ?_, ?_, ?_⟩⟩
  · decide
  · decide
  · decide
  · decide
  · rw [hoffset]
    decide
  · decide
  · rw [hoffset]
    decide
  · rw [hoffset]
    rfl

end SigScan
