/-
SigScan.Proofs.Signature.Window — a signature against a window of bytes.

The comparison takes eight bytes at a time and looks at each word through a mask. It comes
to a comparison byte by byte: every token that is not a wildcard must equal the byte at its
place (`Compiles.acceptsFrom_zero_iff`). The window has to hold all of the padded length, but
what it holds behind the last token decides nothing (`matchesWindow_iff`).

A scan compares a place of what was read as such a window: the bytes from there on, with
enough zeros behind the last of them (`mem_starts_iff_matchesWindow`).
-/
import SigScan.Proofs.Signature.Matching
import SigScan.Scan.Window

namespace SigScan

open Bytes

namespace Signature

/-- A token fits at a place of a window if it is a wildcard or the byte that stands there. -/
def Fits (window : ByteArray) (i : Nat) (t : Token) : Prop :=
  t = .any ∨ ∃ b, at? window i = some b ∧ t = .byte b

namespace Compiles

variable {tokens : Pattern} {s : Signature}

/-- Words enough for all tokens. -/
theorem length_le_paddedLen (h : Compiles tokens s) : tokens.length ≤ s.paddedLen := by
  rw [paddedLen, h.fields.2.1, Pattern.length_pack]
  omega

/-- In a window that holds all tokens the words are accepted exactly if every token fits. -/
theorem acceptsFrom_zero_iff (h : Compiles tokens s) {window : ByteArray}
    (hsize : tokens.length ≤ window.size) :
    acceptsFrom s.words window 0 = true ↔ ∀ i t, tokens[i]? = some t → Fits window i t := by
  rw [h.fields.2.1, acceptsFrom_pack]
  simp only [Nat.zero_add]
  constructor
  · intro hall i t ht
    have hi : i < tokens.length := (List.getElem?_eq_some_iff.1 ht).1
    cases t with
    | any => exact .inl rfl
    | byte b => exact .inr ⟨b, (atOrZero_eq_iff (by omega)).1 (hall i b ht), rfl⟩
  · intro hall i b hb
    have hi : i < tokens.length := (List.getElem?_eq_some_iff.1 hb).1
    rcases hall i (.byte b) hb with hany | ⟨x, hx, heq⟩
    · contradiction
    · obtain rfl := Token.byte.inj heq
      exact (atOrZero_eq_iff (by omega)).2 hx

theorem matchesWindow_eq_true_iff (h : Compiles tokens s) {window : ByteArray} :
    s.matchesWindow window = true ↔
      s.paddedLen ≤ window.size ∧ ∀ i t, tokens[i]? = some t → Fits window i t := by
  rw [matchesWindow, Bool.and_eq_true, decide_eq_true_eq, and_congr_right_iff]
  intro hsize
  exact h.acceptsFrom_zero_iff (Nat.le_trans h.length_le_paddedLen hsize)

end Compiles

/-- A window matches exactly if it holds the padded length and every token fits in it; the
bytes behind the tokens do not count. -/
theorem matchesWindow_iff {tokens : Pattern} {s : Signature} (h : Compiles tokens s) :
    (∀ window, s.matchesWindow window = true ↔
      s.paddedLen ≤ window.size ∧ ∀ i t, tokens[i]? = some t → Fits window i t)
    ∧ ∀ v w, (s.paddedLen ≤ v.size ↔ s.paddedLen ≤ w.size) →
      (∀ i < tokens.length, at? v i = at? w i) → s.matchesWindow v = s.matchesWindow w := by
  refine ⟨fun window => h.matchesWindow_eq_true_iff, ?_⟩
  intro v w hsize hbytes
  rw [Bool.eq_iff_iff, h.matchesWindow_eq_true_iff, h.matchesWindow_eq_true_iff, hsize]
  have hfits : ∀ i t, tokens[i]? = some t → (Fits v i t ↔ Fits w i t) := by
    intro i t ht
    have hi : i < tokens.length := (List.getElem?_eq_some_iff.1 ht).1
    rw [Fits, Fits, hbytes i hi]
  constructor
  · rintro ⟨hw, hall⟩
    exact ⟨hw, fun i t ht => (hfits i t ht).1 (hall i t ht)⟩
  · rintro ⟨hw, hall⟩
    exact ⟨hw, fun i t ht => (hfits i t ht).2 (hall i t ht)⟩

/-! ## Places of what was read -/

/-- The bytes from a place on, with zeros behind the last of them. -/
def windowAt (bytes : ByteArray) (slack start : Nat) : ByteArray :=
  (bytes ++ ⟨Array.replicate slack 0⟩).extract start (bytes.size + slack)

theorem size_windowAt (bytes : ByteArray) (slack start : Nat) :
    (windowAt bytes slack start).size = bytes.size + slack - start := by
  have hslack : (⟨Array.replicate slack 0⟩ : ByteArray).size = slack := Array.size_replicate
  rw [windowAt, ByteArray.size_extract, ByteArray.size_append, hslack, Nat.min_self]

theorem at?_windowAt {bytes : ByteArray} {slack start i : Nat} (h : start + i < bytes.size) :
    at? (windowAt bytes slack start) i = at? bytes (start + i) := by
  rw [windowAt, at?_extract, if_pos (by omega), at?_append, if_pos h]

/-- A place where the tokens fit is compared as the window from there on, with as many zeros
behind it as the padded length or more. -/
theorem matchesAt_eq_matchesWindow {tokens : Pattern} {s : Signature} (h : Compiles tokens s)
    {bytes : ByteArray} {start slack : Nat} (hfit : start + s.rawLen ≤ bytes.size)
    (hslack : s.paddedLen ≤ slack) :
    s.matchesAt bytes start = s.matchesWindow (windowAt bytes slack start) := by
  rw [Bool.eq_iff_iff, h.matchesAt_iff hfit, h.matchesWindow_eq_true_iff, size_windowAt]
  rw [h.rawLen_eq] at hfit
  constructor
  · intro hbytes
    refine ⟨by omega, ?_⟩
    intro i t ht
    have hi : i < tokens.length := (List.getElem?_eq_some_iff.1 ht).1
    cases t with
    | any => exact .inl rfl
    | byte b => exact .inr ⟨b, (at?_windowAt (by omega)).trans (hbytes i b ht), rfl⟩
  · rintro ⟨-, hall⟩ i b hb
    have hi : i < tokens.length := (List.getElem?_eq_some_iff.1 hb).1
    rcases hall i (.byte b) hb with hany | ⟨x, hx, heq⟩
    · contradiction
    · obtain rfl := Token.byte.inj heq
      rwa [at?_windowAt (by omega)] at hx

/-- The places where a scan finds a signature are those where the tokens end in the new part and
the window from there on matches. -/
theorem mem_starts_iff_matchesWindow {tokens : Pattern} {s : Signature} (h : Compiles tokens s)
    {w : Scan.Window} {slack p : Nat} (hslack : s.paddedLen ≤ slack) :
    p ∈ Scan.starts s w ↔
      w.seen < p + s.rawLen ∧ p + s.rawLen ≤ w.bytes.size
        ∧ s.matchesWindow (windowAt w.bytes slack p) = true := by
  rw [Scan.mem_starts]
  refine and_congr_right fun _ => and_congr_right fun hfit => ?_
  rw [matchesAt_eq_matchesWindow h hfit hslack]

/-! ## A window -/

/-- The signature of `E8 ?? ?? ?? ?? 84 C0 75 0F`, whose last token has a word of its own. -/
def callSignature : Signature :=
  ⟨"E8 ?? ?? ?? ?? 84 C0 75 0F",
    [⟨0x75C08400000000E8, 0xFFFFFF00000000FF⟩, ⟨0x0F, 0xFF⟩], 9, 1, .nearCallOrJump, 0, 0xE8⟩

theorem compiles_callSignature :
    Compiles [.byte 0xE8, .any, .any, .any, .any, .byte 0x84, .byte 0xC0, .byte 0x75, .byte 0x0F]
      callSignature :=
  ⟨"E8 ?? ?? ?? ?? 84 C0 75 0F", none, rfl, rfl⟩

/-- A call in a window: its last token is the ninth byte, and a window with other bytes behind
that one matches as well. -/
theorem matchesWindow_iff_callSignature :
    Fits ⟨#[0xE8, 1, 2, 3, 4, 0x84, 0xC0, 0x75, 0x0F, 5, 5, 5, 5, 5, 5, 5]⟩ 8 (.byte 0x0F)
    ∧ callSignature.matchesWindow
        ⟨#[0xE8, 1, 2, 3, 4, 0x84, 0xC0, 0x75, 0x0F, 6, 7, 8, 9, 6, 7, 8, 9]⟩ = true := by
  obtain ⟨hiff, hsame⟩ := matchesWindow_iff compiles_callSignature
  have hmatch : callSignature.matchesWindow
      ⟨#[0xE8, 1, 2, 3, 4, 0x84, 0xC0, 0x75, 0x0F, 5, 5, 5, 5, 5, 5, 5]⟩ = true := by
    decide
  refine ⟨((hiff _).1 hmatch).2 8 (.byte 0x0F) rfl, ?_⟩
  rw [← hmatch]
  exact hsame _ _ (by decide) (by decide)

end Signature

end SigScan
