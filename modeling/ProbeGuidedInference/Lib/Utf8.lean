import ProbeGuidedInference.Lib.Segments

/- UTF-8 with replacement: a byte string is cut into encoded characters and, where it is not
   well formed, into the longest beginnings of such and single bytes; each of the latter is
   decoded as U+FFFD. -/
namespace Utf8
open Segments

/-- What is missing of a character: the next byte lies in a range of continuation bytes, and
    `more` continuation bytes follow it. -/
structure Awaiting where
  more : Nat
  lo : UInt8 := 0x80
  hi : UInt8 := 0xBF
  hi_le : hi ≤ 0xBF := by decide

/-- What follows a leading byte. -/
def leading (b : UInt8) : Option Awaiting :=
  if b < 0xC2 then none
  else if b ≤ 0xDF then some { more := 0 }
  else if b = 0xE0 then some { more := 1, lo := 0xA0 }
  else if b = 0xED then some { more := 1, hi := 0x9F }
  else if b ≤ 0xEF then some { more := 1 }
  else if b = 0xF0 then some { more := 2, lo := 0x90 }
  else if b ≤ 0xF3 then some { more := 2 }
  else if b = 0xF4 then some { more := 2, hi := 0x8F }
  else none

def continuation (s : Awaiting) (b : UInt8) : Option (Option Awaiting) :=
  if s.lo ≤ b ∧ b ≤ s.hi then
    match s.more with
    | 0 => some none
    | more + 1 => some (some { more := more })
  else none

def cutter : Cutter UInt8 Awaiting where
  first := leading
  next := continuation
  alone := by
    intro s b h
    have hb : b ≤ s.hi := by
      by_contra hb
      exact h (if_neg (fun hc => hb hc.2))
    have hlt : b < 0xC2 := by
      have hle := UInt8.le_trans hb s.hi_le
      rw [UInt8.le_iff_toNat_le] at hle
      rw [UInt8.lt_iff_toNat_lt]
      exact Nat.lt_of_le_of_lt hle (by decide)
    exact if_pos hlt

/-- The character a unit stands for. -/
def charOf (u : List UInt8) : Char := (u.toByteArray.utf8DecodeChar? 0).getD (Char.ofNat 0xFFFD)

/-- Decoding with the replacement character for what is not well formed. -/
def decodeLossy (bytes : List UInt8) : List Char := (cutter.units bytes).map charOf

@[simp] theorem length_decodeLossy (bytes : List UInt8) :
    (decodeLossy bytes).length = (cutter.units bytes).length := List.length_map _

/-- **Decoding piece by piece** gives the characters of the whole if and only if every piece
    ends between two units of the whole. -/
theorem decodeLossy_flatMap_iff (pieces : List (List UInt8)) :
    pieces.flatMap decodeLossy = decodeLossy pieces.flatten ↔ cutter.Aligned pieces := by
  have hpieces : pieces.flatMap decodeLossy = (pieces.flatMap cutter.units).map charOf := by
    rw [List.map_flatMap]
    rfl
  refine ⟨?_, ?_⟩
  · intro h
    apply aligned_of_length
    have hlen := congrArg List.length h
    rw [hpieces, List.length_map, length_decodeLossy] at hlen
    exact hlen
  · intro h
    rw [hpieces, flatMap_units_eq h]
    rfl

/-! Encoded characters. -/

theorem charOf_encode (c : Char) : charOf (String.utf8EncodeChar c) = c := by
  have h := ByteArray.utf8DecodeChar?_utf8EncodeChar_append (b := ByteArray.empty) (c := c)
  rw [ByteArray.append_empty] at h
  rw [charOf, h]
  rfl

theorem inRange {lo hi : UInt8} {x : Nat} (hlo : lo.toNat ≤ x) (hhi : x ≤ hi.toNat) :
    lo ≤ UInt8.ofNat x ∧ UInt8.ofNat x ≤ hi := by
  have hx : (UInt8.ofNat x).toNat = x := by
    rw [UInt8.toNat_ofNat']
    have hlt := hi.toNat_lt
    omega
  rw [UInt8.le_iff_toNat_le, UInt8.le_iff_toNat_le, hx]
  exact ⟨hlo, hhi⟩

/-- The last byte of a character. -/
theorem completes_one {s : Awaiting} {x : Nat} (hmore : s.more = 0) (hlo : s.lo.toNat ≤ x)
    (hhi : x ≤ s.hi.toNat) : cutter.Completes s [UInt8.ofNat x] := by
  apply Cutter.Completes.last
  have hin : s.lo ≤ UInt8.ofNat x ∧ UInt8.ofNat x ≤ s.hi := inRange hlo hhi
  show continuation s (UInt8.ofNat x) = some none
  rw [continuation, if_pos hin, hmore]

/-- One of its continuation bytes before the last. -/
theorem completes_more {s : Awaiting} {x more : Nat} {k : List UInt8} (hmore : s.more = more + 1)
    (hlo : s.lo.toNat ≤ x) (hhi : x ≤ s.hi.toNat) (hk : cutter.Completes { more := more } k) :
    cutter.Completes s (UInt8.ofNat x :: k) := by
  refine Cutter.Completes.more ?_ hk
  have hin : s.lo ≤ UInt8.ofNat x ∧ UInt8.ofNat x ≤ s.hi := inRange hlo hhi
  show continuation s (UInt8.ofNat x) = some (some { more := more })
  rw [continuation, if_pos hin, hmore]

theorem leading_two {n : Nat} (hlo : 0xC2 ≤ n) (hhi : n ≤ 0xDF) :
    leading (UInt8.ofNat n) = some { more := 0 } := by
  have hn : (UInt8.ofNat n).toNat = n := by
    rw [UInt8.toNat_ofNat']
    omega
  unfold leading
  simp only [UInt8.lt_iff_toNat_lt, UInt8.le_iff_toNat_le, ← UInt8.toNat_inj, hn, UInt8.reduceToNat]
  rw [if_neg (by omega), if_pos (by omega)]

theorem leading_three {n : Nat} (hlo : 0xE0 ≤ n) (hhi : n ≤ 0xEF) :
    ∃ s, leading (UInt8.ofNat n) = some s ∧ s.more = 1 ∧
      s.lo.toNat = (if n = 0xE0 then 0xA0 else 0x80) ∧
      s.hi.toNat = (if n = 0xED then 0x9F else 0xBF) := by
  have hn : (UInt8.ofNat n).toNat = n := by
    rw [UInt8.toNat_ofNat']
    omega
  unfold leading
  simp only [UInt8.lt_iff_toNat_lt, UInt8.le_iff_toNat_le, ← UInt8.toNat_inj, hn, UInt8.reduceToNat]
  rw [if_neg (by omega), if_neg (by omega)]
  by_cases h0 : n = 0xE0
  · rw [if_pos h0]
    exact ⟨_, rfl, rfl, by rw [if_pos h0]; rfl, by rw [if_neg (by omega)]; rfl⟩
  · rw [if_neg h0]
    by_cases hd : n = 0xED
    · rw [if_pos hd]
      exact ⟨_, rfl, rfl, by rw [if_neg h0]; rfl, by rw [if_pos hd]; rfl⟩
    · rw [if_neg hd, if_pos hhi]
      exact ⟨_, rfl, rfl, by rw [if_neg h0]; rfl, by rw [if_neg hd]; rfl⟩

theorem leading_four {n : Nat} (hlo : 0xF0 ≤ n) (hhi : n ≤ 0xF4) :
    ∃ s, leading (UInt8.ofNat n) = some s ∧ s.more = 2 ∧
      s.lo.toNat = (if n = 0xF0 then 0x90 else 0x80) ∧
      s.hi.toNat = (if n = 0xF4 then 0x8F else 0xBF) := by
  have hn : (UInt8.ofNat n).toNat = n := by
    rw [UInt8.toNat_ofNat']
    omega
  unfold leading
  simp only [UInt8.lt_iff_toNat_lt, UInt8.le_iff_toNat_le, ← UInt8.toNat_inj, hn, UInt8.reduceToNat]
  rw [if_neg (by omega), if_neg (by omega), if_neg (by omega), if_neg (by omega), if_neg (by omega)]
  by_cases h0 : n = 0xF0
  · rw [if_pos h0]
    exact ⟨_, rfl, rfl, by rw [if_pos h0]; rfl, by rw [if_neg (by omega)]; rfl⟩
  · rw [if_neg h0]
    by_cases h4 : n = 0xF4
    · rw [if_neg (by omega), if_pos h4]
      exact ⟨_, rfl, rfl, by rw [if_neg h0]; rfl, by rw [if_pos h4]; rfl⟩
    · rw [if_pos (by omega)]
      exact ⟨_, rfl, rfl, by rw [if_neg h0]; rfl, by rw [if_neg h4]; rfl⟩

/-- A character's encoding is a whole unit. The bounds on the second byte are what keeps
    out longer encodings than needed, the surrogates and what lies above U+10FFFF. -/
theorem whole_encode (c : Char) : cutter.Whole (String.utf8EncodeChar c) := by
  have hvalid : c.val.toNat < 0xD800 ∨ 0xDFFF < c.val.toNat ∧ c.val.toNat < 0x110000 := c.valid
  unfold String.utf8EncodeChar
  generalize c.val.toNat = v at hvalid
  dsimp only
  split
  · rename_i h
    apply Cutter.Whole.alone
    have hlt : UInt8.ofNat v < 0xC2 := by
      rw [UInt8.lt_iff_toNat_lt, UInt8.toNat_ofNat']
      show v % 2 ^ 8 < 0xC2
      omega
    exact if_pos hlt
  split
  · exact .opened (leading_two (by omega) (by omega))
      (completes_one rfl (by show 0x80 ≤ _; omega) (by show _ ≤ 0xBF; omega))
  split
  · obtain ⟨s, hs, hmore, hlo, hhi⟩ :=
      leading_three (n := v / 4096 % 0x10 + 0xe0) (by omega) (by omega)
    refine .opened hs (completes_more hmore ?_ ?_
      (completes_one rfl (by show 0x80 ≤ _; omega) (by show _ ≤ 0xBF; omega)))
    · rw [hlo]
      split <;> omega
    · rw [hhi]
      split <;> omega
  · obtain ⟨s, hs, hmore, hlo, hhi⟩ :=
      leading_four (n := v / 262144 % 0x08 + 0xf0) (by omega) (by omega)
    refine .opened hs (completes_more hmore ?_ ?_
      (completes_more rfl (by show 0x80 ≤ _; omega) (by show _ ≤ 0xBF; omega)
        (completes_one rfl (by show 0x80 ≤ _; omega) (by show _ ≤ 0xBF; omega))))
    · rw [hlo]
      split <;> omega
    · rw [hhi]
      split <;> omega

/-- Well-formed text is decoded to its characters. -/
theorem units_encode (cs : List Char) :
    cutter.units (cs.flatMap String.utf8EncodeChar) = cs.map String.utf8EncodeChar := by
  rw [List.flatMap_def]
  apply units_flatten_whole
  intro u hu
  obtain ⟨c, -, rfl⟩ := List.mem_map.mp hu
  exact whole_encode c

theorem decodeLossy_encode (cs : List Char) :
    decodeLossy (cs.flatMap String.utf8EncodeChar) = cs := by
  rw [decodeLossy, units_encode, List.map_map]
  calc cs.map (charOf ∘ String.utf8EncodeChar) = cs.map id :=
        List.map_congr_left fun c _ => charOf_encode c
    _ = cs := List.map_id cs

/-- Pieces of whole characters are cut between units. -/
theorem aligned_encode (css : List (List Char)) :
    cutter.Aligned (css.map (·.flatMap String.utf8EncodeChar)) := by
  apply (decodeLossy_flatMap_iff _).mp
  have hflat : (css.map (·.flatMap String.utf8EncodeChar)).flatten =
      css.flatten.flatMap String.utf8EncodeChar := by
    rw [← List.flatMap_def, ← List.flatMap_id, List.flatMap_assoc]
    rfl
  rw [hflat, decodeLossy_encode, List.flatMap_map]
  calc css.flatMap (fun cs => decodeLossy (cs.flatMap String.utf8EncodeChar)) = css.flatMap id := by
        congr 1
        funext cs
        exact decodeLossy_encode cs
    _ = css.flatten := List.flatMap_id

end Utf8
