/-!
# The bytes of a text

A text is a list of characters, and it is stored as the bytes of its UTF-8 encoding. The first 128 characters
are their own bytes, and no byte of any other character is below 128.

* `encoded` -- the bytes of a list of characters;
* `toList_toUTF8`, `fromUTF8?_eq_some` -- the bytes that a string has, and the string that bytes have;
* `encoded_cons_narrow`, `wide_of_mem` -- the two kinds of characters;
* `encoded_eq_cons` -- a byte below 128 is a character.
-/

namespace Stache.Text

/-- The bytes of a text. -/
def encoded (text : List Char) : List UInt8 :=
  text.flatMap String.utf8EncodeChar

theorem toList_loop (bytes : ByteArray) (i : Nat) (read : List UInt8) :
    ByteArray.toList.loop bytes i read = read.reverse ++ bytes.data.toList.drop i := by
  fun_induction ByteArray.toList.loop bytes i read with
  | case1 i read hi ih =>
    have hlist : i < bytes.data.toList.length := by simpa using hi
    rw [ih, List.drop_eq_getElem_cons hlist]
    simp [ByteArray.get!, getElem!_pos bytes.data i hi]
  | case2 i read hi =>
    rw [List.drop_eq_nil_of_le (by simpa using hi)]
    exact (List.append_nil _).symm

theorem toList_bytes (bytes : ByteArray) : bytes.toList = bytes.data.toList := by
  rw [ByteArray.toList, toList_loop]
  rfl

theorem toList_toUTF8 (text : String) : text.toUTF8.toList = encoded text.toList := by
  rw [toList_bytes, String.toUTF8_eq_toByteArray, ← String.utf8Encode_toList]
  exact List.toList_data_toByteArray

/-- **A string is read from its own bytes only.** -/
theorem fromUTF8?_eq_some {bytes : List UInt8} {text : String} :
    String.fromUTF8? ⟨bytes.toArray⟩ = some text ↔ encoded text.toList = bytes := by
  have hbytes : text.toUTF8 = ⟨bytes.toArray⟩ ↔ encoded text.toList = bytes := by
    rw [← toList_toUTF8, toList_bytes]
    constructor
    · intro h
      rw [h]
    · intro h
      rw [← h]
  rw [← hbytes]
  unfold String.fromUTF8?
  constructor
  · intro h
    split at h
    · cases h
      rfl
    · cases h
  · intro h
    rw [← h, dif_pos (show text.toUTF8.IsValidUTF8 from text.isValidUTF8)]
    rfl

/-- A character below 128 is its own byte. -/
theorem encoded_cons_narrow {c : Char} {text : List Char} (hc : c.toNat < 128) :
    encoded (c :: text) = UInt8.ofNat c.toNat :: encoded text := by
  have hone : String.utf8EncodeChar c = [UInt8.ofNat c.toNat] := by
    unfold String.utf8EncodeChar
    exact if_pos (Nat.le_of_lt_succ hc)
  rw [encoded, List.flatMap_cons, hone]
  rfl

/-- No byte of any other character is below 128. -/
theorem wide_of_mem {c : Char} {byte : UInt8} (hc : ¬ c.toNat < 128) (h : byte ∈ String.utf8EncodeChar c) :
    128 ≤ byte := by
  have hc : ¬ c.val.toNat ≤ 127 := fun h => hc (Nat.lt_succ_of_le h)
  have hlead {n lead : Nat} (h : 128 ≤ lead) (hn : n + lead < 256) : 128 ≤ UInt8.ofNat (n + lead) := by
    rw [UInt8.le_iff_toNat_le, UInt8.toNat_ofNat_of_lt' hn]
    exact Nat.le_trans h (Nat.le_add_left _ _)
  unfold String.utf8EncodeChar at h
  dsimp only at h
  rw [if_neg hc] at h
  -- two, three or four bytes
  split at h
  · simp only [List.mem_cons, List.not_mem_nil, or_false] at h
    rcases h with rfl | rfl
    all_goals exact hlead (by decide) (by omega)
  · split at h
    · simp only [List.mem_cons, List.not_mem_nil, or_false] at h
      rcases h with rfl | rfl | rfl
      all_goals exact hlead (by decide) (by omega)
    · simp only [List.mem_cons, List.not_mem_nil, or_false] at h
      rcases h with rfl | rfl | rfl | rfl
      all_goals exact hlead (by decide) (by omega)

/-- Every character has a byte. -/
theorem encoded_cons_wide {c : Char} {text : List Char} (hc : ¬ c.toNat < 128) :
    ∃ byte bytes, encoded (c :: text) = byte :: bytes ∧ 128 ≤ byte := by
  rw [encoded, List.flatMap_cons]
  cases hbytes : String.utf8EncodeChar c with
  | nil => exact absurd hbytes String.utf8EncodeChar_ne_nil
  | cons byte bytes => exact ⟨_, _, rfl, wide_of_mem hc (hbytes ▸ List.mem_cons_self)⟩

/-- **A byte below 128 is a character.** -/
theorem encoded_eq_cons {c : Char} {text : List Char} {bytes : List UInt8} (hc : c.toNat < 128) :
    encoded text = UInt8.ofNat c.toNat :: bytes ↔ ∃ rest, text = c :: rest ∧ encoded rest = bytes := by
  have htoNat {d : Char} (hd : d.toNat < 128) : (UInt8.ofNat d.toNat).toNat = d.toNat :=
    UInt8.toNat_ofNat_of_lt' (Nat.lt_trans hd (by decide))
  constructor
  · intro h
    cases text with
    | nil => cases h
    | cons d rest =>
      by_cases hd : d.toNat < 128
      · rw [encoded_cons_narrow hd] at h
        obtain ⟨hbyte, hbytes⟩ := List.cons.inj h
        have hn := congrArg UInt8.toNat hbyte
        rw [htoNat hd, htoNat hc] at hn
        exact ⟨rest, congrArg (· :: rest) (Char.toNat_inj.mp hn), hbytes⟩
      · obtain ⟨byte, tail, hwide, hbyte⟩ := @encoded_cons_wide d rest hd
        obtain rfl : byte = UInt8.ofNat c.toNat := (List.cons.inj (hwide.symm.trans h)).1
        rw [UInt8.le_iff_toNat_le, htoNat hc] at hbyte
        exact absurd hbyte (Nat.not_le_of_lt hc)
  · intro h
    obtain ⟨rest, rfl, rfl⟩ := h
    exact encoded_cons_narrow hc

end Stache.Text
