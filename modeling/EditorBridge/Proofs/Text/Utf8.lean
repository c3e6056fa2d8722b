import EditorBridge.Text.Lines
import Mathlib.Tactic.SplitIfs

/-!
# What bytes a text is carried as

A text is carried as the bytes of its characters, one after the other (`encodeUtf8_append`), and
read back from them and from no others (`decodeUtf8?_eq_some_iff`). A line feed among the bytes is
one among the characters (`lineFeed_mem_encodeUtf8`), since the bytes of every other character are
either its own number or above 127.
-/

namespace EditorBridge.Text

theorem encodeUtf8_eq_flatMap (text : String) :
    encodeUtf8 text = text.toList.flatMap String.utf8EncodeChar := by
  rw [encodeUtf8, ← String.utf8Encode_toList, List.utf8Encode, List.toList_data_toByteArray]

theorem encodeUtf8_append (s t : String) : encodeUtf8 (s ++ t) = encodeUtf8 s ++ encodeUtf8 t := by
  simp only [encodeUtf8_eq_flatMap, String.toList_append, List.flatMap_append]

/-- **A text is read back** from the bytes that carry it. -/
theorem decodeUtf8?_encodeUtf8 (text : String) : decodeUtf8? (encodeUtf8 text) = some text := by
  have hbytes : (encodeUtf8 text).toByteArray = text.toByteArray := by
    rw [encodeUtf8]
    exact ByteArray.ext (by simp)
  rw [decodeUtf8?, hbytes, String.fromUTF8?, dif_pos text.isValidUTF8]
  rfl

/-- **Bytes are a text** exactly if they are what it is carried as. -/
theorem decodeUtf8?_eq_some_iff {bytes : List UInt8} {text : String} :
    decodeUtf8? bytes = some text ↔ bytes = encodeUtf8 text := by
  constructor
  · intro h
    rw [decodeUtf8?, String.fromUTF8?] at h
    split_ifs at h with hvalid
    obtain rfl := Option.some.inj h
    change bytes = bytes.toByteArray.data.toList
    rw [List.toList_data_toByteArray]
  · rintro rfl
    exact decodeUtf8?_encodeUtf8 text

theorem ten_eq_ofNat_iff (n : Nat) : (10 : UInt8) = UInt8.ofNat n ↔ n % 256 = 10 := by
  rw [← UInt8.toNat_inj, UInt8.toNat_ofNat']
  exact eq_comm

/-- Of all characters only the line feed has its byte. -/
theorem eq_lineFeed_of_mem_utf8EncodeChar {c : Char} (h : 10 ∈ String.utf8EncodeChar c) :
    c = '\n' := by
  unfold String.utf8EncodeChar at h
  simp only at h
  split_ifs at h with hone htwo hthree <;>
    simp only [List.mem_cons, List.not_mem_nil, or_false, ten_eq_ofNat_iff] at h
  · have hc : c.val.toNat = 10 := by omega
    exact Char.ext (UInt32.toNat_inj.mp hc)
  -- the bytes of a longer character are above 127
  all_goals omega

theorem lineFeed_mem_encodeUtf8 {text : String} (h : 10 ∈ encodeUtf8 text) :
    '\n' ∈ text.toList := by
  rw [encodeUtf8_eq_flatMap] at h
  obtain ⟨c, hc, hmem⟩ := List.mem_flatMap.mp h
  rwa [eq_lineFeed_of_mem_utf8EncodeChar hmem] at hc

end EditorBridge.Text
