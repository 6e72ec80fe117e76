import LittleMan.Session.Frame

/-! The bytes of a text, and the text of bytes. A text of ASCII characters has one byte for each. -/

namespace LittleMan

theorem toList_loop_eq (bytes : ByteArray) (i : Nat) (done : List UInt8) :
    ByteArray.toList.loop bytes i done = done.reverse ++ bytes.data.toList.drop i := by
  fun_induction ByteArray.toList.loop bytes i done with
  | case1 i done hlt ih =>
    have hi : i < bytes.data.toList.length := by simpa using hlt
    have hget : bytes.get! i = bytes.data.toList[i] := by
      rw [ByteArray.get!, Array.getElem_toList]
      exact getElem!_pos bytes.data i (by simpa using hlt)
    rw [ih, List.drop_eq_getElem_cons hi, hget, List.reverse_cons, List.append_assoc,
      List.singleton_append]
  | case2 i done hge =>
    have hlength : bytes.data.toList.length ≤ i := by simpa using hge
    rw [List.drop_eq_nil_of_le hlength, List.append_nil]

theorem toList_eq_data (bytes : ByteArray) : bytes.toList = bytes.data.toList := by
  rw [ByteArray.toList, toList_loop_eq, List.reverse_nil, List.nil_append, List.drop_zero]

/-- The bytes of a text in UTF-8. -/
def octets (text : String) : List UInt8 := text.toUTF8.toList

theorem octets_append (s t : String) : octets (s ++ t) = octets s ++ octets t := by
  simp [octets, toList_eq_data, String.toUTF8]

theorem length_octets (text : String) : (octets text).length = text.utf8ByteSize := by
  rw [octets, toList_eq_data]
  rfl

theorem fromUTF8?_octets (text : String) :
    String.fromUTF8? ⟨(octets text).toArray⟩ = some text := by
  have hbytes : (⟨(octets text).toArray⟩ : ByteArray) = text.toByteArray := by
    rw [octets, toList_eq_data]
    rfl
  rw [hbytes, String.fromUTF8?]
  rw [dif_pos text.isValidUTF8]
  rfl

/-- The byte of an ASCII character. -/
def octet (c : CodePoint) : UInt8 := UInt8.ofNat c.toNat

theorem ofNat_octet {c : CodePoint} (h : c.toNat < 128) : CodePoint.ofNat (octet c).toNat = c := by
  rw [octet, UInt8.toNat_ofNat', Nat.mod_eq_of_lt (by omega)]
  exact CodePoint.ofNat_toNat c

theorem octets_ofList (text : List Char) :
    octets (String.ofList text) = text.flatMap String.utf8EncodeChar := by
  rw [octets, toList_eq_data, String.toUTF8, String.toByteArray_ofList, List.utf8Encode,
    List.toList_data_toByteArray]

theorem octets_of_ascii {text : List Char} (h : ∀ c ∈ text, c.toNat < 128) :
    octets (String.ofList text) = (text.map .scalar).map octet := by
  have hone : ∀ c ∈ text, String.utf8EncodeChar c = [octet (.scalar c)] := by
    intro c hc
    have hlt := h c hc
    have hsize : c.utf8Size = 1 := by
      rw [Char.utf8Size_eq_one_iff]
      exact UInt32.le_iff_toNat_le.2 (Nat.le_of_lt_succ hlt)
    rw [String.utf8EncodeChar_eq_singleton hsize]
    rfl
  rw [octets_ofList, List.flatMap_def, List.map_congr_left hone, ← List.flatMap_def, List.map_map]
  exact List.map_eq_flatMap.symm

end LittleMan
