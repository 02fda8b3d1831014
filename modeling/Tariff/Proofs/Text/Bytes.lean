/-!
# The bytes of a text

Bytes are sent as a list. The list that is made of the bytes of a text is read back as the
text (`fromUTF8?_toUTF8`). Text in ASCII is sent as ASCII (`lt_of_mem_toUTF8`).
-/

namespace Tariff.Text

/-- The list of bytes is gathered in reverse: what was gathered stands in front of the
bytes that are left. -/
theorem toList_loop (bytes : ByteArray) (i : Nat) (gathered : List UInt8) :
    ByteArray.toList.loop bytes i gathered = gathered.reverse ++ bytes.data.toList.drop i := by
  have hsize : bytes.size = bytes.data.toList.length := rfl
  induction hleft : bytes.size - i generalizing i gathered with
  | zero =>
    unfold ByteArray.toList.loop
    rw [if_neg (by omega), List.drop_of_length_le (by omega), List.append_nil]
  | succ left ih =>
    have hi : i < bytes.data.toList.length := by omega
    have hget : bytes.get! i = bytes.data.toList[i] := by
      show bytes.data[i]! = _
      rw [getElem!_pos bytes.data i hi]
      rfl
    unfold ByteArray.toList.loop
    rw [if_pos (by omega), ih (i + 1) _ (by omega), List.drop_eq_getElem_cons hi, hget,
      List.reverse_cons, List.append_assoc]
    rfl

/-- The bytes of a text are those of the text alone. -/
theorem fromUTF8?_toUTF8 (s : String) : String.fromUTF8? ⟨s.toUTF8.toList.toArray⟩ = some s := by
  have hbytes : (⟨s.toUTF8.toList.toArray⟩ : ByteArray) = s.toUTF8 := by
    unfold ByteArray.toList
    rw [toList_loop]
    rfl
  rw [hbytes, String.toUTF8_eq_toByteArray]
  unfold String.fromUTF8?
  rw [dif_pos s.isValidUTF8]
  rfl

/-- The bytes of ASCII characters are their codes. -/
theorem lt_of_mem_toUTF8 {cs : List Char} (h : ∀ c ∈ cs, c.toNat < 0x80) :
    ∀ byte ∈ (String.ofList cs).toUTF8.toList, byte.toNat < 0x80 := by
  intro byte hbyte
  have hbytes : (String.ofList cs).toUTF8.toList = cs.flatMap String.utf8EncodeChar := by
    unfold ByteArray.toList
    rw [toList_loop, String.toUTF8_eq_toByteArray, String.toByteArray_ofList]
    unfold List.utf8Encode
    rw [List.data_toByteArray]
    rfl
  rw [hbytes] at hbyte
  obtain ⟨c, hc, hbyte⟩ := List.mem_flatMap.1 hbyte
  have hcode : c.val.toNat < 0x80 := h c hc
  have hsize : c.utf8Size = 1 :=
    Char.utf8Size_eq_one_iff.2 (UInt32.le_iff_toNat_le.2 (Nat.le_of_lt_succ hcode))
  rw [String.utf8EncodeChar_eq_singleton hsize, List.mem_singleton] at hbyte
  rw [hbyte, UInt32.toNat_toUInt8]
  omega

end Tariff.Text
