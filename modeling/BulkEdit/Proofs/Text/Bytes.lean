import Mathlib.Data.List.Basic
import Mathlib.Tactic.Common

/-!
# The bytes of a text

The bytes of a text are those of its characters, one after another (`toList_toUTF8`). A byte that is a
character of its own is no part of the encoding of another one (`toNat_of_mem_encodeChar`).
-/

namespace BulkEdit.Text

/-- What the loop that lists the bytes of an array has put before the bytes that are left. -/
theorem loop_toList (bytes : ByteArray) (i : Nat) (before : List UInt8) :
    ByteArray.toList.loop bytes i before = before.reverse ++ bytes.data.toList.drop i := by
  fun_induction ByteArray.toList.loop bytes i before with
  | case1 i before hlt ih =>
    have hnext : bytes.get! i = bytes.data[i] := getElem!_pos bytes.data i hlt
    have hleft : bytes.data.toList.drop i = bytes.data[i] :: bytes.data.toList.drop (i + 1) :=
      List.drop_eq_getElem_cons (by simpa using hlt)
    rw [ih, hnext, hleft, List.reverse_cons, List.append_assoc, List.singleton_append]
  | case2 i before hge =>
    rw [List.drop_eq_nil_of_le (by simpa using hge), List.append_nil]

theorem toList_eq (bytes : ByteArray) : bytes.toList = bytes.data.toList := by
  simp [ByteArray.toList, loop_toList]

def encoded (cs : List Char) : List UInt8 := cs.flatMap String.utf8EncodeChar

theorem encoded_append (cs ds : List Char) : encoded (cs ++ ds) = encoded cs ++ encoded ds :=
  List.flatMap_append

theorem toList_toUTF8 (s : String) : s.toUTF8.toList = encoded s.toList := by
  rw [toList_eq, String.toUTF8, ← String.utf8Encode_toList, List.utf8Encode]
  simp [encoded]

theorem toUTF8_ofList (cs : List Char) : (String.ofList cs).toUTF8.toList = encoded cs := by
  rw [toList_toUTF8, String.toList_ofList]

theorem encoded_inj {cs ds : List Char} : encoded cs = encoded ds ↔ cs = ds := by
  refine ⟨fun h => ?_, fun h => h ▸ rfl⟩
  rw [← toUTF8_ofList, ← toUTF8_ofList, toList_eq, toList_eq, Array.toList_inj] at h
  exact String.ofList_injective (String.toByteArray_inj.1 (ByteArray.ext h))

/-- A byte below 128 stands for a character, and for nothing else. -/
theorem toNat_of_mem_encodeChar {b : UInt8} {c : Char} (hb : b.toNat < 128)
    (h : b ∈ String.utf8EncodeChar c) : c.toNat = b.toNat := by
  have hrange : c.val.toNat < 0x110000 := by
    have hvalid := c.valid
    simp only [UInt32.isValidChar, Nat.isValidChar] at hvalid
    omega
  show c.val.toNat = b.toNat
  unfold String.utf8EncodeChar at h
  generalize c.val.toNat = v at h hrange ⊢
  dsimp only at h
  -- all bytes of a longer encoding are above
  split_ifs at h <;> simp only [List.mem_cons, List.not_mem_nil, or_false] at h
  · subst h
    rw [UInt8.toNat_ofNat']
    omega
  · rcases h with rfl | rfl <;> rw [UInt8.toNat_ofNat'] at hb <;> omega
  · rcases h with rfl | rfl | rfl <;> rw [UInt8.toNat_ofNat'] at hb <;> omega
  · rcases h with rfl | rfl | rfl | rfl <;> rw [UInt8.toNat_ofNat'] at hb <;> omega

end BulkEdit.Text
