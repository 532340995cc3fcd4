import SidCatalog.Proofs.Text.Encoding

/-! Slices of a text at a byte. They are there just when the byte is a boundary between two characters, or an end of
the text. In front of every byte of ASCII is such a boundary. -/

namespace SidCatalog.Text

def IsBoundary (text : String) (n : Nat) : Prop := String.Pos.Raw.IsValid text ⟨n⟩

def sliceTo? (text : String) (n : Nat) : Option (List Char) := (cut? n text.toList).map Prod.fst

def sliceFrom? (text : String) (n : Nat) : Option (List Char) := (cut? n text.toList).map Prod.snd

variable {text : String} {n : Nat} {front rest : List Char}

theorem cut?_eq_some_iff :
    cut? n text.toList = some (front, rest) ↔ text.toList = front ++ rest ∧ byteLength front = n := by
  constructor
  · exact append_of_cut?
  · rintro ⟨htext, rfl⟩
    rw [htext, cut?_append]

theorem sliceTo?_eq_some_iff :
    sliceTo? text n = some front ↔ ∃ rest, text.toList = front ++ rest ∧ byteLength front = n := by
  simp only [sliceTo?, Option.map_eq_some_iff, Prod.exists, exists_and_right, exists_eq_right, cut?_eq_some_iff]

theorem sliceFrom?_eq_some_iff :
    sliceFrom? text n = some rest ↔ ∃ front, text.toList = front ++ rest ∧ byteLength front = n := by
  simp only [sliceFrom?, Option.map_eq_some_iff, Prod.exists, exists_eq_right, cut?_eq_some_iff]

theorem isBoundary_iff : IsBoundary text n ↔ ∃ front rest, text.toList = front ++ rest ∧ byteLength front = n := by
  unfold IsBoundary
  rw [String.Pos.Raw.isValid_iff_exists_append]
  constructor
  · rintro ⟨before, after, rfl, hn⟩
    refine ⟨before.toList, after.toList, String.toList_append, ?_⟩
    rw [← utf8ByteSize_eq]
    exact (congrArg String.Pos.Raw.byteIdx hn).symm
  · rintro ⟨front, rest, htext, rfl⟩
    refine ⟨String.ofList front, String.ofList rest, ?_, ?_⟩
    · rw [← String.ofList_append, ← htext, String.ofList_toList]
    · apply String.Pos.Raw.ext
      exact (byteLength_eq_utf8ByteSize front).symm

theorem exists_sliceTo?_iff : (∃ front, sliceTo? text n = some front) ↔ IsBoundary text n := by
  simp only [sliceTo?_eq_some_iff, isBoundary_iff]

theorem exists_sliceFrom?_iff : (∃ rest, sliceFrom? text n = some rest) ↔ IsBoundary text n := by
  simp only [sliceFrom?_eq_some_iff, isBoundary_iff]
  exact exists_comm

theorem getElem?_bytes_append (htext : text.toList = front ++ rest) (hfront : byteLength front = n) :
    (bytes text)[n]? = (bytes (String.ofList rest)).head? := by
  have hlength : (bytes (String.ofList front)).length = n := by
    rw [length_bytes, String.toList_ofList, hfront]
  have hbytes : bytes text = bytes (String.ofList front) ++ bytes (String.ofList rest) := by
    rw [← bytes_append, ← String.ofList_append, ← htext, String.ofList_toList]
  rw [hbytes, List.getElem?_append_right (Nat.le_of_eq hlength), hlength, Nat.sub_self, List.head?_eq_getElem?]

theorem isBoundary_of_getElem? {b : UInt8} (hb : (bytes text)[n]? = some b) (hascii : b.toNat < 0x80) :
    IsBoundary text n := by
  rw [bytes, toList_byteArray] at hb
  obtain ⟨hlt, hget⟩ := List.getElem?_eq_some_iff.1 hb
  have hmask : b &&& 0x80 = 0 := by
    have key : ∀ n < 0x80, n &&& 0x80 = 0 := by decide
    apply UInt8.toNat_inj.1
    exact key b.toNat hascii
  have hinside : n < text.utf8ByteSize := by simpa using hlt
  apply String.Pos.Raw.isValid_iff_isUTF8FirstByte.2
  refine .inr ⟨hinside, .inl ?_⟩
  rw [String.getUTF8Byte_eq_getElem, ← hmask, ← hget]
  rfl

end SidCatalog.Text
