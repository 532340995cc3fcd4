import Mathlib.Tactic.SplitIfs
import SidCatalog.Text.Utf8

/-! What decoding a line's bytes comes to. `Spells` says it without the decoder: a text stands for its own
UTF-8 bytes, and bytes that are no text's UTF-8 stand for one character each. -/

namespace SidCatalog.Text

theorem toList_loop_eq (b : ByteArray) (i : Nat) (seen : Bytes) :
    ByteArray.toList.loop b i seen = seen.reverse ++ b.data.toList.drop i := by
  induction i, seen using ByteArray.toList.loop.induct b with
  | case1 i seen hi ih =>
    have hlt : i < b.data.toList.length := by simpa using hi
    have hget : b.get! i = b.data.toList[i] := by
      simpa [ByteArray.get!] using getElem!_pos b.data i (by simpa using hi)
    rw [ByteArray.toList.loop, if_pos hi, ih, List.drop_eq_getElem_cons hlt, hget]
    simp
  | case2 i seen hi =>
    have hle : b.data.toList.length ≤ i := by simpa using hi
    rw [ByteArray.toList.loop, if_neg hi, List.drop_eq_nil_of_le hle, List.append_nil]

theorem toList_byteArray (b : ByteArray) : b.toList = b.data.toList := by
  rw [ByteArray.toList, toList_loop_eq]
  rfl

@[simp] theorem toByteArray_bytes (s : String) : (bytes s).toByteArray = s.toByteArray := by
  rw [bytes, toList_byteArray]
  apply ByteArray.ext
  rw [List.data_toByteArray, Array.toArray_toList]

theorem bytes_ofList (cs : List Char) : bytes (String.ofList cs) = cs.flatMap String.utf8EncodeChar := by
  rw [← List.toByteArray_inj, toByteArray_bytes, String.toByteArray_ofList, List.utf8Encode]

theorem bytes_eq (s : String) : bytes s = s.toList.flatMap String.utf8EncodeChar := by
  rw [← bytes_ofList, String.ofList_toList]

theorem bytes_injective {s t : String} (h : bytes s = bytes t) : s = t := by
  rw [← String.toByteArray_inj, ← toByteArray_bytes s, h, toByteArray_bytes]

@[simp] theorem bytes_empty : bytes "" = [] := by
  rw [bytes_eq]
  rfl

@[simp] theorem bytes_append (s t : String) : bytes (s ++ t) = bytes s ++ bytes t := by
  simp only [bytes_eq, String.toList_append, List.flatMap_append]

/-- Text with exactly these UTF-8 bytes or, when no text has them, with one character for each byte. -/
def Spells (bs : Bytes) (line : String) : Prop :=
  bytes line = bs ∨ (¬ ∃ t, bytes t = bs) ∧ line.toList.map Char.toNat = bs.map UInt8.toNat

theorem fromUTF8?_eq_some {b : ByteArray} {s : String} (h : s.toByteArray = b) :
    String.fromUTF8? b = some s := by
  subst h
  rw [String.fromUTF8?, dif_pos s.isValidUTF8]
  rfl

theorem fromUTF8?_eq_none {b : ByteArray} (h : ¬ ∃ s : String, s.toByteArray = b) :
    String.fromUTF8? b = none := by
  rw [String.fromUTF8?, dif_neg]
  exact fun hv => h ⟨String.fromUTF8 b hv, rfl⟩

@[simp] theorem decode_bytes (s : String) : decode (bytes s) = s := by
  rw [decode, fromUTF8?_eq_some (toByteArray_bytes s).symm]
  rfl

theorem decode_of_not_utf8 {bs : Bytes} (h : ¬ ∃ t, bytes t = bs) : decode bs = latin1 bs := by
  rw [decode, fromUTF8?_eq_none]
  · rfl
  · rintro ⟨t, ht⟩
    exact h ⟨t, by rw [← List.toByteArray_inj, toByteArray_bytes, ht]⟩

theorem toNat_ofUInt8 (b : UInt8) : (Char.ofUInt8 b).toNat = b.toNat := rfl

theorem spells_decode (bs : Bytes) : Spells bs (decode bs) := by
  by_cases h : ∃ t, bytes t = bs
  · obtain ⟨t, rfl⟩ := h
    exact .inl (by rw [decode_bytes])
  · refine .inr ⟨h, ?_⟩
    rw [decode_of_not_utf8 h, latin1, String.toList_ofList, List.map_map]
    exact List.map_congr_left fun b _ => toNat_ofUInt8 b

theorem mem_utf8EncodeChar {b : UInt8} {c : Char} (hb : b.toNat < 0x80)
    (h : b ∈ String.utf8EncodeChar c) : c.toNat = b.toNat := by
  have hval : c.toNat = c.val.toNat := rfl
  unfold String.utf8EncodeChar at h
  dsimp only at h
  -- All bytes of the longer encodings are at least 0x80.
  split_ifs at h with h₁ h₂ h₃ <;>
    simp only [List.mem_cons, List.not_mem_nil, or_false, ← UInt8.toNat_inj, UInt8.toNat_ofNat'] at h <;>
    omega

theorem toNat_of_mem_utf8EncodeChar {b : UInt8} {c : Char} (hc : c.toNat < 0x80)
    (h : b ∈ String.utf8EncodeChar c) : b.toNat = c.toNat := by
  have hval : c.toNat = c.val.toNat := rfl
  unfold String.utf8EncodeChar at h
  dsimp only at h
  rw [if_pos (by omega), List.mem_singleton] at h
  rw [h, UInt8.toNat_ofNat']
  omega

theorem eq_or_le_of_mem_utf8EncodeChar {b : UInt8} {c d : Char} (hc : b ∈ String.utf8EncodeChar c)
    (hd : b ∈ String.utf8EncodeChar d) : d = c ∨ 0x80 ≤ c.toNat ∧ 0x80 ≤ d.toNat := by
  by_cases hb : b.toNat < 0x80
  · exact .inl (Char.toNat_inj.1 ((mem_utf8EncodeChar hb hd).trans (mem_utf8EncodeChar hb hc).symm))
  · refine .inr ⟨Nat.not_lt.1 fun h => hb ?_, Nat.not_lt.1 fun h => hb ?_⟩
    · rwa [toNat_of_mem_utf8EncodeChar h hc]
    · rwa [toNat_of_mem_utf8EncodeChar h hd]

theorem mem_bytes {b : UInt8} {s : String} (hb : b.toNat < 0x80) (h : b ∈ bytes s) :
    ∃ c ∈ s.toList, c.toNat = b.toNat := by
  rw [bytes_eq, List.mem_flatMap] at h
  obtain ⟨c, hc, hbc⟩ := h
  exact ⟨c, hc, mem_utf8EncodeChar hb hbc⟩

theorem forall_mem_bytes_iff {p : Nat → Prop} (hp : ∀ n, p n → n < 0x80) {s : String} :
    (∀ b ∈ bytes s, p b.toNat) ↔ ∀ c ∈ s.toList, p c.toNat := by
  have hmem (b : UInt8) : b ∈ bytes s ↔ ∃ c ∈ s.toList, b ∈ String.utf8EncodeChar c := by
    rw [bytes_eq, List.mem_flatMap]
  constructor
  · intro h c hc
    obtain ⟨b, hb⟩ := List.exists_mem_of_ne_nil _ (String.utf8EncodeChar_ne_nil (c := c))
    have hpb : p b.toNat := h b ((hmem b).2 ⟨c, hc, hb⟩)
    rwa [mem_utf8EncodeChar (hp _ hpb) hb]
  · intro h b hb
    obtain ⟨c, hc, hbc⟩ := (hmem b).1 hb
    have hpc : p c.toNat := h c hc
    rwa [toNat_of_mem_utf8EncodeChar (hp _ hpc) hbc]

theorem bytes_prefix_iff {s t : String} : bytes s <+: bytes t ↔ ∃ rest, t = s ++ rest := by
  constructor
  · rintro ⟨more, hmore⟩
    have hencode : s.toList.utf8Encode ++ more.toByteArray = t.toList.utf8Encode := by
      rw [String.utf8Encode_toList, String.utf8Encode_toList, ← toByteArray_bytes s, ← List.toByteArray_append,
        hmore, toByteArray_bytes]
    obtain ⟨rest, hrest⟩ := List.isPrefix_of_utf8Encode_append_eq_utf8Encode _ hencode
    refine ⟨String.ofList rest, String.toList_inj.1 ?_⟩
    rw [String.toList_append, String.toList_ofList, hrest]
  · rintro ⟨rest, rfl⟩
    rw [bytes_append]
    exact List.prefix_append _ _

theorem byteLength_eq_utf8ByteSize (cs : List Char) : (String.ofList cs).utf8ByteSize = byteLength cs := by
  rw [← String.size_toByteArray, String.toByteArray_ofList, List.utf8Encode, List.size_toByteArray,
    List.length_flatMap]
  induction cs with
  | nil => rfl
  | cons c cs ih => rw [List.map_cons, List.sum_cons, ih, String.length_utf8EncodeChar, byteLength_cons]

theorem byteLength_of_ascii {cs : List Char} (h : ∀ c ∈ cs, c.toNat < 0x80) : byteLength cs = cs.length := by
  induction cs with
  | nil => rfl
  | cons c cs ih =>
    have hc : c.utf8Size = 1 := Char.utf8Size_eq_one_iff.2 (Nat.le_of_lt_succ (h c (List.mem_cons_self ..)))
    rw [byteLength_cons, hc, ih fun d hd => h d (List.mem_cons_of_mem _ hd), List.length_cons, Nat.add_comm]

theorem length_le_byteLength (cs : List Char) : cs.length ≤ byteLength cs := by
  induction cs with
  | nil => exact Nat.le_refl _
  | cons c cs ih =>
    have hc : 0 < c.utf8Size := c.utf8Size_pos
    rw [List.length_cons, byteLength_cons]
    omega

theorem utf8ByteSize_eq (s : String) : s.utf8ByteSize = byteLength s.toList := by
  rw [← byteLength_eq_utf8ByteSize, String.ofList_toList]

theorem length_bytes (s : String) : (bytes s).length = byteLength s.toList := by
  rw [← List.size_toByteArray, toByteArray_bytes, String.size_toByteArray, utf8ByteSize_eq]

theorem exists_next_of_take_bytes {front rest : List Char} {c : Char} {other : String}
    (hfront : ∀ d ∈ front, d.toNat < 0x80)
    (h : (bytes other).take (front.length + 1) =
      (bytes (String.ofList (front ++ c :: rest))).take (front.length + 1)) :
    ∃ d more, other.toList = front ++ d :: more ∧ (d = c ∨ 0x80 ≤ c.toNat ∧ 0x80 ≤ d.toNat) := by
  have hlength : (bytes (String.ofList front)).length = front.length := by
    rw [length_bytes, String.toList_ofList, byteLength_of_ascii hfront]
  obtain ⟨b, bs, hc⟩ := List.exists_cons_of_ne_nil (String.utf8EncodeChar_ne_nil (c := c))
  have htake : (bytes other).take (front.length + 1) = bytes (String.ofList front) ++ [b] := by
    rw [h, bytes_ofList, List.flatMap_append, ← bytes_ofList, List.flatMap_cons, hc, List.cons_append,
      List.append_cons, List.take_left' (by rw [List.length_append, hlength, List.length_singleton])]
  have hprefix : bytes (String.ofList front) <+: bytes other :=
    (List.prefix_append _ [b]).trans (htake ▸ List.take_prefix _ _)
  obtain ⟨tail, rfl⟩ := bytes_prefix_iff.1 hprefix
  rw [bytes_append, ← hlength, List.take_length_add_append] at htake
  have htail : (bytes tail).take 1 = [b] := List.append_cancel_left htake
  rw [bytes_eq] at htail
  cases htoList : tail.toList with
  | nil =>
    rw [htoList] at htail
    cases htail
  | cons d more =>
    -- The byte behind the front starts a character in either text.
    obtain ⟨b', bs', hd⟩ := List.exists_cons_of_ne_nil (String.utf8EncodeChar_ne_nil (c := d))
    rw [htoList, List.flatMap_cons, hd, List.cons_append, List.take_succ_cons, List.take_zero] at htail
    obtain rfl : b' = b := List.singleton_inj.1 htail
    refine ⟨d, more, by rw [String.toList_append, String.toList_ofList, htoList], ?_⟩
    exact eq_or_le_of_mem_utf8EncodeChar (hc ▸ List.mem_cons_self ..) (hd ▸ List.mem_cons_self ..)

theorem head?_toList_of_bytes {s : String} {c : Char} {bs : Bytes} (hc : c.toNat < 0x80)
    (h : bytes s = UInt8.ofNat c.toNat :: bs) : s.toList.head? = some c := by
  rw [bytes_eq] at h
  cases hs : s.toList with
  | nil =>
    rw [hs] at h
    cases h
  | cons d ds =>
    have hval : (UInt8.ofNat c.toNat).toNat = c.toNat := by
      rw [UInt8.toNat_ofNat']
      omega
    obtain ⟨b, bs', hd⟩ := List.exists_cons_of_ne_nil (String.utf8EncodeChar_ne_nil (c := d))
    rw [hs, List.flatMap_cons, hd, List.cons_append] at h
    obtain ⟨rfl, -⟩ := List.cons.inj h
    have hmem : UInt8.ofNat c.toNat ∈ String.utf8EncodeChar d := hd ▸ List.mem_cons_self ..
    have hdc : d.toNat = c.toNat := (mem_utf8EncodeChar (by rwa [hval]) hmem).trans hval
    rw [List.head?_cons, Char.toNat_inj.1 hdc]

end SidCatalog.Text
