import SidCatalog.Proofs.Digest.Spelling

/-! Which texts are read as a digest: those of thirty-two hexadecimal digits in ASCII, in either case. Reading and
writing undo each other up to the case of the letters. -/

namespace SidCatalog

namespace Hex

def IsDigitCode (n : Nat) : Prop :=
  '0'.toNat ≤ n ∧ n ≤ '9'.toNat ∨ 'A'.toNat ≤ n ∧ n ≤ 'F'.toNat ∨ 'a'.toNat ≤ n ∧ n ≤ 'f'.toNat

instance (n : Nat) : Decidable (IsDigitCode n) := inferInstanceAs (Decidable (_ ∧ _ ∨ _ ∧ _ ∨ _ ∧ _))

theorem lt_of_isDigitCode (n : Nat) (h : IsDigitCode n) : n < 0x80 := by
  simp only [IsDigitCode, Char.reduceToNat] at h
  omega

theorem exists_digitValue?_iff {c : Char} : (∃ n, digitValue? c = some n) ↔ IsDigitCode c.toNat := by
  constructor
  · rintro ⟨n, hn⟩
    exact (toNat_of_digitValue? hn).2
  · intro h
    have hle (a b : Char) : a ≤ b ↔ a.toNat ≤ b.toNat := Iff.rfl
    simp only [IsDigitCode, Char.reduceToNat] at h
    simp only [digitValue?, hle, Char.reduceToNat]
    split_ifs
    · exact ⟨_, rfl⟩
    · exact ⟨_, rfl⟩
    · exact ⟨_, rfl⟩
    · omega

theorem exists_decode?_eq_some {n : Nat} {cs : List Char} (hlength : cs.length = 2 * n)
    (hdigits : ∀ c ∈ cs, IsDigitCode c.toNat) : ∃ bs, decode? cs = some bs := by
  induction n generalizing cs with
  | zero =>
    rw [List.eq_nil_of_length_eq_zero hlength]
    exact ⟨[], rfl⟩
  | succ n ih =>
    obtain ⟨high, low, rest, rfl⟩ : ∃ high low rest, cs = high :: low :: rest := by
      match cs with
      | high :: low :: rest => exact ⟨high, low, rest, rfl⟩
      | [] | [_] => simp only [List.length_cons, List.length_nil] at hlength; omega
    obtain ⟨hhigh, hrest⟩ := List.forall_mem_cons.1 hdigits
    obtain ⟨hlow, hrest⟩ := List.forall_mem_cons.1 hrest
    obtain ⟨h, hh⟩ := exists_digitValue?_iff.2 hhigh
    obtain ⟨l, hl⟩ := exists_digitValue?_iff.2 hlow
    obtain ⟨bs, hbs⟩ : ∃ bs, decode? rest = some bs := by
      apply ih _ hrest
      simp only [List.length_cons] at hlength
      omega
    refine ⟨UInt8.ofNat (16 * h + l) :: bs, ?_⟩
    simp only [decode?, hh, hl, hbs]

end Hex

namespace Digest

variable {text : String} {d : Digest}

structure IsHexText (text : String) : Prop where
  length_eq : (Text.bytes text).length = 32
  isDigitCode : ∀ b ∈ Text.bytes text, Hex.IsDigitCode b.toNat

instance (text : String) : Decidable (IsHexText text) :=
  decidable_of_iff ((Text.bytes text).length = 32 ∧ (Text.bytes text).all (fun b => Hex.IsDigitCode b.toNat) = true)
    ⟨fun h => ⟨h.1, by simpa using h.2⟩, fun h => ⟨h.1, by simpa using h.2⟩⟩

theorem toLower_eq_iff {other : String} : text.toLower = other ↔ text.toList.map Char.toLower = other.toList := by
  show String.map Char.toLower text = other ↔ _
  rw [← String.toList_inj, String.toList_map]

theorem ofHex_eq_ok_iff_toLower : ofHex text = .ok d ↔ text.toLower = d.toHex := by
  rw [toLower_eq_iff, toHex, String.toList_ofList]
  calc
    ofHex text = .ok d ↔ ofHex (String.ofList text.toList) = .ok d := by rw [String.ofList_toList]
    _ ↔ d.IsSpelling text.toList := ofHex_eq_ok_iff

theorem exists_ofHex_eq_ok_iff : (∃ d, ofHex text = .ok d) ↔ IsHexText text := by
  have hdigits := Text.forall_mem_bytes_iff Hex.lt_of_isDigitCode (s := text)
  constructor
  · rintro ⟨d, hd⟩
    rw [← String.ofList_toList (s := text)] at hd
    have hspelling : d.IsSpelling text.toList := ofHex_eq_ok_iff.1 hd
    refine ⟨?_, hdigits.2 fun c hc => Hex.exists_digitValue?_iff.1 (hspelling.digitValue?_of_mem hc)⟩
    rw [Text.length_bytes, hspelling.byteLength_eq]
  · rintro ⟨hlength, hbytes⟩
    have hchars := hdigits.1 hbytes
    -- All characters take one byte, so there are sixteen pairs of them.
    have hcount : text.toList.length = 2 * 16 := by
      rw [← Text.byteLength_of_ascii fun c hc => Hex.lt_of_isDigitCode _ (hchars c hc), ← Text.length_bytes, hlength]
    obtain ⟨bs, hbs⟩ := Hex.exists_decode?_eq_some hcount hchars
    have hspelling : text.toList.map Char.toLower = Hex.encode bs := Hex.decode?_eq_some_iff.1 hbs
    have hsixteen : bs.length = 16 := by
      have hpairs := congrArg List.length hspelling
      rw [List.length_map, Hex.length_encode, hcount] at hpairs
      omega
    refine ⟨⟨bs, hsixteen⟩, ?_⟩
    rw [ofHex_eq_ok_iff_toLower, toLower_eq_iff, toHex, String.toList_ofList, hspelling]

/-- Every digest is read from what is written for it. The texts that are read are those of thirty-two hexadecimal
digits, the digest they are read as is written as their lower case, and those with one lower case are all texts that
are read as it. Any other text is refused as no digest. -/
theorem ofHex_inverts_toHex :
    (∀ d : Digest, ofHex d.toHex = .ok d) ∧
    (∀ text, (∃ d, ofHex text = .ok d) ↔ IsHexText text) ∧
    (∀ text d, ofHex text = .ok d → d.toHex = text.toLower) ∧
    (∀ text other d, ofHex text = .ok d → (ofHex other = .ok d ↔ other.toLower = text.toLower)) ∧
    ∀ text, ¬ IsHexText text → ∃ reason, ofHex text = .error (.digest reason) := by
  refine ⟨fun d => ?_, fun text => exists_ofHex_eq_ok_iff, fun text d h => ?_, fun text other d h => ?_,
    fun text h => ?_⟩
  · rw [toHex, ofHex_eq_ok_iff]
    exact d.isSpelling_encode
  · exact (ofHex_eq_ok_iff_toLower.1 h).symm
  · rw [ofHex_eq_ok_iff_toLower, ofHex_eq_ok_iff_toLower.1 h]
  · cases hread : ofHex text with
    | ok d => exact absurd (exists_ofHex_eq_ok_iff.1 ⟨d, hread⟩) h
    | error f =>
      obtain ⟨reason, rfl⟩ := exists_reason_of_ofHex hread
      exact ⟨reason, rfl⟩

def mixedText : String := "D41d8CD98f00B204e9800998ECF8427e"

/-- As many bytes as a digest has digits, but the first character takes two of them. -/
def accentedText : String := "é1d8cd98f00b204e9800998ecf8427e"

theorem ofHex_inverts_toHex_mixed :
    ∃ d, ofHex mixedText = .ok d ∧ d.toHex = "d41d8cd98f00b204e9800998ecf8427e" ∧
      ofHex "d41d8cd98f00b204e9800998ecf8427e" = .ok d ∧ accentedText.utf8ByteSize = 32 ∧
      ∃ reason, ofHex accentedText = .error (.digest reason) := by
  obtain ⟨-, haccepts, hlower, hsame, hrefuses⟩ := ofHex_inverts_toHex
  have hmixed : IsHexText mixedText := by decide +kernel
  have haccented : ¬ IsHexText accentedText := by decide +kernel
  have htoLower : mixedText.toLower = "d41d8cd98f00b204e9800998ecf8427e" := by decide +kernel
  obtain ⟨d, hd⟩ := (haccepts mixedText).2 hmixed
  refine ⟨d, hd, (hlower mixedText d hd).trans htoLower, ?_, by decide, hrefuses accentedText haccented⟩
  apply (hsame mixedText _ d hd).2
  rw [htoLower]
  decide +kernel

end Digest

end SidCatalog
