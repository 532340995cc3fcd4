import Mathlib.Data.List.Basic
import SidCatalog.Digest
import SidCatalog.Proofs.Text.Blanks
import SidCatalog.Proofs.Text.Encoding

/-! The texts that read as a digest: its written form with any letters in upper case, and nothing else. -/

namespace SidCatalog

namespace Hex

theorem toNat_of_digitValue? {c : Char} {n : Nat} (h : digitValue? c = some n) :
    n < 16 ∧ (48 ≤ c.toNat ∧ c.toNat ≤ 57 ∨ 65 ≤ c.toNat ∧ c.toNat ≤ 70 ∨ 97 ≤ c.toNat ∧ c.toNat ≤ 102) := by
  have hle (a b : Char) : a ≤ b ↔ a.toNat ≤ b.toNat := Iff.rfl
  simp only [digitValue?, hle, Char.reduceToNat] at h
  split at h
  · cases h; omega
  · split at h
    · cases h; omega
    · split at h
      · cases h; omega
      · cases h

theorem toLower_of_ascii_lt {c : Char} (h : 0x80 ≤ c.toNat) : c.toLower = c := by
  unfold Char.toLower
  split
  · next hc =>
    have hz : c.toNat ≤ 'Z'.toNat := hc.2
    have hz' : 'Z'.toNat = 90 := rfl
    omega
  · rfl

theorem digitValue?_eq_some_iff {c : Char} {n : Nat} (hn : n < 16) :
    digitValue? c = some n ↔ c.toLower = Nat.digitChar n := by
  -- In ASCII all cases are tried; outside of it neither side holds.
  by_cases hc : c.toNat < 0x80
  · have key : ∀ k < 0x80, ∀ n < 16,
        (digitValue? (Char.ofNat k) = some n ↔ (Char.ofNat k).toLower = Nat.digitChar n) := by
      decide +kernel
    simpa only [Char.ofNat_toNat] using key c.toNat hc n hn
  · rw [toLower_of_ascii_lt (Nat.le_of_not_lt hc)]
    constructor
    · intro h
      obtain ⟨-, h⟩ := toNat_of_digitValue? h
      omega
    · intro h
      have key : ∀ n < 16, (Nat.digitChar n).toNat < 0x80 := by decide
      exact absurd (h ▸ key n hn) hc

theorem mem_encode {bs : Bytes} {c : Char} (h : c ∈ encode bs) : ∃ n < 16, c = Nat.digitChar n := by
  obtain ⟨b, -, hc⟩ := List.mem_flatMap.1 h
  have hb := b.toNat_lt
  simp only [encodeByte, List.mem_cons, List.not_mem_nil, or_false] at hc
  rcases hc with rfl | rfl
  · exact ⟨_, by omega, rfl⟩
  · exact ⟨_, by omega, rfl⟩

theorem length_encode (bs : Bytes) : (encode bs).length = 2 * bs.length := by
  induction bs with
  | nil => rfl
  | cons b bs ih =>
    rw [encode, List.flatMap_cons, List.length_append, ← encode, ih, List.length_cons]
    simp only [encodeByte, List.length_cons, List.length_nil]
    omega

theorem decode?_cons_cons {high low : Char} {rest : List Char} {b : UInt8} {bs : Bytes} :
    decode? (high :: low :: rest) = some (b :: bs) ↔
      digitValue? high = some (b.toNat / 16) ∧ digitValue? low = some (b.toNat % 16) ∧
        decode? rest = some bs := by
  simp only [decode?]
  constructor
  · intro h
    split at h
    · next x y tail hhigh hlow htail =>
      obtain ⟨rfl, rfl⟩ := List.cons.inj (Option.some.inj h)
      obtain ⟨hx, -⟩ := toNat_of_digitValue? hhigh
      obtain ⟨hy, -⟩ := toNat_of_digitValue? hlow
      have hb : (UInt8.ofNat (16 * x + y)).toNat = 16 * x + y := by
        rw [UInt8.toNat_ofNat']
        omega
      have hdiv : (16 * x + y) / 16 = x := by omega
      have hmod : (16 * x + y) % 16 = y := by omega
      rw [hb, hdiv, hmod]
      exact ⟨hhigh, hlow, htail⟩
    · cases h
  · rintro ⟨hhigh, hlow, hrest⟩
    have hb : 16 * (b.toNat / 16) + b.toNat % 16 = b.toNat := Nat.div_add_mod ..
    rw [hhigh, hlow, hrest]
    simp only [hb, UInt8.ofNat_toNat]

theorem decode?_eq_some_iff {cs : List Char} {bs : Bytes} :
    decode? cs = some bs ↔ cs.map Char.toLower = encode bs := by
  induction bs generalizing cs with
  | nil =>
    match cs with
    | [] => exact iff_of_true rfl rfl
    | [_] => exact iff_of_false (by simp [decode?]) (by simp [encode])
    | high :: low :: rest =>
      refine iff_of_false ?_ (by simp [encode])
      simp only [decode?]
      split <;> simp
  | cons b bs ih =>
    have hb := b.toNat_lt
    have hencode : encode (b :: bs) =
        Nat.digitChar (b.toNat / 16) :: Nat.digitChar (b.toNat % 16) :: encode bs := rfl
    match cs with
    | [] => exact iff_of_false (by simp [decode?]) (by simp [hencode])
    | [_] => exact iff_of_false (by simp [decode?]) (by simp [hencode])
    | high :: low :: rest =>
      rw [decode?_cons_cons, ih, digitValue?_eq_some_iff (by omega), digitValue?_eq_some_iff (by omega),
        hencode, List.map_cons, List.map_cons, List.cons.injEq, List.cons.injEq]

end Hex

namespace Digest

/-- The text is the digest in hexadecimal, with its letters in either case. -/
def IsSpelling (d : Digest) (cs : List Char) : Prop := cs.map Char.toLower = Hex.encode d.bytes

theorem isSpelling_encode (d : Digest) : d.IsSpelling (Hex.encode d.bytes) :=
  Hex.decode?_eq_some_iff.1 (Hex.decode?_encode d.bytes)

namespace IsSpelling

variable {d : Digest} {cs : List Char}

theorem length_eq (h : d.IsSpelling cs) : cs.length = 32 := by
  have hlen := congrArg List.length h
  rwa [List.length_map, Hex.length_encode, d.length_bytes] at hlen

theorem digitValue?_of_mem (h : d.IsSpelling cs) {c : Char} (hc : c ∈ cs) :
    ∃ n, Hex.digitValue? c = some n := by
  have hlower : c.toLower ∈ Hex.encode d.bytes := h ▸ List.mem_map_of_mem hc
  obtain ⟨n, hn, he⟩ := Hex.mem_encode hlower
  exact ⟨n, (Hex.digitValue?_eq_some_iff hn).2 he⟩

theorem isBlank_of_mem (h : d.IsSpelling cs) {c : Char} (hc : c ∈ cs) : Text.isBlank c = false := by
  obtain ⟨n, hn⟩ := h.digitValue?_of_mem hc
  obtain ⟨-, hrange⟩ := Hex.toNat_of_digitValue? hn
  exact Text.isBlank_eq_false (by omega) (by omega)

theorem not_mem (h : d.IsSpelling cs) {c : Char} (hc : Hex.digitValue? c = none) : c ∉ cs := by
  intro hmem
  obtain ⟨n, hn⟩ := h.digitValue?_of_mem hmem
  rw [hc] at hn
  cases hn

theorem ne_nil (h : d.IsSpelling cs) : cs ≠ [] := by
  rintro rfl
  cases h.length_eq

theorem head?_append_ne (h : d.IsSpelling cs) {c : Char} (hc : Hex.digitValue? c = none) (rest : List Char) :
    (cs ++ rest).head? ≠ some c := by
  rw [List.head?_append_of_ne_nil _ h.ne_nil]
  exact fun hhead => h.not_mem hc (List.mem_of_mem_head? hhead)

theorem trim_eq (h : d.IsSpelling cs) : Text.trim cs = cs :=
  Text.trim_eq_self (fun _ hc => h.isBlank_of_mem (List.mem_of_mem_head? hc))
    (fun _ hc => h.isBlank_of_mem (List.mem_of_mem_getLast? hc))

theorem byteLength_eq (h : d.IsSpelling cs) : Text.byteLength cs = 32 := by
  rw [Text.byteLength_of_ascii, h.length_eq]
  intro c hc
  obtain ⟨n, hn⟩ := h.digitValue?_of_mem hc
  obtain ⟨-, hrange⟩ := Hex.toNat_of_digitValue? hn
  omega

end IsSpelling

theorem ofHex_eq_ok_iff {cs : List Char} {d : Digest} :
    Digest.ofHex (String.ofList cs) = .ok d ↔ d.IsSpelling cs := by
  rw [Digest.ofHex, Text.byteLength_eq_utf8ByteSize, String.toList_ofList, IsSpelling,
    ← Hex.decode?_eq_some_iff]
  constructor
  · intro h
    split at h
    · cases h
    · split at h
      · next hd =>
        cases h
        obtain ⟨bs, hbs, hraw⟩ := Option.bind_eq_some_iff.1 hd
        unfold ofRaw? at hraw
        split at hraw
        · cases hraw
          exact hbs
        · cases hraw
      · cases h
  · intro h
    have hlen : Text.byteLength cs = 32 := IsSpelling.byteLength_eq (Hex.decode?_eq_some_iff.1 h)
    rw [if_neg (by simp [hlen]), h, Option.bind_some, ofRaw?, dif_pos d.length_bytes]

theorem exists_reason_of_ofHex {text : String} {f : Failure} (h : Digest.ofHex text = .error f) :
    ∃ reason, f = .digest reason := by
  unfold ofHex at h
  split at h
  · cases h
    exact ⟨_, rfl⟩
  · split at h
    · cases h
    · cases h
      exact ⟨_, rfl⟩

theorem IsSpelling.unique {cs : List Char} {d e : Digest} (hd : d.IsSpelling cs) (he : e.IsSpelling cs) :
    d = e :=
  Except.ok.inj ((ofHex_eq_ok_iff.2 hd).symm.trans (ofHex_eq_ok_iff.2 he))

end Digest

end SidCatalog
