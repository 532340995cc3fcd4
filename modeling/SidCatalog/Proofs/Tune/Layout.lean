import SidCatalog.Proofs.Text.Encoding
import SidCatalog.Tune.Header

/-! The layout of a tune header. A header is written as its magic, its words with the high byte first, and its texts
filled up with zeros. Reading undoes writing, and writing what was read gives the data back, but for the bytes behind
the first zero of a text. -/

namespace SidCatalog.Tune

namespace Word

def bytes (w : UInt16) : Bytes := [UInt8.ofNat (w.toNat / 256), UInt8.ofNat w.toNat]

def longBytes (w : UInt32) : Bytes :=
  [UInt8.ofNat (w.toNat / 0x1000000), UInt8.ofNat (w.toNat / 0x10000), UInt8.ofNat (w.toNat / 0x100),
    UInt8.ofNat w.toNat]

theorem ofNat_eq_of_mod {n : Nat} {b : UInt8} (h : n % 256 = b.toNat) : UInt8.ofNat n = b :=
  UInt8.toNat_inj.1 (by rw [UInt8.toNat_ofNat', h])

theorem ofBytes_bytes (w : UInt16) : ofBytes (UInt8.ofNat (w.toNat / 256)) (UInt8.ofNat w.toNat) = w := by
  have hw := w.toNat_lt
  refine UInt16.toNat_inj.1 ?_
  simp only [ofBytes, UInt16.toNat_ofNat', UInt8.toNat_ofNat']
  omega

theorem bytes_ofBytes (high low : UInt8) : bytes (ofBytes high low) = [high, low] := by
  have hhigh := high.toNat_lt
  have hlow := low.toNat_lt
  have hvalue : (ofBytes high low).toNat = 256 * high.toNat + low.toNat := by
    rw [ofBytes, UInt16.toNat_ofNat']
    omega
  rw [bytes, hvalue, ofNat_eq_of_mod (b := high) (by omega), ofNat_eq_of_mod (b := low) (by omega)]

theorem longOfBytes_longBytes (w : UInt32) :
    longOfBytes (UInt8.ofNat (w.toNat / 0x1000000)) (UInt8.ofNat (w.toNat / 0x10000)) (UInt8.ofNat (w.toNat / 0x100))
      (UInt8.ofNat w.toNat) = w := by
  have hw := w.toNat_lt
  refine UInt32.toNat_inj.1 ?_
  simp only [longOfBytes, UInt32.toNat_ofNat', UInt8.toNat_ofNat']
  omega

theorem longBytes_longOfBytes (b₃ b₂ b₁ b₀ : UInt8) : longBytes (longOfBytes b₃ b₂ b₁ b₀) = [b₃, b₂, b₁, b₀] := by
  have h₃ := b₃.toNat_lt
  have h₂ := b₂.toNat_lt
  have h₁ := b₁.toNat_lt
  have h₀ := b₀.toNat_lt
  have hvalue : (longOfBytes b₃ b₂ b₁ b₀).toNat =
      256 * (256 * (256 * b₃.toNat + b₂.toNat) + b₁.toNat) + b₀.toNat := by
    rw [longOfBytes, UInt32.toNat_ofNat']
    omega
  rw [longBytes, hvalue, ofNat_eq_of_mod (b := b₃) (by omega), ofNat_eq_of_mod (b := b₂) (by omega),
    ofNat_eq_of_mod (b := b₁) (by omega), ofNat_eq_of_mod (b := b₀) (by omega)]

end Word

def slice (data : Bytes) (offset count : Nat) : Bytes := (data.drop offset).take count

theorem slice_append_slice (data : Bytes) (offset count more : Nat) :
    slice data offset count ++ slice data (offset + count) more = slice data offset (count + more) := by
  rw [slice, slice, slice, List.take_add, List.drop_drop]

theorem length_slice {data : Bytes} {offset count : Nat} (h : offset + count ≤ data.length) :
    (slice data offset count).length = count := by
  rw [slice, List.length_take, List.length_drop]
  omega

theorem pair_eq_slice {data : Bytes} {i : Nat} (h : i + 1 < data.length) :
    [data[i], data[i + 1]] = slice data i 2 := by
  rw [slice, List.drop_eq_getElem_cons (Nat.lt_of_succ_lt h), List.drop_eq_getElem_cons h]
  rfl

namespace Header

def IsFieldText (s : String) : Prop := s.length ≤ textSize ∧ ∀ c ∈ s.toList, 0x01 ≤ c.toNat ∧ c.toNat ≤ 0xFF

instance (s : String) : Decidable (IsFieldText s) :=
  @instDecidableAnd _ _ (Nat.decLe _ _) (List.decidableBAll _ s.toList)

def textBytes (s : String) : Bytes := (s.toList.map fun c => UInt8.ofNat c.toNat).rightpad textSize 0

/-- All bytes behind the first zero are made zero. -/
def cleared : Bytes → Bytes
  | [] => []
  | b :: rest => if b = 0 then List.replicate (rest.length + 1) 0 else b :: cleared rest

theorem length_textBytes {s : String} (h : s.length ≤ textSize) : (textBytes s).length = textSize := by
  rw [textBytes, List.length_rightpad, List.length_map, String.length_toList]
  omega

theorem cleared_eq (field : Bytes) : cleared field = (field.takeWhile (· != 0)).rightpad field.length 0 := by
  induction field with
  | nil => rfl
  | cons b rest ih =>
    by_cases hb : b = 0
    · simp [cleared, hb, List.rightpad]
    · simp [cleared, hb, List.rightpad, ih]

theorem latin1_map {s : String} (h : ∀ c ∈ s.toList, c.toNat ≤ 0xFF) :
    Text.latin1 (s.toList.map fun c => UInt8.ofNat c.toNat) = s := by
  have hmap : (s.toList.map fun c => UInt8.ofNat c.toNat).map Char.ofUInt8 = s.toList.map id := by
    rw [List.map_map]
    refine List.map_congr_left fun c hc => Char.toNat_inj.1 ?_
    have hle := h c hc
    rw [Function.comp_apply, Text.toNat_ofUInt8, UInt8.toNat_ofNat', id_eq]
    omega
  rw [Text.latin1, hmap, List.map_id, String.ofList_toList]

theorem textField_textBytes {s : String} (h : IsFieldText s) (front back : Bytes) :
    textField (front ++ (textBytes s ++ back)) front.length = s := by
  have hne : ∀ b ∈ s.toList.map (fun c => UInt8.ofNat c.toNat), (b != 0) = true := by
    intro b hb
    obtain ⟨c, hc, rfl⟩ := List.mem_map.1 hb
    have hc' := h.2 c hc
    rw [bne_iff_ne, Ne, ← UInt8.toNat_inj, UInt8.toNat_ofNat']
    change ¬ c.toNat % 256 = 0
    omega
  have hzeros (n : Nat) : (List.replicate n (0 : UInt8)).takeWhile (· != 0) = [] := by
    cases n <;> rfl
  rw [textField, List.drop_left, List.take_left' (length_textBytes h.1), textBytes, List.rightpad,
    List.takeWhile_append_of_pos hne, hzeros, List.append_nil, latin1_map fun c hc => (h.2 c hc).2]

theorem textBytes_textField {data : Bytes} {offset : Nat} (h : offset + textSize ≤ data.length) :
    textBytes (textField data offset) = cleared (slice data offset textSize) := by
  have hbytes (bs : Bytes) : (Text.latin1 bs).toList.map (fun c => UInt8.ofNat c.toNat) = bs := by
    rw [Text.latin1, String.toList_ofList, List.map_map]
    refine (List.map_congr_left fun b _ => ?_).trans (List.map_id bs)
    rw [Function.comp_apply, Text.toNat_ofUInt8, UInt8.ofNat_toNat, id_eq]
  rw [cleared_eq, length_slice h, textBytes, textField, hbytes]
  rfl

def fixedBytes (h : Header) : Bytes :=
  h.magic.bytes ++ Word.bytes h.version ++ Word.bytes h.dataOffset ++ Word.bytes h.loadAddress ++
    Word.bytes h.initAddress ++ Word.bytes h.playAddress ++ Word.bytes h.songs ++ Word.bytes h.startSong ++
    Word.longBytes h.speed

def bytes (h : Header) : Bytes :=
  h.fixedBytes ++ textBytes h.name ++ textBytes h.author ++ textBytes h.released

structure IsWritable (h : Header) : Prop where
  name : IsFieldText h.name
  author : IsFieldText h.author
  released : IsFieldText h.released

def tidied (data : Bytes) : Bytes :=
  slice data 0 0x16 ++ cleared (slice data 0x16 textSize) ++ cleared (slice data 0x36 textSize) ++
    cleared (slice data 0x56 textSize)

theorem length_fixedBytes (h : Header) : h.fixedBytes.length = 0x16 := by
  obtain ⟨magic, -⟩ := h
  cases magic <;> rfl

theorem length_bytes {h : Header} (hw : h.IsWritable) : h.bytes.length = size := by
  rw [bytes, List.length_append, List.length_append, List.length_append, length_fixedBytes,
    length_textBytes hw.name.1, length_textBytes hw.author.1, length_textBytes hw.released.1]
  rfl

end Header

theorem Magic.bytes_name (m : Magic) : Text.bytes m.name = m.bytes := by
  rw [Text.bytes_eq]
  cases m <;> decide

theorem Magic.length_bytes (m : Magic) : m.bytes.length = 4 := by
  cases m <;> rfl

theorem Magic.ofBytes?_eq_some_iff {bs : Bytes} {m : Magic} : Magic.ofBytes? bs = some m ↔ m.bytes = bs := by
  constructor
  · intro h
    simpa using List.find?_some h
  · rintro rfl
    cases m <;> rfl

namespace Header

variable {data : Bytes} {h : Header}

theorem bytes_eq_take_iff {m : Magic} : m.bytes = data.take 4 ↔ m.bytes <+: data := by
  rw [List.prefix_iff_eq_take, m.length_bytes]

theorem parse_eq_ok_iff_exists :
    parse data = .ok h ↔ ∃ (hlen : size ≤ data.length) (m : Magic), m.bytes <+: data ∧ ofData m data hlen = h := by
  simp only [← bytes_eq_take_iff, ← Magic.ofBytes?_eq_some_iff]
  unfold parse
  split
  · next hlen =>
    cases hmagic : Magic.ofBytes? (data.take 4) with
    | none => simp
    | some m => simp [hlen]
  · next hlen => simp [hlen]

theorem ofData_append {rest : Bytes} (hlen : size ≤ (h.fixedBytes ++ rest).length)
    (hname : textField (h.fixedBytes ++ rest) 0x16 = h.name)
    (hauthor : textField (h.fixedBytes ++ rest) 0x36 = h.author)
    (hreleased : textField (h.fixedBytes ++ rest) 0x56 = h.released) :
    ofData h.magic (h.fixedBytes ++ rest) hlen = h := by
  rw [ofData, hname, hauthor, hreleased]
  obtain ⟨magic, -⟩ := h
  cases magic <;>
    simp only [fixedBytes, Magic.bytes, Word.bytes, Word.longBytes, List.cons_append, List.nil_append,
      List.getElem_cons_zero, List.getElem_cons_succ, Word.ofBytes_bytes, Word.longOfBytes_longBytes]

theorem parse_bytes_append (hw : h.IsWritable) (payload : Bytes) : parse (h.bytes ++ payload) = .ok h := by
  have hdata : h.bytes ++ payload =
      h.fixedBytes ++ (textBytes h.name ++ (textBytes h.author ++ (textBytes h.released ++ payload))) := by
    simp only [bytes, List.append_assoc]
  have hlen : size ≤ (h.bytes ++ payload).length := by
    rw [List.length_append, length_bytes hw]
    exact Nat.le_add_right ..
  have hfront := length_fixedBytes h
  have hfront' : (h.fixedBytes ++ textBytes h.name).length = 0x36 := by
    rw [List.length_append, hfront, length_textBytes hw.name.1]
    rfl
  have hfront'' : (h.fixedBytes ++ textBytes h.name ++ textBytes h.author).length = 0x56 := by
    rw [List.length_append, hfront', length_textBytes hw.author.1]
    rfl
  have hname := textField_textBytes hw.name h.fixedBytes (textBytes h.author ++ (textBytes h.released ++ payload))
  have hauthor := textField_textBytes hw.author (h.fixedBytes ++ textBytes h.name) (textBytes h.released ++ payload)
  have hreleased := textField_textBytes hw.released (h.fixedBytes ++ textBytes h.name ++ textBytes h.author) payload
  rw [hfront] at hname
  rw [hfront', List.append_assoc] at hauthor
  rw [hfront'', List.append_assoc, List.append_assoc] at hreleased
  have hmagic : h.magic.bytes <+: h.bytes ++ payload := by
    simp only [bytes, fixedBytes, List.append_assoc]
    exact List.prefix_append ..
  refine parse_eq_ok_iff_exists.2 ⟨hlen, h.magic, hmagic, ?_⟩
  revert hlen
  rw [hdata]
  exact fun hlen => ofData_append hlen hname hauthor hreleased

theorem bytes_ofData {m : Magic} (hlen : size ≤ data.length) (hmagic : m.bytes <+: data) :
    (ofData m data hlen).bytes = tidied data := by
  have hlen' : 0x76 ≤ data.length := hlen
  have hmagic' : m.bytes = slice data 0 4 := bytes_eq_take_iff.2 hmagic
  have hspeed : [data[0x12], data[0x13], data[0x14], data[0x15]] = slice data 0x12 4 := by
    rw [← slice_append_slice data 0x12 2 2, ← pair_eq_slice (show 0x13 < data.length by omega),
      ← pair_eq_slice (show 0x15 < data.length by omega)]
    rfl
  -- Each word is a slice of two bytes, and a slice joins the one that starts where it ends.
  have hpair (i : Nat) (hi : i + 1 < data.length) := pair_eq_slice hi
  have hfixed : (ofData m data hlen).fixedBytes = slice data 0 0x16 := by
    simp only [fixedBytes, ofData, Word.bytes_ofBytes, Word.longBytes_longOfBytes, hmagic', hspeed]
    rw [hpair 0x04 (by omega), hpair 0x06 (by omega), hpair 0x08 (by omega), hpair 0x0A (by omega),
      hpair 0x0C (by omega), hpair 0x0E (by omega), hpair 0x10 (by omega)]
    simp only [slice_append_slice data 0, Nat.reduceAdd]
  have hname : textBytes (ofData m data hlen).name = cleared (slice data 0x16 textSize) :=
    textBytes_textField (Nat.le_trans (by decide) hlen)
  have hauthor : textBytes (ofData m data hlen).author = cleared (slice data 0x36 textSize) :=
    textBytes_textField (Nat.le_trans (by decide) hlen)
  have hreleased : textBytes (ofData m data hlen).released = cleared (slice data 0x56 textSize) :=
    textBytes_textField (Nat.le_trans (by decide) hlen)
  rw [bytes, hfixed, hname, hauthor, hreleased, tidied]

theorem textField_append {front rest : Bytes} {offset : Nat} (hlen : offset + textSize ≤ front.length) :
    textField (front ++ rest) offset = textField front offset := by
  have htake : textSize ≤ (front.drop offset).length := by
    rw [List.length_drop]
    omega
  rw [textField, textField, List.drop_append_of_le_length (Nat.le_of_add_right_le hlen),
    List.take_append_of_le_length htake]

theorem parse_append {front : Bytes} (hlen : size ≤ front.length) (rest : Bytes) :
    parse (front ++ rest) = parse front := by
  have hlen' : 0x76 ≤ front.length := hlen
  have hmore : size ≤ (front ++ rest).length := by
    rw [List.length_append]
    exact Nat.le_add_right_of_le hlen
  have htake : (front ++ rest).take 4 = front.take 4 := List.take_append_of_le_length (Nat.le_trans (by decide) hlen)
  have hdata (m : Magic) : ofData m (front ++ rest) hmore = ofData m front hlen := by
    have htext (offset : Nat) (h : offset ≤ 0x56) : textField (front ++ rest) offset = textField front offset := by
      refine textField_append ?_
      rw [textSize]
      omega
    simp (disch := omega) only [ofData, List.getElem_append_left, htext]
  rw [parse, parse, dif_pos hlen, dif_pos hmore, htake]
  simp only [hdata]

theorem effectiveLoadAddress_of_zero {image : Bytes} (hzero : h.loadAddress = 0) :
    h.effectiveLoadAddress image = Word.littleEndian? (image.drop h.dataOffset.toNat) :=
  if_neg (not_not_intro hzero)

theorem effectiveLoadAddress_of_pair {image : Bytes} (hzero : h.loadAddress = 0) {low high : UInt8}
    (hpair : slice image h.dataOffset.toNat 2 = [low, high]) :
    h.effectiveLoadAddress image = some (UInt16.ofNat (low.toNat + 256 * high.toNat)) := by
  rw [effectiveLoadAddress_of_zero hzero]
  rw [slice] at hpair
  cases hrest : image.drop h.dataOffset.toNat with
  | nil => simp [hrest] at hpair
  | cons b rest =>
    cases rest with
    | nil => simp [hrest] at hpair
    | cons c rest =>
      simp only [hrest, List.take_succ_cons, List.take_zero, List.cons.injEq, and_true] at hpair
      obtain ⟨rfl, rfl⟩ := hpair
      rw [Nat.add_comm]
      rfl

theorem effectiveLoadAddress_of_short {image : Bytes} (hzero : h.loadAddress = 0)
    (hshort : image.length < h.dataOffset.toNat + 2) : h.effectiveLoadAddress image = none := by
  rw [effectiveLoadAddress_of_zero hzero]
  have hrest : (image.drop h.dataOffset.toNat).length < 2 := by
    rw [List.length_drop]
    omega
  match image.drop h.dataOffset.toNat, hrest with
  | [], _ => rfl
  | [_], _ => rfl

/-- A header that is written reads back, whatever follows it, and a header that is read from data writes these data,
each text cleared behind its first zero. Data have a header if and only if they are long enough and start with a magic,
and nothing behind the header counts. The load address is the one in the header, or for a zero there the first word of
the tune's data, low byte first. -/
theorem parse_inverts_bytes :
    (∀ (h : Header) (payload : Bytes), h.IsWritable →
      h.bytes.length = 0x76 ∧ parse (h.bytes ++ payload) = .ok h) ∧
    (∀ data : Bytes, (∃ h, parse data = .ok h) ↔ 0x76 ≤ data.length ∧ ∃ m : Magic, Text.bytes m.name <+: data) ∧
    (∀ (data : Bytes) (h : Header), parse data = .ok h → h.bytes = tidied data) ∧
    (∀ front rest rest' : Bytes, 0x76 ≤ front.length → parse (front ++ rest) = parse (front ++ rest')) ∧
    ∀ (h : Header) (image : Bytes),
      (h.loadAddress ≠ 0 → h.effectiveLoadAddress image = some h.loadAddress) ∧
      (h.loadAddress = 0 →
        (∀ low high, slice image h.dataOffset.toNat 2 = [low, high] →
          h.effectiveLoadAddress image = some (UInt16.ofNat (low.toNat + 256 * high.toNat))) ∧
        (image.length < h.dataOffset.toNat + 2 → h.effectiveLoadAddress image = none)) := by
  refine ⟨fun h payload hw => ⟨length_bytes hw, parse_bytes_append hw payload⟩, fun data => ?_, fun data h hparse => ?_,
    fun front rest rest' hlen => ?_, fun h image => ⟨fun hload => if_pos hload, fun hzero => ⟨?_, ?_⟩⟩⟩
  · simp only [Magic.bytes_name]
    constructor
    · rintro ⟨h, hparse⟩
      obtain ⟨hlen, m, hmagic, -⟩ := parse_eq_ok_iff_exists.1 hparse
      exact ⟨hlen, m, hmagic⟩
    · rintro ⟨hlen, m, hmagic⟩
      exact ⟨ofData m data hlen, parse_eq_ok_iff_exists.2 ⟨hlen, m, hmagic, rfl⟩⟩
  · obtain ⟨hlen, m, hmagic, rfl⟩ := parse_eq_ok_iff_exists.1 hparse
    exact bytes_ofData hlen hmagic
  · rw [parse_append hlen, parse_append hlen]
  · intro low high hpair
    exact effectiveLoadAddress_of_pair hzero hpair
  · intro hshort
    exact effectiveLoadAddress_of_short hzero hshort

def fullHeader : Header where
  magic := .rsid
  version := 2
  dataOffset := 0x76
  loadAddress := 0
  initAddress := 0x1000
  playAddress := 0x1003
  songs := 3
  startSong := 1
  speed := 0x80000001
  name := String.ofList (List.replicate 32 'ÿ')
  author := ""
  released := "1985 Elit"

def staleData : Bytes :=
  [0x50, 0x53, 0x49, 0x44] ++ List.replicate 0x12 0 ++ [0x41, 0x00, 0x42] ++ List.replicate 0x5D 0

def staleHeader : Header where
  magic := .psid
  version := 0
  dataOffset := 0
  loadAddress := 0
  initAddress := 0
  playAddress := 0
  songs := 0
  startSong := 0
  speed := 0
  name := "A"
  author := ""
  released := ""

theorem parse_inverts_bytes_full :
    parse (fullHeader.bytes ++ [0x00, 0x10, 0x60]) = .ok fullHeader ∧
      fullHeader.effectiveLoadAddress (fullHeader.bytes ++ [0x00, 0x10, 0x60]) = some 0x1000 ∧
      fullHeader.effectiveLoadAddress fullHeader.bytes = none ∧
      parse staleData = .ok staleHeader ∧ staleHeader.bytes = tidied staleData ∧
      parse (staleData ++ [0x01]) = parse (staleData ++ []) := by
  obtain ⟨hwrite, -, hread, hbehind, haddress⟩ := parse_inverts_bytes
  have hfull : fullHeader.IsWritable := ⟨by decide, by decide, by decide⟩
  have hstale : parse staleData = .ok staleHeader := rfl
  obtain ⟨-, hzero⟩ := haddress fullHeader (fullHeader.bytes ++ [0x00, 0x10, 0x60])
  obtain ⟨-, hzero'⟩ := haddress fullHeader fullHeader.bytes
  exact ⟨(hwrite fullHeader _ hfull).2, (hzero rfl).1 0x00 0x10 (by decide +kernel), (hzero' rfl).2 (by decide +kernel),
    hstale, hread _ _ hstale, hbehind staleData [0x01] [] (by decide)⟩

end Header

end SidCatalog.Tune
