import SidCatalog.Proofs.SongLengths.Listing

/-! Lookups in a published list. They find the first tune with the path or the digest, whatever the line ending,
and report it missing where there is none. -/

namespace SidCatalog.SongLengths

open TextFile

section Lookup

variable {fs : FileSystem} {sldb : String} {stream : ByteStream} {content : Bytes} {records : List Listed}

theorem findByPath_listing (hopen : fs.openFile sldb = .ok stream) (hs : stream.Delivers content)
    (hl : lineTexts content = listing records) {path : String} (hpath : IsListed path) :
    (findByPath fs sldb path).outcome =
      match records.find? fun r => r.path = path with
      | some r => .ok r.result
      | none => .error (.noEntryForPath path) := by
  have hlisted := hpath.listedPath_eq
  cases hfind : records.find? fun r => r.path = path with
  | none =>
    have hnone : ∀ l ∈ lineTexts content, Entry.commentPath? l ≠ some (listedPath path) := by
      rw [hl, hlisted]
      exact commentPath?_listing (by simpa using hfind)
    rw [findByPath_of_forall hopen hs hnone, hlisted]
  | some r =>
    obtain ⟨hr, before, after, rfl, hbefore⟩ := List.find?_eq_some_iff_append.1 hfind
    obtain rfl : r.path = path := by simpa using hr
    have hpassed : ∀ l ∈ listing before, Entry.commentPath? l ≠ some (listedPath r.path) := by
      rw [hlisted]
      exact commentPath?_listing (by simpa using hbefore)
    have hcomment : Entry.commentPath? r.commentLine = some (listedPath r.path) := by
      rw [hlisted, r.commentPath?_commentLine]
    rw [listing_append_cons] at hl
    rw [findByPath_of_split hopen hs hl hpassed hcomment, belowComment, r.parse_entryLine, hlisted]
    rfl

theorem findByDigest_listing (hopen : fs.openFile sldb = .ok stream) (hs : stream.Delivers content)
    (hl : lineTexts content = listing records) (d : Digest) :
    (findByDigest fs sldb d).outcome =
      match records.find? fun r => r.digest = d with
      | some r => .ok r.result
      | none => .error (.noEntryForDigest d.toHex) := by
  cases hfind : records.find? fun r => r.digest = d with
  | none =>
    have hnone : ∀ l ∈ lineTexts content, Entry.isFor d l = false := by
      rw [hl]
      exact isFor_listing (by simpa using hfind)
    rw [findByDigest_of_forall hopen hs hnone]
  | some r =>
    obtain ⟨hr, before, after, rfl, hbefore⟩ := List.find?_eq_some_iff_append.1 hfind
    obtain rfl : r.digest = d := by simpa using hr
    have hline : Entry.isFor r.digest r.entryLine = true := r.isFor_entryLine.2 rfl
    have hpassed : ∀ l ∈ listing before ++ [r.commentLine], Entry.isFor r.digest l = false := by
      intro l hmem
      rcases List.mem_append.1 hmem with hmem | hmem
      · exact isFor_listing (by simpa using hbefore) l hmem
      · rw [List.mem_singleton.1 hmem, r.isFor_commentLine]
    -- The comment right above the entry is the last line passed over, and gives the path.
    rw [listing_append_cons, List.append_cons] at hl
    rw [findByDigest_of_split hopen hs hl hpassed hline, r.parse_entryLine, List.getLast?_concat,
      Option.bind_some, r.commentPath?_commentLine]
    rfl

/-- In a published list each lookup finds the first tune, and nothing where no tune has the path or the digest. -/
theorem lookups_invert_listing {newline : Newline} {closed : Bool} (hopen : fs.openFile sldb = .ok stream)
    (hs : stream.Delivers (Text.bytes (fileText newline closed (listing records)))) :
    (∀ path, IsListed path → (findByPath fs sldb path).outcome =
      match records.find? fun r => r.path = path with
      | some r => .ok r.result
      | none => .error (.noEntryForPath path)) ∧
    ∀ d, (findByDigest fs sldb d).outcome =
      match records.find? fun r => r.digest = d with
      | some r => .ok r.result
      | none => .error (.noEntryForDigest d.toHex) := by
  have hl : lineTexts (Text.bytes (fileText newline closed (listing records))) = listing records :=
    lineTexts_listing newline closed records
  exact ⟨fun path hpath => findByPath_listing hopen hs hl hpath, findByDigest_listing hopen hs hl⟩

end Lookup

def taggedTune : Listed where
  path := "/a b.sid"
  digest := zeroDigest
  times := [{ time := minute, tag := some "G" }, .untagged minute]
  isListed := ⟨by decide, by decide, by decide, by simp; decide⟩

def otherTune : Listed where
  path := "/a b.sid"
  digest := ⟨List.replicate 16 0xAF, rfl⟩
  times := []
  isListed := taggedTune.isListed

theorem lookups_invert_sharedPath :
    let list := Text.bytes (fileText .crlf false (listing [taggedTune, otherTune]))
    let fs : FileSystem := ⟨fun _ => .ok (.ofBytes list)⟩
    (findByPath fs "sldb" "/a b.sid").outcome = .ok taggedTune.result ∧
      (findByDigest fs "sldb" otherTune.digest).outcome = .ok otherTune.result ∧
      (findByPath fs "sldb" "/").outcome = .error (.noEntryForPath "/") := by
  intro list fs
  have hlookups := lookups_invert_listing (rfl : fs.openFile "sldb" = _) (ByteStream.delivers_ofBytes list)
  have hroot : IsListed "/" := ⟨by decide, by decide, by decide, by simp; decide⟩
  exact ⟨hlookups.1 "/a b.sid" taggedTune.isListed, hlookups.2 otherTune.digest, hlookups.1 "/" hroot⟩

end SidCatalog.SongLengths
