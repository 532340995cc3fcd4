import SidCatalog.Proofs.SongLengths.Layout
import SidCatalog.Proofs.SongLengths.Search
import SidCatalog.Proofs.TextFile.Writing

/-! Which lines the two lookups take for entries. Both go by the text before the first equals sign, but the lookup
by path trims it and the lookup by digest does not, so it passes over an entry whose digest has blanks around it. -/

namespace SidCatalog.SongLengths

open TextFile

namespace Entry

def Names (line : String) (d : Digest) : Prop :=
  '=' ∈ line.toList ∧ d.IsSpelling (Text.trim (front line))

def IsPadded (line : String) : Prop := Text.trim (front line) ≠ front line

theorem isFor_iff_cut? {d : Digest} {line : String} :
    isFor d line = true ↔
      ∃ before text, Text.cut? 32 line.toList = some (before, '=' :: text) ∧ d.IsSpelling before := by
  unfold isFor
  split
  · next before text hcut =>
    rw [decide_eq_true_iff, Digest.toHex, String.ofList_inj]
    constructor
    · exact fun h => ⟨before, text, hcut, h⟩
    · rintro ⟨before', text', hcut', h⟩
      rw [hcut] at hcut'
      cases hcut'
      exact h
  · next hcut =>
    refine iff_of_false (by simp) ?_
    rintro ⟨before, text, hcut', -⟩
    exact hcut _ _ hcut'

theorem isFor_iff {d : Digest} {line : String} :
    isFor d line = true ↔ Names line d ∧ ¬ IsPadded line := by
  rw [isFor_iff_cut?]
  constructor
  · rintro ⟨before, text, hcut, hspelling⟩
    obtain ⟨hl, -⟩ := Text.append_of_cut? hcut
    -- No digit is an equals sign, so the one behind the digits is the first.
    have hfront : front line = before := front_append hl (hspelling.not_mem (by decide))
    have htrim : Text.trim before = before := hspelling.trim_eq
    refine ⟨⟨by simp [hl], ?_⟩, ?_⟩
    · rwa [hfront, htrim]
    · rw [IsPadded, hfront, htrim]
      exact not_not_intro rfl
  · rintro ⟨⟨hmem, hspelling⟩, hpadded⟩
    obtain ⟨before, text, hl, hbefore⟩ := List.eq_append_cons_of_mem hmem
    rw [not_not.1 hpadded, front_append hl hbefore] at hspelling
    refine ⟨before, text, ?_, hspelling⟩
    rw [hl, ← hspelling.byteLength_eq, Text.cut?_append]

theorem names_of_parse {line : String} {entry : Digest × List Timestamp} (h : parse line = .ok entry) :
    Names line entry.1 := by
  have hparsed := parsed_parse line
  rw [h] at hparsed
  cases hparsed with
  | entry hl hd ht => exact ⟨by simp [hl], hd⟩

theorem Cursor.code_of_next {line : String} {c : Cursor} {f : Failure} (h : c.next line = .error f) :
    f.code = .timestamp ∨ f = .unterminatedAttribute line := by
  unfold next at h
  split at h
  · cases h
  · split at h
    · next g hg =>
      cases h
      unfold readTime at hg
      split at hg
      · cases hg
      · cases hg
        exact .inl rfl
    · split at h
      · cases h
      · cases h
        exact .inr rfl

theorem Cursor.code_of_times {line : String} {c : Cursor} {f : Failure} (h : c.times line = .error f) :
    f.code = .timestamp ∨ f = .unterminatedAttribute line := by
  obtain ⟨tokens, rest, -, -, -, hrefused⟩ := @exists_precede_of_error line c.rest c.offset f h
  exact code_of_next hrefused

theorem code_of_ofHex {text : String} {f : Failure} (h : Digest.ofHex text = .error f) :
    f.code = .digest := by
  obtain ⟨reason, rfl⟩ := Digest.exists_reason_of_ofHex h
  rfl

theorem code_ne_notFound_of_parse {line : String} {f : Failure} (h : parse line = .error f) :
    f.code ≠ .notFound := by
  have hparsed := parsed_parse line
  rw [h] at hparsed
  cases hparsed with
  | withoutEquals => exact nofun
  | withoutDigest hl hd =>
    rw [code_of_ofHex hd]
    exact nofun
  | malformed hl hd ht =>
    rcases Cursor.code_of_times ht with hcode | rfl
    · rw [hcode]
      exact nofun
    · exact nofun

end Entry

section Lookup

variable {fs : FileSystem} {sldb path : String} {stream : ByteStream} {content : Bytes} {f : Failure} {d : Digest}

theorem parse_of_findByPath (hopen : fs.openFile sldb = .ok stream) (hs : stream.Delivers content)
    {s : SongLengths} (hfound : (findByPath fs sldb path).outcome = .ok s) :
    ∃ passed comment line rest, lineTexts content = passed ++ comment :: line :: rest ∧
      Entry.commentPath? comment = some (listedPath path) ∧ Entry.parse line = .ok (s.digest, s.lengths) := by
  rcases forall_or_split (fun l => Entry.commentPath? l = some (listedPath path)) (lineTexts content) with
    hnone | ⟨passed, comment, rest, hl, hpassed, hcomment⟩
  · rw [findByPath_of_forall hopen hs (by simpa using hnone)] at hfound
    cases hfound
  · rw [decide_eq_true_iff] at hcomment
    rw [findByPath_of_split hopen hs hl (by simpa using hpassed) hcomment] at hfound
    cases rest with
    | nil => cases hfound
    | cons line rest =>
      rw [belowComment] at hfound
      cases hparse : Entry.parse line with
      | error f =>
        rw [hparse] at hfound
        cases hfound
      | ok entry =>
        rw [hparse] at hfound
        cases hfound
        exact ⟨passed, comment, line, rest, hl, hcomment, hparse⟩

theorem findByDigest_missing_iff :
    (findByDigest fs sldb d).outcome = .error f ∧ f.code = .notFound ↔
      f = .noEntryForDigest d.toHex ∧ ∃ lines, Course fs sldb lines none ∧ ∀ l ∈ lines, Entry.isFor d l = false := by
  constructor
  · rintro ⟨hf, hcode⟩
    rcases closed_or_course fs sldb with ⟨fault, hopen⟩ | ⟨lines, stop, hc⟩
    · rw [findByDigest, openHandle_of_closed hopen] at hf
      cases hf
      cases hcode
    rcases forall_or_split (Entry.isFor d) lines with hnone | ⟨passed, line, rest, rfl, hpassed, hline⟩
    · rw [outcome_findByDigest_of_forall hc hnone] at hf
      obtain rfl := Except.error.inj hf
      cases stop with
      | none => exact ⟨rfl, lines, hc, hnone⟩
      | some f =>
        rw [Option.getD_some, hc.code_eq] at hcode
        cases hcode
    · rw [outcome_findByDigest_of_hit hc hpassed hline] at hf
      cases hparse : Entry.parse line with
      | error g =>
        rw [hparse] at hf
        cases hf
        exact absurd hcode (Entry.code_ne_notFound_of_parse hparse)
      | ok entry =>
        rw [hparse] at hf
        cases hf
  · rintro ⟨rfl, lines, hc, hnone⟩
    exact ⟨outcome_findByDigest_of_forall hc hnone, rfl⟩

theorem findByDigest_notFound_iff (hopen : fs.openFile sldb = .ok stream) (hs : stream.Delivers content)
    (d : Digest) :
    (∃ f, (findByDigest fs sldb d).outcome = .error f ∧ f.code = .notFound) ↔
      ∀ line ∈ lineTexts content, Entry.Names line d → Entry.IsPadded line := by
  have hc : Course fs sldb (lineTexts content) none := course_of_delivers hopen hs
  constructor
  · rintro ⟨f, hmissing⟩ line hmem hnames
    obtain ⟨-, lines, hc', hnone⟩ := findByDigest_missing_iff.1 hmissing
    obtain ⟨rfl, -⟩ := hc.unique hc'
    by_contra hpadded
    have hfor : Entry.isFor d line = true := Entry.isFor_iff.2 ⟨hnames, hpadded⟩
    rw [hnone line hmem] at hfor
    cases hfor
  · intro hall
    refine ⟨_, findByDigest_missing_iff.2 ⟨rfl, _, hc, fun line hmem => ?_⟩⟩
    rw [Bool.eq_false_iff]
    intro hfor
    obtain ⟨hnames, hpadded⟩ := Entry.isFor_iff.1 hfor
    exact hpadded (hall line hmem hnames)

/-- The lookup by digest misses what the lookup by path found exactly when blanks stand around the digest in the
entry that was found and in all others that name it. -/
theorem findByDigest_misses_iff (hopen : fs.openFile sldb = .ok stream) (hs : stream.Delivers content)
    {s : SongLengths} (hfound : (findByPath fs sldb path).outcome = .ok s) :
    ∃ passed comment line rest, lineTexts content = passed ++ comment :: line :: rest ∧
      Entry.commentPath? comment = some (listedPath path) ∧ Entry.Names line s.digest ∧
      ((∃ f, (findByDigest fs sldb s.digest).outcome = .error f ∧ f.code = .notFound) ↔
        ∀ other ∈ lineTexts content, Entry.Names other s.digest → Entry.IsPadded other) := by
  obtain ⟨passed, comment, line, rest, hl, hcomment, hparse⟩ := parse_of_findByPath hopen hs hfound
  exact ⟨passed, comment, line, rest, hl, hcomment, Entry.names_of_parse hparse,
    findByDigest_notFound_iff hopen hs s.digest⟩

end Lookup

def zeroDigest : Digest := ⟨List.replicate 16 0, rfl⟩

def minute : Timestamp := ⟨60000, by decide⟩

def paddedList : Bytes := Text.bytes "; /a\n 00000000000000000000000000000000=1:00\n"

def paddedFiles : FileSystem := ⟨fun _ => .ok (.ofBytes paddedList)⟩

theorem lineTexts_paddedList :
    lineTexts paddedList = ["; /a", " 00000000000000000000000000000000=1:00"] := by
  have htext : fileText .lf true ["; /a", " 00000000000000000000000000000000=1:00"] =
      "; /a\n 00000000000000000000000000000000=1:00\n" := by decide
  rw [paddedList, ← htext]
  apply lineTexts_fileText
  intro line hline
  rcases List.mem_pair.1 hline with rfl | rfl <;> exact ⟨by decide, by decide, by decide⟩

theorem findByPath_paddedList :
    (findByPath paddedFiles "sldb" "/a").outcome = .ok ⟨zeroDigest, some "/a", [minute]⟩ := by
  have hlayout : " 00000000000000000000000000000000=1:00".toList =
      [' '] ++ Hex.encode zeroDigest.bytes ++ [] ++ '=' :: (Entry.itemsText [{ time := minute }] ++ []) := by
    decide
  have hparse := Entry.parse_of_layout hlayout Text.isBlank_of_mem_space (by simp) zeroDigest.isSpelling_encode
    (.singleton _) (by simp)
  have hl : lineTexts paddedList = [] ++ "; /a" :: [" 00000000000000000000000000000000=1:00"] :=
    lineTexts_paddedList
  rw [findByPath_of_split rfl (ByteStream.delivers_ofBytes paddedList) hl (by simp) (by decide),
    belowComment, hparse]
  rfl

theorem misses_paddedList :
    (findByPath paddedFiles "sldb" "/a").outcome = .ok ⟨zeroDigest, some "/a", [minute]⟩ ∧
      ∃ f, (findByDigest paddedFiles "sldb" zeroDigest).outcome = .error f ∧ f.code = .notFound := by
  have hnone : ∀ l ∈ lineTexts paddedList, Entry.isFor zeroDigest l = false := by
    rw [lineTexts_paddedList]
    decide
  exact ⟨findByPath_paddedList, _,
    findByDigest_of_forall rfl (ByteStream.delivers_ofBytes paddedList) hnone, rfl⟩

theorem misses_iff_paddedList :
    (findByPath paddedFiles "sldb" "/a").outcome = .ok ⟨zeroDigest, some "/a", [minute]⟩ ∧
      ∃ passed comment line rest, lineTexts paddedList = passed ++ comment :: line :: rest ∧
        Entry.commentPath? comment = some (listedPath "/a") ∧ Entry.Names line zeroDigest ∧
        ((∃ f, (findByDigest paddedFiles "sldb" zeroDigest).outcome = .error f ∧ f.code = .notFound) ↔
          ∀ other ∈ lineTexts paddedList, Entry.Names other zeroDigest → Entry.IsPadded other) :=
  ⟨findByPath_paddedList,
    findByDigest_misses_iff rfl (ByteStream.delivers_ofBytes paddedList) findByPath_paddedList⟩

end SidCatalog.SongLengths
