import SidCatalog.Proofs.Path.Separators
import SidCatalog.Proofs.SongLengths.Recognition
import SidCatalog.Proofs.SongLengths.Warnings

/-! Lookups told by the first line that counts. By digest that line is the entry itself, by path it is the comment above
the entry. Each lookup comes to what the entry is parsed to, and warns of the entry alone; other lines may be
malformed in any way. -/

namespace SidCatalog.SongLengths

open TextFile

namespace Entry

def equalsByte : UInt8 := 0x3D

/-- The first thirty-two bytes of the line read as the digest, and an equals sign comes behind them. -/
def IsKeyed (d : Digest) (line : String) : Prop :=
  32 < (Text.bytes line).length ∧ (Text.bytes line)[32]? = some equalsByte ∧
    ∃ hex, Text.bytes hex = (Text.bytes line).take 32 ∧ Digest.ofHex hex = .ok d

def IsCommentFor (path line : String) : Prop :=
  ∃ text, line.toList = ';' :: text ∧ path = String.ofList (Text.trim text)

theorem commentPath?_eq_some_iff {line path : String} : commentPath? line = some path ↔ IsCommentFor path line := by
  unfold commentPath?
  split
  · next text htext =>
    rw [IsCommentFor, htext]
    simp [eq_comm]
  · next hne =>
    refine iff_of_false (by simp) ?_
    rintro ⟨text, htext, -⟩
    exact hne text htext

theorem bytes_of_toList {line : String} {before text : List Char} (hl : line.toList = before ++ '=' :: text) :
    Text.bytes line = Text.bytes (String.ofList before) ++ equalsByte :: Text.bytes (String.ofList text) := by
  rw [Text.bytes_eq, hl, List.flatMap_append, List.flatMap_cons, Text.bytes_ofList, Text.bytes_ofList]
  rfl

theorem isFor_iff_isKeyed {d : Digest} {line : String} : isFor d line = true ↔ IsKeyed d line := by
  rw [isFor_iff_cut?]
  constructor
  · rintro ⟨before, text, hcut, hspelling⟩
    obtain ⟨hl, -⟩ := Text.append_of_cut? hcut
    have hlen : (Text.bytes (String.ofList before)).length = 32 := by
      rw [Text.length_bytes, String.toList_ofList, hspelling.byteLength_eq]
    rw [IsKeyed, bytes_of_toList hl]
    refine ⟨?_, ?_, String.ofList before, ?_, Digest.ofHex_eq_ok_iff.2 hspelling⟩
    · simp [hlen]
    · rw [List.getElem?_append_right (Nat.le_of_eq hlen), hlen]
      rfl
    · rw [← hlen, List.take_left]
  · rintro ⟨hlen, hequals, hex, hhex, hd⟩
    have hprefix : Text.bytes hex <+: Text.bytes line := hhex ▸ List.take_prefix ..
    obtain ⟨rest, rfl⟩ := Text.bytes_prefix_iff.1 hprefix
    have hspelling : d.IsSpelling hex.toList := by
      rwa [← Digest.ofHex_eq_ok_iff, String.ofList_toList]
    have hhexlen : (Text.bytes hex).length = 32 := by rw [Text.length_bytes, hspelling.byteLength_eq]
    -- The byte behind the digits starts the rest, and no longer character has it in its encoding.
    rw [Text.bytes_append, List.getElem?_append_right (Nat.le_of_eq hhexlen), hhexlen, Nat.sub_self,
      ← List.head?_eq_getElem?] at hequals
    obtain ⟨bs, hbs⟩ := List.head?_eq_some_iff.1 hequals
    obtain ⟨text, htext⟩ := List.head?_eq_some_iff.1 (Text.head?_toList_of_bytes (c := '=') (by decide) hbs)
    refine ⟨hex.toList, text, ?_, hspelling⟩
    rw [String.toList_append, htext, ← hspelling.byteLength_eq, Text.cut?_append]

theorem isFor_eq_false {d : Digest} {line : String} (h : ¬ IsKeyed d line) : isFor d line = false :=
  Bool.eq_false_iff.2 (mt isFor_iff_isKeyed.1 h)

instance (path line : String) : Decidable (IsCommentFor path line) := decidable_of_iff _ commentPath?_eq_some_iff

instance (d : Digest) (line : String) : Decidable (IsKeyed d line) := decidable_of_iff _ isFor_iff_isKeyed

end Entry

structure IsFirst (P : String → Prop) (lines above : List String) (line : String) (below : List String) : Prop where
  lines_eq : lines = above ++ line :: below
  not_above : ∀ l ∈ above, ¬ P l
  holds : P line

theorem IsFirst.congr {P Q : String → Prop} {lines above below : List String} {line : String}
    (h : ∀ l, P l ↔ Q l) (hfirst : IsFirst P lines above line below) : IsFirst Q lines above line below where
  lines_eq := hfirst.lines_eq
  not_above l hl := mt (h l).2 (hfirst.not_above l hl)
  holds := (h line).1 hfirst.holds

section Digest

variable {fs : FileSystem} {sldb : String} {stream : ByteStream} {content : Bytes} {d : Digest}

theorem digest_eq_of_parse {line : String} {found : Digest} {lengths : List Timestamp} (hkeyed : Entry.IsKeyed d line)
    (h : Entry.parse line = .ok (found, lengths)) : found = d := by
  obtain ⟨⟨-, hd⟩, -⟩ := Entry.isFor_iff.1 (Entry.isFor_iff_isKeyed.2 hkeyed)
  obtain ⟨-, hfound⟩ := Entry.names_of_parse h
  exact hfound.unique hd

theorem code_of_keyed {line : String} {f : Failure} (hkeyed : Entry.IsKeyed d line)
    (h : Entry.parse line = .error f) : f.code = .timestamp ∨ f = .unterminatedAttribute line := by
  obtain ⟨⟨hequals, hd⟩, -⟩ := Entry.isFor_iff.1 (Entry.isFor_iff_isKeyed.2 hkeyed)
  have hparsed := Entry.parsed_parse line
  rw [h] at hparsed
  cases hparsed with
  | withoutEquals hnone => exact absurd hequals hnone
  | withoutDigest _ hnone =>
    rw [Digest.ofHex_eq_ok_iff.2 hd] at hnone
    cases hnone
  | malformed _ _ htimes => exact Entry.Cursor.code_of_times htimes

/-- The lookup by digest comes to the first line with the digest in its columns. If that is malformed, the lookup
fails with it, and if not, it takes the path from a comment right above. -/
theorem findByDigest_first_keyed (hopen : fs.openFile sldb = .ok stream) (hs : stream.Delivers content) (d : Digest) :
    ((∀ l ∈ lineTexts content, ¬ Entry.IsKeyed d l) →
      (findByDigest fs sldb d).outcome = .error (.noEntryForDigest d.toHex) ∧
        (findByDigest fs sldb d).warnings = []) ∧
    ∀ above line below, IsFirst (Entry.IsKeyed d) (lineTexts content) above line below →
      (∀ f, Entry.parse line = .error f →
        (findByDigest fs sldb d).outcome = .error f ∧
          (f.code = .timestamp ∨ f = .unterminatedAttribute line) ∧
          ∃ number, (findByDigest fs sldb d).warnings = [.malformedEntry number f]) ∧
      ∀ found lengths, Entry.parse line = .ok (found, lengths) →
        found = d ∧ (findByDigest fs sldb d).warnings = [] ∧
          ∃ path, (findByDigest fs sldb d).outcome = .ok ⟨d, path, lengths⟩ ∧
            ∀ p, path = some p ↔ ∃ l, above.getLast? = some l ∧ Entry.IsCommentFor p l := by
  have hc : Course fs sldb (lineTexts content) none := course_of_delivers hopen hs
  refine ⟨fun hnone => ?_, fun above line below hfirst => ?_⟩
  · have hd : ∀ l ∈ lineTexts content, Entry.isFor d l = false := fun l hl => Entry.isFor_eq_false (hnone l hl)
    exact ⟨outcome_findByDigest_of_forall hc hd, warnings_findByDigest_of_forall hc hd⟩
  · have hpassed : ∀ l ∈ above, Entry.isFor d l = false := fun l hl => Entry.isFor_eq_false (hfirst.not_above l hl)
    have hline : Entry.isFor d line = true := Entry.isFor_iff_isKeyed.2 hfirst.holds
    rw [hfirst.lines_eq] at hc
    have houtcome := outcome_findByDigest_of_hit hc hpassed hline
    obtain ⟨number, hwarnings⟩ := warnings_findByDigest_of_hit hc hpassed hline
    refine ⟨fun f hf => ⟨?_, code_of_keyed hfirst.holds hf, number, ?_⟩, fun found lengths hparse => ?_⟩
    · rw [houtcome, hf]
      rfl
    · rw [hwarnings, warnings_entryAt_of_error hf]
    · obtain rfl : found = d := digest_eq_of_parse hfirst.holds hparse
      refine ⟨rfl, ?_, above.getLast?.bind Entry.commentPath?, ?_, fun p => ?_⟩
      · rw [hwarnings, warnings_entryAt_of_ok hparse]
      · rw [houtcome, hparse]
        rfl
      · simp only [Option.bind_eq_some_iff, Entry.commentPath?_eq_some_iff]

end Digest

def upperLine : String := "ABABABABABABABABABABABABABABABAB=1:00"

def brokenLine : String := "00000000000000000000000000000000=1"

def mixedLines : List String :=
  ["; /a", upperLine, ";\t/b ", brokenLine, "abababababababababababababababab=2:00", "; /a", "; /c"]

def mixedList : Bytes := Text.bytes (fileText .lf false mixedLines)

def mixedFiles : FileSystem := ⟨fun _ => .ok (.ofBytes mixedList)⟩

def mixedDigest : Digest := ⟨List.replicate 16 0xAB, rfl⟩

theorem lineTexts_mixedList : lineTexts mixedList = mixedLines := by
  have hlines : ∀ line ∈ mixedLines, line ≠ "" ∧ '\n' ∉ line.toList ∧ line.toList.getLast? ≠ some '\r' := by decide
  refine @lineTexts_fileText .lf false mixedLines fun line hline => ?_
  obtain ⟨hne, hmem, hlast⟩ := hlines line hline
  exact ⟨hne, hmem, hlast⟩

theorem isFirst_upperLine :
    IsFirst (Entry.IsKeyed mixedDigest) (lineTexts mixedList) ["; /a"] upperLine (mixedLines.drop 2) :=
  ⟨lineTexts_mixedList, by decide, by decide⟩

theorem isFirst_brokenLine :
    IsFirst (Entry.IsKeyed zeroDigest) (lineTexts mixedList) (mixedLines.take 3) brokenLine (mixedLines.drop 4) :=
  ⟨lineTexts_mixedList, by decide, by decide⟩

theorem isFirst_comment_a {path : String} (h : listedPath path = "/a") :
    IsFirst (Entry.IsCommentFor (listedPath path)) (lineTexts mixedList) [] "; /a" (upperLine :: mixedLines.drop 2) :=
  h ▸ ⟨lineTexts_mixedList, by decide, by decide⟩

theorem isFirst_comment_b :
    IsFirst (Entry.IsCommentFor (listedPath "b")) (lineTexts mixedList) (mixedLines.take 2) ";\t/b "
      (brokenLine :: mixedLines.drop 4) :=
  ⟨lineTexts_mixedList, by decide, by decide⟩

theorem isFirst_comment_c :
    IsFirst (Entry.IsCommentFor (listedPath "c")) (lineTexts mixedList) (mixedLines.take 6) "; /c" [] :=
  ⟨lineTexts_mixedList, by decide, by decide⟩

theorem parse_upperLine : Entry.parse upperLine = .ok (mixedDigest, [minute]) := by
  have hlayout : upperLine.toList =
      [] ++ (Hex.encode mixedDigest.bytes).map Char.toUpper ++ [] ++
        '=' :: (Entry.itemsText [{ time := minute }] ++ []) := by
    decide
  have hspelling : mixedDigest.IsSpelling ((Hex.encode mixedDigest.bytes).map Char.toUpper) := by
    rw [Digest.IsSpelling]
    decide
  exact Entry.parse_of_layout hlayout (by simp) (by simp) hspelling (.singleton _) (by simp)

theorem parse_brokenLine : Entry.parse brokenLine = .error (.timestamp 34) := by
  have hnext : Entry.Cursor.next brokenLine ⟨33, ['1']⟩ = .error (.timestamp 34) := by decide
  have htimes : Entry.Cursor.times brokenLine ⟨33, ['1']⟩ = .error (.timestamp 34) := by
    rw [Entry.Cursor.times, hnext]
  have hl : brokenLine.toList = List.replicate 32 '0' ++ '=' :: ['1'] := by decide
  rw [Entry.parse_of_toList hl (by decide)]
  have hd : Digest.ofHex (String.ofList (Text.trim (List.replicate 32 '0'))) = .ok zeroDigest := by decide
  have hlength : Text.byteLength (List.replicate 32 '0') + 1 = 33 := by decide
  rw [hd, hlength]
  exact congrArg (Except.map (zeroDigest, ·)) htimes

theorem findByDigest_mixedFiles :
    (findByDigest mixedFiles "sldb" mixedDigest).outcome = .ok ⟨mixedDigest, some "/a", [minute]⟩ ∧
      (findByDigest mixedFiles "sldb" mixedDigest).warnings = [] ∧
      (findByDigest mixedFiles "sldb" zeroDigest).outcome = .error (.timestamp 34) ∧
      (∃ number, (findByDigest mixedFiles "sldb" zeroDigest).warnings = [.malformedEntry number (.timestamp 34)]) ∧
      (findByDigest mixedFiles "sldb" ⟨List.replicate 16 0xFF, rfl⟩).outcome =
        .error (.noEntryForDigest "ffffffffffffffffffffffffffffffff") := by
  have hs : (ByteStream.ofBytes mixedList).Delivers mixedList := ByteStream.delivers_ofBytes mixedList
  have hnone : ∀ l ∈ lineTexts mixedList, ¬ Entry.IsKeyed ⟨List.replicate 16 0xFF, rfl⟩ l := by
    rw [lineTexts_mixedList]
    decide
  have hlookup := @findByDigest_first_keyed mixedFiles "sldb" _ _ rfl hs
  obtain ⟨-, hfirst⟩ := hlookup mixedDigest
  obtain ⟨-, hwarnings, path, hfound, hpath⟩ := (hfirst _ _ _ isFirst_upperLine).2 _ _ parse_upperLine
  obtain rfl : path = some "/a" := (hpath "/a").2 ⟨"; /a", rfl, by decide⟩
  obtain ⟨-, hfirst'⟩ := hlookup zeroDigest
  obtain ⟨hfailed, -, hwarned⟩ := (hfirst' _ _ _ isFirst_brokenLine).1 _ parse_brokenLine
  obtain ⟨hmissing, -⟩ := hlookup ⟨List.replicate 16 0xFF, rfl⟩
  exact ⟨hfound, hwarnings, hfailed, hwarned, (hmissing hnone).1⟩

section Path

variable {fs : FileSystem} {sldb path : String} {stream : ByteStream} {content : Bytes}

theorem findByPathBy_congr {parse : String → Except Failure (Digest × List Timestamp)}
    (h : ∀ hit, (lineBelowComment fs sldb path).outcome = .ok hit → parse hit.line = Entry.parse hit.line) :
    findByPathBy parse fs sldb path = findByPath fs sldb path := by
  -- Either way the line below the comment is found first, and no other line is parsed.
  rw [← findByPathBy_parse, findByPathBy_eq, findByPathBy_eq]
  cases hline : (lineBelowComment fs sldb path).outcome with
  | error f => rw [Attempt.bind_of_error hline, Attempt.bind_of_error hline]
  | ok hit => rw [Attempt.bind_of_ok hline, Attempt.bind_of_ok hline, entryBy, entryBy, h hit hline]

theorem findByPath_of_refused {f : Failure} (hf : (lineBelowComment fs sldb path).outcome = .error f) :
    (findByPath fs sldb path).outcome = .error f ∧ (findByPath fs sldb path).warnings = [] ∧
      ∀ parse, findByPathBy parse fs sldb path = findByPath fs sldb path := by
  refine ⟨?_, warnings_findByPath_of_error hf, fun parse => findByPathBy_congr fun hit hhit => ?_⟩
  · rw [findByPath_eq, Attempt.bind_of_error hf]
  · rw [hf] at hhit
    cases hhit

theorem listedPath_singleton_append {c : Char} (hc : Path.IsSlash c)
    (hpath : ∀ a ∈ path.toList.head?, ¬ Path.IsSlash a) :
    listedPath (String.singleton c ++ path) = listedPath path := by
  have hslash : path.toList.head? ≠ some '/' := fun h => hpath '/' h (.inl rfl)
  have hback : path.toList.head? ≠ some '\\' := fun h => hpath '\\' h (.inr rfl)
  rw [listedPath, listedPath, Path.normalize_singleton_append hc, Path.absolute_normalize hslash hback,
    Path.absolute_eq_self (by simp)]

/-- The lookup by path comes to the line below the first comment with the path as the list names it, and parses no
other line. The kinds of slashes in the path do not matter, and neither does the slash in front. -/
theorem findByPath_first_comment (hopen : fs.openFile sldb = .ok stream) (hs : stream.Delivers content)
    (path : String) :
    ((∀ l ∈ lineTexts content, ¬ Entry.IsCommentFor (listedPath path) l) →
      (findByPath fs sldb path).outcome = .error (.noEntryForPath (listedPath path)) ∧
        (findByPath fs sldb path).warnings = [] ∧
        ∀ parse, findByPathBy parse fs sldb path = findByPath fs sldb path) ∧
    (∀ above comment, IsFirst (Entry.IsCommentFor (listedPath path)) (lineTexts content) above comment [] →
      (findByPath fs sldb path).outcome = .error (.endsAfterComment (listedPath path)) ∧
        (findByPath fs sldb path).warnings = [] ∧
        ∀ parse, findByPathBy parse fs sldb path = findByPath fs sldb path) ∧
    (∀ above comment line below,
      IsFirst (Entry.IsCommentFor (listedPath path)) (lineTexts content) above comment (line :: below) →
      (∀ f, Entry.parse line = .error f →
        (findByPath fs sldb path).outcome = .error f ∧
          ∃ number, (findByPath fs sldb path).warnings = [.malformedEntry number f]) ∧
      (∀ found lengths, Entry.parse line = .ok (found, lengths) →
        (findByPath fs sldb path).outcome = .ok ⟨found, some (listedPath path), lengths⟩ ∧
          (findByPath fs sldb path).warnings = []) ∧
      ∀ parse, parse line = Entry.parse line → findByPathBy parse fs sldb path = findByPath fs sldb path) ∧
    (∀ other, Path.Alike path other → findByPath fs sldb other = findByPath fs sldb path) ∧
    ((∀ a ∈ path.toList.head?, ¬ Path.IsSlash a) →
      ∀ c, Path.IsSlash c → findByPath fs sldb (String.singleton c ++ path) = findByPath fs sldb path) := by
  have hc : Course fs sldb (lineTexts content) none := course_of_delivers hopen hs
  refine ⟨fun hnone => ?_, fun above comment hfirst => ?_, fun above comment line below hfirst => ?_,
    fun other hother => ?_, fun hpath c hslash => findByPath_congr (listedPath_singleton_append hslash hpath)⟩
  · have hlines : ∀ l ∈ lineTexts content, Entry.commentPath? l ≠ some (listedPath path) := fun l hl =>
      mt Entry.commentPath?_eq_some_iff.1 (hnone l hl)
    exact findByPath_of_refused (outcome_lineBelowComment_of_forall hc hlines)
  · obtain ⟨hl, hpassed, hcomment⟩ := hfirst.congr fun _ => Entry.commentPath?_eq_some_iff.symm
    exact findByPath_of_refused (outcome_lineBelowComment_of_last (hl ▸ hc) hpassed hcomment)
  · obtain ⟨hl, hpassed, hcomment⟩ := hfirst.congr fun _ => Entry.commentPath?_eq_some_iff.symm
    rw [hl] at hc
    have houtcome := outcome_findByPath_of_hit hc hpassed hcomment
    obtain ⟨hit, hhit, rfl⟩ := outcome_lineBelowComment_of_hit hc hpassed hcomment
    have hwarnings := warnings_findByPath hhit
    refine ⟨fun f hf => ⟨?_, hit.handle.lineNumber, ?_⟩, fun found lengths hparse => ⟨?_, ?_⟩,
      fun parse hparse => findByPathBy_congr fun hit' hhit' => ?_⟩
    · rw [houtcome, belowComment, hf]
      rfl
    · rw [hwarnings, warnings_entryAt_of_error hf]
    · rw [houtcome, belowComment, hparse]
      rfl
    · rw [hwarnings, warnings_entryAt_of_ok hparse]
    · rw [hhit] at hhit'
      cases hhit'
      exact hparse
  · exact findByPath_congr (congrArg Path.absolute (Path.normalize_eq_of_alike hother).symm)

theorem findByPath_mixedFiles :
    (findByPath mixedFiles "sldb" "\\a").outcome = .ok ⟨mixedDigest, some "/a", [minute]⟩ ∧
      (findByPath mixedFiles "sldb" "\\a").warnings = [] ∧
      findByPath mixedFiles "sldb" "/a" = findByPath mixedFiles "sldb" "\\a" ∧
      (findByPath mixedFiles "sldb" "b").outcome = .error (.timestamp 34) ∧
      (∃ number, (findByPath mixedFiles "sldb" "b").warnings = [.malformedEntry number (.timestamp 34)]) ∧
      findByPath mixedFiles "sldb" "\\b" = findByPath mixedFiles "sldb" "b" ∧
      (findByPath mixedFiles "sldb" "c").outcome = .error (.endsAfterComment "/c") ∧
      (findByPath mixedFiles "sldb" "d").outcome = .error (.noEntryForPath "/d") := by
  have hs : (ByteStream.ofBytes mixedList).Delivers mixedList := ByteStream.delivers_ofBytes mixedList
  have hnone : ∀ l ∈ lineTexts mixedList, ¬ Entry.IsCommentFor (listedPath "d") l := by
    rw [lineTexts_mixedList]
    decide
  have halike : Path.Alike "\\a" "/a" := .cons (.inr ⟨.inr rfl, .inl rfl⟩) (.cons (.inl rfl) .nil)
  have hplain : ∀ a ∈ "b".toList.head?, ¬ Path.IsSlash a := by
    rintro a ⟨⟩ (h | h) <;> cases h
  have hlookup := @findByPath_first_comment mixedFiles "sldb" _ _ rfl hs
  obtain ⟨-, -, hfirst, hstyle, -⟩ := hlookup "\\a"
  obtain ⟨-, hparsed, -⟩ := hfirst _ _ _ _ (isFirst_comment_a (by decide))
  obtain ⟨hfound, hwarnings⟩ := hparsed _ _ parse_upperLine
  obtain ⟨-, -, hfirst', -, hfront⟩ := hlookup "b"
  obtain ⟨hmalformed, -, -⟩ := hfirst' _ _ _ _ isFirst_comment_b
  obtain ⟨hfailed, hwarned⟩ := hmalformed _ parse_brokenLine
  obtain ⟨-, hended, -⟩ := hlookup "c"
  obtain ⟨hmissing, -⟩ := hlookup "d"
  exact ⟨hfound, hwarnings, hstyle _ halike, hfailed, hwarned, hfront hplain '\\' (.inr rfl),
    (hended _ _ isFirst_comment_c).1, (hmissing hnone).1⟩

end Path

end SidCatalog.SongLengths
