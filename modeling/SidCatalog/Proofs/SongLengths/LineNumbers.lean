import SidCatalog.Proofs.SongLengths.FirstMatch

/-! The line numbers that lookups log with entries. They count the line feeds that were read so far, so the last line
of a file without a line feed at its end is logged with the number of the line above it. -/

namespace SidCatalog

def Event.isReport : Event → Bool
  | .malformedEntry _ _ | .entryFound _ _ => true
  | _ => false

def Attempt.reports {α : Type} (a : Attempt α) : List Event := a.logged Event.isReport

namespace SongLengths

open TextFile

theorem isNotOfReads_isReport : IsNotOfReads Event.isReport := ⟨fun _ => rfl, fun _ _ => rfl⟩

def loggedNumber (content : Bytes) (above below : List String) : Nat :=
  if below = [] ∧ ¬ IsClosed content then above.length else above.length + 1

section Reports

variable {fs : FileSystem} {sldb path : String} {stream : ByteStream} {content : Bytes} {d : Digest}
  {above below : List String} {line comment : String}

theorem lineNumber_of_split {h : Handle} (hs : h.stream.Delivers content) (hnew : h.lineNumber = 0)
    (hl : lineTexts content = above ++ line :: below) :
    (h.after (above.length + 1)).lineNumber = loggedNumber content above below := by
  have hmap : (lineTexts content).length = (rawLines content).length := List.length_map lineText
  rw [hl, List.length_append, List.length_cons, length_rawLines] at hmap
  rw [Handle.lineNumber_after hs, hnew, Nat.zero_add, count_lineFeed_take, loggedNumber]
  by_cases hclosed : IsClosed content
  · rw [if_pos hclosed] at hmap
    rw [if_neg fun h => h.2 hclosed]
    omega
  · rw [if_neg hclosed] at hmap
    cases below with
    | nil =>
      rw [List.length_nil] at hmap
      rw [if_pos ⟨rfl, hclosed⟩]
      omega
    | cons next below =>
      rw [List.length_cons] at hmap
      rw [if_neg fun h => List.cons_ne_nil _ _ h.1]
      omega

theorem reports_findByDigest_of_forall (hopen : fs.openFile sldb = .ok stream) (hs : stream.Delivers content)
    (hnone : ∀ l ∈ lineTexts content, ¬ Entry.IsKeyed d l) : (findByDigest fs sldb d).reports = [] := by
  have hr : Handle.Reads { path := sldb, stream } (lineTexts content) none := Handle.reads_of_delivers hs
  exact logged_findByDigest_of_forall isNotOfReads_isReport (openHandle_of_ok hopen) hr fun l hl =>
    Entry.isFor_eq_false (hnone l hl)

theorem reports_findByDigest_of_first (hopen : fs.openFile sldb = .ok stream) (hs : stream.Delivers content)
    (hfirst : IsFirst (Entry.IsKeyed d) (lineTexts content) above line below) :
    (findByDigest fs sldb d).reports = [digestReport d (loggedNumber content above below) line] := by
  have hr : Handle.Reads { path := sldb, stream } (above ++ line :: below) none :=
    hfirst.lines_eq ▸ Handle.reads_of_delivers hs
  have hnumber := @lineNumber_of_split _ _ _ _ { path := sldb, stream } hs rfl hfirst.lines_eq
  have hlogged := logged_findByDigest_of_hit isNotOfReads_isReport (openHandle_of_ok hopen) hr
    (fun l hl => Entry.isFor_eq_false (hfirst.not_above l hl)) (Entry.isFor_iff_isKeyed.2 hfirst.holds)
  rw [hnumber] at hlogged
  refine hlogged.trans (List.filter_cons_of_pos ?_)
  rw [digestReport]
  cases Entry.parse line <;> rfl

theorem reports_findByPath_of_error {f : Failure} (hf : (lineBelowComment fs sldb path).outcome = .error f) :
    (findByPath fs sldb path).reports = [] :=
  logged_findByPath_of_error isNotOfReads_isReport hf

theorem reports_findByPath_of_first (hopen : fs.openFile sldb = .ok stream) (hs : stream.Delivers content)
    (hfirst : IsFirst (Entry.IsCommentFor (listedPath path)) (lineTexts content) above comment (line :: below)) :
    (findByPath fs sldb path).reports =
      (entryAt (loggedNumber content (above ++ [comment]) below) line).events := by
  obtain ⟨hl, hpassed, hcomment⟩ := hfirst.congr fun _ => Entry.commentPath?_eq_some_iff.symm
  have hr : Handle.Reads { path := sldb, stream } (above ++ comment :: line :: below) none :=
    hl ▸ Handle.reads_of_delivers hs
  obtain ⟨hit, hhit, rfl, hhandle⟩ :=
    outcome_lineBelowComment_of_reads (openHandle_of_ok hopen) hr hpassed hcomment
  have hnumber := @lineNumber_of_split _ (above ++ [comment]) _ _ { path := sldb, stream } hs rfl (by simpa using hl)
  rw [List.length_append, List.length_singleton, ← hhandle] at hnumber
  rw [← hnumber]
  refine (logged_findByPath isNotOfReads_isReport hhit).trans ?_
  rw [Attempt.logged, entryAt]
  cases Entry.parse hit.line <;> rfl

/-- A lookup logs one line at most, the one it takes for an entry, and by path only if that is malformed. The number is
that of the line, unless the line is the last one of a file that is not closed: then it is one less. -/
theorem reports_loggedNumber (hopen : fs.openFile sldb = .ok stream) (hs : stream.Delivers content) :
    (∀ d,
      ((∀ l ∈ lineTexts content, ¬ Entry.IsKeyed d l) → (findByDigest fs sldb d).reports = []) ∧
      ∀ above line below, IsFirst (Entry.IsKeyed d) (lineTexts content) above line below →
        (findByDigest fs sldb d).reports = [digestReport d (loggedNumber content above below) line]) ∧
    ∀ path,
      ((∀ l ∈ lineTexts content, ¬ Entry.IsCommentFor (listedPath path) l) →
        (findByPath fs sldb path).reports = []) ∧
      (∀ above comment, IsFirst (Entry.IsCommentFor (listedPath path)) (lineTexts content) above comment [] →
        (findByPath fs sldb path).reports = []) ∧
      ∀ above comment line below,
        IsFirst (Entry.IsCommentFor (listedPath path)) (lineTexts content) above comment (line :: below) →
          (findByPath fs sldb path).reports =
            (entryAt (loggedNumber content (above ++ [comment]) below) line).events := by
  have hc : Course fs sldb (lineTexts content) none := course_of_delivers hopen hs
  refine ⟨fun d => ⟨reports_findByDigest_of_forall hopen hs, fun above line below => ?_⟩,
    fun path => ⟨fun hnone => ?_, fun above comment hfirst => ?_, fun above comment line below => ?_⟩⟩
  · exact reports_findByDigest_of_first hopen hs
  · have hlines : ∀ l ∈ lineTexts content, Entry.commentPath? l ≠ some (listedPath path) := fun l hl =>
      mt Entry.commentPath?_eq_some_iff.1 (hnone l hl)
    exact reports_findByPath_of_error (outcome_lineBelowComment_of_forall hc hlines)
  · obtain ⟨hl, hpassed, hcomment⟩ := hfirst.congr fun _ => Entry.commentPath?_eq_some_iff.symm
    exact reports_findByPath_of_error (outcome_lineBelowComment_of_last (hl ▸ hc) hpassed hcomment)
  · exact reports_findByPath_of_first hopen hs

end Reports

theorem reports_mixedFiles :
    (findByDigest mixedFiles "sldb" mixedDigest).reports = [.entryFound "abababababababababababababababab" 2] ∧
      (findByDigest mixedFiles "sldb" zeroDigest).reports = [.malformedEntry 4 (.timestamp 34)] ∧
      (findByPath mixedFiles "sldb" "a").reports = [] ∧
      (findByPath mixedFiles "sldb" "b").reports = [.malformedEntry 4 (.timestamp 34)] ∧
      (findByPath mixedFiles "sldb" "c").reports = [] := by
  have hs : (ByteStream.ofBytes mixedList).Delivers mixedList := ByteStream.delivers_ofBytes mixedList
  obtain ⟨hdigest, hpath⟩ := @reports_loggedNumber mixedFiles "sldb" _ _ rfl hs
  refine ⟨((hdigest _).2 _ _ _ isFirst_upperLine).trans ?_, ((hdigest _).2 _ _ _ isFirst_brokenLine).trans ?_,
    ((hpath "a").2.2 _ _ _ _ (isFirst_comment_a (by decide))).trans ?_,
    ((hpath "b").2.2 _ _ _ _ isFirst_comment_b).trans ?_, (hpath "c").2.1 _ _ isFirst_comment_c⟩
  · rw [digestReport, parse_upperLine]
    rfl
  · rw [digestReport, parse_brokenLine]
    rfl
  · rw [entryAt, parse_upperLine]
    rfl
  · rw [entryAt, parse_brokenLine]
    rfl

def minuteLine : String := "00000000000000000000000000000000=1:00"

def unclosedList : Bytes := Text.bytes (fileText .lf false ["; /a", minuteLine])

def unclosedFiles : FileSystem := ⟨fun _ => .ok (.ofBytes unclosedList)⟩

theorem reports_unclosedFiles :
    IsFirst (Entry.IsKeyed zeroDigest) (lineTexts unclosedList) ["; /a"] minuteLine [] ∧
      (findByDigest unclosedFiles "sldb" zeroDigest).reports = [.entryFound "00000000000000000000000000000000" 1] := by
  have hlines : ∀ line ∈ ["; /a", minuteLine], IsLine line :=
    List.forall_mem_cons.2 ⟨⟨by decide, by decide, by decide⟩,
      List.forall_mem_singleton.2 ⟨by decide, by decide, by decide⟩⟩
  have hfirst : IsFirst (Entry.IsKeyed zeroDigest) (lineTexts unclosedList) ["; /a"] minuteLine [] :=
    ⟨lineTexts_fileText hlines, by decide, by decide⟩
  have hreports := @reports_findByDigest_of_first unclosedFiles "sldb" _ _ _ _ _ _ rfl
    (ByteStream.delivers_ofBytes unclosedList) hfirst
  have hparse : Entry.parse minuteLine = .ok (zeroDigest, [minute]) := by decide +kernel
  have hnumber : loggedNumber unclosedList ["; /a"] [] = 1 := by
    rw [unclosedList, Text.bytes_eq]
    decide
  refine ⟨hfirst, hreports.trans ?_⟩
  rw [digestReport, hparse, hnumber]
  rfl

end SongLengths

end SidCatalog
