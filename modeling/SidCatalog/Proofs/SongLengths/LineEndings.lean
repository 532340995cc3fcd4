import SidCatalog.Proofs.SongLengths.LineNumbers

/-! The same list with other line endings. A file in which each line ends in both a carriage return and a line feed, or
in which the last line does not end, reads as the same lines, and lookups come to the same with it. -/

namespace SidCatalog

namespace TextFile

open ByteStream

def withReturns (content : Bytes) : Bytes :=
  content.flatMap fun b => if b = lineFeed then [carriageReturn, lineFeed] else [b]

def IsPlain (content : Bytes) : Prop := ¬ [carriageReturn, lineFeed] <:+: content

/-- The content with other line endings: each is a carriage return and a line feed, or the last line, which is not
empty, has none. -/
inductive Restyled (content : Bytes) : Bytes → Prop where
  | returns : Restyled content (withReturns content)
  | unended {front : Bytes} (hcontent : content = front ++ [lineFeed]) (hne : front ≠ [])
      (hlast : front.getLast? ≠ some lineFeed) : Restyled content front

section Lines

variable {bs rest front content : Bytes}

theorem withReturns_of_not_mem (hlf : lineFeed ∉ bs) : withReturns bs = bs := by
  have hsame : ∀ b ∈ bs, (if b = lineFeed then [carriageReturn, lineFeed] else [b]) = [b] := by
    intro b hb
    rw [if_neg]
    rintro rfl
    exact hlf hb
  rw [withReturns, List.flatMap_congr hsame, List.flatMap_singleton']

theorem withReturns_line (hlf : lineFeed ∉ bs) (rest : Bytes) :
    withReturns (bs ++ lineFeed :: rest) = (bs ++ [carriageReturn]) ++ lineFeed :: withReturns rest := by
  rw [withReturns, List.flatMap_append, ← withReturns, withReturns_of_not_mem hlf, List.flatMap_cons, if_pos rfl,
    ← withReturns, List.append_assoc]
  rfl

theorem IsPlain.getLast?_ne (h : IsPlain (bs ++ lineFeed :: rest)) : bs.getLast? ≠ some carriageReturn := by
  intro hlast
  obtain ⟨front, rfl⟩ := List.getLast?_eq_some_iff.1 hlast
  exact h ⟨front, rest, by simp⟩

theorem IsPlain.below (h : IsPlain (bs ++ lineFeed :: rest)) : IsPlain rest := fun hbroken =>
  h (hbroken.trans ⟨bs ++ [lineFeed], [], by simp⟩)

theorem lineTexts_withReturns (h : IsPlain content) : lineTexts (withReturns content) = lineTexts content := by
  induction content using content_induction with
  | nil => rfl
  | last bs _ hlf => rw [withReturns_of_not_mem hlf]
  | line bs rest hlf ih =>
    have hlf' : lineFeed ∉ bs ++ [carriageReturn] := by
      rw [List.mem_append, not_or]
      exact ⟨hlf, by decide⟩
    rw [withReturns_line hlf, lineTexts_of_line hlf', lineTexts_of_line hlf, lineText_of_return,
      lineText_of_plain h.getLast?_ne, ih h.below]

theorem lineTexts_unended (h : IsPlain (front ++ [lineFeed])) (hne : front ≠ [])
    (hlast : front.getLast? ≠ some lineFeed) : lineTexts (front ++ [lineFeed]) = lineTexts front := by
  induction front using content_induction with
  | nil => exact absurd rfl hne
  | last bs _ hlf =>
    rw [lineTexts_of_line hlf, lineTexts_of_not_mem hne hlf, lineText_of_plain h.getLast?_ne,
      lineText_of_plain h.getLast?_ne]
    rfl
  | line bs rest hlf ih =>
    rw [List.append_assoc, List.cons_append] at h ⊢
    -- The line feed that is left out ends another line than this one.
    cases rest with
    | nil => exact absurd (by simp) hlast
    | cons b rest =>
      rw [lineTexts_of_line hlf, lineTexts_of_line hlf, ih h.below (List.cons_ne_nil _ _)]
      rwa [List.getLast?_append_of_ne_nil _ (List.cons_ne_nil _ _), List.getLast?_cons_cons] at hlast

theorem Restyled.lineTexts_eq {restyled : Bytes} (h : Restyled content restyled) (hplain : IsPlain content) :
    lineTexts restyled = lineTexts content := by
  cases h with
  | returns => exact lineTexts_withReturns hplain
  | unended hcontent hne hlast =>
    subst hcontent
    exact (lineTexts_unended hplain hne hlast).symm

end Lines

end TextFile

namespace SongLengths

open TextFile

section Course

variable {fs fs' : FileSystem} {sldb sldb' : String} {lines : List String} {stop : Option Failure}

theorem outcome_findByDigest_congr (hc : Course fs sldb lines stop) (hc' : Course fs' sldb' lines stop) (d : Digest) :
    (findByDigest fs' sldb' d).outcome = (findByDigest fs sldb d).outcome := by
  rcases forall_or_split (Entry.isFor d) lines with hnone | ⟨passed, line, rest, rfl, hpassed, hline⟩
  · rw [outcome_findByDigest_of_forall hc' hnone, outcome_findByDigest_of_forall hc hnone]
  · rw [outcome_findByDigest_of_hit hc' hpassed hline, outcome_findByDigest_of_hit hc hpassed hline]

theorem outcome_findByPath_congr (hc : Course fs sldb lines stop) (hc' : Course fs' sldb' lines stop)
    (path : String) : (findByPath fs' sldb' path).outcome = (findByPath fs sldb path).outcome := by
  rcases forall_or_split (fun l => Entry.commentPath? l = some (listedPath path)) lines with
    hnone | ⟨passed, comment, rest, rfl, hpassed, hcomment⟩
  · have hlines : ∀ l ∈ lines, Entry.commentPath? l ≠ some (listedPath path) := by simpa using hnone
    rw [outcome_findByPath_of_forall hc' hlines, outcome_findByPath_of_forall hc hlines]
  · have hpassed' : ∀ l ∈ passed, Entry.commentPath? l ≠ some (listedPath path) := by simpa using hpassed
    rw [decide_eq_true_iff] at hcomment
    rw [outcome_findByPath_of_hit hc' hpassed' hcomment, outcome_findByPath_of_hit hc hpassed' hcomment]

end Course

/-- Lookups come to the same, record or failure, whether the lines of the list end in line feeds, in carriage returns
and line feeds, or the last one not at all. -/
theorem lookups_of_restyled {fs fs' : FileSystem} {sldb sldb' : String} {stream stream' : ByteStream}
    {content content' : Bytes} (hplain : IsPlain content) (hstyle : Restyled content content')
    (hopen : fs.openFile sldb = .ok stream) (hs : stream.Delivers content)
    (hopen' : fs'.openFile sldb' = .ok stream') (hs' : stream'.Delivers content') :
    (∀ d, (findByDigest fs' sldb' d).outcome = (findByDigest fs sldb d).outcome) ∧
      ∀ path, (findByPath fs' sldb' path).outcome = (findByPath fs sldb path).outcome := by
  have hc : Course fs sldb (lineTexts content) none := course_of_delivers hopen hs
  have hc' : Course fs' sldb' (lineTexts content) none :=
    hstyle.lineTexts_eq hplain ▸ course_of_delivers hopen' hs'
  exact ⟨outcome_findByDigest_congr hc hc', outcome_findByPath_congr hc hc'⟩

def endedList : Bytes := unclosedList ++ [ByteStream.lineFeed]

theorem lookups_of_restyled_ended :
    IsPlain endedList ∧ Restyled endedList (withReturns endedList) ∧ Restyled endedList unclosedList ∧
      ∀ restyled ∈ [withReturns endedList, unclosedList],
        (∀ d, (findByDigest ⟨fun _ => .ok (.ofBytes restyled)⟩ "sldb" d).outcome =
          (findByDigest ⟨fun _ => .ok (.ofBytes endedList)⟩ "sldb" d).outcome) ∧
        ∀ path, (findByPath ⟨fun _ => .ok (.ofBytes restyled)⟩ "sldb" path).outcome =
          (findByPath ⟨fun _ => .ok (.ofBytes endedList)⟩ "sldb" path).outcome := by
  have hplain : IsPlain endedList := fun hbroken => by
    have hmem : carriageReturn ∈ endedList := hbroken.subset (List.mem_cons_self ..)
    rw [endedList, unclosedList, Text.bytes_eq] at hmem
    exact absurd hmem (by decide)
  have hunended : Restyled endedList unclosedList := by
    refine .unended rfl ?_ ?_ <;> rw [unclosedList, Text.bytes_eq] <;> decide
  refine ⟨hplain, .returns, hunended, fun restyled hmem => ?_⟩
  have hstyle : Restyled endedList restyled := by
    rcases List.mem_pair.1 hmem with rfl | rfl
    · exact .returns
    · exact hunended
  exact lookups_of_restyled hplain hstyle rfl (ByteStream.delivers_ofBytes endedList) rfl
    (ByteStream.delivers_ofBytes restyled)

end SongLengths

end SidCatalog
