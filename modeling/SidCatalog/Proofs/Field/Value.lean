import SidCatalog.Proofs.Field.Classification

/-! Values of field lines. A line with a field is its leading spaces, the keyword of the field and the value, so a value
can be written out and read again at every column where the tag counts. -/

namespace SidCatalog.Field

def lineAt (f : Field) (k : Nat) (text : String) : String :=
  String.ofList (List.replicate k ' ' ++ f.keyword) ++ text

variable {line text : String} {f : Field} {k : Nat}

theorem toList_lineAt (f : Field) (k : Nat) (text : String) :
    (f.lineAt k text).toList = List.replicate k ' ' ++ f.keyword ++ text.toList := by
  rw [lineAt, String.toList_append, String.toList_ofList]

theorem classify_eq_some_iff : classify line = some f ↔ Bears line f := by
  apply classifyBy_eq_some_iff
  intro g
  cases g <;> decide

theorem value_lineAt (f : Field) (k : Nat) (text : String) : f.value (f.lineAt k text) = text := by
  have hdrop : (f.lineAt k text).toList.dropWhile isSpace = f.keyword ++ text.toList := by
    have hsplit := List.takeWhile_append_dropWhile (p := isSpace) (l := (f.lineAt k text).toList)
    rw [toList_lineAt, takeWhile_isSpace, List.append_assoc] at hsplit
    rw [toList_lineAt, List.append_assoc]
    exact List.append_cancel_left hsplit
  unfold value
  rw [hdrop, if_pos (List.isPrefixOf_iff_prefix.2 (List.prefix_append ..)), List.drop_left, String.ofList_toList]

theorem classify_lineAt (text : String) (hlt : k < tagWidth) (hle : tagWidth ≤ k + f.keyword.length) :
    classify (f.lineAt k text) = some f := by
  apply classify_eq_some_iff.2
  exact ⟨k, text.toList, toList_lineAt f k text, hlt, hle⟩

theorem tag_append_eq (f : Field) (text : String) : f.tag ++ text = f.lineAt (tagWidth - f.keyword.length) text := by
  apply String.toList_inj.1
  rw [toList_lineAt, String.toList_append, keyword_append]

theorem classify_tag_append (f : Field) (text : String) : classify (f.tag ++ text) = some f := by
  have hpos := f.length_keyword_pos
  have hlength := f.length_keyword_le
  rw [tag_append_eq]
  exact classify_lineAt text (by omega) (by omega)

theorem Bears.exists_eq_lineAt (h : Bears line f) :
    ∃ k text, line = f.lineAt k text ∧ k < tagWidth ∧ tagWidth ≤ k + f.keyword.length := by
  obtain ⟨k, text, hline, hlt, hle⟩ := h
  refine ⟨k, String.ofList text, ?_, hlt, hle⟩
  apply String.toList_inj.1
  rw [toList_lineAt, String.toList_ofList, hline]

/-- Nothing of a line with a field is lost: behind its spaces and the keyword stands the value, which the tag in its own
column carries as well. What is written behind the keyword in any column that counts is the value. -/
theorem value_loses_nothing :
    (∀ line f, classify line = some f →
      line.toList = line.toList.takeWhile isSpace ++ f.keyword ++ (f.value line).toList ∧
        classify (f.tag ++ f.value line) = some f ∧ f.value (f.tag ++ f.value line) = f.value line) ∧
    ∀ (f : Field) (text : String) (k : Nat), 8 - f.keyword.length ≤ k → k < 8 →
      classify (f.lineAt k text) = some f ∧ f.value (f.lineAt k text) = text := by
  constructor
  · intro line f hfound
    obtain ⟨k, text, rfl, -, -⟩ := (classify_eq_some_iff.1 hfound).exists_eq_lineAt
    rw [value_lineAt]
    refine ⟨?_, classify_tag_append f text, ?_⟩
    · rw [toList_lineAt, takeWhile_isSpace]
    · rw [tag_append_eq, value_lineAt]
  · intro f text k hle hlt
    have hwidth : tagWidth ≤ k + f.keyword.length := by
      show 8 ≤ k + f.keyword.length
      omega
    exact ⟨classify_lineAt text hlt hwidth, value_lineAt ..⟩

def repeatedLine : String := "       TITLE:TITLE: x"

theorem value_loses_nothing_repeated :
    title.value repeatedLine = "TITLE: x" ∧
      repeatedLine.toList = repeatedLine.toList.takeWhile isSpace ++ title.keyword ++ "TITLE: x".toList ∧
      classify "  TITLE:TITLE: x" = some title ∧ title.value "  TITLE:TITLE: x" = "TITLE: x" := by
  obtain ⟨hline, hwritten⟩ := value_loses_nothing
  have hrepeated : title.lineAt 7 "TITLE: x" = repeatedLine := by decide
  have htag : title.tag ++ "TITLE: x" = "  TITLE:TITLE: x" := by decide
  obtain ⟨hfound, hvalue⟩ := hwritten title "TITLE: x" 7 (by decide) (by decide)
  rw [hrepeated] at hfound hvalue
  have hkept := hline repeatedLine title hfound
  rw [hvalue, htag] at hkept
  exact ⟨hvalue, hkept⟩

end SidCatalog.Field
