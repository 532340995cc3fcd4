import Mathlib.Data.List.TakeWhile
import SidCatalog.Field

/-! Which lines have a field. The keyword of a field has no blank at its front and starts no other keyword, so a line
bears at most one field, and neither the order of the tags nor looking at the exact column first makes a difference. -/

namespace SidCatalog.Field

/-- The field's keyword follows fewer spaces than a tag is wide, and ends in the last column of a tag or behind it. -/
def Bears (line : String) (f : Field) : Prop :=
  ∃ k text, line.toList = List.replicate k ' ' ++ f.keyword ++ text ∧ k < tagWidth ∧ tagWidth ≤ k + f.keyword.length

variable {line : String} {f g : Field} {table : List Field}

theorem exists_keyword_eq (f : Field) :
    ∃ c rest, f.keyword = c :: rest ∧ isSpace c = false ∧ Text.isAsciiBlank c = false ∧ c ≠ '#' := by
  cases f <;> exact ⟨_, _, rfl, by decide, by decide, by decide⟩

theorem length_keyword_pos (f : Field) : 0 < f.keyword.length := by
  cases f <;> decide

theorem length_keyword_le (f : Field) : f.keyword.length ≤ tagWidth := by
  cases f <;> decide

theorem eq_of_keyword_isPrefix_keyword (h : f.keyword <+: g.keyword) : f = g := by
  cases f <;> cases g <;> revert h <;> decide

theorem takeWhile_isSpace (k : Nat) (f : Field) (text : List Char) :
    (List.replicate k ' ' ++ f.keyword ++ text).takeWhile isSpace = List.replicate k ' ' := by
  obtain ⟨c, rest, hkeyword, hspace, -⟩ := f.exists_keyword_eq
  have hspaces : ∀ c ∈ List.replicate k ' ', isSpace c = true := by
    intro c hc
    rw [List.eq_of_mem_replicate hc]
    rfl
  rw [List.append_assoc, List.takeWhile_append_of_pos hspaces, hkeyword, List.cons_append,
    List.takeWhile_cons_of_neg (by simp [hspace]), List.append_nil]

theorem bears_iff :
    Bears line f ↔ (line.toList.takeWhile isSpace).length < tagWidth ∧
      tagWidth ≤ (line.toList.takeWhile isSpace).length + f.keyword.length ∧
      f.keyword <+: line.toList.drop (line.toList.takeWhile isSpace).length := by
  constructor
  · rintro ⟨k, text, hline, hlt, hle⟩
    -- A keyword starts with no space, so the given spaces are all the leading ones.
    have hlength : (line.toList.takeWhile isSpace).length = k := by
      rw [hline, takeWhile_isSpace, List.length_replicate]
    have hdrop : line.toList.drop k = f.keyword ++ text := by
      rw [hline, List.append_assoc]
      exact List.drop_left' List.length_replicate
    rw [hlength, hdrop]
    exact ⟨hlt, hle, List.prefix_append ..⟩
  · rintro ⟨hlt, hle, text, htext⟩
    refine ⟨_, text, ?_, hlt, hle⟩
    have hspaces : line.toList.takeWhile isSpace = List.replicate (line.toList.takeWhile isSpace).length ' ' :=
      List.eq_replicate_of_mem fun c hc => by simpa [isSpace] using List.mem_takeWhile_imp hc
    have hfront : line.toList.takeWhile isSpace = line.toList.take (line.toList.takeWhile isSpace).length :=
      List.prefix_iff_eq_take.1 (List.takeWhile_prefix _)
    calc
      line.toList = line.toList.take (line.toList.takeWhile isSpace).length ++
          line.toList.drop (line.toList.takeWhile isSpace).length := (List.take_append_drop ..).symm
      _ = _ := by rw [← hfront, ← htext, ← List.append_assoc, ← hspaces]

theorem Bears.eq (hf : Bears line f) (hg : Bears line g) : f = g := by
  obtain ⟨-, -, hf⟩ := bears_iff.1 hf
  obtain ⟨-, -, hg⟩ := bears_iff.1 hg
  -- Both keywords stand behind the same leading spaces, so one of them is the beginning of the other.
  rcases List.prefix_or_prefix_of_prefix hf hg with h | h
  · exact eq_of_keyword_isPrefix_keyword h
  · exact (eq_of_keyword_isPrefix_keyword h).symm

theorem bears_of_atColumn? (h : atColumn? table line.toList = some f) : Bears line f := by
  obtain ⟨text, htext⟩ : f.tag.toList <+: line.toList := by simpa using List.find?_some h
  have hpos := f.length_keyword_pos
  have hlength := f.length_keyword_le
  refine ⟨tagWidth - f.keyword.length, text, ?_, by omega, by omega⟩
  rw [← htext, keyword_append]

theorem find?_eq_some_iff_of_unique {p : Field → Bool} (htable : ∀ f, f ∈ table)
    (hunique : ∀ f g, p f = true → p g = true → f = g) : table.find? p = some f ↔ p f = true := by
  refine ⟨List.find?_some, fun hf => ?_⟩
  obtain ⟨g, hg⟩ := Option.isSome_iff_exists.1 (List.find?_isSome.2 ⟨f, htable f, hf⟩)
  rw [hg, hunique g f (List.find?_some hg) hf]

theorem indented?_eq_some_iff (htable : ∀ f, f ∈ table) : indented? table line.toList = some f ↔ Bears line f := by
  unfold indented?
  dsimp only
  split
  · next hwide =>
    refine ⟨fun h => absurd h (by simp), fun hf => ?_⟩
    exact absurd (bears_iff.1 hf).1 (Nat.not_lt.2 hwide)
  · next hnarrow =>
    have htest (g : Field) : (decide (tagWidth ≤ (line.toList.takeWhile isSpace).length + g.keyword.length) &&
        g.keyword.isPrefixOf (line.toList.drop (line.toList.takeWhile isSpace).length)) = true ↔ Bears line g := by
      simp [bears_iff, Nat.not_le.1 hnarrow]
    rw [find?_eq_some_iff_of_unique htable fun f g hf hg => ((htest f).1 hf).eq ((htest g).1 hg), htest]

theorem classifyBy_eq_some_iff (htable : ∀ f, f ∈ table) : classifyBy table line = some f ↔ Bears line f := by
  unfold classifyBy
  split
  · next g hg =>
    have hbears := bears_of_atColumn? hg
    constructor
    · rintro ⟨⟩
      exact hbears
    · intro hf
      rw [hbears.eq hf]
  · exact indented?_eq_some_iff htable

theorem not_blank_of_bears (h : Bears line f) : isBlankLine line = false ∧ isCommentLine line = false := by
  obtain ⟨k, text, hline, -⟩ := h
  obtain ⟨c, rest, hkeyword, -, hblank, hhash⟩ := f.exists_keyword_eq
  have hspaces : ∀ c ∈ List.replicate k ' ', Text.isAsciiBlank c = true := by
    intro c hc
    rw [List.eq_of_mem_replicate hc]
    rfl
  have hline' : line.toList = List.replicate k ' ' ++ c :: (rest ++ text) := by
    rw [hline, hkeyword, List.append_assoc, List.cons_append]
  constructor
  · rw [isBlankLine, hline', List.all_append, List.all_cons, hblank, Bool.false_and, Bool.and_false]
  · rw [isCommentLine, hline', List.dropWhile_append_of_pos hspaces, List.dropWhile_cons_of_neg (by simp [hblank])]
    simpa using hhash

theorem isCommentLine_of_isBlankLine (h : isBlankLine line = true) : isCommentLine line = false := by
  have hnone : line.toList.dropWhile Text.isAsciiBlank = [] := List.dropWhile_eq_nil_iff.2 (List.all_eq_true.1 h)
  rw [isCommentLine, hnone]
  rfl

/-- A line has a field just when it bears it, and it bears one at most. So trying the tags in another order, or only by
their keywords, gives the same field. A line with a field is neither blank nor a comment, and no line is both. -/
theorem classify_finds_borne :
    (∀ line f, classify line = some f ↔
      ∃ k text, line.toList = List.replicate k ' ' ++ f.keyword ++ text ∧ k < 8 ∧ 8 ≤ k + f.keyword.length) ∧
    (∀ line f g, Bears line f → Bears line g → f = g) ∧
    (∀ table : List Field, table.Perm all → ∀ line,
      classifyBy table line = classify line ∧ indented? table line.toList = classify line) ∧
    (∀ line f, classify line = some f → isBlankLine line = false ∧ isCommentLine line = false) ∧
    ∀ line, ¬ (isBlankLine line = true ∧ isCommentLine line = true) := by
  have hall (f : Field) : f ∈ all := by cases f <;> decide
  have hclassify (line : String) (f : Field) : classify line = some f ↔ Bears line f := classifyBy_eq_some_iff hall
  refine ⟨hclassify, fun line f g => Bears.eq, fun table hperm line => ?_,
    fun line f hf => not_blank_of_bears ((hclassify line f).1 hf), fun line h => ?_⟩
  · have htable (f : Field) : f ∈ table := hperm.mem_iff.2 (hall f)
    constructor <;> refine Option.ext fun f => ?_
    · rw [classifyBy_eq_some_iff htable, hclassify]
    · rw [indented?_eq_some_iff htable, hclassify]
  · rw [isCommentLine_of_isBlankLine h.1] at h
    exact Bool.false_ne_true h.2

/-- The tag is pushed to the right by one column, and the text behind it is a tag again. -/
def pushedLine : String := "   TITLE:  TITLE: #1"

theorem classify_finds_borne_pushed :
    classify pushedLine = some title ∧ (∀ f, Bears pushedLine f → f = title) ∧
      classifyBy all.reverse pushedLine = classify pushedLine ∧
      indented? all.reverse pushedLine.toList = classify pushedLine ∧ isCommentLine pushedLine = false := by
  obtain ⟨hfinds, hunique, horder, hkind, -⟩ := classify_finds_borne
  have hbears : Bears pushedLine title := ⟨3, "  TITLE: #1".toList, by decide, by decide, by decide⟩
  have hfound : classify pushedLine = some title := (hfinds pushedLine title).2 hbears
  have hreverse := horder all.reverse (List.reverse_perm all) pushedLine
  exact ⟨hfound, fun f hf => hunique pushedLine f title hf hbears, hreverse.1, hreverse.2,
    (hkind pushedLine title hfound).2⟩

end SidCatalog.Field
