import SidCatalog.Proofs.SongLengths.Recognition
import SidCatalog.Proofs.Text.Encoding
import SidCatalog.Proofs.Timestamp.Offender

/-! Where an entry is refused. The position in the failure counts bytes from the start of the line: those of the entry
that ends in front of the refused time, and then those of that time up to the character that is wrong. -/

namespace SidCatalog.SongLengths.Entry

variable {line : String} {position : Nat}

theorem Cursor.scan_of_next {c : Cursor} (h : c.next line = .error (.timestamp position)) :
    c.skipBlanks.rest ≠ [] ∧
      ∃ p, Timestamp.scan c.skipBlanks.rest = .error p ∧ position = c.skipBlanks.offset + p := by
  unfold next at h
  split at h
  · cases h
  next hne =>
  refine ⟨hne, ?_⟩
  split at h
  · next hread =>
    cases h
    unfold readTime at hread
    split at hread
    · cases hread
    · next p hscan =>
      cases hread
      exact ⟨p, hscan, rfl⟩
  -- The failure of an attribute that does not end has no position.
  · split at h
    · cases h
    · cases h

theorem exists_split_of_parse (h : parse line = .error (.timestamp position)) :
    ∃ before rest p entry, line.toList = before ++ rest ∧ parse (String.ofList before) = .ok entry ∧
      (∃ c, rest.head? = some c ∧ Text.isBlank c = false) ∧ Timestamp.scan rest = .error p ∧
      position = Text.byteLength before + p := by
  have hparsed := parsed_parse line
  rw [h] at hparsed
  cases hparsed with
  | withoutDigest hl hd => cases code_of_ofHex hd
  | @malformed text d _ hl hd ht =>
    obtain ⟨tokens, rest, htext, hrow, hrange, hnext⟩ := exists_precede_of_error ht
    obtain ⟨hne, p, hscan, hposition⟩ := Cursor.scan_of_next hnext
    have hsplit : rest = rest.takeWhile Text.isBlank ++ rest.dropWhile Text.isBlank :=
      List.takeWhile_append_dropWhile.symm
    have hb : ∀ c ∈ rest.takeWhile Text.isBlank, Text.isBlank c = true := fun c hc => List.mem_takeWhile_imp hc
    -- The times in front of the refused one are read as before when the line ends behind them.
    rw [hsplit] at hrow
    obtain ⟨times, -, htimes⟩ := hrow.cut.exists_times_eq_ok hrange hb
    refine ⟨front line ++ '=' :: (tokensText tokens ++ rest.takeWhile Text.isBlank), rest.dropWhile Text.isBlank, p,
      (d, times), ?_, ?_, ?_, hscan, ?_⟩
    · rw [hl, htext, List.append_assoc, List.cons_append, List.append_assoc, ← hsplit]
    · exact parse_of_times String.toList_ofList (not_mem_front line) hd (htimes _)
    · obtain ⟨c, more, hc⟩ := List.exists_cons_of_ne_nil hne
      refine ⟨c, congrArg List.head? hc, ?_⟩
      have hnot := List.head?_dropWhile_not Text.isBlank rest
      rw [show rest.dropWhile Text.isBlank = c :: more from hc] at hnot
      simpa using hnot
    · have hequals : '='.utf8Size = 1 := rfl
      rw [hposition, Text.byteLength_append, Text.byteLength_cons, Text.byteLength_append, Cursor.skipBlanks, hequals]
      dsimp only
      omega

/-- The first part of the line is an entry, and the second part starts with a time that is refused at the position. -/
structure IsRefusal (line : String) (position : Nat) (before rest : String) : Prop where
  line_eq : line = before ++ rest
  parse_before : ∃ entry, parse before = .ok entry
  head?_rest : ∃ c, rest.toList.head? = some c ∧ Text.isBlank c = false
  size_before_le : before.utf8ByteSize ≤ position
  le_size_line : position ≤ line.utf8ByteSize
  parse_rest : Timestamp.parse rest = .error (.timestamp (position - before.utf8ByteSize))

/-- A position in a failure is that of a time behind an entry, which is refused by itself at the same place. -/
theorem exists_isRefusal (h : parse line = .error (.timestamp position)) :
    ∃ before rest, IsRefusal line position before rest := by
  obtain ⟨before, rest, p, entry, hl, hparse, hhead, hscan, rfl⟩ := exists_split_of_parse h
  have hsize : (String.ofList before).utf8ByteSize = Text.byteLength before := Text.byteLength_eq_utf8ByteSize before
  refine ⟨String.ofList before, String.ofList rest, ?_, ⟨entry, hparse⟩, ?_, ?_, ?_, ?_⟩
  · rw [← String.toList_inj, hl, String.toList_append, String.toList_ofList, String.toList_ofList]
  · rwa [String.toList_ofList]
  · omega
  · have hp : p ≤ rest.length := Timestamp.le_length_of_scan_error hscan
    have hrest : rest.length ≤ Text.byteLength rest := Text.length_le_byteLength rest
    rw [Text.utf8ByteSize_eq, hl, Text.byteLength_append]
    omega
  · rw [hsize, Nat.add_sub_cancel_left, Timestamp.parse, String.toList_ofList, hscan]
    rfl

def refusedLine : String := "00000000000000000000000000000000=1:00(é=) \u00a01:75"

theorem exists_isRefusal_refusedLine :
    parse refusedLine = .error (.timestamp 48) ∧ ∃ before rest, IsRefusal refusedLine 48 before rest := by
  have hrefused : parse refusedLine = .error (.timestamp 48) := by decide +kernel
  exact ⟨hrefused, exists_isRefusal hrefused⟩

end SidCatalog.SongLengths.Entry
