import SidCatalog.Proofs.TextFile.Lines

/-! Files written line by line, with either line ending and with or without the last one. They are read back as
the lines they were written from. -/

namespace SidCatalog.TextFile

inductive Newline where
  | lf
  | crlf
deriving DecidableEq, Repr

def Newline.text : Newline → String
  | lf => "\n"
  | crlf => "\r\n"

def fileText (newline : Newline) (closed : Bool) : List String → String
  | [] => ""
  | [last] => if closed then last ++ newline.text else last
  | line :: lines => line ++ newline.text ++ fileText newline closed lines

/-- A text that can be a line of its own under either line ending, also without one. -/
structure IsLine (line : String) : Prop where
  ne_empty : line ≠ ""
  not_mem : '\n' ∉ line.toList
  getLast?_ne : line.toList.getLast? ≠ some '\r'

theorem bytes_newline (newline : Newline) :
    Text.bytes newline.text =
      match newline with
      | .lf => [ByteStream.lineFeed]
      | .crlf => [carriageReturn, ByteStream.lineFeed] := by
  rw [Text.bytes_eq]
  cases newline <;> decide

section Bytes

variable {line : String}

theorem lineFeed_not_mem_bytes (h : '\n' ∉ line.toList) : ByteStream.lineFeed ∉ Text.bytes line := by
  intro hmem
  obtain ⟨c, hc, hval⟩ := Text.mem_bytes (by decide) hmem
  obtain rfl : c = '\n' := Char.toNat_inj.1 hval
  exact h hc

theorem carriageReturn_ne_getLast? (h : line.toList.getLast? ≠ some '\r') :
    (Text.bytes line).getLast? ≠ some carriageReturn := by
  intro hlast
  rcases List.eq_nil_or_concat' line.toList with hnil | ⟨front, c, hfront⟩
  · rw [Text.bytes_eq, hnil] at hlast
    cases hlast
  · have hne : String.utf8EncodeChar c ≠ [] := String.utf8EncodeChar_ne_nil
    rw [Text.bytes_eq, hfront, List.flatMap_append, List.flatMap_singleton,
      List.getLast?_append_of_ne_nil _ hne] at hlast
    have hval := Text.mem_utf8EncodeChar (by decide) (List.mem_of_getLast? hlast)
    obtain rfl : c = '\r' := Char.toNat_inj.1 hval
    exact h (by rw [hfront, List.getLast?_concat])

end Bytes

variable {newline : Newline} {line : String}

theorem lineTexts_append (h : IsLine line) (rest : String) :
    lineTexts (Text.bytes (line ++ newline.text ++ rest)) = line :: lineTexts (Text.bytes rest) := by
  have hlf := lineFeed_not_mem_bytes h.not_mem
  have hcr := carriageReturn_ne_getLast? h.getLast?_ne
  rw [Text.bytes_append, Text.bytes_append, bytes_newline]
  cases newline with
  | lf =>
    rw [List.append_assoc, List.singleton_append, lineTexts_of_line hlf, lineText_of_plain hcr, Text.decode_bytes]
  | crlf =>
    -- The carriage return arrives as a byte of the line.
    have hlf' : ByteStream.lineFeed ∉ Text.bytes line ++ [carriageReturn] := by
      rw [List.mem_append, not_or]
      exact ⟨hlf, by decide⟩
    have hbytes : Text.bytes line ++ [carriageReturn, ByteStream.lineFeed] ++ Text.bytes rest =
        (Text.bytes line ++ [carriageReturn]) ++ ByteStream.lineFeed :: Text.bytes rest := by
      simp
    rw [hbytes, lineTexts_of_line hlf', lineText_of_return, Text.decode_bytes]

theorem lineTexts_last (h : IsLine line) : lineTexts (Text.bytes line) = [line] := by
  have hne : Text.bytes line ≠ [] := by
    intro hnil
    exact h.ne_empty (Text.bytes_injective (hnil.trans Text.bytes_empty.symm))
  rw [lineTexts_of_not_mem hne (lineFeed_not_mem_bytes h.not_mem),
    lineText_of_plain (carriageReturn_ne_getLast? h.getLast?_ne), Text.decode_bytes]

theorem lineTexts_fileText {closed : Bool} {lines : List String} (h : ∀ line ∈ lines, IsLine line) :
    lineTexts (Text.bytes (fileText newline closed lines)) = lines := by
  induction lines with
  | nil => rw [fileText, Text.bytes_empty]; rfl
  | cons line lines ih =>
    have hline : IsLine line := h line (List.mem_cons_self ..)
    have hlines := ih fun l hl => h l (List.mem_cons_of_mem _ hl)
    cases lines with
    | nil =>
      cases closed with
      | false => exact lineTexts_last hline
      | true =>
        have hlast := @lineTexts_append newline line hline ""
        rwa [String.append_empty, Text.bytes_empty] at hlast
    | cons next lines =>
      have htext : fileText newline closed (line :: next :: lines) =
          line ++ newline.text ++ fileText newline closed (next :: lines) := rfl
      rw [htext, lineTexts_append hline, hlines]

end SidCatalog.TextFile
