import SidCatalog.Proofs.SongLengths.FirstMatch
import SidCatalog.Proofs.Text.Boundaries

/-! Entry lines read by bytes. The reading is told here with positions and with slices, and it is missing as soon as
one of its slices is, inside a character or beyond the end of a text. None of them ever is: from a boundary each round
of the reading comes to a boundary further on. So the rounds end, and they come to what the line is parsed to. -/

namespace SidCatalog

open Text (IsBoundary sliceFrom? sliceTo?)

namespace SongLengths.Entry

/-- The byte behind the attribute that starts at a byte, which is that byte itself where none starts. There is none when
the attribute does not end. -/
def skipAttributeAt? (times : String) (pos : Nat) : Option (Option Nat) := do
  let rest ← sliceFrom? times pos
  if rest.head? = some '(' then
    match rest.dropWhile Cursor.isInAttribute with
    | _ :: _ => return some (pos + Text.byteLength (rest.takeWhile Cursor.isInAttribute) + 1)
    | [] => return none
  else return some pos

/-- The time at a byte, and the byte behind it and its attribute, or nothing when only blanks are left. The times start
at the byte `base` of the line. -/
def round? (line : String) (base : Nat) (times : String) (pos : Nat) :
    Option (Except Failure (Option (Timestamp × Nat))) := do
  let blanks ← sliceFrom? times pos
  let start := pos + Text.byteLength (blanks.takeWhile Text.isBlank)
  if times.utf8ByteSize ≤ start then return .ok none
  else
    let text ← sliceFrom? times start
    match Timestamp.scan text with
    | .error position => return .error (.timestamp (base + start + position))
    | .ok s =>
      match ← skipAttributeAt? times (start + s.consumed) with
      | some stop => return .ok (some (s.time, stop))
      | none => return .error (.unterminatedAttribute line)

inductive Rounds (line : String) (base : Nat) (times : String) : Nat → Except Failure (List Timestamp) → Prop where
  | refused {pos : Nat} {f : Failure} (h : round? line base times pos = some (.error f)) :
    Rounds line base times pos (.error f)
  | last {pos : Nat} (h : round? line base times pos = some (.ok none)) : Rounds line base times pos (.ok [])
  | next {pos stop : Nat} {time : Timestamp} {outcome : Except Failure (List Timestamp)}
    (h : round? line base times pos = some (.ok (some (time, stop)))) (hmore : Rounds line base times stop outcome) :
    Rounds line base times pos (outcome.map (time :: ·))

def isForHex? (hex line : String) : Option Bool := do
  if line.utf8ByteSize ≤ 32 then return false
  else
    let byte ← (Text.bytes line)[32]?
    if byte = equalsByte then
      let front ← sliceTo? line 32
      return decide (front.map Char.toLower = hex.toList.map Char.toLower)
    else return false

namespace Cursor

structure IsAt (c : Cursor) (base : Nat) (times : String) (pos : Nat) : Prop where
  offset_eq : c.offset = base + pos
  slice : sliceFrom? times pos = some c.rest

variable {times : String} {base pos : Nat} {c : Cursor} {taken rest : List Char}

theorem isAt_of_isBoundary (base : Nat) (h : IsBoundary times pos) : ∃ c : Cursor, c.IsAt base times pos := by
  obtain ⟨rest, hrest⟩ := Text.exists_sliceFrom?_iff.2 h
  exact ⟨⟨base + pos, rest⟩, rfl, hrest⟩

theorem isAt_start (base : Nat) (times : String) : IsAt ⟨base, times.toList⟩ base times 0 :=
  ⟨rfl, Text.sliceFrom?_eq_some_iff.2 ⟨[], rfl, rfl⟩⟩

theorem IsAt.isBoundary (h : c.IsAt base times pos) : IsBoundary times pos :=
  Text.exists_sliceFrom?_iff.1 ⟨c.rest, h.slice⟩

theorem IsAt.advance (h : c.IsAt base times pos) (hrest : c.rest = taken ++ rest) :
    IsAt ⟨c.offset + Text.byteLength taken, rest⟩ base times (pos + Text.byteLength taken) := by
  obtain ⟨front, htimes, hpos⟩ := Text.sliceFrom?_eq_some_iff.1 h.slice
  constructor
  · show c.offset + _ = _
    rw [h.offset_eq, Nat.add_assoc]
  · apply Text.sliceFrom?_eq_some_iff.2
    refine ⟨front ++ taken, ?_, ?_⟩
    · rw [htimes, hrest, List.append_assoc]
    · rw [Text.byteLength_append, hpos]

theorem IsAt.size_eq (h : c.IsAt base times pos) : times.utf8ByteSize = pos + Text.byteLength c.rest := by
  obtain ⟨front, htimes, hpos⟩ := Text.sliceFrom?_eq_some_iff.1 h.slice
  rw [Text.utf8ByteSize_eq, htimes, Text.byteLength_append, hpos]

theorem IsAt.size_le_iff (h : c.IsAt base times pos) : times.utf8ByteSize ≤ pos ↔ c.rest = [] := by
  rw [h.size_eq]
  constructor
  · intro hle
    have hlength := Text.length_le_byteLength c.rest
    apply List.eq_nil_of_length_eq_zero
    omega
  · intro hrest
    rw [hrest]
    exact Nat.le_refl pos

theorem IsAt.skipBlanks (h : c.IsAt base times pos) :
    c.skipBlanks.IsAt base times (pos + Text.byteLength (c.rest.takeWhile Text.isBlank)) :=
  h.advance List.takeWhile_append_dropWhile.symm

theorem IsAt.skipAttribute (h : c.IsAt base times pos) :
    c.skipAttribute? = none ∧ skipAttributeAt? times pos = some none ∨
      ∃ after stop, c.skipAttribute? = some after ∧ skipAttributeAt? times pos = some (some stop) ∧ pos ≤ stop ∧
        after.IsAt base times stop := by
  unfold skipAttribute? skipAttributeAt?
  rw [h.slice]
  by_cases hopen : c.rest.head? = some '('
  · cases hdrop : c.rest.dropWhile isInAttribute with
    | nil =>
      left
      simp [hopen, hdrop]
    | cons close rest =>
      right
      have hsize : Text.byteLength (c.rest.takeWhile isInAttribute ++ [')']) =
          Text.byteLength (c.rest.takeWhile isInAttribute) + 1 := Text.byteLength_append ..
      have hrest : c.rest = c.rest.takeWhile isInAttribute ++ [')'] ++ rest := by
        rw [List.append_assoc]
        exact eq_append_of_dropWhile_isInAttribute hdrop
      have hafter := h.advance hrest
      rw [hsize] at hafter
      refine ⟨_, _, ?_, ?_, Nat.le_add_right .., hafter⟩
      · simp [hopen, Nat.add_assoc]
      · simp [hopen, hdrop, Nat.add_assoc]
  · right
    refine ⟨c, pos, ?_, ?_, Nat.le_refl pos, h⟩
    · rw [if_neg hopen]
    · simp [hopen]

theorem IsAt.round (line : String) (h : c.IsAt base times pos) :
    (∃ f, c.next line = .error f ∧ round? line base times pos = some (.error f)) ∨
      c.next line = .ok none ∧ round? line base times pos = some (.ok none) ∨
      ∃ time after stop, c.next line = .ok (some (time, after)) ∧
        round? line base times pos = some (.ok (some (time, stop))) ∧ pos < stop ∧ after.IsAt base times stop := by
  -- Both readings go behind the blanks first, and the times are at their end there or they go on.
  have hskip := h.skipBlanks
  unfold round? next
  rw [h.slice, Option.bind_eq_bind, Option.bind_some]
  by_cases hend : c.skipBlanks.rest = []
  · right; left
    rw [if_pos hend, if_pos (hskip.size_le_iff.2 hend)]
    exact ⟨rfl, rfl⟩
  rw [if_neg hend, if_neg (mt hskip.size_le_iff.1 hend), hskip.slice, Option.bind_some]
  unfold readTime
  cases hscan : Timestamp.scan c.skipBlanks.rest with
  | error position =>
    left
    refine ⟨_, rfl, ?_⟩
    rw [hskip.offset_eq]
    rfl
  | ok s =>
    obtain ⟨taken, htaken, hconsumed, hpos⟩ := Timestamp.exists_taken_of_scan hscan
    have hstop := hskip.advance htaken
    rw [hconsumed] at hstop
    dsimp only
    rcases hstop.skipAttribute with ⟨hnone, hnone'⟩ | ⟨after, stop, hsome, hsome', hle, hafter⟩
    · left
      rw [hnone, hnone']
      exact ⟨_, rfl, rfl⟩
    · right; right
      rw [hsome, hsome']
      exact ⟨s.time, after, stop, rfl, rfl, by omega, hafter⟩

theorem IsAt.rounds (line : String) (h : c.IsAt base times pos) : Rounds line base times pos (c.times line) := by
  -- The induction is on the bytes behind the place, of which a round that goes on leaves fewer.
  generalize hleft : times.utf8ByteSize - pos = left
  induction left using Nat.strongRecOn generalizing c pos with
  | ind left ih =>
    rcases h.round line with ⟨f, hnext, hround⟩ | ⟨hnext, hround⟩ |
      ⟨time, after, stop, hnext, hround, hlt, hafter⟩
    · rw [times_of_error hnext]
      exact .refused hround
    · rw [times_of_none hnext]
      exact .last hround
    · have hsize := hafter.size_eq
      rw [times_of_next hnext]
      apply Rounds.next hround
      exact ih (times.utf8ByteSize - stop) (by omega) hafter rfl

end Cursor

theorem head?_bytes_eq_some_iff {rest : List Char} :
    (Text.bytes (String.ofList rest)).head? = some equalsByte ↔ rest.head? = some '=' := by
  constructor
  · intro h
    obtain ⟨bs, hbs⟩ := List.head?_eq_some_iff.1 h
    rw [← String.toList_ofList (l := rest)]
    exact Text.head?_toList_of_bytes (c := '=') (by decide) hbs
  · intro h
    obtain ⟨text, rfl⟩ := List.head?_eq_some_iff.1 h
    rw [Text.bytes_ofList]
    rfl

theorem isForHex?_cases (hex line : String) :
    (∃ front text, Text.cut? 32 line.toList = some (front, '=' :: text) ∧
      isForHex? hex line = some (decide (front.map Char.toLower = hex.toList.map Char.toLower))) ∨
    (∀ front text, Text.cut? 32 line.toList ≠ some (front, '=' :: text)) ∧ isForHex? hex line = some false := by
  have hbyte {front text : List Char} (hcut : Text.cut? 32 line.toList = some (front, '=' :: text)) :
      (Text.bytes line)[32]? = some equalsByte := by
    obtain ⟨hline, hfront⟩ := Text.append_of_cut? hcut
    rw [Text.getElem?_bytes_append hline hfront, head?_bytes_eq_some_iff]
    rfl
  unfold isForHex?
  by_cases hsize : line.utf8ByteSize ≤ 32
  · right
    refine ⟨fun front text hcut => ?_, if_pos hsize⟩
    obtain ⟨hlt, -⟩ := List.getElem?_eq_some_iff.1 (hbyte hcut)
    rw [Text.length_bytes, ← Text.utf8ByteSize_eq] at hlt
    omega
  · have hlt : 32 < (Text.bytes line).length := by
      rw [Text.length_bytes, ← Text.utf8ByteSize_eq]
      exact Nat.not_le.1 hsize
    have hget : (Text.bytes line)[32]? = some (Text.bytes line)[32] := List.getElem?_eq_getElem hlt
    rw [if_neg hsize, hget, Option.bind_eq_bind, Option.bind_some]
    by_cases hequals : (Text.bytes line)[32] = equalsByte
    · left
      -- The byte is no part of a longer character, so the text can be cut in front of it.
      have hboundary : IsBoundary line 32 := Text.isBoundary_of_getElem? hget (by rw [hequals]; decide)
      obtain ⟨front, hslice⟩ := Text.exists_sliceTo?_iff.2 hboundary
      obtain ⟨rest, hline, hfront⟩ := Text.sliceTo?_eq_some_iff.1 hslice
      have hhead : rest.head? = some '=' := by
        rw [← head?_bytes_eq_some_iff, ← Text.getElem?_bytes_append hline hfront, hget, hequals]
      obtain ⟨text, rfl⟩ := List.head?_eq_some_iff.1 hhead
      refine ⟨front, text, Text.cut?_eq_some_iff.2 ⟨hline, hfront⟩, ?_⟩
      rw [if_pos hequals, hslice]
      rfl
    · right
      refine ⟨fun front text hcut => ?_, if_neg hequals⟩
      rw [hbyte hcut] at hget
      exact hequals (Option.some.inj hget).symm

theorem isForHex?_toHex (d : Digest) (line : String) : isForHex? d.toHex line = some (isFor d line) := by
  have hlower : d.toHex.toList.map Char.toLower = d.toHex.toList := by
    rw [Digest.toHex, String.toList_ofList]
    exact d.isSpelling_encode
  unfold isFor
  rcases isForHex?_cases d.toHex line with ⟨front, text, hcut, hfound⟩ | ⟨hnone, hfound⟩
  · rw [hfound, hcut, hlower]
    simp only [← String.toList_inj, String.toList_ofList]
  · rw [hfound]
    split
    · next front text hcut => exact absurd hcut (hnone front text)
    · rfl

theorem exists_round?_eq_some {times : String} {pos : Nat} (line : String) (base : Nat) (h : IsBoundary times pos) :
    ∃ found, round? line base times pos = some found ∧
      ∀ time stop, found = .ok (some (time, stop)) → pos < stop ∧ IsBoundary times stop := by
  obtain ⟨c, hc⟩ := Cursor.isAt_of_isBoundary base h
  rcases hc.round line with ⟨f, -, hround⟩ | ⟨-, hround⟩ | ⟨_, after, stop, -, hround, hlt, hafter⟩
  · exact ⟨_, hround, nofun⟩
  · exact ⟨_, hround, nofun⟩
  · refine ⟨_, hround, ?_⟩
    rintro _ _ ⟨⟩
    exact ⟨hlt, hafter.isBoundary⟩

/-- Reading a line takes no slice inside a character or beyond the end, be it in search of a digest or for its times.
Each round that does not end the reading comes to a boundary further on, as a time takes at least one byte. So the
rounds end, and they come to what the line is parsed to. -/
theorem reading_keeps_boundaries (line : String) :
    (∀ hex, ∃ found, isForHex? hex line = some found) ∧
    (∀ d : Digest, isForHex? d.toHex line = some (isFor d line)) ∧
    (∀ text s, Timestamp.parse text = .ok s → 0 < s.consumed) ∧
    ('=' ∉ line.toList → parse line = .error (.entryWithoutEquals line)) ∧
    ∀ front times, line = front ++ "=" ++ times → '=' ∉ front.toList →
      (∀ pos, IsBoundary times pos → ∃ found, round? line (front.utf8ByteSize + 1) times pos = some found ∧
        ∀ time stop, found = .ok (some (time, stop)) → pos < stop ∧ IsBoundary times stop) ∧
      ∃ outcome, Rounds line (front.utf8ByteSize + 1) times 0 outcome ∧
        parse line = (Digest.ofHex (String.ofList (Text.trim front.toList))).bind fun d =>
          outcome.map fun lengths => (d, lengths) := by
  refine ⟨fun hex => ?_, fun d => isForHex?_toHex d line, fun text s hs => ?_, parse_of_not_mem,
    fun front times hline hfront => ?_⟩
  · rcases isForHex?_cases hex line with ⟨_, _, -, hfound⟩ | ⟨-, hfound⟩
    · exact ⟨_, hfound⟩
    · exact ⟨_, hfound⟩
  · obtain ⟨_, -, -, hpos⟩ := Timestamp.exists_taken_of_scan (Timestamp.parse_eq_ok_iff_scan.1 hs)
    exact hpos
  · refine ⟨fun pos => exists_round?_eq_some line _, _, (Cursor.isAt_start _ times).rounds line, ?_⟩
    have htoList : line.toList = front.toList ++ '=' :: times.toList := by
      rw [hline, String.toList_append, String.toList_append, List.append_assoc]
      rfl
    rw [parse_of_toList htoList hfront, Text.utf8ByteSize_eq]
    cases Digest.ofHex (String.ofList (Text.trim front.toList)) with
    | error f => rfl
    | ok d => cases Cursor.times line ⟨Text.byteLength front.toList + 1, times.toList⟩ <;> rfl

def wideFront : String := "\u2003d41d8cd98f00b204e9800998ecf8427e"

def wideTimes : String := ":(é)\u30001:05\u00a0"

theorem reading_keeps_boundaries_wide :
    (∃ s, Timestamp.parse wideTimes = .ok s ∧ 0 < s.consumed) ∧
      parse "; é" = .error (.entryWithoutEquals "; é") ∧
      (∃ found, round? (wideFront ++ "=" ++ wideTimes) 36 wideTimes 5 = some found ∧
        ∀ time stop, found = .ok (some (time, stop)) → 5 < stop ∧ IsBoundary wideTimes stop) ∧
      ∃ outcome, Rounds (wideFront ++ "=" ++ wideTimes) 36 wideTimes 0 outcome ∧
        ∃ d, parse (wideFront ++ "=" ++ wideTimes) = outcome.map fun lengths => (d, lengths) := by
  obtain ⟨-, -, hconsumed, -, hrounds⟩ := reading_keeps_boundaries (wideFront ++ "=" ++ wideTimes)
  obtain ⟨-, -, -, hcomment, -⟩ := reading_keeps_boundaries "; é"
  obtain ⟨s, hs⟩ : ∃ s, Timestamp.parse wideTimes = .ok s := ⟨_, rfl⟩
  obtain ⟨d, hd⟩ : ∃ d, Digest.ofHex (String.ofList (Text.trim wideFront.toList)) = .ok d := ⟨_, rfl⟩
  have hboundary : IsBoundary wideTimes 5 := Text.isBoundary_iff.2 ⟨":(é)".toList, _, rfl, rfl⟩
  obtain ⟨hround, outcome, hends, hparse⟩ := hrounds wideFront wideTimes rfl (by decide)
  rw [hd] at hparse
  exact ⟨⟨s, hs, hconsumed _ s hs⟩, hcomment (by decide), hround 5 hboundary, outcome, hends, d, hparse⟩

end SongLengths.Entry

end SidCatalog
