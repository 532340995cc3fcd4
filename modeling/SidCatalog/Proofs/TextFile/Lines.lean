import Mathlib.Data.List.Forall2
import Mathlib.Logic.Function.Iterate
import SidCatalog.Proofs.ByteStream.Delivery
import SidCatalog.Proofs.Text.Encoding
import SidCatalog.TextFile

/-! Reading a file line by line. `Handle.after n` is the file after `n` reads; what it holds is told from the
lines of the content: the reads return them one by one, each decoded on its own, and then nothing. -/

namespace SidCatalog

namespace TextFile

def lineText (line : RawLine) : String := Text.decode (content line)

def lineTexts (bs : Bytes) : List String := (rawLines bs).map lineText

/-- The bytes of a line that count: an ended line loses one carriage return at its end. -/
inductive Stripped : RawLine → Bytes → Prop where
  | last (bs : Bytes) : Stripped ⟨bs, false⟩ bs
  | carriageReturn (bs : Bytes) : Stripped ⟨bs ++ [carriageReturn], true⟩ bs
  | plain (bs : Bytes) (h : bs.getLast? ≠ some TextFile.carriageReturn) : Stripped ⟨bs, true⟩ bs

theorem stripped_content (line : RawLine) : Stripped line (content line) := by
  obtain ⟨bs, terminated⟩ := line
  cases terminated with
  | false => exact .last bs
  | true =>
    by_cases h : bs.getLast? = some carriageReturn
    · obtain ⟨front, rfl⟩ := List.getLast?_eq_some_iff.1 h
      simpa [content] using Stripped.carriageReturn front
    · simpa [content, h] using Stripped.plain bs h

theorem lineText_of_plain {bs : Bytes} {terminated : Bool} (h : bs.getLast? ≠ some carriageReturn) :
    lineText ⟨bs, terminated⟩ = Text.decode bs := by
  rw [lineText, content, if_neg fun hcr => h hcr.2]

theorem lineText_of_return (bs : Bytes) : lineText ⟨bs ++ [carriageReturn], true⟩ = Text.decode bs := by
  rw [lineText, content, if_pos ⟨rfl, List.getLast?_concat⟩, List.dropLast_concat]

theorem lineTexts_of_line {bs : Bytes} (hlf : ByteStream.lineFeed ∉ bs) (rest : Bytes) :
    lineTexts (bs ++ ByteStream.lineFeed :: rest) = lineText ⟨bs, true⟩ :: lineTexts rest := by
  rw [lineTexts, rawLines_cons hlf, List.map_cons, lineTexts]

theorem lineTexts_of_not_mem {bs : Bytes} (hne : bs ≠ []) (hlf : ByteStream.lineFeed ∉ bs) :
    lineTexts bs = [lineText ⟨bs, false⟩] := by
  rw [lineTexts, rawLines_of_not_mem hne hlf, List.map_singleton]

namespace Handle

@[simp] theorem current_advance (h : Handle) (stream : ByteStream) : (h.advance stream).current = none := rfl

@[simp] theorem previous_advance (h : Handle) (stream : ByteStream) : (h.advance stream).previous = h.current := rfl

@[simp] theorem current_accept (h : Handle) (line : RawLine) : (h.accept line).current = some (lineText line) := rfl

@[simp] theorem previous_accept (h : Handle) (line : RawLine) : (h.accept line).previous = h.previous := rfl

theorem read_of_end {h : Handle} {line : RawLine} {stream : ByteStream}
    (hr : h.stream.readLine = (.ok line, stream)) (he : line.isEnd = true) :
    h.read = (pure none, h.advance stream) := by
  simp only [read, hr, he, if_true]

def growthEvents (h : Handle) (line : RawLine) : List Event :=
  (h.growth line).map fun c => Event.lineBuffersGrown c (h.lineNumber + 1)

theorem read_of_line {h : Handle} {line : RawLine} {stream : ByteStream}
    (hr : h.stream.readLine = (.ok line, stream)) (he : line.isEnd = false) :
    h.read = (⟨.ok (some (lineText line)), h.growthEvents line⟩, (h.advance stream).accept line) := by
  simp only [read, hr, he, Bool.false_eq_true, if_false]
  rfl

theorem read_cases (h : Handle) :
    (∃ fault stream, h.read = (.fail (.io h.path fault), h.advance stream)) ∨
      (∃ stream, h.read = (pure none, h.advance stream)) ∨
      ∃ stream line, h.read =
        (⟨.ok (some (lineText line)), h.growthEvents line⟩, (h.advance stream).accept line) := by
  cases hraw : h.stream.readLine with
  | mk outcome stream =>
    cases outcome with
    | error fault => exact .inl ⟨fault, stream, by simp only [read, hraw]⟩
    | ok line =>
      cases he : line.isEnd with
      | true => exact .inr (.inl ⟨stream, read_of_end hraw he⟩)
      | false => exact .inr (.inr ⟨stream, line, read_of_line hraw he⟩)

@[simp] theorem previous_read (h : Handle) : h.read.2.previous = h.current := by
  rcases h.read_cases with ⟨fault, stream, hread⟩ | ⟨stream, hread⟩ | ⟨stream, line, hread⟩ <;> simp [hread]

theorem current_read_eq_some_iff {h : Handle} {line : String} :
    h.read.2.current = some line ↔ h.read.1.outcome = .ok (some line) := by
  rcases h.read_cases with ⟨fault, stream, hread⟩ | ⟨stream, hread⟩ | ⟨stream, raw, hread⟩ <;> rw [hread]
  · simp [Attempt.fail]
  · simp [Attempt.pure_eq]
  · simp

def after (n : Nat) (h : Handle) : Handle := (fun h => h.read.2)^[n] h

@[simp] theorem after_zero (h : Handle) : h.after 0 = h := rfl

theorem after_succ (n : Nat) (h : Handle) : h.after (n + 1) = (h.after n).read.2 :=
  Function.iterate_succ_apply' ..

theorem after_succ' (n : Nat) (h : Handle) : h.after (n + 1) = h.read.2.after n := rfl

def log : Nat → Handle → List Event
  | 0, _ => []
  | n + 1, h => h.read.1.events ++ log n h.read.2

theorem log_succ (n : Nat) (h : Handle) : h.log (n + 1) = h.log n ++ (h.after n).read.1.events := by
  induction n generalizing h with
  | zero => simp [log]
  | succ n ih => rw [log, ih, log, List.append_assoc, after_succ']

theorem previous_after_succ (n : Nat) (h : Handle) : (h.after (n + 1)).previous = (h.after n).current := by
  rw [after_succ, previous_read]

section Delivers

variable {h : Handle} {content : Bytes}

theorem read_nil (hs : h.stream.Delivers []) :
    ∃ stream, h.read = (pure none, h.advance stream) ∧ stream.Delivers [] := by
  obtain ⟨stream, hread, hstream⟩ := hs.readLine_nil
  exact ⟨stream, read_of_end hread rfl, hstream⟩

theorem read_cons (hs : h.stream.Delivers content) {line : RawLine} {lines : List RawLine}
    (hl : rawLines content = line :: lines) :
    ∃ stream rest, h.read =
        (⟨.ok (some (lineText line)), h.growthEvents line⟩, (h.advance stream).accept line) ∧
      stream.Delivers rest ∧ rawLines rest = lines ∧ content = line.image ++ rest := by
  obtain ⟨stream, rest, hread, hstream, hrest, hc⟩ := hs.readLine_cons hl
  have he : line.isEnd = false := isEnd_of_mem_rawLines (hl ▸ List.mem_cons_self ..)
  exact ⟨stream, rest, read_of_line hread he, hstream, hrest, hc⟩

theorem stream_after (hs : h.stream.Delivers content) (n : Nat) :
    ∃ rest, (h.after n).stream.Delivers rest ∧ rawLines rest = (rawLines content).drop n ∧
      content = ((rawLines content).take n).flatMap RawLine.image ++ rest := by
  induction n with
  | zero => exact ⟨content, hs, rfl, rfl⟩
  | succ n ih =>
    obtain ⟨rest, hrest, hl, hc⟩ := ih
    rw [after_succ]
    cases hd : (rawLines content).drop n with
    | nil =>
      have hnil : rest = [] := eq_nil_of_rawLines_eq_nil (hl.trans hd)
      subst hnil
      obtain ⟨stream, hread, hstream⟩ := read_nil hrest
      have hlen : (rawLines content).length ≤ n := List.drop_eq_nil_iff.1 hd
      refine ⟨[], by rw [hread]; exact hstream, ?_, ?_⟩
      · rw [List.drop_eq_nil_of_le (Nat.le_succ_of_le hlen), rawLines_nil]
      · rw [List.take_of_length_le (Nat.le_succ_of_le hlen), flatMap_image_rawLines, List.append_nil]
    | cons line lines =>
      obtain ⟨stream, rest', hread, hstream, hlines, himage⟩ := read_cons hrest (hl.trans hd)
      have htake : (rawLines content).take (n + 1) = (rawLines content).take n ++ [line] := by
        rw [List.take_add_one, ← List.head?_drop, hd]
        rfl
      refine ⟨rest', by rw [hread]; exact hstream, ?_, ?_⟩
      · rw [hlines, ← List.drop_drop, hd, List.drop_one, List.tail_cons]
      · rw [htake, List.flatMap_append, List.flatMap_singleton, List.append_assoc, ← himage]
        exact hc

theorem read_after (hs : h.stream.Delivers content) (n : Nat) :
    (∃ stream, (rawLines content)[n]? = none ∧ (h.after n).read = (pure none, (h.after n).advance stream)) ∨
      ∃ stream line, (rawLines content)[n]? = some line ∧ (h.after n).read =
        (⟨.ok (some (lineText line)), (h.after n).growthEvents line⟩,
          ((h.after n).advance stream).accept line) := by
  obtain ⟨rest, hrest, hl, -⟩ := stream_after hs n
  rw [← List.head?_drop, ← hl]
  cases hd : rawLines rest with
  | nil =>
    obtain rfl := eq_nil_of_rawLines_eq_nil hd
    obtain ⟨stream, hread, -⟩ := read_nil hrest
    exact .inl ⟨stream, rfl, hread⟩
  | cons line lines =>
    obtain ⟨stream, -, hread, -⟩ := read_cons hrest hd
    exact .inr ⟨stream, line, rfl, hread⟩

theorem outcome_read_after (hs : h.stream.Delivers content) (n : Nat) :
    (h.after n).read.1.outcome = .ok (lineTexts content)[n]? := by
  rw [lineTexts, List.getElem?_map]
  rcases read_after hs n with ⟨stream, hn, hread⟩ | ⟨stream, line, hn, hread⟩ <;> rw [hread, hn] <;> rfl

theorem lineNumber_after (hs : h.stream.Delivers content) (n : Nat) :
    (h.after n).lineNumber = h.lineNumber +
      (((rawLines content).take n).flatMap RawLine.image).count ByteStream.lineFeed := by
  induction n with
  | zero => simp
  | succ n ih =>
    rw [after_succ, List.take_add_one, List.flatMap_append, List.count_append, ← Nat.add_assoc, ← ih]
    rcases read_after hs n with ⟨stream, hn, hread⟩ | ⟨stream, line, hn, hread⟩
    · rw [hread, hn]
      rfl
    · have hlf := lineFeed_not_mem_of_mem_rawLines (List.mem_of_getElem? hn)
      rw [hread, hn]
      cases ht : line.terminated <;>
        simp [accept, advance, RawLine.image, ht, List.count_eq_zero_of_not_mem hlf]

end Delivers

end Handle

theorem openHandle_of_ok {fs : FileSystem} {path : String} {stream : ByteStream}
    (hopen : fs.openFile path = .ok stream) :
    openHandle fs path = ⟨.ok { path, stream }, [.opening path]⟩ := by
  rw [openHandle, FileSystem.openStream, hopen]
  rfl

theorem openFile_of_ok {fs : FileSystem} {path : String} {stream : ByteStream}
    (hopen : fs.openFile path = .ok stream) :
    openFile fs path = ⟨.ok (opened { path, stream }), [.opening path]⟩ := by
  rw [openFile, openHandle_of_ok hopen]
  rfl

def after (n : Nat) (file : TextFile) : TextFile := (fun file => file.read.2)^[n] file

theorem after_succ (n : Nat) (file : TextFile) : after (n + 1) file = (after n file).read.2 :=
  Function.iterate_succ_apply' ..

theorem after_opened (n : Nat) (h : Handle) : after n (opened h) = opened (h.after n) := by
  induction n with
  | zero => rfl
  | succ n ih =>
    rw [after_succ, ih, Handle.after_succ, read]

def IsTextOf (raw : RawLine) (line : String) : Prop := ∃ bs, Stripped raw bs ∧ Text.Spells bs line

/-- Reading on and on returns the lines and then nothing. At any time the line number counts the line feeds
among the bytes that were taken in, so it grows with each read until the last of them. -/
def Returns (file : TextFile) (bs : Bytes) (lines : List String) : Prop :=
  ∀ n, (after n file).read.1.outcome = .ok lines[n]? ∧
    ∃ handle consumed rest, after n file = opened handle ∧ handle.stream.Delivers rest ∧
      bs = consumed ++ rest ∧ (after n file).lineNumber = consumed.count ByteStream.lineFeed ∧
      (after n file).lineNumber = min n (bs.count ByteStream.lineFeed)

theorem forall₂_lineTexts (bs : Bytes) : List.Forall₂ IsTextOf (rawLines bs) (lineTexts bs) := by
  rw [lineTexts, List.forall₂_map_right_iff, List.forall₂_same]
  exact fun line _ => ⟨content line, stripped_content line, Text.spells_decode _⟩

theorem returns_lineTexts {h : Handle} {bs : Bytes} (hs : h.stream.Delivers bs) (hn : h.lineNumber = 0) :
    (opened h).Returns bs (lineTexts bs) := by
  intro n
  rw [after_opened]
  obtain ⟨rest, hrest, -, hbs⟩ := Handle.stream_after hs n
  have hline : (h.after n).lineNumber =
      (((rawLines bs).take n).flatMap RawLine.image).count ByteStream.lineFeed := by
    rw [Handle.lineNumber_after hs n, hn, Nat.zero_add]
  refine ⟨Handle.outcome_read_after hs n, h.after n, _, rest, rfl, hrest, hbs, hline, ?_⟩
  exact hline.trans (count_lineFeed_take bs n)

theorem reads_of_content {fs : FileSystem} {path : String} {stream : ByteStream} {bs : Bytes}
    (hopen : fs.openFile path = .ok stream) (hs : stream.Delivers bs) :
    ∃ file lines, (openFile fs path).outcome = .ok file ∧
      List.Forall₂ IsTextOf (rawLines bs) lines ∧ file.Returns bs lines := by
  refine ⟨opened { path, stream }, lineTexts bs, ?_, forall₂_lineTexts bs, returns_lineTexts hs rfl⟩
  rw [openFile, openHandle_of_ok hopen]
  rfl

theorem reads_of_pieces :
    let stream : ByteStream := .piece [0x4A, 0xF6, 0x0D] (.piece [0x0A, 0x0A, 0x78] (.piece [0x0D] .drained))
    ∃ file lines, (openFile ⟨fun _ => .ok stream⟩ "list").outcome = .ok file ∧
      List.Forall₂ IsTextOf (rawLines [0x4A, 0xF6, 0x0D, 0x0A, 0x0A, 0x78, 0x0D]) lines ∧
      file.Returns [0x4A, 0xF6, 0x0D, 0x0A, 0x0A, 0x78, 0x0D] lines :=
  reads_of_content rfl (.piece (by decide) (.piece (by decide) (.piece (by decide) .drained)))

example : rawLines [0x4A, 0xF6, 0x0D, 0x0A, 0x0A, 0x78, 0x0D] =
    [⟨[0x4A, 0xF6, 0x0D], true⟩, ⟨[], true⟩, ⟨[0x78, 0x0D], false⟩] := by
  decide

end TextFile

end SidCatalog
