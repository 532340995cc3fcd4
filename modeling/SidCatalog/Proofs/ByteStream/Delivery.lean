import SidCatalog.ByteStream

/-! Streams that bring a given content to its end, in any pieces, and the lines of a content. Reading lines off
such a stream depends on the content alone: the pieces may break a line anywhere. -/

namespace SidCatalog

/-- The stream brings these bytes, in any pieces, and from then on reports the end. -/
inductive ByteStream.Delivers : ByteStream → Bytes → Prop where
  | drained : Delivers drained []
  | ended {next : ByteStream} (h : Delivers next []) : Delivers (piece [] next) []
  | piece {bs rest : Bytes} {next : ByteStream} (hbs : bs ≠ []) (h : Delivers next rest) :
      Delivers (piece bs next) (bs ++ rest)
  | interrupted {bs : Bytes} {next : ByteStream} (h : Delivers next bs) : Delivers (interrupted next) bs

def RawLine.image (line : RawLine) : Bytes :=
  if line.terminated then line.bytes ++ [ByteStream.lineFeed] else line.bytes

/-- The lines that the pieces between line feeds make. The last piece has no line feed behind it, and when it
is empty it is no line. -/
def linesOfPieces : List Bytes → List RawLine
  | [] => []
  | [last] => if last = [] then [] else [⟨last, false⟩]
  | bs :: more => ⟨bs, true⟩ :: linesOfPieces more

def rawLines (content : Bytes) : List RawLine := linesOfPieces (content.splitOn ByteStream.lineFeed)

open ByteStream

@[simp] theorem rawLines_nil : rawLines [] = [] := rfl

theorem rawLines_of_not_mem {bs : Bytes} (hbs : bs ≠ []) (hlf : lineFeed ∉ bs) :
    rawLines bs = [⟨bs, false⟩] := by
  rw [rawLines, List.splitOn_eq_singleton hlf, linesOfPieces, if_neg hbs]

theorem rawLines_cons {bs : Bytes} (hlf : lineFeed ∉ bs) (rest : Bytes) :
    rawLines (bs ++ lineFeed :: rest) = ⟨bs, true⟩ :: rawLines rest := by
  rw [rawLines, rawLines, List.splitOn_append_cons_self_of_not_mem hlf]
  obtain ⟨piece, more, hp⟩ := List.exists_cons_of_ne_nil (List.splitOn_ne_nil lineFeed rest)
  rw [hp, linesOfPieces]
  exact List.cons_ne_nil _ _

theorem content_cases (content : Bytes) :
    content = [] ∨ (content ≠ [] ∧ lineFeed ∉ content) ∨
      ∃ bs rest, lineFeed ∉ bs ∧ content = bs ++ lineFeed :: rest := by
  by_cases hmem : lineFeed ∈ content
  · obtain ⟨bs, rest, rfl, hbs⟩ := List.eq_append_cons_of_mem hmem
    exact .inr (.inr ⟨bs, rest, hbs, rfl⟩)
  · by_cases hnil : content = []
    · exact .inl hnil
    · exact .inr (.inl ⟨hnil, hmem⟩)

@[elab_as_elim] theorem content_induction {motive : Bytes → Prop} (nil : motive [])
    (last : ∀ bs, bs ≠ [] → lineFeed ∉ bs → motive bs)
    (line : ∀ bs rest, lineFeed ∉ bs → motive rest → motive (bs ++ lineFeed :: rest))
    (content : Bytes) : motive content := by
  induction hn : content.length using Nat.strongRecOn generalizing content with
  | ind n ih =>
    rcases content_cases content with rfl | ⟨hne, hlf⟩ | ⟨bs, rest, hlf, rfl⟩
    · exact nil
    · exact last content hne hlf
    · refine line bs rest hlf (ih rest.length ?_ rest rfl)
      simp only [List.length_append, List.length_cons] at hn
      omega

theorem flatMap_image_rawLines (content : Bytes) : (rawLines content).flatMap RawLine.image = content := by
  induction content using content_induction with
  | nil => rfl
  | last bs hne hlf => simp [rawLines_of_not_mem hne hlf, RawLine.image]
  | line bs rest hlf ih => simp [rawLines_cons hlf, RawLine.image, ih]

theorem isEnd_of_mem_rawLines {content : Bytes} {line : RawLine} (h : line ∈ rawLines content) :
    line.isEnd = false := by
  induction content using content_induction with
  | nil => simp at h
  | last bs hne hlf =>
    rw [rawLines_of_not_mem hne hlf, List.mem_singleton] at h
    simp [h, RawLine.isEnd, hne]
  | line bs rest hlf ih =>
    rw [rawLines_cons hlf, List.mem_cons] at h
    rcases h with rfl | h
    · simp [RawLine.isEnd]
    · exact ih h

theorem lineFeed_not_mem_of_mem_rawLines {content : Bytes} {line : RawLine} (h : line ∈ rawLines content) :
    lineFeed ∉ line.bytes := by
  induction content using content_induction with
  | nil => simp at h
  | last bs hne hlf =>
    rw [rawLines_of_not_mem hne hlf, List.mem_singleton] at h
    rwa [h]
  | line bs rest hlf ih =>
    rw [rawLines_cons hlf, List.mem_cons] at h
    rcases h with rfl | h
    · exact hlf
    · exact ih h

theorem eq_nil_of_rawLines_eq_nil {content : Bytes} (h : rawLines content = []) : content = [] := by
  rw [← flatMap_image_rawLines content, h, List.flatMap_nil]

def IsClosed (content : Bytes) : Prop := content = [] ∨ content.getLast? = some lineFeed

instance (content : Bytes) : Decidable (IsClosed content) :=
  inferInstanceAs (Decidable (content = [] ∨ content.getLast? = some lineFeed))

theorem isClosed_append_cons {bs rest : Bytes} : IsClosed (bs ++ lineFeed :: rest) ↔ IsClosed rest := by
  cases rest with
  | nil => simp [IsClosed]
  | cons b rest => simp [IsClosed, List.getLast?_cons_cons]

theorem not_isClosed {bs : Bytes} (hbs : bs ≠ []) (hlf : lineFeed ∉ bs) : ¬ IsClosed bs := by
  rintro (hnil | hlast)
  · exact hbs hnil
  · exact hlf (List.mem_of_getLast? hlast)

theorem length_rawLines (content : Bytes) :
    (rawLines content).length = content.count lineFeed + if IsClosed content then 0 else 1 := by
  induction content using content_induction with
  | nil => rfl
  | last bs hne hlf =>
    rw [rawLines_of_not_mem hne hlf, List.count_eq_zero_of_not_mem hlf, if_neg (not_isClosed hne hlf)]
    rfl
  | line bs rest hlf ih =>
    have hcount : (bs ++ lineFeed :: rest).count lineFeed = rest.count lineFeed + 1 := by
      rw [List.count_append, List.count_eq_zero_of_not_mem hlf, List.count_cons_self, Nat.zero_add]
    simp only [rawLines_cons hlf, List.length_cons, hcount, isClosed_append_cons, ih]
    omega

theorem count_lineFeed_take (content : Bytes) (n : Nat) :
    (((rawLines content).take n).flatMap RawLine.image).count lineFeed =
      min n (content.count lineFeed) := by
  induction content using content_induction generalizing n with
  | nil => simp
  | last bs hne hlf =>
    have hcount := List.count_eq_zero_of_not_mem hlf
    cases n with
    | zero => simp
    | succ n => simp [rawLines_of_not_mem hne hlf, RawLine.image, hcount]
  | line bs rest hlf ih =>
    have hcount := List.count_eq_zero_of_not_mem hlf
    cases n with
    | zero => simp
    | succ n => simp [rawLines_cons hlf, RawLine.image, hcount, ih]

namespace ByteStream

theorem Delivers.unread {s : ByteStream} {rest : Bytes} (h : s.Delivers rest) (bs : Bytes) :
    (s.unread bs).Delivers (bs ++ rest) := by
  unfold ByteStream.unread
  split
  · next hbs => rwa [hbs, List.nil_append]
  · next hbs => exact .piece hbs h

theorem delivers_ofBytes (bs : Bytes) : (ofBytes bs).Delivers bs := by
  by_cases hbs : bs = []
  · subst hbs
    exact .ended .drained
  · simpa only [ofBytes, List.append_nil] using Delivers.piece hbs .drained

theorem dropWhile_ne_lineFeed {bs : Bytes} (hlf : lineFeed ∉ bs) (rest : Bytes) :
    (bs ++ rest).dropWhile (· != lineFeed) = rest.dropWhile (· != lineFeed) :=
  List.dropWhile_append_of_pos fun b hb => by
    simpa using fun he : b = lineFeed => hlf (he ▸ hb)

theorem takeWhile_ne_lineFeed {bs : Bytes} (hlf : lineFeed ∉ bs) (rest : Bytes) :
    (bs ++ rest).takeWhile (· != lineFeed) = bs ++ rest.takeWhile (· != lineFeed) :=
  List.takeWhile_append_of_pos fun b hb => by
    simpa using fun he : b = lineFeed => hlf (he ▸ hb)

theorem readLine_piece_of_not_mem {bs : Bytes} (hbs : bs ≠ []) (hlf : lineFeed ∉ bs) (next : ByteStream) :
    (piece bs next).readLine = (next.readLine.1.map (RawLine.prepend bs), next.readLine.2) := by
  have hd : bs.dropWhile (· != lineFeed) = [] := by
    simpa using dropWhile_ne_lineFeed hlf []
  simp only [readLine, if_neg hbs, hd]

theorem readLine_piece_of_mem {bs : Bytes} (hlf : lineFeed ∉ bs) (rest : Bytes) (next : ByteStream) :
    (piece (bs ++ lineFeed :: rest) next).readLine = (.ok ⟨bs, true⟩, next.unread rest) := by
  have hd : (bs ++ lineFeed :: rest).dropWhile (· != lineFeed) = lineFeed :: rest := by
    rw [dropWhile_ne_lineFeed hlf, List.dropWhile_cons_of_neg (by simp)]
  have ht : (bs ++ lineFeed :: rest).takeWhile (· != lineFeed) = bs := by
    rw [takeWhile_ne_lineFeed hlf, List.takeWhile_cons_of_neg (by simp), List.append_nil]
  simp [readLine, hd, ht]

theorem Delivers.readLine_of_not_mem {s : ByteStream} {content : Bytes} (h : s.Delivers content)
    (hlf : lineFeed ∉ content) :
    ∃ after, s.readLine = (.ok ⟨content, false⟩, after) ∧ after.Delivers [] := by
  induction h with
  | drained => exact ⟨.drained, rfl, .drained⟩
  | @ended next h _ => exact ⟨next, by simp [ByteStream.readLine], h⟩
  | @piece bs rest next hbs _ ih =>
    rw [List.mem_append, not_or] at hlf
    obtain ⟨after, hread, hafter⟩ := ih hlf.2
    refine ⟨after, ?_, hafter⟩
    rw [readLine_piece_of_not_mem hbs hlf.1, hread]
    rfl
  | interrupted _ ih => exact ih hlf

theorem Delivers.readLine_of_mem {s : ByteStream} {content : Bytes} (h : s.Delivers content)
    {bs rest : Bytes} (hlf : lineFeed ∉ bs) (hc : content = bs ++ lineFeed :: rest) :
    ∃ after, s.readLine = (.ok ⟨bs, true⟩, after) ∧ after.Delivers rest := by
  induction h generalizing bs with
  | drained => simp at hc
  | ended => simp at hc
  | @piece front back next hfront hnext ih =>
    rcases List.append_eq_append_iff.1 hc with ⟨more, rfl, hback⟩ | ⟨more, rfl, hmore⟩
    · -- The line goes on behind the piece.
      rw [List.mem_append, not_or] at hlf
      obtain ⟨after, hread, hafter⟩ := ih hlf.2 hback
      refine ⟨after, ?_, hafter⟩
      rw [readLine_piece_of_not_mem hfront hlf.1, hread]
      rfl
    · cases more with
      | nil =>
        -- The piece ends right before the line feed.
        rw [List.append_nil] at hfront
        have hback : back = [] ++ lineFeed :: rest := hmore.symm
        obtain ⟨after, hread, hafter⟩ := ih List.not_mem_nil hback
        refine ⟨after, ?_, hafter⟩
        rw [List.append_nil, readLine_piece_of_not_mem hfront hlf, hread]
        simp [Except.map, RawLine.prepend]
      | cons b more =>
        obtain ⟨rfl, rfl⟩ := List.cons.inj hmore
        exact ⟨next.unread more, readLine_piece_of_mem hlf more next, hnext.unread more⟩
  | interrupted _ ih => exact ih hlf hc

theorem Delivers.readLine_nil {s : ByteStream} (h : s.Delivers []) :
    ∃ after, s.readLine = (.ok ⟨[], false⟩, after) ∧ after.Delivers [] :=
  h.readLine_of_not_mem (by simp)

theorem Delivers.readLine_cons {s : ByteStream} {content : Bytes} (h : s.Delivers content)
    {line : RawLine} {lines : List RawLine} (hl : rawLines content = line :: lines) :
    ∃ after rest, s.readLine = (.ok line, after) ∧ after.Delivers rest ∧ rawLines rest = lines ∧
      content = line.image ++ rest := by
  rcases content_cases content with rfl | ⟨hne, hlf⟩ | ⟨bs, rest, hlf, rfl⟩
  · cases hl
  · rw [rawLines_of_not_mem hne hlf] at hl
    obtain ⟨rfl, rfl⟩ := List.cons.inj hl
    obtain ⟨after, hread, hafter⟩ := h.readLine_of_not_mem hlf
    exact ⟨after, [], hread, hafter, rfl, by simp [RawLine.image]⟩
  · rw [rawLines_cons hlf] at hl
    obtain ⟨rfl, rfl⟩ := List.cons.inj hl
    obtain ⟨after, hread, hafter⟩ := h.readLine_of_mem hlf rfl
    exact ⟨after, rest, hread, hafter, rfl, by simp [RawLine.image]⟩

end ByteStream

end SidCatalog
