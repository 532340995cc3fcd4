import Mathlib.Data.List.Chain
import SidCatalog.Proofs.Digest.Spelling
import SidCatalog.Proofs.SongLengths.Tokens
import SidCatalog.Proofs.Timestamp.Rendering

/-! Entries as they may be laid out: blanks around the digest, before each time and at the end, and an attribute
right behind any time. An entry in any layout is parsed to the digest and the times that were laid out. -/

namespace SidCatalog.SongLengths.Entry

structure Item where
  blanks : List Char := []
  time : Timestamp
  tag : Option (List Char) := none
  isBlank_blanks : ∀ c ∈ blanks, Text.isBlank c = true := by simp
  not_mem_tag : ∀ text ∈ tag, ')' ∉ text := by simp

namespace Item

def text (i : Item) : List Char := i.blanks ++ (i.time.render.toList ++ tagText i.tag)

/-- What may come behind the item: after an attribute anything, after a time a blank or nothing. -/
def CanFollow (i : Item) (rest : List Char) : Prop :=
  i.tag = none → ∀ c ∈ rest.head?, Text.isBlank c = true

end Item

def itemsText (items : List Item) : List Char := items.flatMap Item.text

def Separated (items : List Item) : Prop :=
  items.IsChain fun i j => i.tag = none → j.blanks ≠ []

namespace Item

variable {i : Item}

def token (i : Item) : Token where
  blanks := i.blanks
  form := i.time.form
  tag := i.tag
  isBlank_blanks := i.isBlank_blanks
  isDigit_minutes := (Timestamp.begins_form i.time.canFollow_nil).minutes.isDigit
  isDigit_seconds := (Timestamp.begins_form i.time.canFollow_nil).seconds.isDigit
  isDigit_fraction := (Timestamp.begins_form i.time.canFollow_nil).fraction.isDigit
  length_fraction_le := (Timestamp.begins_form i.time.canFollow_nil).fraction.length_le
  not_mem_tag := i.not_mem_tag

theorem text_token (i : Item) : i.token.text = i.text := by
  rw [text, ← i.time.text_form]
  rfl

theorem millis_token (i : Item) : i.token.millis = i.time.millis := i.time.millis_form

theorem inRange_token (i : Item) : i.token.InRange where
  seconds_lt := i.time.seconds_form ▸ Nat.mod_lt _ (by decide)
  millis_lt := i.millis_token ▸ i.time.millis_lt

end Item

theorem Separated.canFollow {i : Item} {items : List Item} {blanks : List Char}
    (hs : Separated (i :: items)) (hb : ∀ c ∈ blanks, Text.isBlank c = true) :
    i.CanFollow (itemsText items ++ blanks) := by
  intro ha c hc
  cases items with
  | nil => exact hb c (List.mem_of_mem_head? hc)
  | cons j items =>
    have hj : j.blanks ≠ [] := (List.isChain_cons_cons.1 hs).1 ha
    rw [itemsText, List.flatMap_cons, Item.text, List.append_assoc, List.append_assoc,
      List.head?_append_of_ne_nil _ hj] at hc
    exact j.isBlank_blanks c (List.mem_of_mem_head? hc)

theorem itemsText_eq (items : List Item) : itemsText items = tokensText (items.map Item.token) := by
  rw [itemsText, tokensText, List.flatMap_map]
  exact congrArg (items.flatMap ·) (funext fun i => i.text_token.symm)

theorem Separated.precede {items : List Item} {blanks : List Char} (hs : Separated items)
    (hb : ∀ c ∈ blanks, Text.isBlank c = true) : Precede (items.map Item.token) blanks := by
  induction items with
  | nil => exact .nil blanks
  | cons i items ih =>
    have hfollow := hs.canFollow hb
    rw [itemsText_eq] at hfollow
    exact .cons (Token.canFollow_of_isBlank hfollow) (ih hs.tail)

theorem times_itemsText {items : List Item} {blanks : List Char} (hs : Separated items)
    (hb : ∀ c ∈ blanks, Text.isBlank c = true) (line : String) (offset : Nat) :
    Cursor.times line ⟨offset, itemsText items ++ blanks⟩ = .ok (items.map Item.time) := by
  rw [itemsText_eq]
  refine times_eq_ok_iff.2 ⟨_, blanks, rfl, hs.precede hb, ?_, hb, ?_⟩
  · exact List.forall_mem_map.2 fun i _ => i.inRange_token
  · rw [List.map_map, List.map_map]
    exact List.map_congr_left fun i _ => i.millis_token.symm

def front (line : String) : List Char := line.toList.takeWhile isBeforeEquals

theorem isBeforeEquals_of_not_mem {before : List Char} (h : '=' ∉ before) :
    ∀ c ∈ before, isBeforeEquals c = true := by
  intro c hc
  rw [isBeforeEquals, bne_iff_ne]
  rintro rfl
  exact h hc

theorem front_append {line : String} {before text : List Char} (hl : line.toList = before ++ '=' :: text)
    (hbefore : '=' ∉ before) : front line = before := by
  rw [front, hl, List.takeWhile_append_of_pos (isBeforeEquals_of_not_mem hbefore),
    List.takeWhile_cons_of_neg (by decide), List.append_nil]

theorem dropWhile_isBeforeEquals {line : String} {before text : List Char} (hl : line.toList = before ++ '=' :: text)
    (hbefore : '=' ∉ before) : line.toList.dropWhile isBeforeEquals = '=' :: text := by
  rw [hl, List.dropWhile_append_of_pos (isBeforeEquals_of_not_mem hbefore), List.dropWhile_cons_of_neg (by decide)]

theorem not_mem_front (line : String) : '=' ∉ front line :=
  fun hfront => absurd (List.mem_takeWhile_imp hfront) (by decide)

theorem parse_of_toList {line : String} {before text : List Char} (hl : line.toList = before ++ '=' :: text)
    (hbefore : '=' ∉ before) :
    parse line = do
      let digest ← Digest.ofHex (String.ofList (Text.trim before))
      let times ← Cursor.times line ⟨Text.byteLength before + 1, text⟩
      return (digest, times) := by
  have htake : line.toList.takeWhile isBeforeEquals = before := front_append hl hbefore
  simp only [parse, htake, dropWhile_isBeforeEquals hl hbefore]

theorem parse_of_not_mem {line : String} (h : '=' ∉ line.toList) : parse line = .error (.entryWithoutEquals line) := by
  have hdrop : line.toList.dropWhile isBeforeEquals = [] := List.dropWhile_eq_nil_iff.2 (isBeforeEquals_of_not_mem h)
  simp only [parse, hdrop]

theorem parse_of_times {line : String} {before text : List Char} {d : Digest} {times : List Timestamp}
    (hl : line.toList = before ++ '=' :: text) (hbefore : '=' ∉ before) (hd : d.IsSpelling (Text.trim before))
    (htimes : ∀ offset, Cursor.times line ⟨offset, text⟩ = .ok times) : parse line = .ok (d, times) := by
  rw [parse_of_toList hl hbefore, Digest.ofHex_eq_ok_iff.2 hd]
  simp only [bind, Except.bind, htimes]
  rfl

inductive Parsed (line : String) : Except Failure (Digest × List Timestamp) → Prop where
  | withoutEquals (h : '=' ∉ line.toList) : Parsed line (.error (.entryWithoutEquals line))
  | withoutDigest {text : List Char} {f : Failure} (hl : line.toList = front line ++ '=' :: text)
      (hd : Digest.ofHex (String.ofList (Text.trim (front line))) = .error f) : Parsed line (.error f)
  | malformed {text : List Char} {d : Digest} {f : Failure} (hl : line.toList = front line ++ '=' :: text)
      (hd : d.IsSpelling (Text.trim (front line)))
      (ht : Cursor.times line ⟨Text.byteLength (front line) + 1, text⟩ = .error f) : Parsed line (.error f)
  | entry {text : List Char} {d : Digest} {times : List Timestamp} (hl : line.toList = front line ++ '=' :: text)
      (hd : d.IsSpelling (Text.trim (front line)))
      (ht : Cursor.times line ⟨Text.byteLength (front line) + 1, text⟩ = .ok times) :
      Parsed line (.ok (d, times))

theorem parsed_parse (line : String) : Parsed line (parse line) := by
  by_cases hmem : '=' ∈ line.toList
  · obtain ⟨before, text, hl, hbefore⟩ := List.eq_append_cons_of_mem hmem
    have hparse := parse_of_toList hl hbefore
    obtain rfl : front line = before := front_append hl hbefore
    cases hd : Digest.ofHex (String.ofList (Text.trim (front line))) with
    | error f =>
      rw [hd] at hparse
      rw [hparse]
      exact .withoutDigest hl hd
    | ok d =>
      cases ht : Cursor.times line ⟨Text.byteLength (front line) + 1, text⟩ with
      | error f =>
        rw [hd, ht] at hparse
        rw [hparse]
        exact .malformed hl (Digest.ofHex_eq_ok_iff.1 hd) ht
      | ok times =>
        rw [hd, ht] at hparse
        rw [hparse]
        exact .entry hl (Digest.ofHex_eq_ok_iff.1 hd) ht
  · rw [parse_of_not_mem hmem]
    exact .withoutEquals hmem

theorem parse_of_layout {line : String} {d : Digest} {front hex back blanks : List Char} {items : List Item}
    (hl : line.toList = front ++ hex ++ back ++ '=' :: (itemsText items ++ blanks))
    (hfront : ∀ c ∈ front, Text.isBlank c = true) (hback : ∀ c ∈ back, Text.isBlank c = true)
    (hhex : d.IsSpelling hex) (hs : Separated items) (hb : ∀ c ∈ blanks, Text.isBlank c = true) :
    parse line = .ok (d, items.map Item.time) := by
  have hequals : Text.isBlank '=' = false := by decide
  have hnot : '=' ∉ front ++ hex ++ back := by
    simp only [List.mem_append, not_or]
    refine ⟨⟨fun h => ?_, hhex.not_mem (by decide)⟩, fun h => ?_⟩
    · rw [hfront _ h] at hequals
      cases hequals
    · rw [hback _ h] at hequals
      cases hequals
  have htrim : Text.trim (front ++ hex ++ back) = hex :=
    Text.trim_append hfront hback (fun c hc => hhex.isBlank_of_mem (List.mem_of_mem_head? hc))
      (fun c hc => hhex.isBlank_of_mem (List.mem_of_mem_getLast? hc))
  exact parse_of_times hl hnot (htrim.symm ▸ hhex) (times_itemsText hs hb line)

structure Layout where
  front : List Char := []
  hex : List Char
  back : List Char := []
  items : List Item
  blanks : List Char := []
  digest : Digest
  isBlank_front : ∀ c ∈ front, Text.isBlank c = true := by simp
  isSpelling_hex : digest.IsSpelling hex
  isBlank_back : ∀ c ∈ back, Text.isBlank c = true := by simp
  separated_items : Separated items
  isBlank_blanks : ∀ c ∈ blanks, Text.isBlank c = true := by simp

namespace Layout

def line (l : Layout) : String :=
  String.ofList (l.front ++ l.hex ++ l.back ++ '=' :: (itemsText l.items ++ l.blanks))

def entry (l : Layout) : Digest × List Timestamp := (l.digest, l.items.map Item.time)

theorem parse_line (l : Layout) : parse l.line = .ok l.entry :=
  parse_of_layout String.toList_ofList l.isBlank_front l.isBlank_back l.isSpelling_hex l.separated_items
    l.isBlank_blanks

/-- Reading undoes every layout, so no line is a layout of two entries. -/
theorem parse_undoes_line :
    (∀ l : Layout, parse l.line = .ok l.entry) ∧ ∀ l m : Layout, l.line = m.line → l.entry = m.entry := by
  refine ⟨parse_line, fun l m h => ?_⟩
  have hread := l.parse_line
  rw [h, m.parse_line] at hread
  exact (Except.ok.inj hread).symm

def crowded : Layout where
  front := [' ', '\u2003']
  hex := "cdCDcdCDcdCDcdCDcdCDcdCDcdCDcdCD".toList
  back := ['\t']
  items :=
    [{ blanks := ['\u00a0'], time := ⟨3723004, by decide⟩, tag := some "=(2:00 é".toList,
        isBlank_blanks := List.all_eq_true.1 (by decide), not_mem_tag := by decide },
      { time := ⟨65000, by decide⟩, isBlank_blanks := Text.isBlank_of_mem_nil, not_mem_tag := not_mem_untagged },
      { blanks := ['\u3000', ' '], time := ⟨5500, by decide⟩, isBlank_blanks := List.all_eq_true.1 (by decide),
        not_mem_tag := not_mem_untagged }]
  blanks := ['\x0c']
  digest := ⟨List.replicate 16 0xCD, rfl⟩
  isBlank_front := List.all_eq_true.1 (by decide)
  isSpelling_hex := by rw [Digest.IsSpelling]; decide
  isBlank_back := List.all_eq_true.1 (by decide)
  separated_items := .cons_cons nofun (.cons_cons (fun _ => by decide) (.singleton _))
  isBlank_blanks := List.all_eq_true.1 (by decide)

theorem parse_undoes_line_crowded :
    crowded.line =
        " \u2003cdCDcdCDcdCDcdCDcdCDcdCDcdCDcdCD\t=\u00a062:03.004(=(2:00 é)1:05\u3000 0:05.500\x0c" ∧
      parse crowded.line =
        .ok (⟨List.replicate 16 0xCD, rfl⟩, [⟨3723004, by decide⟩, ⟨65000, by decide⟩, ⟨5500, by decide⟩]) :=
  ⟨by decide, parse_undoes_line.1 crowded⟩

end Layout

end SidCatalog.SongLengths.Entry
