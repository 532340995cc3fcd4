import SidCatalog.Proofs.Path.Separators
import SidCatalog.Proofs.SongLengths.Recognition

/-! Song length lists as they are published: a heading, and for each tune the comment with its path and the entry
with its digest and times. Each of these lines is taken for what it is: a comment names its path and is no entry,
an entry is parsed to its tune and names no path, and the heading is neither. -/

namespace SidCatalog.SongLengths

open TextFile

/-- The paths that stand in a list: they start at the root, keep to one line and to one kind of separator, and
have no blank at the end. -/
structure IsListed (path : String) : Prop where
  head?_eq : path.toList.head? = some '/'
  backslash_not_mem : '\\' ∉ path.toList
  newline_not_mem : '\n' ∉ path.toList
  isBlank_getLast? : ∀ c ∈ path.toList.getLast?, Text.isBlank c = false

structure TaggedTime where
  time : Timestamp
  tag : Option String := none
  not_mem_tag : ∀ text ∈ tag, ')' ∉ text.toList ∧ '\n' ∉ text.toList := by simp

namespace TaggedTime

def untagged (time : Timestamp) : TaggedTime := { time }

def text (t : TaggedTime) : String :=
  match t.tag with
  | some tag => t.time.render ++ "(" ++ tag ++ ")"
  | none => t.time.render

def item (blanks : List Char) (hb : ∀ c ∈ blanks, Text.isBlank c = true) (t : TaggedTime) : Entry.Item where
  blanks := blanks
  time := t.time
  tag := t.tag.map String.toList
  isBlank_blanks := hb
  not_mem_tag := by
    intro text h
    obtain ⟨tag, htag, rfl⟩ := Option.map_eq_some_iff.1 h
    exact (t.not_mem_tag tag htag).1

end TaggedTime

structure Listed where
  path : String
  digest : Digest
  times : List TaggedTime
  isListed : IsListed path

namespace Listed

def commentLine (r : Listed) : String := "; " ++ r.path

def entryLine (r : Listed) : String := r.digest.toHex ++ "=" ++ " ".intercalate (r.times.map TaggedTime.text)

def lines (r : Listed) : List String := [r.commentLine, r.entryLine]

def result (r : Listed) : SongLengths := ⟨r.digest, some r.path, r.times.map TaggedTime.time⟩

end Listed

def heading : String := "[Database]"

def listing (records : List Listed) : List String := heading :: records.flatMap Listed.lines

namespace TaggedTime

def items : List TaggedTime → List Entry.Item
  | [] => []
  | t :: more => t.item [] (by simp) :: more.map (item [' '] Text.isBlank_of_mem_space)

theorem text_item {blanks : List Char} {hb : ∀ c ∈ blanks, Text.isBlank c = true} (t : TaggedTime) :
    (t.item blanks hb).text = blanks ++ t.text.toList := by
  obtain ⟨time, tag, htag⟩ := t
  cases tag <;> simp [text, item, Entry.Item.text, Entry.tagText]

theorem itemsText_items (times : List TaggedTime) :
    Entry.itemsText (items times) = (" ".intercalate (times.map text)).toList := by
  cases times with
  | nil => rfl
  | cons t more =>
    rw [items, Entry.itemsText, List.flatMap_cons, text_item, List.nil_append, String.toList_intercalate]
    induction more generalizing t with
    | nil => simp
    | cons u more ih =>
      have hnext := ih u
      simp only [List.map_cons] at hnext ⊢
      rw [List.flatMap_cons, text_item, List.append_assoc, hnext, List.intercalate_cons_cons]
      simp

theorem separated_items (times : List TaggedTime) : Entry.Separated (items times) := by
  cases times with
  | nil => exact .nil
  | cons t more =>
    -- Any item may stand first: the spaces keep the others apart.
    have hchain : ∀ first, Entry.Separated (first :: more.map (item [' '] Text.isBlank_of_mem_space)) := by
      induction more with
      | nil => exact fun first => .singleton first
      | cons u more ih =>
        exact fun first => List.isChain_cons_cons.2 ⟨fun _ => List.cons_ne_nil _ _, ih _⟩
    exact hchain _

theorem map_time_items (times : List TaggedTime) :
    (items times).map Entry.Item.time = times.map TaggedTime.time := by
  cases times with
  | nil => rfl
  | cons t more => simp [items, item]

theorem newline_not_mem_text (t : TaggedTime) : '\n' ∉ t.text.toList := by
  have hrender : '\n' ∉ t.time.render.toList := by
    intro h
    rcases Timestamp.mem_render h with h | h | h <;> revert h <;> decide
  unfold text
  cases htag : t.tag with
  | none => exact hrender
  | some tag =>
    have hmem := (t.not_mem_tag tag htag).2
    simp [hrender, hmem]

theorem exists_getLast?_text (t : TaggedTime) : ∃ c, t.text.toList.getLast? = some c ∧ c ≠ '\r' := by
  unfold text
  cases t.tag with
  | none =>
    have hne : t.time.render.toList ≠ [] := by
      rw [Timestamp.toList_render]
      simp
    refine ⟨_, List.getLast?_eq_some_getLast hne, fun he => ?_⟩
    have hmem := List.getLast_mem hne
    rw [he] at hmem
    rcases Timestamp.mem_render hmem with h | h | h <;> revert h <;> decide
  | some tag =>
    refine ⟨')', ?_, by decide⟩
    rw [String.toList_append]
    exact List.getLast?_concat

theorem text_of_mem_items {times : List TaggedTime} {i : Entry.Item} (h : i ∈ items times) :
    ∃ t : TaggedTime, i.text = t.text.toList ∨ i.text = ' ' :: t.text.toList := by
  cases times with
  | nil => cases h
  | cons t more =>
    rcases List.mem_cons.1 h with rfl | h
    · exact ⟨t, .inl (text_item t)⟩
    · obtain ⟨u, -, rfl⟩ := List.mem_map.1 h
      exact ⟨u, .inr (text_item u)⟩

theorem newline_not_mem_itemsText (times : List TaggedTime) : '\n' ∉ Entry.itemsText (items times) := by
  intro h
  obtain ⟨i, hi, hmem⟩ := List.mem_flatMap.1 h
  obtain ⟨t, ht | ht⟩ := text_of_mem_items hi
  · exact t.newline_not_mem_text (ht ▸ hmem)
  · rw [ht, List.mem_cons] at hmem
    exact t.newline_not_mem_text (hmem.resolve_left (by decide))

theorem getLast?_itemsText_ne (times : List TaggedTime) :
    (Entry.itemsText (items times)).getLast? ≠ some '\r' := by
  rcases List.eq_nil_or_concat' (items times) with hnil | ⟨front, i, hfront⟩
  · rw [hnil]
    exact nofun
  · have hi : i ∈ items times := by simp [hfront]
    obtain ⟨t, ht⟩ := text_of_mem_items hi
    obtain ⟨c, hc, hne⟩ := t.exists_getLast?_text
    have hlast : i.text.getLast? = some c := by
      rcases ht with ht | ht
      · rw [ht, hc]
      · rw [ht, List.getLast?_cons, hc]
        rfl
    rw [hfront, Entry.itemsText, List.flatMap_append, List.flatMap_singleton, List.getLast?_append, hlast]
    exact fun he => hne (Option.some.inj he)

end TaggedTime

namespace Entry

theorem commentPath?_of_head? {line : String} (h : line.toList.head? ≠ some ';') : commentPath? line = none := by
  unfold commentPath?
  split
  · next hl =>
    rw [hl] at h
    exact absurd rfl h
  · rfl

theorem isFor_of_head? {line : String} {c : Char} (h : line.toList.head? = some c)
    (hc : Hex.digitValue? c = none) (d : Digest) : isFor d line = false := by
  rw [Bool.eq_false_iff]
  intro hfor
  obtain ⟨before, text, hcut, hspelling⟩ := isFor_iff_cut?.1 hfor
  obtain ⟨hl, -⟩ := Text.append_of_cut? hcut
  rw [hl] at h
  exact hspelling.head?_append_ne hc _ h

end Entry

theorem IsListed.listedPath_eq {path : String} (h : IsListed path) : listedPath path = path := by
  rw [listedPath, Path.normalize_eq_self h.backslash_not_mem, Path.absolute_eq_self h.head?_eq]

theorem getLast?_cons_ne {c d : Char} {cs : List Char} (hc : c ≠ d) (hcs : cs.getLast? ≠ some d) :
    (c :: cs).getLast? ≠ some d := by
  rw [List.getLast?_cons]
  cases hlast : cs.getLast? with
  | none => exact fun h => hc (Option.some.inj h)
  | some last =>
    rw [hlast] at hcs
    exact hcs

namespace Listed

variable (r : Listed)

theorem toList_commentLine : r.commentLine.toList = ';' :: ' ' :: r.path.toList := by
  rw [commentLine, String.toList_append]
  rfl

theorem commentPath?_commentLine : Entry.commentPath? r.commentLine = some r.path := by
  have htrim : Text.trim (' ' :: r.path.toList) = r.path.toList := by
    have hhead : ∀ c ∈ r.path.toList.head?, Text.isBlank c = false := by
      intro c hc
      obtain rfl : '/' = c := Option.some.inj (r.isListed.head?_eq.symm.trans hc)
      decide
    have htrim := @Text.trim_append [' '] r.path.toList [] Text.isBlank_of_mem_space (by simp) hhead
      r.isListed.isBlank_getLast?
    rwa [List.append_nil] at htrim
  simp only [Entry.commentPath?, toList_commentLine, htrim, String.ofList_toList]

theorem isFor_commentLine (d : Digest) : Entry.isFor d r.commentLine = false :=
  Entry.isFor_of_head? (by rw [toList_commentLine]; rfl) (by decide : Hex.digitValue? ';' = none) d

theorem toList_entryLine :
    r.entryLine.toList = Hex.encode r.digest.bytes ++ '=' :: Entry.itemsText (TaggedTime.items r.times) := by
  rw [entryLine, String.toList_append, String.toList_append, TaggedTime.itemsText_items, Digest.toHex,
    String.toList_ofList, List.append_assoc]
  rfl

theorem parse_entryLine : Entry.parse r.entryLine = .ok (r.digest, r.times.map TaggedTime.time) := by
  have hlayout : r.entryLine.toList = [] ++ Hex.encode r.digest.bytes ++ [] ++
      '=' :: (Entry.itemsText (TaggedTime.items r.times) ++ []) := by
    rw [toList_entryLine, List.nil_append, List.append_nil, List.append_nil]
  rw [Entry.parse_of_layout hlayout (by simp) (by simp) r.digest.isSpelling_encode
    (TaggedTime.separated_items r.times) (by simp), TaggedTime.map_time_items]

theorem head?_entryLine {c : Char} (hc : Hex.digitValue? c = none) : r.entryLine.toList.head? ≠ some c := by
  rw [toList_entryLine]
  exact r.digest.isSpelling_encode.head?_append_ne hc _

theorem commentPath?_entryLine : Entry.commentPath? r.entryLine = none :=
  Entry.commentPath?_of_head? (r.head?_entryLine (by decide))

theorem isFor_entryLine {d : Digest} : Entry.isFor d r.entryLine = true ↔ r.digest = d := by
  have hspelling := r.digest.isSpelling_encode
  have hcut : Text.cut? 32 r.entryLine.toList =
      some (Hex.encode r.digest.bytes, '=' :: Entry.itemsText (TaggedTime.items r.times)) := by
    rw [toList_entryLine, ← hspelling.byteLength_eq, Text.cut?_append]
  rw [Entry.isFor_iff_cut?, hcut]
  constructor
  · rintro ⟨before, text, heq, hd⟩
    cases heq
    exact hspelling.unique hd
  · rintro rfl
    exact ⟨_, _, rfl, hspelling⟩

theorem isLine_commentLine : IsLine r.commentLine where
  ne_empty := by
    intro h
    have hl := r.toList_commentLine
    rw [h] at hl
    cases hl
  not_mem := by
    rw [toList_commentLine]
    simp [r.isListed.newline_not_mem]
  getLast?_ne := by
    have hpath : r.path.toList.getLast? ≠ some '\r' := by
      intro h
      have hblank := r.isListed.isBlank_getLast? '\r' h
      revert hblank
      decide
    rw [toList_commentLine]
    exact getLast?_cons_ne (by decide) (getLast?_cons_ne (by decide) hpath)

theorem isLine_entryLine : IsLine r.entryLine where
  ne_empty := by
    intro h
    have hl := r.toList_entryLine
    rw [h] at hl
    exact List.append_ne_nil_of_right_ne_nil _ (List.cons_ne_nil _ _) hl.symm
  not_mem := by
    have hhex := r.digest.isSpelling_encode.not_mem (by decide : Hex.digitValue? '\n' = none)
    have htimes := TaggedTime.newline_not_mem_itemsText r.times
    rw [toList_entryLine]
    simp [hhex, htimes]
  getLast?_ne := by
    have htimes := TaggedTime.getLast?_itemsText_ne r.times
    rw [toList_entryLine, List.getLast?_append_of_ne_nil _ (List.cons_ne_nil _ _)]
    exact getLast?_cons_ne (by decide) htimes

end Listed

theorem mem_listing {records : List Listed} {line : String} :
    line ∈ listing records ↔ line = heading ∨ ∃ r ∈ records, line = r.commentLine ∨ line = r.entryLine := by
  simp [listing, Listed.lines]

theorem listing_append_cons (before after : List Listed) (r : Listed) :
    listing (before ++ r :: after) =
      listing before ++ r.commentLine :: r.entryLine :: after.flatMap Listed.lines := by
  simp [listing, Listed.lines]

theorem isLine_of_mem_listing {records : List Listed} {line : String} (h : line ∈ listing records) :
    IsLine line := by
  rcases mem_listing.1 h with rfl | ⟨r, -, rfl | rfl⟩
  · exact ⟨by decide, by decide, by decide⟩
  · exact r.isLine_commentLine
  · exact r.isLine_entryLine

theorem lineTexts_listing (newline : Newline) (closed : Bool) (records : List Listed) :
    lineTexts (Text.bytes (fileText newline closed (listing records))) = listing records :=
  lineTexts_fileText fun _ hline => isLine_of_mem_listing hline

theorem isFor_listing {records : List Listed} {d : Digest} (hd : ∀ r ∈ records, r.digest ≠ d) :
    ∀ line ∈ listing records, Entry.isFor d line = false := by
  intro line hline
  rcases mem_listing.1 hline with rfl | ⟨r, hr, rfl | rfl⟩
  · exact Entry.isFor_of_head? (by rfl : heading.toList.head? = some '[') (by decide) d
  · exact r.isFor_commentLine d
  · rw [Bool.eq_false_iff]
    exact fun h => hd r hr (r.isFor_entryLine.1 h)

theorem commentPath?_listing {records : List Listed} {path : String} (hpath : ∀ r ∈ records, r.path ≠ path) :
    ∀ line ∈ listing records, Entry.commentPath? line ≠ some path := by
  intro line hline
  rcases mem_listing.1 hline with rfl | ⟨r, hr, rfl | rfl⟩
  · rw [Entry.commentPath?_of_head? (by decide)]
    exact nofun
  · rw [r.commentPath?_commentLine]
    exact fun h => hpath r hr (Option.some.inj h)
  · rw [r.commentPath?_entryLine]
    exact nofun

end SidCatalog.SongLengths
