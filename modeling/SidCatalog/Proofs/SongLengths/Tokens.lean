import SidCatalog.Proofs.Text.Blanks
import SidCatalog.Proofs.Timestamp.Acceptance
import SidCatalog.SongLengths.Entry

/-! The times of an entry as they stand in its text. Reading takes them off the front one by one, each with the text
behind it in view: digits that go on belong to the time, and so does a parenthesis that opens. A text that is cut
anywhere behind a time leaves the time as it was. -/

namespace SidCatalog.SongLengths.Entry

structure Token where
  blanks : List Char := []
  form : Timestamp.Form
  tag : Option (List Char) := none
  isBlank_blanks : ∀ c ∈ blanks, Text.isBlank c = true
  isDigit_minutes : ∀ c ∈ form.minutes, c.isDigit = true := by simp
  isDigit_seconds : ∀ c ∈ form.seconds, c.isDigit = true := by simp
  isDigit_fraction : ∀ c ∈ form.fraction, c.isDigit = true := by simp
  length_fraction_le : form.fraction.length ≤ 3 := by simp
  not_mem_tag : ∀ text ∈ tag, ')' ∉ text

theorem not_mem_untagged : ∀ text ∈ (none : Option (List Char)), ')' ∉ text := fun _ h => nomatch h

def tagText : Option (List Char) → List Char
  | some text => '(' :: (text ++ [')'])
  | none => []

namespace Token

def text (t : Token) : List Char := t.blanks ++ (t.form.text ++ tagText t.tag)

def millis (t : Token) : Nat := t.form.millis

structure InRange (t : Token) : Prop where
  seconds_lt : Text.decimalValue t.form.seconds < 60
  millis_lt : t.millis < Timestamp.limit

def time (t : Token) (h : t.InRange) : Timestamp := ⟨t.millis, h.millis_lt⟩

/-- What may come behind the time without being taken for a part of it. Behind an attribute that is anything. -/
def CanFollow (t : Token) (rest : List Char) : Prop :=
  t.tag = none → ∀ c ∈ rest.head?,
    c ≠ '(' ∧ (t.form.fraction.length < 3 → c.isDigit = false) ∧ (t.form.fraction = [] → c ≠ '.')

variable {t : Token} {front back rest : List Char}

theorem CanFollow.cut (h : t.CanFollow (front ++ back)) : t.CanFollow front := by
  intro htag c hc
  obtain ⟨more, rfl⟩ := List.head?_eq_some_iff.1 hc
  exact h htag c rfl

theorem canFollow_of_isBlank (h : t.tag = none → ∀ c ∈ rest.head?, Text.isBlank c = true) : t.CanFollow rest := by
  intro htag c hc
  have hblank := h htag c hc
  have hne {d : Char} (hd : Text.isBlank d = false) : c ≠ d := by
    rintro rfl
    cases hd.symm.trans hblank
  refine ⟨hne (by decide), fun _ => ?_, fun _ => hne (by decide)⟩
  by_contra hdigit
  exact hne (Text.isBlank_of_isDigit (by simpa using hdigit)) rfl

theorem CanFollow.head?_tagText (h : t.CanFollow rest) :
    ∀ c ∈ (tagText t.tag ++ rest).head?,
      (t.form.fraction.length < 3 → c.isDigit = false) ∧ (t.form.fraction = [] → c ≠ '.') := by
  intro c hc
  cases htag : t.tag with
  | none =>
    rw [htag] at hc
    exact (h htag c hc).2
  | some text =>
    rw [htag] at hc
    cases hc
    exact ⟨fun _ => rfl, fun _ => by decide⟩

theorem CanFollow.begins (h : t.CanFollow rest) :
    t.form.Begins (t.form.text ++ (tagText t.tag ++ rest)) (tagText t.tag ++ rest) where
  text_eq := rfl
  minutes := ⟨t.isDigit_minutes, by intro c hc; cases hc; rfl⟩
  seconds := by
    refine ⟨t.isDigit_seconds, fun c hc => ?_⟩
    by_cases hnone : t.form.fraction = []
    · rw [hnone, Timestamp.pointed, if_pos rfl, List.nil_append] at hc
      exact (h.head?_tagText c hc).1 (by simp [hnone])
    · rw [Timestamp.pointed, if_neg hnone] at hc
      cases hc
      rfl
  fraction := by
    by_cases hnone : t.form.fraction = []
    · rw [hnone]
      exact .absent fun hc => (h.head?_tagText '.' hc).2 hnone rfl
    · exact .written hnone t.length_fraction_le t.isDigit_fraction fun hlt c hc => (h.head?_tagText c hc).1 hlt

theorem canFollow_iff :
    t.CanFollow rest ↔
      t.form.Begins (t.form.text ++ (tagText t.tag ++ rest)) (tagText t.tag ++ rest) ∧
        (t.tag = none → rest.head? ≠ some '(') := by
  constructor
  · exact fun h => ⟨h.begins, fun htag hopen => (h htag '(' hopen).1 rfl⟩
  · rintro ⟨hf, hopen⟩ htag c hc
    have hdigit := hf.isDigit_head?
    have hpoint := hf.fraction.head?_pointed
    rw [htag, tagText, List.nil_append] at hdigit hpoint
    refine ⟨fun h => hopen htag (h ▸ hc), fun hlt => hdigit hlt c hc, fun hnone h => ?_⟩
    rw [hnone, Timestamp.pointed, if_pos rfl, List.nil_append] at hpoint
    exact hpoint.1 (h ▸ hc) rfl

theorem head?_form_text (t : Token) (rest : List Char) :
    ∀ c ∈ (t.form.text ++ rest).head?, c = ':' ∨ c.isDigit = true := by
  intro c hc
  rw [t.form.text_append] at hc
  cases hminutes : t.form.minutes with
  | nil =>
    rw [hminutes] at hc
    exact .inl (Option.some.inj hc).symm
  | cons d digits =>
    rw [hminutes] at hc
    cases hc
    exact .inr (t.isDigit_minutes _ (hminutes ▸ List.mem_cons_self ..))

theorem isBlank_head?_form_text (t : Token) (rest : List Char) :
    ∀ c ∈ (t.form.text ++ rest).head?, Text.isBlank c = false := by
  intro c hc
  rcases t.head?_form_text rest c hc with rfl | hdigit
  · decide
  · exact Text.isBlank_of_isDigit hdigit

theorem form_text_ne_nil (t : Token) (rest : List Char) : t.form.text ++ rest ≠ [] := by
  rw [t.form.text_append]
  simp

end Token

section Attribute

variable {tag : Option (List Char)} {text rest : List Char}

theorem isInAttribute_of_not_mem (h : ')' ∉ text) : ∀ c ∈ text, Cursor.isInAttribute c = true := by
  intro c hc
  rw [Cursor.isInAttribute, bne_iff_ne]
  rintro rfl
  exact h hc

theorem split_tagText (h : ')' ∉ text) (rest : List Char) :
    (tagText (some text) ++ rest).takeWhile Cursor.isInAttribute = '(' :: text ∧
      (tagText (some text) ++ rest).dropWhile Cursor.isInAttribute = ')' :: rest := by
  have hin : ∀ c ∈ '(' :: text, Cursor.isInAttribute c = true :=
    List.forall_mem_cons.2 ⟨by decide, isInAttribute_of_not_mem h⟩
  have happ : tagText (some text) ++ rest = ('(' :: text) ++ ')' :: rest := by simp [tagText]
  rw [happ, List.takeWhile_append_of_pos hin, List.dropWhile_append_of_pos hin]
  simp [Cursor.isInAttribute]

theorem byteLength_tagText (text : List Char) :
    Text.byteLength (tagText (some text)) = Text.byteLength ('(' :: text) + 1 := by
  simp only [tagText, Text.byteLength_cons, Text.byteLength_append, Text.byteLength_nil]
  rfl

theorem tagText_append_inj {tag' : Option (List Char)} {rest' : List Char} (htag : ∀ text ∈ tag, ')' ∉ text)
    (htag' : ∀ text ∈ tag', ')' ∉ text) (hopen : tag = none → rest.head? ≠ some '(')
    (hopen' : tag' = none → rest'.head? ≠ some '(') (h : tagText tag ++ rest = tagText tag' ++ rest') :
    tag = tag' ∧ rest = rest' := by
  cases tag with
  | none =>
    cases tag' with
    | none => exact ⟨rfl, h⟩
    | some text' => exact absurd (congrArg List.head? h) (hopen rfl)
  | some text =>
    cases tag' with
    | none => exact absurd (congrArg List.head? h).symm (hopen' rfl)
    | some text' =>
      obtain ⟨htake, hdrop⟩ := split_tagText (htag text rfl) rest
      obtain ⟨htake', hdrop'⟩ := split_tagText (htag' text' rfl) rest'
      rw [h, htake'] at htake
      rw [h, hdrop'] at hdrop
      exact ⟨congrArg some (List.cons.inj htake).2.symm, (List.cons.inj hdrop).2.symm⟩

theorem Cursor.skipAttribute?_append (htag : ∀ text ∈ tag, ')' ∉ text)
    (hopen : tag = none → rest.head? ≠ some '(') (offset : Nat) :
    skipAttribute? ⟨offset, tagText tag ++ rest⟩ = some ⟨offset + Text.byteLength (tagText tag), rest⟩ := by
  cases tag with
  | none =>
    rw [tagText, List.nil_append, skipAttribute?, if_neg (hopen rfl)]
    rfl
  | some text =>
    obtain ⟨htake, hdrop⟩ := split_tagText (htag text rfl) rest
    simp only [skipAttribute?, hdrop, htake, byteLength_tagText]
    rfl

theorem eq_append_of_dropWhile_isInAttribute {close : Char} (h : text.dropWhile Cursor.isInAttribute = close :: rest) :
    text = text.takeWhile Cursor.isInAttribute ++ ')' :: rest := by
  have hclose : close = ')' := by
    have hnot := List.head?_dropWhile_not Cursor.isInAttribute text
    rw [h] at hnot
    simpa [Cursor.isInAttribute] using hnot
  rw [← hclose, ← h, List.takeWhile_append_dropWhile]

theorem Cursor.exists_tag_of_skipAttribute? {c after : Cursor} (h : c.skipAttribute? = some after) :
    ∃ tag, (∀ text ∈ tag, ')' ∉ text) ∧ (tag = none → after.rest.head? ≠ some '(') ∧
      c.rest = tagText tag ++ after.rest := by
  unfold skipAttribute? at h
  split at h
  · next hopen =>
    split at h
    · next close rest hdrop =>
      cases h
      obtain ⟨more, hmore⟩ := List.head?_eq_some_iff.1 hopen
      have htake : c.rest.takeWhile isInAttribute = '(' :: more.takeWhile isInAttribute := by
        rw [hmore, List.takeWhile_cons_of_pos (by decide)]
      refine ⟨some (more.takeWhile isInAttribute), ?_, nofun, ?_⟩
      · rintro text ⟨⟩ hmem
        exact absurd (List.mem_takeWhile_imp hmem) (by decide)
      · rw [eq_append_of_dropWhile_isInAttribute hdrop, htake]
        simp [tagText]
    · cases h
  · next hopen =>
    cases h
    exact ⟨none, nofun, fun _ => hopen, rfl⟩

end Attribute

namespace Cursor

variable {line : String} {t : Token} {rest : List Char}

theorem skipBlanks_append (t : Token) (rest : List Char) (offset : Nat) :
    skipBlanks ⟨offset, t.text ++ rest⟩ =
      ⟨offset + Text.byteLength t.blanks, t.form.text ++ (tagText t.tag ++ rest)⟩ := by
  have hhead := t.isBlank_head?_form_text (tagText t.tag ++ rest)
  rw [Token.text, List.append_assoc, List.append_assoc, skipBlanks]
  simp only [Text.dropWhile_isBlank_append t.isBlank_blanks hhead, Text.takeWhile_isBlank_append t.isBlank_blanks hhead]

theorem next_append (h : t.CanFollow rest) (hr : t.InRange) (offset : Nat) :
    next line ⟨offset, t.text ++ rest⟩ =
      .ok (some (t.time hr, ⟨offset + Text.byteLength t.text, rest⟩)) := by
  obtain ⟨hf, hopen⟩ := Token.canFollow_iff.1 h
  have hread (start : Nat) : readTime ⟨start, t.form.text ++ (tagText t.tag ++ rest)⟩ =
      .ok (t.time hr, ⟨start + t.form.text.length, tagText t.tag ++ rest⟩) := by
    rw [readTime, Timestamp.scan_of_begins hf hr.seconds_lt hr.millis_lt]
    rfl
  have hlength : Text.byteLength t.text =
      Text.byteLength t.blanks + t.form.text.length + Text.byteLength (tagText t.tag) := by
    rw [Token.text, Text.byteLength_append, Text.byteLength_append, hf.byteLength_text, Nat.add_assoc]
  rw [next, skipBlanks_append]
  simp only [if_neg (t.form_text_ne_nil _), hread, skipAttribute?_append t.not_mem_tag hopen, hlength,
    ← Nat.add_assoc]

theorem exists_token_of_next {c after : Cursor} {time : Timestamp} (h : c.next line = .ok (some (time, after))) :
    ∃ t : Token, t.InRange ∧ t.CanFollow after.rest ∧ c.rest = t.text ++ after.rest := by
  unfold next at h
  split at h
  · cases h
  split at h
  · cases h
  next _ stop hread =>
  split at h
  · next hskip =>
    cases h
    unfold readTime at hread
    split at hread
    · next hscan =>
      cases hread
      obtain ⟨f, hlimit, hf, hsixty, -⟩ := Timestamp.exists_form_of_scan hscan
      obtain ⟨tag, htag, hopen, hrest⟩ := exists_tag_of_skipAttribute? hskip
      dsimp only at hrest
      rw [hrest] at hf
      let t : Token :=
        { blanks := c.rest.takeWhile Text.isBlank
          form := f
          tag := tag
          isBlank_blanks := fun _ hc => List.mem_takeWhile_imp hc
          isDigit_minutes := hf.minutes.isDigit
          isDigit_seconds := hf.seconds.isDigit
          isDigit_fraction := hf.fraction.isDigit
          length_fraction_le := hf.fraction.length_le
          not_mem_tag := htag }
      have htext : c.skipBlanks.rest = f.text ++ (tagText tag ++ after.rest) := hf.text_eq
      refine ⟨t, ⟨hsixty, hlimit⟩, Token.canFollow_iff.2 ⟨htext ▸ hf, hopen⟩, ?_⟩
      rw [Token.text, List.append_assoc, List.append_assoc, ← htext]
      exact List.takeWhile_append_dropWhile.symm
    · cases hread
  · cases h

theorem next_of_blanks {blanks : List Char} (hb : ∀ c ∈ blanks, Text.isBlank c = true) {offset : Nat} :
    next line ⟨offset, blanks⟩ = .ok none := by
  have hrest : (skipBlanks ⟨offset, blanks⟩).rest = [] := List.dropWhile_eq_nil_iff.2 hb
  rw [next, if_pos hrest]

theorem isBlank_of_next {c : Cursor} (h : c.next line = .ok none) : ∀ d ∈ c.rest, Text.isBlank d = true := by
  unfold next at h
  split at h
  · next hrest => exact List.dropWhile_eq_nil_iff.1 hrest
  split at h
  · cases h
  split at h
  · cases h
  · cases h

theorem times_of_none {c : Cursor} (h : c.next line = .ok none) : c.times line = .ok [] := by
  rw [times, h]

theorem times_of_error {c : Cursor} {f : Failure} (h : c.next line = .error f) : c.times line = .error f := by
  rw [times, h]

theorem times_of_next {c after : Cursor} {time : Timestamp} (h : c.next line = .ok (some (time, after))) :
    c.times line = (after.times line).map (time :: ·) := by
  rw [times]
  split
  · next h' => cases h.symm.trans h'
  · next h' => cases h.symm.trans h'
  · next h' =>
    cases h.symm.trans h'
    rfl

end Cursor

theorem Token.unique {t u : Token} {rest rest' : List Char} (ht : t.CanFollow rest) (hu : u.CanFollow rest')
    (h : t.text ++ rest = u.text ++ rest') : t = u ∧ rest = rest' := by
  obtain ⟨hf, hopen⟩ := canFollow_iff.1 ht
  obtain ⟨hg, hopen'⟩ := canFollow_iff.1 hu
  rw [text, text, List.append_assoc, List.append_assoc, List.append_assoc, List.append_assoc] at h
  have hblanks : t.blanks = u.blanks := by
    rw [← Text.takeWhile_isBlank_append t.isBlank_blanks (t.isBlank_head?_form_text (tagText t.tag ++ rest)), h,
      Text.takeWhile_isBlank_append u.isBlank_blanks (u.isBlank_head?_form_text (tagText u.tag ++ rest'))]
  rw [hblanks, List.append_cancel_left_eq] at h
  rw [h] at hf
  obtain ⟨hform, hrest⟩ := hf.unique hg
  obtain ⟨htag, hrest'⟩ := tagText_append_inj t.not_mem_tag u.not_mem_tag hopen hopen' hrest
  cases t
  cases u
  cases hblanks
  cases hform
  cases htag
  exact ⟨rfl, hrest'⟩

def tokensText (tokens : List Token) : List Char := tokens.flatMap Token.text

theorem tokensText_cons (t : Token) (tokens : List Token) :
    tokensText (t :: tokens) = t.text ++ tokensText tokens :=
  List.flatMap_cons

/-- These times are read one after another in front of the rest. -/
inductive Precede : List Token → List Char → Prop where
  | nil (rest : List Char) : Precede [] rest
  | cons {t : Token} {tokens : List Token} {rest : List Char} (hfollow : t.CanFollow (tokensText tokens ++ rest))
      (hmore : Precede tokens rest) : Precede (t :: tokens) rest

section Row

variable {line : String} {text rest front back blanks : List Char} {tokens : List Token} {offset : Nat}
  {times times' : List Timestamp}

theorem precede_cons_iff {t : Token} :
    Precede (t :: tokens) rest ↔ t.CanFollow (tokensText tokens ++ rest) ∧ Precede tokens rest := by
  constructor
  · rintro ⟨⟩
    exact ⟨‹_›, ‹_›⟩
  · exact fun h => .cons h.1 h.2

theorem Precede.cut (h : Precede tokens (front ++ back)) : Precede tokens front := by
  induction tokens with
  | nil => exact .nil front
  | cons t tokens ih =>
    obtain ⟨hfollow, hmore⟩ := precede_cons_iff.1 h
    rw [← List.append_assoc] at hfollow
    exact .cons hfollow.cut (ih hmore)

theorem Precede.exists_times (h : Precede tokens rest) (hrange : ∀ t ∈ tokens, t.InRange) :
    ∃ times, times.map Timestamp.millis = tokens.map Token.millis ∧ ∀ line offset,
      Cursor.times line ⟨offset, tokensText tokens ++ rest⟩ =
        (Cursor.times line ⟨offset + Text.byteLength (tokensText tokens), rest⟩).map (times ++ ·) := by
  induction tokens with
  | nil =>
    refine ⟨[], rfl, fun line offset => ?_⟩
    cases h : Cursor.times line ⟨offset, rest⟩ <;> simp [tokensText, h, Except.map]
  | cons t tokens ih =>
    obtain ⟨hfollow, hmore⟩ := precede_cons_iff.1 h
    have ht : t.InRange := hrange t (List.mem_cons_self ..)
    obtain ⟨times, hmillis, htimes⟩ := ih hmore fun u hu => hrange u (List.mem_cons_of_mem _ hu)
    refine ⟨t.time ht :: times, by simp [hmillis, Token.time], fun line offset => ?_⟩
    rw [tokensText_cons, List.append_assoc, Cursor.times_of_next (Cursor.next_append hfollow ht offset), htimes,
      Text.byteLength_append, ← Nat.add_assoc]
    cases Cursor.times line ⟨offset + Text.byteLength t.text + Text.byteLength (tokensText tokens), rest⟩ <;> rfl

theorem Precede.exists_times_eq_ok (h : Precede tokens blanks) (hrange : ∀ t ∈ tokens, t.InRange)
    (hb : ∀ c ∈ blanks, Text.isBlank c = true) :
    ∃ times, times.map Timestamp.millis = tokens.map Token.millis ∧
      ∀ line offset, Cursor.times line ⟨offset, tokensText tokens ++ blanks⟩ = .ok times := by
  obtain ⟨times, hmillis, htimes⟩ := h.exists_times hrange
  refine ⟨times, hmillis, fun line offset => ?_⟩
  rw [htimes, Cursor.times_of_none (Cursor.next_of_blanks hb)]
  exact congrArg Except.ok (List.append_nil times)

theorem exists_precede (line : String) (c : Cursor) :
    ∃ tokens rest, c.rest = tokensText tokens ++ rest ∧ Precede tokens rest ∧ (∀ t ∈ tokens, t.InRange) ∧
      ((∀ d ∈ rest, Text.isBlank d = true) ∨ ∃ f, c.times line = .error f ∧
        Cursor.next line ⟨c.offset + Text.byteLength (tokensText tokens), rest⟩ = .error f) := by
  -- The loop stops at a refused time or at the end, and goes on behind any other time.
  induction c using Cursor.times.induct line with
  | case1 c f hnext => exact ⟨[], c.rest, rfl, .nil _, nofun, .inr ⟨f, Cursor.times_of_error hnext, hnext⟩⟩
  | case2 c hnext => exact ⟨[], c.rest, rfl, .nil _, nofun, .inl (Cursor.isBlank_of_next hnext)⟩
  | case3 c time after hnext ih =>
    obtain ⟨t, ht, hfollow, hrest⟩ := Cursor.exists_token_of_next hnext
    obtain ⟨tokens, rest, htext, hmore, hrange, hstop⟩ := ih
    have hafter : after.offset = c.offset + Text.byteLength t.text := by
      have hnext' := @Cursor.next_append line _ _ hfollow ht c.offset
      rw [← hrest, hnext] at hnext'
      exact congrArg (fun found => found.2.offset) (Option.some.inj (Except.ok.inj hnext'))
    refine ⟨t :: tokens, rest, ?_, .cons (htext ▸ hfollow) hmore, List.forall_mem_cons.2 ⟨ht, hrange⟩,
      hstop.imp_right ?_⟩
    · rw [hrest, htext, tokensText_cons, List.append_assoc]
    · rintro ⟨f, htimes, hrefused⟩
      refine ⟨f, by rw [Cursor.times_of_next hnext, htimes]; rfl, ?_⟩
      rwa [tokensText_cons, Text.byteLength_append, ← Nat.add_assoc, ← hafter]

theorem eq_of_map_millis (h : times.map Timestamp.millis = times'.map Timestamp.millis) : times = times' := by
  refine (List.map_inj_right ?_).1 h
  rintro ⟨_, _⟩ ⟨_, _⟩ ⟨⟩
  rfl

theorem times_eq_ok_iff :
    Cursor.times line ⟨offset, text⟩ = .ok times ↔
      ∃ tokens blanks, text = tokensText tokens ++ blanks ∧ Precede tokens blanks ∧ (∀ t ∈ tokens, t.InRange) ∧
        (∀ c ∈ blanks, Text.isBlank c = true) ∧ times.map Timestamp.millis = tokens.map Token.millis := by
  constructor
  · intro h
    obtain ⟨tokens, rest, htext, hrow, hrange, hblanks | ⟨f, hf, -⟩⟩ := exists_precede line ⟨offset, text⟩
    · obtain ⟨read, hmillis, htimes⟩ := hrow.exists_times_eq_ok hrange hblanks
      rw [show text = _ from htext, htimes] at h
      cases h
      exact ⟨tokens, rest, htext, hrow, hrange, hblanks, hmillis⟩
    · cases h.symm.trans hf
  · rintro ⟨tokens, blanks, rfl, hrow, hrange, hblanks, hmillis⟩
    obtain ⟨read, hmillis', htimes⟩ := hrow.exists_times_eq_ok hrange hblanks
    rw [htimes, eq_of_map_millis (hmillis.trans hmillis'.symm)]

theorem exists_precede_of_error {f : Failure} (h : Cursor.times line ⟨offset, text⟩ = .error f) :
    ∃ tokens rest, text = tokensText tokens ++ rest ∧ Precede tokens rest ∧ (∀ t ∈ tokens, t.InRange) ∧
      Cursor.next line ⟨offset + Text.byteLength (tokensText tokens), rest⟩ = .error f := by
  obtain ⟨tokens, rest, htext, hrow, hrange, hblanks | ⟨g, hg, hrefused⟩⟩ := exists_precede line ⟨offset, text⟩
  · obtain ⟨times, -, htimes⟩ := hrow.exists_times_eq_ok hrange hblanks
    rw [show text = _ from htext, htimes] at h
    cases h
  · cases h.symm.trans hg
    exact ⟨tokens, rest, htext, hrow, hrange, hrefused⟩

end Row

end SidCatalog.SongLengths.Entry
