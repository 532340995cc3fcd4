import SidCatalog.Proofs.SongLengths.Recognition

/-! Which lines are entries. The format has numbers on both sides of a colon and keeps each time from the next one by
a blank or by an attribute. Reading takes more than that: either number may have no digits, and a time may stand right
behind another one that cannot go on with its characters. A line has one reading only, so its times count as the
format means them where the reading has none of the two. -/

namespace SidCatalog.SongLengths.Entry

def timesText (line : String) : List Char := (line.toList.dropWhile isBeforeEquals).tail

def IsRow (text : List Char) (tokens : List Token) : Prop :=
  ∃ blanks, text = tokensText tokens ++ blanks ∧ ∀ c ∈ blanks, Text.isBlank c = true

structure Token.IsComplete (t : Token) : Prop where
  minutes_ne : t.form.minutes ≠ []
  seconds_ne : t.form.seconds ≠ []

/-- An attribute ends the first time, or a blank stands before the second one. -/
def Apart (t u : Token) : Prop := t.tag = none → u.blanks ≠ []

/-- Without an attribute or a blank, the second time starts with its colon, or all digits of the first one's fraction
are there. -/
def MayTouch (t u : Token) : Prop :=
  t.tag = none → u.blanks = [] → u.form.minutes = [] ∨ t.form.fraction.length = 3

structure IsDocumented (text : List Char) (tokens : List Token) : Prop where
  isRow : IsRow text tokens
  isComplete : ∀ t ∈ tokens, t.IsComplete
  apart : tokens.IsChain Apart

structure IsAccepted (line : String) (d : Digest) (tokens : List Token) : Prop where
  names : Names line d
  isRow : IsRow (timesText line) tokens
  mayTouch : tokens.IsChain MayTouch
  inRange : ∀ t ∈ tokens, t.InRange

theorem toList_eq_of_mem {line : String} (h : '=' ∈ line.toList) :
    line.toList = front line ++ '=' :: timesText line := by
  obtain ⟨before, text, hl, hbefore⟩ := List.eq_append_cons_of_mem h
  rw [front_append hl hbefore, timesText, dropWhile_isBeforeEquals hl hbefore, List.tail_cons, hl]

section Touch

variable {t u : Token} {tokens tokens' : List Token} {text rest blanks : List Char}

theorem MayTouch.canFollow (h : MayTouch t u) (rest : List Char) : t.CanFollow (u.text ++ rest) := by
  intro htag c hc
  cases hblanks : u.blanks with
  | cons b bs =>
    have hblank : ∀ d ∈ (u.text ++ rest).head?, Text.isBlank d = true := by
      rw [Token.text, hblanks]
      rintro d ⟨⟩
      exact u.isBlank_blanks _ (hblanks ▸ List.mem_cons_self ..)
    exact Token.canFollow_of_isBlank (fun _ => hblank) htag c hc
  | nil =>
    rw [Token.text, hblanks, List.nil_append, List.append_assoc] at hc
    rcases h htag hblanks with hminutes | hfraction
    · rw [u.form.text_append, hminutes] at hc
      cases hc
      exact ⟨by decide, fun _ => rfl, fun _ => by decide⟩
    · refine ⟨?_, fun hlt => ?_, fun hnil => ?_⟩
      · rintro rfl
        rcases u.head?_form_text _ _ hc with h | h <;> revert h <;> decide
      · omega
      · rw [hnil] at hfraction
        cases hfraction

theorem mayTouch_of_canFollow (h : t.CanFollow (u.text ++ rest)) : MayTouch t u := by
  intro htag hblanks
  cases hminutes : u.form.minutes with
  | nil => exact .inl rfl
  | cons d digits =>
    have hdigit : d.isDigit = true := u.isDigit_minutes d (hminutes ▸ List.mem_cons_self ..)
    have hhead : (u.text ++ rest).head? = some d := by
      rw [Token.text, hblanks, List.nil_append, List.append_assoc, u.form.text_append, hminutes]
      rfl
    refine .inr (Nat.le_antisymm t.length_fraction_le (Nat.le_of_not_lt fun hlt => ?_))
    cases hdigit.symm.trans ((h htag d hhead).2.1 hlt)

theorem Apart.mayTouch (h : Apart t u) : MayTouch t u := fun htag hblanks => absurd hblanks (h htag)

theorem precede_iff_mayTouch (hb : ∀ c ∈ blanks, Text.isBlank c = true) :
    Precede tokens blanks ↔ tokens.IsChain MayTouch := by
  induction tokens with
  | nil => exact iff_of_true (.nil blanks) .nil
  | cons t tokens ih =>
    rw [precede_cons_iff, ih]
    cases tokens with
    | nil =>
      refine iff_of_true ⟨?_, .nil⟩ (.singleton t)
      exact Token.canFollow_of_isBlank fun _ c hc => hb c (List.mem_of_mem_head? hc)
    | cons u tokens =>
      rw [List.isChain_cons_cons, tokensText_cons, List.append_assoc]
      exact and_congr_left fun _ => ⟨mayTouch_of_canFollow, fun h => h.canFollow _⟩

end Touch

section Reading

variable {line : String} {text : List Char} {d : Digest} {tokens items : List Token} {times : List Timestamp}

theorem ne_blanks (t : Token) (rest : List Char) {blanks : List Char} (hb : ∀ c ∈ blanks, Text.isBlank c = true) :
    blanks ≠ t.text ++ rest := by
  rintro rfl
  have hcolon : ':' ∈ t.text ++ rest := by simp [Token.text, Timestamp.Form.text]
  cases hb ':' hcolon

theorem IsRow.unique (htokens : IsRow text tokens) (htouch : tokens.IsChain MayTouch) (hitems : IsRow text items)
    (htouch' : items.IsChain MayTouch) : items = tokens := by
  obtain ⟨blanks, rfl, hb⟩ := htokens
  obtain ⟨blanks', htext, hb'⟩ := hitems
  rw [← precede_iff_mayTouch hb] at htouch
  rw [← precede_iff_mayTouch hb'] at htouch'
  induction tokens generalizing items with
  | nil =>
    cases items with
    | nil => rfl
    | cons u items =>
      rw [tokensText_cons, List.append_assoc] at htext
      exact absurd htext (ne_blanks u _ hb)
  | cons t tokens ih =>
    obtain ⟨hfollow, hmore⟩ := precede_cons_iff.1 htouch
    cases items with
    | nil =>
      rw [tokensText_cons, List.append_assoc] at htext
      exact absurd htext.symm (ne_blanks t _ hb')
    | cons u items =>
      obtain ⟨hfollow', hmore'⟩ := precede_cons_iff.1 htouch'
      rw [tokensText_cons, tokensText_cons, List.append_assoc, List.append_assoc] at htext
      -- Neither first time can go on with what stands behind it, so they end together.
      obtain ⟨rfl, hrest⟩ := Token.unique hfollow hfollow' htext
      rw [ih hmore hmore' hrest]

theorem isDocumented_iff (hrow : IsRow text tokens) (htouch : tokens.IsChain MayTouch) :
    IsDocumented text items ↔ items = tokens ∧ (∀ t ∈ tokens, t.IsComplete) ∧ tokens.IsChain Apart := by
  constructor
  · rintro ⟨hitems, hcomplete, hapart⟩
    obtain rfl := hrow.unique htouch hitems (hapart.imp fun _ _ => Apart.mayTouch)
    exact ⟨rfl, hcomplete, hapart⟩
  · rintro ⟨rfl, hcomplete, hapart⟩
    exact ⟨hrow, hcomplete, hapart⟩

theorem isAccepted_of_parse (h : parse line = .ok (d, times)) :
    ∃ tokens, IsAccepted line d tokens ∧ times.map Timestamp.millis = tokens.map Token.millis := by
  have hnames : Names line d := names_of_parse h
  have hparsed := parsed_parse line
  rw [h] at hparsed
  cases hparsed with
  | @entry text _ _ hl hd ht =>
    obtain ⟨tokens, blanks, htext, hrow, hrange, hb, hmillis⟩ := times_eq_ok_iff.1 ht
    have hback : timesText line = text := by
      rw [toList_eq_of_mem hnames.1, List.append_cancel_left_eq] at hl
      exact (List.cons.inj hl).2
    exact ⟨tokens, ⟨hnames, ⟨blanks, hback.trans htext, hb⟩, (precede_iff_mayTouch hb).1 hrow, hrange⟩, hmillis⟩

theorem IsAccepted.unique {e : Digest} (h : IsAccepted line d tokens) (hother : IsAccepted line e items) :
    e = d ∧ items = tokens :=
  ⟨hother.names.2.unique h.names.2, h.isRow.unique h.mayTouch hother.isRow hother.mayTouch⟩

theorem IsAccepted.parse_eq (h : IsAccepted line d tokens)
    (hmillis : times.map Timestamp.millis = tokens.map Token.millis) : parse line = .ok (d, times) := by
  obtain ⟨⟨hmem, hd⟩, ⟨blanks, htext, hb⟩, htouch, hrange⟩ := h
  refine parse_of_times (toList_eq_of_mem hmem) (not_mem_front line) hd fun offset => ?_
  exact times_eq_ok_iff.2 ⟨tokens, blanks, htext, (precede_iff_mayTouch hb).2 htouch, hrange, hb, hmillis⟩

/-- The entries are the lines that name a digest and go on with times, which can be read in one way only, and the
lengths are those of the times. That is as the format says where the times are complete and kept apart, and nowhere
else. -/
theorem parse_accepts_iff :
    (parse line = .ok (d, times) ↔
      ∃ tokens, IsAccepted line d tokens ∧ times.map Timestamp.millis = tokens.map Token.millis) ∧
    ∀ tokens, IsAccepted line d tokens →
      (∀ e others, IsAccepted line e others → e = d ∧ others = tokens) ∧
        ∀ items, IsDocumented (timesText line) items ↔
          items = tokens ∧ (∀ t ∈ tokens, t.IsComplete) ∧ tokens.IsChain Apart := by
  refine ⟨⟨isAccepted_of_parse, ?_⟩, fun tokens h => ⟨fun e others => h.unique, fun items => ?_⟩⟩
  · rintro ⟨tokens, h, hmillis⟩
    exact h.parse_eq hmillis
  · exact isDocumented_iff h.isRow h.mayTouch

end Reading

def tidyLine : String := "00000000000000000000000000000000=1:00.5(1:00)02:0 "

def tidyTokens : List Token :=
  [{ form := ⟨['1'], ['0', '0'], ['5']⟩, tag := some ['1', ':', '0', '0'],
      isBlank_blanks := Text.isBlank_of_mem_nil, not_mem_tag := by simp },
    { form := ⟨['0', '2'], ['0'], []⟩, isBlank_blanks := Text.isBlank_of_mem_nil, not_mem_tag := not_mem_untagged }]

theorem apart_tidyTokens : tidyTokens.IsChain Apart := .cons_cons nofun (.singleton _)

theorem isAccepted_tidyTokens : IsAccepted tidyLine zeroDigest tidyTokens where
  names := ⟨by decide, by rw [Digest.IsSpelling]; decide⟩
  isRow := ⟨[' '], by decide, Text.isBlank_of_mem_space⟩
  mayTouch := apart_tidyTokens.imp fun _ _ => Apart.mayTouch
  inRange := by
    have hfirst : tidyTokens[0].InRange := ⟨by decide, by decide⟩
    have hsecond : tidyTokens[1].InRange := ⟨by decide, by decide⟩
    exact List.forall_mem_cons.2 ⟨hfirst, List.forall_mem_singleton.2 hsecond⟩

theorem parse_accepts_iff_tidyLine :
    parse tidyLine = .ok (zeroDigest, [⟨60500, by decide⟩, ⟨120000, by decide⟩]) ∧
      (∀ e others, IsAccepted tidyLine e others → e = zeroDigest ∧ others = tidyTokens) ∧
      IsDocumented (timesText tidyLine) tidyTokens := by
  have hcomplete : ∀ t ∈ tidyTokens, t.IsComplete := by
    have hfirst : tidyTokens[0].IsComplete := ⟨by decide, by decide⟩
    have hsecond : tidyTokens[1].IsComplete := ⟨by decide, by decide⟩
    exact List.forall_mem_cons.2 ⟨hfirst, List.forall_mem_singleton.2 hsecond⟩
  obtain ⟨hparse, hread⟩ := @parse_accepts_iff tidyLine zeroDigest [⟨60500, by decide⟩, ⟨120000, by decide⟩]
  obtain ⟨hunique, hdocumented⟩ := hread tidyTokens isAccepted_tidyTokens
  exact ⟨hparse.2 ⟨tidyTokens, isAccepted_tidyTokens, by decide⟩, hunique,
    (hdocumented tidyTokens).2 ⟨rfl, hcomplete, apart_tidyTokens⟩⟩

def touchingLine : String := "00000000000000000000000000000000=1:001:00"

def touchingTokens : List Token :=
  [{ form := ⟨['1'], ['0', '0', '1'], []⟩, isBlank_blanks := Text.isBlank_of_mem_nil,
      not_mem_tag := not_mem_untagged },
    { form := ⟨[], ['0', '0'], []⟩, isBlank_blanks := Text.isBlank_of_mem_nil, not_mem_tag := not_mem_untagged }]

theorem isAccepted_touchingTokens : IsAccepted touchingLine zeroDigest touchingTokens where
  names := ⟨by decide, by rw [Digest.IsSpelling]; decide⟩
  isRow := ⟨[], by decide, nofun⟩
  mayTouch := .cons_cons (fun _ _ => .inl rfl) (.singleton _)
  inRange := by
    have hfirst : touchingTokens[0].InRange := ⟨by decide, by decide⟩
    have hsecond : touchingTokens[1].InRange := ⟨by decide, by decide⟩
    exact List.forall_mem_cons.2 ⟨hfirst, List.forall_mem_singleton.2 hsecond⟩

/-- The line is an entry with two lengths, of which neither stands there, and its text is not as the format says. -/
theorem undocumented_touchingLine :
    parse touchingLine = .ok (zeroDigest, [⟨61000, by decide⟩, ⟨0, by decide⟩]) ∧
      ∀ items, ¬ IsDocumented (timesText touchingLine) items := by
  have hrow := isAccepted_touchingTokens.isRow
  refine ⟨isAccepted_touchingTokens.parse_eq (by decide), fun items h => ?_⟩
  obtain ⟨-, -, hapart⟩ := (isDocumented_iff hrow isAccepted_touchingTokens.mayTouch).1 h
  exact (List.isChain_cons_cons.1 hapart).1 rfl rfl

end SidCatalog.SongLengths.Entry
