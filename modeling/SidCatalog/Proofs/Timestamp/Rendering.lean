import SidCatalog.Proofs.Timestamp.Acceptance

/-! Timestamps read back from their written form. The minutes are a numeral of any length; seconds and thousandths
have a fixed width. A written form without a fraction reads back unless more digits or a point follow, and one with
a fraction always does. -/

namespace SidCatalog

namespace Text

theorem isDigit_of_mem_decimal {n : Nat} {c : Char} (h : c ∈ decimal n) : c.isDigit = true :=
  Nat.isDigit_of_mem_toDigits (by decide) (by decide) h

theorem isDigit_of_mem_padded {width n : Nat} {c : Char} (h : c ∈ padded width '0' n) : c.isDigit = true := by
  rw [padded, List.leftpad, List.mem_append] at h
  rcases h with h | h
  · rw [List.eq_of_mem_replicate h]
    rfl
  · exact isDigit_of_mem_decimal h

theorem decimalValue_padded (width n : Nat) : decimalValue (padded width '0' n) = n := by
  rw [padded, List.leftpad, decimalValue, Nat.ofDigitChars_append, Nat.ofDigitChars_replicate_zero, Nat.mul_zero]
  exact decimalValue_decimal n

theorem length_padded {width n : Nat} (hw : 0 < width) (hn : n < 10 ^ width) :
    (padded width '0' n).length = width := by
  rw [padded, List.length_leftpad]
  exact Nat.max_eq_left ((Nat.length_toDigits_le_iff (by decide) hw).2 hn)

theorem padded_ne_nil {width n : Nat} (hw : 0 < width) (hn : n < 10 ^ width) : padded width '0' n ≠ [] :=
  List.ne_nil_of_length_pos (by rwa [length_padded hw hn])

end Text

namespace Timestamp

def form (t : Timestamp) : Form where
  minutes := Text.decimal (t.millis / 60000)
  seconds := Text.padded 2 '0' (t.millis / 1000 % 60)
  fraction := if t.millis % 1000 = 0 then [] else Text.padded 3 '0' (t.millis % 1000)

def CanFollow (t : Timestamp) (rest : List Char) : Prop :=
  t.millis % 1000 ≠ 0 ∨ ∀ c ∈ rest.head?, c.isDigit = false ∧ c ≠ '.'

section Form

variable {t : Timestamp} {rest : List Char}

theorem mod_lt_thousand (t : Timestamp) : t.millis % 1000 < 10 ^ 3 := Nat.mod_lt _ (by decide)

theorem form_fraction_of_whole (h : t.millis % 1000 = 0) : t.form.fraction = [] := if_pos h

theorem form_fraction_of_broken (h : t.millis % 1000 ≠ 0) :
    t.form.fraction = Text.padded 3 '0' (t.millis % 1000) :=
  if_neg h

theorem text_form (t : Timestamp) : t.form.text = t.render.toList := by
  rw [render, String.toList_ofList, Form.text, pointed]
  by_cases h : t.millis % 1000 = 0
  · rw [if_pos h, form_fraction_of_whole h, if_pos rfl, List.append_nil]
    rfl
  · rw [if_neg h, form_fraction_of_broken h, if_neg (Text.padded_ne_nil (by decide) t.mod_lt_thousand),
      List.append_assoc, List.cons_append]
    rfl

theorem fraction_form (t : Timestamp) :
    Text.decimalValue t.form.fraction * 10 ^ (3 - t.form.fraction.length) = t.millis % 1000 := by
  by_cases h : t.millis % 1000 = 0
  · rw [form_fraction_of_whole h, h]
    rfl
  · rw [form_fraction_of_broken h, Text.decimalValue_padded, Text.length_padded (by decide) t.mod_lt_thousand,
      Nat.sub_self, Nat.pow_zero, Nat.mul_one]

theorem seconds_form (t : Timestamp) : Text.decimalValue t.form.seconds = t.millis / 1000 % 60 :=
  Text.decimalValue_padded ..

theorem millis_form (t : Timestamp) : t.form.millis = t.millis := by
  have hminutes : Text.decimalValue t.form.minutes = t.millis / 60000 := Text.decimalValue_decimal _
  have hdiv : t.millis / 60000 = t.millis / 1000 / 60 := by rw [Nat.div_div_eq_div_mul]
  rw [Form.millis, hminutes, t.seconds_form, t.fraction_form]
  omega

theorem isFraction_form (h : t.CanFollow rest) : IsFraction t.form.fraction rest := by
  by_cases hwhole : t.millis % 1000 = 0
  · rw [form_fraction_of_whole hwhole]
    exact .absent fun hhead => ((h.resolve_left (not_not_intro hwhole)) '.' hhead).2 rfl
  · have hlen := Text.length_padded (by decide) t.mod_lt_thousand
    rw [form_fraction_of_broken hwhole]
    refine .written (Text.padded_ne_nil (by decide) t.mod_lt_thousand) (Nat.le_of_eq hlen)
      (fun c => Text.isDigit_of_mem_padded) fun hlt => ?_
    omega

theorem isRun_seconds_form (h : t.CanFollow rest) :
    Text.IsRun t.form.seconds (pointed t.form.fraction ++ rest) := by
  refine ⟨fun c => Text.isDigit_of_mem_padded, ?_⟩
  by_cases hwhole : t.millis % 1000 = 0
  · rw [form_fraction_of_whole hwhole]
    exact fun c hc => ((h.resolve_left (not_not_intro hwhole)) c hc).1
  · rw [form_fraction_of_broken hwhole, pointed, if_neg (Text.padded_ne_nil (by decide) t.mod_lt_thousand)]
    intro c hc
    cases hc
    rfl

theorem begins_form (h : t.CanFollow rest) : t.form.Begins (t.render.toList ++ rest) rest where
  text_eq := by rw [t.text_form]
  minutes := Text.isRun_colon (fun c => Text.isDigit_of_mem_decimal) _
  seconds := isRun_seconds_form h
  fraction := isFraction_form h

end Form

theorem toList_render (t : Timestamp) :
    t.render.toList = Text.decimal (t.millis / 60000) ++ ':' :: (t.form.seconds ++ pointed t.form.fraction) :=
  t.text_form.symm

theorem canFollow_nil (t : Timestamp) : t.CanFollow [] := .inr (by simp)

theorem mem_render {t : Timestamp} {c : Char} (h : c ∈ t.render.toList) :
    c.isDigit = true ∨ c = ':' ∨ c = '.' := by
  rw [← t.text_form] at h
  exact (begins_form t.canFollow_nil).mem_text h

theorem utf8ByteSize_render (t : Timestamp) : t.render.utf8ByteSize = t.render.toList.length := by
  rw [Text.utf8ByteSize_eq, ← t.text_form, (begins_form t.canFollow_nil).byteLength_text]

theorem scan_render {t : Timestamp} {rest : List Char} (hr : t.CanFollow rest) :
    scan (t.render.toList ++ rest) = .ok ⟨t, t.render.toList.length, rest⟩ := by
  have hsixty : Text.decimalValue t.form.seconds < 60 := t.seconds_form ▸ Nat.mod_lt _ (by decide)
  have hlimit : t.form.millis < limit := t.millis_form ▸ t.millis_lt
  rw [scan_of_begins (begins_form hr) hsixty hlimit, t.text_form]
  simp only [t.millis_form]

theorem parse_render {t : Timestamp} {suffix : String} (h : t.CanFollow suffix.toList) :
    parse (t.render ++ suffix) = .ok ⟨t, t.render.utf8ByteSize, suffix.toList⟩ := by
  rw [parse_eq_ok_iff_scan, String.toList_append, scan_render h, t.utf8ByteSize_render]

/-- Reading undoes writing, whatever follows without being part of the time. So no two times are written the same,
and a time that was read is read again from its written form. -/
theorem parse_undoes_render :
    (∀ (t : Timestamp) (suffix : String), t.CanFollow suffix.toList →
      parse (t.render ++ suffix) = .ok ⟨t, t.render.utf8ByteSize, suffix.toList⟩) ∧
    Function.Injective render ∧
    ∀ text s, parse text = .ok s → (parse s.time.render).map Scan.time = .ok s.time := by
  have hself (t : Timestamp) : parse t.render = .ok ⟨t, t.render.utf8ByteSize, []⟩ := by
    simpa using @parse_render t "" t.canFollow_nil
  refine ⟨fun t suffix h => parse_render h, fun t u h => ?_, fun text s _ => ?_⟩
  · have hread := hself t
    rw [h, hself u] at hread
    exact congrArg Scan.time (Except.ok.inj hread).symm
  · rw [hself]
    rfl

def largest : Timestamp := ⟨limit - 1, by decide⟩

theorem parse_undoes_render_largest :
    (largest.CanFollow "9:00".toList ∧
      parse (largest.render ++ "9:00") = .ok ⟨largest, largest.render.utf8ByteSize, "9:00".toList⟩) ∧
    (CanFollow ⟨60000, by decide⟩ "(G)".toList ∧
      parse (render ⟨60000, by decide⟩ ++ "(G)") =
        .ok ⟨⟨60000, by decide⟩, (render ⟨60000, by decide⟩).utf8ByteSize, "(G)".toList⟩) ∧
    ∃ s, parse "007:5.1x" = .ok s ∧ (parse s.time.render).map Scan.time = .ok s.time := by
  have hdigits : largest.CanFollow "9:00".toList := .inl (by decide)
  have hattribute : CanFollow ⟨60000, by decide⟩ "(G)".toList := by
    refine .inr fun c hc => ?_
    cases hc
    decide
  have hread : parse "007:5.1x" = .ok ⟨⟨425100, by decide⟩, 7, ['x']⟩ := by decide
  exact ⟨⟨hdigits, parse_undoes_render.1 largest "9:00" hdigits⟩,
    ⟨hattribute, parse_undoes_render.1 _ "(G)" hattribute⟩,
    _, hread, parse_undoes_render.2.2 "007:5.1x" _ hread⟩

example : largest.render = "307445734561825:51.615" := by decide

end Timestamp

end SidCatalog
