import Mathlib.Algebra.Group.Nat.Defs
import Mathlib.Data.List.TakeWhile
import SidCatalog.Proofs.Text.Encoding
import SidCatalog.Timestamp

/-! The texts that begin with a timestamp, told with numbers of any size. Reading refuses a number at the digit that
takes it to its bound, and nothing that fits is lost by it: more digits never make a number smaller. -/

namespace SidCatalog

namespace Text

structure IsRun (digits rest : List Char) : Prop where
  isDigit : ∀ c ∈ digits, c.isDigit = true
  head? : ∀ c ∈ rest.head?, c.isDigit = false

theorem IsRun.takeWhile_eq {digits rest : List Char} (h : IsRun digits rest) :
    (digits ++ rest).takeWhile Char.isDigit = digits := by
  rw [List.takeWhile_append_of_pos h.isDigit]
  cases rest with
  | nil => exact List.append_nil _
  | cons c rest => rw [List.takeWhile_cons_of_neg (by simp [h.head? c rfl]), List.append_nil]

theorem IsRun.unique {digits digits' rest rest' : List Char} (h : IsRun digits rest) (h' : IsRun digits' rest')
    (heq : digits ++ rest = digits' ++ rest') : digits = digits' ∧ rest = rest' := by
  have hdigits : digits = digits' := by rw [← h.takeWhile_eq, heq, h'.takeWhile_eq]
  subst hdigits
  exact ⟨rfl, List.append_cancel_left heq⟩

theorem isRun_colon {digits : List Char} (hdigits : ∀ c ∈ digits, c.isDigit = true) (rest : List Char) :
    IsRun digits (':' :: rest) := by
  refine ⟨hdigits, ?_⟩
  rintro c ⟨⟩
  rfl

theorem decimalValue_rightpad (width : Nat) (digits : List Char) :
    decimalValue (digits.rightpad width '0') = decimalValue digits * 10 ^ (width - digits.length) := by
  rw [decimalValue, List.rightpad, Nat.ofDigitChars_append, Nat.ofDigitChars_replicate_zero, Nat.mul_comm]
  rfl

theorem toNat_lt_of_isDigit {c : Char} (h : c.isDigit = true) : c.toNat < 0x80 :=
  Nat.lt_of_le_of_lt (Char.isDigit_iff_toNat.1 h).2 (by decide)

end Text

namespace Timestamp

open Text

structure Form where
  minutes : List Char
  seconds : List Char
  fraction : List Char
deriving DecidableEq, Repr

/-- The digits behind a point, three at most and all if they are less, or none where no point stands. -/
inductive IsFraction : List Char → List Char → Prop where
  | absent {rest : List Char} (hpoint : rest.head? ≠ some '.') : IsFraction [] rest
  | written {digits rest : List Char} (hne : digits ≠ []) (hlen : digits.length ≤ 3)
      (hdigits : ∀ c ∈ digits, c.isDigit = true)
      (hmore : digits.length < 3 → ∀ c ∈ rest.head?, c.isDigit = false) : IsFraction digits rest

def pointed (fraction : List Char) : List Char := if fraction = [] then [] else '.' :: fraction

namespace Form

def text (f : Form) : List Char := f.minutes ++ ':' :: (f.seconds ++ pointed f.fraction)

def millis (f : Form) : Nat :=
  (decimalValue f.minutes * 60 + decimalValue f.seconds) * 1000 +
    decimalValue f.fraction * 10 ^ (3 - f.fraction.length)

/-- The text goes by this form up to the rest, and every part takes what digits it can. -/
structure Begins (f : Form) (text rest : List Char) : Prop where
  text_eq : text = f.text ++ rest
  minutes : IsRun f.minutes (':' :: (f.seconds ++ (pointed f.fraction ++ rest)))
  seconds : IsRun f.seconds (pointed f.fraction ++ rest)
  fraction : IsFraction f.fraction rest

theorem text_append (f : Form) (rest : List Char) :
    f.text ++ rest = f.minutes ++ ':' :: (f.seconds ++ (pointed f.fraction ++ rest)) := by
  rw [text, List.append_assoc, List.cons_append, List.append_assoc]

theorem length_text (f : Form) :
    f.text.length = f.minutes.length + 1 + f.seconds.length + (pointed f.fraction).length := by
  simp only [text, List.length_append, List.length_cons]
  omega

end Form

theorem le_ofDigitChars (digits : List Char) (value : Nat) : value ≤ Nat.ofDigitChars 10 digits value := by
  induction digits generalizing value with
  | nil => exact Nat.le_of_eq Nat.ofDigitChars_nil.symm
  | cons c digits ih =>
    rw [Nat.ofDigitChars_cons]
    refine Nat.le_trans ?_ (ih _)
    omega

section Number

variable {bound value pos : Nat} {text digits rest : List Char} {p : Part}

theorem readNumber_append (hrun : IsRun digits rest) (hbound : Nat.ofDigitChars 10 digits value < bound) :
    readNumber bound value pos (digits ++ rest) =
      .ok ⟨Nat.ofDigitChars 10 digits value, pos + digits.length, rest⟩ := by
  obtain ⟨hdigits, hrest⟩ := hrun
  induction digits generalizing value pos with
  | nil =>
    cases rest with
    | nil => rfl
    | cons c rest =>
      have hc := hrest c rfl
      simp [readNumber, hc]
  | cons c digits ih =>
    have hc := hdigits c (List.mem_cons_self ..)
    rw [Nat.ofDigitChars_cons] at hbound ⊢
    have hnext : 10 * value + (c.toNat - '0'.toNat) < bound := Nat.lt_of_le_of_lt (le_ofDigitChars ..) hbound
    rw [List.cons_append, readNumber, if_pos hc, if_pos hnext,
      ih hbound fun d h => hdigits d (List.mem_cons_of_mem _ h), List.length_cons]
    simp only [Nat.add_assoc, Nat.add_comm 1]

theorem exists_run_of_readNumber (hvalue : value < bound) (h : readNumber bound value pos text = .ok p) :
    ∃ digits rest, text = digits ++ rest ∧ IsRun digits rest ∧ Nat.ofDigitChars 10 digits value < bound ∧
      p = ⟨Nat.ofDigitChars 10 digits value, pos + digits.length, rest⟩ := by
  induction text generalizing value pos with
  | nil =>
    cases h
    exact ⟨[], [], rfl, ⟨by simp, by simp⟩, hvalue, rfl⟩
  | cons c rest ih =>
    rw [readNumber] at h
    split at h
    · next hc =>
      dsimp only at h
      split at h
      · next hnext =>
        obtain ⟨digits, rest, rfl, hrun, hbound, rfl⟩ := ih hnext h
        refine ⟨c :: digits, rest, rfl, ⟨List.forall_mem_cons.2 ⟨hc, hrun.isDigit⟩, hrun.head?⟩, hbound, ?_⟩
        rw [Nat.ofDigitChars_cons, List.length_cons]
        simp only [Nat.add_assoc, Nat.add_comm 1]
      · cases h
    · next hc =>
      cases h
      refine ⟨[], c :: rest, rfl, ⟨by simp, ?_⟩, hvalue, rfl⟩
      simpa using hc

end Number

section Fraction

variable {n pos : Nat} {text digits rest : List Char} {p : Part}

theorem readFraction_of_ne (hrest : rest.head? ≠ some '.') : readFraction pos rest = .ok ⟨0, pos, rest⟩ := by
  unfold readFraction
  split
  · exact absurd rfl hrest
  · rfl

theorem isDigit_head?_drop (hlt : ((text.take n).takeWhile Char.isDigit).length < n) :
    ∀ c ∈ (text.drop ((text.take n).takeWhile Char.isDigit).length).head?, c.isDigit = false := by
  induction text generalizing n with
  | nil => simp
  | cons c text ih =>
    cases n with
    | zero => cases hlt
    | succ n =>
      rw [List.take_succ_cons] at hlt ⊢
      cases hc : c.isDigit with
      | true =>
        rw [List.takeWhile_cons_of_pos hc, List.length_cons] at hlt ⊢
        rw [List.drop_succ_cons]
        exact ih (Nat.lt_of_succ_lt_succ hlt)
      | false =>
        rw [List.takeWhile_cons_of_neg (by simp [hc])]
        simpa using hc

theorem IsFraction.takeWhile_take (h : IsFraction digits rest) (hne : digits ≠ []) :
    ((digits ++ rest).take 3).takeWhile Char.isDigit = digits := by
  cases h with
  | absent => exact absurd rfl hne
  | written _ hlen hdigits hmore =>
    rw [List.take_append, List.take_of_length_le hlen, List.takeWhile_append_of_pos hdigits]
    rcases Nat.lt_or_eq_of_le hlen with hlt | heq
    · cases rest with
      | nil => simp
      | cons c rest =>
        obtain ⟨n, hn⟩ : ∃ n, 3 - digits.length = n + 1 := ⟨2 - digits.length, by omega⟩
        have hc : ¬ c.isDigit = true := by simp [hmore hlt c rfl]
        rw [hn, List.take_succ_cons, List.takeWhile_cons_of_neg hc, List.append_nil]
    · rw [heq, Nat.sub_self, List.take_zero, List.takeWhile_nil, List.append_nil]

theorem readFraction_append (h : IsFraction digits rest) (pos : Nat) :
    readFraction pos (pointed digits ++ rest) =
      .ok ⟨decimalValue digits * 10 ^ (3 - digits.length), pos + (pointed digits).length, rest⟩ := by
  by_cases hne : digits = []
  · subst hne
    cases h with
    | absent hpoint => exact readFraction_of_ne hpoint
    | written hne => exact absurd rfl hne
  · rw [pointed, if_neg hne, List.cons_append, readFraction]
    simp only [h.takeWhile_take hne, if_neg hne, List.drop_left, decimalValue_rightpad, List.length_cons,
      Nat.add_assoc, Nat.add_comm 1]

theorem exists_isFraction_of_readFraction (h : readFraction pos text = .ok p) :
    ∃ digits rest, text = pointed digits ++ rest ∧ IsFraction digits rest ∧
      p = ⟨decimalValue digits * 10 ^ (3 - digits.length), pos + (pointed digits).length, rest⟩ := by
  unfold readFraction at h
  split at h
  · next text =>
    dsimp only at h
    split at h
    · cases h
    · next hne =>
      cases h
      have hprefix : (text.take 3).takeWhile Char.isDigit <+: text :=
        (List.takeWhile_prefix _).trans (List.take_prefix ..)
      have hlen : ((text.take 3).takeWhile Char.isDigit).length ≤ 3 :=
        (List.takeWhile_sublist _).length_le.trans (List.length_take_le ..)
      refine ⟨(text.take 3).takeWhile Char.isDigit, _, ?_,
        .written hne hlen (fun c hc => List.mem_takeWhile_imp hc) isDigit_head?_drop, ?_⟩
      · rw [pointed, if_neg hne, List.cons_append, List.prefix_iff_eq_append.1 hprefix]
      · rw [pointed, if_neg hne, decimalValue_rightpad, List.length_cons, Nat.add_assoc, Nat.add_comm 1]
  · next hpoint =>
    cases h
    refine ⟨[], text, rfl, .absent ?_, rfl⟩
    intro hhead
    obtain ⟨rest, rfl⟩ := List.head?_eq_some_iff.1 hhead
    exact hpoint rest rfl

end Fraction

theorem ofMillis?_of_le {n : Nat} (h : limit ≤ n) : ofMillis? n = none := dif_neg (Nat.not_lt.2 h)

theorem fits?_bind {n : Nat} {f : Nat → Option Timestamp} (h : limit ≤ n → f n = none) : (fits? n >>= f) = f n := by
  unfold fits?
  split
  · rfl
  · next hn => exact (h (Nat.not_lt.1 hn)).symm

theorem ofParts?_eq (minutes seconds thousandths : Nat) :
    ofParts? minutes seconds thousandths = ofMillis? ((minutes * 60 + seconds) * 1000 + thousandths) := by
  -- A step that does not fit leaves no room for the whole, so the check of the whole is enough.
  have hscaled (n : Nat) :
      (fits? (n * 1000) >>= fun m => ofMillis? (m + thousandths)) = ofMillis? (n * 1000 + thousandths) := by
    refine fits?_bind fun h => ofMillis?_of_le ?_
    exact Nat.le_add_right_of_le h
  have hadded (n : Nat) :
      (fits? (n + seconds) >>= fun m => ofMillis? (m * 1000 + thousandths)) =
        ofMillis? ((n + seconds) * 1000 + thousandths) := by
    refine fits?_bind fun h => ofMillis?_of_le ?_
    omega
  simp only [ofParts?, hscaled, hadded]
  refine fits?_bind fun h => ofMillis?_of_le ?_
  omega

theorem total_eq_ok_iff {minutes seconds : Nat} {fraction : Part} {s : Scan} :
    total minutes seconds fraction = .ok s ↔
      ∃ h : (minutes * 60 + seconds) * 1000 + fraction.value < limit,
        s = ⟨⟨_, h⟩, fraction.stop, fraction.rest⟩ := by
  rw [total, ofParts?_eq]
  by_cases h : (minutes * 60 + seconds) * 1000 + fraction.value < limit
  · simp [ofMillis?, h, eq_comm]
  · simp [ofMillis?_of_le (Nat.not_lt.1 h), h]

theorem bind_eq_ok_iff {ε α β : Type} {x : Except ε α} {f : α → Except ε β} {b : β} :
    (x >>= f) = .ok b ↔ ∃ a, x = .ok a ∧ f a = .ok b := by
  cases x <;> simp [bind, Except.bind]

theorem bind_eq_error_iff {ε α β : Type} {x : Except ε α} {f : α → Except ε β} {e : ε} :
    (x >>= f) = .error e ↔ x = .error e ∨ ∃ a, x = .ok a ∧ f a = .error e := by
  cases x <;> simp [bind, Except.bind]

theorem exists_parts_of_scan {text : List Char} {s : Scan} (h : scan text = .ok s) :
    ∃ minutes rest seconds fraction,
      readNumber limit 0 0 text = .ok minutes ∧ minutes.rest = ':' :: rest ∧
      readNumber 60 0 (minutes.stop + 1) rest = .ok seconds ∧
      readFraction seconds.stop seconds.rest = .ok fraction ∧
      total minutes.value seconds.value fraction = .ok s := by
  rw [scan, bind_eq_ok_iff] at h
  obtain ⟨minutes, hminutes, h⟩ := h
  split at h
  · next rest hrest =>
    simp only [bind_eq_ok_iff] at h
    obtain ⟨seconds, hseconds, fraction, hfraction, htotal⟩ := h
    exact ⟨minutes, rest, seconds, fraction, hminutes, hrest, hseconds, hfraction, htotal⟩
  · cases h

section Form

variable {f : Form} {text rest : List Char}

theorem exists_form_of_scan {s : Scan} (h : scan text = .ok s) :
    ∃ (f : Form) (h : f.millis < limit), f.Begins text s.rest ∧ decimalValue f.seconds < 60 ∧
      s = ⟨⟨f.millis, h⟩, f.text.length, s.rest⟩ := by
  obtain ⟨_, _, _, _, hminutes, hcolon, hseconds, hfraction, htotal⟩ := exists_parts_of_scan h
  obtain ⟨minutes, _, rfl, hm, -, rfl⟩ := exists_run_of_readNumber (by decide) hminutes
  obtain ⟨seconds, _, rfl, hs, hsixty, rfl⟩ := exists_run_of_readNumber (by decide) hseconds
  obtain ⟨fraction, rest, hrest, hf, rfl⟩ := exists_isFraction_of_readFraction hfraction
  obtain ⟨hlt, rfl⟩ := total_eq_ok_iff.1 htotal
  cases hcolon
  cases hrest
  let f : Form := ⟨minutes, seconds, fraction⟩
  refine ⟨f, hlt, ⟨(f.text_append rest).symm, hm, hs, hf⟩, hsixty, ?_⟩
  rw [f.length_text, Nat.zero_add]
  rfl

theorem scan_of_begins (hf : f.Begins text rest) (hsixty : decimalValue f.seconds < 60) (h : f.millis < limit) :
    scan text = .ok ⟨⟨f.millis, h⟩, f.text.length, rest⟩ := by
  have hminutes : decimalValue f.minutes < limit := by
    unfold Form.millis at h
    omega
  rw [hf.text_eq, f.text_append, scan, readNumber_append hf.minutes hminutes]
  simp only [bind, Except.bind]
  rw [readNumber_append hf.seconds hsixty]
  simp only [readFraction_append hf.fraction]
  refine total_eq_ok_iff.2 ⟨h, ?_⟩
  simp only [f.length_text, Nat.zero_add]
  rfl

theorem IsFraction.isDigit {digits : List Char} (h : IsFraction digits rest) : ∀ c ∈ digits, c.isDigit = true := by
  cases h with
  | absent => simp
  | written _ _ hdigits => exact hdigits

theorem IsFraction.length_le {digits : List Char} (h : IsFraction digits rest) : digits.length ≤ 3 := by
  cases h with
  | absent => exact Nat.zero_le _
  | written _ hlen => exact hlen

theorem IsFraction.head?_pointed {digits : List Char} (h : IsFraction digits rest) :
    (pointed digits ++ rest).head? = some '.' ↔ digits ≠ [] := by
  unfold pointed
  by_cases hne : digits = []
  · subst hne
    cases h with
    | absent hpoint => simpa using hpoint
    | written hne => exact absurd rfl hne
  · simp [hne]

theorem IsFraction.unique {digits digits' rest' : List Char} (h : IsFraction digits rest)
    (h' : IsFraction digits' rest') (heq : pointed digits ++ rest = pointed digits' ++ rest') :
    digits = digits' ∧ rest = rest' := by
  have hhead := h.head?_pointed
  rw [heq, h'.head?_pointed] at hhead
  by_cases hne : digits = []
  · obtain rfl : digits' = [] := by simpa [hne] using hhead
    subst hne
    exact ⟨rfl, heq⟩
  · have hne' : digits' ≠ [] := hhead.2 hne
    rw [pointed, pointed, if_neg hne, if_neg hne', List.cons_append, List.cons_append] at heq
    have htail : digits ++ rest = digits' ++ rest' := (List.cons.inj heq).2
    have hdigits : digits = digits' := by rw [← h.takeWhile_take hne, htail, h'.takeWhile_take hne']
    subst hdigits
    exact ⟨rfl, List.append_cancel_left htail⟩

theorem Form.Begins.unique {g : Form} {rest' : List Char} (hf : f.Begins text rest) (hg : g.Begins text rest') :
    f = g ∧ rest = rest' := by
  have heq : f.text ++ rest = g.text ++ rest' := hf.text_eq.symm.trans hg.text_eq
  rw [f.text_append, g.text_append] at heq
  obtain ⟨hminutes, hcolon⟩ := hf.minutes.unique hg.minutes heq
  obtain ⟨hseconds, hpoint⟩ := hf.seconds.unique hg.seconds (List.cons.inj hcolon).2
  obtain ⟨hfraction, hrest⟩ := hf.fraction.unique hg.fraction hpoint
  obtain ⟨_, _, _⟩ := f
  obtain ⟨_, _, _⟩ := g
  cases hminutes
  cases hseconds
  cases hfraction
  exact ⟨rfl, hrest⟩

theorem Form.Begins.isDigit_head? (hf : f.Begins text rest) (hlt : f.fraction.length < 3) :
    ∀ c ∈ rest.head?, c.isDigit = false := by
  obtain ⟨-, -, hseconds, hfraction⟩ := hf
  cases hfraction' : f.fraction with
  | nil =>
    rw [hfraction'] at hseconds
    exact hseconds.head?
  | cons d digits =>
    rw [hfraction'] at hfraction hlt
    cases hfraction with
    | written _ _ _ hmore => exact hmore hlt

theorem Form.Begins.mem_text (hf : f.Begins text rest) {c : Char} (h : c ∈ f.text) :
    c.isDigit = true ∨ c = ':' ∨ c = '.' := by
  rw [Form.text, List.mem_append, List.mem_cons, List.mem_append] at h
  rcases h with hminutes | hcolon | hseconds | hfraction
  · exact .inl (hf.minutes.isDigit c hminutes)
  · exact .inr (.inl hcolon)
  · exact .inl (hf.seconds.isDigit c hseconds)
  · unfold pointed at hfraction
    split at hfraction
    · cases hfraction
    · rcases List.mem_cons.1 hfraction with hpoint | hdigit
      · exact .inr (.inr hpoint)
      · exact .inl (hf.fraction.isDigit c hdigit)

theorem Form.Begins.byteLength_text (hf : f.Begins text rest) : byteLength f.text = f.text.length := by
  apply byteLength_of_ascii
  intro c hc
  rcases hf.mem_text hc with hdigit | rfl | rfl
  · exact toNat_lt_of_isDigit hdigit
  · decide
  · decide

theorem exists_taken_of_scan {s : Scan} (h : scan text = .ok s) :
    ∃ taken, text = taken ++ s.rest ∧ byteLength taken = s.consumed ∧ 0 < s.consumed := by
  obtain ⟨f, _, hf, -, hs⟩ := exists_form_of_scan h
  have hconsumed : s.consumed = f.text.length := congrArg Scan.consumed hs
  refine ⟨f.text, hf.text_eq, ?_, ?_⟩
  · rw [hf.byteLength_text, hconsumed]
  · rw [hconsumed, f.length_text]
    omega

end Form

theorem parse_eq_ok_iff_scan {text : String} {s : Scan} : parse text = .ok s ↔ scan text.toList = .ok s := by
  rw [parse]
  cases scan text.toList <;> simp [Except.mapError]

/-- A text starts with a timestamp just when it begins with the form of one, with its seconds at most 59 and its
thousandths below 2 ^ 64. They are its value, and the form is what it takes up. -/
theorem parse_eq_ok_iff {text : String} {s : Scan} :
    parse text = .ok s ↔ ∃ (f : Form) (h : f.millis < 2 ^ 64), f.Begins text.toList s.rest ∧
      decimalValue f.seconds ≤ 59 ∧ s.time = ⟨f.millis, h⟩ ∧ s.consumed = byteLength f.text := by
  rw [parse_eq_ok_iff_scan]
  constructor
  · intro hscan
    obtain ⟨f, h, hf, hsixty, hs⟩ := exists_form_of_scan hscan
    refine ⟨f, h, hf, Nat.le_of_lt_succ hsixty, ?_, ?_⟩
    · rw [hs]
    · rw [hs, hf.byteLength_text]
  · rintro ⟨f, h, hf, hsixty, htime, hconsumed⟩
    rw [scan_of_begins hf (Nat.lt_succ_of_le hsixty) h, ← hf.byteLength_text, ← hconsumed]
    exact congrArg (fun time => Except.ok (Scan.mk time s.consumed s.rest)) htime.symm

example : (parse "00307445734561825:051.6159").map Scan.consumed = .ok 25 := by decide

example : parse "307445734561825:51.616" = .error (.timestamp 0) := by decide

end Timestamp

end SidCatalog
