import SidCatalog.Proofs.Timestamp.Acceptance

/-! The character at which a timestamp is refused. What stands in front of it could still go on to a timestamp, and
with the character it cannot, whatever follows. So a refusal is told from a beginning of the text, and two texts with
this beginning are refused alike. -/

namespace SidCatalog

namespace Text

theorem decimalValue_concat (digits : List Char) (c : Char) :
    decimalValue (digits ++ [c]) = 10 * decimalValue digits + (c.toNat - '0'.toNat) := by
  rw [decimalValue, Nat.ofDigitChars_append, Nat.ofDigitChars_cons, Nat.ofDigitChars_nil]
  rfl

end Text

namespace Timestamp

open Text

structure Exceeds (bound : Nat) (digits : List Char) (c : Char) : Prop where
  isDigit : ∀ d ∈ digits, d.isDigit = true
  lt : decimalValue digits < bound
  isDigit_last : c.isDigit = true
  le : bound ≤ decimalValue (digits ++ [c])

/-- What was read of a timestamp, and the character that cannot come next or the end of the text. -/
inductive RefusedAt : List Char → Option Char → Prop where
  | minutes {digits : List Char} {c : Char} (hover : Exceeds limit digits c) : RefusedAt digits (some c)
  | colon {digits : List Char} {next : Option Char} (hdigits : ∀ d ∈ digits, d.isDigit = true)
      (hlt : decimalValue digits < limit) (hnext : ∀ c ∈ next, c.isDigit = false ∧ c ≠ ':') : RefusedAt digits next
  | seconds {minutes digits : List Char} {c : Char} (hminutes : ∀ d ∈ minutes, d.isDigit = true)
      (hlt : decimalValue minutes < limit) (hover : Exceeds 60 digits c) :
      RefusedAt (minutes ++ ':' :: digits) (some c)
  | point {minutes seconds : List Char} {next : Option Char} (hminutes : ∀ d ∈ minutes, d.isDigit = true)
      (hlt : decimalValue minutes < limit) (hseconds : ∀ d ∈ seconds, d.isDigit = true)
      (hsixty : decimalValue seconds < 60) (hnext : ∀ c ∈ next, c.isDigit = false) :
      RefusedAt (minutes ++ ':' :: (seconds ++ ['.'])) next

def IsTooLarge (text : List Char) : Prop :=
  ∃ (f : Form) (rest : List Char), f.Begins text rest ∧ decimalValue f.minutes < limit ∧
    decimalValue f.seconds < 60 ∧ limit ≤ f.millis

section Number

variable {bound value pos p : Nat} {text digits rest : List Char} {c : Char}

theorem exists_digits_of_readNumber_error (hvalue : value < bound)
    (h : readNumber bound value pos text = .error p) :
    ∃ digits c rest, text = digits ++ c :: rest ∧ p = pos + digits.length ∧ (∀ d ∈ digits, d.isDigit = true) ∧
      c.isDigit = true ∧ Nat.ofDigitChars 10 digits value < bound ∧
      bound ≤ Nat.ofDigitChars 10 (digits ++ [c]) value := by
  induction text generalizing value pos with
  | nil => cases h
  | cons c text ih =>
    rw [readNumber] at h
    split at h
    · next hc =>
      dsimp only at h
      split at h
      · next hnext =>
        obtain ⟨digits, c', rest, rfl, rfl, hdigits, hc', hlt, hle⟩ := ih hnext h
        refine ⟨c :: digits, c', rest, rfl, ?_, List.forall_mem_cons.2 ⟨hc, hdigits⟩, hc', ?_, ?_⟩
        · simp only [List.length_cons, Nat.add_assoc, Nat.add_comm 1]
        · rwa [Nat.ofDigitChars_cons]
        · rwa [List.cons_append, Nat.ofDigitChars_cons]
      · next hnext =>
        cases h
        refine ⟨[], c, text, rfl, rfl, by simp, hc, ?_, ?_⟩
        · rwa [Nat.ofDigitChars_nil]
        · rw [List.nil_append, Nat.ofDigitChars_cons, Nat.ofDigitChars_nil]
          exact Nat.not_lt.1 hnext
    · cases h

theorem exceeds_of_readNumber_error (hbound : 0 < bound) (h : readNumber bound 0 pos text = .error p) :
    ∃ digits c rest, text = digits ++ c :: rest ∧ p = pos + digits.length ∧ Exceeds bound digits c := by
  obtain ⟨digits, c, rest, htext, hp, hdigits, hc, hlt, hle⟩ := exists_digits_of_readNumber_error hbound h
  exact ⟨digits, c, rest, htext, hp, hdigits, hlt, hc, hle⟩

theorem readNumber_of_exceeds_from (hdigits : ∀ d ∈ digits, d.isDigit = true) (hc : c.isDigit = true)
    (hlt : Nat.ofDigitChars 10 digits value < bound) (hle : bound ≤ Nat.ofDigitChars 10 (digits ++ [c]) value) :
    readNumber bound value pos (digits ++ c :: rest) = .error (pos + digits.length) := by
  induction digits generalizing value pos with
  | nil =>
    rw [List.nil_append, Nat.ofDigitChars_cons, Nat.ofDigitChars_nil] at hle
    rw [List.nil_append, readNumber, if_pos hc, if_neg (Nat.not_lt.2 hle), List.length_nil, Nat.add_zero]
  | cons d digits ih =>
    rw [Nat.ofDigitChars_cons] at hlt
    rw [List.cons_append, Nat.ofDigitChars_cons] at hle
    have hd : d.isDigit = true := hdigits d (List.mem_cons_self ..)
    have hnext : 10 * value + (d.toNat - '0'.toNat) < bound := Nat.lt_of_le_of_lt (le_ofDigitChars ..) hlt
    rw [List.cons_append, readNumber, if_pos hd, if_pos hnext,
      ih (fun e h => hdigits e (List.mem_cons_of_mem _ h)) hlt hle, List.length_cons]
    simp only [Nat.add_assoc, Nat.add_comm 1]

theorem readNumber_of_exceeds (h : Exceeds bound digits c) :
    readNumber bound 0 pos (digits ++ c :: rest) = .error (pos + digits.length) :=
  readNumber_of_exceeds_from h.isDigit h.isDigit_last h.lt h.le

end Number

section Fraction

variable {pos p : Nat} {text rest : List Char}

theorem readFraction_of_point (hrest : ∀ c ∈ rest.head?, c.isDigit = false) :
    readFraction pos ('.' :: rest) = .error (pos + 1) := by
  have hnil : (rest.take 3).takeWhile Char.isDigit = [] := by
    cases rest with
    | nil => rfl
    | cons c rest => rw [List.take_succ_cons, List.takeWhile_cons_of_neg (by simp [hrest c rfl])]
  rw [readFraction]
  simp only [hnil, if_true]

theorem exists_point_of_readFraction_error (h : readFraction pos text = .error p) :
    ∃ rest, text = '.' :: rest ∧ p = pos + 1 ∧ ∀ c ∈ rest.head?, c.isDigit = false := by
  unfold readFraction at h
  split at h
  · next rest =>
    dsimp only at h
    split at h
    · next hnil =>
      cases h
      refine ⟨rest, rfl, rfl, ?_⟩
      cases rest with
      | nil => simp
      | cons c rest =>
        rw [List.take_succ_cons, List.takeWhile_eq_nil_iff] at hnil
        simpa using hnil
    · cases h
  · cases h

end Fraction

section Whole

variable {text front rest : List Char} {p : Nat} {next : Option Char}

theorem total_eq_error_iff {minutes seconds : Nat} {fraction : Part} :
    total minutes seconds fraction = .error p ↔
      p = 0 ∧ limit ≤ (minutes * 60 + seconds) * 1000 + fraction.value := by
  rw [total, ofParts?_eq]
  by_cases h : (minutes * 60 + seconds) * 1000 + fraction.value < limit
  · simp [ofMillis?, h]
  · simp [ofMillis?_of_le (Nat.not_lt.1 h), Nat.not_lt.1 h, eq_comm]

theorem scan_of_colon {minutes : List Char} (hminutes : ∀ d ∈ minutes, d.isDigit = true)
    (hlt : decimalValue minutes < limit) (rest : List Char) :
    scan (minutes ++ ':' :: rest) =
      (readNumber 60 0 (minutes.length + 1) rest >>= fun seconds =>
        readFraction seconds.stop seconds.rest >>= fun fraction =>
          total (decimalValue minutes) seconds.value fraction) := by
  rw [scan, readNumber_append (isRun_colon hminutes rest) hlt, Nat.zero_add]
  rfl

theorem scan_of_no_colon {minutes : List Char} (hrun : IsRun minutes rest) (hlt : decimalValue minutes < limit)
    (hcolon : rest.head? ≠ some ':') : scan (minutes ++ rest) = .error minutes.length := by
  rw [scan, readNumber_append hrun hlt, Nat.zero_add]
  simp only [bind, Except.bind]
  split
  · exact absurd rfl hcolon
  · rfl

theorem scan_of_refusedAt (h : RefusedAt front rest.head?) : scan (front ++ rest) = .error front.length := by
  generalize hnext : rest.head? = next at h
  cases h with
  | minutes hover =>
    obtain ⟨rest, rfl⟩ := List.head?_eq_some_iff.1 hnext
    rw [scan, readNumber_of_exceeds hover, Nat.zero_add]
    rfl
  | colon hdigits hlt hno =>
    subst hnext
    exact scan_of_no_colon ⟨hdigits, fun c hc => (hno c hc).1⟩ hlt fun hc => (hno ':' hc).2 rfl
  | @seconds minutes digits c hminutes hlt hover =>
    obtain ⟨rest, rfl⟩ := List.head?_eq_some_iff.1 hnext
    rw [List.append_assoc, List.cons_append, scan_of_colon hminutes hlt, readNumber_of_exceeds hover,
      List.length_append, List.length_cons, Nat.add_assoc, Nat.add_comm 1]
    rfl
  | @point minutes seconds next hminutes hlt hseconds hsixty hno =>
    subst hnext
    have hrun : IsRun seconds ('.' :: rest) := ⟨hseconds, by intro c hc; cases hc; rfl⟩
    have hlength : (minutes ++ ':' :: (seconds ++ ['.'])).length = minutes.length + 1 + seconds.length + 1 := by
      simp only [List.length_append, List.length_cons, List.length_nil]
      omega
    rw [hlength, List.append_assoc, List.cons_append, List.append_assoc, List.singleton_append,
      scan_of_colon hminutes hlt]
    exact bind_eq_error_iff.2 (.inr ⟨_, readNumber_append hrun hsixty,
      bind_eq_error_iff.2 (.inl (readFraction_of_point hno))⟩)

theorem scan_of_isTooLarge (h : IsTooLarge text) : scan text = .error 0 := by
  obtain ⟨f, rest, hf, hminutes, hsixty, hlarge⟩ := h
  rw [hf.text_eq, f.text_append, scan_of_colon hf.minutes.isDigit hminutes]
  exact bind_eq_error_iff.2 (.inr ⟨_, readNumber_append hf.seconds hsixty,
    bind_eq_error_iff.2 (.inr ⟨_, readFraction_append hf.fraction _, total_eq_error_iff.2 ⟨rfl, hlarge⟩⟩)⟩)

theorem refusedAt_of_scan_colon {minutes : List Char} (hminutes : ∀ d ∈ minutes, d.isDigit = true)
    (hlt : decimalValue minutes < limit) (h : scan (minutes ++ ':' :: text) = .error p) :
    (∃ front rest, minutes ++ ':' :: text = front ++ rest ∧ p = front.length ∧ RefusedAt front rest.head?) ∨
      p = 0 ∧ IsTooLarge (minutes ++ ':' :: text) := by
  simp only [scan_of_colon hminutes hlt, bind_eq_error_iff] at h
  rcases h with hseconds | ⟨part, hseconds, hfraction | ⟨fraction, hfraction, htotal⟩⟩
  · obtain ⟨digits, c, rest, rfl, rfl, hover⟩ := exceeds_of_readNumber_error (by decide) hseconds
    refine .inl ⟨minutes ++ ':' :: digits, c :: rest, by simp, ?_, .seconds hminutes hlt hover⟩
    rw [List.length_append, List.length_cons]
    omega
  · obtain ⟨seconds, rest, rfl, hrun, hsixty, rfl⟩ := exists_run_of_readNumber (by decide) hseconds
    obtain ⟨rest, rfl, rfl, hno⟩ := exists_point_of_readFraction_error hfraction
    refine .inl ⟨minutes ++ ':' :: (seconds ++ ['.']), rest, by simp, ?_,
      .point hminutes hlt hrun.isDigit hsixty hno⟩
    simp only [List.length_append, List.length_cons, List.length_nil]
    omega
  · obtain ⟨seconds, rest, rfl, hrun, hsixty, rfl⟩ := exists_run_of_readNumber (by decide) hseconds
    obtain ⟨digits, rest, rfl, hf, rfl⟩ := exists_isFraction_of_readFraction hfraction
    obtain ⟨rfl, hlarge⟩ := total_eq_error_iff.1 htotal
    let f : Form := ⟨minutes, seconds, digits⟩
    exact .inr ⟨rfl, f, rest, ⟨(f.text_append rest).symm, isRun_colon hminutes _, hrun, hf⟩, hlt, hsixty, hlarge⟩

theorem scan_eq_error_iff :
    scan text = .error p ↔
      (∃ front rest, text = front ++ rest ∧ p = front.length ∧ RefusedAt front rest.head?) ∨
        p = 0 ∧ IsTooLarge text := by
  constructor
  · intro h
    cases hminutes : readNumber limit 0 0 text with
    | error q =>
      obtain ⟨digits, c, rest, rfl, rfl, hover⟩ := exceeds_of_readNumber_error (by decide) hminutes
      rw [scan, hminutes] at h
      obtain rfl : 0 + digits.length = p := Except.error.inj h
      exact .inl ⟨digits, c :: rest, rfl, Nat.zero_add _, .minutes hover⟩
    | ok part =>
      obtain ⟨minutes, rest, rfl, hrun, hlt, -⟩ := exists_run_of_readNumber (by decide) hminutes
      by_cases hcolon : rest.head? = some ':'
      · obtain ⟨rest, rfl⟩ := List.head?_eq_some_iff.1 hcolon
        exact refusedAt_of_scan_colon hrun.isDigit hlt h
      · rw [scan_of_no_colon hrun hlt hcolon] at h
        obtain rfl : minutes.length = p := Except.error.inj h
        refine .inl ⟨minutes, rest, rfl, rfl, .colon hrun.isDigit hlt fun c hc => ⟨hrun.head? c hc, ?_⟩⟩
        rintro rfl
        exact hcolon hc
  · rintro (⟨front, rest, rfl, rfl, h⟩ | ⟨rfl, h⟩)
    · exact scan_of_refusedAt h
    · exact scan_of_isTooLarge h

theorem le_length_of_scan_error (h : scan text = .error p) : p ≤ text.length := by
  rcases scan_eq_error_iff.1 h with ⟨front, rest, rfl, rfl, -⟩ | ⟨rfl, -⟩
  · exact (List.prefix_append front rest).length_le
  · exact Nat.zero_le _

end Whole

namespace RefusedAt

variable {front : List Char} {next : Option Char} {c d : Char}

theorem isAscii (h : RefusedAt front next) : ∀ c ∈ front, c.toNat < 0x80 := by
  have hdigits {digits : List Char} (h : ∀ c ∈ digits, c.isDigit = true) : ∀ c ∈ digits, c.toNat < 0x80 :=
    fun c hc => toNat_lt_of_isDigit (h c hc)
  have hcolon : ':'.toNat < 0x80 := by decide
  have hpoint : '.'.toNat < 0x80 := by decide
  cases h with
  | minutes hover => exact hdigits hover.isDigit
  | colon h => exact hdigits h
  | seconds hminutes _ hover =>
    exact List.forall_mem_append.2 ⟨hdigits hminutes, List.forall_mem_cons.2 ⟨hcolon, hdigits hover.isDigit⟩⟩
  | point hminutes _ hseconds =>
    exact List.forall_mem_append.2 ⟨hdigits hminutes, List.forall_mem_cons.2 ⟨hcolon,
      List.forall_mem_append.2 ⟨hdigits hseconds, List.forall_mem_singleton.2 hpoint⟩⟩⟩

theorem of_le (h : RefusedAt front (some c)) (hc : 0x80 ≤ c.toNat) (hd : 0x80 ≤ d.toNat) :
    RefusedAt front (some d) := by
  have hno {e : Char} (he : 0x80 ≤ e.toNat) : e.isDigit = false :=
    Bool.eq_false_iff.2 fun h => Nat.not_lt.2 he (toNat_lt_of_isDigit h)
  cases h with
  | minutes hover => exact absurd hover.isDigit_last (by simp [hno hc])
  | colon hdigits hlt =>
    refine .colon hdigits hlt ?_
    rintro e ⟨⟩
    refine ⟨hno hd, ?_⟩
    rintro rfl
    exact absurd hd (by decide)
  | seconds _ _ hover => exact absurd hover.isDigit_last (by simp [hno hc])
  | point hminutes hlt hseconds hsixty =>
    refine .point hminutes hlt hseconds hsixty ?_
    rintro e ⟨⟩
    exact hno hd

theorem begins_of_digits {minutes seconds fraction : List Char} (hminutes : ∀ d ∈ minutes, d.isDigit = true)
    (hseconds : ∀ d ∈ seconds, d.isDigit = true) (hfraction : IsFraction fraction []) :
    Form.Begins ⟨minutes, seconds, fraction⟩ (Form.text ⟨minutes, seconds, fraction⟩) [] where
  text_eq := (List.append_nil _).symm
  minutes := isRun_colon hminutes _
  seconds := by
    refine ⟨hseconds, fun c hc => ?_⟩
    unfold pointed at hc
    split at hc
    · cases hc
    · cases hc
      rfl
  fraction := hfraction

theorem exists_scan_of_digits {minutes seconds fraction : List Char} (hminutes : ∀ d ∈ minutes, d.isDigit = true)
    (hroom : decimalValue minutes ≤ 307445734561824) (hseconds : ∀ d ∈ seconds, d.isDigit = true)
    (hsixty : decimalValue seconds < 60) (hfraction : IsFraction fraction []) (hzero : decimalValue fraction = 0) :
    ∃ s, scan (minutes ++ ':' :: (seconds ++ pointed fraction)) = .ok s := by
  have hlimit : Form.millis ⟨minutes, seconds, fraction⟩ < limit := by
    simp only [Form.millis, hzero, limit, UInt64.size]
    omega
  exact ⟨_, scan_of_begins (begins_of_digits hminutes hseconds hfraction) hsixty hlimit⟩

theorem exists_suffix (h : RefusedAt front next)
    (hroom : decimalValue (front.takeWhile Char.isDigit) ≤ 307445734561824) :
    ∃ suffix s, scan (front ++ suffix) = .ok s := by
  have habsent : IsFraction [] [] := .absent nofun
  cases h with
  | @minutes _ c hover =>
    -- So few minutes can take any digit.
    have hdigit := Char.isDigit_iff_toNat.1 hover.isDigit_last
    have hnine : '9'.toNat = 57 := rfl
    have hle := hover.le
    rw [decimalValue_concat, limit, UInt64.size] at hle
    rw [List.takeWhile_eq_self_iff.2 hover.isDigit] at hroom
    omega
  | colon hdigits =>
    have hnone : ∀ d ∈ ([] : List Char), d.isDigit = true := by simp
    rw [List.takeWhile_eq_self_iff.2 hdigits] at hroom
    exact ⟨[':'], exists_scan_of_digits hdigits hroom hnone (by decide) habsent rfl⟩
  | @seconds minutes digits _ hminutes _ hover =>
    have htext : minutes ++ ':' :: digits ++ [] = minutes ++ ':' :: (digits ++ pointed []) := by simp [pointed]
    rw [(isRun_colon hminutes _).takeWhile_eq] at hroom
    obtain ⟨s, hs⟩ := exists_scan_of_digits hminutes hroom hover.isDigit hover.lt habsent rfl
    exact ⟨[], s, htext ▸ hs⟩
  | @point minutes seconds _ hminutes _ hseconds hsixty =>
    have hfraction : IsFraction ['0'] [] := .written (by simp) (by simp) (by simp) (by simp)
    have htext : minutes ++ ':' :: (seconds ++ ['.']) ++ ['0'] = minutes ++ ':' :: (seconds ++ pointed ['0']) := by
      simp [pointed]
    rw [(isRun_colon hminutes _).takeWhile_eq] at hroom
    obtain ⟨s, hs⟩ := exists_scan_of_digits hminutes hroom hseconds hsixty hfraction rfl
    exact ⟨['0'], s, htext ▸ hs⟩

end RefusedAt

theorem parse_eq_error_iff_scan {text : String} {f : Failure} :
    parse text = .error f ↔ ∃ p, scan text.toList = .error p ∧ f = .timestamp p := by
  rw [parse]
  cases scan text.toList <;> simp [Except.mapError, eq_comm]

theorem RefusedAt.parse_eq {front rest : List Char} {text other : String} (hfront : RefusedAt front rest.head?)
    (htext : text.toList = front ++ rest) (hlt : front.length < text.utf8ByteSize)
    (h : (bytes other).take (front.length + 1) = (bytes text).take (front.length + 1)) :
    parse other = .error (.timestamp front.length) := by
  obtain rfl : text = String.ofList (front ++ rest) := by rw [← htext, String.ofList_toList]
  cases rest with
  | nil =>
    rw [byteLength_eq_utf8ByteSize, List.append_nil, byteLength_of_ascii hfront.isAscii] at hlt
    exact absurd hlt (Nat.lt_irrefl _)
  | cons c rest =>
    obtain ⟨d, more, hother, hd⟩ := exists_next_of_take_bytes hfront.isAscii h
    have hrefused : RefusedAt front (d :: more).head? := by
      rcases hd with rfl | ⟨hc, hd⟩
      · exact hfront
      · exact hfront.of_le hc hd
    rw [parse_eq_error_iff_scan]
    exact ⟨front.length, by rw [hother, scan_of_refusedAt hrefused], rfl⟩

/-- A text is refused at a byte that it has or right behind its end. But for a total that is too large, for which the
position is 0, the refusal is due to the bytes up to this one alone, and those in front of it begin a timestamp, with
minutes that leave room for any seconds. -/
theorem parse_refuses_offender {text : String} {f : Failure} (h : parse text = .error f) :
    ∃ p, f = .timestamp p ∧ p ≤ text.utf8ByteSize ∧ (IsTooLarge text.toList → p = 0) ∧
      (¬ IsTooLarge text.toList →
        (p < text.utf8ByteSize → ∀ other, (bytes other).take (p + 1) = (bytes text).take (p + 1) →
          parse other = .error (.timestamp p)) ∧
        ∃ front back : String, text = front ++ back ∧ front.utf8ByteSize = p ∧
          (decimalValue (front.toList.takeWhile Char.isDigit) ≤ 307445734561824 →
            ∃ suffix s, parse (front ++ suffix) = .ok s)) := by
  obtain ⟨p, hscan, rfl⟩ := parse_eq_error_iff_scan.1 h
  have hle : p ≤ text.utf8ByteSize := by
    rw [utf8ByteSize_eq]
    exact (le_length_of_scan_error hscan).trans (length_le_byteLength _)
  refine ⟨p, rfl, hle, fun hlarge => ?_, fun hlarge => ?_⟩
  · rw [scan_of_isTooLarge hlarge] at hscan
    exact (Except.error.inj hscan).symm
  · rcases scan_eq_error_iff.1 hscan with ⟨front, rest, htext, rfl, hrefused⟩ | ⟨-, hlarge'⟩
    · refine ⟨fun hlt other hother => hrefused.parse_eq htext hlt hother, String.ofList front, String.ofList rest,
        ?_, ?_, fun hroom => ?_⟩
      · rw [← String.ofList_append, ← htext, String.ofList_toList]
      · rw [byteLength_eq_utf8ByteSize, byteLength_of_ascii hrefused.isAscii]
      · rw [String.toList_ofList] at hroom
        obtain ⟨suffix, s, hs⟩ := hrefused.exists_suffix hroom
        refine ⟨String.ofList suffix, s, parse_eq_ok_iff_scan.2 ?_⟩
        rw [String.toList_append, String.toList_ofList, String.toList_ofList, hs]
    · exact absurd hlarge' hlarge

theorem parse_refuses_offender_danglingPoint :
    parse "1:2.é" = .error (.timestamp 4) ∧
      (∀ other, (bytes other).take 5 = (bytes "1:2.é").take 5 → parse other = .error (.timestamp 4)) ∧
      ∃ suffix s, parse ("1:2." ++ suffix) = .ok s := by
  have hrefused : parse "1:2.é" = .error (.timestamp 4) := by decide
  obtain ⟨p, hp, -, hlarge, hoffender⟩ := parse_refuses_offender hrefused
  obtain rfl : 4 = p := Failure.timestamp.inj hp
  obtain ⟨hother, front, back, htext, hsize, hroom⟩ := hoffender fun h => absurd (hlarge h) (by decide)
  obtain rfl : front = "1:2." := by
    have htake : (bytes "1:2.é").take 4 = bytes "1:2." := by
      rw [bytes_eq, bytes_eq]
      decide
    rw [htext, bytes_append, List.take_left' (by rw [length_bytes, ← utf8ByteSize_eq, hsize])] at htake
    exact bytes_injective htake
  exact ⟨hrefused, hother (by decide), hroom (by decide)⟩

end Timestamp

end SidCatalog
