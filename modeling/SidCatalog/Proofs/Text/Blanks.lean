import Mathlib.Data.List.TakeWhile
import SidCatalog.Text.Blank

/-! What trimming leaves. No visible ASCII character is a blank. -/

namespace SidCatalog.Text

theorem isBlank_eq_false {c : Char} (hlo : 0x20 < c.toNat) (hhi : c.toNat < 0x7F) : isBlank c = false := by
  rw [isBlank, List.any_eq_false]
  intro r hr
  simp only [blankRanges, List.mem_cons, List.not_mem_nil, or_false] at hr
  rcases hr with rfl | rfl | rfl | rfl | rfl | rfl | rfl | rfl | rfl | rfl <;>
    simp only [decide_eq_true_eq] <;> omega

theorem isBlank_of_isDigit {c : Char} (h : c.isDigit = true) : isBlank c = false := by
  obtain ⟨hlo, hhi⟩ := Char.isDigit_iff_toNat.1 h
  have hzero : '0'.toNat = 48 := rfl
  have hnine : '9'.toNat = 57 := rfl
  exact isBlank_eq_false (by omega) (by omega)

theorem isBlank_of_mem_nil : ∀ c ∈ ([] : List Char), isBlank c = true :=
  fun _ h => nomatch h

theorem isBlank_of_mem_space : ∀ c ∈ [' '], isBlank c = true :=
  List.forall_mem_singleton.2 rfl

theorem dropWhile_isBlank_append {blanks rest : List Char} (hb : ∀ c ∈ blanks, isBlank c = true)
    (hr : ∀ c ∈ rest.head?, isBlank c = false) : (blanks ++ rest).dropWhile isBlank = rest := by
  rw [List.dropWhile_append_of_pos hb]
  cases rest with
  | nil => rfl
  | cons c rest => exact List.dropWhile_cons_of_neg (by simp [hr c rfl])

theorem takeWhile_isBlank_append {blanks rest : List Char} (hb : ∀ c ∈ blanks, isBlank c = true)
    (hr : ∀ c ∈ rest.head?, isBlank c = false) : (blanks ++ rest).takeWhile isBlank = blanks := by
  rw [List.takeWhile_append_of_pos hb]
  cases rest with
  | nil => exact List.append_nil _
  | cons c rest => rw [List.takeWhile_cons_of_neg (by simp [hr c rfl]), List.append_nil]

theorem trim_append {front cs back : List Char} (hfront : ∀ c ∈ front, isBlank c = true)
    (hback : ∀ c ∈ back, isBlank c = true) (hhead : ∀ c ∈ cs.head?, isBlank c = false)
    (hlast : ∀ c ∈ cs.getLast?, isBlank c = false) : trim (front ++ cs ++ back) = cs := by
  have hreverse : ∀ c ∈ back.reverse, isBlank c = true := fun c hc => hback c (List.mem_reverse.1 hc)
  rw [trim, List.append_assoc]
  cases cs with
  | nil =>
    rw [List.nil_append, List.dropWhile_append_of_pos hfront, List.dropWhile_eq_nil_iff.2 hback]
    rfl
  | cons c cs =>
    rw [dropWhile_isBlank_append hfront (by simpa using hhead), List.reverse_append,
      dropWhile_isBlank_append hreverse, List.reverse_reverse]
    rwa [List.head?_reverse]

theorem trim_eq_self {cs : List Char} (hhead : ∀ c ∈ cs.head?, isBlank c = false)
    (hlast : ∀ c ∈ cs.getLast?, isBlank c = false) : trim cs = cs := by
  simpa using @trim_append [] cs [] (by simp) (by simp) hhead hlast

end SidCatalog.Text
