import SidCatalog.Path
import SidCatalog.Proofs.Text.Boundaries

/-! Paths under a root. The test is on bytes, but it comes to the same as for texts: a path lies under a root when
it is the root with more text behind it, and stripping leaves that text. The cut between them is never inside a
character. No separator is asked for between the two. -/

namespace SidCatalog.Path

def Under (root path : String) : Prop := root ≠ "" ∧ ∃ rest, rest ≠ "" ∧ path = root ++ rest

def Inside (root path : String) : Prop := ∃ rest, path = root ++ "/" ++ rest ∨ path = root ++ "\\" ++ rest

variable {root path rest : String}

theorem isUnder_iff : isUnder root path = true ↔ Under root path := by
  simp only [isUnder, Bool.and_eq_true, bne_iff_ne, decide_eq_true_iff, List.isPrefixOf_iff_prefix,
    Text.bytes_prefix_iff, Under, and_assoc]
  refine and_congr_right fun _ => ?_
  constructor
  · rintro ⟨hsize, rest, rfl⟩
    refine ⟨rest, ?_, rfl⟩
    rintro rfl
    simp at hsize
  · rintro ⟨rest, hrest, rfl⟩
    have hpos : 0 < rest.utf8ByteSize := Nat.pos_of_ne_zero (mt String.utf8ByteSize_eq_zero_iff.1 hrest)
    exact ⟨by rw [String.utf8ByteSize_append]; omega, rest, rfl⟩

theorem under_append (hroot : root ≠ "") (hrest : rest ≠ "") : Under root (root ++ rest) :=
  ⟨hroot, rest, hrest, rfl⟩

theorem strip_append (hroot : root ≠ "") (hrest : rest ≠ "") : strip root (root ++ rest) = rest := by
  rw [strip, if_pos (isUnder_iff.2 (under_append hroot hrest)), String.toList_append, Text.utf8ByteSize_eq,
    Text.cut?_append]
  exact String.ofList_toList

theorem not_under_self (root : String) : ¬ Under root root := by
  rintro ⟨-, rest, hrest, h⟩
  exact hrest (String.append_right_inj root |>.1 (by rw [← h, String.append_empty]))

theorem strip_of_not_under (h : ¬ Under root path) : strip root path = path := by
  unfold strip
  exact if_neg (mt isUnder_iff.1 h)

theorem sliceFrom?_append (root rest : String) :
    Text.sliceFrom? (root ++ rest) root.utf8ByteSize = some rest.toList :=
  Text.sliceFrom?_eq_some_iff.2 ⟨root.toList, String.toList_append, (Text.utf8ByteSize_eq root).symm⟩

/-- The bytes of a path begin with those of a root just when its text begins with the root. What is stripped off is the
root then, by a cut at a boundary, and nothing otherwise. -/
theorem strip_takes_root (root path : String) :
    (isUnder root path = true ↔ root ≠ "" ∧ ∃ rest, rest ≠ "" ∧ path = root ++ rest) ∧
      (∀ rest, root ≠ "" → rest ≠ "" → path = root ++ rest →
        Text.IsBoundary path root.utf8ByteSize ∧
          Text.sliceFrom? path root.utf8ByteSize = some rest.toList ∧
          strip root path = rest ∧ root ++ strip root path = path) ∧
      (isUnder root path = false → strip root path = path) ∧
      isUnder root root = false := by
  refine ⟨isUnder_iff, ?_, ?_, ?_⟩
  · rintro rest hroot hrest rfl
    have hslice := sliceFrom?_append root rest
    have hstrip := strip_append hroot hrest
    refine ⟨Text.exists_sliceFrom?_iff.1 ⟨_, hslice⟩, hslice, hstrip, ?_⟩
    rw [hstrip]
  · intro h
    exact strip_of_not_under (mt isUnder_iff.2 (Bool.eq_false_iff.1 h))
  · exact Bool.eq_false_iff.2 (mt isUnder_iff.1 (not_under_self root))

theorem strip_takes_root_wide :
    Text.IsBoundary "/ü€/a.sid" "/ü".utf8ByteSize ∧ strip "/ü" "/ü€/a.sid" = "€/a.sid" := by
  have hrest := (strip_takes_root "/ü" "/ü€/a.sid").2.1 "€/a.sid" (by decide) (by decide) (by decide)
  exact ⟨hrest.1, hrest.2.2.1⟩

-- The two paths have the first byte of their second character in common.
example : strip "/é" "/è/a.sid" = "/è/a.sid" := by decide +kernel

theorem eq_append_of_head? {c : Char} (h : rest.toList.head? = some c) :
    ∃ more, rest = String.singleton c ++ more := by
  obtain ⟨cs, hcs⟩ := List.head?_eq_some_iff.1 h
  refine ⟨String.ofList cs, String.toList_inj.1 ?_⟩
  rw [hcs, String.toList_append, String.toList_singleton, String.toList_ofList, List.singleton_append]

theorem head?_ne_of_not_inside (h : ¬ Inside root (root ++ rest)) :
    rest.toList.head? ≠ some '/' ∧ rest.toList.head? ≠ some '\\' := by
  constructor <;> intro hhead
  · obtain ⟨more, rfl⟩ := eq_append_of_head? hhead
    exact h ⟨more, .inl (String.append_assoc ..).symm⟩
  · obtain ⟨more, rfl⟩ := eq_append_of_head? hhead
    exact h ⟨more, .inr (String.append_assoc ..).symm⟩

end SidCatalog.Path
