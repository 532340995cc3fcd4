import SidCatalog.Proofs.Path.Root

/-! Joining a path to a root, and taking the root off again. A joined path is the root with text behind it, and that
text joins to the same path. When there is no text, nothing is stripped and the root is joined to itself. -/

namespace SidCatalog.Path

variable {root path : String}

def Separated (a b : String) : Prop := a.toList.getLast? = some '/' ∨ b.toList.head? = some '/'

theorem join_of_separated (h : Separated root path) : join root path = root ++ path := by
  unfold join
  exact if_pos h

theorem join_of_not_separated (h : ¬ Separated root path) : join root path = root ++ ("/" ++ path) := by
  unfold join
  rw [← String.append_assoc]
  exact if_neg h

theorem separated_slash (root path : String) : Separated root ("/" ++ path) := by
  right
  rw [String.toList_append]
  rfl

theorem exists_join_eq_append (root path : String) :
    ∃ rest, join root path = root ++ rest ∧ join root rest = root ++ rest ∧
      (rest = "" ↔ path = "" ∧ root.toList.getLast? = some '/') := by
  by_cases h : Separated root path
  · refine ⟨path, join_of_separated h, join_of_separated h, ?_⟩
    constructor
    · intro hpath
      refine ⟨hpath, h.resolve_right ?_⟩
      rw [hpath]
      exact nofun
    · exact And.left
  · refine ⟨"/" ++ path, join_of_not_separated h, join_of_separated (separated_slash root path), ?_⟩
    constructor
    · intro hempty
      have hhead := congrArg String.toList hempty
      rw [String.toList_append] at hhead
      cases hhead
    · intro hends
      exact absurd (.inl hends.2) h

/-- Taking the root off a joined path and joining again gives the path back, but for a root that ends in a separator
and has nothing joined to it. -/
theorem join_strip_join_iff (root x : String) :
    join root (strip root (join root x)) = join root x ↔ ¬ (x = "" ∧ root.toList.getLast? = some '/') := by
  obtain ⟨rest, hjoin, hrejoin, hempty⟩ := exists_join_eq_append root x
  rw [← hempty, hjoin]
  by_cases hrest : rest = ""
  · -- The root is left as it is and joined to itself, so the path is longer than before.
    have hends : root.toList.getLast? = some '/' := (hempty.1 hrest).2
    rw [hrest, String.append_empty, strip_of_not_under (not_under_self root), join_of_separated (.inl hends)]
    refine iff_of_false ?_ (not_not_intro rfl)
    intro h
    have hroot : root = "" := by simpa using h
    rw [hroot] at hends
    cases hends
  · refine iff_of_true ?_ hrest
    by_cases hroot : root = ""
    · have hpath : strip root (root ++ rest) = root ++ rest := strip_of_not_under fun h => h.1 hroot
      rw [hpath, hroot, String.empty_append]
      rwa [hroot, String.empty_append] at hrejoin
    · rw [strip_append hroot hrest, hrejoin]

example : join "a/" (strip "a/" (join "a/" "a/b")) = "a/a/b" := by decide +kernel

example : join "a/" (strip "a/" (join "a/" "")) = "a/a/" := by decide +kernel

end SidCatalog.Path
