import Mathlib.Data.List.Forall2
import SidCatalog.Path

/-! Separators in paths. Normal paths have no backslashes, and absolute ones start with a slash. -/

namespace SidCatalog.Path

theorem toList_normalize (path : String) :
    (normalize path).toList = path.toList.map fun c => if c = '\\' then '/' else c :=
  String.toList_ofList

theorem backslash_not_mem_normalize (path : String) : '\\' ∉ (normalize path).toList := by
  rw [toList_normalize, List.mem_map]
  rintro ⟨c, -, hc⟩
  split at hc
  · cases hc
  · next hne => exact hne hc

theorem normalize_eq_self {path : String} (h : '\\' ∉ path.toList) : normalize path = path := by
  have hmap : path.toList.map (fun c => if c = '\\' then '/' else c) = path.toList.map id := by
    apply List.map_congr_left
    intro c hc
    rw [if_neg, id]
    rintro rfl
    exact h hc
  rw [normalize, hmap, List.map_id, String.ofList_toList]

def IsSlash (c : Char) : Prop := c = '/' ∨ c = '\\'

def Alike (p q : String) : Prop := List.Forall₂ (fun a b => a = b ∨ IsSlash a ∧ IsSlash b) p.toList q.toList

theorem normalize_singleton_append {c : Char} (hc : IsSlash c) (path : String) :
    normalize (String.singleton c ++ path) = "/" ++ normalize path := by
  apply String.toList_inj.1
  rcases hc with rfl | rfl <;> simp [toList_normalize]

theorem normalize_eq_of_alike {p q : String} (h : Alike p q) : normalize p = normalize q := by
  apply String.toList_inj.1
  rw [toList_normalize, toList_normalize]
  unfold Alike at h
  generalize p.toList = cs, q.toList = ds at h
  induction h with
  | nil => rfl
  | cons hab _ ih =>
    rw [List.map_cons, List.map_cons, ih]
    congr 1
    rcases hab with rfl | ⟨rfl | rfl, rfl | rfl⟩ <;> rfl

theorem absolute_eq_self {path : String} (h : path.toList.head? = some '/') : absolute path = path :=
  if_pos h

theorem absolute_normalize {path : String} (hslash : path.toList.head? ≠ some '/')
    (hback : path.toList.head? ≠ some '\\') : absolute (normalize path) = "/" ++ normalize path := by
  refine if_neg ?_
  rw [toList_normalize, List.head?_map]
  cases hhead : path.toList.head? with
  | none => exact nofun
  | some c =>
    rw [hhead] at hslash hback
    have hc : c ≠ '\\' := fun he => hback (congrArg some he)
    rwa [Option.map_some, if_neg hc]

end SidCatalog.Path
