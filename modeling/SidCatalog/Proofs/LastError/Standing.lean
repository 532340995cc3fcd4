import SidCatalog.Proofs.Session.History

/-! What the record of the last failure tells after any changes to it. It depends on one failure alone, the one that
stands: the latest that was recorded, unless the record was cleared after it. So the fields always agree, and a number
of the operating system is written only when the failure that stands has one. -/

namespace SidCatalog

namespace LastError

inductive Change where
  | record (f : Failure)
  | clear
deriving DecidableEq, Repr

def Change.failure? : Change → Option Failure
  | record f => some f
  | clear => none

def change (e : LastError) : Change → LastError
  | .record f => e.record f
  | .clear => e.clear

def after (changes : List Change) : LastError := changes.foldl change {}

/-- The failure recorded last, unless the record was cleared after it. -/
def standing? (changes : List Change) : Option Failure :=
  Session.latest (fun change => change = .clear) Change.failure? changes

structure Consistent (e : LastError) : Prop where
  code_eq_ok_iff : e.code = .ok ↔ e.detail? = none
  detail?_eq_none_iff : e.detail? = none ↔ e = {}
  code_eq_io : ∀ n, e.errno? = some n → e.code = .io

theorem change_eq (e : LastError) (c : Change) : e.change c = c.failure?.elim {} ofFailure := by
  cases c <;> rfl

theorem after_concat (changes : List Change) (last : Change) :
    after (changes ++ [last]) = last.failure?.elim {} ofFailure := by
  rw [after, List.foldl_append, List.foldl_cons, List.foldl_nil, change_eq]

theorem standing?_concat (changes : List Change) (last : Change) : standing? (changes ++ [last]) = last.failure? := by
  rw [standing?, Session.latest_concat]
  cases last <;> rfl

theorem after_eq_elim (changes : List Change) : after changes = (standing? changes).elim {} ofFailure := by
  -- A change leaves nothing of the old record, so the last one decides alone.
  induction changes using List.reverseRecOn with
  | nil => rfl
  | append_singleton earlier last => rw [after_concat, standing?_concat]

theorem consistent_new : Consistent {} := ⟨iff_of_true rfl rfl, iff_of_true rfl rfl, nofun⟩

theorem consistent_ofFailure (f : Failure) : (ofFailure f).Consistent where
  code_eq_ok_iff := iff_of_false f.code_ne_ok nofun
  detail?_eq_none_iff := iff_of_false nofun fun h => nomatch congrArg detail? h
  code_eq_io n h := by
    cases f with
    | io path fault => rfl
    | _ => cases h

theorem consistent_elim (standing : Option Failure) : (standing.elim {} ofFailure).Consistent := by
  cases standing with
  | none => exact consistent_new
  | some f => exact consistent_ofFailure f

def errnoNote (n : Int) : String := " (" ++ toString n ++ ": " ++ OsFault.describe n ++ ")"

theorem errnoNote_ne_empty (n : Int) : errnoNote n ≠ "" := by
  intro h
  have hlist := congrArg String.toList h
  simp only [errnoNote, String.toList_append] at hlist
  cases hlist

theorem osSuffix_of_number (path : String) (n : Int) : (ofFailure (.io path (.number n))).osSuffix = errnoNote n := rfl

theorem osSuffix_eq_empty_iff (f : Failure) :
    (ofFailure f).osSuffix = "" ↔ ∀ path n, f ≠ .io path (.number n) := by
  cases f with
  | io path fault =>
    cases fault with
    | number n =>
      rw [osSuffix_of_number]
      exact iff_of_false (errnoNote_ne_empty n) fun h => h path n rfl
    | text t => exact iff_of_true rfl nofun
  | _ => exact iff_of_true rfl nofun

theorem osSuffix_elim_eq_empty_iff (standing : Option Failure) :
    (standing.elim {} ofFailure).osSuffix = "" ↔ ∀ path n, standing ≠ some (.io path (.number n)) := by
  cases standing with
  | none => exact iff_of_true rfl nofun
  | some f =>
    rw [Option.elim_some, osSuffix_eq_empty_iff]
    simp only [ne_eq, Option.some.injEq]

theorem format_none (e : LastError) :
    e.format none = toString e.code.value ++ ": " ++ e.code.message ++ e.osSuffix := by
  simp only [format, String.empty_append]

theorem format_label (e : LastError) {label : String} (h : label ≠ "") :
    e.format (some label) = label ++ ": " ++ e.format none := by
  simp only [format, if_neg h, String.empty_append, String.append_assoc]

/-- The failure that stands makes the record, whose fields agree, and nothing older leaves a trace in it. The line
names an error number of the operating system just when the failure that stands has one, and then it names this one. -/
theorem after_tells_standing (changes : List Change) :
    let e := after changes
    let plain := toString e.code.value ++ ": " ++ e.code.message
    e = (standing? changes).elim {} ({} : LastError).record ∧
      e.Consistent ∧
      (∀ f others, after (changes ++ [.record f]) = after (others ++ [.record f])) ∧
      (e.format (some "") = e.format none ∧
        ∀ label, label ≠ "" → e.format (some label) = label ++ ": " ++ e.format none) ∧
      (∀ path n, standing? changes = some (.io path (.number n)) → e.format none = plain ++ errnoNote n) ∧
      (e.format none = plain ↔ ∀ path n, standing? changes ≠ some (.io path (.number n))) := by
  intro e plain
  have hstanding : e = (standing? changes).elim {} ofFailure := after_eq_elim changes
  have hline : e.format none = plain ++ e.osSuffix := format_none e
  refine ⟨hstanding, ?consistent, ?forgets, ⟨rfl, fun label => format_label e⟩, ?numbered, ?plain⟩
  case consistent =>
    rw [hstanding]
    exact consistent_elim _
  case forgets =>
    intro f others
    rw [after_concat, after_concat]
  case numbered =>
    intro path n h
    rw [hline, hstanding, h]
    rfl
  case plain =>
    rw [hline, String.append_eq_left_iff, hstanding]
    exact osSuffix_elim_eq_empty_iff _

theorem after_tells_standing_replaced :
    (after [.record (.io "tune" .noSuchFile)]).format (some "sldb") =
        "sldb: 1: I/O error (2: No such file or directory (os error 2))" ∧
      (after [.record (.io "tune" .noSuchFile), .record (.notFound "tune")]).format (some "sldb") =
        "sldb: 5: object not found" := by
  obtain ⟨-, -, -, ⟨-, hlabel⟩, hnumbered, -⟩ := after_tells_standing [.record (.io "tune" .noSuchFile)]
  obtain ⟨-, -, -, ⟨-, hlabelled⟩, -, hplain⟩ :=
    after_tells_standing [.record (.io "tune" .noSuchFile), .record (.notFound "tune")]
  constructor
  · rw [hlabel "sldb" (by decide), hnumbered "tune" 2 rfl]
    decide +kernel
  · rw [hlabelled "sldb" (by decide), hplain.2 fun _ _ h => nomatch h]
    decide +kernel

end LastError

theorem Session.Desk.consistent_lastError {fs : FileSystem} {requests : List Request}
    {past future : List (Request × Answer)} (h : requests.zip (run fs {} requests) = past ++ future) :
    (after {} past).session.lastError.Consistent := by
  rw [(session_after h).1]
  exact LastError.consistent_elim _

end SidCatalog
