import Mathlib.Data.List.Induction
import SidCatalog.Session.Request

/-! What a session still knows of its past. The record holds the latest failure since the record was last
cleared, whatever succeeded in between, and the paths come from the latest root since the root was last
cleared. Both are read off the history of a run: its requests with their answers. -/

namespace SidCatalog.Session

/-- The value of the latest step that has one, unless a reset came after it. -/
def latest {α β : Type} (resets : α → Bool) (value : α → Option β) (steps : List α) : Option β :=
  (steps.reverse.takeWhile fun step => !resets step).findSome? value

theorem latest_concat {α β : Type} (resets : α → Bool) (value : α → Option β) (steps : List α) (step : α) :
    latest resets value (steps ++ [step]) =
      if resets step then none else (value step).or (latest resets value steps) := by
  rw [latest, List.reverse_append, List.reverse_singleton, List.singleton_append, List.takeWhile_cons]
  cases resets step with
  | true => rfl
  | false =>
    simp only [Bool.not_false, if_true, Bool.false_eq_true, if_false, List.findSome?_cons, latest]
    cases value step <;> rfl

def Answer.failure? (answer : Answer) : Option Failure :=
  match answer.attempt.outcome with
  | .ok _ => none
  | .error f => some f

def Request.root? : Request → Option String
  | .setRoot root => some root
  | _ => none

def standingFailure? (steps : List (Request × Answer)) : Option Failure :=
  latest (fun step => step.1 = .clearError) (fun step => step.2.failure?) steps

def standingRoot? (steps : List (Request × Answer)) : Option String :=
  latest (fun step => step.1 = .clearRoot) (fun step => step.1.root?) steps

theorem paths_note {α : Type} (s : Session) (outcome : Except Failure α) :
    (s.note outcome).paths = s.paths := by
  cases outcome <;> rfl

namespace Desk

theorem lastError_relay_note {α : Type} (d : Desk) (reply : α → Reply) (a : Attempt α) (s : Session) :
    (d.relay reply (a, s.note a.outcome)).desk.session.lastError =
      (d.relay reply (a, s.note a.outcome)).failure?.elim s.lastError ({} : LastError).record := by
  obtain ⟨outcome, events⟩ := a
  cases outcome <;> rfl

theorem lastError_perform (fs : FileSystem) (d : Desk) (request : Request) :
    (d.perform fs request).desk.session.lastError =
      if request = .clearError then {}
      else (d.perform fs request).failure?.elim d.session.lastError ({} : LastError).record := by
  cases request with
  | clearError => rfl
  | openText path => exact lastError_relay_note _ _ _ _
  | readLine => exact lastError_relay_note _ _ _ _
  | loadFile path => exact lastError_relay_note _ _ _ _
  | digestFile path => exact lastError_relay_note _ _ _ _
  | parseTimestamp text => exact lastError_relay_note _ _ _ _
  | songLengths path => exact lastError_relay_note _ _ _ _
  | _ => rfl

theorem paths_perform (fs : FileSystem) (d : Desk) (request : Request) :
    (d.perform fs request).desk.session.paths =
      if request = .clearRoot then none
      else request.root?.elim d.session.paths fun root => some (RootPaths.ofRoot root) := by
  cases request with
  | openText path => exact paths_note _ _
  | readLine => exact paths_note _ _
  | loadFile path => exact paths_note _ _
  | digestFile path => exact paths_note _ _
  | parseTimestamp text => exact paths_note _ _
  | songLengths path => exact paths_note _ _
  | _ => rfl

@[simp] theorem length_run (fs : FileSystem) (d : Desk) (requests : List Request) :
    (d.run fs requests).length = requests.length := by
  induction requests generalizing d with
  | nil => rfl
  | cons request rest ih => rw [run, List.length_cons, ih, List.length_cons]

def after (d : Desk) (steps : List (Request × Answer)) : Desk :=
  steps.foldl (fun _ step => step.2.desk) d

theorem answer_of_run {fs : FileSystem} {d : Desk} {requests : List Request}
    {past future : List (Request × Answer)} {request : Request} {answer : Answer}
    (h : requests.zip (d.run fs requests) = past ++ (request, answer) :: future) :
    answer = (d.after past).perform fs request := by
  induction past generalizing d requests with
  | nil =>
    cases requests with
    | nil => cases h
    | cons first rest =>
      obtain ⟨hstep, -⟩ := List.cons.inj h
      obtain ⟨rfl, rfl⟩ := Prod.mk.inj hstep
      rfl
  | cons step past ih =>
    cases requests with
    | nil => cases h
    | cons first rest =>
      obtain ⟨rfl, htail⟩ := List.cons.inj h
      exact ih htail

/-- What the session holds after any part of a run's history, from its beginning on. -/
theorem session_after {fs : FileSystem} {requests : List Request} {past future : List (Request × Answer)}
    (h : requests.zip (run fs {} requests) = past ++ future) :
    (after {} past).session.lastError = (standingFailure? past).elim {} ({} : LastError).record ∧
      (after {} past).session.paths = (standingRoot? past).map RootPaths.ofRoot := by
  -- The induction is on the history from its end, where the latest step stands.
  induction past using List.reverseRecOn generalizing future with
  | nil => exact ⟨rfl, rfl⟩
  | append_singleton past step ih =>
    obtain ⟨request, answer⟩ := step
    rw [List.append_assoc, List.singleton_append] at h
    obtain ⟨hlast, hpaths⟩ := ih h
    have hafter : after {} (past ++ [(request, answer)]) = answer.desk := by
      rw [after, List.foldl_append]
      rfl
    have hanswer := answer_of_run h
    rw [hafter, standingFailure?, standingRoot?, latest_concat, latest_concat]
    constructor
    · rw [hanswer, lastError_perform, ← hanswer, hlast]
      by_cases hc : request = .clearError
      · simp [hc]
      · simp only [hc, if_false, decide_false, Bool.false_eq_true]
        cases answer.failure? <;> rfl
    · rw [hanswer, paths_perform, hpaths]
      by_cases hc : request = .clearRoot
      · simp [hc]
      · simp only [hc, if_false, decide_false, Bool.false_eq_true]
        cases request.root? <;> rfl

end Desk

theorem run_keeps_latest (fs : FileSystem) (requests : List Request) :
    (Desk.run fs {} requests).length = requests.length ∧
      ∀ past request answer future,
        requests.zip (Desk.run fs {} requests) = past ++ (request, answer) :: future →
        answer.desk.session.lastError =
            (standingFailure? (past ++ [(request, answer)])).elim {} ({} : LastError).record ∧
          answer.desk.session.paths =
            (standingRoot? (past ++ [(request, answer)])).map RootPaths.ofRoot ∧
          (request ≠ .clearError → (∃ reply, answer.attempt.outcome = .ok reply) →
            answer.desk.session.lastError = (Desk.after {} past).session.lastError) := by
  refine ⟨Desk.length_run fs {} requests, fun past request answer future h => ?_⟩
  have hafter : Desk.after {} (past ++ [(request, answer)]) = answer.desk := by
    rw [Desk.after, List.foldl_append]
    rfl
  have hsteps : requests.zip (Desk.run fs {} requests) = (past ++ [(request, answer)]) ++ future := by
    rw [h, List.append_assoc, List.singleton_append]
  obtain ⟨hlast, hpaths⟩ := Desk.session_after hsteps
  rw [hafter] at hlast hpaths
  refine ⟨hlast, hpaths, ?_⟩
  rintro hc ⟨reply, hok⟩
  have hnone : answer.failure? = none := by rw [Answer.failure?, hok]
  rw [Desk.answer_of_run h, Desk.lastError_perform, if_neg hc, ← Desk.answer_of_run h, hnone]
  rfl

theorem run_keeps_closed_read :
    let fs : FileSystem := ⟨fun _ => .ok (.ofBytes [])⟩
    let closed := Desk.perform fs {} .readLine
    let rooted := closed.desk.perform fs (.setRoot "c64")
    let opened := rooted.desk.perform fs (.openText "empty")
    let ended := opened.desk.perform fs .readLine
    ended.attempt.outcome = .ok (.line none) ∧
      ended.desk.session.lastError = ({} : LastError).record .closedTextFile ∧
      ended.desk.session.paths = some (RootPaths.ofRoot "c64") := by
  intro fs closed rooted opened ended
  have h := (run_keeps_latest fs [.readLine, .setRoot "c64", .openText "empty", .readLine]).2
    [(.readLine, closed), (.setRoot "c64", rooted), (.openText "empty", opened)] _ _ [] rfl
  exact ⟨rfl, h.1, h.2.1⟩

end SidCatalog.Session
