import SidCatalog.Info.Run
import SidCatalog.Proofs.Session.History
import SidCatalog.Proofs.Session.Routes

/-! The reports on several files do not depend on each other. A session carries two things from file to file: its
paths, which no file changes, and the record of the last failure, which is printed only right after a failure of
the file at hand. So the report on a file is the one that it gets alone, in a new session. -/

namespace SidCatalog.Info

def Fails (fs : FileSystem) (file : String) : Prop :=
  (∃ f, (fs.loadFile file).outcome = .error f) ∨
    ∃ data f, (fs.loadFile file).outcome = .ok data ∧ Tune.Header.parse data = .error f

def placeLines (paths : RootPaths) (file : String) : List String :=
  if paths.isUnder file then ["  hvsc:     " ++ paths.strip file] else []

/-- What the command has to show of a file: on the standard output, on the error output, and as a failure. The
failure of a lookup is told as it is recorded by itself. -/
inductive Shows (fs : FileSystem) (root : Option String) (file : String) : Report → Prop where
  | unreadable {f : Failure} (hload : (fs.loadFile file).outcome = .error f) :
      Shows fs root file
        { err := [": ".intercalate (file :: s!"cannot load {file}" :: f.chain)], failures := 1 }
  | rejected {data : Bytes} {f : Failure} (hload : (fs.loadFile file).outcome = .ok data)
      (hparse : Tune.Header.parse data = .error f) :
      Shows fs root file { err := [": ".intercalate (file :: "not a PSID file" :: f.chain)], failures := 1 }
  | unrooted {data : Bytes} {header : Tune.Header} (hload : (fs.loadFile file).outcome = .ok data)
      (hparse : Tune.Header.parse data = .ok header) (hroot : root = none) :
      Shows fs root file
        { out := headerLines file header (.ofBytes data) ++
            ["  lengths:  unavailable, no HVSC root configured"] }
  | found {data : Bytes} {header : Tune.Header} {paths : RootPaths} {s : SongLengths}
      (hload : (fs.loadFile file).outcome = .ok data) (hparse : Tune.Header.parse data = .ok header)
      (hpaths : (sessionFor root).paths = some paths)
      (hlengths : ((sessionFor root).songLengths fs file).1.outcome = .ok s) :
      Shows fs root file
        { out := headerLines file header (.ofBytes data) ++ (placeLines paths file ++ songLines s.lengths) }
  | missing {data : Bytes} {header : Tune.Header} {paths : RootPaths} {f : Failure}
      (hload : (fs.loadFile file).outcome = .ok data) (hparse : Tune.Header.parse data = .ok header)
      (hpaths : (sessionFor root).paths = some paths)
      (hlengths : ((sessionFor root).songLengths fs file).1.outcome = .error f) :
      Shows fs root file
        { out := headerLines file header (.ofBytes data) ++ placeLines paths file
          err := [(LastError.ofFailure f).format (some file)] }

section Inspect

variable {fs : FileSystem} {root : Option String} {s t : Session} {paths : RootPaths} {file : String}
  {data : Bytes} {header : Tune.Header} {f : Failure}

theorem inspect_of_unreadable (hload : (fs.loadFile file).outcome = .error f) :
    inspect fs s file = (.failed file s!"cannot load {file}" f, s.note (.error f : Except Failure Bytes)) := by
  simp only [inspect, Session.loadFile, Session.record, hload]

theorem inspect_of_rejected (hload : (fs.loadFile file).outcome = .ok data)
    (hparse : Tune.Header.parse data = .error f) :
    inspect fs s file = (.failed file "not a PSID file" f, s) := by
  simp only [inspect, Session.loadFile, Session.record, hload, hparse, Session.note]

theorem inspect_of_tune (hload : (fs.loadFile file).outcome = .ok data)
    (hparse : Tune.Header.parse data = .ok header) :
    inspect fs s file =
      ({ out := headerLines file header (.ofBytes data) } ++ (lengthsReport fs s file).1,
        (lengthsReport fs s file).2) := by
  simp only [inspect, Session.loadFile, Session.record, hload, hparse, Session.note]

theorem lengthsReport_of_unrooted (hpaths : s.paths = none) :
    lengthsReport fs s file = ({ out := ["  lengths:  unavailable, no HVSC root configured"] }, s) := by
  simp [lengthsReport, Session.root?, hpaths]

theorem lengthsReport_of_found {lengths : SongLengths} (hpaths : s.paths = some paths)
    (hlengths : (s.songLengths fs file).1.outcome = .ok lengths) :
    lengthsReport fs s file =
      ({ out := placeLines paths file ++ songLines lengths.lengths }, (s.songLengths fs file).2) := by
  simp [lengthsReport, Session.root?, Session.isUnderRoot, Session.stripRoot, placeLines, hpaths, hlengths]

theorem lengthsReport_of_missing (hpaths : s.paths = some paths)
    (hlengths : (s.songLengths fs file).1.outcome = .error f) :
    lengthsReport fs s file =
      ({ out := placeLines paths file, err := [(LastError.ofFailure f).format (some file)] },
        (s.songLengths fs file).2) := by
  have hlast : (s.songLengths fs file).2.lastError = .ofFailure f := by
    have hnote : (s.songLengths fs file).2 = s.note (s.songLengths fs file).1.outcome := rfl
    rw [hnote, hlengths]
    rfl
  simp [lengthsReport, Session.root?, Session.isUnderRoot, Session.stripRoot, placeLines, hpaths, hlengths, hlast]

theorem paths_lengthsReport : (lengthsReport fs s file).2.paths = s.paths := by
  unfold lengthsReport
  split
  · rfl
  · dsimp only
    split <;> exact Session.paths_note _ _

theorem paths_inspect (fs : FileSystem) (s : Session) (file : String) : (inspect fs s file).2.paths = s.paths := by
  cases hload : (fs.loadFile file).outcome with
  | error f => rw [inspect_of_unreadable hload, Session.paths_note]
  | ok data =>
    cases hparse : Tune.Header.parse data with
    | error f => rw [inspect_of_rejected hload hparse]
    | ok header => rw [inspect_of_tune hload hparse, paths_lengthsReport]

theorem songLengths_congr (h : s.paths = t.paths) : (s.songLengths fs file).1 = (t.songLengths fs file).1 := by
  simp only [Session.songLengths, Session.record, Session.lookupLengths, h]

theorem lengthsReport_congr (h : s.paths = t.paths) :
    (lengthsReport fs s file).1 = (lengthsReport fs t file).1 := by
  cases hpaths : t.paths with
  | none => rw [lengthsReport_of_unrooted hpaths, lengthsReport_of_unrooted (h.trans hpaths)]
  | some paths =>
    have hsame := congrArg Attempt.outcome (@songLengths_congr fs s t file h)
    cases hlengths : (t.songLengths fs file).1.outcome with
    | ok lengths =>
      rw [lengthsReport_of_found hpaths hlengths, lengthsReport_of_found (h.trans hpaths) (hsame.trans hlengths)]
    | error f =>
      rw [lengthsReport_of_missing hpaths hlengths,
        lengthsReport_of_missing (h.trans hpaths) (hsame.trans hlengths)]

theorem inspect_congr (h : s.paths = t.paths) : (inspect fs s file).1 = (inspect fs t file).1 := by
  cases hload : (fs.loadFile file).outcome with
  | error f => rw [inspect_of_unreadable hload, inspect_of_unreadable hload]
  | ok data =>
    cases hparse : Tune.Header.parse data with
    | error f => rw [inspect_of_rejected hload hparse, inspect_of_rejected hload hparse]
    | ok header => rw [inspect_of_tune hload hparse, inspect_of_tune hload hparse, lengthsReport_congr h]

theorem shows_inspect (fs : FileSystem) (root : Option String) (file : String) :
    Shows fs root file (inspect fs (sessionFor root) file).1 := by
  cases hload : (fs.loadFile file).outcome with
  | error f =>
    rw [inspect_of_unreadable hload]
    exact .unreadable hload
  | ok data =>
    cases hparse : Tune.Header.parse data with
    | error f =>
      rw [inspect_of_rejected hload hparse]
      exact .rejected hload hparse
    | ok header =>
      rw [inspect_of_tune hload hparse]
      cases root with
      | none =>
        rw [lengthsReport_of_unrooted rfl]
        exact .unrooted hload hparse rfl
      | some base =>
        have hpaths : (sessionFor (some base)).paths = some (.ofRoot (Path.dropTrailingSeparators base)) := rfl
        cases hlengths : ((sessionFor (some base)).songLengths fs file).1.outcome with
        | ok lengths =>
          rw [lengthsReport_of_found hpaths hlengths]
          exact .found hload hparse hpaths hlengths
        | error f =>
          rw [lengthsReport_of_missing hpaths hlengths]
          exact .missing hload hparse hpaths hlengths

end Inspect

theorem not_fails {fs : FileSystem} {file : String} {data : Bytes} {header : Tune.Header}
    (hload : (fs.loadFile file).outcome = .ok data) (hparse : Tune.Header.parse data = .ok header) :
    ¬ Fails fs file := by
  rintro (⟨f, hf⟩ | ⟨data', f, hload', hf⟩)
  · cases hload.symm.trans hf
  · cases hload.symm.trans hload'
    cases hparse.symm.trans hf

instance (fs : FileSystem) : DecidablePred (Fails fs) := fun file =>
  match hload : (fs.loadFile file).outcome with
  | .error f => .isTrue (.inl ⟨f, hload⟩)
  | .ok data =>
    match hparse : Tune.Header.parse data with
    | .error f => .isTrue (.inr ⟨data, f, hload, hparse⟩)
    | .ok _ => .isFalse (not_fails hload hparse)

theorem Shows.failures_eq {fs : FileSystem} {root : Option String} {file : String} {report : Report}
    (h : Shows fs root file report) : report.failures = if Fails fs file then 1 else 0 := by
  cases h with
  | unreadable hload => rw [if_pos (.inl ⟨_, hload⟩)]
  | rejected hload hparse => rw [if_pos (.inr ⟨_, _, hload, hparse⟩)]
  | unrooted hload hparse _ => rw [if_neg (not_fails hload hparse)]
  | found hload hparse _ _ => rw [if_neg (not_fails hload hparse)]
  | missing hload hparse _ _ => rw [if_neg (not_fails hload hparse)]

def alone (fs : FileSystem) (root : Option String) (file : String) : Report :=
  (inspect fs (sessionFor root) file).1

def messages (fs : FileSystem) (root : Option String) (files : List String) : String :=
  unlines (files.flatMap fun file => (alone fs root file).err)

def failures (fs : FileSystem) (files : List String) : Nat := files.countP (Fails fs ·)

theorem unlines_append (lines more : List String) : unlines (lines ++ more) = unlines lines ++ unlines more := by
  simp only [unlines, List.map_append, String.join_append]

theorem unlines_summary (n files : Nat) :
    unlines [summary n files] = s!"Error: {n} of {files} file(s) could not be read\n" := by
  simp [unlines, summary, String.join, String.append_assoc]
  rfl

section Run

variable {fs : FileSystem} {root : Option String}

theorem inspectAll_eq {s : Session} (h : s.paths = (sessionFor root).paths) (files : List String) :
    (inspectAll fs s files).1 =
      { out := files.flatMap fun file => (alone fs root file).out
        err := files.flatMap fun file => (alone fs root file).err
        failures := failures fs files } := by
  induction files generalizing s with
  | nil => rfl
  | cons file rest ih =>
    -- Whatever the first file recorded, it left the paths, and no more is asked of a session.
    have hfirst : (inspect fs s file).1 = alone fs root file := inspect_congr h
    have hfailures : (alone fs root file).failures = if Fails fs file then 1 else 0 :=
      (shows_inspect fs root file).failures_eq
    have hrest := ih ((paths_inspect fs s file).trans h)
    simp only [inspectAll, hfirst, hrest, failures, List.flatMap_cons, List.countP_cons, decide_eq_true_eq,
      ← hfailures, Nat.add_comm _ (alone fs root file).failures]
    rfl

theorem run_inspect (files : List String) :
    run fs (.inspect root files) =
      { exit := if failures fs files = 0 then 0 else 1
        out := unlines (files.flatMap fun file => (alone fs root file).out)
        err := messages fs root files ++
          if failures fs files = 0 then "" else unlines [summary (failures fs files) files.length] } := by
  have hall : (inspectAll fs (sessionFor root) files).1 = _ := inspectAll_eq rfl files
  simp only [run, Outcome.ofReport, hall, unlines_append, messages]
  split <;> simp

theorem messages_append (xs ys : List String) :
    messages fs root (xs ++ ys) = messages fs root xs ++ messages fs root ys := by
  simp only [messages, List.flatMap_append, unlines_append]

theorem failures_append (xs ys : List String) : failures fs (xs ++ ys) = failures fs xs + failures fs ys :=
  List.countP_append

end Run

/-- A run shows of each file what the file has to show alone, and tells at the end how many of them failed, if any
did. So the outputs, the messages and the failures of two runs are put together when their files are run as one. -/
theorem run_inspect_append (fs : FileSystem) (root : Option String) (xs ys : List String) :
    (run fs (.inspect root (xs ++ ys))).out =
        (run fs (.inspect root xs)).out ++ (run fs (.inspect root ys)).out ∧
      messages fs root (xs ++ ys) = messages fs root xs ++ messages fs root ys ∧
      failures fs (xs ++ ys) = failures fs xs + failures fs ys ∧
      (∀ file, Shows fs root file (alone fs root file)) ∧
      ∀ files, run fs (.inspect root files) =
        { exit := if 0 < failures fs files then 1 else 0
          out := unlines (files.flatMap fun file => (alone fs root file).out)
          err := messages fs root files ++
            if 0 < failures fs files then
              s!"Error: {failures fs files} of {files.length} file(s) could not be read\n"
            else "" } := by
  refine ⟨?_, messages_append xs ys, failures_append xs ys, shows_inspect fs root, fun files => ?_⟩
  · simp only [run_inspect, List.flatMap_append, unlines_append]
  · rw [run_inspect, unlines_summary]
    obtain hzero | hpos := Nat.eq_zero_or_pos (failures fs files)
    · simp [hzero]
    · simp [hpos, Nat.ne_of_gt hpos]

end SidCatalog.Info
