import SidCatalog.Proofs.TextFile.Course
import SidCatalog.SongLengths.Lookup

/-! Lookups told from the course of reading the file. Where the lines split at the first one that counts, a lookup
comes to what it makes of that line and its neighbour; where no line counts, it comes to what stopped the reads. -/

namespace SidCatalog

namespace TextFile.Handle

theorem attempt_of_outcome {h : Handle} {outcome : Except Failure (Option String)}
    (hread : h.read.1.outcome = outcome) : h.read.1 = ⟨outcome, h.read.1.events⟩ :=
  congrArg (Attempt.mk · h.read.1.events) hread

end TextFile.Handle

namespace SongLengths

open TextFile

variable {p : String → Bool}

theorem forall_or_split (p : String → Bool) (lines : List String) :
    (∀ l ∈ lines, p l = false) ∨
      ∃ passed line rest, lines = passed ++ line :: rest ∧ (∀ l ∈ passed, p l = false) ∧ p line = true := by
  cases hfind : lines.find? p with
  | none => exact .inl (by simpa using hfind)
  | some line =>
    obtain ⟨hp, passed, rest, rfl, hpassed⟩ := List.find?_eq_some_iff_append.1 hfind
    exact .inr ⟨passed, line, rest, rfl, by simpa using hpassed, hp⟩

theorem firstLine_cons_of_passed {r : Reading} {readings : List Reading} {line : String} {events : List Event}
    (hr : r.attempt = ⟨.ok (some line), events⟩) (hp : p line = false) :
    firstLine p (r :: readings) = (firstLine p readings).after events := by
  have hpassed : isPassedOver p r = true := by simp [isPassedOver, Reading.line?, hr, hp]
  simp only [firstLine, List.takeWhile_cons_of_pos hpassed, List.dropWhile_cons_of_pos hpassed,
    List.flatMap_cons, hr, Attempt.after_after]

theorem firstLine_cons_of_hit {r : Reading} {readings : List Reading} {line : String} {events : List Event}
    (hr : r.attempt = ⟨.ok (some line), events⟩) (hp : p line = true) :
    firstLine p (r :: readings) = ⟨.ok (some ⟨line, r.handle, readings⟩), events⟩ := by
  have hpassed : ¬ isPassedOver p r = true := by simp [isPassedOver, Reading.line?, hr, hp]
  simp only [firstLine, List.takeWhile_cons_of_neg hpassed, List.dropWhile_cons_of_neg hpassed,
    List.flatMap_nil, hr, Attempt.after_nil, Attempt.ok_bind]
  simp [Attempt.after, Attempt.pure_eq]

theorem firstLine_of_end {r : Reading} {events : List Event} (hr : r.attempt = ⟨.ok none, events⟩) :
    firstLine p [r] = ⟨.ok none, events⟩ := by
  have hpassed : ¬ isPassedOver p r = true := by simp [isPassedOver, Reading.line?, hr]
  simp only [firstLine, List.takeWhile_cons_of_neg hpassed, List.dropWhile_cons_of_neg hpassed,
    List.flatMap_nil, hr, Attempt.after_nil, Attempt.ok_bind]
  simp [Attempt.after, Attempt.pure_eq]

theorem firstLine_of_failure {r : Reading} {f : Failure} {events : List Event}
    (hr : r.attempt = ⟨.error f, events⟩) : firstLine p [r] = ⟨.error f, events⟩ := by
  have hpassed : ¬ isPassedOver p r = true := by simp [isPassedOver, Reading.line?, hr]
  simp only [firstLine, List.takeWhile_cons_of_neg hpassed, List.dropWhile_cons_of_neg hpassed,
    List.flatMap_nil, hr, Attempt.after_nil, Attempt.error_bind]

section Reads

variable {h : Handle} {lines passed rest : List String} {line : String} {stop : Option Failure}

theorem firstLine_of_split (hr : h.Reads (passed ++ line :: rest) stop) (hpassed : ∀ l ∈ passed, p l = false)
    (hp : p line = true) :
    firstLine p h.readings = ⟨.ok (some ⟨line, h.after (passed.length + 1),
      (h.after (passed.length + 1)).readings⟩), h.log (passed.length + 1)⟩ := by
  -- The induction is on the lines passed over: each read leaves a file that brings the lines behind it.
  induction passed generalizing h with
  | nil =>
    cases hr with
    | line hread _ =>
      rw [Handle.readings_eq, hread, firstLine_cons_of_hit (Handle.attempt_of_outcome hread) hp]
      simp [Handle.log, Handle.after, Reading.ofHandle]
  | cons first passed ih =>
    cases hr with
    | line hread hnext =>
      have hfirst : p first = false := hpassed first (List.mem_cons_self ..)
      rw [Handle.readings_eq, hread, firstLine_cons_of_passed (Handle.attempt_of_outcome hread) hfirst,
        ih hnext fun l hmem => hpassed l (List.mem_cons_of_mem _ hmem)]
      rfl

theorem firstLine_of_forall (hr : h.Reads lines stop) (hp : ∀ l ∈ lines, p l = false) :
    firstLine p h.readings = ⟨stop.elim (.ok none) .error, h.log (lines.length + 1)⟩ := by
  induction hr with
  | ended hread =>
    rw [Handle.readings_eq, hread, firstLine_of_end (Handle.attempt_of_outcome hread)]
    simp [Handle.log]
  | failed hread =>
    rw [Handle.readings_eq, hread, firstLine_of_failure (Handle.attempt_of_outcome hread)]
    simp [Handle.log]
  | @line h first lines stop hread hnext ih =>
    have hfirst : p first = false := hp first (List.mem_cons_self ..)
    rw [Handle.readings_eq, hread, firstLine_cons_of_passed (Handle.attempt_of_outcome hread) hfirst,
      ih fun l hmem => hp l (List.mem_cons_of_mem _ hmem)]
    rfl

end Reads

theorem outcome_entryAt (number : Nat) (line : String) : (entryAt number line).outcome = Entry.parse line := by
  unfold entryAt
  split
  · next h => exact h.symm
  · next h => exact h.symm

def lineBelowComment (fs : FileSystem) (sldb path : String) : Attempt Hit := do
  let file ← openHandle fs sldb
  match ← firstLine (fun line => Entry.commentPath? line = some (listedPath path)) file.readings with
  | none => .fail (.noEntryForPath (listedPath path))
  | some comment =>
    match ← firstLine (fun _ => true) comment.rest with
    | none => .fail (.endsAfterComment (listedPath path))
    | some hit => pure hit

def entryBy (parse : String → Except Failure (Digest × List Timestamp)) (number : Nat) (line : String) :
    Attempt (Digest × List Timestamp) :=
  match parse line with
  | .ok entry => pure entry
  | .error f => ⟨.error f, [.malformedEntry number f]⟩

def findByPathBy (parse : String → Except Failure (Digest × List Timestamp)) (fs : FileSystem) (sldb path : String) :
    Attempt SongLengths := do
  let file ← openHandle fs sldb
  match ← firstLine (fun line => Entry.commentPath? line = some (listedPath path)) file.readings with
  | none => .fail (.noEntryForPath (listedPath path))
  | some comment =>
    match ← firstLine (fun _ => true) comment.rest with
    | none => .fail (.endsAfterComment (listedPath path))
    | some hit =>
      let (digest, lengths) ← entryBy parse hit.handle.lineNumber hit.line
      return { digest, path := some (listedPath path), lengths }

theorem findByPathBy_parse (fs : FileSystem) (sldb path : String) :
    findByPathBy Entry.parse fs sldb path = findByPath fs sldb path :=
  rfl

theorem findByPathBy_eq (parse : String → Except Failure (Digest × List Timestamp)) (fs : FileSystem)
    (sldb path : String) :
    findByPathBy parse fs sldb path = do
      let hit ← lineBelowComment fs sldb path
      let entry ← entryBy parse hit.handle.lineNumber hit.line
      return ⟨entry.1, some (listedPath path), entry.2⟩ := by
  simp only [findByPathBy, lineBelowComment, bind_assoc]
  congr 1
  funext file
  congr 1
  funext comment
  cases comment with
  | none => rfl
  | some comment =>
    simp only [bind_assoc]
    congr 1
    funext hit
    cases hit <;> rfl

theorem findByPath_eq (fs : FileSystem) (sldb path : String) :
    findByPath fs sldb path = do
      let hit ← lineBelowComment fs sldb path
      let entry ← entryAt hit.handle.lineNumber hit.line
      return ⟨entry.1, some (listedPath path), entry.2⟩ := by
  rw [← findByPathBy_parse, findByPathBy_eq]
  rfl

theorem findByPath_congr {fs : FileSystem} {sldb p q : String} (h : listedPath p = listedPath q) :
    findByPath fs sldb p = findByPath fs sldb q := by
  simp only [findByPath, h]

def belowComment (path : String) (stop : Option Failure) : List String → Except Failure SongLengths
  | [] => .error (stop.getD (.endsAfterComment path))
  | line :: _ => (Entry.parse line).map fun entry => ⟨entry.1, some path, entry.2⟩

section Course

variable {fs : FileSystem} {sldb path : String} {lines passed rest : List String} {line comment : String}
  {stop : Option Failure} {d : Digest}

theorem openHandle_of_course (hc : Course fs sldb lines stop) :
    ∃ h, openHandle fs sldb = ⟨.ok h, [.opening sldb]⟩ ∧ h.Reads lines stop ∧ h.current = none := by
  obtain ⟨stream, hopen, hr⟩ := hc
  exact ⟨_, openHandle_of_ok hopen, hr, rfl⟩

theorem openHandle_of_closed {fault : OsFault} (hopen : fs.openFile sldb = .error fault) :
    openHandle fs sldb = ⟨.error (.io sldb fault), [.opening sldb]⟩ := by
  rw [openHandle, FileSystem.openStream, hopen]
  rfl

theorem outcome_findByDigest_of_hit (hc : Course fs sldb (passed ++ line :: rest) stop)
    (hpassed : ∀ l ∈ passed, Entry.isFor d l = false) (hline : Entry.isFor d line = true) :
    (findByDigest fs sldb d).outcome = (Entry.parse line).map fun entry =>
      ⟨entry.1, passed.getLast?.bind Entry.commentPath?, entry.2⟩ := by
  obtain ⟨h, hhandle, hr, hnew⟩ := openHandle_of_course hc
  have hprevious := hr.previous_after hnew
  simp only [findByDigest, hhandle, firstLine_of_split hr hpassed hline, Attempt.outcome_bind,
    Except.bind, outcome_entryAt, hprevious]
  cases Entry.parse line <;> rfl

theorem outcome_findByDigest_of_forall (hc : Course fs sldb lines stop)
    (hd : ∀ l ∈ lines, Entry.isFor d l = false) :
    (findByDigest fs sldb d).outcome = .error (stop.getD (.noEntryForDigest d.toHex)) := by
  obtain ⟨h, hhandle, hr, -⟩ := openHandle_of_course hc
  simp only [findByDigest, hhandle, firstLine_of_forall hr hd, Attempt.outcome_bind, Except.bind]
  cases stop <;> rfl

theorem outcome_lineBelowComment_of_reads {h : Handle} (hhandle : openHandle fs sldb = ⟨.ok h, [.opening sldb]⟩)
    (hr : h.Reads (passed ++ comment :: line :: rest) stop)
    (hpassed : ∀ l ∈ passed, Entry.commentPath? l ≠ some (listedPath path))
    (hcomment : Entry.commentPath? comment = some (listedPath path)) :
    ∃ hit, (lineBelowComment fs sldb path).outcome = .ok hit ∧ hit.line = line ∧
      hit.handle = h.after (passed.length + 2) := by
  have hfirst := @firstLine_of_split (fun l => Entry.commentPath? l = some (listedPath path)) _ _ _ _ _
    hr (by simpa using hpassed) (by simpa using hcomment)
  have hbelow : (h.after (passed.length + 1)).Reads (line :: rest) stop := by
    rw [List.append_cons] at hr
    simpa using hr.after
  have hnext := @firstLine_of_split (fun _ => true) _ [] rest line stop hbelow (by simp) rfl
  simp only [lineBelowComment, hhandle, hfirst, hnext, Attempt.ok_bind]
  exact ⟨_, rfl, rfl, (h.after_succ (passed.length + 1)).symm⟩

theorem outcome_lineBelowComment_of_hit (hc : Course fs sldb (passed ++ comment :: line :: rest) stop)
    (hpassed : ∀ l ∈ passed, Entry.commentPath? l ≠ some (listedPath path))
    (hcomment : Entry.commentPath? comment = some (listedPath path)) :
    ∃ hit, (lineBelowComment fs sldb path).outcome = .ok hit ∧ hit.line = line := by
  obtain ⟨h, hhandle, hr, -⟩ := openHandle_of_course hc
  obtain ⟨hit, hhit, hline, -⟩ := outcome_lineBelowComment_of_reads hhandle hr hpassed hcomment
  exact ⟨hit, hhit, hline⟩

theorem outcome_lineBelowComment_of_last (hc : Course fs sldb (passed ++ [comment]) stop)
    (hpassed : ∀ l ∈ passed, Entry.commentPath? l ≠ some (listedPath path))
    (hcomment : Entry.commentPath? comment = some (listedPath path)) :
    (lineBelowComment fs sldb path).outcome = .error (stop.getD (.endsAfterComment (listedPath path))) := by
  obtain ⟨h, hhandle, hr, -⟩ := openHandle_of_course hc
  have hfirst := @firstLine_of_split (fun l => Entry.commentPath? l = some (listedPath path)) _ _ _ _ _
    hr (by simpa using hpassed) (by simpa using hcomment)
  have hbelow : (h.after (passed ++ [comment]).length).Reads [] stop := Handle.Reads.after (by simpa using hr)
  have hnext := firstLine_of_forall (p := fun _ => true) (by simpa using hbelow) (by simp)
  simp only [lineBelowComment, hhandle, hfirst, hnext, Attempt.ok_bind]
  cases stop <;> rfl

theorem outcome_lineBelowComment_of_forall (hc : Course fs sldb lines stop)
    (hpath : ∀ l ∈ lines, Entry.commentPath? l ≠ some (listedPath path)) :
    (lineBelowComment fs sldb path).outcome = .error (stop.getD (.noEntryForPath (listedPath path))) := by
  obtain ⟨h, hhandle, hr, -⟩ := openHandle_of_course hc
  have hfirst := @firstLine_of_forall (fun l => Entry.commentPath? l = some (listedPath path)) _ _ _ hr
    (by simpa using hpath)
  simp only [lineBelowComment, hhandle, hfirst, Attempt.ok_bind]
  cases stop <;> rfl

theorem outcome_findByPath_of_hit (hc : Course fs sldb (passed ++ comment :: rest) stop)
    (hpassed : ∀ l ∈ passed, Entry.commentPath? l ≠ some (listedPath path))
    (hcomment : Entry.commentPath? comment = some (listedPath path)) :
    (findByPath fs sldb path).outcome = belowComment (listedPath path) stop rest := by
  cases rest with
  | nil =>
    rw [findByPath_eq, Attempt.bind_of_error (outcome_lineBelowComment_of_last hc hpassed hcomment), belowComment]
  | cons line rest =>
    obtain ⟨hit, hhit, rfl⟩ := outcome_lineBelowComment_of_hit hc hpassed hcomment
    rw [findByPath_eq, Attempt.outcome_bind, hhit, Except.bind, Attempt.outcome_bind, outcome_entryAt, belowComment]
    cases Entry.parse hit.line <;> rfl

theorem outcome_findByPath_of_forall (hc : Course fs sldb lines stop)
    (hpath : ∀ l ∈ lines, Entry.commentPath? l ≠ some (listedPath path)) :
    (findByPath fs sldb path).outcome = .error (stop.getD (.noEntryForPath (listedPath path))) := by
  rw [findByPath_eq, Attempt.bind_of_error (outcome_lineBelowComment_of_forall hc hpath)]

end Course

section Delivers

variable {fs : FileSystem} {sldb : String} {stream : ByteStream} {content : Bytes}
  {passed rest : List String} {line : String}

theorem findByDigest_of_split (hopen : fs.openFile sldb = .ok stream) (hs : stream.Delivers content)
    {d : Digest} (hl : lineTexts content = passed ++ line :: rest)
    (hpassed : ∀ l ∈ passed, Entry.isFor d l = false) (hline : Entry.isFor d line = true) :
    (findByDigest fs sldb d).outcome = (Entry.parse line).map fun entry =>
      ⟨entry.1, passed.getLast?.bind Entry.commentPath?, entry.2⟩ :=
  outcome_findByDigest_of_hit (hl ▸ course_of_delivers hopen hs) hpassed hline

theorem findByDigest_of_forall (hopen : fs.openFile sldb = .ok stream) (hs : stream.Delivers content)
    {d : Digest} (hd : ∀ l ∈ lineTexts content, Entry.isFor d l = false) :
    (findByDigest fs sldb d).outcome = .error (.noEntryForDigest d.toHex) :=
  outcome_findByDigest_of_forall (course_of_delivers hopen hs) hd

theorem findByPath_of_split (hopen : fs.openFile sldb = .ok stream) (hs : stream.Delivers content)
    {path comment : String} (hl : lineTexts content = passed ++ comment :: rest)
    (hpassed : ∀ l ∈ passed, Entry.commentPath? l ≠ some (listedPath path))
    (hcomment : Entry.commentPath? comment = some (listedPath path)) :
    (findByPath fs sldb path).outcome = belowComment (listedPath path) none rest :=
  outcome_findByPath_of_hit (hl ▸ course_of_delivers hopen hs) hpassed hcomment

theorem findByPath_of_forall (hopen : fs.openFile sldb = .ok stream) (hs : stream.Delivers content)
    {path : String} (hpath : ∀ l ∈ lineTexts content, Entry.commentPath? l ≠ some (listedPath path)) :
    (findByPath fs sldb path).outcome = .error (.noEntryForPath (listedPath path)) :=
  outcome_findByPath_of_forall (course_of_delivers hopen hs) hpath

end Delivers

end SongLengths

end SidCatalog
