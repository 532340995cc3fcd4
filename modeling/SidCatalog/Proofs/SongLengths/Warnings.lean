import SidCatalog.Proofs.SongLengths.Search

/-! What lookups log of entries, and what they warn of. Reads of a file log how its buffers grow and nothing else, so a
lookup tells of the one line that it takes for an entry or not at all. -/

namespace SidCatalog

namespace Attempt

variable {α β : Type} {p : Event → Bool}

def logged (p : Event → Bool) (a : Attempt α) : List Event := a.events.filter p

theorem logged_after (events : List Event) (a : Attempt α) :
    (a.after events).logged p = events.filter p ++ a.logged p :=
  List.filter_append ..

theorem logged_bind_of_ok {a : Attempt α} {f : α → Attempt β} {x : α} (h : a.outcome = .ok x) :
    (a >>= f).logged p = a.logged p ++ (f x).logged p := by
  rw [bind_of_ok h, logged_after]
  rfl

theorem logged_bind_of_error {a : Attempt α} {f : α → Attempt β} {e : Failure} (h : a.outcome = .error e) :
    (a >>= f).logged p = a.logged p := by
  rw [bind_of_error h]
  rfl

theorem logged_bind_of_silent {a : Attempt α} {f : α → Attempt β}
    (h : ∀ x, a.outcome = .ok x → (f x).logged p = []) : (a >>= f).logged p = a.logged p := by
  cases ha : a.outcome with
  | error e => exact logged_bind_of_error ha
  | ok x => rw [logged_bind_of_ok ha, h x ha, List.append_nil]

def isWarning (e : Event) : Bool := e.level = .warn

def warnings (a : Attempt α) : List Event := a.logged isWarning

end Attempt

namespace TextFile

/-- Opening a file and reading it log nothing of the kind. -/
structure IsNotOfReads (p : Event → Bool) : Prop where
  opening (path : String) : p (.opening path) = false
  lineBuffersGrown (capacity line : Nat) : p (.lineBuffersGrown capacity line) = false

theorem isNotOfReads_isWarning : IsNotOfReads Attempt.isWarning := ⟨fun _ => rfl, fun _ _ => rfl⟩

variable {p : Event → Bool}

theorem Handle.logged_read (hp : IsNotOfReads p) (h : Handle) : h.read.1.logged p = [] := by
  rcases h.read_cases with ⟨fault, stream, hread⟩ | ⟨stream, hread⟩ | ⟨stream, line, hread⟩ <;> rw [hread]
  · rfl
  · rfl
  · refine List.filter_eq_nil_iff.2 fun e he => ?_
    obtain ⟨capacity, -, rfl⟩ := List.mem_map.1 he
    exact Bool.eq_false_iff.1 (hp.lineBuffersGrown capacity _)

theorem Handle.filter_log (hp : IsNotOfReads p) (n : Nat) (h : Handle) : (h.log n).filter p = [] := by
  induction n generalizing h with
  | zero => rfl
  | succ n ih =>
    rw [log, List.filter_append, ih, List.append_nil]
    exact h.logged_read hp

theorem filter_opening (hp : IsNotOfReads p) (path : String) : [Event.opening path].filter p = [] :=
  List.filter_cons_of_neg (Bool.eq_false_iff.1 (hp.opening path))

theorem logged_openHandle (hp : IsNotOfReads p) (fs : FileSystem) (path : String) :
    (openHandle fs path).logged p = [] := by
  rw [openHandle, Attempt.logged_after, filter_opening hp]
  rfl

end TextFile

namespace SongLengths

open TextFile Attempt

theorem firstLine_cases (p : String → Bool) (h : Handle) :
    (∃ (stop : Option Failure) (n : Nat), firstLine p h.readings = ⟨stop.elim (.ok none) .error, h.log n⟩) ∨
      ∃ line n, firstLine p h.readings = ⟨.ok (some ⟨line, h.after n, (h.after n).readings⟩), h.log n⟩ := by
  obtain ⟨lines, stop, hr⟩ := h.exists_reads
  rcases forall_or_split p lines with hnone | ⟨passed, line, rest, rfl, hpassed, hline⟩
  · exact .inl ⟨stop, _, firstLine_of_forall hr hnone⟩
  · exact .inr ⟨line, _, firstLine_of_split hr hpassed hline⟩

theorem rest_of_firstLine {p : String → Bool} {h : Handle} {hit : Hit}
    (hhit : (firstLine p h.readings).outcome = .ok (some hit)) : ∃ below : Handle, hit.rest = below.readings := by
  rcases firstLine_cases p h with ⟨stop, n, hfirst⟩ | ⟨line, n, hfirst⟩ <;> rw [hfirst] at hhit
  · cases stop <;> cases hhit
  · cases hhit
    exact ⟨_, rfl⟩

section Logged

variable {p : Event → Bool} {fs : FileSystem} {sldb path : String}

theorem logged_firstLine (hp : IsNotOfReads p) (counts : String → Bool) (h : Handle) :
    (firstLine counts h.readings).logged p = [] := by
  rcases firstLine_cases counts h with ⟨stop, n, hfirst⟩ | ⟨line, n, hfirst⟩ <;> rw [hfirst] <;>
    exact h.filter_log hp n

theorem logged_lineBelowComment (hp : IsNotOfReads p) (fs : FileSystem) (sldb path : String) :
    (lineBelowComment fs sldb path).logged p = [] := by
  refine (logged_bind_of_silent fun file _ => ?_).trans (logged_openHandle hp fs sldb)
  refine (logged_bind_of_silent fun comment hcomment => ?_).trans (logged_firstLine hp _ file)
  cases comment with
  | none => rfl
  | some comment =>
    obtain ⟨below, hbelow⟩ := rest_of_firstLine hcomment
    refine (logged_bind_of_silent fun hit _ => ?_).trans (hbelow ▸ logged_firstLine hp _ below)
    cases hit <;> rfl

theorem logged_findByPath (hp : IsNotOfReads p) {hit : Hit}
    (hhit : (lineBelowComment fs sldb path).outcome = .ok hit) :
    (findByPath fs sldb path).logged p = (entryAt hit.handle.lineNumber hit.line).logged p := by
  rw [findByPath_eq, logged_bind_of_ok hhit, logged_lineBelowComment hp, List.nil_append]
  exact logged_bind_of_silent fun _ _ => rfl

theorem logged_findByPath_of_error (hp : IsNotOfReads p) {f : Failure}
    (hf : (lineBelowComment fs sldb path).outcome = .error f) : (findByPath fs sldb path).logged p = [] := by
  rw [findByPath_eq, logged_bind_of_error hf, logged_lineBelowComment hp]

def digestReport (d : Digest) (number : Nat) (line : String) : Event :=
  match Entry.parse line with
  | .ok _ => .entryFound d.toHex number
  | .error f => .malformedEntry number f

section Reads

variable {h : Handle} {lines passed rest : List String} {line : String} {stop : Option Failure} {d : Digest}

theorem logged_findByDigest_of_hit (hp : IsNotOfReads p) (hhandle : openHandle fs sldb = ⟨.ok h, [.opening sldb]⟩)
    (hr : h.Reads (passed ++ line :: rest) stop) (hpassed : ∀ l ∈ passed, Entry.isFor d l = false)
    (hline : Entry.isFor d line = true) :
    (findByDigest fs sldb d).logged p =
      [digestReport d (h.after (passed.length + 1)).lineNumber line].filter p := by
  simp only [findByDigest, hhandle, firstLine_of_split hr hpassed hline, ok_bind, logged_after, filter_opening hp,
    Handle.filter_log hp, List.nil_append]
  rw [entryAt, digestReport]
  cases Entry.parse line <;> rfl

theorem logged_findByDigest_of_forall (hp : IsNotOfReads p)
    (hhandle : openHandle fs sldb = ⟨.ok h, [.opening sldb]⟩) (hr : h.Reads lines none)
    (hd : ∀ l ∈ lines, Entry.isFor d l = false) : (findByDigest fs sldb d).logged p = [] := by
  simp only [findByDigest, hhandle, firstLine_of_forall hr hd, Option.elim_none, ok_bind, logged_after,
    filter_opening hp, Handle.filter_log hp]
  rfl

end Reads

end Logged

theorem warnings_findByPath {fs : FileSystem} {sldb path : String} {hit : Hit}
    (hhit : (lineBelowComment fs sldb path).outcome = .ok hit) :
    (findByPath fs sldb path).warnings = (entryAt hit.handle.lineNumber hit.line).warnings :=
  logged_findByPath isNotOfReads_isWarning hhit

theorem warnings_findByPath_of_error {fs : FileSystem} {sldb path : String} {f : Failure}
    (hf : (lineBelowComment fs sldb path).outcome = .error f) : (findByPath fs sldb path).warnings = [] :=
  logged_findByPath_of_error isNotOfReads_isWarning hf

theorem warnings_entryAt_of_ok {line : String} {entry : Digest × List Timestamp} (h : Entry.parse line = .ok entry)
    (number : Nat) : (entryAt number line).warnings = [] := by
  rw [entryAt, h]
  rfl

theorem warnings_entryAt_of_error {line : String} {f : Failure} (h : Entry.parse line = .error f) (number : Nat) :
    (entryAt number line).warnings = [.malformedEntry number f] := by
  rw [entryAt, h]
  rfl

section Course

variable {fs : FileSystem} {sldb : String} {lines passed rest : List String} {line : String}
  {stop : Option Failure} {d : Digest}

theorem warnings_findByDigest_of_hit (hc : Course fs sldb (passed ++ line :: rest) stop)
    (hpassed : ∀ l ∈ passed, Entry.isFor d l = false) (hline : Entry.isFor d line = true) :
    ∃ number, (findByDigest fs sldb d).warnings = (entryAt number line).warnings := by
  obtain ⟨h, hhandle, hr, -⟩ := openHandle_of_course hc
  refine ⟨(h.after (passed.length + 1)).lineNumber, ?_⟩
  rw [warnings, logged_findByDigest_of_hit isNotOfReads_isWarning hhandle hr hpassed hline, entryAt,
    digestReport]
  cases Entry.parse line <;> rfl

theorem warnings_findByDigest_of_forall (hc : Course fs sldb lines none)
    (hd : ∀ l ∈ lines, Entry.isFor d l = false) : (findByDigest fs sldb d).warnings = [] := by
  obtain ⟨h, hhandle, hr, -⟩ := openHandle_of_course hc
  exact logged_findByDigest_of_forall isNotOfReads_isWarning hhandle hr hd

end Course

end SongLengths

end SidCatalog
