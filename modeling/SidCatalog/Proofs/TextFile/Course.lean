import SidCatalog.Proofs.TextFile.Lines

/-! The course of reading a file. Every file has one, whatever its stream brings: the lines that the reads return
in turn, and what stops them, which is the end of the file or a failure. -/

namespace SidCatalog.TextFile

namespace Handle

/-- Reading on and on returns these lines and then stops: at the end, or at the failure. -/
inductive Reads : Handle → List String → Option Failure → Prop where
  | ended {h : Handle} (hread : h.read.1.outcome = .ok none) : Reads h [] none
  | failed {h : Handle} {f : Failure} (hread : h.read.1.outcome = .error f) : Reads h [] (some f)
  | line {h : Handle} {line : String} {lines : List String} {stop : Option Failure}
      (hread : h.read.1.outcome = .ok (some line)) (hnext : Reads h.read.2 lines stop) :
      Reads h (line :: lines) stop

variable {h : Handle} {line : String} {lines passed rest : List String} {stop : Option Failure}

theorem exists_reads (h : Handle) : ∃ lines stop, h.Reads lines stop := by
  -- The induction is on the size of the stream, which each line makes smaller.
  induction hn : h.stream.size using Nat.strongRecOn generalizing h with
  | ind n ih =>
    cases hread : h.read.1.outcome with
    | error f => exact ⟨[], some f, .failed hread⟩
    | ok line? =>
      cases line? with
      | none => exact ⟨[], none, .ended hread⟩
      | some line =>
        have hlt : h.read.2.stream.size < n := hn ▸ size_read_lt hread
        obtain ⟨lines, stop, hnext⟩ := ih _ hlt h.read.2 rfl
        exact ⟨line :: lines, stop, .line hread hnext⟩

theorem reads_of_delivers {content : Bytes} (hs : h.stream.Delivers content) :
    h.Reads (lineTexts content) none := by
  generalize hl : lineTexts content = lines
  induction lines generalizing h content with
  | nil =>
    obtain rfl : content = [] := eq_nil_of_rawLines_eq_nil (List.map_eq_nil_iff.1 hl)
    obtain ⟨stream, hread, -⟩ := read_nil hs
    exact .ended (by rw [hread]; rfl)
  | cons line lines ih =>
    obtain ⟨raw, raws, hraw, rfl, hraws⟩ := List.map_eq_cons_iff.1 hl
    obtain ⟨stream, content', hread, hstream, hcontent, -⟩ := read_cons hs hraw
    have hlines : lineTexts content' = raws.map lineText := by rw [lineTexts, hcontent]
    refine .line (by rw [hread]) (ih ?_ (hlines.trans hraws))
    rw [hread]
    exact hstream

theorem path_read (h : Handle) : h.read.2.path = h.path := by
  rcases h.read_cases with ⟨fault, stream, hread⟩ | ⟨stream, hread⟩ | ⟨stream, line, hread⟩ <;> rw [hread] <;> rfl

theorem eq_io_of_read {f : Failure} (hread : h.read.1.outcome = .error f) : ∃ fault, f = .io h.path fault := by
  rcases h.read_cases with ⟨fault, stream, h'⟩ | ⟨stream, h'⟩ | ⟨stream, line, h'⟩ <;> rw [h'] at hread <;>
    cases hread
  exact ⟨fault, rfl⟩

namespace Reads

theorem unique {lines' : List String} {stop' : Option Failure} (hr : h.Reads lines stop)
    (hr' : h.Reads lines' stop') : lines = lines' ∧ stop = stop' := by
  induction hr generalizing lines' with
  | ended hread =>
    cases hr' with
    | ended => exact ⟨rfl, rfl⟩
    | failed hread' | line hread' => cases hread.symm.trans hread'
  | failed hread =>
    cases hr' with
    | failed hread' =>
      cases hread.symm.trans hread'
      exact ⟨rfl, rfl⟩
    | ended hread' | line hread' => cases hread.symm.trans hread'
  | line hread _ ih =>
    cases hr' with
    | line hread' hnext' =>
      cases hread.symm.trans hread'
      obtain ⟨rfl, rfl⟩ := ih hnext'
      exact ⟨rfl, rfl⟩
    | ended hread' | failed hread' => cases hread.symm.trans hread'

theorem eq_io {f : Failure} (hr : h.Reads lines (some f)) : ∃ fault, f = .io h.path fault := by
  generalize hstop : some f = stop at hr
  induction hr with
  | ended => cases hstop
  | failed hread =>
    cases hstop
    exact eq_io_of_read hread
  | @line h _ _ _ _ _ ih =>
    obtain ⟨fault, hf⟩ := ih hstop
    exact ⟨fault, by rw [hf, h.path_read]⟩

theorem after (hr : h.Reads (passed ++ rest) stop) : (h.after passed.length).Reads rest stop := by
  induction passed generalizing h with
  | nil => exact hr
  | cons first passed ih =>
    cases hr with
    | line _ hnext => exact ih hnext

theorem current_after (hr : h.Reads (passed ++ line :: rest) stop) :
    (h.after (passed.length + 1)).current = some line := by
  have hline := hr.after
  rw [after_succ]
  cases hline with
  | line hread _ => exact current_read_eq_some_iff.2 hread

theorem previous_after (hr : h.Reads (passed ++ line :: rest) stop) (hnew : h.current = none) :
    (h.after (passed.length + 1)).previous = passed.getLast? := by
  rw [previous_after_succ]
  rcases List.eq_nil_or_concat' passed with rfl | ⟨front, last, rfl⟩
  · exact hnew
  · rw [List.append_assoc, List.singleton_append] at hr
    rw [List.length_append, List.length_singleton, hr.current_after, List.getLast?_concat]

end Reads

end Handle

def Course (fs : FileSystem) (path : String) (lines : List String) (stop : Option Failure) : Prop :=
  ∃ stream, fs.openFile path = .ok stream ∧ Handle.Reads { path, stream } lines stop

section Course

variable {fs : FileSystem} {path : String}

theorem course_of_delivers {stream : ByteStream} {content : Bytes} (hopen : fs.openFile path = .ok stream)
    (hs : stream.Delivers content) : Course fs path (lineTexts content) none :=
  ⟨stream, hopen, Handle.reads_of_delivers hs⟩

theorem closed_or_course (fs : FileSystem) (path : String) :
    (∃ fault, fs.openFile path = .error fault) ∨ ∃ lines stop, Course fs path lines stop := by
  cases hopen : fs.openFile path with
  | error fault => exact .inl ⟨fault, rfl⟩
  | ok stream =>
    obtain ⟨lines, stop, hr⟩ := Handle.exists_reads { path, stream }
    exact .inr ⟨lines, stop, stream, hopen, hr⟩

theorem Course.unique {lines lines' : List String} {stop stop' : Option Failure} (hc : Course fs path lines stop)
    (hc' : Course fs path lines' stop') : lines = lines' ∧ stop = stop' := by
  obtain ⟨stream, hopen, hr⟩ := hc
  obtain ⟨stream', hopen', hr'⟩ := hc'
  cases hopen.symm.trans hopen'
  exact hr.unique hr'

theorem Course.code_eq {lines : List String} {f : Failure} (hc : Course fs path lines (some f)) :
    f.code = .io := by
  obtain ⟨stream, -, hr⟩ := hc
  obtain ⟨fault, rfl⟩ := hr.eq_io
  rfl

end Course

end SidCatalog.TextFile
