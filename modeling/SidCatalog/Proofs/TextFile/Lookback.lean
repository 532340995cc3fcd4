import SidCatalog.Proofs.TextFile.Lines

/-! The line before the current one. Both lines change places on every read, also on one that returns no line, so
after any run of reads the previous line is what the last read but one returned. -/

namespace SidCatalog.TextFile

namespace Handle

theorem read_of_no_line {h : Handle} (hno : ∀ line, h.read.1.outcome ≠ .ok (some line)) :
    ∃ stream, h.read.2 = h.advance stream := by
  rcases h.read_cases with ⟨fault, stream, hread⟩ | ⟨stream, hread⟩ | ⟨stream, raw, hread⟩
  · exact ⟨stream, by rw [hread]⟩
  · exact ⟨stream, by rw [hread]⟩
  · exact absurd (by rw [hread]) (hno (lineText raw))

end Handle

theorem exists_opened_of_openFile {fs : FileSystem} {path : String} {file : TextFile}
    (hopen : (openFile fs path).outcome = .ok file) :
    ∃ stream, fs.openFile path = .ok stream ∧ file = opened { path, stream } := by
  cases hstream : fs.openFile path with
  | error fault =>
    rw [openFile, openHandle, FileSystem.openStream, hstream] at hopen
    cases hopen
  | ok stream =>
    rw [openFile_of_ok hstream] at hopen
    exact ⟨stream, rfl, (Except.ok.inj hopen).symm⟩

/-- Whatever the stream brings, the previous line is the one that the last read but one returned, and there is none
when it returned none or when there were not two reads. A read that returns no line leaves all else as it is. -/
theorem previousLine_of_reads {fs : FileSystem} {path : String} {file : TextFile}
    (hopen : (openFile fs path).outcome = .ok file) :
    (∀ n ≤ 1, (after n file).previousLine = none) ∧
      (∀ n line, (after (n + 2) file).previousLine = some line ↔
        (after n file).read.1.outcome = .ok (some line)) ∧
      ∀ n, (∀ line, (after n file).read.1.outcome ≠ .ok (some line)) →
        (after (n + 1) file).lineNumber = (after n file).lineNumber ∧
          (after (n + 1) file).capacity = (after n file).capacity ∧
          (after (n + 1) file).path? = (after n file).path? ∧
          (after (n + 1) file).isOpen = (after n file).isOpen := by
  obtain ⟨stream, -, rfl⟩ := exists_opened_of_openFile hopen
  simp only [after_opened, previousLine, read]
  refine ⟨fun n hn => ?_, fun n line => ?_, fun n hno => ?_⟩
  · rcases Nat.le_one_iff_eq_zero_or_eq_one.1 hn with rfl | rfl
    · rfl
    · exact Handle.previous_after_succ 0 _
  · rw [Handle.previous_after_succ, Handle.after_succ]
    exact Handle.current_read_eq_some_iff
  · obtain ⟨stream', hread⟩ := Handle.read_of_no_line hno
    rw [Handle.after_succ, hread]
    exact ⟨rfl, rfl, rfl, rfl⟩

def interruptedStream : ByteStream :=
  .piece [0x61, 0x62, 0x0A] (.piece [] (.fault (.number 5) (.piece [0x63] .drained)))

def interruptedFile : TextFile := opened { path := "list", stream := interruptedStream }

theorem previousLine_of_reads_interrupted :
    (openFile ⟨fun _ => .ok interruptedStream⟩ "list").outcome = .ok interruptedFile ∧
      (after 1 interruptedFile).previousLine = none ∧ (after 2 interruptedFile).previousLine = some "ab" ∧
      (after 3 interruptedFile).previousLine = none ∧ (after 4 interruptedFile).previousLine = none ∧
      (after 5 interruptedFile).previousLine = some "c" ∧
      (after 2 interruptedFile).lineNumber = (after 1 interruptedFile).lineNumber ∧
      (after 3 interruptedFile).lineNumber = (after 2 interruptedFile).lineNumber := by
  have hopen : (openFile ⟨fun _ => .ok interruptedStream⟩ "list").outcome = .ok interruptedFile := rfl
  obtain ⟨hfew, hprevious, hkept⟩ := previousLine_of_reads hopen
  have hend : (after 1 interruptedFile).read.1.outcome = .ok none := by decide
  have hfault : (after 2 interruptedFile).read.1.outcome = .error (.io "list" (.number 5)) := by decide
  have hend' : ∀ line, (after 1 interruptedFile).read.1.outcome ≠ .ok (some line) := by simp [hend]
  have hfault' : ∀ line, (after 2 interruptedFile).read.1.outcome ≠ .ok (some line) := by simp [hfault]
  refine ⟨hopen, hfew 1 (Nat.le_refl 1), (hprevious 0 "ab").2 (by decide), ?_, ?_, (hprevious 3 "c").2 (by decide),
    (hkept 1 hend').1, (hkept 2 hfault').1⟩
  · exact Option.eq_none_iff_forall_ne_some.2 fun line h => hend' line ((hprevious 1 line).1 h)
  · exact Option.eq_none_iff_forall_ne_some.2 fun line h => hfault' line ((hprevious 2 line).1 h)

end SidCatalog.TextFile
