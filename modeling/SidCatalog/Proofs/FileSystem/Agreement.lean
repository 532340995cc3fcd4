import SidCatalog.Proofs.FileSystem.Hashing
import SidCatalog.Proofs.FileSystem.Loading

/-! Loading a file and taking its digest. Both read the file to its end, so below the loader's limit they succeed on
the same files, with the bytes and the digest of these bytes, and fail on the others with the same fault. -/

namespace SidCatalog.FileSystem

variable {fs : FileSystem} {path : String}

def wholeFile (fs : FileSystem) (path : String) : Except OsFault Bytes := (fs.openFile path).bind ByteStream.whole

theorem outcome_loadFile (hsize : ∀ stream, fs.openFile path = .ok stream → stream.incoming.length ≤ maxFileSize) :
    (fs.loadFile path).outcome = (fs.wholeFile path).mapError (.io path) := by
  rw [loadFile, Attempt.outcome_bind, openStream, wholeFile]
  cases hopen : fs.openFile path with
  | error fault => rfl
  | ok stream =>
    change (load path maxFileSize stream).outcome = _
    rw [load_eq path (hsize stream hopen)]
    rfl

theorem outcome_digestFile_eq :
    (fs.digestFile path).outcome = ((fs.wholeFile path).map .ofBytes).mapError (.io path) := by
  rw [outcome_digestFile, wholeFile]
  cases fs.openFile path with
  | error fault => rfl
  | ok stream => exact congrArg _ (Digest.ofStream_eq stream)

/-- A file that comes in pieces has the digest of all its bytes. Within the loader's limit the digest is found if and
only if the file loads, it is the digest of what is loaded, and otherwise both fail alike. -/
theorem digestFile_agrees_loadFile
    (hsize : ∀ stream, fs.openFile path = .ok stream → stream.incoming.length ≤ maxFileSize) :
    (∀ stream : ByteStream, stream.failure? = none → Digest.ofStream stream = .ok (.ofBytes stream.incoming)) ∧
      ((∃ d, (fs.digestFile path).outcome = .ok d) ↔ ∃ data, (fs.loadFile path).outcome = .ok data) ∧
      (∀ data, (fs.loadFile path).outcome = .ok data → (fs.digestFile path).outcome = .ok (.ofBytes data)) ∧
      ∀ f, (fs.loadFile path).outcome = .error f →
        (fs.digestFile path).outcome = .error f ∧ ∃ fault, f = .io path fault := by
  refine ⟨fun stream hend => ?_, ?_⟩
  · rw [Digest.ofStream_eq, ByteStream.whole, hend]
    rfl
  · rw [outcome_loadFile hsize, outcome_digestFile_eq]
    cases fs.wholeFile path with
    | ok data =>
      refine ⟨⟨fun _ => ⟨data, rfl⟩, fun _ => ⟨.ofBytes data, rfl⟩⟩, ?_, ?_⟩
      · rintro _ ⟨⟩
        rfl
      · rintro _ ⟨⟩
    | error fault =>
      refine ⟨⟨?_, ?_⟩, ?_, ?_⟩
      · rintro ⟨_, ⟨⟩⟩
      · rintro ⟨_, ⟨⟩⟩
      · rintro _ ⟨⟩
      · rintro _ ⟨⟩
        exact ⟨rfl, fault, rfl⟩

def splitFiles : FileSystem where
  openFile path :=
    .ok (if path = "tune" then .piece [0x50, 0x53] (.interrupted (.piece [0x49] .drained)) else .broken .isDirectory)

theorem digestFile_agrees_loadFile_split :
    (splitFiles.loadFile "tune").outcome = .ok [0x50, 0x53, 0x49] ∧
      (splitFiles.digestFile "tune").outcome = .ok (.ofBytes [0x50, 0x53, 0x49]) ∧
      (splitFiles.loadFile "tunes").outcome = .error (.io "tunes" .isDirectory) ∧
      (splitFiles.digestFile "tunes").outcome = .error (.io "tunes" .isDirectory) := by
  have hsize (path : String) (stream : ByteStream) (hopen : splitFiles.openFile path = .ok stream) :
      stream.incoming.length ≤ maxFileSize := by
    cases hopen
    split <;> decide
  have hload : (splitFiles.loadFile "tune").outcome = .ok [0x50, 0x53, 0x49] := by
    rw [outcome_loadFile (hsize "tune")]
    rfl
  have hfail : (splitFiles.loadFile "tunes").outcome = .error (.io "tunes" .isDirectory) := by
    rw [outcome_loadFile (hsize "tunes")]
    rfl
  obtain ⟨-, -, hdigest, -⟩ := digestFile_agrees_loadFile (hsize "tune")
  obtain ⟨-, -, -, hfault⟩ := digestFile_agrees_loadFile (hsize "tunes")
  exact ⟨hload, hdigest _ hload, hfail, (hfault _ hfail).1⟩

end SidCatalog.FileSystem
