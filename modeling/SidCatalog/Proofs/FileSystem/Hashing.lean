import SidCatalog.FileSystem
import SidCatalog.Proofs.ByteStream.Content

/-! Digests of files. In whatever pieces a file arrives, its digest is that of its content, and the only failures
are those of opening and reading it. -/

namespace SidCatalog

theorem Md5.Hasher.feed_eq (h : Hasher) (stream : ByteStream) : h.feed stream = stream.whole.map h.update := by
  induction stream generalizing h with
  | drained => rfl
  | broken f => rfl
  | fault f next _ => rfl
  | interrupted next ih => exact ih h
  | piece bs next ih =>
    by_cases hbs : bs = []
    · rw [hbs]
      rfl
    · rw [feed, if_neg hbs, ih, ByteStream.whole_piece hbs]
      cases next.whole with
      | error f => rfl
      | ok rest => rw [Except.map, Except.map, Except.map, update_append]

theorem Digest.ofStream_eq (stream : ByteStream) : ofStream stream = stream.whole.map ofBytes := by
  rw [ofStream, Md5.Hasher.feed_eq]
  cases stream.whole <;> rfl

namespace FileSystem

variable {fs : FileSystem} {path : String}

theorem outcome_digestFile :
    (fs.digestFile path).outcome = ((fs.openFile path).bind Digest.ofStream).mapError (.io path) := by
  rw [digestFile, openStream]
  cases fs.openFile path <;> rfl

theorem digestFile_of_delivers {stream : ByteStream} {content : Bytes} (hopen : fs.openFile path = .ok stream)
    (hs : stream.Delivers content) : (fs.digestFile path).outcome = .ok (.ofBytes content) := by
  rw [outcome_digestFile, hopen, Except.bind, Digest.ofStream_eq, hs.whole_eq]
  rfl

theorem code_of_digestFile {f : Failure} (h : (fs.digestFile path).outcome = .error f) : f.code = .io := by
  rw [outcome_digestFile] at h
  cases hdigest : (fs.openFile path).bind Digest.ofStream with
  | ok d =>
    rw [hdigest] at h
    cases h
  | error fault =>
    rw [hdigest] at h
    cases h
    rfl

end FileSystem

end SidCatalog
