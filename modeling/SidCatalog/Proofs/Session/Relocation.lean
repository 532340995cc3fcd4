import Mathlib.Data.List.Nodup
import SidCatalog.Proofs.Session.Routes

/-! Tunes that move. In a published list without repetitions a tune is found by its path while it is in its place
under the root, and by its digest anywhere else, and both lookups come to the same entry. -/

namespace SidCatalog

namespace SongLengths

open TextFile

theorem find?_of_nodup {α : Type} [DecidableEq α] {records : List Listed} {key : Listed → α}
    (hnodup : (records.map key).Nodup) {r : Listed} (hr : r ∈ records) :
    (records.find? fun other => key other = key r) = some r := by
  cases hfind : records.find? fun other => key other = key r with
  | none =>
    have hne : ¬ key r = key r := by simpa using List.find?_eq_none.1 hfind r hr
    exact absurd rfl hne
  | some other =>
    have hkey : key other = key r := by simpa using List.find?_some hfind
    rw [List.inj_on_of_nodup_map hnodup (List.mem_of_find?_eq_some hfind) hr hkey]

section Lookup

variable {fs : FileSystem} {sldb : String} {stream : ByteStream} {records : List Listed} {r : Listed}
  {newline : Newline} {closed : Bool}

theorem findByPath_of_mem (hopen : fs.openFile sldb = .ok stream)
    (hs : stream.Delivers (Text.bytes (fileText newline closed (listing records))))
    (hpaths : (records.map Listed.path).Nodup) (hr : r ∈ records) :
    (findByPath fs sldb r.path).outcome = .ok r.result := by
  rw [findByPath_listing hopen hs (lineTexts_listing ..) r.isListed, find?_of_nodup hpaths hr]

theorem findByDigest_of_mem (hopen : fs.openFile sldb = .ok stream)
    (hs : stream.Delivers (Text.bytes (fileText newline closed (listing records))))
    (hdigests : (records.map Listed.digest).Nodup) (hr : r ∈ records) :
    (findByDigest fs sldb r.digest).outcome = .ok r.result := by
  rw [findByDigest_listing hopen hs (lineTexts_listing ..) r.digest, find?_of_nodup hdigests hr]

end Lookup

theorem IsListed.ne_empty {path : String} (h : IsListed path) : path ≠ "" := by
  rintro rfl
  cases h.head?_eq

end SongLengths

namespace Session

open TextFile SongLengths

/-- A tune has the same lengths in its place under the root, where it need not even be read, and outside of the
root, where its content tells its digest. -/
theorem songLengths_of_moved {s : Session} {fs : FileSystem} {paths : RootPaths} {records : List Listed} {r : Listed}
    {newline : Newline} {closed : Bool} {sldb tune : ByteStream} {content : Bytes} {outside : String}
    (hpaths : s.paths = some paths) (hroot : paths.root ≠ "") (hopen : fs.openFile paths.sldb = .ok sldb)
    (hsldb : sldb.Delivers (Text.bytes (fileText newline closed (listing records))))
    (hnodup : (records.map Listed.path).Nodup) (hdigests : (records.map Listed.digest).Nodup)
    (hr : r ∈ records) (houtside : ¬ Path.Under paths.root outside) (htune : fs.openFile outside = .ok tune)
    (hcontent : tune.Delivers content) (hdigest : Digest.ofBytes content = r.digest) :
    (s.songLengths fs (paths.root ++ r.path)).1.outcome = .ok r.result ∧
      (s.songLengths fs outside).1.outcome = .ok r.result := by
  constructor
  · have hunder : Path.Under paths.root (paths.root ++ r.path) := Path.under_append hroot r.isListed.ne_empty
    have hlisted : (findByPath fs paths.sldb (Path.normalize r.path)).outcome = .ok r.result := by
      rw [Path.normalize_eq_self r.isListed.backslash_not_mem]
      exact findByPath_of_mem hopen hsldb hnodup hr
    exact outcome_of_found hpaths hunder hlisted
  · have hread : (fs.digestFile outside).outcome = .ok r.digest := by
      rw [FileSystem.digestFile_of_delivers htune hcontent, hdigest]
    rw [outcome_of_not_under hpaths houtside, digestRoute, hread]
    exact findByDigest_of_mem hopen hsldb hdigests hr

def movedList : Bytes := Text.bytes (fileText .crlf false (listing [taggedTune, strayTune]))

def movedFiles : FileSystem where
  openFile path := .ok (.ofBytes (if path = "c64/DOCUMENTS/Songlengths.md5" then movedList else [0x78]))

theorem songLengths_of_moved_stray :
    let s := ({} : Session).setRoot "c64"
    (s.songLengths movedFiles "c64/b").1.outcome = .ok strayTune.result ∧
      (s.songLengths movedFiles "x.sid").1.outcome = .ok strayTune.result := by
  have hsldb : (ByteStream.ofBytes movedList).Delivers movedList := ByteStream.delivers_ofBytes movedList
  have houtside : ¬ Path.Under "c64" "x.sid" := by
    rintro ⟨-, rest, -, h⟩
    simpa using congrArg String.toList h
  have hmem : strayTune ∈ [taggedTune, strayTune] := by simp
  have hroot : (RootPaths.ofRoot "c64").root ≠ "" := by decide
  exact songLengths_of_moved rfl hroot rfl hsldb (by decide) (by decide +kernel) hmem houtside rfl
    (ByteStream.delivers_ofBytes [0x78]) rfl

end Session

end SidCatalog
