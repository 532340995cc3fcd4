import SidCatalog.Proofs.FileSystem.Hashing
import SidCatalog.Proofs.Path.Root
import SidCatalog.Proofs.SongLengths.Obstacle
import SidCatalog.Proofs.SongLengths.Retrieval
import SidCatalog.Session

/-! The two routes to the song lengths of a file. The route by digest is open to every file; the route by path goes
first for a file under the root, and its outcome stands unless it is a miss. The root need not end where a name
ends, so a file beside the root whose name goes on after it takes the route by path, too. -/

namespace SidCatalog

namespace SongLengths

theorem listedPath_normalize {rest : String} (hslash : rest.toList.head? ≠ some '/')
    (hback : rest.toList.head? ≠ some '\\') :
    listedPath (Path.normalize rest) = listedPath ("/" ++ Path.normalize rest) := by
  have hnormal : '\\' ∉ ("/" ++ Path.normalize rest).toList := by
    simp [Path.backslash_not_mem_normalize rest]
  rw [listedPath, listedPath, Path.normalize_eq_self (Path.backslash_not_mem_normalize rest),
    Path.normalize_eq_self hnormal, Path.absolute_normalize hslash hback, Path.absolute_eq_self (by simp)]

end SongLengths

namespace Session

open TextFile SongLengths

def digestRoute (fs : FileSystem) (sldb file : String) : Except Failure SongLengths :=
  (fs.digestFile file).outcome.bind fun d => (findByDigest fs sldb d).outcome

section Routes

variable {s : Session} {fs : FileSystem} {paths : RootPaths} {sldb file rest : String} {f : Failure}

theorem outcome_lengthsByDigest : (lengthsByDigest fs sldb file).outcome = digestRoute fs sldb file :=
  Attempt.outcome_bind _ _

theorem outcome_songLengths (hpaths : s.paths = some paths) :
    (s.songLengths fs file).1.outcome = (lengthsUnder fs paths file).outcome := by
  simp only [songLengths, record, lookupLengths, hpaths]

theorem outcome_of_not_under (hpaths : s.paths = some paths) (h : ¬ Path.Under paths.root file) :
    (s.songLengths fs file).1.outcome = digestRoute fs paths.sldb file := by
  have hunder : ¬ paths.isUnder file = true := fun hu => h (Path.isUnder_iff.1 hu)
  rw [outcome_songLengths hpaths, lengthsUnder, if_neg hunder, outcome_lengthsByDigest]

theorem strip_of_under (h : Path.Under paths.root (paths.root ++ rest)) :
    paths.isUnder (paths.root ++ rest) = true ∧ paths.strip (paths.root ++ rest) = rest := by
  refine ⟨Path.isUnder_iff.2 h, ?_⟩
  obtain ⟨hroot, more, hmore, he⟩ := h
  obtain rfl : rest = more := String.append_right_inj _ |>.1 he
  exact Path.strip_append hroot hmore

theorem outcome_of_miss (hpaths : s.paths = some paths) (h : Path.Under paths.root (paths.root ++ rest))
    (hmiss : IsMiss (findByPath fs paths.sldb (Path.normalize rest)).outcome) :
    (s.songLengths fs (paths.root ++ rest)).1.outcome = digestRoute fs paths.sldb (paths.root ++ rest) := by
  obtain ⟨hunder, hstrip⟩ := strip_of_under h
  obtain ⟨g, hg, hcode⟩ := hmiss
  rw [outcome_songLengths hpaths, lengthsUnder, if_pos hunder, hstrip]
  dsimp only
  rw [hg]
  cases g with
  | notFound what => exact outcome_lengthsByDigest
  | _ => cases hcode

theorem outcome_of_not_miss (hpaths : s.paths = some paths) (h : Path.Under paths.root (paths.root ++ rest))
    (hmiss : ¬ IsMiss (findByPath fs paths.sldb (Path.normalize rest)).outcome) :
    (s.songLengths fs (paths.root ++ rest)).1.outcome =
      (findByPath fs paths.sldb (Path.normalize rest)).outcome := by
  obtain ⟨hunder, hstrip⟩ := strip_of_under h
  rw [outcome_songLengths hpaths, lengthsUnder, if_pos hunder, hstrip]
  dsimp only
  split
  · next what hwhat => exact absurd ⟨_, hwhat, rfl⟩ hmiss
  · rfl

theorem outcome_of_found {found : SongLengths} (hpaths : s.paths = some paths)
    (h : Path.Under paths.root (paths.root ++ rest))
    (hfound : (findByPath fs paths.sldb (Path.normalize rest)).outcome = .ok found) :
    (s.songLengths fs (paths.root ++ rest)).1.outcome = .ok found := by
  have hmiss : ¬ IsMiss (findByPath fs paths.sldb (Path.normalize rest)).outcome := hfound ▸ not_isMiss_ok found
  rw [outcome_of_not_miss hpaths h hmiss, hfound]

theorem missing_of_digestRoute (hf : digestRoute fs sldb file = .error f) (hcode : f.code = .notFound) :
    ∃ d, (fs.digestFile file).outcome = .ok d ∧ (findByDigest fs sldb d).outcome = .error f := by
  rw [digestRoute] at hf
  cases hdigest : (fs.digestFile file).outcome with
  | ok d =>
    rw [hdigest] at hf
    exact ⟨d, rfl, hf⟩
  | error g =>
    rw [hdigest] at hf
    obtain rfl : g = f := Except.error.inj hf
    rw [FileSystem.code_of_digestFile hdigest] at hcode
    cases hcode

theorem digestRoute_of_songLengths (hpaths : s.paths = some paths)
    (hf : (s.songLengths fs file).1.outcome = .error f) (hcode : f.code = .notFound) :
    digestRoute fs paths.sldb file = .error f := by
  by_cases hunder : Path.Under paths.root file
  · obtain ⟨-, rest, -, rfl⟩ := id hunder
    by_cases hmiss : IsMiss (findByPath fs paths.sldb (Path.normalize rest)).outcome
    · rwa [outcome_of_miss hpaths hunder hmiss] at hf
    · rw [outcome_of_not_miss hpaths hunder hmiss] at hf
      exact absurd ⟨f, hf, hcode⟩ hmiss
  · rwa [outcome_of_not_under hpaths hunder] at hf

end Routes

/-- Without a root nothing is read and the lookup is refused. With one, the outcome by path stands for a file under
the root unless it is a miss, and that by digest for all other files. So no obstacle on the route by path is
passed over, and lengths are missing only where the digest is. -/
theorem songLengths_decision (s : Session) (fs : FileSystem) (file : String) :
    (s.paths = none →
      ∀ fs', s.songLengths fs' file = s.record (.fail (.invalid "HVSC root is not set"))) ∧
    ∀ paths, s.paths = some paths →
      (¬ Path.Under paths.root file →
        (s.songLengths fs file).1.outcome = digestRoute fs paths.sldb file) ∧
      (∀ rest, Path.Under paths.root file → file = paths.root ++ rest →
        (IsMiss (findByPath fs paths.sldb (Path.normalize rest)).outcome →
          (s.songLengths fs file).1.outcome = digestRoute fs paths.sldb file) ∧
        (¬ IsMiss (findByPath fs paths.sldb (Path.normalize rest)).outcome →
          (s.songLengths fs file).1.outcome = (findByPath fs paths.sldb (Path.normalize rest)).outcome) ∧
        ∀ f, Obstacle fs paths.sldb (Path.normalize rest) f → (s.songLengths fs file).1.outcome = .error f) ∧
      ∀ f, (s.songLengths fs file).1.outcome = .error f → f.code = .notFound →
        ∃ d lines, (fs.digestFile file).outcome = .ok d ∧ f = .noEntryForDigest d.toHex ∧
          Course fs paths.sldb lines none ∧ ∀ l ∈ lines, Entry.isFor d l = false := by
  refine ⟨fun hpaths fs' => ?_, fun paths hpaths => ⟨outcome_of_not_under hpaths, ?_, ?_⟩⟩
  · simp only [songLengths, lookupLengths, hpaths]
    rfl
  · rintro rest hunder rfl
    refine ⟨outcome_of_miss hpaths hunder, outcome_of_not_miss hpaths hunder, fun f hobstacle => ?_⟩
    have houtcome := hobstacle.outcome_eq
    have hmiss : ¬ IsMiss (findByPath fs paths.sldb (Path.normalize rest)).outcome := by
      rw [houtcome, isMiss_error_iff]
      exact hobstacle.code_ne
    rw [outcome_of_not_miss hpaths hunder hmiss, houtcome]
  · intro f hf hcode
    obtain ⟨d, hd, hfound⟩ := missing_of_digestRoute (digestRoute_of_songLengths hpaths hf hcode) hcode
    obtain ⟨hmissing, lines, hc, hlines⟩ := findByDigest_missing_iff.1 ⟨hfound, hcode⟩
    exact ⟨d, lines, hd, hmissing, hc, hlines⟩

def strayTune : Listed where
  path := "/b"
  digest := .ofBytes [0x78]
  times := [.untagged minute]
  isListed := ⟨by decide, by decide, by decide, by simp; decide⟩

def strayLines : List String := ["; /a", "no entry", strayTune.entryLine]

def strayFiles : FileSystem where
  openFile path := .ok (.ofBytes
    (if path = "c64/DOCUMENTS/Songlengths.md5" then Text.bytes (fileText .lf true strayLines) else [0x78]))

theorem course_strayFiles : Course strayFiles "c64/DOCUMENTS/Songlengths.md5" strayLines none := by
  have hlines : ∀ line ∈ strayLines, IsLine line := by
    simp only [strayLines, List.forall_mem_cons]
    exact ⟨⟨by decide, by decide, by decide⟩, ⟨by decide, by decide, by decide⟩, strayTune.isLine_entryLine,
      List.forall_mem_nil _⟩
  rw [← @lineTexts_fileText .lf true strayLines hlines]
  exact course_of_delivers rfl (ByteStream.delivers_ofBytes _)

theorem digestRoute_strayFiles :
    digestRoute strayFiles "c64/DOCUMENTS/Songlengths.md5" "c64/a" = .ok ⟨.ofBytes [0x78], none, [minute]⟩ := by
  have htune : (strayFiles.digestFile "c64/a").outcome = .ok (.ofBytes [0x78]) :=
    FileSystem.digestFile_of_delivers rfl (ByteStream.delivers_ofBytes [0x78])
  have hc : Course strayFiles "c64/DOCUMENTS/Songlengths.md5"
      (["; /a", "no entry"] ++ strayTune.entryLine :: []) none := course_strayFiles
  have hpassed : ∀ l ∈ ["; /a", "no entry"], Entry.isFor (.ofBytes [0x78]) l = false := by
    intro l hl
    rcases List.mem_pair.1 hl with rfl | rfl
    · exact Entry.isFor_of_head? (by rfl : _ = some ';') (by decide) _
    · exact Entry.isFor_of_head? (by rfl : _ = some 'n') (by decide) _
  rw [digestRoute, htune, Except.bind,
    outcome_findByDigest_of_hit hc hpassed (strayTune.isFor_entryLine.2 rfl), strayTune.parse_entryLine]
  rfl

theorem songLengths_of_stray :
    let s := ({} : Session).setRoot "c64"
    (s.songLengths strayFiles "c64/a").1.outcome = .error (.entryWithoutEquals "no entry") ∧
      digestRoute strayFiles "c64/DOCUMENTS/Songlengths.md5" "c64/a" =
        .ok ⟨.ofBytes [0x78], none, [minute]⟩ := by
  refine ⟨?_, digestRoute_strayFiles⟩
  have hc : Course strayFiles (RootPaths.ofRoot "c64").sldb
      ([] ++ "; /a" :: "no entry" :: [strayTune.entryLine]) none := course_strayFiles
  have hobstacle := @Obstacle.malformed _ _ (Path.normalize "/a") _ _ _ _ _ (.entryWithoutEquals "no entry") hc
    (List.forall_mem_nil _) (by decide) (by rfl)
  have hunder : Path.Under "c64" ("c64" ++ "/a") := Path.under_append (by decide) (by decide)
  obtain ⟨-, hrooted⟩ := songLengths_decision (({} : Session).setRoot "c64") strayFiles "c64/a"
  obtain ⟨-, hroutes, -⟩ := hrooted (.ofRoot "c64") rfl
  obtain ⟨-, -, hkept⟩ := hroutes "/a" hunder rfl
  exact hkept _ hobstacle

/-- A file that is not inside the root still takes the route by path when its name goes on after the root, and
keeps what the list has under the rest of the name. -/
theorem songLengths_of_not_inside {s : Session} {fs : FileSystem} {paths : RootPaths} {file : String}
    (hpaths : s.paths = some paths) (hroot : paths.root ≠ "") (hfile : ¬ Path.Inside paths.root file) :
    (∀ rest, rest ≠ "" → file = paths.root ++ rest →
      ¬ IsMiss (findByPath fs paths.sldb ("/" ++ Path.normalize rest)).outcome →
      (s.songLengths fs file).1.outcome = (findByPath fs paths.sldb ("/" ++ Path.normalize rest)).outcome) ∧
    ((∀ rest, rest ≠ "" → file = paths.root ++ rest →
        IsMiss (findByPath fs paths.sldb ("/" ++ Path.normalize rest)).outcome) →
      (s.songLengths fs file).1.outcome = digestRoute fs paths.sldb file) := by
  have hlisted : ∀ rest, file = paths.root ++ rest →
      findByPath fs paths.sldb (Path.normalize rest) = findByPath fs paths.sldb ("/" ++ Path.normalize rest) := by
    rintro rest rfl
    obtain ⟨hslash, hback⟩ := Path.head?_ne_of_not_inside hfile
    exact findByPath_congr (listedPath_normalize hslash hback)
  constructor
  · intro rest hrest he hmiss
    rw [← hlisted rest he] at hmiss ⊢
    subst he
    exact outcome_of_not_miss hpaths (Path.under_append hroot hrest) hmiss
  · intro hmiss
    by_cases hunder : Path.Under paths.root file
    · obtain ⟨-, rest, hrest, rfl⟩ := id hunder
      have hmissed := hmiss rest hrest rfl
      rw [← hlisted rest rfl] at hmissed
      exact outcome_of_miss hpaths hunder hmissed
    · exact outcome_of_not_under hpaths hunder

def siblingTune : Listed where
  path := "/b/x.sid"
  digest := zeroDigest
  times := [.untagged minute]
  isListed := ⟨by decide, by decide, by decide, by simp; decide⟩

def siblingList : Bytes := Text.bytes (fileText .lf true (listing [siblingTune]))

def siblingFiles : FileSystem where
  openFile path := .ok (.ofBytes (if path = "c64/DOCUMENTS/Songlengths.md5" then siblingList else [0x78]))

theorem findByPath_siblingFiles :
    (findByPath siblingFiles "c64/DOCUMENTS/Songlengths.md5" "/b/x.sid").outcome = .ok siblingTune.result := by
  have hdelivers := ByteStream.delivers_ofBytes siblingList
  exact findByPath_listing rfl hdelivers (lineTexts_listing ..) siblingTune.isListed

theorem digestRoute_siblingFiles :
    digestRoute siblingFiles "c64/DOCUMENTS/Songlengths.md5" "c64b/x.sid" =
      .error (.noEntryForDigest "9dd4e461268c8034f5c8564e155c67a6") := by
  have htune : (siblingFiles.digestFile "c64b/x.sid").outcome = .ok (.ofBytes [0x78]) :=
    FileSystem.digestFile_of_delivers rfl (ByteStream.delivers_ofBytes [0x78])
  have hdigest : zeroDigest ≠ Digest.ofBytes [0x78] := by decide +kernel
  have hhex : (Digest.ofBytes [0x78]).toHex = "9dd4e461268c8034f5c8564e155c67a6" := by decide +kernel
  have hdelivers := ByteStream.delivers_ofBytes siblingList
  rw [digestRoute, htune, Except.bind, findByDigest_listing rfl hdelivers (lineTexts_listing ..)]
  simp [siblingTune, hdigest, hhex]

theorem not_inside_sibling : ¬ Path.Inside "c64" "c64b/x.sid" := by
  rintro ⟨rest, h | h⟩ <;> simpa using congrArg String.toList h

theorem songLengths_of_sibling :
    let s := ({} : Session).setRoot "c64"
    ¬ Path.Inside "c64" "c64b/x.sid" ∧
      (s.songLengths siblingFiles "c64b/x.sid").1.outcome = .ok ⟨zeroDigest, some "/b/x.sid", [minute]⟩ ∧
      digestRoute siblingFiles "c64/DOCUMENTS/Songlengths.md5" "c64b/x.sid" =
        .error (.noEntryForDigest "9dd4e461268c8034f5c8564e155c67a6") := by
  refine ⟨not_inside_sibling, ?_, digestRoute_siblingFiles⟩
  have hlisted : findByPath siblingFiles (RootPaths.ofRoot "c64").sldb (Path.normalize "b/x.sid") =
      findByPath siblingFiles "c64/DOCUMENTS/Songlengths.md5" "/b/x.sid" :=
    findByPath_congr (by decide : listedPath (Path.normalize "b/x.sid") = listedPath "/b/x.sid")
  have hunder : Path.Under "c64" ("c64" ++ "b/x.sid") := Path.under_append (by decide) (by decide)
  have hfound : (findByPath siblingFiles (RootPaths.ofRoot "c64").sldb (Path.normalize "b/x.sid")).outcome =
      .ok siblingTune.result := by
    rw [hlisted, findByPath_siblingFiles]
  have houtcome := outcome_of_found (s := ({} : Session).setRoot "c64") rfl hunder hfound
  exact houtcome

theorem songLengths_of_sibling_listed :
    let s := ({} : Session).setRoot "c64"
    ¬ Path.Inside "c64" "c64b/x.sid" ∧
      (s.songLengths siblingFiles "c64b/x.sid").1.outcome =
        (findByPath siblingFiles "c64/DOCUMENTS/Songlengths.md5" "/b/x.sid").outcome := by
  refine ⟨not_inside_sibling, ?_⟩
  have hmiss : ¬ IsMiss (findByPath siblingFiles "c64/DOCUMENTS/Songlengths.md5" "/b/x.sid").outcome := by
    rw [findByPath_siblingFiles]
    exact not_isMiss_ok _
  have hroutes := @songLengths_of_not_inside (({} : Session).setRoot "c64") siblingFiles (.ofRoot "c64")
    "c64b/x.sid" rfl (by decide) not_inside_sibling
  exact hroutes.1 "b/x.sid" (by decide) rfl hmiss

end Session

end SidCatalog
