import PbsGui.Ad.Archive
import PbsGui.Lib.EventRuns
import PbsGui.Lib.Selection

/-!
# System State backups: what the VSS writers are told

`capture::windows_impl::run` holds a VSS backup session while it archives and uploads the
files of the shadow copy.  `SystemStateCapture::complete` tells the writers the outcome; a
session that is dropped before that is aborted.

A run is the list of its events on the server and on the VSS session.  Given a repository, the
writers are told of a success only behind an accepted `finish` request for an index that holds
the archive of this capture.  Without one they are told the same with nothing on any server.
-/

namespace PbsGui.Ad

open Lib Client List

/-- The options of a run that its course depends on. -/
structure BackupOptions where
  repository : Option String
  backupId : Option String
  compress : Bool

/-- A component of the backup set, as its writer is told about it. -/
structure AddedComponent where
  instanceId : String
  writerId : String
  kind : Nat
  logicalPath : Option String
  name : String

/-- A VSS session with its snapshot taken and its files resolved. -/
structure SystemStateCapture where
  added : List AddedComponent
  files : List CapturedFile

/-- What happens in a run.  `complete` marks the call of that function. -/
inductive AdEvent
  | pbs (event : Event)
  | complete (succeeded : Bool)
  | setBackupSucceeded (component : AddedComponent) (succeeded : Bool)
  | backupComplete
  | abortBackup

def AdEvent.tellsSuccess : AdEvent → Bool
  | .complete succeeded => succeeded
  | .setBackupSucceeded _ succeeded => succeeded
  | _ => false

/-- The answers of VSS. -/
structure VssAnswers where
  setBackupSucceeded : AddedComponent → Except String Unit
  backupComplete : Except String Unit
  saveAsXml : Except String String

def VssAnswers.document (answers : VssAnswers) : Except String String :=
  answers.saveAsXml.mapError fun text => "SaveAsXML failed: " ++ text

/-- The loop over the components, up to the first call that fails. -/
def tellWriters (answers : VssAnswers) (succeeded : Bool) :
    List AddedComponent → List AdEvent × Except String Unit
  | [] => ([], .ok ())
  | component :: rest =>
    match answers.setBackupSucceeded component with
    | .error text =>
      ([.setBackupSucceeded component succeeded],
        .error ("SetBackupSucceeded failed: " ++ text))
    | .ok () =>
      (.setBackupSucceeded component succeeded :: (tellWriters answers succeeded rest).1,
        (tellWriters answers succeeded rest).2)

/-- `SystemStateCapture::complete`, which consumes the session: on an error before
`BackupComplete` is through, it is dropped and with that aborted. -/
def SystemStateCapture.complete (capture : SystemStateCapture) (answers : VssAnswers)
    (succeeded : Bool) : List AdEvent × Except String String :=
  let told := tellWriters answers succeeded capture.added
  match told.2, answers.backupComplete with
  | .error text, _ => (.complete succeeded :: told.1 ++ [.abortBackup], .error text)
  | .ok (), .error text =>
    (.complete succeeded :: told.1 ++ [.backupComplete, .abortBackup], .error text)
  | .ok (), .ok () => (.complete succeeded :: told.1 ++ [.backupComplete], answers.document)

section Completing

variable {answers : VssAnswers} {event : AdEvent}

theorem tellWriters_false_tells {added : List AddedComponent}
    (hevent : event ∈ (tellWriters answers false added).1) : event.tellsSuccess = false := by
  induction added with
  | nil => exact absurd hevent not_mem_nil
  | cons component rest ih =>
    rw [tellWriters] at hevent
    split at hevent
    · rw [mem_singleton.mp hevent]
      rfl
    · rcases mem_cons.mp hevent with rfl | hrest
      · rfl
      · exact ih hrest

theorem complete_false_tells {capture : SystemStateCapture}
    (hevent : event ∈ (capture.complete answers false).1) : event.tellsSuccess = false := by
  unfold SystemStateCapture.complete at hevent
  dsimp only at hevent
  split at hevent
  all_goals
    rw [cons_append, mem_cons, mem_append] at hevent
    rcases hevent with rfl | hmem | hlast
    · rfl
    · exact tellWriters_false_tells hmem
    · simp only [mem_cons, not_mem_nil, or_false] at hlast
      rcases hlast with rfl | rfl <;> rfl

end Completing

/-! ### A run -/

/-- Archive name of the System State tar inside a snapshot. -/
def archiveName : String := "systemstate.didx"

def metaBlobName : String := "ad-meta.json.blob"

/-- Everything a run meets outside of the upload.  `client` holds what the uploader
brings along: the primitives, the pipeline width, and the server's previous index. -/
structure AdWorld where
  options : BackupOptions
  /-- `SystemStateCapture::create`. -/
  created : Except String SystemStateCapture
  /-- The computer's name in lower case. -/
  hostname : String
  now : Int64
  /-- The variable `PBSGUI_AD_PBS_SECRET`. -/
  adSecret : Option String
  /-- The variable `PBS_PASSWORD`. -/
  pbsPassword : Option String
  parse : String → Except String Unit
  /-- `SessionParams::from_repository` on a repository and a secret. -/
  session : String → String → Except String Unit
  metaJson : SystemStateCapture → String → Except String Bytes
  tar : TarBuilder
  client : UploadConfig
  openShadow : String → Except String Unit
  readShadow : String → Except String Unit
  answers : VssAnswers

namespace AdWorld

def secret (world : AdWorld) : Except String String :=
  match world.adSecret <|> world.pbsPassword with
  | some secret => .ok secret
  | none => .error "set PBSGUI_AD_PBS_SECRET (or PBS_PASSWORD) to the PBS API token secret"

/-- What a run with a repository does before the upload, down to the metadata blob. -/
def prepare (world : AdWorld) (capture : SystemStateCapture) (repo : String) :
    Except String Bytes := do
  world.parse repo
  let secret ← world.secret
  world.session repo secret
  let xml ← world.answers.document
  world.metaJson capture xml

def config (world : AdWorld) (capture : SystemStateCapture) : UploadConfig :=
  { world.client with
    params :=
      { backupType := "host"
        backupId := world.options.backupId.getD (world.hostname ++ "-ad")
        backupTime := world.now }
    archiveName := archiveName
    dedupWithPrevious := true
    compress := world.options.compress
    totalBytes := u64Sum (capture.files.map CapturedFile.size)
    crypt := none }

/-- What feeds the upload when it starts: the archive thread, with the metadata
blob sent before. -/
def source (world : AdWorld) (capture : SystemStateCapture) (json : Bytes) :
    StreamSource TarThread :=
  StreamSource.new (TarThread.start world.tar capture.files (.sent metaBlobName json))

/-- `smoke_test`: the run without a repository reads the head of the biggest file
and completes. -/
def smokeTest (world : AdWorld) (capture : SystemStateCapture) :
    List AdEvent × Except String Unit :=
  let readable : Except String Unit :=
    match maxByKey (fun file => file.size.toNat) capture.files with
    | none => .ok ()
    | some biggest => do
      world.openShadow biggest.shadowPath
      world.readShadow biggest.shadowPath
  match readable with
  | .error text => ([.abortBackup], .error text)
  | .ok () =>
    let done := capture.complete world.answers true
    (done.1, done.2.map fun _ => ())

end AdWorld

/-- A run: what it meets, and how far its upload, if it makes one, has got. -/
structure AdRun extends AdWorld where
  upload : UploadSystem (StreamSource TarThread)
  reached : ∀ capture repo json, created = .ok capture → options.repository = some repo →
    toAdWorld.prepare capture repo = .ok json →
    UploadReaches (toAdWorld.config capture) tarProducer.feed (toAdWorld.source capture json) upload

namespace AdRun

/-- The run from the upload on: nothing is returned before the upload has returned
and the archive thread is joined. -/
def finishUpload (adRun : AdRun) (capture : SystemStateCapture) :
    List AdEvent × Option (Except String Unit) :=
  let sent := adRun.upload.up.trace.map AdEvent.pbs
  match adRun.upload.up.result, adRun.upload.feed.source.env.stage with
  | some _, .panicked => (sent ++ [.abortBackup], some (.error "the archive thread panicked"))
  | some (.ok _), .returned (.ok ()) =>
    let done := capture.complete adRun.answers true
    (sent ++ done.1, some (done.2.map fun _ => ()))
  | some _, .returned (.error text) =>
    (sent ++ (capture.complete adRun.answers false).1,
      some (.error ("building the archive failed: " ++ text)))
  | some (.error error), .returned (.ok ()) =>
    (sent ++ (capture.complete adRun.answers false).1,
      some (.error ("PBS upload failed: " ++ error.text)))
  | _, _ => (sent, none)

/-- `run`: the events so far, and the result once there is one. -/
def run (adRun : AdRun) : List AdEvent × Option (Except String Unit) :=
  match adRun.created with
  | .error text => ([], some (.error text))
  | .ok capture =>
    match adRun.options.repository with
    | none => ((adRun.smokeTest capture).1, some (adRun.smokeTest capture).2)
    | some repo =>
      match adRun.prepare capture repo with
      | .error text => ([.abortBackup], some (.error text))
      | .ok _ => adRun.finishUpload capture

def events (adRun : AdRun) : List AdEvent := adRun.run.1

/-- A snapshot of the capture is on the server: the index that was closed holds the
archive of its files, none of which failed, and `finish` was accepted. -/
structure Committed (adRun : AdRun) (capture : SystemStateCapture) (before : List AdEvent) :
    Prop where
  finished : AdEvent.pbs (.request .finish (.ok ())) ∈ before
  files : ∀ file ∈ capture.files, (adRun.tar.append file).failure = none
  archive : adRun.upload.up.indexed.flatten = adRun.tar.archive capture.files

variable {adRun : AdRun} {capture : SystemStateCapture} {event : AdEvent}

/-- From the upload on, the writers are told of a success only after an upload that
returned Ok, and after all its requests. -/
theorem finishUpload_tells {before later : List AdEvent}
    (hevs : (adRun.finishUpload capture).1 = before ++ event :: later)
    (htells : event.tellsSuccess = true) :
    (∃ stats, adRun.upload.up.result = some (.ok stats)) ∧
      adRun.upload.up.trace.map AdEvent.pbs ⊆ before := by
  have hmem : event ∈ (adRun.finishUpload capture).1 := by
    rw [hevs]
    exact mem_append_right _ mem_cons_self
  have hsent : event ∉ adRun.upload.up.trace.map AdEvent.pbs := by
    intro hmem
    obtain ⟨request, -, rfl⟩ := mem_map.mp hmem
    cases htells
  have hfalse : event ∉ (capture.complete adRun.answers false).1 := by
    intro hmem
    rw [complete_false_tells hmem] at htells
    cases htells
  unfold finishUpload at hmem hevs
  dsimp only at hmem hevs
  split at hmem
  case h_2 stats hres hstage =>
    simp only [hres, hstage] at hevs
    exact ⟨⟨stats, hres⟩, EventRuns.subset_before hevs hsent⟩
  case h_1 =>
    rcases mem_append.mp hmem with h | h
    · exact absurd h hsent
    · rw [mem_singleton.mp h] at htells
      cases htells
  case h_5 => exact absurd hmem hsent
  all_goals
    rcases mem_append.mp hmem with h | h
    · exact absurd h hsent
    · exact absurd h hfalse

/-- **The writers record only what is on the server.**  In every run with a
repository, whatever fails in it, the writers are told of a success only after the
snapshot was finished, and that snapshot holds the archive of the run's capture. -/
theorem told_success_only_when_committed (hrepository : adRun.options.repository ≠ none)
    {before later : List AdEvent} (hevents : adRun.events = before ++ event :: later)
    (htells : event.tellsSuccess = true) :
    ∃ capture, adRun.created = .ok capture ∧ adRun.Committed capture before := by
  unfold events run at hevents
  split at hevents
  case h_1 text hcreated => exact absurd hevents (by simp)
  case h_2 capture hcreated =>
    split at hevents
    case h_1 hnone => exact absurd hnone hrepository
    case h_2 repo hrepo =>
      split at hevents
      case h_1 text hprepared =>
        have hsingle : [AdEvent.abortBackup] = before ++ event :: later := hevents
        have hmem : event ∈ [AdEvent.abortBackup] := by
          rw [hsingle]
          exact mem_append_right _ mem_cons_self
        rw [mem_singleton.mp hmem] at htells
        cases htells
      case h_2 json hprepared =>
        obtain ⟨⟨stats, hresult⟩, hbefore⟩ := finishUpload_tells hevents htells
        obtain ⟨hfinish, hfiles, harchive⟩ :=
          tarUpload_ok (adRun.reached capture repo json hcreated hrepo hprepared) hresult
        exact ⟨capture, hcreated, hbefore (mem_map_of_mem hfinish), hfiles, harchive⟩

end AdRun

/-- Two pieces, the entry of a file and the end of the archive. -/
def sampleTar : TarBuilder where
  append _ := { writes := [[97]], failure := none }
  trailer := [[98]]

def sampleComponent : AddedComponent where
  instanceId := "1"
  writerId := "b2014c9e-8711-4c5c-a5a9-3cf384484757"
  kind := 1
  logicalPath := none
  name := "ntds"

def sampleCapture : SystemStateCapture where
  added := [sampleComponent]
  files :=
    [{ shadowPath := "HarddiskVolumeShadowCopy1/Windows/NTDS/ntds.dit"
       originalPath := "C:/Windows/NTDS/ntds.dit"
       archiveName := "C/Windows/NTDS/ntds.dit", size := 1 }]

def sampleRepository : String := "root@pam!backup@pbs01:store"

def sampleWorld (repository : Option String) : AdWorld where
  options := { repository := repository, backupId := none, compress := false }
  created := .ok sampleCapture
  hostname := "dc01"
  now := 1700000000
  adSecret := some "secret"
  pbsPassword := none
  parse _ := .ok ()
  session _ _ := .ok ()
  metaJson _ xml := .ok xml.toUTF8.toList
  tar := sampleTar
  client := sampleConfig
  openShadow _ := .ok ()
  readShadow _ := .ok ()
  answers :=
    { setBackupSucceeded := fun _ => .ok ()
      backupComplete := .ok ()
      saveAsXml := .ok "xml" }

theorem sampleArchive_reads (metadata : Catalog) : ∃ source : StreamSource TarThread,
    Relation.ReflTransGen tarProducer.feed.Idle
        (StreamSource.new (TarThread.start sampleTar sampleCapture.files metadata)) source ∧
      source.pending = [97, 98] ∧ source.eof = true ∧ source.stream.call = none ∧
      source.env.stage = .returned (.ok ()) ∧ source.env.metadata = metadata := by
  have hfirst : 1 < writerChunk := by decide
  have hsnd : 2 < writerChunk := by decide
  have hroom : 0 < archiveQueue := by decide
  exact ⟨_,
    .head (.quiet ⟨_, _, .write rfl rfl, rfl⟩) <|
    .head (.quiet ⟨_, _, .written rfl hfirst, rfl⟩) <|
    .head (.quiet ⟨_, _, .write rfl rfl, rfl⟩) <|
    .head (.quiet ⟨_, _, .written rfl hsnd, rfl⟩) <|
    .head (.quiet ⟨_, _, .ended rfl rfl rfl, rfl⟩) <|
    .head (.quiet ⟨_, _, .flush rfl (cons_ne_nil _ _) rfl hroom, rfl⟩) <|
    .head (.quiet ⟨_, _, .close rfl rfl, rfl⟩) <|
    .head (.quiet ⟨_, _, .report rfl rfl, rfl⟩) <|
    .head (.read (.startRead 8 (by decide) rfl rfl)) <|
    .head (.read (.pulled rfl rfl)) <|
    .head (.read (.filled rfl rfl)) <|
    .head (.read (.startRead 6 (by decide) rfl rfl)) <|
    .head (.read (.filled rfl rfl)) <|
    .refl, rfl, rfl, rfl, rfl, rfl⟩

theorem sampleUpload_ok (json : Bytes) : ∃ state,
    UploadReaches ((sampleWorld (some sampleRepository)).config sampleCapture)
        tarProducer.feed ((sampleWorld (some sampleRepository)).source sampleCapture json) state ∧
      (∃ stats, state.up.result = some (.ok stats)) ∧
      state.feed.source.env.stage = .returned (.ok ()) := by
  obtain ⟨source, hidle, hpend, heof, hcall, hstage, hmeta⟩ :=
    sampleArchive_reads (.sent metaBlobName json)
  obtain ⟨up, hrun, hphase, hrunning, -, -⟩ :=
    @sampleRun_toCatalog _ _ { backupType := "host", backupId := "dc01-ad", backupTime := 1700000000 }
      archiveName 1 _ _ _ _ _ hidle
      ⟨hcall, [98], hpend, rfl⟩ ⟨hcall, [], rfl, rfl⟩ (ChunkerEnds.finished hcall heof rfl)
  have hcat : tarProducer.feed.catalog { source with pending := [] } =
    .sent metaBlobName json := hmeta
  have hblob : encodeFor samplePrimitives none false (.ok (FixedBytes.ofBytes 16 [])) json =
    .ok (encodeUncompressed samplePrimitives json) := rfl
  refine ⟨_, hrun.trans <|
    .head (.upload hrunning (.catalogEncoded hphase hcat hblob)) <|
    .head (.upload hrunning (.accepted rfl)) (manifest_run rfl hrunning rfl), ⟨_, rfl⟩, hstage⟩

/-- The run with a repository records a backup that is on the server. -/
theorem sampleRepository_committed : ∃ (adRun : AdRun) (before later : List AdEvent),
    adRun.options.repository = some sampleRepository ∧
      adRun.events = before ++ AdEvent.complete true :: later ∧
      adRun.created = .ok sampleCapture ∧ adRun.Committed sampleCapture before := by
  obtain ⟨state, hreach, ⟨stats, hresult⟩, hstage⟩ := sampleUpload_ok "xml".toUTF8.toList
  let adRun : AdRun :=
    { sampleWorld (some sampleRepository) with
      upload := state
      reached := by
        intro capture repo json hcreated _ hprepared
        obtain rfl := Except.ok.inj hcreated
        obtain rfl := Except.ok.inj hprepared
        exact hreach }
  have hevents : adRun.events = state.up.trace.map AdEvent.pbs ++
      AdEvent.complete true :: [.setBackupSucceeded sampleComponent true, .backupComplete] := by
    have hfinish : (adRun.finishUpload sampleCapture).1 = state.up.trace.map AdEvent.pbs ++
        (sampleCapture.complete adRun.answers true).1 := by
      simp only [AdRun.finishUpload, adRun, hresult, hstage]
    exact hfinish
  obtain ⟨capture, hcreated, hcommitted⟩ :=
    AdRun.told_success_only_when_committed (fun h => absurd h (by simp [adRun, sampleWorld]))
      hevents rfl
  obtain rfl := Except.ok.inj hcreated
  exact ⟨adRun, _, _, rfl, hevents, rfl, hcommitted⟩

/-- A run without a repository, in which nothing fails. -/
def captureOnlyRun : AdRun where
  toAdWorld := sampleWorld none
  upload := UploadSystem.initial ((sampleWorld none).source sampleCapture [])
  reached _ _ _ _ hrepo _ := absurd hrepo (by simp [sampleWorld])

/-- The writers record a backup of which nothing was sent to any server. -/
theorem captureOnlyRun_told :
    captureOnlyRun.events =
        [.complete true, .setBackupSucceeded sampleComponent true, .backupComplete] ∧
      ∀ capture, ¬ captureOnlyRun.Committed capture captureOnlyRun.events := by
  have hevents : captureOnlyRun.events =
    [.complete true, .setBackupSucceeded sampleComponent true, .backupComplete] := rfl
  refine ⟨hevents, fun capture hcommitted => ?_⟩
  have hfinish := hcommitted.finished
  rw [hevents] at hfinish
  simp at hfinish

end PbsGui.Ad
