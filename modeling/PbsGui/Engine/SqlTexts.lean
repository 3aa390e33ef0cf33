import PbsGui.Engine.MetaQuery
import PbsGui.Engine.RestoreChain
import PbsGui.Lib.SqlLexer

/-!
# The statements as the server scans them

The engine builds its statements as texts: a database name goes between brackets with its
closing brackets doubled, and a name or path in a literal has its quotes doubled.  Whatever the
names and paths are, the server scans a statement as the same tokens, with the given value in
the place of each.
-/

namespace PbsGui.Engine

open Lib List

/-- The name of a device set: `pbsgui-` and a UUID. -/
structure SetName where
  uuid : List Char
  hex : ∀ c ∈ uuid, c.isAlphanum = true ∨ c = '-'

def SetName.text (set : SetName) : List Char := "pbsgui-".toList ++ set.uuid

/-- The restore of a single image, at once recovered. -/
def imageStatement (target moves set : List Char) : List Char :=
  "RESTORE DATABASE [".toList ++ target ++ "] FROM VIRTUAL_DEVICE = '".toList ++ set ++
    "' WITH REPLACE, RECOVERY".toList ++ moves

/-- `restore_database_from_image`, with the file list that is read from the image. -/
def restoreDatabaseFromImage (request : ChainRequest) (answers : ServerAnswers)
    (files : List BackupFile) (set : List Char) : Except String (List Char) :=
  let target := doubleMarks ']' request.targetDatabase
  if !request.newName then .ok (imageStatement target [] set)
  else if files = [] then .error "the backup file list was empty"
  else .ok (imageStatement target
    (moveClause answers.dataDir answers.logDir request.targetDatabase files) set)

/-- `restore_database_streamed`. -/
def restoreDatabaseStreamed (request : ChainRequest) (answers : ServerAnswers)
    (files : List SqlBackupFile) (set : List Char) : List Char :=
  imageStatement (doubleMarks ']' request.targetDatabase)
    (if request.newName then movesFromFiles answers files request.targetDatabase else []) set

/-- `RESTORE FILELISTONLY`. -/
def fileListStatement (set : List Char) : List Char :=
  "RESTORE FILELISTONLY FROM VIRTUAL_DEVICE = '".toList ++ set ++ "'".toList

/-- The query of the newest row of `msdb.dbo.backupset` (`query_backup_meta`). -/
def backupMetaQuery (database : List Char) : List Char :=
  "SELECT TOP 1 ".toList ++ "CONVERT(varchar(40), first_lsn) AS first_lsn, ".toList ++
    "CONVERT(varchar(40), last_lsn) AS last_lsn, ".toList ++
    "CONVERT(varchar(40), database_backup_lsn) AS db_backup_lsn, ".toList ++
    "[type] AS btype, ".toList ++
    "DATEDIFF_BIG(SECOND, '1970-01-01', backup_finish_date) ".toList ++
    "- (DATEDIFF(MINUTE, GETUTCDATE(), GETDATE()) * 60) AS finish_unix ".toList ++
    "FROM msdb.dbo.backupset WHERE database_name = N'".toList ++ esc database ++
    "' ORDER BY backup_set_id DESC".toList

/-- The query of a database's files (`query_db_files`). -/
def dbFilesQuery (database : List Char) : List Char :=
  "SELECT name, physical_name, type_desc FROM sys.master_files ".toList ++
    "WHERE database_id = DB_ID(N'".toList ++ esc database ++ "')".toList

/-! ### The intended tokens -/

def word (text : String) : SqlToken := .word text.toList

/-- The device set of a statement, behind `FROM` or `TO`. -/
def deviceTokens (link : String) (set : SetName) : List SqlToken :=
  [word link, word "VIRTUAL_DEVICE", .symbol '=', .literal set.text]

/-- One `MOVE` for each file. -/
def movesTokens (answers : ServerAnswers) (target : List Char) (files : List BackupFile) :
    List SqlToken :=
  files.flatMap fun file =>
    [.symbol ',', word "MOVE", .national file.logical, word "TO",
      .national (newPath answers.dataDir answers.logDir target file)]

def backupTokens (database : List Char) (set : SetName) (kind : SqlBackupType) (copyOnly : Bool) :
    List SqlToken :=
  [word "BACKUP", word (if kind = .log then "LOG" else "DATABASE"), .name database] ++
    deviceTokens "TO" set ++
    if kind = .full ∧ copyOnly then [word "WITH", word "COPY_ONLY"] else []

/-- A restore that replaces the database, with or without its recovery. -/
def replaceTokens (target : List Char) (set : SetName) (recovery : String)
    (moves : List SqlToken) : List SqlToken :=
  [word "RESTORE", word "DATABASE", .name target] ++ deviceTokens "FROM" set ++
    [word "WITH", word "REPLACE", .symbol ',', word recovery] ++ moves

def logTokens (target stopat : List Char) (set : SetName) : List SqlToken :=
  [word "RESTORE", word "LOG", .name target] ++ deviceTokens "FROM" set ++
    [word "WITH", word "STOPAT", .symbol '=', .national stopat, .symbol ',', word "NORECOVERY"]

def recoverTokens (target : List Char) : List SqlToken :=
  [word "RESTORE", word "DATABASE", .name target, word "WITH", word "RECOVERY"]

def chainTokens (request : ChainRequest) (answers : ServerAnswers) (files : List BackupFile)
    (sets : List SetName) : List (List SqlToken) :=
  (sets.mapIdx fun i set =>
    if i = 0 then
      replaceTokens request.targetDatabase set "NORECOVERY"
        (movesTokens answers request.targetDatabase files)
    else logTokens request.targetDatabase (stopat answers.offsetMin request.targetUnix) set) ++
    [recoverTokens request.targetDatabase]

def fileListTokens (set : SetName) : List SqlToken :=
  [word "RESTORE", word "FILELISTONLY"] ++ deviceTokens "FROM" set

def convertTokens (column label : String) : List SqlToken :=
  [word "CONVERT", .symbol '(', word "varchar", .symbol '(', word "40", .symbol ')', .symbol ',',
    word column, .symbol ')', word "AS", word label, .symbol ',']

def backupMetaTokens (database : List Char) : List SqlToken :=
  [word "SELECT", word "TOP", word "1"] ++ (convertTokens "first_lsn" "first_lsn" ++
    (convertTokens "last_lsn" "last_lsn" ++ (convertTokens "database_backup_lsn" "db_backup_lsn" ++
    ([.name "type".toList, word "AS", word "btype", .symbol ','] ++
    ([word "DATEDIFF_BIG", .symbol '(', word "SECOND", .symbol ',', .literal "1970-01-01".toList,
      .symbol ',', word "backup_finish_date", .symbol ')'] ++
    ([.symbol '-', .symbol '(', word "DATEDIFF", .symbol '(', word "MINUTE", .symbol ',',
      word "GETUTCDATE", .symbol '(', .symbol ')', .symbol ',', word "GETDATE", .symbol '(',
      .symbol ')', .symbol ')', .symbol '*', word "60", .symbol ')', word "AS",
      word "finish_unix"] ++
    ([word "FROM", word "msdb", .symbol '.', word "dbo", .symbol '.', word "backupset",
      word "WHERE", word "database_name", .symbol '='] ++
    .national database :: [word "ORDER", word "BY", word "backup_set_id", word "DESC"])))))))

def dbFilesTokens (database : List Char) : List SqlToken :=
  [word "SELECT", word "name", .symbol ',', word "physical_name", .symbol ',', word "type_desc",
    word "FROM", word "sys", .symbol '.', word "master_files"] ++
    ([word "WHERE", word "database_id", .symbol '=', word "DB_ID", .symbol '('] ++
    .national database :: [.symbol ')'])

theorem SetName.quote_not_mem (set : SetName) : quoteMark ∉ set.text := by
  intro hmem
  rcases mem_append.mp hmem with hfixed | huuid
  · exact absurd hfixed (by decide)
  · rcases set.hex _ huuid with hhex | hdash
    · exact absurd hhex (by decide)
    · exact absurd hdash (by decide)

theorem quote_not_mem_padded (width value : Nat) : quoteMark ∉ padded width value := by
  intro hmem
  have hdigit := all_eq_true.mp (all_isDigit_padded width value) _ hmem
  exact absurd hdigit (by decide)

theorem quote_not_mem_yearText (year : Int) : quoteMark ∉ yearText year := by
  rw [yearText]
  split
  · exact quote_not_mem_padded _ _
  · simp only [mem_cons, mem_append, not_or]
    refine ⟨?_, fun hzero => ?_, fun hdigit => ?_⟩
    · split <;> decide
    · exact absurd (eq_of_mem_replicate hzero) (by decide)
    · exact absurd (Nat.isDigit_of_mem_toDigits (by decide) (by decide) hdigit) (by decide)

theorem quote_not_mem_stopat (offsetMin : Option Int) (targetUnix : Int) :
    quoteMark ∉ stopat offsetMin targetUnix := by
  have hmarks : quoteMark ≠ '-' ∧ quoteMark ≠ 'T' ∧ quoteMark ≠ ':' := by decide
  rw [stopat]
  split
  · simp [formatIso, quote_not_mem_yearText, quote_not_mem_padded, hmarks]
  · exact not_mem_nil

/-! ### Scanning the statements -/

variable {verb rest : List SqlToken}

theorem sqlTokens_device {front device link : List Char} {text : String}
    (hfront : scanText front = ⟨verb, .inside .brackets []⟩) (hdev : device = ']' :: link)
    (hlink : scanText link = ⟨[word text, word "VIRTUAL_DEVICE", .symbol '='], .inside .quotes []⟩)
    (hhead : link.head? ≠ some ']') (database : List Char) (set : SetName)
    {tail later : List Char} (htail : tail = quoteMark :: later)
    (hlater : later.head? ≠ some quoteMark) (hrest : sqlTokens later = some rest) :
    sqlTokens (front ++ doubleMarks ']' database ++ device ++ set.text ++ tail) =
      some (verb ++ .name database :: (deviceTokens text set ++ rest)) := by
  have hnext : (link ++ (set.text ++ tail)).head? ≠ some ']' := by
    cases link with
    | nil => cases hlink
    | cons => exact hhead
  have hset := sqlTokens_plain .quotes hlink set.quote_not_mem htail hlater hrest
  rw [hdev]
  simp only [append_assoc, cons_append]
  exact sqlTokens_marked .brackets hfront database rfl hnext hset

theorem sqlTokens_moveClause (answers : ServerAnswers) (target : List Char)
    (files : List BackupFile) :
    sqlTokens (moveClause answers.dataDir answers.logDir target files) =
      some (movesTokens answers target files) := by
  induction files with
  | nil => rfl
  | cons file files ih =>
    have hspace : ∀ later, (" TO N'".toList ++ later).head? ≠ some quoteMark := fun later => by
      rw [show (" TO N'".toList ++ later).head? = some ' ' from rfl]
      decide
    have hto : scanText " TO N'".toList = ⟨[word "TO"], .inside .nationalQuotes []⟩ :=
      scanText_ofList (by decide)
    have hpath := sqlTokens_marked .nationalQuotes hto (newPath answers.dataDir answers.logDir target file) rfl
      (@moveClause_head answers.dataDir answers.logDir target files) ih
    have hmove : scanText ", MOVE N'".toList =
        ⟨[.symbol ',', word "MOVE"], .inside .nationalQuotes []⟩ :=
      scanText_ofList (by decide)
    rw [moveClause_cons]
    exact sqlTokens_marked .nationalQuotes hmove file.logical rfl (hspace _) hpath

theorem moveClause_ends_word {dataDir logDir target : List Char} {files : List BackupFile} (c : Char)
    (hc : (moveClause dataDir logDir target files).head? = some c) :
    isWordChar c = false ∧ c ≠ SqlMarks.nationalQuotes.close := by
  cases files with
  | nil => cases hc
  | cons =>
    rw [moveClause_cons] at hc
    cases hc
    decide

theorem scanText_restoreDatabase : scanText "RESTORE DATABASE [".toList =
    ⟨[word "RESTORE", word "DATABASE"], .inside .brackets []⟩ :=
  scanText_ofList (by decide)

theorem sqlTokens_replace {quoted option : List Char} {recovery : String}
    (hquoted : quoted = quoteMark :: option)
    (hoption : scanText option =
      ⟨[word "WITH", word "REPLACE", .symbol ','], .word recovery.toList⟩)
    (hhead : option.head? ≠ some quoteMark) (answers : ServerAnswers) (target : List Char)
    (set : SetName) (files : List BackupFile) :
    sqlTokens ("RESTORE DATABASE [".toList ++ doubleMarks ']' target ++
        "] FROM VIRTUAL_DEVICE = '".toList ++ set.text ++ quoted ++
          moveClause answers.dataDir answers.logDir target files) =
      some (replaceTokens target set recovery (movesTokens answers target files)) := by
  have hnext : (option ++ moveClause answers.dataDir answers.logDir target files).head? ≠
      some quoteMark := by
    cases option with
    | nil => cases hoption
    | cons => exact hhead
  have hmoves := sqlTokens_append_word hoption moveClause_ends_word
    (sqlTokens_moveClause answers target files)
  rw [append_assoc _ quoted, hquoted]
  exact sqlTokens_device scanText_restoreDatabase toList_ofList_cons (scanText_ofList (by decide))
    (head?_ofList (by decide)) target set rfl hnext hmoves

theorem sqlTokens_imageStatement (answers : ServerAnswers) (target : List Char) (set : SetName)
    (files : List BackupFile) :
    sqlTokens (imageStatement (doubleMarks ']' target)
        (moveClause answers.dataDir answers.logDir target files) set.text) =
      some (replaceTokens target set "RECOVERY" (movesTokens answers target files)) :=
  sqlTokens_replace toList_ofList_cons (scanText_ofList (by decide)) (head?_ofList (by decide))
    answers target set files

theorem sqlTokens_logStatement (target : List Char) (offsetMin : Option Int) (targetUnix : Int)
    (set : SetName) :
    sqlTokens (logStatement (doubleMarks ']' target) (stopat offsetMin targetUnix) set.text) =
      some (logTokens target (stopat offsetMin targetUnix) set) := by
  have hlog : scanText "RESTORE LOG [".toList =
      ⟨[word "RESTORE", word "LOG"], .inside .brackets []⟩ :=
    scanText_ofList (by decide)
  have hsplit : "' WITH STOPAT = N'".toList = quoteMark :: " WITH STOPAT = N'".toList :=
    toList_ofList_cons
  have hwith : scanText " WITH STOPAT = N'".toList =
      ⟨[word "WITH", word "STOPAT", .symbol '='], .inside .nationalQuotes []⟩ :=
    scanText_ofList (by decide)
  have hspace : ∀ later, (" WITH STOPAT = N'".toList ++ later).head? ≠ some quoteMark :=
    fun later => by
      rw [show (" WITH STOPAT = N'".toList ++ later).head? = some ' ' from rfl]
      decide
  have htail : sqlTokens ", NORECOVERY".toList = some [.symbol ',', word "NORECOVERY"] :=
    sqlTokens_ofList (by decide)
  have hend : "', NORECOVERY".toList = quoteMark :: ", NORECOVERY".toList := toList_ofList_cons
  have hopts := sqlTokens_plain .nationalQuotes hwith (quote_not_mem_stopat offsetMin targetUnix)
    hend (by decide) htail
  unfold logStatement
  rw [hsplit, append_assoc _ (stopat offsetMin targetUnix), append_assoc _ (quoteMark :: _)]
  exact sqlTokens_device hlog toList_ofList_cons (scanText_ofList (by decide))
    (head?_ofList (by decide)) target set rfl (hspace _) hopts

theorem sqlTokens_recoverStatement (target : List Char) :
    sqlTokens (recoverStatement (doubleMarks ']' target)) = some (recoverTokens target) := by
  have htail : sqlTokens " WITH RECOVERY".toList = some [word "WITH", word "RECOVERY"] :=
    sqlTokens_ofList (by decide)
  have hend : "] WITH RECOVERY".toList = ']' :: " WITH RECOVERY".toList := toList_ofList_cons
  have hscan := sqlTokens_marked .brackets scanText_restoreDatabase target hend (by decide) htail
  unfold recoverStatement
  rw [append_assoc]
  exact hscan

theorem sqlTokens_fileListStatement (set : SetName) :
    sqlTokens (fileListStatement set.text) = some (fileListTokens set) := by
  have hfront : scanText "RESTORE FILELISTONLY FROM VIRTUAL_DEVICE = '".toList =
      ⟨[word "RESTORE", word "FILELISTONLY", word "FROM", word "VIRTUAL_DEVICE", .symbol '='],
        .inside .quotes []⟩ :=
    scanText_ofList (by decide)
  have hend : "'".toList = [quoteMark] := String.toList_ofList
  have hscan := sqlTokens_plain .quotes hfront set.quote_not_mem hend nofun
    (rfl : sqlTokens [] = some [])
  unfold fileListStatement
  rw [append_assoc]
  exact hscan

theorem toList_doubled (c : Char) (text : String) :
    (doubled c text).toList = doubleMarks c text.toList := by
  rw [doubled, String.toList_ofList, doubleMarks]
  refine flatMap_congr fun other _ => ?_
  split
  · rename_i heq
    rw [heq]
  · rfl

theorem sqlTokens_backup {front : List Char}
    (hfront : scanText front = ⟨verb, .inside .brackets []⟩) (database : List Char) (set : SetName)
    {later : List Char} (hlater : later.head? ≠ some quoteMark)
    (hrest : sqlTokens later = some rest) :
    sqlTokens (front ++ doubleMarks ']' database ++ "] TO VIRTUAL_DEVICE = '".toList ++ set.text ++
        "'".toList ++ later) =
      some (verb ++ .name database :: (deviceTokens "TO" set ++ rest)) := by
  have hend : "'".toList = [quoteMark] := String.toList_ofList
  rw [hend, append_assoc _ [quoteMark]]
  exact sqlTokens_device hfront toList_ofList_cons (scanText_ofList (by decide))
    (head?_ofList (by decide)) database set rfl hlater hrest

theorem sqlTokens_backupStatement {database statement : String} {set : SetName}
    {kind : SqlBackupType} {copyOnly : Bool}
    (h : backupStatement database (String.ofList set.text) kind copyOnly = .ok statement) :
    sqlTokens statement.toList = some (backupTokens database.toList set kind copyOnly) := by
  have hdb : scanText "BACKUP DATABASE [".toList =
      ⟨[word "BACKUP", word "DATABASE"], .inside .brackets []⟩ :=
    scanText_ofList (by decide)
  have hlog : scanText "BACKUP LOG [".toList =
      ⟨[word "BACKUP", word "LOG"], .inside .brackets []⟩ :=
    scanText_ofList (by decide)
  have hcopy : sqlTokens " WITH COPY_ONLY".toList = some [word "WITH", word "COPY_ONLY"] :=
    sqlTokens_ofList (by decide)
  have hend : ([] : List Char).head? ≠ some quoteMark := nofun
  have hnothing : sqlTokens [] = some [] := rfl
  cases kind with
  | full =>
    cases h
    cases copyOnly with
    | true =>
      simp only [String.toList_append, toList_doubled, String.toList_ofList, if_true]
      exact sqlTokens_backup hdb database.toList set (by decide) hcopy
    | false =>
      simp only [String.toList_append, toList_doubled, String.toList_ofList,
        Bool.false_eq_true, if_false]
      exact sqlTokens_backup hdb database.toList set hend hnothing
  | log =>
    cases h
    have hscan := sqlTokens_backup hlog database.toList set hend hnothing
    rw [append_nil] at hscan
    simp only [String.toList_append, toList_doubled, String.toList_ofList]
    exact hscan
  | differential => cases h

theorem sqlTokens_backupMetaQuery (database : List Char) :
    sqlTokens (backupMetaQuery database) = some (backupMetaTokens database) := by
  have hwhere : scanText "FROM msdb.dbo.backupset WHERE database_name = N'".toList =
      ⟨[word "FROM", word "msdb", .symbol '.', word "dbo", .symbol '.', word "backupset",
        word "WHERE", word "database_name", .symbol '='], .inside .nationalQuotes []⟩ :=
    scanText_ofList (by decide)
  have horder : sqlTokens " ORDER BY backup_set_id DESC".toList =
      some [word "ORDER", word "BY", word "backup_set_id", word "DESC"] :=
    sqlTokens_ofList (by decide)
  have hname := sqlTokens_marked .nationalQuotes hwhere database toList_ofList_cons (head?_ofList (by decide)) horder
  unfold backupMetaQuery backupMetaTokens
  simp only [append_assoc]
  -- one text after the other, up to the one that the name stands in
  iterate 7 refine sqlTokens_append (scanText_ofList (by decide)) ?_
  exact hname

theorem sqlTokens_dbFilesQuery (database : List Char) :
    sqlTokens (dbFilesQuery database) = some (dbFilesTokens database) := by
  have hwhere : scanText "WHERE database_id = DB_ID(N'".toList =
      ⟨[word "WHERE", word "database_id", .symbol '=', word "DB_ID", .symbol '('],
        .inside .nationalQuotes []⟩ :=
    scanText_ofList (by decide)
  have hend : "')".toList = [quoteMark, ')'] := String.toList_ofList
  have htail : sqlTokens [')'] = some [.symbol ')'] := by decide
  have hname := sqlTokens_marked .nationalQuotes hwhere database hend (by decide) htail
  unfold dbFilesQuery dbFilesTokens
  simp only [append_assoc]
  exact sqlTokens_append (scanText_ofList (by decide)) hname

section Chains

variable {request : ChainRequest} {answers : ServerAnswers} {sets : List SetName}

theorem sqlTokens_chainStatements (files : List BackupFile) :
    (chainStatements request answers
        (moveClause answers.dataDir answers.logDir request.targetDatabase files)
        (sets.map SetName.text)).map sqlTokens =
      (chainTokens request answers files sets).map some := by
  unfold chainStatements chainTokens
  dsimp only
  rw [map_append, map_append, map_singleton, map_singleton, sqlTokens_recoverStatement]
  congr 1
  refine ext_getElem (by simp) fun i _ _ => ?_
  simp only [getElem_map, getElem_mapIdx]
  split
  · exact sqlTokens_replace toList_ofList_cons (scanText_ofList (by decide))
      (head?_ofList (by decide)) _ _ _ _
  · exact sqlTokens_logStatement _ _ _ _

def ChainRequest.moved (request : ChainRequest) (files : List BackupFile) : List BackupFile :=
  if request.newName then files else []

variable {files : List BackupFile} {statements : List (List Char)}

theorem sqlTokens_restoreChain
    (h : restoreChain request answers files (sets.map SetName.text) = .ok statements) :
    statements.map sqlTokens = (chainTokens request answers (request.moved files) sets).map some := by
  unfold restoreChain at h
  rw [ChainRequest.moved]
  split at h
  · cases h
  · split at h
    · rename_i hnew
      rw [if_pos hnew]
      split at h
      · cases h
      · cases h
        exact sqlTokens_chainStatements files
    · rename_i hsame
      cases h
      rw [if_neg hsame]
      exact sqlTokens_chainStatements []

def backupFiles (files : List SqlBackupFile) : List BackupFile :=
  files.map fun file => ⟨file.logical.toList, file.physical.toList, file.isLog⟩

theorem sqlTokens_restoreChainStreamed {files : List SqlBackupFile}
    (h : restoreChainStreamed request answers files (sets.map SetName.text) = .ok statements) :
    statements.map sqlTokens =
      (chainTokens request answers (request.moved (backupFiles files)) sets).map some := by
  unfold restoreChainStreamed at h
  rw [ChainRequest.moved]
  split at h
  · cases h
  · cases h
    split
    · exact sqlTokens_chainStatements (backupFiles files)
    · exact sqlTokens_chainStatements []

theorem sqlTokens_restoreDatabaseFromImage {set : SetName} {statement : List Char}
    (h : restoreDatabaseFromImage request answers files set.text = .ok statement) :
    sqlTokens statement = some (replaceTokens request.targetDatabase set "RECOVERY"
      (movesTokens answers request.targetDatabase (request.moved files))) := by
  unfold restoreDatabaseFromImage at h
  rw [ChainRequest.moved]
  cases hnew : request.newName with
  | false =>
    simp only [hnew, Bool.not_false, if_true] at h
    cases h
    exact sqlTokens_imageStatement answers request.targetDatabase set []
  | true =>
    simp only [hnew, Bool.not_true, Bool.false_eq_true, if_false] at h
    split at h
    · cases h
    · cases h
      exact sqlTokens_imageStatement answers request.targetDatabase set files

theorem sqlTokens_restoreDatabaseStreamed (files : List SqlBackupFile) (set : SetName) :
    sqlTokens (restoreDatabaseStreamed request answers files set.text) =
      some (replaceTokens request.targetDatabase set "RECOVERY"
        (movesTokens answers request.targetDatabase (request.moved (backupFiles files)))) := by
  unfold restoreDatabaseStreamed
  rw [ChainRequest.moved]
  split
  · exact sqlTokens_imageStatement answers request.targetDatabase set (backupFiles files)
  · exact sqlTokens_imageStatement answers request.targetDatabase set []

end Chains

/-- Whatever the names and paths are, every text is scanned as its intended tokens. -/
theorem sql_texts_scanned :
    (∀ database statement set kind copyOnly,
      backupStatement database (String.ofList (SetName.text set)) kind copyOnly = .ok statement →
        sqlTokens statement.toList = some (backupTokens database.toList set kind copyOnly)) ∧
    (∀ request answers files set statement,
      restoreDatabaseFromImage request answers files (SetName.text set) = .ok statement →
        sqlTokens statement = some (replaceTokens request.targetDatabase set "RECOVERY"
          (movesTokens answers request.targetDatabase (request.moved files)))) ∧
    (∀ request answers files set,
      sqlTokens (restoreDatabaseStreamed request answers files (SetName.text set)) =
        some (replaceTokens request.targetDatabase set "RECOVERY"
          (movesTokens answers request.targetDatabase (request.moved (backupFiles files))))) ∧
    (∀ request answers files sets statements,
      restoreChain request answers files (sets.map SetName.text) = .ok statements →
        statements.map sqlTokens =
          (chainTokens request answers (request.moved files) sets).map some) ∧
    (∀ request answers files sets statements,
      restoreChainStreamed request answers files (sets.map SetName.text) = .ok statements →
        statements.map sqlTokens =
          (chainTokens request answers (request.moved (backupFiles files)) sets).map some) ∧
    (∀ answers target files,
      sqlTokens (moveClause (ServerAnswers.dataDir answers) answers.logDir target files) =
        some (movesTokens answers target files)) ∧
    (∀ set, sqlTokens (fileListStatement (SetName.text set)) = some (fileListTokens set)) ∧
    (∀ database, sqlTokens (backupMetaQuery database) = some (backupMetaTokens database)) ∧
    (∀ database, sqlTokens (dbFilesQuery database) = some (dbFilesTokens database)) :=
  ⟨fun _ _ _ _ _ => sqlTokens_backupStatement,
    fun _ _ _ _ _ => sqlTokens_restoreDatabaseFromImage,
    fun _ _ => sqlTokens_restoreDatabaseStreamed,
    fun _ _ _ _ _ => sqlTokens_restoreChain,
    fun _ _ _ _ _ => sqlTokens_restoreChainStreamed,
    sqlTokens_moveClause, sqlTokens_fileListStatement, sqlTokens_backupMetaQuery,
    sqlTokens_dbFilesQuery⟩

/-- A name that tries to end its brackets and start a statement of its own. -/
theorem oddName_scanned :
    ∃ statement, backupStatement "a] TO DISK = 'x'; --" (String.ofList (SetName.mk [] nofun).text)
        .log false = .ok statement ∧
      sqlTokens statement.toList = some [word "BACKUP", word "LOG",
        .name "a] TO DISK = 'x'; --".toList, word "TO", word "VIRTUAL_DEVICE", .symbol '=',
        .literal "pbsgui-".toList] := by
  refine ⟨_, rfl, ?_⟩
  have hscan := sql_texts_scanned.1 "a] TO DISK = 'x'; --" _ ⟨[], nofun⟩ .log false rfl
  rw [hscan]
  rfl

end PbsGui.Engine
