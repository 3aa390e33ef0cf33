import PbsGui.Engine.ExportNames
import PbsGui.Engine.SqlTexts
import PbsGui.Lib.RestoreRun

/-!
# Three ways to replay a chain

`restore_chain` and `restore_chain_streamed` send the statements of a chain to the server;
`build_restore_steps` (`handler.rs`) writes statements for the exported files into a text.  The
first two recover the database with a statement of its own, the third with the last backup.
Read from their tokens, as the server does, all three restore the same chain.
-/

namespace PbsGui.Engine

open Lib List

/-- The target time in UTC (`%Y-%m-%d %H:%M:%S`). -/
def stepsTarget (targetUnix : Int) : List Char :=
  if InCalendar (dateOfLocal targetUnix) then
    let date := dateOfLocal targetUnix
    let second := (targetUnix % 86400).toNat
    yearText date.year ++ '-' :: (padded 2 date.month ++ '-' :: (padded 2 date.day ++ ' ' ::
      (padded 2 (second / 3600) ++ ':' :: (padded 2 (second / 60 % 60) ++ ':' ::
        padded 2 (second % 60)))))
  else signedText targetUnix

def fullName (files : List (List Char × Bool)) : List Char :=
  ((files.find? fun file => !file.2).map Prod.fst).getD "<full>.bak".toList

def logNames (files : List (List Char × Bool)) : List (List Char) :=
  (files.filter fun file => file.2).map Prod.fst

def databaseLine (n : Nat) (full : List Char) : List Char :=
  Nat.toDigits 10 n ++ ") RESTORE DATABASE [RestoredDB] FROM DISK = N'".toList ++ full ++
    "'".toList

def logLine (n : Nat) (log : List Char) : List Char :=
  Nat.toDigits 10 n ++ ") RESTORE LOG [RestoredDB] FROM DISK = N'".toList ++ log ++ "'".toList

/-- The second line of a log; the last one recovers the database. -/
def withLine (target : List Char) (last : Bool) : List Char :=
  if last then "       WITH STOPAT = N'".toList ++ target ++ "', RECOVERY;".toList
  else "       WITH NORECOVERY;".toList

def logLines (target : List Char) (count i : Nat) (log : List Char) : List (List Char) :=
  [logLine (i + 2) log, withLine target (i + 1 = count)]

def lineEnd : List Char := "\r\n".toList

def statementLines (files : List (List Char × Bool)) (target : List Char) : List (List Char) :=
  let logs := logNames files
  if logs = [] then
    [databaseLine 1 (fullName files), "       WITH REPLACE, RECOVERY;".toList]
  else
    [databaseLine 1 (fullName files), "       WITH REPLACE, NORECOVERY;".toList] ++
      (logs.mapIdx (logLines target logs.length)).flatten

def introLines (database : List Char) (files : List (List Char × Bool)) (target : List Char) :
    List (List Char) :=
  ["SQL Server restore steps for \"".toList ++ database ++ "\"".toList,
    "Exported from Proxmox Backup Server by pbsgui. These are native SQL Server".toList,
    "backup files; restore them on any SQL Server with the statements below, run".toList,
    "in order (SQL Server Management Studio or sqlcmd).".toList, [], "Before running:".toList,
    "  - Change [RestoredDB] to the database name you want.".toList,
    "  - Prefix each file name with the full path to this folder.".toList] ++
    (if logNames files = [] then []
    else ["  - Recovering to ".toList ++ target ++
        " (UTC). STOPAT below uses the SERVER's local".toList,
      "    time, so adjust it to your server's timezone.".toList]) ++ [[]]

/-- The manual-restore steps that accompany an exported chain. -/
def buildRestoreSteps (database : List Char) (files : List (List Char × Bool)) (targetUnix : Int) :
    List Char :=
  let target := stepsTarget targetUnix
  lineEnd.intercalate
    (introLines database files target ++ statementLines files target ++ [[]])

/-! ### Reading a statement -/

/-- A command of a server, its backups known by the name of the device or file. -/
abbrev SqlCommand := RestoreCommand (List Char) (List Char)

def literalText : SqlToken → Option (List Char)
  | .literal text | .national text => some text
  | .word _ | .name _ | .symbol _ => none

/-- The literal of the `STOPAT` option. -/
def stopOf : List SqlToken → Option (List Char)
  | [] => none
  | token :: rest =>
    if token = word "STOPAT" then (rest.drop 1).head?.bind literalText else stopOf rest

/-- A restore recovers the database unless it is told not to. -/
def restoreWith (backup : Option (Bool × List Char)) (options : List SqlToken) : SqlCommand :=
  ⟨backup, stopOf options, !options.contains (word "NORECOVERY")⟩

/-- `RESTORE DATABASE` or `RESTORE LOG`, from a device or file or without one. -/
def readCommand : List SqlToken → Option SqlCommand
  | verb :: kind :: .name _ :: rest =>
    if verb = word "RESTORE" ∧ (kind = word "DATABASE" ∨ kind = word "LOG") then
      if rest.head? = some (word "FROM") then
        match rest with
        | _ :: _ :: .symbol _ :: source :: options =>
          (literalText source).map fun text => restoreWith (some (kind = word "LOG", text)) options
        | _ => none
      else some (restoreWith none rest)
    else none
  | _ => none

def readStatement (text : List Char) : Option SqlCommand := (sqlTokens text).bind readCommand

/-- A statement of the steps file, behind its number. -/
def readStep (text : List Char) : Option SqlCommand :=
  (sqlTokens text).bind fun
    | .word _ :: .symbol _ :: statement => readCommand statement
    | _ => none

def pairLines : List (List Char) → List (List Char)
  | first :: second :: rest => (first ++ (lineEnd ++ second)) :: pairLines rest
  | [_] | [] => []

section Commands

theorem readCommand_from {isLog : Bool} {target : List Char} {device source : SqlToken}
    {mark : Char} {text : List Char} (hsrc : literalText source = some text)
    (options : List SqlToken) :
    readCommand (word "RESTORE" :: word (if isLog then "LOG" else "DATABASE") :: .name target ::
        word "FROM" :: device :: .symbol mark :: source :: options) =
      some (restoreWith (some (isLog, text)) options) := by
  have hkinds : word "DATABASE" ≠ word "LOG" := by decide
  cases isLog with
  | true => simp [readCommand, hsrc]
  | false => simp [readCommand, hsrc, hkinds]

theorem readCommand_recover (target : List Char) :
    readCommand (recoverTokens target) = some ⟨none, none, true⟩ := by
  have hwith : word "WITH" ≠ word "FROM" := by decide
  have hopts : restoreWith none [word "WITH", word "RECOVERY"] = ⟨none, none, true⟩ := by
    decide
  simp [recoverTokens, readCommand, hwith, hopts]

variable {backup : Option (Bool × List Char)} {options : List SqlToken}

theorem restoreWith_recovers_iff :
    (restoreWith backup options).recovers = true ↔ word "NORECOVERY" ∉ options := by
  simp [restoreWith]

theorem restoreWith_open (h : word "NORECOVERY" ∈ options) :
    (restoreWith backup options).recovers = false :=
  Bool.eq_false_iff.mpr fun hrecovers => restoreWith_recovers_iff.mp hrecovers h

theorem replaysChain_of_last {full : List Char} {logs : List (List Char)} {stop : List Char}
    {logOptions : List SqlToken} {last : SqlCommand} (hfull : word "NORECOVERY" ∈ options)
    (hlog : word "NORECOVERY" ∈ logOptions) (hlast : last.recovers = true)
    (hstop : last.backup = none ∧ stopOf logOptions = some stop ∨
      last.backup ≠ none ∧ last.stop = some stop) :
    ReplaysChain ((false, full) :: (logs.map (fun log => (true, log)) ++ last.backup.toList)) stop
      (restoreWith (some (false, full)) options ::
        (logs.map (fun log => restoreWith (some (true, log)) logOptions) ++ [last])) where
  first := ⟨_, _, rfl, rfl⟩
  in_order := by
    rw [@filterMap_cons_some _ _ RestoreCommand.backup _ _ _ rfl, filterMap_append, filterMap_map]
    refine congrArg _ (congrArg₂ _ (congrFun filterMap_eq_map logs) ?_)
    cases hback : last.backup with
    | none | some => simp [hback]
  stops source hsrc := by
    rcases hstop with ⟨hnone, hstop⟩ | ⟨hsome, hstop⟩
    · rw [hnone, Option.toList_none, append_nil] at hsrc
      rcases eq_nil_or_concat logs with rfl | ⟨front, log, rfl⟩
      · cases hsrc
      · rw [concat_eq_append, map_append, map_singleton, ← cons_append, getLast?_concat] at hsrc
        cases hsrc
        refine ⟨restoreWith (some (false, full)) options ::
          front.map fun log => restoreWith (some (true, log)) logOptions,
          restoreWith (some (true, source)) logOptions, [last], ?_, rfl, hstop, ?_⟩
        · simp
        · exact fun other hother => by rw [mem_singleton.mp hother, hnone]
    · obtain ⟨backup, hback⟩ := Option.ne_none_iff_exists'.mp hsome
      rw [hback, Option.toList_some, ← cons_append, getLast?_concat] at hsrc
      cases hsrc
      exact ⟨_, last, [], (cons_append ..).symm, hback, hstop, nofun⟩
  recovers_last := by
    refine ⟨_, _, (cons_append ..).symm, hlast, fun command hcommand => ?_⟩
    rcases mem_cons.mp hcommand with rfl | hlogs
    · exact restoreWith_open hfull
    · obtain ⟨log, -, rfl⟩ := mem_map.mp hlogs
      exact restoreWith_open hlog

end Commands

section Sent

variable {request : ChainRequest} {answers : ServerAnswers}

/-- The options of the full backup's statement. -/
def fullOptions (moves : List SqlToken) : List SqlToken :=
  [word "WITH", word "REPLACE", .symbol ',', word "NORECOVERY"] ++ moves

def logOptions (stopat : List Char) : List SqlToken :=
  [word "WITH", word "STOPAT", .symbol '=', .national stopat, .symbol ',', word "NORECOVERY"]

theorem chainTokens_cons (files : List BackupFile) (set : SetName) (rest : List SetName) :
    chainTokens request answers files (set :: rest) =
      replaceTokens request.targetDatabase set "NORECOVERY"
          (movesTokens answers request.targetDatabase files) ::
        (rest.map (logTokens request.targetDatabase
          (stopat answers.offsetMin request.targetUnix)) ++
          [recoverTokens request.targetDatabase]) := by
  rw [chainTokens, mapIdx_cons, cons_append, if_pos rfl]
  refine congrArg (_ :: ·) (congrArg (· ++ [recoverTokens request.targetDatabase]) ?_)
  exact ext_getElem (by simp) fun i _ _ => by simp

theorem readCommand_chainTokens (files : List BackupFile) (set : SetName) (rest : List SetName) :
    (chainTokens request answers files (set :: rest)).map readCommand =
      List.map some (restoreWith (some (false, set.text))
          (fullOptions (movesTokens answers request.targetDatabase files)) ::
        ((rest.map SetName.text).map (fun log => restoreWith (some (true, log))
          (logOptions (stopat answers.offsetMin request.targetUnix))) ++ [⟨none, none, true⟩])) := by
  have hlog : ∀ set : SetName, readCommand (logTokens request.targetDatabase
      (stopat answers.offsetMin request.targetUnix) set) = some (restoreWith (some (true, set.text))
        (logOptions (stopat answers.offsetMin request.targetUnix))) :=
    fun set => @readCommand_from true _ _ (.literal set.text) _ _ rfl _
  have hfull := @readCommand_from false request.targetDatabase (word "VIRTUAL_DEVICE")
    (.literal set.text) '=' set.text rfl
    (fullOptions (movesTokens answers request.targetDatabase files))
  rw [chainTokens_cons, map_cons, map_append, map_singleton, readCommand_recover,
    map_cons, map_append, map_singleton, map_map, map_map, map_map]
  refine congr (congrArg cons hfull) ?_
  rw [append_cancel_right_eq]
  exact map_congr_left fun set _ => hlog set

theorem sent_replays {files : List BackupFile} {statements : List (List Char)} {set : SetName}
    {rest : List SetName}
    (h : statements.map sqlTokens = (chainTokens request answers files (set :: rest)).map some) :
    ∃ commands, statements.map readStatement = commands.map some ∧
      ReplaysChain ((false, set.text) :: (rest.map SetName.text).map fun log => (true, log))
        (stopat answers.offsetMin request.targetUnix) commands := by
  have hoption : word "NORECOVERY" ∈ fullOptions
      (movesTokens answers request.targetDatabase files) := by simp [fullOptions]
  have hlog : word "NORECOVERY" ∈ logOptions (stopat answers.offsetMin request.targetUnix) := by
    simp [logOptions]
  have hstop : stopOf (logOptions (stopat answers.offsetMin request.targetUnix)) =
      some (stopat answers.offsetMin request.targetUnix) := by
    have hwith : word "WITH" ≠ word "STOPAT" := by decide
    simp [logOptions, stopOf, hwith, literalText]
  have hrepl := @replaysChain_of_last _ set.text (rest.map SetName.text) _ _ ⟨none, none, true⟩
    hoption hlog rfl (.inl ⟨rfl, hstop⟩)
  rw [Option.toList_none, append_nil] at hrepl
  refine ⟨_, ?_, hrepl⟩
  rw [← readCommand_chainTokens files set rest]
  have hread := congrArg (map fun tokens => Option.bind tokens readCommand) h
  rw [map_map, map_map] at hread
  exact hread

end Sent

/-! ### The statements that are written -/

section Written

theorem isWordChar_of_isDigit {c : Char} (h : c.isDigit = true) : isWordChar c = true := by
  simp [isWordChar, Char.isAlphanum, h]

theorem scanText_digits (n : Nat) :
    scanText (Nat.toDigits 10 n) = ⟨[], .word (Nat.toDigits 10 n)⟩ :=
  scanText_word Nat.toDigits_ne_nil fun _ hc =>
    isWordChar_of_isDigit (Nat.isDigit_of_mem_toDigits (by decide) (by decide) hc)

theorem readStep_line {line verb : List Char} {isLog : Bool} (hline : line = ')' :: verb)
    (hverb : scanText line = ⟨[.symbol ')', word "RESTORE",
      word (if isLog then "LOG" else "DATABASE"), .name "RestoredDB".toList, word "FROM",
      word "DISK", .symbol '='], .inside .nationalQuotes []⟩)
    (n : Nat) {file second : List Char} (hfile : quoteMark ∉ file) {options : List SqlToken}
    (hsnd : sqlTokens (lineEnd ++ second) = some options) :
    readStep (Nat.toDigits 10 n ++ line ++ file ++ "'".toList ++ (lineEnd ++ second)) =
      some (restoreWith (some (isLog, file)) options) := by
  have hend : "'".toList ++ (lineEnd ++ second) = quoteMark :: (lineEnd ++ second) :=
    congrArg (· ++ (lineEnd ++ second)) String.toList_ofList
  have hbreak : (lineEnd ++ second).head? ≠ some quoteMark := by
    rw [show (lineEnd ++ second).head? = some '\r' from rfl]
    decide
  have hmark : ∀ later c, (line ++ later).head? = some c →
      isWordChar c = false ∧ c ≠ SqlMarks.nationalQuotes.close := by
    intro later c hc
    rw [hline] at hc
    cases hc
    decide
  have htext := sqlTokens_plain .nationalQuotes hverb hfile hend hbreak hsnd
  rw [readStep]
  simp only [append_assoc]
  rw [sqlTokens_append_word (scanText_digits n) (hmark _) htext]
  exact @readCommand_from isLog "RestoredDB".toList _ _ _ _ rfl options

variable {options : List SqlToken}

theorem readStep_databaseLine (n : Nat) {full second : List Char} (hfull : quoteMark ∉ full)
    (hsnd : sqlTokens (lineEnd ++ second) = some options) :
    readStep (databaseLine n full ++ (lineEnd ++ second)) =
      some (restoreWith (some (false, full)) options) :=
  readStep_line toList_ofList_cons (scanText_ofList (by decide)) n hfull hsnd

theorem readStep_logLine (n : Nat) {log second : List Char} (hlog : quoteMark ∉ log)
    (hsnd : sqlTokens (lineEnd ++ second) = some options) :
    readStep (logLine n log ++ (lineEnd ++ second)) =
      some (restoreWith (some (true, log)) options) :=
  readStep_line toList_ofList_cons (scanText_ofList (by decide)) n hlog hsnd

def openOptions : List SqlToken := [word "WITH", word "NORECOVERY", .symbol ';']

def lastOptions (target : List Char) : List SqlToken :=
  [word "WITH", word "STOPAT", .symbol '=', .national target, .symbol ',', word "RECOVERY",
    .symbol ';']

theorem sqlTokens_lineEnd {text : List Char} (h : sqlTokens text = some options) :
    sqlTokens (lineEnd ++ text) = some options := by
  have hblank : scanText lineEnd = ⟨[], .start⟩ := scanText_ofList (by decide)
  exact sqlTokens_append hblank h

theorem sqlTokens_open (target : List Char) :
    sqlTokens (lineEnd ++ withLine target false) = some openOptions :=
  sqlTokens_lineEnd (sqlTokens_ofList (by decide))

theorem sqlTokens_last {target : List Char} (htarget : quoteMark ∉ target) :
    sqlTokens (lineEnd ++ withLine target true) = some (lastOptions target) := by
  have hfront : scanText "       WITH STOPAT = N'".toList =
      ⟨[word "WITH", word "STOPAT", .symbol '='], .inside .nationalQuotes []⟩ :=
    scanText_ofList (by decide)
  have hend : "', RECOVERY;".toList = quoteMark :: ", RECOVERY;".toList := toList_ofList_cons
  have htail : sqlTokens ", RECOVERY;".toList =
      some [.symbol ',', word "RECOVERY", .symbol ';'] :=
    sqlTokens_ofList (by decide)
  have hscan := sqlTokens_plain .nationalQuotes hfront htarget hend (by decide) htail
  rw [← append_assoc] at hscan
  exact sqlTokens_lineEnd hscan

theorem pairLines_flatten (steps : List (List Char × List Char)) :
    pairLines ((steps.map fun step => [step.1, step.2]).flatten) =
      steps.map fun step => step.1 ++ (lineEnd ++ step.2) := by
  induction steps with
  | nil => rfl
  | cons step steps ih =>
    rw [map_cons, flatten_cons, map_cons, ← ih]
    rfl

theorem readStep_logLines {front : List (List Char)} {last target : List Char}
    (hlogs : ∀ log ∈ front ++ [last], quoteMark ∉ log) (htarget : quoteMark ∉ target) :
    (pairLines ((front ++ [last]).mapIdx (logLines target (front ++ [last]).length)).flatten).map
        readStep =
      List.map some (front.map (fun log => restoreWith (some (true, log)) openOptions) ++
        [restoreWith (some (true, last)) (lastOptions target)]) := by
  have hpairs : (front ++ [last]).mapIdx (logLines target (front ++ [last]).length) =
      ((front ++ [last]).mapIdx fun i log => (logLine (i + 2) log,
        withLine target (i + 1 = (front ++ [last]).length))).map
          fun step => [step.1, step.2] := by
    refine ext_getElem (by simp) fun i _ _ => ?_
    simp only [getElem_map, getElem_mapIdx, logLines]
  rw [hpairs, pairLines_flatten, mapIdx_concat, map_append, map_append, map_append]
  congr 1
  · refine ext_getElem (by simp) fun i hi _ => ?_
    have hpre : i < front.length := by simpa using hi
    have hnot : decide (i + 1 = front.length + 1) = false := decide_eq_false (by omega)
    simp only [getElem_map, getElem_mapIdx, length_append, length_singleton, hnot]
    exact readStep_logLine (i + 2) (hlogs _ (by simp)) (sqlTokens_open target)
  · simp only [map_singleton, length_append, length_singleton, decide_true]
    rw [readStep_logLine (front.length + 2) (hlogs last (by simp)) (sqlTokens_last htarget)]

theorem logNames_cons (full : List Char) (logs : List (List Char)) :
    logNames ((full, false) :: logs.map fun log => (log, true)) = logs := by
  have hall : (logs.map fun log => (log, true)).filter (fun file => file.2) =
      logs.map fun log => (log, true) := by
    refine filter_eq_self.mpr fun file hfile => ?_
    obtain ⟨log, -, rfl⟩ := mem_map.mp hfile
    rfl
  rw [logNames, filter_cons_of_neg (by simp), hall, map_map]
  exact map_id logs

theorem written_replays {full target : List Char} {logs : List (List Char)}
    (hfull : quoteMark ∉ full) (hlogs : ∀ log ∈ logs, quoteMark ∉ log)
    (htarget : quoteMark ∉ target) :
    ∃ commands,
      (pairLines (statementLines ((full, false) :: logs.map fun log => (log, true)) target)).map
          readStep = commands.map some ∧
        ReplaysChain ((false, full) :: logs.map fun log => (true, log)) target commands := by
  unfold statementLines
  rw [fullName, find?_cons_of_pos rfl, logNames_cons]
  rcases eq_nil_or_concat logs with rfl | ⟨front, last, rfl⟩
  · -- the full alone recovers the database
    have hopts : sqlTokens (lineEnd ++ "       WITH REPLACE, RECOVERY;".toList) =
        some [word "WITH", word "REPLACE", .symbol ',', word "RECOVERY", .symbol ';'] :=
      sqlTokens_lineEnd (sqlTokens_ofList (by decide))
    have hrecovers : ∀ backup, (restoreWith backup
        [word "WITH", word "REPLACE", .symbol ',', word "RECOVERY", .symbol ';']).recovers =
          true := by
      have hnot : word "NORECOVERY" ∉
          [word "WITH", word "REPLACE", .symbol ',', word "RECOVERY", .symbol ';'] := by
        decide
      exact fun backup => restoreWith_recovers_iff.mpr hnot
    refine ⟨[_], congrArg ([·]) (readStep_databaseLine 1 hfull hopts),
      ⟨_, [], rfl, rfl⟩, rfl, nofun, [], _, rfl, hrecovers _, nofun⟩
  · have hopts : sqlTokens (lineEnd ++ "       WITH REPLACE, NORECOVERY;".toList) =
        some (fullOptions [.symbol ';']) :=
      sqlTokens_lineEnd (sqlTokens_ofList (by decide))
    have hlast : word "NORECOVERY" ∉ lastOptions target := by
      simp [lastOptions, word]
    have hstop : stopOf (lastOptions target) = some target := by
      have hwith : word "WITH" ≠ word "STOPAT" := by decide
      simp [lastOptions, stopOf, hwith, literalText]
    have hrepl := @replaysChain_of_last (fullOptions [.symbol ';']) full front target openOptions
      (restoreWith (some (true, last)) (lastOptions target)) (by simp [fullOptions])
      (by simp [openOptions]) (restoreWith_recovers_iff.mpr hlast) (.inr ⟨nofun, hstop⟩)
    rw [concat_eq_append] at hlogs ⊢
    rw [map_append]
    refine ⟨_, ?_, hrepl⟩
    rw [if_neg (by simp)]
    have hsteps := readStep_logLines hlogs htarget
    exact congr (congrArg cons (readStep_databaseLine 1 hfull hopts)) hsteps

end Written

theorem quote_not_mem_digits (n : Nat) : quoteMark ∉ Nat.toDigits 10 n := fun hmem =>
  absurd (Nat.isDigit_of_mem_toDigits (by decide) (by decide) hmem) (by decide)

theorem quote_not_mem_signedText (value : Int) : quoteMark ∉ signedText value := by
  have hsign : quoteMark ≠ '-' := by decide
  rw [signedText]
  split
  · simp [hsign, quote_not_mem_digits]
  · exact quote_not_mem_digits _

theorem quote_not_mem_stepsTarget (targetUnix : Int) : quoteMark ∉ stepsTarget targetUnix := by
  have hmarks : quoteMark ≠ '-' ∧ quoteMark ≠ ' ' ∧ quoteMark ≠ ':' := by decide
  rw [stepsTarget]
  split
  · simp [quote_not_mem_yearText, quote_not_mem_padded, hmarks]
  · exact quote_not_mem_signedText targetUnix

theorem quote_not_mem_sanitizeFile (value : List Char) : quoteMark ∉ sanitizeFile value := by
  intro hmem
  obtain ⟨c, -, hc⟩ := mem_map.mp hmem
  split at hc
  · rename_i hsafe
    rw [hc] at hsafe
    exact absurd hsafe (by decide)
  · exact absurd hc (by decide)

theorem quote_not_mem_exportName (database : List Char) (i : Nat) (item : ChainItem) :
    quoteMark ∉ exportName database i item := by
  have hmarks : quoteMark ≠ '-' ∧ quoteMark ≠ '.' ∧ quoteMark ≠ 'T' ∧ quoteMark ≠ 'Z' := by decide
  have hstem : quoteMark ∉ sanitizeFilename database := by
    rw [sanitizeFilename]
    split
    · decide
    · exact quote_not_mem_sanitizeFile database
  have hplace : quoteMark ∉ zeroFilled 2 (i + 1) := fun hmem =>
    absurd (isDigit_of_mem_zeroFilled hmem) (by decide)
  have hkind : ∀ isLog : Bool, quoteMark ∉ (if isLog then "LOG" else "FULL").toList := by decide
  have hend : ∀ isLog : Bool, quoteMark ∉ (if isLog then "trn" else "bak").toList := by decide
  have hstamp : quoteMark ∉ fileStamp item.snapshotTime := by
    rw [fileStamp]
    split
    · simp [quote_not_mem_yearText, quote_not_mem_padded, hmarks]
    · exact quote_not_mem_signedText _
  simp only [exportName, mem_append, mem_cons, not_or]
  exact ⟨hstem, hmarks.1, hplace, hmarks.1, hkind _, hmarks.1, hstamp, hmarks.2.1, hend _⟩

/-- The backups of a chain, each in its device set. -/
def deviceBackups (chain : List ChainItem) (sets : List SetName) : List (Bool × List Char) :=
  List.zipWith (fun item set => (item.isLog, SetName.text set)) chain sets

def fileBackups (database : List Char) (chain : List ChainItem) : List (Bool × List Char) :=
  (exportFiles database chain).map fun file => (file.2, file.1)

section Agree

variable {full : ChainItem} {logs : List ChainItem}

theorem deviceBackups_cons (hfull : full.isLog = false) (hlogs : ∀ log ∈ logs, log.isLog = true)
    {set : SetName} {rest : List SetName} (hlen : rest.length = logs.length) :
    deviceBackups (full :: logs) (set :: rest) =
      (false, set.text) :: (rest.map SetName.text).map fun log => (true, log) := by
  rw [deviceBackups, zipWith_cons_cons, hfull]
  refine congrArg ((false, set.text) :: ·) (ext_getElem (by simp [hlen]) fun i hi _ => ?_)
  have hbelow : i < logs.length := by simp [hlen] at hi; exact hi
  simp [hlogs _ (getElem_mem hbelow)]

def logFiles (database : List Char) (logs : List ChainItem) : List (List Char) :=
  logs.mapIdx fun i log => exportName database (i + 1) log

theorem exportFiles_cons (database : List Char) (hfull : full.isLog = false)
    (hlogs : ∀ log ∈ logs, log.isLog = true) :
    exportFiles database (full :: logs) =
      (exportName database 0 full, false) ::
        (logFiles database logs).map fun log => (log, true) := by
  rw [exportFiles, mapIdx_cons, hfull]
  refine congrArg (_ :: ·) (ext_getElem (by simp [logFiles]) fun i hi _ => ?_)
  have hbelow : i < logs.length := by simpa using hi
  simp [logFiles, hlogs _ (getElem_mem hbelow)]

theorem quote_not_mem_logFiles (database : List Char) (logs : List ChainItem) :
    ∀ log ∈ logFiles database logs, quoteMark ∉ log := by
  intro log hlog
  obtain ⟨i, hi, rfl⟩ := mem_mapIdx.mp hlog
  exact quote_not_mem_exportName _ _ _

end Agree

/-- Each of the three replays the chain, and leaves the database online with the backups
of the chain applied. -/
theorem replays_agree {items : List ChainItem} {target : Int}
    (hchain : selectChain items target ≠ []) (request : ChainRequest) (answers : ServerAnswers)
    {sets : List SetName} (hsets : sets.length = (selectChain items target).length)
    (database : List Char) :
    (∀ files, files ≠ [] ∨ request.newName = false → ∃ statements commands,
      restoreChain request answers files (sets.map SetName.text) = .ok statements ∧
        statements.map readStatement = commands.map some ∧
        ReplaysChain (deviceBackups (selectChain items target) sets)
          (stopat answers.offsetMin request.targetUnix) commands ∧
        commands.foldl DatabasePhase.apply .before =
          .online (deviceBackups (selectChain items target) sets)) ∧
    (∀ files, ∃ statements commands,
      restoreChainStreamed request answers files (sets.map SetName.text) = .ok statements ∧
        statements.map readStatement = commands.map some ∧
        ReplaysChain (deviceBackups (selectChain items target) sets)
          (stopat answers.offsetMin request.targetUnix) commands ∧
        commands.foldl DatabasePhase.apply .before =
          .online (deviceBackups (selectChain items target) sets)) ∧
    ∃ intro lines commands,
      buildRestoreSteps database (exportFiles database (selectChain items target)) target =
          lineEnd.intercalate (intro ++ lines ++ [[]]) ∧
        (pairLines lines).map readStep = commands.map some ∧
        ReplaysChain (fileBackups database (selectChain items target)) (stepsTarget target) commands ∧
        commands.foldl DatabasePhase.apply .before =
          .online (fileBackups database (selectChain items target)) := by
  obtain ⟨full, logs, hshape, hfull, hlogs⟩ := selectChain_full_first hchain
  rw [hshape] at hsets ⊢
  obtain ⟨set, rest, rfl⟩ : ∃ set rest, sets = set :: rest := by
    cases sets with
    | nil => cases hsets
    | cons set rest => exact ⟨set, rest, rfl⟩
  have hdevices := @deviceBackups_cons full logs hfull hlogs set rest (Nat.succ.inj hsets)
  have hrest : ∀ log ∈ (rest.map SetName.text).map fun log => (true, log), log.1 = true := by
    intro log hlog
    obtain ⟨text, -, rfl⟩ := mem_map.mp hlog
    rfl
  have hsome : (set :: rest).map SetName.text ≠ [] := cons_ne_nil _ _
  rw [hdevices]
  refine ⟨fun files hfiles => ?_, fun files => ?_, ?_⟩
  · obtain ⟨statements, hok⟩ : ∃ statements,
        restoreChain request answers files ((set :: rest).map SetName.text) = .ok statements := by
      rw [restoreChain, if_neg hsome]
      split
      · rename_i hnew
        rw [if_neg (hfiles.resolve_right (by simp [hnew]))]
        exact ⟨_, rfl⟩
      · exact ⟨_, rfl⟩
    obtain ⟨commands, hread, hreplays⟩ := sent_replays (sqlTokens_restoreChain hok)
    exact ⟨statements, commands, hok, hread, hreplays, hreplays.foldl_apply hrest⟩
  · obtain ⟨statements, hok⟩ : ∃ statements,
        restoreChainStreamed request answers files ((set :: rest).map SetName.text) =
          .ok statements := by
      rw [restoreChainStreamed, if_neg hsome]
      exact ⟨_, rfl⟩
    obtain ⟨commands, hread, hreplays⟩ := sent_replays (sqlTokens_restoreChainStreamed hok)
    exact ⟨statements, commands, hok, hread, hreplays, hreplays.foldl_apply hrest⟩
  · obtain ⟨commands, hread, hreplays⟩ := written_replays (quote_not_mem_exportName database 0 full)
      (quote_not_mem_logFiles database logs) (quote_not_mem_stepsTarget target)
    have hbackups : fileBackups database (full :: logs) = (false, exportName database 0 full) ::
        (logFiles database logs).map fun log => (true, log) := by
      rw [fileBackups, exportFiles_cons database hfull hlogs, map_cons, map_map]
      rfl
    rw [exportFiles_cons database hfull hlogs, hbackups]
    refine ⟨_, _, commands, rfl, hread, hreplays, hreplays.foldl_apply fun log hlog => ?_⟩
    obtain ⟨text, -, rfl⟩ := mem_map.mp hlog
    rfl

/-- The chain of a full and one log. -/
theorem hourlyChain_replayed : ∃ intro lines, ∃ commands : List SqlCommand,
    buildRestoreSteps "sales".toList (exportFiles "sales".toList [hourlyFull, hourlyLog 0]) 3600 =
        lineEnd.intercalate (intro ++ lines ++ [[]]) ∧
      (pairLines lines).map readStep = commands.map some ∧
      commands.foldl DatabasePhase.apply .before =
        .online (fileBackups "sales".toList [hourlyFull, hourlyLog 0]) := by
  have hchain : selectChain [hourlyFull, hourlyLog 0] 3600 = [hourlyFull, hourlyLog 0] := by
    decide
  let set : SetName := ⟨[], by simp⟩
  obtain ⟨-, -, intro, lines, commands, htext, hread, -, hrun⟩ :=
    @replays_agree [hourlyFull, hourlyLog 0] 3600 (by rw [hchain]; exact cons_ne_nil _ _)
      ⟨[], [], 3600, false⟩ ⟨none, [], []⟩ [set, set] (by rw [hchain]; rfl) "sales".toList
  rw [hchain] at htext hrun
  exact ⟨intro, lines, commands, htext, hread, hrun⟩

end PbsGui.Engine
