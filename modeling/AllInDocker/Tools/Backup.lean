import AllInDocker.Lib.Runs
import AllInDocker.Lib.Shell

/-!
`mysql_backup_from_docker.sh` and what it does to the files, over any number of runs.

`settings` is the handling of the arguments and of the answers at the prompts,
`Machine.attempt` the script up to the status of `mysqldump`, and `Machine.backup` the whole
script: the dump is written to a file whose name is the directory, the database and the time
run together, and with an offset other than 0 every `.sql` file below the directory that is
older is removed afterwards, whatever database it belongs to. The shell's pathname expansion,
the local time and everything that docker does are arbitrary.

* `Retained` and `Pruned`: the last complete dump of every database is there, and a run has
  removed the old dumps of its own database.
* `Safe`: no dump that is the last one of its database is overwritten or, below the
  directory, too old for the run's offset, and the old dumps of the database itself lie below
  the directory. `backup_iff`, for one run, and `keepsBackups_iff`, for every sequence of
  runs: that is exactly when both are met.
* `cleanup_takes_other_database`: a run for one database removes the only dump of another.
-/

namespace AllInDocker

open Shell Runs

/-! ### The files -/

/-- A dump that a run of the script writes: of which database, with which directory given,
into which file and when. -/
structure Dump where
  database : Word
  backupsDir : Word
  path : FilePath
  time : ℕ
  deriving DecidableEq

/-- A file: when it was written, in seconds, and which dump it is, if it is one. The dump of
a `mysqldump` that failed is not complete. -/
structure File where
  mtime : ℕ
  dump : Option Dump
  complete : Bool
  deriving DecidableEq

/-- The files of the machine. -/
def Files := FilePath → Option File

/-- What the redirection of `mysqldump` leaves, whether it succeeds or fails. -/
def Files.write (fs : Files) (d : Dump) (complete : Bool) : Files :=
  Function.update fs d.path (some ⟨d.time, some d, complete⟩)

lemma Files.write_self (fs : Files) (d : Dump) (c : Bool) :
    fs.write d c d.path = some ⟨d.time, some d, c⟩ :=
  Function.update_self ..

lemma Files.write_of_ne (fs : Files) (d : Dump) (c : Bool) {p : FilePath} (h : p ≠ d.path) :
    fs.write d c p = fs p :=
  Function.update_of_ne h ..

/-- The age of a file as `find` counts it. -/
def wholeDays (now mtime : ℕ) : ℕ := (now - mtime) / 86400

/-- The `.sql` files that `find` comes by from its starting points. -/
def sqlBelow (roots : List FilePath) (p : FilePath) : Bool :=
  roots.any (·.isPrefixOf p) && p.getLast?.any (".sql".toList.isSuffixOf ·)

/-- `find roots -mtime +n -name "*.sql" -exec rm -f {} \;` -/
def Files.findRm (fs : Files) (roots : List FilePath) (n now : ℕ) : Files := fun p =>
  (fs p).filter fun f => !(sqlBelow roots p && decide (n < wholeDays now f.mtime))

/-- A file is left by the cleanup if it is not below the starting points, or young enough. -/
lemma Files.findRm_eq_some {fs : Files} {roots : List FilePath} {n now : ℕ} {p : FilePath}
    {f : File} : fs.findRm roots n now p = some f ↔
      fs p = some f ∧ (sqlBelow roots p = true → wholeDays now f.mtime ≤ n) := by
  rw [Files.findRm, Option.filter_eq_some_iff]
  cases sqlBelow roots p <;> simp

/-! ### The arguments and the answers -/

/-- What the script is given, as arguments or as answers at its prompts. The offset is empty
or a number. -/
structure Inputs where
  mysqlAlias : Word
  database : Word
  backupsDir : Word
  mysqlUser : Word
  mysqlPassword : Word
  deleteOffset : Option ℕ

/-- A call of the script: `$1` to `$6`, and what `read` would store at the prompts. -/
structure Invocation where
  args : Inputs
  answers : Inputs
  deleteTag : Word

/-- The variables of the script once it starts to work. -/
structure Settings where
  mysqlAlias : Word
  database : Word
  backupsDir : Word
  mysqlUser : Word
  mysqlPassword : Word
  deleteOffset : ℕ

/-- The directory in place of an empty one. -/
def defaultDir : Word := "/data/allindocker_backup/".toList

/-- The default for the directory, the same for arguments and answers. -/
def orDefaultDir (backupsDir : Word) : Word :=
  if backupsDir = [] then defaultDir else backupsDir

/-- The settings from the arguments; nothing but the first is checked. -/
def settingsOfArgs (i : Inputs) : Settings where
  mysqlAlias := i.mysqlAlias
  database := i.database
  backupsDir := orDefaultDir i.backupsDir
  mysqlUser := i.mysqlUser
  mysqlPassword := i.mysqlPassword
  deleteOffset := i.deleteOffset.getD 0

/-- The settings from the answers; the script exits at the first empty one that it needs. -/
def settingsOfAnswers (i : Inputs) (deleteTag : Word) : Option Settings :=
  if i.mysqlAlias = [] then none
  else if i.database = [] then none
  else if i.mysqlUser = [] then none
  else if i.mysqlPassword = [] then none
  else some
    { mysqlAlias := i.mysqlAlias
      database := i.database
      backupsDir := orDefaultDir i.backupsDir
      mysqlUser := i.mysqlUser
      mysqlPassword := i.mysqlPassword
      deleteOffset := if deleteTag = ['y'] then i.deleteOffset.getD 15 else 0 }

/-- The prompts are used when there is no first argument. -/
def settings (i : Invocation) : Option Settings :=
  if i.args.mysqlAlias ≠ [] then some (settingsOfArgs i.args)
  else settingsOfAnswers i.answers i.deleteTag

/-! ### The script -/

/-- The machine the script runs on: the working directory, the shell's pathname expansion of
a field, and the time of day as `date +'%Y-%m-%d-%H:%M:%S'` prints it. -/
structure Machine where
  cwd : FilePath
  glob : Files → Word → List Word
  date : ℕ → Word

/-- A run: the call, the time, and what is outside of the script's control: the id that
`docker inspect` finds, whether the file of the redirection can be opened, and whether
`mysqldump` in the container succeeds, given the user, the password and the database. -/
structure BackupRun where
  invocation : Invocation
  time : ℕ
  inspect : Word → Option Word
  opens : FilePath → Bool
  mysqldump : Word → Word → Word → Word → Bool

variable (m : Machine)

/-- The fields of an unquoted expansion, after pathname expansion. -/
def Machine.expand (fs : Files) (w : Word) : List Word := (fields w).flatMap (m.glob fs)

/-- The file of an unquoted redirection. Anything but one field is an error of the shell. -/
def Machine.redirect (fs : Files) (w : Word) : Option FilePath :=
  match m.expand fs w with
  | [v] => some (resolve m.cwd v)
  | _ => none

/-- A word that `find` takes for the beginning of its expression. -/
def isExpression : Word → Bool
  | '-' :: _ :: _ => true
  | w => w == ['('] || w == ['!']

/-- The starting points of `find $backups_dir`; without any it starts where it is. An expression
among the words is an error, and nothing is done. -/
def Machine.roots (fs : Files) (backupsDir : Word) : List FilePath :=
  match m.expand fs backupsDir with
  | [] => [m.cwd]
  | ws => if ws.any isExpression then [] else ws.map (resolve m.cwd)

/-- `$database--$datetime.sql` -/
def dumpName (database datetime : Word) : Word :=
  database ++ "--".toList ++ datetime ++ ".sql".toList

/-- `$backups_dir$database--$datetime.sql` -/
def dumpFile (backupsDir database datetime : Word) : Word :=
  backupsDir ++ dumpName database datetime

/-- How far a run comes: it ends before it writes anything, its `mysqldump` fails, or it goes
on with a complete dump. -/
inductive Attempt where
  | stopped
  | broken (d : Dump)
  | dumped (d : Dump) (deleteOffset : ℕ)
  deriving DecidableEq

/-- The script up to the status of `mysqldump`. -/
def Machine.attempt (fs : Files) (r : BackupRun) : Attempt :=
  match settings r.invocation with
  | none => .stopped
  | some v =>
      match r.inspect v.mysqlAlias with
      | none => .stopped
      | some containerId =>
          match m.redirect fs (dumpFile v.backupsDir v.database (m.date r.time)) with
          | none => .stopped
          | some path =>
              if r.opens path then
                let d : Dump := ⟨v.database, v.backupsDir, path, r.time⟩
                if r.mysqldump containerId v.mysqlUser v.mysqlPassword v.database then
                  .dumped d v.deleteOffset
                else .broken d
              else .stopped

/-- The removal of old dumps, unless the offset is 0. -/
def Machine.cleanup (fs : Files) (d : Dump) (deleteOffset : ℕ) : Files :=
  if deleteOffset ≠ 0 then fs.findRm (m.roots fs d.backupsDir) deleteOffset d.time else fs

/-- The files, and the complete dumps so far, the newest first. -/
structure Host where
  files : Files
  log : List Dump

/-- One run of the script. -/
def Machine.backup (h : Host) (r : BackupRun) : Host :=
  match m.attempt h.files r with
  | .stopped => h
  | .broken d => ⟨h.files.write d false, h.log⟩
  | .dumped d n => ⟨m.cleanup (h.files.write d true) d n, d :: h.log⟩

/-! ### What the backups are for -/

/-- The last complete dump of a database. -/
def latest (log : List Dump) (database : Word) : Option Dump :=
  log.find? (·.database = database)

/-- Every database with a complete dump so far still has its last one. -/
def Retained (h : Host) : Prop :=
  ∀ e, latest h.log e.database = some e → h.files e.path = some ⟨e.time, some e, true⟩

/-- A run with an offset leaves no dump of its own database for the same directory that is
older. -/
def Pruned (h : Host) (r : BackupRun) : Prop :=
  ∀ d n, m.attempt h.files r = .dumped d n → n ≠ 0 → ∀ p f e,
    (m.backup h r).files p = some f → f.dump = some e → e.database = d.database →
      e.backupsDir = d.backupsDir → wholeDays d.time f.mtime ≤ n

/-- Both, after each of the runs. -/
def KeepsBackups (fs : Files) (runs : List BackupRun) : Prop :=
  Along m.backup (fun h r => Retained (m.backup h r) ∧ Pruned m h r) ⟨fs, []⟩ runs

/-! ### Exactly when a run keeps them -/

/-- No last dump, of the databases in question, has its file where `d` is written. -/
def Elsewhere (h : Host) (d : Dump) (others : Dump → Prop) : Prop :=
  ∀ e, latest h.log e.database = some e → others e → e.path ≠ d.path

/-- The last dumps of other databases that the cleanup comes by are young enough. -/
def Spared (h : Host) (d : Dump) (n : ℕ) : Prop :=
  ∀ e, latest h.log e.database = some e → e.database ≠ d.database →
    sqlBelow (m.roots (h.files.write d true) d.backupsDir) e.path = true →
      wholeDays d.time e.time ≤ n

/-- The cleanup comes by the old dumps of the database itself. -/
def Covered (h : Host) (d : Dump) (n : ℕ) : Prop :=
  ∀ p f e, h.files p = some f → f.dump = some e → e.database = d.database →
    e.backupsDir = d.backupsDir → p ≠ d.path → n < wholeDays d.time f.mtime →
      sqlBelow (m.roots (h.files.write d true) d.backupsDir) p = true

/-- The condition on a run, in the state it starts from. -/
def Safe (h : Host) (r : BackupRun) : Prop :=
  match m.attempt h.files r with
  | .stopped => True
  | .broken d => Elsewhere h d fun _ => True
  | .dumped d n =>
      Elsewhere h d (fun e => e.database ≠ d.database) ∧
        (n ≠ 0 → Spared m h d n ∧ Covered m h d n)

variable {m} {h : Host} {d : Dump} {n : ℕ}

lemma latest_cons_self (log : List Dump) (d : Dump) :
    latest (d :: log) d.database = some d := by
  simp [latest]

lemma latest_cons_of_ne (log : List Dump) {d : Dump} {database : Word}
    (hne : d.database ≠ database) : latest (d :: log) database = latest log database := by
  simp [latest, hne]

/-- Before the first run there is nothing to keep. -/
lemma retained_nil (fs : Files) : Retained ⟨fs, []⟩ := by
  intro e he
  simp [latest] at he

/-- A dump that failed takes the place of the file it was to go to. -/
lemma retained_write_false_iff (hret : Retained h) :
    Retained ⟨h.files.write d false, h.log⟩ ↔ Elsewhere h d fun _ => True := by
  constructor
  · intro hafter e he _ hpath
    have hfile := hafter e he
    simp only [hpath, Files.write_self, Option.some.injEq, File.mk.injEq] at hfile
    exact absurd hfile.2.2 Bool.false_ne_true
  · intro helse e he
    exact (Files.write_of_ne _ _ _ (helse e he trivial)).trans (hret e he)

/-- A file after a run with a complete dump is that dump, or a file from before that the
cleanup has left. -/
lemma cleanup_eq_some {p : FilePath} {f : File} :
    m.cleanup (h.files.write d true) d n p = some f ↔
      (p = d.path ∧ f = ⟨d.time, some d, true⟩) ∨
      (p ≠ d.path ∧ h.files p = some f ∧ (n ≠ 0 →
        sqlBelow (m.roots (h.files.write d true) d.backupsDir) p = true →
          wholeDays d.time f.mtime ≤ n)) := by
  have hage : wholeDays d.time d.time ≤ n := by simp [wholeDays]
  have hclean : m.cleanup (h.files.write d true) d n p = some f ↔
      h.files.write d true p = some f ∧ (n ≠ 0 →
        sqlBelow (m.roots (h.files.write d true) d.backupsDir) p = true →
          wholeDays d.time f.mtime ≤ n) := by
    by_cases hn : n = 0
    · simp [Machine.cleanup, hn]
    · rw [Machine.cleanup, if_pos hn, Files.findRm_eq_some, imp_iff_right hn]
  rw [hclean]
  by_cases hp : p = d.path
  · -- the new dump has just been written, so it is never too old
    subst hp
    rw [Files.write_self]
    constructor
    · rintro ⟨hf, -⟩
      exact .inl ⟨rfl, (Option.some.inj hf).symm⟩
    · rintro (⟨-, rfl⟩ | ⟨hne, -⟩)
      · exact ⟨rfl, fun _ _ => hage⟩
      · exact absurd rfl hne
  · rw [Files.write_of_ne _ _ _ hp]
    simp [hp]

/-- Of the last dumps after a complete one, only those of other databases are at risk. -/
lemma retained_cleanup_iff (hret : Retained h) :
    Retained ⟨m.cleanup (h.files.write d true) d n, d :: h.log⟩ ↔
      Elsewhere h d (fun e => e.database ≠ d.database) ∧ (n ≠ 0 → Spared m h d n) := by
  constructor
  · intro hafter
    have hleft : ∀ e, latest h.log e.database = some e → e.database ≠ d.database →
        e.path ≠ d.path ∧ (n ≠ 0 →
          sqlBelow (m.roots (h.files.write d true) d.backupsDir) e.path = true →
            wholeDays d.time e.time ≤ n) := by
      intro e he hdb
      have hfile := hafter e ((latest_cons_of_ne _ (Ne.symm hdb)).trans he)
      obtain ⟨-, heq⟩ | ⟨hne, -, hyoung⟩ := cleanup_eq_some.mp hfile
      · simp only [File.mk.injEq, Option.some.injEq] at heq
        exact absurd (congrArg Dump.database heq.2.1) hdb
      · exact ⟨hne, hyoung⟩
    exact ⟨fun e he hdb => (hleft e he hdb).1, fun hn e he hdb => (hleft e he hdb).2 hn⟩
  · rintro ⟨helse, hspared⟩ e he
    by_cases hdb : d.database = e.database
    · have hed : d = e := by
        have hlatest := latest_cons_self h.log d
        rw [hdb] at hlatest
        exact Option.some.inj (hlatest.symm.trans he)
      exact cleanup_eq_some.mpr (.inl ⟨by rw [hed], by rw [hed]⟩)
    · have hlatest : latest h.log e.database = some e := (latest_cons_of_ne _ hdb).symm.trans he
      have hne : e.database ≠ d.database := Ne.symm hdb
      exact cleanup_eq_some.mpr (.inr ⟨helse e hlatest hne, hret e hlatest,
        fun hn => hspared hn e hlatest hne⟩)

/-- A run prunes exactly when its cleanup comes by the old dumps. -/
lemma pruned_iff_covered {r : BackupRun} (hr : m.attempt h.files r = .dumped d n) :
    Pruned m h r ↔ (n ≠ 0 → Covered m h d n) := by
  have hfiles : (m.backup h r).files = m.cleanup (h.files.write d true) d n := by
    rw [Machine.backup, hr]
  constructor
  · intro hpruned hn p f e hf hdump hdb hdir hp hold
    by_contra hbelow
    have hleft : (m.backup h r).files p = some f := by
      rw [hfiles]
      exact cleanup_eq_some.mpr (.inr ⟨hp, hf, fun _ h => absurd h hbelow⟩)
    have hyoung := hpruned d n hr hn p f e hleft hdump hdb hdir
    omega
  · intro hcovered d' n' hr' hn p f e hf hdump hdb hdir
    obtain ⟨rfl, rfl⟩ : d = d' ∧ n = n' := by
      simpa using hr.symm.trans hr'
    rw [hfiles] at hf
    obtain ⟨-, rfl⟩ | ⟨hp, hfile, hyoung⟩ := cleanup_eq_some.mp hf
    · simp [wholeDays]
    · by_contra hold
      exact hold (hyoung hn (hcovered hn p f e hfile hdump hdb hdir hp (by omega)))

/-- One run keeps the backups exactly when it is safe. -/
lemma backup_iff (r : BackupRun) (hret : Retained h) :
    Retained (m.backup h r) ∧ Pruned m h r ↔ Safe m h r := by
  have hvoid : (∀ d n, m.attempt h.files r ≠ .dumped d n) → Pruned m h r :=
    fun hno d n hr => absurd hr (hno d n)
  cases hr : m.attempt h.files r with
  | stopped =>
      simp only [Machine.backup, Safe, hr, iff_true]
      exact ⟨hret, hvoid fun d n => by simp [hr]⟩
  | broken d =>
      simp only [Machine.backup, Safe, hr, retained_write_false_iff hret, and_iff_left_iff_imp]
      exact fun _ => hvoid fun d n => by simp [hr]
  | dumped d n =>
      simp only [Machine.backup, Safe, hr, retained_cleanup_iff hret, pruned_iff_covered hr,
        and_assoc, imp_and]

/-- The runs of the script keep the backups exactly when each of them is safe. -/
theorem keepsBackups_iff (m : Machine) (fs : Files) (runs : List BackupRun) :
    KeepsBackups m fs runs ↔ Along m.backup (Safe m) ⟨fs, []⟩ runs :=
  along_iff_of_step (fun _ r hret => backup_iff r hret) (retained_nil fs)

/-! ### Two runs that do not -/

/-- The last decimal digits of a number. -/
def decimal : ℕ → ℕ → Word
  | 0, _ => []
  | width + 1, n => decimal width (n / 10) ++ [Nat.digitChar (n % 10)]

/-- The date of a day since 1970, in years that begin in March: day 0 of an era of 400 years
is a first of March. -/
def civil (days : ℕ) : ℕ × ℕ × ℕ :=
  let z := days + 719468
  let doe := z % 146097
  let yoe := (doe - doe / 1460 + doe / 36524 - doe / 146096) / 365
  let doy := doe - (365 * yoe + yoe / 4 - yoe / 100)
  let mp := (5 * doy + 2) / 153
  let year := yoe + z / 146097 * 400
  (if mp < 10 then year else year + 1, if mp < 10 then mp + 3 else mp - 9,
    doy - (153 * mp + 2) / 5 + 1)

/-- `date +'%Y-%m-%d-%H:%M:%S'` where the local time is UTC. -/
def utcDate (t : ℕ) : Word :=
  let (year, month, day) := civil (t / 86400)
  decimal 4 year ++ '-' :: decimal 2 month ++ '-' :: decimal 2 day ++
    '-' :: decimal 2 (t / 3600 % 24) ++ ':' :: decimal 2 (t / 60 % 60) ++ ':' :: decimal 2 (t % 60)

example : utcDate 1551880951 = "2019-03-06-14:02:31".toList := by decide +kernel

/-- A machine in `/root`, for words without patterns. -/
def rootMachine : Machine where
  cwd := ["root".toList]
  glob := fun _ w => [w]
  date := utcDate

/-- A run with arguments in which everything succeeds. -/
def argsRun (database backupsDir : String) (deleteOffset : Option ℕ) (time : ℕ) : BackupRun where
  invocation :=
    { args := ⟨"mysql57".toList, database.toList, backupsDir.toList, "root".toList,
        "secret".toList, deleteOffset⟩
      answers := ⟨[], [], [], [], [], none⟩
      deleteTag := [] }
  time := time
  inspect := fun _ => some "c0ffee".toList
  opens := fun _ => true
  mysqldump := fun _ _ _ _ => true

/-- In the default directory, a run for `blog` with offset 3 removes the only dump of `shop`,
which was taken ten days before and not to be removed. In the directory as the prompt spells
it, without the slash, the dump of `shop` is not below the directory and stays for ever. -/
theorem cleanup_takes_other_database :
    ¬ KeepsBackups rootMachine (fun _ => none)
        [argsRun "shop" "" none 1551880951, argsRun "blog" "" (some 3) 1552744951] ∧
      ¬ KeepsBackups rootMachine (fun _ => none)
        [argsRun "shop" "/data/allindocker_backup" none 1551880951,
          argsRun "shop" "/data/allindocker_backup" (some 3) 1552744951] := by
  constructor
  · intro h
    let shop : Dump := ⟨"shop".toList, defaultDir, ["data".toList, "allindocker_backup".toList,
      "shop--2019-03-06-14:02:31.sql".toList], 1551880951⟩
    have hkept := (h [argsRun "shop" "" none 1551880951] _ [] rfl).1 shop (by decide +kernel)
    exact absurd hkept (by decide +kernel)
  · intro h
    let dir := "/data/allindocker_backup".toList
    let old : Dump := ⟨"shop".toList, dir, ["data".toList,
      "allindocker_backupshop--2019-03-06-14:02:31.sql".toList], 1551880951⟩
    let new : Dump := ⟨"shop".toList, dir, ["data".toList,
      "allindocker_backupshop--2019-03-16-14:02:31.sql".toList], 1552744951⟩
    have hpruned := (h [argsRun "shop" "/data/allindocker_backup" none 1551880951] _ [] rfl).2
      new 3 (by decide +kernel) (by decide) old.path ⟨1551880951, some old, true⟩ old
      (by decide +kernel) rfl rfl rfl
    exact absurd hpruned (by decide)

end AllInDocker
