import SchemaDoc.CommandLine.Run
import SchemaDoc.Proofs.Schema.Loading
import SchemaDoc.Proofs.Sql.Outcome

/-!
# The stages of writing a script

To write the statements of a schema document the program finds its settings, reads the file as a
text, parses the text, builds the model, and generates the statements. It stops at the first of
these stages that has a fault, with nothing printed and that fault as its report, or else completes
and prints every statement (`ddl_completes_or_stops`).
-/
namespace SchemaDoc

/-- What is asked for with `ddl`. -/
structure DdlRequest where
  file : String
  dialect? : Option Dialect
  grants : Bool
  ifNotExists : Bool
  deriving DecidableEq, Repr

inductive Stage
  | configuration
  | reading
  | parsing
  | building
  | generation
  deriving DecidableEq, Repr

/-- The stages that a run goes through before it comes to one. -/
def Stage.earlier : Stage → List Stage
  | configuration => []
  | reading => [configuration]
  | parsing => [configuration, reading]
  | building => [configuration, reading, parsing]
  | generation => [configuration, reading, parsing, building]

/-- Settings that an environment tells: the dialect is PostgreSQL if none is named, and tables are
created unless they exist only if that is told by the word `true`. -/
structure Settings.AreToldBy (s : Settings) (seen : Environment) : Prop where
  dialect : (seen.value? "DBS_DIALECT").elim (some .postgres) Dialect.ofName? = some s.dialect
  ifNotExists : s.ifNotExists ↔ seen.value? "DBS_IF_NOT_EXISTS" = some "true"

namespace Settings

theorem ofEnvironment_eq_ok_iff {seen : Environment} {s : Settings} :
    ofEnvironment seen = .ok s ↔ s.AreToldBy seen := by
  obtain ⟨dialect, ifNotExists⟩ := s
  have hname : Dialect.ofName? ((seen.value? "DBS_DIALECT").getD "postgres") =
      (seen.value? "DBS_DIALECT").elim (some .postgres) Dialect.ofName? := by
    cases seen.value? "DBS_DIALECT" with
    | none => exact Dialect.ofName?_name .postgres
    | some name => rfl
  rw [ofEnvironment, hname]
  constructor
  · intro h
    split at h
    next found hfound =>
      cases h
      exact ⟨hfound, beq_iff_eq⟩
    next => cases h
  · rintro ⟨hdialect, hflag⟩
    dsimp only at hdialect hflag
    have hflag : (seen.value? "DBS_IF_NOT_EXISTS" == some "true") = ifNotExists := by
      rw [Bool.eq_iff_iff, beq_iff_eq, hflag]
    rw [hdialect, hflag]

theorem ofEnvironment_eq_error_iff {seen : Environment} {fault : CommandFault} :
    ofEnvironment seen = .error fault ↔
      ∃ name, seen.value? "DBS_DIALECT" = some name ∧ Dialect.ofName? name = none ∧
        fault = .unknownDialect name := by
  rw [ofEnvironment]
  cases seen.value? "DBS_DIALECT" with
  | none =>
    have hdefault : Dialect.ofName? "postgres" = some .postgres := Dialect.ofName?_name .postgres
    simp [hdefault]
  | some name => cases h : Dialect.ofName? name <;> simp [h, eq_comm]

end Settings

/-- The text of a file, all of which must be text. -/
def IsTextOf (files : Files) (path text : String) : Prop :=
  ∃ bytes, files path = .ok bytes ∧ String.fromUTF8? bytes = some text

theorem readText_eq_ok_iff {files : Files} {path text : String} :
    readText files path = .ok text ↔ IsTextOf files path text := by
  rw [readText, IsTextOf, bind_eq_ok_iff]
  refine exists_congr fun bytes => and_congr_right fun _ => ?_
  cases String.fromUTF8? bytes <;> simp

theorem readText_eq_error_iff {files : Files} {path : String} {cause : ReadFault} :
    readText files path = .error cause ↔ files path = .error cause ∨
      cause = .notText ∧ ∃ bytes, files path = .ok bytes ∧ String.fromUTF8? bytes = none := by
  rw [readText]
  cases files path with
  | error fault => simp [bind, Except.bind]
  | ok bytes => cases h : String.fromUTF8? bytes <;> simp [bind, Except.bind, h, eq_comm]

/-- What a reader of texts makes of a file: of `Element.parsePlain` its root, of `Database.parse`
its model. -/
def IsReadAs {α : Type} (files : Files) (path : String) (read : String → Except LoadFault α)
    (a : α) : Prop :=
  ∃ text, IsTextOf files path text ∧ read text = .ok a

/-- What is left to do once the settings are found. -/
def writeFile (files : Files) (path : String) (s : Settings) (grants : Bool) : Outcome :=
  match loadFile files path with
  | .error fault => .failure "" fault
  | .ok db => writeScript db s grants

section

variable {files : Files} {path text : String} {root : Element} {db : Database}

theorem IsTextOf.unique {text' : String} (h : IsTextOf files path text)
    (h' : IsTextOf files path text') : text = text' := by
  rw [← readText_eq_ok_iff] at h h'
  exact Except.ok.inj (h.symm.trans h')

theorem IsReadAs.unique {α : Type} {read : String → Except LoadFault α} {a a' : α}
    (h : IsReadAs files path read a) (h' : IsReadAs files path read a') : a = a' := by
  obtain ⟨text, htext, ha⟩ := h
  obtain ⟨text', htext', ha'⟩ := h'
  cases htext.unique htext'
  exact Except.ok.inj (ha.symm.trans ha')

theorem IsReadAs.exists_text {α : Type} {read : String → Except LoadFault α} {a : α}
    (h : IsReadAs files path read a) : ∃ text, IsTextOf files path text := by
  obtain ⟨text, htext, -⟩ := h
  exact ⟨text, htext⟩

theorem not_isReadAs_of_malformed (h : IsTextOf files path text) {fault : Xml.Fault Xml.Position}
    (hfault : Xml.Node.parse text = .error fault) :
    ¬ IsReadAs files path Element.parsePlain root := by
  rintro ⟨text', htext', hroot⟩
  cases h.unique htext'
  rw [Element.parsePlain, hfault] at hroot
  cases hroot

theorem parse_of_root (hroot : Element.parsePlain text = .ok root) :
    Database.parse text = failOr (Database.fault? root) (Database.read root) := by
  rw [Database.parse, hroot, ← Database.ofElement_eq_failOr]
  rfl

theorem isReadAs_parse_iff : IsReadAs files path Database.parse db ↔
    ∃ root, IsReadAs files path Element.parsePlain root ∧ Database.fault? root = none ∧
      Database.read root = db := by
  constructor
  · rintro ⟨text, htext, hdb⟩
    cases hroot : Element.parsePlain text with
    | error fault =>
      rw [Database.parse, hroot] at hdb
      cases hdb
    | ok root =>
      rw [parse_of_root hroot] at hdb
      have hfault : Database.fault? root = none := by
        rw [← faultOf_failOr (Database.fault? root) (Database.read root), hdb, faultOf_ok]
      rw [hfault] at hdb
      exact ⟨root, ⟨text, htext, hroot⟩, hfault, Except.ok.inj hdb⟩
  · rintro ⟨root, ⟨text, htext, hroot⟩, hfault, rfl⟩
    exact ⟨text, htext, by rw [parse_of_root hroot, hfault, failOr]⟩

theorem loadFile_of_model (h : IsReadAs files path Database.parse db) :
    loadFile files path = .ok db := by
  obtain ⟨text, htext, hdb⟩ := h
  rw [loadFile, readText_eq_ok_iff.mpr htext]
  simp only [hdb]
  rfl

theorem loadFile_of_malformed (h : IsTextOf files path text) {fault : Xml.Fault Xml.Position}
    (hfault : Xml.Node.parse text = .error fault) :
    loadFile files path = .error (.unloadable path (.malformedDocument fault)) := by
  rw [loadFile, readText_eq_ok_iff.mpr h]
  simp only [Database.parse, Element.parsePlain, hfault]
  rfl

theorem loadFile_of_misbuilt (h : IsReadAs files path Element.parsePlain root) {fault : LoadFault}
    (hfault : Database.fault? root = some fault) :
    loadFile files path = .error (.unloadable path fault) := by
  obtain ⟨text, htext, hroot⟩ := h
  rw [loadFile, readText_eq_ok_iff.mpr htext]
  simp only [parse_of_root hroot, hfault]
  rfl

end

namespace DdlRequest

variable (r : DdlRequest) (files : Files) (env : Environment)

def command : Command :=
  .ddl r.file r.dialect? r.grants r.ifNotExists

/-- The dialect that counts: that of the request if it has one. -/
def dialect (s : Settings) : Dialect :=
  r.dialect?.getD s.dialect

/-- The first stage: the environment is complete, with the file `.env`, and tells the settings. -/
def Configured (s : Settings) : Prop :=
  ∃ seen, withEnvironmentFile? files env = some seen ∧ s.AreToldBy seen

/-- All stages up to the building of the model. -/
structure Loaded (s : Settings) (db : Database) : Prop where
  configured : Configured files env s
  model : IsReadAs files r.file Database.parse db

/-- All stages, down to the statements. -/
structure Completes (s : Settings) (db : Database) (statements : List String) : Prop where
  loaded : r.Loaded files env s db
  generated : db.ddl (r.dialect s) (s.ifNotExists || r.ifNotExists) = .ok statements

/-- What it takes to get past a stage that a run has come to. -/
def Passes : Stage → Prop
  | .configuration => ∃ s, Configured files env s
  | .reading => ∃ text, IsTextOf files r.file text
  | .parsing => ∃ root, IsReadAs files r.file Element.parsePlain root
  | .building => ∃ db, IsReadAs files r.file Database.parse db
  | .generation => ∃ s db statements, r.Completes files env s db statements

/-- The first stage that has a fault, and what the run ends with there. -/
inductive StopsAt : Stage → Outcome → Prop
  /-- The file `.env` has a value that no environment can hold. -/
  | environment (h : withEnvironmentFile? files env = none) : StopsAt .configuration .crash
  | dialect {seen : Environment} {name : String}
      (hseen : withEnvironmentFile? files env = some seen)
      (hname : seen.value? "DBS_DIALECT" = some name) (hunknown : Dialect.ofName? name = none) :
      StopsAt .configuration (.failure "" (.unknownDialect name))
  | unreadable {s : Settings} {cause : ReadFault} (hs : Configured files env s)
      (h : files r.file = .error cause) : StopsAt .reading (.failure "" (.unreadable r.file cause))
  | notText {s : Settings} {bytes : ByteArray} (hs : Configured files env s)
      (hbytes : files r.file = .ok bytes) (h : String.fromUTF8? bytes = none) :
      StopsAt .reading (.failure "" (.unreadable r.file .notText))
  | malformed {s : Settings} {text : String} {fault : Xml.Fault Xml.Position}
      (hs : Configured files env s) (htext : IsTextOf files r.file text)
      (h : Xml.Node.parse text = .error fault) :
      StopsAt .parsing (.failure "" (.unloadable r.file (.malformedDocument fault)))
  | misbuilt {s : Settings} {root : Element} {fault : LoadFault} (hs : Configured files env s)
      (hroot : IsReadAs files r.file Element.parsePlain root)
      (h : Database.fault? root = some fault) :
      StopsAt .building (.failure "" (.unloadable r.file fault))
  | unsupported {s : Settings} {db : Database} {table : String} {type : UnsupportedType}
      (hdb : r.Loaded files env s db)
      (h : db.tables.findSome? (·.writeFault? (r.dialect s)) = some (.unsupportedType table type)) :
      StopsAt .generation (.failure "" (.unsupportedType table type))
  /-- The renderer breaks off. -/
  | unwritable {s : Settings} {db : Database} {cause : NoSerialText} (hdb : r.Loaded files env s db)
      (h : db.tables.findSome? (·.writeFault? (r.dialect s)) = some (.unwritable cause)) :
      StopsAt .generation .crash

/-- What a completed run prints: every statement, and the grants if they are asked for. -/
def printed (s : Settings) (db : Database) (statements : List String) : String :=
  String.join ((statements ++ if r.grants then db.grants (r.dialect s) else []).map (· ++ ";\n"))

variable {r files env} {arguments : List String} {s : Settings} {db : Database}

theorem Configured.unique {s' : Settings} (h : Configured files env s)
    (h' : Configured files env s') : s = s' := by
  obtain ⟨seen, hseen, htold⟩ := h
  obtain ⟨seen', hseen', htold'⟩ := h'
  cases hseen.symm.trans hseen'
  rw [← Settings.ofEnvironment_eq_ok_iff] at htold htold'
  exact Except.ok.inj (htold.symm.trans htold')

theorem Loaded.unique {s' : Settings} {db' : Database} (h : r.Loaded files env s db)
    (h' : r.Loaded files env s' db') : s = s' ∧ db = db' :=
  ⟨h.configured.unique h'.configured, h.model.unique h'.model⟩

theorem Loaded.passes (h : r.Loaded files env s db) :
    ∀ earlier ∈ Stage.generation.earlier, r.Passes files env earlier := by
  obtain ⟨root, hroot, -, -⟩ := isReadAs_parse_iff.mp h.model
  simpa [Stage.earlier, Passes] using ⟨⟨s, h.configured⟩, hroot.exists_text, ⟨root, hroot⟩,
    ⟨db, h.model⟩⟩

theorem Loaded.not_passes_of_fault (h : r.Loaded files env s db) {fault : DdlFault}
    (hfault : db.tables.findSome? (·.writeFault? (r.dialect s)) = some fault) :
    ¬ r.Passes files env .generation := by
  rintro ⟨s', db', statements, h'⟩
  obtain ⟨rfl, rfl⟩ := h.unique h'.loaded
  have hnone := Database.faultOf_ddl (r.dialect s) (s.ifNotExists || r.ifNotExists) db
  rw [h'.generated, hfault] at hnone
  cases hnone

/-- The stage that a run stops at is the first one that it does not get past. -/
theorem StopsAt.first {stage : Stage} {outcome : Outcome} (h : r.StopsAt files env stage outcome) :
    ¬ r.Passes files env stage ∧ ∀ earlier ∈ stage.earlier, r.Passes files env earlier := by
  cases h with
  | environment h =>
    refine ⟨?_, by simp [Stage.earlier]⟩
    rintro ⟨s, seen, hseen, -⟩
    rw [h] at hseen
    cases hseen
  | dialect hseen hname hunknown =>
    refine ⟨?_, by simp [Stage.earlier]⟩
    rintro ⟨s, seen, hseen', htold⟩
    cases hseen.symm.trans hseen'
    have hdialect := htold.dialect
    rw [hname, Option.elim_some, hunknown] at hdialect
    cases hdialect
  | unreadable hs h =>
    refine ⟨?_, by simpa [Stage.earlier, Passes] using ⟨_, hs⟩⟩
    rintro ⟨text, bytes, hbytes, -⟩
    rw [h] at hbytes
    cases hbytes
  | notText hs hbytes h =>
    refine ⟨?_, by simpa [Stage.earlier, Passes] using ⟨_, hs⟩⟩
    rintro ⟨text, bytes', hbytes', htext⟩
    cases hbytes.symm.trans hbytes'
    rw [h] at htext
    cases htext
  | malformed hs htext h =>
    refine ⟨fun ⟨_, hroot⟩ => not_isReadAs_of_malformed htext h hroot, ?_⟩
    simpa [Stage.earlier, Passes] using ⟨⟨_, hs⟩, ⟨_, htext⟩⟩
  | misbuilt hs hroot h =>
    refine ⟨?_, by simpa [Stage.earlier, Passes] using ⟨⟨_, hs⟩, hroot.exists_text, ⟨_, hroot⟩⟩⟩
    rintro ⟨db, hdb⟩
    obtain ⟨root', hroot', hnone, -⟩ := isReadAs_parse_iff.mp hdb
    cases hroot.unique hroot'
    rw [h] at hnone
    cases hnone
  | unsupported hdb h => exact ⟨hdb.not_passes_of_fault h, hdb.passes⟩
  | unwritable hdb h => exact ⟨hdb.not_passes_of_fault h, hdb.passes⟩

theorem runArguments_of_seen (hargs : Command.ofArguments? arguments = some r.command)
    {seen : Environment} (hseen : withEnvironmentFile? files env = some seen) :
    runArguments arguments files env = r.command.run files seen := by
  simp only [runArguments, hseen, hargs]

theorem Configured.run_eq (hs : Configured files env s)
    (hargs : Command.ofArguments? arguments = some r.command) :
    runArguments arguments files env =
      writeFile files r.file (s.override r.dialect? r.ifNotExists) r.grants := by
  obtain ⟨seen, hseen, htold⟩ := hs
  rw [runArguments_of_seen hargs hseen, command, Command.run,
    Settings.ofEnvironment_eq_ok_iff.mpr htold]
  rfl

theorem Loaded.run_eq (h : r.Loaded files env s db)
    (hargs : Command.ofArguments? arguments = some r.command) :
    runArguments arguments files env =
      writeScript db (s.override r.dialect? r.ifNotExists) r.grants := by
  rw [h.configured.run_eq hargs, writeFile, loadFile_of_model h.model]

theorem Completes.run_eq {statements : List String} (h : r.Completes files env s db statements)
    (hargs : Command.ofArguments? arguments = some r.command) :
    runArguments arguments files env = .success (r.printed s db statements) := by
  have hddl := h.generated
  rw [dialect] at hddl
  simp only [h.loaded.run_eq hargs, writeScript, Settings.override, hddl]
  rfl

theorem Loaded.run_eq_of_fault (h : r.Loaded files env s db)
    (hargs : Command.ofArguments? arguments = some r.command) {fault : DdlFault}
    (hfault : db.tables.findSome? (·.writeFault? (r.dialect s)) = some fault) :
    runArguments arguments files env =
      match fault with
      | .unsupportedType table type => .failure "" (.unsupportedType table type)
      | .unwritable _ => .crash := by
  rw [← Database.faultOf_ddl _ (s.ifNotExists || r.ifNotExists), faultOf_eq_some_iff,
    dialect] at hfault
  simp only [h.run_eq hargs, writeScript, Settings.override, hfault]
  cases fault <;> rfl

theorem StopsAt.run_eq {stage : Stage} {outcome : Outcome} (h : r.StopsAt files env stage outcome)
    (hargs : Command.ofArguments? arguments = some r.command) :
    runArguments arguments files env = outcome := by
  cases h with
  | environment h => rw [runArguments, h]
  | dialect hseen hname hunknown =>
    have hfault := Settings.ofEnvironment_eq_error_iff.mpr ⟨_, hname, hunknown, rfl⟩
    rw [runArguments_of_seen hargs hseen, command, Command.run, hfault]
  | unreadable hs h => rw [hs.run_eq hargs, writeFile, loadFile, readText_eq_error_iff.mpr (.inl h)]
  | notText hs hbytes h =>
    rw [hs.run_eq hargs, writeFile, loadFile, readText_eq_error_iff.mpr (.inr ⟨rfl, _, hbytes, h⟩)]
  | malformed hs htext h => rw [hs.run_eq hargs, writeFile, loadFile_of_malformed htext h]
  | misbuilt hs hroot h => rw [hs.run_eq hargs, writeFile, loadFile_of_misbuilt hroot h]
  | unsupported hdb h => exact hdb.run_eq_of_fault hargs h
  | unwritable hdb h => exact hdb.run_eq_of_fault hargs h

theorem StopsAt.eq_crash_or_failure {stage : Stage} {outcome : Outcome}
    (h : r.StopsAt files env stage outcome) :
    outcome = .crash ∨ ∃ fault, outcome = .failure "" fault := by
  cases h with
  | environment | unwritable => exact .inl rfl
  | dialect | unreadable | notText | malformed | misbuilt | unsupported => exact .inr ⟨_, rfl⟩

theorem StopsAt.exitCode_ne_zero {stage : Stage} {outcome : Outcome}
    (h : r.StopsAt files env stage outcome) : outcome.exitCode ≠ 0 := by
  obtain rfl | ⟨fault, rfl⟩ := h.eq_crash_or_failure
  · decide
  · exact Nat.one_ne_zero

variable (r files env)

/-! A run that comes to a stage gets past it or stops there. -/

theorem configured_or_stops :
    (∃ s, Configured files env s) ∨ ∃ outcome, r.StopsAt files env .configuration outcome := by
  cases hseen : withEnvironmentFile? files env with
  | none => exact .inr ⟨_, .environment hseen⟩
  | some seen =>
    cases hs : Settings.ofEnvironment seen with
    | ok s => exact .inl ⟨s, seen, hseen, Settings.ofEnvironment_eq_ok_iff.mp hs⟩
    | error fault =>
      obtain ⟨name, hname, hunknown, -⟩ := Settings.ofEnvironment_eq_error_iff.mp hs
      exact .inr ⟨_, .dialect hseen hname hunknown⟩

variable {files env} in
theorem root_or_stops (hs : Configured files env s) :
    (∃ root, IsReadAs files r.file Element.parsePlain root) ∨
      ∃ stage outcome, r.StopsAt files env stage outcome := by
  cases hread : readText files r.file with
  | error cause =>
    obtain h | ⟨-, bytes, hbytes, h⟩ := readText_eq_error_iff.mp hread
    · exact .inr ⟨_, _, .unreadable hs h⟩
    · exact .inr ⟨_, _, .notText hs hbytes h⟩
  | ok text =>
    have htext := readText_eq_ok_iff.mp hread
    cases hroot : Xml.Node.parse text with
    | error fault => exact .inr ⟨_, _, .malformed hs htext hroot⟩
    | ok node =>
      have hplain : Element.parsePlain text = .ok (.ofNode (·.uri?.isNone) node) := by
        rw [Element.parsePlain, hroot]
      exact .inl ⟨_, text, htext, hplain⟩

theorem loaded_or_stops :
    (∃ s db, r.Loaded files env s db) ∨ ∃ stage outcome, r.StopsAt files env stage outcome := by
  obtain ⟨s, hs⟩ | ⟨outcome, hstop⟩ := r.configured_or_stops files env
  · obtain ⟨root, hroot⟩ | hstop := r.root_or_stops hs
    · cases hfault : Database.fault? root with
      | none => exact .inl ⟨s, _, hs, isReadAs_parse_iff.mpr ⟨root, hroot, hfault, rfl⟩⟩
      | some fault => exact .inr ⟨_, _, .misbuilt hs hroot hfault⟩
    · exact .inr hstop
  · exact .inr ⟨_, outcome, hstop⟩

theorem completes_or_stops :
    (∃ s db statements, r.Completes files env s db statements) ∨
      ∃ stage outcome, r.StopsAt files env stage outcome := by
  obtain ⟨s, db, hdb⟩ | hstop := r.loaded_or_stops files env
  · have hfault := Database.faultOf_ddl (r.dialect s) (s.ifNotExists || r.ifNotExists) db
    cases hddl : db.ddl (r.dialect s) (s.ifNotExists || r.ifNotExists) with
    | ok statements => exact .inl ⟨s, db, statements, hdb, hddl⟩
    | error fault =>
      rw [hddl, faultOf_error] at hfault
      cases fault with
      | unsupportedType table type => exact .inr ⟨_, _, .unsupported hdb hfault.symm⟩
      | unwritable cause => exact .inr ⟨_, _, .unwritable hdb hfault.symm⟩
  · exact .inr hstop

end DdlRequest

/-- A run for the statements of a document succeeds exactly if every stage does. It then prints
every statement, with the grants if they are asked for, each on its own. Otherwise it prints
nothing, and ends as the first stage does that has a fault: with that fault as its report, or by
breaking off. -/
theorem ddl_completes_or_stops (arguments : List String) (r : DdlRequest) (files : Files)
    (env : Environment) (hargs : Command.ofArguments? arguments = some r.command) :
    ((runArguments arguments files env).exitCode = 0 ↔
        ∃ s db statements, r.Completes files env s db statements) ∧
      (∀ s db statements, r.Completes files env s db statements →
        (runArguments arguments files env).output = r.printed s db statements) ∧
      (∀ outcome, outcome.exitCode ≠ 0 →
        (runArguments arguments files env = outcome ↔ ∃ stage, r.StopsAt files env stage outcome)) ∧
      ∀ stage outcome, r.StopsAt files env stage outcome →
        (¬ r.Passes files env stage ∧ ∀ earlier ∈ stage.earlier, r.Passes files env earlier) ∧
        outcome.output = "" ∧
        (outcome = .crash ∧ outcome.exitCode = 101 ∨
          ∃ fault, outcome = .failure "" fault ∧ outcome.exitCode = 1 ∧
            outcome.report? = some fault.report) := by
  refine ⟨⟨fun hzero => ?_, ?_⟩, ?_, fun outcome hne => ⟨?_, ?_⟩, ?_⟩
  · obtain h | ⟨stage, outcome, h⟩ := r.completes_or_stops files env
    · exact h
    · rw [h.run_eq hargs] at hzero
      exact absurd hzero h.exitCode_ne_zero
  · rintro ⟨s, db, statements, h⟩
    rw [h.run_eq hargs]
    rfl
  · intro s db statements h
    rw [h.run_eq hargs]
    rfl
  · rintro rfl
    obtain ⟨s, db, statements, h⟩ | ⟨stage, outcome, h⟩ := r.completes_or_stops files env
    · rw [h.run_eq hargs] at hne
      exact absurd rfl hne
    · rw [h.run_eq hargs]
      exact ⟨stage, h⟩
  · rintro ⟨stage, h⟩
    exact h.run_eq hargs
  · intro stage outcome h
    refine ⟨h.first, ?_⟩
    obtain rfl | ⟨fault, rfl⟩ := h.eq_crash_or_failure
    · exact ⟨rfl, .inl ⟨rfl, rfl⟩⟩
    · exact ⟨rfl, .inr ⟨fault, rfl, rfl, rfl⟩⟩

/-- A document with one table that a user may read. -/
def noteText : String :=
  "<d><table name=\"note\"><column name=\"n\" type=\"int\"/>" ++
    "<permissions user=\"u\"><permission>SELECT</permission></permissions></table></d>"

def noteDatabase : Database where
  tables := [⟨"note", [⟨"n", "int", 0, .none, false⟩], [⟨"u", ["SELECT"]⟩]⟩]

def noteFiles : Files := fun path =>
  if path = "note.xml" then .ok noteText.toUTF8 else .error .missing

/-- A file of settings. The dialect that it names is none. -/
def noteSettings : String :=
  "# note\nDBS_IF_NOT_EXISTS=\"true\"\nexport DBS_DIALECT=oracle # none\n"

/-- The file `note.xml` with settings beside it. -/
def settledNoteFiles : Files := fun path =>
  if path = ".env" then .ok noteSettings.toUTF8 else noteFiles path

def noteArguments : List String :=
  ["ddl", "--grants", "note.xml", "--dialect=mysql"]

def noteRequest : DdlRequest :=
  ⟨"note.xml", some .mysql, true, false⟩

/-- The file `.env` tells that tables are created unless they exist. Its dialect counts only where
none is named before. -/
theorem ddl_completes_or_stops_note :
    Command.ofArguments? noteArguments = some noteRequest.command ∧
      (runArguments noteArguments settledNoteFiles ["DBS_DIALECT=sqlite"]).exitCode = 0 ∧
      (runArguments noteArguments settledNoteFiles ["DBS_DIALECT=sqlite"]).output =
        "CREATE TABLE IF NOT EXISTS `note` ( `n` int );\nGRANT SELECT ON `note` TO 'u';\n" ∧
      runArguments noteArguments settledNoteFiles [] = .failure "" (.unknownDialect "oracle") := by
  have hargs : Command.ofArguments? noteArguments = some noteRequest.command := by decide +kernel
  have hseen : withEnvironmentFile? settledNoteFiles ["DBS_DIALECT=sqlite"] =
      some ["DBS_DIALECT=sqlite", "DBS_IF_NOT_EXISTS=true"] := by decide +kernel
  have hseen' : withEnvironmentFile? settledNoteFiles [] =
      some ["DBS_IF_NOT_EXISTS=true", "DBS_DIALECT=oracle"] := by decide +kernel
  have hcompletes : noteRequest.Completes settledNoteFiles ["DBS_DIALECT=sqlite"] ⟨.sqlite, true⟩
      noteDatabase ["CREATE TABLE IF NOT EXISTS `note` ( `n` int )"] := by
    have hmodel : IsReadAs settledNoteFiles "note.xml" Database.parse noteDatabase :=
      ⟨noteText, ⟨noteText.toUTF8, rfl, by decide +kernel⟩, by decide +kernel⟩
    exact ⟨⟨⟨_, hseen, by decide, by decide⟩, hmodel⟩, rfl⟩
  have hstops : noteRequest.StopsAt settledNoteFiles [] .configuration
      (.failure "" (.unknownDialect "oracle")) := .dialect hseen' (by decide) (by decide)
  obtain ⟨hzero, hprinted, -, -⟩ :=
    ddl_completes_or_stops _ noteRequest settledNoteFiles ["DBS_DIALECT=sqlite"] hargs
  obtain ⟨-, -, hends, -⟩ := ddl_completes_or_stops _ noteRequest settledNoteFiles [] hargs
  refine ⟨hargs, hzero.mpr ⟨_, _, _, hcompletes⟩, ?_, (hends _ (by decide)).mpr ⟨_, hstops⟩⟩
  rw [hprinted _ _ _ hcompletes]
  rfl

end SchemaDoc
