import SchemaDoc.Proofs.CommandLine.Agreement
import SchemaDoc.Proofs.CommandLine.Stages

/-!
# What an overridden dialect still does

The dialect of a command takes the place of the one in the environment, but the environment is
looked at first. Of its dialect a run with a dialect of its own shows one thing: that it is unknown.
Runs that differ in nothing else look alike exactly if the environment names the same unknown
dialect in both or in neither (`overridden_dialect_shows_iff`).
-/
namespace SchemaDoc

/-- The lines of the file `.env`, none if it cannot be read. -/
def environmentLines (files : Files) : List (Option (List Char)) :=
  match files ".env" with
  | .ok bytes => joinLines .closed [] (fileLines bytes)
  | .error _ => []

theorem withEnvironmentFile?_eq (files : Files) (env : Environment) :
    withEnvironmentFile? files env = env.addLines? (environmentLines files) := by
  rw [withEnvironmentFile?, environmentLines]
  cases files ".env" <;> rfl

/-- The dialect that the environment names, if there is none of that name. -/
def unknownDialect? (files : Files) (env : Environment) : Option String :=
  (withEnvironmentFile? files env).bind fun seen =>
    (seen.value? "DBS_DIALECT").filter fun name => (Dialect.ofName? name).isNone

/-- What the environment tells of tables that exist, if it is complete. -/
def toldIfNotExists? (files : Files) (env : Environment) : Option (Option String) :=
  (withEnvironmentFile? files env).map (·.value? "DBS_IF_NOT_EXISTS")

theorem loadFile_ne_unknownDialect (files : Files) (path name : String) :
    loadFile files path ≠ .error (.unknownDialect name) := by
  rw [loadFile]
  cases readText files path with
  | error cause => simp
  | ok text => cases h : Database.parse text <;> simp [h, Except.mapError]

theorem writeScript_ne_unknownDialect (db : Database) (s : Settings) (grants : Bool)
    (name : String) : writeScript db s grants ≠ .failure "" (.unknownDialect name) := by
  rw [writeScript]
  split <;> simp

theorem writeFile_ne_unknownDialect (files : Files) (file : String) (s : Settings) (grants : Bool)
    (name : String) : writeFile files file s grants ≠ .failure "" (.unknownDialect name) := by
  rw [writeFile]
  cases h : loadFile files file with
  | error fault =>
    rintro ⟨⟩
    exact loadFile_ne_unknownDialect files file name h
  | ok db => exact writeScript_ne_unknownDialect db s grants name

namespace CommandFault

theorem report_eq_append (fault : CommandFault) :
    fault.report = "Error: " ++ (fault.message ++ ("\n" ++ causeText fault.causes)) := by
  rw [report, String.append_assoc, String.append_assoc]

theorem exists_unknownDialect_of_head? {fault : CommandFault}
    (h : fault.message.toList.head? = some 'u') : ∃ name, fault = .unknownDialect name := by
  unfold message at h
  cases fault with
  | unknownDialect name => exact ⟨name, rfl⟩
  | danglingReferences count =>
    obtain ⟨c, digits, hdigits⟩ :=
      List.exists_cons_of_ne_nil (Nat.toDigits_ne_nil (n := count) (b := 10))
    have hc : c ∈ Nat.toDigits 10 count := by rw [hdigits]; exact List.mem_cons_self
    have hdigit := Nat.isDigit_of_mem_toDigits (by decide) (by decide) hc
    simp [hdigits] at h
    rw [h] at hdigit
    exact absurd hdigit (by decide)
  | _ => simp at h

theorem report_eq_unknownDialect_iff {fault : CommandFault} {name : String} :
    fault.report = (unknownDialect name).report ↔ fault = .unknownDialect name := by
  constructor
  · intro h
    rw [report_eq_append, report_eq_append, String.append_right_inj] at h
    have hhead := congrArg (fun s : String => s.toList.head?) h
    simp only [String.toList_append, List.head?_append] at hhead
    have hu : (unknownDialect name).message.toList.head? = some 'u' := by
      unfold message
      simp
    rw [hu, Option.some_or] at hhead
    have hfirst : fault.message.toList.head? = some 'u' := by
      cases hm : fault.message.toList.head? with
      | none =>
        rw [hm] at hhead
        simp at hhead
      | some c => rwa [hm, Option.some_or] at hhead
    obtain ⟨other, rfl⟩ := exists_unknownDialect_of_head? hfirst
    have hmessage : "unknown dialect: " ++ other = "unknown dialect: " ++ name :=
      (String.append_left_inj _).mp h
    rw [(String.append_right_inj _).mp hmessage]
  · rintro rfl
    rfl

end CommandFault

/-- Nothing of what a run shows tells two outcomes apart. -/
structure Outcome.LooksLike (o o' : Outcome) : Prop where
  exitCode : o.exitCode = o'.exitCode
  output : o.output = o'.output
  report : o.report? = o'.report?

namespace Outcome

variable {o o' : Outcome}

theorem LooksLike.refl (o : Outcome) : o.LooksLike o :=
  ⟨rfl, rfl, rfl⟩

theorem LooksLike.symm (h : o.LooksLike o') : o'.LooksLike o :=
  ⟨h.exitCode.symm, h.output.symm, h.report.symm⟩

theorem LooksLike.eq_unknownDialect {name : String}
    (h : o.LooksLike (.failure "" (.unknownDialect name))) :
    o = .failure "" (.unknownDialect name) := by
  cases o with
  | failure output fault =>
    obtain rfl : output = "" := h.output
    have hreport : fault.report = (CommandFault.unknownDialect name).report :=
      Option.some.inj h.report
    rw [CommandFault.report_eq_unknownDialect_iff.mp hreport]
  | success output => cases h.exitCode
  | usage => cases h.report
  | crash => cases h.report

end Outcome

variable {arguments : List String} {file : String} {d : Dialect} {grants ifNotExists : Bool}
  {files files' : Files} {env env' : Environment}

/-- How a run with a dialect of its own ends, by what it sees of the environment. -/
def overriddenOutcome (files : Files) (file : String) (d : Dialect) (grants ifNotExists : Bool) :
    Option String → Option (Option String) → Outcome
  | some name, _ => .failure "" (.unknownDialect name)
  | none, none => .crash
  | none, some told => writeFile files file ⟨d, told == some "true" || ifNotExists⟩ grants

theorem overriddenOutcome_eq_iff {unknown? : Option String} {told? : Option (Option String)}
    {name : String} :
    overriddenOutcome files file d grants ifNotExists unknown? told? =
      .failure "" (.unknownDialect name) ↔
      unknown? = some name := by
  cases unknown? with
  | some other => simp [overriddenOutcome]
  | none =>
    cases told? with
    | none => simp [overriddenOutcome]
    | some told =>
      simpa [overriddenOutcome] using writeFile_ne_unknownDialect files file _ grants name

/-- With a dialect of its own a run depends on the environment in two points. -/
theorem run_overridden
    (hargs : Command.ofArguments? arguments = some (.ddl file (some d) grants ifNotExists)) :
    runArguments arguments files env =
      overriddenOutcome files file d grants ifNotExists (unknownDialect? files env)
        (toldIfNotExists? files env) := by
  have hargs' : Command.ofArguments? arguments =
      some (DdlRequest.mk file (some d) grants ifNotExists).command := hargs
  obtain ⟨s, hs⟩ | ⟨outcome, hstop⟩ :=
    (DdlRequest.mk file (some d) grants ifNotExists).configured_or_stops files env
  · rw [hs.run_eq hargs']
    obtain ⟨seen, hseen, hdialect, hflag⟩ := hs
    have hknown : unknownDialect? files env = none := by
      rw [unknownDialect?, hseen, Option.bind_some]
      cases hname : seen.value? "DBS_DIALECT" with
      | none => rfl
      | some name =>
        rw [hname, Option.elim_some] at hdialect
        simp [hdialect]
    have htold : s.ifNotExists = (seen.value? "DBS_IF_NOT_EXISTS" == some "true") := by
      rw [Bool.eq_iff_iff, beq_iff_eq, hflag]
    rw [hknown, toldIfNotExists?, hseen, Option.map_some, overriddenOutcome,
      Settings.override, htold]
    rfl
  · rw [hstop.run_eq hargs']
    cases hstop with
    | environment h =>
      rw [unknownDialect?, toldIfNotExists?, h]
      rfl
    | @dialect seen name hseen hname hunknown =>
      have hshown : unknownDialect? files env = some name := by
        rw [unknownDialect?, hseen, Option.bind_some, hname]
        simp [hunknown]
      rw [hshown, overriddenOutcome]

theorem run_eq_unknownDialect_iff
    (hargs : Command.ofArguments? arguments = some (.ddl file (some d) grants ifNotExists))
    {name : String} :
    runArguments arguments files env = .failure "" (.unknownDialect name) ↔
      unknownDialect? files env = some name := by
  rw [run_overridden hargs, overriddenOutcome_eq_iff]

theorem overriddenOutcome_congr (hfile : files file = files' file) :
    overriddenOutcome files file d grants ifNotExists =
      overriddenOutcome files' file d grants ifNotExists := by
  have hwrite (s : Settings) : writeFile files file s grants = writeFile files' file s grants := by
    simp only [writeFile, loadFile, readText, hfile]
  funext unknown? told?
  cases unknown? with
  | some name => rfl
  | none =>
    cases told? with
    | none => rfl
    | some told => exact hwrite _

theorem toldIfNotExists?_eq_of_differIn (henv : env.AgreesBut "DBS_DIALECT" env')
    (hlines : DifferIn "DBS_DIALECT" (environmentLines files) (environmentLines files'))
    (hseen : (withEnvironmentFile? files env).isSome)
    (hseen' : (withEnvironmentFile? files' env').isSome) :
    toldIfNotExists? files env = toldIfNotExists? files' env' := by
  obtain ⟨seen, hseen⟩ := Option.isSome_iff_exists.mp hseen
  obtain ⟨seen', hseen'⟩ := Option.isSome_iff_exists.mp hseen'
  rw [toldIfNotExists?, toldIfNotExists?, hseen, hseen', Option.map_some, Option.map_some]
  rw [withEnvironmentFile?_eq] at hseen hseen'
  have hagree := henv.addLines? (by decide) hlines hseen hseen'
  rw [hagree "DBS_IF_NOT_EXISTS" (Environment.not_concerns_of_ne (by decide) (by decide))]

/-- A run with a dialect of its own reports an unknown dialect of the environment, and of its
dialect shows nothing else. Two runs on one file that are told the same of tables that exist look
alike exactly if neither sees an unknown dialect or both see the same. They are told the same where
only the dialect differs, in the environment or in assignments of the file `.env`, and both
environments are complete. -/
theorem overridden_dialect_shows_iff (arguments : List String) (file : String) (d : Dialect)
    (grants ifNotExists : Bool)
    (hargs : Command.ofArguments? arguments = some (.ddl file (some d) grants ifNotExists))
    (files files' : Files) (env env' : Environment) (hfile : files file = files' file) :
    (∀ name, runArguments arguments files env = .failure "" (.unknownDialect name) ↔
        unknownDialect? files env = some name) ∧
      (toldIfNotExists? files env = toldIfNotExists? files' env' →
        ((runArguments arguments files env).LooksLike (runArguments arguments files' env') ↔
          unknownDialect? files env = unknownDialect? files' env')) ∧
      (env.AgreesBut "DBS_DIALECT" env' →
        DifferIn "DBS_DIALECT" (environmentLines files) (environmentLines files') →
        (withEnvironmentFile? files env).isSome → (withEnvironmentFile? files' env').isSome →
        toldIfNotExists? files env = toldIfNotExists? files' env') := by
  refine ⟨fun name => run_eq_unknownDialect_iff hargs,
    fun htold => ⟨fun halike => ?_, fun hunknown => ?_⟩, toldIfNotExists?_eq_of_differIn⟩
  · refine Option.ext fun name => ?_
    rw [← run_eq_unknownDialect_iff hargs, ← run_eq_unknownDialect_iff hargs]
    constructor
    · intro hrun
      rw [hrun] at halike
      exact halike.symm.eq_unknownDialect
    · intro hrun
      rw [hrun] at halike
      exact halike.eq_unknownDialect
  · rw [run_overridden hargs, run_overridden hargs, hunknown, htold, overriddenOutcome_congr hfile]
    exact .refl _

def noteFilesNaming : Files := fun path =>
  if path = ".env" then .ok "DBS_DIALECT=pg\nDBS_IF_NOT_EXISTS=true\n".toUTF8 else noteFiles path

/-- The same with no dialect. -/
def noteFilesTelling : Files := fun path =>
  if path = ".env" then .ok "DBS_IF_NOT_EXISTS=true\n".toUTF8 else noteFiles path

theorem differIn_noteFiles :
    DifferIn "DBS_DIALECT" (environmentLines noteFilesNaming)
      (environmentLines noteFilesTelling) := by
  have hnaming : environmentLines noteFilesNaming =
      [some "DBS_DIALECT=pg\n".toList, some "DBS_IF_NOT_EXISTS=true\n".toList] := by decide +kernel
  have htelling : environmentLines noteFilesTelling = [some "DBS_IF_NOT_EXISTS=true\n".toList] := by
    decide +kernel
  have hassigns : AlwaysAssigns "DBS_DIALECT" "DBS_DIALECT=pg\n".toList := fun env => ⟨"pg", by rfl⟩
  have homits : OmitsInValue "DBS_DIALECT" "DBS_IF_NOT_EXISTS=true\n".toList := by
    have hassign : readAssignment? (Text.trimChars "DBS_IF_NOT_EXISTS=true\n".toList) =
        some ("DBS_IF_NOT_EXISTS", "true".toList) := by decide
    intro key rest h
    cases hassign.symm.trans h
    decide
  rw [hnaming, htelling]
  exact .first hassigns (.both homits .nil)

theorem overridden_dialect_shows_iff_note :
    Command.ofArguments? ["ddl", "note.xml", "--dialect", "mysql"] =
      some (.ddl "note.xml" (some .mysql) false false) ∧
      noteFilesNaming "note.xml" = noteFilesTelling "note.xml" ∧
      (runArguments ["ddl", "note.xml", "--dialect", "mysql"] noteFilesNaming []).LooksLike
        (runArguments ["ddl", "note.xml", "--dialect", "mysql"] noteFilesTelling
          ["DBS_DIALECT=sqlite"]) := by
  have hargs : Command.ofArguments? ["ddl", "note.xml", "--dialect", "mysql"] =
      some (.ddl "note.xml" (some .mysql) false false) := by decide +kernel
  have henv : Environment.AgreesBut "DBS_DIALECT" [] ["DBS_DIALECT=sqlite"] := by
    have hadd : Environment.add? [] "DBS_DIALECT" "sqlite" = some ["DBS_DIALECT=sqlite"] := by
      decide
    exact (Environment.agreesBut_of_add? (by decide) hadd).symm
  have hunknown : unknownDialect? noteFilesNaming [] =
      unknownDialect? noteFilesTelling ["DBS_DIALECT=sqlite"] := by
    decide +kernel
  obtain ⟨-, hends, htold⟩ :=
    overridden_dialect_shows_iff _ "note.xml" .mysql false false hargs noteFilesNaming
      noteFilesTelling [] ["DBS_DIALECT=sqlite"] rfl
  have htold := htold henv differIn_noteFiles (by decide +kernel) (by decide +kernel)
  exact ⟨hargs, rfl, (hends htold).mpr hunknown⟩

/-- A dialect of the command does not take the place of an unknown one. -/
theorem unknownDialect_is_not_overridden :
    Command.ofArguments? ["ddl", "note.xml", "--dialect", "mysql"] =
      some (.ddl "note.xml" (some .mysql) false false) ∧
      runArguments ["ddl", "note.xml", "--dialect", "mysql"] noteFiles [] =
        .success "CREATE TABLE `note` ( `n` int );\n" ∧
      runArguments ["ddl", "note.xml", "--dialect", "mysql"] noteFiles ["DBS_DIALECT=oracle"] =
        .failure "" (.unknownDialect "oracle") := by
  decide +kernel

end SchemaDoc
