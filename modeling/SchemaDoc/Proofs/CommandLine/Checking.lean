import SchemaDoc.Proofs.CommandLine.Stages
import SchemaDoc.Proofs.Schema.Resolution

/-!
# Checking the references of a file

To check a schema document the program loads it and looks at each foreign key. The check succeeds
exactly if all of them resolve; otherwise it prints a line for each finding, in the order of the
document, and fails with their number (`unresolved_keys_are_reported`).
-/
namespace SchemaDoc

/-- A run that comes to load the model of a file: nothing in `.env` makes it break off, and the file
can be read. -/
structure LoadsFile (files : Files) (env : Environment) (path : String) (db : Database) : Prop where
  environment : ∃ seen, withEnvironmentFile? files env = some seen
  model : IsReadAs files path Database.parse db

theorem fromUTF8?_toUTF8 (text : String) : String.fromUTF8? text.toUTF8 = some text := by
  rw [String.fromUTF8?]
  exact dif_pos text.isValidUTF8

namespace CommandFault

theorem report_of_causes_eq_nil {fault : CommandFault} (h : fault.causes = []) :
    fault.report = "Error: " ++ fault.message ++ "\n" := by
  have hnone : causeText [] = "" := rfl
  rw [report, h, hnone, String.append_empty]

theorem report_danglingReferences (count : Nat) :
    (danglingReferences count).report =
      "Error: " ++ (toString count ++ " dangling foreign key reference(s)") ++ "\n" :=
  report_of_causes_eq_nil rfl

end CommandFault

section

variable {arguments : List String} {files : Files} {env : Environment} {path : String}
    {db : Database}

theorem LoadsFile.run_check (h : LoadsFile files env path db)
    (hargs : Command.ofArguments? arguments = some (.check path)) :
    runArguments arguments files env = checkReferences path db := by
  obtain ⟨⟨seen, hseen⟩, hmodel⟩ := h
  simp only [runArguments, hseen, hargs, Command.run, loadFile_of_model hmodel]

theorem danglingReferences_eq_nil_iff :
    db.danglingReferences = [] ↔ ∀ p ∈ db.keyColumns, p.2.ResolvesIn db := by
  have hlength := db.forall₂_danglingReferences.length_eq
  rw [← Database.unresolvedKeys_eq_nil_iff, ← List.length_eq_zero_iff,
    ← List.length_eq_zero_iff, hlength]

theorem exitCode_checkReferences (path : String) :
    (checkReferences path db).exitCode = if db.danglingReferences = [] then 0 else 1 := by
  rw [checkReferences]
  cases db.danglingReferences <;> rfl

theorem checkReferences_of_dangling (path : String) (h : db.danglingReferences ≠ []) :
    checkReferences path db =
      .failure (String.join (db.danglingReferences.map fun f => "- " ++ f.message ++ "\n"))
        (.danglingReferences db.danglingReferences.length) := by
  rw [checkReferences]
  cases hfindings : db.danglingReferences with
  | nil => exact absurd hfindings h
  | cons f findings => rfl

end

/-- For each foreign key that does not resolve there is one finding, which says why it does not. A
check of a file that is loaded succeeds exactly if all foreign keys resolve, and otherwise prints a
line for each finding and reports how many there are. -/
theorem unresolved_keys_are_reported (db : Database) :
    List.Forall₂ (fun p f => ∀ g, db.Finds p.1 p.2 g ↔ g = f) db.unresolvedKeys
      db.danglingReferences ∧
      ∀ arguments files env path, Command.ofArguments? arguments = some (.check path) →
        LoadsFile files env path db →
        ((runArguments arguments files env).exitCode = 0 ↔ ∀ p ∈ db.keyColumns, p.2.ResolvesIn db) ∧
        ((∃ p ∈ db.keyColumns, ¬ p.2.ResolvesIn db) →
          (runArguments arguments files env).exitCode = 1 ∧
          (runArguments arguments files env).output =
            String.join (db.danglingReferences.map fun f => "- " ++ f.message ++ "\n") ∧
          (runArguments arguments files env).report? =
            some ("Error: " ++ (toString db.unresolvedKeys.length ++
              " dangling foreign key reference(s)") ++ "\n")) := by
  refine ⟨db.forall₂_danglingReferences, ?_⟩
  intro arguments files env path hargs hload
  rw [hload.run_check hargs]
  constructor
  · rw [exitCode_checkReferences, ← danglingReferences_eq_nil_iff]
    split_ifs with h <;> simp [h]
  · rintro ⟨p, hp, hunresolved⟩
    have hdangling : db.danglingReferences ≠ [] :=
      fun h => hunresolved (danglingReferences_eq_nil_iff.mp h p hp)
    rw [checkReferences_of_dangling path hdangling, db.forall₂_danglingReferences.length_eq]
    refine ⟨rfl, rfl, ?_⟩
    rw [Outcome.report?, CommandFault.report_danglingReferences]

/-- A document with two tables of one name, of which the first alone has the column that is pointed
at. -/
def ledgerText : String :=
  "<d><table name=\"t\"><column name=\"a\" type=\"int\"/></table>" ++
    "<table name=\"t\"><column name=\"b\" type=\"int\" key=\"foreign\">" ++
    "<fkey_table>t</fkey_table><fkey_column>a</fkey_column></column>" ++
    "<column name=\"c\" type=\"int\" key=\"foreign\"/></table></d>"

def ledgerDatabase : Database where
  tables := [
    ⟨"t", [⟨"a", "int", 0, .none, false⟩], []⟩,
    ⟨"t", [
      ⟨"b", "int", 0, .foreign ⟨some "t", some "a", none⟩, false⟩,
      ⟨"c", "int", 0, .foreign ⟨none, none, none⟩, false⟩], []⟩]

def ledgerFiles : Files := fun path =>
  if path = "ledger.xml" then .ok ledgerText.toUTF8 else .error .missing

theorem unresolved_keys_are_reported_ledger :
    Command.ofArguments? ["check", "ledger.xml"] = some (.check "ledger.xml") ∧
      LoadsFile ledgerFiles [] "ledger.xml" ledgerDatabase ∧
      (runArguments ["check", "ledger.xml"] ledgerFiles []).exitCode = 1 ∧
      (runArguments ["check", "ledger.xml"] ledgerFiles []).output =
        "- t.b: references unknown column 't.a'\n" ++
          "- t.c: foreign key is missing fkey_table or fkey_column\n" ∧
      (runArguments ["check", "ledger.xml"] ledgerFiles []).report? =
        some "Error: 2 dangling foreign key reference(s)\n" := by
  have hargs : Command.ofArguments? ["check", "ledger.xml"] = some (.check "ledger.xml") := by
    decide +kernel
  have hload : LoadsFile ledgerFiles [] "ledger.xml" ledgerDatabase :=
    ⟨⟨[], rfl⟩, ledgerText, ⟨ledgerText.toUTF8, rfl, fromUTF8?_toUTF8 ledgerText⟩,
      by decide +kernel⟩
  have hunresolved : ∃ p ∈ ledgerDatabase.keyColumns, ¬ p.2.ResolvesIn ledgerDatabase := by decide
  obtain ⟨-, hchecked⟩ := unresolved_keys_are_reported ledgerDatabase
  obtain ⟨hcode, houtput, hreport⟩ := (hchecked _ _ _ _ hargs hload).2 hunresolved
  refine ⟨hargs, hload, hcode, ?_, ?_⟩
  · rw [houtput]
    decide +kernel
  · rw [hreport]
    decide +kernel

end SchemaDoc
