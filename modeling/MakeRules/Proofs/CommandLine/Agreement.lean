import MakeRules.Proofs.CommandLine.Effects
import MakeRules.Proofs.CommandLine.Goal
import MakeRules.Proofs.Translation.Messages

/-! The reports of a run that has succeeded agree with each other, and with its log.

A run is told of three times: by the lines that are printed, by the summary, and by its entry in
the ledger. All of them are drawn from one translation, and so is the makefile. Of that only the
text is left behind, from which the rules can be told unless one of them holds a line feed.
-/

set_option autoImplicit false

namespace MakeRules

open Json

/-- An error or a warning: there is nothing else. -/
theorem Diagnostic.count_error_add_count_warning (diagnostics : List Diagnostic) :
    count .error diagnostics + count .warning diagnostics = diagnostics.length := by
  have others : ∀ diagnostic : Diagnostic,
      (diagnostic.severity == .warning) = decide ¬(diagnostic.severity == .error) = true := by
    intro diagnostic
    cases diagnostic.severity <;> rfl
  simp only [count, others]
  exact (List.length_eq_countP_add_countP _).symm

namespace CommandLine

/-- What the summary says of a translation. -/
theorem exists_members_of_summary (report : RunReport) :
    ∃ members, Report.summary report = .obj members ∧
      member? "rule_count".toList members = some (.nat report.translation.rules.length) ∧
      member? "linked_products".toList members = some (.arr
        (report.translation.linkedProducts.map fun target => .str (Escape.ofMakeTarget target))) ∧
      member? "diagnostic_count".toList members =
        some (.nat report.translation.diagnostics.length) :=
  ⟨_, rfl, rfl, rfl, rfl⟩

/-- The log of a run, and what is told of it. -/
structure Accounts where
  log : Text
  options : TranslationOptions
  entry : Ledger.Entry
  summary : List (Text × Json)

def Accounts.makefile (accounts : Accounts) (machine : Machine) : Makefile :=
  (Translation.ofText machine.view accounts.options accounts.log).makefile

/-- What the links of the log make. -/
def Accounts.products (accounts : Accounts) (machine : Machine) : List Text :=
  (Log.ofText accounts.log).products machine.view

/-- The accounts of a run are those that are found behind it, and they agree. The blocks in the text
of the makefile are as many as its rules if each rule is on its lines, and an error is on one line
if the paths and reasons that it can name are. -/
structure Accounts.Agree (accounts : Accounts) (request : RunRequest) (ledger : Text)
    (machine : Machine) (report : Report) (after : Machine) : Prop where
  log : machine.disk.read request.logPath = .ok accounts.log
  makefile : after.disk.read request.outputPath = .ok (accounts.makefile machine).render
  entry : accounts.entry.Extends machine.disk after.disk ledger
  counts : member? "counts".toList accounts.entry.members = some accounts.entry.counts.toJson
  summary : ∃ line, report.output = [line] ∧ parse? line = some (.obj accounts.summary)
  diagnostic_count :
    member? "diagnostic_count".toList accounts.summary = some (.nat report.errors.length)
  diagnostics : report.errors.length = accounts.entry.counts.errors + accounts.entry.counts.warnings
  rule_count :
    member? "rule_count".toList accounts.summary = some (.nat accounts.entry.counts.rules)
  rules : accounts.entry.counts.rules = (accounts.makefile machine).rules.length
  blocks : (∀ rule ∈ (accounts.makefile machine).rules, rule.IsOnLines) →
    (Makefile.readBlocks (accounts.makefile machine).render).length = accounts.entry.counts.rules
  linked_products : member? "linked_products".toList accounts.summary =
    some (.arr ((accounts.products machine).map .str))
  products : (accounts.products machine).length = accounts.entry.counts.linkedProducts
  distinct : (accounts.products machine).Nodup
  errors : ∀ line ∈ report.errors,
    ∃ diagnostic ∈ (Translation.ofText machine.view accounts.options accounts.log).diagnostics,
      line = diagnostic.format ∧
        ('\n' ∉ line ↔ '\n' ∉ request.logPath ∧ '\n' ∉ diagnostic.message)
  oneLine : '\n' ∉ request.logPath →
    (∀ path ∈ (Log.ofText accounts.log).filesRead machine.directory, machine.view.OnLine path) →
      ∀ line ∈ report.errors, '\n' ∉ line

variable {words : List Text} {machine after : Machine}

theorem accounts_of_ends {request : RunRequest} {answer : Except RunFault RunReport}
    {report : Report} (asks : Asks words machine request) (ends : request.Ends machine answer after)
    (answers : answered answer = .ok report) (exitCode : report.exitCode = 0) {ledger : Text}
    (shared : request.ledgerInEffect = some ledger) (apart : ledger ≠ request.outputPath) :
    ∃ accounts : Accounts, accounts.Agree request ledger machine report after := by
  cases ends with
  | untimed | unentered => cases answers
  | refused | failed =>
    cases answers
    cases exitCode
  | @done start translation completedAt starts translates completes writable =>
    cases answers
    obtain ⟨log, options, target, file, reads, rfl⟩ :=
      Machine.exists_of_translate_eq_ok (RunRequest.outcome_eq_ok_iff.1 translates).1
    have accepted : Config.requireTargetName options.aggregateTarget = .ok start.target := by
      obtain ⟨_, _, _, settles, rfl⟩ := RunRequest.starting_eq_ok_iff.1 starts
      exact Config.requireTargetName_eq_ok_iff.2 ⟨target.symm, target ▸ asks.accepts_target settles⟩
    have shown := Translation.rules_makefile_ofText machine.view options log
    have stamped : (Ledger.Entry.success (request.stamp start) completedAt
        (.ofText machine.view options log)).IsStamped := ⟨request, start, rfl⟩
    have differ : request.ledgerInEffect ≠ some request.outputPath := by
      rw [shared]
      exact fun same => apart (Option.some.inj same)
    obtain ⟨output, entered⟩ := leaves_of_written differ machine start completedAt
      (.ofText machine.view options log)
    have made := Translation.linkedProducts_ofText machine.view options log
    let entry : Ledger.Entry :=
      .success (request.stamp start) completedAt (.ofText machine.view options log)
    obtain ⟨members, summary, rule_count, linked_products, diagnostic_count⟩ :=
      exists_members_of_summary
        ⟨start.runId, request.outputPath, .ofText machine.view options log⟩
    refine ⟨⟨log, options, entry, members⟩, ?_⟩
    exact {
      log := reads
      makefile := output
      entry := entered ledger shared
      counts := Ledger.Entry.member?_counts stamped
      summary := ⟨_, rfl, by rw [parse?_print (regular_summary _), summary]⟩
      diagnostic_count := by rw [diagnostic_count, Report.success, List.length_map]
      diagnostics := by
        rw [Report.success, List.length_map]
        exact (Diagnostic.count_error_add_count_warning _).symm
      rule_count := rule_count
      rules := congrArg List.length shown.symm
      blocks := by
        intro onLines
        rw [Accounts.makefile, Makefile.readBlocks_render
          (Translation.lf_not_mem_aggregateLines accepted) onLines, List.length_map, shown]
        rfl
      linked_products := by
        rw [linked_products, made, List.map_map]
        simp only [Function.comp_def, Escape.ofMakeTarget_makeTarget]
        rfl
      products := by
        have lengths := congrArg List.length made
        rw [List.length_map] at lengths
        exact lengths.symm
      distinct := Log.nodup_products _ _
      errors := by
        intro line member
        obtain ⟨diagnostic, among, rfl⟩ := List.mem_map.1 member
        exact ⟨diagnostic, among, rfl,
          file ▸ Translation.lf_not_mem_format_iff_of_mem_diagnostics among⟩
      oneLine := by
        intro logPath told line member
        obtain ⟨diagnostic, among, rfl⟩ := List.mem_map.1 member
        have message := Translation.lf_not_mem_message_of_mem_diagnostics among told
        exact (Translation.lf_not_mem_format_iff_of_mem_diagnostics among).2
          ⟨file ▸ logPath, message⟩ }

/-- If the command returns with 0, other than for help, and with a ledger that is not the output,
then it has done the run that is asked for, and what it prints, the summary, the makefile and the
line in the ledger agree. -/
theorem command_accounts_agree {report : Report}
    (succeeds : Succeeds (command words) machine report after) (exitCode : report.exitCode = 0)
    (unasked : ¬AsksHelp words) :
    ∃ request, Asks words machine request ∧
      ∀ ledger, request.ledgerInEffect = some ledger → ledger ≠ request.outputPath →
        ∃ accounts : Accounts, accounts.Agree request ledger machine report after := by
  have ends := ends_of_command succeeds
  generalize answers : (Except.ok report : Except RunFault Report) = answer at ends
  cases ends with
  | helps help => exact absurd help unasked
  | refuses refusal =>
    cases answers
    cases refusal.exitCode.symm.trans exitCode
  | @runs request _ _ asks ends =>
    exact ⟨request, asks, fun ledger shared apart =>
      accounts_of_ends asks ends answers.symm exitCode shared apart⟩

/-- A product is linked twice, behind a step without a command. -/
theorem command_accounts_agree_of_links :
    let log := ("CompileC b.o b.c\nLd /d/main normal\ncd /d\nclang -filelist list -o main\n" ++
      "Ld /d/main normal\ncd /d\nclang -o main\n").toList
    let disk : Disk := fun path =>
      if path = "log".toList then some { text := log }
      else if path = "/d/list".toList then some { text := "a.o\n".toList } else none
    let machine : Machine := { directory := "/".toList, disk }
    let words := ["--log", "log", "--out", "out", "--ledger", "ledger"].map String.toList
    ∃ report after, Succeeds (command words) machine report after ∧ report.errors.length = 2 ∧
      ∃ request, Asks words machine request ∧ ∃ accounts : Accounts,
        accounts.Agree request "ledger".toList machine report after ∧
        (Makefile.readBlocks (accounts.makefile machine).render).length =
          accounts.entry.counts.rules ∧
        ∀ line ∈ report.errors, '\n' ∉ line := by
  intro log disk machine words
  have exits : ((command (m := StateM Machine) words).run.run machine).1.toOption.map
      (fun report => (report.exitCode, report.errors.length)) = some (0, 2) := by decide +kernel
  have read : (Arguments.ofWords words).toOption.map (fun arguments =>
      (arguments.help, arguments.value? .log, arguments.value? .out, arguments.value? .ledger)) =
        some (false, some "log".toList, some "out".toList, some "ledger".toList) := by
    decide +kernel
  rcases ran : (command (m := StateM Machine) words).run.run machine with ⟨answer, after⟩
  rw [ran] at exits
  cases answer with
  | error fault => cases exits
  | ok report =>
    obtain ⟨exitCode, errors⟩ := Prod.mk.inj (Option.some.inj exits)
    have unasked : ¬AsksHelp words := by
      rintro ⟨arguments, parses, help⟩
      rw [parses] at read
      cases help.symm.trans (Prod.mk.inj (Option.some.inj read)).1
    obtain ⟨request, asks, agree⟩ := command_accounts_agree ran exitCode unasked
    refine ⟨report, after, ran, errors, request, asks, ?_⟩
    obtain ⟨parses, _, logs, outputs, _⟩ := asks
    rw [parses] at read
    obtain ⟨_, files⟩ := Prod.mk.inj (Option.some.inj read)
    obtain ⟨logPath, files⟩ := Prod.mk.inj files
    obtain ⟨output, ledger⟩ := Prod.mk.inj files
    obtain rfl := Option.some.inj (outputs.symm.trans output)
    obtain rfl := Option.some.inj (logs.symm.trans logPath)
    obtain ⟨accounts, agree⟩ := agree "ledger".toList
      (by simp only [RunRequest.ledgerInEffect, CommandLine.request, ledger]; rfl)
      (ne_of_beq_false rfl)
    have same : accounts.log = log := (Except.ok.inj agree.log).symm
    refine ⟨accounts, agree, agree.blocks (Translation.forall_rules_isOnLines_iff.2 ?_),
      agree.oneLine ?_ ?_⟩
    · intro dispatch dispatched site invocation path outcome
      have kinds : ∀ dispatch ∈ (Log.ofText log).run,
          dispatch.outcome.kind? ≠ some .swiftDriver := by decide +kernel
      rw [same] at dispatched
      exact absurd (by rw [outcome]; rfl) (kinds dispatch dispatched)
    · change '\n' ∉ "log".toList
      decide
    · have files : (Log.ofText log).filesRead machine.directory = ["/d/list".toList] := by
        decide +kernel
      intro path named
      rw [same, files, List.mem_singleton] at named
      subst named
      exact ⟨by decide, fun reason unread => by cases unread⟩

end CommandLine

end MakeRules
