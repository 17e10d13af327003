import Silly.CommandLine
import Silly.Proofs.Integer.Numeral
import Silly.Proofs.Machine.Limit
import Silly.Proofs.Machine.Safety

/-!
# The command line of a run

The arguments of `run` are told apart by their first character. One that starts with a minus sign has to
give a depth (`DepthFlag`), and the others are paths. A single one that starts so and gives no depth
decides the whole command, wherever it stands (`Command.ofRunArgs_of_refused`). If there is none, the first
path is run with the depth that was given last (`Command.ofRunArgs_of_accepted`). Both are by induction on
the arguments, for any path and options that were read before.

What such a command is answered is then a matter of the run alone. A run prints the same lines into every
printer (`runSource_printers`), so the text that goes out is the one that a printer holds for which nothing
was written out.
-/

namespace Silly

/-! ### Flags -/

/-- **A flag that gives a depth**: it ends in a row of decimal digits, perhaps with a plus sign before it,
and the number that they write is one of 64 bits. -/
inductive DepthFlag : String → ℕ → Prop
  | mk {plus : String} {ds : List ℕ} : plus = "" ∨ plus = "+" → ds ≠ [] → (∀ d ∈ ds, d < 10) →
      Nat.ofDigits 10 ds < 2 ^ 64 →
      DepthFlag ("--max-depth=" ++ plus ++ String.ofList (Numeral.digitChars ds))
        (Nat.ofDigits 10 ds)

namespace Options

variable {cs : List Char} {n : ℕ} {o o' : Options} {flag : String}

/-- **A row of digits** that is read. -/
theorem readDigits?_eq_some_iff : readDigits? cs = some n ↔
    ∃ ds : List ℕ, ds ≠ [] ∧ (∀ d ∈ ds, d < 10) ∧ Nat.ofDigits 10 ds < 2 ^ 64 ∧
      cs = Numeral.digitChars ds ∧ n = Nat.ofDigits 10 ds := by
  have hread : readDigits? cs =
      if cs ≠ [] ∧ cs.all (·.isDigit) = true ∧ Numeral.magnitude cs < 2 ^ 64 then
        some (Numeral.magnitude cs) else none := rfl
  rw [hread]
  constructor
  · intro h
    -- The three conditions of reading are those of a row of digits whose number is small enough.
    obtain ⟨⟨hcs, hdigits, hlt⟩, hn⟩ := Option.ite_none_right_eq_some.mp h
    obtain ⟨ds, hds, hten, rfl⟩ := Numeral.exists_digits hcs (List.all_eq_true.mp hdigits)
    rw [Numeral.magnitude_digitChars hten] at hlt hn
    exact ⟨ds, hds, hten, hlt, rfl, (Option.some.inj hn).symm⟩
  · rintro ⟨ds, hds, hten, hlt, rfl, rfl⟩
    rw [Numeral.magnitude_digitChars hten, if_pos]
    exact ⟨Numeral.digitChars_ne_nil hds,
      List.all_eq_true.mpr (Numeral.isDigit_of_mem_digitChars hten), hlt⟩

/-- **A limit** that is read. -/
theorem readLimit?_eq_some_iff : readLimit? cs = some n ↔
    ∃ ds : List ℕ, ds ≠ [] ∧ (∀ d ∈ ds, d < 10) ∧ Nat.ofDigits 10 ds < 2 ^ 64 ∧
      (cs = Numeral.digitChars ds ∨ cs = '+' :: Numeral.digitChars ds) ∧ n = Nat.ofDigits 10 ds := by
  constructor
  · intro h
    unfold readLimit? at h
    -- The sign is taken off first if there is one. What is left has to be a row of digits.
    split at h
    · obtain ⟨ds, hds, hten, hlt, rfl, hn⟩ := readDigits?_eq_some_iff.mp h
      exact ⟨ds, hds, hten, hlt, .inr rfl, hn⟩
    · obtain ⟨ds, hds, hten, hlt, hcs, hn⟩ := readDigits?_eq_some_iff.mp h
      exact ⟨ds, hds, hten, hlt, .inl hcs, hn⟩
  · rintro ⟨ds, hds, hten, hlt, rfl | rfl, hn⟩
    · have hread := readDigits?_eq_some_iff.mpr ⟨ds, hds, hten, hlt, rfl, hn⟩
      unfold readLimit?
      split
      · next cs hplus =>
        -- A digit is no plus sign.
        have hdigit : '+'.isDigit = true :=
          Numeral.isDigit_of_mem_digitChars hten '+' (hplus ▸ List.mem_cons_self)
        exact absurd hdigit (by decide)
      · exact hread
    · exact readDigits?_eq_some_iff.mpr ⟨ds, hds, hten, hlt, rfl, hn⟩

theorem toList_flag (plus : String) (cs : List Char) :
    ("--max-depth=" ++ plus ++ String.ofList cs).toList = limitFlag ++ (plus.toList ++ cs) := by
  have hcs : (String.ofList cs).toList = cs := String.toList_ofList
  rw [String.toList_append, String.toList_append, hcs, List.append_assoc]
  rfl

/-- **The flags that are applied are those that give a depth.** -/
theorem withFlag?_eq_some_iff : o.withFlag? flag = some o' ↔ ∃ n, DepthFlag flag n ∧ o' = ⟨n⟩ := by
  constructor
  · intro h
    obtain ⟨htake, hread⟩ := Option.ite_none_right_eq_some.mp h
    obtain ⟨n, hn, rfl⟩ := Option.map_eq_some_iff.mp hread
    obtain ⟨ds, hds, hten, hlt, hcs, rfl⟩ := readLimit?_eq_some_iff.mp hn
    -- The flag is the fixed word and the rest, and the rest is what was read as a limit.
    have hflag : flag.toList = limitFlag ++ flag.toList.drop limitFlag.length := by
      conv_lhs => rw [← List.take_append_drop limitFlag.length flag.toList, htake]
    -- Texts are the same if their characters are.
    have hplus (plus : String) (hplus : plus = "" ∨ plus = "+")
        (hrest : flag.toList.drop limitFlag.length = plus.toList ++ Numeral.digitChars ds) :
        DepthFlag flag (Nat.ofDigits 10 ds) := by
      have hsame : flag = "--max-depth=" ++ plus ++ String.ofList (Numeral.digitChars ds) := by
        rw [← String.toList_inj, toList_flag, hflag, hrest]
      rw [hsame]
      exact .mk hplus hds hten hlt
    refine ⟨_, ?_, rfl⟩
    obtain hcs | hcs := hcs
    · exact hplus "" (.inl rfl) hcs
    · exact hplus "+" (.inr rfl) hcs
  -- Conversely the fixed word is found at the beginning, and what comes after it is a limit.
  · rintro ⟨_, @⟨plus, ds, hplus, hds, hten, hlt⟩, rfl⟩
    have hlimit : readLimit? (plus.toList ++ Numeral.digitChars ds) = some (Nat.ofDigits 10 ds) := by
      refine readLimit?_eq_some_iff.mpr ⟨ds, hds, hten, hlt, ?_, rfl⟩
      obtain rfl | rfl := hplus
      · exact .inl rfl
      · exact .inr rfl
    unfold withFlag?
    rw [toList_flag]
    dsimp only
    rw [List.take_left, if_pos rfl, List.drop_left, hlimit]
    rfl

end Options

/-- A flag gives one depth, since applying it to the default gives one limit. -/
theorem DepthFlag.unique {flag : String} {n n' : ℕ} (h : DepthFlag flag n) (h' : DepthFlag flag n') :
    n = n' := by
  have hn : Options.default.withFlag? flag = some ⟨n⟩ :=
    Options.withFlag?_eq_some_iff.mpr ⟨n, h, rfl⟩
  have hn' : Options.default.withFlag? flag = some ⟨n'⟩ :=
    Options.withFlag?_eq_some_iff.mpr ⟨n', h', rfl⟩
  exact congrArg Options.maxCalls (Option.some.inj (hn.symm.trans hn'))

/-! ### The arguments of a run -/

/-- Whether an argument is an option. -/
def isOption (arg : String) : Bool := arg.toList.head? = some '-'

/-- **An option that gives no depth.** -/
def IsRefused (arg : String) : Prop := isOption arg = true ∧ ∀ n, ¬ DepthFlag arg n

/-- **The depth that was given last**, or `none` was given and it is the default. -/
def LastDepth (default : ℕ) (args : List String) (n : ℕ) : Prop :=
  match (args.filter isOption).getLast? with
  | none => n = default
  | some flag => DepthFlag flag n

namespace Command

variable {args : List String}

/-- **One option that gives no depth** decides the command, wherever it stands. -/
theorem ofRunArgs_of_refused (h : ∃ arg ∈ args, IsRefused arg) (path : Option String) (o : Options) :
    ∃ arg ∈ args, IsRefused arg ∧ ofRunArgs path o args = .misuse (.unknownOption arg) := by
  -- By induction on the arguments. The path and the options that were read before are general.
  induction args generalizing path o with
  | nil =>
    obtain ⟨arg, harg, -⟩ := h
    exact absurd harg List.not_mem_nil
  | cons arg args ih =>
    rw [ofRunArgs]
    by_cases hoption : arg.toList.head? = some '-'
    -- An option that gives no depth is the answer. One that gives a depth is not the refused one.
    · rw [if_pos hoption]
      cases hflag : o.withFlag? arg with
      | none =>
        refine ⟨arg, List.mem_cons_self, ⟨decide_eq_true hoption, fun n hn => ?_⟩, rfl⟩
        cases hflag.symm.trans (Options.withFlag?_eq_some_iff.mpr ⟨n, hn, rfl⟩)
      | some o' =>
        obtain ⟨n, hn, rfl⟩ := Options.withFlag?_eq_some_iff.mp hflag
        obtain ⟨refused, hmem, hrefused⟩ := h
        obtain rfl | hmem := List.mem_cons.mp hmem
        · exact absurd hn (hrefused.2 n)
        · obtain ⟨first, hfirst, hmisuse⟩ := ih ⟨refused, hmem, hrefused⟩ path ⟨n⟩
          exact ⟨first, List.mem_cons_of_mem _ hfirst, hmisuse⟩
    -- A path is never refused, so the refused argument comes later.
    · rw [if_neg hoption]
      obtain ⟨refused, hmem, hrefused⟩ := h
      obtain rfl | hmem := List.mem_cons.mp hmem
      · exact absurd (of_decide_eq_true hrefused.1) hoption
      · obtain ⟨first, hfirst, hmisuse⟩ := ih ⟨refused, hmem, hrefused⟩ (path <|> some arg) o
        exact ⟨first, List.mem_cons_of_mem _ hfirst, hmisuse⟩

/-- **If every option gives a depth**, the first path is run with the last depth. -/
theorem ofRunArgs_of_accepted (h : ∀ arg ∈ args, ¬ IsRefused arg) (path : Option String) (o : Options)
    {n : ℕ} (hn : LastDepth o.maxCalls args n) :
    ofRunArgs path o args =
      match path <|> args.find? (!isOption ·) with
      | some path => .run path ⟨n⟩
      | none => .misuse .missingRunPath := by
  -- By induction on the arguments, where the depth read so far plays the part of the default.
  induction args generalizing path o with
  | nil =>
    obtain rfl : n = o.maxCalls := hn
    cases path with
    | none => rfl
    | some path => rfl
  | cons arg args ih =>
    obtain ⟨harg, hargs⟩ := List.forall_mem_cons.mp h
    rw [ofRunArgs]
    by_cases hoption : arg.toList.head? = some '-'
    · have hdash : isOption arg = true := decide_eq_true hoption
      obtain ⟨n₁, hn₁⟩ : ∃ n₁, DepthFlag arg n₁ := by
        by_contra hnone
        exact harg ⟨hdash, not_exists.mp hnone⟩
      have hflag : o.withFlag? arg = some ⟨n₁⟩ := Options.withFlag?_eq_some_iff.mpr ⟨n₁, hn₁, rfl⟩
      have hlast : LastDepth n₁ args n := by
        unfold LastDepth at hn ⊢
        rw [List.filter_cons_of_pos hdash, List.getLast?_cons] at hn
        -- Either this is the last one, or a later one counts.
        cases hfilter : (args.filter isOption).getLast? with
        | none =>
          rw [hfilter] at hn
          exact DepthFlag.unique hn hn₁
        | some flag =>
          rw [hfilter] at hn
          exact hn
      rw [if_pos hoption, hflag, List.find?_cons_of_neg (by simpa using hdash)]
      exact ih hargs path ⟨n₁⟩ hlast
    -- A path leaves the depth as it is, and counts only if there was none before it.
    · have hdash : ¬ isOption arg = true := fun h => hoption (of_decide_eq_true h)
      have hlast : LastDepth o.maxCalls args n := by
        unfold LastDepth at hn ⊢
        rwa [List.filter_cons_of_neg hdash] at hn
      rw [if_neg hoption, List.find?_cons_of_pos (by simpa using hdash), ih hargs _ o hlast]
      cases path with
      | none => rfl
      | some path => rfl

/-- **A program file by itself** is run as after `run`. -/
theorem ofArgs_program {name : String} (hname : ".sil".toList <:+ name.toList)
    (hoption : isOption name = false) : ofArgs [name] = ofArgs ["run", name] := by
  have hrun : ofArgs ["run", name] = .run name .default := by
    show ofRunArgs none .default [name] = _
    rw [ofRunArgs, if_neg (of_decide_eq_false hoption)]
    rfl
  have hprogram : isProgramPath name = true := List.isSuffixOf_iff_suffix.mpr hname
  -- The words that are commands do not end so.
  have hne (word : String) (hword : isProgramPath word = false) : name ≠ word := by
    rintro rfl
    cases hprogram.symm.trans hword
  have hhelp : ["help", "--help", "-h"].contains name = false := by
    simp [hne "help" rfl, hne "--help" rfl, hne "-h" rfl]
  rw [hrun]
  -- All other commands begin with a word of their own, so the last case is the only one left.
  unfold ofArgs
  split
  · next h => cases h
  · next h => exact absurd (List.cons.inj h).1 (hne "run" rfl)
  · next h => exact absurd (List.cons.inj h).1 (hne "parse" rfl)
  · next h => exact absurd (List.cons.inj h).1 (hne "parse" rfl)
  · next h => exact absurd (List.cons.inj h).1 (hne "lex" rfl)
  · next h => exact absurd (List.cons.inj h).1 (hne "lex" rfl)
  · next h =>
    obtain ⟨rfl, -⟩ := List.cons.inj h
    simp only [hhelp, hprogram, if_true, Bool.false_eq_true, if_false]

end Command

/-! ### What goes out -/

/-- What a printer has written out is what another one holds. -/
theorem Printer.sent_after (lines : List String) (text : String) :
    ((Printer.stdout text).after lines).sent = ((Printer.buffer text).after lines).held := by
  induction lines generalizing text with
  | nil => rfl
  | cons line lines ih => exact ih (text ++ line ++ "\n")

/-- The end of a run prints nothing. -/
theorem Report.printer_ofRun (result : Outcome Status) (m : Machine) :
    (Report.ofRun result m).printer = m.printer := by
  have hended : (Report.ofRun result m).printer = (m.ended result).printer := by
    cases result with
    | error s => rfl
    | ok status => rfl
  rw [hended, Machine.ended_printer]

/-- A source that cannot be read is refused alike with every printer. -/
theorem load_error_printers {source : String} {options : Options} {printer : Printer} {e : ParseError}
    {log : List Event} (h : load source options printer = (.error e, log)) (printer' : Printer) :
    load source options printer' = (.error e, log) := by
  unfold load at h ⊢
  revert h
  obtain ⟨result, parser⟩ := (Parser.ofSource source .initial).program
  intro h
  cases result with
  | error e => exact h
  | ok p => cases h

/-- **A run prints the same lines into every printer**, and comes to the same. -/
theorem runSource_printers (fuel : ℕ) (source : String) (options : Options)
    (printer printer' : Printer) :
    (runSource fuel source options printer = none ∧ runSource fuel source options printer' = none) ∨
      ∃ report report' lines, runSource fuel source options printer = some report ∧
        runSource fuel source options printer' = some report' ∧ report'.result = report.result ∧
        report.printer = printer.after lines ∧ report'.printer = printer'.after lines := by
  cases hload : load source options printer with | mk result log
  cases result with
  | error e =>
    -- Nothing was run, so no lines are printed.
    have hload' := load_error_printers hload printer'
    simp only [runSource, hload, hload']
    exact .inr ⟨_, _, [], rfl, rfl, rfl, rfl, rfl⟩
  | ok loaded =>
    obtain ⟨p, hp, hconfig⟩ := exists_of_load hload
    obtain ⟨log', hload'⟩ := load_of_parse hp options printer'
    -- The machines differ in nothing but the printer and the log, and so do all that they come to.
    have hruns := ((Machine.alike_initial loaded.names loaded.names printer printer' options.maxCalls
      log log').load ⟨rfl, rfl⟩ (alike_self_of_parse hp)).run fuel
    rw [← hconfig] at hruns
    simp only [runSource, hload, hload']
    let start' : Machine := { Machine.initial printer' options.maxCalls with log := log' }
    generalize loaded.config.run loaded.names fuel = r,
      (start'.load p).run loaded.names fuel = r' at hruns ⊢
    cases hruns with
    | running => exact .inl ⟨rfl, rfl⟩
    | @finished result m m' _ hm =>
      obtain ⟨lines, hlines, hlines'⟩ := hm.printed
      refine .inr ⟨_, _, lines, rfl, rfl, ?_, ?_, ?_⟩
      · cases result <;> rfl
      · rw [Report.printer_ofRun]
        exact hlines
      · rw [Report.printer_ofRun]
        exact hlines'

/-- **The answer to a source that was run**, when its report was made with a printer that holds what it
is given. -/
def Response.ofHeld (report : Report) : Response :=
  match report.result with
  | .ok _ => ⟨0, report.printer.held, ""⟩
  | .error e => ⟨1, report.printer.held, "error: " ++ e.message ++ "\n"⟩

/-- **The answer to a run** is that of the same run with a printer that holds what is printed. -/
theorem ofReport_runSource (fuel : ℕ) (source : String) (options : Options) :
    (runSource fuel source options (.stdout "")).map Response.ofReport =
      (runSource fuel source options (.buffer "")).map Response.ofHeld := by
  obtain ⟨hnone, hnone'⟩ | ⟨report, report', lines, hrun, hrun', hresult, hlines, hlines'⟩ :=
    runSource_printers fuel source options (.stdout "") (.buffer "")
  · rw [hnone, hnone']
    rfl
  -- The lines are the same, and both printers started with nothing.
  · have hsent : report.printer.sent = report'.printer.held := by
      rw [hlines, hlines', Printer.sent_after]
    rw [hrun, hrun', Option.map_some, Option.map_some]
    simp only [Response.ofReport, Response.ofHeld, hresult, hsent]
    cases report.result <;> rfl

/-! ### The whole command -/

/-- **Where no option is refused** there is a depth that was given last. -/
theorem exists_lastDepth {args : List String} (h : ∀ arg ∈ args, ¬ IsRefused arg) (default : ℕ) :
    ∃ n, LastDepth default args n := by
  unfold LastDepth
  cases hlast : (args.filter isOption).getLast? with
  | none => exact ⟨default, rfl⟩
  -- The last option is not refused, so it gives a depth.
  | some flag =>
    obtain ⟨hmem, hoption⟩ := List.mem_filter.mp (List.mem_of_getLast? hlast)
    by_contra hnone
    exact h flag hmem ⟨hoption, not_exists.mp hnone⟩

/-- **The code is 0 just when** the source is read and its run ends with a status. -/
theorem ofHeld_code_iff {fuel : ℕ} {source : String} {options : Options} {report : Report}
    (hrun : runSource fuel source options (.buffer "") = some report) :
    (Response.ofHeld report).code = 0 ∧ (Response.ofHeld report).stderr = "" ↔
      ∃ loaded log status m, load source options (.buffer "") = (.ok loaded, log) ∧
        loaded.config.run loaded.names fuel = .finished (.ok status) m := by
  unfold runSource at hrun
  -- A source that is not read has code 1, a run that is not over has no report, and of those that are
  -- over only the ones without an error have code 0.
  cases hload : load source options (.buffer "") with | mk result log
  rw [hload] at hrun
  cases result with
  | error e =>
    cases hrun
    exact ⟨fun hcode => absurd hcode.1 Nat.one_ne_zero, fun ⟨_, _, _, _, hok, _⟩ => by cases hok⟩
  | ok loaded =>
    dsimp only at hrun
    cases hend : loaded.config.run loaded.names fuel with
    | running c =>
      rw [hend] at hrun
      cases hrun
    | finished result m =>
      rw [hend] at hrun
      cases hrun
      cases result with
      | ok status => exact ⟨fun _ => ⟨loaded, log, status, m, rfl, hend⟩, fun _ => ⟨rfl, rfl⟩⟩
      | error s =>
        refine ⟨fun hcode => absurd hcode.1 Nat.one_ne_zero, ?_⟩
        rintro ⟨loaded', log', status, m', ⟨⟩, hend'⟩
        cases hend.symm.trans hend'

/-- **The answer to the run of a file.** -/
theorem Command.respond_run (path : String) (options : Options) (fuel : ℕ)
    (read : String → Except ReadFailure String) :
    (∀ e, read path = .error e →
      (run path options).respond fuel read =
        some ⟨1, "", "error: " ++ ("cannot read `" ++ path ++ "`: " ++ e.message) ++ "\n"⟩) ∧
    (∀ source, read path = .ok source →
      (run path options).respond fuel read =
        (runSource fuel source options (.buffer "")).map Response.ofHeld) ∧
    ∀ r, (run path options).respond fuel read = some r →
      (r.code = 0 ∧ r.stderr = "" ↔ ∃ source loaded log status m, read path = .ok source ∧
        load source options (.buffer "") = (.ok loaded, log) ∧
        loaded.config.run loaded.names fuel = .finished (.ok status) m) := by
  have hread (e : ReadFailure) (he : read path = .error e) : (run path options).respond fuel read =
      some (.unreadable path e) := by
    rw [respond, Response.withFile, he]
  have hsource (source : String) (h : read path = .ok source) :
      (run path options).respond fuel read =
        (runSource fuel source options (.buffer "")).map Response.ofHeld := by
    rw [respond, Response.withFile, h]
    exact ofReport_runSource fuel source options
  refine ⟨hread, hsource, fun r hr => ?_⟩
  -- Either the file is not read, and there is no run, or the answer is that of the run of its text.
  cases h : read path with
  | error e =>
    obtain rfl := Option.some.inj ((hread e h).symm.trans hr)
    exact ⟨fun hcode => absurd hcode.1 Nat.one_ne_zero, fun ⟨_, _, _, _, _, hok, _⟩ => by cases hok⟩
  | ok source =>
    rw [hsource source h] at hr
    obtain ⟨report, hrun, rfl⟩ := Option.map_eq_some_iff.mp hr
    rw [ofHeld_code_iff hrun]
    constructor
    · rintro ⟨loaded, log, status, m, hload, hend⟩
      exact ⟨source, loaded, log, status, m, rfl, hload, hend⟩
    · rintro ⟨source', loaded, log, status, m, ⟨⟩, hload, hend⟩
      exact ⟨loaded, log, status, m, hload, hend⟩

/-- **A run by the command line** is a run of the source in the first path, with the last depth.

* If an option gives no depth, the code is 1 and nothing is printed, whatever the files hold.
* If all do, and there is no path, the same.
* Otherwise the file at the first path decides. If it cannot be read, the code is 1. If it can, the answer
  is that of its run with the depth that was given last, or else the default: what was printed, and 0 or the
  error. So the code is 0 just when the source is read and its run ends without an error.

The name of a program file by itself is answered as after `run`. -/
theorem run_command_line :
    (∀ args : List String,
      ((∃ arg ∈ args, IsRefused arg) → ∃ stderr, ∀ fuel read,
        (Command.ofArgs ("run" :: args)).respond fuel read = some ⟨1, "", stderr⟩) ∧
      ((∀ arg ∈ args, ¬ IsRefused arg) →
        ((∀ arg ∈ args, isOption arg = true) → ∃ stderr, ∀ fuel read,
          (Command.ofArgs ("run" :: args)).respond fuel read = some ⟨1, "", stderr⟩) ∧
        ∃ n, LastDepth 1000 args n ∧
          ∀ path, args.find? (!isOption ·) = some path → ∀ fuel read,
            (∀ e, read path = .error e →
              (Command.ofArgs ("run" :: args)).respond fuel read =
                some ⟨1, "", "error: " ++ ("cannot read `" ++ path ++ "`: " ++ e.message) ++ "\n"⟩) ∧
            (∀ source, read path = .ok source →
              (Command.ofArgs ("run" :: args)).respond fuel read =
                (runSource fuel source ⟨n⟩ (.buffer "")).map Response.ofHeld) ∧
            ∀ r, (Command.ofArgs ("run" :: args)).respond fuel read = some r →
              (r.code = 0 ∧ r.stderr = "" ↔ ∃ source loaded log status m, read path = .ok source ∧
                load source ⟨n⟩ (.buffer "") = (.ok loaded, log) ∧
                loaded.config.run loaded.names fuel = .finished (.ok status) m))) ∧
    ∀ name : String, ".sil".toList <:+ name.toList → isOption name = false → ∀ fuel read,
      (Command.ofArgs [name]).respond fuel read = (Command.ofArgs ["run", name]).respond fuel read := by
  refine ⟨fun args => ⟨fun hrefused => ?_, fun haccepted => ⟨fun hoptions => ?_, ?_⟩⟩,
    fun name hname hoption fuel read => ?_⟩
  -- One option is refused.
  · obtain ⟨arg, -, -, hcommand⟩ := Command.ofRunArgs_of_refused hrefused none .default
    have hargs : Command.ofArgs ("run" :: args) = .misuse (.unknownOption arg) := hcommand
    exact ⟨_, fun fuel read => by rw [hargs]; rfl⟩
  -- All options are accepted, and there is no path among the arguments.
  · obtain ⟨n, hn⟩ := exists_lastDepth haccepted Options.default.maxCalls
    have hcommand := Command.ofRunArgs_of_accepted haccepted none .default hn
    have hnone : args.find? (!isOption ·) = none :=
      List.find?_eq_none.mpr fun arg harg => by simpa using hoptions arg harg
    rw [hnone] at hcommand
    have hargs : Command.ofArgs ("run" :: args) = .misuse .missingRunPath := hcommand
    exact ⟨_, fun fuel read => by rw [hargs]; rfl⟩
  -- All options are accepted, and there is a path.
  · obtain ⟨n, hn⟩ := exists_lastDepth haccepted Options.default.maxCalls
    refine ⟨n, hn, fun path hpath fuel read => ?_⟩
    have hcommand := Command.ofRunArgs_of_accepted haccepted none .default hn
    rw [hpath] at hcommand
    have hargs : Command.ofArgs ("run" :: args) = .run path ⟨n⟩ := hcommand
    rw [hargs]
    exact Command.respond_run path ⟨n⟩ fuel read
  · rw [Command.ofArgs_program hname hoption]

/-- A depth that is given twice, on both sides of the path. The one that counts leaves no room for a call,
and what was printed before it stays. A plus sign alone gives no depth. -/
theorem run_command_line_twice :
    let source := "sub f print 2 endsub print 1 call f"
    let read (path : String) : Except ReadFailure String :=
      if path = "a.sil" then .ok source else .error .notFound
    (Command.ofArgs ["run", "--max-depth=+7", "a.sil", "--max-depth=00", "b.sil"]).respond 40 read =
        some ⟨1, "1\n", "error: runtime error: subroutine calls nested deeper than 0\n"⟩ ∧
      (∃ stderr, ∀ fuel, (Command.ofArgs ["run", "a.sil", "--max-depth=+"]).respond fuel read =
        some ⟨1, "", stderr⟩) ∧
      ∀ fuel, (Command.ofArgs ["a.sil"]).respond fuel read =
        (Command.ofArgs ["run", "a.sil"]).respond fuel read := by
  intro source read
  have hrun : (runSource 40 source ⟨0⟩ (.buffer "")).map Response.ofHeld =
      some ⟨1, "1\n", "error: runtime error: subroutine calls nested deeper than 0\n"⟩ := by
    decide +kernel
  have hread : read "a.sil" = .ok source := rfl
  obtain ⟨hcommands, hprogram⟩ := run_command_line
  obtain ⟨_, hfirst, -⟩ := Options.withFlag?_eq_some_iff.mp
    (show Options.default.withFlag? "--max-depth=+7" = some ⟨7⟩ by decide +kernel)
  obtain ⟨_, hlast, ⟨⟩⟩ := Options.withFlag?_eq_some_iff.mp
    (show Options.default.withFlag? "--max-depth=00" = some ⟨0⟩ by decide +kernel)
  -- The last depth is 0, whatever came first. The sign alone is refused. The last part is about names.
  refine ⟨?_, ?_, fun fuel => ?_⟩
  · let args := ["--max-depth=+7", "a.sil", "--max-depth=00", "b.sil"]
    have haccepted : ∀ arg ∈ args, ¬ IsRefused arg := by
      intro arg harg hrefused
      simp only [args, List.mem_cons, List.not_mem_nil, or_false] at harg
      obtain rfl | rfl | rfl | rfl := harg
      · exact hrefused.2 _ hfirst
      · exact absurd hrefused.1 (by decide +kernel)
      · exact hrefused.2 _ hlast
      · exact absurd hrefused.1 (by decide +kernel)
    obtain ⟨-, n, hn, hpaths⟩ := (hcommands args).2 haccepted
    have hgiven : DepthFlag "--max-depth=00" n := hn
    obtain rfl := hgiven.unique hlast
    exact ((hpaths "a.sil" rfl 40 read).2.1 source hread).trans hrun
  · have hrefused : IsRefused "--max-depth=+" := by
      refine ⟨by decide +kernel, fun n hn => ?_⟩
      have hflag : Options.default.withFlag? "--max-depth=+" = none := by decide +kernel
      cases hflag.symm.trans (Options.withFlag?_eq_some_iff.mpr ⟨n, hn, rfl⟩)
    obtain ⟨stderr, hstderr⟩ :=
      (hcommands ["a.sil", "--max-depth=+"]).1 ⟨"--max-depth=+", by simp, hrefused⟩
    exact ⟨stderr, fun fuel => hstderr fuel read⟩
  · exact hprogram "a.sil" (by decide +kernel) (by decide +kernel) fuel read

end Silly
