import Silly.Proofs.Machine.Safety

/-!
# Canonical forms run alike

The canonical form of a source is the text of its tree. It is read back into a tree that is alike, over
a table of names of its own. So the two are run alike, and print the same and come to the same in
equally many steps (`canonical_runs_alike`). As alike trees have the same text, the canonical form of a
canonical form is that form itself.

The tree that is read back is compared with the first one in two steps, over a third table of names that
holds the names of both readings (`parse_display_alike`). Alike runs follow each other, so the runs are
compared in two steps as well.
-/

namespace Silly

/-- What is seen of a report: the status or the failure, and what was printed. -/
def Report.seen (r : Report) : Except Failure Status × Printer := (r.result, r.printer)

/-- What is seen of a run when it is over. -/
def Progress.seen : Progress → Option (Except Failure Status × Printer)
  | .finished result m => some (Report.ofRun result m).seen
  | .running _ => none

/-- The report of a run says what its result says, and what was printed when it was over. -/
theorem Report.seen_ofRun (result : Outcome Status) (m : Machine) :
    (Report.ofRun result m).seen = ((Report.ofRun result m).result, m.printer) := by
  cases result with
  | error s => rfl
  | ok status =>
    -- A line in the log is all that may come between.
    have hhalt : (m.halt status).printer = m.printer := by
      unfold Machine.halt
      split <;> rfl
    simp only [Report.ofRun, Report.seen, hhalt]

/-- A source that is read is run as it is loaded. -/
theorem seen_runSource {source : String} {options : Options} {printer : Printer} {loaded : Loaded}
    {log : List Event} (h : load source options printer = (.ok loaded, log)) (fuel : Nat) :
    (runSource fuel source options printer).map Report.seen =
      (loaded.config.run loaded.names fuel).seen := by
  rw [runSource, h]
  dsimp only
  -- A run that is not over has no report on either side.
  cases loaded.config.run loaded.names fuel with
  | finished result m => rfl
  | running c => rfl

section Runs

variable {names names' : Interner} {base base' : Machine} {r r' : Progress}

/-- **Alike runs with one printer have printed the same.** -/
theorem Progress.Alike.printer_eq (h : Progress.Alike names names' base base' r r')
    (hprinter : base.printer = base'.printer) : r'.machine.printer = r.machine.printer := by
  obtain ⟨lines, hlines, hlines'⟩ := h.machine.printed
  rw [hlines, hlines', hprinter]

/-- They are over together, with the same result. -/
theorem Progress.Alike.seen_eq (h : Progress.Alike names names' base base' r r')
    (hprinter : base.printer = base'.printer) : r'.seen = r.seen := by
  have hsame := h.printer_eq hprinter
  -- Neither run is over, or both have come to results of the same kind.
  cases h with
  | running => rfl
  | @finished result m m' _ _ =>
    have hresult : (Report.ofRun result m').result = (Report.ofRun result m).result := by
      cases result <;> rfl
    have hprinter' : m'.printer = m.printer := hsame
    rw [Progress.seen, Progress.seen, Report.seen_ofRun, Report.seen_ofRun, hresult, hprinter']

end Runs

/-- **Making a source canonical does not change what it does**, and doing so once is enough. The
canonical form has itself as its canonical form. It is run in as many steps as the source, has printed
the same at every point, and ends with the same status or failure if it ends. -/
theorem canonical_runs_alike {source c : String} (h : canonical source = .ok c) (options : Options)
    (printer : Printer) :
    canonical c = .ok c ∧
      (∀ fuel, (runSource fuel c options printer).map Report.seen =
        (runSource fuel source options printer).map Report.seen) ∧
      ∃ loaded loaded' log log', load source options printer = (.ok loaded, log) ∧
        load c options printer = (.ok loaded', log') ∧
        ∀ fuel, (loaded'.config.run loaded'.names fuel).machine.printer =
          (loaded.config.run loaded.names fuel).machine.printer := by
  -- The canonical form is the text of a tree that the source is read into.
  obtain ⟨p, names, hp, rfl⟩ : ∃ p names, parse source .initial = (.ok p, names) ∧
      p.display names.text = c := by
    unfold canonical at h
    cases hparse : parse source .initial with
    | mk result names =>
      rw [hparse] at h
      cases result with
      | error e => cases h
      | ok p =>
        cases h
        exact ⟨p, names, rfl, rfl⟩
  -- It is read back into a tree that is alike, over names that belong to its own reading.
  obtain ⟨mid, p', after, hp', halike, halike'⟩ := parse_display_alike hp .initial
  refine ⟨?_, ?_⟩
  -- Alike trees have one text.
  · unfold canonical
    rw [hp']
    have hdisplay : p.display names.text = p'.display after.text :=
      (halike.display_eq fun _ _ hx => hx.text_eq).trans
        (halike'.display_eq fun _ _ hx => hx.text_eq)
    exact congrArg Except.ok hdisplay.symm
  -- Alike trees are loaded into alike machines, which run alike for any number of steps.
  · obtain ⟨log, hload⟩ := load_of_parse hp options printer
    obtain ⟨log', hload'⟩ := load_of_parse hp' options printer
    -- From the source with its own names to the source with the names in between, and from there.
    have hruns (fuel : Nat) :=
      ((Machine.alike_initial names mid printer printer options.maxCalls log log).load
        ⟨rfl, rfl⟩ halike).run fuel
    have hruns' (fuel : Nat) :=
      ((Machine.alike_initial mid after printer printer options.maxCalls log log').load
        ⟨rfl, rfl⟩ halike').run fuel
    refine ⟨fun fuel => ?_, _, _, log, log', hload, hload', fun fuel => ?_⟩
    · rw [seen_runSource hload, seen_runSource hload']
      exact ((hruns' fuel).seen_eq rfl).trans ((hruns fuel).seen_eq rfl)
    · exact ((hruns' fuel).printer_eq rfl).trans ((hruns fuel).printer_eq rfl)

/-- A number with zeros in front, and a loop on one line that ends in an error. -/
theorem canonical_runs_alike_respelled :
    canonical "var x gets -007 while x do break endwhile" =
        .ok "var x gets -7\nwhile x do\n  break\nendwhile" ∧
      canonical "var x gets -7\nwhile x do\n  break\nendwhile" =
        .ok "var x gets -7\nwhile x do\n  break\nendwhile" ∧
      ∀ fuel, (runSource fuel "var x gets -7\nwhile x do\n  break\nendwhile" .default .silent).map
          Report.seen =
        (runSource fuel "var x gets -007 while x do break endwhile" .default .silent).map
          Report.seen := by
  -- The text is computed, and a result that can be told from its text is that text.
  have hform : (canonical "var x gets -007 while x do break endwhile").toOption =
      some "var x gets -7\nwhile x do\n  break\nendwhile" := by decide +kernel
  have hcanonical : canonical "var x gets -007 while x do break endwhile" =
      .ok "var x gets -7\nwhile x do\n  break\nendwhile" := by
    cases hresult : canonical "var x gets -007 while x do break endwhile" with
    | error e =>
      rw [hresult] at hform
      cases hform
    | ok c =>
      rw [hresult] at hform
      exact congrArg Except.ok (Option.some.inj hform)
  obtain ⟨hagain, hruns, -⟩ := canonical_runs_alike hcanonical .default .silent
  exact ⟨hcanonical, hagain, hruns⟩

end Silly
