import Silly.Proofs.Grammar.Finished
import Silly.Proofs.Grammar.Stops

/-!
# What the log of a reading accounts for

The log of a reading has an entry for each token that was taken and for each statement that was finished,
and it has no others of these kinds (`log_accounts_for_source`). If the source is a program, all of its
tokens were taken and all statements of its tree were finished.

If it is not, there is a point at which the reading stops: the tokens before it begin some program, and the
next token, if there is one, fits no such program (`FailsAfter`). The statements that were completed before
that point can be told from any of the programs that go on from there. They are the nodes of its tree that
end before the point, whichever program it is. For what a token finishes does not depend on the tokens after
it (`exists_readStatements_append`), and whatever comes later is finished with more tokens taken.
-/

namespace Silly

variable {names : Interner} {before : List Stmt} {t : Token} {ts all : List Token} {i : Nat}

/-! ### Up to some token -/

section UpTo

variable {p : Fragment} {gs : List Goal} {e : ParseError}

/-- Events that are about no token leave the count as it is. -/
theorem statementsIn_append {es : List Event} (h : ∀ e ∈ es, e.isAdvance = false) (es' : List Event) :
    statementsIn i (es ++ es') = statementsIn i es ++ statementsIn i es' ∧
      ∀ entry ∈ statementsIn i es, entry.1 = i := by
  -- By induction on the events, none of which counts a token.
  induction es with
  | nil => exact ⟨rfl, nofun⟩
  | cons e es ih =>
    obtain ⟨he, hes⟩ := List.forall_mem_cons.mp h
    obtain ⟨happend, hcount⟩ := ih hes
    cases e with
    | advance => cases he
    | parsedStatement => exact ⟨congrArg (_ :: ·) happend, List.forall_mem_cons.mpr ⟨rfl, hcount⟩⟩
    | _ => exact ⟨happend, hcount⟩

/-- **A token that is refused finishes nothing.** -/
theorem readStatements_refused (h : Goal.advance t p.goals = .error e) :
    readStatements names p before i (t :: ts) = [] := by
  have hstep : (p.step names (t.named names)).verdict.goals = .error e := (p.goals_judge names t).trans h
  have hevents := (p.matches_step names names (t.named names)).error e hstep
  rw [readStatements_cons, Turn.statements, hevents]
  -- The verdict is an error as well, so nothing is read on.
  cases hverdict : (p.step names (t.named names)).verdict with
  | more | complete =>
    rw [hverdict] at hstep
    cases hstep
  | reject | decline => rfl

/-- **A token that is not refused** finishes what it finishes, whatever comes after it. -/
theorem exists_readStatements_cons (names : Interner) (before : List Stmt) (i : Nat)
    (h : Goal.advance t p.goals = .ok gs) :
    ∃ q before' done, q.goals = gs ∧ (∀ entry ∈ done, entry.1 = i + 1) ∧ ∀ ts,
      readStatements names p before i (t :: ts) = done ++ readStatements names q before' (i + 1) ts := by
  have hstep : (p.step names (t.named names)).verdict.goals = .ok gs := (p.goals_judge names t).trans h
  have hplain := (p.matches_step names names (t.named names)).plain
  have hcount : ∀ entry ∈ (statementsIn (i + 1) (p.step names (t.named names)).events).map
      (Prod.map id (some : Opening → Option Opening)), entry.1 = i + 1 := by
    intro entry hentry
    obtain ⟨entry', hmem, rfl⟩ := List.mem_map.mp hentry
    exact (statementsIn_append hplain []).2 entry' hmem
  have hsplit (ts : List Token) := (statementsIn_append (i := i + 1) hplain
    ((p.step names (t.named names)).verdict.resumeEvents names before (i + 1) ts)).1
  -- What the step notes comes first, and then whatever the reading goes on with.
  cases hverdict : (p.step names (t.named names)).verdict with
  | more q =>
    refine ⟨q, before, _, ?_, hcount, fun ts => ?_⟩
    · rw [hverdict] at hstep
      exact Except.ok.inj hstep
    · rw [readStatements_cons, Turn.statements, hsplit, List.map_append, hverdict]
      rfl
  | complete s =>
    refine ⟨.start, s :: before, _, ?_, hcount, fun ts => ?_⟩
    · rw [hverdict] at hstep
      exact Except.ok.inj hstep
    · rw [readStatements_cons, Turn.statements, hsplit, List.map_append, hverdict]
      rfl
  | reject | decline =>
    rw [hverdict] at hstep
    cases hstep

/-- **What is finished by some tokens**, none of which is refused, whatever comes after them. -/
theorem exists_readStatements_append (names : Interner) {us : List Token} (before : List Stmt) (i : Nat)
    (h : Goal.advanceAll p.goals us = .ok gs) :
    ∃ q before' done, q.goals = gs ∧ (∀ entry ∈ done, entry.1 ≤ i + us.length) ∧ ∀ ts,
      readStatements names p before i (us ++ ts) =
        done ++ readStatements names q before' (i + us.length) ts := by
  -- By induction on the tokens, each of which adds what it finishes with one token more.
  induction us generalizing p before i with
  | nil => exact ⟨p, before, [], Except.ok.inj h, nofun, fun _ => rfl⟩
  | cons t us ih =>
    rw [Goal.advanceAll_cons] at h
    cases ht : Goal.advance t p.goals with
    | error e =>
      rw [ht] at h
      cases h
    | ok gs₁ =>
      rw [ht] at h
      obtain ⟨q, before', done, rfl, hcount, hread⟩ := exists_readStatements_cons names before i ht
      obtain ⟨q', before'', done', hgs, hcount', hread'⟩ := ih before' (i + 1) h
      have hlength : i + 1 + us.length = i + (t :: us).length := by
        rw [List.length_cons]
        omega
      rw [hlength] at hcount' hread'
      refine ⟨q', before'', done ++ done', hgs, ?_, fun ts => ?_⟩
      · refine List.forall_mem_append.mpr ⟨fun entry hentry => ?_, hcount'⟩
        rw [hcount entry hentry, List.length_cons]
        omega
      · rw [List.cons_append, hread, hread', List.append_assoc]

/-- What is finished later has a higher count. -/
theorem lt_of_mem_readStatements (names : Interner) (p : Fragment) (before : List Stmt) (i : Nat)
    (ts : List Token) : ∀ entry ∈ readStatements names p before i ts, i < entry.1 := by
  -- By induction on the tokens. What this token finishes is noted with one more, and the rest later.
  induction ts generalizing p before i with
  | nil =>
    rw [readStatements_nil]
    exact nofun
  | cons t ts ih =>
    cases ht : Goal.advance t p.goals with
    | error e =>
      rw [readStatements_refused ht]
      exact nofun
    | ok gs =>
      obtain ⟨q, before', done, -, hcount, hread⟩ := exists_readStatements_cons names before i ht
      rw [hread]
      refine List.forall_mem_append.mpr ⟨fun entry hentry => ?_, fun entry hentry => ?_⟩
      · rw [hcount entry hentry]
        exact Nat.lt_succ_self i
      · exact Nat.lt_of_succ_lt (ih q before' (i + 1) entry hentry)

/-- **What is finished before a reading stops** are the statements of each program that begins with the
same tokens, as far as they end before that point. -/
theorem readStatements_stopped {us rest vs : List Token} {q : Program}
    (h : Goal.advanceAll [] us = .ok gs)
    (hrest : ∀ t, rest.head? = some t → ∃ e, Goal.advance t gs = .error e)
    (hq : DerivesProgram names.nameOf (us ++ vs) q) :
    readStatements names .start [] 0 (us ++ rest) =
      (q.nodes.filter (·.stop ≤ us.length)).map (·.entry (us ++ vs)) := by
  obtain ⟨p, before, done, rfl, hcount, hread⟩ :=
    exists_readStatements_append (p := .start) names [] 0 h
  rw [Nat.zero_add] at hcount hread
  -- In this reading nothing comes after them, and in that of the program nothing that counts.
  have hstop : readStatements names p before us.length rest = [] := by
    cases rest with
    | nil => exact readStatements_nil
    | cons t rest =>
      obtain ⟨e, he⟩ := hrest t rfl
      exact readStatements_refused he
  have hnodes : q.nodes.map (·.entry (us ++ vs)) =
      done ++ readStatements names p before us.length vs := by
    rw [← hread, Program.nodes]
    exact (readStatements_program hq rfl).symm
  have hlater : (readStatements names p before us.length vs).filter (·.1 ≤ us.length) = [] := by
    refine List.filter_eq_nil_iff.mpr fun entry hentry => ?_
    have hlt := lt_of_mem_readStatements names p before us.length vs entry hentry
    simpa using hlt
  calc readStatements names .start [] 0 (us ++ rest)
      = done := by rw [hread, hstop, List.append_nil]
    _ = (done ++ readStatements names p before us.length vs).filter (·.1 ≤ us.length) := by
        rw [List.filter_append, hlater, List.append_nil, List.filter_eq_self.mpr]
        simpa using hcount
    _ = (q.nodes.map (·.entry (us ++ vs))).filter (·.1 ≤ us.length) := by rw [hnodes]
    _ = (q.nodes.filter (·.stop ≤ us.length)).map (·.entry (us ++ vs)) := by
        rw [List.filter_map]
        rfl

end UpTo

/-! ### Sources -/

/-- **An entry of the log is that of a statement.** The tokens at the place of the statement derive it. The
entry tells the first one of them, and it was made when the last one of them had been taken. -/
def Node.Logged (name : String → Name) (all : List Token) (n : Node) (entry : Nat × Opening) : Prop :=
  ∃ t us, n.tokens all = t :: us ∧ DerivesTop name (t :: us) n.stmt ∧ entry = (n.stop, t.opening)

theorem DerivesTop.exists_cons {name : String → Name} {us : List Token} {s : Stmt}
    (h : DerivesTop name us s) : ∃ t us', us = t :: us' := by
  cases h with
  | stmt hs => cases hs <;> exact ⟨_, _, rfl⟩
  | sub => exact ⟨_, _, rfl⟩

/-- A statement has the entry that it should have. -/
theorem Node.Located.logged {name : String → Name} {n : Node} {entry : Nat × Opening}
    (h : n.Located name all) (hentry : (entry.1, some entry.2) = n.entry all) :
    n.Logged name all entry := by
  obtain ⟨t, us, htokens⟩ := DerivesTop.exists_cons h
  rw [Node.entry, htokens] at hentry
  rw [Node.Located, htokens] at h
  obtain ⟨hstop, hopening⟩ := Prod.mk.inj hentry
  exact ⟨t, us, htokens, h, Prod.ext hstop (Option.some.inj hopening)⟩

/-- **The entries of a row of nodes** are those of its statements, one by one. -/
theorem forall₂_logged {name : String → Name} {nodes : List Node} {entries : List (Nat × Opening)}
    (hnodes : ∀ n ∈ nodes, n.Located name all)
    (h : entries.map (Prod.map id some) = nodes.map (·.entry all)) :
    List.Forall₂ (Node.Logged name all) nodes entries := by
  -- By induction on the nodes, of which each has its own entry.
  induction nodes generalizing entries with
  | nil =>
    obtain rfl := List.map_eq_nil_iff.mp h
    exact .nil
  | cons n nodes ih =>
    obtain ⟨hn, hnodes⟩ := List.forall_mem_cons.mp hnodes
    obtain ⟨entry, entries, rfl, hentry, hrest⟩ := List.map_eq_cons_iff.mp h
    exact .cons (hn.logged hentry) (ih hnodes hrest)

/-- **The log of a reading that stops** has the statements that were finished before. -/
theorem forall₂_logged_stopped {us rest vs : List Token} {gs : List Goal} {q : Program}
    {entries : List (Nat × Opening)} (h : Goal.advanceAll [] us = .ok gs)
    (hrest : ∀ t, rest.head? = some t → ∃ e, Goal.advance t gs = .error e)
    (hentries : entries.map (Prod.map id some) = readStatements names .start [] 0 (us ++ rest))
    (hq : DerivesProgram names.nameOf (us ++ vs) q) :
    List.Forall₂ (Node.Logged names.nameOf (us ++ rest)) (q.nodes.filter (·.stop ≤ us.length))
      entries := by
  -- The statements that end by then have the same tokens here and there.
  have htokens : ∀ n ∈ q.nodes.filter (·.stop ≤ us.length),
      n.tokens (us ++ vs) = n.tokens (us ++ rest) := by
    intro n hn
    have hstop : n.stop ≤ us.length := of_decide_eq_true (List.mem_filter.mp hn).2
    refine Node.tokens_congr ?_ hstop
    rw [List.take_left, List.take_left]
  -- A statement that ends before the point stands where its tokens derive it, in this source too.
  refine forall₂_logged (fun n hn => ?_) ?_
  · have hlocated := hq.located n (List.mem_filter.mp hn).1
    rwa [Node.Located, htokens n hn] at hlocated
  · rw [hentries, readStatements_stopped h hrest hq]
    refine List.map_congr_left fun n hn => ?_
    rw [Node.entry, htokens n hn, Node.entry]

section Sources

variable {source : String} {gs : List Goal} {tokens : List Token} {k : Nat}

/-- Which rows of tokens are programs is told by what they leave due. -/
theorem exists_derives_iff :
    (∃ q, DerivesProgram names.nameOf ts q) ↔ Goal.advanceAll [] ts = .ok [] := by
  have hread : (∃ q, readAll names .start [] ts = .ok q) ↔ Goal.advanceAll [] ts = .ok [] :=
    exists_readAll_eq_ok_iff
  simpa only [readAll_eq_ok_iff] using hread

/-- **Where a row of tokens fails**: the first `k` of them begin some program, and together with the next
one they begin none. -/
structure FailsAfter (name : String → Name) (tokens : List Token) (k : Nat) : Prop where
  le : k ≤ tokens.length
  begins : ∃ vs q, DerivesProgram name (tokens.take k ++ vs) q
  ends : k < tokens.length → ∀ vs q, ¬ DerivesProgram name (tokens.take (k + 1) ++ vs) q

/-- **The point at which the goals are not met** is where the tokens fail. -/
theorem failsAfter_of_advanceAll (hle : k ≤ tokens.length)
    (h : Goal.advanceAll [] (tokens.take k) = .ok gs)
    (hnext : ∀ t, tokens[k]? = some t → ∃ e, Goal.advance t gs = .error e) :
    FailsAfter names.nameOf tokens k where
  le := hle
  begins := by
    -- All that is due can come next.
    refine ⟨(gs.flatMap Goal.completion).map Token.spelling, exists_derives_iff.mpr ?_⟩
    rw [Goal.advanceAll_append, h]
    exact Goal.advanceAll_completions gs
  -- A program that goes on with the next token would meet the goals with it.
  ends hlt vs q hq := by
    obtain ⟨e, he⟩ := hnext tokens[k] (List.getElem?_eq_getElem hlt)
    have hdue := exists_derives_iff.mp ⟨q, hq⟩
    rw [← List.take_append_getElem hlt, List.append_assoc, Goal.advanceAll_append, h] at hdue
    simp only [Except.bind, List.singleton_append, Goal.advanceAll_cons, he] at hdue
    cases hdue

/-- **Where the reading of a source stops**, if it fails. -/
theorem exists_stop {e : ParseError} (h : (parse source names).1 = .error e) :
    ∃ k ≤ (tokenize source names).1.length, ∃ gs,
      Goal.advanceAll [] ((tokenize source names).1.take k) = .ok gs ∧
      (∀ t, (tokenize source names).1[k]? = some t → ∃ e, Goal.advance t gs = .error e) ∧
      (Parser.ofSource source names).program.2.reader.taken =
        (if k = (tokenize source names).1.length ∨ e.leaves then k else k + 1) := by
  obtain ⟨g, gs, hall, rfl⟩ | ⟨k, t, gs, ht, hbefore, hrefused⟩ := parse_error_cases h
  · -- Every token has been taken, and no other one is there.
    refine ⟨_, Nat.le_refl _, g :: gs, ?_, fun t ht => ?_, ?_⟩
    · rwa [List.take_length]
    · rw [List.getElem?_eq_none (Nat.le_refl _)] at ht
      cases ht
    · rw [if_pos (.inl rfl)]
      exact (program_of_reached hall).2.1
  -- The token that is refused is there, and the tokens before it are not refused.
  · obtain ⟨hlt, -⟩ := List.getElem?_eq_some_iff.mp ht
    refine ⟨k, hlt.le, gs, hbefore, fun t' ht' => ?_, ?_⟩
    · obtain rfl : t = t' := Option.some.inj (ht.symm.trans ht')
      exact ⟨e, hrefused⟩
    · rw [(program_of_refused ht hbefore hrefused).2.1]
      simp only [hlt.ne, false_or]

/-- **The log of a reading accounts for every token and every statement.** It has an entry for each token that
was taken, in order. If the source is a program, these are all of its tokens, and there is one entry for each
statement of the tree, in the order in which the statements end. If it is not, there is one for each
statement that ends before the point at which it fails, whatever program the tokens before that point are
completed to. -/
theorem log_accounts_for_source (source : String) (names : Interner) :
    let tokens := (tokenize source names).1
    let name := (parse source names).2.nameOf
    let taken := (Parser.ofSource source names).program.2.reader.taken
    let log := parseEvents source names
    taken ≤ tokens.length ∧ log.filter Event.isAdvance = advances 0 (tokens.take taken) ∧
    (∀ p, (parse source names).1 = .ok p →
      taken = tokens.length ∧ (p.nodes.map (·.stmt)).Perm (p.parts.map (·.2)) ∧
        List.Forall₂ (Node.Logged name tokens) p.nodes (statementsIn 0 log)) ∧
    ∀ e, (parse source names).1 = .error e →
      ∃ k, FailsAfter name tokens k ∧
        taken = (if k = tokens.length ∨ e.leaves then k else k + 1) ∧
        ∀ vs q, DerivesProgram name (tokens.take k ++ vs) q →
          List.Forall₂ (Node.Logged name tokens) (q.nodes.filter (·.stop ≤ k))
            (statementsIn 0 log) := by
  intro tokens name taken log
  obtain ⟨hle, hadvances⟩ := filter_parseEvents source names
  have hread : (statementsIn 0 log).map (Prod.map id some) =
      readStatements (parse source names).2 .start [] 0 tokens :=
    congrArg (fun es => (statementsIn 0 es).map (Prod.map id some))
      (parseEvents_eq_readEvents source names)
  refine ⟨hle, hadvances, fun p hp => ?_, fun e he => ?_⟩
  · -- The tokens derive the tree, so its nodes are what was finished.
    have hderives : DerivesProgram name tokens p := parse_eq_ok_iff.mp hp
    have hreached := program_of_reached (exists_parse_eq_ok_iff.mp ⟨p, hp⟩)
    refine ⟨hreached.2.1, p.nodes_perm_parts, ?_⟩
    exact forall₂_logged hderives.located (hread.trans (readStatements_program hderives rfl))
  · -- The tokens before the point of failure are not refused, and the one at it is.
    obtain ⟨k, hk, gs, hbefore, hnext, htaken⟩ := exists_stop he
    refine ⟨k, failsAfter_of_advanceAll hk hbefore hnext, htaken, fun vs q hq => ?_⟩
    have hrest : ∀ t, (tokens.drop k).head? = some t → ∃ e, Goal.advance t gs = .error e := by
      intro t ht
      rw [List.head?_drop] at ht
      exact hnext t ht
    have hsplit : tokens = tokens.take k ++ tokens.drop k := (List.take_append_drop k tokens).symm
    rw [hsplit] at hread
    have hlogged := forall₂_logged_stopped hbefore hrest hread hq
    rwa [← hsplit, List.length_take_of_le hk] at hlogged

/-- A loop, and the same loop with a parenthesis in place of its end: the two statements of its body have
been finished in either case. -/
theorem log_accounts_for_source_loop :
    let source := "repeat 2 times print [1] exit endrepeat"
    let broken := "repeat 2 times print [1] exit )"
    let e : ParseError := .unknownStatement ")" ⟨30, 31⟩
    let shown (source : String) := (statementsIn 0 (parseEvents source .initial)).map fun entry =>
      (entry.1, entry.2.text, entry.2.start)
    (shown source = [(7, "print", 15), (8, "exit", 25), (9, "repeat", 0)] ∧
      ∃ p, (parse source .initial).1 = .ok p ∧
        (Parser.ofSource source .initial).program.2.reader.taken =
          (tokenize source .initial).1.length ∧
        List.Forall₂ (Node.Logged (parse source .initial).2.nameOf (tokenize source .initial).1)
          p.nodes (statementsIn 0 (parseEvents source .initial))) ∧
    shown broken = [(7, "print", 15), (8, "exit", 25)] ∧ (parse broken .initial).1 = .error e ∧
      ∃ k, FailsAfter (parse broken .initial).2.nameOf (tokenize broken .initial).1 k ∧
        ∀ vs q, DerivesProgram (parse broken .initial).2.nameOf
            ((tokenize broken .initial).1.take k ++ vs) q →
          List.Forall₂ (Node.Logged (parse broken .initial).2.nameOf (tokenize broken .initial).1)
            (q.nodes.filter (·.stop ≤ k)) (statementsIn 0 (parseEvents broken .initial)) := by
  intro source broken e shown
  have hdue : Goal.failure (Goal.advanceAll [] (tokenize source .initial).1) = none := by
    decide +kernel
  obtain ⟨p, hp⟩ := exists_parse_eq_ok_iff.mpr (Goal.failure_eq_none_iff.mp hdue)
  have he : (parse broken .initial).1 = .error e := parse_eq_error_iff.mpr (by decide +kernel)
  obtain ⟨-, -, hok, -⟩ := log_accounts_for_source source .initial
  obtain ⟨htaken, -, hlogged⟩ := hok p hp
  obtain ⟨-, -, -, herror⟩ := log_accounts_for_source broken .initial
  obtain ⟨k, hfails, -, hstopped⟩ := herror e he
  exact ⟨⟨by decide +kernel, p, hp, htaken, hlogged⟩, by decide +kernel, he, k, hfails, hstopped⟩

end Sources

end Silly
