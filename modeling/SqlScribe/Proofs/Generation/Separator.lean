import SqlScribe.Proofs.Dialect.LastWord
import SqlScribe.Proofs.Generation.Completion

/-!
# Batch separators

A separator is a `GO` on a line of its own. The normal form of a statement has only one line, and
it is made before the rules for Sybase are run, so on the way of a user's statement and on that of
a completion no separator is left where the rule for separators looks. Main statements:

* `normalize_separated`: the normal form of a statement with a separator behind it;
* `separator_stays`: the separator is handed to the engine as a word of the statement.
-/

namespace SqlScribe

/-- The statement has the word `GO` behind it, and behind that nothing but the count of a `LIMIT`
and the `;`. -/
def KeepsSeparator (t : Text) : Prop :=
  ∃ u tail, t = u ++ " GO" ++ tail ++ ";" ∧
    (tail = [] ∨ ∃ n, (n ≠ [] ∧ ∀ c ∈ n, isDecimal c = true) ∧ tail = " LIMIT " ++ n)

/-- A separator behind a statement of a user changes nothing of what the engine is given. -/
def IgnoresSeparator (s : Text) : Prop :=
  ∀ (Row : Type) (engine : Engine Row) x, (executeSql s .sybase engine).result = .ok x →
    (∃ y, (executeSql (s ++ "\nGO") .sybase engine).result = .ok y) ∧
      (executeSql (s ++ "\nGO") .sybase engine).handed = (executeSql s .sybase engine).handed

namespace Statement

variable {s : Text} {c : Char}

/-- In the normal form a separator is a word like any other. -/
theorem normalize_separated (hc : isBlank c = true) (s : Text) :
    normalize (s ++ c :: "GO") = Text.join [' '] (Text.words s ++ ["GO".toList]) ++ [';'] := by
  have hwords : Text.words (s ++ c :: "GO") = Text.words s ++ ["GO".toList] := by
    rw [Text.words_append_cons hc]
    rfl
  have hlast : ∀ d, (Text.join [' '] (Text.words s ++ ["GO".toList])).getLast? = some d →
      isTerminator d = false := by
    have hend : (Text.join [' '] (Text.words s ++ ["GO".toList])).getLast? = some 'O' := by
      cases hs : Text.words s with
      | nil => rfl
      | cons w ws => rw [Text.join_append [' '] (by simp) (by simp), List.getLast?_append]; rfl
    intro d hd
    rw [hend] at hd
    exact Option.some.inj hd ▸ by decide
  rw [normalize, Text.collapse, hwords, Text.dropEnd_eq_self hlast]

/-- An accepted normal form with a separator has something in front of it. -/
theorem exists_separated (hc : isBlank c = true) (hacc : Accepted (normalize (s ++ c :: "GO"))) :
    ∃ b x, normalize (s ++ c :: "GO") = b ++ [';'] ∧ b = x ++ ' ' :: "GO" ∧ IsBody b := by
  have hform := normalize_separated hc s
  cases hs : Text.words s with
  | nil =>
    have hrefused : ¬ Accepted "GO;" := by decide +kernel
    rw [hform, hs] at hacc
    exact absurd hacc hrefused
  | cons w ws =>
    have hbody := isBody_bodyText (s ++ c :: "GO")
    refine ⟨_, Text.join [' '] (w :: ws), rfl, ?_, hbody⟩
    have hdrop := List.append_cancel_right (hform : bodyText _ ++ [';'] = _ ++ [';'])
    rw [hs, Text.join_append [' '] (by simp) (by simp)] at hdrop
    exact hdrop.trans (by simp [Text.join])

/-- A conversion takes its text and the rules it missed from the report of the pipeline. -/
theorem report_of_toCanonical {st : Statement} {r : Conversion} {rules : Pipeline}
    (hrules : st.dialect.pipeline? = some rules) (h : st.toCanonical = .ok r) :
    r.statement.text = (rules.apply st.text).text ∧ r.missed = (rules.apply st.text).missed := by
  rw [toCanonical, hrules] at h
  simp only at h
  split at h
  · exact absurd h (by simp)
  · exact Except.ok.inj h ▸ ⟨rfl, rfl⟩

/-- What a conversion makes of a statement with a separator behind it. -/
theorem keepsSeparator_of_toCanonical (hc : isBlank c = true) {p : Provenance} {r : Conversion}
    (hacc : Accepted (normalize (s ++ c :: "GO")))
    (h : toCanonical ⟨normalize (s ++ c :: "GO"), .sybase, p⟩ = .ok r) :
    KeepsSeparator r.statement.text ∧ "sybase.go_separators".toList ∈ r.missed := by
  have hready := ready_toCanonical (ready_normalize hacc) h
  obtain ⟨b, x, hnormal, hx, hbody⟩ := exists_separated hc hacc
  rw [hnormal] at hacc h
  obtain ⟨hmissed, ws, tail, htext, htail⟩ := Sybase.words_apply hx hbody hacc
  obtain ⟨hrtext, hrmissed⟩ := report_of_toCanonical rfl h
  rw [hrtext, hrmissed]
  refine ⟨?_, hmissed⟩
  rw [hrtext, htext] at hready
  rw [htext]
  have hne : ws ≠ [] := by
    rintro rfl
    obtain ⟨d, u, y, htrim, -, hd⟩ := head_of_accepted hready.accepted
    rw [hready.executable.spaced.trim_eq_self] at htrim
    have hG : 'G' = d := by
      rcases htail with rfl | ⟨n, -, rfl⟩ <;> exact (List.cons.inj htrim).1
    rw [← hG, lowerOf_of_ascii (by decide)] at hd
    exact absurd (List.cons.inj hd).1 (by decide)
  rw [Text.join_append [' '] hne (List.cons_ne_nil _ _)]
  rcases htail with rfl | ⟨n, hn, rfl⟩
  · exact ⟨Text.join [' '] ws, [], by simp [Text.join], Or.inl rfl⟩
  · exact ⟨Text.join [' '] ws, " LIMIT " ++ n, by simp [Text.join], Or.inr ⟨n, hn, rfl⟩⟩

/-- A separator is not looked at before the statement is on one line. -/
theorem normalize_newline (s : Text) : normalize (s ++ "\nGO") = normalize (s ++ " GO") := by
  exact (normalize_separated (by decide) s).trans (normalize_separated (by decide) s).symm

end Statement

/-- **A separator stays.** A `GO` on a line of its own behind a text is the same to `executeSql` as
the word `GO` behind it, so that the engine is given a statement with this word, and the answer
says that the rule for separators did not apply. The same holds for a completion of which this
text is left. -/
theorem separator_stays {Row : Type} (engine : Engine Row) (s : Text) :
    executeSql (s ++ "\nGO") .sybase engine = executeSql (s ++ " GO") .sybase engine ∧
    (∀ t ∈ (executeSql (s ++ "\nGO") .sybase engine).handed, KeepsSeparator t) ∧
    (∀ x, (executeSql (s ++ "\nGO") .sybase engine).result = .ok x →
      .ruleMissed "sybase.go_separators" ∈ x.answer.degradations) ∧
    ∀ raw a, Completion.clean raw = Statement.normalize (s ++ "\nGO") →
      Answer.ofCompletion raw .sybase = .ok a →
        KeepsSeparator a.statement.text ∧ .ruleMissed "sybase.go_separators" ∈ a.degradations := by
  have hconversion : ∀ {p : Provenance} {r : Conversion},
      Statement.Accepted (Statement.normalize (s ++ "\nGO")) →
      Statement.toCanonical ⟨Statement.normalize (s ++ "\nGO"), .sybase, p⟩ = .ok r →
      KeepsSeparator (Answer.ofConversion r).statement.text ∧
        .ruleMissed "sybase.go_separators" ∈ (Answer.ofConversion r).degradations := by
    intro p r hacc hr
    obtain ⟨hkeeps, hmissed⟩ := Statement.keepsSeparator_of_toCanonical (by decide) hacc hr
    exact ⟨hkeeps, List.mem_map_of_mem hmissed⟩
  refine ⟨?_, fun t ht => ?_, fun x hx => ?_, fun raw a hclean ha => ?_⟩
  · rw [executeSql, executeSql, answerOfSql, answerOfSql, Statement.normalize_newline]
  · obtain ⟨a, ha, rfl⟩ := answer_of_mem_handed ht
    obtain ⟨hacc, r, hr, rfl⟩ := conversion_of_answerOfSql ha
    exact (hconversion hacc hr).1
  · obtain ⟨hacc, r, hr, hanswer⟩ := conversion_of_answerOfSql (answer_of_executeSql hx)
    exact hanswer ▸ (hconversion hacc hr).2
  · obtain ⟨-, hacc, r, hr, rfl⟩ := Answer.conversion_of_ofCompletion ha
    rw [hclean] at hacc hr
    exact hconversion hacc hr

/-- The count of a `LIMIT` comes behind the separator. -/
example : (executeSql "SELECT TOP 5 a FROM t\nGO" .sybase fun _ => .ok [()]).handed
    = ["SELECT a FROM t GO LIMIT 5;".toList] := by
  decide +kernel

/-- A statement with a separator is handed over with a word that it has not without. -/
theorem not_ignoresSeparator : ¬ IgnoresSeparator "SELECT a FROM t" := by
  intro h
  let engine : Engine Unit := fun _ => .ok [()]
  obtain ⟨hplain, hseparated, hother⟩ :
      (executeSql "SELECT a FROM t" .sybase engine).handed = ["SELECT a FROM t;".toList] ∧
      (executeSql "SELECT a FROM t\nGO" .sybase engine).handed = ["SELECT a FROM t GO;".toList] ∧
      "SELECT a FROM t GO;".toList ≠ "SELECT a FROM t;".toList := by
    decide +kernel
  obtain ⟨a, ha, -⟩ := answer_of_mem_handed (hplain ▸ List.mem_singleton_self _)
  have hrows : ∃ rows, engine a.statement.text = .ok rows := ⟨[()], rfl⟩
  obtain ⟨rows, hx⟩ := result_executeSql_of_ok hrows ha
  have hsame := (h Unit engine _ hx).2
  exact hother (List.singleton_inj.1 (hseparated.symm.trans (hsame.trans hplain)))

end SqlScribe
