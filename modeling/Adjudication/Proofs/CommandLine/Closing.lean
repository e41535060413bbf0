import Adjudication.Proofs.CommandLine.Clients

/-!
The line that the command ends with. It says that nothing is confirmed just where no finding blocks, which is also what the
exit codes 0 and 3 stand for. Unless only findings of high severity count, that agrees with the report: no outcome of it is
real. If only those count, the line is the same whatever findings of lower severity have been found real, so it says that
nothing is confirmed where the table above it shows a finding that is.
-/

namespace Adjudication.CommandLine

variable {env : Environment} {args : List String} {s t : Scene Float} {r : Report} {onlyHigh : Bool}

/-! ### The line for a report -/

/-- A text in a colour, as the command shows it. -/
def Colour.line (colour : Colour) (text : String) : String := "[" ++ colour.name ++ "]" ++ text ++ "[/]"

/-- The line on a report without an error, by the outcomes that block and those that could not be judged. -/
inductive Closes (r : Report) (onlyHigh : Bool) : String → Prop where
  | confirmed (h : ∃ o ∈ r.outcomes, o.Blocks onlyHigh) :
      Closes r onlyHigh (Colour.red.line (vulnerabilities (Export.blocking r onlyHigh)))
  | unjudged (h : ∀ o ∈ r.outcomes, ¬ o.Blocks onlyHigh) (hunjudged : ∃ o ∈ r.outcomes, o.status = .judgingFailed) :
      Closes r onlyHigh (Colour.yellow.line ("No confirmed vulnerabilities, but " ++ toString r.summary.judgingFailed ++
        " finding(s) could not be judged"))
  | clean (h : ∀ o ∈ r.outcomes, ¬ o.Blocks onlyHigh) (hjudged : ∀ o ∈ r.outcomes, o.status ≠ .judgingFailed) :
      Closes r onlyHigh (Colour.green.line "No confirmed vulnerabilities")

theorem lastWord_closes (h : r.error = none) (onlyHigh : Bool) : ∃ line, lastWord r onlyHigh = .text line ∧
    Closes r onlyHigh line := by
  rw [lastWord, h]
  dsimp only
  by_cases hblocks : ∃ o ∈ r.outcomes, o.Blocks onlyHigh
  · have hcount : Export.blocking r onlyHigh ≠ 0 := fun hzero => by
      obtain ⟨o, ho, hblock⟩ := hblocks
      exact Export.blocking_eq_zero_iff.1 hzero o ho hblock
    rw [Exit.ofCounts, if_pos hcount]
    exact ⟨_, rfl, .confirmed hblocks⟩
  have hclear : ∀ o ∈ r.outcomes, ¬ o.Blocks onlyHigh := fun o ho hblock => hblocks ⟨o, ho, hblock⟩
  rw [Export.blocking_eq_zero_iff.2 hclear, Exit.ofCounts, if_neg (by simp)]
  by_cases hunjudged : ∃ o ∈ r.outcomes, o.status = .judgingFailed
  · have hcount : r.summary.judgingFailed ≠ 0 := fun hzero => by
      obtain ⟨o, ho, hstatus⟩ := hunjudged
      exact Report.judgingFailed_eq_zero_iff.1 hzero o ho hstatus
    rw [if_pos hcount]
    exact ⟨_, rfl, .unjudged hclear hunjudged⟩
  · have hjudged : ∀ o ∈ r.outcomes, o.status ≠ .judgingFailed := fun o ho hstatus => hunjudged ⟨o, ho, hstatus⟩
    rw [Report.judgingFailed_eq_zero_iff.2 hjudged, if_neg (by simp)]
    exact ⟨_, rfl, .clean hclear hjudged⟩

/-! ### What the line says -/

/-- A line that says that nothing is confirmed. -/
def Acquits (line : String) : Prop := "No confirmed vulnerabilities".toList <:+: line.toList

theorem acquits_line (colour : Colour) {text : String} (h : "No confirmed vulnerabilities".toList <+: text.toList) :
    Acquits (colour.line text) := by
  rw [Acquits, Colour.line, String.toList_append, String.toList_append]
  exact h.isInfix.trans ((List.suffix_append _ _).isInfix.trans (List.prefix_append _ _).isInfix)

/-- No number has a letter in it, so a line that tells how many are confirmed does not say that none is. -/
theorem not_acquits_vulnerabilities (n : Nat) : ¬ Acquits (Colour.red.line (vulnerabilities n)) := by
  intro hacquits
  have hletter : 'N' ∈ (Colour.red.line (vulnerabilities n)).toList := hacquits.subset (by decide)
  have hdigits : 'N' ∉ (toString n).toList := fun hmem => by
    rw [Nat.toString_eq_repr, Nat.toList_repr] at hmem
    have hdigit : 'N'.isDigit = true := Nat.isDigit_of_mem_toDigits (by decide) (by decide) hmem
    exact absurd hdigit (by decide)
  rw [Colour.line, vulnerabilities] at hletter
  simp only [String.toList_append, List.mem_append, hdigits] at hletter
  split at hletter <;> exact absurd hletter (by decide)

theorem acquits_iff {line : String} (h : Closes r onlyHigh line) : Acquits line ↔ ∀ o ∈ r.outcomes, ¬ o.Blocks onlyHigh := by
  cases h with
  | confirmed hblocks =>
    refine ⟨fun hacquits => absurd hacquits (not_acquits_vulnerabilities _), fun hclear => ?_⟩
    obtain ⟨o, ho, hblock⟩ := hblocks
    exact absurd hblock (hclear o ho)
  | unjudged hclear _ =>
    refine ⟨fun _ => hclear, fun _ => acquits_line .yellow ?_⟩
    have hstart : "No confirmed vulnerabilities".toList <+: "No confirmed vulnerabilities, but ".toList := by decide
    rw [String.append_assoc, String.toList_append]
    exact hstart.trans (List.prefix_append _ _)
  | clean hclear _ => exact ⟨fun _ => hclear, fun _ => acquits_line .green List.prefix_rfl⟩

/-! ### The end of the command -/

/-- The command that delivers a report without an error ends with the line on it. -/
theorem invoke_closes (p : Opening env args s) (h : p.verified = (.ok r, t)) (herror : r.error = none)
    (hexported : p.Exported r t) : ∃ before line,
    (invoke env args s).2.trace = before ++ [.showed (.line (.text line))] ∧ Closes r p.options.failOnHigh line := by
  obtain ⟨u, hpresented⟩ := hexported.present h
  obtain ⟨line, hword, hcloses⟩ := lastWord_closes herror p.options.failOnHigh
  rw [invoke_snd, run_of_ok p h, hpresented, hword]
  exact ⟨u.trace, line, rfl, hcloses⟩

/-- The codes of a report in which nothing blocks. -/
theorem Exit.code_ofReport_of_clear_iff (h : r.error = none) :
    (Exit.ofReport r onlyHigh).code = 0 ∨ (Exit.ofReport r onlyHigh).code = 3 ↔ ∀ o ∈ r.outcomes, ¬ o.Blocks onlyHigh := by
  constructor
  · intro hcode o ho hblock
    rw [code_ofReport_of_blocks h ⟨o, ho, hblock⟩] at hcode
    simp at hcode
  · intro hclear
    by_cases hunjudged : ∃ o ∈ r.outcomes, o.status = .judgingFailed
    · exact .inr (code_ofReport_of_unjudged h hclear hunjudged)
    · exact .inl (code_ofReport_eq_zero_iff.2 ⟨h, hclear, fun o ho hstatus => hunjudged ⟨o, ho, hstatus⟩⟩)

/-- The command that delivers a report without an error ends with a line that says that nothing is confirmed just with the
codes 0 and 3, and just if no outcome blocks. Where all findings count, this is so just if no outcome is real; where only
those of high severity do, just if none of those is. -/
theorem closing_agrees (p : Opening env args s) (h : p.verified = (.ok r, t)) (herror : r.error = none)
    (hexported : p.Exported r t) : ∃ before line, (invoke env args s).2.trace = before ++ [.showed (.line (.text line))] ∧
      Closes r p.options.failOnHigh line ∧
      (Acquits line ↔ (invoke env args s).1.code = 0 ∨ (invoke env args s).1.code = 3) ∧
      (p.options.failOnHigh = false → (Acquits line ↔ ∀ o ∈ r.outcomes, o.status ≠ .real)) ∧
      (p.options.failOnHigh = true →
        (Acquits line ↔ ∀ o ∈ r.outcomes, o.status = .real → o.finding.severity ≠ .high)) := by
  obtain ⟨before, line, htrace, hcloses⟩ := invoke_closes p h herror hexported
  have hacquits := acquits_iff hcloses
  refine ⟨before, line, htrace, hcloses, ?_, fun hall => ?_, fun hhigh => ?_⟩
  · rw [hacquits, invoke_of_exported p h hexported, Exit.code_ofReport_of_clear_iff herror]
  · rw [hacquits, hall]
    simp [Outcome.Blocks]
  · rw [hacquits, hhigh]
    simp [Outcome.Blocks]

/-! ### A finding that does not count -/

/-- Tables can be shown where the console shows everything. -/
theorem Opening.exported_of_table (p : Opening env args s) (hconsole : s.host.console = fun _ => none)
    (h : p.formats = [.table]) (hverified : p.verified = (.ok r, t)) : p.Exported r t := by
  have htakes : ∀ what, s.host.Takes what := fun what => congrFun hconsole what
  refine ⟨?_, fun _ _ => htakes _, htakes _⟩
  have htable : (p.client.close t).2.host.Takes (.table (Export.table r)) := host_of_close p hverified ▸ htakes _
  rw [h]
  exact ⟨_, _, Act.bind_of_ok (Run.put_of_takes htable)⟩

/-- Results with a finding of low severity. -/
def mildResults : String := "\x7b\"results\":\x7b\"detectors\":[\x7b\"check\":\"a\",\"impact\":\"low\"\x7d]\x7d\x7d"

/-- A scene with a file to be verified, by a judge to whom that finding is real. -/
def mildScene : Scene Float :=
  { Scene.ofService auditService (.file (Text.Utf8.encode mildResults)) with
    files := ⟨[(["a.sol"], .file [])], []⟩, patience := 2 }

/-- Whether only findings of high severity count and a table is to be shown of a report in which the one finding is real and of
low severity. -/
def Opening.isMild (p : Opening env args s) : Bool :=
  p.formats == [.table] && p.options.failOnHigh && p.verified.1.toOption.any fun r =>
    r.error.isNone && decide ((r.outcomes.map fun o => (o.status, o.finding.severity)) = [(.real, .low)])

theorem Opening.of_isMild {p : Opening env args s} (hconsole : s.host.console = fun _ => none) (h : p.isMild = true) :
    p.options.failOnHigh = true ∧
    ∃ r t o, p.verified = (.ok r, t) ∧ r.error = none ∧ p.Exported r t ∧ r.outcomes = [o] ∧ o.status = .real ∧
      o.finding.severity = .low := by
  rw [isMild, Bool.and_eq_true, Bool.and_eq_true] at h
  obtain ⟨⟨hformats, hhigh⟩, hreport⟩ := h
  obtain ⟨r, t, hverified, hmild⟩ := Act.eq_ok_of_any hreport
  obtain ⟨herror, houtcomes⟩ := (Bool.and_eq_true _ _).mp hmild
  obtain ⟨o, ho, hshown⟩ := List.map_eq_singleton_iff.1 (of_decide_eq_true houtcomes)
  obtain ⟨hstatus, hseverity⟩ := Prod.mk.inj hshown
  exact ⟨hhigh, r, t, o, hverified, Option.isNone_iff_eq_none.1 herror,
    p.exported_of_table hconsole (eq_of_beq hformats) hverified, ho,
    hstatus, hseverity⟩

theorem exists_isMild : ∃ p : Opening auditKey ["a.sol", "--fail-on-high"] mildScene, p.isMild = true := by
  have hmild : (opening? auditKey ["a.sol", "--fail-on-high"] mildScene).any Opening.isMild = true := by decide +kernel
  obtain ⟨hsome, hp⟩ := (Option.any_eq_true_iff_get _ _).1 hmild
  exact ⟨_, hp⟩

/-- The command says of the file of that scene that nothing is confirmed in it. -/
theorem closing_agrees_mild : ∃ (p : Opening auditKey ["a.sol", "--fail-on-high"] mildScene) (r : Report) (t : Scene Float),
    p.verified = (.ok r, t) ∧ r.error = none ∧ p.Exported r t ∧ ∃ before line,
      (invoke auditKey ["a.sol", "--fail-on-high"] mildScene).2.trace = before ++ [.showed (.line (.text line))] ∧
      Acquits line := by
  obtain ⟨p, hp⟩ := exists_isMild
  obtain ⟨hhigh, r, t, o, hverified, herror, hexported, houtcomes, -, hseverity⟩ := Opening.of_isMild rfl hp
  obtain ⟨before, line, htrace, -, -, -, hacquits⟩ := closing_agrees p hverified herror hexported
  refine ⟨p, r, t, hverified, herror, hexported, before, line, htrace, (hacquits hhigh).2 fun other ho _ => ?_⟩
  obtain rfl : other = o := by simpa [houtcomes] using ho
  simp [hseverity]

/-- Yet the finding is real: it is one of low severity, and only those of high severity count. -/
theorem mild_acquitted : ∃ (p : Opening auditKey ["a.sol", "--fail-on-high"] mildScene) (r : Report) (t : Scene Float),
    p.verified = (.ok r, t) ∧ r.error = none ∧ (∃ o ∈ r.outcomes, o.status = .real) ∧
      ∃ before, (invoke auditKey ["a.sol", "--fail-on-high"] mildScene).2.trace =
        before ++ [.showed (.line (.text "[green]No confirmed vulnerabilities[/]"))] := by
  obtain ⟨p, hp⟩ := exists_isMild
  obtain ⟨hhigh, r, t, o, hverified, herror, hexported, houtcomes, hstatus, hseverity⟩ := Opening.of_isMild rfl hp
  refine ⟨p, r, t, hverified, herror, ⟨o, by simp [houtcomes], hstatus⟩, ?_⟩
  obtain ⟨before, line, htrace, hcloses⟩ := invoke_closes p hverified herror hexported
  cases hcloses with
  | confirmed hblocks => simp [houtcomes, Outcome.Blocks, hhigh, hseverity] at hblocks
  | unjudged _ hunjudged => simp [houtcomes, hstatus] at hunjudged
  | clean => exact ⟨before, htrace⟩

end Adjudication.CommandLine
