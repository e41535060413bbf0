import Adjudication.Proofs.Export.Agreement

/-!
The rules of a log and its results. There is one rule for each check that an outcome has, in the order in which the checks first
come, and its severity is that of the first outcome with the check. The results are those of the outcomes, in their order; each
names one of the rules, says where it is and has a message, since no check of a report is without a name.
-/

namespace Adjudication

/-! ### The checks of a report -/

namespace Report

/-- The checks of the outcomes of a report. -/
def checks (r : Report) : List String := r.outcomes.map fun o => o.finding.checkId

/-- Every outcome names its check. -/
def Named (r : Report) : Prop := ∀ o ∈ r.outcomes, o.finding.checkId ≠ ""

end Report

/-- In the report of a run every outcome names its check. -/
theorem Verifier.named_of_verify {v : Verifier Float} {source : Source} {given : Option Time.TokenId} {runId : Option String}
    {s t : Scene Float} {r : Report} (h : v.verify source given runId s = (.ok r, t)) : r.Named := fun o ho =>
  ((fits_of_verify h).outcomes o ho).finding.checkId

section Accepted

open Schema

variable {δ : Type} [Shaped δ] {d : δ}

theorem Finding.checkId_ne_empty_of_check {f : Finding} (h : check d = .ok f) : f.checkId ≠ "" := by
  obtain ⟨ms, -, hfields⟩ := record_eq_ok h
  obtain ⟨_, fingerprint, hcertainty, -, rfl⟩ := Checked.seq_eq_ok hfields
  obtain ⟨_, certainty, hlocations, -, rfl⟩ := Checked.seq_eq_ok hcertainty
  obtain ⟨_, locations, hdescription, -, rfl⟩ := Checked.seq_eq_ok hlocations
  obtain ⟨_, description, hseverity, -, rfl⟩ := Checked.seq_eq_ok hdescription
  obtain ⟨_, severity, hcheckId, -, rfl⟩ := Checked.seq_eq_ok hseverity
  obtain ⟨checkId, hmember, rfl⟩ := Checked.map_eq_ok hcheckId
  obtain ⟨v, -, hv⟩ := exists_of_required hmember
  obtain ⟨name, -, hlong⟩ := Checked.bind_eq_ok hv
  split at hlong
  · cases hlong
  next hlength =>
    obtain rfl := Checked.ok.inj hlong
    rintro rfl
    exact hlength (by decide)

theorem Outcome.exists_check_finding {o : Outcome} (h : check d = .ok o) : ∃ v : δ, Finding.check v = .ok o.finding := by
  obtain ⟨ms, -, hfields⟩ := record_eq_ok h
  obtain ⟨⟨f, judgment, failure⟩, hparts, hruling⟩ := Checked.bind_eq_ok hfields
  obtain ⟨_, _, hjudgment, -, heq⟩ := Checked.seq_eq_ok hparts
  obtain ⟨_, _, hfinding, -, rfl⟩ := Checked.seq_eq_ok hjudgment
  obtain ⟨_, hmember, rfl⟩ := Checked.map_eq_ok hfinding
  obtain ⟨rfl, rfl, rfl⟩ := heq
  obtain ⟨v, -, hv⟩ := exists_of_required hmember
  refine ⟨v, hv.trans (congrArg Checked.ok ?_)⟩
  split at hruling
  next heq =>
    obtain rfl := Checked.ok.inj hruling
    exact congrArg Prod.fst heq
  next heq =>
    obtain rfl := Checked.ok.inj hruling
    exact congrArg Prod.fst heq
  next => cases hruling

/-- In a report that is accepted every outcome names its check. -/
theorem Report.named_of_check {r : Report} (h : check d = .ok r) : r.Named := by
  obtain ⟨ms, -, hfields⟩ := record_eq_ok h
  obtain ⟨_, warnings, herror, -, rfl⟩ := Checked.seq_eq_ok hfields
  obtain ⟨_, error, houtcomes, -, rfl⟩ := Checked.seq_eq_ok herror
  obtain ⟨_, outcomes, hcode, hrow, rfl⟩ := Checked.seq_eq_ok houtcomes
  obtain ⟨_, _, hmodel, -, rfl⟩ := Checked.seq_eq_ok hcode
  obtain ⟨_, _, hfinished, -, rfl⟩ := Checked.seq_eq_ok hmodel
  obtain ⟨_, _, hstarted, -, rfl⟩ := Checked.seq_eq_ok hfinished
  obtain ⟨_, _, hstatus, -, rfl⟩ := Checked.seq_eq_ok hstarted
  obtain ⟨_, _, hsource, -, rfl⟩ := Checked.seq_eq_ok hstatus
  obtain ⟨_, -, rfl⟩ := Checked.map_eq_ok hsource
  intro o ho
  rcases eq_or_exists_of_defaulted hrow with rfl | ⟨v, hv⟩
  · cases ho
  · obtain ⟨w, hw⟩ := exists_of_mem_tupleOf hv o ho
    obtain ⟨f, hf⟩ := Outcome.exists_check_finding hw
    exact Finding.checkId_ne_empty_of_check hf

end Accepted

namespace Export.Sarif

open Schema (Step)

variable {fs : List Finding} {rules : List Rule} {f : Finding}

/-! ### Rules -/

/-- The rules of findings: one for each check, in the order in which the checks first come, with the severity of the first
finding that has the check. -/
structure Ruled (fs : List Finding) (rules : List Rule) : Prop where
  distinct : (rules.map Rule.id).Nodup
  occurring : ∀ id, id ∈ rules.map Rule.id ↔ id ∈ fs.map Finding.checkId
  inOrder : (rules.map Rule.id).Pairwise fun a b =>
    (fs.map Finding.checkId).idxOf a < (fs.map Finding.checkId).idxOf b
  severity : ∀ rule ∈ rules, ∃ f, fs.find? (fun f => f.checkId = rule.id) = some f ∧ f.severity = rule.severity

theorem Ruled.severity_concat (h : Ruled fs rules) (f : Finding) : ∀ rule ∈ rules, ∃ first,
    (fs ++ [f]).find? (fun f => f.checkId = rule.id) = some first ∧ first.severity = rule.severity := by
  intro rule hrule
  obtain ⟨first, hfirst, hseverity⟩ := h.severity rule hrule
  exact ⟨first, by rw [List.find?_append, hfirst]; rfl, hseverity⟩

theorem Ruled.inOrder_concat (h : Ruled fs rules) (f : Finding) : (rules.map Rule.id).Pairwise fun a b =>
    ((fs ++ [f]).map Finding.checkId).idxOf a < ((fs ++ [f]).map Finding.checkId).idxOf b := by
  have hsame : ∀ id ∈ rules.map Rule.id, ((fs ++ [f]).map Finding.checkId).idxOf id = (fs.map Finding.checkId).idxOf id := by
    intro id hid
    rw [List.map_append, List.idxOf_append_of_mem ((h.occurring id).1 hid)]
  refine h.inOrder.imp_of_mem fun {a b} ha hb hab => ?_
  rw [hsame a ha, hsame b hb]
  exact hab

/-- A finding whose check has a rule leaves the rules as they are. -/
theorem Ruled.keep (h : Ruled fs rules) (hf : f.checkId ∈ rules.map Rule.id) : Ruled (fs ++ [f]) rules where
  distinct := h.distinct
  occurring id := by
    rw [List.map_append, List.mem_append, h.occurring id]
    constructor
    · exact .inl
    · rintro (hid | hlast)
      · exact hid
      · obtain rfl := List.mem_singleton.1 hlast
        exact (h.occurring _).1 hf
  inOrder := h.inOrder_concat f
  severity := h.severity_concat f

/-- The rule of a check that has none comes last. -/
theorem Ruled.add (h : Ruled fs rules) (hf : f.checkId ∉ rules.map Rule.id) :
    Ruled (fs ++ [f]) (rules ++ [⟨f.checkId, f.severity⟩]) where
  distinct := by
    rw [List.map_append]
    refine h.distinct.append (List.nodup_singleton _) fun id hid hlast => hf ?_
    rwa [List.mem_singleton.1 hlast] at hid
  occurring id := by
    rw [List.map_append, List.mem_append, List.map_append, List.mem_append, h.occurring id]
    rfl
  inOrder := by
    rw [@List.map_append _ _ Rule.id]
    refine List.pairwise_append.2 ⟨h.inOrder_concat f, List.pairwise_singleton _ _, fun a ha b hb => ?_⟩
    obtain rfl := List.mem_singleton.1 hb
    have hbefore : a ∈ fs.map Finding.checkId := (h.occurring a).1 ha
    have hnew : f.checkId ∉ fs.map Finding.checkId := fun hmem => hf ((h.occurring _).2 hmem)
    rw [List.map_append, List.idxOf_append_of_mem hbefore, List.idxOf_append_of_notMem hnew]
    exact Nat.lt_add_right _ (List.idxOf_lt_length_of_mem hbefore)
  severity rule hrule := by
    rcases List.mem_append.1 hrule with hrule | hlast
    · exact h.severity_concat f rule hrule
    · obtain rfl := List.mem_singleton.1 hlast
      have hnone : fs.find? (fun g => g.checkId = f.checkId) = none := List.find?_eq_none.2 fun g hg => by
        simpa using fun heq => hf ((h.occurring _).2 (List.mem_map.2 ⟨g, hg, heq⟩))
      exact ⟨f, by rw [List.find?_append, hnone]; simp, rfl⟩

theorem Ruled.addRule (h : Ruled fs rules) (f : Finding) : Ruled (fs ++ [f]) (addRule rules f) := by
  rw [Sarif.addRule]
  split
  next hany =>
    obtain ⟨rule, hrule, hid⟩ := List.any_eq_true.1 hany
    exact h.keep (List.mem_map.2 ⟨rule, hrule, of_decide_eq_true hid⟩)
  next hany =>
    refine h.add fun hmem => hany ?_
    obtain ⟨rule, hrule, hid⟩ := List.mem_map.1 hmem
    exact List.any_eq_true.2 ⟨rule, hrule, decide_eq_true hid⟩

theorem ruled_rulesOf (fs : List Finding) : Ruled fs (rulesOf fs) := by
  induction fs using List.reverseRecOn with
  | nil => exact ⟨.nil, fun _ => .rfl, .nil, fun _ h => absurd h List.not_mem_nil⟩
  | append_singleton fs f ih =>
    rw [rulesOf, List.foldl_append]
    exact ih.addRule f

/-- A finding of which nothing is told but its check and how severe it is. -/
def bare (checkId : String) (severity : Severity) : Finding := ⟨checkId, severity, "", [], none, none⟩

example : rulesOf [bare "reentrancy" .high, bare "timestamp" .low, bare "reentrancy" .medium] =
    [⟨"reentrancy", .high⟩, ⟨"timestamp", .low⟩] := by decide

/-! ### The parts of a log -/

variable {r : Report} {o : Outcome} {jsons results : List Json} {sourceId : Text.Wide}

/-- A rule is shown with the name of its check and the severity of the first outcome that has the check. -/
structure ShowsRule (r : Report) (id : String) (rule : Json) : Prop where
  named : rule.at? [.field "id"] = some (.str id)
  severity : ∃ first, r.outcomes.find? (fun o => o.finding.checkId = id) = some first ∧
    rule.at? [.field "properties", .field "severity"] = some (.str first.finding.severity.name)

/-- The rules that the log of a report shows: one for each check of the outcomes, in the order in which the checks first come. -/
structure RuleTable (r : Report) (ids : List String) (rules : List Json) : Prop where
  shown : List.Forall₂ (ShowsRule r) ids rules
  distinct : ids.Nodup
  occurring : ∀ id, id ∈ ids ↔ id ∈ r.checks
  inOrder : ids.Pairwise fun a b => r.checks.idxOf a < r.checks.idxOf b

theorem ruleTable (r : Report) : RuleTable r ((rulesOf (r.outcomes.map Outcome.finding)).map Rule.id)
    ((rulesOf (r.outcomes.map Outcome.finding)).map Rule.toJson) := by
  have hruled := ruled_rulesOf (r.outcomes.map Outcome.finding)
  have hchecks : (r.outcomes.map Outcome.finding).map Finding.checkId = r.checks := List.map_map
  refine ⟨?_, hruled.distinct, hchecks ▸ hruled.occurring, hchecks ▸ hruled.inOrder⟩
  rw [List.forall₂_map_left_iff, List.forall₂_map_right_iff, List.forall₂_same]
  intro rule hrule
  obtain ⟨f, hfirst, hseverity⟩ := hruled.severity rule hrule
  rw [List.find?_map, Option.map_eq_some_iff] at hfirst
  obtain ⟨first, hfirst, rfl⟩ := hfirst
  exact ⟨rfl, first, hfirst, hseverity ▸ rfl⟩

theorem RuleTable.map_named {ids : List String} (h : RuleTable r ids jsons) :
    jsons.map (Json.at? [.field "id"]) = ids.map fun id => some (.str id) := by
  obtain ⟨hshown, -, -, -⟩ := h
  induction hshown with
  | nil => rfl
  | cons hrule _ ih => rw [List.map_cons, List.map_cons, hrule.named, ih]

/-- One of the rules of a table, and no other, has the name of a check that comes. -/
theorem RuleTable.existsUnique {ids : List String} (h : RuleTable r ids jsons) {id : String} (hid : id ∈ r.checks) :
    ∃! i : Nat, ∃ rule, jsons[i]? = some rule ∧ rule.at? [.field "id"] = some (.str id) := by
  have hiff : ∀ i : Nat, (∃ rule, jsons[i]? = some rule ∧ rule.at? [.field "id"] = some (.str id)) ↔ ids[i]? = some id := by
    intro i
    rw [← Option.map_eq_some_iff, ← List.getElem?_map, h.map_named, List.getElem?_map]
    simp
  obtain ⟨i, hi⟩ := List.mem_iff_getElem?.1 ((h.occurring id).2 hid)
  refine ⟨i, (hiff i).2 hi, fun j hj => ?_⟩
  have hlt : i < ids.length := (List.getElem?_eq_some_iff.1 hi).1
  exact ((List.getElem?_inj hlt h.distinct).1 (hi.trans ((hiff j).1 hj).symm)).symm

/-- A result is that of an outcome: it names one of the rules, has the verdict, says where it is, and has a message. -/
structure ShowsResult (sourceId : Text.Wide) (rules : List Json) (o : Outcome) (result : Json) : Prop where
  check : result.at? [.field "ruleId"] = some (.str o.finding.checkId)
  rule : ∃! i : Nat, ∃ rule, rules[i]? = some rule ∧ rule.at? [.field "id"] = result.at? [.field "ruleId"]
  verdict : result.at? [.field "properties", .field "verdict"] = some (.str o.status.name)
  places : ∃ places, result.at? [.field "locations"] = some (.arr places) ∧ places ≠ [] ∧
    places.map (Json.at? [.field "physicalLocation", .field "artifactLocation", .field "uri"]) =
      (if o.finding.locations = [] then [sourceId] else o.finding.locations.map Location.file).map fun uri => some (.ofWide uri)
  message : ∃ text, result.at? [.field "message", .field "text"] = some (.ofWide text) ∧ text ≠ .text "" ∧
    (o.finding.description ≠ .text "" → text = o.finding.description)

theorem locations_ne_nil (sourceId : Text.Wide) (f : Finding) : locations sourceId f ≠ [] := by
  rw [locations]
  split
  next => exact List.cons_ne_nil _ _
  next hne => simpa using hne

theorem uris_locations (sourceId : Text.Wide) (f : Finding) :
    (locations sourceId f).map (Json.at? [.field "physicalLocation", .field "artifactLocation", .field "uri"]) =
      (if f.locations = [] then [sourceId] else f.locations.map Location.file).map fun uri => some (.ofWide uri) := by
  rw [locations]
  split
  next => rfl
  next =>
    rw [List.map_map, List.map_map]
    rfl

theorem message_ne_empty (h : f.checkId ≠ "") : message f ≠ .text "" := by
  rw [message]
  split
  next => exact fun he => h (Text.Wide.text.inj he)
  next hne => exact hne

theorem RuleTable.showsResult {ids : List String} (h : RuleTable r ids jsons) (ho : o ∈ r.outcomes)
    (hnamed : o.finding.checkId ≠ "") : ShowsResult r.sourceId jsons o (result r.sourceId o) where
  check := rfl
  rule := h.existsUnique (List.mem_map_of_mem ho)
  verdict := rfl
  places := ⟨_, rfl, locations_ne_nil _ _, uris_locations _ _⟩
  message := ⟨message o.finding, rfl, message_ne_empty hnamed, fun hne => if_neg hne⟩

/-- The log of a report in which every outcome names its check. Its one run has a rule for each of the checks, in the order in
which they first come and with the severity that they first come with, and a result for each outcome, in their order, which
names just one of the rules, is somewhere and has a message. The run tells of its invocations just if the report has an error. -/
theorem log_tabulated (tool : Tool) {r : Report} (h : r.Named) : ∃ run ids rules results,
    (log tool r).at? [.field "runs"] = some (.arr [run]) ∧
    run.at? [.field "tool", .field "driver", .field "rules"] = some (.arr rules) ∧
    run.at? [.field "results"] = some (.arr results) ∧
    RuleTable r ids rules ∧ List.Forall₂ (ShowsResult r.sourceId rules) r.outcomes results ∧
    ((run.at? [.field "invocations"]).isSome ↔ r.error.isSome) := by
  refine ⟨_, _, _, _, rfl, rfl, rfl, ruleTable r, ?_, ?_⟩
  · rw [List.forall₂_map_right_iff, List.forall₂_same]
    exact fun o ho => (ruleTable r).showsResult ho (h o ho)
  · cases r.error with
    | none => exact ⟨nofun, nofun⟩
    | some e => exact ⟨fun _ => rfl, fun _ => rfl⟩

/-- A report of findings none of which could be judged. -/
def unjudged (fs : List Finding) : Report :=
  { sourceId := "a.sol", status := .success, startedAt := .ofEpoch 0 0, finishedAt := .ofEpoch 1 0, judgeModel := none,
    analyzerExitCode := some 0, error := none, warnings := [],
    outcomes := fs.map fun f => ⟨f, .failed ⟨.exhaustedRetries, "", 4, none⟩⟩ }

/-- A report in which a check comes again, with another severity. -/
def repeated : Report := unjudged [bare "reentrancy" .high, bare "timestamp" .low, bare "reentrancy" .medium]

theorem log_tabulated_repeated : Report.check repeated.toJson = .ok repeated ∧ repeated.Named ∧ ∃ run ids rules results,
    (log Tool.standard repeated).at? [.field "runs"] = some (.arr [run]) ∧
    run.at? [.field "tool", .field "driver", .field "rules"] = some (.arr rules) ∧
    run.at? [.field "results"] = some (.arr results) ∧
    RuleTable repeated ids rules ∧ List.Forall₂ (ShowsResult "a.sol" rules) repeated.outcomes results ∧
    (run.at? [.field "invocations"]).isSome = false := by
  have hcheck : Report.check repeated.toJson = .ok repeated := by cbv
  have hnamed : repeated.Named := Report.named_of_check hcheck
  obtain ⟨run, ids, rules, results, hrun, hrules, hresults, htable, hshown, herror⟩ := log_tabulated Tool.standard hnamed
  have hnone : (run.at? [.field "invocations"]).isSome = false :=
    Bool.eq_false_iff.2 fun h => Bool.false_ne_true (herror.1 h)
  exact ⟨hcheck, hnamed, run, ids, rules, results, hrun, hrules, hresults, htable, hshown, hnone⟩

end Export.Sarif
end Adjudication
