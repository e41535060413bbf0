import Adjudication.Analyzer.Command
import Adjudication.Proofs.Schema.Checks
import Adjudication.Proofs.Template.Pieces
import Mathlib.Data.List.Forall2

/-!
What the parts of a command become. A part that is written of literal texts and of placeholders becomes these texts with the
name of the source and the path of the results between them, whatever characters name and path have. A command is accepted if
the texts of both placeholders occur in its parts. That is less than both placeholders: a text may occur because braces are
doubled, and other parts may be no templates at all.
-/

namespace Adjudication

/-! ### Occurrences -/

theorem occursIn_iff {piece s : List Char} : occursIn piece s = true ↔ piece <:+: s := by
  induction s with
  | nil => simp [occursIn]
  | cons c s ih => rw [occursIn, Bool.or_eq_true, List.isPrefixOf_iff_prefix, ih, List.infix_cons_iff]

theorem prefix_of_prefix_append_cons {c : Char} {v : List Char} :
    ∀ {piece u : List Char}, c ∉ piece → piece <+: u ++ c :: v → piece <+: u
  | [], _, _, _ => List.nil_prefix
  | d :: piece, [], hc, h => absurd ((List.cons_prefix_cons.1 h).1 ▸ .head _) hc
  | d :: piece, e :: u, hc, h => by
    obtain ⟨rfl, hrest⟩ := List.cons_prefix_cons.1 h
    exact List.cons_prefix_cons.2 ⟨rfl, prefix_of_prefix_append_cons (fun hm => hc (.tail _ hm)) hrest⟩

/-- What does not have a character lies on one side of it. -/
theorem infix_append_cons {c : Char} {piece v : List Char} (hc : c ∉ piece) :
    ∀ {u : List Char}, piece <:+: u ++ c :: v → piece <:+: u ∨ piece <:+: v
  | [], h => by
    rcases List.infix_cons_iff.1 h with hfirst | hinfix
    · exact .inl (prefix_of_prefix_append_cons (u := []) hc hfirst).isInfix
    · exact .inr hinfix
  | d :: u, h => by
    rcases List.infix_cons_iff.1 h with hfirst | hinfix
    · exact .inl (prefix_of_prefix_append_cons (u := d :: u) hc hfirst).isInfix
    · exact (infix_append_cons hc hinfix).imp_left List.infix_cons

theorem infix_intercalate_iff {c : Char} {piece : List Char} (hc : c ∉ piece) (hne : piece ≠ []) :
    ∀ {l : List (List Char)}, piece <:+: [c].intercalate l ↔ ∃ part ∈ l, piece <:+: part
  | [] => by simp [List.intercalate, hne]
  | [part] => by simp [List.intercalate]
  | part :: next :: rest => by
    have htail := infix_intercalate_iff hc hne (l := next :: rest)
    simp only [List.intercalate, List.intersperse_cons_cons, List.flatten_cons, List.singleton_append] at htail ⊢
    rw [List.exists_mem_cons_iff, ← htail]
    constructor
    · exact infix_append_cons hc
    · rintro (h | h)
      · exact h.trans (List.prefix_append _ _).isInfix
      · exact h.trans ((List.suffix_cons _ _).trans (List.suffix_append _ _)).isInfix

namespace Analyzer

open Template (Piece IsPlain)

variable {command : List String} {source output : Files.Path}

/-! ### Placeholders -/

/-- What a part of a command can ask for. -/
inductive Placeholder where
  | source
  | output
  deriving DecidableEq

namespace Placeholder

def name : Placeholder → String
  | .source => "source"
  | .output => "output"

/-- The text of a placeholder in a command. -/
def mark (p : Placeholder) : List Char := Template.field p.name.toList

/-- What a placeholder stands for. -/
def value (source output : Files.Path) : Placeholder → String
  | .source => source.name
  | .output => output.text

theorem isPlain (p : Placeholder) : IsPlain p.name.toList := by
  cases p with
  | source => exact ⟨by decide, by simp [name], Template.numberOf?_of_not_digit (by decide)⟩
  | output => exact ⟨by decide, by simp [name], Template.numberOf?_of_not_digit (by decide)⟩

theorem name_injective : Function.Injective name := by
  intro p q h
  cases p with
  | source => cases q with
    | source => rfl
    | output => exact absurd h (by decide)
  | output => cases q with
    | source => exact absurd h (by decide)
    | output => rfl

theorem value_placeholders (source output : Files.Path) (p : Placeholder) :
    ((placeholders source output).find? fun v => v.1 = p.name).map Prod.snd = some (p.value source output) := by
  cases p <;> rfl

end Placeholder

/-! ### Parts -/

theorem fill_part (source output : Files.Path) (pieces : List (Piece Placeholder)) :
    Template.fill (placeholders source output) (Template.written Placeholder.name pieces) =
      .ok (Template.meant (Placeholder.value source output) pieces) :=
  Template.fill_written Placeholder.isPlain (Placeholder.value_placeholders source output) pieces

/-- A part becomes an argument. -/
def Becomes (source output : Files.Path) (part argument : String) : Prop :=
  Template.fill (placeholders source output) part = .ok argument

/-- Every part becomes an argument, one each and in order, or some part cannot be filled in, and its fault is told. -/
theorem arguments_cases (command : List String) (source output : Files.Path) :
    (∃ argv, arguments command source output = .ok argv ∧ List.Forall₂ (Becomes source output) command argv) ∨
      ∃ fault, arguments command source output = .error fault ∧
        ∃ part ∈ command, Template.fill (placeholders source output) part = .error fault := by
  simp only [arguments]
  induction command with
  | nil => exact .inl ⟨[], rfl, .nil⟩
  | cons part command ih =>
    rw [List.mapM_cons]
    cases hpart : Template.fill (placeholders source output) part with
    | error fault => exact .inr ⟨fault, rfl, part, .head _, hpart⟩
    | ok argument =>
      obtain ⟨argv, hargv, hall⟩ | ⟨fault, hfault, bad, hbad, hfill⟩ := ih
      · rw [hargv]
        exact .inl ⟨argument :: argv, rfl, .cons hpart hall⟩
      · rw [hfault]
        exact .inr ⟨fault, rfl, bad, .tail _ hbad, hfill⟩

theorem exists_becomes {argv : List String} (h : List.Forall₂ (Becomes source output) command argv) {part : String}
    (hpart : part ∈ command) : ∃ argument ∈ argv, Becomes source output part argument := by
  obtain ⟨i, rfl⟩ := List.get_of_mem hpart
  exact ⟨_, List.get_mem argv _, h.get i.2 (h.length_eq ▸ i.2)⟩

/-- A part that is written of pieces becomes what they stand for. -/
theorem becomes_written_iff {pieces : List (Piece Placeholder)} {argument : String} :
    Becomes source output (Template.written Placeholder.name pieces) argument ↔
      argument = Template.meant (Placeholder.value source output) pieces := by
  rw [Becomes, fill_part, Except.ok.injEq, eq_comm]

/-- A part is written of literal texts and placeholders. -/
def IsWritten (part : String) : Prop := ∃ pieces, part = Template.written Placeholder.name pieces

/-- What cannot be filled in is not so written. -/
theorem not_isWritten_of_error {part : String} {fault : Template.Fault}
    (h : Template.fill (placeholders source output) part = .error fault) : ¬IsWritten part := by
  rintro ⟨pieces, rfl⟩
  rw [fill_part] at h
  cases h

theorem exists_arguments (h : ∀ part ∈ command, IsWritten part) (source output : Files.Path) :
    ∃ argv, arguments command source output = .ok argv ∧ List.Forall₂ (Becomes source output) command argv := by
  rcases arguments_cases command source output with hargv | ⟨fault, -, part, hpart, hfault⟩
  · exact hargv
  · exact absurd (h part hpart) (not_isWritten_of_error hfault)

/-- Parts that are written of literal texts and placeholders become, one each and in order, the texts with the values of the
placeholders between them. -/
theorem arguments_written (parts : List (List (Piece Placeholder))) (source output : Files.Path) :
    arguments (parts.map (Template.written Placeholder.name)) source output =
      .ok (parts.map (Template.meant (Placeholder.value source output))) := by
  have hwritten : ∀ part ∈ parts.map (Template.written Placeholder.name), IsWritten part :=
    List.forall_mem_map.2 fun pieces _ => ⟨pieces, rfl⟩
  obtain ⟨argv, hargv, hall⟩ := exists_arguments hwritten source output
  rw [List.forall₂_map_left_iff] at hall
  have hsame : List.Forall₂ (· = ·) (parts.map (Template.meant (Placeholder.value source output))) argv :=
    List.forall₂_map_left_iff.2 (hall.imp fun _ _ h => (becomes_written_iff.1 h).symm)
  rw [List.forall₂_eq_eq_eq] at hsame
  rw [hargv, hsame]

/-- A name that is written like a placeholder is a name. -/
example : arguments ["\x7b\x7b\x7bsource\x7d", "\x7boutput\x7d"] ⟨.none, ["\x7boutput\x7d"]⟩ ⟨.root, ["o"]⟩ =
    .ok ["\x7b\x7boutput\x7d", "/o"] := by
  decide

/-! ### Accepted commands -/

/-- A command lacks no placeholder if the text of each occurs in one of its parts. -/
theorem missingPlaceholder?_eq_none_iff :
    AnalyzerConfig.missingPlaceholder? command = none ↔ ∀ p : Placeholder, ∃ part ∈ command, p.mark <:+: part.toList := by
  have hoccurs : ∀ p : Placeholder, occursIn p.mark (" ".intercalate command).toList = true ↔
      ∃ part ∈ command, p.mark <:+: part.toList := by
    intro p
    have hblank : ' ' ∉ p.mark := by cases p <;> decide
    have hsep : " ".toList = [' '] := rfl
    rw [occursIn_iff, String.toList_intercalate, hsep, infix_intercalate_iff hblank (List.cons_ne_nil _ _)]
    simp
  have hsource : "\x7bsource\x7d".toList = Placeholder.mark .source := rfl
  have houtput : "\x7boutput\x7d".toList = Placeholder.mark .output := rfl
  simp only [← hoccurs, AnalyzerConfig.missingPlaceholder?, List.find?_eq_none, List.forall_mem_cons, hsource, houtput,
    Bool.not_eq_true', Bool.not_eq_false]
  constructor
  · rintro ⟨h, h', -⟩ (_ | _)
    · exact h
    · exact h'
  · exact fun h => ⟨h .source, h .output, List.forall_mem_nil _⟩

theorem checkCommand_eq_ok {δ : Type} [Schema.Shaped δ] {d : δ} (h : AnalyzerConfig.checkCommand d = .ok command) :
    command ≠ [] ∧ AnalyzerConfig.missingPlaceholder? command = none := by
  obtain ⟨parts, -, h⟩ := Schema.Checked.bind_eq_ok h
  split at h
  · cases h
  next hne =>
    split at h
    · cases h
    next hmissing =>
      obtain rfl := Schema.Checked.ok.inj h
      exact ⟨hne, hmissing⟩

/-- The command of a configuration that is accepted holds the texts of both placeholders. -/
theorem mark_infix_of_accepted {δ : Type} [Schema.Shaped δ] {d : δ} {config : AnalyzerConfig Float}
    (h : AnalyzerConfig.check d = .ok config) (p : Placeholder) : ∃ part ∈ config.command, p.mark <:+: part.toList := by
  obtain ⟨ms, -, hfields⟩ := Schema.record_eq_ok h
  obtain ⟨make, timeout, hmake, -, rfl⟩ := Schema.Checked.seq_eq_ok hfields
  obtain ⟨command, hcommand, rfl⟩ := Schema.Checked.map_eq_ok hmake
  obtain ⟨v, -, hv⟩ := Schema.exists_of_required hcommand
  exact missingPlaceholder?_eq_none_iff.1 (checkCommand_eq_ok hv).2 p

/-- A part is written of literal texts and placeholders, one of which is the given one. -/
def Asks (p : Placeholder) (part : String) : Prop :=
  ∃ pieces, part = Template.written Placeholder.name pieces ∧ .field p ∈ pieces

theorem Asks.isWritten {p : Placeholder} {part : String} (h : Asks p part) : IsWritten part := by
  obtain ⟨pieces, hpart, -⟩ := h
  exact ⟨pieces, hpart⟩

/-- A part that asks for a placeholder becomes an argument that holds its value. -/
theorem Asks.value_infix {p : Placeholder} {part argument : String} (h : Asks p part)
    (hargument : Becomes source output part argument) : (p.value source output).toList <:+: argument.toList := by
  obtain ⟨pieces, rfl, hmem⟩ := h
  obtain rfl := becomes_written_iff.1 hargument
  rw [Template.meant, String.toList_ofList, List.flatMap]
  exact List.infix_of_mem_flatten (List.mem_map_of_mem hmem)

/-- A part that holds the text of a placeholder and does not ask for it becomes an argument that holds the text as well. -/
theorem mark_infix_of_not_asks {p : Placeholder} {part argument : String} (hpart : IsWritten part) (hasks : ¬Asks p part)
    (hmark : p.mark <:+: part.toList) (hargument : Becomes source output part argument) :
    p.mark <:+: argument.toList := by
  obtain ⟨pieces, rfl⟩ := hpart
  obtain rfl := becomes_written_iff.1 hargument
  rw [Template.written, String.toList_ofList] at hmark
  rw [Template.meant, String.toList_ofList]
  rcases Template.mem_or_infix_meant Placeholder.isPlain Placeholder.name_injective pieces hmark with hmem | hinfix
  · exact absurd ⟨pieces, rfl, hmem⟩ hasks
  · exact hinfix

/-- What an accepted command becomes. If it becomes arguments, they are as many as its parts, and where a part asks for a
placeholder, one of them holds its value. If it does not, a part that is not written of literal texts and placeholders is to
blame. If all parts are, there are arguments; one of them holds the text of a placeholder as it is where no part asks for it. -/
theorem arguments_accepted {δ : Type} [Schema.Shaped δ] {d : δ} {config : AnalyzerConfig Float}
    (h : AnalyzerConfig.check d = .ok config) (source output : Files.Path) :
    (∀ argv, arguments config.command source output = .ok argv → argv.length = config.command.length ∧
      ∀ p : Placeholder, (∃ part ∈ config.command, Asks p part) →
        ∃ argument ∈ argv, (p.value source output).toList <:+: argument.toList) ∧
    (∀ fault, arguments config.command source output = .error fault →
      ∃ part ∈ config.command, ¬IsWritten part ∧ Template.fill (placeholders source output) part = .error fault) ∧
    ((∀ part ∈ config.command, IsWritten part) → ∃ argv, arguments config.command source output = .ok argv ∧
      ∀ p : Placeholder, (∀ part ∈ config.command, ¬Asks p part) → ∃ argument ∈ argv, p.mark <:+: argument.toList) := by
  refine ⟨fun argv hargv => ?_, fun fault hfault => ?_, fun hwritten => ?_⟩
  · obtain ⟨argv', hargv', hall⟩ | ⟨fault, hfault, -⟩ := arguments_cases config.command source output
    · obtain rfl := Except.ok.inj (hargv.symm.trans hargv')
      refine ⟨hall.length_eq.symm, fun p ⟨part, hpart, hasks⟩ => ?_⟩
      obtain ⟨argument, hmem, hbecomes⟩ := exists_becomes hall hpart
      exact ⟨argument, hmem, hasks.value_infix hbecomes⟩
    · cases hargv.symm.trans hfault
  · obtain ⟨argv, hargv, -⟩ | ⟨fault', hfault', part, hpart, hfill⟩ := arguments_cases config.command source output
    · cases hargv.symm.trans hfault
    · obtain rfl := Except.error.inj (hfault.symm.trans hfault')
      exact ⟨part, hpart, not_isWritten_of_error hfill, hfill⟩
  · obtain ⟨argv, hargv, hall⟩ := exists_arguments hwritten source output
    refine ⟨argv, hargv, fun p hnone => ?_⟩
    obtain ⟨part, hpart, hmark⟩ := mark_infix_of_accepted h p
    obtain ⟨argument, hmem, hbecomes⟩ := exists_becomes hall hpart
    exact ⟨argument, hmem, mark_infix_of_not_asks (hwritten part hpart) (hnone part hpart) hmark hbecomes⟩

/-- The settings of an analyzer with a command. -/
def settingsOf (command : List String) : Json := .obj [("command", .arr (command.map .str))]

theorem arguments_accepted_default :
    AnalyzerConfig.check (settingsOf AnalyzerConfig.defaultCommand) = .ok ⟨AnalyzerConfig.defaultCommand, 300.0⟩ ∧
      ∃ argv, arguments AnalyzerConfig.defaultCommand ⟨.none, ["a.sol"]⟩ ⟨.root, ["o"]⟩ = .ok argv ∧
        argv.length = 4 ∧ ∀ p : Placeholder, ∃ argument ∈ argv,
          (p.value ⟨.none, ["a.sol"]⟩ ⟨.root, ["o"]⟩).toList <:+: argument.toList := by
  have hcheck : AnalyzerConfig.check (settingsOf AnalyzerConfig.defaultCommand) =
      .ok ⟨AnalyzerConfig.defaultCommand, 300.0⟩ := rfl
  have hsource : Asks .source "\x7bsource\x7d" := ⟨[.field .source], by decide, .head _⟩
  have houtput : Asks .output "\x7boutput\x7d" := ⟨[.field .output], by decide, .head _⟩
  have hliteral : ∀ text ∈ ["slither", "--json"], IsWritten text := by
    simp only [List.forall_mem_cons]
    exact ⟨⟨[.literal "slither"], by decide⟩, ⟨[.literal "--json"], by decide⟩, List.forall_mem_nil _⟩
  obtain ⟨hvalues, -, harguments⟩ := arguments_accepted hcheck ⟨.none, ["a.sol"]⟩ ⟨.root, ["o"]⟩
  obtain ⟨argv, hargv, -⟩ := harguments (by
    simp only [AnalyzerConfig.defaultCommand, List.forall_mem_cons]
    exact ⟨hliteral _ (.head _), hsource.isWritten, hliteral _ (.tail _ (.head _)), houtput.isWritten,
      List.forall_mem_nil _⟩)
  obtain ⟨hlength, hvalues⟩ := hvalues argv hargv
  refine ⟨hcheck, argv, hargv, hlength, fun p => hvalues p ?_⟩
  cases p with
  | source => exact ⟨_, .tail _ (.head _), hsource⟩
  | output => exact ⟨_, .tail _ (.tail _ (.tail _ (.head _))), houtput⟩

/-- A command with a brace that stands alone is accepted and becomes nothing, whatever the paths are; one whose placeholders are
written with doubled braces is accepted and becomes their texts. -/
theorem arguments_braces :
    AnalyzerConfig.check (settingsOf ["\x7bsource\x7d", "\x7boutput\x7d", "\x7b"]) =
        .ok ⟨["\x7bsource\x7d", "\x7boutput\x7d", "\x7b"], 300.0⟩ ∧
      (∀ source output, arguments ["\x7bsource\x7d", "\x7boutput\x7d", "\x7b"] source output =
        .error (.malformed "Single '\x7b' encountered in format string")) ∧
      AnalyzerConfig.check (settingsOf ["\x7b\x7bsource\x7d\x7d", "\x7b\x7boutput\x7d\x7d"]) =
        .ok ⟨["\x7b\x7bsource\x7d\x7d", "\x7b\x7boutput\x7d\x7d"], 300.0⟩ ∧
      ∀ source output, arguments ["\x7b\x7bsource\x7d\x7d", "\x7b\x7boutput\x7d\x7d"] source output =
        .ok ["\x7bsource\x7d", "\x7boutput\x7d"] := by
  refine ⟨rfl, fun _ _ => rfl, rfl, fun _ _ => rfl⟩

end Analyzer
end Adjudication
